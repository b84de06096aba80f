import KludgeOS.Privilege

/-!
What `user_mem_check` (`kern/pmap.c`) decides, against what it is for: whether
an address space lets a range of addresses through.
-/

namespace KludgeOS
open BitVec (ofNat)
open BitVec Option Kern

lemma PDX_lt (la : Word) : PDX la < NPDENTRIES := by
  rw [PDX_eq]
  have := PPN_lt la
  have : NPDENTRIES = 1024 := rfl
  omega

namespace Kern

def Walkable (s : Kern) (g : Nat) : Prop :=
  ∀ d < NPDENTRIES, Present (s.mem g d) → PPN (s.mem g d) < s.npage

/-- Page `n` is below `ULIM` and present with all bits of `perm`. -/
def PageOk (s : Kern) (g : Nat) (perm : Word) (n : Nat) : Prop :=
  n < PPN ULIM ∧ ∃ w, xlate s.mem g n = some w ∧ w&&&perm = perm

def RangeOk (s : Kern) (g : Nat) (va len perm : Word) : Prop :=
  va.toNat+len.toNat < 2^32 ∧
  ∀ a, va.toNat ≤ a → a < va.toNat+len.toNat → s.PageOk g perm (a/4096)

def FirstBad (s : Kern) (g : Nat) (va len perm a : Word) : Prop :=
  va.toNat ≤ a.toNat ∧ a.toNat < va.toNat+len.toNat ∧ ¬s.PageOk g perm (a.toNat/4096) ∧
  ∀ b, va.toNat ≤ b → b < a.toNat → s.PageOk g perm (b/4096)

/-- What `user_mem_check` is for. -/
def CheckExact (s : Kern) (g : Nat) (va len perm : Word) : Prop :=
  (s.RangeOk g va len perm → s.userMemCheck g va len perm = some none) ∧
  (¬s.RangeOk g va len perm →
    ∃ a, s.userMemCheck g va len perm = some (some a) ∧ s.FirstBad g va len perm a)

/-- The test each round makes, of the page of `va`. `PTE_P` itself is not looked at in the
table entry. -/
def RoundOk (s : Kern) (g : Nat) (va perm : Word) : Prop :=
  va < ULIM ∧ Present (s.mem g (PDX va)) ∧
  s.mem (PPN (s.mem g (PDX va))) (PTX va)&&&perm = perm

instance (s : Kern) (g : Nat) (va perm : Word) : Decidable (s.RoundOk g va perm) :=
  inferInstanceAs (Decidable (_ ∧ _ ∧ _))

def rounds (va len : Word) : Nat :=
  let b := va-ofNat 32 (va.toNat%PGSIZE)
  let e := va+len+ofNat 32 (PGSIZE-1)
  let e := e-ofNat 32 (e.toNat%PGSIZE)
  (b-e).toNat/PGSIZE

section check

variable {s : Kern} {g : Nat} {va len perm : Word}

lemma userMemLoop_eq (hw : s.Walkable g) (va perm : Word) (n : Nat) :
    ∀ b, s.userMemLoop g va perm n b =
      some (if n = 0 ∨ s.RoundOk g va perm then none else some (if va < b then b else va)) := by
  induction n with
  | zero => intro b; simp [userMemLoop]
  | succ n ih =>
    intro b
    rw [userMemLoop]
    by_cases hva : ULIM ≤ va
    · have hr : ¬s.RoundOk g va perm := fun h => absurd h.1 (BitVec.not_lt.mpr hva)
      simp [hva,hr]
    by_cases hp : Present (s.mem g (PDX va))
    · rw [if_neg hva,pgdirWalk_present hp (hw _ (PDX_lt va) hp)]
      simp only [bind,Option.bind]
      by_cases hpte : s.mem (PPN (s.mem g (PDX va))) (PTX va)&&&perm = perm
      · have hr : s.RoundOk g va perm := ⟨BitVec.not_le.mp hva,hp,hpte⟩
        rw [if_pos hpte,ih]
        simp [hr]
      have hr : ¬s.RoundOk g va perm := fun h => hpte h.2.2
      rw [if_neg hpte]
      simp [hr]
    have hr : ¬s.RoundOk g va perm := fun h => hp h.2.1
    rw [if_neg hva,pgdirWalk_absent hp]
    simp [hr]

lemma userMemCheck_eq (hw : s.Walkable g) : s.userMemCheck g va len perm =
      some (if rounds va len = 0 ∨ s.RoundOk g va perm then none else some va) := by
  have hb : ¬va < va-ofNat 32 (va.toNat%PGSIZE) := by
    intro h
    have h' : va.toNat < (va-ofNat 32 (va.toNat%PGSIZE)).toNat := h
    have := va.isLt
    rw [toNat_sub,toNat_ofNat,PGSIZE_eq] at h'
    omega
  have h := userMemLoop_eq hw va perm (rounds va len)
    (va-ofNat 32 (va.toNat%PGSIZE))
  rw [if_neg hb] at h
  exact h

lemma lt_ULIM_iff : va < ULIM ↔ PPN va < PPN ULIM := by
  rw [PPN_eq,PPN_eq,lt_def,show ULIM.toNat = 4018143232 from rfl]
  omega

lemma PageOk.roundOk (h : s.PageOk g perm (PPN va)) : s.RoundOk g va perm := by
  obtain ⟨hlt,w,hw,hp⟩ := h
  unfold xlate at hw
  rw [← PDX_eq,← PTX_eq] at hw
  split at hw
  · rename_i hpde
    split at hw
    · cases hw
      exact ⟨lt_ULIM_iff.mpr hlt,hpde,hp⟩
    cases hw
  cases hw

lemma RangeOk.pageOk (h : s.RangeOk g va len perm) (hlen : 0 < len.toNat) :
    s.PageOk g perm (PPN va) := by
  rw [PPN_eq]
  exact h.2 _ le_rfl (by omega)

end check
end Kern

lemma Inv.walkable {K : Finset Nat} {s : Kern} (h : Inv K NoHand s) {e : Nat} (he : s.Live e) :
    s.Walkable (s.pgdir e) := by
  intro d hd hp
  have hdir : s.pgdir e < s.npage :=
    (h.held (.dir e) (by simpa using he.1) _ (holds_dir he)).1
  have hnp := h.npage_le
  by_cases hv : d = PDX VPT
  · have hw := h.half.env_vpt e he
    rw [hv,show s.mem (s.pgdir e) (PDX VPT) = _ from hw,BitVec.or_assoc,
      PPN_pte (by omega) (by decide)]
    exact hdir
  by_cases hu : d = PDX UVPT
  · have hw := h.half.env_uvpt e he
    rw [hu,show s.mem (s.pgdir e) (PDX UVPT) = _ from hw,BitVec.or_assoc,
      PPN_pte (by omega) (by decide)]
    exact hdir
  by_cases hlow : d < NUPDE
  · exact (h.held (.pde e d) (by simpa using ⟨he.1,hlow⟩) _ (holds_pde he hp)).1
  have hb := h.half.env_high e he d (by omega) hd hv hu
  rw [show s.mem (s.pgdir e) d = _ from hb] at hp ⊢
  exact h.half.kernel_lt _ (h.half.boot_high d (by omega) hd hv hu hp).1

theorem userMemCheck_exact {s : Kern} {g : Nat} (hw : s.Walkable g) (va len perm : Word) :
    s.CheckExact g va len perm ↔
      if rounds va len = 0 ∨ s.RoundOk g va perm then s.RangeOk g va len perm
      else 0 < len.toNat := by
  unfold CheckExact
  rw [userMemCheck_eq hw]
  by_cases hp : rounds va len = 0 ∨ s.RoundOk g va perm
  · rw [if_pos hp,if_pos hp]
    constructor
    · rintro ⟨_,hbad⟩
      by_contra hr
      obtain ⟨a,ha,_⟩ := hbad hr
      exact nomatch ha
    intro hr
    exact ⟨fun _ => rfl,fun hn => absurd hr hn⟩
  rw [if_neg hp,if_neg hp]
  constructor
  · rintro ⟨hok,hbad⟩
    have hr : ¬s.RangeOk g va len perm := fun hr => nomatch hok hr
    obtain ⟨a,ha,hfirst⟩ := hbad hr
    have := hfirst.1
    have := hfirst.2.1
    omega
  intro hlen
  have hpage : ¬s.PageOk g perm (PPN va) := fun h => hp (.inr h.roundOk)
  refine ⟨fun hr => absurd (hr.pageOk hlen) hpage,fun _ => ⟨va,rfl,le_rfl,?_,?_,?_⟩⟩
  · omega
  · rwa [← PPN_eq]
  intro b hb hlt
  omega

lemma loneRun_stack {s : Kern} (hs : execAll loneRun (bootKern 8) = some s) : s.Live 0 ∧
    s.RoundOk (s.pgdir 0) (USTACKTOP-4) PTE_U ∧ xlate s.mem (s.pgdir 0) (PPN USTACKTOP) = none ∧
    (xlate s.mem (s.pgdir 0) (PPN (USTACKTOP-1))).map (fun w => w&&&PTE_U) = some PTE_U := by
  have hrun : (execAll loneRun (bootKern 8)).map (fun s =>
      decide (s.Live 0 ∧ s.RoundOk (s.pgdir 0) (USTACKTOP-4) PTE_U ∧
        xlate s.mem (s.pgdir 0) (PPN USTACKTOP) = none ∧
        (xlate s.mem (s.pgdir 0) (PPN (USTACKTOP-1))).map (fun w => w&&&PTE_U) = some PTE_U)) =
        some true := by decide +kernel
  rw [hs] at hrun
  exact of_decide_eq_true (some.inj hrun)

lemma loneRun_reachable {s : Kern} (hs : execAll loneRun (bootKern 8) = some s) : Reachable {0} s :=
  execAll_reachable hs

theorem userMemCheck_exact_stack : ∃ s : Kern, Reachable {0} s ∧ s.Walkable (s.pgdir 0) ∧
    s.CheckExact (s.pgdir 0) (USTACKTOP-4) 4 PTE_U := by
  obtain ⟨s,hs⟩ := loneRun_runs
  obtain ⟨hl,_,_,hx⟩ := loneRun_stack hs
  have hr := loneRun_reachable hs
  have hw := hr.good.inv.walkable hl
  obtain ⟨w,hw',hu⟩ := map_eq_some_iff.mp hx
  refine ⟨s,hr,hw,(userMemCheck_exact hw _ _ _).mpr ?_⟩
  split
  · refine ⟨by decide,fun a h1 h2 => ⟨?_,w,?_,hu⟩⟩
    all_goals
      rw [show (USTACKTOP-4).toNat = 4005552124 from rfl] at h1 h2
      rw [show (4 : Word).toNat = 4 from rfl] at h2
    · rw [show PPN ULIM = 980992 from by decide]
      omega
    rw [show a/4096 = PPN (USTACKTOP-1) from by
      rw [show PPN (USTACKTOP-1) = 977917 from by decide]; omega]
    exact hw'
  · decide

theorem userMemCheck_inexact : ∃ s : Kern, Reachable {0} s ∧ s.Live 0 ∧
    s.userMemCheck (s.pgdir 0) (USTACKTOP-4) 8 PTE_U = some none ∧ ¬s.RangeOk (s.pgdir 0)
    (USTACKTOP-4) 8 PTE_U ∧ ¬s.CheckExact (s.pgdir 0) (USTACKTOP-4) 8 PTE_U := by
  obtain ⟨s,hs⟩ := loneRun_runs
  obtain ⟨hl,hok,hno,_⟩ := loneRun_stack hs
  have hr := loneRun_reachable hs
  have hchk : s.userMemCheck (s.pgdir 0) (USTACKTOP-4) 8 PTE_U = some none := by
    rw [userMemCheck_eq (hr.good.inv.walkable hl),if_pos (.inr hok)]
  have hrange : ¬s.RangeOk (s.pgdir 0) (USTACKTOP-4) 8 PTE_U := by
    intro h
    obtain ⟨_,w,hw,_⟩ := h.2 USTACKTOP.toNat (by decide) (by decide)
    rw [← PPN_eq,hno] at hw
    exact nomatch hw
  refine ⟨s,hr,hl,hchk,hrange,fun h => ?_⟩
  obtain ⟨a,ha,_⟩ := h.2 hrange
  rw [hchk] at ha
  exact nomatch ha

end KludgeOS
