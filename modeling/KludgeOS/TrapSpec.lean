import KludgeOS.SyscallSpec

/-!
Traps and user-mode stores as sequences of events, and the invariant of every
reachable state.
-/

namespace KludgeOS
open Event List Option
open Kern (pde BadVa BadPerm Flow Live modEnv_self)
open Event (apply edit)

open Ledger Traces

def Event.Stores (e : Nat) : Event → Prop
  | .store e' _ _ _ => e' = e
  | _ => False

section stays

variable {K : Finset Nat} {s s' : Kern} {c : Nat} {a : Event}

lemma Event.stays_live (h : Inv K NoHand s) (hok : a.Ok s) (ha : a.Stays) (hc : s.Live c) :
    (a.apply s).Live c := by
  by_cases hne : a.env = some c
  · cases a with
    | map e n w perm => exact hc
    | unmap e n => exact hc
    | fresh e n zero perm =>
      obtain ⟨p,l,hl,_,_,_,_,heq⟩ := fresh_states h hok
      rw [heq]
      exact ((sameEnvs_withTable (popPage s zero p) e (n/1024)).env c).live.mpr hc
    | table e d => exact ((sameEnvs_withTable s e d).env c).live.mpr hc
    | dropTable e d => exact hc
    | reap e => exact ha.elim
    | _ => simp [env] at hne
  exact (sameSpace h hok hc hne).live

lemma withTable_curenv (s : Kern) (e d : Nat) : (s.withTable e d).curenv = s.curenv := by
  unfold Kern.withTable Kern.addTable
  split
  · rfl
  split <;> rfl

lemma Event.stays_curenv (ha : a.Stays) : (a.apply s).curenv = s.curenv := by
  cases a with
  | fresh e n zero perm => exact withTable_curenv _ _ _
  | table e d => exact withTable_curenv _ _ _
  | reap e => exact ha.elim
  | sched c pre => exact ha.elim
  | _ => rfl

lemma Event.envs_eq (hedit : ∀ e k, a ≠ .edit e k) (hspawn : ∀ b, a ≠ .spawn b)
    (hreap : ∀ e, a ≠ .reap e) : (a.apply s).envs = s.envs := by
  cases a with
  | fresh e n zero perm => exact withTable_envs _ _ _
  | table e d => exact withTable_envs _ _ _
  | edit e k => exact absurd rfl (hedit e k)
  | spawn b => exact absurd rfl (hspawn b)
  | reap e => exact absurd rfl (hreap e)
  | _ => rfl

lemma Does.stays {P : Event → Prop} (h : Inv K NoHand s) (hd : Does P s s')
    (hP : ∀ a, P a → a.Stays) (hc : s.Live c) : s'.Live c ∧ s'.curenv = s.curenv := by
  have := hd.invariant (I := fun t => Inv K NoHand t ∧ t.Live c ∧ t.curenv = s.curenv)
    (fun t a ht hok ha => ⟨ht.1.event hok,stays_live ht.1 hok (hP a ha) ht.2.1,
      (stays_curenv (hP a ha)).trans ht.2.2⟩) ⟨h,hc,rfl⟩
  exact this.2

end stays

section stores

variable {K : Finset Nat} {s s' : Kern} {e : Nat}

lemma present_of_flags {x m : Word} (h : x&&&m = m) (hm : m&&&PTE_P = PTE_P) : Present x := by
  rw [Present,flag_of_and h hm]
  decide

variable {va : Word} {user : Bool} {f : Nat} {a : Event}

lemma storeTarget_pte (hs : s.storeTarget (s.pgdir e) va user = some f) :
    ∃ w, s.pte e (PPN va) = some w ∧ w&&&PTE_W ≠ 0 ∧ PPN w = f := by
  have key : ∀ m : Word, m&&&PTE_P = PTE_P → m&&&PTE_W = PTE_W →
      s.mem (s.pgdir e) (PDX va)&&&m = m →
      s.mem (PPN (s.mem (s.pgdir e) (PDX va))) (PTX va)&&&m = m →
      PPN (s.mem (PPN (s.mem (s.pgdir e) (PDX va))) (PTX va)) = f →
      ∃ w, s.pte e (PPN va) = some w ∧ w&&&PTE_W ≠ 0 ∧ PPN w = f := by
    intro m hm hw hd ht hf
    refine ⟨_,?_,?_,hf⟩
    · have hp : Present (s.pde e (PPN va/1024)) := by
        rw [pde_PDX]
        exact present_of_flags hd hm
      rw [Kern.pte_of_present hp,pde_PDX,← PTX_eq,if_pos (present_of_flags ht hm)]
    rw [flag_of_and ht hw]
    decide
  unfold Kern.storeTarget at hs
  simp only at hs
  cases user with
  | true =>
    simp only [if_true] at hs
    split at hs
    · rename_i hf
      exact key _ (by decide) (by decide) hf.1 hf.2 (some.inj hs)
    cases hs
  | false =>
    simp only [Bool.false_eq_true,if_false] at hs
    split at hs
    · rename_i hf
      exact key _ (by decide) (by decide) hf.1 hf.2 (some.inj hs)
    cases hs

lemma store_does (he : s.Live e) (hva : va < UTOP) (hs : s.storeTarget (s.pgdir e) va user =
    some f) (i : Nat) (v : Word) : Does (Stores e) s (s.setWord f i v) := by
  obtain ⟨w,hw,hwr,rfl⟩ := storeTarget_pte hs
  have heq : s.setWord (PPN w) i v = apply (.store e (PPN va) i v) s := by simp [apply,hw]
  rw [heq]
  exact .one ⟨he,PPN_lt_NUPAGE hva,w,hw,hwr⟩ rfl

lemma storeBytes_does (l : List (BitVec 8)) : ∀ (va : Word) (s : Kern), s.Live e →
    va.toNat+l.length ≤ UTOP.toNat → Kern.storeBytes (s.pgdir e) l va s = some s' →
    Does (Stores e) s s' ∧ s'.envs = s.envs ∧ s'.curenv = s.curenv := by
  induction l with
  | nil =>
    intro va s he hva hs
    cases hs
    exact ⟨.refl,rfl,rfl⟩
  | cons b l ih =>
    intro va s he hva hs
    obtain ⟨s1,h1,hs⟩ := of_bind hs
    obtain ⟨f,hf,h1⟩ := of_bind h1
    cases h1
    simp only [length_cons] at hva
    have hU : UTOP.toNat = 4005560320 := rfl
    have hlt : va < UTOP := by
      change va.toNat < UTOP.toNat
      omega
    have hnext : (va+1).toNat = va.toNat+1 := by
      rw [BitVec.toNat_add,show (1 : Word).toNat = 1 from rfl]
      omega
    obtain ⟨hd,henv,hcur⟩ := ih (va+1) (s.setWord f _ _) he (by rw [hnext]; omega) hs
    exact ⟨(store_does he hlt hf _ _).trans hd,henv,hcur⟩

lemma Event.Stores.plain (h : a.Stores e) : a.Plain := by
  cases a with
  | store => trivial
  | _ => exact h.elim

lemma Event.Stores.stays (h : a.Stores e) : a.Stays := by
  cases a with
  | store => trivial
  | _ => exact h.elim

lemma storeTarget_high (h : Inv K NoHand s) (he : s.Live e) (hva : ¬va < UTOP) :
    s.storeTarget (s.pgdir e) va true = none := by
  have hge : UTOP.toNat ≤ va.toNat := Nat.le_of_not_lt hva
  have hU : UTOP.toNat = 4005560320 := rfl
  have hlt := va.isLt
  have hd : NUPDE ≤ PDX va := by
    rw [PDX_eq,PPN_eq,show NUPDE = 955 from rfl]
    omega
  have hd' : PDX va < NPDENTRIES := by
    rw [PDX_eq,PPN_eq,show NPDENTRIES = 1024 from rfl]
    omega
  rw [Kern.storeTarget_user,if_neg]
  rintro ⟨hpde,hpte⟩
  by_cases hv : PDX va = PDX VPT
  · have hw : s.mem (s.pgdir e) (PDX VPT) = _ := h.half.env_vpt e he
    rw [hv,hw] at hpde
    exact not_userStorable_vpt _ hpde
  by_cases hu : PDX va = PDX UVPT
  · have hw : s.mem (s.pgdir e) (PDX UVPT) = _ := h.half.env_uvpt e he
    rw [hu,hw] at hpde
    exact not_userStorable_uvpt _ hpde
  have hboot := h.half.env_high e he (PDX va) hd hd' hv hu
  rw [pde] at hboot
  rw [hboot] at hpde hpte
  have hp : Present (s.mem s.bootPgdir (PDX va)) := present_of_flags hpde (by decide)
  exact (h.half.boot_high (PDX va) hd hd' hv hu hp).2 (PTX va) (PTX_lt va) hpde hpte

lemma userStore_does (h : Inv K NoHand s) (he : s.Live e) {v : Word}
    (hs : s.userStore (s.pgdir e) va v = some s') : Does (Stores e) s s' := by
  obtain ⟨f,hf,hs⟩ := of_bind hs
  cases hs
  by_cases hva : va < UTOP
  · exact store_does he hva hf _ _
  rw [storeTarget_high h he hva] at hf
  cases hf

end stores

/-- A send that gets as far as mapping the page, whose entry at the sender is `w`. -/
def Kern.SendsPage (s : Kern) (c : Nat) (envid srcva perm w : Word) : Prop :=
  ∃ t, s.envid2env c envid false = some t ∧ (s.envs t).envIpcRecving ∧ srcva ≠ 0 ∧
    ¬BadVa srcva ∧ ¬BadPerm perm ∧ (s.envs t).envIpcDstva ≠ 0 ∧
    s.pte c (PPN srcva) = some w

/-- What a system call may do: only a send adds the right to write, and only `sys_page_alloc` maps
a free frame. -/
def Event.Allowed (s : Kern) (c : Nat) (no a1 a3 a4 : Word) (x : Ext) : Event → Prop
  | .map _ _ w perm => (perm&&&PTE_W ≠ 0 → w&&&PTE_W ≠ 0) ∨
      (no = 13 ∧ perm = a4 ∧ s.SendsPage c a1 a3 a4 w)
  | .fresh _ _ _ _ => no = 5
  | .edit _ (.frame f) => f = childFrame (s.envs c).envTf ∨ (no = 10 ∧ f = x.frame)
  | _ => True

def Kern.SendsTo (s : Kern) (c : Nat) (no a1 a2 a3 a4 : Word) (t : Nat) : Prop :=
  no = 13 ∧ s.envid2env c a1 false = some t ∧
    ∃ r s', s.sysIpcTrySend c a1 a2 a3 a4 = some (r,s') ∧ 0 ≤ r

/-- The events that concern only the current environment `c`, and none of its page tables. -/
def Event.Own (c : Nat) : Event → Prop
  | .edit e (.status st) => st ≠ .running ∧ e = c
  | .edit _ (.mail _ _) => False
  | .edit _ (.mailPerm _) => False
  | .edit _ (.dstva _) => False
  | .edit _ .block => False
  | .edit _ _ => True
  | .store _ _ _ _ => True
  | .scrub _ => True
  | .sched o _ => o = none
  | _ => False

/-- The events of a system call of `c`, up to the choice of the next environment. -/
def Event.OfCall (s : Kern) (c : Nat) (no a1 a2 a3 a4 : Word) : Event → Prop
  | .edit e (.status st) => st ≠ .running ∧ (e = c ∨ ¬s.Live e ∨
      (no = 9 ∧ s.envid2env c a1 true = some e ∧ (st = .runnable → a2 = 1)) ∨
      s.SendsTo c no a1 a2 a3 a4 e)
  | .edit e (.mail _ _) => no = 13 ∧ s.envid2env c a1 false = some e ∧
      (s.envs e).envIpcRecving
  | .edit e (.mailPerm _) => no = 13 ∧ s.envid2env c a1 false = some e ∧
      (s.envs e).envIpcRecving
  | .edit e (.dstva va) => no = 14 ∧ e = c ∧ va = a1 ∧ a1 ≠ 0
  | .edit e .block => no = 14 ∧ e = c
  | .sched o _ => o = none
  | .spawn _ => no = 8
  | .map e _ _ _ | .table e _ => no = 13 → (s.envs e).envIpcDstva ≠ 0
  | .unmap _ _ | .fresh _ _ _ _ | .dropTable _ _ | .reap _ => no ≠ 8 ∧ no ≠ 13
  | _ => True

/-- The permission of a mapping was tested, by `sys_page_map` only for one of `PTE_U` and `PTE_P`. -/
def Event.Tested (no a5 : Word) : Event → Prop
  | .map _ _ _ perm => ¬BadPerm perm ∨
      no = 6 ∧ perm = a5 ∧ ¬(a5&&&(PTE_U+PTE_P) = 0 ∨ a5&&&~~~PTE_USER ≠ 0)
  | .fresh _ _ _ perm => ¬BadPerm perm
  | _ => True

/-- The events of the system call `no` of `c`, each with the reasons why it may happen. -/
def Event.InCall (s : Kern) (c : Nat) (no a1 a2 a3 a4 a5 : Word) (x : Ext) (a : Event) : Prop :=
  a.OfCall s c no a1 a2 a3 a4 ∧ a.Allowed s c no a1 a3 a4 x ∧ a.Tested no a5

def Event.Kills (e : Nat) : Event → Prop
  | .sched o _ => o = none
  | a => a.Frees e

namespace Kern

/-- The way back to user mode: `c` goes on, or it does not run any more and `sched_yield` chooses. -/
def GoesOn (s : Kern) (c : Nat) (s' : Kern) : Prop :=
  (s' = s ∧ s.curenv = some c ∧ s.Live c ∧ (s.envs c).envStatus = .running) ∨
  ((s.envs c).envStatus ≠ .running ∧ s.schedYield = some s')

/-- How a kernel function that `c` has entered is left, after such events. -/
def Exits {α : Type} (s : Kern) (P : Event → Prop) (c : Nat) (r : Flow α) (s' : Kern) : Prop :=
  ∃ s1, Does P s s1 ∧ match r with
    | .ret _ => s' = s1 ∧ s1.curenv = some c ∧ s1.Live c
    | .switched => s1.GoesOn c s'

end Kern

section exits

variable {α β : Type} {K : Finset Nat} {s s1 s' : Kern} {c : Nat} {P Q : Event → Prop}
  {r : Flow α}

lemma Kern.GoesOn.cur (h : s.GoesOn c s') : ∃ e, s'.curenv = some e ∧ s'.Live e := by
  obtain ⟨rfl,hcur,hl,_⟩ | ⟨_,hy⟩ := h
  · exact ⟨c,hcur,hl⟩
  exact schedYield_cur hy

lemma Kern.GoesOn.does (h : s.GoesOn c s') : Does Event.Plain s s' := by
  obtain ⟨rfl,_⟩ | ⟨_,hy⟩ := h
  · exact .refl
  exact schedYield_does hy

namespace Kern.Exits

lemma mono (h : s.Exits P c r s') (hPQ : ∀ a, P a → Q a) : s.Exits Q c r s' := by
  obtain ⟨s1,hd,hr⟩ := h
  exact ⟨s1,hd.mono hPQ,hr⟩

lemma here (hcur : s.curenv = some c) (hc : s.Live c) {v : α} : s.Exits P c (.ret v) s :=
  ⟨s,.refl,rfl,hcur,hc⟩

lemma stays (h : Inv K NoHand s) (hc : s.Live c) (hcur : s.curenv = some c) {v : α}
    (hd : Does (fun a => P a ∧ a.Stays) s s') : s.Exits P c (.ret v) s' := by
  obtain ⟨hl,hcur'⟩ := hd.stays h (fun _ ha => ha.2) hc
  exact ⟨s',hd.mono fun _ ha => ha.1,rfl,hcur'.trans hcur,hl⟩

lemma trans {v : β} (h : s.Exits P c (.ret v) s1) (h' : s1.Exits P c r s') : s.Exits P c r s' := by
  obtain ⟨_,hd,rfl,_,_⟩ := h
  obtain ⟨s2,hd',hr⟩ := h'
  exact ⟨s2,hd.trans hd',hr⟩

end Kern.Exits

end exits

section syscall

variable {K : Finset Nat} {s s' : Kern} {c e : Nat} {no a1 a2 a3 a4 a5 : Word} {x : Ext} {a : Event}

lemma Event.Plain.allowed (h : a.Plain) : a.Allowed s c no a1 a3 a4 x := by
  cases a with
  | map => exact h.elim
  | fresh => exact h.elim
  | edit e k =>
    cases k with
    | frame f => exact h.elim
    | _ => trivial
  | _ => trivial

lemma Event.Kills.inCall (h : a.Kills e) (h8 : no ≠ 8) (h13 : no ≠ 13) :
    a.InCall s c no a1 a2 a3 a4 a5 x := by
  cases a with
  | unmap | dropTable | reap => exact ⟨⟨h8,h13⟩,trivial,trivial⟩
  | sched => exact ⟨h,trivial,trivial⟩
  | _ => exact h.elim

lemma Event.Stores.inCall (h : a.Stores e) : a.InCall s c no a1 a2 a3 a4 a5 x := by
  cases a with
  | store => exact ⟨trivial,trivial,trivial⟩
  | _ => exact h.elim

lemma Event.Frees.kills (h : a.Frees e) : a.Kills e := by
  cases a with
  | unmap | dropTable | reap => exact h
  | _ => exact h.elim

section

variable (h : Inv K NoHand s) (hc : s.Live c) (hcur : s.curenv = some c)
include h hc hcur

lemma envDestroy_exits (he : s.Live e) {r : Flow Unit} (hs : s.envDestroy e = some (r,s')) :
    s.Exits (Kills e) c r s' := by
  obtain ⟨rfl,hne,hd,_⟩ | ⟨rfl,hce,s1,hd,hdead,hy⟩ := envDestroy_spec h he hs
  · have hother : c ≠ e := by
      rintro rfl
      exact hne hcur
    refine ⟨s',hd.mono fun a ha => ha.kills,rfl,hd.frees_sched.trans hcur,?_⟩
    unfold Live
    rw [hd.frees_other hother]
    exact hc
  obtain rfl := mem_unique hcur hce
  have hone : Does (Kills c) s1 (apply (.sched none s1.pre) s1) := .one trivial rfl
  refine ⟨_,(hd.mono fun a ha => ha.kills).trans hone,.inr ⟨fun hr => hdead ⟨hc.1,?_⟩,hy⟩⟩
  have hrun : (s1.envs c).envStatus = .running := hr
  rw [hrun]
  simp

lemma userMemAssert_exits (he : s.Live e) {va len perm : Word} {r : Flow Unit}
    (hs : s.userMemAssert e va len perm = some (r,s')) : s.Exits (Kills e) c r s' := by
  obtain ⟨rfl,rfl⟩ | hd := userMemAssert_spec hs
  · exact .here hcur hc
  exact envDestroy_exits h hc hcur he hd

lemma sysEnvDestroy_exits {r : Flow Int}
    (hs : s.sysEnvDestroy c a1 = some (r,s')) : s.Exits (InCall s c 4 a1 a2 a3 a4 a5 x) c r s' := by
  unfold Kern.sysEnvDestroy at hs
  cases he : s.envid2env c a1 true with
  | none =>
    simp only [he] at hs
    cases hs
    exact .here hcur hc
  | some e =>
    simp only [he] at hs
    obtain ⟨⟨f,s1⟩,h1,hs⟩ := of_bind hs
    have hf := (envDestroy_exits h hc hcur (envid2env_live hc he) h1).mono
      (Q := InCall s c 4 a1 a2 a3 a4 a5 x) fun a ha => ha.inCall (by decide) (by decide)
    cases f <;> cases hs <;> exact hf

lemma sysPageAlloc_exits {r : Int} (hs : s.sysPageAlloc c a1 a2 a3 = some (r,s'))
    : s.Exits (InCall s c 5 a1 a2 a3 a4 a5 x) c (.ret r) s' := by
  refine .stays h hc hcur ?_
  obtain ⟨_,rfl | ⟨p,hok,rfl⟩⟩ | ⟨_,hperm,_,e,_,hok,rfl⟩ := sysPageAlloc_spec h hc hs
  · exact .refl
  · exact .one hok ⟨⟨trivial,trivial,trivial⟩,trivial⟩
  exact .one hok ⟨⟨⟨by decide,by decide⟩,rfl,hperm⟩,trivial⟩

lemma sysPageMap_exits {r : Int} (hs : s.sysPageMap c a1 a2 a3 a4 a5 = some (r,s'))
    : s.Exits (InCall s c 6 a1 a2 a3 a4 a5 x) c (.ret r) s' := by
  refine .stays h hc hcur ?_
  obtain ⟨_,rfl⟩ | ⟨_,_,_,htest,es,ed,w,_,_,_,hw,hp⟩ := sysPageMap_spec h hc hs
  · exact .refl
  refine ⟨_,hp,?_⟩
  simp only [mem_cons,not_mem_nil,or_false]
  rintro a (rfl | rfl)
  · exact ⟨⟨fun hn => absurd hn (by decide),trivial,trivial⟩,trivial⟩
  exact ⟨⟨fun hn => absurd hn (by decide),.inl hw,.inr ⟨rfl,rfl,htest⟩⟩,trivial⟩

lemma sysPageUnmap_exits {r : Int} (hs : s.sysPageUnmap c a1 a2 = some (r,s'))
    : s.Exits (InCall s c 7 a1 a2 a3 a4 a5 x) c (.ret r) s' := by
  refine .stays h hc hcur ?_
  obtain ⟨_,rfl⟩ | ⟨_,_,e,_,⟨_,rfl⟩ | hp⟩ := sysPageUnmap_spec h hc hs
  · exact .refl
  · exact .refl
  exact ⟨_,hp,by simp [InCall,OfCall,Allowed,Tested,Stays]⟩

lemma sysExofork_exits {r : Int} (hs : s.sysExofork c = some (r,s'))
    : s.Exits (InCall s c 8 a1 a2 a3 a4 a5 x) c (.ret r) s' := by
  refine .stays h hc hcur ?_
  obtain ⟨_,rfl⟩ | ⟨e,l,hl,_,_,hp⟩ := sysExofork_spec h hc hs
  · exact .refl
  have hfree := ((h.table.free_iff e).mp (by simp [hl])).2
  have hdead : ¬s.Live e := fun hc => hc.2 hfree
  exact ⟨_,hp,by simp [InCall,OfCall,Allowed,Tested,Stays,hdead]⟩

lemma sysEnvSetStatus_exits
    {r : Int} : s.Exits (InCall s c 9 a1 a2 a3 a4 a5 x) c (.ret r) (s.sysEnvSetStatus c a1 a2).2 := by
  refine .stays h hc hcur ?_
  unfold Kern.sysEnvSetStatus
  cases he : s.envid2env c a1 true with
  | none => exact .refl
  | some e =>
    have hl := envid2env_live hc he
    simp only
    split
    · rename_i h1
      exact .one (a := .edit e (.status .runnable)) ⟨hl,by simp⟩
        ⟨⟨⟨by simp,.inr (.inr (.inl ⟨rfl,he,fun _ => h1⟩))⟩,trivial,trivial⟩,trivial⟩
    split
    · exact .one (a := .edit e (.status .notRunnable)) ⟨hl,by simp⟩
        ⟨⟨⟨by simp,.inr (.inr (.inl ⟨rfl,he,by simp⟩))⟩,trivial,trivial⟩,trivial⟩
    exact .refl

lemma sysEnvSetTrapframe_exits {r : Flow Int} (hs : s.sysEnvSetTrapframe c a1 a2 x = some (r,s'))
    : s.Exits (InCall s c 10 a1 a2 a3 a4 a5 x) c r s' := by
  unfold Kern.sysEnvSetTrapframe at hs
  cases he : s.envid2env c a1 true with
  | none =>
    simp only [he] at hs
    cases hs
    exact .here hcur hc
  | some e =>
    simp only [he] at hs
    obtain ⟨⟨f,s1⟩,h1,hs⟩ := of_bind hs
    have hf := (userMemAssert_exits h hc hcur (envid2env_live hc he) h1).mono
      (Q := InCall s c 10 a1 a2 a3 a4 a5 x) fun a ha => ha.inCall (by decide) (by decide)
    cases f with
    | switched =>
      cases hs
      exact hf
    | ret v =>
      cases hs
      obtain ⟨_,hd,rfl,hcur1,hl1⟩ := id hf
      exact hf.trans (.stays (hd.inv h) hl1 hcur1
        (.one (a := .edit e (.frame x.frame)) trivial ⟨⟨trivial,.inr ⟨rfl,rfl⟩,trivial⟩,trivial⟩))

lemma sysEnvSetPgfaultUpcall_exits {r : Int} : s.Exits (InCall s c no a1 a2 a3 a4 a5 x) c (.ret r)
    (s.sysEnvSetPgfaultUpcall c a1 a2).2 := by
  refine .stays h hc hcur ?_
  unfold Kern.sysEnvSetPgfaultUpcall
  cases he : s.envid2env c a1 true with
  | none => exact .refl
  | some e => exact .one (a := .edit e (.upcall a2)) trivial ⟨⟨trivial,trivial,trivial⟩,trivial⟩

end

lemma sysYield_exits {α : Type} (hc : s.Live c) (hs : s.sysYield c = some s') :
    s.Exits (fun a => a.Own c ∧ a.Plain) c (.switched : Flow α) s' := by
  unfold Kern.sysYield at hs
  split at hs
  · refine ⟨_,.one (a := .edit c (.status .runnable)) ⟨hc,by simp⟩ ⟨⟨by simp,rfl⟩,trivial⟩,
      .inr ⟨?_,hs⟩⟩
    simp [apply,modEnv_self,Edit.apply]
  cases hs

lemma sysIpcTrySend_exits (h : Inv K NoHand s) (hc : s.Live c) (hcur : s.curenv = some c) {r : Int}
    (hs : s.sysIpcTrySend c a1 a2 a3 a4 = some (r,s')) :
    s.Exits (InCall s c 13 a1 a2 a3 a4 a5 x) c (.ret r) s' := by
  refine .stays h hc hcur ?_
  obtain ⟨_,rfl⟩ | ⟨t,ht,hrecv,hcase⟩ := sysIpcTrySend_spec h hc hs
  · exact .refl
  have hmail : ∀ {k : Edit}, (∃ v w, k = .mail v w) ∨ (∃ w, k = .mailPerm w) →
      (edit t k).InCall s c 13 a1 a2 a3 a4 a5 x ∧ (edit t k).Stays := by
    rintro k (⟨v,w,rfl⟩ | ⟨w,rfl⟩) <;> exact ⟨⟨⟨rfl,ht,hrecv⟩,trivial,trivial⟩,trivial⟩
  have hwake : 0 ≤ r → (edit t (.status .runnable)).InCall s c 13 a1 a2 a3 a4 a5 x ∧
      (edit t (.status .runnable)).Stays := fun hr =>
    ⟨⟨⟨by simp,.inr (.inr (.inr ⟨rfl,ht,r,s',hs,hr⟩))⟩,trivial,trivial⟩,trivial⟩
  obtain ⟨_,hp⟩ | ⟨hr,hp⟩ | ⟨hr,hsrc,hva,hperm,hdst,w,hw,hp⟩ := hcase
  · refine ⟨_,hp,?_⟩
    simp only [mem_cons,not_mem_nil,or_false]
    rintro a rfl
    exact hmail (.inl ⟨_,_,rfl⟩)
  · refine ⟨_,hp,?_⟩
    simp only [mem_cons,not_mem_nil,or_false]
    rintro a (rfl | rfl)
    · exact hmail (.inl ⟨_,_,rfl⟩)
    exact hwake (by omega)
  refine ⟨_,hp,?_⟩
  simp only [mem_cons,not_mem_nil,or_false]
  rintro a (rfl | rfl | rfl | rfl | rfl)
  · exact hmail (.inl ⟨_,_,rfl⟩)
  · exact ⟨⟨fun _ => hdst,trivial,trivial⟩,trivial⟩
  · exact ⟨⟨fun _ => hdst,.inr ⟨rfl,rfl,t,ht,hrecv,hsrc,hva,hperm,hdst,hw⟩,.inl hperm⟩,trivial⟩
  · exact hmail (.inr ⟨_,rfl⟩)
  exact hwake (by omega)

lemma sysIpcRecv_exits (hc : s.Live c) (hcur : s.curenv = some c) {r : Flow Int}
    (hs : s.sysIpcRecv c a1 = some (r,s')) : s.Exits (InCall s c 14 a1 a2 a3 a4 a5 x) c r s' := by
  unfold Kern.sysIpcRecv at hs
  by_cases hbad : a1 ≠ 0 ∧ BadVa a1
  · rw [if_pos hbad] at hs
    cases hs
    exact .here hcur hc
  rw [if_neg hbad] at hs
  have hd1 : Does (InCall s c 14 a1 a2 a3 a4 a5 x) s
      (if a1 ≠ 0 then s.modEnv c fun v => {v with envIpcDstva := a1} else s) := by
    split
    · rename_i hne
      exact .one (a := .edit c (.dstva a1)) (fun hb => hbad ⟨hne,hb⟩) ⟨⟨rfl,rfl,rfl,hne⟩,trivial,trivial⟩
    exact .refl
  have hl1 : (if a1 ≠ 0 then s.modEnv c fun v => {v with envIpcDstva := a1} else s).Live c := by
    split
    · exact ⟨hc.1,by rw [modEnv_self]; exact hc.2⟩
    exact hc
  simp only at hs
  generalize (if a1 ≠ 0 then s.modEnv c fun v => {v with envIpcDstva := a1} else s) = s1 at *
  split at hs
  · obtain ⟨s2,h2,hs⟩ := of_bind hs
    cases hs
    refine ⟨_,hd1.trans (.one (a := .edit c .block) hl1 ⟨⟨rfl,rfl⟩,trivial,trivial⟩),.inr ⟨?_,h2⟩⟩
    simp [apply,modEnv_self,Edit.apply]
  cases hs

lemma sysNicRecv_exits (h : Inv K NoHand s) (hc : s.Live c) (hcur : s.curenv = some c)
    (hbuf : a1.toNat+E100_MAX_PKT_SIZE ≤ UTOP.toNat) (hsize : a2.toNat+4 ≤ UTOP.toNat) (hpkt : ∀ l,
    x.packet = some l → l.length ≤ E100_MAX_PKT_SIZE) {r : Flow Int} (hs : s.sysNicRecv c a1 a2 x =
    some (r,s')) : s.Exits (InCall s c 17 a1 a2 a3 a4 a5 x) c r s' := by
  obtain ⟨⟨f,s1⟩,h1,hs⟩ := of_bind hs
  cases f with
  | switched =>
    cases hs
    exact (userMemAssert_exits h hc hcur hc h1).mono fun a ha => ha.inCall (by decide) (by decide)
  | ret v =>
    have hsame := userMemAssert_ret h hc hcur h1
    cases hx : x.packet with
    | none =>
      simp only [hx] at hs
      cases hs
      exact hsame ▸ .here hcur hc
    | some l =>
      simp only [hx] at hs
      obtain ⟨s2,h2,hs⟩ := of_bind hs
      obtain ⟨s3,h3,hs⟩ := of_bind hs
      cases hs
      subst hsame
      obtain ⟨hd2,henv2,_⟩ := storeBytes_does _ a2 s1 hc (by simpa [Kern.wordBytes] using hsize) h2
      have hl2 : s2.Live c := by
        unfold Live
        rw [henv2]
        exact hc
      have hlen := hpkt l hx
      obtain ⟨hd3,_,_⟩ := storeBytes_does _ a1 s2 hl2 (by omega) h3
      exact .stays h hc hcur ((hd2.trans hd3).mono fun a ha => ⟨ha.inCall,ha.stays⟩)

lemma Event.Own.inCall (h : a.Own c ∧ a.Plain) : a.InCall s c no a1 a2 a3 a4 a5 x := by
  refine ⟨?_,h.2.allowed,?_⟩
  · cases a with
    | edit e k =>
      cases k with
      | status st => exact ⟨h.1.1,.inl h.1.2⟩
      | mail | mailPerm | dstva | block => exact h.1.elim
      | _ => trivial
    | sched => exact h.1
    | store | scrub => trivial
    | _ => exact h.1.elim
  cases a with
  | map | fresh => exact h.1.elim
  | _ => trivial

lemma syscall_exits (h : Inv K NoHand s) (hc : s.Live c) (hcur : s.curenv = some c)
    (hbuf : no = 17 → a1.toNat+E100_MAX_PKT_SIZE ≤ UTOP.toNat ∧ a2.toNat+4 ≤ UTOP.toNat)
    (hpkt : ∀ l, x.packet = some l → l.length ≤ E100_MAX_PKT_SIZE) {r : Flow Int} (hs : s.syscall
    c no a1 a2 a3 a4 a5 x = some (r,s')) : s.Exits (InCall s c no a1 a2 a3 a4 a5 x) c r s' := by
  have hno : ∀ k : Nat, no.toNat = k → no = BitVec.ofNat 32 k := by
    intro k hk
    rw [← hk]
    simp
  unfold Kern.syscall at hs
  split at hs
  · rename_i hk
    obtain rfl := hno 0 hk
    obtain ⟨⟨f,s1⟩,h1,hs⟩ := of_bind hs
    have hf := (userMemAssert_exits h hc hcur hc h1).mono
      (Q := InCall s c 0 a1 a2 a3 a4 a5 x) fun a ha => ha.inCall (by decide) (by decide)
    cases f <;> cases hs <;> exact hf
  · cases hs
    exact .here hcur hc
  · cases hs
  · cases hs
    exact .here hcur hc
  · rename_i hk
    obtain rfl := hno 4 hk
    exact sysEnvDestroy_exits h hc hcur hs
  · rename_i hk
    obtain rfl := hno 5 hk
    obtain ⟨⟨v,s1⟩,h1,hs⟩ := of_bind hs
    cases hs
    exact sysPageAlloc_exits h hc hcur h1
  · rename_i hk
    obtain rfl := hno 6 hk
    obtain ⟨⟨v,s1⟩,h1,hs⟩ := of_bind hs
    cases hs
    exact sysPageMap_exits h hc hcur h1
  · rename_i hk
    obtain rfl := hno 7 hk
    obtain ⟨⟨v,s1⟩,h1,hs⟩ := of_bind hs
    cases hs
    exact sysPageUnmap_exits h hc hcur h1
  · rename_i hk
    obtain rfl := hno 8 hk
    obtain ⟨⟨v,s1⟩,h1,hs⟩ := of_bind hs
    cases hs
    exact sysExofork_exits h hc hcur h1
  · rename_i hk
    obtain rfl := hno 9 hk
    cases hs
    exact sysEnvSetStatus_exits h hc hcur
  · rename_i hk
    obtain rfl := hno 10 hk
    exact sysEnvSetTrapframe_exits h hc hcur hs
  · cases hs
    exact sysEnvSetPgfaultUpcall_exits h hc hcur
  · obtain ⟨s1,h1,hs⟩ := of_bind hs
    cases hs
    exact (sysYield_exits hc h1).mono fun a ha => Own.inCall ha
  · rename_i hk
    obtain rfl := hno 13 hk
    obtain ⟨⟨v,s1⟩,h1,hs⟩ := of_bind hs
    cases hs
    exact sysIpcTrySend_exits h hc hcur h1
  · rename_i hk
    obtain rfl := hno 14 hk
    exact sysIpcRecv_exits hc hcur hs
  · cases hs
    exact .here hcur hc
  · cases hs
    exact .here hcur hc
  · rename_i hk
    obtain rfl := hno 17 hk
    obtain ⟨hb,hz⟩ := hbuf rfl
    exact sysNicRecv_exits h hc hcur hb hz hpkt hs
  cases hs

end syscall

end KludgeOS
