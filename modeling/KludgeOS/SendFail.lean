import KludgeOS.Rights

/-!
Sends that fail. `sys_ipc_try_send` takes the target's mailbox before it looks at the page
arguments.
-/

namespace KludgeOS
open Kern Edit Option


/-- The status and the mailbox of `r` are the same in both states. -/
structure SameBox (s s' : Kern) (r : Nat) : Prop where
  recving : (s'.envs r).envIpcRecving = (s.envs r).envIpcRecving
  sender : (s'.envs r).envIpcFrom = (s.envs r).envIpcFrom
  value : (s'.envs r).envIpcValue = (s.envs r).envIpcValue
  perm : (s'.envs r).envIpcPerm = (s.envs r).envIpcPerm
  status : (s'.envs r).envStatus = (s.envs r).envStatus

lemma SameBox.of_envs {s s' : Kern} {r : Nat} (h : s'.envs r = s.envs r) : SameBox s s' r := by
  constructor <;> rw [h]

lemma SameBox.trans {s s' s'' : Kern} {r : Nat} (h : SameBox s s' r) (h' : SameBox s' s'' r) :
    SameBox s s'' r :=
  ⟨h'.recving.trans h.recving,h'.sender.trans h.sender,h'.value.trans h.value,
    h'.perm.trans h.perm,h'.status.trans h.status⟩

structure Undisturbed (s s' : Kern) (t : Nat) : Prop extends SameBox s s' t where
  pgdir : s'.pgdir t = s.pgdir t
  dir : s'.mem (s.pgdir t) = s.mem (s.pgdir t)
  table : ∀ d, s'.mem (PPN (s.pde t d)) = s.mem (PPN (s.pde t d))

/-- The page arguments of a send from `c` to `t` that make it fail. -/
def Kern.Undeliverable (s : Kern) (c t : Nat) (srcva perm : Word) : Prop :=
  srcva ≠ 0 ∧ (BadVa srcva ∨ BadPerm perm ∨ s.pte c (PPN srcva) = none ∨ ((s.envs t).envIpcDstva ≠ 0
    ∧ ¬Present (s.pde t (PDX (s.envs t).envIpcDstva)) ∧ s.pageFreeList = []))

def Kern.FailsLate (s : Kern) (c : Nat) (envid srcva perm : Word) : Prop :=
  ∃ t, s.envid2env c envid false = some t ∧ (s.envs t).envIpcRecving ∧
    s.Undeliverable c t srcva perm

section walk

variable {s s' : Kern} {g : Nat} {va : Word}

lemma pgdirWalk_creates {q : Option PtePtr} (h : s.pgdirWalk g va true = some (q,s')) :
    (q = none ∧ s' = s ∧ ¬Present (s.mem g (PDX va)) ∧ s.pageFreeList = []) ∨
    (q ≠ none ∧ (Present (s.mem g (PDX va)) ∨ s.pageFreeList ≠ [])) := by
  have hwalk : ∀ {t : Kern}, t.walkTable g va = some (q,s') → q ≠ none := by
    intro t ht
    obtain ⟨p,_,ht⟩ := of_bind ht
    cases ht
    simp
  unfold pgdirWalk at h
  by_cases hp : Present (s.mem g (PDX va))
  · rw [if_pos hp] at h
    exact .inr ⟨hwalk h,.inl hp⟩
  rw [if_neg hp,if_neg (by simp)] at h
  cases hl : s.pageFreeList with
  | nil =>
    simp only [pageAlloc,hl] at h
    cases h
    exact .inl ⟨rfl,rfl,hp,rfl⟩
  | cons p l =>
    simp only [pageAlloc,hl] at h
    obtain ⟨k,_,h⟩ := of_bind h
    exact .inr ⟨hwalk h,.inr (by simp)⟩

lemma pageInsert_fails {pp : Nat} {perm : Word} {r : Int}
    (h : s.pageInsert g pp va perm = some (r,s')) : (r < 0 ∧ s' = s ∧ ¬Present (s.mem g (PDX va)) ∧
    s.pageFreeList = []) ∨ (r = 0 ∧ (Present (s.mem g (PDX va)) ∨ s.pageFreeList ≠ [])) := by
  obtain ⟨⟨q,s1⟩,h1,h2⟩ := of_bind h
  obtain ⟨rfl,rfl,hp,hl⟩ | ⟨hq,hor⟩ := pgdirWalk_creates h1
  · cases h2
    exact .inl ⟨by decide,rfl,hp,hl⟩
  obtain ⟨p,rfl⟩ := ne_none_iff_exists'.mp hq
  simp only at h2
  split at h2
  · obtain ⟨s2,_,h2⟩ := of_bind h2
    cases h2
    exact .inr ⟨rfl,hor⟩
  cases h2
  exact .inr ⟨rfl,hor⟩

lemma pageLookup_finds {q : Option (Nat × PtePtr)} (h : s.pageLookup g va = some (q,s')) :
    s' = s ∧ (q = none ↔ xlate s.mem g (PPN va) = none) := by
  obtain ⟨⟨p,s1⟩,h1,h⟩ := of_bind h
  unfold pgdirWalk at h1
  by_cases hp : Present (s.mem g (PDX va))
  · rw [if_pos hp] at h1
    obtain ⟨k,hk,h1⟩ := of_bind h1
    cases h1
    have hkk : k = PPN (s.mem g (PDX va)) := by
      unfold pa2page at hk
      split at hk
      · rw [← some.inj hk,PPN_PTE_ADDR]
      cases hk
    subst hkk
    rw [PDX_eq] at hp
    rw [xlate_of_present hp]
    rw [PDX_eq,PTX_eq] at h
    simp only at h
    split at h
    · rename_i hw
      obtain ⟨pp,_,h⟩ := of_bind h
      cases h
      rw [if_pos hw]
      simp
    rename_i hw
    cases h
    rw [if_neg hw]
    simp
  rw [if_neg hp,if_pos rfl] at h1
  cases h1
  cases h
  rw [PDX_eq] at hp
  simp [xlate_of_absent hp]

end walk

section send

variable {s s' : Kern} {c t : Nat} {envid value srcva perm : Word} {r : Int}

lemma ipcDeliver_fails (h : s.ipcDeliver c t srcva perm = some (r,s')) : (r < 0 ∧
    s' = s ∧ s.Undeliverable c t srcva perm) ∨ (0 ≤ r ∧ ¬s.Undeliverable c t srcva perm) := by
  unfold ipcDeliver at h
  simp only at h
  by_cases hsrc : srcva ≠ 0
  · rw [if_pos hsrc] at h
    by_cases hva : BadVa srcva
    · rw [if_pos hva] at h
      cases h
      exact .inl ⟨by decide,rfl,hsrc,.inl hva⟩
    rw [if_neg hva] at h
    by_cases hperm : BadPerm perm
    · rw [if_pos hperm] at h
      cases h
      exact .inl ⟨by decide,rfl,hsrc,.inr (.inl hperm)⟩
    rw [if_neg hperm] at h
    obtain ⟨⟨q,s1⟩,h1,h⟩ := of_bind h
    obtain ⟨rfl,hq⟩ := pageLookup_finds h1
    cases q with
    | none =>
      cases h
      exact .inl ⟨by decide,rfl,hsrc,.inr (.inr (.inl (hq.mp rfl)))⟩
    | some q =>
      have hpte : s1.pte c (PPN srcva) ≠ none := fun hc => by cases hq.mpr hc
      simp only at h
      by_cases hd : (s1.envs t).envIpcDstva ≠ 0
      · rw [if_pos hd] at h
        obtain ⟨⟨r1,s2⟩,h2,h3⟩ := of_bind h
        simp only at h3
        obtain ⟨hr,rfl,hp,hl⟩ | ⟨rfl,hor⟩ := pageInsert_fails h2
        · rw [if_pos hr] at h3
          cases h3
          exact .inl ⟨hr,rfl,hsrc,.inr (.inr (.inr ⟨hd,hp,hl⟩))⟩
        simp only [Int.lt_irrefl,if_false] at h3
        cases h3
        refine .inr ⟨by decide,?_⟩
        rintro ⟨_,hc | hc | hc | ⟨_,hp,hl⟩⟩
        · exact hva hc
        · exact hperm hc
        · exact hpte hc
        exact hor.elim hp (fun hne => hne hl)
      rw [if_neg hd] at h
      cases h
      refine .inr ⟨by decide,?_⟩
      rintro ⟨_,hc | hc | hc | ⟨hc,_⟩⟩
      · exact hva hc
      · exact hperm hc
      · exact hpte hc
      exact hd hc
  rw [if_neg hsrc] at h
  cases h
  exact .inr ⟨by decide,fun hc => hsrc hc.1⟩

lemma undeliverable_mail (v w : Word) : (s.modEnv t (mail v w).apply).Undeliverable c t srcva perm
    ↔ s.Undeliverable c t srcva perm := by
  have hdir : ∀ e, (s.modEnv t (mail v w).apply).pgdir e = s.pgdir e := by
    intro e
    by_cases he : e = t
    · subst he; rw [pgdir,modEnv_self]; rfl
    rw [pgdir,modEnv_other _ _ he]
  have hdst : ((s.modEnv t (mail v w).apply).envs t).envIpcDstva = (s.envs t).envIpcDstva := by
    rw [modEnv_self]; rfl
  unfold Undeliverable pte pde
  rw [hdir,hdir,hdst]
  exact Iff.rfl

theorem failedSend_iff (hs : s.sysIpcTrySend c envid value srcva perm = some (r,s')) : (r < 0 → ∀ t,
    s.envid2env c envid false = some t → Undisturbed s s' t) ↔ ¬s.FailsLate c envid srcva perm := by
  have hrefl : ∀ t, Undisturbed s s t :=
    fun t => ⟨.of_envs rfl,rfl,rfl,fun _ => rfl⟩
  unfold sysIpcTrySend at hs
  cases ht : s.envid2env c envid false with
  | none =>
    refine iff_of_true (fun _ t h => nomatch h) ?_
    rintro ⟨t,h,_⟩
    rw [ht] at h
    cases h
  | some t =>
    simp only [ht] at hs
    by_cases hrecv : (s.envs t).envIpcRecving = false
    · rw [if_pos hrecv] at hs
      cases hs
      refine iff_of_true (fun _ t _ => hrefl t) ?_
      rintro ⟨t',h,hr,_⟩
      rw [ht] at h
      cases h
      rw [hrecv] at hr
      cases hr
    rw [if_neg hrecv] at hs
    have htrue : (s.envs t).envIpcRecving := by simpa using hrecv
    have hmail : (s.modEnv t (mail (s.envs c).envId value).apply).Undeliverable c t srcva perm ↔
        s.Undeliverable c t srcva perm := undeliverable_mail _ _
    obtain ⟨hr,rfl,hu⟩ | ⟨hr,hu⟩ := ipcDeliver_fails hs
    · refine iff_of_false (fun hall => ?_) (fun hno => hno ⟨t,ht,htrue,hmail.mp hu⟩)
      have := (hall hr t rfl).recving
      rw [modEnv_self] at this
      exact hrecv this.symm
    refine iff_of_true (fun hneg => absurd hneg (by omega)) ?_
    rintro ⟨t',h,_,hu'⟩
    rw [ht] at h
    cases h
    exact hu (hmail.mpr hu')

end send

theorem failedSend_iff_notRecv :
    (bootKern 8).sysIpcTrySend 0 0 5 1 0 = some (-E_IPC_NOT_RECV,bootKern 8) ∧
    ∀ t, (bootKern 8).envid2env 0 0 false = some t → Undisturbed (bootKern 8) (bootKern 8) t := by
  have hs : (bootKern 8).sysIpcTrySend 0 0 5 1 0 = some (-E_IPC_NOT_RECV,bootKern 8) := rfl
  have hno : ¬(bootKern 8).FailsLate 0 0 1 0 := by
    rintro ⟨t,_,hr,_⟩
    simp [bootKern] at hr
  exact ⟨hs,(failedSend_iff hs).mpr hno (by decide)⟩

/-- Slot 0 sends the page at an unaligned address. The send fails, and slot 1 waits no more
although nothing wakes it. -/
theorem failedSend_takesMailbox : ∃ s s' r, Reachable {0} s ∧ s.curenv = some 0 ∧
    s.envid2env 0 0x1001 false = some 1 ∧ (s.envs 1).envIpcRecving ∧ s.sysIpcTrySend 0 0x1001
    5 1 7 = some (r,s') ∧ r < 0 ∧ (s'.envs 1).envIpcRecving = false ∧ (s'.envs 1).envIpcValue = 5 ∧
    (s.envs 1).envIpcValue = 0 ∧ (s'.envs 1).envStatus = .notRunnable ∧ ¬Undisturbed s s' 1 := by
  have hrun : ((execAll readOnlyRun (bootKern 32)).bind fun s =>
      (s.sysIpcTrySend 0 0x1001 5 1 7).map fun p =>
        decide (s.curenv = some 0 ∧ s.envid2env 0 0x1001 false = some 1 ∧
          (s.envs 1).envIpcRecving ∧ p.1 < 0 ∧ (p.2.envs 1).envIpcRecving = false ∧
          (p.2.envs 1).envIpcValue = 5 ∧ (s.envs 1).envIpcValue = 0 ∧
          (p.2.envs 1).envStatus = .notRunnable)) = some true := by decide +kernel
  obtain ⟨s,hs,hrun⟩ := of_bind hrun
  obtain ⟨⟨r,s'⟩,hs',hcur,ht,hr,hneg,hr',hv',hv,hst⟩ := of_map_decide hrun
  refine ⟨s,s',r,execAll_reachable hs,hcur,ht,hr,hs',hneg,hr',hv',hv,hst,fun hu => ?_⟩
  have := hu.recving
  rw [hr,hr'] at this
  exact absurd this (by decide)

end KludgeOS
