import KludgeOS.Reach

/-!
The states of the environments on one processor: whenever control is in user mode, the current
environment is the one that is running, and it is the only one.
-/

namespace KludgeOS
open Ledger Traces List Kern
open Option
open Event (apply Stores)

namespace Kern

def AtMost (s : Kern) (c : Nat) : Prop := ∀ e, (s.envs e).envStatus = .running → e = c

def Idle (s : Kern) : Prop := ∀ e, (s.envs e).envStatus ≠ .running

def Sole (s : Kern) : Prop := ∃ c, s.curenv = some c ∧ ∀ e, (s.envs e).envStatus = .running ↔ e = c

end Kern

def Event.Calm : Event → Prop
  | .edit _ (.status .running) => False
  | _ => True

section running

variable {K : Finset Nat} {s s' : Kern} {c e : Nat} {x : Ext} {tf : Trapframe} {a : Event}

lemma Event.calm_running (ha : a.Calm) (hr : ((a.apply s).envs e).envStatus = .running) :
    (s.envs e).envStatus = .running := by
  cases a with
  | edit e' k =>
    by_cases hee : e = e'
    · subst hee
      rw [apply,Kern.modEnv_self] at hr
      cases k with
      | status st => cases st <;> simp_all [Edit.apply,Event.Calm]
      | block => simp [Edit.apply] at hr
      | _ => exact hr
    rwa [apply,Kern.modEnv_other _ _ hee] at hr
  | spawn b =>
    by_cases hee : e = s.envFreeList.headD 0
    · subst hee
      rw [apply,spawn_self] at hr
      simp [newEnv] at hr
    rwa [apply,spawn_other hee] at hr
  | reap e' =>
    by_cases hee : e = e'
    · subst hee
      simp [apply,Kern.reap] at hr
    rwa [apply,reap_other hee] at hr
  | _ => rwa [Event.envs_eq (by simp) (by simp) (by simp)] at hr

lemma Does.calm_running (h : Does Event.Calm s s') (hr : (s'.envs e).envStatus = .running) :
    (s.envs e).envStatus = .running := by
  refine h.invariant (I := fun t => (t.envs e).envStatus = .running → (s.envs e).envStatus = .running)
    (fun t a ht _ ha hr => ht (Event.calm_running ha hr)) (fun hr => hr) hr

lemma Does.atMost (h : Does Event.Calm s s') (hc : s.AtMost c) : s'.AtMost c :=
  fun _ hr => hc _ (h.calm_running hr)

lemma Event.Handles.calm (h : a.Handles s c tf x) : a.Calm := by
  cases a with
  | edit e k =>
    cases k with
    | status st =>
      have hst : st ≠ .running := by
        obtain h | ⟨h,_⟩ | ⟨_,h⟩ | ⟨_,h,_⟩ := h
        · cases h
        · exact h.1
        · exact h.elim
        exact h.1
      cases st with
      | running => exact absurd rfl hst
      | _ => trivial
    | _ => trivial
  | _ => trivial

lemma Event.Stores.calm (h : a.Stores e) : a.Calm := by
  cases a with
  | store => trivial
  | _ => exact h.elim

lemma Kern.AtMost.idle (hc : s.AtMost c) (hne : (s.envs c).envStatus ≠ .running) : s.Idle := by
  intro e hr
  obtain rfl := hc e hr
  exact hne hr

lemma schedYield_picks (h : s.schedYield = some s') :
    ∃ e, s'.curenv = some e ∧ (s.envs e).envStatus = .runnable ∧
      (s'.envs e).envStatus = .running ∧ ∀ e', e' ≠ e → s'.envs e' = s.envs e' := by
  obtain ⟨e,pre,_,hr,hp⟩ := schedYield_performs h
  rw [hp.result]
  refine ⟨e,rfl,hr,?_,fun e' hne => ?_⟩
  · simp [apply,modEnv_self,Edit.apply]
  simp only [foldl_cons,foldl_nil,apply]
  rw [modEnv_other _ _ hne,modEnv_other _ _ hne]

lemma schedYield_sole (hi : s.Idle) (h : s.schedYield = some s') : s'.Sole := by
  obtain ⟨e,hcur,_,hr,hother⟩ := schedYield_picks h
  refine ⟨e,hcur,fun e' => ⟨fun hr' => ?_,fun heq => heq ▸ hr⟩⟩
  by_contra hne
  rw [hother e' hne] at hr'
  exact hi e' hr'

lemma Kern.GoesOn.sole (h : s.GoesOn c s') (hc : s.AtMost c) : s'.Sole := by
  obtain ⟨rfl,hcur,_,hr⟩ | ⟨hr,hy⟩ := h
  · exact ⟨c,hcur,fun e => ⟨hc e,fun he => he ▸ hr⟩⟩
  exact schedYield_sole (hc.idle hr) hy

lemma trap_sole (h : Inv K NoHand s) (hl : s.Live c) (hcur : s.curenv = some c)
    (hc : s.AtMost c) (hnic : NicInBounds tf x) (hs : s.trap c tf x = some s') : s'.Sole := by
  obtain ⟨s1,hd,hg⟩ := trap_handles h hl hcur hnic hs
  exact hg.sole ((hd.mono fun a ha => ha.calm).atMost hc)

def Kern.Settled (s : Kern) : Prop := s.curenv = none ∧ s.Idle ∨ s.Sole

lemma Kern.Settled.running (h : s.Settled) (hcur : s.curenv = some c) :
    (s.envs e).envStatus = .running ↔ e = c := by
  obtain ⟨hno,_⟩ | ⟨c',hc',hr⟩ := h
  · rw [hno] at hcur
    cases hcur
  obtain rfl := mem_unique hcur hc'
  exact hr e

lemma Does.settled (hd : Does Event.Calm s s') (hcur : s'.curenv = s.curenv)
    (hkeep : ∀ e, s.curenv = some e → (s'.envs e).envStatus = (s.envs e).envStatus)
    (h : s.Settled) : s'.Settled := by
  obtain ⟨hno,hi⟩ | ⟨c,hc,hr⟩ := h
  · exact .inl ⟨hcur.trans hno,fun e he => hi e (hd.calm_running he)⟩
  refine .inr ⟨c,hcur.trans hc,fun e => ⟨fun he => (hr e).mp (hd.calm_running he),?_⟩⟩
  rintro rfl
  rw [hkeep e hc]
  exact (hr e).mpr rfl

lemma step_settled {a : Act} (hg : Good K s) (h : s.Settled) (hs : Step s a s') : s'.Settled := by
  cases hs with
  | create hcur hl hs =>
    have hd := envCreate_does hg.inv hl hs
    have hcur' : s'.curenv = s.curenv :=
      hd.invariant (I := fun t => t.curenv = s.curenv)
        (fun t a ht _ ha => (Event.stays_curenv ha.2.1).trans ht) rfl
    refine Does.settled (hd.mono fun a ha => ?_) hcur' (fun e he => ?_) h
    · cases a with
      | edit e k =>
        cases k with
        | entry => trivial
        | _ => exact ha.1.elim
      | sched => exact ha.1.elim
      | _ => trivial
    rw [hcur] at he
    cases he
  | start hcur hs =>
    obtain ⟨_,hi⟩ | ⟨c,hc,_⟩ := h
    · exact .inr (schedYield_sole hi hs)
    rw [hcur] at hc
    cases hc
  | store hcur _ hs =>
    have hd := userStore_does hg.inv (hg.cur _ hcur) hs
    have hcur' := (hd.stays hg.inv (fun a ha => Stores.stays ha) (hg.cur _ hcur)).2
    refine Does.settled (hd.mono fun a ha => Stores.calm ha) hcur' (fun e _ => ?_) h
    obtain ⟨f,_,hs⟩ := of_bind hs
    cases hs
    rfl
  | trap hcur _ _ hnic hs =>
    exact .inr (trap_sole hg.inv (hg.cur _ hcur) hcur (fun e he => (h.running hcur).mp he) hnic hs)

lemma Reachable.settled (h : Reachable K s) : s.Settled := by
  induction h with
  | boot hb =>
    refine .inl ⟨hb.curenv,fun e => ?_⟩
    rw [hb.envs]
    simp
  | step hr hs ih => exact step_settled hr.good ih hs

end running

namespace Kern

/-- The state in which `page_fault_handler` tests the status, with its frame at `utf`. -/
def upcallSet (s : Kern) (c : Nat) (utf : Word) (x : Ext) : Option Kern := do
  let s ← storeBytes (s.envs c).envPgdir ((utfWords (s.envs c).envTf x.cr2).flatMap wordBytes) utf s
  return s.modEnv c fun v => {v with envTf := {v.envTf with eip := v.envPgfaultUpcall, esp := utf}}

/-- Handling the trap `tf` of `c` gets to an assertion on `env_status` that is false. -/
inductive AssertFails (s : Kern) (c : Nat) (tf : Trapframe) (x : Ext) : Prop where
  | yield : tf.trapno = 48 → tf.regs.eax = 12 →
      ((s.saved c tf).envs c).envStatus ≠ .running → AssertFails s c tf x
  | timer : tf.trapno = 32 → ((s.saved c tf).envs c).envStatus ≠ .running → AssertFails s c tf x
  | exofork {e : Nat} {t : Kern} : tf.trapno = 48 → tf.regs.eax = 8 →
      (s.saved c tf).envAlloc ((s.saved c tf).envs c).envId = some (.ok e,t) →
      (t.envs e).envStatus ≠ .runnable → AssertFails s c tf x
  | recv {t : Kern} : tf.trapno = 48 → tf.regs.eax = 14 → ¬(tf.regs.edx ≠ 0 ∧ BadVa tf.regs.edx) →
      t = (if tf.regs.edx ≠ 0 then
        (s.saved c tf).modEnv c fun v => {v with envIpcDstva := tf.regs.edx} else s.saved c tf) →
      (t.envs c).envStatus ≠ .running → AssertFails s c tf x
  | fault {t u : Kern} : tf.trapno = 14 →
      (s.saved c tf).userMemAssert c (UXSTACKTOP-1) 1 0 = some (.ret (),t) →
      t.upcallSet c (UXSTACKTOP-SIZEOF_UTRAPFRAME) x = some u →
      (u.envs c).envStatus ≠ .running → AssertFails s c tf x
  | nested {t t' u : Kern} : tf.trapno = 14 →
      (s.saved c tf).userMemAssert c (UXSTACKTOP-1) 1 0 = some (.ret (),t) →
      t.userMemAssert c tf.eip 1 0 = some (.ret (),t') →
      t'.upcallSet c (tf.esp-SIZEOF_UTRAPFRAME-4) x = some u →
      (u.envs c).envStatus ≠ .running → AssertFails s c tf x

end Kern

section assertions

variable {K : Finset Nat} {s s' : Kern} {c : Nat} {x : Ext}

lemma storeBytes_frame (l : List (BitVec 8)) {pgdir : Nat} : ∀ {va : Word} {s s' : Kern},
    storeBytes pgdir l va s = some s' → s'.envs = s.envs ∧ s'.curenv = s.curenv := by
  induction l with
  | nil =>
    intro va s s' hs
    cases hs
    exact ⟨rfl,rfl⟩
  | cons b l ih =>
    intro va s s' hs
    obtain ⟨s1,h1,hs⟩ := of_bind hs
    obtain ⟨f,_,h1⟩ := of_bind h1
    cases h1
    obtain ⟨henv,hcur⟩ := ih hs
    exact ⟨henv,hcur⟩

lemma upcallSet_status {utf : Word} (hs : s.upcallSet c utf x = some s') :
    (s'.envs c).envStatus = (s.envs c).envStatus := by
  obtain ⟨s1,h1,hs⟩ := of_bind hs
  cases hs
  rw [modEnv_self,(storeBytes_frame _ h1).1]

lemma not_assertFails (h : Inv K NoHand s) (hl : s.Live c) (hcur : s.curenv = some c)
    (hr : (s.envs c).envStatus = .running) (tf : Trapframe) : ¬s.AssertFails c tf x := by
  have hr0 : ((s.saved c tf).envs c).envStatus = .running := by
    rw [saved,modEnv_self]
    exact hr
  have hi0 : Inv K NoHand (s.saved c tf) := saved_inv h tf
  have hl0 : (s.saved c tf).Live c := live_saved.mpr hl
  intro hf
  cases hf with
  | yield _ _ hne => exact hne hr0
  | timer _ hne => exact hne hr0
  | @exofork e t _ _ ha hne =>
    rw [envAlloc_eq hi0] at ha
    cases hq : (s.saved c tf).envFreeList with
    | nil => simp [hq] at ha
    | cons e' l =>
      simp only [hq] at ha
      split at ha
      · simp at ha
      obtain ⟨h1,rfl⟩ := some_pair_inj ha
      obtain rfl : e' = e := by simpa using h1
      refine hne ?_
      rw [apply,hq,headD_cons,spawn_self]
      rfl
  | recv _ _ _ ht hne =>
    subst ht
    refine hne ?_
    split
    · rw [modEnv_self]
      exact hr0
    exact hr0
  | fault _ h1 hu hne =>
    obtain rfl := userMemAssert_ret hi0 hl0 hcur h1
    exact hne ((upcallSet_status hu).trans hr0)
  | nested _ h1 h2 hu hne =>
    obtain rfl := userMemAssert_ret hi0 hl0 hcur h1
    obtain rfl := userMemAssert_ret hi0 hl0 hcur h2
    exact hne ((upcallSet_status hu).trans hr0)

/-- In user mode only the current environment is running, no assertion on `env_status` fails, and
`sched_yield` starts a runnable one. -/
theorem one_running (h : Reachable K s) (hcur : s.curenv = some c) :
    (∀ e, (s.envs e).envStatus = .running ↔ e = c) ∧ (∀ tf x, ¬s.AssertFails c tf x) ∧ ∀ t t' :
    Kern, t.schedYield = some t' → ∃ e, t'.curenv = some e ∧ (t.envs e).envStatus = .runnable := by
  have hrun := fun e => h.settled.running (e := e) hcur
  refine ⟨hrun,fun tf x => ?_,fun t t' ht => ?_⟩
  · exact not_assertFails h.good.inv (h.good.cur c hcur) hcur ((hrun c).mpr rfl) tf
  obtain ⟨e,he,hr,_⟩ := schedYield_picks ht
  exact ⟨e,he,hr⟩

end assertions

theorem one_running_two : ∃ s : Kern, Reachable {0} s ∧ s.curenv = some 1 ∧ s.Live 0 ∧
    ∀ e, (s.envs e).envStatus = .running ↔ e = 1 := by
  have hrun : (execAll [.create 0x800020 [],.create 0x800020 [],.start] (bootKern 32)).map
      (fun s => decide (s.curenv = some 1 ∧ s.Live 0)) = some true := by decide +kernel
  obtain ⟨s,hs,hcur,hl⟩ := of_map_decide hrun
  have hreach := execAll_reachable hs
  exact ⟨s,hreach,hcur,hl,(one_running hreach hcur).1⟩

end KludgeOS
