import KludgeOS.Calls
import KludgeOS.Rights

/-!
Environments that are not runnable stay so until they are set runnable or a message reaches them;
a caller itself does not.
-/

namespace KludgeOS
open Option Event Edit Kern

namespace Kern

/-- The step is a call `sys_env_set_status(e, ENV_RUNNABLE)` that succeeds. -/
def SetsRunnable (s : Kern) (e : Nat) : Act → Prop
  | .trap tf _ => ∃ c, s.curenv = some c ∧ tf.trapno = 48 ∧ tf.regs.eax = 9 ∧ tf.regs.ecx = 1 ∧
      (s.saved c tf).envid2env c tf.regs.edx true = some e
  | _ => False

/-- The step is a call of `sys_ipc_try_send` to `e` that succeeds. -/
def SendsMessage (s : Kern) (e : Nat) : Act → Prop
  | .trap tf _ => ∃ c, s.curenv = some c ∧ tf.trapno = 48 ∧
      (s.saved c tf).SendsTo c tf.regs.eax tf.regs.edx tf.regs.ecx tf.regs.ebx tf.regs.edi e
  | _ => False

/-- Runs in which `e` stays allocated and nothing makes it runnable. -/
inductive Unwoken (e : Nat) : Kern → Kern → Prop where
  | refl {s : Kern} : Unwoken e s s
  | step {s t u : Kern} {a : Act} : Unwoken e s t → Step t a u → ¬t.SetsRunnable e a →
      ¬t.SendsMessage e a → u.Live e → Unwoken e s u

end Kern

section suspend

variable {K : Finset Nat} {s s' t : Kern} {c e : Nat} {a : Act} {x : Ext} {tf : Trapframe}

lemma Event.OfStep.kind (s : Kern) (a : Act) : (∀ ev : Event, ev.OfStep s a →
    ∀ p, ev ≠ .spawn p) ∨ ∀ ev : Event, ev.OfStep s a → ∀ e, ev ≠ .reap e := by
  cases a with
  | create entry l =>
    refine .inr ?_
    rintro ev hev e rfl
    exact hev.elim
  | start => exact .inl fun _ hev => hev.elim
  | store va w =>
    refine .inl ?_
    rintro ev ⟨c,hev⟩ p rfl
    exact hev.elim
  | trap tf x =>
    by_cases h8 : tf.trapno = 48 ∧ tf.regs.eax = 8
    · refine .inr ?_
      rintro ev ⟨c,_,hev | ⟨h48,_⟩ | ⟨_,hev⟩⟩ e rfl
      · exact hev.elim
      · exact h48 h8.1
      exact hev.1 h8.2
    refine .inl ?_
    rintro ev ⟨c,_,hev | ⟨_,hev⟩ | ⟨h48,hev⟩⟩ p rfl
    · exact hev.elim
    · exact hev.elim
    exact h8 ⟨h48,hev⟩

variable {ev : Event}

lemma Event.OfStep.unwoken (hev : ev.OfStep s a) (hok : ev.Ok t) (hl : s.Live e) (hcur : s.curenv
    ≠ some e) (hset : ¬s.SetsRunnable e a) (hsend : ¬s.SendsMessage e a) (hspawn : t.Live e ∨ ∀ p,
    ev ≠ .spawn p) (hinv : Inv K NoHand t) (hst : t.Live e → (t.envs e).envStatus = .notRunnable)
    : (ev.apply t).Live e → ((ev.apply t).envs e).envStatus = .notRunnable := by
  intro hl'
  cases ev with
  | edit e' k =>
    by_cases hee : e = e'
    · subst hee
      have hquiet := (quiet_edit (s := t) (e := e) hok).envs e
      have hlt : t.Live e := ⟨hl.1,fun hc => hl'.2 (hquiet.free.mpr hc)⟩
      have hst := hst hlt
      simp only [Event.apply,modEnv_self]
      cases k with
      | status st =>
        obtain ⟨tf,x,rfl⟩ := hev.trap id fun _ => id
        obtain ⟨c,hc,hev | ⟨_,hev⟩ | ⟨h48,hrun,hev⟩⟩ := hev
        · obtain rfl := hev.2
          exact absurd hc hcur
        · exact hev.elim
        obtain rfl | hdead | ⟨h9,he,h1⟩ | hto := hev
        · exact absurd hc hcur
        · exact absurd (live_saved.mpr hl) hdead
        · cases st with
          | free => exact absurd rfl hok.2
          | running => exact absurd rfl hrun
          | runnable => exact absurd ⟨c,hc,h48,h9,h1 rfl,he⟩ hset
          | notRunnable => rfl
        exact absurd ⟨c,hc,h48,hto⟩ hsend
      | block => rfl
      | _ => exact hst
    simp only [Event.apply] at hl' ⊢
    rw [modEnv_other _ _ hee]
    refine hst ⟨hl.1,fun hc => hl'.2 ?_⟩
    rw [modEnv_other _ _ hee]
    exact hc
  | spawn b =>
    have hlt := hspawn.resolve_right fun h => h b rfl
    have hne : e ≠ t.envFreeList.headD 0 := by
      rintro rfl
      obtain ⟨e',l,hl⟩ := List.exists_cons_of_ne_nil hok.1
      rw [hl] at hlt
      exact hlt.2 ((hinv.table.free_iff e').mp (by simp [hl])).2
    rw [Event.apply,spawn_other hne]
    exact hst hlt
  | reap e' =>
    by_cases hee : e = e'
    · subst hee
      exact absurd hl' dead_reap
    rw [Event.apply,reap_other hee]
    refine hst ⟨hl.1,fun hc => hl'.2 ?_⟩
    rw [Event.apply,reap_other hee]
    exact hc
  | _ =>
    unfold Live at hl' hst
    rw [envs_eq (by simp) (by simp) (by simp)] at hl' ⊢
    exact hst hl'

lemma Event.OfStep.curenv (hev : ev.OfStep s a) :
    (ev.apply t).curenv = t.curenv ∨ (ev.apply t).curenv = none := by
  cases ev with
  | sched o pre =>
    refine .inr ?_
    obtain ⟨tf,x,rfl⟩ := hev.trap id fun _ => id
    obtain ⟨c,_,hev | ⟨_,hev⟩ | ⟨_,hev⟩⟩ := hev
    · exact hev
    · exact hev.elim
    exact hev
  | reap => exact .inl rfl
  | _ => exact .inl (stays_curenv trivial)

/-- The states on the way through step `a` from `s`, with `e` suspended. An `e` that is gone
does not come back. -/
structure Asleep (K : Finset Nat) (s : Kern) (a : Act) (e : Nat) (t : Kern) : Prop where
  inv : Inv K NoHand t
  status : t.Live e → (t.envs e).envStatus = .notRunnable
  cur : t.curenv ≠ some e
  kind : t.Live e ∨ ∀ ev : Event, ev.OfStep s a → ∀ p, ev ≠ .spawn p

lemma Asleep.event (h : Asleep K s a e t) (hok : ev.Ok t) (hev : ev.OfStep s a) (hl : s.Live e)
    (hcur : s.curenv ≠ some e) (hset : ¬s.SetsRunnable e a) (hsend : ¬s.SendsMessage e a) :
    Asleep K s a e (ev.apply t) where
  inv := h.inv.event hok
  status := hev.unwoken hok hl hcur hset hsend (h.kind.imp id fun h => h ev hev) h.inv h.status
  cur := by
    obtain hc | hc := hev.curenv (t := t)
    · rw [hc]
      exact h.cur
    rw [hc]
    simp
  kind := by
    obtain hk | hk := OfStep.kind s a
    · exact .inr hk
    refine h.kind.imp (fun hlt => ?_) id
    cases ev with
    | reap e' => exact absurd rfl (hk _ hev e')
    | sched => exact hlt
    | _ => exact stays_live h.inv hok trivial hlt

lemma step_suspended (hg : Good K s) (hs : Step s a s') (hl : s.Live e) (hl' : s'.Live e) (hst
    : (s.envs e).envStatus = .notRunnable) (hcur : s.curenv ≠ some e) (hset : ¬s.SetsRunnable e a)
    (hsend : ¬s.SendsMessage e a) : (s'.envs e).envStatus = .notRunnable ∧ s'.curenv ≠ some e := by
  obtain ⟨s1,hd,hr⟩ := step_resumes hg hs
  have h1 : Asleep K s a e s1 := hd.invariant
    (fun t ev ht hok hev => ht.event hok hev hl hcur hset hsend) ⟨hg.inv,fun _ => hst,hcur,.inl hl⟩
  obtain rfl | hy := hr
  · exact ⟨h1.status hl',h1.cur⟩
  obtain ⟨e1,hcur',hrun,_,hother⟩ := schedYield_picks hy
  have hne : e ≠ e1 := by
    rintro rfl
    have := h1.status ⟨hl.1,by rw [hrun]; simp⟩
    rw [hrun] at this
    cases this
  refine ⟨?_,by rw [hcur']; simpa using hne.symm⟩
  rw [hother e hne]
  refine h1.status ⟨hl.1,fun hc => hl'.2 ?_⟩
  rw [hother e hne]
  exact hc

lemma Kern.Unwoken.suspended (hr : s.Unwoken e t) (h : Reachable K s) (hl : s.Live e)
    (hst : (s.envs e).envStatus = .notRunnable) (hcur : s.curenv ≠ some e) :
    Reachable K t ∧ t.Live e ∧ (t.envs e).envStatus = .notRunnable ∧ t.curenv ≠ some e := by
  induction hr with
  | refl => exact ⟨h,hl,hst,hcur⟩
  | step _ hs hset hsend hl' ih =>
    obtain ⟨hreach,hl,hst,hcur⟩ := ih
    obtain ⟨hst',hcur'⟩ := step_suspended hreach.good hs hl hl' hst hcur hset hsend
    exact ⟨hreach.step hs,hl',hst',hcur'⟩

def Suspends (tf : Trapframe) : Prop := tf.trapno = 48 ∧ tf.regs.eax = 9 ∧ tf.regs.ecx = 2

lemma suspends_trap (hcall : Suspends tf)
    (he : (s.saved c tf).envid2env c tf.regs.edx true = some e) : s.trap c tf x = (((s.saved
    c tf).modEnv e (Edit.status .notRunnable).apply).modEnv c (eax 0).apply).trapReturn c := by
  obtain ⟨h48,h9,h2⟩ := hcall
  have hst : (s.saved c tf).sysEnvSetStatus c tf.regs.edx 2 =
      (0,(s.saved c tf).modEnv e (Edit.status .notRunnable).apply) := by
    unfold sysEnvSetStatus
    rw [he]
    rfl
  refine trap_ret (v := 0) h48 ?_
  have : (9 : Word).toNat = 9 := rfl
  simp only [h9,h2,syscall,this,hst]

theorem suspension_sticks (h : Reachable K s) (hcur : s.curenv = some c) (hcall : Suspends tf) (he :
    (s.saved c tf).envid2env c tf.regs.edx true = some e) (hs : Step s (.trap tf x) s') : ((s'.envs
    e).envStatus = .notRunnable ↔ e ≠ c) ∧ (e ≠ c → ∀ t, s'.Unwoken e t → t.curenv ≠ some e) := by
  have hs' := hs
  cases hs' with
  | trap hc _ _ _ ht =>
    obtain rfl := mem_unique hcur hc
    rw [suspends_trap hcall he] at ht
    have hrun : (s.envs c).envStatus = .running := (h.settled.running hcur).mpr rfl
    have hlive : s.Live e := live_saved.mp (envid2env_live (live_saved.mpr (h.good.cur c hcur)) he)
    by_cases hec : e = c
    · subst hec
      have hst : ((((s.saved e tf).modEnv e (Edit.status .notRunnable).apply).modEnv e
          (eax 0).apply).envs e).envStatus = .notRunnable := by
        rw [modEnv_self,modEnv_self]
        rfl
      rw [trapReturn,if_neg (by rw [hst]; simp)] at ht
      refine ⟨iff_of_false (fun hn => ?_) (by simp),fun hc => absurd rfl hc⟩
      obtain ⟨e1,_,_,hrun1,hother⟩ := schedYield_picks ht
      by_cases hee : e = e1
      · subst hee
        rw [hrun1] at hn
        cases hn
      rw [hother e hee,modEnv_self] at hn
      cases hn
    have hc1 : ((((s.saved c tf).modEnv e (Edit.status .notRunnable).apply).modEnv c
        (eax 0).apply).envs c).envStatus = .running := by
      rw [modEnv_self,modEnv_other _ _ (Ne.symm hec),saved,modEnv_self]
      exact hrun
    rw [trapReturn,if_pos hc1] at ht
    cases ht
    have hst : (((((s.saved c tf).modEnv e (Edit.status .notRunnable).apply).modEnv c
        (eax 0).apply).modEnv c fun v => {v with envRuns := v.envRuns+1}).envs e).envStatus =
        .notRunnable := by
      rw [modEnv_other _ _ hec,modEnv_other _ _ hec,modEnv_self]
      rfl
    refine ⟨iff_of_true hst hec,fun _ t hr => ?_⟩
    exact (hr.suspended (h.step hs) ⟨hlive.1,by rw [hst]; simp⟩ hst
      (by change s.curenv ≠ some e; rw [hcur]; simpa using Ne.symm hec)).2.2.2

end suspend

def childRun : List Act :=
  [.create 0x800020 [],.create 0x800020 [],.start,.trap (callFrame 1 8 0 0 0 0 0) {},
   .trap (callFrame 1 9 0x1002 1 0 0 0) {}]

theorem suspension_sticks_child : ∃ s s' t : Kern, Reachable {0} s ∧ s.curenv = some 1 ∧
    (s.envs 2).envStatus = .runnable ∧ Step s (.trap (callFrame 1 9 0x1002 2 0 0 0) {}) s' ∧
    Step s' (.trap (callFrame 1 12 0 0 0 0 0) {}) t ∧ t.curenv ≠ some 2 := by
  have hrun : ((execAll childRun (bootKern 32)).bind fun s =>
      (s.exec (.trap (callFrame 1 9 0x1002 2 0 0 0) {})).bind fun s' =>
        (s'.exec (.trap (callFrame 1 12 0 0 0 0 0) {})).map fun t =>
          decide (s.curenv = some 1 ∧ (s.envs 2).envStatus = .runnable ∧ s'.curenv = some 1 ∧
            (s.saved 1 (callFrame 1 9 0x1002 2 0 0 0)).envid2env 1 0x1002 true = some 2 ∧
            t.Live 2)) = some true := by decide +kernel
  obtain ⟨s,hs,hrun⟩ := of_bind hrun
  obtain ⟨s',hs',hrun⟩ := of_bind hrun
  obtain ⟨t,ht,hcur,hst,hcur',he,hl⟩ := of_map_decide hrun
  have hreach := execAll_reachable hs
  have hset : ¬s'.SetsRunnable 2 (.trap (callFrame 1 12 0 0 0 0 0) {}) := by
    rintro ⟨_,_,_,h9,_⟩
    exact absurd h9 (by decide)
  have hsend : ¬s'.SendsMessage 2 (.trap (callFrame 1 12 0 0 0 0 0) {}) := by
    rintro ⟨_,_,_,h13,_⟩
    exact absurd h13 (by decide)
  have hsticks := suspension_sticks hreach hcur ⟨rfl,rfl,rfl⟩ he (step_of_exec hs')
  exact ⟨s,s',t,hreach,hcur,hst,step_of_exec hs',step_of_exec ht,
    hsticks.2 (by decide) t (.step .refl (step_of_exec ht) hset hsend hl)⟩

theorem own_suspension_lost : ∃ s s' : Kern, Reachable {0} s ∧ s.curenv = some 1 ∧
    Suspends (callFrame 1 9 0 2 0 0 0) ∧ (s.saved 1 (callFrame 1 9 0 2 0 0 0)).envid2env 1 0 true =
    some 1 ∧ Step s (.trap (callFrame 1 9 0 2 0 0 0) {}) s' ∧
    (s'.envs 1).envTf.regs.eax = 0 ∧ s'.Unwoken 1 s' ∧ s'.curenv = some 1 := by
  have hrun : ((execAll [.create 0x800020 [],.create 0x800020 [],.start] (bootKern 32)).bind fun s =>
      (s.exec (.trap (callFrame 1 9 0 2 0 0 0) {})).map fun s' =>
        decide (s.curenv = some 1 ∧ (s'.envs 1).envTf.regs.eax = 0 ∧ s'.curenv = some 1)) =
        some true := by decide +kernel
  obtain ⟨s,hs,hrun⟩ := of_bind hrun
  obtain ⟨s',hs',hcur,heax,hcur'⟩ := of_map_decide hrun
  exact ⟨s,s',execAll_reachable hs,hcur,⟨rfl,rfl,rfl⟩,rfl,step_of_exec hs',heax,.refl,hcur'⟩

end KludgeOS
