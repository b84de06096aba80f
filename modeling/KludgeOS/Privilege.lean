import KludgeOS.Reach

/-!
The privilege level of saved trap frames. `sys_env_set_trapframe` copies the
frame it is given as it is.
-/

namespace KludgeOS
open Ledger Traces List Option
open Kern

structure Trapframe.User (tf : Trapframe) : Prop where
  cpl : tf.cs&&&3 = 3
  intr : tf.eflags&&&IOPL_MASK = IOPL_MASK ∨ tf.eflags&&&FL_IF ≠ 0

def Kern.UserMode (s : Kern) : Prop := ∀ e, s.Live e → (s.envs e).envTf.User

inductive WideStep : Kern → Act → Kern → Prop where
  | step {s s' : Kern} {a : Act} : Step s a s' → WideStep s a s'
  | overrun {s s' : Kern} {c : Nat} {tf : Trapframe} {x : Ext} :
      s.curenv = some c → tf.cs&&&3 = 3 → UserRuns (s.envs c).envTf tf → ¬NicInBounds tf x →
      WideStep s (.trap tf x) s'

/-- The actions that keep user mode. -/
def Act.Clean : Act → Prop
  | .trap tf x => NicInBounds tf x ∧ (tf.trapno = 48 → tf.regs.eax = 10 → x.frame.User)
  | _ => True

inductive CleanRun (K : Finset Nat) : Kern → Prop where
  | boot {s : Kern} : Boot K s → CleanRun K s
  | step {s s' : Kern} {a : Act} : CleanRun K s → a.Clean → WideStep s a s' → CleanRun K s'

section privilege

variable {K : Finset Nat} {s s' : Kern}

lemma user_initTf (e : Nat) : (initTf e).User := by
  constructor
  · exact (by decide : (GD_UT|||3)&&&3 = (3 : BitVec 16))
  unfold initTf
  simp only
  split
  · exact Or.inl (by decide)
  exact Or.inr (by decide)

lemma UserRuns.user {old new : Trapframe} (h : UserRuns old new) (hu : old.User) : new.User where
  cpl := h.cpl.trans hu.cpl
  intr := by
    rcases hu.intr with hi | hi
    · exact Or.inl (h.iopl.trans hi)
    rcases h.intr with ho | hf
    · exact Or.inl (h.iopl.trans ho)
    exact Or.inr (hf ▸ hi)

lemma Trapframe.User.child {tf : Trapframe} (h : tf.User) : (childFrame tf).User := ⟨h.cpl,h.intr⟩

def Event.KeepsMode : Event → Prop
  | .edit _ (.frame f) => f.User
  | _ => True

lemma Edit.user {k : Edit} (hk : ∀ f, k = .frame f → f.User) {v : Env} (h : v.envTf.User) :
    (k.apply v).envTf.User := by
  cases k with
  | frame f => exact hk f rfl
  | eax w => exact ⟨h.cpl,h.intr⟩
  | entry w => exact ⟨h.cpl,h.intr⟩
  | enterUpcall w => exact ⟨h.cpl,h.intr⟩
  | block => exact ⟨h.cpl,h.intr⟩
  | _ => exact h

variable {a : Event}

lemma Event.userMode (h : Inv K NoHand s) (hok : a.Ok s) (ha : a.KeepsMode) (hu : s.UserMode) :
    (a.apply s).UserMode := by
  intro e hl
  rcases Event.live_origin h hok hl with hl' | ⟨b,l,rfl,hfl⟩
  · cases a with
    | edit e' k =>
      by_cases hee : e = e'
      · subst hee
        rw [Event.apply,modEnv_self]
        refine Edit.user (fun f hf => ?_) (hu e hl')
        subst hf
        exact ha
      rw [Event.apply,modEnv_other _ _ hee]
      exact hu e hl'
    | spawn b =>
      obtain ⟨e',l,hfl⟩ := exists_cons_of_ne_nil hok.1
      have hne : e ≠ e' := by
        rintro rfl
        exact hl'.2 ((h.table.free_iff e).mp (by simp [hfl])).2
      rw [Event.apply,hfl,headD_cons,spawn_other hne]
      exact hu e hl'
    | reap e' =>
      have hne := (live_of_live_reap hl).1
      rw [Event.apply,reap_other hne]
      exact hu e hl'
    | _ =>
      rw [Event.envs_eq (by simp) (by simp) (by simp)]
      exact hu e hl'
  rw [Event.apply,hfl,headD_cons,spawn_self]
  exact user_initTf e

lemma Event.Plain.keepsMode (h : a.Plain) : a.KeepsMode := by
  cases a with
  | edit e k =>
    cases k with
    | frame f => exact h.elim
    | _ => trivial
  | _ => trivial

lemma step_userMode (h : Good K s) {a : Act} (hc : a.Clean) (hs : Step s a s')
    (hu : s.UserMode) : s'.UserMode := by
  have hkeeps : ∀ ev : Event, ev.InStep s a → ev.KeepsMode := by
    intro ev hev
    cases hs with
    | create =>
      cases ev with
      | edit e k =>
        cases k with
        | frame f => exact hev.elim
        | _ => trivial
      | _ => trivial
    | start => exact Event.Plain.keepsMode hev
    | store => exact Event.Plain.keepsMode hev
    | trap hcur hcs hruns hnic hs =>
      obtain ⟨c,hc',hev⟩ := hev
      rw [hcur] at hc'
      cases hc'
      have htf := hruns.user (hu _ (h.cur _ hcur))
      cases ev with
      | edit e k =>
        cases k with
        | frame f =>
          rcases hev with rfl | rfl | ⟨hno,heax,rfl⟩
          · exact htf
          · exact htf.child
          exact hc.2 hno heax
        | _ => trivial
      | _ => trivial
  obtain ⟨hd,_⟩ := step_does h hs
  have := hd.invariant (I := fun t => Inv K NoHand t ∧ t.UserMode)
    (fun t ev ht hok hev => ⟨ht.1.event hok,Event.userMode ht.1 hok (hkeeps ev hev) ht.2⟩)
    ⟨h.inv,hu⟩
  exact this.2

lemma WideStep.clean {a : Act} (h : WideStep s a s') (hc : a.Clean) : Step s a s' := by
  cases h with
  | step hs => exact hs
  | overrun _ _ _ hn => exact absurd hc.1 hn

lemma CleanRun.reachable (h : CleanRun K s) : Reachable K s := by
  induction h with
  | boot hb => exact .boot hb
  | step _ hc hs ih => exact .step ih (hs.clean hc)

theorem userMode_cleanRun (h : CleanRun K s) : s.UserMode := by
  induction h with
  | boot hb =>
    intro e he
    exact absurd he (hb.dead e)
  | step hr hc hs ih => exact step_userMode hr.reachable.good hc (hs.clean hc) ih

end privilege

section setTrapframe

variable {K : Finset Nat} {s : Kern} {c : Nat} {p : PtePtr}

lemma userMemLoop_ok {g : Nat} {va perm : Word} (hva : ¬ULIM ≤ va)
    (hw : s.pgdirWalk g va false = some (some p,s)) (hp : s.mem p.frame p.idx&&&perm = perm)
    (n : Nat) : ∀ b, s.userMemLoop g va perm n b = some none := by
  induction n with
  | zero => intro b; rfl
  | succ n ih =>
    intro b
    rw [userMemLoop,if_neg hva,hw]
    simp only [bind,Option.bind,if_pos hp]
    exact ih _

lemma setTrapframe_step (hcur : s.curenv = some c) (hrun : (s.envs c).envStatus = .running)
    {tf : Trapframe} {x : Ext} (hcs : tf.cs&&&3 = 3) (huser : UserRuns (s.envs c).envTf tf)
    (hnic : NicInBounds tf x) (htrap : tf.trapno = 48) (hno : tf.regs.eax = 10)
    (henv : tf.regs.edx = 0) (hva : ¬ULIM ≤ tf.regs.ecx)
    (hw : ∀ t : Kern, t.mem = s.mem → t.npage = s.npage →
      t.pgdirWalk (s.pgdir c) tf.regs.ecx false = some (some p,t))
    (hp : s.mem p.frame p.idx&&&PTE_U = PTE_U) :
    ∃ s', Step s (.trap tf x) s' ∧
      (s'.envs c).envTf = {x.frame with regs := {x.frame.regs with eax := 0}} ∧
      (s'.envs c).envStatus = .running := by
  have hs : s.trap c tf x = some
      (s.modEnv c fun v => { v with
        envTf := {x.frame with regs := {x.frame.regs with eax := 0}},
        envRuns := v.envRuns+1 }) := by
    have hassert : ∀ t : Kern, t.mem = s.mem → t.npage = s.npage → t.pgdir c = s.pgdir c →
        t.userMemAssert c tf.regs.ecx SIZEOF_STRUCT_TRAPFRAME 0 = some (.ret (),t) := by
      intro t hm hn hd
      have hchk : t.userMemCheck (t.envs c).envPgdir tf.regs.ecx SIZEOF_STRUCT_TRAPFRAME
          (0|||PTE_U) = some none := by
        unfold userMemCheck
        refine userMemLoop_ok (p := p) hva ?_ ?_ _ _
        · rw [show (t.envs c).envPgdir = s.pgdir c from hd]
          exact hw t hm hn
        rw [hm]
        exact hp
      simp only [userMemAssert,hchk,bind,Option.bind]
      rfl
    have h48 : tf.trapno.toNat = 48 := by rw [htrap]; rfl
    have h10 : tf.regs.eax.toNat = 10 := by rw [hno]; rfl
    have hst : ∀ f : Env → Env, (f (s.envs c)).envStatus = .running →
        ((s.modEnv c f).envs c).envStatus = .running := by
      intro f hf
      rw [modEnv_self]
      exact hf
    unfold trap trapDispatch
    simp only [modEnv_self,h48,syscall,h10,sysEnvSetTrapframe,envid2env,henv,if_true]
    rw [hassert (s.modEnv c fun v => {v with envTf := tf}) rfl rfl
      (by rw [pgdir,modEnv_self])]
    simp only [bind,Option.bind,pure,modEnv_modEnv,trapReturn]
    rw [if_pos (hst _ hrun)]
    rfl
  refine ⟨_,.trap hcur hcs huser hnic hs,?_,?_⟩
  · rw [modEnv_self]
  rw [modEnv_self]
  exact hrun

end setTrapframe

def loneRun : List Act := [.create 0x800020 [],.start]

/-- Its frame when it calls `sys_env_set_trapframe` with a pointer into its stack. -/
def setTrapframeCall : Trapframe :=
  { initTf 0 with
    eip := 0x800020
    trapno := 48
    regs := {eax := 10, edx := 0, ecx := USTACKTOP-0x100} }

lemma loneRun_state {s : Kern} (hs : execAll loneRun (bootKern 8) = some s) : s.curenv = some 0 ∧
    (s.envs 0).envStatus = .running ∧ UserRuns (s.envs 0).envTf setTrapframeCall ∧
    Present (s.mem (s.pgdir 0) (PDX (USTACKTOP-0x100))) ∧
    PPN (s.mem (s.pgdir 0) (PDX (USTACKTOP-0x100))) < s.npage ∧ s.mem
    (PPN (s.mem (s.pgdir 0) (PDX (USTACKTOP-0x100)))) (PTX (USTACKTOP-0x100))&&&PTE_U = PTE_U := by
  have hrun : (execAll loneRun (bootKern 8)).map (fun s =>
      decide (s.curenv = some 0 ∧ (s.envs 0).envStatus = .running ∧
        UserRuns (s.envs 0).envTf setTrapframeCall ∧
        Present (s.mem (s.pgdir 0) (PDX (USTACKTOP-0x100))) ∧
        PPN (s.mem (s.pgdir 0) (PDX (USTACKTOP-0x100))) < s.npage ∧
        s.mem (PPN (s.mem (s.pgdir 0) (PDX (USTACKTOP-0x100)))) (PTX (USTACKTOP-0x100)) &&&
          PTE_U = PTE_U)) = some true := by decide +kernel
  rw [hs] at hrun
  exact of_decide_eq_true (some.inj hrun)

lemma loneRun_runs : ∃ s, execAll loneRun (bootKern 8) = some s := by
  have hrun : (execAll loneRun (bootKern 8)).isSome := by decide +kernel
  exact isSome_iff_exists.mp hrun

theorem userMode_cleanRun_lone : ∃ s, CleanRun {0} s ∧ s.Live 0 ∧ s.UserMode := by
  have hrun : ((bootKern 8).exec (.create 0x800020 [])).map (fun s => decide (s.Live 0)) =
      some true := by decide +kernel
  obtain ⟨s,hs,hl⟩ := map_eq_some_iff.mp hrun
  have hr : CleanRun {0} s :=
    .step (a := .create 0x800020 []) (.boot (boot_bootKern (by decide) (by decide))) trivial
      (.step (step_of_exec hs))
  exact ⟨s,hr,of_decide_eq_true hl,userMode_cleanRun hr⟩

theorem setTrapframe_ring0 : ∃ s s' x, Reachable {0} s ∧ Step s (.trap setTrapframeCall x) s' ∧
    s'.Live 0 ∧ (s'.envs 0).envTf.cs&&&3 = 0 ∧ ¬s'.UserMode := by
  obtain ⟨s,hs⟩ := loneRun_runs
  obtain ⟨hcur,hrun,huser,hp,hlt,hpte⟩ := loneRun_state hs
  have hreach := execAll_reachable hs
  obtain ⟨s',hs',htf,hst⟩ := setTrapframe_step (x := {frame := {cs := GD_KT}}) hcur hrun
    (by decide) huser (by decide) rfl rfl rfl (by decide)
    (p := ⟨PPN (s.mem (s.pgdir 0) (PDX (USTACKTOP-0x100))),PTX (USTACKTOP-0x100)⟩)
    (fun t hm hn => by
      rw [← hm] at hp hlt ⊢
      exact pgdirWalk_present hp (hn ▸ hlt)) hpte
  have hl : s'.Live 0 := ⟨by decide,by rw [hst]; simp⟩
  have hcs : (s'.envs 0).envTf.cs&&&3 = 0 := by
    rw [htf]
    decide
  refine ⟨s,s',_,hreach,hs',hl,hcs,fun hu => ?_⟩
  exact absurd (hcs.symm.trans (hu 0 hl).cpl) (by decide)

end KludgeOS
