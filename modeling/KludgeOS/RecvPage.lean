import KludgeOS.Suspend

/-!
Receiving without a page: `sys_ipc_recv` with a null address leaves `env_ipc_dstva` as it was, by
which `sys_ipc_try_send` decides.
-/

namespace KludgeOS
open Option Kern
open Event (apply env)

def Act.edx : Act → Word
  | .trap tf _ => tf.regs.edx
  | _ => 0

namespace Kern

def Receives (s : Kern) (r : Nat) : Act → Prop
  | .trap tf _ => s.curenv = some r ∧ tf.trapno = 48 ∧ tf.regs.eax = 14
  | _ => False

/-- Runs without a call of `sys_ipc_recv` by `r`. -/
inductive NoReceive (r : Nat) : Kern → Kern → Prop where
  | refl {s : Kern} : NoReceive r s s
  | step {s t u : Kern} {a : Act} : NoReceive r s t → Step t a u → ¬t.Receives r a → NoReceive r s u

end Kern

section recv

variable {K : Finset Nat} {s s' t t' : Kern} {c r : Nat} {a : Act} {x x' : Ext} {tf tf' : Trapframe}

lemma Event.OfStep.dstva {ev : Event} (hev : ev.OfStep s a) (hr : s.Receives r a → a.edx = 0) :
    ((ev.apply t).envs r).envIpcDstva = (t.envs r).envIpcDstva := by
  cases ev with
  | edit e k =>
    by_cases hre : r = e
    · subst hre
      simp only [apply,modEnv_self]
      cases k with
      | dstva va =>
        obtain ⟨tf,x,rfl⟩ := hev.trap id fun _ => id
        obtain ⟨c,hc,hev | ⟨_,hev⟩ | ⟨h48,h14,rfl,_,hne⟩⟩ := hev
        · exact hev.elim
        · exact hev.elim
        exact absurd (hr ⟨hc,h48,h14⟩) hne
      | _ => rfl
    simp only [apply]
    rw [modEnv_other _ _ hre]
  | spawn b =>
    by_cases hre : r = t.envFreeList.headD 0
    · rw [apply,hre,spawn_self]
      rfl
    rw [apply,spawn_other hre]
  | reap e =>
    by_cases hre : r = e
    · rw [apply,hre,reap_self]
    rw [apply,reap_other hre]
  | _ => rw [Event.envs_eq (by simp) (by simp) (by simp)]

lemma schedYield_dstva (h : s.schedYield = some s') (r : Nat) :
    (s'.envs r).envIpcDstva = (s.envs r).envIpcDstva := by
  obtain ⟨e,pre,_,_,hp⟩ := schedYield_performs h
  rw [hp.result]
  by_cases hre : r = e
  · subst hre
    simp [apply,modEnv_self,Edit.apply]
  simp only [List.foldl_cons,List.foldl_nil,apply]
  rw [modEnv_other _ _ hre,modEnv_other _ _ hre]

lemma step_dstva (hg : Good K s) (hs : Step s a s') (hr : s.Receives r a → a.edx = 0) :
    (s'.envs r).envIpcDstva = (s.envs r).envIpcDstva := by
  obtain ⟨s1,hd,hres⟩ := step_resumes hg hs
  have h1 := hd.invariant (I := fun t => (t.envs r).envIpcDstva = (s.envs r).envIpcDstva)
    (fun t ev ht _ hev => (hev.dstva hr).trans ht) rfl
  obtain rfl | hy := hres
  · exact h1
  exact (schedYield_dstva hy r).trans h1

lemma Kern.NoReceive.dstva (hn : s.NoReceive r t) (h : Reachable K s) :
    Reachable K t ∧ (t.envs r).envIpcDstva = (s.envs r).envIpcDstva := by
  induction hn with
  | refl => exact ⟨h,rfl⟩
  | step _ hs hr ih => exact ⟨ih.1.step hs,(step_dstva ih.1.good hs fun hc => absurd hc hr).trans ih.2⟩

lemma Does.sameSpace (h : Does (fun ev => ev.env ≠ some r) s s') (hinv : Inv K NoHand s)
    (hl : s.Live r) : SameSpace s s' r :=
  (h.invariant (I := fun t => Inv K NoHand t ∧ SameSpace s t r) (fun _ _ ht hok hev => ⟨ht.1.event
    hok,ht.2.trans (Event.sameSpace ht.1 hok ht.2.live hev)⟩) ⟨hinv,.refl hl⟩).2

lemma send_sameSpace (hg : Good K s) (hs : Step s (.trap tf x) s') (h48 : tf.trapno = 48)
    (h13 : tf.regs.eax = 13) (hl : s.Live r) (hd : (s.envs r).envIpcDstva = 0) : SameSpace s s' r := by
  obtain ⟨s1,hdoes,hres⟩ := step_resumes hg hs
  have hev : ∀ ev : Event, ev.OfStep s (.trap tf x) → ev.env ≠ some r := by
    rintro ev ⟨c,_,hev⟩ henv
    have hdst : ((s.saved c tf).envs r).envIpcDstva = 0 := by
      by_cases hrc : r = c
      · subst hrc
        rw [saved,modEnv_self]
        exact hd
      rw [saved_envs_ne hrc]
      exact hd
    obtain hev | ⟨hne,_⟩ | ⟨_,hev⟩ := hev
    · cases ev with
      | edit | store | scrub | sched | spawn => simp [env] at henv
      | _ => exact hev.elim
    · exact hne h48
    cases ev with
    | map e n w perm =>
      cases henv
      exact hev h13 hdst
    | table e d =>
      cases henv
      exact hev h13 hdst
    | unmap | fresh | dropTable | reap => exact hev.2 h13
    | _ => simp [env] at henv
  have hd1 := hdoes.mono hev
  obtain rfl | hy := hres
  · exact hd1.sameSpace hg.inv hl
  obtain ⟨e,pre,_,_,hp⟩ := schedYield_performs hy
  have hd2 : Does (fun ev => ev.env ≠ some r) s1 s' := ⟨_,hp,by simp [env]⟩
  exact (hd1.trans hd2).sameSpace hg.inv hl

/-- An environment that has never asked for a page, and does not now, gets none until its next
receive. -/
theorem recv_maps_no_page (h : Reachable K s) (hrecv : Step s (.trap tf x) s')
    (hcall : s.Receives r (.trap tf x) ∧ tf.regs.edx = 0) (hd : (s.envs r).envIpcDstva = 0)
    (hrun : s'.NoReceive r t) (hl : t.Live r) (hsend : Step t (.trap tf' x') t')
    (h48 : tf'.trapno = 48) (h13 : tf'.regs.eax = 13) : SameSpace t t' r := by
  have h' := step_dstva (r := r) h.good hrecv fun _ => hcall.2
  obtain ⟨ht,hdst⟩ := hrun.dstva (h.step hrecv)
  exact send_sameSpace ht.good hsend h48 h13 hl (hdst.trans (h'.trans hd))

end recv

def noPageRun : List Act := [.create 0x800020 [],.create 0x800020 [],.start]

theorem recv_maps_no_page_stack : ∃ s s' t : Kern, Reachable {0} s ∧
    Step s (.trap (callFrame 1 14 0 0 0 0 0) {}) s' ∧ Step s' (.trap (callFrame
    0 13 0x1001 7 0xEEBFD000 5 0) {}) t ∧ (t.envs 1).envIpcValue = 7 ∧ SameSpace s' t 1 := by
  have hrun : ((execAll noPageRun (bootKern 32)).bind fun s =>
      (s.exec (.trap (callFrame 1 14 0 0 0 0 0) {})).bind fun s' =>
        (s'.exec (.trap (callFrame 0 13 0x1001 7 0xEEBFD000 5 0) {})).map fun t =>
          decide (s.curenv = some 1 ∧ (s.envs 1).envIpcDstva = 0 ∧ s'.Live 1 ∧
            (t.envs 1).envIpcValue = 7)) = some true := by decide +kernel
  obtain ⟨s,hs,hrun⟩ := of_bind hrun
  obtain ⟨s',hs',hrun⟩ := of_bind hrun
  obtain ⟨t,ht,hcur,hd,hl,hv⟩ := of_map_decide hrun
  have hreach := execAll_reachable hs
  exact ⟨s,s',t,hreach,step_of_exec hs',step_of_exec ht,hv,recv_maps_no_page hreach (step_of_exec
    hs') ⟨⟨hcur,rfl,rfl⟩,rfl⟩ hd .refl hl (step_of_exec ht) rfl rfl⟩

def stalePageRun : List Act :=
  noPageRun++[.trap (callFrame 1 14 0x1000000 0 0 0 0) {},.trap (callFrame 0 13 0x1001 5 0 0 0) {},
    .trap (callFrame 0 12 0 0 0 0 0) {}]

theorem stale_address_mapped : ∃ s s' t : Kern, Reachable {0} s ∧ s.Receives 1
    (.trap (callFrame 1 14 0 0 0 0 0) {}) ∧ Step s (.trap (callFrame 1 14 0 0 0 0 0) {}) s' ∧
    s'.NoReceive 1 s' ∧ s'.Live 1 ∧ Step s' (.trap (callFrame 0 13 0x1001 7 0xEEBFD000 5 0) {}) t ∧
    s'.pte 1 0x1000 = none ∧ t.pte 1 0x1000 ≠ none := by
  have hrun : ((execAll stalePageRun (bootKern 32)).bind fun s =>
      (s.exec (.trap (callFrame 1 14 0 0 0 0 0) {})).bind fun s' =>
        (s'.exec (.trap (callFrame 0 13 0x1001 7 0xEEBFD000 5 0) {})).map fun t =>
          decide (s.curenv = some 1 ∧ s'.Live 1 ∧ s'.pte 1 0x1000 = none ∧
            t.pte 1 0x1000 ≠ none)) = some true := by decide +kernel
  obtain ⟨s,hs,hrun⟩ := of_bind hrun
  obtain ⟨s',hs',hrun⟩ := of_bind hrun
  obtain ⟨t,ht,hcur,hl,hnone,hsome⟩ := of_map_decide hrun
  exact ⟨s,s',t,execAll_reachable hs,
    ⟨hcur,rfl,rfl⟩,step_of_exec hs',.refl,hl,step_of_exec ht,hnone,hsome⟩

end KludgeOS
