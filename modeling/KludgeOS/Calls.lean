import KludgeOS.Running

/-!
What one step of the machine can do to the status and the mailbox of an environment.
-/

namespace KludgeOS
open Traces Kern

def Event.OfTrap (s : Kern) (c : Nat) (tf : Trapframe) (a : Event) : Prop :=
  a.Own c ∨ (tf.trapno ≠ 48 ∧ a.Frees c) ∨ tf.trapno = 48 ∧
    a.OfCall (s.saved c tf) c tf.regs.eax tf.regs.edx tf.regs.ecx tf.regs.ebx tf.regs.edi

def Event.OfStep (s : Kern) : Act → Event → Prop
  | .create _ _,a => a.Loads
  | .start,_ => False
  | .store _ _,a => ∃ c, a.Stores c
  | .trap tf _,a => ∃ c, s.curenv = some c ∧ a.OfTrap s c tf

def Kern.Resumes (s s' : Kern) : Prop := s' = s ∨ s.schedYield = some s'

section steps

variable {K : Finset Nat} {s s' : Kern} {c e : Nat} {x : Ext} {tf : Trapframe}

lemma Event.OfStep.trap {a : Act} {ev : Event} (h : ev.OfStep s a) (hl : ¬ev.Loads)
    (hs : ∀ c, ¬ev.Stores c) : ∃ tf x, a = .trap tf x := by
  cases a with
  | create => exact absurd h hl
  | start => exact h.elim
  | store => exact h.elim fun c h => absurd h (hs c)
  | trap tf x => exact ⟨tf,x,rfl⟩

variable {s1 : Kern}

lemma trap_ret {v : Int} (h48 : tf.trapno = 48) (hsys : (s.saved c tf).syscall
    c tf.regs.eax tf.regs.edx tf.regs.ecx tf.regs.ebx tf.regs.edi tf.regs.esi x = some (.ret v,s1))
    : s.trap c tf x = (s1.modEnv c (Edit.eax (BitVec.ofInt 32 v)).apply).trapReturn c := by
  have h48' : tf.trapno.toNat = 48 := by rw [h48]; rfl
  have hdisp : (s.saved c tf).trapDispatch c x =
      some (.ret (),s1.modEnv c (Edit.eax (BitVec.ofInt 32 v)).apply) := by
    unfold trapDispatch
    simp only [saved_envTf,h48',hsys]
    rfl
  change ((s.saved c tf).trapDispatch c x).bind _ = _
  rw [hdisp]
  rfl

lemma trap_switched (h48 : tf.trapno = 48)
    (hsys : (s.saved c tf).syscall c tf.regs.eax tf.regs.edx tf.regs.ecx tf.regs.ebx tf.regs.edi
      tf.regs.esi x = some (.switched,s1)) : s.trap c tf x = some s1 := by
  have h48' : tf.trapno.toNat = 48 := by rw [h48]; rfl
  have hdisp : (s.saved c tf).trapDispatch c x = some (.switched,s1) := by
    unfold trapDispatch
    simp only [saved_envTf,h48',hsys]
    rfl
  change ((s.saved c tf).trapDispatch c x).bind _ = _
  rw [hdisp]
  rfl

lemma trap_syscall (h48 : tf.trapno = 48) (hs : s.trap c tf x = some s') :
    ∃ r, (s.saved c tf).syscall c tf.regs.eax tf.regs.edx tf.regs.ecx tf.regs.ebx tf.regs.edi
      tf.regs.esi x = some r := by
  have h48' : tf.trapno.toNat = 48 := by rw [h48]; rfl
  change ((s.saved c tf).trapDispatch c x).bind _ = _ at hs
  obtain ⟨r,hr,_⟩ := of_bind hs
  unfold trapDispatch at hr
  simp only [saved_envTf,h48'] at hr
  obtain ⟨p,hp,_⟩ := of_bind hr
  exact ⟨p,hp⟩

lemma Event.Handles.ofTrap {a : Event} (h : a.Handles s c tf x) : a.OfTrap s c tf := by
  obtain rfl | ⟨h,_⟩ | ⟨h48,h⟩ | ⟨h48,h,_⟩ := h
  · exact .inl trivial
  · exact .inl h
  · cases a with
    | sched => exact .inl h
    | unmap | dropTable | reap => exact .inr (.inl ⟨h48,h⟩)
    | _ => exact h.elim
  exact .inr (.inr ⟨h48,h⟩)

lemma Kern.GoesOn.resumes (h : s.GoesOn c s') : s.Resumes s' := h.imp (fun h => h.1) fun h => h.2

lemma step_resumes (hg : Good K s) {a : Act} (hs : Step s a s') :
    ∃ s1, Does (Event.OfStep s a) s s1 ∧ s1.Resumes s' := by
  cases hs with
  | create hcur hl hs =>
    exact ⟨s',(envCreate_does hg.inv hl hs).mono fun a ha => ha.1,.inl rfl⟩
  | start hcur hs => exact ⟨s,.refl,.inr hs⟩
  | store hcur _ hs =>
    exact ⟨s',(userStore_does hg.inv (hg.cur _ hcur) hs).mono fun a ha => ⟨_,ha⟩,.inl rfl⟩
  | trap hcur _ _ hnic hs =>
    obtain ⟨s1,hd,hr⟩ := trap_handles hg.inv (hg.cur _ hcur) hcur hnic hs
    exact ⟨s1,hd.mono fun a ha => ⟨_,hcur,ha.ofTrap⟩,hr.resumes⟩

end steps

end KludgeOS
