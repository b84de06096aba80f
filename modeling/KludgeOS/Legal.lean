import KludgeOS.Atomic
import KludgeOS.Calls

/-!
Which permissions the entries below `UTOP` carry, and which requests to map a
page are refused (`kern/syscall.c`).
-/

namespace KludgeOS
open Traces
open Kern (BadPerm BadVa)
open Kern Option Event

/-- `PTE_U` and `PTE_P` are set, and of the flags no other than those of `PTE_USER`. -/
def LegalPte (w : Word) : Prop := w&&&PTE_U ≠ 0 ∧ w&&&PTE_P ≠ 0 ∧ w&&&0xFFF&&&~~~PTE_USER = 0

instance (w : Word) : Decidable (LegalPte w) := inferInstanceAs (Decidable (_ ∧ _ ∧ _))

def Kern.LegalEntries (s : Kern) : Prop :=
  ∀ e n w, s.Live e → n < NUPAGE → s.pte e n = some w → LegalPte w

def BadRequest (tf : Trapframe) : Prop :=
  tf.regs.eax = 5 ∧ BadPerm tf.regs.ebx ∨
  tf.regs.eax = 6 ∧ BadPerm tf.regs.esi ∨
  tf.regs.eax = 13 ∧ tf.regs.ebx ≠ 0 ∧ BadPerm tf.regs.edi

/-- The call of `c` with frame `tf` returns a negative code and maps nothing. -/
def Kern.Refuses (s : Kern) (c : Nat) (tf : Trapframe) (x : Ext) : Prop :=
  ∃ r s', s.syscall c tf.regs.eax tf.regs.edx tf.regs.ecx tf.regs.ebx tf.regs.edi tf.regs.esi x =
      some (.ret r,s') ∧ r < 0 ∧ ∀ e n, s'.pte e n = s.pte e n

/-- A permission with both of `PTE_U` and `PTE_P`, or with neither. -/
def WholePerm (perm : Word) : Prop :=
  perm&&&(PTE_U|||PTE_P) = 0 ∨ perm&&&(PTE_U|||PTE_P) = PTE_U|||PTE_P

instance (perm : Word) : Decidable (WholePerm perm) := inferInstanceAs (Decidable (_ ∨ _))

/-- `sys_page_map` is called with such permissions only. -/
def Act.MapsWhole : Act → Prop
  | .trap tf _ => tf.trapno = 48 → tf.regs.eax = 6 → WholePerm tf.regs.esi
  | _ => True

inductive WholeRun (K : Finset Nat) : Kern → Prop where
  | boot {s : Kern} : Boot K s → WholeRun K s
  | step {s s' : Kern} {a : Act} : WholeRun K s → a.MapsWhole → Step s a s' → WholeRun K s'

lemma WholeRun.reachable {K : Finset Nat} {s : Kern} (h : WholeRun K s) : Reachable K s := by
  induction h with
  | boot hb => exact .boot hb
  | step _ _ hs ih => exact .step ih hs

def Event.Legal : Event → Prop
  | .map _ _ _ perm => ¬BadPerm perm
  | .fresh _ _ _ perm => ¬BadPerm perm
  | _ => True

section events

variable {K : Finset Nat} {s s' : Kern}

lemma legalPte_entry {f : Nat} {perm : Word} (hp : ¬BadPerm perm) : LegalPte (entry f perm) := by
  obtain ⟨hu,_,huser⟩ : perm&&&PTE_U ≠ 0 ∧ perm&&&PTE_P ≠ 0 ∧ perm&&&~~~PTE_USER = 0 := by
    simpa [BadPerm,not_or] using hp
  have hflags : ∀ m : Word, LowBits m → entry f perm&&&m = (perm|||PTE_P)&&&m := by
    intro m hm
    rw [entry,BitVec.or_assoc,pte_and hm]
  refine ⟨?_,present_or_PTE_P _,?_⟩
  · rw [hflags _ (by decide),or_and]
    simpa [PTE_P,PTE_U] using hu
  rw [hflags _ (by decide),BitVec.and_assoc,BitVec.and_comm (0xFFF : Word),← BitVec.and_assoc,
    or_and,huser]
  decide

variable {a : Event}

lemma Event.Plain.legal (h : a.Plain) : a.Legal := by
  cases a with
  | map => exact h.elim
  | fresh => exact h.elim
  | _ => trivial

lemma Event.OfLoader.legal (h : a.OfLoader) : a.Legal := by
  obtain ⟨_,_,hp⟩ := h
  cases a with
  | map => exact hp.elim
  | fresh e n zero perm =>
    obtain rfl : perm = PTE_U|||PTE_W|||PTE_P := hp
    exact (by decide : ¬BadPerm (PTE_U|||PTE_W|||PTE_P))
  | _ => trivial

lemma Does.legalEntries (hd : Does Event.Legal s s') (h : Inv K NoHand s) (hl : s.LegalEntries) :
    s'.LegalEntries := by
  refine (hd.invariant (I := fun t => Inv K NoHand t ∧ t.LegalEntries) ?_ ⟨h,hl⟩).2
  rintro t a ⟨hi,hlegal⟩ hok ha
  refine ⟨hi.event hok,fun e n v he hn hv => ?_⟩
  obtain ⟨he',hv'⟩ | ⟨w,perm,rfl,rfl⟩ | ⟨zero,perm,rfl,rfl⟩ := pte_origin hi hok he hn hv
  · exact hlegal e n v he' hn hv'
  · exact legalPte_entry ha
  exact legalPte_entry ha

end events

section calls

variable {s : Kern} {c : Nat} {x : Ext}

lemma badPerm_iff_of_whole {perm : Word} (h : WholePerm perm) :
    BadPerm perm ↔ perm&&&(PTE_U+PTE_P) = 0 ∨ perm&&&~~~PTE_USER ≠ 0 := by
  have hsum : PTE_U+PTE_P = PTE_U|||PTE_P := by decide
  rw [BadPerm,hsum]
  obtain h | h := h
  · have hu : perm&&&PTE_U = 0 := by
      have hsub : perm&&&PTE_U = perm&&&(PTE_U|||PTE_P)&&&PTE_U := by
        rw [BitVec.and_assoc]
        rfl
      rw [hsub,h]
      decide
    simp [h,hu]
  have hu : perm&&&PTE_U = PTE_U := flag_of_and h (by decide)
  have hp : perm&&&PTE_P = PTE_P := flag_of_and h (by decide)
  rw [h,hu,hp]
  simp [PTE_U,PTE_P]

variable {tf : Trapframe}

lemma Event.Handles.legal {a : Event} (h : a.Handles s c tf x) (hw : (Act.trap tf x).MapsWhole) :
    a.Legal := by
  obtain rfl | ⟨_,h⟩ | ⟨_,h⟩ | ⟨h48,_,_,h⟩ := h
  · trivial
  · exact h.legal
  · exact h.plain.legal
  cases a with
  | map e n w perm =>
    obtain h | ⟨h6,rfl,h⟩ := h
    · exact h
    exact mt (badPerm_iff_of_whole (hw h48 h6)).mp h
  | fresh => exact h
  | _ => trivial

lemma badRequest_refused (hb : BadRequest tf) (hw : tf.regs.eax = 6 → WholePerm tf.regs.esi) :
    s.Refuses c tf x := by
  have hsame : ∀ e n, s.pte e n = s.pte e n := fun _ _ => rfl
  obtain ⟨hno,hp⟩ | ⟨hno,hp⟩ | ⟨hno,hsrc,hp⟩ := hb
  · unfold Refuses syscall sysPageAlloc
    rw [hno]
    cases s.envid2env c tf.regs.edx true with
    | none => exact ⟨-E_BAD_ENV,s,rfl,by decide,hsame⟩
    | some e =>
      simp only [if_pos hp]
      exact ⟨-E_INVAL,s,rfl,by decide,hsame⟩
  · unfold Refuses syscall sysPageMap
    rw [hno]
    have hp' := (badPerm_iff_of_whole (hw hno)).mp hp
    cases s.envid2env c tf.regs.edx true with
    | none => exact ⟨-E_BAD_ENV,s,rfl,by decide,hsame⟩
    | some es =>
      cases s.envid2env c tf.regs.ebx true with
      | none => exact ⟨-E_BAD_ENV,s,rfl,by decide,hsame⟩
      | some ed =>
        simp only [if_pos hp']
        by_cases hva : BadVa tf.regs.ecx ∨ BadVa tf.regs.edi
        · simp only [if_pos hva]
          exact ⟨-E_INVAL,s,rfl,by decide,hsame⟩
        simp only [if_neg hva]
        exact ⟨-E_INVAL,s,rfl,by decide,hsame⟩
  unfold Refuses syscall sysIpcTrySend ipcDeliver
  rw [hno]
  cases s.envid2env c tf.regs.edx false with
  | none => exact ⟨-E_BAD_ENV,s,rfl,by decide,hsame⟩
  | some t =>
    by_cases hrecv : (s.envs t).envIpcRecving = false
    · simp only [if_pos hrecv]
      exact ⟨-E_IPC_NOT_RECV,s,rfl,by decide,hsame⟩
    simp only [if_neg hrecv,if_pos hsrc,if_pos hp]
    have hmail : ∀ e n, (modEnv s t (Edit.mail (s.envs c).envId tf.regs.ecx).apply).pte e n =
        s.pte e n := by
      intro e n
      by_cases het : e = t
      · subst het
        rw [pte,pgdir,modEnv_self]
        rfl
      rw [pte,pgdir,modEnv_other _ _ het]
      rfl
    by_cases hva : BadVa tf.regs.ebx
    · simp only [if_pos hva]
      exact ⟨-E_INVAL,_,rfl,by decide,hmail⟩
    simp only [if_neg hva]
    exact ⟨-E_INVAL,_,rfl,by decide,hmail⟩

end calls

section runs

variable {K : Finset Nat} {s s' : Kern}

lemma step_legal (hg : Good K s) {a : Act} (hw : a.MapsWhole) (hs : Step s a s') :
    Does Event.Legal s s' := by
  cases hs with
  | create _ hl hs => exact (envCreate_does hg.inv hl hs).mono fun a ha => ha.legal
  | start _ hs => exact (schedYield_does hs).mono fun a ha => ha.legal
  | store hcur _ hs =>
    exact (userStore_does hg.inv (hg.cur _ hcur) hs).mono fun a ha => ha.plain.legal
  | trap hcur _ _ hnic hs =>
    obtain ⟨s1,hd,hr⟩ := trap_handles hg.inv (hg.cur _ hcur) hcur hnic hs
    exact (hd.mono fun a ha => ha.legal hw).trans (hr.does.mono fun a ha => ha.legal)

lemma WholeRun.legalEntries (h : WholeRun K s) : s.LegalEntries := by
  induction h with
  | boot hb => exact fun e n w he _ _ => absurd he (hb.dead e)
  | step hr hw hs ih => exact (step_legal hr.reachable.good hw hs).legalEntries hr.reachable.good.inv ih

/-- As long as `sys_page_map` is called with both or none of `PTE_U` and `PTE_P`, all entries
below `UTOP` are legal. -/
theorem legal_mappings (h : WholeRun K s) : s.LegalEntries ∧ ∀ c tf x, s.curenv = some c →
    (Act.trap tf x).MapsWhole → tf.trapno = 48 → BadRequest tf → (s.saved c tf).Refuses c tf x :=
  ⟨h.legalEntries,fun _ _ _ _ hw h48 hb => badRequest_refused hb (hw h48)⟩

end runs

theorem legal_mappings_shared : ∃ s : Kern, WholeRun {0} s ∧ s.pte 0 0x1001 ≠ none ∧ s.LegalEntries := by
  have hrun : ((bootKern 32).exec (.create 0x800020 [])).bind (fun s0 => (s0.exec .start).bind fun s1 =>
      (s1.exec (.trap (callFrame 0 5 0 0x1000000 7 0 0) {})).bind fun s2 =>
        (s2.exec (.trap (callFrame 0 6 0 0x1000000 0 0x1001000 5) {})).map fun s3 =>
          decide (s3.pte 0 0x1001 ≠ none)) = some true := by decide +kernel
  obtain ⟨s0,h0,hrun⟩ := of_bind hrun
  obtain ⟨s1,h1,hrun⟩ := of_bind hrun
  obtain ⟨s2,h2,hrun⟩ := of_bind hrun
  obtain ⟨s3,h3,hmap⟩ := of_map_decide hrun
  have r0 : WholeRun {0} s0 := .step (a := .create 0x800020 [])
    (.boot (boot_bootKern (by decide) (by decide))) trivial (step_of_exec h0)
  have r1 : WholeRun {0} s1 := .step (a := .start) r0 trivial (step_of_exec h1)
  have r2 : WholeRun {0} s2 := .step (a := .trap (callFrame 0 5 0 0x1000000 7 0 0) {}) r1
    (fun _ h6 => absurd h6 (by decide)) (step_of_exec h2)
  have r3 : WholeRun {0} s3 := .step (a := .trap (callFrame 0 6 0 0x1000000 0 0x1001000 5) {}) r2
    (fun _ _ => (by decide : WholePerm 5)) (step_of_exec h3)
  exact ⟨s3,r3,hmap,(legal_mappings r3).1⟩

/-- Its stack mapped with `PTE_P` alone: `sys_page_map` returns 0 and the new entry has no
`PTE_U`. -/
theorem illegal_mapping : ∃ (s s' : Kern) (w : Word), Reachable {0} s ∧ s.curenv = some 0 ∧
    BadRequest (callFrame 0 6 0 (USTACKTOP-0x1000) 0 0x1000000 PTE_P) ∧
    Step s (.trap (callFrame 0 6 0 (USTACKTOP-0x1000) 0 0x1000000 PTE_P) {}) s' ∧
    (s'.envs 0).envTf.regs.eax = 0 ∧ s'.Live 0 ∧ s'.pte 0 0x1000 = some w ∧ ¬LegalPte w := by
  have hrun : ((execAll loneRun (bootKern 32)).bind fun s =>
      (s.exec (.trap (callFrame 0 6 0 (USTACKTOP-0x1000) 0 0x1000000 PTE_P) {})).bind fun s' =>
        (s'.pte 0 0x1000).map fun w =>
          decide (s.curenv = some 0 ∧ (s'.envs 0).envTf.regs.eax = 0 ∧ s'.Live 0 ∧ ¬LegalPte w)) =
      some true := by decide +kernel
  obtain ⟨s,hs,hrun⟩ := of_bind hrun
  obtain ⟨s',hs',hrun⟩ := of_bind hrun
  obtain ⟨w,hw,hcur,heax,hl,hbad⟩ := of_map_decide hrun
  exact ⟨s,s',w,execAll_reachable hs,hcur,
    .inr (.inl ⟨rfl,by decide⟩),step_of_exec hs',heax,hl,hw,hbad⟩

end KludgeOS
