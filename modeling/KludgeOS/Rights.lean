import KludgeOS.RefCount

/-!
The right to write. `sys_page_map` hands it on only from an entry that has it;
`sys_ipc_try_send` does not look.
-/

namespace KludgeOS
open Ledger Traces
open Kern Option Event

def Kern.NoWrite (s : Kern) (f : Nat) : Prop :=
  ∀ e n w, s.Live e → n < NUPAGE → s.pte e n = some w → PPN w = f → w&&&PTE_W = 0

/-- Every action but creating environments and `sys_page_alloc`. -/
def Act.Shares : Act → Prop
  | .create _ _ => False
  | .trap tf _ => ¬(tf.trapno = 48 ∧ tf.regs.eax = 5)
  | _ => True

def Kern.KeepsWrite (s : Kern) : Act → Prop
  | .trap tf _ => ∀ c w, s.curenv = some c → tf.trapno = 48 → tf.regs.eax = 13 →
      s.SendsPage c tf.regs.edx tf.regs.ebx tf.regs.edi w →
      tf.regs.edi&&&PTE_W ≠ 0 → w&&&PTE_W ≠ 0
  | _ => True

inductive SharingRun : Kern → Kern → Prop where
  | nil {s : Kern} : SharingRun s s
  | step {s t u : Kern} {a : Act} :
      SharingRun s t → a.Shares → t.KeepsWrite a → Step t a u → SharingRun s u

section rights

variable {K : Finset Nat} {s s' : Kern} {f : Nat}

lemma entry_write {g : Nat} {perm : Word} (h : perm&&&PTE_W = 0) : entry g perm&&&PTE_W = 0 := by
  rw [entry,BitVec.or_assoc,pte_and (by decide),or_and,h]
  decide

def Event.KeepsWrite : Event → Prop
  | .map _ _ w perm => perm&&&PTE_W ≠ 0 → w&&&PTE_W ≠ 0
  | .fresh _ _ _ _ => False
  | _ => True

variable {a : Event}

lemma Event.noWrite (h : Inv K NoHand s) (hok : a.Ok s) (ha : a.KeepsWrite) (hno : s.NoWrite f) :
    (a.apply s).NoWrite f := by
  intro e n v hl hn hv hf
  rcases pte_origin h hok hl hn hv with ⟨hl',hv'⟩ | ⟨w,perm,rfl,rfl⟩ | ⟨zero,perm,rfl,_⟩
  · exact hno e n v hl' hn hv' hf
  · obtain ⟨_,_,_,hperm,e0,n0,hl0,hn0,hw⟩ := hok
    have hlt := (h.page_managed hl0 hn0 hw).1.trans_le h.npage_le
    rw [entry,BitVec.or_assoc,PPN_pte hlt (lowBits_or hperm lowBits_PTE_P)] at hf
    have hw0 := hno e0 n0 w hl0 hn0 hw hf
    exact entry_write (Decidable.not_not.mp fun hp => ha hp hw0)
  exact ha.elim

lemma Event.Plain.keepsWrite (h : a.Plain) : a.KeepsWrite := by
  cases a with
  | map => exact h.elim
  | fresh => exact h.elim
  | _ => trivial

lemma Event.InStep.keepsWrite {a : Act} {ev : Event} (hs : a.Shares) (hk : s.KeepsWrite a)
    (h : ev.InStep s a) : ev.KeepsWrite := by
  cases a with
  | create => exact hs.elim
  | start => exact Event.Plain.keepsWrite h
  | store => exact Event.Plain.keepsWrite h
  | trap tf x =>
    obtain ⟨c,hc,h⟩ := h
    cases ev with
    | map e n w perm =>
      rcases h with h | ⟨htf,hno,rfl,hsend⟩
      · exact h
      exact hk c w hc htf hno hsend
    | fresh => exact hs h
    | _ => trivial

lemma step_noWrite (h : Good K s) {a : Act} (hsh : a.Shares) (hk : s.KeepsWrite a)
    (hs : Step s a s') (hno : s.NoWrite f) : s'.NoWrite f := by
  obtain ⟨hd,_⟩ := step_does h hs
  have := hd.invariant (I := fun t => Inv K NoHand t ∧ t.NoWrite f)
    (fun t ev ht hok hev => ⟨ht.1.event hok,noWrite ht.1 hok (hev.keepsWrite hsh hk) ht.2⟩)
    ⟨h.inv,hno⟩
  exact this.2

lemma SharingRun.reachable (hr : SharingRun s s') (h : Reachable K s) : Reachable K s' := by
  induction hr with
  | nil => exact h
  | step _ _ _ hs ih => exact .step ih hs

theorem noWrite_sharingRun (h : Reachable K s) (hno : s.NoWrite f) (hr : SharingRun s s') :
    s'.NoWrite f := by
  induction hr with
  | nil => exact hno
  | step hr hsh hk hs ih => exact step_noWrite (hr.reachable h).good hsh hk hs ih

lemma sole_mapping (h : Inv K NoHand s) (href : s.ppRef f = 1) {e n : Nat} {w : Word}
    (he : s.Live e) (hn : n < NUPAGE) (hw : s.pte e n = some w) (hf : PPN w = f)
    {e' n' : Nat} {w' : Word} (he' : s.Live e') (hn' : n' < NUPAGE) (hw' : s.pte e' n' = some w')
    (hf' : PPN w' = f) : e' = e ∧ n' = n := by
  have hman : Managed K s.npage f := hf ▸ h.page_managed he hn hw
  have hcard : (s.mappings f).card ≤ 1 := by
    have := h.ppRef_eq hman
    omega
  have hmem : ∀ {i m : Nat} {v : Word}, s.Live i → m < NUPAGE → s.pte i m = some v → PPN v = f →
      (i,m) ∈ s.mappings f := by
    intro i m v hi hm hv hvf
    exact mem_mappings.mpr ⟨hi,hm,by rw [hv,map_some,hvf]⟩
  have := Finset.card_le_one.mp hcard _ (hmem he' hn' hw' hf') _ (hmem he hn hw hf)
  simpa using this

end rights

/-- Slot 1 waits for a page at `0x1000000`; slot 0 has allocated a page there that it may only
read. -/
def readOnlyRun : List Act :=
  [.create 0x800020 [],.create 0x800020 [],.start,
   .trap (callFrame 1 14 0x1000000 0 0 0 0) {},
   .trap (callFrame 0 5 0 0x1000000 5 0 0) {}]

lemma readOnlyRun_noWrite {s : Kern} (hs : execAll readOnlyRun (bootKern 32) = some s) :
    Reachable {0} s ∧ s.Live 0 ∧ s.pte 0 0x1000 = some (page2pa 7|||5) ∧ s.NoWrite 7 := by
  have hrun : (execAll readOnlyRun (bootKern 32)).map (fun s =>
      decide (s.Live 0 ∧ s.ppRef 7 = 1 ∧ s.pte 0 0x1000 = some (page2pa 7|||5))) = some true := by
    decide +kernel
  rw [hs] at hrun
  obtain ⟨hl,href,hw⟩ := of_decide_eq_true (some.inj hrun)
  have hreach := execAll_reachable hs
  refine ⟨hreach,hl,hw,fun e n w he hn hwe hf => ?_⟩
  obtain ⟨rfl,rfl⟩ :=
    sole_mapping hreach.good.inv href hl (by decide) hw (by decide) he hn hwe hf
  rw [hw] at hwe
  cases hwe
  decide

def sendPage (perm : Word) : Act := .trap (callFrame 0 13 0x1001 0 0x1000000 perm 0) {}

/-- Offered with `PTE_U` and `PTE_P` only, the page arrives read-only. -/
theorem noWrite_sharingRun_readOnly : ∃ s s', Reachable {0} s ∧ s.NoWrite 7 ∧ SharingRun s s' ∧
    s'.pte 1 0x1000 = some (page2pa 7|||5) ∧ s'.NoWrite 7 := by
  have hrun : ((execAll readOnlyRun (bootKern 32)).bind fun s =>
      (s.exec (sendPage 5)).map fun s' =>
        decide (s'.pte 1 0x1000 = some (page2pa 7|||5))) = some true := by decide +kernel
  obtain ⟨s,hs,hrun⟩ := of_bind hrun
  obtain ⟨s',hs',hrun⟩ := map_eq_some_iff.mp hrun
  obtain ⟨hreach,_,_,hno⟩ := readOnlyRun_noWrite hs
  have hshares : (sendPage 5).Shares := by
    rintro ⟨_,hno⟩
    exact absurd hno (by decide)
  have hkeeps : s.KeepsWrite (sendPage 5) := by
    intro c w _ _ _ _ hperm
    exact absurd (by decide) hperm
  have hr : SharingRun s s' := .step .nil hshares hkeeps (step_of_exec hs')
  exact ⟨s,s',hreach,hno,hr,of_decide_eq_true hrun,noWrite_sharingRun hreach hno hr⟩

/-- Offered with `PTE_W`, it arrives writable. -/
theorem send_amplifies : ∃ s s', Reachable {0} s ∧
    (∃ e n w, s.Live e ∧ n < NUPAGE ∧ s.pte e n = some w ∧ PPN w = 7) ∧ s.NoWrite 7 ∧
    7 ∉ s.pageFreeList ∧ Step s (sendPage 7) s' ∧ 7 ∉ s'.pageFreeList ∧ ¬s'.NoWrite 7 := by
  have hrun : ((execAll readOnlyRun (bootKern 32)).bind fun s =>
      (s.exec (sendPage 7)).map fun s' =>
        decide (7 ∉ s.pageFreeList ∧ s'.Live 1 ∧ s'.pte 1 0x1000 = some (page2pa 7|||7) ∧
          7 ∉ s'.pageFreeList)) = some true := by decide +kernel
  obtain ⟨s,hs,hrun⟩ := of_bind hrun
  obtain ⟨s',hs',hfree,hl',hw',hfree'⟩ := of_map_decide hrun
  obtain ⟨hreach,hl,hw,hno⟩ := readOnlyRun_noWrite hs
  refine ⟨s,s',hreach,⟨0,0x1000,_,hl,by decide,hw,by decide⟩,hno,hfree,step_of_exec hs',hfree',
    fun hno' => ?_⟩
  exact absurd (hno' 1 0x1000 _ hl' (by decide) hw' (by decide)) (by decide)

end KludgeOS
