import KludgeOS.UserBytes

/-!
Where `page_fault_handler` (`kern/trap.c`) puts the frame of a fault, and when
the kernel gets it there.
-/

namespace KludgeOS
open Option Kern
namespace Kern

abbrev OnXstack (esp : Word) : Prop := esp < UXSTACKTOP ∧ UXSTACKTOP-0x1000 ≤ esp

def utfAddr (esp : Word) : Word :=
  if OnXstack esp then esp-SIZEOF_UTRAPFRAME-4 else UXSTACKTOP-SIZEOF_UTRAPFRAME

def Accepts (s : Kern) (c : Nat) : Prop :=
  s.RoundOk (s.pgdir c) (UXSTACKTOP-1) PTE_U ∧
  (OnXstack (s.envs c).envTf.esp → s.RoundOk (s.pgdir c) (s.envs c).envTf.eip PTE_U ∧
    UXSTACKTOP-0x1000 ≤ utfAddr (s.envs c).envTf.esp)

def xstackPte (s : Kern) (c : Nat) : Word :=
  s.mem (PPN (s.mem (s.pgdir c) (PDX (UXSTACKTOP-1)))) (PTX (UXSTACKTOP-1))

/-- A frame at `utf` is inside the page of the exception stack, a word below the stack pointer of
a fault there. -/
structure UtfPlaced (s : Kern) (c : Nat) (utf : Word) : Prop where
  low : (UXSTACKTOP-0x1000).toNat ≤ utf.toNat
  high : utf.toNat+SIZEOF_UTRAPFRAME.toNat ≤ UXSTACKTOP.toNat
  page : ∃ w, s.pte c (PPN (UXSTACKTOP-1)) = some w ∧ UserStorable w
  below : OnXstack (s.envs c).envTf.esp →
    utf.toNat+SIZEOF_UTRAPFRAME.toNat+4 ≤ (s.envs c).envTf.esp.toNat

inductive FaultHandled (s : Kern) (c : Nat) (x : Ext) : Prop where
  | destroyed {t : Kern} : ¬s.Accepts c → s.envFree c = some t →
      s.pageFaultHandler c x = ({t with curenv := none} : Kern).schedYield → FaultHandled s c x
  | pushed {u : Kern} : s.enterUpcall c (utfAddr (s.envs c).envTf.esp) x = some u →
      s.pageFaultHandler c x = some u → s.UtfPlaced c (utfAddr (s.envs c).envTf.esp) →
      FaultHandled s c x

end Kern

section check

variable {K : Finset Nat} {s : Kern} {c : Nat}

lemma rounds_byte (va : Word) : rounds va 1 ≠ 0 := by
  have h := va.isLt
  simp only [rounds,BitVec.toNat_sub,BitVec.toNat_add,BitVec.toNat_ofNat,
    PGSIZE_eq,show (1 : Word).toNat = 1 from rfl]
  omega

lemma envDestroy_cur (h : Inv K NoHand s) (hc : s.Live c) (hcur : s.curenv = some c) :
    ∃ t, s.envFree c = some t ∧
      s.envDestroy c = (({t with curenv := none} : Kern).schedYield).map fun u => (.switched,u) := by
  obtain ⟨t,ht,hd,_⟩ := envFree_spec h hc
  refine ⟨t,ht,?_⟩
  have hcur' : t.curenv = some c := hd.frees_sched.trans hcur
  rw [envDestroy,ht]
  simp only [bind,Option.bind,if_pos hcur']
  cases ({t with curenv := none} : Kern).schedYield <;> rfl

lemma userMemAssert_byte (h : Inv K NoHand s) (hc : s.Live c) (va : Word) :
    s.userMemAssert c va 1 0 =
      if s.RoundOk (s.pgdir c) va PTE_U then some (.ret (),s) else s.envDestroy c := by
  have hz : (0 : Word)|||PTE_U = PTE_U := rfl
  rw [userMemAssert,hz,userMemCheck_eq (h.walkable hc)]
  by_cases hr : s.RoundOk (s.pgdir c) va PTE_U
  · simp [hr]
  rw [if_neg (not_or.mpr ⟨rounds_byte va,hr⟩),if_neg hr]
  rfl

lemma pageFaultHandler_eq (h : Inv K NoHand s) (hc : s.Live c) (hcur : s.curenv = some c)
    (hup : (s.envs c).envPgfaultUpcall ≠ 0) (x : Ext) : (s.Accepts c ∧ s.pageFaultHandler c x =
    s.enterUpcall c (utfAddr (s.envs c).envTf.esp) x) ∨ (¬s.Accepts c ∧ ∃ t, s.envFree c =
    some t ∧ s.pageFaultHandler c x = ({t with curenv := none} : Kern).schedYield) := by
  obtain ⟨t,ht,hd⟩ := envDestroy_cur h hc hcur
  have hdestroy : ∀ o : Option Kern, (s.envDestroy c).map Prod.snd = o →
      o = ({t with curenv := none} : Kern).schedYield := by
    rintro _ rfl
    rw [hd,map_map]
    exact map_id'
  unfold pageFaultHandler
  simp only [ne_eq,hup,not_false_eq_true,if_true]
  rw [userMemAssert_byte h hc]
  by_cases hstack : s.RoundOk (s.pgdir c) (UXSTACKTOP-1) PTE_U
  · simp only [if_pos hstack,bind,Option.bind]
    by_cases hesp : OnXstack (s.envs c).envTf.esp
    · rw [if_pos hesp,userMemAssert_byte h hc]
      by_cases heip : s.RoundOk (s.pgdir c) (s.envs c).envTf.eip PTE_U
      · simp only [if_pos heip]
        by_cases hlow : (s.envs c).envTf.esp-SIZEOF_UTRAPFRAME-4 < UXSTACKTOP-0x1000
        · right
          refine ⟨fun ha => ?_,t,ht,?_⟩
          · have := (ha.2 hesp).2
            rw [utfAddr,if_pos hesp] at this
            exact absurd hlow (BitVec.not_lt.mpr this)
          rw [if_pos hlow]
          exact hdestroy _ (by cases s.envDestroy c <;> rfl)
        left
        rw [if_neg hlow,utfAddr,if_pos hesp]
        refine ⟨⟨hstack,fun _ => ⟨heip,?_⟩⟩,rfl⟩
        rw [utfAddr,if_pos hesp]
        exact BitVec.not_lt.mp hlow
      right
      refine ⟨fun ha => heip (ha.2 hesp).1,t,ht,?_⟩
      rw [if_neg heip]
      refine hdestroy _ ?_
      rw [hd]
      cases ({t with curenv := none} : Kern).schedYield <;> rfl
    left
    rw [if_neg hesp,utfAddr,if_neg hesp]
    exact ⟨⟨hstack,fun hc => absurd hc hesp⟩,rfl⟩
  right
  refine ⟨fun ha => hstack ha.1,t,ht,?_⟩
  rw [if_neg hstack]
  refine hdestroy _ ?_
  rw [hd]
  cases ({t with curenv := none} : Kern).schedYield <;> rfl

end check

section push

variable {K : Finset Nat} {s : Kern} {c : Nat} {w : Word}

lemma utfAddr_bounds {esp : Word} (hlow : OnXstack esp → UXSTACKTOP-0x1000 ≤ utfAddr
    esp) : (UXSTACKTOP-0x1000).toNat ≤ (utfAddr esp).toNat ∧ (utfAddr esp).toNat+52 ≤
    UXSTACKTOP.toNat ∧ (OnXstack esp → (utfAddr esp).toNat+52+4 ≤ esp.toNat) := by
  have htop : UXSTACKTOP.toNat = 4005560320 := rfl
  by_cases hesp : OnXstack esp
  · have h1 : esp.toNat < UXSTACKTOP.toNat := hesp.1
    have h2 : (UXSTACKTOP-0x1000).toNat ≤ esp.toNat := hesp.2
    have h3 : (UXSTACKTOP-0x1000).toNat ≤ (utfAddr esp).toNat := hlow hesp
    have hu : (utfAddr esp).toNat = esp.toNat-56 := by
      rw [show (UXSTACKTOP-0x1000).toNat = 4005556224 from rfl] at h2
      rw [utfAddr,if_pos hesp,BitVec.toNat_sub,BitVec.toNat_sub,
        show SIZEOF_UTRAPFRAME.toNat = 52 from rfl,show (4 : Word).toNat = 4 from rfl]
      omega
    rw [show (UXSTACKTOP-0x1000).toNat = 4005556224 from rfl] at h2 h3 ⊢
    exact ⟨h3,by omega,fun _ => by omega⟩
  rw [utfAddr,if_neg hesp]
  exact ⟨by decide,by decide,fun hc => absurd hc hesp⟩

lemma enterUpcall_page (h : Inv K NoHand s) (hc : s.Live c)
    (hrun : (s.envs c).envStatus = .running) (hw : s.pte c (PPN (UXSTACKTOP-1)) = some w)
    (hwr : w&&&PTE_W ≠ 0) {utf : Word} (hlo : (UXSTACKTOP-0x1000).toNat ≤ utf.toNat)
    (hhi : utf.toNat+52 ≤ UXSTACKTOP.toNat) (x : Ext) : ∃ u, s.enterUpcall c utf x = some u := by
  have hpage : PPN (UXSTACKTOP-1) = 977919 := by decide
  have hlow : (UXSTACKTOP-0x1000).toNat = 977919*4096 := rfl
  have htop : UXSTACKTOP.toNat = 977919*4096+4096 := rfl
  obtain ⟨t,ht,_⟩ := storeBytes_user ((utfWords (s.envs c).envTf x.cr2).flatMap wordBytes) utf s
    h hc (by rw [utf_length]; exact hhi) fun b h1 h2 => by
      have hb : PPN b = 977919 := by
        rw [utf_length] at h2
        rw [PPN_eq]
        omega
      exact ⟨w,by rw [hb,← hpage]; exact hw,hwr⟩
  have hst : ((t.modEnv c fun v => { v with
      envTf := {v.envTf with eip := v.envPgfaultUpcall, esp := utf} }).envs c).envStatus =
      .running := by
    rw [modEnv_self,(storeBytes_frame _ ht).1]
    exact hrun
  rw [enterUpcall,ht]
  simp only [bind,Option.bind,if_pos hst]
  exact ⟨_,rfl⟩

lemma upcall_pte (hacc : s.Accepts c) (hp : Present (s.xstackPte c)) :
    s.pte c (PPN (UXSTACKTOP-1)) = some (s.xstackPte c) := by
  have hpde := hacc.1.2.1
  have hd : Present (s.pde c (PPN (UXSTACKTOP-1)/1024)) := by
    rw [← PDX_eq]
    exact hpde
  rw [pte_of_present hd,← PDX_eq,← PTX_eq]
  exact if_pos hp

end push

lemma saved_current {K : Finset Nat} {s : Kern} {c : Nat} (h : Reachable K s) (hcur : s.curenv =
    some c) (tf : Trapframe) : ((s.saved c tf).envs c).envStatus = .running ∧ (s.saved c tf).Live
    c ∧ ((s.saved c tf).envs c).envPgfaultUpcall = (s.envs c).envPgfaultUpcall := by
  have hrun : ((s.saved c tf).envs c).envStatus = .running := by
    rw [saved,modEnv_self]
    exact (h.settled.running hcur).mpr rfl
  refine ⟨hrun,⟨(h.good.cur c hcur).1,by rw [hrun]; simp⟩,?_⟩
  rw [saved,modEnv_self]

/-- With its upcall set, a fault of the current environment is handled when the exception stack is
present and writable. -/
theorem fault_handled {K : Finset Nat} {s : Kern}
    {c : Nat} (h : Reachable K s) (hcur : s.curenv = some c) (hup : (s.envs c).envPgfaultUpcall ≠ 0)
    (tf : Trapframe) (x : Ext) : (s.saved c tf).FaultHandled c x ↔ ((s.saved c tf).Accepts c →
    Present ((s.saved c tf).xstackPte c) ∧ (s.saved c tf).xstackPte c&&&PTE_W ≠ 0) := by
  have hi : Inv K NoHand (s.saved c tf) := saved_inv h.good.inv tf
  obtain ⟨hrun,hl,hupcall⟩ := saved_current h hcur tf
  obtain ⟨hacc,heq⟩ | ⟨hacc,t,ht,heq⟩ := pageFaultHandler_eq hi hl hcur (hupcall ▸ hup) x
  · constructor
    · rintro (⟨hn,_,_⟩ | ⟨_,_,hplaced⟩) _
      · exact absurd hacc hn
      obtain ⟨w,hw,hu⟩ := hplaced.page
      have hpte : (s.saved c tf).xstackPte c = w := by
        obtain ⟨_,hpte,_⟩ := pte_some hw
        rwa [← PDX_eq,← PTX_eq] at hpte
      rw [hpte]
      refine ⟨(pte_some hw).2.2,?_⟩
      rw [flag_of_and hu (by decide)]
      decide
    intro hpw
    obtain ⟨hp,hwr⟩ := hpw hacc
    have hpte := upcall_pte hacc hp
    obtain ⟨hlo,hhi,hbelow⟩ := utfAddr_bounds fun he => (hacc.2 he).2
    obtain ⟨u,hu⟩ := enterUpcall_page hi hl hrun hpte hwr hlo hhi x
    refine .pushed hu (heq.trans hu) ⟨hlo,hhi,⟨_,hpte,?_⟩,hbelow⟩
    exact and_flags (and_flags (present_flag hp) (writable_flag hwr)) hacc.1.2.2
  constructor
  · exact fun _ ha => absurd ha hacc
  · exact fun _ => .destroyed hacc ht heq

/-- One environment that maps its exception stack with `perm` and sets its upcall. -/
def xstackRun (perm : Word) : List Act :=
  [.create 0x800020 [],.start,.trap (callFrame 0 5 0 (UXSTACKTOP-0x1000) perm 0 0) {},
   .trap (callFrame 0 11 0 0x800020 0 0 0) {}]

def faultFrame : Trapframe := {initTf 0 with eip := 0x800020, trapno := 14}

theorem fault_handled_writable : ∃ s : Kern, Reachable {0} s ∧ s.curenv = some 0 ∧
    (s.envs 0).envPgfaultUpcall ≠ 0 ∧ (s.saved 0 faultFrame).Accepts 0 ∧
    (s.saved 0 faultFrame).FaultHandled 0 {cr2 := 0x1000} := by
  have hrun : (execAll (xstackRun 7) (bootKern 32)).map (fun s =>
      decide (s.curenv = some 0 ∧ (s.envs 0).envPgfaultUpcall ≠ 0 ∧
        (s.saved 0 faultFrame).RoundOk ((s.saved 0 faultFrame).pgdir 0) (UXSTACKTOP-1) PTE_U ∧
        Present ((s.saved 0 faultFrame).xstackPte 0) ∧
        (s.saved 0 faultFrame).xstackPte 0&&&PTE_W ≠ 0)) = some true := by decide +kernel
  obtain ⟨s,hs,hcur,hup,hok,hp,hw⟩ := of_map_decide hrun
  have hreach := execAll_reachable hs
  have htf : ((s.saved 0 faultFrame).envs 0).envTf = faultFrame := by rw [saved,modEnv_self]
  refine ⟨s,hreach,hcur,hup,⟨hok,fun he => ?_⟩,(fault_handled hreach hcur hup _ _).mpr fun _ => ⟨hp,hw⟩⟩
  rw [htf] at he
  exact absurd he (by decide)

theorem fault_kernel : ∃ s : Kern, Reachable {0} s ∧ s.curenv = some 0 ∧
    (s.envs 0).envPgfaultUpcall ≠ 0 ∧ (s.saved 0 faultFrame).Accepts 0 ∧
    (s.saved 0 faultFrame).pageFaultHandler 0 {cr2 := 0x1000} = none ∧
    ¬(s.saved 0 faultFrame).FaultHandled 0 {cr2 := 0x1000} := by
  have hrun : (execAll (xstackRun 5) (bootKern 32)).map (fun s =>
      decide (s.curenv = some 0 ∧ (s.envs 0).envPgfaultUpcall ≠ 0 ∧
        (s.saved 0 faultFrame).RoundOk ((s.saved 0 faultFrame).pgdir 0) (UXSTACKTOP-1) PTE_U ∧
        ((s.saved 0 faultFrame).enterUpcall 0 (UXSTACKTOP-SIZEOF_UTRAPFRAME) {cr2 := 0x1000}).isNone)) =
        some true := by decide +kernel
  obtain ⟨s,hs,hcur,hup,hok,hnone⟩ := of_map_decide hrun
  have hreach := execAll_reachable hs
  have htf : ((s.saved 0 faultFrame).envs 0).envTf = faultFrame := by rw [saved,modEnv_self]
  have hacc : (s.saved 0 faultFrame).Accepts 0 := by
    refine ⟨hok,fun he => ?_⟩
    rw [htf] at he
    exact absurd he (by decide)
  have hi : Inv {0} NoHand (s.saved 0 faultFrame) := saved_inv hreach.good.inv faultFrame
  obtain ⟨_,hl,hupcall⟩ := saved_current hreach hcur faultFrame
  have hnone' : (s.saved 0 faultFrame).pageFaultHandler 0 {cr2 := 0x1000} = none := by
    obtain ⟨_,heq⟩ | ⟨hn,_⟩ := pageFaultHandler_eq hi hl hcur (hupcall ▸ hup) {cr2 := 0x1000}
    · rw [heq,htf]
      exact isNone_iff_eq_none.mp hnone
    · exact absurd hacc hn
  refine ⟨s,hreach,hcur,hup,hacc,hnone',?_⟩
  rintro (⟨hn,_,_⟩ | ⟨_,heq,_⟩)
  · exact hn hacc
  rw [hnone'] at heq
  cases heq

end KludgeOS
