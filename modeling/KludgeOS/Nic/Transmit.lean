import KludgeOS.Nic.E100
import KludgeOS.UserMem

/-!
The transmit ring. `e100_intr` counts a sent packet off `cbl_count` and never
moves `cbl_head`, so the ring is right as long as it holds one packet.
-/

namespace KludgeOS

open List Option

def IntrPc.counts : IntrPc → Bool
  | .cna s => s.cna
  | _ => false

def IntrPc.acks : IntrPc → Bool
  | .cliCna _ => true
  | _ => false

inductive TxPhase (m : Cbl) (pc : IntrPc) : Prop where
  | idle : m.cblCount = 0 → m.active = false → (m.cna → pc.acks) →
      pc.counts = false → m.sent = m.accepted.map Prod.snd → TxPhase m pc
  | busy (l : List (Nat × List Byte)) (p : List Byte) : m.cblCount = 1 → m.active →
      m.cna = false → pc.counts = false → pc.acks = false → m.scbPointer = 0 →
      m.accepted = l++[(0,p)] → m.sent = l.map Prod.snd → (m.cbl 0).packet = p → TxPhase m pc
  | sent : m.cblCount = 1 → m.active = false → pc.acks = false →
      m.sent = m.accepted.map Prod.snd → TxPhase m pc

structure TxInv (m : Nic) : Prop where
  head : m.tx.cblHead = 0
  phase : TxPhase m.tx m.pc

def Sparing (m : Nic) : NicAct → Prop
  | .add p => m.tx.cblCount = 0 ∧ p.length ≤ E100_MAX_PKT_SIZE
  | _ => True

instance (m : Nic) (a : NicAct) : Decidable (Sparing m a) :=
  match a with
  | .add _ => inferInstanceAs (Decidable (_ ∧ _))
  | .rem | .intr | .transmit | .store _ | .note _ _ => isTrue trivial

section transmit

variable {m m' : Nic} {a : NicAct} {p : List Byte} {t : Cbl}

lemma packet_filled (t : Tcb) (hp : p.length ≤ E100_MAX_PKT_SIZE) :
    ({t with status := 0, data := overwrite t.data p, size := BitVec.ofNat 16 p.length} : Tcb).packet
      = p := by
  have hlen : p.length%65536 = p.length := Nat.mod_eq_of_lt (by unfold E100_MAX_PKT_SIZE at hp; omega)
  simp [Tcb.packet,overwrite,hlen]

lemma TxInv.init (cbl : Nat → Tcb) (rfa : Nat → Rfd) : TxInv (.e100Init cbl rfa) :=
  ⟨rfl,.idle rfl rfl (fun h => Bool.noConfusion h) rfl rfl⟩

lemma e100AddTcb_empty (h0 : t.cblCount = 0) (hhead : t.cblHead = 0)
    (hp : p.length ≤ E100_MAX_PKT_SIZE) : t.e100AddTcb p = some (0,{ t with
        cbl := Function.update t.cbl 0 { t.cbl 0 with
          status := 0, data := overwrite (t.cbl 0).data p, size := BitVec.ofNat 16 p.length }
        cblCount := 1
        accepted := t.accepted++[(0,p)]
        scbPointer := 0
        active := true }) := by
  have hfull : ¬(0 : Nat) = CBL_SIZE := by decide
  have hlong : ¬E100_MAX_PKT_SIZE < p.length := by omega
  simp [Cbl.e100AddTcb,h0,hhead,hfull,hlong,Cbl.e100Startcu]

lemma TxInv.add (h : TxInv m) (hpc : m.pc = .out) (h0 : m.tx.cblCount = 0)
    (hp : p.length ≤ E100_MAX_PKT_SIZE) {q : Int × Cbl} (ht : m.tx.e100AddTcb p = some q) :
    TxInv {m with tx := q.2} := by
  rw [e100AddTcb_empty h0 h.head hp] at ht
  cases ht
  cases h.phase with
  | idle _ hact hcna hcounts hsent =>
    have hcna' : m.tx.cna = false := by
      cases hc : m.tx.cna with
      | false => rfl
      | true =>
        have := hcna hc
        rw [hpc] at this
        contradiction
    refine ⟨h.head,.busy m.tx.accepted p rfl rfl hcna' hcounts (by rw [hpc]; rfl) rfl rfl hsent ?_⟩
    simp only [Function.update_self]
    exact packet_filled _ hp
  | busy _ _ h1 => omega
  | sent h1 => omega

lemma TxInv.transmit (h : TxInv m) (hact : m.tx.active) : TxInv {m with tx := m.tx.transmit} := by
  refine ⟨h.head,?_⟩
  cases h.phase with
  | idle _ hno => simp [hno] at hact
  | busy l p h1 _ _ _ hacks hptr hacc hsent hp =>
    refine .sent h1 rfl hacks ?_
    simp [Cbl.transmit,hptr,hp,hacc,hsent]
  | sent _ hno => simp [hno] at hact

lemma count_one (h1 : t.cblCount = 1) : t.count = {t with cblCount := 0} := by
  simp [Cbl.count,h1,Cbl.e100Startcu]

lemma TxPhase.move {pc pc' : IntrPc} (h : TxPhase t pc) (hacks : pc'.acks = pc.acks)
    (hcounts : pc'.counts → t.cna ∧ pc.acks = false) : TxPhase t pc' := by
  cases h with
  | idle h0 hact hcna _ hsent =>
    refine .idle h0 hact (fun hc => hacks.trans (hcna hc)) ?_ hsent
    by_contra hc
    obtain ⟨hcna',hno⟩ := hcounts (by simpa using hc)
    simp [hcna hcna'] at hno
  | busy l p h1 hact hcna _ hno hptr hacc hsent hp =>
    refine .busy l p h1 hact hcna ?_ (hacks.trans hno) hptr hacc hsent hp
    by_contra hc
    obtain ⟨hcna',_⟩ := hcounts (by simpa using hc)
    simp [hcna] at hcna'
  | sent h1 hact hno hsent => exact .sent h1 hact (hacks.trans hno) hsent

lemma TxInv.intr (h : TxInv m) : TxInv m.e100Intr := by
  obtain ⟨hhead,hphase⟩ := h
  unfold Nic.e100Intr
  split
  case h_1 hpc =>
    rw [hpc] at hphase
    exact ⟨hhead,hphase.move rfl fun hc => ⟨hc,rfl⟩⟩
  case h_2 s hpc =>
    rw [hpc] at hphase
    split
    · rename_i hs
      cases hphase with
      | idle _ _ _ hcounts => simp [IntrPc.counts,hs] at hcounts
      | busy _ _ _ _ _ hcounts => simp [IntrPc.counts,hs] at hcounts
      | sent h1 hact _ hsent =>
        rw [count_one h1]
        exact ⟨hhead,.idle rfl hact (fun _ => rfl) rfl hsent⟩
    exact ⟨hhead,hphase.move rfl fun hc => Bool.noConfusion hc⟩
  case h_3 s hpc =>
    rw [hpc] at hphase
    refine ⟨hhead,?_⟩
    cases hphase with
    | idle h0 hact _ _ hsent => exact .idle h0 hact (fun h => Bool.noConfusion h) rfl hsent
    | busy _ _ _ _ _ _ hacks => contradiction
    | sent _ _ hacks => contradiction
  case h_4 s hpc =>
    rw [hpc] at hphase
    split <;> exact ⟨hhead,hphase.move rfl fun hc => Bool.noConfusion hc⟩
  case h_5 hpc =>
    rw [hpc] at hphase
    exact ⟨hhead,hphase.move rfl fun hc => Bool.noConfusion hc⟩
  case h_6 hpc =>
    rw [hpc] at hphase
    exact ⟨hhead,hphase.move rfl fun hc => Bool.noConfusion hc⟩

lemma TxInv.step (h : TxInv m) (hs : m.step a = some m') (ha : Sparing m a) : TxInv m' := by
  cases Nic.stepped hs with
  | add hpc hq => exact h.add hpc ha.1 ha.2 hq
  | intr => exact h.intr
  | transmit hact => exact h.transmit hact
  | rem | remFails | store | note => exact ⟨h.head,h.phase⟩

lemma NicRun.txInv (h : NicRun Sparing m) : TxInv m := by
  induction h with
  | init cbl rfa => exact .init cbl rfa
  | step _ hs ha ih => exact ih.step hs ha

lemma none_waiting (h : t.sent = t.accepted.map Prod.snd) {k n : Nat} (hk : t.sent.length ≤ k) :
    t.accepted[k]? ≠ some (n,p) := by
  intro hacc
  obtain ⟨hlt,_⟩ := List.getElem?_eq_some_iff.mp hacc
  rw [h,length_map] at hk
  omega

/-- If packets are added to an empty ring only, the adapter sends the accepted packets once each
and in order. -/
theorem transmit_ring (h : NicRun Sparing m) : m.tx.sent <+: m.tx.accepted.map Prod.snd ∧
    (∀ k n p, m.tx.sent.length ≤ k → m.tx.accepted[k]? = some (n,p) → (m.tx.cbl n).packet = p) ∧
    m.tx.cblCount ≤ CBL_SIZE := by
  cases h.txInv.phase with
  | idle h0 _ _ _ hsent =>
    exact ⟨hsent ▸ prefix_rfl,fun k n p hk hacc => absurd hacc (none_waiting hsent hk),
      by rw [h0]; decide⟩
  | busy l q h1 _ _ _ _ _ hacc hsent hq =>
    refine ⟨⟨[q],by simp [hacc,hsent]⟩,fun k n p hk hget => ?_,by rw [h1]; decide⟩
    rw [hsent,length_map] at hk
    rw [hacc,getElem?_append_right hk] at hget
    obtain ⟨rfl,rfl⟩ : 0 = n ∧ q = p := by
      have := mem_of_getElem? hget
      simpa [eq_comm] using this
    exact hq
  | sent h1 _ _ hsent =>
    exact ⟨hsent ▸ prefix_rfl,fun k n p hk hacc => absurd hacc (none_waiting hsent hk),
      by rw [h1]; decide⟩

end transmit

def sparingRun : List NicAct :=
  [.add [1,2],.transmit,.intr,.intr,.intr,.intr,.intr,.add [3],.transmit]

theorem transmit_ring_two : ∃ m, NicRun Sparing m ∧ m.tx.sent = [[1,2],[3]] ∧
    m.tx.sent <+: m.tx.accepted.map Prod.snd := by
  have hrun : ((Nic.e100Init blankTcb blankRfd).run Sparing sparingRun).map
      (fun m => decide (m.tx.sent = [[1,2],[3]])) = some true := by decide +kernel
  obtain ⟨m,hm,hsent⟩ := of_map_decide hrun
  have h := (NicRun.init blankTcb blankRfd).run sparingRun hm
  exact ⟨m,h,hsent,(transmit_ring h).1⟩

def queuedRun : List NicAct :=
  [.add [1,2],.add [3],.transmit,.intr,.intr,.intr,.intr,.intr,.transmit]

theorem transmit_ring_resends : ∃ m, NicRun (fun _ _ => True) m ∧
    m.tx.accepted.map Prod.snd = [[1,2],[3]] ∧ m.tx.sent = [[1,2],[1,2]] := by
  have hrun : ((Nic.e100Init blankTcb blankRfd).run (fun _ _ => True) queuedRun).map
      (fun m => decide (m.tx.accepted.map Prod.snd = [[1,2],[3]] ∧ m.tx.sent = [[1,2],[1,2]])) =
        some true := by decide +kernel
  obtain ⟨m,hm,hsent⟩ := map_eq_some_iff.mp hrun
  exact ⟨m,(NicRun.init blankTcb blankRfd).run queuedRun hm,of_decide_eq_true hsent⟩

section legal

/-- `mem` is memory as the kernel reads it; neither the range nor `size` is tested. -/
def Cbl.sysNicSend (mem : Word → Byte) (m : Cbl) (packet size : Word) : Option (Int × Cbl) :=
  m.e100AddTcb ((range size.toNat).map fun k => mem (packet+BitVec.ofNat 32 k))

/-- The copy reads what the environment of `g` may read and stays in one data array. -/
structure SendsLegally (s : Kern) (g : Nat) (mem : Word → Byte) (m : Cbl) (packet size : Word) :
    Prop where
  reads : m.cblCount ≠ CBL_SIZE →
    ∀ k < size.toNat, s.PageOk g PTE_U (PPN (packet+BitVec.ofNat 32 k))
  writes : m.sysNicSend mem packet size ≠ none
  refused : ∀ r m', m.sysNicSend mem packet size = some (r,m') → r = 0 ∨ r < 0 ∧ m' = m

theorem sendsLegally_iff (s : Kern) (g : Nat) (mem : Word → Byte) (m : Cbl) (packet size : Word)
    : SendsLegally s g mem m packet size ↔ m.cblCount = CBL_SIZE ∨ size.toNat ≤ E100_MAX_PKT_SIZE ∧
    ∀ k < size.toNat, s.PageOk g PTE_U (PPN (packet+BitVec.ofNat 32 k)) := by
  by_cases hfull : m.cblCount = CBL_SIZE
  · have hs : m.sysNicSend mem packet size = some (-1,m) := if_pos hfull
    refine iff_of_true ⟨absurd hfull,by simp [hs],fun r m' h => .inr ?_⟩ (.inl hfull)
    cases hs.symm.trans h
    exact ⟨by decide,rfl⟩
  constructor
  · intro h
    refine .inr ⟨?_,h.reads hfull⟩
    by_contra hgt
    refine h.writes ((if_neg hfull).trans (if_pos ?_))
    simpa using hgt
  intro h
  obtain ⟨hle,hr⟩ := h.resolve_left hfull
  obtain ⟨m1,hs⟩ : ∃ m1, m.sysNicSend mem packet size = some (0,m1) :=
    ⟨_,(if_neg hfull).trans (if_neg (by simpa using hle))⟩
  refine ⟨fun _ => hr,by simp [hs],fun r m' h => .inl ?_⟩
  cases hs.symm.trans h
  rfl

theorem send_unchecked : ¬SendsLegally (bootKern 8) 0 (fun _ => 0) (.cblInit blankTcb) ULIM 1 :=
  fun h => absurd (h.reads (by decide) 0 (by decide)).1 (by decide)

end legal

end KludgeOS
