import KludgeOS.Nic.E100

/-!
The receive ring. Frame `k`, in the order the adapter stores them, is in descriptor `k %
RFA_SIZE`; the adapter suspends after it has stored frame `tail`.
-/

namespace KludgeOS
open Bool (noConfusion)
open BitVec List Option Function Bool
open BitVec (ofNat)
open Rfa (rfaInit RFA_INIT)

def Linked (rfa : Nat → Rfd) : Prop :=
  ∀ i < 8, (rfa i).link = (i+1)%8 ∧ (rfa i).size = ofNat 16 E100_MAX_PKT_SIZE

/-- The ring, when `tail` is the number of the frame after which the adapter suspends. -/
structure Ring (m : Rfa) (tail : Nat) : Prop where
  head_eq : m.rfaHead = m.returned.length%8
  tail_eq : m.rfaTail = tail%8
  next_eq : m.next = m.stored.length%8
  returned_le : m.returned.length ≤ m.stored.length
  stored_le : m.stored.length ≤ tail+1
  tail_le : tail ≤ m.returned.length+7
  linked : Linked m.rfa
  /-- The descriptors that hold no frame are marked free, and the S bit stands at the tail. -/
  free : ∀ k, m.stored.length ≤ k → k < m.returned.length+8 →
    (m.rfa (k%8)).status = 0 ∧ ((m.rfa (k%8)).command&&&rfd_s ≠ 0 ↔ k = tail)
  /-- The others hold the frames that are not returned yet. -/
  held : ∀ k n l, m.returned.length ≤ k → m.stored[k]? = some (n,l) →
    n = k%8 ∧ (m.rfa n).Complete ∧ (m.rfa n).frame = l
  returned_eq : m.returned = (m.stored.map Prod.snd).take m.returned.length
  suspended_iff : m.suspended ↔ m.stored.length = tail+1

section descriptor

lemma filled_complete (d : Rfd) (l x : List Byte) : ({ d with
        status := d.status|||rfd_status_c
        status2 := rfd_status2_eof|||ofNat 16 l.length
        data := x } : Rfd).Complete := by
  constructor
  · intro h
    have := congrArg (fun w : Half => w.getLsbD 15) h
    simp [rfd_status_c] at this
  intro h
  have := congrArg (fun w : Half => w.getLsbD 15) h
  simp [rfd_status2_eof] at this

lemma filled_count {n : Nat} (h : n ≤ E100_MAX_PKT_SIZE) :
    ((rfd_status2_eof|||ofNat 16 n)&&&rfd_status2_count_mask).toNat = n := by
  unfold E100_MAX_PKT_SIZE at h
  have h1 : n%65536 = n := Nat.mod_eq_of_lt (by omega)
  have h2 : (32768|||n) = 32768+n := by
    have := Nat.two_pow_add_eq_or_of_lt (i := 15) (b := n) (by omega) 1
    simpa using this.symm
  have h3 := Nat.and_two_pow_sub_one_eq_mod (32768|||n) 14
  simp only [rfd_status2_eof,rfd_status2_count_mask,toNat_and,toNat_or,toNat_ofNat,h1]
  change (32768|||n)&&&16383 = n
  change (32768|||n)&&&16383 = _ at h3
  rw [h3,h2]
  omega

lemma not_complete_of_status {d : Rfd} (h : d.status = 0) : ¬d.Complete := by
  intro hc
  exact hc.1 (by rw [h]; decide)

end descriptor

section ring

variable {m : Rfa} {tail : Nat}

lemma Ring.init (rfa : Nat → Rfd) : Ring (.rfaInit rfa) 7 where
  head_eq := rfl
  tail_eq := rfl
  next_eq := rfl
  returned_le := le_rfl
  stored_le := by simp [rfaInit]
  tail_le := by simp [rfaInit]
  linked i hi := by simp [rfaInit,RFA_SIZE,hi,RFA_INIT]
  free k _ hk := by
    have hk' : k < 8 := by simpa [rfaInit] using hk
    have hmod : k%8 = k := Nat.mod_eq_of_lt hk'
    simp only [rfaInit,RFA_SIZE,hmod,hk',if_true,RFA_INIT]
    refine ⟨trivial,?_⟩
    by_cases h7 : k = 7
    · simp [h7,rfd_s]
    simp [h7]
  held k n l _ hk := by simp [rfaInit] at hk
  returned_eq := rfl
  suspended_iff := by simp [rfaInit]

lemma slot_ne {i k : Nat} (hik : i < k) (hk : k < i+8) : i%8 ≠ k%8 := by omega

lemma Linked.update {rfa : Nat → Rfd} (h : Linked rfa) {j : Nat} {d : Rfd} (hlink : d.link = (rfa
    j).link) (hsize : j < 8 → d.size = ofNat 16 E100_MAX_PKT_SIZE) : Linked (update rfa j d) := by
  intro i hi
  by_cases hij : i = j
  · subst hij
    rw [update_self]
    exact ⟨hlink.trans (h i hi).1,hsize hi⟩
  rw [update_of_ne hij]
  exact h i hi

lemma Ring.store (h : Ring m tail) (hrun : m.suspended = false) {l : List Byte}
    (hl : l.length ≤ (m.rfa m.next).size.toNat) : Ring (m.store l) tail := by
  have hle := h.stored_le
  have hr := h.returned_le
  have ht := h.tail_le
  have hne : m.stored.length ≠ tail+1 := fun hc => by
    have := h.suspended_iff.mpr hc
    rw [hrun] at this
    cases this
  have hnext : m.next < 8 := by rw [h.next_eq]; omega
  obtain ⟨hfree,hlast⟩ := h.free m.stored.length le_rfl (by omega)
  rw [← h.next_eq] at hfree hlast
  have hlen : (m.store l).stored.length = m.stored.length+1 := by simp [Rfa.store]
  -- The descriptors other than the one stored to are as before.
  have hother : ∀ i, i ≠ m.next → (m.store l).rfa i = m.rfa i :=
    fun i hi => update_of_ne hi _ _
  have hself : (m.store l).rfa m.next = { m.rfa m.next with
      status := (m.rfa m.next).status|||rfd_status_c
      status2 := rfd_status2_eof|||ofNat 16 l.length
      data := overwrite (m.rfa m.next).data l } := update_self _ _ _
  obtain ⟨hlink,hsize⟩ := h.linked m.next hnext
  refine ⟨h.head_eq,h.tail_eq,?_,?_,?_,h.tail_le,h.linked.update rfl fun _ => hsize,
    fun k hk hk' => ?_,fun k n x hk hget => ?_,?_,?_⟩
  · rw [hlen]
    change (m.rfa m.next).link = _
    rw [hlink,h.next_eq]
    omega
  · rw [hlen]
    exact Nat.le_succ_of_le hr
  · rw [hlen]
    omega
  · rw [hlen] at hk
    have hk8 : k < m.returned.length+8 := hk'
    rw [hother (k%8) (by rw [h.next_eq]; exact (slot_ne hk (by omega)).symm)]
    exact h.free k (by omega) hk'
  · have hk' : m.returned.length ≤ k := hk
    change (m.stored++[(m.next,l)])[k]? = _ at hget
    by_cases hlt : k < m.stored.length
    · rw [getElem?_append_left hlt] at hget
      obtain ⟨rfl,hc,hf⟩ := h.held k n x hk' hget
      rw [hother (k%8) (by rw [h.next_eq]; exact slot_ne hlt (by omega))]
      exact ⟨rfl,hc,hf⟩
    rw [getElem?_append_right (by omega)] at hget
    have hk0 : k-m.stored.length = 0 := by
      by_contra hc
      rw [List.getElem?_eq_none (by simp; omega)] at hget
      cases hget
    rw [hk0] at hget
    cases hget
    refine ⟨by rw [h.next_eq]; congr 1; omega,?_,?_⟩
    · rw [hself]
      exact filled_complete _ _ _
    rw [hself]
    have hlen' : l.length ≤ E100_MAX_PKT_SIZE := by
      rw [hsize] at hl
      exact hl
    simp only [Rfd.frame,filled_count hlen']
    simp [overwrite]
  · change m.returned = ((m.stored++[(m.next,l)]).map Prod.snd).take m.returned.length
    rw [map_append,take_append_of_le_length (by simpa using hr)]
    exact h.returned_eq
  rw [hlen]
  change (m.suspended || decide ((m.rfa m.next).command&&&rfd_s ≠ 0)) = true ↔ _
  rw [hrun,Bool.false_or,decide_eq_true_iff,hlast]
  omega

lemma Ring.makeroom (h : Ring m tail) (hs : m.suspended) :
    (m.stored.length = m.returned.length ∨ m.stored.length = m.returned.length+8) ∧
        Ring m.rfaMakeroom tail ∧ m.rfaMakeroom = {m with rfaNoroom := true} ∨
      m.returned.length < m.stored.length ∧ m.stored.length < m.returned.length+8 ∧
        Ring m.rfaMakeroom (m.returned.length+7) ∧ m.rfaMakeroom.rfaNoroom = false ∧
        m.rfaMakeroom.suspended = false := by
  have hF := h.suspended_iff.mp hs
  have hr := h.returned_le
  have ht := h.tail_le
  unfold Rfa.rfaMakeroom
  by_cases hfull : (m.rfaTail+1)%RFA_SIZE = m.rfaHead
  · rw [if_pos hfull]
    rw [h.tail_eq,h.head_eq,RFA_SIZE] at hfull
    exact .inl ⟨by omega,⟨h.1,h.2,h.3,h.4,h.5,h.6,h.7,h.8,h.9,h.10,h.11⟩,rfl⟩
  rw [if_neg hfull]
  rw [h.tail_eq,h.head_eq,RFA_SIZE] at hfull
  have hidx : (m.rfaHead+RFA_SIZE-1)%RFA_SIZE = (m.returned.length+7)%8 := by
    rw [h.head_eq,RFA_SIZE]
    omega
  simp only [hidx]
  refine .inr ⟨by omega,by omega,?_,trivial,trivial⟩
  have hother : ∀ i, i ≠ (m.returned.length+7)%8 → update m.rfa ((m.returned.length+7)%8)
        (RFA_INIT (m.rfa ((m.returned.length+7)%8)) true) i = m.rfa i :=
    fun i hi => update_of_ne hi _ _
  refine ⟨h.head_eq,rfl,h.next_eq,hr,?_,le_rfl,h.linked.update rfl fun _ => rfl,
    fun k hk hk' => ?_,fun k n x hk hget => ?_,h.returned_eq,?_⟩
  · change m.stored.length ≤ _
    omega
  · have hk1 : m.stored.length ≤ k := hk
    have hk2 : k < m.returned.length+8 := hk'
    by_cases hk7 : k = m.returned.length+7
    · simp only [hk7,update_self,RFA_INIT]
      simp [rfd_s]
    simp only [hother (k%8) (slot_ne (k := m.returned.length+7) (by omega) (by omega))]
    obtain ⟨hst,hcmd⟩ := h.free k hk1 hk2
    refine ⟨hst,hcmd.trans ⟨fun hc => ?_,fun hc => absurd hc hk7⟩⟩
    omega
  · have hk1 : m.returned.length ≤ k := hk
    have hget' : m.stored[k]? = some (n,x) := hget
    obtain ⟨hklt,_⟩ := List.getElem?_eq_some_iff.mp hget'
    obtain ⟨rfl,hc,hf⟩ := h.held k n x hk1 hget'
    simp only [hother (k%8) (slot_ne (k := m.returned.length+7) (by omega) (by omega))]
    exact ⟨trivial,hc,hf⟩
  refine iff_of_false (by simp) ?_
  change ¬m.stored.length = _
  omega

lemma Ring.first (h : Ring m tail) (hlt : m.returned.length < m.stored.length) :
    (m.rfa m.rfaHead).Complete ∧
      m.stored[m.returned.length]? = some (m.rfaHead,(m.rfa m.rfaHead).frame) := by
  have hget := List.getElem?_eq_getElem hlt
  obtain ⟨hn,hc,hf⟩ := h.held _ _ _ le_rfl hget
  rw [← h.head_eq] at hn
  rw [hn] at hc hf
  refine ⟨hc,hget.trans ?_⟩
  rw [hf,← hn]
  rfl

lemma Ring.complete_iff (h : Ring m tail) :
    (m.rfa m.rfaHead).Complete ↔ m.returned.length < m.stored.length := by
  have hr := h.returned_le
  refine ⟨fun hc => ?_,fun hlt => (h.first hlt).1⟩
  by_contra hlt
  rw [h.head_eq] at hc
  exact not_complete_of_status (h.free m.returned.length (by omega) (by omega)).1 hc

lemma Ring.take (h : Ring m tail) (hlt : m.returned.length < m.stored.length) :
    Ring m.take tail := by
  have ht := h.tail_le
  have hF := h.stored_le
  obtain ⟨hc,hfirst⟩ := h.first hlt
  have hlen : m.take.returned.length = m.returned.length+1 := by simp [Rfa.take]
  have hother : ∀ i, i ≠ m.returned.length%8 → m.take.rfa i = m.rfa i :=
    fun i hi => update_of_ne (by rw [h.head_eq]; exact hi) _ _
  refine ⟨?_,h.tail_eq,h.next_eq,?_,h.stored_le,?_,h.linked.update rfl fun _ => rfl,
    fun k hk hk' => ?_,fun k n x hk hget => ?_,?_,h.suspended_iff⟩
  · rw [hlen]
    change (m.rfaHead+1)%RFA_SIZE = _
    rw [h.head_eq,RFA_SIZE]
    omega
  · rw [hlen]
    exact hlt
  · rw [hlen]
    omega
  · have hk1 : m.stored.length ≤ k := hk
    rw [hlen] at hk'
    by_cases hk8 : k = m.returned.length+8
    · have hidx : k%8 = m.rfaHead := by rw [h.head_eq]; omega
      have hself : m.take.rfa (k%8) = RFA_INIT (m.rfa m.rfaHead) false := by
        rw [hidx]
        exact update_self _ _ _
      rw [hself]
      refine ⟨rfl,iff_of_false (by simp [RFA_INIT]) (by omega)⟩
    rw [hother (k%8) (slot_ne (by omega) (by omega)).symm]
    exact h.free k hk1 (by omega)
  · rw [hlen] at hk
    have hget' : m.stored[k]? = some (n,x) := hget
    obtain ⟨hklt,_⟩ := List.getElem?_eq_some_iff.mp hget'
    obtain ⟨rfl,hc,hf⟩ := h.held k n x (by omega) hget'
    rw [hother (k%8) (slot_ne (by omega) (by omega)).symm]
    exact ⟨rfl,hc,hf⟩
  rw [hlen]
  change m.returned++[(m.rfa m.rfaHead).frame] = (m.stored.map Prod.snd).take _
  rw [take_add_one,← h.returned_eq,getElem?_map]
  simp [hfirst]

end ring

def IntrPc.caught : IntrPc → Bool
  | .cna s | .cliCna s | .rnr s => s.rnr || s.suspended
  | _ => false

structure RxInv (m : Nic) (tail : Nat) : Prop where
  ring : Ring m.rx tail
  noroom : m.rx.rfaNoroom → m.rx.suspended ∧
    (m.rx.stored.length = m.rx.returned.length ∨ m.rx.stored.length = m.rx.returned.length+8)
  /-- RNR is pending while the unit is suspended, but for the end of the handler. -/
  rnr : m.rx.rnr → m.pc ≠ .cliRnr → m.rx.suspended
  caught : m.pc.caught → m.rx.suspended
  acked : m.rx.rfaNoroom → m.rx.rnr → m.pc = .cliRnr

section run

variable {m m' : Nic} {a : NicAct} {tail : Nat}

lemma makeroom_rnr (m : Rfa) : m.rfaMakeroom.rnr = m.rnr := by
  unfold Rfa.rfaMakeroom
  split <;> rfl

lemma RxInv.init (cbl : Nat → Tcb) (rfa : Nat → Rfd) : RxInv (.e100Init cbl rfa) 7 :=
  ⟨Ring.init rfa,fun h => noConfusion h,fun h => noConfusion h,fun h => noConfusion h,
    fun h => noConfusion h⟩

lemma RxInv.store {l : List Byte} (h : RxInv m tail) (hrun : m.rx.suspended = false)
    (hl : l.length ≤ (m.rx.rfa m.rx.next).size.toNat) : RxInv {m with rx := m.rx.store l} tail := by
  have hroom : m.rx.rfaNoroom = false := by
    by_contra hc
    have := (h.noroom (by simpa using hc)).1
    rw [hrun] at this
    cases this
  refine ⟨h.ring.store hrun hl,fun hc => ?_,fun hr hpc => ?_,fun hc => ?_,fun hc => ?_⟩
  · exact absurd hc (by simp [Rfa.store,hroom])
  · simp only [Rfa.store,or_eq_true] at hr ⊢
    exact hr.imp (fun hr => h.rnr hr hpc) id
  · have := h.caught hc
    rw [hrun] at this
    cases this
  exact absurd hc (by simp [Rfa.store,hroom])

lemma RxInv.rem (h : RxInv m tail) (hpc : m.pc = .out) {x : Rfa} (hx : m.rx.e100RemRfd = some x) :
    ∃ tail', RxInv {m with rx := x} tail' := by
  unfold Rfa.e100RemRfd at hx
  split at hx
  · rename_i hc
    have hlt := h.ring.complete_iff.mp hc
    have htake := h.ring.take hlt
    cases hx
    split
    · rename_i hroom
      obtain ⟨hs,hF⟩ := h.noroom hroom
      have hlen : m.rx.take.returned.length = m.rx.returned.length+1 := by simp [Rfa.take]
      have hst : m.rx.take.stored = m.rx.stored := rfl
      have hrnr : m.rx.rnr = false := by
        by_contra hc
        have := h.acked hroom (by simpa using hc)
        rw [hpc] at this
        cases this
      obtain ⟨hF',_⟩ | ⟨_,_,hring,hroom',hs'⟩ := htake.makeroom hs
      · rw [hlen,hst] at hF'
        omega
      refine ⟨_,hring,fun hc => ?_,fun hc => ?_,fun hc => ?_,fun hc => ?_⟩
      · simp [hroom'] at hc
      · simp only [makeroom_rnr] at hc
        exact absurd hc (by simp [Rfa.take,hrnr])
      · simp [hpc,IntrPc.caught] at hc
      simp [hroom'] at hc
    rename_i hroom
    exact ⟨tail,htake,fun hc => absurd hc hroom,h.rnr,h.caught,fun hc => absurd hc hroom⟩
  cases hx

lemma RxInv.intr (h : RxInv m tail) : ∃ tail', RxInv m.e100Intr tail' := by
  obtain ⟨hring,hroom,hrnr,hcaught,hacked⟩ := h
  unfold Nic.e100Intr
  split
  case h_1 hpc =>
    rw [hpc] at hrnr hacked
    refine ⟨tail,hring,hroom,fun hr _ => hrnr hr (by simp),fun hc => ?_,fun hn hr => ?_⟩
    · simp only [IntrPc.caught,or_eq_true] at hc
      exact hc.elim (fun hr => hrnr hr (by simp)) id
    exact absurd (hacked hn hr) (by simp)
  case h_2 s hpc =>
    rw [hpc] at hrnr hcaught hacked
    split <;> exact ⟨tail,hring,hroom,fun hr _ => hrnr hr (by simp),hcaught,
      fun hn hr => absurd (hacked hn hr) (by simp)⟩
  case h_3 s hpc =>
    rw [hpc] at hrnr hcaught hacked
    exact ⟨tail,hring,hroom,fun hr _ => hrnr hr (by simp),hcaught,
      fun hn hr => absurd (hacked hn hr) (by simp)⟩
  case h_4 s hpc =>
    rw [hpc] at hrnr hcaught hacked
    split
    · rename_i hs
      have hsusp := hcaught hs
      obtain ⟨hF,hring',heq⟩ | ⟨_,_,hring',hroom',hs'⟩ := hring.makeroom hsusp
      · refine ⟨tail,hring',fun _ => ?_,fun _ hc => absurd rfl hc,fun hc => noConfusion hc,
          fun _ _ => rfl⟩
        simp only [heq]
        exact ⟨hsusp,hF⟩
      exact ⟨_,hring',fun hc => by simp [hroom'] at hc,fun _ hc => absurd rfl hc,
        fun hc => noConfusion hc,fun _ _ => rfl⟩
    exact ⟨tail,hring,hroom,fun hr _ => hrnr hr (by simp),fun hc => noConfusion hc,
      fun hn hr => absurd (hacked hn hr) (by simp)⟩
  case h_5 hpc =>
    exact ⟨tail,⟨hring.1,hring.2,hring.3,hring.4,hring.5,hring.6,hring.7,hring.8,hring.9,hring.10,
      hring.11⟩,hroom,fun hc => noConfusion hc,fun hc => noConfusion hc,fun _ hc => noConfusion hc⟩
  case h_6 hpc =>
    rw [hpc] at hrnr hacked
    exact ⟨tail,hring,hroom,fun hr _ => hrnr hr (by simp),fun hc => noConfusion hc,
      fun hn hr => absurd (hacked hn hr) (by simp)⟩

lemma RxInv.step (h : RxInv m tail) (hs : m.step a = some m') : ∃ tail', RxInv m' tail' := by
  cases Nic.stepped hs with
  | rem hpc hx => exact h.rem hpc hx
  | intr => exact h.intr
  | store hrun hl => exact ⟨tail,h.store hrun hl⟩
  | add | remFails | transmit | note => exact ⟨tail,h.ring,h.noroom,h.rnr,h.caught,h.acked⟩

lemma NicRun.rxInv {P : Nic → NicAct → Prop} (h : NicRun P m) : ∃ tail, RxInv m tail := by
  induction h with
  | init cbl rfa => exact ⟨7,.init cbl rfa⟩
  | step _ hs _ ih =>
    obtain ⟨tail,ih⟩ := ih
    exact ih.step hs

theorem receive_ring (h : NicRun (fun _ _ => True) m) : m.rx.returned <+: m.rx.stored.map Prod.snd ∧
    ∀ k n l, m.rx.returned.length ≤ k → m.rx.stored[k]? = some (n,l) → (m.rx.rfa n).Complete ∧
    (m.rx.rfa n).frame = l ∧ (m.rx.suspended = false → n ≠ m.rx.next) := by
  obtain ⟨tail,hr⟩ := h.rxInv
  refine ⟨?_,fun k n l hk hget => ?_⟩
  · rw [hr.ring.returned_eq]
    exact take_prefix _ _
  obtain ⟨rfl,hc,hf⟩ := hr.ring.held k n l hk hget
  refine ⟨hc,hf,fun hs => ?_⟩
  obtain ⟨hlt,_⟩ := List.getElem?_eq_some_iff.mp hget
  have hle := hr.ring.stored_le
  have ht := hr.ring.tail_le
  have hne : m.rx.stored.length ≠ tail+1 := fun hc => by
    have := hr.ring.suspended_iff.mpr hc
    rw [hs] at this
    cases this
  rw [hr.ring.next_eq]
  exact slot_ne hlt (by omega)

end run

def wrapRun : List NicAct :=
  [.store [1],.store [2],.store [3],.store [4],.store [5],.store [6],.store [7],.store [8],
   .rem,.rem,.rem,.intr,.intr,.intr,.intr,.intr,.store [9],.rem]

theorem receive_ring_wrap : ∃ m, NicRun (fun _ _ => True) m ∧ m.rx.returned = [[1],[2],[3],[4]] ∧
    m.rx.stored.length = 9 ∧ m.rx.returned <+: m.rx.stored.map Prod.snd := by
  have hrun : ((Nic.e100Init blankTcb blankRfd).run (fun _ _ => True) wrapRun).map
      (fun m => decide (m.rx.returned = [[1],[2],[3],[4]] ∧ m.rx.stored.length = 9)) = some true := by
    decide +kernel
  obtain ⟨m,hm,hret⟩ := map_eq_some_iff.mp hrun
  have h := (NicRun.init blankTcb blankRfd).run wrapRun hm
  obtain ⟨hret,hlen⟩ := of_decide_eq_true hret
  exact ⟨m,h,hret,hlen,(receive_ring h).1⟩

structure Nic.Wedged (m : Nic) : Prop where
  suspended : m.rx.suspended
  drained : ∀ i < RFA_SIZE, ¬(m.rx.rfa i).Complete
  quiet : m.tx.cna = false ∧ m.rx.rnr = false ∧ m.cx = false ∧ m.fr = false

def IntrPc.makesRoom : IntrPc → Bool
  | .rnr s => s.rnr || s.suspended
  | _ => false

/-- The handler does not come to `rfa_makeroom` with a drained ring, nor the adapter suspend again
before RNR is acknowledged. -/
def Attentive (m : Nic) : NicAct → Prop
  | .intr => m.pc.makesRoom → (m.rx.rfa m.rx.rfaHead).Complete
  | .store _ => m.pc = .cliRnr → (m.rx.rfa m.rx.next).command&&&rfd_s = 0
  | _ => True

instance (m : Nic) (a : NicAct) : Decidable (Attentive m a) :=
  match a with
  | .intr => inferInstanceAs (Decidable (_ → _))
  | .store _ => inferInstanceAs (Decidable (_ → _))
  | .add _ | .rem | .transmit | .note _ _ => isTrue trivial

/-- The ring is full and the next `e100_rem_rfd` makes room. -/
def Rfa.WaitsForRoom (m : Rfa) : Prop := m.rfaNoroom ∧ m.stored.length = m.returned.length+8

structure Awake (m : Nic) : Prop where
  suspended : m.rx.suspended → m.rx.rnr ∨ m.rx.WaitsForRoom
  acking : m.pc = .cliRnr → m.rx.suspended → m.rx.WaitsForRoom

section wedge

variable {m m' : Nic} {a : NicAct} {tail : Nat}

lemma Awake.store {l : List Byte} (hrun : m.rx.suspended = false)
    (ha : Attentive m (.store l)) : Awake {m with rx := m.rx.store l} := by
  constructor
  · intro hs
    refine .inl ?_
    simp only [Rfa.store,hrun,Bool.false_or] at hs ⊢
    rw [hs,Bool.or_true]
  intro hpc hs
  simp only [Rfa.store,hrun,Bool.false_or] at hs
  exact absurd (ha hpc) (of_decide_eq_true hs)

lemma Awake.rem (h : Awake m) (hr : RxInv m tail) (hpc : m.pc = .out) {x : Rfa}
    (hx : m.rx.e100RemRfd = some x) : Awake {m with rx := x} := by
  refine ⟨fun hs => ?_,fun hc => absurd (hpc.symm.trans hc) (by simp)⟩
  unfold Rfa.e100RemRfd at hx
  split at hx
  · rename_i hc
    have hlt := hr.ring.complete_iff.mp hc
    cases hx
    by_cases hroom : m.rx.rfaNoroom
    · rw [if_pos hroom] at hs
      obtain ⟨hsusp,hF⟩ := hr.noroom hroom
      have hlen : m.rx.take.returned.length = m.rx.returned.length+1 := by simp [Rfa.take]
      have hst : m.rx.take.stored = m.rx.stored := rfl
      obtain ⟨hF',_⟩ | ⟨_,_,_,_,hs'⟩ := (hr.ring.take hlt).makeroom hsusp
      · rw [hlen,hst] at hF'
        omega
      simp [hs'] at hs
    rw [if_neg hroom] at hs ⊢
    exact (h.suspended hs).imp id fun hw => absurd hw.1 hroom
  cases hx

lemma Awake.intr (h : Awake m) (hr : RxInv m tail) (ha : Attentive m .intr) : Awake m.e100Intr := by
  unfold Nic.e100Intr
  split
  case h_1 hpc => exact ⟨h.suspended,fun hc => by simp at hc⟩
  case h_2 s hpc => split <;> exact ⟨h.suspended,fun hc => by simp at hc⟩
  case h_3 s hpc => exact ⟨h.suspended,fun hc => by simp at hc⟩
  case h_4 s hpc =>
    split
    · rename_i hs
      have hlt := hr.ring.complete_iff.mp (ha (by rw [hpc]; exact hs))
      have hsusp := hr.caught (by rw [hpc]; exact hs)
      have hwait : m.rx.rfaMakeroom.suspended → m.rx.rfaMakeroom.WaitsForRoom := by
        intro hs'
        obtain ⟨hF,_,heq⟩ | ⟨_,_,_,_,hno⟩ := hr.ring.makeroom hsusp
        · rw [heq]
          exact ⟨rfl,hF.resolve_left (by omega)⟩
        simp [hno] at hs'
      exact ⟨fun hs' => .inr (hwait hs'),fun _ hs' => hwait hs'⟩
    exact ⟨h.suspended,fun hc => by simp at hc⟩
  case h_5 hpc => exact ⟨fun hs => .inr (h.acking hpc hs),fun hc => by simp at hc⟩
  case h_6 hpc => exact ⟨h.suspended,fun hc => by simp at hc⟩

lemma Awake.step (h : Awake m) (hr : RxInv m tail) (hs : m.step a = some m') (ha : Attentive m a) :
    Awake m' := by
  cases Nic.stepped hs with
  | rem hpc hx => exact h.rem hr hpc hx
  | intr => exact h.intr hr ha
  | store hrun _ => exact .store hrun ha
  | add | remFails | transmit | note => exact ⟨h.suspended,h.acking⟩

lemma NicRun.awake (h : NicRun Attentive m) : Awake m := by
  induction h with
  | init cbl rfa => exact ⟨fun hc => noConfusion hc,fun hc => by simp [Nic.e100Init] at hc⟩
  | step hr hs ha ih =>
    obtain ⟨tail,hrx⟩ := hr.rxInv
    exact ih.step hrx hs ha

/-- Reception does not wedge if the handler finds a frame whenever it makes room. -/
theorem reception_not_wedged (h : NicRun Attentive m) : ¬m.Wedged := by
  intro hw
  obtain ⟨tail,hr⟩ := h.rxInv
  have hnext : m.rx.WaitsForRoom := (h.awake.suspended hw.suspended).resolve_left (by simp [hw.quiet])
  refine hw.drained m.rx.rfaHead ?_ (hr.ring.complete_iff.mpr (by rw [hnext.2]; omega))
  rw [hr.ring.head_eq]
  exact Nat.mod_lt _ (by decide)

end wedge

theorem reception_not_wedged_wrap : ∃ m, NicRun Attentive m ∧ m.rx.stored.length = 9 ∧ ¬m.Wedged := by
  have hrun : ((Nic.e100Init blankTcb blankRfd).run Attentive wrapRun).map
      (fun m => decide (m.rx.stored.length = 9)) = some true := by decide +kernel
  obtain ⟨m,hm,hlen⟩ := of_map_decide hrun
  have h := (NicRun.init blankTcb blankRfd).run wrapRun hm
  exact ⟨m,h,hlen,reception_not_wedged h⟩

def drainedRun : List NicAct :=
  [.store [1],.store [2],.store [3],.store [4],.store [5],.store [6],.store [7],.store [8],
   .rem,.rem,.rem,.rem,.rem,.rem,.rem,.rem,.intr,.intr,.intr,.intr,.intr]

theorem reception_wedged : ∃ m, NicRun (fun _ _ => True) m ∧ m.Wedged := by
  have hrun : ((Nic.e100Init blankTcb blankRfd).run (fun _ _ => True) drainedRun).map
      (fun m => decide (m.rx.suspended = true ∧ (∀ i < RFA_SIZE, ¬(m.rx.rfa i).Complete) ∧
        m.tx.cna = false ∧ m.rx.rnr = false ∧ m.cx = false ∧ m.fr = false)) = some true := by
    decide +kernel
  obtain ⟨m,hm,hs,hd,hq⟩ := of_map_decide hrun
  exact ⟨m,(NicRun.init blankTcb blankRfd).run drainedRun hm,hs,hd,hq⟩

end KludgeOS
