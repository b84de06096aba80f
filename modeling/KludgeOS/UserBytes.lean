import KludgeOS.UserMem
import KludgeOS.Running
import KludgeOS.Rights

/-!
The memory of an environment as bytes, and what the kernel's stores into it leave there.
-/

namespace KludgeOS
open BitVec List Option Kern Mem

def byteOf (w : Word) (k : Nat) : Byte := (w >>> (8*k)).setWidth 8

lemma byteMask_bit (i : Nat) : (0xFF : Word).getLsbD i = decide (i < 8) := by
  by_cases hi : i < 32
  · revert hi
    revert i
    decide
  rw [getLsbD_of_ge _ _ (by omega),decide_eq_false (by omega)]

lemma byteOf_setByte (w : Word) (b : Byte) {k j : Nat} (hj : j < 4) :
    byteOf (setByte w k b) j = if j = k then b else byteOf w j := by
  apply eq_of_getLsbD_eq
  intro i hi
  have hlt : 8*j+i < 32 := by omega
  simp only [byteOf,setByte,getLsbD_setWidth,getLsbD_ushiftRight,getLsbD_or,getLsbD_and,getLsbD_not,
    getLsbD_shiftLeft,byteMask_bit,hi,hlt,decide_true,Bool.true_and]
  by_cases hjk : j = k
  · subst hjk
    rw [if_pos rfl,show 8*j+i-8*j = i by omega]
    simp [hi,show i < 32 by omega]
  rw [if_neg hjk]
  by_cases hlo : 8*j+i < 8*k
  · simp [hi,hlo]
  have hfar : ¬8*j+i-8*k < 8 := by omega
  simp [hi,hfar,getLsbD_of_ge b (8*j+i-8*k) (by omega)]

namespace Kern

def frameByte (s : Kern) (f off : Nat) : Byte := byteOf (s.mem f (off/4)) (off%4)

/-- The byte environment `e` finds at `a`, below `UTOP`. -/
def userByte (s : Kern) (e : Nat) (a : Word) : Option Byte :=
  if a < UTOP then (s.pte e (PPN a)).map fun w => s.frameByte (PPN w) (a.toNat%PGSIZE) else none

/-- The pages of `a` and `b` are one page, or in different frames. -/
def Clear (s : Kern) (e : Nat) (a b : Word) : Prop :=
  a < UTOP → ∀ v w, s.pte e (PPN a) = some v → s.pte e (PPN b) = some w → PPN v = PPN w → PPN a = PPN b

/-- The page of `a` is mapped for the kernel to write. -/
def Writable (s : Kern) (e : Nat) (a : Word) : Prop := ∃ w, s.pte e (PPN a) = some w ∧ w&&&PTE_W ≠ 0

end Kern

section store

variable {K : Finset Nat} {s s' : Kern} {e : Nat} {w : Word}

lemma and_flag {f : Word} {k : Nat} (hf : f = twoPow 32 k) (w : Word) : w&&&f = f ∨ w&&&f = 0 := by
  subst hf
  rw [and_twoPow]
  split
  · exact .inl rfl
  exact .inr rfl

lemma and_flags {a b : Word} (ha : w&&&a = a) (hb : w&&&b = b) : w&&&(a|||b) = a|||b := by
  rw [BitVec.and_comm,or_and,BitVec.and_comm a,BitVec.and_comm b,ha,hb]

lemma present_flag (h : Present w) : w&&&PTE_P = PTE_P := (and_flag (k := 0) rfl w).resolve_right h

lemma writable_flag (h : w&&&PTE_W ≠ 0) : w&&&PTE_W = PTE_W :=
  (and_flag (k := 1) rfl w).resolve_right h

lemma storeTarget_kernel (h : Inv K NoHand s) (he : s.Live e) {va : Word} (hva : va < UTOP)
    (hw : s.pte e (PPN va) = some w) (hwr : w&&&PTE_W ≠ 0) :
    s.storeTarget (s.pgdir e) va false = some (PPN w) := by
  obtain ⟨hp,hpte,hpw⟩ := pte_some hw
  rw [← PDX_eq] at hp hpte
  rw [← PTX_eq] at hpte
  have hpde := h.pde_word e (PDX va) he (PDX_lt_NUPDE hva) hp
  have hdir : s.pde e (PDX va)&&&(PTE_P|||PTE_W) = PTE_P|||PTE_W := by
    rw [hpde,BitVec.or_assoc,BitVec.or_assoc,pte_and (by decide)]
    decide
  simp only [storeTarget,Bool.false_eq_true,if_false]
  rw [if_pos ⟨hdir,by rw [hpte]; exact and_flags (present_flag hpw) (writable_flag hwr)⟩,hpte]

lemma Kern.Clear.congr {a b : Word} (h : s.Clear e a b) (hs : SameSpace s s' e)
    (hb : b < UTOP) : s'.Clear e a b := by
  intro ha v w hv hw
  rw [hs.pte _ (PPN_lt_NUPAGE ha)] at hv
  rw [hs.pte _ (PPN_lt_NUPAGE hb)] at hw
  exact h ha v w hv hw

lemma Kern.Writable.congr {a : Word} (h : s.Writable e a) (hs : SameSpace s s' e)
    (ha : a < UTOP) : s'.Writable e a := by
  obtain ⟨w,hw,hwr⟩ := h
  exact ⟨w,(hs.pte _ (PPN_lt_NUPAGE ha)).trans hw,hwr⟩

lemma frameByte_store (s : Kern) (f off : Nat) (b : Byte) (f' off' : Nat) :
    (s.setWord f (off/4) (setByte (s.mem f (off/4)) (off%4) b)).frameByte f' off' =
      if f' = f ∧ off' = off then b else s.frameByte f' off' := by
  simp only [frameByte,setWord]
  by_cases hword : f' = f ∧ off'/4 = off/4
  · obtain ⟨rfl,hdiv⟩ := hword
    rw [hdiv,set_self,byteOf_setByte _ _ (Nat.mod_lt _ (by decide))]
    by_cases hoff : off' = off
    · rw [if_pos (by rw [hoff]),if_pos ⟨rfl,hoff⟩]
    rw [if_neg (by omega),if_neg fun h => hoff h.2]
  have hkept : s.mem.set f (off/4) (setByte (s.mem f (off/4)) (off%4) b) f' (off'/4) =
      s.mem f' (off'/4) := by
    by_cases hf : f' = f
    · exact set_index _ _ _ _ fun hc => hword ⟨hf,hc⟩
    rw [set_frame _ _ _ hf]
  rw [hkept,if_neg]
  rintro ⟨rfl,rfl⟩
  exact hword ⟨rfl,rfl⟩

lemma storeByte_user (h : Inv K NoHand s) (he : s.Live e) {va : Word} (hva : va < UTOP)
    (hw : s.Writable e va) (b : Byte) :
    ∃ s', s.storeByte (s.pgdir e) va b = some s' ∧ Inv K NoHand s' ∧ SameSpace s s' e ∧
      s'.pageFreeList = s.pageFreeList ∧
      ∀ a, s.Clear e a va → s'.userByte e a = if a = va then some b else s.userByte e a := by
  obtain ⟨w,hw,hwr⟩ := hw
  have hn := PPN_lt_NUPAGE hva
  have hok : ∀ i v, Event.Ok s (.store e (PPN va) i v) := fun _ _ => ⟨he,hn,w,hw,hwr⟩
  have heq : ∀ i v, s.setWord (PPN w) i v = Event.apply (.store e (PPN va) i v) s := by
    intro i v
    simp [Event.apply,hw]
  have hsame := fun i v => Event.sameSpace h (hok i v) he (by simp [Event.env])
  have hstore : s.storeByte (s.pgdir e) va b = some (s.setWord (PPN w) (va.toNat%PGSIZE/4)
      (setByte (s.mem (PPN w) (va.toNat%PGSIZE/4)) (va.toNat%PGSIZE%4) b)) := by
    rw [storeByte,storeTarget_kernel h he hva hw hwr]
    rfl
  refine ⟨_,hstore,?_,?_,rfl,?_⟩
  · rw [heq]
    exact h.event (hok _ _)
  · rw [heq]
    exact hsame _ _
  intro a hclear
  by_cases ha : a < UTOP
  · have hpte := (hsame (va.toNat%PGSIZE/4) (setByte (s.mem (PPN w) (va.toNat%PGSIZE/4))
      (va.toNat%PGSIZE%4) b)).pte _ (PPN_lt_NUPAGE ha)
    rw [← heq] at hpte
    simp only [userByte,if_pos ha,hpte]
    cases hv : s.pte e (PPN a) with
    | none =>
      have hne : a ≠ va := by
        rintro rfl
        rw [hw] at hv
        cases hv
      rw [if_neg hne]
      rfl
    | some v =>
      simp only [map_some,frameByte_store]
      have hiff : (PPN v = PPN w ∧ a.toNat%PGSIZE = va.toNat%PGSIZE) ↔ a = va := by
        constructor
        · rintro ⟨hf,hoff⟩
          have hpage := hclear ha v w hv hw hf
          rw [PPN_eq,PPN_eq] at hpage
          rw [PGSIZE_eq] at hoff
          exact eq_of_toNat_eq (by omega)
        rintro rfl
        obtain rfl := mem_unique hv hw
        exact ⟨rfl,rfl⟩
      by_cases haw : a = va
      · rw [if_pos (hiff.mpr haw),if_pos haw]
      rw [if_neg fun hc => haw (hiff.mp hc),if_neg haw]
  have hne : a ≠ va := fun hc => ha (hc ▸ hva)
  simp only [userByte,if_neg ha,if_neg hne]

lemma storeBytes_user (l : List Byte) :
    ∀ (va : Word) (s : Kern), Inv K NoHand s → s.Live e → va.toNat+l.length ≤ UTOP.toNat →
      (∀ b : Word, va.toNat ≤ b.toNat → b.toNat < va.toNat+l.length → s.Writable e b) →
      ∃ s', storeBytes (s.pgdir e) l va s = some s' ∧ Inv K NoHand s' ∧ SameSpace s s' e ∧
        s'.pageFreeList = s.pageFreeList ∧
        ∀ a, (∀ b : Word, va.toNat ≤ b.toNat → b.toNat < va.toNat+l.length → s.Clear e a b) →
          s'.userByte e a = if va.toNat ≤ a.toNat ∧ a.toNat < va.toNat+l.length
            then some (l.getD (a.toNat-va.toNat) 0) else s.userByte e a := by
  induction l with
  | nil =>
    intro va s h he _ _
    refine ⟨s,rfl,h,.refl he,rfl,fun a _ => ?_⟩
    rw [if_neg]
    simp only [length_nil]
    omega
  | cons b l ih =>
    intro va s h he hva hw
    have hU : UTOP.toNat = 4005560320 := rfl
    simp only [length_cons] at hva hw
    have hlt : va < UTOP := by
      change va.toNat < UTOP.toNat
      omega
    have hnext : (va+1).toNat = va.toNat+1 := by
      rw [toNat_add,show (1 : Word).toNat = 1 from rfl]
      omega
    have hbelow : ∀ b : Word, b.toNat < va.toNat+(l.length+1) → b < UTOP := by
      intro b hb
      change b.toNat < UTOP.toNat
      omega
    obtain ⟨s1,h1,hi1,hsame1,hfree1,hbyte1⟩ :=
      storeByte_user h he hlt (hw va le_rfl (by omega)) b
    obtain ⟨s2,h2,hi2,hsame2,hfree2,hbyte2⟩ := ih (va+1) s1 hi1 hsame1.live (by omega)
      fun b hlo hhi => (hw b (by omega) (by omega)).congr hsame1 (hbelow b (by omega))
    refine ⟨s2,?_,hi2,hsame1.trans hsame2,hfree2.trans hfree1,fun a hclear => ?_⟩
    · rw [storeBytes,h1]
      rw [hsame1.pgdir] at h2
      exact h2
    simp only [length_cons] at hclear ⊢
    rw [hbyte2 a fun b hlo hhi => (hclear b (by omega) (by omega)).congr hsame1
      (hbelow b (by omega)),hbyte1 a (hclear va le_rfl (by omega)),hnext]
    by_cases hav : a = va
    · subst hav
      rw [if_neg (by omega),if_pos rfl,if_pos (by omega),Nat.sub_self]
      rfl
    have hne : a.toNat ≠ va.toNat := fun hc => hav (eq_of_toNat_eq hc)
    rw [if_neg hav]
    by_cases hin : va.toNat+1 ≤ a.toNat ∧ a.toNat < va.toNat+1+l.length
    · rw [if_pos hin,if_pos (by omega),show a.toNat-va.toNat = a.toNat-(va.toNat+1)+1 by omega]
      rfl
    rw [if_neg hin,if_neg (by omega)]

end store

end KludgeOS
