import Mathlib

/-!
Addresses, page table entries and the memory layout (`inc/mmu.h`,
`inc/memlayout.h`, `inc/types.h`). Machine words are 32-bit vectors; frame,
table and page numbers are their values as natural numbers.
-/

namespace KludgeOS
open BitVec Option

lemma of_map_decide {α : Type} {o : Option α} {P : α → Prop} [DecidablePred P]
    (h : (o.map fun a => decide (P a)) = some true) : ∃ a, o = some a ∧ P a := by
  obtain ⟨a,ha,hp⟩ := map_eq_some_iff.mp h
  exact ⟨a,ha,of_decide_eq_true hp⟩

/-- What a computation that returns went through. -/
lemma of_bind {α β : Type} {o : Option α} {f : α → Option β} {b : β} (h : o.bind f = some b) :
    ∃ a, o = some a ∧ f a = some b := bind_eq_some_iff.mp h

lemma some_pair_inj {α β : Type} {a c : α} {b d : β} (h : some (a,b) = some (c,d)) :
    a = c ∧ b = d := Prod.mk.inj (some.inj h)

abbrev Word := BitVec 32

abbrev Byte := BitVec 8

/-! Page table entry flags. -/

def PTE_P : Word := 0x001
def PTE_W : Word := 0x002
def PTE_U : Word := 0x004
def PTE_AVAIL : Word := 0xE00
def PTE_USER : Word := PTE_AVAIL|||PTE_P|||PTE_W|||PTE_U

/-! Sizes and indices. -/

def PGSIZE : Nat := 4096

lemma PGSIZE_eq : PGSIZE = 4096 := rfl
def NPTENTRIES : Nat := 1024
def NPDENTRIES : Nat := 1024

def PDX (la : Word) : Nat := (la >>> 22&&&0x3FF).toNat
def PTX (la : Word) : Nat := (la >>> 12&&&0x3FF).toNat
def PPN (la : Word) : Nat := (la >>> 12).toNat
def PTE_ADDR (pte : Word) : Word := pte&&&~~~0xFFF

def PGADDR (d t : Nat) : Word := BitVec.ofNat 32 d <<< 22|||BitVec.ofNat 32 t <<< 12

/-! The memory map. -/

def KERNBASE : Word := 0xF0000000
def PTSIZE : Word := 0x400000
def VPT : Word := KERNBASE - PTSIZE
def KSTACKTOP : Word := VPT
def ULIM : Word := KSTACKTOP - PTSIZE
def UVPT : Word := ULIM - PTSIZE
def UPAGES : Word := UVPT - PTSIZE
def UENVS : Word := UPAGES - PTSIZE
def UTOP : Word := UENVS
def UXSTACKTOP : Word := UTOP
def USTACKTOP : Word := UTOP - 0x2000
def UTEXT : Word := 0x800000
def UTEMP : Word := PTSIZE
def PFTEMP : Word := UTEMP + PTSIZE - 0x1000

/-- Page directory entries below `UTOP`, and the pages they cover. -/
def NUPDE : Nat := 955
def NUPAGE : Nat := NUPDE*NPTENTRIES

example : PDX UTOP = NUPDE := by decide
example : PPN UTOP = NUPAGE := by decide
example : PDX UVPT = 957 := by decide
example : PDX VPT = 959 := by decide

abbrev Present (pte : Word) : Prop := pte&&&PTE_P ≠ 0

lemma PPN_eq (la : Word) : PPN la = la.toNat/4096 := by
  simp [PPN,toNat_ushiftRight,Nat.shiftRight_eq_div_pow]

lemma PPN_lt (la : Word) : PPN la < 2^20 := by
  rw [PPN_eq]
  have h := la.isLt
  omega

lemma PDX_eq (la : Word) : PDX la = PPN la/1024 := by
  have h := la.isLt
  simp only [PDX,PPN_eq,toNat_and,toNat_ushiftRight,Nat.shiftRight_eq_div_pow]
  rw [show (0x3FF : Word).toNat = 2^10-1 from rfl,Nat.and_two_pow_sub_one_eq_mod]
  omega

lemma PTX_eq (la : Word) : PTX la = PPN la%1024 := by
  have h := la.isLt
  simp only [PTX,PPN_eq,toNat_and,toNat_ushiftRight,Nat.shiftRight_eq_div_pow]
  rw [show (0x3FF : Word).toNat = 2^10-1 from rfl,Nat.and_two_pow_sub_one_eq_mod]

lemma PTX_lt (la : Word) : PTX la < NPTENTRIES := by rw [PTX_eq]; exact Nat.mod_lt _ (by decide)

variable {la perm m : Word} {pp : Nat}

lemma PPN_lt_NUPAGE (h : la < UTOP) : PPN la < NUPAGE := by
  rw [PPN_eq]
  have h' : la.toNat < 4005560320 := h
  have : NUPAGE = 977920 := by decide
  omega

lemma PDX_lt_NUPDE (h : la < UTOP) : PDX la < NUPDE := by
  rw [PDX_eq]
  have := PPN_lt_NUPAGE h
  have : NUPAGE = NUPDE*1024 := by decide
  omega

abbrev LowBits (perm : Word) : Prop := perm.toNat < 4096

def page2pa (pp : Nat) : Word := BitVec.ofNat 32 pp <<< 12

lemma page2pa_toNat (h : pp < 2^20) : (page2pa pp).toNat = pp*4096 := by
  simp [page2pa,toNat_shiftLeft,Nat.shiftLeft_eq]
  omega

lemma PPN_page2pa (h : pp < 2^20) : PPN (page2pa pp) = pp := by rw [PPN_eq,page2pa_toNat h]; omega

lemma pte_toNat (h : pp < 2^20) (hp : LowBits perm) :
    (page2pa pp|||perm).toNat = pp*4096+perm.toNat := by
  rw [toNat_or,page2pa_toNat h]
  have := Nat.two_pow_add_eq_or_of_lt (i := 12) (b := perm.toNat) (by simpa using hp) pp
  rw [show pp*4096 = 2^12*pp by ring,this]

lemma PPN_pte (h : pp < 2^20) (hp : LowBits perm) : PPN (page2pa pp|||perm) = pp := by
  rw [PPN_eq,pte_toNat h hp]
  have : perm.toNat < 4096 := hp
  omega

lemma PPN_pde (h : pp < 2^20) : PPN (page2pa pp|||PTE_U|||PTE_W|||PTE_P) = pp := by
  rw [BitVec.or_assoc,BitVec.or_assoc,PPN_pte h (by decide)]

lemma lowBits_or {a b : Word} (ha : LowBits a) (hb : LowBits b) : LowBits (a|||b) := by
  have := Nat.or_lt_two_pow (n := 12) (by simpa using ha) (by simpa using hb)
  simpa [LowBits] using this

lemma lowBits_PTE_P : LowBits PTE_P := by decide

lemma present_or_PTE_P (w : Word) : Present (w|||PTE_P) := by
  intro h
  have : ((w|||PTE_P)&&&PTE_P) = PTE_P := by
    ext i
    simp
    tauto
  rw [this] at h
  exact absurd h (by decide)

lemma page2pa_and (hm : LowBits m) : page2pa pp&&&m = 0 := by
  ext i hi
  simp only [ofNat_eq_ofNat,getElem_and,getElem_zero,Bool.and_eq_false_iff]
  by_cases h : i < 12
  · left
    simp [page2pa,h]
  right
  have hpow : 2^12 ≤ 2^i := Nat.pow_le_pow_right (by decide) (by omega)
  rw [getElem_eq_testBit_toNat]
  exact Nat.testBit_lt_two_pow (hm.trans_le hpow)

lemma or_and (a b c : Word) : (a|||b)&&&c = (a&&&c)|||(b&&&c) := by
  ext i
  simp [Bool.and_or_distrib_right]

lemma pte_and (hm : LowBits m) : (page2pa pp|||perm)&&&m = perm&&&m := by
  rw [or_and,page2pa_and hm]
  simp

lemma PPN_PTE_ADDR (pte : Word) : PPN (PTE_ADDR pte) = PPN pte := by
  have h := pte.isLt
  rw [PPN_eq,PPN_eq,PTE_ADDR,toNat_and,show (~~~(0xFFF : Word)).toNat = 4294963200 from rfl,
    show (4096 : Nat) = 2^12 from rfl,Nat.and_div_two_pow,
    show 4294963200/2^12 = 2^20-1 from rfl,Nat.and_two_pow_sub_one_eq_mod]
  omega

end KludgeOS
