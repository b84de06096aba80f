import Mathlib

/-!
User-mode code of a 32-bit x86: byte memory, registers and flags, and straight-line
sequences of the instructions an assembly stub is made of.
-/

namespace KludgeOS.X86
open BitVec (ofNat)
open BitVec List

abbrev ByteMem := BitVec 32 → BitVec 8

namespace ByteMem

def put (m : ByteMem) (a : BitVec 32) (l : List (BitVec 8)) : ByteMem :=
  fun x => if (x-a).toNat < l.length then l.getD (x-a).toNat 0 else m x

def bytes (w : BitVec 32) : List (BitVec 8) :=
  [w.setWidth 8,(w >>> 8).setWidth 8,(w >>> 16).setWidth 8,(w >>> 24).setWidth 8]

def load32 (m : ByteMem) (a : BitVec 32) : BitVec 32 := m (a+3) ++ m (a+2) ++ m (a+1) ++ m a

def store32 (m : ByteMem) (a w : BitVec 32) : ByteMem := m.put a (bytes w)

variable {a x w : BitVec 32} {l : List (BitVec 8)} {i k : Nat}

lemma put_far (m : ByteMem) (h : l.length ≤ (x-a).toNat) : m.put a l x = m x := by
  rw [put,if_neg (by omega)]

lemma put_outside (m : ByteMem) (hl : a.toNat+l.length ≤ 2^32)
    (h : x.toNat < a.toNat ∨ a.toNat+l.length ≤ x.toNat) : m.put a l x = m x := by
  apply put_far
  have hx := x.isLt
  rw [toNat_sub]
  omega

lemma put_at (m : ByteMem) (a : BitVec 32) (hi : i < l.length) (hl : l.length ≤ 2^32) :
    m.put a l (a+ofNat 32 i) = l.getD i 0 := by
  have hd : (a+ofNat 32 i-a).toNat = i := by
    rw [BitVec.add_comm,BitVec.add_sub_cancel,toNat_ofNat]
    exact Nat.mod_eq_of_lt (by omega)
  rw [put,hd,if_pos hi]

lemma load32_congr {m m' : ByteMem}
    (h : ∀ i < 4, m (a+ofNat 32 i) = m' (a+ofNat 32 i)) : m.load32 a = m'.load32 a := by
  have h0 : m a = m' a := by simpa using h 0 (by decide)
  have h1 : m (a+1) = m' (a+1) := h 1 (by decide)
  have h2 : m (a+2) = m' (a+2) := h 2 (by decide)
  have h3 : m (a+3) = m' (a+3) := h 3 (by decide)
  rw [load32,load32,h0,h1,h2,h3]

lemma join_bytes (w : BitVec 32) : ((w >>> 24).setWidth 8 ++ (w >>> 16).setWidth 8 ++
    (w >>> 8).setWidth 8 ++ w.setWidth 8 : BitVec 32) = w := by
  apply eq_of_getLsbD_eq
  intro i hi
  simp only [getLsbD_append,getLsbD_setWidth,getLsbD_ushiftRight]
  grind

lemma load32_of_bytes {m : ByteMem} (h : ∀ i < 4, m (a+ofNat 32 i) = (bytes w).getD i 0) :
    m.load32 a = w := by
  have h0 : m a = w.setWidth 8 := by simpa [bytes] using h 0 (by decide)
  have h1 : m (a+1) = (w >>> 8).setWidth 8 := h 1 (by decide)
  have h2 : m (a+2) = (w >>> 16).setWidth 8 := h 2 (by decide)
  have h3 : m (a+3) = (w >>> 24).setWidth 8 := h 3 (by decide)
  rw [load32,h0,h1,h2,h3]
  exact join_bytes w

lemma load32_store32 (m : ByteMem) (a w : BitVec 32) : (m.store32 a w).load32 a = w :=
  load32_of_bytes fun _ hi => put_at m a hi (show 4 ≤ 2^32 by decide)

lemma store32_outside (m : ByteMem) (ha : a.toNat+4 ≤ 2^32)
    (h : x.toNat < a.toNat ∨ a.toNat+4 ≤ x.toNat) : m.store32 a w x = m x :=
  put_outside m ha h

lemma load32_store32_outside (m : ByteMem) {b : BitVec 32} (ha : a.toNat+4 ≤ 2^32)
    (hb : b.toNat+4 ≤ 2^32) (h : b.toNat+4 ≤ a.toNat ∨ a.toNat+4 ≤ b.toNat) :
    (m.store32 a w).load32 b = m.load32 b := by
  apply load32_congr
  intro i hi
  have hbi : (b+ofNat 32 i).toNat = b.toNat+i := by
    rw [toNat_add,toNat_ofNat]
    omega
  exact store32_outside m ha (by omega)

lemma bytes_getD {l : List (BitVec 32)} (hk : k < l.length) (hi : i < 4) :
    (l.flatMap bytes).getD (4*k+i) 0 = (bytes (l.getD k 0)).getD i 0 := by
  induction l generalizing k with
  | nil => exact absurd hk (Nat.not_lt_zero _)
  | cons w l ih =>
    cases k with
    | zero =>
      rw [flatMap_cons,getD_append _ _ _ _ (by simpa [bytes] using hi)]
      simp
    | succ k =>
      have h4 : (bytes w).length = 4 := rfl
      rw [flatMap_cons,getD_append_right _ _ _ _ (by rw [h4]; omega),h4,
        show 4*(k+1)+i-4 = 4*k+i by omega,ih (by simpa using hk)]
      simp

lemma flatMap_bytes_length (l : List (BitVec 32)) : (l.flatMap bytes).length = 4*l.length := by
  induction l with
  | nil => rfl
  | cons w l ih =>
    rw [flatMap_cons,length_append,ih,length_cons,show (bytes w).length = 4 from rfl]
    omega

lemma load32_put_words (m : ByteMem) (a : BitVec 32) {l : List (BitVec 32)} (hk : k < l.length)
    (hl : 4*l.length ≤ 2^32) :
    (m.put a (l.flatMap bytes)).load32 (a+ofNat 32 (4*k)) = l.getD k 0 := by
  apply load32_of_bytes
  intro i hi
  have hlen := flatMap_bytes_length l
  have hadd : a+ofNat 32 (4*k)+ofNat 32 i = a+ofNat 32 (4*k+i) := by
    rw [BitVec.add_assoc,← ofNat_add]
  rw [hadd,put_at m a (by omega) (by omega),bytes_getD hk hi]

end ByteMem

/-! Registers and flags. -/

inductive Reg where
  | eax | ecx | edx | ebx | esp | ebp | esi | edi
  deriving DecidableEq

@[ext]
structure Cpu where
  reg : Reg → BitVec 32
  eip : BitVec 32
  eflags : BitVec 32
  mem : ByteMem

/-- `CF`, `PF`, `AF`, `ZF`, `SF`, `OF`. -/
def STATUS : BitVec 32 := 0x8D5
def FL_IF : BitVec 32 := 0x200
def IOPL : BitVec 32 := 0x3000

/-- `TF`, with which an instruction ends in a trap, and `AC`, with which an access that is not
aligned does. -/
def CHECKS : BitVec 32 := 0x40100

/-- What `popfl` may change in user mode, whatever the I/O privilege level: the status flags,
`TF`, `DF`, `NT`, `AC` and `ID`. -/
def USER_FLAGS : BitVec 32 := 0x244DD5

/-- `IF` belongs to the flags user code can change only when its I/O privilege level allows
it. -/
def popflMask (fl : BitVec 32) : BitVec 32 :=
  if fl&&&IOPL = IOPL then USER_FLAGS|||FL_IF else USER_FLAGS

def parity (w : BitVec 32) : Bool := ((range 8).countP fun i => w.getLsbD i)%2 == 0

def statusFlags (cf pf af zf sf of : Bool) : BitVec 32 :=
  (if cf then 0x1 else 0)|||(if pf then 0x4 else 0)|||(if af then 0x10 else 0) |||
  (if zf then 0x40 else 0)|||(if sf then 0x80 else 0)|||(if of then 0x800 else 0)

def addFlags (a b : BitVec 32) : BitVec 32 :=
  let r := a+b
  statusFlags (decide (2^32 ≤ a.toNat+b.toNat)) (parity r)
    (decide (16 ≤ a.toNat%16+b.toNat%16)) (r == 0) r.msb (a.msb == b.msb && r.msb != a.msb)

def subFlags (a b : BitVec 32) : BitVec 32 :=
  let r := a-b
  statusFlags (decide (a.toNat < b.toNat)) (parity r)
    (decide (a.toNat%16 < b.toNat%16)) (r == 0) r.msb (a.msb != b.msb && r.msb != a.msb)

lemma status_subset (fl : BitVec 32) : ~~~STATUS&&&~~~popflMask fl = ~~~popflMask fl ∧
    STATUS&&&~~~popflMask fl = 0#32 ∧ ~~~popflMask fl&&&IOPL = IOPL := by
  unfold popflMask
  split <;> decide

lemma statusFlags_and (cf pf af zf sf of : Bool) :
    statusFlags cf pf af zf sf of&&&STATUS = statusFlags cf pf af zf sf of := by
  revert cf pf af zf sf of
  decide

lemma addFlags_and (a b : BitVec 32) : addFlags a b&&&STATUS = addFlags a b := statusFlags_and ..

lemma subFlags_and (a b : BitVec 32) : subFlags a b&&&STATUS = subFlags a b := statusFlags_and ..

variable {a f b : BitVec 32}

lemma status_and_mask (hf : f&&&STATUS = f) (fl : BitVec 32) :
    ((a&&&~~~STATUS)|||f)&&&~~~popflMask fl = a&&&~~~popflMask fl := by
  obtain ⟨hs,h0,_⟩ := status_subset fl
  have hz : f&&&~~~popflMask fl = 0#32 := by rw [← hf,BitVec.and_assoc,h0,and_zero]
  rw [BitVec.and_comm,and_or_distrib_left,BitVec.and_comm _ f,hz,or_zero,
    BitVec.and_comm,BitVec.and_assoc,hs]

lemma popflMask_congr (h : a&&&~~~popflMask b = b&&&~~~popflMask b) :
    popflMask a = popflMask b := by
  have hio : a&&&IOPL = b&&&IOPL := by
    rw [← (status_subset b).2.2,← BitVec.and_assoc,h,BitVec.and_assoc]
  rw [popflMask,popflMask,hio]

lemma popfl_restores (h : a&&&~~~popflMask b = b&&&~~~popflMask b) :
    (a&&&~~~popflMask a)|||(b&&&popflMask a) = b := by
  rw [popflMask_congr h,h,← and_or_distrib_left,BitVec.or_comm,or_not_self,and_allOnes]

lemma status_kept {e : BitVec 32} (hf : f&&&STATUS = f) :
    (e&&&~~~STATUS)|||f = e ↔ e&&&STATUS = f := by
  constructor
  · intro h
    rw [← h,BitVec.and_comm,and_or_distrib_left,BitVec.and_comm _ f,hf,BitVec.and_comm STATUS,
      BitVec.and_assoc,show ~~~STATUS&&&STATUS = 0#32 by decide,and_zero,zero_or]
  intro h
  rw [← h,← and_or_distrib_left,BitVec.or_comm,or_not_self,and_allOnes]

namespace Cpu

@[simps -fullyApplied eip eflags mem]
def set (m : Cpu) (r : Reg) (w : BitVec 32) : Cpu :=
  {m with reg := fun q => if q = r then w else m.reg q}

@[simps -fullyApplied reg mem]
def setStatus (m : Cpu) (f : BitVec 32) : Cpu := {m with eflags := (m.eflags&&&~~~STATUS)|||f}

@[simp] lemma set_reg (m : Cpu) (r q : Reg) (w : BitVec 32) :
    (m.set r w).reg q = if q = r then w else m.reg q := rfl

end Cpu

abbrev Access := BitVec 32 → Bool

def Access.Word (acc : Access) (a : BitVec 32) : Prop := ∀ i < 4, acc (a+ofNat 32 i)

instance (acc : Access) (a : BitVec 32) : Decidable (acc.Word a) :=
  inferInstanceAs (Decidable (∀ i < 4, acc (a+ofNat 32 i)))

inductive Instr where
  /-- `pushl %r` -/
  | pushl (r : Reg)
  /-- `pushl off(%base)` -/
  | pushm (off : BitVec 32) (base : Reg)
  /-- `movl addr,%r` -/
  | movl (addr : BitVec 32) (r : Reg)
  /-- `movl off(%base),%r` -/
  | load (off : BitVec 32) (base r : Reg)
  /-- `movl %r,off(%base)` -/
  | store (r : Reg) (off : BitVec 32) (base : Reg)
  | addl (imm : BitVec 32) (r : Reg)
  | subl (imm : BitVec 32) (r : Reg)
  /-- `call *%r`, with the address of the instruction after it. -/
  | call (r : Reg) (ret : BitVec 32)
  | popfl
  | ret
  deriving DecidableEq

namespace Cpu

def read (acc : Access) (m : Cpu) (a : BitVec 32) : Option (BitVec 32) :=
  if acc.Word a then some (m.mem.load32 a) else none

def write (acc : Access) (m : Cpu) (a w : BitVec 32) : Option Cpu :=
  if acc.Word a then some {m with mem := m.mem.store32 a w} else none

def push (acc : Access) (m : Cpu) (w : BitVec 32) : Option Cpu := do
  let m ← m.write acc (m.reg .esp-4) w
  return m.set .esp (m.reg .esp-4)

def pop (acc : Access) (m : Cpu) : Option (BitVec 32 × Cpu) := do
  let w ← m.read acc (m.reg .esp)
  return (w,m.set .esp (m.reg .esp+4))

/-- With `TF` and `AC` clear. -/
def exec (acc : Access) (m : Cpu) : Instr → Option Cpu
  | .pushl r => m.push acc (m.reg r)
  | .pushm off base => do
    let w ← m.read acc (m.reg base+off)
    m.push acc w
  | .movl addr r => do
    let w ← m.read acc addr
    return m.set r w
  | .load off base r => do
    let w ← m.read acc (m.reg base+off)
    return m.set r w
  | .store r off base => m.write acc (m.reg base+off) (m.reg r)
  | .addl imm r => some ((m.setStatus (addFlags (m.reg r) imm)).set r (m.reg r+imm))
  | .subl imm r => some ((m.setStatus (subFlags (m.reg r) imm)).set r (m.reg r-imm))
  | .call r ret => do
    let m' ← m.push acc ret
    return {m' with eip := m.reg r}
  | .popfl => do
    let (w,m) ← m.pop acc
    let k := popflMask m.eflags
    return {m with eflags := (m.eflags&&&~~~k)|||(w&&&k)}
  | .ret => do
    let (w,m) ← m.pop acc
    return {m with eip := w}

def execAll (acc : Access) : List Instr → Cpu → Option Cpu
  | [],m => some m
  | i :: l,m => do
    let m ← m.exec acc i
    execAll acc l m

lemma execAll_append (acc : Access) (l l' : List Instr) (m : Cpu) :
    execAll acc (l ++ l') m = (execAll acc l m).bind (execAll acc l') := by
  induction l generalizing m with
  | nil => rfl
  | cons i l ih =>
    simp only [List.cons_append,execAll,bind,Option.bind]
    cases m.exec acc i with
    | none => rfl
    | some m' => exact ih m'

end Cpu

end KludgeOS.X86
