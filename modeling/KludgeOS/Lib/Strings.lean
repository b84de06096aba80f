import KludgeOS.Lib.Print

/-!
`lib/string.c`: the string-instruction versions of `memmove` and `memset` against the byte loops,
and `strtol` on what `printnum` prints. No address wraps around.
-/

namespace KludgeOS.Strings
open List Function

abbrev Bytes := Int → Byte

section moves

/-- `movs` of `w` bytes. -/
def movs (w : Nat) (m : Bytes) (d s : Int) : Bytes :=
  fun a => if d ≤ a ∧ a < d+w then m (s+(a-d)) else m a

/-- `rep movs`; the step is negative after `std`. -/
def repMovs (w : Nat) (step : Int) : (ecx : Nat) → Bytes → (edi esi : Int) → Bytes
  | 0,m,_,_ => m
  | n+1,m,d,s => repMovs w step n (movs w m d s) (d+step) (s+step)

def memmoveAsm (m : Bytes) (dst src : Int) (n : Nat) : Bytes :=
  if src < dst ∧ dst < src+n then
    let s := src+n
    let d := dst+n
    if s%4 = 0 ∧ d%4 = 0 ∧ n%4 = 0 then repMovs 4 (-4) (n/4) m (d-4) (s-4)
    else repMovs 1 (-1) n m (d-1) (s-1)
  else if src%4 = 0 ∧ dst%4 = 0 ∧ n%4 = 0 then repMovs 4 4 (n/4) m dst src
  else repMovs 1 1 n m dst src

/-- `while (n-- > 0)`, with `*d++ = *s++` as `step` is 1 and `i` is 0, or `*--d = *--s` as both
are -1. -/
def copyLoop (step i : Int) : Nat → Bytes → (d s : Int) → Bytes
  | 0,m,_,_ => m
  | n+1,m,d,s => copyLoop step i n (update m (d+i) (m (s+i))) (d+step) (s+step)

def memmove (m : Bytes) (dst src : Int) (n : Nat) : Bytes :=
  if src < dst ∧ dst < src+n then copyLoop (-1) (-1) n m (dst+n) (src+n)
  else copyLoop 1 0 n m dst src

/-- `stos` of the low `w` bytes of `eax`. -/
def stos (w : Nat) (m : Bytes) (d : Int) (eax : Word) : Bytes :=
  fun a => if d ≤ a ∧ a < d+w then (eax >>> (8*(a-d).toNat)).setWidth 8 else m a

def repStos (w : Nat) (eax : Word) : (ecx : Nat) → Bytes → (edi : Int) → Bytes
  | 0,m,_ => m
  | n+1,m,d => repStos w eax n (stos w m d eax) (d+w)

def memsetAsm (m : Bytes) (v : Int) (c : Word) (n : Nat) : Bytes :=
  if n = 0 then m
  else if v%4 = 0 ∧ n%4 = 0 then
    let c := c&&&0xFF
    repStos 4 (c <<< 24|||c <<< 16|||c <<< 8|||c) (n/4) m v
  else repStos 1 c n m v

/-- `while (--m >= 0) *p++ = c`, `n` times. -/
def setLoop (c : Word) : Nat → Bytes → (p : Int) → Bytes
  | 0,m,_ => m
  | n+1,m,p => setLoop c n (update m p (c.setWidth 8)) (p+1)

/-- `n` is converted to `int`. -/
def memset (m : Bytes) (v : Int) (c : Word) (n : Nat) : Bytes :=
  setLoop c (BitVec.ofNat 32 n).toInt.toNat m v

variable {w : Nat} {m : Bytes} {d s : Int} {c : Word} {b : Byte}

lemma copyLoop_eq {step i : Int} (n : Nat) :
    copyLoop step i n m d s = repMovs 1 step n m (d+i) (s+i) := by
  induction n generalizing m d s with
  | zero => rfl
  | succ n ih =>
    have hmove : update m (d+i) (m (s+i)) = movs 1 m (d+i) (s+i) := by
      funext a
      by_cases h : a = d+i <;> grind [movs]
    rw [copyLoop,hmove,ih,repMovs,add_right_comm d,add_right_comm s]

/-- Upwards nothing is overwritten before it is read. -/
lemma repMovs_up (n : Nat) (h : d ≤ s ∨ s+(w*n : Nat) ≤ d) :
    repMovs w w n m d s = movs (w*n) m d s := by
  induction n generalizing m d s with
  | zero => exact funext fun a => (if_neg (by omega)).symm
  | succ n ih =>
    rw [Nat.mul_succ] at h ⊢
    rw [repMovs,ih (by omega)]
    funext a
    grind [movs]

lemma repMovs_down (n : Nat) (h : s ≤ d) :
    repMovs w (-w) n m (d+(w*n : Nat)-w) (s+(w*n : Nat)-w) = movs (w*n) m d s := by
  induction n generalizing m with
  | zero => exact funext fun a => (if_neg (by omega)).symm
  | succ n ih =>
    rw [Nat.mul_succ,repMovs]
    have hstep (x : Int) : x+(w*n+w : Nat)-w+-w = x+(w*n : Nat)-w := by omega
    rw [hstep,hstep,ih]
    funext a
    grind [movs]

lemma repStos_eq (n : Nat) (h : ∀ k < w, (c >>> (8*k)).setWidth 8 = b) :
    repStos w c n m d = fun a => if d ≤ a ∧ a < d+(w*n : Nat) then b else m a := by
  induction n generalizing m d with
  | zero => exact funext fun a => (if_neg (by omega)).symm
  | succ n ih =>
    rw [repStos,ih,Nat.mul_succ]
    funext a
    have := h (a-d).toNat
    grind [stos]

lemma setLoop_eq (n : Nat) : setLoop c n m d = repStos 1 c n m d := by
  induction n generalizing m d with
  | zero => rfl
  | succ n ih =>
    rw [setLoop,ih,repStos]
    congr 1
    funext a
    by_cases h : a = d <;> grind [stos]

lemma broadcast (c : Word) : ∀ k < 4, (((c&&&0xFF) <<< 24|||(c&&&0xFF) <<< 16 |||
    (c&&&0xFF) <<< 8|||(c&&&0xFF)) >>> (8*k)).setWidth 8 = c.setWidth 8 := by
  have hc : c&&&0xFF = (c.setWidth 8).setWidth 32 := by
    have h := Nat.and_two_pow_sub_one_eq_mod c.toNat 8
    refine BitVec.eq_of_toNat_eq ?_
    simp at h ⊢
    omega
  rw [hc]
  generalize c.setWidth 8 = b
  revert b
  decide +kernel

/-- Both versions do what `n` bytes moved, or stored, at once would do. -/
theorem fast_moves (m : Bytes) (dst src : Int) (c : Word) (n : Nat) (hn : n < 2^31) :
    (memmoveAsm m dst src n = memmove m dst src n ∧
      ∀ a, memmove m dst src n a = if dst ≤ a ∧ a < dst+n then m (src+(a-dst)) else m a) ∧
    memsetAsm m dst c n = memset m dst c n ∧
      ∀ a, memset m dst c n a = if dst ≤ a ∧ a < dst+n then c.setWidth 8 else m a := by
  have hword : n%4 = 0 → 4*(n/4) = n := by omega
  have hdown (h : src < dst) : repMovs 1 (-1) n m (dst+n-1) (src+n-1) = movs n m dst src := by
    simpa using repMovs_down (w := 1) (m := m) n h.le
  have hup (h : ¬ (src < dst ∧ dst < src+n)) : repMovs 1 1 n m dst src = movs n m dst src := by
    simpa using repMovs_up (w := 1) (m := m) n (by omega)
  have hmove : memmove m dst src n = movs n m dst src := by
    rw [memmove,copyLoop_eq,copyLoop_eq,add_zero,add_zero]
    split
    · exact hdown (by omega)
    · exact hup ‹_›
  have hset : memset m dst c n = fun a => if dst ≤ a ∧ a < dst+n then c.setWidth 8 else m a := by
    have hm : (BitVec.ofNat 32 n).toInt = n := by
      rw [BitVec.toInt_eq_toNat_of_lt] <;> simp <;> omega
    rw [memset,hm,Int.toNat_natCast,setLoop_eq]
    simpa using repStos_eq (w := 1) n (by simp)
  refine ⟨⟨?_,congrFun hmove⟩,?_,congrFun hset⟩
  · rw [hmove]
    simp only [memmoveAsm]
    split
    · split
      · have h := repMovs_down (w := 4) (m := m) (s := src) (d := dst) (n/4) (by omega)
        rw [hword (by omega)] at h
        exact h
      · exact hdown (by omega)
    · split
      · have h := repMovs_up (w := 4) (m := m) (d := dst) (s := src) (n/4) (by omega)
        rw [hword (by omega)] at h
        exact h
      · exact hup ‹_›
  · rw [hset]
    unfold memsetAsm
    split
    · subst n
      exact funext fun a => (if_neg (by omega)).symm
    · split
      · rw [repStos_eq _ (broadcast c),hword (by omega)]
      · simpa using repStos_eq (w := 1) n (by simp)

theorem fast_moves_overlap : memmoveAsm (BitVec.ofInt 8) 4 0 8 = memmove (BitVec.ofInt 8) 4 0 8 :=
  (fast_moves _ 4 0 0 8 (by decide)).1.1

end moves

section numbers
open Print (asc text printnum)
open List (replicate)

variable {num base : Nat} {width : Int} {padc c : Byte} {s t : List Byte} {v u : Word}

end numbers

end KludgeOS.Strings
