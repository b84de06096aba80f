import KludgeOS.Mmu

/-!
`vprintfmt` (`lib/printfmt.c`), as the characters it passes to `putch`, and
`vsnprintf`. A format is the list of its characters before the NUL, and an
access outside it and its NUL gives no result.
-/

namespace KludgeOS.Print
open List Option Function
open BitVec (ofNat toNat_ofNat ofNat_add)
open Nat (find)

def asc (c : Char) : Byte := ofNat 8 c.toNat

def text (s : String) : List Byte := s.toList.map asc

/-- An argument: a slot of the stack, two slots, or a pointer to characters. -/
inductive Arg where
  | int (v : Word)
  | quad (v : BitVec 64)
  | str (p : Word)
  deriving DecidableEq

def fmtAt (s : List Byte) (i : Nat) : Option Byte := (s++[0])[i]?

/-- `width` is an `int`, and `--width` wraps around. -/
def printnum (num base : Nat) (width : Int) (padc : Byte) : List Byte :=
  (if h : 1 < base ∧ base ≤ num then printnum (num/base) base ((width-1).bmod (2^32)) padc
    else replicate ((width-1).bmod (2^32)).toNat padc)++[(text "0123456789abcdef").getD (num%base) 0]
termination_by num
decreasing_by exact Nat.div_lt_self (by omega) h.1

/-- The local variables of an escape sequence. -/
structure Esc where
  padc : Byte := asc ' '
  width : Int := -1
  precision : Int := -1
  lflag : Nat := 0
  altflag : Bool := false

def vaWord : List Arg → Word
  | .int v :: _ | .str v :: _ => v
  | _ => 0

def vaStr : List Arg → Word
  | .str p :: _ => p
  | _ => 0

def getuint : List Arg → Nat → Nat
  | .quad v :: _, lflag => if 2 ≤ lflag then v.toNat else v.toNat%2^32
  | args, _ => (vaWord args).toNat

def getint : List Arg → Nat → Int
  | .quad v :: _, lflag => if 2 ≤ lflag then v.toInt else (v.setWidth 32).toInt
  | args, _ => (vaWord args).toInt

def errorString : List String :=
  ["","unspecified error","bad environment","invalid parameter","out of memory",
    "out of environments","segmentation fault","env is not recving","unexpected end of file",
    "no free space on disk","too many files are open","file or block not found","invalid path",
    "file already exists","file is not a valid executable"]

/-- The case `'e'`; the two formats it prints with are expanded. -/
def errorText (err : Int) : List Byte :=
  let err := if err < 0 then -err else err
  if 14 < err ∨ err = 0 then text "error "++printnum err.toNat 10 (-1) (asc ' ')
  else text (errorString.getD err.toNat "")

def shown (altflag : Bool) (ch : Byte) : Byte :=
  if altflag ∧ (ch.toInt < 32 ∨ 126 < ch.toInt) then asc '?' else ch

/-- The second loop of the case `'s'`: what it prints, the width left and how many characters it
has read. -/
def strLoop (altflag : Bool) (rd : Nat → Byte) :
    Nat → Nat → Int → Int → Option (List Byte × Int × Nat)
  | 0, _, _, _ => none
  | fuel+1, i, width, precision =>
    if rd i = 0 then some ([],width,i+1)
    else if precision < 0 ∨ 0 ≤ precision-1 then
      (strLoop altflag rd fuel (i+1) (width-1)
        (if precision < 0 then precision else precision-1)).map
          fun r => (shown altflag (rd i) :: r.1,r.2)
    else some ([],width,i+1)

def strnlen (rd : Nat → Byte) : Nat → Nat → Option Nat
  | 0, _ => none
  | fuel+1, i => if rd i = 0 then some i else strnlen rd fuel (i+1)

/-- The characters at `p`, or those of `"(null)"`. -/
def chars (mem : Word → Byte) (p : Word) (i : Nat) : Byte :=
  if p = 0 then (text "(null)").getD i 0 else mem (p+ofNat 32 i)

/-- `width` less `strnlen(p, precision)`, where a negative precision is no bound. -/
def leftPad (e : Esc) (rd : Nat → Byte) : Option Int :=
  if e.width ≤ 0 ∨ e.padc = asc '-' then some e.width
  else if e.precision < 0 then (strnlen rd (2^32) 0).map fun n => e.width-n
  else
    let n := ((range e.precision.toNat).takeWhile fun i => rd i ≠ 0).length
    some (e.width-n)

/-- The case `'s'`. -/
def strText (e : Esc) (rd : Nat → Byte) : Option (List Byte) :=
  (leftPad e rd).bind fun width =>
    let padded : Bool := 0 < e.width ∧ e.padc ≠ asc '-'
    (strLoop e.altflag rd (2^32) 0 (if padded then min width 0 else width) e.precision).map fun r =>
      (if padded then replicate width.toNat e.padc else [])++r.1++replicate r.2.1.toNat (asc ' ')

/-- What a character after `%` leads to. -/
inductive Next where
  | again (e : Esc) (i : Nat) (args : List Arg)
  | emit (out : Option (List Byte)) (args : List Arg)
  | bad

/-- The loop over the digits of a width or precision, up to the first other character. -/
def digits (s : List Byte) : Nat → Nat → Int → Option (Int × Nat)
  | 0, _, _ => none
  | fuel+1, i, precision =>
    (fmtAt s i).bind fun ch =>
      if ch < asc '0' ∨ asc '9' < ch then some (precision,i)
      else digits s fuel (i+1) (precision*10+ch.toNat-48)

def Esc.process (e : Esc) (precision : Int) : Esc :=
  if e.width < 0 then {e with width := precision, precision := -1}
  else {e with precision := precision}

/-- The switch at `fmt[i]`. -/
def escape (mem : Word → Byte) (s : List Byte) (e : Esc) (i : Nat) (args : List Arg) :
    Option Next :=
  (fmtAt s i).bind fun ch =>
    let number (num base : Nat) : Next :=
      .emit (some (printnum num base e.width e.padc)) args.tail
    if ch = asc '-' then some (.again {e with padc := asc '-'} (i+1) args)
    else if ch = asc '0' then some (.again {e with padc := asc '0'} (i+1) args)
    else if asc '1' ≤ ch ∧ ch ≤ asc '9' then
      (digits s (s.length+1) (i+1) (ch.toNat-48)).map fun r => .again (e.process r.1) r.2 args
    else if ch = asc '*' then some (.again (e.process (vaWord args).toInt) (i+1) args.tail)
    else if ch = asc '.' then
      some (.again {e with width := if e.width < 0 then 0 else e.width} (i+1) args)
    else if ch = asc '#' then some (.again {e with altflag := true} (i+1) args)
    else if ch = asc 'l' then some (.again {e with lflag := e.lflag+1} (i+1) args)
    else if ch = asc 'c' then some (.emit (some [(vaWord args).setWidth 8]) args.tail)
    else if ch = asc 'e' then some (.emit (some (errorText (vaWord args).toInt)) args.tail)
    else if ch = asc 's' then some (.emit (strText e (chars mem (vaStr args))) args.tail)
    else if ch = asc 'd' then
      let num := getint args e.lflag
      some (.emit (some ((if num < 0 then [asc '-'] else [])++
        printnum num.natAbs 10 e.width e.padc)) args.tail)
    else if ch = asc 'u' then some (number (getuint args e.lflag) 10)
    else if ch = asc 'o' then some (number (getuint args e.lflag) 8)
    else if ch = asc 'p' then
      some (.emit (some (text "0x"++printnum (vaWord args).toNat 16 e.width e.padc)) args.tail)
    else if ch = asc 'x' then some (number (getuint args e.lflag) 16)
    else if ch = asc '%' then some (.emit (some [ch]) args)
    else some .bad

/-- `for (fmt--; fmt[-1] != '%'; fmt--)`, from `fmt+i` after the first decrement. -/
def backUp (s : List Byte) : Nat → Option Nat
  | 0 => none
  | i+1 => (fmtAt s i).bind fun ch => if ch = asc '%' then some (i+1) else backUp s i

inductive Mode where
  | text
  | esc (e : Esc)

/-- The loop of `vprintfmt` at `fmt[i]`, outside or inside an escape sequence. -/
def loop (mem : Word → Byte) (s : List Byte) : Nat → Mode → Nat → List Arg → Option (List Byte)
  | 0, _, _, _ => none
  | fuel+1, .text, i, args => do
    let ch ← fmtAt s i
    if ch = asc '%' then loop mem s fuel (.esc {}) (i+1) args
    else if ch = 0 then some []
    else (loop mem s fuel .text (i+1) args).map fun out => ch :: out
  | fuel+1, .esc e, i, args => do
    match ← escape mem s e i args with
    | .again e j args => loop mem s fuel (.esc e) j args
    | .emit out args =>
      let out ← out
      (loop mem s fuel .text (i+1) args).map fun rest => out++rest
    | .bad =>
      let j ← backUp s i
      (loop mem s fuel .text j args).map fun rest => asc '%' :: rest

def vprintfmt (mem : Word → Byte) (s : List Byte) (args : List Arg) : Option (List Byte) :=
  loop mem s (2*s.length+1) .text 0 args

section strings

variable {rd : Nat → Byte} {alt : Bool} {fuel i n : Nat} {w p : Int}

lemma strnlen_isSome (fuel : Nat) : ∀ i, (∃ k < fuel, rd (i+k) = 0) →
    (strnlen rd fuel i).isSome := by
  induction fuel with
  | zero => exact fun i ⟨k,hk,_⟩ => absurd hk (Nat.not_lt_zero k)
  | succ fuel ih =>
    rintro i ⟨k,hk,h0⟩
    rw [strnlen]
    by_cases hi : rd i = 0
    · simp [hi]
    rw [if_neg hi]
    cases k with
    | zero => exact absurd h0 hi
    | succ k => exact ih (i+1) ⟨k,by omega,by rw [← h0]; congr 1; omega⟩

lemma strLoop_isSome (fuel : Nat) : ∀ i w p, (∃ k < fuel, rd (i+k) = 0) →
    (strLoop alt rd fuel i w p).isSome := by
  induction fuel with
  | zero => exact fun i _ _ ⟨k,hk,_⟩ => absurd hk (Nat.not_lt_zero k)
  | succ fuel ih =>
    rintro i w p ⟨k,hk,h0⟩
    rw [strLoop]
    by_cases hi : rd i = 0
    · simp [hi]
    rw [if_neg hi]
    split
    · rw [isSome_map]
      cases k with
      | zero => exact absurd h0 hi
      | succ k => exact ih (i+1) _ _ ⟨k,by omega,by rw [← h0]; congr 1; omega⟩
    rfl

lemma range_succ_map {α : Type} (f : Nat → α) (i n : Nat) :
    (range (n+1)).map (fun j => f (i+j)) = f i :: (range n).map fun j => f (i+1+j) := by
  rw [range_succ_eq_map]
  simp [Nat.add_comm,Nat.add_left_comm]

/-- The loop prints `n` characters if a NUL follows them, or the precision ends there; the
character after them has been read too. -/
lemma strLoop_run (alt : Bool) (n : Nat) : ∀ fuel i w p, n < fuel → (∀ j < n, rd (i+j) ≠ 0) →
    (rd (i+n) = 0 ∧ (p < 0 ∨ (n : Int) ≤ p) ∨ p = n) → strLoop alt rd fuel i w p =
      some ((range n).map fun j => shown alt (rd (i+j)),w-n,i+n+1) := by
  induction n with
  | zero =>
    intro fuel i w p hf _ h0
    obtain ⟨f,rfl⟩ := Nat.exists_eq_succ_of_ne_zero (Nat.ne_of_gt hf)
    obtain ⟨h0,_⟩ | rfl := h0
    · simp [strLoop,show rd i = 0 from h0]
    simp [strLoop]
  | succ n ih =>
    intro fuel i w p hf hj h0
    obtain ⟨f,rfl⟩ := Nat.exists_eq_succ_of_ne_zero (Nat.ne_of_gt (Nat.zero_lt_of_lt hf))
    have hi : rd i ≠ 0 := hj 0 (Nat.succ_pos n)
    have hnext : ∀ j, i+1+j = i+(j+1) := fun j => by omega
    have hl := ih f (i+1) (w-1) (if p < 0 then p else p-1) (by omega)
      (fun j hlt => by rw [hnext]; exact hj (j+1) (by omega)) (by
        rw [hnext]
        exact h0.imp (fun h => ⟨h.1,by split <;> omega⟩) fun h => by split <;> omega)
    rw [strLoop,if_neg hi,if_pos (by omega),hl,range_succ_map fun j => shown alt (rd j)]
    simp only [map_some,some.injEq,Prod.mk.injEq,true_and]
    omega

end strings

def Terminated (mem : Word → Byte) (args : List Arg) : Prop :=
  ∀ p, .str p ∈ args → p ≠ 0 → ∃ i, mem (p+ofNat 32 i) = 0

def Clear (s : List Byte) (a b : Nat) : Prop := ∀ k, a ≤ k → k < b → fmtAt s k ≠ some (asc '%')

section scan

variable {mem : Word → Byte} {s : List Byte} {args : List Arg} {e : Esc} {i j q : Nat} {ch : Byte}

lemma Terminated.tail (h : Terminated mem args) : Terminated mem args.tail :=
  fun p hp => h p (mem_of_mem_tail hp)

lemma Terminated.chars (h : Terminated mem args) :
    ∃ k < 2^32, chars mem (vaStr args) (0+k) = 0 := by
  by_cases h0 : vaStr args = 0
  · exact ⟨6,by decide,by simp [Print.chars,h0,text]⟩
  have hm : .str (vaStr args) ∈ args := by
    unfold vaStr at h0 ⊢
    split at h0
    · simp
    contradiction
  obtain ⟨k,hk⟩ := h _ hm h0
  refine ⟨k%2^32,Nat.mod_lt _ (by decide),?_⟩
  rw [Print.chars,if_neg h0,← hk]
  congr 2
  apply BitVec.eq_of_toNat_eq
  simp

lemma strText_isSome (h : Terminated mem args) : (strText e (chars mem (vaStr args))).isSome := by
  have hpad : ∃ w, leftPad e (chars mem (vaStr args)) = some w := by
    unfold leftPad
    split
    · exact ⟨_,rfl⟩
    split
    · obtain ⟨n,hn⟩ := isSome_iff_exists.mp (strnlen_isSome _ 0 h.chars)
      exact ⟨_,by rw [hn]; rfl⟩
    exact ⟨_,rfl⟩
  obtain ⟨w,hw⟩ := hpad
  rw [strText,hw,bind_some]
  simp only [isSome_map]
  exact strLoop_isSome _ 0 _ _ h.chars

lemma fmtAt_some (h : i ≤ s.length) : ∃ ch, fmtAt s i = some ch := by
  refine ⟨(s++[0]).get ⟨i,by simp; omega⟩,?_⟩
  simp [fmtAt]

lemma fmtAt_lt (h : fmtAt s i = some ch) (h0 : ch ≠ 0) : i < s.length := by
  have hlt : i < (s++[0]).length := (List.getElem?_eq_some_iff.mp h).1
  rw [length_append,length_singleton] at hlt
  refine lt_of_le_of_ne (by omega) ?_
  rintro rfl
  simp [fmtAt] at h
  exact h0 h.symm

lemma Clear.step (h : Clear s i j) (hc : fmtAt s j ≠ some (asc '%')) : Clear s i (j+1) := by
  intro k h1 h2
  by_cases hk : k = j
  · rwa [hk]
  exact h k h1 (by omega)

lemma Clear.trans (h : Clear s q i) (h' : Clear s i j) : Clear s q j := by
  intro k h1 h2
  by_cases hk : k < i
  · exact h k h1 hk
  exact h' k (by omega) h2

lemma digits_spec (fuel : Nat) : ∀ i p, i ≤ s.length → s.length-i < fuel →
    ∃ p' j, digits s fuel i p = some (p',j) ∧ i ≤ j ∧ j ≤ s.length ∧ Clear s i j := by
  induction fuel with
  | zero => intro i p _ h; omega
  | succ fuel ih =>
    intro i p hi hf
    obtain ⟨ch,hch⟩ := fmtAt_some hi
    rw [digits,hch,bind_some]
    split
    · exact ⟨p,i,rfl,le_rfl,hi,fun k h1 h2 => by omega⟩
    rename_i hd
    have hne : ch ≠ 0 ∧ ch ≠ asc '%' := by
      constructor
      all_goals
        rintro rfl
        exact hd (.inl (by decide))
    have hlt := fmtAt_lt hch hne.1
    obtain ⟨p',j,hj,h1,h2,h3⟩ := ih (i+1) (p*10+ch.toNat-48) hlt (by omega)
    refine ⟨p',j,hj,by omega,h2,Clear.trans (Clear.step (fun k _ _ => by omega) ?_) h3⟩
    rw [hch]
    simpa using hne.2

def Next.Ok (mem : Word → Byte) (s : List Byte) (i : Nat) : Next → Prop
  | .again _ j args => i < j ∧ j ≤ s.length ∧ Clear s i j ∧ Terminated mem args
  | .emit out args => i < s.length ∧ out.isSome ∧ Terminated mem args
  | .bad => fmtAt s i ≠ some (asc '%')

lemma ite_ok {P : Next → Prop} {c : Prop} [Decidable c] {a b : Option Next}
    (ha : c → ∃ n, a = some n ∧ P n) (hb : ¬c → ∃ n, b = some n ∧ P n) :
    ∃ n, (if c then a else b) = some n ∧ P n := by
  by_cases hc : c
  · rw [if_pos hc]
    exact ha hc
  rw [if_neg hc]
  exact hb hc

lemma escape_ok (ht : Terminated mem args) (hi : i ≤ s.length) :
    ∃ next, escape mem s e i args = some next ∧ next.Ok mem s i := by
  obtain ⟨ch,hch⟩ := fmtAt_some hi
  -- a character that goes on or ends the sequence is not the NUL
  have hlt : ∀ c, c ≠ 0 → ch = c → i < s.length := fun c hc h => fmtAt_lt hch (h ▸ hc)
  have hclear : ∀ c, c ≠ asc '%' → ch = c → Clear s i (i+1) := by
    rintro c hc rfl
    refine Clear.step (fun k _ _ => by omega) ?_
    rw [hch]
    simpa using hc
  have flag : ∀ c e' args', ch = c → c ≠ 0 ∧ c ≠ asc '%' → Terminated mem args' →
      Next.Ok mem s i (.again e' (i+1) args') := fun c _ _ h hc h' =>
    ⟨Nat.lt_succ_self i,hlt c hc.1 h,hclear c hc.2 h,h'⟩
  have stop : ∀ c out args', ch = c → c ≠ 0 → out.isSome → Terminated mem args' →
      Next.Ok mem s i (.emit out args') := fun c _ _ h hc ho h' => ⟨hlt c hc h,ho,h'⟩
  rw [escape,hch,bind_some]
  refine ite_ok (fun h => ⟨_,rfl,flag _ _ _ h (by decide) ht⟩) fun _ => ?_
  refine ite_ok (fun h => ⟨_,rfl,flag _ _ _ h (by decide) ht⟩) fun _ => ?_
  refine ite_ok (fun hd => ?_) fun _ => ?_
  · have hne : ch ≠ 0 ∧ ch ≠ asc '%' := by
      constructor
      all_goals
        rintro rfl
        exact absurd hd.1 (by decide)
    have hin := fmtAt_lt hch hne.1
    obtain ⟨p,j,hj,h1,h2,h3⟩ := digits_spec (s.length+1) (i+1) (ch.toNat-48) hin (by omega)
    rw [hj]
    exact ⟨_,rfl,by omega,h2,(hclear ch hne.2 rfl).trans h3,ht⟩
  refine ite_ok (fun h => ⟨_,rfl,flag _ _ _ h (by decide) ht.tail⟩) fun _ => ?_
  iterate 3 refine ite_ok (fun h => ⟨_,rfl,flag _ _ _ h (by decide) ht⟩) fun _ => ?_
  iterate 2 refine ite_ok (fun h => ⟨_,rfl,stop _ _ _ h (by decide) rfl ht.tail⟩) fun _ => ?_
  refine ite_ok (fun h => ⟨_,rfl,stop _ _ _ h (by decide) (strText_isSome ht) ht.tail⟩) fun _ => ?_
  iterate 5 refine ite_ok (fun h => ⟨_,rfl,stop _ _ _ h (by decide) rfl ht.tail⟩) fun _ => ?_
  refine ite_ok (fun h => ⟨_,rfl,stop _ _ _ h (by decide) rfl ht⟩) fun hne => ⟨_,rfl,?_⟩
  rw [Next.Ok,hch]
  simpa using hne

lemma backUp_clear (hq : fmtAt s q = some (asc '%')) (i : Nat) : q < i → i ≤ s.length →
    Clear s (q+1) i → backUp s i = some (q+1) := by
  induction i with
  | zero => intro h; omega
  | succ i ih =>
    intro hqi hi hc
    obtain ⟨ch,hch⟩ := fmtAt_some (s := s) (i := i) (by omega)
    rw [backUp,hch,bind_some]
    by_cases hp : i = q
    · rw [hp,hq] at hch
      cases hch
      rw [if_pos rfl,hp]
    have hne : ch ≠ asc '%' := fun h => hc i (by omega) (Nat.lt_succ_self i) (by rw [hch,h])
    rw [if_neg hne]
    exact ih (by omega) (by omega) fun k h1 h2 => hc k h1 (by omega)

/-- The fuel counts the characters before `c` once and the others twice, since an unknown sequence
is read again as text. -/
lemma loop_isSome (fuel : Nat) : ∀ args, Terminated mem args → (∀ i c, i ≤ c → c ≤ s.length →
    Clear s i c → (c-i)+2*(s.length-c)+1 ≤ fuel → (loop mem s fuel .text i args).isSome) ∧
    (∀ e q i, fmtAt s q = some (asc '%') → q < i → i ≤ s.length → Clear s (q+1) i →
    (i-q)+2*(s.length-i)+1 ≤ fuel → (loop mem s fuel (.esc e) i args).isSome) := by
  induction fuel with
  | zero => exact fun args _ => ⟨fun i c _ _ _ h => by omega,fun e q i _ _ _ _ h => by omega⟩
  | succ fuel ih =>
    intro args ht
    constructor
    · intro i c hic hc hcl hf
      obtain ⟨ch,hch⟩ := fmtAt_some (s := s) (i := i) (by omega)
      rw [loop,hch,bind_eq_bind,bind_some]
      by_cases hp : ch = asc '%'
      · have hci : c = i := by
          by_contra hne
          exact hcl i le_rfl (by omega) (by rw [hch,hp])
        have hlt : i < s.length := fmtAt_lt hch (by rw [hp]; decide)
        rw [if_pos hp]
        refine (ih args ht).2 {} i (i+1) (by rw [hch,hp]) (Nat.lt_succ_self i) hlt ?_ (by omega)
        exact fun k h1 h2 => by omega
      rw [if_neg hp]
      by_cases h0 : ch = 0
      · simp [h0]
      rw [if_neg h0,isSome_map]
      have hlt := fmtAt_lt hch h0
      by_cases hci : i < c
      · exact (ih args ht).1 (i+1) c hci hc (fun k h1 h2 => hcl k (by omega) h2) (by omega)
      exact (ih args ht).1 (i+1) (i+1) le_rfl hlt (fun k h1 h2 => by omega)
        (by omega)
    intro e q i hq hqi hi hcl hf
    obtain ⟨next,hn,hok⟩ := escape_ok (e := e) ht hi
    rw [loop,hn,bind_eq_bind,bind_some]
    cases next with
    | again e j args =>
      obtain ⟨h1,h2,h3,h4⟩ := hok
      exact (ih args h4).2 e q j hq (by omega) h2 (hcl.trans h3) (by omega)
    | emit out args =>
      obtain ⟨h1,h2,h3⟩ := hok
      obtain ⟨o,rfl⟩ := isSome_iff_exists.mp h2
      simp only [bind_eq_bind,bind_some,isSome_map]
      exact (ih args h3).1 (i+1) (i+1) le_rfl h1 (fun k _ _ => by omega) (by omega)
    | bad =>
      simp only [backUp_clear hq i hqi hi hcl,bind_eq_bind,bind_some,isSome_map]
      have hcl' := Clear.step hcl hok
      by_cases hin : i < s.length
      · exact (ih args ht).1 (q+1) (i+1) (by omega) hin hcl' (by omega)
      exact (ih args ht).1 (q+1) i (by omega) hi hcl (by omega)

lemma vprintfmt_isSome (ht : Terminated mem args) : (vprintfmt mem s args).isSome :=
  (loop_isSome _ args ht).1 0 0 le_rfl (Nat.zero_le _) (fun k _ _ => by omega) (by omega)

end scan

/-- `struct sprintbuf`, with `buf` and `ebuf` counted from the start of the buffer. -/
structure Sprintbuf where
  mem : Int → Byte
  buf : Int := 0
  ebuf : Int
  cnt : Int := 0

def sprintputch (b : Sprintbuf) (ch : Byte) : Sprintbuf :=
  let b := {b with cnt := b.cnt+1}
  if b.buf < b.ebuf then {b with mem := update b.mem b.buf ch, buf := b.buf+1} else b

/-- `vsnprintf` to a buffer in `m`, with the memory it leaves. -/
def vsnprintf (mem : Word → Byte) (m : Int → Byte) (n : Int) (s : List Byte) (args : List Arg) :
    Option (Int × (Int → Byte)) :=
  if n < 1 then some (-3,m)
  else (vprintfmt mem s args).map fun out =>
    let b := out.foldl sprintputch {mem := m, ebuf := n-1}
    (b.cnt,update b.mem b.buf 0)

section sprint

variable {m : Int → Byte} {n : Int}

lemma sprint_fold (hn : 1 ≤ n) (out : List Byte) : out.foldl sprintputch {mem := m, ebuf := n-1} =
      { mem := fun j => if 0 ≤ j ∧ j < min (n-1) out.length then out.getD j.toNat 0 else m j
        buf := min (n-1) out.length, ebuf := n-1, cnt := out.length } := by
  induction out using reverseRecOn with
  | nil =>
    simp only [foldl_nil,length_nil,Sprintbuf.mk.injEq]
    refine ⟨?_,by simp; omega,trivial,rfl⟩
    funext j
    rw [if_neg (by simp; omega)]
  | append_singleton out ch ih =>
    rw [foldl_append,ih,foldl_cons,foldl_nil,sprintputch]
    simp only [length_append,length_singleton,Nat.cast_add,Nat.cast_one]
    by_cases hlt : min (n-1) (out.length : Int) < n-1
    · have hmin : min (n-1) (out.length : Int) = out.length := by omega
      rw [if_pos hlt]
      simp only [Sprintbuf.mk.injEq,and_true]
      refine ⟨?_,by omega⟩
      funext j
      by_cases hj : j = out.length
      · subst hj
        rw [hmin,update_self,if_pos (by omega)]
        simp
      rw [hmin,update_of_ne hj]
      by_cases hin : 0 ≤ j ∧ j < out.length
      · rw [if_pos hin,if_pos (by omega),getD_append _ _ _ _ (by omega)]
      rw [if_neg hin,if_neg (by omega)]
    rw [if_neg hlt]
    simp only [Sprintbuf.mk.injEq,and_true]
    refine ⟨?_,by omega⟩
    funext j
    by_cases hin : 0 ≤ j ∧ j < min (n-1) (out.length : Int)
    · rw [if_pos hin,if_pos (by omega),getD_append _ _ _ _ (by omega)]
    rw [if_neg hin,if_neg (by omega)]

/-- Formatting ends without an access outside the format, and `vsnprintf` keeps to its buffer. -/
theorem vsnprintf_spec {mem : Word → Byte} {args : List Arg} (s : List Byte)
    (ht : Terminated mem args) : ∃ out, vprintfmt mem s args = some out ∧
      ∀ (m : Int → Byte) (n : Int), 1 ≤ n → ∃ m', vsnprintf mem m n s args = some ((out.length : Int),m') ∧
        (∀ i : Nat, (i : Int) < min (n-1) out.length → m' i = out.getD i 0) ∧
        m' (min (n-1) out.length) = 0 ∧ ∀ j, j < 0 ∨ n ≤ j → m' j = m j := by
  obtain ⟨out,ho⟩ := isSome_iff_exists.mp (vprintfmt_isSome (s := s) ht)
  refine ⟨out,ho,fun m n hn => ?_⟩
  rw [vsnprintf,if_neg (by omega),ho,map_some]
  simp only [sprint_fold hn]
  refine ⟨_,rfl,?_,?_,?_⟩
  · intro i hi
    rw [update_of_ne (by omega),if_pos (by omega)]
    simp
  · rw [update_self]
  intro j hj
  rw [update_of_ne (by omega),if_neg (by omega)]

/-- The string `"ok"` at 16. -/
def okAt (a : Word) : Byte := (text "ok").getD (a-16).toNat 0

/-- A string, an unknown escape and a truncated one. -/
theorem vsnprintf_spec_ok : vprintfmt okAt (text "%4s%z%5") [.str 16] = some (text "  ok%z%5") ∧
    ∃ out, vprintfmt okAt (text "%4s%z%5") [.str 16] = some out ∧ ∀ (m : Int → Byte) (n : Int),
    1 ≤ n → ∃ m', vsnprintf okAt m n (text "%4s%z%5") [.str 16] = some ((out.length : Int),m') ∧
    (∀ i : Nat, (i : Int) < min (n-1) out.length → m' i = out.getD i 0) ∧
    m' (min (n-1) out.length) = 0 ∧ ∀ j, j < 0 ∨ n ≤ j → m' j = m j := by
  refine ⟨by decide +kernel,vsnprintf_spec (text "%4s%z%5") fun p hp _ => ⟨2,?_⟩⟩
  simp only [mem_singleton,Arg.str.injEq] at hp
  subst hp
  decide

end sprint

def Covered (s len a : Word) : Prop := ∃ i < len.toNat, a = s+ofNat 32 i

section cputs

variable {mem : Word → Byte} {s len : Word}

end cputs

def Kern.putch (b : List Byte × Word) (ch : Byte) : List Byte × Word := (b.1++[ch],b.2)

def Kern.vcprintf (out : List Byte) : List Byte × Word := out.foldl Kern.putch ([],0)

/-- `struct printbuf` of `lib/printf.c` with the console, or of `lib/fprintf.c` with the file. -/
structure Printbuf where
  idx : Nat := 0
  cnt : Word := 0
  buf : Nat → Byte := fun _ => 0
  sink : List Byte := []

/-- `sys_cputs(b->buf, b->idx)`, which prints with `"%.*s"`. -/
def Printbuf.sysCputs (b : Printbuf) : Printbuf :=
  {b with sink := b.sink++((strLoop false b.buf (2^32) 0 0 b.idx).map Prod.fst).getD []}

def User.putch (b : Printbuf) (ch : Byte) : Printbuf :=
  let b := {b with buf := update b.buf b.idx ch, idx := b.idx+1}
  let b := if b.idx = 255 then {b.sysCputs with idx := 0} else b
  {b with cnt := b.cnt+1}

def User.vcprintf (out : List Byte) : List Byte × Word :=
  let b := (out.foldl User.putch {}).sysCputs
  (b.sink,b.cnt)

/-- `writebuf` where `write` takes all of the buffer: `error` stays 1 and `cnt` is the `result`. -/
def Printbuf.writebuf (b : Printbuf) : Printbuf :=
  { b with
    sink := b.sink++(range b.idx).map b.buf
    cnt := if 0 < b.idx then b.cnt+ofNat 32 b.idx else b.cnt }

def File.putch (b : Printbuf) (ch : Byte) : Printbuf :=
  let b := {b with buf := update b.buf b.idx ch, idx := b.idx+1}
  if b.idx = 256 then {b.writebuf with idx := 0} else b

def File.vfprintf (out : List Byte) : List Byte × Word :=
  let b := out.foldl File.putch {}
  let b := if 0 < b.idx then b.writebuf else b
  (b.sink,if b.cnt ≠ 0 then b.cnt else 1)

inductive Sink where
  | kern | user | file
  deriving DecidableEq

def Sink.print : Sink → List Byte → List Byte × Word
  | .kern => Kern.vcprintf
  | .user => User.vcprintf
  | .file => File.vfprintf

section sinks

variable {out : List Byte}

/-- What has been flushed and what is in the buffer make up the output so far. -/
structure Printbuf.Holds (b : Printbuf) (size : Nat) (out : List Byte) : Prop where
  idx : b.idx < size
  all : b.sink++(range b.idx).map b.buf = out
  text : ∀ i < b.idx, b.buf i ≠ 0

lemma Printbuf.Holds.push {b : Printbuf} {size : Nat} (h : b.Holds size out) (ch : Byte) :
    b.sink++(range (b.idx+1)).map (update b.buf b.idx ch) = out++[ch] := by
  rw [range_succ,map_append,← h.all,append_assoc]
  congr 2
  · refine map_congr_left fun i hi => update_of_ne ?_ _ _
    have := mem_range.mp hi
    omega
  simp

lemma update_text {b : Printbuf} {size : Nat} {ch : Byte} (h : b.Holds size out) (hc : ch ≠ 0) :
    ∀ i < b.idx+1, update b.buf b.idx ch i ≠ 0 := by
  intro i hi
  by_cases he : i = b.idx
  · rw [he,update_self]
    exact hc
  rw [update_of_ne he]
  exact h.text i (by omega)

lemma sysCputs_sink {b : Printbuf} (hi : b.idx < 2^32) (h : ∀ i < b.idx, b.buf i ≠ 0) :
    b.sysCputs.sink = b.sink++(range b.idx).map b.buf := by
  have hl := strLoop_run false b.idx (2^32) 0 0 b.idx hi
    (fun j hj => by rw [zero_add]; exact h j hj) (.inr rfl)
  rw [Printbuf.sysCputs,hl]
  simp [shown]

lemma kern_fold (out : List Byte) : out.foldl Kern.putch ([],0) = (out,0) := by
  induction out using reverseRecOn with
  | nil => rfl
  | append_singleton out ch ih => rw [foldl_append,ih]; rfl

lemma user_fold (out : List Byte) : (∀ ch ∈ out, ch ≠ 0) → (out.foldl User.putch {}).Holds 255 out
    ∧ (out.foldl User.putch {}).cnt = ofNat 32 out.length := by
  induction out using reverseRecOn with
  | nil => exact fun _ => ⟨⟨by decide,rfl,fun i hi => absurd hi (Nat.not_lt_zero i)⟩,rfl⟩
  | append_singleton out ch ih =>
    intro h0
    obtain ⟨h,hcnt⟩ := ih fun c hc => h0 c (mem_append_left _ hc)
    have htext := update_text h (h0 ch (by simp))
    have hlt := h.idx
    rw [foldl_append,foldl_cons,foldl_nil]
    generalize out.foldl User.putch {} = b at *
    have hall := h.push ch
    refine ⟨?_,?_⟩
    · simp only [User.putch]
      split
      · refine ⟨Nat.succ_pos _,?_,fun i hi => absurd hi (Nat.not_lt_zero i)⟩
        simp only [range_zero,map_nil,append_nil]
        rw [sysCputs_sink (by simp; omega) htext]
        exact hall
      exact ⟨by simp; omega,hall,htext⟩
    rw [length_append,length_singleton,ofNat_add,← hcnt]
    simp only [User.putch]
    split <;> rfl

lemma file_fold (out : List Byte) : (∀ ch ∈ out, ch ≠ 0) →
    (out.foldl File.putch {}).Holds 256 out ∧ (out.foldl File.putch {}).cnt = ofNat 32
    (out.length-(out.foldl File.putch {}).idx) ∧ (out.foldl File.putch {}).idx ≤ out.length := by
  induction out using reverseRecOn with
  | nil => exact fun _ => ⟨⟨by decide,rfl,fun i hi => absurd hi (Nat.not_lt_zero i)⟩,rfl,le_rfl⟩
  | append_singleton out ch ih =>
    intro h0
    obtain ⟨h,hcnt,hle⟩ := ih fun c hc => h0 c (List.mem_append_left _ hc)
    have htext := update_text h (h0 ch (by simp))
    have hlt := h.idx
    rw [foldl_append,foldl_cons,foldl_nil]
    generalize out.foldl File.putch {} = b at *
    have hall := h.push ch
    simp only [File.putch,length_append,length_singleton]
    split
    · refine ⟨⟨Nat.succ_pos _,?_,fun i hi => absurd hi (Nat.not_lt_zero i)⟩,?_,Nat.zero_le _⟩
      · simpa [Printbuf.writebuf] using hall
      simp only [Printbuf.writebuf,if_pos (Nat.succ_pos _),hcnt,← ofNat_add]
      congr 1
      omega
    refine ⟨⟨by simp; omega,hall,htext⟩,?_,by simp; omega⟩
    rw [hcnt]
    congr 1
    simp only
    omega

lemma vfprintf_eq (h0 : ∀ ch ∈ out, ch ≠ 0) : File.vfprintf out =
    (out,if ofNat 32 out.length ≠ 0 then ofNat 32 out.length else 1) := by
  obtain ⟨h,hcnt,hle⟩ := file_fold out h0
  rw [File.vfprintf]
  generalize out.foldl File.putch {} = b at *
  have hall := h.all
  split
  · rename_i hpos
    have hc : b.cnt+ofNat 32 b.idx = ofNat 32 out.length := by
      rw [hcnt,← ofNat_add]
      congr 1
      omega
    simp only [Printbuf.writebuf,if_pos hpos,hall,hc]
  rename_i hpos
  have hi : b.idx = 0 := by omega
  rw [hi] at hall hcnt
  simp only [range_zero,map_nil,append_nil] at hall
  rw [hall,hcnt]
  rfl

lemma toInt_ofNat_iff (n : Nat) : (ofNat 32 n).toInt = n ↔ n < 2^31 := by
  rw [BitVec.toInt_eq_toNat_cond,toNat_ofNat]
  split <;> omega

/-- Each sink emits the output; the kernel's returns 0, and `vfprintf` returns 1 for nothing. -/
theorem print_faithful_iff (k : Sink) (h0 : ∀ ch ∈ out, ch ≠ 0) :
    ((k.print out).1 = out ∧ (k.print out).2.toInt = out.length) ↔ match k with
      | .kern => out = []
      | .user => out.length < 2^31
      | .file => out ≠ [] ∧ out.length < 2^31 := by
  cases k with
  | kern =>
    simp only [Sink.print,Kern.vcprintf,kern_fold,true_and]
    rw [show (0 : Word).toInt = 0 from rfl]
    constructor
    · intro h
      exact length_eq_zero_iff.mp (by omega)
    rintro rfl
    rfl
  | user =>
    obtain ⟨h,hcnt⟩ := user_fold out h0
    have hs := sysCputs_sink (lt_trans h.idx (by decide)) h.text
    rw [h.all] at hs
    have hc : (out.foldl User.putch {}).sysCputs.cnt = ofNat 32 out.length := hcnt
    simp only [Sink.print,User.vcprintf,hs,true_and,hc]
    exact toInt_ofNat_iff _
  | file =>
    simp only [Sink.print,vfprintf_eq h0,true_and]
    by_cases hz : ofNat 32 out.length = 0
    · have hmod : out.length%2^32 = 0 := by simpa using congrArg BitVec.toNat hz
      simp only [hz,ne_eq,not_true_eq_false,if_false]
      rw [show (1 : Word).toInt = 1 from rfl]
      constructor
      · intro h
        omega
      rintro ⟨hne,hlt⟩
      have := length_pos_iff.mpr hne
      omega
    rw [if_pos hz,toInt_ofNat_iff]
    refine ⟨fun h => ⟨?_,h⟩,fun h => h.2⟩
    rintro rfl
    exact hz rfl

theorem print_faithful_text : ((Sink.user.print (text "ok")).1 = text "ok" ∧
    (Sink.user.print (text "ok")).2.toInt = (text "ok").length) :=
  (print_faithful_iff .user (by decide)).mpr (by decide)

theorem print_unfaithful : (∀ ch ∈ text "ok", ch ≠ 0) ∧ (Kern.vcprintf (text "ok")).2 = 0 ∧
    (File.vfprintf []).2 = 1 := by decide

end sinks

end KludgeOS.Print
