import KludgeOS.Lib.Print

/-!
`gettoken` (`user/sh.c`), a tokenizer with one token of lookahead that writes NULs into the line,
and the arrays of `runcmd`. A pointer into the line is an index, and no index is the null pointer.
-/

namespace KludgeOS.Sh
open Function Option List
open Print (asc)

def WHITESPACE : List Byte := [asc ' ',asc '\t',asc '\r',asc '\n']

def SYMBOLS : List Byte := [asc '<',asc '|',asc '>',asc '&',asc ';',asc '(',asc ')']

/-- `while (strchr(WHITESPACE, *s)) *s++ = 0`. -/
def skipBlank : Nat → (Nat → Byte) → Nat → Option ((Nat → Byte) × Nat)
  | 0, _, _ => none
  | fuel+1, mem, s =>
    if mem s ∈ WHITESPACE then skipBlank fuel (update mem s 0) (s+1) else some (mem,s)

/-- `while (*s && !strchr(WHITESPACE SYMBOLS, *s)) s++`. -/
def skipWord : Nat → (Nat → Byte) → Nat → Option Nat
  | 0, _, _ => none
  | fuel+1, mem, s =>
    if mem s ≠ 0 ∧ mem s ∉ WHITESPACE++SYMBOLS then skipWord fuel mem (s+1) else some s

/-- The line, and the variables of `gettoken`. -/
structure State where
  mem : Nat → Byte
  nc : Byte := 0
  np1 : Option Nat := none
  np2 : Option Nat := none

/-- `nc = _gettoken(s, &np1, &np2)`. -/
def next (fuel : Nat) (st : State) : Option Nat → Option State
  | none => some {st with nc := 0}
  | some s => (skipBlank fuel st.mem s).bind fun (mem,s) =>
    if mem s = 0 then some {mem := mem, nc := 0, np1 := none, np2 := none}
    else if mem s ∈ SYMBOLS then
      some {mem := update mem s 0, nc := mem s, np1 := some s, np2 := some (s+1)}
    else (skipWord fuel mem s).map fun e =>
      {mem := mem, nc := asc 'w', np1 := some s, np2 := some e}

def start (fuel : Nat) (line : Nat → Byte) : Option State := next fuel {mem := line} (some 0)

/-- `gettoken(0, &t)`: what it returns, `t`, and the state it leaves. -/
def gettoken (fuel : Nat) (st : State) : Option (Byte × Option Nat × State) :=
  (next fuel st st.np2).map fun st' => (st.nc,st.np1,st')

/-- The result of call `k`, counted from 0. -/
def call (fuel : Nat) : Nat → State → Option (Byte × Option Nat × State)
  | 0, st => gettoken fuel st
  | k+1, st => (gettoken fuel st).bind fun r => call fuel k r.2.2

/-- A token, a word with where it begins and ends. -/
inductive Token where
  | sym (c : Byte)
  | word (a b : Nat)
  deriving DecidableEq

def InWord (c : Byte) : Prop := c ≠ 0 ∧ c ∉ WHITESPACE++SYMBOLS

instance (c : Byte) : Decidable (InWord c) := inferInstanceAs (Decidable (_ ∧ _))

def Blank (f : Nat → Byte) (i a : Nat) : Prop := i ≤ a ∧ ∀ k, i ≤ k → k < a → f k ∈ WHITESPACE

/-- The grammar: blanks separate, a symbol is a token, and so is a maximal run of others. -/
inductive Tokens (f : Nat → Byte) : Nat → List Token → Prop where
  | done {i a : Nat} : Blank f i a → f a = 0 → Tokens f i []
  | sym {i a : Nat} {ts : List Token} : Blank f i a → f a ∈ SYMBOLS → Tokens f (a+1) ts →
      Tokens f i (.sym (f a) :: ts)
  | word {i a b : Nat} {ts : List Token} : Blank f i a → a < b →
      (∀ k, a ≤ k → k < b → InWord (f k)) → ¬InWord (f b) → Tokens f b ts →
      Tokens f i (.word a b :: ts)

def Line (f : Nat → Byte) (n : Nat) : Prop := f n = 0 ∧ ∀ k < n, f k ≠ 0

section scan

variable {f mem : Nat → Byte} {n fuel i a b : Nat} {ts : List Token} {st : State}

lemma exists_first (P : Nat → Prop) [DecidablePred P] (hi : i ≤ n) (hn : ¬P n) :
    ∃ a, i ≤ a ∧ a ≤ n ∧ ¬P a ∧ ∀ k, i ≤ k → k < a → P k := by
  have hex : ∃ a, i ≤ a ∧ ¬P a := ⟨n,hi,hn⟩
  refine ⟨Nat.find hex,(Nat.find_spec hex).1,Nat.find_min' hex ⟨hi,hn⟩,(Nat.find_spec hex).2,?_⟩
  intro k h1 h2
  by_contra hk
  exact Nat.find_min hex h2 ⟨h1,hk⟩

lemma tokens_exist (hf : Line f n) (j : Nat) : ∀ i, i ≤ n → n-i ≤ j → ∃ ts, Tokens f i ts := by
  induction j with
  | zero =>
    intro i hi hj
    obtain rfl : i = n := by omega
    exact ⟨[],.done ⟨le_rfl,fun k _ _ => by omega⟩ hf.1⟩
  | succ j ih =>
    intro i hi hj
    obtain ⟨a,h1,h2,h3,h4⟩ := exists_first (fun k => f k ∈ WHITESPACE) hi (by
      rw [hf.1]
      decide)
    by_cases h0 : f a = 0
    · exact ⟨[],.done ⟨h1,h4⟩ h0⟩
    have han : a < n := lt_of_le_of_ne h2 (by rintro rfl; exact h0 hf.1)
    by_cases hs : f a ∈ SYMBOLS
    · obtain ⟨ts,ht⟩ := ih (a+1) han (by omega)
      exact ⟨_,.sym ⟨h1,h4⟩ hs ht⟩
    have hin : InWord (f a) := ⟨h0,fun hc => (mem_append.mp hc).elim h3 hs⟩
    obtain ⟨b,h5,h6,h7,h8⟩ := exists_first (fun k => InWord (f k)) h2 (by
      rw [hf.1]
      decide)
    have hab : a < b := lt_of_le_of_ne h5 (by rintro rfl; exact h7 hin)
    obtain ⟨ts,ht⟩ := ih b h6 (by omega)
    exact ⟨_,.word ⟨h1,h4⟩ hab h8 h7 ht⟩

def cleared (mem : Nat → Byte) (i a : Nat) (k : Nat) : Byte := if i ≤ k ∧ k < a then 0 else mem k

lemma skipBlank_run (fuel : Nat) : ∀ mem i, Blank mem i a → mem a ∉ WHITESPACE → a-i < fuel →
    skipBlank fuel mem i = some (cleared mem i a,a) := by
  induction fuel with
  | zero => intro mem i _ _ h; omega
  | succ fuel ih =>
    intro mem i hb ha hf
    rw [skipBlank]
    by_cases hia : i = a
    · subst hia
      rw [if_neg ha]
      have hc : cleared mem i i = mem := by
        funext k
        exact if_neg (by omega)
      rw [hc]
    have hlt : i < a := lt_of_le_of_ne hb.1 hia
    rw [if_pos (hb.2 i le_rfl hlt),ih _ (i+1) ⟨hlt,fun k h1 h2 => ?_⟩ ?_ (by omega)]
    · have hc : cleared (update mem i 0) (i+1) a = cleared mem i a := by
        funext k
        unfold cleared
        by_cases hk : k = i
        · subst hk
          rw [if_neg (by omega),if_pos (by omega),update_self]
        rw [update_of_ne hk]
        congr 1
        exact propext ⟨fun h => by omega,fun h => by omega⟩
      rw [hc]
    · rwa [update_of_ne (by omega)]
    rw [update_of_ne (by omega)]
    exact hb.2 k (by omega) h2

lemma skipWord_run (fuel : Nat) : ∀ i, i ≤ b → (∀ k, i ≤ k → k < b → InWord (mem k)) →
    ¬InWord (mem b) → b-i < fuel → skipWord fuel mem i = some b := by
  induction fuel with
  | zero => intro i _ _ _ h; omega
  | succ fuel ih =>
    intro i hi hw hb hf
    rw [skipWord]
    by_cases hib : i = b
    · subst hib
      exact if_neg hb
    have hlt : i < b := lt_of_le_of_ne hi hib
    refine (if_pos (hw i le_rfl hlt)).trans ?_
    exact ih (i+1) hlt (fun k h1 h2 => hw k (by omega) h2) hb (by omega)

/-- The lookahead of `st` is the first of `ts`, from `p` on, and the line is untouched behind
it. -/
def Ahead (f : Nat → Byte) (n p : Nat) (st : State) : List Token → Prop
  | [] => st.nc = 0 ∧ st.np2 = none
  | .sym c :: ts => st.nc = c ∧ ∃ i, p ≤ i ∧ i ≤ n ∧ st.np2 = some i ∧ Tokens f i ts ∧
      ∀ k, i ≤ k → st.mem k = f k
  | .word a b :: ts => st.nc = asc 'w' ∧ st.np1 = some a ∧ p ≤ a ∧ a < b ∧ b ≤ n ∧ st.np2 = some b ∧
      Tokens f b ts ∧ ¬InWord (f b) ∧ ∀ k, a ≤ k → st.mem k = f k

/-- What `next` from `i` leaves of the line. -/
structure Frame (i : Nat) (mem mem' : Nat → Byte) : Prop where
  before : ∀ k < i, mem' k = mem k
  zeros : ∀ k, mem' k = mem k ∨ mem' k = 0

lemma mem_of_blank (hmem : ∀ k, i ≤ k → mem k = f k) (h : Blank f i a) : Blank mem i a :=
  ⟨h.1,fun k h1 h2 => by rw [hmem k h1]; exact h.2 k h1 h2⟩

lemma cleared_frame : Frame i mem (cleared mem i a) where
  before k hk := if_neg (by omega)
  zeros k := by
    unfold cleared
    split
    · exact .inr rfl
    exact .inl rfl

lemma cleared_behind {k : Nat} (hmem : ∀ k, i ≤ k → mem k = f k) (hi : i ≤ a) (hk : a ≤ k) :
    cleared mem i a k = f k := by
  rw [← hmem k (hi.trans hk)]
  exact if_neg (by omega)

lemma cleared_first (h : i < a) : cleared mem i a i = 0 := if_pos ⟨le_rfl,h⟩

lemma skipBlank_line (hf : Line f n) (hfuel : n < fuel) (hmem : ∀ k, i ≤ k → mem k = f k)
    (hi : i ≤ n) (hb : Blank f i a) (ha : f a ∉ WHITESPACE) :
    a ≤ n ∧ skipBlank fuel mem i = some (cleared mem i a,a) := by
  have han : a ≤ n := by
    by_contra hgt
    exact absurd (hb.2 n hi (by omega)) (by rw [hf.1]; decide)
  exact ⟨han,skipBlank_run fuel _ _ (mem_of_blank hmem hb) (by rwa [hmem a hb.1]) (by omega)⟩

lemma next_tokens (hf : Line f n) (hfuel : n < fuel) (ht : Tokens f i ts)
    (hmem : ∀ k, i ≤ k → st.mem k = f k) (hi : i ≤ n) : ∃ st', next fuel st (some i) = some st' ∧
      Ahead f n i st' ts ∧ Frame i st.mem st'.mem ∧ (¬InWord (f i) → st'.mem i = 0) := by
  cases ht with
  | @done _ a hb h0 =>
    obtain ⟨_,hsk⟩ := skipBlank_line hf hfuel hmem hi hb (by rw [h0]; decide)
    have hca : cleared st.mem i a a = 0 := (cleared_behind hmem hb.1 le_rfl).trans h0
    have he : next fuel st (some i) =
        some {mem := cleared st.mem i a, nc := 0, np1 := none, np2 := none} := by
      rw [next,hsk,bind_some]
      exact if_pos hca
    refine ⟨_,he,⟨rfl,rfl⟩,cleared_frame,fun _ => ?_⟩
    obtain rfl | hlt := hb.1.eq_or_lt
    · exact hca
    exact cleared_first hlt
  | @sym _ a ts hb hs ht =>
    have hws : f a ∉ WHITESPACE := by
      intro hc
      revert hc hs
      generalize f a = c
      revert c
      decide
    have h0 : f a ≠ 0 := by
      intro hc
      rw [hc] at hs
      exact absurd hs (by decide)
    obtain ⟨han,hsk⟩ := skipBlank_line hf hfuel hmem hi hb hws
    have hlt : a < n := han.lt_of_ne (by rintro rfl; exact h0 hf.1)
    have he : next fuel st (some i) = some {
        mem := update (cleared st.mem i a) a 0
        nc := f a, np1 := some a, np2 := some (a+1) } := by
      rw [next,hsk,bind_some]
      simp only [cleared_behind hmem hb.1 le_rfl]
      rw [if_neg h0,if_pos hs]
    have hia := hb.1
    refine ⟨_,he,⟨rfl,a+1,by omega,hlt,rfl,ht,fun k hk => ?_⟩,⟨fun k hk => ?_,fun k => ?_⟩,
      fun _ => ?_⟩
    · exact (update_of_ne (by omega) ..).trans (cleared_behind hmem hia (by omega))
    · exact (update_of_ne (by omega) ..).trans (cleared_frame.before k hk)
    · by_cases hk : k = a
      · subst hk
        exact .inr (update_self ..)
      simp only
      rw [update_of_ne hk]
      exact cleared_frame.zeros k
    obtain rfl | hlt := hia.eq_or_lt
    · exact update_self ..
    exact (update_of_ne hlt.ne ..).trans (cleared_first hlt)
  | @word _ a b ts hb hab hw hnw ht =>
    have hin := hw a le_rfl hab
    have hws : f a ∉ WHITESPACE := fun hc => hin.2 (mem_append_left _ hc)
    have hns : f a ∉ SYMBOLS := fun hc => hin.2 (mem_append_right _ hc)
    obtain ⟨han,hsk⟩ := skipBlank_line hf hfuel hmem hi hb hws
    have hbn : b ≤ n := by
      by_contra hgt
      exact absurd (hw n han (by omega)) (by rw [hf.1]; decide)
    have hskw : skipWord fuel (cleared st.mem i a) a = some b := by
      refine skipWord_run fuel a hab.le (fun k h1 h2 => ?_) ?_ (by omega)
      · rw [cleared_behind hmem hb.1 h1]
        exact hw k h1 h2
      rw [cleared_behind hmem hb.1 hab.le]
      exact hnw
    have he : next fuel st (some i) =
        some {mem := cleared st.mem i a, nc := asc 'w', np1 := some a, np2 := some b} := by
      rw [next,hsk,bind_some]
      simp only [cleared_behind hmem hb.1 le_rfl]
      rw [if_neg hin.1,if_neg hns,hskw,map_some]
    refine ⟨_,he,⟨rfl,rfl,hb.1,hab,hbn,rfl,ht,hnw,fun k hk => cleared_behind hmem hb.1 hk⟩,
      cleared_frame,fun hiw => ?_⟩
    obtain rfl | hlt := hb.1.eq_or_lt
    · exact absurd hin hiw
    exact cleared_first hlt

def Kept (f mem : Nat → Byte) (a b : Nat) : Prop := (∀ k, a ≤ k → k < b → mem k = f k) ∧ mem b = 0

def State.Past (st : State) (b : Nat) : Prop := ∀ i, st.np2 = some i → b ≤ i

lemma Kept.frame {mem' : Nat → Byte} (h : Kept f mem a b) (hfr : Frame i mem mem') (hb : b ≤ i) :
    Kept f mem' a b := by
  refine ⟨fun k h1 h2 => ?_,?_⟩
  · rw [hfr.before k (by omega)]
    exact h.1 k h1 h2
  obtain h0 | h0 := hfr.zeros b
  · rw [h0]
    exact h.2
  exact h0

lemma Ahead.past {p : Nat} (h : Ahead f n p st ts) (hb : b ≤ p) : st.Past b := by
  intro j hj
  match ts, h with
  | [], ⟨_,h⟩ =>
    rw [h] at hj
    cases hj
  | .sym c :: ts, ⟨_,i,h1,_,h2,_⟩ =>
    rw [h2] at hj
    cases hj
    omega
  | .word a b' :: ts, ⟨_,_,h1,h2,_,h3,_⟩ =>
    rw [h3] at hj
    cases hj
    omega

/-- One call: the lookahead is returned, the next token is looked at, and the words returned so
far are kept. -/
lemma gettoken_step {p : Nat} (hf : Line f n) (hfuel : n < fuel) (h : Ahead f n p st ts) :
    ∃ p' st', gettoken fuel st = some (st.nc,st.np1,st') ∧ Ahead f n p' st' ts.tail ∧
      (∀ a b, ts.head? = some (.word a b) → Kept f st'.mem a b ∧ st'.Past b) ∧
      ∀ a b, Kept f st.mem a b → st.Past b → Kept f st'.mem a b ∧ st'.Past b := by
  match ts, h with
  | [], ⟨_,h2⟩ =>
    refine ⟨p,{st with nc := 0},by simp [gettoken,next,h2],⟨rfl,h2⟩,by simp,?_⟩
    exact fun a b hk hp => ⟨hk,hp⟩
  | .sym c :: ts, ⟨_,i,_,hi,h2,ht,hmem⟩ =>
    obtain ⟨st',he,ha,hfr,_⟩ := next_tokens hf hfuel ht hmem hi
    refine ⟨i,st',by rw [gettoken,h2,he]; rfl,ha,by simp,fun a b hk hp => ?_⟩
    exact ⟨hk.frame hfr (hp i h2),ha.past (hp i h2)⟩
  | .word a b :: ts, ⟨_,_,_,hab,hb,h2,ht,hnw,hmem⟩ =>
    obtain ⟨st',he,ha,hfr,hz⟩ :=
      next_tokens hf hfuel ht (fun k hk => hmem k (by omega)) hb
    refine ⟨b,st',by rw [gettoken,h2,he]; rfl,ha,?_,fun a' b' hk hp => ?_⟩
    · intro a' b' hw
      cases hw
      refine ⟨⟨fun k h3 h4 => ?_,hz hnw⟩,ha.past le_rfl⟩
      rw [hfr.before k h4]
      exact hmem k h3
    exact ⟨hk.frame hfr (hp b h2),ha.past (hp b h2)⟩

lemma kept_call (hf : Line f n) (hfuel : n < fuel) (k : Nat) : ∀ {p st ts r}, Ahead f n p st ts →
    Kept f st.mem a b → st.Past b → call fuel k st = some r → Kept f r.2.2.mem a b := by
  induction k with
  | zero =>
    intro p st ts r ha hk hp hr
    obtain ⟨_,st',he,_,_,hkeep⟩ := gettoken_step hf hfuel ha
    rw [call,he] at hr
    cases hr
    exact (hkeep a b hk hp).1
  | succ k ih =>
    intro p st ts r ha hk hp hr
    obtain ⟨_,st',he,ha',_,hkeep⟩ := gettoken_step hf hfuel ha
    rw [call,he,bind_some] at hr
    obtain ⟨hk',hp'⟩ := hkeep a b hk hp
    exact ih ha' hk' hp' hr

/-- What call `k` returns where the tokens are `ts`. -/
def Returns (f : Nat → Byte) (fuel : Nat) (st : State) (k : Nat) (ts : List Token)
    (r : Byte × Option Nat × State) : Prop :=
  match ts[k]? with
  | none => r.1 = 0
  | some (.sym c) => r.1 = c
  | some (.word a b) => r.1 = asc 'w' ∧ r.2.1 = some a ∧
      ∀ j r', call fuel (k+j) st = some r' → Kept f r'.2.2.mem a b

lemma call_returns (hf : Line f n) (hfuel : n < fuel) (k : Nat) : ∀ {p st ts}, Ahead f n p st ts →
    ∃ r, call fuel k st = some r ∧ Returns f fuel st k ts r := by
  induction k with
  | zero =>
    intro p st ts ha
    obtain ⟨_,st',he,ha',hword,_⟩ := gettoken_step hf hfuel ha
    refine ⟨_,he,?_⟩
    match ts, ha with
    | [], ⟨h,_⟩ => exact h
    | .sym c :: ts, ⟨h,_⟩ => exact h
    | .word a b :: ts, ⟨h1,h2,_⟩ =>
      obtain ⟨hk,hp⟩ := hword a b rfl
      refine ⟨h1,h2,fun j r' hr => ?_⟩
      rw [Nat.zero_add] at hr
      cases j with
      | zero =>
        rw [call,he] at hr
        cases hr
        exact hk
      | succ j =>
        rw [call,he,bind_some] at hr
        exact kept_call hf hfuel j ha' hk hp hr
  | succ k ih =>
    intro p st ts ha
    obtain ⟨_,st',he,ha',_,_⟩ := gettoken_step hf hfuel ha
    obtain ⟨r,hr,hret⟩ := ih ha'
    have hnext : ∀ j, call fuel (k+1+j) st = call fuel (k+j) st' := by
      intro j
      rw [show k+1+j = k+j+1 by omega,call,he,bind_some]
    refine ⟨r,(hnext 0).trans hr,?_⟩
    unfold Returns at hret ⊢
    rw [getElem?_tail] at hret
    split at hret
    · exact hret
    · exact hret
    refine ⟨hret.1,hret.2.1,fun j r' hr' => hret.2.2 j r' ?_⟩
    rw [← hnext]
    exact hr'

/-- `gettoken` returns the tokens of the line one by one and then 0, and every word it has
returned stays in the line as a string. -/
theorem gettoken_tokens (hf : Line f n) : ∃ ts st, Tokens f 0 ts ∧ start (n+1) f = some st ∧
    ∀ k, ∃ r, call (n+1) k st = some r ∧ Returns f (n+1) st k ts r := by
  obtain ⟨ts,ht⟩ := tokens_exist hf n 0 (Nat.zero_le n) (Nat.sub_le n 0)
  have hmem : ∀ k, 0 ≤ k → ({mem := f} : State).mem k = f k := fun k _ => rfl
  obtain ⟨st,he,ha,_,_⟩ := next_tokens hf (Nat.lt_succ_self n) ht hmem (Nat.zero_le n)
  exact ⟨ts,st,ht,he,fun k => call_returns hf (Nat.lt_succ_self n) k ha⟩

def pipeLine (k : Nat) : Byte := [asc 'a',asc '|',asc 'b'].getD k 0

lemma pipeLine_line : Line pipeLine 3 := ⟨rfl,by decide⟩

theorem gettoken_tokens_pipe : Line pipeLine 3 ∧ ∃ ts st, Tokens pipeLine 0 ts ∧
    start 4 pipeLine = some st ∧ ∀ k, ∃ r, call 4 k st = some r ∧ Returns pipeLine 4 st k ts r :=
  ⟨pipeLine_line,gettoken_tokens pipeLine_line⟩

end scan

section runcmd

def MAXARGS : Nat := 16

def BUFSIZ : Nat := 1024

/-- A process of the pipeline, with the words in its `argv`. -/
structure Process where
  argv : List (Nat × Nat)
  runs : Bool

/-- `runcmd` up to `runit` with the tokens that are left. The calls made where `k` are left succeed
if `ok k`; otherwise, and after a syntax error, the process ends before it runs anything. -/
def runcmd (ok : Nat → Bool) : List Token → List (Nat × Nat) → List Process
  | [], argv => [⟨argv,true⟩]
  | .word a b :: ts, argv =>
    if argv.length = MAXARGS then [⟨argv,false⟩] else runcmd ok ts (argv++[(a,b)])
  | .sym c :: ts, argv =>
    if c = asc '|' then
      if ok ts.length then ⟨argv,true⟩ :: runcmd ok ts [] else [⟨argv,false⟩]
    else match ts with
      | .word _ _ :: ts =>
        if (c = asc '<' ∨ c = asc '>') ∧ ok ts.length then runcmd ok ts argv else [⟨argv,false⟩]
      | _ => [⟨argv,false⟩]

/-- A store to one of the two arrays. -/
inductive Store where
  | argv (i : Nat)
  | argv0buf (i : Nat)

def Store.Inside : Store → Prop
  | .argv i => i < MAXARGS
  | .argv0buf i => i < BUFSIZ

/-- From `runit` on; `strcpy` stores the NUL too. -/
def runit (f : Nat → Byte) : List (Nat × Nat) → List Store
  | [] => []
  | (a,b) :: ws =>
    (if f a = asc '/' then [] else (range (b-a+2)).map .argv0buf++[.argv 0])++[.argv (ws.length+1)]

def Process.stores (f : Nat → Byte) (p : Process) : List Store :=
  (range p.argv.length).map .argv++if p.runs then runit f p.argv else []

def RunsInside (f : Nat → Byte) : Prop :=
  ∀ ok ts, Tokens f 0 ts → ∀ p ∈ runcmd ok ts [], ∀ x ∈ p.stores f, x.Inside

/-- The words leave room for the null pointer, and the first for the slash and the NUL. -/
def FitsArrays (f : Nat → Byte) (argv : List (Nat × Nat)) : Prop :=
  argv.length < MAXARGS ∧ ∀ a b, argv.head? = some (a,b) → f a ≠ asc '/' → b-a+2 ≤ BUFSIZ

lemma argv_length_le {ok : Nat → Bool} {ts : List Token} {argv : List (Nat × Nat)} {p : Process}
    (h : argv.length ≤ MAXARGS) (hp : p ∈ runcmd ok ts argv) : p.argv.length ≤ MAXARGS := by
  fun_induction runcmd ok ts argv with
  | case1 argv => simp_all
  | case2 a b ts argv _ => simp_all
  | case3 a b ts argv hlt ih =>
    refine ih ?_ hp
    simp only [length_append,length_singleton]
    omega
  | _ => grind

lemma runit_inside_iff {f : Nat → Byte} {argv : List (Nat × Nat)} :
    (∀ x ∈ runit f argv, x.Inside) ↔ FitsArrays f argv := by
  match argv with
  | [] => simp [runit,FitsArrays,MAXARGS]
  | (a,b) :: ws =>
    have hbuf : (∀ x ∈ (range (b-a+2)).map Store.argv0buf, x.Inside) ↔ b-a+2 ≤ BUFSIZ := by
      simp only [List.forall_mem_map,mem_range,Store.Inside]
      exact ⟨fun h => h (b-a+1) (by omega),fun h i hi => by omega⟩
    by_cases hf : f a = asc '/'
    · simp [runit,FitsArrays,Store.Inside,hf]
    simp only [runit,if_neg hf,forall_mem_append,forall_mem_singleton]
    rw [hbuf]
    refine ⟨fun h => ⟨h.2,fun a b he _ => ?_⟩,fun h => ⟨⟨h.2 a b rfl hf,Nat.succ_pos 15⟩,h.1⟩⟩
    cases he
    exact h.1.1

/-- The words of a command; those that follow `<` and `>` name files. -/
inductive Command : List Token → List (Nat × Nat) → Prop where
  | nil : Command [] []
  | word {a b : Nat} {ts : List Token} {ws : List (Nat × Nat)} :
      Command ts ws → Command (.word a b :: ts) ((a,b) :: ws)
  | file {c : Byte} {a b : Nat} {ts : List Token} {ws : List (Nat × Nat)} :
      c = asc '<' ∨ c = asc '>' → Command ts ws → Command (.sym c :: .word a b :: ts) ws

/-- `ws` are the words of a command of the pipeline. One that has too many ends it. -/
inductive Pipeline : List Token → List (Nat × Nat) → Prop where
  | last {ts : List Token} {ws : List (Nat × Nat)} : Command ts ws → Pipeline ts ws
  | first {cmd ts : List Token} {ws : List (Nat × Nat)} :
      Command cmd ws → Pipeline (cmd++.sym (asc '|') :: ts) ws
  | later {cmd ts : List Token} {ws ws' : List (Nat × Nat)} : Command cmd ws' →
      ws'.length ≤ MAXARGS → Pipeline ts ws → Pipeline (cmd++.sym (asc '|') :: ts) ws

section commands

variable {ts ts' : List Token} {ws ws' argv : List (Nat × Nat)} {p : Process}

lemma Command.append (h : Command ts ws) (h' : Command ts' ws') : Command (ts++ts') (ws++ws') := by
  induction h with
  | nil => exact h'
  | word _ ih => exact .word ih
  | file hc _ ih => exact .file hc ih

lemma runcmd_command (h : Command ts ws) : ∀ argv, argv.length+ws.length ≤ MAXARGS →
    runcmd (fun _ => true) (ts++ts') argv = runcmd (fun _ => true) ts' (argv++ws) := by
  induction h with
  | nil => simp
  | @word a b ts ws _ ih =>
    intro argv hlen
    rw [length_cons] at hlen
    rw [cons_append,runcmd,if_neg (by omega),ih _ (by simp; omega),append_assoc]
    rfl
  | file hc _ ih =>
    intro argv hlen
    have hpipe : ∀ c, c = asc '<' ∨ c = asc '>' → c ≠ asc '|' := by decide
    simp only [cons_append,runcmd]
    rw [if_neg (hpipe _ hc),if_pos ⟨hc,trivial⟩,ih argv hlen]

lemma runcmd_pipe : runcmd (fun _ => true) (.sym (asc '|') :: ts) argv =
    ⟨argv,true⟩ :: runcmd (fun _ => true) ts [] := by
  rw [runcmd.eq_def]
  simp

lemma Pipeline.runs (h : Pipeline ts ws) (hlen : ws.length ≤ MAXARGS) :
    ⟨ws,true⟩ ∈ runcmd (fun _ => true) ts [] := by
  induction h with
  | last hc =>
    have := @runcmd_command _ [] _ hc [] (by simpa using hlen)
    rw [append_nil] at this
    simp [this,runcmd]
  | first hc =>
    rw [runcmd_command hc [] (by simpa using hlen),runcmd_pipe]
    exact mem_cons_self
  | later hc hlen' _ ih =>
    rw [runcmd_command hc [] (by simpa using hlen'),runcmd_pipe]
    exact mem_cons_of_mem _ (ih hlen)

/-- What `runcmd` runs is a command of the pipeline, with `ts'` the tokens it has consumed. -/
lemma pipeline_of_runs {ok : Nat → Bool} (hp : p ∈ runcmd ok ts argv) (hr : p.runs)
    (hlen : argv.length ≤ MAXARGS) (h : Command ts' argv) : Pipeline (ts'++ts) p.argv := by
  fun_induction runcmd ok ts argv generalizing ts' with
  | case1 argv =>
    obtain rfl := mem_singleton.mp hp
    rw [append_nil]
    exact .last h
  | case3 a b ts argv hlt ih =>
    rw [append_cons]
    exact ih hp (by rw [length_append,length_singleton]; omega) (h.append (.word .nil))
  | case4 argv ts hok ih =>
    obtain rfl | hp := mem_cons.mp hp
    · exact .first h
    exact .later h hlen (ih hp (Nat.zero_le _) .nil)
  | case6 c argv hc a b ts hok ih =>
    have hts : ts'++.sym c :: .word a b :: ts = ts'++[.sym c,.word a b]++ts := by simp
    have hcmd := h.append (.file (a := a) (b := b) hok.1 .nil)
    rw [append_nil] at hcmd
    rw [hts]
    exact ih hp hlen hcmd
  | _ =>
    obtain rfl := mem_singleton.mp hp
    cases hr

end commands

/-- `runcmd` stays inside its arrays exactly when the words of every command fit. -/
theorem runsInside_iff (f : Nat → Byte) : RunsInside f ↔ ∀ ts, Tokens f 0 ts →
    ∀ ws, Pipeline ts ws → ws.length ≤ MAXARGS → FitsArrays f ws := by
  constructor
  · intro h ts ht ws hws hlen
    exact runit_inside_iff.mp fun x hx =>
      h _ ts ht _ (hws.runs hlen) x (mem_append_right _ hx)
  intro h ok ts ht p hp
  have hlen : p.argv.length ≤ MAXARGS := argv_length_le (Nat.zero_le _) hp
  have hargv : ∀ x ∈ (range p.argv.length).map Store.argv, x.Inside := by
    simp only [List.forall_mem_map,mem_range]
    exact fun i hi => hi.trans_le hlen
  rw [Process.stores,forall_mem_append]
  refine ⟨hargv,?_⟩
  cases hr : p.runs with
  | true => exact runit_inside_iff.mpr (h ts ht _ (pipeline_of_runs hp hr (Nat.zero_le _) .nil) hlen)
  | false => simp

def longName (k : Nat) : Byte := if k < 1023 then asc 'a' else 0

theorem longName_overruns : Line longName 1023 ∧ ¬RunsInside longName := by
  refine ⟨⟨rfl,fun k hk => ?_⟩,fun h => ?_⟩
  · rw [longName,if_pos hk]
    decide
  have ht : Tokens longName 0 [.word 0 1023] := by
    refine .word ⟨le_rfl,by omega⟩ (by decide) (fun k _ hk => ?_) (by decide) ?_
    · rw [longName,if_pos hk]
      decide
    · exact .done ⟨le_rfl,by omega⟩ rfl
  have hfit : FitsArrays longName [(0,1023)] := runit_inside_iff.mp fun x hx =>
    h (fun _ => true) _ ht ⟨_,true⟩ (.head _) x (mem_append_right _ hx)
  exact absurd (hfit.2 0 1023 rfl (by decide)) (by decide)

end runcmd

end KludgeOS.Sh
