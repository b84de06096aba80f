import KludgeOS.Mmu

/-!
`stab_binsearch` (`kern/kdebug.c`), on a table of which some entries can be read.
-/

namespace KludgeOS.Stabs
open Option

structure Stab where
  nType : Byte
  nValue : Word

/-- The entries that can be read, of 12 bytes each. -/
structure Table where
  entry : Int → Option Stab
  fits : ∀ i, (entry i).isSome → 12*(i+1) ≤ 2^32

variable (stabs : Int → Option Stab) (type : Int)

/-- Going down from `m` over at most `n` entries that are not of the type; an entry that is not
there gives no result. -/
def slide : (n : Nat) → (m : Int) → Option Int
  | 0,m => some m
  | n+1,m => do
    let e ← stabs m
    if (e.nType.toNat : Int) = type then some m else slide n (m-1)

/-- The local variables of `stab_binsearch` and what its arguments point at. -/
structure Search where
  l : Int
  r : Int
  left : Int
  right : Int
  anyMatches : Bool := false
  addr : Word

namespace Search

def round (s : Search) : Option Search := do
  let trueM := ((s.l+s.r).bmod (2^32)).tdiv 2
  let m ← slide stabs type (trueM-s.l+1).toNat trueM
  if m < s.l then return {s with l := trueM+1}
  let e ← stabs m
  if e.nValue < s.addr then return {s with anyMatches := true, left := m, l := trueM+1}
  else if s.addr < e.nValue then return {s with anyMatches := true, right := m-1, r := m-1}
  else return {s with anyMatches := true, left := m, l := m, addr := s.addr+1}

def loop : Nat → Search → Option Search
  | 0,_ => none
  | n+1,s => if s.l ≤ s.r then (s.round stabs type).bind (loop n) else some s

end Search

/-- What `*region_left` and `*region_right` are after at most `n` rounds. -/
def stabBinsearch (T : Table) (n : Nat) (left right type : Int) (addr : Word) :
    Option (Int × Int) := do
  let s ← Search.loop T.entry type n {l := left, r := right, left, right, addr}
  if s.anyMatches then return (← slide T.entry type (s.right-s.left).toNat s.right,s.right)
  else return (s.left,s.left-1)

variable {stabs} {L R : Int} {s : Search}

lemma slide_some (n : Nat) : ∀ m : Int, (∀ i, m-n < i → i ≤ m → (stabs i).isSome) →
    ∃ k, slide stabs type n m = some k ∧ m-n ≤ k ∧ k ≤ m := by
  induction n with
  | zero => exact fun m _ => ⟨m,rfl,by omega,by omega⟩
  | succ n ih =>
    intro m h
    obtain ⟨e,he⟩ := isSome_iff_exists.mp (h m (by omega) (by omega))
    simp only [slide,he,bind_eq_bind,bind_some]
    split
    · exact ⟨m,rfl,by omega,by omega⟩
    obtain ⟨k,hk,h1,h2⟩ := ih (m-1) fun i h1 h2 => h i (by omega) (by omega)
    exact ⟨k,hk,by omega,by omega⟩

namespace Search

structure Inside (L R : Int) (s : Search) : Prop where
  l : L ≤ s.l
  r : s.r ≤ R
  left : L ≤ s.left
  right : s.right ≤ R

/-- An exact match may keep the interval, but `addr` is then not the value at its left end. -/
def rank (stabs : Int → Option Stab) (s : Search) : Nat :=
  2*(s.r-s.l+1).toNat+if (stabs s.l).map Stab.nValue = some s.addr then 1 else 0

lemma rank_lt {t : Search} (h : t.r-t.l < s.r-s.l) (hs : s.l ≤ s.r) : rank stabs t < rank stabs s := by
  unfold rank
  split <;> omega

section

variable (h0 : 0 ≤ L) (hR : R < 2^30) (hall : ∀ i, L ≤ i → i ≤ R → (stabs i).isSome)
include h0 hR hall

lemma round_some (h : Inside L R s) (hs : s.l ≤ s.r) :
    ∃ t, s.round stabs type = some t ∧ Inside L R t ∧ rank stabs t < rank stabs s := by
  obtain ⟨hl,hr,hleft,hright⟩ := h
  have htm : ((s.l+s.r).bmod (2^32)).tdiv 2 = (s.l+s.r)/2 := by
    rw [Int.bmod_eq_of_le (by omega) (by omega),Int.tdiv_eq_ediv_of_nonneg (by omega)]
  obtain ⟨m,hm,h1,h2⟩ := slide_some type ((s.l+s.r)/2-s.l+1).toNat ((s.l+s.r)/2)
    fun i h1 h2 => hall i (by omega) (by omega)
  simp only [round,htm,hm,bind_eq_bind,bind_some]
  split
  · exact ⟨_,rfl,⟨by dsimp; omega,hr,hleft,hright⟩,rank_lt (by dsimp; omega) hs⟩
  obtain ⟨e,he⟩ := isSome_iff_exists.mp (hall m (by omega) (by omega))
  simp only [he,bind_some]
  split
  · exact ⟨_,rfl,⟨by dsimp; omega,hr,by dsimp; omega,hright⟩,rank_lt (by dsimp; omega) hs⟩
  split
  · exact ⟨_,rfl,⟨hl,by dsimp; omega,hleft,by dsimp; omega⟩,rank_lt (by dsimp; omega) hs⟩
  refine ⟨_,rfl,⟨by dsimp; omega,hr,by dsimp; omega,hright⟩,?_⟩
  have hv : e.nValue = s.addr := by bv_omega
  have hne : ¬s.addr = s.addr+1 := by bv_omega
  simp only [rank,he,map_some,some.injEq,hv,if_neg hne]
  by_cases hml : m = s.l
  · simp [← hml,he,hv]
  split <;> omega

lemma loop_some (n : Nat) : ∀ {s : Search}, Inside L R s → rank stabs s < n →
    ∃ t, loop stabs type n s = some t ∧ Inside L R t := by
  induction n with
  | zero => exact fun _ h => absurd h (Nat.not_lt_zero _)
  | succ n ih =>
    intro s h hn
    unfold loop
    split
    · rename_i hs
      obtain ⟨t,ht,hin,hlt⟩ := round_some type h0 hR hall h hs
      rw [ht]
      exact ih hin (by omega)
    exact ⟨s,rfl,h⟩

end

end Search

/-- No entry but those from `L` to `R` need be there. -/
theorem binsearch_inside (T : Table) (L R type : Int) (addr : Word) (h0 : 0 ≤ L) (hLR : L ≤ R)
    (hall : ∀ i, L ≤ i → i ≤ R → (T.entry i).isSome) (n : Nat) (hn : 2*(R-L+2) ≤ n) :
    (stabBinsearch T n L R type addr).isSome := by
  have hR : R < 2^30 := by
    have := T.fits R (hall R hLR le_rfl)
    omega
  have hrank : Search.rank T.entry ⟨L,R,L,R,false,addr⟩ < n := by
    simp only [Search.rank]
    split <;> omega
  obtain ⟨s,hs,h⟩ := Search.loop_some type h0 hR hall n ⟨le_rfl,le_rfl,le_rfl,le_rfl⟩ hrank
  simp only [stabBinsearch,hs,bind_eq_bind,bind_some]
  split
  · have hleft := h.left
    obtain ⟨k,hk,-⟩ := @slide_some T.entry type (s.right-s.left).toNat s.right
      fun i h1 h2 => hall i (by omega) (h2.trans h.right)
    simp [hk]
  · rfl

/-- Two entries out of order. -/
def pairTable : Table where
  entry i := if i = 3 ∨ i = 4 then some ⟨36,.ofInt 32 (12-i)⟩ else none
  fits i h := by
    by_contra hi
    simp [show ¬(i = 3 ∨ i = 4) by omega] at h

theorem binsearch_inside_pair : (stabBinsearch pairTable 6 3 4 36 8).isSome :=
  binsearch_inside _ 3 4 36 8 (by decide) (by decide)
    (fun i h1 h2 => by simp [pairTable,show i = 3 ∨ i = 4 by omega]) 6 (by decide)

end KludgeOS.Stabs
