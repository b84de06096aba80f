import KludgeOS.Mmu

/-!
`file_read`, `file_write` and `funmap` (`lib/file.c`): a file is mapped at
`fd2data(fd)`, so the first two come down to one `memmove`, after tests in
32-bit arithmetic.
-/

namespace KludgeOS.Lib
open BitVec Option

def MAXFILESIZE : Word := 0x400000

/-- The arguments of a call of `memmove`. -/
structure Move where
  dst : Word
  src : Word
  n : Word
  deriving DecidableEq

def pagesOf (size : Nat) : Nat := (size+PGSIZE-1)/PGSIZE

/-- The descriptor's window with the pages mapped in it, the size, and what `file_trunc` returns
for a new one. -/
structure OpenFile where
  data : Word
  pages : Nat → Bool
  size : Word
  trunc : Word → Word

section io

variable (f : OpenFile)

/-- `memmove` finds the `n` bytes from `offset` on mapped, as far as they are in the window. -/
def OpenFile.Backed (offset : Word) (n : Nat) : Prop :=
  ∀ i < n, (offset.toNat+i)%2^32 < MAXFILESIZE.toNat → f.pages ((offset.toNat+i)%2^32/PGSIZE)

instance (offset : Word) (n : Nat) : Decidable (f.Backed offset n) :=
  inferInstanceAs (Decidable (∀ i < n, _ → _))

/-- `fmap`, which does nothing unless the file grows. -/
def OpenFile.fmap (newsize : Word) : OpenFile :=
  {f with pages p := f.pages p || decide (pagesOf f.size.toNat ≤ p ∧ p < pagesOf newsize.toNat)}

/-- The result and the call of `memmove`. There is none where that faults. -/
def fileRead (buf n offset : Word) : Option (Word × Option Move) :=
  if f.size < offset then some (0,none)
  else
    let n := if f.size < offset+n then f.size-offset else n
    if f.Backed offset n.toNat then some (n,some ⟨buf,f.data+offset,n⟩) else none

def fileWrite (buf n offset : Word) : Option (Word × Option Move) :=
  let tot := offset+n
  if MAXFILESIZE < tot then some (-9,none)
  else if f.size < tot ∧ (f.trunc tot).toInt < 0 then some (f.trunc tot,none)
  else if (f.fmap tot).Backed offset n.toNat then some (n,some ⟨f.data+offset,buf,n⟩)
  else none

/-- How many bytes are to be read: those up to the end of the file, `n` at most. -/
def readCount (n offset : Word) : Nat :=
  if offset.toInt < 0 then 0 else min n.toNat (f.size.toNat-offset.toNat)

def ReadOk (buf n offset : Word) : Prop :=
  ∃ r m, fileRead f buf n offset = some (r,m) ∧ r.toNat = readCount f n offset ∧ ∀ x, m = some x →
      x.dst = buf ∧ x.src = f.data+offset ∧ x.n.toNat = readCount f n offset

/-- Nothing is written, or the `n` bytes at `offset` of the window are. -/
def WriteOk (buf n offset : Word) : Prop :=
  (∃ r, fileWrite f buf n offset = some (r,none) ∧ r.toInt < 0) ∨
    fileWrite f buf n offset = some (n,some ⟨f.data+offset,buf,n⟩) ∧ 0 ≤ offset.toInt ∧
      offset.toNat+n.toNat ≤ MAXFILESIZE.toNat

variable {f} {buf n offset : Word}

lemma toInt_neg_iff {w : Word} : w.toInt < 0 ↔ 2^31 ≤ w.toNat := by
  have := w.isLt
  rw [toInt_eq_toNat_cond]
  split <;> omega

lemma readOk_iff (hs : f.size ≤ MAXFILESIZE) : ReadOk f buf n offset ↔ f.size < offset ∨
    offset.toNat+n.toNat < 2^32 ∧ f.Backed offset (readCount f n offset) := by
  have hn := n.isLt
  have hmax : f.size.toNat ≤ 4194304 := hs
  have hneg := toInt_neg_iff (w := offset)
  by_cases h1 : f.size < offset
  · have h1' : f.size.toNat < offset.toNat := h1
    refine iff_of_true ⟨0,none,if_pos h1,?_,by simp⟩ (.inl h1)
    rw [readCount,show (0 : Word).toNat = 0 from rfl]
    split <;> omega
  have h1' : ¬f.size.toNat < offset.toNat := h1
  have hk : readCount f n offset = min n.toNat (f.size.toNat-offset.toNat) := if_neg (by omega)
  generalize hc : (if f.size < offset+n then f.size-offset else n) = c
  -- the count is cut off, unless the sum wraps around
  have hiff : c.toNat = readCount f n offset ↔ offset.toNat+n.toNat < 2^32 := by
    have hsub : (f.size-offset).toNat = f.size.toNat-offset.toNat :=
      toNat_sub_of_le (BitVec.not_lt.mp h1)
    have hadd : (offset+n).toNat = (offset.toNat+n.toNat)%2^32 := toNat_add offset n
    rw [← hc,hk]
    by_cases h2 : f.size < offset+n
    · have h2' : f.size.toNat < (offset+n).toNat := h2
      rw [if_pos h2,hsub]
      omega
    have h2' : ¬f.size.toNat < (offset+n).toNat := h2
    rw [if_neg h2]
    omega
  have he : fileRead f buf n offset = if f.Backed offset c.toNat then
      some (c,some ⟨buf,f.data+offset,c⟩) else none := by
    simp only [fileRead,if_neg h1,hc]
  rw [ReadOk,he,or_iff_right h1,← hiff]
  constructor
  · rintro ⟨r,m,hr,hrk,_⟩
    split at hr
    next hb =>
      cases hr
      exact ⟨hrk,hrk ▸ hb⟩
    next => cases hr
  rintro ⟨hck,hb⟩
  rw [← hck] at hb
  rw [if_pos hb]
  refine ⟨c,_,rfl,hck,?_⟩
  rintro m hm
  cases hm
  exact ⟨rfl,rfl,hck⟩

lemma writeOk_iff : WriteOk f buf n offset ↔ MAXFILESIZE < offset+n ∨
    f.size < offset+n ∧ (f.trunc (offset+n)).toInt < 0 ∨
    offset.toNat+n.toNat < 2^32 ∧ (f.fmap (offset+n)).Backed offset n.toNat := by
  have hn := n.isLt
  have hmax : MAXFILESIZE.toNat = 4194304 := rfl
  have hneg := toInt_neg_iff (w := offset)
  by_cases h1 : MAXFILESIZE < offset+n
  · exact iff_of_true (.inl ⟨-9,if_pos h1,by decide⟩) (.inl h1)
  by_cases h2 : f.size < offset+n ∧ (f.trunc (offset+n)).toInt < 0
  · exact iff_of_true (.inl ⟨_,(if_neg h1).trans (if_pos h2),h2.2⟩) (.inr (.inl h2))
  rw [or_iff_right h1,or_iff_right h2,WriteOk]
  have h3 : ¬MAXFILESIZE.toNat < (offset+n).toNat := h1
  rw [toNat_add] at h3
  have he : fileWrite f buf n offset = if (f.fmap (offset+n)).Backed offset n.toNat then
      some (n,some ⟨f.data+offset,buf,n⟩) else none := (if_neg h1).trans (if_neg h2)
  rw [he]
  by_cases hb : (f.fmap (offset+n)).Backed offset n.toNat
  · rw [if_pos hb,and_iff_left hb,or_iff_right (by simp),and_iff_right rfl]
    omega
  simp [hb]

/-- The two stay inside the file and its window exactly when `offset+n` does not wrap around and
the bytes are mapped, where it matters. -/
theorem window_iff (hs : f.size ≤ MAXFILESIZE) : (ReadOk f buf n offset ↔ f.size < offset ∨
      offset.toNat+n.toNat < 2^32 ∧ f.Backed offset (readCount f n offset)) ∧
    (WriteOk f buf n offset ↔ MAXFILESIZE < offset+n ∨
      f.size < offset+n ∧ (f.trunc (offset+n)).toInt < 0 ∨
      offset.toNat+n.toNat < 2^32 ∧ (f.fmap (offset+n)).Backed offset n.toNat) :=
  ⟨readOk_iff hs,writeOk_iff⟩

/-- A file of `size` bytes with its first page mapped. -/
def smallFile (size : Word) : OpenFile := ⟨0xd0000000,fun p => p = 0,size,fun _ => 0⟩

/-- Of 4 bytes one is read at the end of the file, and two pages are reached by a write. -/
theorem window_small : (smallFile 4096).size ≤ MAXFILESIZE ∧ ReadOk (smallFile 4096) 0 4 4095 ∧
    WriteOk (smallFile 4096) 0 4 4095 :=
  ⟨by decide,(window_iff (by decide)).1.mpr (.inr (by decide)),
    (window_iff (f := smallFile 4096) (by decide)).2.mpr (.inr (.inr (by decide)))⟩

/-- One byte written before the window, and a read of 2^32-1 bytes at offset 1 of a file of 2. -/
theorem window_left : ¬WriteOk (smallFile 0) 0 1 (-1) ∧ ¬ReadOk (smallFile 2) 0 (-1) 1 := by
  constructor
  · rintro (⟨r,h,_⟩ | ⟨_,h,_⟩)
    · have hr : fileWrite (smallFile 0) 0 1 (-1) = some (1,some ⟨0xcfffffff,0,1⟩) := by decide
      rw [hr] at h
      cases h
    · exact absurd h (by decide)
  rintro ⟨r,m,h,hr,_⟩
  obtain rfl : r = -1 := by
    simp only [fileRead,if_neg (show ¬(smallFile 2).size < 1 by decide),
      if_neg (show ¬(smallFile 2).size < 1+(-1) by decide)] at h
    split at h
    · cases h
      rfl
    cases h
  exact absurd hr (by decide)

end io

section funmap

/-- The `PTE_D` bits of the pages that are mapped in the window, and the pages that `FSREQ_DIRTY`
was sent for. -/
structure Window where
  pages : Nat → Option Bool
  sent : List Nat := []
  ret : Int := 0

variable {ipc : Nat → Int} {dirty : Bool}

def entry (table : Option (Nat → Option Bool)) (k : Nat) : Option Bool :=
  table.bind fun pages => pages k

end funmap

end KludgeOS.Lib
