import KludgeOS.Kernel

/-!
`malloc` and `free` (`lib/malloc.c`). They see their address space through two system calls,
the page tables at `vpt` and the words in memory where they count references.
-/

namespace KludgeOS.Malloc
open BitVec (ofNat toNat_sub toNat_ofNat toNat_add)
open BitVec

def MAXMALLOC : Word := 0x100000

def PTE_CONTINUED : Word := 0x400

def mbegin : Word := 0x08000000
def mend : Word := 0x10000000

def ROUNDDOWN (a : Word) (n : Nat) : Word := a-ofNat 32 (a.toNat%n)
def ROUNDUP (a : Word) (n : Nat) : Word := ROUNDDOWN (a+ofNat 32 n-1) n

/-- What the library uses. `vpt` is the entry of a page that is present at both levels. A crash is
`none`. -/
structure PageOps (Ω σ : Type) where
  vpt : σ → Nat → Option Word
  sysPageAlloc : Ω → σ → Word → Word → Option (Int × σ)
  sysPageUnmap : σ → Word → Option (Int × σ)
  load : σ → Word → Option Word
  store : σ → Word → Word → Option σ
  log : σ → List Nat

structure Heap (σ : Type) where
  space : σ
  mptr : Word

namespace PageOps

variable {Ω σ : Type} (M : PageOps Ω σ)

/-- The loop of `isfree`: at most `k` rounds are left. -/
def isfreeLoop (s : σ) (endVa : Word) : Nat → Word → Bool
  | 0,_ => true
  | k+1,va =>
    if va < endVa then
      if mend ≤ va ∨ (M.vpt s (PPN va)).isSome then false
      else isfreeLoop s endVa k (va+ofNat 32 PGSIZE)
    else true

def isfree (s : σ) (v n : Word) : Bool := M.isfreeLoop s (v+n) ((n.toNat+4095)/4096) v

/-- The loop of `free` over the pages with `PTE_CONTINUED`. When no page is left before `mend`
the assertion fails. -/
def freeLoop : Nat → Word → σ → Option (Word × σ)
  | 0,_,_ => none
  | k+1,c,s =>
    if (M.vpt s (PPN c)).getD 0&&&PTE_CONTINUED ≠ 0 then do
      let (_,s) ← M.sysPageUnmap s c
      freeLoop k (c+ofNat 32 PGSIZE) s
    else some (c,s)

/-- The end of `free`: `c` is just a piece of its page. -/
def dropRef (c : Word) (s : σ) : Option σ := do
  let ref := c+ofNat 32 PGSIZE-4
  let count ← M.load s ref
  let s ← M.store s ref (count-1)
  if count-1 = 0 then do
    let (_,s) ← M.sysPageUnmap s c
    return s
  else return s

def free (v : Word) (s : σ) : Option σ :=
  if v = 0 then some s
  else if mbegin ≤ v ∧ v < mend then do
    let c := ROUNDDOWN v PGSIZE
    let (c,s) ← M.freeLoop ((mend-c).toNat/PGSIZE) c s
    M.dropRef c s
  else none

/-- The search of `malloc` for address space, with a bound on its rounds. -/
def scan (s : σ) (n : Word) : Nat → Word → Nat → Option (Bool × Word)
  | 0,_,_ => none
  | k+1,mptr,nwrap =>
    if M.isfree s mptr (n+4) then some (true,mptr)
    else
      let mptr := mptr+ofNat 32 PGSIZE
      if mptr = mend then
        if nwrap+1 = 2 then some (false,mbegin) else scan s n k mbegin (nwrap+1)
      else scan s n k mptr nwrap

def scanBound : Nat := 2^21

/-- What `malloc` does when page number `i` cannot be had. -/
def undo (mptr : Word) : Nat → σ → Option σ
  | 0,s => do
    let (_,s) ← M.sysPageUnmap s mptr
    return s
  | i+1,s => do
    let (_,s) ← M.sysPageUnmap s (mptr+ofNat 32 (PGSIZE*(i+1)))
    undo mptr i s

/-- The loop of `malloc` that allocates pages: `k` are left, the next is number `i`. -/
def allocLoop (ω : Ω) (mptr n : Word) : Nat → Nat → σ → Option (Bool × σ)
  | 0,_,s => some (true,s)
  | k+1,i,s => do
    let cont := if ofNat 32 (PGSIZE*i)+ofNat 32 PGSIZE < n+4 then PTE_CONTINUED else 0
    let (r,s) ← M.sysPageAlloc ω s (mptr+ofNat 32 (PGSIZE*i))
      (PTE_P|||PTE_U|||PTE_W|||cont)
    if r < 0 then do
      let s ← M.undo mptr i s
      return (false,s)
    else allocLoop ω mptr n k (i+1) s

def npages (n : Word) : Nat := ((n+4).toNat+4095)/4096

/-- `malloc` from where it looks for address space. -/
def chunk (ω : Ω) (n mptr : Word) (s : σ) : Option (Word × Heap σ) := do
  let (found,mptr) ← M.scan s n scanBound mptr 0
  if found then do
    let (done,s) ← M.allocLoop ω mptr n (npages n) 0 s
    if done then do
      let s ← M.store s (mptr+ofNat 32 (PGSIZE*npages n)-4) 2
      return (mptr,⟨s,mptr+n⟩)
    else return (0,⟨s,mptr⟩)
  else return (0,⟨s,mptr⟩)

abbrev Fits (mptr n : Word) : Prop := mptr.toNat/PGSIZE = (mptr+n-1+4).toNat/PGSIZE

def malloc (ω : Ω) (n : Word) (h : Heap σ) : Option (Word × Heap σ) :=
  let mptr := if h.mptr = 0 then mbegin else h.mptr
  let n := ROUNDUP n 4
  if MAXMALLOC ≤ n then some (0,⟨h.space,mptr⟩)
  else if mptr.toNat%PGSIZE ≠ 0 then
    if Fits mptr n then do
      let ref := ROUNDUP mptr PGSIZE-4
      let count ← M.load h.space ref
      let s ← M.store h.space ref (count+1)
      return (mptr,⟨s,mptr+n⟩)
    else do
      let s ← M.free mptr h.space
      M.chunk ω n (ROUNDDOWN (mptr+ofNat 32 PGSIZE) PGSIZE) s
  else M.chunk ω n mptr h.space

end PageOps

/-! Addresses. -/

abbrev InArena (p : Nat) : Prop := 32768 ≤ p ∧ p < 65536

def countAt (p : Nat) : Word := ofNat 32 (4096*p+4092)

lemma ROUNDDOWN_toNat (a : Word) (n : Nat) : (ROUNDDOWN a n).toNat = a.toNat-a.toNat%n := by
  have := a.isLt
  have := Nat.mod_le a.toNat n
  rw [ROUNDDOWN,toNat_sub,toNat_ofNat]
  omega

lemma ROUNDUP_toNat {a : Word} {n : Nat} (hn : 0 < n) (h : a.toNat+n ≤ 2^32) :
    (ROUNDUP a n).toNat = a.toNat+n-1-(a.toNat+n-1)%n := by
  have hlt : n < 2^32 ∨ n = 2^32 := by omega
  have hsum : (a+ofNat 32 n-1).toNat = a.toNat+n-1 := by
    rw [toNat_sub,toNat_add,toNat_ofNat,show (1 : Word).toNat = 1 from rfl]
    omega
  rw [ROUNDUP,ROUNDDOWN_toNat,hsum]

lemma ROUNDUP_four {n : Word} (h : n.toNat ≤ 2^32-4) :
    n.toNat ≤ (ROUNDUP n 4).toNat ∧ (ROUNDUP n 4).toNat < n.toNat+4 := by
  rw [ROUNDUP_toNat (by decide) (by omega)]
  omega

lemma ROUNDUP_four_mod (n : Word) : (ROUNDUP n 4).toNat%4 = 0 := by
  rw [ROUNDUP,ROUNDDOWN_toNat]
  omega

variable {c : Word} {p : Nat}

lemma step_toNat (h : c.toNat+4096 < 2^32) : (c+ofNat 32 PGSIZE).toNat = c.toNat+4096 := by
  rw [toNat_add,toNat_ofNat,PGSIZE_eq]
  omega

lemma page_toNat {i : Nat} (h : c.toNat+4096*i < 2^32) :
    (c+ofNat 32 (PGSIZE*i)).toNat = c.toNat+4096*i := by
  rw [toNat_add,toNat_ofNat,PGSIZE_eq]
  omega

lemma countAt_toNat (h : p < 2^20) : (countAt p).toNat = 4096*p+4092 := by
  rw [countAt,toNat_ofNat]
  omega

lemma PPN_countAt (h : p < 2^20) : PPN (countAt p) = p := by
  rw [PPN_eq,countAt_toNat h]
  omega

lemma countAt_of_page (hc : c.toNat = 4096*p) : c+ofNat 32 PGSIZE-4 = countAt p := by
  have := c.isLt
  apply eq_of_toNat_eq
  rw [countAt_toNat (by omega),toNat_sub,toNat_add,toNat_ofNat,
    PGSIZE_eq,show (4 : Word).toNat = 4 from rfl]
  omega

lemma countAt_of_chunk {k : Nat} (hc : c.toNat = 4096*p) (h : p+k < 2^20) :
    c+ofNat 32 (PGSIZE*(k+1))-4 = countAt (p+k) := by
  apply eq_of_toNat_eq
  rw [countAt_toNat h,toNat_sub,toNat_add,toNat_ofNat,PGSIZE_eq,show (4 : Word).toNat = 4 from rfl]
  omega

lemma countAt_of_middle {m : Word} (hm : m.toNat%4096 ≠ 0) (h : m.toNat < 2^31) :
    ROUNDUP m PGSIZE-4 = countAt (PPN m) := by
  apply eq_of_toNat_eq
  rw [PPN_eq,countAt_toNat (by omega),toNat_sub,
    ROUNDUP_toNat (by decide) (by simp only [PGSIZE]; omega),show (4 : Word).toNat = 4 from rfl]
  simp only [PGSIZE]
  omega

lemma PPN_ROUNDDOWN (a : Word) : (ROUNDDOWN a PGSIZE).toNat = 4096*PPN a := by
  rw [ROUNDDOWN_toNat,PPN_eq,PGSIZE_eq]
  omega

end KludgeOS.Malloc
