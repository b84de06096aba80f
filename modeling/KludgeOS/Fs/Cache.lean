import KludgeOS.Kernel

/-!
The file server's block cache and its block bitmap (`inc/fs.h`, `fs/fs.h`, `fs/ide.c`, `fs/fs.c`).
A pointer into the disk map is a block number and the index of a word. A server that panics or
faults has no next state.
-/

namespace KludgeOS
open Function

def E_NO_DISK : Int := 9
def E_MAX_OPEN : Int := 10
def E_NOT_FOUND : Int := 11
def E_BAD_PATH : Int := 12

def BLKSIZE : Nat := 4096
def BLKBITSIZE : Nat := 32768
def NDIRECT : Nat := 10
def NINDIRECT : Nat := 1024
def MAXFILESIZE : Nat := 0x400000
def BLKFILES : Nat := 16
def FS_MAGIC : Word := 0x4A0530AE
def DISKMAP : Nat := 0x10000000
def DISKSIZE : Nat := 0xC0000000
def SECTWORDS : Nat := 128

/-- A page of the disk map with its `PTE_D` bit. -/
structure Cached where
  words : Nat → Word
  dirty : Bool

/-- Word `idx` of block `blk` in the disk map. -/
structure Ptr where
  blk : Nat
  idx : Nat
  deriving DecidableEq

namespace Ptr

def off (p : Ptr) (i : Nat) : Ptr := ⟨p.blk+(p.idx+i)/1024,(p.idx+i)%1024⟩

def addr (p : Ptr) : Word := BitVec.ofNat 32 (DISKMAP+p.blk*BLKSIZE+p.idx*4)

def ofAddr (w : Word) : Option Ptr :=
  if DISKMAP ≤ w.toNat ∧ w.toNat < DISKMAP+DISKSIZE ∧ w.toNat%4 = 0 then
    some ⟨(w.toNat-DISKMAP)/BLKSIZE,w.toNat%BLKSIZE/4⟩
  else none

end Ptr

/-- How a call of `sys_page_alloc` or `ide_read` turns out. `ide_read` fails after it has
transferred some of the eight sectors. -/
inductive Chance where
  | ok : Chance
  | fail : (sectors : Fin 8) → Chance
  deriving DecidableEq

/-- What is worth recording of a run. -/
inductive Note where
  | taken : (b : Nat) → (old : Option Cached) → (disk : Nat → Word) → Note
  | unread : (b sectors : Nat) → (disk : Nat → Word) → Note
  | wild : Note
  | stray : Note

/-- The disk, the cache, how the coming calls turn out, what unset pointers hold, the notes, and
the disk before each write. -/
structure Fs where
  disk : Nat → Nat → Word
  cache : Nat → Option Cached
  chance : List Chance
  junk : List (Option Ptr)
  notes : List Note
  past : List (Nat → Nat → Word) := []

namespace Fs

def note (s : Fs) (n : Note) : Fs := {s with notes := n :: s.notes}

def setCache (s : Fs) (b : Nat) (pg : Cached) : Fs := {s with cache := update s.cache b (some pg)}

def get (s : Fs) (p : Ptr) : Option Word := (s.cache p.blk).map fun pg => pg.words p.idx

def put (s : Fs) (p : Ptr) (w : Word) : Option Fs :=
  (s.cache p.blk).map fun pg =>
    s.setCache p.blk {words := update pg.words p.idx w, dirty := true}

def luck (s : Fs) : Chance × Fs := (s.chance.headD .ok,{s with chance := s.chance.tail})

def nblocks (s : Fs) : Option Word := s.get ⟨1,1⟩

def bitmapAt (i : Nat) : Ptr := ⟨2+i/1024,i%1024⟩

def diskaddr (s : Fs) (blockno : Word) : Option Nat := do
  let n ← s.nblocks
  if n ≤ blockno then none else return blockno.toNat

def blockIsMapped (s : Fs) (blockno : Word) : Option Bool := do
  let b ← s.diskaddr blockno
  return (s.cache b).isSome

def blockIsDirty (s : Fs) (blockno : Word) : Option Bool := do
  let b ← s.diskaddr blockno
  return (s.cache b).any fun pg => pg.dirty

/-- `sys_page_alloc` for the page of block `b`. -/
def sysPageAlloc (s : Fs) (b : Nat) : Int × Fs :=
  match s.luck with
  | (.ok,s) => (0,s.setCache b {words := fun _ => 0, dirty := false})
  | (.fail _,s) => (-E_NO_MEM,s)

def mapBlock (s : Fs) (blockno : Word) : Option (Int × Fs) := do
  if ← s.blockIsMapped blockno then return (0,s)
  else return s.sysPageAlloc blockno.toNat

def readSectors (old disk : Nat → Word) (sectors i : Nat) : Word :=
  if i < sectors*SECTWORDS then disk i else old i

/-- `ide_read` of the whole block to its page. The processor sets `PTE_D` at the first store. -/
def ideRead (s : Fs) (b : Nat) : Option (Int × Fs) := do
  let pg ← s.cache b
  match s.luck with
  | (.ok,s) => return (0,s.setCache b {words := s.disk b, dirty := true})
  | (.fail k,s) =>
    let pg : Cached :=
      {words := readSectors pg.words (s.disk b) k.val, dirty := pg.dirty || decide (0 < k.val)}
    return (-1,(s.setCache b pg).note (.unread b k.val (s.disk b)))

/-- `sys_page_map` of a page onto itself. -/
def remap (s : Fs) (b : Nat) : Option Fs := do
  let pg ← s.cache b
  return s.setCache b {pg with dirty := false}

/-- `read_block` after its two tests. -/
def loadBlock (s : Fs) (b : Nat) : Option (Int × Fs) := do
  if (s.cache b).isSome then return (0,s)
  else
    let (r,s) := s.sysPageAlloc b
    if r < 0 then return (r,s)
    else
      let (r,s) ← s.ideRead b
      if r < 0 then return (r,s)
      else return (0,← s.remap b)

def blockIsFree (s : Fs) (blockno : Word) : Option Bool := do
  let n ← s.nblocks
  if n ≤ blockno then return false
  else
    let w ← s.get (bitmapAt (blockno.toNat/32))
    return w.getLsbD (blockno.toNat%32)

def readBlock (s : Fs) (blockno : Word) : Option (Int × Fs) := do
  let b ← s.diskaddr blockno
  if ← s.blockIsFree blockno then none
  else s.loadBlock b

def writeBlock (s : Fs) (blockno : Word) : Option Fs := do
  let b ← s.diskaddr blockno
  let pg ← s.cache b
  {s with disk := update s.disk b pg.words, past := s.disk :: s.past}.remap b

def bit (j : Nat) : Word := BitVec.twoPow 32 j

def freeBlock (s : Fs) (blockno : Word) : Option Fs := do
  if blockno = 0 then none
  else
    let p := bitmapAt (blockno.toNat/32)
    let w ← s.get p
    s.put p (w|||bit (blockno.toNat%32))

/-- The first of `n` bitmap words from word `i` on that has a bit set. -/
def findWord (s : Fs) : (n i : Nat) → Option (Option Nat)
  | 0,_ => some none
  | n+1,i => do
    let w ← s.get (bitmapAt i)
    if w = 0 then s.findWord n (i+1) else return some i

def lowBit (w : Word) : Nat := ((List.range 32).find? fun j => w.getLsbD j).getD 32

def allocBlockNum (s : Fs) : Option (Int × Fs) := do
  let n ← s.nblocks
  match ← s.findWord (n.toNat/32) 0 with
  | none => return (-E_NO_DISK,s)
  | some i =>
    let w ← s.get (bitmapAt i)
    let j := lowBit w
    let s ← s.put (bitmapAt i) (w&&&~~~bit j)
    return (i*32+j,s)

def allocBlock (s : Fs) : Option (Int × Fs) := do
  let (bno,s) ← s.allocBlockNum
  if bno < 0 then return (bno,s)
  else
    let b := BitVec.ofInt 32 bno
    let old := s.cache b.toNat
    let (r,s) ← s.mapBlock b
    if r < 0 then
      let s ← s.freeBlock b
      return (r,s)
    else
      let s := s.note (.taken b.toNat old (s.disk b.toNat))
      let s ← s.writeBlock (2+BitVec.ofNat 32 (b.toNat/BLKBITSIZE))
      return (bno,s)

/-- `super` and `bitmap` are not set yet, so `read_block` makes no test. -/
def readSuper (s : Fs) : Option Fs := do
  let (r,s) ← s.loadBlock 1
  if r < 0 then none
  else
    let magic ← s.get ⟨1,0⟩
    let n ← s.nblocks
    if magic ≠ FS_MAGIC ∨ n.toNat > DISKSIZE/BLKSIZE then none else return s

/-- The bitmap blocks `2+i`, `2+i+1`, … `bitmap` is set once the first is read. -/
def bitmapRounds (s : Fs) : (n i : Nat) → Option Fs
  | 0,_ => some s
  | n+1,i => do
    let blockno := BitVec.ofNat 32 (2+i)
    let b ← s.diskaddr blockno
    let free ← (if i = 0 then some false else s.blockIsFree blockno)
    if free then none
    else
      let (r,s) ← s.loadBlock b
      if r < 0 then none
      else if ← s.blockIsFree blockno then none
      else s.bitmapRounds n (i+1)

def readBitmap (s : Fs) : Option Fs := do
  let n ← s.nblocks
  let s ← s.bitmapRounds ((n.toNat+BLKBITSIZE-1)/BLKBITSIZE) 0
  if ← s.blockIsFree 0 then none
  else if ← s.blockIsFree 1 then none
  else if n = 0 then none
  else return s

def fsInit (s : Fs) : Option Fs := do
  let s ← s.readSuper
  s.readBitmap

end Fs

end KludgeOS
