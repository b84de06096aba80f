import KludgeOS.Fs.Cache

/-!
Files and directories (the second half of `fs/fs.c`). A `struct File` is 64 words of a block, and
a pointer to it points at the first.
-/

namespace KludgeOS
open BitVec (ofInt ofNat)

def MAXNAMELEN : Nat := 128
def FTYPE_DIR : Word := 1

/-! The fields of a `struct File`. -/

namespace Ptr

def name (f : Ptr) : Ptr := f.off 0
def size (f : Ptr) : Ptr := f.off 32
def type (f : Ptr) : Ptr := f.off 33
def direct (f : Ptr) (j : Nat) : Ptr := f.off (34+j)
def indirect (f : Ptr) : Ptr := f.off 44
def dir (f : Ptr) : Ptr := f.off 45

end Ptr

def rootFile : Ptr := ⟨1,2⟩

def nblocksFor (n : Word) : Word := (n+4095).sdiv 4096

namespace Fs

/-- Returns with `*ppdiskbno`, which is not set on every path. -/
def fileBlockWalk (s : Fs) (f : Ptr) (filebno : Word) (alloc : Bool) :
    Option (Int × Option Ptr × Fs) :=
  if filebno.toNat < NDIRECT then some (0,some (f.direct filebno.toNat),s)
  else if filebno.toNat < NINDIRECT then do
    let ind ← s.get f.indirect
    if ind = 0 then
      if alloc then do
        let (r,s) ← s.allocBlock
        -- The value tested for `< 0` is that of `f->f_indirect`, which is unsigned.
        let s ← s.put f.indirect (ofInt 32 r)
        let b ← s.diskaddr (ofInt 32 r)
        return (0,some ⟨b,filebno.toNat⟩,s)
      else return (-E_NOT_FOUND,none,s)
    else do
      let (r,s) ← s.readBlock ind
      if r < 0 then return (0,none,s) else return (0,some ⟨ind.toNat,filebno.toNat⟩,s)
  else some (-E_INVAL,none,s)

/-- The place `ptr` points at. When `file_block_walk` has not set it, that is whatever the stack
holds. -/
def follow (s : Fs) : Option Ptr → Option (Ptr × Fs)
  | some p => some (p,s)
  | none => do
    let p ← s.junk.headD none
    return (p,{s with junk := s.junk.tail}.note .wild)

/-- Returns with `*diskbno`. -/
def fileMapBlock (s : Fs) (f : Ptr) (filebno : Word) (alloc : Bool) : Option (Int × Word × Fs) := do
  let (r,ptr,s) ← s.fileBlockWalk f filebno alloc
  if r < 0 then return (r,0,s)
  else
    let (p,s) ← s.follow ptr
    let v ← s.get p
    if v = 0 then
      if alloc then
        let (r,s) ← s.allocBlock
        if r < 0 then return (r,0,s)
        else
          let s ← s.put p (ofInt 32 r)
          return (0,ofInt 32 r,s)
      else return (-E_NOT_FOUND,0,s)
    else return (0,v,s)

def fileClearBlock (s : Fs) (f : Ptr) (filebno : Word) : Option (Int × Fs) := do
  let (r,ptr,s) ← s.fileBlockWalk f filebno false
  if r < 0 then return (r,s)
  else
    let (p,s) ← s.follow ptr
    let v ← s.get p
    if v = 0 then return (0,s)
    else
      let s ← s.freeBlock v
      let s ← s.put p 0
      return (0,s)

/-- Returns with the block `*blk` points at. -/
def fileGetBlock (s : Fs) (f : Ptr) (filebno : Word) : Option (Int × Nat × Fs) := do
  let (r,diskbno,s) ← s.fileMapBlock f filebno true
  if r < 0 then return (r,0,s)
  else
    let (r,s) ← s.readBlock diskbno
    return (r,diskbno.toNat,s)

def fileDirty (s : Fs) (f : Ptr) (offset : Word) : Option (Int × Fs) := do
  let (r,b,s) ← s.fileGetBlock f (offset.sdiv 4096)
  if r < 0 then return (r,s)
  else
    let w ← s.get ⟨b,0⟩
    let s ← s.put ⟨b,0⟩ w
    return (0,s)

/-- Byte `k` of a word array. -/
def byteAt (words : Nat → Word) (k : Nat) : Byte :=
  (words (k/4) >>> (8*(k%4))).setWidth 8

/-- `strcmp(f->f_name, name) == 0` for a `name` without a zero byte. -/
def nameIs (words : Nat → Word) (name : List Byte) : Bool :=
  (List.range name.length).all (fun k => byteAt words k == name.getD k 0) &&
    byteAt words name.length == 0

def findEntry (words : Nat → Word) (name : List Byte) : Option Nat :=
  (List.range BLKFILES).find? fun j => nameIs (fun i => words (64*j+i)) name

/-- Blocks `i`, `i+1`, … of `dir` searched for `name`, `n` of them. -/
def dirRounds (s : Fs) (dir : Ptr) (name : List Byte) : (n i : Nat) →
    Option (Int × Option Ptr × Fs)
  | 0,_ => some (-E_NOT_FOUND,none,s)
  | n+1,i => do
    let (r,b,s) ← s.fileGetBlock dir (ofNat 32 i)
    if r < 0 then return (r,none,s)
    else
      let pg ← s.cache b
      match findEntry pg.words name with
      | some j =>
        let f : Ptr := ⟨b,64*j⟩
        let s ← s.put f.dir dir.addr
        return (0,some f,s)
      | none => s.dirRounds dir name n (i+1)

/-- Fails the assertion when the size is not a multiple of `BLKSIZE`. -/
def dirLookup (s : Fs) (dir : Ptr) (name : List Byte) : Option (Int × Option Ptr × Fs) := do
  let size ← s.get dir.size
  if size.toNat%BLKSIZE ≠ 0 then none
  else s.dirRounds dir name (size.sdiv 4096).toNat 0

def slash : Byte := 0x2F

def skipSlash (p : List Byte) : List Byte := p.dropWhile (· == slash)

/-- The loop of `walk_path`, at `f` with `path` left and at most `n` path elements to go. -/
def walkRounds (s : Fs) (f : Ptr) : (n : Nat) → (path : List Byte) → Option (Int × Option Ptr × Fs)
  | 0,_ => some (0,some f,s)
  | n+1,path =>
    if path = [] then some (0,some f,s)
    else
      let name := path.takeWhile (· != slash)
      let path := skipSlash (path.dropWhile (· != slash))
      if MAXNAMELEN ≤ name.length then some (-E_BAD_PATH,none,s)
      else do
        let type ← s.get f.type
        if type ≠ FTYPE_DIR then return (-E_NOT_FOUND,none,s)
        else
          match ← s.dirLookup f name with
          | (r,some g,s) => if r < 0 then return (r,none,s) else s.walkRounds g n path
          | (r,none,s) => return (r,none,s)

/-- Returns with `*pf`; `file_create` alone uses the other results. -/
def walkPath (s : Fs) (path : List Byte) : Option (Int × Option Ptr × Fs) :=
  s.walkRounds rootFile path.length (skipSlash path)

def fileOpen (s : Fs) (path : List Byte) : Option (Int × Option Ptr × Fs) := s.walkPath path

/-- Blocks `bno`, `bno+1`, … of `f` cleared, `n` of them. -/
def clearRounds (s : Fs) (f : Ptr) : (n bno : Nat) → Option Fs
  | 0,_ => some s
  | n+1,bno => do
    let (_,s) ← s.fileClearBlock f (ofNat 32 bno)
    s.clearRounds f n (bno+1)

def fileTruncateBlocks (s : Fs) (f : Ptr) (newsize : Word) : Option Fs := do
  let size ← s.get f.size
  let old := (nblocksFor size).toNat
  let new := (nblocksFor newsize).toNat
  let s ← s.clearRounds f (old-new) new
  let ind ← s.get f.indirect
  if new ≤ NDIRECT ∧ ind ≠ 0 then
    let s ← s.freeBlock ind
    s.put f.indirect 0
  else return s

/-- Blocks `i`, `i+1`, … of `f` written back if dirty, `n` of them. -/
def flushRounds (s : Fs) (f : Ptr) : (n i : Nat) → Option Fs
  | 0,_ => some s
  | n+1,i => do
    let (r,diskbno,s) ← s.fileMapBlock f (ofNat 32 i) false
    if r < 0 then s.flushRounds f n (i+1)
    else if ← s.blockIsDirty diskbno then
      let s ← s.writeBlock diskbno
      s.flushRounds f n (i+1)
    else s.flushRounds f n (i+1)

def fileFlush (s : Fs) (f : Ptr) : Option Fs := do
  let size ← s.get f.size
  s.flushRounds f (nblocksFor size).toInt.toNat 0

/-- `if (f->f_dir) file_flush(f->f_dir)`. -/
def flushDir (s : Fs) (f : Ptr) : Option Fs := do
  let dir ← s.get f.dir
  if dir = 0 then return s
  else
    let d ← Ptr.ofAddr dir
    s.fileFlush d

def fileSetSize (s : Fs) (f : Ptr) (newsize : Word) : Option Fs := do
  let size ← s.get f.size
  let s ← (if newsize.slt size then s.fileTruncateBlocks f newsize else some s)
  let s ← s.put f.size newsize
  s.flushDir f

/-- Blocks `i`, `i+1`, … written back if dirty, `n` of them. -/
def syncRounds (s : Fs) : (n i : Nat) → Option Fs
  | 0,_ => some s
  | n+1,i => do
    if ← s.blockIsDirty (ofNat 32 i) then
      let s ← s.writeBlock (ofNat 32 i)
      s.syncRounds n (i+1)
    else s.syncRounds n (i+1)

def fsSync (s : Fs) : Option Fs := do
  let n ← s.nblocks
  s.syncRounds n.toNat 0

def fileClose (s : Fs) (f : Ptr) : Option Fs := do
  let s ← s.fileFlush f
  s.flushDir f

def fileRemove (s : Fs) (path : List Byte) : Option (Int × Fs) := do
  match ← s.walkPath path with
  | (r,none,s) => return (r,s)
  | (_,some f,s) =>
    let s ← s.fileTruncateBlocks f 0
    let w ← s.get f.name
    let s ← s.put f.name (w&&&~~~0xFF)
    let s ← s.put f.size 0
    let s ← s.flushDir f
    return (0,s)

end Fs

end KludgeOS
