import KludgeOS.Fs.File

/-!
`fs/fsformat.c`, the program that makes a disk image. It works on the image through a cache of 16
blocks. A run that aborts has no result; the calls of the host succeed.
-/

namespace KludgeOS
open Function (update)
open BitVec (ofNat)
open Fs

def FTYPE_REG : Word := 0

def ofBytes (bytes : Nat → Byte) (i : Nat) : Word :=
  (bytes (4*i+3) ++ bytes (4*i+2)) ++ (bytes (4*i+1) ++ bytes (4*i))

/-- `strcpy` of `name` to byte `k` of a word array. -/
def strcpy (words : Nat → Word) (k : Nat) (name : List Byte) : Nat → Word :=
  ofBytes fun j => if k ≤ j ∧ j ≤ k+name.length then name.getD (j-k) 0 else byteAt words j

def packed (data : List Byte) : Nat → Word := ofBytes fun j => data.getD j 0

/-- The four bytes of `y` stored in memory order. -/
def swizzle (y : Word) : Word :=
  (y&&&0xFF)|||((y >>> 8&&&0xFF) <<< 8)|||((y >>> 16&&&0xFF) <<< 16) |||
    ((y >>> 24&&&0xFF) <<< 24)

/-- `swizzlefile` of the file at word `f`. -/
def swizzlefile (words : Nat → Word) (f : Nat) : Nat → Word :=
  if byteAt words (4*f) = 0 then words
  else fun i => if f+32 ≤ i ∧ i < f+45 then swizzle (words i) else words i

inductive BlkType where
  | super | dir | file | bits
  deriving DecidableEq

def swizzleblock (type : BlkType) (words : Nat → Word) : Nat → Word :=
  match type with
  | .super => swizzlefile (fun i => if i < 2 then swizzle (words i) else words i) 2
  | .dir => (List.range BLKFILES).foldl (fun w i => swizzlefile w (64*i)) words
  | .bits => fun i => if i < 1024 then swizzle (words i) else words i
  | .file => words

structure Buf where
  busy : Bool
  bno : Nat
  used : Nat
  words : Nat → Word
  type : BlkType

def NCACHE : Nat := 16

/-- The image, the cache, the clock of `getblk` and the other variables. `super` has the words of
the superblock. -/
structure Fmt where
  nblocks : Nat
  disk : Mem
  cache : Nat → Buf
  t : Nat
  nbitblock : Nat
  nextb : Nat
  super : Nat → Word

/-- What a `struct File *` points at: `super.s_root`, or a file in a block of the cache. -/
inductive FileAt where
  | root : FileAt
  | entry : (b k : Nat) → FileAt
  deriving DecidableEq

namespace Fmt

def setBuf (s : Fmt) (b : Nat) (x : Buf) : Fmt := {s with cache := update s.cache b x}

/-- A store to the buffer of block `b` of the cache. -/
def setWords (s : Fmt) (b : Nat) (words : Nat → Word) : Fmt :=
  s.setBuf b {s.cache b with words := words}

def fget (s : Fmt) (f : FileAt) (i : Nat) : Word :=
  match f with
  | .root => s.super (2+i)
  | .entry b k => (s.cache b).words (64*k+i)

def fput (s : Fmt) (f : FileAt) (i : Nat) (w : Word) : Fmt :=
  match f with
  | .root => {s with super := update s.super (2+i) w}
  | .entry b k => s.setWords b (update (s.cache b).words (64*k+i) w)

def flushb (s : Fmt) (b : Nat) : Fmt :=
  let words := swizzleblock (s.cache b).type (s.cache b).words
  {s with disk := s.disk.fill (s.cache b).bno words}.setWords b
    (swizzleblock (s.cache b).type words)

/-- Blocks `i`, `i+1`, … of the cache searched, `n` of them, for `bno` or the one least used. -/
def search (s : Fmt) (bno : Nat) : (n i : Nat) → (least : Option Nat) → Nat ⊕ Option Nat
  | 0,_,least => .inr least
  | n+1,i,least =>
    if (s.cache i).bno = bno then .inl i
    else if !(s.cache i).busy && least.all fun l => (s.cache i).used < (s.cache l).used then
      s.search bno n (i+1) (some i)
    else s.search bno n (i+1) least

/-- `getblk` from `out` on. -/
def claim (s : Fmt) (b : Nat) (clr : Bool) (type : BlkType) : Option (Nat × Fmt) :=
  if (s.cache b).busy then none
  else
    let words := if clr then fun _ => 0 else (s.cache b).words
    some (b,{s with t := s.t+1}.setBuf b
      {busy := true, bno := (s.cache b).bno, used := s.t+1, words := words, type := type})

def getblk (s : Fmt) (bno : Nat) (clr : Bool) (type : BlkType) : Option (Nat × Fmt) :=
  if s.nblocks ≤ bno then none
  else
    match s.search bno NCACHE 0 none with
    | .inl b => s.claim b clr type
    | .inr none => none
    | .inr (some b) =>
      let s := if (s.cache b).used = 0 then s else s.flushb b
      let words := if clr then s.disk bno else swizzleblock (s.cache b).type (s.disk bno)
      (s.setBuf b {s.cache b with bno := bno, words := words}).claim b clr type

def putblk (s : Fmt) (b : Nat) : Fmt := s.setBuf b {s.cache b with busy := false}

def nextblk (s : Fmt) (type : BlkType) : Option (Nat × Fmt) :=
  {s with nextb := s.nextb+1}.getblk s.nextb true type

/-- The bitmap blocks `2+i`, `2+i+1`, … are set to all ones, `n` of them. -/
def bitRounds (s : Fmt) : (n i : Nat) → Option Fmt
  | 0,_ => some s
  | n+1,i => do
    let (b,s) ← s.getblk (2+i) false .bits
    let s := s.setWords b fun _ => 0xFFFFFFFF
    (s.putblk b).bitRounds n (i+1)

def init (nblocks : Nat) : Fmt :=
  { nblocks := nblocks, disk := fun _ _ => 0
    cache := fun _ => {busy := false, bno := 0, used := 0, words := fun _ => 0, type := .super}
    t := 1, nbitblock := 0, nextb := 0, super := fun _ => 0 }

def opendisk (nblocks : Nat) : Option Fmt := do
  let nbitblock := (nblocks+BLKBITSIZE-1)/BLKBITSIZE
  let s ← {init nblocks with nbitblock := nbitblock}.bitRounds nbitblock 0
  let s := {s with nextb := 2+nbitblock}
  let s := {s with super := update s.super 0 FS_MAGIC}
  let s := {s with super := update s.super 1 (ofNat 32 nblocks)}
  let s := s.fput .root 33 FTYPE_DIR
  return {s with super := strcpy s.super 8 [slash]}

/-- `storeblk` of block `b` of the cache. -/
def storeblk (s : Fmt) (f : FileAt) (b nblk : Nat) : Option Fmt :=
  if nblk < NDIRECT then some (s.fput f (34+nblk) (ofNat 32 (s.cache b).bno))
  else if nblk < NINDIRECT then do
    let (i,s) ← (if s.fget f 44 = 0 then do
        let (i,s) ← s.nextblk .bits
        return (i,s.fput f 44 (ofNat 32 (s.cache i).bno))
      else s.getblk (s.fget f 44).toNat false .bits)
    let s := s.setWords i
      (update (s.cache i).words nblk (ofNat 32 (s.cache b).bno))
    return s.putblk i
  else none

def freeEntry (words : Nat → Word) : Option Nat :=
  (List.range BLKFILES).find? fun k => byteAt words (256*k) == 0

/-- `allocfile` from `gotit` on. -/
def gotit (s : Fmt) (b k : Nat) (name : List Byte) : FileAt × Nat × Fmt :=
  (.entry b k,b,s.setWords b (strcpy (s.cache b).words (256*k) name))

/-- `allocfile` from `new_dirb` on. The directory gets its block `nblk`. -/
def newDirb (s : Fmt) (dirf : FileAt) (nblk : Nat) (name : List Byte) :
    Option (FileAt × Nat × Fmt) := do
  let (b,s) ← s.nextblk .dir
  let s ← s.storeblk dirf b nblk
  let s := s.fput dirf 32 (s.fget dirf 32+4096)
  if ofNat 32 ((nblk+1)*BLKSIZE) ≠ s.fget dirf 32 then none
  else return s.gotit b 0 name

def allocfile (s : Fmt) (dirf : FileAt) (name : List Byte) : Option (FileAt × Nat × Fmt) :=
  match ((s.fget dirf 32+4095)/4096).toNat with
  | 0 => s.newDirb dirf 0 name
  | nblk+1 => do
    let (b,s) ← (if NDIRECT ≤ nblk then do
        let (i,s) ← s.getblk (s.fget dirf 44).toNat false .bits
        let (b,s) ← s.getblk ((s.cache i).words nblk).toNat false .dir
        return (b,s.putblk i)
      else s.getblk (s.fget dirf (34+nblk)).toNat false .dir)
    match freeEntry (s.cache b).words with
    | some k => return s.gotit b k name
    | none => (s.putblk b).newDirb dirf (nblk+1) name

/-- The loop of `writefile`, from block `nblk` of `data` on and with at most `left` further blocks.
Returns with `nblk` and `n`. -/
def writeRounds (f : FileAt) (data : List Byte) : (left : Nat) → Fmt → (nblk : Nat) →
    Option (Nat × Nat × Fmt)
  | left,s,nblk => do
    let (b,s) ← s.getblk s.nextb true .file
    let chunk := (data.drop (nblk*BLKSIZE)).take BLKSIZE
    let s := s.setWords b (packed chunk)
    if chunk.length = 0 then return (nblk,0,s.putblk b)
    else
      let s ← {s with nextb := s.nextb+1}.storeblk f b nblk
      let s := s.putblk b
      if chunk.length < BLKSIZE then return (nblk,chunk.length,s)
      else
        match left with
        | 0 => none
        | left+1 => writeRounds f data left s (nblk+1)

def basename (path : List Byte) : List Byte :=
  (path.reverse.takeWhile (· != slash)).reverse

def writefile (s : Fmt) (dirf : FileAt) (path data : List Byte) : Option Fmt := do
  let (f,dirb,s) ← s.allocfile dirf (basename path)
  let s := s.fput f 33 FTYPE_REG
  let (nblk,n,s) ← writeRounds f data (data.length/BLKSIZE) s 0
  let s := s.fput f 32 (ofNat 32 (nblk*BLKSIZE+n))
  return s.putblk dirb

end Fmt

/-- What `readdir` returns for a directory: files, directories with what it returns for them, and
other entries. -/
inductive Forest where
  | nil : Forest
  | reg : (name data : List Byte) → (rest : Forest) → Forest
  | dir : (name : List Byte) → (sub rest : Forest) → Forest
  | other : (name : List Byte) → (rest : Forest) → Forest

namespace Fmt

/-- The directories `.`, `..` and `CVS` are left out. -/
def leftOut (name : List Byte) : Bool :=
  !((1 < name.length || name.getD 0 0 != 0x2E) &&
    (2 < name.length || name.getD 0 0 != 0x2E || name.getD 1 0 != 0x2E) &&
    (3 < name.length || name.getD 0 0 != 0x43 || name.getD 1 0 != 0x56 || name.getD 2 0 != 0x53))

/-- `pathbuf` up to the name of an entry. -/
def withSlash (path : List Byte) : List Byte :=
  if path.getLast? = some slash then path else path++[slash]

/-- The loop of `writedirectory` for the entries of `dirf`. -/
def writedirectory (s : Fmt) (dirf : FileAt) (pathbuf : List Byte) : Forest → Option Fmt
  | .nil => some s
  | .reg name data rest => do
    let s ← s.writefile dirf (pathbuf++name) data
    s.writedirectory dirf pathbuf rest
  | .dir name sub rest =>
    if leftOut name then s.writedirectory dirf pathbuf rest
    else do
      let (d,dirb,s) ← s.allocfile dirf (basename (pathbuf++name))
      let s := s.fput d 33 FTYPE_DIR
      let s := s.fput d 32 0
      let s ← s.writedirectory d (withSlash (pathbuf++name)) sub
      (s.putblk dirb).writedirectory dirf pathbuf rest
  | .other _ rest => s.writedirectory dirf pathbuf rest

/-- The bits of blocks `i`, `i+1`, … are cleared in the bitmap, `n` of them. -/
def useRounds (s : Fmt) : (n i : Nat) → Option Fmt
  | 0,_ => some s
  | n+1,i => do
    let (b,s) ← s.getblk (2+i/BLKBITSIZE) false .bits
    let j := i%BLKBITSIZE/32
    let s := s.setWords b
      (update (s.cache b).words j ((s.cache b).words j&&&~~~bit (i%32)))
    (s.putblk b).useRounds n (i+1)

/-- Bits `i`, `i+1`, … cleared, `n` of them. -/
def clearBits (words : Nat → Word) : (n i : Nat) → Nat → Word
  | 0,_ => words
  | n+1,i => clearBits (update words (i/32) (words (i/32)&&&~~~bit (i%32))) n (i+1)

def finishfs (s : Fmt) : Option Fmt := do
  let s ← s.useRounds s.nextb 0
  let s ← (if s.nblocks ≠ s.nbitblock*BLKBITSIZE then do
      let (b,s) ← s.getblk (2+s.nbitblock-1) false .bits
      let from_ := s.nblocks%BLKBITSIZE
      let s := s.setWords b (clearBits (s.cache b).words (BLKBITSIZE-from_) from_)
      return s.putblk b
    else some s)
  let (b,s) ← s.getblk 1 true .super
  let s := s.setWords b fun i => if i < 66 then s.super i else 0
  return s.putblk b

/-- Blocks `i`, `i+1`, … of the cache are written, `n` of them. -/
def flushRounds (s : Fmt) : (n i : Nat) → Fmt
  | 0,_ => s
  | n+1,i => (if (s.cache i).used = 0 then s else s.flushb i).flushRounds n (i+1)

def flushdisk (s : Fmt) : Fmt := s.flushRounds NCACHE 0

end Fmt

/-- The arguments after the number of blocks: files with their contents, or `-r` and a directory. -/
inductive FmtArgs where
  | files : (l : List (List Byte × List Byte)) → FmtArgs
  | tree : (path : List Byte) → (entries : Forest) → FmtArgs

namespace Fmt

def writeFiles (s : Fmt) : (l : List (List Byte × List Byte)) → Option Fmt
  | [] => some s
  | (path,data) :: l => do
    let s ← s.writefile .root path data
    s.writeFiles l

/-- The files are written. Without an argument `strcmp` is called with a null pointer. -/
def writeArgs (s : Fmt) : FmtArgs → Option Fmt
  | .files [] => none
  | .files l => s.writeFiles l
  | .tree path entries => s.writedirectory .root (withSlash path) entries

/-- `main`, with the value of `strtol`. Returns the image. -/
def main (n : Int) (args : FmtArgs) : Option Mem :=
  let nblocks := (BitVec.ofInt 32 n).toNat
  if nblocks < 2 ∨ 1024 < nblocks then none
  else do
    let s ← opendisk nblocks
    let s ← s.writeArgs args
    let s ← s.finishfs
    return s.flushdisk.disk

end Fmt

end KludgeOS
