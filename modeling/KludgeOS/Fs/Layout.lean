import KludgeOS.Fs.Format
import KludgeOS.Fs.Names

/-!
What `fs/fsformat.c` does to the image, without its cache. The image is always
taken as if it were finished now: the bitmap has the blocks given out so far.
-/

namespace KludgeOS
open BitVec (ofNat)
open Function BitVec

structure Layout where
  mem : Mem
  next : Nat

/-- The bitmap of a disk of `n` blocks of which those before `next` are in use. -/
def bitmapOf (next n i : Nat) : Word :=
  if i < 1024 then (0xFFFFFFFF : Word) <<< (next-32*i)&&&~~~((0xFFFFFFFF : Word) <<< (n-32*i))
  else 0xFFFFFFFF

/-- The superblock that `opendisk` makes. -/
def superOf (n : Nat) : Nat → Word :=
  let words := update (fun _ => 0) 0 FS_MAGIC
  let words := update words 1 (ofNat 32 n)
  strcpy (update words 35 FTYPE_DIR) 8 [Fs.slash]

namespace Layout

def start (n : Nat) : Layout :=
  { mem := fun b i => if b = 1 then (if i < 66 then superOf n i else 0)
      else if b = 2 then bitmapOf 3 n i else 0
    next := 3 }

def put (v : Layout) (p : Ptr) (w : Word) : Layout := {v with mem := v.mem.put p w}

def fill (v : Layout) (b : Nat) (c : Nat → Word) : Layout := {v with mem := v.mem.fill b c}

def fresh (v : Layout) : Option (Nat × Layout) :=
  if v.mem.nblocks ≤ v.next then none
  else some (v.next,⟨(v.mem.useBit v.next).fill v.next fun _ => 0,v.next+1⟩)

def storeblk (v : Layout) (f : Ptr) (b nblk : Nat) : Option Layout :=
  if nblk < NDIRECT then some (v.put (f.direct nblk) (ofNat 32 b))
  else if nblk < NINDIRECT then
    if v.mem.word f.indirect = 0 then do
      let (i,v) ← v.fresh
      return (v.put f.indirect (ofNat 32 i)).put ⟨i,nblk⟩ (ofNat 32 b)
    else some (v.put ⟨(v.mem.word f.indirect).toNat,nblk⟩ (ofNat 32 b))
  else none

def gotit (v : Layout) (f : Ptr) (name : List Byte) : Ptr × Layout :=
  (f,v.fill f.blk (strcpy (v.mem f.blk) (4*f.idx) name))

def newDirb (v : Layout) (d : Ptr) (nblk : Nat) (name : List Byte) : Option (Ptr × Layout) := do
  let (b,v) ← v.fresh
  let v ← v.storeblk d b nblk
  let v := v.put d.size (v.mem.word d.size+4096)
  if ofNat 32 ((nblk+1)*BLKSIZE) ≠ v.mem.word d.size then none
  else return v.gotit ⟨b,0⟩ name

def allocfile (v : Layout) (d : Ptr) (name : List Byte) : Option (Ptr × Layout) :=
  match ((v.mem.word d.size+4095)/4096).toNat with
  | 0 => v.newDirb d 0 name
  | nblk+1 =>
    let b := (v.mem.blockOf d nblk).toNat
    match Fmt.freeEntry (v.mem b) with
    | some k => some (v.gotit ⟨b,64*k⟩ name)
    | none => v.newDirb d (nblk+1) name

def writeRounds (f : Ptr) (data : List Byte) : (left : Nat) → Layout → (nblk : Nat) →
    Option (Nat × Nat × Layout)
  | left,v,nblk =>
    let chunk := (data.drop (nblk*BLKSIZE)).take BLKSIZE
    if v.mem.nblocks ≤ v.next then none
    else if chunk.length = 0 then some (nblk,0,v.fill v.next fun _ => 0)
    else do
      let (b,v) ← v.fresh
      let v ← (v.fill b (packed chunk)).storeblk f b nblk
      if chunk.length < BLKSIZE then return (nblk,chunk.length,v)
      else
        match left with
        | 0 => none
        | left+1 => writeRounds f data left v (nblk+1)

def writefile (v : Layout) (d : Ptr) (name data : List Byte) : Option Layout := do
  let (f,v) ← v.allocfile d name
  let v := v.put f.type FTYPE_REG
  let (nblk,n,v) ← writeRounds f data (data.length/BLKSIZE) v 0
  return v.put f.size (ofNat 32 (nblk*BLKSIZE+n))

def writedirectory (v : Layout) (d : Ptr) : Forest → Option Layout
  | .nil => some v
  | .reg name data rest => do
    let v ← v.writefile d name data
    v.writedirectory d rest
  | .dir name sub rest =>
    if Fmt.leftOut name then v.writedirectory d rest
    else do
      let (g,v) ← v.allocfile d name
      let v := v.put g.type FTYPE_DIR
      let v := v.put g.size 0
      let v ← v.writedirectory g sub
      v.writedirectory d rest
  | .other _ rest => v.writedirectory d rest

def writeFiles (v : Layout) : (l : List (List Byte × List Byte)) → Option Layout
  | [] => some v
  | (path,data) :: l => do
    let v ← v.writefile rootFile (Fmt.basename path) data
    v.writeFiles l

end Layout

end KludgeOS
