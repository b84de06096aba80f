import KludgeOS.Icode
import KludgeOS.Fs.Cache

/-!
`spawn` (`lib/spawn.c`): the address space it builds for a child from a program file. Only the
calls that succeed are followed.
-/

namespace KludgeOS
open X86 List
open BitVec (ofNat toNat_sub toNat_add toNat_ofNat lt_def le_def)
open Option Function

def ELF_PROG_FLAG_WRITE : Word := 2

/-- An open program file, mapped at `fd2data(fd)`: `page k` is the page of the parent that
many pages from there. -/
structure ProgFile where
  fSize : Word
  page : Nat → Option (Nat → Byte)
  fits : fSize.toNat ≤ MAXFILESIZE
  mapped : ∀ k, 4096*k < fSize.toNat → (page k).isSome

/-- The byte at offset `o` from `fd2data(fd)`. -/
def ProgFile.byte (f : ProgFile) : ByteMem := fun o =>
  match f.page (PPN o) with
  | some p => p (o.toNat%PGSIZE)
  | none => 0

/-- `file_read`: the bytes it copies. -/
def ProgFile.fileRead (f : ProgFile) (n offset : Word) : List Byte :=
  if f.fSize < offset then []
  else
    let n := if f.fSize < offset+n then f.fSize-offset else n
    (range n.toNat).map fun i => f.byte (offset+ofNat 32 i)

/-- `read_map`, and `sys_page_map` of the page it finds: that wants an aligned address. -/
def ProgFile.readMap (f : ProgFile) (offset : Word) : Option (Nat → Byte) :=
  if (MAXFILESIZE : Int) ≤ offset.toInt then none
  else if offset.toNat%PGSIZE ≠ 0 then none
  else f.page (PPN offset)

structure ChildPage where
  bytes : Nat → Byte
  perm : Word

abbrev ChildSpace := Nat → Option ChildPage

namespace Proghdr

variable (ph : Proghdr)

def perm : Word :=
  if ph.pFlags&&&ELF_PROG_FLAG_WRITE ≠ 0 then PTE_P|||PTE_U|||PTE_W else PTE_P|||PTE_U

def pgoff : Word := ph.pVa&&&0xFFF

/-! What `map_segment` makes of its arguments first. -/

def va0 : Word := ph.pVa-ph.pgoff
def memsz0 : Word := ph.pMemsz+ph.pgoff
def filesz0 : Word := ph.pFilesz+ph.pgoff
def fileoffset0 : Word := ph.pOffset-ph.pgoff

def rounds : Nat := (ph.memsz0.toNat+4095)/4096

/-- The page round `k` maps: blank, copied from the file, or the file's own. -/
def segPage (f : ProgFile) (ph : Proghdr) (k : Nat) : Option ChildPage :=
  let i := ofNat 32 (PGSIZE*k)
  if ph.filesz0 ≤ i then some ⟨fun _ => 0,ph.perm⟩
  else if ph.perm&&&PTE_W ≠ 0 then
    let n := if ph.filesz0-i < ofNat 32 PGSIZE then ph.filesz0-i else ofNat 32 PGSIZE
    some ⟨fun o => (f.fileRead n (ph.fileoffset0+i)).getD o 0,ph.perm⟩
  else (f.readMap (ph.fileoffset0+i)).map fun p => ⟨p,ph.perm⟩

/-- The loop of `map_segment`: `n` rounds are left, the next is number `k`. -/
def mapLoop (f : ProgFile) (ph : Proghdr) : Nat → Nat → ChildSpace → Option ChildSpace
  | 0,_,c => some c
  | n+1,k,c => do
    let p ← segPage f ph k
    let va := ph.va0+ofNat 32 (PGSIZE*k)
    if va < UTOP then mapLoop f ph n (k+1) (update c (PPN va) (some p)) else none

def mapSegment (f : ProgFile) (ph : Proghdr) (c : ChildSpace) : Option ChildSpace :=
  mapLoop f ph ph.rounds 0 c

end Proghdr

/-- The loop of `spawn` over the program headers: how many it reads, and the address space. -/
def spawnLoop (f : ProgFile) : List Proghdr → ChildSpace → Nat × Option ChildSpace
  | [],c => (0,some c)
  | ph :: l,c =>
    if ph.pType ≠ ELF_PROG_LOAD then
      let (n,r) := spawnLoop f l c
      (n+1,r)
    else
      match ph.mapSegment f c with
      | none => (1,none)
      | some c =>
        let (n,r) := spawnLoop f l c
        (n+1,r)

structure SpawnCall where
  file : ProgFile
  /-- The stack of the parent, from `elf_buf` on: what lies beyond the buffer. -/
  beyond : ByteMem
  args : Option (Nat → Byte)
  shared : ChildSpace
  limit : Nat

def SIZEOF_ELF_BUF : Nat := 512

namespace SpawnCall

variable (x : SpawnCall)

def elfBuf : ByteMem := fun o =>
  if o.toNat < SIZEOF_ELF_BUF then x.file.byte o else x.beyond o

def copyShared (c : ChildSpace) : ChildSpace := fun n =>
  if n < x.limit ∧ n < NUPAGE then (x.shared n).or (c n) else c n

/-- The child with its stack, as `init_stack` leaves it. -/
def stackSpace : ChildSpace := fun n =>
  if n = PPN (USTACKTOP-ofNat 32 PGSIZE) then
    x.args.map fun stack => ⟨stack,PTE_P|||PTE_U|||PTE_W⟩
  else none

/-- `spawn`: the number of program headers it reads, and the child's address space. -/
def spawn : Nat × Option ChildSpace :=
  if (x.file.fileRead (ofNat 32 SIZEOF_ELF_BUF) 0).length ≠ SIZEOF_ELF_BUF ∨
      eMagic x.elfBuf ≠ ELF_MAGIC then (0,none)
  else if x.args.isNone then (0,none)
  else
    let (n,r) := spawnLoop x.file (proghdrs x.elfBuf) x.stackSpace
    (n,r.map x.copyShared)

def fileHdr (i : Nat) : Proghdr :=
  proghdrAt x.file.byte (ePhoff x.file.byte+ofNat 32 (SIZEOF_PROGHDR*i))

/-- Header `i` of the file describes a segment to load. -/
def SegAt (i : Nat) : Prop :=
  i < (ePhnum x.file.byte).toNat ∧
  (ePhoff x.file.byte).toNat+SIZEOF_PROGHDR*(i+1) ≤ x.file.fSize.toNat ∧
  (x.fileHdr i).pType = ELF_PROG_LOAD

structure SegsOk : Prop where
  sizes : ∀ i, x.SegAt i → (x.fileHdr i).pFilesz.toNat ≤ (x.fileHdr i).pMemsz.toNat
  inside : ∀ i, x.SegAt i →
    (x.fileHdr i).pOffset.toNat+(x.fileHdr i).pFilesz.toNat ≤ x.file.fSize.toNat
  apart : ∀ i j, x.SegAt i → x.SegAt j → i ≠ j → ∀ a, (x.fileHdr i).Holds a → ¬(x.fileHdr j).Holds a

/-- Page `p` is right for address `a` of a segment: the byte, and whether it can be written. -/
def PageRight (ph : Proghdr) (a : Word) (p : ChildPage) : Prop :=
  p.bytes (a.toNat%PGSIZE) = ph.byte x.file.byte a ∧
  (p.perm&&&PTE_W ≠ 0 ↔ ph.pFlags&&&ELF_PROG_FLAG_WRITE ≠ 0)

/-- `spawn` builds the image and reads no program header outside its buffer. -/
structure Sound : Prop where
  image : x.SegsOk → ∀ c, x.spawn.2 = some c → ∀ i, x.SegAt i → ∀ a, (x.fileHdr i).Holds a →
    ∃ p, c (PPN a) = some p ∧ x.PageRight (x.fileHdr i) a p
  buffer : ∀ i < x.spawn.1, (ePhoff x.elfBuf).toNat+SIZEOF_PROGHDR*(i+1) ≤ SIZEOF_ELF_BUF

end SpawnCall

/-! What the loops do, in closed form. -/

namespace Proghdr

def Maps (ph : Proghdr) (n : Nat) : Prop := PPN ph.va0 ≤ n ∧ n < PPN ph.va0+ph.rounds

instance (ph : Proghdr) (n : Nat) : Decidable (ph.Maps n) :=
  inferInstanceAs (Decidable (PPN ph.va0 ≤ n ∧ n < PPN ph.va0+ph.rounds))

end Proghdr

/-- The last segment that maps page `n`. -/
def lastSeg (l : List Proghdr) (n : Nat) : Option Proghdr :=
  l.reverse.find? fun ph => ph.pType = ELF_PROG_LOAD ∧ ph.Maps n

namespace SpawnCall

variable (x : SpawnCall)

end SpawnCall

section segment

variable {f : ProgFile} {ph : Proghdr}

lemma pgoff_toNat : ph.pgoff.toNat = ph.pVa.toNat%4096 := by
  rw [Proghdr.pgoff,BitVec.toNat_and,show (0xFFF : Word).toNat = 2^12-1 from rfl,
    Nat.and_two_pow_sub_one_eq_mod]

lemma va0_toNat : ph.va0.toNat = ph.pVa.toNat-ph.pVa.toNat%4096 := by
  have := ph.pVa.isLt
  rw [Proghdr.va0,toNat_sub,pgoff_toNat]
  omega

end segment

section headers

variable {f : ProgFile}

end headers

section spawn

variable {x : SpawnCall}

lemma fileRead_inside {f : ProgFile} {n offset : Word} (h : offset.toNat+n.toNat ≤ f.fSize.toNat)
    : f.fileRead n offset = (range n.toNat).map fun i => f.byte (offset+ofNat 32 i) := by
  have hs := f.fSize.isLt
  have h1 : ¬f.fSize < offset := by
    rw [lt_def]
    omega
  have h2 : ¬f.fSize < offset+n := by
    rw [lt_def,toNat_add]
    omega
  simp only [ProgFile.fileRead,if_neg h1,if_neg h2]

end spawn

section clean

variable {f : ProgFile} {ph : Proghdr} {a : Word}

/-- A segment that `map_segment` puts right. -/
structure Proghdr.Clean (f : ProgFile) (ph : Proghdr) : Prop where
  sizes : ph.pFilesz.toNat ≤ ph.pMemsz.toNat
  inside : ph.pOffset.toNat+ph.pFilesz.toNat ≤ f.fSize.toNat
  length : ph.pVa.toNat%4096+ph.pMemsz.toNat < 2^32
  offset : ph.pVa.toNat%4096 ≤ ph.pOffset.toNat
  aligned : ph.perm&&&PTE_W = 0 → ph.pOffset.toNat%4096 = ph.pVa.toNat%4096
  tail : ph.perm&&&PTE_W = 0 → ∀ a, ph.Holds a → ph.pFilesz.toNat ≤ a.toNat-ph.pVa.toNat →
    4096*((a.toNat-ph.va0.toNat)/4096) < ph.pVa.toNat%4096+ph.pFilesz.toNat →
    f.byte (ph.pOffset+(a-ph.pVa)) = 0

lemma Proghdr.Holds.index (h : ph.Holds a)
    : PPN a-PPN ph.va0 = (a.toNat-ph.va0.toNat)/4096 ∧ a.toNat%4096 = (a.toNat-ph.va0.toNat)%4096 ∧
    a.toNat-ph.va0.toNat = a.toNat-ph.pVa.toNat+ph.pVa.toNat%4096 := by
  have := h.1
  rw [PPN_eq,PPN_eq,va0_toNat]
  omega

lemma Proghdr.Clean.filesz0 (h : ph.Clean f) :
    ph.filesz0.toNat = ph.pFilesz.toNat+ph.pVa.toNat%4096 := by
  have := h.sizes
  have := h.length
  rw [Proghdr.filesz0,toNat_add,pgoff_toNat]
  omega

lemma Proghdr.Clean.fileoffset0 (h : ph.Clean f) :
    ph.fileoffset0.toNat = ph.pOffset.toNat-ph.pVa.toNat%4096 := by
  have := h.offset
  have := ph.pOffset.isLt
  rw [Proghdr.fileoffset0,toNat_sub,pgoff_toNat]
  omega

variable {k o : Nat}

lemma Proghdr.Clean.file_addr (h : ph.Clean f) (ha : ph.Holds a)
    (hk : 4096*k+o = a.toNat-ph.va0.toNat) :
    ph.fileoffset0+ofNat 32 (PGSIZE*k)+ofNat 32 o = ph.pOffset+(a-ph.pVa) := by
  apply BitVec.eq_of_toNat_eq
  have hi := ha.index.2.2
  have hoff := h.offset
  have hlt := a.isLt
  rw [hi] at hk
  simp only [toNat_add,h.fileoffset0,ha.sub,toNat_ofNat,PGSIZE]
  omega

section

variable (h : ph.Clean f) (hk : 4096*k < ph.filesz0.toNat)
include h hk

lemma Proghdr.Clean.round_offset : (ofNat 32 (PGSIZE*k)).toNat = 4096*k ∧
    (ph.fileoffset0+ofNat 32 (PGSIZE*k)).toNat = ph.fileoffset0.toNat+4096*k ∧
    ph.fileoffset0.toNat+ph.filesz0.toNat ≤ f.fSize.toNat := by
  have hin := h.inside
  have hoff := h.offset
  have hs := f.fSize.isLt
  have hfz := h.filesz0
  have hfo := h.fileoffset0
  simp only [toNat_add,toNat_ofNat,PGSIZE]
  omega

lemma Proghdr.Clean.copied (ho : o < 4096)
    (hw : ph.perm&&&PTE_W ≠ 0) :
    ∃ p, ph.segPage f k = some p ∧ p.perm = ph.perm ∧ p.bytes o =
      if 4096*k+o < ph.filesz0.toNat then
        f.byte (ph.fileoffset0+ofNat 32 (PGSIZE*k)+ofNat 32 o) else 0 := by
  obtain ⟨hi,hoffk,hin⟩ := h.round_offset hk
  have hfile : ¬ph.filesz0 ≤ ofNat 32 (PGSIZE*k) := by
    rw [le_def,hi]
    omega
  have hpg : (ofNat 32 PGSIZE).toNat = 4096 := rfl
  have hrest : (ph.filesz0-ofNat 32 (PGSIZE*k)).toNat = ph.filesz0.toNat-4096*k := by
    have := ph.filesz0.isLt
    rw [toNat_sub,hi]
    omega
  simp only [Proghdr.segPage,if_neg hfile,if_pos hw]
  refine ⟨_,rfl,rfl,?_⟩
  generalize hn : (if ph.filesz0-ofNat 32 (PGSIZE*k) < ofNat 32 PGSIZE then
    ph.filesz0-ofNat 32 (PGSIZE*k) else ofNat 32 PGSIZE) = n
  have hmin : n.toNat = min 4096 (ph.filesz0.toNat-4096*k) := by
    rw [← hn]
    split
    next hlt =>
      rw [lt_def,hrest,hpg] at hlt
      omega
    next hlt =>
      rw [lt_def,hrest,hpg] at hlt
      omega
  dsimp only
  rw [fileRead_inside (by omega),getD_eq_getElem?_getD,getElem?_map]
  by_cases hlt : 4096*k+o < ph.filesz0.toNat
  · rw [getElem?_range (by omega),if_pos hlt]
    rfl
  rw [getElem?_eq_none (by rw [length_range]; omega),if_neg hlt]
  rfl

lemma Proghdr.Clean.cached (ho : o < 4096) (hw : ph.perm&&&PTE_W = 0) : ∃ p, ph.segPage f k = some
    p ∧ p.perm = ph.perm ∧ p.bytes o = f.byte (ph.fileoffset0+ofNat 32 (PGSIZE*k)+ofNat 32 o) := by
  obtain ⟨hi,hoffk,hin⟩ := h.round_offset hk
  have hfile : ¬ph.filesz0 ≤ ofNat 32 (PGSIZE*k) := by
    rw [le_def,hi]
    omega
  have hfit : f.fSize.toNat ≤ 4194304 := f.fits
  have hal := h.aligned hw
  have hoff := h.offset
  have hfo := h.fileoffset0
  have hint : ¬(MAXFILESIZE : Int) ≤ (ph.fileoffset0+ofNat 32 (PGSIZE*k)).toInt := by
    rw [BitVec.toInt_eq_toNat_of_lt (by omega),hoffk,show (MAXFILESIZE : Int) = 4194304 from rfl]
    omega
  have hmod : ¬(ph.fileoffset0+ofNat 32 (PGSIZE*k)).toNat%PGSIZE ≠ 0 := by
    rw [hoffk,PGSIZE_eq,not_not]
    omega
  have hpage : 4096*PPN (ph.fileoffset0+ofNat 32 (PGSIZE*k)) < f.fSize.toNat := by
    rw [PPN_eq,hoffk]
    omega
  obtain ⟨p,hp⟩ := isSome_iff_exists.mp (f.mapped _ hpage)
  have hat : (ph.fileoffset0+ofNat 32 (PGSIZE*k)+ofNat 32 o).toNat =
      ph.fileoffset0.toNat+4096*k+o := by
    rw [toNat_add,hoffk,toNat_ofNat]
    omega
  have hsame : PPN (ph.fileoffset0+ofNat 32 (PGSIZE*k)+ofNat 32 o) =
      PPN (ph.fileoffset0+ofNat 32 (PGSIZE*k)) := by
    rw [PPN_eq,PPN_eq,hat,hoffk]
    omega
  have hzero : ¬ph.perm&&&PTE_W ≠ 0 := not_not_intro hw
  simp only [Proghdr.segPage,if_neg hfile,if_neg hzero,ProgFile.readMap,if_neg hint,if_neg hmod,
    hp,map_some]
  refine ⟨_,rfl,rfl,?_⟩
  simp only [ProgFile.byte,hsame,hp,hat]
  congr 1
  rw [PGSIZE_eq]
  omega

end

lemma Proghdr.Clean.right (h : ph.Clean f) (ha : ph.Holds a) : ∃ p, ph.segPage f (PPN
    a-PPN ph.va0) = some p ∧ p.perm = ph.perm ∧ p.bytes (a.toNat%PGSIZE) = ph.byte f.byte a := by
  obtain ⟨hk,ho,hi⟩ := ha.index
  have hfz := h.filesz0
  rw [hk,show a.toNat%PGSIZE = (a.toNat-ph.va0.toNat)%4096 from ho]
  have hmod : (a.toNat-ph.va0.toNat)%4096 < 4096 := Nat.mod_lt _ (by decide)
  have haddr := h.file_addr (k := (a.toNat-ph.va0.toNat)/4096)
    (o := (a.toNat-ph.va0.toNat)%4096) ha (by omega)
  have hbyte : ph.byte f.byte a = if 4096*((a.toNat-ph.va0.toNat)/4096)+
      (a.toNat-ph.va0.toNat)%4096 < ph.filesz0.toNat then f.byte (ph.pOffset+(a-ph.pVa)) else 0 := by
    rw [Proghdr.byte,ha.sub]
    refine if_congr ?_ rfl rfl
    omega
  by_cases hfile : 4096*((a.toNat-ph.va0.toNat)/4096) < ph.filesz0.toNat
  · by_cases hw : ph.perm&&&PTE_W = 0
    · obtain ⟨p,hp,hperm,hb⟩ := h.cached hfile hmod hw
      refine ⟨p,hp,hperm,?_⟩
      rw [hb,haddr,hbyte]
      split
      · rfl
      exact h.tail hw a ha (by omega) (by omega)
    obtain ⟨p,hp,hperm,hb⟩ := h.copied hfile hmod hw
    refine ⟨p,hp,hperm,?_⟩
    rw [hb,haddr,hbyte]
  have hround : (ofNat 32 (PGSIZE*((a.toNat-ph.va0.toNat)/4096))).toNat =
      4096*((a.toNat-ph.va0.toNat)/4096) := by
    have := a.isLt
    rw [toNat_ofNat,PGSIZE_eq]
    omega
  have hblank : ph.filesz0 ≤ ofNat 32 (PGSIZE*((a.toNat-ph.va0.toNat)/4096)) := by
    rw [le_def,hround]
    omega
  refine ⟨⟨fun _ => 0,ph.perm⟩,by simp only [Proghdr.segPage,if_pos hblank],rfl,?_⟩
  rw [hbyte,if_neg (by omega)]

end clean

/-- The program headers are in the buffer, the segments are clean, and no other segment maps a page
of one after it, nor a shared page of the parent. -/
structure SpawnCall.Fits (x : SpawnCall) : Prop where
  hdrs : (ePhoff x.elfBuf).toNat+SIZEOF_PROGHDR*(ePhnum x.elfBuf).toNat ≤ SIZEOF_ELF_BUF
  clean : ∀ i, x.SegAt i → (x.fileHdr i).Clean x.file
  last : ∀ i, x.SegAt i → ∀ a, (x.fileHdr i).Holds a →
    lastSeg (proghdrs x.elfBuf) (PPN a) = some (x.fileHdr i)
  unshared : ∀ i, x.SegAt i → ∀ a, (x.fileHdr i).Holds a → x.shared (PPN a) = none

end KludgeOS
