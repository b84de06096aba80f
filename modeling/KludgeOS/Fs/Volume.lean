import KludgeOS.Fs.File

/-!
Files and block ownership on the words of a disk, wherever they are kept. The
file server's own picture of a disk is that of the cache, and of the disk where
nothing is cached.
-/

namespace KludgeOS

open Mem BitVec

namespace Mem

def word (m : Mem) (p : Ptr) : Word := m p.blk p.idx

def put (m : Mem) (p : Ptr) (w : Word) : Mem := m.set p.blk p.idx w

variable {m : Mem} {p q : Ptr} {b : Nat} {w : Word}

lemma word_put_self (m : Mem) (p : Ptr) (w : Word) : (m.put p w).word p = w := set_self m _ _ _

lemma word_put_ne (h : q ≠ p) : (m.put p w).word q = m.word q := by
  by_cases hb : q.blk = p.blk
  · have hi : q.idx ≠ p.idx := fun hi => h (by cases p; cases q; simp_all)
    exact set_index m _ _ _ hi
  simp only [word,put,set_frame m _ _ hb]

lemma word_fill_self (m : Mem) (c : Nat → Word) (h : p.blk = b) :
    (m.fill b c).word p = c p.idx := by
  subst h
  simp [word,fill_self]

lemma word_fill_ne (m : Mem) (c : Nat → Word) (h : p.blk ≠ b) :
    (m.fill b c).word p = m.word p := by simp only [word,fill_frame m c h]

def nblocks (m : Mem) : Nat := (m.word ⟨1,1⟩).toNat

def nreserved (m : Mem) : Nat := 2+(m.nblocks+32767)/32768

def isFree (m : Mem) (b : Nat) : Bool := (m.word (Fs.bitmapAt (b/32))).getLsbD (b%32)

def Usable (m : Mem) (b : Nat) : Prop := m.nreserved ≤ b ∧ b < m.nblocks

lemma Usable.congr {m' : Mem} (h : m.Usable b) (hn : m'.nblocks = m.nblocks) : m'.Usable b := by
  simpa only [Usable,nreserved,hn] using h

lemma Usable.toNat_ofNat (h : m.Usable b) : (BitVec.ofNat 32 b).toNat = b := by
  have h1 := h.2
  have h2 := (m.word ⟨1,1⟩).isLt
  simp only [nblocks] at h1
  rw [BitVec.toNat_ofNat]
  omega

lemma bitmap_reserved (h : b < m.nblocks) : (Fs.bitmapAt (b/32)).blk < m.nreserved := by
  simp only [Fs.bitmapAt,nreserved]
  omega

end Mem

inductive Place where
  | direct : (j : Nat) → Place
  | indirect : Place
  | entry : (j : Nat) → Place
  deriving DecidableEq

def Place.Data : Place → Prop
  | .direct _ => True
  | .indirect => False
  | .entry j => NDIRECT ≤ j

/-- Where the slots of `f` are. -/
inductive BlockSlot (m : Mem) (f : Ptr) : Place → Ptr → Prop where
  | direct {j : Nat} : j < NDIRECT → BlockSlot m f (.direct j) (f.direct j)
  | indirect : BlockSlot m f .indirect f.indirect
  | entry {j : Nat} : m.word f.indirect ≠ 0 → j < NINDIRECT →
      BlockSlot m f (.entry j) ⟨(m.word f.indirect).toNat,j⟩

lemma BlockSlot.congr {m m' : Mem} {f p : Ptr} {pl : Place} (h : BlockSlot m f pl p)
    (he : m'.word f.indirect = m.word f.indirect) : BlockSlot m' f pl p := by
  cases h with
  | direct hj => exact .direct hj
  | indirect => exact .indirect
  | entry h0 hj =>
    rw [← he] at h0 ⊢
    exact .entry h0 hj

/-- The root directory, and every `struct File` in a block of a directory. -/
inductive IsFile (m : Mem) : Ptr → Prop where
  | root : IsFile m rootFile
  | entry {d p : Ptr} {pl : Place} {k : Nat} : IsFile m d → m.word d.type = FTYPE_DIR →
      BlockSlot m d pl p → pl.Data → m.word p ≠ 0 → k < BLKFILES →
      IsFile m ⟨(m.word p).toNat,64*k⟩

structure Owned (m : Mem) : Prop where
  good : ∀ f pl p, IsFile m f → BlockSlot m f pl p → m.word p ≠ 0 →
    m.Usable (m.word p).toNat ∧ m.isFree (m.word p).toNat = false
  inj : ∀ f g pl ql p q, IsFile m f → IsFile m g → BlockSlot m f pl p → BlockSlot m g ql q →
    m.word p ≠ 0 → m.word p = m.word q → p = q

/-- A `struct File` of a directory block. -/
structure Record (m : Mem) (f : Ptr) : Prop where
  aligned : ∃ k < BLKFILES, f.idx = 64*k
  usable : m.Usable f.blk

def Placed (m : Mem) (f : Ptr) : Prop := f = rootFile ∨ Record m f

lemma Mem.one_lt_nreserved (m : Mem) : 1 < m.nreserved := by
  simp only [nreserved]
  omega

namespace Placed

variable {m : Mem} {f g : Ptr} {i j : Nat}

lemma off (h : Placed m f) (hi : i < 64) : f.off i = ⟨f.blk,f.idx+i⟩ := by
  obtain rfl | h := h
  · simp only [Ptr.off,rootFile,Ptr.mk.injEq]
    omega
  obtain ⟨k,hk,hidx⟩ := h.aligned
  have : BLKFILES = 16 := rfl
  simp only [Ptr.off,Ptr.mk.injEq]
  omega

lemma off_inj (hf : Placed m f) (hg : Placed m g) (hi : i < 64) (hj : j < 64)
    (he : f.off i = g.off j) : f = g ∧ i = j := by
  rw [hf.off hi,hg.off hj] at he
  obtain ⟨hb,hidx⟩ := Ptr.mk.inj he
  have h1 := m.one_lt_nreserved
  obtain rfl | hf := hf
  · obtain rfl | hg := hg
    · exact ⟨rfl,by omega⟩
    have := hg.usable.1
    have : 1 = g.blk := hb
    omega
  obtain rfl | hg := hg
  · have := hf.usable.1
    have : f.blk = 1 := hb
    omega
  obtain ⟨k,hk,hfk⟩ := hf.aligned
  obtain ⟨l,hl,hgl⟩ := hg.aligned
  have hkl : k = l := by omega
  refine ⟨?_,by omega⟩
  cases f; cases g
  simp_all

lemma off_ne_sys (h : Placed m f) (hi : i < 64) :
    f.off i ≠ ⟨1,1⟩ ∧ ∀ b < m.nblocks, f.off i ≠ Fs.bitmapAt (b/32) := by
  rw [h.off hi]
  obtain rfl | h := h
  · refine ⟨by simp [rootFile]; omega,fun b _ he => ?_⟩
    have : 1 = 2+b/32/1024 := (Ptr.mk.inj he).1
    omega
  have hu := h.usable.1
  have h1 := m.one_lt_nreserved
  refine ⟨fun he => ?_,fun b hb he => ?_⟩
  · have := (Ptr.mk.inj he).1
    omega
  have := bitmap_reserved hb
  rw [← he] at this
  exact absurd hu (Nat.not_le.mpr this)

end Placed

structure Spread (m : Mem) (files : Set Ptr) : Prop where
  placed : ∀ f ∈ files, Placed m f
  good : ∀ f ∈ files, ∀ pl p, BlockSlot m f pl p → m.word p ≠ 0 →
    m.Usable (m.word p).toNat ∧ m.isFree (m.word p).toNat = false
  inj : ∀ f ∈ files, ∀ g ∈ files, ∀ pl ql p q, BlockSlot m f pl p → BlockSlot m g ql q →
    m.word p ≠ 0 → m.word p = m.word q → p = q
  apart : ∀ f ∈ files, f ≠ rootFile → ∀ g ∈ files, (m.word g.indirect).toNat ≠ f.blk

namespace Spread

variable {m : Mem} {files : Set Ptr} {f g p q : Ptr} {pl ql : Place} {i j : Nat}

section

variable (h : Spread m files) (hf : f ∈ files)
include h hf

lemma indirect_apart (h0 : m.word f.indirect ≠ 0)
    (hg : g ∈ files) : (m.word f.indirect).toNat ≠ g.blk := by
  by_cases hr : g = rootFile
  · subst hr
    have := (h.good f hf _ _ .indirect h0).1.1
    have := m.one_lt_nreserved
    change _ ≠ 1
    omega
  exact h.apart g hg hr f hf

lemma entry_ne_off (h0 : m.word f.indirect ≠ 0)
    (hg : g ∈ files) (hi : i < 64) : (⟨(m.word f.indirect).toNat,j⟩ : Ptr) ≠ g.off i := by
  rw [(h.placed g hg).off hi]
  intro he
  exact h.indirect_apart hf h0 hg (Ptr.mk.inj he).1

lemma slot_inj (hg : g ∈ files) (hp : BlockSlot m f pl p)
    (hq : BlockSlot m g ql p) : f = g ∧ pl = ql := by
  have hd : NDIRECT = 10 := rfl
  have hoff : ∀ i j, i < 64 → j < 64 → f.off i = g.off j → f = g ∧ i = j :=
    fun i j hi hj he => (h.placed f hf).off_inj (h.placed g hg) hi hj he
  generalize hpq : p = q at hq
  cases hp with
  | direct hj =>
    cases hq with
    | direct hk =>
      obtain ⟨rfl,hjk⟩ := hoff _ _ (by omega) (by omega) hpq
      exact ⟨rfl,by congr 1; omega⟩
    | indirect =>
      have := (hoff _ _ (by omega) (by omega) hpq).2
      omega
    | entry h0 hk => exact absurd hpq.symm (h.entry_ne_off hg h0 hf (by omega))
  | indirect =>
    cases hq with
    | direct hk =>
      have := (hoff _ _ (by omega) (by omega) hpq).2
      omega
    | indirect => exact ⟨(hoff _ _ (by omega) (by omega) hpq).1,rfl⟩
    | entry h0 hk => exact absurd hpq.symm (h.entry_ne_off hg h0 hf (by omega))
  | entry h0 hj =>
    cases hq with
    | direct hk => exact absurd hpq (h.entry_ne_off hf h0 hg (by omega))
    | indirect => exact absurd hpq (h.entry_ne_off hf h0 hg (by omega))
    | entry h1 hk =>
      obtain ⟨hb,rfl⟩ := Ptr.mk.inj hpq
      have he := h.inj f hf g hg _ _ _ _ .indirect .indirect h0 (eq_of_toNat_eq hb)
      exact ⟨(hoff _ _ (by omega) (by omega) he).1,rfl⟩

lemma slot_ne_sys (hp : BlockSlot m f pl p) :
    p ≠ ⟨1,1⟩ ∧ ∀ b < m.nblocks, p ≠ Fs.bitmapAt (b/32) := by
  have hd : NDIRECT = 10 := rfl
  cases hp with
  | direct hj => exact (h.placed f hf).off_ne_sys (by omega)
  | indirect => exact (h.placed f hf).off_ne_sys (by omega)
  | entry h0 hj =>
    have hu := (h.good f hf _ _ .indirect h0).1.1
    have h1 := m.one_lt_nreserved
    refine ⟨fun he => ?_,fun b hb he => ?_⟩
    · have := (Ptr.mk.inj he).1
      omega
    have := bitmap_reserved hb
    rw [← he] at this
    exact absurd hu (Nat.not_le.mpr this)

lemma slot_ne_word (hg : g ∈ files)
    (hp : BlockSlot m f pl p) (hi : i < 64) (hi' : i < 34 ∨ 45 ≤ i) : p ≠ g.off i := by
  have hd : NDIRECT = 10 := rfl
  cases hp with
  | direct hj =>
    intro he
    have := ((h.placed f hf).off_inj (h.placed g hg) (by omega) hi he).2
    omega
  | indirect =>
    intro he
    have := ((h.placed f hf).off_inj (h.placed g hg) (by omega) hi he).2
    omega
  | entry h0 hj => exact h.entry_ne_off hf h0 hg hi

lemma slot_ne_off (hg : g ∈ files) (hp : BlockSlot m f pl p)
    (hi : i < 34 ∨ i = 45) : p ≠ g.off i :=
  h.slot_ne_word hf hg hp (by omega) (by omega)

end

end Spread

structure Vol where
  mem : Mem
  cached : Nat → Prop
  files : Set Ptr

/-- The files are the root and whatever is in their directories, and own their blocks. Those of
`opened` are cached and were reached through a directory. -/
structure Tidy (opened : Set Ptr) (v : Vol) : Prop extends Spread v.mem v.files where
  root : rootFile ∈ v.files
  closed : ∀ f ∈ v.files, v.mem.word f.type = FTYPE_DIR → ∀ pl p, BlockSlot v.mem f pl p → pl.Data →
    v.mem.word p ≠ 0 → ∀ k < BLKFILES, ⟨(v.mem.word p).toNat,64*k⟩ ∈ v.files
  self : ∀ f ∈ v.files, ∀ pl p, BlockSlot v.mem f pl p → (v.mem.word p).toNat ≠ f.blk
  held : ∀ f ∈ opened, f ∈ v.files ∧ v.cached f.blk ∧ (f ≠ rootFile → v.mem.word f.dir ≠ 0)
  kept : ∀ f ∈ v.files, f ≠ rootFile →
    v.mem.isFree f.blk = false ∨ ∃ o ∈ opened, o ≠ rootFile ∧ o.blk = f.blk
  sys : ∀ b < v.mem.nreserved, v.mem.isFree b = false ∧ (b ≠ 0 → v.cached b)
  fits : v.mem.nreserved ≤ v.mem.nblocks ∧ v.mem.nblocks ≤ DISKSIZE/BLKSIZE

namespace Tidy

variable {opened : Set Ptr} {v : Vol} {f : Ptr}

lemma blk_lt (h : Tidy opened v) (hf : f ∈ v.files) : f.blk < v.mem.nblocks := by
  obtain rfl | hr := h.placed f hf
  · have := h.fits.1
    have := v.mem.one_lt_nreserved
    change 1 < v.mem.nblocks
    omega
  exact hr.usable.2

lemma isFile_mem (h : Tidy opened v) (hf : IsFile v.mem f) : f ∈ v.files := by
  induction hf with
  | root => exact h.root
  | entry _ hdir hp hdata h0 hk ih => exact h.closed _ ih hdir _ _ hp hdata h0 _ hk

lemma owned (h : Tidy opened v) : Owned v.mem where
  good f pl p hf := h.good f (h.isFile_mem hf) pl p
  inj f g pl ql p q hf hg := h.inj f (h.isFile_mem hf) g (h.isFile_mem hg) pl ql p q

end Tidy

/-! Every disk whose blocks are owned is tidy. -/

namespace Owned

variable {m : Mem} {f g p q : Ptr} {pl ql : Place}

lemma placed (h : Owned m) (hf : IsFile m f) : Placed m f := by
  cases hf with
  | root => exact .inl rfl
  | entry hd _ hp _ h0 hk => exact .inr ⟨⟨_,hk,rfl⟩,(h.good _ _ _ hd hp h0).1⟩

lemma blk_ne_one (h : Owned m) (hf : IsFile m f) (hp : BlockSlot m f pl p) (h0 : m.word p ≠ 0) :
    (m.word p).toNat ≠ 1 := by
  have := (h.good f pl p hf hp h0).1.1
  have := m.one_lt_nreserved
  omega

lemma data_eq_indirect (h : Owned m) (hd : IsFile m f) (hg : IsFile m g) (hp : BlockSlot m f pl p)
    (hdata : pl.Data) (he : p = g.indirect) :
    m.word f.indirect ≠ 0 ∧ (m.word f.indirect).toNat = g.blk := by
  have hn : NDIRECT = 10 := rfl
  cases hp with
  | direct hj =>
    have := ((h.placed hd).off_inj (h.placed hg) (by omega) (by omega) he).2
    omega
  | indirect => exact absurd hdata id
  | entry h0 hj =>
    have hoff : g.off 44 = ⟨g.blk,g.idx+44⟩ := (h.placed hg).off (by omega)
    exact ⟨h0,(Ptr.mk.inj (he.trans hoff)).1⟩

lemma apart (h : Owned m) (hf : IsFile m f) (hr : f ≠ rootFile) :
    ∀ g, IsFile m g → (m.word g.indirect).toNat ≠ f.blk := by
  induction hf with
  | root => exact absurd rfl hr
  | @entry d p pl k hd hdir hp hdata h0 hk ih =>
    -- The directory of a file whose block is an indirect block would be in an indirect block, too.
    intro g hg he
    have hpg := h.inj _ _ _ _ _ _ hd hg hp .indirect h0 (eq_of_toNat_eq he.symm)
    obtain ⟨hd0,hdg⟩ := h.data_eq_indirect hd hg hp hdata hpg
    cases hg with
    | root => exact h.blk_ne_one hd .indirect hd0 hdg
    | @entry d' p' pl' k' hd' hdir' hp' hdata' h0' hk' =>
      have hpd := h.inj _ _ _ _ _ _ hd' hd hp' .indirect h0' (eq_of_toNat_eq hdg.symm)
      obtain ⟨hd0',hdd⟩ := h.data_eq_indirect hd' hd hp' hdata' hpd
      by_cases hroot : d = rootFile
      · subst hroot
        exact h.blk_ne_one hd' .indirect hd0' hdd
      exact ih hroot d' hd' hdd

lemma spread (h : Owned m) : Spread m {f | IsFile m f} where
  placed _ hf := h.placed hf
  good f hf pl p := h.good f pl p hf
  inj f hf g hg pl ql p q := h.inj f g pl ql p q hf hg
  apart _ hf hr g hg := h.apart hf hr g hg

lemma self (h : Owned m) (hf : IsFile m f) :
    ∀ pl p, BlockSlot m f pl p → (m.word p).toNat ≠ f.blk := by
  induction hf with
  | root =>
    intro pl p hp he
    by_cases h0 : m.word p = 0
    · simp [h0,rootFile] at he
    exact h.blk_ne_one .root hp h0 he
  | @entry d p pl k hd hdir hp hdata h0 hk ih =>
    intro ql q hq he
    have hf := IsFile.entry hd hdir hp hdata h0 hk
    have he := eq_of_toNat_eq he
    obtain rfl := h.inj _ _ _ _ _ _ hd hf hp hq h0 he.symm
    -- The slot is the one the directory has for the block, so the file is its own directory.
    have hdf := (h.spread.slot_inj hd hf hp hq).1
    exact ih pl p hp (congrArg Ptr.blk hdf).symm

lemma tidy (h : Owned m) (cached : Nat → Prop)
    (hsys : ∀ b < m.nreserved, m.isFree b = false ∧ (b ≠ 0 → cached b))
    (hfits : m.nreserved ≤ m.nblocks ∧ m.nblocks ≤ DISKSIZE/BLKSIZE) :
    Tidy ∅ ⟨m,cached,{f | IsFile m f}⟩ where
  toSpread := h.spread
  root := .root
  closed f hf hdir pl p hp hdata h0 k hk := .entry hf hdir hp hdata h0 hk
  self f hf := h.self hf
  held f hf := absurd hf (Set.notMem_empty f)
  kept f hf hr := by
    cases hf with
    | root => exact absurd rfl hr
    | entry hd _ hp _ h0 hk => exact .inl (h.good _ _ _ hd hp h0).2
  sys := hsys
  fits := hfits

end Owned

end KludgeOS
