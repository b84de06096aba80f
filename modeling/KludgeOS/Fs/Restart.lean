import KludgeOS.Fs.Names
import KludgeOS.Fs.Bounds

/-!
A file server that starts on a disk, as far as the disk has the words of `m`.
No call of the new server fails.
-/

namespace KludgeOS
open BitVec (ofNat)
open Option Mem Fs Ptr BitVec

def Saved (disk m : Mem) (b : Nat) : Prop := ∀ i < 1024, disk b i = m b i

/-- A file system as `fs/fsformat.c` leaves it: the boot block, the superblock and the bitmap are
there and in use. -/
structure Formatted (m : Mem) : Prop where
  magic : m.word ⟨1,0⟩ = FS_MAGIC
  fits : m.nreserved ≤ m.nblocks ∧ m.nblocks ≤ DISKSIZE/BLKSIZE
  used : ∀ b < m.nreserved, m.isFree b = false

/-- The superblock of `m` is on the disk, and no block in use in `m` is marked free there. -/
structure Startable (disk m : Mem) : Prop where
  owned : Owned m
  format : Formatted m
  super : Saved disk m 1
  used : ∀ b < m.nblocks, m.isFree b = false → isFree disk b = false

/-- A server that has only read so far, and has set `f_dir` of files down to depth `n`. -/
structure Restored (disk m : Mem) (n : Nat) (u : Fs) : Prop where
  chance : u.chance = []
  same : u.disk = disk
  page : ∀ b pg, u.cache b = some pg → ∀ i < 1024, pg.words i = disk b i ∨
    ∃ g k, Depth m g k ∧ k ≤ n ∧ (⟨b,i⟩ : Ptr) = g.dir

def Keeps (u u' : Fs) : Prop := ∀ b, u.cache b ≠ none → u'.cache b ≠ none

lemma Keeps.trans {u v w : Fs} (h : Keeps u v) (h' : Keeps v w) : Keeps u w :=
  fun b hb => h' b (h b hb)

def Ready (m : Mem) (u : Fs) : Prop := ∀ b < m.nreserved, b ≠ 0 → u.cache b ≠ none

lemma Ready.mono {m : Mem} {u v : Fs} (h : Ready m u) (hk : Keeps u v) : Ready m v :=
  fun b hb h0 => hk b (h b hb h0)

structure Stored (disk m : Mem) (f : Ptr) : Prop where
  indirect : m.word f.indirect ≠ 0 → Saved disk m (m.word f.indirect).toNat
  data : ∀ j : Nat, (j : Int) < sizeBlocks (m.word f.size) → m.blockOf f j ≠ 0 →
    Saved disk m (m.blockOf f j).toNat

variable {a c : Nat → Word} {name : List Byte}

lemma nameIs_congr (hlen : name.length < MAXNAMELEN) (h : ∀ i < 32, a i = c i) :
    nameIs a name = nameIs c name := by
  have hmax : MAXNAMELEN = 128 := rfl
  have hbyte : ∀ k ≤ name.length, byteAt a k = byteAt c k := by
    intro k hk
    rw [byteAt,byteAt,h (k/4) (by omega)]
  have hall : ((List.range name.length).all fun k => byteAt a k == name.getD k 0) =
      (List.range name.length).all fun k => byteAt c k == name.getD k 0 := by
    rw [Bool.eq_iff_iff,List.all_eq_true,List.all_eq_true]
    refine forall₂_congr fun k hk => ?_
    rw [hbyte k (List.mem_range.mp hk).le]
  rw [nameIs,nameIs,hall,hbyte _ le_rfl]

lemma findEntry_congr (hlen : name.length < MAXNAMELEN) (h : ∀ j < BLKFILES,
    ∀ i < 32, a (64*j+i) = c (64*j+i)) : Fs.findEntry a name = Fs.findEntry c name :=
  List.find?_congr fun j hj => nameIs_congr hlen (h j (List.mem_range.mp hj))

namespace Restored

variable {disk m : Mem} {n k b : Nat} {u : Fs} {f d g p : Ptr} {w : Word}

lemma mono (h : Restored disk m n u) (hnk : n ≤ k) : Restored disk m k u :=
  ⟨h.chance,h.same,fun b pg hpg i hi => (h.page b pg hpg i hi).imp_right
    fun ⟨g,l,hg,hl,he⟩ => ⟨g,l,hg,hl.trans hnk,he⟩⟩

lemma get_disk (h : Restored disk m n u) (hc : u.cache p.blk ≠ none) (hi : p.idx < 1024)
    (hdir : ∀ g k, Depth m g k → k ≤ n → p ≠ g.dir) : u.get p = some (disk.word p) := by
  obtain ⟨pg,hpg⟩ := ne_none_iff_exists'.mp hc
  obtain hw | ⟨g,k,hg,hk,he⟩ := h.page p.blk pg hpg p.idx hi
  · simp [Fs.get,hpg,hw,word]
  exact absurd he (hdir g k hg hk)

lemma get (h : Restored disk m n u) (hc : u.cache p.blk ≠ none) (hs : Saved disk m p.blk) (hi :
    p.idx < 1024) (hdir : ∀ g k, Depth m g k → k ≤ n → p ≠ g.dir) : u.get p = some (m.word p) := by
  rw [h.get_disk hc hi hdir]
  exact congrArg some (hs p.idx hi)

lemma dir_ne_super (ho : Owned m) (hg : Depth m g k) (hi : b < 2) : (⟨1,b⟩ : Ptr) ≠ g.dir := by
  rw [dir,(ho.placed hg.isFile).off (by decide)]
  intro he
  have := (Ptr.mk.inj he).2
  omega

section

variable (h : Restored disk m n u) (hs : Startable disk m) (hc : u.cache 1 ≠ none)
include h hs hc

lemma nblocks : u.nblocks = some (m.word ⟨1,1⟩) :=
  h.get hc hs.super (by decide) fun _ _ hg _ => dir_ne_super hs.owned hg (by decide)

lemma diskaddr (hw : w.toNat < m.nblocks) : u.diskaddr w = some w.toNat := by
  have hlt : ¬m.word ⟨1,1⟩ ≤ w := by
    rw [BitVec.not_le]
    exact hw
  simp [Fs.diskaddr,h.nblocks hs hc,hlt]

lemma blockIsFree (hw : w.toNat < m.nblocks) (hu : m.isFree w.toNat = false)
    (hbit : u.cache (2+w.toNat/32768) ≠ none) : u.blockIsFree w = some false := by
  have hblk : (bitmapAt (w.toNat/32)).blk = 2+w.toNat/32768 := by
    simp only [bitmapAt]
    omega
  have hget : u.get (bitmapAt (w.toNat/32)) = some (disk.word (bitmapAt (w.toNat/32))) := by
    refine h.get_disk (by rw [hblk]; exact hbit) (Nat.mod_lt _ (by decide)) fun g k hg _ he => ?_
    exact ((hs.owned.placed hg.isFile).off_ne_sys (i := 45) (by decide)).2 _ hw he.symm
  have hfree := hs.used _ hw hu
  simp only [isFree] at hfree
  simp [Fs.blockIsFree,h.nblocks hs hc,hget,hfree]

end

lemma loadBlock (h : Restored disk m n u) (b : Nat) :
    ∃ u', u.loadBlock b = some (0,u') ∧ Restored disk m n u' ∧ Keeps u u' ∧ u'.cache b ≠ none := by
  by_cases hb : u.cache b = none
  · refine ⟨u.setCache b {words := u.disk b, dirty := false},?_,⟨h.chance,h.same,?_⟩,?_,by simp⟩
    · simp [Fs.loadBlock,hb,sysPageAlloc,ideRead,remap,luck,setCache,h.chance]
    · intro c pg hpg i hi
      by_cases hcb : c = b
      · subst hcb
        obtain rfl : _ = pg := by simpa using hpg
        exact .inl (congrFun (congrFun h.same c) i)
      exact h.page c pg (by simpa [setCache,hcb] using hpg) i hi
    intro c hc
    by_cases hcb : c = b
    · subst hcb
      simp
    simpa [setCache,hcb] using hc
  exact ⟨u,by simp [Fs.loadBlock,isSome_iff_ne_none.mpr hb],h,fun _ hc => hc,hb⟩

lemma readBlock (h : Restored disk m n u) (hs : Startable disk m) (hr : Ready m u)
    (hw : w.toNat < m.nblocks) (hu : m.isFree w.toNat = false) : ∃ u', u.readBlock w = some (0,u') ∧
    Restored disk m n u' ∧ Keeps u u' ∧ u'.cache w.toNat ≠ none := by
  have h1 := hr 1 m.one_lt_nreserved Nat.one_ne_zero
  have hbit := hr (2+w.toNat/32768) (by simp only [nreserved]; omega) (by omega)
  obtain ⟨u',hl,hu',hk,hc⟩ := h.loadBlock w.toNat
  refine ⟨u',?_,hu',hk,hc⟩
  simp [Fs.readBlock,h.diskaddr hs h1 hw,h.blockIsFree hs h1 hw hu hbit,hl]

/-! Starting. -/

lemma bitmapRounds (hs : Startable disk m)
    (n : Nat) : ∀ {i : Nat} {u : Fs}, i+n = (m.nblocks+32767)/32768 → Restored disk m 0 u →
    u.cache 1 ≠ none → (∀ k < i, u.cache (2+k) ≠ none) → ∃ u', u.bitmapRounds n i = some u' ∧
    Restored disk m 0 u' ∧ Keeps u u' ∧ ∀ k < i+n, u'.cache (2+k) ≠ none := by
  induction n with
  | zero =>
    intro i u _ hu _ hk
    exact ⟨u,rfl,hu,fun _ h => h,hk⟩
  | succ n ih =>
    intro i u hin hu h1 hk
    have hfit := hs.format.fits
    have hres : 2+i < m.nreserved := by simp only [nreserved]; omega
    have hds : DISKSIZE/BLKSIZE = 786432 := by decide
    have hi : (ofNat 32 (2+i)).toNat = 2+i := by
      rw [BitVec.toNat_ofNat]
      omega
    have hlt : (ofNat 32 (2+i)).toNat < m.nblocks := by
      rw [hi]
      omega
    have hused : m.isFree (ofNat 32 (2+i)).toNat = false := by
      rw [hi]
      exact hs.format.used _ hres
    have haddr := hu.diskaddr hs h1 hlt
    -- The bit of a bitmap block is in an earlier one, but for that of the first.
    have hfirst : (if i = 0 then some false else u.blockIsFree (ofNat 32 (2+i))) = some false := by
      split
      · rfl
      refine hu.blockIsFree hs h1 hlt hused ?_
      rw [hi]
      exact hk _ (by omega)
    obtain ⟨u1,hl,hu1,hk1,hc1⟩ := hu.loadBlock (2+i)
    have hk1' : ∀ k < i+1, u1.cache (2+k) ≠ none := by
      intro k hki
      by_cases hkeq : k = i
      · rw [hkeq]
        exact hc1
      exact hk1 _ (hk k (by omega))
    have hagain := hu1.blockIsFree hs (hk1 1 h1) hlt hused (by rw [hi]; exact hk1' _ (by omega))
    obtain ⟨u',hrest,hu',hk',hc'⟩ := ih (by omega) hu1 (hk1 1 h1) hk1'
    rw [hi] at haddr
    refine ⟨u',?_,hu',hk1.trans hk',fun k hkn => hc' k (by omega)⟩
    simp [Fs.bitmapRounds,haddr,hfirst,hl,hagain,hrest]

lemma fsInit (hs : Startable disk m) :
    ∃ u, Fs.fsInit {disk := disk, cache := fun _ => none, chance := [], junk := [], notes := []} =
      some u ∧ Restored disk m 0 u ∧ Ready m u := by
  have h0 : Restored disk m 0 { disk := disk, cache := fun _ => none, chance := [], junk := [],
                                notes := [] } := ⟨rfl,rfl,by simp⟩
  obtain ⟨u1,hl,hu1,_,hc1⟩ := h0.loadBlock 1
  have hmagic : u1.get ⟨1,0⟩ = some FS_MAGIC := by
    rw [← hs.format.magic]
    exact hu1.get hc1 hs.super (by decide) fun _ _ hg _ => dir_ne_super hs.owned hg (by decide)
  have hn := hu1.nblocks hs hc1
  have hfit := hs.format.fits
  have hle : ¬DISKSIZE/BLKSIZE < (m.word ⟨1,1⟩).toNat := Nat.not_lt.mpr hfit.2
  have hsuper : readSuper { disk := disk, cache := fun _ => none, chance := [], junk := [],
                               notes := [] } = some u1 := by simp [readSuper,hl,hmagic,hn,hle]
  obtain ⟨u2,hb,hu2,hk2,hc2⟩ := bitmapRounds hs ((m.nblocks+32767)/32768) (i := 0) (Nat.zero_add _)
    hu1 hc1 (by omega)
  have hready : Ready m u2 := by
    intro b hb hb0
    by_cases hb1 : b = 1
    · rw [hb1]
      exact hk2 1 hc1
    have := hc2 (b-2) (by simp only [nreserved] at hb; omega)
    rwa [show 2+(b-2) = b by omega] at this
  have hres := m.one_lt_nreserved
  have hpos : 0 < m.nblocks := by omega
  have hfree : ∀ w : Word, w.toNat < 2 → u2.blockIsFree w = some false := by
    intro w hw
    exact hu2.blockIsFree hs (hk2 1 hc1) (by omega) (hs.format.used _ (by omega))
      (hready _ (by simp only [nreserved]; omega) (by omega))
  have hn0 : m.word ⟨1,1⟩ ≠ 0#32 := by
    intro h
    have : m.nblocks = 0 := by rw [Mem.nblocks,h]; rfl
    omega
  refine ⟨u2,?_,hu2,hready⟩
  have hb : u1.bitmapRounds (((m.word ⟨1,1⟩).toNat+BLKBITSIZE-1)/BLKBITSIZE) 0 = some u2 := hb
  have hf0 : u2.blockIsFree 0#32 = some false := hfree 0 (by decide)
  have hf1 : u2.blockIsFree 1#32 = some false := hfree 1 (by decide)
  simp [Fs.fsInit,hsuper,readBitmap,hn,hb,hf0,hf1,hn0]

/-! Finding the blocks of a file. -/

lemma slot_ne_dir (hs : Startable disk m) (hf : Depth m f k) {pl : Place}
    (hp : BlockSlot m f pl p) : ∀ g l, Depth m g l → l ≤ n → p ≠ g.dir :=
  fun _ _ hg _ => hs.owned.spread.slot_ne_off hf.isFile hg.isFile hp (.inr rfl)

variable {j : Nat}

lemma fileMapBlock (h : Restored disk m n u) (hs : Startable disk m) (hr : Ready m u)
    (hf : Depth m f k) (hc : u.cache f.blk ≠ none) (hsaved : Saved disk m f.blk)
    (hst : Stored disk m f) (h0 : m.blockOf f j ≠ 0) (hj : j < NINDIRECT) : ∃ u', u.fileMapBlock f
    (ofNat 32 j) true = some (0,m.blockOf f j,u') ∧ Restored disk m n u' ∧ Keeps u u' := by
  have hd : NDIRECT = 10 := rfl
  have hni : NINDIRECT = 1024 := rfl
  have hjn : (ofNat 32 j).toNat = j := by
    rw [BitVec.toNat_ofNat]
    omega
  have hplaced := hs.owned.placed hf.isFile
  have h0 : m.blockOf f j ≠ 0#32 := h0
  by_cases hlt : j < NDIRECT
  · have hoff : f.direct j = ⟨f.blk,f.idx+(34+j)⟩ := hplaced.off (by omega)
    have hget : u.get (f.direct j) = some (m.blockOf f j) := by
      rw [blockOf,if_pos hlt]
      refine h.get ?_ ?_ ?_ (slot_ne_dir hs hf (.direct hlt))
      · rwa [hoff]
      · rwa [hoff]
      exact Nat.mod_lt _ (by decide)
    refine ⟨u,?_,h,fun _ hb => hb⟩
    simp [Fs.fileMapBlock,fileBlockWalk,hjn,hlt,follow,hget,h0]
  have hoff : f.indirect = ⟨f.blk,f.idx+44⟩ := hplaced.off (by omega)
  have hind : m.word f.indirect ≠ 0#32 := by
    intro hi
    simp [blockOf,hlt,hi] at h0
  have hget : u.get f.indirect = some (m.word f.indirect) := by
    refine h.get ?_ ?_ ?_ (slot_ne_dir hs hf .indirect)
    · rwa [hoff]
    · rwa [hoff]
    exact Nat.mod_lt _ (by decide)
  obtain ⟨husable,hused⟩ := hs.owned.good f _ _ hf.isFile .indirect hind
  obtain ⟨u1,hread,hu1,hk1,hc1⟩ := h.readBlock hs hr husable.2 hused
  have hget1 : u1.get ⟨(m.word f.indirect).toNat,j⟩ = some (m.blockOf f j) := by
    rw [blockOf,if_neg hlt,if_neg (show ¬m.word f.indirect = 0 from hind)]
    exact hu1.get hc1 (hst.indirect hind) hj (slot_ne_dir hs hf (.entry hind hj))
  refine ⟨u1,?_,hu1,hk1⟩
  simp [Fs.fileMapBlock,fileBlockWalk,hjn,hlt,hj,hget,hind,hread,follow,hget1,h0]

lemma fileGetBlock (h : Restored disk m n u) (hs : Startable disk m) (hr : Ready m u)
    (hf : Depth m f k) (hc : u.cache f.blk ≠ none) (hsaved : Saved disk m f.blk)
    (hst : Stored disk m f) (h0 : m.blockOf f j ≠ 0) (hj : j < NINDIRECT) :
    ∃ u', u.fileGetBlock f (ofNat 32 j) = some (0,(m.blockOf f j).toNat,u') ∧
      Restored disk m n u' ∧ Keeps u u' ∧ u'.cache (m.blockOf f j).toNat ≠ none := by
  obtain ⟨u1,hmap,hu1,hk1⟩ := h.fileMapBlock hs hr hf hc hsaved hst h0 hj
  obtain ⟨p,hp,hw⟩ := blockOf_slot h0 hj
  rw [← hw] at h0
  obtain ⟨husable,hused⟩ := hs.owned.good f _ _ hf.isFile hp h0
  rw [hw] at husable hused
  obtain ⟨u2,hread,hu2,hk2,hc2⟩ := hu1.readBlock hs (hr.mono hk1) husable.2 hused
  refine ⟨u2,?_,hu2,hk1.trans hk2,hc2⟩
  simp [Fs.fileGetBlock,hmap,hread]

/-! Following a path. -/

lemma findEntry {name : List Byte} {pg : Cached} (h : Restored disk m n u) (ho : Owned m)
    (hpg : u.cache b = some pg) (hb : b ≠ 1) (hs : Saved disk m b)
    (hlen : name.length < MAXNAMELEN) : Fs.findEntry pg.words name = Fs.findEntry (m b) name := by
  refine findEntry_congr hlen fun j hj i hi => ?_
  have hbf : BLKFILES = 16 := rfl
  obtain hw | ⟨g,l,hg,_,he⟩ := h.page b pg hpg (64*j+i) (by omega)
  · rw [hw]
    exact hs _ (by omega)
  -- `f_dir` is the word after the block numbers of an entry.
  obtain hr | hrec := ho.placed hg.isFile
  · rw [hr] at he
    exact absurd (Ptr.mk.inj he).1 hb
  obtain ⟨x,hx,hidx⟩ := hrec.aligned
  rw [dir,(ho.placed hg.isFile).off (by decide)] at he
  have := (Ptr.mk.inj he).2
  omega

lemma put_dir {u' : Fs} (h : Restored disk m n u) (hg : Depth m g (n+1))
    (hput : u.put g.dir w = some u') : Restored disk m (n+1) u' ∧ Keeps u u' := by
  obtain ⟨pg,hpg,rfl⟩ := put_eq hput
  refine ⟨⟨h.chance,h.same,?_⟩,fun b hb => ?_⟩
  · intro b qg hq i hi
    by_cases hbg : b = g.dir.blk
    · subst hbg
      obtain rfl : _ = qg := by simpa using hq
      by_cases hidx : i = g.dir.idx
      · exact .inr ⟨g,n+1,hg,le_rfl,by rw [hidx]⟩
      have := (h.mono (Nat.le_succ n)).page _ pg hpg i hi
      simpa [hidx] using this
    exact (h.mono (Nat.le_succ n)).page b qg (by simpa [setCache,hbg] using hq) i hi
  by_cases hbg : b = g.dir.blk
  · subst hbg
    simp
  simpa [setCache,hbg] using hb

end Restored

/-- The new server has come to `f`, `n` directories below the root. -/
structure Come (disk m : Mem) (f : Ptr) (n : Nat) (u : Fs) : Prop where
  restored : Restored disk m n u
  ready : Ready m u
  depth : Depth m f n
  cached : u.cache f.blk ≠ none
  saved : Saved disk m f.blk

namespace Come

variable {disk m : Mem} {n : Nat} {u : Fs} {f d g : Ptr} {name : List Byte}

lemma dirRounds (hs : Startable disk m) (hst : Stored disk m d) (hdir : m.word d.type = FTYPE_DIR)
    (hlen : name.length < MAXNAMELEN) (c : Nat) : ∀ {i : Nat} {u : Fs}, Come disk m d n u →
    ((i+c : Nat) : Int) ≤ sizeBlocks (m.word d.size) → i+c ≤ NINDIRECT → m.scan d name c i =
    some g → ∃ u', u.dirRounds d name c i = some (0,some g,u') ∧ Come disk m g (n+1) u' := by
  induction c with
  | zero =>
    intro i u _ _ _ h
    simp [scan] at h
  | succ c ih =>
    intro i u hu hsize hind h
    have h0 : m.blockOf d i ≠ 0 := by
      intro h0
      simp [scan,h0] at h
    obtain ⟨u1,hget,hu1,hk1,hc1⟩ := hu.restored.fileGetBlock hs hu.ready hu.depth hu.cached hu.saved hst
      h0 (by omega)
    obtain ⟨pg,hpg⟩ := ne_none_iff_exists'.mp hc1
    have hsaved := hst.data i (by omega) h0
    obtain ⟨p,hp,hw⟩ := blockOf_slot h0 (by omega : i < NINDIRECT)
    have hne := hs.owned.blk_ne_one hu.depth.isFile hp (by rwa [hw])
    rw [hw] at hne
    have hfind := hu1.findEntry hs.owned hpg hne hsaved hlen
    have h0' : m.blockOf d i ≠ 0#32 := h0
    cases hk : Fs.findEntry (m (m.blockOf d i).toNat) name with
    | some k =>
      obtain rfl : ⟨(m.blockOf d i).toNat,64*k⟩ = g := by simpa [scan,h0',hk] using h
      have hkb : k < BLKFILES := List.mem_range.mp (List.mem_of_find?_eq_some hk)
      have hg := hu.depth.of_block hdir h0 (by omega) hkb
      have hblk : (dir ⟨(m.blockOf d i).toNat,64*k⟩).blk = (m.blockOf d i).toNat := by
        rw [dir,(hs.owned.placed hg.isFile).off (by decide)]
      obtain ⟨u2,hput⟩ : ∃ u2, u1.put (dir ⟨(m.blockOf d i).toNat,64*k⟩) d.addr = some u2 := by
        simp [Fs.put,hblk,hpg]
      obtain ⟨hu2,hk2⟩ := hu1.put_dir hg hput
      refine ⟨u2,?_,⟨hu2,hu.ready.mono (hk1.trans hk2),hg,hk2 _ hc1,hsaved⟩⟩
      simp [Fs.dirRounds,hget,hpg,hfind,hk,hput]
    | none =>
      have h : m.scan d name c (i+1) = some g := by simpa [scan,h0',hk] using h
      have hu1' : Come disk m d n u1 :=
        ⟨hu1,hu.ready.mono hk1,hu.depth,hk1 _ hu.cached,hu.saved⟩
      obtain ⟨u2,hrest,hu2⟩ := ih hu1' (by omega) (by omega) h
      refine ⟨u2,?_,hu2⟩
      simp [Fs.dirRounds,hget,hpg,hfind,hk,hrest]

lemma get (hu : Come disk m f n u) (hs : Startable disk m) {i : Nat} (hi : i < 34) :
    u.get (f.off i) = some (m.word (f.off i)) := by
  have hoff := (hs.owned.placed hu.depth.isFile).off (i := i) (by omega)
  refine hu.restored.get ?_ ?_ (Nat.mod_lt _ (by decide)) fun g k hg _ he => ?_
  · rw [hoff]
    exact hu.cached
  · rw [hoff]
    exact hu.saved
  have := ((hs.owned.placed hu.depth.isFile).off_inj (hs.owned.placed hg.isFile) (by omega)
    (by decide) he).2
  omega

lemma dirLookup (hu : Come disk m d n u) (hs : Startable disk m) (hst : Stored disk m d) (hdir
    : m.word d.type = FTYPE_DIR) (hl : Legal m d) (hlen : name.length < MAXNAMELEN) (h : m.entry
    d name = some g) : ∃ u', u.dirLookup d name = some (0,some g,u') ∧ Come disk m g (n+1) u' := by
  have hsize : u.get d.size = some (m.word d.size) := hu.get hs (by decide)
  obtain ⟨hint,hmax⟩ := hl.size.toInt
  have hdiv := sdiv_small (n := m.word d.size) (by omega)
  have hni : NINDIRECT = 1024 := rfl
  obtain ⟨u',hrounds,hu'⟩ := dirRounds hs hst hdir hlen _ hu
    (by rw [hdiv,sizeBlocks,hint]; omega) (by rw [hdiv]; omega) h
  refine ⟨u',?_,hu'⟩
  have hrounds : u.dirRounds d name ((m.word d.size).sdiv 4096#32).toNat 0 =
    some (0,some g,u') := hrounds
  simp [Fs.dirLookup,hsize,hl.dir hdir,hrounds]

lemma walkRounds (hs : Startable disk m) (c : Nat) : ∀ {f : Ptr} {n : Nat} {u : Fs} {path :
    List Byte}, Come disk m f n u → (∀ d ∈ m.dirs f c path, Stored disk m d ∧ Legal m d) → m.walk f
    c path = some g → ∃ k u', u.walkRounds f c path = some (0,some g,u') ∧ Come disk m g k u' := by
  induction c with
  | zero =>
    intro f n u path hu _ h
    cases h
    exact ⟨n,u,rfl,hu⟩
  | succ c ih =>
    intro f n u path hu hst h
    by_cases hp : path = []
    · obtain rfl : f = g := by simpa [walk,hp] using h
      exact ⟨n,u,by simp [Fs.walkRounds,hp],hu⟩
    simp only [walk,if_neg hp] at h
    split at h
    · cases h
    rename_i hok
    push Not at hok
    obtain ⟨hlen,hdir⟩ := hok
    obtain ⟨e,he,h⟩ := of_bind h
    simp only [dirs,if_neg hp,he] at hst
    obtain ⟨hstf,hlf⟩ := hst f List.mem_cons_self
    obtain ⟨u1,hlook,hu1⟩ := hu.dirLookup hs hstf hdir hlf hlen he
    obtain ⟨k,u2,hrest,hu2⟩ := ih hu1 (fun d hd => hst d (List.mem_cons_of_mem _ hd)) h
    refine ⟨k,u2,?_,hu2⟩
    have htype : u.get f.type = some FTYPE_DIR := by
      rw [← hdir]
      exact hu.get hs (by decide)
    simp [Fs.walkRounds,hp,Nat.not_le.mpr hlen,htype,hlook,hrest]

lemma getBlock {j : Nat} (hu : Come disk m f n u)
    (hs : Startable disk m) (hst : Stored disk m f) (hl : LegalSize (m.word f.size))
    (hj : (j : Int) < sizeBlocks (m.word f.size)) (h0 : m.blockOf f j ≠ 0)
    : ∃ u', u.fileGetBlock f (ofNat 32 j) = some (0,(m.blockOf f j).toNat,u') ∧ Come disk m f n u' ∧
    ∀ i < 1024, u'.get ⟨(m.blockOf f j).toNat,i⟩ = some (m.word ⟨(m.blockOf f j).toNat,i⟩) := by
  have hni : NINDIRECT = 1024 := rfl
  obtain ⟨hint,hmax⟩ := hl.toInt
  have hjn : j < NINDIRECT := by
    rw [sizeBlocks,hint] at hj
    omega
  obtain ⟨u1,hget,hu1,hk1,hc1⟩ := hu.restored.fileGetBlock hs hu.ready hu.depth hu.cached hu.saved hst
    h0 hjn
  refine ⟨u1,hget,⟨hu1,hu.ready.mono hk1,hu.depth,hk1 _ hu.cached,hu.saved⟩,
    fun i hi => hu1.get hc1 (hst.data j hj h0) hi fun g k hg hk he => ?_⟩
  -- The files in the blocks of `f` are further down than those whose `f_dir` was set.
  obtain ⟨p,hp,hw⟩ := blockOf_slot h0 hjn
  have hblk : g.blk = (m.word p).toNat := by
    rw [dir,(hs.owned.placed hg.isFile).off (by decide)] at he
    rw [hw]
    exact (Ptr.mk.inj he).1.symm
  have := hu.depth.inside hs.owned hp (by rwa [hw]) hg hblk
  omega

end Come

def freshFs (disk : Mem) : Fs :=
  {disk := disk, cache := fun _ => none, chance := [], junk := [], notes := []}

lemma Startable.fileOpen {disk m : Mem} {path : List Byte} {f : Ptr} (hs : Startable disk m) (hst
    : ∀ d ∈ m.dirsOf path, Stored disk m d ∧ Legal m d) (h : m.resolve path = some f) : ∃ u n u1,
    (freshFs disk).fsInit = some u ∧ u.fileOpen path = some (0,some f,u1) ∧ Come disk m f n u1 := by
  obtain ⟨u,hinit,hu,hr⟩ := Restored.fsInit hs
  have hroot : Come disk m rootFile 0 u :=
    ⟨hu,hr,.root,hr 1 m.one_lt_nreserved Nat.one_ne_zero,hs.super⟩
  obtain ⟨n,u1,hopen,hu1⟩ := Come.walkRounds hs _ hroot hst h
  exact ⟨u,n,u1,hinit,hopen,hu1⟩

end KludgeOS
