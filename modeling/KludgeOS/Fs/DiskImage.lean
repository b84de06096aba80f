import KludgeOS.Fs.Flush

/-!
A disk that is behind the volume its server sees. Its slots are those of the
volume or empty, and no block in use in the volume is free on it.
-/

namespace KludgeOS
open Mem (word_put_ne isFree)
open Mem Function Fs
open FsEdit (act unhook release)
open BitVec (toNat ofNat)

variable {opened : Set Ptr} {v u : Vol} {f g d p : Ptr} {pl : Place} {i j b : Nat} {e : FsEdit}
  {disk disk' : Mem} {w : Word}

structure Below (v : Vol) (disk : Mem) : Prop where
  fewer : Fewer v.files v.mem disk
  blocks : disk.nblocks = v.mem.nblocks
  used : ∀ x < v.mem.nblocks, v.mem.isFree x = false → disk.isFree x = false

lemma Below.refl (v : Vol) : Below v v.mem :=
  ⟨⟨fun _ _ _ _ _ => .inl rfl,fun _ _ _ _ _ => .inl rfl⟩,rfl,fun _ _ h => h⟩

lemma Below.owned (h : Below v disk) (hv : Tidy opened v) : Owned disk := by
  have hfile : ∀ {g}, IsFile disk g → g ∈ v.files := by
    intro g hg
    induction hg with
    | root => exact hv.root
    | entry _ hdir hp hdata h0 hk ih =>
      obtain ⟨hs,he⟩ := h.fewer.number ih hp h0
      rw [he] at h0 ⊢
      exact hv.closed _ ih (h.fewer.dir ih hdir) _ _ hs hdata h0 _ hk
  refine ⟨fun f pl p hf hp h0 => ?_,fun f g pl ql p q hf hg hp hq h0 he => ?_⟩
  · obtain ⟨hs,hw⟩ := h.fewer.number (hfile hf) hp h0
    rw [hw] at h0 ⊢
    obtain ⟨hu,hused⟩ := hv.good f (hfile hf) pl p hs h0
    exact ⟨hu.congr h.blocks,h.used _ hu.2 hused⟩
  obtain ⟨hs,hw⟩ := h.fewer.number (hfile hf) hp h0
  obtain ⟨hs',hw'⟩ := h.fewer.number (hfile hg) hq (he ▸ h0)
  exact hv.inj f (hfile hf) g (hfile hg) pl ql p q hs hs' (hw ▸ h0) (by rw [← hw,← hw',he])

lemma Mem.fill_same (m : Mem) (b : Nat) : m.fill b (m b) = m := by simp [fill]

lemma Tidy.nblocks_act (h : Tidy opened v) (hok : e.Ok v) :
    (e.act opened v).mem.nblocks = v.mem.nblocks := by
  cases e with
  | load b c =>
    have h1 : (⟨1,1⟩ : Ptr).blk ≠ b := by
      rintro rfl
      exact hok.1 ((h.sys 1 v.mem.one_lt_nreserved).2 Nat.one_ne_zero)
    exact congrArg toNat (word_fill_ne _ _ h1)
  | take b c =>
    have h1 : (⟨1,1⟩ : Ptr).blk ≠ b := by
      rintro rfl
      have := (h.sys 1 v.mem.one_lt_nreserved).1
      rw [hok.2.1] at this
      cases this
    exact (congrArg toNat (word_fill_ne _ _ h1)).trans
      (nblocks_put (bitmapAt_ne_super (b/32)))
  | hang g pl p x => exact h.nblocks_slot hok.1 hok.2.1 _
  | unhook g pl p => exact h.nblocks_slot hok.1 hok.2 _
  | release x => exact nblocks_put (bitmapAt_ne_super _)
  | field g i w =>
    obtain ⟨hg,hi⟩ := hok
    exact nblocks_put ((h.placed g hg).off_ne_sys (i := i) (by omega)).1

/-! Directories that stay as they are. -/

def Plain (v : Vol) : FsEdit → Prop
  | .load b c => c = v.mem b
  | .take _ _ => True
  | .hang f pl _ _ => pl ≠ .indirect ∧ v.mem.word f.type ≠ FTYPE_DIR
  | .unhook f _ _ => v.mem.word f.type ≠ FTYPE_DIR
  | .release _ => True
  | .field f i w => i = 45 ∧ Within v f w ∨ i ≠ 45 ∧ v.mem.word f.type ≠ FTYPE_DIR

namespace Plain

lemma off_same (hp : Plain v e) (hv : Tidy opened v) (hok : e.Ok v) (hg : g ∈ v.files)
    (hi : i < 34 ∨ i = 45) (he : ∀ w, e ≠ .field g i w) :
    (e.act opened v).mem.word (g.off i) = v.mem.word (g.off i) := by
  by_cases hload : ∃ b c, e = .load b c
  · obtain ⟨b,c,rfl⟩ := hload
    obtain rfl : c = v.mem b := hp
    simp only [act,fill_same]
  exact hv.act_off_of_ne hok hg (fun c hc => hload ⟨_,c,hc⟩) hi he

lemma type_same (hp : Plain v e) (hv : Tidy opened v) (hok : e.Ok v) (hg : g ∈ v.files) :
    (e.act opened v).mem.word g.type = v.mem.word g.type := by
  refine hp.off_same hv hok hg (.inl (by decide)) ?_
  rintro w rfl
  have := hok.2
  omega

lemma slot_ne (hv : Tidy opened v) (hf : f ∈ v.files)
    (hslot : BlockSlot v.mem f pl p) (htype : v.mem.word f.type ≠ FTYPE_DIR) (hd : d ∈ v.files)
    (hdir : v.mem.word d.type = FTYPE_DIR) : (∀ i, 32 ≤ i → i < 45 → d.off i ≠ p) ∧
    (v.mem.word d.indirect ≠ 0 → ∀ j < NINDIRECT, ⟨(v.mem.word d.indirect).toNat,j⟩ ≠ p) := by
  have hn : NDIRECT = 10 := rfl
  have hfd : ∀ ql, BlockSlot v.mem d ql p → False := by
    intro ql hq
    obtain ⟨rfl,_⟩ := hv.slot_inj hf hd hslot hq
    exact htype hdir
  refine ⟨fun i hi hi' he => ?_,fun h0 j hj he => hfd (.entry j) (he ▸ .entry h0 hj)⟩
  by_cases hi34 : i < 34
  · exact hv.slot_ne_off hf hd hslot (.inl hi34) he.symm
  by_cases hi44 : i = 44
  · subst hi44
    exact hfd .indirect (he ▸ .indirect)
  have hdirect : d.direct (i-34) = p := by
    rw [← he,Ptr.direct]
    congr 1
    omega
  exact hfd (.direct (i-34)) (hdirect ▸ .direct (by omega))

section

variable (hp : Plain v e) (hv : Tidy opened v) (hok : e.Ok v)
include hp hv hok

lemma dir_same (hd : d ∈ v.files) (hdir : v.mem.word d.type = FTYPE_DIR) : (∀ i, 32 ≤ i → i < 45 →
    (e.act opened v).mem.word (d.off i) = v.mem.word (d.off i)) ∧ (v.mem.word d.indirect ≠ 0 →
    ∀ j < NINDIRECT, (e.act opened v).mem.word ⟨(v.mem.word d.indirect).toNat,j⟩ =
    v.mem.word ⟨(v.mem.word d.indirect).toNat,j⟩) := by
  cases e with
  | load b c =>
    obtain rfl : c = v.mem b := hp
    simp [act,fill_same]
  | take b c =>
    exact ⟨fun i _ hi => hv.take_word hok hd (by omega),fun h0 j hj => hv.take_entry hok hd h0 hj⟩
  | hang f pl p b =>
    obtain ⟨h1,h2⟩ := slot_ne hv hok.1 hok.2.1 hp.2 hd hdir
    exact ⟨fun i hi hi' => word_put_ne (h1 i hi hi'),fun h0 j hj => word_put_ne (h2 h0 j hj)⟩
  | unhook f pl p =>
    obtain ⟨h1,h2⟩ := slot_ne hv hok.1 hok.2 hp hd hdir
    exact ⟨fun i hi hi' => word_put_ne (h1 i hi hi'),fun h0 j hj => word_put_ne (h2 h0 j hj)⟩
  | release b =>
    refine ⟨fun i _ hi => hv.release_word hok hd (by omega),fun h0 j hj => ?_⟩
    exact word_put_ne ((hv.slot_ne_sys hd (.entry h0 hj)).2 b hok.1.2)
  | field f k w =>
    obtain ⟨hf,hk⟩ := hok
    refine ⟨fun i hi hi' => word_put_ne fun he => ?_,
      fun h0 j hj => word_put_ne (hv.entry_ne_off hd h0 hf (by omega))⟩
    obtain ⟨rfl,rfl⟩ := (hv.placed d hd).off_inj (hv.placed f hf) (by omega) (by omega) he
    obtain ⟨h45,_⟩ | ⟨_,htype⟩ := hp
    · omega
    exact htype hdir

lemma slot_same (hd : d ∈ v.files) (hdir : v.mem.word d.type = FTYPE_DIR) (hs : BlockSlot v.mem d
    pl p) : BlockSlot (e.act opened v).mem d pl p ∧ (e.act opened v).mem.word p = v.mem.word p := by
  have hn : NDIRECT = 10 := rfl
  obtain ⟨hoff,hent⟩ := hp.dir_same hv hok hd hdir
  refine ⟨hs.congr (hoff 44 (by decide) (by decide)),?_⟩
  cases hs with
  | direct hj => exact hoff _ (by omega) (by omega)
  | indirect => exact hoff _ (by omega) (by omega)
  | entry h0 hj => exact hent h0 _ hj

lemma blockOf_same (hd : d ∈ v.files) (hdir : v.mem.word d.type = FTYPE_DIR) (hj : j < NINDIRECT)
    : (e.act opened v).mem.blockOf d j = v.mem.blockOf d j := by
  have hn : NDIRECT = 10 := rfl
  obtain ⟨hoff,hent⟩ := hp.dir_same hv hok hd hdir
  have hind : (e.act opened v).mem.word d.indirect = v.mem.word d.indirect :=
    hoff 44 (by decide) (by decide)
  simp only [blockOf]
  split
  · exact hoff _ (by omega) (by omega)
  rw [hind]
  split
  · rfl
  rename_i h0
  exact hent h0 j hj

lemma within (hfiles : (e.act opened v).files = v.files)
    (h : Within v g w) : Within (e.act opened v) g w := by
  obtain ⟨d,hd,rfl,htype,j,hj,hlt,p,hs,hw⟩ := h
  obtain ⟨hs',hw'⟩ := hp.slot_same hv hok hd htype hs
  have hsize : (e.act opened v).mem.word d.size = v.mem.word d.size :=
    (hp.dir_same hv hok hd htype).1 32 (by decide) (by decide)
  refine ⟨d,hfiles ▸ hd,rfl,(hp.type_same hv hok hd).trans htype,j,?_,hlt,p,hs',?_⟩
  · rw [hsize]
    exact hj
  rw [hw']
  exact hw

end

end Plain

def Solid (m : Mem) (d : Ptr) : Prop :=
  LegalSize (m.word d.size) ∧ ∀ j : Nat, (j : Int) < sizeBlocks (m.word d.size) → m.blockOf d j ≠ 0

/-- Every file is in a directory, directories have no holes, and `f_dir` of the open files is
right. -/
structure Stable (opened : Set Ptr) (v : Vol) : Prop where
  rooted : ∀ g ∈ v.files, g ≠ rootFile → ∃ d ∈ v.files, v.mem.word d.type = FTYPE_DIR ∧
    ∃ pl p, BlockSlot v.mem d pl p ∧ (v.mem.word p).toNat = g.blk
  solid : ∀ d ∈ v.files, v.mem.word d.type = FTYPE_DIR → Solid v.mem d
  dirs : ∀ o ∈ opened, o ≠ rootFile → Within v o (v.mem.word o.dir)

namespace Stable

lemma files_same (h : Stable opened v) (hok : e.Ok v) (hp : Plain v e) :
    (e.act opened v).files = v.files := by
  cases e with
  | load | take | unhook | field => rfl
  | hang f pl p b =>
    refine Set.ext fun g => ⟨?_,.inl⟩
    rintro (hg | ⟨_,hdir,_⟩)
    · exact hg
    exact absurd hdir hp.2
  | release b =>
    refine Set.ext fun g => ⟨fun hg => hg.1,fun hg => ⟨hg,fun hb => ?_⟩⟩
    obtain ⟨hu,hslots⟩ := hok
    by_cases hr : g = rootFile
    · subst hr
      have h1 := hu.1
      have h2 := v.mem.one_lt_nreserved
      have : 1 = b := hb
      omega
    obtain ⟨d,hd,_,pl,p,hs,hw⟩ := h.rooted g hg hr
    exact absurd (hw.trans hb) (hslots d hd pl p hs)

lemma size_lt (h : Solid v.mem d) (hj : (j : Int) < sizeBlocks (v.mem.word d.size)) :
    j < NINDIRECT := by
  obtain ⟨hint,hmax⟩ := h.1.toInt
  have hni : NINDIRECT = 1024 := rfl
  rw [sizeBlocks,hint] at hj
  omega

lemma act (h : Stable opened v) (hv : Tidy opened v) (hok : e.Ok v) (hp : Plain v e) :
    Stable opened (e.act opened v) := by
  have hfiles := h.files_same hok hp
  refine ⟨fun g hg hr => ?_,fun d hd hdir => ?_,fun o ho hr => ?_⟩
  · rw [hfiles] at hg
    obtain ⟨d,hd,hdir,pl,p,hs,hw⟩ := h.rooted g hg hr
    obtain ⟨hs',hw'⟩ := hp.slot_same hv hok hd hdir hs
    exact ⟨d,hfiles ▸ hd,(hp.type_same hv hok hd).trans hdir,pl,p,hs',by rw [hw']; exact hw⟩
  · rw [hfiles] at hd
    rw [hp.type_same hv hok hd] at hdir
    have hsol := h.solid d hd hdir
    have hsize : (e.act opened v).mem.word d.size = v.mem.word d.size :=
      (hp.dir_same hv hok hd hdir).1 32 (by decide) (by decide)
    refine ⟨by rw [hsize]; exact hsol.1,fun j hj => ?_⟩
    rw [hsize] at hj
    rw [hp.blockOf_same hv hok hd hdir (size_lt hsol hj)]
    exact hsol.2 j hj
  obtain ⟨hof,_,_⟩ := hv.held o ho
  by_cases he : ∃ w, e = .field o 45 w
  · obtain ⟨w,rfl⟩ := he
    have hw : Within v o w := by
      obtain ⟨_,hw⟩ | ⟨h45,_⟩ := hp
      · exact hw
      exact absurd rfl h45
    have hset : ((FsEdit.field o 45 w).act opened v).mem.word o.dir = w := word_put_self _ _ _
    rw [hset]
    exact hp.within hv hok hfiles hw
  have hsame : (e.act opened v).mem.word o.dir = v.mem.word o.dir :=
    hp.off_same hv hok hof (.inr rfl) fun w hw => he ⟨w,hw⟩
  rw [hsame]
  exact hp.within hv hok hfiles (h.dirs o ho hr)

end Stable

/-! The disk while files grow. -/

def FsEdit.written (e : FsEdit) (m disk : Mem) : Mem :=
  match e with
  | .take b _ => update disk (2+b/BLKBITSIZE) (m (2+b/BLKBITSIZE))
  | _ => disk

namespace Below

section

variable (h : Below v disk) (hv : Tidy opened v)
include h hv

lemma take {c : Nat → Word} (hok : (FsEdit.take b c).Ok v) : Below ((FsEdit.take b c).act
    opened v) ((FsEdit.take b c).written ((FsEdit.take b c).act opened v).mem disk) := by
  have hnb := hv.nblocks_act hok
  change Below _ (update disk (2+b/32768) (((FsEdit.take b c).act opened v).mem (2+b/32768)))
  have hres : 2+b/32768 < v.mem.nreserved := by
    have := bitmap_reserved hok.1
    simp only [bitmapAt] at this
    omega
  -- What is not in the bitmap is on the disk as before.
  have hother : ∀ p : Ptr, p.blk ≠ 2+b/32768 → word (update disk (2+b/32768)
        (((FsEdit.take b c).act opened v).mem (2+b/32768))) p = disk.word p := by
    intro p hp
    simp only [word,update_of_ne hp]
  have hoff : ∀ g ∈ v.files, ∀ i < 64, (g.off i).blk ≠ 2+b/32768 := by
    intro g hg i hi
    rw [(hv.placed g hg).off hi]
    obtain rfl | hr := hv.placed g hg
    · change 1 ≠ _
      omega
    have := hr.usable.1
    change g.blk ≠ _
    omega
  refine ⟨⟨fun g hg i hi hi' => ?_,fun g hg h0 j hj => ?_⟩,?_,fun x hx hu => ?_⟩
  · have hw : ((FsEdit.take b c).act opened v).mem.word (g.off i) = v.mem.word (g.off i) :=
      hv.take_word hok hg (by omega)
    rw [hw,hother _ (hoff g hg i (by omega))]
    exact h.fewer.off g hg i hi hi'
  · have hind : ((FsEdit.take b c).act opened v).mem.word g.indirect = v.mem.word g.indirect :=
      hv.take_word hok hg (by decide)
    rw [hind] at h0 ⊢
    have hw : ((FsEdit.take b c).act opened v).mem.word ⟨(v.mem.word g.indirect).toNat,j⟩ =
        v.mem.word ⟨(v.mem.word g.indirect).toNat,j⟩ := hv.take_entry hok hg h0 hj
    have hblk : (v.mem.word g.indirect).toNat ≠ 2+b/32768 := by
      have := (hv.good g hg _ _ .indirect h0).1.1
      omega
    rw [hw,hother _ hblk]
    exact h.fewer.ent g hg h0 j hj
  · rw [hnb,← h.blocks]
    exact congrArg toNat (hother ⟨1,1⟩ (by change 1 ≠ _; omega))
  rw [hnb] at hx
  by_cases hb : (bitmapAt (x/32)).blk = 2+b/32768
  · simpa only [isFree,word,hb,update_self] using hu
  have hblk : (bitmapAt (x/32)).blk ≠ b := by
    rintro rfl
    have := (hv.sys _ (bitmap_reserved hx)).1
    rw [hok.2.1] at this
    cases this
  have hxb : x ≠ b := by
    rintro rfl
    simp only [bitmapAt] at hb
    omega
  have hsame : ((FsEdit.take b c).act opened v).mem.isFree x = v.mem.isFree x := by
    simp only [act]
    rw [isFree,word_fill_ne _ _ hblk,← isFree,isFree_useBit]
    simp [hxb]
  rw [hsame] at hu
  rw [isFree,hother _ hb]
  exact h.used x hx hu

lemma hang (hst : Stable opened v) (hok : (FsEdit.hang f pl p b).Ok v)
    (hp : Plain v (.hang f pl p b)) : Below ((FsEdit.hang f pl p b).act opened v) disk := by
  have hfiles := hst.files_same hok hp
  have hnb := hv.nblocks_act hok
  have hok' := hok
  obtain ⟨hf,hs,h0,_⟩ := hok'
  have hn : NDIRECT = 10 := rfl
  have hempty : disk.word p = 0 := by
    cases hs with
    | @direct j hj =>
      obtain hw | hw := h.fewer.off f hf (34+j) (by omega) (by omega)
      · exact hw.trans h0
      exact hw
    | indirect => exact absurd rfl hp.1
    | entry hi hj =>
      obtain hw | hw := h.fewer.ent f hf hi _ hj
      · exact hw.trans h0
      exact hw
  have hword : ∀ q, disk.word q = v.mem.word q ∨ disk.word q = 0 →
      disk.word q = (v.mem.put p (ofNat 32 b)).word q ∨ disk.word q = 0 := by
    intro q hq
    by_cases hqp : q = p
    · exact .inr (hqp ▸ hempty)
    rw [word_put_ne hqp]
    exact hq
  refine ⟨⟨fun g hg i hi hi' => ?_,fun g hg hi0 j hj => ?_⟩,h.blocks.trans hnb.symm,fun x hx hu => ?_⟩
  · rw [hfiles] at hg
    exact hword _ (h.fewer.off g hg i hi hi')
  · rw [hfiles] at hg
    have hind : (v.mem.put p (ofNat 32 b)).word g.indirect = v.mem.word g.indirect := by
      refine word_put_ne ?_
      rintro rfl
      exact hp.1 (hv.slot_inj hf hg hs .indirect).2
    change (v.mem.put p (ofNat 32 b)).word g.indirect ≠ 0 at hi0
    have hblk : ((FsEdit.hang f pl p b).act opened v).mem.word g.indirect = v.mem.word g.indirect := hind
    rw [hind] at hi0
    rw [hblk]
    exact hword _ (h.fewer.ent g hg hi0 j hj)
  rw [hnb] at hx
  have hsame : ((FsEdit.hang f pl p b).act opened v).mem.isFree x = v.mem.isFree x :=
    hv.isFree_slot hf hs _ hx
  rw [hsame] at hu
  exact h.used x hx hu

lemma field {w : Word} (hok : (FsEdit.field f i w).Ok v) :
    Below ((FsEdit.field f i w).act opened v) disk := by
  have hnb := hv.nblocks_act hok
  obtain ⟨hf,hi⟩ := hok
  have hi64 : i < 64 := by omega
  have hoff : ∀ g ∈ v.files, ∀ k, 33 ≤ k → k < 45 →
      (v.mem.put (f.off i) w).word (g.off k) = v.mem.word (g.off k) := by
    intro g hg k hk hk'
    refine word_put_ne fun he => ?_
    have := ((hv.placed g hg).off_inj (hv.placed f hf) (by omega) hi64 he).2
    omega
  refine ⟨⟨fun g hg k hk hk' => ?_,fun g hg h0 j hj => ?_⟩,h.blocks.trans hnb.symm,fun x hx hu => ?_⟩
  · have := h.fewer.off g hg k hk hk'
    rwa [← hoff g hg k hk hk'] at this
  · have hind : (v.mem.put (f.off i) w).word g.indirect = v.mem.word g.indirect :=
      hoff g hg 44 (by decide) (by decide)
    change (v.mem.put (f.off i) w).word g.indirect ≠ 0 at h0
    have hblk : ((FsEdit.field f i w).act opened v).mem.word g.indirect = v.mem.word g.indirect := hind
    rw [hind] at h0
    have hent : ((FsEdit.field f i w).act opened v).mem.word ⟨(v.mem.word g.indirect).toNat,j⟩ =
        v.mem.word ⟨(v.mem.word g.indirect).toNat,j⟩ :=
      word_put_ne (hv.entry_ne_off hg h0 hf hi64)
    rw [hblk,hent]
    exact h.fewer.ent g hg h0 j hj
  rw [hnb] at hx
  have hsame : ((FsEdit.field f i w).act opened v).mem.isFree x = v.mem.isFree x :=
    isFree_put (((hv.placed f hf).off_ne_sys hi64).2 x hx)
  rw [hsame] at hu
  exact h.used x hx hu

lemma act (hst : Stable opened v) (hok : e.Ok v)
    (hp : Plain v e) (hun : ∀ f pl p, e ≠ .unhook f pl p) (hre : ∀ b, e ≠ .release b) :
    Below (e.act opened v) (e.written (e.act opened v).mem disk) := by
  cases e with
  | load b c =>
    obtain rfl : c = v.mem b := hp
    simp only [act,fill_same]
    exact ⟨h.fewer,h.blocks,h.used⟩
  | take b c => exact h.take hv hok
  | hang f pl p b => exact h.hang hv hst hok hp
  | unhook f pl p => exact absurd rfl (hun f pl p)
  | release b => exact absurd rfl (hre b)
  | field f i w => exact h.field hv hok

end

end Below

/-! The disk while a file loses blocks. -/

/-- From `v` to `u` only `f` has lost numbers from its slots. -/
structure Trims (f : Ptr) (v u : Vol) : Prop where
  files : u.files = v.files
  off : ∀ g ∈ v.files, ∀ i, 33 ≤ i → i < 45 →
    u.mem.word (g.off i) = v.mem.word (g.off i) ∨ g = f ∧ u.mem.word (g.off i) = 0
  ent : ∀ g ∈ v.files, v.mem.word g.indirect ≠ 0 → ∀ j < NINDIRECT,
    u.mem.word ⟨(v.mem.word g.indirect).toNat,j⟩ = v.mem.word ⟨(v.mem.word g.indirect).toNat,j⟩ ∨
      g = f ∧ u.mem.word ⟨(v.mem.word g.indirect).toNat,j⟩ = 0
  blocks : u.mem.nblocks = v.mem.nblocks
  used : ∀ x < v.mem.nblocks, u.mem.isFree x = false → v.mem.isFree x = false

namespace Trims

lemma refl (f : Ptr) (v : Vol) : Trims f v v :=
  ⟨rfl,fun _ _ _ _ _ => .inl rfl,fun _ _ _ _ _ => .inl rfl,rfl,fun _ _ h => h⟩

lemma fewer (h : Trims f v u) : Fewer v.files v.mem u.mem :=
  ⟨fun g hg i hi hi' => (h.off g hg i hi hi').imp_right And.right,
    fun g hg h0 j hj => (h.ent g hg h0 j hj).imp_right And.right⟩

lemma of_words (h : Trims f v u) {m : Mem} {cached : Nat → Prop}
    (hoff : ∀ g ∈ v.files, ∀ i, 33 ≤ i → i < 45 → m.word (g.off i) = u.mem.word (g.off i) ∨ g = f ∧
    m.word (g.off i) = 0) (hent : ∀ g ∈ v.files, v.mem.word g.indirect ≠ 0 → ∀ j < NINDIRECT, m.word
    ⟨(v.mem.word g.indirect).toNat,j⟩ = u.mem.word ⟨(v.mem.word g.indirect).toNat,j⟩ ∨ g = f ∧
    m.word ⟨(v.mem.word g.indirect).toNat,j⟩ = 0) (hn : m.nblocks = u.mem.nblocks) (hused : ∀ x <
    u.mem.nblocks, m.isFree x = false → u.mem.isFree x = false) : Trims f v ⟨m,cached,u.files⟩ := by
  refine ⟨h.files,fun g hg i hi hi' => ?_,fun g hg h0 j hj => ?_,hn.trans h.blocks,fun x hx hu => ?_⟩
  · obtain hw | hw := hoff g hg i hi hi'
    · rw [show (Vol.mk m cached u.files).mem.word (g.off i) = u.mem.word (g.off i) from hw]
      exact h.off g hg i hi hi'
    exact .inr hw
  · obtain hw | hw := hent g hg h0 j hj
    · rw [show (Vol.mk m cached u.files).mem.word ⟨(v.mem.word g.indirect).toNat,j⟩ =
        u.mem.word ⟨(v.mem.word g.indirect).toNat,j⟩ from hw]
      exact h.ent g hg h0 j hj
    exact .inr hw
  exact h.used x hx (hused x (by rw [h.blocks]; exact hx) hu)

section

variable (h : Trims f v u) (hv : Tidy opened v) (hu : Tidy opened u)
include h hv hu

lemma unhook (hok : (unhook f pl p).Ok u) : Trims f v ((unhook f pl p).act opened u) := by
  obtain ⟨hf,hs⟩ := hok
  have hd : NDIRECT = 10 := rfl
  refine h.of_words (fun g hg i hi hi' => ?_) (fun g hg h0 j hj => ?_) (hu.nblocks_slot hf hs 0)
    fun x hx hused => by rwa [hu.isFree_slot hf hs 0 hx] at hused
  · by_cases he : g.off i = p
    · refine .inr ⟨?_,by rw [he,word_put_self]⟩
      have hg' : g ∈ u.files := h.files ▸ hg
      by_cases hi33 : i = 33
      · exact absurd he.symm (hu.slot_ne_off hf hg' hs (.inl (by omega)))
      by_cases hi44 : i = 44
      · subst hi44
        have hslot : BlockSlot u.mem g .indirect p := he ▸ .indirect
        exact (hu.slot_inj hg' hf hslot hs).1
      have hdirect : g.direct (i-34) = p := by
        rw [← he,Ptr.direct]
        congr 1
        omega
      have hslot : BlockSlot u.mem g (.direct (i-34)) p := hdirect ▸ .direct (by omega)
      exact (hu.slot_inj hg' hf hslot hs).1
    exact .inl (word_put_ne he)
  by_cases he : (⟨(v.mem.word g.indirect).toNat,j⟩ : Ptr) = p
  · refine .inr ⟨?_,by rw [he,word_put_self]⟩
    have hfv : f ∈ v.files := h.files ▸ hf
    obtain ⟨hs',_⟩ := h.fewer.slot hfv hs
    have hslot : BlockSlot v.mem g (.entry j) p := he ▸ .entry h0 hj
    exact (hv.slot_inj hg hfv hslot hs').1
  exact .inl (word_put_ne he)

lemma release (hst : Stable opened u)
    (hok : (release b).Ok u) : Trims f v ((release b).act opened u) := by
  have hfiles := hst.files_same hok (e := .release b) trivial
  have hb := hok.1.2
  have hwords : Trims f v ⟨u.mem.freeBit b,u.cached,u.files⟩ := by
    refine h.of_words (fun g hg i hi hi' => .inl ?_) (fun g hg h0 j hj => .inl ?_)
      (nblocks_put (bitmapAt_ne_super _)) fun x _ hused => ?_
    · exact word_put_ne (hu.off_ne_bitmap (h.files ▸ hg) (by omega) hb)
    · exact word_put_ne ((hv.slot_ne_sys hg (.entry h0 hj)).2 b (h.blocks ▸ hb))
    simp only [isFree_freeBit,Bool.or_eq_false_iff] at hused
    exact hused.1
  exact ⟨hfiles.trans h.files,hwords.off,hwords.ent,hwords.blocks,hwords.used⟩

lemma field {w : Word}
    (hok : (FsEdit.field g i w).Ok u) : Trims f v ((FsEdit.field g i w).act opened u) := by
  obtain ⟨hg,hi⟩ := hok
  have hi64 : i < 64 := by omega
  have hsys := (hu.placed g hg).off_ne_sys hi64
  refine h.of_words (fun g' hg' k hk hk' => .inl (word_put_ne fun he => ?_))
    (fun g' hg' h0 j hj => .inl (word_put_ne (hv.entry_ne_off hg' h0 (h.files ▸ hg) hi64)))
    (nblocks_put hsys.1) fun x hx hused => by rwa [isFree_put (hsys.2 x hx)] at hused
  have := ((hu.placed g' (h.files ▸ hg')).off_inj (hu.placed g hg) (by omega) hi64 he).2
  omega

lemma act {n : Word} (hst : Stable opened u) (hok : e.Ok u) (hp : Plain u e)
    (hcut : Resizes f n u e) : Trims f v (e.act opened u) := by
  cases e with
  | load b c =>
    obtain rfl : c = u.mem b := hp
    simp only [act,fill_same]
    exact ⟨h.files,h.off,h.ent,h.blocks,h.used⟩
  | take b c => exact absurd hcut id
  | hang g pl p b => exact absurd hcut id
  | unhook g pl p =>
    obtain rfl : g = f := hcut
    exact h.unhook hv hu hok
  | release b => exact h.release hv hu hst hok
  | field g i w => exact h.field hv hu hok

end

end Trims

namespace Below

lemma mix (h : Below v disk) (ht : Trims f v u) (hmix : ∀ b, disk' b = disk b ∨ disk' b = u.mem b)
    (hused : ∀ x < v.mem.nblocks, v.mem.isFree x = false → disk'.isFree x = false)
    : Below v disk' := by
  have hword : ∀ p : Ptr, disk'.word p = disk.word p ∨ disk'.word p = u.mem.word p :=
    fun p => (hmix p.blk).imp (fun h => congrFun h p.idx) fun h => congrFun h p.idx
  refine ⟨⟨fun g hg i hi hi' => ?_,fun g hg h0 j hj => ?_⟩,?_,hused⟩
  · obtain hw | hw := hword (g.off i)
    · rw [hw]
      exact h.fewer.off g hg i hi hi'
    rw [hw]
    exact ht.fewer.off g hg i hi hi'
  · obtain hw | hw := hword ⟨(v.mem.word g.indirect).toNat,j⟩
    · rw [hw]
      exact h.fewer.ent g hg h0 j hj
    rw [hw]
    exact ht.fewer.ent g hg h0 j hj
  obtain hw | hw := hword ⟨1,1⟩
  · exact (congrArg toNat hw).trans h.blocks
  exact (congrArg toNat hw).trans ht.blocks

lemma settle (h : Below v disk) (ht : Trims f v u) (hblk : ∀ i, 33 ≤ i → i < 45 →
    disk.word (f.off i) = u.mem.word (f.off i)) (hind : u.mem.word f.indirect = 0 ∨ ∀ j < NINDIRECT,
    u.mem.word ⟨(v.mem.word f.indirect).toNat,j⟩ = v.mem.word ⟨(v.mem.word f.indirect).toNat,j⟩)
    : Below u disk := by
  refine ⟨⟨fun g hg i hi hi' => ?_,fun g hg h0 j hj => ?_⟩,h.blocks.trans ht.blocks.symm,
    fun x hx hu => ?_⟩
  · rw [ht.files] at hg
    by_cases hgf : g = f
    · subst hgf
      exact .inl (hblk i hi hi')
    obtain hw | ⟨he,_⟩ := ht.off g hg i hi hi'
    · rw [hw]
      exact h.fewer.off g hg i hi hi'
    exact absurd he hgf
  · rw [ht.files] at hg
    have hsame : u.mem.word g.indirect = v.mem.word g.indirect := by
      obtain hw | ⟨_,hw⟩ := ht.off g hg 44 (by decide) (by decide)
      · exact hw
      exact absurd hw h0
    rw [hsame] at h0 ⊢
    have hent : u.mem.word ⟨(v.mem.word g.indirect).toNat,j⟩ =
        v.mem.word ⟨(v.mem.word g.indirect).toNat,j⟩ := by
      obtain hw | ⟨rfl,_⟩ := ht.ent g hg h0 j hj
      · exact hw
      obtain hz | hw := hind
      · rw [hsame] at hz
        exact absurd hz h0
      exact hw j hj
    rw [hent]
    exact h.fewer.ent g hg h0 j hj
  rw [ht.blocks] at hx
  exact h.used x hx (ht.used x hx hu)

end Below

end KludgeOS
