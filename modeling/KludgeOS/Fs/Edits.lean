import KludgeOS.Fs.CacheSpec
import KludgeOS.Fs.Volume
import KludgeOS.Traces

/-!
The file system as a machine of edits. Tidiness is proved here, once for each kind of edit.
-/

namespace KludgeOS
open BitVec (ofNat)
open BitVec Fs Mem

inductive FsEdit where
  | load : (b : Nat) → (c : Nat → Word) → FsEdit
  | take : (b : Nat) → (c : Nat → Word) → FsEdit
  | hang : (f : Ptr) → Place → (p : Ptr) → (b : Nat) → FsEdit
  | unhook : (f : Ptr) → Place → (p : Ptr) → FsEdit
  | release : (b : Nat) → FsEdit
  | field : (f : Ptr) → (i : Nat) → (w : Word) → FsEdit

def records (b : Nat) : Set Ptr := {f | f.blk = b ∧ ∃ k < BLKFILES, f.idx = 64*k}

namespace Mem

variable {m : Mem} {p : Ptr} {b x : Nat} {w : Word}

def useBit (m : Mem) (b : Nat) : Mem :=
  m.put (bitmapAt (b/32)) (m.word (bitmapAt (b/32))&&&~~~bit (b%32))

def freeBit (m : Mem) (b : Nat) : Mem :=
  m.put (bitmapAt (b/32)) (m.word (bitmapAt (b/32))|||bit (b%32))

lemma bitmapAt_inj {i j : Nat} (h : bitmapAt i = bitmapAt j) : i = j := by
  simp only [bitmapAt,Ptr.mk.injEq] at h
  omega

lemma isFree_put (h : p ≠ bitmapAt (x/32)) : (m.put p w).isFree x = m.isFree x := by
  simp only [isFree,word_put_ne (Ne.symm h)]

lemma isFree_useBit (m : Mem) (b x : Nat) :
    (m.useBit b).isFree x = (m.isFree x && decide (x ≠ b)) := by
  by_cases h : x/32 = b/32
  · simp only [useBit,isFree,h,word_put_self]
    simp only [getLsbD_and,getLsbD_not,bit_getLsbD _ _ (Nat.mod_lt b (by decide : 0 < 32))]
    have : x%32 < 32 := Nat.mod_lt _ (by decide)
    have : x%32 = b%32 ↔ x = b := by omega
    simp [*]
  have hne : x ≠ b := fun hb => h (by rw [hb])
  rw [useBit,isFree_put (fun he => h (bitmapAt_inj he).symm)]
  simp [hne]

lemma isFree_freeBit (m : Mem) (b x : Nat) :
    (m.freeBit b).isFree x = (m.isFree x || decide (x = b)) := by
  by_cases h : x/32 = b/32
  · simp only [freeBit,isFree,h,word_put_self]
    simp only [getLsbD_or,bit_getLsbD _ _ (Nat.mod_lt b (by decide : 0 < 32))]
    have : x%32 = b%32 ↔ x = b := by omega
    simp [*]
  have hne : x ≠ b := fun hb => h (by rw [hb])
  rw [freeBit,isFree_put (fun he => h (bitmapAt_inj he).symm)]
  simp [hne]

lemma nblocks_put (h : p ≠ ⟨1,1⟩) : (m.put p w).nblocks = m.nblocks := by
  simp only [nblocks,word_put_ne (Ne.symm h)]

lemma bitmapAt_ne_super (i : Nat) : bitmapAt i ≠ ⟨1,1⟩ := by
  intro h
  have := (Ptr.mk.inj h).1
  omega

end Mem

/-- Nothing has block `b`, which is in use and zero. -/
structure Vacant (v : Vol) (b : Nat) : Prop where
  usable : v.mem.Usable b
  used : v.mem.isFree b = false
  zero : Zero (v.mem b)
  slots : ∀ g ∈ v.files, ∀ ql q, BlockSlot v.mem g ql q → (v.mem.word q).toNat ≠ b
  files : ∀ g ∈ v.files, g.blk ≠ b

namespace FsEdit

def act (opened : Set Ptr) : FsEdit → Vol → Vol
  | .load b c,v => {v with mem := v.mem.fill b c, cached := fun x => x = b ∨ v.cached x}
  | .take b c,v =>
    {v with mem := (v.mem.useBit b).fill b c, cached := fun x => x = b ∨ v.cached x}
  | .hang f pl p b,v =>
    { v with
      mem := v.mem.put p (ofNat 32 b)
      files := {g | g ∈ v.files ∨ pl.Data ∧ v.mem.word f.type = FTYPE_DIR ∧ g ∈ records b} }
  | .unhook _ _ p,v => {v with mem := v.mem.put p 0}
  | .release b,v =>
    { v with
      mem := v.mem.freeBit b
      files := {g | g ∈ v.files ∧ (g.blk = b → ∃ o ∈ opened, o ≠ rootFile ∧ o.blk = b)} }
  | .field f i w,v => {v with mem := v.mem.put (f.off i) w}

def Ok (v : Vol) : FsEdit → Prop
  | .load b c => ¬v.cached b ∧
      ∀ k, (∀ i, i/64 = k → c i = v.mem b i) ∨ ∀ i, i/64 = k → c i = 0
  | .take b c => b < v.mem.nblocks ∧ v.mem.isFree b ∧ (v.cached b → Zero (v.mem b)) ∧ Zero c
  | .hang f pl p b => f ∈ v.files ∧ BlockSlot v.mem f pl p ∧ v.mem.word p = 0 ∧ Vacant v b
  | .unhook f pl p => f ∈ v.files ∧ BlockSlot v.mem f pl p
  | .release b => v.mem.Usable b ∧
      ∀ g ∈ v.files, ∀ ql q, BlockSlot v.mem g ql q → (v.mem.word q).toNat ≠ b
  | .field f i w => f ∈ v.files ∧ (i = 0 ∨ i = 32 ∨ i = 45 ∧ w ≠ 0)

variable {v : Vol} {b : Nat} {c : Nat → Word}

lemma load_word (h : (load b c).Ok v) (p : Ptr) :
    (v.mem.fill b c).word p = v.mem.word p ∨ (v.mem.fill b c).word p = 0 := by
  by_cases hp : p.blk = b
  · rw [word_fill_self _ _ hp]
    subst hp
    exact (h.2 (p.idx/64)).imp (fun h => h p.idx rfl) fun h => h p.idx rfl
  exact .inl (word_fill_ne _ _ hp)

end FsEdit

lemma Mem.word_clear (m : Mem) (p q : Ptr) :
    (m.put p 0).word q = m.word q ∨ (m.put p 0).word q = 0 := by
  by_cases hq : q = p
  · subst hq
    exact .inr (word_put_self _ _ _)
  exact .inl (word_put_ne hq)

/-- The slots and types of the files are in `m'` what they are in `m`, or zero. -/
structure Fewer (files : Set Ptr) (m m' : Mem) : Prop where
  off : ∀ g ∈ files, ∀ i, 33 ≤ i → i < 45 →
    m'.word (g.off i) = m.word (g.off i) ∨ m'.word (g.off i) = 0
  ent : ∀ g ∈ files, m.word g.indirect ≠ 0 → ∀ j < NINDIRECT,
    m'.word ⟨(m.word g.indirect).toNat,j⟩ = m.word ⟨(m.word g.indirect).toNat,j⟩ ∨
      m'.word ⟨(m.word g.indirect).toNat,j⟩ = 0

namespace Fewer

variable {files : Set Ptr} {m m' : Mem} {g p : Ptr} {pl : Place}

lemma slot (h : Fewer files m m') (hg : g ∈ files) (hp : BlockSlot m' g pl p) :
    BlockSlot m g pl p ∧ (m'.word p = m.word p ∨ m'.word p = 0) := by
  have hd : NDIRECT = 10 := rfl
  cases hp with
  | direct hj => exact ⟨.direct hj,h.off g hg _ (by omega) (by omega)⟩
  | indirect => exact ⟨.indirect,h.off g hg 44 (by omega) (by omega)⟩
  | entry h0 hj =>
    obtain he | he := h.off g hg 44 (by omega) (by omega)
    · have he : m'.word g.indirect = m.word g.indirect := he
      rw [he] at h0 ⊢
      exact ⟨.entry h0 hj,h.ent g hg h0 _ hj⟩
    exact absurd he h0

lemma number (h : Fewer files m m') (hg : g ∈ files) (hp : BlockSlot m' g pl p)
    (h0 : m'.word p ≠ 0) : BlockSlot m g pl p ∧ m'.word p = m.word p := by
  obtain ⟨hs,he | he⟩ := h.slot hg hp
  · exact ⟨hs,he⟩
  exact absurd he h0

lemma dir (h : Fewer files m m') (hg : g ∈ files) (hdir : m'.word g.type = FTYPE_DIR) :
    m.word g.type = FTYPE_DIR := by
  obtain ht | ht := h.off g hg 33 (by omega) (by omega)
  · exact ht ▸ hdir
  exact absurd (hdir.symm.trans ht) (by decide)

end Fewer

namespace Tidy

variable {opened : Set Ptr} {v : Vol} {f g p q : Ptr} {pl ql : Place} {i b : Nat}

lemma blk_ne_zero (h : Tidy opened v) (hf : f ∈ v.files) : f.blk ≠ 0 := by
  obtain rfl | hr := h.placed f hf
  · exact Nat.one_ne_zero
  have := hr.usable.1
  have := v.mem.one_lt_nreserved
  omega

lemma blk_ne_taken (h : Tidy opened v) (hf : f ∈ v.files) (hfree : v.mem.isFree b)
    (hz : v.cached b → Zero (v.mem b)) : f.blk ≠ b := by
  rintro rfl
  by_cases hr : f = rootFile
  · subst hr
    have := (h.sys 1 v.mem.one_lt_nreserved).1
    rw [show rootFile.blk = 1 from rfl] at hfree
    rw [this] at hfree
    cases hfree
  obtain hu | ⟨o,ho,hor,hblk⟩ := h.kept f hf hr
  · rw [hu] at hfree
    cases hfree
  obtain ⟨hof,hoc,hod⟩ := h.held o ho
  rw [← hblk] at hz
  have hoff := (h.placed o hof).off (i := 45) (by decide)
  refine hod hor ?_
  rw [Ptr.dir,hoff]
  refine hz hoc (o.idx+45) ?_
  obtain rfl | hrec := h.placed o hof
  · exact absurd rfl hor
  obtain ⟨k,hk,hidx⟩ := hrec.aligned
  have : BLKFILES = 16 := rfl
  omega

variable {m : Mem} {cached : Nat → Prop} {c : Nat → Word} {x : Nat} {e : FsEdit}

section

variable (h : Tidy opened v)
include h

lemma part {files : Set Ptr} (hsub : files ⊆ v.files) (hroot : rootFile ∈ files) (hn : m.nblocks =
    v.mem.nblocks) (hslot : ∀ g ∈ files, ∀ pl p, BlockSlot m g pl p → m.word p ≠ 0 →
    BlockSlot v.mem g pl p ∧ m.word p = v.mem.word p ∧ m.isFree (v.mem.word p).toNat = false)
    (hclosed : ∀ g ∈ files, m.word g.type = FTYPE_DIR → ∀ pl p, BlockSlot v.mem g pl p →
    v.mem.word p ≠ 0 → v.mem.word g.type = FTYPE_DIR ∧ ∀ k, ⟨(v.mem.word p).toNat,64*k⟩ ∈ v.files →
    ⟨(v.mem.word p).toNat,64*k⟩ ∈ files) (hheld : ∀ o ∈ opened, o ∈ files ∧ cached o.blk ∧
    (o ≠ rootFile → m.word o.dir ≠ 0)) (hkept : ∀ g ∈ files, v.mem.isFree g.blk = false →
    m.isFree g.blk = false ∨ ∃ o ∈ opened, o ≠ rootFile ∧ o.blk = g.blk) (hsys : ∀ x
    < v.mem.nreserved, m.isFree x = false ∧ (x ≠ 0 → cached x)) : Tidy opened ⟨m,cached,files⟩ := by
  have hres : m.nreserved = v.mem.nreserved := by simp only [nreserved,hn]
  -- A block that holds a file is not block 0, which is what an empty slot reads as.
  have hself : ∀ {g ql q x}, g ∈ files → BlockSlot m g ql q → x ≠ 0 → (m.word q).toNat = x →
      BlockSlot v.mem g ql q ∧ (v.mem.word q).toNat = x := by
    rintro g ql q x hg hq h0 rfl
    obtain ⟨hs,hw,_⟩ := hslot g hg ql q hq fun he => h0 (congrArg BitVec.toNat he)
    exact ⟨hs,congrArg BitVec.toNat hw.symm⟩
  refine { placed := ?_, good := ?_, inj := ?_, apart := ?_, root := hroot, closed := ?_,
           self := ?_, held := hheld, kept := ?_, sys := ?_, fits := ?_ }
  · intro f hf
    exact (h.placed f (hsub hf)).imp_right fun hr => ⟨hr.aligned,hr.usable.congr hn⟩
  · intro f hf pl p hp h0
    change m.word p ≠ 0 at h0
    change m.Usable (m.word p).toNat ∧ m.isFree (m.word p).toNat = false
    obtain ⟨hs,he,hu⟩ := hslot f hf pl p hp h0
    rw [he] at h0 ⊢
    exact ⟨(h.good f (hsub hf) pl p hs h0).1.congr hn,hu⟩
  · intro f hf g hg pl ql p q hp hq h0 he
    obtain ⟨hs,hw,_⟩ := hslot f hf pl p hp h0
    obtain ⟨hs',hw',_⟩ := hslot g hg ql q hq (he ▸ h0)
    exact h.inj f (hsub hf) g (hsub hg) pl ql p q hs hs' (hw ▸ h0) (by rw [← hw,← hw']; exact he)
  · intro f hf hr g hg he
    obtain ⟨_,he⟩ := hself hg .indirect (h.blk_ne_zero (hsub hf)) he
    exact h.apart f (hsub hf) hr g (hsub hg) he
  · intro f hf hdir pl p hp hdata h0 k hk
    change m.word p ≠ 0 at h0
    change (⟨(m.word p).toNat,64*k⟩ : Ptr) ∈ files
    obtain ⟨hs,he,_⟩ := hslot f hf pl p hp h0
    rw [he] at h0 ⊢
    obtain ⟨hdir,hmem⟩ := hclosed f hf hdir pl p hs h0
    exact hmem k (h.closed f (hsub hf) hdir pl p hs hdata h0 k hk)
  · intro f hf pl p hp he
    obtain ⟨hs,he⟩ := hself hf hp (h.blk_ne_zero (hsub hf)) he
    exact h.self f (hsub hf) pl p hs he
  · intro f hf hr
    obtain hu | ho := h.kept f (hsub hf) hr
    · exact hkept f hf hu
    exact .inr ho
  · intro x hx
    exact hsys x (lt_of_lt_of_eq hx hres)
  change m.nreserved ≤ m.nblocks ∧ m.nblocks ≤ _
  rw [hres,hn]
  exact h.fits

lemma shrink (hfew : Fewer v.files v.mem m) (hn : m.nblocks = v.mem.nblocks)
    (hfree : ∀ x < v.mem.nblocks, v.mem.isFree x = false → m.isFree x = false)
    (hcached : ∀ x, v.cached x → cached x) (hheld : ∀ o ∈ opened, o ≠ rootFile → m.word o.dir ≠ 0) :
    Tidy opened ⟨m,cached,v.files⟩ := by
  refine h.part subset_rfl h.root hn ?_ ?_ ?_ ?_ ?_
  · intro g hg pl p hp h0
    obtain ⟨hs,he⟩ := hfew.number hg hp h0
    obtain ⟨hu,hb⟩ := h.good g hg pl p hs (he ▸ h0)
    exact ⟨hs,he,hfree _ hu.2 hb⟩
  · intro g hg hdir pl p _ _
    exact ⟨hfew.dir hg hdir,fun _ => id⟩
  · intro o ho
    obtain ⟨hof,hoc,_⟩ := h.held o ho
    exact ⟨hof,hcached _ hoc,hheld o ho⟩
  · intro g hg hu
    exact .inl (hfree _ (h.blk_lt hg) hu)
  intro x hx
  obtain ⟨hu,hc⟩ := h.sys x hx
  exact ⟨hfree x (lt_of_lt_of_le hx h.fits.1) hu,fun h0 => hcached x (hc h0)⟩

lemma load (hok : (FsEdit.load b c).Ok v) : Tidy opened ((FsEdit.load b c).act opened v) := by
  have hw := FsEdit.load_word hok
  obtain ⟨hb,_⟩ := hok
  have hsys : ∀ p : Ptr, p.blk < v.mem.nreserved → p.blk ≠ 0 →
      (v.mem.fill b c).word p = v.mem.word p := by
    intro p hp h0
    refine Mem.word_fill_ne _ _ ?_
    rintro rfl
    exact hb ((h.sys _ hp).2 h0)
  refine h.shrink ⟨fun g _ i _ _ => hw _,fun g _ _ j _ => hw _⟩ ?_ ?_ (fun x hx => .inr hx) ?_
  · simp only [Mem.nblocks]
    rw [hsys ⟨1,1⟩ v.mem.one_lt_nreserved Nat.one_ne_zero]
  · intro x hx hu
    rw [Mem.isFree,hsys _ (Mem.bitmap_reserved hx) (by simp [bitmapAt])]
    exact hu
  intro o ho hr
  obtain ⟨hof,hoc,hod⟩ := h.held o ho
  have hoff := (h.placed o hof).off (i := 45) (by decide)
  have hne : o.dir.blk ≠ b := by
    rw [Ptr.dir,hoff]
    rintro rfl
    exact hb hoc
  rw [Mem.word_fill_ne _ _ hne]
  exact hod hr

lemma off_ne_bitmap (hf : f ∈ v.files) (hi : i < 64)
    (hb : b < v.mem.nblocks) : f.off i ≠ bitmapAt (b/32) :=
  ((h.placed f hf).off_ne_sys hi).2 b hb

lemma take_word (hok : (FsEdit.take b c).Ok v) (hf : f ∈ v.files)
    (hi : i < 64) : ((v.mem.useBit b).fill b c).word (f.off i) = v.mem.word (f.off i) := by
  obtain ⟨hb,hfree,hz,_⟩ := hok
  have hblk : f.blk ≠ b := h.blk_ne_taken hf hfree hz
  have hne : (f.off i).blk ≠ b := by
    rw [(h.placed f hf).off hi]
    exact hblk
  rw [word_fill_ne _ _ hne,useBit,word_put_ne (h.off_ne_bitmap hf hi hb)]

lemma take_entry (hok : (FsEdit.take b c).Ok v) (hf : f ∈ v.files)
    (h0 : v.mem.word f.indirect ≠ 0) {j : Nat} (hj : j < NINDIRECT) : ((v.mem.useBit b).fill
    b c).word ⟨(v.mem.word f.indirect).toNat,j⟩ = v.mem.word ⟨(v.mem.word f.indirect).toNat,j⟩ := by
  obtain ⟨hb,hfree,hz,_⟩ := hok
  have hg := h.good f hf _ _ .indirect h0
  have hne : (v.mem.word f.indirect).toNat ≠ b := by
    rintro rfl
    rw [hg.2] at hfree
    cases hfree
  rw [word_fill_ne _ _ hne,useBit,word_put_ne ((h.slot_ne_sys hf (.entry h0 hj)).2 b hb)]

lemma take_slot (hok : (FsEdit.take b c).Ok v) (hf : f ∈ v.files)
    (hp : BlockSlot v.mem f pl p) : BlockSlot ((v.mem.useBit b).fill b c) f pl p ∧
    ((v.mem.useBit b).fill b c).word p = v.mem.word p := by
  have hd : NDIRECT = 10 := rfl
  cases hp with
  | direct hj => exact ⟨.direct hj,h.take_word hok hf (by omega)⟩
  | indirect => exact ⟨.indirect,h.take_word hok hf (by omega)⟩
  | entry h0 hj =>
    have hind : ((v.mem.useBit b).fill b c).word f.indirect = v.mem.word f.indirect :=
      h.take_word hok hf (by omega)
    refine ⟨?_,h.take_entry hok hf h0 hj⟩
    rw [← hind] at h0 ⊢
    exact .entry h0 hj

lemma slot_of_take (hok : (FsEdit.take b c).Ok v) (hf : f ∈ v.files)
    (hp : BlockSlot ((v.mem.useBit b).fill b c) f pl p) :
    BlockSlot v.mem f pl p := hp.congr (h.take_word hok hf (by decide)).symm

lemma take (hok : (FsEdit.take b c).Ok v) : Tidy opened ((FsEdit.take b c).act opened v) := by
  have hn : ((v.mem.useBit b).fill b c).nblocks = v.mem.nblocks := by
    obtain ⟨hb,hfree,hz,_⟩ := hok
    have h1 : (⟨1,1⟩ : Ptr).blk ≠ b := by
      rintro rfl
      rw [(h.sys 1 v.mem.one_lt_nreserved).1] at hfree
      cases hfree
    simp only [Mem.nblocks]
    rw [Mem.word_fill_ne _ _ h1,Mem.useBit,Mem.word_put_ne (Mem.bitmapAt_ne_super (b/32)).symm]
  refine h.shrink ⟨fun g hg i _ hi => .inl (h.take_word hok hg (by omega)),
    fun g hg h0 j hj => .inl (h.take_entry hok hg h0 hj)⟩ hn ?_ (fun x hx => .inr hx) ?_
  · intro x hx hu
    obtain ⟨hb,hfree,hz,_⟩ := hok
    have hne : (bitmapAt (x/32)).blk ≠ b := by
      rintro rfl
      rw [(h.sys _ (Mem.bitmap_reserved hx)).1] at hfree
      cases hfree
    rw [Mem.isFree,Mem.word_fill_ne _ _ hne,← Mem.isFree,Mem.isFree_useBit,hu]
    rfl
  intro o ho hr
  obtain ⟨hof,_,hod⟩ := h.held o ho
  rw [Ptr.dir,h.take_word hok hof (by decide)]
  exact hod hr

lemma nblocks_slot (hf : f ∈ v.files) (hp : BlockSlot v.mem f pl p) (w : Word) :
    (v.mem.put p w).nblocks = v.mem.nblocks :=
  nblocks_put (h.slot_ne_sys hf hp).1

lemma isFree_slot (hf : f ∈ v.files) (hp : BlockSlot v.mem f pl p) (w : Word)
    (hx : x < v.mem.nblocks) : (v.mem.put p w).isFree x = v.mem.isFree x :=
  isFree_put ((h.slot_ne_sys hf hp).2 x hx)

lemma unhook (hok : (FsEdit.unhook f pl p).Ok v) :
    Tidy opened ((FsEdit.unhook f pl p).act opened v) := by
  obtain ⟨hf,hp⟩ := hok
  refine h.shrink ⟨fun g _ i _ _ => v.mem.word_clear p _,fun g _ _ j _ => v.mem.word_clear p _⟩
    (h.nblocks_slot hf hp 0) ?_
    (fun x hx => hx) ?_
  · intro x hx hu
    rw [h.isFree_slot hf hp 0 hx]
    exact hu
  intro o ho hr
  obtain ⟨hof,_,hod⟩ := h.held o ho
  rw [Ptr.dir,word_put_ne (h.slot_ne_off hf hof hp (.inr rfl)).symm]
  exact hod hr

lemma field {w : Word} (hok : (FsEdit.field f i w).Ok v) :
    Tidy opened ((FsEdit.field f i w).act opened v) := by
  obtain ⟨hf,hi⟩ := hok
  have hi64 : i < 64 := by omega
  have hsys := (h.placed f hf).off_ne_sys hi64
  refine h.shrink ⟨fun g hg j _ hj => .inl (word_put_ne ?_),
    fun g hg h0 j hj => .inl (word_put_ne (h.entry_ne_off hg h0 hf hi64))⟩
    (nblocks_put hsys.1) ?_ (fun x hx => hx) ?_
  · intro he
    have := ((h.placed g hg).off_inj (h.placed f hf) (by omega) hi64 he).2
    omega
  · intro x hx hu
    rw [isFree_put (hsys.2 x hx)]
    exact hu
  intro o ho hr
  obtain ⟨hof,_,hod⟩ := h.held o ho
  by_cases he : o.dir = f.off i
  · obtain ⟨_,hi45⟩ := (h.placed o hof).off_inj (h.placed f hf) (by decide) hi64 he
    rw [he,word_put_self]
    obtain h0 | h0 | ⟨_,hw⟩ := hi
    · omega
    · omega
    exact hw
  rw [word_put_ne he]
  exact hod hr

lemma release_word (hok : (FsEdit.release b).Ok v) (hf : f ∈ v.files)
    (hi : i < 64) : (v.mem.freeBit b).word (f.off i) = v.mem.word (f.off i) :=
  word_put_ne (h.off_ne_bitmap hf hi hok.1.2)

lemma release_slot (hok : (FsEdit.release b).Ok v) (hf : f ∈ v.files)
    (hp : BlockSlot (v.mem.freeBit b) f pl p) :
    BlockSlot v.mem f pl p ∧ (v.mem.freeBit b).word p = v.mem.word p := by
  have hs : BlockSlot v.mem f pl p := hp.congr (h.release_word hok hf (by decide)).symm
  exact ⟨hs,word_put_ne ((h.slot_ne_sys hf hs).2 b hok.1.2)⟩

lemma release (hok : (FsEdit.release b).Ok v) : Tidy opened ((FsEdit.release b).act opened v) := by
  have hb := hok.1
  have hfree : ∀ {x}, x ≠ b → (v.mem.freeBit b).isFree x = v.mem.isFree x := by
    intro x hx
    simp [isFree_freeBit,hx]
  have hroot : rootFile.blk ≠ b := by
    have := hb.1
    have := v.mem.one_lt_nreserved
    change 1 ≠ b
    omega
  refine h.part (fun g hg => hg.1) ⟨h.root,fun hr => absurd hr hroot⟩
    (nblocks_put (bitmapAt_ne_super (b/32))) ?_ ?_ ?_ ?_ ?_
  · intro g hg pl p hp h0
    obtain ⟨hs,he⟩ := h.release_slot hok hg.1 hp
    rw [he] at h0
    exact ⟨hs,he,(hfree (hok.2 g hg.1 pl p hs)).trans (h.good g hg.1 pl p hs h0).2⟩
  · intro g hg hdir pl p hp _
    exact ⟨(h.release_word hok hg.1 (by decide)).symm.trans hdir,
      fun k hk => ⟨hk,fun he => absurd he (hok.2 g hg.1 pl p hp)⟩⟩
  · intro o ho
    obtain ⟨hof,hoc,hod⟩ := h.held o ho
    refine ⟨⟨hof,fun hb' => ⟨o,ho,?_,hb'⟩⟩,hoc,fun hr => ?_⟩
    · rintro rfl
      exact hroot hb'
    rw [Ptr.dir,h.release_word hok hof (by decide)]
    exact hod hr
  · intro g hg hu
    by_cases hgb : g.blk = b
    · obtain ⟨o,ho,hor,hob⟩ := hg.2 hgb
      exact .inr ⟨o,ho,hor,hob.trans hgb.symm⟩
    exact .inl ((hfree hgb).trans hu)
  intro x hx
  have hxb : x ≠ b := by
    have := hb.1
    omega
  exact ⟨(hfree hxb).trans (h.sys x hx).1,(h.sys x hx).2⟩

lemma vacant_of_take (hok : (FsEdit.take b c).Ok v) :
    Vacant ((FsEdit.take b c).act opened v) b := by
  have hok' := hok
  obtain ⟨hb,hfree,hz,hc⟩ := hok'
  have hres : ∀ x < v.mem.nreserved, x ≠ b := by
    rintro x hx rfl
    rw [(h.sys x hx).1] at hfree
    cases hfree
  have htidy := h.take hok
  have hn : ((v.mem.useBit b).fill b c).nblocks = v.mem.nblocks := by
    simp only [Mem.nblocks]
    rw [Mem.word_fill_ne _ _ (hres 1 v.mem.one_lt_nreserved),Mem.useBit,
      Mem.word_put_ne (Mem.bitmapAt_ne_super (b/32)).symm]
  refine ⟨⟨?_,?_⟩,?_,?_,?_,?_⟩
  · change ((v.mem.useBit b).fill b c).nreserved ≤ b
    rw [Mem.nreserved,hn]
    exact Nat.le_of_not_lt fun hlt => hres b hlt rfl
  · change b < ((v.mem.useBit b).fill b c).nblocks
    rw [hn]
    exact hb
  · change ((v.mem.useBit b).fill b c).isFree b = false
    rw [Mem.isFree,Mem.word_fill_ne _ _ (hres _ (Mem.bitmap_reserved hb)),← Mem.isFree,
      Mem.isFree_useBit]
    simp
  · change Zero (((v.mem.useBit b).fill b c) b)
    rw [Mem.fill_self]
    exact hc
  · intro g hg ql q hq he
    -- A slot with this number would have had it when the block was free.
    change (((v.mem.useBit b).fill b c).word q).toNat = b at he
    have hs := h.slot_of_take hok hg hq
    rw [(h.take_slot hok hg hs).2] at he
    have hb0 : b ≠ 0 := by
      rintro rfl
      exact hres 0 (by have := v.mem.one_lt_nreserved; omega) rfl
    have h0 : v.mem.word q ≠ 0 := by
      intro h0
      rw [h0] at he
      exact hb0 he.symm
    have := (h.good g hg ql q hs h0).2
    rw [he,hfree] at this
    cases this
  intro g hg
  exact h.blk_ne_taken hg hfree hz

lemma slot_blk_ne (hv : Vacant v b) (hf : f ∈ v.files)
    (hp : BlockSlot v.mem f pl p) : p.blk ≠ b := by
  have hd : NDIRECT = 10 := rfl
  have hoff : ∀ i, i < 64 → (f.off i).blk ≠ b := by
    intro i hi
    rw [(h.placed f hf).off hi]
    exact hv.files f hf
  cases hp with
  | direct hj => exact hoff _ (by omega)
  | indirect => exact hoff _ (by omega)
  | entry h0 hj => exact hv.slots f hf _ _ .indirect

end

section Hang

variable (h : Tidy opened v) (hf : f ∈ v.files) (hp : BlockSlot v.mem f pl p)
  (hv : Vacant v b)
include h hf hp hv

variable {i : Nat}

lemma hang_zero (hi : i < 1024) : (v.mem.put p (ofNat 32 b)).word ⟨b,i⟩ = 0 := by
  have hne : (⟨b,i⟩ : Ptr) ≠ p := by
    rintro rfl
    exact h.slot_blk_ne hv hf hp rfl
  rw [word_put_ne hne]
  exact hv.zero i hi

lemma hang_record {g : Ptr} (hg : g ∈ records b) (hi : i < 64) :
    (v.mem.put p (ofNat 32 b)).word (g.off i) = 0 := by
  obtain ⟨rfl,k,hk,hidx⟩ := hg
  have hr : Record v.mem g := ⟨⟨k,hk,hidx⟩,hv.usable⟩
  have : BLKFILES = 16 := rfl
  rw [Placed.off (.inr hr) hi]
  exact h.hang_zero hf hp hv (by omega)

lemma hang_slot {g q : Ptr} {ql : Place}
    (hg : g ∈ v.files ∨ g ∈ records b) (hq : BlockSlot (v.mem.put p (ofNat 32 b)) g ql q)
    (h0 : (v.mem.put p (ofNat 32 b)).word q ≠ 0) : g ∈ v.files ∧ BlockSlot v.mem g ql q ∧
    (q = p ∨ q ≠ p ∧ (v.mem.put p (ofNat 32 b)).word q = v.mem.word q) := by
  have hd : NDIRECT = 10 := rfl
  have hn : NINDIRECT = 1024 := rfl
  obtain hg | hg := hg
  · have hs : BlockSlot v.mem g ql q := by
      cases hq with
      | direct hj => exact .direct hj
      | indirect => exact .indirect
      | @entry j hi hj =>
        by_cases hgp : g.indirect = p
        · rw [hgp,word_put_self] at h0
          refine absurd ?_ h0
          rw [hv.usable.toNat_ofNat]
          exact h.hang_zero hf hp hv (by omega)
        rw [word_put_ne hgp] at hi ⊢
        exact .entry hi hj
    refine ⟨hg,hs,?_⟩
    by_cases hqp : q = p
    · exact .inl hqp
    exact .inr ⟨hqp,word_put_ne hqp⟩
  -- A new record has no number in any slot.
  refine absurd ?_ h0
  cases hq with
  | direct hj => exact h.hang_record hf hp hv hg (by omega)
  | indirect => exact h.hang_record hf hp hv hg (by omega)
  | entry hi hj => exact absurd (h.hang_record hf hp hv hg (by omega)) hi

end Hang

lemma hang (h : Tidy opened v) (hok : (FsEdit.hang f pl p b).Ok v) :
    Tidy opened ((FsEdit.hang f pl p b).act opened v) := by
  obtain ⟨hf,hp,h0p,hv⟩ := hok
  have hbn := hv.usable.toNat_ofNat
  have hn := h.nblocks_slot hf hp (ofNat 32 b)
  generalize hm : v.mem.put p (ofNat 32 b) = m at hn
  have hself : m.word p = ofNat 32 b := by rw [← hm,word_put_self]
  have hres : m.nreserved = v.mem.nreserved := by simp only [nreserved,hn]
  have husable : ∀ {x}, v.mem.Usable x → m.Usable x := fun hx => hx.congr hn
  have hfree : ∀ {x}, x < v.mem.nblocks → m.isFree x = v.mem.isFree x := by
    intro x hx
    rw [← hm]
    exact h.isFree_slot hf hp _ hx
  have hslot : ∀ {g q ql}, (g ∈ v.files ∨ pl.Data ∧ v.mem.word f.type = FTYPE_DIR ∧ g ∈ records b) →
      BlockSlot m g ql q → m.word q ≠ 0 → g ∈ v.files ∧ BlockSlot v.mem g ql q ∧
        (q = p ∨ q ≠ p ∧ m.word q = v.mem.word q) := by
    intro g q ql hg hq h0
    rw [← hm] at hq h0 ⊢
    exact h.hang_slot hf hp hv (hg.imp_right fun x => x.2.2) hq h0
  have hblk : ∀ {g}, (g ∈ v.files ∨ pl.Data ∧ v.mem.word f.type = FTYPE_DIR ∧ g ∈ records b) →
      g.blk ≠ 0 := by
    rintro g (hg | ⟨_,_,hg,_⟩)
    · exact h.blk_ne_zero hg
    have := hv.usable.1
    have := v.mem.one_lt_nreserved
    omega
  have hoff : ∀ {g i}, g ∈ v.files → i < 34 ∨ i = 45 → m.word (g.off i) = v.mem.word (g.off i) := by
    intro g i hg hi
    rw [← hm]
    exact word_put_ne (h.slot_ne_off hf hg hp hi).symm
  simp only [FsEdit.act,hm]
  refine { placed := ?_, good := ?_, inj := ?_, apart := ?_, root := .inl h.root, closed := ?_,
           self := ?_, held := ?_, kept := ?_, sys := ?_, fits := ?_ }
  · rintro g (hg | ⟨_,_,hgb,hk⟩)
    · obtain hr | hr := h.placed g hg
      · exact .inl hr
      exact .inr ⟨hr.aligned,husable hr.usable⟩
    exact .inr ⟨hk,by rw [hgb]; exact husable hv.usable⟩
  · intro g hg ql q hq h0
    obtain ⟨hg',hs,rfl | ⟨_,he⟩⟩ := hslot hg hq h0
    · rw [hself,hbn]
      exact ⟨husable hv.usable,by rw [hfree hv.usable.2]; exact hv.used⟩
    change m.word q ≠ 0 at h0
    change m.Usable (m.word q).toNat ∧ m.isFree (m.word q).toNat = false
    rw [he] at h0 ⊢
    obtain ⟨hu,hb⟩ := h.good g hg' ql q hs h0
    exact ⟨husable hu,by rw [hfree hu.2]; exact hb⟩
  · intro g hg g' hg' ql ql' q q' hq hq' h0 he
    obtain ⟨hgf,hs,hcase⟩ := hslot hg hq h0
    obtain ⟨hgf',hs',hcase'⟩ := hslot hg' hq' (he ▸ h0)
    obtain rfl | ⟨_,hw⟩ := hcase
    · obtain rfl | ⟨_,hw'⟩ := hcase'
      · rfl
      refine absurd ?_ (hv.slots g' hgf' ql' q' hs')
      rw [← hw',← hbn,← hself]
      exact congrArg BitVec.toNat he.symm
    obtain rfl | ⟨_,hw'⟩ := hcase'
    · refine absurd ?_ (hv.slots g hgf ql q hs)
      rw [← hw,← hbn,← hself]
      exact congrArg BitVec.toNat he
    exact h.inj g hgf g' hgf' ql ql' q q' hs hs' (hw ▸ h0) (by rw [← hw,← hw']; exact he)
  · intro g hg hr g' hg' he
    change (m.word g'.indirect).toNat = g.blk at he
    have h0 : m.word g'.indirect ≠ 0 := by
      intro h0
      rw [h0] at he
      exact hblk hg he.symm
    obtain ⟨hgf',hs,hcase⟩ := hslot hg' .indirect h0
    obtain hgp | ⟨_,hw⟩ := hcase
    · rw [hgp,hself,hbn] at he
      obtain hg | ⟨hdata,_⟩ := hg
      · exact hv.files g hg he.symm
      rw [hgp] at hs
      obtain ⟨_,rfl⟩ := h.slot_inj hf hgf' hp hs
      exact hdata
    rw [hw] at he
    obtain hg | ⟨_,_,hgb,_⟩ := hg
    · exact h.apart g hg hr g' hgf' he
    exact hv.slots g' hgf' _ _ hs (he.trans hgb)
  · intro g hg hdir ql q hq hdata h0 k hk
    change m.word g.type = FTYPE_DIR at hdir
    change m.word q ≠ 0 at h0
    obtain ⟨hgf,hs,hcase⟩ := hslot hg hq h0
    rw [Ptr.type,hoff hgf (by omega)] at hdir
    obtain rfl | ⟨_,hw⟩ := hcase
    · obtain ⟨rfl,rfl⟩ := h.slot_inj hf hgf hp hs
      refine .inr ⟨hdata,hdir,?_,k,hk,rfl⟩
      change (m.word q).toNat = b
      rw [hself,hbn]
    change (⟨(m.word q).toNat,64*k⟩ : Ptr) ∈ v.files ∨ _
    rw [hw] at h0 ⊢
    exact .inl (h.closed g hgf hdir ql q hs hdata h0 k hk)
  · intro g hg ql q hq he
    change (m.word q).toNat = g.blk at he
    have h0 : m.word q ≠ 0 := by
      intro h0
      rw [h0] at he
      exact hblk hg he.symm
    obtain ⟨hgf,hs,rfl | ⟨_,hw⟩⟩ := hslot hg hq h0
    · rw [hself,hbn] at he
      exact hv.files g hgf he.symm
    rw [hw] at he
    exact h.self g hgf ql q hs he
  · intro o ho
    obtain ⟨hof,hoc,hod⟩ := h.held o ho
    refine ⟨.inl hof,hoc,fun hr => ?_⟩
    change m.word (o.off 45) ≠ 0
    rw [hoff hof (.inr rfl)]
    exact hod hr
  · rintro g (hg | ⟨_,_,hgb,_⟩) hr
    · obtain hu | ho := h.kept g hg hr
      · exact .inl (by change m.isFree g.blk = false; rw [hfree (h.blk_lt hg)]; exact hu)
      exact .inr ho
    left
    change m.isFree g.blk = false
    rw [hgb,hfree hv.usable.2]
    exact hv.used
  · intro x hx
    change x < m.nreserved at hx
    rw [hres] at hx
    have := h.fits.1
    exact ⟨by change m.isFree x = false; rw [hfree (by omega)]; exact (h.sys x hx).1,(h.sys x hx).2⟩
  change m.nreserved ≤ m.nblocks ∧ m.nblocks ≤ _
  rw [hres,hn]
  exact h.fits

lemma act (h : Tidy opened v) (hok : e.Ok v) : Tidy opened (e.act opened v) := by
  cases e with
  | load b c => exact h.load hok
  | take b c => exact h.take hok
  | hang f pl p b => exact h.hang hok
  | unhook f pl p => exact h.unhook hok
  | release b => exact h.release hok
  | field f i w => exact h.field hok

lemma mem_act (hf : f ∈ v.files) (he : e ≠ .release f.blk) : f ∈ (e.act opened v).files := by
  cases e with
  | load | take | unhook | field => exact hf
  | hang => exact .inl hf
  | release b => exact ⟨hf,fun hb => absurd (by rw [hb]) he⟩

lemma cached_act (hx : v.cached x) (e : FsEdit) : (e.act opened v).cached x := by
  cases e with
  | load | take => exact .inr hx
  | hang | unhook | release | field => exact hx

lemma act_off_of_ne (h : Tidy opened v) (hok : e.Ok v) (hf : f ∈ v.files)
    (hload : ∀ c, e ≠ .load f.blk c) (hi : i < 34 ∨ i = 45) (he : ∀ w, e ≠ .field f i w) :
    (e.act opened v).mem.word (f.off i) = v.mem.word (f.off i) := by
  have hi64 : i < 64 := by omega
  cases e with
  | load b c =>
    refine word_fill_ne _ _ ?_
    rw [(h.placed f hf).off hi64]
    rintro rfl
    exact hload c rfl
  | take b c => exact h.take_word hok hf hi64
  | hang g pl p b => exact word_put_ne (h.slot_ne_off hok.1 hf hok.2.1 hi).symm
  | unhook g pl p => exact word_put_ne (h.slot_ne_off hok.1 hf hok.2 hi).symm
  | release b => exact h.release_word hok hf hi64
  | field g j w =>
    refine word_put_ne fun heq => ?_
    have hj := hok.2
    obtain ⟨rfl,rfl⟩ := (h.placed f hf).off_inj (h.placed g hok.1) hi64 (by omega) heq
    exact he w rfl

lemma act_off (h : Tidy opened v) (hok : e.Ok v) (hf : f ∈ v.files) (hc : v.cached f.blk)
    (hi : i < 34 ∨ i = 45) (he : ∀ w, e ≠ .field f i w) :
    (e.act opened v).mem.word (f.off i) = v.mem.word (f.off i) := by
  refine h.act_off_of_ne hok hf ?_ hi he
  rintro c rfl
  exact hok.1 hc

end Tidy

end KludgeOS
