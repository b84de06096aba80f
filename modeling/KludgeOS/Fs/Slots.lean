import KludgeOS.Fs.Edits

/-!
What an edit does to the slots of a file, and to what is read through them.
-/

namespace KludgeOS
open Mem BitVec

variable {opened : Set Ptr} {v : Vol} {f g p q : Ptr} {pl ql : Place} {i j b : Nat} {e : FsEdit}

def place (j : Nat) : Place := if j < NDIRECT then .direct j else .entry j

lemma place_data (j : Nat) : (place j).Data := by
  unfold place
  split
  · trivial
  exact Nat.le_of_not_lt ‹_›

lemma place_ne_indirect (j : Nat) : place j ≠ .indirect := by
  unfold place
  split <;> simp

/-- `f` has no block `j`. -/
def Empty (m : Mem) (f : Ptr) (j : Nat) : Prop := ∀ p, BlockSlot m f (place j) p → m.word p = 0

/-- The slots of `f` are what they were, or have no number in them. -/
def Shrunk (f : Ptr) (m m' : Mem) : Prop :=
  ∀ pl p, BlockSlot m' f pl p → BlockSlot m f pl p ∧ (m'.word p = m.word p ∨ m'.word p = 0)

lemma Shrunk.refl (f : Ptr) (m : Mem) : Shrunk f m m := fun _ _ h => ⟨h,.inl rfl⟩

variable {m m' m'' : Mem}

lemma Shrunk.trans (h : Shrunk f m m') (h' : Shrunk f m' m'') : Shrunk f m m'' := by
  intro pl p hp
  obtain ⟨hp',hw'⟩ := h' pl p hp
  obtain ⟨hp,hw⟩ := h pl p hp'
  refine ⟨hp,?_⟩
  obtain hw' | hw' := hw'
  · rw [hw']
    exact hw
  exact .inr hw'

lemma Shrunk.empty (h : Shrunk f m m') (he : Empty m f j) : Empty m' f j := by
  intro p hp
  obtain ⟨hs,hw | hw⟩ := h _ p hp
  · rw [hw]
    exact he p hs
  exact hw

lemma Shrunk.of_word (h : ∀ p, m'.word p = m.word p ∨ m'.word p = 0) : Shrunk f m m' := by
  intro pl p hp
  refine ⟨?_,h p⟩
  cases hp with
  | direct hj => exact .direct hj
  | indirect => exact .indirect
  | entry h0 hj =>
    obtain he | he := h f.indirect
    · rw [he] at h0 ⊢
      exact .entry h0 hj
    exact absurd he h0

lemma BlockSlot.word_gone (h : BlockSlot m f pl p) (h0 : ∀ i < 64, m.word (f.off i) = 0) :
    m.word p = 0 := by
  have hd : NDIRECT = 10 := rfl
  cases h with
  | direct hj => exact h0 _ (by omega)
  | indirect => exact h0 _ (by omega)
  | entry hi hj => exact absurd (h0 44 (by omega)) hi

namespace Tidy

lemma shrunk_act (h : Tidy opened v) (hok : e.Ok v) (hf : f ∈ v.files)
    (he : ∀ g pl p b, e ≠ .hang g pl p b) : Shrunk f v.mem (e.act opened v).mem := by
  cases e with
  | load b c => exact .of_word (FsEdit.load_word hok)
  | take b c =>
    intro pl p hp
    have hs := h.slot_of_take hok hf hp
    exact ⟨hs,.inl (h.take_slot hok hf hs).2⟩
  | hang g pl p b => exact absurd rfl (he g pl p b)
  | unhook g pl p => exact .of_word (v.mem.word_clear p)
  | release b =>
    intro pl p hp
    obtain ⟨hs,hw⟩ := h.release_slot hok hf hp
    exact ⟨hs,.inl hw⟩
  | field g i w =>
    intro pl p hp
    obtain ⟨hg,hi⟩ := hok
    have hi : i < 34 ∨ i = 45 := by omega
    have hs : BlockSlot v.mem f pl p :=
      hp.congr (word_put_ne (h.slot_ne_off hf hg .indirect hi)).symm
    exact ⟨hs,.inl (word_put_ne (h.slot_ne_off hf hg hs hi))⟩

lemma mem_of_act (hf : f ∈ (e.act opened v).files) (he : ∀ g pl p b, e ≠ .hang g pl p b) :
    f ∈ v.files := by
  cases e with
  | load | take | unhook | field => exact hf
  | hang g pl p b => exact absurd rfl (he g pl p b)
  | release b => exact hf.1

lemma slot_act (h : Tidy opened v) (hok : e.Ok v) (hf : f ∈ (e.act opened v).files)
    (hp : BlockSlot (e.act opened v).mem f pl p) (h0 : (e.act opened v).mem.word p ≠ 0) :
    f ∈ v.files ∧ BlockSlot v.mem f pl p ∧
      ((e.act opened v).mem.word p = v.mem.word p ∨ ∃ b, e = .hang f pl p b) := by
  by_cases he : ∀ g pl p b, e ≠ .hang g pl p b
  · have hf := mem_of_act hf he
    obtain ⟨hs,hw | hw⟩ := h.shrunk_act hok hf he pl p hp
    · exact ⟨hf,hs,.inl hw⟩
    exact absurd hw h0
  push Not at he
  obtain ⟨g,ql,q,b,rfl⟩ := he
  obtain ⟨hg,hq,_,hv⟩ := hok
  obtain ⟨hfv,hs,hcase⟩ := h.hang_slot hg hq hv (hf.imp_right fun x => x.2.2) hp h0
  refine ⟨hfv,hs,?_⟩
  obtain rfl | ⟨_,hw⟩ := hcase
  · obtain ⟨rfl,rfl⟩ := h.slot_inj hfv hg hs hq
    exact .inr ⟨b,rfl⟩
  exact .inl hw

lemma kept_or_gone (h : Tidy opened v) (hok : e.Ok v) (hf : f ∈ v.files) (hi : i < 34 ∨ i = 45)
    (he : ∀ w, e ≠ .field f i w) : (e.act opened v).mem.word (f.off i) = v.mem.word (f.off i) ∨
    ∀ j < 64, (e.act opened v).mem.word (f.off j) = 0 := by
  by_cases hload : ∀ c, e ≠ .load f.blk c
  · exact .inl (h.act_off_of_ne hok hf hload hi he)
  push Not at hload
  obtain ⟨c,rfl⟩ := hload
  obtain rfl | hr := h.placed f hf
  · exact absurd ((h.sys 1 v.mem.one_lt_nreserved).2 Nat.one_ne_zero) hok.1
  obtain ⟨k,hk,hidx⟩ := hr.aligned
  have hword : ∀ j < 64, (v.mem.fill f.blk c).word (f.off j) = c (64*k+j) ∧
      v.mem.word (f.off j) = v.mem f.blk (64*k+j) := by
    intro j hj
    rw [Placed.off (.inr hr) hj,hidx]
    exact ⟨word_fill_self _ _ rfl,rfl⟩
  obtain hc | hc := hok.2 k
  · left
    obtain ⟨h1,h2⟩ := hword i (by omega)
    exact h1.trans ((hc _ (by omega)).trans h2.symm)
  exact .inr fun j hj => (hword j hj).1.trans (hc _ (by omega))

lemma free_act (h : Tidy opened v) (hok : e.Ok v) (hb : b < v.mem.nblocks)
    (hfree : v.mem.isFree b) (he : ∀ c, e ≠ .take b c) :
    (e.act opened v).mem.isFree b ∧ (e.act opened v).mem.nblocks = v.mem.nblocks := by
  -- The superblock and the bitmap are never read again, nor handed out.
  have hfill : ∀ (m : Mem) (x : Nat) (c : Nat → Word), (∀ y < v.mem.nreserved, y ≠ 0 → y ≠ x) →
      (m.fill x c).isFree b = m.isFree b ∧ (m.fill x c).nblocks = m.nblocks := by
    intro m x c hx
    have h1 := hx 1 v.mem.one_lt_nreserved Nat.one_ne_zero
    have h2 := hx _ (bitmap_reserved hb) (by simp [Fs.bitmapAt])
    simp only [isFree,nblocks]
    exact ⟨by rw [word_fill_ne _ _ h2],by rw [word_fill_ne _ _ h1]⟩
  cases e with
  | load x c =>
    obtain ⟨h1,h2⟩ := hfill v.mem x c fun y hy h0 hyx => hok.1 (hyx ▸ (h.sys y hy).2 h0)
    exact ⟨h1.trans hfree,h2⟩
  | take x c =>
    have hx : ∀ y < v.mem.nreserved, y ≠ 0 → y ≠ x := by
      rintro y hy _ rfl
      have := (h.sys y hy).1
      rw [hok.2.1] at this
      contradiction
    obtain ⟨h1,h2⟩ := hfill (v.mem.useBit x) x c hx
    have hne : b ≠ x := fun hbx => he c (by rw [hbx])
    refine ⟨h1.trans ?_,h2.trans (nblocks_put (bitmapAt_ne_super _))⟩
    simp [isFree_useBit,hfree,hne]
  | hang g pl p x => exact ⟨(h.isFree_slot hok.1 hok.2.1 _ hb).trans hfree,h.nblocks_slot hok.1 hok.2.1 _⟩
  | unhook g pl p => exact ⟨(h.isFree_slot hok.1 hok.2 _ hb).trans hfree,h.nblocks_slot hok.1 hok.2 _⟩
  | release x =>
    refine ⟨?_,nblocks_put (bitmapAt_ne_super _)⟩
    simp [FsEdit.act,isFree_freeBit,hfree]
  | field g i w =>
    obtain ⟨hg,hi⟩ := hok
    obtain ⟨h1,h2⟩ := (h.placed g hg).off_ne_sys (i := i) (by omega)
    exact ⟨(isFree_put (h2 b hb)).trans hfree,nblocks_put h1⟩

end Tidy

def Homed (v : Vol) : Prop :=
  ∀ f ∈ v.files, ∀ g ∈ v.files, v.mem.word g.type ≠ FTYPE_DIR → ∀ pl p, BlockSlot v.mem g pl p →
    pl.Data → (v.mem.word p).toNat ≠ f.blk

lemma Owned.homed (h : Owned m) (cached : Nat → Prop) : Homed ⟨m,cached,{f | IsFile m f}⟩ := by
  intro f hf g hg htype pl p hp hdata he
  change (m.word p).toNat = f.blk at he
  cases hf with
  | root =>
    refine h.blk_ne_one hg hp (fun h0 => ?_) he
    rw [h0] at he
    exact Nat.zero_ne_one he
  | entry hd hdir hq _ h0 _ =>
    obtain rfl := h.inj _ _ _ _ _ _ hd hg hq hp h0 (eq_of_toNat_eq he.symm)
    obtain ⟨rfl,_⟩ := h.spread.slot_inj hd hg hq hp
    exact htype hdir

/-- What is read through `f` and is not zero was read at the same place before. -/
def Reads (f : Ptr) (m m' : Mem) : Prop :=
  ∀ pl p i, BlockSlot m' f pl p → pl.Data → m'.word p ≠ 0 → i < 1024 →
    m'.word ⟨(m'.word p).toNat,i⟩ ≠ 0 →
    BlockSlot m f pl p ∧ m.word p = m'.word p ∧
      m.word ⟨(m'.word p).toNat,i⟩ = m'.word ⟨(m'.word p).toNat,i⟩

lemma Reads.refl (f : Ptr) (m : Mem) : Reads f m m := fun _ _ _ hp _ _ _ _ => ⟨hp,rfl,rfl⟩

lemma Reads.trans (h : Reads f m m') (h' : Reads f m' m'') : Reads f m m'' := by
  intro pl p i hp hdata h0 hi hw
  obtain ⟨hp',hn',hw'⟩ := h' pl p i hp hdata h0 hi hw
  rw [← hn'] at h0 hw hw' ⊢
  obtain ⟨hp,hn,hw''⟩ := h pl p i hp' hdata h0 hi (hw' ▸ hw)
  exact ⟨hp,hn,hw''.trans hw'⟩

namespace Tidy

lemma type_act (h : Tidy opened v) (hok : e.Ok v) (hf : f ∈ v.files)
    (hp : BlockSlot (e.act opened v).mem f pl p) (h0 : (e.act opened v).mem.word p ≠ 0) :
    (e.act opened v).mem.word f.type = v.mem.word f.type := by
  have hset : ∀ w, e ≠ .field f 33 w := by
    rintro w rfl
    have := hok.2
    omega
  obtain hw | hw := h.kept_or_gone hok hf (.inl (by decide)) hset
  · exact hw
  exact absurd (hp.word_gone hw) h0

lemma homed_act (h : Tidy opened v) (hv : Homed v) (hok : e.Ok v) : Homed (e.act opened v) := by
  intro f hf g hg htype pl p hp hdata he
  have hf0 : f.blk ≠ 0 := (h.act hok).blk_ne_zero hf
  have h0 : (e.act opened v).mem.word p ≠ 0 := by
    intro h0
    rw [h0] at he
    exact hf0 he.symm
  obtain ⟨hgv,hs,hcase⟩ := h.slot_act hok hg hp h0
  rw [h.type_act hok hgv hp h0] at htype
  by_cases hhang : ∀ g pl p b, e ≠ .hang g pl p b
  · obtain hw | ⟨b,rfl⟩ := hcase
    · rw [hw] at he
      exact hv f (mem_of_act hf hhang) g hgv htype pl p hs hdata he
    exact hhang g pl p b rfl
  push Not at hhang
  obtain ⟨f',ql,q,b,rfl⟩ := hhang
  obtain ⟨hf',hq,hq0,hvac⟩ := hok
  obtain hw | ⟨b',hb'⟩ := hcase
  · rw [hw] at he
    obtain hf | ⟨_,_,hfb,_⟩ := hf
    · exact hv f hf g hgv htype pl p hs hdata he
    exact hvac.slots g hgv pl p hs (he.trans hfb)
  obtain ⟨rfl,rfl,rfl,rfl⟩ := FsEdit.hang.inj hb'
  simp only [FsEdit.act,word_put_self,hvac.usable.toNat_ofNat] at he
  obtain hf | ⟨_,hdir,_⟩ := hf
  · exact hvac.files f hf he.symm
  exact htype hdir

lemma data_apart (h : Tidy opened v) (hv : Homed v) (hf : f ∈ v.files)
    (htype : v.mem.word f.type ≠ FTYPE_DIR) (hp : BlockSlot v.mem f pl p) (hdata : pl.Data)
    (h0 : v.mem.word p ≠ 0) (hg : g ∈ v.files) : (∀ i < 64, (g.off i).blk ≠ (v.mem.word p).toNat) ∧
    ∀ ql q, BlockSlot v.mem g ql q → q.blk ≠ (v.mem.word p).toNat := by
  have hd : NDIRECT = 10 := rfl
  have hoff : ∀ i < 64, (g.off i).blk ≠ (v.mem.word p).toNat := by
    intro i hi
    rw [(h.placed g hg).off hi]
    exact (hv g hg f hf htype pl p hp hdata).symm
  refine ⟨hoff,fun ql q hq => ?_⟩
  cases hq with
  | direct hj => exact hoff _ (by omega)
  | indirect => exact hoff _ (by omega)
  | entry hi hj =>
    intro he
    obtain rfl := h.inj g hg f hf _ _ _ _ .indirect hp hi (eq_of_toNat_eq he)
    obtain ⟨_,rfl⟩ := h.slot_inj hg hf .indirect hp
    exact hdata

lemma reads_act (h : Tidy opened v) (hv : Homed v) (hok : e.Ok v)
    (hf : f ∈ (e.act opened v).files) (htype : (e.act opened v).mem.word f.type ≠ FTYPE_DIR) :
    Reads f v.mem (e.act opened v).mem := by
  intro pl p i hp hdata h0 hi hne
  obtain ⟨hfv,hs,hcase⟩ := h.slot_act hok hf hp h0
  rw [h.type_act hok hfv hp h0] at htype
  obtain hw | ⟨b,rfl⟩ := hcase
  · rw [hw] at h0 hne ⊢
    refine ⟨hs,rfl,?_⟩
    obtain ⟨hu,hused⟩ := h.good f hfv pl p hs h0
    have hsys : ∀ b < v.mem.nblocks, (⟨(v.mem.word p).toNat,i⟩ : Ptr) ≠ Fs.bitmapAt (b/32) := by
      intro b hb he
      have := bitmap_reserved hb
      rw [← he] at this
      exact absurd hu.1 (Nat.not_le.mpr this)
    cases e with
    | load b c => exact ((FsEdit.load_word hok _).resolve_right hne).symm
    | take b c =>
      have hb : (v.mem.word p).toNat ≠ b := by
        rintro rfl
        have := hok.2.1
        rw [hused] at this
        contradiction
      refine Eq.symm (Eq.trans (word_fill_ne _ _ hb) ?_)
      exact word_put_ne (hsys b hok.1)
    | hang g ql q b =>
      refine Eq.symm (word_put_ne fun he => ?_)
      exact (h.data_apart hv hfv htype hs hdata h0 hok.1).2 ql q hok.2.1 (congrArg Ptr.blk he).symm
    | unhook g ql q => exact ((v.mem.word_clear q _).resolve_right hne).symm
    | release b => exact (word_put_ne (hsys b hok.1.2)).symm
    | field g k w =>
      have hk := hok.2
      refine Eq.symm (word_put_ne fun he => ?_)
      exact (h.data_apart hv hfv htype hs hdata h0 hok.1).1 k (by omega) (congrArg Ptr.blk he).symm
  -- A block that has just been hung is zero.
  obtain ⟨hg,hq,_,hvac⟩ := hok
  refine absurd ?_ hne
  simp only [FsEdit.act,word_put_self,hvac.usable.toNat_ofNat]
  exact h.hang_zero hg hq hvac hi

end Tidy

end KludgeOS
