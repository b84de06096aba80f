import KludgeOS.Fs.TreeEdits

/-!
The blocks that a file gives back when it is cut.
-/

namespace KludgeOS
open Option Mem

variable {opened : Set Ptr} {f p : Ptr} {pl : Place}

/-- The blocks of `f` in these slots are free, and its other slots are as they were. -/
structure GivesBack (f : Ptr) (slots : Place → Prop) (m m' : Mem) : Prop where
  freed : ∀ pl p, slots pl → BlockSlot m f pl p → m.word p ≠ 0 →
    (m.word p).toNat < m.nblocks ∧ m'.isFree (m.word p).toNat
  rest : ∀ pl p, ¬slots pl → BlockSlot m f pl p → BlockSlot m' f pl p ∧ m'.word p = m.word p
  free : ∀ b < m.nblocks, m.isFree b → m'.isFree b
  nblocks : m'.nblocks = m.nblocks

namespace GivesBack

variable {slots slots' : Place → Prop} {m m' m'' : Mem}

lemma refl (m : Mem) (h : ∀ pl p, slots pl → BlockSlot m f pl p → m.word p = 0) :
    GivesBack f slots m m where
  freed pl p hpl hp h0 := absurd (h pl p hpl hp) h0
  rest _ _ _ hp := ⟨hp,rfl⟩
  free _ _ hb := hb
  nblocks := rfl

lemma trans (h : GivesBack f slots m m') (h' : GivesBack f slots' m' m'') :
    GivesBack f (fun pl => slots pl ∨ slots' pl) m m'' where
  freed pl p hpl hp h0 := by
    by_cases hs : slots pl
    · obtain ⟨hlt,hfree⟩ := h.freed pl p hs hp h0
      exact ⟨hlt,h'.free _ (by rw [h.nblocks]; exact hlt) hfree⟩
    obtain ⟨hp',hw⟩ := h.rest pl p hs hp
    have := h'.freed pl p (hpl.resolve_left hs) hp' (hw ▸ h0)
    rw [hw,h.nblocks] at this
    exact this
  rest pl p hpl hp := by
    push Not at hpl
    obtain ⟨hp',hw⟩ := h.rest pl p hpl.1 hp
    obtain ⟨hp'',hw'⟩ := h'.rest pl p hpl.2 hp'
    exact ⟨hp'',hw'.trans hw⟩
  free b hb hfree := h'.free b (by rw [h.nblocks]; exact hb) (h.free b hb hfree)
  nblocks := h'.nblocks.trans h.nblocks

lemma congr (h : GivesBack f slots m m') (hs : ∀ pl, slots pl ↔ slots' pl) :
    GivesBack f slots' m m' where
  freed pl p hpl := h.freed pl p ((hs pl).mpr hpl)
  rest pl p hpl := h.rest pl p fun h => hpl ((hs pl).mp h)
  free := h.free
  nblocks := h.nblocks

end GivesBack

lemma Tidy.gives_back {v : Vol} (h : Tidy opened v) (hf : f ∈ v.files)
    (hp : BlockSlot v.mem f pl p) (h0 : v.mem.word p ≠ 0) (hpl : pl ≠ .indirect) :
    GivesBack f (· = pl) v.mem ((v.mem.put p 0).freeBit (v.mem.word p).toNat) := by
  obtain ⟨husable,_⟩ := h.good f hf pl p hp h0
  have hslot : ∀ ql q, ql ≠ pl → BlockSlot v.mem f ql q →
      ((v.mem.put p 0).freeBit (v.mem.word p).toNat).word q = v.mem.word q := by
    intro ql q hne hq
    have hqp : q ≠ p := by
      rintro rfl
      exact hne (h.slot_inj hf hf hq hp).2
    rw [freeBit,word_put_ne ((h.slot_ne_sys hf hq).2 _ husable.2),word_put_ne hqp]
  refine ⟨?_,?_,?_,?_⟩
  · rintro ql q rfl hq h0q
    obtain rfl : q = p := by cases hq <;> cases hp <;> rfl
    exact ⟨husable.2,by simp [isFree_freeBit]⟩
  · intro ql q hne hq
    exact ⟨hq.congr (hslot _ _ hpl.symm .indirect),hslot ql q hne hq⟩
  · intro b hb hfree
    rw [isFree_freeBit,h.isFree_slot hf hp 0 hb,hfree]
    rfl
  rw [freeBit,nblocks_put (bitmapAt_ne_super _),h.nblocks_slot hf hp]

namespace Fs

variable {s t : Fs} {w : Word} {r : Int} {files : Set Ptr} {path : List Byte}

lemma Walked.view {q : Ptr} (h : Walked s f w false r (some q) t) : t.view = s.view := by
  cases h with
  | direct _ => rfl
  | made _ _ _ hf _ _ _ => contradiction
  | read _ _ _ _ hr hpos => exact ((readBlock_loaded hr).1.success hpos).1

lemma fileClearBlock_gives (h : s.fileClearBlock f w = some (r,t)) (ht : Tidy opened (s.vol files))
    (hf : f ∈ files) (hn : ∀ n ∈ t.notes, n.Calm) :
    GivesBack f (· = place w.toNat) s.view t.view := by
  have hd : NDIRECT = 10 := rfl
  cases fileClearBlock_cleared h with
  | walk hw hr =>
    have hview : t.view = s.view := by
      cases hw with
      | direct _ | missing _ _ _ | range _ => rfl
      | made _ _ _ hf _ _ _ => contradiction
      | read _ _ _ _ _ _ | unread _ _ _ _ _ _ => exact absurd hr (by decide)
    obtain ⟨_,_,hempty⟩ := fileClearBlock_edits h ht hf hn
    rw [hview] at hempty ⊢
    exact .refl _ fun pl p hpl hp => hempty p (hpl ▸ hp)
  | hole hw _ hfol hget =>
    obtain ⟨rfl,rfl⟩ := follow_calm hfol hn
    obtain ⟨_,_,hempty⟩ := fileClearBlock_edits h ht hf hn
    rw [hw.view] at hempty ⊢
    exact .refl _ fun pl p hpl hp => hempty p (hpl ▸ hp)
  | @freed r1 ptr p v s1 s2 s3 _ hw _ hfol hget h0 hfree hput =>
    have hn2 := Ticks.of_notes ((freeBlock_ticks hfree).trans (put_ticks hput)) hn
    obtain ⟨rfl,rfl⟩ := follow_calm hfol hn2
    have hslot := ((hw.edits ht hf hn2).2 _ rfl).slot
    have hloads : Steps opened IsLoad s files _ files := hw.loads files
    have ht2 := hloads.tidy ht
    obtain ⟨_,rfl⟩ := get_view hget
    obtain ⟨hview,_⟩ := drop_view ht2 hf hslot h0 hfree hput
    rw [hview,← hw.view]
    exact ht2.gives_back hf hslot h0 (place_ne_indirect _)

lemma clearRounds_gives (n : Nat) : ∀ {s : Fs} {i : Nat} {files : Set Ptr}, s.clearRounds f n i =
    some t → Tidy opened (s.vol files) → f ∈ files → i+n < 2^32 → (∀ n ∈ t.notes, n.Calm) →
    GivesBack f (fun pl => ∃ j, pl = place j ∧ i ≤ j ∧ j < i+n) s.view t.view := by
  induction n with
  | zero =>
    intro s i files h _ _ _ _
    cases h
    exact .refl _ (by rintro pl p ⟨j,_,hj,hlt⟩; omega)
  | succ n ih =>
    intro s i files h ht hf hlt hn
    obtain ⟨⟨r1,s1⟩,hc,h⟩ := of_bind h
    have hn1 := (clearRounds_ticks n h).of_notes hn
    obtain ⟨files1,hd1,_⟩ := fileClearBlock_edits hc ht hf hn1
    obtain ⟨hf1,_⟩ := Clears.shrunk hd1.does ht hf
    have h1 := fileClearBlock_gives hc ht hf hn1
    have h2 := ih h (hd1.tidy ht) hf1 (by omega) hn
    have hi : (BitVec.ofNat 32 i).toNat = i := by
      rw [BitVec.toNat_ofNat]
      omega
    rw [hi] at h1
    refine (h1.trans h2).congr fun pl => ⟨?_,?_⟩
    · rintro (rfl | ⟨j,rfl,hj,hjn⟩)
      · exact ⟨i,rfl,le_rfl,by omega⟩
      exact ⟨j,rfl,by omega,by omega⟩
    rintro ⟨j,rfl,hj,hjn⟩
    by_cases hji : j = i
    · exact .inl (by rw [hji])
    exact .inr ⟨j,rfl,by omega,by omega⟩

/-- The blocks of `f` that `n` bytes do not need, with the indirect block if none is needed. -/
def Unneeded (m : Mem) (f : Ptr) (n : Word) (pl : Place) : Prop :=
  (∃ j, pl = place j ∧ (nblocksFor n).toNat ≤ j ∧ j < (nblocksFor (m.word f.size)).toNat) ∨
    pl = .indirect ∧ (nblocksFor n).toNat ≤ NDIRECT

lemma fileTruncateBlocks_freed (h : s.fileTruncateBlocks f w = some t)
    (hf : At opened (s.vol files) f) (hn : ∀ n ∈ t.notes, n.Calm) (hpl : Unneeded s.view f w pl)
    (hp : BlockSlot s.view f pl p) (h0 : s.view.word p ≠ 0) : (s.view.word p).toNat < s.view.nblocks
    ∧ t.view.isFree (s.view.word p).toNat ∧ t.view.nblocks = s.view.nblocks := by
  obtain ⟨x,hx,h⟩ := of_bind h
  obtain ⟨s1,hc,h⟩ := of_bind h
  obtain ⟨ind,hind,h⟩ := of_bind h
  have hxw := (get_view hx).2
  have hindw := (get_view hind).2
  have hlt : (nblocksFor w).toNat+((nblocksFor x).toNat-(nblocksFor w).toNat) < 2^32 := by
    have := (nblocksFor w).isLt
    have := (nblocksFor x).isLt
    omega
  have hn1 : ∀ n ∈ s1.notes, n.Calm := by
    split at h
    · obtain ⟨s2,hfree,h⟩ := of_bind h
      exact Ticks.of_notes ((freeBlock_ticks hfree).trans (put_ticks h)) hn
    cases h
    exact hn
  have hgives := clearRounds_gives _ hc hf.tidy hf.mem hlt hn1
  obtain ⟨files1,hd1,_⟩ := clearRounds_edits _ hc hf.tidy hf.mem hlt hn1
  obtain ⟨hf1,_⟩ := Clears.shrunk hd1.does hf.tidy hf.mem
  have ht1 := hd1.tidy hf.tidy
  obtain ⟨hindp,hindeq⟩ := hgives.rest .indirect _
    (by rintro ⟨j,hj,_⟩; exact place_ne_indirect j hj.symm) .indirect
  -- What is free stays so when the indirect block is given back.
  have hlast : ∀ b < s1.view.nblocks, s1.view.isFree b →
      t.view.isFree b ∧ t.view.nblocks = s1.view.nblocks := by
    intro b hb hfree
    split at h
    · rename_i hcond
      obtain ⟨s2,hfb,hput⟩ := of_bind h
      subst hindw
      obtain ⟨hview,_⟩ := drop_view ht1 hf1 .indirect hcond.2 hfb hput
      rw [hview,isFree_freeBit,show (s1.view.put f.indirect 0).isFree b = s1.view.isFree b from
          ht1.isFree_slot hf1 .indirect 0 hb,hfree,freeBit,
        nblocks_put (bitmapAt_ne_super _)]
      exact ⟨rfl,ht1.nblocks_slot hf1 .indirect 0⟩
    cases h
    exact ⟨hfree,rfl⟩
  obtain ⟨j,rfl,hj,hjx⟩ | ⟨rfl,hle⟩ := hpl
  · rw [hxw] at hjx
    obtain ⟨hb,hfree⟩ := hgives.freed _ p ⟨j,rfl,hj,by omega⟩ hp h0
    obtain ⟨hfree,hnb⟩ := hlast _ (by rw [hgives.nblocks]; exact hb) hfree
    exact ⟨hb,hfree,hnb.trans hgives.nblocks⟩
  cases hp
  have hb := (hf.tidy.good f hf.mem _ _ .indirect h0).1.2
  rw [hindw] at hindeq
  rw [if_pos ⟨hle,by rw [hindeq]; exact h0⟩] at h
  obtain ⟨s2,hfb,hput⟩ := of_bind h
  subst hindw
  obtain ⟨hview,_⟩ := drop_view ht1 hf1 .indirect (hindeq ▸ h0) hfb hput
  refine ⟨hb,by rw [hview,hindeq,isFree_freeBit]; simp,?_⟩
  rw [hview,freeBit,nblocks_put (bitmapAt_ne_super _)]
  exact (ht1.nblocks_slot hf1 .indirect 0).trans hgives.nblocks

end Fs

end KludgeOS
