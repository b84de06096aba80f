import KludgeOS.Fs.FormatBytes
import KludgeOS.Fs.LayoutSpec

/-!
The files and directories that are made: what each function of the formatter
leaves in the image, for names that fit.
-/

namespace KludgeOS
open BitVec (ofNat)
open BitVec Option Function Fs
open Layout (fill put)

variable {m m' : Mem} {f g d p q : Ptr} {pl ql : Place} {n i j b c : Nat} {w : Word}
  {files : Set Ptr} {pend : Set Nat}

lemma Mem.fill_put (hp : p.blk ≠ b) (c : Nat → Word) :
    (m.fill b c).put p w = (m.put p w).fill b c := by
  unfold Mem.put Mem.set Mem.fill
  rw [update_of_ne hp]
  exact update_comm hp.symm _ _ _

lemma BlockSlot.unique (hp : BlockSlot m f pl p) (hq : BlockSlot m f pl q) : p = q := by
  cases hp <;> cases hq <;> rfl

namespace Spread

lemma slot_ne_indirect (h : Spread m files) (hf : f ∈ files) (hp : BlockSlot m f pl p)
    (hpl : pl ≠ .indirect) : f.indirect ≠ p := by
  rintro rfl
  exact hpl (h.slot_inj hf hf hp .indirect).2

lemma blockOf_put (h : Spread m files) (hf : f ∈ files) (hp : BlockSlot m f (place n) p) (w : Word)
    (hj : j < NINDIRECT) : (m.put p w).blockOf f j = if j = n then w else m.blockOf f j := by
  have hind : (m.put p w).word f.indirect = m.word f.indirect :=
    Mem.word_put_ne (h.slot_ne_indirect hf hp (place_ne_indirect n))
  have hat : ∀ {q}, BlockSlot m f (place j) q → (m.put p w).word q = if j = n then w else m.word q := by
    intro q hq
    split
    · rename_i hjn
      subst hjn
      rw [hq.unique hp,Mem.word_put_self]
    rename_i hjn
    refine Mem.word_put_ne ?_
    rintro rfl
    have := (h.slot_inj hf hf hp hq).2
    unfold place at this
    split at this <;> split at this <;> simp_all
  simp only [Mem.blockOf,hind]
  split
  · rename_i hlt
    exact hat (by rw [place,if_pos hlt]; exact .direct hlt)
  rename_i hge
  split
  · rename_i h0
    -- Slot `n` is not one of the indirect block.
    have hjn : j ≠ n := by
      rintro rfl
      rw [place,if_neg hge] at hp
      cases hp
      contradiction
    rw [if_neg hjn]
  rename_i h0
  exact hat (by rw [place,if_neg hge]; exact .entry h0 hj)

lemma shaped_put (h : Spread m files) (hf : f ∈ files) (hn : n < NINDIRECT)
    (hs : ∀ pl p, BlockSlot m f pl p → pl ≠ .indirect → (m.word p ≠ 0 ↔ pl.Needed n))
    (hind : m.word f.indirect ≠ 0 ↔ NDIRECT ≤ n) (hp : BlockSlot m f (place n) p) (hw : w ≠ 0) :
    Shaped (m.put p w) f (n+1) := by
  have hkeep : (m.put p w).word f.indirect = m.word f.indirect :=
    Mem.word_put_ne (h.slot_ne_indirect hf hp (place_ne_indirect n))
  refine ⟨hn,fun ql q hq => ?_⟩
  replace hq : BlockSlot m f ql q := hq.congr hkeep.symm
  by_cases hql : ql = .indirect
  · subst hql
    cases hq
    rw [hkeep,hind]
    simp only [Place.Needed]
    omega
  by_cases hqn : ql = place n
  · subst hqn
    rw [hq.unique hp,Mem.word_put_self]
    refine ⟨fun _ => ?_,fun _ => hw⟩
    unfold place
    split
    · exact Nat.lt_succ_self n
    exact ⟨Nat.not_lt.mp ‹_›,Nat.lt_succ_self n⟩
  have hqp : q ≠ p := by
    rintro rfl
    exact hqn (h.slot_inj hf hf hq hp).2
  rw [Mem.word_put_ne hqp,hs ql q hq hql]
  unfold place at hqn
  cases ql with
  | direct j =>
    have : j ≠ n := by
      rintro rfl
      cases hq
      simp_all
    simp only [Place.Needed]
    omega
  | indirect => exact absurd rfl hql
  | entry j =>
    have : j ≠ n ∨ n < NDIRECT := by
      by_contra hc
      push Not at hc
      obtain ⟨rfl,hle⟩ := hc
      rw [if_neg (Nat.not_lt.mpr hle)] at hqn
      exact hqn rfl
    simp only [Place.Needed]
    omega

end Spread

namespace Mem

def record (m : Mem) (g : Ptr) (i : Nat) : Word := m g.blk (g.idx+i)

def Named (m : Mem) (g : Ptr) : Prop := byteAt (m.record g) 0 ≠ 0

def InDir (m : Mem) (d g : Ptr) : Prop :=
  ∃ j < NINDIRECT, m.blockOf d j ≠ 0 ∧ g ∈ records (m.blockOf d j).toNat

end Mem

lemma Placed.record (h : Placed m g) (m' : Mem) (hi : i < 64) :
    m'.record g i = m'.word (g.off i) := by
  rw [h.off hi]
  rfl

lemma Placed.named {m1 m2 : Mem} (h : Placed m g) (hw : m2.word (g.off 0) = m1.word (g.off 0)) :
    m2.Named g ↔ m1.Named g := by
  rw [← h.record _ (by decide),← h.record _ (by decide)] at hw
  simp only [Mem.Named,byteAt,Nat.zero_div,hw]

lemma Mem.named_of_nameIs {name : List Byte} (h : nameIs (m.record g) name)
    (hne : name ≠ []) (hnul : 0 ∉ name) : m.Named g := by
  cases name with
  | nil => exact absurd rfl hne
  | cons a name =>
    simp only [nameIs,Bool.and_eq_true,List.all_eq_true,List.mem_range,beq_iff_eq] at h
    rw [Mem.Named,h.1 0 (by simp)]
    intro ha
    exact hnul (by simp_all)

lemma Mem.not_named (h : m.record g 0 = 0) : ¬m.Named g := by simp [Mem.Named,byteAt,h]

namespace Layout

variable {v v' : Layout}

/-- Block `b` becomes block `n` of `f`. -/
structure Stored (v v' : Layout) (files : Set Ptr) (f : Ptr) (n b : Nat) : Prop where
  shaped : Shaped v'.mem f (n+1)
  last : (v'.mem.blockOf f n).toNat = b
  earlier : ∀ j < n, v'.mem.blockOf f j = v.mem.blockOf f j
  fields : ∀ i < 64, i < 34 ∨ 45 ≤ i → v'.mem.word (f.off i) = v.mem.word (f.off i)
  kept : ∀ g ∈ files, g ≠ f → Kept v.mem v'.mem g
  rest : ∀ c < v.next, c ≠ 2 → c ≠ f.blk → c ≠ (v.mem.word f.indirect).toNat → v'.mem c = v.mem c
  nblocks : v'.mem.nblocks = v.mem.nblocks

namespace Sound

lemma hang_stored (h : Sound v files pend) (hf : f ∈ files) (hn : n < NINDIRECT)
    (hs : ∀ pl p, BlockSlot v.mem f pl p → pl ≠ .indirect → (v.mem.word p ≠ 0 ↔ pl.Needed n))
    (hind : v.mem.word f.indirect ≠ 0 ↔ NDIRECT ≤ n)
    (hp : BlockSlot v.mem f (place n) p) (hb : b ∈ pend) : Sound (v.put p (ofNat 32 b))
    (grown v files f (place n) b) (pend \ {b}) ∧ Stored v (v.put p (ofNat 32 b)) files f n b := by
  have h0 : v.mem.word p = 0 := by
    by_contra h0
    have := (hs _ _ hp (place_ne_indirect n)).mp h0
    unfold place at this
    split at this
    · exact Nat.lt_irrefl n this
    exact Nat.lt_irrefl n this.2
  obtain ⟨hsound,hkept⟩ := h.hang hf hp h0 hb
  have hbw : (ofNat 32 b).toNat = b := (h.vacant b hb).usable.toNat_ofNat
  have hw : ofNat 32 b ≠ 0 := by
    intro hz
    have := (h.pend_lt hb).1
    simp [hz] at hbw
    omega
  have hsp : Spread v.mem files := h.tidy.toSpread
  have hplaced := hsp.placed f hf
  have hblk : p.blk = f.blk ∨ p.blk = (v.mem.word f.indirect).toNat := by
    have hd : NDIRECT = 10 := rfl
    generalize place n = pl at hp
    cases hp with
    | @direct j hj => exact .inl (by rw [Ptr.direct,hplaced.off (by omega)])
    | indirect => exact .inl (by rw [Ptr.indirect,hplaced.off (by decide)])
    | entry => exact .inr rfl
  refine ⟨hsound,hsp.shaped_put hf hn hs hind hp hw,?_,fun j hj => ?_,fun i hi hi' => ?_,hkept,
    fun c _ _ hc hc' => ?_,h.tidy.nblocks_slot hf hp _⟩
  · change ((v.mem.put p _).blockOf f n).toNat = b
    rw [hsp.blockOf_put hf hp _ hn,if_pos rfl,hbw]
  · change (v.mem.put p _).blockOf f j = _
    rw [hsp.blockOf_put hf hp _ (by omega),if_neg (by omega)]
  · refine Mem.word_put_ne fun he => ?_
    have hd : NDIRECT = 10 := rfl
    generalize place n = pl at hp
    cases hp with
    | direct hj =>
      have := (hplaced.off_inj hplaced hi (by omega) he).2
      omega
    | indirect =>
      have := (hplaced.off_inj hplaced hi (by decide) he).2
      omega
    | entry hne _ => exact hsp.entry_ne_off hf hne hf hi he.symm
  funext i
  refine Mem.word_put_ne (q := ⟨c,i⟩) ?_
  rintro rfl
  exact hblk.elim hc hc'

lemma storeblk (h : Sound v files pend) (hf : f ∈ files) (hs : Shaped v.mem f n) (hb : b ∈ pend)
    (hst : v.storeblk f b n = some v') :
    Sound v' (grown v files f (place n) b) (pend \ {b}) ∧ Stored v v' files f n b := by
  have hslots : ∀ pl p, BlockSlot v.mem f pl p → pl ≠ .indirect →
      (v.mem.word p ≠ 0 ↔ pl.Needed n) := fun pl p hp _ => hs.slots pl p hp
  have hind := hs.slots _ _ .indirect
  simp only [Place.Needed] at hind
  have hni : NINDIRECT = 1024 := rfl
  have hd : NDIRECT = 10 := rfl
  unfold Layout.storeblk at hst
  split at hst
  · rename_i hlt
    cases hst
    exact h.hang_stored hf (by omega) hslots (by rw [hind]; omega) (by rw [place,if_pos hlt]; exact .direct hlt) hb
  rename_i hge
  split at hst
  swap
  · contradiction
  rename_i hlt
  split at hst
  · rename_i hzero
    obtain ⟨⟨i,v1⟩,hfr,hst⟩ := of_bind hst
    cases hst
    obtain ⟨rfl,hnext,hnb,h1,hk1⟩ := h.fresh hfr
    have hkf := hk1 f hf
    have hzero1 : v1.mem.word f.indirect = 0 := (hkf.off (by decide)).trans hzero
    have hn : n = NDIRECT := by
      have : ¬NDIRECT < n := fun hc => hind.mpr hc hzero
      omega
    subst hn
    have hvi := h1.vacant v.next (Set.mem_insert _ _)
    have hiw : (ofNat 32 v.next).toNat = v.next := hvi.usable.toNat_ofNat
    obtain ⟨h2,hk2⟩ := h1.hang hf .indirect hzero1 (Set.mem_insert _ _)
    have hfiles : grown v1 files f .indirect v.next = files := by
      ext g
      simp [grown,Place.Data]
    have hpend : insert v.next pend \ {v.next} = pend := by
      refine Set.insert_sdiff_self_of_notMem fun hc => ?_
      exact lt_irrefl _ (h.pend_lt hc).2
    rw [hfiles,hpend] at h2
    generalize hv2 : v1.put f.indirect (ofNat 32 v.next) = v2 at h2 hk2 ⊢
    have hplaced := h.tidy.placed f hf
    have hfblk : f.blk ≠ v.next := hvi.files f hf
    -- The second step changes `f_indirect` only.
    have hput : ∀ q, q ≠ f.indirect → v2.mem.word q = v1.mem.word q := by
      intro q hq
      rw [← hv2]
      exact Mem.word_put_ne hq
    have hoff : ∀ i < 64, i ≠ 44 → v2.mem.word (f.off i) = v.mem.word (f.off i) := by
      intro i hi hi'
      rw [hput _ fun he => hi' (hplaced.off_inj hplaced hi (by decide) he).2]
      exact hkf.off hi
    have hblk : ∀ c, c ≠ f.blk → v2.mem c = v1.mem c := by
      intro c hc
      funext i
      refine hput ⟨c,i⟩ fun he => hc ?_
      rw [Ptr.indirect,hplaced.off (by decide)] at he
      exact (Ptr.mk.inj he).1
    have hind2 : v2.mem.word f.indirect = ofNat 32 v.next := by
      rw [← hv2]
      exact Mem.word_put_self _ _ _
    have hne2 : v2.mem.word f.indirect ≠ 0 := by
      intro hz
      have := h.three_le
      rw [← hind2,hz] at hiw
      simp at hiw
      omega
    have hslots2 : ∀ pl p, BlockSlot v2.mem f pl p → pl ≠ .indirect →
        (v2.mem.word p ≠ 0 ↔ pl.Needed NDIRECT) := by
      intro pl p hp hpl
      cases hp with
      | @direct j hj =>
        rw [Ptr.direct,hoff _ (by omega) (by omega)]
        exact hs.slots _ _ (.direct hj)
      | indirect => exact absurd rfl hpl
      | @entry j _ hj =>
        have hz : v2.mem.word ⟨(v2.mem.word f.indirect).toNat,j⟩ = 0 := by
          rw [hind2,hiw,Mem.word,hblk _ hfblk.symm]
          exact hvi.zero j hj
        simp only [hz,ne_eq,not_true_eq_false,Place.Needed,false_iff]
        omega
    obtain ⟨h3,hst3⟩ := h2.hang_stored hf hlt hslots2 ⟨fun _ => le_rfl,fun _ => hne2⟩
      (by rw [place,if_neg hge]; exact .entry hne2 hlt) hb
    rw [hind2,hiw] at h3 hst3
    have hgrown : grown v2 files f (place NDIRECT) b = grown v files f (place NDIRECT) b := by
      simp only [grown,Ptr.type,hoff 33 (by decide) (by decide)]
    rw [hgrown] at h3
    refine ⟨h3,hst3.shaped,hst3.last,fun j hj => ?_,fun i hi hi' => ?_,fun g hg hgf => ?_,
      fun c hc hc2 hcf _ => ?_,?_⟩
    · rw [hst3.earlier j hj,Mem.blockOf,Mem.blockOf,if_pos hj,if_pos hj]
      exact hoff _ (by omega) (by omega)
    · rw [hst3.fields i hi hi']
      exact hoff i hi (by omega)
    · exact ((hk1 g hg).trans (hk2 g hg hgf)).trans (hst3.kept g hg hgf)
    · have hnext2 : v2.next = v1.next := by rw [← hv2]; rfl
      rw [hst3.rest c (by omega) hc2 hcf (by rw [hind2,hiw]; omega),hblk c hcf]
      exact h.fresh_rest hfr (by omega) hc2
    rw [hst3.nblocks,← hnb,← hv2]
    exact h1.tidy.nblocks_slot hf .indirect _
  rename_i hne
  cases hst
  have := hind.mp hne
  exact h.hang_stored hf hlt hslots (by rw [hind]; omega)
    (by rw [place,if_neg hge]; exact .entry hne hlt) hb

lemma block_apart (h : Sound v files pend) (hf : f ∈ files)
    (hj : j < NINDIRECT) (h0 : v.mem.blockOf f j ≠ 0) : 3 ≤ (v.mem.blockOf f j).toNat ∧
    (v.mem.blockOf f j).toNat < v.next ∧ (v.mem.blockOf f j).toNat ≠ f.blk ∧
    (v.mem.blockOf f j).toNat ≠ (v.mem.word f.indirect).toNat := by
  obtain ⟨p,hp,hw⟩ := Mem.blockOf_slot h0 hj
  rw [← hw] at h0 ⊢
  obtain ⟨hu,hused⟩ := h.tidy.good f hf _ _ hp h0
  refine ⟨h.slot_ge hf hp h0,h.used_lt hu.2 hused,h.tidy.self f hf _ _ hp,fun he => ?_⟩
  obtain rfl := h.tidy.inj f hf f hf _ _ _ _ hp .indirect h0 (eq_of_toNat_eq he)
  exact place_ne_indirect j (h.tidy.slot_inj hf hf hp .indirect).2

lemma fillData (h : Sound v files ∅) (hf : f ∈ files) (htype : v.mem.word f.type ≠ FTYPE_DIR)
    (hp : BlockSlot v.mem f pl p) (hdata : pl.Data) (h0 : v.mem.word p ≠ 0) (c : Nat → Word) :
    Sound (v.fill (v.mem.word p).toNat c) files ∅ ∧
      ∀ g ∈ files, g ≠ f → Kept v.mem (v.fill (v.mem.word p).toNat c).mem g := by
  have hsp : Spread v.mem files := h.tidy.toSpread
  have hword : ∀ q : Ptr, q.blk ≠ (v.mem.word p).toNat →
      (v.fill (v.mem.word p).toNat c).mem.word q = v.mem.word q := fun q hq => Mem.word_fill_ne _ _ hq
  have hhas : ∀ {q}, q.blk = (v.mem.word p).toNat → v.mem.Has f q :=
    fun hq => .inr (.inr ⟨htype,pl,p,hp,hdata,h0,hq⟩)
  have hoff : ∀ g ∈ files, ∀ i < 64,
      (v.fill (v.mem.word p).toNat c).mem.word (g.off i) = v.mem.word (g.off i) := by
    intro g hg i hi
    refine hword _ ?_
    rw [(hsp.placed g hg).off hi]
    exact (h.homed g hg f hf htype pl p hp hdata).symm
  refine ⟨h.alike (fun g hg ql q hq => ?_) (fun g hg => .inl (hoff g hg 33 (by decide)))
    (fun q hq => hword _ fun he => ?_) (fun b hb => absurd hb (Set.notMem_empty b)),
    fun g hg hgf q hq => hword q fun he => h.tidy.has_apart h.homed hg hf hgf hq (hhas he)⟩
  · have hd : NDIRECT = 10 := rfl
    cases hq with
    | direct hj => exact hoff g hg _ (by omega)
    | indirect => exact hoff g hg 44 (by decide)
    | entry hne hj =>
      refine hword _ fun he => ?_
      obtain rfl := h.tidy.inj g hg f hf _ _ _ _ .indirect hp hne (eq_of_toNat_eq he)
      rw [(h.tidy.slot_inj hf hg hp .indirect).2] at hdata
      exact hdata
  have h2 : q.blk ≠ 2 := (h.has_lt hf (hhas he)).2
  obtain rfl | hq := hq
  · have husable : v.mem.nreserved ≤ (v.mem.word p).toNat := (hsp.good f hf _ _ hp h0).1.1
    have := v.mem.one_lt_nreserved
    change 1 = _ at he
    omega
  exact h2 hq

lemma fillNext (h : Sound v files ∅) (c : Nat → Word) :
    Sound (v.fill v.next c) files ∅ ∧ ∀ g ∈ files, Kept v.mem (v.fill v.next c).mem g := by
  have hsp : Spread v.mem files := h.tidy.toSpread
  have h3 := h.three_le
  have hword : ∀ q : Ptr, q.blk ≠ v.next → (v.fill v.next c).mem.word q = v.mem.word q :=
    fun q hq => Mem.word_fill_ne _ _ hq
  have hkept : ∀ g ∈ files, Kept v.mem (v.fill v.next c).mem g := by
    intro g hg q hq
    have := (h.has_lt hg hq).1
    exact hword q (by omega)
  refine ⟨h.alike (fun g hg pl p hp => ((hkept g hg).slot' hp).2)
    (fun g hg => .inl ((hkept g hg).off (by decide)))
    (fun q hq => hword q ?_) (fun b hb => absurd hb (Set.notMem_empty b)),hkept⟩
  obtain rfl | hq := hq
  · change 1 ≠ _
    omega
  omega

end Sound

lemma storeblk_fill {c : Nat → Word} (h : Sound v files pend) (hf : f ∈ files) (hb : b ∈ pend)
    (n : Nat) : (v.fill b c).storeblk f b n = (v.storeblk f b n).map fun u => u.fill b c := by
  have h3 := (h.pend_lt hb).1
  have hput : ∀ (u : Layout) (q : Ptr) (w : Word), q.blk ≠ b →
      (u.fill b c).put q w = (u.put q w).fill b c := by
    intro u q w hq
    simp only [fill,put,Mem.fill_put hq]
  have hslot : ∀ {pl q}, BlockSlot v.mem f pl q → q.blk ≠ b :=
    fun hq => h.has_pend hf hb hq.has
  have hind : (v.fill b c).mem.word f.indirect = v.mem.word f.indirect :=
    Mem.word_fill_ne _ _ (hslot .indirect)
  unfold Layout.storeblk
  rw [hind]
  split
  · rename_i hlt
    rw [hput _ _ _ (hslot (.direct hlt))]
    rfl
  split
  · rename_i hge hlt
    split
    · have hn : (v.fill b c).mem.nblocks = v.mem.nblocks :=
        congrArg BitVec.toNat (Mem.word_fill_ne (p := ⟨1,1⟩) _ _ (by change 1 ≠ b; omega))
      unfold fresh
      rw [hn]
      by_cases hfull : v.mem.nblocks ≤ (v.fill b c).next
      · rw [if_pos hfull,if_pos (show v.mem.nblocks ≤ v.next from hfull)]
        rfl
      have hlt : v.next < v.mem.nblocks := not_le.mp hfull
      rw [if_neg hfull,if_neg (show ¬v.mem.nblocks ≤ v.next from hfull)]
      have hnb : b ≠ v.next := Nat.ne_of_lt (h.pend_lt hb).2
      have hbit : (bitmapAt (v.next/32)).blk ≠ b := by
        rw [h.bitmap_blk hlt]
        omega
      have hmem : (((v.fill b c).mem.useBit v.next).fill v.next fun _ => 0) =
          ((v.mem.useBit v.next).fill v.next fun _ => 0).fill b c := by
        simp only [fill,Mem.useBit,Mem.word_fill_ne _ _ hbit,Mem.fill_put hbit]
        exact update_comm hnb _ _ _
      have hfresh : (⟨((v.fill b c).mem.useBit v.next).fill v.next fun _ => 0,v.next+1⟩ : Layout) =
          fill ⟨(v.mem.useBit v.next).fill v.next fun _ => 0,v.next+1⟩ b c := by
        rw [hmem]
        rfl
      change some ((put (put ⟨((v.fill b c).mem.useBit v.next).fill v.next fun _ => 0,v.next+1⟩ _ _) _ _)) = _
      rw [hfresh,hput _ _ _ (hslot .indirect),hput _ _ _ hnb.symm]
      rfl
    rename_i hne
    rw [hput _ _ _ (hslot (.entry hne hlt))]
    rfl
  rfl

structure Built (v : Layout) (files : Set Ptr) : Prop extends Sound v files ∅ where
  shaped : ∀ g ∈ files, ∃ n, Shaped v.mem g n ∧
    (v.mem.word g.type = FTYPE_DIR → (v.mem.word g.size).toNat = 4096*n)
  blank : ∀ g ∈ files, ¬v.mem.Named g → ∀ i < 64, v.mem.word (g.off i) = 0

namespace Built

lemma placed (h : Built v files) (hg : g ∈ files) : Placed v.mem g := h.tidy.placed g hg

lemma named_of_dir (h : Built v files) (hd : d ∈ files) (hdir : v.mem.word d.type = FTYPE_DIR) :
    v.mem.Named d := by
  by_contra hn
  have h0 : v.mem.word d.type = 0 := h.blank d hd hn 33 (by decide)
  rw [hdir] at h0
  exact absurd h0 (by decide)

lemma kept_file (h : Built v files) (hg : g ∈ files) (hk : Kept v.mem m g) :
    (∃ n, Shaped m g n ∧ (m.word g.type = FTYPE_DIR → (m.word g.size).toNat = 4096*n)) ∧
      (¬m.Named g → ∀ i < 64, m.word (g.off i) = 0) := by
  constructor
  · obtain ⟨n,hs,hsize⟩ := h.shaped g hg
    refine ⟨n,hk.shaped hs,fun hdir => ?_⟩
    have ht : m.word g.type = v.mem.word g.type := hk.off (by decide)
    have hz : m.word g.size = v.mem.word g.size := hk.off (by decide)
    rw [hz]
    exact hsize (ht ▸ hdir)
  intro hn i hi
  rw [hk.off hi]
  exact h.blank g hg (fun hn' => hn (((h.placed hg).named (hk.off (by decide))).mpr hn')) i hi

lemma update (h : Built v files) (hs : Sound v' files ∅) (hk : ∀ g ∈ files, g ≠ f →
    Kept v.mem v'.mem g) (hf : ∃ n, Shaped v'.mem f n ∧ (v'.mem.word f.type = FTYPE_DIR →
    (v'.mem.word f.size).toNat = 4096*n)) (hn : v'.mem.Named f) : Built v' files := by
  refine ⟨hs,fun g hg => ?_,fun g hg hng => ?_⟩
  · by_cases hgf : g = f
    · rw [hgf]
      exact hf
    exact (h.kept_file hg (hk g hg hgf)).1
  by_cases hgf : g = f
  · rw [hgf] at hng
    exact absurd hn hng
  exact (h.kept_file hg (hk g hg hgf)).2 hng

variable {name : List Byte} {v1 v2 : Layout}

lemma gotit (h : Built v files) (hg : g ∈ files)
    (hn : ¬v.mem.Named g) (hne : name ≠ []) (hnul : 0 ∉ name) (hlen : name.length < MAXNAMELEN)
    : Built (v.gotit g name).2 files ∧ (∀ f ∈ files, f ≠ g → Kept v.mem (v.gotit g name).2.mem f) ∧
    nameIs ((v.gotit g name).2.mem.record g) name ∧ (v.gotit g name).2.mem.Named g ∧
    ∀ i, 32 ≤ i → i < 64 → (v.gotit g name).2.mem.word (g.off i) = 0 := by
  have hmax : MAXNAMELEN = 128 := rfl
  have hplaced := h.placed hg
  generalize hm : (v.gotit g name).2.mem = m
  have hblk : m g.blk = strcpy (v.mem g.blk) (4*g.idx) name := by
    rw [← hm]
    exact Mem.fill_self _ _ _
  have hword : ∀ q, (∀ i < 64, i < 33 ∨ 45 ≤ i → q ≠ g.off i) → m.word q = v.mem.word q := by
    intro q hq
    by_cases hqb : q.blk = g.blk
    · have hout : 4*q.idx+3 < 4*g.idx ∨ 4*g.idx+name.length < 4*q.idx := by
        by_contra hc
        push Not at hc
        refine hq (q.idx-g.idx) (by omega) (.inl (by omega)) ?_
        rw [hplaced.off (by omega),← hqb,show g.idx+(q.idx-g.idx) = q.idx by omega]
      rw [Mem.word,hqb,hblk,strcpy_apart _ hout,Mem.word,hqb]
    rw [← hm]
    exact Mem.word_fill_ne _ _ hqb
  obtain ⟨hsound,hkept⟩ := h.setFields hg hword
  have hself : ∀ i, 32 ≤ i → i < 64 → m.word (g.off i) = 0 := by
    intro i hi hi'
    rw [← h.blank g hg hn i hi',hplaced.off hi',Mem.word,Mem.word,hblk]
    exact strcpy_apart _ (.inr (by change _ < 4*(g.idx+i); omega))
  have hname : nameIs (m.record g) name := by
    have : m.record g = fun i => strcpy (v.mem g.blk) (4*g.idx) name (g.idx+i) := by
      funext i
      rw [Mem.record,hblk]
    rw [this]
    exact nameIs_strcpy _ _ _
  have hnamed : m.Named g := Mem.named_of_nameIs hname hne hnul
  have hv : (v.gotit g name).2 = {v with mem := m} := by rw [← hm]; rfl
  rw [hv]
  have hreg : m.word g.type = 0 := hself 33 (by decide) (by decide)
  refine ⟨h.update hsound hkept ⟨0,shaped_zero fun i hi hi' => hself i (by omega) (by omega),
    fun hdir => ?_⟩ hnamed,hkept,hname,hnamed,hself⟩
  exact absurd (hdir.symm.trans hreg) (by decide)

lemma inDir_mem (h : Built v files) (hd : d ∈ files) (hdir : v.mem.word d.type = FTYPE_DIR)
    (hg : v.mem.InDir d g) : g ∈ files ∧ g ≠ d := by
  obtain ⟨j,hj,h0,hblk,k,hk,hidx⟩ := hg
  obtain ⟨p,hp,hw⟩ := Mem.blockOf_slot h0 hj
  have hgk : g = ⟨(v.mem.blockOf d j).toNat,64*k⟩ := by rw [← hblk,← hidx]
  rw [← hw] at h0 hgk
  refine ⟨?_,?_⟩
  · rw [hgk]
    exact h.tidy.closed d hd hdir _ _ hp (place_data j) h0 k hk
  rintro rfl
  refine h.tidy.self g hd _ _ hp ?_
  rw [hgk]
  rfl

/-- Directory `d` has got `b` as its block `n`. -/
structure Grown (v v' : Layout) (files : Set Ptr) (d : Ptr) (n b : Nat) : Prop where
  built : Built v' (files ∪ records b)
  new : ∀ g ∈ records b, g ∉ files
  zero : ∀ g ∈ records b, ∀ i < 64, v'.mem.word (g.off i) = 0
  kept : ∀ f ∈ files, f ≠ d → Kept v.mem v'.mem f
  type : v'.mem.word d.type = v.mem.word d.type
  blocks : ∀ j < NINDIRECT,
    (v'.mem.blockOf d j).toNat = if j = n then b else (v.mem.blockOf d j).toNat

lemma grow (h : Built v files) (hd : d ∈ files) (hdir : v.mem.word d.type = FTYPE_DIR)
    (hs : Shaped v.mem d n) (hsize : (v.mem.word d.size).toNat = 4096*n)
    (hfr : v.fresh = some (b,v1)) (hst : v1.storeblk d b n = some v2) :
    Grown v (v2.put d.size (v2.mem.word d.size+4096)) files d n b := by
  have hni : NINDIRECT = 1024 := rfl
  have hbs : (n+1)*BLKSIZE = 4096*(n+1) := Nat.mul_comm _ _
  obtain ⟨rfl,hnext,hnb,h1,hk1⟩ := h.fresh hfr
  have hkd := hk1 d hd
  have hvac := h1.vacant v.next (Set.mem_insert _ _)
  have hs1 := hkd.shaped hs
  obtain ⟨h2,hs2⟩ := h1.storeblk hd hs1 (Set.mem_insert _ _) hst
  have hfiles : Sound.grown v1 files d (place n) v.next = files ∪ records v.next := by
    ext g
    have ht : v1.mem.word d.type = FTYPE_DIR := (hkd.off (by decide)).trans hdir
    simp [Sound.grown,place_data,ht]
  have hpend : insert v.next (∅ : Set Nat) \ {v.next} = ∅ := by simp
  rw [hfiles,hpend] at h2
  have hd2 : d ∈ files ∪ records v.next := .inl hd
  have hplaced := h2.tidy.placed d hd2
  have hsz : v2.mem.word d.size = v.mem.word d.size :=
    (hs2.fields 32 (by decide) (by decide)).trans (hkd.off (by decide))
  have hn := hs2.shaped.le
  have hw : v2.mem.word d.size+4096 = ofNat 32 ((n+1)*BLKSIZE) := by
    apply eq_of_toNat_eq
    rw [hsz,toNat_add,toNat_ofNat,hsize]
    change (4096*n+4096)%4294967296 = _
    omega
  rw [hw]
  generalize hm : v2.mem.put d.size (ofNat 32 ((n+1)*BLKSIZE)) = m
  have hword : ∀ q, q ≠ d.size → m.word q = v2.mem.word q := by
    intro q hq
    rw [← hm]
    exact Mem.word_put_ne hq
  obtain ⟨h3,hk3⟩ := h2.setFields hd2
    fun q hq => hword q (hq 32 (by decide) (.inl (by decide)))
  have hput : v2.put d.size (ofNat 32 ((n+1)*BLKSIZE)) = {v2 with mem := m} := by
    rw [← hm]
    rfl
  rw [hput]
  have hkept : ∀ f ∈ files, f ≠ d → Kept v.mem m f := fun f hf hfd =>
    ((hk1 f hf).trans (hs2.kept f hf hfd)).trans (hk3 f (.inl hf) hfd)
  have hnew : ∀ g ∈ records v.next, g ∉ files := fun g hg hgf => hvac.files g hgf hg.1
  have hzero : ∀ g ∈ records v.next, ∀ i < 64, m.word (g.off i) = 0 := by
    intro g hg i hi
    have hgd : g ≠ d := by
      rintro rfl
      exact hnew g hg hd
    have hg2 : g ∈ files ∪ records v.next := .inr hg
    have hplg := h2.tidy.placed g hg2
    have h3' := h.three_le
    rw [(hk3 g hg2 hgd).off hi,hplg.off hi,Mem.word,hg.1]
    have hrest := hs2.rest v.next (by omega) (by omega) (hvac.files d hd).symm
      (hvac.slots d hd _ _ .indirect).symm
    rw [hrest]
    obtain ⟨k,hk,hidx⟩ := hg.2
    have : BLKFILES = 16 := rfl
    exact hvac.zero _ (by change g.idx+i < 1024; omega)
  have hoff : ∀ i < 64, i ≠ 32 → m.word (d.off i) = v2.mem.word (d.off i) := by
    intro i hi hi'
    exact hword _ fun he => hi' (hplaced.off_inj hplaced hi (by decide) he).2
  have hslot : ∀ {pl p}, BlockSlot v2.mem d pl p → m.word p = v2.mem.word p :=
    fun hp => hword _ (h2.tidy.slot_ne_off hd2 hd2 hp (.inl (by decide)))
  have hsd : Shaped m d (n+1) := hs2.shaped.congr fun _ _ hp => hslot hp
  have hdirm : m.word d.type = v.mem.word d.type :=
    (hoff 33 (by decide) (by decide)).trans
      ((hs2.fields 33 (by decide) (by decide)).trans (hkd.off (by decide)))
  refine ⟨⟨h3,?_,?_⟩,hnew,hzero,hkept,hdirm,fun j hj => ?_⟩
  · rintro g (hg | hg)
    · by_cases hgd : g = d
      · subst hgd
        refine ⟨n+1,hsd,fun _ => ?_⟩
        change (m.word g.size).toNat = _
        rw [← hm,Mem.word_put_self,toNat_ofNat]
        omega
      exact (h.kept_file hg (hkept g hg hgd)).1
    refine ⟨0,shaped_zero fun i _ hi => hzero g hg i (by omega),fun hc => ?_⟩
    have h0 : m.word g.type = 0 := hzero g hg 33 (by decide)
    exact absurd (hc.symm.trans h0) (by decide)
  · rintro g (hg | hg) hnam
    · by_cases hgd : g = d
      · subst hgd
        refine absurd ((hplaced.named ?_).mpr (h.named_of_dir hg hdir)) hnam
        exact (hoff 0 (by decide) (by decide)).trans
          ((hs2.fields 0 (by decide) (by decide)).trans (hkd.off (by decide)))
      exact (h.kept_file hg (hkept g hg hgd)).2 hnam
    exact hzero g hg
  change (m.blockOf d j).toNat = _
  rw [Mem.blockOf_congr (fun _ _ hp => hslot hp) hj]
  split
  · rename_i hjn
    rw [hjn]
    exact hs2.last
  rename_i hjn
  by_cases hlt : j < n
  · rw [hs2.earlier j hlt,hkd.blockOf hj]
  have h4 : v2.mem.blockOf d j = 0 := by
    by_contra hc
    have := (hs2.shaped.blockOf hj).mp hc
    omega
  have h5 : v.mem.blockOf d j = 0 := by
    by_contra hc
    have := (hs.blockOf hj).mp hc
    omega
  rw [h4,h5]

structure Allocated (v v' : Layout) (files files' : Set Ptr) (d g : Ptr) (name : List Byte) :
    Prop where
  built : Built v' files'
  sub : files ⊆ files'
  mem : g ∈ files'
  ne : g ≠ d
  new : g ∈ files → ¬v.mem.Named g
  name : nameIs (v'.mem.record g) name
  named : v'.mem.Named g
  zero : ∀ i, 32 ≤ i → i < 64 → v'.mem.word (g.off i) = 0
  kept : ∀ f ∈ files, f ≠ d → f ≠ g → Kept v.mem v'.mem f
  type : v'.mem.word d.type = v.mem.word d.type
  inDir : v'.mem.InDir d g
  old : ∀ r, v.mem.InDir d r → v'.mem.InDir d r
  only : ∀ r, v'.mem.InDir d r → v'.mem.Named r → r = g ∨ v.mem.InDir d r

section

variable (h : Built v files) (hd : d ∈ files) (hdir : v.mem.word d.type = FTYPE_DIR)
include h hd hdir

lemma allocated_gotit
    (hin : v.mem.InDir d g) (hn : ¬v.mem.Named g) (hne : name ≠ []) (hnul : 0 ∉ name)
    (hlen : name.length < MAXNAMELEN) : Allocated v (v.gotit g name).2 files files d g name := by
  obtain ⟨hg,hgd⟩ := h.inDir_mem hd hdir hin
  obtain ⟨hb,hk,hname,hnamed,hzero⟩ := h.gotit hg hn hne hnul hlen
  have hkd := hk d hd hgd.symm
  have hiff : ∀ r, (v.gotit g name).2.mem.InDir d r ↔ v.mem.InDir d r := by
    intro r
    refine exists_congr fun j => and_congr_right fun hj => ?_
    rw [hkd.blockOf hj]
  exact ⟨hb,subset_rfl,hg,hgd,fun _ => hn,hname,hnamed,hzero,fun f hf _ => hk f hf,
    hkd.off (by decide),(hiff g).mpr hin,fun r => (hiff r).mpr,fun r hr _ => .inr ((hiff r).mp hr)⟩

lemma newDirb (hs : Shaped v.mem d n) (hsize : (v.mem.word d.size).toNat = 4096*n)
    (hne : name ≠ []) (hnul : 0 ∉ name) (hlen : name.length < MAXNAMELEN)
    (ha : v.newDirb d n name = some (g,v')) : ∃ files', Allocated v v' files files' d g name := by
  unfold Layout.newDirb at ha
  obtain ⟨⟨b,v1⟩,hfr,ha⟩ := of_bind ha
  obtain ⟨v2,hst,ha⟩ := of_bind ha
  have hgr := h.grow hd hdir hs hsize hfr hst
  dsimp only at ha
  split at ha
  · cases ha
  cases ha
  have hb0 : (⟨b,0⟩ : Ptr) ∈ records b := ⟨rfl,0,by decide,rfl⟩
  have hbpos : b ≠ 0 := by
    obtain ⟨hbn,_⟩ := h.fresh hfr
    have := h.three_le
    omega
  have hni : n < NINDIRECT := by
    by_contra hc
    have hd10 : NDIRECT ≤ NINDIRECT := by decide
    simp [Layout.storeblk,hc,show ¬n < NDIRECT by omega] at hst
  generalize hv3 : v2.put d.size (v2.mem.word d.size+4096) = v3 at hgr ⊢
  have hin : ∀ r, v3.mem.InDir d r ↔ v.mem.InDir d r ∨ r ∈ records b := by
    intro r
    constructor
    · rintro ⟨j,hj,h0,hr⟩
      have hbl := hgr.blocks j hj
      rw [hbl] at hr
      split at hbl
      · rename_i hjn
        rw [if_pos hjn] at hr
        exact .inr hr
      rename_i hjn
      rw [if_neg hjn] at hr
      refine .inl ⟨j,hj,?_,hr⟩
      rwa [← eq_of_toNat_eq hbl]
    rintro (⟨j,hj,h0,hr⟩ | hr)
    · have hjn : j ≠ n := by
        have := (hs.blockOf hj).mp h0
        omega
      have hbl := hgr.blocks j hj
      rw [if_neg hjn] at hbl
      refine ⟨j,hj,?_,by rw [hbl]; exact hr⟩
      rwa [eq_of_toNat_eq hbl]
    have hbl := hgr.blocks n hni
    rw [if_pos rfl] at hbl
    refine ⟨n,hni,fun h0 => ?_,by rw [hbl]; exact hr⟩
    simp [h0] at hbl
    omega
  have hblank : ¬v3.mem.Named ⟨b,0⟩ := by
    have hplaced := hgr.built.placed (.inr hb0)
    have h0 := hgr.zero _ hb0 0 (by decide)
    rw [← hplaced.record _ (by decide)] at h0
    exact Mem.not_named h0
  have hal := hgr.built.allocated_gotit (.inl hd) (hgr.type.trans hdir) ((hin _).mpr (.inr hb0)) hblank
    hne hnul hlen
  refine ⟨_,hal.built,Set.subset_union_left,hal.mem,hal.ne,fun hc => absurd hc (hgr.new _ hb0),
    hal.name,hal.named,hal.zero,?_,hal.type.trans hgr.type,hal.inDir,
    fun r hr => hal.old r ((hin r).mpr (.inl hr)),fun r hr hnr => ?_⟩
  · intro f hf hfd hfg
    exact (hgr.kept f hf hfd).trans (hal.kept f (.inl hf) hfd hfg)
  obtain rfl | hr1 := hal.only r hr hnr
  · exact .inl rfl
  obtain hr2 | hr2 := (hin r).mp hr1
  · exact .inr hr2
  -- The other entries of the new block have no name.
  by_cases hrg : r = ⟨b,0⟩
  · exact .inl hrg
  have hrd : r ≠ d := by
    rintro rfl
    exact hgr.new r hr2 hd
  have hk := hal.kept r (.inr hr2) hrd hrg
  have hplaced := hgr.built.placed (.inr hr2)
  have h0 : (v3.gotit ⟨b,0⟩ name).2.mem.record r 0 = 0 := by
    rw [hplaced.record _ (by decide),hk.off (by decide)]
    exact hgr.zero r hr2 0 (by decide)
  exact absurd hnr (Mem.not_named h0)

lemma allocfile (hne : name ≠ []) (hnul : 0 ∉ name) (hlen : name.length < MAXNAMELEN)
    (ha : v.allocfile d name = some (g,v')) : ∃ files', Allocated v v' files files' d g name := by
  obtain ⟨n,hs,hsize⟩ := h.shaped d hd
  replace hsize := hsize hdir
  have hle := hs.le
  have hni : NINDIRECT = 1024 := rfl
  have hcnt : ((v.mem.word d.size+4095)/4096).toNat = n := by
    rw [toNat_udiv,toNat_add,hsize]
    change (4096*n+4095)%4294967296/4096 = n
    omega
  unfold Layout.allocfile at ha
  rw [hcnt] at ha
  cases n with
  | zero => exact h.newDirb hd hdir hs hsize hne hnul hlen ha
  | succ nblk =>
    simp only at ha
    have h0 := (hs.blockOf (by omega)).mpr (Nat.lt_succ_self nblk)
    cases hfe : Fmt.freeEntry (v.mem (v.mem.blockOf d nblk).toNat) with
    | some k =>
      rw [hfe] at ha
      cases ha
      have hk : k < BLKFILES := List.mem_range.mp (List.mem_of_find?_eq_some hfe)
      have hfree := List.find?_some hfe
      refine ⟨files,h.allocated_gotit hd hdir ⟨nblk,by omega,h0,rfl,k,hk,rfl⟩ ?_ hne hnul hlen⟩
      simp only [beq_iff_eq] at hfree
      rw [show 256*k = 4*(64*k)+0 by omega,byteAt_add] at hfree
      exact fun hc => hc hfree
    | none =>
      rw [hfe] at ha
      exact h.newDirb hd hdir hs hsize hne hnul hlen ha

end

structure Appended (v v' : Layout) (files : Set Ptr) (f : Ptr) (n : Nat) (c : Nat → Word) :
    Prop where
  built : Built v' files
  shaped : Shaped v'.mem f (n+1)
  last : v'.mem (v'.mem.blockOf f n).toNat = c
  earlier : ∀ j < n, v'.mem.blockOf f j = v.mem.blockOf f j ∧
    v'.mem (v.mem.blockOf f j).toNat = v.mem (v.mem.blockOf f j).toNat
  fields : ∀ i < 64, i < 34 ∨ 45 ≤ i → v'.mem.word (f.off i) = v.mem.word (f.off i)
  kept : ∀ g ∈ files, g ≠ f → Kept v.mem v'.mem g

lemma append {c : Nat → Word} (h : Built v files) (hf : f ∈ files) (hn : v.mem.Named f)
    (ht : v.mem.word f.type ≠ FTYPE_DIR) (hs : Shaped v.mem f n) (hfr : v.fresh = some (b,v1))
    (hst : (v1.fill b c).storeblk f b n = some v2) : Appended v v2 files f n c := by
  obtain ⟨rfl,hnext,hnb,h1,hk1⟩ := h.fresh hfr
  have hkf := hk1 f hf
  have hvac := h1.vacant v.next (Set.mem_insert _ _)
  have ht1 : v1.mem.word f.type ≠ FTYPE_DIR := by
    rw [show v1.mem.word f.type = v.mem.word f.type from hkf.off (by decide)]
    exact ht
  rw [storeblk_fill h1 hf (Set.mem_insert _ _)] at hst
  obtain ⟨u,hu,rfl⟩ := map_eq_some_iff.mp hst
  obtain ⟨h2,hs2⟩ := h1.storeblk hf (hkf.shaped hs) (Set.mem_insert _ _) hu
  have hfiles : Sound.grown v1 files f (place n) v.next = files := by
    ext g
    simp [Sound.grown,ht1]
  have hpend : insert v.next (∅ : Set Nat) \ {v.next} = ∅ := by simp
  rw [hfiles,hpend] at h2
  have hlt : n < NINDIRECT := hs2.shaped.le
  have h3 := h.three_le
  obtain ⟨p,hp,hw⟩ := Mem.blockOf_slot ((hs2.shaped.blockOf hlt).mpr (Nat.lt_succ_self n)) hlt
  have hwn : (u.mem.word p).toNat = v.next := by
    rw [hw]
    exact hs2.last
  have hp0 : u.mem.word p ≠ 0 := by
    intro hz
    simp [hz] at hwn
    omega
  have htu : u.mem.word f.type ≠ FTYPE_DIR := by
    rw [show u.mem.word f.type = v1.mem.word f.type from hs2.fields 33 (by decide) (by decide)]
    exact ht1
  obtain ⟨h4,hk4⟩ := h2.fillData hf htu hp (place_data n) hp0 c
  rw [hwn] at h4 hk4
  have hplaced := h2.tidy.placed f hf
  -- The block that is filled has no slots of `f`.
  have hword : ∀ q : Ptr, q.blk ≠ v.next → (u.fill v.next c).mem.word q = u.mem.word q :=
    fun q hq => Mem.word_fill_ne _ _ hq
  have hoff : ∀ i < 64, (u.fill v.next c).mem.word (f.off i) = u.mem.word (f.off i) := by
    intro i hi
    refine hword _ ?_
    rw [hplaced.off hi]
    exact hvac.files f hf
  have hap := h2.block_apart hf hlt ((hs2.shaped.blockOf hlt).mpr (Nat.lt_succ_self n))
  rw [hs2.last] at hap
  have hslot : ∀ pl p, BlockSlot u.mem f pl p → (u.fill v.next c).mem.word p = u.mem.word p := by
    intro pl p hp
    have hd : NDIRECT = 10 := rfl
    cases hp with
    | direct hj => exact hoff _ (by omega)
    | indirect => exact hoff _ (by decide)
    | entry h0 hj => exact hword _ hap.2.2.2.symm
  have hshaped := hs2.shaped.congr hslot
  have hfields : ∀ i < 64, i < 34 ∨ 45 ≤ i →
      (u.fill v.next c).mem.word (f.off i) = v.mem.word (f.off i) := by
    intro i hi hi'
    rw [hoff i hi,hs2.fields i hi hi',hkf.off hi]
  have hkept : ∀ g ∈ files, g ≠ f → Kept v.mem (u.fill v.next c).mem g := fun g hg hgf =>
    ((hk1 g hg).trans (hs2.kept g hg hgf)).trans (hk4 g hg hgf)
  refine ⟨h.update h4 hkept ⟨n+1,hshaped,fun hc => absurd ?_ ht⟩
    ((hplaced.named (hfields 0 (by decide) (by decide))).mpr hn),hshaped,?_,fun j hj => ?_,hfields,
    hkept⟩
  · exact (hfields 33 (by decide) (by decide)).symm.trans hc
  · rw [Mem.blockOf_congr hslot hlt,hs2.last]
    exact Mem.fill_self _ _ _
  have h0 := (hs.blockOf (j := j) (by omega)).mpr hj
  obtain ⟨_,hx,hxf,hxi⟩ := h.block_apart hf (by omega) h0
  refine ⟨?_,?_⟩
  · rw [Mem.blockOf_congr hslot (by omega),hs2.earlier j hj,hkf.blockOf (by omega)]
  have hi : v1.mem.word f.indirect = v.mem.word f.indirect := hkf.off (by decide)
  calc (u.fill v.next c).mem (v.mem.blockOf f j).toNat
      = u.mem (v.mem.blockOf f j).toNat := Mem.fill_frame _ _ (by omega)
    _ = v1.mem (v.mem.blockOf f j).toNat :=
        hs2.rest _ (by omega) (by omega) hxf (by rw [hi]; exact hxi)
    _ = v.mem (v.mem.blockOf f j).toNat := h.fresh_rest hfr (by omega) (by omega)

end Built

end Layout

end KludgeOS
