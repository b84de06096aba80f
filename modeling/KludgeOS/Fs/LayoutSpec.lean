import KludgeOS.Fs.Layout

/-!
The image while it is being made: files have their blocks from the first on, each
block given out is in one slot, and what is written for one file leaves the
others alone.
-/

namespace KludgeOS
open BitVec (ofNat)
open Mem (word_put_ne isFree)
open Mem BitVec

variable {m m' m'' : Mem} {f g p q : Ptr} {pl ql : Place} {n i j b : Nat}

/-- The slots that are used in a file of `n` blocks. -/
def Place.Needed (n : Nat) : Place → Prop
  | .direct j => j < n
  | .indirect => NDIRECT < n
  | .entry j => NDIRECT ≤ j ∧ j < n

/-- `f` has its first `n` blocks and no others. -/
structure Shaped (m : Mem) (f : Ptr) (n : Nat) : Prop where
  le : n ≤ NINDIRECT
  slots : ∀ pl p, BlockSlot m f pl p → (m.word p ≠ 0 ↔ pl.Needed n)

lemma Shaped.blockOf (h : Shaped m f n) (hj : j < NINDIRECT) : m.blockOf f j ≠ 0 ↔ j < n := by
  unfold Mem.blockOf
  split
  · rename_i hlt
    exact h.slots _ _ (.direct hlt)
  rename_i hge
  have hind := h.slots _ _ .indirect
  simp only [Place.Needed] at hind
  split
  · rename_i h0
    rw [h0] at hind
    simp only [ne_eq,not_true_eq_false,false_iff] at hind ⊢
    omega
  rename_i h0
  rw [h.slots _ _ (.entry h0 hj)]
  simp only [Place.Needed]
  omega

lemma Shaped.congr (h : Shaped m f n)
    (he : ∀ pl p, BlockSlot m f pl p → m'.word p = m.word p) : Shaped m' f n := by
  refine ⟨h.le,fun pl p hp => ?_⟩
  have hp : BlockSlot m f pl p := hp.congr (he _ _ .indirect).symm
  rw [he _ _ hp]
  exact h.slots pl p hp

lemma Mem.blockOf_congr (he : ∀ pl p, BlockSlot m f pl p → m'.word p = m.word p)
    (hj : j < NINDIRECT) : m'.blockOf f j = m.blockOf f j := by
  simp only [blockOf,he _ _ .indirect]
  split
  · rename_i hlt
    exact he _ _ (.direct hlt)
  split
  · rfl
  rename_i hne
  exact he _ _ (.entry hne hj)

lemma shaped_zero (h : ∀ i, 34 ≤ i → i < 45 → m.word (f.off i) = 0) : Shaped m f 0 := by
  have hd : NDIRECT = 10 := rfl
  refine ⟨Nat.zero_le _,fun pl p hp => ?_⟩
  cases hp with
  | @direct j hj => simp [Place.Needed,Ptr.direct,h (34+j) (by omega) (by omega)]
  | indirect => simp [Place.Needed,Ptr.indirect,h 44 (by decide) (by decide)]
  | entry h0 _ => exact absurd (h 44 (by decide) (by decide)) h0

/-! The words of a file. -/

/-- `p` is a word of the file itself, of its indirect block or, if it is not a directory, of one of
its blocks. -/
def Mem.Has (m : Mem) (g p : Ptr) : Prop :=
  (∃ i < 64, p = g.off i) ∨ m.word g.indirect ≠ 0 ∧ p.blk = (m.word g.indirect).toNat ∨
    m.word g.type ≠ FTYPE_DIR ∧ ∃ pl q, BlockSlot m g pl q ∧ pl.Data ∧ m.word q ≠ 0 ∧
      p.blk = (m.word q).toNat

lemma BlockSlot.has (hp : BlockSlot m g pl p) : m.Has g p := by
  have hd : NDIRECT = 10 := rfl
  cases hp with
  | @direct j hj => exact .inl ⟨34+j,by omega,rfl⟩
  | indirect => exact .inl ⟨44,by decide,rfl⟩
  | entry h0 _ => exact .inr (.inl ⟨h0,rfl⟩)

def Kept (m m' : Mem) (g : Ptr) : Prop := ∀ p, m.Has g p → m'.word p = m.word p

namespace Kept

lemma refl (m : Mem) (g : Ptr) : Kept m m g := fun _ _ => rfl

section

variable (h : Kept m m' g)
include h

lemma off (hi : i < 64) : m'.word (g.off i) = m.word (g.off i) := h _ (.inl ⟨i,hi,rfl⟩)

lemma slot (hp : BlockSlot m' g pl p) : BlockSlot m g pl p ∧ m'.word p = m.word p := by
  have hd : NDIRECT = 10 := rfl
  have hind : m'.word g.indirect = m.word g.indirect := h.off (by decide)
  have hs : BlockSlot m g pl p := hp.congr hind.symm
  refine ⟨hs,?_⟩
  cases hs with
  | direct hj => exact h.off (by omega)
  | indirect => exact hind
  | entry h0 _ => exact h _ (.inr (.inl ⟨h0,rfl⟩))

lemma slot' (hp : BlockSlot m g pl p) : BlockSlot m' g pl p ∧ m'.word p = m.word p := by
  have hs : BlockSlot m' g pl p := hp.congr (h.off (i := 44) (by decide))
  exact ⟨hs,(h.slot hs).2⟩

lemma shaped (hs : Shaped m g n) : Shaped m' g n := hs.congr fun _ _ hp => (h.slot' hp).2

lemma blockOf (hj : j < NINDIRECT) : m'.blockOf g j = m.blockOf g j :=
  blockOf_congr (fun _ _ hp => (h.slot' hp).2) hj

lemma data (htype : m.word g.type ≠ FTYPE_DIR) (hp : BlockSlot m g pl p)
    (hdata : pl.Data) (h0 : m.word p ≠ 0) : m' (m.word p).toNat = m (m.word p).toNat :=
  funext fun i => h ⟨(m.word p).toNat,i⟩ (.inr (.inr ⟨htype,pl,p,hp,hdata,h0,rfl⟩))

lemma has (hp : m.Has g p) : m'.Has g p := by
  have hind : m'.word g.indirect = m.word g.indirect := h.off (by decide)
  have htype : m'.word g.type = m.word g.type := h.off (by decide)
  obtain hp | ⟨h0,hp⟩ | ⟨ht,pl,q,hq,hdata,h0,hp⟩ := hp
  · exact .inl hp
  · exact .inr (.inl (by rw [hind]; exact ⟨h0,hp⟩))
  obtain ⟨hs,hw⟩ := h.slot' hq
  exact .inr (.inr ⟨by rw [htype]; exact ht,pl,q,hs,hdata,by rw [hw]; exact h0,by rw [hw]; exact hp⟩)

lemma trans (h' : Kept m' m'' g) : Kept m m'' g :=
  fun p hp => (h' p (h.has hp)).trans (h p hp)

end

end Kept

namespace Tidy

variable {opened : Set Ptr} {v : Vol}

lemma has_apart (h : Tidy opened v) (hv : Homed v) (hf : f ∈ v.files) (hg : g ∈ v.files)
    (hne : f ≠ g) (hp : v.mem.Has f p) : ¬v.mem.Has g p := by
  -- Two slots with one number are one slot, which is one of one file.
  have hinj : ∀ {f g pl ql q r}, f ∈ v.files → g ∈ v.files → f ≠ g → BlockSlot v.mem f pl q →
      BlockSlot v.mem g ql r → v.mem.word q ≠ 0 → (v.mem.word q).toNat ≠ (v.mem.word r).toNat := by
    intro f g pl ql q r hf hg hne hq hr h0 he
    obtain rfl := h.inj f hf g hg _ _ _ _ hq hr h0 (eq_of_toNat_eq he)
    exact hne (h.slot_inj hf hg hq hr).1
  have hoff : ∀ {g : Ptr} {i}, g ∈ v.files → i < 64 → (g.off i).blk = g.blk := by
    intro g i hg hi
    rw [(h.placed g hg).off hi]
  intro hp'
  obtain ⟨i,hi,rfl⟩ | ⟨h0,hb⟩ | ⟨ht,pl,q,hq,hdata,h0,hb⟩ := hp
  · obtain ⟨j,hj,he⟩ | ⟨h0,hb⟩ | ⟨ht,pl,q,hq,hdata,h0,hb⟩ := hp'
    · exact hne ((h.placed f hf).off_inj (h.placed g hg) hi hj he).1
    · exact h.indirect_apart hg h0 hf (hb.symm.trans (hoff hf hi))
    exact hv f hf g hg ht pl q hq hdata (hb.symm.trans (hoff hf hi))
  · obtain ⟨j,hj,rfl⟩ | ⟨h0',hb'⟩ | ⟨ht,pl,q,hq,hdata,h0',hb'⟩ := hp'
    · exact h.indirect_apart hf h0 hg (hb.symm.trans (hoff hg hj))
    · exact hinj hf hg hne .indirect .indirect h0 (hb.symm.trans hb')
    exact hinj hf hg hne .indirect hq h0 (hb.symm.trans hb')
  obtain ⟨j,hj,rfl⟩ | ⟨h0',hb'⟩ | ⟨ht',pl',q',hq',_,h0',hb'⟩ := hp'
  · exact hv g hg f hf ht pl q hq hdata (hb.symm.trans (hoff hg hj))
  · exact hinj hf hg hne hq .indirect h0 (hb.symm.trans hb')
  exact hinj hf hg hne hq hq' h0 (hb.symm.trans hb')

lemma has_used (h : Tidy ∅ v) (hg : g ∈ v.files) (hp : v.mem.Has g p) :
    g = rootFile ∧ p.blk = 1 ∨ v.mem.Usable p.blk ∧ v.mem.isFree p.blk = false := by
  obtain ⟨i,hi,rfl⟩ | ⟨h0,hb⟩ | ⟨_,pl,q,hq,_,h0,hb⟩ := hp
  · rw [(h.placed g hg).off hi]
    by_cases hr : g = rootFile
    · subst hr
      exact .inl ⟨rfl,rfl⟩
    obtain hroot | hrec := h.placed g hg
    · exact absurd hroot hr
    obtain hu | ⟨o,ho,_⟩ := h.kept g hg hr
    · exact .inr ⟨hrec.usable,hu⟩
    exact absurd ho (Set.notMem_empty o)
  · rw [hb]
    exact .inr (h.good g hg _ _ .indirect h0)
  rw [hb]
  exact .inr (h.good g hg _ _ hq h0)

lemma has_vacant (h : Tidy opened v) (hb : Vacant v b) (hg : g ∈ v.files) (hp : v.mem.Has g p) :
    p.blk ≠ b := by
  obtain ⟨i,hi,rfl⟩ | ⟨_,he⟩ | ⟨_,pl,q,hq,_,_,he⟩ := hp
  · rw [(h.placed g hg).off hi]
    exact hb.files g hg
  · rw [he]
    exact hb.slots g hg _ _ .indirect
  rw [he]
  exact hb.slots g hg _ _ hq

lemma uncached (h : Tidy ∅ v) : Tidy ∅ ⟨v.mem,fun b => b < v.mem.nreserved,v.files⟩ :=
  { h with
    held := fun f hf => absurd hf (Set.notMem_empty f)
    sys := fun b hb => ⟨(h.sys b hb).1,fun _ => hb⟩ }

end Tidy

lemma IsFile.mono (h : ∀ d pl p, IsFile m d → m.word d.type = FTYPE_DIR → BlockSlot m d pl p →
      m.word p ≠ 0 → m'.word d.type = FTYPE_DIR ∧ BlockSlot m' d pl p ∧ m'.word p = m.word p)
    (hg : IsFile m g) : IsFile m' g := by
  induction hg with
  | root => exact .root
  | entry hd hdir hp hdata h0 hk ih =>
    obtain ⟨hdir',hp',hw⟩ := h _ _ _ hd hdir hp h0
    rw [← hw] at h0 ⊢
    exact .entry ih hdir' hp' hdata h0 hk

/-! What is kept while the image is made. -/

namespace Layout

def vol (v : Layout) (files : Set Ptr) : Vol := ⟨v.mem,fun b => b < v.mem.nreserved,files⟩

/-- Blocks are given out in order. Each is in a slot, except those of `pend`, which nothing has
yet. -/
structure Sound (v : Layout) (files : Set Ptr) (pend : Set Nat) : Prop where
  tidy : Tidy ∅ (v.vol files)
  reach : ∀ g ∈ files, IsFile v.mem g
  homed : Homed (v.vol files)
  small : v.mem.nblocks ≤ 1024
  le : v.next ≤ v.mem.nblocks
  bits : ∀ x < v.mem.nblocks, v.mem.isFree x = decide (v.next ≤ x)
  vacant : ∀ b ∈ pend, Vacant (v.vol files) b
  booked : ∀ b, 3 ≤ b → b < v.next → b ∈ pend ∨
    ∃ f ∈ files, ∃ pl p, BlockSlot v.mem f pl p ∧ (v.mem.word p).toNat = b

namespace Sound

variable {v v' : Layout} {files : Set Ptr} {pend : Set Nat} {w : Word}

lemma nreserved (h : Sound v files pend) : v.mem.nreserved = 3 := by
  have h1 := h.tidy.fits.1
  have h2 := h.small
  have h3 := v.mem.one_lt_nreserved
  change v.mem.nreserved ≤ v.mem.nblocks at h1
  simp only [Mem.nreserved] at h1 h3 ⊢
  omega

lemma three_le (h : Sound v files pend) : 3 ≤ v.next := by
  have hres := h.nreserved
  have hfit : v.mem.nreserved ≤ v.mem.nblocks := h.tidy.fits.1
  have hused : v.mem.isFree 2 = false := (h.tidy.sys 2 (by change 2 < v.mem.nreserved; omega)).1
  rw [h.bits 2 (by omega)] at hused
  simp only [decide_eq_false_iff_not] at hused
  omega

variable {x : Nat}

section

variable (h : Sound v files pend)
include h

lemma bitmap_blk (hx : x < v.mem.nblocks) : (Fs.bitmapAt (x/32)).blk = 2 := by
  have := h.small
  simp only [Fs.bitmapAt]
  omega

lemma used_lt (hx : x < v.mem.nblocks) (hu : v.mem.isFree x = false) : x < v.next := by
  rw [h.bits x hx] at hu
  simpa using hu

lemma pend_lt (hb : b ∈ pend) : 3 ≤ b ∧ b < v.next := by
  have hv := h.vacant b hb
  have h1 : v.mem.nreserved ≤ b := hv.usable.1
  rw [h.nreserved] at h1
  exact ⟨h1,h.used_lt hv.usable.2 hv.used⟩

lemma slot_ge (hf : f ∈ files) (hp : BlockSlot v.mem f pl p)
    (h0 : v.mem.word p ≠ 0) : 3 ≤ (v.mem.word p).toNat := by
  have hu : v.mem.nreserved ≤ (v.mem.word p).toNat := (h.tidy.good f hf pl p hp h0).1.1
  rwa [h.nreserved] at hu

lemma has_lt (hg : g ∈ files) (hp : v.mem.Has g p) : p.blk < v.next ∧ p.blk ≠ 2 := by
  have h3 := h.three_le
  obtain ⟨_,h1⟩ | ⟨hu,hused⟩ := h.tidy.has_used hg hp
  · omega
  have hres : v.mem.nreserved ≤ p.blk := hu.1
  rw [h.nreserved] at hres
  exact ⟨h.used_lt hu.2 hused,by omega⟩

lemma has_pend (hg : g ∈ files) (hb : b ∈ pend) (hp : v.mem.Has g p) :
    p.blk ≠ b := h.tidy.has_vacant (h.vacant b hb) hg hp

lemma fresh_rest (hf : v.fresh = some (b,v')) {c : Nat} (hc : c ≠ v.next)
    (h2 : c ≠ 2) : v'.mem c = v.mem c := by
  unfold Layout.fresh at hf
  split at hf
  · cases hf
  rename_i hlt
  cases hf
  have hblk := h.bitmap_blk (not_le.mp hlt)
  funext i
  change ((v.mem.useBit v.next).fill v.next fun _ => 0).word ⟨c,i⟩ = v.mem.word ⟨c,i⟩
  rw [word_fill_ne _ _ hc]
  refine word_put_ne fun he => h2 ?_
  rw [← hblk,← he]

lemma fresh (hf : v.fresh = some (b,v')) : b = v.next ∧ v'.next = v.next+1 ∧ v'.mem.nblocks =
    v.mem.nblocks ∧ Sound v' files (insert b pend) ∧ ∀ g ∈ files, Kept v.mem v'.mem g := by
  have hrest : ∀ c, c ≠ v.next → c ≠ 2 → v'.mem c = v.mem c := fun _ => h.fresh_rest hf
  unfold Layout.fresh at hf
  split at hf
  · cases hf
  rename_i hlt
  cases hf
  have hlt : v.next < v.mem.nblocks := not_le.mp hlt
  have h3 := h.three_le
  have hok : (FsEdit.take v.next fun _ => 0).Ok (v.vol files) := by
    refine ⟨hlt,?_,fun hc => ?_,fun _ _ => rfl⟩
    · change v.mem.isFree v.next
      rw [h.bits _ hlt]
      simp
    have hc : v.next < v.mem.nreserved := hc
    rw [h.nreserved] at hc
    omega
  have htidy := h.tidy.take hok
  have hvac := h.tidy.vacant_of_take hok
  have hhomed := h.tidy.homed_act h.homed hok
  generalize hm : (v.mem.useBit v.next).fill v.next (fun _ => 0) = m at *
  have hact : (FsEdit.take v.next fun _ => 0).act ∅ (v.vol files) =
      ⟨m,fun x => x = v.next ∨ (v.vol files).cached x,files⟩ := by rw [← hm]; rfl
  rw [hact] at htidy hvac hhomed
  have hword : ∀ p : Ptr, p.blk ≠ v.next → p.blk ≠ 2 → m.word p = v.mem.word p :=
    fun p h1 h2 => congrFun (hrest _ h1 h2) p.idx
  have hn : m.nblocks = v.mem.nblocks :=
    congrArg BitVec.toNat (hword ⟨1,1⟩ (by change 1 ≠ _; omega) (by decide))
  have hbits : ∀ x < v.mem.nblocks, m.isFree x = (v.mem.isFree x && decide (x ≠ v.next)) := by
    intro x hx
    have hne : (Fs.bitmapAt (x/32)).blk ≠ v.next := by
      rw [h.bitmap_blk hx]
      omega
    rw [← hm,isFree,word_fill_ne _ _ hne,← isFree,isFree_useBit]
  have hkept : ∀ g ∈ files, Kept v.mem m g := by
    intro g hg p hp
    obtain ⟨h1,h2⟩ := h.has_lt hg hp
    exact hword p (by omega) h2
  have hreach : ∀ g ∈ files, IsFile m g := by
    intro g hg
    refine (h.reach g hg).mono fun d pl p hd hdir hp _ => ?_
    have hk := hkept d (h.tidy.isFile_mem hd)
    exact ⟨(hk.off (by decide)).trans hdir,hk.slot' hp⟩
  refine ⟨rfl,rfl,hn,⟨htidy.uncached,hreach,hhomed,by rw [hn]; exact h.small,?_,fun x hx => ?_,?_,?_⟩,hkept⟩
  · change v.next+1 ≤ m.nblocks
    omega
  · change x < m.nblocks at hx
    rw [hn] at hx
    change m.isFree x = decide (v.next+1 ≤ x)
    rw [hbits x hx,h.bits x hx,← Bool.decide_and]
    congr 1
    exact propext (by omega)
  · rintro c (rfl | hc)
    · exact ⟨hvac.usable,hvac.used,hvac.zero,hvac.slots,hvac.files⟩
    have hvc := h.vacant c hc
    obtain ⟨hc3,hcn⟩ := h.pend_lt hc
    have hblk : m c = v.mem c := funext fun i => hword ⟨c,i⟩ (by change c ≠ _; omega) (by change c ≠ 2; omega)
    refine ⟨hvc.usable.congr hn,?_,?_,fun g hg ql q hq => ?_,hvc.files⟩
    · change m.isFree c = false
      rw [hbits c hvc.usable.2,show v.mem.isFree c = false from hvc.used]
      rfl
    · change Zero (m c)
      rw [hblk]
      exact hvc.zero
    obtain ⟨hs,hw⟩ := (hkept g hg).slot hq
    change (m.word q).toNat ≠ c
    rw [hw]
    exact hvc.slots g hg ql q hs
  intro x hx hxn
  change x < v.next+1 at hxn
  by_cases he : x = v.next
  · exact .inl (.inl he)
  obtain hx | ⟨f,hf,pl,p,hs,hw⟩ := h.booked x hx (by omega)
  · exact .inl (.inr hx)
  obtain ⟨hs',hw'⟩ := (hkept f hf).slot' hs
  exact .inr ⟨f,hf,pl,p,hs',by rw [hw']; exact hw⟩

end

lemma put_slot (h0 : m.word p = 0) (hq : BlockSlot m g ql q) (hq0 : m.word q ≠ 0) (w : Word) :
    BlockSlot (m.put p w) g ql q ∧ (m.put p w).word q = m.word q := by
  have hqp : q ≠ p := by
    rintro rfl
    exact hq0 h0
  refine ⟨?_,word_put_ne hqp⟩
  cases hq with
  | direct hj => exact .direct hj
  | indirect => exact .indirect
  | entry hi hj =>
    have hne : g.indirect ≠ p := by
      rintro rfl
      exact hi h0
    rw [← word_put_ne (w := w) hne] at hi ⊢
    exact .entry hi hj

lemma filled_slot (h : Sound v files pend) (hf : f ∈ files) (hp : BlockSlot v.mem f pl p)
    (w : Word) : BlockSlot (v.mem.put p w) f pl p := by
  cases hp with
  | direct hj => exact .direct hj
  | indirect => exact .indirect
  | entry hi hj =>
    refine BlockSlot.congr (.entry hi hj) (word_put_ne ?_)
    exact (h.tidy.entry_ne_off hf hi hf (i := 44) (by decide)).symm

/-- The files after block `b` was put into a slot of `f`. -/
def grown (v : Layout) (files : Set Ptr) (f : Ptr) (pl : Place) (b : Nat) : Set Ptr :=
  {g | g ∈ files ∨ pl.Data ∧ v.mem.word f.type = FTYPE_DIR ∧ g ∈ records b}

section

variable (h : Sound v files pend)
include h

lemma hang (hf : f ∈ files) (hp : BlockSlot v.mem f pl p)
    (h0 : v.mem.word p = 0) (hb : b ∈ pend) : Sound (v.put p (ofNat 32 b)) (grown v files f pl b)
    (pend \ {b}) ∧ ∀ g ∈ files, g ≠ f → Kept v.mem (v.put p (ofNat 32 b)).mem g := by
  have hvb := h.vacant b hb
  have hok : (FsEdit.hang f pl p b).Ok (v.vol files) := ⟨hf,hp,h0,hvb⟩
  have htidy := h.tidy.hang hok
  have hhomed := h.tidy.homed_act h.homed hok
  have hn : (v.mem.put p (ofNat 32 b)).nblocks = v.mem.nblocks :=
    h.tidy.nblocks_slot hf hp _
  have hfree : ∀ x < v.mem.nblocks, (v.mem.put p (ofNat 32 b)).isFree x = v.mem.isFree x :=
    fun x hx => h.tidy.isFree_slot hf hp _ hx
  have hkept : ∀ g ∈ files, g ≠ f → Kept v.mem (v.mem.put p (ofNat 32 b)) g := by
    intro g hg hgf q hq
    refine word_put_ne ?_
    rintro rfl
    exact h.tidy.has_apart h.homed hg hf hgf hq hp.has
  have hself : ((v.mem.put p (ofNat 32 b)).word p).toNat = b := by
    rw [word_put_self]
    exact hvb.usable.toNat_ofNat
  have hold : ∀ g ∈ files, IsFile (v.mem.put p (ofNat 32 b)) g := by
    intro g hg
    refine (h.reach g hg).mono fun d ql q hd hdir hq hq0 => ⟨?_,put_slot h0 hq hq0 _⟩
    exact (word_put_ne (h.tidy.slot_ne_off hf (h.tidy.isFile_mem hd) hp
      (.inl (by decide))).symm).trans hdir
  refine ⟨⟨htidy.uncached,?_,fun a ha c hc ht => hhomed a ha c hc ht,?_,?_,fun x hx => ?_,?_,?_⟩,
    hkept⟩
  · rintro g (hg | ⟨hdata,hdir,hgb,k,hk,hidx⟩)
    · exact hold g hg
    have hdir' : (v.mem.put p (ofNat 32 b)).word f.type = FTYPE_DIR :=
      (word_put_ne (h.tidy.slot_ne_off hf hf hp (.inl (by decide))).symm).trans hdir
    have hne : (v.mem.put p (ofNat 32 b)).word p ≠ 0 := by
      intro hz
      have := (h.pend_lt hb).1
      simp [hz] at hself
      omega
    have hnew := IsFile.entry (hold f hf) hdir' (h.filled_slot hf hp _) hdata hne hk
    rw [hself] at hnew
    rw [show g = ⟨b,64*k⟩ by rw [← hgb,← hidx]]
    exact hnew
  · exact le_of_eq_of_le hn h.small
  · exact le_of_le_of_eq h.le hn.symm
  · have hx : x < v.mem.nblocks := lt_of_lt_of_eq hx hn
    exact (hfree x hx).trans (h.bits x hx)
  · rintro c ⟨hc,hcb⟩
    have hvc := h.vacant c hc
    have hpc : p.blk ≠ c := h.has_pend hf hc hp.has
    refine ⟨hvc.usable.congr hn,(hfree c hvc.usable.2).trans hvc.used,?_,?_,?_⟩
    · intro i hi
      have hne : (⟨c,i⟩ : Ptr) ≠ p := by
        rintro rfl
        exact hpc rfl
      have hw : (v.mem.put p (ofNat 32 b)).word ⟨c,i⟩ = v.mem.word ⟨c,i⟩ :=
        word_put_ne hne
      exact hw.trans (hvc.zero i hi)
    · intro g hg ql q hq he
      change ((v.mem.put p (ofNat 32 b)).word q).toNat = c at he
      have hq0 : (v.mem.put p (ofNat 32 b)).word q ≠ 0 := by
        intro hz
        have := (h.pend_lt hc).1
        simp [hz] at he
        omega
      obtain ⟨hg,hs,rfl | ⟨_,hw⟩⟩ := h.tidy.hang_slot hf hp hvb (hg.imp_right fun x => x.2.2) hq hq0
      · rw [hself] at he
        exact hcb he.symm
      have hw : (v.mem.put p (ofNat 32 b)).word q = v.mem.word q := hw
      rw [hw] at he
      exact hvc.slots g hg ql q hs he
    rintro g (hg | ⟨_,_,hgb,_⟩)
    · exact hvc.files g hg
    rw [hgb]
    exact fun he => hcb he.symm
  intro x hx hxn
  obtain hx' | ⟨g,hg,ql,q,hq,hw⟩ := h.booked x hx hxn
  · by_cases hxb : x = b
    · subst hxb
      exact .inr ⟨f,.inl hf,pl,p,h.filled_slot hf hp _,hself⟩
    exact .inl ⟨hx',hxb⟩
  have hq0 : v.mem.word q ≠ 0 := by
    intro hz
    simp [hz] at hw
    omega
  obtain ⟨hs,hw'⟩ := put_slot h0 hq hq0 (ofNat 32 b)
  exact .inr ⟨g,.inl hg,ql,q,hs,(congrArg BitVec.toNat hw').trans hw⟩

lemma alike (hslot : ∀ g ∈ files, ∀ pl p, BlockSlot v.mem g pl p → m.word p = v.mem.word p)
    (htype : ∀ g ∈ files, m.word g.type = v.mem.word g.type ∨ m.word g.type = FTYPE_DIR ∧
    Shaped v.mem g 0) (hsys : ∀ p : Ptr, p = ⟨1,1⟩ ∨ p.blk = 2 → m.word p = v.mem.word p)
    (hpend : ∀ b ∈ pend, m b = v.mem b) : Sound {v with mem := m} files pend := by
  have hn : m.nblocks = v.mem.nblocks := congrArg BitVec.toNat (hsys ⟨1,1⟩ (.inl rfl))
  have hfree : ∀ x < v.mem.nblocks, m.isFree x = v.mem.isFree x := by
    intro x hx
    rw [isFree,hsys _ (.inr (h.bitmap_blk hx)),isFree]
  have hback : ∀ {g ql q}, g ∈ files → BlockSlot m g ql q →
      BlockSlot v.mem g ql q ∧ m.word q = v.mem.word q := by
    intro g ql q hg hq
    have hs : BlockSlot v.mem g ql q := hq.congr (hslot g hg _ _ .indirect).symm
    exact ⟨hs,hslot g hg ql q hs⟩
  have hdir : ∀ g ∈ files, v.mem.word g.type = FTYPE_DIR → m.word g.type = FTYPE_DIR := by
    intro g hg hd
    exact (htype g hg).elim (fun ht => ht.trans hd) And.left
  have htidy : Tidy ∅ ⟨m,fun b => b < v.mem.nreserved,files⟩ := by
    refine h.tidy.part subset_rfl h.tidy.root hn (fun g hg pl p hp h0 => ?_)
      (fun g hg hd pl p hp h0 => ?_) (fun o ho => absurd ho (Set.notMem_empty o))
      (fun g hg hu => .inl ((hfree _ (h.tidy.blk_lt hg)).trans hu)) fun x hx => ?_
    · obtain ⟨hs,he⟩ := hback hg hp
      rw [he] at h0
      obtain ⟨hu,hused⟩ := h.tidy.good g hg pl p hs h0
      exact ⟨hs,he,(hfree _ hu.2).trans hused⟩
    · obtain ht | ⟨_,hz⟩ := htype g hg
      · exact ⟨ht.symm.trans hd,fun _ => id⟩
      exact absurd ((hz.slots pl p hp).mp h0) (by cases pl <;> simp [Place.Needed])
    exact ⟨(hfree x (lt_of_lt_of_le hx h.tidy.fits.1)).trans (h.tidy.sys x hx).1,fun _ => hx⟩
  refine ⟨htidy.uncached,fun g hg => ?_,?_,?_,?_,fun x hx => ?_,fun b hb => ?_,fun b hb hlt => ?_⟩
  · refine (h.reach g hg).mono fun d pl p hd hdd hp _ => ?_
    have hdf := h.tidy.isFile_mem hd
    exact ⟨hdir d hdf hdd,hp.congr (hslot d hdf _ _ .indirect),hslot d hdf pl p hp⟩
  · intro f hf g hg ht pl p hp hdata
    obtain ⟨hs,hw⟩ := hback hg hp
    change (m.word p).toNat ≠ f.blk
    rw [hw]
    exact h.homed f hf g hg (fun hd => ht (hdir g hg hd)) pl p hs hdata
  · exact le_of_eq_of_le hn h.small
  · exact le_of_le_of_eq h.le hn.symm
  · have hx : x < v.mem.nblocks := lt_of_lt_of_eq hx hn
    exact (hfree x hx).trans (h.bits x hx)
  · have hvb := h.vacant b hb
    refine ⟨hvb.usable.congr hn,(hfree b hvb.usable.2).trans hvb.used,?_,fun g hg ql q hq => ?_,
      hvb.files⟩
    · change Zero (m b)
      rw [hpend b hb]
      exact hvb.zero
    obtain ⟨hs,hw⟩ := hback hg hq
    change (m.word q).toNat ≠ b
    rw [hw]
    exact hvb.slots g hg ql q hs
  obtain hb | ⟨f,hf,pl,p,hp,hw⟩ := h.booked b hb hlt
  · exact .inl hb
  exact .inr ⟨f,hf,pl,p,hp.congr (hslot f hf _ _ .indirect),
    (congrArg BitVec.toNat (hslot f hf pl p hp)).trans hw⟩

lemma setWords (hf : f ∈ files) (hm : ∀ q, (∀ i < 64, i < 34 ∨ 45 ≤ i → q ≠ f.off i) → m.word q =
    v.mem.word q) (htype : m.word f.type = v.mem.word f.type ∨ m.word f.type = FTYPE_DIR ∧ Shaped
    v.mem f 0) : Sound {v with mem := m} files pend ∧ ∀ g ∈ files, g ≠ f → Kept v.mem m g := by
  have hhas : ∀ q, (∀ i < 64, q ≠ f.off i) → m.word q = v.mem.word q :=
    fun q hq => hm q fun i hi _ => hq i hi
  have hkept : ∀ g ∈ files, g ≠ f → Kept v.mem m g := by
    intro g hg hgf q hq
    refine hhas q ?_
    rintro i hi rfl
    exact h.tidy.has_apart h.homed hg hf hgf hq (.inl ⟨i,hi,rfl⟩)
  refine ⟨h.alike (fun g hg pl p hp => hm p fun i hi hi' => h.tidy.slot_ne_word hg hf hp hi hi')
    (fun g hg => ?_) (fun p hp => hhas _ fun i hi he => ?_)
    (fun b hb => funext fun i => hhas ⟨b,i⟩ fun j hj he => ?_),hkept⟩
  · by_cases hgf : g = f
    · exact hgf ▸ htype
    exact .inl ((hkept g hg hgf).off (by decide))
  · obtain rfl | hp := hp
    · exact ((h.tidy.placed f hf).off_ne_sys hi).1 he.symm
    exact (h.has_lt hf (.inl ⟨i,hi,he⟩)).2 hp
  exact h.has_pend hf hb (.inl ⟨j,hj,he⟩) rfl

lemma setFields (hf : f ∈ files) (hm : ∀ q, (∀ i < 64, i < 33 ∨ 45 ≤ i → q ≠ f.off i) → m.word q =
    v.mem.word q) : Sound {v with mem := m} files pend ∧ ∀ g ∈ files, g ≠ f → Kept v.mem m g := by
  refine h.setWords hf (fun q hq => hm q fun i hi hi' => hq i hi (by omega)) (.inl (hm _ ?_))
  intro i hi hi' he
  have hp := h.tidy.placed f hf
  have := (hp.off_inj hp (by decide) hi he).2
  omega

lemma makeDir (hf : f ∈ files) (hs : Shaped v.mem f 0) : Sound (v.put f.type FTYPE_DIR)
    files pend ∧ ∀ g ∈ files, g ≠ f → Kept v.mem (v.put f.type FTYPE_DIR).mem g :=
  h.setWords hf (fun _ hq => word_put_ne (hq 33 (by decide) (.inl (by decide))))
    (.inr ⟨word_put_self _ _ _,hs⟩)

end

end Sound

end Layout

end KludgeOS
