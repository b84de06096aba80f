import KludgeOS.Fs.FormatCache
import KludgeOS.Fs.LayoutStart

/-!
A run of `fs/fsformat.c` that does not abort does to the image what is done to it
without a cache.
-/

namespace KludgeOS
open Mem (fill_self fill_frame useBit blockOf)
open BitVec (ofNat)
open Option (bind_eq_bind bind_some)
open Layout (fresh Built fill put gotit start)
open Function (update update_of_ne)

def Layout.under (v : Layout) : Mem :=
  fun b => if b = 1 then fun _ => 0 else if b = 2 then fun _ => 0xFFFFFFFF else v.mem b

lemma Layout.under_of_ge (v : Layout) {b : Nat} (hb : 3 ≤ b) : v.under b = v.mem b := by
  rw [Layout.under,if_neg (by omega),if_neg (by omega)]

lemma Layout.under_fill (v : Layout) {b : Nat} (hb : 3 ≤ b) (c : Nat → Word) :
    (v.fill b c).under = v.under.fill b c := by
  funext x
  by_cases hx : x = b
  · subst hx
    rw [Layout.under_of_ge _ hb,fill_self]
    exact fill_self _ _ _
  rw [fill_frame _ _ hx]
  simp only [Layout.under,fill,fill_frame _ _ hx]

lemma Layout.fill_fill (v : Layout) (b : Nat) (c c' : Nat → Word) :
    (v.fill b c).fill b c' = v.fill b c' := by simp [fill,Mem.fill]

lemma Layout.fresh_fill {v : Layout} (h3 : 3 ≤ v.next) (hn : v.mem.nblocks ≤ 1024) (c : Nat → Word) :
    (v.fill v.next c).fresh = v.fresh := by
  have hnb : (v.fill v.next c).mem.nblocks = v.mem.nblocks :=
    congrArg BitVec.toNat (Mem.word_fill_ne (p := ⟨1,1⟩) _ _ (by change 1 ≠ _; omega))
  unfold fresh
  rw [hnb]
  change (if v.mem.nblocks ≤ v.next then none
    else some (v.next,Layout.mk (((v.mem.fill v.next c).useBit v.next).fill v.next _) (v.next+1))) = _
  split
  · rfl
  have hbit : (Fs.bitmapAt (v.next/32)).blk ≠ v.next := by
    simp only [Fs.bitmapAt]
    omega
  rw [useBit,Mem.fill_put hbit,Mem.word_fill_ne _ _ hbit]
  simp [Mem.fill,useBit]

namespace Fmt

/-- The variables and the cache are those for the image `v`. -/
structure Holds (s : Fmt) (v : Layout) : Prop where
  backs : Backs s v.under
  next : s.nextb = v.next
  nbitblock : s.nbitblock = 1
  nblocks : s.nblocks = v.mem.nblocks
  super : v.mem 1 = fun i => if i < 66 then s.super i else 0
  bits : v.mem 2 = bitmapOf v.next v.mem.nblocks
  low : 3 ≤ v.next
  small : v.mem.nblocks ≤ 1024
  magic : v.mem 1 0 = FS_MAGIC

variable {s t : Fmt} {v v' : Layout} {f : FileAt} {b i n : Nat} {w : Word} {c : Nat → Word}

def ptr (s : Fmt) : FileAt → Ptr
  | .root => rootFile
  | .entry b k => ⟨(s.cache b).bno,64*k⟩

def Valid (s : Fmt) : FileAt → Prop
  | .root => True
  | .entry b k => (s.cache b).busy ∧ 3 ≤ (s.cache b).bno ∧ k < BLKFILES

lemma Valid.off (h : Valid s f) (hi : i < 64) :
    (s.ptr f).off i = ⟨(s.ptr f).blk,(s.ptr f).idx+i⟩ := by
  cases f with
  | root =>
    simp only [ptr,rootFile,Ptr.off,Ptr.mk.injEq]
    omega
  | entry b k =>
    have hk : k < 16 := h.2.2
    simp only [ptr,Ptr.off,Ptr.mk.injEq]
    omega

lemma Valid.pins (h : Valid s f) (hp : Pins s t) : Valid t f ∧ t.ptr f = s.ptr f := by
  cases f with
  | root => exact ⟨trivial,rfl⟩
  | entry b k =>
    obtain ⟨hbusy,hbno⟩ := hp.busy b h.1
    exact ⟨⟨hbusy,by rw [hbno]; exact h.2.1,h.2.2⟩,by simp only [ptr,hbno]⟩

namespace Holds

lemma fget (h : Holds s v) (hv : Valid s f) (hi : i < 64) :
    s.fget f i = v.mem.word ((s.ptr f).off i) := by
  rw [hv.off hi]
  cases f with
  | root =>
    change s.super (2+i) = v.mem 1 (2+i)
    simp [h.super,show 2+i < 66 by omega]
  | entry b k =>
    change (s.cache b).words (64*k+i) = v.mem (s.cache b).bno (64*k+i)
    rw [h.backs.words hv.1,Layout.under_of_ge _ hv.2.1]

lemma setWords (h : Holds s v) (hb : (s.cache b).busy) (h3 : 3 ≤ (s.cache b).bno) :
    Holds (s.setWords b c) (v.fill (s.cache b).bno c) := by
  have hblk : ∀ x < 3, (v.fill (s.cache b).bno c).mem x = v.mem x :=
    fun x hx => fill_frame _ _ (by omega)
  have hn : (v.fill (s.cache b).bno c).mem.nblocks = v.mem.nblocks :=
    congrArg BitVec.toNat (congrFun (hblk 1 (by decide)) 1)
  refine ⟨?_,h.next,h.nbitblock,h.nblocks.trans hn.symm,(hblk 1 (by decide)).trans h.super,?_,h.low,?_,
    (congrFun (hblk 1 (by decide)) 0).trans h.magic⟩
  · rw [Layout.under_fill _ h3]
    exact h.backs.setWords hb c
  · rw [hblk 2 (by decide),hn]
    exact h.bits
  rw [hn]
  exact h.small

lemma poke (h : Holds s v) (hb : (s.cache b).busy) (h3 : 3 ≤ (s.cache b).bno) (j : Nat) (w : Word)
    : Holds (s.setWords b (update (s.cache b).words j w)) (v.put ⟨(s.cache b).bno,j⟩ w) := by
  have hput : v.put ⟨(s.cache b).bno,j⟩ w =
      v.fill (s.cache b).bno (update (s.cache b).words j w) := by
    rw [h.backs.words hb,Layout.under_of_ge _ h3]
    rfl
  rw [hput]
  exact h.setWords hb h3

lemma fput (h : Holds s v) (hv : Valid s f) (hi : i < 64) (w : Word) :
    Holds (s.fput f i w) (v.put ((s.ptr f).off i) w) ∧ Pins s (s.fput f i w) := by
  rw [hv.off hi]
  cases f with
  | root =>
    have hblk : ∀ x ≠ 1, (v.put ⟨1,2+i⟩ w).mem x = v.mem x := fun x hx => Mem.set_frame _ _ _ hx
    have hone : (v.put ⟨1,2+i⟩ w).mem 1 = update (v.mem 1) (2+i) w := by simp [put,Mem.put,Mem.set]
    have hn : (v.put ⟨1,2+i⟩ w).mem.nblocks = v.mem.nblocks := by
      simp only [Mem.nblocks,Mem.word,hone]
      rw [update_of_ne (by omega)]
    refine ⟨⟨?_,h.next,h.nbitblock,h.nblocks.trans hn.symm,?_,?_,h.low,?_,?_⟩,
      ⟨rfl,rfl,fun _ hb => ⟨hb,rfl⟩⟩⟩
    · have hunder : (v.put ⟨1,2+i⟩ w).under = v.under := by
        funext x
        by_cases hx : x = 1
        · simp [Layout.under,hx]
        simp only [Layout.under,hblk x hx]
      change Backs _ (v.put ⟨1,2+i⟩ w).under
      rw [hunder]
      exact ⟨h.backs.shows,h.backs.idle,h.backs.high⟩
    · change (v.put ⟨1,2+i⟩ w).mem 1 = fun j => if j < 66 then update s.super (2+i) w j else 0
      rw [hone,h.super]
      funext j
      by_cases hj : j = 2+i
      · subst hj
        simp
        omega
      simp [hj]
    · change (v.put ⟨1,2+i⟩ w).mem 2 = bitmapOf v.next (v.put ⟨1,2+i⟩ w).mem.nblocks
      rw [hblk 2 (by decide),hn]
      exact h.bits
    · exact le_of_eq_of_le hn h.small
    change (v.put ⟨1,2+i⟩ w).mem 1 0 = FS_MAGIC
    rw [hone,update_of_ne (by omega)]
    exact h.magic
  | entry b k =>
    exact ⟨h.poke hv.1 hv.2.1 _ w,Pins.setWords _ _ _⟩

lemma putblk (h : Holds s v) (b : Nat) : Holds (s.putblk b) v :=
  ⟨h.backs.putblk b,h.next,h.nbitblock,h.nblocks,h.super,h.bits,h.low,h.small,h.magic⟩

variable {bno nblk : Nat} {type : BlkType}

lemma getblk (h : Holds s v) (hg : s.getblk bno false type = some (b,t)) (h3 : 3 ≤ bno) :
    Holds t v ∧ Pins s t ∧ (t.cache b).bno = bno ∧ (t.cache b).busy ∧
      (s.cache b).busy = false ∧ (t.cache b).words = v.mem bno := by
  have hgot := getblk_got hg h.backs (by omega)
  refine ⟨⟨hgot.backs,hgot.nextb.trans h.next,hgot.pins.nbitblock.trans h.nbitblock,
    hgot.pins.nblocks.trans h.nblocks,?_,h.bits,h.low,h.small,h.magic⟩,hgot.pins,hgot.bno,hgot.busy,
    hgot.idle,?_⟩
  · rw [hgot.super]
    exact h.super
  rw [hgot.backs.words hgot.busy,hgot.bno]
  exact Layout.under_of_ge _ h3

lemma getclr (h : Holds s v) (hg : s.getblk bno true type = some (b,t)) (h3 : 3 ≤ bno) :
    bno < v.mem.nblocks ∧ Holds t (v.fill bno fun _ => 0) ∧ Pins s t ∧ (t.cache b).bno = bno ∧
      (t.cache b).busy ∧ (s.cache b).busy = false := by
  have hgot := getblk_got hg h.backs (by omega)
  have hlt : bno < v.mem.nblocks := by
    rw [← h.nblocks]
    exact hgot.lt
  have hblk : ∀ x < 3, (v.fill bno fun _ => 0).mem x = v.mem x :=
    fun x hx => fill_frame _ _ (by omega)
  have hn : (v.fill bno fun _ => 0).mem.nblocks = v.mem.nblocks :=
    congrArg BitVec.toNat (congrFun (hblk 1 (by decide)) 1)
  refine ⟨hlt,⟨?_,hgot.nextb.trans h.next,hgot.pins.nbitblock.trans h.nbitblock,
    hgot.pins.nblocks.trans (h.nblocks.trans hn.symm),?_,?_,h.low,le_of_eq_of_le hn h.small,
    (congrFun (hblk 1 (by decide)) 0).trans h.magic⟩,
    hgot.pins,hgot.bno,hgot.busy,hgot.idle⟩
  · rw [Layout.under_fill _ h3]
    exact hgot.backs
  · rw [hgot.super,hblk 1 (by decide)]
    exact h.super
  rw [hblk 2 (by decide),hn]
  exact h.bits

lemma bump (h : Holds s v) (hlt : v.next < v.mem.nblocks) (c : Nat → Word) (hc : v.mem v.next = c)
    : ∃ v1, v.fresh = some (v.next,v1) ∧ Holds {s with nextb := s.nextb+1} (v1.fill v.next c) := by
  have h3 := h.low
  have hsmall := h.small
  have hbit : Fs.bitmapAt (v.next/32) = ⟨2,v.next/32⟩ := by
    simp only [Fs.bitmapAt,Ptr.mk.injEq]
    omega
  refine ⟨_,by rw [fresh,if_neg (Nat.not_le.mpr hlt)],?_⟩
  generalize hv1 : (⟨(v.mem.useBit v.next).fill v.next fun _ => 0,v.next+1⟩ : Layout).fill v.next c = v1
  have hmem : ∀ x ≠ 2, v1.mem x = v.mem x := by
    intro x hx
    rw [← hv1]
    by_cases hxn : x = v.next
    · rw [hxn,hc]
      exact fill_self _ _ _
    change ((v.mem.useBit v.next).fill v.next _ |>.fill v.next c) x = _
    rw [fill_frame _ _ hxn,fill_frame _ _ hxn,useBit,hbit]
    exact Mem.set_frame _ _ _ hx
  have htwo : v1.mem 2 = bitmapOf (v.next+1) v.mem.nblocks := by
    rw [← hv1]
    change ((v.mem.useBit v.next).fill v.next _ |>.fill v.next c) 2 = _
    rw [fill_frame _ _ (by omega),fill_frame _ _ (by omega),useBit,hbit,
      bitmapOf_use (by omega),← h.bits]
    simp [Mem.put,Mem.set,Mem.word]
  have hn : v1.mem.nblocks = v.mem.nblocks :=
    congrArg BitVec.toNat (congrFun (hmem 1 (by decide)) 1)
  have hnext : v1.next = v.next+1 := by rw [← hv1]; rfl
  have hunder : v1.under = v.under := by
    funext x
    by_cases hx : x = 2
    · simp [Layout.under,hx]
    simp only [Layout.under,hmem x hx]
  refine ⟨?_,?_,h.nbitblock,h.nblocks.trans hn.symm,(hmem 1 (by decide)).trans h.super,?_,by omega,
    le_of_eq_of_le hn h.small,(congrFun (hmem 1 (by decide)) 0).trans h.magic⟩
  · rw [hunder]
    exact ⟨h.backs.shows,h.backs.idle,h.backs.high⟩
  · change s.nextb+1 = v1.next
    rw [hnext,h.next]
  rw [htwo,hnext,hn]

lemma nextblk (h : Holds s v) (hg : s.nextblk type = some (b,t)) :
    ∃ v1, v.fresh = some (v.next,v1) ∧ Holds t v1 ∧ Pins s t ∧ (t.cache b).bno = v.next ∧
      (t.cache b).busy ∧ (s.cache b).busy = false := by
  unfold Fmt.nextblk at hg
  have hbacks : Backs {s with nextb := s.nextb+1} v.under :=
    ⟨h.backs.shows,h.backs.idle,h.backs.high⟩
  have h3 := h.low
  have hnext := h.next
  have hlt : v.next < v.mem.nblocks := by
    rw [← h.nblocks,← hnext]
    exact (getblk_got hg hbacks (by omega)).lt
  obtain ⟨v1,hfresh,h1⟩ := h.bump hlt _ rfl
  obtain ⟨_,h2,hpins,hbno,hbusy,hidle⟩ := h1.getclr hg (by omega)
  rw [hnext] at h2 hbno
  have hfill : (v1.fill v.next (v.mem v.next)).fill v.next (fun _ => 0) = v1 := by
    rw [fresh,if_neg (Nat.not_le.mpr hlt)] at hfresh
    cases hfresh
    simp [fill,Mem.fill]
  rw [hfill] at h2
  exact ⟨v1,hfresh,h2,⟨hpins.nblocks,hpins.nbitblock,hpins.busy⟩,hbno,hbusy,hidle⟩

lemma storeblk (h : Holds s v) (hv : Valid s f) (hb : (s.cache b).busy) (hind : v.mem.word (s.ptr
    f).indirect ≠ 0 → 3 ≤ (v.mem.word (s.ptr f).indirect).toNat) (hst : s.storeblk f b nblk = some
    t) : ∃ v', v.storeblk (s.ptr f) (s.cache b).bno nblk = some v' ∧ Holds t v' ∧ Pins s t := by
  have hd : NDIRECT = 10 := rfl
  unfold Fmt.storeblk at hst
  unfold Layout.storeblk
  split at hst
  · rename_i hlt
    cases hst
    obtain ⟨h1,hp1⟩ := h.fput hv (i := 34+nblk) (by omega) (ofNat 32 (s.cache b).bno)
    rw [if_pos hlt]
    exact ⟨_,rfl,h1,hp1⟩
  rename_i hge
  rw [if_neg hge]
  split at hst
  · rename_i hlt
    rw [if_pos hlt]
    obtain ⟨⟨i,s1⟩,hi,hst⟩ := of_bind hst
    cases hst
    have hget : s.fget f 44 = v.mem.word (s.ptr f).indirect := h.fget hv (by decide)
    rw [hget] at hi
    split at hi
    · rename_i h0
      obtain ⟨⟨j,s2⟩,hnext,hi⟩ := of_bind hi
      obtain ⟨rfl,rfl⟩ := some_pair_inj hi
      obtain ⟨v1,hfresh,h1,hp1,hbno,hbusy,hidle⟩ := h.nextblk hnext
      obtain ⟨hv2,hptr⟩ := hv.pins hp1
      obtain ⟨h2,hp2⟩ := h1.fput hv2 (i := 44) (by decide) (ofNat 32 (s2.cache j).bno)
      have hp := hp1.trans hp2
      obtain ⟨hj2,hjb⟩ := hp2.busy j hbusy
      obtain ⟨hb2,hbb⟩ := hp.busy b hb
      have h3 : 3 ≤ ((s2.fput f 44 (ofNat 32 (s2.cache j).bno)).cache j).bno := by
        rw [hjb,hbno]
        exact h.low
      have h4 := (h2.poke hj2 h3 nblk
        (ofNat 32 ((s2.fput f 44 (ofNat 32 (s2.cache j).bno)).cache b).bno)).putblk j
      rw [show (v1.put ((s2.ptr f).off 44) (ofNat 32 (s2.cache j).bno)).put
          ⟨((s2.fput f 44 (ofNat 32 (s2.cache j).bno)).cache j).bno,nblk⟩
          (ofNat 32 ((s2.fput f 44 (ofNat 32 (s2.cache j).bno)).cache b).bno) =
          (v1.put (s.ptr f).indirect (ofNat 32 v.next)).put ⟨v.next,nblk⟩
            (ofNat 32 (s.cache b).bno) by rw [hjb,hbb,hbno,hptr]; rfl] at h4
      rw [if_pos h0,hfresh]
      exact ⟨_,rfl,h4,(hp.trans (Pins.setWords _ _ _)).putblk hidle⟩
    rename_i h0
    obtain ⟨h1,hp1,hbno,hbusy,hidle,hwords⟩ := h.getblk hi (hind h0)
    have h3 : 3 ≤ (s1.cache i).bno := by
      rw [hbno]
      exact hind h0
    obtain ⟨_,hbb⟩ := hp1.busy b hb
    have h4 := (h1.poke hbusy h3 nblk (ofNat 32 (s1.cache b).bno)).putblk i
    rw [show v.put ⟨(s1.cache i).bno,nblk⟩ (ofNat 32 (s1.cache b).bno) =
        v.put ⟨(v.mem.word (s.ptr f).indirect).toNat,nblk⟩ (ofNat 32 (s.cache b).bno) by
      rw [hbno,hbb]] at h4
    rw [if_neg h0]
    exact ⟨_,rfl,h4,(hp1.trans (Pins.setWords _ _ _)).putblk hidle⟩
  cases hst

lemma gotit {k : Nat} (h : Holds s v) (hb : (s.cache b).busy) (h3 : 3 ≤ (s.cache b).bno)
    (name : List Byte) : Holds (s.gotit b k name).2.2 (v.gotit ⟨(s.cache b).bno,64*k⟩ name).2 := by
  have hw : (s.cache b).words = v.mem (s.cache b).bno :=
    (h.backs.words hb).trans (Layout.under_of_ge _ h3)
  have := h.setWords hb h3 (c := strcpy (s.cache b).words (256*k) name)
  rw [hw,show 256*k = 4*(64*k) by omega] at this
  simp only [Fmt.gotit,gotit,hw,show 256*k = 4*(64*k) by omega]
  exact this

/-- What `allocfile` returns in `t` is what is returned without a cache. -/
structure Gives (s t : Fmt) (v' : Layout) (f : FileAt) (dirb : Nat) (g : Ptr) : Prop where
  holds : Holds t v'
  pins : Pins s t
  idle : (s.cache dirb).busy = false
  valid : Valid t f
  ptr : t.ptr f = g

variable {files : Set Ptr} {dirf : FileAt} {name data : List Byte} {dirb : Nat}

lemma newDirb (h : Holds s v) (hv : Valid s dirf) (hb : Built v files)
    (hd : s.ptr dirf ∈ files) (ha : s.newDirb dirf n name = some (f,dirb,t)) :
    ∃ g v', v.newDirb (s.ptr dirf) n name = some (g,v') ∧ Gives s t v' f dirb g := by
  unfold Fmt.newDirb at ha
  obtain ⟨⟨b,s1⟩,hnext,ha⟩ := of_bind ha
  obtain ⟨s2,hst,ha⟩ := of_bind ha
  obtain ⟨v1,hfresh,h1,hp1,hbno,hbusy,hidle⟩ := h.nextblk hnext
  obtain ⟨hv1,hptr1⟩ := hv.pins hp1
  obtain ⟨_,_,_,hs1,_⟩ := hb.fresh hfresh
  obtain ⟨v2,hst2,h2,hp2⟩ := h1.storeblk hv1 hbusy
    (fun h0 => hs1.slot_ge (by rw [hptr1]; exact hd) .indirect h0) hst
  obtain ⟨hv2,hptr2⟩ := hv1.pins hp2
  obtain ⟨h3,hp3⟩ := h2.fput hv2 (i := 32) (by decide) (s2.fget dirf 32+4096)
  obtain ⟨hv3,hptr3⟩ := hv2.pins hp3
  dsimp only at ha
  generalize s2.fput dirf 32 (s2.fget dirf 32+4096) = s3 at ha h3 hp3 hv3 hptr3
  rw [h2.fget hv2 (by decide),hptr2,hptr1] at h3
  have hptr : s3.ptr dirf = s.ptr dirf := by rw [hptr3,hptr2,hptr1]
  split at ha
  · cases ha
  rename_i hsize
  rw [h3.fget hv3 (by decide),hptr] at hsize
  obtain ⟨rfl,hr⟩ := some_pair_inj ha
  obtain ⟨rfl,rfl⟩ := Prod.mk.inj hr
  obtain ⟨hb2,hbno2⟩ := hp2.busy b hbusy
  obtain ⟨hb3,hbno3⟩ := hp3.busy b hb2
  have hblk : (s3.cache b).bno = v.next := by rw [hbno3,hbno2,hbno]
  have hlow : 3 ≤ (s3.cache b).bno := by
    rw [hblk]
    exact h.low
  have h4 := h3.gotit hb3 hlow name (k := 0)
  rw [hptr1,hbno] at hst2
  have hbusy4 := (Pins.setWords s3 b (strcpy (s3.cache b).words (256*0) name)).busy b hb3
  refine ⟨⟨(s3.cache b).bno,64*0⟩,_,?_,⟨h4,((hp1.trans hp2).trans hp3).trans (Pins.setWords _ _ _),hidle,
    ⟨hbusy4.1,le_of_le_of_eq hlow hbusy4.2.symm,by decide⟩,?_⟩⟩
  · simp only [Layout.newDirb,hfresh,hst2,bind_eq_bind,bind_some]
    rw [hblk]
    exact if_neg hsize
  change (⟨(s3.setWords b _ |>.cache b).bno,64*0⟩ : Ptr) = _
  rw [hbusy4.2]

lemma allocfile (h : Holds s v) (hv : Valid s dirf) (hb : Built v files) (hd : s.ptr dirf ∈ files)
    (hdir : v.mem.word (s.ptr dirf).type = FTYPE_DIR) (ha : s.allocfile dirf name = some (f,dirb,t))
    : ∃ g v', v.allocfile (s.ptr dirf) name = some (g,v') ∧ Gives s t v' f dirb g := by
  have hget : s.fget dirf 32 = v.mem.word (s.ptr dirf).size := h.fget hv (by decide)
  unfold Fmt.allocfile at ha
  unfold Layout.allocfile
  rw [hget] at ha
  cases hn : ((v.mem.word (s.ptr dirf).size+4095)/4096).toNat with
  | zero =>
    rw [hn] at ha
    exact h.newDirb hv hb hd ha
  | succ nblk =>
    rw [hn] at ha
    simp only at ha ⊢
    obtain ⟨m,hs,hsize⟩ := hb.shaped _ hd
    have hm : m = nblk+1 := by
      have hle := hs.le
      have hni : NINDIRECT = 1024 := rfl
      rw [BitVec.toNat_udiv,BitVec.toNat_add,hsize hdir] at hn
      change (4096*m+4095)%4294967296/4096 = nblk+1 at hn
      omega
    subst hm
    have hlt : nblk < NINDIRECT := hs.le
    have h0 := (hs.blockOf hlt).mpr (Nat.lt_succ_self nblk)
    have h3 := (hb.block_apart hd hlt h0).1
    obtain ⟨⟨b,s1⟩,hfetch,ha⟩ := of_bind ha
    have hget1 : Holds s1 v ∧ Pins s s1 ∧ (s1.cache b).bno = (v.mem.blockOf (s.ptr dirf) nblk).toNat ∧
        (s1.cache b).busy ∧ (s.cache b).busy = false := by
      have hd10 : NDIRECT = 10 := rfl
      split at hfetch
      · rename_i hge
        obtain ⟨⟨i,s2⟩,hi,hfetch⟩ := of_bind hfetch
        obtain ⟨⟨c,s3⟩,hc,hfetch⟩ := of_bind hfetch
        cases hfetch
        have hind : v.mem.word (s.ptr dirf).indirect ≠ 0 := by
          intro hz
          rw [blockOf,if_neg (by omega),if_pos hz] at h0
          contradiction
        have hgi : s.fget dirf 44 = v.mem.word (s.ptr dirf).indirect := h.fget hv (by decide)
        rw [hgi] at hi
        obtain ⟨h1,hp1,_,hibusy,hiidle,hiwords⟩ := h.getblk hi (hb.slot_ge hd .indirect hind)
        have hblk : (s2.cache i).words nblk = v.mem.blockOf (s.ptr dirf) nblk := by
          rw [hiwords,blockOf,if_neg (by omega),if_neg hind]
          rfl
        simp only at hc
        rw [hblk] at hc
        obtain ⟨h2,hp2,hbno,hbusy,hidle,_⟩ := h1.getblk hc h3
        have hci : c ≠ i := by
          rintro rfl
          rw [hibusy] at hidle
          cases hidle
        have hput : (s3.putblk i).cache c = s3.cache c := by simp [Fmt.putblk,setBuf,hci]
        refine ⟨h2.putblk i,(hp1.trans hp2).putblk hiidle,by rw [hput]; exact hbno,
          by rw [hput]; exact hbusy,hp1.idle hidle⟩
      rename_i hge
      have hgd : s.fget dirf (34+nblk) = v.mem.blockOf (s.ptr dirf) nblk := by
        rw [h.fget hv (by omega),blockOf,if_pos (by omega)]
        rfl
      rw [hgd] at hfetch
      obtain ⟨h1,hp1,hbno,hbusy,hidle,_⟩ := h.getblk hfetch h3
      exact ⟨h1,hp1,hbno,hbusy,hidle⟩
    obtain ⟨h1,hp1,hbno,hbusy,hidle⟩ := hget1
    have hwords : (s1.cache b).words = v.mem (v.mem.blockOf (s.ptr dirf) nblk).toNat := by
      rw [h1.backs.words hbusy,hbno]
      exact Layout.under_of_ge _ h3
    simp only at ha
    rw [hwords] at ha
    cases hfe : freeEntry (v.mem (v.mem.blockOf (s.ptr dirf) nblk).toNat) with
    | some k =>
      rw [hfe] at ha
      obtain ⟨rfl,hr⟩ := some_pair_inj ha
      obtain ⟨rfl,rfl⟩ := Prod.mk.inj hr
      have hk : k < BLKFILES := List.mem_range.mp (List.mem_of_find?_eq_some hfe)
      have h2 := h1.gotit hbusy (by rw [hbno]; exact h3) name (k := k)
      have hbusy2 := (Pins.setWords s1 b (strcpy (s1.cache b).words (256*k) name)).busy b hbusy
      rw [hbno] at h2 hbusy2
      refine ⟨_,_,rfl,⟨h2,hp1.trans (Pins.setWords _ _ _),hidle,
        ⟨hbusy2.1,le_of_le_of_eq h3 hbusy2.2.symm,hk⟩,?_⟩⟩
      change (⟨(s1.setWords b _ |>.cache b).bno,64*k⟩ : Ptr) = _
      rw [hbusy2.2]
    | none =>
      rw [hfe] at ha
      have hp2 := hp1.putblk hidle
      obtain ⟨hv2,hptr2⟩ := hv.pins hp2
      obtain ⟨g,v',hnew,hg⟩ := (h1.putblk b).newDirb hv2 hb (by rw [hptr2]; exact hd) ha
      rw [hptr2] at hnew
      exact ⟨g,v',hnew,⟨hg.holds,hp2.trans hg.pins,hp2.idle hg.idle,hg.valid,hg.ptr⟩⟩

lemma writeRounds {u : Layout} {r : Nat} (left : Nat) : ∀ {s : Fmt} {v : Layout} {k : Nat},
    Holds s v → Valid s f → Built.Rounds u v files (s.ptr f) data k → s.ptr f ∈ files →
    u.mem.Named (s.ptr f) → u.mem.word (s.ptr f).type ≠ FTYPE_DIR →
    Fmt.writeRounds f data left s k = some (nblk,r,t) →
    ∃ v', Layout.writeRounds (s.ptr f) data left v k = some (nblk,r,v') ∧ Holds t v' ∧ Pins s t := by
  induction left using Nat.strong_induction_on with
  | _ left ih =>
    intro s v k h hv hr hf hn ht hw
    unfold Fmt.writeRounds at hw
    obtain ⟨⟨b,s1⟩,hget,hw⟩ := of_bind hw
    have h3 := h.low
    obtain ⟨hlt,h1,hp1,hbno,hbusy,hidle⟩ := h.getclr hget (by rw [h.next]; exact h3)
    rw [h.next] at hlt h1 hbno
    have hlow : 3 ≤ (s1.cache b).bno := by
      rw [hbno]
      exact h3
    have h2 := h1.setWords hbusy hlow (c := packed ((data.drop (k*BLKSIZE)).take BLKSIZE))
    rw [hbno,Layout.fill_fill] at h2
    unfold Layout.writeRounds
    rw [if_neg (Nat.not_le.mpr hlt)]
    dsimp only at hw ⊢
    generalize hchunk : (data.drop (k*BLKSIZE)).take BLKSIZE = chunk at hw h2 ⊢
    have hp2 := hp1.trans (Pins.setWords s1 b (packed chunk))
    obtain ⟨hbusy2,hbno2⟩ := (Pins.setWords s1 b (packed chunk)).busy b hbusy
    generalize s1.setWords b (packed chunk) = s2 at hw h2 hp2 hbusy2 hbno2
    split at hw
    · rename_i hempty
      obtain ⟨rfl,hres⟩ := some_pair_inj hw
      obtain ⟨rfl,rfl⟩ := Prod.mk.inj hres
      rw [if_pos hempty]
      have hzero : packed chunk = fun _ => 0 := by
        rw [List.length_eq_zero_iff.mp hempty]
        funext i
        simp [packed,ofBytes]
      rw [hzero] at h2
      exact ⟨_,rfl,h2.putblk b,hp2.putblk hidle⟩
    rename_i hne
    rw [if_neg hne]
    obtain ⟨s3,hst,hw⟩ := of_bind hw
    have hn2 : (v.fill v.next (packed chunk)).mem.nblocks = v.mem.nblocks :=
      h2.nblocks.symm.trans (hp2.nblocks.trans h.nblocks)
    obtain ⟨v1,hfresh,h4⟩ := h2.bump (by rw [hn2]; exact hlt) (packed chunk) (fill_self _ _ _)
    rw [Layout.fresh_fill h3 h.small] at hfresh
    change v.fresh = some (v.next,v1) at hfresh
    change Holds _ (v1.fill v.next (packed chunk)) at h4
    obtain ⟨_,_,_,hs1,_⟩ := hr.built.fresh hfresh
    have hvac := hs1.vacant v.next (Set.mem_insert _ _)
    have hp3 : Pins s {s2 with nextb := s2.nextb+1} := ⟨hp2.nblocks,hp2.nbitblock,hp2.busy⟩
    obtain ⟨hv3,hptr3⟩ := hv.pins hp3
    have hind : (v1.fill v.next (packed chunk)).mem.word (s.ptr f).indirect =
        v1.mem.word (s.ptr f).indirect := by
      refine Mem.word_fill_ne _ _ ?_
      rw [Ptr.indirect,hv.off (by decide)]
      exact hvac.files (s.ptr f) hf
    obtain ⟨v2,hst2,h5,hp5⟩ := h4.storeblk hv3 hbusy2 (by
      rw [hptr3,hind]
      exact hs1.slot_ge hf .indirect) hst
    rw [hptr3,show (Fmt.cache {s2 with nextb := s2.nextb+1} b).bno = v.next from
      hbno2.trans hbno] at hst2
    have hp6 := (hp3.trans hp5).putblk hidle
    have hap := hr.append hf hn ht hfresh (by rw [hchunk]; exact hst2)
    rw [hfresh]
    simp only [bind_eq_bind,bind_some,hst2]
    split at hw
    · rename_i hlast
      obtain ⟨rfl,hres⟩ := some_pair_inj hw
      obtain ⟨rfl,rfl⟩ := Prod.mk.inj hres
      rw [if_pos hlast]
      exact ⟨_,rfl,h5.putblk b,hp6⟩
    rename_i hmore
    rw [if_neg hmore]
    cases left with
    | zero => contradiction
    | succ l =>
      obtain ⟨hv6,hptr6⟩ := hv.pins hp6
      obtain ⟨v3,hw3,h7,hp7⟩ := ih l (Nat.lt_succ_self l) (h5.putblk b) hv6 (by rw [hptr6]; exact hap)
        (by rw [hptr6]; exact hf) (by rw [hptr6]; exact hn) (by rw [hptr6]; exact ht) hw
      rw [hptr6] at hw3
      exact ⟨v3,hw3,h7,hp6.trans hp7⟩

lemma writefile {path : List Byte} (h : Holds s v) (hv : Valid s dirf) (hb : Built v files)
    (hd : s.ptr dirf ∈ files) (hdir : v.mem.word (s.ptr dirf).type = FTYPE_DIR)
    (hname : FitName (basename path)) (hw : s.writefile dirf path data = some t) :
    ∃ v', v.writefile (s.ptr dirf) (basename path) data = some v' ∧ Holds t v' ∧ Pins s t := by
  unfold Fmt.writefile at hw
  obtain ⟨⟨f,dirb,s1⟩,ha,hw⟩ := of_bind hw
  obtain ⟨⟨nblk,r,s3⟩,hrounds,hw⟩ := of_bind hw
  cases hw
  obtain ⟨g,v1,ha1,hg⟩ := h.allocfile hv hb hd hdir ha
  obtain ⟨files',hal⟩ := hb.allocfile hd hdir hname.ne hname.nul hname.short ha1
  obtain ⟨h2,hp2⟩ := hg.holds.fput hg.valid (i := 33) (by decide) FTYPE_REG
  obtain ⟨hv2,hptr2⟩ := hg.valid.pins hp2
  rw [hg.ptr] at h2 hptr2
  have hreg : v1.put g.type FTYPE_REG = v1 := by
    have : v1.mem.word g.type = FTYPE_REG := hal.zero 33 (by decide) (by decide)
    simp only [put,Mem.put_same this]
  change Holds _ (v1.put g.type FTYPE_REG) at h2
  rw [hreg] at h2
  have ht1 : v1.mem.word g.type ≠ FTYPE_DIR := by
    rw [show v1.mem.word g.type = 0 from hal.zero 33 (by decide) (by decide)]
    decide
  have hr0 : Built.Rounds v1 v1 _ g data 0 := hal.built.rounds_zero hal.zero
  obtain ⟨v2,hrounds2,h3,hp3⟩ := h2.writeRounds _ hv2 (by rw [hptr2]; exact hr0)
    (by rw [hptr2]; exact hal.mem) (by rw [hptr2]; exact hal.named) (by rw [hptr2]; exact ht1) hrounds
  obtain ⟨hv3,hptr3⟩ := hv2.pins hp3
  obtain ⟨h4,hp4⟩ := h3.fput hv3 (i := 32) (by decide) (ofNat 32 (nblk*BLKSIZE+r))
  rw [hptr3,hptr2] at h4
  rw [hptr2] at hrounds2
  refine ⟨_,?_,h4.putblk dirb,(((hg.pins.trans hp2).trans hp3).trans hp4).putblk hg.idle⟩
  simp only [Layout.writefile,ha1,bind_eq_bind,bind_some,hreg,hrounds2]
  rfl

lemma basename_append {pathbuf : List Byte} (hn : Fs.slash ∉ name) :
    basename (pathbuf++[Fs.slash]++name) = name := by
  have hall : ∀ x ∈ name.reverse, (x != Fs.slash) := by
    intro x hx
    rw [bne_iff_ne]
    rintro rfl
    exact hn (List.mem_reverse.mp hx)
  simp only [basename,List.reverse_append,List.append_assoc]
  rw [List.takeWhile_append_of_pos hall]
  simp

lemma withSlash_end (path : List Byte) : ∃ l, withSlash path = l++[Fs.slash] := by
  unfold withSlash
  split
  · rename_i h
    obtain ⟨l,hl⟩ := List.getLast?_eq_some_iff.mp h
    exact ⟨l,hl⟩
  exact ⟨path,rfl⟩

lemma writedirectory {entries : Forest} : ∀ {s t : Fmt} {v : Layout} {files : Set Ptr}
    {dirf : FileAt} {pathbuf : List Byte}, Holds s v → Valid s dirf → Built v files →
    s.ptr dirf ∈ files → v.mem.word (s.ptr dirf).type = FTYPE_DIR → entries.All FitName →
    s.writedirectory dirf (pathbuf++[Fs.slash]) entries = some t →
    ∃ v', v.writedirectory (s.ptr dirf) entries = some v' ∧ Holds t v' ∧ Pins s t := by
  induction entries with
  | nil =>
    intro s t v files dirf pathbuf h _ _ _ _ _ hw
    cases hw
    exact ⟨v,rfl,h,Pins.refl s⟩
  | reg name data rest ih =>
    intro s t v files dirf pathbuf h hv hb hd hdir hall hw
    obtain ⟨hn,hrest⟩ := hall
    obtain ⟨s1,h1,hw⟩ := of_bind hw
    obtain ⟨v1,hv1,hh1,hp1⟩ := h.writefile hv hb hd hdir (by rwa [basename_append hn.slash]) h1
    rw [basename_append hn.slash] at hv1
    obtain ⟨hvd,hptr⟩ := hv.pins hp1
    obtain ⟨files1,f,ha,_⟩ := hb.writefile hd hdir hn.ne hn.nul hn.short hv1
    obtain ⟨v2,hv2,hh2,hp2⟩ := ih hh1 hvd ha.built (by rw [hptr]; exact ha.sub hd)
      (by rw [hptr]; exact ha.type.trans hdir) hrest hw
    rw [hptr] at hv2
    refine ⟨v2,?_,hh2,hp1.trans hp2⟩
    simp only [Layout.writedirectory,hv1,bind_eq_bind,bind_some,hv2]
  | dir name sub rest ihs ihr =>
    intro s t v files dirf pathbuf h hv hb hd hdir hall hw
    obtain ⟨hsub,hrest⟩ := hall
    unfold Fmt.writedirectory at hw
    unfold Layout.writedirectory
    split at hw
    · rename_i hout
      rw [if_pos hout]
      exact ihr h hv hb hd hdir hrest hw
    rename_i hout
    rw [if_neg hout]
    obtain ⟨hn,hsub⟩ := hsub (Bool.not_eq_true _ ▸ hout)
    obtain ⟨⟨f,dirb,s1⟩,h1,hw⟩ := of_bind hw
    obtain ⟨s4,h4,hw⟩ := of_bind hw
    rw [basename_append hn.slash] at h1
    obtain ⟨g,v1,hv1,hg⟩ := h.allocfile hv hb hd hdir h1
    obtain ⟨files1,ha⟩ := hb.allocfile hd hdir hn.ne hn.nul hn.short hv1
    obtain ⟨h2,hp2⟩ := hg.holds.fput hg.valid (i := 33) (by decide) FTYPE_DIR
    obtain ⟨hf2,hptr2⟩ := hg.valid.pins hp2
    obtain ⟨h3,hp3⟩ := h2.fput hf2 (i := 32) (by decide) 0
    obtain ⟨hf3,hptr3⟩ := hf2.pins hp3
    rw [hptr2,hg.ptr] at h3 hptr3
    obtain ⟨hb2,_,hdir2⟩ := ha.built.makeDir ha.mem ha.named ha.zero
    obtain ⟨l,hl⟩ := withSlash_end (pathbuf++[Fs.slash]++name)
    simp only [hl] at h4
    obtain ⟨v3,hv3,hh3,hp4⟩ := ihs h3 hf3 hb2 (by rw [hptr3]; exact ha.mem)
      (by rw [hptr3]; exact hdir2) hsub h4
    rw [hptr3] at hv3
    obtain ⟨files3,ha3⟩ := hb2.writedirectory ha.mem hdir2 hsub hv3
    have hadd := ha.added hb hd hdir ha3
    have hp5 := (((hg.pins.trans hp2).trans hp3).trans hp4).putblk hg.idle
    obtain ⟨hvd,hptr5⟩ := hv.pins hp5
    obtain ⟨v4,hv4,hh4,hp6⟩ := ihr (hh3.putblk dirb) hvd hadd.built
      (by rw [hptr5]; exact hadd.sub hd) (by rw [hptr5]; exact hadd.type.trans hdir) hrest hw
    rw [hptr5] at hv4
    refine ⟨v4,?_,hh4,hp5.trans hp6⟩
    have hv3 : ((v1.put g.type FTYPE_DIR).put g.size 0).writedirectory g sub = some v3 := hv3
    simp only [hv1,bind_eq_bind,bind_some,hv3,hv4]
  | other name rest ih =>
    intro s t v files dirf pathbuf h hv hb hd hdir hall hw
    exact ih h hv hb hd hdir hall hw

lemma writeFiles {l : List (List Byte × List Byte)} : ∀ {s t : Fmt} {v : Layout} {files : Set Ptr},
    Holds s v → Built v files → v.mem.word rootFile.type = FTYPE_DIR →
    (∀ x ∈ l, FitName (basename x.1)) → s.writeFiles l = some t →
    ∃ v', v.writeFiles l = some v' ∧ Holds t v' ∧ Pins s t := by
  induction l with
  | nil =>
    intro s t v files h _ _ _ hw
    cases hw
    exact ⟨v,rfl,h,Pins.refl s⟩
  | cons x l ih =>
    intro s t v files h hb hdir hl hw
    obtain ⟨s1,h1,hw⟩ := of_bind hw
    have hx := hl x List.mem_cons_self
    have hroot : Valid s .root := trivial
    obtain ⟨v1,hv1,hh1,hp1⟩ := h.writefile hroot hb hb.tidy.root hdir hx h1
    obtain ⟨files1,f,ha,_⟩ := hb.writefile hb.tidy.root hdir hx.ne hx.nul hx.short hv1
    obtain ⟨v2,hv2,hh2,hp2⟩ := ih hh1 ha.built (ha.type.trans hdir)
      (fun y hy => hl y (List.mem_cons_of_mem _ hy)) hw
    refine ⟨v2,?_,hh2,hp1.trans hp2⟩
    have hv1 : v.writefile rootFile (basename x.1) x.2 = some v1 := hv1
    simp only [Layout.writeFiles,hv1,bind_eq_bind,bind_some,hv2]

end Holds

/-! The end of a run. -/

lemma clearBits_bit (n : Nat) : ∀ (words : Nat → Word) (i : Nat) {j r : Nat}, r < 32 → (clearBits
    words n i j).getLsbD r = ((words j).getLsbD r && !decide (i ≤ 32*j+r ∧ 32*j+r < i+n)) := by
  induction n with
  | zero =>
    intro words i j r hr
    have : ¬(i ≤ 32*j+r ∧ 32*j+r < i+0) := by omega
    rw [decide_eq_false this]
    simp [clearBits]
  | succ n ih =>
    intro words i j r hr
    rw [clearBits,ih _ _ hr]
    by_cases hj : j = i/32
    · subst hj
      rw [Function.update_self,BitVec.getLsbD_and,BitVec.getLsbD_not,
        Fs.bit_getLsbD _ _ (Nat.mod_lt i (by decide : 0 < 32)),Bool.and_assoc]
      congr 1
      rw [Bool.eq_iff_iff]
      simp [hr]
      omega
    rw [update_of_ne hj]
    congr 1
    rw [Bool.eq_iff_iff]
    simp
    omega

lemma clearBits_bitmap {next n : Nat} (hn : n ≤ 32768) (hle : next ≤ 32768) :
    clearBits (clearBits (fun _ => 0xFFFFFFFF) next 0) (32768-n) n = bitmapOf next n := by
  have hones : ∀ j : Fin 32, (0xFFFFFFFF#32).getLsbD j := by decide
  funext j
  apply BitVec.eq_of_getLsbD_eq
  intro r hr
  rw [clearBits_bit _ _ _ hr,clearBits_bit _ _ _ hr,show (0xFFFFFFFF : Word).getLsbD r = true from
    hones ⟨r,hr⟩]
  by_cases hj : j < 1024
  · rw [bitmapOf_bit hj hr,Bool.eq_iff_iff]
    simp
    omega
  rw [bitmapOf,if_neg hj,show (0xFFFFFFFF : Word).getLsbD r = true from hones ⟨r,hr⟩]
  simp
  omega

lemma useRounds_backs (n : Nat) : ∀ {s t : Fmt} {m : Mem} {i : Nat}, Backs s m → i+n ≤ 32768 →
    s.useRounds n i = some t → Backs t (m.fill 2 (clearBits (m 2) n i)) ∧ Pins s t ∧
      t.super = s.super := by
  induction n with
  | zero =>
    intro s t m i h _ hu
    cases hu
    rw [clearBits,show m.fill 2 (m 2) = m from Function.update_eq_self _ _]
    exact ⟨h,Pins.refl s,rfl⟩
  | succ n ih =>
    intro s t m i h hi hu
    obtain ⟨⟨b,s1⟩,hget,hu⟩ := of_bind hu
    have hblk : 2+i/BLKBITSIZE = 2 := by
      change 2+i/32768 = 2
      omega
    have hidx : i%BLKBITSIZE/32 = i/32 := by
      change i%32768/32 = i/32
      omega
    rw [hblk] at hget
    have hgot := getblk_got hget h (by decide)
    have hwords : (s1.cache b).words = m 2 := by
      rw [hgot.backs.words hgot.busy,hgot.bno]
      rfl
    have h2 := (hgot.backs.setWords hgot.busy (update (s1.cache b).words (i%BLKBITSIZE/32)
      ((s1.cache b).words (i%BLKBITSIZE/32)&&&~~~Fs.bit (i%32)))).putblk b
    obtain ⟨h3,hp3,hs3⟩ := ih h2 (by omega) hu
    refine ⟨?_,((hgot.pins.trans (Pins.setWords _ _ _)).putblk hgot.idle).trans hp3,hs3.trans hgot.super⟩
    rw [hgot.bno,hwords,hidx] at h3
    simpa [Mem.fill,clearBits] using h3

lemma Holds.finishfs (h : Holds s v) (hle : v.next ≤ v.mem.nblocks) (hf : s.finishfs = some t) :
    Backs t v.mem := by
  have hsmall := h.small
  unfold Fmt.finishfs at hf
  obtain ⟨s1,huse,hf⟩ := of_bind hf
  obtain ⟨s2,hclear,hf⟩ := of_bind hf
  obtain ⟨⟨b,s3⟩,hget,hf⟩ := of_bind hf
  cases hf
  rw [h.next] at huse
  obtain ⟨h1,hp1,hs1⟩ := useRounds_backs _ h.backs (by omega) huse
  rw [hp1.nblocks,hp1.nbitblock,h.nbitblock,h.nblocks] at hclear
  have h2 : Backs s2 (v.under.fill 2 (bitmapOf v.next v.mem.nblocks)) ∧ s2.super = s.super := by
    rw [if_pos (by change v.mem.nblocks ≠ 1*32768; omega)] at hclear
    obtain ⟨⟨c,s4⟩,hc,hclear⟩ := of_bind hclear
    cases hclear
    have hgot := getblk_got hc h1 (by decide)
    have hwords : (s4.cache c).words = clearBits (v.under 2) v.next 0 := by
      rw [hgot.backs.words hgot.busy,hgot.bno]
      exact fill_self _ _ _
    refine ⟨?_,hgot.super.trans hs1⟩
    have hn4 : s4.nblocks = v.mem.nblocks := hgot.pins.nblocks.trans (hp1.nblocks.trans h.nblocks)
    have hmod : v.mem.nblocks%BLKBITSIZE = v.mem.nblocks := Nat.mod_eq_of_lt (by
      change v.mem.nblocks < 32768
      omega)
    have h4 := (hgot.backs.setWords hgot.busy (clearBits (s4.cache c).words
      (BLKBITSIZE-s4.nblocks%BLKBITSIZE) (s4.nblocks%BLKBITSIZE))).putblk c
    have hbits : clearBits (s4.cache c).words (BLKBITSIZE-s4.nblocks%BLKBITSIZE)
        (s4.nblocks%BLKBITSIZE) = bitmapOf v.next v.mem.nblocks := by
      rw [hwords,hn4,hmod,show v.under 2 = fun _ => 0xFFFFFFFF from rfl]
      exact clearBits_bitmap (by omega) (by omega)
    simp only [hbits] at h4 ⊢
    rw [hgot.bno] at h4
    simpa [Mem.fill] using h4
  obtain ⟨h2,hs2⟩ := h2
  have hgot := getblk_got hget h2 (by decide)
  have h3 := (hgot.backs.setWords hgot.busy fun i => if i < 66 then s3.super i else 0).putblk b
  rw [hgot.bno] at h3
  convert h3 using 1
  funext x
  by_cases hx1 : x = 1
  · subst hx1
    rw [fill_self,h.super,hgot.super,hs2]
  rw [fill_frame _ _ hx1]
  simp only [if_true]
  rw [fill_frame _ _ hx1]
  by_cases hx2 : x = 2
  · subst hx2
    rw [fill_self,h.bits]
  rw [fill_frame _ _ hx2]
  simp [Layout.under,hx1,hx2]

lemma flushRounds_disk (n : Nat) : ∀ {s : Fmt} {m : Mem} {i : Nat}, Backs s m → i+n = NCACHE →
    (∀ j < i, (s.cache j).used ≠ 0 → s.disk (s.cache j).bno = m (s.cache j).bno) →
    (s.flushRounds n i).disk = m := by
  induction n with
  | zero =>
    intro s m i h hi hdone
    refine h.shows.store_eq fun j k a hj => ?_
    simp only [lines] at hj
    split at hj
    · cases hj
    rename_i hu
    cases hj
    have hlt : j < i := by
      by_contra hge
      exact hu (h.high j (by omega))
    rw [show s.lines.store = s.disk from rfl,hdone j hlt hu]
    exact (h.shows.held j _ _ (by simp [lines,hu])).symm
  | succ n ih =>
    intro s m i h hi hdone
    unfold flushRounds
    by_cases hu : (s.cache i).used = 0
    · rw [if_pos hu]
      refine ih h (by omega) fun j hj huj => ?_
      by_cases hji : j = i
      · rw [hji] at huj
        exact absurd hu huj
      exact hdone j (by omega) huj
    rw [if_neg hu,flushb_eq]
    have hline : s.lines.line i = some ((s.cache i).bno,(s.cache i).words) := by simp [lines,hu]
    have hwords := h.shows.held i _ _ hline
    refine ih (m := m) ⟨h.shows.flush hline,h.idle,h.high⟩ (by omega) fun j hj huj => ?_
    change s.disk.fill (s.cache i).bno (s.cache i).words (s.cache j).bno = _
    by_cases hb : (s.cache j).bno = (s.cache i).bno
    · rw [hb,fill_self,hwords]
    rw [fill_frame _ _ hb]
    refine hdone j ?_ huj
    by_contra hge
    exact hb (by rw [show j = i by omega])

lemma Backs.flushdisk {m : Mem} (h : Backs s m) : s.flushdisk.disk = m :=
  flushRounds_disk NCACHE h (Nat.zero_add _) (by omega)

/-- The cache is used in any way that does not end the program. `m` has what was last written to
each block. -/
inductive CacheRun : Fmt → Mem → Prop where
  | init (n : Nat) (disk : Mem) : CacheRun {init n with disk} disk
  | getblk {s t : Fmt} {m : Mem} {b : Nat} (bno : Nat) (clr : Bool) (type : BlkType) :
    CacheRun s m → bno ≠ 0 → s.getblk bno clr type = some (b,t) →
    CacheRun t (if clr then m.fill bno fun _ => 0 else m)
  | write {s : Fmt} {m : Mem} (b : Nat) (words : Nat → Word) : CacheRun s m →
    (s.cache b).busy → CacheRun (s.setWords b words) (m.fill (s.cache b).bno words)
  | putblk {s : Fmt} {m : Mem} (b : Nat) : CacheRun s m → CacheRun (s.putblk b) m

lemma CacheRun.backs (h : CacheRun s m) : Backs s m := by
  induction h with
  | init n disk => exact Backs.start fun _ => ⟨rfl,rfl,rfl⟩
  | getblk _ _ _ _ h0 hg ih => exact (getblk_got hg ih h0).backs
  | write b words _ hb ih => exact ih.setWords hb words
  | putblk b _ ih => exact ih.putblk b

lemma opendisk_holds (h2 : 2 ≤ n) (hn : n ≤ 1024) (ho : opendisk n = some s) :
    2 < n ∧ Holds s (start n) := by
  unfold opendisk at ho
  have hnb : (n+BLKBITSIZE-1)/BLKBITSIZE = 1 := by
    change (n+32768-1)/32768 = 1
    omega
  rw [hnb] at ho
  obtain ⟨s1,hbit,ho⟩ := of_bind ho
  cases ho
  obtain ⟨⟨b,s2⟩,hget,hbit⟩ := of_bind hbit
  cases hbit
  have hgot := getblk_got hget (.start fun _ => ⟨rfl,rfl,rfl⟩) (by decide)
  have h1 := (hgot.backs.setWords hgot.busy fun _ => 0xFFFFFFFF).putblk b
  rw [hgot.bno] at h1
  have hlt : 2 < n := hgot.lt
  have hsup : s2.super = fun _ => 0 := hgot.super
  have hnblocks := Layout.start_nblocks hn
  refine ⟨hlt,⟨?_,rfl,hgot.pins.nbitblock,?_,?_,?_,le_rfl,by rw [hnblocks]; exact hn,
    Layout.start_magic⟩⟩
  · have hunder : (start n).under = Mem.fill (fun _ _ => 0) 2 fun _ => 0xFFFFFFFF := by
      funext x
      by_cases hx1 : x = 1
      · rw [fill_frame _ _ (by omega)]
        simp [Layout.under,hx1]
      by_cases hx2 : x = 2
      · rw [hx2,fill_self]
        rfl
      rw [fill_frame _ _ hx2]
      simp [Layout.under,start,hx1,hx2]
    rw [hunder]
    exact ⟨h1.shows,h1.idle,h1.high⟩
  · rw [hnblocks]
    exact hgot.pins.nblocks
  · simp only [putblk,setBuf,setWords,fput,hsup]
    rfl
  rw [hnblocks]
  rfl

end Fmt

end KludgeOS
