import KludgeOS.Fs.FileEdits

/-!
The edits of path lookup, truncation, resizing, removal and write-back.
-/

namespace KludgeOS
open Mem
open FsEdit (field release unhook act)


namespace Fs

variable {s t : Fs} {f d p : Ptr} {w v : Word} {b : Nat} {r : Int} {files opened : Set Ptr}
  {ptr : Option Ptr} {name path : List Byte}
  {j i : Nat} {u v' : Vol} {e : FsEdit} {x n : Word} {s1 : Fs} {pl : Place}

lemma HasBlock.of_view {u : Fs} (h : HasBlock s t f j v) (hu : u.view = t.view) :
    HasBlock s u f j v := by
  obtain ⟨hlt,hne,hslot,hnew⟩ := h
  rw [← hu] at hslot hnew
  exact ⟨hlt,hne,hslot,hnew⟩

lemma fileGetBlock_edits (h : s.fileGetBlock f w = some (r,b,t))
    (ht : Tidy opened (s.vol files)) (hf : f ∈ files) (hn : ∀ n ∈ t.notes, n.Calm) :
    ∃ files', Steps opened (Grows f w.toNat) s files t files' ∧ files ⊆ files' ∧
      (¬r < 0 → t.cache b ≠ none ∧ ∃ d : Word, d.toNat = b ∧ HasBlock s t f w.toNat d) := by
  obtain ⟨⟨r1,d,s1⟩,hmap,h⟩ := of_bind h
  simp only at h
  split at h
  · rename_i hr
    cases h
    obtain ⟨files',hdoes,hsub,_⟩ := fileMapBlock_edits hmap ht hf hn
    exact ⟨files',hdoes,hsub,fun h0 => absurd hr h0⟩
  rename_i hr
  obtain ⟨⟨r2,s2⟩,hread,h⟩ := of_bind h
  cases h
  obtain ⟨hl,_⟩ := readBlock_loaded hread
  obtain ⟨files',hdoes,hsub,hhas⟩ := fileMapBlock_edits hmap ht hf (hl.ticks.of_notes hn)
  refine ⟨files',hdoes.trans ((hl.loads files').mono IsLoad.grows),hsub,fun h0 => ?_⟩
  obtain ⟨hview,hcache⟩ := hl.success h0
  exact ⟨hcache,d,rfl,(hhas hr).of_view hview⟩

lemma put_same_vol (hg : s.get p = some w) (h : s.put p w = some t) (files : Set Ptr) :
    t.vol files = s.vol files := by
  obtain ⟨_,hw⟩ := get_view hg
  rw [put_vol h]
  have : s.view.put p w = s.view := by
    subst hw
    simp [Mem.put,Mem.set,Mem.word]
  rw [this]
  rfl

lemma fileDirty_edits (h : s.fileDirty f w = some (r,t)) (ht : Tidy opened (s.vol files))
    (hf : f ∈ files) (hn : ∀ n ∈ t.notes, n.Calm) :
    ∃ files', Steps opened (Grows f (w.sdiv 4096).toNat) s files t files' ∧ files ⊆ files' := by
  obtain ⟨⟨r1,b,s1⟩,hget,h⟩ := of_bind h
  simp only at h
  split at h
  · cases h
    obtain ⟨files',hdoes,hsub,_⟩ := fileGetBlock_edits hget ht hf hn
    exact ⟨files',hdoes,hsub⟩
  obtain ⟨x,hx,h⟩ := of_bind h
  obtain ⟨s2,hp,h⟩ := of_bind h
  cases h
  obtain ⟨files',hdoes,hsub,_⟩ := fileGetBlock_edits hget ht hf ((put_ticks hp).of_notes hn)
  exact ⟨files',hdoes.trans (.of_eq (put_ticks hp) (put_same_vol hx hp files')
    (put_unwritten hp)),hsub⟩

/-! Looking up a path. -/

/-- The edits of a lookup: directories get the blocks below their sizes, and the files found
their `f_dir`. -/
def Looks (u : Vol) : FsEdit → Prop
  | .load _ _ => True
  | .take _ _ => True
  | .hang g pl _ _ => u.mem.word g.type = FTYPE_DIR ∧ ∃ j < NINDIRECT,
      j < ((u.mem.word g.size).sdiv 4096).toNat ∧ (pl = place j ∨ pl = .indirect ∧ NDIRECT ≤ j)
  | .field _ i _ => i = 45
  | _ => False

structure At (opened : Set Ptr) (v : Vol) (f : Ptr) : Prop where
  tidy : Tidy opened v
  mem : f ∈ v.files
  cached : v.cached f.blk

lemma Grows.off (h : Grows f j u e) (g : Ptr) : (∀ w, e ≠ .field g i w) ∧ e ≠ .release g.blk := by
  cases e with
  | load | take | hang => exact ⟨by simp,by simp⟩
  | unhook | release | field => exact absurd h id

lemma Grows.looks {files' : Set Ptr} (h : Steps opened (Grows d j) s files t files')
    (hd : At opened (s.vol files) d) (htype : s.view.word d.type = FTYPE_DIR)
    (hj : j < ((s.view.word d.size).sdiv 4096).toNat) : Steps opened Looks s files t files' := by
  have hkeep := (h.keep (I := fun u => (d ∈ u.files ∧ u.cached d.blk) ∧ u.mem.word d.type =
    FTYPE_DIR ∧ u.mem.word d.size = s.view.word d.size) hd.tidy ⟨⟨hd.mem,hd.cached⟩,htype,rfl⟩ ?_).2
  · refine hkeep.mono fun u e he => ?_
    obtain ⟨hg,_,_,ht,hs⟩ := he
    cases e with
    | load | take => trivial
    | hang g pl p b =>
      obtain ⟨rfl,hlt,hpl⟩ := hg
      exact ⟨ht,j,hlt,by rw [hs]; exact hj,hpl⟩
    | unhook | release | field => exact absurd hg id
  rintro u e hu ⟨⟨hm,hc⟩,ht,hs⟩ hok hg _
  refine ⟨⟨Tidy.mem_act hm (hg.off (i := 0) d).2,Tidy.cached_act hc e⟩,?_,?_⟩
  · exact (hu.act_off hok hm hc (.inl (by decide)) (hg.off d).1).trans ht
  exact (hu.act_off hok hm hc (.inl (by decide)) (hg.off d).1).trans hs

lemma At.grows {v : Vol} (hd : At opened v d) (h : Does opened (Grows f j) v v') : At opened v' d
    ∧ v'.mem.word d.type = v.mem.word d.type ∧ v'.mem.word d.size = v.mem.word d.size := by
  obtain ⟨hm,hc,ht⟩ := h.frame (i := 33) hd.tidy hd.mem hd.cached (.inl (by decide))
    fun _ _ he => he.off d
  obtain ⟨_,_,hs⟩ := h.frame (i := 32) hd.tidy hd.mem hd.cached (.inl (by decide))
    fun _ _ he => he.off d
  exact ⟨⟨h.tidy hd.tidy,hm,hc⟩,ht,hs⟩

lemma ofAddr_addr (hblk : f.blk < DISKSIZE/BLKSIZE) (hidx : f.idx < 1024) :
    f.addr ≠ 0 ∧ Ptr.ofAddr f.addr = some f := by
  have h1 : DISKSIZE/BLKSIZE = 786432 := by decide
  have h2 : DISKMAP = 268435456 := rfl
  have h3 : BLKSIZE = 4096 := rfl
  have h4 : DISKSIZE = 3221225472 := rfl
  have haddr : f.addr.toNat = 268435456+f.blk*4096+f.idx*4 := by
    rw [Ptr.addr,BitVec.toNat_ofNat,h2,h3]
    omega
  refine ⟨fun h0 => ?_,?_⟩
  · have hzero : (0 : Word).toNat = 0 := rfl
    rw [h0] at haddr
    omega
  have hblk : (268435456+f.blk*4096+f.idx*4-268435456)/4096 = f.blk := by omega
  have hidx : (268435456+f.blk*4096+f.idx*4)%4096/4 = f.idx := by omega
  rw [Ptr.ofAddr,if_pos (by rw [haddr,h2,h4]; omega),haddr,h2,h3,hblk,hidx]

lemma file_addr {v : Vol} (h : Tidy opened v) (hf : f ∈ v.files) :
    f.addr ≠ 0 ∧ Ptr.ofAddr f.addr = some f := by
  refine ofAddr_addr (lt_of_lt_of_le (h.blk_lt hf) h.fits.2) ?_
  obtain rfl | hr := h.placed f hf
  · decide
  obtain ⟨k,hk,hidx⟩ := hr.aligned
  have : BLKFILES = 16 := rfl
  omega

structure FoundFile (opened : Set Ptr) (t : Fs) (files : Set Ptr) (g : Ptr) : Prop where
  at_ : At opened (t.vol files) g
  dir : g ≠ rootFile → t.view.word g.dir ≠ 0
  within : g ≠ rootFile → Within (t.vol files) g (t.view.word g.dir)

lemma findEntry_lt {words : Nat → Word} (h : findEntry words name = some j) :
    j < BLKFILES := List.mem_range.mp (List.mem_of_find?_eq_some h)

lemma Within.field {g e : Ptr} (h : Within u g w) (hu : Tidy opened u)
    (hok : (field e i x).Ok u) (hi : i ≠ 32) : Within ((field e i x).act opened u) g w := by
  obtain ⟨d,hd,rfl,htype,j,hj,hlt,p,hp,hw⟩ := h
  obtain ⟨he,hi'⟩ := hok
  have hi' : i < 34 ∨ i = 45 := by omega
  have hoff : ∀ k < 64, k ≠ i → (u.mem.put (e.off i) x).word (d.off k) = u.mem.word (d.off k) := by
    intro k hk hki
    refine word_put_ne fun heq => hki ?_
    exact ((hu.placed d hd).off_inj (hu.placed e he) hk (by omega) heq).2
  have hslot : BlockSlot (u.mem.put (e.off i) x) d (place j) p :=
    hp.congr (word_put_ne (hu.slot_ne_off hd he .indirect hi'))
  refine ⟨d,hd,rfl,(hoff 33 (by decide) (by omega)).trans htype,j,?_,hlt,p,hslot,?_⟩
  · change j < (((u.mem.put (e.off i) x).word (d.off 32)).sdiv 4096).toNat
    rw [hoff 32 (by decide) (by omega)]
    exact hj
  change ((u.mem.put (e.off i) x).word p).toNat = g.blk
  rw [word_put_ne (hu.slot_ne_off hd he hp hi')]
  exact hw

lemma dirRounds_edits (n : Nat) : ∀ {s : Fs} {i : Nat} {files : Set Ptr}, s.dirRounds d name n i =
    some (r,ptr,t) → At opened (s.vol files) d → s.view.word d.type = FTYPE_DIR →
    i+n = ((s.view.word d.size).sdiv 4096).toNat → (∀ n ∈ t.notes, n.Calm) → ∃ files', Steps opened
    Looks s files t files' ∧ files ⊆ files' ∧ ∀ g, ptr = some g → FoundFile opened t files' g := by
  induction n with
  | zero =>
    intro s i files h _ _ _ _
    cases h
    exact ⟨files,.refl _ _,subset_rfl,by simp⟩
  | succ n ih =>
    intro s i files h hd htype hin hn
    obtain ⟨⟨r1,b,s1⟩,hget,h⟩ := of_bind h
    have hi : (BitVec.ofNat 32 i).toNat = i := by
      have := ((s.view.word d.size).sdiv 4096).isLt
      rw [BitVec.toNat_ofNat]
      omega
    have hlt : i < ((s.view.word d.size).sdiv 4096).toNat := by omega
    simp only at h
    split at h
    · cases h
      obtain ⟨files',hdoes,hsub,_⟩ := fileGetBlock_edits hget hd.tidy hd.mem hn
      rw [hi] at hdoes
      exact ⟨files',Grows.looks hdoes hd htype hlt,hsub,by simp⟩
    rename_i hr
    obtain ⟨pg,hpg,h⟩ := of_bind h
    have hn1 : ∀ n ∈ s1.notes, n.Calm := by
      split at h
      · obtain ⟨s2,hp,h⟩ := of_bind h
        cases h
        exact (put_ticks hp).of_notes hn
      exact (dirRounds_ticks n h).of_notes hn
    obtain ⟨files',hdoes,hsub,hres⟩ := fileGetBlock_edits hget hd.tidy hd.mem hn1
    obtain ⟨hcache,x,rfl,hhas⟩ := hres hr
    rw [hi] at hdoes hhas
    have hlooks := Grows.looks hdoes hd htype hlt
    obtain ⟨hd1,htype1,hsize1⟩ := hd.grows hdoes.does
    have htype1 : s1.view.word d.type = FTYPE_DIR := htype1.trans htype
    split at h
    · rename_i j hj
      obtain ⟨s2,hp,h⟩ := of_bind h
      obtain ⟨_,rfl,rfl⟩ : _ ∧ _ = ptr ∧ s2 = t := by simpa using h
      obtain ⟨q,hq,hqw⟩ := hhas.slot
      have hg : (⟨x.toNat,64*j⟩ : Ptr) ∈ files' := by
        have := hd1.tidy.closed d hd1.mem htype1 _ q hq (place_data i) (by
          change s1.view.word q ≠ 0
          rw [hqw]
          exact hhas.ne) j (findEntry_lt hj)
        rw [show (s1.vol files').mem.word q = x from hqw] at this
        exact this
      have hok : (field ⟨x.toNat,64*j⟩ 45 d.addr).Ok (s1.vol files') :=
        ⟨hg,.inr (.inr ⟨rfl,(file_addr hd1.tidy hd1.mem).1⟩)⟩
      have hvol : s2.vol files' =
          (field ⟨x.toNat,64*j⟩ 45 d.addr).act opened (s1.vol files') := put_vol hp files'
      have hin : Within (s1.vol files') ⟨x.toNat,64*j⟩ d.addr :=
        ⟨d,hd1.mem,rfl,htype1,i,by
          rw [show (s1.vol files').mem.word d.size = s.view.word d.size from hsize1]
          exact hlt,hhas.lt,q,hq,congrArg BitVec.toNat hqw⟩
      refine ⟨files',hlooks.trans (.single (put_ticks hp) hok rfl (fun _ => hin) hvol
        (put_unwritten hp)),hsub,?_⟩
      rintro g ⟨⟩
      have hview : s2.view = s1.view.put (.dir ⟨x.toNat,64*j⟩) d.addr := congrArg Vol.mem hvol
      have hdir : s2.view.word (.dir ⟨x.toNat,64*j⟩) = d.addr := by rw [hview,word_put_self]
      refine ⟨⟨hvol ▸ hd1.tidy.act hok,hg,?_⟩,fun _ => ?_,fun _ => ?_⟩
      · rw [hvol]
        exact hcache
      · rw [hdir]
        exact (file_addr hd1.tidy hd1.mem).1
      rw [hdir,hvol]
      exact hin.field hd1.tidy hok (by decide)
    obtain ⟨files'',hdoes',hsub',hfound⟩ := ih h hd1 htype1 (by
      rw [show s1.view.word d.size = s.view.word d.size from hsize1]
      omega) hn
    exact ⟨files'',hlooks.trans hdoes',hsub.trans hsub',hfound⟩

lemma dirLookup_edits (h : s.dirLookup d name = some (r,ptr,t)) (hd : At opened (s.vol files) d)
    (htype : s.view.word d.type = FTYPE_DIR) (hn : ∀ n ∈ t.notes, n.Calm) : ∃ files', Steps opened
    Looks s files t files' ∧ files ⊆ files' ∧ ∀ g, ptr = some g → FoundFile opened t files' g := by
  obtain ⟨x,hx,h⟩ := of_bind h
  split at h
  · cases h
  obtain ⟨_,rfl⟩ := get_view hx
  exact dirRounds_edits _ h hd htype (Nat.zero_add _) hn

lemma walkRounds_edits (n : Nat) : ∀ {s : Fs} {f : Ptr} {path : List Byte}
    {files : Set Ptr}, s.walkRounds f n path = some (r,ptr,t) → FoundFile opened s files f →
    (∀ n ∈ t.notes, n.Calm) → ∃ files', Steps opened Looks s files t files' ∧
    files ⊆ files' ∧ ∀ g, ptr = some g → FoundFile opened t files' g := by
  induction n with
  | zero =>
    intro s f path files h hf _
    cases h
    exact ⟨files,.refl _ _,subset_rfl,by rintro g ⟨⟩; exact hf⟩
  | succ n ih =>
    intro s f path files h hf hn
    unfold walkRounds at h
    split at h
    · cases h
      exact ⟨files,.refl _ _,subset_rfl,by rintro g ⟨⟩; exact hf⟩
    simp only at h
    split at h
    · cases h
      exact ⟨files,.refl _ _,subset_rfl,by simp⟩
    obtain ⟨x,hx,h⟩ := of_bind h
    split at h
    · cases h
      exact ⟨files,.refl _ _,subset_rfl,by simp⟩
    rename_i hdir
    have htype : s.view.word f.type = FTYPE_DIR :=
      (get_view hx).2.trans (by_contra fun hne => hdir hne)
    obtain ⟨⟨r1,o,s1⟩,hlook,h⟩ := of_bind h
    cases o with
    | none =>
      cases h
      exact dirLookup_edits hlook hf.at_ htype hn
    | some g =>
      simp only at h
      split at h
      · cases h
        obtain ⟨files',hdoes,hsub,_⟩ := dirLookup_edits hlook hf.at_ htype hn
        exact ⟨files',hdoes,hsub,by simp⟩
      obtain ⟨files',hdoes,hsub,hfound⟩ :=
        dirLookup_edits hlook hf.at_ htype ((walkRounds_ticks n h).of_notes hn)
      obtain ⟨files'',hdoes',hsub',hfound'⟩ := ih h (hfound g rfl) hn
      exact ⟨files'',hdoes.trans hdoes',hsub.trans hsub',hfound'⟩

lemma fileOpen_edits (h : s.fileOpen path = some (r,ptr,t)) (ht : Tidy opened (s.vol files))
    (hn : ∀ n ∈ t.notes, n.Calm) : ∃ files', Steps opened Looks s files t files' ∧ files ⊆ files' ∧
    ∀ g, ptr = some g → FoundFile opened t files' g := by
  have hroot : FoundFile opened s files rootFile :=
    ⟨⟨ht,ht.root,(ht.sys 1 (one_lt_nreserved _)).2 Nat.one_ne_zero⟩,fun h => absurd rfl h,
      fun h => absurd rfl h⟩
  exact walkRounds_edits _ h hroot hn

/-! Taking blocks from a file. -/

def Clears (f : Ptr) (_ : Vol) : FsEdit → Prop
  | .load _ _ => True
  | .unhook g _ _ => g = f
  | .release b => b ≠ f.blk
  | _ => False

lemma IsLoad.clears (u : Vol) (e : FsEdit) (h : IsLoad u e) : Clears f u e := by
  cases e with
  | load => trivial
  | take | hang | unhook | release | field => exact absurd h id

lemma Clears.off (h : Clears f u e) : (∀ w, e ≠ .field f i w) ∧ e ≠ .release f.blk := by
  cases e with
  | load | unhook => exact ⟨by simp,by simp⟩
  | release b => exact ⟨by simp,fun he => h (release.inj he)⟩
  | take | hang | field => exact absurd h id

lemma Clears.shrunk {v : Vol} (h : Does opened (Clears f) v v') (ht : Tidy opened v)
    (hf : f ∈ v.files) : f ∈ v'.files ∧ Shrunk f v.mem v'.mem := by
  refine (h.induct (I := fun u => f ∈ u.files ∧ Shrunk f v.mem u.mem) ht ⟨hf,.refl f _⟩ ?_).2.1
  rintro u e hu ⟨hfu,hs⟩ hok hP
  refine ⟨Tidy.mem_act hfu (hP.off (i := 0)).2,hs.trans (hu.shrunk_act hok hfu ?_)⟩
  rintro g pl p b rfl
  exact hP

lemma put_comm {m : Mem} {p q : Ptr} (h : p ≠ q) (x y : Word) :
    (m.put p x).put q y = (m.put q y).put p x := by
  funext b i
  have hw : ∀ m : Mem, m b i = m.word ⟨b,i⟩ := fun _ => rfl
  rw [hw ((m.put p x).put q y),hw ((m.put q y).put p x)]
  by_cases hq : (⟨b,i⟩ : Ptr) = q
  · rw [hq,word_put_self,word_put_ne h.symm,word_put_self]
  rw [word_put_ne hq]
  by_cases hp : (⟨b,i⟩ : Ptr) = p
  · rw [hp,word_put_self,word_put_self]
  rw [word_put_ne hp,word_put_ne hp,word_put_ne hq]

lemma drop_view (ht : Tidy opened (s.vol files)) (hf : f ∈ files) (hp : BlockSlot s.view f pl p)
    (h0 : s.view.word p ≠ 0) (hfree : s.freeBlock (s.view.word p) = some s1)
    (hput : s1.put p 0 = some t) : t.view = (s.view.put p 0).freeBit (s.view.word p).toNat ∧
    p ≠ bitmapAt ((s.view.word p).toNat/32) := by
  obtain ⟨husable,_⟩ := ht.good f hf pl p hp h0
  have hbit : p ≠ bitmapAt ((s.view.word p).toNat/32) :=
    (ht.slot_ne_sys hf hp).2 _ husable.2
  obtain ⟨_,x,hx,hfree⟩ := freeBlock_eq hfree
  obtain ⟨_,hxw⟩ := get_view hx
  refine ⟨?_,hbit⟩
  rw [show t.view = s1.view.put p 0 from congrArg Vol.mem (put_vol hput files),
    show s1.view = s.view.put _ _ from congrArg Vol.mem (put_vol hfree files),
    put_comm hbit.symm,freeBit,word_put_ne hbit.symm,hxw]

lemma drop_edits (ht : Tidy opened (s.vol files)) (hf : f ∈ files) (hp : BlockSlot s.view f pl p)
    (hw : s.view.word p = v) (h0 : v ≠ 0) (hfree : s.freeBlock v = some s1) (hput : s1.put p 0 =
    some t) : ∃ files', Steps opened (Clears f) s files t files' ∧ t.view.word p = 0 := by
  subst hw
  obtain ⟨husable,_⟩ := ht.good f hf pl p hp h0
  have hself := ht.self f hf pl p hp
  have hok : (unhook f pl p).Ok (s.vol files) := ⟨hf,hp⟩
  obtain ⟨hview,hbit⟩ := drop_view ht hf hp h0 hfree hput
  obtain ⟨_,x,_,hfree⟩ := freeBlock_eq hfree
  have hok1 : (release (s.view.word p).toNat).Ok
      ((unhook f pl p).act opened (s.vol files)) := by
    refine ⟨husable.congr (ht.nblocks_slot hf hp 0),fun g hg ql q hq he => ?_⟩
    -- Another slot with the number would have had it before.
    change ((s.view.put p 0).word q).toNat = (s.view.word p).toNat at he
    have he := BitVec.eq_of_toNat_eq he
    have hqp : q ≠ p := by
      rintro rfl
      rw [word_put_self] at he
      exact h0 he.symm
    obtain ⟨hs,_⟩ := Shrunk.of_word (f := g) (s.view.word_clear p) ql q hq
    rw [word_put_ne hqp] at he
    exact hqp (ht.inj f hf g hg pl ql p q hp hs h0 he.symm).symm
  have hvol : t.vol ((release (s.view.word p).toNat).act opened
      ((unhook f pl p).act opened (s.vol files))).files =
      (release (s.view.word p).toNat).act opened
        ((unhook f pl p).act opened (s.vol files)) := by
    have h1 : t.vol files = {s.vol files with mem := t.view} := by
      have hc := congrArg Vol.cached (put_vol hput files)
      have hc' := congrArg Vol.cached (put_vol hfree files)
      exact congrArg (fun c => Vol.mk t.view c files) (hc.trans hc')
    simp only [act]
    exact congrArg₂ (fun m c => Vol.mk m c _) hview (congrArg Vol.cached h1)
  have hticks : Ticks s t := (put_ticks hfree).trans (put_ticks hput)
  -- The edits are in the other order, so between them is a state that the code does not pass.
  obtain ⟨u,hu⟩ : ∃ u, s.put p 0 = some u := by
    obtain ⟨pg,hpg,_⟩ := put_eq hput
    have hc := congrFun (congrArg Vol.cached (put_vol hfree files)) p.blk
    have hne : s.cache p.blk ≠ none := by
      rw [← show (s1.cache p.blk ≠ none) = (s.cache p.blk ≠ none) from hc,hpg]
      simp
    obtain ⟨qg,hqg⟩ := Option.ne_none_iff_exists'.mp hne
    exact ⟨_,by rw [put,hqg]; rfl⟩
  have huvol : u.vol files = (unhook f pl p).act opened (s.vol files) := put_vol hu files
  have hsame : Unwritten u t := by
    obtain ⟨hd,hp⟩ := put_unwritten hu
    obtain ⟨hd',hp'⟩ := (put_unwritten hfree).trans (put_unwritten hput)
    exact ⟨hd'.trans hd.symm,hp'.trans hp.symm⟩
  rw [← huvol] at hok1 hvol
  refine ⟨_,⟨hticks,.trans (.single (.edit hok ⟨rfl,trivial⟩ huvol (put_unwritten hu)))
    (.single (.edit hok1 ⟨?_,trivial⟩ hvol hsame))⟩,?_⟩
  · exact hself
  rw [hview,freeBit,word_put_ne hbit,word_put_self]

lemma Walked.loads (h : Walked s f w false r ptr t) (files : Set Ptr) :
    Steps opened IsLoad s files t files := by
  cases h with
  | direct _ | missing _ _ _ | range _ => exact .refl _ _
  | made _ _ _ hf _ _ _ => contradiction
  | read _ _ _ _ hr _ | unread _ _ _ _ hr _ => exact (readBlock_loaded hr).1.loads files

lemma fileClearBlock_edits (h : s.fileClearBlock f w = some (r,t))
    (ht : Tidy opened (s.vol files)) (hf : f ∈ files) (hn : ∀ n ∈ t.notes, n.Calm) :
    ∃ files', Steps opened (Clears f) s files t files' ∧ Empty t.view f w.toNat := by
  have hd : NDIRECT = 10 := rfl
  have hni : NINDIRECT = 1024 := rfl
  cases fileClearBlock_cleared h with
  | walk hw hr =>
    refine ⟨files,(hw.loads files).mono IsLoad.clears,fun p hp => ?_⟩
    cases hw with
    | direct _ | read _ _ _ _ _ _ | unread _ _ _ _ _ _ => exact absurd hr (by decide)
    | made _ _ _ hf _ _ _ => contradiction
    | missing hge hind _ =>
      rw [place,if_neg (by omega)] at hp
      cases hp with
      | entry h0 hj => exact absurd (get_view hind).2 h0
    | range hge =>
      rw [place,if_neg (by omega)] at hp
      cases hp with
      | entry h0 hj => omega
  | hole hw _ hfol hget =>
    obtain ⟨rfl,rfl⟩ := follow_calm hfol hn
    refine ⟨files,(hw.loads files).mono IsLoad.clears,fun q hq => ?_⟩
    have hfound := ((hw.edits ht hf hn).2 _ rfl).slot
    rw [← (get_view hget).2]
    congr 1
    generalize place w.toNat = pl at hq hfound
    cases hq <;> cases hfound <;> rfl
  | @freed r1 ptr p v s1 s2 s3 _ hw _ hfol hget h0 hfree hput =>
    have hn2 := Ticks.of_notes ((freeBlock_ticks hfree).trans (put_ticks hput)) hn
    obtain ⟨rfl,rfl⟩ := follow_calm hfol hn2
    have hloads : Steps opened IsLoad s files _ files := hw.loads files
    have hfound := ((hw.edits ht hf hn2).2 _ rfl).slot
    obtain ⟨files',hdoes,hzero⟩ :=
      drop_edits (hloads.tidy ht) hf hfound (get_view hget).2 h0 hfree hput
    obtain ⟨_,hs⟩ := Clears.shrunk hdoes.does (hloads.tidy ht) hf
    refine ⟨files',(hloads.mono IsLoad.clears).trans hdoes,fun q hq => ?_⟩
    obtain ⟨hq',_⟩ := hs _ q hq
    rw [← hzero]
    congr 1
    change BlockSlot s2.view f _ q at hq'
    generalize place w.toNat = pl at hq' hfound
    cases hq' <;> cases hfound <;> rfl

lemma clearRounds_edits (n : Nat) : ∀ {s : Fs} {i : Nat} {files : Set Ptr}, s.clearRounds f n i =
    some t → Tidy opened (s.vol files) → f ∈ files → i+n < 2^32 → (∀ n ∈ t.notes, n.Calm) → ∃
    files', Steps opened (Clears f) s files t files' ∧ ∀ j, i ≤ j → j < i+n → Empty t.view f j := by
  induction n with
  | zero =>
    intro s i files h _ _ _ _
    cases h
    exact ⟨files,.refl _ _,by omega⟩
  | succ n ih =>
    intro s i files h ht hf hlt hn
    obtain ⟨⟨r1,s1⟩,hc,h⟩ := of_bind h
    obtain ⟨files1,hd1,he1⟩ := fileClearBlock_edits hc ht hf ((clearRounds_ticks n h).of_notes hn)
    obtain ⟨hf1,_⟩ := Clears.shrunk hd1.does ht hf
    obtain ⟨files2,hd2,he2⟩ := ih h (hd1.tidy ht) hf1 (by omega) hn
    obtain ⟨_,hs2⟩ := Clears.shrunk hd2.does (hd1.tidy ht) hf1
    have hi : (BitVec.ofNat 32 i).toNat = i := by
      rw [BitVec.toNat_ofNat]
      omega
    rw [hi] at he1
    refine ⟨files2,hd1.trans hd2,fun j hj hjn => ?_⟩
    by_cases hji : j = i
    · subst hji
      exact hs2.empty he1
    exact he2 j (by omega) (by omega)

/-- The blocks of `f` that `n` bytes do not need are gone, and the indirect block if none is
needed. -/
def Cut (m : Mem) (f : Ptr) (n : Word) : Prop :=
  (∀ j, (nblocksFor n).toNat ≤ j → j < (nblocksFor (m.word f.size)).toNat → Empty m f j) ∧
  ((nblocksFor n).toNat ≤ NDIRECT → m.word f.indirect = 0)

lemma fileTruncateBlocks_edits (h : s.fileTruncateBlocks f w = some t)
    (hf : At opened (s.vol files) f) (hn : ∀ n ∈ t.notes, n.Calm) :
    ∃ files', Steps opened (Clears f) s files t files' ∧ Cut t.view f w := by
  obtain ⟨x,hx,h⟩ := of_bind h
  obtain ⟨s1,hc,h⟩ := of_bind h
  obtain ⟨ind,hind,h⟩ := of_bind h
  have hxw := (get_view hx).2
  have hindw := (get_view hind).2
  have hlt : (nblocksFor w).toNat+((nblocksFor x).toNat-(nblocksFor w).toNat) < 2^32 := by
    have := (nblocksFor w).isLt
    have := (nblocksFor x).isLt
    omega
  have hn1 : ∀ n ∈ s1.notes, n.Calm := by
    split at h
    · obtain ⟨s2,hfree,h⟩ := of_bind h
      exact Ticks.of_notes ((freeBlock_ticks hfree).trans (put_ticks h)) hn
    cases h
    exact hn
  obtain ⟨files1,hd1,he1⟩ := clearRounds_edits _ hc hf.tidy hf.mem hlt hn1
  obtain ⟨hf1,_,hsize1⟩ := hd1.does.frame (i := 32) hf.tidy hf.mem hf.cached (.inl (by decide))
    fun _ _ he => he.off
  have hsize1 : s1.view.word f.size = x := Eq.trans hsize1 hxw
  -- What is cleared stays so, and the size is untouched.
  have hcut : ∀ {u : Fs} {F : Set Ptr}, Does opened (Clears f) (s1.vol files1) (u.vol F) →
      ((nblocksFor w).toNat ≤ NDIRECT → u.view.word f.indirect = 0) → Cut u.view f w := by
    intro u F hd h0
    obtain ⟨_,hs⟩ := Clears.shrunk hd (hd1.tidy hf.tidy) hf1
    have hsize : u.view.word f.size = x := by
      have hfr := hd.frame (i := 32) (hd1.tidy hf.tidy) hf1
        (hd1.does.frame (i := 32) hf.tidy hf.mem hf.cached (.inl (by decide)) fun _ _ he => he.off).2.1
        (.inl (by decide)) fun _ _ he => he.off
      exact Eq.trans hfr.2.2 hsize1
    refine ⟨fun j hj hjx => hs.empty (he1 j hj ?_),h0⟩
    rw [hsize] at hjx
    omega
  split at h
  · rename_i hcond
    obtain ⟨s2,hfree,hput⟩ := of_bind h
    obtain ⟨files2,hd2,hzero⟩ :=
      drop_edits (hd1.tidy hf.tidy) hf1 .indirect hindw hcond.2 hfree hput
    exact ⟨files2,hd1.trans hd2,hcut hd2.does fun _ => hzero⟩
  rename_i hcond
  cases h
  refine ⟨files1,hd1,hcut (.refl _) fun hle => ?_⟩
  rw [hindw]
  exact by_contra fun h0 => hcond ⟨hle,h0⟩

/-! Writing back only reads. -/

lemma fileMapBlock_loads (h : s.fileMapBlock f w false = some (r,v,t)) (files : Set Ptr) :
    Steps opened IsLoad s files t files := by
  have hfollow : ∀ {s t : Fs} {p : Ptr} {ptr : Option Ptr}, s.follow ptr = some (p,t) →
      t.vol files = s.vol files ∧ Unwritten s t := by
    intro s t p ptr h
    cases ptr with
    | some q =>
      cases h
      exact ⟨rfl,.refl s⟩
    | none =>
      obtain ⟨q,_,h⟩ := of_bind h
      cases h
      exact ⟨rfl,rfl,rfl⟩
  cases fileMapBlock_mapped h with
  | walk hw _ => exact hw.loads files
  | found hw hfol _ _ | hole hw hfol _ _ => 
    exact (hw.loads files).trans (.of_eq (follow_ticks hfol) (hfollow hfol).1 (hfollow hfol).2)
  | full _ _ _ ha _ _ => contradiction
  | grown _ _ _ ha _ _ _ => contradiction

lemma flushRounds_loads (n : Nat) : ∀ {s : Fs} {i : Nat}, s.flushRounds f n i = some t →
    ∀ files, Makes opened IsLoad s files t files := by
  induction n with
  | zero =>
    intro s i h files
    cases h
    exact .refl _ _
  | succ n ih =>
    intro s i h files
    obtain ⟨⟨r1,d,s1⟩,hmap,h⟩ := of_bind h
    have h1 : Makes opened IsLoad s files s1 files := (fileMapBlock_loads hmap files).makes
    simp only at h
    split at h
    · exact h1.trans (ih h files)
    obtain ⟨dirty,_,h⟩ := of_bind h
    split at h
    · obtain ⟨s2,hw,h⟩ := of_bind h
      exact (h1.trans (.of_eq (writeBlock_ticks hw) (writeBlock_vol hw files))).trans (ih h files)
    exact h1.trans (ih h files)

lemma fileFlush_loads (h : s.fileFlush f = some t) (files : Set Ptr) :
    Makes opened IsLoad s files t files := by
  obtain ⟨x,_,h⟩ := of_bind h
  exact flushRounds_loads _ h files

lemma flushDir_loads (h : s.flushDir f = some t) (files : Set Ptr) :
    Makes opened IsLoad s files t files := by
  obtain ⟨x,_,h⟩ := of_bind h
  split at h
  · cases h
    exact .refl _ _
  obtain ⟨d,_,h⟩ := of_bind h
  exact fileFlush_loads h files

lemma fileClose_loads (h : s.fileClose f = some t) (files : Set Ptr) :
    Makes opened IsLoad s files t files := by
  obtain ⟨s1,hf,h⟩ := of_bind h
  exact (fileFlush_loads hf files).trans (flushDir_loads h files)

lemma syncRounds_vol (n : Nat) : ∀ {s : Fs} {i : Nat}, s.syncRounds n i = some t →
    ∀ files, t.vol files = s.vol files := by
  induction n with
  | zero =>
    intro s i h files
    cases h
    rfl
  | succ n ih =>
    intro s i h files
    obtain ⟨dirty,_,h⟩ := of_bind h
    split at h
    · obtain ⟨s1,hw,h⟩ := of_bind h
      rw [ih h files,writeBlock_vol hw]
    exact ih h files

lemma fsSync_vol (h : s.fsSync = some t) (files : Set Ptr) : t.vol files = s.vol files := by
  obtain ⟨n,_,h⟩ := of_bind h
  exact syncRounds_vol _ h files

/-! Setting the size and removing. -/

def Resizes (f : Ptr) (n : Word) (u : Vol) : FsEdit → Prop
  | .field g i x => g = f ∧ (i = 0 ∨ i = 32 ∧ x = n ∧
      (n.slt (u.mem.word f.size) → Cut u.mem f n))
  | e => Clears f u e

lemma Clears.resizes (u : Vol) (e : FsEdit) (h : Clears f u e) : Resizes f n u e := by
  cases e with
  | load | unhook | release => exact h
  | take | hang | field => exact absurd h id

lemma At.clears {v : Vol} (hf : At opened v f) (h : Does opened (Clears f) v v') :
    At opened v' f := by
  obtain ⟨hm,hc,_⟩ := h.frame (i := 0) hf.tidy hf.mem hf.cached (.inl (by decide))
    fun _ _ he => he.off
  exact ⟨h.tidy hf.tidy,hm,hc⟩

lemma put_size_edits (hput : s.put f.size w = some t) (hf : At opened (s.vol files) f) (hcut
    : w.slt (s.view.word f.size) → Cut s.view f w) : Steps opened (Resizes f w) s files t files :=
  .single (e := .field f 32 w) (put_ticks hput) ⟨hf.mem,.inr (.inl rfl)⟩
    ⟨rfl,.inr ⟨rfl,rfl,hcut⟩⟩ (fun h => absurd h (by decide)) (put_vol hput files)
    (put_unwritten hput)

lemma put_size_slot (hput : s.put f.size w = some t) (hf : At opened (s.vol files) f)
    (hp : BlockSlot s.view f pl p) : BlockSlot t.view f pl p ∧ t.view.word p = s.view.word p := by
  have hview : t.view = s.view.put f.size w := congrArg Vol.mem (put_vol hput files)
  have hne : ∀ {pl q}, BlockSlot s.view f pl q → (s.view.put f.size w).word q = s.view.word q :=
    fun hq => word_put_ne (hf.tidy.slot_ne_off hf.mem hf.mem hq (.inl (by decide)))
  rw [hview]
  exact ⟨hp.congr (hne .indirect),hne hp⟩

lemma put_size_flush (hput : s.put f.size w = some s1) (hflush : s1.flushDir f = some t)
    (hf : At opened (s.vol files) f) (hcut : w.slt (s.view.word f.size) → Cut s.view f w) : Makes
    opened (Resizes f w) s files t files ∧ At opened (t.vol files) f ∧ t.view.word f.size = w := by
  have hd1 := put_size_edits hput hf hcut
  have hd2 : Makes opened IsLoad s1 files t files := flushDir_loads hflush files
  have hvol := put_vol hput files
  have hf1 : At opened (s1.vol files) f := ⟨hd1.tidy hf.tidy,hf.mem,by rw [hvol]; exact hf.cached⟩
  have hw : s1.view.word f.size = w := by
    rw [show s1.view = s.view.put f.size w from congrArg Vol.mem hvol,word_put_self]
  obtain ⟨hm,hc,hsize⟩ := hd2.does.frame (i := 32) hf1.tidy hf1.mem hf1.cached (.inl (by decide))
    fun u e he => (IsLoad.clears (f := f) u e he).off
  refine ⟨hd1.makes.trans (hd2.mono fun u e he => Clears.resizes u e (IsLoad.clears u e he)),
    ⟨hd2.tidy hf1.tidy,hm,hc⟩,?_⟩
  exact Eq.trans hsize hw

section

variable (h : s.fileSetSize f w = some t) (hf : At opened (s.vol files) f)
  (hn : ∀ n ∈ t.notes, n.Calm)
include h hf hn

lemma fileSetSize_cut : ∃ s1 s2 files', Steps opened (Clears f) s files s1 files' ∧
    (w.slt (s.view.word f.size) → Cut s1.view f w) ∧
    (¬w.slt (s.view.word f.size) → s1 = s) ∧ (w.slt (s1.view.word f.size) → Cut s1.view f w) ∧
    s1.put f.size w = some s2 ∧ s2.flushDir f = some t := by
  obtain ⟨x,hx,h⟩ := of_bind h
  obtain ⟨s1,hc,h⟩ := of_bind h
  obtain ⟨s2,hp,hflush⟩ := of_bind h
  have hn1 := Ticks.of_notes ((put_ticks hp).trans (flushDir_ticks hflush)) hn
  rw [(get_view hx).2]
  split at hc
  · rename_i hlt
    obtain ⟨files1,hd1,hcut⟩ := fileTruncateBlocks_edits hc hf hn1
    exact ⟨s1,s2,files1,hd1,fun _ => hcut,fun h => absurd hlt h,fun _ => hcut,hp,hflush⟩
  rename_i hge
  cases hc
  have hno : w.slt x → Cut s.view f w := fun h => absurd h hge
  exact ⟨s,s2,files,.refl _ _,hno,fun _ => rfl,by rwa [(get_view hx).2],hp,hflush⟩

lemma fileSetSize_edits :
    ∃ files', Makes opened (Resizes f w) s files t files' ∧ t.view.word f.size = w := by
  obtain ⟨s1,s2,files1,hd1,_,_,hcut,hp,hflush⟩ := fileSetSize_cut h hf hn
  obtain ⟨hd2,_,hsize⟩ := put_size_flush hp hflush (hf.clears hd1.does) hcut
  exact ⟨files1,(hd1.mono Clears.resizes).makes.trans hd2,hsize⟩

end

lemma Cut.put_name (hf : At opened (s.vol files) f) (hput : s.put f.name x = some t)
    (hcut : Cut s.view f n) : Cut t.view f n := by
  have hview : t.view = s.view.put f.name x := congrArg Vol.mem (put_vol hput files)
  have hname : ∀ q, q ≠ f.name → t.view.word q = s.view.word q := by
    intro q hq
    rw [hview,word_put_ne hq]
  have hslot : ∀ {pl q}, BlockSlot t.view f pl q → BlockSlot s.view f pl q ∧
      t.view.word q = s.view.word q := by
    intro pl q hs
    have hs : BlockSlot s.view f pl q := hs.congr (hname _ (hf.tidy.slot_ne_off hf.mem hf.mem
      .indirect (.inl (by decide)))).symm
    exact ⟨hs,hname q (hf.tidy.slot_ne_off hf.mem hf.mem hs (.inl (by decide)))⟩
  have hsize : t.view.word f.size = s.view.word f.size := hname _ fun he => by
    have := ((hf.tidy.placed f hf.mem).off_inj (hf.tidy.placed f hf.mem)
      (by decide) (by decide) he).2
    omega
  refine ⟨fun j hj hjx q hq => ?_,fun hle => ?_⟩
  · obtain ⟨hq2,hw⟩ := hslot hq
    rw [hw]
    rw [hsize] at hjx
    exact hcut.1 j hj hjx q hq2
  rw [(hslot .indirect).2]
  exact hcut.2 hle

lemma fileRemove_edits (h : s.fileRemove path = some (r,t)) (ht : Tidy opened (s.vol files))
    (hn : ∀ n ∈ t.notes, n.Calm) : ∃ r1 o s1 files1, s.fileOpen path = some (r1,o,s1) ∧ Steps opened
    Looks s files s1 files1 ∧ (o = none ∧ t = s1 ∨ ∃ g s2 files', o = some g ∧ FoundFile opened s1
    files1 g ∧ s1.fileTruncateBlocks g 0 = some s2 ∧ (∀ n ∈ s2.notes, n.Calm) ∧ Steps opened
    (Clears g) s1 files1 s2 files' ∧ (∃ s3 s4 : Fs, Steps opened (Resizes g 0) s2 files' s4 files' ∧
    s4.view.word g.indirect = 0 ∧ s3.put g.size 0 = some s4 ∧ s4.flushDir g = some t) ∧ Makes opened
    (Resizes g 0) s2 files' t files' ∧ At opened (t.vol files') g ∧ t.view.word g.size = 0) := by
  obtain ⟨⟨r1,o,s1⟩,hwalk,h⟩ := of_bind h
  cases o with
  | none =>
    obtain ⟨_,rfl⟩ := some_pair_inj h
    obtain ⟨files1,hd1,_,_⟩ := fileOpen_edits hwalk ht hn
    exact ⟨r1,none,s1,files1,hwalk,hd1,.inl ⟨rfl,rfl⟩⟩
  | some f =>
    obtain ⟨s2,htr,h⟩ := of_bind h
    obtain ⟨x,_,h⟩ := of_bind h
    obtain ⟨s3,hp,h⟩ := of_bind h
    obtain ⟨s4,hq,h⟩ := of_bind h
    obtain ⟨s5,hd,h⟩ := of_bind h
    cases h
    have hn2 := Ticks.of_notes (((put_ticks hp).trans (put_ticks hq)).trans (flushDir_ticks hd)) hn
    obtain ⟨files1,hd1,_,hfound⟩ := fileOpen_edits hwalk ht
      ((fileTruncateBlocks_ticks htr).of_notes hn2)
    have hf1 := hfound f rfl
    obtain ⟨files2,hd2,hcut⟩ := fileTruncateBlocks_edits htr hf1.at_ hn2
    have hf2 := hf1.at_.clears hd2.does
    have hok3 : (field f 0 (x&&&~~~0xFF)).Ok (s2.vol files2) := ⟨hf2.mem,.inl rfl⟩
    have hd3 : Steps opened (Resizes f 0) s2 files2 s3 files2 :=
      Steps.single (put_ticks hp) hok3 ⟨rfl,.inl rfl⟩ (fun h => absurd h (by decide))
        (put_vol hp files2) (put_unwritten hp)
    have hf3 : At opened (s3.vol files2) f :=
      ⟨hd3.tidy hf2.tidy,hf2.mem,by rw [put_vol hp]; exact hf2.cached⟩
    have hcut3 := hcut.put_name hf2 hp
    obtain ⟨hd4,hat,hsize⟩ := put_size_flush hq hd hf3 fun _ => hcut3
    refine ⟨r1,some f,s1,files1,hwalk,hd1,.inr ⟨f,s2,files2,rfl,hf1,htr,hn2,hd2,⟨s3,s4,hd3.trans
      (put_size_edits hq hf3 fun _ => hcut3),?_,hq,hd⟩,hd3.makes.trans hd4,hat,hsize⟩⟩
    rw [(put_size_slot hq hf3 .indirect).2]
    exact hcut3.2 (by decide)

end Fs

end KludgeOS
