import KludgeOS.Fs.DiskImage

/-!
The disks the machine can stop with: the disk before each write of a run, and
the last one.
-/

namespace KludgeOS
open Option Mem FsEdit List


/-- Block `j` of `f` is there, or `f` is no directory and gets it without an indirect block. -/
def Mem.Ready (m : Mem) (f : Ptr) (j : Nat) : Prop :=
  m.blockOf f j ≠ 0 ∨ m.word f.type ≠ FTYPE_DIR ∧ (j < NDIRECT ∨ m.word f.indirect ≠ 0)

instance (m : Mem) (f : Ptr) (j : Nat) : Decidable (m.Ready f j) :=
  inferInstanceAs (Decidable (_ ∨ _))

lemma Mem.blockOf_of_slot {m : Mem} {f p : Ptr} {j : Nat} (h : BlockSlot m f (place j) p) :
    m.blockOf f j = m.word p := by
  unfold place at h
  split at h
  · rename_i hlt
    cases h
    rw [blockOf,if_pos hlt]
  rename_i hge
  cases h with
  | entry h0 _ => rw [blockOf,if_neg hge,if_neg h0]

lemma Stable.congr {opened : Set Ptr} {v u : Vol} (h : Stable opened v) (hm : u.mem = v.mem)
    (hf : u.files = v.files) : Stable opened u := by
  obtain ⟨m,c,F⟩ := u
  obtain rfl : m = v.mem := hm
  obtain rfl : F = v.files := hf
  exact ⟨h.rooted,h.solid,h.dirs⟩

lemma Below.congr {v u : Vol} {disk : Mem} (h : Below v disk) (hm : u.mem = v.mem)
    (hf : u.files = v.files) : Below u disk := by
  obtain ⟨m,c,F⟩ := u
  obtain rfl : m = v.mem := hm
  obtain rfl : F = v.files := hf
  exact ⟨h.fewer,h.blocks,h.used⟩

namespace Fs

variable {s t u : Fs} {v : Vol} {e : FsEdit} {f : Ptr} {b j : Nat} {n w : Word} {r : Int}
  {opened files files' : Set Ptr} {P : Vol → FsEdit → Prop} {W : Set Nat} {path : List Byte}

structure Safe (opened files : Set Ptr) (s : Fs) : Prop where
  tidy : Tidy opened (s.vol files)
  stable : Stable opened (s.vol files)
  below : Below (s.vol files) s.disk
  past : ∀ d ∈ s.past, Owned d

lemma Safe.owned (h : Safe opened files s) : ∀ d ∈ s.disk :: s.past, Owned d := by
  intro d hd
  obtain rfl | hd := mem_cons.mp hd
  · exact h.below.owned h.tidy
  exact h.past d hd

lemma Backed.loaded {c : Nat → Word} (h : Backed s t v (.load b c)) (hr : Reads s t) :
    c = v.mem b := by
  obtain h | ⟨k,d,h⟩ := h
  · exact h
  exact absurd (hr _ h) id

/-! Files that grow. -/

def Gains (v : Vol) (e : FsEdit) : Prop :=
  Plain v e ∧ (∀ f pl p, e ≠ .unhook f pl p) ∧ ∀ b, e ≠ .release b

lemma Stores.written (h : Stores s t e) :
    t.disk = e.written t.view s.disk ∧ ∀ d ∈ t.past, d ∈ s.disk :: s.past := by
  cases e with
  | take b c => exact ⟨h.1,fun d hd => h.2 ▸ hd⟩
  | load | hang | unhook | release | field =>
    exact ⟨h.disk,fun d hd => mem_cons_of_mem _ (h.past ▸ hd)⟩

lemma Steps.safe (h : Steps opened P s files t files') (hs : Safe opened files s)
    (hP : ∀ v e, Tidy opened v → Stable opened v → e.Ok v → P v e → Backed s t v e → Gains v e) :
    Safe opened files' t := by
  refine h.induct (I := fun u F => Safe opened F u) hs ?_ ?_
  · intro u w F hu hv hw
    refine ⟨by rw [hv]; exact hu.tidy,by rw [hv]; exact hu.stable,?_,?_⟩
    · rw [hv,hw.disk]
      exact hu.below
    rw [hw.past]
    exact hu.past
  intro u w F F' e hu hok he hb hv hw
  obtain ⟨hp,hun,hre⟩ := hP _ e hu.tidy hu.stable hok he hb
  obtain ⟨hdisk,hpast⟩ := hw.written
  have hbelow := hu.below.act hu.tidy hu.stable hok hp hun hre
  rw [← hv] at hbelow
  refine ⟨hv ▸ hu.tidy.act hok,hv ▸ hu.stable.act hu.tidy hok hp,?_,fun d hd => ?_⟩
  · rw [hdisk]
    exact hbelow
  exact hu.owned d (hpast d hd)

lemma Looks.gains (h : Looks v e) (hst : Stable opened v) (hok : e.Ok v) (hb : Backed s t v e)
    (hr : Reads s t) : Gains v e := by
  cases e with
  | load b c => exact ⟨hb.loaded hr,by simp,by simp⟩
  | take b c => exact ⟨trivial,by simp,by simp⟩
  | hang g pl p b =>
    obtain ⟨hdir,j,hj,hlt,hpl⟩ := h
    obtain ⟨hg,hs,h0,_⟩ := hok
    obtain ⟨hleg,hall⟩ := hst.solid g hg hdir
    have hhas := hall j (hleg.sdiv hlt)
    obtain rfl | ⟨rfl,hge⟩ := hpl
    · exact absurd ((blockOf_of_slot hs).trans h0) hhas
    cases hs
    exact absurd (by rw [blockOf,if_neg (Nat.not_lt.mpr hge),if_pos h0]) hhas
  | field g i w =>
    obtain rfl : i = 45 := h
    exact ⟨.inl ⟨rfl,hb rfl⟩,by simp,by simp⟩
  | unhook | release => exact absurd h id

lemma Looks.safe (h : Steps opened Looks s files t files') (hs : Safe opened files s)
    (hr : Reads s t) : Safe opened files' t :=
  h.safe hs fun _ _ _ hst hok he hb => he.gains hst hok hb hr

lemma ready_hang {pl : Place} {p : Ptr} (h : v.mem.Ready f j) (hs : BlockSlot v.mem f pl p)
    (h0 : v.mem.word p = 0) (hpl : pl = place j ∨ pl = .indirect ∧ NDIRECT ≤ j) :
    pl ≠ .indirect ∧ v.mem.word f.type ≠ FTYPE_DIR ∧ (j < NDIRECT ∨ v.mem.word f.indirect ≠ 0) := by
  have hnot : v.mem.blockOf f j = 0 := by
    obtain rfl | ⟨rfl,hge⟩ := hpl
    · exact (blockOf_of_slot hs).trans h0
    cases hs
    rw [blockOf,if_neg (Nat.not_lt.mpr hge),if_pos h0]
  obtain hhas | ⟨htype,hlt⟩ := h
  · exact absurd hnot hhas
  refine ⟨?_,htype,hlt⟩
  rintro rfl
  cases hs
  obtain hpl | ⟨_,hge⟩ := hpl
  · unfold place at hpl
    split at hpl <;> contradiction
  obtain hlt | hind := hlt
  · omega
  exact hind h0

lemma ready_act (h : v.mem.Ready f j) (hv : Tidy opened v) (hok : e.Ok v) (hg : Grows f j v e)
    (hp : Plain v e) (hf : f ∈ v.files) (hj : j < NINDIRECT) : (e.act opened v).mem.Ready f j := by
  have hd : NDIRECT = 10 := rfl
  cases e with
  | load b c =>
    obtain rfl : c = v.mem b := hp
    simp only [act,fill_same]
    exact h
  | take b c =>
    have htype : ((FsEdit.take b c).act opened v).mem.word f.type = v.mem.word f.type :=
      hv.take_word hok hf (by decide)
    have hind : ((FsEdit.take b c).act opened v).mem.word f.indirect = v.mem.word f.indirect :=
      hv.take_word hok hf (by decide)
    have hblock : ((FsEdit.take b c).act opened v).mem.blockOf f j = v.mem.blockOf f j := by
      rw [blockOf,blockOf,hind]
      split
      · exact hv.take_word hok hf (by omega)
      split
      · rfl
      exact hv.take_entry hok hf ‹_› hj
    rw [Mem.Ready,htype,hind,hblock]
    exact h
  | hang g pl p b =>
    obtain ⟨rfl,_,hpl⟩ := hg
    obtain ⟨_,hs,h0,_⟩ := hok
    obtain ⟨_,htype,hlt⟩ := ready_hang h hs h0 hpl
    refine .inr ⟨?_,hlt.imp_right fun hind => ?_⟩
    · have hne : g.type ≠ p := fun he => hv.slot_ne_off hf hf hs (i := 33) (.inl (by decide)) he.symm
      simp only [act,word_put_ne hne]
      exact htype
    have hne : g.indirect ≠ p := by
      rintro rfl
      exact hind h0
    simp only [act,word_put_ne hne]
    exact hind
  | unhook | release | field => exact absurd hg id

lemma Grows.gains (h : Grows f j v e) (hready : j < NINDIRECT → v.mem.Ready f j) (hok : e.Ok v)
    (hb : Backed s t v e) (hr : Reads s t) : Gains v e := by
  cases e with
  | load b c => exact ⟨hb.loaded hr,by simp,by simp⟩
  | take b c => exact ⟨trivial,by simp,by simp⟩
  | hang g pl p b =>
    obtain ⟨rfl,hj,hpl⟩ := h
    obtain ⟨_,hs,h0,_⟩ := hok
    obtain ⟨hne,htype,_⟩ := ready_hang (hready hj) hs h0 hpl
    exact ⟨⟨hne,htype⟩,by simp,by simp⟩
  | unhook | release | field => exact absurd h id

lemma Grows.safe (h : Steps opened (Grows f j) s files t files') (hs : Safe opened files s)
    (hf : f ∈ files) (hready : j < NINDIRECT → s.view.Ready f j) (hr : Reads s t) :
    Safe opened files' t := by
  have hkeep := (h.keep (I := fun u => f ∈ u.files ∧ (j < NINDIRECT → u.mem.Ready f j)) hs.tidy
    ⟨hf,hready⟩ ?_).2
  · exact hkeep.safe hs fun v e _ _ hok he hb => he.1.gains he.2.2.2 hok hb hr
  rintro u e hu ⟨hfu,hru⟩ hok hg hb
  exact ⟨Tidy.mem_act hfu (hg.off (i := 0) f).2,
    fun hj => ready_act (hru hj) hu hok hg (hg.gains hru hok hb hr).1 hfu hj⟩

/-! Writing back. -/

lemma Quiet.safe (h : Quiet W s t) (hs : Safe opened files s) (ht : Tidy opened (t.vol files)) :
    Safe opened files t := by
  have hmix : ∀ d, Mix W s d → Below (s.vol files) d := by
    intro d hd
    have hblk : ∀ b, d b = s.disk b ∨ d b = s.view b := fun b => (hd b).imp_right And.right
    refine hs.below.mix (.refl rootFile _) hblk fun x hx hu => ?_
    obtain hb | hb := hblk (bitmapAt (x/32)).blk
    · have := hs.below.used x hx hu
      simpa only [isFree,word,hb] using this
    have hu : s.view.isFree x = false := hu
    simpa only [isFree,word,hb] using hu
  obtain ⟨l,hl,hpast⟩ := h.past
  refine ⟨ht,hs.stable.congr h.view rfl,(hmix _ h.disk).congr h.view rfl,fun d hd => ?_⟩
  rw [hl] at hd
  obtain hd | hd := mem_append.mp hd
  · exact (hmix d (hpast d hd)).owned hs.tidy
  exact hs.past d hd

lemma flushDir_settles (h : s.flushDir f = some t) (hr : Reads s t)
    (hs : Tidy opened (s.vol files)) (hst : Stable opened (s.vol files))
    (hw : Within (s.vol files) f (s.view.word f.dir)) (hc : s.CoherentAt f.blk) :
    Quiet {b | s.view.nreserved ≤ b} s t ∧ ∀ i < 1024, t.disk f.blk i = s.view f.blk i := by
  obtain ⟨x,hx,h⟩ := of_bind h
  obtain ⟨d,hd,hx',hdir,j,hj,hlt,p,hp,hblk⟩ := hw
  obtain rfl : x = d.addr := (get_view hx).2.symm.trans hx'
  obtain ⟨h0,hptr⟩ := file_addr hs hd
  rw [if_neg h0] at h
  obtain ⟨d',hd',h⟩ := of_bind h
  obtain rfl := mem_unique hptr hd'
  obtain ⟨hleg,hall⟩ := hst.solid d hd hdir
  have hhas := hall j (hleg.sdiv hj)
  have hnum : (s.view.blockOf d j).toNat = f.blk := by
    rw [show s.view.blockOf d j = s.view.word p from blockOf_of_slot hp]
    exact hblk
  have husable : ∀ i < NINDIRECT, s.view.blockOf d i ≠ 0 →
      (s.view.blockOf d i).toNat ∈ {b | s.view.nreserved ≤ b} := by
    intro i hi hi0
    obtain ⟨q,hq,hqw⟩ := blockOf_slot hi0 hi
    have := (hs.good d hd _ q hq (by rw [← hqw] at hi0; exact hi0)).1.1
    rw [← hqw]
    exact this
  obtain ⟨hq,hclean⟩ := fileFlush_quiet h hr husable
  refine ⟨hq,fun i hi => ?_⟩
  have hcl := hclean hleg j (hleg.sdiv hj) hhas
  rw [hnum] at hcl
  rw [(hq.coherent _ hc).disk_eq hcl hi,hq.view]

/-! A file that loses blocks. -/

lemma Resizes.plain (h : Resizes f n v e) (htype : v.mem.word f.type ≠ FTYPE_DIR)
    (hb : Backed s t v e) (hr : Reads s t) : Plain v e := by
  cases e with
  | load b c => exact hb.loaded hr
  | unhook g pl p =>
    obtain rfl : g = f := h
    exact htype
  | release b => trivial
  | field g i w =>
    obtain ⟨rfl,hi⟩ := h
    exact .inr ⟨by omega,htype⟩
  | take | hang => exact absurd h id

lemma Resizes.trims (h : Steps opened (Resizes f n) s files t files')
    (hs : Safe opened files s) (hf : f ∈ files) (htype : s.view.word f.type ≠ FTYPE_DIR) (hw
    : Within (s.vol files) f (s.view.word f.dir)) (hr : Reads s t) : Stable opened (t.vol files') ∧
    Trims f (s.vol files) (t.vol files') ∧ Within (t.vol files') f (t.view.word f.dir) := by
  have hkeep := (h.keep (I := fun u => Stable opened u ∧ Trims f (s.vol files) u ∧ u.mem.word f.type
    = s.view.word f.type ∧ Within u f (u.mem.word f.dir)) hs.tidy ⟨hs.stable,.refl f _,rfl,hw⟩ ?_).1
  · exact ⟨hkeep.1,hkeep.2.1,hkeep.2.2.2⟩
  rintro u e hu ⟨hst,htr,hty,hwu⟩ hok he hb
  have hfu : f ∈ u.files := htr.files ▸ hf
  have hp := he.plain (by rw [hty]; exact htype) hb hr
  have hdir : (e.act opened u).mem.word f.dir = u.mem.word f.dir := by
    refine hp.off_same hu hok hfu (.inr rfl) ?_
    rintro w rfl
    have := he.2
    omega
  refine ⟨hst.act hu hok hp,htr.act hs.tidy hu hst hok hp he,(hp.type_same hu hok hfu).trans hty,?_⟩
  rw [hdir]
  exact hp.within hu hok (hst.files_same hok hp) hwu

lemma Safe.cut (hs : Safe opened files s) (hf : f ∈ files)
    (htype : s.view.word f.type ≠ FTYPE_DIR) (hw : Within (s.vol files) f (s.view.word f.dir))
    (h : Steps opened (Resizes f n) s files u files') (hflush : u.flushDir f = some t)
    (hr : Reads s t) (hc : u.CoherentAt f.blk) (hind : u.view.word f.indirect = 0 ∨ ∀ j < NINDIRECT,
    u.view.word ⟨(s.view.word f.indirect).toNat,j⟩ = s.view.word ⟨(s.view.word f.indirect).toNat,j⟩)
    : Safe opened files' t := by
  obtain ⟨hr1,hr2⟩ := Reads.split h.ticks (flushDir_ticks hflush) hr
  obtain ⟨hst,htr,hwu⟩ := Resizes.trims h hs hf htype hw hr1
  have hu := h.tidy hs.tidy
  have hun : Unwritten s u := h.unwritten fun _ _ _ h => h
  obtain ⟨hq,hblk⟩ := flushDir_settles hflush hr2 hu hst hwu hc
  have hmix : ∀ d, Mix {b | u.view.nreserved ≤ b} u d → Below (s.vol files) d := by
    intro d hd
    refine hs.below.mix htr (fun b => ?_) fun x hx hused => ?_
    · rw [← hun.disk]
      exact (hd b).imp_right And.right
    obtain hb | ⟨hb,_⟩ := hd (bitmapAt (x/32)).blk
    · have := hs.below.used x hx hused
      simpa only [isFree,word,hb,hun.disk] using this
    have hb : u.view.nreserved ≤ (bitmapAt (x/32)).blk := hb
    have hlt : (bitmapAt (x/32)).blk < u.view.nreserved :=
      bitmap_reserved (by rw [show u.view.nblocks = _ from htr.blocks]; exact hx)
    omega
  have hplaced := hu.placed f (by rw [htr.files]; exact hf)
  have hsettle : Below (u.vol files') t.disk := by
    refine (hmix _ hq.disk).settle htr (fun i hi hi' => ?_) hind
    rw [hplaced.off (by omega)]
    refine hblk _ ?_
    obtain rfl | hrec := hplaced
    · change 2+i < 1024
      omega
    obtain ⟨k,hk,hidx⟩ := hrec.aligned
    have : BLKFILES = 16 := rfl
    change f.idx+i < 1024
    omega
  obtain ⟨l,hl,hpast⟩ := hq.past
  have ht : Tidy opened (t.vol files') := (flushDir_loads hflush files').tidy hu
  refine ⟨ht,hst.congr hq.view rfl,hsettle.congr hq.view rfl,fun d hd => ?_⟩
  rw [hl] at hd
  obtain hd | hd := mem_append.mp hd
  · exact (hmix d (hpast d hd)).owned hs.tidy
  exact hs.past d (hun.past ▸ hd)

lemma put_size_coherent {m : Mem} (h : s.put f.size w = some t) (hf : Placed m f) :
    t.CoherentAt f.blk := by
  obtain ⟨pg,_,rfl⟩ := put_eq h
  have hoff : f.size = ⟨f.blk,f.idx+32⟩ := hf.off (by decide)
  have hblk : f.size.blk = f.blk := by rw [hoff]
  intro qg hq hd
  obtain rfl : _ = qg := by simpa [hblk] using hq
  contradiction

lemma fileSetSize_safe (h : s.fileSetSize f w = some t) (hs : Safe opened files s)
    (hf : At opened (s.vol files) f) (htype : s.view.word f.type ≠ FTYPE_DIR)
    (hw : Within (s.vol files) f (s.view.word f.dir)) (hcut : w.slt (s.view.word f.size) →
    (nblocksFor w).toNat ≤ NDIRECT ∨ s.view.word f.indirect = 0) (hn : ∀ n ∈ t.notes, n.Calm)
    (hr : Reads s t) : ∃ files', Safe opened files' t := by
  obtain ⟨s1,s2,files1,hd1,hcut1,hsame,hset,hp,hflush⟩ := fileSetSize_cut h hf hn
  have hf1 := hf.clears hd1.does
  have hd := (hd1.mono Clears.resizes).trans (put_size_edits hp hf1 hset)
  refine ⟨files1,hs.cut hf.mem htype hw hd hflush hr
    (put_size_coherent hp (hf1.tidy.placed f hf1.mem)) ?_⟩
  · rw [(put_size_slot hp hf1 .indirect).2]
    by_cases hshrink : w.slt (s.view.word f.size)
    · obtain hle | h0 := hcut hshrink
      · exact .inl ((hcut1 hshrink).2 hle)
      have htr := (Resizes.trims (n := w) (hd1.mono Clears.resizes) hs hf.mem htype hw
        (Reads.split hd1.ticks ((put_ticks hp).trans (flushDir_ticks hflush)) hr).1).2.1
      obtain he | ⟨_,he⟩ := htr.off f hf.mem 44 (by decide) (by decide)
      · exact .inl (he.trans h0)
      exact .inl he
    have hs1 := hsame hshrink
    subst hs1
    by_cases h0 : s1.view.word f.indirect = 0
    · exact .inl h0
    refine .inr fun j hj => ?_
    exact (put_size_slot hp hf1 (.entry h0 hj)).2

lemma fileRemove_safe (h : s.fileRemove path = some (r,t)) (hs : Safe opened files s) (hfile : ∀ r
    f u, s.fileOpen path = some (r,some f,u) → f ≠ rootFile ∧ u.view.word f.type ≠ FTYPE_DIR)
    (hn : ∀ n ∈ t.notes, n.Calm) (hr : Reads s t) : ∃ files', Safe opened files' t := by
  obtain ⟨r1,o,s1,files1,hopen,hd1,hcase⟩ := fileRemove_edits h hs.tidy hn
  obtain ⟨rfl,rfl⟩ | ⟨g,s2,files',rfl,hg,_,_,hclear,⟨s3,s4,hres,hind,hput,hflush⟩,_⟩ := hcase
  · exact ⟨files1,Looks.safe hd1 hs hr⟩
  have hd2 := (hclear.mono (Clears.resizes (n := 0))).trans hres
  obtain ⟨hr1,hr2⟩ := Reads.split hd1.ticks (hd2.ticks.trans (flushDir_ticks hflush)) hr
  obtain ⟨hroot,htype⟩ := hfile r1 g s1 hopen
  have hs1 := Looks.safe hd1 hs hr1
  exact ⟨files',hs1.cut hg.at_.mem htype (hg.within hroot) hd2 hflush hr2
    (put_size_coherent hput (hg.at_.tidy.placed g hg.at_.mem)) (.inl hind)⟩

/-! The disk a server starts with. -/

lemma bitmapRounds_unwritten (n : Nat) : ∀ {s : Fs} {i : Nat}, s.bitmapRounds n i = some t →
    Unwritten s t := by
  induction n with
  | zero =>
    intro s i h
    cases h
    exact .refl _
  | succ n ih =>
    intro s i h
    obtain ⟨b,_,h⟩ := of_bind h
    obtain ⟨free,_,h⟩ := of_bind h
    split at h
    · cases h
    obtain ⟨⟨r,s1⟩,hl,h⟩ := of_bind h
    simp only at h
    split at h
    · cases h
    obtain ⟨free',_,h⟩ := of_bind h
    split at h
    · cases h
    exact (loadBlock_loaded hl).unwritten.trans (ih h)

lemma fsInit_unwritten (h : s.fsInit = some t) : Unwritten s t := by
  obtain ⟨s1,h1,h⟩ := of_bind h
  obtain ⟨⟨r,s2⟩,hl,h1⟩ := of_bind h1
  have hl := (loadBlock_loaded hl).unwritten
  simp only at h1
  split at h1
  · cases h1
  obtain ⟨m,_,h1⟩ := of_bind h1
  obtain ⟨n,_,h1⟩ := of_bind h1
  split at h1
  · cases h1
  cases h1
  obtain ⟨n',_,h⟩ := of_bind h
  obtain ⟨s3,hb,h⟩ := of_bind h
  obtain ⟨f0,_,h⟩ := of_bind h
  split at h
  · cases h
  obtain ⟨f1,_,h⟩ := of_bind h
  split at h
  · cases h
  split at h
  · cases h
  cases h
  exact hl.trans (bitmapRounds_unwritten _ hb)

end Fs

namespace Srv
open Fs (Safe)
open Interleaving

variable {s t : Srv} {a : SrvAct} {opened files : Set Ptr}

def SolidImage (disk : Mem) : Prop :=
  Owned disk ∧ ∀ d, IsFile disk d → disk.word d.type = FTYPE_DIR → Solid disk d

def Careful : SrvAct → Srv → Prop
  | .req (.map fileid offset),s => ∀ f, s.FileOf fileid f →
      (offset.sdiv 4096).toNat < NINDIRECT → s.fs.view.Ready f (offset.sdiv 4096).toNat
  | .req (.dirty fileid offset),s => ∀ f, s.FileOf fileid f →
      (offset.sdiv 4096).toNat < NINDIRECT → s.fs.view.Ready f (offset.sdiv 4096).toNat
  | .req (.setSize fileid n),s => ∀ f, s.FileOf fileid f →
      f ≠ rootFile ∧ s.fs.view.word f.type ≠ FTYPE_DIR ∧ (n.slt (s.fs.view.word f.size) →
          (nblocksFor n).toNat ≤ NDIRECT ∨ s.fs.view.word f.indirect = 0)
  | .req (.remove path),s => ∀ r f fs, s.fs.fileOpen (cPath path) = some (r,some f,fs) →
      f ≠ rootFile ∧ fs.view.word f.type ≠ FTYPE_DIR
  | _,_ => True

def Stoppable (s : Srv) : Prop := ∃ opened files, Held s opened files ∧ Safe opened files s.fs

lemma Boot.stoppable (h : Boot SolidImage s) : Stoppable s := by
  have hb := h
  obtain ⟨⟨disk,hdisk,hview⟩,hheld⟩ := h.held fun _ h => h.1
  obtain ⟨disk',chance,junk,strays,_,h⟩ := hb
  obtain ⟨fs,hfs,h⟩ := of_bind h
  cases h
  have hun := Fs.fsInit_unwritten hfs
  have hdd : fs.disk = fs.view := hun.disk.trans (Fs.fsInit_view hfs).1.symm
  refine ⟨_,_,hheld,hheld.tidy,⟨fun g hg hr => ?_,fun d hd hdir => ?_,fun o ho => ?_⟩,?_,?_⟩
  · cases hg with
    | root => exact absurd rfl hr
    | entry hd hdir hs _ _ _ => exact ⟨_,hd,hdir,_,_,hs,rfl⟩
  · subst hview
    exact hdisk.2 d hd hdir
  · exact absurd ho id
  · change Below _ fs.disk
    rw [hdd]
    exact .refl _
  have : fs.past = [] := hun.past
  simp [this]

lemma Served.stoppable {q : Req} (h : Served s q t) (hs : Stoppable s) (hc : Careful (.req q) s)
    (hn : ∀ n ∈ t.fs.notes, n.Calm) (hr : Fs.Reads s.fs t.fs) : Stoppable t := by
  obtain ⟨opened,files,hheld,hsafe⟩ := hs
  -- The table has the same files after every request but `open`.
  have hkeep : ∀ files', Safe opened files' t.fs →
      (∀ i, (t.opentab i).file = (s.opentab i).file) → Stoppable t := fun files' h htab =>
    ⟨opened,files',⟨h.tidy,fun i f hf => hheld.files i f (by rw [← htab]; exact hf)⟩,h⟩
  cases h with
  | bad _ => exact hkeep files hsafe fun _ => rfl
  | map hl hf hg =>
    obtain ⟨files',hd,_,_⟩ := Fs.fileGetBlock_edits hg hheld.tidy (hheld.at hf).mem hn
    exact hkeep files' (Fs.Grows.safe hd hsafe (hheld.at hf).mem (hc _ ⟨_,hl,hf⟩) hr) fun _ => rfl
  | dirty hl hf hg =>
    obtain ⟨files',hd,_⟩ := Fs.fileDirty_edits hg hheld.tidy (hheld.at hf).mem hn
    exact hkeep files' (Fs.Grows.safe hd hsafe (hheld.at hf).mem (hc _ ⟨_,hl,hf⟩) hr) fun _ => rfl
  | @setSize i f pg fs fileid size hl hf hg hpg =>
    obtain ⟨hroot,htype,hcut⟩ := hc f ⟨i,hl,hf⟩
    obtain ⟨files',ht⟩ := Fs.fileSetSize_safe hg hsafe (hheld.at hf) htype
      (hsafe.stable.dirs f (hheld.files i f hf) hroot) hcut hn hr
    exact hkeep files' ht fun j =>
      setOpen_file {s with fs := fs} i (resized (s.opentab i) pg size) rfl j
  | close _ _ hcl =>
    exact hkeep files ((Fs.fileClose_quiet hcl hr).safe hsafe
      ((Fs.fileClose_loads hcl files).tidy hheld.tidy)) fun _ => rfl
  | remove hrem =>
    obtain ⟨files',ht⟩ := Fs.fileRemove_safe hrem hsafe hc hn hr
    exact hkeep files' ht fun _ => rfl
  | sync hsync =>
    exact hkeep files ((Fs.fsSync_quiet hsync).safe hsafe
      (by rw [Fs.fsSync_vol hsync]; exact hheld.tidy)) fun _ => rfl
  | «open» ho =>
    obtain ⟨opened',files',ht,hd,hnew⟩ := ho.edits hheld hn
    have hsafe' := Fs.Looks.safe hd hsafe hr
    refine ⟨opened',files',ht,ht.tidy,⟨hsafe'.stable.rooted,hsafe'.stable.solid,fun o ho hroot => ?_⟩,
      hsafe'.below,hsafe'.past⟩
    obtain ho | ho := hnew o ho
    · exact hsafe'.stable.dirs o ho hroot
    exact ho hroot

lemma Stoppable.next (hs : Stoppable s) (hc : Careful a s) (h : s.next a = some t)
    (hn : ∀ n ∈ t.fs.notes, n.Calm) (hr : Fs.Reads s.fs t.fs) : Stoppable t := by
  cases a with
  | req q => exact (next_req h).stoppable hs hc hn hr
  | mapFd i =>
    obtain ⟨pg,_,_,rfl⟩ := mapFd_eq h
    obtain ⟨opened,files,hheld,hsafe⟩ := hs
    exact ⟨opened,files,⟨hheld.tidy,fun j f hf => hheld.files j f
      ((setOpen_file s i _ (by rfl) j).symm.trans hf)⟩,hsafe⟩
  | unmapFd i =>
    obtain ⟨pg,_,_,rfl⟩ := unmapFd_eq h
    obtain ⟨opened,files,hheld,hsafe⟩ := hs
    exact ⟨opened,files,⟨hheld.tidy,fun j f hf => hheld.files j f
      ((setOpen_file s i _ (by rfl) j).symm.trans hf)⟩,hsafe⟩

/-- In careful runs the blocks of every disk the machine can stop with are owned. -/
theorem careful_disks_owned (s : Srv) (h : Reach (Boot SolidImage) next Careful s)
    (hn : ∀ n ∈ s.fs.notes, n.Calm ∧ n.Read) : ∀ d ∈ s.fs.disk :: s.fs.past, Owned d := by
  have hs : Stoppable s := by
    refine Reach.invariant (I := fun s => (∀ n ∈ s.fs.notes, n.Calm ∧ n.Read) → Stoppable s) h
      (fun s hs _ => hs.stoppable) (fun s t a ih hc ht hn => ?_) hn
    exact (ih ((next_fs ht).of_notes hn)).next hc ht (fun n h => (hn n h).1)
      (Fs.reads_of_all fun n h => (hn n h).2)
  obtain ⟨opened,files,_,hsafe⟩ := hs
  exact hsafe.owned

lemma sample_solid : SolidImage (diskOf sampleWords) := by
  have hsample : Sample (diskOf sampleWords) := fun _ _ _ => rfl
  refine ⟨hsample.owned,fun d hd hdir => ?_⟩
  obtain rfl | ⟨k,hk,rfl⟩ := hsample.isFile hd
  · have hsize : word (diskOf sampleWords) rootFile.size = 4096 := by decide +kernel
    have hblock : blockOf (diskOf sampleWords) rootFile 0 ≠ 0 := by decide +kernel
    refine ⟨by rw [hsize]; decide,fun j hj => ?_⟩
    rw [hsize,show sizeBlocks 4096 = 1 by decide] at hj
    obtain rfl : j = 0 := by omega
    exact hblock
  have hall : ∀ k < BLKFILES, word (diskOf sampleWords) (.type ⟨3,64*k⟩) ≠ FTYPE_DIR := by
    decide +kernel
  exact absurd hdir (hall k hk)

/-- `/a` gets an indirect block, and its directory is written. -/
def indirectA : List SrvAct :=
  [.req (.open pathA O_RDWR true),.req (.map 1024 40960),.req (.close 1024)]

/-- Block 5 becomes the indirect block of `/a`; its zeros are not written when the file is closed,
but its number is. -/
theorem closed_indirect_cross_links : Owned (diskOf ((5,10,3) :: sampleWords)) ∧
    ∃ s, Reachable (· = diskOf ((5,10,3) :: sampleWords)) s ∧
      (∀ n ∈ s.fs.notes, n.Calm ∧ n.Read) ∧ ¬Owned s.fs.disk := by
  refine ⟨(Sample.cons (by decide) fun _ _ _ => rfl).owned,?_⟩
  have h : (runOn (diskOf ((5,10,3) :: sampleWords)) indirectA).map (fun s =>
      decide (word s.fs.disk rootFile.type = 1 ∧ word s.fs.disk (rootFile.direct 0) = 3 ∧
        word s.fs.disk (.indirect ⟨3,0⟩) = 5 ∧ word s.fs.disk ⟨5,10⟩ = 3 ∧
        ∀ n ∈ s.fs.notes, n.Calm ∧ n.Read)) = some true := by decide +kernel
  obtain ⟨s,hs,htype,hdir,hind,hent,hn⟩ := of_map_decide h
  exact ⟨s,.runOn rfl hs,hn,
    not_owned_of_shared (k := 0) (j := 10) (by decide) (by decide) (by decide) (by decide) htype hdir
      hind hent⟩

def fileOf (s : Srv) (fileid : Word) : Option Ptr :=
  (s.openfileLookup fileid).2.bind fun i => (s.opentab i).file

lemma FileOf.eq {fileid : Word} {f : Ptr} (h : s.FileOf fileid f) : s.fileOf fileid = some f := by
  obtain ⟨i,hl,hf⟩ := h
  simp [fileOf,hl,hf]

def careful : SrvAct → Srv → Bool
  | .req (.map fileid offset),s => (s.fileOf fileid).all fun f =>
      s.fs.view.Ready f (offset.sdiv 4096).toNat
  | .req (.dirty fileid offset),s => (s.fileOf fileid).all fun f =>
      s.fs.view.Ready f (offset.sdiv 4096).toNat
  | .req (.setSize fileid n),s => (s.fileOf fileid).all fun f =>
      f ≠ rootFile ∧ s.fs.view.word f.type ≠ FTYPE_DIR ∧ (nblocksFor n).toNat ≤ NDIRECT
  | .req (.remove path),s =>
    match s.fs.fileOpen (cPath path) with
    | some (_,some f,fs) => f ≠ rootFile ∧ fs.view.word f.type ≠ FTYPE_DIR
    | _ => true
  | _,_ => true

lemma careful_of_test (a : SrvAct) (s : Srv) (h : careful a s) : Careful a s := by
  cases a with
  | mapFd | unmapFd => trivial
  | req q =>
    cases q with
    | «open» | close | sync => trivial
    | map fileid offset | dirty fileid offset =>
      intro f hf _
      simp only [careful,hf.eq,all_some] at h
      exact of_decide_eq_true h
    | setSize fileid n =>
      intro f hf
      simp only [careful,hf.eq,all_some] at h
      obtain ⟨hroot,htype,hle⟩ := of_decide_eq_true h
      exact ⟨hroot,htype,fun _ => .inl hle⟩
    | remove path =>
      intro r f fs hopen
      simp only [careful,hopen] at h
      exact of_decide_eq_true h

/-- `/a` gets a second block, is closed, cut and removed. -/
def resizeA : List SrvAct :=
  [.req (.open pathA O_RDWR true),.req (.map 1024 4096),.req (.setSize 1024 8192),
   .req (.close 1024),.req (.setSize 1024 1),.req (.remove pathA),.req .sync]

theorem careful_disks_owned_resized : ∃ s, Reach (Boot SolidImage) next Careful s ∧
    s.fs.past.length = 5 ∧ ∀ d ∈ s.fs.disk :: s.fs.past, Owned d := by
  have h : (boot (diskOf sampleWords) [] [] []).bind (fun s0 =>
      (turns (fun a s => s.next a) careful resizeA s0).map fun s =>
        decide (s.fs.past.length = 5 ∧ ∀ n ∈ s.fs.notes, n.Calm ∧ n.Read)) = some true := by
    decide +kernel
  obtain ⟨s0,h0,h⟩ := of_bind h
  obtain ⟨s,hs,hlen,hn⟩ := of_map_decide h
  have hr : Reach (Boot SolidImage) next Careful s :=
    .turns careful_of_test _ (.start ⟨_,[],[],[],sample_solid,h0⟩) hs
  exact ⟨s,hr,hlen,careful_disks_owned s hr hn⟩

end Srv

end KludgeOS
