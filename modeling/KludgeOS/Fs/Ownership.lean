import KludgeOS.Fs.Coherence
import KludgeOS.Fs.TreeEdits

/-!
Block ownership over whole runs of the file server.
-/

namespace KludgeOS
open Mem Ptr Option


namespace Fs

variable {s t : Fs} {b : Nat} {w : Word} {r : Int}

/-! The server's picture of the disk when it starts. -/

lemma blockIsFree_view {x : Bool} (h : s.blockIsFree w = some x) (hw : w.toNat < s.view.nblocks) :
    s.view.isFree w.toNat = x := by
  obtain ⟨n,hn,h⟩ := of_bind h
  have hnw := (get_view hn).2
  split at h
  · rename_i hle
    have hle : n.toNat ≤ w.toNat := hle
    rw [Mem.nblocks,hnw] at hw
    omega
  obtain ⟨y,hy,h⟩ := of_bind h
  rw [isFree,(get_view hy).2]
  exact Option.some.inj h

lemma diskaddr_view (h : s.diskaddr w = some b) : b = w.toNat ∧ b < s.view.nblocks := by
  obtain ⟨rfl,n,hn,hlt⟩ := diskaddr_eq h
  rw [Mem.nblocks,(get_view hn).2]
  exact ⟨rfl,hlt⟩

lemma Loaded.cached_mono (h : Loaded s b r t) {x : Nat} (hx : s.cache x ≠ none) :
    t.cache x ≠ none := by
  cases h with
  | cached _ | noMem _ _ => exact hx
  | unread _ _ hb | done _ hb =>
    have hne : x ≠ b := fun he => hx (he ▸ hb)
    simpa [note,setCache,hne] using hx

lemma bitmapRounds_view (n : Nat) : ∀ {s : Fs} {i : Nat}, s.bitmapRounds n i = some t →
    i+n < 2^31 → t.view = s.view ∧ (∀ x, s.cache x ≠ none → t.cache x ≠ none) ∧ ∀ k, i ≤ k →
    k < i+n → t.cache (2+k) ≠ none ∧ 2+k < t.view.nblocks ∧ t.view.isFree (2+k) = false := by
  induction n with
  | zero =>
    intro s i h _
    obtain rfl := some.inj h
    exact ⟨rfl,fun _ h => h,by omega⟩
  | succ n ih =>
    intro s i h hlt
    obtain ⟨b,hb,h1⟩ := of_bind h
    obtain ⟨free,_,h2⟩ := of_bind h1
    have hi : (BitVec.ofNat 32 (2+i)).toNat = 2+i := by
      rw [BitVec.toNat_ofNat]
      omega
    split at h2
    · cases h2
    obtain ⟨⟨r,s1⟩,hl,h3⟩ := of_bind h2
    simp only at h3
    split at h3
    · cases h3
    rename_i hr
    obtain ⟨free',hf,h4⟩ := of_bind h3
    split at h4
    · cases h4
    rename_i hfree
    have hl := loadBlock_loaded hl
    obtain ⟨hview,hc⟩ := hl.success hr
    obtain ⟨rfl,hbn⟩ := diskaddr_view hb
    rw [hi] at hbn hc hl
    obtain ⟨hview',hmono,hrest⟩ := ih h4 (by omega)
    refine ⟨hview'.trans hview,fun x hx => hmono x (hl.cached_mono hx),fun k hk hkn => ?_⟩
    by_cases hki : k = i
    · subst hki
      refine ⟨hmono _ hc,by rw [hview',hview]; exact hbn,?_⟩
      have := blockIsFree_view hf (by rw [hi,hview]; exact hbn)
      rw [hi] at this
      rw [hview',this]
      simpa using hfree
    exact hrest k (by omega) (by omega)

lemma fsInit_view (h : s.fsInit = some t) : t.view = s.view ∧
    (∀ b < t.view.nreserved, t.view.isFree b = false ∧ (b ≠ 0 → t.cache b ≠ none)) ∧
    t.view.nreserved ≤ t.view.nblocks ∧ t.view.nblocks ≤ DISKSIZE/BLKSIZE := by
  obtain ⟨s1,h1,h⟩ := of_bind h
  obtain ⟨⟨r,s2⟩,hl,h1⟩ := of_bind h1
  have hl := loadBlock_loaded hl
  simp only at h1
  split at h1
  · cases h1
  rename_i hr
  obtain ⟨m,_,h1⟩ := of_bind h1
  obtain ⟨n,hn,h1⟩ := of_bind h1
  split at h1
  · cases h1
  rename_i hmagic
  cases h1
  obtain ⟨hview1,hc1⟩ := hl.success hr
  obtain ⟨n',hn',h⟩ := of_bind h
  obtain rfl := Option.mem_unique hn hn'
  obtain ⟨s3,hb,h⟩ := of_bind h
  obtain ⟨f0,hf0,h⟩ := of_bind h
  split at h
  · cases h
  rename_i h0
  obtain ⟨f1,hf1,h⟩ := of_bind h
  split at h
  · cases h
  rename_i h1
  split at h
  · cases h
  rename_i hn0
  obtain rfl := Option.some.inj h
  have hnle : n.toNat ≤ DISKSIZE/BLKSIZE := Nat.le_of_not_lt fun h => hmagic (.inr h)
  have hds : DISKSIZE/BLKSIZE = 786432 := by decide
  rw [show BLKBITSIZE = 32768 from rfl] at hb
  obtain ⟨hview,hmono,hrest⟩ := bitmapRounds_view _ hb (by omega)
  have hnb : s3.view.nblocks = n.toNat := by rw [hview,Mem.nblocks,(get_view hn).2]
  have hpos : 0 < n.toNat := Nat.pos_of_ne_zero fun h => hn0 (BitVec.eq_of_toNat_eq h)
  -- The last bitmap block is a block of the disk.
  have hlast := hrest ((n.toNat-1)/32768) (Nat.zero_le _) (by omega)
  have hfits : s3.view.nreserved ≤ s3.view.nblocks := by
    have := hlast.2.1
    simp only [nreserved]
    omega
  refine ⟨hview.trans hview1,fun b hb' => ?_,hfits,by rw [hnb]; exact hnle⟩
  have hbn : b < s3.view.nblocks := lt_of_lt_of_le hb' hfits
  simp only [nreserved,hnb] at hb'
  by_cases hb2 : 2 ≤ b
  · obtain ⟨hc,_,hu⟩ := hrest (b-2) (Nat.zero_le _) (by omega)
    rw [show 2+(b-2) = b by omega] at hc hu
    exact ⟨hu,fun _ => hc⟩
  obtain rfl | rfl : b = 0 ∨ b = 1 := by omega
  · have := blockIsFree_view hf0 hbn
    exact ⟨by simpa using this.trans (by simpa using h0),fun h => absurd rfl h⟩
  have := blockIsFree_view hf1 hbn
  exact ⟨by simpa using this.trans (by simpa using h1),fun _ => hmono 1 hc1⟩

end Fs

namespace Srv
open Fs (Makes Steps Looks Grows Resizes IsLoad At FoundFile)
open Interleaving

variable {s t : Srv} {a : SrvAct} {q : Req} {i : Nat} {f : Ptr} {opened files : Set Ptr}

structure Held (s : Srv) (opened files : Set Ptr) : Prop where
  tidy : Tidy opened (s.fs.vol files)
  files : ∀ i f, (s.opentab i).file = some f → f ∈ opened

def Edits (s : Srv) : Req → Vol → FsEdit → Prop
  | .open _ _ _ => Looks
  | .map fileid offset => fun u e => ∃ i f, s.openfileLookup fileid = (0,some i) ∧
      (s.opentab i).file = some f ∧ Grows f (offset.sdiv 4096).toNat u e
  | .dirty fileid offset => fun u e => ∃ i f, s.openfileLookup fileid = (0,some i) ∧
      (s.opentab i).file = some f ∧ Grows f (offset.sdiv 4096).toNat u e
  | .setSize fileid n => fun u e => ∃ i f, s.openfileLookup fileid = (0,some i) ∧
      (s.opentab i).file = some f ∧ Resizes f n u e
  | .remove path => fun u e => Looks u e ∨ ∃ r f fs,
      s.fs.fileOpen (cPath path) = some (r,some f,fs) ∧ Resizes f 0 u e
  | .close _ => IsLoad
  | .sync => IsLoad

lemma Held.at (h : Held s opened files) (hf : (s.opentab i).file = some f) :
    At opened (s.fs.vol files) f := by
  obtain ⟨hm,hc,_⟩ := h.tidy.held f (h.files i f hf)
  exact ⟨h.tidy,hm,hc⟩

variable {files' : Set Ptr} {r : Int} {slot : Option Nat} {omode : Word} {takes : Bool}
  {rep : Reply} {image : (Nat → Nat → Word) → Prop} {I : Vol → Prop}

lemma Held.same {P : Vol → FsEdit → Prop} (h : Held s opened files)
    (hd : Makes opened P s.fs files t.fs files')
    (htab : ∀ i, (t.opentab i).file = (s.opentab i).file) : Held t opened files' where
  tidy := hd.tidy h.tidy
  files i f hf := h.files i f (by rw [← htab]; exact hf)

lemma Held.open (h : Held s opened files) (hf : FoundFile opened t.fs files' f)
    (htab : ∀ i g, (t.opentab i).file = some g → (s.opentab i).file = some g ∨ g = f) :
    Held t (insert f opened) files' where
  tidy :=
    { hf.at_.tidy with
      held := by
        rintro g (rfl | hg)
        · exact ⟨hf.at_.mem,hf.at_.cached,hf.dir⟩
        exact hf.at_.tidy.held g hg
      kept := fun g hg hr => (hf.at_.tidy.kept g hg hr).imp_right fun ⟨o,ho,h⟩ =>
        ⟨o,Set.mem_insert_of_mem f ho,h⟩ }
  files i g hg := by
    obtain hg | rfl := htab i g hg
    · exact Set.mem_insert_of_mem f (h.files i g hg)
    exact Set.mem_insert g opened

lemma setOpen_file (s : Srv) (i : Nat) (o : OpenFile) (h : o.file = (s.opentab i).file) (j : Nat) :
    ((s.setOpen i o).opentab j).file = (s.opentab j).file := by
  by_cases hji : j = i
  · subst hji
    rw [setOpen_self,h]
  rw [setOpen_ne s o hji]

lemma openfileAlloc_vol (h : s.openfileAlloc = (r,slot,t)) (files : Set Ptr)
    : t.fs.vol files = s.fs.vol files ∧ ∀ i, (t.opentab i).file = (s.opentab i).file := by
  cases openfileAlloc_spec h with
  | full => exact ⟨rfl,fun _ => rfl⟩
  | noMem chance => exact ⟨rfl,fun _ => rfl⟩
  | done chance _ _ =>
    exact ⟨rfl,fun j => setOpen_file (s.withChance chance) _ _ (claimed_file _) j⟩

lemma finishOpen_file (h : s.finishOpen i f omode takes = some (rep,t)) : t.fs = s.fs ∧
      ∀ j g, (t.opentab j).file = some g → (s.opentab j).file = some g ∨ g = f := by
  obtain ⟨pg,_,_,rfl⟩ := finishOpen_eq h
  refine ⟨rfl,fun j g hg => ?_⟩
  by_cases hji : j = i
  · subst hji
    rw [setOpen_self] at hg
    exact .inr (some.inj hg).symm
  rw [setOpen_ne s _ hji] at hg
  exact .inl hg

lemma openfileAlloc_unwritten (h : s.openfileAlloc = (r,slot,t)) : Fs.Unwritten s.fs t.fs := by
  cases openfileAlloc_spec h with
  | full | noMem chance | done chance _ _ => exact ⟨rfl,rfl⟩

lemma Opened.edits {path : List Byte} (h : Opened s path omode takes rep t)
    (hs : Held s opened files) (hn : ∀ n ∈ t.fs.notes, n.Calm) : ∃ opened' files',
    Held t opened' files' ∧ Steps opened Looks s.fs files t.fs files' ∧ ∀ o ∈ opened', o ∈ opened ∨
    (o ≠ rootFile → Fs.Within (t.fs.vol files') o (t.fs.view.word o.dir)) := by
  cases h with
  | refused ha _ =>
    obtain ⟨hvol,htab⟩ := openfileAlloc_vol ha files
    have hd : Steps opened Looks s.fs files t.fs files :=
      .of_eq (openfileAlloc_ticks ha) hvol (openfileAlloc_unwritten ha)
    exact ⟨opened,files,hs.same hd.makes htab,hd,fun _ => .inl⟩
  | @missed _ _ _ s1 fs ha _ hopen =>
    obtain ⟨hvol,htab⟩ := openfileAlloc_vol ha files
    obtain ⟨files',hd,_,_⟩ := Fs.fileOpen_edits hopen (hvol ▸ hs.tidy) hn
    have hd := (Steps.of_eq (openfileAlloc_ticks ha) hvol (openfileAlloc_unwritten ha)).trans hd
    exact ⟨opened,files',hs.same (t := {s1 with fs := fs}) hd.makes htab,hd,fun _ => .inl⟩
  | @opened _ _ i f s1 _ fs _ ha _ hopen hfin =>
    obtain ⟨hvol,htab⟩ := openfileAlloc_vol ha files
    obtain ⟨hfs,hfile⟩ := finishOpen_file hfin
    rw [hfs] at hn
    obtain ⟨files',hd,_,hfound⟩ := Fs.fileOpen_edits hopen (hvol ▸ hs.tidy) hn
    have hd := (Steps.of_eq (openfileAlloc_ticks ha) hvol (openfileAlloc_unwritten ha)).trans hd
    refine ⟨insert f opened,files',hs.open (by rw [hfs]; exact hfound f rfl) fun j g hg => ?_,
      by rw [hfs]; exact hd,?_⟩
    · obtain hg | hg := hfile j g hg
      · exact .inl ((htab j).symm.trans hg)
      exact .inr hg
    rintro o (rfl | ho)
    · rw [hfs]
      exact .inr (hfound o rfl).within
    exact .inl ho
  | @stray _ _ i f s1 _ fs _ ha hopen hfin =>
    obtain ⟨hvol,htab⟩ := openfileAlloc_vol ha files
    obtain ⟨hfs,hfile⟩ := finishOpen_file hfin
    rw [hfs] at hn
    have hn' : ∀ n ∈ fs.notes, n.Calm := fun n h => hn n (List.mem_cons_of_mem _ h)
    obtain ⟨files',hd,_,hfound⟩ := Fs.fileOpen_edits hopen (hvol ▸ hs.tidy) hn'
    have hd := (Steps.of_eq (openfileAlloc_ticks ha) hvol (openfileAlloc_unwritten ha)).trans hd
    have hf := hfound f rfl
    refine ⟨insert f opened,files',hs.open (by rw [hfs]; exact ⟨⟨hf.at_.tidy,hf.at_.mem,
      hf.at_.cached⟩,hf.dir,hf.within⟩) fun j g hg => ?_,
      by rw [hfs]; exact hd.trans (.of_eq (.single (.stray fs)) rfl ⟨rfl,rfl⟩),?_⟩
    · obtain hg | hg := hfile j g hg
      · exact .inl ((htab j).symm.trans hg)
      exact .inr hg
    rintro o (rfl | ho)
    · rw [hfs]
      exact .inr hf.within
    exact .inl ho

lemma Served.edits (h : Served s q t) (hs : Held s opened files) (hn : ∀ n ∈ t.fs.notes, n.Calm) :
    ∃ opened' files', Held t opened' files' ∧ Makes opened (s.Edits q) s.fs files t.fs files' := by
  cases h with
  | bad _ => exact ⟨opened,files,hs,.refl _ _⟩
  | @map i b f r fs fileid offset hl hf hg =>
    obtain ⟨files',hd,_,_⟩ := Fs.fileGetBlock_edits hg (hs.at hf).tidy (hs.at hf).mem hn
    have hd := hd.makes.mono (Q := s.Edits (.map fileid offset)) fun u e he => ⟨i,f,hl,hf,he⟩
    exact ⟨opened,files',hs.same (t := {s with fs := fs}) hd fun _ => rfl,hd⟩
  | @dirty i f r fs fileid offset hl hf hg =>
    obtain ⟨files',hd,_⟩ := Fs.fileDirty_edits hg (hs.at hf).tidy (hs.at hf).mem hn
    have hd := hd.makes.mono (Q := s.Edits (.dirty fileid offset)) fun u e he => ⟨i,f,hl,hf,he⟩
    exact ⟨opened,files',hs.same (t := {s with fs := fs}) hd fun _ => rfl,hd⟩
  | @setSize i f pg fs fileid size hl hf hg hpg =>
    obtain ⟨files',hd,_⟩ := Fs.fileSetSize_edits hg (hs.at hf) hn
    have hd := hd.mono (Q := s.Edits (.setSize fileid size)) fun u e he => ⟨i,f,hl,hf,he⟩
    refine ⟨opened,files',hs.same hd fun j => ?_,hd⟩
    exact setOpen_file {s with fs := fs} i (resized (s.opentab i) pg size) rfl j
  | @close i f fs fileid hl hf hc =>
    have hd : Makes opened IsLoad s.fs files fs files := Fs.fileClose_loads hc files
    exact ⟨opened,files,hs.same (t := {s with fs := fs}) hd fun _ => rfl,hd⟩
  | @remove r fs path hr =>
    obtain ⟨r1,o,fs1,files1,hopen,hd1,hcase⟩ := Fs.fileRemove_edits hr hs.tidy hn
    have hd1 := hd1.makes.mono (Q := s.Edits (.remove path)) fun u e he => .inl he
    obtain ⟨rfl,rfl⟩ | ⟨g,fs2,files',rfl,_,_,_,hclear,_,hd2,_⟩ := hcase
    · exact ⟨opened,files1,hs.same (t := {s with fs := fs}) hd1 fun _ => rfl,hd1⟩
    have hd2 := ((hclear.mono Fs.Clears.resizes).makes.trans hd2).mono (Q := s.Edits (.remove path)) fun u e he => .inr ⟨r1,g,fs1,hopen,he⟩
    exact ⟨opened,files',hs.same (t := {s with fs := fs}) (hd1.trans hd2) fun _ => rfl,
      hd1.trans hd2⟩
  | @sync fs hsync =>
    have hd : Makes opened IsLoad s.fs files fs files :=
      .of_eq (Fs.fsSync_ticks hsync) (Fs.fsSync_vol hsync files)
    exact ⟨opened,files,hs.same (t := {s with fs := fs}) hd fun _ => rfl,hd⟩
  | @«open» path omode takes rep _ ho => 
    obtain ⟨opened',files',ht,hd,_⟩ := ho.edits hs hn
    exact ⟨opened',files',ht,hd.makes⟩

lemma Held.next (hs : Held s opened files) (h : s.next a = some t)
    (hn : ∀ n ∈ t.fs.notes, n.Calm) : ∃ opened' files', Held t opened' files' ∧
    Makes opened (fun u e => ∃ q, a = .req q ∧ s.Edits q u e) s.fs files t.fs files' := by
  cases a with
  | req q =>
    obtain ⟨opened',files',ht,hd⟩ := (next_req h).edits hs hn
    exact ⟨opened',files',ht,hd.mono fun u e he => ⟨q,rfl,he⟩⟩
  | mapFd i =>
    obtain ⟨pg,_,_,rfl⟩ := mapFd_eq h
    exact ⟨opened,files,⟨hs.tidy,fun j f hf => hs.files j f
      ((setOpen_file s i _ (by rfl) j).symm.trans hf)⟩,.refl _ _⟩
  | unmapFd i =>
    obtain ⟨pg,_,_,rfl⟩ := unmapFd_eq h
    exact ⟨opened,files,⟨hs.tidy,fun j f hf => hs.files j f
      ((setOpen_file s i _ (by rfl) j).symm.trans hf)⟩,.refl _ _⟩

lemma Boot.held (h : Boot image s) (himage : ∀ disk, image disk → Owned disk) :
    (∃ disk, image disk ∧ s.fs.view = disk) ∧ Held s ∅ {f | IsFile s.fs.view f} := by
  obtain ⟨disk,chance,junk,strays,hdisk,h⟩ := h
  obtain ⟨fs,hfs,h⟩ := of_bind h
  cases h
  obtain ⟨hview,hsys,hfits⟩ := Fs.fsInit_view hfs
  have hview : fs.view = disk := hview
  refine ⟨⟨disk,hdisk,hview⟩,?_,fun i f hf => ?_⟩
  · have ho : Owned fs.view := by
      rw [hview]
      exact himage disk hdisk
    exact ho.tidy _ hsys hfits
  simp [OpenFile.init] at hf

lemma Held.keep (hs : Held s opened files) (hI : I (s.fs.vol files)) (h : s.next a = some t)
    (hn : ∀ n ∈ t.fs.notes, n.Calm)
    (hstep : ∀ q u e, a = .req q → Tidy opened u → I u → e.Ok u → s.Edits q u e →
      I (e.act opened u)) : ∃ opened' files', Held t opened' files' ∧ I (t.fs.vol files') := by
  obtain ⟨opened',files',ht,hd⟩ := hs.next h hn
  refine ⟨opened',files',ht,(hd.does.induct hs.tidy hI ?_).2.1⟩
  rintro u e hu hIu hok ⟨q,rfl,he⟩
  exact hstep q u e rfl hu hIu hok he

lemma run_held {ok : SrvAct → Srv → Prop} (h : Reach (Boot image) Srv.next ok s)
    (hn : ∀ n ∈ s.fs.notes, n.Calm)
    (himage : ∀ disk, image disk → Owned disk ∧ ∀ cached, I ⟨disk,cached,{f | IsFile disk f}⟩)
    (hstep : ∀ s t a opened files, Held s opened files → I (s.fs.vol files) → ok a s →
      s.next a = some t → (∀ n ∈ t.fs.notes, n.Calm) →
      ∃ opened' files', Held t opened' files' ∧ I (t.fs.vol files')) :
    ∃ opened files, Held s opened files ∧ I (s.fs.vol files) := by
  refine Reach.invariant (I := fun s => (∀ n ∈ s.fs.notes, n.Calm) →
    ∃ opened files, Held s opened files ∧ I (s.fs.vol files)) h ?_ ?_ hn
  · intro s hs _
    obtain ⟨⟨disk,hdisk,hview⟩,hheld⟩ := hs.held fun d hd => (himage d hd).1
    refine ⟨_,_,hheld,?_⟩
    have := (himage disk hdisk).2 fun b => s.fs.cache b ≠ none
    rw [← hview] at this
    exact this
  intro s t a hs hok ht hn
  obtain ⟨opened,files,hheld,hI⟩ := hs ((next_fs ht).of_notes hn)
  exact hstep s t a opened files hheld hI hok ht hn

lemma Reachable.owned (h : Reachable Owned s) (hn : ∀ n ∈ s.fs.notes, n.Calm) :
    Owned s.fs.view := by
  obtain ⟨opened,files,hs,_⟩ := run_held (I := fun _ => True) h hn (fun _ h => ⟨h,fun _ => trivial⟩)
    fun s t a opened files hs _ _ ht hn =>
      hs.keep (I := fun _ => True) trivial ht hn fun _ _ _ _ _ _ _ _ => trivial
  exact hs.tidy.owned

/-- In calm runs the slots of the files own their blocks. -/
theorem owned_of_calm (s : Srv) (h : Reachable Owned s) (hn : ∀ n ∈ s.fs.notes, n.Calm) :
    Owned s.fs.view := h.owned hn

end Srv

/-! The sample disk. -/

def Sample (m : Mem) : Prop := ∀ b < 4, ∀ i, m b i = diskOf sampleWords b i

namespace Sample

variable {m : Mem} {f p : Ptr} {pl : Place}

lemma word (h : Sample m) (hp : p.blk < 4) : m.word p = (word (diskOf sampleWords) p) :=
  h p.blk hp p.idx

lemma root_slot (h : Sample m) (hp : BlockSlot m rootFile pl p) (h0 : m.word p ≠ 0) :
    p = ⟨1,36⟩ := by
  cases hp with
  | @direct j hj =>
    have hall : ∀ j < NDIRECT, (rootFile.direct j).blk < 4 ∧
        (Mem.word (diskOf sampleWords) (rootFile.direct j) = 0 ∨ rootFile.direct j = ⟨1,36⟩) := by
      decide +kernel
    obtain ⟨hb,hw | he⟩ := hall j hj
    · exact absurd ((h.word hb).trans hw) h0
    exact he
  | indirect => exact absurd ((h.word (by decide)).trans (by decide +kernel)) h0
  | entry hi _ => exact absurd ((h.word (by decide)).trans (by decide +kernel)) hi

lemma isFile (h : Sample m) (hf : IsFile m f) : f = rootFile ∨ ∃ k < BLKFILES, f = ⟨3,64*k⟩ := by
  induction hf with
  | root => exact .inl rfl
  | @entry d p pl k _ hdir hp _ h0 hk ih =>
    obtain rfl | ⟨l,hl,rfl⟩ := ih
    · obtain rfl := h.root_slot hp h0
      have hw : m.word ⟨1,36⟩ = 3 := (h.word (by decide)).trans (by decide +kernel)
      exact .inr ⟨k,hk,by rw [hw]; rfl⟩
    have hall : ∀ l < BLKFILES, (type ⟨3,64*l⟩).blk < 4 ∧
        Mem.word (diskOf sampleWords) (type ⟨3,64*l⟩) ≠ FTYPE_DIR := by decide +kernel
    obtain ⟨hb,hw⟩ := hall l hl
    exact absurd ((h.word hb).symm.trans hdir) hw

lemma slot (h : Sample m) (hf : IsFile m f) (hp : BlockSlot m f pl p) (h0 : m.word p ≠ 0) :
    f = rootFile ∧ p = ⟨1,36⟩ ∧ m.word p = 3 ∨ f = ⟨3,0⟩ ∧ p = ⟨3,34⟩ ∧ m.word p = 4 := by
  obtain rfl | ⟨k,hk,rfl⟩ := h.isFile hf
  · obtain rfl := h.root_slot hp h0
    exact .inl ⟨rfl,rfl,(h.word (by decide)).trans (by decide +kernel)⟩
  have hind : ∀ k < BLKFILES, (Ptr.indirect ⟨3,64*k⟩).blk < 4 ∧
      Mem.word (diskOf sampleWords) (Ptr.indirect ⟨3,64*k⟩) = 0 := by decide +kernel
  obtain ⟨hb,hw⟩ := hind k hk
  cases hp with
  | @direct j hj =>
    have hall : ∀ k < BLKFILES, ∀ j < NDIRECT, (direct ⟨3,64*k⟩ j).blk < 4 ∧
        (Mem.word (diskOf sampleWords) (direct ⟨3,64*k⟩ j) = 0 ∨ k = 0 ∧
          direct ⟨3,64*k⟩ j = ⟨3,34⟩) := by decide +kernel
    obtain ⟨hb,hw | ⟨rfl,he⟩⟩ := hall k hk j hj
    · exact absurd ((h.word hb).trans hw) h0
    rw [he]
    exact .inr ⟨rfl,rfl,(h.word (by decide)).trans (by decide +kernel)⟩
  | indirect => exact absurd ((h.word hb).trans hw) h0
  | entry hi _ => exact absurd ((h.word hb).trans hw) hi

lemma owned (h : Sample m) : Owned m where
  good f pl p hf hp h0 := by
    have hn : m.nblocks = 64 := by
      rw [Mem.nblocks,h.word (by decide)]
      decide +kernel
    have hfree : ∀ b < 32, m.isFree b = (Mem.word (diskOf sampleWords) ⟨2,0⟩).getLsbD b := by
      intro b hb
      rw [isFree,Fs.bitmapAt,show b/32 = 0 by omega,h.word (by simp),Nat.mod_eq_of_lt hb]
    obtain ⟨_,_,hw⟩ | ⟨_,_,hw⟩ := h.slot hf hp h0
    · rw [hw]
      exact ⟨by simp [Usable,nreserved,hn],(hfree 3 (by decide)).trans (by decide +kernel)⟩
    rw [hw]
    exact ⟨by simp [Usable,nreserved,hn],(hfree 4 (by decide)).trans (by decide +kernel)⟩
  inj f g pl ql p q hf hg hp hq h0 he := by
    obtain ⟨_,rfl,hw⟩ | ⟨_,rfl,hw⟩ := h.slot hf hp h0 <;>
      obtain ⟨_,rfl,hw'⟩ | ⟨_,rfl,hw'⟩ := h.slot hg hq (he ▸ h0)
    · rfl
    · rw [hw,hw'] at he
      simp at he
    · rw [hw,hw'] at he
      simp at he
    rfl

lemma cons {b i : Nat} {w : Word} {l : List (Nat × Nat × Word)} (hb : 4 ≤ b)
    (h : Sample (diskOf l)) : Sample (diskOf ((b,i,w) :: l)) := by
  intro c hc j
  rw [← h c hc j]
  have hne : (b == c) = false := by
    rw [beq_eq_false_iff_ne]
    omega
  simp [diskOf,hne]

end Sample

instance (n : Note) : Decidable n.Calm :=
  match n with
  | .taken _ none _ => isTrue trivial
  | .taken _ (some pg) _ => inferInstanceAs (Decidable (Zero pg.words))
  | .unread _ _ _ | .stray => isTrue trivial
  | .wild => isFalse id

namespace Srv

/-- `/a` is read and removed, and its block becomes the indirect block of `/b`. -/
def crossLink : List SrvAct :=
  [.req (.open pathA O_RDWR true),.req (.map 1024 0),.req (.remove pathA),
   .req (.open pathB O_RDWR true),.req (.setSize 1025 49152),.req (.map 1025 40960)]

lemma not_owned_of_shared {m : Mem} {k j : Nat} {w : Word} (hk : k < BLKFILES) (hj : j < NINDIRECT)
    (hw : w ≠ 0) (hne : rootFile.direct 0 ≠ ⟨w.toNat,j⟩) (htype : m.word rootFile.type = 1)
    (hdir : m.word (rootFile.direct 0) = 3) (hind : m.word (.indirect ⟨3,64*k⟩) = w)
    (hent : m.word ⟨w.toNat,j⟩ = 3) : ¬Owned m := by
  intro ho
  have hroot : BlockSlot m rootFile (.direct 0) (rootFile.direct 0) := .direct (by decide)
  have hf : IsFile m ⟨3,64*k⟩ := by
    have := IsFile.entry .root htype hroot trivial (by rw [hdir]; decide) hk
    rwa [hdir] at this
  have hslot : BlockSlot m ⟨3,64*k⟩ (.entry j) ⟨w.toNat,j⟩ := by
    subst hind
    exact .entry hw hj
  exact hne (ho.inj _ _ _ _ _ _ .root hf hroot hslot (by rw [hdir]; decide) (by rw [hdir,hent]))

/-- The block of `/a` has the number 3 in word 11. As an indirect block it makes the block of the
root directory a block of `/b`. -/
theorem removed_block_cross_links : Owned (diskOf ((4,11,3) :: sampleWords)) ∧
    ∃ s, Reachable (· = diskOf ((4,11,3) :: sampleWords)) s ∧ ¬Owned s.fs.view := by
  refine ⟨(Sample.cons (by decide) fun _ _ _ => rfl).owned,?_⟩
  have h : (runOn (diskOf ((4,11,3) :: sampleWords)) crossLink).map (fun s =>
      decide (s.fs.view.word rootFile.type = 1 ∧ s.fs.view.word (rootFile.direct 0) = 3 ∧
        s.fs.view.word (.indirect ⟨3,64⟩) = 4 ∧ s.fs.view.word ⟨4,11⟩ = 3)) = some true := by
    decide +kernel
  obtain ⟨s,hs,htype,hdir,hind,hent⟩ := of_map_decide h
  exact ⟨s,.runOn rfl hs,
    not_owned_of_shared (k := 1) (j := 11) (by decide) (by decide) (by decide) (by decide) htype hdir
      hind hent⟩

theorem owned_of_calm_extended : ∃ s, Reachable Owned s ∧ s.fs.notes ≠ [] ∧ Owned s.fs.view := by
  have h : (runOn (diskOf sampleWords) extendA).map (fun s =>
      decide (s.fs.notes.length = 1 ∧ ∀ n ∈ s.fs.notes, n.Calm)) = some true := by decide +kernel
  obtain ⟨s,hs,hlen,hn⟩ := of_map_decide h
  have hr : Reachable Owned s := .runOn (Sample.owned fun _ _ _ => rfl) hs
  exact ⟨s,hr,by intro h0; simp [h0] at hlen,owned_of_calm s hr hn⟩

end Srv

end KludgeOS
