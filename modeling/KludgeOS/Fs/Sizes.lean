import KludgeOS.Fs.NewBlocks

/-!
The sizes of files.
-/

namespace KludgeOS
open Option Mem

def LegalSize (n : Word) : Prop := 0 ≤ n.toInt ∧ n.toInt ≤ MAXFILESIZE

lemma legalSize_iff (n : Word) : LegalSize n ↔ n.toNat ≤ MAXFILESIZE := by
  have hmax : MAXFILESIZE = 4194304 := rfl
  have := n.isLt
  rw [LegalSize,BitVec.toInt_eq_toNat_cond]
  split <;> omega

instance (n : Word) : Decidable (LegalSize n) := decidable_of_iff _ (legalSize_iff n).symm

structure Legal (m : Mem) (f : Ptr) : Prop where
  size : LegalSize (m.word f.size)
  dir : m.word f.type = FTYPE_DIR → (m.word f.size).toNat%BLKSIZE = 0

variable {m : Mem}

lemma legal_of_gone {f : Ptr} (h : ∀ i < 64, m.word (f.off i) = 0) : Legal m f := by
  have hs : m.word f.size = 0 := h 32 (by decide)
  refine ⟨?_,fun _ => ?_⟩
  · rw [hs]
    decide
  rw [hs]
  rfl

namespace Tidy

variable {opened : Set Ptr} {v : Vol} {f : Ptr} {e : FsEdit}

lemma size_act (h : Tidy opened v) (hok : e.Ok v) (hf : f ∈ (e.act opened v).files) : (∀ i < 64,
    (e.act opened v).mem.word (f.off i) = 0) ∨ f ∈ v.files ∧ (e.act opened v).mem.word f.type =
    v.mem.word f.type ∧ ((e.act opened v).mem.word f.size = v.mem.word f.size ∧
    (∀ x, e ≠ .field f 32 x) ∨ ∃ x, e = .field f 32 x ∧ (e.act opened v).mem.word f.size = x) := by
  by_cases hfv : f ∈ v.files
  · have htype : ∀ w, e ≠ .field f 33 w := by
      rintro w rfl
      have := hok.2
      omega
    obtain ht | hgone := h.kept_or_gone hok hfv (.inl (by decide)) htype
    · by_cases hset : ∀ x, e ≠ .field f 32 x
      · obtain hs | hgone := h.kept_or_gone hok hfv (.inl (by decide)) hset
        · exact .inr ⟨hfv,ht,.inl ⟨hs,hset⟩⟩
        exact .inl hgone
      push Not at hset
      obtain ⟨x,rfl⟩ := hset
      exact .inr ⟨hfv,ht,.inr ⟨x,rfl,word_put_self _ _ _⟩⟩
    exact .inl hgone
  -- Only hanging a block of a directory adds files.
  have hhang : ¬∀ g pl p b, e ≠ .hang g pl p b := fun he => hfv (mem_of_act hf he)
  push Not at hhang
  obtain ⟨g,pl,p,b,rfl⟩ := hhang
  obtain hf | ⟨_,_,hrec⟩ := hf
  · exact absurd hf hfv
  obtain ⟨hg,hp,_,hv⟩ := hok
  exact .inl fun i hi => h.hang_record hg hp hv hrec hi

lemma legal_act (h : Tidy opened v) (hv : ∀ f ∈ v.files, Legal v.mem f)
    (hok : e.Ok v) (hset : ∀ f x, e = .field f 32 x → LegalSize x ∧ (v.mem.word f.type = FTYPE_DIR →
    x.toNat%BLKSIZE = 0)) : ∀ f ∈ (e.act opened v).files, Legal (e.act opened v).mem f := by
  intro f hf
  obtain hgone | ⟨hfv,ht,⟨hs,_⟩ | ⟨x,he,hs⟩⟩ := h.size_act hok hf
  · exact legal_of_gone hgone
  · exact ⟨by rw [hs]; exact (hv f hfv).size,by rw [hs,ht]; exact (hv f hfv).dir⟩
  obtain ⟨hx,hdir⟩ := hset f x he
  exact ⟨by rw [hs]; exact hx,by rw [hs,ht]; exact hdir⟩

lemma opened_act (h : Tidy opened v) (hok : e.Ok v) (hf : f ∈ opened) {i : Nat}
    (hi : i < 34 ∨ i = 45) (he : ∀ w, e ≠ .field f i w) :
    (e.act opened v).mem.word (f.off i) = v.mem.word (f.off i) := by
  obtain ⟨hm,hc,_⟩ := h.held f hf
  exact h.act_off hok hm hc hi he

end Tidy

namespace Srv
open Fs (Looks)
open Interleaving

variable {s t : Srv} {a : SrvAct} {f : Ptr} {opened files : Set Ptr}

def FileOf (s : Srv) (fileid : Word) (f : Ptr) : Prop :=
  ∃ i, s.openfileLookup fileid = (0,some i) ∧ (s.opentab i).file = some f

lemma FileOf.unique {fileid : Word} {g : Ptr} (h : s.FileOf fileid f) (h' : s.FileOf fileid g) :
    f = g := by
  obtain ⟨i,hl,hf⟩ := h
  obtain ⟨j,hl',hg⟩ := h'
  obtain rfl : i = j := by simpa using hl.symm.trans hl'
  exact mem_unique hf hg

lemma Edits.sets {q : Req} {u : Vol} {x : Word} (h : s.Edits q u (.field f 32 x)) :
    x = 0 ∧ (∃ path r fs, q = .remove path ∧ s.fs.fileOpen (cPath path) = some (r,some f,fs)) ∨
      ∃ fileid, q = .setSize fileid x ∧ s.FileOf fileid f := by
  cases q with
  | «open» path omode takes => exact absurd h (by simp [Edits,Looks])
  | map fileid offset | dirty fileid offset =>
    obtain ⟨_,_,_,_,h⟩ := h
    exact absurd h id
  | close fileid | sync => exact absurd h id
  | setSize fileid n =>
    obtain ⟨i,g,hl,hf,rfl,h0 | ⟨_,rfl,_⟩⟩ := h
    · omega
    exact .inr ⟨fileid,rfl,i,hl,hf⟩
  | remove path =>
    obtain h | ⟨r,g,fs,hopen,rfl,h0 | ⟨_,rfl,_⟩⟩ := h
    · exact absurd h (by simp [Looks])
    · omega
    exact .inl ⟨rfl,path,r,fs,rfl,hopen⟩

def SetsLegal : SrvAct → Srv → Prop
  | .req (.setSize fileid n),s => ∀ f, s.FileOf fileid f →
      LegalSize n ∧ (s.fs.view.word f.type = FTYPE_DIR → n.toNat%BLKSIZE = 0)
  | _,_ => True

lemma Held.legal (hs : Held s opened files) (hI : ∀ f ∈ files, Legal s.fs.view f)
    (hset : SetsLegal a s) (h : s.next a = some t) (hn : ∀ n ∈ t.fs.notes, n.Calm) :
    ∃ opened' files', Held t opened' files' ∧ ∀ f ∈ files', Legal t.fs.view f := by
  have hstep : ∀ q u e, a = .req q → Tidy opened u → ((∀ f ∈ u.files, Legal u.mem f) ∧
      ∀ f ∈ opened, u.mem.word f.type = s.fs.view.word f.type) → e.Ok u → s.Edits q u e →
      (∀ f ∈ (e.act opened u).files, Legal (e.act opened u).mem f) ∧
        ∀ f ∈ opened, (e.act opened u).mem.word f.type = s.fs.view.word f.type := by
    rintro q u e rfl hu ⟨hleg,htype⟩ hok he
    refine ⟨hu.legal_act hleg hok ?_,fun f hf => ?_⟩
    · rintro f x rfl
      obtain ⟨rfl,_⟩ | ⟨fileid,rfl,hfile⟩ := he.sets
      · exact ⟨by decide,fun _ => rfl⟩
      obtain ⟨hx,hdir⟩ := hset f hfile
      obtain ⟨i,_,hf⟩ := hfile
      rw [htype f (hs.files i f hf)]
      exact ⟨hx,hdir⟩
    rw [← htype f hf]
    refine hu.opened_act hok hf (.inl (by decide)) ?_
    rintro w rfl
    have := hok.2
    omega
  obtain ⟨opened',files',ht,hleg,_⟩ := hs.keep ⟨hI,fun _ _ => rfl⟩ h hn hstep
  exact ⟨opened',files',ht,hleg⟩

def LegalImage (disk : Mem) : Prop := Owned disk ∧ ∀ f, IsFile disk f → Legal disk f

/-- In calm runs in which only legal sizes are set, the sizes stay legal. -/
theorem legal_sizes (s : Srv) (h : Reach (Boot LegalImage) next SetsLegal s)
    (hn : ∀ n ∈ s.fs.notes, n.Calm) (f : Ptr) (hf : s.HasFile f) : Legal s.fs.view f := by
  obtain ⟨opened,files,hs,hleg⟩ := run_held (I := fun v => ∀ f ∈ v.files, Legal v.mem f) h hn
    (fun disk hd => ⟨hd.1,fun _ => hd.2⟩) fun s t a opened files hs hI hok ht hn =>
      hs.legal hI hok ht hn
  exact hleg f (hs.hasFile hf)

end Srv

lemma Sample.legal {f : Ptr} (h : Sample m) (hf : IsFile m f) : Legal m f := by
  obtain rfl | ⟨k,hk,rfl⟩ := h.isFile hf
  · have hs := h.word (p := rootFile.size) (by decide)
    rw [show Mem.word (diskOf sampleWords) rootFile.size = 4096 by decide +kernel] at hs
    exact ⟨by rw [hs]; decide,fun _ => by rw [hs]; rfl⟩
  have hall : ∀ k < BLKFILES, ((Ptr.size ⟨3,64*k⟩).blk < 4 ∧ (Ptr.type ⟨3,64*k⟩).blk < 4) ∧
      LegalSize (Mem.word (diskOf sampleWords) (Ptr.size ⟨3,64*k⟩)) ∧
      Mem.word (diskOf sampleWords) (Ptr.type ⟨3,64*k⟩) ≠ FTYPE_DIR := by decide +kernel
  obtain ⟨⟨hs,ht⟩,hsize,htype⟩ := hall k hk
  exact ⟨by rw [h.word hs]; exact hsize,fun hdir => absurd ((h.word ht).symm.trans hdir) htype⟩

namespace Srv
open Interleaving

/-- A client opens the root directory and sets its size to one byte. The assertion of `dir_lookup`
then fails at the next path. -/
theorem root_resized : LegalImage (diskOf sampleWords) ∧
    ∃ s, Reachable (· = diskOf sampleWords) s ∧ s.HasFile rootFile ∧
      ¬Legal s.fs.view rootFile ∧ s.next (.req (.open pathA O_RDWR true)) = none := by
  have hsample : Sample (diskOf sampleWords) := fun _ _ _ => rfl
  refine ⟨⟨hsample.owned,fun f hf => hsample.legal hf⟩,?_⟩
  have h : (runOn (diskOf sampleWords) [.req (.open [Fs.slash] O_RDWR true),.req (.setSize 1024 1)]).map
      (fun s => decide (s.fs.view.word rootFile.size = 1 ∧ s.fs.view.word rootFile.type = FTYPE_DIR ∧
        (s.next (.req (.open pathA O_RDWR true))).isNone)) = some true := by decide +kernel
  obtain ⟨s,hs,hsize,htype,hnone⟩ := of_map_decide h
  refine ⟨s,Reachable.runOn rfl hs,.inl .root,fun hl => ?_,isNone_iff_eq_none.mp hnone⟩
  have := hl.dir htype
  rw [hsize] at this
  exact absurd this (by decide)

theorem legal_sizes_resized : ∃ s, Reach (Boot LegalImage) next SetsLegal s ∧
    s.fs.view.word (Ptr.size ⟨3,0⟩) = 8192 ∧ Legal s.fs.view ⟨3,0⟩ := by
  have h : (boot (diskOf sampleWords) [] [] []).bind (fun s0 =>
      (s0.next (.req (.open pathA O_RDWR true))).bind fun s1 =>
        (s1.next (.req (.setSize 1024 8192))).map fun s2 =>
          decide (s2.fs.view.word (Ptr.size ⟨3,0⟩) = 8192 ∧ (s2.opentab 0).file = some ⟨3,0⟩ ∧
            ∀ n ∈ s2.fs.notes, n.Calm)) = some true := by decide +kernel
  obtain ⟨s0,h0,h⟩ := of_bind h
  obtain ⟨s1,h1,h⟩ := of_bind h
  obtain ⟨s2,h2,hsize,hfile,hn⟩ := of_map_decide h
  have hsample : Sample (diskOf sampleWords) := fun _ _ _ => rfl
  have hr0 : Reach (Boot LegalImage) next SetsLegal s0 :=
    .start ⟨_,[],[],[],⟨hsample.owned,fun f hf => hsample.legal hf⟩,h0⟩
  have hset : SetsLegal (.req (.setSize 1024 8192)) s1 := fun f _ => ⟨by decide,fun _ => rfl⟩
  have hr : Reach (Boot LegalImage) next SetsLegal s2 :=
    .step (.step (c := .req (.open pathA O_RDWR true)) hr0 trivial h1) hset h2
  exact ⟨s2,hr,hsize,legal_sizes s2 hr hn _ (.inr ⟨0,hfile⟩)⟩

end Srv

end KludgeOS
