import KludgeOS.Fs.Sizes
import KludgeOS.Fs.Truncate

/-!
The blocks of a file lie below its end.
-/

namespace KludgeOS
open BitVec Option

def sizeBlocks (n : Word) : Int := (n.toInt+4095)/4096

lemma sdiv_small {n : Word} (h : n.toNat < 2^31) : (n.sdiv 4096).toNat = n.toNat/4096 := by
  have hn : n.msb = false := by
    rw [msb_eq_false_iff_two_mul_lt]
    omega
  rw [BitVec.sdiv,hn,show (4096 : Word).msb = false from rfl]
  exact toNat_udiv

namespace LegalSize

variable {n : Word}

lemma toInt (h : LegalSize n) : n.toInt = n.toNat ∧ n.toNat ≤ 4194304 := by
  have hn : n.toNat ≤ 4194304 := (legalSize_iff n).mp h
  rw [toInt_eq_toNat_cond,if_pos (by omega)]
  exact ⟨rfl,hn⟩

lemma nblocksFor (h : LegalSize n) : ((nblocksFor n).toNat : Int) = sizeBlocks n := by
  obtain ⟨hint,hn⟩ := h.toInt
  have hadd : (n+4095).toNat = n.toNat+4095 := by
    rw [toNat_add]
    change (n.toNat+4095)%4294967296 = _
    omega
  rw [KludgeOS.nblocksFor,sdiv_small (by omega),hadd,sizeBlocks,hint]
  omega

lemma sdiv {j : Nat} (h : LegalSize n) (hj : j < (n.sdiv 4096).toNat) :
    (j : Int) < sizeBlocks n := by
  obtain ⟨hint,hn⟩ := h.toInt
  rw [sdiv_small (by omega)] at hj
  rw [sizeBlocks,hint]
  omega

end LegalSize

def Place.index : Place → Nat
  | .direct j => j
  | .entry j => j
  | .indirect => NDIRECT

lemma place_index (j : Nat) : (place j).index = j := by
  unfold place
  split <;> rfl

variable {m : Mem} {pl : Place}

lemma Place.Data.place_eq {f p : Ptr} (h : pl.Data) (hp : BlockSlot m f pl p) :
    pl = place pl.index := by
  cases hp with
  | direct hj => simp [place,Place.index,hj]
  | indirect => exact absurd h id
  | entry _ _ =>
    have hj : NDIRECT ≤ _ := h
    simp [place,Place.index,Nat.not_lt.mpr hj]

structure Bounded (m : Mem) (f : Ptr) : Prop where
  size : LegalSize (m.word f.size)
  within : ∀ pl p, BlockSlot m f pl p → m.word p ≠ 0 → (pl.index : Int) < sizeBlocks (m.word f.size)

def Sane (u : Vol) : FsEdit → Prop
  | .hang g pl _ _ => (pl.index : Int) < sizeBlocks (u.mem.word g.size)
  | .field g i x => i = 32 → LegalSize x ∧ (x.slt (u.mem.word g.size) → Fs.Cut u.mem g x)
  | _ => True

lemma Bounded.cut {f p : Ptr} {n : Word} (h : Bounded m f) (hcut : Fs.Cut m f n) (hn : LegalSize
    n) (hp : BlockSlot m f pl p) (h0 : m.word p ≠ 0) : (pl.index : Int) < sizeBlocks n := by
  have hd : NDIRECT = 10 := rfl
  have hold := h.size.nblocksFor
  have hnew := hn.nblocksFor
  have hlt := h.within pl p hp h0
  by_contra hge
  cases hp with
  | @direct j hj =>
    refine h0 (hcut.1 j ?_ ?_ _ ?_)
    · simp only [Place.index] at hge
      omega
    · simp only [Place.index] at hlt
      omega
    rw [place,if_pos hj]
    exact .direct hj
  | indirect =>
    simp only [Place.index] at hge
    exact h0 (hcut.2 (by omega))
  | @entry j hi hj =>
    simp only [Place.index] at hge hlt
    by_cases hj10 : j < NDIRECT
    · exact hi (hcut.2 (by omega))
    refine h0 (hcut.1 j (by omega) (by omega) _ ?_)
    rw [place,if_neg hj10]
    exact .entry hi hj

lemma Tidy.bounded_act {opened : Set Ptr} {v : Vol} {e : FsEdit} (h : Tidy opened v)
    (hv : ∀ f ∈ v.files, Bounded v.mem f) (hok : e.Ok v) (hs : Sane v e) :
    ∀ f ∈ (e.act opened v).files, Bounded (e.act opened v).mem f := by
  intro f hf
  obtain hgone | ⟨hfv,_,hsize⟩ := h.size_act hok hf
  · exact ⟨(legal_of_gone hgone).size,fun pl p hp h0 => absurd (hp.word_gone hgone) h0⟩
  have hb := hv f hfv
  obtain ⟨hw,hset⟩ | ⟨x,rfl,hw⟩ := hsize
  · refine ⟨by rw [hw]; exact hb.size,fun pl p hp h0 => ?_⟩
    obtain ⟨_,hslot,hn | ⟨b,rfl⟩⟩ := h.slot_act hok hf hp h0
    · rw [hw]
      exact hb.within pl p hslot (hn ▸ h0)
    rw [hw]
    exact hs
  obtain ⟨hx,hcut⟩ := hs rfl
  refine ⟨by rw [hw]; exact hx,fun pl p hp h0 => ?_⟩
  obtain ⟨_,hslot,hn | ⟨b,hb⟩⟩ := h.slot_act hok hf hp h0
  · rw [hw]
    rw [hn] at h0
    by_cases hlt : x.slt (v.mem.word f.size)
    · exact hb.cut (hcut hlt) hx hslot h0
    have hle : (v.mem.word f.size).toInt ≤ x.toInt := by
      rw [slt_iff_toInt_lt] at hlt
      omega
    have := hb.within pl p hslot h0
    unfold sizeBlocks at *
    omega
  contradiction

namespace Fs

variable {opened : Set Ptr} {v v' : Vol} {f : Ptr} {e : FsEdit} {P : Vol → FsEdit → Prop}

lemma Does.bounded (hd : Does opened P v v') (ht : Tidy opened v)
    (hv : ∀ f ∈ v.files, Bounded v.mem f) (hP : ∀ u e, (∀ f ∈ u.files, Bounded u.mem f) →
    e.Ok u → P u e → Sane u e) : ∀ f ∈ v'.files, Bounded v'.mem f :=
  (hd.induct (I := fun u => ∀ f ∈ u.files, Bounded u.mem f) ht hv fun u e hu hb hok he =>
    hu.bounded_act hb hok (hP u e hb hok he)).2.1

lemma Looks.sane (h : Looks v e) (hv : ∀ f ∈ v.files, Bounded v.mem f) (hok : e.Ok v) :
    Sane v e := by
  cases e with
  | load | take | unhook | release => trivial
  | hang g pl p b =>
    obtain ⟨_,j,_,hj,hpl⟩ := h
    have := (hv g hok.1).size.sdiv hj
    obtain rfl | ⟨rfl,hge⟩ := hpl
    · rw [Sane,place_index]
      exact this
    simp only [Sane,Place.index]
    omega
  | field g i x =>
    intro hi
    have : i = 45 := h
    omega

lemma Resizes.sane {n : Word} (h : Resizes f n v e) (hn : LegalSize n) : Sane v e := by
  cases e with
  | load | take | unhook | release => trivial
  | hang g pl p b => exact absurd h id
  | field g i x =>
    intro hi
    obtain ⟨rfl,h0 | ⟨_,rfl,hcut⟩⟩ := h
    · omega
    exact ⟨hn,hcut⟩

lemma Grows.sane {j : Nat} (h : Grows f j v e)
    (hj : (j : Int) < sizeBlocks (v.mem.word f.size) ∨ NINDIRECT ≤ j) : Sane v e := by
  cases e with
  | load | take | unhook | release => trivial
  | hang g pl p b =>
    obtain ⟨rfl,hlt,hpl⟩ := h
    have hj := hj.resolve_right (Nat.not_le.mpr hlt)
    obtain rfl | ⟨rfl,hge⟩ := hpl
    · rw [Sane,place_index]
      exact hj
    simp only [Sane,Place.index]
    omega
  | field g i x => exact absurd h id

end Fs

namespace Srv
open Fs (Does Looks Grows Resizes IsLoad Clears)
open Interleaving

variable {s t : Srv} {a : SrvAct} {f : Ptr} {opened files : Set Ptr}

def BelowEnd : SrvAct → Srv → Prop
  | .req (.setSize fileid n),s => ∀ f, s.FileOf fileid f → LegalSize n
  | .req (.map fileid offset),s => ∀ f, s.FileOf fileid f →
      ((offset.sdiv 4096).toNat : Int) < sizeBlocks (s.fs.view.word f.size) ∨
        NINDIRECT ≤ (offset.sdiv 4096).toNat
  | .req (.dirty fileid offset),s => ∀ f, s.FileOf fileid f →
      ((offset.sdiv 4096).toNat : Int) < sizeBlocks (s.fs.view.word f.size) ∨
        NINDIRECT ≤ (offset.sdiv 4096).toNat
  | _,_ => True

/-- `u` has the sizes that the open files had at first, unless the request sets one. -/
def SameSizes (s : Srv) (q : Req) (opened : Set Ptr) (u : Vol) : Prop :=
  (∀ fileid n, q ≠ .setSize fileid n) → (∀ path, q ≠ .remove path) →
    ∀ f ∈ opened, u.mem.word f.size = s.fs.view.word f.size

variable {q : Req} {u : Vol}

lemma SameSizes.act {e : FsEdit} (h : SameSizes s q opened u) (hu : Tidy opened u) (hok : e.Ok u)
    (he : s.Edits q u e) : SameSizes s q opened (e.act opened u) := by
  intro hset hrem f hf
  rw [← h hset hrem f hf]
  refine hu.opened_act hok hf (.inl (by decide)) ?_
  rintro x rfl
  obtain ⟨_,path,_,_,rfl,_⟩ | ⟨fileid,rfl,_⟩ := he.sets
  · exact hrem path rfl
  exact hset fileid x rfl

lemma Held.sane {e : FsEdit} (hs : Held s opened files) (ha : BelowEnd (.req q) s)
    (hb : ∀ f ∈ u.files, Bounded u.mem f) (hsize : SameSizes s q opened u) (hok : e.Ok u)
    (he : s.Edits q u e) : Sane u e := by
  cases q with
  | «open» path omode takes => exact Looks.sane he hb hok
  | map fileid offset | dirty fileid offset =>
    obtain ⟨i,f,hl,hf,he⟩ := he
    refine Grows.sane he ?_
    rw [hsize (by simp) (by simp) f (hs.files i f hf)]
    exact ha f ⟨i,hl,hf⟩
  | setSize fileid n =>
    obtain ⟨i,f,hl,hf,he⟩ := he
    exact Resizes.sane he (ha f ⟨i,hl,hf⟩)
  | close fileid | sync =>
    exact Resizes.sane (f := rootFile) (n := 0)
      (Clears.resizes u e (IsLoad.clears u e he)) (by decide)
  | remove path =>
    obtain he | ⟨_,g,_,_,he⟩ := he
    · exact Looks.sane he hb hok
    exact Resizes.sane he (by decide)

lemma Held.bounded (hs : Held s opened files) (hI : ∀ f ∈ files, Bounded s.fs.view f)
    (ha : BelowEnd a s) (h : s.next a = some t) (hn : ∀ n ∈ t.fs.notes, n.Calm) :
    ∃ opened' files', Held t opened' files' ∧ ∀ f ∈ files', Bounded t.fs.view f := by
  have hstep : ∀ q u e, a = .req q → Tidy opened u → ((∀ f ∈ u.files, Bounded u.mem f) ∧
      ∀ q, a = .req q → SameSizes s q opened u) → e.Ok u → s.Edits q u e →
      (∀ f ∈ (e.act opened u).files, Bounded (e.act opened u).mem f) ∧
        ∀ q, a = .req q → SameSizes s q opened (e.act opened u) := by
    rintro q u e rfl hu ⟨hb,hsize⟩ hok he
    refine ⟨hu.bounded_act hb hok (hs.sane ha hb (hsize q rfl) hok he),?_⟩
    rintro q' ⟨⟩
    exact (hsize q rfl).act hu hok he
  obtain ⟨opened',files',ht,hb,_⟩ := hs.keep ⟨hI,fun _ _ _ _ _ _ => rfl⟩ h hn hstep
  exact ⟨opened',files',ht,hb⟩

lemma Held.removed (hs : Held s opened files) (hI : ∀ f ∈ files, Bounded s.fs.view f)
    {path : List Byte} {r : Int} {fs : Fs} (h : s.next (.req (.remove path)) = some t)
    (hn : ∀ n ∈ t.fs.notes, n.Calm) (hopen : s.fs.fileOpen (cPath path) = some (r,some f,fs)) :
    (∀ pl p, BlockSlot t.fs.view f pl p → t.fs.view.word p = 0) ∧ ∀ pl p, pl.Data ∨ pl = .indirect →
    BlockSlot fs.view f pl p → fs.view.word p ≠ 0 → t.fs.view.isFree (fs.view.word p).toNat := by
  obtain ⟨⟨rep,u⟩,hserve,rfl⟩ := map_eq_some_iff.mp h
  obtain ⟨⟨r1,fs1⟩,hrem,h⟩ := of_bind hserve
  cases h
  obtain ⟨r2,o,s1,files1,hopen',hlook,hcase⟩ := Fs.fileRemove_edits hrem hs.tidy hn
  obtain ⟨rfl,rfl,rfl⟩ : r2 = r ∧ o = some f ∧ s1 = fs := by simpa using hopen'.symm.trans hopen
  obtain ⟨ho,_⟩ | ⟨g,s2,files',ho,hfound,htr,hn2,hclear,_,hres,hat,hsize⟩ := hcase
  · contradiction
  cases ho
  have hb1 := hlook.does.bounded hs.tidy hI fun u e hb hok he => he.sane hb hok
  have hb2 := hclear.does.bounded hfound.at_.tidy hb1 fun u e _ _ he =>
    Resizes.sane (n := 0) (Clears.resizes u e he) (by decide)
  have ht2 := hclear.tidy hfound.at_.tidy
  have hb3 := hres.does.bounded ht2 hb2 fun u e _ _ he => he.sane (by decide)
  refine ⟨fun pl p hp => by_contra fun h0 => ?_,fun pl p hpl hp h0 => ?_⟩
  · have := (hb3 f hat.mem).within pl p hp h0
    rw [show (fs1.vol files').mem.word f.size = 0 from hsize,show sizeBlocks 0 = 0 by decide] at this
    omega
  have hbf := hb1 f hfound.at_.mem
  have hlt := hbf.within pl p hp h0
  rw [← hbf.size.nblocksFor] at hlt
  have hneed : Fs.Unneeded s1.view f 0 pl := by
    obtain hdata | rfl := hpl
    · exact .inl ⟨pl.index,hdata.place_eq hp,Nat.zero_le _,by exact_mod_cast hlt⟩
    exact .inr ⟨rfl,Nat.zero_le _⟩
  obtain ⟨hbn,hfree,hnb⟩ := Fs.fileTruncateBlocks_freed htr hfound.at_ hn2 hneed hp h0
  have hbn2 : (s1.view.word p).toNat < s2.view.nblocks := by
    rw [hnb]
    exact hbn
  refine (hres.does.induct (I := fun u => (s1.view.word p).toNat < u.mem.nblocks ∧
    u.mem.isFree (s1.view.word p).toNat) ht2 ⟨hbn2,hfree⟩ ?_).2.1.2
  rintro u e hu ⟨hlt,hfree⟩ hok he
  obtain ⟨h1,h2⟩ := hu.free_act hok hlt hfree (by rintro c rfl; exact he)
  exact ⟨by rw [h2]; exact hlt,h1⟩

def BoundedImage (disk : Mem) : Prop := Owned disk ∧ ∀ f, IsFile disk f → Bounded disk f

/-- In runs with legal sizes, and with blocks asked for below the ends, files have their blocks
below their ends. -/
theorem blocks_below_end (s : Srv) (h : Reach (Boot BoundedImage) next BelowEnd s)
    (hn : ∀ n ∈ s.fs.notes, n.Calm) : (∀ f, s.HasFile f → Bounded s.fs.view f) ∧
    ∀ path t r f fs, s.next (.req (.remove path)) = some t →
    (∀ n ∈ t.fs.notes, n.Calm) → s.fs.fileOpen (cPath path) = some (r,some f,fs) →
    (∀ pl p, BlockSlot t.fs.view f pl p → t.fs.view.word p = 0) ∧ ∀ pl p, pl.Data ∨ pl = .indirect →
    BlockSlot fs.view f pl p → fs.view.word p ≠ 0 → t.fs.view.isFree (fs.view.word p).toNat := by
  obtain ⟨opened,files,hs,hb⟩ := run_held (I := fun v => ∀ f ∈ v.files, Bounded v.mem f) h hn
    (fun disk hd => ⟨hd.1,fun _ => hd.2⟩) fun s t a opened files hs hI hok ht hn =>
      hs.bounded hI hok ht hn
  exact ⟨fun f hf => hb f (hs.hasFile hf),fun path t r f fs ht hn hopen =>
    hs.removed hb ht hn hopen⟩

end Srv

lemma Sample.bounded {f : Ptr} (h : Sample m) (hf : IsFile m f) : Bounded m f := by
  refine ⟨(h.legal hf).size,fun pl p hp h0 => ?_⟩
  -- The only slots in use are the first of the root and of `/a`, which have one block each.
  have hdirect : BlockSlot m f (.direct 0) p := by
    obtain ⟨rfl,rfl,_⟩ | ⟨rfl,rfl,_⟩ := h.slot hf hp h0 <;> exact .direct (by decide)
  obtain ⟨_,rfl⟩ := h.owned.spread.slot_inj hf hf hp hdirect
  have hsize : m.word f.size = 4096 := by
    obtain ⟨rfl,_⟩ | ⟨rfl,_⟩ := h.slot hf hp h0 <;>
      exact (h.word (by decide)).trans (by decide +kernel)
  rw [hsize]
  decide

namespace Srv
open Interleaving

/-- A client maps the block after the last of `/a`. -/
theorem block_beyond_end : BoundedImage (diskOf sampleWords) ∧
    ∃ s, Reachable (· = diskOf sampleWords) s ∧ s.HasFile ⟨3,0⟩ ∧
    sizeBlocks (s.fs.view.word (Ptr.size ⟨3,0⟩)) = 1 ∧ s.fs.view.word (Ptr.direct ⟨3,0⟩ 1) ≠ 0 := by
  have hsample : Sample (diskOf sampleWords) := fun _ _ _ => rfl
  refine ⟨⟨hsample.owned,fun f hf => hsample.bounded hf⟩,?_⟩
  have h : (runOn (diskOf sampleWords) extendA).map (fun s => decide ((s.opentab 0).file = some ⟨3,0⟩ ∧
      s.fs.view.word (Ptr.size ⟨3,0⟩) = 4096 ∧ s.fs.view.word (Ptr.direct ⟨3,0⟩ 1) = 5)) =
      some true := by decide +kernel
  obtain ⟨s,hs,hfile,hsize,hslot⟩ := of_map_decide h
  exact ⟨s,Reachable.runOn rfl hs,.inr ⟨0,hfile⟩,by rw [hsize]; decide,by rw [hslot]; decide⟩

theorem blocks_below_end_extended : ∃ s, Reach (Boot BoundedImage) next BelowEnd s ∧
    s.fs.view.word (Ptr.direct ⟨3,0⟩ 1) = 5 ∧ Bounded s.fs.view ⟨3,0⟩ := by
  have h : (boot (diskOf sampleWords) [] [] []).bind (fun s0 =>
      (s0.next (.req (.open pathA O_RDWR true))).bind fun s1 =>
        (s1.next (.req (.setSize 1024 8192))).bind fun s2 =>
          (s2.next (.req (.map 1024 4096))).map fun s3 =>
            decide (s2.openfileLookup 1024 = (0,some 0) ∧ (s2.opentab 0).file = some ⟨3,0⟩ ∧
              s2.fs.view.word (Ptr.size ⟨3,0⟩) = 8192 ∧ (s3.opentab 0).file = some ⟨3,0⟩ ∧
              s3.fs.view.word (Ptr.direct ⟨3,0⟩ 1) = 5 ∧ ∀ n ∈ s3.fs.notes, n.Calm)) =
      some true := by decide +kernel
  obtain ⟨s0,h0,h⟩ := of_bind h
  obtain ⟨s1,h1,h⟩ := of_bind h
  obtain ⟨s2,h2,h⟩ := of_bind h
  obtain ⟨s3,h3,hlook,hfile2,hsize2,hfile,hslot,hn⟩ := of_map_decide h
  have hsample : Sample (diskOf sampleWords) := fun _ _ _ => rfl
  have hr0 : Reach (Boot BoundedImage) next BelowEnd s0 :=
    .start ⟨_,[],[],[],⟨hsample.owned,fun f hf => hsample.bounded hf⟩,h0⟩
  have hset : BelowEnd (.req (.setSize 1024 8192)) s1 := fun f _ => by decide
  have hmap : BelowEnd (.req (.map 1024 4096)) s2 := by
    intro f hf
    obtain rfl := hf.unique ⟨0,hlook,hfile2⟩
    rw [hsize2]
    exact .inl (by decide)
  have hr : Reach (Boot BoundedImage) next BelowEnd s3 :=
    .step (.step (.step (c := .req (.open pathA O_RDWR true)) hr0 trivial h1) hset h2) hmap h3
  exact ⟨s3,hr,hslot,(blocks_below_end s3 hr hn).1 _ (.inr ⟨0,hfile⟩)⟩

end Srv

end KludgeOS
