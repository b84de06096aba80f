import KludgeOS.Fs.LayoutFiles
import KludgeOS.Fs.Restart

/-!
The files and directories that are written, one after the other and one in the
other. No block is given out that is not in a slot in the end.
-/

namespace KludgeOS
open Mem


variable {m m' : Mem} {f g d : Ptr} {n j b : Nat} {name data : List Byte} {files : Set Ptr}

/-- The first `n` blocks of `f` have those of `data`. -/
def Mem.Contents (m : Mem) (f : Ptr) (data : List Byte) (n : Nat) : Prop :=
  ∀ j < n, m (m.blockOf f j).toNat = packed ((data.drop (j*BLKSIZE)).take BLKSIZE)

structure Mem.Holds (m : Mem) (d f : Ptr) (name data : List Byte) : Prop where
  inDir : m.InDir d f
  name : Fs.nameIs (m.record f) name
  type : m.word f.type = FTYPE_REG
  size : (m.word f.size).toNat = data.length
  fits : data.length ≤ NINDIRECT*BLKSIZE
  blocks : Shaped m f ((data.length+4095)/4096)
  contents : m.Contents f data ((data.length+4095)/4096)

lemma Mem.put_same {p : Ptr} {w : Word} (h : m.word p = w) : m.put p w = m := by
  subst h
  simp [put,set,word]

lemma Mem.Holds.kept (h : m.Holds d f name data) (hk : Kept m m' f) (hin : m'.InDir d f)
    (hplaced : Placed m f) (hlen : name.length < MAXNAMELEN) : m'.Holds d f name data := by
  have htype : m'.word f.type = m.word f.type := hk.off (by decide)
  have hsize : m'.word f.size = m.word f.size := hk.off (by decide)
  have hle := h.blocks.le
  refine ⟨hin,?_,htype.trans h.type,by rw [hsize]; exact h.size,h.fits,hk.shaped h.blocks,
    fun j hj => ?_⟩
  · rw [← h.name]
    refine nameIs_congr hlen fun i hi => ?_
    rw [hplaced.record _ (by omega),hplaced.record _ (by omega),hk.off (by omega)]
  have h0 := (h.blocks.blockOf (j := j) (by omega)).mpr hj
  obtain ⟨p,hp,hw⟩ := blockOf_slot h0 (by omega : j < NINDIRECT)
  have hreg : m.word f.type ≠ FTYPE_DIR := by
    rw [h.type]
    decide
  rw [hk.blockOf (by omega),← h.contents j hj,← hw]
  exact hk.data hreg hp (place_data j) (by rwa [hw])

namespace Layout

variable {v v' : Layout}

lemma writeRounds_cases {left k nblk r : Nat} (h : writeRounds f data left v k = some (nblk,r,v'))
    : (data.length ≤ k*BLKSIZE ∧ nblk = k ∧ r = 0 ∧ v' = v.fill v.next fun _ => 0) ∨
    ∃ b v1 v2, k*BLKSIZE < data.length ∧ v.fresh = some (b,v1) ∧
    (v1.fill b (packed ((data.drop (k*BLKSIZE)).take BLKSIZE))).storeblk f b k = some v2 ∧
    (data.length < (k+1)*BLKSIZE ∧ nblk = k ∧ r = data.length-k*BLKSIZE ∧ v' = v2 ∨ ∃ l, left =
    l+1 ∧ (k+1)*BLKSIZE ≤ data.length ∧ writeRounds f data l v2 (k+1) = some (nblk,r,v')) := by
  have hlen : ((data.drop (k*BLKSIZE)).take BLKSIZE).length = min BLKSIZE (data.length-k*BLKSIZE) := by
    simp
  have hk : (k+1)*BLKSIZE = k*BLKSIZE+BLKSIZE := Nat.succ_mul _ _
  have hpos : 0 < BLKSIZE := by decide
  unfold writeRounds at h
  simp only [hlen] at h
  split at h
  · cases h
  split at h
  · obtain ⟨rfl,hr⟩ := some_pair_inj h
    obtain ⟨rfl,rfl⟩ := Prod.mk.inj hr
    exact .inl ⟨by omega,rfl,rfl,rfl⟩
  rename_i hne
  obtain ⟨⟨b,v1⟩,hfr,h⟩ := of_bind h
  obtain ⟨v2,hst,h⟩ := of_bind h
  refine .inr ⟨b,v1,v2,by omega,hfr,hst,?_⟩
  split at h
  · obtain ⟨rfl,hr⟩ := some_pair_inj h
    obtain ⟨rfl,rfl⟩ := Prod.mk.inj hr
    exact .inl ⟨by omega,rfl,by omega,rfl⟩
  cases left with
  | zero => contradiction
  | succ l => exact .inr ⟨l,rfl,by omega,h⟩

namespace Built

/-- The loop of `writefile` has done the first `n` blocks. -/
structure Rounds (v v' : Layout) (files : Set Ptr) (f : Ptr) (data : List Byte) (n : Nat) :
    Prop where
  built : Built v' files
  blocks : Shaped v'.mem f n
  contents : v'.mem.Contents f data n
  fields : ∀ i < 64, i < 34 ∨ 45 ≤ i → v'.mem.word (f.off i) = v.mem.word (f.off i)
  kept : ∀ g ∈ files, g ≠ f → Kept v.mem v'.mem g

lemma rounds_zero (h : Built v files) (hz : ∀ i, 32 ≤ i → i < 64 → v.mem.word (f.off i) = 0) :
    Rounds v v files f data 0 :=
  ⟨h,shaped_zero fun i hi hi' => hz i (by omega) (by omega),fun j hj => absurd hj (Nat.not_lt_zero j),
    fun _ _ _ => rfl,fun g _ _ => Kept.refl _ g⟩

variable {u : Layout} {k : Nat}

lemma Rounds.append {u1 u2 : Layout} (h : Rounds v u files f data k) (hf : f ∈ files)
    (hn : v.mem.Named f) (ht : v.mem.word f.type ≠ FTYPE_DIR) (hfr : u.fresh = some (b,u1))
    (hst : (u1.fill b (packed ((data.drop (k*BLKSIZE)).take BLKSIZE))).storeblk f b k = some u2) :
    Rounds v u2 files f data (k+1) := by
  have hplaced := h.built.placed hf
  have hnu : u.mem.Named f := (hplaced.named (h.fields 0 (by decide) (by decide))).mpr hn
  have htu : u.mem.word f.type ≠ FTYPE_DIR :=
    fun hc => ht ((h.fields 33 (by decide) (by decide)).symm.trans hc)
  have ha := h.built.append hf hnu htu h.blocks hfr hst
  refine ⟨ha.built,ha.shaped,fun j hj => ?_,fun i hi hi' => ?_,fun g hg hgf => ?_⟩
  · by_cases hjk : j = k
    · subst hjk
      exact ha.last
    obtain ⟨hnum,hwords⟩ := ha.earlier j (by omega)
    rw [hnum,hwords]
    exact h.contents j (by omega)
  · rw [ha.fields i hi hi',h.fields i hi hi']
  exact (h.kept g hg hgf).trans (ha.kept g hg hgf)

lemma Rounds.fillNext (h : Rounds v u files f data k) (hf : f ∈ files) :
    Rounds v (u.fill u.next fun _ => 0) files f data k := by
  obtain ⟨hs,hk⟩ := h.built.fillNext fun _ => 0
  have hkf := hk f hf
  have hk1 := h.blocks.le
  refine ⟨⟨hs,fun g hg => (h.built.kept_file hg (hk g hg)).1,
    fun g hg => (h.built.kept_file hg (hk g hg)).2⟩,hkf.shaped h.blocks,fun j hj => ?_,
    fun i hi hi' => ?_,fun g hg hgf => (h.kept g hg hgf).trans (hk g hg)⟩
  · have h0 := (h.blocks.blockOf (j := j) (by omega)).mpr hj
    obtain ⟨_,hlt,_⟩ := h.built.block_apart hf (by omega) h0
    rw [hkf.blockOf (by omega)]
    exact (fill_frame _ _ (by omega)).trans (h.contents j hj)
  rw [hkf.off hi,h.fields i hi hi']

lemma writeRounds {nblk r : Nat} (left : Nat) : ∀ {u : Layout} {k : Nat}, f ∈ files →
    v.mem.Named f → v.mem.word f.type ≠ FTYPE_DIR → Rounds v u files f data k →
    k*BLKSIZE ≤ data.length → writeRounds f data left u k = some (nblk,r,v') →
    nblk*BLKSIZE+r = data.length ∧ Rounds v v' files f data ((data.length+4095)/4096) := by
  have hmul : ∀ k, k*BLKSIZE = 4096*k := fun k => Nat.mul_comm _ _
  induction left using Nat.strong_induction_on with
  | _ left ih =>
    intro u k hf hn ht hr hle hw
    have hk := hmul k
    have hk1 := hmul (k+1)
    obtain ⟨hend,rfl,rfl,rfl⟩ | ⟨b,u1,u2,hlt,hfr,hst,⟨hend,rfl,rfl,rfl⟩ | ⟨l,hl,hmore,hw⟩⟩ :=
      writeRounds_cases hw
    · rw [show (data.length+4095)/4096 = nblk by omega]
      exact ⟨by omega,hr.fillNext hf⟩
    · rw [show (data.length+4095)/4096 = nblk+1 by omega]
      exact ⟨by omega,hr.append hf hn ht hfr hst⟩
    exact ih l (by omega) hf hn ht (hr.append hf hn ht hfr hst) hmore hw

lemma setSize (h : Built v files) (hf : f ∈ files) (hn : v.mem.Named f) (ht : v.mem.word
    f.type ≠ FTYPE_DIR) (w : Word) : Built (v.put f.size w) files ∧ (∀ g ∈ files, g ≠ f → Kept v.mem
    (v.put f.size w).mem g) ∧ (∀ i < 64, i ≠ 32 → (v.put f.size w).mem.word (f.off i) = v.mem.word
    (f.off i)) ∧ ∀ pl p, BlockSlot v.mem f pl p → (v.put f.size w).mem.word p = v.mem.word p := by
  have hplaced := h.placed hf
  have hword : ∀ q, q ≠ f.size → (v.put f.size w).mem.word q = v.mem.word q :=
    fun q hq => word_put_ne hq
  obtain ⟨hs,hk⟩ := h.setFields hf fun q hq => hword q (hq 32 (by decide) (.inl (by decide)))
  have hoff : ∀ i < 64, i ≠ 32 → (v.put f.size w).mem.word (f.off i) = v.mem.word (f.off i) :=
    fun i hi hi' => hword _ fun he => hi' (hplaced.off_inj hplaced hi (by decide) he).2
  have hslot : ∀ pl p, BlockSlot v.mem f pl p → (v.put f.size w).mem.word p = v.mem.word p :=
    fun pl p hp => hword _ (h.tidy.slot_ne_off hf hf hp (.inl (by decide)))
  obtain ⟨n,hsn,_⟩ := h.shaped f hf
  refine ⟨h.update hs hk ⟨n,hsn.congr hslot,fun hc => absurd ?_ ht⟩
    ((hplaced.named (hoff 0 (by decide) (by decide))).mpr hn),hk,hoff,hslot⟩
  exact (hoff 33 (by decide) (by decide)).symm.trans hc

/-- Something was written to directory `d`: it has got entries, and the files that were there
before have stayed. -/
structure Added (v v' : Layout) (files files' : Set Ptr) (d : Ptr) : Prop where
  built : Built v' files'
  sub : files ⊆ files'
  kept : ∀ f ∈ files, f ≠ d → v.mem.Named f → Kept v.mem v'.mem f
  type : v'.mem.word d.type = v.mem.word d.type
  old : ∀ r, v.mem.InDir d r → v'.mem.InDir d r

lemma writefile (h : Built v files) (hd : d ∈ files) (hdir : v.mem.word d.type = FTYPE_DIR)
    (hne : name ≠ []) (hnul : 0 ∉ name) (hlen : name.length < MAXNAMELEN)
    (hw : v.writefile d name data = some v') : ∃ files' f, Added v v' files files' d ∧
    v'.mem.Holds d f name data ∧ (f ∈ files → ¬v.mem.Named f) ∧
    ∀ r, v'.mem.InDir d r → v'.mem.Named r → r = f ∨ v.mem.InDir d r ∧ v.mem.Named r := by
  unfold Layout.writefile at hw
  obtain ⟨⟨f,v1⟩,ha,hw⟩ := of_bind hw
  obtain ⟨files',ha⟩ := h.allocfile hd hdir hne hnul hlen ha
  have hreg : v1.put f.type FTYPE_REG = v1 := by
    have : v1.mem.word f.type = FTYPE_REG := ha.zero 33 (by decide) (by decide)
    simp only [Layout.put,put_same this]
  simp only [hreg] at hw
  obtain ⟨⟨nblk,r,v2⟩,hrounds,hw⟩ := of_bind hw
  cases hw
  have ht1 : v1.mem.word f.type ≠ FTYPE_DIR := by
    rw [show v1.mem.word f.type = 0 from ha.zero 33 (by decide) (by decide)]
    decide
  obtain ⟨hlength,hr⟩ := Built.writeRounds _ ha.mem ha.named ht1 (ha.built.rounds_zero ha.zero)
    (by omega) hrounds
  rw [hlength]
  have hplaced := hr.built.placed ha.mem
  have ht2 : v2.mem.word f.type ≠ FTYPE_DIR :=
    fun hc => ht1 ((hr.fields 33 (by decide) (by decide)).symm.trans hc)
  have hn2 : v2.mem.Named f := (hplaced.named (hr.fields 0 (by decide) (by decide))).mpr ha.named
  obtain ⟨hb3,hk3,hoff3,hslot3⟩ := hr.built.setSize ha.mem hn2 ht2 (BitVec.ofNat 32 data.length)
  generalize hv3 : v2.put f.size (BitVec.ofNat 32 data.length) = v3 at hb3 hk3 hoff3 hslot3 ⊢
  have hkept : ∀ g ∈ files', g ≠ f → Kept v1.mem v3.mem g :=
    fun g hg hgf => (hr.kept g hg hgf).trans (hk3 g hg hgf)
  have hkd := hkept d (ha.sub hd) ha.ne.symm
  have hin : ∀ r, v3.mem.InDir d r ↔ v1.mem.InDir d r := by
    intro r
    refine exists_congr fun j => and_congr_right fun hj => ?_
    rw [hkd.blockOf hj]
  have hoff : ∀ i < 32, v3.mem.word (f.off i) = v1.mem.word (f.off i) := fun i hi =>
    (hoff3 i (by omega) (by omega)).trans (hr.fields i (by omega) (by omega))
  have hni : NINDIRECT*BLKSIZE = 4194304 := rfl
  have hni' : NINDIRECT = 1024 := rfl
  have hle := hr.blocks.le
  refine ⟨files',f,⟨hb3,ha.sub,fun g hg hgd hng => ?_,(hkd.off (by decide)).trans ha.type,
    fun r hr => (hin r).mpr (ha.old r hr)⟩,⟨(hin f).mpr ha.inDir,?_,?_,?_,by omega,
    hr.blocks.congr hslot3,fun j hj => ?_⟩,ha.new,fun r hr hnr => ?_⟩
  · have hgf : g ≠ f := by
      rintro rfl
      exact ha.new hg hng
    exact (ha.kept g hg hgd hgf).trans (hkept g (ha.sub hg) hgf)
  · rw [← ha.name]
    refine nameIs_congr hlen fun i hi => ?_
    rw [hplaced.record _ (by omega),hplaced.record _ (by omega),hoff i hi]
  · exact (hoff3 33 (by decide) (by decide)).trans
      ((hr.fields 33 (by decide) (by decide)).trans (ha.zero 33 (by decide) (by decide)))
  · have hself : v3.mem.word f.size = BitVec.ofNat 32 data.length := by
      rw [← hv3]
      exact word_put_self _ _ _
    rw [hself,BitVec.toNat_ofNat]
    omega
  · have h0 := (hr.blocks.blockOf (j := j) (by omega)).mpr hj
    obtain ⟨_,_,hne,_⟩ := hr.built.block_apart ha.mem (by omega) h0
    rw [blockOf_congr hslot3 (by omega),← hr.contents j hj]
    funext i
    rw [← hv3]
    refine word_put_ne (q := ⟨_,i⟩) fun he => hne ?_
    rw [Ptr.size,hplaced.off (by decide)] at he
    exact (Ptr.mk.inj he).1
  by_cases hrf : r = f
  · exact .inl hrf
  obtain ⟨hr1,_⟩ := ha.built.inDir_mem (ha.sub hd) (ha.type.trans hdir) ((hin r).mp hr)
  have hn1 := ((ha.built.placed hr1).named ((hkept r hr1 hrf).off (by decide))).mp hnr
  have hr0 := (ha.only r ((hin r).mp hr) hn1).resolve_left hrf
  obtain ⟨hrm,hrd⟩ := h.inDir_mem hd hdir hr0
  exact .inr ⟨hr0,((h.placed hrm).named ((ha.kept r hrm hrd hrf).off (by decide))).mp hn1⟩

lemma makeDir (h : Built v files) (hf : f ∈ files) (hn : v.mem.Named f) (hz : ∀ i, 32 ≤ i →
    i < 64 → v.mem.word (f.off i) = 0) : Built ((v.put f.type FTYPE_DIR).put f.size 0) files ∧
    (∀ g ∈ files, g ≠ f → Kept v.mem ((v.put f.type FTYPE_DIR).put f.size 0).mem g) ∧
    ((v.put f.type FTYPE_DIR).put f.size 0).mem.word f.type = FTYPE_DIR := by
  have hs0 : Shaped v.mem f 0 := shaped_zero fun i hi hi' => hz i (by omega) (by omega)
  have hplaced := h.placed hf
  have hoff : ∀ i < 64, i ≠ 33 → (v.put f.type FTYPE_DIR).mem.word (f.off i) = v.mem.word (f.off i) :=
    fun i hi hi' => word_put_ne fun he => hi' (hplaced.off_inj hplaced hi (by decide) he).2
  have hsize : (v.put f.type FTYPE_DIR).mem.word f.size = 0 :=
    (hoff 32 (by decide) (by decide)).trans (hz 32 (by decide) (by decide))
  -- The size is zero already.
  have hput : (v.put f.type FTYPE_DIR).put f.size 0 = v.put f.type FTYPE_DIR := by
    simp only [Layout.put] at hsize ⊢
    rw [put_same hsize]
  rw [hput]
  obtain ⟨hs,hk⟩ := h.toSound.makeDir hf hs0
  refine ⟨h.update hs hk ⟨0,shaped_zero fun i hi hi' => ?_,fun _ => ?_⟩
    ((hplaced.named (hoff 0 (by decide) (by decide))).mpr hn),hk,word_put_self _ _ _⟩
  · rw [hoff i (by omega) (by omega)]
    exact hz i (by omega) (by omega)
  rw [hsize]
  rfl

lemma Added.refl (h : Built v files) (d : Ptr) : Added v v files files d :=
  ⟨h,subset_rfl,fun g _ _ _ => Kept.refl _ g,rfl,fun _ hr => hr⟩

lemma Added.trans {files1 files2 : Set Ptr} (h : Added v u files files1 d)
    (h' : Added u v' files1 files2 d) (hb : Built v files) : Added v v' files files2 d := by
  refine ⟨h'.built,h.sub.trans h'.sub,fun f hf hfd hn => ?_,h'.type.trans h.type,
    fun r hr => h'.old r (h.old r hr)⟩
  have hk := h.kept f hf hfd hn
  exact hk.trans (h'.kept f (h.sub hf) hfd (((hb.placed hf).named (hk.off (by decide))).mpr hn))

lemma Allocated.added {v1 v3 : Layout} {files1 files3 : Set Ptr}
    (ha : Allocated v v1 files files1 d g name) (h : Built v files) (hd : d ∈ files)
    (hdir : v.mem.word d.type = FTYPE_DIR) (ha3 : Added ((v1.put g.type FTYPE_DIR).put g.size 0) v3
    files1 files3 g) : Added v v3 files files3 d := by
  obtain ⟨hb2,hk2,_⟩ := ha.built.makeDir ha.mem ha.named ha.zero
  generalize (v1.put g.type FTYPE_DIR).put g.size 0 = v2 at ha3 hb2 hk2
  have hkd2 := hk2 d (ha.sub hd) ha.ne.symm
  have hdir2 : v2.mem.word d.type = FTYPE_DIR :=
    (hkd2.off (by decide)).trans (ha.type.trans hdir)
  have hkd := hkd2.trans (ha3.kept d (ha.sub hd) ha.ne.symm (hb2.named_of_dir (ha.sub hd) hdir2))
  refine ⟨ha3.built,ha.sub.trans ha3.sub,fun f hf hfd hnf => ?_,
    (hkd.off (by decide)).trans ha.type,fun r hr => ?_⟩
  · have hfg : f ≠ g := by
      rintro rfl
      exact ha.new hf hnf
    have hk := (ha.kept f hf hfd hfg).trans (hk2 f (ha.sub hf) hfg)
    exact hk.trans (ha3.kept f (ha.sub hf) hfg (((h.placed hf).named (hk.off (by decide))).mpr hnf))
  obtain ⟨j,hj,hr⟩ := ha.old r hr
  rw [← hkd.blockOf hj] at hr
  exact ⟨j,hj,hr⟩

end Built

end Layout

structure HostName (name : List Byte) : Prop where
  ne : name ≠ []
  nul : 0 ∉ name
  slash : Fs.slash ∉ name

structure FitName (name : List Byte) : Prop extends HostName name where
  short : name.length < MAXNAMELEN

def Forest.All (P : List Byte → Prop) : Forest → Prop
  | .nil => True
  | .reg name _ rest => P name ∧ rest.All P
  | .dir name sub rest => (Fmt.leftOut name = false → P name ∧ sub.All P) ∧ rest.All P
  | .other _ rest => rest.All P

namespace Layout.Built

variable {v v' : Layout}

lemma writedirectory {entries : Forest} : ∀ {v v' : Layout} {files : Set Ptr} {d : Ptr},
    Built v files → d ∈ files → v.mem.word d.type = FTYPE_DIR → entries.All FitName →
    v.writedirectory d entries = some v' → ∃ files', Added v v' files files' d := by
  induction entries with
  | nil =>
    intro v v' files d h _ _ _ hw
    cases hw
    exact ⟨files,.refl h d⟩
  | reg name data rest ih =>
    intro v v' files d h hd hdir hall hw
    obtain ⟨v1,h1,hw⟩ := of_bind hw
    obtain ⟨hn,hrest⟩ := hall
    obtain ⟨files1,f,ha,_⟩ := h.writefile hd hdir hn.ne hn.nul hn.short h1
    obtain ⟨files2,ha'⟩ := ih ha.built (ha.sub hd) (ha.type.trans hdir) hrest hw
    exact ⟨files2,ha.trans ha' h⟩
  | dir name sub rest ihs ihr =>
    intro v v' files d h hd hdir hall hw
    obtain ⟨hsub,hrest⟩ := hall
    unfold Layout.writedirectory at hw
    split at hw
    · exact ihr h hd hdir hrest hw
    rename_i hout
    obtain ⟨hn,hsub⟩ := hsub (Bool.not_eq_true _ ▸ hout)
    obtain ⟨⟨g,v1⟩,h1,hw⟩ := of_bind hw
    obtain ⟨v3,h3,hw⟩ := of_bind hw
    obtain ⟨files1,ha⟩ := h.allocfile hd hdir hn.ne hn.nul hn.short h1
    obtain ⟨hb2,_,hdir2⟩ := ha.built.makeDir ha.mem ha.named ha.zero
    obtain ⟨files3,ha3⟩ := ihs hb2 ha.mem hdir2 hsub h3
    have hadd := ha.added h hd hdir ha3
    obtain ⟨files4,ha4⟩ := ihr hadd.built (hadd.sub hd) (hadd.type.trans hdir) hrest hw
    exact ⟨files4,hadd.trans ha4 h⟩
  | other name rest ih =>
    intro v v' files d h hd hdir hall hw
    exact ih h hd hdir hall hw

end Layout.Built

/-- The entries of the root directory are those for the files of `l`. -/
structure Filed (m : Mem) (l : List (List Byte × List Byte)) : Prop where
  each : ∀ x ∈ l, ∃ f, m.Holds rootFile f x.1 x.2
  only : ∀ f, m.InDir rootFile f → m.Named f → ∃ x ∈ l, m.Holds rootFile f x.1 x.2

namespace Layout.Built

variable {v v' : Layout} {l : List (List Byte × List Byte)}

lemma filed {v : Layout} (h : Built v files) (hdir : v.mem.word rootFile.type = FTYPE_DIR)
    (hl : ∀ x ∈ l, FitName x.1) (hfiled : Filed v.mem l) (hn : FitName name)
    (hw : v.writefile rootFile name data = some v') :
    ∃ files', Added v v' files files' rootFile ∧ Filed v'.mem (l++[(name,data)]) := by
  obtain ⟨files',f,ha,hf,hnew,honly⟩ := h.writefile h.tidy.root hdir hn.ne hn.nul hn.short hw
  have hold : ∀ {g x}, x ∈ l → v.mem.Holds rootFile g x.1 x.2 →
      v'.mem.Holds rootFile g x.1 x.2 := by
    intro g x hx hg
    obtain ⟨hgm,hgr⟩ := h.inDir_mem h.tidy.root hdir hg.inDir
    have hng := named_of_nameIs hg.name (hl x hx).ne (hl x hx).nul
    exact hg.kept (ha.kept g hgm hgr hng) (ha.old g hg.inDir) (h.placed hgm) (hl x hx).short
  refine ⟨files',ha,fun x hx => ?_,fun g hg hng => ?_⟩
  · obtain hx | hx := List.mem_append.mp hx
    · obtain ⟨g,hg⟩ := hfiled.each x hx
      exact ⟨g,hold hx hg⟩
    obtain rfl := List.mem_singleton.mp hx
    exact ⟨f,hf⟩
  obtain rfl | ⟨hg,hng⟩ := honly g hg hng
  · exact ⟨_,List.mem_append_right _ (List.mem_singleton_self _),hf⟩
  obtain ⟨x,hx,hgx⟩ := hfiled.only g hg hng
  exact ⟨x,List.mem_append_left _ hx,hold hx hgx⟩

lemma writeFiles : ∀ {v v' : Layout} {files : Set Ptr} {done : List (List Byte × List Byte)},
    Built v files → v.mem.word rootFile.type = FTYPE_DIR → (∀ x ∈ done, FitName x.1) → Filed v.mem
    done → (∀ x ∈ l, FitName (Fmt.basename x.1)) → v.writeFiles l = some v' → ∃ files', Added v v'
    files files' rootFile ∧ Filed v'.mem (done++l.map fun x => (Fmt.basename x.1,x.2)) := by
  induction l with
  | nil =>
    intro v v' files done h _ _ hfiled _ hw
    cases hw
    exact ⟨files,.refl h _,by simpa using hfiled⟩
  | cons x l ih =>
    intro v v' files done h hdir hdone hfiled hl hw
    obtain ⟨v1,h1,hw⟩ := of_bind hw
    have hx := hl x List.mem_cons_self
    obtain ⟨files1,ha,hfiled1⟩ := h.filed hdir hdone hfiled hx h1
    obtain ⟨files2,ha2,hfiled2⟩ := ih ha.built (ha.type.trans hdir) (by
      intro y hy
      obtain hy | hy := List.mem_append.mp hy
      · exact hdone y hy
      obtain rfl := List.mem_singleton.mp hy
      exact hx) hfiled1 (fun y hy => hl y (List.mem_cons_of_mem _ hy)) hw
    refine ⟨files2,ha.trans ha2 h,?_⟩
    rwa [List.append_assoc] at hfiled2

end Layout.Built

end KludgeOS
