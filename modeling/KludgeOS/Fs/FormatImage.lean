import KludgeOS.Fs.FormatSpec

/-!
The images that `fs/fsformat.c` makes: their bitmap is exact, and the file server
finds in them the files they were made from.
-/

namespace KludgeOS
open BitVec (ofInt ofNat)
open Option Layout List Mem
open Fmt (basename main)
open Fs (slash byteAt)


def FmtArgs.All (P : List Byte → Prop) : FmtArgs → Prop
  | .files l => ∀ x ∈ l, P (basename x.1)
  | .tree _ entries => entries.All P

variable {P Q R : List Byte → Prop}

lemma Forest.All.and (h : ∀ x, P x → Q x → R x) {entries : Forest} (hp : entries.All P)
    (hq : entries.All Q) : entries.All R := by
  induction entries with
  | nil => trivial
  | reg name data rest ih => exact ⟨h _ hp.1 hq.1,ih hp.2 hq.2⟩
  | dir name sub rest ihs ihr =>
    refine ⟨fun hout => ?_,ihr hp.2 hq.2⟩
    obtain ⟨hp1,hp2⟩ := hp.1 hout
    obtain ⟨hq1,hq2⟩ := hq.1 hout
    exact ⟨h _ hp1 hq1,ihs hp2 hq2⟩
  | other name rest ih => exact ih hp hq

lemma FmtArgs.All.and (h : ∀ x, P x → Q x → R x) {args : FmtArgs} (hp : args.All P)
    (hq : args.All Q) : args.All R := by
  cases args with
  | files l => exact fun x hx => h _ (hp x hx) (hq x hx)
  | tree path entries => exact Forest.All.and h hp hq

structure Image (disk : Mem) (n : Nat) (args : FmtArgs) (v : Layout) (files : Set Ptr) : Prop where
  mem : disk = v.mem
  built : Layout.Built v files
  nblocks : disk.nblocks = n
  magic : disk.word ⟨1,0⟩ = FS_MAGIC
  bits : disk 2 = bitmapOf v.next n
  root : disk.word rootFile.type = FTYPE_DIR
  filed : ∀ l, args = .files l → Filed disk (l.map fun x => (basename x.1,x.2))

lemma Fmt.main_image {z : Int} {args : FmtArgs} {disk : Mem} (h : main z args = some disk)
    (hfit : args.All FitName) : ∃ v files, Image disk (ofInt 32 z).toNat args v files := by
  unfold main at h
  dsimp only at h
  generalize (ofInt 32 z).toNat = n at h ⊢
  split at h
  · cases h
  rename_i hn
  obtain ⟨s0,h0,h⟩ := of_bind h
  obtain ⟨s1,h1,h⟩ := of_bind h
  obtain ⟨s2,h2,h⟩ := of_bind h
  obtain rfl := some.inj h
  obtain ⟨hlt,hs0⟩ := opendisk_holds (by omega) (by omega) h0
  have hb0 := Layout.start_built hlt (by omega : n ≤ 1024)
  have hdir0 : (Layout.start n).mem.word rootFile.type = FTYPE_DIR := Layout.start_dir
  have hn0 := hs0.nblocks.trans (start_nblocks (by omega : n ≤ 1024))
  have hwrite : ∃ v files, Holds s1 v ∧ Pins s0 s1 ∧ Layout.Built v files ∧
      v.mem.word rootFile.type = FTYPE_DIR ∧
      ∀ l, args = .files l → Filed v.mem (l.map fun x => (basename x.1,x.2)) := by
    cases args with
    | files l =>
      cases l with
      | nil => contradiction
      | cons x l =>
        obtain ⟨v,hv,hs1,hp1⟩ := hs0.writeFiles hb0 hdir0 hfit h1
        obtain ⟨files,ha,hfiled⟩ := hb0.writeFiles hdir0 (by simp) start_filed hfit hv
        refine ⟨v,files,hs1,hp1,ha.built,ha.type.trans hdir0,fun l' hl' => ?_⟩
        obtain rfl := FmtArgs.files.inj hl'
        exact hfiled
    | tree path entries =>
      obtain ⟨p,hp⟩ := Holds.withSlash_end path
      have h1 : s0.writedirectory .root (p++[slash]) entries = some s1 := by
        rw [← hp]
        exact h1
      have hroot : Valid s0 .root := trivial
      obtain ⟨v,hv,hs1,hp1⟩ := hs0.writedirectory hroot hb0 hb0.tidy.root hdir0 hfit h1
      obtain ⟨files,ha⟩ := hb0.writedirectory hb0.tidy.root hdir0 hfit hv
      exact ⟨v,files,hs1,hp1,ha.built,ha.type.trans hdir0,by simp⟩
  obtain ⟨v,files,hs1,hp1,hb1,hdir1,hfiled⟩ := hwrite
  have hdisk := (hs1.finishfs hb1.le h2).flushdisk
  have hn1 : v.mem.nblocks = n := hs1.nblocks.symm.trans (hp1.nblocks.trans hn0)
  refine ⟨v,files,hdisk,hb1,?_,?_,?_,?_,fun l hl => ?_⟩
  · rw [hdisk]
    exact hn1
  · rw [hdisk]
    exact hs1.magic
  · rw [hdisk,← hn1]
    exact hs1.bits
  · rw [hdisk]
    exact hdir1
  rw [hdisk]
  exact hfiled l hl

inductive Listed (m : Mem) : Ptr → Prop where
  | root : Listed m rootFile
  | entry {d p : Ptr} {pl : Place} {k : Nat} : Listed m d → m.word d.type = FTYPE_DIR →
      BlockSlot m d pl p → pl.Data → m.word p ≠ 0 → k < BLKFILES →
      m.Named ⟨(m.word p).toNat,64*k⟩ → Listed m ⟨(m.word p).toNat,64*k⟩

lemma Listed.isFile {m : Mem} {f : Ptr} (h : Listed m f) : IsFile m f := by
  induction h with
  | root => exact .root
  | entry _ hdir hp hdata h0 hk _ ih => exact .entry ih hdir hp hdata h0 hk

namespace Image

variable {disk : Mem} {n : Nat} {args : FmtArgs} {v : Layout} {files : Set Ptr}

lemma startable (h : Image disk n args v files) : Startable disk disk := by
  refine ⟨?_,⟨h.magic,?_,fun b hb => ?_⟩,fun _ _ => rfl,fun _ _ hu => hu⟩
  · rw [h.mem]
    exact h.built.tidy.owned
  · rw [h.mem]
    exact h.built.tidy.fits
  rw [h.mem] at hb ⊢
  exact (h.built.tidy.sys b hb).1

lemma listed (h : Image disk n args v files) {f p : Ptr} {pl : Place} (hf : IsFile disk f)
    (hp : BlockSlot disk f pl p) (h0 : disk.word p ≠ 0) : Listed disk f := by
  induction hf generalizing pl p with
  | root => exact .root
  | @entry d q ql k hd hdir hq hdata hq0 hk ih =>
    refine .entry (ih hq hq0) hdir hq hdata hq0 hk ?_
    by_contra hn
    have hfile : (⟨(disk.word q).toNat,64*k⟩ : Ptr) ∈ files := by
      refine h.built.tidy.isFile_mem ?_
      change IsFile v.mem _
      rw [← h.mem]
      exact .entry hd hdir hq hdata hq0 hk
    have hblank := h.built.blank _ hfile (by rwa [← h.mem])
    rw [← h.mem] at hblank
    exact h0 (hp.word_gone hblank)

variable {b : Nat}

lemma used_iff (h : Image disk n args v files) (hb : b < disk.nblocks) :
    disk.isFree b = false ↔ b < disk.nreserved ∨ ∃ f pl p, Listed disk f ∧ BlockSlot disk f pl p ∧
      disk.word p ≠ 0 ∧ (disk.word p).toNat = b := by
  have hres : disk.nreserved = 3 := by
    rw [h.mem]
    exact h.built.nreserved
  constructor
  · intro hu
    by_cases h3 : b < 3
    · exact .inl (by omega)
    have hlt : b < v.next := by
      rw [h.mem] at hu hb
      exact h.built.used_lt hb hu
    obtain hc | ⟨f,hf,pl,p,hp,hw⟩ := h.built.booked b (by omega) hlt
    · exact absurd hc (Set.notMem_empty b)
    have hf' := h.built.reach f hf
    rw [← h.mem] at hf' hp hw
    have h0 : disk.word p ≠ 0 := by
      intro hz
      rw [hz] at hw
      have : (0 : Word).toNat = 0 := rfl
      omega
    exact .inr ⟨f,pl,p,h.listed hf' hp h0,hp,h0,hw⟩
  rintro (hb | ⟨f,pl,p,hf,hp,h0,rfl⟩)
  · exact h.startable.format.used b hb
  exact (h.startable.owned.good f pl p hf.isFile hp h0).2

lemma beyond_used (h : Image disk n args v files) (hn : n ≤ b) (hb : b < 32768) :
    disk.isFree b = false := by
  have hat : Fs.bitmapAt (b/32) = ⟨2,b/32⟩ := by
    simp only [Fs.bitmapAt,Ptr.mk.injEq]
    omega
  rw [isFree,hat]
  change (disk 2 (b/32)).getLsbD (b%32) = _
  rw [h.bits,bitmapOf_bit (by omega) (Nat.mod_lt _ (by decide)),Nat.div_add_mod]
  simp
  omega

end Image

/-- If the names fit, a block is in use just if it is reserved or once in a slot of a reachable
file; and the file server starts. -/
theorem Fmt.bitmap_exact (z : Int) (args : FmtArgs) (disk : Mem) (hhost : args.All HostName)
    (hshort : args.All fun name => name.length < MAXNAMELEN) (h : main z args = some disk)
    : disk.nblocks = (ofInt 32 z).toNat ∧ (∀ b < disk.nblocks, disk.isFree b = false ↔
    b = 0 ∨ b = 1 ∨ 2 ≤ b ∧ b < 2+(disk.nblocks+BLKBITSIZE-1)/BLKBITSIZE ∨
    ∃ f pl p, Listed disk f ∧ BlockSlot disk f pl p ∧ disk.word p ≠ 0 ∧ (disk.word p).toNat = b) ∧
    (∀ f g pl ql p q, Listed disk f → Listed disk g → BlockSlot disk f pl p →
    BlockSlot disk g ql q → disk.word p ≠ 0 → disk.word p = disk.word q → f = g ∧
    pl = ql ∧ 2+(disk.nblocks+BLKBITSIZE-1)/BLKBITSIZE ≤ (disk.word p).toNat ∧ (disk.word p).toNat <
    disk.nblocks) ∧ (∀ b, disk.nblocks ≤ b → b < (disk.nblocks+BLKBITSIZE-1)/BLKBITSIZE*BLKBITSIZE →
    disk.isFree b = false) ∧ ∃ u, (freshFs disk).fsInit = some u := by
  obtain ⟨v,files,hi⟩ := Fmt.main_image h (hhost.and (fun _ hn hs => ⟨hn,hs⟩) hshort)
  have hstart := hi.startable
  have hres : disk.nreserved = 2+(disk.nblocks+BLKBITSIZE-1)/BLKBITSIZE := rfl
  have h2 : 2 ≤ disk.nreserved := Nat.le_add_right 2 _
  refine ⟨hi.nblocks,fun b hb => ?_,fun f g pl ql p q hf hg hp hq h0 he => ?_,fun b hn hb => ?_,?_⟩
  · rw [hi.used_iff hb,← hres]
    constructor
    · rintro (hb | hb)
      · omega
      · exact .inr (.inr (.inr hb))
    rintro (rfl | rfl | hb | hb)
    · exact .inl (by omega)
    · exact .inl (by omega)
    · exact .inl hb.2
    · exact .inr hb
  · obtain rfl := hstart.owned.inj f g pl ql p q hf.isFile hg.isFile hp hq h0 he
    obtain ⟨rfl,rfl⟩ := hstart.owned.spread.slot_inj hf.isFile hg.isFile hp hq
    exact ⟨rfl,rfl,(hstart.owned.good f pl p hf.isFile hp h0).1⟩
  · have hsmall : disk.nblocks ≤ 1024 := by
      rw [hi.mem]
      exact hi.built.small
    refine hi.beyond_used (by rw [← hi.nblocks]; exact hn) ?_
    change b < (disk.nblocks+32768-1)/32768*32768 at hb
    omega
  obtain ⟨u,hu,_⟩ := Restored.fsInit hstart
  exact ⟨u,hu⟩

def twoFiles : FmtArgs := .files [([0x61],[1,2,3]),([0x2F,0x62],replicate 4097 7)]

theorem Fmt.bitmap_exact_two : ∃ disk, main 16 twoFiles = some disk ∧ disk.nblocks = 16 ∧
    (∀ b, disk.nblocks ≤ b → b < (disk.nblocks+BLKBITSIZE-1)/BLKBITSIZE*BLKBITSIZE →
      disk.isFree b = false) ∧ ∃ u, (freshFs disk).fsInit = some u := by
  have hrun : (main 16 twoFiles).isSome := by decide +kernel
  obtain ⟨disk,hdisk⟩ := isSome_iff_exists.mp hrun
  have hhost : twoFiles.All HostName := by
    refine forall_mem_cons.mpr ⟨?_,forall_mem_cons.mpr ⟨?_,by simp⟩⟩
    · exact ⟨by decide,by decide,by decide⟩
    · exact ⟨by decide,by decide,by decide⟩
  have hshort : twoFiles.All fun name => name.length < MAXNAMELEN := by
    exact forall_mem_cons.mpr ⟨by decide,forall_mem_cons.mpr ⟨by decide,by simp⟩⟩
  obtain ⟨hn,_,_,hbeyond,hstart⟩ := Fmt.bitmap_exact 16 twoFiles disk hhost hshort hdisk
  exact ⟨disk,hdisk,hn,hbeyond,hstart⟩

lemma Layout.start_allocfile {n : Nat} {name : List Byte} {g : Ptr} {v : Layout}
    (h3 : 3 ≤ n) (hn : n ≤ 1024) (ha : (start n).allocfile rootFile name = some (g,v)) :
    g = ⟨3,0⟩ ∧ v.next = 4 ∧ (∃ c : Nat → Word, (∀ i < 1024, c i = 0) ∧ v.mem 3 = strcpy c 0 name) ∧
    v.mem.word rootFile.type = FTYPE_DIR ∧ (v.mem.blockOf rootFile 0).toNat = 3 := by
  have hb0 := start_built h3 hn
  have hsize : (start n).mem.word rootFile.size = 0 := by
    rw [Ptr.size,start_root (by decide),superOf_zero (by decide) (by decide)]
  unfold Layout.allocfile at ha
  rw [hsize] at ha
  change (start n).newDirb rootFile 0 name = some (g,v) at ha
  unfold Layout.newDirb at ha
  obtain ⟨⟨b,u1⟩,hfresh,ha⟩ := of_bind ha
  obtain ⟨u2,hst,ha⟩ := of_bind ha
  have hgr := hb0.grow hb0.tidy.root start_dir start_shaped (by rw [hsize]; rfl) hfresh hst
  obtain ⟨hb,hnext,_⟩ := hb0.fresh hfresh
  replace hb : b = 3 := hb
  subst hb
  have hnext2 : (u2.put rootFile.size (u2.mem.word rootFile.size+4096)).next = 4 := by
    rw [Layout.storeblk,if_pos (by decide)] at hst
    obtain rfl := some.inj hst
    exact hnext
  dsimp only at ha
  generalize u2.put rootFile.size (u2.mem.word rootFile.size+4096) = u3 at ha hgr hnext2
  split at ha
  · cases ha
  obtain ⟨rfl,rfl⟩ := some_pair_inj ha
  change _ ∧ (u3.gotit ⟨3,0⟩ name).2.next = 4 ∧
    (∃ c : Nat → Word, _ ∧ (u3.gotit ⟨3,0⟩ name).2.mem 3 = strcpy c 0 name) ∧
    (u3.gotit ⟨3,0⟩ name).2.mem.word _ = _ ∧ ((u3.gotit ⟨3,0⟩ name).2.mem.blockOf _ 0).toNat = 3
  have hmem : (u3.gotit ⟨3,0⟩ name).2.mem = u3.mem.fill 3 (strcpy (u3.mem 3) 0 name) := rfl
  have hone : (u3.gotit ⟨3,0⟩ name).2.mem 1 = u3.mem 1 := by
    rw [hmem]
    exact fill_frame _ _ (by decide)
  refine ⟨rfl,hnext2,⟨u3.mem 3,fun i hi => ?_,by rw [hmem]; exact fill_self _ _ _⟩,?_,?_⟩
  · have hrec : (⟨3,64*(i/64)⟩ : Ptr) ∈ records 3 := ⟨rfl,i/64,by change i/64 < 16; omega,rfl⟩
    have h0 := hgr.zero _ hrec (i%64) (Nat.mod_lt _ (by decide))
    rw [(hgr.built.placed (.inr hrec)).off (Nat.mod_lt _ (by decide))] at h0
    simp only [Nat.div_add_mod] at h0
    exact h0
  · exact (congrFun hone 35).trans (hgr.type.trans start_dir)
  have h0 := hgr.blocks 0 (by decide)
  rw [if_pos rfl] at h0
  have hword : (u3.gotit ⟨3,0⟩ name).2.mem.blockOf rootFile 0 = u3.mem.blockOf rootFile 0 :=
    congrFun hone 36
  rw [hword]
  exact h0

def longName : FmtArgs := .files [(replicate 137 0x61,[])]

namespace Fmt

variable {s t : Fmt} {v : Layout} {f : FileAt}

lemma Holds.writeRounds_nil {left nblk r : Nat} (h : Holds s v) (hw : Fmt.writeRounds f [] left
    s 0 = some (nblk,r,t)) : nblk = 0 ∧ r = 0 ∧ Holds t (v.fill v.next fun _ => 0) ∧ Pins s t := by
  unfold Fmt.writeRounds at hw
  obtain ⟨⟨b,s1⟩,hget,hw⟩ := of_bind hw
  have h3 := h.low
  obtain ⟨_,h1,hp1,hbno,hbusy,hidle⟩ := h.getclr hget (by rw [h.next]; exact h3)
  rw [h.next] at h1 hbno
  simp only [drop_nil,take_nil,length_nil,if_true] at hw
  obtain ⟨rfl,hres⟩ := some_pair_inj hw
  obtain ⟨rfl,rfl⟩ := Prod.mk.inj hres
  have h2 := (h1.setWords hbusy (by rw [hbno]; exact h3) (c := packed [])).putblk b
  have hzero : packed [] = fun _ => 0 := by
    funext i
    simp [packed,ofBytes]
  rw [hbno,fill_fill] at h2
  refine ⟨rfl,rfl,?_,(hp1.trans (Pins.setWords _ _ _)).putblk hidle⟩
  rwa [hzero] at h2 ⊢

theorem long_name_overlaps : ∃ disk f p, main 1024 longName = some disk ∧ Listed disk f ∧
    BlockSlot disk f (.direct 0) p ∧ (disk.word p).toNat = 97 ∧ disk.isFree 97 := by
  have hrun : (main 1024 longName).isSome := by decide +kernel
  obtain ⟨disk,hdisk⟩ := isSome_iff_exists.mp hrun
  have h := hdisk
  unfold main at h
  simp only [show (ofInt 32 1024).toNat = 1024 from rfl] at h
  rw [if_neg (by decide)] at h
  obtain ⟨s0,h0,h⟩ := of_bind h
  obtain ⟨s1,h1,h⟩ := of_bind h
  obtain ⟨s2,h2,h⟩ := of_bind h
  obtain rfl := some.inj h
  obtain ⟨s3,hw,h1⟩ := of_bind h1
  obtain rfl := some.inj h1
  unfold Fmt.writefile at hw
  obtain ⟨⟨f,dirb,s4⟩,ha,hw⟩ := of_bind hw
  obtain ⟨⟨nblk,r,s5⟩,hrounds,hw⟩ := of_bind hw
  obtain rfl := some.inj hw
  obtain ⟨_,hs0⟩ := opendisk_holds (by decide) (by decide) h0
  have hb0 := Layout.start_built (by decide : 3 ≤ 1024) (by decide)
  have hroot : Valid s0 .root := trivial
  obtain ⟨g,v1,ha1,hg⟩ := hs0.allocfile hroot hb0 hb0.tidy.root Layout.start_dir ha
  obtain ⟨hs6,hp6⟩ := hg.holds.fput hg.valid (i := 33) (by decide) FTYPE_REG
  obtain ⟨hv6,hptr6⟩ := hg.valid.pins hp6
  rw [hg.ptr] at hs6 hptr6
  obtain ⟨rfl,rfl,hs7,hp7⟩ := hs6.writeRounds_nil hrounds
  obtain ⟨hv7,hptr7⟩ := hv6.pins hp7
  obtain ⟨hs8,hp8⟩ := hs7.fput hv7 (i := 32) (by decide) (ofNat 32 (0*BLKSIZE+0))
  rw [hptr7,hptr6] at hs8
  have hs9 := hs8.putblk dirb
  obtain ⟨rfl,hnext,⟨c,hc,hblk⟩,hdir,hslot⟩ := start_allocfile (by decide) (by decide) ha1
  have hp9 : Pins s0 (s5.fput f 32 (ofNat 32 (0*BLKSIZE+0))) :=
    ((hg.pins.trans hp6).trans hp7).trans hp8
  generalize hv8 : ((v1.put ((⟨3,0⟩ : Ptr).off 33) FTYPE_REG).fill
    (v1.put ((⟨3,0⟩ : Ptr).off 33) FTYPE_REG).next fun _ => 0).put ((⟨3,0⟩ : Ptr).off 32)
      (ofNat 32 (0*BLKSIZE+0)) = v8 at hs8
  have hnext8 : v8.next = 4 := by
    rw [← hv8]
    exact hnext
  have hn8 : v8.mem.nblocks = 1024 := by
    rw [← hs8.nblocks,hp9.nblocks,hs0.nblocks]
    exact start_nblocks (by decide)
  have hdisk8 := ((hs8.putblk dirb).finishfs (by omega) h2).flushdisk
  have hword : ∀ p : Ptr, p.blk ≠ 4 → p ≠ ⟨3,32⟩ → p ≠ ⟨3,33⟩ → v8.mem.word p = v1.mem.word p := by
    intro p h4 h32 h33
    rw [← hv8]
    refine (word_put_ne h32).trans ((word_fill_ne _ _ ?_).trans (word_put_ne h33))
    change p.blk ≠ v1.next
    rw [hnext]
    exact h4
  rw [hdisk8] at hdisk
  have hname : basename (replicate 137 0x61) = replicate 137 0x61 := by decide
  rw [hname] at hblk
  have hfirst : v8.mem.word ⟨3,34⟩ = 97 := by
    rw [hword _ (by decide) (by decide) (by decide)]
    change v1.mem 3 34 = 97
    have hbyte : ∀ k, 137 < k → k < 140 → byteAt c k = 0 := by
      intro k hk hk'
      rw [byteAt,hc (k/4) (by omega)]
      simp
    rw [hblk]
    simp only [strcpy,ofBytes,length_replicate]
    rw [if_neg (by omega),if_neg (by omega),if_pos (by omega),if_pos (by omega),
      hbyte _ (by decide) (by decide),hbyte _ (by decide) (by decide)]
    simp [List.getD]
  have hdir8 : v8.mem.word rootFile.type = FTYPE_DIR :=
    (hword _ (by decide) (by decide) (by decide)).trans hdir
  have hslot8 : (v8.mem.word (rootFile.direct 0)).toNat = 3 := by
    rw [hword _ (by decide) (by decide) (by decide)]
    exact hslot
  have hnamed : v8.mem.Named ⟨3,0⟩ := by
    have h30 : v8.mem.record ⟨3,0⟩ 0 = strcpy c 0 (replicate 137 0x61) 0 := by
      rw [← hblk]
      exact hword ⟨3,0⟩ (by decide) (by decide) (by decide)
    have hbyte := byteAt_strcpy c 0 (replicate 137 0x61) 0
    rw [if_pos (by simp)] at hbyte
    rw [Named,show byteAt (v8.mem.record ⟨3,0⟩) 0 =
      byteAt (strcpy c 0 (replicate 137 0x61)) 0 by simp only [byteAt,Nat.zero_div,h30],
      hbyte]
    simp
  have hlisted : Listed v8.mem ⟨3,0⟩ := by
    have hne : v8.mem.word (rootFile.direct 0) ≠ 0 := by
      intro hz
      rw [hz] at hslot8
      exact absurd hslot8 (by decide)
    have := Listed.entry (k := 0) .root hdir8 (.direct (by decide)) trivial hne (by decide)
      (by rw [hslot8]; exact hnamed)
    rwa [hslot8] at this
  refine ⟨_,⟨3,0⟩,⟨3,34⟩,hdisk,hlisted,.direct (by decide),?_,?_⟩
  · rw [hfirst]
    rfl
  change (v8.mem 2 3).getLsbD 1
  rw [hs8.bits,hnext8,hn8]
  decide

end Fmt

/-! Reading the files back. -/

namespace Fs

/-- Blocks `i`, `i+1`, … of `f` are got one after the other, `n` of them. Returns their bytes. -/
def readBlocks (s : Fs) (f : Ptr) : (n i : Nat) → Option (List Byte × Fs)
  | 0,_ => some ([],s)
  | n+1,i => do
    let (r,b,s) ← s.fileGetBlock f (ofNat 32 i)
    if r ≠ 0 then none
    else
      let pg ← s.cache b
      let (rest,s) ← s.readBlocks f n (i+1)
      return ((range BLKSIZE).map (byteAt pg.words)++rest,s)

end Fs

lemma bytes_packed {words : Nat → Word} {data : List Byte} (hlen : data.length ≤ BLKSIZE)
    (h : ∀ i < 1024, words i = packed data i) :
    (range BLKSIZE).map (byteAt words) = data++replicate (BLKSIZE-data.length) 0 := by
  have hbs : BLKSIZE = 4096 := rfl
  refine ext_getElem (by simp; omega) fun k hk hk' => ?_
  simp only [length_map,length_range] at hk
  have hbyte : byteAt words k = data.getD k 0 := by
    rw [← byteAt_packed,byteAt,byteAt,h (k/4) (by omega)]
  simp only [getElem_map,getElem_range,hbyte]
  by_cases hkd : k < data.length
  · rw [getElem_append_left hkd,getD_eq_getElem _ _ hkd]
  rw [getElem_append_right (by omega),getElem_replicate,getD_eq_default _ _ (by omega)]

lemma take_block {data rest : List Byte} (h : rest.take (data.length-BLKSIZE) = data.drop BLKSIZE)
    : (data.take BLKSIZE++replicate (BLKSIZE-(data.take BLKSIZE).length) 0++rest).take data.length =
    data := by
  obtain hle | hge := Nat.le_total data.length BLKSIZE
  · rw [take_of_length_le hle,append_assoc,take_left']
    rfl
  have hlen : (data.take BLKSIZE).length = BLKSIZE := by simp [hge]
  rw [hlen,Nat.sub_self,replicate_zero,append_nil,take_append,hlen,h,
    take_of_length_le (by omega),take_append_drop]

namespace Come

variable {disk m : Mem} {n : Nat} {d f : Ptr} {name data : List Byte}

lemma readBlocks (hs : Startable disk m) (hst : Stored disk m f) (hf : m.Holds d f name data)
    (c : Nat) : ∀ {i : Nat} {u : Fs}, Come disk m f n u → i+c = (data.length+4095)/4096 →
    ∃ bytes u', u.readBlocks f c i = some (bytes,u') ∧
      bytes.take (data.length-i*BLKSIZE) = data.drop (i*BLKSIZE) := by
  have hbs : BLKSIZE = 4096 := rfl
  have hni : NINDIRECT = 1024 := rfl
  have hmul : ∀ k, k*BLKSIZE = 4096*k := fun k => Nat.mul_comm _ _
  have hlegal : LegalSize (m.word f.size) := by
    rw [legalSize_iff,hf.size]
    exact hf.fits
  have hblocks : sizeBlocks (m.word f.size) = ((data.length+4095)/4096 : Nat) := by
    rw [sizeBlocks,hlegal.toInt.1,hf.size]
    omega
  induction c with
  | zero =>
    intro i u _ hi
    refine ⟨[],u,rfl,?_⟩
    rw [take_nil,drop_eq_nil_of_le (by rw [hmul]; omega)]
  | succ c ih =>
    intro i u hu hi
    have hle := hf.blocks.le
    have h0 := (hf.blocks.blockOf (j := i) (by omega)).mpr (by omega)
    obtain ⟨u1,hget,hu1,hwords⟩ := hu.getBlock hs hst hlegal (by rw [hblocks]; omega) h0
    obtain ⟨pg,hpg⟩ : ∃ pg, u1.cache (m.blockOf f i).toNat = some pg := by
      have := hwords 0 (by decide)
      unfold Fs.get at this
      obtain ⟨pg,hpg,_⟩ := map_eq_some_iff.mp this
      exact ⟨pg,hpg⟩
    have hpacked : ∀ k < 1024, pg.words k = packed ((data.drop (i*BLKSIZE)).take BLKSIZE) k := by
      intro k hk
      have := hwords k hk
      simp only [Fs.get,hpg,map_some,some.injEq] at this
      rw [this,← hf.contents i (by omega)]
      rfl
    obtain ⟨rest,u2,hrest,hbytes⟩ := ih (i := i+1) hu1 (by omega)
    refine ⟨(range BLKSIZE).map (byteAt pg.words)++rest,u2,
      by simp [Fs.readBlocks,hget,hpg,hrest],?_⟩
    rw [bytes_packed (by simp) hpacked]
    have hlen : data.length-i*BLKSIZE = (data.drop (i*BLKSIZE)).length := by simp
    rw [hlen]
    refine take_block ?_
    rw [drop_drop,length_drop,← Nat.succ_mul,← hbytes,Nat.sub_sub,← Nat.succ_mul]

end Come

namespace Mem

variable {m : Mem} {d g : Ptr} {name : List Byte}

lemma scan_finds {j : Nat}
    (hg : g ∈ records (m.blockOf d j).toNat) (hname : Fs.nameIs (m.record g) name) (c : Nat)
    : ∀ {i : Nat}, (∀ k, i ≤ k → k < i+c → m.blockOf d k ≠ 0) → i ≤ j → j < i+c → i+c ≤ NINDIRECT →
    ∃ f, m.scan d name c i = some f ∧ m.InDir d f ∧ Fs.nameIs (m.record f) name := by
  induction c with
  | zero => intro i _ _ _ _; omega
  | succ c ih =>
    intro i hall hij hj hc
    have h0 := hall i le_rfl (by omega)
    have h0' : m.blockOf d i ≠ 0#32 := h0
    cases hk : Fs.findEntry (m (m.blockOf d i).toNat) name with
    | some k =>
      have hkb : k < BLKFILES := mem_range.mp (mem_of_find?_eq_some hk)
      have hnk := find?_some hk
      exact ⟨⟨(m.blockOf d i).toNat,64*k⟩,by simp [scan,h0',hk],⟨i,by omega,h0,rfl,k,hkb,rfl⟩,hnk⟩
    | none =>
      have hne : i ≠ j := by
        rintro rfl
        obtain ⟨hblk,k,hkb,hidx⟩ := hg
        have := find?_eq_none.mp hk k (mem_range.mpr hkb)
        refine this ?_
        rw [← hname]
        unfold record
        rw [hblk,hidx]
      obtain ⟨f,hf⟩ := ih (i := i+1) (fun k hik hkc => hall k (by omega) (by omega)) (by omega)
        (by omega) (by omega)
      exact ⟨f,by simpa [scan,h0',hk] using hf⟩

lemma resolve_slash (hs : slash ∉ name) (hne : name ≠ []) (hlen : name.length < MAXNAMELEN)
    (hdir : m.word rootFile.type = FTYPE_DIR) (h : m.entry rootFile name = some g) :
    m.resolve (slash :: name) = some g ∧ m.dirsOf (slash :: name) = [rootFile] := by
  have hall : ∀ b ∈ name, (b != slash) := by
    intro b hb
    rw [bne_iff_ne]
    rintro rfl
    exact hs hb
  have htake : name.takeWhile (· != slash) = name := takeWhile_eq_self_iff.mpr hall
  have hdrop : name.dropWhile (· != slash) = [] := dropWhile_eq_nil_iff.mpr hall
  have hskip : Fs.skipSlash (slash :: name) = name := by
    cases name with
    | nil => contradiction
    | cons b name =>
      have := bne_iff_ne.mp (hall b mem_cons_self)
      simp [Fs.skipSlash,this]
  have hnil : Fs.skipSlash [] = [] := rfl
  obtain ⟨b,rest,rfl⟩ := exists_cons_of_ne_nil hne
  unfold resolve dirsOf
  rw [hskip]
  rw [length_cons,length_cons]
  simp only [walk,dirs,if_neg hne,htake,hdrop,h,hnil,hdir]
  simpa using hlen

end Mem

lemma Startable.stored {m : Mem} (f : Ptr) : Stored m m f := ⟨fun _ _ _ => rfl,fun _ _ _ _ _ => rfl⟩

namespace Image

variable {disk : Mem} {n : Nat} {v : Layout} {files : Set Ptr} {l : List (List Byte × List Byte)}

lemma legal_root {args : FmtArgs} (h : Image disk n args v files) :
    ∃ k, Shaped disk rootFile k ∧ (disk.word rootFile.size).toNat = 4096*k ∧ Legal disk rootFile := by
  obtain ⟨k,hk,hsize⟩ := h.built.shaped rootFile h.built.tidy.root
  rw [← h.mem] at hk hsize
  have hsize := hsize h.root
  have hle := hk.le
  refine ⟨k,hk,hsize,?_,fun _ => ?_⟩
  · rw [legalSize_iff,hsize]
    change k ≤ 1024 at hle
    change 4096*k ≤ 4194304
    omega
  rw [hsize]
  exact Nat.mul_mod_right 4096 k

lemma entry (h : Image disk n (.files l) v files) (hfit : ∀ x ∈ l, FitName (basename x.1))
    (hdistinct : (l.map fun x => basename x.1).Nodup) {x : List Byte × List Byte} (hx : x ∈ l) : ∃
    f, disk.entry rootFile (basename x.1) = some f ∧ disk.Holds rootFile f (basename x.1) x.2 := by
  have hfiled := h.filed l rfl
  obtain ⟨k,hk,hsize,_⟩ := h.legal_root
  obtain ⟨g,hg⟩ := hfiled.each _ (List.mem_map_of_mem hx)
  obtain ⟨j,hj,h0,hgj⟩ := hg.inDir
  have hjk := (hk.blockOf hj).mp h0
  have hle := hk.le
  have hrounds : ((disk.word rootFile.size).sdiv 4096).toNat = k := by
    change k ≤ 1024 at hle
    rw [sdiv_small (by omega),hsize]
    omega
  obtain ⟨f,hf,hin,hname⟩ := Mem.scan_finds hgj hg.name k (i := 0)
    (fun i _ hi => (hk.blockOf (by omega)).mpr (by omega)) (by omega) (by omega) (by omega)
  have hentry : disk.entry rootFile (basename x.1) = some f := by
    rw [Mem.entry,hrounds]
    exact hf
  have hfx := hfit x hx
  obtain ⟨y,hy,hfy⟩ := hfiled.only f hin (Mem.named_of_nameIs hname hfx.ne hfx.nul)
  obtain ⟨y,hyl,rfl⟩ := List.mem_map.mp hy
  have hsame := nameIs_inj (hfit y hyl).nul hfx.nul hfy.name hname
  obtain rfl := List.inj_on_of_nodup_map hdistinct hyl hx hsame
  exact ⟨f,hentry,hfy⟩

end Image

/-- The file server opens each of the files that `fsformat` was given, by its name, and reads from
it what was in the file. -/
theorem Fmt.files_read_back (z : Int) (l : List (List Byte × List Byte)) (disk : Mem)
    (hhost : ∀ x ∈ l, HostName (basename x.1))
    (hshort : ∀ x ∈ l, (basename x.1).length < MAXNAMELEN)
    (hdistinct : (l.map fun x => basename x.1).Nodup) (h : main z (.files l) = some disk) :
    ∃ u, (freshFs disk).fsInit = some u ∧ ∀ x ∈ l, ∃ f u1,
      u.fileOpen (slash :: basename x.1) = some (0,some f,u1) ∧
      u1.get f.size = some (ofNat 32 x.2.length) ∧
      ∃ bytes u2, u1.readBlocks f ((x.2.length+BLKSIZE-1)/BLKSIZE) 0 = some (bytes,u2) ∧
        bytes.take x.2.length = x.2 := by
  have hfit : ∀ x ∈ l, FitName (basename x.1) := fun x hx => ⟨hhost x hx,hshort x hx⟩
  obtain ⟨v,files,hi⟩ := Fmt.main_image h hfit
  have hs := hi.startable
  obtain ⟨k,_,_,hlegal⟩ := hi.legal_root
  obtain ⟨u,hu,_⟩ := Restored.fsInit hs
  refine ⟨u,hu,fun x hx => ?_⟩
  obtain ⟨f,hf,hfile⟩ := hi.entry hfit hdistinct hx
  obtain ⟨hres,hdirs⟩ := resolve_slash (hhost x hx).slash (hhost x hx).ne (hshort x hx) hi.root hf
  obtain ⟨u',d,u1,hu',hopen,hcome⟩ := hs.fileOpen
    (fun d hd => ⟨Startable.stored d,by
      rw [hdirs,mem_singleton] at hd
      rw [hd]
      exact hlegal⟩) hres
  obtain rfl := mem_unique hu hu'
  obtain ⟨bytes,u2,hread,hbytes⟩ := hcome.readBlocks hs (Startable.stored f) hfile
    ((x.2.length+4095)/4096) (i := 0) (by omega)
  refine ⟨f,u1,hopen,?_,bytes,u2,hread,by simpa using hbytes⟩
  rw [← hfile.size,BitVec.ofNat_toNat,BitVec.setWidth_eq]
  exact hcome.get hs (by decide)

def otherFiles : List (List Byte × List Byte) := [([0x61],[1,2,3]),([0x2F,0x63],replicate 4097 7)]

theorem Fmt.files_read_back_two : ∃ disk u, main 16 (.files otherFiles) = some disk ∧ (freshFs
    disk).fsInit = some u ∧ ∃ f u1, u.fileOpen [0x2F,0x61] = some (0,some f,u1) ∧ u1.get f.size =
    some 3 ∧ ∃ bytes u2, u1.readBlocks f 1 0 = some (bytes,u2) ∧ bytes.take 3 = [1,2,3] := by
  have hrun : (main 16 (.files otherFiles)).isSome := by decide +kernel
  obtain ⟨disk,hdisk⟩ := isSome_iff_exists.mp hrun
  have hhost : ∀ x ∈ otherFiles, HostName (basename x.1) := by
    refine forall_mem_cons.mpr ⟨?_,forall_mem_cons.mpr ⟨?_,by simp⟩⟩
    · exact ⟨by decide,by decide,by decide⟩
    · exact ⟨by decide,by decide,by decide⟩
  have hshort : ∀ x ∈ otherFiles, (basename x.1).length < MAXNAMELEN :=
    forall_mem_cons.mpr ⟨by decide,forall_mem_cons.mpr ⟨by decide,by simp⟩⟩
  obtain ⟨u,hu,hall⟩ := Fmt.files_read_back 16 otherFiles disk hhost hshort (by decide) hdisk
  exact ⟨disk,u,hdisk,hu,hall ([0x61],[1,2,3]) mem_cons_self⟩

end KludgeOS
