import KludgeOS.Fs.Restart

/-!
Which block `alloc_block_num` hands out, and how `file_map_block` ends.
-/

namespace KludgeOS
open BitVec (ofInt)
open BitVec Option Mem

namespace Fs

variable {s t : Fs} {b : Nat} {r : Int}

/-- The superblock has passed `read_super`, and the bitmap is in the cache. -/
structure Mounted (s : Fs) : Prop where
  le : s.view.nblocks ≤ DISKSIZE/BLKSIZE
  ready : Ready s.view s

lemma get_cached {p : Ptr} (h : s.cache p.blk ≠ none) : s.get p = some (s.view.word p) := by
  obtain ⟨pg,hpg⟩ := ne_none_iff_exists'.mp h
  simp [get,hpg,word,view_cached hpg]

lemma Mounted.nblocks (h : s.Mounted) : s.nblocks = some (s.view.word ⟨1,1⟩) :=
  get_cached (h.ready 1 s.view.one_lt_nreserved Nat.one_ne_zero)

lemma Mounted.bitmap (h : s.Mounted) (hb : b < s.view.nblocks) :
    s.get (bitmapAt (b/32)) = some (s.view.word (bitmapAt (b/32))) := by
  refine get_cached (h.ready _ (bitmap_reserved hb) ?_)
  simp only [bitmapAt]
  omega

lemma findWord_returns (n : Nat) : ∀ {i : Nat},
    (∀ k, i ≤ k → k < i+n → s.get (bitmapAt k) ≠ none) → ∃ o, s.findWord n i = some o := by
  induction n with
  | zero => exact fun _ => ⟨none,rfl⟩
  | succ n ih =>
    intro i hget
    obtain ⟨w,hw⟩ := ne_none_iff_exists'.mp (hget i le_rfl (by omega))
    by_cases h0 : w = 0
    · obtain ⟨o,ho⟩ := ih (i := i+1) fun k hk hlt => hget k (by omega) (by omega)
      exact ⟨o,by simp [findWord,hw,h0,ho]⟩
    have h0 : w ≠ 0#32 := h0
    exact ⟨some i,by simp [findWord,hw,h0]⟩

lemma put_returns {p : Ptr} (h : s.cache p.blk ≠ none) (w : Word) : ∃ t, s.put p w = some t := by
  obtain ⟨pg,hpg⟩ := ne_none_iff_exists'.mp h
  simp [put,hpg]

lemma allocBlockNum_returns (h : s.Mounted) : ∃ r t, s.allocBlockNum = some (r,t) := by
  have hget : ∀ k, 0 ≤ k → k < 0+(s.view.word ⟨1,1⟩).toNat/32 → s.get (bitmapAt k) ≠ none := by
    intro k _ hk
    have := h.bitmap (b := 32*k) (by change 32*k < (s.view.word ⟨1,1⟩).toNat; omega)
    rw [Nat.mul_div_cancel_left k (by decide)] at this
    simp [this]
  obtain ⟨o,ho⟩ := findWord_returns _ hget
  obtain ⟨rfl,_⟩ | ⟨k,w,rfl,_,hw,_⟩ := findWord_spec _ ho
  · exact ⟨-E_NO_DISK,s,by simp [allocBlockNum,h.nblocks,ho]⟩
  obtain ⟨t,ht⟩ := put_returns (get_view hw).1 (w&&&~~~bit (lowBit w))
  exact ⟨k*32+lowBit w,t,by simp [allocBlockNum,h.nblocks,ho,hw,ht]⟩

lemma allocBlockNum_spec (h : s.allocBlockNum = some (r,t)) : r = -E_NO_DISK ∧ (∀ b
    < s.view.nblocks/32*32, s.view.isFree b = false) ∨ ∃ b : Nat, r = b ∧ b < s.view.nblocks/32*32 ∧
    s.view.isFree b ∧ (∀ c < b, s.view.isFree c = false) ∧ t.view = s.view.useBit b := by
  have hzero : ∀ {c : Nat}, s.get (bitmapAt (c/32)) = some 0 → s.view.isFree c = false := by
    intro c hc
    simp [isFree,(get_view hc).2]
  obtain ⟨n,hn,hcase⟩ := allocBlockNum_eq h
  obtain rfl : _ = n := (get_view hn).2
  obtain ⟨rfl,_,hz⟩ | ⟨b,w,rfl,hfree,hput,hb,hz,hlow⟩ := hcase
  · refine .inl ⟨rfl,fun b hb => hzero (hz _ ?_)⟩
    change b < (s.view.word ⟨1,1⟩).toNat/32*32 at hb
    omega
  obtain ⟨_,hw,hset⟩ := hfree.view
  refine .inr ⟨b,rfl,?_,hset,fun c hc => ?_,?_⟩
  · change b < (s.view.word ⟨1,1⟩).toNat/32*32
    omega
  · by_cases hcb : c/32 = b/32
    · rw [isFree,hcb,hw]
      exact hlow _ (by omega)
    exact hzero (hz _ (by omega))
  rw [useBit,hw]
  exact congrArg Vol.mem (put_vol hput ∅)

/-- `alloc_block_num` has returned `r`: the lowest free block, whose bit alone has changed, or
`-E_NO_DISK` if there is none. -/
structure TakesLowest (s : Fs) (r : Int) (t : Fs) : Prop where
  full : r = -E_NO_DISK ↔ ∀ b < s.view.nblocks, s.view.isFree b = false
  lowest : r ≠ -E_NO_DISK → ∃ b : Nat, r = b ∧ b < s.view.nblocks ∧ s.view.isFree b ∧
    (∀ c < b, s.view.isFree c = false) ∧
    ∀ c, t.view.isFree c = if c = b then false else s.view.isFree c

theorem takesLowest_iff (h : s.Mounted) : (∃ r t, s.allocBlockNum = some (r,t) ∧ s.TakesLowest r t)
    ↔ ((∃ b < s.view.nblocks, s.view.isFree b) → ∃ b < s.view.nblocks/32*32, s.view.isFree b) := by
  have hle : s.view.nblocks/32*32 ≤ s.view.nblocks := Nat.div_mul_le_self _ _
  obtain ⟨r,t,hnum⟩ := allocBlockNum_returns h
  obtain ⟨rfl,hnone⟩ | ⟨b,rfl,hb,hfree,hlow,hview⟩ := allocBlockNum_spec hnum
  · refine ⟨fun ⟨r,t,hr,htake⟩ ⟨b,hb,hfree⟩ => ?_,fun hcond => ⟨_,_,hnum,⟨?_,?_⟩⟩⟩
    · rw [hnum] at hr
      cases hr
      rw [htake.full.mp rfl b hb] at hfree
      cases hfree
    · refine iff_of_true rfl fun b hb => ?_
      by_contra hfree
      obtain ⟨c,hc,hfree⟩ := hcond ⟨b,hb,Bool.eq_true_of_not_eq_false hfree⟩
      rw [hnone c hc] at hfree
      cases hfree
    · exact fun hne => absurd rfl hne
  refine ⟨fun _ _ => ⟨b,hb,hfree⟩,fun _ => ⟨_,_,hnum,⟨?_,fun _ => ?_⟩⟩⟩
  · refine iff_of_false ?_ fun hall => ?_
    · have : E_NO_DISK = 9 := rfl
      omega
    rw [hall b (by omega)] at hfree
    cases hfree
  refine ⟨b,rfl,by omega,hfree,hlow,fun c => ?_⟩
  rw [hview,isFree_useBit]
  by_cases hc : c = b <;> simp [hc]

def sparseDisk (b : Nat) : Mem := freeBit (diskOf [(1,0,FS_MAGIC),(1,1,40)]) b

lemma sparseDisk_mounted {b : Nat} (hb : b = 17 ∨ b = 34) :
    ∃ s, (freshFs (sparseDisk b)).fsInit = some s ∧ s.Mounted ∧ s.view.nblocks = 40 ∧
      (∀ c < 40, s.view.isFree c = decide (c = b)) ∧
      s.allocBlockNum.map Prod.fst = some (if b = 17 then 17 else -E_NO_DISK) := by
  have hrun : ((freshFs (sparseDisk b)).fsInit.map fun s =>
      decide ((s.cache 1 ≠ none ∧ s.cache 2 ≠ none) ∧ s.view.nblocks = 40 ∧
        (∀ c < 40, s.view.isFree c = decide (c = b)) ∧
        s.allocBlockNum.map Prod.fst = some (if b = 17 then 17 else -E_NO_DISK))) = some true := by
    obtain rfl | rfl := hb <;> decide +kernel
  obtain ⟨s,hs,⟨h1,h2⟩,hn,hrest⟩ := of_map_decide hrun
  refine ⟨s,hs,⟨by rw [hn]; decide,fun c hc h0 => ?_⟩,hn,hrest⟩
  rw [nreserved,hn] at hc
  obtain rfl | rfl : c = 1 ∨ c = 2 := by omega
  · exact h1
  exact h2

theorem takesLowest_lost : ∃ s, (freshFs (sparseDisk 34)).fsInit = some s ∧ s.Mounted ∧
    34 < s.view.nblocks ∧ s.view.isFree 34 ∧ s.allocBlockNum.map Prod.fst = some (-E_NO_DISK) ∧
    ¬∃ r t, s.allocBlockNum = some (r,t) ∧ s.TakesLowest r t := by
  obtain ⟨s,hs,hm,hn,hfree,hnum⟩ := sparseDisk_mounted (.inr rfl)
  have h34 : s.view.isFree 34 := hfree 34 (by decide)
  refine ⟨s,hs,hm,by omega,h34,hnum,?_⟩
  rintro ⟨r,t,hr,htake⟩
  rw [hr] at hnum
  rw [htake.full.mp (some.inj hnum) 34 (by omega)] at h34
  cases h34

theorem takesLowest_found : ∃ s, (freshFs (sparseDisk 17)).fsInit = some s ∧
    ∃ r t, s.allocBlockNum = some (r,t) ∧ s.TakesLowest r t := by
  obtain ⟨s,hs,hm,hn,hfree,_⟩ := sparseDisk_mounted (.inl rfl)
  exact ⟨s,hs,(takesLowest_iff hm).mpr fun _ => ⟨17,by omega,hfree 17 (by decide)⟩⟩

/-! `file_map_block`. -/

variable {f p : Ptr} {w v : Word} {alloc : Bool} {s1 : Fs}

def Tame (s t : Fs) : Prop := ∃ l, t.notes = l++s.notes ∧ Note.wild ∉ l

lemma Tame.of_eq (h : t.notes = s.notes) : Tame s t := ⟨[],h,List.not_mem_nil⟩

lemma Tame.trans {u : Fs} (h : Tame s t) (h' : Tame t u) : Tame s u := by
  obtain ⟨l,hl,hw⟩ := h
  obtain ⟨l',hl',hw'⟩ := h'
  exact ⟨l'++l,by rw [hl',hl,List.append_assoc],by simp [hw,hw']⟩

lemma put_keeps (h : s.put p w = some t) : t.view = s.view.put p w ∧ Keeps s t ∧ Tame s t := by
  have hvol := put_vol h ∅
  obtain ⟨pg,hpg,rfl⟩ := put_eq h
  exact ⟨congrArg Vol.mem hvol,fun x hx => (congrFun (congrArg Vol.cached hvol) x).mpr hx,.of_eq rfl⟩

lemma Handed.keeps (h : Handed s b t) : Tame s t ∧ Keeps s t ∧ t.cache b ≠ none ∧
    (∀ p : Ptr, s.cache p.blk ≠ none → t.view.word p = s.view.word p) ∧
    (s.cache b = none → ∀ i, t.view.word ⟨b,i⟩ = 0) := by
  cases h with
  | fresh chance hb =>
    have hvol := setCache_vol {s with chance := chance} b zeroPage ∅
    refine ⟨⟨[_],rfl,by simp⟩,fun x hx => ?_,by simp [note],fun p hp => ?_,fun _ i => ?_⟩
    · exact (congrFun (congrArg Vol.cached hvol) x).mpr (.inr hx)
    · refine (congrArg (fun v => v.mem.word p) hvol).trans (word_fill_ne _ _ ?_)
      rintro rfl
      exact hp hb
    exact (congrArg (fun v => v.mem.word ⟨b,i⟩) hvol).trans (word_fill_self _ _ rfl)
  | reuse hb =>
    exact ⟨⟨[_],rfl,by simp⟩,fun _ hx => hx,by simp [note,hb],fun _ _ => rfl,by simp [hb]⟩

lemma allocBlock_cases (h : s.allocBlock = some (r,t)) : Tame s t ∧
    Keeps s t ∧ ((r = -E_NO_DISK ∨ r = -E_NO_MEM ∧ ∃ b < s.view.nblocks, s.view.isFree b) ∧
    t.view = s.view ∨ ∃ b : Nat, r = b ∧ b < s.view.nblocks ∧ s.view.isFree b ∧ t.cache b ≠ none ∧
    (∀ p : Ptr, s.cache p.blk ≠ none → t.view.word p = (s.view.useBit b).word p) ∧
    (s.cache b = none → ∀ i, t.view.word ⟨b,i⟩ = 0)) := by
  cases allocBlock_allocated h with
  | full => exact ⟨.of_eq rfl,fun _ hx => hx,.inl ⟨.inl rfl,rfl⟩⟩
  | @noMem b w pg chance hfree hpg =>
    have hvol : ({s with chance := chance}.setCache (bitmapAt (b/32)).blk
        {pg with dirty := true}).vol ∅ = s.vol ∅ := dirtied_vol hpg ∅
    obtain ⟨hb,_,hfree⟩ := hfree.view
    exact ⟨.of_eq rfl,fun x hx => (congrFun (congrArg Vol.cached hvol) x).mpr hx,
      .inl ⟨.inr ⟨rfl,b,hb,hfree⟩,congrArg Vol.mem hvol⟩⟩
  | @done b w s1 s2 _ hfree hput hhand hwrite =>
    obtain ⟨hview1,hkeep1,htame1⟩ := put_keeps hput
    obtain ⟨htame2,hkeep2,hc,hview2,hzero⟩ := hhand.keeps
    have hvol := writeBlock_vol hwrite ∅
    have hview3 : t.view = s2.view := congrArg Vol.mem hvol
    have hkeep3 : Keeps s2 t := fun x hx => (congrFun (congrArg Vol.cached hvol) x).mpr hx
    have htame3 : Tame s2 t := by
      obtain ⟨pg,_,rfl⟩ := writeBlock_eq hwrite
      exact .of_eq rfl
    obtain ⟨hb,hw,hfree⟩ := hfree.view
    refine ⟨(htame1.trans htame2).trans htame3,(hkeep1.trans hkeep2).trans hkeep3,
      .inr ⟨b,rfl,hb,hfree,hkeep3 b hc,fun p hp => ?_,fun hb0 => ?_⟩⟩
    · rw [hview3,hview2 p (hkeep1 _ hp),hview1,useBit,hw]
    rw [hview3]
    refine hzero ?_
    obtain ⟨pg,hpg,rfl⟩ := put_eq hput
    have hne : b ≠ (bitmapAt (b/32)).blk := by
      intro he
      rw [← he,hb0] at hpg
      cases hpg
    simpa [setCache,Function.update_of_ne hne] using hb0

lemma Loaded.keeps (h : Loaded s b r t) (hr : ¬r < 0) : Tame s t ∧ Keeps s t := by
  cases h with
  | cached _ => exact ⟨.of_eq rfl,fun _ hx => hx⟩
  | noMem _ _ | unread _ _ _ => exact absurd (by decide) hr
  | done chance hb =>
    have hvol := setCache_vol {s with chance := chance} b {words := s.disk b, dirty := false} ∅
    exact ⟨.of_eq rfl,fun x hx => (congrFun (congrArg Vol.cached hvol) x).mpr (.inr hx)⟩

/-- `f` is a file: its words are cached, it is in a block in use, and its indirect block is
another. -/
structure FileAt (s : Fs) (f : Ptr) : Prop where
  fits : s.view.nreserved ≤ s.view.nblocks ∧ s.view.nblocks ≤ DISKSIZE/BLKSIZE
  sys : ∀ b < s.view.nreserved, s.view.isFree b = false
  ready : Ready s.view s
  placed : Placed s.view f
  cached : s.cache f.blk ≠ none
  used : s.view.isFree f.blk = false
  indirect : s.view.word f.indirect ≠ 0 → s.view.Usable (s.view.word f.indirect).toNat ∧
    s.view.isFree (s.view.word f.indirect).toNat = false ∧ (s.view.word f.indirect).toNat ≠ f.blk

lemma diskaddr_returns (h : s.get ⟨1,1⟩ = some v) (hw : w.toNat < v.toNat) :
    s.diskaddr w = some w.toNat := by
  have hlt : ¬v ≤ w := by
    rw [BitVec.not_le]
    exact hw
  simp [diskaddr,nblocks,h,hlt]

lemma writeBlock_returns {n : Word} (hn : s.get ⟨1,1⟩ = some n) (hw : w.toNat < n.toNat)
    (hc : s.cache w.toNat ≠ none) : ∃ t, s.writeBlock w = some t := by
  obtain ⟨pg,hpg⟩ := ne_none_iff_exists'.mp hc
  simp [writeBlock,diskaddr_returns hn hw,hpg,remap]

lemma allocBlock_returns (hr : Ready s.view s) (hfits : s.view.nreserved ≤ s.view.nblocks ∧
    s.view.nblocks ≤ DISKSIZE/BLKSIZE) (hsys : ∀ b < s.view.nreserved, s.view.isFree b = false)
    : ∃ r t, s.allocBlock = some (r,t) := by
  obtain ⟨r,s1,hnum⟩ := allocBlockNum_returns ⟨hfits.2,hr⟩
  obtain ⟨_,_,⟨rfl,rfl,_⟩ | ⟨b,x,rfl,hfree,hput,_⟩⟩ := allocBlockNum_eq hnum
  · exact ⟨-E_NO_DISK,_,by simp [allocBlock,hnum,E_NO_DISK]; rfl⟩
  obtain ⟨hb,hx,hbit⟩ := hfree.view
  obtain ⟨hview1,hkeep1,_⟩ := put_keeps hput
  have hne : ∀ c < s.view.nreserved, c ≠ b := by
    rintro c hc rfl
    rw [hsys c hc] at hbit
    cases hbit
  have hres := s.view.one_lt_nreserved
  have hn1 : s1.get ⟨1,1⟩ = some (s.view.word ⟨1,1⟩) := by
    rw [get_cached (hkeep1 1 (hr 1 hres Nat.one_ne_zero)),hview1,
      word_put_ne (bitmapAt_ne_super _).symm]
  have hbits : s1.cache (bitmapAt (b/32)).blk ≠ none := hkeep1 _ (get_view hfree.word).1
  generalize hw : ofInt 32 (b : Int) = w
  have hwb : w.toNat = b := by rw [← hw,ofInt_natCast,toNat_ofNat,Nat.mod_eq_of_lt hfree.lt_word]
  generalize hv : 2+BitVec.ofNat 32 (b/BLKBITSIZE) = v
  -- The bitmap block that is written back is that of the bit.
  have hvb : v.toNat = (bitmapAt (b/32)).blk := by
    rw [← hv,bitmap_blockno hb]
    simp only [bitmapAt,show BLKBITSIZE = 32768 from rfl]
    omega
  have hwrite : ∀ u, Handed s1 b u → ∃ t, u.writeBlock v = some t := by
    intro u hu
    obtain ⟨_,hkeep,_,hview,_⟩ := hu.keeps
    refine writeBlock_returns (n := s.view.word ⟨1,1⟩) ?_ ?_ (by rw [hvb]; exact hkeep _ hbits)
    · rw [get_cached (hkeep 1 (get_view hn1).1),hview _ (get_view hn1).1,(get_view hn1).2]
    rw [hvb]
    exact lt_of_lt_of_le (bitmap_reserved hb) hfits.1
  have haddr : s1.diskaddr w = some w.toNat := diskaddr_returns hn1 (by rw [hwb]; exact hb)
  obtain ⟨r,u,hu⟩ : ∃ r u, s1.mapBlock w = some (r,u) := by
    cases hc : s1.cache w.toNat with
    | none => exact ⟨_,_,by simp [mapBlock,blockIsMapped,haddr,hc]; rfl⟩
    | some pg => exact ⟨0,s1,by simp [mapBlock,blockIsMapped,haddr,hc]⟩
  have hcases := mapBlock_eq hu
  rw [hwb] at hcases
  have hneg : ¬(b : Int) < 0 := by omega
  simp only [allocBlock,hnum,bind_eq_bind,bind_some,if_neg hneg,hw,hwb,hu,hv]
  obtain ⟨rfl,rfl,hc⟩ | ⟨l,hc,⟨rfl,rfl⟩ | ⟨rfl,rfl⟩⟩ := hcases
  · obtain ⟨pg,hpg⟩ := ne_none_iff_exists'.mp hc
    obtain ⟨t,ht⟩ := hwrite _ (.reuse hpg)
    simp [hpg,ht]
  · obtain ⟨pg,hpg⟩ := ne_none_iff_exists'.mp hbits
    have h0 : w ≠ 0#32 := by
      rintro rfl
      exact hne 0 (by omega) hwb
    simp [E_NO_MEM,freeBlock,h0,hwb,get,put,hpg]
  obtain ⟨t,ht⟩ := hwrite _ (.fresh l hc)
  simp [hc,ht]

lemma loadBlock_returns (s : Fs) (b : Nat) : ∃ r t, s.loadBlock b = some (r,t) := by
  cases hb : s.cache b with
  | some pg => exact ⟨0,s,by simp [loadBlock,hb]⟩
  | none =>
    rcases hc : s.chance with _ | ⟨_ | _,_ | ⟨_ | _,_⟩⟩ <;>
      simp [loadBlock,hb,sysPageAlloc,luck,hc,ideRead,setCache,remap,E_NO_MEM]

lemma FileAt.readBlock_returns (h : s.FileAt f) (h0 : s.view.word f.indirect ≠ 0) :
    ∃ r t, s.readBlock (s.view.word f.indirect) = some (r,t) := by
  obtain ⟨husable,hused,_⟩ := h.indirect h0
  have hm : s.Mounted := ⟨h.fits.2,h.ready⟩
  obtain ⟨r,t,ht⟩ := loadBlock_returns s (s.view.word f.indirect).toNat
  have hlt : ¬s.view.word ⟨1,1⟩ ≤ s.view.word f.indirect := by
    rw [BitVec.not_le]
    exact husable.2
  have hfree : s.blockIsFree (s.view.word f.indirect) = some false := by
    simp [blockIsFree,hm.nblocks,hlt,hm.bitmap husable.2]
    exact hused
  exact ⟨r,t,by simp [readBlock,diskaddr_returns hm.nblocks husable.2,hfree,ht]⟩

/-- Block `w` of `f` is in its indirect block, and reading that fails with `e`. -/
def ReadFails (s : Fs) (f : Ptr) (w : Word) (e : Int) : Prop :=
  NDIRECT ≤ w.toNat ∧ w.toNat < NINDIRECT ∧ s.view.word f.indirect ≠ 0 ∧ e < 0 ∧
    ∃ t, s.readBlock (s.view.word f.indirect) = some (e,t)

def Sought (s : Fs) (f : Ptr) (w : Word) : Prop := w.toNat < NINDIRECT ∧ ∀ e, ¬s.ReadFails f w e

/-- The words of `f`, its indirect block and the bitmap are as they were. -/
def SameFile (s : Fs) (f : Ptr) (t : Fs) : Prop :=
  (∀ i < 64, t.view.word (f.off i) = s.view.word (f.off i)) ∧
  (s.view.word f.indirect ≠ 0 →
    t.view (s.view.word f.indirect).toNat = s.view (s.view.word f.indirect).toNat) ∧
  ∀ b < s.view.nblocks, t.view.isFree b = s.view.isFree b

lemma SameFile.of_eq (h : t.view = s.view) (f : Ptr) : SameFile s f t := by
  rw [SameFile,h]
  exact ⟨fun _ _ => rfl,fun _ => rfl,fun _ _ => rfl⟩

/-- Block `v` was free, is in use now, and is not the indirect block. -/
def NewBlock (s : Fs) (f : Ptr) (v : Word) (t : Fs) : Prop :=
  v.toNat < s.view.nblocks ∧ s.view.isFree v.toNat ∧ t.view.isFree v.toNat = false ∧
    t.view.word f.indirect ≠ v

/-- How `file_map_block` is to end, with `*diskbno = v` if it returns 0. -/
inductive MapsTo (s : Fs) (f : Ptr) (w : Word) (alloc : Bool) : Int → Word → Fs → Prop where
  | range {v : Word} {t : Fs} : NINDIRECT ≤ w.toNat → SameFile s f t →
      MapsTo s f w alloc (-E_INVAL) v t
  | unread {e : Int} {v : Word} {t : Fs} : s.ReadFails f w e → SameFile s f t →
      MapsTo s f w alloc e v t
  | absent {v : Word} {t : Fs} : s.Sought f w → s.view.blockOf f w.toNat = 0 → alloc = false →
      SameFile s f t → MapsTo s f w alloc (-E_NOT_FOUND) v t
  | full {r : Int} {v : Word} {t : Fs} : s.Sought f w → s.view.blockOf f w.toNat = 0 → alloc →
      (r = -E_NO_DISK ∨ r = -E_NO_MEM ∧ ∃ b < s.view.nblocks, s.view.isFree b) →
      SameFile s f t → MapsTo s f w alloc r v t
  | found {v : Word} {t : Fs} : s.Sought f w → v ≠ 0 → t.view.blockOf f w.toNat = v →
      (s.view.blockOf f w.toNat = v ∨ s.view.blockOf f w.toNat = 0 ∧ alloc ∧ NewBlock s f v t) →
      MapsTo s f w alloc 0 v t

lemma MapsTo.same (h : MapsTo s f w alloc r v t) (hr : r < 0) : SameFile s f t := by
  cases h with
  | range _ hs | unread _ hs | absent _ _ _ hs | full _ _ _ _ hs => exact hs
  | found _ _ _ _ => exact absurd hr (by decide)

/-- `file_map_block` returns, and follows no pointer that was never set. -/
def MapsCleanly (s : Fs) (f : Ptr) (w : Word) (alloc : Bool) : Prop :=
  ∃ r v t, s.fileMapBlock f w alloc = some (r,v,t) ∧ Tame s t ∧ MapsTo s f w alloc r v t

/-- `alloc_block_num` can find two free blocks, no page is refused, and no free block has been left
in the cache with something in word `i`. -/
structure Room (s : Fs) (i : Nat) : Prop where
  two : ∃ b c, b ≠ c ∧ b < s.view.nblocks/32*32 ∧ c < s.view.nblocks/32*32 ∧
    s.view.isFree b ∧ s.view.isFree c
  memory : ∀ c ∈ s.chance, c = .ok
  clear : ∀ b < s.view.nblocks, s.view.isFree b → s.cache b ≠ none → s.view.word ⟨b,i⟩ = 0

lemma fileMapBlock_slot (h : s.fileMapBlock f w alloc = some (r,v,t)) (hwalk :
    s.fileBlockWalk f w alloc = some (0,some p,s1)) : s1.cache p.blk ≠ none ∧ (s1.view.word p ≠ 0 ∧
    r = 0 ∧ v = s1.view.word p ∧ t = s1 ∨ s1.view.word p = 0 ∧ alloc = false ∧ r = -E_NOT_FOUND ∧
    t = s1 ∨ s1.view.word p = 0 ∧ alloc ∧ ∃ r' s2, s1.allocBlock = some (r',s2) ∧ (r' < 0 ∧
    r = r' ∧ t = s2 ∨ ¬r' < 0 ∧ r = 0 ∧ v = ofInt 32 r' ∧ s2.put p (ofInt 32 r') = some t)) := by
  simp only [fileMapBlock,hwalk,bind_eq_bind,bind_some,follow] at h
  rw [if_neg (by decide)] at h
  obtain ⟨x,hx,h⟩ := of_bind h
  obtain ⟨hc,rfl⟩ := get_view hx
  refine ⟨hc,?_⟩
  split at h
  · rename_i h0
    cases alloc with
    | false =>
      cases h
      exact .inr (.inl ⟨h0,rfl,rfl,rfl⟩)
    | true =>
      obtain ⟨⟨r',s2⟩,hal,h⟩ := of_bind h
      simp only at h
      split at h
      · rename_i hneg
        cases h
        exact .inr (.inr ⟨h0,rfl,_,_,hal,.inl ⟨hneg,rfl,rfl⟩⟩)
      rename_i hneg
      obtain ⟨s3,hput,h⟩ := of_bind h
      cases h
      exact .inr (.inr ⟨h0,rfl,r',s2,hal,.inr ⟨hneg,rfl,rfl,hput⟩⟩)
  rename_i h0
  cases h
  exact .inl ⟨h0,rfl,rfl,rfl⟩

lemma FileAt.off_kept (h : s.FileAt f) {i c : Nat} (hi : i < 64) (hc : c < s.view.nblocks)
    (ht : ∀ p : Ptr, s.cache p.blk ≠ none → t.view.word p = (s.view.useBit c).word p) :
    t.view.word (f.off i) = s.view.word (f.off i) := by
  rw [ht _ (by rw [h.placed.off hi]; exact h.cached),useBit,
    word_put_ne ((h.placed.off_ne_sys hi).2 c hc)]

lemma FileAt.new_block (h : s.FileAt f) (hb : b < s.view.nblocks) (hfree : s.view.isFree b) :
    (ofInt 32 (b : Int)).toNat = b ∧ ofInt 32 (b : Int) ≠ 0 ∧ b ≠ f.blk := by
  have hbn : (ofInt 32 (b : Int)).toNat = b := by
    rw [ofInt_natCast,toNat_ofNat]
    exact Nat.mod_eq_of_lt (lt_trans hb (s.view.word ⟨1,1⟩).isLt)
  refine ⟨hbn,fun h0 => ?_,?_⟩
  · rw [h0] at hbn
    have h0 : b = 0 := hbn.symm
    rw [h0,h.sys 0 (by have := s.view.one_lt_nreserved; omega)] at hfree
    cases hfree
  rintro rfl
  rw [h.used] at hfree
  cases hfree

lemma FileAt.mapsTo_slot (hf : s.FileAt f) (h : s.fileMapBlock f w alloc = some (r,v,t))
    (hwalk : s.fileBlockWalk f w alloc = some (0,some p,s1)) (hview : s1.view = s.view)
    (htame : Tame s s1) (hkeep : Keeps s s1) (hs : s.Sought f w) (hp : p ≠ f.indirect)
    (hbit : ∀ b < s.view.nblocks, p ≠ bitmapAt (b/32))
    (hblock : ∀ m : Mem, m.word f.indirect = s.view.word f.indirect →
      m.blockOf f w.toNat = m.word p) : Tame s t ∧ MapsTo s f w alloc r v t := by
  obtain ⟨_,hcase⟩ := fileMapBlock_slot h hwalk
  rw [hview] at hcase
  have hslot := hblock s.view rfl
  obtain ⟨h0,rfl,rfl,rfl⟩ | ⟨h0,rfl,rfl,rfl⟩ | ⟨h0,rfl,r',s2,hal,hend⟩ := hcase
  · exact ⟨htame,.found hs h0 (by rw [hview,hslot]) (.inl hslot)⟩
  · exact ⟨htame,.absent hs (hslot.trans h0) rfl (.of_eq hview f)⟩
  obtain ⟨htame2,_,hcase⟩ := allocBlock_cases hal
  rw [hview] at hcase
  obtain ⟨hr',hview2⟩ | ⟨b,rfl,hb,hfree,_,hview2,_⟩ := hcase
  · obtain ⟨_,rfl,rfl⟩ | ⟨hn,_⟩ := hend
    · exact ⟨htame.trans htame2,.full hs (hslot.trans h0) rfl hr' (.of_eq hview2 f)⟩
    exact absurd (by obtain rfl | ⟨rfl,_⟩ := hr' <;> decide) hn
  obtain ⟨hn,_⟩ | ⟨_,rfl,rfl,hput⟩ := hend
  · omega
  obtain ⟨hview3,_,htame3⟩ := put_keeps hput
  obtain ⟨hbn,hb0,_⟩ := hf.new_block hb hfree
  have hind : t.view.word f.indirect = s.view.word f.indirect := by
    rw [hview3,word_put_ne hp.symm]
    exact hf.off_kept (by decide) hb fun q hq => by rw [hview2 q (hkeep _ hq)]
  have hnew : NewBlock s f (ofInt 32 (b : Int)) t := by
    refine ⟨by rw [hbn]; exact hb,by rw [hbn]; exact hfree,?_,fun he => ?_⟩
    · have hc : s.cache (bitmapAt (b/32)).blk ≠ none :=
        hf.ready _ (bitmap_reserved hb) (by simp [bitmapAt])
      rw [hbn,isFree,hview3,word_put_ne (hbit b hb).symm,hview2 _ (hkeep _ hc),← isFree,
        isFree_useBit]
      simp
    rw [hind] at he
    have hused := (hf.indirect (he ▸ hb0)).2.1
    rw [he,hbn,hfree] at hused
    cases hused
  refine ⟨(htame.trans htame2).trans htame3,.found hs hb0 ?_ (.inr ⟨hslot.trans h0,rfl,hnew⟩)⟩
  rw [hblock _ hind,hview3,word_put_self]

lemma fileMapBlock_returns (hwalk : s.fileBlockWalk f w alloc = some (0,some p,s1))
    (hc : s1.cache p.blk ≠ none) (hal : ∃ r t, s1.allocBlock = some (r,t)) :
    ∃ r v t, s.fileMapBlock f w alloc = some (r,v,t) := by
  obtain ⟨r,s2,hal⟩ := hal
  obtain ⟨s3,hput⟩ := put_returns ((allocBlock_cases hal).2.1 _ hc) (ofInt 32 r)
  by_cases h0 : s1.view.word p = 0#32 <;> cases alloc <;> by_cases hr : r < 0 <;>
    simp [fileMapBlock,hwalk,follow,get_cached hc,h0,hal,hr,hput]

lemma FileAt.maps (hf : s.FileAt f) (hread : ∀ e, ¬s.ReadFails f w e)
    (hind : NDIRECT ≤ w.toNat → w.toNat < NINDIRECT → s.view.word f.indirect = 0 → alloc = false) :
    s.MapsCleanly f w alloc := by
  have hd : NDIRECT = 10 := rfl
  have hni : NINDIRECT = 1024 := rfl
  have hblk : ∀ {i}, i < 64 → (f.off i).blk = f.blk := fun hi => by rw [hf.placed.off hi]
  have hget : s.get f.indirect = some (s.view.word f.indirect) :=
    get_cached (by rw [Ptr.indirect,hblk (by decide)]; exact hf.cached)
  by_cases hdir : w.toNat < NDIRECT
  · have hwalk : s.fileBlockWalk f w alloc = some (0,some (f.direct w.toNat),s) := by
      simp [fileBlockWalk,hdir]
    obtain ⟨r,v,t,h⟩ := fileMapBlock_returns hwalk (by rw [Ptr.direct,hblk (by omega)]; exact hf.cached)
      (allocBlock_returns hf.ready hf.fits hf.sys)
    refine ⟨r,v,t,h,hf.mapsTo_slot h hwalk rfl (.of_eq rfl) (fun _ hx => hx) ⟨by omega,hread⟩
      (fun he => ?_) (hf.placed.off_ne_sys (by omega)).2 fun m _ => by rw [blockOf,if_pos hdir]⟩
    have := (hf.placed.off_inj hf.placed (by omega) (by decide) he).2
    omega
  have hge := not_lt.mp hdir
  by_cases hlt : w.toNat < NINDIRECT
  · by_cases h0 : s.view.word f.indirect = 0#32
    · obtain rfl := hind hge hlt h0
      refine ⟨-E_NOT_FOUND,0,s,by simp [fileMapBlock,fileBlockWalk,hdir,hlt,hget,h0,E_NOT_FOUND],
        .of_eq rfl,.absent ⟨hlt,hread⟩ ?_ rfl (.of_eq rfl f)⟩
      rw [blockOf,if_neg hdir]
      exact if_pos h0
    obtain ⟨husable,_,hne⟩ := hf.indirect h0
    obtain ⟨r,s1,hr⟩ := hf.readBlock_returns h0
    have hneg : ¬r < 0 := fun h => hread r ⟨hge,hlt,h0,h,s1,hr⟩
    have hl := (readBlock_loaded hr).1
    obtain ⟨hview,hc⟩ := hl.success hneg
    obtain ⟨htame,hkeep⟩ := hl.keeps hneg
    have hwalk : s.fileBlockWalk f w alloc =
        some (0,some ⟨(s.view.word f.indirect).toNat,w.toNat⟩,s1) := by
      simp [fileBlockWalk,hdir,hlt,hget,h0,hr,hneg]
    obtain ⟨r',v,t,h⟩ := fileMapBlock_returns hwalk hc (allocBlock_returns
      (hview ▸ hf.ready.mono hkeep) (hview ▸ hf.fits) (hview ▸ hf.sys))
    refine ⟨r',v,t,h,hf.mapsTo_slot h hwalk hview htame hkeep ⟨hlt,hread⟩ (fun he => hne ?_)
      (fun b hb he => ?_) fun m hm => by rw [blockOf,if_neg hdir,hm]; exact if_neg h0⟩
    · exact (congrArg Ptr.blk he).trans (hblk (by decide))
    have := bitmap_reserved hb
    rw [← congrArg Ptr.blk he] at this
    exact absurd husable.1 (not_le.mpr this)
  exact ⟨-E_INVAL,0,s,by simp [fileMapBlock,fileBlockWalk,hdir,hlt,E_INVAL],.of_eq rfl,
    .range (not_lt.mp hlt) (.of_eq rfl f)⟩

lemma FileAt.made (hf : s.FileAt f) {s2 : Fs} {b : Nat} (hb : b < s.view.nblocks)
    (hfree : s.view.isFree b) (hkeep : Keeps s s1) (hcached : s1.cache b ≠ none)
    (hview : ∀ p : Ptr, s.cache p.blk ≠ none → s1.view.word p = (s.view.useBit b).word p)
    (hput : s1.put f.indirect (ofInt 32 (b : Int)) = some s2) :
    s2.FileAt f ∧ s2.view.word f.indirect = ofInt 32 (b : Int) ∧ s2.cache b ≠ none ∧
      s2.view.nblocks = s.view.nblocks ∧
      ∀ c < s.view.nblocks, s2.view.isFree c = (s.view.isFree c && decide (c ≠ b)) := by
  obtain ⟨hbn,hb0,hne⟩ := hf.new_block hb hfree
  obtain ⟨hview2,hkeep2,_⟩ := put_keeps hput
  have hword : ∀ p : Ptr, s.cache p.blk ≠ none → p ≠ f.indirect →
      s2.view.word p = (s.view.useBit b).word p := by
    intro p hp hpf
    rw [hview2,word_put_ne hpf,hview p hp]
  have hsys := hf.placed.off_ne_sys (i := 44) (by decide)
  have hn : s2.view.nblocks = s.view.nblocks := by
    rw [Mem.nblocks,hword _ (hf.ready 1 s.view.one_lt_nreserved Nat.one_ne_zero) hsys.1.symm,
      useBit,word_put_ne (bitmapAt_ne_super _).symm,Mem.nblocks]
  have hbit : ∀ c < s.view.nblocks, s2.view.isFree c = (s.view.isFree c && decide (c ≠ b)) := by
    intro c hc
    have hcached : s.cache (bitmapAt (c/32)).blk ≠ none :=
      hf.ready _ (bitmap_reserved hc) (by simp [bitmapAt])
    rw [isFree,hword _ hcached (hsys.2 c hc).symm,← isFree,isFree_useBit]
  have hres : s2.view.nreserved = s.view.nreserved := by simp only [nreserved,hn]
  have hlt : f.blk < s.view.nblocks := by
    obtain rfl | hrec := hf.placed
    · exact lt_of_lt_of_le s.view.one_lt_nreserved hf.fits.1
    exact hrec.usable.2
  have hind : s2.view.word f.indirect = ofInt 32 (b : Int) := by rw [hview2,word_put_self]
  refine ⟨⟨by rw [hres,hn]; exact hf.fits,fun c hc => ?_,fun c hc h0 => ?_,
    hf.placed.imp_right fun hrec => ⟨hrec.aligned,hrec.usable.congr hn⟩,
    hkeep2 _ (hkeep _ hf.cached),by rw [hbit _ hlt,hf.used]; rfl,fun _ => ?_⟩,hind,
    hkeep2 _ hcached,hn,hbit⟩
  · rw [hres] at hc
    rw [hbit c (lt_of_lt_of_le hc hf.fits.1),hf.sys c hc]
    rfl
  · exact hkeep2 _ (hkeep _ (hf.ready c (hres ▸ hc) h0))
  rw [hind,hbn,hbit b hb]
  refine ⟨⟨?_,hn ▸ hb⟩,by simp,hne⟩
  rw [hres]
  by_contra hc
  rw [hf.sys b (not_le.mp hc)] at hfree
  cases hfree

lemma Mounted.root (hm : s.Mounted) (hn : s.view.nblocks = 40)
    (hsys : ∀ b < 3, s.view.isFree b = false) (hind : s.view.word rootFile.indirect = 0) :
    s.FileAt rootFile := by
  have hres : s.view.nreserved = 3 := by rw [nreserved,hn]
  exact ⟨by rw [hres,hn]; decide,by rw [hres]; exact hsys,hm.ready,.inl rfl,
    hm.ready 1 (by omega) (by decide),hsys 1 (by decide),fun h => absurd hind h⟩

end Fs

end KludgeOS
