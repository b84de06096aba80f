import KludgeOS.Fs.File

/-!
What the file system's functions can do to the disk and the cache: load a
block, fail to load it, hand out a block, store a word, write a block back.
-/

namespace KludgeOS
open Function (update)
open BitVec (ofInt)
open BitVec Option Function


def Zero (c : Nat → Word) : Prop := ∀ i < 1024, c i = 0

instance (c : Nat → Word) : Decidable (Zero c) :=
  decidable_of_iff (∀ i ∈ List.range 1024, c i = 0) (by simp [Zero])

namespace Fs

def zeroPage : Cached := {words := fun _ => 0, dirty := false}

inductive Tick : Fs → Fs → Prop where
  | luck (s : Fs) (chance : List Chance) (junk : List (Option Ptr)) :
      Tick s {s with chance := chance, junk := junk}
  | wild (s : Fs) : Tick s (s.note .wild)
  | stray (s : Fs) : Tick s (s.note .stray)
  | load {s : Fs} {b : Nat} : s.cache b = none →
      Tick s (s.setCache b {words := s.disk b, dirty := false})
  | unread {s : Fs} {b : Nat} (sectors : Nat) : s.cache b = none →
      Tick s ((s.setCache b
        {words := readSectors (fun _ => 0) (s.disk b) sectors, dirty := decide (0 < sectors)}).note
          (.unread b sectors (s.disk b)))
  | fresh {s : Fs} {b : Nat} : s.cache b = none →
      Tick s ((s.setCache b zeroPage).note (.taken b none (s.disk b)))
  | reuse {s : Fs} {b : Nat} {pg : Cached} : s.cache b = some pg →
      Tick s (s.note (.taken b (some pg) (s.disk b)))
  | put {s : Fs} {p : Ptr} {pg : Cached} (w : Word) : s.cache p.blk = some pg →
      Tick s (s.setCache p.blk {words := update pg.words p.idx w, dirty := true})
  | flush {s : Fs} {b : Nat} {pg : Cached} : s.cache b = some pg →
      Tick s (setCache
        {s with disk := update s.disk b pg.words, past := s.disk :: s.past} b
        {pg with dirty := false})

abbrev Ticks : Fs → Fs → Prop := Relation.ReflTransGen Tick

variable {s t : Fs} {r : Int} {b : Nat} {p : Ptr} {w v : Word}

lemma Tick.once (h : Tick s t) : Ticks s t := .single h

lemma Tick.notes (h : Tick s t) : ∃ l, t.notes = l++s.notes := by
  cases h with
  | luck | load _ | put _ _ | flush _ => exact ⟨[],rfl⟩
  | wild | stray | unread _ _ | fresh _ | reuse _ => exact ⟨[_],rfl⟩

lemma Ticks.notes (h : Ticks s t) : ∃ l, t.notes = l++s.notes := by
  induction h with
  | refl => exact ⟨[],rfl⟩
  | tail _ h ih =>
    obtain ⟨l,hl⟩ := ih
    obtain ⟨m,hm⟩ := h.notes
    exact ⟨m++l,by rw [hm,hl,List.append_assoc]⟩

lemma Ticks.of_notes (h : Ticks s t) {P : Note → Prop} (hP : ∀ n ∈ t.notes, P n) :
    ∀ n ∈ s.notes, P n := by
  obtain ⟨l,hl⟩ := h.notes
  intro n hn
  exact hP n (by rw [hl]; exact List.mem_append_right l hn)

lemma get_eq (h : s.get p = some w) : ∃ pg, s.cache p.blk = some pg ∧ pg.words p.idx = w :=
  map_eq_some_iff.mp h

lemma put_eq (h : s.put p w = some t) : ∃ pg, s.cache p.blk = some pg ∧
    t = s.setCache p.blk {words := update pg.words p.idx w, dirty := true} := by
  obtain ⟨pg,hpg,ht⟩ := map_eq_some_iff.mp h
  exact ⟨pg,hpg,ht.symm⟩

lemma put_ticks (h : s.put p w = some t) : Ticks s t := by
  obtain ⟨pg,hpg,rfl⟩ := put_eq h
  exact (Tick.put w hpg).once

lemma diskaddr_eq (h : s.diskaddr w = some b) : b = w.toNat ∧ ∃ n, s.nblocks = some n ∧ w < n := by
  obtain ⟨n,hn,h⟩ := of_bind h
  split at h
  · cases h
  rename_i hw
  exact ⟨(some.inj h).symm,n,hn,BitVec.not_le.mp hw⟩

@[simp] lemma setCache_self (s : Fs) (b : Nat) (pg : Cached) :
    (s.setCache b pg).cache b = some pg := by simp [setCache]

@[simp] lemma setCache_setCache (s : Fs) (b : Nat) (pg pg' : Cached) :
    (s.setCache b pg).setCache b pg' = s.setCache b pg' := by simp [setCache]

@[simp] lemma setCache_disk (s : Fs) (b : Nat) (pg : Cached) : (s.setCache b pg).disk = s.disk :=
  rfl

lemma luck_eq (s : Fs) : ∃ c l, s.luck = (c,{s with chance := l}) := ⟨_,_,rfl⟩

lemma ideRead_eq (h : s.ideRead b = some (r,t)) : ∃ pg l, s.cache b = some pg ∧
    (r = 0 ∧ t = setCache {s with chance := l} b {words := s.disk b, dirty := true} ∨
      ∃ k : Fin 8, r = -1 ∧ t = (setCache {s with chance := l} b
        { words := readSectors pg.words (s.disk b) k.val,
          dirty := pg.dirty || decide (0 < k.val) }).note (.unread b k.val (s.disk b))) := by
  obtain ⟨pg,hpg,h⟩ := of_bind h
  obtain ⟨c,l,hl⟩ := luck_eq s
  simp only [hl] at h
  cases c with
  | ok =>
    cases h
    exact ⟨pg,l,hpg,.inl ⟨rfl,rfl⟩⟩
  | fail k =>
    cases h
    exact ⟨pg,l,hpg,.inr ⟨k,rfl,rfl⟩⟩

inductive Loaded (s : Fs) (b : Nat) : Int → Fs → Prop where
  | cached : s.cache b ≠ none → Loaded s b 0 s
  | noMem (chance : List Chance) : s.cache b = none →
      Loaded s b (-E_NO_MEM) {s with chance := chance}
  | unread (chance : List Chance) (sectors : Nat) : s.cache b = none →
      Loaded s b (-1) ((setCache {s with chance := chance} b
        {words := readSectors (fun _ => 0) (s.disk b) sectors, dirty := decide (0 < sectors)}).note
          (.unread b sectors (s.disk b)))
  | done (chance : List Chance) : s.cache b = none →
      Loaded s b 0 (setCache {s with chance := chance} b {words := s.disk b, dirty := false})

lemma loadBlock_loaded (h : s.loadBlock b = some (r,t)) : Loaded s b r t := by
  unfold loadBlock at h
  split at h
  · rename_i hb
    cases h
    exact .cached (isSome_iff_ne_none.mp hb)
  rename_i hb
  have hb : s.cache b = none := by simpa using hb
  obtain ⟨c,l,hl⟩ := luck_eq s
  cases c with
  | fail k =>
    simp only [sysPageAlloc,hl] at h
    cases h
    exact .noMem _ hb
  | ok =>
    simp only [sysPageAlloc,hl] at h
    obtain ⟨⟨r',s'⟩,hr,h⟩ := of_bind h
    obtain ⟨pg,m,hpg,⟨rfl,rfl⟩ | ⟨k,rfl,rfl⟩⟩ := ideRead_eq hr
    · simp [remap] at h
      obtain ⟨rfl,rfl⟩ := h
      simpa [setCache] using .done m hb
    simp at hpg h
    obtain ⟨rfl,rfl⟩ := h
    subst hpg
    simpa [setCache,note] using .unread m k.val hb

lemma Loaded.ticks (h : Loaded s b r t) : Ticks s t := by
  cases h with
  | cached _ => exact .refl
  | noMem chance _ => exact (Tick.luck s chance s.junk).once
  | unread chance sectors hb =>
    exact (Tick.luck s chance s.junk).once.tail (.unread (s := {s with chance := chance}) sectors hb)
  | done chance hb =>
    exact (Tick.luck s chance s.junk).once.tail (.load (s := {s with chance := chance}) hb)

lemma readBlock_loaded (h : s.readBlock w = some (r,t)) : Loaded s w.toNat r t ∧
    s.diskaddr w = some w.toNat ∧ s.blockIsFree w = some false := by
  obtain ⟨b,hb,h⟩ := of_bind h
  obtain ⟨free,hf,h⟩ := of_bind h
  obtain ⟨rfl,_⟩ := diskaddr_eq hb
  cases free with
  | true => contradiction
  | false => exact ⟨loadBlock_loaded h,hb,hf⟩

lemma writeBlock_eq (h : s.writeBlock w = some t) : ∃ pg, s.cache w.toNat = some pg ∧ t = setCache
      {s with disk := update s.disk w.toNat pg.words, past := s.disk :: s.past} w.toNat
      {pg with dirty := false} := by
  obtain ⟨b,hb,h⟩ := of_bind h
  obtain ⟨rfl,_⟩ := diskaddr_eq hb
  obtain ⟨pg,hpg,h⟩ := of_bind h
  simp only [remap,hpg] at h
  exact ⟨pg,hpg,(some.inj h).symm⟩

lemma writeBlock_ticks (h : s.writeBlock w = some t) : Ticks s t := by
  obtain ⟨pg,hpg,rfl⟩ := writeBlock_eq h
  exact (Tick.flush hpg).once

lemma freeBlock_eq (h : s.freeBlock w = some t) : w ≠ 0 ∧ ∃ v, s.get (bitmapAt (w.toNat/32)) =
    some v ∧ s.put (bitmapAt (w.toNat/32)) (v|||bit (w.toNat%32)) = some t := by
  unfold freeBlock at h
  split at h
  · cases h
  rename_i hw
  obtain ⟨v,hv,h⟩ := of_bind h
  exact ⟨hw,v,hv,h⟩

/-! `alloc_block`. -/

lemma bit_getLsbD (j k : Nat) (h : j < 32) : (bit j).getLsbD k = decide (k = j) := by
  simp [bit,getLsbD_twoPow,h,eq_comm]

lemma clear_set_bit {j : Nat} (h : w.getLsbD j) : w&&&~~~bit j|||bit j = w := by
  have hj : j < 32 := lt_of_getLsbD h
  apply eq_of_getLsbD_eq
  intro k hk
  simp only [getLsbD_or,getLsbD_and,getLsbD_not,bit_getLsbD j k hj]
  by_cases hkj : k = j
  · subst hkj; simp [h]
  simp [hkj,hk]

lemma lowBit_spec (h : w ≠ 0) : lowBit w < 32 ∧ w.getLsbD (lowBit w) ∧
    ∀ j < lowBit w, w.getLsbD j = false := by
  cases hf : (List.range 32).find? (fun j => w.getLsbD j) with
  | some j =>
    obtain ⟨hj,hm,hlow⟩ := List.find?_range_eq_some.mp hf
    simp only [lowBit,hf,getD_some]
    exact ⟨List.mem_range.mp hm,hj,fun k hk => by simpa using hlow k hk⟩
  | none =>
    have hn := List.find?_eq_none.mp hf
    refine absurd (eq_of_getLsbD_eq fun k hk => ?_) h
    have := hn k (List.mem_range.mpr hk)
    simpa using this

lemma findWord_spec (n : Nat) : ∀ {i : Nat} {o : Option Nat}, s.findWord n i = some o →
    o = none ∧ (∀ k, i ≤ k → k < i+n → s.get (bitmapAt k) = some 0) ∨ ∃ k w, o = some k ∧ k < i+n ∧
    s.get (bitmapAt k) = some w ∧ w ≠ 0 ∧ ∀ l, i ≤ l → l < k → s.get (bitmapAt l) = some 0 := by
  induction n with
  | zero =>
    intro i o h
    cases h
    exact .inl ⟨rfl,by omega⟩
  | succ n ih =>
    intro i o h
    obtain ⟨w,hw,h⟩ := of_bind h
    split at h
    · rename_i h0
      subst h0
      have hrest : ∀ {k l}, (∀ k, i+1 ≤ k → k < l → s.get (bitmapAt k) = some 0) → i ≤ k → k < l →
          s.get (bitmapAt k) = some 0 := by
        intro k l hz hk hlt
        by_cases hki : k = i
        · rw [hki,hw]
        exact hz k (by omega) hlt
      obtain ⟨ho,hz⟩ | ⟨k,v,ho,hk,hv,hne,hz⟩ := ih h
      · exact .inl ⟨ho,fun k hk hlt => hrest hz hk (by omega)⟩
      exact .inr ⟨k,v,ho,by omega,hv,hne,fun l hl hlt => hrest hz hl hlt⟩
    rename_i hne
    cases h
    exact .inr ⟨i,w,rfl,by omega,hw,hne,by omega⟩

/-- Block `b` is marked free in its word `w` of the bitmap. -/
structure FreeAt (s : Fs) (b : Nat) (w : Word) : Prop where
  lt : ∃ n, s.nblocks = some n ∧ b < n.toNat
  word : s.get (bitmapAt (b/32)) = some w
  free : w.getLsbD (b%32)

lemma FreeAt.lt_word (h : s.FreeAt b w) : b < 2^32 := by
  obtain ⟨n,_,hb⟩ := h.lt
  exact lt_trans hb n.isLt

lemma allocBlockNum_eq (h : s.allocBlockNum = some (r,t)) : ∃ n, s.nblocks = some n ∧ (r =
    -E_NO_DISK ∧ t = s ∧ (∀ k < n.toNat/32, s.get (bitmapAt k) = some 0) ∨ ∃ (b : Nat) (w : Word), r
    = b ∧ s.FreeAt b w ∧ s.put (bitmapAt (b/32)) (w&&&~~~bit (b%32)) = some t ∧ b/32 < n.toNat/32 ∧
    (∀ k < b/32, s.get (bitmapAt k) = some 0) ∧ ∀ j < b%32, w.getLsbD j = false) := by
  obtain ⟨n,hn,h⟩ := of_bind h
  refine ⟨n,hn,?_⟩
  obtain ⟨o,ho,h⟩ := of_bind h
  obtain ⟨rfl,hz⟩ | ⟨i,w,rfl,hi,hw,hne,hz⟩ := findWord_spec _ ho
  · cases h
    exact .inl ⟨rfl,rfl,fun k hk => hz k (Nat.zero_le k) (by omega)⟩
  obtain ⟨hlow,hset,hfirst⟩ := lowBit_spec hne
  obtain ⟨w',hw',h⟩ := of_bind h
  obtain rfl := mem_unique hw hw'
  obtain ⟨u,hu,h⟩ := of_bind h
  cases h
  have hdiv : (i*32+lowBit w)/32 = i := by omega
  have hmod : (i*32+lowBit w)%32 = lowBit w := by omega
  refine .inr ⟨i*32+lowBit w,w,by push_cast; rfl,⟨⟨n,hn,by omega⟩,?_,?_⟩,?_⟩
  · rw [hdiv]; exact hw
  · rw [hmod]; exact hset
  rw [hdiv,hmod]
  exact ⟨hu,by omega,fun k hk => hz k (Nat.zero_le k) hk,hfirst⟩

/-- A block goes to the caller of `alloc_block`: with a page of zeros if it was not cached, and
with what its page held if it was. -/
inductive Handed (s : Fs) (b : Nat) : Fs → Prop where
  | fresh (chance : List Chance) : s.cache b = none →
      Handed s b ((setCache {s with chance := chance} b zeroPage).note
        (.taken b none (s.disk b)))
  | reuse {pg : Cached} : s.cache b = some pg →
      Handed s b (s.note (.taken b (some pg) (s.disk b)))

inductive Allocated (s : Fs) : Int → Fs → Prop where
  | full : Allocated s (-E_NO_DISK) s
  | noMem {b : Nat} {w : Word} {pg : Cached} (chance : List Chance) : s.FreeAt b w →
      s.cache (bitmapAt (b/32)).blk = some pg →
      Allocated s (-E_NO_MEM)
        (setCache {s with chance := chance} (bitmapAt (b/32)).blk {pg with dirty := true})
  | done {b : Nat} {w : Word} {s1 s2 t : Fs} : s.FreeAt b w →
      s.put (bitmapAt (b/32)) (w&&&~~~bit (b%32)) = some s1 → Handed s1 b s2 →
      s2.writeBlock (2+BitVec.ofNat 32 (b/BLKBITSIZE)) = some t → Allocated s b t

lemma mapBlock_eq (h : s.mapBlock w = some (r,t)) : r = 0 ∧ t = s ∧ s.cache w.toNat ≠ none ∨
    ∃ l, s.cache w.toNat = none ∧ (r = -E_NO_MEM ∧ t = {s with chance := l} ∨
      r = 0 ∧ t = setCache {s with chance := l} w.toNat zeroPage) := by
  obtain ⟨m,hm,h⟩ := of_bind h
  obtain ⟨b,hb,hm⟩ := of_bind hm
  obtain ⟨rfl,_⟩ := diskaddr_eq hb
  cases hm
  split at h
  · rename_i hc
    cases h
    exact .inl ⟨rfl,rfl,isSome_iff_ne_none.mp hc⟩
  rename_i hc
  obtain ⟨c,l,hl⟩ := luck_eq s
  simp only [sysPageAlloc,hl] at h
  cases c with
  | ok =>
    cases h
    exact .inr ⟨l,by simpa using hc,.inr ⟨rfl,rfl⟩⟩
  | fail k =>
    cases h
    exact .inr ⟨l,by simpa using hc,.inl ⟨rfl,rfl⟩⟩

lemma allocBlock_allocated (h : s.allocBlock = some (r,t)) : Allocated s r t := by
  obtain ⟨⟨bno,s1⟩,hn,hs⟩ := of_bind h
  clear h
  simp only at hs
  obtain ⟨_,_,⟨rfl,rfl,_⟩ | ⟨b,w,rfl,hfree,hput,_⟩⟩ := allocBlockNum_eq hn
  · rw [if_pos (by decide)] at hs
    cases hs
    exact .full
  rw [if_neg (by omega)] at hs
  have hb : (ofInt 32 (b : Int)).toNat = b := by
    rw [ofInt_natCast,toNat_ofNat,Nat.mod_eq_of_lt hfree.lt_word]
  simp only [hb] at hs
  obtain ⟨⟨r',s2⟩,hm,hs⟩ := of_bind hs
  simp only at hs
  have hmap := mapBlock_eq hm
  rw [hb] at hmap
  obtain ⟨rfl,rfl,hc⟩ | ⟨l,hc,⟨rfl,rfl⟩ | ⟨rfl,rfl⟩⟩ := hmap
  · obtain ⟨pg,hpg⟩ := ne_none_iff_exists'.mp hc
    rw [if_neg (by decide)] at hs
    obtain ⟨t',hw,hs⟩ := of_bind hs
    cases hs
    exact .done hfree hput (.reuse hpg) (by rw [hpg] at hw; exact hw)
  · rw [if_pos (by decide)] at hs
    obtain ⟨t',hf,hs⟩ := of_bind hs
    cases hs
    obtain ⟨_,v,hv,hf⟩ := freeBlock_eq hf
    rw [hb] at hv hf
    obtain ⟨pg,hpg,rfl⟩ := put_eq hput
    obtain ⟨pg',hpg',hw⟩ := get_eq hfree.word
    obtain rfl := mem_unique hpg hpg'
    have hv : w&&&~~~bit (b%32) = v := by simpa [get] using hv
    subst hv
    rw [clear_set_bit hfree.free] at hf
    obtain ⟨pg',hpg',rfl⟩ := put_eq hf
    obtain rfl : _ = pg' := by simpa using hpg'
    have hsame : update (update pg.words (bitmapAt (b/32)).idx
        (w&&&~~~bit (b%32))) (bitmapAt (b/32)).idx w = pg.words := by
      rw [update_idem,← hw,update_eq_self]
    simpa [setCache,hsame] using .noMem l hfree hpg
  rw [if_neg (by decide)] at hs
  obtain ⟨t',hw,hs⟩ := of_bind hs
  cases hs
  exact .done hfree hput (.fresh l hc) (by rw [hc] at hw; exact hw)

lemma freeBlock_ticks (h : s.freeBlock w = some t) : Ticks s t := by
  obtain ⟨_,v,_,h⟩ := freeBlock_eq h
  exact put_ticks h

lemma Handed.ticks (h : Handed s b t) : Ticks s t := by
  cases h with
  | fresh chance hb =>
    exact (Tick.luck s chance s.junk).once.tail (.fresh (s := {s with chance := chance}) hb)
  | reuse hb => exact (Tick.reuse hb).once

lemma allocBlock_ticks (h : s.allocBlock = some (r,t)) : Ticks s t := by
  cases allocBlock_allocated h with
  | full => exact .refl
  | @noMem b w pg chance hfree hpg =>
    have h := Tick.put (s := {s with chance := chance}) (p := bitmapAt (b/32))
      (pg.words (bitmapAt (b/32)).idx) hpg
    rw [update_eq_self] at h
    exact (Tick.luck s chance s.junk).once.tail h
  | done _ hput hhand hw => exact ((put_ticks hput).trans hhand.ticks).trans (writeBlock_ticks hw)

/-! The functions on files. -/

variable {f : Ptr} {alloc : Bool} {ptr : Option Ptr} {name path : List Byte}

inductive Walked (s : Fs) (f : Ptr) (w : Word) (alloc : Bool) : Int → Option Ptr → Fs → Prop where
  | direct : w.toNat < NDIRECT → Walked s f w alloc 0 (some (f.direct w.toNat)) s
  | missing : NDIRECT ≤ w.toNat → s.get f.indirect = some 0 → alloc = false →
      Walked s f w alloc (-E_NOT_FOUND) none s
  | made {r : Int} {s1 t : Fs} : NDIRECT ≤ w.toNat → w.toNat < NINDIRECT →
      s.get f.indirect = some 0 → alloc → s.allocBlock = some (r,s1) →
      s1.put f.indirect (ofInt 32 r) = some t →
      t.diskaddr (ofInt 32 r) = some (ofInt 32 r).toNat →
      Walked s f w alloc 0 (some ⟨(ofInt 32 r).toNat,w.toNat⟩) t
  | read {ind : Word} {r : Int} {t : Fs} : NDIRECT ≤ w.toNat → w.toNat < NINDIRECT →
      s.get f.indirect = some ind → ind ≠ 0 → s.readBlock ind = some (r,t) → ¬r < 0 →
      Walked s f w alloc 0 (some ⟨ind.toNat,w.toNat⟩) t
  | unread {ind : Word} {r : Int} {t : Fs} : NDIRECT ≤ w.toNat → w.toNat < NINDIRECT →
      s.get f.indirect = some ind → ind ≠ 0 → s.readBlock ind = some (r,t) → r < 0 →
      Walked s f w alloc 0 none t
  | range : NINDIRECT ≤ w.toNat → Walked s f w alloc (-E_INVAL) none s

lemma fileBlockWalk_walked (h : s.fileBlockWalk f w alloc = some (r,ptr,t)) :
    Walked s f w alloc r ptr t := by
  unfold fileBlockWalk at h
  split at h
  · cases h
    exact .direct ‹_›
  rename_i hdir
  have hdir := Nat.le_of_not_lt hdir
  split at h
  · rename_i hlt
    obtain ⟨ind,hind,h⟩ := of_bind h
    split at h
    · rename_i h0
      subst h0
      cases alloc with
      | true =>
        obtain ⟨⟨r',s1⟩,hr,h⟩ := of_bind h
        obtain ⟨s2,hp,h⟩ := of_bind h
        obtain ⟨b,hb,h⟩ := of_bind h
        obtain ⟨rfl,_⟩ := diskaddr_eq hb
        cases h
        exact .made hdir hlt hind rfl hr hp hb
      | false =>
        cases h
        exact .missing hdir hind rfl
    rename_i h0
    obtain ⟨⟨r',s1⟩,hr,h⟩ := of_bind h
    simp only at h
    split at h
    · cases h
      exact .unread hdir hlt hind h0 hr ‹_›
    cases h
    exact .read hdir hlt hind h0 hr ‹_›
  cases h
  exact .range (Nat.le_of_not_lt ‹_›)

lemma Walked.ticks (h : Walked s f w alloc r ptr t) : Ticks s t := by
  cases h with
  | direct _ | missing _ _ _ | range _ => exact .refl
  | made _ _ _ _ hal hput _ => exact (allocBlock_ticks hal).trans (put_ticks hput)
  | read _ _ _ _ hr _ | unread _ _ _ _ hr _ => exact (readBlock_loaded hr).1.ticks

lemma follow_ticks (h : s.follow ptr = some (p,t)) : Ticks s t := by
  cases ptr with
  | some q =>
    cases h
    exact .refl
  | none =>
    obtain ⟨q,_,h⟩ := of_bind h
    cases h
    exact (Tick.luck s s.chance s.junk.tail).once.tail (.wild _)

inductive Mapped (s : Fs) (f : Ptr) (w : Word) (alloc : Bool) : Int → Word → Fs → Prop where
  | walk {r : Int} {ptr : Option Ptr} {t : Fs} : Walked s f w alloc r ptr t → r < 0 →
      Mapped s f w alloc r 0 t
  | found {r : Int} {ptr : Option Ptr} {p : Ptr} {v : Word} {s1 t : Fs} :
      Walked s f w alloc r ptr s1 → s1.follow ptr = some (p,t) → t.get p = some v → v ≠ 0 →
      Mapped s f w alloc 0 v t
  | hole {r : Int} {ptr : Option Ptr} {p : Ptr} {s1 t : Fs} :
      Walked s f w alloc r ptr s1 → s1.follow ptr = some (p,t) → t.get p = some 0 → alloc = false →
      Mapped s f w alloc (-E_NOT_FOUND) 0 t
  | full {r r' : Int} {ptr : Option Ptr} {p : Ptr} {s1 s2 t : Fs} :
      Walked s f w alloc r ptr s1 → s1.follow ptr = some (p,s2) → s2.get p = some 0 → alloc →
      s2.allocBlock = some (r',t) → r' < 0 → Mapped s f w alloc r' 0 t
  | grown {r r' : Int} {ptr : Option Ptr} {p : Ptr} {s1 s2 s3 t : Fs} :
      Walked s f w alloc r ptr s1 → s1.follow ptr = some (p,s2) → s2.get p = some 0 → alloc →
      s2.allocBlock = some (r',s3) → ¬r' < 0 → s3.put p (ofInt 32 r') = some t →
      Mapped s f w alloc 0 (ofInt 32 r') t

lemma fileMapBlock_mapped (h : s.fileMapBlock f w alloc = some (r,v,t)) :
    Mapped s f w alloc r v t := by
  obtain ⟨⟨r1,ptr,s1⟩,hwalk,h⟩ := of_bind h
  have hw := fileBlockWalk_walked hwalk
  simp only at h
  split at h
  · cases h
    exact .walk hw ‹_›
  obtain ⟨⟨p,s2⟩,hfol,h⟩ := of_bind h
  obtain ⟨x,hx,h⟩ := of_bind h
  split at h
  · rename_i h0
    subst h0
    cases alloc with
    | true =>
      obtain ⟨⟨r2,s3⟩,hal,h⟩ := of_bind h
      simp only at h
      split at h
      · cases h
        exact .full hw hfol hx rfl hal ‹_›
      obtain ⟨s4,hp,h⟩ := of_bind h
      cases h
      exact .grown hw hfol hx rfl hal ‹_› hp
    | false =>
      cases h
      exact .hole hw hfol hx rfl
  cases h
  exact .found hw hfol hx ‹_›

lemma fileMapBlock_ticks (h : s.fileMapBlock f w alloc = some (r,v,t)) : Ticks s t := by
  cases fileMapBlock_mapped h with
  | walk hw _ => exact hw.ticks
  | found hw hfol _ _ | hole hw hfol _ _ => exact hw.ticks.trans (follow_ticks hfol)
  | full hw hfol _ _ hal _ =>
    exact (hw.ticks.trans (follow_ticks hfol)).trans (allocBlock_ticks hal)
  | grown hw hfol _ _ hal _ hput =>
    exact ((hw.ticks.trans (follow_ticks hfol)).trans (allocBlock_ticks hal)).trans (put_ticks hput)

inductive Cleared (s : Fs) (f : Ptr) (w : Word) : Int → Fs → Prop where
  | walk {r : Int} {ptr : Option Ptr} {t : Fs} : Walked s f w false r ptr t → r < 0 →
      Cleared s f w r t
  | hole {r : Int} {ptr : Option Ptr} {p : Ptr} {s1 t : Fs} :
      Walked s f w false r ptr s1 → ¬r < 0 → s1.follow ptr = some (p,t) → t.get p = some 0 →
      Cleared s f w 0 t
  | freed {r : Int} {ptr : Option Ptr} {p : Ptr} {v : Word} {s1 s2 s3 t : Fs} :
      Walked s f w false r ptr s1 → ¬r < 0 → s1.follow ptr = some (p,s2) → s2.get p = some v →
      v ≠ 0 → s2.freeBlock v = some s3 → s3.put p 0 = some t → Cleared s f w 0 t

lemma fileClearBlock_cleared (h : s.fileClearBlock f w = some (r,t)) : Cleared s f w r t := by
  obtain ⟨⟨r1,ptr,s1⟩,hwalk,h⟩ := of_bind h
  have hw := fileBlockWalk_walked hwalk
  simp only at h
  split at h
  · cases h
    exact .walk hw ‹_›
  rename_i hr
  obtain ⟨⟨p,s2⟩,hfol,h⟩ := of_bind h
  obtain ⟨x,hx,h⟩ := of_bind h
  split at h
  · rename_i h0
    cases h
    exact .hole hw hr hfol (h0 ▸ hx)
  obtain ⟨s3,hf,h⟩ := of_bind h
  obtain ⟨s4,hp,h⟩ := of_bind h
  cases h
  exact .freed hw hr hfol hx ‹_› hf hp

lemma fileClearBlock_ticks (h : s.fileClearBlock f w = some (r,t)) : Ticks s t := by
  cases fileClearBlock_cleared h with
  | walk hw _ => exact hw.ticks
  | hole hw _ hfol _ => exact hw.ticks.trans (follow_ticks hfol)
  | freed hw _ hfol _ _ hf hp =>
    exact ((hw.ticks.trans (follow_ticks hfol)).trans (freeBlock_ticks hf)).trans (put_ticks hp)

lemma fileGetBlock_ticks (h : s.fileGetBlock f w = some (r,b,t)) : Ticks s t := by
  obtain ⟨⟨r1,d,s1⟩,hmap,h⟩ := of_bind h
  have h1 := fileMapBlock_ticks hmap
  simp only at h
  split at h
  · cases h
    exact h1
  obtain ⟨⟨r2,s2⟩,hr,h⟩ := of_bind h
  cases h
  exact h1.trans (readBlock_loaded hr).1.ticks

lemma fileDirty_ticks (h : s.fileDirty f w = some (r,t)) : Ticks s t := by
  obtain ⟨⟨r1,b,s1⟩,hget,h⟩ := of_bind h
  have h1 := fileGetBlock_ticks hget
  simp only at h
  split at h
  · cases h
    exact h1
  obtain ⟨x,_,h⟩ := of_bind h
  obtain ⟨s2,hp,h⟩ := of_bind h
  cases h
  exact h1.trans (put_ticks hp)

lemma dirRounds_ticks (n : Nat) : ∀ {s : Fs} {i : Nat},
    s.dirRounds f name n i = some (r,ptr,t) → Ticks s t := by
  induction n with
  | zero =>
    intro s i h
    cases h
    exact .refl
  | succ n ih =>
    intro s i h
    obtain ⟨⟨r1,b,s1⟩,hget,h⟩ := of_bind h
    have h1 := fileGetBlock_ticks hget
    simp only at h
    split at h
    · cases h
      exact h1
    obtain ⟨pg,_,h⟩ := of_bind h
    split at h
    · obtain ⟨s2,hp,h⟩ := of_bind h
      cases h
      exact h1.trans (put_ticks hp)
    exact h1.trans (ih h)

lemma dirLookup_ticks (h : s.dirLookup f name = some (r,ptr,t)) : Ticks s t := by
  obtain ⟨x,_,h⟩ := of_bind h
  split at h
  · cases h
  exact dirRounds_ticks _ h

lemma walkRounds_ticks (n : Nat) : ∀ {s : Fs} {f : Ptr} {path : List Byte},
    s.walkRounds f n path = some (r,ptr,t) → Ticks s t := by
  induction n with
  | zero =>
    intro s f path h
    cases h
    exact .refl
  | succ n ih =>
    intro s f path h
    unfold walkRounds at h
    split at h
    · cases h
      exact .refl
    simp only at h
    split at h
    · cases h
      exact .refl
    obtain ⟨x,_,h⟩ := of_bind h
    split at h
    · cases h
      exact .refl
    obtain ⟨⟨r1,o,s1⟩,hlook,h⟩ := of_bind h
    have h1 := dirLookup_ticks hlook
    cases o with
    | none =>
      cases h
      exact h1
    | some g =>
      simp only at h
      split at h
      · cases h
        exact h1
      exact h1.trans (ih h)

lemma fileOpen_ticks (h : s.fileOpen path = some (r,ptr,t)) : Ticks s t := walkRounds_ticks _ h

lemma clearRounds_ticks (n : Nat) : ∀ {s : Fs} {i : Nat},
    s.clearRounds f n i = some t → Ticks s t := by
  induction n with
  | zero =>
    intro s i h
    cases h
    exact .refl
  | succ n ih =>
    intro s i h
    obtain ⟨⟨r1,s1⟩,hc,h⟩ := of_bind h
    exact (fileClearBlock_ticks hc).trans (ih h)

lemma fileTruncateBlocks_ticks (h : s.fileTruncateBlocks f w = some t) : Ticks s t := by
  obtain ⟨x,_,h⟩ := of_bind h
  obtain ⟨s1,hc,h⟩ := of_bind h
  obtain ⟨ind,_,h⟩ := of_bind h
  have h1 := clearRounds_ticks _ hc
  split at h
  · obtain ⟨s2,hf,h⟩ := of_bind h
    exact (h1.trans (freeBlock_ticks hf)).trans (put_ticks h)
  cases h
  exact h1

lemma flushRounds_ticks (n : Nat) : ∀ {s : Fs} {i : Nat},
    s.flushRounds f n i = some t → Ticks s t := by
  induction n with
  | zero =>
    intro s i h
    cases h
    exact .refl
  | succ n ih =>
    intro s i h
    obtain ⟨⟨r1,d,s1⟩,hmap,h⟩ := of_bind h
    have h1 := fileMapBlock_ticks hmap
    simp only at h
    split at h
    · exact h1.trans (ih h)
    obtain ⟨dirty,_,h⟩ := of_bind h
    split at h
    · obtain ⟨s2,hw,h⟩ := of_bind h
      exact (h1.trans (writeBlock_ticks hw)).trans (ih h)
    exact h1.trans (ih h)

lemma fileFlush_ticks (h : s.fileFlush f = some t) : Ticks s t := by
  obtain ⟨x,_,h⟩ := of_bind h
  exact flushRounds_ticks _ h

lemma flushDir_ticks (h : s.flushDir f = some t) : Ticks s t := by
  obtain ⟨x,_,h⟩ := of_bind h
  split at h
  · cases h
    exact .refl
  obtain ⟨d,_,h⟩ := of_bind h
  exact fileFlush_ticks h

lemma fileSetSize_ticks (h : s.fileSetSize f w = some t) : Ticks s t := by
  obtain ⟨x,_,h⟩ := of_bind h
  obtain ⟨s1,hc,h⟩ := of_bind h
  obtain ⟨s2,hp,h⟩ := of_bind h
  have h1 : Ticks s s1 := by
    split at hc
    · exact fileTruncateBlocks_ticks hc
    cases hc
    exact .refl
  exact (h1.trans (put_ticks hp)).trans (flushDir_ticks h)

lemma syncRounds_ticks (n : Nat) : ∀ {s : Fs} {i : Nat}, s.syncRounds n i = some t → Ticks s t := by
  induction n with
  | zero =>
    intro s i h
    cases h
    exact .refl
  | succ n ih =>
    intro s i h
    obtain ⟨dirty,_,h⟩ := of_bind h
    split at h
    · obtain ⟨s1,hw,h⟩ := of_bind h
      exact (writeBlock_ticks hw).trans (ih h)
    exact ih h

lemma fsSync_ticks (h : s.fsSync = some t) : Ticks s t := by
  obtain ⟨n,_,h⟩ := of_bind h
  exact syncRounds_ticks _ h

lemma fileClose_ticks (h : s.fileClose f = some t) : Ticks s t := by
  obtain ⟨s1,hf,h⟩ := of_bind h
  exact (fileFlush_ticks hf).trans (flushDir_ticks h)

lemma fileRemove_ticks (h : s.fileRemove path = some (r,t)) : Ticks s t := by
  obtain ⟨⟨r1,o,s1⟩,hwalk,h⟩ := of_bind h
  have h1 := fileOpen_ticks hwalk
  cases o with
  | none =>
    cases h
    exact h1
  | some f =>
    obtain ⟨s2,ht,h⟩ := of_bind h
    obtain ⟨x,_,h⟩ := of_bind h
    obtain ⟨s3,hp,h⟩ := of_bind h
    obtain ⟨s4,hq,h⟩ := of_bind h
    obtain ⟨s5,hd,h⟩ := of_bind h
    cases h
    exact (((h1.trans (fileTruncateBlocks_ticks ht)).trans (put_ticks hp)).trans
      (put_ticks hq)).trans (flushDir_ticks hd)

end Fs

end KludgeOS
