import KludgeOS.WriteBack
import KludgeOS.Fs.Format

/-!
The cache of `fs/fsformat.c`: what is seen of the image through it, and what
`getblk` and `putblk` keep of that.
-/

namespace KludgeOS
open WriteBack (Shows Cache)
open WriteBack.Cache (evict)
open BitVec Function List

/-! On a little-endian host nothing is swizzled. -/

lemma swizzle_eq (y : Word) : swizzle y = y := by
  have hff : ∀ j, (0xFF#32).getLsbD j = decide (j < 8) := by
    intro j
    by_cases hj : j < 32
    · have hall : ∀ j : Fin 32, (0xFF#32).getLsbD j = decide (j.val < 8) := by decide
      exact hall ⟨j,hj⟩
    rw [getLsbD_of_ge _ _ (by omega)]
    simp
    omega
  apply eq_of_getLsbD_eq
  intro i hi
  simp only [swizzle,getLsbD_or,getLsbD_and,getLsbD_shiftLeft,
    getLsbD_ushiftRight,ofNat_eq_ofNat,hff]
  by_cases h1 : i < 8
  · simp [h1,show i < 16 by omega,show i < 24 by omega]
    exact fun _ => (hff i).trans (decide_eq_true h1)
  by_cases h2 : i < 16
  · simp [h1,h2,hi,show i < 24 by omega,show i-8 < 8 by omega,show 8+(i-8) = i by omega]
    exact fun h _ => h
  by_cases h3 : i < 24
  · simp [h1,h2,h3,hi,show ¬i-8 < 8 by omega,show i-16 < 8 by omega, show 16+(i-16) = i by omega]
    exact fun h _ => h
  simp [h1,h2,h3,hi,show ¬i-8 < 8 by omega,show ¬i-16 < 8 by omega,
    show i-24 < 8 by omega,show 24+(i-24) = i by omega]
  exact fun h _ => h

lemma swizzlefile_eq (words : Nat → Word) (f : Nat) : swizzlefile words f = words := by
  unfold swizzlefile
  split
  · rfl
  funext i
  simp [swizzle_eq]

lemma swizzleblock_eq (type : BlkType) (words : Nat → Word) : swizzleblock type words = words := by
  cases type with
  | super => simp [swizzleblock,swizzlefile_eq,swizzle_eq]
  | dir =>
    simp only [swizzleblock,swizzlefile_eq]
    exact foldl_fixed' (fun _ => rfl) _
  | bits => simp [swizzleblock,swizzle_eq]
  | file => rfl

namespace Fmt

variable {s t : Fmt} {m : Mem} {b bno : Nat} {clr : Bool} {type : BlkType}

def lines (s : Fmt) : Cache Nat Nat (Nat → Word) :=
  ⟨s.disk,fun i => if (s.cache i).used = 0 then none else some ((s.cache i).bno,(s.cache i).words)⟩

/-- `m` is seen through the cache, and the blocks of the cache that were never used are as they
were. -/
structure Backs (s : Fmt) (m : Mem) : Prop where
  shows : Shows s.lines m
  idle : ∀ i, (s.cache i).used = 0 → (s.cache i).bno = 0 ∧ (s.cache i).busy = false
  high : ∀ i, NCACHE ≤ i → (s.cache i).used = 0

namespace Backs

lemma start (h : ∀ i, (s.cache i).used = 0 ∧ (s.cache i).bno = 0 ∧ (s.cache i).busy = false) :
    Backs s s.disk := by
  refine ⟨⟨?_,fun _ _ => rfl,?_⟩,fun i _ => (h i).2,fun i _ => (h i).1⟩
  · intro i k a hi
    simp [lines,h] at hi
  intro i j k a a' hi
  simp [lines,h] at hi

section

variable (h : Backs s m) (hb : (s.cache b).busy)
include h hb

lemma used : (s.cache b).used ≠ 0 :=
  fun h0 => by simp [(h.idle b h0).2] at hb

lemma line : s.lines.line b = some ((s.cache b).bno,(s.cache b).words) := by simp [lines,h.used hb]

lemma words : (s.cache b).words = m (s.cache b).bno := h.shows.held b _ _ (h.line hb)

lemma setWords (words : Nat → Word) :
    Backs (s.setWords b words) (m.fill (s.cache b).bno words) := by
  have hsame : ∀ i, ((s.setWords b words).cache i).used = (s.cache i).used ∧
      ((s.setWords b words).cache i).bno = (s.cache i).bno ∧
      ((s.setWords b words).cache i).busy = (s.cache i).busy := by
    intro i
    by_cases hi : i = b
    · subst hi
      simp [Fmt.setWords,setBuf]
    simp [Fmt.setWords,setBuf,hi]
  refine ⟨?_,fun i hi => ?_,fun i hi => ?_⟩
  · have hlines : (s.setWords b words).lines = s.lines.write b (s.cache b).bno words := by
      simp only [lines,Cache.write,Cache.mk.injEq]
      refine ⟨rfl,funext fun i => ?_⟩
      by_cases hi : i = b
      · subst hi
        simp [Fmt.setWords,setBuf,h.used hb]
      simp [Fmt.setWords,setBuf,hi]
    rw [hlines]
    exact h.shows.write (h.line hb) words
  · rw [(hsame i).1] at hi
    rw [(hsame i).2.1,(hsame i).2.2]
    exact h.idle i hi
  rw [(hsame i).1]
  exact h.high i hi

end

lemma putblk (h : Backs s m) (b : Nat) : Backs (s.putblk b) m := by
  have hsame : ∀ i, ((s.putblk b).cache i).used = (s.cache i).used ∧
      ((s.putblk b).cache i).bno = (s.cache i).bno ∧
      ((s.putblk b).cache i).words = (s.cache i).words := by
    intro i
    by_cases hi : i = b
    · subst hi
      simp [Fmt.putblk,setBuf]
    simp [Fmt.putblk,setBuf,hi]
  refine ⟨?_,fun i hi => ?_,fun i hi => ?_⟩
  · have hlines : (s.putblk b).lines = s.lines := by
      simp only [lines,Cache.mk.injEq]
      exact ⟨rfl,funext fun i => by rw [(hsame i).1,(hsame i).2.1,(hsame i).2.2]⟩
    rw [hlines]
    exact h.shows
  · rw [(hsame i).1] at hi
    obtain ⟨hbno,hbusy⟩ := h.idle i hi
    refine ⟨(hsame i).2.1.trans hbno,?_⟩
    by_cases hib : i = b
    · subst hib
      simp [Fmt.putblk,setBuf]
    simpa [Fmt.putblk,setBuf,hib] using hbusy
  rw [(hsame i).1]
  exact h.high i hi

end Backs

lemma search_spec (n : Nat) : ∀ {i : Nat} {least : Option Nat} {r : Nat ⊕ Option Nat},
    s.search bno n i least = r → (∀ l, least = some l → l < i+n ∧ (s.cache l).busy = false) →
    (∀ j < i, (s.cache j).bno ≠ bno ∧ (least = none → (s.cache j).busy)) → (∀ b, r = .inl b →
    (s.cache b).bno = bno) ∧ ∀ l, r = .inr l → (∀ j < i+n, (s.cache j).bno ≠ bno ∧
    (l = none → (s.cache j).busy)) ∧ ∀ b, l = some b → b < i+n ∧ (s.cache b).busy = false := by
  induction n with
  | zero =>
    intro i least r h hl hlow
    subst h
    refine ⟨by simp [search],fun l h => ?_⟩
    obtain rfl := Sum.inr.inj h
    exact ⟨fun j hj => hlow j (by omega),hl⟩
  | succ n ih =>
    intro i least r h hl hlow
    simp only [search] at h
    split at h
    · rename_i hbno
      subst h
      exact ⟨fun b hb => by rw [← Sum.inl.inj hb]; exact hbno,by simp⟩
    rename_i hbno
    have hlow' : ∀ j < i+1, (s.cache j).bno ≠ bno := by
      intro j hj
      by_cases hji : j = i
      · exact hji ▸ hbno
      exact (hlow j (by omega)).1
    rw [show i+(n+1) = i+1+n by omega] at hl ⊢
    split at h
    · rename_i hc
      refine ih h (fun l hl => ?_) fun j hj => ⟨hlow' j hj,nofun⟩
      cases hl
      simp only [Bool.and_eq_true,Bool.not_eq_true'] at hc
      exact ⟨by omega,hc.1⟩
    rename_i hc
    refine ih h hl fun j hj => ⟨hlow' j hj,fun h0 => ?_⟩
    by_cases hji : j = i
    · simpa [hji,h0] using hc
    exact (hlow j (by omega)).2 h0

structure Pins (s t : Fmt) : Prop where
  nblocks : t.nblocks = s.nblocks
  nbitblock : t.nbitblock = s.nbitblock
  busy : ∀ b, (s.cache b).busy → (t.cache b).busy ∧ (t.cache b).bno = (s.cache b).bno

lemma Pins.refl (s : Fmt) : Pins s s := ⟨rfl,rfl,fun _ h => ⟨h,rfl⟩⟩

variable {u : Fmt}

lemma Pins.trans (h : Pins s t) (h' : Pins t u) : Pins s u :=
  ⟨h'.nblocks.trans h.nblocks,h'.nbitblock.trans h.nbitblock,fun b hb =>
    ⟨(h'.busy b (h.busy b hb).1).1,(h'.busy b (h.busy b hb).1).2.trans (h.busy b hb).2⟩⟩

lemma Pins.idle (h : Pins s t) (hb : (t.cache b).busy = false) : (s.cache b).busy = false := by
  by_contra hc
  have := (h.busy b (by simpa using hc)).1
  rw [hb] at this
  cases this

lemma Pins.setWords (s : Fmt) (b : Nat) (words : Nat → Word) : Pins s (s.setWords b words) := by
  refine ⟨rfl,rfl,fun i hi => ?_⟩
  by_cases hib : i = b
  · subst hib
    simpa [Fmt.setWords,setBuf] using hi
  simpa [Fmt.setWords,setBuf,hib] using hi

lemma Pins.putblk (h : Pins s t) (hb : (s.cache b).busy = false) : Pins s (t.putblk b) := by
  refine ⟨h.nblocks,h.nbitblock,fun i hi => ?_⟩
  have hib : i ≠ b := by
    rintro rfl
    rw [hb] at hi
    cases hi
  simpa [Fmt.putblk,setBuf,hib] using h.busy i hi

structure Got (s : Fmt) (m : Mem) (bno : Nat) (clr : Bool) (b : Nat) (t : Fmt) : Prop where
  lt : bno < s.nblocks
  backs : Backs t (if clr then m.fill bno fun _ => 0 else m)
  bno : (t.cache b).bno = bno
  busy : (t.cache b).busy
  idle : (s.cache b).busy = false
  pins : Pins s t
  nextb : t.nextb = s.nextb
  super : t.super = s.super

lemma claim_got {c : Nat} (h : u.claim b clr type = some (c,t)) (hs : Backs s m) (hlt : bno
    < s.nblocks) (hb : b < NCACHE) (hidle : (s.cache b).busy = false) (hbno : (u.cache b).bno = bno)
    (hother : ∀ i ≠ b, u.cache i = s.cache i) (hrest : u.nblocks = s.nblocks ∧ u.nbitblock =
    s.nbitblock ∧ u.nextb = s.nextb ∧ u.super = s.super) (hshows : Shows ⟨u.disk,update
    s.lines.line b (some (bno,(u.cache b).words))⟩ m) : c = b ∧ Got s m bno clr b t := by
  unfold claim at h
  split at h
  · cases h
  cases h
  obtain ⟨h1,h2,h3,h4⟩ := hrest
  refine ⟨rfl,hlt,⟨?_,fun i hi => ?_,fun i hi => ?_⟩,by simp [setBuf,hbno],by simp [setBuf],hidle,
    ⟨h1,h2,fun i hi => ?_⟩,h3,h4⟩
  · have hlines : ∀ words : Nat → Word, words = (if clr then fun _ => 0 else (u.cache b).words) →
        ({u with t := u.t+1}.setBuf b
          { busy := true, bno := (u.cache b).bno, used := u.t+1, words := words,
            type := type }).lines =
          ⟨u.disk,update s.lines.line b (some (bno,words))⟩ := by
      intro words _
      simp only [lines,Cache.mk.injEq]
      refine ⟨rfl,funext fun i => ?_⟩
      by_cases hi : i = b
      · subst hi
        simp [setBuf,hbno]
      simp [setBuf,hi,hother i hi]
    rw [hlines _ rfl]
    cases clr with
    | false => exact hshows
    | true =>
      have := hshows.write (i := b) (k := bno) (by simp; rfl) fun _ => 0
      simpa [Cache.write,Mem.fill] using this
  · by_cases hib : i = b
    · subst hib
      simp [setBuf] at hi
    simp only [setBuf,ne_eq,hib,not_false_eq_true,update_of_ne,hother i hib] at hi ⊢
    exact hs.idle i hi
  · have hib : i ≠ b := by omega
    simp only [setBuf,ne_eq,hib,not_false_eq_true,update_of_ne,hother i hib]
    exact hs.high i hi
  have hib : i ≠ b := by
    rintro rfl
    rw [hidle] at hi
    cases hi
  simp only [setBuf,ne_eq,hib,not_false_eq_true,update_of_ne,hother i hib]
  exact ⟨hi,trivial⟩

lemma flushb_eq (s : Fmt)
    (b : Nat) : s.flushb b = {s with disk := s.disk.fill (s.cache b).bno (s.cache b).words} := by
  simp only [flushb,swizzleblock_eq,setWords,setBuf,update_eq_self]

lemma getblk_got (h : s.getblk bno clr type = some (b,t)) (hs : Backs s m) (h0 : bno ≠ 0) :
    Got s m bno clr b t := by
  unfold getblk at h
  split at h
  · cases h
  rename_i hlt
  obtain ⟨hhit,hmiss⟩ := @search_spec s bno NCACHE 0 none _ rfl (by simp) (by omega)
  cases hr : s.search bno NCACHE 0 none with
  | inl c =>
    rw [hr] at h
    have hbno := hhit c hr
    have hused : (s.cache c).used ≠ 0 := by
      intro hu
      exact h0 (hbno.symm.trans (hs.idle c hu).1)
    have hc : c < NCACHE := by
      by_contra hge
      exact hused (hs.high c (not_lt.mp hge))
    have hidle : (s.cache c).busy = false := by
      by_contra hbusy
      simp [claim,hbusy] at h
    have hline : s.lines.line c = some (bno,(s.cache c).words) := by simp [lines,hused,hbno]
    obtain ⟨rfl,hgot⟩ := claim_got h hs (not_le.mp hlt) hc hidle hbno (fun _ _ => rfl)
      ⟨rfl,rfl,rfl,rfl⟩ (by rw [← hline,update_eq_self]; exact hs.shows)
    exact hgot
  | inr l =>
    rw [hr] at h
    obtain ⟨hno,hl⟩ := hmiss l hr
    cases l with
    | none => contradiction
    | some c =>
      obtain ⟨hc,hidle⟩ := hl c rfl
      rw [Nat.zero_add] at hc hno
      -- No line has the block.
      have hnew : ∀ j a, s.lines.line j ≠ some (bno,a) := by
        intro j a hj
        simp only [lines] at hj
        split at hj
        · cases hj
        rename_i hu
        have hjb := (some_pair_inj hj).1
        by_cases hjn : j < NCACHE
        · exact (hno j hjn).1 hjb
        exact hu (hs.high j (not_lt.mp hjn))
      by_cases hu : (s.cache c).used = 0
      · simp only [hu,if_true,swizzleblock_eq,ite_self] at h
        have hshows := hs.shows.load (i := c) (by simp [lines,hu]) hnew
        obtain ⟨rfl,hgot⟩ := claim_got h hs (not_le.mp hlt) hc hidle (by simp [setBuf])
          (fun i hi => by simp [setBuf,hi]) ⟨rfl,rfl,rfl,rfl⟩
          (by simpa [setBuf,Cache.load,lines] using hshows)
        exact hgot
      simp only [hu,if_false,flushb_eq,swizzleblock_eq,ite_self] at h
      have hshows := (hs.shows.evict (i := c) (k := (s.cache c).bno) (a := (s.cache c).words)
        (by simp [lines,hu])).load (i := c) (k := bno) (by simp [evict]) (by
          intro j a hj
          by_cases hjc : j = c
          · subst hjc
            simp [evict] at hj
          exact hnew j a (by simpa [evict,hjc] using hj))
      obtain ⟨rfl,hgot⟩ := claim_got h hs (not_le.mp hlt) hc hidle (by simp [setBuf])
        (fun i hi => by simp [setBuf,hi]) ⟨rfl,rfl,rfl,rfl⟩
        (by simpa [setBuf,Cache.load,evict,lines,Mem.fill] using hshows)
      exact hgot

end Fmt

end KludgeOS
