import KludgeOS.Fs.ServSpec

/-!
The cache against the disk. A page whose `PTE_D` bit is clear holds what the
disk holds, as long as no page is put in place of a block without reading it.
-/

namespace KludgeOS


def Note.Clean : Note → Prop
  | .taken _ none disk => Zero disk
  | .unread _ 0 disk => Zero disk
  | _ => True

instance (n : Note) : Decidable n.Clean :=
  match n with
  | .taken _ none disk => inferInstanceAs (Decidable (Zero disk))
  | .taken _ (some _) _ => isTrue trivial
  | .unread _ 0 disk => inferInstanceAs (Decidable (Zero disk))
  | .unread _ (_+1) _ => isTrue trivial
  | .wild | .stray => isTrue trivial

namespace Fs

def Coherent (s : Fs) : Prop :=
  ∀ b pg, s.cache b = some pg → pg.dirty = false → ∀ i < 1024, pg.words i = s.disk b i

variable {s t : Fs} {b : Nat} {pg : Cached}

lemma Coherent.setCache (hc : s.Coherent) (hpg : pg.dirty = false →
    ∀ i < 1024, pg.words i = s.disk b i) : (s.setCache b pg).Coherent := by
  intro c qg hq hd
  by_cases hcb : c = b
  · subst hcb
    obtain rfl : pg = qg := by simpa using hq
    exact hpg hd
  exact hc c qg (by simpa [Fs.setCache,hcb] using hq) hd

lemma Coherent.flush (hc : s.Coherent) : (Fs.setCache
      {s with disk := Function.update s.disk b pg.words, past := s.disk :: s.past} b
      {pg with dirty := false}).Coherent := by
  intro c qg hq hd i hi
  by_cases hcb : c = b
  · subst hcb
    obtain rfl : _ = qg := by simpa using hq
    simp
  have := hc c qg (by simpa [Fs.setCache,hcb] using hq) hd i hi
  simpa [hcb] using this

lemma Tick.coherent (h : Tick s t) (hn : ∀ n ∈ t.notes, n.Clean) (hc : s.Coherent) :
    t.Coherent := by
  cases h with
  | luck | wild | stray | reuse _ => exact hc
  | load _ => exact hc.setCache fun _ _ _ => rfl
  | @unread b sectors _ =>
    refine hc.setCache fun hd i hi => ?_
    have h0 : sectors = 0 := by simpa using hd
    subst h0
    have hz : Zero (s.disk b) := hn (.unread b 0 (s.disk b)) List.mem_cons_self
    simp [readSectors,hz i hi]
  | @fresh b _ =>
    refine hc.setCache fun _ i hi => ?_
    have hz : Zero (s.disk b) := hn (.taken b none (s.disk b)) List.mem_cons_self
    simp [zeroPage,hz i hi]
  | put _ _ => exact hc.setCache fun hd => absurd hd (by simp)
  | flush _ => exact hc.flush

lemma Ticks.coherent (h : Ticks s t) (hn : ∀ n ∈ t.notes, n.Clean) (hc : s.Coherent) :
    t.Coherent := by
  induction h with
  | refl => exact hc
  | tail _ h ih => exact h.coherent hn (ih (h.once.of_notes hn))

lemma loadBlock_ticks {r : Int} (h : s.loadBlock b = some (r,t)) : Ticks s t :=
  (loadBlock_loaded h).ticks

lemma bitmapRounds_ticks (n : Nat) : ∀ {s : Fs} {i : Nat},
    s.bitmapRounds n i = some t → Ticks s t := by
  induction n with
  | zero =>
    intro s i h
    cases h
    exact .refl
  | succ n ih =>
    intro s i h
    obtain ⟨b,_,h⟩ := of_bind h
    obtain ⟨free,_,h⟩ := of_bind h
    split at h
    · cases h
    obtain ⟨⟨r,s1⟩,hl,h⟩ := of_bind h
    simp only at h
    split at h
    · cases h
    obtain ⟨free',_,h⟩ := of_bind h
    split at h
    · cases h
    exact (loadBlock_ticks hl).trans (ih h)

lemma fsInit_ticks (h : s.fsInit = some t) : Ticks s t := by
  obtain ⟨s1,h1,h⟩ := of_bind h
  obtain ⟨⟨r,s2⟩,hl,h1⟩ := of_bind h1
  have hsuper : Ticks s s1 := by
    simp only at h1
    split at h1
    · cases h1
    obtain ⟨m,_,h1⟩ := of_bind h1
    obtain ⟨n,_,h1⟩ := of_bind h1
    split at h1
    · cases h1
    cases h1
    exact loadBlock_ticks hl
  obtain ⟨n,_,h⟩ := of_bind h
  obtain ⟨s3,hb,h⟩ := of_bind h
  obtain ⟨f0,_,h⟩ := of_bind h
  split at h
  · cases h
  obtain ⟨f1,_,h⟩ := of_bind h
  split at h
  · cases h
  split at h
  · cases h
  cases h
  exact hsuper.trans (bitmapRounds_ticks _ hb)

end Fs

namespace Srv
open Option
open Interleaving

/-- Every state of a server started on a disk that satisfies `image`. -/
abbrev Reachable (image : (Nat → Nat → Word) → Prop) : Srv → Prop :=
  Reach (Boot image) next fun _ _ => True

variable {image : (Nat → Nat → Word) → Prop}

lemma Boot.fs {s : Srv} (h : Boot image s) : ∃ disk chance junk, image disk ∧
      Fs.Ticks { disk := disk, cache := fun _ => none, chance := chance, junk := junk,
                 notes := [] } s.fs := by
  obtain ⟨disk,chance,junk,strays,himage,h⟩ := h
  obtain ⟨fs,hfs,h⟩ := of_bind h
  cases h
  exact ⟨disk,chance,junk,himage,Fs.fsInit_ticks hfs⟩

lemma Reachable.coherent {s : Srv} (h : Reachable image s) (hn : ∀ n ∈ s.fs.notes, n.Clean) :
    s.fs.Coherent := by
  refine Reach.invariant (I := fun s => (∀ n ∈ s.fs.notes, n.Clean) → s.fs.Coherent) h ?_ ?_ hn
  · intro s hs hn
    obtain ⟨disk,chance,junk,_,ht⟩ := hs.fs
    exact ht.coherent hn (by intro b pg hb; simp at hb)
  intro s t a hs _ ht hn
  have ht := next_fs ht
  exact ht.coherent hn (hs (ht.of_notes hn))

/-- As long as new and unread blocks are all zero on the disk, every clean page of the cache holds
the contents of its block. -/
theorem coherent_of_clean (image : (Nat → Nat → Word) → Prop) (s : Srv) (h : Reachable image s)
    (hn : ∀ n ∈ s.fs.notes, n.Clean) : s.fs.Coherent := h.coherent hn

/-- The server started on `disk`, and then these things happen; no call fails. -/
def runOn (disk : Nat → Nat → Word) (l : List SrvAct) : Option Srv :=
  (boot disk [] [] []).bind (turns next (fun _ _ => true) l)

lemma Reachable.runOn {disk : Nat → Nat → Word} {l : List SrvAct} {s : Srv} (hd : image disk)
    (h : runOn disk l = some s) : Reachable image s := by
  obtain ⟨s0,h0,h⟩ := of_bind h
  exact Reach.turns (fun _ _ _ => trivial) l (.start ⟨disk,[],[],[],hd,h0⟩) h

end Srv

def diskOf (l : List (Nat × Nat × Word)) (b i : Nat) : Word :=
  ((l.find? fun x => x.1 == b && x.2.1 == i).map fun x => x.2.2).getD 0

/-- Two bitmap words, 64 blocks; `/a` has one block, which is block 4, and `/b` is empty. -/
def sampleWords : List (Nat × Nat × Word) :=
  [(1,0,FS_MAGIC),(1,1,64),(1,34,4096),(1,35,1),(1,36,3),(2,0,0xFFFFFFE0),(2,1,0xFFFFFFFF),(3,0,
   0x61),(3,32,4096),(3,34,4),(3,64,0x62)]

def pathA : List Byte := [0x2F,0x61]
def pathB : List Byte := [0x2F,0x62]

namespace Srv

/-- Open `/a` and map the block after its last. -/
def extendA : List SrvAct := [.req (.open pathA O_RDWR true),.req (.map 1024 4096)]

/-- Block 5 is free and not zero on the disk. Once it belongs to `/a` its page is clean and zero. -/
theorem extended_block_incoherent :
    ∃ s, Reachable (· = diskOf ((5,0,9) :: sampleWords)) s ∧ ¬s.fs.Coherent := by
  have h : (runOn (diskOf ((5,0,9) :: sampleWords)) extendA).map (fun s =>
      (s.fs.cache 5).map fun pg => (pg.dirty,pg.words 0 == s.fs.disk 5 0)) =
      some (some (false,false)) := by decide +kernel
  obtain ⟨s,hs,h⟩ := Option.map_eq_some_iff.mp h
  obtain ⟨pg,hpg,h⟩ := Option.map_eq_some_iff.mp h
  obtain ⟨hd,hw⟩ := Prod.mk.inj h
  exact ⟨s,Reachable.runOn rfl hs,fun hc => by simp [hc 5 pg hpg hd 0 (by decide)] at hw⟩

theorem coherent_of_clean_zero :
    ∃ s, Reachable (· = diskOf sampleWords) s ∧ s.fs.notes ≠ [] ∧ s.fs.Coherent := by
  have h : (runOn (diskOf sampleWords) extendA).map (fun s =>
      decide (s.fs.notes.length = 1 ∧ ∀ n ∈ s.fs.notes, n.Clean)) = some true := by decide +kernel
  obtain ⟨s,hs,hlen,hn⟩ := of_map_decide h
  have hr : Reachable (· = diskOf sampleWords) s := .runOn rfl hs
  exact ⟨s,hr,by intro h0; simp [h0] at hlen,coherent_of_clean _ s hr hn⟩

end Srv

end KludgeOS
