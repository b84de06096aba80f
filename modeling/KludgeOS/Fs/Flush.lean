import KludgeOS.Fs.Names
import KludgeOS.Fs.Bounds

/-!
Writing back: what the functions that flush blocks write, block by block.
-/

namespace KludgeOS

open List Mem


def Note.Read : Note → Prop
  | .unread _ _ _ => False
  | .wild => False
  | _ => True

instance (n : Note) : Decidable n.Read :=
  match n with
  | .unread _ _ _ => isFalse id
  | .wild => isFalse id
  | .taken _ _ _ => isTrue trivial
  | .stray => isTrue trivial

namespace Fs

def Reads (s t : Fs) : Prop := ∀ n, Noted s t n → n.Read

def Clean (s : Fs) (b : Nat) : Prop := ∀ pg, s.cache b = some pg → pg.dirty = false

/-- If nothing was stored to it, the page of block `b` has the contents of the block. -/
def CoherentAt (s : Fs) (b : Nat) : Prop :=
  ∀ pg, s.cache b = some pg → pg.dirty = false → ∀ i < 1024, pg.words i = s.disk b i

/-- A disk between `s` and its picture: some of the blocks of `W` are written back. -/
def Mix (W : Set Nat) (s : Fs) (disk : Nat → Nat → Word) : Prop :=
  ∀ b, disk b = s.disk b ∨ b ∈ W ∧ disk b = s.view b

/-- The words seen are the same, and some of the blocks of `W` were written as they are seen. -/
structure Quiet (W : Set Nat) (s t : Fs) : Prop where
  view : t.view = s.view
  coherent : ∀ b, s.CoherentAt b → t.CoherentAt b
  clean : ∀ b, s.Clean b → t.Clean b
  disk : Mix W s t.disk
  past : ∃ l, t.past = l++s.past ∧ ∀ d ∈ l, Mix W s d

variable {s t u : Fs} {b : Nat} {r : Int} {w v : Word} {f d p : Ptr} {ptr : Option Ptr} {W : Set Nat}

lemma Reads.split (h : Ticks s t) (h' : Ticks t u) (hr : Reads s u) : Reads s t ∧ Reads t u :=
  ⟨fun n hn => hr n (hn.after h'),fun n hn => hr n (hn.before h)⟩

lemma reads_of_eq (h : t.notes = s.notes) : Reads s t := by
  rintro n ⟨l,hl,hn⟩
  have hlen := congrArg length (hl.symm.trans h)
  rw [length_append] at hlen
  obtain rfl : l = [] := length_eq_zero_iff.mp (by omega)
  contradiction

lemma reads_of_all (h : ∀ n ∈ t.notes, n.Read) : Reads s t := by
  rintro n ⟨l,hl,hn⟩
  exact h n (by rw [hl]; exact mem_append_left _ hn)

variable {disk : Nat → Nat → Word} {c : Nat} {pg : Cached}

lemma Mix.of_eq (W : Set Nat) (h : disk = s.disk) : Mix W s disk :=
  fun b => .inl (congrFun h b)

lemma Mix.trans (h : Mix W s t.disk) (hv : t.view = s.view) (h' : Mix W t disk) : Mix W s disk := by
  intro b
  obtain hd | ⟨hb,hd⟩ := h' b
  · rw [hd]
    exact h b
  rw [hd,hv]
  exact .inr ⟨hb,rfl⟩

lemma Quiet.refl (s : Fs) : Quiet W s s := ⟨rfl,fun _ => id,fun _ => id,.of_eq W rfl,[],rfl,by simp⟩

lemma Quiet.trans (h : Quiet W s t) (h' : Quiet W t u) : Quiet W s u where
  view := h'.view.trans h.view
  coherent b hb := h'.coherent b (h.coherent b hb)
  clean b hb := h'.clean b (h.clean b hb)
  disk := h.disk.trans h.view h'.disk
  past := by
    obtain ⟨l,hl,hd⟩ := h.past
    obtain ⟨l',hl',hd'⟩ := h'.past
    refine ⟨l'++l,by rw [hl',hl,append_assoc],fun d hmem => ?_⟩
    obtain hmem | hmem := mem_append.mp hmem
    · exact h.disk.trans h.view (hd' d hmem)
    exact hd d hmem

lemma Clean.setCache (h : s.Clean c) (hpg : pg.dirty = false) : (s.setCache b pg).Clean c := by
  intro qg hq
  by_cases hcb : c = b
  · subst hcb
    obtain rfl : pg = qg := by simpa using hq
    exact hpg
  exact h qg (by simpa [Fs.setCache,hcb] using hq)

lemma CoherentAt.setCache (h : s.CoherentAt c) (hpg : pg.dirty = false →
    ∀ i < 1024, pg.words i = s.disk b i) : (s.setCache b pg).CoherentAt c := by
  intro qg hq
  by_cases hcb : c = b
  · subst hcb
    obtain rfl : pg = qg := by simpa using hq
    exact hpg
  exact h qg (by simpa [Fs.setCache,hcb] using hq)

lemma CoherentAt.disk_eq (hc : s.CoherentAt b) (hb : s.Clean b) {i : Nat} (hi : i < 1024) :
    s.disk b i = s.view b i := by
  cases hpg : s.cache b with
  | none => simp [Fs.view,hpg]
  | some pg =>
    rw [view_cached hpg]
    exact (hc pg hpg (hb pg hpg) i hi).symm

lemma Loaded.quiet (h : Loaded s b r t) (hr : Reads s t) : Quiet W s t := by
  cases h with
  | cached _ => exact .refl _
  | noMem chance _ => exact ⟨rfl,fun _ => id,fun _ => id,.of_eq W rfl,[],rfl,by simp⟩
  | unread _ _ _ => exact absurd (hr _ ⟨[_],rfl,mem_cons_self⟩) id
  | @done chance hb =>
    refine ⟨((Loaded.done chance hb).success (by decide)).1,fun c hc => ?_,fun c hcl => ?_,.of_eq W rfl,
      [],rfl,by simp⟩
    · exact CoherentAt.setCache (s := {s with chance := chance}) hc fun _ _ _ => rfl
    exact Clean.setCache (s := {s with chance := chance}) hcl rfl

lemma writeBlock_quiet (h : s.writeBlock w = some t) (hW : w.toNat ∈ W) :
    Quiet W s t ∧ t.Clean w.toNat := by
  have hview : t.view = s.view := congrArg Vol.mem (writeBlock_vol h ∅)
  obtain ⟨pg,hpg,rfl⟩ := writeBlock_eq h
  refine ⟨⟨hview,fun c hc => ?_,fun c hcl => ?_,fun c => ?_,[s.disk],rfl,?_⟩,?_⟩
  · intro qg hq hd i hi
    by_cases hcb : c = w.toNat
    · subst hcb
      obtain rfl : _ = qg := by simpa using hq
      simp
    have := hc qg (by simpa [Fs.setCache,hcb] using hq) hd i hi
    simpa [hcb] using this
  · exact Clean.setCache (s := {s with disk := _, past := _}) hcl rfl
  · by_cases hc : c = w.toNat
    · subst hc
      exact .inr ⟨hW,by simp [view_cached hpg]⟩
    exact .inl (by simp [hc])
  · simpa using Mix.of_eq W rfl
  intro qg hq
  obtain rfl : _ = qg := by simpa using hq
  rfl

lemma follow_quiet (h : s.follow ptr = some (p,t)) (hr : Reads s t) : ptr = some p ∧ t = s := by
  cases ptr with
  | some q =>
    cases h
    exact ⟨rfl,rfl⟩
  | none =>
    obtain ⟨q,_,h⟩ := of_bind h
    cases h
    exact absurd (hr _ ⟨[_],rfl,mem_cons_self⟩) id

lemma Walked.quiet (h : Walked s f w false r ptr t) (hr : Reads s t) :
    Quiet W s t ∧ (w.toNat < NINDIRECT → r < 0 → s.view.blockOf f w.toNat = 0) ∧
      ∀ p, ptr = some p → w.toNat < NINDIRECT ∧ s.view.blockOf f w.toNat = s.view.word p := by
  have hd : NDIRECT = 10 := rfl
  have hni : NINDIRECT = 1024 := rfl
  cases h with
  | direct hlt =>
    refine ⟨.refl _,fun _ h => absurd h (by decide),fun p h => ?_⟩
    cases h
    rw [blockOf,if_pos hlt]
    exact ⟨by omega,rfl⟩
  | missing hge hind _ =>
    refine ⟨.refl _,fun _ _ => ?_,fun p h => by simp at h⟩
    rw [blockOf,if_neg (Nat.not_lt.mpr hge),if_pos (get_view hind).2]
  | made _ _ _ ha _ _ _ => contradiction
  | read hge hlt hind h0 hrd hr0 =>
    obtain ⟨hload,_,_⟩ := readBlock_loaded hrd
    refine ⟨hload.quiet hr,fun _ h => absurd h (by decide),fun p h => ?_⟩
    cases h
    have hi := (get_view hind).2
    rw [blockOf,if_neg (Nat.not_lt.mpr hge),hi,if_neg h0]
    exact ⟨hlt,rfl⟩
  | unread hge hlt hind h0 hrd hr0 =>
    obtain ⟨hload,_,_⟩ := readBlock_loaded hrd
    exact ⟨hload.quiet hr,fun _ h => absurd h (by decide),fun p h => by simp at h⟩
  | range hge => exact ⟨.refl _,fun hlt => absurd hlt (Nat.not_lt.mpr hge),fun p h => by simp at h⟩

lemma fileMapBlock_quiet (h : s.fileMapBlock f w false = some (r,v,t)) (hr : Reads s t) :
    Quiet W s t ∧ (w.toNat < NINDIRECT → v = s.view.blockOf f w.toNat ∧ (r < 0 → v = 0)) ∧
      (¬r < 0 → w.toNat < NINDIRECT ∧ v ≠ 0) := by
  cases fileMapBlock_mapped h with
  | walk hw hneg =>
    obtain ⟨hq,hv,_⟩ := hw.quiet hr
    exact ⟨hq,fun hlt => ⟨(hv hlt hneg).symm,fun _ => rfl⟩,fun h => absurd hneg h⟩
  | found hw hfol hget h0 =>
    obtain ⟨hr1,hr2⟩ := Reads.split hw.ticks (follow_ticks hfol) hr
    obtain ⟨rfl,rfl⟩ := follow_quiet hfol hr2
    obtain ⟨hq,_,hv⟩ := hw.quiet (W := W) hr1
    obtain ⟨hlt,hv⟩ := hv _ rfl
    refine ⟨hq,fun _ => ⟨?_,fun h => absurd h (by decide)⟩,fun _ => ⟨hlt,h0⟩⟩
    rw [hv,← hq.view]
    exact (get_view hget).2.symm
  | hole hw hfol hget _ =>
    obtain ⟨hr1,hr2⟩ := Reads.split hw.ticks (follow_ticks hfol) hr
    obtain ⟨rfl,rfl⟩ := follow_quiet hfol hr2
    obtain ⟨hq,_,hv⟩ := hw.quiet (W := W) hr1
    obtain ⟨hlt,hv⟩ := hv _ rfl
    refine ⟨hq,fun _ => ⟨?_,fun _ => rfl⟩,fun h => absurd (by decide) h⟩
    rw [hv,← hq.view]
    exact (get_view hget).2.symm
  | full _ _ _ ha _ _ => contradiction
  | grown _ _ _ ha _ _ _ => contradiction

lemma flushRounds_quiet (n : Nat) : ∀ {s : Fs} {i : Nat}, s.flushRounds f n i = some t →
    Reads s t → (∀ j < NINDIRECT, s.view.blockOf f j ≠ 0 → (s.view.blockOf f j).toNat ∈ W) →
    Quiet W s t ∧ ∀ j, i ≤ j → j < i+n → j < NINDIRECT →
      s.view.blockOf f j ≠ 0 → t.Clean (s.view.blockOf f j).toNat := by
  have hni : NINDIRECT = 1024 := rfl
  induction n with
  | zero =>
    intro s i h _ _
    cases h
    exact ⟨.refl _,fun j _ _ => by omega⟩
  | succ n ih =>
    intro s i h hr hW
    obtain ⟨⟨r,x,s1⟩,hmap,h⟩ := of_bind h
    simp only at h
    -- What is left to show of a round is that block `i` is clean after it.
    have hround : ∀ s2, Quiet W s s2 → s2.flushRounds f n (i+1) = some t → Reads s2 t →
        (i < NINDIRECT → s.view.blockOf f i ≠ 0 → s2.Clean (s.view.blockOf f i).toNat) →
        Quiet W s t ∧ ∀ j, i ≤ j → j < i+(n+1) → j < NINDIRECT →
          s.view.blockOf f j ≠ 0 → t.Clean (s.view.blockOf f j).toNat := by
      intro s2 hq hrest hr2 hi
      obtain ⟨hq2,hj⟩ := ih hrest hr2 (by rw [hq.view]; exact hW)
      refine ⟨hq.trans hq2,fun j hij hjn hlt h0 => ?_⟩
      by_cases heq : j = i
      · subst heq
        exact hq2.clean _ (hi hlt h0)
      rw [hq.view] at hj
      exact hj j (by omega) (by omega) hlt h0
    have hval : i < NINDIRECT → (BitVec.ofNat 32 i).toNat = i := by
      intro hi
      rw [BitVec.toNat_ofNat]
      omega
    split at h
    · rename_i hneg
      obtain ⟨hr1,hr2⟩ := Reads.split (fileMapBlock_ticks hmap) (flushRounds_ticks n h) hr
      obtain ⟨hq,hv,_⟩ := fileMapBlock_quiet hmap hr1
      refine hround s1 hq h hr2 fun hi h0 => ?_
      rw [hval hi] at hv
      obtain ⟨hx,hx0⟩ := hv hi
      exact absurd (hx.symm.trans (hx0 hneg)) h0
    rename_i hpos
    obtain ⟨dirty,hdirty,h⟩ := of_bind h
    obtain ⟨c,hc,hdirty⟩ := of_bind hdirty
    obtain ⟨rfl,_⟩ := diskaddr_eq hc
    cases hdirty
    split at h
    · obtain ⟨s2,hw,h⟩ := of_bind h
      obtain ⟨hr1,hr2⟩ := Reads.split (fileMapBlock_ticks hmap)
        ((writeBlock_ticks hw).trans (flushRounds_ticks n h)) hr
      obtain ⟨_,hr3⟩ := Reads.split (writeBlock_ticks hw) (flushRounds_ticks n h) hr2
      obtain ⟨hq,hv,hlt⟩ := fileMapBlock_quiet hmap hr1
      have hmem : x.toNat ∈ W := by
        obtain ⟨hlt,hx0⟩ := hlt hpos
        rw [(hv hlt).1] at hx0 ⊢
        exact hW _ hlt hx0
      obtain ⟨hq2,hclean⟩ := writeBlock_quiet hw hmem
      refine hround s2 (hq.trans hq2) h hr3 fun hi h0 => ?_
      rw [hval hi] at hv
      rw [← (hv hi).1]
      exact hclean
    rename_i hnot
    obtain ⟨hr1,hr2⟩ := Reads.split (fileMapBlock_ticks hmap) (flushRounds_ticks n h) hr
    obtain ⟨hq,hv,_⟩ := fileMapBlock_quiet hmap hr1
    refine hround s1 hq h hr2 fun hi h0 pg hpg => ?_
    rw [hval hi] at hv
    rw [← (hv hi).1] at hpg
    simpa [hpg] using hnot

lemma fileFlush_quiet (h : s.fileFlush f = some t) (hr : Reads s t)
    (hW : ∀ j < NINDIRECT, s.view.blockOf f j ≠ 0 → (s.view.blockOf f j).toNat ∈ W) : Quiet W s t ∧
    (LegalSize (s.view.word f.size) → ∀ j : Nat, (j : Int) < sizeBlocks (s.view.word f.size) →
      s.view.blockOf f j ≠ 0 → t.Clean (s.view.blockOf f j).toNat) := by
  have hni : NINDIRECT = 1024 := rfl
  obtain ⟨x,hx,h⟩ := of_bind h
  obtain ⟨hq,hj⟩ := flushRounds_quiet _ h hr hW
  refine ⟨hq,fun hl j hlt h0 => ?_⟩
  obtain rfl := (get_view hx).2
  obtain ⟨hint,hmax⟩ := hl.toInt
  have hcount := hl.nblocksFor
  have hsmall : sizeBlocks (s.view.word f.size) ≤ 1024 := by
    rw [sizeBlocks,hint]
    omega
  refine hj j (Nat.zero_le j) ?_ (by omega) h0
  rw [BitVec.toInt_eq_toNat_cond,if_pos (by omega)]
  omega

lemma fileClose_quiet (h : s.fileClose f = some t) (hr : Reads s t) : Quiet Set.univ s t := by
  obtain ⟨s1,hflush,h⟩ := of_bind h
  obtain ⟨hr1,hr2⟩ := Reads.split (fileFlush_ticks hflush) (flushDir_ticks h) hr
  obtain ⟨hq,_⟩ := fileFlush_quiet (W := Set.univ) hflush hr1 fun _ _ _ => trivial
  refine hq.trans ?_
  obtain ⟨x,_,h⟩ := of_bind h
  split at h
  · cases h
    exact .refl _
  obtain ⟨d,_,h⟩ := of_bind h
  exact (fileFlush_quiet (W := Set.univ) h hr2 fun _ _ _ => trivial).1

lemma syncRounds_quiet (n : Nat) : ∀ {s : Fs} {i : Nat}, s.syncRounds n i = some t →
    Quiet Set.univ s t := by
  induction n with
  | zero =>
    intro s i h
    cases h
    exact .refl _
  | succ n ih =>
    intro s i h
    obtain ⟨dirty,_,h⟩ := of_bind h
    split at h
    · obtain ⟨s1,hw,h⟩ := of_bind h
      exact (writeBlock_quiet hw (Set.mem_univ _)).1.trans (ih h)
    exact ih h

lemma fsSync_quiet (h : s.fsSync = some t) : Quiet Set.univ s t := by
  obtain ⟨n,_,h⟩ := of_bind h
  exact syncRounds_quiet _ h

end Fs

end KludgeOS
