import Mathlib

/-!
A pool of numbered slots with a mark for each, given out first-fit, and the
list of the slots that somebody holds.
-/

namespace Slots
open Function List

variable {n : Nat} {used : Nat → Bool} {l l' : List Nat} {i : Nat}

def firstFree (n : Nat) (used : Nat → Bool) : Option Nat := (range n).find? fun i => !used i

def mark (used : Nat → Bool) (i : Nat) (b : Bool) : Nat → Bool := update used i b

/-- Just the slots in `l` are marked, each is held once. -/
structure Held (n : Nat) (used : Nat → Bool) (l : List Nat) : Prop where
  nodup : l.Nodup
  bound : ∀ i ∈ l, i < n
  marked : ∀ i < n, used i ↔ i ∈ l

lemma Held.perm (h : Held n used l) (hp : l.Perm l') : Held n used l' :=
  ⟨hp.nodup_iff.mp h.nodup,fun i hi => h.bound i (hp.mem_iff.mpr hi),
    fun i hi => (h.marked i hi).trans hp.mem_iff⟩

lemma Held.nil : Held n (fun _ => false) [] := ⟨nodup_nil,by simp,by simp⟩

lemma firstFree_some (h : firstFree n used = some i) : i < n ∧ used i = false := by
  have hmem := mem_of_find?_eq_some h
  have hfree := find?_some h
  exact ⟨mem_range.mp hmem,by simpa using hfree⟩

lemma Held.take (h : Held n used l) (hi : firstFree n used = some i) :
    Held n (mark used i true) (i :: l) := by
  obtain ⟨hlt,hfree⟩ := firstFree_some hi
  have hnot : i ∉ l := fun hc => by
    have := (h.marked i hlt).mpr hc
    rw [hfree] at this
    cases this
  refine ⟨nodup_cons.mpr ⟨hnot,h.nodup⟩,forall_mem_cons.mpr ⟨hlt,h.bound⟩,fun j hj => ?_⟩
  by_cases hij : j = i
  · simp [mark,hij]
  rw [mark,update_of_ne hij,h.marked j hj]
  simp [hij]

lemma Held.put (h : Held n used (i :: l)) : Held n (mark used i false) l := by
  obtain ⟨hnot,hnodup⟩ := nodup_cons.mp h.nodup
  refine ⟨hnodup,fun j hj => h.bound j (mem_cons_of_mem _ hj),fun j hj => ?_⟩
  by_cases hij : j = i
  · simp [mark,hij,hnot]
  rw [mark,update_of_ne hij,h.marked j hj]
  simp [hij]

lemma Held.count_le (h : Held n used l) : ((range n).filter used).length ≤ l.length := by
  refine (Nodup.subperm (nodup_range.filter _) fun i hi => ?_).length_le
  obtain ⟨hlt,hused⟩ := mem_filter.mp hi
  exact (h.marked i (mem_range.mp hlt)).mp hused

lemma Held.full (h : Held n used l) (hnone : firstFree n used = none) : n ≤ l.length := by
  have hall : (range n).filter used = range n :=
    filter_eq_self.mpr fun i hi => by simpa using find?_eq_none.mp hnone i hi
  have := h.count_le
  rwa [hall,length_range] at this

end Slots
