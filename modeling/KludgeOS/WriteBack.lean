import Mathlib

/-!
A write-back cache over a store. A line holds a key with its value, which is
written to the store when the line is given up.
-/

namespace WriteBack
open Option Function

structure Cache (ι κ α : Type) where
  store : κ → α
  line : ι → Option (κ × α)

variable {ι κ α : Type}

namespace Cache

variable [DecidableEq ι] [DecidableEq κ]

def evict (c : Cache ι κ α) (i : ι) (k : κ) (a : α) : Cache ι κ α :=
  ⟨update c.store k a,update c.line i none⟩

def load (c : Cache ι κ α) (i : ι) (k : κ) : Cache ι κ α :=
  ⟨c.store,update c.line i (some (k,c.store k))⟩

def write (c : Cache ι κ α) (i : ι) (k : κ) (a : α) : Cache ι κ α :=
  ⟨c.store,update c.line i (some (k,a))⟩

def flush (c : Cache ι κ α) (k : κ) (a : α) : Cache ι κ α := ⟨update c.store k a,c.line⟩

end Cache

/-- What is seen through the cache is `m`: the value in the line of a key, which is only one, or else
that in the store. -/
structure Shows (c : Cache ι κ α) (m : κ → α) : Prop where
  held : ∀ i k a, c.line i = some (k,a) → a = m k
  rest : ∀ k, (∀ i a, c.line i ≠ some (k,a)) → c.store k = m k
  once : ∀ i j k a a', c.line i = some (k,a) → c.line j = some (k,a') → i = j

namespace Shows

variable {c : Cache ι κ α} {m : κ → α} {i : ι} {k : κ} {a : α}

lemma evict [DecidableEq ι] [DecidableEq κ] (h : Shows c m) (hi : c.line i = some (k,a)) : Shows (c.evict i k a) m := by
  have hline : ∀ j l b, (c.evict i k a).line j = some (l,b) → c.line j = some (l,b) := by
    intro j l b hj
    by_cases hji : j = i
    · subst hji
      simp [Cache.evict] at hj
    simpa [Cache.evict,hji] using hj
  refine ⟨fun j l b hj => h.held j l b (hline j l b hj),fun l hl => ?_,
    fun j j' l b b' hj hj' => h.once j j' l b b' (hline j l b hj) (hline j' l b' hj')⟩
  by_cases hlk : l = k
  · subst hlk
    simp [Cache.evict,h.held i l a hi]
  have hrest : c.store l = m l := by
    refine h.rest l fun j b hj => hl j b ?_
    have hji : j ≠ i := by
      rintro rfl
      rw [hi] at hj
      exact hlk (Prod.mk.inj (some.inj hj)).1.symm
    simpa [Cache.evict,hji] using hj
  simpa [Cache.evict,hlk] using hrest

lemma put [DecidableEq ι] [DecidableEq κ] (h : Shows c m) (hi : ∀ l x, c.line i = some (l,x) → l = k)
    (hk : ∀ j x, j ≠ i → c.line j ≠ some (k,x)) (b : α) :
    Shows (c.write i k b) (update m k b) := by
  have hline : ∀ j l x, (c.write i k b).line j = some (l,x) →
      j = i ∧ l = k ∧ x = b ∨ l ≠ k ∧ c.line j = some (l,x) := by
    intro j l x hj
    by_cases hji : j = i
    · subst hji
      obtain ⟨rfl,rfl⟩ : k = l ∧ b = x := by simpa [Cache.write] using hj
      exact .inl ⟨rfl,rfl,rfl⟩
    have hline : c.line j = some (l,x) := by simpa [Cache.write,hji] using hj
    refine .inr ⟨?_,hline⟩
    rintro rfl
    exact hk j x hji hline
  refine ⟨fun j l x hj => ?_,fun l hl => ?_,fun j j' l x x' hj hj' => ?_⟩
  · obtain ⟨_,rfl,rfl⟩ | ⟨hlk,hj⟩ := hline j l x hj
    · simp
    simpa [hlk] using h.held j l x hj
  · have hlk : l ≠ k := by
      rintro rfl
      exact hl i b (by simp [Cache.write])
    rw [update_of_ne hlk]
    refine h.rest l fun j x hj => hl j x ?_
    have hji : j ≠ i := by
      rintro rfl
      exact hlk (hi l x hj)
    simpa [Cache.write,hji] using hj
  obtain ⟨rfl,rfl,_⟩ | ⟨hlk,hline1⟩ := hline j l x hj
  · obtain ⟨rfl,_⟩ | ⟨hlk,_⟩ := hline j' l x' hj'
    · rfl
    exact absurd rfl hlk
  obtain ⟨_,rfl,_⟩ | ⟨_,hline2⟩ := hline j' l x' hj'
  · exact absurd rfl hlk
  exact h.once j j' l x x' hline1 hline2

lemma load [DecidableEq ι] [DecidableEq κ] (h : Shows c m) (hi : c.line i = none)
    (hk : ∀ j a, c.line j ≠ some (k,a)) : Shows (c.load i k) m := by
  have h1 := h.put (i := i) (by simp [hi]) (fun j x _ => hk j x) (c.store k)
  rwa [show update m k (c.store k) = m by rw [h.rest k hk,update_eq_self]] at h1

lemma write [DecidableEq ι] [DecidableEq κ] (h : Shows c m) (hi : c.line i = some (k,a)) (b : α) :
    Shows (c.write i k b) (update m k b) := by
  refine h.put (fun l x hx => ?_) (fun j x hji hj => hji (h.once j i k x a hj hi)) b
  rw [hi] at hx
  exact (Prod.mk.inj (some.inj hx)).1.symm

lemma flush [DecidableEq κ] (h : Shows c m) (hi : c.line i = some (k,a)) : Shows (c.flush k a) m := by
  refine ⟨h.held,fun l hl => ?_,h.once⟩
  have hlk : l ≠ k := by
    rintro rfl
    exact hl i a hi
  simpa [Cache.flush,hlk] using h.rest l hl

lemma store_eq (h : Shows c m) (hall : ∀ i k a, c.line i = some (k,a) → c.store k = a) :
    c.store = m := by
  funext k
  by_cases hk : ∃ i a, c.line i = some (k,a)
  · obtain ⟨i,a,hi⟩ := hk
    rw [hall i k a hi]
    exact h.held i k a hi
  exact h.rest k fun i a hi => hk ⟨i,a,hi⟩

end Shows

end WriteBack
