import Mathlib.Data.List.Basic

/-!
A ring of `N` cells through which a sequence passes: the cells from position
`r` on hold the sequence from its element `r` on.
-/

namespace Ring
open Function List

def Window {α : Type} (N : Nat) (buf : Nat → α) (l : List α) (r : Nat) : Prop :=
  ∀ k a, r ≤ k → l[k]? = some a → buf (k%N) = a

variable {α : Type} {N r : Nat} {buf : Nat → α} {l : List α}

lemma Window.nil : Window N buf [] r := by
  intro k a _ h
  simp at h

lemma Window.push (h : Window N buf l r) (hroom : l.length < r+N) (b : α) :
    Window N (update buf (l.length%N) b) (l++[b]) r := by
  intro k a hk ha
  obtain hlt | rfl | hgt := Nat.lt_trichotomy k l.length
  · have hne : k%N ≠ l.length%N := by
      intro heq
      have hmod : (l.length-k)%N = 0 := Nat.sub_mod_eq_zero_of_mod_eq heq.symm
      rw [Nat.mod_eq_of_lt (by omega)] at hmod
      omega
    rw [getElem?_append_left hlt] at ha
    rw [update_of_ne hne]
    exact h k a hk ha
  · have hab : b = a := by simpa using ha
    rw [hab,update_self]
  rw [getElem?_eq_none (by simp; omega)] at ha
  cases ha

lemma Window.pop (h : Window N buf l r) : Window N buf l (r+1) :=
  fun k a hk => h k a (by omega)

lemma Window.take (h : Window N buf l r) (hr : r < l.length) :
    l.take (r+1) = l.take r++[buf (r%N)] := by
  have hget := List.getElem?_eq_getElem hr
  rw [List.take_add_one,hget,h r _ Nat.le.refl hget]
  rfl

end Ring
