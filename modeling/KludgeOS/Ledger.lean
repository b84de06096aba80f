import Mathlib

/-!
Reference counting against a ledger of slots. A slot holds at most one item;
the count of an item is the number of slots that hold it.
-/

namespace Ledger
open Function List Finset

variable {σ φ : Type} [DecidableEq φ]

/-- How many slots of `S` hold `f`. -/
def refs (S : Finset σ) (h : σ → Option φ) (f : φ) : Nat := (S.filter fun x => h x = some f).card

lemma refs_congr {S : Finset σ} {h h' : σ → Option φ}
    (hh : ∀ x ∈ S, h' x = h x) (f : φ) : refs S h' f = refs S h f := by
  unfold refs
  congr 1
  apply Finset.filter_congr
  intro x hx
  rw [hh x hx]

lemma refs_eq_zero {S : Finset σ} {h : σ → Option φ} {f : φ} :
    refs S h f = 0 ↔ ∀ x ∈ S, h x ≠ some f := by simp [refs,filter_eq_empty_iff]

lemma refs_pos {S : Finset σ} {h : σ → Option φ} {f : φ} {x : σ}
    (hx : x ∈ S) (hf : h x = some f) : 0 < refs S h f := by
  rw [Nat.pos_iff_ne_zero]
  intro h0
  exact refs_eq_zero.mp h0 x hx hf

lemma refs_assign [DecidableEq σ] {S : Finset σ} {h h' : σ → Option φ} {x : σ} {v : Option φ}
    (hx : x ∈ S) (hh : ∀ y ∈ S, h' y = if y = x then v else h y) (f : φ) :
    refs S h' f + (if h x = some f then 1 else 0) = refs S h f + (if v = some f then 1 else 0) := by
  have hsplit : ∀ g : σ → Option φ, refs S g f =
      refs (S.erase x) g f + (if g x = some f then 1 else 0) := by
    intro g
    unfold refs
    nth_rewrite 1 [← insert_erase hx]
    rw [filter_insert]
    split
    · rw [card_insert_of_notMem (by simp)]
    simp
  have hrest : refs (S.erase x) h' f = refs (S.erase x) h f := by
    apply refs_congr
    intro y hy
    rw [hh y (Finset.mem_of_mem_erase hy),if_neg (ne_of_mem_erase hy)]
  have hnew : h' x = v := by rw [hh x hx,if_pos rfl]
  rw [hsplit h',hsplit h,hrest,hnew]
  omega

def acquire (ref : φ → Nat) : Option φ → φ → Nat
  | none => ref
  | some p => update ref p (ref p+1)

def release (ref : φ → Nat) : Option φ → φ → Nat
  | none => ref
  | some o => update ref o (ref o-1)

def recycle (ref : φ → Nat) (free : List φ) : Option φ → List φ
  | none => free
  | some o => if ref o = 0 then o :: free else free

lemma acquire_apply (ref : φ → Nat) (v : Option φ) (f : φ) :
    acquire ref v f = ref f + (if v = some f then 1 else 0) := by
  cases v with
  | none => simp [acquire]
  | some p =>
    by_cases hp : p = f
    · simp [acquire,hp]
    simp [acquire,hp,update_of_ne (Ne.symm hp)]

lemma release_apply (ref : φ → Nat) (v : Option φ) (f : φ) :
    release ref v f = ref f - (if v = some f then 1 else 0) := by
  cases v with
  | none => simp [release]
  | some p =>
    by_cases hp : p = f
    · simp [release,hp]
    simp [release,hp,update_of_ne (Ne.symm hp)]

/-- The counts are exact for the managed items, and the free list holds each unreferenced one
once, those in `hand` apart. -/
structure Balanced (S : Finset σ) (managed hand : φ → Prop)
    (h : σ → Option φ) (ref : φ → Nat) (free : List φ) : Prop where
  count : ∀ f, managed f → ref f = refs S h f
  nodup : free.Nodup
  free_managed : ∀ f ∈ free, managed f
  free_zero : ∀ f ∈ free, ref f = 0
  zero_free : ∀ f, managed f → ¬hand f → ref f = 0 → f ∈ free
  hand_managed : ∀ f, hand f → managed f
  hand_free : ∀ f, hand f → f ∉ free
  hand_unheld : ∀ f, hand f → ∀ x ∈ S, h x ≠ some f

namespace Balanced

variable {S : Finset σ} {managed hand : φ → Prop} {h h' : σ → Option φ}
  {ref : φ → Nat} {free : List φ}

section

variable (hb : Balanced S managed hand h ref free)
include hb

lemma not_held {f : φ} (hf : f ∈ free) : ∀ x ∈ S, h x ≠ some f := by
  have h0 := hb.free_zero f hf
  rw [hb.count f (hb.free_managed f hf)] at h0
  exact refs_eq_zero.mp h0

lemma hand_zero {f : φ} (hf : hand f) : ref f = 0 := by
  rw [hb.count f (hb.hand_managed f hf)]
  exact refs_eq_zero.mpr (hb.hand_unheld f hf)

lemma congr
    (hh : ∀ x ∈ S, h' x = h x) : Balanced S managed hand h' ref free where
  count f hf := by rw [hb.count f hf,refs_congr hh]
  nodup := hb.nodup
  free_managed := hb.free_managed
  free_zero := hb.free_zero
  zero_free := hb.zero_free
  hand_managed := hb.hand_managed
  hand_free := hb.hand_free
  hand_unheld f hf x hx := by rw [hh x hx]; exact hb.hand_unheld f hf x hx

lemma hand_congr {hand' : φ → Prop}
    (hh : ∀ f, hand' f ↔ hand f) : Balanced S managed hand' h ref free := by
  have : hand' = hand := funext fun f => propext (hh f)
  rw [this]
  exact hb

end

lemma take {p : φ} {l : List φ}
    (hb : Balanced S managed hand h ref (p :: l)) :
    Balanced S managed (fun f => hand f ∨ f = p) h ref l where
  count := hb.count
  nodup := (nodup_cons.mp hb.nodup).2
  free_managed f hf := hb.free_managed f (List.mem_cons_of_mem _ hf)
  free_zero f hf := hb.free_zero f (List.mem_cons_of_mem _ hf)
  zero_free f hm hn h0 := by
    have hmem := hb.zero_free f hm (fun hh => hn (.inl hh)) h0
    obtain rfl | hl := List.mem_cons.mp hmem
    · exact absurd (.inr rfl) hn
    exact hl
  hand_managed f hf := by
    obtain hf | rfl := hf
    · exact hb.hand_managed f hf
    exact hb.free_managed f List.mem_cons_self
  hand_free f hf hl := by
    obtain hf | rfl := hf
    · exact hb.hand_free f hf (List.mem_cons_of_mem _ hl)
    exact (nodup_cons.mp hb.nodup).1 hl
  hand_unheld f hf := by
    obtain hf | rfl := hf
    · exact hb.hand_unheld f hf
    exact hb.not_held List.mem_cons_self

lemma assign [DecidableEq σ] {x : σ} {v : Option φ}
    (hb : Balanced S managed hand h ref free) (hx : x ∈ S)
    (hh : ∀ y ∈ S, h' y = if y = x then v else h y)
    (hold : ∀ o, h x = some o → managed o)
    (hnew : ∀ p, v = some p → p ∉ free) :
    Balanced S managed (fun f => hand f ∧ v ≠ some f) h'
      (release (acquire ref v) (h x))
      (recycle (release (acquire ref v) (h x)) free (h x)) := by
  have happly : ∀ f, release (acquire ref v) (h x) f =
      ref f + (if v = some f then 1 else 0) - (if h x = some f then 1 else 0) := by
    intro f; rw [release_apply,acquire_apply]
  have hcount : ∀ f, managed f → release (acquire ref v) (h x) f = refs S h' f := by
    intro f hf
    have hr := refs_assign hx hh f
    rw [happly,hb.count f hf]
    split at hr <;> split at hr <;> simp_all; omega
  have hstay : ∀ f ∈ free, release (acquire ref v) (h x) f = 0 := by
    intro f hf
    have hv : v ≠ some f := fun hv => hnew f hv hf
    rw [happly,hb.free_zero f hf,if_neg hv]
    omega
  have hsub : ∀ f ∈ free, f ∈ recycle (release (acquire ref v) (h x)) free (h x) := by
    intro f hf
    cases ho : h x with
    | none => simpa [recycle] using hf
    | some o =>
      simp only [recycle]
      split
      · exact List.mem_cons_of_mem _ hf
      exact hf
  have hmem : ∀ f ∈ recycle (release (acquire ref v) (h x)) free (h x),
      f ∈ free ∨ (h x = some f ∧ release (acquire ref v) (h x) f = 0) := by
    intro f hf
    cases ho : h x with
    | none => simp [ho,recycle] at hf; exact .inl hf
    | some o =>
      simp only [ho,recycle] at hf
      split at hf
      · rename_i hz
        obtain rfl | hl := List.mem_cons.mp hf
        · exact .inr ⟨rfl,hz⟩
        exact .inl hl
      exact .inl hf
  refine ⟨hcount,?_,?_,?_,?_,fun f hf => hb.hand_managed f hf.1,?_,?_⟩
  · cases ho : h x with
    | none => simpa [recycle] using hb.nodup
    | some o =>
      simp only [recycle]
      split
      · exact nodup_cons.mpr
          ⟨fun hm => hb.not_held hm x hx ho,hb.nodup⟩
      exact hb.nodup
  · intro f hf
    obtain hl | ⟨ho,_⟩ := hmem f hf
    · exact hb.free_managed f hl
    exact hold f ho
  · intro f hf
    obtain hl | ⟨_,hz⟩ := hmem f hf
    · exact hstay f hl
    exact hz
  · intro f hm hn hz
    by_cases ho : h x = some f
    · rw [ho] at hz ⊢
      simp [recycle,hz]
    have hz' := hz
    rw [happly,if_neg ho] at hz'
    have hv : v ≠ some f := by
      intro hv
      rw [if_pos hv] at hz'
      omega
    rw [if_neg hv] at hz'
    exact hsub f (hb.zero_free f hm (fun hd => hn ⟨hd,hv⟩) (by omega))
  · intro f hf hl
    obtain hfree | ⟨ho,_⟩ := hmem f hl
    · exact hb.hand_free f hf.1 hfree
    exact hb.hand_unheld f hf.1 x hx ho
  intro f hf y hy
  rw [hh y hy]
  split
  · exact hf.2
  exact hb.hand_unheld f hf.1 y hy

end Balanced

/-- A slot in `T` never shares its item with another slot. -/
def Sole (S : Finset σ) (T : σ → Prop) (h : σ → Option φ) : Prop :=
  ∀ x ∈ S, T x → ∀ y ∈ S, ∀ f, h x = some f → h y = some f → y = x

omit [DecidableEq φ] in
lemma Sole.congr {S : Finset σ} {T : σ → Prop} {h h' : σ → Option φ}
    (hs : Sole S T h) (hh : ∀ x ∈ S, h' x = h x) : Sole S T h' := by
  intro x hx ht y hy f hxf hyf
  rw [hh x hx] at hxf
  rw [hh y hy] at hyf
  exact hs x hx ht y hy f hxf hyf

omit [DecidableEq φ] in
lemma Sole.assign [DecidableEq σ] {S : Finset σ} {T : σ → Prop} {h h' : σ → Option φ}
    {x : σ} {v : Option φ} (hs : Sole S T h)
    (hh : ∀ y ∈ S, h' y = if y = x then v else h y)
    (hT : ∀ f, v = some f → ∀ y ∈ S, T y → h y ≠ some f)
    (hx : ∀ f, v = some f → T x → ∀ y ∈ S, h y ≠ some f) : Sole S T h' := by
  intro a ha hta b hb f haf hbf
  rw [hh a ha] at haf
  rw [hh b hb] at hbf
  by_cases hax : a = x
  · rw [if_pos hax] at haf
    by_cases hbx : b = x
    · rw [hax,hbx]
    rw [if_neg hbx] at hbf
    exact absurd hbf (hx f haf (hax ▸ hta) b hb)
  rw [if_neg hax] at haf
  by_cases hbx : b = x
  · rw [if_pos hbx] at hbf
    exact absurd haf (hT f hbf a ha hta)
  rw [if_neg hbx] at hbf
  exact hs a ha hta b hb f haf hbf

end Ledger
