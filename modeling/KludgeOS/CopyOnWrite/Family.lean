import Mathlib

/-!
Address spaces that are duplicated lazily. A duplicate maps the frames of its original, and what
was writable is mapped copy-on-write on both sides. The duplication is not atomic.
-/

namespace CopyOnWrite
open Function

structure Entry where
  frame : Nat
  write : Bool
  cow : Bool
  share : Bool
  deriving DecidableEq

def Entry.Private (e : Entry) : Prop := e.write ∧ e.share = false

def Entry.own (f : Nat) : Entry := ⟨f,true,false,false⟩

def Entry.lazy (f : Nat) : Entry := ⟨f,false,true,false⟩

lemma own_private (f : Nat) : (Entry.own f).Private := ⟨rfl,rfl⟩

lemma not_private_lazy (f : Nat) : ¬(Entry.lazy f).Private := fun h => absurd h.1 Bool.false_ne_true

structure Layout where
  pages : Nat
  size : Nat
  temp : Nat
  stack : Nat
  xstack : Nat
  temp_lt : temp < stack
  stack_lt : stack < xstack
  xstack_lt : xstack < pages

/-- Where a duplication stands with the page it visits. -/
inductive Stage where
  | scan | cow | mid
  | keep : Entry → Stage
  deriving DecidableEq

inductive Role where
  | outside | setup | run | enter
  | fork : Nat → Nat → Stage → Role
  | leave
  deriving DecidableEq

inductive Fault where
  | alloc : Nat → Fault
  | copy : Nat → Nat → Fault
  deriving DecidableEq

def Fault.page : Fault → Nat
  | .alloc n | .copy n _ => n

/-- The state of a family. `view y n` is what page `n` of `y` should hold: the contents it was
given, with `y`'s own stores. -/
@[ext] structure State (W : Type) where
  space : Nat → Nat → Option Entry
  data : Nat → Nat → W
  role : Nat → Role
  fault : Nat → Option Fault
  view : Nat → Nat → Option (Nat → W)

inductive Label where
  | write : Nat → Nat → Label
  | other : Label
  deriving DecidableEq

variable {W : Type}

namespace State

@[simps data role fault view]
def assign (t : State W) (y n : Nat) (e : Entry) : State W :=
  {t with space := update t.space y (update (t.space y) n (some e))}

@[simps space data fault view]
def setRole (t : State W) (y : Nat) (r : Role) : State W := {t with role := update t.role y r}

@[simps space data role view]
def setFault (t : State W) (y : Nat) (f : Option Fault) : State W :=
  {t with fault := update t.fault y f}

@[simps space data role fault]
def setView (t : State W) (y n : Nat) (c : Option (Nat → W)) : State W :=
  {t with view := update t.view y (update (t.view y) n c)}

@[simps space role fault view]
def setWord (t : State W) (f i : Nat) (v : W) : State W :=
  {t with data := update t.data f (update (t.data f) i v)}

def Maps (t : State W) (y n f : Nat) : Prop := ∃ e, t.space y n = some e ∧ e.frame = f

instance (t : State W) (y n f : Nat) : Decidable (t.Maps y n f) :=
  decidable_of_iff (∃ e ∈ t.space y n, e.frame = f) (by simp [Maps])

/-- A store by `y` shows on all its pages of the same frame. -/
@[simps space data role fault]
def noteStore (t : State W) (y f i : Nat) (v : W) : State W :=
  { t with view := update t.view y fun m =>
      if t.Maps y m f then (t.view y m).map fun c => update c i v else t.view y m }

def Unused (t : State W) (f : Nat) : Prop := ∀ y n, ¬t.Maps y n f

def Keeps (t : State W) (d : Nat → Nat → W) : Prop := ∀ y n f, t.Maps y n f → d f = t.data f

/-- The pages `y` may write: all of them outside a duplication, its stacks in one, and the
stack of the fault handler in a fault. -/
def MayWrite (L : Layout) (t : State W) (y n : Nat) : Prop :=
  match t.fault y,t.role y with
  | some _,_ => n = L.xstack
  | none,.run => True
  | none,.outside | none,.setup => False
  | none,_ => n = L.stack ∨ n = L.xstack

lemma update_at {α : Type} (g : Nat → Nat → α) (y n : Nat) (c : α) (z m : Nat) :
    update g y (update (g y) n c) z m = if z = y ∧ m = n then c else g z m := by
  by_cases hz : z = y
  · subst hz
    by_cases hm : m = n
    · simp [hm]
    simp [hm]
  simp [hz]

@[simp, grind =] lemma space_assign (t : State W) (y n : Nat) (e : Entry) (z m : Nat) :
    (t.assign y n e).space z m = if z = y ∧ m = n then some e else t.space z m :=
  update_at ..

@[simp, grind =] lemma role_setRole (t : State W) (y : Nat) (r : Role) (z : Nat) :
    (t.setRole y r).role z = if z = y then r else t.role z := by
  simp [setRole,update_apply]

@[simp, grind =] lemma fault_setFault (t : State W) (y : Nat) (f : Option Fault) (z : Nat) :
    (t.setFault y f).fault z = if z = y then f else t.fault z := by
  simp [setFault,update_apply]

@[simp, grind =] lemma view_setView (t : State W) (y n : Nat) (c : Option (Nat → W)) (z m : Nat) :
    (t.setView y n c).view z m = if z = y ∧ m = n then c else t.view z m :=
  update_at ..

@[simp, grind =] lemma data_setWord (t : State W) (f i : Nat) (v : W) (g j : Nat) :
    (t.setWord f i v).data g j = if g = f ∧ j = i then v else t.data g j :=
  update_at ..

lemma maps_assign {t : State W} {y n z m f : Nat} {e : Entry} : (t.assign y n e).Maps z m f ↔
    z = y ∧ m = n ∧ e.frame = f ∨ ¬(z = y ∧ m = n) ∧ t.Maps z m f := by
  by_cases h : z = y ∧ m = n
  · simp [Maps,h]
  simp only [Maps,space_assign,if_neg h]
  simp only [h,not_false_eq_true,true_and]
  exact ⟨.inr,fun hc => hc.resolve_left fun hc => h ⟨hc.1,hc.2.1⟩⟩

lemma maps_of_space {t : State W} {y n : Nat} {e : Entry} (h : t.space y n = some e) :
    t.Maps y n e.frame := ⟨e,h,rfl⟩

lemma space_assign_cases {t : State W} {y n z m : Nat} {e e' : Entry} (h : (t.assign y n e).space
    z m = some e') : z = y ∧ m = n ∧ e' = e ∨ ¬(z = y ∧ m = n) ∧ t.space z m = some e' := by
  by_cases hc : z = y ∧ m = n
  · rw [space_assign,if_pos hc] at h
    exact .inl ⟨hc.1,hc.2,(Option.some.inj h).symm⟩
  rw [space_assign,if_neg hc] at h
  exact .inr ⟨hc,h⟩

end State

def takenOver (L : Layout) (n : Nat) (share : Bool) (c : Nat → W) : Option (Nat → W) :=
  if share = true ∨ n = L.temp then none else some c

inductive Step (L : Layout) : State W → Label → State W → Prop where
  | store {t : State W} {y n i : Nat} {v : W} {e : Entry} :
      t.MayWrite L y n → t.space y n = some e → e.write →
      Step L t (.write y n) ((t.noteStore y e.frame i v).setWord e.frame i v)
  | begin {t : State W} {y n : Nat} {e x : Entry} :
      t.MayWrite L y n → t.fault y = none → t.space y n = some e → e.write = false →
      t.space y L.xstack = some x → x.write →
      Step L t (.write y n) (t.setFault y (some (.alloc n)))
  | alloc {t : State W} {y n f : Nat} {d : Nat → Nat → W} :
      t.fault y = some (.alloc n) → t.Unused f → t.Keeps d →
      Step L t (.write y n)
        (({t with data := d}.assign y L.temp (.own f)).setFault y (some (.copy n 0)))
  | copy {t : State W} {y n k : Nat} {e x : Entry} :
      t.fault y = some (.copy n k) → k < L.size → t.space y n = some e →
      t.space y L.temp = some x →
      Step L t (.write y n)
        ((t.setWord x.frame k (t.data e.frame k)).setFault y (some (.copy n (k+1))))
  | remap {t : State W} {y n : Nat} {x : Entry} {d : Nat → Nat → W} :
      t.fault y = some (.copy n L.size) → t.space y L.temp = some x → t.Keeps d →
      Step L t (.write y n)
        ((({t with data := d}.assign y n (.own x.frame)).setFault y none).setView y n
          ((t.view y n).or (if n = L.temp then none else some (t.data x.frame))))
  | xstack {t : State W} {y f : Nat} {d : Nat → Nat → W} :
      t.role y = .run → t.fault y = none → t.Unused f → t.Keeps d →
      Step L t .other ({t with data := d}.assign y L.xstack (.own f))
  | enter {t : State W} {y : Nat} {e : Entry} :
      t.role y = .run → t.fault y = none → t.space y L.stack = some e → e.write →
      Step L t .other (t.setRole y .enter)
  | exofork {t : State W} {y c : Nat} {d : Nat → Nat → W} :
      t.role y = .enter → t.fault y = none → t.role c = .outside → t.Keeps d →
      Step L t .other (({t with data := d}.setRole c .setup).setRole y (.fork c 0 .scan))
  | skip {t : State W} {y c p p' : Nat} :
      t.role y = .fork c p .scan → t.fault y = none → p ≤ p' →
      (∀ n, p ≤ n → n < p' → t.space y n = none ∨ n = L.xstack) →
      Step L t .other (t.setRole y (.fork c p' .scan))
  | look {t : State W} {y c p : Nat} {e : Entry} :
      t.role y = .fork c p .scan → t.fault y = none → p ≠ L.xstack → t.space y p = some e →
      Step L t .other (t.setRole y (.fork c p
        (if e.share = false ∧ (e.write = true ∨ e.cow = true) then .cow else .keep e)))
  | dupChild {t : State W} {y c p : Nat} {e : Entry} {d : Nat → Nat → W} :
      t.role y = .fork c p .cow → t.fault y = none → t.space y p = some e → t.Keeps d →
      Step L t .other
        (({t with data := d}.assign c p (.lazy e.frame)).setRole y (.fork c p .mid))
  | dupSelf {t : State W} {y c p : Nat} {e : Entry} {d : Nat → Nat → W} :
      t.role y = .fork c p .mid → t.fault y = none → t.space y p = some e → t.Keeps d →
      Step L t .other
        ((({t with data := d}.assign y p (.lazy e.frame)).setRole y
          (.fork c (p+1) .scan)).setView c p (takenOver L p false (t.data e.frame)))
  | dupKeep {t : State W} {y c p : Nat} {e : Entry} {d : Nat → Nat → W} :
      t.role y = .fork c p (.keep e) → t.fault y = none → t.space y p = some e → t.Keeps d →
      Step L t .other
        ((({t with data := d}.assign c p e).setRole y
          (.fork c (p+1) .scan)).setView c p (takenOver L p e.share (t.data e.frame)))
  | childStack {t : State W} {y c f : Nat} {d : Nat → Nat → W} :
      t.role y = .fork c L.pages .scan → t.fault y = none → t.Unused f → t.Keeps d →
      Step L t .other ({t with data := d}.assign c L.xstack (.own f))
  | release {t : State W} {y c : Nat} :
      t.role y = .fork c L.pages .scan → t.fault y = none →
      Step L t .other ((t.setRole y .leave).setRole c .run)
  | finish {t : State W} {y : Nat} :
      t.role y = .leave → t.fault y = none → Step L t .other (t.setRole y .run)

end CopyOnWrite
