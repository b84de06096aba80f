
/-!
Sequences of labelled actions on a state, each taken where it is enabled.
-/

namespace Traces

variable {σ ε : Type}

inductive Runs (ok : σ → ε → Prop) (act : ε → σ → σ) : σ → List ε → σ → Prop where
  | nil {s : σ} : Runs ok act s [] s
  | cons {s t : σ} {a : ε} {l : List ε} :
      ok s a → Runs ok act (act a s) l t → Runs ok act s (a :: l) t

namespace Runs

variable {ok : σ → ε → Prop} {act : ε → σ → σ} {s t u : σ} {a : ε} {l m : List ε}

theorem single (h : ok s a) : Runs ok act s [a] (act a s) := .cons h .nil

theorem append (h : Runs ok act s l t) (h' : Runs ok act t m u) : Runs ok act s (l++m) u := by
  induction h with
  | nil => exact h'
  | cons ha _ ih => exact .cons ha (ih h')

theorem result (h : Runs ok act s l t) : t = l.foldl (fun s a => act a s) s := by
  induction h with
  | nil => rfl
  | cons _ _ ih => exact ih

theorem invariant {I : σ → Prop} {P : ε → Prop} (hstep : ∀ s a, I s → ok s a → P a → I (act a s))
    (h : Runs ok act s l t) (hP : ∀ a ∈ l, P a) (hs : I s) : I t := by
  induction h with
  | nil => exact hs
  | cons ha _ ih =>
    exact ih (fun b hb => hP b (List.mem_cons_of_mem _ hb))
      (hstep _ _ hs ha (hP _ List.mem_cons_self))

end Runs
end Traces
