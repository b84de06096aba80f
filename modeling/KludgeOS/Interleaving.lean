
/-!
Agents that take turns on a shared state, one step of one agent at a time.
-/

namespace Interleaving

variable {σ ι : Type}

/-- The states reached from `init` when every step is taken where `ok` allows it. -/
inductive Reach (init : σ → Prop) (next : ι → σ → Option σ) (ok : ι → σ → Prop) : σ → Prop where
  | start {s : σ} : init s → Reach init next ok s
  | step {s t : σ} {c : ι} : Reach init next ok s → ok c s → next c s = some t → Reach init next ok t

namespace Reach

variable {init : σ → Prop} {next : ι → σ → Option σ} {ok ok' : ι → σ → Prop} {s t : σ}

theorem invariant {I : σ → Prop} (h : Reach init next ok s) (hstart : ∀ s, init s → I s)
    (hstep : ∀ s t c, I s → ok c s → next c s = some t → I t) : I s := by
  induction h with
  | start hs => exact hstart _ hs
  | step _ hok hs ih => exact hstep _ _ _ ih hok hs

end Reach

/-- The listed agents take a step each, in this order and where `ok` allows it. -/
def turns (next : ι → σ → Option σ) (ok : ι → σ → Bool) : List ι → σ → Option σ
  | [],s => some s
  | c :: l,s => if ok c s then (next c s).bind (turns next ok l) else none

theorem Reach.turns {init : σ → Prop} {next : ι → σ → Option σ} {ok : ι → σ → Prop}
    {test : ι → σ → Bool} (htest : ∀ c s, test c s → ok c s) {t : σ} (l : List ι) : ∀ {s : σ},
    Reach init next ok s → Interleaving.turns next test l s = some t → Reach init next ok t := by
  induction l with
  | nil =>
    intro s h hs
    cases hs
    exact h
  | cons c l ih =>
    intro s h hs
    simp only [Interleaving.turns] at hs
    split at hs
    · rename_i hok
      obtain ⟨u,hu,hs⟩ := Option.bind_eq_some_iff.mp hs
      exact ih (.step h (htest c s hok) hu) hs
    cases hs

end Interleaving
