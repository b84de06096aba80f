import KludgeOS.EnvTable

/-!
`sched_yield` (`kern/sched.c`) goes round slots 1 to `NENV-1`. Between two
calls the environments may change in any way; only `sched_yield` itself moves
its cursor.
-/

namespace KludgeOS

open Option

def nextSlot (pre : Nat) : Nat := if (pre+1)%NENV ≠ 0 then (pre+1)%NENV else 1

/-- How many slots the scan looks at to come from `pre` to `e`. -/
def slotsTo (e pre : Nat) : Nat :=
  if pre%NENV < e then e-pre%NENV else e+(NENV-1)-pre%NENV

section fair

variable {s t : Kern} {e n pre : Nat}

lemma nextSlot_bounds (pre : Nat) : 1 ≤ nextSlot pre ∧ nextSlot pre < NENV := by
  unfold nextSlot NENV
  split <;> omega

lemma slotsTo_bounds (he : 1 ≤ e ∧ e < NENV) (pre : Nat) :
    1 ≤ slotsTo e pre ∧ slotsTo e pre ≤ NENV-1 := by
  unfold slotsTo NENV at *
  split <;> omega

lemma slotsTo_next (he : 1 ≤ e ∧ e < NENV) (hne : nextSlot pre ≠ e) :
    slotsTo e (nextSlot pre)+1 = slotsTo e pre := by
  unfold slotsTo nextSlot NENV at *
  split at hne <;> split <;> split <;> split <;> omega

lemma schedScan_succ (s : Kern) (n pre : Nat) : s.schedScan (n+1) pre =
    if (s.envs (nextSlot pre)).envStatus = .runnable then (some (nextSlot pre),nextSlot pre)
    else s.schedScan n (nextSlot pre) := rfl

lemma schedScan_stops (he : 1 ≤ e ∧ e < NENV) (hr : (s.envs e).envStatus = .runnable)
    (hn : slotsTo e pre ≤ n) :
    ∃ q, s.schedScan n pre = (some q,q) ∧ 1 ≤ q ∧ (q = e ∨ slotsTo e q < slotsTo e pre) := by
  induction n generalizing pre with
  | zero =>
    have := (slotsTo_bounds he pre).1
    omega
  | succ n ih =>
    rw [schedScan_succ]
    by_cases hq : (s.envs (nextSlot pre)).envStatus = .runnable
    · refine ⟨nextSlot pre,if_pos hq,(nextSlot_bounds pre).1,?_⟩
      by_cases hne : nextSlot pre = e
      · exact .inl hne
      have := slotsTo_next he hne
      exact .inr (by omega)
    have hne : nextSlot pre ≠ e := fun hc => hq (hc ▸ hr)
    have hnext := slotsTo_next he hne
    have hleft : slotsTo e (nextSlot pre) ≤ n := by omega
    obtain ⟨q,hscan,h1,hq'⟩ := ih hleft
    exact ⟨q,(if_neg hq).trans hscan,h1,hq'.imp_right fun h => by omega⟩

lemma schedYield_stops (he : 1 ≤ e ∧ e < NENV) (hr : (s.envs e).envStatus = .runnable) :
    ∃ t q, s.schedYield = some t ∧ t.curenv = some q ∧ t.pre = q ∧ 1 ≤ q ∧
      (q = e ∨ slotsTo e q < slotsTo e s.pre) := by
  obtain ⟨q,hscan,h1,hq⟩ := schedScan_stops he hr (slotsTo_bounds he s.pre).2
  refine ⟨{s with pre := q}.envRun q,q,?_,rfl,rfl,h1,hq⟩
  rw [Kern.schedYield,hscan]

/-- A slot that is runnable at each of `NENV-1` calls is started by one of them; slot 0 is started
only if no other is runnable. -/
theorem round_robin (s : Nat → Kern) (hpre : ∀ k t, k+1 < NENV-1 → (s k).schedYield = some t →
    (s (k+1)).pre = t.pre) (he : 1 ≤ e ∧ e < NENV) : ((∀ k < NENV-1, ((s k).envs e).envStatus =
    .runnable) → ∃ k < NENV-1, ∃ t, (s k).schedYield = some t ∧ t.curenv = some e) ∧ ∀ k t,
    (s k).schedYield = some t → t.curenv = some 0 → ((s k).envs e).envStatus ≠ .runnable := by
  refine ⟨fun hr => ?_,fun k t ht hcur hrun => ?_⟩
  · by_contra hnone
    have hmiss : ∀ k < NENV-1, ∃ t, (s k).schedYield = some t ∧
        slotsTo e t.pre < slotsTo e (s k).pre := by
      intro k hk
      obtain ⟨t,q,ht,hcur,hq,_,hstop⟩ := schedYield_stops he (hr k hk)
      refine ⟨t,ht,hq ▸ hstop.resolve_left fun hc => ?_⟩
      exact hnone ⟨k,hk,t,ht,hc ▸ hcur⟩
    have hcount : ∀ k < NENV-1, slotsTo e (s k).pre+k ≤ NENV-1 := by
      intro k
      induction k with
      | zero => exact fun _ => (slotsTo_bounds he _).2
      | succ k ih =>
        intro hk
        obtain ⟨t,ht,hlt⟩ := hmiss k (by omega)
        have := ih (by omega)
        rw [hpre k t hk ht]
        omega
    obtain ⟨t,_,hlt⟩ := hmiss (NENV-2) (by decide)
    have := hcount (NENV-2) (by decide)
    have := (slotsTo_bounds he t.pre).1
    have : NENV = 1024 := rfl
    omega
  obtain ⟨t',q,ht',hcur',_,h1,_⟩ := schedYield_stops he hrun
  obtain rfl := mem_unique ht ht'
  have := mem_unique hcur hcur'
  omega

def crowded (pre : Nat) : Kern where
  npage := 0
  mem _ _ := 0
  ppRef _ := 0
  pageFreeList := []
  envs _ := {envStatus := .runnable}
  envFreeList := []
  curenv := none
  bootPgdir := 0
  pre := pre

lemma crowded_schedYield (pre : Nat) :
    (crowded pre).schedYield = some ({crowded pre with pre := nextSlot pre}.envRun (nextSlot pre)) := by
  have hscan : (crowded pre).schedScan (NENV-1) pre = (some (nextSlot pre),nextSlot pre) :=
    (schedScan_succ _ 1022 pre).trans (if_pos rfl)
  rw [Kern.schedYield,show (crowded pre).pre = pre from rfl,hscan]

theorem round_robin_crowded : ∃ k < NENV-1, ∃ t,
    (crowded k).schedYield = some t ∧ t.curenv = some 700 := by
  refine (round_robin crowded (fun k t hk ht => ?_) ⟨by decide,by decide⟩).1 fun _ _ => rfl
  rw [crowded_schedYield] at ht
  cases ht
  change k+1 = nextSlot k
  unfold nextSlot NENV at *
  split <;> omega

end fair

end KludgeOS
