import KludgeOS.Interleaving
import KludgeOS.Kernel

/-!
`sched_yield` and `env_run` on several processors (`kern/sched.c`, `kern/env.c`), one access at a
time.
-/

namespace KludgeOS.Smp
open Interleaving List Option Function

/-- Where a processor is. `i` is the loop variable of `sched_yield`, the other argument an index
into `envs`. -/
inductive Pc where
  | user | yieldAssert | yieldLock | yieldSet | yieldUnlock
  | tableLock
  | cursorTest : (i : Nat) → Pc
  | cursorRead : (i : Nat) → Pc
  | cursorWrite : (i v : Nat) → Pc
  | lockIndex : (i : Nat) → Pc
  | lockEnv : (i j : Nat) → Pc
  | testIndex : (i : Nat) → Pc
  | test : (i j : Nat) → Pc
  | tableUnlock | runIndex
  | unlockIndex : (i : Nat) → Pc
  | unlockEnv : (i j : Nat) → Pc
  | idleUnlock | idleTest | idleLock
  | setCurenv : (j : Nat) → Pc
  | setStatus : (j : Nat) → Pc
  | unlock : (j : Nat) → Pc
  deriving DecidableEq

def Pc.Free : Pc → Prop
  | .user | .yieldAssert | .yieldLock | .yieldSet | .unlock _ => False
  | _ => True

/-- The shared variables, and where the processors are. A lock says who took it last;
`spin_unlock` does not look at that. -/
structure Sched (ι : Type) where
  tableLock : Option ι
  envLock : Nat → Option ι
  pre : Nat
  status : Nat → EnvStatus
  curenv : ι → Option Nat
  pc : ι → Pc

namespace Sched

variable {ι : Type}

def go [DecidableEq ι] (s : Sched ι) (c : ι) (pc : Pc) : Sched ι := {s with pc := update s.pc c pc}

def setTable (s : Sched ι) (o : Option ι) : Sched ι := {s with tableLock := o}

def setLock (s : Sched ι) (j : Nat) (o : Option ι) : Sched ι :=
  {s with envLock := update s.envLock j o}

def setStatus (s : Sched ι) (j : Nat) (st : EnvStatus) : Sched ι :=
  {s with status := update s.status j st}

def loop [DecidableEq ι] (s : Sched ι) (c : ι) (i : Nat) : Sched ι :=
  if i < NENV then s.go c (.cursorTest i) else s.go c .idleUnlock

/-- The next step of processor `c`; a lock that is taken has to be waited for. -/
def next [DecidableEq ι] (c : ι) (s : Sched ι) : Option (Sched ι) :=
  match s.pc c with
  | .user => some (s.go c .yieldAssert)
  | .yieldAssert => do
    let j ← s.curenv c
    if s.status j = .running then some (s.go c .yieldLock) else none
  | .yieldLock => do
    let j ← s.curenv c
    if s.envLock j = none then some ((s.setLock j (some c)).go c .yieldSet) else none
  | .yieldSet => do
    let j ← s.curenv c
    return (s.setStatus j .runnable).go c .yieldUnlock
  | .yieldUnlock => do
    let j ← s.curenv c
    return (s.setLock j none).go c .tableLock
  | .tableLock => if s.tableLock = none then some ((s.setTable (some c)).loop c 1) else none
  | .cursorTest i =>
    some (s.go c (if (s.pre+1)%NENV ≠ 0 then .cursorRead i else .cursorWrite i 1))
  | .cursorRead i => some (s.go c (.cursorWrite i ((s.pre+1)%NENV)))
  | .cursorWrite i v => some ({s with pre := v}.go c (.lockIndex i))
  | .lockIndex i => some (s.go c (.lockEnv i s.pre))
  | .lockEnv i j =>
    if s.envLock j = none then some ((s.setLock j (some c)).go c (.testIndex i)) else none
  | .testIndex i => some (s.go c (.test i s.pre))
  | .test i j => some (s.go c (if s.status j = .runnable then .tableUnlock else .unlockIndex i))
  | .tableUnlock => some ((s.setTable none).go c .runIndex)
  | .runIndex => some (s.go c (.setCurenv s.pre))
  | .unlockIndex i => some (s.go c (.unlockEnv i s.pre))
  | .unlockEnv i j => some ((s.setLock j none).loop c (i+1))
  | .idleUnlock => some ((s.setTable none).go c .idleTest)
  | .idleTest => some (s.go c (if s.status 0 = .runnable then .idleLock else .idleTest))
  | .idleLock =>
    if s.envLock 0 = none then some ((s.setLock 0 (some c)).go c (.setCurenv 0)) else none
  | .setCurenv j =>
    some ({s with curenv := update s.curenv c (some j)}.go c (.setStatus j))
  | .setStatus j => some ((s.setStatus j .running).go c (.unlock j))
  | .unlock j => some ((s.setLock j none).go c .user)

/-- Every processor is about to call `sched_yield` for the first time. -/
structure Boot (s : Sched ι) : Prop where
  tableLock : s.tableLock = none
  envLock : ∀ j, s.envLock j = none
  pre : s.pre = 0
  status : ∀ j, s.status j ≠ .running
  pc : ∀ c, s.pc c = .tableLock

/-- Past `env_run`: the status of the current environment has been set, and the processor has
not yet set it back. -/
def Past (s : Sched ι) (c : ι) : Prop :=
  s.pc c = .user ∨ s.pc c = .yieldAssert ∨ s.pc c = .yieldLock ∨ s.pc c = .yieldSet

/-- No two processors run the same environment, and `env_run` has been called only for a runnable
environment whose lock the processor holds. -/
structure Exclusive (s : Sched ι) : Prop where
  once : ∀ c d j, s.Past c → s.Past d → s.curenv c = some j → s.curenv d = some j → c = d
  locked : ∀ c j, s.pc c = .setCurenv j → s.envLock j = some c ∧ s.status j = .runnable

/-- The cursor is not moved while another processor has yet to use it, and the idle environment is
not taken once it was tested. -/
def Careful (c : ι) (s : Sched ι) : Prop :=
  (∀ i v, s.pc c = .cursorWrite i v → ∀ d, s.pc d ≠ .runIndex) ∧
  (s.pc c = .idleLock → s.status 0 = .runnable)

def At (s : Sched ι) (c : ι) : Pc → Prop
  | .user | .yieldAssert | .yieldLock => ∃ j, s.curenv c = some j ∧ s.status j = .running
  | .yieldSet => ∃ j, s.curenv c = some j ∧ s.status j = .running ∧ s.envLock j = some c
  | .yieldUnlock => ∃ j, s.curenv c = some j ∧ s.envLock j = some c
  | .tableLock | .idleTest | .idleLock => True
  | .cursorTest _ | .cursorRead _ | .cursorWrite _ _ | .lockIndex _ | .idleUnlock =>
    s.tableLock = some c
  | .lockEnv _ j => s.tableLock = some c ∧ j = s.pre
  | .testIndex _ | .unlockIndex _ => s.tableLock = some c ∧ s.envLock s.pre = some c
  | .test _ j | .unlockEnv _ j => s.tableLock = some c ∧ s.envLock s.pre = some c ∧ j = s.pre
  | .tableUnlock =>
    s.tableLock = some c ∧ s.envLock s.pre = some c ∧ s.status s.pre = .runnable
  | .runIndex => s.envLock s.pre = some c ∧ s.status s.pre = .runnable
  | .setCurenv j => s.envLock j = some c ∧ s.status j = .runnable
  | .setStatus j => s.curenv c = some j ∧ s.envLock j = some c ∧ s.status j = .runnable
  | .unlock j => s.curenv c = some j ∧ s.envLock j = some c ∧ s.status j = .running

def Runs (s : Sched ι) (c : ι) (j : Nat) : Prop :=
  (s.Past c ∨ s.pc c = .unlock j) ∧ s.curenv c = some j

structure Inv (s : Sched ι) : Prop where
  here : ∀ c, s.At c (s.pc c)
  once : ∀ c d j, s.Runs c j → s.Runs d j → c = d

/-- What `d` relies on is the same in both states. -/
structure Stable (s t : Sched ι) (d : ι) : Prop where
  pc : t.pc d = s.pc d
  curenv : t.curenv d = s.curenv d
  table : s.tableLock = some d → t.tableLock = some d
  lock : ∀ j, s.envLock j = some d → t.envLock j = some d ∧ t.status j = s.status j
  pre : s.tableLock = some d ∨ s.pc d = .runIndex → t.pre = s.pre
  runs : ∀ j, s.Past d → s.curenv d = some j → s.status j = .running → t.status j = .running

section stable

variable {s t u : Sched ι} {c d : ι}

lemma Stable.trans (h : Stable s t d) (h' : Stable t u d) : Stable s u d where
  pc := h'.pc.trans h.pc
  curenv := h'.curenv.trans h.curenv
  table hs := h'.table (h.table hs)
  lock j hj := by
    obtain ⟨h1,h2⟩ := h.lock j hj
    obtain ⟨h3,h4⟩ := h'.lock j h1
    exact ⟨h3,h4.trans h2⟩
  pre hs := by
    refine (h'.pre ?_).trans (h.pre hs)
    obtain hs | hs := hs
    · exact .inl (h.table hs)
    exact .inr (h.pc.trans hs)
  runs j hp hc hr := by
    refine h'.runs j ?_ (h.curenv.trans hc) (h.runs j hp hc hr)
    rw [Past,h.pc]
    exact hp

lemma stable_go [DecidableEq ι] (hd : d ≠ c) (pc : Pc) : Stable s (s.go c pc) d :=
  ⟨by simp [go,hd],rfl,fun h => h,fun _ h => ⟨h,rfl⟩,fun _ => rfl,fun _ _ _ h => h⟩

lemma stable_setTable (hd : s.tableLock ≠ some d) (o : Option ι) : Stable s (s.setTable o) d :=
  ⟨rfl,rfl,fun h => absurd h hd,fun _ h => ⟨h,rfl⟩,fun _ => rfl,fun _ _ _ h => h⟩

variable {j : Nat}

lemma stable_setLock (hd : s.envLock j ≠ some d) (o : Option ι) : Stable s (s.setLock j o) d := by
  refine ⟨rfl,rfl,fun h => h,fun k hk => ⟨?_,rfl⟩,fun _ => rfl,fun _ _ _ h => h⟩
  have hkj : k ≠ j := by
    rintro rfl
    exact hd hk
  simpa [setLock,hkj] using hk

lemma stable_setStatus {st : EnvStatus} (hd : s.envLock j ≠ some d) (hr : s.Past d →
    s.curenv d = some j → s.status j ≠ .running) : Stable s (s.setStatus j st) d := by
  refine ⟨rfl,rfl,fun h => h,fun k hk => ⟨hk,?_⟩,fun _ => rfl,fun k hp hc hk => ?_⟩
  · have hkj : k ≠ j := by
      rintro rfl
      exact hd hk
    simp [setStatus,hkj]
  have hkj : k ≠ j := by
    rintro rfl
    exact hr hp hc hk
  simpa [setStatus,hkj] using hk

lemma At.stable (h : Stable s t d) (ha : s.At d (s.pc d)) : t.At d (t.pc d) := by
  rw [h.pc]
  have past : s.Past d → ∀ j, s.curenv d = some j → s.status j = .running →
      t.curenv d = some j ∧ t.status j = .running :=
    fun hp j hc hr => ⟨h.curenv.trans hc,h.runs j hp hc hr⟩
  have table : s.tableLock = some d → t.tableLock = some d ∧ t.pre = s.pre :=
    fun hs => ⟨h.table hs,h.pre (.inl hs)⟩
  cases hp : s.pc d with
  | user | yieldAssert | yieldLock =>
    rw [hp] at ha
    obtain ⟨j,hc,hr⟩ := ha
    exact ⟨j,past (by simp [Past,hp]) j hc hr⟩
  | yieldSet =>
    rw [hp] at ha
    obtain ⟨j,hc,hr,hl⟩ := ha
    obtain ⟨hc',hr'⟩ := past (by simp [Past,hp]) j hc hr
    exact ⟨j,hc',hr',(h.lock j hl).1⟩
  | yieldUnlock =>
    rw [hp] at ha
    obtain ⟨j,hc,hl⟩ := ha
    exact ⟨j,h.curenv.trans hc,(h.lock j hl).1⟩
  | tableLock | idleTest | idleLock => trivial
  | cursorTest | cursorRead | cursorWrite | lockIndex | idleUnlock =>
    rw [hp] at ha
    exact h.table ha
  | lockEnv i j =>
    rw [hp] at ha
    exact ⟨h.table ha.1,ha.2.trans (table ha.1).2.symm⟩
  | testIndex | unlockIndex =>
    rw [hp] at ha
    obtain ⟨ht,hl⟩ := ha
    refine ⟨h.table ht,?_⟩
    rw [(table ht).2]
    exact (h.lock _ hl).1
  | test | unlockEnv =>
    rw [hp] at ha
    obtain ⟨ht,hl,hj⟩ := ha
    refine ⟨h.table ht,?_⟩
    rw [(table ht).2]
    exact ⟨(h.lock _ hl).1,hj⟩
  | tableUnlock =>
    rw [hp] at ha
    obtain ⟨ht,hl,hr⟩ := ha
    refine ⟨h.table ht,?_⟩
    rw [(table ht).2]
    exact ⟨(h.lock _ hl).1,(h.lock _ hl).2.trans hr⟩
  | runIndex =>
    rw [hp] at ha
    obtain ⟨hl,hr⟩ := ha
    simp only [At]
    rw [h.pre (.inr hp)]
    exact ⟨(h.lock _ hl).1,(h.lock _ hl).2.trans hr⟩
  | setCurenv j =>
    rw [hp] at ha
    exact ⟨(h.lock j ha.1).1,(h.lock j ha.1).2.trans ha.2⟩
  | setStatus j | unlock j =>
    rw [hp] at ha
    obtain ⟨hc,hl,hr⟩ := ha
    exact ⟨h.curenv.trans hc,(h.lock j hl).1,(h.lock j hl).2.trans hr⟩

lemma Inv.running (h : Inv s) (hr : s.Runs c j) : s.status j = .running := by
  have ha := h.here c
  have mine : (∃ k, s.curenv c = some k ∧ s.status k = .running) → s.status j = .running := by
    rintro ⟨k,hk,hst⟩
    obtain rfl := mem_unique hr.2 hk
    exact hst
  obtain (hp | hp | hp | hp) | hp := hr.1
  · rw [hp] at ha
    exact mine ha
  · rw [hp] at ha
    exact mine ha
  · rw [hp] at ha
    exact mine ha
  · rw [hp] at ha
    obtain ⟨k,hk,hst,_⟩ := ha
    exact mine ⟨k,hk,hst⟩
  rw [hp] at ha
  exact ha.2.2

lemma Stable.runs_iff (h : Stable s t d) : t.Runs d j ↔ s.Runs d j := by
  simp only [Runs,Past,h.pc,h.curenv]

lemma Runs.not_free (h : s.Runs c j) : ¬(s.pc c).Free := by
  obtain ⟨(hp | hp | hp | hp) | hp,_⟩ := h <;> simp [hp,Pc.Free]

lemma ne_of_held {o : Option ι} {d : ι} (hd : d ≠ c) (ho : o = some c) : o ≠ some d := by
  rw [ho]
  simpa using hd.symm

lemma Stable.refl (s : Sched ι) (d : ι) : Stable s s d :=
  ⟨rfl,rfl,fun h => h,fun _ h => ⟨h,rfl⟩,fun _ => rfl,fun _ _ _ h => h⟩

lemma Boot.inv (h : Boot s) : Inv s := by
  refine ⟨fun c => ?_,fun c d j hc => absurd ?_ hc.not_free⟩
  · rw [h.pc]
    trivial
  rw [h.pc]
  trivial

lemma Inv.exclusive (h : Inv s) : Exclusive s := by
  refine ⟨fun c d j hc hd hcj hdj => h.once c d j ⟨.inl hc,hcj⟩ ⟨.inl hd,hdj⟩,fun c j hp => ?_⟩
  have ha := h.here c
  rw [hp] at ha
  exact ha

lemma Inv.move (h : Inv s) (hst : ∀ d, d ≠ c → Stable s t d) (hat : t.At c (t.pc c))
    (hruns : ∀ j, t.Runs c j → s.Runs c j ∨ s.status j ≠ .running) : Inv t := by
  have alone : ∀ d j, d ≠ c → t.Runs c j → ¬t.Runs d j := by
    intro d j hd hc hdj
    have hdj' := (hst d hd).runs_iff.mp hdj
    obtain hc' | hne := hruns j hc
    · exact hd (h.once d c j hdj' hc')
    exact hne (h.running hdj')
  refine ⟨fun d => ?_,fun x y j hx hy => ?_⟩
  · by_cases hd : d = c
    · rw [hd]
      exact hat
    exact .stable (hst d hd) (h.here d)
  by_cases hxc : x = c
  · by_cases hyc : y = c
    · rw [hxc,hyc]
    exact absurd hy (alone y j hyc (hxc ▸ hx))
  by_cases hyc : y = c
  · exact absurd hx (alone x j hxc (hyc ▸ hy))
  exact h.once x y j ((hst x hxc).runs_iff.mp hx) ((hst y hyc).runs_iff.mp hy)

end stable

section step

variable [DecidableEq ι] {s t u : Sched ι} {c : ι}

lemma go_pc (pc : Pc) : (s.go c pc).pc c = pc := update_self _ _ _

lemma at_go {d : ι} {p q : Pc} : (s.go c p).At d q ↔ s.At d q := by
  cases q <;> exact .rfl

lemma Inv.enter {pc : Pc} (h : Inv s) (hst : ∀ d, d ≠ c → Stable s u d) (hq : pc.Free)
    (hat : u.At c pc) : Inv (u.go c pc) := by
  refine h.move (fun d hd => (hst d hd).trans (stable_go hd pc)) ?_ fun j hj => ?_
  · rw [go_pc]
    exact at_go.mpr hat
  refine absurd ?_ hj.not_free
  rw [go_pc]
  exact hq

lemma Inv.loop {i : Nat} (h : Inv s) (hst : ∀ d, d ≠ c → Stable s u d)
    (ht : u.tableLock = some c) : Inv (u.loop c i) := by
  unfold Sched.loop
  split
  · exact h.enter hst trivial ht
  exact h.enter hst trivial ht

lemma Inv.step (h : Inv s) (hc : Careful c s) (hs : next c s = some t) : Inv t := by
  have ha := h.here c
  have same : ∀ d, d ≠ c → Stable s s d := fun d _ => .refl s d
  unfold next at hs
  cases hp : s.pc c with
  | user =>
    simp only [hp] at hs ha
    cases hs
    refine h.move (fun d hd => stable_go hd _) ?_ fun j hj => .inl ⟨.inl (by simp [Past,hp]),hj.2⟩
    rw [go_pc]
    exact ha
  | yieldAssert =>
    simp only [hp] at hs ha
    obtain ⟨j,hj,hr⟩ := ha
    simp only [hj,hr,bind_eq_bind,bind_some,if_true] at hs
    cases hs
    refine h.move (fun d hd => stable_go hd _) ?_ fun k hk => .inl ⟨.inl (by simp [Past,hp]),hk.2⟩
    rw [go_pc]
    exact ⟨j,hj,hr⟩
  | yieldLock =>
    simp only [hp] at hs ha
    obtain ⟨j,hj,hr⟩ := ha
    simp only [hj,bind_eq_bind,bind_some] at hs
    split at hs
    · rename_i hfree
      cases hs
      refine h.move (fun d hd => (stable_setLock (by simp [hfree]) _).trans (stable_go hd _)) ?_
        fun k hk => .inl ⟨.inl (by simp [Past,hp]),hk.2⟩
      rw [go_pc]
      exact ⟨j,hj,hr,by simp [go,setLock]⟩
    cases hs
  | yieldSet =>
    simp only [hp] at hs ha
    obtain ⟨j,hj,hr,hl⟩ := ha
    simp only [hj,bind_eq_bind,bind_some] at hs
    cases hs
    have hrun : s.Runs c j := ⟨.inl (by simp [Past,hp]),hj⟩
    refine h.enter (fun d hd => stable_setStatus (ne_of_held hd hl) ?_) trivial ⟨j,hj,hl⟩
    exact fun hpast hcd => absurd (h.once d c j ⟨.inl hpast,hcd⟩ hrun) hd
  | yieldUnlock =>
    simp only [hp] at hs ha
    obtain ⟨j,hj,hl⟩ := ha
    simp only [hj,bind_eq_bind,bind_some] at hs
    cases hs
    exact h.enter (fun d hd => stable_setLock (ne_of_held hd hl) _) trivial trivial
  | tableLock =>
    simp only [hp] at hs
    split at hs
    · rename_i hfree
      cases hs
      exact h.loop (fun d _ => stable_setTable (by simp [hfree]) _) rfl
    cases hs
  | cursorTest i =>
    simp only [hp] at hs ha
    cases hs
    split
    · exact h.enter same trivial ha
    exact h.enter same trivial ha
  | cursorRead i =>
    simp only [hp] at hs ha
    cases hs
    exact h.enter same trivial ha
  | cursorWrite i v =>
    simp only [hp] at hs ha
    cases hs
    refine h.enter (fun d hd => ?_) trivial ha
    refine ⟨rfl,rfl,fun h => h,fun _ h => ⟨h,rfl⟩,?_,fun _ _ _ h => h⟩
    rintro (ht | hr)
    · exact absurd ht (ne_of_held hd ha)
    exact absurd hr (hc.1 i v hp d)
  | lockIndex i =>
    simp only [hp] at hs ha
    cases hs
    exact h.enter same trivial ⟨ha,rfl⟩
  | lockEnv i j =>
    simp only [hp] at hs ha
    split at hs
    · rename_i hfree
      cases hs
      refine h.enter (fun d _ => stable_setLock (by simp [hfree]) _) trivial ⟨ha.1,?_⟩
      simp [setLock,ha.2]
    cases hs
  | testIndex i =>
    simp only [hp] at hs ha
    cases hs
    exact h.enter same trivial ⟨ha.1,ha.2,rfl⟩
  | test i j =>
    simp only [hp] at hs ha
    obtain ⟨ht,hl,rfl⟩ := ha
    cases hs
    split
    · rename_i hr
      exact h.enter same trivial ⟨ht,hl,hr⟩
    exact h.enter same trivial ⟨ht,hl⟩
  | tableUnlock =>
    simp only [hp] at hs ha
    cases hs
    exact h.enter (fun d hd => stable_setTable (ne_of_held hd ha.1) _) trivial ha.2
  | runIndex =>
    simp only [hp] at hs ha
    cases hs
    exact h.enter same trivial ha
  | unlockIndex i =>
    simp only [hp] at hs ha
    cases hs
    exact h.enter same trivial ⟨ha.1,ha.2,rfl⟩
  | unlockEnv i j =>
    simp only [hp] at hs ha
    obtain ⟨ht,hl,rfl⟩ := ha
    cases hs
    exact h.loop (fun d hd => stable_setLock (ne_of_held hd hl) _) ht
  | idleUnlock =>
    simp only [hp] at hs ha
    cases hs
    exact h.enter (fun d hd => stable_setTable (ne_of_held hd ha) _) trivial trivial
  | idleTest =>
    simp only [hp] at hs
    cases hs
    split
    · exact h.enter same trivial trivial
    exact h.enter same trivial trivial
  | idleLock =>
    simp only [hp] at hs
    split at hs
    · rename_i hfree
      cases hs
      refine h.enter (fun d _ => stable_setLock (by simp [hfree]) _) trivial ⟨?_,hc.2 hp⟩
      simp [setLock]
    cases hs
  | setCurenv j =>
    simp only [hp] at hs ha
    cases hs
    refine h.enter (fun d hd => ?_) trivial ⟨by simp,ha.1,ha.2⟩
    exact ⟨rfl,by simp [hd],fun h => h,fun _ h => ⟨h,rfl⟩,fun _ => rfl,fun _ _ _ h => h⟩
  | setStatus j =>
    simp only [hp] at hs ha
    obtain ⟨hj,hl,hr⟩ := ha
    cases hs
    refine h.move (fun d hd => (stable_setStatus (ne_of_held hd hl) ?_).trans (stable_go hd _)) ?_
      fun k hk => .inr ?_
    · exact fun _ _ => by rw [hr]; simp
    · rw [go_pc]
      exact ⟨hj,hl,by simp [go,Sched.setStatus]⟩
    obtain rfl := mem_unique hj hk.2
    rw [hr]
    simp
  | unlock j =>
    simp only [hp] at hs ha
    obtain ⟨hj,hl,hr⟩ := ha
    cases hs
    refine h.move (fun d hd => (stable_setLock (ne_of_held hd hl) _).trans (stable_go hd _)) ?_
      fun k hk => .inl ?_
    · rw [go_pc]
      exact ⟨j,hj,hr⟩
    obtain rfl := mem_unique hj hk.2
    exact ⟨.inr hp,hj⟩

/-- In careful runs an environment runs on at most one processor. -/
theorem exclusive_careful (h : Reach Boot next Careful s) : Exclusive s :=
  (h.invariant (fun _ hs => hs.inv) fun _ _ _ hi hc hs => hi.step hc hs).exclusive

end step

def twoCpus : Sched Bool where
  tableLock := none
  envLock _ := none
  pre := 0
  status j := if j = 1 ∨ j = 2 then .runnable else .free
  curenv _ := none
  pc _ := .tableLock

lemma boot_twoCpus : Boot twoCpus :=
  ⟨rfl,fun _ => rfl,rfl,fun j => by simp only [twoCpus]; split <;> simp,fun _ => rfl⟩

def cursorRace : List Bool :=
  .replicate 9 false ++ .replicate 4 true ++ [false] ++ .replicate 6 true ++
    .replicate 3 false ++ .replicate 3 true

theorem cursor_race : ∃ s : Sched Bool, Reach Boot next (fun _ _ => True) s ∧ s.pc false = .user ∧
    s.pc true = .user ∧ s.curenv false = some 2 ∧ s.curenv true = some 2 ∧ ¬Exclusive s := by
  have hrun : (turns next (fun _ _ => true) cursorRace twoCpus).map (fun s =>
      decide (s.pc false = .user ∧ s.pc true = .user ∧ s.curenv false = some 2 ∧
        s.curenv true = some 2)) = some true := by decide +kernel
  obtain ⟨s,hs,h0,h1,hc0,hc1⟩ := of_map_decide hrun
  have hreach : Reach Boot next (fun _ _ => True) s :=
    (Reach.start boot_twoCpus).turns (fun _ _ _ => trivial) _ hs
  refine ⟨s,hreach,h0,h1,hc0,hc1,fun hx => ?_⟩
  have := hx.once false true 2 (.inl h0) (.inl h1) hc0 hc1
  contradiction

def carefulTest (c : Bool) (s : Sched Bool) : Bool :=
  match s.pc c with
  | .cursorWrite _ _ => decide (s.pc false ≠ .runIndex ∧ s.pc true ≠ .runIndex)
  | .idleLock => decide (s.status 0 = .runnable)
  | _ => true

lemma careful_of_test (c : Bool) (s : Sched Bool) (h : carefulTest c s) : Careful c s := by
  refine ⟨fun i v hp d => ?_,fun hp => ?_⟩
  · simp only [carefulTest,hp,decide_eq_true_eq] at h
    cases d
    · exact h.1
    exact h.2
  simpa only [carefulTest,hp,decide_eq_true_eq] using h

theorem exclusive_careful_two : ∃ s : Sched Bool, Reach Boot next Careful s ∧ s.pc false = .user ∧
    s.pc true = .user ∧ s.curenv false = some 1 ∧ s.curenv true = some 2 ∧ Exclusive s := by
  have hrun : (turns next carefulTest (.replicate 13 false ++ .replicate 13 true)
      twoCpus).map (fun s => decide (s.pc false = .user ∧ s.pc true = .user ∧
        s.curenv false = some 1 ∧ s.curenv true = some 2)) = some true := by decide +kernel
  obtain ⟨s,hs,h0,h1,hc0,hc1⟩ := of_map_decide hrun
  have hreach : Reach Boot next Careful s :=
    (Reach.start boot_twoCpus).turns careful_of_test _ hs
  exact ⟨s,hreach,h0,h1,hc0,hc1,exclusive_careful hreach⟩

end Sched

section cpus

/-- An entry of the MP configuration table: a processor, another known type, or none. -/
inductive MpEntry where
  | proc : (apicid flags : BitVec 8) → MpEntry
  | other | unknown

abbrev NCPU : Nat := 21

/-- The loop of `mp_init`, on the APIC ids in `cpus` and the index of `bcpu`. No result is a panic,
or a store behind `cpus[NCPU]`. -/
def mpInit : List MpEntry → List (BitVec 8) → Nat → Option (List (BitVec 8) × Nat)
  | [],cpus,bcpu => some (cpus,bcpu)
  | .proc apicid flags :: l,cpus,bcpu =>
    if cpus.length < NCPU then
      mpInit l (cpus++[apicid]) (if flags&&&2 = 0 then bcpu else cpus.length)
    else none
  | .other :: l,cpus,bcpu => mpInit l cpus bcpu
  | .unknown :: _,_,_ => none

def apicids (l : List MpEntry) : List (BitVec 8) := l.filterMap fun | .proc a _ => a | _ => none

/-- `cpu()` selects the entry that was filled in for the processor. -/
def Enumerates (l : List MpEntry) : Prop :=
  ∃ cpus bcpu, mpInit l [] 0 = some (cpus,bcpu) ∧ cpus.length = (apicids l).length ∧
    ∀ a f, .proc a f ∈ l → cpus[a.toNat]? = some a ∧
      (f&&&2 ≠ 0 → (∀ b g, .proc b g ∈ l → g&&&2 ≠ 0 → b = a) → bcpu = a.toNat)

variable {l : List MpEntry} {cpus : List (BitVec 8)} {bcpu : Nat}

lemma mem_apicids {a : BitVec 8} : a ∈ apicids l ↔ ∃ f, .proc a f ∈ l := by
  simp only [apicids,mem_filterMap]
  grind

lemma mpInit_some (hu : .unknown ∉ l) (h : cpus.length+(apicids l).length ≤ NCPU) :
    ∃ r, mpInit l cpus bcpu = some r := by fun_induction mpInit l cpus bcpu <;> grind [apicids]

lemma mpInit_spec {r : List (BitVec 8) × Nat} (h : mpInit l cpus bcpu = some r) : .unknown ∉ l ∧
    r.1 = cpus++apicids l ∧ (cpus.length ≤ NCPU → r.1.length ≤ NCPU) ∧ (r.2 = bcpu ∧ (∀ a f,
    .proc a f ∈ l → f&&&2 = 0) ∨ ∃ a f, .proc a f ∈ l ∧ f&&&2 ≠ 0 ∧ r.1[r.2]? = some a) := by
  fun_induction mpInit l cpus bcpu <;> grind [apicids]

theorem enumerates_iff (hd : (apicids l).Nodup) : Enumerates l ↔ .unknown ∉ l ∧
    (apicids l).length ≤ NCPU ∧ ∀ i a, (apicids l)[i]? = some a → BitVec.toNat a = i := by
  constructor
  · rintro ⟨cpus,bcpu,h,_,hall⟩
    obtain ⟨hu,rfl,hlen,_⟩ := mpInit_spec h
    refine ⟨hu,hlen (Nat.zero_le _),fun i a hi => ?_⟩
    obtain ⟨f,hf⟩ := mem_apicids.mp (List.mem_of_getElem? hi)
    have ha := (hall a f hf).1
    exact (List.getElem?_inj (List.getElem?_eq_some_iff.mp ha).1 hd).mp (ha.trans hi.symm)
  rintro ⟨hu,hlen,hat⟩
  have hs : ∃ r, mpInit l [] 0 = some r := mpInit_some hu (by simpa using hlen)
  obtain ⟨⟨cpus,bcpu⟩,h⟩ := hs
  obtain ⟨_,rfl,_,hb⟩ := mpInit_spec h
  refine ⟨_,_,h,rfl,fun a f hf => ⟨?_,fun hf2 hone => ?_⟩⟩
  · obtain ⟨i,hi⟩ := List.mem_iff_getElem?.mp (mem_apicids.mpr ⟨f,hf⟩)
    exact hat i a hi ▸ hi
  · grind

theorem enumerates_two : Enumerates [.proc 0 2,.proc 1 0] :=
  (enumerates_iff (by decide)).mpr ⟨by simp,by decide,by grind [apicids]⟩

theorem swapped_processors : ¬Enumerates [.proc 1 2,.proc 0 0] := by
  rintro ⟨_,_,h,_,hall⟩
  cases h
  exact absurd (hall 1 2 (by simp)).1 (by decide)

end cpus

end KludgeOS.Smp
