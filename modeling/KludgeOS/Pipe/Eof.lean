import Mathlib

/-!
`_pipeisclosed` (`lib/pipe.c`) compares the reference counts of two pages, which other
environments map and unmap system call by system call.
-/

namespace KludgeOS
open Finset (mem_insert mem_erase mem_of_mem_erase mem_insert_of_mem mem_insert_self)
open Function List
open Prod (mk)

def MAXFD : Nat := 32

/-- The calls of `pipe`, and those after its error labels. -/
inductive PipeStage where
  | rfd | wfd | page | map | err3 | err2 | err1
  deriving DecidableEq

/-- The calls of `pipeclose`, and the one that `fd_close` makes after it. -/
inductive CloseStage where
  | fd | page | again
  deriving DecidableEq

inductive AfterClose where
  | ret
  | dup : (oldfd newfd : Nat) → AfterClose
  | exit
  deriving DecidableEq

inductive LibPc where
  | idle
  | pipe : (fd0 fd1 : Nat) → PipeStage → LibPc
  | close : (fd : Nat) → CloseStage → (rest : List Nat) → AfterClose → LibPc
  | dupPage : (oldfd newfd : Nat) → LibPc
  | dupFd : (oldfd newfd : Nat) → LibPc
  | undoFd : (newfd : Nat) → LibPc
  | undoPage : (newfd : Nat) → LibPc
  | copyFd : (child : Nat) → (fds : List Nat) → (spawn : Bool) → LibPc
  | copyPage : (child : Nat) → (fds : List Nat) → (spawn : Bool) → LibPc
  | status : (child : Nat) → LibPc
  | destroy
  deriving DecidableEq

/-- The mappings of one pipe, each by an environment and a descriptor. Ids of environments are not
used twice. -/
structure Pipes where
  rfd : Finset (Nat × Nat) := ∅
  wfd : Finset (Nat × Nat) := ∅
  page : Finset (Nat × Nat) := ∅
  used : Finset Nat
  alive : Finset Nat
  run : Finset Nat
  pc : Nat → LibPc := fun _ => .idle
  made : Bool := false

inductive PipesAct where
  | pipe : (e fd0 fd1 : Nat) → PipesAct
  | close : (e fd : Nat) → PipesAct
  | dup : (e oldfd newfd : Nat) → PipesAct
  | fork : (e child : Nat) → PipesAct
  | spawn : (e child : Nat) → PipesAct
  | exit : (e : Nat) → PipesAct
  | destroy : (e : Nat) → PipesAct
  /-- The next system call of `e`; if it can fail, `ok` says whether it does. -/
  | call : (e : Nat) → (ok : Bool) → PipesAct
  deriving DecidableEq

def afterClose : List Nat → AfterClose → LibPc
  | fd :: rest,next => .close fd .fd rest next
  | [],.ret => .idle
  | [],.dup i j => .dupPage i j
  | [],.exit => .destroy

namespace Pipes

variable (m : Pipes)

def HasFd (p : Nat × Nat) : Prop := p ∈ m.rfd ∨ p ∈ m.wfd

instance (p : Nat × Nat) : Decidable (m.HasFd p) := inferInstanceAs (Decidable (_ ∨ _))

def setPc (e : Nat) (pc : LibPc) : Pipes := {m with pc := update m.pc e pc}

/-- `sys_page_map` of the `Fd` page at `p` to `q`. -/
def mapFd (p q : Nat × Nat) : Pipes :=
  { m with
    rfd := if p ∈ m.rfd then insert q m.rfd else m.rfd.erase q
    wfd := if p ∈ m.wfd then insert q m.wfd else m.wfd.erase q }

def mapPage (q : Nat × Nat) : Pipes := {m with page := insert q m.page}

def unmapFd (q : Nat × Nat) : Pipes := {m with rfd := m.rfd.erase q, wfd := m.wfd.erase q}

def unmapPage (q : Nat × Nat) : Pipes := {m with page := m.page.erase q}

def destroy (e : Nat) : Pipes :=
  { m with
    rfd := m.rfd.filter fun p => p.1 ≠ e
    wfd := m.wfd.filter fun p => p.1 ≠ e
    page := m.page.filter fun p => p.1 ≠ e
    alive := m.alive.erase e
    run := m.run.erase e
    pc := update m.pc e .idle }

def openFds (e : Nat) : List Nat := (range MAXFD).filter fun i => m.HasFd (e,i)

def openPages (e : Nat) : List Nat := (range MAXFD).filter fun i => (e,i) ∈ m.page

def call (e : Nat) (ok : Bool) : Option Pipes :=
  match m.pc e with
  | .idle => none
  | .pipe i j st =>
    match st,ok with
    | .rfd,true => some ({m with rfd := insert (e,i) m.rfd}.setPc e (.pipe i j .wfd))
    | .rfd,false => some (m.setPc e .idle)
    | .wfd,true => some ({m with wfd := insert (e,j) m.wfd}.setPc e (.pipe i j .page))
    | .wfd,false => some (m.setPc e (.pipe i j .err1))
    | .page,true => some ((m.mapPage (e,i)).setPc e (.pipe i j .map))
    | .page,false => some (m.setPc e (.pipe i j .err2))
    | .map,true => some ((m.mapPage (e,j)).setPc e .idle)
    | .map,false => some (m.setPc e (.pipe i j .err3))
    | .err3,_ => some ((m.unmapPage (e,i)).setPc e (.pipe i j .err2))
    | .err2,_ => some ((m.unmapFd (e,j)).setPc e (.pipe i j .err1))
    | .err1,_ => some ((m.unmapFd (e,i)).setPc e .idle)
  | .close i .fd rest next => some ((m.unmapFd (e,i)).setPc e (.close i .page rest next))
  | .close i .page rest next => some ((m.unmapPage (e,i)).setPc e (.close i .again rest next))
  | .close i .again rest next => some ((m.unmapFd (e,i)).setPc e (afterClose rest next))
  | .dupPage i j =>
    if (e,i) ∈ m.page then
      if ok then some ((m.mapPage (e,j)).setPc e (.dupFd i j)) else some (m.setPc e (.undoFd j))
    else some (m.setPc e (.dupFd i j))
  | .dupFd i j =>
    if ok then
      if m.HasFd (e,i) then some ((m.mapFd (e,i) (e,j)).setPc e .idle) else none
    else some (m.setPc e (.undoFd j))
  | .undoFd j => some ((m.unmapFd (e,j)).setPc e (.undoPage j))
  | .undoPage j => some ((m.unmapPage (e,j)).setPc e .idle)
  | .copyFd c [] sp => some (m.setPc e (.copyPage c (m.openPages e) sp))
  | .copyFd c (i :: l) sp =>
    if ok then
      if m.HasFd (e,i) ∧ c ∈ m.alive then
        some ((m.mapFd (e,i) (c,i)).setPc e (.copyFd c l sp))
      else none
    else some (m.setPc e (if sp then .status c else .idle))
  | .copyPage c [] _ => some (m.setPc e (.status c))
  | .copyPage c (i :: l) sp =>
    if ok then
      if (e,i) ∈ m.page ∧ c ∈ m.alive then
        some ((m.mapPage (c,i)).setPc e (.copyPage c l sp))
      else none
    else some (m.setPc e (if sp then .status c else .idle))
  | .status c =>
    some ({m with run := if c ∈ m.alive then insert c m.run else m.run}.setPc e .idle)
  | .destroy => some (m.destroy e)

def Ready (e : Nat) : Prop := e ∈ m.run ∧ m.pc e = .idle

instance (e : Nat) : Decidable (m.Ready e) := inferInstanceAs (Decidable (_ ∧ _))

/-- `sys_exofork`, and the copying of pages in the order of their addresses. -/
def copyTo (e c : Nat) (spawn : Bool) : Pipes :=
  {m with used := insert c m.used, alive := insert c m.alive}.setPc e
    (.copyFd c (m.openFds e) spawn)

def step : PipesAct → Option Pipes
  | .pipe e i j =>
    if m.Ready e ∧ m.made = false ∧ i < MAXFD ∧ j < MAXFD ∧ i ≠ j then
      some ({m with made := true}.setPc e (.pipe i j .rfd))
    else none
  | .close e i =>
    if m.Ready e ∧ m.HasFd (e,i) then some (m.setPc e (.close i .fd [] .ret)) else none
  | .dup e i j =>
    if m.Ready e ∧ m.HasFd (e,i) ∧ j < MAXFD then
      some (m.setPc e (if m.HasFd (e,j) then .close j .fd [] (.dup i j) else .dupPage i j))
    else none
  | .fork e c => if m.Ready e ∧ c ∉ m.used then some (m.copyTo e c false) else none
  | .spawn e c => if m.Ready e ∧ c ∉ m.used then some (m.copyTo e c true) else none
  | .exit e => if m.Ready e then some (m.setPc e (afterClose (m.openFds e) .exit)) else none
  | .destroy e => if e ∈ m.alive then some (m.destroy e) else none
  | .call e ok => m.call e ok

/-- `_pipeisclosed` for descriptor `i` of `e`. It compares the two counts again if `env_runs` shows
that other environments have run in between. -/
def pipeisclosed (e i : Nat) : Bool :=
  (if (e,i) ∈ m.rfd then m.rfd.card else m.wfd.card) ==
    if (e,i) ∈ m.page then m.page.card else 0

end Pipes

def LibPc.copies : LibPc → Option Nat
  | .copyFd c _ _ | .copyPage c _ _ => some c
  | _ => none

def Uncut (m : Pipes) : PipesAct → Prop
  | .call e ok => ok = false → ∀ c ∈ m.alive, (m.pc e).copies ≠ some c
  | .destroy e => ∀ c ∈ m.alive, (m.pc e).copies ≠ some c
  | _ => True

inductive PipesRun (P : Pipes → PipesAct → Prop) : Pipes → Prop where
  | start (envs : Finset Nat) : PipesRun P {used := envs, alive := envs, run := envs}
  | step {m m' : Pipes} {a : PipesAct} : PipesRun P m → m.step a = some m' → P m a → PipesRun P m'

instance (m : Pipes) (a : PipesAct) : Decidable (Uncut m a) := match a with
  | .call _ _ => inferInstanceAs (Decidable (_ → _))
  | .destroy e => inferInstanceAs (Decidable (∀ c ∈ m.alive, (m.pc e).copies ≠ some c))
  | .pipe _ _ _ | .close _ _ | .dup _ _ _ | .fork _ _ | .spawn _ _ | .exit _ => isTrue trivial

def Pipes.steps (P : Pipes → PipesAct → Prop) [∀ m a, Decidable (P m a)] (m : Pipes) :
    List PipesAct → Option Pipes
  | [] => some m
  | a :: l => if P m a then (m.step a).bind fun m => m.steps P l else none

open LibPc Pipes

lemma PipesRun.steps {P : Pipes → PipesAct → Prop} [∀ m a, Decidable (P m a)] {m m' : Pipes}
    (h : PipesRun P m) (l : List PipesAct) (hr : m.steps P l = some m') : PipesRun P m' := by
  induction l generalizing m with
  | nil =>
    cases hr
    exact h
  | cons a l ih =>
    unfold Pipes.steps at hr
    split at hr
    · rename_i hP
      obtain ⟨m1,h1,hr⟩ := Option.bind_eq_some_iff.mp hr
      exact ih (h.step h1 hP) hr
    cases hr

def LibPc.child : LibPc → Option Nat
  | .copyFd c _ _ | .copyPage c _ _ | .status c => some c
  | _ => none

def LibPc.makes : LibPc → Bool
  | .pipe _ _ _ => true
  | _ => false

def LibPc.Plain (pc : LibPc) : Prop := pc.child = none ∧ pc.makes = false

/-- The environment will map the page at descriptor `i` of its child `c`. -/
def LibPc.Owes (c i : Nat) : LibPc → Prop
  | .copyFd c' _ _ => c' = c
  | .copyPage c' l _ => c' = c ∧ i ∈ l
  | _ => False

def Pipes.Entry (m : Pipes) (p : Nat × Nat) : Prop := m.HasFd p ∨ p ∈ m.page

/-- The descriptors that `pipe` has a page for at each stage. -/
def PipeStage.Has (i j : Nat) (st : PipeStage) (k : Nat) : Prop :=
  (k = i ∧ st ≠ .rfd) ∨ (k = j ∧ st ≠ .rfd ∧ st ≠ .wfd ∧ st ≠ .err1)

/-- What is known before each system call of `e`. -/
def LibPc.Knows (m : Pipes) (e : Nat) : LibPc → Prop
  | .pipe i j st => (i < MAXFD ∧ j < MAXFD ∧ i ≠ j) ∧ (∀ k, m.HasFd (e,k) → st.Has i j k) ∧
      (st = .map → (e,i) ∈ m.page)
  | .close i st _ next => (st ≠ .fd → ¬m.HasFd (e,i)) ∧ ∀ a b, next = .dup a b → b < MAXFD
  | .dupPage _ j => j < MAXFD
  | .dupFd i j => j < MAXFD ∧ (m.HasFd (e,i) → (e,j) ∈ m.page)
  | .undoPage j => ¬m.HasFd (e,j)
  | .copyFd c _ _ => ∀ i, m.HasFd (c,i) → (e,i) ∈ m.page
  | .copyPage _ l _ => ∀ i ∈ l, (e,i) ∈ m.page
  | _ => True

structure SameProcs (m m' : Pipes) : Prop where
  used : m'.used = m.used
  alive : m'.alive = m.alive
  run : m'.run = m.run
  made : m'.made = m.made

/-- `x` goes on to `pc`, and of the mappings only those of `t` change. -/
structure Touches (m m' : Pipes) (x t : Nat) (pc : LibPc) : Prop where
  pc : m'.pc = update m.pc x pc
  procs : SameProcs m m'
  same : ∀ y i, y ≠ t → (m'.HasFd (y,i) ↔ m.HasFd (y,i)) ∧ ((y,i) ∈ m'.page ↔ (y,i) ∈ m.page)

structure EofInv (m : Pipes) : Prop where
  disj : ∀ p, p ∈ m.rfd → p ∉ m.wfd
  bound : ∀ p, m.Entry p → p.2 < MAXFD
  live : ∀ p, m.Entry p → p.1 ∈ m.alive
  used : m.alive ⊆ m.used
  run : m.run ⊆ m.alive
  busy : ∀ e, m.pc e ≠ .idle → e ∈ m.run
  child : ∀ e c, (m.pc e).child = some c → c ∈ m.used ∧ c ∉ m.run
  only : ∀ x y c, (m.pc x).child = some c → (m.pc y).child = some c → x = y
  sole : ∀ x y, (m.pc x).makes → (m.pc y).makes → x = y
  unmade : m.made = false → (∀ p, ¬m.Entry p) ∧ ∀ e, (m.pc e).makes = false
  own : ∀ e, (m.pc e).makes → ∀ p, m.Entry p → p.1 = e
  knows : ∀ e, (m.pc e).Knows m e
  whole : ∀ e i, m.HasFd (e,i) → (e,i) ∈ m.page ∨ (∃ x, (m.pc x).Owes e i) ∨ (m.pc e).makes

section eof

variable {m m' : Pipes} {e x t : Nat} {pc : LibPc}

lemma LibPc.Knows.frame (h : pc.Knows m e)
    (hself : ∀ i, (m'.HasFd (e,i) ↔ m.HasFd (e,i)) ∧ ((e,i) ∈ m'.page ↔ (e,i) ∈ m.page))
    (hchild : ∀ c, pc.child = some c → ∀ i, m'.HasFd (c,i) → m.HasFd (c,i)) : pc.Knows m' e := by
  cases pc with
  | copyFd c l sp => exact fun i hi => (hself i).2.mpr (h i (hchild c rfl i hi))
  | idle | undoFd _ | status _ | destroy => trivial
  | _ =>
    simp only [Knows,hself] at h ⊢
    exact h

variable {c i j k : Nat} {l rest : List Nat} {sp ok : Bool} {next : AfterClose}

lemma LibPc.Owes.copies (h : pc.Owes c i) : pc.copies = some c := by
  cases pc with
  | copyFd c' l sp => exact congrArg some h
  | copyPage c' l sp => exact congrArg some h.1
  | _ => exact h.elim

lemma LibPc.child_of_copies (h : pc.copies = some c) : pc.child = some c := by
  cases pc with
  | copyFd c' l sp => exact h
  | copyPage c' l sp => exact h
  | _ => simp [copies] at h

lemma LibPc.Owes.child (h : pc.Owes c i) : pc.child = some c := child_of_copies h.copies

lemma LibPc.child_of_makes (h : pc.makes) : pc.child = none := by
  cases pc with
  | pipe i j st => rfl
  | _ => simp [makes] at h

lemma EofInv.has (h : EofInv m) (he : e ∈ m.run) (hm : (m.pc e).makes = false)
    (hi : m.HasFd (e,i)) : (e,i) ∈ m.page := by
  rcases h.whole e i hi with hp | ⟨x,hx⟩ | hc
  · exact hp
  · exact absurd he (h.child x e hx.child).2
  simp [hm] at hc

lemma EofInv.touch (h : EofInv m) (hx : x ∈ m.run) (ht : t = x ∨ (m.pc x).child = some t) (hlive
    : t ∈ m.alive) (hto : Touches m m' x t pc) (hdisj : ∀ p, p ∈ m'.rfd → p ∉ m'.wfd) (hbound : ∀ i,
    m'.Entry (t,i) → i < MAXFD) (hsub : ∀ i, m'.Entry (t,i) → m.Entry (t,i) ∨ (∃ k, m.Entry (x,k)) ∨
    (m.pc x).makes) (hchild : ∀ c, pc.child = some c → (m.pc x).child = some c) (hmakes : pc.makes →
    (m.pc x).makes) (hknows : pc.Knows m' x) (hwhole : ∀ y i, y = t ∨ y = x ∨ (m.pc x).Owes y i →
    m'.HasFd (y,i) → (y,i) ∈ m'.page ∨ pc.Owes y i ∨ (y = x ∧ pc.makes)) : EofInv m' := by
  obtain ⟨hpc,⟨hused,halive,hrun,hmade⟩,hsame⟩ := hto
  have hself : m'.pc x = pc := by rw [hpc,update_self]
  have hother : ∀ y, y ≠ x → m'.pc y = m.pc y := fun y hy => by rw [hpc,update_of_ne hy]
  have hchild' : ∀ y c, (m'.pc y).child = some c → (m.pc y).child = some c := by
    intro y c hc
    by_cases hy : y = x
    · subst hy
      exact hchild c (hself ▸ hc)
    rwa [hother y hy] at hc
  have hmakes' : ∀ y, (m'.pc y).makes → (m.pc y).makes := by
    intro y hy
    by_cases hyx : y = x
    · subst hyx
      exact hmakes (hself ▸ hy)
    rwa [hother y hyx] at hy
  have hentry : ∀ y i, y ≠ t → m'.Entry (y,i) → m.Entry (y,i) := fun y i hy =>
    .imp (hsame y i hy).1.mp (hsame y i hy).2.mp
  -- an environment in pipe() is the only one with mappings
  have hown : ∀ y, (m.pc y).makes → ∀ i, m'.Entry (t,i) → t = y := by
    intro y hy i hi
    rcases hsub i hi with hp | ⟨k,hk⟩ | hmk
    · exact h.own y hy _ hp
    · obtain rfl := h.own y hy _ hk
      exact ht.resolve_right fun hc => by simp [child_of_makes hy] at hc
    obtain rfl := h.sole x y hmk hy
    exact ht.resolve_right fun hc => by simp [child_of_makes hy] at hc
  refine {
    disj := hdisj
    bound := ?_
    live := ?_
    used := by rw [halive,hused]; exact h.used
    run := by rw [hrun,halive]; exact h.run
    busy := ?_
    child := fun y c hc => by rw [hused,hrun]; exact h.child y c (hchild' y c hc)
    only := fun y z c hy hz => h.only y z c (hchild' y c hy) (hchild' z c hz)
    sole := fun y z hy hz => h.sole y z (hmakes' y hy) (hmakes' z hz)
    unmade := ?_
    own := ?_
    knows := ?_
    whole := ?_ }
  · rintro ⟨y,i⟩ hp
    by_cases hy : y = t
    · subst hy
      exact hbound i hp
    exact h.bound _ (hentry y i hy hp)
  · rintro ⟨y,i⟩ hp
    rw [halive]
    by_cases hy : y = t
    · subst hy
      exact hlive
    exact h.live _ (hentry y i hy hp)
  · intro y hy
    rw [hrun]
    by_cases hyx : y = x
    · exact hyx ▸ hx
    exact h.busy y (hother y hyx ▸ hy)
  · intro hm
    rw [hmade] at hm
    obtain ⟨hno,hmk⟩ := h.unmade hm
    refine ⟨?_,fun y => Bool.eq_false_iff.mpr fun hc => Bool.eq_false_iff.mp (hmk y) (hmakes' y hc)⟩
    rintro ⟨y,i⟩ hp
    by_cases hy : y = t
    · subst hy
      rcases hsub i hp with hp | ⟨k,hk⟩ | hc
      · exact hno _ hp
      · exact hno _ hk
      simp [hmk x] at hc
    exact hno _ (hentry y i hy hp)
  · rintro y hy ⟨z,i⟩ hp
    by_cases hz : z = t
    · subst hz
      exact hown y (hmakes' y hy) i hp
    exact h.own y (hmakes' y hy) _ (hentry z i hz hp)
  · intro y
    by_cases hy : y = x
    · subst hy
      rw [hself]
      exact hknows
    rw [hother y hy]
    by_cases hidle : m.pc y = .idle
    · rw [hidle]
      trivial
    have hyrun := h.busy y hidle
    have hyt : y ≠ t := by
      rintro rfl
      exact ht.elim hy fun hc => (h.child x y hc).2 hyrun
    refine (h.knows y).frame (fun i => hsame y i hyt) fun c hc i hi => ?_
    refine (hsame c i ?_).1.mp hi
    rintro rfl
    rcases ht with rfl | htc
    · exact (h.child y c hc).2 hx
    exact hy (h.only y x c hc htc)
  intro y i hi
  by_cases hy : y = t ∨ y = x ∨ (m.pc x).Owes y i
  · rcases hwhole y i hy hi with hp | ho | ⟨rfl,hm⟩
    · exact .inl hp
    · exact .inr (.inl ⟨x,by rw [hself]; exact ho⟩)
    exact .inr (.inr (by rw [hself]; exact hm))
  have hyt : y ≠ t := fun hc => hy (.inl hc)
  have hyx : y ≠ x := fun hc => hy (.inr (.inl hc))
  rcases h.whole y i ((hsame y i hyt).1.mp hi) with hp | ⟨z,hz⟩ | hm
  · exact .inl ((hsame y i hyt).2.mpr hp)
  · have hzx : z ≠ x := fun hc => hy (.inr (.inr (hc ▸ hz)))
    exact .inr (.inl ⟨z,by rw [hother z hzx]; exact hz⟩)
  exact .inr (.inr (by rw [hother y hyx]; exact hm))

@[simp] lemma hasFd_setPc (p : Nat × Nat) : (m.setPc x pc).HasFd p ↔ m.HasFd p := Iff.rfl

@[simp] lemma hasFd_unmapFd (q p : Nat × Nat) : (m.unmapFd q).HasFd p ↔ p ≠ q ∧ m.HasFd p := by
  simp [HasFd,unmapFd,and_or_left]

lemma hasFd_mapFd {q0 : Nat × Nat} (h : m.HasFd q0) (q p : Nat × Nat) :
    (m.mapFd q0 q).HasFd p ↔ p = q ∨ m.HasFd p := by
  unfold HasFd mapFd at *
  by_cases hp : p = q
  · subst hp
    rcases h with h | h <;> simp [h]
  by_cases h1 : q0 ∈ m.rfd <;> by_cases h2 : q0 ∈ m.wfd <;> simp [h1,h2,hp]

lemma disj_mapFd {q0 q : Nat × Nat} (h : ∀ p, p ∈ m.rfd → p ∉ m.wfd) (p : Nat × Nat)
    (hp : p ∈ (m.mapFd q0 q).rfd) : p ∉ (m.mapFd q0 q).wfd := by
  have h0 := h q0
  have h1 := h p
  unfold mapFd at *
  by_cases hr : q0 ∈ m.rfd
  · simp only [hr,if_true,mem_insert] at hp
    simp only [h0 hr,if_false,mem_erase,not_and]
    rcases hp with rfl | hp
    · exact fun hc => absurd rfl hc
    exact fun _ => h1 hp
  simp only [hr,if_false,mem_erase] at hp
  by_cases hw : q0 ∈ m.wfd <;> simp [hw,hp.1,h1 hp.2]

lemma setPc_touches (t : Nat) : Touches m (m.setPc x pc) x t pc :=
  ⟨rfl,⟨rfl,rfl,rfl,rfl⟩,fun _ _ _ => ⟨.rfl,.rfl⟩⟩

lemma unmapFd_touches (i : Nat) : Touches m ((m.unmapFd (t,i)).setPc x pc) x t pc :=
  ⟨rfl,⟨rfl,rfl,rfl,rfl⟩,fun y k hy => ⟨by simp [hy],.rfl⟩⟩

lemma unmapPage_touches (i : Nat) : Touches m ((m.unmapPage (t,i)).setPc x pc) x t pc :=
  ⟨rfl,⟨rfl,rfl,rfl,rfl⟩,fun y k hy => ⟨.rfl,by simp [setPc,unmapPage,hy]⟩⟩

lemma mapPage_touches (i : Nat) : Touches m ((m.mapPage (t,i)).setPc x pc) x t pc :=
  ⟨rfl,⟨rfl,rfl,rfl,rfl⟩,fun y k hy => ⟨.rfl,by simp [setPc,mapPage,hy]⟩⟩

lemma mapFd_touches {q : Nat × Nat} (hq : m.HasFd q) (i : Nat) :
    Touches m ((m.mapFd q (t,i)).setPc x pc) x t pc := by
  refine ⟨rfl,⟨rfl,rfl,rfl,rfl⟩,fun y k hy => ⟨?_,.rfl⟩⟩
  exact (hasFd_mapFd hq (t,i) (y,k)).trans (or_iff_right fun hc => hy (mk.inj hc).1)

lemma entry_mapPage {y : Nat} (h : ((m.mapPage (t,i)).setPc x pc).Entry (y,k)) :
    m.Entry (y,k) ∨ k = i := by
  rcases h with h | h
  · exact .inl (.inl h)
  exact (mem_insert.mp h).elim (fun h => .inr (mk.inj h).2) fun h => .inl (.inr h)

lemma entry_mapFd {q : Nat × Nat} {y : Nat} (hq : m.HasFd q)
    (h : ((m.mapFd q (t,i)).setPc x pc).Entry (y,k)) : m.Entry (y,k) ∨ k = i := by
  rcases h with h | h
  · exact ((hasFd_mapFd hq _ _).mp h).elim (fun h => .inr (mk.inj h).2) fun h => .inl (.inl h)
  exact .inl (.inr h)

section

variable (h : EofInv m) (hx : x ∈ m.run)
include h hx

lemma EofInv.ownStep (hto : Touches m m' x x pc) (hdisj : ∀ p, p ∈ m'.rfd → p ∉ m'.wfd)
    (hsub : ∀ i, m'.Entry (x,i) → m.Entry (x,i) ∨ (i < MAXFD ∧ ∃ k, m.Entry (x,k)))
    (hold : (m.pc x).Plain) (hplain : pc.Plain)
    (hknows : pc.Knows m' x) (hwhole : ∀ i, m'.HasFd (x,i) → (x,i) ∈ m'.page) : EofInv m' := by
  refine h.touch hx (.inl rfl) (h.run hx) hto hdisj (fun i hi => ?_)
    (fun i hi => (hsub i hi).imp_right fun hk => .inl hk.2) (by simp [hplain.1]) (by simp [hplain.2])
    hknows fun y i hy hi => ?_
  · exact (hsub i hi).elim (h.bound (x,i)) fun hk => hk.1
  have hyx : y = x := by
    rcases hy with hy | hy | hy
    · exact hy
    · exact hy
    have := hy.child
    simp [hold.1] at this
  subst hyx
  exact .inl (hwhole i hi)

lemma EofInv.move (hold : (m.pc x).Plain)
    (hplain : pc.Plain) (hknows : pc.Knows m x) : EofInv (m.setPc x pc) :=
  h.ownStep hx (setPc_touches x) h.disj (fun _ hi => .inl hi) hold hplain hknows
    fun _ hi => h.has hx hold.2 hi

lemma EofInv.unmapFd (hold : (m.pc x).Plain) (hplain : pc.Plain)
    (hknows : pc.Knows (m.unmapFd (x,i)) x) : EofInv ((m.unmapFd (x,i)).setPc x pc) := by
  refine h.ownStep hx (unmapFd_touches i) (fun p hr hw => ?_) (fun k hk => .inl ?_) hold hplain
    hknows fun k hk => ?_
  · exact h.disj p (mem_of_mem_erase hr) (mem_of_mem_erase hw)
  · exact hk.imp_left fun hk => ((hasFd_unmapFd _ _).mp hk).2
  exact h.has hx hold.2 ((hasFd_unmapFd _ _).mp hk).2

lemma EofInv.unmapPage (hold : (m.pc x).Plain) (hplain : pc.Plain) (hno : ¬m.HasFd (x,i))
    (hknows : pc.Knows (m.unmapPage (x,i)) x) : EofInv ((m.unmapPage (x,i)).setPc x pc) := by
  refine h.ownStep hx (unmapPage_touches i) h.disj
    (fun k hk => .inl (hk.imp_right mem_of_mem_erase)) hold hplain hknows fun k hk => ?_
  have hki : k ≠ i := by
    rintro rfl
    exact hno hk
  exact mem_erase.mpr ⟨fun hc => hki (mk.inj hc).2,h.has hx hold.2 hk⟩

lemma EofInv.mapPage (hold : (m.pc x).Plain) (hplain : pc.Plain) (hi : (x,i) ∈ m.page) (hj :
    j < MAXFD) (hknows : pc.Knows (m.mapPage (x,j)) x) : EofInv ((m.mapPage (x,j)).setPc x pc) := by
  refine h.ownStep hx (mapPage_touches j) h.disj (fun k hk => ?_) hold hplain hknows fun k hk => ?_
  · refine (entry_mapPage hk).imp_right ?_
    rintro rfl
    exact ⟨hj,i,.inr hi⟩
  exact mem_insert_of_mem (h.has hx hold.2 hk)

lemma EofInv.mapFd (hold : (m.pc x).Plain) (hplain : pc.Plain)
    (hi : m.HasFd (x,i)) (hj : j < MAXFD) (hpage : (x,j) ∈ m.page)
    (hknows : pc.Knows (m.mapFd (x,i) (x,j)) x) : EofInv ((m.mapFd (x,i) (x,j)).setPc x pc) := by
  refine h.ownStep hx (mapFd_touches hi j) (disj_mapFd h.disj) (fun k hk => ?_) hold hplain hknows
    fun k hk => ?_
  · refine (entry_mapFd hi hk).imp_right ?_
    rintro rfl
    exact ⟨hj,i,.inl hi⟩
  rcases (hasFd_mapFd hi (x,j) _).mp hk with hk | hk
  · rw [hk]
    exact hpage
  exact h.has hx hold.2 hk

lemma EofInv.childStep (hold : (m.pc x).child = some c) (hmk : (m.pc x).makes = false)
    (hlive : c ∈ m.alive) (hto : Touches m m' x c pc) (hdisj : ∀ p, p ∈ m'.rfd → p ∉ m'.wfd)
    (hsub : ∀ i, m'.Entry (c,i) → m.Entry (c,i) ∨ m.Entry (x,i))
    (hchild : pc.child = some c) (hmakes : pc.makes = false) (hknows : pc.Knows m' x)
    (hwhole : ∀ i, m'.HasFd (c,i) → (c,i) ∈ m'.page ∨ pc.Owes c i) : EofInv m' := by
  have hxc : x ≠ c := by
    rintro rfl
    exact (h.child x x hold).2 hx
  refine h.touch hx (.inr hold) hlive hto hdisj (fun i hi => ?_)
    (fun i hi => (hsub i hi).imp_right fun hk => .inl ⟨i,hk⟩) (by simp [hchild,hold])
    (by simp [hmakes]) hknows fun y i hy hi => ?_
  · exact (hsub i hi).elim (h.bound (c,i)) (h.bound (x,i))
  have hyc : y = x ∨ y = c := by
    rcases hy with hy | hy | hy
    · exact .inr hy
    · exact .inl hy
    exact .inr (Option.mem_unique hy.child hold)
  rcases hyc with rfl | rfl
  · have hsame := hto.same y i hxc
    exact .inl (hsame.2.mpr (h.has hx hmk (hsame.1.mp hi)))
  exact (hwhole i hi).imp_right .inl

lemma EofInv.copyFd {l' : List Nat} (hpc : m.pc x = .copyFd c l' sp) (hi : m.HasFd (x,i))
    (hc : c ∈ m.alive) : EofInv ((m.mapFd (x,i) (c,i)).setPc x (.copyFd c l sp)) := by
  have hk := h.knows x
  rw [hpc] at hk
  refine h.childStep hx (by rw [hpc]; rfl) (by rw [hpc]; rfl) hc (mapFd_touches hi i)
    (disj_mapFd h.disj) (fun k hk => ?_) rfl rfl (fun k hk' => ?_) fun k _ => .inr rfl
  · refine (entry_mapFd hi hk).imp_right ?_
    rintro rfl
    exact .inl hi
  rcases (hasFd_mapFd hi (c,i) _).mp hk' with hk' | hk'
  · obtain ⟨_,rfl⟩ := mk.inj hk'
    exact h.has hx (by rw [hpc]; rfl) hi
  exact hk k hk'

lemma EofInv.copyFdDone (hpc : m.pc x = .copyFd c [] sp) :
    EofInv (m.setPc x (.copyPage c (m.openPages x) sp)) := by
  have hk := h.knows x
  rw [hpc] at hk
  refine h.touch hx (.inl rfl) (h.run hx) (setPc_touches x) h.disj (fun i hi => h.bound (x,i) hi)
    (fun i hi => .inl hi) (by simp [hpc,LibPc.child]) (by simp [LibPc.makes]) (fun i hi => ?_)
    fun y i hy hi => ?_
  · exact of_decide_eq_true (mem_filter.mp hi).2
  have hyc : y = x ∨ y = c := by
    rw [hpc] at hy
    rcases hy with hy | hy | hy
    · exact .inl hy
    · exact .inl hy
    exact .inr hy.symm
  rcases hyc with rfl | rfl
  · exact .inl (h.has hx (by rw [hpc]; rfl) hi)
  have hp := hk i hi
  refine .inr (.inl ⟨rfl,mem_filter.mpr ⟨?_,by simpa using hp⟩⟩)
  exact mem_range.mpr (h.bound (x,i) (.inr hp))

lemma EofInv.copyPage (hpc : m.pc x = .copyPage c (i :: l) sp) (hi : (x,i) ∈ m.page)
    (hc : c ∈ m.alive) : EofInv ((m.mapPage (c,i)).setPc x (.copyPage c l sp)) := by
  have hk := h.knows x
  rw [hpc] at hk
  refine h.childStep hx (by rw [hpc]; rfl) (by rw [hpc]; rfl) hc (mapPage_touches i) h.disj
    (fun k hk => ?_) rfl rfl (fun k hk' => ?_) fun k hk' => ?_
  · refine (entry_mapPage hk).imp_right ?_
    rintro rfl
    exact .inr hi
  · exact mem_insert_of_mem (hk k (mem_cons_of_mem _ hk'))
  rcases h.whole c k hk' with hp | ⟨y,hy⟩ | hmk
  · exact .inl (mem_insert_of_mem hp)
  · obtain rfl := h.only y x c hy.child (by rw [hpc]; rfl)
    rw [hpc] at hy
    rcases mem_cons.mp hy.2 with rfl | hl
    · exact .inl (mem_insert_self _ _)
    exact .inr ⟨rfl,hl⟩
  have hrun := h.busy c fun hc => by simp [hc,makes] at hmk
  exact absurd hrun (h.child x c (by rw [hpc]; rfl)).2

lemma EofInv.copyDone (hold : (m.pc x).child = some c)
    (hmk : (m.pc x).makes = false) (hdone : ∀ i, m.HasFd (c,i) → (c,i) ∈ m.page)
    (hpc : pc = .status c ∨ pc = .idle) : EofInv (m.setPc x pc) := by
  refine h.touch hx (.inl rfl) (h.run hx) (setPc_touches x) h.disj (fun i hi => h.bound (x,i) hi)
    (fun i hi => .inl hi) ?_ ?_ ?_ fun y i hy hi => .inl ?_
  · rcases hpc with rfl | rfl
    · exact fun _ hc => hold.trans hc
    exact fun _ hc => by simp [LibPc.child] at hc
  · rcases hpc with rfl | rfl <;> simp [LibPc.makes]
  · rcases hpc with rfl | rfl <;> trivial
  have hyc : y = x ∨ y = c := by
    rcases hy with hy | hy | hy
    · exact .inl hy
    · exact .inl hy
    exact .inr (Option.mem_unique hy.child hold)
  rcases hyc with rfl | rfl
  · exact h.has hx hmk hi
  exact hdone i hi

lemma EofInv.pipeStep (hold : (m.pc x).makes) (hto : Touches m m' x x pc)
    (hdisj : ∀ p, p ∈ m'.rfd → p ∉ m'.wfd) (hbound : ∀ i, m'.Entry (x,i) →
    m.Entry (x,i) ∨ i < MAXFD) (hchild : pc.child = none) (hknows : pc.Knows m' x)
    (hwhole : pc.makes ∨ ∀ i, m'.HasFd (x,i) → (x,i) ∈ m'.page) : EofInv m' := by
  refine h.touch hx (.inl rfl) (h.run hx) hto hdisj (fun i hi => (hbound i hi).elim (h.bound (x,i)) id)
    (fun _ _ => .inr (.inr hold)) (by simp [hchild]) (fun _ => hold) hknows fun y i hy hi => ?_
  have hyx : y = x := by
    rcases hy with hy | hy | hy
    · exact hy
    · exact hy
    have := hy.child
    simp [child_of_makes hold] at this
  subst hyx
  exact hwhole.elim (fun hm => .inr (.inr ⟨rfl,hm⟩)) fun hw => .inl (hw i hi)

lemma EofInv.pipeFd (hold : (m.pc x).makes) (hpc : m'.pc = update m.pc x pc)
    (henvs : SameProcs m m') (hk : k < MAXFD) (hfd : ∀ p, m'.HasFd p ↔ p = (x,k) ∨ m.HasFd p)
    (hpage : m'.page = m.page) (hdisj : ∀ p, p ∈ m'.rfd → p ∉ m'.wfd)
    (hmakes : pc.makes) (hknows : pc.Knows m' x) : EofInv m' := by
  refine h.pipeStep hx hold ⟨hpc,henvs,fun y i hy => ⟨?_,by rw [hpage]⟩⟩ hdisj (fun i hi => ?_)
    (child_of_makes hmakes) hknows (.inl hmakes)
  · exact (hfd (y,i)).trans (or_iff_right fun hc => hy (mk.inj hc).1)
  rcases hi with hi | hi
  · rcases (hfd _).mp hi with hi | hi
    · exact .inr ((mk.inj hi).2 ▸ hk)
    exact .inl (.inl hi)
  exact .inl (.inr (hpage ▸ hi))

lemma EofInv.pipePage (hold : (m.pc x).makes) (hk : k < MAXFD)
    (hchild : pc.child = none) (hknows : pc.Knows (m.mapPage (x,k)) x) (hwhole : pc.makes ∨
    ∀ i, m.HasFd (x,i) → i = k ∨ (x,i) ∈ m.page) : EofInv ((m.mapPage (x,k)).setPc x pc) := by
  refine h.pipeStep hx hold (mapPage_touches k) h.disj (fun i hi => ?_) hchild hknows
    (hwhole.imp_right fun hw i hi => ?_)
  · exact (entry_mapPage hi).imp_right fun he : i = k => he ▸ hk
  rcases hw i hi with rfl | hp
  · exact mem_insert_self _ _
  exact mem_insert_of_mem hp

lemma EofInv.pipeUndo (hold : (m.pc x).makes) (hto : Touches m m' x x pc)
    (hr : m'.rfd ⊆ m.rfd) (hw : m'.wfd ⊆ m.wfd) (hp : m'.page ⊆ m.page) (hchild : pc.child = none)
    (hknows : pc.Knows m' x) (hnone : pc.makes ∨ ∀ i, ¬m'.HasFd (x,i)) : EofInv m' :=
  h.pipeStep hx hold hto (fun p h1 h2 => h.disj p (hr h1) (hw h2))
    (fun _ hi => .inl (.imp (.imp (@hr _) (@hw _)) (@hp _) hi)) hchild hknows
    (hnone.imp_right fun hn i hi => absurd hi (hn i))

lemma EofInv.pipeCall {st : PipeStage}
    (hpc : m.pc x = .pipe i j st) (hs : m.call x ok = some m') : EofInv m' := by
  have hmk : (m.pc x).makes := by rw [hpc]; rfl
  have hk := h.knows x
  rw [hpc] at hk
  obtain ⟨hij,hfd,hmap⟩ := hk
  have stop : ∀ {pc : LibPc}, pc.child = none → pc.Knows m x →
      (pc.makes ∨ ∀ i, ¬m.HasFd (x,i)) → EofInv (m.setPc x pc) :=
    h.pipeUndo hx hmk (setPc_touches x) (fun _ => id) (fun _ => id) fun _ => id
  have drop : ∀ {pc : LibPc} (k : Nat), pc.child = none → pc.Knows (m.unmapFd (x,k)) x →
      (pc.makes ∨ ∀ i, ¬(m.unmapFd (x,k)).HasFd (x,i)) →
      EofInv ((m.unmapFd (x,k)).setPc x pc) := fun k =>
    h.pipeUndo hx hmk (unmapFd_touches k) (Finset.erase_subset _ _) (Finset.erase_subset _ _)
      fun _ => id
  unfold call at hs
  rw [hpc] at hs
  cases st with
  | rfd =>
    have hno : ∀ k, ¬m.HasFd (x,k) := fun k hk => by simpa [PipeStage.Has] using hfd k hk
    cases ok with
    | false =>
      cases hs
      exact stop rfl trivial (.inr hno)
    | true =>
      cases hs
      have hfd' : ∀ p : Nat × Nat, ({m with rfd := insert (x,i) m.rfd} : Pipes).HasFd p ↔
          p = (x,i) ∨ m.HasFd p := fun p => by simp [HasFd,or_assoc]
      refine h.pipeFd hx hmk rfl ⟨rfl,rfl,rfl,rfl⟩ hij.1 hfd' rfl (fun p hp => ?_) rfl
        ⟨hij,fun k hk => ?_,by simp⟩
      · rcases mem_insert.mp hp with rfl | hp
        · exact fun hw => hno i (.inr hw)
        exact h.disj p hp
      rcases (hfd' _).mp hk with hk | hk
      · exact .inl ⟨(mk.inj hk).2,by simp⟩
      exact absurd hk (hno k)
  | wfd =>
    have hone : ∀ k, m.HasFd (x,k) → k = i := fun k hk => by simpa [PipeStage.Has] using hfd k hk
    cases ok with
    | false =>
      cases hs
      exact stop rfl ⟨hij,fun k hk => .inl ⟨hone k hk,by simp⟩,by simp⟩ (.inl rfl)
    | true =>
      cases hs
      have hfd' : ∀ p : Nat × Nat, ({m with wfd := insert (x,j) m.wfd} : Pipes).HasFd p ↔
          p = (x,j) ∨ m.HasFd p := fun p => by simp [HasFd,or_left_comm]
      refine h.pipeFd hx hmk rfl ⟨rfl,rfl,rfl,rfl⟩ hij.2.1 hfd' rfl (fun p hp hw => ?_) rfl
        ⟨hij,fun k hk => ?_,by simp⟩
      · rcases mem_insert.mp hw with rfl | hw
        · exact hij.2.2 (hone j (.inl hp)).symm
        exact h.disj p hp hw
      rcases (hfd' _).mp hk with hk | hk
      · exact .inr ⟨(mk.inj hk).2,by simp⟩
      exact .inl ⟨hone k hk,by simp⟩
  | page =>
    cases ok with
    | false =>
      cases hs
      exact stop rfl ⟨hij,fun k hk => by simpa [PipeStage.Has] using hfd k hk,by simp⟩ (.inl rfl)
    | true =>
      cases hs
      exact h.pipePage hx hmk hij.1 rfl
        ⟨hij,fun k hk => by simpa [PipeStage.Has] using hfd k hk,fun _ => mem_insert_self _ _⟩
        (.inl rfl)
  | map =>
    cases ok with
    | false =>
      cases hs
      exact stop rfl ⟨hij,fun k hk => by simpa [PipeStage.Has] using hfd k hk,by simp⟩ (.inl rfl)
    | true =>
      cases hs
      refine h.pipePage hx hmk hij.2.1 rfl trivial (.inr fun k hk => ?_)
      rcases hfd k hk with hk | hk
      · exact .inr (hk.1 ▸ hmap rfl)
      exact .inl hk.1
  | err3 =>
    cases hs
    exact h.pipeUndo hx hmk (unmapPage_touches i) (fun _ => id) (fun _ => id)
      (Finset.erase_subset _ _) rfl
      ⟨hij,fun k hk => by simpa [PipeStage.Has] using hfd k hk,by simp⟩ (.inl rfl)
  | err2 =>
    cases hs
    refine drop j rfl ⟨hij,fun k hk => ?_,by simp⟩ (.inl rfl)
    obtain ⟨hkj,hk⟩ := (hasFd_unmapFd _ _).mp hk
    rcases hfd k hk with hk | hk
    · exact .inl ⟨hk.1,by simp⟩
    exact absurd (by rw [hk.1]) hkj
  | err1 =>
    cases hs
    refine drop i rfl trivial (.inr fun k hk => ?_)
    obtain ⟨hki,hk⟩ := (hasFd_unmapFd _ _).mp hk
    rcases hfd k hk with hk | hk
    · exact absurd (by rw [hk.1]) hki
    exact hk.2.2.2 rfl

end

lemma EofInv.enter (h : EofInv m) (hx : m.Ready x) (hchild : ∀ c, pc.child = some c →
    (c ∈ m.used ∧ c ∉ m.run) ∧ ∀ y, (m.pc y).child ≠ some c) (hmakes : pc.makes → m.made ∧ (∀ p, ¬
    m.Entry p) ∧ ∀ y, (m.pc y).makes = false) (hknows : pc.Knows m x) : EofInv (m.setPc x pc) := by
  obtain ⟨hrun,hidle⟩ := hx
  have hself : (m.setPc x pc).pc x = pc := by simp [setPc]
  have hother : ∀ y, y ≠ x → (m.setPc x pc).pc y = m.pc y := fun y hy => by simp [setPc,hy]
  refine { h with
    busy := fun y hy => ?_, child := fun y c hc => ?_, only := fun y z c hy hz => ?_
    sole := fun y z hy hz => ?_, unmade := fun hm => ⟨(h.unmade hm).1,fun y => ?_⟩
    own := fun y hy => ?_, knows := fun y => ?_, whole := fun y i hi => ?_ }
  · by_cases hyx : y = x
    · exact hyx ▸ hrun
    exact h.busy y (hother y hyx ▸ hy)
  · by_cases hyx : y = x
    · subst hyx
      exact (hchild c (hself ▸ hc)).1
    exact h.child y c (hother y hyx ▸ hc)
  · by_cases hyx : y = x
    · subst hyx
      by_contra hne
      rw [hself] at hy
      rw [hother z (Ne.symm hne)] at hz
      exact (hchild c hy).2 z hz
    by_cases hzx : z = x
    · subst hzx
      rw [hother y hyx] at hy
      rw [hself] at hz
      exact absurd hy ((hchild c hz).2 y)
    exact h.only y z c (hother y hyx ▸ hy) (hother z hzx ▸ hz)
  · by_cases hyx : y = x
    · subst hyx
      by_contra hne
      rw [hself] at hy
      rw [hother z (Ne.symm hne)] at hz
      simp [(hmakes hy).2.2 z] at hz
    by_cases hzx : z = x
    · subst hzx
      rw [hother y hyx] at hy
      rw [hself] at hz
      simp [(hmakes hz).2.2 y] at hy
    exact h.sole y z (hother y hyx ▸ hy) (hother z hzx ▸ hz)
  · by_cases hyx : y = x
    · subst hyx
      rw [hself]
      refine Bool.eq_false_iff.mpr fun hc => ?_
      have hmade : m.made = false := hm
      simp [(hmakes hc).1] at hmade
    rw [hother y hyx]
    exact (h.unmade hm).2 y
  · by_cases hyx : y = x
    · subst hyx
      rw [hself] at hy
      exact fun p hp => absurd hp ((hmakes hy).2.1 p)
    exact h.own y (hother y hyx ▸ hy)
  · by_cases hyx : y = x
    · subst hyx
      rw [hself]
      exact hknows
    rw [hother y hyx]
    exact (h.knows y)
  rcases h.whole y i hi with hp | ⟨z,hz⟩ | hm
  · exact .inl hp
  · refine .inr (.inl ⟨z,?_⟩)
    rw [hother z fun hc => by rw [hc,hidle] at hz; exact hz]
    exact hz
  refine .inr (.inr ?_)
  rw [hother y fun hc => by rw [hc,hidle] at hm; contradiction]
  exact hm

lemma EofInv.addRun (h : EofInv m) (hc : c ∈ m.alive) (hno : ∀ y, (m.pc y).child ≠ some c) :
    EofInv {m with run := insert c m.run} :=
  { h with
    run := fun _ hy => (mem_insert.mp hy).elim (fun hyc => hyc ▸ hc) fun hy => h.run hy
    busy := fun y hy => mem_insert_of_mem (h.busy y hy)
    child := fun y d hd => ⟨(h.child y d hd).1,fun hmem =>
      (mem_insert.mp hmem).elim (fun hdc => hno y (hdc ▸ hd)) (h.child y d hd).2⟩ }

lemma EofInv.addEnv (h : EofInv m) (c : Nat) :
    EofInv {m with used := insert c m.used, alive := insert c m.alive} :=
  { h with
    live := fun p hp => mem_insert_of_mem (h.live p hp)
    used := Finset.insert_subset_insert c h.used
    run := fun _ hy => mem_insert_of_mem (h.run hy)
    child := fun y d hd => ⟨mem_insert_of_mem (h.child y d hd).1,(h.child y d hd).2⟩ }

lemma EofInv.copyTo (h : EofInv m) (hx : m.Ready x) (hc : c ∉ m.used) (sp : Bool) :
    EofInv (m.copyTo x c sp) := by
  have hrun : c ∉ m.run := fun hr => hc (h.used (h.run hr))
  refine (h.addEnv c).enter hx (fun d hd => ?_) (by simp [makes]) fun i hi => ?_
  · cases hd
    exact ⟨⟨mem_insert_self _ _,hrun⟩,fun y hy => hc (h.child y c hy).1⟩
  exact absurd (h.used (h.live (c,i) (.inl hi))) hc

lemma EofInv.pipeStart (h : EofInv m) (hx : m.Ready x) (hmade : m.made = false) (hij : i < MAXFD ∧
    j < MAXFD ∧ i ≠ j) : EofInv ({m with made := true}.setPc x (.pipe i j .rfd)) := by
  obtain ⟨hno,hmk⟩ := h.unmade hmade
  have h1 : EofInv {m with made := true} :=
    {h with unmade := fun hc => by simp at hc}
  exact h1.enter hx (by simp [LibPc.child]) (fun _ => ⟨rfl,hno,hmk⟩)
    ⟨hij,fun k hk => absurd (.inl hk) (hno (x,k)),by simp⟩

lemma EofInv.destroy (h : EofInv m) (hcut : ∀ c ∈ m.alive, (m.pc x).copies ≠ some c) :
    EofInv (m.destroy x) := by
  have hfd : ∀ p, (m.destroy x).HasFd p ↔ p.1 ≠ x ∧ m.HasFd p := fun p => by
    simp [Pipes.HasFd,Pipes.destroy,and_comm,and_or_left]
  have hpage : ∀ p, p ∈ (m.destroy x).page ↔ p.1 ≠ x ∧ p ∈ m.page := fun p => by
    simp [Pipes.destroy,and_comm]
  have hentry : ∀ p, (m.destroy x).Entry p → p.1 ≠ x ∧ m.Entry p := fun p hp =>
    hp.elim (fun hp => ⟨((hfd p).mp hp).1,.inl ((hfd p).mp hp).2⟩)
      fun hp => ⟨((hpage p).mp hp).1,.inr ((hpage p).mp hp).2⟩
  have hself : (m.destroy x).pc x = .idle := by simp [Pipes.destroy]
  have hother : ∀ y, y ≠ x → (m.destroy x).pc y = m.pc y := fun y hy => by simp [Pipes.destroy,hy]
  have hne : ∀ y, (m.destroy x).pc y ≠ .idle → y ≠ x ∧ (m.destroy x).pc y = m.pc y := fun y hy => by
    have hyx : y ≠ x := fun hc => hy (hc ▸ hself)
    exact ⟨hyx,hother y hyx⟩
  have hchild : ∀ y c, ((m.destroy x).pc y).child = some c → (m.pc y).child = some c := fun y c hc => by
    rw [← (hne y fun hi => by simp [hi,LibPc.child] at hc).2]
    exact hc
  have hmakes : ∀ y, ((m.destroy x).pc y).makes → (m.pc y).makes := fun y hm => by
    rw [← (hne y fun hi => by simp [hi,LibPc.makes] at hm).2]
    exact hm
  refine {
    disj := fun p h1 h2 => h.disj p (Finset.mem_filter.mp h1).1 (Finset.mem_filter.mp h2).1
    bound := fun p hp => h.bound p (hentry p hp).2
    live := fun p hp => mem_erase.mpr ⟨(hentry p hp).1,h.live p (hentry p hp).2⟩
    used := fun y hy => h.used (mem_of_mem_erase hy)
    run := Finset.erase_subset_erase x h.run
    busy := fun y hy => ?_
    child := fun y c hc => ⟨(h.child y c (hchild y c hc)).1,fun hr =>
      (h.child y c (hchild y c hc)).2 (mem_of_mem_erase hr)⟩
    only := fun y z c hy hz => h.only y z c (hchild y c hy) (hchild z c hz)
    sole := fun y z hy hz => h.sole y z (hmakes y hy) (hmakes z hz)
    unmade := fun hm => ⟨fun p hp => (h.unmade hm).1 p (hentry p hp).2,fun y =>
      Bool.eq_false_iff.mpr fun hc => Bool.eq_false_iff.mp ((h.unmade hm).2 y) (hmakes y hc)⟩
    own := fun y hy p hp => h.own y (hmakes y hy) p (hentry p hp).2
    knows := fun y => ?_
    whole := fun y i hi => ?_ }
  · obtain ⟨hyx,hpc⟩ := hne y hy
    exact mem_erase.mpr ⟨hyx,h.busy y (hpc ▸ hy)⟩
  · by_cases hyx : y = x
    · rw [hyx,hself]
      trivial
    rw [hother y hyx]
    refine (h.knows y).frame (fun i => ⟨?_,?_⟩) fun c _ i hi => ((hfd _).mp hi).2
    · exact (hfd _).trans (and_iff_right hyx)
    exact (hpage _).trans (and_iff_right hyx)
  obtain ⟨hyx,hfdm⟩ := (hfd _).mp hi
  rcases h.whole y i hfdm with hp | ⟨z,hz⟩ | hm
  · exact .inl ((hpage _).mpr ⟨hyx,hp⟩)
  · have hzx : z ≠ x := by
      rintro rfl
      exact hcut y (h.live (y,i) (.inl hfdm)) hz.copies
    exact .inr (.inl ⟨z,by rw [hother z hzx]; exact hz⟩)
  exact .inr (.inr (by rw [hother y hyx]; exact hm))

lemma afterClose_plain : (afterClose rest next).Plain := by
  cases rest <;> cases next <;> exact ⟨rfl,rfl⟩

lemma afterClose_knows (h : ∀ a b, next = .dup a b → b < MAXFD) :
    (afterClose rest next).Knows m x := by
  cases rest with
  | cons fd rest => exact ⟨fun hc => absurd rfl hc,h⟩
  | nil =>
    cases next with
    | dup a b => exact h a b rfl
    | _ => trivial

section

variable (h : EofInv m) (hx : x ∈ m.run)
include h hx

lemma EofInv.closeCall {st : CloseStage}
    (hpc : m.pc x = .close i st rest next) (hs : m.call x ok = some m') : EofInv m' := by
  have hold : (m.pc x).Plain := by rw [hpc]; exact ⟨rfl,rfl⟩
  have hk := h.knows x
  rw [hpc] at hk
  unfold call at hs
  rw [hpc] at hs
  cases st with
  | fd =>
    cases hs
    exact h.unmapFd hx hold ⟨rfl,rfl⟩ ⟨fun _ => by simp,hk.2⟩
  | page =>
    cases hs
    exact h.unmapPage hx hold ⟨rfl,rfl⟩ (hk.1 (by simp)) ⟨fun _ => hk.1 (by simp),hk.2⟩
  | again =>
    cases hs
    exact h.unmapFd hx hold afterClose_plain (afterClose_knows hk.2)

lemma EofInv.dupCall (hpc : (∃ i j, m.pc x = .dupPage i j ∨ m.pc x = .dupFd i j) ∨
    ∃ j, m.pc x = .undoFd j ∨ m.pc x = .undoPage j) (hs : m.call x ok = some m') : EofInv m' := by
  have hold : (m.pc x).Plain := by
    rcases hpc with ⟨i,j,hpc | hpc⟩ | ⟨j,hpc | hpc⟩ <;> rw [hpc] <;> exact ⟨rfl,rfl⟩
  have hk := h.knows x
  unfold call at hs
  rcases hpc with ⟨i,j,hpc | hpc⟩ | ⟨j,hpc | hpc⟩ <;> rw [hpc] at hs hk
  · simp only at hs
    split at hs
    · rename_i hp
      split at hs
      · cases hs
        exact h.mapPage hx hold ⟨rfl,rfl⟩ hp hk ⟨hk,fun _ => mem_insert_self _ _⟩
      cases hs
      exact h.move hx hold ⟨rfl,rfl⟩ trivial
    rename_i hp
    cases hs
    exact h.move hx hold ⟨rfl,rfl⟩ ⟨hk,fun hi => absurd (h.has hx hold.2 hi) hp⟩
  · simp only at hs
    split at hs
    · split at hs
      · rename_i hi
        cases hs
        exact h.mapFd hx hold ⟨rfl,rfl⟩ hi hk.1 (hk.2 hi) trivial
      cases hs
    cases hs
    exact h.move hx hold ⟨rfl,rfl⟩ trivial
  · cases hs
    exact h.unmapFd hx hold ⟨rfl,rfl⟩ fun hc => ((hasFd_unmapFd _ _).mp hc).1 rfl
  cases hs
  exact h.unmapPage hx hold ⟨rfl,rfl⟩ hk trivial

lemma EofInv.copyCall (hpc : (m.pc x).copies = some c)
    (hcut : ok = false → c ∉ m.alive) (hs : m.call x ok = some m') : EofInv m' := by
  have hmk : (m.pc x).makes = false := by
    cases hp : m.pc x <;> simp_all [copies,makes]
  have hfail : ok = false → ∀ sp : Bool, EofInv (m.setPc x (if sp then .status c else .idle)) := by
    intro hok sp
    refine h.copyDone hx (child_of_copies hpc) hmk (fun i hi => ?_) ?_
    · exact absurd (h.live (c,i) (.inl hi)) (hcut hok)
    cases sp
    · exact .inr rfl
    exact .inl rfl
  unfold call at hs
  cases hp : m.pc x with
  | copyFd c' l sp =>
    obtain rfl : c' = c := by simpa [hp,copies] using hpc
    rw [hp] at hs
    cases l with
    | nil =>
      cases hs
      exact h.copyFdDone hx hp
    | cons i l =>
      cases ok with
      | false =>
        cases hs
        exact hfail rfl sp
      | true =>
        simp only [if_true] at hs
        split at hs
        · rename_i hi
          cases hs
          exact h.copyFd hx hp hi.1 hi.2
        cases hs
  | copyPage c' l sp =>
    obtain rfl : c' = c := by simpa [hp,copies] using hpc
    rw [hp] at hs
    cases l with
    | nil =>
      cases hs
      refine h.copyDone hx (child_of_copies hpc) hmk (fun i hi => ?_) (.inl rfl)
      rcases h.whole c' i hi with hpage | ⟨y,hy⟩ | hm
      · exact hpage
      · obtain rfl := h.only y x c' hy.child (child_of_copies hpc)
        rw [hp] at hy
        exact absurd hy.2 (by simp)
      exact absurd (h.busy c' fun hc => by simp [hc,makes] at hm)
        (h.child x c' (child_of_copies hpc)).2
    | cons i l =>
      cases ok with
      | false =>
        cases hs
        exact hfail rfl sp
      | true =>
        simp only [if_true] at hs
        split at hs
        · rename_i hi
          cases hs
          exact h.copyPage hx hp hi.1 hi.2
        cases hs
  | _ => simp [hp,copies] at hpc

lemma EofInv.statusCall (hpc : m.pc x = .status c) (hs : m.call x ok = some m') : EofInv m' := by
  have hcx : (m.pc x).child = some c := by rw [hpc]; rfl
  have hidle : EofInv (m.setPc x .idle) := by
    refine h.copyDone hx hcx (by rw [hpc]; rfl) (fun i hi => ?_) (.inr rfl)
    rcases h.whole c i hi with hpage | ⟨y,hy⟩ | hm
    · exact hpage
    · obtain rfl := h.only y x c hy.child hcx
      rw [hpc] at hy
      exact hy.elim
    exact absurd (h.busy c fun hc => by simp [hc,LibPc.makes] at hm) (h.child x c hcx).2
  unfold Pipes.call at hs
  rw [hpc] at hs
  cases hs
  by_cases hc : c ∈ m.alive
  · simp only [if_pos hc]
    refine hidle.addRun (c := c) hc fun y hy => ?_
    by_cases hyx : y = x
    · subst hyx
      simp [Pipes.setPc,LibPc.child] at hy
    simp only [Pipes.setPc,update_of_ne hyx] at hy
    exact hyx (h.only y x c hy hcx)
  simpa only [if_neg hc] using hidle

end

lemma EofInv.call (h : EofInv m) (hcut : ok = false → ∀ c ∈ m.alive, (m.pc x).copies ≠ some c)
    (hs : m.call x ok = some m') : EofInv m' := by
  have hidle : m.pc x ≠ .idle := by
    intro hc
    simp [Pipes.call,hc] at hs
  have hx := h.busy x hidle
  cases hpc : m.pc x with
  | idle => exact absurd hpc hidle
  | pipe i j st => exact h.pipeCall hx hpc hs
  | close i st rest next => exact h.closeCall hx hpc hs
  | dupPage i j => exact h.dupCall hx (.inl ⟨i,j,.inl hpc⟩) hs
  | dupFd i j => exact h.dupCall hx (.inl ⟨i,j,.inr hpc⟩) hs
  | undoFd j => exact h.dupCall hx (.inr ⟨j,.inl hpc⟩) hs
  | undoPage j => exact h.dupCall hx (.inr ⟨j,.inr hpc⟩) hs
  | copyFd c l sp =>
    have hco : (m.pc x).copies = some c := by rw [hpc]; rfl
    exact h.copyCall hx hco (fun hok hc => hcut hok c hc hco) hs
  | copyPage c l sp =>
    have hco : (m.pc x).copies = some c := by rw [hpc]; rfl
    exact h.copyCall hx hco (fun hok hc => hcut hok c hc hco) hs
  | status c => exact h.statusCall hx hpc hs
  | destroy =>
    simp only [Pipes.call,hpc] at hs
    cases hs
    exact h.destroy fun c _ => by simp [hpc,LibPc.copies]

lemma EofInv.step (h : EofInv m) {a : PipesAct} (hs : m.step a = some m') (hcut : Uncut m a) :
    EofInv m' := by
  unfold Pipes.step at hs
  cases a with
  | call e ok => exact h.call hcut hs
  | pipe e i j =>
    simp only at hs
    split at hs
    · rename_i hc
      cases hs
      exact h.pipeStart hc.1 hc.2.1 hc.2.2
    cases hs
  | close e i =>
    simp only at hs
    split at hs
    · rename_i hc
      cases hs
      exact h.enter hc.1 (by simp [LibPc.child]) (by simp [LibPc.makes])
        ⟨fun hc => absurd rfl hc,by simp⟩
    cases hs
  | dup e i j =>
    simp only at hs
    split at hs
    · rename_i hc
      cases hs
      split
      · exact h.enter hc.1 (by simp [LibPc.child]) (by simp [LibPc.makes])
          ⟨fun hc => absurd rfl hc,fun a b hab => (AfterClose.dup.inj hab).2 ▸ hc.2.2⟩
      exact h.enter hc.1 (by simp [LibPc.child]) (by simp [LibPc.makes]) hc.2.2
    cases hs
  | fork e c =>
    simp only at hs
    split at hs
    · rename_i hc
      cases hs
      exact h.copyTo hc.1 hc.2 false
    cases hs
  | spawn e c =>
    simp only at hs
    split at hs
    · rename_i hc
      cases hs
      exact h.copyTo hc.1 hc.2 true
    cases hs
  | exit e =>
    simp only at hs
    split at hs
    · rename_i hc
      cases hs
      exact h.enter hc (by simp [afterClose_plain.1]) (by simp [afterClose_plain.2])
        (afterClose_knows (by simp))
    cases hs
  | destroy e =>
    simp only at hs
    split at hs
    · cases hs
      exact h.destroy hcut
    cases hs

lemma PipesRun.inv (h : PipesRun Uncut m) : EofInv m := by
  induction h with
  | start envs =>
    have hno : ∀ p, ¬({used := envs, alive := envs, run := envs} : Pipes).Entry p := fun p hp => by
      simp [Entry,HasFd] at hp
    exact {
      disj := fun p hp => by simp at hp
      bound := fun p hp => absurd hp (hno p)
      live := fun p hp => absurd hp (hno p)
      used := fun _ => id
      run := fun _ => id
      busy := fun e he => absurd rfl he
      child := fun e c hc => by simp [child] at hc
      only := fun x y c hc => by simp [child] at hc
      sole := fun x y hc => by simp [makes] at hc
      unmade := fun _ => ⟨hno,fun _ => rfl⟩
      own := fun e hc => by simp [makes] at hc
      knows := fun _ => trivial
      whole := fun e i hi => absurd (.inl hi) (hno (e,i)) }
  | step _ hs hcut ih => exact ih.step hs hcut

/-- While nobody copies pages to a live child, `_pipeisclosed` finds an end closed only if nobody has
the other end open. -/
theorem pipe_eof (h : PipesRun Uncut m) (hstill : ∀ y, ∀ c ∈ m.alive, (m.pc y).copies ≠ some c)
    {i : Nat} (he : m.Ready e) (hi : m.HasFd (e,i)) (hclosed : m.pipeisclosed e i) :
    ((e,i) ∈ m.rfd → m.wfd = ∅) ∧ ((e,i) ∈ m.wfd → m.rfd = ∅) := by
  have hinv := h.inv
  have hall : ∀ p, m.HasFd p → p ∈ m.page := by
    rintro ⟨y,k⟩ hk
    rcases hinv.whole y k hk with hp | ⟨z,hz⟩ | hm
    · exact hp
    · exact absurd hz.copies (hstill z y (hinv.live (y,k) (.inl hk)))
    obtain rfl : e = y := hinv.own y hm (e,i) (.inl hi)
    rw [he.2] at hm
    cases hm
  have hcard := hclosed
  simp only [pipeisclosed,if_pos (hall _ hi),beq_iff_eq] at hcard
  -- an end that is mapped as often as the page is mapped wherever the page is
  have hfull : ∀ s : Finset (Nat × Nat), (∀ p ∈ s, m.HasFd p) → s.card = m.page.card → s = m.page :=
    fun s hs hc => Finset.eq_of_subset_of_card_le (fun p hp => hall p (hs p hp)) hc.ge
  refine ⟨fun hr => ?_,fun hw => ?_⟩
  · rw [if_pos hr] at hcard
    have heq := hfull m.rfd (fun _ => .inl) hcard
    refine Finset.eq_empty_of_forall_notMem fun p hp => ?_
    exact hinv.disj p (heq ▸ hall p (.inr hp)) hp
  rw [if_neg fun hr => hinv.disj _ hr hw] at hcard
  have heq := hfull m.wfd (fun _ => .inr) hcard
  refine Finset.eq_empty_of_forall_notMem fun p hp => ?_
  exact hinv.disj p hp (heq ▸ hall p (.inl hp))

def pipeForked : List PipesAct :=
  [.pipe 0 0 1,.call 0 true,.call 0 true,.call 0 true,.call 0 true,.fork 0 1,.call 0 true,
    .call 0 true,.call 0 true,.call 0 true,.call 0 true,.call 0 true,.call 0 true]

theorem pipe_eof_closed : ∃ m, PipesRun Uncut m ∧ m.pipeisclosed 0 0 ∧
    (0,0) ∈ m.rfd ∧ m.wfd = ∅ := by
  have hrun : ((({used := {0}, alive := {0}, run := {0}} : Pipes).steps Uncut
      (pipeForked++[.close 0 1,.call 0 true,.call 0 true,.call 0 true,
        .close 1 1,.call 1 true,.call 1 true,.call 1 true])).map fun m =>
      decide (m.pc 1 = .idle ∧ m.run = {0,1} ∧ m.Ready 0 ∧ (0,0) ∈ m.rfd ∧
        m.pipeisclosed 0 0)) = some true := by decide +kernel
  obtain ⟨m,hm,hp⟩ := Option.map_eq_some_iff.mp hrun
  obtain ⟨hpc,hrn,hready,hr,hclosed⟩ := of_decide_eq_true hp
  have h : PipesRun Uncut m := (PipesRun.start {0}).steps _ hm
  have hall : ∀ y, ∀ c ∈ m.alive, (m.pc y).copies ≠ some c := by
    intro y c hc
    by_cases hy : m.pc y = .idle
    · simp [hy,copies]
    have hmem := h.inv.busy y hy
    simp only [hrn,mem_insert,Finset.mem_singleton] at hmem
    rcases hmem with rfl | rfl
    · exact absurd hready.2 hy
    · exact absurd hpc hy
  exact ⟨m,h,hclosed,hr,(pipe_eof h hall hready (.inl hr) hclosed).1 hr⟩

/-- A forked child has the `Fd` page and not yet the pipe's page when environment 0 finds the pipe
closed. -/
theorem pipe_eof_wrong : ∃ m, PipesRun Uncut m ∧ m.Ready 0 ∧ (0,0) ∈ m.rfd ∧
    m.pipeisclosed 0 0 ∧ (0,1) ∈ m.wfd := by
  have hrun : ((({used := {0}, alive := {0}, run := {0}} : Pipes).steps Uncut
      (pipeForked++[.close 1 1,.call 1 true,.call 1 true,.call 1 true,.fork 1 2,.call 1 true])).map
      fun m => decide (m.Ready 0 ∧ (0,0) ∈ m.rfd ∧ m.pipeisclosed 0 0 = true ∧ (0,1) ∈ m.wfd)) =
      some true := by decide +kernel
  obtain ⟨m,hm,hp⟩ := Option.map_eq_some_iff.mp hrun
  exact ⟨m,(PipesRun.start {0}).steps _ hm,of_decide_eq_true hp⟩

end eof

end KludgeOS
