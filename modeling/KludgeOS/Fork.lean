import KludgeOS.CallEffects
import KludgeOS.CopyOnWrite.Views

/-!
User-level fork with copy-on-write (`lib/fork.c`, `lib/pgfault.c`). `fork` and `pgfault` are
sequences of system calls, and any other member may run between two of them.
-/

namespace KludgeOS
open CopyOnWrite (Fault Label takenOver Entry Role State)
open Function

def PTE_COW : Word := 0x800
def PTE_SHARE : Word := 0x400

def ENV_RUNNABLE : Word := 1

def pageVa (pn : Nat) : Word := BitVec.ofNat 32 (pn*PGSIZE)

/-- The page at `PFTEMP`, the page of the stack and the one of the exception stack. -/
def tempPage : Nat := PPN PFTEMP
def stackPage : Nat := PPN (USTACKTOP-0x1000)
def xstackPage : Nat := PPN (UXSTACKTOP-0x1000)

def forkLayout : CopyOnWrite.Layout where
  pages := NUPAGE
  size := 1024
  temp := tempPage
  stack := stackPage
  xstack := xstackPage
  temp_lt := by decide
  stack_lt := by decide
  xstack_lt := by decide

/-- Where `fork` is in the parent. `dupChild`, `dupSelf` and `dupKeep` are the three calls of
`duppage`. -/
inductive ForkPc where
  | vpd : (i : Nat) → ForkPc
  | vpt : (i j : Nat) → ForkPc
  | duppage : (i j : Nat) → ForkPc
  | dupChild : (i j : Nat) → ForkPc
  | dupSelf : (i j : Nat) → ForkPc
  | dupKeep : (i j : Nat) → Word → ForkPc
  | xstack | upcall | status | ret
  deriving DecidableEq

abbrev DupCow (pte : Word) : Prop := pte&&&PTE_SHARE = 0 ∧ (pte&&&PTE_W ≠ 0 ∨ pte&&&PTE_COW ≠ 0)

/-- A call whose result is tested for `< 0`. -/
def ok (r : Option (Int × Kern)) (pc : ForkPc) : Option (Kern × ForkPc) := do
  let (r,s) ← r
  if r < 0 then none else return (s,pc)

/-- The next step of `fork` in `e`, which has the child `envid`. A failed call makes `fork`
return its error, and there is no next step. -/
def Kern.forkExec (s : Kern) (e : Nat) (envid func : Word) : ForkPc → Option (Kern × ForkPc)
  | .vpd i =>
    if i < NUPDE then
      if Present (s.pde e i) then some (s,.vpt i 0) else some (s,.vpd (i+1))
    else some (s,.xstack)
  | .vpt i j =>
    if j < NPTENTRIES then
      if s.pte e (i*NPDENTRIES+j) ≠ none then
        if i*NPDENTRIES+j = xstackPage then some (s,.vpd (i+1))
        else some (s,.duppage i j)
      else some (s,.vpt i (j+1))
    else some (s,.vpd (i+1))
  | .duppage i j => do
    let vpte ← s.pte e (i*NPDENTRIES+j)
    if DupCow (vpte&&&PTE_USER) then some (s,.dupChild i j) else some (s,.dupKeep i j vpte)
  | .dupChild i j =>
    let addr := pageVa (i*NPDENTRIES+j)
    ok (s.sysPageMap e 0 addr envid addr (PTE_P|||PTE_U|||PTE_COW)) (.dupSelf i j)
  | .dupSelf i j =>
    let addr := pageVa (i*NPDENTRIES+j)
    ok (s.sysPageMap e 0 addr 0 addr (PTE_P|||PTE_U|||PTE_COW)) (.vpt i (j+1))
  | .dupKeep i j vpte =>
    let addr := pageVa (i*NPDENTRIES+j)
    ok (s.sysPageMap e 0 addr envid addr (vpte&&&PTE_USER)) (.vpt i (j+1))
  | .xstack =>
    ok (s.sysPageAlloc e envid (UXSTACKTOP-0x1000) (PTE_W|||PTE_U|||PTE_P)) .upcall
  | .upcall => ok (some (s.sysEnvSetPgfaultUpcall e envid func)) .status
  | .status => ok (some (s.sysEnvSetStatus e envid ENV_RUNNABLE)) .ret
  | .ret => none

/-- What an environment is doing: nothing of interest, being set up, running its program, or in
`fork`. -/
inductive Proc where
  | outside | setup | user | called
  | fork : (envid : Word) → ForkPc → Proc
  deriving DecidableEq

/-- A family. `view` records what a page held when it was handed to its owner, with the owner's
stores since; `fault` is where a `pgfault` is. -/
structure Family where
  kern : Kern
  proc : Nat → Proc
  fault : Nat → Option Fault
  view : Nat → Nat → Option (Nat → Word)

def entryOf (w : Word) : Entry :=
  ⟨PPN w,decide (w&&&PTE_W ≠ 0),decide (w&&&PTE_COW ≠ 0),decide (w&&&PTE_SHARE ≠ 0)⟩

def ForkPc.role (child : Nat) : ForkPc → Role
  | .vpd i => .fork child (i*NPDENTRIES) .scan
  | .vpt i j | .duppage i j => .fork child (i*NPDENTRIES+j) .scan
  | .dupChild i j => .fork child (i*NPDENTRIES+j) .cow
  | .dupSelf i j => .fork child (i*NPDENTRIES+j) .mid
  | .dupKeep i j vpte => .fork child (i*NPDENTRIES+j) (.keep (entryOf vpte))
  | .xstack | .upcall | .status => .fork child NUPAGE .scan
  | .ret => .leave

def Proc.role : Proc → Role
  | .outside => .outside
  | .setup => .setup
  | .user => .run
  | .called => .enter
  | .fork envid pc => pc.role (ENVX envid)

namespace Family

def abs (f : Family) : State Word where
  space y n := if f.proc y = .outside ∨ NUPAGE ≤ n then none else (f.kern.pte y n).map entryOf
  data := f.kern.mem
  role y := (f.proc y).role
  fault := f.fault
  view := f.view

/-- The pages `e` may write to: any in its program, the stack in `fork`, the exception stack in
`pgfault`. -/
def MayStore (f : Family) (e n : Nat) : Prop :=
  match f.fault e,f.proc e with
  | some _,_ => n = xstackPage
  | none,.user => True
  | none,.outside | none,.setup => False
  | none,_ => n = stackPage ∨ n = xstackPage

/-- `duppage` is done with page `pn`: the child is handed what the parent's page holds. -/
def handOver (f : Family) (e child pn : Nat) (share : Bool) : Nat → Nat → Option (Nat → Word) :=
  match f.kern.pte e pn with
  | some w => (f.abs.setView child pn (takenOver forkLayout pn share (f.kern.mem (PPN w)))).view
  | none => f.view

def setProc (f : Family) (e : Nat) (p : Proc) : Family := {f with proc := update f.proc e p}

def setFault (f : Family) (e : Nat) (q : Option Fault) : Family :=
  {f with fault := update f.fault e q}

def advance (f : Family) (e : Nat) (envid : Word) (pc pc' : ForkPc) (s : Kern) : Family where
  kern := s
  proc := update
    (if pc = .status then update f.proc (ENVX envid) .user else f.proc) e (.fork envid pc')
  fault := f.fault
  view := match pc with
    | .dupSelf i j => f.handOver e (ENVX envid) (i*NPDENTRIES+j) false
    | .dupKeep i j vpte =>
      f.handOver e (ENVX envid) (i*NPDENTRIES+j) (decide (vpte&&&PTE_SHARE ≠ 0))
    | _ => f.view

end Family

/-- The steps of a family. A write to a page without `PTE_W` starts a `pgfault` if the page has
`PTE_COW`. `set_pgfault_handler` counts as part of the program. -/
inductive ForkStep : Family → Label → Family → Prop where
  | store {f : Family} {e : Nat} {va v w : Word} {s : Kern} :
      f.MayStore e (PPN va) → va.toNat%4 = 0 → f.kern.pte e (PPN va) = some w →
      f.kern.userStore (f.kern.pgdir e) va v = some s →
      ForkStep f (.write e (PPN va))
        {f with kern := s, view := (f.abs.noteStore e (PPN w) (va.toNat%PGSIZE/4) v).view}
  | pgfault {f : Family} {e n : Nat} {w x : Word} :
      f.MayStore e n → f.fault e = none → n < NUPAGE → f.kern.pte e n = some w →
      w&&&PTE_U ≠ 0 → w&&&PTE_W = 0 → w&&&PTE_COW ≠ 0 →
      f.kern.pte e xstackPage = some x → UserStorable x →
      ForkStep f (.write e n) (f.setFault e (some (.alloc n)))
  | pgfaultAlloc {f : Family} {e n : Nat} {s : Kern} :
      f.fault e = some (.alloc n) →
      f.kern.sysPageAlloc e 0 PFTEMP (PTE_U|||PTE_P|||PTE_W) = some (0,s) →
      ForkStep f (.write e n) ({f with kern := s}.setFault e (some (.copy n 0)))
  | pgfaultCopy {f : Family} {e n k : Nat} {w : Word} {s : Kern} :
      f.fault e = some (.copy n k) → k < 1024 → f.kern.pte e n = some w →
      f.kern.userStore (f.kern.pgdir e) (PFTEMP+BitVec.ofNat 32 (4*k)) (f.kern.mem (PPN w) k) =
        some s →
      ForkStep f (.write e n) ({f with kern := s}.setFault e (some (.copy n (k+1))))
  | pgfaultMap {f : Family} {e n : Nat} {x : Word} {s : Kern} :
      f.fault e = some (.copy n 1024) → f.kern.pte e tempPage = some x →
      f.kern.sysPageMap e 0 PFTEMP 0 (pageVa n) (PTE_W|||PTE_U|||PTE_P) = some (0,s) →
      ForkStep f (.write e n)
        { ({f with kern := s}.setFault e none) with
          view := (f.abs.setView e n ((f.view e n).or
            (if n = tempPage then none else some (f.kern.mem (PPN x))))).view }
  | handlerPage {f : Family} {e : Nat} {s : Kern} :
      f.proc e = .user → f.fault e = none →
      f.kern.sysPageAlloc e 0 (UXSTACKTOP-0x1000) (PTE_P|||PTE_W|||PTE_U) = some (0,s) →
      ForkStep f .other {f with kern := s}
  | handlerUpcall {f : Family} {e : Nat} {func : Word} {s : Kern} :
      f.proc e = .user → f.fault e = none →
      f.kern.sysEnvSetPgfaultUpcall e 0 func = (0,s) →
      ForkStep f .other {f with kern := s}
  | call {f : Family} {e fr : Nat} :
      f.proc e = .user → f.fault e = none →
      f.kern.storeTarget (f.kern.pgdir e) (USTACKTOP-4) true = some fr →
      ForkStep f .other (f.setProc e .called)
  | exofork {f : Family} {e : Nat} {r : Int} {s : Kern} :
      f.proc e = .called → f.fault e = none → f.kern.sysExofork e = some (r,s) → 0 < r →
      ForkStep f .other (({f with kern := s}.setProc (ENVX (BitVec.ofInt 32 r)) .setup).setProc e
        (.fork (BitVec.ofInt 32 r) (.vpd 0)))
  | fork {f : Family} {e : Nat} {envid func : Word} {pc pc' : ForkPc} {s : Kern} :
      f.proc e = .fork envid pc → f.fault e = none →
      f.kern.forkExec e envid func pc = some (s,pc') →
      ForkStep f .other (f.advance e envid pc pc' s)
  | ret {f : Family} {e : Nat} {envid : Word} :
      f.proc e = .fork envid .ret → f.fault e = none →
      ForkStep f .other (f.setProc e .user)

/-- One environment of the kernel in state `s`, and what its pages hold. -/
def Family.start (s : Kern) (e : Nat) : Family where
  kern := s
  proc := update (fun _ => .outside) e .user
  fault := fun _ => none
  view y n :=
    if y ≠ e ∨ NUPAGE ≤ n ∨ n = tempPage ∨ n = xstackPage then none else
      match s.pte e n with
      | some w => if w&&&PTE_SHARE ≠ 0 then none else some (s.mem (PPN w))
      | none => none

/-- The states of the family that `e` founds. -/
inductive ForkReach (s : Kern) (e : Nat) : Family → Prop where
  | start : ForkReach s e (Family.start s e)
  | step {f f' : Family} {a : Label} : ForkReach s e f → ForkStep f a f' → ForkReach s e f'

end KludgeOS
