import KludgeOS.Pmap

/-!
The environment table and the scheduler (`kern/env.c`, `kern/sched.c`). Slot
`e` of `envs` is `&envs[e]`.
-/

namespace KludgeOS
open BitVec (ofNat)
open BitVec

def FL_IF : Word := 0x200
def FL_IOPL_3 : Word := 0x3000
def GD_KT : BitVec 16 := 0x08
def GD_UT : BitVec 16 := 0x18
def GD_UD : BitVec 16 := 0x20
def ENVGENSHIFT : Nat := 12

namespace Kern

/-- `envid2env` on behalf of the current environment `c`; `none` is `-E_BAD_ENV`. -/
def envid2env (s : Kern) (c : Nat) (envid : Word) (checkperm : Bool) : Option Nat :=
  if envid = 0 then some c
  else
    let e := ENVX envid
    if (s.envs e).envStatus = .free ∨ (s.envs e).envId ≠ envid then none
    else if checkperm = true ∧ e ≠ c ∧ (s.envs e).envParentId ≠ (s.envs c).envId then none
    else some e

/-- The directory `env_setup_vm` builds in frame `p`. -/
def setupPgdir (s : Kern) (p : Nat) (d : Nat) : Word :=
  if d = PDX VPT then page2pa p|||PTE_P|||PTE_W
  else if d = PDX UVPT then page2pa p|||PTE_P|||PTE_U
  else s.mem s.bootPgdir d

def envSetupVm (s : Kern) (e : Nat) : Option (Int × Kern) :=
  match s.pageAlloc with
  | (none,s) => some (-E_NO_MEM,s)
  | (some p,s) => do
    let s := s.incRef p
    let k ← s.pa2page (page2pa p)
    let s := s.fillFrame k (s.setupPgdir p)
    return (0,s.modEnv e fun v => {v with envPgdir := k, envCr3 := page2pa p})

/-- The id given to slot `e` when its previous occupant had id `old`; the comparison
with zero is signed. -/
def nextEnvid (e : Nat) (old : Word) : Word :=
  let generation := (old+ofNat 32 (2^ENVGENSHIFT))&&&~~~(ofNat 32 (NENV-1))
  let generation := if generation.toInt ≤ 0 then ofNat 32 (2^ENVGENSHIFT) else generation
  generation|||ofNat 32 e

/-- The trap frame `env_alloc` builds; slot 1 is the file server. -/
def initTf (e : Nat) : Trapframe :=
  { ds := GD_UD|||3, es := GD_UD|||3, ss := GD_UD|||3, esp := USTACKTOP, cs := GD_UT|||3,
    eflags := if e = 1 then FL_IF|||FL_IOPL_3 else FL_IF }

def envAlloc (s : Kern) (parentId : Word) : Option (Except Int Nat × Kern) :=
  match s.envFreeList with
  | [] => some (.error (-E_NO_FREE_ENV),s)
  | e :: l => do
    let (r,s) ← s.envSetupVm e
    if r < 0 then return (.error r,s)
    let s := s.modEnv e fun v =>
      { v with envId := nextEnvid e v.envId, envParentId := parentId, envStatus := .runnable,
               envRuns := 0, envTf := initTf e, envPgfaultUpcall := 0, envIpcRecving := false }
    return (.ok e,{s with envFreeList := l})

/-- `segment_alloc`'s loop; it ignores a failed `page_insert`, which `load_icode` turns into a
fault. -/
def segmentLoop (e : Nat) : Nat → Word → Kern → Option Kern
  | 0,_,s => some s
  | n+1,v,s => do
    let (some p,s) := s.pageAlloc | none
    let (r,s) ← s.pageInsert (s.envs e).envPgdir p v (PTE_U|||PTE_W|||PTE_P)
    if r < 0 then none
    segmentLoop e n (v+ofNat 32 PGSIZE) s

structure Segment where
  va : Word
  memsz : Word
  deriving DecidableEq

def segmentAlloc (s : Kern) (e : Nat) (g : Segment) : Option Kern :=
  let v := g.va-ofNat 32 (g.va.toNat%PGSIZE)
  let len := g.memsz+ofNat 32 (PGSIZE-1)
  segmentLoop e (len.toNat/PGSIZE) v s

def loadSegments (e : Nat) : List Segment → Kern → Option Kern
  | [],s => some s
  | g :: l,s => do
    let s ← s.segmentAlloc e g
    loadSegments e l s

/-- `env_create`, up to the contents of the segments. The result is what `page_insert` returned
for the stack. -/
def envCreate (s : Kern) (entry : Word) (l : List Segment) : Option (Int × Kern) := do
  let (.ok e,s) ← s.envAlloc 0 | none
  let s := s.modEnv e fun v => {v with envTf := {v.envTf with eip := entry}}
  let s ← loadSegments e l s
  let (some p,s) := s.pageAlloc | none
  s.pageInsert (s.envs e).envPgdir p (USTACKTOP-ofNat 32 PGSIZE)
    (PTE_U|||PTE_W|||PTE_P)

/-- The inner loop of `env_free`: entries `t, t+1, ..` of table `pt` of directory entry `d`. -/
def freePtes (pgdir pt d : Nat) : Nat → Nat → Kern → Option Kern
  | 0,_,s => some s
  | n+1,t,s => do
    let s ← if Present (s.mem pt t) then s.pageRemove pgdir (PGADDR d t) else some s
    freePtes pgdir pt d n (t+1) s

/-- The body of the outer loop of `env_free`, for a directory entry that is present. -/
def freePde (pgdir d : Nat) (s : Kern) : Option Kern := do
  let pa := PTE_ADDR (s.mem pgdir d)
  let pt ← s.pa2page pa
  let s ← freePtes pgdir pt d NPTENTRIES 0 s
  let s := s.setWord pgdir d 0
  let pg ← s.pa2page pa
  s.pageDecref pg

/-- The outer loop of `env_free`: directory entries `d, d+1, ..`. -/
def freePdes (pgdir : Nat) : Nat → Nat → Kern → Option Kern
  | 0,_,s => some s
  | n+1,d,s => do
    let s ← if Present (s.mem pgdir d) then freePde pgdir d s else some s
    freePdes pgdir n (d+1) s

def envFree (s : Kern) (e : Nat) : Option Kern :=
  if (s.envs e).envStatus = .free then some s
  else do
    let s ← freePdes (s.envs e).envPgdir NUPDE 0 s
    let pa := (s.envs e).envCr3
    let s := s.modEnv e fun v => {v with envPgdir := 0, envCr3 := 0}
    let pg ← s.pa2page pa
    let s ← s.pageDecref pg
    let s := s.modEnv e fun v => {v with envStatus := .free}
    return {s with envFreeList := e :: s.envFreeList}

def envRun (s : Kern) (e : Nat) : Kern :=
  let s := {s with curenv := some e}
  s.modEnv e fun v => {v with envRuns := v.envRuns+1, envStatus := .running}

/-- The scan of `sched_yield`: at most `n` more slots after `pre`. -/
def schedScan (s : Kern) : Nat → Nat → Option Nat × Nat
  | 0,pre => (none,pre)
  | n+1,pre =>
    let pre := if (pre+1)%NENV ≠ 0 then (pre+1)%NENV else 1
    if (s.envs pre).envStatus = .runnable then (some pre,pre) else schedScan s n pre

/-- `sched_yield`. When nothing is runnable and the idle environment is not either, it
spins for ever. -/
def schedYield (s : Kern) : Option Kern :=
  match s.schedScan (NENV-1) s.pre with
  | (some e,pre) => some ({s with pre := pre}.envRun e)
  | (none,pre) =>
    if (s.envs 0).envStatus = .runnable then some ({s with pre := pre}.envRun 0) else none

inductive Flow (α : Type) where
  | ret : α → Flow α
  | switched : Flow α
  deriving DecidableEq

def envDestroy (s : Kern) (e : Nat) : Option (Flow Unit × Kern) := do
  let s ← s.envFree e
  if s.curenv = some e then
    let s ← {s with curenv := none}.schedYield
    return (.switched,s)
  else return (.ret (),s)

end Kern
end KludgeOS
