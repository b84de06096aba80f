import KludgeOS.Mmu

/-!
The state of the kernel on one processor (`inc/env.h`, `inc/trap.h`, `inc/error.h`, the globals of
`kern/`). Physical memory is an array of frames of 1024 words; a kernel pointer to the start of a
frame is that frame's number. Locks are left out.
-/

namespace KludgeOS
open Function (update)

/-! Error codes, as they are returned (negated). -/

def E_BAD_ENV : Int := 2
def E_INVAL : Int := 3
def E_NO_MEM : Int := 4
def E_NO_FREE_ENV : Int := 5
def E_FAULT : Int := 6
def E_IPC_NOT_RECV : Int := 7

def NENV : Nat := 1024
def ENVX (envid : Word) : Nat := (envid&&&1023).toNat

inductive EnvStatus where
  | free | runnable | notRunnable | running
  deriving DecidableEq

structure PushRegs where
  edi : Word := 0
  esi : Word := 0
  ebp : Word := 0
  oesp : Word := 0
  ebx : Word := 0
  edx : Word := 0
  ecx : Word := 0
  eax : Word := 0
  deriving DecidableEq

structure Trapframe where
  regs : PushRegs := {}
  es : BitVec 16 := 0
  ds : BitVec 16 := 0
  trapno : Word := 0
  err : Word := 0
  eip : Word := 0
  cs : BitVec 16 := 0
  eflags : Word := 0
  esp : Word := 0
  ss : BitVec 16 := 0
  deriving DecidableEq

structure Env where
  envTf : Trapframe := {}
  envId : Word := 0
  envParentId : Word := 0
  envStatus : EnvStatus := .free
  envRuns : Word := 0
  envPgdir : Nat := 0
  envCr3 : Word := 0
  envPgfaultUpcall : Word := 0
  envIpcRecving : Bool := false
  envIpcDstva : Word := 0
  envIpcValue : Word := 0
  envIpcFrom : Word := 0
  envIpcPerm : Word := 0
  deriving DecidableEq

abbrev Mem := Nat → Nat → Word

def Mem.set (m : Mem) (f i : Nat) (w : Word) : Mem :=
  update m f (update (m f) i w)

def Mem.fill (m : Mem) (f : Nat) (c : Nat → Word) : Mem := update m f c

lemma Mem.set_self (m : Mem) (f i : Nat) (w : Word) : m.set f i w f i = w := by simp [Mem.set]

variable {f g : Nat}

lemma Mem.set_frame (m : Mem) (i : Nat) (w : Word) (h : g ≠ f) : m.set f i w g = m g := by
  simp [Mem.set,h]

lemma Mem.set_index {i j : Nat} (m : Mem) (f g : Nat) (w : Word) (h : j ≠ i) :
    m.set f i w g j = m g j := by
  by_cases hg : g = f
  · subst hg; simp [Mem.set,h]
  rw [Mem.set_frame m i w hg]

lemma Mem.set_set (m : Mem) (f i : Nat) (v w : Word) : (m.set f i v).set f i w = m.set f i w := by
  simp [Mem.set]

lemma Mem.fill_self (m : Mem) (f : Nat) (c : Nat → Word) : m.fill f c f = c := by simp [Mem.fill]

lemma Mem.fill_frame (m : Mem) (c : Nat → Word) (h : g ≠ f) : m.fill f c g = m g := by
  simp [Mem.fill,h]

structure Kern where
  npage : Nat
  mem : Mem
  ppRef : Nat → Nat
  pageFreeList : List Nat
  envs : Nat → Env
  envFreeList : List Nat
  curenv : Option Nat
  bootPgdir : Nat
  pre : Nat

namespace Kern

def setWord (s : Kern) (f i : Nat) (w : Word) : Kern := {s with mem := s.mem.set f i w}

def fillFrame (s : Kern) (f : Nat) (c : Nat → Word) : Kern := {s with mem := s.mem.fill f c}

def incRef (s : Kern) (pp : Nat) : Kern :=
  {s with ppRef := update s.ppRef pp (s.ppRef pp+1)}

def setEnv (s : Kern) (e : Nat) (v : Env) : Kern :=
  {s with envs := update s.envs e v}

def modEnv (s : Kern) (e : Nat) (f : Env → Env) : Kern := s.setEnv e (f (s.envs e))

def Live (s : Kern) (e : Nat) : Prop := e < NENV ∧ (s.envs e).envStatus ≠ .free

instance (s : Kern) (e : Nat) : Decidable (s.Live e) :=
  inferInstanceAs (Decidable (e < NENV ∧ (s.envs e).envStatus ≠ .free))

end Kern
end KludgeOS
