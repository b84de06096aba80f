import KludgeOS.Syscall

/-!
Trap handling (`kern/trap.c`) and the machine around it: the boot loader's
environments, user-mode stores, and traps out of user mode.
-/

namespace KludgeOS
open Option

def IOPL_MASK : Word := 0x3000

/-- `struct UTrapframe`, lowest word first. -/
def utfWords (tf : Trapframe) (faultVa : Word) : List Word :=
  [faultVa,tf.err,tf.regs.edi,tf.regs.esi,tf.regs.ebp,tf.regs.oesp,tf.regs.ebx,tf.regs.edx,
   tf.regs.ecx,tf.regs.eax,tf.eip,tf.eflags,tf.esp]

def SIZEOF_UTRAPFRAME : Word := 52

namespace Kern

/-- Store the frame at `utf` and enter the upcall. -/
def enterUpcall (s : Kern) (c : Nat) (utf : Word) (x : Ext) : Option Kern := do
  let tf := (s.envs c).envTf
  let s ← storeBytes (s.envs c).envPgdir ((utfWords tf x.cr2).flatMap wordBytes) utf s
  let s := s.modEnv c fun v =>
    {v with envTf := {v.envTf with eip := v.envPgfaultUpcall, esp := utf}}
  if (s.envs c).envStatus = .running then
    return s.modEnv c fun v => {v with envRuns := v.envRuns+1}
  else none

/-- `page_fault_handler`, for a fault in user mode. It never returns to its caller. -/
def pageFaultHandler (s : Kern) (c : Nat) (x : Ext) : Option Kern := do
  let tf := (s.envs c).envTf
  if (s.envs c).envPgfaultUpcall ≠ 0 then
    match ← s.userMemAssert c (UXSTACKTOP-1) 1 0 with
    | (.switched,s) => return s
    | (.ret (),s) =>
      if tf.esp < UXSTACKTOP ∧ UXSTACKTOP-0x1000 ≤ tf.esp then
        match ← s.userMemAssert c tf.eip 1 0 with
        | (.switched,s) => return s
        | (.ret (),s) =>
          let utf := tf.esp-SIZEOF_UTRAPFRAME-4
          if utf < UXSTACKTOP-0x1000 then
            let (_,s) ← s.envDestroy c
            return s
          else s.enterUpcall c utf x
      else s.enterUpcall c (UXSTACKTOP-SIZEOF_UTRAPFRAME) x
  else
    let (_,s) ← s.envDestroy c
    return s

/-- `trap_dispatch`, out of user mode. The monitor never returns, and on one processor `tlb_va` is
null at a flush request. -/
def trapDispatch (s : Kern) (c : Nat) (x : Ext) : Option (Flow Unit × Kern) :=
  let tf := (s.envs c).envTf
  match tf.trapno.toNat with
  | 49 => none
  | 50 | 51 => some (.ret (),s)
  | 14 => do let s ← s.pageFaultHandler c x; return (.switched,s)
  | 1 | 3 => none
  | 48 => do
    match ← s.syscall c tf.regs.eax tf.regs.edx tf.regs.ecx tf.regs.ebx tf.regs.edi tf.regs.esi x with
    | (.switched,s) => return (.switched,s)
    | (.ret r,s) =>
      return (.ret (),s.modEnv c fun v =>
        {v with envTf := {v.envTf with regs := {v.envTf.regs with eax := BitVec.ofInt 32 r}}})
  | 32 => do
    let s ← s.sysYield c
    return (.switched,s)
  | 33 | 39 | 43 => some (.ret (),s)
  | _ => s.envDestroy c

def trapReturn (s : Kern) (c : Nat) : Option Kern :=
  if (s.envs c).envStatus = .running then
    some (s.modEnv c fun v => {v with envRuns := v.envRuns+1})
  else (s.modEnv c fun v => {v with envStatus := .runnable}).schedYield

/-- `trap`, entered from user mode with frame `tf` while `c` is current. -/
def trap (s : Kern) (c : Nat) (tf : Trapframe) (x : Ext) : Option Kern := do
  match ← (s.modEnv c fun v => {v with envTf := tf}).trapDispatch c x with
  | (.switched,s) => return s
  | (.ret (),s) => s.trapReturn c

end Kern

/-- What running in user mode leaves: the privilege levels, and the interrupt flag unless the I/O
privilege level is 3. -/
structure UserRuns (old new : Trapframe) : Prop where
  cpl : new.cs&&&3 = old.cs&&&3
  iopl : new.eflags&&&IOPL_MASK = old.eflags&&&IOPL_MASK
  intr : old.eflags&&&IOPL_MASK = IOPL_MASK ∨ new.eflags&&&FL_IF = old.eflags&&&FL_IF

/-- The network calls that stay inside the driver's buffers and the caller's address space, which
the driver does not check. -/
structure NicInBounds (tf : Trapframe) (x : Ext) : Prop where
  send : tf.trapno = 48 → tf.regs.eax = 16 → tf.regs.ecx.toNat ≤ E100_MAX_PKT_SIZE
  recv : tf.trapno = 48 → tf.regs.eax = 17 →
    tf.regs.edx.toNat+E100_MAX_PKT_SIZE ≤ UTOP.toNat ∧ tf.regs.ecx.toNat+4 ≤ UTOP.toNat
  size : ∀ l, x.packet = some l → l.length ≤ E100_MAX_PKT_SIZE

inductive Act where
  | create : Word → List Kern.Segment → Act
  | start : Act
  | store : Word → Word → Act
  | trap : Trapframe → Ext → Act

/-- One step of the machine. Environments are created before the first one runs, with memory left
for their stacks. The two NIC calls are left out where they go out of bounds (`NicInBounds`): with a
kernel address for `size`, `sys_nic_recv` writes there. -/
inductive Step : Kern → Act → Kern → Prop where
  | create {s s' : Kern} {entry : Word} {l : List Kern.Segment} :
      s.curenv = none → (∀ g ∈ l, g.va.toNat+g.memsz.toNat ≤ UTOP.toNat) →
      s.envCreate entry l = some (0,s') → Step s (.create entry l) s'
  | start {s s' : Kern} :
      s.curenv = none → s.schedYield = some s' → Step s .start s'
  | store {s s' : Kern} {c : Nat} {va w : Word} :
      s.curenv = some c → va.toNat%4 = 0 →
      s.userStore (s.envs c).envPgdir va w = some s' → Step s (.store va w) s'
  | trap {s s' : Kern} {c : Nat} {tf : Trapframe} {x : Ext} :
      s.curenv = some c → tf.cs&&&3 = 3 → UserRuns (s.envs c).envTf tf → NicInBounds tf x →
      s.trap c tf x = some s' → Step s (.trap tf x) s'

instance (old new : Trapframe) : Decidable (UserRuns old new) :=
  decidable_of_iff (new.cs&&&3 = old.cs&&&3 ∧ new.eflags&&&IOPL_MASK = old.eflags&&&IOPL_MASK ∧
      (old.eflags&&&IOPL_MASK = IOPL_MASK ∨ new.eflags&&&FL_IF = old.eflags&&&FL_IF))
    ⟨fun h => ⟨h.1,h.2.1,h.2.2⟩,fun h => ⟨h.cpl,h.iopl,h.intr⟩⟩

instance (tf : Trapframe) (x : Ext) : Decidable (NicInBounds tf x) :=
  decidable_of_iff ((tf.trapno = 48 → tf.regs.eax = 16 → tf.regs.ecx.toNat ≤ E100_MAX_PKT_SIZE) ∧
      (tf.trapno = 48 → tf.regs.eax = 17 → tf.regs.edx.toNat+E100_MAX_PKT_SIZE ≤ UTOP.toNat ∧
        tf.regs.ecx.toNat+4 ≤ UTOP.toNat) ∧
      ∀ l ∈ x.packet, l.length ≤ E100_MAX_PKT_SIZE)
    ⟨fun h => ⟨h.1,h.2.1,h.2.2⟩,fun h => ⟨h.send,h.recv,h.size⟩⟩

def Kern.exec (s : Kern) : Act → Option Kern
  | .create entry l =>
    if s.curenv = none ∧ ∀ g ∈ l, g.va.toNat+g.memsz.toNat ≤ UTOP.toNat then do
      let (r,s) ← s.envCreate entry l
      if r = 0 then some s else none
    else none
  | .start => if s.curenv = none then s.schedYield else none
  | .store va w => do
    let c ← s.curenv
    if va.toNat%4 = 0 then s.userStore (s.envs c).envPgdir va w else none
  | .trap tf x => do
    let c ← s.curenv
    if tf.cs&&&3 = 3 ∧ UserRuns (s.envs c).envTf tf ∧ NicInBounds tf x then s.trap c tf x
    else none

lemma step_of_exec {s s' : Kern} {a : Act} (h : s.exec a = some s') : Step s a s' := by
  cases a with
  | create entry l =>
    simp only [Kern.exec] at h
    split at h
    · rename_i hc
      obtain ⟨⟨r,t⟩,ht,h⟩ := of_bind h
      simp only at h
      split at h
      · rename_i hr
        cases h
        subst hr
        exact .create hc.1 hc.2 ht
      cases h
    cases h
  | start =>
    simp only [Kern.exec] at h
    split at h
    · exact .start ‹_› h
    cases h
  | store va w =>
    obtain ⟨c,hc,h⟩ := of_bind h
    split at h
    · exact .store hc ‹_› h
    cases h
  | trap tf x =>
    obtain ⟨c,hc,h⟩ := of_bind h
    split at h
    · rename_i hg
      exact .trap hc hg.1 hg.2.1 hg.2.2 h
    cases h

def Kern.execAll : List Act → Kern → Option Kern
  | [],s => some s
  | a :: l,s => do
    let s ← s.exec a
    execAll l s

/-- The kernel before the first `env_create`. `K` is the set of frames the kernel has taken for
itself. -/
structure Boot (K : Finset Nat) (s : Kern) : Prop where
  npage_le : s.npage ≤ 2^20
  kernel_lt : ∀ f ∈ K, f < s.npage
  bootPgdir_mem : s.bootPgdir ∈ K
  free_iff : ∀ f, f ∈ s.pageFreeList ↔ f < s.npage ∧ f ∉ K
  free_nodup : s.pageFreeList.Nodup
  ref_zero : ∀ f ∈ s.pageFreeList, s.ppRef f = 0
  low : ∀ d < NUPDE, ¬Present (s.mem s.bootPgdir d)
  high : ∀ d, NUPDE ≤ d → d < NPDENTRIES → d ≠ PDX VPT → d ≠ PDX UVPT →
    Present (s.mem s.bootPgdir d) → PPN (s.mem s.bootPgdir d) ∈ K ∧
      ∀ t < NPTENTRIES, UserStorable (s.mem s.bootPgdir d) → ¬UserStorable (s.mem (PPN (s.mem s.bootPgdir d)) t)
  dir : DirOk s.mem s.bootPgdir
  vpt : s.mem s.bootPgdir (PDX VPT) = page2pa s.bootPgdir|||PTE_W|||PTE_P
  uvpt : s.mem s.bootPgdir (PDX UVPT) = page2pa s.bootPgdir|||PTE_U|||PTE_P
  envs : ∀ e, s.envs e = {}
  envFreeList : s.envFreeList = List.range NENV
  curenv : s.curenv = none
  pre : s.pre = 0

/-- The states that steps lead to, so without NIC calls out of bounds. -/
inductive Reachable (K : Finset Nat) : Kern → Prop where
  | boot {s : Kern} : Boot K s → Reachable K s
  | step {s s' : Kern} {a : Act} : Reachable K s → Step s a s' → Reachable K s'

lemma Reachable.execAll {K : Finset Nat} {s' : Kern} (l : List Act) :
    ∀ {s : Kern}, Reachable K s → Kern.execAll l s = some s' → Reachable K s' := by
  induction l with
  | nil =>
    intro s h hs
    cases hs
    exact h
  | cons a l ih =>
    intro s h hs
    obtain ⟨t,ht,hs⟩ := of_bind hs
    exact ih (.step h (step_of_exec ht)) hs

end KludgeOS
