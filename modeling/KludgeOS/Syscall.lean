import KludgeOS.EnvTable

/-!
The system calls (`kern/syscall.c`) and the checks of user memory they use.
Every call is made by the current environment, slot `c`.
-/

namespace KludgeOS
open BitVec (ofNat)
open BitVec

structure Ext where
  char : Word := 0
  msec : Word := 0
  /-- The trap frame that `sys_env_set_trapframe` copies from user memory. -/
  frame : Trapframe := {}
  cr2 : Word := 0
  cblRoom : Bool := true
  packet : Option (List (BitVec 8)) := none

def E100_MAX_PKT_SIZE : Nat := 1518
def SIZEOF_STRUCT_TRAPFRAME : Word := 0x44

/-- Byte `k` of `w` replaced by `b`. -/
def setByte (w : Word) (k : Nat) (b : BitVec 8) : Word :=
  (w&&&~~~((0xFF : Word) <<< (8*k)))|||(b.zeroExtend 32 <<< (8*k))

abbrev UserStorable (w : Word) : Prop := w&&&(PTE_P|||PTE_W|||PTE_U) = PTE_P|||PTE_W|||PTE_U

lemma not_userStorable_vpt (p : Nat) : ¬UserStorable (page2pa p|||PTE_P|||PTE_W) := by
  intro h
  have hb := congrArg (fun w : Word => w.getLsbD 2) h
  simp [page2pa,PTE_P,PTE_W,PTE_U] at hb

lemma not_userStorable_uvpt (p : Nat) : ¬UserStorable (page2pa p|||PTE_P|||PTE_U) := by
  intro h
  have hb := congrArg (fun w : Word => w.getLsbD 1) h
  simp [page2pa,PTE_P,PTE_W,PTE_U] at hb

namespace Kern

/-- The frame a store at `va` goes to. The kernel runs with `CR0_WP` set. -/
def storeTarget (s : Kern) (pgdir : Nat) (va : Word) (user : Bool) : Option Nat :=
  let pde := s.mem pgdir (PDX va)
  let pte := s.mem (PPN pde) (PTX va)
  let need := if user then PTE_P|||PTE_W|||PTE_U else PTE_P|||PTE_W
  if pde&&&need = need ∧ pte&&&need = need then some (PPN pte) else none

lemma storeTarget_user (s : Kern) (pgdir : Nat) (va : Word) : s.storeTarget pgdir va true =
      if UserStorable (s.mem pgdir (PDX va)) ∧
          UserStorable (s.mem (PPN (s.mem pgdir (PDX va))) (PTX va))
      then some (PPN (s.mem (PPN (s.mem pgdir (PDX va))) (PTX va))) else none := rfl

def storeByte (s : Kern) (pgdir : Nat) (va : Word) (b : BitVec 8) : Option Kern := do
  let f ← s.storeTarget pgdir va false
  let off := va.toNat%PGSIZE
  return s.setWord f (off/4) (setByte (s.mem f (off/4)) (off%4) b)

/-- Consecutive bytes from `va` up, stored by the kernel. -/
def storeBytes (pgdir : Nat) : List (BitVec 8) → Word → Kern → Option Kern
  | [],_,s => some s
  | b :: l,va,s => do
    let s ← s.storeByte pgdir va b
    storeBytes pgdir l (va+1) s

def wordBytes (w : Word) : List (BitVec 8) :=
  [w.setWidth 8,(w >>> 8).setWidth 8,(w >>> 16).setWidth 8,(w >>> 24).setWidth 8]

def userStore (s : Kern) (pgdir : Nat) (va w : Word) : Option Kern := do
  let f ← s.storeTarget pgdir va true
  return s.setWord f (va.toNat%PGSIZE/4) w

/-- The loop of `user_mem_check`: `n` rounds are left. Every round looks at `va` itself;
`b` moves on but is used only for the address reported. -/
def userMemLoop (s : Kern) (pgdir : Nat) (va perm : Word) : Nat → Word → Option (Option Word)
  | 0,_ => some none
  | n+1,b =>
    if ULIM ≤ va then some (some (if va < b then b else va))
    else do
      let (p,s) ← s.pgdirWalk pgdir va false
      match p with
      | none => return some (if va < b then b else va)
      | some p =>
        if s.mem p.frame p.idx&&&perm = perm then
          userMemLoop s pgdir va perm n (b+ofNat 32 PGSIZE)
        else return some (if va < b then b else va)

/-- `user_mem_check`: nothing, or the address it reports. The source evaluates
the bound `(b - e) / PGSIZE` again as `b` moves on, which makes a round for every page. Here it is
taken once: every round makes the same test, so it only matters whether there is one. -/
def userMemCheck (s : Kern) (pgdir : Nat) (va len perm : Word) : Option (Option Word) :=
  let b := va-ofNat 32 (va.toNat%PGSIZE)
  let e := va+len+ofNat 32 (PGSIZE-1)
  let e := e-ofNat 32 (e.toNat%PGSIZE)
  s.userMemLoop pgdir va perm ((b-e).toNat/PGSIZE) b

def userMemAssert (s : Kern) (e : Nat) (va len perm : Word) : Option (Flow Unit × Kern) := do
  match ← s.userMemCheck (s.envs e).envPgdir va len (perm|||PTE_U) with
  | none => return (.ret (),s)
  | some _ => s.envDestroy e

def sysEnvDestroy (s : Kern) (c : Nat) (envid : Word) : Option (Flow Int × Kern) :=
  match s.envid2env c envid true with
  | none => some (.ret (-E_BAD_ENV),s)
  | some e => do
    match ← s.envDestroy e with
    | (.switched,s) => return (.switched,s)
    | (.ret (),s) => return (.ret 0,s)

def sysYield (s : Kern) (c : Nat) : Option Kern :=
  if (s.envs c).envStatus = .running then
    (s.modEnv c fun v => {v with envStatus := .runnable}).schedYield
  else none

def sysExofork (s : Kern) (c : Nat) : Option (Int × Kern) := do
  let (r,s) ← s.envAlloc (s.envs c).envId
  match r with
  | .error _ => return (-E_NO_FREE_ENV,s)
  | .ok e =>
    if (s.envs e).envStatus = .runnable then
      let s := s.modEnv e fun v => {v with envStatus := .notRunnable}
      let tf := (s.envs c).envTf
      let s := s.modEnv e fun v =>
        {v with envTf := {tf with regs := {tf.regs with eax := 0}}}
      return ((s.envs e).envId.toInt,s)
    else none

def sysEnvSetStatus (s : Kern) (c : Nat) (envid status : Word) : Int × Kern :=
  match s.envid2env c envid true with
  | none => (-E_BAD_ENV,s)
  | some e =>
    if status = 1 then (0,s.modEnv e fun v => {v with envStatus := .runnable})
    else if status = 2 then (0,s.modEnv e fun v => {v with envStatus := .notRunnable})
    else (-E_INVAL,s)

def sysEnvSetTrapframe (s : Kern) (c : Nat) (envid tf : Word) (x : Ext) :
    Option (Flow Int × Kern) :=
  match s.envid2env c envid true with
  | none => some (.ret (-E_BAD_ENV),s)
  | some e => do
    match ← s.userMemAssert e tf SIZEOF_STRUCT_TRAPFRAME 0 with
    | (.switched,s) => return (.switched,s)
    | (.ret (),s) => return (.ret 0,s.modEnv e fun v => {v with envTf := x.frame})

def sysEnvSetPgfaultUpcall (s : Kern) (c : Nat) (envid func : Word) : Int × Kern :=
  match s.envid2env c envid true with
  | none => (-E_BAD_ENV,s)
  | some e => (0,s.modEnv e fun v => {v with envPgfaultUpcall := func})

/-- The permission test of `sys_page_alloc` and `sys_ipc_try_send`. -/
abbrev BadPerm (perm : Word) : Prop := perm&&&PTE_U = 0 ∨ perm&&&PTE_P = 0 ∨ perm&&&~~~PTE_USER ≠ 0

abbrev BadVa (va : Word) : Prop := UTOP ≤ va ∨ va.toNat%PGSIZE ≠ 0

def sysPageAlloc (s : Kern) (c : Nat) (envid va perm : Word) : Option (Int × Kern) :=
  match s.envid2env c envid true with
  | none => some (-E_BAD_ENV,s)
  | some e =>
    if BadPerm perm then some (-E_INVAL,s)
    else if BadVa va then some (-E_INVAL,s)
    else match s.pageAlloc with
      | (none,s) => some (-E_NO_MEM,s)
      | (some p,s) => do
        let k ← s.pa2page (page2pa p)
        let s := s.fillFrame k fun _ => 0
        let (r,s) ← s.pageInsert (s.envs e).envPgdir p va perm
        if r < 0 then
          if s.ppRef p = 0 then
            let s ← s.pageFree p
            return (r,s)
          else none
        else return (0,s)

def sysPageMap (s : Kern) (c : Nat) (srcenvid srcva dstenvid dstva perm : Word) :
    Option (Int × Kern) :=
  match s.envid2env c srcenvid true,s.envid2env c dstenvid true with
  | some es,some ed =>
    if BadVa srcva ∨ BadVa dstva then some (-E_INVAL,s)
    else if perm&&&(PTE_U+PTE_P) = 0 ∨ perm&&&~~~PTE_USER ≠ 0 then some (-E_INVAL,s)
    else do
      let (r,s) ← s.pageLookup (s.envs es).envPgdir srcva
      match r with
      | none => return (-E_INVAL,s)
      | some (p,pte) =>
        if perm&&&PTE_W ≠ 0 ∧ s.mem pte.frame pte.idx&&&PTE_W = 0 then return (-E_INVAL,s)
        else s.pageInsert (s.envs ed).envPgdir p dstva perm
  | _,_ => some (-E_BAD_ENV,s)

def sysPageUnmap (s : Kern) (c : Nat) (envid va : Word) : Option (Int × Kern) :=
  match s.envid2env c envid true with
  | none => some (-E_BAD_ENV,s)
  | some e =>
    if BadVa va then some (-E_INVAL,s)
    else do
      let s ← s.pageRemove (s.envs e).envPgdir va
      return (0,s)

/-- `sys_ipc_try_send` from the first test of `srcva` on, with the mailbox of `t` filled. -/
def ipcDeliver (s : Kern) (c t : Nat) (srcva perm : Word) : Option (Int × Kern) :=
  let wake (s : Kern) : Kern := s.modEnv t fun v => {v with envStatus := .runnable}
  if srcva ≠ 0 then
    if BadVa srcva then some (-E_INVAL,s)
    else if BadPerm perm then some (-E_INVAL,s)
    else do
      let (r,s) ← s.pageLookup (s.envs c).envPgdir srcva
      match r with
      | none => return (-E_INVAL,s)
      | some (p,_) =>
        if (s.envs t).envIpcDstva ≠ 0 then
          let (r,s) ← s.pageInsert (s.envs t).envPgdir p (s.envs t).envIpcDstva perm
          if r < 0 then return (r,s)
          else return (1,wake (s.modEnv t fun v => {v with envIpcPerm := perm}))
        else return (0,wake s)
  else some (0,wake s)

/-- `sys_ipc_try_send`. The target's mailbox is overwritten before the page arguments are
checked. -/
def sysIpcTrySend (s : Kern) (c : Nat) (envid value srcva perm : Word) : Option (Int × Kern) :=
  match s.envid2env c envid false with
  | none => some (-E_BAD_ENV,s)
  | some t =>
    if (s.envs t).envIpcRecving = false then some (-E_IPC_NOT_RECV,s)
    else
      let sender := (s.envs c).envId
      let s := s.modEnv t fun v =>
        { v with envIpcRecving := false, envIpcFrom := sender, envIpcValue := value,
                 envIpcPerm := 0 }
      s.ipcDeliver c t srcva perm

def sysIpcRecv (s : Kern) (c : Nat) (dstva : Word) : Option (Flow Int × Kern) :=
  if dstva ≠ 0 ∧ BadVa dstva then some (.ret (-E_INVAL),s)
  else
    let s := if dstva ≠ 0 then s.modEnv c fun v => {v with envIpcDstva := dstva} else s
    if (s.envs c).envStatus = .running then do
      let s := s.modEnv c fun v =>
        { v with envIpcRecving := true, envStatus := .notRunnable,
                 envTf := {v.envTf with regs := {v.envTf.regs with eax := 0}} }
      let s ← s.schedYield
      return (.switched,s)
    else none

def sysNicSend (x : Ext) : Int := if x.cblRoom then 0 else -1

/-- `sys_nic_recv`, with the copy of a waiting frame to the caller. -/
def sysNicRecv (s : Kern) (c : Nat) (packet size : Word) (x : Ext) : Option (Flow Int × Kern) := do
  match ← s.userMemAssert c packet (ofNat 32 E100_MAX_PKT_SIZE) (PTE_P|||PTE_W) with
  | (.switched,s) => return (.switched,s)
  | (.ret (),s) =>
    match x.packet with
    | none => return (.ret (-1),s)
    | some l =>
      let s ← storeBytes (s.envs c).envPgdir (wordBytes (ofNat 32 l.length)) size s
      let s ← storeBytes (s.envs c).envPgdir l packet s
      return (.ret 0,s)

/-- The dispatcher. A call number it does not know panics; `sys_reboot` does not return. -/
def syscall (s : Kern) (c : Nat) (no a1 a2 a3 a4 a5 : Word) (x : Ext) : Option (Flow Int × Kern) :=
  match no.toNat with
  | 0 => do
    match ← s.userMemAssert c a1 a2 0 with
    | (.switched,s) => return (.switched,s)
    | (.ret (),s) => return (.ret 0,s)
  | 1 => some (.ret x.char.toInt,s)
  | 2 => none
  | 3 => some (.ret (s.envs c).envId.toInt,s)
  | 4 => s.sysEnvDestroy c a1
  | 5 => do let (r,s) ← s.sysPageAlloc c a1 a2 a3; return (.ret r,s)
  | 6 => do let (r,s) ← s.sysPageMap c a1 a2 a3 a4 a5; return (.ret r,s)
  | 7 => do let (r,s) ← s.sysPageUnmap c a1 a2; return (.ret r,s)
  | 8 => do let (r,s) ← s.sysExofork c; return (.ret r,s)
  | 9 => let (r,s) := s.sysEnvSetStatus c a1 a2; some (.ret r,s)
  | 10 => s.sysEnvSetTrapframe c a1 a2 x
  | 11 => let (r,s) := s.sysEnvSetPgfaultUpcall c a1 a2; some (.ret r,s)
  | 12 => do let s ← s.sysYield c; return (.switched,s)
  | 13 => do let (r,s) ← s.sysIpcTrySend c a1 a2 a3 a4; return (.ret r,s)
  | 14 => s.sysIpcRecv c a1
  | 15 => some (.ret x.msec.toInt,s)
  | 16 => some (.ret (sysNicSend x),s)
  | 17 => s.sysNicRecv c a1 a2 x
  | _ => none

end Kern
end KludgeOS
