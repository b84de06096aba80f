import KludgeOS.Syscall

/-!
The driver `kern/dev/e100.c` and the adapter beside it, which may act between any two accesses of
the handler to its registers.
-/

namespace KludgeOS
open Function

abbrev Half := BitVec 16

def CBL_SIZE : Nat := 4
def RFA_SIZE : Nat := 8

def tcb_tx : Half := 4
def tcb_s : Half := 1 <<< 14
def rfd_s : Half := 1 <<< 14
def rfd_status_c : Half := 1 <<< 15
def rfd_status2_eof : Half := 1 <<< 15
def rfd_status2_count_mask : Half := 0x3fff

structure Tcb where
  status : Half
  command : Half
  link : Nat
  size : Half
  data : List Byte
  deriving DecidableEq

structure Rfd where
  status : Half
  command : Half
  link : Nat
  status2 : Half
  size : Half
  data : List Byte
  deriving DecidableEq

def Tcb.packet (t : Tcb) : List Byte := t.data.take t.size.toNat

def Rfd.Complete (d : Rfd) : Prop := d.status&&&rfd_status_c ≠ 0 ∧ d.status2&&&rfd_status2_eof ≠ 0

instance (d : Rfd) : Decidable d.Complete := by unfold Rfd.Complete; infer_instance

def Rfd.frame (d : Rfd) : List Byte := d.data.take (d.status2&&&rfd_status2_count_mask).toNat

def overwrite (d l : List Byte) : List Byte := l++d.drop l.length

/-- The transmit side of `struct E100` and the command unit. -/
structure Cbl where
  cbl : Nat → Tcb
  cblHead : Nat := 0
  cblCount : Nat := 0
  scbPointer : Nat := 0
  active : Bool := false
  cna : Bool := false
  accepted : List (Nat × List Byte) := []
  sent : List (List Byte) := []

namespace Cbl

/-- `cbl_init`; the pages come with whatever they held. -/
def cblInit (cbl : Nat → Tcb) : Cbl :=
  { cbl := fun i => if i < CBL_SIZE then
      { cbl i with
        status := 0, command := tcb_tx|||tcb_s, size := 0, link := (i+1)%CBL_SIZE }
      else cbl i }

def e100Startcu (m : Cbl) : Cbl :=
  if m.cblCount = 0 then m else {m with scbPointer := m.cblHead, active := true}

/-- `e100_add_tcb`. A packet longer than the data array runs over its end, and what happens then
is left open. -/
def e100AddTcb (m : Cbl) (p : List Byte) : Option (Int × Cbl) :=
  if m.cblCount = CBL_SIZE then some (-1,m)
  else if E100_MAX_PKT_SIZE < p.length then none
  else
    let n := (m.cblHead+m.cblCount)%CBL_SIZE
    let t := { m.cbl n with
      status := 0, data := overwrite (m.cbl n).data p, size := BitVec.ofNat 16 p.length }
    let m' := { m with
      cbl := update m.cbl n t
      cblCount := (m.cblCount+1)%256
      accepted := m.accepted++[(n,p)] }
    some (0,if m.cblCount = 0 then m'.e100Startcu else m')

def count (m : Cbl) : Cbl := e100Startcu {m with cblCount := (m.cblCount+255)%256}

def transmit (m : Cbl) : Cbl :=
  {m with active := false, cna := true, sent := m.sent++[(m.cbl m.scbPointer).packet]}

end Cbl

/-- The receive side of `struct E100` and the receive unit. -/
structure Rfa where
  rfa : Nat → Rfd
  rfaHead : Nat := 0
  rfaTail : Nat := RFA_SIZE-1
  rfaNoroom : Bool := false
  next : Nat := 0
  suspended : Bool := false
  rnr : Bool := false
  stored : List (Nat × List Byte) := []
  returned : List (List Byte) := []

namespace Rfa

def RFA_INIT (d : Rfd) (tail : Bool) : Rfd :=
  { d with
    status := 0, command := if tail then rfd_s else 0, status2 := 0,
    size := BitVec.ofNat 16 E100_MAX_PKT_SIZE }

/-- `rfa_init`, up to the start of the receive unit. -/
def rfaInit (rfa : Nat → Rfd) : Rfa :=
  { rfa := fun i => if i < RFA_SIZE then
      {RFA_INIT (rfa i) (i = RFA_SIZE-1) with link := (i+1)%RFA_SIZE}
      else rfa i }

def rfaMakeroom (m : Rfa) : Rfa :=
  if (m.rfaTail+1)%RFA_SIZE = m.rfaHead then {m with rfaNoroom := true}
  else
    let tail := (m.rfaHead+RFA_SIZE-1)%RFA_SIZE
    { m with
      rfaTail := tail
      rfa := update m.rfa tail (RFA_INIT (m.rfa tail) true)
      rfaNoroom := false
      suspended := false }

def take (m : Rfa) : Rfa :=
  { m with
    rfa := update m.rfa m.rfaHead (RFA_INIT (m.rfa m.rfaHead) false)
    rfaHead := (m.rfaHead+1)%RFA_SIZE
    returned := m.returned++[(m.rfa m.rfaHead).frame] }

/-- `e100_rem_rfd`, when it returns 0. -/
def e100RemRfd (m : Rfa) : Option Rfa :=
  if (m.rfa m.rfaHead).Complete then some (if m.rfaNoroom then m.take.rfaMakeroom else m.take)
  else none

def store (m : Rfa) (l : List Byte) : Rfa :=
  let d := m.rfa m.next
  let last := d.command&&&rfd_s ≠ 0
  let d' := { d with
    status := d.status|||rfd_status_c
    status2 := rfd_status2_eof|||BitVec.ofNat 16 l.length
    data := overwrite d.data l }
  { m with
    rfa := update m.rfa m.next d'
    next := d.link
    suspended := m.suspended || last
    rnr := m.rnr || last
    stored := m.stored++[(m.next,l)] }

end Rfa

/-- The causes of an interrupt that `e100_intr` looks at. -/
structure ScbStatus where
  cna : Bool
  rnr : Bool
  suspended : Bool
  deriving DecidableEq

/-- Where the processor is in `e100_intr`, with the status word it has read. -/
inductive IntrPc where
  | out
  | cna : ScbStatus → IntrPc
  | cliCna : ScbStatus → IntrPc
  | rnr : ScbStatus → IntrPc
  | cliRnr
  | cliRest
  deriving DecidableEq

structure Nic where
  tx : Cbl
  rx : Rfa
  cx : Bool := false
  fr : Bool := false
  pc : IntrPc := .out

inductive NicAct where
  | add : List Byte → NicAct
  | rem
  | intr
  | transmit
  | store : List Byte → NicAct
  /-- An interrupt that the driver only acknowledges. -/
  | note : (cx fr : Bool) → NicAct
  deriving DecidableEq

namespace Nic

/-- `e100_init`: after the reset the adapter is idle and has no interrupt pending. -/
def e100Init (cbl : Nat → Tcb) (rfa : Nat → Rfd) : Nic := {tx := .cblInit cbl, rx := .rfaInit rfa}

/-- `e100_intr`, from one access to the adapter's registers to the next. -/
def e100Intr (m : Nic) : Nic :=
  match m.pc with
  | .out => {m with pc := .cna ⟨m.tx.cna,m.rx.rnr,m.rx.suspended⟩}
  | .cna s => if s.cna then {m with tx := m.tx.count, pc := .cliCna s} else {m with pc := .rnr s}
  | .cliCna s => {m with tx.cna := false, pc := .rnr s}
  | .rnr s =>
    if s.rnr || s.suspended then {m with rx := m.rx.rfaMakeroom, pc := .cliRnr}
    else {m with pc := .cliRest}
  | .cliRnr => {m with rx.rnr := false, pc := .cliRest}
  | .cliRest => {m with cx := false, fr := false, pc := .out}

def step (m : Nic) : NicAct → Option Nic
  | .add p => if m.pc = .out then (m.tx.e100AddTcb p).map fun q => {m with tx := q.2} else none
  | .rem => if m.pc = .out then some {m with rx := m.rx.e100RemRfd.getD m.rx} else none
  | .intr => some m.e100Intr
  | .transmit => if m.tx.active then some {m with tx := m.tx.transmit} else none
  | .store l =>
    if m.rx.suspended = false ∧ l.length ≤ (m.rx.rfa m.rx.next).size.toNat then
      some {m with rx := m.rx.store l}
    else none
  | .note cx fr => some {m with cx := m.cx || cx, fr := m.fr || fr}

def run (P : Nic → NicAct → Prop) [∀ m a, Decidable (P m a)] (m : Nic) : List NicAct → Option Nic
  | [] => some m
  | a :: l => if P m a then (m.step a).bind fun m => m.run P l else none

end Nic

inductive Nic.Stepped (m : Nic) : NicAct → Nic → Prop where
  | add {p : List Byte} {q : Int × Cbl} : m.pc = .out → m.tx.e100AddTcb p = some q →
      Stepped m (.add p) {m with tx := q.2}
  | rem {x : Rfa} : m.pc = .out → m.rx.e100RemRfd = some x → Stepped m .rem {m with rx := x}
  | remFails : Stepped m .rem m
  | intr : Stepped m .intr m.e100Intr
  | transmit : m.tx.active → Stepped m .transmit {m with tx := m.tx.transmit}
  | store {l : List Byte} : m.rx.suspended = false →
      l.length ≤ (m.rx.rfa m.rx.next).size.toNat → Stepped m (.store l) {m with rx := m.rx.store l}
  | note {cx fr : Bool} : Stepped m (.note cx fr) {m with cx := m.cx || cx, fr := m.fr || fr}

variable {m m' : Nic}

lemma Nic.stepped {a : NicAct} (h : m.step a = some m') : m.Stepped a m' := by
  cases a with
  | add p =>
    simp only [Nic.step] at h
    split at h
    · obtain ⟨q,hq,rfl⟩ := Option.map_eq_some_iff.mp h
      exact .add ‹_› hq
    cases h
  | rem =>
    simp only [Nic.step] at h
    split at h
    · cases h
      cases hx : m.rx.e100RemRfd with
      | none => exact .remFails
      | some x => exact .rem ‹_› hx
    cases h
  | intr =>
    cases h
    exact .intr
  | transmit =>
    simp only [Nic.step] at h
    split at h
    · cases h
      exact .transmit ‹_›
    cases h
  | store l =>
    simp only [Nic.step] at h
    split at h
    · rename_i hl
      cases h
      exact .store hl.1 hl.2
    cases h
  | note cx fr =>
    cases h
    exact .note

/-- Runs from `e100_init` on whose steps are all of one kind. -/
inductive NicRun (P : Nic → NicAct → Prop) : Nic → Prop where
  | init (cbl : Nat → Tcb) (rfa : Nat → Rfd) : NicRun P (.e100Init cbl rfa)
  | step {m m' : Nic} {a : NicAct} : NicRun P m → m.step a = some m' → P m a → NicRun P m'

lemma NicRun.run {P : Nic → NicAct → Prop} [∀ m a, Decidable (P m a)] (h : NicRun P m)
    (l : List NicAct) (hr : m.run P l = some m') : NicRun P m' := by
  induction l generalizing m with
  | nil =>
    cases hr
    exact h
  | cons a l ih =>
    unfold Nic.run at hr
    split at hr
    · rename_i hP
      obtain ⟨m1,h1,hr⟩ := of_bind hr
      exact ih (h.step h1 hP) hr
    cases hr

def blankTcb : Nat → Tcb := fun _ => ⟨0,0,0,0,[]⟩

def blankRfd : Nat → Rfd := fun _ => ⟨0,0,0,0,0,[]⟩

end KludgeOS
