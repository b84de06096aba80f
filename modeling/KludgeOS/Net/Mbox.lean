import KludgeOS.Mmu
import KludgeOS.Ring

/-!
The mailboxes of the network server (`net/lwip/jos/arch/sys_arch.c`, `thread.c`): one that is never
freed, with any number of threads, which change in `thread_yield` only, and how all are made.
-/

namespace KludgeOS
open BitVec Function Option List
namespace Lwip

def MBOXSLOTS : Nat := 32
def SYS_ARCH_TIMEOUT : Word := 0xFFFFFFFF
def SYS_ARCH_NOWAIT : Word := 0xFFFFFFFE

inductive SemId where
  | queuedMsg | freeMsg
  deriving DecidableEq

structure Sem where
  counter : BitVec 16
  waiters : BitVec 16 := 0
  deriving DecidableEq

def Sem.v (e : Sem) : Word := e.waiters ++ e.counter

/-- A call on the mailbox. `sys_arch_mbox_fetch` stores its result only if its caller gives an
address. -/
inductive MboxOp where
  | post : (msg : Word) → MboxOp
  | trypost : (msg : Word) → MboxOp
  | fetch : (tmMsec : Word) → MboxOp
  deriving DecidableEq

def MboxOp.tryfetch : MboxOp := .fetch SYS_ARCH_NOWAIT

def MboxOp.sem : MboxOp → SemId
  | .fetch _ => .queuedMsg
  | _ => .freeMsg

def MboxOp.tmMsec : MboxOp → Word
  | .fetch tm => tm
  | _ => 0

/-- The locals of `sys_arch_sem_wait` and of the `thread_wait` it calls. -/
structure WaitFrame where
  waited : Word
  a : Word
  sleepUntil : Word
  curV : Word
  s : Word
  deriving DecidableEq

/-- Where a thread is: outside, at the loop of `sys_arch_sem_wait`, or in the loop of
`thread_wait`. -/
inductive MboxPc where
  | idle
  | sem : MboxOp → (waited : Word) → MboxPc
  | test : MboxOp → WaitFrame → (p : Word) → MboxPc
  | away : MboxOp → WaitFrame → MboxPc
  deriving DecidableEq

structure MboxThread where
  pc : MboxPc := .idle
  tcWaitAddr : Option SemId := none
  tcWakeup : Bool := false
  deriving DecidableEq

/-- What must never happen: a panic, a failed assertion, `ERR_MEM` from `sys_mbox_trypost`. -/
inductive MboxFault where
  | panic | assertion | errMem
  deriving DecidableEq

/-- The mailbox, its semaphores and the threads. `now` is the `ticks` of the
kernel. -/
structure Mbox where
  head : Int := -1
  nextq : Int := 0
  msg : Nat → Word := fun _ => 0
  sems : SemId → Sem
  cur : Nat := 0
  tcs : Nat → MboxThread := fun _ => {}
  now : Nat := 0
  posted : List Word := []
  fetched : List Word := []
  fault : Option MboxFault := none

namespace Mbox

variable (m : Mbox)

def setPc (pc : MboxPc) : Mbox := {m with tcs := update m.tcs m.cur {m.tcs m.cur with pc := pc}}

/-- `time_msec` (`kern/time.c`). -/
def msec : Word := BitVec.ofNat 32 (m.now*10)

/-- `thread_wakeup`: the current thread is not on the queue. -/
def threadWakeup (k : SemId) : Mbox :=
  { m with tcs := fun i =>
      if i ≠ m.cur ∧ (m.tcs i).tcWaitAddr = some k then {m.tcs i with tcWakeup := true}
      else m.tcs i }

def semSignal (k : SemId) : Mbox :=
  let e := {m.sems k with counter := (m.sems k).counter+1}
  if e.waiters ≠ 0 then
    {m with sems := update m.sems k {e with waiters := 0}}.threadWakeup k
  else {m with sems := update m.sems k e}

/-- `sys_mbox_trypost` once it has its slot. -/
def putMsg (msg : Word) : Mbox :=
  let slot := m.nextq
  { m with
    nextq := (slot+1)%MBOXSLOTS
    msg := update m.msg slot.toNat msg
    head := if m.head = -1 then slot else m.head
    posted := m.posted++[msg] }.semSignal .queuedMsg

/-- The end of `sys_mbox_trypost`, and of `sys_mbox_post` around it. -/
def postRest (msg : Word) (full : MboxFault) : Mbox :=
  if m.nextq = m.head then {m with fault := some full} else m.putMsg msg

/-- The end of `sys_arch_mbox_fetch`, with what `sys_arch_sem_wait` returned. -/
def fetchRest (waited : Word) : Mbox :=
  if waited = SYS_ARCH_TIMEOUT then m
  else
    let slot := m.head
    if slot = -1 then {m with fault := some .panic}
    else
      let head := (slot+1)%MBOXSLOTS
      { m with
        fetched := m.fetched++[m.msg slot.toNat]
        head := if head = m.nextq then -1 else head }.semSignal .freeMsg

/-- A call goes on after `sys_arch_sem_wait`, and returns. -/
def finish (op : MboxOp) (waited : Word) : Mbox :=
  let m := m.setPc .idle
  match op with
  | .post msg => m.postRest msg .assertion
  | .trypost msg => m.postRest msg .errMem
  | .fetch _ => m.fetchRest waited

/-- One round of the loop of `sys_arch_sem_wait`, up to the loop of `thread_wait`. -/
def semWait (op : MboxOp) (waited : Word) : Mbox :=
  let e := m.sems op.sem
  if op.tmMsec = 0 ∨ waited < op.tmMsec then
    if 0 < e.counter then
      {m with sems := update m.sems op.sem {e with counter := e.counter-1}}.finish op waited
    else if op.tmMsec = SYS_ARCH_NOWAIT then m.finish op SYS_ARCH_TIMEOUT
    else
      let a := m.msec
      let sleepUntil := if op.tmMsec ≠ 0 then a+(op.tmMsec-waited) else allOnes 32
      let e := {e with waiters := 1}
      let t : MboxThread := {tcWaitAddr := some op.sem, pc := .test op ⟨waited,a,sleepUntil,e.v,a⟩ a}
      { m with
        sems := update m.sems op.sem e
        tcs := update m.tcs m.cur t }
  else m.finish op SYS_ARCH_TIMEOUT

/-- `thread_wait` goes on waiting. -/
def Waits (op : MboxOp) (f : WaitFrame) (p : Word) : Prop :=
  p < f.sleepUntil ∧ ¬p < f.s ∧ (m.sems op.sem).v = f.curV ∧ (m.tcs m.cur).tcWakeup = false

instance (op : MboxOp) (f : WaitFrame) (p : Word) : Decidable (m.Waits op f p) :=
  inferInstanceAs (Decidable (_ ∧ _ ∧ _ ∧ _))

end Mbox

inductive MboxAct where
  | tick : MboxAct
  | call : MboxOp → MboxAct
  | run : MboxAct
  /-- It calls `thread_yield`, which lets thread `i` go on. -/
  | yield : (i : Nat) → MboxAct
  deriving DecidableEq

def Mbox.exec (m : Mbox) : MboxAct → Option Mbox
  | .tick => some {m with now := m.now+1}
  | .call op =>
    if m.fault ≠ some .panic ∧ m.fault ≠ some .assertion ∧ (m.tcs m.cur).pc = .idle then
      some (m.setPc (.sem op 0))
    else none
  | .run =>
    match (m.tcs m.cur).pc with
    | .sem op waited => some (m.semWait op waited)
    | .test op f p =>
      let t : MboxThread := {pc := .sem op (f.waited+(m.msec-f.a))}
      if m.Waits op f p then none
      else some {m with tcs := update m.tcs m.cur t}
    | .away op f => some (m.setPc (.test op f m.msec))
    | .idle => none
  | .yield i =>
    match (m.tcs m.cur).pc with
    | .idle =>
      if m.fault ≠ some .panic ∧ m.fault ≠ some .assertion then some {m with cur := i} else none
    | .test op f p => if m.Waits op f p then some {m.setPc (.away op f) with cur := i} else none
    | _ => none

namespace Mbox

/-- As `sys_mbox_new` leaves it; the semaphores may have been used before. -/
def new (w w' : BitVec 16) (now : Nat) : Mbox :=
  { sems := fun k => match k with
      | .queuedMsg => ⟨0,w⟩
      | .freeMsg => ⟨BitVec.ofNat 16 MBOXSLOTS,w'⟩
    now := now }

def count (m : Mbox) : Nat :=
  if m.head = -1 then 0
  else if m.nextq = m.head then MBOXSLOTS
  else ((m.nextq-m.head)%MBOXSLOTS).toNat

def contents (m : Mbox) : List Word :=
  (range m.count).map fun i => m.msg ((m.head.toNat+i)%MBOXSLOTS)

end Mbox

inductive MboxRun : Mbox → Prop where
  | new (w w' : BitVec 16) (now : Nat) : MboxRun (.new w w' now)
  | exec {m m' : Mbox} {a : MboxAct} : MboxRun m → m.exec a = some m' → MboxRun m'

def Mbox.level (m : Mbox) : SemId → Nat
  | .queuedMsg => m.posted.length-m.fetched.length
  | .freeMsg => MBOXSLOTS-(m.posted.length-m.fetched.length)

structure MboxInv (taken : Option SemId) (m : Mbox) : Prop where
  fetched : m.fetched = m.posted.take m.fetched.length
  room : m.posted.length ≤ m.fetched.length+MBOXSLOTS
  head : m.head = if m.posted.length = m.fetched.length then -1
    else ((m.fetched.length%MBOXSLOTS : Nat) : Int)
  nextq : m.nextq = ((m.posted.length%MBOXSLOTS : Nat) : Int)
  ring : Ring.Window MBOXSLOTS m.msg m.posted m.fetched.length
  tokens : ∀ k, (m.sems k).counter.toNat+(if taken = some k then 1 else 0) = m.level k
  fault : m.fault = none

structure MboxSame (m m' : Mbox) : Prop where
  head : m'.head = m.head
  nextq : m'.nextq = m.nextq
  msg : m'.msg = m.msg
  counter : ∀ k, (m'.sems k).counter = (m.sems k).counter
  posted : m'.posted = m.posted
  fetched : m'.fetched = m.fetched
  fault : m'.fault = m.fault

section steps

variable {m m' : Mbox} {taken : Option SemId}

open Mbox

lemma MboxInv.same (h : MboxInv taken m) (hs : MboxSame m m') : MboxInv taken m' := by
  have hlevel : ∀ k, m'.level k = m.level k := by
    intro k
    cases k <;> rw [level,level,hs.posted,hs.fetched]
  refine ⟨?_,?_,?_,?_,?_,?_,?_⟩
  · rw [hs.fetched,hs.posted]; exact h.fetched
  · rw [hs.fetched,hs.posted]; exact h.room
  · rw [hs.fetched,hs.posted,hs.head]; exact h.head
  · rw [hs.posted,hs.nextq]; exact h.nextq
  · rw [hs.fetched,hs.posted,hs.msg]; exact h.ring
  · intro k
    rw [hs.counter,hlevel]
    exact h.tokens k
  rw [hs.fault]; exact h.fault

lemma MboxInv.le (h : MboxInv taken m) : m.fetched.length ≤ m.posted.length := by
  have := congrArg length h.fetched
  rw [length_take] at this
  omega

lemma MboxInv.level_le (h : MboxInv taken m) (k : SemId) : m.level k ≤ 32 := by
  have := h.room
  have hN : MBOXSLOTS = 32 := rfl
  cases k <;> (simp only [level]; omega)

lemma MboxInv.recount {taken' : Option SemId} (h : MboxInv taken m) {sems : SemId → Sem}
    {tcs : Nat → MboxThread}
    (hc : ∀ k, (sems k).counter.toNat+(if taken' = some k then 1 else 0) = m.level k) :
    MboxInv taken' {m with sems := sems, tcs := tcs} :=
  ⟨h.fetched,h.room,h.head,h.nextq,h.ring,hc,h.fault⟩

variable {k : SemId} {waited : Word}

lemma MboxInv.signal (h : MboxInv (some k) m) : MboxInv none (m.semSignal k) := by
  have hk := h.tokens k
  have hle := h.level_le k
  rw [if_pos rfl] at hk
  have hsucc : ((m.sems k).counter+1).toNat = (m.sems k).counter.toNat+1 := by
    rw [toNat_add,show (1 : BitVec 16).toNat = 1 from rfl]
    omega
  have hupd : ∀ e : Sem, e.counter = (m.sems k).counter+1 → ∀ j,
      (update m.sems k e j).counter.toNat+(if none = some j then 1 else 0) = m.level j := by
    intro e he j
    rw [if_neg (by simp)]
    by_cases hj : j = k
    · subst hj
      rw [update_self,he,hsucc]
      exact hk
    have := h.tokens j
    rw [if_neg (by simpa using Ne.symm hj)] at this
    rw [update_of_ne hj]
    exact this
  unfold semSignal threadWakeup
  simp only
  split
  · exact h.recount (hupd _ rfl)
  exact h.recount (hupd _ rfl)

lemma MboxInv.take (h : MboxInv none m) (hpos : 0 < (m.sems k).counter) : MboxInv (some k)
    {m with sems := update m.sems k {m.sems k with counter := (m.sems k).counter-1}} := by
  refine h.recount fun j => ?_
  have hj := h.tokens j
  rw [if_neg (by simp)] at hj
  by_cases hjk : j = k
  · subst hjk
    have hp : 0 < (m.sems j).counter.toNat := hpos
    have := (m.sems j).counter.isLt
    rw [update_self,if_pos rfl,toNat_sub,show (1 : BitVec 16).toNat = 1 from rfl]
    omega
  rw [update_of_ne hjk,if_neg (by simpa using Ne.symm hjk)]
  exact hj

lemma MboxInv.post (h : MboxInv (some .freeMsg) m) (msg : Word) (full : MboxFault) :
    MboxInv none (m.postRest msg full) := by
  have hle := h.le
  have hN : MBOXSLOTS = 32 := rfl
  have hfree := h.tokens .freeMsg
  have hqueued := h.tokens .queuedMsg
  rw [if_pos rfl,level] at hfree
  rw [if_neg (by decide),level] at hqueued
  have hroom : m.posted.length < m.fetched.length+32 := by omega
  have hne : m.nextq ≠ m.head := by
    rw [h.nextq,h.head,hN]
    split <;> omega
  have hlen : (m.posted++[msg]).length = m.posted.length+1 := by simp
  rw [postRest,if_neg hne,putMsg]
  refine MboxInv.signal ⟨?_,?_,?_,?_,?_,?_,h.fault⟩
  · exact h.fetched.trans (take_append_of_le_length hle).symm
  · dsimp only
    rw [hlen,hN]
    omega
  · dsimp only
    rw [hlen,h.head,h.nextq,hN]
    split <;> split <;> omega
  · dsimp only
    rw [hlen,h.nextq,hN]
    omega
  · have hslot : m.nextq.toNat = m.posted.length%MBOXSLOTS := by
      rw [h.nextq]
      rfl
    dsimp only
    rw [hslot]
    exact h.ring.push hroom msg
  rintro (_ | _)
  · change (m.sems .queuedMsg).counter.toNat+1 = (m.posted++[msg]).length-m.fetched.length
    omega
  change (m.sems .freeMsg).counter.toNat+0 = MBOXSLOTS-((m.posted++[msg]).length-m.fetched.length)
  omega

lemma MboxInv.fetch (h : MboxInv (some .queuedMsg) m) (hw : waited ≠ SYS_ARCH_TIMEOUT) :
    MboxInv none (m.fetchRest waited) := by
  have hN : MBOXSLOTS = 32 := rfl
  have hfree := h.tokens .freeMsg
  have hqueued := h.tokens .queuedMsg
  rw [if_neg (by decide),level] at hfree
  rw [if_pos rfl,level] at hqueued
  have hroom := h.room
  have hlt : m.fetched.length < m.posted.length := by omega
  have hhead : m.head = ((m.fetched.length%32 : Nat) : Int) := by rw [h.head,if_neg (by omega),hN]
  have hne : m.head ≠ -1 := by
    rw [hhead]
    omega
  have hlen : (m.fetched++[m.msg m.head.toNat]).length = m.fetched.length+1 := by simp
  simp only [fetchRest,if_neg hw,if_neg hne]
  refine MboxInv.signal ⟨?_,?_,?_,h.nextq,?_,?_,h.fault⟩
  · have hslot : m.head.toNat = m.fetched.length%MBOXSLOTS := by
      rw [hhead]
      rfl
    dsimp only
    rw [hlen,h.ring.take hlt,← h.fetched,hslot]
  · dsimp only
    rw [hlen]
    omega
  · dsimp only
    rw [hlen,hhead,h.nextq,hN]
    split <;> split <;> omega
  · dsimp only
    rw [hlen]
    exact h.ring.pop
  rintro (_ | _)
  · change (m.sems .queuedMsg).counter.toNat+0 =
      m.posted.length-(m.fetched++[m.msg m.head.toNat]).length
    omega
  change (m.sems .freeMsg).counter.toNat+1 =
    MBOXSLOTS-(m.posted.length-(m.fetched++[m.msg m.head.toNat]).length)
  omega

lemma MboxSame.setPc (m : Mbox) (pc : MboxPc) : MboxSame m (m.setPc pc) :=
  ⟨rfl,rfl,rfl,fun _ => rfl,rfl,rfl,rfl⟩

lemma MboxInv.semWait (h : MboxInv none m) {op : MboxOp} (hw : waited ≠ SYS_ARCH_TIMEOUT) :
    MboxInv none (m.semWait op waited) := by
  have hidle : ∀ m : Mbox, MboxSame m (m.setPc .idle) := fun m => .setPc m .idle
  unfold Mbox.semWait
  simp only
  by_cases hloop : op.tmMsec = 0 ∨ waited < op.tmMsec
  · rw [if_pos hloop]
    by_cases hpos : 0 < (m.sems op.sem).counter
    · rw [if_pos hpos]
      have ht := (h.take hpos).same (hidle _)
      cases op with
      | post msg => exact ht.post msg .assertion
      | trypost msg => exact ht.post msg .errMem
      | fetch tm => exact ht.fetch hw
    rw [if_neg hpos]
    split
    · rename_i hnow
      cases op with
      | post => exact absurd (show (0 : Word) = SYS_ARCH_NOWAIT from hnow) (by decide)
      | trypost => exact absurd (show (0 : Word) = SYS_ARCH_NOWAIT from hnow) (by decide)
      | fetch tm => exact h.same (hidle m)
    refine h.recount fun j => ?_
    rw [← h.tokens j]
    by_cases hj : j = op.sem
    · subst hj
      rw [update_self]
    rw [update_of_ne hj]
  rw [if_neg hloop]
  cases op with
  | post => exact absurd (Or.inl rfl) hloop
  | trypost => exact absurd (Or.inl rfl) hloop
  | fetch tm => exact h.same (hidle m)

lemma semSignal_pc (m : Mbox) (k : SemId) (i : Nat) :
    ((m.semSignal k).tcs i).pc = (m.tcs i).pc := by
  unfold semSignal threadWakeup
  simp only
  split
  · simp only
    split <;> rfl
  rfl

lemma finish_pc (m : Mbox) (op : MboxOp) (waited : Word) (i : Nat) :
    ((m.finish op waited).tcs i).pc = if i = m.cur then .idle else (m.tcs i).pc := by
  have hidle : ((m.setPc .idle).tcs i).pc = if i = m.cur then .idle else (m.tcs i).pc := by
    by_cases hi : i = m.cur
    · simp [setPc,hi]
    simp [setPc,hi]
  rw [← hidle]
  cases op <;> simp only [finish,postRest,putMsg,fetchRest]
  case fetch =>
    split
    · rfl
    split
    · rfl
    exact semSignal_pc ..
  all_goals
    split
    · rfl
    exact semSignal_pc ..

/-- The times that a thread holds are even, as those of the clock are. -/
def MboxPc.Even : MboxPc → Prop
  | .idle => True
  | .sem _ waited => waited.toNat%2 = 0
  | .test _ f _ | .away _ f => f.waited.toNat%2 = 0 ∧ f.a.toNat%2 = 0

def Mbox.Even (m : Mbox) : Prop := ∀ i, (m.tcs i).pc.Even

lemma Mbox.msec_even (m : Mbox) : m.msec.toNat%2 = 0 := by
  rw [msec,toNat_ofNat]
  omega

lemma Mbox.Even.setCur (h : m.Even) {t : MboxThread} (ht : t.pc.Even) (i : Nat) :
    (update m.tcs m.cur t i).pc.Even := by
  by_cases hi : i = m.cur
  · rw [hi,update_self]
    exact ht
  rw [update_of_ne hi]
  exact h i

lemma Mbox.Even.finish (h : m.Even) (op : MboxOp) (waited : Word) : (m.finish op waited).Even := by
  intro i
  rw [finish_pc]
  split
  · trivial
  exact h i

lemma Mbox.Even.semWait (h : m.Even) (op : MboxOp) (hw : waited.toNat%2 = 0) :
    (m.semWait op waited).Even := by
  unfold Mbox.semWait
  simp only
  split
  · split
    · refine Mbox.Even.finish ?_ op waited
      exact h
    split
    · exact h.finish op _
    exact h.setCur ⟨hw,m.msec_even⟩
  exact h.finish op _

lemma Mbox.Even.exec (h : m.Even) {a : MboxAct} (hs : m.exec a = some m') : m'.Even := by
  have hcur := h m.cur
  cases a with
  | tick =>
    cases hs
    exact h
  | call op =>
    simp only [Mbox.exec] at hs
    split at hs
    · cases hs
      exact h.setCur rfl
    cases hs
  | run =>
    simp only [Mbox.exec] at hs
    split at hs <;> rename_i hpc <;> rw [hpc] at hcur
    · cases hs
      exact h.semWait _ hcur
    · split at hs
      · cases hs
      cases hs
      refine h.setCur ?_
      have := m.msec_even
      obtain ⟨h1,h2⟩ := hcur
      simp only [MboxPc.Even,toNat_add,toNat_sub]
      omega
    · cases hs
      exact h.setCur hcur
    cases hs
  | yield i =>
    simp only [Mbox.exec] at hs
    split at hs
    · split at hs
      · cases hs
        exact h
      cases hs
    · rename_i hpc
      rw [hpc] at hcur
      split at hs
      · cases hs
        exact h.setCur hcur
      cases hs
    cases hs

lemma MboxInv.exec (h : MboxInv none m) (he : m.Even) {a : MboxAct} (hs : m.exec a = some m') :
    MboxInv none m' := by
  cases a with
  | tick =>
    cases hs
    exact h.same ⟨rfl,rfl,rfl,fun _ => rfl,rfl,rfl,rfl⟩
  | call op =>
    simp only [Mbox.exec] at hs
    split at hs
    · cases hs
      exact h.same (.setPc m _)
    cases hs
  | run =>
    simp only [Mbox.exec] at hs
    split at hs
    · rename_i op waited hpc
      cases hs
      refine h.semWait ?_
      rintro rfl
      have hodd := he m.cur
      rw [hpc] at hodd
      exact absurd hodd (by simp [MboxPc.Even,SYS_ARCH_TIMEOUT])
    · split at hs
      · cases hs
      cases hs
      exact h.same ⟨rfl,rfl,rfl,fun _ => rfl,rfl,rfl,rfl⟩
    · cases hs
      exact h.same (.setPc m _)
    cases hs
  | yield i =>
    simp only [Mbox.exec] at hs
    split at hs
    · split at hs
      · cases hs
        exact h.same ⟨rfl,rfl,rfl,fun _ => rfl,rfl,rfl,rfl⟩
      cases hs
    · split at hs
      · cases hs
        exact h.same ⟨rfl,rfl,rfl,fun _ => rfl,rfl,rfl,rfl⟩
      cases hs
    cases hs

lemma MboxRun.inv (h : MboxRun m) : MboxInv none m ∧ m.Even := by
  induction h with
  | new w w' now =>
    refine ⟨⟨rfl,Nat.zero_le _,rfl,rfl,Ring.Window.nil,?_,rfl⟩,fun _ => trivial⟩
    rintro (_ | _) <;> rfl
  | exec _ hs ih => exact ⟨ih.1.exec ih.2 hs,ih.2.exec hs⟩

lemma MboxInv.count (h : MboxInv none m) : m.count = m.posted.length-m.fetched.length := by
  have hle := h.le
  have hroom := h.room
  have hN : MBOXSLOTS = 32 := rfl
  have hhead := h.head
  rw [Mbox.count,h.nextq,hN]
  by_cases hn : m.posted.length = m.fetched.length
  · rw [if_pos hn] at hhead
    rw [if_pos hhead]
    omega
  rw [if_neg hn,hN] at hhead
  rw [hhead,if_neg (by omega)]
  split <;> omega

lemma MboxInv.contents (h : MboxInv none m) : m.contents = m.posted.drop m.fetched.length := by
  have hN : MBOXSLOTS = 32 := rfl
  refine ext_getElem? fun i => ?_
  rw [Mbox.contents,getElem?_map,h.count,getElem?_drop]
  by_cases hi : i < m.posted.length-m.fetched.length
  · have hlt : m.fetched.length+i < m.posted.length := by omega
    have hget := List.getElem?_eq_getElem hlt
    have hcell := h.ring _ _ (by omega) hget
    have hhead : m.head.toNat = m.fetched.length%MBOXSLOTS := by
      rw [h.head,if_neg (by omega)]
      rfl
    rw [getElem?_range hi,map_some,hget,hhead,← hcell,Nat.mod_add_mod]
  rw [List.getElem?_eq_none (by simpa using hi),List.getElem?_eq_none (by omega)]
  rfl

end steps

/-- The mailbox is a queue and nothing fails. -/
theorem mbox_fifo {m : Mbox} (h : MboxRun m) : m.posted = m.fetched++m.contents ∧
    m.contents.length = m.count ∧ (m.sems .queuedMsg).counter.toNat = m.count ∧
    (m.sems .freeMsg).counter.toNat+m.count = MBOXSLOTS ∧ m.fault = none := by
  have hi := h.inv.1
  have hroom := hi.room
  have hcount := hi.count
  have hqueued := hi.tokens .queuedMsg
  have hfree := hi.tokens .freeMsg
  rw [if_neg (by simp),Mbox.level] at hqueued
  rw [if_neg (by simp),Mbox.level] at hfree
  refine ⟨?_,by simp [Mbox.contents],by omega,by omega,hi.fault⟩
  calc m.posted = m.posted.take m.fetched.length++m.posted.drop m.fetched.length :=
        (take_append_drop _ _).symm
    _ = m.fetched++m.contents := by rw [← hi.fetched,hi.contents]

def Mbox.execAll : List MboxAct → Mbox → Option Mbox
  | [],m => some m
  | a :: l,m => do
    let m ← m.exec a
    execAll l m

lemma MboxRun.execAll {m' : Mbox} (l : List MboxAct) :
    ∀ {m : Mbox}, MboxRun m → Mbox.execAll l m = some m' → MboxRun m' := by
  induction l with
  | nil =>
    intro m h hs
    cases hs
    exact h
  | cons a l ih =>
    intro m h hs
    obtain ⟨m1,h1,hs⟩ := of_bind hs
    exact ih (h.exec h1) hs

/-- Thread 0 waits for a message, the clock ticks, thread 1 posts two, and thread 0 fetches one. -/
def fetchLate : List MboxAct :=
  [.call (.fetch 0),.run,.yield 1,.tick,.call (.post 7),.run,.call (.trypost 8),.run,.yield 0,
    .run,.run,.run]

theorem mbox_fifo_woken : ∃ m : Mbox, MboxRun m ∧ m.fetched = [7] ∧ m.contents = [8] ∧
    m.posted = m.fetched++m.contents := by
  have hrun : (Mbox.execAll fetchLate (.new 0 0 0)).map (fun m =>
      decide (m.fetched = [7] ∧ m.contents = [8])) = some true := by decide
  obtain ⟨m,hm,hf,hc⟩ := of_map_decide hrun
  have hr := (MboxRun.new 0 0 0).execAll _ hm
  exact ⟨m,hr,hf,hc,(mbox_fifo hr).1⟩

section pools

/-- The free list of an array of `n` entries: those with the `freed` flag, each once. -/
structure Pool (n : Nat) where
  free : List Nat
  freed : Nat → Bool
  nodup : free.Nodup
  mem : ∀ i, i ∈ free ↔ freed i

/-- As `sys_init` leaves it. -/
def Pool.init (n : Nat) : Pool n :=
  ⟨(range n).reverse,fun i => decide (i < n),by simp [nodup_range],by simp⟩

/-- `sys_sem_new`; `none` is the null handle. -/
def Pool.take {n : Nat} (p : Pool n) : Option Nat × Pool n :=
  match h : p.free with
  | [] => (none,p)
  | i :: l => (some i,⟨l,update p.freed i false,by grind [p.nodup],by grind [p.nodup,p.mem]⟩)

lemma Pool.nodup_give {n i : Nat} (p : Pool n) (h : p.freed i = false) : (i :: p.free).Nodup := by
  grind [p.nodup,p.mem]

lemma Pool.mem_give {n : Nat} (p : Pool n) (i j : Nat) :
    j ∈ i :: p.free ↔ update p.freed i true j := by
  grind [p.mem]

/-- `sys_sem_free`. The null handle is an index outside the array. -/
def Pool.give {n : Nat} (p : Pool n) : Option Nat → Option (Pool n)
  | none => none
  | some i =>
    if h : i < n ∧ p.freed i = false then
      some ⟨i :: p.free,update p.freed i true,p.nodup_give h.2,p.mem_give i⟩
    else none

structure Pools where
  sems : Pool 256
  mboxes : Pool 128
  queuedMsg : Nat → Option Nat
  freeMsg : Nat → Option Nat

namespace Pools

def sysMboxFree (m : Pools) (mbox : Nat) : Option Pools := do
  let sems ← m.sems.give (m.queuedMsg mbox)
  let sems ← sems.give (m.freeMsg mbox)
  let mboxes ← m.mboxes.give (some mbox)
  return {m with sems := sems, mboxes := mboxes}

def sysMboxNew (m : Pools) (size : Int) : Option (Option Nat × Pools) :=
  if MBOXSLOTS ≤ size then none
  else match m.mboxes.take with
  | (none,_) => some (none,m)
  | (some i,mboxes) =>
    let (queued,sems) := m.sems.take
    let (free,sems) := sems.take
    let m := ⟨sems,mboxes,update m.queuedMsg i queued,update m.freeMsg i free⟩
    if queued = none ∨ free = none then (m.sysMboxFree i).map (none,·) else some (some i,m)

/-- No index is outside its array, and without a mailbox the lists are as before. -/
def CleanNew (m : Pools) (size : Int) : Prop :=
  ∃ r m', m.sysMboxNew size = some (r,m') ∧ (r = none →
    (∀ i, i ∈ m'.sems.free ↔ i ∈ m.sems.free) ∧ ∀ i, i ∈ m'.mboxes.free ↔ i ∈ m.mboxes.free)

variable {n i : Nat} {p : Pool n} {l : List Nat}

lemma count_free (p : Pool n) (i : Nat) : p.free.count i = 1 ↔ p.freed i := by
  have hle := nodup_iff_count_le_one.mp p.nodup i
  rw [← p.mem,← count_pos_iff]
  omega

lemma take_nil (h : p.free = []) : p.take = (none,p) := by
  unfold Pool.take
  split <;> simp_all

lemma take_cons (h : p.free = i :: l) : ∃ q, p.take = (some i,q) ∧ q.free = l := by
  unfold Pool.take
  split <;> simp_all

lemma sysMboxFree_null {m : Pools} (h : m.freeMsg i = none) : m.sysMboxFree i = none := by
  simp [sysMboxFree,h,Pool.give]

theorem cleanNew_iff (m : Pools) (size : Int) : (∀ i, (m.sems.free.count i = 1 ↔ m.sems.freed i) ∧
    (m.mboxes.free.count i = 1 ↔ m.mboxes.freed i)) ∧
    (m.CleanNew size ↔ size < MBOXSLOTS ∧ (m.mboxes.free = [] ∨ 2 ≤ m.sems.free.length)) := by
  refine ⟨fun i => ⟨count_free _ i,count_free _ i⟩,?_⟩
  unfold CleanNew sysMboxNew
  by_cases hsize : MBOXSLOTS ≤ size
  · simp [hsize]
  rw [if_neg hsize]
  cases hm : m.mboxes.free with
  | nil => simp [take_nil hm,hm,not_le.mp hsize]
  | cons i l =>
    obtain ⟨mb,hmb,_⟩ := take_cons hm
    cases hs : m.sems.free with
    | nil => simp [hmb,take_nil hs,sysMboxFree_null]
    | cons j t =>
      obtain ⟨s1,hs1,ht⟩ := take_cons hs
      cases t with
      | nil => simp [hmb,hs1,take_nil ht,sysMboxFree_null]
      | cons k t =>
        obtain ⟨s2,hs2,_⟩ := take_cons ht
        simp [hmb,hs1,hs2,not_le.mp hsize]

theorem sems_exhausted : ¬CleanNew ⟨⟨[],fun _ => false,by simp,by simp⟩,
    ⟨[0],(· == 0),by simp,by simp⟩,fun _ => none,fun _ => none⟩ 1 := by
  rintro ⟨r,m,h,_⟩
  cases h

end Pools

end pools

end Lwip
end KludgeOS
