import KludgeOS.Interleaving
import KludgeOS.Mmu

/-!
TLB shootdown (`kern/pmap.c`, `kern/trap.c`) on several processors. A `T_TLBFLUSH` request carries
no address; whoever gets one flushes the page in `tlb_va`.
-/

namespace KludgeOS.Smp
open Interleaving
open Function (update)
open Option Function

/-- Who asks for a flush: `page_remove`, `page_insert` with the entry it stores, or `pgdir_walk`
with a new page table. -/
inductive Kind where
  | remove
  | insert : (w : Nat) → Kind
  | table
  deriving DecidableEq

/-- A request to flush page `va`, for an edit of address space `space`. -/
structure Shoot where
  space : Nat
  va : Nat
  kind : Kind
  deriving DecidableEq

/-- The statements from `spin_lock(&tlb_lock)` to `spin_unlock(&tlb_lock)`. -/
inductive Stage where
  | lock | send | edit | flushOne | setVa | flushTwo | unlock
  deriving DecidableEq

/-- Where a processor is. `flush…` is the handler of `T_TLBFLUSH`. -/
inductive FlushPc where
  | user | kern
  | flushLock | flushRead | flushUnlock
  | walk : (p va f : Nat) → FlushPc
  | insertTest : (p va f : Nat) → FlushPc
  | insertAssert : (p va f : Nat) → FlushPc
  | lookup : (p va : Nat) → Option Nat → FlushPc
  | clear : (p va : Nat) → Option Nat → FlushPc
  | shoot : Stage → Shoot → Option Nat → FlushPc
  deriving DecidableEq

/-- `va` is a page number, `tlb` what a processor's TLB holds of it; `pending` counts the requests
it has not accepted. -/
structure Flush (ι : Type) where
  tlbLock : Option ι
  tlbVa : Nat
  pte : Nat → Nat → Option Nat
  tables : Nat → Nat → Bool
  space : ι → Option Nat
  tlb : ι → List (Nat × Nat)
  pending : ι → Nat
  pc : ι → FlushPc

/-- What a processor or the memory unit can do next. -/
inductive FlushAct (ι : Type) where
  | tick : ι → FlushAct ι
  | fill : ι → (va : Nat) → FlushAct ι
  | accept : ι → FlushAct ι
  | trap : ι → FlushAct ι
  | ret : ι → FlushAct ι
  | switch : ι → (p : Nat) → FlushAct ι
  | remove : ι → (p va : Nat) → FlushAct ι
  | insert : ι → (p va f : Nat) → FlushAct ι
  | noMem : ι → FlushAct ι

namespace Flush

variable {ι : Type} [DecidableEq ι]

def go (s : Flush ι) (c : ι) (pc : FlushPc) : Flush ι := {s with pc := update s.pc c pc}

def invlpg (s : Flush ι) (c : ι) (va : Nat) : Flush ι :=
  {s with tlb := update s.tlb c ((s.tlb c).filter fun e => e.1 ≠ va)}

def setPte (s : Flush ι) (p va : Nat) (o : Option Nat) : Flush ι :=
  {s with pte := update s.pte p (update (s.pte p) va o)}

def setTable (s : Flush ι) (p d : Nat) : Flush ι :=
  {s with tables := update s.tables p (update (s.tables p) d true)}

def broadcast (s : Flush ι) (c : ι) : Flush ι :=
  {s with pending := fun d => if d = c then s.pending d else s.pending d+1}

def edit (s : Flush ι) (r : Shoot) : Flush ι :=
  match r.kind with
  | .remove => s
  | .insert f => s.setPte r.space r.va (some f)
  | .table => s.setTable r.space (r.va/1024)

def resume (r : Shoot) : Option Nat → FlushPc
  | none => .kern
  | some f =>
    match r.kind with
    | .table => .insertTest r.space r.va f
    | _ => .insertAssert r.space r.va f

/-- The next step of `c` in a shootdown. -/
def shootNext (c : ι) (s : Flush ι) (r : Shoot) (k : Option Nat) : Stage → Option (Flush ι)
  | .lock =>
    if s.tlbLock = none then some ({s with tlbLock := some c}.go c (.shoot .send r k)) else none
  | .send => some ((s.broadcast c).go c (.shoot .edit r k))
  | .edit => some ((s.edit r).go c (.shoot .flushOne r k))
  | .flushOne =>
    some ((if r.kind = .remove ∧ (s.space c = none ∨ s.space c = some r.space) then
      s.invlpg c r.va else s).go c (.shoot .setVa r k))
  | .setVa => some ({s with tlbVa := r.va}.go c (.shoot .flushTwo r k))
  | .flushTwo => do
    -- `curenv->env_pgdir`
    let _ ← s.space c
    return (s.invlpg c r.va).go c (.shoot .unlock r k)
  | .unlock => some ({s with tlbLock := none}.go c (resume r k))

/-- The next step of `c` in the kernel. A failed assertion stops the machine. -/
def tick (c : ι) (s : Flush ι) : Option (Flush ι) :=
  match s.pc c with
  | .user | .kern => none
  | .flushLock =>
    if s.tlbLock = none then some ({s with tlbLock := some c}.go c .flushRead) else none
  | .flushRead =>
    if s.tlbVa ≠ 0 then some ((s.invlpg c s.tlbVa).go c .flushUnlock) else none
  | .flushUnlock => some ({s with tlbLock := none}.go c .user)
  | .walk p va f =>
    some (s.go c (if s.tables p (va/1024) then .insertTest p va f
      else .shoot .lock ⟨p,va,.table⟩ (some f)))
  | .insertTest p va f =>
    some (s.go c (if s.pte p va = none then .insertAssert p va f else .lookup p va (some f)))
  | .insertAssert p va f =>
    if s.pte p va = none then some (s.go c (.shoot .lock ⟨p,va,.insert f⟩ none)) else none
  | .lookup p va k =>
    some (s.go c (if s.pte p va = none then resume ⟨p,va,.remove⟩ k else .clear p va k))
  | .clear p va k => some ((s.setPte p va none).go c (.shoot .lock ⟨p,va,.remove⟩ k))
  | .shoot st r k => shootNext c s r k st

def next : FlushAct ι → Flush ι → Option (Flush ι)
  | .tick c,s => tick c s
  | .fill c va,s => do
    let p ← s.space c
    let f ← s.pte p va
    return {s with tlb := update s.tlb c ((va,f) :: s.tlb c)}
  | .accept c,s =>
    if s.pc c = .user ∧ 0 < s.pending c then
      some ({s with pending := update s.pending c (s.pending c-1)}.go c .flushLock)
    else none
  | .trap c,s => if s.pc c = .user then some (s.go c .kern) else none
  | .ret c,s => if s.pc c = .kern ∧ s.space c ≠ none then some (s.go c .user) else none
  | .switch c p,s =>
    if s.pc c = .kern then
      some {s with space := update s.space c (some p), tlb := update s.tlb c []}
    else none
  | .remove c p va,s => if s.pc c = .kern then some (s.go c (.lookup p va none)) else none
  | .insert c p va f,s => if s.pc c = .kern then some (s.go c (.walk p va f)) else none
  | .noMem c,s =>
    match s.pc c with
    | .walk p va _ => if s.tables p (va/1024) then none else some (s.go c .kern)
    | _ => none

structure Boot (s : Flush ι) : Prop where
  tlbLock : s.tlbLock = none
  tlb : ∀ c, s.tlb c = []
  pending : ∀ c, s.pending c = 0
  pc : ∀ c, s.pc c = .kern

end Flush

namespace FlushPc

/-- In the middle of a `page_remove`, or of a `page_insert` that has stored its entry. -/
def Editing (p va : Nat) : FlushPc → Prop
  | .shoot st r _ => r.space = p ∧ r.va = va ∧
    (r.kind = .remove ∨ (∃ w, r.kind = .insert w) ∧ st ≠ .lock ∧ st ≠ .send ∧ st ≠ .edit)
  | _ => False

/-- `page_remove` has cleared the entry and sent nothing yet. -/
def Owes (p va : Nat) : FlushPc → Prop
  | .shoot .lock r _ | .shoot .send r _ => r.space = p ∧ r.va = va ∧ r.kind = .remove
  | _ => False

def Owns (p va : Nat) : FlushPc → Prop
  | .shoot .edit r _ => r.space = p ∧ r.va = va ∧ r.kind = .remove
  | .shoot .flushOne r _ | .shoot .setVa r _ | .shoot .flushTwo r _ =>
    r.space = p ∧ r.va = va ∧ r.kind ≠ .table
  | _ => False

def aim : FlushPc → Option Nat
  | .shoot .send r _ | .shoot .edit r _ | .shoot .flushOne r _ | .shoot .setVa r _ => some r.va
  | _ => none

def setTo : FlushPc → Option Nat
  | .shoot .flushTwo r _ | .shoot .unlock r _ => some r.va
  | _ => none

def Locks : FlushPc → Prop
  | .flushRead | .flushUnlock => True
  | .shoot st _ _ => st ≠ .lock
  | _ => False

def Sent : FlushPc → Prop
  | .shoot st _ _ => st ≠ .lock ∧ st ≠ .send
  | _ => False

def Flushes : FlushPc → Prop
  | .flushLock | .flushRead => True
  | _ => False

instance (pc : FlushPc) : Decidable pc.Flushes :=
  decidable_of_iff (pc = .flushLock ∨ pc = .flushRead) (by cases pc <;> simp [Flushes])

variable {p va : Nat} {pc a : FlushPc}

open FlushPc Flush

lemma Owes.editing (h : pc.Owes p va) : pc.Editing p va := by
  cases pc with
  | shoot st r k =>
    cases st with
    | lock | send => exact ⟨h.1,h.2.1,.inl h.2.2⟩
    | _ => exact h.elim
  | _ => exact h.elim

lemma Owns.editing (h : pc.Owns p va) : pc.Editing p va := by
  cases pc with
  | shoot st r k =>
    have split : r.kind ≠ .table → r.kind = .remove ∨ ∃ w, r.kind = .insert w := by
      intro hk
      cases hr : r.kind with
      | remove => exact .inl rfl
      | insert w => exact .inr ⟨w,rfl⟩
      | table => exact absurd hr hk
    cases st with
    | edit => exact ⟨h.1,h.2.1,.inl h.2.2⟩
    | flushOne | setVa | flushTwo =>
      exact ⟨h.1,h.2.1,(split h.2.2).imp id fun hw => ⟨hw,by simp,by simp,by simp⟩⟩
    | _ => exact h.elim
  | _ => exact h.elim

structure Same (a b : FlushPc) : Prop where
  owes : ∀ p va, b.Owes p va ↔ a.Owes p va
  owns : ∀ p va, b.Owns p va ↔ a.Owns p va
  aim : b.aim = a.aim
  setTo : b.setTo = a.setTo
  locks : b.Locks ↔ a.Locks
  sent : b.Sent ↔ a.Sent
  flushes : b.Flushes ↔ a.Flushes

lemma Same.refl (a : FlushPc) : Same a a := ⟨fun _ _ => .rfl,fun _ _ => .rfl,rfl,rfl,.rfl,.rfl,.rfl⟩

def Plain : FlushPc → Prop
  | .flushLock | .flushRead | .flushUnlock => False
  | .shoot st r _ => st = .lock ∧ r.kind ≠ .remove
  | _ => True

lemma Plain.same_kern (h : a.Plain) : Same .kern a := by
  cases a with
  | flushLock | flushRead | flushUnlock => exact h.elim
  | shoot st r k =>
    obtain ⟨rfl,hk⟩ := h
    refine ⟨fun p va => ⟨fun ho => hk ho.2.2,fun ho => ho.elim⟩,fun _ _ => .rfl,rfl,rfl,?_,?_,.rfl⟩
    · simp [Locks]
    simp [Sent]
  | _ => exact ⟨fun _ _ => Iff.rfl,fun _ _ => Iff.rfl,rfl,rfl,Iff.rfl,Iff.rfl,Iff.rfl⟩

lemma Plain.same {b : FlushPc} (ha : a.Plain) (hb : b.Plain) : a.Same b := by
  have h1 := ha.same_kern
  have h2 := hb.same_kern
  exact ⟨fun p va => (h2.owes p va).trans (h1.owes p va).symm,fun p va => (h2.owns p va).trans
    (h1.owns p va).symm,h2.aim.trans h1.aim.symm,h2.setTo.trans h1.setTo.symm,h2.locks.trans
    h1.locks.symm,h2.sent.trans h1.sent.symm,h2.flushes.trans h1.flushes.symm⟩

end FlushPc

namespace Flush

variable {ι : Type}

def Undelivered (s : Flush ι) (c : ι) : Prop := 0 < s.pending c ∨ (s.pc c).Flushes

def Coherent (s : Flush ι) : Prop :=
  (∀ c, ¬s.Undelivered c) → ∀ c p va w, s.space c = some p → (va,w) ∈ s.tlb c →
    s.pte p va = some w ∨ ∃ d, (s.pc d).Editing p va

def Careful (a : FlushAct ι) (s : Flush ι) : Prop :=
  ∀ c r k, a = .tick c → s.pc c = .shoot .lock r k → (∀ d, ¬s.Undelivered d) ∨ s.tlbVa = r.va

/-- The requests that have not been acted on are for `va`. -/
def Aimed (s : Flush ι) (va : Nat) : Prop :=
  (∃ d, (s.pc d).aim = some va) ∨ (∀ d, (s.pc d).aim = none) ∧ s.tlbVa = va

/-- Why the TLB of `c` may hold an entry of page `va` that has been removed from `p`. -/
def Excused (s : Flush ι) (c : ι) (p va : Nat) : Prop :=
  (∃ d, (s.pc d).Owes p va) ∨ (s.pc c).Owns p va ∨ s.Undelivered c ∧ s.Aimed va

structure Inv (s : Flush ι) : Prop where
  lock : ∀ d, (s.pc d).Locks → s.tlbLock = some d
  set : ∀ d va, (s.pc d).setTo = some va → s.tlbVa = va
  sent : ∀ d, (s.pc d).Sent → ∀ c, c ≠ d → s.Undelivered c
  stale : ∀ c p va w, s.space c = some p → (va,w) ∈ s.tlb c → s.pte p va = some w ∨ s.Excused c p va

variable {s t : Flush ι} {c d : ι}

lemma Boot.inv (h : Boot s) : Inv s := by
  refine ⟨fun d hd => ?_,fun d va hd => ?_,fun d hd => ?_,fun c p va w _ hw => ?_⟩
  · rw [h.pc] at hd
    exact hd.elim
  · rw [h.pc] at hd
    cases hd
  · rw [h.pc] at hd
    exact hd.elim
  rw [h.tlb] at hw
  simp at hw

lemma Inv.coherent (h : Inv s) : Coherent s := by
  intro hq c p va w hp hw
  obtain hok | ⟨d,hd⟩ | hown | ⟨hu,_⟩ := h.stale c p va w hp hw
  · exact .inl hok
  · exact .inr ⟨d,hd.editing⟩
  · exact .inr ⟨c,hown.editing⟩
  exact absurd hu (hq c)

lemma Inv.same (h : Inv s) (hpc : ∀ d, (s.pc d).Same (t.pc d)) (hlock : t.tlbLock = s.tlbLock)
    (hva : t.tlbVa = s.tlbVa) (hpend : t.pending = s.pending) (hstale : ∀ c p va w,
    t.space c = some p → (va,w) ∈ t.tlb c → t.pte p va = some w ∨ s.Excused c p va) : Inv t := by
  have hund : ∀ c, t.Undelivered c ↔ s.Undelivered c := by
    intro c
    simp only [Undelivered,hpend,(hpc c).flushes]
  have haim : ∀ va, t.Aimed va ↔ s.Aimed va := by
    intro va
    simp only [Aimed,fun d => (hpc d).aim,hva]
  refine ⟨fun d hd => ?_,fun d va hd => ?_,fun d hd c hc => ?_,fun c p va w hp hw => ?_⟩
  · rw [hlock]
    exact h.lock d ((hpc d).locks.mp hd)
  · rw [hva]
    exact h.set d va ((hpc d).setTo ▸ hd)
  · exact (hund c).mpr (h.sent d ((hpc d).sent.mp hd) c hc)
  refine (hstale c p va w hp hw).imp id ?_
  rintro (⟨d,hd⟩ | hown | ⟨hu,ha⟩)
  · exact .inl ⟨d,((hpc d).owes p va).mpr hd⟩
  · exact .inr (.inl (((hpc c).owns p va).mpr hown))
  exact .inr (.inr ⟨(hund c).mpr hu,(haim va).mpr ha⟩)

lemma Inv.alone (h : Inv s) (hc : s.tlbLock = some c) (hd : d ≠ c) : ¬(s.pc d).Locks := by
  intro hl
  exact hd (some.inj ((h.lock d hl).symm.trans hc))

lemma not_locks_aim {pc : FlushPc} (h : ¬pc.Locks) : pc.aim = none ∧ pc.setTo = none ∧ ¬pc.Sent := by
  cases pc with
  | shoot st r k =>
    have hst : st = .lock := by simpa [FlushPc.Locks] using h
    subst hst
    exact ⟨rfl,rfl,fun hs => hs.1 rfl⟩
  | _ => exact ⟨rfl,rfl,fun hs => hs⟩

lemma aimed_iff (hc : ∀ d, d ≠ c → ¬(s.pc d).Locks) (va : Nat) :
    s.Aimed va ↔ (s.pc c).aim.getD s.tlbVa = va := by
  have hno : ∀ d, d ≠ c → (s.pc d).aim = none := fun d hd => (not_locks_aim (hc d hd)).1
  constructor
  · rintro (⟨d,hd⟩ | ⟨hall,hva⟩)
    · by_cases hdc : d = c
      · subst hdc
        rw [hd]
        rfl
      rw [hno d hdc] at hd
      cases hd
    rw [hall c]
    exact hva
  intro hva
  cases ha : (s.pc c).aim with
  | some v =>
    rw [ha] at hva
    exact .inl ⟨c,by rw [ha]; exact congrArg some hva⟩
  | none =>
    rw [ha] at hva
    refine .inr ⟨fun d => ?_,hva⟩
    by_cases hdc : d = c
    · rw [hdc,ha]
    exact hno d hdc

lemma Inv.inside {a b : FlushPc} (h : Inv s) (hp : s.pc c = a) (hl : a.Locks) (hlock : t.tlbLock =
    s.tlbLock) (hself : t.pc c = b) (hoth : ∀ d, d ≠ c → t.pc d = s.pc d) (hset : ∀ va, b.setTo =
    some va → t.tlbVa = va) (hsent : b.Sent → ∀ d, d ≠ c → t.Undelivered d) (hstale : ∀ d p va w,
    t.space d = some p → (va,w) ∈ t.tlb d → t.pte p va = some w ∨ t.Excused d p va) : Inv t := by
  have hc := h.lock c (by rw [hp]; exact hl)
  have hno : ∀ d, d ≠ c → ¬(t.pc d).Locks := by
    intro d hd
    rw [hoth d hd]
    exact h.alone hc hd
  refine ⟨fun d hd => ?_,fun d va hd => ?_,fun d hd => ?_,hstale⟩
  · by_cases hdc : d = c
    · rw [hdc,hlock]
      exact hc
    exact absurd hd (hno d hdc)
  · by_cases hdc : d = c
    · rw [hdc,hself] at hd
      exact hset va hd
    rw [(not_locks_aim (hno d hdc)).2.1] at hd
    cases hd
  by_cases hdc : d = c
  · rw [hdc,hself] at hd
    rw [hdc]
    exact hsent hd
  exact absurd hd (not_locks_aim (hno d hdc)).2.2

lemma Excused.transfer {p va : Nat} (h : s.Excused d p va) (hoth : ∀ e, e ≠ c → t.pc e = s.pc e)
    (howes : (s.pc c).Owes p va → (t.pc c).Owes p va ∨ d ≠ c ∧ t.Undelivered d ∧ t.Aimed va ∨
    d = c ∧ (t.pc c).Owns p va) (howns : d = c → (s.pc c).Owns p va → (t.pc c).Owns p va)
    (hund : s.Undelivered d → s.Aimed va → t.Undelivered d ∧ t.Aimed va) : t.Excused d p va := by
  obtain ⟨e,he⟩ | hown | ⟨hu,ha⟩ := h
  · by_cases hec : e = c
    · subst hec
      obtain h1 | ⟨_,h1⟩ | ⟨h0,h1⟩ := howes he
      · exact .inl ⟨e,h1⟩
      · exact .inr (.inr h1)
      exact .inr (.inl (h0 ▸ h1))
    exact .inl ⟨e,by rw [hoth e hec]; exact he⟩
  · by_cases hdc : d = c
    · subst hdc
      exact .inr (.inl (howns rfl hown))
    exact .inr (.inl (by rw [hoth d hdc]; exact hown))
  exact .inr (.inr (hund hu ha))

lemma setPte_pte (p va q v : Nat) (o : Option Nat) :
    (s.setPte p va o).pte q v = if q = p ∧ v = va then o else s.pte q v := by
  by_cases hq : q = p
  · subst hq
    by_cases hv : v = va
    · simp [setPte,hv]
    simp [setPte,hv]
  simp [setPte,hq]

section step

variable [DecidableEq ι]

lemma go_self (pc : FlushPc) : (s.go c pc).pc c = pc := update_self _ _ _

variable {pc a b : FlushPc} {p va : Nat} {k : Option Nat} {r : Shoot} {st st' : Stage}

lemma go_other (hd : d ≠ c) : (s.go c pc).pc d = s.pc d := update_of_ne hd _ _

lemma same_go (hp : s.pc c = a) (hab : a.Same b) (d : ι) : (s.pc d).Same ((s.go c b).pc d) := by
  by_cases hd : d = c
  · subst hd
    rw [go_self,hp]
    exact hab
  rw [go_other hd]
  exact .refl _

lemma Inv.goes (h : Inv s) (hp : s.pc c = a) (ha : a.Plain) (hb : b.Plain) : Inv (s.go c b) :=
  h.same (same_go hp (ha.same hb)) rfl rfl rfl h.stale

lemma Undelivered.go (h : s.Undelivered d) (hpend : t.pending d = s.pending d) (hpc : t.pc = s.pc)
    (hc : ¬(s.pc c).Flushes) : (t.go c pc).Undelivered d := by
  obtain h | h := h
  · exact .inl (by simpa [Flush.go,hpend] using h)
  have hdc : d ≠ c := by
    rintro rfl
    exact hc h
  refine .inr ?_
  rw [go_other hdc,hpc]
  exact h

lemma Inv.clear (h : Inv s) (hp : s.pc c = .clear p va k) :
    Inv ((s.setPte p va none).go c (.shoot .lock ⟨p,va,.remove⟩ k)) := by
  have hfl : ¬(s.pc c).Flushes := by simp [hp,FlushPc.Flushes]
  refine ⟨fun d hd => ?_,fun d v hd => ?_,fun d hd e he => ?_,fun d q v w hsp hw => ?_⟩
  · by_cases hdc : d = c
    · rw [hdc,go_self] at hd
      exact absurd rfl hd
    rw [go_other hdc] at hd
    exact h.lock d hd
  · by_cases hdc : d = c
    · rw [hdc,go_self] at hd
      cases hd
    rw [go_other hdc] at hd
    exact h.set d v hd
  · by_cases hdc : d = c
    · rw [hdc,go_self] at hd
      exact absurd rfl hd.1
    rw [go_other hdc] at hd
    exact (h.sent d hd e he).go rfl rfl hfl
  by_cases hqv : q = p ∧ v = va
  · obtain ⟨rfl,rfl⟩ := hqv
    exact .inr (.inl ⟨c,by rw [go_self]; exact ⟨rfl,rfl,rfl⟩⟩)
  have hpte : ((s.setPte p va none).go c (.shoot .lock ⟨p,va,.remove⟩ k)).pte q v = s.pte q v :=
    (setPte_pte p va q v none).trans (if_neg hqv)
  rw [hpte]
  refine (h.stale d q v w hsp hw).imp id fun he => ?_
  refine he.transfer (c := c) (fun e he => go_other he) (fun ho => ?_) (fun _ ho => ?_)
    fun hu ha => ⟨hu.go rfl rfl hfl,?_⟩
  · rw [hp] at ho
    exact ho.elim
  · rw [hp] at ho
    exact ho.elim
  obtain ⟨e,he⟩ | ⟨hall,hva⟩ := ha
  · have hec : e ≠ c := by
      rintro rfl
      rw [hp] at he
      cases he
    exact .inl ⟨e,by rw [go_other hec]; exact he⟩
  refine .inr ⟨fun e => ?_,hva⟩
  by_cases hec : e = c
  · rw [hec,go_self]
    rfl
  rw [go_other hec]
  exact hall e

lemma Inv.takeLock (h : Inv s) (hp : s.pc c = a) (hfree : s.tlbLock = none)
    (hset : b.setTo = none) (hsent : ¬b.Sent) (howes : ∀ p va, a.Owes p va → b.Owes p va)
    (howns : ∀ p va, ¬a.Owns p va) (hfl : a.Flushes → b.Flushes) (haim : b.aim.getD s.tlbVa =
    s.tlbVa ∨ ∀ d, ¬s.Undelivered d) : Inv ({s with tlbLock := some c}.go c b) := by
  have hno : ∀ d, ¬(s.pc d).Locks := by
    intro d hd
    have := h.lock d hd
    rw [hfree] at this
    cases this
  refine ⟨fun d hd => ?_,fun d va hd => ?_,fun d hd => ?_,fun d p va w hsp hw => ?_⟩
  · by_cases hdc : d = c
    · rw [hdc]
      rfl
    rw [go_other hdc] at hd
    exact absurd hd (hno d)
  · by_cases hdc : d = c
    · rw [hdc,go_self,hset] at hd
      cases hd
    rw [go_other hdc] at hd
    exact h.set d va hd
  · by_cases hdc : d = c
    · rw [hdc,go_self] at hd
      exact absurd hd hsent
    rw [go_other hdc] at hd
    exact absurd hd (not_locks_aim (hno d)).2.2
  refine (h.stale d p va w hsp hw).imp id fun he => ?_
  refine he.transfer (c := c) (fun e he => go_other he) (fun ho => .inl ?_) (fun _ ho => ?_)
    fun hu ha => ⟨?_,?_⟩
  · rw [hp] at ho
    rw [go_self]
    exact howes p va ho
  · rw [hp] at ho
    exact absurd ho (howns p va)
  · refine hu.imp id fun hf => ?_
    by_cases hdc : d = c
    · rw [hdc,hp] at hf
      rw [hdc,go_self]
      exact hfl hf
    rw [go_other hdc]
    exact hf
  have hva : s.tlbVa = va := by
    have := (aimed_iff (c := c) (fun d _ => hno d) va).mp ha
    rwa [(not_locks_aim (hno c)).1] at this
  obtain hq | hq := haim
  · refine (aimed_iff (c := c) (fun e he => ?_) va).mpr ?_
    · rw [go_other he]
      exact hno e
    rw [go_self]
    exact hq.trans hva
  exact absurd hu (hq d)

lemma Inv.dropLock (h : Inv s) (hp : s.pc c = a) (hl : a.Locks) (hb : ¬b.Locks)
    (hafl : ¬a.Flushes) (haim : a.aim = none) (howes : ∀ p va, ¬a.Owes p va)
    (howns : ∀ p va, ¬a.Owns p va) : Inv ({s with tlbLock := none}.go c b) := by
  have hc := h.lock c (by rw [hp]; exact hl)
  have hno : ∀ d, ¬((({s with tlbLock := none} : Flush ι).go c b).pc d).Locks := by
    intro d
    by_cases hdc : d = c
    · rw [hdc,go_self]
      exact hb
    rw [go_other hdc]
    exact h.alone hc hdc
  refine ⟨fun d hd => absurd hd (hno d),fun d va hd => ?_,
    fun d hd => absurd hd (not_locks_aim (hno d)).2.2,fun d p va w hsp hw => ?_⟩
  · rw [(not_locks_aim (hno d)).2.1] at hd
    cases hd
  refine (h.stale d p va w hsp hw).imp id fun he => ?_
  refine he.transfer (c := c) (fun e he => go_other he) (fun ho => ?_) (fun _ ho => ?_)
    fun hu ha => ⟨hu.go rfl rfl (by rw [hp]; exact hafl),?_⟩
  · rw [hp] at ho
    exact absurd ho (howes p va)
  · rw [hp] at ho
    exact absurd ho (howns p va)
  have hva := (aimed_iff (c := c) (fun d hd => h.alone hc hd) va).mp ha
  rw [hp,haim] at hva
  exact .inr ⟨fun e => (not_locks_aim (hno e)).1,hva⟩

lemma resume_plain (r : Shoot) (k : Option Nat) : (resume r k).Plain := by
  unfold resume
  split
  · trivial
  split <;> trivial

lemma Inv.advance (h : Inv s) (hp : s.pc c = .shoot st r k) (hst : st ≠ .lock ∧ st ≠ .send)
    (hpc : t.pc = s.pc) (hlock : t.tlbLock = s.tlbLock) (hpend : t.pending = s.pending)
    (hset : ∀ va, (FlushPc.shoot st' r k).setTo = some va → t.tlbVa = va) (haim : (FlushPc.shoot
    st' r k).aim.getD t.tlbVa = r.va) (haim' : (FlushPc.shoot st r k).aim.getD s.tlbVa = r.va)
    (hstale : ∀ d p va w, t.space d = some p → (va,w) ∈ t.tlb d → t.pte p va = some w ∨
    s.Excused d p va ∧ (d = c → ¬(FlushPc.shoot st r k).Owns p va) ∨ p = r.space ∧
    va = r.va ∧ (d = c → (FlushPc.shoot st' r k).Owns p va)) : Inv (t.go c (.shoot st' r k)) := by
  have hfl : ¬(s.pc c).Flushes := by simp [hp,FlushPc.Flushes]
  have hsent : ∀ d, d ≠ c → (t.go c (.shoot st' r k)).Undelivered d := fun d hd =>
    (h.sent c (by rw [hp]; exact hst) d hd).go (by rw [hpend]) hpc hfl
  have hc := h.lock c (by rw [hp]; exact hst.1)
  have haimed : (t.go c (.shoot st' r k)).Aimed r.va := by
    refine (aimed_iff (c := c) (fun e he => ?_) r.va).mpr (by rw [go_self]; exact haim)
    rw [go_other he,hpc]
    exact h.alone hc he
  refine h.inside hp hst.1 hlock (go_self _) (fun d hd => by rw [go_other hd,hpc]) hset
    (fun _ => hsent) fun d p va w hsp hw => ?_
  obtain hok | ⟨he,hown⟩ | ⟨rfl,rfl,hown⟩ := hstale d p va w hsp hw
  · exact .inl hok
  · refine .inr (he.transfer (c := c) (fun e he => by rw [go_other he,hpc]) (fun ho => ?_)
      (fun hdc ho => ?_) fun hu ha => ⟨hu.go (by rw [hpend]) hpc hfl,?_⟩)
    · rw [hp] at ho
      cases st with
      | lock => exact absurd rfl hst.1
      | send => exact absurd rfl hst.2
      | _ => exact ho.elim
    · rw [hp] at ho
      exact absurd ho (hown hdc)
    have hva := (aimed_iff (c := c) (fun d hd => h.alone hc hd) va).mp ha
    rw [hp,haim'] at hva
    rw [← hva]
    exact haimed
  by_cases hdc : d = c
  · exact .inr (.inr (.inl (by rw [hdc,go_self]; exact hown hdc)))
  exact .inr (.inr (.inr ⟨hsent d hdc,haimed⟩))

lemma owns_place (h : (FlushPc.shoot st r k).Owns p va) : p = r.space ∧ va = r.va := by
  cases st with
  | edit | flushOne | setVa | flushTwo => exact ⟨h.1.symm,h.2.1.symm⟩
  | _ => exact h.elim

lemma Inv.still {w : Nat} (h : Inv s) (hsp : s.space d = some p) (hw : (va,w) ∈ s.tlb d)
    (hkeep : d = c → (FlushPc.shoot st r k).Owns p va → (FlushPc.shoot st' r k).Owns p va) :
    s.pte p va = some w ∨ s.Excused d p va ∧ (d = c → ¬(FlushPc.shoot st r k).Owns p va) ∨
      p = r.space ∧ va = r.va ∧ (d = c → (FlushPc.shoot st' r k).Owns p va) := by
  refine (h.stale d p va w hsp hw).imp id fun he => ?_
  by_cases hown : d = c ∧ (FlushPc.shoot st r k).Owns p va
  · obtain ⟨hp,hva⟩ := owns_place hown.2
    exact .inr ⟨hp,hva,fun hdc => hkeep hdc hown.2⟩
  exact .inl ⟨he,fun hdc ho => hown ⟨hdc,ho⟩⟩

lemma mem_invlpg {e : ι} {v : Nat} {x : Nat × Nat} :
    x ∈ (s.invlpg c v).tlb e ↔ x ∈ s.tlb e ∧ (e = c → x.1 ≠ v) := by
  by_cases he : e = c
  · subst he
    simp [invlpg]
  simp [invlpg,he]

lemma Inv.send (h : Inv s) (hp : s.pc c = .shoot .send r k) :
    Inv ((s.broadcast c).go c (.shoot .edit r k)) := by
  have hc := h.lock c (by rw [hp]; simp [FlushPc.Locks])
  have hfl : ¬(s.pc c).Flushes := by simp [hp,FlushPc.Flushes]
  have hsent : ∀ d, d ≠ c → ((s.broadcast c).go c (.shoot .edit r k)).Undelivered d := by
    intro d hd
    exact .inl (by simp [Flush.go,broadcast,hd])
  have haimed : ((s.broadcast c).go c (.shoot .edit r k)).Aimed r.va :=
    .inl ⟨c,by rw [go_self]; rfl⟩
  refine h.inside hp (by simp [FlushPc.Locks]) rfl (go_self _) (fun d hd => go_other hd)
    (fun va hva => by simp [FlushPc.setTo] at hva) (fun _ => hsent) fun d p va w hsp hw => ?_
  refine (h.stale d p va w hsp hw).imp id fun he => ?_
  refine he.transfer (c := c) (fun e he => go_other he) (fun ho => ?_) (fun _ ho => ?_)
    fun hu ha => ?_
  · rw [hp] at ho
    obtain ⟨rfl,rfl,hk⟩ := ho
    by_cases hdc : d = c
    · exact .inr (.inr ⟨hdc,by rw [go_self]; exact ⟨rfl,rfl,hk⟩⟩)
    exact .inr (.inl ⟨hdc,hsent d hdc,haimed⟩)
  · rw [hp] at ho
    exact ho.elim
  have hva := (aimed_iff (c := c) (fun d hd => h.alone hc hd) va).mp ha
  rw [hp] at hva
  obtain rfl : r.va = va := hva
  by_cases hdc : d = c
  · subst hdc
    exact ⟨hu.go (by simp [broadcast]) rfl hfl,haimed⟩
  exact ⟨hsent d hdc,haimed⟩

lemma Inv.shootNext (h : Inv s) (hp : s.pc c = .shoot st r k) (hc : Careful (.tick c) s)
    (hs : Flush.shootNext c s r k st = some t) : Inv t := by
  cases st with
  | lock =>
    simp only [Flush.shootNext] at hs
    split at hs
    · rename_i hfree
      cases hs
      refine h.takeLock hp hfree rfl (fun hsent => hsent.2 rfl) (fun _ _ ho => ho) (fun _ _ ho => ho)
        (fun hf => hf) ?_
      exact (hc c r k rfl hp).symm.imp Eq.symm id
    cases hs
  | send =>
    cases hs
    exact h.send hp
  | edit =>
    cases hs
    refine h.advance hp (by simp) ?_ ?_ ?_ (by simp [FlushPc.setTo]) rfl rfl ?_
    · unfold Flush.edit
      split <;> rfl
    · unfold Flush.edit
      split <;> rfl
    · unfold Flush.edit
      split <;> rfl
    intro d p va w hsp hw
    cases hk : r.kind with
    | remove =>
      simp only [Flush.edit,hk] at hsp hw ⊢
      exact h.still hsp hw fun _ ho => ⟨ho.1,ho.2.1,by rw [hk]; simp⟩
    | table =>
      simp only [Flush.edit,hk] at hsp hw ⊢
      exact h.still hsp hw fun _ ho => absurd (hk.symm.trans ho.2.2) (by simp)
    | insert v =>
      simp only [Flush.edit,hk] at hsp hw ⊢
      rw [setPte_pte]
      split
      · rename_i hpv
        obtain ⟨rfl,rfl⟩ := hpv
        exact .inr (.inr ⟨rfl,rfl,fun _ => ⟨rfl,rfl,by rw [hk]; simp⟩⟩)
      exact h.still hsp hw fun _ ho => absurd (hk.symm.trans ho.2.2) (by simp)
  | flushOne =>
    cases hs
    refine h.advance hp (by simp) ?_ ?_ ?_ (by simp [FlushPc.setTo]) rfl rfl ?_
    · split <;> rfl
    · split <;> rfl
    · split <;> rfl
    intro d p va w hsp hw
    have hw' : (va,w) ∈ s.tlb d := by
      split at hw
      · exact (mem_invlpg.mp hw).1
      exact hw
    have hsp' : s.space d = some p := by
      split at hsp
      · exact hsp
      exact hsp
    have hpte : (if r.kind = .remove ∧ (s.space c = none ∨ s.space c = some r.space) then
        s.invlpg c r.va else s).pte = s.pte := by
      split <;> rfl
    rw [hpte]
    exact h.still hsp' hw' fun _ ho => ho
  | setVa =>
    cases hs
    refine h.advance hp (by simp) rfl rfl rfl (fun va hva => ?_) rfl rfl ?_
    · exact some.inj hva
    intro d p va w hsp hw
    exact h.still hsp hw fun _ ho => ho
  | flushTwo =>
    obtain ⟨q,_,hs⟩ := of_bind hs
    cases hs
    have hva : s.tlbVa = r.va := h.set c r.va (by rw [hp]; rfl)
    refine h.advance hp (by simp) rfl rfl rfl (fun va hva' => ?_) hva hva ?_
    · exact hva.trans (some.inj hva')
    intro d p va w hsp hw
    obtain ⟨hw,hne⟩ := mem_invlpg.mp hw
    refine h.still hsp hw fun hdc ho => ?_
    exact absurd (owns_place ho).2 (hne hdc)
  | unlock =>
    cases hs
    exact h.dropLock hp (by simp [FlushPc.Locks]) ((resume_plain r k).same_kern.locks.mp) (fun hf => hf) rfl
      (fun _ _ ho => ho) fun _ _ ho => ho

lemma Inv.accept (h : Inv s) (hp : s.pc c = .user) :
    Inv ({s with pending := update s.pending c (s.pending c-1)}.go c .flushLock) := by
  have hu : ∀ {d}, s.Undelivered d →
      (({s with pending := update s.pending c (s.pending c-1)} : Flush ι).go c
        .flushLock).Undelivered d := by
    intro d hd
    by_cases hdc : d = c
    · subst hdc
      exact .inr (by rw [go_self]; trivial)
    refine hd.imp (fun hd => ?_) fun hd => ?_
    · simpa [go,hdc] using hd
    rw [go_other hdc]
    exact hd
  have hsame : ∀ d, (s.pc d).aim =
      ((({s with pending := update s.pending c (s.pending c-1)} : Flush ι).go c
        .flushLock).pc d).aim := by
    intro d
    by_cases hdc : d = c
    · rw [hdc,go_self,hp]
      rfl
    rw [go_other hdc]
  refine ⟨fun d hd => ?_,fun d va hd => ?_,fun d hd e he => ?_,fun d p va w hsp hw => ?_⟩
  · by_cases hdc : d = c
    · rw [hdc,go_self] at hd
      exact hd.elim
    rw [go_other hdc] at hd
    exact h.lock d hd
  · by_cases hdc : d = c
    · rw [hdc,go_self] at hd
      cases hd
    rw [go_other hdc] at hd
    exact h.set d va hd
  · by_cases hdc : d = c
    · rw [hdc,go_self] at hd
      exact hd.elim
    rw [go_other hdc] at hd
    exact hu (h.sent d hd e he)
  refine (h.stale d p va w hsp hw).imp id fun he => ?_
  refine he.transfer (c := c) (fun e he => go_other he) (fun ho => ?_) (fun _ ho => ?_)
    fun hd ha => ⟨hu hd,?_⟩
  · rw [hp] at ho
    exact ho.elim
  · rw [hp] at ho
    exact ho.elim
  simp only [Aimed,← hsame]
  exact ha

lemma Inv.flushRead (h : Inv s) (hp : s.pc c = .flushRead) :
    Inv ((s.invlpg c s.tlbVa).go c .flushUnlock) := by
  have hc := h.lock c (by rw [hp]; trivial)
  refine h.inside hp trivial rfl (go_self _) (fun d hd => go_other hd)
    (fun va hva => by simp [FlushPc.setTo] at hva) (fun hs => hs.elim) fun d p va w hsp hw => ?_
  obtain ⟨hw,hne⟩ := mem_invlpg.mp hw
  refine (h.stale d p va w hsp hw).imp id fun he => ?_
  refine he.transfer (c := c) (fun e he => go_other he) (fun ho => ?_) (fun _ ho => ?_)
    fun hu ha => ?_
  · rw [hp] at ho
    exact ho.elim
  · rw [hp] at ho
    exact ho.elim
  have hva := (aimed_iff (c := c) (fun d hd => h.alone hc hd) va).mp ha
  rw [hp] at hva
  have hva : s.tlbVa = va := hva
  have hdc : d ≠ c := fun hdc => hne hdc hva.symm
  refine ⟨hu.imp id fun hf => by rw [go_other hdc]; exact hf,?_⟩
  refine (aimed_iff (c := c) (fun e he => ?_) va).mpr (by rw [go_self]; exact hva)
  rw [go_other he]
  exact h.alone hc he

lemma Inv.tick (h : Inv s) (hc : Careful (.tick c) s) (hs : Flush.tick c s = some t) : Inv t := by
  unfold Flush.tick at hs
  cases hp : s.pc c with
  | user | kern =>
    simp only [hp] at hs
    cases hs
  | flushLock =>
    simp only [hp] at hs
    split at hs
    · rename_i hfree
      cases hs
      exact h.takeLock hp hfree rfl (fun hs => hs) (fun _ _ ho => ho) (fun _ _ ho => ho)
        (fun hf => hf) (.inl rfl)
    cases hs
  | flushRead =>
    simp only [hp] at hs
    split at hs
    · cases hs
      exact h.flushRead hp
    cases hs
  | flushUnlock =>
    simp only [hp] at hs
    cases hs
    exact h.dropLock hp trivial (fun hl => hl) (fun hf => hf) rfl (fun _ _ ho => ho) fun _ _ ho => ho
  | walk p va f =>
    simp only [hp] at hs
    cases hs
    refine h.goes hp trivial ?_
    split
    · trivial
    exact ⟨rfl,by simp⟩
  | insertTest p va f =>
    simp only [hp] at hs
    cases hs
    refine h.goes hp trivial ?_
    split <;> trivial
  | insertAssert p va f =>
    simp only [hp] at hs
    split at hs
    · cases hs
      exact h.goes hp trivial ⟨rfl,by simp⟩
    cases hs
  | lookup p va k =>
    simp only [hp] at hs
    cases hs
    refine h.goes hp trivial ?_
    split
    · exact resume_plain _ k
    trivial
  | clear p va k =>
    simp only [hp] at hs
    cases hs
    exact h.clear hp
  | shoot st r k =>
    simp only [hp] at hs
    exact h.shootNext hp hc hs

lemma Inv.next {a : FlushAct ι} (h : Inv s) (hc : Careful a s) (hs : Flush.next a s = some t) :
    Inv t := by
  have moves : ∀ {c : ι} {P : Prop} [Decidable P] (a b : FlushPc), (P → s.pc c = a) → a.Plain →
      b.Plain → (if P then some (s.go c b) else none) = some t → Inv t := by
    intro c P _ a b hp ha hb hs
    split at hs
    · rename_i hP
      cases hs
      exact h.goes (hp hP) ha hb
    cases hs
  cases a with
  | tick c => exact h.tick hc hs
  | fill c va =>
    obtain ⟨p,hsp,hs⟩ := of_bind hs
    obtain ⟨w,hw,hs⟩ := of_bind hs
    cases hs
    refine h.same (fun d => .refl _) rfl rfl rfl fun d q v u hq hu => ?_
    by_cases hdc : d = c
    · subst hdc
      obtain rfl := mem_unique hsp hq
      simp only [update_self,List.mem_cons,Prod.mk.injEq] at hu
      obtain ⟨rfl,rfl⟩ | hu := hu
      · exact .inl hw
      exact h.stale d p v u hq hu
    exact h.stale d q v u hq (by simpa [hdc] using hu)
  | accept c =>
    simp only [Flush.next] at hs
    split at hs
    · rename_i hp
      cases hs
      exact h.accept hp.1
    cases hs
  | trap c => exact moves .user .kern (fun hp => hp) trivial trivial hs
  | ret c => exact moves .kern .user (fun hp => hp.1) trivial trivial hs
  | switch c p =>
    simp only [Flush.next] at hs
    split at hs
    · cases hs
      refine h.same (fun d => .refl _) rfl rfl rfl fun d q v u hq hu => ?_
      by_cases hdc : d = c
      · subst hdc
        simp at hu
      exact h.stale d q v u (by simpa [hdc] using hq) (by simpa [hdc] using hu)
    cases hs
  | remove c p va => exact moves .kern (.lookup p va none) (fun hp => hp) trivial trivial hs
  | insert c p va f => exact moves .kern (.walk p va f) (fun hp => hp) trivial trivial hs
  | noMem c =>
    simp only [Flush.next] at hs
    split at hs
    · rename_i p va f hp
      split at hs
      · cases hs
      cases hs
      exact h.goes hp trivial trivial
    cases hs

theorem coherent_careful (h : Reach Boot next Careful s) : Coherent s :=
  (h.invariant (fun _ hs => hs.inv) fun _ _ _ hi hc hs => hi.next hc hs).coherent

end step

def twoPages : Flush Bool where
  tlbLock := none
  tlbVa := 0
  pte p va := if p = 7 ∧ (va = 1 ∨ va = 2) then some (10+va) else none
  tables p _ := p = 7
  space _ := none
  tlb _ := []
  pending _ := 0
  pc _ := .kern

lemma boot_twoPages : Boot twoPages := ⟨rfl,fun _ => rfl,fun _ => rfl,fun _ => rfl⟩

def overwrite : List (FlushAct Bool) :=
  [.switch true 7,.ret true,.fill true 1,.switch false 7,.remove false 7 1] ++
    .replicate 9 (.tick false) ++ [.remove false 7 2] ++ .replicate 9 (.tick false) ++
    [.accept true,.tick true,.tick true,.tick true,.accept true,.tick true,.tick true,.tick true]

theorem overwritten_request : ∃ s : Flush Bool, Reach Boot Flush.next (fun _ _ => True) s ∧
    (∀ c, ¬s.Undelivered c) ∧ s.pc true = .user ∧ s.pc false = .kern ∧ s.space true = some 7 ∧
    (1,11) ∈ s.tlb true ∧ s.pte 7 1 = none ∧ ¬Coherent s := by
  have hrun : (turns Flush.next (fun _ _ => true) overwrite twoPages).map (fun s =>
      decide (s.pending false = 0 ∧ s.pending true = 0 ∧ s.pc true = .user ∧ s.pc false = .kern ∧
        s.space true = some 7 ∧ (1,11) ∈ s.tlb true ∧ s.pte 7 1 = none)) = some true := by
    decide +kernel
  obtain ⟨s,hs,hp0,hp1,hu,hk,hsp,hw,hpte⟩ := of_map_decide hrun
  have hreach : Reach Boot Flush.next (fun _ _ => True) s :=
    (Reach.start boot_twoPages).turns (fun _ _ _ => trivial) _ hs
  have hq : ∀ c, ¬s.Undelivered c := by
    intro c
    cases c
    · simp [Undelivered,hp0,hk,FlushPc.Flushes]
    · simp [Undelivered,hp1,hu,FlushPc.Flushes]
  refine ⟨s,hreach,hq,hu,hk,hsp,hw,hpte,fun hco => ?_⟩
  obtain h | ⟨d,hd⟩ := hco hq true 7 1 11 hsp hw
  · rw [hpte] at h
    cases h
  cases d
  · rw [hk] at hd
    exact hd
  rw [hu] at hd
  exact hd

def carefulTest (a : FlushAct Bool) (s : Flush Bool) : Bool :=
  match a with
  | .tick c =>
    match s.pc c with
    | .shoot .lock r _ =>
      decide ((∀ d : Bool, s.pending d = 0 ∧ ¬(s.pc d).Flushes) ∨ s.tlbVa = r.va)
    | _ => true
  | _ => true

lemma careful_of_test (a : FlushAct Bool) (s : Flush Bool) (h : carefulTest a s) : Careful a s := by
  rintro c r k rfl hp
  simp only [carefulTest,hp,decide_eq_true_eq] at h
  refine h.imp (fun h d hu => ?_) id
  obtain ⟨h0,hf⟩ := h d
  obtain hu | hu := hu
  · omega
  exact hf hu

theorem coherent_careful_two : ∃ s : Flush Bool, Reach Boot next Careful s ∧
    (1,11) ∉ s.tlb true ∧ s.pte 7 1 = none ∧ s.pte 7 2 = none ∧ Coherent s := by
  have hrun : (turns next carefulTest
      ([.switch true 7,.ret true,.fill true 1,.switch false 7,.remove false 7 1] ++
        .replicate 9 (.tick false) ++ [.accept true,.tick true,.tick true,.tick true] ++
        [.remove false 7 2] ++ .replicate 9 (.tick false)) twoPages).map (fun s =>
      decide ((1,11) ∉ s.tlb true ∧ s.pte 7 1 = none ∧ s.pte 7 2 = none)) = some true := by
    decide +kernel
  obtain ⟨s,hs,hw,h1,h2⟩ := of_map_decide hrun
  have hreach : Reach Boot next Careful s :=
    (Reach.start boot_twoPages).turns careful_of_test _ hs
  exact ⟨s,hreach,hw,h1,h2,coherent_careful hreach⟩

end Flush

end KludgeOS.Smp
