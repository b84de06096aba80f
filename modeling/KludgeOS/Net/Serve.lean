import KludgeOS.Mmu
import KludgeOS.Slots

/-!
The main loop of the network server (`net/serv.c`): the buffer slots in which
it receives requests, and the threads that it hands them to, which finish in any order.
-/

namespace KludgeOS
open Slots List Option

def NSREQ_ACCEPT : Word := 1
def NSREQ_TIMER : Word := 12
def SHELL : Word := 1234

def QUEUE_SIZE : Nat := 20

namespace Ns

def REQVA : Nat := 0x0ffff000-QUEUE_SIZE*4096

def slotVa (i : Nat) : Nat := REQVA+i*4096

def slotOf (va : Nat) : Nat := (va-REQVA)/4096

lemma slotOf_slotVa (i : Nat) : slotOf (slotVa i) = i := by simp [slotOf,slotVa]

/-- `get_buffer`, with the marks after it; it panics when no slot is free. -/
def getBuffer (buse : Nat → Bool) : Option (Nat × (Nat → Bool)) :=
  (firstFree QUEUE_SIZE buse).map fun i => (slotVa i,mark buse i true)

def putBuffer (buse : Nat → Bool) (va : Nat) : Nat → Bool := mark buse (slotOf va) false

end Ns

structure NsMessage where
  req : Word
  whom : Word
  perm : Word
  deriving DecidableEq

structure StArgs where
  req : Word
  whom : Word
  va : Nat
  deriving DecidableEq

/-- A `serve_thread`, with the address of its argument block and the buffer that `serve_accept` has
taken. -/
structure Thread where
  addr : Nat
  args : StArgs
  buf : Option Nat
  deriving DecidableEq

structure Finished where
  req : Word
  page : Bool
  va : Nat
  addr : Option Nat
  threaded : Bool
  deriving DecidableEq

/-- Where the main loop is: before `get_buffer`, in `ipc_recv`, in `process_timer`. -/
inductive ServePc where
  | top
  | recv : Nat → ServePc
  | timer : Nat → NsMessage → ServePc
  deriving DecidableEq

structure Ns where
  buse : Nat → Bool := fun _ => false
  pc : ServePc := .top
  threads : List Thread := []
  /-- The argument blocks that `malloc` has given and `free` has not taken back. -/
  blocks : List Nat := []
  done : List Finished := []

inductive NsAct where
  | loop
  /-- A message, with the result of `malloc` and whether `thread_create` succeeds, where it is
  called. -/
  | message : NsMessage → Option Nat → Bool → NsAct
  | timer
  /-- Thread number `k` comes to its handler, which for an accept takes a buffer. -/
  | accept : Nat → NsAct
  | finish : Nat → NsAct
  deriving DecidableEq

namespace Ns

variable (m : Ns)

/-- One iteration of `serve` after `ipc_recv`, up to `process_timer` or the next `get_buffer`. A
panic ends the run. -/
def serve (va : Nat) (q : NsMessage) (args : Option Nat) (created : Bool) : Option Ns :=
  let page := decide (q.perm&&&PTE_P ≠ 0)
  if q.req = NSREQ_TIMER then some {m with pc := .timer va q}
  else if q.req = SHELL then
    some {m with pc := .top, done := m.done++[⟨q.req,page,va,none,false⟩]}
  else if page = false then
    some {m with pc := .top, done := m.done++[⟨q.req,page,va,none,false⟩]}
  else
    match args with
    | none => none
    | some a =>
      if created then
        some { m with
          pc := .top, blocks := a :: m.blocks
          threads := m.threads++[⟨a,⟨q.req,q.whom,va⟩,none⟩] }
      else
        some { m with
          pc := .top, blocks := a :: m.blocks
          done := m.done++[⟨q.req,page,va,some a,false⟩] }

/-- The end of `serve_thread`; the argument block is not freed. -/
def finish (k : Nat) (t : Thread) : Ns :=
  let buse := match t.buf with
    | some buf => putBuffer m.buse buf
    | none => m.buse
  { m with
    buse := putBuffer buse t.args.va
    threads := m.threads.eraseIdx k
    done := m.done++[⟨t.args.req,true,t.args.va,some t.addr,true⟩] }

def step : NsAct → Option Ns
  | .loop =>
    if m.pc = .top then
      (getBuffer m.buse).map fun b => {m with buse := b.2, pc := .recv b.1}
    else none
  | .message q args created =>
    match m.pc with
    | .recv va => if ∀ a ∈ args, a ∉ m.blocks then m.serve va q args created else none
    | _ => none
  | .timer =>
    match m.pc with
    | .timer va q =>
      some { m with
        pc := .top, buse := putBuffer m.buse va
        done := m.done++[⟨q.req,decide (q.perm&&&PTE_P ≠ 0),va,none,false⟩] }
    | _ => none
  | .accept k =>
    match m.threads[k]? with
    | some t =>
      if t.args.req = NSREQ_ACCEPT ∧ t.buf = none then
        (getBuffer m.buse).map fun b =>
          {m with buse := b.2, threads := m.threads.set k {t with buf := some b.1}}
      else none
    | none => none
  | .finish k =>
    match m.threads[k]? with
    | some t => if t.args.req = NSREQ_ACCEPT → t.buf ≠ none then some (m.finish k t) else none
    | none => none

def run (m : Ns) : List NsAct → Option Ns
  | [] => some m
  | a :: l => (m.step a).bind fun m => m.run l

end Ns

inductive NsRun : Ns → Prop where
  | start : NsRun {}
  | step {m m' : Ns} {a : NsAct} : NsRun m → m.step a = some m' → NsRun m'

lemma NsRun.run {m m' : Ns} (h : NsRun m) (l : List NsAct) (hr : m.run l = some m') : NsRun m' := by
  induction l generalizing m with
  | nil =>
    cases hr
    exact h
  | cons a l ih =>
    obtain ⟨m1,h1,hr⟩ := of_bind hr
    exact ih (h.step h1) hr

def Finished.FreesSlot (d : Finished) : Prop :=
  d.req = NSREQ_TIMER ∨ (d.req ≠ SHELL ∧ d.page ∧ d.threaded)

instance (d : Finished) : Decidable d.FreesSlot := inferInstanceAs (Decidable (_ ∨ _))

def ServePc.vas : ServePc → List Nat
  | .top => []
  | .recv va | .timer va _ => [va]

def Thread.vas (t : Thread) : List Nat := t.args.va :: t.buf.toList

def Ns.needed (m : Ns) : List Nat := m.pc.vas++m.threads.flatMap Thread.vas

def Ns.leaked (m : Ns) : List Nat := (m.done.filter fun d => ¬d.FreesSlot).map Finished.va

structure NsInv (m : Ns) : Prop where
  slots : Held QUEUE_SIZE m.buse ((m.needed++m.leaked).map Ns.slotOf)
  nodup : m.blocks.Nodup
  blocks : m.blocks.Perm (m.threads.map Thread.addr++m.done.filterMap Finished.addr)
  /-- A request that has a thread has a block, and a timer request has none. -/
  addr : ∀ d ∈ m.done, (d.addr = none → ¬d.FreesSlot ∨ d.req = NSREQ_TIMER) ∧
    (d.req = NSREQ_TIMER → d.addr = none)
  timer : ∀ va q, m.pc = .timer va q → q.req = NSREQ_TIMER
  thread : ∀ t ∈ m.threads, t.args.req ≠ NSREQ_TIMER ∧ t.args.req ≠ SHELL

section inv

variable {m m' : Ns} {a : NsAct}

lemma NsInv.start : NsInv {} where
  slots := .nil
  nodup := nodup_nil
  blocks := .nil
  addr := by simp
  timer := by simp
  thread := by simp

variable {buse : Nat → Bool} {b : Nat × (Nat → Bool)} {l : List Nat} {va k : Nat} {q : NsMessage}
  {t : Thread}

lemma getBuffer_some (h : Ns.getBuffer buse = some b) (hl
    : Held QUEUE_SIZE buse (l.map Ns.slotOf)) : Held QUEUE_SIZE b.2 ((b.1 :: l).map Ns.slotOf) := by
  obtain ⟨i,hi,rfl⟩ := map_eq_some_iff.mp h
  rw [map_cons,Ns.slotOf_slotVa]
  exact hl.take hi

lemma putBuffer_held (hl : Held QUEUE_SIZE buse ((va :: l).map Ns.slotOf)) :
    Held QUEUE_SIZE (Ns.putBuffer buse va) (l.map Ns.slotOf) := Held.put hl

lemma leaked_append (l : List Finished) (d : Finished) :
    ((l++[d]).filter fun d => ¬d.FreesSlot).map Finished.va =
      (l.filter fun d => ¬d.FreesSlot).map Finished.va++(if d.FreesSlot then [] else [d.va]) := by
  by_cases hd : d.FreesSlot <;> simp [filter_append,hd]

lemma cons_perm_end (x : Nat) (l l' : List Nat) : (x :: (l++l')).Perm (l++(l'++[x])) := by
  rw [← append_assoc]
  exact (perm_append_singleton x _).symm

lemma cons_perm_middle (x : Nat) (l l' : List Nat) : (x :: (l++l')).Perm (l++[x]++l') := by
  rw [append_assoc]
  exact perm_middle.symm

lemma NsInv.loop (h : NsInv m) (hpc : m.pc = .top) (hb : Ns.getBuffer m.buse = some b) :
    NsInv {m with buse := b.2, pc := .recv b.1} where
  slots := by
    have := getBuffer_some hb h.slots
    simpa [Ns.needed,Ns.leaked,hpc,ServePc.vas] using this
  nodup := h.nodup
  blocks := h.blocks
  addr := h.addr
  timer := by simp
  thread := h.thread

lemma NsInv.drop (h : NsInv m) (hpc : m.pc = .recv va) {d : Finished} (hva : d.va = va)
    (hd : ¬d.FreesSlot) (haddr : d.addr = none) :
    NsInv {m with pc := .top, done := m.done++[d]} where
  slots := by
    refine h.slots.perm (Perm.map _ ?_)
    simp only [Ns.needed,Ns.leaked,hpc,ServePc.vas,leaked_append,hd,if_false,hva]
    exact cons_perm_end va _ _
  nodup := h.nodup
  blocks := by simpa [filterMap_append,haddr] using h.blocks
  addr := by
    intro e he
    rcases mem_append.mp he with he | he
    · exact h.addr e he
    obtain rfl := mem_singleton.mp he
    exact ⟨fun _ => .inl hd,fun _ => haddr⟩
  timer := by simp
  thread := h.thread

lemma NsInv.spawn (h : NsInv m) {a : Nat} (hpc : m.pc = .recv va) (ha : a ∉ m.blocks)
    (hreq : q.req ≠ NSREQ_TIMER ∧ q.req ≠ SHELL) :
    NsInv { m with
      pc := .top, blocks := a :: m.blocks, threads := m.threads++[⟨a,⟨q.req,q.whom,va⟩,none⟩] } where
  slots := by
    refine h.slots.perm (Perm.map _ ?_)
    simp only [Ns.needed,Ns.leaked,hpc,ServePc.vas,flatMap_append,flatMap_cons,
      flatMap_nil,Thread.vas,toList]
    exact cons_perm_middle va _ _
  nodup := nodup_cons.mpr ⟨ha,h.nodup⟩
  blocks := by
    refine (h.blocks.cons a).trans ?_
    simp only [map_append,map_cons,map_nil]
    exact cons_perm_middle a _ _
  addr := h.addr
  timer := by simp
  thread := by
    intro t ht
    rcases mem_append.mp ht with ht | ht
    · exact h.thread t ht
    obtain rfl := mem_singleton.mp ht
    exact hreq

lemma NsInv.unthreaded (h : NsInv m) {a : Nat} {req : Word} (hpc : m.pc = .recv va)
    (ha : a ∉ m.blocks) (hreq : req ≠ NSREQ_TIMER) :
    NsInv { m with
      pc := .top, blocks := a :: m.blocks, done := m.done++[⟨req,true,va,some a,false⟩] } where
  slots := by
    have hd : ¬Finished.FreesSlot ⟨req,true,va,some a,false⟩ := by simp [Finished.FreesSlot,hreq]
    refine h.slots.perm (Perm.map _ ?_)
    simp only [Ns.needed,Ns.leaked,hpc,ServePc.vas,leaked_append,hd,if_false]
    exact cons_perm_end va _ _
  nodup := nodup_cons.mpr ⟨ha,h.nodup⟩
  blocks := by
    refine (h.blocks.cons a).trans ?_
    simp only [filterMap_append,filterMap_cons,filterMap_nil]
    exact cons_perm_end a _ _
  addr := by
    intro e he
    rcases mem_append.mp he with he | he
    · exact h.addr e he
    obtain rfl := mem_singleton.mp he
    exact ⟨fun hc => by simp at hc,fun hc => absurd hc hreq⟩
  timer := by simp
  thread := h.thread

lemma NsInv.timerDone (h : NsInv m) (hpc : m.pc = .timer va q) {page : Bool} : NsInv { m with
      pc := .top, buse := Ns.putBuffer m.buse va, done := m.done++[⟨q.req,page,va,none,false⟩] } where
  slots := by
    have hd : Finished.FreesSlot ⟨q.req,page,va,none,false⟩ := .inl (h.timer va q hpc)
    have hslots := h.slots
    simp only [Ns.needed,Ns.leaked,hpc,ServePc.vas] at hslots
    simp only [Ns.needed,Ns.leaked,ServePc.vas,leaked_append,hd,if_true]
    simpa using putBuffer_held hslots
  nodup := h.nodup
  blocks := by simpa [filterMap_append] using h.blocks
  addr := by
    intro e he
    rcases mem_append.mp he with he | he
    · exact h.addr e he
    obtain rfl := mem_singleton.mp he
    exact ⟨fun _ => .inr (h.timer va q hpc),fun _ => rfl⟩
  timer := by simp
  thread := h.thread

lemma split_at {l : List Thread} (h : l[k]? = some t) :
    ∃ l1 l2, l = l1++t :: l2 ∧ l.eraseIdx k = l1++l2 ∧ ∀ x, l.set k x = l1++x :: l2 := by
  obtain ⟨hlt,rfl⟩ := List.getElem?_eq_some_iff.mp h
  refine ⟨l.take k,l.drop (k+1),?_,eraseIdx_eq_take_drop_succ l k,fun x => ?_⟩
  · rw [getElem_cons_drop,take_append_drop]
  exact set_eq_take_append_cons_drop.trans (if_pos hlt)

lemma NsInv.accept (h : NsInv m) (ht : m.threads[k]? = some t) (hbuf : t.buf = none)
    (hb : Ns.getBuffer m.buse = some b) :
    NsInv {m with buse := b.2, threads := m.threads.set k {t with buf := some b.1}} := by
  obtain ⟨l1,l2,hl,_,hset⟩ := split_at ht
  rw [hset]
  refine ⟨?_,h.nodup,?_,h.addr,h.timer,?_⟩
  · refine (getBuffer_some hb h.slots).perm (Perm.map _ ?_)
    simp only [Ns.needed,Ns.leaked,hl,flatMap_append,flatMap_cons,Thread.vas,hbuf,toList]
    rw [perm_iff_count]
    intro x
    simp only [count_append,count_cons,count_nil]
    omega
  · have := h.blocks
    rw [hl] at this
    simpa using this
  intro u hu
  have hold := h.thread
  rw [hl] at hold
  rcases mem_append.mp hu with hu | hu
  · exact hold u (mem_append_left _ hu)
  rcases mem_cons.mp hu with rfl | hu
  · exact hold t (by simp)
  exact hold u (by simp [hu])

lemma NsInv.finish (h : NsInv m) (ht : m.threads[k]? = some t) : NsInv (m.finish k t) := by
  obtain ⟨l1,l2,hl,herase,_⟩ := split_at ht
  obtain ⟨htimer,hshell⟩ := h.thread t (by rw [hl]; simp)
  have hd : Finished.FreesSlot ⟨t.args.req,true,t.args.va,some t.addr,true⟩ := .inr ⟨hshell,rfl,rfl⟩
  have hslots := h.slots
  unfold Ns.finish
  refine ⟨?_,h.nodup,?_,?_,h.timer,?_⟩
  · simp only [Ns.needed,Ns.leaked,herase,leaked_append,hd,if_true,append_nil]
    simp only [Ns.needed,Ns.leaked,hl,flatMap_append,flatMap_cons] at hslots ⊢
    refine putBuffer_held ?_
    -- What is held with the buffer of `serve_accept` given back.
    have hrest : ∀ rest : List Nat, Held QUEUE_SIZE m.buse ((t.buf.toList++rest).map Ns.slotOf) →
        Held QUEUE_SIZE (match t.buf with
          | some buf => Ns.putBuffer m.buse buf
          | none => m.buse) (rest.map Ns.slotOf) := by
      intro rest hr
      cases hbuf : t.buf with
      | none => simpa [hbuf] using hr
      | some buf =>
        rw [hbuf] at hr
        exact putBuffer_held hr
    refine hrest _ (hslots.perm (Perm.map _ ?_))
    simp only [Thread.vas]
    rw [perm_iff_count]
    intro x
    simp only [count_append,count_cons]
    omega
  · have := h.blocks
    rw [hl] at this
    refine this.trans ?_
    simp only [herase,map_append,map_cons,filterMap_append,filterMap_cons,filterMap_nil]
    rw [perm_iff_count]
    intro x
    simp only [count_append,count_cons,count_nil]
    omega
  · intro e he
    rcases mem_append.mp he with he | he
    · exact h.addr e he
    obtain rfl := mem_singleton.mp he
    exact ⟨fun hc => by simp at hc,fun hc => absurd hc htimer⟩
  intro u hu
  refine h.thread u ?_
  simp only [herase] at hu
  rw [hl]
  simp only [mem_append,mem_cons] at hu ⊢
  exact hu.imp id .inr

lemma NsInv.serve (h : NsInv m) {args : Option Nat} {created : Bool} (hpc : m.pc = .recv va)
    (hargs : ∀ a ∈ args, a ∉ m.blocks) (hs : m.serve va q args created = some m') : NsInv m' := by
  unfold Ns.serve at hs
  simp only at hs
  by_cases htimer : q.req = NSREQ_TIMER
  · rw [if_pos htimer] at hs
    cases hs
    refine ⟨?_,h.nodup,h.blocks,h.addr,?_,h.thread⟩
    · have := h.slots
      simpa only [Ns.needed,Ns.leaked,hpc,ServePc.vas] using this
    rintro _ _ ⟨⟩
    exact htimer
  rw [if_neg htimer] at hs
  by_cases hshell : q.req = SHELL
  · rw [if_pos hshell] at hs
    cases hs
    exact h.drop hpc rfl (by simp [Finished.FreesSlot,htimer]) rfl
  rw [if_neg hshell] at hs
  cases hpage : decide (q.perm&&&PTE_P ≠ 0) with
  | false =>
    simp only [hpage,if_true] at hs
    cases hs
    exact h.drop hpc rfl (by simp [Finished.FreesSlot,htimer]) rfl
  | true =>
    simp only [hpage,Bool.true_eq_false,if_false] at hs
    cases args with
    | none => contradiction
    | some a =>
      have ha := hargs a rfl
      cases created with
      | true =>
        cases hs
        exact h.spawn hpc ha ⟨htimer,hshell⟩
      | false =>
        cases hs
        exact h.unthreaded hpc ha htimer

lemma NsInv.step (h : NsInv m) (hs : m.step a = some m') : NsInv m' := by
  cases a with
  | loop =>
    simp only [Ns.step] at hs
    split at hs
    · obtain ⟨b,hb,rfl⟩ := map_eq_some_iff.mp hs
      exact h.loop ‹_› hb
    cases hs
  | message q args created =>
    simp only [Ns.step] at hs
    split at hs
    · rename_i hpc
      split at hs
      · exact h.serve hpc ‹_› hs
      cases hs
    cases hs
  | timer =>
    simp only [Ns.step] at hs
    split at hs
    · rename_i hpc
      cases hs
      exact h.timerDone hpc
    cases hs
  | accept k =>
    simp only [Ns.step] at hs
    split at hs
    · rename_i ht
      split at hs
      · rename_i hreq
        obtain ⟨b,hb,rfl⟩ := map_eq_some_iff.mp hs
        exact h.accept ht hreq.2 hb
      cases hs
    cases hs
  | finish k =>
    simp only [Ns.step] at hs
    split at hs
    · rename_i ht
      split at hs
      · cases hs
        exact h.finish ht
      cases hs
    cases hs

lemma NsRun.inv (h : NsRun m) : NsInv m := by
  induction h with
  | start => exact .start
  | step _ hs ih => exact ih.step hs

end inv

def Ns.SlotsReleased (m : Ns) : Prop := ∀ i < QUEUE_SIZE, m.buse i → i ∈ m.needed.map Ns.slotOf

def Ns.ArgsFreed (m : Ns) : Prop := ∀ b ∈ m.blocks, b ∈ m.threads.map Thread.addr

section release

variable {m : Ns}

lemma leaked_eq_nil : m.leaked = [] ↔ ∀ d ∈ m.done, d.FreesSlot := by
  simp [Ns.leaked,filter_eq_nil_iff]

lemma NsInv.slotsReleased_iff (h : NsInv m) : m.SlotsReleased ↔ ∀ d ∈ m.done, d.FreesSlot := by
  rw [← leaked_eq_nil]
  constructor
  · intro hr
    by_contra hne
    obtain ⟨va,hva⟩ := exists_mem_of_ne_nil _ hne
    have hmem : Ns.slotOf va ∈ (m.needed++m.leaked).map Ns.slotOf :=
      List.mem_map_of_mem (mem_append_right _ hva)
    have hlt := h.slots.bound _ hmem
    have hneed := hr _ hlt ((h.slots.marked _ hlt).mpr hmem)
    have hnodup := h.slots.nodup
    rw [map_append] at hnodup
    exact (nodup_append.mp hnodup).2.2 _ hneed _ (List.mem_map_of_mem hva) rfl
  intro hl i hi hu
  have := (h.slots.marked i hi).mp hu
  rwa [hl,append_nil] at this

lemma NsInv.argsFreed_iff (h : NsInv m) : m.ArgsFreed ↔ ∀ d ∈ m.done, d.addr = none := by
  constructor
  · intro hf d hd
    by_contra hne
    obtain ⟨b,hb⟩ := ne_none_iff_exists'.mp hne
    have hmem : b ∈ m.done.filterMap Finished.addr := mem_filterMap.mpr ⟨d,hd,hb⟩
    have hblock : b ∈ m.blocks := h.blocks.mem_iff.mpr (mem_append_right _ hmem)
    have hnodup := h.blocks.nodup_iff.mp h.nodup
    exact (nodup_append.mp hnodup).2.2 _ (hf b hblock) _ hmem rfl
  intro hd b hb
  rcases mem_append.mp (h.blocks.mem_iff.mp hb) with hb | hb
  · exact hb
  obtain ⟨d,hmem,hda⟩ := mem_filterMap.mp hb
  rw [hd d hmem] at hda
  cases hda

/-- The server has released what the requests took just if all of them were timer requests. -/
theorem ns_releases (h : NsRun m) : (m.SlotsReleased ∧ m.ArgsFreed ↔
    ∀ d ∈ m.done, d.req = NSREQ_TIMER) ∧ (m.SlotsReleased ↔ ∀ d ∈ m.done, d.FreesSlot) ∧
    ((∀ d ∈ m.done, d.FreesSlot) → ((range QUEUE_SIZE).filter m.buse).length ≤ m.needed.length ∧
    (Ns.getBuffer m.buse = none → QUEUE_SIZE ≤ m.needed.length)) := by
  have hi := h.inv
  refine ⟨?_,hi.slotsReleased_iff,fun hd => ?_⟩
  · rw [hi.slotsReleased_iff,hi.argsFreed_iff]
    constructor
    · rintro ⟨hs,ha⟩ d hd
      exact ((hi.addr d hd).1 (ha d hd)).resolve_left fun hc => hc (hs d hd)
    intro ht
    exact ⟨fun d hd => .inl (ht d hd),fun d hd => (hi.addr d hd).2 (ht d hd)⟩
  have hslots := hi.slots
  rw [leaked_eq_nil.mpr hd,append_nil] at hslots
  refine ⟨by simpa using hslots.count_le,fun hnone => ?_⟩
  simpa using hslots.full (map_eq_none_iff.mp hnone)

end release

def servedRequests : List NsAct :=
  [.loop,.message ⟨NSREQ_TIMER,0x1002,0⟩ none false,.timer,.loop,.message ⟨NSREQ_ACCEPT,0x1003,7⟩
   (some 0x8000000) true,.accept 0,.loop,.message ⟨9,0x1004,7⟩ (some 0x8000100) true,.finish 1]

theorem ns_releases_slots : ∃ m, NsRun m ∧ m.SlotsReleased ∧ m.needed.length = 2 ∧
    ((range QUEUE_SIZE).filter m.buse).length ≤ 2 := by
  have hrun : (({} : Ns).run servedRequests).map (fun m => decide (m.needed.length = 2 ∧
      ∀ d ∈ m.done, d.FreesSlot)) = some true := by decide +kernel
  obtain ⟨m,hm,hlen,hd⟩ := of_map_decide hrun
  have h := NsRun.start.run servedRequests hm
  obtain ⟨_,hslots,hcount⟩ := ns_releases h
  exact ⟨m,h,hslots.mpr hd,hlen,hlen ▸ (hcount hd).1⟩

def shellRequests : List NsAct :=
  (replicate 20 [NsAct.loop,.message ⟨SHELL,0x1003,0⟩ none false]).flatten

/-- No request is being served, and `get_buffer` panics. -/
theorem ns_shell_leaks : ∃ m, NsRun m ∧ m.pc = .top ∧ m.needed = [] ∧ ¬m.SlotsReleased ∧
    Ns.getBuffer m.buse = none := by
  have hrun : (({} : Ns).run shellRequests).map (fun m => decide (m.pc = .top ∧ m.needed = [] ∧
      m.buse 0 ∧ (Ns.getBuffer m.buse).isNone)) = some true := by decide +kernel
  obtain ⟨m,hm,hpc,hneed,h0,hnone⟩ := of_map_decide hrun
  refine ⟨m,NsRun.start.run shellRequests hm,hpc,hneed,fun hr => ?_,isNone_iff_eq_none.mp hnone⟩
  have := hr 0 (by decide) h0
  rw [hneed] at this
  cases this

end KludgeOS
