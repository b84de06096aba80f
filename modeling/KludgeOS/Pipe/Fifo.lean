import KludgeOS.Mmu
import KludgeOS.Ring

/-!
`piperead` and `pipewrite` (`lib/pipe.c`), with one environment that reads and
one that writes. The processor may go to the other environment between any two
accesses to the shared page.
-/

namespace KludgeOS
open BitVec (ofNat)
open Function List Option BitVec

def PIPEBUFSIZ : Nat := 32

inductive PipeEnd where
  | reader | writer
  deriving DecidableEq

/-- `_pipeisclosed` before each of its loads: `env_runs`, the two reference counts, and `env_runs`
again. -/
inductive ClosedPc where
  | runs
  | fd : (n : Word) → ClosedPc
  | page : (n : Word) → (ref : Nat) → ClosedPc
  | again : (n : Word) → (ret : Bool) → ClosedPc
  deriving DecidableEq

/-- `piperead` before each access to the page, with the values loaded so far; `unmap` is
`pipeclose` once it has unmapped the `Fd` page. -/
inductive ReadPc where
  | idle
  | rpos : (i : Nat) → ReadPc
  | wpos : (i : Nat) → (rpos : Word) → ReadPc
  | closed : ClosedPc → ReadPc
  | take : (i : Nat) → ReadPc
  | byte : (i : Nat) → (rpos : Word) → ReadPc
  | incr : (i : Nat) → ReadPc
  | store : (i : Nat) → (rpos : Word) → ReadPc
  | unmap
  | gone
  deriving DecidableEq

/-- The same for `pipewrite`. -/
inductive WritePc where
  | idle
  | wpos : (i : Nat) → WritePc
  | rpos : (i : Nat) → (wpos : Word) → WritePc
  | closed : (i : Nat) → ClosedPc → WritePc
  | put : (i : Nat) → WritePc
  | byte : (i : Nat) → (wpos : Word) → WritePc
  | incr : (i : Nat) → WritePc
  | store : (i : Nat) → (wpos : Word) → WritePc
  | unmap
  | gone
  deriving DecidableEq

/-- The page, the two environments, and how often others have either end open. `taken` are the
bytes read, `stored` those put into the ring, `passed` those given to `pipewrite`. -/
structure Pipe where
  pRpos : Word := 0
  pWpos : Word := 0
  pBuf : Nat → Byte := fun _ => 0
  otherR : Nat := 0
  otherW : Nat := 0
  cur : PipeEnd := .writer
  envRuns : PipeEnd → Word := fun _ => 0
  rd : ReadPc := .idle
  want : Nat := 0
  wr : WritePc := .idle
  vbuf : List Byte := []
  taken : List Byte := []
  stored : List Byte := []
  passed : List Byte := []

inductive PipeAct where
  /-- An environment is run, after an interrupt, a system call or a `sys_yield`. -/
  | run : PipeEnd → PipeAct
  | access
  | read : (n : Word) → PipeAct
  | write : (vbuf : List Byte) → PipeAct
  | close
  deriving DecidableEq

def ringIndex (pos : Word) : Nat := (pos.srem (ofNat 32 PIPEBUFSIZ)).toNat

namespace Pipe

variable (m : Pipe)

def fdRefs : PipeEnd → Nat
  | .reader => m.otherR+if m.rd = .unmap ∨ m.rd = .gone then 0 else 1
  | .writer => m.otherW+if m.wr = .unmap ∨ m.wr = .gone then 0 else 1

def pageRefs : Nat :=
  m.otherR+m.otherW+(if m.rd = .gone then 0 else 1)+(if m.wr = .gone then 0 else 1)

/-- A load of `_pipeisclosed`: where it goes on, or what it returns. -/
def pipeisclosed (e : PipeEnd) : ClosedPc → ClosedPc ⊕ Bool
  | .runs => .inl (.fd (m.envRuns e))
  | .fd n => .inl (.page n (m.fdRefs e))
  | .page n ref => .inl (.again n (ref == m.pageRefs))
  | .again n ret => if n = m.envRuns e then .inr ret else .inl .runs

def piperead : Option Pipe :=
  match m.rd with
  | .rpos i => some {m with rd := .wpos i m.pRpos}
  | .wpos i r =>
    if r = m.pWpos then some {m with rd := if 0 < i then .idle else .closed .runs}
    else some {m with rd := .take i}
  | .closed c =>
    match m.pipeisclosed .reader c with
    | .inl c => some {m with rd := .closed c}
    | .inr true => some {m with rd := .idle}
    | .inr false => some {m with rd := .rpos 0}
  | .take i => some {m with rd := .byte i m.pRpos}
  | .byte i r => some {m with rd := .incr i, taken := m.taken++[m.pBuf (ringIndex r)]}
  | .incr i => some {m with rd := .store i m.pRpos}
  | .store i r =>
    some {m with pRpos := r+1, rd := if i+1 < m.want then .rpos (i+1) else .idle}
  | .unmap => some {m with rd := .gone}
  | .idle | .gone => none

def pipewrite : Option Pipe :=
  match m.wr with
  | .wpos i => some {m with wr := .rpos i m.pWpos}
  | .rpos i w =>
    if m.pRpos+ofNat 32 PIPEBUFSIZ ≤ w then some {m with wr := .closed i .runs}
    else some {m with wr := .put i}
  | .closed i c =>
    match m.pipeisclosed .writer c with
    | .inl c => some {m with wr := .closed i c}
    | .inr true => some {m with wr := .idle}
    | .inr false => some {m with wr := .wpos i}
  | .put i => some {m with wr := .byte i m.pWpos}
  | .byte i w =>
    let b := m.vbuf.getD i 0
    some {m with wr := .incr i, pBuf := update m.pBuf (ringIndex w) b, stored := m.stored++[b]}
  | .incr i => some {m with wr := .store i m.pWpos}
  | .store i w =>
    some {m with pWpos := w+1, wr := if i+1 < m.vbuf.length then .wpos (i+1) else .idle}
  | .unmap => some {m with wr := .gone}
  | .idle | .gone => none

def step : PipeAct → Option Pipe
  | .run e => some { m with
      cur := e, envRuns := update m.envRuns e (m.envRuns e+1) }
  | .access => match m.cur with
    | .reader => m.piperead
    | .writer => m.pipewrite
  | .read n =>
    if m.cur = .reader ∧ m.rd = .idle then
      some {m with want := n.toNat, rd := if 0 < n.toNat then .rpos 0 else .idle}
    else none
  | .write l =>
    if m.cur = .writer ∧ m.wr = .idle then
      some { m with
        vbuf := l, passed := m.passed++l, wr := if 0 < l.length then .wpos 0 else .idle }
    else none
  | .close => match m.cur with
    | .reader => if m.rd = .idle then some {m with rd := .unmap} else none
    | .writer => if m.wr = .idle then some {m with wr := .unmap} else none

def run (m : Pipe) : List PipeAct → Option Pipe
  | [] => some m
  | a :: l => (m.step a).bind fun m => m.run l

end Pipe

inductive PipeRun : Pipe → Prop where
  | start (otherR otherW : Nat) (cur : PipeEnd) (envRuns : PipeEnd → Word) :
      PipeRun {otherR := otherR, otherW := otherW, cur := cur, envRuns := envRuns}
  | step {m m' : Pipe} {a : PipeAct} : PipeRun m → m.step a = some m' → PipeRun m'

open Pipe

lemma PipeRun.run {m m' : Pipe} (h : PipeRun m) (l : List PipeAct) (hr : m.run l = some m') :
    PipeRun m' := by
  induction l generalizing m with
  | nil =>
    cases hr
    exact h
  | cons a l ih =>
    obtain ⟨m1,h1,hr⟩ := of_bind hr
    exact ih (h.step h1) hr

/-- 1 if the byte of this round has been taken and `p_rpos` not yet moved. -/
def ReadPc.ahead : ReadPc → Nat
  | .incr _ | .store _ _ => 1
  | _ => 0

def WritePc.ahead : WritePc → Nat
  | .incr _ | .store _ _ => 1
  | _ => 0

def ReadPc.Knows (rpos wpos : Word) : ReadPc → Prop
  | .wpos _ r | .store _ r => r = rpos
  | .take _ => rpos.toNat < wpos.toNat
  | .byte _ r => r = rpos ∧ rpos.toNat < wpos.toNat
  | _ => True

def ClosedPc.Knows (m : Pipe) : ClosedPc → Prop
  | .page _ ref => ref = m.otherW+1
  | .again _ ret => ret → m.rd = .gone
  | _ => True

def WritePc.Knows (m : Pipe) : WritePc → Prop
  | .wpos i | .incr i => i < m.vbuf.length
  | .rpos i w | .store i w => i < m.vbuf.length ∧ w = m.pWpos
  | .closed i c => i < m.vbuf.length ∧ c.Knows m
  | .put i => i < m.vbuf.length ∧ m.pWpos.toNat < m.pRpos.toNat+PIPEBUFSIZ
  | .byte i w => i < m.vbuf.length ∧ w = m.pWpos ∧ m.pWpos.toNat < m.pRpos.toNat+PIPEBUFSIZ
  | _ => True

def Pipe.rest (m : Pipe) : List Byte :=
  match m.wr with
  | .wpos i | .rpos i _ | .closed i _ | .put i | .byte i _ => m.vbuf.drop i
  | .incr i | .store i _ => m.vbuf.drop (i+1)
  | .idle | .unmap | .gone => []

structure FifoInv (m : Pipe) : Prop where
  taken : m.taken = m.stored.take (m.pRpos.toNat+m.rd.ahead)
  stored : m.stored.length = m.pWpos.toNat+m.wr.ahead
  below : m.pRpos.toNat+m.rd.ahead ≤ m.pWpos.toNat
  room : m.stored.length ≤ m.pRpos.toNat+PIPEBUFSIZ
  window : Ring.Window PIPEBUFSIZ m.pBuf m.stored m.pRpos.toNat
  rd : m.rd.Knows m.pRpos m.pWpos
  wr : m.wr.Knows m
  aligned : m.rd ≠ .gone → m.passed = m.stored++m.rest
  order : m.taken <+: m.passed

section fifo

variable {m m' : Pipe} {pos r w : Word} {wr : WritePc} {rd : ReadPc} {i : Nat} {a : PipeAct}

lemma ringIndex_eq (h : pos.toNat < 2^31) : ringIndex pos = pos.toNat%PIPEBUFSIZ := by
  have hmsb : pos.msb = false := by
    rw [msb_eq_decide]
    simpa using h
  have h32 : (ofNat 32 PIPEBUFSIZ).msb = false := by decide
  rw [ringIndex,srem_eq,hmsb,h32]
  simp [PIPEBUFSIZ]

lemma toNat_succ (h : pos.toNat < 2^31) : (pos+1).toNat = pos.toNat+1 := by
  have h1 : (1 : Word).toNat = 1 := rfl
  rw [toNat_add,h1]
  omega

lemma FifoInv.lt (h : FifoInv m) (hlt : m.stored.length < 2^31) :
    m.pWpos.toNat < 2^31 ∧ m.pRpos.toNat < 2^31 := by
  have := h.stored
  have := h.below
  omega

lemma WritePc.Knows.mono (h : wr.Knows m) (hv : m'.vbuf = m.vbuf) (hw : m'.pWpos = m.pWpos)
    (ho : m'.otherW = m.otherW) (hr : m.pRpos.toNat ≤ m'.pRpos.toNat)
    (hg : m.rd = .gone → m'.rd = .gone) : wr.Knows m' := by
  cases wr with
  | closed i c =>
    refine ⟨by rw [hv]; exact h.1,?_⟩
    have hc := h.2
    cases c with
    | page n ref =>
      simp only [ClosedPc.Knows,ho] at hc ⊢
      exact hc
    | again n ret => exact fun hret => hg (hc hret)
    | _ => trivial
  | put i =>
    simp only [WritePc.Knows,hv,hw] at h ⊢
    omega
  | byte i w =>
    simp only [WritePc.Knows,hv,hw] at h ⊢
    exact ⟨h.1,h.2.1,by omega⟩
  | idle | unmap | gone => trivial
  | _ =>
    simp only [WritePc.Knows,hv,hw] at h ⊢
    exact h

section

variable (h : FifoInv m)
include h

lemma FifoInv.moveRd (hlive : m.rd ≠ .gone) {want : Nat}
    (hahead : rd.ahead = m.rd.ahead) (hrd : rd.Knows m.pRpos m.pWpos) :
    FifoInv {m with rd := rd, want := want} where
  taken := by simpa only [hahead] using h.taken
  stored := h.stored
  below := by simpa only [hahead] using h.below
  room := h.room
  window := h.window
  rd := hrd
  wr := h.wr.mono rfl rfl rfl le_rfl fun hg => absurd hg hlive
  aligned := fun _ => h.aligned hlive
  order := h.order

lemma FifoInv.takeByte (hlt : m.stored.length < 2^31) (hpc : m.rd = .byte i r) :
    FifoInv {m with rd := .incr i, taken := m.taken++[m.pBuf (ringIndex r)]} := by
  have hlive : m.rd ≠ .gone := by simp [hpc]
  have hrd := h.rd
  have htaken := h.taken
  have hstored := h.stored
  simp only [hpc,ReadPc.Knows,ReadPc.ahead,Nat.add_zero] at hrd htaken
  obtain ⟨rfl,hlow⟩ := hrd
  have hnext : m.taken++[m.pBuf (ringIndex m.pRpos)] = m.stored.take (m.pRpos.toNat+1) := by
    rw [h.window.take (by omega),ringIndex_eq (h.lt hlt).2,htaken]
  have horder : m.stored.take (m.pRpos.toNat+1) <+: m.passed := by
    rw [h.aligned hlive]
    exact (List.take_prefix _ _).trans (prefix_append _ _)
  exact {
    taken := hnext
    stored := h.stored
    below := hlow
    room := h.room
    window := h.window
    rd := trivial
    wr := h.wr.mono rfl rfl rfl le_rfl fun hg => absurd hg hlive
    aligned := fun _ => h.aligned hlive
    order := hnext ▸ horder }

lemma FifoInv.incrRpos (hlt : m.stored.length < 2^31) (hpc : m.rd = .store i r) (hahead
    : rd.ahead = 0) (hrd : rd.Knows (r+1) m.pWpos) : FifoInv {m with pRpos := r+1, rd := rd} := by
  have hlive : m.rd ≠ .gone := by simp [hpc]
  have hr := h.rd
  have htaken := h.taken
  have hbelow := h.below
  simp only [hpc,ReadPc.Knows,ReadPc.ahead] at hr htaken hbelow
  subst hr
  have hsucc := toNat_succ (h.lt hlt).2
  exact {
    taken := by simpa only [hahead,hsucc,Nat.add_zero] using htaken
    stored := h.stored
    below := by simpa only [hahead,hsucc,Nat.add_zero] using hbelow
    room := by
      have := h.room
      simp only [hsucc]
      omega
    window := by simpa only [hsucc] using h.window.pop
    rd := hrd
    wr := h.wr.mono rfl rfl rfl (by simp only [hsucc]; omega) fun hg => absurd hg hlive
    aligned := fun _ => h.aligned hlive
    order := h.order }

lemma FifoInv.piperead (hlt : m.stored.length < 2^31)
    (hs : m.piperead = some m') : FifoInv m' := by
  have hk := h.rd
  unfold Pipe.piperead at hs
  cases hpc : m.rd with
  | idle => simp [hpc] at hs
  | gone => simp [hpc] at hs
  | rpos i =>
    simp only [hpc,some.injEq] at hs
    subst hs
    exact h.moveRd (by simp [hpc]) (by simp [hpc,ReadPc.ahead]) rfl
  | wpos i r =>
    simp only [hpc] at hs hk
    split at hs
    · cases hs
      refine h.moveRd (by simp [hpc]) ?_ ?_
      · split <;> simp [hpc,ReadPc.ahead]
      split <;> trivial
    rename_i hne
    cases hs
    refine h.moveRd (by simp [hpc]) (by simp [hpc,ReadPc.ahead]) ?_
    have hle := h.below
    have hne' : m.pRpos.toNat ≠ m.pWpos.toNat := fun hc =>
      hne (Eq.trans hk (eq_of_toNat_eq hc))
    simp only [ReadPc.Knows]
    omega
  | closed c =>
    simp only [hpc] at hs
    split at hs <;> obtain rfl := some.inj hs <;>
      exact h.moveRd (by simp [hpc]) (by simp [hpc,ReadPc.ahead]) trivial
  | take i =>
    simp only [hpc,some.injEq] at hs hk
    subst hs
    exact h.moveRd (by simp [hpc]) (by simp [hpc,ReadPc.ahead]) ⟨rfl,hk⟩
  | byte i r =>
    simp only [hpc,some.injEq] at hs
    subst hs
    exact h.takeByte hlt hpc
  | incr i =>
    simp only [hpc,some.injEq] at hs
    subst hs
    exact h.moveRd (by simp [hpc]) (by simp [hpc,ReadPc.ahead]) rfl
  | store i r =>
    simp only [hpc,some.injEq] at hs
    subst hs
    refine h.incrRpos hlt hpc ?_ ?_ <;> split <;> simp [ReadPc.ahead,ReadPc.Knows]
  | unmap =>
    simp only [hpc,some.injEq] at hs
    subst hs
    exact h.moveRd (by simp [hpc]) (by simp [hpc,ReadPc.ahead]) trivial

lemma FifoInv.moveWr (hahead : wr.ahead = m.wr.ahead) (hwr : wr.Knows m)
    (hrest : m.rd ≠ .gone → ({m with wr := wr} : Pipe).rest = m.rest) :
    FifoInv {m with wr := wr} where
  taken := h.taken
  stored := by simpa only [hahead] using h.stored
  below := h.below
  room := h.room
  window := h.window
  rd := h.rd
  wr := hwr.mono rfl rfl rfl le_rfl id
  aligned := fun hl => by
    rw [hrest hl]
    exact h.aligned hl
  order := h.order

lemma FifoInv.putByte (hlt : m.stored.length < 2^31) (hpc : m.wr = .byte i w) : FifoInv { m with
      wr := .incr i, pBuf := update m.pBuf (ringIndex w) (m.vbuf.getD i 0),
      stored := m.stored++[m.vbuf.getD i 0] } := by
  have hwr := h.wr
  have hstored := h.stored
  simp only [hpc,WritePc.Knows,WritePc.ahead,Nat.add_zero] at hwr hstored
  obtain ⟨hi,rfl,hroom⟩ := hwr
  have hbelow := h.below
  exact {
    taken := by
      simp only [take_append_of_le_length (by omega : m.pRpos.toNat+m.rd.ahead ≤ m.stored.length)]
      exact h.taken
    stored := by simp [hstored,WritePc.ahead]
    below := h.below
    room := by
      simp only [length_append,length_singleton]
      omega
    window := by
      simp only [ringIndex_eq (h.lt hlt).1,← hstored]
      exact h.window.push (by omega) _
    rd := h.rd
    wr := hi
    aligned := fun hl => by
      have hrest : m.rest = m.vbuf.getD i 0 :: m.vbuf.drop (i+1) := by
        simp only [rest,hpc]
        rw [drop_eq_getElem_cons hi]
        simp [List.getD,hi]
      have := h.aligned hl
      rw [hrest] at this
      simpa [rest] using this
    order := h.order }

lemma FifoInv.incrWpos (hlt : m.stored.length < 2^31) (hpc : m.wr = .store i w) : FifoInv { m with
      pWpos := w+1, wr := if i+1 < m.vbuf.length then .wpos (i+1) else .idle } := by
  have hwr := h.wr
  have hstored := h.stored
  simp only [hpc,WritePc.Knows,WritePc.ahead] at hwr hstored
  obtain ⟨_,rfl⟩ := hwr
  have hsucc := toNat_succ (h.lt hlt).1
  have hbelow := h.below
  have hahead : (if i+1 < m.vbuf.length then WritePc.wpos (i+1) else .idle).ahead = 0 := by
    split <;> rfl
  exact {
    taken := h.taken
    stored := by simp only [hahead,hsucc,hstored]
    below := by
      simp only [hsucc]
      omega
    room := h.room
    window := h.window
    rd := by
      have hrd := h.rd
      revert hrd
      cases m.rd with
      | take i =>
        simp only [ReadPc.Knows,hsucc]
        omega
      | byte i r =>
        simp only [ReadPc.Knows,hsucc]
        exact fun hk => ⟨hk.1,by omega⟩
      | _ => exact id
    wr := by
      split
      · assumption
      trivial
    aligned := fun hl => by
      have halign := h.aligned hl
      simp only [rest,hpc] at halign
      by_cases hlast : i+1 < m.vbuf.length
      · simpa only [rest,if_pos hlast] using halign
      simpa only [rest,if_neg hlast,drop_eq_nil_of_le (not_lt.mp hlast)] using halign
    order := h.order }

lemma FifoInv.pipeisclosed {c : ClosedPc} (hpc : m.wr = .closed i c) :
    match m.pipeisclosed .writer c with
    | .inl c' => c'.Knows m
    | .inr true => m.rd = .gone
    | .inr false => True := by
  have hwr := h.wr
  simp only [hpc,WritePc.Knows] at hwr
  have hk := hwr.2
  cases c with
  | runs => trivial
  | fd n => simp [Pipe.pipeisclosed,ClosedPc.Knows,Pipe.fdRefs,hpc]
  | page n ref =>
    simp only [ClosedPc.Knows] at hk
    simp only [Pipe.pipeisclosed,ClosedPc.Knows,Pipe.pageRefs,hpc,hk,beq_iff_eq]
    split
    · exact fun _ => by assumption
    intro hc
    simp only [reduceCtorEq,if_false] at hc
    omega
  | again n ret =>
    simp only [Pipe.pipeisclosed]
    split
    · rename_i heq
      split at heq
      · cases heq
      obtain rfl := Sum.inl.inj heq
      trivial
    · rename_i heq
      split at heq
      · exact hk (Sum.inr.inj heq)
      cases heq
    trivial

lemma FifoInv.pipewrite (hlt : m'.stored.length < 2^31)
    (hs : m.pipewrite = some m') : FifoInv m' := by
  have hk := h.wr
  unfold Pipe.pipewrite at hs
  cases hpc : m.wr with
  | idle => simp [hpc] at hs
  | gone => simp [hpc] at hs
  | wpos i =>
    simp only [hpc,some.injEq] at hs hk
    subst hs
    exact h.moveWr (by simp [hpc,WritePc.ahead]) ⟨hk,rfl⟩ fun _ => by simp [Pipe.rest,hpc]
  | rpos i w =>
    simp only [hpc] at hs hk
    split at hs
    · cases hs
      exact h.moveWr (by simp [hpc,WritePc.ahead]) ⟨hk.1,trivial⟩ fun _ => by simp [Pipe.rest,hpc]
    rename_i hne
    cases hs
    refine h.moveWr (by simp [hpc,WritePc.ahead]) ⟨hk.1,?_⟩ fun _ => by simp [Pipe.rest,hpc]
    have hr := (h.lt hlt).2
    have h32 : (ofNat 32 PIPEBUFSIZ).toNat = 32 := rfl
    rw [hk.2,le_def,toNat_add,h32] at hne
    simp only [PIPEBUFSIZ]
    omega
  | closed i c =>
    have hc := h.pipeisclosed hpc
    simp only [hpc] at hs hk
    split at hs
    · rename_i c' heq
      cases hs
      rw [heq] at hc
      exact h.moveWr (by simp [hpc,WritePc.ahead]) ⟨hk.1,hc⟩ fun _ => by simp [Pipe.rest,hpc]
    · rename_i heq
      cases hs
      rw [heq] at hc
      exact h.moveWr (by simp [hpc,WritePc.ahead]) trivial fun hl => absurd hc hl
    cases hs
    exact h.moveWr (by simp [hpc,WritePc.ahead]) hk.1 fun _ => by simp [Pipe.rest,hpc]
  | put i =>
    simp only [hpc,some.injEq] at hs hk
    subst hs
    exact h.moveWr (by simp [hpc,WritePc.ahead]) ⟨hk.1,rfl,hk.2⟩ fun _ => by simp [Pipe.rest,hpc]
  | byte i w =>
    simp only [hpc,some.injEq] at hs
    subst hs
    simp only [length_append,length_singleton] at hlt
    exact h.putByte (by omega) hpc
  | incr i =>
    simp only [hpc,some.injEq] at hs hk
    subst hs
    exact h.moveWr (by simp [hpc,WritePc.ahead]) ⟨hk,rfl⟩ fun _ => by simp [Pipe.rest,hpc]
  | store i w =>
    simp only [hpc,some.injEq] at hs
    subst hs
    exact h.incrWpos hlt hpc
  | unmap =>
    simp only [hpc,some.injEq] at hs
    subst hs
    exact h.moveWr (by simp [hpc,WritePc.ahead]) trivial fun _ => by simp [Pipe.rest,hpc]

lemma FifoInv.write (hpc : m.wr = .idle) (l : List Byte) : FifoInv { m with
      vbuf := l, passed := m.passed++l, wr := if 0 < l.length then .wpos 0 else .idle } := by
  have hstored := h.stored
  simp only [hpc,WritePc.ahead] at hstored
  exact {
    taken := h.taken
    stored := by
      simp only [hstored]
      split <;> rfl
    below := h.below
    room := h.room
    window := h.window
    rd := h.rd
    wr := by
      split
      · assumption
      trivial
    aligned := fun hl => by
      have halign := h.aligned hl
      simp only [rest,hpc,append_nil] at halign
      cases l with
      | nil => simp [rest,halign]
      | cons b l => simp [rest,halign]
    order := h.order.trans (prefix_append _ _) }

lemma FifoInv.run {cur : PipeEnd} {envRuns : PipeEnd → Word} :
    FifoInv {m with cur := cur, envRuns := envRuns} :=
  {h with wr := h.wr.mono rfl rfl rfl le_rfl id}

end

lemma Pipe.stored_mono (hs : m.step a = some m') : m.stored.length ≤ m'.stored.length := by
  cases a with
  | run e =>
    cases hs
    exact le_rfl
  | access =>
    simp only [step] at hs
    split at hs
    · unfold piperead at hs
      split at hs <;> (try split at hs) <;> (try split at hs) <;>
        first | contradiction | (obtain rfl := some.inj hs; exact le_rfl)
    unfold pipewrite at hs
    split at hs <;> (try split at hs) <;>
      first | contradiction | (obtain rfl := some.inj hs; simp)
  | read n =>
    simp only [step] at hs
    split at hs
    · cases hs
      exact le_rfl
    cases hs
  | write l =>
    simp only [step] at hs
    split at hs
    · cases hs
      exact le_rfl
    cases hs
  | close =>
    simp only [step] at hs
    split at hs <;> split at hs <;>
      first | contradiction | (obtain rfl := some.inj hs; exact le_rfl)

lemma FifoInv.step (h : FifoInv m) (hs : m.step a = some m') (hlt : m'.stored.length < 2^31) :
    FifoInv m' := by
  have hlt0 := lt_of_le_of_lt (stored_mono hs) hlt
  cases a with
  | run e =>
    cases hs
    exact h.run
  | access =>
    simp only [step] at hs
    split at hs
    · exact h.piperead hlt0 hs
    exact h.pipewrite hlt hs
  | read n =>
    simp only [step] at hs
    split at hs
    · rename_i hc
      cases hs
      refine h.moveRd (by simp [hc.2]) ?_ ?_ <;> split <;> simp [hc.2,ReadPc.ahead,ReadPc.Knows]
    cases hs
  | write l =>
    simp only [step] at hs
    split at hs
    · rename_i hc
      cases hs
      exact h.write hc.2 l
    cases hs
  | close =>
    simp only [step] at hs
    split at hs <;> split at hs
    · rename_i hc
      cases hs
      exact h.moveRd (by simp [hc]) (by simp [hc,ReadPc.ahead]) trivial
    · contradiction
    · rename_i hc
      cases hs
      exact h.moveWr (by simp [hc,WritePc.ahead]) trivial fun _ => by simp [rest,hc]
    contradiction

lemma PipeRun.inv (h : PipeRun m) (hlt : m.stored.length < 2^31) : FifoInv m := by
  induction h with
  | start otherR otherW cur envRuns =>
    exact {
      taken := by simp
      stored := rfl
      below := le_rfl
      room := Nat.zero_le _
      window := Ring.Window.nil
      rd := trivial
      wr := trivial
      aligned := fun _ => rfl
      order := List.nil_prefix }
  | step _ hs ih => exact (ih (Nat.lt_of_le_of_lt (stored_mono hs) hlt)).step hs hlt

theorem pipe_fifo (h : PipeRun m) (hlt : m.stored.length < 2^31) : m.taken <+: m.passed ∧
    (0 ≤ m.pWpos.toInt-m.pRpos.toInt ∧ m.pWpos.toInt-m.pRpos.toInt ≤ PIPEBUFSIZ) ∧
    m.stored.length ≤ m.taken.length+PIPEBUFSIZ := by
  have hinv := h.inv hlt
  obtain ⟨hw,hr⟩ := hinv.lt hlt
  have hstored := hinv.stored
  have hbelow := hinv.below
  have hroom := hinv.room
  have htaken : m.taken.length = m.pRpos.toNat+m.rd.ahead := by
    rw [hinv.taken,length_take]
    omega
  have hwi : m.pWpos.toInt = m.pWpos.toNat := toInt_eq_toNat_of_lt (by omega)
  have hri : m.pRpos.toInt = m.pRpos.toNat := toInt_eq_toNat_of_lt (by omega)
  rw [hwi,hri]
  exact ⟨hinv.order,by omega,by omega⟩

/-- The writer is interrupted between the byte and `p_wpos`, and the reader between `p_rpos` and
`p_wpos`. -/
def pipeRun : List PipeAct :=
  [.write [5,6],.access,.access,.access,.access,.run .reader,.read 2,.access,.run .writer,
    .access,.access,.run .reader,.access,.access,.access,.access,.access,.access]

theorem pipe_fifo_one : ∃ m, PipeRun m ∧ m.stored = [5] ∧ m.taken = [5] ∧ m.taken <+: m.passed ∧
    (0 ≤ m.pWpos.toInt-m.pRpos.toInt ∧ m.pWpos.toInt-m.pRpos.toInt ≤ PIPEBUFSIZ) ∧
    m.stored.length ≤ m.taken.length+PIPEBUFSIZ := by
  have hrun : ((({} : Pipe).run pipeRun).map fun m => decide (m.stored = [5] ∧ m.taken = [5])) =
      some true := by decide +kernel
  obtain ⟨m,hm,hs,ht⟩ := of_map_decide hrun
  have h : PipeRun m := (PipeRun.start 0 0 .writer fun _ => 0).run pipeRun hm
  exact ⟨m,h,hs,ht,pipe_fifo h (by rw [hs]; decide)⟩

def Pipe.unread (m : Pipe) : Nat := m.stored.length-m.wr.ahead-(m.taken.length-m.rd.ahead)

def Pipe.Positioned (m : Pipe) : Prop :=
  ringIndex m.pRpos < PIPEBUFSIZ ∧ ringIndex m.pWpos < PIPEBUFSIZ ∧
    (m.pRpos = m.pWpos ↔ m.unread = 0) ∧
    (m.pRpos+ofNat 32 PIPEBUFSIZ ≤ m.pWpos ↔ m.unread = PIPEBUFSIZ)

theorem pipe_positioned (h : PipeRun m) (hlt : m.stored.length < 2^31) : m.Positioned := by
  have hinv := h.inv hlt
  obtain ⟨hw,hr⟩ := hinv.lt hlt
  have hstored := hinv.stored
  have hbelow := hinv.below
  have hroom := hinv.room
  have htaken : m.taken.length = m.pRpos.toNat+m.rd.ahead := by
    rw [hinv.taken,length_take]
    omega
  have hunread : m.unread = m.pWpos.toNat-m.pRpos.toNat := by
    rw [unread,hstored,htaken]
    omega
  have h32 : (ofNat 32 PIPEBUFSIZ).toNat = 32 := rfl
  rw [Positioned,ringIndex_eq hr,ringIndex_eq hw,hunread,le_def,toNat_add,h32,← toNat_inj]
  rw [show PIPEBUFSIZ = 32 from rfl] at hroom ⊢
  omega

theorem pipe_positioned_one : ∃ m, PipeRun m ∧ m.stored = [5] ∧ m.Positioned := by
  have hrun : ((({} : Pipe).run pipeRun).map fun m => decide (m.stored = [5])) = some true := by
    decide +kernel
  obtain ⟨m,hm,hs⟩ := of_map_decide hrun
  have h : PipeRun m := (PipeRun.start 0 0 .writer fun _ => 0).run pipeRun hm
  exact ⟨m,h,hs,pipe_positioned h (by rw [hs]; decide)⟩

def passOne : List PipeAct :=
  [.run .writer,.write [0],.access,.access,.access,.access,.access,.access,
    .run .reader,.read 1,.access,.access,.access,.access,.access,.access]

def Pipe.Rests (m : Pipe) (p : Word) : Prop :=
  m.rd = .idle ∧ m.wr = .idle ∧ m.pRpos = p ∧ m.pWpos = p

lemma passOne_rests (h : m.Rests r) (hlt : r.toNat < 2^32-32) :
    ∃ m', m.run passOne = some m' ∧ m'.Rests (r+1) := by
  obtain ⟨hrd,hwr,hr,hw⟩ := h
  have hroom : ¬r+ofNat 32 PIPEBUFSIZ ≤ r := by
    rw [le_def,toNat_add,show (ofNat 32 PIPEBUFSIZ).toNat = 32 from rfl]
    omega
  simp [passOne,run,step,piperead,pipewrite,hrd,hwr,hr,hw,hroom,Rests]

/-- After 2^31+1 bytes `p_wpos` is negative and no multiple of the buffer's size. -/
theorem pipe_position_negative : ∃ m, PipeRun m ∧ ¬m.Positioned := by
  have rests : ∀ n ≤ 2^31+1, ∃ m, PipeRun m ∧ m.Rests (ofNat 32 n) := by
    intro n
    induction n with
    | zero => exact fun _ => ⟨_,.start 0 0 .writer fun _ => 0,rfl,rfl,rfl,rfl⟩
    | succ n ih =>
      intro hn
      obtain ⟨m,hm,hr⟩ := ih (by omega)
      obtain ⟨m',hrun,hr'⟩ := passOne_rests hr (by rw [BitVec.toNat_ofNat]; omega)
      rw [ofNat_add]
      exact ⟨m',hm.run passOne hrun,hr'⟩
  obtain ⟨m,hm,hr⟩ := rests (2^31+1) le_rfl
  refine ⟨m,hm,fun h => ?_⟩
  have hi := h.2.1
  rw [hr.2.2.2] at hi
  exact absurd hi (by decide)

end fifo

end KludgeOS
