import KludgeOS.Mmu

/-!
Receiving from a socket: `serve_recv` (`net/serv.c`) and `nsipc_recv` (`lib/nsipc.c`). All clients
have the page `nsipcbuf` mapped, and between any two bytes others may run.
-/

namespace KludgeOS
open Function

/-- Where a call of `nsipc_recv` is: none, with the server, copying the given number of bytes,
returned, or panicked. -/
inductive RecvPc where
  | idle
  | serving
  | copying : Nat → RecvPc
  | returned
  | panicked
  deriving DecidableEq

structure RecvCall where
  pc : RecvPc := .idle
  len : Int := 0
  got : List Byte := []
  mem : List Byte := []
  deriving DecidableEq

structure Nsipc where
  nsipcbuf : Nat → Byte := fun _ => 0
  calls : Nat → RecvCall := fun _ => {}

inductive RecvAct where
  | request : Int → RecvAct
  /-- `lwip_recv` stores some bytes; it may wait for more. -/
  | stores : List Byte → RecvAct
  | answer
  | fails
  | copy
  | leave
  deriving DecidableEq

def storeAt (buf : Nat → Byte) (k : Nat) (l : List Byte) : Nat → Byte :=
  fun i => if k ≤ i then l.getD (i-k) (buf i) else buf i

/-- `nsipc_recv` after the answer `r`: it copies `r` bytes, taken as a `size_t`. -/
def afterAnswer (len r : Int) : RecvPc :=
  if r < 1600 ∧ r ≤ len then .copying (BitVec.ofInt 32 r).toNat else .panicked

namespace Nsipc

def setCall (m : Nsipc) (c : Nat) (q : RecvCall) : Nsipc := {m with calls := update m.calls c q}

def step (m : Nsipc) (c : Nat) : RecvAct → Option Nsipc
  | .request len =>
    if (m.calls c).pc = .idle ∨ (m.calls c).pc = .returned then
      some (m.setCall c {pc := .serving, len := len})
    else none
  | .stores l =>
    let q := m.calls c
    if q.pc = .serving ∧ q.got.length+l.length ≤ 4096 then
      some { m.setCall c {q with got := q.got++l} with
        nsipcbuf := storeAt m.nsipcbuf q.got.length l }
    else none
  | .answer =>
    let q := m.calls c
    if q.pc = .serving then some (m.setCall c {q with pc := afterAnswer q.len q.got.length}) else none
  | .fails =>
    let q := m.calls c
    if q.pc = .serving then some (m.setCall c {q with pc := afterAnswer q.len (-1), got := []})
    else none
  | .copy =>
    let q := m.calls c
    match q.pc with
    | .copying n =>
      if q.mem.length < n then
        some (m.setCall c {q with mem := q.mem++[m.nsipcbuf q.mem.length]})
      else none
    | _ => none
  | .leave =>
    let q := m.calls c
    if q.pc = .copying q.mem.length then some (m.setCall c {q with pc := .returned}) else none

def run (P : Nsipc → Nat → RecvAct → Prop) [∀ m c a, Decidable (P m c a)] (m : Nsipc) :
    List (Nat × RecvAct) → Option Nsipc
  | [] => some m
  | (c,a) :: l => if P m c a then (m.step c a).bind fun m => m.run P l else none

end Nsipc

inductive NsipcRun (P : Nsipc → Nat → RecvAct → Prop) : Nsipc → Prop where
  | start (buf : Nat → Byte) : NsipcRun P {nsipcbuf := buf}
  | step {m m' : Nsipc} {c : Nat} {a : RecvAct} : NsipcRun P m → m.step c a = some m' → P m c a →
      NsipcRun P m'

lemma NsipcRun.run {P : Nsipc → Nat → RecvAct → Prop} [∀ m c a, Decidable (P m c a)] {m m' : Nsipc}
    (h : NsipcRun P m) (l : List (Nat × RecvAct)) (hr : m.run P l = some m') : NsipcRun P m' := by
  induction l generalizing m with
  | nil =>
    cases hr
    exact h
  | cons a l ih =>
    obtain ⟨c,a⟩ := a
    unfold Nsipc.run at hr
    split at hr
    · rename_i hP
      obtain ⟨m1,h1,hr⟩ := of_bind hr
      exact ih (h.step h1 hP) hr
    cases hr

def RecvCall.Pending (q : RecvCall) : Prop := match q.pc with
  | .serving => q.got ≠ []
  | .copying _ => True
  | _ => False

/-- `lwip_recv` does not fail, and stores nothing while bytes of another call are pending. -/
def Alone (m : Nsipc) (c : Nat) : RecvAct → Prop
  | .stores _ => ∀ c', c' ≠ c → ¬(m.calls c').Pending
  | .fails => False
  | _ => True

def RecvCall.Faithful (buf : Nat → Byte) (q : RecvCall) : Prop := match q.pc with
  | .serving => q.mem = [] ∧ ∀ i b, q.got[i]? = some b → buf i = b
  | .copying n => n = q.got.length ∧ q.mem <+: q.got ∧ ∀ i b, q.got[i]? = some b → buf i = b
  | .returned => q.mem = q.got
  | _ => True

section recv

variable {m m' : Nsipc} {c : Nat} {a : RecvAct}
  {buf : Nat → Byte} {q : RecvCall} {k i : Nat} {l : List Byte}

lemma RecvCall.Faithful.page {buf' : Nat → Byte} (h : q.Faithful buf) (hp : ¬q.Pending) :
    q.Faithful buf' := by
  unfold RecvCall.Faithful RecvCall.Pending at *
  cases hpc : q.pc with
  | serving =>
    simp only [hpc,ne_eq,not_not] at h hp ⊢
    exact ⟨h.1,by simp [hp]⟩
  | copying n => simp [hpc] at hp
  | returned =>
    simp only [hpc] at h ⊢
    exact h
  | idle | panicked => trivial

lemma storeAt_below (buf : Nat → Byte) (l : List Byte) (h : i < k) :
    storeAt buf k l i = buf i := if_neg (by omega)

lemma storeAt_above (buf : Nat → Byte) {b : Byte} (h : k ≤ i) (hb : l[i-k]? = some b) :
    storeAt buf k l i = b := by
  unfold storeAt
  rw [if_pos h,List.getD_eq_getElem?_getD,hb]
  rfl

lemma setCall_self : (m.setCall c q).calls c = q := update_self _ _ _

lemma setCall_ne {c' : Nat} (h : c' ≠ c) : (m.setCall c q).calls c' = m.calls c' :=
  update_of_ne h _ _

lemma faithful_setCall (h : ∀ c, (m.calls c).Faithful m.nsipcbuf) (hq : q.Faithful m.nsipcbuf) :
    ∀ c', ((m.setCall c q).calls c').Faithful m.nsipcbuf := by
  intro c'
  by_cases hc : c' = c
  · subst hc
    rw [setCall_self]
    exact hq
  rw [setCall_ne hc]
  exact h c'

lemma faithful_stores (h : ∀ c, (m.calls c).Faithful m.nsipcbuf) (hpc : (m.calls c).pc = .serving)
    (hP : ∀ c', c' ≠ c → ¬(m.calls c').Pending) :
    ∀ c', ((m.setCall c {m.calls c with got := (m.calls c).got++l}).calls c').Faithful
      (storeAt m.nsipcbuf (m.calls c).got.length l) := by
  intro c'
  by_cases hc : c' = c
  · subst hc
    have hq := h c'
    rw [setCall_self]
    simp only [RecvCall.Faithful,hpc] at hq ⊢
    refine ⟨hq.1,fun i b hb => ?_⟩
    by_cases hi : i < (m.calls c').got.length
    · rw [List.getElem?_append_left hi] at hb
      rw [storeAt_below _ _ hi]
      exact hq.2 i b hb
    rw [List.getElem?_append_right (by omega)] at hb
    exact storeAt_above _ (by omega) hb
  rw [setCall_ne hc]
  exact (h c').page (hP c' hc)

lemma afterAnswer_length (len : Int) (k : Nat) :
    afterAnswer len k = .copying k ∨ afterAnswer len k = .panicked := by
  unfold afterAnswer
  split
  · refine .inl (congrArg RecvPc.copying ?_)
    simp only [BitVec.toNat_ofInt]
    omega
  exact .inr rfl

lemma step_answer (hpc : (m.calls c).pc = .serving) (h : (m.calls c).got.length < 1600)
    (hlen : (m.calls c).got.length ≤ (m.calls c).len) : m.step c .answer =
    some (m.setCall c {m.calls c with pc := .copying (m.calls c).got.length}) := by
  have hans : afterAnswer (m.calls c).len (m.calls c).got.length ≠ .panicked := by
    rw [afterAnswer,if_pos ⟨by omega,hlen⟩]
    simp
  simp only [Nsipc.step,hpc,if_true,(afterAnswer_length _ _).resolve_right hans]

lemma faithful_answer (h : q.Faithful buf) (hpc : q.pc = .serving) {pc : RecvPc} (hans : pc =
    .copying q.got.length ∨ pc = .panicked) : ({q with pc := pc} : RecvCall).Faithful buf := by
  simp only [RecvCall.Faithful,hpc] at h
  obtain rfl | rfl := hans
  · exact ⟨rfl,by rw [h.1]; exact List.nil_prefix,h.2⟩
  trivial

lemma faithful_copy {n : Nat} (h : q.Faithful buf) (hpc : q.pc = .copying n) (hlt :
    q.mem.length < n) : ({q with mem := q.mem++[buf q.mem.length]} : RecvCall).Faithful buf := by
  simp only [RecvCall.Faithful,hpc] at h ⊢
  obtain ⟨rfl,⟨l,hl⟩,hbuf⟩ := h
  refine ⟨rfl,?_,hbuf⟩
  cases l with
  | nil =>
    rw [List.append_nil] at hl
    rw [hl] at hlt
    omega
  | cons b l =>
    have hb : buf q.mem.length = b := hbuf _ b (by rw [← hl]; simp)
    exact ⟨l,by rw [hb,← hl]; simp⟩

lemma faithful_step (h : ∀ c, (m.calls c).Faithful m.nsipcbuf) (hs : m.step c a = some m')
    (hP : Alone m c a) : ∀ c', (m'.calls c').Faithful m'.nsipcbuf := by
  cases a with
  | request len =>
    simp only [Nsipc.step] at hs
    split at hs
    · cases hs
      exact faithful_setCall h ⟨rfl,by simp⟩
    cases hs
  | stores l =>
    simp only [Nsipc.step] at hs
    split at hs
    · rename_i hpc
      cases hs
      exact faithful_stores h hpc.1 hP
    cases hs
  | answer =>
    simp only [Nsipc.step] at hs
    split at hs
    · rename_i hpc
      cases hs
      have hans := afterAnswer_length (m.calls c).len (m.calls c).got.length
      generalize afterAnswer (m.calls c).len (m.calls c).got.length = pc at hans ⊢
      exact faithful_setCall h (faithful_answer (h c) hpc hans)
    cases hs
  | fails => exact hP.elim
  | copy =>
    simp only [Nsipc.step] at hs
    split at hs
    · rename_i hpc
      split at hs
      · rename_i hlt
        cases hs
        exact faithful_setCall h (faithful_copy (h c) hpc hlt)
      cases hs
    cases hs
  | leave =>
    simp only [Nsipc.step] at hs
    split at hs
    · rename_i hpc
      cases hs
      refine faithful_setCall h ?_
      have hq := h c
      simp only [RecvCall.Faithful,hpc] at hq ⊢
      exact hq.2.1.eq_of_length hq.1
    cases hs

lemma NsipcRun.faithful (h : NsipcRun Alone m) : ∀ c, (m.calls c).Faithful m.nsipcbuf := by
  induction h with
  | start buf => exact fun _ => trivial
  | step _ hs hP ih => exact faithful_step ih hs hP

/-- Each client copies just the bytes `lwip_recv` has stored for its request, if nothing else is
stored meanwhile. -/
theorem recv_own_bytes (h : NsipcRun Alone m) (c : Nat) :
    (∀ n, (m.calls c).pc = .copying n → (m.calls c).mem <+: (m.calls c).got) ∧
      ((m.calls c).pc = .returned → (m.calls c).mem = (m.calls c).got) := by
  have hf := h.faithful c
  constructor
  · intro n hpc
    simp only [RecvCall.Faithful,hpc] at hf
    exact hf.2.1
  intro hpc
  simpa only [RecvCall.Faithful,hpc] using hf

end recv

theorem recv_own_bytes_two : ∃ m, NsipcRun Alone m ∧ (m.calls 0).mem = [1,2] ∧
    (m.calls 1).pc = .copying 1 ∧ (m.calls 1).got = [7] ∧ (m.calls 1).mem <+: [7] := by
  have h0 : NsipcRun Alone {nsipcbuf := fun _ => 0} := .start _
  have h1 := h0.step (c := 0) (a := .request 10) rfl trivial
  have h2 := h1.step (c := 0) (a := .stores [1,2]) rfl (by
    intro c' hc
    simp [Nsipc.setCall,hc,RecvCall.Pending])
  have h3 := h2.step (c := 0) (a := .answer) (step_answer rfl (by decide) (by decide)) trivial
  have h4 := h3.step (c := 0) (a := .copy) rfl trivial
  have h5 := h4.step (c := 0) (a := .copy) rfl trivial
  have h6 := h5.step (c := 0) (a := .leave) rfl trivial
  have h7 := h6.step (c := 1) (a := .request 10) rfl trivial
  have h8 := h7.step (c := 1) (a := .stores [7]) rfl (by
    intro c' hc
    by_cases hc0 : c' = 0
    · subst hc0
      exact id
    · simp [Nsipc.setCall,hc,hc0,RecvCall.Pending])
  have h9 := h8.step (c := 1) (a := .answer) (step_answer rfl (by decide) (by decide)) trivial
  have h10 := h9.step (c := 1) (a := .copy) rfl trivial
  exact ⟨_,h10,rfl,rfl,rfl,(recv_own_bytes h10 1).1 1 rfl⟩

def crossedRun : List (Nat × RecvAct) :=
  [(0,.request 10),(1,.request 10),(0,.stores [1,2]),(0,.answer),(1,.stores [7,8]),(1,.answer),
   (0,.copy),(0,.copy),(0,.leave)]

theorem recv_crossed : ∃ m, NsipcRun (fun _ _ _ => True) m ∧ (m.calls 0).pc = .returned ∧
    (m.calls 0).got = [1,2] ∧ (m.calls 0).mem = [7,8] := by
  have hrun : (({} : Nsipc).run (fun _ _ _ => True) crossedRun).map (fun m => decide
      ((m.calls 0).pc = .returned ∧ (m.calls 0).got = [1,2] ∧ (m.calls 0).mem = [7,8])) = some true := by
    decide +kernel
  obtain ⟨m,hm,hd⟩ := of_map_decide hrun
  exact ⟨m,(NsipcRun.start _).run crossedRun hm,hd⟩

section lengths

/-- A call of `lwip_recv` or `lwip_send` for `len` bytes at offset `mem` of a page. -/
structure LwipCall where
  s : Word
  mem : Nat
  len : Word
  flags : Word

/-- The words of the request are `rq`, and `mem` is in `nsipcbuf`. -/
def serveRecv (rq : Nat → Word) : LwipCall := ⟨rq 0,0,rq 1,rq 2⟩

/-- Here `mem` is `req_dataptr`, in the page of the request. -/
def serveSend (rq : Nat → Word) : LwipCall := ⟨rq 0,12,rq 1,rq 2⟩

def LwipCall.Inside (c : LwipCall) : Prop := ∀ k < c.len.toNat, c.mem+k < PGSIZE

lemma LwipCall.inside_iff {c : LwipCall} (h : c.mem ≤ PGSIZE) :
    c.Inside ↔ c.mem+c.len.toNat ≤ PGSIZE := by
  constructor
  · intro hi
    by_contra hgt
    have := hi (PGSIZE-c.mem) (by omega)
    omega
  intro hle k hk
  omega

/-- The handlers stay inside the page exactly for the lengths that fit, and test none. -/
theorem serve_inside_iff (rq : Nat → Word) : ((serveRecv rq).Inside ↔ (rq 1).toNat ≤ 4096) ∧
    ((serveSend rq).Inside ↔ (rq 1).toNat ≤ 4084) := by
  rw [LwipCall.inside_iff (Nat.zero_le _),LwipCall.inside_iff (by change 12 ≤ 4096; decide)]
  simp only [serveRecv,serveSend,PGSIZE]
  omega

theorem serve_outside : ¬(serveRecv fun _ => 4097).Inside ∧ ¬(serveSend fun _ => 4085).Inside :=
  ⟨fun h => absurd (h 4096 (by decide)) (by decide),fun h => absurd (h 4084 (by decide)) (by decide)⟩

/-- The number of bytes stored to `addr`, what is stored to `addrlen`, and the result. -/
def nsipcAccept (r retAddrlen : Word) : Nat × Option Word × Word :=
  (retAddrlen.toNat,some retAddrlen,r)

/-- The number of bytes copied to `req_dataptr`, unless the assertion fails. -/
def nsipcSend (size : Word) : Option Nat := if size.toInt < 1600 then some size.toNat else none

/-- The answer `r` is survived: a negative one is returned, and makes nothing be stored. -/
structure Survives (len r retAddrlen size : Word) : Prop where
  recv : ∀ n, afterAnswer len.toInt r.toInt = .copying n → (n : Int) ≤ max 0 (min r.toInt len.toInt)
  returns : r.toInt < 0 → afterAnswer len.toInt r.toInt ≠ .panicked
  accept : r.toInt < 0 → (nsipcAccept r retAddrlen).1 = 0 ∧ (nsipcAccept r retAddrlen).2.1 = none
  send : ∀ n, nsipcSend size = some n → 0 ≤ size.toInt ∧ 12+n ≤ PGSIZE

theorem survives_iff (len r retAddrlen size : Word) :
    Survives len r retAddrlen size ↔ 0 ≤ r.toInt ∧ 0 ≤ size.toInt := by
  constructor
  · intro h
    constructor
    · by_contra hneg
      exact absurd (h.accept (by omega)).2 nofun
    by_contra hneg
    exact hneg (h.send size.toNat (if_pos (by omega))).1
  have hnat {w : Word} (h : 0 ≤ w.toInt) : (w.toNat : Int) = w.toInt := by
    have hw := w.isLt
    have hc := BitVec.toInt_eq_toNat_cond w
    split at hc <;> omega
  rintro ⟨hr,hs⟩
  refine ⟨fun n hn => ?_,fun h => by omega,fun h => by omega,fun n hn => ⟨hs,?_⟩⟩
  · unfold afterAnswer at hn
    split at hn
    · cases hn
      rw [BitVec.ofInt_toInt,hnat hr]
      exact le_max_of_le_right (le_min le_rfl ‹_ ∧ _›.2)
    · cases hn
  unfold nsipcSend at hn
  split at hn
  · cases hn
    have := hnat hs
    rw [PGSIZE]
    omega
  · cases hn

theorem error_not_survived : ¬Survives 1 (-1) 0 0 := fun h => absurd (h.accept (by decide)).2 nofun

end lengths

end KludgeOS
