import KludgeOS.TrapSpec

/-!
Every step of the machine is a sequence of events, so the invariant holds in
every reachable state.
-/

namespace KludgeOS
open Kern (modEnv_other modEnv_self Flow pageAlloc)
open BitVec (toNat_sub ofNat)
open BitVec Event List
open Event (apply)

open Ledger Traces

def Event.InTrap (s : Kern) (c : Nat) (tf : Trapframe) (x : Ext) : Event → Prop
  | .map _ _ w perm => (perm&&&PTE_W ≠ 0 → w&&&PTE_W ≠ 0) ∨
      (tf.trapno = 48 ∧ tf.regs.eax = 13 ∧ perm = tf.regs.edi ∧
        s.SendsPage c tf.regs.edx tf.regs.ebx tf.regs.edi w)
  | .fresh _ _ _ _ => tf.trapno = 48 ∧ tf.regs.eax = 5
  | .edit _ (.frame f) =>
      f = tf ∨ f = childFrame tf ∨ (tf.trapno = 48 ∧ tf.regs.eax = 10 ∧ f = x.frame)
  | _ => True

lemma Event.Plain.inTrap {a : Event} (h : a.Plain) {s : Kern} {c : Nat} {tf : Trapframe}
    {x : Ext} : a.InTrap s c tf x := by
  cases a with
  | map => exact h.elim
  | fresh => exact h.elim
  | edit e k =>
    cases k with
    | frame f => exact h.elim
    | _ => trivial
  | _ => trivial

def Kern.saved (s : Kern) (c : Nat) (tf : Trapframe) : Kern := s.modEnv c fun v => {v with envTf := tf}

/-- What happens while a trap of `c` is handled, up to the choice of the next environment. -/
def Event.Handles (s : Kern) (c : Nat) (tf : Trapframe) (x : Ext) (a : Event) : Prop :=
  a = .edit c (.frame tf) ∨ (a.Own c ∧ a.Plain) ∨ (tf.trapno ≠ 48 ∧ a.Kills c) ∨
    tf.trapno = 48 ∧ a.InCall (s.saved c tf) c tf.regs.eax tf.regs.edx tf.regs.ecx tf.regs.ebx
      tf.regs.edi tf.regs.esi x

section trap

variable {K : Finset Nat} {s s' : Kern} {c : Nat} {tf : Trapframe} {x : Ext}

lemma saved_inv (h : Inv K NoHand s) (tf : Trapframe) : Inv K NoHand (s.saved c tf) :=
  h.event (a := .edit c (.frame tf)) trivial

variable {e : Nat} {a : Event}

lemma saved_envs_ne (hne : e ≠ c) : (s.saved c tf).envs e = s.envs e := modEnv_other _ _ hne

lemma live_saved : (s.saved c tf).Live e ↔ s.Live e := by
  by_cases hec : e = c
  · subst hec
    unfold Kern.Live
    rw [Kern.saved,modEnv_self]
  unfold Kern.Live
  rw [saved_envs_ne hec]

lemma saved_envTf : ((s.saved c tf).envs c).envTf = tf := congrArg Env.envTf (modEnv_self _ _ _)

lemma utf_length (tf : Trapframe) (w : Word) :
    ((utfWords tf w).flatMap Kern.wordBytes).length = 52 := rfl

lemma Event.Stores.own (h : a.Stores e) : a.Own c ∧ a.Plain := by
  cases a with
  | store => exact ⟨trivial,trivial⟩
  | _ => exact h.elim

lemma Kern.GoesOn.ran (hc : c < NENV) (hcur : s.curenv = some c) (hr : (s.envs c).envStatus =
    .running) : (apply (.edit c .ran) s).GoesOn c (apply (.edit c .ran) s) := by
  have hr' : ((apply (.edit c .ran) s).envs c).envStatus = .running := by
    rw [apply,modEnv_self]
    exact hr
  exact .inl ⟨rfl,hcur,⟨hc,by rw [hr']; simp⟩,hr'⟩

lemma enterUpcall_exits (hc : s.Live c) (hcur : s.curenv = some c) {utf : Word}
    (hutf : utf.toNat+52 ≤ UTOP.toNat) (hs : s.enterUpcall c utf x = some s') :
    s.Exits (fun a => a.Own c ∧ a.Plain) c (.switched : Flow Unit) s' := by
  obtain ⟨s1,h1,hs⟩ := of_bind hs
  obtain ⟨hd,henv,hcur1⟩ := storeBytes_does _ utf s hc (by rw [utf_length]; exact hutf) h1
  simp only at hs
  split at hs
  · rename_i hr
    cases hs
    exact ⟨_,((hd.mono fun a ha => ha.own).trans
      (.one (a := .edit c (.enterUpcall utf)) trivial ⟨trivial,trivial⟩)).trans
      (.one (a := .edit c .ran) trivial ⟨trivial,trivial⟩),.ran hc.1 (hcur1.trans hcur) hr⟩
  cases hs

lemma utf_below {esp : Word} (htop : esp < UXSTACKTOP) (hbot : UXSTACKTOP-0x1000 ≤ esp) :
    (esp-SIZEOF_UTRAPFRAME-4).toNat+52 ≤ UTOP.toNat := by
  have h1 : esp.toNat < UXSTACKTOP.toNat := htop
  have h2 : (UXSTACKTOP-0x1000).toNat ≤ esp.toNat := hbot
  rw [show UXSTACKTOP.toNat = 4005560320 from rfl] at h1
  rw [show (UXSTACKTOP-0x1000).toNat = 4005556224 from rfl] at h2
  rw [toNat_sub,toNat_sub,show SIZEOF_UTRAPFRAME.toNat = 52 from rfl,
    show (4 : Word).toNat = 4 from rfl,show UTOP.toNat = 4005560320 from rfl]
  omega

lemma pageFaultHandler_exits (h : Inv K NoHand s) (hc : s.Live c) (hcur : s.curenv = some c)
    (hs : s.pageFaultHandler c x = some s') :
    s.Exits (fun a => (a.Own c ∧ a.Plain) ∨ a.Kills c) c (.switched : Flow Unit) s' := by
  have hdestroy : ∀ {r : Flow Unit} {t : Kern}, s.envDestroy c = some (r,t) →
      s.Exits (fun a => (a.Own c ∧ a.Plain) ∨ a.Kills c) c (.switched : Flow Unit) t := by
    intro r t hd
    obtain ⟨_,hne,_⟩ | ⟨rfl,_⟩ := envDestroy_spec h hc hd
    · exact absurd hcur hne
    exact (envDestroy_exits h hc hcur hc hd).mono fun a ha => .inr ha
  have henter : ∀ {utf : Word} {t : Kern}, utf.toNat+52 ≤ UTOP.toNat →
      s.enterUpcall c utf x = some t →
      s.Exits (fun a => (a.Own c ∧ a.Plain) ∨ a.Kills c) c (.switched : Flow Unit) t :=
    fun hutf he => (enterUpcall_exits hc hcur hutf he).mono fun a ha => .inl ha
  unfold Kern.pageFaultHandler at hs
  simp only at hs
  split at hs
  · obtain ⟨⟨f,s1⟩,h1,hs⟩ := of_bind hs
    cases f with
    | switched =>
      cases hs
      exact (userMemAssert_exits h hc hcur hc h1).mono fun a ha => .inr ha
    | ret v =>
      obtain rfl := userMemAssert_ret h hc hcur h1
      simp only at hs
      split at hs
      · rename_i hesp
        obtain ⟨⟨f,s2⟩,h2,hs⟩ := of_bind hs
        cases f with
        | switched =>
          cases hs
          exact (userMemAssert_exits h hc hcur hc h2).mono fun a ha => .inr ha
        | ret v =>
          obtain rfl := userMemAssert_ret h hc hcur h2
          simp only at hs
          split at hs
          · obtain ⟨⟨f,s3⟩,h3,hs⟩ := of_bind hs
            cases hs
            exact hdestroy h3
          exact henter (utf_below hesp.1 hesp.2) hs
      exact henter (by decide) hs
  obtain ⟨⟨f,s3⟩,h3,hs⟩ := of_bind hs
  cases hs
  exact hdestroy h3

lemma envid2env_frame (e : Nat) (tf : Trapframe) (c : Nat) (envid : Word) (k : Bool) :
    (s.modEnv e fun v => {v with envTf := tf}).envid2env c envid k = s.envid2env c envid k := by
  have hst : ∀ i, ((s.modEnv e fun v => {v with envTf := tf}).envs i).envStatus =
      (s.envs i).envStatus := by
    intro i
    by_cases hi : i = e
    · subst hi; rw [modEnv_self]
    rw [modEnv_other _ _ hi]
  have hid : ∀ i, ((s.modEnv e fun v => {v with envTf := tf}).envs i).envId = (s.envs i).envId := by
    intro i
    by_cases hi : i = e
    · subst hi; rw [modEnv_self]
    rw [modEnv_other _ _ hi]
  have hpar : ∀ i, ((s.modEnv e fun v => {v with envTf := tf}).envs i).envParentId =
      (s.envs i).envParentId := by
    intro i
    by_cases hi : i = e
    · subst hi; rw [modEnv_self]
    rw [modEnv_other _ _ hi]
  simp only [Kern.envid2env,hst,hid,hpar]

lemma sendsPage_frame {tf : Trapframe} {envid srcva perm w : Word}
    (h : (s.modEnv c fun v => {v with envTf := tf}).SendsPage c envid srcva perm w) :
    s.SendsPage c envid srcva perm w := by
  obtain ⟨t,ht,hrecv,hsrc,hva,hperm,hd,hw⟩ := h
  rw [envid2env_frame] at ht
  have hbox : ((s.modEnv c fun v => {v with envTf := tf}).envs t).envIpcRecving =
      (s.envs t).envIpcRecving ∧
      ((s.modEnv c fun v => {v with envTf := tf}).envs t).envIpcDstva = (s.envs t).envIpcDstva := by
    by_cases hi : t = c
    · subst hi; rw [modEnv_self]; exact ⟨rfl,rfl⟩
    rw [modEnv_other _ _ hi]; exact ⟨rfl,rfl⟩
  have hdir : (s.modEnv c fun v => {v with envTf := tf}).pgdir c = s.pgdir c := by
    rw [Kern.pgdir,modEnv_self]
  rw [Kern.pte,hdir] at hw
  exact ⟨t,ht,hbox.1 ▸ hrecv,hsrc,hva,hperm,hbox.2 ▸ hd,hw⟩

lemma Event.Allowed.inTrap (htf : tf.trapno = 48)
    (h : a.Allowed (s.modEnv c fun v => {v with envTf := tf}) c tf.regs.eax tf.regs.edx
      tf.regs.ebx tf.regs.edi x) : a.InTrap s c tf x := by
  cases a with
  | map e n w perm =>
    obtain h | ⟨hno,hp,hsend⟩ := h
    · exact .inl h
    exact .inr ⟨htf,hno,hp,sendsPage_frame hsend⟩
  | fresh => exact ⟨htf,h⟩
  | edit e k =>
    cases k with
    | frame f =>
      obtain h | ⟨hno,hf⟩ := h
      · rw [modEnv_self] at h
        exact .inr (.inl h)
      exact .inr (.inr ⟨htf,hno,hf⟩)
    | _ => trivial
  | _ => trivial

lemma Event.Kills.plain (h : a.Kills e) : a.Plain := by
  cases a with
  | unmap | dropTable | reap | sched => trivial
  | _ => exact h.elim

lemma Event.Handles.inTrap (h : a.Handles s c tf x) : a.InTrap s c tf x := by
  obtain rfl | ⟨_,h⟩ | ⟨_,h⟩ | ⟨h48,_,h,_⟩ := h
  · exact .inl rfl
  · exact h.inTrap
  · exact h.plain.inTrap
  exact h.inTrap h48

lemma trapReturn_exits (hc : s.Live c) (hcur : s.curenv = some c) (hs : s.trapReturn c = some s')
    : ∃ s1, Does (fun a => a.Own c ∧ a.Plain) s s1 ∧ s1.GoesOn c s' := by
  unfold Kern.trapReturn at hs
  split at hs
  · rename_i hr
    cases hs
    exact ⟨_,.one (a := .edit c .ran) trivial ⟨trivial,trivial⟩,.ran hc.1 hcur hr⟩
  refine ⟨_,.one (a := .edit c (.status .runnable)) ⟨hc,by simp⟩ ⟨⟨by simp,rfl⟩,trivial⟩,
    .inr ⟨?_,hs⟩⟩
  simp [apply,modEnv_self,Edit.apply]

section

variable (h : Inv K NoHand s) (hc : s.Live c) (hcur : s.curenv = some c) (hnic : NicInBounds tf x)
include h hc hcur hnic

lemma trapDispatch_exits {r : Flow Unit} (hs : (s.saved c tf).trapDispatch c x = some (r,s')) :
    (s.saved c tf).Exits (Handles s c tf x) c r s' := by
  have hi := saved_inv (c := c) h tf
  have hl : (s.saved c tf).Live c := live_saved.mpr hc
  have hcur0 : (s.saved c tf).curenv = some c := hcur
  have hother : ∀ (k : Nat) {a : Event}, tf.trapno.toNat = k → k ≠ 48 →
      (a.Own c ∧ a.Plain) ∨ a.Kills c → a.Handles s c tf x := by
    rintro k a rfl h48 (ha | ha)
    · exact .inr (.inl ha)
    exact .inr (.inr (.inl ⟨fun hc => h48 (by rw [hc]; rfl),ha⟩))
  unfold Kern.trapDispatch at hs
  simp only [saved_envTf] at hs
  split at hs
  · cases hs
  · cases hs
    exact .here hcur0 hl
  · cases hs
    exact .here hcur0 hl
  · rename_i hk
    obtain ⟨s1,h1,hs⟩ := of_bind hs
    cases hs
    exact (pageFaultHandler_exits hi hl hcur0 h1).mono fun a ha => hother 14 hk (by decide) ha
  · cases hs
  · cases hs
  · rename_i hk
    have h48 : tf.trapno = 48 := eq_of_toNat_eq (by rw [hk]; rfl)
    obtain ⟨⟨f,s1⟩,h1,hs⟩ := of_bind hs
    have hf := (syscall_exits hi hl hcur0 (hnic.recv h48) hnic.size h1).mono
      (Q := Handles s c tf x) fun a ha => .inr (.inr (.inr ⟨h48,ha⟩))
    cases f with
    | switched =>
      cases hs
      exact hf
    | ret v =>
      cases hs
      obtain ⟨_,hd,rfl,hcur1,hl1⟩ := id hf
      exact hf.trans (.stays (hd.inv hi) hl1 hcur1 (.one (a := .edit c (.eax (BitVec.ofInt 32 v)))
        trivial ⟨.inr (.inl ⟨trivial,trivial⟩),trivial⟩))
  · obtain ⟨s1,h1,hs⟩ := of_bind hs
    cases hs
    exact (sysYield_exits hl h1).mono fun a ha => .inr (.inl ha)
  · cases hs
    exact .here hcur0 hl
  · cases hs
    exact .here hcur0 hl
  · cases hs
    exact .here hcur0 hl
  rename_i h48 _ _ _ _
  exact (envDestroy_exits hi hl hcur0 hl hs).mono fun a ha => hother _ rfl h48 (.inr ha)

lemma trap_handles (hs : s.trap c tf x = some s') :
    ∃ s1, Does (Handles s c tf x) s s1 ∧ s1.GoesOn c s' := by
  obtain ⟨⟨f,s1⟩,h1,hs⟩ := of_bind hs
  have hone : Does (Handles s c tf x) s (s.saved c tf) :=
    .one (a := .edit c (.frame tf)) trivial (.inl rfl)
  obtain ⟨s2,hd,hf⟩ := trapDispatch_exits h hc hcur hnic h1
  cases f with
  | switched =>
    cases hs
    exact ⟨s2,hone.trans hd,hf⟩
  | ret v =>
    obtain ⟨rfl,hcur2,hl2⟩ := hf
    obtain ⟨s3,hd3,hg⟩ := trapReturn_exits hl2 hcur2 hs
    exact ⟨s3,(hone.trans hd).trans (hd3.mono fun a ha => .inr (.inl ha)),hg⟩

lemma trap_does (hs : s.trap c tf x = some s') :
    Does (InTrap s c tf x) s s' ∧ ∃ e, s'.curenv = some e ∧ s'.Live e := by
  obtain ⟨s1,hd,hg⟩ := trap_handles h hc hcur hnic hs
  exact ⟨(hd.mono fun a ha => ha.inTrap).trans (hg.does.mono fun a ha => ha.inTrap),hg.cur⟩

end

end trap

section create

variable {K : Finset Nat} {e : Nat}

def Event.Loads : Event → Prop
  | .fresh _ _ zero _ => zero = false
  | .spawn _ => True
  | .edit _ (.entry _) => True
  | _ => False

def Event.LoadPerm : Event → Prop
  | .fresh _ _ _ perm => perm = PTE_U|||PTE_W|||PTE_P
  | .map _ _ _ _ => False
  | _ => True

def Event.OfLoader (a : Event) : Prop := a.Loads ∧ a.Stays ∧ a.LoadPerm

variable {s s' : Kern} {p : Nat} {q : List Nat}

lemma popPage_false (hq : s.pageFreeList = p :: q) :
    ({s with pageFreeList := q} : Kern) = popPage s false p := by simp [popPage,hq,Kern.withPages]

lemma segmentPage_does (h : Inv K NoHand s) (he : s.Live e) (hq : s.pageFreeList = p :: q)
    {va : Word} (hva : va < UTOP)
    (hs : ({s with pageFreeList := q} : Kern).pageInsert (s.pgdir e) p va
      (PTE_U|||PTE_W|||PTE_P) = some (0,s')) : Does OfLoader s s' := by
  rw [popPage_false hq] at hs
  obtain ⟨hr,_⟩ | ⟨_,hok,rfl⟩ := pageInsert_fresh h he hva (by decide) hq false hs
  · exact absurd hr (by decide)
  exact .one hok ⟨rfl,trivial,rfl⟩

lemma segmentLoop_does (n : Nat) : ∀ (v : Word) (s : Kern), Inv K NoHand s → s.Live e →
    v.toNat+4096*n < UTOP.toNat+4096 → Kern.segmentLoop e n v s = some s' → Does OfLoader s s' := by
  induction n with
  | zero =>
    intro v s h he hv hs
    cases hs
    exact .refl
  | succ n ih =>
    intro v s h he hv hs
    have hU : UTOP.toNat = 4005560320 := rfl
    have hlt : v < UTOP := by
      change v.toNat < UTOP.toNat
      omega
    have hnext : (v+ofNat 32 PGSIZE).toNat = v.toNat+4096 := by
      rw [toNat_add,show (ofNat 32 PGSIZE).toNat = 4096 from rfl]
      omega
    cases hq : s.pageFreeList with
    | nil => simp [Kern.segmentLoop,pageAlloc,hq] at hs
    | cons p q =>
      simp only [Kern.segmentLoop,pageAlloc,hq] at hs
      obtain ⟨⟨r,s1⟩,h1,hs⟩ := of_bind hs
      have hrs : r = 0 ∨ r < 0 := by
        have h1' := h1
        rw [popPage_false hq] at h1'
        obtain ⟨rfl,_⟩ | ⟨rfl,_⟩ := pageInsert_fresh h he hlt (by decide) hq false h1'
        · exact .inr (by decide)
        exact .inl rfl
      obtain rfl | hr := hrs
      · simp only [Int.lt_irrefl,if_false] at hs
        have hd := segmentPage_does h he hq hlt h1
        exact hd.trans (ih _ s1 (hd.inv h) (hd.stays h (fun a ha => ha.2.1) he).1
          (by rw [hnext]; omega) hs)
      simp [hr] at hs

lemma segmentAlloc_does (h : Inv K NoHand s) (he : s.Live e) {g : Kern.Segment}
    (hg : g.va.toNat+g.memsz.toNat ≤ UTOP.toNat) (hs : s.segmentAlloc e g = some s') :
    Does OfLoader s s' := by
  have hU : UTOP.toNat = 4005560320 := rfl
  have hva := g.va.isLt
  unfold Kern.segmentAlloc at hs
  simp only at hs
  refine segmentLoop_does _ _ s h he ?_ hs
  have h1 : (g.va-ofNat 32 (g.va.toNat%PGSIZE)).toNat ≤ g.va.toNat := by
    rw [toNat_sub,toNat_ofNat,PGSIZE_eq]
    omega
  have h2 : (g.memsz+ofNat 32 (PGSIZE-1)).toNat = g.memsz.toNat+4095 := by
    rw [toNat_add,show (ofNat 32 (PGSIZE-1)).toNat = 4095 from rfl]
    omega
  rw [h2,PGSIZE_eq]
  rw [PGSIZE_eq] at h1
  omega

lemma loadSegments_does (l : List Kern.Segment) :
    ∀ s : Kern, Inv K NoHand s → s.Live e → (∀ g ∈ l, g.va.toNat+g.memsz.toNat ≤ UTOP.toNat) →
      Kern.loadSegments e l s = some s' → Does OfLoader s s' := by
  induction l with
  | nil =>
    intro s h he hl hs
    cases hs
    exact .refl
  | cons g l ih =>
    intro s h he hl hs
    obtain ⟨s1,h1,hs⟩ := of_bind hs
    have hd := segmentAlloc_does h he (hl g (by simp)) h1
    exact hd.trans (ih s1 (hd.inv h) (hd.stays h (fun a ha => ha.2.1) he).1
      (fun g hg => hl g (by simp [hg])) hs)

lemma envCreate_does (h : Inv K NoHand s) {entry : Word} {l : List Kern.Segment}
    (hl : ∀ g ∈ l, g.va.toNat+g.memsz.toNat ≤ UTOP.toNat) (hs : s.envCreate entry l = some (0,s')) :
    Does OfLoader s s' := by
  unfold Kern.envCreate at hs
  rw [envAlloc_eq h] at hs
  cases hf : s.envFreeList with
  | nil => simp [hf] at hs
  | cons e f =>
    by_cases hq : s.pageFreeList = []
    · simp [hf,hq] at hs
    obtain ⟨he,_⟩ := (h.table.free_iff e).mp (by simp [hf])
    simp only [hf,if_neg hq,bind,Option.bind_some] at hs
    have hok : Ok s (.spawn 0) := ⟨by simp [hf],hq⟩
    have hd1 : Does OfLoader s (apply (.spawn 0) s) :=
      .one hok ⟨trivial,trivial,trivial⟩
    have hl1 : (apply (.spawn 0) s).Live e := by
      simp only [apply,hf,headD_cons]
      exact live_spawn he
    have hd2 : Does OfLoader (apply (.spawn 0) s)
        (apply (.edit e (.entry entry)) (apply (.spawn 0) s)) :=
      .one trivial ⟨trivial,trivial,trivial⟩
    have hd12 := hd1.trans hd2
    have hl2 := (hd2.stays (hd1.inv h) (fun a ha => ha.2.1) hl1).1
    obtain ⟨s3,h3,hs⟩ := of_bind hs
    have hd3 := loadSegments_does l _ (hd12.inv h) hl2 hl h3
    have hl3 := (hd3.stays (hd12.inv h) (fun a ha => ha.2.1) hl2).1
    have hi3 := (hd12.trans hd3).inv h
    cases hq3 : s3.pageFreeList with
    | nil => simp [pageAlloc,hq3] at hs
    | cons p q =>
      simp only [pageAlloc,hq3] at hs
      exact (hd12.trans hd3).trans (segmentPage_does hi3 hl3 hq3 (by decide) hs)

end create

section reachable

variable {K : Finset Nat} {s s' : Kern}

structure Good (K : Finset Nat) (s : Kern) : Prop where
  inv : Inv K NoHand s
  cur : ∀ c, s.curenv = some c → s.Live c

def Event.InStep (s : Kern) : Act → Event → Prop
  | .trap tf x,a => ∃ c, s.curenv = some c ∧ a.InTrap s c tf x
  | .create _ _,a => a.Loads
  | _,a => a.Plain

lemma step_does (h : Good K s) {a : Act} (hs : Step s a s') :
    Does (InStep s a) s s' ∧ Good K s' := by
  cases hs with
  | create hcur hl hs =>
    have hd := envCreate_does h.inv hl hs
    refine ⟨hd.mono fun a ha => ha.1,hd.inv h.inv,fun c hc => ?_⟩
    have : s'.curenv = s.curenv := by
      refine hd.invariant (I := fun t => t.curenv = s.curenv)
        (fun t a ht _ ha => (stays_curenv ha.2.1).trans ht) rfl
    rw [this,hcur] at hc
    cases hc
  | start hcur hs =>
    have hd := schedYield_does hs
    obtain ⟨e,he,hl⟩ := schedYield_cur hs
    refine ⟨hd,hd.inv h.inv,fun c hc => ?_⟩
    rw [he] at hc
    cases hc
    exact hl
  | store hcur _ hs =>
    have hc := h.cur _ hcur
    have hd := userStore_does h.inv hc hs
    refine ⟨hd.mono fun a ha => ha.plain,hd.inv h.inv,fun c hc' => ?_⟩
    obtain ⟨hl,hcur'⟩ := hd.stays h.inv (fun a ha => Stores.stays ha) hc
    rw [hcur',hcur] at hc'
    cases hc'
    exact hl
  | trap hcur _ _ hnic hs =>
    obtain ⟨hd,e,he,hl⟩ := trap_does h.inv (h.cur _ hcur) hcur hnic hs
    refine ⟨hd.mono fun a ha => ⟨_,hcur,ha⟩,hd.inv h.inv,fun c hc => ?_⟩
    rw [he] at hc
    cases hc
    exact hl

lemma Boot.dead (h : Boot K s) (e : Nat) : ¬s.Live e := by
  intro he
  exact he.2 (by rw [h.envs])

lemma Boot.holds (h : Boot K s) (x : Slot) : s.holds x = none := Kern.holds_dead (h.dead _)

lemma Boot.good (h : Boot K s) : Good K s where
  inv := {
    npage_le := h.npage_le
    balanced := {
      count := fun f hf => by
        rw [h.ref_zero f ((h.free_iff f).mpr hf),eq_comm,refs_eq_zero]
        intro x _
        rw [h.holds]
        simp
      nodup := h.free_nodup
      free_managed := fun f hf => (h.free_iff f).mp hf
      free_zero := h.ref_zero
      zero_free := fun f hf _ _ => (h.free_iff f).mpr hf
      hand_managed := fun _ hf => hf.elim
      hand_free := fun _ hf => hf.elim
      hand_unheld := fun _ hf => hf.elim }
    held := fun x _ f hf => by rw [h.holds] at hf; contradiction
    sole := fun x _ _ y _ f hf => by rw [h.holds] at hf; contradiction
    pde_word := fun e _ he => absurd he (h.dead e)
    half := {
      kernel_lt := h.kernel_lt
      boot_mem := h.bootPgdir_mem
      boot_dir := h.dir
      boot_low := h.low
      boot_high := h.high
      env_high := fun e he => absurd he (h.dead e)
      env_vpt := fun e he => absurd he (h.dead e)
      env_uvpt := fun e he => absurd he (h.dead e) }
    table := {
      cr3 := fun e he => absurd he (h.dead e)
      dstva := fun e => .inl (by rw [h.envs])
      free_nodup := by rw [h.envFreeList]; exact nodup_range
      free_iff := fun e => by rw [h.envFreeList,h.envs]; simp } }
  cur c hc := by
    rw [h.curenv] at hc
    cases hc

lemma Reachable.good (h : Reachable K s) : Good K s := by
  induction h with
  | boot hb => exact hb.good
  | step _ hs ih => exact (step_does ih hs).2

/-- The smallest machine with `n` frames: the kernel keeps frame 0, with its directory. -/
def bootKern (n : Nat) : Kern where
  npage := n
  mem f i :=
    if f = 0 ∧ i = PDX VPT then page2pa 0|||PTE_W|||PTE_P
    else if f = 0 ∧ i = PDX UVPT then page2pa 0|||PTE_U|||PTE_P
    else 0
  ppRef _ := 0
  pageFreeList := range' 1 (n-1)
  envs _ := {}
  envFreeList := range NENV
  curenv := none
  bootPgdir := 0
  pre := 0

lemma boot_bootKern {n : Nat} (h0 : 0 < n) (hn : n ≤ 2^20) : Boot {0} (bootKern n) := by
  have hz : ∀ d, d ≠ PDX VPT → d ≠ PDX UVPT → (bootKern n).mem 0 d = 0 := by
    intro d hv hu
    simp only [bootKern]
    rw [if_neg fun hc => hv hc.2,if_neg fun hc => hu hc.2]
  have hv : (bootKern n).mem 0 (PDX VPT) = page2pa 0|||PTE_W|||PTE_P := by simp [bootKern]
  have hu : (bootKern n).mem 0 (PDX UVPT) = page2pa 0|||PTE_U|||PTE_P := by
    simp only [bootKern]
    rw [if_neg (by decide),if_pos ⟨trivial,trivial⟩]
  have hlow : ∀ d < NUPDE, d ≠ PDX VPT ∧ d ≠ PDX UVPT := by
    intro d hd
    have h1 : PDX VPT = 959 := by decide
    have h2 : PDX UVPT = 957 := by decide
    have h3 : NUPDE = 955 := rfl
    omega
  exact {
    npage_le := hn
    kernel_lt := by simpa [bootKern] using h0
    bootPgdir_mem := by simp [bootKern]
    free_iff := fun f => by
      simp only [bootKern,mem_range'_1,Finset.mem_singleton]
      omega
    free_nodup := nodup_range'
    ref_zero := fun _ _ => rfl
    low := fun d hd => by
      change ¬Present ((bootKern n).mem 0 d)
      rw [hz d (hlow d hd).1 (hlow d hd).2]
      decide
    high := fun d _ _ hv hu hp => by
      change Present ((bootKern n).mem 0 d) at hp
      rw [hz d hv hu] at hp
      exact absurd hp (by decide)
    dir := by
      have habs : ∀ d, ¬IsWindow d → ¬Present ((bootKern n).mem 0 d) := by
        intro d hd
        rw [hz d (fun hc => hd (.inl hc)) (fun hc => hd (.inr hc))]
        decide
      refine ⟨fun d hd _ => ?_,fun d _ hd hp => absurd hp (habs d hd),
        fun d _ _ _ hd _ hp _ _ => absurd hp (habs d hd)⟩
      obtain rfl | rfl := hd
      · change PPN ((bootKern n).mem 0 (PDX VPT)) = 0
        rw [hv]
        decide
      change PPN ((bootKern n).mem 0 (PDX UVPT)) = 0
      rw [hu]
      decide
    vpt := hv
    uvpt := hu
    envs := fun _ => rfl
    envFreeList := by simp only [bootKern]
    curenv := rfl
    pre := rfl }

lemma execAll_reachable {n : Nat} {l : List Act} {s : Kern}
    (hs : Kern.execAll l (bootKern n) = some s) (h0 : 0 < n := by decide)
    (hn : n ≤ 2^20 := by decide) : Reachable {0} s :=
  (Reachable.boot (boot_bootKern h0 hn)).execAll l hs

/-- The frame of a system call `no` by an environment in slot `e` with its first frame. -/
def callFrame (e : Nat) (no a1 a2 a3 a4 a5 : Word) : Trapframe :=
  { Kern.initTf e with
    trapno := 48
    regs := {eax := no, edx := a1, ecx := a2, ebx := a3, edi := a4, esi := a5} }

end reachable

end KludgeOS
