import KludgeOS.RecvPage
import KludgeOS.CallEffects

/-!
A call to a server: `fsipc` (`lib/fsipc.c`) and `nsipc` (`lib/nsipc.c`) over `lib/ipc.c`, with
other environments in between.
-/

namespace KludgeOS
open Kern (modEnv_self BadVa)
open Kern Option Event
open Event (apply)


structure IpcCall where
  client : Nat
  server : Word
  type : Word
  req : Word
  dstva : Word

/-- `fsipc`, called by `client`; the file server is `envs[1]`. -/
def fsipc (s : Kern) (client : Nat) (type fsreq dstva : Word) : IpcCall :=
  ⟨client,(s.envs 1).envId,type,fsreq,dstva⟩

/-- `nsipc`; the network server is `envs[2]`. -/
def nsipc (s : Kern) (client : Nat) (type fsreq dstva : Word) : IpcCall :=
  ⟨client,(s.envs 2).envId,type,fsreq,dstva⟩

/-- Where the client is: at a system call, in `sys_ipc_recv` or back from it, done, or dead of a
panic in `ipc_send`. -/
inductive IpcPc where
  | send | yield | recv | wait
  | done : Word → IpcPc
  | panicked
  deriving DecidableEq

structure Letter where
  sender : Word
  value : Word
  page : Option Nat
  deriving DecidableEq

/-- The message that a step delivers to `r`. -/
def Kern.letterTo (s : Kern) (r : Nat) : Act → Option Letter
  | .trap tf _ => do
    let c ← s.curenv
    let k := s.saved c tf
    if tf.trapno = 48 ∧ tf.regs.eax = 13 ∧ k.envid2env c tf.regs.edx false = some r then do
      let (v,_) ← k.sysIpcTrySend c tf.regs.edx tf.regs.ecx tf.regs.ebx tf.regs.edi
      if v < 0 then none
      else some ⟨(k.envs c).envId,tf.regs.ecx,
        if v = 1 then (k.pte c (PPN tf.regs.ebx)).map PPN else none⟩
    else none
  | _ => none

section letters

variable {K : Finset Nat} {s s' s1 : Kern} {c r : Nat} {a : Act} {tf : Trapframe} {x : Ext}
  {l : Letter} {v envid value srcva perm : Word} {ev : Event}

lemma letterTo_iff : s.letterTo r (.trap tf x) = some l ↔
    ∃ c, s.curenv = some c ∧ tf.trapno = 48 ∧ tf.regs.eax = 13 ∧
      (s.saved c tf).envid2env c tf.regs.edx false = some r ∧
      ∃ v s1, (s.saved c tf).sysIpcTrySend c tf.regs.edx tf.regs.ecx tf.regs.ebx tf.regs.edi =
        some (v,s1) ∧ 0 ≤ v ∧ l = ⟨((s.saved c tf).envs c).envId,tf.regs.ecx,
          if v = 1 then ((s.saved c tf).pte c (PPN tf.regs.ebx)).map PPN else none⟩ := by
  constructor
  · intro h
    obtain ⟨c,hc,h⟩ := of_bind h
    simp only at h
    split at h
    · rename_i hcall
      obtain ⟨⟨v,s1⟩,hv,h⟩ := of_bind h
      simp only at h
      split at h
      · cases h
      exact ⟨c,hc,hcall.1,hcall.2.1,hcall.2.2,v,s1,hv,by omega,(some.inj h).symm⟩
    cases h
  rintro ⟨c,hc,h48,h13,he,v,s1,hv,hpos,rfl⟩
  simp only [letterTo,hc]
  refine (if_pos ⟨h48,h13,he⟩).trans ?_
  simp only [hv]
  exact if_neg (by omega)

lemma sendsMessage_iff : s.SendsMessage r a ↔ s.letterTo r a ≠ none := by
  cases a with
  | trap tf x =>
    rw [ne_none_iff_exists']
    constructor
    · rintro ⟨c,hc,h48,h13,he,v,s1,hv,hpos⟩
      exact ⟨_,letterTo_iff.mpr ⟨c,hc,h48,h13,he,v,s1,hv,hpos,rfl⟩⟩
    rintro ⟨l,h⟩
    obtain ⟨c,hc,h48,h13,he,v,s1,hv,hpos,_⟩ := letterTo_iff.mp h
    exact ⟨c,hc,h48,h13,he,v,s1,hv,hpos⟩
  | _ => exact iff_of_false id fun h => h rfl

/-- No message can reach `r`, and `v` is the value of the last one. -/
structure Closed (s : Kern) (r : Nat) (v : Word) : Prop where
  recving : (s.envs r).envIpcRecving = false
  value : (s.envs r).envIpcValue = v

/-- The event is neither a send to `r` nor a receive of it. -/
def Event.PastBox (r : Nat) (ev : Event) : Prop :=
  (∀ w v, ev ≠ .edit r (.mail w v)) ∧ ev ≠ .edit r .block

lemma Closed.event (h : Closed s r v) (hev : ev.PastBox r) : Closed (ev.apply s) r v := by
  obtain ⟨hrecv,hval⟩ := h
  cases ev with
  | edit e k =>
    by_cases hre : r = e
    · subst hre
      constructor <;> rw [apply,modEnv_self] <;> cases k with
        | mail w v => exact absurd rfl (hev.1 w v)
        | block => exact absurd rfl hev.2
        | _ => assumption
    constructor <;> rwa [apply,modEnv_other _ _ hre]
  | spawn b =>
    by_cases hre : r = s.envFreeList.headD 0
    · constructor <;> rw [apply,hre,spawn_self]
      · rfl
      rw [← hre]
      exact hval
    constructor <;> rwa [apply,spawn_other hre]
  | reap e =>
    by_cases hre : r = e
    · constructor <;> rw [apply,hre,reap_self]
      · rw [← hre]
        exact hrecv
      rw [← hre]
      exact hval
    constructor <;> rwa [apply,reap_other hre]
  | _ => constructor <;> rwa [envs_eq (by simp) (by simp) (by simp)]

lemma Closed.does (h : Closed s r v) (hd : Does (PastBox r) s s') : Closed s' r v :=
  hd.invariant (I := fun t => Closed t r v) (fun _ _ ht _ hev => ht.event hev) h

structure Delivered (s s' : Kern) (r : Nat) (l : Letter) : Prop where
  recving : (s.envs r).envIpcRecving
  closed : Closed s' r l.value
  space : l.page = none → SameSpace s s' r
  page : ∀ p, l.page = some p → PPN (s.envs r).envIpcDstva < NUPAGE ∧
    (s'.pte r (PPN (s.envs r).envIpcDstva)).map PPN = some p

lemma sysIpcTrySend_delivered (h : Inv K NoHand s) (hc : s.Live c) {v : Int}
    (hs : s.sysIpcTrySend c envid value srcva perm = some (v,s1)) (hv : 0 ≤ v)
    (ht : s.envid2env c envid false = some r) :
    Delivered s s1 r ⟨(s.envs c).envId,value,
      if v = 1 then (s.pte c (PPN srcva)).map PPN else none⟩ := by
  have hl := envid2env_live hc ht
  have hmail : Closed (apply (.edit r (.mail (s.envs c).envId value)) s) r value := by
    constructor <;> rw [apply,modEnv_self] <;> rfl
  obtain ⟨hneg,_⟩ | ⟨t,ht',hrecv,hcase⟩ := sysIpcTrySend_spec h hc hs
  · omega
  obtain rfl := mem_unique ht ht'
  obtain ⟨hneg,_⟩ | ⟨rfl,hp⟩ | ⟨rfl,_,hva,_,hdst,w,hw,hp⟩ := hcase
  · omega
  · have hsp : SameSpace s s1 r := Does.sameSpace ⟨_,hp,by simp [env]⟩ h hl
    cases hp with
    | cons _ hp => exact ⟨hrecv,hmail.does ⟨_,hp,by simp [PastBox]⟩,fun _ => hsp,by simp⟩
  cases hp with
  | cons ok1 hp =>
    refine ⟨hrecv,hmail.does ⟨_,hp,by simp [PastBox]⟩,by simp [hw],fun p hpage => ?_⟩
    obtain rfl : PPN w = p := by simpa [hw] using hpage
    have p1 := SamePages.edit (e := r) (k := .mail (s.envs c).envId value) h ok1
    cases hp with
    | cons ok2 hp =>
      have p2 := p1.trans (.table p1.inv ok2)
      cases hp with
      | cons ok3 hp =>
        have p3 := p2.assigns (.map p2.inv ok3)
        have hsp := Does.sameSpace (r := r) ⟨_,hp,by simp [env]⟩ p3.inv (p3.live r hl)
        have hn := ok3.2.1
        have hf : PPN w < 2^20 := lt_of_lt_of_le
          (h.page_managed hc (PPN_lt_NUPAGE (lt_of_not_badVa hva)) hw).1 h.npage_le
        have hpte := (hsp.pte _ hn).trans ((p3.pte r _ hl hn).trans (if_pos ⟨rfl,rfl⟩))
        refine ⟨hn,?_⟩
        rw [hpte,entry,BitVec.or_assoc]
        exact congrArg some (PPN_pte hf (lowBits_or ok3.2.2.2.1 lowBits_PTE_P))

def Event.Tail (ev : Event) : Prop := ev.env = none ∧ ∀ r, ev.PastBox r

lemma Event.Own.tail (h : ev.Own c) : ev.Tail := by
  cases ev with
  | edit e k =>
    cases k with
    | mail | block => exact h.elim
    | _ => exact ⟨rfl,fun r => ⟨by simp,by simp⟩⟩
  | store | scrub | sched => exact ⟨rfl,fun r => ⟨by simp,by simp⟩⟩
  | _ => exact h.elim

lemma Kern.Resumes.tail (h : s.Resumes s') : Does Tail s s' := by
  obtain rfl | h := h
  · exact .refl
  obtain ⟨e,pre,_,_,hp⟩ := schedYield_performs h
  exact ⟨_,hp,by simp [Tail,env,PastBox]⟩

lemma trapReturn_tail (hc : s.Live c) (hcur : s.curenv = some c) (hs : s.trapReturn c = some s') :
    Does Tail s s' := by
  obtain ⟨s2,hd,hr⟩ := trapReturn_exits hc hcur hs
  exact (hd.mono fun _ hev => hev.1.tail).trans hr.resumes.tail

lemma Does.tail_sameSpace (hd : Does Tail s s') (h : Inv K NoHand s) (hl : s.Live r) :
    SameSpace s s' r :=
  (hd.mono fun _ hev => by rw [hev.1]; simp).sameSpace h hl

lemma sysIpcTrySend_live (h : Inv K NoHand s) (hc : s.Live c) (hcur : s.curenv = some c) {v : Int}
    (hs : s.sysIpcTrySend c envid value srcva perm = some (v,s1)) (hl : s.Live r) :
    Inv K NoHand s1 ∧ s1.Live r ∧ s1.curenv = some c := by
  have hexit : s.Exits (InCall s c 13 envid value srcva perm 0 {}) c _ _ :=
    sysIpcTrySend_exits h hc hcur hs
  obtain ⟨_,hd,rfl,hcur1,_⟩ := hexit
  refine and_assoc.mp ⟨?_,hcur1⟩
  refine hd.invariant (I := fun t => Inv K NoHand t ∧ t.Live r)
    (fun t ev ht hok hev => ⟨ht.1.event hok,?_⟩) ⟨h,hl⟩
  cases ev with
  | reap e => exact absurd rfl hev.1.2
  | sched => exact ht.2
  | _ => exact stays_live ht.1 hok trivial ht.2

lemma send_step (hg : Good K s) (hs : Step s (.trap tf x) s') (hcur : s.curenv = some c) (h48
    : tf.trapno = 48) (h13 : tf.regs.eax = 13) : ∃ v s1, (s.saved c tf).sysIpcTrySend c tf.regs.edx
    tf.regs.ecx tf.regs.ebx tf.regs.edi = some (v,s1) ∧ Inv K NoHand s1 ∧ Does Tail s1 s' := by
  cases hs with
  | trap hc _ _ _ ht =>
    obtain rfl := mem_unique hcur hc
    have hinv := saved_inv (c := c) hg.inv tf
    have hl : (s.saved c tf).Live c := live_saved.mpr (hg.cur c hcur)
    have h13' : tf.regs.eax.toNat = 13 := by rw [h13]; rfl
    obtain ⟨p,hsys⟩ := trap_syscall h48 ht
    have hcall := hsys
    simp only [syscall,h13'] at hcall
    obtain ⟨⟨v,s1⟩,hsend,hcall⟩ := of_bind hcall
    cases hcall
    rw [trap_ret h48 hsys] at ht
    obtain ⟨hinv1,hl1,hcur1⟩ := sysIpcTrySend_live hinv hl hcur hsend hl
    refine ⟨v,s1,hsend,hinv1,?_⟩
    have hone : Does Tail s1 (apply (.edit c (.eax (BitVec.ofInt 32 v))) s1) :=
      .one trivial ⟨rfl,fun r => ⟨by simp,by simp⟩⟩
    exact hone.trans (trapReturn_tail ⟨hl1.1,by rw [apply,modEnv_self]; exact hl1.2⟩
      hcur1 ht)

lemma saved_sameSpace (h : Inv K NoHand s) (hl : s.Live r) : SameSpace s (s.saved c tf) r :=
  sameSpace (a := .edit c (.frame tf)) h trivial hl (by simp [env])

lemma letter_delivered (hg : Good K s) (hs : Step s a s') (hcur : s.curenv ≠ some r)
    (h : s.letterTo r a = some l) : Delivered s s' r l := by
  cases a with
  | trap tf x =>
    obtain ⟨c,hc,h48,h13,he,v,s1,hv,hpos,rfl⟩ := letterTo_iff.mp h
    obtain ⟨v',s1',hv',hinv1,htail⟩ := send_step hg hs hc h48 h13
    obtain ⟨rfl,rfl⟩ := Prod.mk.inj (mem_unique hv hv')
    have hne : r ≠ c := by
      rintro rfl
      exact hcur hc
    have hlc : (s.saved c tf).Live c := live_saved.mpr (hg.cur c hc)
    have hl := envid2env_live hlc he
    have hsp : SameSpace s (s.saved c tf) r := saved_sameSpace hg.inv (live_saved.mp hl)
    obtain ⟨hrecv,hclosed,hspace,hpage⟩ := sysIpcTrySend_delivered (saved_inv hg.inv tf) hlc hv hpos he
    rw [saved_envs_ne hne] at hrecv hpage
    have hsp1 := htail.tail_sameSpace hinv1
      (sysIpcTrySend_live (saved_inv hg.inv tf) hlc hc hv hl).2.1
    refine ⟨hrecv,hclosed.does (htail.mono fun _ hev => hev.2 r),
      fun hp => hsp.trans ((hspace hp).trans hsp1),fun p hp => ?_⟩
    obtain ⟨hn,hpte⟩ := hpage p hp
    exact ⟨hn,by rw [hsp1.pte _ hn,hpte]⟩
  | _ => contradiction

lemma send_without_letter (hg : Good K s) (hs : Step s (.trap tf x) s') (h48 : tf.trapno = 48)
    (h13 : tf.regs.eax = 13) (hl : s.Live r) (h : s.letterTo r (.trap tf x) = none) :
    SameSpace s s' r := by
  obtain ⟨c,hc⟩ : ∃ c, s.curenv = some c := by
    cases hs with
    | trap hc => exact ⟨_,hc⟩
  obtain ⟨v,s1,hv,hinv1,htail⟩ := send_step hg hs hc h48 h13
  have hlc : (s.saved c tf).Live c := live_saved.mpr (hg.cur c hc)
  have hsp : SameSpace s (s.saved c tf) r := saved_sameSpace hg.inv hl
  have hsend : SameSpace (s.saved c tf) s1 r := by
    have hsilent : (s.saved c tf).envid2env c tf.regs.edx false = some r → v < 0 := by
      intro he
      by_contra hpos
      exact absurd h (ne_none_iff_exists'.mpr
        ⟨_,letterTo_iff.mpr ⟨c,hc,h48,h13,he,v,s1,hv,by omega,rfl⟩⟩)
    have hinv := saved_inv (c := c) hg.inv tf
    obtain ⟨_,rfl⟩ | ⟨t,ht,_,⟨_,hp⟩ | ⟨rfl,hp⟩ | ⟨rfl,_,_,_,_,w,_,hp⟩⟩ := sysIpcTrySend_spec hinv hlc hv
    · exact .refl hsp.live
    · exact Does.sameSpace ⟨_,hp,by simp [env]⟩ hinv hsp.live
    · exact Does.sameSpace ⟨_,hp,by simp [env]⟩ hinv hsp.live
    have hne : t ≠ r := by
      rintro rfl
      exact absurd (hsilent ht) (by decide)
    exact Does.sameSpace ⟨_,hp,by simp [env,hne]⟩ hinv hsp.live
  exact hsp.trans (hsend.trans (htail.tail_sameSpace hinv1 hsend.live))

lemma Event.OfStep.pastBox (hev : ev.OfStep s a) (hrecv : (s.envs r).envIpcRecving = false)
    (hno : ¬s.Receives r a) : ev.PastBox r := by
  have hsaved : ∀ c tf, ((s.saved c tf).envs r).envIpcRecving = false := by
    intro c tf
    by_cases hrc : r = c
    · subst hrc
      rw [saved,modEnv_self]
      exact hrecv
    rwa [saved_envs_ne hrc]
  constructor
  · rintro w v rfl
    obtain ⟨tf,x,rfl⟩ := hev.trap id fun _ => id
    obtain ⟨c,_,hev | ⟨_,hev⟩ | ⟨_,_,_,hopen⟩⟩ := hev
    · exact hev.elim
    · exact hev.elim
    rw [hsaved c tf] at hopen
    cases hopen
  rintro rfl
  obtain ⟨tf,x,rfl⟩ := hev.trap id fun _ => id
  obtain ⟨c,hc,hev | ⟨_,hev⟩ | ⟨h48,h14,rfl⟩⟩ := hev
  · exact hev.elim
  · exact hev.elim
  exact hno ⟨hc,h48,h14⟩

lemma step_closed (hg : Good K s) (hs : Step s a s') (hno : ¬s.Receives r a) (h : Closed s r v) :
    Closed s' r v := by
  obtain ⟨s1,hd,hr⟩ := step_resumes hg hs
  have h1 := h.does (hd.mono fun _ hev => hev.pastBox h.recving hno)
  exact h1.does (hr.tail.mono fun _ hev => hev.2 r)

lemma sysIpcRecv_sleeps {va : Word} {p : Kern.Flow Int × Kern} (hva : ¬(va ≠ 0 ∧ BadVa va))
    (hs : s.sysIpcRecv c va = some p) :
    p.1 = .switched ∧ (p.2.envs c).envStatus = .notRunnable ∧ p.2.curenv ≠ some c := by
  unfold sysIpcRecv at hs
  rw [if_neg hva] at hs
  simp only at hs
  generalize (if va ≠ 0 then s.modEnv c fun v => {v with envIpcDstva := va} else s) = k at hs
  split at hs
  · obtain ⟨s2,hy,hs⟩ := of_bind hs
    cases hs
    obtain ⟨e,hcur',hrun,_,hother⟩ := schedYield_picks hy
    have hne : c ≠ e := by
      rintro rfl
      rw [modEnv_self] at hrun
      cases hrun
    refine ⟨rfl,?_,by rw [hcur']; simpa using hne.symm⟩
    rw [hother c hne,modEnv_self]
  cases hs

lemma recv_sleeps (hg : Good K s) (hs : Step s (.trap tf x) s') (hc : s.Receives c (.trap tf x))
    (hva : ¬(tf.regs.edx ≠ 0 ∧ BadVa tf.regs.edx)) :
    s'.Live c ∧ (s'.envs c).envStatus = .notRunnable ∧ s'.curenv ≠ some c := by
  obtain ⟨hcur,h48,h14⟩ := hc
  cases hs with
  | trap hc _ _ _ ht =>
    obtain rfl := mem_unique hcur hc
    have h14' : tf.regs.eax.toNat = 14 := by rw [h14]; rfl
    obtain ⟨⟨f,s1⟩,hsys⟩ := trap_syscall h48 ht
    have hcall := hsys
    simp only [syscall,h14'] at hcall
    obtain ⟨hf,hst,hcur'⟩ := sysIpcRecv_sleeps hva hcall
    subst hf
    rw [trap_switched h48 hsys] at ht
    cases ht
    exact ⟨⟨(hg.cur c hcur).1,by rw [hst]; simp⟩,hst,hcur'⟩

end letters

structure Talk where
  kern : Kern
  pc : IpcPc
  inbox : List Letter

/-- What `ipc_send` does next, by what `sys_ipc_try_send` returned. -/
def afterSend (r : Int) : IpcPc :=
  if r = -E_IPC_NOT_RECV then .yield else if r < 0 then .panicked else .recv

/-- What `ipc_recv` does next. -/
def afterRecv (dstva : Word) : IpcPc :=
  if dstva ≠ 0 ∧ BadVa dstva then .done (BitVec.ofInt 32 (-E_INVAL)) else .wait

/-- One step of a call, of the client or of anything else. The client may also be interrupted, or
fault and handle that. -/
inductive TalkStep (q : IpcCall) : Talk → Option Act → Talk → Prop where
  | send {k k' k1 : Kern} {l : List Letter} {tf : Trapframe} {x : Ext} {r : Int} :
      k.curenv = some q.client → tf.trapno = 48 → tf.regs.eax = 13 → tf.regs.edx = q.server →
      tf.regs.ecx = q.type → tf.regs.ebx = q.req → tf.regs.edi = PTE_P|||PTE_W|||PTE_U →
      (k.saved q.client tf).sysIpcTrySend q.client q.server q.type q.req
        (PTE_P|||PTE_W|||PTE_U) = some (r,k1) →
      Step k (.trap tf x) k' → TalkStep q ⟨k,.send,l⟩ (some (.trap tf x)) ⟨k',afterSend r,l⟩
  | yield {k k' : Kern} {l : List Letter} {tf : Trapframe} {x : Ext} :
      k.curenv = some q.client → tf.trapno = 48 → tf.regs.eax = 12 →
      Step k (.trap tf x) k' → TalkStep q ⟨k,.yield,l⟩ (some (.trap tf x)) ⟨k',.send,l⟩
  | recv {k k' : Kern} {l : List Letter} {tf : Trapframe} {x : Ext} :
      k.Receives q.client (.trap tf x) → tf.regs.edx = q.dstva →
      Step k (.trap tf x) k' →
      TalkStep q ⟨k,.recv,l⟩ (some (.trap tf x)) ⟨k',afterRecv q.dstva,l⟩
  | read {k : Kern} {l : List Letter} : k.curenv = some q.client →
      TalkStep q ⟨k,.wait,l⟩ none ⟨k,.done (k.envs q.client).envIpcValue,l⟩
  | own {k k' : Kern} {pc : IpcPc} {l : List Letter} {a : Act} :
      k.curenv = some q.client → ¬k.Receives q.client a → Step k a k' →
      TalkStep q ⟨k,pc,l⟩ (some a) ⟨k',pc,l⟩
  | other {k k' : Kern} {pc : IpcPc} {l : List Letter} {a : Act} :
      k.curenv ≠ some q.client → Step k a k' → k'.Live q.client →
      TalkStep q ⟨k,pc,l⟩ (some a)
        ⟨k',pc,if pc = .wait then l++(k.letterTo q.client a).toList else l⟩

/-- While the client waits, nobody sets it runnable and only the server sends to it. -/
structure Faithful (q : IpcCall) (t : Talk) (o : Option Act) : Prop where
  dstva : ¬(q.dstva ≠ 0 ∧ BadVa q.dstva)
  asleep : t.pc = .wait → t.inbox = [] → ∀ a, o = some a → ¬t.kern.SetsRunnable q.client a
  sender : t.pc = .wait → t.inbox = [] → ∀ a, o = some a →
    ∀ l, t.kern.letterTo q.client a = some l → l.sender = q.server

inductive TalkRun (q : IpcCall) (P : Talk → Option Act → Prop) : Talk → Talk → Prop where
  | refl {t : Talk} : TalkRun q P t t
  | step {t u w : Talk} {o : Option Act} : TalkRun q P t u → TalkStep q u o w → P u o → TalkRun q P t w

def Talk.Knows (q : IpcCall) (t : Talk) : Prop :=
  match t.pc with
  | .wait => (t.inbox = [] ∧ t.kern.Live q.client ∧
      (t.kern.envs q.client).envStatus = .notRunnable ∧ t.kern.curenv ≠ some q.client) ∨
      ∃ v p, t.inbox = [⟨q.server,v,p⟩] ∧ Closed t.kern q.client v
  | .done v => ∃ p, t.inbox = [⟨q.server,v,p⟩]
  | _ => t.inbox = []

section talk

variable {K : Finset Nat} {s : Kern} {q : IpcCall} {t t' : Talk} {o : Option Act} {tf : Trapframe}
  {x : Ext}

lemma TalkStep.reachable (h : TalkStep q t o t') (hr : Reachable K t.kern) : Reachable K t'.kern := by
  cases h with
  | read => exact hr
  | send _ _ _ _ _ _ _ _ hs | yield _ _ _ hs | recv _ _ hs | own _ _ hs | other _ hs => exact hr.step hs

lemma Closed.no_letter {v : Word} {r : Nat} {a : Act} {s' : Kern} (h : Closed s r v) (hg : Good K s)
    (hs : Step s a s') (hcur : s.curenv ≠ some r) : s.letterTo r a = none := by
  by_contra hne
  obtain ⟨l,hl⟩ := ne_none_iff_exists'.mp hne
  have := (letter_delivered hg hs hcur hl).recving
  rw [h.recving] at this
  cases this

lemma TalkStep.waiting {k k' : Kern} {a : Act} {l : List Letter} {c : Nat} (hc : k.curenv = some c)
    (hne : c ≠ q.client) (hs : Step k a k') (hl : k'.Live q.client) :
    TalkStep q ⟨k,.wait,l⟩ (some a) ⟨k',.wait,l++(k.letterTo q.client a).toList⟩ := by
  have hcur : k.curenv ≠ some q.client := fun h => hne (mem_unique hc h)
  have h : TalkStep q ⟨k,.wait,l⟩ (some a)
      ⟨k',.wait,if IpcPc.wait = .wait then l++(k.letterTo q.client a).toList else l⟩ :=
    .other hcur hs hl
  rwa [if_pos rfl] at h

lemma TalkStep.knows (h : TalkStep q t o t') (hf : Faithful q t o) (hr : Reachable K t.kern)
    (hk : t.Knows q) : t'.Knows q := by
  cases h with
  | @send k k' k1 l tf x r =>
    have : afterSend r = .yield ∨ afterSend r = .panicked ∨ afterSend r = .recv := by
      unfold afterSend
      split_ifs <;> simp
    rcases this with h | h | h <;> simpa [Talk.Knows,h] using hk
  | yield => exact hk
  | recv hc hva hs =>
    have hw : afterRecv q.dstva = .wait := if_neg hf.dstva
    obtain ⟨hl,hst,hcur⟩ := recv_sleeps hr.good hs hc (by rw [hva]; exact hf.dstva)
    simp only [Talk.Knows,hw]
    exact .inl ⟨hk,hl,hst,hcur⟩
  | read hcur =>
    obtain ⟨_,_,_,hne⟩ | ⟨v,p,hin,hcl⟩ := hk
    · exact absurd hcur hne
    exact ⟨p,by rw [hcl.value]; exact hin⟩
  | @own k k' pc l a hcur hno hs =>
    cases pc with
    | wait =>
      obtain ⟨_,_,_,hne⟩ | ⟨v,p,hin,hcl⟩ := hk
      · exact absurd hcur hne
      exact .inr ⟨v,p,hin,step_closed hr.good hs hno hcl⟩
    | _ => exact hk
  | @other k k' pc l a hcur hs hl' =>
    cases pc with
    | wait =>
      simp only [Talk.Knows,if_true]
      obtain ⟨hin,hl,hst,hne⟩ | ⟨v,p,hin,hcl⟩ := hk
      · have hset := hf.asleep rfl hin a rfl
        simp only at hin
        subst hin
        cases hlet : k.letterTo q.client a with
        | none =>
          have hsend : ¬k.SendsMessage q.client a := fun hc => sendsMessage_iff.mp hc hlet
          obtain ⟨hst',hne'⟩ := step_suspended hr.good hs hl hl' hst hne hset hsend
          exact .inl ⟨rfl,hl',hst',hne'⟩
        | some m =>
          have hsender := hf.sender rfl rfl a rfl m hlet
          obtain ⟨w,v,p⟩ := m
          obtain rfl : w = q.server := hsender
          exact .inr ⟨v,p,rfl,(letter_delivered hr.good hs hne hlet).closed⟩
      have hno : ¬k.Receives q.client a := by
        intro hc
        cases a with
        | trap => exact hcur hc.1
        | _ => exact hc
      have hlet := hcl.no_letter hr.good hs hcur
      refine .inr ⟨v,p,?_,step_closed hr.good hs hno hcl⟩
      simpa [hlet] using hin
    | _ => exact hk

lemma TalkRun.knows (h : TalkRun q (Faithful q) t t') (hr : Reachable K t.kern) (hk : t.Knows q) :
    Reachable K t'.kern ∧ t'.Knows q := by
  induction h with
  | refl => exact ⟨hr,hk⟩
  | step _ hs hf ih => exact ⟨hs.reachable ih.1,hs.knows hf ih.1 ih.2⟩

lemma Talk.Knows.page {k' : Kern} (hk : t.Knows q) (hr : Reachable K t.kern)
    (hwait : t.pc = .wait) (hf : Faithful q t (some (.trap tf x))) (hl : t.kern.Live q.client)
    (hcur : t.kern.curenv ≠ some q.client) (hs : Step t.kern (.trap tf x) k')
    (h48 : tf.trapno = 48) (h13 : tf.regs.eax = 13) : SameSpace t.kern k' q.client ∨
    ∃ v p, t.kern.letterTo q.client (.trap tf x) = some ⟨q.server,v,some p⟩ ∧
    (k'.pte q.client (PPN (t.kern.envs q.client).envIpcDstva)).map PPN = some p := by
  cases hlet : t.kern.letterTo q.client (.trap tf x) with
  | none => exact .inl (send_without_letter hr.good hs h48 h13 hl hlet)
  | some m =>
    have hd := letter_delivered hr.good hs hcur hlet
    simp only [Talk.Knows,hwait] at hk
    obtain ⟨hin,_⟩ | ⟨v,p,_,hcl⟩ := hk
    · have hsender := hf.sender hwait hin _ rfl m hlet
      obtain ⟨w,v,p⟩ := m
      obtain rfl : w = q.server := hsender
      cases p with
      | none => exact .inl (hd.space rfl)
      | some p => exact .inr ⟨v,p,rfl,(hd.page p rfl).2⟩
    rw [hcl.no_letter hr.good hs hcur] at hlet
    cases hlet

theorem client_hears_server (h : Reachable K s) (hrun : TalkRun q (Faithful q) ⟨s,.send,[]⟩ t)
    : (∀ v, t.pc = .done v → ∃ p, t.inbox = [⟨q.server,v,p⟩]) ∧ ∀ tf x k', t.pc = .wait →
    Faithful q t (some (.trap tf x)) → t.kern.Live q.client → t.kern.curenv ≠ some q.client →
    Step t.kern (.trap tf x) k' → tf.trapno = 48 → tf.regs.eax = 13 → SameSpace t.kern k' q.client ∨
    ∃ v p, t.kern.letterTo q.client (.trap tf x) = some ⟨q.server,v,some p⟩ ∧
    (k'.pte q.client (PPN (t.kern.envs q.client).envIpcDstva)).map PPN = some p := by
  obtain ⟨hr,hk⟩ := hrun.knows h rfl
  refine ⟨fun v hpc => ?_,fun tf x k' hwait hf hl hcur hs h48 h13 =>
    hk.page hr hwait hf hl hcur hs h48 h13⟩
  simpa only [Talk.Knows,hpc] using hk

end talk

def servedRun (n : Nat) : List Act :=
  List.replicate n (.create 0x800020 [])++[.start,.trap (callFrame 1 14 0x1000000 0 0 0 0) {}]

def openFrame : Trapframe := callFrame 2 13 0x1001 1 0xEEBFD000 7 0

lemma request_sent {s s1 s2 : Kern} {dstva : Word}
    {P : Talk → Option Act → Prop} (hcur : s.curenv = some 2) (hid : (s.envs 1).envId = 0x1001)
    (hsend : ((s.saved 2 openFrame).sysIpcTrySend 2 0x1001 1 0xEEBFD000 7).map Prod.fst = some 1)
    (hs1 : Step s (.trap openFrame {}) s1) (hcur1 : s1.curenv = some 2) (hs2 : Step s1
    (.trap (callFrame 2 14 dstva 0 0 0 0) {}) s2) (hva : afterRecv dstva = .wait) (hP : ∀ t o, t.pc
    ≠ .wait → P t o) : TalkRun (fsipc s 2 1 0xEEBFD000 dstva) P ⟨s,.send,[]⟩ ⟨s2,.wait,[]⟩ := by
  obtain ⟨⟨r,k⟩,hk,hr⟩ := map_eq_some_iff.mp hsend
  obtain rfl : r = 1 := hr
  have hk' : (s.saved 2 openFrame).sysIpcTrySend 2 (s.envs 1).envId 1 0xEEBFD000
      (PTE_P|||PTE_W|||PTE_U) = some (1,k) := by rw [hid]; exact hk
  have h1 : TalkStep (fsipc s 2 1 0xEEBFD000 dstva) ⟨s,.send,[]⟩ (some (.trap openFrame {}))
      ⟨s1,afterSend 1,[]⟩ :=
    .send hcur rfl rfl hid.symm rfl rfl rfl hk' hs1
  have h2 := TalkStep.recv (q := fsipc s 2 1 0xEEBFD000 dstva) (l := []) ⟨hcur1,rfl,rfl⟩ rfl hs2
  rw [show (fsipc s 2 1 0xEEBFD000 dstva).dstva = dstva from rfl,hva] at h2
  exact .step (.step .refl h1 (hP _ _ (by simp))) h2 (hP _ _ (by simp [afterSend,E_IPC_NOT_RECV]))

theorem client_hears_server_reply : ∃ (s : Kern) (t : Talk) (p : Option Nat), Reachable {0} s ∧
    TalkRun (fsipc s 2 1 0xEEBFD000 0x1000000) (Faithful (fsipc s 2 1 0xEEBFD000 0x1000000))
      ⟨s,.send,[]⟩ t ∧ t.pc = .done 5 ∧ t.inbox = [⟨(s.envs 1).envId,5,p⟩] := by
  have hrun : ((execAll (servedRun 3) (bootKern 32)).bind fun s =>
      (s.exec (.trap openFrame {})).bind fun s1 =>
        (s1.exec (.trap (callFrame 2 14 0x1000000 0 0 0 0) {})).bind fun s2 =>
          (s2.exec (.trap (callFrame 1 13 0x1002 5 0xEEBFD000 7 0) {})).bind fun s3 =>
            (s3.exec (.trap (callFrame 1 12 0 0 0 0 0) {})).map fun s4 =>
              decide (s.curenv = some 2 ∧ (s.envs 1).envId = 0x1001 ∧
                ((s.saved 2 openFrame).sysIpcTrySend 2 0x1001 1 0xEEBFD000 7).map Prod.fst = some 1 ∧
                s1.curenv = some 2 ∧ s2.curenv = some 1 ∧
                (s2.letterTo 2 (.trap (callFrame 1 13 0x1002 5 0xEEBFD000 7 0) {})).map
                  (fun l => (l.sender,l.page.isSome)) = some (0x1001,true) ∧
                s3.Live 2 ∧ s3.curenv = some 1 ∧ s4.Live 2 ∧ s4.curenv = some 2 ∧
                (s4.envs 2).envIpcValue = 5)) = some true := by decide +kernel
  obtain ⟨s,hs,hrun⟩ := of_bind hrun
  obtain ⟨s1,hs1,hrun⟩ := of_bind hrun
  obtain ⟨s2,hs2,hrun⟩ := of_bind hrun
  obtain ⟨s3,hs3,hrun⟩ := of_bind hrun
  obtain ⟨s4,hs4,hcur,hid,hsend,hcur1,hcur2,hlet,hl3,hcur3,hl4,hcur4,hval⟩ := of_map_decide hrun
  have hreach := execAll_reachable hs
  obtain ⟨m,hm,hm'⟩ := map_eq_some_iff.mp hlet
  have hva : ¬((0x1000000 : Word) ≠ 0 ∧ BadVa 0x1000000) := by decide
  let q := fsipc s 2 1 0xEEBFD000 0x1000000
  have h2 : TalkRun q (Faithful q) ⟨s,.send,[]⟩ ⟨s2,.wait,[]⟩ :=
    request_sent hcur hid hsend (step_of_exec hs1) hcur1 (step_of_exec hs2) (if_neg hva)
      fun t o hpc => ⟨hva,fun hc => absurd hc hpc,fun hc => absurd hc hpc⟩
  have h3 : TalkRun q (Faithful q) ⟨s,.send,[]⟩ ⟨s3,.wait,[m]⟩ := by
    have hstep := TalkStep.waiting (q := q) (l := []) hcur2 (by simp [q,fsipc]) (step_of_exec hs3) hl3
    rw [show q.client = 2 from rfl,hm] at hstep
    refine .step h2 hstep ⟨hva,?_,?_⟩
    · rintro _ _ a ha hset
      cases ha
      obtain ⟨_,_,_,h9,_⟩ := hset
      exact absurd h9 (by decide)
    rintro _ _ a ha l hl
    cases ha
    obtain rfl := mem_unique hm hl
    exact (Prod.mk.inj hm').1.trans hid.symm
  have h4 : TalkRun q (Faithful q) ⟨s,.send,[]⟩
      ⟨s4,.wait,[m]++(s3.letterTo 2 (.trap (callFrame 1 12 0 0 0 0 0) {})).toList⟩ := by
    refine h3.step (.waiting hcur3 (by simp [q,fsipc]) (step_of_exec hs4) hl4) ⟨hva,fun _ hc => ?_,fun _ hc => ?_⟩
    · exact absurd hc (by simp)
    · exact absurd hc (by simp)
  have h5 := TalkRun.step h4 (.read hcur4) ⟨hva,fun _ hc => absurd hc (by simp),
    fun _ hc => absurd hc (by simp)⟩
  have hdone : (IpcPc.done (s4.envs q.client).envIpcValue) = .done 5 := congrArg _ hval
  obtain ⟨p,hp⟩ := (client_hears_server hreach h5).1 5 hdone
  exact ⟨s,_,p,hreach,h5,hdone,hp⟩

theorem client_hears_stranger : ∃ (s : Kern) (t : Talk), Reachable {0} s ∧
    TalkRun (fsipc s 2 1 0xEEBFD000 0) (fun _ _ => True) ⟨s,.send,[]⟩ t ∧
    t.pc = .done 99 ∧ t.inbox = [⟨0x1003,99,none⟩] ∧ (s.envs 1).envId = 0x1001 := by
  have hrun : ((execAll (servedRun 4) (bootKern 32)).bind fun s =>
      (s.exec (.trap openFrame {})).bind fun s1 =>
        (s1.exec (.trap (callFrame 2 14 0 0 0 0 0) {})).bind fun s2 =>
          (s2.exec (.trap (callFrame 3 13 0x1002 99 0 0 0) {})).bind fun s3 =>
            (s3.exec (.trap (callFrame 3 12 0 0 0 0 0) {})).bind fun s4 =>
              (s4.exec (.trap (callFrame 1 12 0 0 0 0 0) {})).map fun s5 =>
                decide (s.curenv = some 2 ∧ (s.envs 1).envId = 0x1001 ∧
                  ((s.saved 2 openFrame).sysIpcTrySend 2 0x1001 1 0xEEBFD000 7).map Prod.fst = some 1 ∧
                  s1.curenv = some 2 ∧ s2.curenv = some 3 ∧
                  s2.letterTo 2 (.trap (callFrame 3 13 0x1002 99 0 0 0) {}) = some ⟨0x1003,99,none⟩ ∧
                  s3.Live 2 ∧ s3.curenv = some 3 ∧
                  s3.letterTo 2 (.trap (callFrame 3 12 0 0 0 0 0) {}) = none ∧
                  s4.Live 2 ∧ s4.curenv = some 1 ∧
                  s4.letterTo 2 (.trap (callFrame 1 12 0 0 0 0 0) {}) = none ∧
                  s5.Live 2 ∧ s5.curenv = some 2 ∧ (s5.envs 2).envIpcValue = 99)) = some true := by
    decide +kernel
  obtain ⟨s,hs,hrun⟩ := of_bind hrun
  obtain ⟨s1,hs1,hrun⟩ := of_bind hrun
  obtain ⟨s2,hs2,hrun⟩ := of_bind hrun
  obtain ⟨s3,hs3,hrun⟩ := of_bind hrun
  obtain ⟨s4,hs4,hrun⟩ := of_bind hrun
  obtain ⟨s5,hs5,hcur,hid,hsend,hcur1,hcur2,hm2,hl3,hcur3,hm3,hl4,hcur4,hm4,hl5,hcur5,
    hval⟩ := of_map_decide hrun
  have hreach := execAll_reachable hs
  let q := fsipc s 2 1 0xEEBFD000 0
  have h2 : TalkRun q (fun _ _ => True) ⟨s,.send,[]⟩ ⟨s2,.wait,[]⟩ :=
    request_sent hcur hid hsend (step_of_exec hs1) hcur1 (step_of_exec hs2) rfl fun _ _ _ => trivial
  have h3 := h2.step (.waiting (q := q) hcur2 (by simp [q,fsipc]) (step_of_exec hs3) hl3) trivial
  have h4 := h3.step (.waiting (q := q) hcur3 (by simp [q,fsipc]) (step_of_exec hs4) hl4) trivial
  have h5 := h4.step (.waiting (q := q) hcur4 (by simp [q,fsipc]) (step_of_exec hs5) hl5) trivial
  rw [show q.client = 2 from rfl,hm2,hm3,hm4] at h5
  exact ⟨s,_,hreach,h5.step (.read hcur5) trivial,congrArg _ hval,rfl,hid⟩

end KludgeOS
