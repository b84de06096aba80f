import KludgeOS.Calls
import KludgeOS.SendFail

/-!
Messages. The history of a run keeps, for every receiver, the messages sent to it and those it has
read.
-/

namespace KludgeOS
open Ledger Traces List Function
open Kern (modEnv_self Flow)
open Option Event
open Event (apply)

abbrev Message := Word × Word × Word

/-- What the mailbox of `r` holds. -/
def Kern.message (s : Kern) (r : Nat) : Message :=
  ((s.envs r).envIpcFrom,(s.envs r).envIpcValue,(s.envs r).envIpcPerm)

structure History where
  waiting : Nat → Bool := fun _ => false
  sent : Nat → List Message := fun _ => []
  seen : Nat → List Message := fun _ => []

namespace History

def call (g : History) (s : Kern) (c : Nat) (no a1 a2 a3 a4 : Word) : History :=
  if no = 13 then
    match s.envid2env c a1 false,s.sysIpcTrySend c a1 a2 a3 a4 with
    | some t,some (r,_) =>
      if 0 ≤ r then
        let m : Message := ((s.envs c).envId,a2,if r = 1 then a4 else 0)
        {g with sent := update g.sent t (g.sent t++[m])}
      else g
    | _,_ => g
  else if no = 14 ∧ ¬(a1 ≠ 0 ∧ Kern.BadVa a1) then
    {g with waiting := update g.waiting c true}
  else g

def record (g : History) (s : Kern) : Act → History
  | .trap tf _ =>
    match s.curenv with
    | some c =>
      if tf.trapno = 48 then
        g.call (s.modEnv c fun v => {v with envTf := tf}) c tf.regs.eax tf.regs.edx tf.regs.ecx
          tf.regs.ebx tf.regs.edi
      else g
    | none => g
  | _ => g

/-- When an environment inside `sys_ipc_recv` runs again, the call has returned. -/
def observe (g : History) (s : Kern) : History :=
  match s.curenv with
  | some r =>
    if g.waiting r = true then
      { g with waiting := update g.waiting r false,
               seen := update g.seen r (g.seen r++[s.message r]) }
    else g
  | none => g

/-- The step is not a `sys_env_set_status` on a blocked receiver. -/
def Spares (g : History) (s : Kern) : Act → Prop
  | .trap tf _ => ∀ c e, s.curenv = some c → tf.trapno = 48 → tf.regs.eax = 9 →
      s.envid2env c tf.regs.edx true = some e →
      ¬(g.waiting e ∧ (s.envs e).envStatus = .notRunnable)
  | _ => True

end History

inductive IpcRun (K : Finset Nat) : Kern → History → Prop where
  | boot {s : Kern} : Boot K s → IpcRun K s {}
  | step {s s' : Kern} {g : History} {a : Act} :
      IpcRun K s g → Step s a s' → (∀ e, s.Live e → s'.Live e) → g.Spares s a →
      IpcRun K s' ((g.record s a).observe s')

/-- The history fits the state of `r`: inside `sys_ipc_recv` it is asleep, or its mailbox was
taken. -/
structure History.Agrees (g : History) (s : Kern) (r : Nat) : Prop where
  idle : g.waiting r = false → (s.envs r).envIpcRecving = false ∧ g.sent r = g.seen r
  asleep : g.waiting r → (s.envs r).envIpcRecving →
    (s.envs r).envStatus = .notRunnable ∧ g.sent r = g.seen r
  woken : g.waiting r → (s.envs r).envIpcRecving = false →
    (s.envs r).envStatus ≠ .free ∧ (g.sent r = g.seen r++[s.message r] ∨
      (s.envs r).envStatus = .notRunnable ∧ g.sent r = g.seen r)

def History.Fits (g : History) (s : Kern) : Prop := ∀ r, g.Agrees s r

section fits

variable {s s' : Kern} {g : History} {e r : Nat}

lemma SameBox.message (h : SameBox s s' r) : s'.message r = s.message r := by
  rw [Kern.message,h.sender,h.value,h.perm]
  rfl

lemma History.Agrees.same (h : g.Agrees s r) (hb : SameBox s s' r) : g.Agrees s' r where
  idle hw := by rw [hb.recving]; exact h.idle hw
  asleep hw hr := by rw [hb.recving] at hr; rw [hb.status]; exact h.asleep hw hr
  woken hw hr := by
    rw [hb.recving] at hr
    rw [hb.status,hb.message]
    exact h.woken hw hr

lemma History.Fits.same (h : g.Fits s) (hb : ∀ r, SameBox s s' r) : g.Fits s' :=
  fun r => (h r).same (hb r)

lemma History.Fits.other (h : g.Fits s) (hb : ∀ r, r ≠ e → SameBox s s' r) (he : g.Agrees s' e) :
    g.Fits s' := by
  intro r
  by_cases hr : r = e
  · exact hr ▸ he
  exact (h r).same (hb r hr)

lemma History.Agrees.not_free (h : g.Agrees s r) (hw : g.waiting r) :
    (s.envs r).envStatus ≠ .free := by
  cases hr : (s.envs r).envIpcRecving with
  | true =>
    rw [(h.asleep hw hr).1]
    simp
  | false => exact (h.woken hw hr).1

lemma History.Agrees.delivered (h : g.Agrees s r) (hw : g.waiting r) (hst : (s.envs r).envStatus
    ≠ .notRunnable) : (s.envs r).envIpcRecving = false ∧ g.sent r = g.seen r++[s.message r] := by
  cases hr : (s.envs r).envIpcRecving with
  | true => exact absurd (h.asleep hw hr).1 hst
  | false =>
    obtain hm | ⟨hn,_⟩ := (h.woken hw hr).2
    · exact ⟨rfl,hm⟩
    exact absurd hn hst

lemma sameBox_other {f : Env → Env} (hr : r ≠ e) : SameBox s (s.modEnv e f) r :=
  .of_envs (Kern.modEnv_other _ _ hr)

lemma History.Fits.status (h : g.Fits s) {st : EnvStatus} (hst : st ≠ .free) (hb : ¬(g.waiting e ∧
    (s.envs e).envStatus = .notRunnable)) : g.Fits (s.modEnv e (Edit.status st).apply) := by
  have hself := modEnv_self s e (Edit.status st).apply
  have hmsg : (s.modEnv e (Edit.status st).apply).message e = s.message e := by
    rw [Kern.message,hself]
    rfl
  have hrecv : ((s.modEnv e (Edit.status st).apply).envs e).envIpcRecving =
      (s.envs e).envIpcRecving := by rw [hself]; rfl
  refine h.other (fun r hr => sameBox_other hr) ⟨fun hw => ?_,fun hw hr => ?_,fun hw hr => ?_⟩
  · rw [hrecv]
    exact (h e).idle hw
  · rw [hrecv,((h e).delivered hw fun hc => hb ⟨hw,hc⟩).1] at hr
    cases hr
  rw [hself,hmsg]
  exact ⟨hst,.inl ((h e).delivered hw fun hc => hb ⟨hw,hc⟩).2⟩

lemma schedYield_fits (h : g.Fits s) (hs : s.schedYield = some s') :
    g.Fits s' ∧ ∃ e, s'.curenv = some e ∧ (s'.envs e).envStatus = .running := by
  obtain ⟨e,pre,_,hr,hp⟩ := schedYield_performs hs
  have h0 : g.Fits (apply (.sched (some e) pre) s) := h.same fun _ => .of_envs rfl
  have h1 : g.Fits (apply (.edit e .ran) (apply (.sched (some e) pre) s)) :=
    h0.other (fun r hr => sameBox_other hr) ((h e).same (by
      constructor <;> simp [apply,modEnv_self,Edit.apply]))
  rw [hp.result]
  refine ⟨h1.status (by simp) fun hc => ?_,e,rfl,?_⟩
  · simp [apply,modEnv_self,Edit.apply,hr] at hc
  simp [apply,modEnv_self,Edit.apply]

end fits

def Event.IpcQuiet : Event → Prop
  | .edit _ (.status _) | .edit _ (.mail _ _) | .edit _ (.mailPerm _) | .edit _ .block => False
  | .spawn _ | .reap _ => False
  | _ => True

def Event.Edits : Event → Prop
  | .edit _ _ | .sched _ _ => True
  | _ => False

section quiet

variable {K : Finset Nat} {s s' : Kern} {g : History} {c e r : Nat} {a : Event}

lemma Event.ipcQuiet_sameBox (ha : a.IpcQuiet) (r : Nat) : SameBox s (a.apply s) r := by
  cases a with
  | fresh e n zero perm => exact .of_envs (congrFun (withTable_envs _ _ _) r)
  | table e d => exact .of_envs (congrFun (withTable_envs _ _ _) r)
  | spawn a => exact ha.elim
  | reap e => exact ha.elim
  | edit e k =>
    by_cases hr : r = e
    · subst hr
      cases k with
      | status | mail | mailPerm | block => exact ha.elim
      | _ => constructor <;> simp [apply,modEnv_self,Edit.apply]
    exact sameBox_other hr
  | _ => exact .of_envs rfl

lemma Does.sameBox (h : Does IpcQuiet s s') (r : Nat) : SameBox s s' r :=
  h.invariant (I := fun t => SameBox s t r)
    (fun _ _ ht _ ha => ht.trans (ipcQuiet_sameBox ha r)) (.of_envs rfl)

lemma Event.Stores.ipcQuiet (h : a.Stores e) : a.IpcQuiet := by
  cases a with
  | store => trivial
  | _ => exact h.elim

lemma Does.edits_live (h : Does Edits s s') : s'.Live e ↔ s.Live e := by
  refine h.invariant (I := fun t => t.Live e ↔ s.Live e) (fun t a ht hok ha => ?_) .rfl
  cases a with
  | edit e' k => exact (((quiet_edit hok).sameEnvs.env e).live).trans ht
  | sched => exact ht
  | _ => exact ha.elim

lemma schedYield_live (hs : s.schedYield = some s') : s'.Live e ↔ s.Live e := by
  obtain ⟨e',pre,_,_,hp⟩ := schedYield_performs hs
  exact Does.edits_live ⟨_,hp,by simp [Edits]⟩

end quiet

section calls

variable {K : Finset Nat} {s s' : Kern} {g : History} {c : Nat} {a1 a2 a3 a4 a5 : Word} {x : Ext}

lemma History.Fits.idle_of_free (hg : g.Fits s) {e : Nat}
    (hfree : (s.envs e).envStatus = .free) : g.waiting e = false := by
  cases hw : g.waiting e with
  | false => rfl
  | true => exact absurd hfree ((hg e).not_free hw)

lemma History.Fits.spawn (h : Inv K NoHand s) (hg : g.Fits s) {a : Word}
    (hok : Ok s (.spawn a)) : g.Fits (apply (.spawn a) s) := by
  obtain ⟨e,l,hl⟩ := exists_cons_of_ne_nil hok.1
  have hidle := hg.idle_of_free ((h.table.free_iff e).mp (by simp [hl])).2
  simp only [apply,hl,headD_cons]
  refine hg.other (fun r hr => .of_envs (spawn_other hr))
    ⟨fun hw => ⟨?_,((hg e).idle hw).2⟩,fun hw => ?_,fun hw => ?_⟩
  · rw [spawn_self]
    rfl
  · rw [hidle] at hw
    cases hw
  rw [hidle] at hw
  cases hw

lemma sysExofork_fits (h : Inv K NoHand s) (hc : s.Live c) (hg : g.Fits s) {r : Int}
    (hs : s.sysExofork c = some (r,s')) : g.Fits s' := by
  obtain ⟨_,rfl⟩ | ⟨e,l,hl,hq,_,hp⟩ := sysExofork_spec h hc hs
  · exact hg
  obtain ⟨he,hfree⟩ := (h.table.free_iff e).mp (by simp [hl])
  have hidle := hg.idle_of_free hfree
  have hspawn := hg.spawn h (a := (s.envs c).envId) ⟨by simp [hl],hq⟩
  rw [hp.result]
  have hst : g.Fits (apply (.edit e (.status .notRunnable)) (apply (.spawn _) s)) :=
    hspawn.status (by simp) fun hc => by
      rw [hidle] at hc
      cases hc.1
  exact hst.same fun r => ipcQuiet_sameBox (a := .edit e (.frame _)) trivial r

lemma sysEnvSetStatus_fits (hg : g.Fits s) (hset : ∀ e, s.envid2env c a1 true = some e →
    ¬(g.waiting e ∧ (s.envs e).envStatus = .notRunnable))
    : g.Fits (s.sysEnvSetStatus c a1 a2).2 := by
  unfold Kern.sysEnvSetStatus
  cases he : s.envid2env c a1 true with
  | none => exact hg
  | some e =>
    simp only
    split
    · exact hg.status (by simp) (hset e he)
    split
    · exact hg.status (by simp) (hset e he)
    exact hg

lemma History.call_send {t : Nat} {r : Int} (ht : s.envid2env c a1 false = some t)
    (hs : s.sysIpcTrySend c a1 a2 a3 a4 = some (r,s')) :
    g.call s c 13 a1 a2 a3 a4 = if 0 ≤ r then
        { g with sent := update g.sent t
                   (g.sent t++[((s.envs c).envId,a2,if r = 1 then a4 else 0)]) }
      else g := by simp only [History.call,if_true,ht,hs]

lemma History.Fits.deliver {t : Nat} {m : Message}
    (hg : g.Fits s) (hrecv : (s.envs t).envIpcRecving) (hb : ∀ r, r ≠ t → SameBox s s' r)
    (hr : (s'.envs t).envIpcRecving = false) (hst : (s'.envs t).envStatus = .runnable) (hm :
    s'.message t = m) : ({g with sent := update g.sent t (g.sent t++[m])} : History).Fits s' := by
  have hw : g.waiting t := by
    cases hw : g.waiting t with
    | true => rfl
    | false =>
      rw [((hg t).idle hw).1] at hrecv
      cases hrecv
  have heq := ((hg t).asleep hw hrecv).2
  intro r
  by_cases hrt : r = t
  · subst hrt
    refine ⟨fun hc => ?_,fun _ hc => ?_,fun _ _ => ⟨?_,.inl ?_⟩⟩
    · change g.waiting r = false at hc
      rw [hw] at hc
      cases hc
    · rw [hr] at hc
      cases hc
    · rw [hst]
      simp
    simp only [update_self,heq,hm]
  have ha := (hg r).same (hb r hrt)
  have hsent : update g.sent t (g.sent t++[m]) r = g.sent r :=
    update_of_ne hrt _ _
  exact ⟨by simpa only [hsent] using ha.idle,by simpa only [hsent] using ha.asleep,
    by simpa only [hsent] using ha.woken⟩

lemma History.Fits.takeMail {t : Nat} {v w : Word} (hg : g.Fits s)
    (hrecv : (s.envs t).envIpcRecving) : g.Fits (s.modEnv t (Edit.mail v w).apply) := by
  have hself := modEnv_self s t (Edit.mail v w).apply
  have hw : g.waiting t := by
    cases hw : g.waiting t with
    | true => rfl
    | false =>
      rw [((hg t).idle hw).1] at hrecv
      cases hrecv
  obtain ⟨hst,heq⟩ := (hg t).asleep hw hrecv
  have hst' : ((s.modEnv t (Edit.mail v w).apply).envs t).envStatus = .notRunnable := by
    rw [hself]
    exact hst
  refine hg.other (fun r hr => sameBox_other hr) ⟨fun hc => ?_,fun _ hc => ?_,fun _ _ => ?_⟩
  · rw [hw] at hc
    cases hc
  · rw [hself] at hc
    cases hc
  rw [hst']
  exact ⟨by simp,.inr ⟨rfl,heq⟩⟩

lemma sysIpcTrySend_fits (h : Inv K NoHand s) (hc : s.Live c) (hg : g.Fits s) {r : Int}
    (hs : s.sysIpcTrySend c a1 a2 a3 a4 = some (r,s')) : (g.call s c 13 a1 a2 a3 a4).Fits s' := by
  obtain ⟨hr,rfl⟩ | ⟨t,ht,hrecv,hcase⟩ := sysIpcTrySend_spec h hc hs
  · have hcall : g.call s' c 13 a1 a2 a3 a4 = g := by
      cases ht : s'.envid2env c a1 false with
      | none => simp only [History.call,if_true,ht]
      | some t => rw [History.call_send ht hs,if_neg (by omega)]
    rw [hcall]
    exact hg
  rw [History.call_send ht hs]
  obtain ⟨hr,hp⟩ | ⟨rfl,hp⟩ | ⟨rfl,_,_,_,_,w,_,hp⟩ := hcase
  · rw [if_neg (by omega),hp.result]
    exact hg.takeMail hrecv
  · have hout := hp.result
    simp only [foldl_cons,foldl_nil,apply,Kern.modEnv_modEnv] at hout
    rw [if_pos (by decide),if_neg (by decide),hout]
    refine hg.deliver hrecv (fun r hr => sameBox_other hr) ?_ ?_ ?_
    · rw [modEnv_self]; rfl
    · rw [modEnv_self]; rfl
    rw [Kern.message,modEnv_self]; rfl
  have hout := hp.result
  simp only [foldl_cons,foldl_nil] at hout
  rw [if_pos (by decide),if_pos rfl,hout]
  simp only [apply,Kern.modEnv_modEnv]
  have henvs : ∀ (u : Kern) (n : Nat) (w' : Word),
      ((u.withTable t (PDX (s.envs t).envIpcDstva)).assignPte t n w').envs = u.envs :=
    fun u n w' => withTable_envs _ _ _
  refine hg.deliver hrecv (fun r hr => ?_) ?_ ?_ ?_
  · refine .of_envs ?_
    rw [Kern.modEnv_other _ _ hr,henvs,Kern.modEnv_other _ _ hr]
  · rw [modEnv_self,henvs,modEnv_self]; rfl
  · rw [modEnv_self]; rfl
  rw [Kern.message,modEnv_self,henvs,modEnv_self]; rfl

lemma History.Fits.sleep (hg : g.Fits s) (hw : g.waiting c = false) (hb : ∀ r, r ≠ c →
    SameBox s s' r) (hr : (s'.envs c).envIpcRecving) (hst : (s'.envs c).envStatus = .notRunnable)
    : ({g with waiting := update g.waiting c true} : History).Fits s' := by
  intro r
  by_cases hrc : r = c
  · subst hrc
    refine ⟨fun hc => ?_,fun _ _ => ⟨hst,((hg r).idle hw).2⟩,fun _ hc => ?_⟩
    · simp at hc
    rw [hr] at hc
    cases hc
  have ha := (hg r).same (hb r hrc)
  have hwait : update g.waiting c true r = g.waiting r := update_of_ne hrc _ _
  exact ⟨by simpa only [hwait] using ha.idle,by simpa only [hwait] using ha.asleep,
    by simpa only [hwait] using ha.woken⟩

lemma sysIpcRecv_fits (a2 a3 a4 : Word) (hg : g.Fits s) (hw : g.waiting c = false)
    {r : Flow Int} (hs : s.sysIpcRecv c a1 = some (r,s')) : (r ≠ .switched ∧
    g.call s c 14 a1 a2 a3 a4 = g ∧ s' = s) ∨ (r = .switched ∧ (g.call s c 14 a1 a2 a3 a4).Fits s' ∧
    ∃ e, s'.curenv = some e ∧ (s'.envs e).envStatus = .running) := by
  unfold Kern.sysIpcRecv at hs
  by_cases hbad : a1 ≠ 0 ∧ Kern.BadVa a1
  · rw [if_pos hbad] at hs
    cases hs
    refine .inl ⟨by simp,?_,rfl⟩
    rw [History.call,if_neg (by decide),if_neg fun hc => hc.2 hbad]
  rw [if_neg hbad] at hs
  have hcall : g.call s c 14 a1 a2 a3 a4 = {g with waiting := update g.waiting c true} := by
    rw [History.call,if_neg (by decide),if_pos ⟨rfl,hbad⟩]
  have hbox : ∀ r, r ≠ c → SameBox s
      (if a1 ≠ 0 then s.modEnv c fun v => {v with envIpcDstva := a1} else s) r := by
    intro r hr
    split
    · exact sameBox_other hr
    exact .of_envs rfl
  simp only at hs
  generalize (if a1 ≠ 0 then s.modEnv c fun v => {v with envIpcDstva := a1} else s) = s1 at *
  split at hs
  · obtain ⟨s2,h2,hs⟩ := of_bind hs
    cases hs
    rw [hcall]
    refine .inr ⟨rfl,schedYield_fits (hg.sleep hw (fun r hr => ?_) ?_ ?_) h2⟩
    · exact (hbox r hr).trans (sameBox_other hr)
    · rw [modEnv_self]
    rw [modEnv_self]
  cases hs

variable {no : Word}

lemma History.call_other (h13 : no ≠ 13) (h14 : no ≠ 14) : g.call s c no a1 a2 a3 a4 = g := by
  rw [History.call,if_neg h13,if_neg fun hc => h14 hc.1]

lemma History.call_waiting (h14 : no ≠ 14) : (g.call s c no a1 a2 a3 a4).waiting = g.waiting := by
  unfold History.call
  split
  · split
    · split <;> rfl
    rfl
  rw [if_neg fun hc => h14 hc.1]

/-- After a kernel function the history fits the state. -/
structure FitsAfter {α : Type} (g : History) (c : Nat) (s : Kern) (r : Flow α) : Prop where
  fits : g.Fits s
  ret : r ≠ .switched → g.waiting c = false
  switched : r = .switched → ∃ e, s.curenv = some e ∧ (s.envs e).envStatus = .running

def BoxCall (no : Word) : Prop := no = 8 ∨ no = 9 ∨ no = 13 ∨ no = 14

lemma syscall_fits (h : Inv K NoHand s) (hc : s.Live c) (hno : BoxCall no) (hset : no = 9 →
    ∀ e, s.envid2env c a1 true = some e → ¬(g.waiting e ∧ (s.envs e).envStatus = .notRunnable))
    (hg : g.Fits s) (hw : g.waiting c = false) {r : Flow Int} (hs : s.syscall
    c no a1 a2 a3 a4 a5 x = some (r,s')) : FitsAfter (g.call s c no a1 a2 a3 a4) c s' r := by
  have hret : ∀ {t : Kern} (v : Int), no ≠ 13 → no ≠ 14 → g.Fits t →
      FitsAfter (g.call s c no a1 a2 a3 a4) c t (.ret v) := by
    intro t v h13 h14 ht
    rw [History.call_other h13 h14]
    exact ⟨ht,fun _ => hw,fun hc => (by cases hc)⟩
  obtain rfl | rfl | rfl | rfl := hno
  · obtain ⟨⟨v,s1⟩,h1,hs⟩ := of_bind hs
    cases hs
    exact hret v (by decide) (by decide) (sysExofork_fits h hc hg h1)
  · cases hs
    exact hret _ (by decide) (by decide) (sysEnvSetStatus_fits hg (hset rfl))
  · obtain ⟨⟨v,s1⟩,h1,hs⟩ := of_bind hs
    cases hs
    refine ⟨sysIpcTrySend_fits h hc hg h1,fun _ => ?_,fun hc => (by cases hc)⟩
    rw [History.call_waiting (by decide)]
    exact hw
  obtain ⟨hr,hcall,rfl⟩ | ⟨rfl,hf,he⟩ := sysIpcRecv_fits a2 a3 a4 hg hw hs
  · rw [hcall]
    exact ⟨hg,fun _ => hw,fun hc => absurd hc hr⟩
  exact ⟨hf,fun hc => absurd rfl hc,fun _ => he⟩

end calls

section traps

variable {K : Finset Nat} {s s' t : Kern} {g : History} {c : Nat} {tf : Trapframe} {x : Ext}
  {a : Event}

lemma Event.Handles.not_spawn (h : a.Handles s c tf x)
    (hno : ¬(tf.trapno = 48 ∧ BoxCall tf.regs.eax)) (b : Word) : a ≠ .spawn b := by
  rintro rfl
  obtain h | ⟨h,_⟩ | ⟨_,h⟩ | ⟨h48,h,_⟩ := h
  · cases h
  · exact h.elim
  · exact h.elim
  exact hno ⟨h48,.inl h⟩

lemma Event.Handles.fits (h : a.Handles s c tf x) (hno : ¬(tf.trapno = 48 ∧ BoxCall tf.regs.eax))
    (hw : g.waiting c = false) (hok : a.Ok t) (hback : ∀ e, t.Live e → s.Live e) (hf : g.Fits t) :
    g.Fits (a.apply t) ∨ ∃ e, s.Live e ∧ ¬(a.apply t).Live e := by
  have hcall : ∀ k : Word, BoxCall k → ¬(tf.trapno = 48 ∧ tf.regs.eax = k) :=
    fun k hk hc => hno ⟨hc.1,hc.2 ▸ hk⟩
  have hquiet : a.IpcQuiet → g.Fits (a.apply t) ∨ ∃ e, s.Live e ∧ ¬(a.apply t).Live e :=
    fun hq => .inl (hf.same (ipcQuiet_sameBox hq))
  cases a with
  | spawn b => exact absurd rfl (h.not_spawn hno b)
  | reap e =>
    refine .inr ⟨e,hback e hok.1,fun hl => hl.2 ?_⟩
    simp [apply,Kern.reap]
  | edit e k =>
    cases k with
    | status st =>
      have hec : e = c := by
        obtain h | ⟨h,_⟩ | ⟨_,h⟩ | ⟨h48,⟨_,h⟩,_⟩ := h
        · cases h
        · exact h.2
        · exact h.elim
        obtain h | h | ⟨h9,_⟩ | ⟨h13,_⟩ := h
        · exact h
        · exact absurd (live_saved.mpr (hback e hok.1)) h
        · exact absurd ⟨h48,h9⟩ (hcall 9 (.inr (.inl rfl)))
        exact absurd ⟨h48,h13⟩ (hcall 13 (.inr (.inr (.inl rfl))))
      subst hec
      refine .inl (hf.status hok.2 fun hc => ?_)
      rw [hw] at hc
      cases hc.1
    | mail | mailPerm =>
      obtain h | ⟨h,_⟩ | ⟨_,h⟩ | ⟨h48,⟨h13,_⟩,_⟩ := h
      · cases h
      · exact h.elim
      · exact h.elim
      exact absurd ⟨h48,h13⟩ (hcall 13 (.inr (.inr (.inl rfl))))
    | block =>
      obtain h | ⟨h,_⟩ | ⟨_,h⟩ | ⟨h48,⟨h14,_⟩,_⟩ := h
      · cases h
      · exact h.elim
      · exact h.elim
      exact absurd ⟨h48,h14⟩ (hcall 14 (.inr (.inr (.inr rfl))))
    | _ => exact hquiet trivial
  | _ => exact hquiet trivial

lemma Does.handles_fits (h : Does (Handles s c tf x) s s') (hi : Inv K NoHand s)
    (hno : ¬(tf.trapno = 48 ∧ BoxCall tf.regs.eax)) (hw : g.waiting c = false) (hg : g.Fits s)
    (hkeep : ∀ e, s.Live e → s'.Live e) : g.Fits s' := by
  have hrun := h.invariant (I := fun t => Inv K NoHand t ∧ (∀ e, t.Live e → s.Live e) ∧
    (g.Fits t ∨ ∃ e, s.Live e ∧ ¬t.Live e)) (fun t a ht hok ha => ?_) ⟨hi,fun _ hl => hl,.inl hg⟩
  · obtain hf | ⟨e,he,hdead⟩ := hrun.2.2
    · exact hf
    exact absurd (hkeep e he) hdead
  obtain ⟨hit,hback,hfit⟩ := ht
  have hlive : ∀ e, (a.apply t).Live e → t.Live e := by
    intro e he
    obtain hl | ⟨b,_,hb,_⟩ := live_origin hit hok he
    · exact hl
    exact absurd hb (ha.not_spawn hno b)
  refine ⟨hit.event hok,fun e he => hback e (hlive e he),?_⟩
  obtain hf | ⟨e,he,hdead⟩ := hfit
  · exact ha.fits hno hw hok hback hf
  exact .inr ⟨e,he,fun hl => hdead (hlive e hl)⟩

lemma Kern.GoesOn.fits (h : s.GoesOn c s') (hg : g.Fits s) :
    g.Fits s' ∧ ∃ e, s'.curenv = some e ∧ (s'.envs e).envStatus = .running := by
  obtain ⟨rfl,hcur,_,hr⟩ | ⟨_,hy⟩ := h
  · exact ⟨hg,c,hcur,hr⟩
  exact schedYield_fits hg hy

lemma Kern.GoesOn.live (h : s.GoesOn c s') {e : Nat} : s'.Live e ↔ s.Live e := by
  obtain ⟨rfl,_⟩ | ⟨_,hy⟩ := h
  · exact Iff.rfl
  exact schedYield_live hy

lemma trapReturn_fits (hc : s.Live c) (hcur : s.curenv = some c) (hg : g.Fits s)
    (hw : g.waiting c = false) (hs : s.trapReturn c = some s') :
    g.Fits s' ∧ ∃ e, s'.curenv = some e ∧ (s'.envs e).envStatus = .running := by
  unfold Kern.trapReturn at hs
  split at hs
  · rename_i hrun
    cases hs
    exact (Kern.GoesOn.ran hc.1 hcur hrun).fits
      (hg.same (ipcQuiet_sameBox (a := .edit c .ran) trivial))
  exact schedYield_fits (hg.status (by simp) fun hc => by
    rw [hw] at hc
    cases hc.1) hs

lemma trap_fits (h : Inv K NoHand s) (hc : s.Live c) (hcur : s.curenv = some c)
    (hnic : NicInBounds tf x) (hset : g.Spares s (.trap tf x)) (hg : g.Fits s) (hw : g.waiting c =
    false) (hs : s.trap c tf x = some s') (hkeep : ∀ e, s.Live e → s'.Live e) : (g.record
    s (.trap tf x)).Fits s' ∧ ∃ e, s'.curenv = some e ∧ (s'.envs e).envStatus = .running := by
  by_cases hno : tf.trapno = 48 ∧ BoxCall tf.regs.eax
  · obtain ⟨h48,hipc⟩ := hno
    have hrec : g.record s (.trap tf x) =
        g.call (s.saved c tf) c tf.regs.eax tf.regs.edx tf.regs.ecx tf.regs.ebx tf.regs.edi := by
      simp only [History.record,hcur,if_pos h48,Kern.saved]
    rw [hrec]
    have hbox := ipcQuiet_sameBox (s := s) (a := .edit c (.frame tf)) trivial
    have hset' : tf.regs.eax = 9 → ∀ e, (s.saved c tf).envid2env c tf.regs.edx true = some e →
        ¬(g.waiting e ∧ ((s.saved c tf).envs e).envStatus = .notRunnable) := by
      intro hn e he
      rw [show ((s.saved c tf).envs e).envStatus = _ from (hbox e).status]
      exact hset c e hcur h48 hn ((envid2env_frame _ _ _ _ _).symm.trans he)
    have hi := saved_inv (c := c) h tf
    have hl : (s.saved c tf).Live c := live_saved.mpr hc
    obtain ⟨⟨f,s1⟩,hsys⟩ := trap_syscall h48 hs
    have hf := syscall_fits hi hl hipc hset' (hg.same hbox) hw hsys
    cases f with
    | switched =>
      rw [trap_switched h48 hsys] at hs
      cases hs
      exact ⟨hf.fits,hf.switched rfl⟩
    | ret v =>
      rw [trap_ret h48 hsys] at hs
      obtain ⟨_,_,rfl,hcur1,hl1⟩ := syscall_exits hi hl hcur (hnic.recv h48) hnic.size hsys
      have hl2 : (s1.modEnv c (Edit.eax (BitVec.ofInt 32 v)).apply).Live c :=
        ⟨hl1.1,by rw [modEnv_self]; exact hl1.2⟩
      exact trapReturn_fits hl2 hcur1
        (hf.fits.same (ipcQuiet_sameBox (a := .edit c (.eax (BitVec.ofInt 32 v))) trivial))
        (hf.ret (by simp)) hs
  have hrec : g.record s (.trap tf x) = g := by
    simp only [History.record,hcur]
    split
    · rename_i h48
      exact History.call_other (fun h => hno ⟨h48,.inr (.inr (.inl h))⟩)
        fun h => hno ⟨h48,.inr (.inr (.inr h))⟩
    rfl
  rw [hrec]
  obtain ⟨s1,hd,hgo⟩ := trap_handles h hc hcur hnic hs
  exact hgo.fits (hd.handles_fits h hno hw hg fun e he => hgo.live.mp (hkeep e he))

end traps

section runs

variable {K : Finset Nat} {s s' : Kern} {g : History}

structure Delivers (K : Finset Nat) (s : Kern) (g : History) : Prop where
  good : Good K s
  fits : g.Fits s
  cur : ∀ c, s.curenv = some c → g.waiting c = false

lemma History.Fits.observe (hg : g.Fits s)
    (hrun : ∀ e, s.curenv = some e → g.waiting e → (s.envs e).envStatus = .running) :
    (g.observe s).Fits s ∧ ∀ c, s.curenv = some c → (g.observe s).waiting c = false := by
  unfold History.observe
  cases hcur : s.curenv with
  | none => exact ⟨hg,fun c hc => (by cases hc)⟩
  | some e =>
    simp only
    by_cases hw : g.waiting e
    · rw [if_pos hw]
      have hst : (s.envs e).envStatus ≠ .notRunnable := by
        rw [hrun e hcur hw]
        simp
      obtain ⟨hr,hsent⟩ := (hg e).delivered hw hst
      refine ⟨fun r => ?_,fun c hc => ?_⟩
      · by_cases hre : r = e
        · subst hre
          refine ⟨fun _ => ⟨hr,?_⟩,fun hc => ?_,fun hc => ?_⟩
          · simp only [update_self,hsent]
          · simp at hc
          simp at hc
        have ha := hg r
        have h1 : update g.waiting e false r = g.waiting r :=
          update_of_ne hre _ _
        have h2 : update g.seen e (g.seen e++[s.message e]) r = g.seen r :=
          update_of_ne hre _ _
        exact ⟨by simpa only [h1,h2] using ha.idle,by simpa only [h1,h2] using ha.asleep,
          by simpa only [h1,h2] using ha.woken⟩
      cases hc
      simp
    rw [if_neg hw]
    refine ⟨hg,fun c hc => ?_⟩
    cases hc
    simpa using hw

lemma History.Fits.load (hg : g.Fits s) (h : Inv K NoHand s) {a : Event} (hok : a.Ok s)
    (ha : a.Loads) : g.Fits (a.apply s) := by
  cases a with
  | fresh e n zero perm =>
    exact hg.same fun r => ipcQuiet_sameBox (a := .fresh e n zero perm) trivial r
  | spawn b => exact hg.spawn h hok
  | edit e k =>
    cases k with
    | entry w => exact hg.same fun r => ipcQuiet_sameBox (a := .edit e (.entry w)) trivial r
    | _ => exact ha.elim
  | _ => exact ha.elim

lemma step_delivers (h : Delivers K s g) {a : Act} (hs : Step s a s') (hkeep : ∀ e, s.Live e →
    s'.Live e) (hset : g.Spares s a) : Delivers K s' ((g.record s a).observe s') := by
  have hgood := (step_does h.good hs).2
  have hquiet : g.Fits s' → (∀ e, s'.curenv = some e → g.waiting e →
      (s'.envs e).envStatus = .running) → g.record s a = g →
      Delivers K s' ((g.record s a).observe s') := by
    intro hf hrun hrec
    rw [hrec]
    exact ⟨hgood,(hf.observe hrun).1,(hf.observe hrun).2⟩
  cases hs with
  | create hcur hl hs =>
    have hd := envCreate_does h.good.inv hl hs
    refine hquiet (hd.invariant (I := fun t => Inv K NoHand t ∧ g.Fits t) (fun t a ht hok ha =>
      ⟨ht.1.event hok,ht.2.load ht.1 hok ha.1⟩) ⟨h.good.inv,h.fits⟩).2 (fun e he => ?_) rfl
    have hcur' : s'.curenv = s.curenv := hd.invariant (I := fun t => t.curenv = s.curenv)
      (fun t a ht _ ha => (stays_curenv ha.2.1).trans ht) rfl
    rw [hcur',hcur] at he
    cases he
  | start hcur hs =>
    obtain ⟨hf,e,he,hr⟩ := schedYield_fits h.fits hs
    refine hquiet hf (fun e' he' _ => ?_) rfl
    rw [he] at he'
    cases he'
    exact hr
  | store hcur _ hs =>
    have hd := userStore_does h.good.inv (h.good.cur _ hcur) hs
    have hf := h.fits.same (hd.mono fun a ha => ha.ipcQuiet).sameBox
    refine hquiet hf (fun e he hw => ?_) rfl
    have hcur' := (hd.stays h.good.inv (fun a ha => Stores.stays ha) (h.good.cur _ hcur)).2
    rw [h.cur e (hcur'.symm.trans he)] at hw
    cases hw
  | trap hcur _ _ hnic hs =>
    obtain ⟨hf,e,he,hr⟩ := trap_fits h.good.inv (h.good.cur _ hcur) hcur hnic hset h.fits
      (h.cur _ hcur) hs hkeep
    have hrun : ∀ e', s'.curenv = some e' → (s'.envs e').envStatus = .running := by
      intro e' he'
      rw [he] at he'
      cases he'
      exact hr
    have hobs := hf.observe fun e' he' _ => hrun e' he'
    exact ⟨hgood,hobs.1,hobs.2⟩

lemma IpcRun.delivers (h : IpcRun K s g) : Delivers K s g := by
  induction h with
  | boot hb =>
    refine ⟨hb.good,fun r => ⟨fun _ => ⟨by rw [hb.envs],rfl⟩,fun hc => (by cases hc),
      fun hc => (by cases hc)⟩,fun _ _ => rfl⟩
  | step _ hs hkeep hset ih => exact step_delivers ih hs hkeep hset

theorem ipc_exactly_once (h : IpcRun K s g) (r : Nat) :
    g.seen r = g.sent r ∨ ∃ m, g.sent r = g.seen r++[m] := by
  have ha := h.delivers.fits r
  cases hw : g.waiting r with
  | false => exact .inl (ha.idle hw).2.symm
  | true =>
    cases hr : (s.envs r).envIpcRecving with
    | true => exact .inl (ha.asleep hw hr).2.symm
    | false =>
      obtain hm | ⟨_,hm⟩ := (ha.woken hw hr).2
      · exact .inr ⟨_,hm⟩
      · exact .inl hm.symm

end runs

instance (g : History) (s : Kern) (a : Act) : Decidable (g.Spares s a) :=
  match a with
  | .create _ _ | .start | .store _ _ => isTrue trivial
  | .trap tf _ => decidable_of_iff
      (∀ c ∈ s.curenv, tf.trapno = 48 → tf.regs.eax = 9 → ∀ e ∈ s.envid2env c tf.regs.edx true,¬
        (g.waiting e ∧ (s.envs e).envStatus = .notRunnable))
      ⟨fun h c e hc hk hn he => h c hc hk hn e he,fun h c hc hk hn e he => h c e hc hk hn he⟩

def Kern.execIpc : List Act → Kern → History → Option (Kern × History)
  | [],s,g => some (s,g)
  | a :: l,s,g => do
    let s' ← s.exec a
    if (s'.envFreeList = s.envFreeList ∨ s'.envFreeList = s.envFreeList.tail) ∧ g.Spares s a then
      execIpc l s' ((g.record s a).observe s')
    else none

lemma IpcRun.execIpc {K : Finset Nat} {p : Kern × History} (l : List Act) :
    ∀ {s : Kern} {g : History}, IpcRun K s g → Kern.execIpc l s g = some p → IpcRun K p.1 p.2 := by
  induction l with
  | nil =>
    intro s g h hs
    cases hs
    exact h
  | cons a l ih =>
    intro s g h hs
    obtain ⟨s',h1,hs⟩ := of_bind hs
    split at hs
    · rename_i hok
      have hgood := h.delivers.good
      have hgood' := (step_does hgood (step_of_exec h1)).2
      refine ih (.step h (step_of_exec h1) (fun e he => ⟨he.1,fun hfree => ?_⟩) hok.2) hs
      have hmem := (hgood'.inv.table.free_iff e).mpr ⟨he.1,hfree⟩
      have hmem' : e ∈ s.envFreeList := by
        obtain heq | heq := hok.1
        · exact heq ▸ hmem
        exact mem_of_mem_tail (heq ▸ hmem)
      exact he.2 ((hgood.inv.table.free_iff e).mp hmem').2
    cases hs

def twoSends : List Act :=
  [.create 0x800020 [],.create 0x800020 [],.start,.trap (callFrame 1 14 0 0 0 0 0) {},.trap
   (callFrame 0 13 0x1001 5 0 0 0) {},.trap (callFrame 0 13 0x1001 9 0 0 0) {},.trap (callFrame 0 12
   0 0 0 0 0) {},.trap (callFrame 1 14 0 0 0 0 0) {},.trap (callFrame 0 13 0x1001 6 0 0 0) {}]

theorem ipc_exactly_once_two : ∃ s g, IpcRun {0} s g ∧ g.sent 1 = [(0x1000,5,0),(0x1000,6,0)] ∧
    g.seen 1 = [(0x1000,5,0)] ∧ (g.seen 1 = g.sent 1 ∨ ∃ m, g.sent 1 = g.seen 1++[m]) := by
  have hrun : (Kern.execIpc twoSends (bootKern 32) {}).map (fun p =>
      decide (p.2.sent 1 = [(0x1000,5,0),(0x1000,6,0)] ∧ p.2.seen 1 = [(0x1000,5,0)])) =
        some true := by decide +kernel
  obtain ⟨⟨s,g⟩,hs,hsent,hseen⟩ := of_map_decide hrun
  have hipc : IpcRun {0} s g :=
    (IpcRun.boot (boot_bootKern (by decide) (by decide))).execIpc _ hs
  exact ⟨s,g,hipc,hsent,hseen,ipc_exactly_once hipc 1⟩

end KludgeOS
