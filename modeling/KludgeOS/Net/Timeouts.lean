import KludgeOS.Mmu

/-!
The threads of the network server (`net/lwip/jos/arch/thread.c`) and their timeout records
(`sys_arch.c`). A result of `none` is a panic, a null pointer followed or the end of the process.
-/

namespace KludgeOS
open List Option Function BitVec
namespace Lwip

def THREAD_HASH_SIZE : Nat := 257
def THREAD_NUM_ONHALT : Nat := 4

/-- `struct thread_context`. Of the callbacks only their number is kept: no function but
`timeout_cleanup` is ever passed to `thread_onhalt`. -/
structure ThreadContext where
  tcTid : Word
  tcNonhalt : Nat := 0
  deriving DecidableEq

/-- `struct sys_thread`, at the address where `malloc` put it. -/
structure SysThread where
  tid : Word
  addr : Word
  deriving DecidableEq

structure Threads where
  maxTid : Word := 0
  curTc : Option ThreadContext := none
  threadQueue : List ThreadContext := []
  killQueue : List ThreadContext := []
  /-- `threads[thread_hash_size]`. -/
  threads : Nat → List SysThread := fun _ => []

def hash (tid : Word) : Nat := tid.toNat%THREAD_HASH_SIZE

namespace Threads

variable (s : Threads)

/-- `timeout_cleanup`, with the record it frees. -/
def timeoutCleanup : Option (List SysThread × Threads) := do
  let tc ← s.curTc
  let tid := tc.tcTid
  match (s.threads (hash tid)).find? (·.tid = tid) with
  | some t =>
    let rest := (s.threads (hash tid)).eraseP (·.tid = tid)
    return ([t],{s with threads := update s.threads (hash tid) rest})
  | none => return ([],s)

/-- The loop of `thread_clean`: `n` callbacks are left. -/
def cleanLoop : Nat → Threads → Option (List SysThread × Threads)
  | 0,s => some ([],s)
  | n+1,s => do
    let (f,s) ← s.timeoutCleanup
    let (g,s) ← cleanLoop n s
    return (f++g,s)

/-- `thread_clean`, with the records it frees. -/
def threadClean (tc : ThreadContext) : Option (List SysThread × Threads) := cleanLoop tc.tcNonhalt s

/-- `sys_arch_timeouts`; `mem` is what `malloc` returns. -/
def sysArchTimeouts (mem : Option Word) : Option Threads := do
  let tc ← s.curTc
  let tid := tc.tcTid
  match (s.threads (hash tid)).find? (·.tid = tid) with
  | some _ => return s
  | none =>
    let t ← mem
    if tc.tcNonhalt ≥ THREAD_NUM_ONHALT then none
    else return { s with
      curTc := some {tc with tcNonhalt := tc.tcNonhalt+1}
      threads := update s.threads (hash tid) (⟨tid,t⟩ :: s.threads (hash tid)) }

/-- `thread_create`; `tc` and `stack` tell whether the two calls of `malloc` succeed. -/
def threadCreate (tc stack : Bool) : Option Threads :=
  if tc = false then some s
  else
    let tid := s.maxTid
    let s := {s with maxTid := s.maxTid+1}
    if s.maxTid = allOnes 32 then none
    else if stack = false then some s
    else some {s with threadQueue := s.threadQueue++[{tcTid := tid}]}

def threadYield : Threads :=
  match s.threadQueue with
  | [] => s
  | next :: q =>
    {s with threadQueue := q++s.curTc.toList, curTc := some next}

/-- `thread_clean(threadq_pop(&kill_queue))`. -/
def cleanDead : Option (List SysThread × Threads) :=
  match s.killQueue with
  | [] => some ([],s)
  | dead :: q => {s with killQueue := q}.threadClean dead

/-- `thread_halt`. When no thread is left the process exits. -/
def threadHalt : Option Threads := do
  let tc ← s.curTc
  let (_,s) ← s.cleanDead
  let s := {s with killQueue := s.killQueue++[tc], curTc := none}
  if s.threadQueue = [] then none else some s.threadYield

end Threads

inductive ThreadAct where
  | create : Bool → Bool → ThreadAct
  | timeouts : Option Word → ThreadAct
  | yield : ThreadAct
  | halt : ThreadAct

def Threads.exec (s : Threads) : ThreadAct → Option Threads
  | .create tc stack => s.threadCreate tc stack
  | .timeouts mem => s.sysArchTimeouts mem
  | .yield => some s.threadYield
  | .halt => s.threadHalt

/-- The states after any calls, from `thread_init` on. -/
inductive Threads.Reached : Threads → Prop where
  | init : Reached {}
  | exec {s s' : Threads} {a : ThreadAct} : Reached s → s.exec a = some s' → Reached s'

namespace Threads

variable (s : Threads)

def owned (tid : Word) : List SysThread := (s.threads (hash tid)).filter (·.tid = tid)

def without (tid : Word) : Threads :=
  {s with threads := fun b => (s.threads b).filter (·.tid ≠ tid)}

/-- Cleaning the first dead thread, `dead`, frees the records made for it, and takes them and no
others off the lists. -/
def CleanExact (dead : ThreadContext) : Prop :=
  s.cleanDead = some (s.owned dead.tcTid,{s.without dead.tcTid with killQueue := s.killQueue.tail})

def contexts : List ThreadContext := s.curTc.toList++s.threadQueue++s.killQueue

structure Wf : Prop where
  room : s.maxTid ≠ allOnes 32
  fresh : ∀ tc ∈ s.contexts, tc.tcTid < s.maxTid
  nodup : (s.contexts.map ThreadContext.tcTid).Nodup
  placed : ∀ b, ∀ t ∈ s.threads b, hash t.tid = b ∧ t.tid < s.maxTid
  single : ∀ b, ((s.threads b).map SysThread.tid).Nodup
  callback : ∀ tc ∈ s.contexts, s.owned tc.tcTid ≠ [] → 0 < tc.tcNonhalt

end Threads

open Threads (contexts owned cleanLoop without threadYield threadCreate cleanDead)

section lists

variable {l : List SysThread} {tid : Word}

lemma eraseP_eq_filter (h : (l.map SysThread.tid).Nodup) :
    l.eraseP (·.tid = tid) = l.filter (·.tid ≠ tid) := by
  induction l with
  | nil => rfl
  | cons t l ih =>
    obtain ⟨hne,h⟩ := nodup_cons.mp h
    by_cases ht : t.tid = tid
    · subst ht
      have hall : ∀ u ∈ l, u.tid ≠ t.tid := fun u hu heq => hne (heq ▸ List.mem_map_of_mem hu)
      rw [eraseP_cons_of_pos (by simp),filter_cons_of_neg (by simp)]
      exact (filter_eq_self.mpr fun u hu => by simpa using hall u hu).symm
    rw [eraseP_cons_of_neg (by simpa using ht),filter_cons_of_pos (by simpa using ht),ih h]

lemma find_toList (h : (l.map SysThread.tid).Nodup) (tid : Word) :
    (l.find? (·.tid = tid)).toList = l.filter (·.tid = tid) := by
  induction l with
  | nil => rfl
  | cons t l ih =>
    obtain ⟨hne,h⟩ := nodup_cons.mp h
    by_cases ht : t.tid = tid
    · subst ht
      have hall : ∀ u ∈ l, u.tid ≠ t.tid := fun u hu heq => hne (heq ▸ List.mem_map_of_mem hu)
      rw [find?_cons_of_pos (by simp),filter_cons_of_pos (by simp),
        filter_eq_nil_iff.mpr fun u hu => by simpa using hall u hu]
      rfl
    rw [find?_cons_of_neg (by simpa using ht),filter_cons_of_neg (by simpa using ht),ih h]

end lists

section clean

variable {s : Threads} {c : ThreadContext} {tid : Word} {t : SysThread}

lemma mem_owned : t ∈ s.owned tid ↔ t ∈ s.threads (hash tid) ∧ t.tid = tid := by
  simp [owned]

lemma Threads.Wf.owned_of_tid (h : s.Wf) {b : Nat} (ht : t ∈ s.threads b) : t ∈ s.owned t.tid := by
  rw [mem_owned,(h.placed b t ht).1]
  exact ⟨ht,rfl⟩

lemma Threads.Wf.without_of_owned_nil (h : s.Wf) (ho : s.owned tid = []) : s.without tid = s := by
  have hall : ∀ b, (s.threads b).filter (·.tid ≠ tid) = s.threads b := by
    intro b
    refine filter_eq_self.mpr fun t ht => ?_
    have hne : t.tid ≠ tid := by
      rintro rfl
      have := h.owned_of_tid ht
      rw [ho] at this
      cases this
    simpa using hne
  simp only [without,hall]

lemma owned_without_self : (s.without tid).owned tid = [] := by
  simp [owned,without,List.filter_filter]

lemma owned_without_other {tid' : Word} (hne : tid' ≠ tid) :
    (s.without tid).owned tid' = s.owned tid' := by
  simp only [owned,without,List.filter_filter]
  refine filter_congr fun t _ => ?_
  by_cases ht : t.tid = tid'
  · simp [ht,hne]
  simp [ht]

lemma Threads.Wf.without (h : s.Wf) (tid : Word) : (s.without tid).Wf where
  room := h.room
  fresh := h.fresh
  nodup := h.nodup
  placed := fun b t ht => h.placed b t (mem_of_mem_filter ht)
  single := fun b => (h.single b).sublist (filter_sublist.map _)
  callback := by
    intro tc htc ho
    by_cases hne : tc.tcTid = tid
    · rw [hne,owned_without_self] at ho
      exact absurd rfl ho
    rw [owned_without_other hne] at ho
    exact h.callback tc htc ho

lemma timeoutCleanup_eq (h : s.Wf) (hcur : s.curTc = some c) :
    s.timeoutCleanup = some (s.owned c.tcTid,s.without c.tcTid) := by
  have hfind := find_toList (h.single (hash c.tcTid)) c.tcTid
  unfold Threads.timeoutCleanup
  rw [hcur]
  simp only [bind,Option.bind]
  cases hf : (s.threads (hash c.tcTid)).find? (·.tid = c.tcTid) with
  | none =>
    have ho : s.owned c.tcTid = [] := by
      rw [owned,← hfind,hf]
      rfl
    simp only [ho,h.without_of_owned_nil ho]
    rfl
  | some t =>
    have ho : s.owned c.tcTid = [t] := by
      rw [owned,← hfind,hf]
      rfl
    have hrest : update s.threads (hash c.tcTid)
        ((s.threads (hash c.tcTid)).eraseP (·.tid = c.tcTid)) =
        fun b => (s.threads b).filter (·.tid ≠ c.tcTid) := by
      funext b
      by_cases hb : b = hash c.tcTid
      · subst hb
        rw [update_self,eraseP_eq_filter (h.single _)]
      rw [update_of_ne hb]
      refine (filter_eq_self.mpr fun u hu => ?_).symm
      have hne : u.tid ≠ c.tcTid := by
        intro heq
        exact hb (by rw [← heq]; exact (h.placed b u hu).1.symm)
      simpa using hne
    simp only [ho,hrest,without,hcur]
    rfl

lemma cleanLoop_nil (h : s.Wf) (hcur : s.curTc = some c) (ho : s.owned c.tcTid = []) (n : Nat) :
    cleanLoop n s = some ([],s) := by
  induction n with
  | zero => rfl
  | succ n ih =>
    rw [cleanLoop,timeoutCleanup_eq h hcur,ho,h.without_of_owned_nil ho]
    simp [ih]

lemma cleanLoop_eq (h : s.Wf) (hcur : s.curTc = some c) (n : Nat) :
    cleanLoop (n+1) s = some (s.owned c.tcTid,s.without c.tcTid) := by
  rw [cleanLoop,timeoutCleanup_eq h hcur]
  simp [cleanLoop_nil (h.without c.tcTid) (c := c) hcur owned_without_self]

end clean

section runs

variable {s s' : Threads}

lemma Threads.Wf.move (h : s.Wf) (hmax : s'.maxTid = s.maxTid) (hthr : s'.threads = s.threads)
    {l : List ThreadContext} (hsub : l.Sublist s.contexts) (hperm : s'.contexts.Perm l) : s'.Wf := by
  have hmem : ∀ tc ∈ s'.contexts, tc ∈ s.contexts := fun tc htc => hsub.subset (hperm.mem_iff.mp htc)
  have howned : ∀ tid, s'.owned tid = s.owned tid := fun tid => by rw [owned,hthr]; rfl
  refine ⟨hmax ▸ h.room,?_,?_,?_,?_,?_⟩
  · exact fun tc htc => hmax ▸ h.fresh tc (hmem tc htc)
  · exact (hperm.map _).nodup_iff.mpr (h.nodup.sublist (hsub.map _))
  · rw [hthr,hmax]
    exact h.placed
  · rw [hthr]
    exact h.single
  exact fun tc htc ho => h.callback tc (hmem tc htc) (howned _ ▸ ho)

lemma Threads.Wf.bump (h : s.Wf) (hroom : s.maxTid+1 ≠ allOnes 32) :
    ({s with maxTid := s.maxTid+1} : Threads).Wf ∧ s.maxTid < s.maxTid+1 := by
  have hnext : (s.maxTid+1).toNat = s.maxTid.toNat+1 := by
    have hne : s.maxTid.toNat ≠ 4294967295 := fun heq => h.room (eq_of_toNat_eq (by rw [heq]; rfl))
    have := s.maxTid.isLt
    rw [toNat_add,show (1 : Word).toNat = 1 from rfl]
    omega
  have hlt : ∀ w : Word, w < s.maxTid → w < s.maxTid+1 := by
    intro w hw
    rw [lt_def] at hw ⊢
    omega
  refine ⟨⟨hroom,fun tc htc => hlt _ (h.fresh tc htc),h.nodup,
    fun b t ht => ⟨(h.placed b t ht).1,hlt _ (h.placed b t ht).2⟩,h.single,h.callback⟩,?_⟩
  rw [lt_def]
  omega

lemma Threads.Wf.create (h : s.Wf) {tc stack : Bool} (hs : s.threadCreate tc stack = some s') :
    s'.Wf := by
  unfold threadCreate at hs
  simp only at hs
  split at hs
  · cases hs
    exact h
  split at hs
  · cases hs
  rename_i hroom
  obtain ⟨hb,hlt⟩ := h.bump hroom
  split at hs
  · cases hs
    exact hb
  cases hs
  have hperm : ({s with maxTid := s.maxTid+1, threadQueue := s.threadQueue++[{tcTid := s.maxTid}]} :
      Threads).contexts.Perm ({tcTid := s.maxTid} :: s.contexts) := by
    simp only [contexts,List.append_assoc]
    exact ((perm_append_comm_assoc _ _ _).append_left _).trans perm_middle
  -- every id in use is below the new one
  have hnew : s.maxTid ∉ s.contexts.map ThreadContext.tcTid := by
    intro hmem
    obtain ⟨tc,htc,heq⟩ := List.mem_map.mp hmem
    have := h.fresh tc htc
    rw [heq] at this
    exact absurd this (BitVec.lt_irrefl _)
  have hnone : s.owned s.maxTid = [] := by
    refine eq_nil_iff_forall_not_mem.mpr fun t ht => ?_
    obtain ⟨ht,htid⟩ := mem_owned.mp ht
    have := (h.placed _ t ht).2
    rw [htid] at this
    exact absurd this (BitVec.lt_irrefl _)
  refine ⟨hb.room,fun tc htc => ?_,?_,hb.placed,hb.single,fun tc htc ho => ?_⟩
  · rcases mem_cons.mp (hperm.mem_iff.mp htc) with rfl | htc
    · exact hlt
    exact hb.fresh tc htc
  · exact (hperm.map _).nodup_iff.mpr (nodup_cons.mpr ⟨hnew,h.nodup⟩)
  rcases mem_cons.mp (hperm.mem_iff.mp htc) with rfl | htc
  · exact absurd hnone ho
  exact h.callback tc htc ho

lemma Threads.Wf.timeouts (h : s.Wf) {mem : Option Word} (hs : s.sysArchTimeouts mem = some s') :
    s'.Wf := by
  obtain ⟨c,hcur,hs⟩ := of_bind hs
  have hfind := find_toList (h.single (hash c.tcTid)) c.tcTid
  simp only at hs
  cases hf : (s.threads (hash c.tcTid)).find? (·.tid = c.tcTid) with
  | some t =>
    simp only [hf] at hs
    cases hs
    exact h
  | none =>
    simp only [hf] at hs
    obtain ⟨a,_,hs⟩ := of_bind hs
    split at hs
    · cases hs
    cases hs
    have hnone : s.owned c.tcTid = [] := by
      rw [owned,← hfind,hf]
      rfl
    have hctx : s.contexts = c :: (s.threadQueue++s.killQueue) := by simp [contexts,hcur]
    have hnd := h.nodup
    rw [hctx,map_cons] at hnd
    have hother : ∀ tc ∈ s.threadQueue++s.killQueue, tc.tcTid ≠ c.tcTid := fun tc htc heq =>
      (nodup_cons.mp hnd).1 (heq ▸ List.mem_map_of_mem htc)
    have howned : ∀ tid, tid ≠ c.tcTid →
        (update s.threads (hash c.tcTid) (⟨c.tcTid,a⟩ :: s.threads (hash c.tcTid))
          (hash tid)).filter (·.tid = tid) = s.owned tid := by
      intro tid hne
      by_cases hb : hash tid = hash c.tcTid
      · rw [hb,update_self,filter_cons_of_neg (by simpa using Ne.symm hne),← hb]
        rfl
      rw [update_of_ne hb]
      rfl
    refine ⟨h.room,?_,?_,?_,?_,?_⟩
    · intro tc htc
      rcases mem_cons.mp htc with rfl | htc
      · exact h.fresh c (by simp [hctx])
      exact h.fresh tc (by rw [hctx]; exact mem_cons_of_mem _ htc)
    · simpa [contexts] using hnd
    · intro b t ht
      change t ∈ update s.threads (hash c.tcTid) (⟨c.tcTid,a⟩ :: s.threads (hash c.tcTid)) b at ht
      by_cases hb : b = hash c.tcTid
      · subst hb
        rw [update_self] at ht
        rcases mem_cons.mp ht with rfl | ht
        · exact ⟨rfl,h.fresh c (by simp [hctx])⟩
        exact h.placed _ t ht
      rw [update_of_ne hb] at ht
      exact h.placed b t ht
    · intro b
      change ((update s.threads (hash c.tcTid) (⟨c.tcTid,a⟩ :: s.threads (hash c.tcTid)) b).map
        SysThread.tid).Nodup
      by_cases hb : b = hash c.tcTid
      · subst hb
        rw [update_self,map_cons]
        refine nodup_cons.mpr ⟨fun hmem => ?_,h.single _⟩
        obtain ⟨t,ht,heq⟩ := List.mem_map.mp hmem
        have : t ∈ s.owned c.tcTid := mem_owned.mpr ⟨ht,heq⟩
        rw [hnone] at this
        cases this
      rw [update_of_ne hb]
      exact h.single b
    intro tc htc ho
    rcases mem_cons.mp htc with rfl | htc
    · exact Nat.succ_pos _
    refine h.callback tc (by rw [hctx]; exact mem_cons_of_mem _ htc) ?_
    rw [← howned _ (hother tc htc)]
    exact ho

lemma Threads.Wf.yield (h : s.Wf) : s.threadYield.Wf := by
  unfold threadYield
  split
  · exact h
  rename_i next q hq
  refine h.move rfl rfl (.refl _) ?_
  simp only [contexts,hq,toList_some]
  refine .append_right _ ?_
  rw [← List.append_assoc]
  exact perm_append_comm

lemma Threads.Wf.cleaned (h : s.Wf) {c : ThreadContext} (hcur : s.curTc = some c) {n : Nat} {f
    : List SysThread} (hs : cleanLoop n s = some (f,s')) :
    s'.Wf ∧ s'.curTc = some c ∧ s'.threadQueue = s.threadQueue := by
  cases n with
  | zero =>
    cases hs
    exact ⟨h,hcur,rfl⟩
  | succ n =>
    rw [cleanLoop_eq h hcur] at hs
    cases hs
    exact ⟨h.without _,hcur,rfl⟩

lemma Threads.Wf.aside (h : s.Wf) {c : ThreadContext} (hcur : s.curTc = some c) :
    ({s with killQueue := s.killQueue++[c], curTc := none} : Threads).Wf := by
  refine h.move rfl rfl (.refl _) ?_
  have hctx : s.contexts = c :: (s.threadQueue++s.killQueue) := by simp [contexts,hcur]
  rw [hctx,contexts,toList_none,nil_append,← List.append_assoc]
  exact perm_append_singleton c _

lemma Threads.Wf.popDead (h : s.Wf) {d : ThreadContext} {q : List ThreadContext}
    (hk : s.killQueue = d :: q) : ({s with killQueue := q} : Threads).Wf := by
  refine h.move rfl rfl ?_ (.refl _)
  simp only [contexts,hk]
  exact (sublist_cons_self d q).append_left _

lemma Threads.Wf.halts (h : s.Wf) (hs : s.threadHalt = some s') :
    ∃ t : Threads, t.Wf ∧ t.threadQueue = s.threadQueue ∧ s' = t.threadYield := by
  obtain ⟨c,hcur,hs⟩ := of_bind hs
  obtain ⟨⟨f,s1⟩,h1,hs⟩ := of_bind hs
  have hs1 : s1.Wf ∧ s1.curTc = some c ∧ s1.threadQueue = s.threadQueue := by
    unfold cleanDead at h1
    cases hk : s.killQueue with
    | nil =>
      simp only [hk] at h1
      cases h1
      exact ⟨h,hcur,rfl⟩
    | cons d q =>
      simp only [hk] at h1
      exact (h.popDead hk).cleaned hcur h1
  simp only at hs
  split at hs
  · cases hs
  cases hs
  exact ⟨_,hs1.1.aside hs1.2.1,hs1.2.2,rfl⟩

lemma Threads.Reached.wf (h : s.Reached) : s.Wf := by
  induction h with
  | init =>
    refine ⟨by decide,?_,?_,?_,?_,?_⟩ <;> simp [contexts]
  | @exec s s' a _ hs ih =>
    cases a with
    | create tc stack => exact ih.create hs
    | timeouts mem => exact ih.timeouts hs
    | yield =>
      cases hs
      exact ih.yield
    | halt =>
      obtain ⟨t,ht,_,rfl⟩ := ih.halts hs
      exact ht.yield

/-- Cleaning `d` on the stack of `c` is exact when `d` never asked for its timeouts, or neither
has a record. -/
theorem clean_exact {c d : ThreadContext} {q : List ThreadContext} (h : s.Reached)
    (hcur : s.curTc = some c) (hkill : s.killQueue = d :: q) :
    s.CleanExact d ↔ d.tcNonhalt = 0 ∨ s.owned d.tcTid = [] ∧ s.owned c.tcTid = [] := by
  have hwf := h.wf
  have hd : d ∈ s.contexts := by simp [Threads.contexts,hkill]
  have hne : c.tcTid ≠ d.tcTid := by
    have hnd := hwf.nodup
    simp only [Threads.contexts,hcur,hkill] at hnd
    intro heq
    simp [heq] at hnd
  have hwf1 : ({s with killQueue := q} : Threads).Wf := hwf.popDead hkill
  have howned : ∀ tid, ({s with killQueue := q} : Threads).owned tid = s.owned tid := fun _ => rfl
  have hnil : ∀ tid, s.owned tid = [] →
      ({s with killQueue := q} : Threads).without tid = {s with killQueue := q} :=
    fun tid ho => hwf1.without_of_owned_nil ho
  have hclean : s.CleanExact d ↔ Threads.cleanLoop d.tcNonhalt {s with killQueue := q} =
      some (s.owned d.tcTid,({s with killQueue := q} : Threads).without d.tcTid) := by
    unfold Threads.CleanExact Threads.cleanDead Threads.threadClean
    simp only [hkill]
    rfl
  rw [hclean]
  cases hn : d.tcNonhalt with
  | zero =>
    have ho : s.owned d.tcTid = [] := by
      by_contra hc
      have := hwf.callback d hd hc
      omega
    simp [Threads.cleanLoop,ho,hnil]
  | succ n =>
    rw [cleanLoop_eq hwf1 hcur,howned]
    constructor
    · intro heq
      right
      have hown : s.owned c.tcTid = s.owned d.tcTid := (some_pair_inj heq).1
      have hdn : s.owned d.tcTid = [] := by
        refine eq_nil_iff_forall_not_mem.mpr fun t ht => hne ?_
        have htc : t ∈ s.owned c.tcTid := hown ▸ ht
        exact (mem_owned.mp htc).2.symm.trans (mem_owned.mp ht).2
      exact ⟨hdn,hown.trans hdn⟩
    rintro (h0 | ⟨hdn,hcn⟩)
    · omega
    · rw [hdn,hcn,hnil _ hdn,hnil _ hcn]

end runs

def Threads.execAll : List ThreadAct → Threads → Option Threads
  | [],s => some s
  | a :: l,s => do
    let s ← s.exec a
    execAll l s

lemma Threads.Reached.execAll {s' : Threads} (l : List ThreadAct) :
    ∀ {s : Threads}, s.Reached → Threads.execAll l s = some s' → s'.Reached := by
  induction l with
  | nil =>
    intro s h hs
    cases hs
    exact h
  | cons a l ih =>
    intro s h hs
    obtain ⟨t,ht,hs⟩ := of_bind hs
    exact ih (h.exec ht) hs

section turns

variable {s s' : Threads}

def ThreadAct.switches : ThreadAct → Bool
  | .yield | .halt => true
  | _ => false

lemma Threads.Wf.exec_queue {a : ThreadAct} {d : ThreadContext} {q : List ThreadContext} (h : s.Wf)
    (hq : s.threadQueue = d :: q) (hs : s.exec a = some s') :
    if a.switches then s'.curTc = some d ∧ ∃ r, s'.threadQueue = q++r
    else ∃ r, s'.threadQueue = d :: q++r := by
  cases a with
  | create tc stack =>
    simp only [Threads.exec,threadCreate] at hs
    split_ifs at hs <;> cases hs <;> simp [ThreadAct.switches,hq]
  | timeouts mem =>
    obtain ⟨c,_,hs⟩ := of_bind hs
    simp only at hs
    split at hs
    · cases hs
      simp [ThreadAct.switches,hq]
    obtain ⟨_,_,hs⟩ := of_bind hs
    split at hs <;> cases hs
    simp [ThreadAct.switches,hq]
  | yield =>
    cases hs
    simp [ThreadAct.switches,threadYield,hq]
  | halt =>
    obtain ⟨t,_,ht,rfl⟩ := h.halts hs
    simp [ThreadAct.switches,threadYield,ht,hq]

/-- A thread waits for as many switches as threads are ahead of it, whatever is called in between,
and the next switch is to it. -/
theorem threads_take_turns {l : List ThreadAct} {tc : ThreadContext} {ahead behind :
    List ThreadContext} (h : s.Reached) (hq : s.threadQueue = ahead++tc :: behind)
    (hs : Threads.execAll l s = some s') (hn : l.countP (·.switches) ≤ ahead.length) :
    (∃ r, s'.threadQueue = ahead.drop (l.countP (·.switches))++tc :: r) ∧
    (l.countP (·.switches) = ahead.length →
      ∀ a s'', a.switches → s'.exec a = some s'' → s''.curTc = some tc) := by
  have hwait : ∃ r, s'.threadQueue = ahead.drop (l.countP (·.switches))++tc :: r := by
    induction l generalizing s ahead behind with
    | nil =>
      cases hs
      exact ⟨behind,hq⟩
    | cons a l ih =>
      obtain ⟨s1,h1,hs⟩ := of_bind hs
      cases ha : a.switches with
      | false =>
        rw [countP_cons_of_neg (by simp [ha])] at hn ⊢
        have hq1 : ∃ r, s1.threadQueue = ahead++tc :: (behind++r) := by
          cases ahead <;> simpa [ha] using h.wf.exec_queue hq h1
        exact ih (h.exec h1) hq1.choose_spec hs hn
      | true =>
        rw [countP_cons_of_pos ha] at hn ⊢
        obtain ⟨d,ahead,rfl⟩ := exists_cons_of_length_pos (Nat.zero_lt_of_lt hn)
        have hq1 : ∃ r, s1.threadQueue = ahead++tc :: (behind++r) := by
          have hnext := h.wf.exec_queue hq h1
          rw [if_pos ha] at hnext
          simpa using hnext.2
        exact ih (h.exec h1) hq1.choose_spec hs (Nat.le_of_succ_le_succ hn)
  refine ⟨hwait,fun heq a s'' ha hs'' => ?_⟩
  obtain ⟨r,hr⟩ := hwait
  rw [heq,drop_length,nil_append] at hr
  have hnext := (h.execAll _ hs).wf.exec_queue hr hs''
  rw [if_pos ha] at hnext
  exact hnext.1

end turns

theorem threads_take_turns_third : ∃ s s' s'' : Threads, s.threadQueue = [⟨0,0⟩,⟨1,0⟩,⟨2,0⟩] ∧
    Threads.execAll [.yield,.create true true,.halt] s = some s' ∧ s'.exec .yield = some s'' ∧
    s''.curTc = some ⟨2,0⟩ := by
  have hr : Threads.Reached _ :=
    .execAll [.create true true,.create true true,.create true true] .init rfl
  refine ⟨⟨3,none,[⟨0,0⟩,⟨1,0⟩,⟨2,0⟩],[],fun _ => []⟩,_,_,rfl,rfl,rfl,?_⟩
  exact (@threads_take_turns _ _ [.yield,.create true true,.halt] _ [⟨0,0⟩,⟨1,0⟩] [] hr rfl rfl
    (by decide)).2 rfl .yield _ rfl rfl

theorem clean_exact_plain : ∃ s : Threads, s.Reached ∧ s.killQueue = [⟨0,0⟩] ∧
    s.owned 1 = [⟨1,0x1000⟩] ∧ s.CleanExact ⟨0,0⟩ := by
  have hrun : (Threads.execAll [.create true true,.create true true,.yield,.halt,
      .timeouts (some 0x1000)] {}).map (fun s =>
      decide (s.curTc = some ⟨1,1⟩ ∧ s.killQueue = [⟨0,0⟩] ∧ s.owned 1 = [⟨1,0x1000⟩])) =
      some true := by decide
  obtain ⟨s,hs,hcur,hkill,hown⟩ := of_map_decide hrun
  have hr := Threads.Reached.init.execAll _ hs
  exact ⟨s,hr,hkill,hown,(clean_exact hr hcur hkill).mpr (.inl rfl)⟩

/-- When the second thread halts, cleaning the first frees the record of the second. -/
theorem clean_wrong : ∃ s : Threads, s.Reached ∧ s.curTc = some ⟨1,1⟩ ∧ s.killQueue = [⟨0,1⟩] ∧
    s.owned 0 = [⟨0,0x1000⟩] ∧ (s.cleanDead.map fun p => (p.1,p.2.owned 0,p.2.owned 1)) =
    some ([⟨1,0x1020⟩],[⟨0,0x1000⟩],[]) ∧ ¬s.CleanExact ⟨0,1⟩ := by
  have hrun : (Threads.execAll [.create true true,.create true true,.yield,.timeouts (some 0x1000),
      .halt,.timeouts (some 0x1020)] {}).map (fun s =>
      decide (s.curTc = some ⟨1,1⟩ ∧ s.killQueue = [⟨0,1⟩] ∧ s.owned 0 = [⟨0,0x1000⟩] ∧
        (s.cleanDead.map fun p => (p.1,p.2.owned 0,p.2.owned 1)) =
          some ([⟨1,0x1020⟩],[⟨0,0x1000⟩],[]))) = some true := by decide
  obtain ⟨s,hs,hcur,hkill,hown,hclean⟩ := of_map_decide hrun
  refine ⟨s,Threads.Reached.init.execAll _ hs,hcur,hkill,hown,hclean,fun hx => ?_⟩
  rw [hx,map_some] at hclean
  have hfreed : s.owned 0 = [⟨1,0x1020⟩] := (some_pair_inj hclean).1
  rw [hown] at hfreed
  exact absurd hfreed (by decide)

end Lwip
end KludgeOS
