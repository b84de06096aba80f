import KludgeOS.EventFrame

/-!
The functions of `kern/env.c` and `kern/sched.c` as sequences of events.
-/

namespace KludgeOS
open Ledger Traces Function Kern Mem BitVec
open Event (Ok apply)

def Does (P : Event → Prop) (s s' : Kern) : Prop := ∃ l, Performs s l s' ∧ ∀ a ∈ l, P a

namespace Does

variable {P Q : Event → Prop} {s s' s'' : Kern}

lemma refl : Does P s s := ⟨[],.nil,by simp⟩

lemma one {a : Event} (hok : a.Ok s) (hP : P a) : Does P s (a.apply s) :=
  ⟨[a],.single hok,by simpa using hP⟩

lemma trans (h : Does P s s') (h' : Does P s' s'') : Does P s s'' := by
  obtain ⟨l,hl,hP⟩ := h
  obtain ⟨m,hm,hP'⟩ := h'
  refine ⟨l++m,hl.append hm,fun a ha => ?_⟩
  obtain ha | ha := List.mem_append.mp ha
  · exact hP a ha
  exact hP' a ha

lemma mono (h : Does P s s') (hPQ : ∀ a, P a → Q a) : Does Q s s' := by
  obtain ⟨l,hl,hP⟩ := h
  exact ⟨l,hl,fun a ha => hPQ a (hP a ha)⟩

lemma invariant {I : Kern → Prop} (h : Does P s s')
    (hstep : ∀ s a, I s → a.Ok s → P a → I (a.apply s)) (hs : I s) : I s' := by
  obtain ⟨l,hl,hP⟩ := h
  exact hl.invariant hstep hP hs

lemma inv {K : Finset Nat} (h : Does P s s') (hs : Inv K NoHand s) : Inv K NoHand s' := by
  obtain ⟨l,hl,_⟩ := h
  exact hs.performs hl

end Does

def Event.Frees (e : Nat) : Event → Prop
  | .unmap e' _ | .dropTable e' _ | .reap e' => e' = e
  | _ => False

lemma Does.frees_other {e e' : Nat} {s s' : Kern} (h : Does (Event.Frees e) s s')
    (hne : e' ≠ e) : s'.envs e' = s.envs e' := by
  refine h.invariant (I := fun t => t.envs e' = s.envs e') (fun t a ht hok ha => ?_) rfl
  cases a with
  | unmap e1 n => exact ht
  | dropTable e1 d => exact ht
  | reap e1 =>
    obtain rfl : e1 = e := ha
    exact (reap_other hne).trans ht
  | _ => exact ha.elim

lemma Does.frees_sched {e : Nat} {s s' : Kern} (h : Does (Event.Frees e) s s') :
    s'.curenv = s.curenv := by
  refine h.invariant (I := fun t => t.curenv = s.curenv) (fun t a ht hok ha => ?_) rfl
  cases a with
  | unmap e1 n => exact ht
  | dropTable e1 d => exact ht
  | reap e1 => exact ht
  | _ => exact ha.elim

lemma PGADDR_toNat {d t : Nat} (hd : d < 1024) (ht : t < 1024) :
    (PGADDR d t).toNat = 4194304*d+4096*t := by
  have h1 : (BitVec.ofNat 32 d <<< 22).toNat = 2^22*d := by
    simp [toNat_shiftLeft,Nat.shiftLeft_eq]
    omega
  have h2 : (BitVec.ofNat 32 t <<< 12).toNat = 4096*t := by
    simp [toNat_shiftLeft,Nat.shiftLeft_eq]
    omega
  have h3 := Nat.two_pow_add_eq_or_of_lt (i := 22) (b := 4096*t) (by omega) d
  rw [PGADDR,toNat_or,h1,h2,← h3]

lemma PPN_PGADDR {d t : Nat} (hd : d < 1024) (ht : t < 1024) : PPN (PGADDR d t) = 1024*d+t := by
  rw [PPN_eq,PGADDR_toNat hd ht]
  omega

lemma PGADDR_lt_UTOP {d t : Nat} (hd : d < NUPDE) (ht : t < 1024) : PGADDR d t < UTOP := by
  have hN : NUPDE = 955 := rfl
  have h : (PGADDR d t).toNat < UTOP.toNat := by
    rw [PGADDR_toNat (by omega) ht,show UTOP.toNat = 4005560320 from rfl]
    omega
  exact h

section free

variable {K : Finset Nat} {e d : Nat}

/-- What is known after some of the entries of table `pt` were removed. -/
structure FreedPtes (s s' : Kern) (e pt : Nat) (gone : Nat → Prop) : Prop where
  does : Does (Event.Frees e) s s'
  envs : s'.envs = s.envs
  pde : ∀ d, s'.pde e d = s.pde e d
  gone : ∀ t, gone t ∨ ¬Present (s.mem pt t) → ¬Present (s'.mem pt t)

lemma freePtes_spec (hd : d < NUPDE) (n : Nat) : ∀ (t : Nat) (s : Kern), Inv K NoHand s →
    s.Live e → Present (s.pde e d) → t+n ≤ NPTENTRIES → ∃ s', freePtes (s.pgdir e) (PPN (s.pde e d))
    d n t s = some s' ∧ FreedPtes s s' e (PPN (s.pde e d)) fun i => t ≤ i ∧ i < t+n := by
  induction n with
  | zero =>
    intro t s h he hp ht
    exact ⟨s,rfl,.refl,rfl,fun _ => rfl,fun i hi => hi.resolve_left (by omega)⟩
  | succ n ih =>
    intro t s h he hp ht
    have hN : NPTENTRIES = 1024 := rfl
    have ht' : t < 1024 := by omega
    have hd' : d < 1024 := lt_trans hd (by decide)
    have hn : 1024*d+t < NUPAGE := by
      have : NUPAGE = NUPDE*1024 := rfl
      omega
    have hq : (1024*d+t)/1024 = d := by omega
    have hr : (1024*d+t)%1024 = t := by omega
    by_cases hw : Present (s.mem (PPN (s.pde e d)) t)
    · have hpte : s.pte e (1024*d+t) = some (s.mem (PPN (s.pde e d)) t) := by
        rw [pte_of_present (by rw [hq]; exact hp),hq,hr,if_pos hw]
      have hok : Ok s (.unmap e (1024*d+t)) := ⟨he,hn,by rw [hpte]; simp⟩
      have hrem := pageRemove_eq h he (PGADDR_lt_UTOP hd ht')
      rw [PPN_PGADDR hd' ht',hpte,if_neg (by simp)] at hrem
      have h1 := h.event hok
      have hpde : ∀ d', (s.assignPte e (1024*d+t) 0).pde e d' = s.pde e d' :=
        fun d' => pde_assignPte h he hn (by rw [hq]; exact hp) 0 he d'
      obtain ⟨s',hs',hf⟩ := ih (t+1) (s.assignPte e (1024*d+t) 0) h1 he
        (by rw [hpde]; exact hp) (by omega)
      rw [hpde] at hs' hf
      refine ⟨s',?_,(Does.one (P := Event.Frees e) hok rfl).trans hf.does,hf.envs,fun d' => (hf.pde d').trans (hpde d'),?_⟩
      · simp only [freePtes,if_pos hw,hrem,bind,Option.bind]
        exact hs'
      intro i hi
      have hmem : (s.assignPte e (1024*d+t) 0).mem = s.mem.set (PPN (s.pde e d)) t 0 := by
        change s.mem.set (PPN (s.pde e ((1024*d+t)/1024))) ((1024*d+t)%1024) 0 = _
        rw [hq,hr]
      by_cases hit : i = t
      · subst hit
        refine hf.gone i (.inr ?_)
        rw [hmem,set_self]
        decide
      obtain hi | hi := hi
      · exact hf.gone i (.inl (by omega))
      refine hf.gone i (.inr ?_)
      rw [hmem,set_index _ _ _ _ hit]
      exact hi
    obtain ⟨s',hs',hf⟩ := ih (t+1) s h he hp (by omega)
    refine ⟨s',?_,hf.does,hf.envs,hf.pde,?_⟩
    · simp only [freePtes,if_neg hw,bind,Option.bind]
      exact hs'
    intro i hi
    by_cases hit : i = t
    · subst hit
      exact hf.gone i (.inr hw)
    exact hf.gone i (hi.imp (fun hc => by omega) id)

lemma freePde_spec {s : Kern} (h : Inv K NoHand s) (he : s.Live e) (hd : d < NUPDE)
    (hp : Present (s.pde e d)) :
    ∃ s', freePde (s.pgdir e) d s = some s' ∧ Does (Event.Frees e) s s' ∧ s'.envs = s.envs ∧
      ∀ d', s'.pde e d' = if d' = d then 0 else s.pde e d' := by
  obtain ⟨s1,hs1,hf⟩ := freePtes_spec hd NPTENTRIES 0 s h he hp (by omega)
  have h1 := hf.does.inv h
  have hl1 : s1.Live e := by
    unfold Live
    rw [hf.envs]
    exact he
  have hdir : s1.pgdir e = s.pgdir e := by rw [pgdir,hf.envs]
  have hp1 : Present (s1.pde e d) := by rw [hf.pde]; exact hp
  have hz : ∀ t < NPTENTRIES, ¬Present (s1.mem (PPN (s1.pde e d)) t) := by
    intro t ht
    rw [hf.pde]
    exact hf.gone t (.inl ⟨by omega,by omega⟩)
  have hok : Ok s1 (.dropTable e d) := ⟨hl1,hd,hp1,hz⟩
  have hman := h.table_held he hd hp
  have hman1 := h1.table_held hl1 hd hp1
  rw [hf.pde] at hman1
  have hpa : s.pa2page (PTE_ADDR (s.mem (s.pgdir e) d)) = some (PPN (s.pde e d)) := by
    rw [pa2page_of_lt (by rw [PPN_PTE_ADDR]; exact hman.1),PPN_PTE_ADDR]
  have hpa1 : (s1.setWord (s1.pgdir e) d 0).pa2page (PTE_ADDR (s.mem (s.pgdir e) d)) =
      some (PPN (s.pde e d)) := by
    rw [pa2page_of_lt (by rw [PPN_PTE_ADDR]; exact hman1.1),PPN_PTE_ADDR]
  have href : 0 < (s1.setWord (s1.pgdir e) d 0).ppRef (PPN (s.pde e d)) := by
    change 0 < s1.ppRef (PPN (s.pde e d))
    rw [h1.balanced.count _ hman1]
    refine refs_pos (x := .pde e d) (pde_mem_slots.mpr ⟨hl1.1,hd⟩) ?_
    rw [holds_pde hl1 hp1,hf.pde]
  refine ⟨s1.dropTable e d,?_,hf.does.trans (Does.one hok rfl),hf.envs,fun d' => ?_⟩
  · rw [hdir] at hpa1 href
    simp only [freePde,hpa,hs1,bind,Option.bind,hpa1,pageDecref_eq href]
    rw [dropTable,hf.pde,hdir]
    rfl
  have hw := setPde_dir (d := d) h1 hl1 s1.mem 0 hl1 d'
  change s1.mem.set (s1.pgdir e) d 0 (s1.pgdir e) d' = _
  rw [hw]
  by_cases hdd : d' = d
  · rw [if_pos ⟨rfl,hdd⟩,if_pos hdd]
  rw [if_neg fun hc => hdd hc.2,if_neg hdd]
  exact hf.pde d'

lemma freePdes_spec (n : Nat) : ∀ (d : Nat) (s : Kern), Inv K NoHand s → s.Live e → d+n ≤ NUPDE →
    ∃ s', freePdes (s.pgdir e) n d s = some s' ∧ Does (Event.Frees e) s s' ∧ s'.envs = s.envs ∧
    ∀ d', (d ≤ d' ∧ d' < d+n) ∨ ¬Present (s.pde e d') → ¬Present (s'.pde e d') := by
  induction n with
  | zero =>
    intro d s h he hd
    exact ⟨s,rfl,.refl,rfl,fun d' hd' => hd'.resolve_left (by omega)⟩
  | succ n ih =>
    intro d s h he hd
    by_cases hp : Present (s.mem (s.pgdir e) d)
    · obtain ⟨s1,hs1,hdoes,henvs,hpde⟩ := freePde_spec h he (by omega) hp
      have hl1 : s1.Live e := by
        unfold Live
        rw [henvs]
        exact he
      have hdir : s1.pgdir e = s.pgdir e := by rw [pgdir,henvs]
      obtain ⟨s',hs',hdoes',henvs',hgone⟩ := ih (d+1) s1 (hdoes.inv h) hl1 (by omega)
      rw [hdir] at hs'
      refine ⟨s',?_,hdoes.trans hdoes',henvs'.trans henvs,fun d' hd' => ?_⟩
      · rw [freePdes,if_pos hp,hs1]
        exact hs'
      by_cases hdd : d' = d
      · refine hgone d' (.inr ?_)
        rw [hpde,if_pos hdd]
        decide
      obtain hd' | hd' := hd'
      · exact hgone d' (.inl (by omega))
      refine hgone d' (.inr ?_)
      rw [hpde,if_neg hdd]
      exact hd'
    obtain ⟨s',hs',hdoes,henvs,hgone⟩ := ih (d+1) s h he (by omega)
    refine ⟨s',?_,hdoes,henvs,fun d' hd' => ?_⟩
    · rw [freePdes,if_neg hp]
      exact hs'
    by_cases hdd : d' = d
    · subst hdd
      exact hgone d' (.inr hp)
    exact hgone d' (hd'.imp (fun hc => by omega) id)

lemma envFree_eq {s s1 : Kern} (he : s.Live e) (hs1 : freePdes (s.envs e).envPgdir NUPDE 0 s =
    some s1) (h1 : Inv K NoHand s1) (hl1 : s1.Live e) : s.envFree e = some (s1.reap e) := by
  have hman := h1.dir_held hl1
  have hlt := hman.1.trans_le h1.npage_le
  have hcr3 := h1.table.cr3 e hl1
  have hst : (s.envs e).envStatus ≠ .free := he.2
  have href : 0 < s1.ppRef (s1.pgdir e) := by
    rw [h1.balanced.count _ hman]
    exact refs_pos (x := .dir e) (dir_mem_slots.mpr hl1.1) (holds_dir hl1)
  have hpa : (s1.modEnv e fun v => {v with envPgdir := 0, envCr3 := 0}).pa2page
      (page2pa (s1.pgdir e)) = some (s1.pgdir e) := by
    rw [pa2page_of_lt (by rw [PPN_page2pa hlt]; exact hman.1),PPN_page2pa hlt]
  have hdec := pageDecref_eq
    (s := s1.modEnv e fun v => {v with envPgdir := 0, envCr3 := 0}) href
  rw [envFree,if_neg hst]
  simp only [hs1,bind,Option.bind,hcr3,hpa,hdec]
  simp [reap,modEnv,setEnv,withPages]

lemma envFree_spec {s : Kern} (h : Inv K NoHand s) (he : s.Live e) :
    ∃ s', s.envFree e = some s' ∧ Does (Event.Frees e) s s' ∧ ¬s'.Live e := by
  obtain ⟨s1,hs1,hdoes,henvs,hgone⟩ := freePdes_spec NUPDE 0 s h he (by omega)
  have h1 := hdoes.inv h
  have hl1 : s1.Live e := by
    unfold Live
    rw [henvs]
    exact he
  have hok : Ok s1 (.reap e) :=
    ⟨hl1,fun d hd => hgone d (.inl ⟨by omega,by omega⟩)⟩
  exact ⟨s1.reap e,envFree_eq he hs1 h1 hl1,hdoes.trans (Does.one hok rfl),dead_reap⟩

lemma freePdes_none {s : Kern} {g : Nat} (n : Nat)
    : ∀ d, (∀ d', d ≤ d' → d' < d+n → ¬Present (s.mem g d')) → freePdes g n d s = some s := by
  induction n with
  | zero => exact fun _ _ => rfl
  | succ n ih =>
    intro d h
    have hd := ih (d+1) fun d' hle hlt => h d' (by omega) (by omega)
    simp only [freePdes,if_neg (h d le_rfl (by omega))]
    exact hd

lemma envFree_empty {s : Kern} (h : Inv K NoHand s) (he : s.Live e)
    (hz : ∀ d < NUPDE, ¬Present (s.pde e d)) : s.envFree e = some (s.reap e) :=
  envFree_eq he (freePdes_none NUPDE 0 fun d _ hd => hz d (by omega)) h he

end free

def Event.Plain : Event → Prop
  | .map _ _ _ _ => False
  | .fresh _ _ _ _ => False
  | .edit _ (.frame _) => False
  | _ => True

def Event.Stays : Event → Prop
  | .reap _ => False
  | .sched _ _ => False
  | _ => True

lemma Kern.modEnv_modEnv (s : Kern) (e : Nat) (f g : Env → Env) :
    (s.modEnv e f).modEnv e g = s.modEnv e fun v => g (f v) := by simp [modEnv,setEnv]

lemma Kern.modEnv_self (s : Kern) (e : Nat) (f : Env → Env) :
    (s.modEnv e f).envs e = f (s.envs e) := update_self _ _ _

lemma Kern.modEnv_other (s : Kern) {e e' : Nat} (f : Env → Env) (h : e' ≠ e) :
    (s.modEnv e f).envs e' = s.envs e' := update_of_ne h _ _

section sched

variable {s s' : Kern}

lemma schedScan_runnable {n pre e pre' : Nat} (h : s.schedScan n pre = (some e,pre')) :
    e < NENV ∧ (s.envs e).envStatus = .runnable := by
  induction n generalizing pre with
  | zero => simp [schedScan] at h
  | succ n ih =>
    simp only [schedScan] at h
    have hp : (if (pre+1)%NENV ≠ 0 then (pre+1)%NENV else 1) < NENV := by
      split
      · exact Nat.mod_lt _ (by decide)
      decide
    generalize (if (pre+1)%NENV ≠ 0 then (pre+1)%NENV else 1) = q at h hp
    by_cases hr : (s.envs q).envStatus = .runnable
    · rw [if_pos hr] at h
      obtain rfl : q = e := by simpa using congrArg Prod.fst h
      exact ⟨hp,hr⟩
    rw [if_neg hr] at h
    exact ih h

lemma schedYield_performs (h : s.schedYield = some s') : ∃ e pre, s.Live e ∧ (s.envs e).envStatus
    = .runnable ∧ Performs s [.sched (some e) pre,.edit e .ran,.edit e (.status .running)] s' := by
  have hrun : ∀ e pre, e < NENV → (s.envs e).envStatus = .runnable →
      Performs s [.sched (some e) pre,.edit e .ran,.edit e (.status .running)]
        ({s with pre := pre}.envRun e) := by
    intro e pre he hr
    have hl : s.Live e := ⟨he,by rw [hr]; simp⟩
    refine .cons trivial (.cons trivial (.cons (t := _) ⟨⟨he,?_⟩,by simp⟩ ?_))
    · simp only [apply,modEnv_self]
      exact hl.2
    simp only [apply,modEnv_modEnv]
    exact .nil
  unfold schedYield at h
  split at h
  · rename_i e pre hscan
    obtain ⟨he,hr⟩ := schedScan_runnable hscan
    cases h
    exact ⟨e,pre,⟨he,by rw [hr]; simp⟩,hr,hrun e pre he hr⟩
  split at h
  · rename_i pre _ hr
    cases h
    exact ⟨0,pre,⟨by decide,by rw [hr]; simp⟩,hr,hrun 0 pre (by decide) hr⟩
  cases h

lemma schedYield_does (h : s.schedYield = some s') : Does Event.Plain s s' := by
  obtain ⟨e,pre,_,_,hp⟩ := schedYield_performs h
  exact ⟨_,hp,by simp [Event.Plain]⟩

lemma schedYield_cur (h : s.schedYield = some s') : ∃ e, s'.curenv = some e ∧ s'.Live e := by
  obtain ⟨e,pre,hl,_,hp⟩ := schedYield_performs h
  rw [hp.result]
  refine ⟨e,rfl,hl.1,?_⟩
  simp [apply,modEnv_self,Edit.apply]

end sched

section alloc

variable {K : Finset Nat} {s : Kern}

lemma envAlloc_eq (h : Inv K NoHand s) (a : Word) : s.envAlloc a = some (
      match s.envFreeList with
      | [] => (.error (-E_NO_FREE_ENV),s)
      | e :: _ =>
        if s.pageFreeList = [] then (.error (-E_NO_MEM),s)
        else (.ok e,apply (.spawn a) s)) := by
  unfold envAlloc
  cases hl : s.envFreeList with
  | nil => rfl
  | cons e l =>
    cases hq : s.pageFreeList with
    | nil =>
      simp only [envSetupVm,pageAlloc,hq,bind,Option.bind]
      rfl
    | cons p q =>
      have hman := h.balanced.free_managed p (by simp [hq])
      have hlt := hman.1.trans_le h.npage_le
      have hpa : (incRef {s with pageFreeList := q} p).pa2page (page2pa p) = some p := by
        rw [pa2page_of_lt (by rw [PPN_page2pa hlt]; exact hman.1),PPN_page2pa hlt]
      simp only [envSetupVm,pageAlloc,hq,hpa,bind,Option.bind,pure,Int.lt_irrefl,
        if_false,modEnv_modEnv]
      simp [apply,hl,hq,spawn,modEnv,setEnv,incRef,fillFrame,newEnv,acquire]
      rfl

end alloc

section destroy

variable {K : Finset Nat} {s s' : Kern} {e : Nat}

lemma envDestroy_spec (h : Inv K NoHand s) (he : s.Live e) {r : Kern.Flow Unit}
    (hd : s.envDestroy e = some (r,s')) : (r = .ret () ∧ s.curenv ≠ some e ∧ Does (Event.Frees e)
    s s' ∧ ¬s'.Live e) ∨ (r = .switched ∧ s.curenv = some e ∧ ∃ s1, Does (Event.Frees e) s s1 ∧
    ¬s1.Live e ∧ ({s1 with curenv := none} : Kern).schedYield = some s') := by
  obtain ⟨s1,hs1,hdoes,hdead⟩ := envFree_spec h he
  have hcur := hdoes.frees_sched
  unfold envDestroy at hd
  simp only [hs1,bind,Option.bind] at hd
  split at hd
  · rename_i hc
    rw [hcur] at hc
    split at hd
    · cases hd
    rename_i s2 hs2
    cases hd
    exact .inr ⟨rfl,hc,s1,hdoes,hdead,hs2⟩
  rename_i hc
  rw [hcur] at hc
  cases hd
  exact .inl ⟨rfl,hc,hdoes,hdead⟩

end destroy

end KludgeOS
