import KludgeOS.EnvSpec

/-!
The system calls as sequences of events. The calls that a claim about their
effect needs in full are described path by path.
-/

namespace KludgeOS
open Ledger Traces List
open Kern (BadVa BadPerm)
open Event (popPage apply)
open BitVec Kern Option Event

section checks

variable {s : Kern} {c e : Nat} {envid : Word}

/-- `c` may manage the address space of `e`: its own or that of a child. -/
def Kern.Governs (s : Kern) (c e : Nat) : Prop := e = c ∨ (s.envs e).envParentId = (s.envs c).envId

lemma ENVX_lt (envid : Word) : ENVX envid < NENV := by
  have h : ENVX envid = envid.toNat%1024 := by
    rw [ENVX,toNat_and,show (1023 : Word).toNat = 2^10-1 from rfl, Nat.and_two_pow_sub_one_eq_mod]
  rw [h]
  exact Nat.mod_lt _ (by decide)

lemma envid2env_live {k : Bool} (hc : s.Live c) (h : s.envid2env c envid k = some e) :
    s.Live e := by
  unfold envid2env at h
  split at h
  · cases h
    exact hc
  simp only at h
  split at h
  · cases h
  rename_i hf
  split at h
  · cases h
  cases h
  exact ⟨ENVX_lt envid,fun hc => hf (.inl hc)⟩

lemma envid2env_governs (h : s.envid2env c envid true = some e) : s.Governs c e := by
  unfold envid2env at h
  split at h
  · exact .inl (some.inj h).symm
  simp only at h
  split at h
  · cases h
  split at h
  · cases h
  rename_i hp
  cases h
  by_cases hee : ENVX envid = c
  · exact .inl hee
  exact .inr (Decidable.not_not.mp fun hne => hp ⟨trivial,hee,hne⟩)

lemma lowBits_of_user {perm : Word} (h : perm&&&~~~PTE_USER = 0) : LowBits perm := by
  have heq : perm = perm&&&PTE_USER := by
    ext i hi
    have hb := congrArg (fun w : Word => w.getLsbD i) h
    simp only [getLsbD_and,getLsbD_not,hi,decide_true,Bool.true_and] at hb
    simp only [getElem_and]
    rw [getLsbD_eq_getElem hi,getLsbD_eq_getElem hi] at hb
    cases hx : perm[i] <;> simp_all
  rw [LowBits,heq,toNat_and]
  exact lt_of_le_of_lt Nat.and_le_right (by decide)

lemma lt_of_not_badVa {va : Word} (h : ¬BadVa va) : va < UTOP :=
  BitVec.not_le.mp fun hc => h (.inl hc)

lemma flag_of_and {x m b : Word} (h : x&&&m = m) (hb : m&&&b = b) : x&&&b = b := by
  rw [← hb,← BitVec.and_assoc,h]

end checks

section pages

variable {K : Finset Nat} {s s' : Kern} {c : Nat} {r : Int} {va perm : Word}

lemma pageInsert_fresh (h : Inv K NoHand s) {e p : Nat} {q : List Nat} (he : s.Live e) (hva : va <
    UTOP) (hperm : LowBits perm) (hq : s.pageFreeList = p :: q) (zero : Bool) (hs : (popPage s zero
    p).pageInsert (s.pgdir e) p va perm = some (r,s')) : (r = -E_NO_MEM ∧ s' = popPage s zero p) ∨
    (r = 0 ∧ Ok s (.fresh e (PPN va) zero perm) ∧ s' = apply (.fresh e (PPN va) zero perm) s) := by
  have hman := h.balanced.free_managed p (by simp [hq])
  have hplt := hman.1.trans_le h.npage_le
  have hl1 : (popPage s zero p).Live e := he
  have hins : (popPage s zero p).pageInsert (s.pgdir e) p va perm = _ :=
    pageInsert_eq (h.popPage hq zero) hl1 hva hplt hperm
  rw [hins] at hs
  by_cases hpres : Present (((popPage s zero p).withTable e (PDX va)).pde e (PDX va))
  · rw [if_pos hpres] at hs
    cases hs
    refine .inr ⟨rfl,⟨he,PPN_lt_NUPAGE hva,hperm,p,q,hq,?_⟩,by simp [apply,hq,PDX_eq]⟩
    by_cases hp0 : Present (s.pde e (PPN va/1024))
    · exact .inl hp0
    refine .inr fun hnil => ?_
    have hpde := (sameSpace_popPage h hq zero he).pde _ (PDX_lt_NUPDE hva)
    rw [← PDX_eq] at hp0
    have hsame : (popPage s zero p).withTable e (PDX va) = popPage s zero p := by
      unfold withTable
      rw [hpde,if_neg hp0]
      simp [addTable,popPage,hq,hnil,withPages]
    rw [hsame,hpde] at hpres
    exact hp0 hpres
  rw [if_neg hpres] at hs
  cases hs
  exact .inl ⟨rfl,rfl⟩

lemma pageAlloc_first (h : Inv K NoHand s) {p : Nat} {q : List Nat} (hq : s.pageFreeList = p :: q) :
    p < 2^20 ∧ ({s with pageFreeList := q} : Kern).pa2page (page2pa p) = some p ∧
    (fillFrame {s with pageFreeList := q} p fun _ => 0) = popPage s true p := by
  have hman := h.balanced.free_managed p (by simp [hq])
  have hplt := hman.1.trans_le h.npage_le
  refine ⟨hplt,?_,by simp [popPage,hq,fillFrame,withPages]⟩
  rw [pa2page_of_lt (by rw [PPN_page2pa hplt]; exact hman.1),PPN_page2pa hplt]

lemma sysPageAlloc_spec (h : Inv K NoHand s) (hc : s.Live c) {envid : Word}
    (hs : s.sysPageAlloc c envid va perm = some (r,s')) : (r < 0 ∧ (s' = s ∨ ∃ p, Ok s (.scrub p) ∧
    s' = apply (.scrub p) s)) ∨ (r = 0 ∧ ¬BadPerm perm ∧ ¬BadVa va ∧ ∃ e, s.envid2env c envid true =
    some e ∧ Ok s (.fresh e (PPN va) true perm) ∧ s' = apply (.fresh e (PPN va) true perm) s) := by
  unfold sysPageAlloc at hs
  cases he : s.envid2env c envid true with
  | none =>
    simp only [he] at hs
    cases hs
    exact .inl ⟨by decide,.inl rfl⟩
  | some e =>
    have hl := envid2env_live hc he
    simp only [he] at hs
    by_cases hperm : BadPerm perm
    · rw [if_pos hperm] at hs
      cases hs
      exact .inl ⟨by decide,.inl rfl⟩
    rw [if_neg hperm] at hs
    by_cases hva : BadVa va
    · rw [if_pos hva] at hs
      cases hs
      exact .inl ⟨by decide,.inl rfl⟩
    rw [if_neg hva] at hs
    cases hq : s.pageFreeList with
    | nil =>
      simp only [pageAlloc,hq] at hs
      cases hs
      exact .inl ⟨by decide,.inl rfl⟩
    | cons p q =>
      have hlow : LowBits perm := lowBits_of_user
        (Decidable.not_not.mp fun hx => hperm (.inr (.inr hx)))
      have hlt := lt_of_not_badVa hva
      obtain ⟨_,hpa,hpop⟩ := pageAlloc_first h hq
      simp only [pageAlloc,hq,hpa,bind,Option.bind,hpop] at hs
      split at hs
      · cases hs
      rename_i res hins
      obtain ⟨r1,s1⟩ := res
      obtain ⟨rfl,rfl⟩ | ⟨rfl,hok,rfl⟩ := pageInsert_fresh h hl hlt hlow hq true hins
      · have hz : (popPage s true p).ppRef p = 0 :=
          (h.popPage hq true).balanced.hand_zero (.inr rfl)
        simp only [show (-E_NO_MEM : Int) < 0 by decide,if_true,hz,pageFree] at hs
        cases hs
        refine .inl ⟨by decide,.inr ⟨p,by simp [Ok,hq],?_⟩⟩
        simp [apply,popPage,fillFrame,withPages,hq]
      simp only [Int.lt_irrefl,if_false,pure] at hs
      cases hs
      exact .inr ⟨rfl,hperm,hva,e,rfl,hok,rfl⟩

lemma pageInsert_performs (h : Inv K NoHand s) {e e' n' : Nat} {w : Word} (he : s.Live e)
    (hva : va < UTOP) (he' : s.Live e') (hn' : n' < NUPAGE) (hw : s.pte e' n' = some w)
    (hperm : LowBits perm) (hs : s.pageInsert (s.pgdir e) (PPN w) va perm = some (r,s')) :
    (r = -E_NO_MEM ∧ s' = s ∧ ¬Present (s.pde e (PDX va)) ∧ s.pageFreeList = []) ∨
    (r = 0 ∧ Performs s [.table e (PDX va),.map e (PPN va) w perm] s') := by
  have hd := PDX_lt_NUPDE hva
  have hlt := (h.page_managed he' hn' hw).1.trans_le h.npage_le
  rw [pageInsert_eq h he hva hlt hperm] at hs
  have henv := sameEnvs_withTable s e (PDX va)
  by_cases hp : Present ((s.withTable e (PDX va)).pde e (PDX va))
  · rw [if_pos hp] at hs
    cases hs
    refine .inr ⟨rfl,.cons ⟨he,hd⟩ (.single ?_)⟩
    refine ⟨(henv.env e).live.mpr he,PPN_lt_NUPAGE hva,by rw [← PDX_eq]; exact hp,hperm,
      e',n',(henv.env e').live.mpr he',hn',?_⟩
    exact (pte_withTable h he he' hn').trans hw
  rw [if_neg hp] at hs
  cases hs
  have hor := fun hc => hp (withTable_present (d := PDX va) h he hc)
  exact .inl ⟨rfl,rfl,fun hc => hor (.inl hc),Decidable.not_not.mp fun hc => hor (.inr hc)⟩

lemma sysPageMap_spec (h : Inv K NoHand s) (hc : s.Live c) {srcenvid srcva dstenvid dstva : Word}
    (hs : s.sysPageMap c srcenvid srcva dstenvid dstva perm = some (r,s')) : (r < 0 ∧ s' = s) ∨
    (r = 0 ∧ ¬BadVa srcva ∧ ¬BadVa dstva ∧ ¬(perm&&&(PTE_U+PTE_P) = 0 ∨ perm&&&~~~PTE_USER ≠ 0) ∧
    ∃ es ed w, s.envid2env c srcenvid true = some es ∧ s.envid2env c dstenvid true = some ed ∧
    s.pte es (PPN srcva) = some w ∧ (perm&&&PTE_W ≠ 0 → w&&&PTE_W ≠ 0) ∧
    Performs s [.table ed (PDX dstva),.map ed (PPN dstva) w perm] s') := by
  unfold sysPageMap at hs
  cases hes : s.envid2env c srcenvid true with
  | none =>
    simp only [hes] at hs
    cases hs
    exact .inl ⟨by decide,rfl⟩
  | some es =>
  cases hed : s.envid2env c dstenvid true with
  | none =>
    simp only [hes,hed] at hs
    cases hs
    exact .inl ⟨by decide,rfl⟩
  | some ed =>
    simp only [hes,hed] at hs
    have hles := envid2env_live hc hes
    have hled := envid2env_live hc hed
    by_cases hva : BadVa srcva ∨ BadVa dstva
    · rw [if_pos hva] at hs
      cases hs
      exact .inl ⟨by decide,rfl⟩
    rw [if_neg hva] at hs
    by_cases hperm : perm&&&(PTE_U+PTE_P) = 0 ∨ perm&&&~~~PTE_USER ≠ 0
    · rw [if_pos hperm] at hs
      cases hs
      exact .inl ⟨by decide,rfl⟩
    rw [if_neg hperm] at hs
    have hsrc : ¬BadVa srcva := fun hx => hva (.inl hx)
    have hdst : ¬BadVa dstva := fun hx => hva (.inr hx)
    have hlow : LowBits perm := lowBits_of_user
      (Decidable.not_not.mp fun hx => hperm (.inr hx))
    have hn := PPN_lt_NUPAGE (lt_of_not_badVa hsrc)
    simp only [pageLookup_eq h hles (lt_of_not_badVa hsrc),bind,Option.bind] at hs
    cases hw : s.pte es (PPN srcva) with
    | none =>
      simp only [hw,map_none,pure] at hs
      cases hs
      exact .inl ⟨by decide,rfl⟩
    | some w =>
      have hmem : s.mem (PPN (s.mem (s.pgdir es) (PDX srcva))) (PTX srcva) = w := by
        have := (pte_some hw).2.1
        rw [pde_PDX,← PTX_eq] at this
        exact this
      simp only [hw,map_some,hmem] at hs
      by_cases hwr : perm&&&PTE_W ≠ 0 ∧ w&&&PTE_W = 0
      · rw [if_pos hwr] at hs
        cases hs
        exact .inl ⟨by decide,rfl⟩
      rw [if_neg hwr] at hs
      rcases pageInsert_performs h hled (lt_of_not_badVa hdst) hles hn hw hlow hs with
        ⟨rfl,rfl,_⟩ | ⟨rfl,hp⟩
      · exact .inl ⟨by decide,rfl⟩
      exact .inr ⟨rfl,hsrc,hdst,hperm,es,ed,w,rfl,rfl,hw,fun hx hy => hwr ⟨hx,hy⟩,hp⟩

lemma sysPageUnmap_spec (h : Inv K NoHand s) (hc : s.Live c) {envid : Word} (hs : s.sysPageUnmap
    c envid va = some (r,s')) : (r < 0 ∧ s' = s) ∨ (r = 0 ∧ ¬BadVa va ∧ ∃ e, s.envid2env c envid
    true = some e ∧ ((s.pte e (PPN va) = none ∧ s' = s) ∨ Performs s [.unmap e (PPN va)] s')) := by
  unfold sysPageUnmap at hs
  cases he : s.envid2env c envid true with
  | none =>
    simp only [he] at hs
    cases hs
    exact .inl ⟨by decide,rfl⟩
  | some e =>
    have hl := envid2env_live hc he
    simp only [he] at hs
    by_cases hva : BadVa va
    · rw [if_pos hva] at hs
      cases hs
      exact .inl ⟨by decide,rfl⟩
    rw [if_neg hva] at hs
    have hlt := lt_of_not_badVa hva
    simp only [pageRemove_eq h hl hlt,bind,Option.bind,pure] at hs
    cases hs
    refine .inr ⟨rfl,hva,e,rfl,?_⟩
    by_cases hw : s.pte e (PPN va) = none
    · exact .inl ⟨hw,if_pos hw⟩
    rw [if_neg hw]
    exact .inr (.single ⟨hl,PPN_lt_NUPAGE hlt,hw⟩)

end pages

section ipc

variable {K : Finset Nat} {s s' : Kern} {c : Nat} {r : Int} {t : Nat} {srcva perm : Word}

lemma wake_performs (ht : s.Live t) : Performs s [.edit t (.status .runnable)]
      (s.modEnv t fun v => {v with envStatus := .runnable}) := .single ⟨ht,by simp⟩

lemma ipcDeliver_spec (h : Inv K NoHand s) (hc : s.Live c) (ht : s.Live t) (hs : s.ipcDeliver c t
    srcva perm = some (r,s')) : (r < 0 ∧ s' = s) ∨ (r = 0 ∧ Performs s [.edit t (.status .runnable)]
    s') ∨ (r = 1 ∧ srcva ≠ 0 ∧ ¬BadVa srcva ∧ ¬BadPerm perm ∧ (s.envs t).envIpcDstva ≠ 0 ∧ ∃ w,
    s.pte c (PPN srcva) = some w ∧ Performs s [.table t (PDX (s.envs t).envIpcDstva), .map t (PPN
    (s.envs t).envIpcDstva) w perm, .edit t (.mailPerm perm),.edit t (.status .runnable)] s') := by
  unfold ipcDeliver at hs
  simp only at hs
  by_cases hsrc : srcva ≠ 0
  · rw [if_pos hsrc] at hs
    by_cases hva : BadVa srcva
    · rw [if_pos hva] at hs
      cases hs
      exact .inl ⟨by decide,rfl⟩
    rw [if_neg hva] at hs
    by_cases hperm : BadPerm perm
    · rw [if_pos hperm] at hs
      cases hs
      exact .inl ⟨by decide,rfl⟩
    rw [if_neg hperm] at hs
    have hsva := lt_of_not_badVa hva
    have hn := PPN_lt_NUPAGE hsva
    simp only [pageLookup_eq h hc hsva,bind,Option.bind] at hs
    cases hw : s.pte c (PPN srcva) with
    | none =>
      simp only [hw,map_none,pure] at hs
      cases hs
      exact .inl ⟨by decide,rfl⟩
    | some w =>
      simp only [hw,map_some] at hs
      by_cases hd : (s.envs t).envIpcDstva ≠ 0
      · rw [if_pos hd] at hs
        have hlow : LowBits perm := lowBits_of_user
          (Decidable.not_not.mp fun hx => hperm (.inr (.inr hx)))
        have hdva := lt_of_not_badVa ((h.table.dstva t).resolve_left hd)
        split at hs
        · cases hs
        rename_i res hins
        obtain ⟨r1,s2⟩ := res
        rcases pageInsert_performs h ht hdva hc hn hw hlow hins with
          ⟨rfl,rfl,_⟩ | ⟨rfl,hp⟩
        · simp only [show (-E_NO_MEM : Int) < 0 by decide,if_true] at hs
          cases hs
          exact .inl ⟨by decide,rfl⟩
        simp only [Int.lt_irrefl,if_false] at hs
        cases hs
        refine .inr (.inr ⟨rfl,hsrc,hva,hperm,hd,w,rfl,?_⟩)
        have hl2 : s2.Live t := by
          rw [hp.result]
          exact ((sameEnvs_withTable s t _).env t).live.mpr ht
        have hperms : Performs s2 [.edit t (.mailPerm perm)]
            (s2.modEnv t fun v => {v with envIpcPerm := perm}) := .single trivial
        have hl3 : (s2.modEnv t fun v => {v with envIpcPerm := perm}).Live t :=
          ⟨hl2.1,by rw [modEnv_self]; exact hl2.2⟩
        exact (hp.append hperms).append (wake_performs hl3)
      rw [if_neg hd] at hs
      cases hs
      exact .inr (.inl ⟨rfl,wake_performs ht⟩)
  rw [if_neg hsrc] at hs
  cases hs
  exact .inr (.inl ⟨rfl,wake_performs ht⟩)

lemma sysIpcTrySend_spec (h : Inv K NoHand s) (hc : s.Live c) {envid value : Word}
    (hs : s.sysIpcTrySend c envid value srcva perm = some (r,s')) : (r < 0 ∧ s' = s) ∨
    ∃ t, s.envid2env c envid false = some t ∧ (s.envs t).envIpcRecving ∧ ((r < 0 ∧
    Performs s [.edit t (.mail (s.envs c).envId value)] s') ∨ (r = 0 ∧ Performs s [.edit t (.mail
    (s.envs c).envId value), .edit t (.status .runnable)] s') ∨ (r = 1 ∧ srcva ≠ 0 ∧ ¬BadVa srcva ∧
    ¬BadPerm perm ∧ (s.envs t).envIpcDstva ≠ 0 ∧ ∃ w, s.pte c (PPN srcva) = some w ∧ Performs
    s [.edit t (.mail (s.envs c).envId value), .table t (PDX (s.envs t).envIpcDstva), .map t (PPN
    (s.envs t).envIpcDstva) w perm, .edit t (.mailPerm perm),.edit t (.status .runnable)] s')) := by
  unfold sysIpcTrySend at hs
  cases ht : s.envid2env c envid false with
  | none =>
    simp only [ht] at hs
    cases hs
    exact .inl ⟨by decide,rfl⟩
  | some t =>
    have hlt := envid2env_live hc ht
    simp only [ht] at hs
    by_cases hrecv : (s.envs t).envIpcRecving = false
    · rw [if_pos hrecv] at hs
      cases hs
      exact .inl ⟨by decide,rfl⟩
    rw [if_neg hrecv] at hs
    have hok : Ok s (.edit t (.mail (s.envs c).envId value)) := trivial
    have hsp := fun e (he : s.Live e) => sameSpace h hok he (by simp [env])
    have hdst : ((apply (.edit t (.mail (s.envs c).envId value)) s).envs t).envIpcDstva =
        (s.envs t).envIpcDstva := by
      simp only [apply,modEnv_self]
      rfl
    have hmail : Performs s [.edit t (.mail (s.envs c).envId value)] _ := .single hok
    refine .inr ⟨t,rfl,by simpa using hrecv,?_⟩
    rcases ipcDeliver_spec (h.event hok) (hsp c hc).live (hsp t hlt).live hs with
      ⟨hr,rfl⟩ | ⟨rfl,hp⟩ | ⟨rfl,hsrc,hva,hperm,hd,w,hw,hp⟩
    · exact .inl ⟨hr,hmail⟩
    · exact .inr (.inl ⟨rfl,hmail.append hp⟩)
    rw [hdst] at hd hp
    rw [(hsp c hc).pte _ (PPN_lt_NUPAGE (lt_of_not_badVa hva))] at hw
    exact .inr (.inr ⟨rfl,hsrc,hva,hperm,hd,w,hw,hmail.append hp⟩)

end ipc

section envs

variable {K : Finset Nat} {s s' : Kern} {c : Nat}

def childFrame (tf : Trapframe) : Trapframe := {tf with regs := {tf.regs with eax := 0}}

lemma sysExofork_spec (h : Inv K NoHand s) (hc : s.Live c) {r : Int} (hs : s.sysExofork c =
    some (r,s')) : (r < 0 ∧ s' = s) ∨ ∃ e l, s.envFreeList = e :: l ∧ s.pageFreeList ≠ [] ∧ r =
    (s'.envs e).envId.toInt ∧ Performs s [.spawn (s.envs c).envId,.edit e (.status .notRunnable),
    .edit e (.frame (childFrame (s.envs c).envTf))] s' := by
  unfold sysExofork at hs
  rw [envAlloc_eq h] at hs
  cases hl : s.envFreeList with
  | nil =>
    simp only [hl,bind,Option.bind,pure] at hs
    cases hs
    exact .inl ⟨by decide,rfl⟩
  | cons e l =>
    by_cases hq : s.pageFreeList = []
    · simp only [hl,hq,if_true,bind,Option.bind,pure] at hs
      cases hs
      exact .inl ⟨by decide,rfl⟩
    obtain ⟨he,hfree⟩ := (h.table.free_iff e).mp (by simp [hl])
    have hne : c ≠ e := by
      rintro rfl
      exact hc.2 hfree
    have hok : Ok s (.spawn (s.envs c).envId) := ⟨by simp [hl],hq⟩
    have hself : (apply (.spawn (s.envs c).envId) s).envs e =
        newEnv (s.envs e) e (s.pageFreeList.headD 0) (s.envs c).envId := by
      simp only [apply,hl,headD_cons]
      exact spawn_self
    have hother : (apply (.spawn (s.envs c).envId) s).envs c = s.envs c := by
      simp only [apply,hl,headD_cons]
      exact spawn_other hne
    have hst : ((apply (.spawn (s.envs c).envId) s).envs e).envStatus = .runnable := by
      rw [hself]
      rfl
    have hlive : (apply (.spawn (s.envs c).envId) s).Live e :=
      ⟨he,by rw [hst]; simp⟩
    simp only [hl,if_neg hq,bind,Option.bind,if_pos hst,pure,modEnv_other _ _ hne,hother] at hs
    cases hs
    exact .inr ⟨e,l,rfl,hq,rfl,.cons hok (.cons ⟨hlive,by simp⟩ (.cons trivial .nil))⟩

variable {va len perm : Word}

lemma userMemAssert_spec {e : Nat} {r : Kern.Flow Unit} (hs : s.userMemAssert e va len perm =
    some (r,s')) : (r = .ret () ∧ s' = s) ∨ s.envDestroy e = some (r,s') := by
  obtain ⟨v,_,hs⟩ := of_bind hs
  cases v with
  | none =>
    cases hs
    exact .inl ⟨rfl,rfl⟩
  | some w => exact .inr hs

lemma userMemAssert_ret (h : Inv K NoHand s) (hc : s.Live c) (hcur : s.curenv = some c)
    (hs : s.userMemAssert c va len perm = some (.ret (),s')) : s' = s := by
  obtain ⟨_,rfl⟩ | hd := userMemAssert_spec hs
  · rfl
  obtain ⟨_,hne,_⟩ | ⟨hr,_⟩ := envDestroy_spec h hc hd
  · exact absurd hcur hne
  contradiction

end envs

end KludgeOS
