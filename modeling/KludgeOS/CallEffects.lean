import KludgeOS.Reach

/-!
What the calls of the user library do to address spaces, as seen from the
pages: one entry changes, and the contents of every mapped page stay.
-/

namespace KludgeOS
open Traces List
open BitVec (ofNat ofInt)
open BitVec Kern Event
open Event (apply)

def Kern.Unmapped (s : Kern) (f : Nat) : Prop :=
  ∀ y m w, s.Live y → m < NUPAGE → s.pte y m = some w → PPN w ≠ f

structure SamePages (K : Finset Nat) (s s' : Kern) : Prop where
  inv : Inv K NoHand s'
  live : ∀ y, s.Live y → s'.Live y
  pde : ∀ y d, s.Live y → d < NUPDE → Present (s.pde y d) → Present (s'.pde y d)
  pte : ∀ y m, s.Live y → m < NUPAGE → s'.pte y m = s.pte y m
  mem : ∀ y m w, s.Live y → m < NUPAGE → s.pte y m = some w → s'.mem (PPN w) = s.mem (PPN w)

/-- Page `n` of `e` gets the entry `v`. -/
structure Assigns (K : Finset Nat) (s s' : Kern) (e n : Nat) (v : Option Word) : Prop where
  inv : Inv K NoHand s'
  live : ∀ y, s.Live y → s'.Live y
  pde : ∀ y d, s.Live y → d < NUPDE → Present (s.pde y d) → Present (s'.pde y d)
  pte : ∀ y m, s.Live y → m < NUPAGE → s'.pte y m = if y = e ∧ m = n then v else s.pte y m
  mem : ∀ y m w, s.Live y → m < NUPAGE → s.pte y m = some w → s'.mem (PPN w) = s.mem (PPN w)

section

variable {K : Finset Nat} {s s' : Kern} {c : Nat}

lemma SamePages.refl (h : Inv K NoHand s) : SamePages K s s :=
  ⟨h,fun _ hl => hl,fun _ _ _ _ hp => hp,fun _ _ _ _ => rfl,fun _ _ _ _ _ _ => rfl⟩

variable {e n : Nat} {perm va : Word} {t : Kern}

lemma SamePages.table {d : Nat} (h : Inv K NoHand s) (hok : Ok s (.table e d)) :
    SamePages K s (apply (.table e d) s) where
  inv := h.event hok
  live y hy := ((sameEnvs_withTable s e d).env y).live.mpr hy
  pde y d' hy _ hp := by
    by_cases hc : y = e ∧ d' = d
    · obtain ⟨rfl,rfl⟩ := hc
      exact withTable_present h hy (.inl hp)
    change Present ((s.withTable e d).pde y d')
    rw [pde_withTable_ne h hok.1 hy hc]
    exact hp
  pte _ _ hy hm := pte_withTable h hok.1 hy hm
  mem _ _ _ hy hm hw := sameContents h hok (by simp) hy hm hw

lemma Assigns.map {w : Word} (h : Inv K NoHand s) (hok : Ok s (.map e n w perm)) :
    Assigns K s (apply (.map e n w perm) s) e n (some (entry (PPN w) perm)) where
  inv := h.event hok
  live _ hy := hy
  pde y d hy _ hp := by
    change Present ((s.assignPte e n _).pde y d)
    rw [pde_assignPte h hok.1 hok.2.1 hok.2.2.1 _ hy d]
    exact hp
  pte y m hy hm := by
    have := pte_assignPte h hok.1 hok.2.1 hok.2.2.1 (entry (PPN w) perm) hy hm
    rwa [if_pos (present_or_PTE_P _)] at this
  mem _ _ _ hy hm hw := sameContents h hok (by simp) hy hm hw

lemma Assigns.unmap (h : Inv K NoHand s) (hok : Ok s (.unmap e n)) :
    Assigns K s (apply (.unmap e n) s) e n none := by
  obtain ⟨w,hw⟩ := Option.ne_none_iff_exists'.mp hok.2.2
  have hp := (pte_some hw).1
  refine ⟨h.event hok,fun _ hy => hy,fun y d hy _ hp' => ?_,fun y m hy hm => ?_,
    fun _ _ _ hy hm hw => sameContents h hok (by simp) hy hm hw⟩
  · change Present ((s.assignPte e n _).pde y d)
    rw [pde_assignPte h hok.1 hok.2.1 hp _ hy d]
    exact hp'
  have := pte_assignPte h hok.1 hok.2.1 hp 0 hy hm
  rwa [if_neg (by decide : ¬Present 0)] at this

lemma Assigns.fresh {zero : Bool} (h : Inv K NoHand s) (hok : Ok s (.fresh e n zero perm)) :
    Assigns K s (apply (.fresh e n zero perm) s) e n
      (some (entry (s.pageFreeList.headD 0) perm)) := by
  obtain ⟨p,l,hl,h1,h2,he2,hp2,heq⟩ := fresh_states h hok
  refine ⟨h.event hok,fun y hy => ?_,fun y d hy hd hp => ?_,fun y m hy hm => fresh_pte h hok hy hm,
    fun _ _ _ hy hm hw => sameContents h hok (by simp) hy hm hw⟩
  · rw [heq]
    exact ((sameEnvs_withTable (popPage s zero p) e (n/1024)).env y).live.mpr hy
  have hs1 := sameSpace_popPage h hl zero hy
  have he1 : (popPage s zero p).Live e := hok.1
  have hy2 := ((sameEnvs_withTable (popPage s zero p) e (n/1024)).env y).live.mpr hs1.live
  rw [heq,pde_assignPte h2 he2 hok.2.1 hp2 _ hy2 d]
  rw [← hs1.pde d hd] at hp
  by_cases hc : y = e ∧ d = n/1024
  · obtain ⟨rfl,rfl⟩ := hc
    exact withTable_present h1 hs1.live (.inl hp)
  rw [pde_withTable_ne h1 he1 hs1.live hc]
  exact hp

lemma SamePages.assigns {v : Option Word} (h : SamePages K s t) (h' : Assigns K t s' e n v) :
    Assigns K s s' e n v where
  inv := h'.inv
  live y hy := h'.live y (h.live y hy)
  pde y d hy hd hp := h'.pde y d (h.live y hy) hd (h.pde y d hy hd hp)
  pte y m hy hm := by rw [h'.pte y m (h.live y hy) hm,h.pte y m hy hm]
  mem y m w hy hm hw := by
    rw [h'.mem y m w (h.live y hy) hm (by rw [h.pte y m hy hm]; exact hw),h.mem y m w hy hm hw]

lemma SamePages.trans (h : SamePages K s t) (h' : SamePages K t s') : SamePages K s s' where
  inv := h'.inv
  live y hy := h'.live y (h.live y hy)
  pde y d hy hd hp := h'.pde y d (h.live y hy) hd (h.pde y d hy hd hp)
  pte y m hy hm := by rw [h'.pte y m (h.live y hy) hm,h.pte y m hy hm]
  mem y m w hy hm hw := by
    rw [h'.mem y m w (h.live y hy) hm (by rw [h.pte y m hy hm]; exact hw),h.mem y m w hy hm hw]

section

variable (h : Inv K NoHand s)
include h

lemma SamePages.edit {k : Edit} (hok : EditOk s e k) : SamePages K s (s.modEnv e k.apply) := by
  have same : ∀ y, s.Live y → SameSpace s (s.modEnv e k.apply) y := fun y hy =>
    sameSpace (a := .edit e k) h hok hy (by simp [env])
  refine ⟨h.event (a := .edit e k) hok,fun y hy => (same y hy).live,fun y d hy hd hp => ?_,
    fun y m hy hm => (same y hy).pte m hm,fun _ _ _ _ _ _ => rfl⟩
  rw [(same y hy).pde d hd]
  exact hp

lemma sysPageMap_assigns (hc : s.Live c) {srcva dstenvid dstva : Word}
    (hs : s.sysPageMap c 0 srcva dstenvid dstva perm = some (0,s')) : ∃ ed w, s.envid2env c dstenvid
    true = some ed ∧ s.pte c (PPN srcva) = some w ∧ PPN srcva < NUPAGE ∧ PPN dstva < NUPAGE ∧
    LowBits perm ∧ PPN w < 2^20 ∧ Assigns K s s' ed (PPN dstva) (some (entry (PPN w) perm)) := by
  obtain ⟨hr,_⟩ | ⟨_,hsv,hdv,htest,es,ed,w,hes,hed,hw,_,hp⟩ := sysPageMap_spec h hc hs
  · exact absurd hr (by decide)
  obtain rfl : c = es := by simpa [envid2env] using hes
  have hn := PPN_lt_NUPAGE (lt_of_not_badVa hsv)
  have hlow := lowBits_of_user (Decidable.not_not.mp fun hx => htest (.inr hx))
  refine ⟨ed,w,hed,hw,hn,PPN_lt_NUPAGE (lt_of_not_badVa hdv),hlow,
    (h.page_managed hc hn hw).1.trans_le h.npage_le,?_⟩
  cases hp with
  | cons h1 hp =>
    have hst := SamePages.table h h1
    cases hp with
    | cons h2 hp =>
      cases hp
      exact hst.assigns (.map hst.inv h2)

lemma sysPageAlloc_assigns (hc : s.Live c) {envid : Word} (hs : s.sysPageAlloc c envid va perm =
    some (0,s')) : ∃ e f, s.envid2env c envid true = some e ∧ s.Unmapped f ∧ f < 2^20 ∧
    LowBits perm ∧ PPN va < NUPAGE ∧ Assigns K s s' e (PPN va) (some (entry f perm)) := by
  obtain ⟨hr,_⟩ | ⟨_,_,hva,e,he,hok,rfl⟩ := sysPageAlloc_spec h hc hs
  · exact absurd hr (by decide)
  obtain ⟨_,_,hlow,p,l,hl,_⟩ := id hok
  have hmem : p ∈ s.pageFreeList := by simp [hl]
  refine ⟨e,p,he,?_,?_,hlow,PPN_lt_NUPAGE (lt_of_not_badVa hva),?_⟩
  · rintro y m w hy hm hw rfl
    refine h.balanced.not_held hmem (.pte y m) (pte_mem_slots.mpr ⟨hy.1,hm⟩) ?_
    rw [holds_pte hy,hw]
    rfl
  · exact (h.balanced.free_managed p hmem).1.trans_le h.npage_le
  have := Assigns.fresh h hok
  rwa [hl,headD_cons] at this

lemma sysPageUnmap_assigns (hc : s.Live c) (hs : s.sysPageUnmap c 0 va = some (0,s'))
    : PPN va < NUPAGE ∧ Assigns K s s' c (PPN va) none := by
  obtain ⟨hr,_⟩ | ⟨_,hva,e,he,hcase⟩ := sysPageUnmap_spec h hc hs
  · exact absurd hr (by decide)
  obtain rfl : c = e := by simpa [envid2env] using he
  refine ⟨PPN_lt_NUPAGE (lt_of_not_badVa hva),?_⟩
  obtain ⟨hno,rfl⟩ | hp := hcase
  · refine ⟨h,fun _ hy => hy,fun _ _ _ _ hp => hp,fun y m hy hm => ?_,fun _ _ _ _ _ _ => rfl⟩
    split
    · rename_i hc
      rw [hc.1,hc.2]
      exact hno
    rfl
  cases hp with
  | cons h1 hp =>
    cases hp
    exact .unmap h h1

lemma sysEnvSetStatus_same (hc : s.Live c) (envid status : Word) :
    SamePages K s (s.sysEnvSetStatus c envid status).2 := by
  unfold sysEnvSetStatus
  cases he : s.envid2env c envid true with
  | none => exact .refl h
  | some e =>
    have hl := envid2env_live hc he
    simp only
    split
    · exact .edit (k := .status .runnable) h ⟨hl,by simp⟩
    split
    · exact .edit (k := .status .notRunnable) h ⟨hl,by simp⟩
    exact .refl h

lemma sysEnvSetPgfaultUpcall_same (envid func : Word) :
    SamePages K s (s.sysEnvSetPgfaultUpcall c envid func).2 := by
  unfold sysEnvSetPgfaultUpcall
  cases he : s.envid2env c envid true with
  | none => exact .refl h
  | some e => exact .edit (k := .upcall func) h trivial

end

lemma sysEnvSetStatus_mem (envid status : Word) :
    (s.sysEnvSetStatus c envid status).2.mem = s.mem := by
  unfold sysEnvSetStatus
  split
  · rfl
  split
  · rfl
  split
  · rfl
  rfl

lemma sysEnvSetPgfaultUpcall_mem (envid func : Word) :
    (s.sysEnvSetPgfaultUpcall c envid func).2.mem = s.mem := by
  unfold sysEnvSetPgfaultUpcall
  split
  · rfl
  rfl

lemma ENVX_nextEnvid (he : e < NENV) (old : Word) : ENVX (nextEnvid e old) = e := by
  have hlow : ∀ g : Word, (g&&&~~~(ofNat 32 (NENV-1)))&&&1023 = 0 := by
    intro g
    rw [BitVec.and_assoc]
    have : ~~~(ofNat 32 (NENV-1))&&&(1023 : Word) = 0 := by decide
    rw [this]
    simp
  have hgen : ∀ g : Word, g&&&1023 = 0 → ENVX (g|||ofNat 32 e) = e := by
    intro g hg
    rw [ENVX,or_and,hg]
    have he' : e < 1024 := he
    simp only [ofNat_eq_ofNat,zero_or,toNat_and,toNat_ofNat]
    rw [show 1023%2^32 = 2^10-1 from rfl,Nat.and_two_pow_sub_one_eq_mod]
    omega
  unfold nextEnvid
  simp only
  split
  · exact hgen _ (by decide)
  exact hgen _ (hlow _)

lemma child_id {l : List Nat} {a : Word} {tf : Trapframe} (hl : s.envFreeList = e :: l)
    (hp : Performs s [.spawn a,.edit e (.status .notRunnable),.edit e (.frame tf)] s') :
    (s'.envs e).envId = nextEnvid e (s.envs e).envId := by
  have hself : (apply (.spawn a) s).envs e = newEnv (s.envs e) e (s.pageFreeList.headD 0) a := by
    simp only [apply,hl,headD_cons]
    exact spawn_self
  rw [hp.result]
  change ((((apply (.spawn a) s).modEnv e _).modEnv e _).envs e).envId = _
  rw [modEnv_self,modEnv_self,hself]
  rfl

lemma sysExofork_child (h : Inv K NoHand s) (hc : s.Live c) {r : Int} (hr : 0 < r)
    (hs : s.sysExofork c = some (r,s')) :
    let e := ENVX (ofInt 32 r)
    ofInt 32 r ≠ 0 ∧ ¬s.Live e ∧ s'.Live e ∧ (∀ m < NUPAGE, s'.pte e m = none) ∧ SamePages K s s' := by
  obtain ⟨hneg,_⟩ | ⟨e,l,hl,hq,hid,hp⟩ := sysExofork_spec h hc hs
  · omega
  obtain ⟨he,hfree⟩ := (h.table.free_iff e).mp (by simp [hl])
  have hid' : r = (nextEnvid e (s.envs e).envId).toInt := by rw [hid,child_id hl hp]
  cases hp with
  | cons h1 hp =>
  cases hp with
  | cons h2 hp =>
  cases hp with
  | cons h3 hp =>
  cases hp
  have hinv1 := h.event h1
  have hsp : ∀ y, s.Live y → SameSpace s (apply (.spawn (s.envs c).envId) s) y :=
    fun y hy => spawn_sameSpace h h1 hy
  have s1 : SamePages K s (apply (.spawn (s.envs c).envId) s) :=
    ⟨hinv1,fun y hy => (hsp y hy).live, fun y d hy hd hp => by rw [(hsp y hy).pde d hd]; exact hp,
      fun y m hy hm => (hsp y hy).pte m hm,
      fun _ _ _ hy hm hw => sameContents h h1 (by simp) hy hm hw⟩
  have s2 := SamePages.edit (k := .status .notRunnable) s1.inv h2
  have s3 := SamePages.edit (e := e) (k := .frame (childFrame (s.envs c).envTf)) s2.inv h3
  have hlive1 : (apply (.spawn (s.envs c).envId) s).Live e := h2.1
  have hx : ENVX (ofInt 32 r) = e := by rw [hid',ofInt_toInt,ENVX_nextEnvid he]
  have hnone : ∀ m < NUPAGE, (apply (.spawn (s.envs c).envId) s).pte e m = none := by
    intro m hm
    refine pte_of_absent ?_
    simp only [apply,hl,headD_cons]
    exact pde_spawn_low h (pde_of_page hm)
  have hne : ofInt 32 r ≠ 0 := by
    rw [hid',ofInt_toInt]
    intro hz
    rw [hid',hz] at hr
    simp at hr
  simp only [hx]
  refine ⟨hne,fun hlive => hlive.2 hfree,s3.live e (s2.live e hlive1),fun m hm => ?_,
    (s1.trans s2).trans s3⟩
  exact ((s3.pte e m (s2.live e hlive1) hm).trans (s2.pte e m hlive1 hm)).trans (hnone m hm)

lemma userStore_word (h : Inv K NoHand s) (hc : s.Live c) {v : Word}
    (hs : s.userStore (s.pgdir c) va v = some s') : PPN va < NUPAGE ∧ ∃ w, s.pte c (PPN va) =
    some w ∧ w&&&PTE_W ≠ 0 ∧ s'.mem = s.mem.set (PPN w) (va.toNat%PGSIZE/4) v ∧ Inv K NoHand s' ∧
    (∀ y, s.Live y → s'.Live y) ∧ (∀ y d, s.Live y → d < NUPDE → s'.pde y d = s.pde y d) ∧
    ∀ y m, s.Live y → m < NUPAGE → s'.pte y m = s.pte y m := by
  obtain ⟨f,hf,hs1⟩ := of_bind hs
  cases hs1
  by_cases hva : va < UTOP
  · obtain ⟨w,hw,hwr,rfl⟩ := storeTarget_pte hf
    have hn := PPN_lt_NUPAGE hva
    have heq : s.setWord (PPN w) (va.toNat%PGSIZE/4) v =
        apply (.store c (PPN va) (va.toNat%PGSIZE/4) v) s := by simp [apply,hw]
    have hok : Ok s (.store c (PPN va) (va.toNat%PGSIZE/4) v) := ⟨hc,hn,w,hw,hwr⟩
    have hsp : ∀ y, s.Live y → SameSpace s (s.setWord (PPN w) (va.toNat%PGSIZE/4) v) y := by
      intro y hy
      rw [heq]
      exact sameSpace h hok hy (by simp [env])
    refine ⟨hn,w,hw,hwr,rfl,?_,fun _ hy => hy,fun y d hy hd => (hsp y hy).pde d hd,
      fun y m hy hm => (hsp y hy).pte m hm⟩
    rw [heq]
    exact h.event hok
  rw [storeTarget_high h hc hva] at hf
  cases hf

end

end KludgeOS
