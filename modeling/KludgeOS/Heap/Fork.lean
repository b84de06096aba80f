import KludgeOS.ForkValues
import KludgeOS.Heap.Runs

/-!
The heap of an environment on the kernel, and what `fork` makes of it: `PTE_CONTINUED` is
`PTE_SHARE`.
-/

namespace KludgeOS.Malloc
open CopyOnWrite (Label)
open BitVec Kern Option Event Family Mem

example : PTE_CONTINUED = PTE_SHARE := rfl

def kernOps (e : Nat) : PageOps Unit Kern where
  vpt s n := s.pte e n
  sysPageAlloc _ s va perm := s.sysPageAlloc e 0 va perm
  sysPageUnmap s va := s.sysPageUnmap e 0 va
  load s a := (s.pte e (PPN a)).map fun w => s.mem (PPN w) (a.toNat%PGSIZE/4)
  store s a w := s.userStore (s.pgdir e) a w
  log _ := []

structure HeapSpace (K : Finset Nat) (e : Nat) (s : Kern) : Prop where
  inv : Inv K NoHand s
  live : s.Live e
  alone : s.Standalone e
  pages : ∀ p w, InArena p → s.pte e p = some w → UserStorable w ∧
    ∀ m x, m < NUPAGE → s.pte e m = some x → PPN x = PPN w → m = p

section calls

variable {K : Finset Nat} {s s' : Kern} {e c : Nat}

lemma sysPageAlloc_returns (h : Inv K NoHand s) (hc : s.Live c) {va perm : Word} (hperm
    : ¬BadPerm perm) (hva : ¬BadVa va) : ∃ r s', s.sysPageAlloc c 0 va perm = some (r,s') := by
  have hself : s.envid2env c 0 true = some c := by simp [envid2env]
  have hlow : LowBits perm := lowBits_of_user
    (Decidable.not_not.mp fun hx => hperm (.inr (.inr hx)))
  unfold sysPageAlloc
  simp only [hself,if_neg hperm,if_neg hva]
  cases hq : s.pageFreeList with
  | nil => exact ⟨_,_,by simp only [pageAlloc,hq]; rfl⟩
  | cons p q =>
    obtain ⟨hplt,hpa,hpop⟩ := pageAlloc_first h hq
    have hl1 : (popPage s true p).Live c := hc
    have hins : (popPage s true p).pageInsert ((popPage s true p).envs c).envPgdir p va
        perm = _ :=
      pageInsert_eq (h.popPage hq true) hl1 (lt_of_not_badVa hva) hplt hlow
    have hz : (popPage s true p).ppRef p = 0 :=
      (h.popPage hq true).balanced.hand_zero (.inr rfl)
    simp only [pageAlloc,hq,hpa,bind,Option.bind,hpop,hins]
    split
    · exact ⟨_,_,rfl⟩
    simp only [show (-E_NO_MEM : Int) < 0 by decide,if_true,hz,pageFree]
    exact ⟨_,_,rfl⟩

lemma sysPageUnmap_returns (h : Inv K NoHand s) (hc : s.Live c) {va : Word}
    (hva : ¬BadVa va) : ∃ s', s.sysPageUnmap c 0 va = some (0,s') := by
  have hself : s.envid2env c 0 true = some c := by simp [envid2env]
  unfold sysPageUnmap
  simp only [hself,if_neg hva]
  have hrem := pageRemove_eq h hc (lt_of_not_badVa hva)
  simp only [pgdir] at hrem
  exact ⟨_,by rw [hrem]; rfl⟩

lemma userStore_returns (h : Inv K NoHand s) (hc : s.Live c) {va v w : Word} (hva : va < UTOP)
    (hw : s.pte c (PPN va) = some w) (hu : UserStorable w) :
    s.userStore (s.pgdir c) va v = some (s.setWord (PPN w) (va.toNat%PGSIZE/4) v) := by
  obtain ⟨hp,hpte,_⟩ := pte_some hw
  rw [← PDX_eq] at hp hpte
  rw [← PTX_eq] at hpte
  have hpde := h.pde_word c (PDX va) hc (PDX_lt_NUPDE hva) hp
  have hdir : UserStorable (s.pde c (PDX va)) := by
    rw [UserStorable,hpde,BitVec.or_assoc,BitVec.or_assoc,pte_and (by decide)]
    decide
  have htarget : s.storeTarget (s.pgdir c) va true = some (PPN w) := by
    rw [storeTarget_user]
    change (if UserStorable (s.pde c (PDX va)) ∧ UserStorable (s.mem (PPN (s.pde c (PDX va))) (PTX va))
      then some (PPN (s.mem (PPN (s.pde c (PDX va))) (PTX va))) else none) = _
    rw [hpte,if_pos ⟨hdir,hu⟩]
  rw [userStore,htarget]
  rfl

end calls

section laws

variable {K : Finset Nat} {s s' : Kern} {e : Nat} {p f : Nat}

lemma arena_lt (h : InArena p) : p < NUPAGE ∧ p ≠ xstackPage ∧ p ≠ stackPage ∧ p ≠ tempPage := by
  rw [show NUPAGE = 977920 from rfl,show xstackPage = 977919 from rfl,
    show stackPage = 977917 from rfl,show tempPage = 2047 from rfl]
  omega

lemma heapEntry {cont : Word} (hf : f < 2^20) (hc : cont = 0 ∨ cont = PTE_CONTINUED) : PPN (entry
    f (PTE_P|||PTE_U|||PTE_W|||cont)) = f ∧ UserStorable (entry f (PTE_P|||PTE_U|||PTE_W|||cont)) ∧
    entry f (PTE_P|||PTE_U|||PTE_W|||cont)&&&PTE_CONTINUED = cont := by
  have hlow : LowBits (PTE_P|||PTE_U|||PTE_W|||cont) := by
    rcases hc with rfl | rfl <;> decide
  have heq : entry f (PTE_P|||PTE_U|||PTE_W|||cont) =
      page2pa f|||(PTE_P|||PTE_U|||PTE_W|||cont|||PTE_P) := by rw [Event.entry,BitVec.or_assoc]
  rw [UserStorable,heq,pte_and (by decide),pte_and (by decide)]
  refine ⟨PPN_pte hf (lowBits_or hlow lowBits_PTE_P),?_,?_⟩
  · rcases hc with rfl | rfl <;> decide
  rcases hc with rfl | rfl <;> decide

lemma HeapSpace.fewer (h : HeapSpace K e s) (hinv : Inv K NoHand s') (hlive : s'.Live e)
    (hsub : ∀ n w, n < NUPAGE → s'.pte e n = some w → s.pte e n = some w) : HeapSpace K e s' where
  inv := hinv
  live := hlive
  alone :=
    { xstack := fun n w x hn hx hw => h.alone.xstack n w x hn (hsub _ _ (by decide) hx) (hsub _ _ hn hw)
      stack := fun n w x hn hx hw => h.alone.stack n w x hn (hsub _ _ (by decide) hx)
        (hsub _ _ (hn.trans (by decide)) hw)
      shared := fun n m w x hn hm hw hwr hsh hx => h.alone.shared n m w x hn hm (hsub _ _ hn hw) hwr hsh
        (hsub _ _ hm hx) }
  pages p w hp hw := by
    obtain ⟨hu,hone⟩ := h.pages p w hp (hsub p w (arena_lt hp).1 hw)
    exact ⟨hu,fun m x hm hx => hone m x hm (hsub m x hm hx)⟩

lemma HeapSpace.fresh {w : Word} (h : HeapSpace K e s) (hp : InArena p) (hf : s.Unmapped f) (hw
    : PPN w = f) (hu : UserStorable w) (ha : Assigns K s s' e p (some w)) : HeapSpace K e s' := by
  have hpte : ∀ n x, n < NUPAGE → s'.pte e n = some x →
      n = p ∧ x = w ∨ n ≠ p ∧ s.pte e n = some x ∧ PPN x ≠ f := by
    intro n x hn hx
    rw [ha.pte e n h.live hn] at hx
    by_cases hnp : n = p
    · rw [if_pos ⟨rfl,hnp⟩] at hx
      exact .inl ⟨hnp,(some.inj hx).symm⟩
    rw [if_neg fun hc => hnp hc.2] at hx
    exact .inr ⟨hnp,hx,hf e n x h.live hn hx⟩
  obtain ⟨_,hpx,hps,_⟩ := arena_lt hp
  -- Two pages of one frame are both the new one or both old.
  have hboth : ∀ n m x y, n < NUPAGE → m < NUPAGE → s'.pte e n = some x → s'.pte e m = some y →
      PPN x = PPN y → n = p ∧ m = p ∨ n ≠ p ∧ s.pte e n = some x ∧ s.pte e m = some y := by
    intro n m x y hn hm hx hy hxy
    obtain ⟨hnp,rfl⟩ | ⟨hnp,hx',hxf⟩ := hpte n x hn hx
    · obtain ⟨hmp,_⟩ | ⟨_,_,hyf⟩ := hpte m y hm hy
      · exact .inl ⟨hnp,hmp⟩
      exact absurd (hxy.symm.trans hw) hyf
    obtain ⟨_,rfl⟩ | ⟨_,hy',_⟩ := hpte m y hm hy
    · exact absurd (hxy.trans hw) hxf
    exact .inr ⟨hnp,hx',hy'⟩
  refine ⟨ha.inv,ha.live e h.live,⟨?_,?_,?_⟩,?_⟩
  · intro n y x hn hx hy hfr
    obtain ⟨_,hc⟩ | ⟨_,hy',hx'⟩ := hboth n xstackPage y x hn (by decide) hy hx hfr
    · exact absurd hc.symm hpx
    exact h.alone.xstack n y x hn hx' hy' hfr
  · intro n y x hn hx hy hfr
    obtain ⟨_,hc⟩ | ⟨_,hy',hx'⟩ := hboth n stackPage y x (hn.trans (by decide)) (by decide) hy hx hfr
    · exact absurd hc.symm hps
    exact h.alone.stack n y x hn hx' hy' hfr
  · intro n m y x hn hm hy hwr hsh hx hfr
    obtain ⟨rfl,rfl⟩ | ⟨_,hx',hy'⟩ := hboth m n x y hm hn hx hy hfr
    · rw [hx] at hy
      cases hy
      exact hsh
    exact h.alone.shared n m y x hn hm hy' hwr hsh hx' hfr
  intro q y hq hy
  have hqn := (arena_lt hq).1
  refine ⟨?_,fun m x hm hx hfr => ?_⟩
  · obtain ⟨_,rfl⟩ | ⟨_,hy',_⟩ := hpte q y hqn hy
    · exact hu
    exact (h.pages q y hq hy').1
  obtain ⟨rfl,rfl⟩ | ⟨_,hx',hy'⟩ := hboth m q x y hm hqn hx hy hfr
  · rfl
  exact (h.pages q y hq hy').2 m x hm hx' hfr

lemma samePages_scrub (h : Inv K NoHand s) (hok : Ok s (.scrub p)) :
    SamePages K s (Event.apply (.scrub p) s) where
  inv := h.event hok
  live _ hy := hy
  pde y d hy hd hp := by
    rw [(sameSpace h hok hy (by simp [env])).pde d hd]
    exact hp
  pte y m hy hm := (sameSpace h hok hy (by simp [env])).pte m hm
  mem _ _ _ hy hm hw := sameContents h hok (by simp) hy hm hw

lemma elsewhere_of {P : Nat → Prop}
    (hpte : ∀ q, q < NUPAGE → ¬P q → s'.pte e q = s.pte e q)
    (hmem : ∀ m w, m < NUPAGE → s.pte e m = some w → s'.mem (PPN w) = s.mem (PPN w)) :
    (kernOps e).Elsewhere s s' P where
  vpt q hq hn := hpte q (arena_lt hq).1 hn
  load q hq hn := by
    have hlt := (arena_lt hq).1
    simp only [kernOps,PPN_countAt (show q < 2^20 by omega),hpte q hlt hn]
    cases hw : s.pte e q with
    | none => rfl
    | some w => simp only [map_some,hmem q w hlt hw]

lemma countAt_of_last {a : Word} {q : Nat} (hal : a.toNat%4 = 0) (hq : q = PPN a)
    (hi : a.toNat%PGSIZE/4 = 1023) : countAt q = a := by
  have hlt := a.isLt
  rw [PPN_eq] at hq
  rw [PGSIZE_eq] at hi
  apply eq_of_toNat_eq
  rw [countAt_toNat (by omega)]
  omega

lemma good_page {va : Word} (hva : va.toNat = 4096*p) (hp : InArena p) : ¬BadVa va := by
  rw [BadVa,le_def,hva,show UTOP.toNat = 4005560320 from rfl,PGSIZE_eq]
  omega

lemma kernOps_lawful : (kernOps e).Lawful (HeapSpace K e) where
  alloc := by
    intro _ s va p cont h hva hp hnone hcont
    obtain rfl := PPN_of_page hva
    have hperm : ¬BadPerm (PTE_P|||PTE_U|||PTE_W|||cont) := by
      rcases hcont with rfl | rfl <;> decide
    obtain ⟨r,s1,hs1⟩ := sysPageAlloc_returns h.inv h.live hperm (good_page hva hp)
    refine ⟨r,s1,hs1,?_⟩
    have failed : SamePages K s s1 → r < 0 → HeapSpace K e s1 ∧
        (kernOps e).Elsewhere s s1 (· = PPN va) ∧ (kernOps e).Logs s s1 (fun _ => False) ∧
        if r < 0 then (kernOps e).vpt s1 (PPN va) = none
        else ∃ w, (kernOps e).vpt s1 (PPN va) = some w ∧ w&&&PTE_CONTINUED = cont := by
      intro hsame hr
      refine ⟨h.fewer hsame.inv (hsame.live e h.live) fun n w hn hw => ?_,
        elsewhere_of (fun q hq _ => hsame.pte e q h.live hq)
          (fun m w hm hw => hsame.mem e m w h.live hm hw),⟨[],rfl,by simp⟩,?_⟩
      · rwa [hsame.pte e n h.live hn] at hw
      rw [if_pos hr]
      exact (hsame.pte e _ h.live (arena_lt hp).1).trans hnone
    obtain ⟨hr,rfl | ⟨p,hok,rfl⟩⟩ | ⟨rfl,_⟩ := sysPageAlloc_spec h.inv h.live hs1
    · exact failed (.refl h.inv) hr
    · exact failed (samePages_scrub h.inv hok) hr
    obtain ⟨e',f,he',hf,hflt,_,_,ha⟩ := sysPageAlloc_assigns h.inv h.live hs1
    obtain rfl := envid2env_zero he'
    obtain ⟨hfr,hu,hflag⟩ := heapEntry hflt hcont
    refine ⟨h.fresh hp hf hfr hu ha,elsewhere_of (fun q hq hne => ?_)
      (fun m w hm hw => ha.mem _ m w h.live hm hw),⟨[],rfl,by simp⟩,?_⟩
    · rw [ha.pte _ q h.live hq,if_neg fun hc => hne hc.2]
    rw [if_neg (Int.lt_irrefl 0)]
    refine ⟨_,?_,hflag⟩
    change s1.pte _ _ = _
    rw [ha.pte _ _ h.live (arena_lt hp).1,if_pos ⟨rfl,rfl⟩]
  unmap := by
    intro s va p h hva hp
    obtain rfl := PPN_of_page hva
    obtain ⟨s1,hs1⟩ := sysPageUnmap_returns h.inv h.live (good_page hva hp)
    obtain ⟨_,ha⟩ := sysPageUnmap_assigns h.inv h.live hs1
    refine ⟨0,s1,hs1,h.fewer ha.inv (ha.live e h.live) fun n w hn hw => ?_,
      elsewhere_of (fun q hq hne => ?_) (fun m w hm hw => ha.mem e m w h.live hm hw),
      ⟨[],rfl,by simp⟩,?_⟩
    · rw [ha.pte e n h.live hn] at hw
      split at hw
      · cases hw
      exact hw
    · rw [ha.pte e q h.live hq,if_neg fun hc => hne hc.2]
    change s1.pte e _ = _
    rw [ha.pte e _ h.live (arena_lt hp).1,if_pos ⟨rfl,rfl⟩]
  store := by
    intro s a w h hp hal hm
    obtain ⟨w0,hw0⟩ := ne_none_iff_exists'.mp hm
    change s.pte e (PPN a) = some w0 at hw0
    obtain ⟨hu,hone⟩ := h.pages _ w0 hp hw0
    have hlt := (arena_lt hp).1
    have ha : a < UTOP := by
      rw [PPN_eq] at hp
      rw [lt_def,show UTOP.toNat = 4005560320 from rfl]
      omega
    have hs := userStore_returns (v := w) h.inv h.live ha hw0 hu
    obtain ⟨_,w1,hw1,_,hmem,hinv,hlive,_,hpte⟩ := userStore_word h.inv h.live hs
    obtain rfl := mem_unique hw0 hw1
    generalize s.setWord (PPN w0) (a.toNat%PGSIZE/4) w = s1 at hs hmem hinv hlive hpte
    refine ⟨s1,hs,h.fewer hinv (hlive e h.live) fun n x hn hx => ?_,
      fun q hq => hpte e q h.live (arena_lt hq).1,⟨[],rfl,by simp⟩,fun q hq => ?_⟩
    · rwa [hpte e n h.live hn] at hx
    have hqn := (arena_lt hq).1
    have hcnt := countAt_toNat (show q < 2^20 by omega)
    simp only [kernOps,PPN_countAt (show q < 2^20 by omega),hpte e q h.live hqn,hmem]
    have hidx : (countAt q).toNat%PGSIZE/4 = 1023 := by
      rw [hcnt,PGSIZE_eq]
      omega
    by_cases hqa : countAt q = a
    · have hpage : PPN a = q := by rw [← hqa,PPN_countAt (by omega)]
      rw [hpage] at hw0
      rw [if_pos hqa,hw0,map_some,hqa,set_self]
    rw [if_neg hqa]
    cases hx : s.pte e q with
    | none => rfl
    | some x =>
      refine congrArg some ?_
      by_cases hframe : PPN x = PPN w0
      · have hpage := hone q x hqn hx hframe
        refine set_index _ _ _ _ fun hi => hqa ?_
        rw [hidx] at hi
        exact countAt_of_last hal hpage hi.symm
      exact congrFun (set_frame _ _ _ hframe) _

lemma HeapSpace.start (h : Inv K NoHand s) (he : s.Live e) (hs : s.Standalone e)
    (hnone : ∀ q, InArena q → s.pte e q = none) : HeapSpace K e s where
  inv := h
  live := he
  alone := hs
  pages p w hp hw := by
    rw [hnone p hp] at hw
    cases hw

end laws

lemma soleRun_arena {s : Kern} (hs : execAll soleRun (bootKern 32) = some s) :
    ∀ q, InArena q → s.pte 0 q = none := by
  intro q hq
  obtain ⟨hlt,_,hne,_⟩ := arena_lt hq
  cases hw : s.pte 0 q with
  | none => rfl
  | some w => exact absurd ((soleRun_pages hs).2.2 q w hlt hw).1 hne

/-- After a run of `malloc` and `free` without a mistake, parent and child of a `fork` read in the
blocks what was there before. -/
theorem heap_private {K : Finset Nat} {s : Kern} {e z : Nat} {p : Prog Kern} {b : Block}
    {a envid : Word} {f₁ f₂ : Family} (h : Reachable K s) (he : s.Live e) (hs : s.Standalone e)
    (hnone : ∀ q, InArena q → s.pte e q = none)
    (hrun : Runs (kernOps e) (Sensible (kernOps e)) (.start s) p)
    (hb : b ∈ p.live) (hsmall : b.size+4 ≤ PGSIZE) (ha : b.Has a.toNat)
    (hfork : Later (fun y => y = e ∨ y = ENVX envid) a (start p.heap.space e) f₁)
    (hret : f₁.proc e = .fork envid .ret) (hz : z = e ∨ z = ENVX envid)
    (hlater : Later (· = z) a f₁ f₂) :
    f₂.reads z a = (start p.heap.space e).reads e a ∧ f₂.reads z a ≠ none := by
  obtain ⟨hW,extra,hi,_⟩ := hrun.intact kernOps_lawful (.start h.good.inv he hs hnone) hnone
    fun _ _ hc => hc.2
  have hn := hrun.sizes rfl b hb
  have hbp := hi.placed b hb
  have hon : b.On (PPN a) := by
    rw [PPN_eq]
    exact ha.on hn
  have hin := hbp.inArena hon
  -- A block of less than a page starts in the page that counts it.
  have htail : PPN a = b.tail := by
    by_contra hne
    have hlt : b.head < b.tail := by
      have := hon.1
      have := hon.2
      omega
    have h0 := hbp.start hlt
    have hhead : b.addr.toNat/4096 = b.head := (PPN_eq _).symm
    have hstop : b.tail = (b.addr.toNat+b.size)/4096 := rfl
    rw [PGSIZE_eq] at hsmall
    omega
  obtain ⟨w,hw,hsh⟩ := hbp.last
  rw [← htail] at hw
  obtain ⟨hlt,hx,_,ht⟩ := arena_lt hin
  have hval := fork_values hW.inv hW.live hW.alone hlt ht hx hw hsh hfork hret hz hlater
  refine ⟨?_,by rw [hval]; exact some_ne_none _⟩
  change p.heap.space.pte e (PPN a) = some w at hw
  rw [hval,reads,show (start p.heap.space e).kern = p.heap.space from rfl,hw]
  rfl

theorem heap_private_word : ∃ (p : Prog Kern) (f : Family), p.live = [⟨0x8000000,100⟩] ∧
    f.proc 0 = .fork 0x1001 .ret ∧ f.proc 1 = .user ∧
    f.reads 0 0x8000004 = some 7 ∧ f.reads 1 0x8000004 = some 7 := by
  have hrun : ((execAll soleRun (bootKern 32)).bind fun s =>
      ((Prog.start s).execAll (kernOps 0) () (Sensible (kernOps 0))
        [.malloc 100,.write 0x8000004 7]).bind fun p =>
      (p.heap.space.forkOnce 0 3014 0x800100).map fun q =>
        decide (p.live = [⟨0x8000000,100⟩] ∧ BitVec.ofInt 32 q.1 = 0x1001 ∧
          (kernOps 0).load p.heap.space 0x8000004 = some 7)) = some true := by decide +kernel
  obtain ⟨s,hs,hrun⟩ := of_bind hrun
  obtain ⟨p,hp,hrun⟩ := of_bind hrun
  obtain ⟨⟨r,t⟩,hfork,hlive,hr,hload⟩ := of_map_decide hrun
  obtain ⟨hreach,hl,_⟩ := soleRun_pages hs
  have hpriv : ∀ {z : Nat} {f : Family}, (start p.heap.space 0).Quiet f →
      f.proc 0 = .fork 0x1001 .ret → z = 0 ∨ z = 1 → f.reads z 0x8000004 = some 7 := by
    intro z f hq hret hz
    rw [← hload]
    exact (heap_private (b := ⟨0x8000000,100⟩) hreach hl (soleRun_standalone hs) (soleRun_arena hs)
      (Runs.execAll _ .start hp) (by simp [hlive]) (by decide) ⟨by decide,by decide⟩ (.quiet hq) hret
      hz .refl).1
  obtain ⟨f,hq,rfl,_,h0,h1⟩ := Family.Quiet.forkOnce hfork (by rw [hr]; decide)
  rw [hr] at h0 h1
  exact ⟨p,f,hlive,h0,h1,hpriv hq h0 (.inl rfl),hpriv hq h0 (.inr rfl)⟩

theorem heap_shared : ∃ (s : Kern) (p : Prog Kern) (f₁ f₂ : Family), Reachable {0} s ∧ s.Live 0 ∧
    s.Standalone 0 ∧ (∀ q, InArena q → s.pte 0 q = none) ∧ Runs (kernOps 0) (Sensible (kernOps 0))
    (.start s) p ∧ p.live = [⟨0x8000000,5000⟩] ∧ Later (fun y => y = 0 ∨ y = 1) 0x8000000
    (start p.heap.space 0) f₁ ∧ f₁.proc 0 = .fork 0x1001 .ret ∧ f₁.reads 0 0x8000000 = some 7 ∧
    Later (· = 0) 0x8000000 f₁ f₂ ∧ f₂.reads 0 0x8000000 = some 42 := by
  have hrun : ((execAll soleRun (bootKern 32)).bind fun s =>
      ((Prog.start s).execAll (kernOps 0) () (Sensible (kernOps 0))
        [.malloc 5000,.write 0x8000000 7]).bind fun p =>
      (p.heap.space.forkOnce 0 3016 0x800100).bind fun q =>
      (q.2.pte 1 32768).bind fun _ =>
      (q.2.userStore (q.2.pgdir 1) 0x8000000 42).map fun t =>
        decide (p.live = [⟨0x8000000,5000⟩] ∧ BitVec.ofInt 32 q.1 = 0x1001 ∧
          (kernOps 0).load q.2 0x8000000 = some 7 ∧ (kernOps 0).load t 0x8000000 = some 42)) =
        some true := by decide +kernel
  obtain ⟨s,hs,hrun⟩ := of_bind hrun
  obtain ⟨p,hp,hrun⟩ := of_bind hrun
  obtain ⟨⟨r,u⟩,hfork,hrun⟩ := of_bind hrun
  obtain ⟨w,hw,hrun⟩ := of_bind hrun
  obtain ⟨t,ht,hlive,hr,hbefore,hafter⟩ := of_map_decide hrun
  obtain ⟨hreach,hl,_⟩ := soleRun_pages hs
  obtain ⟨f,hq,rfl,hfault,h0,h1⟩ := Family.Quiet.forkOnce hfork (by rw [hr]; decide)
  rw [hr] at h0 h1
  have hmay : f.MayStore 1 (PPN 0x8000000) := by
    unfold Family.MayStore
    rw [hfault 1,show f.proc 1 = .user from h1]
    trivial
  have hstore := ForkStep.store hmay (by decide) hw ht
  refine ⟨s,p,f,_,hreach,hl,soleRun_standalone hs,soleRun_arena hs,Runs.execAll _ .start hp,hlive,
    .quiet hq,h0,hbefore,Later.refl.step hstore fun z hz ho => ?_,hafter⟩
  obtain ⟨_,_,_,_,hlab,_⟩ := ho
  subst hz
  exact absurd (Label.write.inj hlab).1 (by decide)

end KludgeOS.Malloc
