import KludgeOS.Fork

/-!
The steps of a family are steps of copy-on-write address spaces.
-/

namespace KludgeOS
open CopyOnWrite (Label takenOver Entry State)
open CopyOnWrite.State (MayWrite setRole role_setRole)
open BitVec (ofNat ofInt)
open Family (setProc advance MayStore)
open BitVec Kern Option Event Function Proc

/-- Where `fork` can be. -/
def ForkPc.Ok : ForkPc → Prop
  | .vpd i => i ≤ NUPDE
  | .vpt i j => i < NUPDE ∧ j ≤ NPTENTRIES
  | .duppage i j => i < NUPDE ∧ j < NPTENTRIES ∧ i*NPDENTRIES+j ≠ xstackPage
  | .dupChild i j | .dupSelf i j | .dupKeep i j _ => i < NUPDE ∧ j < NPTENTRIES
  | _ => True

structure FamilyInv (K : Finset Nat) (f : Family) : Prop where
  kern : Inv K NoHand f.kern
  live : ∀ y, f.proc y ≠ .outside → f.kern.Live y
  fork : ∀ y envid pc, f.proc y = .fork envid pc → envid ≠ 0 ∧ pc.Ok
  cow : CopyOnWrite.Inv forkLayout f.abs

lemma PPN_pageVa {n : Nat} (h : n < NUPAGE) : PPN (pageVa n) = n := by
  have h' : n < 977920 := h
  rw [PPN_eq,pageVa,toNat_ofNat,PGSIZE_eq]
  omega

lemma page_lt {i j : Nat} (hi : i < NUPDE) (hj : j < NPTENTRIES) : i*NPDENTRIES+j < NUPAGE := by
  have h1 : i < 955 := hi
  have h2 : j < 1024 := hj
  rw [show NPDENTRIES = 1024 from rfl,show NUPAGE = 977920 from rfl]
  omega

variable {f : Nat} {perm m : Word}

lemma entry_and (hm : LowBits m) (hp : PTE_P&&&m = 0) : entry f perm&&&m = perm&&&m := by
  rw [entry,or_and,hp,pte_and hm]
  simp

lemma entryOf_entry (hf : f < 2^20) (hp : LowBits perm) : entryOf (entry f perm) =
    ⟨f,decide (perm&&&PTE_W ≠ 0),decide (perm&&&PTE_COW ≠ 0), decide (perm&&&PTE_SHARE ≠ 0)⟩ := by
  rw [entryOf,entry_and (by decide) (by decide),entry_and (by decide) (by decide),
    entry_and (by decide) (by decide),entry,BitVec.or_assoc,
    PPN_pte hf (lowBits_or hp lowBits_PTE_P)]

lemma user_and {w : Word} (hm : PTE_USER&&&m = m) : w&&&PTE_USER&&&m = w&&&m := by
  rw [BitVec.and_assoc,hm]

section sim

variable {K : Finset Nat} {f f' : Family} {s : Kern}
  {y n e fr c k i j : Nat} {w envid x a b perm func : Word} {v : Int} {s s' : Kern}
  {pc pc' : ForkPc}

lemma space_of_pte (hy : f.proc y ≠ .outside) (hn : n < NUPAGE) (hw : f.kern.pte y n = some w) :
    f.abs.space y n = some (entryOf w) := by
  have hc : ¬(f.proc y = .outside ∨ NUPAGE ≤ n) := by
    rintro (hc|hc)
    · exact hy hc
    omega
  simp only [Family.abs,if_neg hc,hw,map_some]

lemma pte_of_space {e : Entry} (he : f.abs.space y n = some e) :
    f.proc y ≠ .outside ∧ n < NUPAGE ∧ ∃ w, f.kern.pte y n = some w ∧ e = entryOf w := by
  simp only [Family.abs] at he
  split at he
  · cases he
  rename_i hc
  obtain ⟨w,hw,rfl⟩ := map_eq_some_iff.mp he
  exact ⟨fun h => hc (.inl h),Nat.lt_of_not_le fun h => hc (.inr h),w,hw,rfl⟩

lemma maps_iff : f.abs.Maps y n fr ↔
    f.proc y ≠ .outside ∧ n < NUPAGE ∧ ∃ w, f.kern.pte y n = some w ∧ PPN w = fr := by
  constructor
  · rintro ⟨e,he,hfr⟩
    obtain ⟨hy,hn,w,hw,rfl⟩ := pte_of_space he
    exact ⟨hy,hn,w,hw,hfr⟩
  rintro ⟨hy,hn,w,hw,hfr⟩
  exact ⟨entryOf w,space_of_pte hy hn hw,hfr⟩

lemma unused_of_unmapped (hl : ∀ y, f.proc y ≠ .outside → f.kern.Live y) (hu : f.kern.Unmapped fr) :
    f.abs.Unused fr := by
  intro y n hm
  obtain ⟨hy,hn,w,hw,hfr⟩ := maps_iff.mp hm
  exact hu y n w (hl y hy) hn hw hfr

lemma Assigns.keeps {v : Option Word} (h : Assigns K f.kern s e n v)
    (hl : ∀ y, f.proc y ≠ .outside → f.kern.Live y) : f.abs.Keeps s.mem := by
  intro y m fr hm
  obtain ⟨hy,hn,w,hw,rfl⟩ := maps_iff.mp hm
  exact h.mem y m w (hl y hy) hn hw

lemma SamePages.keeps (h : SamePages K f.kern s)
    (hl : ∀ y, f.proc y ≠ .outside → f.kern.Live y) : f.abs.Keeps s.mem := by
  intro y m fr hm
  obtain ⟨hy,hn,w,hw,rfl⟩ := maps_iff.mp hm
  exact h.mem y m w (hl y hy) hn hw

lemma SamePages.space (h : SamePages K f.kern s) (hl : ∀ y, f.proc y ≠ .outside → f.kern.Live y)
    : {f with kern := s}.abs.space = f.abs.space := by
  funext y m
  simp only [Family.abs]
  split
  · rfl
  rename_i hc
  rw [h.pte y m (hl y fun h => hc (.inl h)) (Nat.lt_of_not_le fun h => hc (.inr h))]

lemma Assigns.space (h : Assigns K f.kern s e n (some w))
    (hl : ∀ y, f.proc y ≠ .outside → f.kern.Live y) (he : f.proc e ≠ .outside) (hn : n < NUPAGE) :
    {f with kern := s}.abs.space = (f.abs.assign e n (entryOf w)).space := by
  funext y m
  rw [CopyOnWrite.State.space_assign]
  simp only [Family.abs]
  by_cases hc : y = e ∧ m = n
  · obtain ⟨rfl,rfl⟩ := hc
    have hno : ¬(f.proc y = .outside ∨ NUPAGE ≤ m) := by
      rintro (hc|hc)
      · exact he hc
      omega
    rw [if_neg hno,if_pos ⟨rfl,rfl⟩,h.pte y m (hl y he) hn,if_pos ⟨rfl,rfl⟩]
    rfl
  rw [if_neg hc]
  split
  · rfl
  rename_i hno
  rw [h.pte y m (hl y fun h => hno (.inl h)) (Nat.lt_of_not_le fun h => hno (.inr h)),if_neg hc]

lemma mayWrite_of_mayStore (h : f.MayStore e n) : f.abs.MayWrite forkLayout e n := by
  unfold MayStore at h
  unfold MayWrite
  simp only [Family.abs]
  cases hq : f.fault e with
  | some q =>
    simp only [hq] at h ⊢
    exact h
  | none =>
    cases hp : f.proc e with
    | fork envid pc =>
      simp only [hq,hp] at h ⊢
      cases pc with
      | _ => exact h
    | outside =>
      simp only [hq,hp] at h
    | setup =>
      simp only [hq,hp] at h
    | user => trivial
    | called =>
      simp only [hq,hp] at h ⊢
      exact h

lemma space_congr (hp : f'.proc y = .outside ↔ f.proc y = .outside) (hs : f.proc y ≠ .outside →
    n < NUPAGE → f'.kern.pte y n = f.kern.pte y n) : f'.abs.space y n = f.abs.space y n := by
  simp only [Family.abs,hp]
  split
  · rfl
  rename_i hc
  rw [hs (fun h => hc (.inl h)) (Nat.lt_of_not_le fun h => hc (.inr h))]

lemma proc_setup (hy : f.abs.role y = .setup) : f.proc y = .setup := by
  simp only [Family.abs] at hy
  cases hp : f.proc y with
  | fork envid pc =>
    rw [hp] at hy
    cases pc <;> simp [role,ForkPc.role] at hy
  | _ => simp_all [role]

lemma role_ne_outside (h : f.abs.role y ≠ .outside) : f.proc y ≠ .outside := by
  intro hc
  exact h (by simp only [Family.abs,hc,role])

lemma envid2env_zero (h : s.envid2env c 0 true = some e) : e = c := by
  simpa [envid2env] using h.symm

lemma envid2env_ENVX (hne : envid ≠ 0) (h : s.envid2env c envid true = some e) :
    e = ENVX envid := by
  unfold envid2env at h
  rw [if_neg hne] at h
  simp only at h
  split at h
  · cases h
  split at h
  · cases h
  exact (some.inj h).symm

lemma store_simulates {va v : Word} (h : FamilyInv K f) (hm : f.MayStore e (PPN va))
    (hw : f.kern.pte e (PPN va) = some w) (hs : f.kern.userStore (f.kern.pgdir e) va v = some s)
    (he : f.proc e ≠ .outside) : CopyOnWrite.Step forkLayout f.abs (.write e (PPN va))
    {f with kern := s, view := (f.abs.noteStore e (PPN w) (va.toNat%PGSIZE/4) v).view}.abs := by
  obtain ⟨hn,w',hw',hwr,hmem,_,_,_,hpte⟩ := userStore_word h.kern (h.live e he) hs
  obtain rfl := mem_unique hw hw'
  have hstep := CopyOnWrite.Step.store (L := forkLayout) (i := va.toNat%PGSIZE/4) (v := v)
    (mayWrite_of_mayStore hm) (space_of_pte he hn hw) (by simpa [entryOf] using hwr)
  convert hstep using 1
  refine State.ext ?_ ?_ rfl rfl rfl
  · funext y n
    exact space_congr Iff.rfl fun hy hn => hpte y n (h.live y hy) hn
  exact hmem

lemma pgfault_simulates (hm : f.MayStore e n) (hf : f.fault e = none) (hn : n < NUPAGE)
    (hw : f.kern.pte e n = some w) (hwr : w&&&PTE_W = 0) (hx : f.kern.pte e xstackPage = some x)
    (hxs : UserStorable x) (he : f.proc e ≠ .outside) :
    CopyOnWrite.Step forkLayout f.abs (.write e n) (f.setFault e (some (.alloc n))).abs := by
  refine CopyOnWrite.Step.begin (x := entryOf x) (mayWrite_of_mayStore hm) hf
    (space_of_pte he hn hw) (by simp [entryOf,hwr]) (space_of_pte he (by decide) hx) ?_
  have : x&&&PTE_W = PTE_W := flag_of_and hxs (by decide)
  simp [entryOf,this]
  decide

lemma alloc_simulates (h : FamilyInv K f) (hf : f.fault e = some (.alloc n))
    (hs : f.kern.sysPageAlloc e 0 PFTEMP (PTE_U|||PTE_P|||PTE_W) = some (0,s))
    : (∃ v, Assigns K f.kern s e tempPage (some v)) ∧ CopyOnWrite.Step forkLayout f.abs (.write e n)
    ({f with kern := s}.setFault e (some (.copy n 0))).abs := by
  have he := role_ne_outside (h.cow.roles.faulting hf).1
  obtain ⟨e',fr,he',hu,hfr,hlow,hn,ha⟩ := sysPageAlloc_assigns h.kern (h.live e he) hs
  obtain rfl := envid2env_zero he'
  refine ⟨⟨_,ha⟩,?_⟩
  have hstep := CopyOnWrite.Step.alloc (L := forkLayout) hf (unused_of_unmapped h.live hu)
    (ha.keeps h.live)
  convert hstep using 1
  refine State.ext ?_ rfl rfl rfl rfl
  refine (ha.space h.live he hn).trans ?_
  rw [entryOf_entry hfr hlow]
  rfl

lemma PFTEMP_word (hk : k < 1024)
    : PPN (PFTEMP+ofNat 32 (4*k)) = tempPage ∧ (PFTEMP+ofNat 32 (4*k)).toNat%PGSIZE/4 = k := by
  have h : (PFTEMP+ofNat 32 (4*k)).toNat = 8384512+4*k := by
    rw [toNat_add,toNat_ofNat,show PFTEMP.toNat = 8384512 from rfl]
    omega
  rw [PPN_eq,h,PGSIZE_eq,show tempPage = 2047 from rfl]
  omega

lemma copy_simulates (h : FamilyInv K f) (hf : f.fault e = some (.copy n k)) (hk : k < 1024)
    (hw : f.kern.pte e n = some w) (hs : f.kern.userStore (f.kern.pgdir e) (PFTEMP+ofNat 32 (4*k))
    (f.kern.mem (PPN w) k) = some s) : CopyOnWrite.Step forkLayout f.abs (.write e n)
    ({f with kern := s}.setFault e (some (.copy n (k+1)))).abs := by
  have he := role_ne_outside (h.cow.roles.faulting hf).1
  obtain ⟨hn,x,hx,_,hmem,_,_,_,hpte⟩ := userStore_word h.kern (h.live e he) hs
  obtain ⟨hpage,hword⟩ := PFTEMP_word hk
  rw [hpage] at hn hx
  rw [hword] at hmem
  obtain ⟨_,en,hen⟩ := h.cow.roles.faults e _ hf
  change f.abs.space e n = some en at hen
  obtain ⟨_,hn',w',hw',rfl⟩ := pte_of_space hen
  obtain rfl := mem_unique hw hw'
  have hstep := CopyOnWrite.Step.copy (L := forkLayout) hf hk hen (space_of_pte he hn hx)
  convert hstep using 1
  refine State.ext ?_ ?_ rfl rfl rfl
  · funext y m
    exact space_congr Iff.rfl fun hy hm => hpte y m (h.live y hy) hm
  exact hmem

lemma remap_simulates (h : FamilyInv K f) (hf : f.fault e = some (.copy n 1024))
    (hx : f.kern.pte e tempPage = some x)
    (hs : f.kern.sysPageMap e 0 PFTEMP 0 (pageVa n) (PTE_W|||PTE_U|||PTE_P) = some (0,s)) :
    (∃ v, Assigns K f.kern s e n (some v)) ∧
    CopyOnWrite.Step forkLayout f.abs (.write e n)
      { ({f with kern := s}.setFault e none) with
        view := (f.abs.setView e n ((f.view e n).or
          (if n = tempPage then none else some (f.kern.mem (PPN x))))).view }.abs := by
  have he := role_ne_outside (h.cow.roles.faulting hf).1
  obtain ⟨_,en,hen⟩ := h.cow.roles.faults e _ hf
  obtain ⟨_,hn,_⟩ := pte_of_space hen
  obtain ⟨ed,w,hed,hw,hsn,_,hlow,hfr,ha⟩ := sysPageMap_assigns h.kern (h.live e he) hs
  obtain rfl := envid2env_zero hed
  obtain rfl := mem_unique hx hw
  have hn : n < NUPAGE := hn
  rw [PPN_pageVa hn] at ha
  refine ⟨⟨_,ha⟩,?_⟩
  have hstep := CopyOnWrite.Step.remap (L := forkLayout) hf (space_of_pte he hsn hx)
    (ha.keeps h.live)
  convert hstep using 1
  refine State.ext ?_ rfl rfl rfl rfl
  refine (ha.space h.live he hn).trans ?_
  rw [entryOf_entry hfr hlow]
  rfl

lemma inside {p : Proc} (hp : f.proc e = p) (h : p ≠ .outside) : f.proc e ≠ .outside := hp ▸ h

lemma handler_simulates (h : FamilyInv K f) (hp : f.proc e = .user) (hf : f.fault e = none)
    (hs : f.kern.sysPageAlloc e 0 (UXSTACKTOP-0x1000) (PTE_P|||PTE_W|||PTE_U) = some (0,s)) :
    (∃ v, Assigns K f.kern s e xstackPage (some v)) ∧
    CopyOnWrite.Step forkLayout f.abs .other {f with kern := s}.abs := by
  have he := inside hp (by simp)
  obtain ⟨e',fr,he',hu,hfr,hlow,hn,ha⟩ := sysPageAlloc_assigns h.kern (h.live e he) hs
  obtain rfl := envid2env_zero he'
  refine ⟨⟨_,ha⟩,?_⟩
  have hrun : f.abs.role e' = .run := by simp only [Family.abs,hp,role]
  have hstep := CopyOnWrite.Step.xstack (L := forkLayout) hrun hf (unused_of_unmapped h.live hu)
    (ha.keeps h.live)
  convert hstep using 1
  refine State.ext ?_ rfl rfl rfl rfl
  refine (ha.space h.live he hn).trans ?_
  rw [entryOf_entry hfr hlow]
  rfl

lemma abs_setProc {p : Proc} (he : f.proc e ≠ .outside) (hp : p ≠ .outside) :
    (f.setProc e p).abs = f.abs.setRole e p.role := by
  refine State.ext ?_ rfl ?_ rfl rfl
  · funext y n
    refine space_congr ?_ fun _ _ => rfl
    by_cases hy : y = e
    · subst hy
      simp [setProc,he,hp]
    simp [setProc,hy]
  funext y
  by_cases hy : y = e
  · subst hy
    simp [Family.abs,setProc]
  simp [Family.abs,setProc,hy]

lemma call_simulates (hp : f.proc e = .user) (hf : f.fault e = none)
    (hs : f.kern.storeTarget (f.kern.pgdir e) (USTACKTOP-4) true = some fr) :
    CopyOnWrite.Step forkLayout f.abs .other (f.setProc e .called).abs := by
  have he := inside hp (by simp)
  obtain ⟨w,hw,hwr,_⟩ := storeTarget_pte hs
  rw [show PPN (USTACKTOP-4) = stackPage from by decide] at hw
  rw [abs_setProc he (by simp)]
  refine CopyOnWrite.Step.enter ?_ hf (space_of_pte he (by decide) hw) (by simpa [entryOf] using hwr)
  simp only [Family.abs,hp,role]

lemma exofork_simulates {r : Int} (h : FamilyInv K f) (hp : f.proc e = .called)
    (hf : f.fault e = none) (hs : f.kern.sysExofork e = some (r,s)) (hr : 0 < r) :
    let c := ENVX (ofInt 32 r)
    ofInt 32 r ≠ 0 ∧ s.Live c ∧ SamePages K f.kern s ∧
    CopyOnWrite.Step forkLayout f.abs .other
      (({f with kern := s}.setProc c .setup).setProc e
        (.fork (ofInt 32 r) (.vpd 0))).abs := by
  intro c
  have he := inside hp (by simp)
  obtain ⟨hid,hdead,hlive,hnone,hsame⟩ := sysExofork_child h.kern (h.live e he) hr hs
  have hc : f.proc c = .outside := by
    by_cases hc : f.proc c = .outside
    · exact hc
    exact absurd (h.live c hc) hdead
  have hce : e ≠ c := by
    rintro rfl
    exact he hc
  refine ⟨hid,hlive,hsame,?_⟩
  have henter : f.abs.role e = .enter := by simp only [Family.abs,hp,role]
  have hout : f.abs.role c = .outside := by simp only [Family.abs,hc,role]
  have hstep := CopyOnWrite.Step.exofork (L := forkLayout) henter hf hout (hsame.keeps h.live)
  have he' : ({f with kern := s}.setProc c .setup).proc e ≠ .outside := by
    simpa [setProc,hce] using he
  rw [abs_setProc he' (by simp)]
  convert hstep using 1
  refine State.ext ?_ rfl ?_ rfl rfl
  · funext y n
    change ({f with kern := s}.setProc c .setup).abs.space y n = f.abs.space y n
    by_cases hy : y = c
    · subst hy
      by_cases hn : NUPAGE ≤ n
      · simp [Family.abs,hn]
      simp [Family.abs,setProc,hc,hn]
      exact hnone n (by omega)
    refine space_congr ?_ fun hy' hn => hsame.pte y n (h.live y hy') hn
    simp [setProc,hy]
  funext y
  by_cases hye : y = e
  · subst hye
    simp only [setRole,role,ForkPc.role,update_self]
    rfl
  by_cases hyc : y = c
  · subst hyc
    simp [setRole,Family.abs,setProc,hye,role]
  simp [setRole,Family.abs,setProc,hye,hyc]

lemma ok_eq {r : Option (Int × Kern)} (h : ok r pc = some (s,pc')) :
    pc' = pc ∧ ∃ v, r = some (v,s) ∧ ¬v < 0 := by
  obtain ⟨⟨v,t⟩,hr,h⟩ := of_bind h
  simp only at h
  split at h
  · cases h
  rename_i hv
  cases h
  exact ⟨rfl,v,hr,hv⟩

lemma sysPageMap_zero {d g : Word} (h : Inv K NoHand s) (hc : s.Live c)
    (hs : s.sysPageMap c a b d g perm = some (v,s')) (hv : ¬v < 0) : v = 0 := by
  rcases sysPageMap_spec h hc hs with ⟨hr,_⟩ | ⟨hr,_⟩
  · exact absurd hr hv
  exact hr

lemma role_fork (hp : f.proc e = .fork envid pc) : f.abs.role e = pc.role (ENVX envid) := by
  simp only [Family.abs,hp,role]

lemma FamilyInv.maps {d : Word} (h : FamilyInv K f) (he : f.proc e ≠ .outside) (hn : n < NUPAGE)
    (hs : ok (f.kern.sysPageMap e 0 (pageVa n) d (pageVa n) perm) pc = some (s,pc')) :
    pc' = pc ∧ ∃ ed w, f.kern.envid2env e d true = some ed ∧ f.kern.pte e n = some w ∧
      Assigns K f.kern s ed n (some (entry (PPN w) perm)) ∧
      (f.proc ed ≠ .outside → {f with kern := s}.abs.space = (f.abs.assign ed n
        ⟨PPN w,decide (perm&&&PTE_W ≠ 0),decide (perm&&&PTE_COW ≠ 0),
          decide (perm&&&PTE_SHARE ≠ 0)⟩).space) := by
  obtain ⟨rfl,v,hs,hv⟩ := ok_eq hs
  obtain rfl := sysPageMap_zero h.kern (h.live e he) hs hv
  obtain ⟨ed,w,hed,hw,_,_,hlow,hfr,ha⟩ := sysPageMap_assigns h.kern (h.live e he) hs
  rw [PPN_pageVa hn] at hw ha
  refine ⟨rfl,ed,w,hed,hw,ha,fun hc => ?_⟩
  rw [← entryOf_entry hfr hlow]
  exact ha.space h.live hc hn

lemma sysPageAlloc_zero (h : Inv K NoHand s) (hc : s.Live c)
    (hs : s.sysPageAlloc c a b perm = some (v,s')) (hv : ¬v < 0) : v = 0 := by
  rcases sysPageAlloc_spec h hc hs with ⟨hr,_⟩ | ⟨hr,_⟩
  · exact absurd hr hv
  exact hr

lemma skip_simulates {p p' : Nat} (hp : f.proc e = .fork envid pc) (hf : f.fault e = none)
    (hr : pc.role (ENVX envid) = .fork (ENVX envid) p .scan) (hr' : pc'.role (ENVX envid) = .fork
    (ENVX envid) p' .scan) (hle : p ≤ p') (hn : ∀ n, p ≤ n → n < p' → f.kern.pte e n = none ∨ n =
    xstackPage) : CopyOnWrite.Step forkLayout f.abs .other (f.setProc e (.fork envid pc')).abs := by
  have he := inside hp (by simp)
  rw [abs_setProc he (by simp),role,hr']
  refine .skip ?_ hf hle fun n h1 h2 => ?_
  · simp only [Family.abs,hp,role,hr]
  refine (hn n h1 h2).imp_left fun hno => ?_
  simp [Family.abs,hno]

lemma vpd_simulates (hp : f.proc e = .fork envid (.vpd i)) (hf : f.fault e = none)
    (hi : i ≤ NUPDE) (hs : f.kern.forkExec e envid func (.vpd i) = some (s,pc')) : s = f.kern ∧
    pc'.Ok ∧ CopyOnWrite.Step forkLayout f.abs .other (f.setProc e (.fork envid pc')).abs := by
  simp only [forkExec] at hs
  split at hs
  · rename_i hlt
    split at hs
    · cases hs
      refine ⟨rfl,⟨hlt,by decide⟩,?_⟩
      exact skip_simulates hp hf rfl rfl (Nat.le_add_right _ _) fun n h1 h2 => by omega
    rename_i habs
    cases hs
    refine ⟨rfl,hlt,skip_simulates hp hf rfl rfl ?_ fun n h1 h2 => .inl ?_⟩
    · exact Nat.mul_le_mul_right _ (Nat.le_succ i)
    refine pte_of_absent ?_
    have hrow : n/1024 = i := by
      rw [show NPDENTRIES = 1024 from rfl] at h1 h2
      omega
    rw [hrow]
    exact habs
  rename_i hge
  cases hs
  obtain rfl : i = NUPDE := Nat.le_antisymm hi (Nat.le_of_not_lt hge)
  have hN : NUPDE*NPDENTRIES = NUPAGE := by decide
  refine ⟨rfl,trivial,skip_simulates hp hf rfl rfl (Nat.le_of_eq hN) fun n h1 h2 => ?_⟩
  omega

lemma vpt_simulates (hp : f.proc e = .fork envid (.vpt i j)) (hf : f.fault e = none) (hok :
    (ForkPc.vpt i j).Ok) (hs : f.kern.forkExec e envid func (.vpt i j) = some (s,pc')) : s = f.kern
    ∧ pc'.Ok ∧ CopyOnWrite.Step forkLayout f.abs .other (f.setProc e (.fork envid pc')).abs := by
  obtain ⟨hi,hj⟩ := hok
  have hi' : i < 955 := hi
  have hj' : j ≤ 1024 := hj
  have hN : NPDENTRIES = 1024 := rfl
  simp only [forkExec] at hs
  split at hs
  · rename_i hlt
    split at hs
    · split at hs
      · rename_i hx
        cases hs
        rw [show xstackPage = 977919 from rfl] at hx
        refine ⟨rfl,hi,skip_simulates hp hf rfl rfl ?_ fun n h1 h2 => .inr ?_⟩
        · rw [hN]
          omega
        rw [hN] at hx h1 h2
        rw [show xstackPage = 977919 from rfl]
        omega
      rename_i hx
      cases hs
      refine ⟨rfl,⟨hi,hlt,hx⟩,?_⟩
      exact skip_simulates hp hf rfl rfl le_rfl fun n h1 h2 => by omega
    rename_i hno
    cases hs
    refine ⟨rfl,⟨hi,hlt⟩,skip_simulates hp hf rfl rfl (Nat.le_succ _) fun n h1 h2 => .inl ?_⟩
    obtain rfl : n = i*NPDENTRIES+j := by omega
    simpa using hno
  rename_i hge
  cases hs
  have hje : j = 1024 := by
    have : ¬j < 1024 := hge
    omega
  refine ⟨rfl,hi,skip_simulates hp hf rfl rfl ?_ fun n h1 h2 => ?_⟩
  · rw [hN]
    omega
  rw [hN] at h1 h2
  omega

lemma dupCow_iff (w : Word) : DupCow (w&&&PTE_USER) ↔
    (entryOf w).share = false ∧ ((entryOf w).write ∨ (entryOf w).cow) := by
  simp only [DupCow,entryOf]
  rw [user_and (by decide),user_and (by decide),user_and (by decide)]
  simp

lemma duppage_simulates (hp : f.proc e = .fork envid (.duppage i j))
    (hf : f.fault e = none) (hok : (ForkPc.duppage i j).Ok)
    (hs : f.kern.forkExec e envid func (.duppage i j) = some (s,pc')) : s = f.kern ∧
    pc'.Ok ∧ CopyOnWrite.Step forkLayout f.abs .other (f.setProc e (.fork envid pc')).abs := by
  have he := inside hp (by simp)
  obtain ⟨hi,hj,hx⟩ := hok
  simp only [forkExec] at hs
  obtain ⟨w,hw,hs⟩ := of_bind hs
  have hrole : f.abs.role e = .fork (ENVX envid) (i*NPDENTRIES+j) .scan := role_fork hp
  have hlook := CopyOnWrite.Step.look (L := forkLayout) hrole hf hx
    (space_of_pte he (page_lt hi hj) hw)
  split at hs
  · rename_i hc
    cases hs
    refine ⟨rfl,⟨hi,hj⟩,?_⟩
    rw [abs_setProc he (by simp)]
    rw [if_pos ((dupCow_iff w).mp hc)] at hlook
    exact hlook
  rename_i hc
  cases hs
  refine ⟨rfl,⟨hi,hj⟩,?_⟩
  rw [abs_setProc he (by simp)]
  rw [if_neg fun h => hc ((dupCow_iff w).mpr h)] at hlook
  exact hlook

lemma abs_advance (he : f.proc e ≠ .outside) (hpc : pc ≠ .status) :
    (f.advance e envid pc pc' s).abs =
      {f with kern := s, view := (f.advance e envid pc pc' s).view}.abs.setRole e
        (pc'.role (ENVX envid)) := by
  rw [show pc'.role (ENVX envid) = (Proc.fork envid pc').role from rfl]
  refine Eq.trans ?_ (abs_setProc (f := {f with kern := s, view := (f.advance e envid pc pc' s).view})
    he (by simp))
  simp only [advance,setProc,if_neg hpc]

lemma dupChild_simulates (h : FamilyInv K f) (hp : f.proc e = .fork envid (.dupChild i j))
    (hf : f.fault e = none) (hs : f.kern.forkExec e envid func (.dupChild i j) = some (s,pc')) :
    pc' = .dupSelf i j ∧ (∃ y n v, Assigns K f.kern s y n v) ∧
      CopyOnWrite.Step forkLayout f.abs .other (f.advance e envid (.dupChild i j) pc' s).abs := by
  have he := inside hp (by simp)
  obtain ⟨hid,hi,hj⟩ := h.fork e envid _ hp
  have hn := page_lt hi hj
  obtain ⟨rfl,ed,w,hed,hw,ha,hsp⟩ := h.maps he hn hs
  obtain rfl := envid2env_ENVX hid hed
  refine ⟨rfl,⟨_,_,_,ha⟩,?_⟩
  have hrole : f.abs.role e = .fork (ENVX envid) (i*NPDENTRIES+j) .cow := role_fork hp
  have hc := role_ne_outside (f := f) (y := ENVX envid)
    (by rw [(h.cow.roles.fork e _ _ _ hrole).child]; simp)
  have hstep := CopyOnWrite.Step.dupChild (L := forkLayout) hrole hf (space_of_pte he hn hw)
    (ha.keeps h.live)
  rw [abs_advance he (by simp)]
  convert hstep using 1
  exact State.ext (hsp hc) rfl rfl rfl rfl

lemma role_next (c i j : Nat) : (ForkPc.vpt i (j+1)).role c = .fork c (i*NPDENTRIES+j+1) .scan := by
  simp only [ForkPc.role,Nat.add_assoc]

lemma handOver_eq {share : Bool} (hw : f.kern.pte e n = some w) : f.handOver e c n share =
    (f.abs.setView c n (takenOver forkLayout n share (f.kern.mem (PPN w)))).view := by
  simp only [Family.handOver,hw]

section

variable (h : FamilyInv K f)
include h

lemma dupSelf_simulates (hp : f.proc e = .fork envid (.dupSelf i j))
    (hf : f.fault e = none) (hs : f.kern.forkExec e envid func (.dupSelf i j) = some (s,pc')) :
    pc' = .vpt i (j+1) ∧ (∃ y n v, Assigns K f.kern s y n v) ∧
      CopyOnWrite.Step forkLayout f.abs .other (f.advance e envid (.dupSelf i j) pc' s).abs := by
  have he := inside hp (by simp)
  obtain ⟨hid,hi,hj⟩ := h.fork e envid _ hp
  have hn := page_lt hi hj
  obtain ⟨rfl,ed,w,hed,hw,ha,hsp⟩ := h.maps he hn hs
  obtain rfl := envid2env_zero hed
  refine ⟨rfl,⟨_,_,_,ha⟩,?_⟩
  have hrole : f.abs.role ed = .fork (ENVX envid) (i*NPDENTRIES+j) .mid := role_fork hp
  have hstep := CopyOnWrite.Step.dupSelf (L := forkLayout) hrole hf (space_of_pte he hn hw)
    (ha.keeps h.live)
  rw [abs_advance he (by simp),role_next]
  convert hstep using 1
  exact State.ext (hsp he) rfl rfl rfl (handOver_eq hw)

lemma dupKeep_simulates {vpte : Word} (hp : f.proc e = .fork envid (.dupKeep i j vpte))
    (hf : f.fault e = none) (hs : f.kern.forkExec e envid func (.dupKeep i j vpte) = some (s,pc'))
    : pc' = .vpt i (j+1) ∧ (∃ y n v, Assigns K f.kern s y n v) ∧
    CopyOnWrite.Step forkLayout f.abs .other (f.advance e envid (.dupKeep i j vpte) pc' s).abs := by
  have he := inside hp (by simp)
  obtain ⟨hid,hi,hj⟩ := h.fork e envid _ hp
  have hn := page_lt hi hj
  obtain ⟨rfl,ed,w,hed,hw,ha,hsp⟩ := h.maps he hn hs
  obtain rfl := envid2env_ENVX hid hed
  refine ⟨rfl,⟨_,_,_,ha⟩,?_⟩
  have hrole : f.abs.role e = .fork (ENVX envid) (i*NPDENTRIES+j) (.keep (entryOf vpte)) := role_fork hp
  have ho := h.cow.roles.fork e _ _ _ hrole
  have hc := role_ne_outside (f := f) (y := ENVX envid) (by rw [ho.child]; simp)
  -- the entry is still the one that was read
  have hsame : entryOf w = entryOf vpte :=
    some.inj ((space_of_pte he hn hw).symm.trans (ho.keep _ rfl).2.1)
  have hframe : PPN w = PPN vpte := congrArg Entry.frame hsame
  have hstep := CopyOnWrite.Step.dupKeep (L := forkLayout) hrole hf
    (hsame ▸ space_of_pte he hn hw) (ha.keeps h.live)
  rw [abs_advance he (by simp),role_next]
  convert hstep using 1
  refine State.ext ?_ rfl rfl rfl ?_
  · refine (hsp hc).trans ?_
    rw [user_and (by decide),user_and (by decide),user_and (by decide),hframe]
    rfl
  refine (handOver_eq hw).trans ?_
  rw [hframe]
  rfl

lemma xstack_simulates (hp : f.proc e = .fork envid .xstack)
    (hf : f.fault e = none) (hs : f.kern.forkExec e envid func .xstack = some (s,pc')) :
    pc' = .upcall ∧ (∃ y n v, Assigns K f.kern s y n v) ∧
      CopyOnWrite.Step forkLayout f.abs .other (f.advance e envid .xstack pc' s).abs := by
  have he := inside hp (by simp)
  obtain ⟨hid,_⟩ := h.fork e envid _ hp
  simp only [forkExec] at hs
  obtain ⟨rfl,v,hs,hv⟩ := ok_eq hs
  obtain rfl := sysPageAlloc_zero h.kern (h.live e he) hs hv
  obtain ⟨ed,fr,hed,hu,hfr,hlow,hn,ha⟩ := sysPageAlloc_assigns h.kern (h.live e he) hs
  obtain rfl := envid2env_ENVX hid hed
  refine ⟨rfl,⟨_,_,_,ha⟩,?_⟩
  have hrole : f.abs.role e = .fork (ENVX envid) NUPAGE .scan := role_fork hp
  have hc := role_ne_outside (f := f) (y := ENVX envid)
    (by rw [(h.cow.roles.fork e _ _ _ hrole).child]; simp)
  have hstep := CopyOnWrite.Step.childStack (L := forkLayout) hrole hf
    (unused_of_unmapped h.live hu) (ha.keeps h.live)
  rw [abs_advance he (by simp)]
  convert hstep using 1
  refine State.ext ?_ rfl ?_ rfl rfl
  · refine (ha.space h.live hc hn).trans ?_
    rw [entryOf_entry hfr hlow]
    rfl
  funext y
  by_cases hy : y = e
  · subst hy
    simp only [role_setRole,if_true]
    exact hrole.symm
  simp only [role_setRole,if_neg hy]
  rfl

lemma abs_edit (hs : SamePages K f.kern s) (hm : s.mem = f.kern.mem) :
    {f with kern := s}.abs = f.abs :=
  State.ext (hs.space h.live) hm rfl rfl rfl

lemma upcall_simulates (hp : f.proc e = .fork envid .upcall) (hf : f.fault e = none)
    (hs : f.kern.forkExec e envid func .upcall = some (s,pc')) : pc' = .status ∧ SamePages K
    f.kern s ∧ CopyOnWrite.Step forkLayout f.abs .other (f.advance e envid .upcall pc' s).abs := by
  have he := inside hp (by simp)
  simp only [forkExec] at hs
  obtain ⟨rfl,v,hs,_⟩ := ok_eq hs
  obtain ⟨_,rfl⟩ := some_pair_inj hs
  have hsame := sysEnvSetPgfaultUpcall_same (c := e) h.kern envid func
  refine ⟨rfl,hsame,?_⟩
  rw [abs_advance he (by simp)]
  have habs := abs_edit h hsame (sysEnvSetPgfaultUpcall_mem envid func)
  have hrole : f.abs.role e = .fork (ENVX envid) NUPAGE .scan := role_fork hp
  have hstep := CopyOnWrite.Step.skip (L := forkLayout) hrole hf le_rfl
    fun n h1 h2 => absurd h1 (by omega)
  rw [← habs] at hstep ⊢
  exact hstep

lemma status_simulates (hp : f.proc e = .fork envid .status)
    (hf : f.fault e = none) (hs : f.kern.forkExec e envid func .status = some (s,pc')) :
    pc' = .ret ∧ SamePages K f.kern s ∧ f.proc (ENVX envid) = .setup ∧
      CopyOnWrite.Step forkLayout f.abs .other (f.advance e envid .status pc' s).abs := by
  have he := inside hp (by simp)
  simp only [forkExec] at hs
  obtain ⟨rfl,v,hs,_⟩ := ok_eq hs
  obtain ⟨_,rfl⟩ := some_pair_inj hs
  have hsame := sysEnvSetStatus_same h.kern (h.live e he) envid ENV_RUNNABLE
  have hrole : f.abs.role e = .fork (ENVX envid) NUPAGE .scan := role_fork hp
  have ho := h.cow.roles.fork e _ _ _ hrole
  have hcs := proc_setup ho.child
  refine ⟨rfl,hsame,hcs,?_⟩
  have hce := ho.ne hrole
  have hstep := CopyOnWrite.Step.release (L := forkLayout) hrole hf
  convert hstep using 1
  refine State.ext ?_ (sysEnvSetStatus_mem envid ENV_RUNNABLE) ?_ rfl rfl
  · funext y n
    refine space_congr ?_ fun hy hn => hsame.pte y n (h.live y hy) hn
    by_cases hye : y = e
    · subst hye
      simp [advance,he]
    by_cases hyc : y = ENVX envid
    · subst hyc
      simp [advance,hye,hcs]
    simp [advance,hye,hyc]
  funext y
  by_cases hye : y = e
  · subst hye
    simp [setRole,Family.abs,advance,role,ForkPc.role,hce.symm]
  by_cases hyc : y = ENVX envid
  · subst hyc
    simp [setRole,Family.abs,advance,role,hye]
  simp [setRole,Family.abs,advance,hye,hyc]

end

end sim

def Simulates (f : Family) (a : Label) (f' : Family) : Prop :=
  CopyOnWrite.Step forkLayout f.abs a f'.abs ∨ a = .other ∧ f'.abs = f.abs

section run

variable {K : Finset Nat} {f f' : Family} {s : Kern}
  {a : Label} {e : Nat} {envid : Word} {pc pc' : ForkPc}

lemma FamilyInv.of_simulates (h : FamilyInv K f) (hk : Inv K NoHand f'.kern) (hl : ∀ y,
    f'.proc y ≠ .outside → f'.kern.Live y) (hf : ∀ y envid pc, f'.proc y = .fork envid pc →
    envid ≠ 0 ∧ pc.Ok) (hs : Simulates f a f') : FamilyInv K f' ∧ Simulates f a f' := by
  refine ⟨⟨hk,hl,hf,?_⟩,hs⟩
  rcases hs with hs | ⟨_,hs⟩
  · exact h.cow.step hs
  rw [hs]
  exact h.cow

lemma FamilyInv.call (h : FamilyInv K f) (hp : f'.proc = f.proc) (hk : Inv K NoHand f'.kern)
    (hl : ∀ y, f.kern.Live y → f'.kern.Live y) (hs : Simulates f a f') :
    FamilyInv K f' ∧ Simulates f a f' := by
  refine h.of_simulates hk (fun y hy => hl y (h.live y ?_)) ?_ hs
  · rw [← hp]
    exact hy
  rw [hp]
  exact h.fork

lemma FamilyInv.go {p : Proc} (h : FamilyInv K f) (he : f.proc e ≠ .outside)
    (hp : ∀ y, f'.proc y = if y = e then p else f.proc y) (hk : Inv K NoHand f'.kern)
    (hl : ∀ y, f.kern.Live y → f'.kern.Live y)
    (hf : ∀ envid pc, p = .fork envid pc → envid ≠ 0 ∧ pc.Ok) (hs : Simulates f a f') :
    FamilyInv K f' ∧ Simulates f a f' := by
  refine h.of_simulates hk (fun y hy => hl y (h.live y ?_)) (fun y envid pc hy => ?_) hs
  · rw [hp] at hy
    split at hy
    · rename_i hye
      rw [hye]
      exact he
    exact hy
  rw [hp] at hy
  split at hy
  · exact hf envid pc hy
  exact h.fork y envid pc hy

lemma advance_proc (hpc : pc ≠ .status) (y : Nat) :
    (f.advance e envid pc pc' s).proc y = if y = e then .fork envid pc' else f.proc y := by
  simp only [advance,if_neg hpc,update_apply]

lemma FamilyInv.control (h : FamilyInv K f) (hp : f.proc e = .fork envid pc)
    (hno : pc ≠ .status) (hview : (f.advance e envid pc pc' s).view = f.view) (hr : s = f.kern ∧
    pc'.Ok ∧ CopyOnWrite.Step forkLayout f.abs .other (f.setProc e (.fork envid pc')).abs) :
    FamilyInv K (f.advance e envid pc pc' s) ∧ Simulates f .other (f.advance e envid pc pc' s) := by
  obtain ⟨rfl,hok,hstep⟩ := hr
  have heq : f.advance e envid pc pc' f.kern = f.setProc e (.fork envid pc') := by
    have h1 : f.advance e envid pc pc' f.kern =
        {f.setProc e (.fork envid pc') with view := (f.advance e envid pc pc' f.kern).view} := by
      simp only [advance,setProc,if_neg hno]
    rw [h1,hview]
    rfl
  refine h.go (p := .fork envid pc') (by rw [hp]; simp) (advance_proc hno) h.kern (fun _ hy => hy) ?_
    (.inl (by rw [heq]; exact hstep))
  rintro envid' pc'' hq
  cases hq
  exact ⟨(h.fork e envid pc hp).1,hok⟩

lemma FamilyInv.forkStep {func : Word} (h : FamilyInv K f) (hp : f.proc e = .fork envid pc)
    (hf : f.fault e = none) (hs : f.kern.forkExec e envid func pc = some (s,pc')) :
    FamilyInv K (f.advance e envid pc pc' s) ∧ Simulates f .other (f.advance e envid pc pc' s) := by
  have he := inside hp (by simp)
  obtain ⟨hid,hok⟩ := h.fork e envid pc hp
  have call : ∀ {y n v}, pc ≠ .status → pc'.Ok → Assigns K f.kern s y n v →
      CopyOnWrite.Step forkLayout f.abs .other (f.advance e envid pc pc' s).abs →
      FamilyInv K (f.advance e envid pc pc' s) ∧
        Simulates f .other (f.advance e envid pc pc' s) := by
    intro y n v hno hok' ha hstep
    refine h.go (p := .fork envid pc') he (advance_proc hno) ha.inv ha.live ?_ (.inl hstep)
    rintro envid' pc'' hq
    cases hq
    exact ⟨hid,hok'⟩
  cases pc with
  | vpd i => exact h.control hp (by simp) rfl (vpd_simulates hp hf hok hs)
  | vpt i j => exact h.control hp (by simp) rfl (vpt_simulates hp hf hok hs)
  | duppage i j => exact h.control hp (by simp) rfl (duppage_simulates hp hf hok hs)
  | dupChild i j =>
    obtain ⟨rfl,⟨_,_,_,ha⟩,hstep⟩ := dupChild_simulates h hp hf hs
    exact call (by simp) hok ha hstep
  | dupSelf i j =>
    obtain ⟨rfl,⟨_,_,_,ha⟩,hstep⟩ := dupSelf_simulates h hp hf hs
    exact call (by simp) ⟨hok.1,hok.2⟩ ha hstep
  | dupKeep i j vpte =>
    obtain ⟨rfl,⟨_,_,_,ha⟩,hstep⟩ := dupKeep_simulates h hp hf hs
    exact call (by simp) ⟨hok.1,hok.2⟩ ha hstep
  | xstack =>
    obtain ⟨rfl,⟨_,_,_,ha⟩,hstep⟩ := xstack_simulates h hp hf hs
    exact call (by simp) trivial ha hstep
  | upcall =>
    obtain ⟨rfl,hsame,hstep⟩ := upcall_simulates h hp hf hs
    refine h.go (p := .fork envid .status) he (advance_proc (by simp)) hsame.inv hsame.live ?_
      (.inl hstep)
    rintro envid' pc'' hq
    cases hq
    exact ⟨hid,trivial⟩
  | status =>
    obtain ⟨rfl,hsame,hcs,hstep⟩ := status_simulates h hp hf hs
    refine h.of_simulates hsame.inv (fun y hy => hsame.live y (h.live y ?_)) ?_ (.inl hstep)
    · intro hout
      by_cases hye : y = e
      · exact he (hye ▸ hout)
      have hyc : y ≠ ENVX envid := by
        rintro rfl
        rw [hcs] at hout
        cases hout
      simp [advance,hye,hyc] at hy
      exact hy hout
    intro y envid' pc'' hy
    by_cases hye : y = e
    · subst hye
      obtain ⟨rfl,rfl⟩ : envid = envid' ∧ .ret = pc'' := by simpa [advance] using hy
      exact ⟨hid,trivial⟩
    by_cases hyc : y = ENVX envid
    · subst hyc
      simp [advance,hye] at hy
    exact h.fork y envid' pc'' (by simpa [advance,hye,hyc] using hy)
  | ret => simp [forkExec] at hs

lemma MayStore.member {n : Nat} (h : FamilyInv K f) (hm : f.MayStore e n) :
    f.proc e ≠ .outside := by
  cases hq : f.fault e with
  | some q => exact role_ne_outside (h.cow.roles.faulting hq).1
  | none =>
    intro hc
    simp [MayStore,hq,hc] at hm

lemma FamilyInv.step (h : FamilyInv K f) (hs : ForkStep f a f') :
    FamilyInv K f' ∧ Simulates f a f' := by
  cases hs with
  | @store e va v w s hm _ hw hs =>
    have he := MayStore.member h hm
    obtain ⟨_,_,_,_,_,hinv,hlive,_⟩ := userStore_word h.kern (h.live e he) hs
    exact h.call rfl hinv hlive (.inl (store_simulates h hm hw hs he))
  | @pgfault e n w x hm hf hn hw _ hwr _ hx hxs =>
    have he := MayStore.member h hm
    exact h.call rfl h.kern (fun _ hy => hy) (.inl (pgfault_simulates hm hf hn hw hwr hx hxs he))
  | @pgfaultAlloc e n s hf hs =>
    obtain ⟨⟨_,ha⟩,hstep⟩ := alloc_simulates h hf hs
    exact h.call rfl ha.inv ha.live (.inl hstep)
  | @pgfaultCopy e n k w s hf hk hw hs =>
    have he := role_ne_outside (h.cow.roles.faulting hf).1
    obtain ⟨_,_,_,_,_,hinv,hlive,_⟩ := userStore_word h.kern (h.live e he) hs
    exact h.call rfl hinv hlive (.inl (copy_simulates h hf hk hw hs))
  | @pgfaultMap e n x s hf hx hs =>
    obtain ⟨⟨_,ha⟩,hstep⟩ := remap_simulates h hf hx hs
    exact h.call rfl ha.inv ha.live (.inl hstep)
  | @handlerPage e s hp hf hs =>
    obtain ⟨⟨_,ha⟩,hstep⟩ := handler_simulates h hp hf hs
    exact h.call rfl ha.inv ha.live (.inl hstep)
  | @handlerUpcall e func s hp hf hs =>
    have hsame := sysEnvSetPgfaultUpcall_same (c := e) h.kern 0 func
    have hmem := sysEnvSetPgfaultUpcall_mem (s := f.kern) (c := e) 0 func
    rw [hs] at hsame hmem
    exact h.call rfl hsame.inv hsame.live (.inr ⟨rfl,abs_edit h hsame hmem⟩)
  | @call e fr hp hf hs =>
    refine h.go (p := .called) (by rw [hp]; simp) (fun y => ?_) h.kern (fun _ hy => hy) (by simp)
      (.inl (call_simulates hp hf hs))
    simp only [setProc,update_apply]
  | @exofork e r s hp hf hs hr =>
    obtain ⟨hid,hlive,hsame,hstep⟩ := exofork_simulates h hp hf hs hr
    have he := inside hp (by simp)
    refine h.of_simulates hsame.inv (fun y hy => ?_) (fun y envid pc hy => ?_) (.inl hstep)
    · by_cases hyc : y = ENVX (ofInt 32 r)
      · rw [hyc]
        exact hlive
      refine hsame.live y (h.live y fun hout => ?_)
      by_cases hye : y = e
      · exact he (hye ▸ hout)
      simp [setProc,hye,hyc] at hy
      exact hy hout
    by_cases hye : y = e
    · subst hye
      obtain ⟨rfl,rfl⟩ : ofInt 32 r = envid ∧ .vpd 0 = pc := by simpa [setProc] using hy
      exact ⟨hid,Nat.zero_le _⟩
    by_cases hyc : y = ENVX (ofInt 32 r)
    · subst hyc
      simp [setProc,hye] at hy
    exact h.fork y envid pc (by simpa [setProc,hye,hyc] using hy)
  | @fork e envid func pc pc' s hp hf hs => exact h.forkStep hp hf hs
  | @ret e envid hp hf =>
    have he := inside hp (by simp)
    refine h.go (p := .user) he (fun y => ?_) h.kern (fun _ hy => hy) (by simp) (.inl ?_)
    · simp only [setProc,update_apply]
    rw [abs_setProc he (by simp)]
    refine .finish ?_ hf
    simp only [Family.abs,hp,role,ForkPc.role]

end run

end KludgeOS
