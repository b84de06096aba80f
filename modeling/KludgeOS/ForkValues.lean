import KludgeOS.ForkIsolation

/-!
What the two sides of a `fork` read in a page that they do not share: what it held when `fork`
was called, until they write it themselves.
-/

namespace KludgeOS
open Option Function Kern
open CopyOnWrite (Label takenOver State Entry)
open Family (setProc handOver)

/-- The word that `y` reads at `a`. -/
def Family.reads (f : Family) (y : Nat) (a : Word) : Option Word :=
  (f.kern.pte y (PPN a)).map fun w => f.kern.mem (PPN w) (a.toNat%PGSIZE/4)

/-- The step is a store by `z` to the word it reads at `a`. -/
def OwnStore (f : Family) (l : Label) (f' : Family) (z : Nat) (a : Word) : Prop :=
  ∃ va v w x, l = .write z (PPN va) ∧ f.kern.pte z (PPN va) = some w ∧
    f.kern.pte z (PPN a) = some x ∧ PPN w = PPN x ∧ va.toNat%PGSIZE/4 = a.toNat%PGSIZE/4 ∧
    f.kern.userStore (f.kern.pgdir z) va v = some f'.kern

/-- The states after `f` in which nobody in `Z` has stored to the word at `a` since. -/
inductive Later (Z : Nat → Prop) (a : Word) (f : Family) : Family → Prop where
  | refl : Later Z a f f
  | step {g g' : Family} {l : Label} : Later Z a f g → ForkStep g l g' →
      (∀ z, Z z → ¬OwnStore g l g' z a) → Later Z a f g'

lemma Later.quiet {Z : Nat → Prop} {a : Word} {f f' : Family} (h : f.Quiet f') : Later Z a f f' := by
  induction h with
  | refl => exact .refl
  | tail _ hs ih =>
    refine ih.step hs fun z _ ho => ?_
    obtain ⟨_,_,_,_,hl,_⟩ := ho
    contradiction

def Family.Running (f : Family) (z : Nat) : Prop := f.proc z ≠ .outside ∧ f.proc z ≠ .setup

/-- The record of what `z` should read at `a`. -/
def Family.Shows (f : Family) (z : Nat) (a x : Word) : Prop :=
  ∃ v, f.view z (PPN a) = some v ∧ v (a.toNat%PGSIZE/4) = x

def ForkPc.Passed (n : Nat) : ForkPc → Prop
  | .vpd i => n < i*NPDENTRIES
  | .vpt i j | .duppage i j | .dupChild i j | .dupSelf i j | .dupKeep i j _ => n < i*NPDENTRIES+j
  | .xstack | .upcall | .status | .ret => True

section

variable {K : Finset Nat} {f f' : Family} {z : Nat} {a x : Word} {l : Label}

lemma Family.Shows.entry (hinv : FamilyInv K f) (h : f.Shows z a x) :
    PPN a < NUPAGE ∧ PPN a ≠ tempPage ∧ PPN a ≠ xstackPage ∧ ∃ w, f.kern.pte z (PPN a) = some w ∧
      w&&&PTE_SHARE = 0 ∧ f.kern.mem (PPN w) (a.toNat%PGSIZE/4) = x := by
  obtain ⟨v,hv,rfl⟩ := h
  obtain ⟨h1,h2,e,he,hsh,hd⟩ := hinv.cow.views.holds z (PPN a) v hv
  obtain ⟨_,hn,w,hw,rfl⟩ := pte_of_space he
  refine ⟨hn,h1,h2,w,hw,by simpa [entryOf] using hsh,hd _ ?_⟩
  have := Nat.mod_lt a.toNat (show 0 < PGSIZE by decide)
  simp only [PGSIZE,forkLayout] at this ⊢
  omega

lemma Family.Shows.reads (hinv : FamilyInv K f) (h : f.Shows z a x) : f.reads z a = some x := by
  obtain ⟨_,_,_,w,hw,_,hx⟩ := h.entry hinv
  rw [Family.reads,hw,map_some,hx]

variable {e c : Nat} {s s' : Kern} {envid func w : Word} {pc pc' : ForkPc} {f₁ : Family}

lemma exofork_outside {r : Int} (hinv : FamilyInv K f) (hp : f.proc e = .called)
    (hs : f.kern.sysExofork e = some (r,s)) (hr : 0 < r) :
    f.proc (ENVX (BitVec.ofInt 32 r)) = .outside := by
  by_contra hc
  exact (sysExofork_child hinv.kern (hinv.live e (by rw [hp]; simp)) hr hs).2.1 (hinv.live _ hc)

lemma fork_child (hinv : FamilyInv K f) (hp : f.proc e = .fork envid pc) (hpc : pc ≠ .ret) :
    f.proc (ENVX envid) = .setup ∧
      ∀ e' envid' pc', f.proc e' = .fork envid' pc' → pc' ≠ .ret → ENVX envid' = ENVX envid → e' = e := by
  have role : ∀ {e envid pc}, f.proc e = .fork envid pc → pc ≠ .ret →
      ∃ p st, f.abs.role e = .fork (ENVX envid) p st := by
    intro e envid pc hp hpc
    simp only [Family.abs,hp,Proc.role]
    cases pc with
    | ret => exact absurd rfl hpc
    | _ => exact ⟨_,_,rfl⟩
  obtain ⟨p,st,hr⟩ := role hp hpc
  have hok := hinv.cow.roles.fork e _ p st hr
  refine ⟨proc_setup hok.child,fun e' envid' pc' hp' hpc' hx => ?_⟩
  obtain ⟨p',st',hr'⟩ := role hp' hpc'
  rw [hx] at hr'
  exact hok.sole e' p' st' hr'

lemma forkExec_ret {r : Kern × ForkPc} (h : s.forkExec e envid func pc = some r) : pc ≠ .ret := by
  rintro rfl
  cases h

lemma ForkStep.running (hinv : FamilyInv K f) (hs : ForkStep f l f') (hz : f.Running z) :
    f'.Running z := by
  cases hs with
  | store _ _ _ _ => exact hz
  | pgfault _ _ _ _ _ _ _ _ _ => exact hz
  | pgfaultAlloc _ _ => exact hz
  | pgfaultCopy _ _ _ _ => exact hz
  | pgfaultMap _ _ _ => exact hz
  | handlerPage _ _ _ => exact hz
  | handlerUpcall _ _ _ => exact hz
  | @call e _ _ _ _ =>
    by_cases hze : z = e
    · simp [Family.Running,setProc,hze]
    simpa [Family.Running,setProc,hze] using hz
  | @exofork e r s hp _ hs hr =>
    have hout := exofork_outside hinv hp hs hr
    by_cases hze : z = e
    · simp [Family.Running,setProc,hze]
    have hzc : z ≠ ENVX (BitVec.ofInt 32 r) := by
      rintro rfl
      exact hz.1 hout
    simpa [Family.Running,setProc,hze,hzc] using hz
  | @fork e envid func pc pc' s hp _ hx =>
    by_cases hze : z = e
    · simp [Family.Running,Family.advance,hze]
    by_cases hst : pc = .status
    · by_cases hzc : z = ENVX envid
      · subst hzc
        simp [Family.Running,Family.advance,hst,hze]
      simpa [Family.Running,Family.advance,hze,hst,hzc] using hz
    simpa [Family.Running,Family.advance,hze,hst] using hz
  | @ret e _ _ _ =>
    by_cases hze : z = e
    · simp [Family.Running,setProc,hze]
    simpa [Family.Running,setProc,hze] using hz

def MakesChild (f f' : Family) (z : Nat) : Prop :=
  ∃ y envid func pc pc' s, f.proc y = .fork envid pc ∧ ENVX envid = z ∧
    f.kern.forkExec y envid func pc = some (s,pc') ∧ f' = f.advance y envid pc pc' s

lemma ForkStep.shows_or (hs : ForkStep f l f') (h : f.Shows z a x)
    (hno : ¬OwnStore f l f' z a) : f'.Shows z a x ∨ MakesChild f f' z := by
  obtain ⟨v,hv,rfl⟩ := h
  have handed : ∀ {e c : Nat} {share : Bool} (pn : Nat), c ≠ z →
      f.handOver e c pn share z (PPN a) = f.view z (PPN a) := by
    intro e c share pn hne
    cases hw : f.kern.pte e pn with
    | none => simp only [handOver,hw]
    | some w =>
      simp only [handOver,hw,State.view_setView]
      rw [if_neg fun hc => hne hc.1.symm]
      rfl
  cases hs with
  | @store e va u w s hm hal hw hst =>
    left
    by_cases hze : z = e
    · subst hze
      have hview : (f.abs.noteStore z (PPN w) (va.toNat%PGSIZE/4) u).view z (PPN a) =
          if f.abs.Maps z (PPN a) (PPN w) then
            some (Function.update v (va.toNat%PGSIZE/4) u) else some v := by
        simp only [State.noteStore,update_self,Family.abs] at hv ⊢
        rw [hv]
        rfl
      by_cases hmap : f.abs.Maps z (PPN a) (PPN w)
      · obtain ⟨_,_,y,hy,hfr⟩ := maps_iff.mp hmap
        refine ⟨_,hview.trans (if_pos hmap),update_of_ne (fun hi => ?_) _ _⟩
        exact hno ⟨va,u,w,y,rfl,hw,hy,hfr.symm,hi.symm,hst⟩
      exact ⟨v,hview.trans (if_neg hmap),rfl⟩
    refine ⟨v,?_,rfl⟩
    simp only [State.noteStore,update_of_ne hze]
    exact hv
  | pgfault _ _ _ _ _ _ _ _ _ => exact .inl ⟨v,hv,rfl⟩
  | pgfaultAlloc _ _ => exact .inl ⟨v,hv,rfl⟩
  | pgfaultCopy _ _ _ _ => exact .inl ⟨v,hv,rfl⟩
  | @pgfaultMap e n y s _ _ _ =>
    refine .inl ⟨v,?_,rfl⟩
    simp only [State.view_setView]
    split
    · rename_i hc
      obtain ⟨rfl,rfl⟩ := hc
      rw [hv]
      rfl
    exact hv
  | handlerPage _ _ _ => exact .inl ⟨v,hv,rfl⟩
  | handlerUpcall _ _ _ => exact .inl ⟨v,hv,rfl⟩
  | call _ _ _ => exact .inl ⟨v,hv,rfl⟩
  | exofork _ _ _ _ => exact .inl ⟨v,hv,rfl⟩
  | @fork e envid func pc pc' s hp _ hx =>
    by_cases hc : ENVX envid = z
    · exact .inr ⟨e,envid,func,pc,pc',s,hp,hc,hx,rfl⟩
    refine .inl ⟨v,?_,rfl⟩
    rw [← hv]
    cases pc with
    | dupSelf i j => exact handed _ hc
    | dupKeep i j vpte => exact handed _ hc
    | _ => rfl
  | ret _ _ => exact .inl ⟨v,hv,rfl⟩

lemma ForkStep.shows (hinv : FamilyInv K f) (hs : ForkStep f l f') (hz : f.Running z)
    (h : f.Shows z a x) (hno : ¬OwnStore f l f' z a) : f'.Shows z a x := by
  refine (hs.shows_or h hno).resolve_right ?_
  rintro ⟨y,envid,func,pc,pc',s,hp,rfl,hx,_⟩
  exact hz.2 (fork_child hinv hp (forkExec_ret hx)).1

lemma ForkStep.in_fork (hinv : FamilyInv K f) (hs : ForkStep f l f') (hz : f.Running z)
    (hp : f'.proc z = .fork envid pc) :
    f.proc z = .fork envid pc ∨ pc = .vpd 0 ∨ ∃ pc0 func s, f.proc z = .fork envid pc0 ∧
      f.kern.forkExec z envid func pc0 = some (s,pc) ∧ f' = f.advance z envid pc0 pc s := by
  cases hs with
  | store _ _ _ _ => exact .inl hp
  | pgfault _ _ _ _ _ _ _ _ _ => exact .inl hp
  | pgfaultAlloc _ _ => exact .inl hp
  | pgfaultCopy _ _ _ _ => exact .inl hp
  | pgfaultMap _ _ _ => exact .inl hp
  | handlerPage _ _ _ => exact .inl hp
  | handlerUpcall _ _ _ => exact .inl hp
  | @call e _ _ _ _ =>
    by_cases hze : z = e
    · simp [setProc,hze] at hp
    exact .inl (by simpa [setProc,hze] using hp)
  | @exofork e r s hpe _ hs hr =>
    by_cases hze : z = e
    · simp only [setProc,hze,update_self,Proc.fork.injEq] at hp
      exact .inr (.inl hp.2.symm)
    have hzc : z ≠ ENVX (BitVec.ofInt 32 r) := by
      rintro rfl
      exact hz.1 (exofork_outside hinv hpe hs hr)
    exact .inl (by simpa [setProc,hze,hzc] using hp)
  | @fork e envid' func pc0 pc' s hpe _ hx =>
    by_cases hze : z = e
    · subst hze
      simp only [Family.advance,update_self,Proc.fork.injEq] at hp
      obtain ⟨rfl,rfl⟩ := hp
      exact .inr (.inr ⟨pc0,func,s,hpe,hx,rfl⟩)
    have hzc : z ≠ ENVX envid' := by
      rintro rfl
      exact hz.2 (fork_child hinv hpe (forkExec_ret hx)).1
    left
    by_cases hst : pc0 = .status
    · simpa [Family.advance,hze,hst,hzc] using hp
    simpa [Family.advance,hze,hst] using hp
  | @ret e _ _ _ =>
    by_cases hze : z = e
    · simp [setProc,hze] at hp
    exact .inl (by simpa [setProc,hze] using hp)

lemma passed_cases {n : Nat} (h : s.forkExec e envid func pc = some (s',pc')) (hpc : pc.Ok)
    (hw : s.pte e n = some w) (hn : n < NUPAGE) (hx : n ≠ xstackPage) (hp : pc'.Passed n) :
    pc.Passed n ∨ ∃ i j, n = i*NPDENTRIES+j ∧ (pc = .dupSelf i j ∨ ∃ vpte, pc = .dupKeep i j vpte) := by
  have hlast : xstackPage+1 = NUPAGE := by decide
  have hsize : NUPAGE = NUPDE*NPDENTRIES := rfl
  have h1024 : NPDENTRIES = 1024 := rfl
  have h1024' : NPTENTRIES = 1024 := rfl
  have next : ∀ {r : Option (Int × Kern)} {pc1 : ForkPc}, ok r pc1 = some (s',pc') → pc' = pc1 := by
    intro r pc1 hr
    obtain ⟨⟨v,s1⟩,_,hr⟩ := of_bind hr
    simp only at hr
    split at hr
    · cases hr
    exact (some_pair_inj hr).2.symm
  cases pc with
  | vpd i =>
    left
    simp only [forkExec] at h
    split at h
    · split at h
      · cases h
        simpa [ForkPc.Passed] using hp
      rename_i hnp
      cases h
      simp only [ForkPc.Passed,h1024] at hp ⊢
      by_contra hge
      have hi : n/1024 = i := by omega
      rw [pte_of_absent (by rw [hi]; exact hnp)] at hw
      cases hw
    simp only [ForkPc.Passed]
    have : NUPDE*NPDENTRIES ≤ i*NPDENTRIES := Nat.mul_le_mul_right _ (by omega)
    omega
  | vpt i j =>
    left
    simp only [forkExec] at h
    split at h
    · split at h
      · split at h
        · rename_i hxs
          cases h
          simp only [ForkPc.Passed] at hp ⊢
          omega
        cases h
        exact hp
      rename_i hnone
      cases h
      simp only [ForkPc.Passed] at hp ⊢
      by_contra hge
      have hi : i*NPDENTRIES+j = n := by omega
      rw [hi,hw] at hnone
      simp at hnone
    cases h
    have := hpc.2
    simp only [ForkPc.Passed,h1024] at hp ⊢
    omega
  | duppage i j =>
    left
    obtain ⟨vpte,_,h⟩ := of_bind h
    split at h
    · cases h
      exact hp
    cases h
    exact hp
  | dupChild i j =>
    left
    obtain rfl := next h
    exact hp
  | dupSelf i j =>
    obtain rfl := next h
    simp only [ForkPc.Passed] at hp ⊢
    by_cases hlt : n < i*NPDENTRIES+j
    · exact .inl hlt
    exact .inr ⟨i,j,by omega,.inl rfl⟩
  | dupKeep i j vpte =>
    obtain rfl := next h
    simp only [ForkPc.Passed] at hp ⊢
    by_cases hlt : n < i*NPDENTRIES+j
    · exact .inl hlt
    exact .inr ⟨i,j,by omega,.inr ⟨vpte,rfl⟩⟩
  | xstack => exact .inl trivial
  | upcall => exact .inl trivial
  | status => exact .inl trivial
  | ret => exact .inl trivial

/-- Until its child `c` has been made, the founder `e` shows `x` at `a`, and so does `c` as far
as `fork` has got. -/
structure Inherits (f : Family) (e c : Nat) (a x : Word) : Prop where
  running : f.Running e
  own : f.Shows e a x
  child : ∀ envid pc, f.proc e = .fork envid pc → ENVX envid = c → pc.Passed (PPN a) → f.Shows c a x
  made : ∀ envid, f.proc e = .fork envid .ret → ENVX envid = c → f.Running c

lemma handOver_shows {share : Bool} (hinv : FamilyInv K f) (h : f.Shows e a x)
    (hc : ENVX envid = c) (hshare : share = false)
    (hv : f'.view = f.handOver e (ENVX envid) (PPN a) share) : f'.Shows c a x := by
  obtain ⟨_,htemp,_,w,hw,_,hx⟩ := h.entry hinv
  refine ⟨f.kern.mem (PPN w),?_,hx⟩
  rw [hv]
  simp only [handOver,hw,State.view_setView,hc,and_self,if_true]
  rw [takenOver,if_neg]
  rintro (hs|ht)
  · rw [hshare] at hs
    cases hs
  exact htemp ht

lemma Inherits.advance (hinv : FamilyInv K f) (h : Inherits f e c a x) (hp : f.proc e =
    .fork envid pc) (hx : f.kern.forkExec e envid func pc = some (s,pc')) (hc : ENVX envid = c)
    (hpass : pc'.Passed (PPN a)) : (f.advance e envid pc pc' s).Shows c a x := by
  obtain ⟨hn,htemp,hxs,w,hw,hsh,_⟩ := h.own.entry hinv
  obtain hold | ⟨i,j,hij,hpc⟩ := passed_cases hx (hinv.fork e envid pc hp).2 hw hn hxs hpass
  · obtain ⟨v,hv,hvx⟩ := h.child envid pc hp hc hold
    refine ⟨v,?_,hvx⟩
    have kept : ∀ {share : Bool} (pn : Nat), PPN a < pn →
        f.handOver e (ENVX envid) pn share c (PPN a) = f.view c (PPN a) := by
      intro share pn hlt
      cases hy : f.kern.pte e pn with
      | none => simp only [handOver,hy]
      | some y =>
        simp only [handOver,hy,State.view_setView]
        rw [if_neg fun hc => absurd hc.2 (Nat.ne_of_lt hlt)]
        rfl
    rw [← hv]
    cases pc with
    | dupSelf i j => exact kept _ hold
    | dupKeep i j vpte => exact kept _ hold
    | _ => rfl
  obtain rfl | ⟨vpte,rfl⟩ := hpc
  · exact handOver_shows hinv h.own hc rfl (by rw [hij]; rfl)
  have hrole : f.abs.role e = .fork (ENVX envid) (i*NPDENTRIES+j) (.keep (entryOf vpte)) := by
    simp only [Family.abs,hp,Proc.role,ForkPc.role]
  have hentry := ((hinv.cow.roles.fork e _ _ _ hrole).keep _ rfl).2.1
  rw [← hij,space_of_pte h.running.1 hn hw] at hentry
  have hsame := congrArg Entry.share (some.inj hentry)
  simp only [entryOf,hsh,ne_eq,not_true_eq_false,decide_false] at hsame
  exact handOver_shows hinv h.own hc hsame.symm (by rw [hij]; rfl)

lemma forkExec_done (h : s.forkExec e envid func pc = some (s',.ret)) : pc = .status := by
  have next : ∀ {r : Option (Int × Kern)} {pc1 : ForkPc}, ok r pc1 = some (s',.ret) → pc1 = .ret := by
    intro r pc1 hr
    obtain ⟨⟨v,s1⟩,_,hr⟩ := of_bind hr
    simp only at hr
    split at hr
    · cases hr
    exact (some_pair_inj hr).2
  cases pc with
  | status => rfl
  | ret => cases h
  | vpd i =>
    simp only [forkExec] at h
    split at h
    · split at h <;> simp at h
    simp at h
  | vpt i j =>
    simp only [forkExec] at h
    split at h
    · split at h
      · split at h <;> simp at h
      simp at h
    simp at h
  | duppage i j =>
    obtain ⟨vpte,_,h⟩ := of_bind h
    split at h <;> simp at h
  | dupChild i j => cases next h
  | dupSelf i j => cases next h
  | dupKeep i j vpte => cases next h
  | xstack => cases next h
  | upcall => cases next h

lemma Inherits.step (hinv : FamilyInv K f) (h : Inherits f e c a x) (hs : ForkStep f l f')
    (he : ¬OwnStore f l f' e a) (hc : ¬OwnStore f l f' c a) : Inherits f' e c a x := by
  refine ⟨hs.running hinv h.running,hs.shows hinv h.running h.own he,fun envid pc hp hx hpass => ?_,
    fun envid hp hx => ?_⟩
  · obtain hp0 | rfl | ⟨pc0,func,s,hp0,hex,rfl⟩ := hs.in_fork hinv h.running hp
    · obtain hshow | ⟨y,envid',func,pc0,pc',s,hy,hyc,hex,rfl⟩ := hs.shows_or (h.child envid pc hp0 hx hpass) hc
      · exact hshow
      have hret := forkExec_ret hex
      obtain ⟨hsetup,hsole⟩ := fork_child hinv hy hret
      by_cases hpc : pc = .ret
      · rw [hpc] at hp0
        rw [hyc] at hsetup
        exact absurd hsetup (h.made envid hp0 hx).2
      obtain rfl := hsole e envid pc hp0 hpc (hx.trans hyc.symm)
      rw [hp0] at hy
      obtain ⟨rfl,rfl⟩ := Proc.fork.inj hy
      simp only [Family.advance,update_self,Proc.fork.injEq,true_and] at hp
      rw [hp] at hex ⊢
      exact h.advance hinv hp0 hex hx hpass
    · simp [ForkPc.Passed] at hpass
    exact h.advance hinv hp0 hex hx hpass
  obtain hp0 | hpc | ⟨pc0,func,s,hp0,hex,rfl⟩ := hs.in_fork hinv h.running hp
  · exact hs.running hinv (h.made envid hp0 hx)
  · contradiction
  obtain rfl := forkExec_done hex
  have hce : c ≠ e := by
    rintro rfl
    rw [← hx] at h
    exact h.running.2 (fork_child hinv hp0 (by simp)).1
  simp [Family.Running,Family.advance,hx,hce]

lemma Inherits.start (c : Nat) (hn : PPN a < NUPAGE) (htemp : PPN a ≠ tempPage)
    (hx : PPN a ≠ xstackPage) (hw : s.pte e (PPN a) = some w) (hsh : w&&&PTE_SHARE = 0) :
    Inherits (Family.start s e) e c a (s.mem (PPN w) (a.toNat%PGSIZE/4)) := by
  have hproc : (Family.start s e).proc e = .user := by simp [Family.start]
  refine ⟨by simp [Family.Running,hproc],⟨s.mem (PPN w),?_,rfl⟩,fun envid pc hp => ?_,
    fun envid hp => ?_⟩
  · simp [Family.start,hw,hsh,htemp,hx,Nat.not_le.mpr hn]
  · rw [hproc] at hp
    cases hp
  rw [hproc] at hp
  cases hp

lemma Later.inherits (hinv : FamilyInv K f) (h : Inherits f e c a x)
    (hl : Later (fun y => y = e ∨ y = c) a f f₁) : FamilyInv K f₁ ∧ Inherits f₁ e c a x := by
  induction hl with
  | refl => exact ⟨hinv,h⟩
  | step _ hs hno ih =>
    exact ⟨(ih.1.step hs).1,ih.2.step ih.1 hs (hno e (.inl rfl)) (hno c (.inr rfl))⟩

lemma Later.shows (hinv : FamilyInv K f) (hz : f.Running z) (h : f.Shows z a x)
    (hl : Later (· = z) a f f₁) : FamilyInv K f₁ ∧ f₁.Running z ∧ f₁.Shows z a x := by
  induction hl with
  | refl => exact ⟨hinv,hz,h⟩
  | step _ hs hno ih =>
    exact ⟨(ih.1.step hs).1,hs.running ih.1 ih.2.1,hs.shows ih.1 ih.2.1 ih.2.2 (hno z rfl)⟩

lemma fork_values {f₂ : Family} (h : Inv K NoHand s) (he : s.Live e) (hs : s.Standalone e)
    (hn : PPN a < NUPAGE) (htemp : PPN a ≠ tempPage) (hx : PPN a ≠ xstackPage) (hw : s.pte
    e (PPN a) = some w) (hsh : w&&&PTE_SHARE = 0) (h1 : Later (fun y => y = e ∨ y = ENVX envid)
    a (Family.start s e) f₁) (hret : f₁.proc e = .fork envid .ret) (hz : z = e ∨ z = ENVX envid)
    (h2 : Later (· = z) a f₁ f₂) : f₂.reads z a = some (s.mem (PPN w) (a.toNat%PGSIZE/4)) := by
  obtain ⟨hinv,hinh⟩ := h1.inherits (.start h he hs) (.start _ hn htemp hx hw hsh)
  have hboth : f₁.Running z ∧ f₁.Shows z a (s.mem (PPN w) (a.toNat%PGSIZE/4)) := by
    obtain rfl | rfl := hz
    · exact ⟨hinh.running,hinh.own⟩
    exact ⟨hinh.made envid hret rfl,hinh.child envid .ret hret rfl trivial⟩
  obtain ⟨hinv2,_,hshow⟩ := h2.shows hinv hboth.1 hboth.2
  exact hshow.reads hinv2

end

end KludgeOS
