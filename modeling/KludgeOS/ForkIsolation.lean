import KludgeOS.ForkSpec
import KludgeOS.Rights

/-!
A family founded by one environment stays isolated through any number of forks, writes and
page faults, unless the founder maps pages twice in the wrong way.
-/

namespace KludgeOS
open BitVec (ofInt)
open Kern Option Family BitVec

/-- What the founder of a family must not do: map its stacks a second time, or map a frame both
writable with `PTE_SHARE` and without it. -/
structure Kern.Standalone (s : Kern) (e : Nat) : Prop where
  xstack : ∀ n w x, n < NUPAGE → s.pte e xstackPage = some x → s.pte e n = some w →
    PPN w = PPN x → n = xstackPage
  stack : ∀ n w x, n < stackPage → s.pte e stackPage = some x → s.pte e n = some w →
    PPN w = PPN x → n = tempPage
  shared : ∀ n m w x, n < NUPAGE → m < NUPAGE → s.pte e n = some w → w&&&PTE_W ≠ 0 →
    w&&&PTE_SHARE ≠ 0 → s.pte e m = some x → PPN x = PPN w → x&&&PTE_SHARE ≠ 0

/-- What a member can write and does not share is mapped by no other, and holds what it was given
with its owner's stores since. -/
structure Family.Isolated (f : Family) : Prop where
  alone : ∀ y n w, f.proc y = .user → n < NUPAGE → f.kern.pte y n = some w → w&&&PTE_W ≠ 0 →
    w&&&PTE_SHARE = 0 → ∀ z m x, z ≠ y → f.proc z ≠ .outside → m < NUPAGE →
    f.kern.pte z m = some x → PPN x ≠ PPN w
  holds : ∀ y n c, f.view y n = some c → ∃ w, f.kern.pte y n = some w ∧ w&&&PTE_SHARE = 0 ∧
    ∀ i < 1024, f.kern.mem (PPN w) i = c i
  covers : ∀ y n w, f.proc y ≠ .outside → f.proc y ≠ .setup → n < NUPAGE → n ≠ tempPage →
    n ≠ xstackPage → f.kern.pte y n = some w → w&&&PTE_SHARE = 0 → f.view y n ≠ none
  confined : ∀ f' y n w, ForkStep f (.write y n) f' → n < NUPAGE → f.kern.pte y n = some w →
    w&&&PTE_SHARE = 0 → ∀ z m, z ≠ y → f.proc z ≠ .outside → f.proc z ≠ .setup → m < NUPAGE →
    (f'.kern.pte z m).map PPN = (f.kern.pte z m).map PPN ∧
      ∀ x, f.kern.pte z m = some x → f'.kern.mem (PPN x) = f.kern.mem (PPN x)

section isolation

variable {K : Finset Nat} {s : Kern} {e : Nat} {f f' : Family}

lemma standalone_start (hs : s.Standalone e) :
    CopyOnWrite.Standalone forkLayout (Family.start s e).abs e where
  xstack := by
    rintro m _ he ⟨_,hm,hfr⟩
    obtain ⟨_,_,x,hx,rfl⟩ := pte_of_space he
    obtain ⟨_,hm',w,hw,rfl⟩ := pte_of_space hm
    exact hs.xstack m w x hm' hx hw hfr
  stack := by
    rintro m _ he ⟨_,hm,hfr⟩ hlt
    obtain ⟨_,_,x,hx,rfl⟩ := pte_of_space he
    obtain ⟨_,_,w,hw,rfl⟩ := pte_of_space hm
    exact hs.stack m w x hlt hx hw hfr
  shared := by
    intro n _ m _ hn hwr hsh hm hfr
    obtain ⟨_,hn',w,hw,rfl⟩ := pte_of_space hn
    obtain ⟨_,hm',x,hx,rfl⟩ := pte_of_space hm
    simpa [entryOf] using hs.shared n m w x hn' hm' hw (by simpa [entryOf] using hwr)
      (by simpa [entryOf] using hsh) hx hfr

lemma FamilyInv.start (h : Inv K NoHand s) (he : s.Live e) (hs : s.Standalone e) :
    FamilyInv K (Family.start s e) := by
  have hproc : ∀ {z}, z ≠ e → (Family.start s e).proc z = .outside := by
    intro z hz
    simp [Family.start,hz]
  have hself : (Family.start s e).proc e = .user := by simp [Family.start]
  refine ⟨h,fun y hy => ?_,fun y envid pc hy => ?_,?_⟩
  · by_cases hye : y = e
    · rw [hye]
      exact he
    exact absurd (hproc hye) hy
  · by_cases hye : y = e
    · rw [hye,hself] at hy
      cases hy
    rw [hproc hye] at hy
    cases hy
  refine .single (y := e) (fun n x hx => (pte_of_space hx).2.1) ?_ (fun z hz => ?_)
    (fun _ => rfl) (standalone_start hs) (fun z n => ?_)
  · simp only [Family.abs,hself,Proc.role]
  · refine ⟨by simp only [Family.abs,hproc hz,Proc.role],fun n => ?_⟩
    simp [Family.abs,hproc hz]
  by_cases hz : z = e
  · subst hz
    by_cases hn : NUPAGE ≤ n
    · simp [Family.abs,Family.start,hn]
    have hsp : (Family.start s z).abs.space z n = (s.pte z n).map entryOf := by
      simp [Family.abs,Family.start,hn]
    rw [hsp]
    simp only [Family.abs,Family.start,hn]
    by_cases ht : n = tempPage ∨ n = xstackPage
    · simp [ht,forkLayout]
    cases hw : s.pte z n with
    | none => simp [forkLayout,ht]
    | some w => simp [forkLayout,ht,entryOf]
  have hsp : (Family.start s e).abs.space z n = none := by simp [Family.abs,hproc hz]
  rw [hsp]
  simp [Family.abs,Family.start,hz]

lemma ForkReach.inv (h : Inv K NoHand s) (he : s.Live e) (hs : s.Standalone e)
    (hf : ForkReach s e f) : FamilyInv K f := by
  induction hf with
  | start => exact FamilyInv.start h he hs
  | step _ hstep ih => exact (ih.step hstep).1

variable {y n : Nat}

lemma ForkStep.writer (hinv : FamilyInv K f) (hs : ForkStep f (.write y n) f') :
    f'.proc = f.proc ∧ f.proc y ≠ .outside := by
  have faulting : ∀ {q}, f.fault y = some q → f.proc y ≠ .outside := fun hq =>
    role_ne_outside (hinv.cow.roles.faulting hq).1
  cases hs with
  | store hm _ _ _ => exact ⟨rfl,MayStore.member hinv hm⟩
  | pgfault hm _ _ _ _ _ _ _ _ => exact ⟨rfl,MayStore.member hinv hm⟩
  | pgfaultAlloc hf _ => exact ⟨rfl,faulting hf⟩
  | pgfaultCopy hf _ _ _ => exact ⟨rfl,faulting hf⟩
  | pgfaultMap hf _ _ => exact ⟨rfl,faulting hf⟩

lemma space_frame (hy : f.proc y ≠ .outside) (hn : n < NUPAGE) :
    (f.abs.space y n).map CopyOnWrite.Entry.frame = (f.kern.pte y n).map PPN := by
  have hc : ¬(f.proc y = .outside ∨ NUPAGE ≤ n) := by
    rintro (hc|hc)
    · exact hy hc
    omega
  simp only [Family.abs,if_neg hc,map_map]
  rfl

theorem fork_isolated (h : Reachable K s) (he : s.Live e) (hs : s.Standalone e)
    (hf : ForkReach s e f) : f.Isolated := by
  have hinv := hf.inv h.good.inv he hs
  refine ⟨?_,?_,?_,?_⟩
  · intro y n w hy hn hw hwr hsh z m x hz hzo hm hx hfr
    refine hinv.cow.isolated (y := y) (n := n) (z := z) (m := m) (e := entryOf w) ?_
      (space_of_pte (by rw [hy]; simp) hn hw) ⟨by simpa [entryOf] using hwr,by simpa [entryOf] using hsh⟩
      hz (maps_iff.mpr ⟨hzo,hm,x,hx,hfr⟩)
    intro c p st hr
    simp [Family.abs,hy,Proc.role] at hr
  · intro y n c hc
    obtain ⟨_,_,_,he,hsh,hd⟩ := hinv.cow.views.holds y n c hc
    obtain ⟨_,_,w,hw,rfl⟩ := pte_of_space he
    exact ⟨w,hw,by simpa [entryOf] using hsh,hd⟩
  · intro y n w hy hset hn h1 h2 hw hsh
    exact hinv.cow.views.covers y n (entryOf w) (fun hc => hset (proc_setup hc))
      (space_of_pte hy hn hw) (by simpa [entryOf] using hsh) h1 h2
  intro f' y n w hstep hn hw hsh z m hz hzo hzs hm
  obtain hsim | ⟨hc,_⟩ := (hinv.step hstep).2
  · obtain ⟨hproc,hy⟩ := hstep.writer hinv
    obtain ⟨hspace,hdata⟩ := hsim.confined (m := m) hinv.cow (space_of_pte hy hn hw)
      (by simpa [entryOf] using hsh) hz fun hc => hzs (proc_setup hc)
    refine ⟨?_,fun x hx => hdata (PPN x) (maps_iff.mpr ⟨hzo,hm,x,hx,rfl⟩)⟩
    rw [← space_frame (by rw [hproc]; exact hzo) hm,← space_frame hzo hm,hspace]
  · contradiction

end isolation

/-- `k` steps of `fork` before it makes the child runnable. -/
def Kern.forkRun (e : Nat) (envid func : Word) : Nat → Kern → ForkPc → Option (Kern × ForkPc)
  | 0,s,pc => some (s,pc)
  | k+1,s,pc =>
    if pc = .status then none else do
      let (s,pc) ← s.forkExec e envid func pc
      forkRun e envid func k s pc

abbrev Family.Quiet : Family → Family → Prop := Relation.ReflTransGen fun g g' => ForkStep g .other g'

variable {s t : Kern} {e k : Nat} {func : Word} {r : Int}

lemma ForkReach.quiet {f f' : Family} (h : ForkReach s e f) (hq : f.Quiet f') :
    ForkReach s e f' := by
  induction hq with
  | refl => exact h
  | tail _ hs ih => exact ih.step hs

lemma Family.Quiet.forkRun {y : Nat} {envid : Word} {pc' : ForkPc} {f₀ : Family} (k : Nat)
    : ∀ {f : Family} {pc : ForkPc}, f₀.Quiet f → f.proc y = .fork envid pc → f.fault y = none →
    Kern.forkRun y envid func k f.kern pc = some (t,pc') → ∃ f', f₀.Quiet f' ∧ f'.kern = t ∧
    f'.fault = f.fault ∧ f'.proc y = .fork envid pc' ∧ ∀ z, z ≠ y → f'.proc z = f.proc z := by
  induction k with
  | zero =>
    intro f pc hf hp _ hr
    cases hr
    exact ⟨f,hf,rfl,rfl,hp,fun _ _ => rfl⟩
  | succ k ih =>
    intro f pc hf hp hfault hr
    simp only [Kern.forkRun] at hr
    split at hr
    · cases hr
    rename_i hno
    obtain ⟨⟨s1,pc1⟩,h1,hr⟩ := of_bind hr
    have hp1 : (f.advance y envid pc pc1 s1).proc y = .fork envid pc1 := by simp [advance_proc hno]
    obtain ⟨f',hf',hk,hfa,hp',hz⟩ := ih (hf.tail (.fork hp hfault h1)) hp1 hfault hr
    refine ⟨f',hf',hk,hfa,hp',fun z hzy => ?_⟩
    rw [hz z hzy,advance_proc hno,if_neg hzy]

/-- A `fork` by the founder `e` as a function of the kernel's state, with `k` steps before the child
is made runnable. -/
def Kern.forkOnce (s : Kern) (e k : Nat) (func : Word) : Option (Int × Kern) := do
  let _ ← s.storeTarget (s.pgdir e) (USTACKTOP-4) true
  let (r,s) ← s.sysExofork e
  if 0 < r then
    let (s,pc) ← forkRun e (ofInt 32 r) func k s (.vpd 0)
    if pc = .status then
      let (s,pc) ← s.forkExec e (ofInt 32 r) func pc
      if pc = .ret then return (r,s) else none
    else none
  else none

lemma Family.Quiet.forkOnce (h : s.forkOnce e k func = some (r,t)) (hne : ENVX (ofInt 32 r) ≠ e)
    : ∃ f, (Family.start s e).Quiet f ∧ f.kern = t ∧ (∀ y, f.fault y = none) ∧
    f.proc e = .fork (ofInt 32 r) .ret ∧ f.proc (ENVX (ofInt 32 r)) = .user := by
  obtain ⟨fr,h0,h⟩ := of_bind h
  obtain ⟨⟨r',s1⟩,h1,h⟩ := of_bind h
  simp only at h
  split at h
  · rename_i hr
    obtain ⟨⟨s2,pc2⟩,h2,h⟩ := of_bind h
    simp only at h
    split at h
    · rename_i hpc
      subst hpc
      obtain ⟨⟨s3,pc3⟩,h3,h⟩ := of_bind h
      simp only at h
      split at h
      · rename_i hpc
        subst hpc
        obtain ⟨rfl,rfl⟩ := some_pair_inj h
        have first : (Family.start s e).Quiet (Family.start s e) := .refl
        have called := first.tail (.call (by simp [Family.start]) rfl h0)
        have forked := called.tail (.exofork (r := r') (by simp [setProc]) rfl h1 hr)
        obtain ⟨f,hf,rfl,hfault,hp,hz⟩ :=
          Family.Quiet.forkRun (y := e) k forked (by simp [setProc]) rfl h2
        have hfault' : ∀ y, f.fault y = none := fun y => by rw [hfault]; rfl
        refine ⟨_,hf.tail (.fork hp (hfault' e) h3),rfl,hfault',?_,?_⟩
        · simp [advance]
        simp [advance,hne]
      cases h
    cases h
  cases h

lemma ForkReach.forkOnce (h : s.forkOnce e k func = some (r,t)) (hne : ENVX (ofInt 32 r) ≠ e) :
    ∃ f, ForkReach s e f ∧ f.kern = t ∧ f.proc e = .user ∧ f.proc (ENVX (ofInt 32 r)) = .user := by
  obtain ⟨f,hq,rfl,hfault,he,hc⟩ := Family.Quiet.forkOnce h hne
  refine ⟨f.setProc e .user,(ForkReach.start.quiet hq).step (.ret he (hfault e)),rfl,?_,?_⟩
  · simp [setProc]
  simpa [setProc,hne] using hc

def aliasRun : List Act :=
  [.create 0x800020 [],.start,.trap (callFrame 0 5 0 0xEEBFF000 7 0 0) {},.trap (callFrame 0 6 0
   0xEEBFF000 0 0xEEBFC000 7) {}]

/-- `fork` skips the exception stack, so the parent can still write the frame that its child now
has below the stack. -/
theorem aliased_xstack_leaks : ∃ s f, Reachable {0} s ∧ s.Live 0 ∧ ForkReach s 0 f ∧
    f.proc 0 = .user ∧ f.proc 1 = .user ∧ f.kern.pte 0 xstackPage = some (page2pa 4|||7) ∧
    f.kern.pte 1 0xEEBFC = some (page2pa 4|||0x805) ∧ ¬f.Isolated := by
  have hrun : ((execAll aliasRun (bootKern 32)).bind fun s =>
      (s.forkOnce 0 1988 0x800100).map fun p =>
        decide (s.Live 0 ∧ ENVX (ofInt 32 p.1) = 1 ∧ p.2.pte 0 xstackPage = some (page2pa 4|||7) ∧
          p.2.pte 1 0xEEBFC = some (page2pa 4|||0x805))) = some true := by decide +kernel
  obtain ⟨s,hs,hrun⟩ := of_bind hrun
  obtain ⟨⟨r,t⟩,hfork,hl,hc,hx,hb⟩ := of_map_decide hrun
  have hreach := execAll_reachable hs
  obtain ⟨f,hf,rfl,h0,h1⟩ := ForkReach.forkOnce hfork (by rw [hc]; decide)
  rw [hc] at h1
  refine ⟨s,f,hreach,hl,hf,h0,h1,hx,hb,fun hiso => ?_⟩
  exact hiso.alone 0 xstackPage _ h0 (by decide) hx (by decide) (by decide) 1 0xEEBFC _ (by decide)
    (by rw [h1]; simp) (by decide) hb (by decide)

lemma pte_of_row {d n : Nat} {w : Word} (hd : ∀ i < NUPDE, i ≠ d → ¬Present (s.pde e i))
    (hn : n < NUPAGE) (hw : s.pte e n = some w) : n/NPTENTRIES = d := by
  by_contra hc
  rw [pte_of_absent (hd _ (pde_of_page hn) hc)] at hw
  cases hw

lemma standalone_of_sole
    (h : ∀ n w, n < NUPAGE → s.pte e n = some w → n = stackPage ∧ w&&&PTE_SHARE = 0) :
    s.Standalone e where
  xstack n w x _ hx _ _ := absurd (h _ x (by decide) hx).1 (by decide)
  stack n w x hn _ hw _ := by
    have hlt : stackPage < NUPAGE := by decide
    have := (h n w (hn.trans hlt) hw).1
    omega
  shared n m w x hn _ hw _ hsh _ _ := absurd (h n w hn hw).2 hsh

def soleRun : List Act := [.create 0x800020 [],.start]

lemma soleRun_pages (hs : execAll soleRun (bootKern 32) = some s) : Reachable {0} s ∧
    s.Live 0 ∧ ∀ n w, n < NUPAGE → s.pte 0 n = some w → n = stackPage ∧ w = (page2pa 2|||7) := by
  have hrun : ((execAll soleRun (bootKern 32)).map fun s =>
      decide (s.Live 0 ∧ (∀ i < NUPDE, i ≠ 954 → ¬Present (s.pde 0 i)) ∧
        ∀ j < NPTENTRIES, s.pte 0 (954*NPTENTRIES+j) = none ∨
          j = 1021 ∧ s.pte 0 (954*NPTENTRIES+j) = some (page2pa 2|||7))) = some true := by
    decide +kernel
  rw [hs] at hrun
  obtain ⟨hl,hrow,hpage⟩ := of_decide_eq_true (some.inj hrun)
  refine ⟨execAll_reachable hs,hl,fun n w hn hw => ?_⟩
  have hd := pte_of_row hrow hn hw
  have hj : 954*NPTENTRIES+n%NPTENTRIES = n := by rw [← hd,Nat.mul_comm,Nat.div_add_mod]
  obtain hnone | ⟨hj',hsome⟩ := hpage (n%NPTENTRIES) (Nat.mod_lt _ (by decide))
  · rw [hj,hw] at hnone
    exact absurd hnone (some_ne_none w)
  rw [hj,hw] at hsome
  rw [← hj,hj']
  exact ⟨by decide,some.inj hsome⟩

lemma soleRun_standalone (hs : execAll soleRun (bootKern 32) = some s) : s.Standalone 0 := by
  refine standalone_of_sole fun n w hn hw => ?_
  obtain ⟨hstack,rfl⟩ := (soleRun_pages hs).2.2 n w hn hw
  exact ⟨hstack,by decide⟩

theorem fork_isolated_pair : ∃ s f, Reachable {0} s ∧ s.Live 0 ∧ s.Standalone 0 ∧
    ForkReach s 0 f ∧ f.proc 0 = .user ∧ f.proc 1 = .user ∧ f.kern.pte 0 stackPage ≠ none ∧
    f.kern.pte 1 stackPage = f.kern.pte 0 stackPage ∧ f.Isolated := by
  have hrun : ((execAll soleRun (bootKern 32)).bind fun s =>
      (s.forkOnce 0 1986 0x800100).map fun p =>
        decide (ENVX (ofInt 32 p.1) = 1 ∧ p.2.pte 0 stackPage ≠ none ∧
          p.2.pte 1 stackPage = p.2.pte 0 stackPage)) = some true := by decide +kernel
  obtain ⟨s,hs,hrun⟩ := of_bind hrun
  obtain ⟨⟨r,t⟩,hfork,hc,hsome,hsame⟩ := of_map_decide hrun
  obtain ⟨hreach,hl,_⟩ := soleRun_pages hs
  have hstand := soleRun_standalone hs
  obtain ⟨f,hf,rfl,h0,h1⟩ := ForkReach.forkOnce hfork (by rw [hc]; decide)
  rw [hc] at h1
  exact ⟨s,f,hreach,hl,hstand,hf,h0,h1,hsome,hsame,fork_isolated hreach hl hstand hf⟩

end KludgeOS
