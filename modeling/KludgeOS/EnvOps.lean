import KludgeOS.TableOps

/-!
Environments come and go: a directory is made from the first free frame, and
an environment without tables gives its directory back.
-/

namespace KludgeOS
open Ledger List Mem
open Kern Function
open Kern (pgdir pde)

/-- The record `env_alloc` leaves in slot `e`, over the record `v` of the previous
occupant. -/
def newEnv (v : Env) (e p : Nat) (parentId : Word) : Env :=
  { v with envPgdir := p, envCr3 := page2pa p, envId := nextEnvid e v.envId,
           envParentId := parentId, envStatus := .runnable, envRuns := 0,
           envTf := initTf e, envPgfaultUpcall := 0, envIpcRecving := false }

/-- Slot `e`, the first of the free list, taken with frame `p` for its directory. -/
def Kern.spawn (s : Kern) (e p : Nat) (parentId : Word) : Kern :=
  { s with
    mem := s.mem.fill p (s.setupPgdir p)
    ppRef := acquire s.ppRef (some p)
    pageFreeList := s.pageFreeList.tail
    envs := update s.envs e (newEnv (s.envs e) e p parentId)
    envFreeList := s.envFreeList.tail }

def Kern.reap (s : Kern) (e : Nat) : Kern :=
  let old := some (s.pgdir e)
  let ref := release s.ppRef old
  { s with
    ppRef := ref
    pageFreeList := recycle ref s.pageFreeList old
    envs := update s.envs e
      {s.envs e with envPgdir := 0, envCr3 := 0, envStatus := .free}
    envFreeList := e :: s.envFreeList }

section spawn

variable {K : Finset Nat} {hand : Nat → Prop} {s : Kern} {e p : Nat} {l q : List Nat}
  {a : Word} {e' : Nat}

lemma spawn_other (hne : e' ≠ e) : (s.spawn e p a).envs e' = s.envs e' := update_of_ne hne _ _

lemma spawn_self : (s.spawn e p a).envs e = newEnv (s.envs e) e p a := update_self _ _ _

lemma sameEnv_spawn (hne : e' ≠ e) : SameEnv s (s.spawn e p a) e' := by
  constructor
  · unfold Live
    rw [spawn_other hne]
  intro _
  rw [pgdir,spawn_other hne]

lemma live_spawn (he : e < NENV) : (s.spawn e p a).Live e := ⟨he,by rw [spawn_self]; simp [newEnv]⟩

lemma pgdir_spawn : (s.spawn e p a).pgdir e = p := by
  rw [pgdir,spawn_self]
  rfl

lemma pde_spawn (d : Nat) : (s.spawn e p a).pde e d = s.setupPgdir p d := by
  rw [pde,pgdir_spawn]
  exact congrFun (fill_self _ _ _) d

lemma pde_spawn_low (h : Inv K hand s) {d : Nat} (hd : d < NUPDE) :
    ¬Present ((s.spawn e p a).pde e d) := by
  have h1 : d ≠ PDX VPT := by
    have : PDX VPT = 959 := by decide
    have : NUPDE = 955 := rfl
    omega
  have h2 : d ≠ PDX UVPT := by
    have : PDX UVPT = 957 := by decide
    have : NUPDE = 955 := rfl
    omega
  rw [pde_spawn,setupPgdir,if_neg h1,if_neg h2]
  exact h.half.boot_low d hd

lemma mem_spawn {f : Nat} (hf : f ≠ p) : (s.spawn e p a).mem f = s.mem f := fill_frame _ _ hf

lemma holds_spawn (h : Inv K hand s) (he : e < NENV) (hfree : (s.envs e).envStatus = .free)
    (hp : ¬s.Structural K p) :
    ∀ y ∈ slots, (s.spawn e p a).holds y = if y = .dir e then some p else s.holds y := by
  intro y hy
  have hdead : ¬s.Live e := fun hc => hc.2 hfree
  have hlive := live_spawn (s := s) (p := p) (a := a) he
  by_cases hye : y.env = e
  · cases y with
    | dir e' =>
      obtain rfl : e' = e := hye
      rw [if_pos rfl,holds_dir hlive,pgdir_spawn]
    | pde e' d =>
      obtain rfl : e' = e := hye
      rw [if_neg (by simp),holds_dead (x := .pde e' d) hdead,
        holds_pde_absent (pde_spawn_low h (pde_mem_slots.mp hy).2)]
    | pte e' n =>
      obtain rfl : e' = e := hye
      rw [if_neg (by simp),holds_dead (x := .pte e' n) hdead,holds_pte hlive,
        pte_of_absent (pde_spawn_low h (pde_of_page (pte_mem_slots.mp hy).2))]
      rfl
  have hne : y ≠ .dir e := fun hc => hye (by rw [hc]; rfl)
  have hmem : ∀ f, s.Structural K f → (s.spawn e p a).mem f = s.mem f :=
    fun f hf => mem_spawn fun hc => hp (by rw [← hc]; exact hf)
  rw [if_neg hne]
  exact holds_congr hmem y hy (sameEnv_spawn hye)

lemma KernHalf.spawn (h : KernHalf K s) (hp : ¬s.Structural K p) : KernHalf K (s.spawn e p a) := by
  have hk : ∀ f ∈ K, (s.spawn e p a).mem f = s.mem f :=
    fun f hf => mem_spawn fun hc => hp (Or.inl (hc ▸ hf))
  have hother : ∀ e', e' ≠ e → (s.spawn e p a).Live e' →
      s.Live e' ∧ ∀ d, (s.spawn e p a).pde e' d = s.pde e' d := by
    intro e' hne hl
    have hs := sameEnv_spawn (s := s) (p := p) (a := a) hne
    have hl' := hs.live.mp hl
    refine ⟨hl',fun d => ?_⟩
    rw [pde,hs.pgdir hl',mem_spawn fun hc => hp (Or.inr (Or.inl ⟨e',hl',hc⟩))]
  refine ⟨h.kernel_lt,h.boot_mem,h.boot_dir.congr (hk _ h.boot_mem),?_,?_,?_,?_,?_⟩
  · change ∀ d < NUPDE, ¬Present ((s.spawn e p a).mem s.bootPgdir d)
    rw [hk _ h.boot_mem]
    exact h.boot_low
  · intro d hd hd' hv hu hpres
    change Present ((s.spawn e p a).mem s.bootPgdir d) at hpres
    change PPN ((s.spawn e p a).mem s.bootPgdir d) ∈ K ∧
      ∀ t < NPTENTRIES, UserStorable ((s.spawn e p a).mem s.bootPgdir d) →
        ¬UserStorable ((s.spawn e p a).mem (PPN ((s.spawn e p a).mem s.bootPgdir d)) t)
    rw [hk _ h.boot_mem] at hpres ⊢
    obtain ⟨hmem,hprot⟩ := h.boot_high d hd hd' hv hu hpres
    exact ⟨hmem,by rw [hk _ hmem]; exact hprot⟩
  · intro e' hl d hd hd' hv hu
    change _ = (s.spawn e p a).mem s.bootPgdir d
    rw [hk _ h.boot_mem]
    by_cases hee : e' = e
    · subst hee
      rw [pde_spawn,setupPgdir,if_neg hv,if_neg hu]
    obtain ⟨hl',hsame⟩ := hother e' hee hl
    rw [hsame]
    exact h.env_high e' hl' d hd hd' hv hu
  · intro e' hl
    by_cases hee : e' = e
    · subst hee
      rw [pde_spawn,setupPgdir,if_pos rfl,pgdir_spawn]
    obtain ⟨hl',hsame⟩ := hother e' hee hl
    rw [hsame,(sameEnv_spawn hee).pgdir hl']
    exact h.env_vpt e' hl'
  intro e' hl
  by_cases hee : e' = e
  · subst hee
    rw [pde_spawn,setupPgdir,if_neg (by decide),if_pos rfl,pgdir_spawn]
  obtain ⟨hl',hsame⟩ := hother e' hee hl
  rw [hsame,(sameEnv_spawn hee).pgdir hl']
  exact h.env_uvpt e' hl'

lemma TableInv.spawn (h : TableInv s) (hl : s.envFreeList = e :: l) : TableInv (s.spawn e p a) := by
  have hnd := hl ▸ h.free_nodup
  refine ⟨?_,?_,?_,?_⟩
  · intro e' he'
    by_cases hee : e' = e
    · subst hee
      rw [pgdir_spawn,spawn_self]
      rfl
    have hs := sameEnv_spawn (s := s) (p := p) (a := a) hee
    have hl' := hs.live.mp he'
    rw [hs.pgdir hl',spawn_other hee]
    exact h.cr3 e' hl'
  · intro e'
    by_cases hee : e' = e
    · subst hee
      rw [spawn_self]
      exact h.dstva e'
    rw [spawn_other hee]
    exact h.dstva e'
  · change s.envFreeList.tail.Nodup
    rw [hl]
    exact (nodup_cons.mp hnd).2
  intro e'
  change e' ∈ s.envFreeList.tail ↔ _
  rw [hl,tail_cons]
  by_cases hee : e' = e
  · subst hee
    rw [spawn_self]
    simp [newEnv,(nodup_cons.mp hnd).1]
  rw [spawn_other hee,← h.free_iff,hl]
  simp [hee]

lemma Inv.spawn (h : Inv K hand s) (hl : s.envFreeList = e :: l)
    (hq : s.pageFreeList = p :: q) : Inv K hand (s.spawn e p a) := by
  have hmem : p ∈ s.pageFreeList := by simp [hq]
  have hstr := h.free_not_structural hmem
  have hman := h.balanced.free_managed p hmem
  obtain ⟨he,hfree⟩ := (h.table.free_iff e).mp (by simp [hl])
  have hdead : ¬s.Live e := fun hc => hc.2 hfree
  have hx : Slot.dir e ∈ slots := dir_mem_slots.mpr he
  have hh := holds_spawn (a := a) h he hfree hstr
  have hb := h.balanced
  rw [hq] at hb
  refine h.reassign rfl hh ?_ ?_ ?_ (h.half.spawn hstr) (h.table.spawn hl)
  · have hb' := hb.take.assign hx hh (fun o ho => h.held _ hx o ho)
      (fun f hf hfl => by
        cases hf
        exact (nodup_cons.mp hb.nodup).1 hfl)
    rw [holds_dead (x := .dir e) hdead] at hb'
    change Balanced slots (Managed K s.npage) hand (s.spawn e p a).holds
      (acquire s.ppRef (some p)) s.pageFreeList.tail
    rw [hq]
    refine hb'.hand_congr fun f => ⟨fun hf => ⟨Or.inl hf,?_⟩,fun hf => ?_⟩
    · intro hc
      cases hc
      exact hb.hand_free p hf (by simp)
    rcases hf with ⟨hf | rfl,hne⟩
    · exact hf
    exact absurd rfl hne
  · intro f hf
    cases hf
    exact ⟨hman,fun y hy _ => h.balanced.not_held hmem y hy⟩
  intro e' d he' hd hpres
  by_cases hee : e' = e
  · subst hee
    exact absurd hpres (pde_spawn_low h hd)
  have hs := sameEnv_spawn (s := s) (p := p) (a := a) hee
  have hl' := hs.live.mp he'
  have hsame : (s.spawn e p a).pde e' d = s.pde e' d := by
    rw [pde,hs.pgdir hl',mem_spawn fun hc => hstr (Or.inr (Or.inl ⟨e',hl',hc⟩))]
  rw [hsame] at hpres ⊢
  exact h.pde_word e' d hl' hd hpres

end spawn

section reap

variable {K : Finset Nat} {hand : Nat → Prop} {s : Kern} {e : Nat} {e' : Nat}

lemma reap_other (hne : e' ≠ e) : (s.reap e).envs e' = s.envs e' := update_of_ne hne _ _

lemma reap_self :
    (s.reap e).envs e = {s.envs e with envPgdir := 0, envCr3 := 0, envStatus := .free} :=
  update_self _ _ _

lemma dead_reap : ¬(s.reap e).Live e := by
  intro h
  exact h.2 (by rw [reap_self])

lemma sameEnv_reap (hne : e' ≠ e) : SameEnv s (s.reap e) e' := by
  constructor
  · unfold Live
    rw [reap_other hne]
  intro _
  rw [pgdir,reap_other hne]

lemma pde_reap (hne : e' ≠ e) (d : Nat) : (s.reap e).pde e' d = s.pde e' d := by
  rw [pde,pgdir,reap_other hne]
  rfl

lemma holds_reap (hz : ∀ d < NUPDE, ¬Present (s.pde e d)) :
    ∀ y ∈ slots, (s.reap e).holds y = if y = .dir e then none else s.holds y := by
  intro y hy
  by_cases hye : y.env = e
  · have hdead : ¬(s.reap e).Live y.env := by rw [hye]; exact dead_reap
    rw [holds_dead hdead]
    cases y with
    | dir e' =>
      obtain rfl : e' = e := hye
      rw [if_pos rfl]
    | pde e' d =>
      obtain rfl : e' = e := hye
      rw [if_neg (by simp),holds_pde_absent (hz d (pde_mem_slots.mp hy).2)]
    | pte e' n =>
      obtain rfl : e' = e := hye
      have hn := hz _ (pde_of_page (pte_mem_slots.mp hy).2)
      rw [if_neg (by simp),holds,pte_of_absent hn]
      simp
  have hne : y ≠ .dir e := fun hc => hye (by rw [hc]; rfl)
  rw [if_neg hne]
  have hmem : ∀ f, s.Structural ∅ f → (s.reap e).mem f = s.mem f := fun _ _ => rfl
  exact holds_congr hmem y hy (sameEnv_reap hye)

lemma live_of_live_reap (h : (s.reap e).Live e') : e' ≠ e ∧ s.Live e' := by
  have hne : e' ≠ e := by
    rintro rfl
    exact dead_reap h
  exact ⟨hne,(sameEnv_reap hne).live.mp h⟩

lemma KernHalf.reap (h : KernHalf K s) : KernHalf K (s.reap e) := by
  refine ⟨h.kernel_lt,h.boot_mem,h.boot_dir,h.boot_low,h.boot_high,?_,?_,?_⟩
  · intro e' he' d
    obtain ⟨hne,hl⟩ := live_of_live_reap he'
    rw [pde_reap hne]
    exact h.env_high e' hl d
  · intro e' he'
    obtain ⟨hne,hl⟩ := live_of_live_reap he'
    rw [pde_reap hne,(sameEnv_reap hne).pgdir hl]
    exact h.env_vpt e' hl
  intro e' he'
  obtain ⟨hne,hl⟩ := live_of_live_reap he'
  rw [pde_reap hne,(sameEnv_reap hne).pgdir hl]
  exact h.env_uvpt e' hl

lemma TableInv.reap (h : TableInv s) (he : s.Live e) : TableInv (s.reap e) := by
  refine ⟨?_,?_,?_,?_⟩
  · intro e' he'
    obtain ⟨hne,hl⟩ := live_of_live_reap he'
    rw [(sameEnv_reap hne).pgdir hl,reap_other hne]
    exact h.cr3 e' hl
  · intro e'
    by_cases hee : e' = e
    · subst hee
      rw [reap_self]
      exact h.dstva e'
    rw [reap_other hee]
    exact h.dstva e'
  · exact nodup_cons.mpr ⟨fun hc => he.2 ((h.free_iff e).mp hc).2,h.free_nodup⟩
  intro e'
  change e' ∈ e :: s.envFreeList ↔ _
  by_cases hee : e' = e
  · subst hee
    rw [reap_self]
    simp [he.1]
  rw [reap_other hee,mem_cons,h.free_iff]
  simp [hee]

lemma Inv.reap (h : Inv K hand s) (he : s.Live e) (hz : ∀ d < NUPDE, ¬Present (s.pde e d)) :
    Inv K hand (s.reap e) := by
  have hx : Slot.dir e ∈ slots := dir_mem_slots.mpr he.1
  have hh := holds_reap hz
  refine h.reassign rfl hh ?_ (fun f hf => by cases hf) ?_ h.half.reap (h.table.reap he)
  · have hb := h.balanced.assign hx hh (fun o ho => h.held _ hx o ho) (fun f hf => by cases hf)
    rw [holds_dir he] at hb
    exact hb.hand_congr fun f => by simp
  intro e' d he' hd hp
  obtain ⟨hne,hl⟩ := live_of_live_reap he'
  rw [pde_reap hne] at hp ⊢
  exact h.pde_word e' d hl hd hp

end reap

structure Quiet (v v' : Env) : Prop where
  pgdir : v'.envPgdir = v.envPgdir
  cr3 : v'.envCr3 = v.envCr3
  free : v'.envStatus = .free ↔ v.envStatus = .free
  dstva : v'.envIpcDstva = v.envIpcDstva ∨ v'.envIpcDstva = 0 ∨ ¬BadVa v'.envIpcDstva

structure QuietStep (s s' : Kern) : Prop where
  npage : s'.npage = s.npage
  mem : s'.mem = s.mem
  ref : s'.ppRef = s.ppRef
  pages : s'.pageFreeList = s.pageFreeList
  envFree : s'.envFreeList = s.envFreeList
  boot : s'.bootPgdir = s.bootPgdir
  envs : ∀ e, Quiet (s.envs e) (s'.envs e)

section quiet

variable {K : Finset Nat} {hand : Nat → Prop} {s s' : Kern}

lemma QuietStep.sameEnvs (h : QuietStep s s') : SameEnvs s s' where
  npage := h.npage
  boot := h.boot
  env e := ⟨and_congr_right fun _ => not_congr (h.envs e).free,fun _ => (h.envs e).pgdir⟩

lemma Inv.quiet (h : Inv K hand s) (hq : QuietStep s s') : Inv K hand s' := by
  have hs := hq.sameEnvs
  have hh : ∀ x ∈ slots, s'.holds x = s.holds x :=
    fun x hx => holds_congr (K := K) (fun f _ => by rw [hq.mem]) x hx (hs.env _)
  have hpde : ∀ e d, s'.pde e d = s.pde e d := by
    intro e d
    rw [pde,pgdir,(hq.envs e).pgdir,hq.mem]
  refine ⟨hq.npage ▸ h.npage_le,?_,?_,h.sole.congr hh,?_,?_,?_⟩
  · rw [hq.npage,hq.ref,hq.pages]
    exact h.balanced.congr hh
  · intro x hx f hf
    rw [hh x hx] at hf
    rw [hq.npage]
    exact h.held x hx f hf
  · intro e d he hd hp
    rw [hpde] at hp ⊢
    exact h.pde_word e d ((hs.env e).live.mp he) hd hp
  · exact h.half.congr hs (fun f _ => by rw [hq.mem]) (fun e _ d _ => by rw [hq.mem])
  refine ⟨?_,?_,?_,?_⟩
  · intro e he
    rw [(hq.envs e).cr3,pgdir,(hq.envs e).pgdir]
    exact h.table.cr3 e ((hs.env e).live.mp he)
  · intro e
    rcases (hq.envs e).dstva with hd | hd
    · rw [hd]
      exact h.table.dstva e
    exact hd
  · rw [hq.envFree]
    exact h.table.free_nodup
  intro e
  rw [hq.envFree,(hq.envs e).free]
  exact h.table.free_iff e

end quiet

end KludgeOS
