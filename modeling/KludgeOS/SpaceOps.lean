import KludgeOS.Space

/-!
How single stores into memory change the slots, and when they keep the
invariant.
-/

namespace KludgeOS
open Ledger
open Kern (holds_dir holds_pde holds_dead holds_pte)
open Kern Mem

namespace Inv

variable {K : Finset Nat} {hand : Nat → Prop} {s : Kern} {e d e' f n : Nat}

section

variable (h : Inv K hand s) (he : s.Live e)
include h he

lemma dir_held : Managed K s.npage (s.pgdir e) :=
  h.held (.dir e) (by simpa using he.1) _ (holds_dir he)

lemma table_held (hd : d < NUPDE) (hp : Present (s.pde e d)) :
    Managed K s.npage (PPN (s.pde e d)) :=
  h.held (.pde e d) (by simpa using ⟨he.1,hd⟩) _ (holds_pde he hp)

lemma dir_inj (he' : s.Live e') (hf : s.pgdir e' = s.pgdir e) : e' = e := by
  have := h.sole (.dir e) (by simpa using he.1) trivial (.dir e') (by simpa using he'.1) _
    (holds_dir he) (hf ▸ holds_dir he')
  simpa using this

lemma table_ne_dir (hd : d < NUPDE) (hp : Present (s.pde e d))
    (he' : s.Live e') : PPN (s.pde e d) ≠ s.pgdir e' := by
  intro hf
  have := h.sole (.dir e') (by simpa using he'.1) trivial (.pde e d)
    (by simpa using ⟨he.1,hd⟩) _ (holds_dir he') (hf ▸ holds_pde he hp)
  simp at this

lemma table_inj {d' : Nat} (hd : d < NUPDE)
    (hp : Present (s.pde e d)) (he' : s.Live e') (hd' : d' < NUPDE) (hp' : Present (s.pde e' d'))
    (hf : PPN (s.pde e' d') = PPN (s.pde e d)) : e' = e ∧ d' = d := by
  have := h.sole (.pde e d) (by simpa using ⟨he.1,hd⟩) trivial (.pde e' d')
    (by simpa using ⟨he'.1,hd'⟩) _ (holds_pde he hp) (hf ▸ holds_pde he' hp')
  simpa using this

end

lemma not_structural (hm : f ∉ K) (hf : ∀ x ∈ slots, x.Table → s.holds x ≠ some f) :
    ¬s.Structural K f := by
  rintro (hk | ⟨e,he,rfl⟩ | ⟨e,d,he,hd,hp,rfl⟩)
  · exact hm hk
  · exact hf (.dir e) (by simpa using he.1) trivial (holds_dir he)
  exact hf (.pde e d) (by simpa using ⟨he.1,hd⟩) trivial (holds_pde he hp)

lemma free_not_structural (h : Inv K hand s) (hf : f ∈ s.pageFreeList) : ¬s.Structural K f :=
  Inv.not_structural (h.balanced.free_managed f hf).2
    fun x hx _ => h.balanced.not_held hf x hx

lemma pte_not_table (h : Inv K hand s) (hn : n < NUPAGE) (hf : s.holds (.pte e n) = some f) :
    ∀ x ∈ slots, x.Table → s.holds x ≠ some f := by
  intro x hx ht hxf
  have hl := (live_of_holds_pte hf).1
  have := h.sole x hx ht (.pte e n) (by simpa using ⟨hl.1,hn⟩) f hxf hf
  rw [← this] at ht
  exact ht

lemma data_not_structural (h : Inv K hand s) (hn : n < NUPAGE) (hf : s.holds (.pte e n) = some f) :
    ¬s.Structural K f := by
  have hl := (live_of_holds_pte hf).1
  exact Inv.not_structural (h.held (.pte e n) (by simpa using ⟨hl.1,hn⟩) f hf).2
    (h.pte_not_table hn hf)

end Inv

/-- Environment `e` is the same in both states, up to what its address space depends on. -/
structure SameEnv (s s' : Kern) (e : Nat) : Prop where
  live : s'.Live e ↔ s.Live e
  pgdir : s.Live e → s'.pgdir e = s.pgdir e

structure SameEnvs (s s' : Kern) : Prop where
  npage : s'.npage = s.npage
  boot : s'.bootPgdir = s.bootPgdir
  env : ∀ e, SameEnv s s' e

variable {K : Finset Nat} {s s' : Kern}

lemma KernHalf.congr (h : KernHalf K s) (hs : SameEnvs s s') (hk : ∀ f ∈ K, s'.mem f = s.mem f)
    (hu : ∀ e, s.Live e → ∀ d, NUPDE ≤ d → s'.mem (s.pgdir e) d = s.mem (s.pgdir e) d) :
    KernHalf K s' where
  kernel_lt := by rw [hs.npage]; exact h.kernel_lt
  boot_mem := by rw [hs.boot]; exact h.boot_mem
  boot_dir := by rw [hs.boot]; exact h.boot_dir.congr (hk _ h.boot_mem)
  boot_low := by rw [hs.boot,hk _ h.boot_mem]; exact h.boot_low
  boot_high d hd hd' hv hu' hp := by
    rw [hs.boot,hk _ h.boot_mem] at hp ⊢
    obtain ⟨hmem,hprot⟩ := h.boot_high d hd hd' hv hu' hp
    exact ⟨hmem,by rw [hk _ hmem]; exact hprot⟩
  env_high e he d hd hd' hv hv' := by
    have hl := (hs.env e).live.mp he
    rw [pde,(hs.env e).pgdir hl,hu e hl d hd,hs.boot,hk _ h.boot_mem]
    exact h.env_high e hl d hd hd' hv hv'
  env_vpt e he := by
    have hl := (hs.env e).live.mp he
    rw [pde,(hs.env e).pgdir hl,hu e hl _ (by decide)]
    exact h.env_vpt e hl
  env_uvpt e he := by
    have hl := (hs.env e).live.mp he
    rw [pde,(hs.env e).pgdir hl,hu e hl _ (by decide)]
    exact h.env_uvpt e hl

section congr

variable {s s' : Kern} {e : Nat}

lemma holds_dir_congr (hs : SameEnv s s' e) : s'.holds (.dir e) = s.holds (.dir e) := by
  by_cases he : s.Live e
  · rw [holds_dir he,holds_dir (hs.live.mpr he),hs.pgdir he]
  rw [holds_dead (x := .dir e) he, holds_dead (x := .dir e) (fun h => he (hs.live.mp h))]

lemma holds_pde_congr (hs : SameEnv s s' e) {d : Nat} (hm : s.Live e →
    s'.mem (s.pgdir e) d = s.pde e d) : s'.holds (.pde e d) = s.holds (.pde e d) := by
  by_cases he : s.Live e
  · have heq : s'.pde e d = s.pde e d := by rw [pde,hs.pgdir he,hm he]
    by_cases hp : Present (s.pde e d)
    · rw [holds_pde he hp,holds_pde (hs.live.mpr he) (heq ▸ hp),heq]
    rw [holds_pde_absent hp,holds_pde_absent (heq ▸ hp)]
  rw [holds_dead (x := .pde e d) he, holds_dead (x := .pde e d) (fun h => he (hs.live.mp h))]

lemma holds_pte_congr (hs : SameEnv s s' e) {n : Nat} (hm : s.Live e →
    xlate s'.mem (s.pgdir e) n = s.pte e n) : s'.holds (.pte e n) = s.holds (.pte e n) := by
  by_cases he : s.Live e
  · rw [holds_pte he,holds_pte (hs.live.mpr he),pte,hs.pgdir he,hm he]
  rw [holds_dead (x := .pte e n) he, holds_dead (x := .pte e n) (fun h => he (hs.live.mp h))]

end congr

lemma xlate_structural {m : Mem} (hm : ∀ f, s.Structural K f → m f = s.mem f) {e n : Nat}
    (he : s.Live e) (hn : n < NUPAGE) : xlate m (s.pgdir e) n = s.pte e n := by
  apply xlate_congr
  · rw [hm _ (.inr (.inl ⟨e,he,rfl⟩))]
  intro hp
  rw [hm _ (.inr (.inr ⟨e,_,he,pde_of_page hn,hp,rfl⟩))]

lemma holds_congr (hm : ∀ f, s.Structural K f → s'.mem f = s.mem f) :
    ∀ x ∈ slots, SameEnv s s' x.env → s'.holds x = s.holds x := by
  intro x hx hs
  cases x with
  | dir e => exact holds_dir_congr hs
  | pde e d =>
    exact holds_pde_congr hs fun he => congrFun (hm _ (.inr (.inl ⟨e,he,rfl⟩))) d
  | pte e n =>
    exact holds_pte_congr hs fun he => xlate_structural hm he (pte_mem_slots.mp hx).2

def Kern.withPages (s : Kern) (m : Mem) (ref : Nat → Nat) (free : List Nat) : Kern :=
  {s with mem := m, ppRef := ref, pageFreeList := free}

lemma sameEnvs_withPages (s : Kern) (m : Mem) (ref : Nat → Nat) (free : List Nat) :
    SameEnvs s (s.withPages m ref free) :=
  ⟨rfl,rfl,fun _ => ⟨Iff.rfl,fun _ => rfl⟩⟩

lemma TableInv.withPages (h : TableInv s) (m : Mem) (ref : Nat → Nat) (free : List Nat) :
    TableInv (s.withPages m ref free) :=
  ⟨h.cr3,h.dstva,h.free_nodup,h.free_iff⟩

namespace Inv

variable {K : Finset Nat} {hand hand' : Nat → Prop} {s : Kern} {m : Mem} {x : Slot} {v : Option Nat}

lemma data (h : Inv K hand s) (hm : ∀ f, s.Structural K f → m f = s.mem f) :
    Inv K hand (s.withPages m s.ppRef s.pageFreeList) := by
  have hs := sameEnvs_withPages s m s.ppRef s.pageFreeList
  have hh : ∀ x ∈ slots, (s.withPages m s.ppRef s.pageFreeList).holds x = s.holds x :=
    fun x hx => holds_congr hm x hx (hs.env _)
  have hdir : ∀ e, s.Live e → m (s.pgdir e) = s.mem (s.pgdir e) :=
    fun e he => hm _ (.inr (.inl ⟨e,he,rfl⟩))
  refine ⟨h.npage_le,h.balanced.congr hh,?_,h.sole.congr hh,?_,?_,h.table.withPages _ _ _⟩
  · intro x hx f hf
    rw [hh x hx] at hf
    exact h.held x hx f hf
  · intro e d he hd hp
    have := h.pde_word e d he hd
    simp only [pde,withPages,hdir e he] at hp ⊢
    exact this hp
  exact h.half.congr hs (fun f hf => hm f (.inl hf))
    (fun e he d _ => by simp only [withPages,hdir e he])

lemma reassign (h : Inv K hand s) {s' : Kern} (hn : s'.npage = s.npage)
    (hh : ∀ y ∈ slots, s'.holds y = if y = x then v else s.holds y)
    (hbal : Balanced slots (Managed K s.npage) hand' s'.holds s'.ppRef s'.pageFreeList)
    (hv : ∀ f, v = some f → Managed K s.npage f ∧
      ∀ y ∈ slots, (y.Table ∨ x.Table) → s.holds y ≠ some f)
    (hw : ∀ e d, s'.Live e → d < NUPDE → Present (s'.pde e d) →
      s'.pde e d = page2pa (PPN (s'.pde e d))|||PTE_U|||PTE_W|||PTE_P) (hk : KernHalf K s')
    (ht : TableInv s') : Inv K hand' s' := by
  refine ⟨hn ▸ h.npage_le,hn ▸ hbal,?_,?_,hw,hk,ht⟩
  · intro y hy f hf
    rw [hn]
    rw [hh y hy] at hf
    split at hf
    · exact (hv f hf).1
    exact h.held y hy f hf
  exact h.sole.assign hh (fun f hf y hy ht => (hv f hf).2 y hy (.inl ht))
    (fun f hf ht y hy => (hv f hf).2 y hy (.inr ht))

lemma assign (h : Inv K hand s) {ref : Nat → Nat} {free : List Nat}
    (hh : ∀ y ∈ slots, (s.withPages m ref free).holds y = if y = x then v else s.holds y)
    (hbal : Balanced slots (Managed K s.npage) hand' (s.withPages m ref free).holds ref free)
    (hv : ∀ f, v = some f → Managed K s.npage f ∧
      ∀ y ∈ slots, (y.Table ∨ x.Table) → s.holds y ≠ some f) (hk : ∀ f ∈ K, m f = s.mem f)
    (hu : ∀ e, s.Live e → ∀ d, NUPDE ≤ d → m (s.pgdir e) d = s.mem (s.pgdir e) d)
    (hw : ∀ e d, s.Live e → d < NUPDE → Present (m (s.pgdir e) d) →
      m (s.pgdir e) d = page2pa (PPN (m (s.pgdir e) d))|||PTE_U|||PTE_W|||PTE_P) :
    Inv K hand' (s.withPages m ref free) :=
  h.reassign rfl hh hbal hv hw (h.half.congr (sameEnvs_withPages _ _ _ _) hk hu)
    (h.table.withPages _ _ _)

end Inv

def target (w : Word) : Option Nat := if Present w then some (PPN w) else none

lemma target_zero : target 0 = none := if_neg (by decide)

section setPte

variable {K : Finset Nat} {hand : Nat → Prop} {s : Kern} {e n : Nat}

section

variable (h : Inv K hand s) (he : s.Live e) (hn : n < NUPAGE) (hp : Present (s.pde e (n/1024)))
include h he hn hp

lemma setPte_dir (w : Word) {e' : Nat} (he' : s.Live e') :
    s.mem.set (PPN (s.pde e (n/1024))) (n%1024) w (s.pgdir e') = s.mem (s.pgdir e') :=
  set_frame _ _ _ (h.table_ne_dir he (pde_of_page hn) hp he').symm

lemma xlate_setPte (w : Word) {e' n' : Nat} (he' : s.Live e')
    (hn' : n' < NUPAGE) :
    xlate (s.mem.set (PPN (s.pde e (n/1024))) (n%1024) w) (s.pgdir e') n' =
      if e' = e ∧ n' = n then (if Present w then some w else none) else s.pte e' n' := by
  have hd := pde_of_page hn
  have hdir : s.mem.set (PPN (s.pde e (n/1024))) (n%1024) w (s.pgdir e') (n'/1024) =
      s.pde e' (n'/1024) := by rw [setPte_dir h he hn hp w he']
  by_cases hp' : Present (s.pde e' (n'/1024))
  · rw [xlate_of_present (by rw [hdir]; exact hp'),hdir]
    by_cases ht : PPN (s.pde e' (n'/1024)) = PPN (s.pde e (n/1024))
    · obtain ⟨rfl,hdd⟩ := h.table_inj he hd hp he' (pde_of_page hn') hp' ht
      rw [ht]
      by_cases hi : n'%1024 = n%1024
      · have hnn : n' = n := by omega
        have hsame : e' = e' ∧ n' = n := ⟨rfl,hnn⟩
        rw [hi,set_self,if_pos hsame]
      have hnn : n' ≠ n := fun hc => hi (by rw [hc])
      have hne : ¬(e' = e' ∧ n' = n) := fun hc => hnn hc.2
      rw [set_index _ _ _ _ hi,if_neg hne,pte_of_present hp',ht]
    have hne : ¬(e' = e ∧ n' = n) := by
      rintro ⟨rfl,rfl⟩
      exact ht rfl
    rw [set_frame _ _ _ ht,if_neg hne,pte_of_present hp']
  have hne : ¬(e' = e ∧ n' = n) := by
    rintro ⟨rfl,rfl⟩
    exact hp' hp
  rw [if_neg hne,pte_of_absent hp',xlate_of_absent (by rw [hdir]; exact hp')]

lemma holds_setPte (w : Word) (ref : Nat → Nat) (free : List Nat) : ∀ y ∈ slots,
      (s.withPages (s.mem.set (PPN (s.pde e (n/1024))) (n%1024) w) ref free).holds y =
        if y = .pte e n then target w else s.holds y := by
  intro y hy
  have hs := sameEnvs_withPages s (s.mem.set (PPN (s.pde e (n/1024))) (n%1024) w) ref free
  cases y with
  | dir e' => rw [if_neg (by simp)]; exact holds_dir_congr (hs.env e')
  | pde e' d =>
    rw [if_neg (by simp)]
    exact holds_pde_congr (hs.env e') fun he' => congrFun (setPte_dir h he hn hp w he') d
  | pte e' n' =>
    have hn' := (pte_mem_slots.mp hy).2
    by_cases heq : e' = e ∧ n' = n
    · obtain ⟨rfl,rfl⟩ := heq
      have hx := xlate_setPte h he hn hp w he hn
      rw [if_pos ⟨rfl,rfl⟩] at hx
      rw [if_pos rfl,holds_pte (s := s.withPages _ ref free) he]
      change (xlate (s.mem.set _ _ w) (s.pgdir e') n').map PPN = _
      rw [hx]
      unfold target
      split
      · rfl
      rfl
    rw [if_neg (by simpa using heq)]
    exact holds_pte_congr (hs.env e') fun he' => by
      have hx := xlate_setPte h he hn hp w he' hn'
      rw [if_neg heq] at hx
      exact hx

end

/-- Storing entry `w` for page `n`, with the counts of the old and the new frame settled. -/
def Kern.assignPte (s : Kern) (e n : Nat) (w : Word) : Kern :=
  let old := (s.pte e n).map PPN
  let ref := release (acquire s.ppRef (target w)) old
  s.withPages (s.mem.set (PPN (s.pde e (n/1024))) (n%1024) w) ref
    (recycle ref s.pageFreeList old)

lemma Inv.assignPte (h : Inv K hand s)
    (he : s.Live e) (hn : n < NUPAGE) (hp : Present (s.pde e (n/1024))) {w : Word}
    (hw : ∀ f, target w = some f → Managed K s.npage f ∧ f ∉ s.pageFreeList ∧ ∀ x ∈ slots, x.Table →
    s.holds x ≠ some f) : Inv K (fun f => hand f ∧ target w ≠ some f) (s.assignPte e n w) := by
  have hx : Slot.pte e n ∈ slots := pte_mem_slots.mpr ⟨he.1,hn⟩
  have hh := holds_setPte h he hn hp w
  apply h.assign (hh _ _)
  · rw [← holds_pte he]
    exact h.balanced.assign hx (hh _ _) (fun o ho => h.held _ hx o ho)
      (fun f hf => (hw f hf).2.1)
  · intro f hf
    refine ⟨(hw f hf).1,fun y hy ht => ?_⟩
    obtain ht | ht := ht
    · exact (hw f hf).2.2 y hy ht
    exact ht.elim
  · intro f hf
    refine set_frame _ _ _ ?_
    rintro rfl
    exact (h.table_held he (pde_of_page hn) hp).2 hf
  · intro e' he' d _
    rw [setPte_dir h he hn hp w he']
  intro e' d he' hd hp'
  rw [setPte_dir h he hn hp w he'] at hp' ⊢
  exact h.pde_word e' d he' hd hp'

end setPte

end KludgeOS
