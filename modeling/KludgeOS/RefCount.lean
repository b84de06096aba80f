import KludgeOS.Reach

/-!
Reference counts and the free list in reachable states.
-/

namespace KludgeOS
open Ledger Traces
open Finset
open Function

namespace Kern

/-- The entries below `UTOP` that map frame `f`: environment and page number. -/
@[irreducible] def mappings (s : Kern) (f : Nat) : Finset (Nat × Nat) :=
  (range NENV ×ˢ range NUPAGE).filter fun p =>
    s.Live p.1 ∧ (s.pte p.1 p.2).map PPN = some f

/-- The directory entries below `UTOP` that use frame `f` as a table. -/
@[irreducible] def tables (s : Kern) (f : Nat) : Finset (Nat × Nat) :=
  (range NENV ×ˢ range NUPDE).filter fun p =>
    s.Live p.1 ∧ Present (s.pde p.1 p.2) ∧ PPN (s.pde p.1 p.2) = f

def IsDir (s : Kern) (f : Nat) : Prop := ∃ e, s.Live e ∧ s.pgdir e = f

/-- Environment `e` refers to frame `f`: as its directory, as a table, or by mapping it. -/
def Refers (s : Kern) (e f : Nat) : Prop :=
  s.Live e ∧ (s.pgdir e = f ∨ (∃ d < NUPDE, Present (s.pde e d) ∧ PPN (s.pde e d) = f) ∨
    ∃ n < NUPAGE, ∃ w, s.pte e n = some w ∧ PPN w = f)

end Kern

section count

variable {φ : Type} [DecidableEq φ]

lemma refs_slotsOf (a b c : Nat) (h : Slot → Option φ) (f : φ) : refs (slotsOf a b c) h f =
    ((range a ×ˢ range c).filter fun p => h (.pte p.1 p.2) = some f).card +
    ((range a ×ˢ range b).filter fun p => h (.pde p.1 p.2) = some f).card +
    ((range a).filter fun e => h (.dir e) = some f).card := by
  have hdir : Injective Slot.dir := fun x y hxy => by simpa using hxy
  have hpde : Injective fun p : Nat × Nat => Slot.pde p.1 p.2 := by
    rintro ⟨x,y⟩ ⟨x',y'⟩ hxy
    simpa using hxy
  have hpte : Injective fun p : Nat × Nat => Slot.pte p.1 p.2 := by
    rintro ⟨x,y⟩ ⟨x',y'⟩ hxy
    simpa using hxy
  rw [refs,slotsOf,filter_union,filter_union,filter_image,filter_image,filter_image,
    card_union_of_disjoint,card_union_of_disjoint,card_image_of_injective _
    hdir,card_image_of_injective _ hpde,card_image_of_injective _ hpte]
  · omega
  · rw [disjoint_left]
    simp only [mem_image,not_exists,not_and]
    rintro x ⟨e,_,rfl⟩ p _ hp
    contradiction
  rw [disjoint_left]
  simp only [mem_union,mem_image,not_exists,not_and]
  rintro x (⟨e,_,rfl⟩ | ⟨p,_,rfl⟩) q _ hq
  · contradiction
  contradiction

end count

section counts

variable {K : Finset Nat} {s : Kern} {f : Nat} {e n : Nat}

lemma holds_pde_iff {d : Nat} :
    s.holds (.pde e d) = some f ↔ s.Live e ∧ Present (s.pde e d) ∧ PPN (s.pde e d) = f := by
  constructor
  · exact Kern.live_of_holds_pde
  rintro ⟨he,hp,rfl⟩
  exact Kern.holds_pde he hp

lemma holds_pte_iff : s.holds (.pte e n) = some f ↔ s.Live e ∧ (s.pte e n).map PPN = some f := by
  constructor
  · intro h
    obtain ⟨hl,w,hw,rfl⟩ := Kern.live_of_holds_pte h
    exact ⟨hl,by rw [hw]; rfl⟩
  rintro ⟨he,hw⟩
  rw [Kern.holds_pte he,hw]

lemma holds_dir_iff : s.holds (.dir e) = some f ↔ s.Live e ∧ s.pgdir e = f := by
  constructor
  · exact Kern.live_of_holds_dir
  rintro ⟨he,rfl⟩
  exact Kern.holds_dir he

lemma refs_slots (h : Slot → Option Nat) (f : Nat) :
    refs slots h f = ((range NENV ×ˢ range NUPAGE).filter fun p => h (.pte p.1 p.2) = some f).card +
    ((range NENV ×ˢ range NUPDE).filter fun p => h (.pde p.1 p.2) = some f).card +
    ((range NENV).filter fun e => h (.dir e) = some f).card := by
  unfold slots
  exact refs_slotsOf _ _ _ _ _

lemma mappings_eq : s.mappings f = (range NENV ×ˢ range NUPAGE).filter
    fun p => s.holds (.pte p.1 p.2) = some f := by
  unfold Kern.mappings
  exact filter_congr fun _ _ => holds_pte_iff.symm

lemma mem_mappings :
    (e,n) ∈ s.mappings f ↔ s.Live e ∧ n < NUPAGE ∧ (s.pte e n).map PPN = some f := by
  unfold Kern.mappings
  rw [mem_filter,mem_product,mem_range,mem_range]
  exact ⟨fun h => ⟨h.2.1,h.1.2,h.2.2⟩,fun h => ⟨⟨h.1.1,h.2.1⟩,h.1,h.2.2⟩⟩

lemma tables_eq : s.tables f = (range NENV ×ˢ range NUPDE).filter
    fun p => s.holds (.pde p.1 p.2) = some f := by
  unfold Kern.tables
  exact filter_congr fun _ _ => holds_pde_iff.symm

open scoped Classical in
lemma card_dirs (h : Inv K NoHand s) (f : Nat) :
    ((range NENV).filter fun e => s.holds (.dir e) = some f).card =
      if s.IsDir f then 1 else 0 := by
  split
  · rename_i hd
    obtain ⟨e,he,rfl⟩ := hd
    rw [card_eq_one]
    refine ⟨e,?_⟩
    ext e'
    simp only [mem_filter,mem_range,holds_dir_iff,mem_singleton]
    constructor
    · rintro ⟨_,he',heq⟩
      exact h.dir_inj he he' heq
    rintro rfl
    exact ⟨he.1,he,rfl⟩
  rename_i hd
  rw [card_eq_zero,filter_eq_empty_iff]
  intro e _ he
  exact hd ⟨e,holds_dir_iff.mp he⟩

open scoped Classical in
section

variable (h : Inv K NoHand s) (hf : Managed K s.npage f)
include h hf

lemma Inv.ppRef_eq :
    s.ppRef f = (s.mappings f).card+(s.tables f).card+(if s.IsDir f then 1 else 0) := by
  rw [h.balanced.count f hf,refs_slots,card_dirs h,← mappings_eq,← tables_eq]

lemma Inv.free_iff : f ∈ s.pageFreeList ↔ s.ppRef f = 0 :=
  ⟨h.balanced.free_zero f,h.balanced.zero_free f hf id⟩

lemma Inv.free_iff_holds : f ∈ s.pageFreeList ↔ ∀ x ∈ slots, s.holds x ≠ some f := by
  rw [h.free_iff hf,h.balanced.count f hf,refs_eq_zero]

lemma Inv.free_count :
    s.pageFreeList.count f = if s.ppRef f = 0 then 1 else 0 := by
  split
  · rename_i hz
    exact List.count_eq_one_of_mem h.balanced.nodup ((h.free_iff hf).mpr hz)
  rename_i hz
  exact List.count_eq_zero_of_not_mem fun hc => hz ((h.free_iff hf).mp hc)

end

lemma refers_iff_holds : s.Refers e f ↔ ∃ x ∈ slots, x.env = e ∧ s.holds x = some f := by
  constructor
  · rintro ⟨he,hd | ⟨d,hd,hp,hf⟩ | ⟨n,hn,w,hw,hf⟩⟩
    · exact ⟨.dir e,dir_mem_slots.mpr he.1,rfl,holds_dir_iff.mpr ⟨he,hd⟩⟩
    · exact ⟨.pde e d,pde_mem_slots.mpr ⟨he.1,hd⟩,rfl,holds_pde_iff.mpr ⟨he,hp,hf⟩⟩
    exact ⟨.pte e n,pte_mem_slots.mpr ⟨he.1,hn⟩,rfl,
      holds_pte_iff.mpr ⟨he,by rw [hw,← hf]; rfl⟩⟩
  rintro ⟨x,hx,rfl,hh⟩
  cases x with
  | dir e =>
    obtain ⟨he,hd⟩ := holds_dir_iff.mp hh
    exact ⟨he,.inl hd⟩
  | pde e d =>
    obtain ⟨he,hp,hf⟩ := holds_pde_iff.mp hh
    exact ⟨he,.inr (.inl ⟨d,(pde_mem_slots.mp hx).2,hp,hf⟩)⟩
  | pte e n =>
    obtain ⟨he,w,hw,hf⟩ := Kern.live_of_holds_pte hh
    exact ⟨he,.inr (.inr ⟨n,(pte_mem_slots.mp hx).2,w,hw,hf⟩)⟩

lemma holds_freed (h : Inv K NoHand s) {s' : Kern} (hd : Does (Event.Frees e) s s')
    (hdead : ¬s'.Live e) : ∀ x ∈ slots, s'.holds x = if x.env = e then none else s.holds x := by
  intro x hx
  by_cases hxe : x.env = e
  · rw [if_pos hxe]
    exact Kern.holds_dead (by rw [hxe]; exact hdead)
  rw [if_neg hxe]
  by_cases hl : s.Live x.env
  · have hs := hd.invariant (I := fun t => Inv K NoHand t ∧ SameSpace s t x.env)
      (fun t a ht hok ha => ⟨ht.1.event hok,ht.2.trans (Event.sameSpace ht.1 hok ht.2.live
        (by
          cases a with
          | unmap e1 n | dropTable e1 d | reap e1 =>
            obtain rfl : e1 = e := ha
            simpa [Event.env] using Ne.symm hxe
          | _ => exact ha.elim))⟩) ⟨h,.refl hl⟩
    obtain ⟨_,hs⟩ := hs
    have henv : SameEnv s s' x.env := ⟨⟨fun _ => hl,fun _ => hs.live⟩,fun _ => hs.pgdir⟩
    cases x with
    | dir e' => exact holds_dir_congr henv
    | pde e' d =>
      exact holds_pde_congr henv fun _ => hs.pgdir ▸ hs.pde d (pde_mem_slots.mp hx).2
    | pte e' n =>
      exact holds_pte_congr henv fun _ => hs.pgdir ▸ hs.pte n (pte_mem_slots.mp hx).2
  have hl' : ¬s'.Live x.env := by
    unfold Kern.Live at hl ⊢
    rw [hd.frees_other hxe]
    exact hl
  rw [Kern.holds_dead hl,Kern.holds_dead hl']

lemma envFree_frees (h : Inv K NoHand s)
    (he : s.Live e) : ∃ s', s.envFree e = some s' ∧ ∀ f, Managed K s.npage f →
    (f ∈ s'.pageFreeList ↔ f ∈ s.pageFreeList ∨ (s.Refers e f ∧ ∀ e', s.Refers e' f → e' = e)) := by
  obtain ⟨s',hs',hd,hdead⟩ := envFree_spec h he
  refine ⟨s',hs',fun f hf => ?_⟩
  have hh := holds_freed h hd hdead
  have hn : s'.npage = s.npage := by
    refine hd.invariant (I := fun t => t.npage = s.npage) (fun t a ht _ ha => ?_) rfl
    cases a with
    | unmap | dropTable | reap => exact ht
    | _ => exact ha.elim
  rw [(hd.inv h).free_iff_holds (by rw [hn]; exact hf),h.free_iff_holds hf]
  constructor
  · intro hfree
    by_cases hall : ∀ x ∈ slots, s.holds x ≠ some f
    · exact .inl hall
    obtain ⟨x,hx⟩ := not_forall.mp hall
    obtain ⟨hx,hxf⟩ := Classical.not_imp.mp hx
    have honly : ∀ e', s.Refers e' f → e' = e := by
      intro e' hr
      obtain ⟨y,hy,rfl,hyf⟩ := refers_iff_holds.mp hr
      by_contra hne
      have := hfree y hy
      rw [hh y hy,if_neg hne] at this
      exact this hyf
    have hrx : s.Refers x.env f := refers_iff_holds.mpr ⟨x,hx,rfl,not_not.mp hxf⟩
    exact .inr ⟨honly _ hrx ▸ hrx,honly⟩
  rintro (hfree | ⟨_,honly⟩) x hx
  · rw [hh x hx]
    split
    · simp
    exact hfree x hx
  rw [hh x hx]
  split
  · simp
  rename_i hne
  exact fun hf => hne (honly _ (refers_iff_holds.mpr ⟨x,hx,rfl,hf⟩))

end counts

open scoped Classical in
/-- The reference count of a frame is the number of its uses, and the frame is free just if that
is zero. -/
theorem ppRef_exact {K : Finset Nat} {s : Kern} (h : Reachable K s) {f : Nat} (hf : f < s.npage)
    (hk : f ∉ K) :
    s.ppRef f = (s.mappings f).card+(s.tables f).card+(if s.IsDir f then 1 else 0) ∧
    s.pageFreeList.count f = (if s.ppRef f = 0 then 1 else 0) ∧
    ∀ e, s.Live e → ∃ s', s.envFree e = some s' ∧
      (f ∈ s'.pageFreeList ↔
        f ∈ s.pageFreeList ∨ (s.Refers e f ∧ ∀ e', s.Refers e' f → e' = e)) := by
  have hi := h.good.inv
  refine ⟨hi.ppRef_eq ⟨hf,hk⟩,hi.free_count ⟨hf,hk⟩,fun e he => ?_⟩
  obtain ⟨s',hs',hiff⟩ := envFree_frees hi he
  exact ⟨s',hs',hiff f ⟨hf,hk⟩⟩

open scoped Classical in
theorem ppRef_exact_stack : ∃ s, Reachable {0} s ∧ s.ppRef 2 = 1 ∧ s.Live 0 ∧
    s.ppRef 2 = (s.mappings 2).card+(s.tables 2).card+(if s.IsDir 2 then 1 else 0) ∧
    s.pageFreeList.count 2 = (if s.ppRef 2 = 0 then 1 else 0) ∧
    ∀ e, s.Live e → ∃ s', s.envFree e = some s' ∧
      (2 ∈ s'.pageFreeList ↔
        2 ∈ s.pageFreeList ∨ (s.Refers e 2 ∧ ∀ e', s.Refers e' 2 → e' = e)) := by
  have hrun : ((bootKern 8).exec (.create 0x800020 [])).map
      (fun s => decide (s.npage = 8 ∧ s.ppRef 2 = 1 ∧ s.Live 0)) = some true := by decide +kernel
  obtain ⟨s,hs,hn,href,hl⟩ := of_map_decide hrun
  have hreach : Reachable {0} s :=
    .step (.boot (boot_bootKern (by decide) (by decide))) (step_of_exec hs)
  exact ⟨s,hreach,href,hl,ppRef_exact hreach (by omega) (by decide)⟩

end KludgeOS
