import KludgeOS.Trap
import KludgeOS.Ledger

/-!
What the frames are used for. A slot is a place that refers to a frame. The reference counts are
the ledger of these slots, and directories and tables are referred to from one place only.
-/

namespace KludgeOS
open Ledger Option Finset

inductive Slot where
  | dir : Nat → Slot
  | pde : Nat → Nat → Slot
  | pte : Nat → Nat → Slot
  deriving DecidableEq

def Slot.Table : Slot → Prop
  | .pte _ _ => False
  | _ => True

def Slot.env : Slot → Nat
  | .dir e | .pde e _ | .pte e _ => e

def slotsOf (a b c : Nat) : Finset Slot :=
  (range a).image .dir ∪
  (range a ×ˢ range b).image (fun p => .pde p.1 p.2) ∪
  (range a ×ˢ range c).image (fun p => .pte p.1 p.2)

variable {a b c e d n : Nat}

lemma dir_mem_slotsOf : Slot.dir e ∈ slotsOf a b c ↔ e < a := by simp [slotsOf]

lemma pde_mem_slotsOf : Slot.pde e d ∈ slotsOf a b c ↔ e < a ∧ d < b := by simp [slotsOf]

lemma pte_mem_slotsOf : Slot.pte e n ∈ slotsOf a b c ↔ e < a ∧ n < c := by simp [slotsOf]

@[irreducible] def slots : Finset Slot := slotsOf NENV NUPDE NUPAGE

@[simp] lemma dir_mem_slots : Slot.dir e ∈ slots ↔ e < NENV := by
  unfold slots; exact dir_mem_slotsOf

@[simp] lemma pde_mem_slots : Slot.pde e d ∈ slots ↔ e < NENV ∧ d < NUPDE := by
  unfold slots; exact pde_mem_slotsOf

@[simp] lemma pte_mem_slots : Slot.pte e n ∈ slots ↔ e < NENV ∧ n < NUPAGE := by
  unfold slots; exact pte_mem_slotsOf

lemma pde_of_page (h : n < NUPAGE) : n/1024 < NUPDE := by
  have : NUPAGE = NUPDE*1024 := rfl
  omega

namespace Kern

abbrev pgdir (s : Kern) (e : Nat) : Nat := (s.envs e).envPgdir

abbrev pde (s : Kern) (e d : Nat) : Word := s.mem (s.pgdir e) d

abbrev pte (s : Kern) (e n : Nat) : Option Word := xlate s.mem (s.pgdir e) n

variable {s : Kern} {e n d f : Nat}

lemma pte_of_absent (h : ¬Present (s.pde e (n/1024))) : s.pte e n = none := if_neg h

lemma pte_of_present (h : Present (s.pde e (n/1024))) : s.pte e n =
      if Present (s.mem (PPN (s.pde e (n/1024))) (n%1024)) then
        some (s.mem (PPN (s.pde e (n/1024))) (n%1024)) else none := if_pos h

def holds (s : Kern) : Slot → Option Nat
  | .dir e => if s.Live e then some (s.pgdir e) else none
  | .pde e d => if s.Live e ∧ Present (s.pde e d) then some (PPN (s.pde e d)) else none
  | .pte e n => if s.Live e then (s.pte e n).map PPN else none

lemma holds_dir (h : s.Live e) : s.holds (.dir e) = some (s.pgdir e) := if_pos h

lemma holds_pde (h : s.Live e) (hp : Present (s.pde e d)) :
    s.holds (.pde e d) = some (PPN (s.pde e d)) := if_pos ⟨h,hp⟩

lemma holds_pte (h : s.Live e) : s.holds (.pte e n) = (s.pte e n).map PPN := if_pos h

lemma holds_dead {x : Slot} (h : ¬s.Live x.env) : s.holds x = none := by
  cases x with
  | dir e => exact if_neg h
  | pde e d => exact if_neg fun hc => h hc.1
  | pte e n => exact if_neg h

lemma holds_pde_absent (h : ¬Present (s.pde e d)) :
    s.holds (.pde e d) = none := if_neg fun hc => h hc.2

lemma live_of_holds_dir (h : s.holds (.dir e) = some f) : s.Live e ∧ s.pgdir e = f := by
  by_cases hl : s.Live e <;> simp [holds,hl] at h
  exact ⟨hl,h⟩

lemma live_of_holds_pde (h : s.holds (.pde e d) = some f) :
    s.Live e ∧ Present (s.pde e d) ∧ PPN (s.pde e d) = f := by
  by_cases hl : s.Live e ∧ Present (s.pde e d)
  · simp only [holds,if_pos hl,some.injEq] at h
    exact ⟨hl.1,hl.2,h⟩
  simp only [holds,if_neg hl] at h
  cases h

lemma live_of_holds_pte (h : s.holds (.pte e n) = some f) :
    s.Live e ∧ ∃ w, s.pte e n = some w ∧ PPN w = f := by
  by_cases hl : s.Live e
  · simp only [holds,if_pos hl,map_eq_some_iff] at h
    exact ⟨hl,h⟩
  simp only [holds,if_neg hl] at h
  cases h

def Structural (K : Finset Nat) (s : Kern) (f : Nat) : Prop :=
  f ∈ K ∨ (∃ e, s.Live e ∧ s.pgdir e = f) ∨
  ∃ e d, s.Live e ∧ d < NUPDE ∧ Present (s.pde e d) ∧ PPN (s.pde e d) = f

end Kern

def Managed (K : Finset Nat) (n f : Nat) : Prop := f < n ∧ f ∉ K

/-- The half of every address space above `UTOP`. -/
structure KernHalf (K : Finset Nat) (s : Kern) : Prop where
  kernel_lt : ∀ f ∈ K, f < s.npage
  boot_mem : s.bootPgdir ∈ K
  boot_dir : DirOk s.mem s.bootPgdir
  boot_low : ∀ d < NUPDE, ¬Present (s.mem s.bootPgdir d)
  boot_high : ∀ d, NUPDE ≤ d → d < NPDENTRIES → d ≠ PDX VPT → d ≠ PDX UVPT →
    Present (s.mem s.bootPgdir d) → PPN (s.mem s.bootPgdir d) ∈ K ∧
      ∀ t < NPTENTRIES, UserStorable (s.mem s.bootPgdir d) → ¬UserStorable (s.mem (PPN (s.mem s.bootPgdir d)) t)
  env_high : ∀ e, s.Live e → ∀ d, NUPDE ≤ d → d < NPDENTRIES → d ≠ PDX VPT → d ≠ PDX UVPT →
    s.pde e d = s.mem s.bootPgdir d
  env_vpt : ∀ e, s.Live e → s.pde e (PDX VPT) = page2pa (s.pgdir e)|||PTE_P|||PTE_W
  env_uvpt : ∀ e, s.Live e → s.pde e (PDX UVPT) = page2pa (s.pgdir e)|||PTE_P|||PTE_U

structure TableInv (s : Kern) : Prop where
  cr3 : ∀ e, s.Live e → (s.envs e).envCr3 = page2pa (s.pgdir e)
  dstva : ∀ e, (s.envs e).envIpcDstva = 0 ∨ ¬Kern.BadVa (s.envs e).envIpcDstva
  free_nodup : s.envFreeList.Nodup
  free_iff : ∀ e, e ∈ s.envFreeList ↔ e < NENV ∧ (s.envs e).envStatus = .free

/-- The invariant, with the frames in `hand` off the free list and not yet referred to. -/
structure Inv (K : Finset Nat) (hand : Nat → Prop) (s : Kern) : Prop where
  npage_le : s.npage ≤ 2^20
  balanced : Balanced slots (Managed K s.npage) hand s.holds s.ppRef s.pageFreeList
  held : ∀ x ∈ slots, ∀ f, s.holds x = some f → Managed K s.npage f
  sole : Sole slots Slot.Table s.holds
  pde_word : ∀ e d, s.Live e → d < NUPDE → Present (s.pde e d) →
    s.pde e d = page2pa (PPN (s.pde e d))|||PTE_U|||PTE_W|||PTE_P
  half : KernHalf K s
  table : TableInv s

abbrev NoHand (_ : Nat) : Prop := False

end KludgeOS
