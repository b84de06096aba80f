import KludgeOS.EnvOps

/-!
What the page table functions of `kern/pmap.c` compute on a live environment's directory, below
`UTOP`: they never panic, and give the operations on slots.
-/

namespace KludgeOS
open Ledger Kern

namespace Kern

variable {s : Kern} {g : Nat} {v : Word}

lemma pa2page_of_lt {pa : Word} (h : PPN pa < s.npage) : s.pa2page pa = some (PPN pa) := if_pos h

lemma walkTable_eq (ht : PPN (s.mem g (PDX v)) < s.npage) :
    s.walkTable g v = some (some ⟨PPN (s.mem g (PDX v)),PTX v⟩,s) := by
  have hp : s.pa2page (PTE_ADDR (s.mem g (PDX v))) = some (PPN (s.mem g (PDX v))) := by
    rw [pa2page_of_lt (by rw [PPN_PTE_ADDR]; exact ht),PPN_PTE_ADDR]
  rw [walkTable,hp]
  rfl

lemma pgdirWalk_present {create : Bool} (hp : Present (s.mem g (PDX v))) (ht : PPN (s.mem g
    (PDX v)) < s.npage) : s.pgdirWalk g v create = some (some ⟨PPN (s.mem g (PDX v)),PTX v⟩,s) := by
  rw [pgdirWalk,if_pos hp,walkTable_eq ht]

lemma pgdirWalk_absent (hp : ¬Present (s.mem g (PDX v))) :
    s.pgdirWalk g v false = some (none,s) := by rw [pgdirWalk,if_neg hp,if_pos rfl]

lemma pageLookup_present (hp : Present (s.mem g (PDX v)))
    (ht : PPN (s.mem g (PDX v)) < s.npage) (hw : Present (s.mem (PPN (s.mem g (PDX v))) (PTX v)))
    (hf : PPN (s.mem (PPN (s.mem g (PDX v))) (PTX v)) < s.npage) : s.pageLookup g v =
    some (some (PPN (s.mem (PPN (s.mem g (PDX v))) (PTX v)), ⟨PPN (s.mem g (PDX v)),PTX v⟩),s) := by
  simp only [pageLookup,pgdirWalk_present hp ht,bind,Option.bind,if_pos hw,pa2page_of_lt hf]
  rfl

lemma pageDecref_eq {pp : Nat} (h : 0 < s.ppRef pp) :
    s.pageDecref pp = some (s.withPages s.mem (release s.ppRef (some pp))
      (recycle (release s.ppRef (some pp)) s.pageFreeList (some pp))) := by
  have hlist : recycle (release s.ppRef (some pp)) s.pageFreeList (some pp) =
      if release s.ppRef (some pp) pp = 0 then pp :: s.pageFreeList else s.pageFreeList := rfl
  rw [hlist,pageDecref,if_pos h]
  by_cases hz : release s.ppRef (some pp) pp = 0
  · rw [if_pos hz]
    exact (if_pos hz).trans (if_pos hz)
  rw [if_neg hz]
  exact if_neg hz

lemma pageRemove_present (hp : Present (s.mem g (PDX v)))
    (ht : PPN (s.mem g (PDX v)) < s.npage)
    (hw : Present (s.mem (PPN (s.mem g (PDX v))) (PTX v)))
    (hf : PPN (s.mem (PPN (s.mem g (PDX v))) (PTX v)) < s.npage)
    (hr : 0 < s.ppRef (PPN (s.mem (PPN (s.mem g (PDX v))) (PTX v)))) :
    s.pageRemove g v = let old := some (PPN (s.mem (PPN (s.mem g (PDX v))) (PTX v)))
      some (s.withPages (s.mem.set (PPN (s.mem g (PDX v))) (PTX v) 0)
        (release s.ppRef old) (recycle (release s.ppRef old) s.pageFreeList old)) := by
  simp only [pageRemove,pageLookup_present hp ht hw hf,bind,Option.bind,pageDecref_eq hr]
  rfl

end Kern

section live

variable {K : Finset Nat} {hand : Nat → Prop} {s : Kern} {e : Nat} {va : Word}

lemma pde_PDX (s : Kern) (e : Nat) (va : Word) :
    s.pde e (PPN va/1024) = s.mem (s.pgdir e) (PDX va) := by rw [← PDX_eq]

lemma Inv.table_lt (h : Inv K hand s) (he : s.Live e) (hva : va < UTOP)
    (hp : Present (s.mem (s.pgdir e) (PDX va))) : PPN (s.mem (s.pgdir e) (PDX va)) < s.npage :=
  (h.table_held he (PDX_lt_NUPDE hva) hp).1

variable {n : Nat} {w : Word}

lemma Inv.page_managed (h : Inv K hand s) (he : s.Live e) (hn : n < NUPAGE)
    (hw : s.pte e n = some w) : Managed K s.npage (PPN w) :=
  h.held (.pte e n) (pte_mem_slots.mpr ⟨he.1,hn⟩) _ (by rw [holds_pte he,hw]; rfl)

lemma Inv.page_ref (h : Inv K hand s) (he : s.Live e) (hn : n < NUPAGE) (hw : s.pte e n = some w) :
    0 < s.ppRef (PPN w) := by
  rw [h.balanced.count _ (h.page_managed he hn hw)]
  exact refs_pos (pte_mem_slots.mpr ⟨he.1,hn⟩) (by rw [holds_pte he,hw]; rfl)

lemma pte_some (hw : s.pte e n = some w) :
    Present (s.pde e (n/1024)) ∧ s.mem (PPN (s.pde e (n/1024))) (n%1024) = w ∧ Present w := by
  by_cases hp : Present (s.pde e (n/1024))
  · rw [pte_of_present hp] at hw
    split at hw
    · rename_i hq
      cases hw
      exact ⟨hp,rfl,hq⟩
    cases hw
  rw [pte_of_absent hp] at hw
  cases hw

lemma pte_none (hp : Present (s.pde e (n/1024))) (hw : s.pte e n = none) :
    ¬Present (s.mem (PPN (s.pde e (n/1024))) (n%1024)) := by
  rw [pte_of_present hp] at hw
  split at hw
  · cases hw
  assumption

section

variable (h : Inv K hand s) (he : s.Live e) (hva : va < UTOP)
include h he hva

lemma pageLookup_eq : s.pageLookup (s.pgdir e) va =
    some ((s.pte e (PPN va)).map fun w => (PPN w,⟨PPN (s.mem (s.pgdir e) (PDX va)),PTX va⟩),s) := by
  cases hw : s.pte e (PPN va) with
  | some w =>
    obtain ⟨hp,rfl,hq⟩ := pte_some hw
    have hn := PPN_lt_NUPAGE hva
    rw [pde_PDX] at hp
    rw [pde_PDX,← PTX_eq] at hq hw
    have hf := (h.page_managed he hn hw).1
    rw [pageLookup_present hp (h.table_lt he hva hp) hq hf,pde_PDX,← PTX_eq]
    rfl
  | none =>
    by_cases hp : Present (s.mem (s.pgdir e) (PDX va))
    · have hq := pte_none (by rw [pde_PDX]; exact hp) hw
      rw [pde_PDX,← PTX_eq] at hq
      simp only [pageLookup,pgdirWalk_present hp (h.table_lt he hva hp),bind,Option.bind,if_neg hq]
      rfl
    simp only [pageLookup,pgdirWalk_absent hp,bind,Option.bind]
    rfl

lemma pageRemove_eq : s.pageRemove (s.pgdir e) va =
      some (if s.pte e (PPN va) = none then s else s.assignPte e (PPN va) 0) := by
  cases hw : s.pte e (PPN va) with
  | some w =>
    obtain ⟨hp,hm,hq⟩ := pte_some hw
    have hn := PPN_lt_NUPAGE hva
    rw [pde_PDX] at hp
    rw [pde_PDX,← PTX_eq] at hm
    have hf := (h.page_managed he hn hw).1
    have hr := h.page_ref he hn hw
    rw [pageRemove_present hp (h.table_lt he hva hp) (by rw [hm]; exact hq)
      (by rw [hm]; exact hf) (by rw [hm]; exact hr)]
    simp only [hm,reduceCtorEq,if_false,assignPte,hw,target_zero,pde_PDX,← PTX_eq]
    rfl
  | none =>
    simp only [pageRemove,pageLookup_eq h he hva,hw,bind,Option.bind]
    rfl

lemma pgdirWalk_create : s.pgdirWalk (s.pgdir e) va true =
      some (if Present ((s.withTable e (PDX va)).pde e (PDX va)) then
          some ⟨PPN ((s.withTable e (PDX va)).pde e (PDX va)),PTX va⟩ else none,
        s.withTable e (PDX va)) := by
  by_cases hp : Present (s.mem (s.pgdir e) (PDX va))
  · have hs : s.withTable e (PDX va) = s := if_pos hp
    rw [hs,if_pos hp,pgdirWalk_present hp (h.table_lt he hva hp)]
  have hs : s.withTable e (PDX va) = s.addTable e (PDX va) := if_neg hp
  rw [hs]
  cases hl : s.pageFreeList with
  | nil =>
    have hs' : s.addTable e (PDX va) = s := by simp [addTable,hl]
    rw [hs',if_neg hp]
    simp only [pgdirWalk,if_neg hp,pageAlloc,hl]
    rfl
  | cons p l =>
    have hmem : p ∈ s.pageFreeList := by simp [hl]
    have hlt := (h.balanced.free_managed p hmem).1
    have hlt' := hlt.trans_le h.npage_le
    have hstr := h.free_not_structural hmem
    have hs' : s.addTable e (PDX va) =
        s.withPages (s.hangTable e (PDX va) p) (acquire s.ppRef (some p)) l := by
      simp [addTable,hl]
    have hw : (s.addTable e (PDX va)).mem (s.pgdir e) (PDX va) =
        page2pa p|||PTE_U|||PTE_W|||PTE_P := by
      rw [hs']
      have := hangTable_dir (d := PDX va) h he hstr he (PDX va)
      rw [if_pos ⟨rfl,rfl⟩] at this
      exact this
    have hw' : (s.addTable e (PDX va)).pde e (PDX va) = page2pa p|||PTE_U|||PTE_W|||PTE_P := by
      rw [hs'] at hw ⊢
      exact hw
    have hwalk : (s.addTable e (PDX va)).walkTable (s.pgdir e) va =
        some (some ⟨p,PTX va⟩,s.addTable e (PDX va)) := by
      rw [walkTable_eq (by rw [hw,PPN_pde hlt',hs']; exact hlt),hw,PPN_pde hlt']
    rw [hw',if_pos (present_or_PTE_P _),PPN_pde hlt',← hwalk,hs']
    have hpa : ({s with pageFreeList := l} : Kern).pa2page (page2pa p) = some p := by
      rw [pa2page_of_lt (by rw [PPN_page2pa hlt']; exact hlt),PPN_page2pa hlt']
    simp only [pgdirWalk,if_neg hp,pageAlloc,hl,Bool.true_eq_false,if_false,hpa,bind,Option.bind]
    rfl

lemma pageInsert_eq {f : Nat} {perm : Word}
    (hpp : f < 2^20) (hperm : LowBits perm) :
    s.pageInsert (s.pgdir e) f va perm =
      some (if Present ((s.withTable e (PDX va)).pde e (PDX va)) then
          (0,(s.withTable e (PDX va)).assignPte e (PPN va) (page2pa f|||perm|||PTE_P))
        else (-E_NO_MEM,s)) := by
  have h1 := h.withTable he (PDX_lt_NUPDE hva)
  have hs1 := (sameEnvs_withTable s e (PDX va)).env e
  have he1 := hs1.live.mpr he
  rw [pageInsert,pgdirWalk_create h he hva]
  by_cases hp : Present ((s.withTable e (PDX va)).pde e (PDX va))
  · rw [if_pos hp,if_pos hp]
    have hdir : s.pgdir e = (s.withTable e (PDX va)).pgdir e := (hs1.pgdir he).symm
    have hnew : target (page2pa f|||perm|||PTE_P) = some f := by
      rw [target,if_pos (present_or_PTE_P _),BitVec.or_assoc,
        PPN_pte hpp (lowBits_or hperm lowBits_PTE_P)]
    generalize s.withTable e (PDX va) = s1 at *
    have hn := PPN_lt_NUPAGE hva
    simp only [bind,Option.bind]
    cases hw : s1.pte e (PPN va) with
    | some w =>
      obtain ⟨_,hm,hq⟩ := pte_some hw
      rw [pde_PDX,← PTX_eq] at hm
      have hfr := (h1.page_managed he1 hn hw).1
      have hr : 0 < (s1.incRef f).ppRef (PPN w) := by
        have := h1.page_ref he1 hn hw
        change 0 < acquire s1.ppRef (some f) (PPN w)
        rw [acquire_apply]
        omega
      have hrem := pageRemove_present (s := s1.incRef f) (g := s1.pgdir e) (v := va)
        hp (h1.table_lt he1 hva hp) (by rw [incRef,hm]; exact hq)
        (by rw [incRef,hm]; exact hfr) (by rw [incRef,hm]; exact hr)
      have hpres : Present ((s1.incRef f).mem (PPN (s1.mem (s1.pgdir e) (PDX va))) (PTX va)) := by
        rw [incRef,hm]
        exact hq
      rw [if_pos hpres,hdir,hrem]
      simp only [assignPte,hw,hnew,pde_PDX,← PTX_eq,setWord,withPages,Mem.set_set,incRef,hm]
      rfl
    | none =>
      have hq := pte_none (by rw [pde_PDX]; exact hp) hw
      rw [pde_PDX,← PTX_eq] at hq
      have hpres : ¬Present ((s1.incRef f).mem (PPN (s1.mem (s1.pgdir e) (PDX va))) (PTX va)) :=
        hq
      rw [if_neg hpres]
      simp only [assignPte,hw,hnew,pde_PDX,← PTX_eq]
      rfl
  rw [if_neg hp,if_neg hp]
  have hsame : s.withTable e (PDX va) = s := by
    unfold withTable at hp ⊢
    split
    · rfl
    rename_i hnp
    rw [if_neg hnp] at hp
    unfold addTable at hp ⊢
    split
    · rfl
    rename_i p l hl
    simp only [hl] at hp
    have hmem : p ∈ s.pageFreeList := by simp [hl]
    have hw := hangTable_dir (d := PDX va) h he (h.free_not_structural hmem) he (PDX va)
    rw [if_pos ⟨rfl,rfl⟩] at hw
    exact absurd (by
      change Present (s.hangTable e (PDX va) p (s.pgdir e) (PDX va))
      rw [hw]
      exact present_or_PTE_P _) hp
  rw [hsame]
  rfl

end

end live

end KludgeOS
