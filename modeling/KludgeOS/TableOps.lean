import KludgeOS.SpaceOps

/-!
Page tables come and go: a table is made from the first free frame and hung
into an empty directory entry, and an empty table is taken out again.
-/

namespace KludgeOS
open Ledger Kern Mem

/-- A zeroed frame `p` hung into directory entry `d` of environment `e`. -/
def Kern.hangTable (s : Kern) (e d p : Nat) : Mem :=
  (s.mem.fill p fun _ => 0).set (s.pgdir e) d (page2pa p|||PTE_U|||PTE_W|||PTE_P)

section hangTable

variable {K : Finset Nat} {hand : Nat → Prop} {s : Kern} {e d p : Nat} {e' : Nat}

section

variable (h : Inv K hand s) (he : s.Live e)
include h he

lemma setPde_dir (m : Mem) (w : Word) (he' : s.Live e')
    (d' : Nat) :
    m.set (s.pgdir e) d w (s.pgdir e') d' = if e' = e ∧ d' = d then w else m (s.pgdir e') d' := by
  by_cases hee : e' = e
  · subst hee
    by_cases hdd : d' = d
    · subst hdd
      rw [set_self,if_pos ⟨rfl,rfl⟩]
    have hno : ¬(e' = e' ∧ d' = d) := fun hc => hdd hc.2
    rw [set_index _ _ _ _ hdd,if_neg hno]
  have hno : ¬(e' = e ∧ d' = d) := fun hc => hee hc.1
  have hdir : s.pgdir e' ≠ s.pgdir e := fun hc => hee (h.dir_inj he he' hc)
  rw [set_frame _ _ _ hdir,if_neg hno]

lemma hangTable_dir (hp : ¬s.Structural K p) (he' : s.Live e')
    (d' : Nat) :
    s.hangTable e d p (s.pgdir e') d' =
      if e' = e ∧ d' = d then page2pa p|||PTE_U|||PTE_W|||PTE_P else s.pde e' d' := by
  have hne : s.pgdir e' ≠ p := fun hc => hp (.inr (.inl ⟨e',he',hc⟩))
  rw [hangTable,setPde_dir h he _ _ he',fill_frame _ _ hne]

lemma xlate_hangTable (hd : ¬Present (s.pde e d))
    (hp : ¬s.Structural K p) (hlt : p < 2^20) {n : Nat} (he' : s.Live e') (hn : n < NUPAGE) :
    xlate (s.hangTable e d p) (s.pgdir e') n = s.pte e' n := by
  have hdir := hangTable_dir (d := d) h he hp he' (n/1024)
  have hpd : p ≠ s.pgdir e := fun hc => hp (.inr (.inl ⟨e,he,hc.symm⟩))
  by_cases hsame : e' = e ∧ n/1024 = d
  · rw [if_pos hsame] at hdir
    obtain ⟨rfl,rfl⟩ := hsame
    rw [pte_of_absent hd,xlate_of_present (by rw [hdir]; exact present_or_PTE_P _),
      hdir,PPN_pde hlt]
    have hz : s.hangTable e' (n/1024) p p (n%1024) = 0 := by
      rw [hangTable,set_frame _ _ _ hpd,fill_self]
    rw [hz]
    exact if_neg (by decide)
  rw [if_neg hsame] at hdir
  refine xlate_congr hdir fun hpres => ?_
  have hdd := pde_of_page hn
  have hstr : s.Structural K (PPN (s.pde e' (n/1024))) :=
    .inr (.inr ⟨e',_,he',hdd,hpres,rfl⟩)
  have hne : PPN (s.pde e' (n/1024)) ≠ p := fun hc => hp (hc ▸ hstr)
  rw [hangTable,set_frame _ _ _ (h.table_ne_dir he' hdd hpres he),fill_frame _ _ hne]

lemma holds_hangTable (hd : ¬Present (s.pde e d))
    (hp : ¬s.Structural K p) (hlt : p < 2^20) (ref : Nat → Nat) (free : List Nat) :
    ∀ y ∈ slots, (s.withPages (s.hangTable e d p) ref free).holds y =
      if y = .pde e d then some p else s.holds y := by
  intro y hy
  have hs := sameEnvs_withPages s (s.hangTable e d p) ref free
  cases y with
  | dir e' => rw [if_neg (by simp)]; exact holds_dir_congr (hs.env e')
  | pde e' d' =>
    by_cases heq : e' = e ∧ d' = d
    · obtain ⟨rfl,rfl⟩ := heq
      have hw := hangTable_dir (d := d') h he hp he d'
      rw [if_pos ⟨rfl,rfl⟩] at hw
      have hpres : Present ((s.withPages (s.hangTable e' d' p) ref free).pde e' d') := by
        change Present (s.hangTable e' d' p (s.pgdir e') d')
        rw [hw]
        exact present_or_PTE_P _
      rw [if_pos rfl,holds_pde (s := s.withPages _ ref free) he hpres]
      change some (PPN (s.hangTable e' d' p (s.pgdir e') d')) = _
      rw [hw,PPN_pde hlt]
    rw [if_neg (by simpa using heq)]
    exact holds_pde_congr (hs.env e') fun he' => by
      have hw := hangTable_dir (d := d) h he hp he' d'
      rw [if_neg heq] at hw
      exact hw
  | pte e' n =>
    rw [if_neg (by simp)]
    exact holds_pte_congr (hs.env e') fun he' =>
      xlate_hangTable h he hd hp hlt he' (pte_mem_slots.mp hy).2

end

end hangTable

/-- A table for directory entry `d` of `e`, made from the first free frame. -/
def Kern.addTable (s : Kern) (e d : Nat) : Kern :=
  match s.pageFreeList with
  | [] => s
  | p :: l => s.withPages (s.hangTable e d p) (acquire s.ppRef (some p)) l

/-- The state `pgdir_walk` with `create` set leaves. -/
def Kern.withTable (s : Kern) (e d : Nat) : Kern :=
  if Present (s.pde e d) then s else s.addTable e d

section addTable

variable {K : Finset Nat} {hand : Nat → Prop} {s : Kern} {e d : Nat}

lemma Inv.addTable (h : Inv K hand s) (he : s.Live e) (hd : d < NUPDE)
    (hp : ¬Present (s.pde e d)) : Inv K hand (s.addTable e d) := by
  cases hl : s.pageFreeList with
  | nil => simpa [Kern.addTable,hl] using h
  | cons p l =>
    have hmem : p ∈ s.pageFreeList := by simp [hl]
    have hstr := h.free_not_structural hmem
    have hman := h.balanced.free_managed p hmem
    have hlt : p < 2^20 := hman.1.trans_le h.npage_le
    have hx : Slot.pde e d ∈ slots := pde_mem_slots.mpr ⟨he.1,hd⟩
    have hold : s.holds (.pde e d) = none := Kern.holds_pde_absent hp
    have hh := holds_hangTable h he hp hstr hlt
    have hb := h.balanced
    rw [hl] at hb
    simp only [Kern.addTable,hl]
    apply h.assign (hh _ _)
    · have hb' := hb.take.assign hx (hh (acquire s.ppRef (some p)) l)
        (fun o ho => h.held _ hx o ho)
        (fun f hf hfl => by
          cases hf
          exact (List.nodup_cons.mp hb.nodup).1 hfl)
      rw [hold] at hb'
      refine hb'.hand_congr fun f => ⟨fun hf => ⟨.inl hf,?_⟩,fun hf => ?_⟩
      · intro hc
        cases hc
        exact hb.hand_free p hf (by simp)
      obtain ⟨hf | rfl,hne⟩ := hf
      · exact hf
      exact absurd rfl hne
    · intro f hf
      cases hf
      exact ⟨hman,fun y hy _ => h.balanced.not_held hmem y hy⟩
    · intro f hf
      have h1 : f ≠ s.pgdir e := fun hc => (h.dir_held he).2 (hc ▸ hf)
      have h2 : f ≠ p := fun hc => hman.2 (hc ▸ hf)
      rw [Kern.hangTable,Mem.set_frame _ _ _ h1,Mem.fill_frame _ _ h2]
    · intro e' he' d' hd'
      have hne : ¬(e' = e ∧ d' = d) := fun hc => by omega
      rw [hangTable_dir h he hstr he',if_neg hne]
    intro e' d' he' hd' hp'
    rw [hangTable_dir h he hstr he'] at hp' ⊢
    split
    · rw [PPN_pde hlt]
    rename_i hne
    rw [if_neg hne] at hp'
    exact h.pde_word e' d' he' hd' hp'

lemma Inv.withTable (h : Inv K hand s) (he : s.Live e) (hd : d < NUPDE) :
    Inv K hand (s.withTable e d) := by
  unfold Kern.withTable
  split
  · exact h
  exact h.addTable he hd ‹_›

lemma sameEnvs_withTable (s : Kern) (e d : Nat) : SameEnvs s (s.withTable e d) := by
  unfold withTable addTable
  split
  · exact ⟨rfl,rfl,fun _ => ⟨Iff.rfl,fun _ => rfl⟩⟩
  split
  · exact ⟨rfl,rfl,fun _ => ⟨Iff.rfl,fun _ => rfl⟩⟩
  exact sameEnvs_withPages _ _ _ _

lemma withTable_envs (s : Kern) (e d : Nat) : (s.withTable e d).envs = s.envs := by
  unfold withTable addTable
  split
  · rfl
  split <;> rfl

lemma pte_withTable (h : Inv K hand s) (he : s.Live e) {e' n : Nat} (he' : s.Live e')
    (hn : n < NUPAGE) : (s.withTable e d).pte e' n = s.pte e' n := by
  unfold withTable
  split
  · rfl
  rename_i hp
  unfold addTable
  split
  · rfl
  rename_i p l hl
  have hmem : p ∈ s.pageFreeList := by simp [hl]
  exact xlate_hangTable h he hp (h.free_not_structural hmem)
    ((h.balanced.free_managed p hmem).1.trans_le h.npage_le) he' hn

end addTable

/-- Directory entry `d` of `e` cleared and the reference to its table dropped. -/
def Kern.dropTable (s : Kern) (e d : Nat) : Kern :=
  let old := some (PPN (s.pde e d))
  let ref := release s.ppRef old
  s.withPages (s.mem.set (s.pgdir e) d 0) ref (recycle ref s.pageFreeList old)

section dropTable

variable {K : Finset Nat} {hand : Nat → Prop} {s : Kern} {e d : Nat}

section

variable (h : Inv K hand s) (he : s.Live e) (hd : Present (s.pde e d))
  (hz : ∀ t < NPTENTRIES, ¬Present (s.mem (PPN (s.pde e d)) t))
include h he hd hz

lemma xlate_dropTable {e' n : Nat} (he' : s.Live e')
    (hn : n < NUPAGE) : xlate (s.mem.set (s.pgdir e) d 0) (s.pgdir e') n = s.pte e' n := by
  have hdir := setPde_dir (d := d) h he s.mem 0 he' (n/1024)
  by_cases hsame : e' = e ∧ n/1024 = d
  · rw [if_pos hsame] at hdir
    obtain ⟨rfl,rfl⟩ := hsame
    have ht := hz (n%1024) (Nat.mod_lt _ (by decide))
    rw [xlate_of_absent (by rw [hdir]; decide),pte_of_present hd,if_neg ht]
  rw [if_neg hsame] at hdir
  refine xlate_congr hdir fun hpres => ?_
  rw [set_frame _ _ _ (h.table_ne_dir he' (pde_of_page hn) hpres he)]

lemma holds_dropTable
    (ref : Nat → Nat) (free : List Nat) :
    ∀ y ∈ slots, (s.withPages (s.mem.set (s.pgdir e) d 0) ref free).holds y =
      if y = .pde e d then none else s.holds y := by
  intro y hy
  have hs := sameEnvs_withPages s (s.mem.set (s.pgdir e) d 0) ref free
  cases y with
  | dir e' => rw [if_neg (by simp)]; exact holds_dir_congr (hs.env e')
  | pde e' d' =>
    by_cases heq : e' = e ∧ d' = d
    · obtain ⟨rfl,rfl⟩ := heq
      rw [if_pos rfl,holds_pde_absent]
      change ¬Present (s.mem.set (s.pgdir e') d' 0 (s.pgdir e') d')
      rw [set_self]
      decide
    rw [if_neg (by simpa using heq)]
    exact holds_pde_congr (hs.env e') fun he' => by
      have hw := setPde_dir (d := d) h he s.mem 0 he' d'
      rw [if_neg heq] at hw
      exact hw
  | pte e' n =>
    rw [if_neg (by simp)]
    exact holds_pte_congr (hs.env e') fun he' =>
      xlate_dropTable h he hd hz he' (pte_mem_slots.mp hy).2

end

lemma Inv.dropTable (h : Inv K hand s) (he : s.Live e) (hd : d < NUPDE) (hp : Present (s.pde e d))
    (hz : ∀ t < NPTENTRIES, ¬Present (s.mem (PPN (s.pde e d)) t)) : Inv K hand (s.dropTable e d) :=
    by
  have hx : Slot.pde e d ∈ slots := pde_mem_slots.mpr ⟨he.1,hd⟩
  have hh := holds_dropTable h he hp hz
  have hdir := fun e' (he' : s.Live e') d' => setPde_dir (d := d) h he s.mem 0 he' d'
  apply h.assign (hh _ _)
  · have hb := h.balanced.assign hx (hh s.ppRef s.pageFreeList)
      (fun o ho => h.held _ hx o ho) (fun f hf => by cases hf)
    rw [holds_pde he hp] at hb
    exact hb.hand_congr fun f => by simp
  · intro f hf
    cases hf
  · intro f hf
    refine set_frame _ _ _ ?_
    rintro rfl
    exact (h.dir_held he).2 hf
  · intro e' he' d' hd'
    have hne : ¬(e' = e ∧ d' = d) := fun hc => by omega
    rw [hdir e' he',if_neg hne]
  intro e' d' he' hd' hp'
  rw [hdir e' he'] at hp' ⊢
  split
  · rename_i heq
    rw [if_pos heq] at hp'
    exact absurd hp' (by decide)
  rename_i hne
  rw [if_neg hne] at hp'
  exact h.pde_word e' d' he' hd' hp'

end dropTable

end KludgeOS
