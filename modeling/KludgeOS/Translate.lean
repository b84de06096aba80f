import KludgeOS.Rights

/-!
The two-level tables as a map from page numbers to entries. A new table changes nothing but the
two windows on the tables.
-/

namespace KludgeOS
open Ledger Traces List
open BitVec (ofNat)
open BitVec Kern Option Mem

section dirs

variable {m : Mem} {g d : Nat} {n : Nat}

lemma xlate_setEntry (h : DirOk m g) (hd : d < NPDENTRIES) (hw : ¬IsWindow d)
    (hp : Present (m g d)) {i : Nat} (hi : i < NPTENTRIES) (w : Word) (hn : n < 2^20) :
    xlate (m.set (PPN (m g d)) i w) g n =
      if n = 1024*d+i then (if Present w then some w else none) else xlate m g n := by
  have hN : NPTENTRIES = 1024 := rfl
  have hne := h.table_ne d hd hw hp
  have hdir : m.set (PPN (m g d)) i w g = m g := set_frame _ _ _ hne.symm
  by_cases hni : n = 1024*d+i
  · have hq : n/1024 = d := by omega
    have hr : n%1024 = i := by omega
    rw [if_pos hni,xlate_of_present (by rw [hdir,hq]; exact hp),hdir,hq,hr,set_self]
  rw [if_neg hni]
  refine xlate_congr (by rw [hdir]) fun hpn => ?_
  by_cases hT : PPN (m g (n/1024)) = PPN (m g d)
  · have hnw : ¬IsWindow (n/1024) := fun hc => hne (hT ▸ h.window _ hc hpn)
    have hM : NPDENTRIES = 1024 := rfl
    have hdd := h.table_inj d hd (n/1024) (by omega) hw hnw hp hpn hT
    exact set_index _ _ _ _ (by omega)
  rw [set_frame _ _ _ hT]

def hung (m : Mem) (g d p : Nat) : Mem :=
  (m.fill p fun _ => 0).set g d (page2pa p|||PTE_U|||PTE_W|||PTE_P)

/-- `p` is neither the directory nor one of its tables. -/
structure Unused (m : Mem) (g p : Nat) : Prop where
  lt : p < 2^20
  ne : p ≠ g
  table : ∀ d < NPDENTRIES, Present (m g d) → PPN (m g d) ≠ p

variable {p : Nat}

lemma hung_dir (hp : Unused m g p) (d' : Nat) :
    hung m g d p g d' = if d' = d then page2pa p|||PTE_U|||PTE_W|||PTE_P else m g d' := by
  by_cases hdd : d' = d
  · subst hdd
    rw [hung,set_self,if_pos rfl]
  rw [hung,set_index _ _ _ _ hdd,fill_frame _ _ hp.ne.symm,if_neg hdd]

lemma hung_dirOk (h : DirOk m g) (hw : ¬IsWindow d) (hp : Unused m g p) :
    DirOk (hung m g d p) g where
  window d' hd' := by
    have hne : d' ≠ d := fun hc => hw (hc ▸ hd')
    rw [hung_dir hp,if_neg hne]
    exact h.window d' hd'
  table_ne d' hd' hw' := by
    rw [hung_dir hp]
    by_cases hdd : d' = d
    · rw [if_pos hdd,PPN_pde hp.lt]
      exact fun _ => hp.ne
    rw [if_neg hdd]
    exact h.table_ne d' hd' hw'
  table_inj d₁ hd₁ d₂ hd₂ hw₁ hw₂ := by
    rw [hung_dir hp,hung_dir hp]
    by_cases h1 : d₁ = d
    · by_cases h2 : d₂ = d
      · exact fun _ _ _ => h2.trans h1.symm
      rw [if_pos h1,if_neg h2,PPN_pde hp.lt]
      exact fun _ hp2 hc => absurd hc (hp.table d₂ hd₂ hp2)
    by_cases h2 : d₂ = d
    · rw [if_neg h1,if_pos h2,PPN_pde hp.lt]
      exact fun hp1 _ hc => absurd hc.symm (hp.table d₁ hd₁ hp1)
    rw [if_neg h1,if_neg h2]
    exact h.table_inj d₁ hd₁ d₂ hd₂ hw₁ hw₂

lemma xlate_hung (h : DirOk m g) (ha : ¬Present (m g d)) (hp : Unused m g p) (hn : n < 2^20)
    (hwin : ¬(IsWindow (n/1024) ∧ n%1024 = d)) : xlate (hung m g d p) g n = xlate m g n := by
  have hM : NPDENTRIES = 1024 := rfl
  by_cases hnd : n/1024 = d
  · have hdir := hung_dir (d := d) hp (n/1024)
    rw [if_pos hnd] at hdir
    have hnone : xlate m g n = none := xlate_of_absent (by rw [hnd]; exact ha)
    rw [hnone,xlate_of_present (by rw [hdir]; exact present_or_PTE_P _),hdir,PPN_pde hp.lt,hung,
      set_frame _ _ _ hp.ne,fill_self]
    exact if_neg (by decide)
  have hdir := hung_dir (d := d) hp (n/1024)
  rw [if_neg hnd] at hdir
  refine xlate_congr hdir fun hpn => ?_
  have hne := hp.table (n/1024) (by omega) hpn
  by_cases hg : PPN (m g (n/1024)) = g
  · have hnw : IsWindow (n/1024) :=
      Decidable.not_not.mp fun hc => h.table_ne _ (by omega) hc hpn hg
    rw [hung,set_index _ _ _ _ fun hc => hwin ⟨hnw,hc⟩,fill_frame _ _ hne]
  rw [hung,set_frame _ _ _ hg,fill_frame _ _ hne]

end dirs

structure CanMap (s : Kern) (g : Nat) : Prop where
  npage_le : s.npage ≤ 2^20
  dir : DirOk s.mem g
  free_lt : ∀ f ∈ s.pageFreeList, f < s.npage
  free_nodup : s.pageFreeList.Nodup
  dir_free : g ∉ s.pageFreeList
  table_lt : ∀ d < NPDENTRIES, ¬IsWindow d → Present (s.mem g d) → PPN (s.mem g d) < s.npage
  table_free : ∀ d < NPDENTRIES, ¬IsWindow d → Present (s.mem g d) →
    PPN (s.mem g d) ∉ s.pageFreeList

section canMap

variable {K : Finset Nat} {s s' : Kern} {g : Nat}

lemma CanMap.unused (h : CanMap s g) {p : Nat} (hp : p ∈ s.pageFreeList) : Unused s.mem g p where
  lt := (h.free_lt p hp).trans_le h.npage_le
  ne hc := h.dir_free (hc ▸ hp)
  table d hd hpd hc := by
    by_cases hw : IsWindow d
    · exact h.dir_free ((h.dir.window d hw hpd).symm.trans hc ▸ hp)
    exact h.table_free d hd hw hpd (hc ▸ hp)

lemma Inv.dirOk (h : Inv K NoHand s) {e : Nat} (he : s.Live e) : DirOk s.mem (s.pgdir e) where
  window d hd _ := by
    have hlt := (h.dir_held he).1.trans_le h.npage_le
    rcases hd with rfl | rfl
    · have hw : s.mem (s.pgdir e) (PDX VPT) = _ := h.half.env_vpt e he
      rw [hw,BitVec.or_assoc,PPN_pte hlt (by decide)]
    have hw : s.mem (s.pgdir e) (PDX UVPT) = _ := h.half.env_uvpt e he
    rw [hw,BitVec.or_assoc,PPN_pte hlt (by decide)]
  table_ne d hd hw hp := by
    by_cases hlow : d < NUPDE
    · exact h.table_ne_dir he hlow hp he
    have hv : d ≠ PDX VPT := fun hc => hw (.inl hc)
    have hu : d ≠ PDX UVPT := fun hc => hw (.inr hc)
    have heq : s.mem (s.pgdir e) d = _ := h.half.env_high e he d (by omega) hd hv hu
    rw [heq] at hp ⊢
    exact fun hc => (h.dir_held he).2 (hc ▸ (h.half.boot_high d (by omega) hd hv hu hp).1)
  table_inj d hd d' hd' hw hw' hp hp' hf := by
    have hhigh : ∀ i, ¬i < NUPDE → i < NPDENTRIES → ¬IsWindow i →
        s.mem (s.pgdir e) i = s.mem s.bootPgdir i := fun i hi hi' hwi =>
      h.half.env_high e he i (by omega) hi' (fun hc => hwi (.inl hc)) fun hc => hwi (.inr hc)
    have hmem : ∀ i, ¬i < NUPDE → i < NPDENTRIES → ¬IsWindow i →
        Present (s.mem (s.pgdir e) i) → PPN (s.mem (s.pgdir e) i) ∈ K := by
      intro i hi hi' hwi hpi
      rw [hhigh i hi hi' hwi] at hpi ⊢
      exact (h.half.boot_high i (by omega) hi' (fun hc => hwi (.inl hc))
        (fun hc => hwi (.inr hc)) hpi).1
    by_cases hlow : d < NUPDE
    · by_cases hlow' : d' < NUPDE
      · exact (h.table_inj he hlow hp he hlow' hp' hf).2
      exact absurd (hf ▸ hmem d' hlow' hd' hw' hp') (h.table_held he hlow hp).2
    by_cases hlow' : d' < NUPDE
    · exact absurd (hf.symm ▸ hmem d hlow hd hw hp) (h.table_held he hlow' hp').2
    rw [hhigh d hlow hd hw] at hp hf
    rw [hhigh d' hlow' hd' hw'] at hp' hf
    exact h.half.boot_dir.table_inj d hd d' hd' hw hw' hp hp' hf

def Kern.Directory (s : Kern) (g : Nat) : Prop := g = s.bootPgdir ∨ ∃ e, s.Live e ∧ g = s.pgdir e

lemma Inv.canMap (h : Inv K NoHand s) (hg : s.Directory g) : CanMap s g := by
  have hfree : ∀ f ∈ s.pageFreeList, ¬s.Structural K f := fun f hf => h.free_not_structural hf
  have hboot : ∀ d < NPDENTRIES, ¬IsWindow d → Present (s.mem s.bootPgdir d) →
      PPN (s.mem s.bootPgdir d) ∈ K := by
    intro d hd hw hp
    by_cases hlow : d < NUPDE
    · exact absurd hp (h.half.boot_low d hlow)
    exact (h.half.boot_high d (by omega) hd (fun hc => hw (.inl hc))
      (fun hc => hw (.inr hc)) hp).1
  have hK : ∀ f ∈ K, f < s.npage ∧ f ∉ s.pageFreeList := fun f hf =>
    ⟨h.half.kernel_lt f hf,fun hc => hfree f hc (.inl hf)⟩
  rcases hg with rfl | ⟨e,he,rfl⟩
  · exact {
      npage_le := h.npage_le
      dir := h.half.boot_dir
      free_lt := fun f hf => (h.balanced.free_managed f hf).1
      free_nodup := h.balanced.nodup
      dir_free := (hK _ h.half.boot_mem).2
      table_lt := fun d hd hw hp => (hK _ (hboot d hd hw hp)).1
      table_free := fun d hd hw hp => (hK _ (hboot d hd hw hp)).2 }
  have htable : ∀ d < NPDENTRIES, ¬IsWindow d → Present (s.mem (s.pgdir e) d) →
      PPN (s.mem (s.pgdir e) d) < s.npage ∧ PPN (s.mem (s.pgdir e) d) ∉ s.pageFreeList := by
    intro d hd hw hp
    by_cases hlow : d < NUPDE
    · exact ⟨(h.table_held he hlow hp).1, fun hc => hfree _ hc (.inr (.inr ⟨e,d,he,hlow,hp,rfl⟩))⟩
    have heq : s.mem (s.pgdir e) d = _ := h.half.env_high e he d (by omega) hd
      (fun hc => hw (.inl hc)) fun hc => hw (.inr hc)
    rw [heq] at hp ⊢
    exact hK _ (hboot d hd hw hp)
  exact {
    npage_le := h.npage_le
    dir := h.dirOk he
    free_lt := fun f hf => (h.balanced.free_managed f hf).1
    free_nodup := h.balanced.nodup
    dir_free := fun hc => hfree _ hc (.inr (.inl ⟨e,he,rfl⟩))
    table_lt := fun d hd hw hp => (htable d hd hw hp).1
    table_free := fun d hd hw hp => (htable d hd hw hp).2 }

/-- Page `n` of the windows shows entry `d`, which is still empty. -/
def Kern.ShowsEmpty (s : Kern) (g d n : Nat) : Prop :=
  IsWindow (n/1024) ∧ n%1024 = d ∧ ¬Present (s.mem g d)

lemma not_window_of_low {d : Nat} (hd : d < NUPDE) : ¬IsWindow d := by
  have h1 : PDX VPT = 959 := by decide
  have h2 : PDX UVPT = 957 := by decide
  have h3 : NUPDE = 955 := rfl
  rintro (rfl | rfl) <;> omega

lemma xlate_withTable (h : Inv K NoHand s) {e d n : Nat} (he : s.Live e) (hn : n < 2^20)
    (hwin : ¬s.ShowsEmpty (s.pgdir e) d n) :
    xlate (s.withTable e d).mem (s.pgdir e) n = xlate s.mem (s.pgdir e) n := by
  unfold withTable
  split
  · rfl
  rename_i hp
  unfold addTable
  split
  · rfl
  rename_i p l hl
  have hu := (h.canMap (.inr ⟨e,he,rfl⟩)).unused (p := p) (by simp [hl])
  exact xlate_hung (h.dirOk he) hp hu hn fun hc => hwin ⟨hc.1,hc.2,hp⟩

lemma xlate_assignPte (h : Inv K NoHand s) {e n i : Nat} (he : s.Live e) (hn : n < NUPAGE)
    (hp : Present (s.pde e (n/1024))) (w : Word) (hi : i < 2^20) :
    xlate (s.assignPte e n w).mem (s.pgdir e) i =
      if i = n then (if Present w then some w else none) else xlate s.mem (s.pgdir e) i := by
  have hd := pde_of_page hn
  have hN : NPTENTRIES = 1024 := rfl
  have hD : NPDENTRIES = 1024 := rfl
  have hU : NUPDE = 955 := rfl
  have := xlate_setEntry (h.dirOk he) (d := n/1024) (by omega) (not_window_of_low hd) hp
    (i := n%1024) (by omega) w hi
  rw [show 1024*(n/1024)+n%1024 = n by omega] at this
  exact this

end canMap

section insert

variable {K : Finset Nat} {s s' : Kern} {e pp : Nat} {va perm : Word}

/-- After `page_insert` the page is there, and the map is otherwise what it was. -/
structure Inserted (s s' : Kern) (e pp : Nat) (va perm : Word) : Prop where
  found : ∃ q, s'.pageLookup (s.pgdir e) va = some (some (pp,q),s') ∧
    PTE_ADDR (s'.mem q.frame q.idx) = page2pa pp ∧
    s'.mem q.frame q.idx&&&0xFFF = perm|||PTE_P
  here : xlate s'.mem (s.pgdir e) (PPN va) = some (page2pa pp|||perm|||PTE_P)
  same : ∀ n < 2^20, n ≠ PPN va → ¬s.ShowsEmpty (s.pgdir e) (PDX va) n →
    xlate s'.mem (s.pgdir e) n = xlate s.mem (s.pgdir e) n
  others : ∀ e' n, s.Live e' → e' ≠ e → n < NUPAGE →
    s'.pgdir e' = s.pgdir e' ∧ s'.pte e' n = s.pte e' n

variable {w : Word}

lemma lowBits_and (h : LowBits w) : w&&&0xFFF = w := by
  apply eq_of_toNat_eq
  rw [toNat_and,show (0xFFF : Word).toNat = 2^12-1 from rfl,Nat.and_two_pow_sub_one_eq_mod]
  exact Nat.mod_eq_of_lt h

lemma entry_parts {a : Word} (ha : a&&&0xFFF = 0) (hw : LowBits w) :
    PTE_ADDR (a|||w) = a ∧ (a|||w)&&&0xFFF = w := by
  constructor
  · rw [PTE_ADDR,or_and]
    have h1 : w&&&~~~0xFFF = 0 := by
      rw [← lowBits_and hw,BitVec.and_assoc]
      simp
    have h2 : a&&&~~~0xFFF = a := by
      ext i hi
      have hb := congrArg (fun v : Word => v.getLsbD i) ha
      simp only [getLsbD_and] at hb
      rw [getLsbD_eq_getElem hi,getLsbD_eq_getElem hi] at hb
      simp only [getElem_and,getElem_not]
      cases hx : a[i] <;> simp_all
    rw [h1,h2]
    simp
  rw [or_and,ha,lowBits_and hw]
  simp

lemma pageLookup_of_xlate {g : Nat} (hw : xlate s.mem g (PPN va) = some w)
    (ht : PPN (s.mem g (PDX va)) < s.npage) (hf : PPN w < s.npage) :
    ∃ q, s.pageLookup g va = some (some (PPN w,q),s) ∧ s.mem q.frame q.idx = w := by
  by_cases hp : Present (s.mem g (PPN va/1024))
  · rw [xlate_of_present hp,← PDX_eq,← PTX_eq] at hw
    rw [← PDX_eq] at hp
    split at hw
    · rename_i hq
      cases hw
      exact ⟨_,pageLookup_present hp ht hq hf,rfl⟩
    cases hw
  rw [xlate_of_absent hp] at hw
  cases hw

lemma pageInsert_inserted (h : Inv K NoHand s) (he : s.Live e) (hpp : pp < s.npage)
    (hva : va < UTOP) (hperm : LowBits perm)
    (hs : s.pageInsert (s.pgdir e) pp va perm = some (0,s')) : Inserted s s' e pp va perm := by
  have hlt := hpp.trans_le h.npage_le
  have hn := PPN_lt_NUPAGE hva
  rw [pageInsert_eq h he hva hlt hperm] at hs
  have hpres : Present ((s.withTable e (PDX va)).pde e (PDX va)) := by
    by_cases hc : Present ((s.withTable e (PDX va)).pde e (PDX va))
    · exact hc
    rw [if_neg hc] at hs
    exact absurd (some_pair_inj hs).1 (by decide)
  rw [if_pos hpres] at hs
  cases hs
  have h1 := h.withTable he (PDX_lt_NUPDE hva)
  have henv := sameEnvs_withTable s e (PDX va)
  have he1 := (henv.env e).live.mpr he
  have hdir : (s.withTable e (PDX va)).pgdir e = s.pgdir e := (henv.env e).pgdir he
  have hxl := fun {i : Nat} (hi : i < 2^20) => xlate_assignPte h1 he1 hn
    (by rw [← PDX_eq]; exact hpres) (page2pa pp|||perm|||PTE_P) hi
  have hpresent : Present (page2pa pp|||perm|||PTE_P) := present_or_PTE_P _
  have hhere : xlate ((s.withTable e (PDX va)).assignPte e (PPN va)
      (page2pa pp|||perm|||PTE_P)).mem (s.pgdir e) (PPN va) = some (page2pa pp|||perm|||PTE_P) := by
    rw [← hdir,hxl (PPN_lt va),if_pos rfl,if_pos hpresent]
  refine ⟨?_,hhere,fun n hn' hne hwin => ?_,fun e' n he' hne hn' => ?_⟩
  · have hpde := pde_assignPte h1 he1 hn (by rw [← PDX_eq]; exact hpres)
      (page2pa pp|||perm|||PTE_P) he1 (PDX va)
    have ht := (h1.table_held he1 (PDX_lt_NUPDE hva) hpres).1
    rw [← hpde] at ht
    have hPPN : PPN (page2pa pp|||perm|||PTE_P) = pp := by
      rw [BitVec.or_assoc,PPN_pte hlt (lowBits_or hperm lowBits_PTE_P)]
    have hnp : (s.withTable e (PDX va)).npage = s.npage := henv.npage
    obtain ⟨q,hq,hw⟩ := pageLookup_of_xlate hhere
      (by rw [← hdir]; exact ht) (by rw [hPPN]; exact hnp ▸ hpp)
    rw [hPPN] at hq
    have halign : page2pa pp&&&0xFFF = 0 := page2pa_and (by decide)
    have hparts := entry_parts halign (lowBits_or hperm lowBits_PTE_P)
    rw [← BitVec.or_assoc,← hw] at hparts
    exact ⟨q,hq,hparts⟩
  · rw [← hdir,hxl hn',if_neg hne,hdir]
    exact xlate_withTable h he hn' hwin
  have he1' := (henv.env e').live.mpr he'
  have hsame := sameSpace_assignPte h1 he1 hn (by rw [← PDX_eq]; exact hpres)
    (page2pa pp|||perm|||PTE_P) he1' hne
  have hsame' := sameSpace_withTable (d := PDX va) h he he' hne
  exact ⟨hsame.pgdir.trans hsame'.pgdir,(hsame.pte n hn').trans (hsame'.pte n hn')⟩

/-- After `page_remove` the page is gone, and the map is otherwise what it was. -/
structure Removed (s s' : Kern) (e : Nat) (va : Word) : Prop where
  gone : xlate s'.mem (s.pgdir e) (PPN va) = none
  same : ∀ n < 2^20, n ≠ PPN va → xlate s'.mem (s.pgdir e) n = xlate s.mem (s.pgdir e) n
  others : ∀ e' n, s.Live e' → e' ≠ e → n < NUPAGE →
    s'.pgdir e' = s.pgdir e' ∧ s'.pte e' n = s.pte e' n

lemma pageRemove_removed (h : Inv K NoHand s) (he : s.Live e) (hva : va < UTOP) :
    ∃ s', s.pageRemove (s.pgdir e) va = some s' ∧ Removed s s' e va := by
  have hn := PPN_lt_NUPAGE hva
  rw [pageRemove_eq h he hva]
  by_cases hw : s.pte e (PPN va) = none
  · rw [if_pos hw]
    exact ⟨s,rfl,hw,fun _ _ _ => rfl,fun _ _ _ _ _ => ⟨rfl,rfl⟩⟩
  obtain ⟨w,hw'⟩ := ne_none_iff_exists'.mp hw
  have hp := (pte_some hw').1
  rw [if_neg hw]
  refine ⟨_,rfl,?_,fun n hn' hne => ?_,fun e' n he' hne hn' => ?_⟩
  · rw [xlate_assignPte h he hn hp 0 (PPN_lt va),if_pos rfl]
    exact if_neg (by decide)
  · rw [xlate_assignPte h he hn hp 0 hn',if_neg hne]
  have hsame := sameSpace_assignPte h he hn hp 0 he' hne
  exact ⟨hsame.pgdir,hsame.pte n hn'⟩

lemma pgdirWalk_reads {g : Nat} {q : Option PtePtr}
    (hs : s.pgdirWalk g va false = some (q,s')) : s' = s := by
  unfold pgdirWalk at hs
  split at hs
  · obtain ⟨p,_,hs⟩ := of_bind hs
    exact (some_pair_inj hs).2.symm
  rw [if_pos rfl] at hs
  exact (some_pair_inj hs).2.symm

end insert

section boot

variable {s : Kern} {g : Nat}

lemma CanMap.setEntry (h : CanMap s g) {d : Nat} (hd : d < NPDENTRIES) (hw : ¬IsWindow d)
    (hp : Present (s.mem g d)) (i : Nat) (w : Word) : CanMap (s.setWord (PPN (s.mem g d)) i w) g ∧
    (s.setWord (PPN (s.mem g d)) i w).mem g = s.mem g := by
  have hdir : (s.setWord (PPN (s.mem g d)) i w).mem g = s.mem g :=
    set_frame _ _ _ (h.dir.table_ne d hd hw hp).symm
  refine ⟨⟨h.npage_le,h.dir.congr hdir,h.free_lt,h.free_nodup,h.dir_free,?_,?_⟩,hdir⟩
  · rw [hdir]
    exact h.table_lt
  rw [hdir]
  exact h.table_free

/-- The state after `pgdir_walk` made a table for entry `d` from frame `p`. -/
def Kern.hangIn (s : Kern) (g d p : Nat) (l : List Nat) : Kern :=
  { s with mem := hung s.mem g d p, ppRef := Function.update s.ppRef p (s.ppRef p+1),
           pageFreeList := l }

variable {l : List Nat} {la w pa : Word}

lemma CanMap.hangIn (h : CanMap s g) {d p : Nat} (hw : ¬IsWindow d)
    (hl : s.pageFreeList = p :: l) : CanMap (s.hangIn g d p l) g := by
  have hu := h.unused (p := p) (by simp [hl])
  have hnd := h.free_nodup
  rw [hl,nodup_cons] at hnd
  have hsub : ∀ f ∈ l, f ∈ s.pageFreeList := fun f hf => by simp [hl,hf]
  refine ⟨h.npage_le,hung_dirOk h.dir hw hu,fun f hf => h.free_lt f (hsub f hf),hnd.2,
    fun hc => h.dir_free (hsub g hc),?_,?_⟩
  · intro d' hd' hw' hp'
    have hdir : (s.hangIn g d p l).mem g d' = _ := hung_dir hu d'
    rw [hdir] at hp' ⊢
    by_cases hdd : d' = d
    · rw [if_pos hdd,PPN_pde hu.lt]
      exact h.free_lt p (by simp [hl])
    rw [if_neg hdd] at hp' ⊢
    exact h.table_lt d' hd' hw' hp'
  intro d' hd' hw' hp' hc
  have hdir : (s.hangIn g d p l).mem g d' = _ := hung_dir hu d'
  rw [hdir] at hp' hc
  by_cases hdd : d' = d
  · rw [if_pos hdd,PPN_pde hu.lt] at hc
    exact hnd.1 hc
  rw [if_neg hdd] at hp' hc
  exact h.table_free d' hd' hw' hp' (hsub _ hc)

lemma pgdirWalk_hangs (h : CanMap s g) {p : Nat} (ha : ¬Present (s.mem g (PDX la)))
    (hl : s.pageFreeList = p :: l) :
    s.pgdirWalk g la true = some (some ⟨p,PTX la⟩,s.hangIn g (PDX la) p l) := by
  have hu := h.unused (p := p) (by simp [hl])
  have hplt := h.free_lt p (by simp [hl])
  have hpa : ({s with pageFreeList := l} : Kern).pa2page (page2pa p) = some p := by
    rw [pa2page_of_lt (by rw [PPN_page2pa hu.lt]; exact hplt),PPN_page2pa hu.lt]
  have hw : (s.hangIn g (PDX la) p l).mem g (PDX la) = page2pa p|||PTE_U|||PTE_W|||PTE_P := by
    have := hung_dir (d := PDX la) hu (PDX la)
    rwa [if_pos rfl] at this
  have hwalk : (s.hangIn g (PDX la) p l).walkTable g la =
      some (some ⟨p,PTX la⟩,s.hangIn g (PDX la) p l) := by
    rw [walkTable_eq (by rw [hw,PPN_pde hu.lt]; exact hplt),hw,PPN_pde hu.lt]
  rw [← hwalk]
  simp only [pgdirWalk,if_neg ha,pageAlloc,hl,Bool.true_eq_false,if_false,hpa,bind,Option.bind]
  rfl

/-- One round of `boot_map_segment`: the page is mapped, at most one table is made. -/
structure Mapped (s s' : Kern) (g : Nat) (la w : Word) : Prop where
  can : CanMap s' g
  here : xlate s'.mem g (PPN la) = some w
  same : ∀ n < 2^20, n ≠ PPN la → ¬s.ShowsEmpty g (PDX la) n → xlate s'.mem g n = xlate s.mem g n
  pde : ∀ d, Present (s'.mem g d) ↔ Present (s.mem g d) ∨ d = PDX la
  free : s.pageFreeList.length ≤
    s'.pageFreeList.length+(if Present (s.mem g (PDX la)) then 0 else 1)

lemma mapPage_spec (h : CanMap s g) (hw : ¬IsWindow (PDX la))
    (hpw : Present w) (hor : Present (s.mem g (PDX la)) ∨ s.pageFreeList ≠ []) : ∃ q s1,
    s.pgdirWalk g la true = some (some q,s1) ∧ Mapped s (s1.setWord q.frame q.idx w) g la w := by
  have hN : NPDENTRIES = 1024 := rfl
  have hlt := PPN_lt la
  have hd : PDX la < NPDENTRIES := by rw [PDX_eq]; omega
  have hi : PTX la < NPTENTRIES := PTX_lt la
  have hpn : 1024*PDX la+PTX la = PPN la := by rw [PDX_eq,PTX_eq]; omega
  by_cases hp : Present (s.mem g (PDX la))
  · obtain ⟨hcan,hdir⟩ := h.setEntry hd hw hp (PTX la) w
    have hx := fun {n : Nat} (hn : n < 2^20) => xlate_setEntry h.dir hd hw hp hi w hn
    rw [hpn] at hx
    refine ⟨_,s,pgdirWalk_present hp (h.table_lt _ hd hw hp),hcan,?_,fun n hn hne _ => ?_,
      fun d => ?_,?_⟩
    · exact (hx hlt).trans (by rw [if_pos rfl,if_pos hpw])
    · exact (hx hn).trans (if_neg hne)
    · rw [hdir]
      exact ⟨.inl,fun hc => hc.elim id fun hc => hc ▸ hp⟩
    rw [if_pos hp]
    exact le_rfl
  obtain ⟨p,l,hl⟩ := exists_cons_of_ne_nil (hor.resolve_left hp)
  have hu := h.unused (p := p) (by simp [hl])
  have h1 := h.hangIn (d := PDX la) hw hl
  have hpde : (s.hangIn g (PDX la) p l).mem g (PDX la) = page2pa p|||PTE_U|||PTE_W|||PTE_P := by
    have := hung_dir (d := PDX la) hu (PDX la)
    rwa [if_pos rfl] at this
  have hp1 : Present ((s.hangIn g (PDX la) p l).mem g (PDX la)) := by
    rw [hpde]
    exact present_or_PTE_P _
  have hT : PPN ((s.hangIn g (PDX la) p l).mem g (PDX la)) = p := by rw [hpde,PPN_pde hu.lt]
  obtain ⟨hcan,hdir⟩ := h1.setEntry hd hw hp1 (PTX la) w
  have hx := fun {n : Nat} (hn : n < 2^20) => xlate_setEntry h1.dir hd hw hp1 hi w hn
  rw [hpn] at hx
  rw [hT] at hcan hdir hx
  refine ⟨_,_,pgdirWalk_hangs h hp hl,hcan,?_,fun n hn hne hwin => ?_,fun d => ?_,?_⟩
  · exact (hx hlt).trans (by rw [if_pos rfl,if_pos hpw])
  · refine ((hx hn).trans (if_neg hne)).trans ?_
    exact xlate_hung h.dir hp hu hn fun hc => hwin ⟨hc.1,hc.2,hp⟩
  · rw [hdir]
    have : (s.hangIn g (PDX la) p l).mem g d = _ := hung_dir hu d
    rw [this]
    by_cases hdd : d = PDX la
    · rw [if_pos hdd]
      exact ⟨fun _ => .inr hdd,fun _ => present_or_PTE_P _⟩
    rw [if_neg hdd]
    exact ⟨.inl,fun hc => hc.resolve_right hdd⟩
  rw [if_neg hp,hl]
  exact le_rfl

def segAddr (la : Word) (k : Nat) : Word := la+ofNat 32 (PGSIZE*k)

lemma segAddr_succ (la : Word) (k : Nat) : segAddr (la+ofNat 32 PGSIZE) k = segAddr la (k+1) := by
  rw [segAddr,segAddr,Nat.mul_succ,Nat.add_comm (PGSIZE*k),BitVec.add_assoc,← ofNat_add]

lemma segAddr_zero (la : Word) : segAddr la 0 = la := by simp [segAddr]

lemma PPN_segAddr {k : Nat} (hk : k < 2^20) : PPN (segAddr la k) = (PPN la+k)%2^20 := by
  have hla := la.isLt
  rw [PPN_eq,PPN_eq,segAddr,toNat_add,toNat_ofNat,PGSIZE_eq]
  omega

def Kern.missing (s : Kern) (g : Nat) (la : Word) (n : Nat) : Finset Nat :=
  ((Finset.range n).image fun k => PDX (segAddr la k)).filter fun d => ¬Present (s.mem g d)

lemma mem_missing {n d : Nat} :
    d ∈ s.missing g la n ↔ (∃ k < n, PDX (segAddr la k) = d) ∧ ¬Present (s.mem g d) := by
  simp [missing]

lemma Mapped.missing_subset {s' : Kern} (h : Mapped s s' g la w) (n : Nat) :
    s'.missing g (la+ofNat 32 PGSIZE) n ⊆ (s.missing g la (n+1)).erase (PDX la) := by
  intro d hd
  obtain ⟨⟨k,hk,hkd⟩,ha⟩ := mem_missing.mp hd
  rw [h.pde] at ha
  rw [segAddr_succ] at hkd
  exact Finset.mem_erase.mpr ⟨fun hc => ha (.inr hc),
    mem_missing.mpr ⟨⟨k+1,by omega,hkd⟩,fun hc => ha (.inl hc)⟩⟩

/-- What `boot_map_segment` does with the `n` pages it has left, from number `i` on. -/
structure SegMapped (s s' : Kern) (g : Nat) (la pa perm : Word) (i n : Nat) : Prop where
  here : ∀ k < n, xlate s'.mem g (PPN (segAddr la k)) = some (segAddr pa (i+k)|||perm|||PTE_P)
  same : ∀ j < 2^20, (∀ k < n, j ≠ PPN (segAddr la k)) →
    (∀ k < n, ¬s.ShowsEmpty g (PDX (segAddr la k)) j) → xlate s'.mem g j = xlate s.mem g j

lemma bootMapLoop_spec (pa perm : Word)
    (n : Nat) : ∀ (i : Nat) (la : Word) (s : Kern), CanMap s g → n ≤ 2^20 →
    (∀ k < n, ¬IsWindow (PDX (segAddr la k))) → (s.missing g la n).card ≤ s.pageFreeList.length →
    ∃ s', bootMapLoop g pa perm n i la s = some s' ∧ SegMapped s s' g la pa perm i n := by
  induction n with
  | zero =>
    intro i la s _ _ _ _
    exact ⟨s,rfl,fun k hk => absurd hk (by omega),fun _ _ _ _ => rfl⟩
  | succ n ih =>
    intro i la s h hn hwin hfree
    have hw0 : ¬IsWindow (PDX la) := by
      have := hwin 0 (by omega)
      rwa [segAddr_zero] at this
    have hmem : ¬Present (s.mem g (PDX la)) → PDX la ∈ s.missing g la (n+1) := fun ha =>
      mem_missing.mpr ⟨⟨0,by omega,by rw [segAddr_zero]⟩,ha⟩
    have hor : Present (s.mem g (PDX la)) ∨ s.pageFreeList ≠ [] := by
      by_cases hp : Present (s.mem g (PDX la))
      · exact .inl hp
      refine .inr fun hnil => ?_
      have := Finset.card_pos.mpr ⟨_,hmem hp⟩
      rw [hnil,length_nil] at hfree
      omega
    obtain ⟨q,s1,hwalk,hm⟩ := mapPage_spec h (w := segAddr pa i|||perm|||PTE_P) hw0
      (present_or_PTE_P _) hor
    have hfree' : ((s1.setWord q.frame q.idx (segAddr pa i|||perm|||PTE_P)).missing g
        (la+ofNat 32 PGSIZE) n).card ≤
        (s1.setWord q.frame q.idx (segAddr pa i|||perm|||PTE_P)).pageFreeList.length := by
      have hsub := Finset.card_le_card (hm.missing_subset n)
      have hlen := hm.free
      by_cases hp : Present (s.mem g (PDX la))
      · rw [if_pos hp] at hlen
        have := Finset.card_erase_le (s := s.missing g la (n+1)) (a := PDX la)
        omega
      rw [if_neg hp] at hlen
      rw [Finset.card_erase_of_mem (hmem hp)] at hsub
      omega
    obtain ⟨s',hs',hseg⟩ := ih (i+1) (la+ofNat 32 PGSIZE) _ hm.can (by omega)
      (fun k hk => by rw [segAddr_succ]; exact hwin (k+1) (by omega)) hfree'
    refine ⟨s',?_,fun k hk => ?_,fun j hj hne hsh => ?_⟩
    · rw [bootMapLoop,hwalk]
      exact hs'
    · cases k with
      | zero =>
        rw [segAddr_zero,hseg.same _ (PPN_lt la) (fun k hk => ?_) (fun k _ hc => ?_),hm.here]
        · rfl
        · have hla := PPN_lt la
          rw [segAddr_succ,PPN_segAddr (by omega)]
          omega
        exact hw0 (by rw [PDX_eq]; exact hc.1)
      | succ k =>
        have := hseg.here k (by omega)
        rw [segAddr_succ] at this
        rw [this,show i+1+k = i+(k+1) by omega]
    rw [hseg.same j hj (fun k hk => ?_) (fun k hk hc => ?_),hm.same j hj]
    · have := hne 0 (by omega)
      rwa [segAddr_zero] at this
    · have := hsh 0 (by omega)
      rwa [segAddr_zero] at this
    · rw [segAddr_succ]
      exact hne (k+1) (by omega)
    rw [segAddr_succ] at hc
    exact hsh (k+1) (by omega) ⟨hc.1,hc.2.1,fun hp => hc.2.2 ((hm.pde _).mpr (.inl hp))⟩

/-- After `boot_map_segment` the pages of the segment map to consecutive frames, and the map
is otherwise what it was. -/
structure SegmentMapped (s s' : Kern) (g : Nat) (la size pa perm : Word) : Prop where
  here : ∀ k < size.toNat/PGSIZE, ∃ w, xlate s'.mem g (PPN (segAddr la k)) = some w ∧
    PTE_ADDR w = segAddr pa k ∧ w&&&0xFFF = perm|||PTE_P
  same : ∀ n < 2^20, (∀ k < size.toNat/PGSIZE, n ≠ PPN (segAddr la k)) →
    (∀ k < size.toNat/PGSIZE, ¬s.ShowsEmpty g (PDX (segAddr la k)) n) →
    xlate s'.mem g n = xlate s.mem g n

lemma aligned_and {a : Word} (h : a.toNat%PGSIZE = 0) : a&&&0xFFF = 0 := by
  apply eq_of_toNat_eq
  rw [toNat_and,show (0xFFF : Word).toNat = 2^12-1 from rfl,Nat.and_two_pow_sub_one_eq_mod]
  exact h

lemma segAddr_aligned (h : pa.toNat%PGSIZE = 0) (k : Nat) : (segAddr pa k).toNat%PGSIZE = 0 := by
  have hP : PGSIZE = 4096 := rfl
  rw [segAddr,toNat_add,toNat_ofNat]
  rw [hP] at h ⊢
  omega

lemma bootMapSegment_mapped (h : CanMap s g) {size perm : Word} (hpa : pa.toNat%PGSIZE = 0)
    (hperm : LowBits perm) (hwin : ∀ k < size.toNat/PGSIZE, ¬IsWindow (PDX (segAddr la k)))
    (hfree : (s.missing g la (size.toNat/PGSIZE)).card ≤ s.pageFreeList.length) :
    ∃ s', s.bootMapSegment g la size pa perm = some s' ∧ SegmentMapped s s' g la size pa perm := by
  have hn : size.toNat/PGSIZE ≤ 2^20 := by
    have := size.isLt
    rw [PGSIZE_eq]
    omega
  obtain ⟨s',hs',hseg⟩ := bootMapLoop_spec pa perm _ 0 la s h hn hwin hfree
  refine ⟨s',hs',fun k hk => ⟨_,hseg.here k hk,?_⟩,hseg.same⟩
  rw [Nat.zero_add,BitVec.or_assoc]
  exact entry_parts (aligned_and (segAddr_aligned hpa k)) (lowBits_or hperm lowBits_PTE_P)

end boot

section refinement

variable {K : Finset Nat} {s : Kern}

theorem pageTable_refines (h : Reachable K s) : (∀ e pp va perm s', s.Live e →
    pp < s.npage → va < UTOP → LowBits perm → s.pageInsert (s.pgdir e) pp va perm = some (0,s') →
    Inserted s s' e pp va perm) ∧ (∀ e va, s.Live e → va < UTOP → ∃ s', s.pageRemove (s.pgdir e)
    va = some s' ∧ Removed s s' e va) ∧ (∀ g la size pa perm, s.Directory g → la.toNat%PGSIZE = 0 →
    pa.toNat%PGSIZE = 0 → LowBits perm → (∀ k < size.toNat/PGSIZE, ¬IsWindow (PDX (segAddr la k))) →
    (s.missing g la (size.toNat/PGSIZE)).card ≤ s.pageFreeList.length →
    ∃ s', s.bootMapSegment g la size pa perm = some s' ∧ SegmentMapped s s' g la size pa perm) ∧
    (∀ g va q s', s.pgdirWalk g va false = some (q,s') → s' = s) := by
  have hi := h.good.inv
  refine ⟨?_,?_,?_,?_⟩
  · intro e pp va perm s' he hpp hva hperm hs
    exact pageInsert_inserted hi he hpp hva hperm hs
  · intro e va he hva
    exact pageRemove_removed hi he hva
  · intro g la size pa perm hg _ hpa hperm hwin hfree
    exact bootMapSegment_mapped (hi.canMap hg) hpa hperm hwin hfree
  intro g va q s' hs
  exact pgdirWalk_reads hs

end refinement

def oneEnv : List Act := [.create 0x800020 []]

theorem pageTable_refines_oneEnv : ∃ s s' s'', Reachable {0} s ∧ s.Live 0 ∧
    s.pageInsert (s.pgdir 0) 2 0x1000000 7 = some (0,s') ∧ Inserted s s' 0 2 0x1000000 7 ∧
    s.pageRemove (s.pgdir 0) 0xEEBFD000 = some s'' ∧ Removed s s'' 0 0xEEBFD000 := by
  have hrun : ((execAll oneEnv (bootKern 32)).bind fun s =>
      (s.pageInsert (s.pgdir 0) 2 0x1000000 7).map fun p =>
        decide (s.Live 0 ∧ p.1 = 0 ∧ 2 < s.npage)) = some true := by decide +kernel
  obtain ⟨s,hs,hrun⟩ := of_bind hrun
  obtain ⟨⟨r,s'⟩,hs',hl,rfl,hlt⟩ := of_map_decide hrun
  have hreach := execAll_reachable hs
  obtain ⟨hins,hrem,_⟩ := pageTable_refines hreach
  obtain ⟨s'',hs'',hgone⟩ := hrem 0 0xEEBFD000 hl (by decide)
  exact ⟨s,s',s'',hreach,hl,hs',hins 0 2 0x1000000 7 s' hl hlt (by decide) (by decide) hs',
    hs'',hgone⟩

/-- A new table shows up in the window at `UVPT`, and a segment mapped over the window changes the
directory itself. -/
theorem windows_change : ∃ s s' s'', Reachable {0} s ∧ s.Live 0 ∧ s.pageInsert (s.pgdir 0)
    2 0x1000000 7 = some (0,s') ∧ (∃ n < 2^20, n ≠ PPN 0x1000000 ∧ xlate s'.mem (s.pgdir 0)
    n ≠ xlate s.mem (s.pgdir 0) n) ∧ s.bootMapSegment (s.pgdir 0) UVPT 0x1000 0x5000 0 = some s'' ∧
    (∃ n < 2^20, n ≠ PPN UVPT ∧ xlate s''.mem (s.pgdir 0) n ≠ xlate s.mem (s.pgdir 0) n) := by
  have hrun : ((execAll oneEnv (bootKern 32)).bind fun s =>
      (s.pageInsert (s.pgdir 0) 2 0x1000000 7).bind fun p =>
      (s.bootMapSegment (s.pgdir 0) UVPT 0x1000 0x5000 0).map fun t =>
        decide (s.Live 0 ∧ p.1 = 0 ∧
          xlate p.2.mem (s.pgdir 0) 979972 ≠ xlate s.mem (s.pgdir 0) 979972 ∧
          xlate t.mem (s.pgdir 0) 982016 ≠ xlate s.mem (s.pgdir 0) 982016)) = some true := by
    decide +kernel
  obtain ⟨s,hs,hrun⟩ := of_bind hrun
  obtain ⟨⟨r,s'⟩,hs',hrun⟩ := of_bind hrun
  obtain ⟨t,ht,hl,rfl,h1,h2⟩ := of_map_decide hrun
  have hreach := execAll_reachable hs
  exact ⟨s,s',t,hreach,hl,hs',⟨979972,by decide,by decide,h1⟩,ht,⟨982016,by decide,by decide,h2⟩⟩

end KludgeOS
