import KludgeOS.Events

/-!
What an event leaves alone: the address spaces of the other environments, and
the contents of every mapped frame unless the event is a store.
-/

namespace KludgeOS
open Ledger Traces List
open Event (popPage apply)
open Kern Option Event Mem

/-- The address space of the live environment `e` below `UTOP` is the same in both states. -/
structure SameSpace (s s' : Kern) (e : Nat) : Prop where
  live : s'.Live e
  pgdir : s'.pgdir e = s.pgdir e
  pde : ∀ d < NUPDE, s'.pde e d = s.pde e d
  pte : ∀ n < NUPAGE, s'.pte e n = s.pte e n

variable {e : Nat}

lemma SameSpace.refl {s : Kern} (he : s.Live e) : SameSpace s s e :=
  ⟨he,rfl,fun _ _ => rfl,fun _ _ => rfl⟩

lemma SameSpace.trans {s s' s'' : Kern} (h : SameSpace s s' e) (h' : SameSpace s' s'' e) :
    SameSpace s s'' e :=
  ⟨h'.live,h'.pgdir.trans h.pgdir,fun d hd => (h'.pde d hd).trans (h.pde d hd),
    fun n hn => (h'.pte n hn).trans (h.pte n hn)⟩

def Event.env : Event → Option Nat
  | .map e _ _ _ | .unmap e _ | .fresh e _ _ _ | .table e _ | .dropTable e _ | .reap e => some e
  | _ => none

section ops

variable {K : Finset Nat} {hand : Nat → Prop} {s : Kern} {e n d e' : Nat}

lemma sameSpace_of_structural {s' : Kern} (he : s.Live e) (hs : SameEnv s s' e)
    (hm : ∀ f, s.Structural K f → s'.mem f = s.mem f) : SameSpace s s' e where
  live := hs.live.mpr he
  pgdir := hs.pgdir he
  pde d _ := by rw [pde,hs.pgdir he,hm _ (.inr (.inl ⟨e,he,rfl⟩))]
  pte n hn := by rw [pte,hs.pgdir he,xlate_structural hm he hn]

section

variable (h : Inv K hand s) (he : s.Live e) (hn : n < NUPAGE) (hp : Present (s.pde e (n/1024)))
include h he hn hp

lemma pte_assignPte (w : Word) {n' : Nat} (he' : s.Live e')
    (hn' : n' < NUPAGE) :
    (s.assignPte e n w).pte e' n' =
      if e' = e ∧ n' = n then (if Present w then some w else none) else s.pte e' n' :=
  xlate_setPte h he hn hp w he' hn'

lemma pde_assignPte (w : Word) (he' : s.Live e') (d : Nat) :
    (s.assignPte e n w).pde e' d = s.pde e' d :=
  congrFun (setPte_dir h he hn hp w he') d

lemma sameSpace_assignPte (w : Word) (he' : s.Live e') (hne : e' ≠ e) :
    SameSpace s (s.assignPte e n w) e' where
  live := he'
  pgdir := rfl
  pde d _ := pde_assignPte h he hn hp w he' d
  pte n' hn' := by rw [pte_assignPte h he hn hp w he' hn',if_neg fun hc => hne hc.1]

end

variable {f p : Nat} {l : List Nat}

lemma mem_assignPte (he : s.Live e) (hn : n < NUPAGE) (hp : Present (s.pde e (n/1024))) (w : Word)
    (hf : ¬s.Structural K f) : (s.assignPte e n w).mem f = s.mem f := by
  refine set_frame _ _ _ ?_
  rintro rfl
  exact hf (.inr (.inr ⟨e,_,he,pde_of_page hn,hp,rfl⟩))

lemma pde_withTable_ne (h : Inv K hand s) (he : s.Live e) (he' : s.Live e') {d' : Nat}
    (hne : ¬(e' = e ∧ d' = d)) : (s.withTable e d).pde e' d' = s.pde e' d' := by
  unfold withTable
  split
  · rfl
  unfold addTable
  split
  · rfl
  rename_i p l hl
  have hmem : p ∈ s.pageFreeList := by simp [hl]
  have hw := hangTable_dir (d := d) h he (h.free_not_structural hmem) he' d'
  rw [if_neg hne] at hw
  exact hw

lemma sameSpace_withTable (h : Inv K hand s) (he : s.Live e) (he' : s.Live e') (hne : e' ≠ e) :
    SameSpace s (s.withTable e d) e' where
  live := ((sameEnvs_withTable s e d).env e').live.mpr he'
  pgdir := ((sameEnvs_withTable s e d).env e').pgdir he'
  pde _ _ := pde_withTable_ne h he he' fun hc => hne hc.1
  pte _ hn := pte_withTable h he he' hn

lemma mem_withTable (he : s.Live e) (hf : ¬s.Structural K f) (hfree : f ∉ s.pageFreeList) :
    (s.withTable e d).mem f = s.mem f := by
  unfold withTable
  split
  · rfl
  unfold addTable
  split
  · rfl
  rename_i p l hl
  have h1 : f ≠ s.pgdir e := fun hc => hf (.inr (.inl ⟨e,he,hc.symm⟩))
  have h2 : f ≠ p := fun hc => hfree (by simp [hl,hc])
  change s.hangTable e d p f = s.mem f
  rw [hangTable,set_frame _ _ _ h1,fill_frame _ _ h2]

lemma sameSpace_dropTable (h : Inv K hand s) (he : s.Live e) (hd : Present (s.pde e d))
    (hz : ∀ t < NPTENTRIES, ¬Present (s.mem (PPN (s.pde e d)) t)) (he' : s.Live e')
    (hne : e' ≠ e) : SameSpace s (s.dropTable e d) e' where
  live := he'
  pgdir := rfl
  pde d' _ := by
    have hw := setPde_dir (d := d) h he s.mem 0 he' d'
    rw [if_neg fun hc => hne hc.1] at hw
    exact hw
  pte n hn := xlate_dropTable h he hd hz he' hn

lemma popPage_structural (h : Inv K hand s) (hl : s.pageFreeList = p :: l) (zero : Bool) :
    ∀ f, s.Structural K f → (popPage s zero p).mem f = s.mem f := by
  intro f hf
  have hstr := h.free_not_structural (f := p) (by simp [hl])
  change (if zero then s.mem.fill p fun _ => 0 else s.mem) f = _
  split
  · exact fill_frame _ _ fun hc => hstr (by rw [← hc]; exact hf)
  rfl

lemma sameSpace_popPage (h : Inv K hand s) (hl : s.pageFreeList = p :: l) (zero : Bool)
    (he : s.Live e) : SameSpace s (popPage s zero p) e :=
  sameSpace_of_structural he ⟨Iff.rfl,fun _ => rfl⟩ (popPage_structural h hl zero)

end ops

section frame

variable {K : Finset Nat} {s : Kern} {e n : Nat}
  {zero : Bool} {perm : Word} {e' n' : Nat} {a : Event}

section

variable (h : Inv K NoHand s)
include h

lemma fresh_states (hok : Ok s (.fresh e n zero perm)) : ∃ p l, s.pageFreeList = p :: l ∧
      let s1 := popPage s zero p
      let s2 := s1.withTable e (n/1024)
      Inv K (fun f => NoHand f ∨ f = p) s1 ∧ Inv K (fun f => NoHand f ∨ f = p) s2 ∧
      s2.Live e ∧ Present (s2.pde e (n/1024)) ∧
      apply (.fresh e n zero perm) s = s2.assignPte e n (entry p perm) := by
  obtain ⟨he,hn,hperm,p,l,hl,hor⟩ := hok
  have h1 := h.popPage hl zero
  have hs := sameSpace_popPage h hl zero he
  have hd := pde_of_page hn
  have hor' : Present ((popPage s zero p).pde e (n/1024)) ∨
      (popPage s zero p).pageFreeList ≠ [] := by
    rw [hs.pde _ hd,popPage,hl]
    exact hor
  refine ⟨p,l,hl,h1,h1.withTable hs.live hd,((sameEnvs_withTable _ e (n/1024)).env e).live.mpr
    hs.live,withTable_present h1 hs.live hor',?_⟩
  simp [apply,hl]

lemma fresh_pte (hok : Ok s (.fresh e n zero perm)) (he' : s.Live e')
    (hn' : n' < NUPAGE) :
    (apply (.fresh e n zero perm) s).pte e' n' =
      if e' = e ∧ n' = n then some (entry (s.pageFreeList.headD 0) perm)
      else s.pte e' n' := by
  obtain ⟨p,l,hl,h1,h2,he2,hp2,heq⟩ := fresh_states h hok
  have hs := sameSpace_popPage h hl zero he'
  have he1 : (popPage s zero p).Live e := hok.1
  have he2' := ((sameEnvs_withTable (popPage s zero p) e (n/1024)).env e').live.mpr hs.live
  have hw : Present (entry p perm) := present_or_PTE_P _
  rw [heq,pte_assignPte h2 he2 hok.2.1 hp2 _ he2' hn',pte_withTable h1 he1 hs.live hn',
    hs.pte n' hn',if_pos hw,hl,headD_cons]

lemma fresh_sameSpace (hok : Ok s (.fresh e n zero perm))
    (he' : s.Live e') (hne : e' ≠ e) : SameSpace s (apply (.fresh e n zero perm) s) e' := by
  obtain ⟨p,l,hl,h1,h2,he2,hp2,heq⟩ := fresh_states h hok
  have hs1 := sameSpace_popPage h hl zero he'
  have he1 : (popPage s zero p).Live e := hok.1
  have hs2 := sameSpace_withTable (d := n/1024) h1 he1 hs1.live hne
  rw [heq]
  exact (hs1.trans hs2).trans (sameSpace_assignPte h2 he2 hok.2.1 hp2 _ hs2.live hne)

lemma spawn_sameSpace {a : Word} (hok : Ok s (.spawn a))
    (he' : s.Live e') : SameSpace s (apply (.spawn a) s) e' := by
  obtain ⟨e,l,hl⟩ := exists_cons_of_ne_nil hok.1
  obtain ⟨p,q,hq⟩ := exists_cons_of_ne_nil hok.2
  have hne : e' ≠ e := by
    rintro rfl
    exact he'.2 ((h.table.free_iff e').mp (by simp [hl])).2
  have hstr := h.free_not_structural (f := p) (by simp [hq])
  simp only [apply,hl,hq,headD_cons]
  exact sameSpace_of_structural he' (sameEnv_spawn hne)
    fun f hf => mem_spawn fun hc => hstr (by rw [← hc]; exact hf)

lemma Event.sameSpace (hok : a.Ok s) (he' : s.Live e')
    (hne : a.env ≠ some e') : SameSpace s (a.apply s) e' := by
  have hne' : ∀ e, a.env = some e → e' ≠ e := by
    rintro e ha rfl
    exact hne ha
  cases a with
  | map e n w perm =>
    exact sameSpace_assignPte h hok.1 hok.2.1 hok.2.2.1 _ he' (hne' e rfl)
  | unmap e n =>
    obtain ⟨w,hw⟩ := ne_none_iff_exists'.mp hok.2.2
    exact sameSpace_assignPte h hok.1 hok.2.1 (pte_some hw).1 _ he' (hne' e rfl)
  | fresh e n zero perm => exact fresh_sameSpace h hok he' (hne' e rfl)
  | table e d => exact sameSpace_withTable h hok.1 he' (hne' e rfl)
  | dropTable e d => exact sameSpace_dropTable h hok.1 hok.2.2.1 hok.2.2.2 he' (hne' e rfl)
  | scrub f =>
    have hstr := h.free_not_structural (f := f) hok
    exact sameSpace_of_structural he' ⟨Iff.rfl,fun _ => rfl⟩
      fun g hg => fill_frame _ _ fun hc => hstr (by rw [← hc]; exact hg)
  | store e n i v =>
    obtain ⟨he,hn,w,hw,_⟩ := hok
    have hstr := h.data_not_structural hn (by rw [holds_pte he,hw]; rfl)
    simp only [apply,hw,map_some,getD_some]
    exact sameSpace_of_structural he' ⟨Iff.rfl,fun _ => rfl⟩
      fun g hg => set_frame _ _ _ fun hc => hstr (by rw [← hc]; exact hg)
  | spawn a => exact spawn_sameSpace h hok he'
  | reap e =>
    have hs := sameEnv_reap (s := s) (hne' e rfl)
    exact sameSpace_of_structural (K := K) he' hs fun _ _ => rfl
  | edit e k =>
    have hq : QuietStep s (s.modEnv e k.apply) := quiet_edit hok
    exact sameSpace_of_structural (K := K) he' (hq.sameEnvs.env e') fun _ _ => rfl
  | sched c pre => exact ⟨he',rfl,fun _ _ => rfl,fun _ _ => rfl⟩

lemma Event.sameContents (hok : a.Ok s)
    (hstore : ∀ e n i v, a ≠ .store e n i v) (he' : s.Live e') (hn' : n' < NUPAGE) {w : Word}
    (hw : s.pte e' n' = some w) : (a.apply s).mem (PPN w) = s.mem (PPN w) := by
  have hheld : s.holds (.pte e' n') = some (PPN w) := by rw [holds_pte he',hw]; rfl
  have hstr := h.data_not_structural hn' hheld
  have hx : Slot.pte e' n' ∈ slots := pte_mem_slots.mpr ⟨he'.1,hn'⟩
  have hfree : PPN w ∉ s.pageFreeList := fun hc => h.balanced.not_held hc _ hx hheld
  cases a with
  | map e n w perm => exact mem_assignPte hok.1 hok.2.1 hok.2.2.1 _ hstr
  | unmap e n =>
    obtain ⟨w,hw⟩ := ne_none_iff_exists'.mp hok.2.2
    exact mem_assignPte hok.1 hok.2.1 (pte_some hw).1 _ hstr
  | fresh e n zero perm =>
    obtain ⟨p,l,hl,h1,h2,he2,hp2,heq⟩ := fresh_states h hok
    have he1 : (popPage s zero p).Live e := hok.1
    have hs1 := sameSpace_popPage h hl zero he'
    have hs2 := pte_withTable (d := n/1024) h1 he1 hs1.live hn'
    have hheld1 : (popPage s zero p).holds (.pte e' n') = some (PPN w) := by
      rw [holds_pte hs1.live,hs1.pte n' hn',hw]; rfl
    have he2' :=
      ((sameEnvs_withTable (popPage s zero p) e (n/1024)).env e').live.mpr hs1.live
    have hheld2 : ((popPage s zero p).withTable e (n/1024)).holds (.pte e' n') =
        some (PPN w) := by rw [holds_pte he2',hs2,hs1.pte n' hn',hw]; rfl
    have hne : PPN w ≠ p := fun hc => hfree (by simp [hl,hc])
    rw [heq,mem_assignPte he2 hok.2.1 hp2 _ (h2.data_not_structural hn' hheld2),mem_withTable he1
      (h1.data_not_structural hn' hheld1) (fun hc => h1.balanced.not_held hc _ hx hheld1)]
    change (if zero then s.mem.fill p fun _ => 0 else s.mem) (PPN w) = _
    split
    · exact fill_frame _ _ hne
    rfl
  | table e d => exact mem_withTable hok.1 hstr hfree
  | dropTable e d =>
    refine set_frame _ _ _ fun hc => hstr (.inr (.inl ⟨e,hok.1,hc.symm⟩))
  | scrub f => exact fill_frame _ _ fun hc => hfree (by rw [hc]; exact hok)
  | store e n i v => exact absurd rfl (hstore e n i v)
  | spawn a =>
    obtain ⟨p,q,hq⟩ := exists_cons_of_ne_nil hok.2
    simp only [apply,hq,headD_cons]
    exact mem_spawn fun hc => hfree (by simp [hq,hc])
  | reap e => rfl
  | edit e k => rfl
  | sched c pre => rfl

lemma Event.live_origin (hok : a.Ok s) (hl : (a.apply s).Live e') :
    s.Live e' ∨ ∃ b l, a = .spawn b ∧ s.envFreeList = e' :: l := by
  cases a with
  | fresh e n zero perm =>
    obtain ⟨p,l,_,_,_,_,_,heq⟩ := fresh_states h hok
    rw [heq] at hl
    exact .inl (((sameEnvs_withTable (popPage s zero p) e (n/1024)).env e').live.mp hl)
  | table e d => exact .inl (((sameEnvs_withTable s e d).env e').live.mp hl)
  | spawn b =>
    obtain ⟨e,l,hfl⟩ := exists_cons_of_ne_nil hok.1
    by_cases hee : e' = e
    · exact .inr ⟨b,l,rfl,hee ▸ hfl⟩
    simp only [apply,hfl,headD_cons] at hl
    exact .inl ((sameEnv_spawn hee).live.mp hl)
  | reap e => exact .inl (live_of_live_reap hl).2
  | edit e k => exact .inl (((quiet_edit hok).sameEnvs.env e').live.mp hl)
  | _ => exact .inl hl

lemma Event.pte_origin (hok : a.Ok s) {v : Word} (hl : (a.apply s).Live e')
    (hn' : n' < NUPAGE) (hv : (a.apply s).pte e' n' = some v) : (s.Live e' ∧ s.pte e' n' = some v) ∨
    (∃ w perm, a = .map e' n' w perm ∧ v = entry (PPN w) perm) ∨
    (∃ zero perm, a = .fresh e' n' zero perm ∧ v = entry (s.pageFreeList.headD 0) perm) := by
  obtain hl' | ⟨b,l,rfl,hfl⟩ := live_origin h hok hl
  · by_cases hne : a.env = some e'
    · cases a with
      | map e n w perm =>
        obtain rfl : e = e' := some.inj hne
        have hp := pte_assignPte h hok.1 hok.2.1 hok.2.2.1 (entry (PPN w) perm) hl' hn'
        by_cases hnn : n' = n
        · subst hnn
          rw [if_pos ⟨rfl,rfl⟩,if_pos (present_or_PTE_P _)] at hp
          exact .inr (.inl ⟨w,perm,rfl,mem_unique hv hp⟩)
        rw [if_neg fun hc => hnn hc.2] at hp
        exact .inl ⟨hl',hp.symm.trans hv⟩
      | unmap e n =>
        obtain rfl : e = e' := some.inj hne
        obtain ⟨w,hw⟩ := ne_none_iff_exists'.mp hok.2.2
        have hp := pte_assignPte h hok.1 hok.2.1 (pte_some hw).1 0 hl' hn'
        by_cases hnn : n' = n
        · rw [if_pos ⟨rfl,hnn⟩,if_neg (by decide)] at hp
          exact absurd (hv.symm.trans hp) (by simp)
        rw [if_neg fun hc => hnn hc.2] at hp
        exact .inl ⟨hl',hp.symm.trans hv⟩
      | fresh e n zero perm =>
        obtain rfl : e = e' := some.inj hne
        have hp := fresh_pte h hok hl' hn'
        by_cases hnn : n' = n
        · subst hnn
          rw [if_pos ⟨rfl,rfl⟩] at hp
          exact .inr (.inr ⟨zero,perm,rfl,mem_unique hv hp⟩)
        rw [if_neg fun hc => hnn hc.2] at hp
        exact .inl ⟨hl',hp.symm.trans hv⟩
      | table e d =>
        exact .inl ⟨hl',(pte_withTable h hok.1 hl' hn').symm.trans hv⟩
      | dropTable e d =>
        exact .inl ⟨hl',(xlate_dropTable h hok.1 hok.2.2.1 hok.2.2.2 hl' hn').symm.trans hv⟩
      | reap e =>
        obtain rfl : e = e' := some.inj hne
        exact absurd hl dead_reap
      | _ => simp [env] at hne
    exact .inl ⟨hl',((sameSpace h hok hl' hne).pte n' hn').symm.trans hv⟩
  have hlow : ¬Present ((apply (.spawn b) s).pde e' (n'/1024)) := by
    simp only [apply,hfl,headD_cons]
    exact pde_spawn_low h (pde_of_page hn')
  rw [pte_of_absent hlow] at hv
  cases hv

end

end frame

end KludgeOS
