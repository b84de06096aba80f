import KludgeOS.Rights

/-!
Address spaces are isolated from each other: a call changes what its caller
governs, and what a receiver has opened to it.
-/

namespace KludgeOS
open Ledger Traces Kern Option Event

inductive SpaceCall where
  | pageAlloc : (envid va perm : Word) → SpaceCall
  | pageMap : (srcenvid srcva dstenvid dstva perm : Word) → SpaceCall
  | pageUnmap : (envid va : Word) → SpaceCall
  | exofork : SpaceCall
  | ipcTrySend : (envid value srcva perm : Word) → SpaceCall

def SpaceCall.run : SpaceCall → Kern → Nat → Option (Int × Kern)
  | .pageAlloc envid va perm,s,c => s.sysPageAlloc c envid va perm
  | .pageMap srcenvid srcva dstenvid dstva perm,s,c =>
    s.sysPageMap c srcenvid srcva dstenvid dstva perm
  | .pageUnmap envid va,s,c => s.sysPageUnmap c envid va
  | .exofork,s,c => s.sysExofork c
  | .ipcTrySend envid value srcva perm,s,c => s.sysIpcTrySend c envid value srcva perm

/-- The call is a send that delivers a page to `e`, which waits for it. -/
def SpaceCall.Delivers (s : Kern) (c e : Nat) (r : Int) : SpaceCall → Prop
  | .ipcTrySend envid _ _ _ =>
    s.envid2env c envid false = some e ∧ (s.envs e).envIpcRecving ∧ r = 1
  | _ => False

/-- The address space of `e` and the contents of the frames it maps are the same. -/
structure Intact (s s' : Kern) (e : Nat) : Prop where
  space : SameSpace s s' e
  contents : ∀ n < NUPAGE, ∀ w, s.pte e n = some w → s'.mem (PPN w) = s.mem (PPN w)

def Event.Leaves (e : Nat) (a : Event) : Prop := a.env ≠ some e ∧ ∀ e' n i v, a ≠ .store e' n i v

section isolation

variable {K : Finset Nat} {s s' : Kern} {c e : Nat}

lemma Intact.refl (he : s.Live e) : Intact s s e := ⟨.refl he,fun _ _ _ _ => rfl⟩

lemma Does.intact (hd : Does (Leaves e) s s') (h : Inv K NoHand s) (he : s.Live e) :
    Intact s s' e := by
  have := hd.invariant (I := fun t => Inv K NoHand t ∧ Intact s t e) (fun t a ht hok ha => ?_)
    ⟨h,.refl he⟩
  · exact this.2
  obtain ⟨hi,hsp,hco⟩ := ht
  refine ⟨hi.event hok,hsp.trans (sameSpace hi hok hsp.live ha.1),fun n hn w hw => ?_⟩
  have hw' := (hsp.pte n hn).trans hw
  exact (sameContents hi hok ha.2 hsp.live hn hw').trans (hco n hn w hw)

lemma SpaceCall.leaves (h : Inv K NoHand s) (hc : s.Live c) {k : SpaceCall} {r : Int}
    (hs : k.run s c = some (r,s')) (hgov : ¬s.Governs c e) (hdel : ¬k.Delivers s c e r) :
    Does (Leaves e) s s' := by
  have hne : ∀ {envid : Word} {t : Nat}, s.envid2env c envid true = some t → t ≠ e := by
    rintro envid t ht rfl
    exact hgov (envid2env_governs ht)
  cases k with
  | pageAlloc envid va perm =>
    obtain ⟨_,rfl | ⟨p,hok,rfl⟩⟩ | ⟨_,_,_,t,ht,hok,rfl⟩ := sysPageAlloc_spec h hc hs
    · exact .refl
    · exact .one hok (by simp [Leaves,env])
    exact .one hok (by simp [Leaves,env,hne ht])
  | pageMap srcenvid srcva dstenvid dstva perm =>
    obtain ⟨_,rfl⟩ | ⟨_,_,_,_,es,ed,w,_,hed,_,_,hp⟩ := sysPageMap_spec h hc hs
    · exact .refl
    exact ⟨_,hp,by simp [Leaves,env,hne hed]⟩
  | pageUnmap envid va =>
    obtain ⟨_,rfl⟩ | ⟨_,_,t,ht,⟨_,rfl⟩ | hp⟩ := sysPageUnmap_spec h hc hs
    · exact .refl
    · exact .refl
    exact ⟨_,hp,by simp [Leaves,env,hne ht]⟩
  | exofork =>
    obtain ⟨_,rfl⟩ | ⟨t,l,_,_,_,hp⟩ := sysExofork_spec h hc hs
    · exact .refl
    exact ⟨_,hp,by simp [Leaves,env]⟩
  | ipcTrySend envid value srcva perm =>
    obtain ⟨_,rfl⟩ | ⟨t,ht,hrecv,hcase⟩ := sysIpcTrySend_spec h hc hs
    · exact .refl
    obtain ⟨_,hp⟩ | ⟨_,hp⟩ | ⟨rfl,_,_,_,_,w,_,hp⟩ := hcase
    · exact ⟨_,hp,by simp [Leaves,env]⟩
    · exact ⟨_,hp,by simp [Leaves,env]⟩
    have hte : t ≠ e := by
      rintro rfl
      exact hdel ⟨ht,hrecv,rfl⟩
    exact ⟨_,hp,by simp [Leaves,env,hte]⟩

/-- Whatever `c` calls, an environment that is neither `c` nor its child, and gets no page, keeps
its address space. -/
theorem addressSpace_isolated (h : Reachable K s) (hcur : s.curenv = some c) (tf : Trapframe)
    {k : SpaceCall} {r : Int}
    (hs : k.run (s.modEnv c fun v => {v with envTf := tf}) c = some (r,s'))
    (he : s.Live e) (hec : e ≠ c) (hpar : (s.envs e).envParentId ≠ (s.envs c).envId)
    (hdel : ¬k.Delivers s c e r) : Intact s s' e := by
  have hgood := h.good
  have hone : Does (Leaves e) s (Event.apply (.edit c (.frame tf)) s) :=
    .one trivial (by simp [Leaves,env])
  have hc := (sameSpace hgood.inv (a := .edit c (.frame tf)) trivial (hgood.cur c hcur)
    (by simp [env])).live
  have hself := modEnv_self s c (Edit.frame tf).apply
  have hother := modEnv_other s (Edit.frame tf).apply hec
  refine (hone.trans (SpaceCall.leaves (hone.inv hgood.inv) hc hs ?_ ?_)).intact hgood.inv he
  · rintro (hc | hp)
    · exact hec hc
    rw [Event.apply,hother,hself] at hp
    exact hpar hp
  intro hd
  cases k with
  | ipcTrySend envid value srcva perm =>
    obtain ⟨ht,hr,h1⟩ := hd
    rw [Event.apply,hother] at hr
    exact hdel ⟨(envid2env_frame _ _ _ _ _).symm.trans ht,hr,h1⟩
  | _ => exact hd.elim

end isolation

def threeEnvs : List Act :=
  [.create 0x800020 [],.create 0x800020 [],.create 0x800020 [],.start,.trap (callFrame 1 14
   0x1000000 0 0 0 0) {},.trap (callFrame 2 12 0 0 0 0 0) {}]

theorem addressSpace_isolated_bystander : ∃ s s' c, Reachable {0} s ∧ s.curenv = some c ∧
    (SpaceCall.pageAlloc 0 0x1000000 7).run s c = some (0,s') ∧ s.Live 1 ∧ 1 ≠ c ∧
    (s.envs 1).envParentId ≠ (s.envs c).envId ∧ s.pte 1 0xEEBFD ≠ none ∧ Intact s s' 1 := by
  have hrun : ((execAll threeEnvs (bootKern 32)).bind fun s =>
      s.curenv.bind fun c => ((SpaceCall.pageAlloc 0 0x1000000 7).run
          (s.modEnv c fun v => {v with envTf := (s.envs c).envTf}) c).map fun p =>
        decide (p.1 = 0 ∧ s.Live 1 ∧ 1 ≠ c ∧ (s.envs 1).envParentId ≠ (s.envs c).envId ∧
          s.pte 1 0xEEBFD ≠ none)) = some true := by decide +kernel
  obtain ⟨s,hs,hrun⟩ := of_bind hrun
  obtain ⟨c,hcur,hrun⟩ := of_bind hrun
  obtain ⟨⟨r,s'⟩,hs',rfl,hl,hne,hpar,hpte⟩ := of_map_decide hrun
  have hreach := execAll_reachable hs
  have hsame : (s.modEnv c fun v => {v with envTf := (s.envs c).envTf}) = s := by
    simp [modEnv,setEnv]
  have hs'' := hs'
  rw [hsame] at hs''
  exact ⟨s,s',c,hreach,hcur,hs'',hl,hne,hpar,hpte,
    addressSpace_isolated hreach hcur _ hs' hl hne hpar fun hd => hd⟩

end KludgeOS
