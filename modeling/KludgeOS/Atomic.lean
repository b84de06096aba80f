import KludgeOS.CallEffects
import KludgeOS.Fault

/-!
System calls on memory and on environments that fail leave no trace
(`kern/syscall.c`).
-/

namespace KludgeOS
open BitVec Kern Option Mem

structure Untouched (K : Finset Nat) (s s' : Kern) : Prop where
  ppRef : s'.ppRef = s.ppRef
  pageFreeList : s'.pageFreeList = s.pageFreeList
  envFreeList : s'.envFreeList = s.envFreeList
  envs : s'.envs = s.envs
  curenv : s'.curenv = s.curenv
  /-- Page directories and page tables. -/
  tables : ∀ f, Structural K s f → s'.mem f = s.mem f
  frames : ∀ f, f ∉ s.pageFreeList → s'.mem f = s.mem f

section calls

variable {K : Finset Nat} {s s' : Kern} {c : Nat} {r : Int}

lemma Untouched.rfl : Untouched K s s :=
  ⟨Eq.refl _,Eq.refl _,Eq.refl _,Eq.refl _,Eq.refl _,fun _ _ => Eq.refl _,fun _ _ => Eq.refl _⟩

lemma untouched_scrub (h : Inv K NoHand s) {p : Nat} (hok : Event.Ok s (.scrub p)) :
    Untouched K s (Event.apply (.scrub p) s) := by
  refine ⟨rfl,rfl,rfl,rfl,rfl,fun f hf => ?_,fun f hf => ?_⟩
  · refine fill_frame _ _ ?_
    rintro rfl
    exact h.free_not_structural hok hf
  refine fill_frame _ _ ?_
  rintro rfl
  exact hf hok

lemma nextEnvid_pos {e : Nat} (he : e < NENV) (old : Word) : 0 < (nextEnvid e old).toInt := by
  have hpos : ∀ g : Word, 0 < g.toInt → 0 < (g|||BitVec.ofNat 32 e).toInt := by
    intro g hg
    have he' : e < 2^31 := lt_trans he (by decide)
    have hg31 : g.toNat < 2^31 ∧ 0 < g.toNat := by
      rw [toInt_eq_toNat_cond] at hg
      split at hg
      · omega
      have := g.isLt
      omega
    have hor : (g|||BitVec.ofNat 32 e).toNat < 2^31 := by
      rw [toNat_or,toNat_ofNat,Nat.mod_eq_of_lt (by omega)]
      exact Nat.or_lt_two_pow hg31.1 he'
    have hle : g.toNat ≤ (g|||BitVec.ofNat 32 e).toNat := by
      rw [toNat_or]
      exact Nat.left_le_or
    rw [toInt_eq_toNat_cond,if_pos (by omega)]
    omega
  unfold nextEnvid
  simp only
  split
  · exact hpos _ (by decide)
  exact hpos _ (by omega)

lemma sysExofork_positive (h : Inv K NoHand s) (hc : s.Live c)
    (hs : s.sysExofork c = some (r,s')) : (r < 0 ∧ s' = s) ∨ 0 < r := by
  obtain hneg | ⟨e,l,hl,_,hid,hp⟩ := sysExofork_spec h hc hs
  · exact .inl hneg
  right
  rw [hid,child_id hl hp]
  exact nextEnvid_pos ((h.table.free_iff e).mp (by simp [hl])).1 _

lemma syscall_untouched (h : Inv K NoHand s) (hc : s.Live c) {no a1 a2 a3 a4 a5 : Word} {x : Ext}
    (hno : no = 5 ∨ no = 6 ∨ no = 7 ∨ no = 8) (hr : r < 0)
    (hs : s.syscall c no a1 a2 a3 a4 a5 x = some (.ret r,s')) : Untouched K s s' := by
  obtain rfl | rfl | rfl | rfl := hno
  · obtain ⟨⟨r1,s1⟩,h1,hs⟩ := of_bind hs
    obtain ⟨hf,rfl⟩ := some_pair_inj hs
    obtain rfl := Kern.Flow.ret.inj hf
    obtain ⟨_,rfl | ⟨p,hok,rfl⟩⟩ | ⟨rfl,_⟩ := sysPageAlloc_spec h hc h1
    · exact .rfl
    · exact untouched_scrub h hok
    contradiction
  · obtain ⟨⟨r1,s1⟩,h1,hs⟩ := of_bind hs
    obtain ⟨hf,rfl⟩ := some_pair_inj hs
    obtain rfl := Kern.Flow.ret.inj hf
    obtain ⟨_,rfl⟩ | ⟨rfl,_⟩ := sysPageMap_spec h hc h1
    · exact .rfl
    contradiction
  · obtain ⟨⟨r1,s1⟩,h1,hs⟩ := of_bind hs
    obtain ⟨hf,rfl⟩ := some_pair_inj hs
    obtain rfl := Kern.Flow.ret.inj hf
    obtain ⟨_,rfl⟩ | ⟨rfl,_⟩ := sysPageUnmap_spec h hc h1
    · exact .rfl
    contradiction
  obtain ⟨⟨r1,s1⟩,h1,hs⟩ := of_bind hs
  obtain ⟨hf,rfl⟩ := some_pair_inj hs
  obtain rfl := Kern.Flow.ret.inj hf
  obtain ⟨_,rfl⟩ | hpos := sysExofork_positive h hc h1
  · exact .rfl
  omega

end calls

/-- A failed `sys_page_alloc`, `sys_page_map`, `sys_page_unmap` or `sys_exofork` changes neither
pages nor environments. -/
theorem failed_call_untouched {K : Finset Nat} {s s' : Kern} {c : Nat} {r : Int} (h : Reachable K s)
    (hcur : s.curenv = some c) (tf : Trapframe) {no a1 a2 a3 a4 a5 : Word} {x : Ext} (hno : no = 5 ∨
    no = 6 ∨ no = 7 ∨ no = 8) (hr : r < 0) (hs : (s.saved c tf).syscall c no a1 a2 a3 a4 a5 x =
    some (.ret r,s')) : Untouched K (s.saved c tf) s' :=
  syscall_untouched (saved_inv h.good.inv tf) (saved_current h hcur tf).2.1 hno hr hs

/-- With one frame left, `sys_page_alloc` takes it, finds none for the page table and gives it
back. -/
theorem failed_call_untouched_last :
    ∃ s s' : Kern, Reachable {0} s ∧ s.curenv = some 0 ∧ s.pageFreeList.length = 1 ∧
    (s.saved 0 (callFrame 0 5 0 0x1000000 7 0 0)).syscall 0 5 0 0x1000000 7 0 0 {} = some
    (.ret (-E_NO_MEM),s') ∧ Untouched {0} (s.saved 0 (callFrame 0 5 0 0x1000000 7 0 0)) s' := by
  have hrun : ((execAll loneRun (bootKern 5)).bind fun s =>
      ((s.saved 0 (callFrame 0 5 0 0x1000000 7 0 0)).syscall 0 5 0 0x1000000 7 0 0 {}).map fun p =>
        decide (s.curenv = some 0 ∧ s.pageFreeList.length = 1 ∧ p.1 = .ret (-E_NO_MEM))) =
      some true := by decide +kernel
  obtain ⟨s,hs,hrun⟩ := of_bind hrun
  obtain ⟨⟨f,s'⟩,hcall,hcur,hlen,hf⟩ := of_map_decide hrun
  obtain rfl : f = .ret (-E_NO_MEM) := hf
  have hreach := execAll_reachable hs
  exact ⟨s,s',hreach,hcur,hlen,hcall,
    failed_call_untouched hreach hcur _ (.inl rfl) (by decide) hcall⟩

end KludgeOS
