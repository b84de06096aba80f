import KludgeOS.Heap.Runs

/-!
A program on its own pages: `sys_page_alloc` succeeds or fails as it likes.
-/

namespace KludgeOS.Malloc
open Option Function

structure UserPages where
  pages : Nat → Option Word
  words : Word → Word
  unmapped : List Nat

namespace UserPages

def map (u : UserPages) (p : Nat) (perm : Word) : UserPages where
  pages := update u.pages p (some perm)
  words a := if PPN a = p then 0 else u.words a
  unmapped := u.unmapped

def unmap (u : UserPages) (p : Nat) : UserPages where
  pages := update u.pages p none
  words := u.words
  unmapped := p :: u.unmapped

def write (u : UserPages) (a w : Word) : UserPages := {u with words := update u.words a w}

def read (u : UserPages) (a : Word) : Option Word :=
  if u.pages (PPN a) = none then none else some (u.words a)

end UserPages

/-- The two calls on an address space. `grant` says which pages can be had. -/
def userOps : PageOps (Word → Bool) UserPages where
  vpt u n := u.pages n
  sysPageAlloc grant u va perm :=
    if UTOP ≤ va ∨ va.toNat%PGSIZE ≠ 0 then some (-E_INVAL,u)
    else if grant va then some (0,u.map (PPN va) perm)
    else some (-E_NO_MEM,u)
  sysPageUnmap u va :=
    if UTOP ≤ va ∨ va.toNat%PGSIZE ≠ 0 then some (-E_INVAL,u) else some (0,u.unmap (PPN va))
  load u a := u.read a
  store u a w := if u.pages (PPN a) = none then none else some (u.write a w)
  log u := u.unmapped

lemma good_va {va : Word} {p : Nat} (hva : va.toNat = 4096*p) (hp : InArena p) :
    ¬(UTOP ≤ va ∨ va.toNat%PGSIZE ≠ 0) := by
  rw [BitVec.le_def,hva,show UTOP.toNat = 4005560320 from rfl,PGSIZE_eq]
  omega

variable {u : UserPages}

lemma read_countAt {q : Nat} (hq : InArena q) :
    u.read (countAt q) = if u.pages q = none then none else some (u.words (countAt q)) := by
  rw [UserPages.read,PPN_countAt (by omega)]

lemma map_elsewhere (u : UserPages) (p : Nat) (perm : Word) :
    userOps.Elsewhere u (u.map p perm) (· = p) where
  vpt q _ hq := update_of_ne hq _ _
  load q hin hq := by
    change (u.map p perm).read _ = u.read _
    rw [read_countAt hin,read_countAt hin]
    simp [UserPages.map,hq,PPN_countAt (show q < 2^20 by omega)]

lemma unmap_elsewhere (u : UserPages) (p : Nat) : userOps.Elsewhere u (u.unmap p) (· = p) where
  vpt q _ hq := update_of_ne hq _ _
  load q hin hq := by
    change (u.unmap p).read _ = u.read _
    rw [read_countAt hin,read_countAt hin]
    simp [UserPages.unmap,hq]

lemma userOps_lawful : userOps.Lawful fun _ => True where
  alloc := by
    intro grant u va p cont _ hva hp hnone hcont
    obtain rfl := PPN_of_page hva
    change ∃ r u', (if UTOP ≤ va ∨ va.toNat%PGSIZE ≠ 0 then _ else _) = some (r,u') ∧ _
    rw [if_neg (good_va hva hp)]
    by_cases hg : grant va
    · rw [if_pos hg]
      refine ⟨_,_,rfl,trivial,map_elsewhere u _ _,.refl,_,update_self _ _ _,?_⟩
      obtain rfl | rfl := hcont
      · decide
      decide
    rw [if_neg hg]
    exact ⟨_,u,rfl,trivial,.refl,.refl,hnone⟩
  unmap := by
    intro u va p _ hva hp
    obtain rfl := PPN_of_page hva
    change ∃ r u', (if UTOP ≤ va ∨ va.toNat%PGSIZE ≠ 0 then _ else _) = some (r,u') ∧ _
    rw [if_neg (good_va hva hp)]
    exact ⟨_,_,rfl,trivial,unmap_elsewhere u _,⟨[PPN va],rfl,by simp⟩,update_self _ _ _⟩
  store := by
    intro u a w _ _ _ hm
    refine ⟨u.write a w,if_neg hm,trivial,fun _ _ => rfl,.refl,fun q hq => ?_⟩
    change (u.write a w).read _ = if _ then _ else u.read _
    rw [read_countAt hq,read_countAt hq]
    by_cases hqa : countAt q = a
    · have hq' : u.pages q ≠ none := by
        rw [← hqa,PPN_countAt (by omega)] at hm
        exact hm
      rw [if_pos hqa]
      simp [UserPages.write,hqa,hq']
    rw [if_neg hqa]
    simp [UserPages.write,hqa]

theorem malloc_usable {u : UserPages} (hu : ∀ q, InArena q → u.pages q = none)
    {p : Prog UserPages} (h : Runs userOps (Sensible userOps) (.start u) p) : Usable userOps p ∧
    ∀ op p', Sensible userOps p op → Step userOps p op p' → Spares userOps p p' := by
  obtain ⟨_,extra,hi,_⟩ := h.intact userOps_lawful trivial hu fun _ _ hc => hc.2
  have hn := h.sizes rfl
  refine ⟨hi.usable hn,fun op p' hc hs => ?_⟩
  have hop : ∀ n, op = .malloc n → userOps.Careful n p.heap := by
    rintro n rfl
    exact hc.2
  obtain ⟨_,hlog,_⟩ := hs.intact userOps_lawful trivial hi hop
  refine hlog.mono fun q hq b hb hb' a ha hpage => ?_
  rw [← hpage] at hq
  exact hq b hb hb' (ha.on (hn b hb))

/-- No call of a program that uses the heap sensibly gets stuck. -/
theorem heap_returns (hu : ∀ q, InArena q → u.pages q = none) {p : Prog UserPages} (h : Runs userOps
    (Sensible userOps) (.start u) p) : (∀ grant n, Sensible userOps p (.malloc n) → (userOps.malloc
    grant n p.heap).isSome) ∧ ∀ b ∈ p.live, (userOps.free b.addr p.heap.space).isSome := by
  obtain ⟨_,extra,hi,_⟩ := h.intact userOps_lawful trivial hu fun _ _ hc => hc.2
  constructor
  · intro grant n hc
    obtain ⟨v,h',hm,_⟩ := malloc_spec (ω := grant) userOps_lawful trivial hi hc.2
    simp [hm]
  intro b hb
  obtain ⟨s',hf,_⟩ := free_spec userOps_lawful trivial hi hb
  simp [hf]

def blankPages : UserPages := ⟨fun _ => none,fun _ => 0,[]⟩

theorem heap_returns_start : (userOps.malloc (fun _ => true) 8 (Prog.start blankPages).heap).isSome :=
  (heap_returns (fun _ _ => rfl) .start).1 _ _ (by decide)

theorem malloc_usable_two : ∃ p : Prog UserPages,
    p.live = [⟨0x8001388,8⟩,⟨0x8000000,5000⟩] ∧ Usable userOps p := by
  have hrun : ((Prog.start blankPages).execAll userOps (fun _ => true) (Sensible userOps)
      [.malloc 5000,.malloc 8]).map (·.live) = some [⟨0x8001388,8⟩,⟨0x8000000,5000⟩] := by
    decide +kernel
  obtain ⟨p,hp,hlive⟩ := map_eq_some_iff.mp hrun
  exact ⟨p,hlive,(malloc_usable (fun _ _ => rfl) (Runs.execAll _ .start hp)).1⟩

theorem malloc_unusable : ∃ p : Prog UserPages, Runs userOps (fun _ _ => True)
    (.start blankPages) p ∧ p.live = [⟨0x8000000,0xFFFFFFFF⟩] ∧ ¬Usable userOps p := by
  have hrun : ((Prog.start blankPages).execAll userOps (fun _ => true) (fun _ _ => True)
      [.malloc 0xFFFFFFFF]).map (·.live) = some [⟨0x8000000,0xFFFFFFFF⟩] := by decide +kernel
  obtain ⟨p,hp,hlive⟩ := map_eq_some_iff.mp hrun
  refine ⟨p,Runs.execAll _ .start hp,hlive,fun h => ?_⟩
  have := (h.inside ⟨0x8000000,0xFFFFFFFF⟩ (by simp [hlive]) mend.toNat ⟨by decide,by decide⟩).2.1
  exact absurd this (lt_irrefl _)

/-- Without a chunk that fills its pages, all pages are given back but the one that the pointer is
in the middle of. -/
theorem heap_drained {u : UserPages} (hu : ∀ q, InArena q → u.pages q = none) {p : Prog UserPages}
    (h : Runs userOps (Tidy userOps) (.start u) p) (hl : p.live = []) : ∀ q, InArena q →
    userOps.vpt p.heap.space q ≠ none → p.heap.mptr.toNat%PGSIZE ≠ 0 ∧ q = PPN p.heap.mptr := by
  obtain ⟨_,extra,hi,hheld⟩ := h.intact userOps_lawful trivial hu fun _ _ hc => hc.2
  obtain rfl := hheld fun _ _ hc => hc.1
  rw [hl] at hi
  exact fun q hq hm => hi.drained hq hm

theorem heap_drained_one : ∃ p : Prog UserPages, p.live = [] ∧ userOps.vpt p.heap.space 32768 ≠ none
    ∧ ∀ q, InArena q → userOps.vpt p.heap.space q ≠ none → q = PPN p.heap.mptr := by
  have hrun : ((Prog.start blankPages).execAll userOps (fun _ => true) (Tidy userOps)
      [.malloc 100,.free ⟨0x8000000,100⟩]).map (fun p => decide (p.live = [] ∧
        userOps.vpt p.heap.space 32768 ≠ none)) = some true := by decide +kernel
  obtain ⟨p,hp,h0,h1⟩ := of_map_decide hrun
  exact ⟨p,h0,h1,fun q hq hm =>
    (heap_drained (fun _ _ => rfl) (Runs.execAll _ .start hp) h0 q hq hm).2⟩

theorem heap_leaks : ∃ p : Prog UserPages,
    Runs userOps (fun _ _ => True) (.start blankPages) p ∧ p.live = [] ∧
    userOps.vpt p.heap.space 32769 ≠ none ∧ userOps.vpt p.heap.space 32771 ≠ none := by
  have hrun : ((Prog.start blankPages).execAll userOps (fun _ => true) (fun _ _ => True)
      [.malloc 4096,.malloc 4096,.free ⟨0x8000000,4096⟩,.free ⟨0x8002000,4096⟩]).map
        (fun p => decide (p.live = [] ∧ userOps.vpt p.heap.space 32769 ≠ none ∧
          userOps.vpt p.heap.space 32771 ≠ none)) = some true := by decide +kernel
  obtain ⟨p,hp,hlive⟩ := map_eq_some_iff.mp hrun
  exact ⟨p,Runs.execAll _ .start hp,of_decide_eq_true hlive⟩

end KludgeOS.Malloc
