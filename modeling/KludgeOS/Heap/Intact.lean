import KludgeOS.Heap.Malloc

/-!
What `malloc` and `free` keep about the heap, over any system calls that obey a few laws: the
blocks that are handed out lie in pages of their own or share a page and its reference count.
-/

namespace KludgeOS.Malloc
open BitVec (ofNat toNat_ofNat)
open BitVec Function

structure Block where
  addr : Word
  n : Word
  deriving DecidableEq

namespace Block

def size (b : Block) : Nat := (ROUNDUP b.n 4).toNat

def stop (b : Block) : Nat := b.addr.toNat+b.size

def head (b : Block) : Nat := PPN b.addr

def tail (b : Block) : Nat := b.stop/4096

def On (b : Block) (p : Nat) : Prop := b.head ≤ p ∧ p ≤ b.tail

def Has (b : Block) (a : Nat) : Prop := b.addr.toNat ≤ a ∧ a < b.addr.toNat+b.n.toNat

def Disjoint (b c : Block) : Prop := b.stop ≤ c.addr.toNat ∨ c.stop ≤ b.addr.toNat

end Block

variable {Ω σ : Type}

namespace PageOps

variable (M : PageOps Ω σ)

def Continued (s : σ) (p : Nat) : Prop := ∃ w, M.vpt s p = some w ∧ w&&&PTE_CONTINUED ≠ 0

def Counted (s : σ) (p : Nat) : Prop := ∃ w, M.vpt s p = some w ∧ w&&&PTE_CONTINUED = 0

/-- Outside the pages in `P` the heap is the same. -/
structure Elsewhere (s s' : σ) (P : Nat → Prop) : Prop where
  vpt : ∀ q, InArena q → ¬P q → M.vpt s' q = M.vpt s q
  load : ∀ q, InArena q → ¬P q → M.load s' (countAt q) = M.load s (countAt q)

def Logs (s s' : σ) (P : Nat → Prop) : Prop := ∃ l, M.log s' = l ++ M.log s ∧ ∀ q ∈ l, P q

/-- What the library relies on, in the states with `W`. -/
structure Lawful (W : σ → Prop) : Prop where
  alloc : ∀ {ω s va p cont}, W s → va.toNat = 4096*p → InArena p → M.vpt s p = none →
    (cont = 0 ∨ cont = PTE_CONTINUED) →
    ∃ r s', M.sysPageAlloc ω s va (PTE_P|||PTE_U|||PTE_W|||cont) = some (r,s') ∧ W s' ∧
      M.Elsewhere s s' (· = p) ∧ M.Logs s s' (fun _ => False) ∧
      if r < 0 then M.vpt s' p = none
      else ∃ w, M.vpt s' p = some w ∧ w&&&PTE_CONTINUED = cont
  unmap : ∀ {s va p}, W s → va.toNat = 4096*p → InArena p →
    ∃ r s', M.sysPageUnmap s va = some (r,s') ∧ W s' ∧ M.Elsewhere s s' (· = p) ∧
      M.Logs s s' (· = p) ∧ M.vpt s' p = none
  store : ∀ {s a} (w : Word), W s → InArena (PPN a) → a.toNat%4 = 0 → M.vpt s (PPN a) ≠ none →
    ∃ s', M.store s a w = some s' ∧ W s' ∧ (∀ q, InArena q → M.vpt s' q = M.vpt s q) ∧
      M.Logs s s' (fun _ => False) ∧
      ∀ q, InArena q → M.load s' (countAt q) = if countAt q = a then some w else M.load s (countAt q)

end PageOps

/-- The references to page `p`: the blocks it counts, and others. -/
def refs (live : List Block) (extra : Nat → Nat) (p : Nat) : Nat :=
  live.countP (fun b => b.tail = p)+extra p

def held (m : Word) (p : Nat) : Nat := if m.toNat%4096 ≠ 0 ∧ p = PPN m then 1 else 0

structure Block.Placed (b : Block) (M : PageOps Ω σ) (s : σ) : Prop where
  lo : mbegin.toNat ≤ b.addr.toNat
  hi : b.stop < mend.toNat
  word : b.addr.toNat%4 = 0
  start : b.head < b.tail → b.addr.toNat%4096 = 0
  cont : ∀ p, b.head ≤ p → p < b.tail → M.Continued s p
  last : M.Counted s b.tail

structure Intact (M : PageOps Ω σ) (s : σ) (m : Word) (live : List Block) (extra : Nat → Nat) :
    Prop where
  placed : ∀ b ∈ live, b.Placed M s
  disjoint : live.Pairwise Block.Disjoint
  counted : ∀ p, InArena p → M.Counted s p → 0 < refs live extra p ∧ refs live extra p ≤ 2^32 ∧
    M.load s (countAt p) = some (ofNat 32 (refs live extra p))
  owned : ∀ p, InArena p → M.Continued s p → ∃ b ∈ live, b.head ≤ p ∧ p < b.tail
  stray : ∀ p, extra p ≠ 0 → InArena p ∧ M.Counted s p
  ptr : m = 0 ∨ mbegin.toNat ≤ m.toNat ∧ m.toNat < mend.toNat ∧ m.toNat%4 = 0
  middle : m.toNat%4096 ≠ 0 → extra (PPN m) ≠ 0 ∧ ∀ b ∈ live, b.tail = PPN m → b.stop ≤ m.toNat

section pages

variable {M : PageOps Ω σ} {s s' s'' : σ} {P Q : Nat → Prop}

lemma PageOps.Elsewhere.refl : M.Elsewhere s s P := ⟨fun _ _ _ => rfl,fun _ _ _ => rfl⟩

lemma PageOps.Elsewhere.trans (h : M.Elsewhere s s' P) (h' : M.Elsewhere s' s'' Q) :
    M.Elsewhere s s'' (fun q => P q ∨ Q q) where
  vpt q hq hn := (h'.vpt q hq fun hc => hn (.inr hc)).trans (h.vpt q hq fun hc => hn (.inl hc))
  load q hq hn := (h'.load q hq fun hc => hn (.inr hc)).trans (h.load q hq fun hc => hn (.inl hc))

lemma PageOps.Elsewhere.mono (h : M.Elsewhere s s' P) (hPQ : ∀ q, InArena q → P q → Q q) :
    M.Elsewhere s s' Q where
  vpt q hq hn := h.vpt q hq fun hc => hn (hPQ q hq hc)
  load q hq hn := h.load q hq fun hc => hn (hPQ q hq hc)

lemma PageOps.Logs.refl : M.Logs s s P := ⟨[],rfl,by simp⟩

lemma PageOps.Logs.trans (h : M.Logs s s' P) (h' : M.Logs s' s'' Q) :
    M.Logs s s'' (fun q => P q ∨ Q q) := by
  obtain ⟨l,hl,hP⟩ := h
  obtain ⟨l',hl',hQ⟩ := h'
  refine ⟨l' ++ l,by rw [hl',hl,List.append_assoc],fun q hq => ?_⟩
  obtain hq | hq := List.mem_append.mp hq
  · exact .inr (hQ q hq)
  exact .inl (hP q hq)

lemma PageOps.Logs.mono (h : M.Logs s s' P) (hPQ : ∀ q, P q → Q q) : M.Logs s s' Q := by
  obtain ⟨l,hl,hP⟩ := h
  exact ⟨l,hl,fun q hq => hPQ q (hP q hq)⟩

lemma PageOps.Logs.after (h' : M.Logs s' s'' Q) (h : M.Logs s s' (fun _ => False)) :
    M.Logs s s'' Q := (h.trans h').mono fun _ hq => hq.resolve_left id

lemma PageOps.Counted.congr {p : Nat} (h : M.Counted s p) (he : M.vpt s' p = M.vpt s p) :
    M.Counted s' p := by
  obtain ⟨w,hw,hc⟩ := h
  exact ⟨w,he.trans hw,hc⟩

lemma PageOps.Continued.congr {p : Nat} (h : M.Continued s p) (he : M.vpt s' p = M.vpt s p) :
    M.Continued s' p := by
  obtain ⟨w,hw,hc⟩ := h
  exact ⟨w,he.trans hw,hc⟩

lemma PageOps.Counted.not_continued {p : Nat} (h : M.Counted s p) : ¬M.Continued s p := by
  rintro ⟨w,hw,hc⟩
  obtain ⟨w',hw',hc'⟩ := h
  rw [hw] at hw'
  cases hw'
  exact hc hc'

lemma PageOps.Counted.mapped {p : Nat} (h : M.Counted s p) : M.vpt s p ≠ none := by
  obtain ⟨w,hw,_⟩ := h
  simp [hw]

lemma PageOps.Continued.mapped {p : Nat} (h : M.Continued s p) : M.vpt s p ≠ none := by
  obtain ⟨w,hw,_⟩ := h
  simp [hw]

end pages

section blocks

variable {M : PageOps Ω σ} {s s' : σ} {b c : Block}

lemma Block.size_mod (b : Block) : b.size%4 = 0 := ROUNDUP_four_mod b.n

lemma Block.head_le (b : Block) : b.head ≤ b.tail := by
  simp only [Block.head,Block.tail,Block.stop,PPN_eq]
  omega

lemma mbegin_toNat : mbegin.toNat = 134217728 := rfl
lemma mend_toNat : mend.toNat = 268435456 := rfl

lemma Block.Placed.inArena (h : b.Placed M s) {p : Nat} (hp : b.On p) : InArena p := by
  have h1 := h.lo
  have h2 := h.hi
  obtain ⟨h3,h4⟩ := hp
  rw [mbegin_toNat] at h1
  rw [mend_toNat] at h2
  simp only [Block.head,Block.tail,PPN_eq] at h3 h4
  omega

lemma Block.Placed.congr (h : b.Placed M s) (he : ∀ p, b.On p → M.vpt s' p = M.vpt s p) :
    b.Placed M s' where
  lo := h.lo
  hi := h.hi
  word := h.word
  start := h.start
  cont p h1 h2 := (h.cont p h1 h2).congr (he p ⟨h1,le_of_lt h2⟩)
  last := h.last.congr (he _ ⟨b.head_le,le_rfl⟩)

lemma Block.Placed.sole (hb : b.Placed M s) (hc : c.Placed M s) (h : b.Disjoint c) {p : Nat}
    (h1 : b.head ≤ p) (h2 : p < b.tail) (h3 : c.head ≤ p) (h4 : p < c.tail) : False := by
  have hb0 := hb.start (by omega)
  have hc0 := hc.start (by omega)
  simp only [Block.Disjoint,Block.head,Block.tail,PPN_eq] at h h1 h2 h3 h4
  omega

lemma Block.Placed.mapped (h : b.Placed M s) {p : Nat} (hp : b.On p) : M.vpt s p ≠ none := by
  by_cases hlt : p < b.tail
  · exact (h.cont p hp.1 hlt).mapped
  obtain rfl : p = b.tail := by have := hp.2; omega
  exact h.last.mapped

end blocks

section references

variable {live : List Block} {extra : Nat → Nat} {b : Block}

lemma refs_erase (hb : b ∈ live) (p : Nat) :
    refs (live.erase b) (update extra b.tail (extra b.tail+1)) p = refs live extra p := by
  have hperm := (List.perm_cons_erase hb).countP_eq fun b => decide (b.tail = p)
  simp only [refs]
  rw [hperm]
  by_cases hp : b.tail = p
  · subst hp
    simp
    omega
  simp [hp,update_of_ne (Ne.symm hp)]

lemma refs_pos (hb : b ∈ live) (extra : Nat → Nat) : extra b.tail < refs live extra b.tail := by
  have : 0 < live.countP fun c => decide (c.tail = b.tail) :=
    List.countP_pos_iff.mpr ⟨b,hb,by simp⟩
  simp only [refs]
  omega

lemma refs_update (p q x : Nat) :
    refs live (update extra p x) q = if q = p then refs live extra p-extra p+x
      else refs live extra q := by
  by_cases h : q = p
  · subst h
    simp [refs]
  simp [refs,h]

end references

section intact

variable {M : PageOps Ω σ} {W : σ → Prop} {s s' : σ} {m c : Word} {live : List Block}
  {extra : Nat → Nat} {p : Nat} {m' : Word}

lemma Intact.aligned (h : Intact M s m live extra) (hm : m'.toNat = 4096*p) (hp : InArena p) :
    Intact M s m' live extra where
  placed := h.placed
  disjoint := h.disjoint
  counted := h.counted
  owned := h.owned
  stray := h.stray
  ptr := by
    right
    rw [mbegin_toNat,mend_toNat]
    omega
  middle hc := absurd (by omega) hc

lemma dropRef_spec (law : M.Lawful W) (hW : W s) {R : Nat} (hc : c.toNat = 4096*p)
    (hp : InArena p) (hm : M.vpt s p ≠ none) (h0 : 0 < R) (h1 : R ≤ 2^32)
    (hR : M.load s (countAt p) = some (ofNat 32 R)) :
    ∃ s', M.dropRef c s = some s' ∧ W s' ∧ M.Elsewhere s s' (· = p) ∧
      M.Logs s s' (fun q => q = p ∧ R = 1) ∧
      if R = 1 then M.vpt s' p = none
      else M.vpt s' p = M.vpt s p ∧ M.load s' (countAt p) = some (ofNat 32 (R-1)) := by
  have hpage : PPN (countAt p) = p := PPN_countAt (by omega)
  have hword : (countAt p).toNat%4 = 0 := by
    rw [countAt_toNat (by omega)]
    omega
  have hinj : ∀ q, InArena q → countAt q = countAt p → q = p := by
    intro q hq he
    rw [← PPN_countAt (p := q) (by omega),he,hpage]
  obtain ⟨s1,hs1,hW1,hv1,hl1,hld1⟩ := law.store (a := countAt p) (ofNat 32 R-1) hW
    (by rw [hpage]; exact hp) hword (by rw [hpage]; exact hm)
  have helse : M.Elsewhere s s1 (· = p) :=
    ⟨fun q hq _ => hv1 q hq,fun q hq hne => by rw [hld1 q hq,if_neg fun h => hne (hinj q hq h)]⟩
  have hminus : ofNat 32 R-1 = ofNat 32 (R-1) := by
    apply eq_of_toNat_eq
    rw [toNat_sub,toNat_ofNat,toNat_ofNat,show (1 : Word).toNat = 1 from rfl]
    omega
  have hzero : ofNat 32 R-1 = 0 ↔ R = 1 := by
    rw [hminus,← toNat_inj,toNat_ofNat,show (0 : Word).toNat = 0 from rfl]
    omega
  simp only [PageOps.dropRef,countAt_of_page hc,hR,hs1,bind,Option.bind]
  by_cases hone : R = 1
  · obtain ⟨r,s2,hs2,hW2,he2,hl2,hv2⟩ := law.unmap hW1 hc hp
    rw [if_pos (hzero.mpr hone)]
    simp only [hs2,pure]
    refine ⟨s2,rfl,hW2,(helse.trans he2).mono (by simp),(hl2.after hl1).mono (by simp [hone]),?_⟩
    rw [if_pos hone]
    exact hv2
  rw [if_neg (mt hzero.mp hone)]
  refine ⟨s1,rfl,hW1,helse,hl1.mono (by simp),?_⟩
  rw [if_neg hone]
  exact ⟨hv1 p hp,by rw [hld1 p hp,if_pos rfl,hminus]⟩

lemma Intact.drop (law : M.Lawful W) (hW : W s) (h : Intact M s m live extra)
    (hc : c.toNat = 4096*p) (he : extra p ≠ 0) (hmid : m.toNat%4096 ≠ 0 → PPN m = p → 2 ≤ extra p)
    : ∃ s', M.dropRef c s = some s' ∧ W s' ∧ M.Elsewhere s s' (· = p) ∧
    M.Logs s s' (fun q => M.vpt s' q = none) ∧ Intact M s' m live (update extra p (extra p-1)) := by
  obtain ⟨hp,hcnt⟩ := h.stray p he
  obtain ⟨h0,h1,hR⟩ := h.counted p hp hcnt
  obtain ⟨s1,hs1,hW1,helse,hlog,hpage⟩ := dropRef_spec law hW hc hp hcnt.mapped h0 h1 hR
  have hle : extra p ≤ refs live extra p := by simp [refs]
  -- What keeps the page: a second reference.
  have hkept : refs live extra p ≠ 1 → M.vpt s1 p = M.vpt s p ∧
      M.load s1 (countAt p) = some (ofNat 32 (refs live extra p-1)) := by
    intro hone
    rwa [if_neg hone] at hpage
  have hgone : refs live extra p = 1 → M.vpt s1 p = none := by
    intro hone
    rwa [if_pos hone] at hpage
  refine ⟨s1,hs1,hW1,helse,hlog.mono ?_,?_⟩
  · rintro q ⟨rfl,hone⟩
    exact hgone hone
  refine ⟨fun b hb => (h.placed b hb).congr fun q hq => ?_,h.disjoint,fun q hq hqc => ?_,
    fun q hq hqc => ?_,fun q hq => ?_,h.ptr,fun hm => ?_⟩
  · have hb' := h.placed b hb
    by_cases hqp : q = p
    · subst hqp
      have htail : b.tail = q := by
        by_contra hne
        have := hq.2
        exact hcnt.not_continued (hb'.cont q hq.1 (by omega))
      have := refs_pos hb extra
      rw [htail] at this
      exact (hkept (by omega)).1
    exact helse.vpt q (hb'.inArena hq) hqp
  · rw [refs_update]
    by_cases hqp : q = p
    · subst hqp
      have hne : refs live extra q ≠ 1 := fun hone => hqc.mapped (hgone hone)
      rw [if_pos rfl]
      have heq : refs live extra q-extra q+(extra q-1) = refs live extra q-1 := by omega
      rw [heq]
      exact ⟨by omega,by omega,(hkept hne).2⟩
    rw [if_neg hqp,helse.load q hq hqp]
    exact h.counted q hq (hqc.congr (helse.vpt q hq hqp).symm)
  · by_cases hqp : q = p
    · subst hqp
      by_cases hone : refs live extra q = 1
      · exact absurd (hgone hone) hqc.mapped
      exact absurd (hqc.congr (hkept hone).1.symm) hcnt.not_continued
    exact h.owned q hq (hqc.congr (helse.vpt q hq hqp).symm)
  · by_cases hqp : q = p
    · subst hqp
      rw [update_self] at hq
      exact ⟨hp,hcnt.congr (hkept (by omega)).1⟩
    rw [update_of_ne hqp] at hq
    obtain ⟨hq1,hq2⟩ := h.stray q hq
    exact ⟨hq1,hq2.congr (helse.vpt q hq1 hqp)⟩
  refine ⟨?_,(h.middle hm).2⟩
  by_cases hmp : PPN m = p
  · have := hmid hm hmp
    rw [hmp,update_self]
    omega
  rw [update_of_ne hmp]
  exact (h.middle hm).1

lemma Intact.release {b : Block} (h : Intact M s m live extra) (hb : b ∈ live)
    (he : M.Elsewhere s s' (fun q => b.head ≤ q ∧ q < b.tail)) (hn : ∀ q, b.head ≤ q → q < b.tail →
    M.vpt s' q = none) : Intact M s' m (live.erase b) (update extra b.tail (extra b.tail+1)) := by
  have hbp := h.placed b hb
  have hcov : ∀ q, M.vpt s' q ≠ none → ¬(b.head ≤ q ∧ q < b.tail) := fun q hq hc =>
    hq (hn q hc.1 hc.2)
  have hout : ∀ q, M.Counted s q → ¬(b.head ≤ q ∧ q < b.tail) := fun q hq hc =>
    hq.not_continued (hbp.cont q hc.1 hc.2)
  have hlive : ∀ c ∈ live.erase b, c ∈ live := fun c hc => List.mem_of_mem_erase hc
  have hdisj : ∀ c ∈ live.erase b, b.Disjoint c := by
    have hpair := ((List.perm_cons_erase hb).pairwise_iff fun hxy => Or.symm hxy).mp h.disjoint
    exact (List.pairwise_cons.mp hpair).1
  refine ⟨fun c hc => (h.placed c (hlive c hc)).congr fun q hq => ?_,
    h.disjoint.sublist List.erase_sublist,fun q hq hqc => ?_,fun q hq hqc => ?_,fun q hq => ?_,
    h.ptr,fun hm => ⟨?_,fun c hc => (h.middle hm).2 c (hlive c hc)⟩⟩
  · have hcp := h.placed c (hlive c hc)
    refine he.vpt q (hcp.inArena hq) fun hin => ?_
    by_cases hlt : q < c.tail
    · exact hbp.sole hcp (hdisj c hc) hin.1 hin.2 hq.1 hlt
    obtain rfl : q = c.tail := Nat.le_antisymm hq.2 (Nat.le_of_not_lt hlt)
    exact hout _ hcp.last hin
  · have hno := hcov q hqc.mapped
    rw [refs_erase hb,he.load q hq hno]
    exact h.counted q hq (hqc.congr (he.vpt q hq hno).symm)
  · have hno := hcov q hqc.mapped
    obtain ⟨c,hc,hin⟩ := h.owned q hq (hqc.congr (he.vpt q hq hno).symm)
    refine ⟨c,(List.mem_erase_of_ne ?_).mpr hc,hin⟩
    rintro rfl
    exact hno hin
  · by_cases hqb : q = b.tail
    · subst hqb
      have hin := hbp.inArena ⟨b.head_le,le_rfl⟩
      exact ⟨hin,hbp.last.congr (he.vpt _ hin fun hc => lt_irrefl _ hc.2)⟩
    rw [update_of_ne hqb] at hq
    obtain ⟨hin,hqc⟩ := h.stray q hq
    exact ⟨hin,hqc.congr (he.vpt q hin (hout q hqc))⟩
  have := (h.middle hm).1
  by_cases hmb : PPN m = b.tail
  · simp [hmb]
  rwa [update_of_ne hmb]

lemma freeLoop_counted {k : Nat} (hk : 0 < k) (h : M.Counted s (PPN c)) :
    M.freeLoop k c s = some (c,s) := by
  obtain ⟨w,hw,hc⟩ := h
  have hstop : ¬(M.vpt s (PPN c)).getD 0&&&PTE_CONTINUED ≠ 0 := by simp [hw,hc]
  cases k with
  | zero => omega
  | succ k => rw [PageOps.freeLoop,if_neg hstop]

lemma PPN_of_page (hc : c.toNat = 4096*p) : PPN c = p := by
  rw [PPN_eq]
  omega

lemma freeLoop_spec (law : M.Lawful W) {t : Nat} (ht : t < 65536) (d : Nat)
    : ∀ {k p : Nat} {c : Word} {s : σ}, p+d = t → 32768 ≤ p → d < k → W s → c.toNat = 4096*p →
    (∀ q, p ≤ q → q < t → M.Continued s q) → M.Counted s t → ∃ c' s', M.freeLoop k c s =
    some (c',s') ∧ c'.toNat = 4096*t ∧ W s' ∧ M.Elsewhere s s' (fun q => p ≤ q ∧ q < t) ∧
    M.Logs s s' (fun q => p ≤ q ∧ q < t) ∧ ∀ q, p ≤ q → q < t → M.vpt s' q = none := by
  induction d with
  | zero =>
    intro k p c s hpt hp hk hW hc _ hcnt
    obtain rfl : p = t := hpt
    refine ⟨c,s,freeLoop_counted hk (by rw [PPN_of_page hc]; exact hcnt),hc,hW,.refl,
      .refl,fun q h1 h2 => absurd h2 (by omega)⟩
  | succ d ih =>
    intro k p c s hpt hp hk hW hc hcont hcnt
    obtain ⟨k,rfl⟩ : ∃ j, k = j+1 := ⟨k-1,by omega⟩
    have hin : InArena p := ⟨hp,by omega⟩
    obtain ⟨w,hw,hwc⟩ := hcont p le_rfl (by omega)
    have hgo : (M.vpt s (PPN c)).getD 0&&&PTE_CONTINUED ≠ 0 := by
      rw [PPN_of_page hc,hw]
      exact hwc
    obtain ⟨r,s1,hs1,hW1,he1,hl1,hv1⟩ := law.unmap hW hc hin
    have hkeep : ∀ q, InArena q → q ≠ p → M.vpt s1 q = M.vpt s q := fun q hq hne => he1.vpt q hq hne
    have hnext : (c+ofNat 32 PGSIZE).toNat = 4096*(p+1) := by
      rw [step_toNat (by omega)]
      omega
    obtain ⟨c',s',hs',hc',hW',he',hl',hv'⟩ := ih (k := k) (p := p+1) (by omega) (by omega) (by omega)
      hW1 hnext
      (fun q h1 h2 => (hcont q (by omega) h2).congr (hkeep q (by omega) (by omega)))
      (hcnt.congr (hkeep t (by omega) (by omega)))
    refine ⟨c',s',?_,hc',hW',(he1.trans he').mono fun q _ => by omega,
      (hl1.trans hl').mono fun q => by omega,fun q h1 h2 => ?_⟩
    · rw [PageOps.freeLoop,if_pos hgo]
      simp only [hs1,bind,Option.bind]
      exact hs'
    by_cases hq : q = p
    · subst hq
      rw [he'.vpt q hin (by omega)]
      exact hv1
    exact hv' q (by omega) h2

lemma free_eq {v : Word} (hv : InArena (PPN v)) : M.free v s =
    (M.freeLoop (65536-PPN v) (ROUNDDOWN v PGSIZE) s).bind fun x => M.dropRef x.1 x.2 := by
  have hc := PPN_ROUNDDOWN v
  have hv' := hv
  rw [PPN_eq] at hv'
  have hne : v ≠ 0 := by
    rintro rfl
    exact absurd hv'.1 (by decide)
  have hrange : mbegin ≤ v ∧ v < mend := by
    rw [le_def,lt_def,mbegin_toNat,mend_toNat]
    omega
  have hk : (mend-ROUNDDOWN v PGSIZE).toNat/PGSIZE = 65536-PPN v := by
    rw [toNat_sub,hc,mend_toNat,PGSIZE_eq]
    omega
  rw [PageOps.free,if_neg hne,if_pos hrange,← hk]
  rfl

lemma free_spec {b : Block} (law : M.Lawful W) (hW : W s) (h : Intact M s m live extra)
    (hb : b ∈ live) : ∃ s', M.free b.addr s = some s' ∧ W s' ∧ Intact M s' m (live.erase b) extra ∧
    M.Logs s s' (fun q => M.vpt s' q = none) := by
  have hbp := h.placed b hb
  have hht := b.head_le
  have hin := hbp.inArena ⟨hht,le_rfl⟩
  have hin' := hbp.inArena ⟨le_rfl,hht⟩
  obtain ⟨c',s1,hs1,hc1,hW1,he1,hl1,hv1⟩ := freeLoop_spec law hin.2 (b.tail-b.head)
    (k := 65536-b.head) (by omega) hin'.1 (by omega) hW (PPN_ROUNDDOWN b.addr) hbp.cont hbp.last
  have hrel := h.release hb he1 hv1
  obtain ⟨s2,hs2,hW2,he2,hl2,hinv⟩ := hrel.drop law hW1 hc1 (by simp) fun hm hmp => by
    have := (h.middle hm).1
    rw [hmp] at this
    rw [update_self]
    omega
  refine ⟨s2,?_,hW2,?_,(hl1.trans hl2).mono fun q hq => ?_⟩
  · rw [free_eq hin']
    change (M.freeLoop (65536-b.head) _ s).bind _ = _
    rw [hs1]
    exact hs2
  · rwa [update_idem,update_self,Nat.add_sub_cancel,update_eq_self] at hinv
  obtain hq | hq := hq
  · rw [he2.vpt q ⟨by omega,by omega⟩ (by omega)]
    exact hv1 q hq.1 hq.2
  exact hq

lemma Intact.leave (law : M.Lawful W) (hW : W s) (h : Intact M s m live extra)
    (hm : m.toNat%4096 ≠ 0) (hm' : m'.toNat = 4096*p) (hp : InArena p) :
    ∃ s', M.free m s = some s' ∧ W s' ∧ M.Logs s s' (fun q => M.vpt s' q = none) ∧
      Intact M s' m' live (update extra (PPN m) (extra (PPN m)-1)) := by
  obtain ⟨hne,_⟩ := h.middle hm
  obtain ⟨hin,hcnt⟩ := h.stray _ hne
  obtain ⟨s1,hs1,hW1,_,hl1,hinv⟩ := (h.aligned hm' hp).drop law hW (PPN_ROUNDDOWN m) hne
    fun hc => absurd (by omega) hc
  refine ⟨s1,?_,hW1,hl1,hinv⟩
  rw [free_eq hin,freeLoop_counted (by omega) (by rwa [PPN_of_page (PPN_ROUNDDOWN m)])]
  exact hs1

end intact

end KludgeOS.Malloc
