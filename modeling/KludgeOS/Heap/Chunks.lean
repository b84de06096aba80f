import KludgeOS.Heap.Intact

/-!
`malloc` over lawful system calls: the search for address space, the pages of a chunk, and what
is left of the heap's order.
-/

namespace KludgeOS.Malloc
open BitVec (ofNat toNat_add)
open PageOps (npages Fits)
open BitVec Function PageOps Block

variable {Ω σ : Type}

section search

variable {M : PageOps Ω σ} {s : σ} {n : Word}

lemma isfreeLoop_pages {endVa : Word} (k : Nat) :
    ∀ {va : Word} {p : Nat}, va.toNat = 4096*p → p+k < 2^20 → (∀ j < k, 4096*(p+j) < endVa.toNat) →
    M.isfreeLoop s endVa k va → ∀ j < k, p+j < 65536 ∧ M.vpt s (p+j) = none := by
  induction k with
  | zero => exact fun _ _ _ _ j hj => absurd hj (by omega)
  | succ k ih =>
    intro va p hva hk hend hfree j hj
    have hlt : va < endVa := by
      rw [lt_def,hva]
      exact hend 0 (by omega)
    rw [isfreeLoop,if_pos hlt] at hfree
    split at hfree
    · cases hfree
    rename_i hno
    rw [PPN_of_page hva,le_def,mend_toNat,hva] at hno
    have hnone : M.vpt s p = none := by
      cases hv : M.vpt s p with
      | none => rfl
      | some w => exact absurd (.inr (by simp [hv])) hno
    have hnext : (va+ofNat 32 PGSIZE).toNat = 4096*(p+1) := by
      rw [step_toNat (by omega)]
      omega
    cases j with
    | zero => exact ⟨by omega,hnone⟩
    | succ j =>
      rw [show p+(j+1) = p+1+j by omega]
      refine ih hnext (by omega) (fun i hi => ?_) hfree j (by omega)
      have := hend (i+1) (by omega)
      omega

lemma npages_eq (hn : n.toNat < 2^20) : npages n = (n.toNat+4099)/4096 := by
  rw [npages,toNat_add,show (4 : Word).toNat = 4 from rfl]
  omega

lemma isfree_pages {m : Word} {p : Nat} (hm : m.toNat = 4096*p) (hp : p < 65536)
    (hn : n.toNat < 2^20) (h : M.isfree s m (n+4)) :
    p+npages n ≤ 65536 ∧ ∀ q, p ≤ q → q < p+npages n → M.vpt s q = none := by
  have hplus : (n+4).toNat = n.toNat+4 := by
    rw [toNat_add,show (4 : Word).toNat = 4 from rfl]
    omega
  have hend : (m+(n+4)).toNat = 4096*p+n.toNat+4 := by
    rw [toNat_add,hplus,hm]
    omega
  have hk := npages_eq hn
  have hpages := isfreeLoop_pages _ hm (by omega) (fun j hj => by rw [hend]; omega) h
  refine ⟨?_,fun q h1 h2 => ?_⟩
  · have := (hpages (npages n-1) (by omega)).1
    omega
  rw [show q = p+(q-p) by omega]
  exact (hpages (q-p) (by omega)).2

lemma scan_spec (k : Nat) : ∀ {m : Word} {p nwrap : Nat}, m.toNat = 4096*p →
    InArena p → nwrap ≤ 1 → 65536-p+(1-nwrap)*32768 ≤ k → ∃ found m' p', M.scan s n k m nwrap =
    some (found,m') ∧ m'.toNat = 4096*p' ∧ InArena p' ∧ (found → M.isfree s m' (n+4)) := by
  induction k with
  | zero =>
    intro m p nwrap _ hp _ hk
    omega
  | succ k ih =>
    intro m p nwrap hm hp hw hk
    rw [scan]
    by_cases hfree : M.isfree s m (n+4)
    · rw [if_pos hfree]
      exact ⟨true,m,p,rfl,hm,hp,fun _ => hfree⟩
    rw [if_neg hfree]
    have hnext : (m+ofNat 32 PGSIZE).toNat = 4096*(p+1) := by
      rw [step_toNat (by omega)]
      omega
    have hend : m+ofNat 32 PGSIZE = mend ↔ p+1 = 65536 := by
      rw [← toNat_inj,hnext,mend_toNat]
      omega
    by_cases hlast : p+1 = 65536
    · simp only [if_pos (hend.mpr hlast)]
      by_cases hone : nwrap+1 = 2
      · rw [if_pos hone]
        exact ⟨false,mbegin,32768,rfl,rfl,by decide,fun hc => absurd hc (by decide)⟩
      rw [if_neg hone]
      exact ih (p := 32768) mbegin_toNat (by decide) (by omega) (by omega)
    simp only [if_neg (mt hend.mp hlast)]
    exact ih hnext (by omega) hw (by omega)

end search

section chunks

variable {M : PageOps Ω σ} {W : σ → Prop} {s s' : σ} {m n : Word} {live : List Block}
  {extra : Nat → Nat} {p : Nat} {ω : Ω}

/-- Page `q` of a chunk that ends before page `k`. -/
def PageOps.ChunkPage (M : PageOps Ω σ) (s : σ) (k q : Nat) : Prop :=
  if q+1 < k then M.Continued s q else M.Counted s q

lemma PageOps.ChunkPage.congr {k q : Nat} (h : M.ChunkPage s k q)
    (he : M.vpt s' q = M.vpt s q) : M.ChunkPage s' k q := by
  unfold ChunkPage at *
  split
  · rename_i hq
    rw [if_pos hq] at h
    exact h.congr he
  rename_i hq
  rw [if_neg hq] at h
  exact h.congr he

lemma undo_spec (law : M.Lawful W) (hm : m.toNat = 4096*p) (hp : 32768 ≤ p) (i : Nat) : ∀ {s : σ},
    W s → p+i < 65536 → ∃ s', M.undo m i s = some s' ∧ W s' ∧ M.Elsewhere s s' (fun q => p ≤ q ∧ q
    ≤ p+i) ∧ M.Logs s s' (fun q => p ≤ q ∧ q ≤ p+i) ∧ ∀ q, p ≤ q → q ≤ p+i → M.vpt s' q = none := by
  induction i with
  | zero =>
    intro s hW hi
    obtain ⟨r,s1,hs1,hW1,he1,hl1,hv1⟩ := law.unmap hW hm ⟨hp,hi⟩
    refine ⟨s1,?_,hW1,he1.mono fun q _ => by omega,hl1.mono fun q => by omega,fun q h1 h2 => ?_⟩
    · simp only [undo,hs1,bind,Option.bind,pure]
    rw [show q = p by omega]
    exact hv1
  | succ i ih =>
    intro s hW hi
    have hva : (m+ofNat 32 (PGSIZE*(i+1))).toNat = 4096*(p+(i+1)) := by
      rw [page_toNat (by omega)]
      omega
    have hin : InArena (p+(i+1)) := ⟨by omega,hi⟩
    obtain ⟨r,s1,hs1,hW1,he1,hl1,hv1⟩ := law.unmap hW hva hin
    obtain ⟨s2,hs2,hW2,he2,hl2,hv2⟩ := ih hW1 (by omega)
    refine ⟨s2,?_,hW2,(he1.trans he2).mono fun q _ => by omega,(hl1.trans hl2).mono fun q => by omega,
      fun q h1 h2 => ?_⟩
    · simp only [undo,hs1,bind,Option.bind]
      exact hs2
    by_cases hq : q = p+(i+1)
    · subst hq
      rw [he2.vpt _ hin (by omega)]
      exact hv1
    exact hv2 q h1 (by omega)

lemma allocLoop_spec (law : M.Lawful W) (hm : m.toNat = 4096*p) (hp : 32768 ≤ p)
    (hn : n.toNat < 2^20) (hend : p+npages n ≤ 65536) (k : Nat) :
    ∀ {i : Nat} {s : σ}, i+k = npages n → W s → (∀ q, p+i ≤ q → q < p+npages n → M.vpt s q = none) →
      (∀ q, p ≤ q → q < p+i → M.ChunkPage s (p+npages n) q) →
      ∃ done s', M.allocLoop ω m n k i s = some (done,s') ∧ W s' ∧
        M.Elsewhere s s' (fun q => p ≤ q ∧ q < p+npages n) ∧
        M.Logs s s' (fun q => p ≤ q ∧ q < p+npages n) ∧
        ∀ q, p ≤ q → q < p+npages n →
          if done = true then M.ChunkPage s' (p+npages n) q else M.vpt s' q = none := by
  induction k with
  | zero =>
    intro i s hik hW _ hdone
    obtain rfl : i = npages n := hik
    exact ⟨true,s,rfl,hW,.refl,.refl,hdone⟩
  | succ k ih =>
    intro i s hik hW hnone hdone
    have hk := npages_eq hn
    have hva : (m+ofNat 32 (PGSIZE*i)).toNat = 4096*(p+i) := by
      rw [page_toNat (by omega)]
      omega
    have hin : InArena (p+i) := ⟨by omega,by omega⟩
    have hcont : ofNat 32 (PGSIZE*i)+ofNat 32 PGSIZE < n+4 ↔ i+1 < npages n := by
      rw [lt_def,toNat_add,toNat_add,toNat_ofNat,toNat_ofNat,hk,
        PGSIZE_eq,show (4 : Word).toNat = 4 from rfl]
      omega
    generalize hflag : (if ofNat 32 (PGSIZE*i)+ofNat 32 PGSIZE < n+4
      then PTE_CONTINUED else 0) = cont
    have hcase : cont = 0 ∨ cont = PTE_CONTINUED := by
      rw [← hflag]
      split
      · exact .inr rfl
      exact .inl rfl
    obtain ⟨r,s1,hs1,hW1,he1,hl1,hr⟩ := law.alloc (ω := ω) hW hva hin
      (hnone (p+i) le_rfl (by omega)) hcase
    have hkeep : ∀ q, p ≤ q → q < p+npages n → q ≠ p+i → M.vpt s1 q = M.vpt s q :=
      fun q h1 h2 hq => he1.vpt q ⟨by omega,by omega⟩ hq
    simp only [allocLoop,hflag,hs1,bind,Option.bind]
    by_cases hneg : r < 0
    · rw [if_pos hneg] at hr ⊢
      obtain ⟨s2,hs2,hW2,he2,hl2,hv2⟩ := undo_spec law hm hp i hW1 (by omega)
      simp only [hs2,pure]
      refine ⟨false,s2,rfl,hW2,(he1.trans he2).mono fun q _ => by omega,
        (hl2.after hl1).mono fun q => by omega,fun q h1 h2 => ?_⟩
      rw [if_neg Bool.false_ne_true]
      by_cases hle : q ≤ p+i
      · exact hv2 q h1 hle
      rw [he2.vpt q ⟨by omega,by omega⟩ (by omega),hkeep q h1 h2 (by omega)]
      exact hnone q (by omega) h2
    rw [if_neg hneg] at hr ⊢
    obtain ⟨w,hw,hwc⟩ := hr
    have hpage : M.ChunkPage s1 (p+npages n) (p+i) := by
      unfold ChunkPage
      by_cases hlt : i+1 < npages n
      · rw [if_pos (by omega)]
        rw [if_pos (hcont.mpr hlt)] at hflag
        exact ⟨w,hw,by rw [hwc,← hflag]; decide⟩
      rw [if_neg (by omega)]
      rw [if_neg (mt hcont.mp hlt)] at hflag
      exact ⟨w,hw,hwc.trans hflag.symm⟩
    obtain ⟨done,s2,hs2,hW2,he2,hl2,hres⟩ := ih (i := i+1) (by omega) hW1
      (fun q h1 h2 => by rw [hkeep q (by omega) h2 (by omega)]; exact hnone q (by omega) h2)
      (fun q h1 h2 => by
        by_cases hq : q = p+i
        · rw [hq]
          exact hpage
        exact (hdone q h1 (by omega)).congr (hkeep q h1 (by omega) hq))
    exact ⟨done,s2,hs2,hW2,(he1.trans he2).mono fun q _ => by omega,hl2.after hl1,hres⟩

lemma Intact.congr (h : Intact M s m live extra)
    (hv : ∀ q, InArena q → M.vpt s' q = M.vpt s q)
    (hl : ∀ q, InArena q → M.Counted s q → M.load s' (countAt q) = M.load s (countAt q)) :
    Intact M s' m live extra where
  placed b hb := (h.placed b hb).congr fun q hq => hv q ((h.placed b hb).inArena hq)
  disjoint := h.disjoint
  counted q hq hqc := by
    have hqc' := hqc.congr (hv q hq).symm
    rw [hl q hq hqc']
    exact h.counted q hq hqc'
  owned q hq hqc := h.owned q hq (hqc.congr (hv q hq).symm)
  stray q hq := ⟨(h.stray q hq).1,(h.stray q hq).2.congr (hv q (h.stray q hq).1)⟩
  ptr := h.ptr
  middle := h.middle

lemma refs_cons (b : Block) (q : Nat) :
    refs (b :: live) extra q = refs live extra q+if b.tail = q then 1 else 0 := by
  simp only [refs,List.countP_cons,decide_eq_true_eq]
  omega

lemma Intact.refs_unmapped (h : Intact M s m live extra) (hp : M.vpt s p = none) :
    refs live extra p = 0 := by
  have hextra : extra p = 0 := by
    by_contra hne
    exact (h.stray p hne).2.mapped hp
  have hcount : live.countP (fun b => b.tail = p) = 0 := by
    rw [List.countP_eq_zero]
    intro b hb
    have hlast := (h.placed b hb).last.mapped
    simp only [decide_eq_true_eq]
    rintro rfl
    exact hlast hp
  simp only [refs,hextra,hcount]

variable {b : Block} {m' : Word}

lemma Intact.chunk (h : Intact M s m live extra) (ha : b.addr.toNat = 4096*b.head)
    (hlo : 32768 ≤ b.head) (hhi : b.tail < 65536) (hfree : ∀ q, b.On q → M.vpt s q = none)
    (he : M.Elsewhere s s' b.On) (hcont : ∀ q, b.head ≤ q → q < b.tail → M.Continued s' q)
    (hlast : M.Counted s' b.tail) (hload : M.load s' (countAt b.tail) = some 2) (hm : m'.toNat =
    b.stop) : Intact M s' m' (b :: live) (update extra b.tail (extra b.tail+1)) := by
  have hht := b.head_le
  have hon : b.On b.tail := ⟨hht,le_rfl⟩
  have hstop : b.stop/4096 = b.tail := rfl
  have hin : ∀ q, b.On q → InArena q := fun q hq => ⟨hlo.trans hq.1,Nat.lt_of_le_of_lt hq.2 hhi⟩
  have hoff : ∀ q, M.vpt s q ≠ none → ¬b.On q := fun q hq hc => hq (hfree q hc)
  have hnew : ∀ q, b.On q → q < b.tail ∨ q = b.tail := fun q hq => Nat.lt_or_eq_of_le hq.2
  have hpage : PPN m' = b.tail := by
    rw [PPN_eq,hm]
    rfl
  have hzero := h.refs_unmapped (hfree _ hon)
  have hextra : extra b.tail = 0 := by
    simp only [refs] at hzero
    omega
  have hclear : ∀ c ∈ live, ∀ q, c.On q → ¬b.On q := fun c hc q hq =>
    hoff q ((h.placed c hc).mapped hq)
  have hword := b.size_mod
  have hsize : b.stop = b.addr.toNat+b.size := rfl
  refine ⟨fun c hc => ?_,List.pairwise_cons.mpr ⟨fun c hc => ?_,h.disjoint⟩,fun q hq hqc => ?_,
    fun q hq hqc => ?_,fun q hq => ?_,.inr ?_,fun _ => ⟨?_,fun c hc htail => ?_⟩⟩
  · obtain rfl | hc := List.mem_cons.mp hc
    · refine ⟨?_,?_,?_,fun _ => ?_,hcont,hlast⟩
      · rw [mbegin_toNat]
        omega
      · rw [mend_toNat]
        omega
      · omega
      omega
    exact (h.placed c hc).congr fun q hq => he.vpt q ((h.placed c hc).inArena hq) (hclear c hc q hq)
  · -- The pages of the other block are on one side of the new ones.
    have hcl := hclear c hc
    have hcht := c.head_le
    have hcs : c.stop/4096 = c.tail := rfl
    have hch : c.addr.toNat/4096 = c.head := (PPN_eq _).symm
    by_cases hbefore : c.tail < b.head
    · right
      omega
    left
    have hafter : b.tail < c.head := by
      by_contra hle
      exact hcl (max b.head c.head) ⟨by omega,by omega⟩ ⟨by omega,by omega⟩
    omega
  · rw [refs_cons,refs_update]
    by_cases hqt : q = b.tail
    · subst hqt
      rw [if_pos rfl,if_pos rfl,hextra,hzero,hload]
      exact ⟨by decide,by decide,rfl⟩
    rw [if_neg hqt,if_neg (Ne.symm hqt),Nat.add_zero]
    have hqo : ¬b.On q := by
      intro hc
      obtain hlt | heq := hnew q hc
      · exact hqc.not_continued (hcont q hc.1 hlt)
      exact hqt heq
    rw [he.load q hq hqo]
    exact h.counted q hq (hqc.congr (he.vpt q hq hqo).symm)
  · by_cases hqo : b.On q
    · obtain hlt | rfl := hnew q hqo
      · exact ⟨b,by simp,hqo.1,hlt⟩
      exact absurd hqc hlast.not_continued
    obtain ⟨c,hc,hcq⟩ := h.owned q hq (hqc.congr (he.vpt q hq hqo).symm)
    exact ⟨c,by simp [hc],hcq⟩
  · by_cases hqt : q = b.tail
    · subst hqt
      exact ⟨hin _ hon,hlast⟩
    rw [update_of_ne hqt] at hq
    obtain ⟨hqi,hqc⟩ := h.stray q hq
    exact ⟨hqi,hqc.congr (he.vpt q hqi (hoff q hqc.mapped))⟩
  · rw [mbegin_toNat,mend_toNat,hm]
    omega
  · rw [hpage,update_self]
    omega
  rw [hm]
  obtain rfl | hc := List.mem_cons.mp hc
  · exact le_rfl
  rw [hpage] at htail
  exact absurd hon (hclear c hc _ (by rw [← htail]; exact ⟨c.head_le,le_rfl⟩))

lemma Intact.small (h : Intact M s b.addr live extra) (hmid : b.addr.toNat%4096 ≠ 0)
    (htail : b.tail = b.head) (hm : m'.toNat = b.stop)
    (hv : ∀ q, InArena q → M.vpt s' q = M.vpt s q)
    (hl : ∀ q, InArena q → M.load s' (countAt q) = if q = b.head
      then some (ofNat 32 (refs live extra b.head+1)) else M.load s (countAt q))
    (hlt : refs live extra b.head < 2^32) : Intact M s' m' (b :: live) extra := by
  obtain ⟨hne,hbelow⟩ := h.middle hmid
  change extra b.head ≠ 0 at hne
  change ∀ c ∈ live, c.tail = b.head → c.stop ≤ b.addr.toNat at hbelow
  obtain ⟨hin,hcnt⟩ := h.stray _ hne
  have hstop : b.stop/4096 = b.tail := rfl
  have hhead : b.addr.toNat/4096 = b.head := (PPN_eq _).symm
  have hsize : b.stop = b.addr.toNat+b.size := rfl
  have hword := b.size_mod
  have hpage : PPN m' = b.head := by
    rw [PPN_eq,hm]
    exact htail
  have hptr : b.addr.toNat%4 = 0 := by
    obtain h0 | h0 := h.ptr
    · rw [h0] at hmid
      exact absurd rfl hmid
    exact h0.2.2
  refine ⟨fun c hc => ?_,List.pairwise_cons.mpr ⟨fun c hc => ?_,h.disjoint⟩,fun q hq hqc => ?_,
    fun q hq hqc => ?_,fun q hq => ?_,.inr ?_,fun _ => ⟨?_,fun c hc hct => ?_⟩⟩
  · obtain rfl | hc := List.mem_cons.mp hc
    · refine ⟨?_,?_,hptr,fun hc => absurd hc (by omega),fun q h1 h2 => absurd h2 (by omega),?_⟩
      · rw [mbegin_toNat]
        omega
      · rw [mend_toNat]
        omega
      rw [htail]
      exact hcnt.congr (hv _ hin)
    exact (h.placed c hc).congr fun q hq => hv q ((h.placed c hc).inArena hq)
  · have hcp := h.placed c hc
    have hcht := c.head_le
    have hcs : c.stop/4096 = c.tail := rfl
    have hch : c.addr.toNat/4096 = c.head := (PPN_eq _).symm
    by_cases hct : c.tail = b.head
    · exact .inr (hbelow c hc hct)
    by_cases hbefore : c.tail < b.head
    · right
      omega
    have hafter : b.head < c.head := by
      by_contra hle
      exact hcnt.not_continued (hcp.cont b.head (by omega) (by omega))
    left
    omega
  · have hqc' := hqc.congr (hv q hq).symm
    obtain ⟨h0,h1,h2⟩ := h.counted q hq hqc'
    rw [refs_cons,hl q hq,htail]
    by_cases hqb : q = b.head
    · subst hqb
      rw [if_pos rfl,if_pos rfl]
      exact ⟨by omega,by omega,rfl⟩
    rw [if_neg hqb,if_neg (Ne.symm hqb)]
    exact ⟨h0,h1,h2⟩
  · obtain ⟨c,hc,hcq⟩ := h.owned q hq (hqc.congr (hv q hq).symm)
    exact ⟨c,by simp [hc],hcq⟩
  · exact ⟨(h.stray q hq).1,(h.stray q hq).2.congr (hv q (h.stray q hq).1)⟩
  · rw [mbegin_toNat,mend_toNat,hm]
    omega
  · rw [hpage]
    exact hne
  rw [hm]
  obtain rfl | hc := List.mem_cons.mp hc
  · exact le_rfl
  rw [hpage] at hct
  have := hbelow c hc hct
  omega

end chunks

section malloc

variable {M : PageOps Ω σ} {W : σ → Prop} {s : σ} {m n : Word} {live : List Block}
  {extra : Nat → Nat} {p : Nat} {ω : Ω}

def PageOps.Careful (M : PageOps Ω σ) (n : Word) (h : Heap σ) : Prop :=
  ROUNDUP n 4 < MAXMALLOC → h.mptr.toNat%PGSIZE ≠ 0 →
    if Fits h.mptr (ROUNDUP n 4) then M.load h.space (ROUNDUP h.mptr PGSIZE-4) ≠ some 0
    else PPN h.mptr+1 ≠ PPN mend

def PageOps.Ragged (n : Word) (h : Heap σ) : Prop :=
  ROUNDUP n 4 < MAXMALLOC → ¬(h.mptr.toNat%PGSIZE ≠ 0 ∧ Fits h.mptr (ROUNDUP n 4)) →
    (ROUNDUP n 4).toNat%PGSIZE ≠ 0

instance (M : PageOps Ω σ) (n : Word) (h : Heap σ) : Decidable (M.Careful n h) :=
  inferInstanceAs (Decidable (ROUNDUP n 4 < MAXMALLOC → h.mptr.toNat%PGSIZE ≠ 0 →
    if Fits h.mptr (ROUNDUP n 4) then M.load h.space (ROUNDUP h.mptr PGSIZE-4) ≠ some 0
    else PPN h.mptr+1 ≠ PPN mend))

instance (n : Word) (h : Heap σ) : Decidable (Ragged n h) :=
  inferInstanceAs (Decidable (ROUNDUP n 4 < MAXMALLOC → ¬(h.mptr.toNat%PGSIZE ≠ 0 ∧ Fits h.mptr
    (ROUNDUP n 4)) → (ROUNDUP n 4).toNat%PGSIZE ≠ 0))

lemma held_aligned (hm : m.toNat%4096 = 0) : held m = fun _ => 0 := by
  funext q
  simp [held,hm]

lemma held_middle (hm : m.toNat%4096 ≠ 0) : held m = update (fun _ => 0) (PPN m) 1 := by
  funext q
  simp [held,hm,update_apply]

lemma Intact.count {s1 : σ} (law : M.Lawful W) (h : Intact M s m live extra)
    (hm : m.toNat = 4096*p) (hp : InArena p) (hn : (ROUNDUP n 4).toNat < 2^20)
    (hend : p+npages (ROUNDUP n 4) ≤ 65536) (hfree : ∀ q, p ≤ q → q < p+npages (ROUNDUP n 4) → M.vpt
    s q = none) (hW : W s1) (he : M.Elsewhere s s1 (fun q => p ≤ q ∧ q < p+npages (ROUNDUP n 4)))
    (hres : ∀ q, p ≤ q → q < p+npages (ROUNDUP n 4) → M.ChunkPage s1 (p+npages (ROUNDUP n 4)) q)
    : ∃ s2, M.store s1 (m+ofNat 32 (PGSIZE*npages (ROUNDUP n 4))-4) 2 = some s2 ∧
    W s2 ∧ M.Logs s1 s2 (fun _ => False) ∧ Intact M s2 (m+ROUNDUP n 4)
    (⟨m,n⟩ :: live) (update extra (PPN (m+ROUNDUP n 4)) (extra (PPN (m+ROUNDUP n 4))+1)) := by
  have hk := npages_eq hn
  have hmod := ROUNDUP_four_mod n
  obtain ⟨k,hk1⟩ : ∃ k, npages (ROUNDUP n 4) = k+1 :=
    ⟨npages (ROUNDUP n 4)-1,by omega⟩
  rw [hk1] at hres hfree he hend
  rw [hk1,countAt_of_chunk hm (by omega)]
  have hin : InArena (p+k) := ⟨by omega,by omega⟩
  have hpg : PPN (countAt (p+k)) = p+k := PPN_countAt (by omega)
  have hcnt : M.Counted s1 (p+k) := by
    have := hres (p+k) (by omega) (by omega)
    unfold ChunkPage at this
    rwa [if_neg (by omega)] at this
  obtain ⟨s2,hs2,hW2,hv2,hl2,hld2⟩ := law.store (a := countAt (p+k)) 2 hW
    (by rw [hpg]; exact hin) (by rw [countAt_toNat (by omega)]; omega) (by rw [hpg]; exact hcnt.mapped)
  have hsum : (m+ROUNDUP n 4).toNat = 4096*p+(ROUNDUP n 4).toNat := by
    rw [toNat_add,hm]
    omega
  have hhead : head ⟨m,n⟩ = p := PPN_of_page hm
  have htail : tail ⟨m,n⟩ = p+k := by
    simp only [tail,stop,size,hm]
    omega
  have hpage : PPN (m+ROUNDUP n 4) = tail ⟨m,n⟩ := by
    rw [PPN_eq,hsum,htail]
    omega
  have hon : ∀ q, On ⟨m,n⟩ q ↔ p ≤ q ∧ q < p+(k+1) := by
    intro q
    simp only [On,hhead,htail]
    omega
  refine ⟨s2,hs2,hW2,hl2,?_⟩
  rw [hpage]
  refine h.chunk (by rw [hhead]; exact hm) (by rw [hhead]; exact hp.1) (by rw [htail]; exact hin.2)
    (fun q hq => hfree q ((hon q).mp hq).1 ((hon q).mp hq).2)
    ⟨fun q hq hn => ?_,fun q hq hn => ?_⟩ (fun q h1 h2 => ?_) ?_ ?_ (by rw [hsum,← hm]; rfl)
  · rw [hv2 q hq,he.vpt q hq (mt (hon q).mpr hn)]
  · rw [hld2 q hq,if_neg,he.load q hq (mt (hon q).mpr hn)]
    intro hc
    have := congrArg PPN hc
    rw [hpg,PPN_countAt (by omega)] at this
    exact hn ((hon q).mpr ⟨by omega,by omega⟩)
  · rw [hhead] at h1
    rw [htail] at h2
    have hq := hres q h1 (by omega)
    unfold ChunkPage at hq
    rw [if_pos (by omega)] at hq
    exact hq.congr (hv2 q ⟨by omega,by omega⟩)
  · rw [htail]
    exact hcnt.congr (hv2 _ hin)
  rw [htail,hld2 _ hin,if_pos rfl]

lemma Intact.off_blocks (h : Intact M s m live extra) {q : Nat} (hq : M.vpt s q = none) :
    ∀ b ∈ live, ¬b.On q := fun b hb hon => (h.placed b hb).mapped hon hq

lemma chunk_spec (law : M.Lawful W) (hW : W s) (h : Intact M s m live extra)
    (hm : m.toNat = 4096*p) (hp : InArena p) (hn : (ROUNDUP n 4).toNat < 2^20) :
    ∃ v h', M.chunk ω (ROUNDUP n 4) m s = some (v,h') ∧ W h'.space ∧
      (M.Logs s h'.space fun q => ∀ b ∈ live, ¬b.On q) ∧
      ∃ extra', Intact M h'.space h'.mptr (if v = 0 then live else ⟨v,n⟩ :: live) extra' ∧
        (extra = (fun _ => 0) → (ROUNDUP n 4).toNat%PGSIZE ≠ 0 → extra' = held h'.mptr) := by
  obtain ⟨found,m1,p1,hscan,hm1,hp1,hfound⟩ := scan_spec (M := M) (s := s) (n := ROUNDUP n 4)
    scanBound hm hp (Nat.zero_le 1) (by simp only [scanBound]; omega)
  have hal := h.aligned hm1 hp1
  have hheld : held m1 = fun _ => 0 := held_aligned (by omega)
  cases found with
  | false =>
    refine ⟨0,⟨s,m1⟩,?_,hW,.refl,extra,by rw [if_pos rfl]; exact hal,
      fun he _ => he.trans hheld.symm⟩
    simp only [chunk,hscan,bind,Option.bind,pure,Bool.false_eq_true,if_false]
  | true =>
    obtain ⟨hend,hfree⟩ := isfree_pages hm1 hp1.2 hn (hfound rfl)
    obtain ⟨done,s1,hs1,hW1,he1,hl1,hres⟩ := allocLoop_spec (ω := ω) law hm1 hp1.1 hn hend
      (npages (ROUNDUP n 4)) (i := 0) (by omega) hW (fun q h1 h2 => hfree q h1 h2)
      (fun q h1 h2 => absurd h2 (by omega))
    have hlog : M.Logs s s1 (fun q => ∀ b ∈ live, ¬b.On q) := hl1.mono fun q hq =>
      h.off_blocks (hfree q hq.1 hq.2)
    cases done with
    | false =>
      refine ⟨0,⟨s1,m1⟩,?_,hW1,hlog,extra,?_,fun he _ => he.trans hheld.symm⟩
      · simp only [chunk,hscan,hs1,bind,Option.bind,pure,Bool.false_eq_true,if_false,if_true]
      rw [if_pos rfl]
      refine hal.congr (fun q hq => ?_) fun q hq hqc => he1.load q hq fun hin =>
        hqc.mapped (hfree q hin.1 hin.2)
      by_cases hin : p1 ≤ q ∧ q < p1+npages (ROUNDUP n 4)
      · rw [hfree q hin.1 hin.2]
        exact hres q hin.1 hin.2
      exact he1.vpt q hq hin
    | true =>
      obtain ⟨s2,hs2,hW2,hl2,hinv⟩ := hal.count law hm1 hp1 hn hend hfree hW1 he1 hres
      have hne : m1 ≠ 0 := by
        rintro rfl
        exact absurd hm1 (by simp; omega)
      refine ⟨m1,⟨s2,m1+ROUNDUP n 4⟩,?_,hW2,(hlog.trans hl2).mono (by simp),_,
        by rw [if_neg hne]; exact hinv,fun he hmod => ?_⟩
      · simp only [chunk,hscan,hs1,hs2,bind,Option.bind,pure,if_true]
      have hmid : (m1+ROUNDUP n 4).toNat%4096 ≠ 0 := by
        rw [toNat_add,hm1]
        rw [PGSIZE_eq] at hmod
        omega
      rw [held_middle hmid,he]

lemma Intact.fit (law : M.Lawful W) (hW : W s) (h : Intact M s m live extra)
    (hmid : m.toNat%4096 ≠ 0) (hn : (ROUNDUP n 4).toNat < 2^20) (hfits : Fits m (ROUNDUP n 4))
    (hc : M.load s (countAt (PPN m)) ≠ some 0) : ∃ count s', M.load s (countAt (PPN m)) = some
    count ∧ M.store s (countAt (PPN m)) (count+1) = some s' ∧ W s' ∧ M.Logs s s' (fun _ => False) ∧
    Intact M s' (m+ROUNDUP n 4) (⟨m,n⟩ :: live) extra ∧ held (m+ROUNDUP n 4) = held m := by
  obtain ⟨hne,_⟩ := h.middle hmid
  obtain ⟨hin,hcnt⟩ := h.stray _ hne
  obtain ⟨h0,h1,hload⟩ := h.counted _ hin hcnt
  have hm : m.toNat/4096 = PPN m := (PPN_eq m).symm
  have hmod := ROUNDUP_four_mod n
  have hword : m.toNat%4 = 0 := by
    obtain h0 | h0 := h.ptr
    · rw [h0] at hmid
      exact absurd rfl hmid
    exact h0.2.2
  have hsum : (m+ROUNDUP n 4).toNat = m.toNat+(ROUNDUP n 4).toNat := by
    rw [toNat_add]
    omega
  have hfits' : m.toNat/4096 = (m.toNat+(ROUNDUP n 4).toNat+3)/4096 := by
    have hlast : (m+ROUNDUP n 4-1+4).toNat = m.toNat+(ROUNDUP n 4).toNat+3 := by
      rw [toNat_add,toNat_sub,hsum,show (1 : Word).toNat = 1 from rfl,
        show (4 : Word).toNat = 4 from rfl]
      omega
    rw [← hlast]
    exact hfits
  have hpage : PPN (m+ROUNDUP n 4) = PPN m := by
    rw [PPN_eq,hsum]
    omega
  -- The count is not at its end, so it can go up.
  have hlt : refs live extra (PPN m) < 2^32 := by
    refine Nat.lt_of_le_of_ne h1 fun hmax => hc ?_
    rw [hload,hmax]
    rfl
  obtain ⟨s1,hs1,hW1,hv1,hl1,hld1⟩ := law.store (a := countAt (PPN m))
    (ofNat 32 (refs live extra (PPN m))+1) hW (by rw [PPN_countAt (by omega)]; exact hin)
    (by rw [countAt_toNat (by omega)]; omega) (by rw [PPN_countAt (by omega)]; exact hcnt.mapped)
  refine ⟨_,s1,hload,hs1,hW1,hl1,?_,?_⟩
  · refine Intact.small (b := ⟨m,n⟩) h hmid ?_ hsum hv1 (fun q hq => ?_) hlt
    · simp only [tail,stop,size,head]
      omega
    have hplus : ofNat 32 (refs live extra (PPN m))+1 =
        ofNat 32 (refs live extra (PPN m)+1) := (ofNat_add _ _).symm
    change _ = if q = PPN m then some (ofNat 32 (refs live extra (PPN m)+1)) else _
    rw [hld1 q hq,hplus]
    by_cases hqm : q = PPN m
    · rw [if_pos (by rw [hqm]),if_pos hqm]
    rw [if_neg hqm,if_neg]
    intro hc
    have := congrArg PPN hc
    rw [PPN_countAt (by omega),PPN_countAt (by omega)] at this
    exact hqm this
  rw [held_middle hmid,held_middle (by omega),hpage]

lemma malloc_spec (law : M.Lawful W) {h : Heap σ} (hW : W h.space)
    (hi : Intact M h.space h.mptr live extra) (hc : M.Careful n h) :
    ∃ v h', M.malloc ω n h = some (v,h') ∧ W h'.space ∧
      (M.Logs h.space h'.space fun q => ∀ b ∈ live, ¬b.On q) ∧
      ∃ extra', Intact M h'.space h'.mptr (if v = 0 then live else ⟨v,n⟩ :: live) extra' ∧
        (extra = held h.mptr → Ragged n h → extra' = held h'.mptr) := by
  obtain ⟨s,m⟩ := h
  unfold PageOps.malloc
  simp only at hW hi ⊢
  by_cases hmid : m.toNat%PGSIZE ≠ 0
  · have hm0 : m ≠ 0 := by
      rintro rfl
      exact hmid rfl
    have hrange := hi.ptr.resolve_left hm0
    rw [mbegin_toNat,mend_toNat] at hrange
    simp only [if_neg hm0,if_pos hmid]
    by_cases hbig : MAXMALLOC ≤ ROUNDUP n 4
    · rw [if_pos hbig]
      exact ⟨0,⟨s,m⟩,rfl,hW,.refl,extra,hi,fun he _ => he⟩
    have hlt : ROUNDUP n 4 < MAXMALLOC := BitVec.not_le.mp hbig
    have hc := hc hlt hmid
    simp only [countAt_of_middle hmid (show m.toNat < 2^31 by omega)] at hc ⊢
    rw [if_neg hbig]
    by_cases hfits : Fits m (ROUNDUP n 4)
    · rw [if_pos hfits] at hc ⊢
      obtain ⟨count,s1,hload,hs1,hW1,hl1,hinv,hheld⟩ := hi.fit law hW hmid hlt hfits hc
      refine ⟨m,⟨s1,m+ROUNDUP n 4⟩,?_,hW1,hl1.mono fun _ => False.elim,extra,
        by rw [if_neg hm0]; exact hinv,fun he _ => he.trans hheld.symm⟩
      simp only [hload,hs1,bind,Option.bind,pure]
    rw [if_neg hfits] at hc ⊢
    have hpage := PPN_eq m
    have hend : PPN mend = 65536 := by decide
    have hnext : (ROUNDDOWN (m+ofNat 32 PGSIZE) PGSIZE).toNat = 4096*(PPN m+1) := by
      rw [PPN_ROUNDDOWN,PPN_eq,step_toNat (by omega)]
      omega
    have hin : InArena (PPN m+1) := ⟨by omega,by omega⟩
    obtain ⟨s1,hs1,hW1,hl1,hinv⟩ := hi.leave law hW hmid hnext hin
    obtain ⟨v,h',hch,hW',hl',extra',hinv',hheld⟩ := chunk_spec (ω := ω) (n := n) law hW1 hinv hnext hin hlt
    refine ⟨v,h',?_,hW',((hl1.mono fun q hq => hinv.off_blocks hq).trans hl').mono (by simp),extra',
      hinv',fun he hr => hheld ?_ (hr hlt fun hc => hfits hc.2)⟩
    · simp only [hs1,bind,Option.bind]
      exact hch
    rw [he,held_middle hmid]
    simp
  have hm4 : m.toNat%4096 = 0 := not_not.mp hmid
  generalize hm1 : (if m = 0 then mbegin else m) = m1
  obtain ⟨p,hp,hin⟩ : ∃ p, m1.toNat = 4096*p ∧ InArena p := by
    rw [← hm1]
    split
    · exact ⟨32768,rfl,by decide⟩
    rename_i hm0
    have hrange := hi.ptr.resolve_left hm0
    rw [mbegin_toNat,mend_toNat] at hrange
    exact ⟨m.toNat/4096,by omega,by omega,by omega⟩
  have hal := hi.aligned hp hin
  have hheld : held m1 = held m := by rw [held_aligned hm4,held_aligned (by omega)]
  by_cases hbig : MAXMALLOC ≤ ROUNDUP n 4
  · rw [if_pos hbig]
    exact ⟨0,⟨s,m1⟩,rfl,hW,.refl,extra,hal,fun he _ => he.trans hheld.symm⟩
  have hlt : ROUNDUP n 4 < MAXMALLOC := BitVec.not_le.mp hbig
  have hal1 : ¬m1.toNat%PGSIZE ≠ 0 := by
    rw [PGSIZE_eq]
    omega
  rw [if_neg hbig,if_neg hal1]
  obtain ⟨v,h',hch,hW',hl',extra',hinv',hch'⟩ := chunk_spec (ω := ω) (n := n) law hW hal hp hin hlt
  exact ⟨v,h',hch,hW',hl',extra',hinv',fun he hr =>
    hch' (he.trans (held_aligned hm4)) (hr hlt fun hc => hmid hc.1)⟩

end malloc

end KludgeOS.Malloc
