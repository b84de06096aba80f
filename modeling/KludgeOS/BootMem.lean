import KludgeOS.Reach

/-!
Physical memory from `i386_detect_memory` (`kern/pmap.c`) to `bootothers` (`kern/init.c`), which
places the other processors' stacks after `page_init`.
-/

namespace KludgeOS
open Option List Kern

def IOPHYSMEM : Nat := 0x0A0000
def EXTPHYSMEM : Nat := 0x100000
def KSTKSIZE : Nat := 8*PGSIZE
def SIZEOF_STRUCT_PAGE : Nat := 12
def SIZEOF_STRUCT_ENV : Nat := 128

def roundUp (a n : Nat) : Nat := (a+n-1)/n*n

/-- `maxpa`, from the two counts of kilobytes in the NVRAM. -/
def detectMemory (base ext : BitVec 16) : Nat :=
  let basemem := base.toNat*1024/PGSIZE*PGSIZE
  let extmem := ext.toNat*1024/PGSIZE*PGSIZE
  if extmem ≠ 0 then EXTPHYSMEM+extmem else basemem

/-- `boot_alloc`, on physical addresses: the block and the new `boot_freemem`. -/
def bootAlloc (maxpa freemem n align : Nat) : Option (Nat × Nat) :=
  let v := roundUp freemem align
  if maxpa < v+n then none else some (v,v+n)

/-- `boot_freemem` when `i386_vm_init` calls `page_init`; `fin` is the end of the kernel image. -/
def bootFreemem (maxpa fin : Nat) : Option Nat := do
  let (_,m) ← bootAlloc maxpa fin PGSIZE PGSIZE
  let (_,m) ← bootAlloc maxpa m (SIZEOF_STRUCT_PAGE*(maxpa/PGSIZE)) PGSIZE
  let (_,m) ← bootAlloc maxpa m (SIZEOF_STRUCT_ENV*NENV) PGSIZE
  return m

/-- The loops of `page_init` insert at the head. -/
def insertRange (a b : Nat) (l : List Nat) : List Nat :=
  (range' a (b-a)).foldl (fun l i => i :: l) l

def pageInit (npage freemem : Nat) : List Nat :=
  insertRange (freemem/PGSIZE) npage (insertRange 1 (IOPHYSMEM/PGSIZE) [])

def AP_CODE : Nat := 0x7000

/-- The top of the stack for the processor with this APIC id; `KADDR` panics if it is not an address
in memory. -/
def apStack (npage : Nat) (apicid : BitVec 8) : Option Int :=
  let pa : Int := IOPHYSMEM-KSTKSIZE*((apicid.toNat : Int)-1)
  if (BitVec.ofInt 32 pa).toNat/PGSIZE < npage then some pa else none

/-- `bootothers`: the stacks of the processors other than the one with index `self`. -/
def bootothers (npage : Nat) (apicids : List (BitVec 8)) (self : Nat) : Option (List Int) :=
  ((apicids.zipIdx.filter fun p => p.2 ≠ self).map Prod.fst).mapM (apStack npage)

def Meets (f : Nat) (lo hi : Int) : Prop := (f*PGSIZE : Int) < hi ∧ lo < (f+1)*PGSIZE

instance (f : Nat) (lo hi : Int) : Decidable (Meets f lo hi) := inferInstanceAs (Decidable (_ ∧ _))

/-- The frame is used for the start-up code of `size` bytes, or for a stack below `IOPHYSMEM`. -/
def ApUses (size : Nat) (tops : List Int) (f : Nat) : Prop :=
  Meets f AP_CODE (AP_CODE+size) ∨ ∃ top ∈ tops, top ≤ IOPHYSMEM ∧ Meets f (top-KSTKSIZE) top

/-- The kernel allocates and frees pages. `used` are the frames handed out and not given back, and
`k` is how often `page_free` was called. -/
inductive PageRun (l : List Nat) : Kern → (used : List Nat) → (k : Nat) → Prop where
  | init {s : Kern} : s.pageFreeList = l → PageRun l s [] 0
  | alloc {s s' : Kern} {used : List Nat} {f k : Nat} : PageRun l s used k →
      s.pageAlloc = (some f,s') → PageRun l s' (f :: used) k
  | free {s s' : Kern} {used : List Nat} {f k : Nat} : PageRun l s used k → f ∈ used →
      s.pageFree f = some s' → PageRun l s' (used.erase f) (k+1)
  | other {s s' : Kern} {used : List Nat} {k : Nat} : PageRun l s used k →
      s'.pageFreeList = s.pageFreeList → PageRun l s' used k

section boot

variable {l used : List Nat} {s : Kern} {maxpa fin npage freemem size self : Nat}
  {apicids : List (BitVec 8)} {tops : List Int} {a b n f k : Nat}

lemma insertRange_eq : insertRange a b l = (range' a (b-a)).reverse++l := by
  rw [insertRange]
  induction range' a (b-a) generalizing l with
  | nil => rfl
  | cons x r ih => simp [ih]

lemma roundUp_le (hn : 0 < n) : a ≤ roundUp a n := by
  unfold roundUp
  have := Nat.div_add_mod (a+n-1) n
  have := Nat.mod_lt (a+n-1) hn
  rw [Nat.mul_comm]
  omega

lemma bootAlloc_spec {align v m : Nat} (hn : 0 < align) (h : bootAlloc maxpa fin n align =
    some (v,m)) : fin ≤ v ∧ v%align = 0 ∧ m = v+n ∧ m ≤ maxpa := by
  unfold bootAlloc at h
  simp only at h
  split at h
  · cases h
  cases h
  exact ⟨roundUp_le hn,by simp [roundUp],rfl,by omega⟩

lemma bootFreemem_spec (h : bootFreemem maxpa fin = some freemem) :
    fin ≤ freemem ∧ freemem%PGSIZE = 0 ∧ freemem ≤ maxpa := by
  obtain ⟨⟨v1,m1⟩,h1,h⟩ := of_bind h
  obtain ⟨⟨v2,m2⟩,h2,h⟩ := of_bind h
  obtain ⟨⟨v3,m3⟩,h3,h⟩ := of_bind h
  cases h
  obtain ⟨hv1,_,hm1,_⟩ := bootAlloc_spec (by decide) h1
  obtain ⟨hv2,_,hm2,_⟩ := bootAlloc_spec (by decide) h2
  obtain ⟨hv3,ha3,hm3,hmax⟩ := bootAlloc_spec (by decide) h3
  refine ⟨by omega,?_,hmax⟩
  have hs : SIZEOF_STRUCT_ENV*NENV = 131072 := rfl
  rw [hm3,hs]
  unfold PGSIZE at ha3 ⊢
  omega

lemma mem_drop_pageInit : f ∈ (pageInit npage freemem).drop n ↔
    freemem/PGSIZE ≤ f ∧ f < freemem/PGSIZE+(npage-freemem/PGSIZE-n) ∨
    1 ≤ f ∧ f < 160-(n-(npage-freemem/PGSIZE)) := by
  have hlow : IOPHYSMEM/PGSIZE-1 = 159 := rfl
  have htake : ∀ a m k, (range' a m).take k = range' a (min k m) := by
    intro a m k
    rw [range'_eq_map_range,← map_take,take_range,← range'_eq_map_range]
  simp only [pageInit,insertRange_eq,hlow,append_nil,drop_append,drop_reverse,
    htake,length_reverse,length_range',mem_append,mem_reverse,
    mem_range'_1]
  omega

lemma PageRun.accounts (h : PageRun l s used k) : (s.pageFreeList++used).Perm l := by
  induction h with
  | init hl => rw [hl,append_nil]
  | @alloc s s' used f k _ ha ih =>
    unfold pageAlloc at ha
    split at ha
    · simp at ha
    rename_i pp l' hl
    obtain ⟨hpp,rfl⟩ := Prod.mk.inj ha
    cases hpp
    rw [hl] at ih
    exact perm_middle.trans ih
  | @free s s' used f k _ hf hs ih =>
    unfold pageFree at hs
    split at hs
    · cases hs
      refine .trans ?_ ih
      have := (perm_cons_erase hf).symm
      exact perm_middle.symm.trans (this.append_left _)
    cases hs
  | other _ hs ih => rwa [hs]

/-- As long as nothing is freed, the free list is used up from its head. -/
lemma PageRun.drop (h : PageRun l s used k) (hk : k = 0) : s.pageFreeList = l.drop used.length := by
  induction h with
  | init hl => exact hl
  | @alloc s s' used f k _ ha ih =>
    unfold pageAlloc at ha
    split at ha
    · simp at ha
    rename_i pp l' hl
    obtain ⟨_,rfl⟩ := Prod.mk.inj ha
    rw [length_cons,← drop_drop,← ih hk,hl]
    rfl
  | free => cases hk
  | other _ hs ih => exact hs.trans (ih hk)

lemma mem_mapM {α β : Type} {g : α → Option β} {l : List α} {r : List β} {y : β}
    (h : l.mapM g = some r) : y ∈ r ↔ ∃ x ∈ l, g x = some y := by
  induction l generalizing r with
  | nil =>
    cases h
    simp
  | cons a l ih =>
    rw [mapM_cons] at h
    obtain ⟨b,hb,h⟩ := of_bind h
    obtain ⟨r',hr,h⟩ := of_bind h
    cases h
    simp [ih hr,hb,eq_comm]

lemma isSome_of_mapM {α β : Type} {g : α → Option β} {l : List α} {r : List β} {x : α}
    (h : l.mapM g = some r) (hx : x ∈ l) : ∃ y, g x = some y := by
  induction l generalizing r with
  | nil => simp at hx
  | cons a l ih =>
    rw [mapM_cons] at h
    obtain ⟨b,hb,h⟩ := of_bind h
    obtain ⟨r',hr,_⟩ := of_bind h
    obtain rfl | hx := mem_cons.mp hx
    · exact ⟨b,hb⟩
    exact ih hr hx

lemma apStack_meets {a : BitVec 8} {top : Int} (h : apStack npage a = some top) : (top ≤ IOPHYSMEM
    ∧ Meets f (top-KSTKSIZE) top) ↔ 1 ≤ a.toNat ∧ 160 ≤ f+8*a.toNat ∧ f+8*a.toNat < 168 := by
  unfold apStack at h
  simp only at h
  split at h
  · cases h
    simp only [Meets,IOPHYSMEM,KSTKSIZE,PGSIZE]
    omega
  cases h

/-- The frame is used by a processor that `bootothers` starts, in terms of its APIC id. -/
def ApFrame (size : Nat) (apicids : List (BitVec 8)) (self f : Nat) : Prop :=
  (f*PGSIZE < AP_CODE+size ∧ AP_CODE < (f+1)*PGSIZE) ∨
    ∃ p ∈ apicids.zipIdx, p.2 ≠ self ∧ 1 ≤ p.1.toNat ∧ 160 ≤ f+8*p.1.toNat ∧ f+8*p.1.toNat < 168

lemma apUses_iff (h : bootothers npage apicids self = some tops) :
    ApUses size tops f ↔ ApFrame size apicids self f := by
  have hmem : ∀ p ∈ apicids.zipIdx, p.2 ≠ self →
      p.1 ∈ (apicids.zipIdx.filter fun p => p.2 ≠ self).map Prod.fst := fun p hp hself =>
    List.mem_map.mpr ⟨p,mem_filter.mpr ⟨hp,by simpa using hself⟩,rfl⟩
  refine or_congr (by simp only [Meets,PGSIZE,AP_CODE]; omega) ⟨?_,?_⟩
  · rintro ⟨top,htop,hmeets⟩
    obtain ⟨a,ha,hstack⟩ := (mem_mapM h).mp htop
    obtain ⟨p,hp,rfl⟩ := List.mem_map.mp ha
    obtain ⟨hp,hself⟩ := mem_filter.mp hp
    exact ⟨p,hp,by simpa using hself,(apStack_meets hstack).mp hmeets⟩
  rintro ⟨p,hp,hself,hframe⟩
  obtain ⟨top,htop⟩ := isSome_of_mapM h (hmem p hp hself)
  exact ⟨top,(mem_mapM h).mpr ⟨p.1,hmem p hp hself,htop⟩,(apStack_meets htop).mpr hframe⟩

/-- How many of the frames below `IOPHYSMEM` have to be handed out: all down to frame 7, and all if
the stack of APIC id 20 reaches down to frame 0. -/
def apNeed (apicids : List (BitVec 8)) (self : Nat) : Nat :=
  if ∃ p ∈ apicids.zipIdx, p.2 ≠ self ∧ p.1 = 20 then 159 else 153

lemma apFrame_above_iff (hsize : 0 < size) : (∀ f, 1 ≤ f → f < 160-n →
    ¬ApFrame size apicids self f) ↔ apNeed apicids self ≤ n := by
  unfold apNeed
  split
  next h20 =>
    obtain ⟨p,hp,hself,hp20⟩ := h20
    have h20 : p.1.toNat = 20 := by rw [hp20]; rfl
    refine ⟨fun h => ?_,fun hn f h1 h2 => by omega⟩
    by_contra hn
    exact h 1 le_rfl (by omega) (.inr ⟨p,hp,hself,by omega⟩)
  next h20 =>
    refine ⟨fun h => ?_,fun hn f h1 h2 hf => ?_⟩
    · by_contra hn
      exact h 7 (by decide) (by omega) (.inl (by simp only [AP_CODE,PGSIZE]; omega))
    obtain hcode | ⟨p,hp,hself,_,hlo,hhi⟩ := hf
    · simp only [AP_CODE,PGSIZE] at hcode
      omega
    exact h20 ⟨p,hp,hself,BitVec.eq_of_toNat_eq (by change p.1.toNat = 20; omega)⟩

lemma ApFrame.lt (hsize : AP_CODE+size ≤ IOPHYSMEM) (h : ApFrame size apicids self f) :
    f < 160 := by
  simp only [ApFrame,AP_CODE,PGSIZE,IOPHYSMEM] at h hsize
  obtain h | ⟨p,_,_,h⟩ := h <;> omega

/-- No free frame meets a reserved area. As long as nothing was freed, none meets the memory of the
other processors exactly when `page_alloc` has handed out all memory behind the kernel and what
they use below. -/
theorem boot_frames {base ext : BitVec 16} (hfin : EXTPHYSMEM ≤ fin)
    (hboot : bootFreemem (detectMemory base ext) fin = some freemem)
    (hrun : PageRun (pageInit (detectMemory base ext/PGSIZE) freemem) s used k)
    (hoth : bootothers (detectMemory base ext/PGSIZE) apicids self = some tops)
    (hsize : 0 < size ∧ AP_CODE+size ≤ IOPHYSMEM) :
    (∀ f ∈ s.pageFreeList, ¬Meets f 0 PGSIZE ∧ ¬Meets f IOPHYSMEM EXTPHYSMEM ∧
      ¬Meets f EXTPHYSMEM freemem) ∧
    (k = 0 → ((∀ f ∈ s.pageFreeList, ¬ApUses size tops f) ↔
      detectMemory base ext/PGSIZE-freemem/PGSIZE+apNeed apicids self ≤ used.length)) := by
  obtain ⟨hle,halign,hmax⟩ := bootFreemem_spec hboot
  have hhigh : 256 ≤ freemem/PGSIZE := by
    simp only [EXTPHYSMEM,PGSIZE] at hfin ⊢
    omega
  refine ⟨fun f hf => ?_,fun hk => ?_⟩
  · have hmem := (mem_drop_pageInit (n := 0)).mp (hrun.accounts.mem_iff.mp (mem_append_left _ hf))
    simp only [Meets,PGSIZE,IOPHYSMEM,EXTPHYSMEM] at *
    omega
  have hlow : (∀ f ∈ s.pageFreeList, ¬ApUses size tops f) ↔ ∀ f, 1 ≤ f →
      f < 160-(used.length-(detectMemory base ext/PGSIZE-freemem/PGSIZE)) →
      ¬ApFrame size apicids self f := by
    simp only [hrun.drop hk,apUses_iff hoth,mem_drop_pageInit]
    refine ⟨fun h f h1 h2 => h f (.inr ⟨h1,h2⟩),fun h f hf hap => ?_⟩
    have := hap.lt hsize.2
    exact h f (by omega) (by omega) hap
  rw [hlow,apFrame_above_iff hsize.1]
  have hpos : 0 < apNeed apicids self := by
    unfold apNeed
    split <;> decide
  omega

lemma PageRun.drain {l1 l2 : List Nat}
    (h : PageRun l {s with pageFreeList := l1++l2} used k) :
    PageRun l {s with pageFreeList := l2} (l1.reverse++used) k := by
  induction l1 generalizing used with
  | nil => exact h
  | cons f l1 ih =>
    rw [reverse_cons,append_assoc]
    exact ih (.alloc h rfl)

/-- A machine with 2 MB, after `n` calls of `page_alloc`. -/
def smallMachine (n : Nat) : Kern :=
  {bootKern 512 with pageFreeList := (pageInit 512 0x143000).drop n}

lemma smallMachine_run (n : Nat) : PageRun (pageInit (detectMemory 640 1024/PGSIZE) 0x143000)
    (smallMachine n) ((pageInit 512 0x143000).take n).reverse 0 := by
  have h0 : PageRun (pageInit 512 0x143000) { bootKern 512 with
      pageFreeList := (pageInit 512 0x143000).take n++(pageInit 512 0x143000).drop n } [] 0 :=
    .init (take_append_drop n _)
  rw [show detectMemory 640 1024/PGSIZE = 512 by decide]
  simpa [smallMachine] using h0.drain

theorem boot_frames_drained : (smallMachine 342).pageFreeList = [6,5,4,3,2,1] ∧ bootothers 512
    [0,1] 0 = some [0xA0000] ∧ ∀ f ∈ (smallMachine 342).pageFreeList, ¬ApUses 100 [0xA0000] f := by
  have hboot : bootFreemem (detectMemory 640 1024) 0x120000 = some 0x143000 := by decide +kernel
  have hoth : bootothers (detectMemory 640 1024/PGSIZE) [0,1] 0 = some [0xA0000] := by
    decide +kernel
  exact ⟨by decide +kernel,by decide +kernel,((boot_frames (by decide) hboot (smallMachine_run 342)
    hoth (by decide)).2 rfl).mpr (by decide +kernel)⟩

theorem boot_frames_clash : bootFreemem (detectMemory 640 1024) 0x120000 = some 0x143000 ∧
    bootothers (detectMemory 640 1024/PGSIZE) [0,1] 0 = some [0xA0000] ∧
    PageRun (pageInit (detectMemory 640 1024/PGSIZE) 0x143000) (smallMachine 100)
      ((pageInit 512 0x143000).take 100).reverse 0 ∧
    7 ∈ (smallMachine 100).pageFreeList ∧ Meets 7 AP_CODE (AP_CODE+100) ∧
    159 ∈ (smallMachine 100).pageFreeList ∧ Meets 159 (0xA0000-KSTKSIZE) 0xA0000 :=
  ⟨by decide +kernel,by decide +kernel,smallMachine_run 100,by decide +kernel,by decide,
    by decide +kernel,by decide⟩

end boot

end KludgeOS
