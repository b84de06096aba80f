import KludgeOS.UserBytes
import KludgeOS.X86

/-!
The image of a program: `segment_alloc` and `load_icode` (`kern/env.c`) with the contents of
the segments.
-/

namespace KludgeOS
open X86 List Kern
open BitVec (ofNat toNat_add toNat_sub)
open Event (popPage apply)
open Option (map_some bind_eq_bind some)
open Event

def ELF_MAGIC : Word := 0x464C457F
def ELF_PROG_LOAD : Word := 1

/-- The fields of `struct Proghdr` a loader reads. -/
structure Proghdr where
  pType : Word
  pOffset : Word
  pVa : Word
  pFilesz : Word
  pMemsz : Word
  pFlags : Word
  deriving DecidableEq

/-! `struct Elf` and the program headers in the bytes from `binary` up, by offset. -/

def eMagic (binary : ByteMem) : Word := binary.load32 0
def eEntry (binary : ByteMem) : Word := binary.load32 24
def ePhoff (binary : ByteMem) : Word := binary.load32 28
def ePhnum (binary : ByteMem) : BitVec 16 := binary 45 ++ binary 44

def proghdrAt (binary : ByteMem) (a : Word) : Proghdr where
  pType := binary.load32 a
  pOffset := binary.load32 (a+4)
  pVa := binary.load32 (a+8)
  pFilesz := binary.load32 (a+16)
  pMemsz := binary.load32 (a+20)
  pFlags := binary.load32 (a+24)

def SIZEOF_PROGHDR : Nat := 32

def proghdrs (binary : ByteMem) : List Proghdr :=
  (range (ePhnum binary).toNat).map fun i =>
    proghdrAt binary (ePhoff binary+ofNat 32 (SIZEOF_PROGHDR*i))

def loads (binary : ByteMem) : List Proghdr := (proghdrs binary).filter (·.pType = ELF_PROG_LOAD)

namespace Proghdr

variable (ph : Proghdr)

def Holds (a : Word) : Prop := ph.pVa.toNat ≤ a.toNat ∧ a.toNat < ph.pVa.toNat+ph.pMemsz.toNat

/-- The byte the program expects at `a`. -/
def byte (binary : ByteMem) (a : Word) : Byte :=
  if (a-ph.pVa).toNat < ph.pFilesz.toNat then binary (ph.pOffset+(a-ph.pVa)) else 0

def np : Nat := (ph.pMemsz.toNat+4095)/4096

def Allocs (n : Nat) : Prop := PPN ph.pVa ≤ n ∧ n < PPN ph.pVa+ph.np

def Touches (n : Nat) : Prop := ∃ a, ph.Holds a ∧ PPN a = n

def fileBytes (binary : ByteMem) : List Byte :=
  (range ph.pFilesz.toNat).map fun i => binary (ph.pOffset+ofNat 32 i)

end Proghdr

namespace Kern

variable (s : Kern)

/-- One segment of `load_icode`. A copy into a page that is not mapped is a fault of the
kernel. -/
def loadSegment (e : Nat) (binary : ByteMem) (ph : Proghdr) : Option Kern := do
  let s ← s.segmentAlloc e ⟨ph.pVa,ph.pMemsz⟩
  let s ← storeBytes (s.envs e).envPgdir (ph.fileBytes binary) ph.pVa s
  storeBytes (s.envs e).envPgdir (replicate (ph.pMemsz-ph.pFilesz).toNat 0)
    (ph.pVa+ph.pFilesz) s

def loadLoop (e : Nat) (binary : ByteMem) : List Proghdr → Kern → Option Kern
  | [],s => some s
  | ph :: l,s =>
    if ph.pType ≠ ELF_PROG_LOAD then loadLoop e binary l s
    else do
      let s ← s.loadSegment e binary ph
      loadLoop e binary l s

def setEntry (e : Nat) (w : Word) : Kern :=
  s.modEnv e fun v => {v with envTf := {v.envTf with eip := w}}

/-- The end of `load_icode`. The result of `page_insert` is not looked at. -/
def mapStack (e : Nat) : Option Kern := do
  let (some p,s) := s.pageAlloc | none
  let (_,s) ← s.pageInsert (s.envs e).envPgdir p (USTACKTOP-ofNat 32 PGSIZE)
    (PTE_U|||PTE_W|||PTE_P)
  return s

def loadIcode (e : Nat) (binary : ByteMem) : Option Kern :=
  if eMagic binary ≠ ELF_MAGIC then none
  else do
    let s ← loadLoop e binary (proghdrs binary) (s.setEntry e (eEntry binary))
    s.mapStack e

end Kern

def icodeStack : Nat := PPN (USTACKTOP-ofNat 32 PGSIZE)

def loadPages (l : List Proghdr) : List Nat := l.flatMap fun ph => range' (PPN ph.pVa) ph.np

/-- The segments are below `UTOP`, no larger in the file than in memory, and share no byte. -/
structure LoadOk (l : List Proghdr) : Prop where
  below : ∀ ph ∈ l, ph.pVa.toNat+ph.pMemsz.toNat ≤ UTOP.toNat
  sizes : ∀ ph ∈ l, ph.pFilesz.toNat ≤ ph.pMemsz.toNat
  apart : l.Pairwise fun p q => ∀ a, p.Holds a → ¬q.Holds a

/-- Every page with a byte of a segment is mapped for the segment, or was mapped for one before
it (or is in `M`). -/
def Covered (M : Nat → Prop) : List Proghdr → Prop
  | [] => True
  | ph :: l => (∀ n, ph.Touches n → ph.Allocs n ∨ M n) ∧ Covered (fun n => ph.Allocs n ∨ M n) l

def MappedOnce : List Proghdr → Prop
  | [] => True
  | ph :: l => (∀ n, ph.Touches n → n ≠ icodeStack ∧ ∀ q ∈ l, ¬q.Allocs n) ∧ MappedOnce l

/-- A new environment: nothing is mapped below `UTOP`. -/
structure Blank (K : Finset Nat) (s : Kern) (e : Nat) : Prop where
  inv : Inv K NoHand s
  live : s.Live e
  empty : ∀ d < NUPDE, ¬Present (s.pde e d)

def Enough (s : Kern) (ps : List Nat) : Prop :=
  ps.length+(ps.map (·/1024)).toFinset.card ≤ s.pageFreeList.length

def Built (s : Kern) (e : Nat) (binary : ByteMem) : Prop :=
  ∃ s', s.loadIcode e binary = some s' ∧
    ∀ ph ∈ loads binary, ∀ a, ph.Holds a → s'.userByte e a = some (ph.byte binary a)

section pages

variable {K : Finset Nat} {s s' : Kern} {e : Nat}

/-- The tables that pages `ps` lack. -/
def Kern.lacking (s : Kern) (e : Nat) (ps : List Nat) : Finset Nat :=
  (ps.map (·/1024)).toFinset.filter fun d => ¬Present (s.pde e d)

/-- There are free frames for pages `ps` and the tables they lack. -/
def Kern.Room (s : Kern) (e : Nat) (ps : List Nat) : Prop :=
  ps.length+(s.lacking e ps).card ≤ s.pageFreeList.length

variable {ps : List Nat} {P Q : Nat → Prop}

lemma mem_lacking {d : Nat} :
    d ∈ s.lacking e ps ↔ (∃ n ∈ ps, n/1024 = d) ∧ ¬Present (s.pde e d) := by simp [lacking]

structure Loading (K : Finset Nat) (s : Kern) (e : Nat) : Prop where
  inv : Inv K NoHand s
  live : s.Live e
  sole : ∀ n < NUPAGE, ∀ m < NUPAGE, ∀ v w, s.pte e n = some v → s.pte e m = some w →
    PPN v = PPN w → n = m
  writable : ∀ n < NUPAGE, ∀ w, s.pte e n = some w → w&&&PTE_W ≠ 0

/-- Pages in `P` have been mapped, and the bytes of the others are what they were. -/
structure Grew (s s' : Kern) (e : Nat) (P : Nat → Prop) : Prop where
  mapped : ∀ m < NUPAGE, s'.pte e m ≠ none ↔ P m ∨ s.pte e m ≠ none
  bytes : ∀ a, ¬P (PPN a) → s'.userByte e a = s.userByte e a

lemma Blank.unmapped (h : Blank K s e) {n : Nat} (hn : n < NUPAGE) : s.pte e n = none :=
  pte_of_absent (h.empty _ (pde_of_page hn))

lemma Blank.loading (h : Blank K s e) : Loading K s e := by
  refine ⟨h.inv,h.live,fun n hn m _ v w hv => ?_,fun n hn w hw => ?_⟩
  · rw [h.unmapped hn] at hv
    cases hv
  rw [h.unmapped hn] at hw
  cases hw

abbrev loadPerm : Word := PTE_U|||PTE_W|||PTE_P

lemma entry_writable (p : Nat) : entry p loadPerm&&&PTE_W ≠ 0 := by
  intro hc
  have := congrArg (fun w : Word => w.getLsbD 1) hc
  simp [entry,loadPerm,page2pa,PTE_U,PTE_W,PTE_P] at this

lemma free_withTable (s : Kern) (e d : Nat) :
    s.pageFreeList.length ≤ (s.withTable e d).pageFreeList.length+
      if Present (s.pde e d) then 0 else 1 := by
  unfold withTable addTable
  split
  · exact le_rfl
  split
  next hl => simp [hl]
  next hl => simp [hl,withPages]

lemma free_assignPte (s : Kern) (e n : Nat) (w : Word) :
    s.pageFreeList.length ≤ (s.assignPte e n w).pageFreeList.length := by
  simp only [assignPte,withPages]
  cases (s.pte e n).map PPN with
  | none => exact le_rfl
  | some o =>
    simp only [Ledger.recycle]
    split
    · exact Nat.le_succ _
    exact le_rfl

variable {n : Nat} {perm : Word}

lemma fresh_free (h : Inv K NoHand s) (hok : Ok s (.fresh e n false perm)) :
    s.pageFreeList.length ≤ (apply (.fresh e n false perm) s).pageFreeList.length+1+
      if Present (s.pde e (n/1024)) then 0 else 1 := by
  obtain ⟨p,l,hl,_,_,_,_,heq⟩ := fresh_states h hok
  have h1 := free_assignPte ((popPage s false p).withTable e (n/1024)) e n
    (entry p perm)
  have h2 := free_withTable (popPage s false p) e (n/1024)
  have h3 : (popPage s false p).pageFreeList.length = l.length := by
    simp [popPage,withPages,hl]
  have hpde : (popPage s false p).pde e (n/1024) = s.pde e (n/1024) := rfl
  rw [heq,hl,length_cons]
  rw [hpde] at h2
  omega

lemma fresh_pde (h : Inv K NoHand s) (hok : Ok s (.fresh e n false perm)) (d : Nat)
    : Present ((apply (.fresh e n false perm) s).pde e d) ↔ Present (s.pde e d) ∨ d = n/1024 := by
  obtain ⟨p,l,hl,h1,h2,he2,hp2,heq⟩ := fresh_states h hok
  have he1 : (popPage s false p).Live e := hok.1
  rw [heq,pde_assignPte h2 he2 hok.2.1 hp2 _ he2]
  by_cases hd : d = n/1024
  · rw [hd]
    exact ⟨fun _ => .inr rfl,fun _ => hp2⟩
  rw [pde_withTable_ne h1 he1 he1 fun hc => hd hc.2]
  exact ⟨.inl,fun hc => hc.resolve_right hd⟩

lemma Kern.Room.fresh (hr : s.Room e (n :: ps)) (h : Inv K NoHand s) (he : s.Live e)
    (hn : n < NUPAGE) : Ok s (.fresh e n false loadPerm) ∧
    (apply (.fresh e n false loadPerm) s).Room e ps := by
  have hmem : ¬Present (s.pde e (n/1024)) → n/1024 ∈ s.lacking e (n :: ps) :=
    fun hp => mem_lacking.mpr ⟨⟨n,mem_cons_self,rfl⟩,hp⟩
  simp only [Room,length_cons] at hr
  have hok : Ok s (.fresh e n false loadPerm) := by
    cases hl : s.pageFreeList with
    | nil =>
      rw [hl,length_nil] at hr
      omega
    | cons p l =>
      refine ⟨he,hn,by decide,p,l,hl,?_⟩
      by_cases hp : Present (s.pde e (n/1024))
      · exact .inl hp
      refine .inr fun hnil => ?_
      have := Finset.card_pos.mpr ⟨_,hmem hp⟩
      rw [hl,hnil,length_singleton] at hr
      omega
  refine ⟨hok,?_⟩
  have hsub : (apply (.fresh e n false loadPerm) s).lacking e ps ⊆
      (s.lacking e (n :: ps)).erase (n/1024) := by
    intro d hd
    obtain ⟨⟨m,hm,hmd⟩,ha⟩ := mem_lacking.mp hd
    rw [fresh_pde h hok] at ha
    exact Finset.mem_erase.mpr ⟨fun hc => ha (.inr hc),
      mem_lacking.mpr ⟨⟨m,mem_cons_of_mem _ hm,hmd⟩,fun hc => ha (.inl hc)⟩⟩
  have hcard := Finset.card_le_card hsub
  have hfree := fresh_free h hok
  by_cases hp : Present (s.pde e (n/1024))
  · rw [if_pos hp] at hfree
    have := Finset.card_erase_le (s := s.lacking e (n :: ps)) (a := n/1024)
    simp only [Room]
    omega
  rw [if_neg hp] at hfree
  rw [Finset.card_erase_of_mem (hmem hp)] at hcard
  have := Finset.card_pos.mpr ⟨_,hmem hp⟩
  simp only [Room]
  omega

lemma Loading.fresh (h : Loading K s e) (hok : Ok s (.fresh e n false loadPerm)) :
    Loading K (apply (.fresh e n false loadPerm) s) e ∧
      Grew s (apply (.fresh e n false loadPerm) s) e (· = n) := by
  have hpte := fun m (hm : m < NUPAGE) => fresh_pte h.inv hok h.live hm
  have hlive : (apply (.fresh e n false loadPerm) s).Live e :=
    stays_live h.inv hok trivial h.live
  obtain ⟨p,l,hl,_⟩ := hok.2.2.2
  rw [hl,headD_cons] at hpte
  have hlt : p < 2^20 :=
    (h.inv.balanced.free_managed p (by simp [hl])).1.trans_le h.inv.npage_le
  have hent : PPN (entry p loadPerm) = p := by rw [entry,BitVec.or_assoc,PPN_pte hlt (by decide)]
  -- the new frame was free, so no other page is in it
  have hnew : ∀ m < NUPAGE, ∀ w, s.pte e m = some w → PPN w ≠ p := by
    intro m hm w hw hc
    refine h.inv.balanced.not_held (f := p) (by simp [hl]) (.pte e m)
      (pte_mem_slots.mpr ⟨h.live.1,hm⟩) ?_
    rw [holds_pte h.live,hw,← hc]
    rfl
  refine ⟨⟨h.inv.event hok,hlive,?_,?_⟩,⟨?_,?_⟩⟩
  · intro a ha b hb v w hv hw hvw
    rw [hpte a ha] at hv
    rw [hpte b hb] at hw
    by_cases han : a = n
    · rw [if_pos ⟨rfl,han⟩] at hv
      cases hv
      by_cases hbn : b = n
      · rw [han,hbn]
      rw [if_neg fun hc => hbn hc.2] at hw
      exact absurd (hvw.symm.trans hent) (hnew b hb w hw)
    rw [if_neg fun hc => han hc.2] at hv
    by_cases hbn : b = n
    · rw [if_pos ⟨rfl,hbn⟩] at hw
      cases hw
      exact absurd (hvw.trans hent) (hnew a ha v hv)
    rw [if_neg fun hc => hbn hc.2] at hw
    exact h.sole a ha b hb v w hv hw hvw
  · intro a ha w hw
    rw [hpte a ha] at hw
    by_cases han : a = n
    · rw [if_pos ⟨rfl,han⟩] at hw
      cases hw
      exact entry_writable p
    rw [if_neg fun hc => han hc.2] at hw
    exact h.writable a ha w hw
  · intro m hm
    rw [hpte m hm]
    by_cases hmn : m = n
    · simp [hmn]
    simp [hmn]
  intro a ha
  by_cases hau : a < UTOP
  · have hpa := hpte _ (PPN_lt_NUPAGE hau)
    rw [if_neg fun hc => ha hc.2] at hpa
    simp only [userByte,if_pos hau,hpa]
    cases hw : s.pte e (PPN a) with
    | none => rfl
    | some w =>
      have hmem := sameContents h.inv hok (fun _ _ _ _ => by simp) h.live
        (PPN_lt_NUPAGE hau) hw
      simp only [map_some,frameByte,hmem]
  simp only [userByte,if_neg hau]

lemma Grew.trans {s'' : Kern} (h : Grew s s' e P) (h' : Grew s' s'' e Q) :
    Grew s s'' e fun m => P m ∨ Q m where
  mapped m hm := by rw [h'.mapped m hm,h.mapped m hm,← or_assoc,or_comm (a := Q m)]
  bytes a ha := by rw [h'.bytes a fun hc => ha (.inr hc),h.bytes a fun hc => ha (.inl hc)]

lemma Grew.congr (h : Grew s s' e P) (hPQ : ∀ m, P m ↔ Q m) : Grew s s' e Q where
  mapped m hm := by rw [h.mapped m hm,hPQ]
  bytes a ha := h.bytes a fun hc => ha ((hPQ _).mp hc)

lemma pageInsert_room (h : Inv K NoHand s) (he : s.Live e) {va : Word} (hva : va < UTOP)
    (hok : Ok s (.fresh e (PPN va) false loadPerm)) {p : Nat} {q : List Nat}
    (hq : s.pageFreeList = p :: q) :
    ({s with pageFreeList := q} : Kern).pageInsert (s.pgdir e) p va loadPerm =
      some (0,apply (.fresh e (PPN va) false loadPerm) s) := by
  have hplt : p < 2^20 :=
    (h.balanced.free_managed p (by simp [hq])).1.trans_le h.npage_le
  obtain ⟨p',l,hl,_,_,_,hp2,_⟩ := fresh_states h hok
  obtain ⟨rfl,rfl⟩ := List.cons.inj (hq.symm.trans hl)
  rw [← PDX_eq] at hp2
  rw [popPage_false hq]
  have hins : (popPage s false p).pageInsert (s.pgdir e) p va loadPerm = _ :=
    pageInsert_eq (h.popPage hq false) he hva hplt (by decide)
  rw [hins,if_pos hp2]
  simp [apply,hq,PDX_eq]

lemma segmentLoop_spec (n : Nat) : ∀ (v : Word) (s : Kern)
    (ps : List Nat), Loading K s e → v.toNat%4096 = 0 → v.toNat+4096*n < UTOP.toNat+4096 →
    s.Room e (range' (PPN v) n ++ ps) → ∃ s', segmentLoop e n v s = some s' ∧
    Loading K s' e ∧ s'.Room e ps ∧ Grew s s' e fun m => PPN v ≤ m ∧ m < PPN v+n := by
  induction n with
  | zero =>
    intro v s ps h _ _ hr
    exact ⟨s,rfl,h,hr,⟨fun m _ => ⟨.inr,fun hc => hc.resolve_left (by omega)⟩,fun _ _ => rfl⟩⟩
  | succ n ih =>
    intro v s ps h hal hv hr
    have hU : UTOP.toNat = 4005560320 := rfl
    have hlt : v < UTOP := by
      change v.toNat < UTOP.toNat
      omega
    have hnext : (v+ofNat 32 PGSIZE).toNat = v.toNat+4096 := by
      rw [toNat_add,show (ofNat 32 PGSIZE).toNat = 4096 from rfl]
      omega
    have hpage : PPN (v+ofNat 32 PGSIZE) = PPN v+1 := by
      rw [PPN_eq,PPN_eq,hnext]
      omega
    rw [range'_succ,cons_append] at hr
    obtain ⟨hok,hr1⟩ := hr.fresh h.inv h.live (PPN_lt_NUPAGE hlt)
    obtain ⟨h1,hg1⟩ := h.fresh hok
    rw [← hpage] at hr1
    obtain ⟨s2,hs2,h2,hr2,hg2⟩ := ih _ _ ps h1 (by omega) (by omega) hr1
    refine ⟨s2,?_,h2,hr2,(hg1.trans hg2).congr fun m => ?_⟩
    · obtain ⟨p,q,hq,_⟩ := hok.2.2.2
      have hins := pageInsert_room h.inv h.live hlt hok hq
      simp only [segmentLoop,pageAlloc,hq]
      rw [bind_eq_bind,hins]
      exact hs2
    rw [hpage]
    omega

lemma segmentAlloc_spec {ph : Proghdr} (h : Loading K s e) (hb : ph.pVa.toNat+ph.pMemsz.toNat
    ≤ UTOP.toNat) (hr : s.Room e (range' (PPN ph.pVa) ph.np ++ ps)) : ∃ s', s.segmentAlloc
    e ⟨ph.pVa,ph.pMemsz⟩ = some s' ∧ Loading K s' e ∧ s'.Room e ps ∧ Grew s s' e ph.Allocs := by
  have hU : UTOP.toNat = 4005560320 := rfl
  have hva := ph.pVa.isLt
  have hdown : (ph.pVa-ofNat 32 (ph.pVa.toNat%PGSIZE)).toNat = ph.pVa.toNat-ph.pVa.toNat%4096 := by
    rw [toNat_sub,BitVec.toNat_ofNat,PGSIZE_eq]
    omega
  have hpage : PPN (ph.pVa-ofNat 32 (ph.pVa.toNat%PGSIZE)) = PPN ph.pVa := by
    rw [PPN_eq,PPN_eq,hdown]
    omega
  have hlen : (ph.pMemsz+ofNat 32 (PGSIZE-1)).toNat/PGSIZE = ph.np := by
    rw [toNat_add,show (ofNat 32 (PGSIZE-1)).toNat = 4095 from rfl,
      PGSIZE_eq,Proghdr.np,Nat.mod_eq_of_lt (by omega)]
  have hnp : ph.np = (ph.pMemsz.toNat+4095)/4096 := rfl
  obtain ⟨s',hs',h',hr',hg⟩ := segmentLoop_spec ph.np
    (ph.pVa-ofNat 32 (ph.pVa.toNat%PGSIZE)) s ps h (by omega) (by omega)
    (by rw [hpage]; exact hr)
  refine ⟨s',?_,h',hr',hg.congr fun m => by rw [hpage]; rfl⟩
  rw [segmentAlloc]
  simp only [hlen]
  exact hs'

end pages

section copy

variable {K : Finset Nat} {s s' : Kern} {e : Nat}

lemma Loading.stored (h : Loading K s e) (hi : Inv K NoHand s') (hs : SameSpace s s' e) :
    Loading K s' e where
  inv := hi
  live := hs.live
  sole n hn m hm v w hv hw := by
    rw [hs.pte n hn] at hv
    rw [hs.pte m hm] at hw
    exact h.sole n hn m hm v w hv hw
  writable n hn w hw := by
    rw [hs.pte n hn] at hw
    exact h.writable n hn w hw

lemma Kern.Room.stored {ps : List Nat} (h : s.Room e ps) (hps : ∀ n ∈ ps, n < NUPAGE)
    (hs : SameSpace s s' e) (hf : s'.pageFreeList = s.pageFreeList) : s'.Room e ps := by
  have hl : s'.lacking e ps = s.lacking e ps := by
    ext d
    rw [mem_lacking,mem_lacking]
    constructor
    all_goals
      rintro ⟨⟨n,hn,rfl⟩,hd⟩
      refine ⟨⟨n,hn,rfl⟩,?_⟩
    · rwa [hs.pde _ (pde_of_page (hps n hn))] at hd
    rwa [hs.pde _ (pde_of_page (hps n hn))]
  rw [Room,hl,hf]
  exact h

lemma storeBytes_mapped (l : List Byte) : ∀ (va : Word) (s : Kern), Inv K NoHand s →
    s.Live e → va.toNat+l.length ≤ UTOP.toNat → storeBytes (s.pgdir e) l va s = some s' →
    ∀ b : Word, va.toNat ≤ b.toNat → b.toNat < va.toNat+l.length → s.Writable e b := by
  induction l with
  | nil =>
    intro va s _ _ _ _ b h1 h2
    simp only [length_nil] at h2
    omega
  | cons c l ih =>
    intro va s h he hva hs b h1 h2
    have hU : UTOP.toNat = 4005560320 := rfl
    simp only [length_cons] at hva h2
    have hlt : va < UTOP := by
      change va.toNat < UTOP.toNat
      omega
    have hnext : (va+1).toNat = va.toNat+1 := by
      rw [toNat_add,show (1 : Word).toNat = 1 from rfl]
      omega
    obtain ⟨s1,hs1,hs⟩ := of_bind hs
    obtain ⟨f,hf,_⟩ := of_bind hs1
    obtain ⟨w,hw,hwr,_⟩ := storeTarget_pte hf
    obtain ⟨t,ht,hi,hsame,_⟩ := storeByte_user h he hlt ⟨w,hw,hwr⟩ c
    obtain rfl := Option.mem_unique hs1 ht
    by_cases hb : b = va
    · rw [hb]
      exact ⟨w,hw,hwr⟩
    have hne : b.toNat ≠ va.toNat := fun hc => hb (BitVec.eq_of_toNat_eq hc)
    have hblt : b < UTOP := by
      change b.toNat < UTOP.toNat
      omega
    rw [← hsame.pgdir] at hs
    obtain ⟨w',hw',hwr'⟩ := ih (va+1) s1 hi hsame.live (by omega) hs b (by omega) (by omega)
    exact ⟨w',(hsame.pte _ (PPN_lt_NUPAGE hblt)).symm.trans hw',hwr'⟩

lemma Loading.storeBytes (h : Loading K s e) (l : List Byte) (va : Word)
    (hva : va.toNat+l.length ≤ UTOP.toNat)
    (hm : ∀ b : Word, va.toNat ≤ b.toNat → b.toNat < va.toNat+l.length → s.pte e (PPN b) ≠ none) :
    ∃ s', storeBytes (s.pgdir e) l va s = some s' ∧ Loading K s' e ∧ SameSpace s s' e ∧
      s'.pageFreeList = s.pageFreeList ∧
      ∀ a, s'.userByte e a = if va.toNat ≤ a.toNat ∧ a.toNat < va.toNat+l.length
        then some (l.getD (a.toNat-va.toNat) 0) else s.userByte e a := by
  have hU : ∀ b : Word, b.toNat < va.toNat+l.length → b < UTOP := by
    intro b hb
    change b.toNat < UTOP.toNat
    omega
  obtain ⟨s',hs',hi,hsame,hfree,hbyte⟩ := storeBytes_user l va s h.inv h.live hva
    fun b h1 h2 => by
      obtain ⟨w,hw⟩ := Option.ne_none_iff_exists'.mp (hm b h1 h2)
      exact ⟨w,hw,h.writable _ (PPN_lt_NUPAGE (hU b h2)) w hw⟩
  refine ⟨s',hs',h.stored hi hsame,hsame,hfree,fun a => hbyte a fun b _ h2 ha v w hv hw hvw => ?_⟩
  exact h.sole _ (PPN_lt_NUPAGE ha) _ (PPN_lt_NUPAGE (hU b h2)) v w hv hw hvw

end copy

section segment

variable {K : Finset Nat} {s s' : Kern} {e : Nat} {binary : ByteMem} {ph : Proghdr} {ps : List Nat}
  {a : Word}

lemma Proghdr.Holds.sub (h : ph.Holds a) : (a-ph.pVa).toNat = a.toNat-ph.pVa.toNat := by
  have := h.1
  have := a.isLt
  rw [toNat_sub]
  omega

lemma fileBytes_length : (ph.fileBytes binary).length = ph.pFilesz.toNat := by
  simp [Proghdr.fileBytes]

def Proghdr.image (ph : Proghdr) (binary : ByteMem) : List Byte :=
  ph.fileBytes binary ++ replicate (ph.pMemsz-ph.pFilesz).toNat 0

lemma image_length (hsz : ph.pFilesz.toNat ≤ ph.pMemsz.toNat) :
    (ph.image binary).length = ph.pMemsz.toNat := by
  have := ph.pMemsz.isLt
  rw [Proghdr.image,length_append,fileBytes_length,length_replicate,toNat_sub]
  omega

lemma image_getD (h : ph.Holds a) :
    (ph.image binary).getD (a.toNat-ph.pVa.toNat) 0 = ph.byte binary a := by
  have hof : ofNat 32 (a.toNat-ph.pVa.toNat) = a-ph.pVa := by
    rw [← h.sub,BitVec.ofNat_toNat,BitVec.setWidth_eq]
  rw [Proghdr.byte,h.sub,Proghdr.image,getD_eq_getElem?_getD]
  by_cases hf : a.toNat-ph.pVa.toNat < ph.pFilesz.toNat
  · rw [if_pos hf,getElem?_append_left (by rw [fileBytes_length]; exact hf),Proghdr.fileBytes,
      getElem?_map,getElem?_range hf,map_some,Option.getD_some,hof]
  rw [if_neg hf,getElem?_append_right (by rw [fileBytes_length]; omega),
    getElem?_getD_replicate_default_eq]

lemma storeBytes_append {pgdir : Nat} (l l' : List Byte) : ∀ (va : Word) (s : Kern),
    storeBytes pgdir (l++l') va s =
      (storeBytes pgdir l va s).bind (storeBytes pgdir l' (va+ofNat 32 l.length)) := by
  induction l with
  | nil => simp [storeBytes]
  | cons b l ih =>
    intro va s
    simp only [cons_append,storeBytes,bind_eq_bind,Option.bind_assoc,ih]
    have hadd : va+1+ofNat 32 l.length = va+ofNat 32 (b :: l).length := by
      rw [length_cons,BitVec.add_assoc,BitVec.ofNat_add,BitVec.add_comm 1]
      rfl
    rw [hadd]

lemma loadSegment_eq (ph : Proghdr) : s.loadSegment e binary ph = (s.segmentAlloc
    e ⟨ph.pVa,ph.pMemsz⟩).bind fun t => storeBytes (t.pgdir e) (ph.image binary) ph.pVa t := by
  unfold loadSegment
  refine congrArg _ (funext fun t => ?_)
  rw [Proghdr.image,storeBytes_append,fileBytes_length,BitVec.ofNat_toNat,BitVec.setWidth_eq]
  change _ = (storeBytes (t.envs e).envPgdir _ _ _).bind _
  cases ht : storeBytes (t.envs e).envPgdir (ph.fileBytes binary) ph.pVa t with
  | none => rfl
  | some u =>
    simp only [bind_eq_bind,Option.bind_some,(storeBytes_frame _ ht).1]

lemma loadSegment_spec (binary : ByteMem) (h : Loading K s e) (hb : ph.pVa.toNat+ph.pMemsz.toNat ≤
    UTOP.toNat) (hsz : ph.pFilesz.toNat ≤ ph.pMemsz.toNat) (hr : s.Room e (range' (PPN ph.pVa) ph.np
    ++ ps)) (hps : ∀ n ∈ ps, n < NUPAGE) : ((∀ n, ph.Touches n → ph.Allocs n ∨ s.pte e n ≠ none) →
    ∃ s', s.loadSegment e binary ph = some s' ∧ Loading K s' e ∧ s'.Room e ps ∧ (∀ m < NUPAGE,
    s'.pte e m ≠ none ↔ ph.Allocs m ∨ s.pte e m ≠ none) ∧ (∀ a, ph.Holds a → s'.userByte e a = some
    (ph.byte binary a)) ∧ ∀ a, ¬ph.Holds a → ¬ph.Allocs (PPN a) → s'.userByte e a = s.userByte e a)
    ∧ (s.loadSegment e binary ph ≠ none → ∀ n, ph.Touches n → ph.Allocs n ∨ s.pte e n ≠ none) := by
  obtain ⟨s1,hs1,h1,hr1,hg⟩ := segmentAlloc_spec h hb hr
  have hlen : ph.pVa.toNat+(ph.image binary).length = ph.pVa.toNat+ph.pMemsz.toNat := by
    rw [image_length hsz]
  have hpage : ∀ a, ph.Holds a → PPN a < NUPAGE := fun a ha =>
    PPN_lt_NUPAGE (ha.2.trans_le hb)
  refine ⟨fun hcov => ?_,fun hs => ?_⟩
  · obtain ⟨s2,hs2,h2,hsame,hfree,hbyte⟩ := h1.storeBytes (ph.image binary) ph.pVa (hlen ▸ hb)
      fun b hlo hhi =>
        have hb : ph.Holds b := ⟨hlo,hlen ▸ hhi⟩
        (hg.mapped _ (hpage b hb)).mpr (hcov _ ⟨b,hb,rfl⟩)
    rw [hlen] at hbyte
    refine ⟨s2,?_,h2,hr1.stored hps hsame hfree,fun m hm => ?_,fun a ha => ?_,fun a hna hal => ?_⟩
    · rw [loadSegment_eq,hs1]
      exact hs2
    · rw [hsame.pte m hm]
      exact hg.mapped m hm
    · rw [hbyte a,if_pos ⟨ha.1,ha.2⟩,image_getD ha]
    exact (hbyte a).trans ((if_neg hna).trans (hg.bytes a hal))
  rw [loadSegment_eq,hs1] at hs
  obtain ⟨s2,hs2⟩ := Option.ne_none_iff_exists'.mp hs
  rintro n ⟨a,ha,rfl⟩
  obtain ⟨w,hw,_⟩ := storeBytes_mapped _ ph.pVa s1 h1.inv h1.live (hlen ▸ hb) hs2 a ha.1
    (hlen ▸ ha.2)
  refine (hg.mapped _ (hpage a ha)).mp ?_
  rw [hw]
  simp

end segment

section load

variable {K : Finset Nat} {e : Nat} {binary : ByteMem}

lemma loadLoop_filter (l : List Proghdr) : ∀ s : Kern,
    loadLoop e binary l s = loadLoop e binary (l.filter (·.pType = ELF_PROG_LOAD)) s := by
  induction l with
  | nil => exact fun _ => rfl
  | cons ph l ih =>
    intro s
    by_cases ht : ph.pType = ELF_PROG_LOAD
    · rw [filter_cons_of_pos (by simpa using ht)]
      simp only [loadLoop,ne_eq,ht,not_true_eq_false,if_false]
      cases s.loadSegment e binary ph with
      | none => rfl
      | some t => exact ih t
    rw [filter_cons_of_neg (by simpa using ht),loadLoop,if_pos ht]
    exact ih s

variable {l : List Proghdr} {ph : Proghdr} {s s' : Kern}

lemma loadPages_lt (h : LoadOk l) : ∀ n ∈ loadPages l, n < NUPAGE := by
  intro n hn
  obtain ⟨ph,hph,hn⟩ := mem_flatMap.mp hn
  have hb := h.below ph hph
  have hm := mem_range'_1.mp hn
  have hnp : ph.np = (ph.pMemsz.toNat+4095)/4096 := rfl
  rw [PPN_eq] at hm
  rw [show UTOP.toNat = 4005560320 from rfl] at hb
  rw [show NUPAGE = 977920 from rfl]
  omega

lemma LoadOk.tail (h : LoadOk (ph :: l)) : LoadOk l :=
  ⟨fun q hq => h.below q (mem_cons_of_mem _ hq),
    fun q hq => h.sizes q (mem_cons_of_mem _ hq),(pairwise_cons.mp h.apart).2⟩

lemma Proghdr.Touches.lt {n : Nat} (h : ph.Touches n)
    (hb : ph.pVa.toNat+ph.pMemsz.toNat ≤ UTOP.toNat) : n < NUPAGE := by
  obtain ⟨a,ha,rfl⟩ := h
  apply PPN_lt_NUPAGE
  change a.toNat < UTOP.toNat
  have := ha.2
  omega

lemma Covered.congr (h : LoadOk l) :
    ∀ {M N : Nat → Prop}, (∀ n < NUPAGE, M n ↔ N n) → Covered M l → Covered N l := by
  induction l with
  | nil => exact fun _ _ => trivial
  | cons ph l ih =>
    rintro M N hMN ⟨hc,hl⟩
    refine ⟨fun n hn => (hc n hn).imp_right
      (hMN n (hn.lt (h.below ph mem_cons_self))).mp,ih h.tail (fun n hn => ?_) hl⟩
    rw [hMN n hn]

structure Loaded (s s' : Kern) (e : Nat) (binary : ByteMem) (l : List Proghdr) : Prop where
  segs : MappedOnce l → ∀ ph ∈ l, ∀ a, ph.Holds a → s'.userByte e a = some (ph.byte binary a)
  rest : ∀ a, (∀ ph ∈ l, ¬ph.Holds a ∧ ¬ph.Allocs (PPN a)) → s'.userByte e a = s.userByte e a

lemma Loaded.cons {s1 : Kern} (hok : LoadOk (ph :: l)) (hseg : ∀ a, ph.Holds a → s1.userByte e a =
    some (ph.byte binary a)) (hrest : ∀ a, ¬ph.Holds a → ¬ph.Allocs (PPN a) → s1.userByte e a =
    s.userByte e a) (h : Loaded s1 s' e binary l) : Loaded s s' e binary (ph :: l) := by
  constructor
  · rintro ⟨hkept,hk⟩ q hq a ha
    obtain rfl | hq := mem_cons.mp hq
    · -- nothing later is stored to the byte or maps its page again
      rw [h.rest a fun r hr => ⟨(pairwise_cons.mp hok.apart).1 r hr a ha,
        (hkept _ ⟨a,ha,rfl⟩).2 r hr⟩,hseg a ha]
    exact h.segs hk q hq a ha
  intro a ha
  obtain ⟨hna,hal⟩ := ha ph mem_cons_self
  rw [h.rest a fun r hr => ha r (mem_cons_of_mem _ hr),hrest a hna hal]

lemma loadLoop_spec (binary : ByteMem) (l : List Proghdr) : ∀ (s : Kern) (ps : List Nat),
    Loading K s e → LoadOk l → s.Room e (loadPages l ++ ps) → (∀ ph ∈ l, ph.pType = ELF_PROG_LOAD) →
    (∀ n ∈ ps, n < NUPAGE) → (Covered (fun n => s.pte e n ≠ none) l → ∃ s',
    loadLoop e binary l s = some s' ∧ Loading K s' e ∧ s'.Room e ps ∧ Loaded s s' e binary l) ∧
    (loadLoop e binary l s ≠ none → Covered (fun n => s.pte e n ≠ none) l) := by
  induction l with
  | nil =>
    intro s ps h _ hr _ _
    exact ⟨fun _ => ⟨s,rfl,h,hr,⟨fun _ _ hph => (by cases hph),fun _ _ => rfl⟩⟩,fun _ => trivial⟩
  | cons ph l ih =>
    intro s ps h hok hr ht hps
    rw [loadPages,flatMap_cons,append_assoc] at hr
    have hps' : ∀ n ∈ loadPages l ++ ps, n < NUPAGE := by
      intro n hn
      obtain hn | hn := mem_append.mp hn
      · exact loadPages_lt hok.tail n hn
      exact hps n hn
    obtain ⟨hdone,hcovers⟩ := loadSegment_spec binary h (hok.below ph mem_cons_self)
      (hok.sizes ph mem_cons_self) hr hps'
    have hloop : loadLoop e binary (ph :: l) s =
        (s.loadSegment e binary ph).bind (loadLoop e binary l) := by
      rw [loadLoop,if_neg (by simpa using ht ph mem_cons_self)]
      rfl
    have hrest : ∀ {s1 : Kern}, Loading K s1 e → s1.Room e (loadPages l ++ ps) → _ := fun h1 hr1 =>
      ih _ ps h1 hok.tail hr1 (fun q hq => ht q (mem_cons_of_mem _ hq)) hps
    rw [hloop]
    refine ⟨fun hcov => ?_,fun hs => ?_⟩
    · obtain ⟨s1,hs1,h1,hr1,hm1,hseg,hkept⟩ := hdone hcov.1
      obtain ⟨s2,hs2,h2,hr2,hl2⟩ :=
        (hrest h1 hr1).1 (hcov.2.congr hok.tail fun n hn => (hm1 n hn).symm)
      rw [hs1]
      exact ⟨s2,hs2,h2,hr2,.cons hok hseg hkept hl2⟩
    have hcov := hcovers fun hc => hs (by rw [hc]; rfl)
    obtain ⟨s1,hs1,h1,hr1,hm1,_⟩ := hdone hcov
    rw [hs1] at hs
    exact ⟨hcov,((hrest h1 hr1).2 hs).congr hok.tail hm1⟩

lemma MappedOnce.off_stack (h : MappedOnce l) : ∀ ph ∈ l, ∀ a, ph.Holds a → PPN a ≠ icodeStack := by
  induction l with
  | nil => exact fun _ hph => by cases hph
  | cons q l ih =>
    intro ph hph a ha
    obtain rfl | hph := mem_cons.mp hph
    · exact (h.1 _ ⟨a,ha,rfl⟩).1
    exact ih h.2 ph hph a ha

lemma Blank.entry (h : Blank K s e) (w : Word) : Blank K (s.setEntry e w) e := by
  have hok : Ok s (.edit e (.entry w)) := trivial
  have hs := sameSpace h.inv hok h.live (by simp [env])
  refine ⟨h.inv.event hok,hs.live,fun d hd => ?_⟩
  have := hs.pde d hd
  exact fun hc => h.empty d hd (this ▸ hc)

lemma Enough.room {ps : List Nat} (h : Enough s ps) : s.Room e ps :=
  Nat.le_trans (Nat.add_le_add_left (Finset.card_filter_le _ _) _) h

lemma mapStack_ok (h : Loading K s e) (hr : s.Room e [icodeStack]) :
    ∃ s', s.mapStack e = some s' ∧ Grew s s' e (· = icodeStack) := by
  obtain ⟨hok,_⟩ := hr.fresh h.inv h.live (by decide)
  obtain ⟨_,hg⟩ := h.fresh hok
  obtain ⟨p,q,hq,_⟩ := hok.2.2.2
  have hins := pageInsert_room h.inv h.live
    (show USTACKTOP-ofNat 32 PGSIZE < UTOP by decide) hok hq
  refine ⟨_,?_,hg⟩
  simp only [mapStack,pageAlloc,hq]
  rw [bind_eq_bind,hins]
  rfl

end load

/-- With frames enough, `load_icode` makes no fault exactly when every page of a segment is mapped
for it or for one before it. -/
theorem loadIcode_built {K : Finset Nat} {s : Kern} {e : Nat} (h : Blank K s e)
    (binary : ByteMem) (hmagic : eMagic binary = ELF_MAGIC) (hok : LoadOk (loads binary))
    (henough : Enough s (loadPages (loads binary) ++ [icodeStack])) :
    ((∃ s', s.loadIcode e binary = some s') ↔ Covered (fun _ => False) (loads binary)) ∧
    (Covered (fun _ => False) (loads binary) ∧ MappedOnce (loads binary) → Built s e binary) := by
  have hb := h.entry (eEntry binary)
  have hroom : (s.setEntry e (eEntry binary)).Room e (loadPages (loads binary) ++ [icodeStack]) :=
    Enough.room (s := s.setEntry e (eEntry binary)) henough
  have hnone : ∀ n < NUPAGE, (False ↔ (s.setEntry e (eEntry binary)).pte e n ≠ none) :=
    fun n hn => ⟨False.elim,fun hc => hc (hb.unmapped hn)⟩
  have htype : ∀ ph ∈ loads binary, ph.pType = ELF_PROG_LOAD := by
    intro ph hph
    simpa using (mem_filter.mp hph).2
  have hstack : ∀ n ∈ [icodeStack], n < NUPAGE := by decide
  have hloop := loadLoop_spec binary (loads binary) _ [icodeStack] hb.loading hok hroom htype
    hstack
  have hrun : Covered (fun _ => False) (loads binary) →
      ∃ s1 s2, s.loadIcode e binary = some s2 ∧ Grew s1 s2 e (· = icodeStack) ∧
        Loaded (s.setEntry e (eEntry binary)) s1 e binary (loads binary) := by
    intro hcov
    obtain ⟨s1,hs1,h1,hr1,hl1⟩ := hloop.1 (hcov.congr hok hnone)
    obtain ⟨s2,hs2,hg⟩ := mapStack_ok h1 hr1
    rw [loads,← loadLoop_filter] at hs1
    refine ⟨s1,s2,?_,hg,hl1⟩
    rw [loadIcode,if_neg (not_not_intro hmagic),hs1]
    exact hs2
  refine ⟨⟨?_,fun hcov => ?_⟩,?_⟩
  · rintro ⟨s',hs'⟩
    rw [loadIcode,if_neg (not_not_intro hmagic)] at hs'
    obtain ⟨s1,hs1,_⟩ := of_bind hs'
    rw [loadLoop_filter] at hs1
    exact (hloop.2 fun hc => by rw [loads,hs1] at hc; contradiction).congr hok
      fun n hn => (hnone n hn).symm
  · obtain ⟨_,s2,hs2,_⟩ := hrun hcov
    exact ⟨s2,hs2⟩
  rintro ⟨hcov,hkept⟩
  obtain ⟨s1,s2,hs2,hg,hl⟩ := hrun hcov
  refine ⟨s2,hs2,fun ph hph a ha => ?_⟩
  rw [hg.bytes a (hkept.off_stack ph hph a ha)]
  exact hl.segs hkept ph hph a ha

lemma envAlloc_blank {K : Finset Nat} {s s' : Kern} {e : Nat} (h : Inv K NoHand s)
    (hs : s.envAlloc 0 = some (.ok e,s')) : Blank K s' e := by
  rw [envAlloc_eq h] at hs
  cases hf : s.envFreeList with
  | nil => simp [hf] at hs
  | cons f l =>
    by_cases hq : s.pageFreeList = []
    · simp [hf,hq] at hs
    simp only [hf,if_neg hq,some.injEq,Prod.mk.injEq,Except.ok.injEq] at hs
    obtain ⟨rfl,rfl⟩ := hs
    have hok : Ok s (.spawn 0) := ⟨by simp [hf],hq⟩
    have hlt := ((h.table.free_iff f).mp (by simp [hf])).1
    refine ⟨h.event hok,?_,fun d hd => ?_⟩
    · simp only [apply,hf,headD_cons]
      exact live_spawn hlt
    simp only [apply,hf,headD_cons]
    exact pde_spawn_low h hd

/-- A program with these headers and the bytes `data` after them. -/
def elfOf (phs : List Proghdr) (data : List Byte) : ByteMem :=
  ByteMem.put (fun _ => 0) 0
    (([ELF_MAGIC,0,0,0,0,0,0x800000,52,0,0,0,ofNat 32 phs.length,0] ++
      phs.flatMap fun ph => [ph.pType,ph.pOffset,ph.pVa,0,ph.pFilesz,ph.pMemsz,ph.pFlags,0]).flatMap
        ByteMem.bytes ++ data)

def plainElf : ByteMem := elfOf [⟨1,84,0x800000,4,8,0⟩] [1,2,3,4]

def straddlingElf : ByteMem := elfOf [⟨1,84,0x800FFC,8,8,0⟩] [1,2,3,4,5,6,7,8]

def sharingElf : ByteMem := elfOf [⟨1,116,0x800000,4,4,0⟩,⟨1,120,0x800008,4,4,0⟩] [1,2,3,4,5,6,7,8]

lemma boot_blank : ∃ s : Kern, (bootKern 8).envAlloc 0 = some (.ok 0,s) ∧ Blank {0} s 0 ∧
    s.pageFreeList.length = 6 := by
  have hrun : ((bootKern 8).envAlloc 0).map (fun r =>
      decide (r.1.toOption = some 0 ∧ r.2.pageFreeList.length = 6)) = some true := by decide +kernel
  obtain ⟨⟨r,s⟩,hs,hr,hfree⟩ := of_map_decide hrun
  cases r with
  | error _ => exact absurd hr (by simp [Except.toOption])
  | ok e =>
    obtain rfl : e = 0 := some.inj hr
    exact ⟨s,hs,envAlloc_blank (boot_bootKern (by decide) (by decide)).good.inv hs,hfree⟩

lemma Proghdr.Touches.single {ph : Proghdr} {n : Nat} (h : ph.Touches n)
    (hone : ph.pVa.toNat%4096+ph.pMemsz.toNat ≤ 4096) : n = PPN ph.pVa := by
  obtain ⟨a,⟨h1,h2⟩,rfl⟩ := h
  rw [PPN_eq,PPN_eq]
  omega

theorem loadIcode_built_plain : ∃ s : Kern, Blank {0} s 0 ∧ Built s 0 plainElf := by
  obtain ⟨s,_,hb,hfree⟩ := boot_blank
  have hloads : loads plainElf = [⟨1,84,0x800000,4,8,0⟩] := by decide +kernel
  refine ⟨s,hb,(loadIcode_built hb plainElf (by decide +kernel) ?_ ?_).2 ?_⟩
  · rw [hloads]
    exact ⟨by decide,by decide,pairwise_singleton _ _⟩
  · rw [hloads,Enough,hfree]
    decide
  rw [hloads]
  have htouch : ∀ n, Proghdr.Touches ⟨1,84,0x800000,4,8,0⟩ n → n = 2048 :=
    fun n hn => hn.single (by decide)
  refine ⟨⟨fun n hn => .inl ?_,trivial⟩,⟨fun n hn => ⟨?_,fun q hq => (nomatch hq)⟩,trivial⟩⟩
  · rw [htouch n hn]
    exact ⟨by decide,by decide⟩
  rw [htouch n hn]
  decide

/-- A segment that crosses a page boundary further than its length makes the kernel fault. -/
theorem loadIcode_not_built : ∃ s : Kern, Blank {0} s 0 ∧
    (LoadOk (loads straddlingElf) ∧ Enough s (loadPages (loads straddlingElf) ++ [icodeStack]) ∧
    s.loadIcode 0 straddlingElf = none) ∧ LoadOk (loads sharingElf) ∧
    Enough s (loadPages (loads sharingElf) ++ [icodeStack]) ∧ ¬Built s 0 sharingElf := by
  obtain ⟨s,hs,hb,hfree⟩ := boot_blank
  have hstraddling : loads straddlingElf = [⟨1,84,0x800FFC,8,8,0⟩] := by decide +kernel
  have hsharing : loads sharingElf = [⟨1,116,0x800000,4,4,0⟩,⟨1,120,0x800008,4,4,0⟩] := by
    decide +kernel
  have hnone : ((bootKern 8).envAlloc 0).map (fun r => (r.2.loadIcode 0 straddlingElf).isNone) =
      some true := by decide +kernel
  have hlost : ((bootKern 8).envAlloc 0).map (fun r =>
      (r.2.loadIcode 0 sharingElf).map fun t => t.userByte 0 0x800000) = some (some (some 0)) := by
    decide +kernel
  simp only [hs,map_some,some.injEq] at hnone hlost
  refine ⟨s,hb,⟨?_,?_,Option.isNone_iff_eq_none.mp hnone⟩,?_,?_,?_⟩
  · rw [hstraddling]
    exact ⟨by decide,by decide,pairwise_singleton _ _⟩
  · rw [hstraddling,Enough,hfree]
    decide
  · rw [hsharing]
    refine ⟨by decide,by decide,pairwise_pair.mpr fun a h1 h2 => ?_⟩
    have hlt : a.toNat < 0x800000+4 := h1.2
    have hle : 0x800008 ≤ a.toNat := h2.1
    omega
  · rw [hsharing,Enough,hfree]
    decide
  rintro ⟨t,ht,hbuilt⟩
  have hbyte := hbuilt ⟨1,116,0x800000,4,4,0⟩ (by rw [hsharing]; exact mem_cons_self)
    0x800000 ⟨by decide,by decide⟩
  simp only [ht,map_some,some.injEq] at hlost
  rw [hlost] at hbyte
  exact absurd (some.inj hbyte) (by decide +kernel)

end KludgeOS
