import KludgeOS.Kernel

/-!
Physical pages and page tables (`kern/pmap.c`), on one processor: the branches
taken only when `ismp` is set are left out. A result of `none` is a panic, a
failed assertion or a fault in kernel mode.
-/

namespace KludgeOS
namespace Kern

/-- The frame a physical address lies in, when `KADDR` and `pa2page` accept it. -/
def pa2page (s : Kern) (pa : Word) : Option Nat :=
  if PPN pa < s.npage then some (PPN pa) else none

def pageAlloc (s : Kern) : Option Nat × Kern :=
  match s.pageFreeList with
  | [] => (none,s)
  | pp :: l => (some pp,{s with pageFreeList := l})

def pageFree (s : Kern) (pp : Nat) : Option Kern :=
  if s.ppRef pp = 0 then some {s with pageFreeList := pp :: s.pageFreeList} else none

def pageDecref (s : Kern) (pp : Nat) : Option Kern :=
  if 0 < s.ppRef pp then
    let s := {s with ppRef := Function.update s.ppRef pp (s.ppRef pp-1)}
    if s.ppRef pp = 0 then s.pageFree pp else some s
  else none

/-- A `pte_t *`: entry `idx` of the table in frame `frame`. -/
structure PtePtr where
  frame : Nat
  idx : Nat
  deriving DecidableEq

/-- The last two lines of `pgdir_walk`, reached with the directory entry present. -/
def walkTable (s : Kern) (pgdir : Nat) (va : Word) : Option (Option PtePtr × Kern) := do
  let p ← s.pa2page (PTE_ADDR (s.mem pgdir (PDX va)))
  return (some ⟨p,PTX va⟩,s)

def pgdirWalk (s : Kern) (pgdir : Nat) (va : Word) (create : Bool) :
    Option (Option PtePtr × Kern) :=
  if Present (s.mem pgdir (PDX va)) then s.walkTable pgdir va
  else if create = false then some (none,s)
  else match s.pageAlloc with
    | (none,s) => some (none,s)
    | (some pg,s) => do
      let k ← s.pa2page (page2pa pg)
      let s := s.fillFrame k fun _ => 0
      let s := s.setWord pgdir (PDX va) (page2pa pg|||PTE_U|||PTE_W|||PTE_P)
      let s := s.incRef pg
      s.walkTable pgdir va

def pageLookup (s : Kern) (pgdir : Nat) (va : Word) : Option (Option (Nat × PtePtr) × Kern) := do
  let (p,s) ← s.pgdirWalk pgdir va false
  match p with
  | none => return (none,s)
  | some p =>
    if Present (s.mem p.frame p.idx) then
      let pp ← s.pa2page (s.mem p.frame p.idx)
      return (some (pp,p),s)
    else return (none,s)

def pageRemove (s : Kern) (pgdir : Nat) (va : Word) : Option Kern := do
  let (r,s) ← s.pageLookup pgdir va
  match r with
  | none => return s
  | some (pp,p) =>
    let s ← s.pageDecref pp
    return s.setWord p.frame p.idx 0

def pageInsert (s : Kern) (pgdir pp : Nat) (va perm : Word) : Option (Int × Kern) := do
  let (p,s) ← s.pgdirWalk pgdir va true
  match p with
  | none => return (-E_NO_MEM,s)
  | some p =>
    let s := s.incRef pp
    let s ← if Present (s.mem p.frame p.idx) then s.pageRemove pgdir va else some s
    return (0,s.setWord p.frame p.idx (page2pa pp|||perm|||PTE_P))

/-- The loop of `boot_map_segment`: `n` pages are left, the next is number `i`. A null
table pointer is written through, which faults. -/
def bootMapLoop (pgdir : Nat) (pa perm : Word) : Nat → Nat → Word → Kern → Option Kern
  | 0,_,_,s => some s
  | n+1,i,la,s => do
    let (p,s) ← s.pgdirWalk pgdir la true
    let p ← p
    let s := s.setWord p.frame p.idx ((pa+BitVec.ofNat 32 (PGSIZE*i))|||perm|||PTE_P)
    bootMapLoop pgdir pa perm n (i+1) (la+BitVec.ofNat 32 PGSIZE) s

def bootMapSegment (s : Kern) (pgdir : Nat) (la size pa perm : Word) : Option Kern :=
  bootMapLoop pgdir pa perm (size.toNat/PGSIZE) 0 la s

end Kern

/-- What the two-level table of directory `pgdir` says about page `pn`: its entry, if
both levels are present. -/
def xlate (m : Mem) (pgdir pn : Nat) : Option Word :=
  if Present (m pgdir (pn/1024)) then
    if Present (m (PPN (m pgdir (pn/1024))) (pn%1024)) then
      some (m (PPN (m pgdir (pn/1024))) (pn%1024))
    else none
  else none

variable {m m' : Mem} {pgdir pn : Nat}

lemma xlate_of_absent (h : ¬Present (m pgdir (pn/1024))) : xlate m pgdir pn = none := if_neg h

lemma xlate_of_present (h : Present (m pgdir (pn/1024))) : xlate m pgdir pn =
      if Present (m (PPN (m pgdir (pn/1024))) (pn%1024)) then
        some (m (PPN (m pgdir (pn/1024))) (pn%1024)) else none := if_pos h

abbrev IsWindow (d : Nat) : Prop := d = PDX VPT ∨ d = PDX UVPT

structure DirOk (m : Mem) (pgdir : Nat) : Prop where
  window : ∀ d, IsWindow d → Present (m pgdir d) → PPN (m pgdir d) = pgdir
  table_ne : ∀ d < NPDENTRIES, ¬IsWindow d → Present (m pgdir d) → PPN (m pgdir d) ≠ pgdir
  table_inj : ∀ d < NPDENTRIES, ∀ d' < NPDENTRIES, ¬IsWindow d → ¬IsWindow d' →
    Present (m pgdir d) → Present (m pgdir d') → PPN (m pgdir d') = PPN (m pgdir d) → d' = d

lemma DirOk.congr (h : DirOk m pgdir) (hm : m' pgdir = m pgdir) : DirOk m' pgdir :=
  ⟨by rw [hm]; exact h.window,by rw [hm]; exact h.table_ne,by rw [hm]; exact h.table_inj⟩

lemma xlate_congr (hd : m' pgdir (pn/1024) = m pgdir (pn/1024))
    (ht : Present (m pgdir (pn/1024)) → m' (PPN (m pgdir (pn/1024))) (pn%1024) =
    m (PPN (m pgdir (pn/1024))) (pn%1024)) : xlate m' pgdir pn = xlate m pgdir pn := by
  unfold xlate
  rw [hd]
  by_cases h : Present (m pgdir (pn/1024))
  · simp only [if_pos h,ht h]
  simp only [if_neg h]

end KludgeOS
