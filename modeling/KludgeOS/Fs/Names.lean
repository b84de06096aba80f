import KludgeOS.Fs.Slots

/-!
What a path names on the words of a disk.
-/

namespace KludgeOS
open Fs List BitVec

namespace Mem

/-- The number of block `j` of `f`, and zero if `f` has no such block. -/
def blockOf (m : Mem) (f : Ptr) (j : Nat) : Word :=
  if j < NDIRECT then m.word (f.direct j)
  else if m.word f.indirect = 0 then 0
  else m.word ⟨(m.word f.indirect).toNat,j⟩

/-- The entry for `name` in blocks `i`, `i+1`, … of `d`, `n` of them. A block that `d` does not have
ends the search. -/
def scan (m : Mem) (d : Ptr) (name : List Byte) : (n i : Nat) → Option Ptr
  | 0,_ => none
  | n+1,i =>
    if m.blockOf d i = 0 then none
    else
      match findEntry (m (m.blockOf d i).toNat) name with
      | some k => some ⟨(m.blockOf d i).toNat,64*k⟩
      | none => m.scan d name n (i+1)

def entry (m : Mem) (d : Ptr) (name : List Byte) : Option Ptr :=
  m.scan d name ((m.word d.size).sdiv 4096).toNat 0

/-- The file that `path` names from `f` on, of at most `n` elements. -/
def walk (m : Mem) (f : Ptr) : (n : Nat) → (path : List Byte) → Option Ptr
  | 0,_ => some f
  | n+1,path =>
    if path = [] then some f
    else
      let name := path.takeWhile (· != slash)
      let path := skipSlash (path.dropWhile (· != slash))
      if MAXNAMELEN ≤ name.length ∨ m.word f.type ≠ FTYPE_DIR then none
      else (m.entry f name).bind fun g => m.walk g n path

def dirs (m : Mem) (f : Ptr) : (n : Nat) → (path : List Byte) → List Ptr
  | 0,_ => []
  | n+1,path =>
    if path = [] then []
    else
      let name := path.takeWhile (· != slash)
      let path := skipSlash (path.dropWhile (· != slash))
      f :: match m.entry f name with
        | none => []
        | some g => m.dirs g n path

def resolve (m : Mem) (path : List Byte) : Option Ptr :=
  m.walk rootFile path.length (skipSlash path)

def dirsOf (m : Mem) (path : List Byte) : List Ptr := m.dirs rootFile path.length (skipSlash path)

variable {m : Mem} {f d g : Ptr} {name : List Byte} {i j n : Nat}

lemma blockOf_slot (h : m.blockOf f j ≠ 0) (hj : j < NINDIRECT) :
    ∃ p, BlockSlot m f (place j) p ∧ m.word p = m.blockOf f j := by
  unfold blockOf at h ⊢
  split at h
  · rename_i hlt
    rw [place,if_pos hlt,if_pos hlt]
    exact ⟨_,.direct hlt,rfl⟩
  rename_i hge
  split at h
  · contradiction
  rename_i hind
  rw [place,if_neg hge,if_neg hge,if_neg hind]
  exact ⟨_,.entry hind hj,rfl⟩

lemma scan_spec (n : Nat) : ∀ {i : Nat}, m.scan d name n i = some g →
    ∃ j k, i ≤ j ∧ j < i+n ∧ m.blockOf d j ≠ 0 ∧ k < BLKFILES ∧ g = ⟨(m.blockOf d j).toNat,64*k⟩ := by
  induction n with
  | zero => intro i h; simp [scan] at h
  | succ n ih =>
    intro i h
    unfold scan at h
    split at h
    · cases h
    rename_i h0
    split at h
    · rename_i k hk
      cases h
      exact ⟨i,k,le_rfl,by omega,h0,mem_range.mp (mem_of_find?_eq_some hk),rfl⟩
    obtain ⟨j,k,hj,hlt,h⟩ := ih h
    exact ⟨j,k,by omega,by omega,h⟩

end Mem

/-- `f` is `n` directories below the root. -/
inductive Depth (m : Mem) : Ptr → Nat → Prop where
  | root : Depth m rootFile 0
  | entry {d p : Ptr} {pl : Place} {k n : Nat} : Depth m d n → m.word d.type = FTYPE_DIR →
      BlockSlot m d pl p → pl.Data → m.word p ≠ 0 → k < BLKFILES →
      Depth m ⟨(m.word p).toNat,64*k⟩ (n+1)

namespace Depth

variable {m : Mem} {f g p : Ptr} {pl : Place} {n k : Nat}

lemma isFile (h : Depth m f n) : IsFile m f := by
  induction h with
  | root => exact .root
  | entry _ hdir hp hdata h0 hk ih => exact .entry ih hdir hp hdata h0 hk

lemma unique (ho : Owned m) (h : Depth m f n) : ∀ {k}, Depth m f k → n = k := by
  induction h with
  | root =>
    intro k h'
    generalize hr : rootFile = f at h'
    cases h' with
    | root => rfl
    | @entry _ _ _ k _ _ _ _ _ _ _ =>
      have : 2 = 64*k := (Ptr.mk.inj hr).2
      omega
  | @entry d p pl k n hd _ hp _ h0 _ ih =>
    intro k' h'
    generalize hr : (⟨(m.word p).toNat,64*k⟩ : Ptr) = f at h'
    cases h' with
    | root =>
      have : 64*k = 2 := (Ptr.mk.inj hr).2
      omega
    | entry hd' _ hp' _ _ _ =>
      have hw := eq_of_toNat_eq (Ptr.mk.inj hr).1
      obtain rfl := ho.inj _ _ _ _ _ _ hd.isFile hd'.isFile hp hp' h0 hw
      obtain ⟨rfl,_⟩ := ho.spread.slot_inj hd.isFile hd'.isFile hp hp'
      rw [ih hd']

lemma inside (ho : Owned m) (hf : Depth m f n) (hp : BlockSlot m f pl p) (h0 : m.word p ≠ 0)
    (hg : Depth m g k) (hblk : g.blk = (m.word p).toNat) : k = n+1 := by
  cases hg with
  | root => exact absurd hblk.symm (ho.blk_ne_one hf.isFile hp h0)
  | entry hd _ hp' _ h0' _ =>
    obtain rfl := ho.inj _ _ _ _ _ _ hd.isFile hf.isFile hp' hp h0' (eq_of_toNat_eq hblk)
    obtain ⟨rfl,_⟩ := ho.spread.slot_inj hd.isFile hf.isFile hp' hp
    rw [hd.unique ho hf]

lemma of_block {d : Ptr} {j : Nat} (hd : Depth m d n) (hdir : m.word d.type = FTYPE_DIR)
    (h0 : m.blockOf d j ≠ 0) (hj : j < NINDIRECT) (hk : k < BLKFILES) :
    Depth m ⟨(m.blockOf d j).toNat,64*k⟩ (n+1) := by
  obtain ⟨p,hp,hw⟩ := Mem.blockOf_slot h0 hj
  rw [← hw] at h0 ⊢
  exact .entry hd hdir hp (place_data j) h0 hk

end Depth

end KludgeOS
