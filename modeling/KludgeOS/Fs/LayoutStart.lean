import KludgeOS.Fs.LayoutTree

/-!
The image that is started with: a bitmap, and an empty root directory.
-/

namespace KludgeOS
open BitVec Function Fs Mem

/-! The bitmap. -/

lemma ones_shift (k : Nat) {r : Nat} (hr : r < 32) :
    ((0xFFFFFFFF : Word) <<< k).getLsbD r = decide (k ≤ r) := by
  have hall : ∀ j : Fin 32, (0xFFFFFFFF#32).getLsbD j := by decide
  rw [getLsbD_shiftLeft]
  by_cases hk : k ≤ r
  · have : ¬r < k := by omega
    simp [hr,hk,this]
    exact hall ⟨r-k,by omega⟩
  have : r < k := by omega
  simp [hk,this]

lemma bitmapOf_bit {next n i r : Nat} (hi : i < 1024) (hr : r < 32) :
    (bitmapOf next n i).getLsbD r = decide (next ≤ 32*i+r ∧ 32*i+r < n) := by
  simp only [bitmapOf,if_pos hi,getLsbD_and,getLsbD_not,ones_shift _ hr]
  rw [Bool.eq_iff_iff]
  simp [hr]
  omega

lemma bitmapOf_use {next n : Nat} (hn : next < 32768) : bitmapOf (next+1) n =
    update (bitmapOf next n) (next/32) (bitmapOf next n (next/32)&&&~~~bit (next%32)) := by
  funext i
  by_cases hi : i < 1024
  · apply eq_of_getLsbD_eq
    intro r hr
    rw [bitmapOf_bit hi hr]
    by_cases hin : i = next/32
    · subst hin
      rw [update_self,getLsbD_and,bitmapOf_bit hi hr,getLsbD_not,
        bit_getLsbD _ _ (Nat.mod_lt next (by decide : 0 < 32))]
      rw [Bool.eq_iff_iff]
      simp [hr]
      omega
    rw [update_of_ne hin,bitmapOf_bit hi hr]
    congr 1
    rw [eq_iff_iff]
    omega
  rw [update_of_ne (by omega)]
  simp [bitmapOf,hi]

namespace Layout

variable {n i : Nat}

lemma superOf_zero (hi : 2 < i) (h : i ≠ 35) : superOf n i = 0 := by
  rw [superOf,strcpy_apart _ (.inr (by change 8+1 < 4*i; omega))]
  simp [h,show i ≠ 0 by omega,show i ≠ 1 by omega]

lemma start_root (hi : i < 64) : (start n).mem.word (rootFile.off i) = superOf n (2+i) := by
  have hoff : rootFile.off i = ⟨1,2+i⟩ := by
    simp only [rootFile,Ptr.off,Ptr.mk.injEq]
    omega
  rw [hoff]
  simp [word,start,show 2+i < 66 by omega]

lemma start_shaped : Shaped (start n).mem rootFile 0 :=
  shaped_zero fun i hi hi' => by
    rw [start_root (by omega)]
    exact superOf_zero (by omega) (by omega)

lemma start_dir : (start n).mem.word rootFile.type = FTYPE_DIR := by
  rw [Ptr.type,start_root (by decide),superOf,strcpy_apart _ (.inr (by decide))]
  simp

lemma start_magic : (start n).mem.word ⟨1,0⟩ = FS_MAGIC := by
  change superOf n 0 = _
  rw [superOf,strcpy_apart _ (.inl (by decide))]
  simp

lemma start_nblocks (hn : n ≤ 1024) : (start n).mem.nblocks = n := by
  have hone : superOf n 1 = BitVec.ofNat 32 n := by
    rw [superOf,strcpy_apart _ (.inl (by decide))]
    simp
  change (superOf n 1).toNat = n
  rw [hone,toNat_ofNat]
  omega

lemma start_isFree {x : Nat} (hx : x < 32768) :
    (start n).mem.isFree x = decide (3 ≤ x ∧ x < n) := by
  have hat : bitmapAt (x/32) = ⟨2,x/32⟩ := by
    simp only [bitmapAt,Ptr.mk.injEq]
    omega
  rw [isFree,hat]
  change (bitmapOf 3 n (x/32)).getLsbD (x%32) = _
  rw [bitmapOf_bit (by omega) (Nat.mod_lt _ (by decide)),Nat.div_add_mod]

lemma start_built (h3 : 3 ≤ n) (hn : n ≤ 1024) : Built (start n) {rootFile} := by
  have hd : NDIRECT = 10 := rfl
  have hnb := start_nblocks hn
  have hres : (start n).mem.nreserved = 3 := by
    rw [nreserved,hnb]
    omega
  have hshape := start_shaped (n := n)
  -- No slot has a number.
  have hnone : ∀ pl p, BlockSlot (start n).mem rootFile pl p → (start n).mem.word p = 0 := by
    intro pl p hp
    by_contra h0
    have := (hshape.slots pl p hp).mp h0
    cases pl <;> simp [Place.Needed] at this
  have hplaced : Placed (start n).mem rootFile := .inl rfl
  refine ⟨⟨⟨⟨?_,?_,?_,?_⟩,rfl,?_,?_,?_,?_,?_,?_⟩,?_,?_,?_,?_,?_,?_,?_⟩,?_,?_⟩
  · rintro f rfl
    exact hplaced
  · rintro f rfl pl p hp h0
    exact absurd (hnone pl p hp) h0
  · rintro f rfl g rfl pl ql p q hp hq h0
    exact absurd (hnone pl p hp) h0
  · rintro f rfl hr
    exact absurd rfl hr
  · rintro f rfl _ pl p hp _ h0
    exact absurd (hnone pl p hp) h0
  · rintro f rfl pl p hp
    change ((start n).mem.word p).toNat ≠ 1
    rw [hnone pl p hp]
    decide
  · exact fun f hf => absurd hf (Set.notMem_empty f)
  · rintro f rfl hr
    exact absurd rfl hr
  · intro b hb
    refine ⟨?_,fun _ => hb⟩
    change b < (start n).mem.nreserved at hb
    change (start n).mem.isFree b = false
    rw [start_isFree (by omega)]
    simp
    omega
  · change (start n).mem.nreserved ≤ (start n).mem.nblocks ∧ (start n).mem.nblocks ≤ _
    rw [hres,hnb]
    exact ⟨h3,hn.trans (by decide)⟩
  · rintro g rfl
    exact .root
  · rintro f rfl g rfl ht
    exact absurd start_dir ht
  · rw [hnb]
    exact hn
  · rw [hnb]
    exact h3
  · intro x hx
    rw [hnb] at hx
    rw [start_isFree (by omega)]
    simp [hx,start]
  · exact fun b hb => absurd hb (Set.notMem_empty b)
  · intro b hb hlt
    change b < 3 at hlt
    omega
  · rintro g rfl
    refine ⟨0,hshape,fun _ => ?_⟩
    rw [Ptr.size,start_root (by decide),superOf_zero (by decide) (by decide)]
    rfl
  rintro g rfl hnamed
  refine absurd ?_ hnamed
  have hname : nameIs ((start n).mem.record rootFile) [slash] := by
    have hrec : ∀ i < 32, (start n).mem.record rootFile i = superOf n (2+i) := by
      intro i hi
      rw [hplaced.record _ (by omega),start_root (by omega)]
    rw [nameIs_congr (by decide) hrec]
    exact nameIs_strcpy _ 2 _
  exact named_of_nameIs hname (by simp) (by decide)

lemma start_filed : Filed (start n).mem [] := by
  refine ⟨by simp,fun f hf => ?_⟩
  obtain ⟨j,hj,h0,_⟩ := hf
  have := (start_shaped.blockOf hj).mp h0
  omega

end Layout

end KludgeOS
