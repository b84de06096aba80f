import KludgeOS.Fs.Format

/-!
The bytes of words, and the names that are copied into them.
-/

namespace KludgeOS
open BitVec Fs List

lemma byteAt_ofBytes (bytes : Nat → Byte) (k : Nat) : byteAt (ofBytes bytes) k = bytes k := by
  have hk : 4*(k/4)+k%4 = k := Nat.div_add_mod k 4
  have hr : k%4 < 4 := Nat.mod_lt _ (by decide)
  rw [← hk]
  generalize k/4 = q at hr ⊢
  generalize k%4 = r at hr ⊢
  apply eq_of_getLsbD_eq
  intro i hi
  have h1 : (4*q+r)/4 = q := by omega
  have h2 : (4*q+r)%4 = r := by omega
  simp only [byteAt,ofBytes,h1,h2,getLsbD_setWidth,getLsbD_ushiftRight,
    getLsbD_append,hi,decide_true,Bool.true_and]
  obtain rfl | rfl | rfl | rfl : r = 0 ∨ r = 1 ∨ r = 2 ∨ r = 3 := by omega
  · simp [hi,show i < 16 by omega]
  · simp [show 8+i < 16 by omega,show 8+i-8 = i by omega]
  · simp [show ¬16+i < 16 by omega,show 16+i-16 = i by omega,hi]
  simp [show ¬24+i < 16 by omega,show 24+i-16 = 8+i by omega]

lemma ofBytes_byteAt (words : Nat → Word) : ofBytes (byteAt words) = words := by
  funext i
  apply eq_of_getLsbD_eq
  intro j hj
  have h0 : 4*i/4 = i := by omega
  have h1 : (4*i+1)/4 = i := by omega
  have h2 : (4*i+2)/4 = i := by omega
  have h3 : (4*i+3)/4 = i := by omega
  have k0 : 4*i%4 = 0 := by omega
  have k1 : (4*i+1)%4 = 1 := by omega
  have k2 : (4*i+2)%4 = 2 := by omega
  have k3 : (4*i+3)%4 = 3 := by omega
  simp only [byteAt,ofBytes,h0,h1,h2,h3,k0,k1,k2,k3,getLsbD_append,
    getLsbD_setWidth,getLsbD_ushiftRight]
  by_cases hlo : j < 16
  · by_cases hb : j < 8
    · simp [hlo,hb]
    simp [hlo,hb,show j-8 < 8 by omega,show 8+(j-8) = j by omega]
  by_cases hb : j-16 < 8
  · simp [hlo,hb,show 16+(j-16) = j by omega]
  simp [hlo,hb,show j-16-8 < 8 by omega,show 24+(j-16-8) = j by omega]

lemma byteAt_add (words : Nat → Word) (a k : Nat) :
    byteAt words (4*a+k) = byteAt (fun i => words (a+i)) k := by
  simp only [byteAt,show (4*a+k)/4 = a+k/4 by omega,show (4*a+k)%4 = k%4 by omega]

lemma byteAt_strcpy (words : Nat → Word) (k : Nat) (name : List Byte) (j : Nat) :
    byteAt (strcpy words k name) j =
      if k ≤ j ∧ j ≤ k+name.length then name.getD (j-k) 0 else byteAt words j :=
  byteAt_ofBytes _ _

lemma strcpy_apart (words : Nat → Word) {k i : Nat} {name : List Byte}
    (h : 4*i+3 < k ∨ k+name.length < 4*i) : strcpy words k name i = words i := by
  have hold : ofBytes (byteAt words) i = words i := by rw [ofBytes_byteAt]
  rw [← hold]
  simp only [strcpy,ofBytes]
  rw [if_neg (by omega),if_neg (by omega),if_neg (by omega),if_neg (by omega)]

lemma nameIs_strcpy (words : Nat → Word) (a : Nat) (name : List Byte) :
    nameIs (fun i => strcpy words (4*a) name (a+i)) name = true := by
  have hbyte : ∀ k ≤ name.length,
      byteAt (fun i => strcpy words (4*a) name (a+i)) k = name.getD k 0 := by
    intro k hk
    rw [← byteAt_add,byteAt_strcpy,if_pos (by omega),show 4*a+k-4*a = k by omega]
  simp only [nameIs,Bool.and_eq_true,all_eq_true,mem_range,beq_iff_eq]
  refine ⟨fun k hk => hbyte k (le_of_lt hk),?_⟩
  rw [hbyte _ le_rfl]
  simp

lemma nameIs_inj {words : Nat → Word} {name other : List Byte} (hname : 0 ∉ name)
    (hother : 0 ∉ other) (h : nameIs words name) (h' : nameIs words other) : name = other := by
  simp only [nameIs,Bool.and_eq_true,all_eq_true,mem_range,beq_iff_eq] at h h'
  obtain ⟨hall,hend⟩ := h
  obtain ⟨hall',hend'⟩ := h'
  have hget : ∀ {l : List Byte} {k}, k < l.length → 0 ∉ l → l.getD k 0 ≠ 0 := by
    intro l k hk hl h0
    rw [getD_eq_getElem _ _ hk] at h0
    exact hl (h0 ▸ getElem_mem hk)
  have hlen : name.length = other.length := by
    obtain hlt | heq | hgt := Nat.lt_trichotomy name.length other.length
    · exact absurd ((hall' _ hlt).symm.trans hend) (hget hlt hother)
    · exact heq
    exact absurd ((hall _ hgt).symm.trans hend') (hget hgt hname)
  refine ext_getElem hlen fun k hk hk' => ?_
  have := (hall k hk).symm.trans (hall' k hk')
  rwa [getD_eq_getElem _ _ hk,getD_eq_getElem _ _ hk'] at this

lemma byteAt_packed (data : List Byte) (k : Nat) : byteAt (packed data) k = data.getD k 0 :=
  byteAt_ofBytes _ _

end KludgeOS
