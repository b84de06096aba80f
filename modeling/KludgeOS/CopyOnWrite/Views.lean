import KludgeOS.CopyOnWrite.Frames

/-!
The part of the invariant that is about contents, and what the whole of it
says: the members see their own stores and nobody else's.
-/

namespace CopyOnWrite
open Option
open State (maps_of_space noteStore view_setView)

variable {W : Type}

structure Views (L : Layout) (t : State W) : Prop where
  out : ∀ y n, t.role y = .outside → t.view y n = none
  visited : ∀ y c p st n, t.role y = .fork c p st → t.view c n ≠ none → n < p
  holds : ∀ y n v, t.view y n = some v → n ≠ L.temp ∧ n ≠ L.xstack ∧
    ∃ e, t.space y n = some e ∧ e.share = false ∧ ∀ i < L.size, t.data e.frame i = v i
  covers : ∀ y n e, t.role y ≠ .setup → t.space y n = some e → e.share = false → n ≠ L.temp →
    n ≠ L.xstack → t.view y n ≠ none
  handed : ∀ y c p st n e, t.role y = .fork c p st → t.space c n = some e → e.share = false →
    n ≠ L.temp → n ≠ L.xstack → n < p → t.view c n ≠ none
  copied : ∀ y n k x v, t.fault y = some (.copy n k) → t.space y L.temp = some x →
    t.view y n = some v → ∀ i < k, t.data x.frame i = v i

section views

variable {L : Layout} {t t' : State W}

lemma Views.setData {d : Nat → Nat → W} (h : Views L t) (hk : t.Keeps d) :
    Views L {t with data := d} := by
  refine {h with holds := ?_, copied := ?_}
  · intro y n v hv
    obtain ⟨h1,h2,e,he,hsh,hd⟩ := h.holds y n v hv
    refine ⟨h1,h2,e,he,hsh,fun i hi => ?_⟩
    have hsame : d e.frame = t.data e.frame := hk y n _ (maps_of_space he)
    exact (congrFun hsame i).trans (hd i hi)
  intro y n k x v hf hx hv i hi
  have hsame : d x.frame = t.data x.frame := hk y L.temp _ (maps_of_space hx)
  exact (congrFun hsame i).trans (h.copied y n k x v hf hx hv i hi)

variable {y n z m i c p : Nat} {e x : Entry}

lemma store_elsewhere {e1 : Entry} {v : Nat → W} (hF : Frames L t) (hV : Views L t)
    (hw : t.MayWrite L y n) (he : t.space y n = some e) (hwr : e.write) (hzy : z ≠ y) (hv : t.view
    z m = some v) (he1 : t.space z m = some e1) (hsh : e1.share = false) : e1.frame ≠ e.frame := by
  intro hfr
  obtain ⟨hmt,hmx,_⟩ := hV.holds z m v hv
  cases hes : e.share with
  | true =>
    rw [hF.shared y n e z m e1 he hwr hes he1 hfr] at hsh
    cases hsh
  | false =>
    obtain ⟨p,st,hr,hp⟩ := hF.alone y n e z m he ⟨hwr,hes⟩ ⟨e1,he1,hfr⟩ hzy
    obtain rfl | rfl := hw.stacks (by rw [hr]; simp)
    · -- the duplicate got this page from one of the original's below its stack
      have hlt := hV.visited y z p st m hr (by rw [hv]; simp)
      have hm := hF.inherit y z p st m e1 hr hp he1 hmx
      rw [hfr] at hm
      exact hmt (hF.stack y m e he hm (by omega))
    exact hzy (hF.xstack y z m e he ⟨e1,he1,hfr⟩).1

lemma State.noteStore_none {f : Nat} {v : W} :
    (t.noteStore y f i v).view z m = none ↔ t.view z m = none := by
  by_cases hz : z = y
  · subst hz
    by_cases hm : t.Maps z m f
    · simp [noteStore,hm]
    simp [noteStore,hm]
  simp [noteStore,hz]

section

variable (h : Views L t)
include h

lemma Views.store {v : W} (hF : Frames L t) (hw : t.MayWrite L y n) (he : t.space y n = some e)
    (hwr : e.write) : Views L ((t.noteStore y e.frame i v).setWord e.frame i v) := by
  have hl := L.temp_lt
  have hl' := L.stack_lt
  have keep : ∀ z m, t.view z m ≠ none → (t.noteStore y e.frame i v).view z m ≠ none :=
    fun z m hv hc => hv (State.noteStore_none.mp hc)
  refine ⟨?_,?_,?_,?_,?_,?_⟩
  · exact fun z m hz => State.noteStore_none.mpr (h.out z m hz)
  · exact fun z c p st m hz hv => h.visited z c p st m hz fun hc => hv (State.noteStore_none.mpr hc)
  · intro z m c hc
    by_cases hzy : z = y
    · subst hzy
      by_cases hm : t.Maps z m e.frame
      · obtain ⟨c0,hc0,rfl⟩ : ∃ c0, t.view z m = some c0 ∧ Function.update c0 i v = c := by
          simpa [noteStore,hm] using hc
        obtain ⟨h1,h2,e1,he1,hsh,hd⟩ := h.holds z m c0 hc0
        obtain ⟨e1',he1',hfr⟩ := hm
        rw [he1] at he1'
        cases he1'
        refine ⟨h1,h2,e1,he1,hsh,fun j hj => ?_⟩
        by_cases hji : j = i
        · simp [hji,hfr]
        simpa [hji] using hd j hj
      have hc : t.view z m = some c := by simpa [noteStore,hm] using hc
      obtain ⟨h1,h2,e1,he1,hsh,hd⟩ := h.holds z m c hc
      have hne : e1.frame ≠ e.frame := fun hfr => hm ⟨e1,he1,hfr⟩
      exact ⟨h1,h2,e1,he1,hsh,fun j hj => by simpa [hne] using hd j hj⟩
    have hc : t.view z m = some c := by simpa [noteStore,hzy] using hc
    obtain ⟨h1,h2,e1,he1,hsh,hd⟩ := h.holds z m c hc
    have hne := store_elsewhere hF h hw he hwr hzy hc he1 hsh
    exact ⟨h1,h2,e1,he1,hsh,fun j hj => by simpa [hne] using hd j hj⟩
  · exact fun z m e1 hz he1 hsh h1 h2 => keep z m (h.covers z m e1 hz he1 hsh h1 h2)
  · intro z c p st m e1 hz he1 hsh h1 h2 hlt
    exact keep c m (h.handed z c p st m e1 hz he1 hsh h1 h2 hlt)
  intro z m k x c hz hx hc j hj
  change t.fault z = some (.copy m k) at hz
  obtain ⟨x',hx',_,hsole⟩ := hF.temp z m k hz
  obtain rfl := mem_unique hx hx'
  -- in a fault only the handler's stack is written, which no page with a view maps
  have hin : z = y → n = L.xstack := by
    rintro rfl
    exact hw.inFault hz
  have hne : x.frame ≠ e.frame := by
    intro hfr
    obtain ⟨h1,h2⟩ := hsole y n ⟨e,he,hfr.symm⟩
    have := hin h1.symm
    omega
  have hc : t.view z m = some c := by
    by_cases hzy : z = y
    · subst hzy
      have hnm : ¬t.Maps z m e.frame := by
        intro hm
        rw [hin rfl] at he
        obtain ⟨c0,hc0,_⟩ : ∃ c0, t.view z m = some c0 ∧ Function.update c0 i v = c := by
          simpa [noteStore,hm] using hc
        exact (h.holds z m c0 hc0).2.1 (hF.xstack z z m e he hm).2
      simpa [noteStore,hnm] using hc
    simpa [noteStore,hzy] using hc
  simpa [hne] using h.copied z m k x c hz hx hc j hj

lemma Views.copy {k : Nat} (hF : Frames L t) (hf : t.fault y = some (.copy n k))
    (hk : k < L.size) (he : t.space y n = some e) (hx : t.space y L.temp = some x) :
    Views L ((t.setWord x.frame k (t.data e.frame k)).setFault y (some (.copy n (k+1)))) := by
  obtain ⟨x',hx',_,hsole⟩ := hF.temp y n k hf
  obtain rfl := mem_unique hx hx'
  refine {h with holds := ?_, copied := ?_}
  · intro z m v hv
    obtain ⟨h1,h2,e1,he1,hsh,hd⟩ := h.holds z m v hv
    have hne : e1.frame ≠ x.frame := fun hfr => h1 (hsole z m ⟨e1,he1,hfr⟩).2
    exact ⟨h1,h2,e1,he1,hsh,fun j hj => by simpa [hne] using hd j hj⟩
  intro z m j x' v hz hx' hv i hi
  by_cases hzy : z = y
  · subst hzy
    obtain rfl := mem_unique hx hx'
    obtain ⟨rfl,rfl⟩ : n = m ∧ k+1 = j := by simpa using hz
    by_cases hik : i = k
    · obtain ⟨_,_,e1,he1,_,hd⟩ := h.holds z n v hv
      obtain rfl := mem_unique he he1
      simpa [hik] using hd k hk
    simpa [hik] using h.copied z n k x v hf hx hv i (by omega)
  have hne : x'.frame ≠ x.frame := fun hfr => hzy (hsole z L.temp ⟨x',hx',hfr⟩).1
  have hz : t.fault z = some (.copy m j) := by simpa [hzy] using hz
  simpa [hne] using h.copied z m j x' v hz hx' hv i hi

lemma Views.remap (hR : Roles L t) (hf : t.fault y = some (.copy n L.size))
    (hx : t.space y L.temp = some x) :
    Views L (((t.assign y n (.own x.frame)).setFault y none).setView y n
      ((t.view y n).or (if n = L.temp then none else some (t.data x.frame)))) := by
  have hy := hR.faulting hf
  have hnx := (hR.faults y _ hf).1
  refine ⟨?_,?_,?_,?_,?_,?_⟩
  · intro z m hz
    have hzy : z ≠ y := by
      rintro rfl
      exact hy.1 hz
    simpa [hzy] using h.out z m hz
  · intro z c p st m hz hv
    have hcy : c ≠ y := by
      rintro rfl
      exact hy.2 (hR.fork z c p st hz).child
    exact h.visited z c p st m hz (by simpa [hcy] using hv)
  · intro z m v hv
    by_cases hc : z = y ∧ m = n
    · obtain ⟨rfl,rfl⟩ := hc
      simp only [view_setView,and_self,if_true] at hv
      cases ho : t.view z m with
      | some v' =>
        obtain rfl : v' = v := by simpa [ho] using hv
        refine ⟨(h.holds z m v' ho).1,hnx,.own x.frame,by simp,rfl,?_⟩
        exact h.copied z m _ x v' hf hx ho
      | none =>
        have hmt : m ≠ L.temp := by
          rintro rfl
          simp [ho] at hv
        obtain rfl : t.data x.frame = v := by simpa [ho,hmt] using hv
        exact ⟨hmt,hnx,.own x.frame,by simp,rfl,fun _ _ => rfl⟩
    simpa [hc] using h.holds z m v (by simpa [hc] using hv)
  · intro z m e hz he hsh h1 h2
    by_cases hc : z = y ∧ m = n
    · obtain ⟨rfl,rfl⟩ := hc
      simp only [view_setView,and_self,if_true,if_neg h1]
      cases t.view z m <;> simp
    simpa [hc] using h.covers z m e hz (by simpa [hc] using he) hsh h1 h2
  · intro z c p st m e hz he hsh h1 h2 hlt
    have hcy : c ≠ y := by
      rintro rfl
      exact hy.2 (hR.fork z c p st hz).child
    simpa [hcy] using h.handed z c p st m e hz (by simpa [hcy] using he) hsh h1 h2 hlt
  intro z m k x' v hz hx' hv
  have hzy : z ≠ y := by
    rintro rfl
    simp at hz
  exact h.copied z m k x' v (by simpa [hzy] using hz) (by simpa [hzy] using hx')
    (by simpa [hzy] using hv)

lemma Views.assign (hR : Roles L t) (hv : t.view y n = none) (hn : n = L.xstack ∨
    n = L.temp ∨ t.role y = .setup ∧ ∀ z p st, t.role z = .fork y p st → p ≤ n) (hc : n = L.temp →
    t.role y = .setup ∨ ∀ m k, t.fault y ≠ some (.copy m k)) : Views L (t.assign y n e) := by
  have hl := L.temp_lt
  have hl' := L.stack_lt
  refine {h with holds := ?_, covers := ?_, handed := ?_, copied := ?_}
  · intro z m v hv'
    have hne : ¬(z = y ∧ m = n) := by
      rintro ⟨rfl,rfl⟩
      have hv' : t.view z m = some v := hv'
      rw [hv] at hv'
      contradiction
    simpa [hne] using h.holds z m v hv'
  · intro z m e' hz he hsh h1 h2
    have hne : ¬(z = y ∧ m = n) := by
      rintro ⟨rfl,rfl⟩
      obtain rfl | rfl | ⟨hs,_⟩ := hn
      · exact h2 rfl
      · exact h1 rfl
      exact hz hs
    exact h.covers z m e' hz (by simpa [hne] using he) hsh h1 h2
  · intro z c p st m e' hz he hsh h1 h2 hlt
    have hne : ¬(c = y ∧ m = n) := by
      rintro ⟨rfl,rfl⟩
      obtain rfl | rfl | ⟨_,hs⟩ := hn
      · exact h2 rfl
      · exact h1 rfl
      have := hs z p st hz
      omega
    exact h.handed z c p st m e' hz (by simpa [hne] using he) hsh h1 h2 hlt
  intro z m k x v hz hx hv'
  have hne : ¬(z = y ∧ L.temp = n) := by
    rintro ⟨rfl,rfl⟩
    obtain hs | hs := hc rfl
    · have := hR.idle z (.inr hs)
      have hz : t.fault z = some (.copy m k) := hz
      rw [hz] at this
      cases this
    exact hs m k hz
  exact h.copied z m k x v hz (by simpa [hne] using hx) hv'

lemma Views.relabel {e' : Entry} (he : t.space y n = some e) (hsh : e.share = false)
    (hfr : e'.frame = e.frame) (hsh' : e'.share = false) : Views L (t.assign y n e') := by
  have old : ∀ z m e1, (t.assign y n e').space z m = some e1 →
      ∃ e2, t.space z m = some e2 ∧ e2.frame = e1.frame ∧ e2.share = e1.share := by
    intro z m e1 he1
    obtain ⟨rfl,rfl,rfl⟩ | ⟨_,he1⟩ := State.space_assign_cases he1
    · exact ⟨e,he,hfr.symm,hsh.trans hsh'.symm⟩
    exact ⟨e1,he1,rfl,rfl⟩
  refine {h with holds := ?_, covers := ?_, handed := ?_, copied := ?_}
  · intro z m v hv
    obtain ⟨h1,h2,e1,he1,hs,hd⟩ := h.holds z m v hv
    refine ⟨h1,h2,?_⟩
    by_cases hc : z = y ∧ m = n
    · obtain ⟨rfl,rfl⟩ := hc
      obtain rfl := mem_unique he he1
      exact ⟨e',by simp,hsh',by rw [hfr]; exact hd⟩
    exact ⟨e1,by simpa [hc] using he1,hs,hd⟩
  · intro z m e1 hz he1 hs
    obtain ⟨e2,he2,_,hs2⟩ := old z m e1 he1
    exact h.covers z m e2 hz he2 (hs2.trans hs)
  · intro z c p st m e1 hz he1 hs
    obtain ⟨e2,he2,_,hs2⟩ := old c m e1 he1
    exact h.handed z c p st m e2 hz he2 (hs2.trans hs)
  intro z m k x v hz hx hv
  obtain ⟨x',hx',hf,_⟩ := old z _ x hx
  rw [← hf]
  exact h.copied z m k x' v hz hx' hv

lemma Views.setRole {r : Role} (ho : r ≠ .outside) (hcov : r ≠ .setup → t.role y = .setup →
    ∀ n e, t.space y n = some e → e.share = false → n ≠ L.temp → n ≠ L.xstack → t.view y n ≠ none)
    (hfork : ∀ c q s, r = .fork c q s → (∀ n, t.view c n = none ∧ t.space c n = none) ∨ ∃ p st,
    t.role y = .fork c p st ∧ p ≤ q ∧ ∀ n e, t.space c n = some e → n ≠ L.xstack → n < q → n < p)
    : Views L (t.setRole y r) := by
  refine {h with out := ?_, visited := ?_, covers := ?_, handed := ?_}
  · intro z n hz
    by_cases hzy : z = y
    · exact absurd (by simpa [hzy] using hz) ho
    exact h.out z n (by simpa [hzy] using hz)
  · intro z c q s n hz hv
    by_cases hzy : z = y
    · subst hzy
      obtain hno | ⟨p,st,hr,hp,_⟩ := hfork c q s (by simpa using hz)
      · exact absurd (hno n).1 hv
      exact lt_of_lt_of_le (h.visited z c p st n hr hv) hp
    exact h.visited z c q s n (by simpa [hzy] using hz) hv
  · intro z n e hz he hsh h1 h2
    by_cases hs : t.role z = .setup
    · by_cases hzy : z = y
      · subst hzy
        exact hcov (by simpa using hz) hs n e he hsh h1 h2
      exact absurd hs (by simpa [hzy] using hz)
    exact h.covers z n e hs he hsh h1 h2
  intro z c q s n e hz he hsh h1 h2 hlt
  by_cases hzy : z = y
  · subst hzy
    obtain hno | ⟨p,st,hr,_,hm⟩ := hfork c q s (by simpa using hz)
    · have he : t.space c n = some e := he
      rw [(hno n).2] at he
      cases he
    exact h.handed z c p st n e hr he hsh h1 h2 (hm n e he h2 hlt)
  exact h.handed z c q s n e (by simpa [hzy] using hz) he hsh h1 h2 hlt

lemma Views.move {p' : Nat} {st st' : Stage} (hr : t.role y = .fork c p st)
    (hp : p ≤ p') (hm : p' = p ∨ ∀ n e, t.space c n = some e → n ≠ L.xstack → n < p) :
    Views L (t.setRole y (.fork c p' st')) := by
  refine h.setRole (by simp) (by simp [hr]) fun c' q s hq => ?_
  cases hq
  refine .inr ⟨p,st,hr,hp,fun n e he hx hlt => ?_⟩
  obtain rfl | hm := hm
  · exact hlt
  exact hm n e he hx

lemma Views.exofork (hR : Roles L t) (hr : t.role y = .enter)
    (hc : t.role c = .outside) : Views L ((t.setRole c .setup).setRole y (.fork c 0 .scan)) := by
  have hyc : y ≠ c := by
    rintro rfl
    rw [hr] at hc
    cases hc
  have h1 : Views L (t.setRole c .setup) := h.setRole (by simp) (by simp) (by simp)
  refine h1.setRole (by simp) (by simp [hyc,hr]) fun c' q s hq => ?_
  cases hq
  exact .inl fun n => ⟨h.out c n hc,hR.out c n hc⟩

lemma Views.release (hR : Roles L t) (hr : t.role y = .fork c L.pages .scan) :
    Views L ((t.setRole y .leave).setRole c .run) := by
  have h1 : Views L (t.setRole y .leave) := h.setRole (by simp) (by simp [hr]) (by simp)
  refine h1.setRole (by simp) (fun _ _ n e he hsh hn1 hn2 => ?_) (by simp)
  exact h.handed y c _ _ n e hr he hsh hn1 hn2 (hR.bound c n e he)

lemma Views.hand {st : Stage} (hr : t.role y = .fork c p st) (hc : t.role c = .setup)
    (hcf : t.fault c = none) (hsole : ∀ z q s, t.role z = .fork c q s → z = y)
    (he : t.space c p = some e) (hpx : p ≠ L.xstack) : Views L
    ((t.setRole y (.fork c (p+1) .scan)).setView c p (takenOver L p e.share (t.data e.frame))) := by
  have hcy : c ≠ y := by
    rintro rfl
    rw [hr] at hc
    cases hc
  have back : ∀ z c' q s, (t.setRole y (.fork c (p+1) .scan)).role z = .fork c' q s →
      (z = y ∧ c' = c ∧ q = p+1) ∨ c' ≠ c ∧ t.role z = .fork c' q s := by
    intro z c' q s hz
    by_cases hzy : z = y
    · obtain ⟨h1,h2,_⟩ : c = c' ∧ p+1 = q ∧ Stage.scan = s := by simpa [hzy] using hz
      exact .inl ⟨hzy,h1.symm,h2.symm⟩
    have hz : t.role z = .fork c' q s := by simpa [hzy] using hz
    refine .inr ⟨fun hcc => ?_,hz⟩
    rw [hcc] at hz
    exact hzy (hsole z q s hz)
  refine ⟨?_,?_,?_,?_,?_,?_⟩
  · intro z n hz
    have hzy : z ≠ y := by
      rintro rfl
      simp at hz
    have hzo : t.role z = .outside := by simpa [hzy] using hz
    have hzc : z ≠ c := by
      rintro rfl
      rw [hc] at hzo
      cases hzo
    simpa [hzc] using h.out z n hzo
  · intro z c' q s n hz hv
    obtain ⟨rfl,rfl,rfl⟩ | ⟨hne,hz⟩ := back z c' q s hz
    · by_cases hn : n = p
      · omega
      have := h.visited z c' p st n hr (by simpa [hn] using hv)
      omega
    exact h.visited z c' q s n hz (by simpa [hne] using hv)
  · intro z n v hv
    by_cases hat : z = c ∧ n = p
    · obtain ⟨rfl,rfl⟩ := hat
      simp only [view_setView,and_self,if_true,takenOver] at hv
      split at hv
      · cases hv
      rename_i hno
      cases hv
      have hsh : e.share = false := by
        cases hs : e.share with
        | true => exact absurd (.inl hs) hno
        | false => rfl
      exact ⟨fun ht => hno (.inr ht),hpx,e,he,hsh,fun _ _ => rfl⟩
    exact h.holds z n v (by simpa [hat] using hv)
  · intro z n e' hz he' hsh h1 h2
    have hzc : z ≠ c := by
      rintro rfl
      simp [hcy,hc] at hz
    have hz : t.role z ≠ .setup := by
      by_cases hzy : z = y
      · rw [hzy,hr]
        simp
      simpa [hzy] using hz
    simpa [hzc] using h.covers z n e' hz he' hsh h1 h2
  · intro z c' q s n e' hz he' hsh h1 h2 hlt
    obtain ⟨rfl,rfl,rfl⟩ | ⟨hne,hz⟩ := back z c' q s hz
    · by_cases hn : n = p
      · subst hn
        obtain rfl := mem_unique he he'
        simp [takenOver,hsh,h1]
      simpa [hn] using h.handed z c' p st n e' hr he' hsh h1 h2 (by omega)
    simpa [hne] using h.handed z c' q s n e' hz he' hsh h1 h2 hlt
  intro z n k x v hz hx hv
  have hzc : z ≠ c := by
    rintro rfl
    change t.fault z = some (.copy n k) at hz
    rw [hcf] at hz
    cases hz
  exact h.copied z n k x v hz hx (by simpa [hzc] using hv)

lemma Views.step {a : Label} (hR : Roles L t) (hF : Frames L t)
    (hs : Step L t a t') : Views L t' := by
  have hl := L.temp_lt
  have hl' := L.stack_lt
  have noview : ∀ {y n}, n = L.temp ∨ n = L.xstack → t.view y n = none := by
    intro y n hn
    cases hv : t.view y n with
    | none => rfl
    | some v =>
      obtain ⟨h1,h2,_⟩ := h.holds y n v hv
      obtain rfl | rfl := hn
      · exact absurd rfl h1
      exact absurd rfl h2
  have ahead : ∀ {y c p st}, t.role y = .fork c p st → t.view c p = none := by
    intro y c p st hr
    by_cases hv : t.view c p = none
    · exact hv
    have := h.visited y c p st p hr hv
    omega
  cases hs with
  | store hw he hwr => exact h.store hF hw he hwr
  | @begin y n e x hw hf he hc hx hxw =>
    refine {h with copied := ?_}
    intro z m k x' v hz hx' hv
    have hzy : z ≠ y := by
      rintro rfl
      simp at hz
    exact h.copied z m k x' v (by simpa [hzy] using hz) hx' hv
  | @alloc y n f d hf hu hk =>
    have h1 : Views L ({t with data := d}.assign y L.temp (.own f)) := by
      refine (h.setData hk).assign (hR.congr rfl rfl rfl) (noview (.inl rfl)) (.inr (.inl rfl)) ?_
      exact fun _ => .inr (by simp [hf])
    refine {h1 with copied := ?_}
    intro z m k x v hz hx hv i hi
    by_cases hzy : z = y
    · obtain ⟨_,rfl⟩ : n = m ∧ 0 = k := by simpa [hzy] using hz
      omega
    exact h1.copied z m k x v (by simpa [hzy] using hz) hx hv i hi
  | copy hf hk he hx => exact h.copy hF hf hk he hx
  | @remap y n x d hf hx hk =>
    have h1 := (h.setData hk).remap (hR.congr rfl rfl rfl) hf hx
    have hsame : d x.frame = t.data x.frame := hk y L.temp _ (maps_of_space hx)
    rw [← hsame]
    exact h1
  | @xstack y f d hr hf hu hk =>
    exact (h.setData hk).assign (hR.congr rfl rfl rfl) (noview (.inr rfl)) (.inl rfl)
      fun hc => absurd hc (by omega)
  | enter hr => exact h.setRole (by simp) (by simp [hr]) (by simp)
  | exofork hr hf hc hk => exact (h.setData hk).exofork (hR.congr rfl rfl rfl) hr hc
  | @skip y c p p' hr hf hp hn =>
    refine h.move hr hp (.inr fun n e he hx => ?_)
    exact ((hR.fork y c p _ hr).visited n e he hx).resolve_right (by simp)
  | look hr hf hp he => exact h.move hr le_rfl (.inl rfl)
  | @dupChild y c p e d hr hf he hk =>
    have ho := hR.fork y c p _ hr
    have h1 : Views L ({t with data := d}.assign c p (.lazy e.frame)) := by
      refine (h.setData hk).assign (hR.congr rfl rfl rfl) (ahead hr) (.inr (.inr ⟨ho.child,?_⟩))
        fun _ => .inl ho.child
      intro z q s hz
      obtain rfl := ho.sole z q s hz
      obtain ⟨rfl,_⟩ : p = q ∧ Stage.cow = s := by simpa [hr] using hz
      exact le_rfl
    exact h1.move (p := p) hr le_rfl (.inl rfl)
  | @dupSelf y c p e d hr hf he hk =>
    have ho := hR.fork y c p _ hr
    have hcy := ho.ne hr
    obtain ⟨hpx,e',he',hsh,hmid⟩ := ho.half (.inr rfl)
    obtain rfl := mem_unique he he'
    have h1 : Views L ({t with data := d}.assign y p (.lazy e.frame)) :=
      (h.setData hk).relabel he hsh rfl rfl
    have h2 := h1.hand (e := .lazy e.frame) hr ho.child (hR.idle c (.inr ho.child)) ho.sole
      (by simpa [hcy] using hmid rfl) hpx
    have hsame : d e.frame = t.data e.frame := hk y p _ (maps_of_space he)
    rw [← hsame]
    exact h2
  | @dupKeep y c p e d hr hf he hk =>
    have ho := hR.fork y c p _ hr
    obtain ⟨hpx,_,_⟩ := ho.keep e rfl
    have h1 : Views L ({t with data := d}.assign c p e) := by
      refine (h.setData hk).assign (hR.congr rfl rfl rfl) (ahead hr) (.inr (.inr ⟨ho.child,?_⟩))
        fun _ => .inl ho.child
      intro z q s hz
      obtain rfl := ho.sole z q s hz
      obtain ⟨rfl,_⟩ : p = q ∧ Stage.keep e = s := by simpa [hr] using hz
      exact le_rfl
    have h2 := h1.hand (e := e) hr ho.child (hR.idle c (.inr ho.child)) ho.sole (by simp) hpx
    have hsame : d e.frame = t.data e.frame := hk y p _ (maps_of_space he)
    rw [← hsame]
    exact h2
  | @childStack y c f d hr hf hu hk =>
    exact (h.setData hk).assign (hR.congr rfl rfl rfl) (noview (.inr rfl)) (.inl rfl)
      fun hc => absurd hc (by omega)
  | release hr hf => exact h.release hR hr
  | finish hr => exact h.setRole (by simp) (by simp [hr]) (by simp)

end

end views

structure Inv (L : Layout) (t : State W) : Prop where
  roles : Roles L t
  frames : Frames L t
  views : Views L t

section inv

variable {L : Layout} {t t' : State W}

lemma Inv.step {a : Label} (h : Inv L t) (hs : Step L t a t') : Inv L t' :=
  ⟨h.roles.step hs,h.frames.step h.roles hs,h.views.step h.roles h.frames hs⟩

structure Standalone (L : Layout) (t : State W) (y : Nat) : Prop where
  xstack : ∀ m e, t.space y L.xstack = some e → t.Maps y m e.frame → m = L.xstack
  stack : ∀ m e, t.space y L.stack = some e → t.Maps y m e.frame → m < L.stack → m = L.temp
  shared : ∀ n e m e', t.space y n = some e → e.write → e.share →
    t.space y m = some e' → e'.frame = e.frame → e'.share

variable {y n z m : Nat} {e : Entry}

lemma Inv.single (hb : ∀ n e, t.space y n = some e → n < L.pages) (hy : t.role y = .run)
    (ho : ∀ z, z ≠ y → t.role z = .outside ∧ ∀ n, t.space z n = none) (hf : ∀ z, t.fault z = none)
    (hs : Standalone L t y) (hv : ∀ z n, t.view z n = if n = L.temp ∨ n = L.xstack then none else
      match t.space z n with
      | some e => if e.share = true then none else some (t.data e.frame)
      | none => none) : Inv L t := by
  have only : ∀ {z n e}, t.space z n = some e → z = y := by
    intro z n e he
    by_cases hzy : z = y
    · exact hzy
    rw [(ho z hzy).2 n] at he
    cases he
  have onlyMaps : ∀ {z n f}, t.Maps z n f → z = y := fun ⟨_,he,_⟩ => only he
  have nofork : ∀ z c p st, t.role z ≠ .fork c p st := by
    intro z c p st hz
    by_cases hzy : z = y
    · rw [hzy,hy] at hz
      cases hz
    rw [(ho z hzy).1] at hz
    cases hz
  have nosetup : ∀ z, t.role z ≠ .setup := by
    intro z hz
    by_cases hzy : z = y
    · rw [hzy,hy] at hz
      cases hz
    rw [(ho z hzy).1] at hz
    cases hz
  refine ⟨⟨?_,?_,?_,?_,?_,?_⟩,⟨?_,?_,?_,?_,?_,?_,?_,?_⟩,⟨?_,?_,?_,?_,?_,?_⟩⟩
  · intro z n e he
    obtain rfl := only he
    exact hb n e he
  · intro z n hz
    have hzy : z ≠ y := by
      rintro rfl
      rw [hy] at hz
      cases hz
    exact (ho z hzy).2 n
  · exact fun z _ => hf z
  · exact fun z c p st hz => absurd hz (nofork z c p st)
  · intro z hz
    by_cases hzy : z = y
    · rw [hzy,hy] at hz
      cases hz
    rw [(ho z hzy).1] at hz
    cases hz
  · intro z q hq
    rw [hf z] at hq
    cases hq
  · exact fun z n e hz => absurd hz (nosetup z)
  · exact fun z n e w m he _ hm hwz => absurd ((onlyMaps hm).trans (only he).symm) hwz
  · exact fun z c p st m n e hz => absurd hz (nofork z c p st)
  · intro z w m e he hm
    obtain rfl := only he
    obtain rfl := onlyMaps hm
    exact ⟨rfl,hs.xstack m e he hm⟩
  · intro z n e w m e' he hw hsh he' hfr
    obtain rfl := only he
    obtain rfl := only he'
    exact hs.shared n e m e' he hw hsh he' hfr
  · intro z m e he
    obtain rfl := only he
    exact hs.stack m e he
  · exact fun z c p st m e hz => absurd hz (nofork z c p st)
  · intro z n k hz
    rw [hf z] at hz
    cases hz
  · intro z n hz
    have hzy : z ≠ y := by
      rintro rfl
      rw [hy] at hz
      cases hz
    simp [hv,(ho z hzy).2 n]
  · exact fun z c p st n hz => absurd hz (nofork z c p st)
  · intro z n v hv'
    rw [hv z n] at hv'
    split at hv'
    · cases hv'
    rename_i hn
    split at hv'
    · rename_i e he
      split at hv'
      · cases hv'
      rename_i hsh
      cases hv'
      exact ⟨fun hc => hn (.inl hc),fun hc => hn (.inr hc),e,he,by simpa using hsh, fun _ _ => rfl⟩
    cases hv'
  · intro z n e _ he hsh h1 h2
    simp [hv,he,hsh,h1,h2]
  · exact fun z c p st n e hz => absurd hz (nofork z c p st)
  intro z n k x v hz
  rw [hf z] at hz
  cases hz

lemma Inv.isolated (h : Inv L t) (hy : ∀ c p st, t.role y ≠ .fork c p st)
    (he : t.space y n = some e) (hp : e.Private) (hzy : z ≠ y) : ¬t.Maps z m e.frame := by
  intro hm
  obtain ⟨p,st,hr,_⟩ := h.frames.alone y n e z m he hp hm hzy
  exact hy z p st hr

lemma Step.confined (hs : Step L t (.write y n) t') (h : Inv L t) (he : t.space y n = some e)
    (hsh : e.share = false) (hzy : z ≠ y) (hz : t.role z ≠ .setup) :
    t'.space z m = t.space z m ∧ ∀ f, t.Maps z m f → t'.data f = t.data f := by
  have other : ∀ {x f : Nat} {e' : Entry}, t.space y x = some e' → e'.Private →
      t.Maps z m f → f ≠ e'.frame := by
    rintro x f e' he' hp hm rfl
    obtain ⟨p,st,hr,_⟩ := h.frames.alone y x e' z m he' hp hm hzy
    exact hz (h.roles.fork y z p st hr).child
  cases hs with
  | @store _ _ i v e' hw he' hwr =>
    obtain rfl := mem_unique he he'
    refine ⟨rfl,fun f hm => ?_⟩
    have hne := other he ⟨hwr,hsh⟩ hm
    funext j
    simp [hne]
  | begin => exact ⟨rfl,fun _ _ => rfl⟩
  | alloc hf hu hk => exact ⟨by simp [hzy],fun f hm => hk z m f hm⟩
  | @copy _ _ k e' x hf hk he' hx =>
    refine ⟨rfl,fun f hm => ?_⟩
    obtain ⟨x',hx',hp,_⟩ := h.frames.temp y n k hf
    obtain rfl := mem_unique hx hx'
    have hne := other hx hp hm
    funext j
    simp [hne]
  | remap hf hx hk => exact ⟨by simp [hzy],fun f hm => hk z m f hm⟩

end inv

end CopyOnWrite
