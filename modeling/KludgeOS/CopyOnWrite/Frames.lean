import KludgeOS.CopyOnWrite.Roles

/-!
What a member can write without sharing it is mapped by no other, except by the duplicate it is
setting up.
-/

namespace CopyOnWrite
open State (space_assign_cases maps_assign Maps)

variable {W : Type}

structure Frames (L : Layout) (t : State W) : Prop where
  setup : ∀ c n e, t.role c = .setup → t.space c n = some e → e.Private → n = L.xstack
  alone : ∀ y n e z m, t.space y n = some e → e.Private → t.Maps z m e.frame → z ≠ y →
    ∃ p st, t.role y = .fork z p st ∧ p ≤ n
  split : ∀ y c p st m n e, t.role y = .fork c p st → t.space y m = some e → e.Private → m < p →
    t.Maps y n e.frame → n < p
  xstack : ∀ y z m e, t.space y L.xstack = some e → t.Maps z m e.frame → z = y ∧ m = L.xstack
  shared : ∀ y n e z m e', t.space y n = some e → e.write → e.share →
    t.space z m = some e' → e'.frame = e.frame → e'.share
  stack : ∀ y m e, t.space y L.stack = some e → t.Maps y m e.frame → m < L.stack → m = L.temp
  inherit : ∀ y c p st m e, t.role y = .fork c p st → p ≤ L.stack → t.space c m = some e →
    m ≠ L.xstack → t.Maps y m e.frame
  temp : ∀ y n k, t.fault y = some (.copy n k) → ∃ e, t.space y L.temp = some e ∧ e.Private ∧
    ∀ z m, t.Maps z m e.frame → z = y ∧ m = L.temp

section frames

variable {L : Layout} {t t' : State W}

lemma Frames.congr (h : Frames L t) (hs : t'.space = t.space) (hr : t'.role = t.role)
    (hf : t'.fault = t.fault) : Frames L t' := by
  cases t with
  | mk space data role fault view =>
  cases t' with
  | mk space' data' role' fault' view' =>
  simp only at hs hr hf
  subst hs hr hf
  exact {h with}

variable {y c p n : Nat}

section

variable (h : Frames L t)
include h

lemma Frames.setRole {r : Role} (hset : r = .setup → ∀ n, t.space y n = none)
    (hkeep : ∀ c p st n e, t.role y = .fork c p st → p ≤ n → t.space y n = some e →
    e.Private → n ≠ L.xstack → ∃ q s, r = .fork c q s ∧ q ≤ n) (hfork : ∀ c q s, r = .fork c q s →
    (q = 0 ∧ ∀ n, t.space c n = none) ∨ ∃ p st, t.role y = .fork c p st ∧ p ≤ q ∧ ∀ n e, p ≤ n →
    n < q → t.space y n = some e → e.Private → n = L.xstack) : Frames L (t.setRole y r) := by
  refine {h with setup := ?_, alone := ?_, split := ?_, inherit := ?_}
  · intro z n e hz he hpr
    by_cases hzy : z = y
    · subst hzy
      have he : t.space z n = some e := he
      rw [hset (by simpa using hz) n] at he
      cases he
    exact h.setup z n e (by simpa [hzy] using hz) he hpr
  · intro z n e w m he hpr hm hwz
    obtain ⟨q,s,hz,hq⟩ := h.alone z n e w m he hpr hm hwz
    by_cases hzy : z = y
    · subst hzy
      have hnx : n ≠ L.xstack := by
        rintro rfl
        exact hwz (h.xstack z w m e he hm).1
      simpa using hkeep w q s n e hz hq he hpr hnx
    exact ⟨q,s,by simpa [hzy] using hz,hq⟩
  · intro z c q s m n e hz he hpr hlt hm
    by_cases hzy : z = y
    · subst hzy
      obtain ⟨hq,_⟩ | ⟨p,st,hr,_,hskip⟩ := hfork c q s (by simpa using hz)
      · omega
      by_cases hmp : m < p
      · have := h.split z c p st m n e hr he hpr hmp hm
        omega
      obtain rfl := hskip m e (by omega) hlt he hpr
      rw [(h.xstack z z n e he hm).2]
      exact hlt
    exact h.split z c q s m n e (by simpa [hzy] using hz) he hpr hlt hm
  intro z c q s m e hz hq he hm
  by_cases hzy : z = y
  · subst hzy
    obtain ⟨_,hno⟩ | ⟨p,st,hr,hp,_⟩ := hfork c q s (by simpa using hz)
    · have he : t.space c m = some e := he
      rw [hno m] at he
      cases he
    exact h.inherit z c p st m e hr (by omega) he hm
  exact h.inherit z c q s m e (by simpa [hzy] using hz) hq he hm

lemma Frames.move {p' : Nat} {st st' : Stage} (hr : t.role y = .fork c p st)
    (hp : p ≤ p') (hskip : ∀ n e, p ≤ n → n < p' → t.space y n = some e → e.Private → n = L.xstack)
    : Frames L (t.setRole y (.fork c p' st')) := by
  refine h.setRole (by simp) ?_ ?_
  · intro c' q s n e hz hq he hpr hnx
    obtain ⟨rfl,rfl,rfl⟩ : c = c' ∧ p = q ∧ st = s := by simpa [hr] using hz
    exact ⟨p',st',rfl,Nat.le_of_not_lt fun hlt => hnx (hskip n e hq hlt he hpr)⟩
  intro c' q s hq
  cases hq
  exact .inr ⟨p,st,hr,hp,hskip⟩

lemma Frames.exofork (hR : Roles L t) (hr : t.role y = .enter)
    (hc : t.role c = .outside) : Frames L ((t.setRole c .setup).setRole y (.fork c 0 .scan)) := by
  have h1 : Frames L (t.setRole c .setup) :=
    h.setRole (fun _ n => hR.out c n hc) (by simp [hc]) (by simp)
  have hyc : y ≠ c := by
    rintro rfl
    rw [hr] at hc
    cases hc
  refine h1.setRole (by simp) (by simp [hyc,hr]) fun c' q s hq => ?_
  cases hq
  exact .inl ⟨rfl,fun n => hR.out c n hc⟩

lemma Frames.release (hR : Roles L t) (hr : t.role y = .fork c L.pages .scan) :
    Frames L ((t.setRole y .leave).setRole c .run) := by
  have ho := hR.fork y c _ _ hr
  have h1 : Frames L (t.setRole y .leave) := by
    refine h.setRole (by simp) (fun c' q s n e hz hq he _ _ => ?_) (by simp)
    obtain ⟨_,rfl,_⟩ : c = c' ∧ L.pages = q ∧ Stage.scan = s := by simpa [hr] using hz
    have := hR.bound y n e he
    omega
  exact h1.setRole (by simp) (by simp [ho.ne hr,ho.child]) (by simp)

lemma Frames.assignOwn {f : Nat} {q : Nat → Option Fault} (hR : Roles L t) (hu : ∀ z m e,
    t.space z m = some e → e.frame = f → z = y ∧ m = L.temp ∧ e.share = false ∧ n ≠ L.xstack)
    (hn : n = L.xstack ∨ t.role y ≠ .setup ∧ ∀ c p st, t.role y = .fork c p st → n ≤ L.stack ∧
    L.stack < p) (hq : ∀ z m k, q z = some (.copy m k) → t.fault z = some (.copy m k) ∧
    (z = y → n = L.xstack)) : Frames L {t.assign y n (.own f) with fault := q} := by
  have hx := L.stack_lt
  have ht := L.temp_lt
  -- two entries with one frame are both old, or both the member's own
  have pair : ∀ {z m z' m' : Nat} {e : Entry}, (t.assign y n (.own f)).space z m = some e →
      (t.assign y n (.own f)).Maps z' m' e.frame →
      (z = y ∧ z' = y ∧ e.share = false ∧ (m = n ∨ m = L.temp) ∧ (m' = n ∨ m' = L.temp) ∧
        (m = m' ∨ n ≠ L.xstack)) ∨
      (¬(z' = y ∧ m' = n) ∧ t.space z m = some e ∧ t.Maps z' m' e.frame) := by
    intro z m z' m' e he hm
    obtain ⟨h1,h2,rfl⟩ | ⟨_,he⟩ := space_assign_cases he
    · obtain ⟨h3,h4,_⟩ | ⟨_,e',he',hfr⟩ := maps_assign.mp hm
      · exact .inl ⟨h1,h3,rfl,.inl h2,.inl h4,.inl (h2.trans h4.symm)⟩
      obtain ⟨h3,h4,_,h5⟩ := hu z' m' e' he' hfr
      exact .inl ⟨h1,h3,rfl,.inl h2,.inr h4,.inr h5⟩
    obtain ⟨h3,h4,hf⟩ | ⟨hne,hm⟩ := maps_assign.mp hm
    · obtain ⟨h1,h2,hsh,h5⟩ := hu z m e he hf.symm
      exact .inl ⟨h1,h3,hsh,.inr h2,.inl h4,.inr h5⟩
    exact .inr ⟨hne,he,hm⟩
  refine ⟨?_,?_,?_,?_,?_,?_,?_,?_⟩
  · intro c m e hc he hpr
    obtain ⟨rfl,rfl,_⟩ | ⟨_,he⟩ := space_assign_cases he
    · exact hn.resolve_right fun hc' => hc'.1 hc
    exact h.setup c m e hc he hpr
  · intro z m e z' m' he hpr hm hne
    obtain ⟨rfl,rfl,_⟩ | ⟨_,he,hm⟩ := pair he hm
    · exact absurd rfl hne
    exact h.alone z m e z' m' he hpr hm hne
  · intro z c p st m m' e hz he hpr hlt hm
    obtain ⟨rfl,_,_,_,hm',rfl | hnx⟩ | ⟨_,he,hm⟩ := pair he hm
    · exact hlt
    · obtain ⟨h1,h2⟩ := (hn.resolve_left hnx).2 c p st hz
      omega
    exact h.split z c p st m m' e hz he hpr hlt hm
  · intro z z' m' e he hm
    obtain ⟨h1,h2,_,h3,_,h5⟩ | ⟨_,he,hm⟩ := pair he hm
    · exact ⟨h2.trans h1.symm,by omega⟩
    exact h.xstack z z' m' e he hm
  · intro z m e z' m' e' he hw hsh he' hfr
    obtain ⟨_,_,hno,_⟩ | ⟨hne,he,_⟩ := pair he ⟨e',he',hfr⟩
    · rw [hno] at hsh
      cases hsh
    obtain ⟨h1,h2,_⟩ | ⟨_,he'⟩ := space_assign_cases he'
    · exact absurd ⟨h1,h2⟩ hne
    exact h.shared z m e z' m' e' he hw hsh he' hfr
  · intro z m e he hm hlt
    obtain ⟨_,_,_,h3,h4,_⟩ | ⟨_,he,hm⟩ := pair he hm
    · omega
    exact h.stack z m e he hm hlt
  · intro z c p st m e hz hp he hm
    obtain ⟨rfl,rfl,rfl⟩ | ⟨hne,he⟩ := space_assign_cases he
    · exact absurd (hR.fork z c p st hz).child (hn.resolve_left hm).1
    refine maps_assign.mpr (.inr ⟨?_,h.inherit z c p st m e hz hp he hm⟩)
    rintro ⟨rfl,rfl⟩
    have := ((hn.resolve_left hm).2 c p st hz).2
    omega
  intro z m k hz
  obtain ⟨hz,hzn⟩ := hq z m k hz
  obtain ⟨e,he,hpr,hs⟩ := h.temp z m k hz
  have hne : ¬(z = y ∧ L.temp = n) := by
    rintro ⟨h1,h2⟩
    have := hzn h1
    omega
  refine ⟨e,by simpa [hne] using he,hpr,fun z' m' hm => ?_⟩
  obtain ⟨_,_,hc⟩ | ⟨_,hm⟩ := maps_assign.mp hm
  · obtain ⟨h1,_,_,h2⟩ := hu z L.temp e he hc.symm
    exact absurd (hzn h1) h2
  exact hs z' m' hm

lemma Frames.assignFresh {f : Nat} (hR : Roles L t) (hu : t.Unused f)
    (hn : n = L.xstack ∨ n = L.temp ∧ t.role y ≠ .setup ∧ (∀ m k, t.fault y ≠ some (.copy m k)) ∧
    ∀ c p st, t.role y = .fork c p st → L.stack < p) : Frames L (t.assign y n (.own f)) := by
  have ht := L.temp_lt
  refine h.assignOwn hR ?_ (hn.imp id ?_) fun z m k hz => ⟨hz,?_⟩
  · exact fun z m e he hf => absurd ⟨e,he,hf⟩ (hu z m)
  · exact fun ⟨_,h1,_,h2⟩ => ⟨h1,fun c p st hr => ⟨by omega,h2 c p st hr⟩⟩
  rintro rfl
  exact hn.resolve_right fun hc => hc.2.2.1 m k hz

lemma Frames.remap {x : Entry} (hR : Roles L t) (hf : t.fault y = some (.copy n L.size)) (hx
    : t.space y L.temp = some x) : Frames L ((t.assign y n (.own x.frame)).setFault y none) := by
  obtain ⟨x',hx',hxp,hsole⟩ := h.temp y n _ hf
  rw [hx] at hx'
  cases hx'
  refine h.assignOwn hR ?_ (.inr ⟨(hR.faulting hf).2,?_⟩) fun z m k hz => ?_
  · intro z m e he hfr
    obtain ⟨rfl,rfl⟩ := hsole z m ⟨e,he,hfr⟩
    rw [hx] at he
    cases he
    exact ⟨rfl,rfl,hxp.2,(hR.faults z _ hf).1⟩
  · intro c p st hr
    obtain ⟨h1,h2⟩ := (hR.fork y c p st hr).faults _ hf
    exact ⟨Nat.le_of_eq h1,h2⟩
  have hzy : z ≠ y := by
    rintro rfl
    simp at hz
  exact ⟨by simpa [hzy] using hz,fun hc => absurd hc hzy⟩

lemma Frames.dupInto {st : Stage} {e e' : Entry} (hR : Roles L t)
    (hr : t.role y = .fork c p st) (hf : t.fault y = none) (he : t.space y p = some e)
    (hpx : p ≠ L.xstack) (hfr : e'.frame = e.frame) (hpr : ¬e'.Private) (hsh : e'.share = e.share)
    (hw : e'.write → e.write) : Frames L (t.assign c p e') := by
  have hl := L.temp_lt
  have ho := hR.fork y c p st hr
  have hcy := ho.ne hr
  have hyp : t.Maps y p e.frame := State.maps_of_space he
  -- what a frame shared with the new entry is shared with already
  have source : ∀ z m f, (t.assign c p e').Maps z m f → (z = c ∧ m = p ∧ t.Maps y p f) ∨
      t.Maps z m f := by
    intro z m f hm
    obtain ⟨h1,h2,h3⟩ | ⟨_,hm⟩ := maps_assign.mp hm
    · exact .inl ⟨h1,h2,by rw [← h3,hfr]; exact hyp⟩
    exact .inr hm
  have still : ∀ z m f, z ≠ c → t.Maps z m f → (t.assign c p e').Maps z m f :=
    fun z m f hz hm => maps_assign.mpr (.inr ⟨fun hc => hz hc.1,hm⟩)
  have notc : ∀ z c' q s, t.role z = .fork c' q s → z ≠ c := by
    rintro z c' q s hz rfl
    rw [ho.child] at hz
    cases hz
  refine ⟨?_,?_,?_,?_,?_,?_,?_,?_⟩
  · intro z m e0 hz he0 hpr0
    obtain ⟨_,_,rfl⟩ | ⟨_,he0⟩ := space_assign_cases he0
    · exact absurd hpr0 hpr
    exact h.setup z m e0 hz he0 hpr0
  · intro z m e0 z' m' he0 hpr0 hm hne
    obtain ⟨_,_,rfl⟩ | ⟨_,he0⟩ := space_assign_cases he0
    · exact absurd hpr0 hpr
    obtain ⟨hz',_,hm⟩ | hm := source z' m' _ hm
    · by_cases hzy : z = y
      · rw [hzy] at he0
        rw [hz',hzy]
        refine ⟨p,st,hr,Nat.le_of_not_lt fun hlt => ?_⟩
        exact absurd (h.split y c p st m p e0 hr he0 hpr0 hlt hm) (by omega)
      obtain ⟨q,s,hz,_⟩ := h.alone z m e0 y p he0 hpr0 hm (fun hc => hzy hc.symm)
      have := (hR.fork z y q s hz).child
      rw [hr] at this
      cases this
    exact h.alone z m e0 z' m' he0 hpr0 hm hne
  · intro z c' q s m m' e0 hz he0 hpr0 hlt hm
    have hzc := notc z c' q s hz
    refine h.split z c' q s m m' e0 hz (by simpa [hzc] using he0) hpr0 hlt ?_
    obtain ⟨hc,_⟩ | hm := source z m' _ hm
    · exact absurd hc hzc
    exact hm
  · intro z z' m' e0 he0 hm
    obtain ⟨_,hc,_⟩ | ⟨_,he0⟩ := space_assign_cases he0
    · exact absurd hc.symm hpx
    obtain ⟨_,_,hm⟩ | hm := source z' m' _ hm
    · exact absurd (h.xstack z y p e0 he0 hm).2 hpx
    exact h.xstack z z' m' e0 he0 hm
  · intro z m e0 z' m' e1 he0 hw0 hsh0 he1 hfr1
    -- the new entry stands for the one it was taken from
    have old : ∀ z m e1, (t.assign c p e').space z m = some e1 →
        ∃ z m e2, t.space z m = some e2 ∧ e2.frame = e1.frame ∧ e2.share = e1.share ∧
          (e1.write → e2.write) := by
      intro z m e1 he1
      obtain ⟨_,_,rfl⟩ | ⟨_,he1⟩ := space_assign_cases he1
      · exact ⟨y,p,e,he,hfr.symm,hsh.symm,hw⟩
      exact ⟨z,m,e1,he1,rfl,rfl,id⟩
    obtain ⟨w,k,e2,he2,hf2,hs2,hw2⟩ := old z m e0 he0
    obtain ⟨w',k',e3,he3,hf3,hs3,_⟩ := old z' m' e1 he1
    rw [← hs3]
    exact h.shared w k e2 w' k' e3 he2 (hw2 hw0) (hs2.trans hsh0) he3 (by rw [hf3,hfr1,hf2])
  · intro z m e0 he0 hm hlt
    obtain ⟨rfl,hps,rfl⟩ | ⟨hne,he0⟩ := space_assign_cases he0
    · obtain ⟨_,hc,_⟩ | ⟨e1,he1,hfr1⟩ := source z m _ hm
      · omega
      have hm' := h.inherit y z p st m e1 hr (by omega) he1 (by have := L.stack_lt; omega)
      refine h.stack y m e ?_ ?_ hlt
      · rw [hps]; exact he
      rw [← hfr,← hfr1]; exact hm'
    by_cases hzc : z = c
    · have hlt' := ho.visited L.stack e0 (by rw [← hzc]; exact he0)
        (by have := L.stack_lt; omega)
      obtain ⟨_,hc,_⟩ | hm := source z m _ hm
      · omega
      exact h.stack z m e0 he0 hm hlt
    obtain ⟨hc,_⟩ | hm := source z m _ hm
    · exact absurd hc hzc
    exact h.stack z m e0 he0 hm hlt
  · intro z c' q s m e0 hz hq he0 hm
    refine still z m _ (notc z c' q s hz) ?_
    obtain ⟨rfl,rfl,rfl⟩ | ⟨_,he0⟩ := space_assign_cases he0
    · rw [ho.sole z q s hz,hfr]
      exact hyp
    exact h.inherit z c' q s m e0 hz hq he0 hm
  intro z m k hz
  change t.fault z = some (.copy m k) at hz
  have hzc : z ≠ c := by
    rintro rfl
    rw [hR.idle z (.inr ho.child)] at hz
    cases hz
  obtain ⟨e0,he0,hpr0,hs⟩ := h.temp z m k hz
  refine ⟨e0,by simpa [hzc] using he0,hpr0,fun z' m' hm => ?_⟩
  obtain ⟨_,_,hm⟩ | hm := source z' m' _ hm
  · rw [← (hs y p hm).1,hf] at hz
    cases hz
  exact hs z' m' hm

lemma Frames.dupSelf {e : Entry} (hf : t.fault y = none) (he : t.space y p = some e)
    (hsh : e.share = false) : Frames L (t.assign y p (.lazy e.frame)) := by
  have same : ∀ z m f, (t.assign y p (.lazy e.frame)).Maps z m f ↔ t.Maps z m f := by
    intro z m f
    rw [maps_assign]
    by_cases hc : z = y ∧ m = p
    · obtain ⟨rfl,rfl⟩ := hc
      simp [Maps,he,Entry.lazy]
    simp only [hc,not_false_eq_true,true_and]
    exact ⟨fun hm => hm.resolve_left fun hm => hc ⟨hm.1,hm.2.1⟩,.inr⟩
  have old : ∀ z m e0, (t.assign y p (.lazy e.frame)).space z m = some e0 → e0.write →
      t.space z m = some e0 := by
    intro z m e0 he0 hw
    obtain ⟨_,_,rfl⟩ | ⟨_,he0⟩ := space_assign_cases he0
    · contradiction
    exact he0
  have entry : ∀ z m e0, (t.assign y p (.lazy e.frame)).space z m = some e0 →
      ∃ e1, t.space z m = some e1 ∧ e1.frame = e0.frame ∧ (e1.share → e0.share) := by
    intro z m e0 he0
    obtain ⟨rfl,rfl,rfl⟩ | ⟨_,he0⟩ := space_assign_cases he0
    · exact ⟨e,he,rfl,fun hc => by rw [hsh] at hc; contradiction⟩
    exact ⟨e0,he0,rfl,id⟩
  refine ⟨?_,?_,?_,?_,?_,?_,?_,?_⟩
  · exact fun z m e0 hz he0 hpr => h.setup z m e0 hz (old z m e0 he0 hpr.1) hpr
  · intro z m e0 z' m' he0 hpr hm
    exact h.alone z m e0 z' m' (old z m e0 he0 hpr.1) hpr ((same _ _ _).mp hm)
  · intro z c' q s m m' e0 hz he0 hpr hlt hm
    exact h.split z c' q s m m' e0 hz (old z m e0 he0 hpr.1) hpr hlt ((same _ _ _).mp hm)
  · intro z z' m' e0 he0 hm
    obtain ⟨e1,he1,hfr,_⟩ := entry z _ e0 he0
    exact h.xstack z z' m' e1 he1 (by rw [hfr]; exact (same _ _ _).mp hm)
  · intro z m e0 z' m' e1 he0 hw hs he1 hfr
    obtain ⟨e2,he2,hfr2,hs2⟩ := entry z' m' e1 he1
    exact hs2 (h.shared z m e0 z' m' e2 (old z m e0 he0 hw) hw hs he2 (hfr2.trans hfr))
  · intro z m e0 he0 hm
    obtain ⟨e1,he1,hfr,_⟩ := entry z _ e0 he0
    exact h.stack z m e1 he1 (by rw [hfr]; exact (same _ _ _).mp hm)
  · intro z c' q s m e0 hz hq he0 hm
    obtain ⟨e1,he1,hfr,_⟩ := entry c' m e0 he0
    rw [same,← hfr]
    exact h.inherit z c' q s m e1 hz hq he1 hm
  intro z m k hz
  obtain ⟨e0,he0,hpr,hs⟩ := h.temp z m k hz
  have hzy : z ≠ y := by
    rintro rfl
    have hz : t.fault z = some (.copy m k) := hz
    rw [hf] at hz
    cases hz
  exact ⟨e0,by simpa [hzy] using he0,hpr,fun z' m' hm => hs z' m' ((same _ _ _).mp hm)⟩

lemma Frames.step {a : Label} (hR : Roles L t) (hs : Step L t a t') : Frames L t' := by
  cases hs with
  | store => exact h.congr rfl rfl rfl
  | @begin y n e x hw hf he hc hx hxw =>
    refine {h with temp := ?_}
    intro z m k hz
    have hzy : z ≠ y := by
      rintro rfl
      simp at hz
    exact h.temp z m k (by simpa [hzy] using hz)
  | @alloc y n f d hf hu hk =>
    have h1 : Frames L (t.assign y L.temp (.own f)) := by
      refine h.assignFresh hR hu (.inr ⟨rfl,(hR.faulting hf).2,by simp [hf],?_⟩)
      exact fun c p st hr => ((hR.fork y c p st hr).faults _ hf).2
    refine {h1 with temp := ?_}
    intro z m k hz
    by_cases hzy : z = y
    · subst hzy
      refine ⟨.own f,by simp,own_private f,fun z' m' hm => ?_⟩
      obtain ⟨h1,h2,_⟩ | ⟨_,hm⟩ := maps_assign.mp hm
      · exact ⟨h1,h2⟩
      exact absurd hm (hu z' m')
    exact h1.temp z m k (by simpa [hzy] using hz)
  | @copy y n k e x hf hk he hx =>
    refine {h with temp := ?_}
    intro z m j hz
    by_cases hzy : z = y
    · rw [hzy]
      exact h.temp y n k hf
    exact h.temp z m j (by simpa [hzy] using hz)
  | @remap y n x d hf hx hk => exact (h.remap hR hf hx).congr rfl rfl rfl
  | @xstack y f d hr hf hu hk => exact (h.assignFresh hR hu (.inl rfl)).congr rfl rfl rfl
  | enter hr => exact h.setRole (by simp) (by simp [hr]) (by simp)
  | @exofork y c d hr hf hc hk => exact (h.exofork hR hr hc).congr rfl rfl rfl
  | @skip y c p p' hr hf hp hn =>
    refine h.move hr hp fun n e h1 h2 he _ => ?_
    refine (hn n h1 h2).resolve_left fun hc => ?_
    rw [hc] at he
    cases he
  | @look y c p e hr hf hp he =>
    exact h.move hr le_rfl fun n _ h1 h2 => absurd h1 (by omega)
  | @dupChild y c p e d hr hf he hk =>
    obtain ⟨hpx,e',he',hsh,_⟩ := (hR.fork y c p _ hr).half (.inl rfl)
    rw [he] at he'
    cases he'
    have h1 : Frames L (t.assign c p (.lazy e.frame)) :=
      h.dupInto hR hr hf he hpx rfl (not_private_lazy _) hsh.symm fun hc => absurd hc (by simp [Entry.lazy])
    refine (h1.move (p := p) hr le_rfl ?_).congr rfl rfl rfl
    exact fun n _ h1 h2 => absurd h1 (by omega)
  | @dupSelf y c p e d hr hf he hk =>
    obtain ⟨_,e',he',hsh,_⟩ := (hR.fork y c p _ hr).half (.inr rfl)
    rw [he] at he'
    cases he'
    have h1 := h.dupSelf hf he hsh
    refine (h1.move (p := p) hr (Nat.le_succ p) ?_).congr rfl rfl rfl
    intro n e0 hle hlt he0 hpr
    obtain rfl : n = p := by omega
    simp only [State.space_assign,and_self,if_true] at he0
    cases he0
    exact absurd hpr (not_private_lazy _)
  | @dupKeep y c p e d hr hf he hk =>
    obtain ⟨hpx,_,hpr⟩ := (hR.fork y c p _ hr).keep e rfl
    have h1 := h.dupInto hR hr hf he hpx rfl hpr rfl id
    refine (h1.move (p := p) hr (Nat.le_succ p) ?_).congr rfl rfl rfl
    intro n e0 hle hlt he0 hpr0
    obtain rfl : n = p := by omega
    have hyc := ((hR.fork y c n _ hr).ne hr).symm
    have he0 : t.space y n = some e0 := by simpa [hyc] using he0
    rw [he] at he0
    cases he0
    exact absurd hpr0 hpr
  | @childStack y c f d hr hf hu hk => exact (h.assignFresh hR hu (.inl rfl)).congr rfl rfl rfl
  | @release y c hr hf => exact h.release hR hr
  | finish hr => exact h.setRole (by simp) (by simp [hr]) (by simp)

end

end frames

end CopyOnWrite
