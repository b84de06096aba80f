import KludgeOS.CopyOnWrite.Family

/-!
The part of the invariant that is about roles: who sets up whom, and whose fault it is.
-/

namespace CopyOnWrite

variable {W : Type}

/-- The stack of `y` is writable and `y` is not in a fault. -/
def State.Ready (L : Layout) (t : State W) (y : Nat) : Prop :=
  t.fault y = none ∧ ∃ e, t.space y L.stack = some e ∧ e.write

/-- `y` duplicates itself into `c` and has come to page `p`. -/
structure ForkOk (L : Layout) (t : State W) (y c p : Nat) (st : Stage) : Prop where
  child : t.role c = .setup
  sole : ∀ z p' st', t.role z = .fork c p' st' → z = y
  visited : ∀ n e, t.space c n = some e → n ≠ L.xstack → n < p ∨ n = p ∧ (st = .cow ∨ st = .mid)
  ready : p ≤ L.stack → t.Ready L y
  half : st = .cow ∨ st = .mid → p ≠ L.xstack ∧ ∃ e, t.space y p = some e ∧ e.share = false ∧
    (st = .mid → t.space c p = some (.lazy e.frame))
  keep : ∀ e, st = .keep e → p ≠ L.xstack ∧ t.space y p = some e ∧ ¬e.Private
  faults : ∀ q, t.fault y = some q → q.page = L.stack ∧ L.stack < p

structure Roles (L : Layout) (t : State W) : Prop where
  bound : ∀ y n e, t.space y n = some e → n < L.pages
  out : ∀ y n, t.role y = .outside → t.space y n = none
  idle : ∀ y, t.role y = .outside ∨ t.role y = .setup → t.fault y = none
  fork : ∀ y c p st, t.role y = .fork c p st → ForkOk L t y c p st
  entered : ∀ y, t.role y = .enter → t.Ready L y
  faults : ∀ y q, t.fault y = some q → q.page ≠ L.xstack ∧ ∃ e, t.space y q.page = some e

section step

variable {L : Layout} {t t' : State W} {y c p n f : Nat} {st : Stage} {q : Fault}

lemma ForkOk.ne (h : ForkOk L t y c p st) (hr : t.role y = .fork c p st) : c ≠ y := by
  rintro rfl
  rw [h.child] at hr
  cases hr

lemma State.MayWrite.member (h : t.MayWrite L y n) (hf : t.fault y = none) :
    ¬(t.role y = .outside ∨ t.role y = .setup) := by
  rintro (hr|hr) <;> simp [State.MayWrite,hf,hr] at h

lemma State.MayWrite.inFault (h : t.MayWrite L y n) (hf : t.fault y = some q) : n = L.xstack := by
  simpa [State.MayWrite,hf] using h

lemma State.MayWrite.stacks (h : t.MayWrite L y n) (hr : t.role y ≠ .run) :
    n = L.stack ∨ n = L.xstack := by
  unfold State.MayWrite at h
  split at h
  · exact .inr h
  · contradiction
  · exact h.elim
  · exact h.elim
  exact h

lemma Roles.begin {e x : Entry} (h : Roles L t) (hw : t.MayWrite L y n) (hf : t.fault y = none)
    (he : t.space y n = some e) (hc : e.write = false) (hx : t.space y L.xstack = some x)
    (hxw : x.write) : Roles L (t.setFault y (some (.alloc n))) := by
  have hne : n ≠ L.xstack := by
    rintro rfl
    rw [he] at hx
    cases hx
    rw [hc] at hxw
    cases hxw
  -- a page that is not writable is not the stack of a member that is ready
  have hready : t.Ready L y → n ≠ L.stack := by
    rintro ⟨_,e',he',hw'⟩ rfl
    rw [he] at he'
    cases he'
    rw [hc] at hw'
    contradiction
  have keepReady : ∀ z, t.role z ≠ .run → t.Ready L z →
      (t.setFault y (some (.alloc n))).Ready L z := by
    intro z hr hz
    have hzy : z ≠ y := by
      rintro rfl
      exact hready hz ((hw.stacks hr).resolve_right hne)
    exact ⟨by simpa [hzy] using hz.1,hz.2⟩
  refine {h with idle := ?_, fork := ?_, entered := ?_, faults := ?_}
  · intro z hz
    have hzy : z ≠ y := by
      rintro rfl
      exact hw.member hf hz
    simpa [hzy] using h.idle z hz
  · intro z c p st hz
    have hz : t.role z = .fork c p st := hz
    have hrun : t.role z ≠ .run := by rw [hz]; simp
    have ho := h.fork z c p st hz
    refine {ho with ready := fun hp => keepReady z hrun (ho.ready hp), faults := ?_}
    intro q hq
    by_cases hzy : z = y
    · subst hzy
      obtain rfl : Fault.alloc n = q := by simpa using hq
      have hst : n = L.stack := (hw.stacks hrun).resolve_right hne
      refine ⟨hst,Nat.lt_of_not_le fun hp => ?_⟩
      exact hready (ho.ready hp) hst
    exact ho.faults q (by simpa [hzy] using hq)
  · intro z hz
    have hz : t.role z = .enter := hz
    exact keepReady z (by rw [hz]; simp) (h.entered z hz)
  intro z q hq
  by_cases hzy : z = y
  · subst hzy
    obtain rfl : Fault.alloc n = q := by simpa using hq
    exact ⟨hne,e,he⟩
  exact h.faults z q (by simpa [hzy] using hq)

lemma Roles.setFault {q' : Option Fault} (h : Roles L t) (hq : t.fault y = some q)
    (hq' : ∀ r, q' = some r → r.page = q.page) : Roles L (t.setFault y q') := by
  have back : ∀ z r, (t.setFault y q').fault z = some r →
      ∃ r', t.fault z = some r' ∧ r.page = r'.page := by
    intro z r hr
    by_cases hzy : z = y
    · exact ⟨q,by rw [hzy]; exact hq,hq' r (by simpa [hzy] using hr)⟩
    exact ⟨r,by simpa [hzy] using hr,rfl⟩
  have clear : ∀ z, t.fault z = none → (t.setFault y q').fault z = none := by
    intro z hz
    have hzy : z ≠ y := by
      rintro rfl
      rw [hq] at hz
      cases hz
    simpa [hzy] using hz
  refine {h with idle := ?_, fork := ?_, entered := ?_, faults := ?_}
  · exact fun z hz => clear z (h.idle z hz)
  · intro z c p st hz
    have ho := h.fork z c p st hz
    refine {ho with ready := ?_, faults := ?_}
    · exact fun hp => ⟨clear z (ho.ready hp).1,(ho.ready hp).2⟩
    intro r hr
    obtain ⟨r',hr',hpage⟩ := back z r hr
    rw [hpage]
    exact ho.faults r' hr'
  · exact fun z hz => ⟨clear z (h.entered z hz).1,(h.entered z hz).2⟩
  intro z r hr
  obtain ⟨r',hr',hpage⟩ := back z r hr
  rw [hpage]
  exact h.faults z r' hr'

/-- `y` no longer depends on its stack being writable. -/
def State.PastStack (L : Layout) (t : State W) (y : Nat) : Prop :=
  t.role y ≠ .enter ∧ ∀ c p st, t.role y = .fork c p st → L.stack < p

section

variable (h : Roles L t)
include h

lemma Roles.assign {e : Entry} (d : Nat → Nat → W) (hr : t.role y ≠ .outside) (hn : n < L.pages)
    (hv : ∀ z p st, t.role z = .fork y p st → n = L.xstack ∨ n < p ∨ n = p ∧ st = .cow)
    (hs : n = L.stack → e.write ∨ t.PastStack L y) (hp : ∀ c p st, t.role y = .fork c p st →
    st = .scan ∨ n ≠ p) : Roles L ({t with data := d}.assign y n e) := by
  have keepReady : ∀ z, t.Ready L z → ¬t.PastStack L z →
      ({t with data := d}.assign y n e).Ready L z := by
    rintro z ⟨hf,e',he',hw⟩ hz
    refine ⟨hf,?_⟩
    by_cases hc : z = y ∧ L.stack = n
    · obtain ⟨rfl,rfl⟩ := hc
      exact ⟨e,by simp,(hs rfl).resolve_right hz⟩
    exact ⟨e',by simpa [hc] using he',hw⟩
  refine {h with bound := ?_, out := ?_, fork := ?_, entered := ?_, faults := ?_}
  · intro z m e' he
    by_cases hc : z = y ∧ m = n
    · rw [hc.2]; exact hn
    exact h.bound z m e' (by simpa [hc] using he)
  · intro z m hz
    have hzy : z ≠ y := by
      rintro rfl
      exact hr hz
    simpa [hzy] using h.out z m hz
  · intro z c p st hz
    have hz : t.role z = .fork c p st := hz
    have ho := h.fork z c p st hz
    have hother : st ≠ .scan → ¬(z = y ∧ p = n) := by
      rintro hst ⟨rfl,rfl⟩
      exact (hp c p st hz).elim hst fun hne => hne rfl
    refine {ho with visited := ?_, ready := ?_, half := ?_, keep := ?_}
    · intro m e' he hm
      by_cases hc : c = y ∧ m = n
      · obtain ⟨rfl,rfl⟩ := hc
        exact ((hv z p st hz).resolve_left hm).imp id fun hc => ⟨hc.1,.inl hc.2⟩
      exact ho.visited m e' (by simpa [hc] using he) hm
    · exact fun hle => keepReady z (ho.ready hle) fun hc => absurd (hc.2 c p st hz) (by omega)
    · intro hst
      have hc := hother (by rcases hst with rfl | rfl <;> simp)
      obtain ⟨hpx,e',he,hsh,hmid⟩ := ho.half hst
      refine ⟨hpx,e',by simpa [hc] using he,hsh,fun hst' => ?_⟩
      have hc' : ¬(c = y ∧ p = n) := by
        rintro ⟨rfl,rfl⟩
        obtain h1 | h1 | ⟨_,h1⟩ := hv z p st hz
        · exact hpx h1
        · omega
        rw [hst'] at h1
        cases h1
      simpa [hc'] using hmid hst'
    intro e' hst
    have hc := hother (by rw [hst]; simp)
    simpa [hc] using ho.keep e' hst
  · intro z hz
    exact keepReady z (h.entered z hz) fun hc => hc.1 hz
  intro z q hq
  obtain ⟨h1,e',he⟩ := h.faults z q hq
  refine ⟨h1,?_⟩
  by_cases hc : z = y ∧ q.page = n
  · exact ⟨e,by simp [hc]⟩
  exact ⟨e',by simpa [hc] using he⟩

lemma Roles.setRole {r : Role} (hout : r ≠ .outside) (hidle : r = .setup → t.fault y = none)
    (hchild : r = .setup ∨ ∀ z p st, z ≠ y → t.role z ≠ .fork y p st)
    (hfork : ∀ c p st, r = .fork c p st → c ≠ y ∧ ForkOk L t y c p st)
    (henter : r = .enter → t.Ready L y) : Roles L (t.setRole y r) := by
  refine {h with out := ?_, idle := ?_, fork := ?_, entered := ?_}
  · intro z n hz
    by_cases hzy : z = y
    · exact absurd (by simpa [hzy] using hz) hout
    exact h.out z n (by simpa [hzy] using hz)
  · intro z hz
    by_cases hzy : z = y
    · subst hzy
      exact hidle (by simpa [hout] using hz)
    exact h.idle z (by simpa [hzy] using hz)
  · intro z c p st hz
    -- whichever of the two `z` is, its fork was in order before, and `y`'s new role is none of it
    have ho : c ≠ y ∨ r = .setup := by
      by_cases hzy : z = y
      · exact .inl (hfork c p st (by simpa [hzy] using hz)).1
      by_cases hcy : c = y
      · refine .inr (hchild.resolve_right fun hno => ?_)
        exact hno z p st hzy (by simpa [hzy,hcy] using hz)
      exact .inl hcy
    have hok : ForkOk L t z c p st := by
      by_cases hzy : z = y
      · rw [hzy]
        exact (hfork c p st (by simpa [hzy] using hz)).2
      exact h.fork z c p st (by simpa [hzy] using hz)
    refine {hok with child := ?_, sole := ?_}
    · obtain hcy | hset := ho
      · simpa [hcy] using hok.child
      by_cases hcy : c = y
      · simp [hcy,hset]
      simpa [hcy] using hok.child
    intro w p' st' hw
    by_cases hwy : w = y
    · subst hwy
      have hr : r = .fork c p' st' := by simpa using hw
      by_cases hzw : z = w
      · exact hzw.symm
      exact ((hfork c p' st' hr).2.sole z p st (by simpa [hzw] using hz)).symm
    exact hok.sole w p' st' (by simpa [hwy] using hw)
  intro z hz
  by_cases hzy : z = y
  · rw [hzy]
    exact henter (by simpa [hzy] using hz)
  exact h.entered z (by simpa [hzy] using hz)

lemma Roles.move {p' : Nat} {st' : Stage} (hr : t.role y = .fork c p st)
    (hp : p ≤ p') (hm : st = .cow ∨ st = .mid → p < p' ∨ st' = .mid) (hhalf : st' = .cow ∨
    st' = .mid → p' ≠ L.xstack ∧ ∃ e, t.space y p' = some e ∧ e.share = false ∧ (st' = .mid →
    t.space c p' = some (.lazy e.frame))) (hkeep : ∀ e, st' = .keep e → p' ≠ L.xstack ∧
    t.space y p' = some e ∧ ¬e.Private) : Roles L (t.setRole y (.fork c p' st')) := by
  have ho := h.fork y c p st hr
  refine h.setRole (by simp) (by simp) (.inr ?_) ?_ (by simp)
  · intro z q s _ hz
    have := (h.fork z y q s hz).child
    rw [hr] at this
    cases this
  rintro c' q s hq
  cases hq
  refine ⟨ho.ne hr,{ ho with visited := ?_, ready := fun hle => ho.ready (by omega),
                             half := hhalf, keep := hkeep, faults := ?_ }⟩
  · intro n e he hn
    obtain hlt | ⟨rfl,hst⟩ := ho.visited n e he hn
    · exact .inl (by omega)
    obtain hlt | hst' := hm hst
    · exact .inl hlt
    exact (Nat.lt_or_eq_of_le hp).imp id fun heq => ⟨heq,.inr hst'⟩
  intro r hr'
  obtain ⟨h1,h2⟩ := ho.faults r hr'
  exact ⟨h1,by omega⟩

lemma Roles.congr (hs : t'.space = t.space) (hr : t'.role = t.role)
    (hf : t'.fault = t.fault) : Roles L t' := by
  cases t with
  | mk space data role fault view =>
  cases t' with
  | mk space' data' role' fault' view' =>
  simp only at hs hr hf
  subst hs hr hf
  exact {h with fork := fun y c p st hy => {h.fork y c p st hy with}}

lemma Roles.not_child {z : Nat} (hy : t.role y ≠ .setup) :
    t.role z ≠ .fork y p st := fun hz => hy (h.fork z y p st hz).child

lemma Roles.faulting (hq : t.fault y = some q) : t.role y ≠ .outside ∧ t.role y ≠ .setup := by
  constructor
  all_goals
    intro hr
    have := h.idle y (by simp [hr])
    rw [hq] at this
    cases this

lemma Roles.alloc (d : Nat → Nat → W) (hf : t.fault y = some (.alloc n)) :
    Roles L (({t with data := d}.assign y L.temp (.own f)).setFault y (some (.copy n 0))) := by
  have hl := L.temp_lt
  have hx := L.stack_lt
  have hp := L.xstack_lt
  have hr := h.faulting hf
  refine (h.assign d hr.1 (by omega) ?_ ?_ ?_).setFault hf ?_
  · exact fun z p st hz => absurd hz (h.not_child hr.2)
  · exact fun hn => absurd hn (by omega)
  · intro c p st hy
    have := ((h.fork y c p st hy).faults _ hf).2
    exact .inr (by omega)
  rintro r hr
  cases hr
  rfl

lemma Roles.remap (d : Nat → Nat → W) (hf : t.fault y = some (.copy n L.size)) :
    Roles L (({t with data := d}.assign y n (.own f)).setFault y none) := by
  have hr := h.faulting hf
  obtain ⟨_,e,he⟩ := h.faults y _ hf
  refine (h.assign d hr.1 (h.bound y n e he) ?_ ?_ ?_).setFault hf (by simp)
  · exact fun z p st hz => absurd hz (h.not_child hr.2)
  · exact fun _ => .inl rfl
  intro c p st hy
  obtain ⟨h1,h2⟩ := (h.fork y c p st hy).faults _ hf
  exact .inr (by simp only [Fault.page] at h1; omega)

lemma Roles.exofork (hr : t.role y = .enter) (hf : t.fault y = none)
    (hc : t.role c = .outside) : Roles L ((t.setRole c .setup).setRole y (.fork c 0 .scan)) := by
  have hcy : c ≠ y := by
    rintro rfl
    rw [hr] at hc
    cases hc
  have h1 : Roles L (t.setRole c .setup) :=
    h.setRole (by simp) (fun _ => h.idle c (.inl hc)) (.inl rfl) (by simp) (by simp)
  refine h1.setRole (by simp) (by simp) (.inr ?_) ?_ (by simp)
  · intro z p st _
    refine h1.not_child ?_
    simp [hcy.symm,hr]
  rintro c' p st hp
  cases hp
  refine ⟨hcy,by simp,?_,?_,fun _ => h.entered y hr,by simp,by simp,?_⟩
  · intro z p' st' hz
    by_cases hzc : z = c
    · simp [hzc] at hz
    have := (h.fork z c p' st' (by simpa [hzc] using hz)).child
    rw [hc] at this
    cases this
  · intro n e he
    have : t.space c n = some e := he
    rw [h.out c n hc] at this
    cases this
  intro q hq
  have : t.fault y = some q := hq
  rw [hf] at this
  cases this

lemma Roles.release (hr : t.role y = .fork c L.pages .scan) :
    Roles L ((t.setRole y .leave).setRole c .run) := by
  have ho := h.fork y c _ _ hr
  have h1 : Roles L (t.setRole y .leave) := by
    refine h.setRole (by simp) (by simp) (.inr fun z p st _ => h.not_child ?_) (by simp) (by simp)
    rw [hr]; simp
  refine h1.setRole (by simp) (by simp) (.inr ?_) (by simp) (by simp)
  intro z p st _ hz
  by_cases hzy : z = y
  · simp [hzy] at hz
  exact hzy (ho.sole z p st (by simpa [hzy] using hz))

lemma Roles.step {a : Label} (hs : Step L t a t') : Roles L t' := by
  have hl := L.stack_lt
  have hpg := L.xstack_lt
  cases hs with
  | store => exact h.congr rfl rfl rfl
  | begin hw hf he hc hx hxw => exact h.begin hw hf he hc hx hxw
  | @alloc y n f d hf hu hk => exact h.alloc d hf
  | @copy y n k e x hf hk he hx =>
    have h1 : Roles L (t.setWord x.frame k (t.data e.frame k)) := h.congr rfl rfl rfl
    refine h1.setFault (q := .copy n k) hf ?_
    rintro r hr
    cases hr
    rfl
  | @remap y n x d hf hx hk => exact (h.remap (f := x.frame) d hf).congr rfl rfl rfl
  | @xstack y f d hr hf hu hk =>
    refine h.assign d (by simp [hr]) (by omega) ?_ (fun hn => absurd hn (by omega)) ?_
    · exact fun z p st hz => absurd hz (h.not_child (by simp [hr]))
    simp [hr]
  | @enter y e hr hf he hw =>
    refine h.setRole (by simp) (by simp) (.inr fun z p st _ => h.not_child ?_) (by simp) ?_
    · simp [hr]
    exact fun _ => ⟨hf,e,he,hw⟩
  | @exofork y c d hr hf hc hk =>
    have h1 : Roles L {t with data := d} := h.congr rfl rfl rfl
    exact h1.exofork hr hf hc
  | skip hr hf hp hn => exact h.move hr hp (by simp) (by simp) (by simp)
  | @look y c p e hr hf hp he =>
    refine h.move hr le_rfl (by simp) ?_ ?_
    · split
      · rename_i hc
        exact fun _ => ⟨hp,e,he,hc.1,by simp⟩
      simp
    split
    · simp
    rename_i hc
    intro e' heq
    cases heq
    exact ⟨hp,he,fun hpr => hc ⟨hpr.2,.inl hpr.1⟩⟩
  | @dupChild y c p e d hr hf he hk =>
    have ho := h.fork y c p _ hr
    have hcy := ho.ne hr
    obtain ⟨hpx,e',he',hsh,_⟩ := ho.half (.inl rfl)
    rw [he] at he'
    cases he'
    have h1 : Roles L ({t with data := d}.assign c p (.lazy e.frame)) := by
      refine h.assign d (by simp [ho.child]) (h.bound y p e he) ?_ ?_ ?_
      · intro z p' st hz
        obtain rfl := ho.sole z p' st hz
        obtain ⟨rfl,rfl⟩ : p = p' ∧ Stage.cow = st := by simpa [hr] using hz
        exact .inr (.inr ⟨rfl,rfl⟩)
      · intro _
        exact .inr ⟨by simp [ho.child],by simp [ho.child]⟩
      simp [ho.child]
    refine h1.move (p := p) hr le_rfl (by simp) (fun _ => ⟨hpx,e,?_,hsh,?_⟩) (by simp)
    · simpa [hcy.symm] using he
    simp
  | @dupSelf y c p e d hr hf he hk =>
    have h1 : Roles L (t.setRole y (.fork c (p+1) .scan)) :=
      h.move hr (Nat.le_succ p) (by simp) (by simp) (by simp)
    have h2 : Roles L ({t.setRole y (.fork c (p+1) .scan) with data := d}.assign y p
        (.lazy e.frame)) := by
      refine h1.assign d (by simp) (h.bound y p e he) ?_ ?_ ?_
      · intro z p' st hz
        exact absurd hz (h1.not_child (by simp))
      · intro hps
        refine .inr ⟨by simp,fun c' p' st' hp' => ?_⟩
        obtain ⟨_,rfl,_⟩ : c = c' ∧ p+1 = p' ∧ Stage.scan = st' := by simpa using hp'
        omega
      intro c' p' st' hp'
      obtain ⟨_,_,rfl⟩ : c = c' ∧ p+1 = p' ∧ Stage.scan = st' := by simpa using hp'
      exact .inl rfl
    exact h2.congr rfl rfl rfl
  | @dupKeep y c p e d hr hf he hk =>
    have ho := h.fork y c p _ hr
    have h1 : Roles L (t.setRole y (.fork c (p+1) .scan)) :=
      h.move hr (Nat.le_succ p) (by simp) (by simp) (by simp)
    have hcy := ho.ne hr
    have h2 : Roles L ({t.setRole y (.fork c (p+1) .scan) with data := d}.assign c p e) := by
      refine h1.assign d (by simp [hcy,ho.child]) (h.bound y p e he) ?_ ?_ ?_
      · intro z p' st hz
        by_cases hzy : z = y
        · obtain ⟨rfl,rfl⟩ : p+1 = p' ∧ Stage.scan = st := by simpa [hzy] using hz
          exact .inr (.inl (Nat.lt_succ_self p))
        exact absurd (ho.sole z p' st (by simpa [hzy] using hz)) hzy
      · intro _
        exact .inr ⟨by simp [hcy,ho.child],by simp [hcy,ho.child]⟩
      simp [hcy,ho.child]
    exact h2.congr rfl rfl rfl
  | @childStack y c f d hr hf hu hk =>
    have ho := h.fork y c _ _ hr
    refine h.assign d (by simp [ho.child]) hpg ?_ (fun hn => absurd hn (by omega)) ?_
    · exact fun _ _ _ _ => .inl rfl
    simp [ho.child]
  | release hr hf => exact h.release hr
  | @finish y hr hf =>
    refine h.setRole (by simp) (by simp) (.inr fun z p st _ => h.not_child ?_) (by simp) (by simp)
    simp [hr]

end

end step

end CopyOnWrite
