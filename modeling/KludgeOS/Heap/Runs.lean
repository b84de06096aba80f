import KludgeOS.Heap.Chunks

/-!
Programs that call `malloc` and `free`: the blocks they have are usable, and their pages are
given back, in every run that keeps clear of three mistakes.
-/

namespace KludgeOS.Malloc
open Option PageOps Block

structure Prog (σ : Type) where
  heap : Heap σ
  live : List Block

inductive Op where
  | malloc : Word → Op
  | free : Block → Op
  | write : Word → Word → Op

inductive Step {Ω σ : Type} (M : PageOps Ω σ) : Prog σ → Op → Prog σ → Prop where
  | malloc {p : Prog σ} {ω : Ω} {n v : Word} {h : Heap σ} : M.malloc ω n p.heap = some (v,h) →
      Step M p (.malloc n) ⟨h,if v = 0 then p.live else ⟨v,n⟩ :: p.live⟩
  | free {p : Prog σ} {b : Block} {s : σ} : b ∈ p.live → M.free b.addr p.heap.space = some s →
      Step M p (.free b) ⟨⟨s,p.heap.mptr⟩,p.live.erase b⟩
  | write {p : Prog σ} {b : Block} {a w : Word} {s : σ} : b ∈ p.live → b.addr.toNat ≤ a.toNat →
      a.toNat < b.stop → a.toNat%4 = 0 → M.store p.heap.space a w = some s →
      Step M p (.write a w) ⟨⟨s,p.heap.mptr⟩,p.live⟩

/-- The states of a program all of whose steps meet `C`. -/
inductive Runs {Ω σ : Type} (M : PageOps Ω σ) (C : Prog σ → Op → Prop) (p₀ : Prog σ) :
    Prog σ → Prop where
  | start : Runs M C p₀ p₀
  | step {p p' : Prog σ} {op : Op} : Runs M C p₀ p → C p op → Step M p op p' → Runs M C p₀ p'

def Prog.start {σ : Type} (s : σ) : Prog σ := ⟨⟨s,0⟩,[]⟩

variable {Ω σ : Type}

def Prog.exec (M : PageOps Ω σ) (ω : Ω) (p : Prog σ) : Op → Option (Prog σ)
  | .malloc n => do
    let (v,h) ← M.malloc ω n p.heap
    return ⟨h,if v = 0 then p.live else ⟨v,n⟩ :: p.live⟩
  | .free b =>
    if b ∈ p.live then do
      let s ← M.free b.addr p.heap.space
      return ⟨⟨s,p.heap.mptr⟩,p.live.erase b⟩
    else none
  | .write a w =>
    if (∃ b ∈ p.live, b.addr.toNat ≤ a.toNat ∧ a.toNat < b.stop) ∧ a.toNat%4 = 0 then do
      let s ← M.store p.heap.space a w
      return ⟨⟨s,p.heap.mptr⟩,p.live⟩
    else none

def Prog.execAll (M : PageOps Ω σ) (ω : Ω) (C : Prog σ → Op → Prop) [∀ p op, Decidable (C p op)] :
    List Op → Prog σ → Option (Prog σ)
  | [],p => some p
  | op :: l,p => if C p op then (p.exec M ω op).bind (execAll M ω C l) else none

def Sensible (M : PageOps Ω σ) (p : Prog σ) : Op → Prop
  | .malloc n => n.toNat ≤ 2^32-4 ∧ M.Careful n p.heap
  | _ => True

def Tidy (M : PageOps Ω σ) (p : Prog σ) : Op → Prop
  | .malloc n => Ragged n p.heap ∧ M.Careful n p.heap
  | _ => True

instance (M : PageOps Ω σ) (p : Prog σ) : (op : Op) → Decidable (Sensible M p op)
  | .malloc n => inferInstanceAs (Decidable (n.toNat ≤ 2^32-4 ∧ M.Careful n p.heap))
  | .free _ | .write _ _ => inferInstanceAs (Decidable True)

instance (M : PageOps Ω σ) (p : Prog σ) : (op : Op) → Decidable (Tidy M p op)
  | .malloc n => inferInstanceAs (Decidable (Ragged n p.heap ∧ M.Careful n p.heap))
  | .free _ | .write _ _ => inferInstanceAs (Decidable True)

structure Usable (M : PageOps Ω σ) (p : Prog σ) : Prop where
  aligned : ∀ b ∈ p.live, b.addr.toNat%4 = 0
  inside : ∀ b ∈ p.live, ∀ a, b.Has a →
    mbegin.toNat ≤ a ∧ a < mend.toNat ∧ M.vpt p.heap.space (a/4096) ≠ none
  disjoint : p.live.Pairwise fun b c => ∀ a, b.Has a → ¬c.Has a
  uncounted : ∀ b ∈ p.live, ∀ a, b.Has a → ∀ q, InArena q → M.Counted p.heap.space q →
    ¬((countAt q).toNat ≤ a ∧ a < (countAt q).toNat+4)

/-- What is unmapped from `p` to `p'` has no byte of a block that the program had and keeps. -/
def Spares (M : PageOps Ω σ) (p p' : Prog σ) : Prop :=
  M.Logs p.heap.space p'.heap.space fun q =>
    ∀ b ∈ p.live, b ∈ p'.live → ∀ a, b.Has a → a/4096 ≠ q

section

variable {M : PageOps Ω σ} {W : σ → Prop} {p p' : Prog σ} {op : Op} {extra : Nat → Nat}

lemma Step.exec {ω : Ω} (h : p.exec M ω op = some p') : Step M p op p' := by
  cases op with
  | malloc n =>
    obtain ⟨⟨v,h'⟩,hm,hp⟩ := of_bind h
    cases hp
    exact .malloc hm
  | free b =>
    simp only [Prog.exec] at h
    split at h
    · rename_i hb
      obtain ⟨s,hs,hp⟩ := of_bind h
      cases hp
      exact .free hb hs
    cases h
  | write a w =>
    simp only [Prog.exec] at h
    split at h
    · rename_i hb
      obtain ⟨⟨b,hb,hlo,hhi⟩,hal⟩ := hb
      obtain ⟨s,hs,hp⟩ := of_bind h
      cases hp
      exact .write hb hlo hhi hal hs
    cases h

lemma Runs.execAll {ω : Ω} {C : Prog σ → Op → Prop} [∀ p op, Decidable (C p op)] {p₀ : Prog σ}
    (l : List Op) : ∀ {p : Prog σ}, Runs M C p₀ p → p.execAll M ω C l = some p' → Runs M C p₀ p' := by
  induction l with
  | nil =>
    intro p hp h
    cases h
    exact hp
  | cons op l ih =>
    intro p hp h
    simp only [Prog.execAll] at h
    split at h
    · rename_i hc
      obtain ⟨p1,h1,h⟩ := of_bind h
      exact ih (hp.step hc (.exec h1)) h
    cases h

lemma Intact.start {s : σ} (h : ∀ q, InArena q → M.vpt s q = none) : Intact M s 0 [] (held 0) where
  placed := by simp
  disjoint := .nil
  counted q hq hqc := absurd (h q hq) hqc.mapped
  owned q hq hqc := absurd (h q hq) hqc.mapped
  stray q hq := by simp [held] at hq
  ptr := .inl rfl
  middle hm := absurd rfl hm

variable {b : Block} {a q : Nat}

lemma Block.Placed.uncounted {s : σ} (h : b.Placed M s) (hlo : b.addr.toNat ≤ a)
    (hhi : a < b.stop) (hq : M.Counted s q) (hin : InArena q) :
    ¬((countAt q).toNat ≤ a ∧ a < (countAt q).toNat+4) := by
  rw [countAt_toNat (by omega)]
  rintro ⟨h1,h2⟩
  have hword := h.word
  have hsize := b.size_mod
  have hstop : b.stop = b.addr.toNat+b.size := rfl
  have htail : b.stop/4096 = b.tail := rfl
  have hhead : b.addr.toNat/4096 = b.head := (PPN_eq _).symm
  by_cases hlt : q < b.tail
  · exact hq.not_continued (h.cont q (by omega) hlt)
  omega

lemma Step.intact (law : M.Lawful W) (hW : W p.heap.space) (hi : Intact M p.heap.space
    p.heap.mptr p.live extra) (hc : ∀ n, op = .malloc n → M.Careful n p.heap) (h : Step M p op p')
    : W p'.heap.space ∧ (M.Logs p.heap.space p'.heap.space fun q => ∀ b ∈ p.live, b ∈ p'.live →
    ¬b.On q) ∧ ∃ extra', Intact M p'.heap.space p'.heap.mptr p'.live extra' ∧ (extra =
    held p.heap.mptr → (∀ n, op = .malloc n → Ragged n p.heap) → extra' = held p'.heap.mptr) := by
  cases h with
  | malloc hm =>
    rename_i ω n v h'
    obtain ⟨v1,h1,hm1,hW1,hl1,extra',hi1,hr1⟩ := malloc_spec (ω := ω) law hW hi (hc n rfl)
    obtain ⟨rfl,rfl⟩ := Prod.mk.inj (mem_unique hm hm1)
    exact ⟨hW1,hl1.mono fun q hq b hb _ => hq b hb,extra',hi1,fun he hr => hr1 he (hr n rfl)⟩
  | free hb hf =>
    obtain ⟨s1,hf1,hW1,hi1,hl1⟩ := free_spec law hW hi hb
    obtain rfl := mem_unique hf hf1
    exact ⟨hW1,hl1.mono fun q hq b _ hb => hi1.off_blocks hq b hb,extra,hi1,fun he _ => he⟩
  | write hb hlo hhi hal hs =>
    rename_i b a w s1
    have hbp := hi.placed b hb
    have hon : b.On (PPN a) := by
      simp only [On,head,tail,PPN_eq]
      omega
    obtain ⟨s2,hs2,hW2,hv2,hl2,hld2⟩ := law.store w hW (hbp.inArena hon) hal (hbp.mapped hon)
    obtain rfl := mem_unique hs hs2
    refine ⟨hW2,hl2.mono fun _ => False.elim,extra,hi.congr hv2 fun q hq hqc => ?_,fun he _ => he⟩
    rw [hld2 q hq,if_neg]
    intro hqa
    refine hbp.uncounted hlo hhi hqc hq ?_
    rw [hqa]
    omega

lemma Runs.intact {C : Prog σ → Op → Prop} {s : σ} (law : M.Lawful W) (hW : W s)
    (hs : ∀ q, InArena q → M.vpt s q = none) (hC : ∀ p n, C p (.malloc n) → M.Careful n p.heap)
    (h : Runs M C (.start s) p) : W p.heap.space ∧ ∃ extra, Intact M p.heap.space p.heap.mptr p.live
    extra ∧ ((∀ p n, C p (.malloc n) → Ragged n p.heap) → extra = held p.heap.mptr) := by
  induction h with
  | start => exact ⟨hW,held 0,Intact.start hs,fun _ => rfl⟩
  | step _ hc hstep ih =>
    obtain ⟨hW1,extra,hi,hheld⟩ := ih
    obtain ⟨hW2,_,extra',hi',hheld'⟩ := hstep.intact law hW1 hi fun n hn => hC _ n (hn ▸ hc)
    exact ⟨hW2,extra',hi',fun hr => hheld' (hheld hr) fun n hn => hr _ n (hn ▸ hc)⟩

lemma Runs.sizes {p₀ : Prog σ} (h0 : p₀.live = []) (h : Runs M (Sensible M) p₀ p) :
    ∀ b ∈ p.live, b.n.toNat ≤ 2^32-4 := by
  induction h with
  | start => simp [h0]
  | step _ hc hstep ih =>
    cases hstep with
    | malloc hm =>
      simp only
      split
      · exact ih
      intro b hb
      obtain rfl | hb := List.mem_cons.mp hb
      · exact hc.1
      exact ih b hb
    | free _ _ => exact fun b hb => ih b (List.mem_of_mem_erase hb)
    | write _ _ _ _ _ => exact ih

lemma Block.Has.inside (h : b.Has a) (hn : b.n.toNat ≤ 2^32-4) : b.addr.toNat ≤ a ∧ a < b.stop := by
  have := (ROUNDUP_four hn).1
  simp only [Has,stop,size] at h ⊢
  omega

lemma Block.Has.on (h : b.Has a) (hn : b.n.toNat ≤ 2^32-4) : b.On (a/4096) := by
  have := h.inside hn
  simp only [On,head,tail,PPN_eq]
  omega

lemma Intact.usable (h : Intact M p.heap.space p.heap.mptr p.live extra)
    (hn : ∀ b ∈ p.live, b.n.toNat ≤ 2^32-4) : Usable M p where
  aligned b hb := (h.placed b hb).word
  inside b hb a ha := by
    have hin := ha.inside (hn b hb)
    have h1 := (h.placed b hb).lo
    have h2 := (h.placed b hb).hi
    exact ⟨by omega,by omega,(h.placed b hb).mapped (ha.on (hn b hb))⟩
  disjoint := by
    refine h.disjoint.imp_of_mem fun {b c} hb hc hd a hab hac => ?_
    have h1 := hab.inside (hn b hb)
    have h2 := hac.inside (hn c hc)
    simp only [Block.Disjoint] at hd
    omega
  uncounted b hb a ha q hq hqc :=
    (h.placed b hb).uncounted (ha.inside (hn b hb)).1 (ha.inside (hn b hb)).2 hqc hq

lemma Intact.drained {s : σ} {m : Word} (h : Intact M s m [] (held m)) (hq : InArena q)
    (hm : M.vpt s q ≠ none) : m.toNat%4096 ≠ 0 ∧ q = PPN m := by
  obtain ⟨w,hw⟩ := ne_none_iff_exists'.mp hm
  by_cases hc : w&&&PTE_CONTINUED = 0
  · have := (h.counted q hq ⟨w,hw,hc⟩).1
    by_contra hno
    simp [refs,held,hno] at this
  obtain ⟨b,hb,_⟩ := h.owned q hq ⟨w,hw,hc⟩
  simp at hb

end

end KludgeOS.Malloc
