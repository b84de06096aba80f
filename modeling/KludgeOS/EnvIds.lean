import KludgeOS.CallEffects

/-!
The ids of environments over whole runs of `env_alloc` and `env_free` (`kern/env.c`).
-/

namespace KludgeOS
open BitVec (ofNat)
open BitVec Kern Option Event Function

def NGENERATION : Nat := 524287

lemma and_low_clear (x : Word) : (x&&&~~~(ofNat 32 (NENV-1))).toNat = x.toNat/1024*1024 := by
  have hshift : x&&&~~~(ofNat 32 (NENV-1)) = (x >>> 10) <<< 10 := by
    refine eq_of_getLsbD_eq fun i hi => ?_
    have hmask : (ofNat 32 (NENV-1)).getLsbD i = decide (i < 10) := by
      rw [getLsbD_ofNat,show NENV-1 = 2^10-1 from rfl,Nat.testBit_two_pow_sub_one]
      simp [hi]
    rw [getLsbD_and,getLsbD_not,hmask,getLsbD_shiftLeft,getLsbD_ushiftRight]
    by_cases hi' : i < 10
    · simp [hi']
    simp [hi,hi',show 10+(i-10) = i by omega]
  have hlt := x.isLt
  rw [hshift,toNat_shiftLeft,toNat_ushiftRight,Nat.shiftLeft_eq,Nat.shiftRight_eq_div_pow]
  omega

lemma nextEnvid_toNat {e n : Nat} {old : Word} (he : e < NENV)
    (hold : old.toNat = n*4096 ∧ n = 0 ∨ old.toNat = n*4096+e) (hn : n ≤ NGENERATION) :
    (nextEnvid e old).toNat = (n%NGENERATION+1)*4096+e := by
  have he : e < 1024 := he
  have hgen : NGENERATION = 524287 := rfl
  have hor : ∀ g : Word, ∀ k, g.toNat = k*4096 → k ≤ NGENERATION →
      (g|||ofNat 32 e).toNat = k*4096+e := by
    intro g k hg hk
    rw [toNat_or,toNat_ofNat,hg,Nat.mod_eq_of_lt (by omega),
      show k*4096 = 2^12*k by omega,← Nat.two_pow_add_eq_or_of_lt (by omega)]
  have hlt := old.isLt
  have hsum : ((old+ofNat 32 (2^ENVGENSHIFT))&&&~~~(ofNat 32 (NENV-1))).toNat = (n+1)*4096 := by
    rw [and_low_clear,toNat_add,show (ofNat 32 (2^ENVGENSHIFT)).toNat = 4096 from rfl]
    omega
  have hone : (ofNat 32 (2^ENVGENSHIFT)).toNat = 1*4096 := rfl
  unfold nextEnvid
  simp only
  split
  · rename_i hneg
    rw [toInt_eq_toNat_cond,hsum] at hneg
    rw [hor _ 1 hone (by omega)]
    split at hneg
    · omega
    have : n = NGENERATION := by omega
    rw [this,Nat.mod_self]
  rename_i hpos
  rw [toInt_eq_toNat_cond,hsum] at hpos
  have hsmall : n < NGENERATION := by
    by_contra hc
    have : n = 524287 := by omega
    subst this
    simp at hpos
  rw [hor _ (n+1) hsum (by omega),Nat.mod_eq_of_lt hsmall]

structure Born where
  id : Word
  alive : Bool
  deriving DecidableEq

def bury : List Born → List Born
  | [] => []
  | b :: l => {b with alive := false} :: l

def Event.Keeps : Event → Prop
  | .spawn _ => False
  | .reap _ => False
  | _ => True

/-- Runs of `env_alloc` and `env_free`, with the environments each slot has had, the newest first.
-/
inductive IdRun (K : Finset Nat) : Kern → (Nat → List Born) → Prop where
  | boot {s : Kern} : Boot K s → IdRun K s fun _ => []
  | alloc {s s' : Kern} {g : Nat → List Born} {a : Word} {e : Nat} : IdRun K s g →
      s.envAlloc a = some (.ok e,s') →
      IdRun K s' (update g e (⟨(s'.envs e).envId,true⟩ :: g e))
  | fail {s s' : Kern} {g : Nat → List Born} {a : Word} {r : Int} : IdRun K s g →
      s.envAlloc a = some (.error r,s') → IdRun K s' g
  | free {s s' : Kern} {g : Nat → List Born} {e : Nat} : IdRun K s g → e < NENV →
      s.envFree e = some s' → IdRun K s' (update g e (bury (g e)))
  | other {s s' : Kern} {g : Nat → List Born} : IdRun K s g → Does Event.Keeps s s' → IdRun K s' g

/-- The ids of slot `e` are numbered one after the other, and the slot has the last one. -/
structure Numbered (e : Nat) (old : Word) (l : List Born) : Prop where
  last : old = ((l.head?.map Born.id).getD 0)
  num : ∀ i b, l[i]? = some b → b.id.toNat = ((l.length-1-i)%NGENERATION+1)*4096+e

structure Fitting (s : Kern) (e : Nat) (l : List Born) : Prop where
  numbered : Numbered e (s.envs e).envId l
  alive : ∀ i b, l[i]? = some b → (b.alive ↔ i = 0 ∧ s.Live e)
  slot : l ≠ [] → e < NENV

section numbered

variable {e : Nat} {old : Word} {l : List Born}

section

variable (h : Numbered e old l)
include h

lemma Numbered.next (he : e < NENV) :
    (nextEnvid e old).toNat = (l.length%NGENERATION+1)*4096+e := by
  have hgen : NGENERATION = 524287 := rfl
  cases l with
  | nil =>
    have h0 : old = 0 := h.last
    exact nextEnvid_toNat he (.inl ⟨by rw [h0]; rfl,rfl⟩) (Nat.zero_le _)
  | cons b l =>
    have hb : old = b.id := h.last
    have hnum := h.num 0 b rfl
    rw [hgen] at hnum ⊢
    rw [hb,nextEnvid_toNat he (.inr hnum) (by rw [hgen]; omega),hgen,List.length_cons]
    congr 2
    omega

lemma Numbered.cons (he : e < NENV) (b : Born)
    (hb : b.id = nextEnvid e old) : Numbered e b.id (b :: l) := by
  refine ⟨rfl,fun i c hc => ?_⟩
  cases i with
  | zero =>
    cases hc
    rw [hb,h.next he]
    simp
  | succ i =>
    rw [h.num i c hc,List.length_cons]
    have : l.length+1-1-(i+1) = l.length-1-i := by omega
    rw [this]

lemma Numbered.ne {i j : Nat} {b c : Born} (hij : i < j)
    (hj : j < i+NGENERATION) (hb : l[i]? = some b) (hc : l[j]? = some c) : b.id ≠ c.id := by
  have hgen : NGENERATION = 524287 := rfl
  intro he
  have hjl := (List.getElem?_eq_some_iff.mp hc).1
  have h1 := h.num i b hb
  have h2 := h.num j c hc
  rw [he,h2] at h1
  rw [hgen] at h1 hj
  omega

lemma Numbered.id_pos (he : e < NENV) {b : Born} (hb : b ∈ l) : 0 < b.id.toInt ∧ ENVX b.id = e := by
  have hgen : NGENERATION = 524287 := rfl
  have he : e < 1024 := he
  obtain ⟨i,hi⟩ := List.mem_iff_getElem?.mp hb
  have hnum := h.num i b hi
  rw [hgen] at hnum
  constructor
  · rw [toInt_eq_toNat_cond,hnum,if_pos (by omega)]
    omega
  rw [ENVX,toNat_and,show (1023 : Word).toNat = 2^10-1 from rfl,
    Nat.and_two_pow_sub_one_eq_mod,hnum]
  omega

lemma Numbered.bury : Numbered e old (bury l) := by
  cases l with
  | nil => exact h
  | cons b l =>
    refine ⟨h.last,fun i c hc => ?_⟩
    cases i with
    | zero =>
      cases hc
      exact h.num 0 b rfl
    | succ i => exact h.num (i+1) c hc

end

end numbered

section fitting

variable {K : Finset Nat} {s s' : Kern} {g : Nat → List Born} {e : Nat} {l : List Born}

lemma Fitting.same (h : Fitting s e l) (hid : (s'.envs e).envId = (s.envs e).envId)
    (hlive : s'.Live e ↔ s.Live e) : Fitting s' e l := by
  refine ⟨by rw [hid]; exact h.numbered,fun i b hb => ?_,h.slot⟩
  rw [hlive]
  exact h.alive i b hb

lemma Event.Keeps.same {a : Event} (ha : a.Keeps) (hok : a.Ok s) (e : Nat) :
    ((a.apply s).envs e).envId = (s.envs e).envId ∧ ((a.apply s).Live e ↔ s.Live e) := by
  have hother : (∀ e' k, a ≠ .edit e' k) →
      ((a.apply s).envs e).envId = (s.envs e).envId ∧ ((a.apply s).Live e ↔ s.Live e) := by
    intro hedit
    have := envs_eq (s := s) (a := a) hedit (fun b hb => by rw [hb] at ha; exact ha)
      (fun b hb => by rw [hb] at ha; exact ha)
    unfold Live
    rw [this]
    exact ⟨rfl,Iff.rfl⟩
  cases a with
  | edit e' k =>
    have hquiet := (quiet_edit (s := s) (e := e') hok).envs e
    refine ⟨?_,and_congr_right fun _ => not_congr hquiet.free⟩
    by_cases hee : e = e'
    · subst hee
      simp only [Event.apply,modEnv_self]
      cases k <;> rfl
    simp only [Event.apply]
    rw [modEnv_other _ _ hee]
  | _ => exact hother (by simp)

lemma Does.keeps_same (h : Does Event.Keeps s s') (e : Nat) :
    (s'.envs e).envId = (s.envs e).envId ∧ (s'.Live e ↔ s.Live e) :=
  h.invariant (I := fun t => (t.envs e).envId = (s.envs e).envId ∧ (t.Live e ↔ s.Live e))
    (fun _ _ hi hok ha => ⟨(ha.same hok e).1.trans hi.1,(ha.same hok e).2.trans hi.2⟩) ⟨rfl,Iff.rfl⟩

lemma Fitting.spawn (h : Fitting s e l) (hfree : ¬s.Live e) (he : e < NENV) (p : Nat) (a : Word) :
    Fitting (s.spawn e p a) e (⟨((s.spawn e p a).envs e).envId,true⟩ :: l) := by
  have hid : ((s.spawn e p a).envs e).envId = nextEnvid e (s.envs e).envId := by
    rw [spawn_self]
    rfl
  refine ⟨h.numbered.cons he ⟨_,true⟩ hid,fun i b hb => ?_,fun _ => he⟩
  cases i with
  | zero =>
    cases hb
    exact iff_of_true rfl ⟨rfl,live_spawn he⟩
  | succ i =>
    have := (h.alive i b hb).not.mpr fun hc => hfree hc.2
    exact iff_of_false this (by simp)

lemma Fitting.bury (h : Fitting s e l) (hid : (s'.envs e).envId = (s.envs e).envId)
    (hdead : ¬s'.Live e) : Fitting s' e (bury l) := by
  refine ⟨by rw [hid]; exact h.numbered.bury,fun i b hb => ?_,fun hne => h.slot fun hc => ?_⟩
  · refine iff_of_false (fun ht => ?_) fun hc => hdead hc.2
    cases l with
    | nil => simp [KludgeOS.bury] at hb
    | cons c l =>
      cases i with
      | zero =>
        cases hb
        contradiction
      | succ i => exact absurd ((h.alive (i+1) b hb).mp ht).1 (by simp)
  rw [hc] at hne
  exact hne rfl

lemma Does.frees_id (h : Does (Frees e) s s') : (s'.envs e).envId = (s.envs e).envId := by
  refine h.invariant (I := fun t => (t.envs e).envId = (s.envs e).envId) (fun t a ht hok ha => ?_) rfl
  cases a with
  | unmap e1 n => exact ht
  | dropTable e1 d => exact ht
  | reap e1 =>
    obtain rfl : e1 = e := ha
    rw [Event.apply,reap_self]
    exact ht
  | _ => exact ha.elim

lemma IdRun.fitting (h : IdRun K s g) : Inv K NoHand s ∧ ∀ e, Fitting s e (g e) := by
  induction h with
  | boot hb =>
    refine ⟨hb.good.inv,fun e => ⟨⟨by rw [hb.envs]; rfl,by simp⟩,by simp,by simp⟩⟩
  | @alloc s s' g a e _ ha ih =>
    obtain ⟨hinv,hfit⟩ := ih
    rw [envAlloc_eq hinv] at ha
    cases hl : s.envFreeList with
    | nil => simp [hl] at ha
    | cons e' l =>
      simp only [hl] at ha
      split at ha
      · simp at ha
      rename_i hq
      obtain ⟨he,rfl⟩ := some_pair_inj ha
      obtain rfl := Except.ok.inj he
      have hok : Ok s (.spawn a) := ⟨by simp [hl],hq⟩
      have hmem := (hinv.table.free_iff e').mp (by simp [hl])
      refine ⟨hinv.event hok,fun e => ?_⟩
      simp only [Event.apply,hl,List.headD_cons]
      by_cases hee : e = e'
      · subst hee
        rw [update_self]
        exact (hfit e).spawn (fun hc => hc.2 hmem.2) hmem.1 _ _
      rw [update_of_ne hee]
      have := spawn_other (s := s) (p := s.pageFreeList.headD 0) (a := a) hee
      refine (hfit e).same (by rw [this]) ?_
      unfold Live
      rw [this]
  | @fail s s' g a r _ ha ih =>
    obtain ⟨hinv,hfit⟩ := ih
    rw [envAlloc_eq hinv] at ha
    have : s = s' := by
      split at ha
      · exact (some_pair_inj ha).2
      split at ha
      · exact (some_pair_inj ha).2
      simp at ha
    subst this
    exact ⟨hinv,hfit⟩
  | @free s s' g e _ he hf ih =>
    obtain ⟨hinv,hfit⟩ := ih
    obtain ⟨hdead,hid,hother⟩ : ¬s'.Live e ∧ (s'.envs e).envId = (s.envs e).envId ∧
        (Inv K NoHand s' ∧ ∀ e', e' ≠ e → s'.envs e' = s.envs e') := by
      by_cases hlive : s.Live e
      · obtain ⟨t,ht,hdoes,hdead⟩ := envFree_spec hinv hlive
        obtain rfl := mem_unique hf ht
        exact ⟨hdead,hdoes.frees_id,hdoes.inv hinv,fun e' hne => hdoes.frees_other hne⟩
      have hst : (s.envs e).envStatus = .free := by
        by_contra hc
        exact hlive ⟨he,hc⟩
      rw [envFree,if_pos hst] at hf
      cases hf
      exact ⟨hlive,rfl,hinv,fun _ _ => rfl⟩
    refine ⟨hother.1,fun e' => ?_⟩
    by_cases hee : e' = e
    · subst hee
      rw [update_self]
      exact (hfit e').bury hid hdead
    rw [update_of_ne hee]
    refine (hfit e').same (by rw [hother.2 e' hee]) ?_
    unfold Live
    rw [hother.2 e' hee]
  | @other s s' g _ hd ih =>
    obtain ⟨hinv,hfit⟩ := ih
    exact ⟨hd.inv hinv,fun e => (hfit e).same (hd.keeps_same e).1 (hd.keeps_same e).2⟩

/-- An id names its environment while that is there, and nothing afterwards until its slot has
gone through a whole round of ids. -/
theorem envids_not_stale (h : IdRun K s g) : (∀ e, ∀ b ∈ g e, 0 < b.id.toInt ∧ ENVX b.id = e) ∧
      (∀ e e', e ≠ e' → ∀ b ∈ g e, ∀ b' ∈ g e', b.id ≠ b'.id) ∧
      (∀ e i j b b', i < j → j < i+524287 → (g e)[i]? = some b → (g e)[j]? = some b' →
        b.id ≠ b'.id) ∧
      ∀ c e k b, k < 524287 → (g e)[k]? = some b →
        s.envid2env c b.id false = if b.alive then some e else none := by
  obtain ⟨hinv,hfit⟩ := h.fitting
  have hpos : ∀ e, ∀ b ∈ g e, 0 < b.id.toInt ∧ ENVX b.id = e := fun e b hb =>
    (hfit e).numbered.id_pos ((hfit e).slot (List.ne_nil_of_mem hb)) hb
  refine ⟨hpos,fun e e' hne b hb b' hb' heq => ?_,
    fun e i j b b' hij hj hb hb' => (hfit e).numbered.ne hij hj hb hb',fun c e k b hk hb => ?_⟩
  · exact hne ((hpos e b hb).2.symm.trans ((congrArg ENVX heq).trans (hpos e' b' hb').2))
  have hmem := List.mem_of_getElem? hb
  obtain ⟨hgt,hx⟩ := hpos e b hmem
  have h0 : b.id ≠ 0 := by
    intro hc
    rw [hc] at hgt
    exact absurd hgt (by decide)
  have halive := (hfit e).alive k b hb
  have he := (hfit e).slot (List.ne_nil_of_mem hmem)
  have hlast := (hfit e).numbered.last
  rw [envid2env,if_neg h0]
  simp only [hx]
  cases k with
  | zero =>
    have hid : (s.envs e).envId = b.id := by
      rw [hlast,List.head?_eq_getElem?,hb]
      rfl
    by_cases hfree : (s.envs e).envStatus = .free
    · have : b.alive ≠ true := fun hc => (halive.mp hc).2.2 hfree
      simp [hfree,this]
    have : b.alive := halive.mpr ⟨rfl,he,hfree⟩
    simp [hfree,hid,this]
  | succ k =>
    have hdead : b.alive ≠ true := fun hc => absurd (halive.mp hc).1 (by simp)
    have hid : (s.envs e).envId ≠ b.id := by
      obtain ⟨c,l,hl⟩ := List.exists_cons_of_ne_nil (List.ne_nil_of_mem hmem)
      rw [hlast,hl]
      rw [hl] at hb
      exact (hl ▸ (hfit e).numbered).ne (i := 0) (by omega) (by rw [Nat.zero_add]; exact hk) rfl hb
    simp [hid,hdead]

lemma IdRun.performs {l : List Event} (hl : Performs s l s') :
    ∀ {g : Nat → List Born}, IdRun K s g → ∃ g', IdRun K s' g' := by
  induction hl with
  | nil => exact fun {g} hg => ⟨g,hg⟩
  | @cons s t a l hok _ ih =>
    intro g hg
    have hinv := hg.fitting.1
    cases a with
    | spawn a =>
      obtain ⟨e,l,hl⟩ := List.exists_cons_of_ne_nil hok.1
      have ha : s.envAlloc a = some (.ok e,Event.apply (.spawn a) s) := by
        rw [envAlloc_eq hinv]
        simp [hl,hok.2]
      exact ih (hg.alloc ha)
    | reap e => exact ih (hg.free hok.1.1 (envFree_empty hinv hok.1 hok.2))
    | _ => exact ih (hg.other (.one hok trivial))

end fitting

theorem envids_not_stale_reused : ∃ s g, IdRun {0} s g ∧ g 0 = [⟨0x2000,true⟩,⟨0x1000,false⟩] ∧
    s.envid2env 0 0x1000 false = none ∧ s.envid2env 0 0x2000 false = some 0 := by
  have hrun : (do
      let p ← (bootKern 8).envAlloc 0
      let s2 ← p.2.envFree 0
      let q ← s2.envAlloc 0
      return (p.1.toOption,q.1.toOption,(p.2.envs 0).envId,(q.2.envs 0).envId)) =
      some (some 0,some 0,0x1000,0x2000) := by decide +kernel
  obtain ⟨⟨r1,s1⟩,h1,hrun⟩ := of_bind hrun
  obtain ⟨s2,h2,hrun⟩ := of_bind hrun
  obtain ⟨⟨r3,s3⟩,h3,hrun⟩ := of_bind hrun
  simp only [pure_def,some.injEq,Prod.mk.injEq] at hrun
  obtain ⟨hr1,hr3,hid1,hid3⟩ := hrun
  cases r1 with
  | error r => cases hr1
  | ok e1 =>
    cases r3 with
    | error r => cases hr3
    | ok e3 =>
      cases hr1
      cases hr3
      have hg := ((IdRun.boot (boot_bootKern (by decide : 0 < 8) (by decide))).alloc h1).free
        (by decide) h2 |>.alloc h3
      obtain ⟨_,_,_,hnames⟩ := envids_not_stale hg
      rw [hid1,hid3] at hg hnames
      exact ⟨s3,_,hg,rfl,hnames 0 0 1 ⟨0x1000,false⟩ (by decide) rfl,
        hnames 0 0 0 ⟨0x2000,true⟩ (by decide) rfl⟩

end KludgeOS
