import KludgeOS.Fs.OpenIds

/-!
`openfile_alloc` over any number of requests.
-/

namespace KludgeOS
open BitVec Fs
open OpenFile (pageref)

namespace Srv

def Free (s : Srv) (i : Nat) : Prop := i < MAXOPEN ∧ (s.opentab i).pageref ≤ 1

def First (s : Srv) (i : Nat) : Prop := s.Free i ∧ ∀ j < i, ¬s.Free j

/-- The entry found has no page, and `sys_page_alloc` fails for it. -/
def NoPage (s : Srv) : Prop :=
  ∃ i, s.First i ∧ (s.opentab i).fdPage = none ∧ ∃ k, s.fs.luck.1 = .fail k

def OpenFails (s : Srv) : Prop := (∀ i, ¬s.Free i) ∨ s.NoPage

def InUse (s : Srv) (i : Nat) : Prop := i < MAXOPEN ∧ 2 ≤ (s.opentab i).pageref

/-- What `openfile_alloc` and `serve_open` owe their callers. -/
structure OpensRight (s : Srv) : Prop where
  works : ¬s.OpenFails → ∃ i t, s.openfileAlloc = ((t.opentab i).fileid.toInt,some i,t) ∧
    0 ≤ (t.opentab i).fileid.toInt ∧
    ∀ j, s.InUse j → (s.opentab j).fileid ≠ (t.opentab i).fileid
  code : s.openfileAlloc.1 < 0 ↔ s.OpenFails
  refuses : s.OpenFails → ∀ path omode takes, ∃ t,
    s.serveOpen path omode takes = some (⟨s.openfileAlloc.1,.nothing⟩,t) ∧ t.opentab = s.opentab

variable {s t : Srv} {i j : Nat} {r : Int} {slot : Option Nat}

lemma First.unique (hi : s.First i) (hj : s.First j) : i = j := by
  by_contra hne
  obtain hlt | hlt := Nat.lt_or_gt_of_ne hne
  · exact hj.2 i hlt hi.1
  exact hi.2 j hlt hj.1

lemma allocRounds_cases (n : Nat) : ∀ {i : Nat}, i+n = MAXOPEN → (∀ j < i, ¬s.Free j) → (∀ j,
    ¬s.Free j) ∧ s.allocRounds n i = (-E_MAX_OPEN,none,s) ∨ ∃ k, s.First k ∧ ((s.opentab k).fdPage =
    none ∧ (∃ c, s.fs.luck.1 = .fail c) ∧ (∃ l, s.allocRounds n i = (1,none,s.withChance l)) ∨
    ¬((s.opentab k).fdPage = none ∧ ∃ c, s.fs.luck.1 = .fail c) ∧ ∃ l, s.allocRounds n i = ((claimed
    (s.opentab k)).fileid.toInt,some k, (s.withChance l).setOpen k (claimed (s.opentab k)))) := by
  induction n with
  | zero =>
    intro i hi hnone
    refine .inl ⟨fun j hj => hnone j ?_ hj,rfl⟩
    have := hj.1
    omega
  | succ n ih =>
    intro i hi hnone
    have hlt : i < MAXOPEN := by omega
    by_cases hfree : s.Free i
    · refine .inr ⟨i,⟨hfree,hnone⟩,?_⟩
      cases hpg : (s.opentab i).fdPage with
      | none =>
        cases hc : s.fs.luck.1 with
        | ok =>
          refine .inr ⟨by simp,s.fs.luck.2.chance,?_⟩
          simp only [allocRounds,hpg]
          rw [show s.fs.luck = (.ok,s.fs.luck.2) from Prod.ext hc rfl]
          rfl
        | fail c =>
          refine .inl ⟨rfl,⟨c,rfl⟩,s.fs.luck.2.chance,?_⟩
          simp only [allocRounds,hpg]
          rw [show s.fs.luck = (.fail c,s.fs.luck.2) from Prod.ext hc rfl]
          rfl
      | some pg =>
        have h0 : pg.clients = 0 := by
          have := hfree.2
          simp only [pageref,hpg] at this
          omega
        refine .inr ⟨by simp,s.fs.chance,?_⟩
        simp only [allocRounds,hpg,h0,if_true]
        rfl
    have hround : s.allocRounds (n+1) i = s.allocRounds n (i+1) := by
      cases hpg : (s.opentab i).fdPage with
      | none => exact absurd ⟨hlt,by simp [pageref,hpg]⟩ hfree
      | some pg =>
        have h0 : pg.clients ≠ 0 := fun h0 => hfree ⟨hlt,by simp [pageref,hpg,h0]⟩
        simp only [allocRounds,hpg,h0,if_false]
    rw [hround]
    refine ih (by omega) fun j hj => ?_
    by_cases hji : j = i
    · rw [hji]
      exact hfree
    exact hnone j (by omega)

lemma openfileAlloc_cases (s : Srv) : (∀ j, ¬s.Free j) ∧ s.openfileAlloc = (-E_MAX_OPEN,none,s) ∨
    s.NoPage ∧ (∃ l, s.openfileAlloc = (1,none,s.withChance l)) ∨ ∃ i, s.First i ∧
    ¬s.OpenFails ∧ ∃ l, s.openfileAlloc = ((claimed (s.opentab i)).fileid.toInt,some i,
    (s.withChance l).setOpen i (claimed (s.opentab i))) := by
  obtain ⟨hnone,h⟩ | ⟨i,hi,⟨hpg,hc,h⟩ | ⟨hok,h⟩⟩ :=
    allocRounds_cases (s := s) MAXOPEN (i := 0) (Nat.zero_add _) (by omega)
  · exact .inl ⟨hnone,h⟩
  · exact .inr (.inl ⟨⟨i,hi,hpg,hc⟩,h⟩)
  refine .inr (.inr ⟨i,hi,?_,h⟩)
  rintro (hnone | ⟨j,hj,hpg,hc⟩)
  · exact hnone i hi.1
  obtain rfl := hi.unique hj
  exact hok ⟨hpg,hc⟩

/-! The numbers of the entries. -/

def Numbered (s : Srv) : Prop := ∀ i < MAXOPEN, (s.opentab i).fileid.toNat%MAXOPEN = i

def Renumbers (s t : Srv) : Prop := ∀ i, (t.opentab i).fileid = (s.opentab i).fileid ∨
  (t.opentab i).fileid = (claimed (s.opentab i)).fileid

lemma Numbered.renumbers (hs : s.Numbered) (h : Renumbers s t) : t.Numbered := by
  intro i hi
  obtain h | h := h i
  · rw [h]
    exact hs i hi
  rw [h]
  exact claimed_id (hs i hi)

lemma setOpen_fileid {o : OpenFile} (h : o.fileid = (s.opentab i).fileid) (j : Nat) :
    ((s.setOpen i o).opentab j).fileid = (s.opentab j).fileid := by
  by_cases hji : j = i
  · subst hji
    rw [setOpen_self,h]
  rw [setOpen_ne s o hji]

lemma openfileAlloc_renumbers (h : s.openfileAlloc = (r,slot,t)) : Renumbers s t := by
  intro j
  cases openfileAlloc_spec h with
  | full | noMem chance => exact .inl rfl
  | @done i chance _ _ =>
    by_cases hji : j = i
    · subst hji
      rw [setOpen_self]
      exact .inr rfl
    rw [setOpen_ne _ _ hji]
    exact .inl rfl

variable {omode : Word} {takes : Bool} {rep : Reply} {n : Nat}

lemma finishOpen_fileid {f : Ptr} (h : s.finishOpen i f omode takes = some (rep,t)) (j : Nat) :
    (t.opentab j).fileid = (s.opentab j).fileid := by
  obtain ⟨pg,_,_,rfl⟩ := finishOpen_eq h
  exact setOpen_fileid (by rfl) j

lemma Opened.renumbers {path : List Byte} (h : Opened s path omode takes rep t) :
    Renumbers s t := by
  intro j
  cases h with
  | refused ha _ => exact openfileAlloc_renumbers ha j
  | missed ha _ _ => exact openfileAlloc_renumbers ha j
  | opened ha _ _ hfin =>
    rw [finishOpen_fileid hfin]
    exact openfileAlloc_renumbers ha j
  | stray ha _ hfin =>
    rw [finishOpen_fileid hfin]
    exact openfileAlloc_renumbers ha j

lemma next_renumbers {a : SrvAct} (h : s.next a = some t) : Renumbers s t := by
  cases a with
  | req q =>
    cases next_req h with
    | bad | map | close | dirty | remove | sync => exact fun _ => .inl rfl
    | setSize => exact fun j => .inl (setOpen_fileid (by rfl) j)
    | «open» ho => exact ho.renumbers
  | mapFd i =>
    obtain ⟨pg,_,_,rfl⟩ := mapFd_eq h
    exact fun j => .inl (setOpen_fileid (by rfl) j)
  | unmapFd i =>
    obtain ⟨pg,_,_,rfl⟩ := unmapFd_eq h
    exact fun j => .inl (setOpen_fileid (by rfl) j)

lemma Reachable.numbered {image : (Nat → Nat → Word) → Prop} (h : Reachable image s) : s.Numbered :=
  h.invariant (fun _ hs => hs.table.ids) fun _ _ _ hs _ ht => hs.renumbers (next_renumbers ht)

lemma Numbered.fresh (hs : s.Numbered) (hi : i < MAXOPEN) (hj : j < MAXOPEN) (hne : j ≠ i) :
    (s.opentab j).fileid ≠ (claimed (s.opentab i)).fileid := by
  intro he
  have h := hs j hj
  rw [he,claimed_id (hs i hi)] at h
  exact hne h.symm

lemma toInt_nonneg (w : Word) : 0 ≤ w.toInt ↔ w.toNat < 2^31 := by
  have := w.isLt
  rw [toInt_eq_toNat_cond]
  split <;> omega

lemma claimed_fileid (o : OpenFile) :
    (claimed o).fileid = o.fileid+BitVec.ofNat 32 MAXOPEN := by simp only [claimed]

namespace OpensRight

lemma page (hr : s.OpensRight) : ¬s.NoPage := by
  intro hno
  have hneg := hr.code.mpr (.inr hno)
  obtain ⟨hnone,_⟩ | ⟨_,l,ha⟩ | ⟨_,_,hok,_⟩ := openfileAlloc_cases s
  · obtain ⟨i,hi,_⟩ := hno
    exact hnone i hi.1
  · rw [ha] at hneg
    exact absurd hneg (by decide : ¬(1 : Int) < 0)
  exact hok (.inr hno)

lemma small (hr : s.OpensRight) (hi : s.First i) : (claimed (s.opentab i)).fileid.toNat < 2^31 := by
  obtain ⟨hnone,_⟩ | ⟨hno,_⟩ | ⟨k,hk,hok,l,ha⟩ := openfileAlloc_cases s
  · exact absurd hi.1 (hnone i)
  · exact absurd hno hr.page
  obtain rfl := hi.unique hk
  have hpos := mt hr.code.mp hok
  rw [show s.openfileAlloc.1 = (claimed (s.opentab i)).fileid.toInt by rw [ha]] at hpos
  rw [← toInt_nonneg]
  exact Int.not_lt.mp hpos

end OpensRight

/-- Opening works as it should exactly when no page allocation fails and the number is not
negative as an `int`. -/
theorem opensRight_iff (image : (Nat → Nat → Word) → Prop) (s : Srv) (h : Reachable image s) :
    s.OpensRight ↔ ¬s.NoPage ∧
      ∀ i, s.First i → ((s.opentab i).fileid+BitVec.ofNat 32 MAXOPEN).toNat < 2^31 := by
  refine ⟨fun hr => ⟨hr.page,fun i hi => ?_⟩,fun ⟨hpage,hsmall⟩ => ?_⟩
  · rw [← claimed_fileid]
    exact hr.small hi
  obtain ⟨hnone,ha⟩ | ⟨hno,_⟩ | ⟨i,hi,hok,l,ha⟩ := openfileAlloc_cases s
  · refine ⟨fun hf => absurd (.inl hnone) hf,?_,fun hf path omode takes => ?_⟩
    · rw [ha]
      exact iff_of_true (by decide : -E_MAX_OPEN < 0) (.inl hnone)
    · exact ⟨s,by simp [serveOpen,ha,E_MAX_OPEN],rfl⟩
  · exact absurd hno hpage
  have hret : s.openfileAlloc.1 = (claimed (s.opentab i)).fileid.toInt := by rw [ha]
  have hpos : 0 ≤ (claimed (s.opentab i)).fileid.toInt := by
    rw [toInt_nonneg,claimed_fileid]
    exact hsmall i hi
  refine ⟨fun _ => ⟨i,_,by rw [setOpen_self]; exact ha,by rwa [setOpen_self],fun j hj => ?_⟩,?_,
    fun hf => absurd hf hok⟩
  · rw [setOpen_self]
    refine h.numbered.fresh hi.1.1 hj.1 fun hji => ?_
    have h1 := hi.1.2
    have h2 := hj.2
    rw [hji] at h2
    omega
  rw [hret]
  exact iff_of_false (Int.not_lt.mpr hpos) hok

theorem opensRight_iff_boot :
    ∃ s, Reachable (· = diskOf sampleWords) s ∧ s.First 0 ∧ s.OpensRight := by
  have h : (runOn (diskOf sampleWords) []).map (fun s =>
      decide ((s.opentab 0).pageref = 0 ∧ (s.opentab 0).fileid = 0 ∧ s.fs.luck.1 = .ok)) =
      some true := by decide +kernel
  obtain ⟨s,hs,hfree,hid,hc⟩ := of_map_decide h
  have hr : Reachable (· = diskOf sampleWords) s := .runOn rfl hs
  have hfirst : s.First 0 := ⟨⟨by decide,by omega⟩,by omega⟩
  refine ⟨s,hr,hfirst,(opensRight_iff _ s hr).mpr ⟨?_,fun i hi => ?_⟩⟩
  · rintro ⟨i,_,_,k,hk⟩
    rw [hc] at hk
    cases hk
  obtain rfl := hfirst.unique hi
  rw [hid]
  decide

def longPath : List Byte := slash :: List.replicate MAXNAMELEN 0x78

lemma fileOpen_longPath (fs : Fs) : fs.fileOpen (cPath longPath) = some (-E_BAD_PATH,none,fs) := by
  have hpath : cPath longPath = longPath := by decide +kernel
  have hskip : skipSlash longPath = List.replicate MAXNAMELEN 0x78 := by decide +kernel
  have hname : (List.replicate MAXNAMELEN (0x78 : Byte)).takeWhile (· != slash) =
      List.replicate MAXNAMELEN 0x78 := by decide +kernel
  rw [hpath,fileOpen,walkPath,hskip,show longPath.length = 128+1 from rfl,walkRounds,
    if_neg (by decide)]
  simp only [hname]
  rw [if_pos (by simp)]

/-- Entry 0 has been given out `n` times, and no client has its page. -/
structure Spent (s : Srv) (n : Nat) : Prop where
  id : (s.opentab 0).fileid = BitVec.ofNat 32 (1024*n)
  page : (s.opentab 0).pageref = 1

lemma Spent.first (h : s.Spent n) : s.First 0 ∧ ¬s.NoPage := by
  have hfirst : s.First 0 := ⟨⟨by decide,h.page.le⟩,by omega⟩
  refine ⟨hfirst,?_⟩
  rintro ⟨i,hi,hpg,_⟩
  obtain rfl := hfirst.unique hi
  have := h.page
  simp [pageref,hpg] at this

lemma Spent.claimed (h : s.Spent n) :
    (claimed (s.opentab 0)).fileid = BitVec.ofNat 32 (1024*(n+1)) := by
  rw [claimed_fileid,h.id,← ofNat_add]
  rfl

lemma Spent.next (h : s.Spent n) (hn : n+1 < 2^21) :
    ∃ t, s.next (.req (.open longPath 0 true)) = some t ∧ t.Spent (n+1) := by
  have hpos : 0 ≤ (Srv.claimed (s.opentab 0)).fileid.toInt := by
    rw [toInt_nonneg,h.claimed,toNat_ofNat]
    omega
  obtain ⟨hnone,_⟩ | ⟨hno,_⟩ | ⟨i,hi,_,l,ha⟩ := openfileAlloc_cases s
  · exact absurd h.first.1.1 (hnone 0)
  · exact absurd hno h.first.2
  obtain rfl := h.first.1.unique hi
  refine ⟨(s.withChance l).setOpen 0 (Srv.claimed (s.opentab 0)),?_,?_⟩
  · simp only [Srv.next,serve,serveOpen,ha,Int.not_lt.mpr hpos,if_false,fileOpen_longPath]
    rfl
  refine ⟨?_,?_⟩
  · simp only [setOpen_self,h.claimed]
  simp only [setOpen_self]
  simp [Srv.claimed,pageref]

theorem opens_stop : (∃ s, Reachable (· = diskOf sampleWords) s ∧ s.NoPage ∧ ¬s.OpensRight) ∧
    ∃ s, Reachable (· = diskOf sampleWords) s ∧ ¬s.NoPage ∧ ¬s.OpensRight := by
  constructor
  · have h : (boot (diskOf sampleWords) [.ok,.ok,.ok,.ok,.fail 0] [] []).map (fun s =>
        decide ((s.opentab 0).pageref = 0 ∧ s.fs.luck.1 = .fail 0)) = some true := by decide +kernel
    obtain ⟨s,hs,hpg,hc⟩ := of_map_decide h
    have hno : s.NoPage := by
      refine ⟨0,⟨⟨by decide,by omega⟩,by omega⟩,?_,0,hc⟩
      cases hq : (s.opentab 0).fdPage with
      | none => rfl
      | some pg => simp [pageref,hq] at hpg
    exact ⟨s,.start ⟨_,_,_,_,rfl,hs⟩,hno,fun hr => hr.page hno⟩
  have hrun : ∀ n, 0 < n → n < 2^21 → ∃ s, Reachable (· = diskOf sampleWords) s ∧ s.Spent n := by
    intro n
    induction n with
    | zero => omega
    | succ n ih =>
      intro _ hn
      by_cases h0 : n = 0
      · have h : (runOn (diskOf sampleWords) [.req (.open longPath 0 true)]).map (fun s =>
            decide ((s.opentab 0).fileid = 1024 ∧ (s.opentab 0).pageref = 1)) = some true := by
          decide +kernel
        obtain ⟨s,hs,hid,hpg⟩ := of_map_decide h
        exact ⟨s,.runOn rfl hs,by rw [h0]; exact hid,hpg⟩
      obtain ⟨s,hs,hspent⟩ := ih (by omega) (by omega)
      obtain ⟨t,ht,hspent⟩ := hspent.next hn
      exact ⟨t,.step hs trivial ht,hspent⟩
  obtain ⟨s,hs,hspent⟩ := hrun (2^21-1) (by omega) (by omega)
  refine ⟨s,hs,hspent.first.2,fun hr => ?_⟩
  have hsmall := hr.small hspent.first.1
  rw [hspent.claimed] at hsmall
  exact absurd hsmall (by decide)

end Srv

end KludgeOS
