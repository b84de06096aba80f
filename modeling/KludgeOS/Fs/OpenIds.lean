import KludgeOS.Fs.Coherence

/-!
File ids. `openfile_lookup` infers from the reference count of the `Fd` page and
from the number in the entry whether an id belongs to a file that is still open.
-/

namespace KludgeOS
open BitVec Option List

/-- A return of `openfile_alloc` with an entry: the entry, the number returned, and the file if
`serve_open` went on to open it. -/
structure Grant where
  slot : Nat
  fileid : Word
  file : Option Ptr

namespace Srv

def grants (s : Srv) : SrvAct → List Grant
  | .req (.open path _ _) =>
    match s.openfileAlloc with
    | (r,some i,s1) =>
      let file := if r < 0 then none else (s1.fs.fileOpen (cPath path)).bind fun x => x.2.1
      [⟨i,BitVec.ofInt 32 r,file⟩]
    | _ => []
  | _ => []

inductive Ran (image : (Nat → Nat → Word) → Prop) : List Grant → Srv → Prop where
  | boot {s : Srv} : Boot image s → Ran image [] s
  | step {l : List Grant} {s t : Srv} {a : SrvAct} : Ran image l s → s.next a = some t →
      Ran image (s.grants a++l) t

/-- `fileid` was granted for `f`, its entry has not been granted since, and a client still maps
the `Fd` page. -/
def Live (l : List Grant) (s : Srv) (fileid : Word) (f : Ptr) : Prop :=
  ∃ g l1 l2, l = l1++g :: l2 ∧ (∀ g' ∈ l1, g'.slot ≠ g.slot) ∧ g.fileid = fileid ∧
    g.file = some f ∧ ∃ pg, (s.opentab g.slot).fdPage = some pg ∧ 0 < pg.clients

/-- `openfile_lookup` finds the entry of a live id, with its file, and refuses every other. -/
def Resolves (l : List Grant) (s : Srv) (fileid : Word) : Prop :=
  (∃ f i, Live l s fileid f ∧ s.openfileLookup fileid = (0,some i) ∧ (s.opentab i).file = some f) ∨
  (∀ f, ¬Live l s fileid f) ∧ s.openfileLookup fileid = (-E_INVAL,none)

def lastGrant (l : List Grant) (i : Nat) : Option Grant := l.find? fun g => g.slot == i

def Entry : Option Grant → OpenFile → Prop
  | none,o => o.fdPage = none
  | some g,o => g.fileid = o.fileid ∧ ∃ pg, o.fdPage = some pg ∧
      (0 < pg.clients → ∃ f, g.file = some f ∧ o.file = some f)

structure Table (l : List Grant) (s : Srv) : Prop where
  slots : ∀ g ∈ l, g.slot < MAXOPEN ∧ g.fileid.toNat%MAXOPEN = g.slot
  ids : ∀ i < MAXOPEN, (s.opentab i).fileid.toNat%MAXOPEN = i
  entries : ∀ i < MAXOPEN, Entry (lastGrant l i) (s.opentab i)

variable {l : List Grant} {s t : Srv} {i : Nat} {o : OpenFile}

lemma lastGrant_cons_self (g : Grant) (l : List Grant) :
    lastGrant (g :: l) g.slot = some g := by simp [lastGrant]

lemma lastGrant_cons_ne (g : Grant) (l : List Grant) (h : i ≠ g.slot) :
    lastGrant (g :: l) i = lastGrant l i := by simp [lastGrant,Ne.symm h]

lemma Table.withFs (h : Table l s) (fs : Fs) : Table l {s with fs := fs} := ⟨h.slots,h.ids,h.entries⟩

lemma Table.setOpen (h : Table l s) (hid : o.fileid = (s.opentab i).fileid)
    (ho : i < MAXOPEN → Entry (lastGrant l i) o) : Table l (s.setOpen i o) where
  slots := h.slots
  ids := by
    intro j hj
    by_cases hji : j = i
    · subst hji
      rw [setOpen_self,hid]
      exact h.ids j hj
    rw [setOpen_ne s o hji]
    exact h.ids j hj
  entries := by
    intro j hj
    by_cases hji : j = i
    · subst hji
      rw [setOpen_self]
      exact ho hj
    rw [setOpen_ne s o hji]
    exact h.entries j hj

lemma Entry.page {g : Option Grant} {pg pg' : FdPage} (h : Entry g o) (hpg : o.fdPage = some pg)
    (hc : 0 < pg'.clients → 0 < pg.clients) : Entry g {o with fdPage := some pg'} := by
  cases g with
  | none => exact absurd (h.symm.trans hpg) (by simp)
  | some g =>
    obtain ⟨hid,qg,hq,hf⟩ := h
    obtain rfl := mem_unique hpg hq
    exact ⟨hid,pg',rfl,fun h0 => hf (hc h0)⟩

lemma claimed_id (hid : o.fileid.toNat%MAXOPEN = i) : (claimed o).fileid.toNat%MAXOPEN = i := by
  have hm : MAXOPEN = 1024 := rfl
  rw [hm] at hid ⊢
  simp only [claimed,toNat_add,toNat_ofNat,hm]
  omega

lemma Table.claim (h : Table l s) (hi : i < MAXOPEN) (file : Option Ptr) (o : OpenFile)
    (hid : o.fileid = (claimed (s.opentab i)).fileid)
    (ho : ∃ pg, o.fdPage = some pg ∧ (0 < pg.clients → ∃ f, file = some f ∧ o.file = some f)) :
    Table (⟨i,(claimed (s.opentab i)).fileid,file⟩ :: l) (s.setOpen i o) where
  slots := by
    intro g hg
    obtain rfl | hg := mem_cons.mp hg
    · exact ⟨hi,claimed_id (h.ids i hi)⟩
    exact h.slots g hg
  ids := by
    intro j hj
    by_cases hji : j = i
    · subst hji
      rw [setOpen_self,hid]
      exact claimed_id (h.ids j hj)
    rw [setOpen_ne s o hji]
    exact h.ids j hj
  entries := by
    intro j hj
    by_cases hji : j = i
    · subst hji
      rw [setOpen_self,lastGrant_cons_self ⟨j,_,file⟩]
      exact ⟨hid.symm,ho⟩
    rw [setOpen_ne s o hji,lastGrant_cons_ne _ _ (by simpa using hji)]
    exact h.entries j hj

lemma Opened.table {path : List Byte} {omode : Word} {takes : Bool} {rep : Reply}
    (h : Opened s path omode takes rep t) (hn : Note.stray ∉ t.fs.notes) (hl : Table l s) :
    Table (s.grants (.req (.open path omode takes))++l) t := by
  cases h with
  | @refused r slot _ ha hr =>
    cases openfileAlloc_spec ha with
    | full =>
      simp only [grants,ha]
      exact hl
    | noMem chance => exact absurd hr (by decide)
    | @done i chance hi _ =>
      simp only [grants,ha,hr,if_true,ofInt_toInt]
      exact Table.claim (s := s.withChance chance) (hl.withFs _) hi none _ rfl ⟨_,rfl,fun h => absurd h (by simp)⟩
  | @missed r r' slot s1 fs ha hr hopen =>
    cases openfileAlloc_spec ha with
    | full => exact absurd (by decide : -E_MAX_OPEN < 0) hr
    | noMem chance =>
      simp only [grants,ha]
      exact (hl.withFs _).withFs _
    | @done i chance hi _ =>
      simp only [grants,ha,hr,if_false,ofInt_toInt,hopen]
      exact (Table.claim (s := s.withChance chance) (hl.withFs _) hi none _ rfl
        ⟨_,rfl,fun h => absurd h (by simp)⟩).withFs _
  | @opened r r' i f s1 _ fs _ ha hr hopen hfin =>
    obtain ⟨pg,hpg,_,rfl⟩ := finishOpen_eq hfin
    cases openfileAlloc_spec ha with
    | @done i chance hi _ =>
      simp only [grants,ha,hr,if_false,ofInt_toInt,hopen]
      have h := Table.claim (s := s.withChance chance) (hl.withFs _) hi (some f)
        (filled fs (claimed (s.opentab i)) pg f omode takes) rfl ⟨_,rfl,fun _ => ⟨f,rfl,rfl⟩⟩
      simpa [setOpen,setOpen_self,withChance] using h.withFs fs
  | stray ha hopen hfin =>
    obtain ⟨pg,_,_,rfl⟩ := finishOpen_eq hfin
    exact absurd mem_cons_self hn

lemma next_table {a : SrvAct} (h : s.next a = some t) (hn : Note.stray ∉ t.fs.notes)
    (hl : Table l s) : Table (s.grants a++l) t := by
  cases a with
  | req q =>
    cases next_req h with
    | bad hq =>
      cases q with
      | «open» path omode takes => exact absurd rfl (hq path omode takes)
      | map | setSize | close | dirty | remove | sync => exact hl
    | map | close | dirty | remove | sync => exact hl.withFs _
    | @setSize i f pg fs fileid size _ _ _ hpg =>
      exact (hl.withFs fs).setOpen rfl fun hi =>
        (hl.entries i hi).page hpg fun h => h
    | «open» ho => exact ho.table hn hl
  | mapFd i =>
    obtain ⟨pg,hpg,hc,rfl⟩ := mapFd_eq h
    exact hl.setOpen rfl fun hi => (hl.entries i hi).page hpg fun _ => Nat.pos_of_ne_zero hc
  | unmapFd i =>
    obtain ⟨pg,hpg,hc,rfl⟩ := unmapFd_eq h
    exact hl.setOpen rfl fun hi => (hl.entries i hi).page hpg fun _ => Nat.pos_of_ne_zero hc

variable {fileid : Word} {image : (Nat → Nat → Word) → Prop}

lemma Boot.table (h : Boot image s) : Table [] s := by
  obtain ⟨disk,chance,junk,strays,_,h⟩ := h
  obtain ⟨fs,_,h⟩ := of_bind h
  cases h
  have hm : MAXOPEN = 1024 := rfl
  refine ⟨by simp,fun i hi => ?_,fun _ _ => rfl⟩
  simp only [OpenFile.init,toNat_ofNat]
  rw [hm] at hi ⊢
  omega

lemma Ran.table (h : Ran image l s) : Note.stray ∉ s.fs.notes → Table l s := by
  induction h with
  | boot h => exact fun _ => h.table
  | step _ h ih =>
    intro hn
    exact next_table h hn (ih fun hs => (next_fs h).of_notes (P := (· ≠ Note.stray))
      (fun n hm h0 => hn (h0 ▸ hm)) _ hs rfl)

lemma live_iff (h : Table l s) (fileid : Word) (f : Ptr) : Live l s fileid f ↔
    ∃ g, lastGrant l (fileid.toNat%MAXOPEN) = some g ∧ g.fileid = fileid ∧ g.file = some f ∧
    ∃ pg, (s.opentab (fileid.toNat%MAXOPEN)).fdPage = some pg ∧ 0 < pg.clients := by
  constructor
  · rintro ⟨g,l1,l2,rfl,hlast,rfl,hf,hpg⟩
    have hslot := (h.slots g (by simp)).2
    refine ⟨g,?_,rfl,hf,by rw [hslot]; exact hpg⟩
    refine find?_eq_some_iff_append.mpr ⟨by simp [hslot],l1,l2,rfl,fun g' hg' => ?_⟩
    simpa [hslot] using hlast g' hg'
  rintro ⟨g,hg,rfl,hf,hpg⟩
  obtain ⟨hs,l1,l2,rfl,hlast⟩ := find?_eq_some_iff_append.mp hg
  have hslot := (h.slots g (by simp)).2
  refine ⟨g,l1,l2,rfl,fun g' hg' => ?_,rfl,hf,by rw [hslot] at hpg; exact hpg⟩
  simpa [hslot] using hlast g' hg'

lemma openfileLookup_invalid (h : (s.opentab (fileid.toNat%MAXOPEN)).pageref = 1 ∨ (s.opentab
    (fileid.toNat%MAXOPEN)).fileid ≠ fileid) : s.openfileLookup fileid = (-E_INVAL,none) := by
  simp only [openfileLookup]
  rw [if_pos h]

lemma openfileLookup_valid (h : (s.opentab (fileid.toNat%MAXOPEN)).pageref ≠ 1)
    (hid : (s.opentab (fileid.toNat%MAXOPEN)).fileid = fileid) :
    s.openfileLookup fileid = (0,some (fileid.toNat%MAXOPEN)) := by
  simp only [openfileLookup]
  rw [if_neg (by rintro (h1 | h1); exacts [h h1,h1 hid])]

/-- An id resolves as it should exactly when its entry has been given out before or has another
number. -/
theorem resolves_iff (image : (Nat → Nat → Word) → Prop) (l : List Grant) (s : Srv) (fileid : Word)
    (h : Ran image l s) (hn : Note.stray ∉ s.fs.notes) : Resolves l s fileid ↔ (s.opentab
    (fileid.toNat%MAXOPEN)).pageref ≠ 0 ∨ (s.opentab (fileid.toNat%MAXOPEN)).fileid ≠ fileid := by
  have ht := h.table hn
  have he := ht.entries (fileid.toNat%MAXOPEN) (Nat.mod_lt _ (by decide))
  by_cases hid : (s.opentab (fileid.toNat%MAXOPEN)).fileid = fileid
  · cases hg : lastGrant l (fileid.toNat%MAXOPEN) with
    | none =>
      rw [hg] at he
      have h0 : (s.opentab (fileid.toNat%MAXOPEN)).pageref = 0 := by
        rw [OpenFile.pageref,show (s.opentab (fileid.toNat%MAXOPEN)).fdPage = none from he]
      have hdead : ∀ f, ¬Live l s fileid f := by
        intro f hf
        obtain ⟨g,hg',_⟩ := (live_iff ht fileid f).mp hf
        simp [hg] at hg'
      have hlook := openfileLookup_valid (by rw [h0]; decide) hid
      refine ⟨?_,fun h => absurd h (by simp [h0,hid])⟩
      rintro (⟨f,_,hf,_⟩ | ⟨_,hbad⟩)
      · exact absurd hf (hdead f)
      rw [hlook] at hbad
      simp at hbad
    | some g =>
      rw [hg] at he
      obtain ⟨hgid,pg,hpg,hfile⟩ := he
      have href : (s.opentab (fileid.toNat%MAXOPEN)).pageref = pg.clients+1 := by
        rw [OpenFile.pageref,hpg]
      refine ⟨fun _ => .inl (by omega),fun _ => ?_⟩
      by_cases hc : pg.clients = 0
      · refine .inr ⟨fun f hf => ?_,openfileLookup_invalid (.inl (by omega))⟩
        obtain ⟨_,_,_,_,qg,hqg,hpos⟩ := (live_iff ht fileid f).mp hf
        obtain rfl := mem_unique hpg hqg
        omega
      obtain ⟨f,hgf,hf⟩ := hfile (Nat.pos_of_ne_zero hc)
      exact .inl ⟨f,_,(live_iff ht fileid f).mpr
        ⟨g,hg,hgid.trans hid,hgf,pg,hpg,Nat.pos_of_ne_zero hc⟩,
        openfileLookup_valid (by omega) hid,hf⟩
  refine ⟨fun _ => .inr hid,fun _ => .inr ⟨fun f hf => ?_,openfileLookup_invalid (.inr hid)⟩⟩
  obtain ⟨g,hg,hgid,_⟩ := (live_iff ht fileid f).mp hf
  rw [hg] at he
  exact hid (he.1.symm.trans hgid)

theorem unopened_id_resolves : ∃ s, Ran (· = diskOf sampleWords)
    [] s ∧ s.openfileLookup 5 = (0,some 5) ∧ ¬Resolves [] s 5 := by
  have h : (runOn (diskOf sampleWords) []).map (fun s => s.openfileLookup 5) =
      some (0,some 5) := by decide +kernel
  obtain ⟨s,hs,h⟩ := map_eq_some_iff.mp h
  obtain ⟨s0,h0,hs⟩ := of_bind hs
  obtain rfl := some.inj hs
  refine ⟨s0,.boot ⟨_,[],[],[],rfl,h0⟩,h,?_⟩
  rintro (⟨f,_,⟨g,l1,l2,hl,_⟩,_⟩ | ⟨_,hbad⟩)
  · simp at hl
  rw [h] at hbad
  simp at hbad

theorem resolves_after_open : ∃ l s, Ran (· = diskOf sampleWords) l s ∧ Resolves l s 1024 := by
  have h : (runOn (diskOf sampleWords) []).bind (fun s =>
      (s.next (.req (.open pathA 0 true))).map fun t =>
        decide ((t.opentab 0).pageref ≠ 0 ∧ t.fs.notes.length = 0)) = some true := by decide +kernel
  obtain ⟨s,hs,h⟩ := of_bind h
  obtain ⟨s0,h0,hs⟩ := of_bind hs
  cases hs
  obtain ⟨t,ht,href,hn⟩ := of_map_decide h
  have hr : Ran (· = diskOf sampleWords) _ t := .step (.boot ⟨_,[],[],[],rfl,h0⟩) ht
  refine ⟨_,t,hr,(resolves_iff _ _ t 1024 hr ?_).mpr (.inl href)⟩
  rw [eq_nil_of_length_eq_zero hn]
  simp

end Srv

end KludgeOS
