import KludgeOS.Fs.CacheSpec
import KludgeOS.Fs.Serv

/-!
What a request does to the open-file table, and that it changes the file
system only as the functions on files do.
-/

namespace KludgeOS
open Fs Option


namespace Srv
open Fs (Ticks)

variable {s t : Srv} {r : Int} {slot : Option Nat} {i : Nat} {f : Ptr} {rep : Reply}
  {path : List Byte} {omode fileid offset size : Word} {takes : Bool}

def withChance (s : Srv) (chance : List Chance) : Srv := {s with fs := {s.fs with chance := chance}}

lemma setOpen_self (s : Srv) (i : Nat) (o : OpenFile) : (s.setOpen i o).opentab i = o := by
  simp [setOpen]

lemma setOpen_ne (s : Srv) (o : OpenFile) {j : Nat} (h : j ≠ i) :
    (s.setOpen i o).opentab j = s.opentab j := by simp [setOpen,h]

def claimed (o : OpenFile) : OpenFile :=
  {o with fileid := o.fileid+BitVec.ofNat 32 MAXOPEN, fdPage := some ⟨{},0⟩}

lemma claimed_file (o : OpenFile) : (claimed o).file = o.file := by simp only [claimed]

inductive OpenAlloc (s : Srv) : Int → Option Nat → Srv → Prop where
  | full : OpenAlloc s (-E_MAX_OPEN) none s
  | noMem (chance : List Chance) : OpenAlloc s 1 none (s.withChance chance)
  | done {i : Nat} (chance : List Chance) : i < MAXOPEN → (s.opentab i).pageref ≤ 1 →
      OpenAlloc s (claimed (s.opentab i)).fileid.toInt (some i)
        ((s.withChance chance).setOpen i (claimed (s.opentab i)))

lemma allocRounds_spec (n : Nat) : ∀ {i : Nat}, i+n = MAXOPEN →
    s.allocRounds n i = (r,slot,t) → OpenAlloc s r slot t := by
  induction n with
  | zero =>
    intro i _ h
    cases h
    exact .full
  | succ n ih =>
    intro i hi h
    have hlt : i < MAXOPEN := by omega
    unfold allocRounds at h
    simp only at h
    split at h
    · rename_i hpg
      obtain ⟨c,l,hl⟩ := luck_eq s.fs
      rw [hl] at h
      cases c with
      | ok =>
        obtain ⟨hr,h⟩ := Prod.mk.inj h
        obtain ⟨hslot,ht⟩ := Prod.mk.inj h
        subst hslot
        subst ht
        subst hr
        exact .done l hlt (by simp [OpenFile.pageref,hpg])
      | fail k =>
        cases h
        exact .noMem l
    rename_i pg hpg
    split at h
    · rename_i h0
      obtain ⟨hr,h⟩ := Prod.mk.inj h
      obtain ⟨hslot,ht⟩ := Prod.mk.inj h
      subst hslot
      subst ht
      subst hr
      exact .done s.fs.chance hlt (by simp [OpenFile.pageref,hpg,h0])
    exact ih (by omega) h

lemma openfileAlloc_spec (h : s.openfileAlloc = (r,slot,t)) : OpenAlloc s r slot t :=
  allocRounds_spec MAXOPEN (i := 0) rfl h

/-- `o` filled in for `f`. -/
def filled (fs : Fs) (o : OpenFile) (pg : FdPage) (f : Ptr) (omode : Word) (takes : Bool) :
    OpenFile :=
  { o with
    file := some f, mode := omode,
    fdPage := some ⟨{ pg.fd with file := copyFile fs f, id := o.fileid, omode := omode,
                                 devId := devfileId },if takes then pg.clients+1 else pg.clients⟩ }

lemma finishOpen_eq (h : s.finishOpen i f omode takes = some (rep,t)) : ∃ pg, (s.opentab i).fdPage
    = some pg ∧ rep = ⟨0,.fd i⟩ ∧ t = s.setOpen i (filled s.fs (s.opentab i) pg f omode takes) := by
  obtain ⟨pg,hpg,h⟩ := of_bind h
  cases h
  exact ⟨pg,hpg,rfl,rfl⟩

inductive Opened (s : Srv) (path : List Byte) (omode : Word) (takes : Bool) :
    Reply → Srv → Prop where
  | refused {r : Int} {slot : Option Nat} {t : Srv} : s.openfileAlloc = (r,slot,t) → r < 0 →
      Opened s path omode takes ⟨r,.nothing⟩ t
  | missed {r r' : Int} {slot : Option Nat} {s1 : Srv} {fs : Fs} :
      s.openfileAlloc = (r,slot,s1) → ¬r < 0 → s1.fs.fileOpen (cPath path) = some (r',none,fs) →
      Opened s path omode takes ⟨r',.nothing⟩ {s1 with fs := fs}
  | opened {r r' : Int} {i : Nat} {f : Ptr} {s1 t : Srv} {fs : Fs} {rep : Reply} :
      s.openfileAlloc = (r,some i,s1) → ¬r < 0 → s1.fs.fileOpen (cPath path) = some (r',some f,fs) →
      finishOpen {s1 with fs := fs} i f omode takes = some (rep,t) →
      Opened s path omode takes rep t
  | stray {r r' : Int} {i : Nat} {f : Ptr} {s1 t : Srv} {fs : Fs} {rep : Reply} :
      s.openfileAlloc = (r,none,s1) → s1.fs.fileOpen (cPath path) = some (r',some f,fs) →
      finishOpen {s1 with fs := fs.note .stray, strays := s1.strays.tail} i f omode takes =
        some (rep,t) →
      Opened s path omode takes rep t

lemma serveOpen_opened (h : s.serveOpen path omode takes = some (rep,t)) :
    Opened s path omode takes rep t := by
  unfold serveOpen at h
  rcases ho : s.openfileAlloc with ⟨r,slot,s1⟩
  rw [ho] at h
  simp only at h
  split at h
  · cases h
    exact .refused ho ‹_›
  rename_i hr
  obtain ⟨⟨r',o,fs⟩,hopen,h⟩ := of_bind h
  cases o with
  | none =>
    cases h
    exact .missed ho hr hopen
  | some f =>
    cases slot with
    | some i => exact .opened ho hr hopen h
    | none =>
      obtain ⟨i,_,h⟩ := of_bind h
      exact .stray ho hopen h

lemma openfileLookup_cases (s : Srv) (fileid : Word) : s.openfileLookup fileid = (-E_INVAL,none) ∨
    s.openfileLookup fileid = (0,some (fileid.toNat%MAXOPEN)) := by
  unfold openfileLookup
  simp only
  split
  · exact .inl rfl
  exact .inr rfl

lemma openfileLookup_some (h : s.openfileLookup fileid = (r,some i)) :
    i = fileid.toNat%MAXOPEN ∧ (s.opentab i).pageref ≠ 1 ∧ (s.opentab i).fileid = fileid := by
  unfold openfileLookup at h
  simp only at h
  split at h
  · simp at h
  rename_i hc
  cases h
  exact ⟨rfl,fun h1 => hc (.inl h1),by_contra fun h2 => hc (.inr h2)⟩

lemma withOpen_eq {k : Nat → Ptr → Option (Reply × Srv)} (h : s.withOpen fileid k = some (rep,t))
    : s.openfileLookup fileid = (-E_INVAL,none) ∧ rep = ⟨-E_INVAL,.nothing⟩ ∧ t = s ∨ ∃ i f,
    s.openfileLookup fileid = (0,some i) ∧ (s.opentab i).file = some f ∧ k i f = some (rep,t) := by
  unfold withOpen at h
  obtain hl | hl := openfileLookup_cases s fileid
  · rw [hl] at h
    cases h
    exact .inl ⟨hl,rfl,rfl⟩
  rw [hl] at h
  obtain ⟨f,hf,h⟩ := of_bind h
  exact .inr ⟨_,f,hl,hf,h⟩

/-- `o` after the size in the copy has been set. -/
def resized (o : OpenFile) (pg : FdPage) (size : Word) : OpenFile :=
  { o with fdPage := some { pg with fd := { pg.fd with
      file := Function.update pg.fd.file 32 size } } }

/-- What a request other than `open` does. -/
inductive Served (s : Srv) : Req → Srv → Prop where
  | bad {q : Req} : (∀ path omode takes, q ≠ .open path omode takes) → Served s q s
  | map {i b : Nat} {f : Ptr} {r : Int} {fs : Fs} {fileid offset : Word} :
      s.openfileLookup fileid = (0,some i) → (s.opentab i).file = some f →
      s.fs.fileGetBlock f (offset.sdiv 4096) = some (r,b,fs) →
      Served s (.map fileid offset) {s with fs := fs}
  | setSize {i : Nat} {f : Ptr} {pg : FdPage} {fs : Fs} {fileid size : Word} :
      s.openfileLookup fileid = (0,some i) → (s.opentab i).file = some f →
      s.fs.fileSetSize f size = some fs → (s.opentab i).fdPage = some pg →
      Served s (.setSize fileid size)
        (setOpen {s with fs := fs} i (resized (s.opentab i) pg size))
  | close {i : Nat} {f : Ptr} {fs : Fs} {fileid : Word} :
      s.openfileLookup fileid = (0,some i) → (s.opentab i).file = some f →
      s.fs.fileClose f = some fs → Served s (.close fileid) {s with fs := fs}
  | dirty {i : Nat} {f : Ptr} {r : Int} {fs : Fs} {fileid offset : Word} :
      s.openfileLookup fileid = (0,some i) → (s.opentab i).file = some f →
      s.fs.fileDirty f offset = some (r,fs) →
      Served s (.dirty fileid offset) {s with fs := fs}
  | remove {r : Int} {fs : Fs} {path : List Byte} :
      s.fs.fileRemove (cPath path) = some (r,fs) → Served s (.remove path) {s with fs := fs}
  | sync {fs : Fs} : s.fs.fsSync = some fs → Served s .sync {s with fs := fs}
  | open {path : List Byte} {omode : Word} {takes : Bool} {rep : Reply} {t : Srv} :
      Opened s path omode takes rep t → Served s (.open path omode takes) t

variable {q : Req}

lemma serve_served (h : s.serve q = some (rep,t)) : Served s q t := by
  cases q with
  | «open» path omode takes => exact .open (serveOpen_opened h)
  | map fileid offset =>
    obtain ⟨_,_,rfl⟩ | ⟨i,f,hl,hf,h⟩ := withOpen_eq h
    · exact .bad (by simp)
    obtain ⟨⟨r,b,fs⟩,hg,h⟩ := of_bind h
    obtain rfl : {s with fs := fs} = t := by
      simp only at h
      split at h <;> exact (some_pair_inj h).2
    exact .map hl hf hg
  | setSize fileid size =>
    obtain ⟨_,_,rfl⟩ | ⟨i,f,hl,hf,h⟩ := withOpen_eq h
    · exact .bad (by simp)
    obtain ⟨fs,hs,h⟩ := of_bind h
    obtain ⟨pg,hpg,h⟩ := of_bind h
    cases h
    exact .setSize hl hf hs hpg
  | close fileid =>
    obtain ⟨_,_,rfl⟩ | ⟨i,f,hl,hf,h⟩ := withOpen_eq h
    · exact .bad (by simp)
    obtain ⟨fs,hs,h⟩ := of_bind h
    cases h
    exact .close hl hf hs
  | dirty fileid offset =>
    obtain ⟨_,_,rfl⟩ | ⟨i,f,hl,hf,h⟩ := withOpen_eq h
    · exact .bad (by simp)
    obtain ⟨⟨r,fs⟩,hs,h⟩ := of_bind h
    cases h
    exact .dirty hl hf hs
  | remove path =>
    obtain ⟨⟨r,fs⟩,hs,h⟩ := of_bind h
    cases h
    exact .remove hs
  | sync =>
    obtain ⟨fs,hs,h⟩ := of_bind h
    cases h
    exact .sync hs

lemma serve_block {b : Nat} {perm : Word} (h : s.serve q = some (rep,t))
    (hpage : rep.page = .block b perm) :
    ∃ fileid offset i f r, q = .map fileid offset ∧ s.openfileLookup fileid = (0,some i) ∧
      (s.opentab i).file = some f ∧ s.fs.fileGetBlock f (offset.sdiv 4096) = some (r,b,t.fs) ∧ ¬r < 0 ∧
      perm = (if (s.opentab i).mode&&&(O_WRONLY|||O_RDWR) ≠ 0
        then PTE_U|||PTE_P|||PTE_W else PTE_U|||PTE_P)|||0x400 ∧ t.opentab = s.opentab := by
  cases q with
  | «open» path omode takes =>
    cases serveOpen_opened h with
    | refused _ _ | missed _ _ _ => simp at hpage
    | opened _ _ _ hfin | stray _ _ hfin =>
      obtain ⟨pg,_,rfl,_⟩ := finishOpen_eq hfin
      simp at hpage
  | map fileid offset =>
    obtain ⟨_,rfl,_⟩ | ⟨i,f,hl,hf,h⟩ := withOpen_eq h
    · simp at hpage
    obtain ⟨⟨r,b',fs⟩,hg,h⟩ := of_bind h
    simp only at h
    split at h
    · cases h
      simp at hpage
    rename_i hr
    cases h
    obtain ⟨rfl,rfl⟩ := Sent.block.inj hpage
    exact ⟨fileid,offset,i,f,r,rfl,hl,hf,hg,hr,rfl,rfl⟩
  | setSize fileid size =>
    obtain ⟨_,rfl,_⟩ | ⟨i,f,_,_,h⟩ := withOpen_eq h
    · simp at hpage
    obtain ⟨fs,_,h⟩ := of_bind h
    obtain ⟨pg,_,h⟩ := of_bind h
    cases h
    simp at hpage
  | close fileid =>
    obtain ⟨_,rfl,_⟩ | ⟨i,f,_,_,h⟩ := withOpen_eq h
    · simp at hpage
    obtain ⟨fs,_,h⟩ := of_bind h
    cases h
    simp at hpage
  | dirty fileid offset =>
    obtain ⟨_,rfl,_⟩ | ⟨i,f,_,_,h⟩ := withOpen_eq h
    · simp at hpage
    obtain ⟨⟨r,fs⟩,_,h⟩ := of_bind h
    cases h
    simp at hpage
  | remove path =>
    obtain ⟨⟨r,fs⟩,_,h⟩ := of_bind h
    cases h
    simp at hpage
  | sync =>
    obtain ⟨fs,_,h⟩ := of_bind h
    cases h
    simp at hpage

lemma openfileAlloc_ticks (h : s.openfileAlloc = (r,slot,t)) : Ticks s.fs t.fs := by
  cases openfileAlloc_spec h with
  | full => exact .refl
  | noMem chance | done chance _ _ => exact (Tick.luck s.fs chance s.fs.junk).once

lemma Opened.fs (h : Opened s path omode takes rep t) : Ticks s.fs t.fs := by
  cases h with
  | refused ha _ => exact openfileAlloc_ticks ha
  | missed ha _ hopen => exact (openfileAlloc_ticks ha).trans (fileOpen_ticks hopen)
  | opened ha _ hopen hfin =>
    obtain ⟨pg,_,_,rfl⟩ := finishOpen_eq hfin
    exact (openfileAlloc_ticks ha).trans (fileOpen_ticks hopen)
  | stray ha hopen hfin =>
    obtain ⟨pg,_,_,rfl⟩ := finishOpen_eq hfin
    exact ((openfileAlloc_ticks ha).trans (fileOpen_ticks hopen)).tail (.stray _)

lemma Served.fs (h : Served s q t) : Ticks s.fs t.fs := by
  cases h with
  | bad _ => exact .refl
  | map _ _ h => exact fileGetBlock_ticks h
  | setSize _ _ h _ => exact fileSetSize_ticks h
  | close _ _ h => exact fileClose_ticks h
  | dirty _ _ h => exact fileDirty_ticks h
  | remove h => exact fileRemove_ticks h
  | sync h => exact fsSync_ticks h
  | «open» h => exact h.fs

lemma mapFd_eq (h : s.mapFd i = some t) : ∃ pg, (s.opentab i).fdPage = some pg ∧ pg.clients ≠ 0 ∧
    t = s.setOpen i {s.opentab i with fdPage := some {pg with clients := pg.clients+1}} := by
  obtain ⟨pg,hpg,h⟩ := of_bind h
  split at h
  · cases h
  exact ⟨pg,hpg,‹_›,(some.inj h).symm⟩

lemma unmapFd_eq (h : s.unmapFd i = some t) : ∃ pg, (s.opentab i).fdPage = some pg ∧ pg.clients
    ≠ 0 ∧ t = s.setOpen i {s.opentab i with fdPage := some {pg with clients := pg.clients-1}} := by
  obtain ⟨pg,hpg,h⟩ := of_bind h
  split at h
  · cases h
  exact ⟨pg,hpg,‹_›,(some.inj h).symm⟩

lemma next_req (h : s.next (.req q) = some t) : Served s q t := by
  obtain ⟨⟨rep,u⟩,hs,rfl⟩ := map_eq_some_iff.mp h
  exact serve_served hs

lemma next_fs {a : SrvAct} (h : s.next a = some t) : Ticks s.fs t.fs := by
  cases a with
  | req q => exact (next_req h).fs
  | mapFd i =>
    obtain ⟨pg,_,_,rfl⟩ := mapFd_eq h
    exact .refl
  | unmapFd i =>
    obtain ⟨pg,_,_,rfl⟩ := unmapFd_eq h
    exact .refl

end Srv

end KludgeOS
