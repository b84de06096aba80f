import KludgeOS.Fs.Sizes

/-!
The size in the `Fd` page a client has mapped, and the size of the file.
-/

namespace KludgeOS
open Option

namespace Srv
open Interleaving

variable {s t u : Srv} {a : SrvAct} {i j : Nat} {f : Ptr} {opened files : Set Ptr}

def Mapped (s : Srv) (i : Nat) : Prop := ∃ pg, (s.opentab i).fdPage = some pg ∧ pg.clients ≠ 0

def Agree (s : Srv) : Prop :=
  ∀ i pg, (s.opentab i).fdPage = some pg → pg.clients ≠ 0 →
    ∃ f, (s.opentab i).file = some f ∧ pg.fd.file 32 = s.fs.view.word f.size

/-- Entry `j` is mapped only if it was before, and its file and the copy of the size are the same. -/
def Carried (s t : Srv) (j : Nat) : Prop :=
  ∀ pg, (t.opentab j).fdPage = some pg → pg.clients ≠ 0 → (t.opentab j).file = (s.opentab j).file ∧
      ∃ pg', (s.opentab j).fdPage = some pg' ∧ pg'.clients ≠ 0 ∧ pg.fd.file 32 = pg'.fd.file 32

lemma Carried.of_eq (h : t.opentab j = s.opentab j) : Carried s t j := by
  intro pg hpg hc
  rw [h] at hpg ⊢
  exact ⟨rfl,pg,hpg,hc,rfl⟩

lemma Carried.trans (h : Carried s t j) (h' : Carried t u j) : Carried s u j := by
  intro pg hpg hc
  obtain ⟨hf',pg',hpg',hc',hw'⟩ := h' pg hpg hc
  obtain ⟨hf,pg'',hpg'',hc'',hw⟩ := h pg' hpg' hc'
  exact ⟨hf'.trans hf,pg'',hpg'',hc'',hw'.trans hw⟩

lemma setOpen_carried (s : Srv) (i : Nat) (o : OpenFile) (h : ∀ pg, o.fdPage = some pg →
    pg.clients ≠ 0 → o.file = (s.opentab i).file ∧ ∃ pg', (s.opentab i).fdPage = some pg' ∧
    pg'.clients ≠ 0 ∧ pg.fd.file 32 = pg'.fd.file 32) (j : Nat) : Carried s (s.setOpen i o) j := by
  by_cases hji : j = i
  · subst hji
    intro pg hpg
    rw [setOpen_self] at hpg ⊢
    exact h pg hpg
  exact .of_eq (setOpen_ne s o hji)

lemma openfileAlloc_carried {r : Int} {slot : Option Nat} (h : s.openfileAlloc = (r,slot,t))
    (j : Nat) : Carried s t j := by
  cases openfileAlloc_spec h with
  | full | noMem chance => exact .of_eq rfl
  | @done i chance _ _ =>
    refine setOpen_carried (s.withChance chance) i _ (fun pg hpg hc => ?_) j
    simp only [claimed,some.injEq] at hpg
    subst hpg
    exact absurd rfl hc

variable {omode : Word} {takes : Bool} {rep : Reply} {path : List Byte} {files' : Set Ptr}

lemma finishOpen_carried (h : s.finishOpen i f omode takes = some (rep,t))
    (j : Nat) : Carried s t j ∨ (t.opentab j).file = some f ∧
    ∀ pg, (t.opentab j).fdPage = some pg → pg.fd.file 32 = copyFile t.fs f 32 := by
  obtain ⟨pg,_,_,rfl⟩ := finishOpen_eq h
  by_cases hji : j = i
  · subst hji
    right
    rw [setOpen_self]
    refine ⟨rfl,fun pg' hpg' => ?_⟩
    cases hpg'
    rfl
  exact .inl (.of_eq (setOpen_ne s _ hji))

lemma Held.copy_size (h : Held s opened files) (hf : (s.opentab i).file = some f) :
    copyFile s.fs f 32 = s.fs.view.word f.size := by
  have hat := h.at hf
  have hblk : f.size.blk = f.blk := by rw [Ptr.size,(h.tidy.placed f hat.mem).off (by decide)]
  obtain ⟨pg,hpg⟩ := ne_none_iff_exists'.mp (show s.fs.cache f.blk ≠ none from hat.cached)
  rw [← hblk] at hpg
  change (s.fs.get f.size).getD 0 = _
  simp [Fs.get,hpg,Fs.view,Mem.word]

lemma Opened.carried (h : Opened s path omode takes rep t) (ht : Held t opened files) (j : Nat) :
    Carried s t j ∨ ∃ f, (t.opentab j).file = some f ∧
      ∀ pg, (t.opentab j).fdPage = some pg → pg.fd.file 32 = t.fs.view.word f.size := by
  have hfin : ∀ (s1 : Srv) {i f}, (∀ j, Carried s s1 j) →
      s1.finishOpen i f omode takes = some (rep,t) →
      Carried s t j ∨ ∃ f, (t.opentab j).file = some f ∧
        ∀ pg, (t.opentab j).fdPage = some pg → pg.fd.file 32 = t.fs.view.word f.size := by
    intro s1 i f hc hfin
    obtain hc' | ⟨hf,hcopy⟩ := finishOpen_carried hfin j
    · exact .inl ((hc j).trans hc')
    rw [ht.copy_size hf] at hcopy
    exact .inr ⟨f,hf,hcopy⟩
  cases h with
  | refused ha _ => exact .inl (openfileAlloc_carried ha j)
  | @missed _ _ _ s1 fs ha _ _ => exact .inl ((openfileAlloc_carried ha j).trans (.of_eq rfl))
  | @opened _ _ i f s1 _ fs _ ha _ _ h =>
    exact hfin {s1 with fs := fs} (fun j => (openfileAlloc_carried ha j).trans (.of_eq rfl)) h
  | @stray _ _ i f s1 _ fs _ ha _ h =>
    exact hfin {s1 with fs := fs.note .stray, strays := s1.strays.tail}
      (fun j => (openfileAlloc_carried ha j).trans (.of_eq rfl)) h

def Alone : SrvAct → Srv → Prop
  | .req (.setSize fileid _),s => ∀ i f, s.openfileLookup fileid = (0,some i) →
      (s.opentab i).file = some f → ∀ j, s.Mapped j → (s.opentab j).file = some f → j = i
  | .req (.remove path),s => ∀ r f fs, s.fs.fileOpen (cPath path) = some (r,some f,fs) →
      ∀ j, s.Mapped j → (s.opentab j).file ≠ some f
  | _,_ => True

lemma Held.size_kept (hs : Held s opened files) (hd : Fs.Makes opened (fun u e => ∃ q,
    a = .req q ∧ s.Edits q u e) s.fs files t.fs files') (hf : f ∈ opened) (hset : ∀ q u x,
    a = .req q → ¬s.Edits q u (.field f 32 x)) : t.fs.view.word f.size = s.fs.view.word f.size := by
  refine (hd.does.induct (I := fun u => u.mem.word f.size = s.fs.view.word f.size) hs.tidy rfl
    ?_).2.1
  rintro u e hu hw hok ⟨q,rfl,he⟩
  rw [← hw]
  refine hu.opened_act hok hf (.inl (by decide)) ?_
  rintro x rfl
  exact hset q u x rfl he

lemma Held.carried_agree (hs : Held s opened files) (hI : Agree s) (hd : Fs.Makes opened (fun u
    e => ∃ q, a = .req q ∧ s.Edits q u e) s.fs files t.fs files') (hc : Carried s t j) (hset : ∀ f,
    s.Mapped j → (s.opentab j).file = some f → ∀ q u x, a = .req q → ¬s.Edits q u (.field f 32 x))
    {pg : FdPage} (hpg : (t.opentab j).fdPage = some pg) (hcl : pg.clients ≠ 0)
    : ∃ f, (t.opentab j).file = some f ∧ pg.fd.file 32 = t.fs.view.word f.size := by
  obtain ⟨hfile,pg',hpg',hcl',hw⟩ := hc pg hpg hcl
  obtain ⟨f,hf,hsize⟩ := hI j pg' hpg' hcl'
  refine ⟨f,hfile.trans hf,?_⟩
  rw [hw,hsize,hs.size_kept hd (hs.files j f hf) (hset f ⟨pg',hpg',hcl'⟩ hf)]

lemma Held.agree (hs : Held s opened files) (hI : Agree s) (ha : Alone a s) (h : s.next a = some
    t) (hn : ∀ n ∈ t.fs.notes, n.Calm) : ∃ opened' files', Held t opened' files' ∧ Agree t := by
  obtain ⟨opened',files',ht,hd⟩ := hs.next h hn
  refine ⟨opened',files',ht,fun j pg hpg hcl => ?_⟩
  cases a with
  | mapFd i =>
    obtain ⟨pg0,hpg0,h0,rfl⟩ := mapFd_eq h
    refine hs.carried_agree hI hd (setOpen_carried s i _ (fun pg hpg _ => ?_) j) (by simp) hpg hcl
    cases hpg
    exact ⟨rfl,pg0,hpg0,h0,rfl⟩
  | unmapFd i =>
    obtain ⟨pg0,hpg0,h0,rfl⟩ := unmapFd_eq h
    refine hs.carried_agree hI hd (setOpen_carried s i _ (fun pg hpg _ => ?_) j) (by simp) hpg hcl
    cases hpg
    exact ⟨rfl,pg0,hpg0,h0,rfl⟩
  | req q =>
    -- The size of a file is set by `remove`, for which the entry is not mapped, or by `set_size`.
    have hset : (∀ fileid n, q ≠ .setSize fileid n) → ∀ f, s.Mapped j →
        (s.opentab j).file = some f → ∀ q' u x, SrvAct.req q = .req q' →
          ¬s.Edits q' u (.field f 32 x) := by
      rintro hq f hm hf q' u x ⟨⟩ he
      obtain ⟨_,path,r,fs,rfl,hopen⟩ | ⟨fileid,rfl,_⟩ := he.sets
      · exact ha r f fs hopen j hm hf
      exact hq fileid x rfl
    have hserved := next_req h
    cases hserved with
    | bad _ =>
      obtain ⟨f,hf,hw⟩ := hI j pg hpg hcl
      exact ⟨f,hf,hw⟩
    | map _ _ _ | close _ _ _ | dirty _ _ _ | remove _ | sync _ =>
      exact hs.carried_agree hI hd (.of_eq rfl) (hset (by simp)) hpg hcl
    | «open» ho =>
      obtain hc | ⟨f,hf,hw⟩ := ho.carried ht j
      · exact hs.carried_agree hI hd hc (hset (by simp)) hpg hcl
      exact ⟨f,hf,hw pg hpg⟩
    | @setSize i f pg0 fs fileid n hl hf hg hpg0 =>
      by_cases hji : j = i
      · subst hji
        rw [setOpen_self] at hpg ⊢
        cases hpg
        obtain ⟨_,_,hsize⟩ := Fs.fileSetSize_edits hg (hs.at hf) hn
        refine ⟨f,hf,Eq.trans ?_ hsize.symm⟩
        simp
      refine hs.carried_agree hI hd (.of_eq (setOpen_ne _ _ hji)) ?_ hpg hcl
      rintro g hm hg' q' u x ⟨⟩ he
      obtain ⟨_,_,_,_,hq,_⟩ | ⟨fileid',hq,hfile⟩ := he.sets
      · simp at hq
      obtain ⟨rfl,rfl⟩ : fileid = fileid' ∧ n = x := by simpa using hq
      obtain rfl := hfile.unique ⟨i,hl,hf⟩
      exact hji (ha i g hl hf j hm hg')

lemma Boot.no_page {image : (Nat → Nat → Word) → Prop} (h : Boot image s) (i : Nat) :
    (s.opentab i).fdPage = none := by
  obtain ⟨disk,chance,junk,strays,_,h⟩ := h
  obtain ⟨fs,_,h⟩ := of_bind h
  cases h
  rfl

/-- Sizes are set, and files removed, only while no other client has the file open. -/
theorem agree_alone (s : Srv) (h : Reach (Boot Owned) next Alone s)
    (hn : ∀ n ∈ s.fs.notes, n.Calm) : Agree s := by
  have hI : (∀ n ∈ s.fs.notes, n.Calm) → ∃ opened files, Held s opened files ∧ Agree s := by
    refine Reach.invariant (I := fun s => (∀ n ∈ s.fs.notes, n.Calm) →
      ∃ opened files, Held s opened files ∧ Agree s) h ?_ ?_
    · intro s hs _
      refine ⟨_,_,(hs.held fun _ h => h).2,fun i pg hpg => ?_⟩
      rw [hs.no_page] at hpg
      cases hpg
    intro s t a hs hok ht hn
    obtain ⟨opened,files,hheld,hI⟩ := hs ((next_fs ht).of_notes hn)
    exact hheld.agree hI hok ht hn
  obtain ⟨_,_,_,hagree⟩ := hI hn
  exact hagree

/-- Two clients open `/a`, and one of them empties it. -/
theorem resized_by_another : Owned (diskOf sampleWords) ∧
    ∃ s, Reachable (· = diskOf sampleWords) s ∧ ¬Agree s := by
  refine ⟨Sample.owned fun _ _ _ => rfl,?_⟩
  have h : (runOn (diskOf sampleWords) [.req (.open pathA O_RDWR true),
      .req (.open pathA O_RDWR true),.req (.setSize 1024 0)]).map (fun s =>
        decide ((s.opentab 1).file = some ⟨3,0⟩ ∧ (s.opentab 1).fdPage.map
          (fun pg => (pg.clients,pg.fd.file 32)) = some (1,4096) ∧
          s.fs.view.word (Ptr.size ⟨3,0⟩) = 0)) = some true := by decide +kernel
  obtain ⟨s,hs,hfile,hpage,hsize⟩ := of_map_decide h
  obtain ⟨pg,hpg,hpage⟩ := map_eq_some_iff.mp hpage
  obtain ⟨hcl,hcopy⟩ := Prod.mk.inj hpage
  refine ⟨s,Reachable.runOn rfl hs,fun hI => ?_⟩
  obtain ⟨f,hf,hw⟩ := hI 1 pg hpg (by rw [hcl]; decide)
  obtain rfl := mem_unique hfile hf
  rw [hcopy,hsize] at hw
  exact absurd hw (by decide)

lemma Opened.mapped_one (h : Opened s path omode takes rep t) (h0 : ∀ j, ¬s.Mapped j) :
    ∃ i, ∀ j, t.Mapped j → j = i := by
  have hnone : ∀ {u : Srv} {j}, Carried s u j → ¬u.Mapped j := by
    rintro u j hc ⟨pg,hpg,hcl⟩
    obtain ⟨_,pg',hpg',hcl',_⟩ := hc pg hpg hcl
    exact h0 j ⟨pg',hpg',hcl'⟩
  have hfin : ∀ {u : Srv} {i f}, (∀ j, Carried s u j) →
      u.finishOpen i f omode takes = some (rep,t) → ∃ i, ∀ j, t.Mapped j → j = i := by
    intro u i f hc hfin
    obtain ⟨_,_,_,rfl⟩ := finishOpen_eq hfin
    refine ⟨i,fun j hj => by_contra fun hji => hnone (hc j) ?_⟩
    rw [Mapped,setOpen_ne _ _ hji] at hj
    exact hj
  cases h with
  | refused ha _ => exact ⟨0,fun j hj => absurd hj (hnone (openfileAlloc_carried ha j))⟩
  | missed ha _ _ => exact ⟨0,fun j hj => absurd hj (hnone (openfileAlloc_carried ha j))⟩
  | @opened _ _ i f s1 _ fs _ ha _ _ h =>
    exact hfin (u := {s1 with fs := fs}) (fun j => (openfileAlloc_carried ha j).trans (.of_eq rfl)) h
  | @stray _ _ i f s1 _ fs _ ha _ h =>
    exact hfin (u := {s1 with fs := fs.note .stray, strays := s1.strays.tail})
      (fun j => (openfileAlloc_carried ha j).trans (.of_eq rfl)) h

theorem agree_alone_resized : ∃ s, Reach (Boot Owned) next Alone s ∧
    s.fs.view.word (Ptr.size ⟨3,0⟩) = 8192 ∧ s.Mapped 0 ∧ Agree s := by
  have h : (boot (diskOf sampleWords) [] [] []).bind (fun s0 =>
      (s0.next (.req (.open pathA O_RDWR true))).bind fun s1 =>
        (s1.next (.req (.setSize 1024 8192))).map fun s2 =>
          decide (s1.openfileLookup 1024 = (0,some 0) ∧
            (s1.opentab 0).fdPage.map (fun pg => pg.clients) = some 1 ∧
            (s2.opentab 0).fdPage.map (fun pg => pg.clients) = some 1 ∧
            s2.fs.view.word (Ptr.size ⟨3,0⟩) = 8192 ∧ ∀ n ∈ s2.fs.notes, n.Calm)) =
      some true := by decide +kernel
  obtain ⟨s0,h0,h⟩ := of_bind h
  obtain ⟨s1,h1,h⟩ := of_bind h
  obtain ⟨s2,h2,hlook,hpage1,hpage,hsize,hn⟩ := of_map_decide h
  have hmapped : ∀ {s : Srv}, (s.opentab 0).fdPage.map (fun pg => pg.clients) = some 1 →
      s.Mapped 0 := by
    intro s hs
    obtain ⟨pg,hpg,hcl⟩ := map_eq_some_iff.mp hs
    exact ⟨pg,hpg,by rw [hcl]; decide⟩
  have hboot : Boot Owned s0 := ⟨_,[],[],[],Sample.owned fun _ _ _ => rfl,h0⟩
  have hset : Alone (.req (.setSize 1024 8192)) s1 := by
    intro i f hl _ j hj _
    obtain rfl : i = 0 := by simpa using hl.symm.trans hlook
    have hnone : ∀ j, ¬s0.Mapped j := by
      rintro j ⟨pg,hpg,_⟩
      rw [hboot.no_page] at hpg
      cases hpg
    cases next_req h1 with
    | bad hq => exact absurd rfl (hq _ _ _)
    | «open» ho =>
      obtain ⟨k,hk⟩ := ho.mapped_one hnone
      rw [hk j hj,hk 0 (hmapped hpage1)]
  have hr : Reach (Boot Owned) next Alone s2 :=
    .step (.step (c := .req (.open pathA O_RDWR true)) (.start hboot) trivial h1) hset h2
  exact ⟨s2,hr,hsize,hmapped hpage,agree_alone s2 hr hn⟩

end Srv

end KludgeOS
