import KludgeOS.Fs.Ownership

/-!
What a client sees in the blocks that files are given.
-/

namespace KludgeOS
open Option

namespace Srv

variable {s t : Srv} {a : SrvAct} {f : Ptr} {opened files : Set Ptr}

def HasFile (s : Srv) (f : Ptr) : Prop := IsFile s.fs.view f ∨ ∃ i, (s.opentab i).file = some f

lemma Held.hasFile (h : Held s opened files) (hf : s.HasFile f) : f ∈ files := by
  obtain hf | ⟨i,hf⟩ := hf
  · exact h.tidy.isFile_mem hf
  exact (h.at hf).mem

variable {fileid offset perm : Word}

lemma serveMap_eq {b : Nat} (h : s.serve (.map fileid offset) = some (⟨0,.block b perm⟩,t)) :
    ∃ i f r, s.openfileLookup fileid = (0,some i) ∧ (s.opentab i).file = some f ∧
      s.fs.fileGetBlock f (offset.sdiv 4096) = some (r,b,t.fs) ∧ ¬r < 0 := by
  obtain ⟨_,_,i,f,r,hq,hl,hf,hg,hr,_⟩ := serve_block h rfl
  obtain ⟨rfl,rfl⟩ := Req.map.inj hq
  exact ⟨i,f,r,hl,hf,hg,hr⟩

lemma Held.map_new (hs : Held s opened files) {i b : Nat}
    (h : s.serve (.map fileid offset) = some (⟨0,.block b perm⟩,t)) (hn : ∀ n ∈ t.fs.notes, n.Calm)
    (hl : s.openfileLookup fileid = (0,some i)) (hf : (s.opentab i).file = some f)
    (hnew : Empty s.fs.view f (offset.sdiv 4096).toNat) : Zero (t.fs.view b) ∧
    (s.fs.view.word f.indirect = 0 → NDIRECT ≤ (offset.sdiv 4096).toNat → ∀ k < NINDIRECT,
    k ≠ (offset.sdiv 4096).toNat → t.fs.view.word ⟨(t.fs.view.word f.indirect).toNat,k⟩ = 0) := by
  obtain ⟨i',f',r,hl',hf',hg,hr⟩ := serveMap_eq h
  obtain rfl : i = i' := by simpa using hl.symm.trans hl'
  obtain rfl := mem_unique hf hf'
  obtain ⟨_,_,_,hres⟩ := Fs.fileGetBlock_edits hg hs.tidy (hs.at hf).mem hn
  obtain ⟨_,d,rfl,hhas⟩ := hres hr
  obtain hsame | ⟨_,hzero,hind⟩ := hhas.new
  · obtain ⟨p,hp,hd⟩ := hhas.slot
    rw [hsame] at hp hd
    exact absurd (hd.symm.trans (hnew p hp)) hhas.ne
  exact ⟨hzero,hind⟩

lemma Held.reads (hs : Held s opened files) (hhome : Homed (s.fs.vol files)) (ha : s.next a =
    some t) (hn : ∀ n ∈ t.fs.notes, n.Calm) : ∃ opened' files', Held t opened' files' ∧
    ∀ f ∈ files', t.fs.view.word f.type ≠ FTYPE_DIR → Reads f s.fs.view t.fs.view := by
  have hstep : ∀ q u e, a = .req q → Tidy opened u → (Homed u ∧ ∀ f ∈ u.files,
      u.mem.word f.type ≠ FTYPE_DIR → Reads f s.fs.view u.mem) → e.Ok u → s.Edits q u e →
      Homed (e.act opened u) ∧ ∀ f ∈ (e.act opened u).files,
        (e.act opened u).mem.word f.type ≠ FTYPE_DIR → Reads f s.fs.view (e.act opened u).mem := by
    rintro q u e _ hu ⟨hhome,hreads⟩ hok _
    refine ⟨hu.homed_act hhome hok,fun f hf htype pl p k hp hdata h0 hk hne => ?_⟩
    obtain ⟨hfu,_,_⟩ := hu.slot_act hok hf hp h0
    have htype' : u.mem.word f.type ≠ FTYPE_DIR := by
      rw [← hu.type_act hok hfu hp h0]
      exact htype
    exact (hreads f hfu htype').trans (hu.reads_act hhome hok hf htype) pl p k hp hdata h0 hk hne
  obtain ⟨opened',files',ht,_,hreads⟩ := hs.keep ⟨hhome,fun f _ _ => .refl f _⟩ ha hn hstep
  exact ⟨opened',files',ht,hreads⟩

/-- In calm runs whatever is read through a file was read there before or is zero. -/
theorem no_old_data (s t : Srv) (a : SrvAct) (h : Reachable Owned s) (ha : s.next a = some t)
    (hn : ∀ n ∈ t.fs.notes, n.Calm) :
    (∀ f, t.HasFile f → t.fs.view.word f.type ≠ FTYPE_DIR → Reads f s.fs.view t.fs.view) ∧
    ∀ fileid offset i f b perm, a = .req (.map fileid offset) →
      s.serve (.map fileid offset) = some (⟨0,.block b perm⟩,t) →
      s.openfileLookup fileid = (0,some i) → (s.opentab i).file = some f →
      Empty s.fs.view f (offset.sdiv 4096).toNat → Zero (t.fs.view b) ∧
      (s.fs.view.word f.indirect = 0 → NDIRECT ≤ (offset.sdiv 4096).toNat → ∀ k < NINDIRECT,
        k ≠ (offset.sdiv 4096).toNat →
        t.fs.view.word ⟨(t.fs.view.word f.indirect).toNat,k⟩ = 0) := by
  obtain ⟨opened,files,hs,hhome⟩ := run_held (I := Homed) h ((next_fs ha).of_notes hn)
    (fun disk hd => ⟨hd,hd.homed⟩) fun s t a opened files hs hI _ ht hn =>
      hs.keep hI ht hn fun _ u e _ hu hIu hok _ => hu.homed_act hIu hok
  refine ⟨fun f hf htype => ?_,fun fileid offset i f b perm _ hserve hl hf hnew =>
    hs.map_new hserve hn hl hf hnew⟩
  obtain ⟨opened',files',ht,hreads⟩ := hs.reads hhome ha hn
  exact hreads f (ht.hasFile hf) htype

/-- `/a` is read and removed, and then `/b` is given a size. -/
def reuse : List SrvAct :=
  [.req (.open pathA O_RDWR true),.req (.map 1024 0),.req (.remove pathA),
   .req (.open pathB O_RDWR true),.req (.setSize 1025 4096)]

/-- The block `/b` is extended by has the words of `/a`. -/
theorem removed_data_read : Owned (diskOf ((4,0,7) :: sampleWords)) ∧
    ∃ s t, Reachable (· = diskOf ((4,0,7) :: sampleWords)) s ∧
    s.serve (.map 1025 0) = some (⟨0,.block 4 0x407⟩,t) ∧ s.openfileLookup 1025 = (0,some 1) ∧
    (s.opentab 1).file = some ⟨3,64⟩ ∧ Empty s.fs.view ⟨3,64⟩ 0 ∧ t.fs.view.word ⟨4,0⟩ = 7 := by
  refine ⟨(Sample.cons (by decide) fun _ _ _ => rfl).owned,?_⟩
  have h : (runOn (diskOf ((4,0,7) :: sampleWords)) reuse).bind (fun s =>
      (s.serve (.map 1025 0)).map fun x => decide (x.1 = ⟨0,.block 4 0x407⟩ ∧
        s.openfileLookup 1025 = (0,some 1) ∧ (s.opentab 1).file = some ⟨3,64⟩ ∧
        s.fs.view.word (Ptr.direct ⟨3,64⟩ 0) = 0 ∧ x.2.fs.view.word ⟨4,0⟩ = 7)) = some true := by
    decide +kernel
  obtain ⟨s,hs,h⟩ := of_bind h
  obtain ⟨⟨rep,t⟩,ht,rfl,hl,hf,hempty,hw⟩ := of_map_decide h
  refine ⟨s,t,Reachable.runOn rfl hs,ht,hl,hf,fun p hp => ?_,hw⟩
  cases hp with
  | direct _ => exact hempty

theorem no_old_data_extended : ∃ s t, Reachable Owned s ∧
    s.next (.req (.map 1024 4096)) = some t ∧ Zero (t.fs.view 5) := by
  have h : (runOn (diskOf sampleWords) [.req (.open pathA O_RDWR true)]).bind (fun s =>
      (s.serve (.map 1024 4096)).map fun x => decide (x.1 = ⟨0,.block 5 0x407⟩ ∧
        s.openfileLookup 1024 = (0,some 0) ∧ (s.opentab 0).file = some ⟨3,0⟩ ∧
        s.fs.view.word (Ptr.direct ⟨3,0⟩ 1) = 0 ∧ ∀ n ∈ x.2.fs.notes, n.Calm)) = some true := by
    decide +kernel
  obtain ⟨s,hs,h⟩ := of_bind h
  obtain ⟨⟨rep,t⟩,ht,rfl,hl,hf,hempty,hn⟩ := of_map_decide h
  have hr : Reachable Owned s := .runOn (Sample.owned fun _ _ _ => rfl) hs
  have ha : s.next (.req (.map 1024 4096)) = some t := by simp only [next,ht,map_some]
  refine ⟨s,t,hr,ha,((no_old_data s t _ hr ha hn).2 1024 4096 0 ⟨3,0⟩ 5 _ rfl ht
    hl hf fun p hp => ?_).1⟩
  cases hp with
  | direct _ => exact hempty

end Srv

end KludgeOS
