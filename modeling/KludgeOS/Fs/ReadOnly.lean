import KludgeOS.Fs.Durable

/-!
Requests through files that were opened with `O_RDONLY`.
-/

namespace KludgeOS

open Option Mem

def O_ACCMODE : Word := 0x0003

namespace Fs

def Lucky (s : Fs) : Prop := ∀ c ∈ s.chance, c = .ok

def Still (s t : Fs) : Prop := t.view = s.view ∧ t.Lucky

variable {s t u : Fs} {b : Nat} {r : Int} {w v : Word} {f p : Ptr} {ptr : Option Ptr} {alloc : Bool}

lemma Still.refl (h : s.Lucky) : Still s s := ⟨rfl,h⟩

lemma Still.trans (h : Still s t) (h' : Still t u) : Still s u := ⟨h'.1.trans h.1,h'.2⟩

lemma Lucky.luck (h : s.Lucky) : ∃ l, s.luck = (.ok,{s with chance := l}) ∧ ∀ c ∈ l, c = .ok := by
  refine ⟨s.chance.tail,?_,fun c hc => h c (List.mem_of_mem_tail hc)⟩
  cases hc : s.chance with
  | nil => simp [Fs.luck,hc]
  | cons c l =>
    obtain rfl := h c (by rw [hc]; exact List.mem_cons_self)
    simp [Fs.luck,hc]

lemma loadBlock_still (h : s.loadBlock b = some (r,t)) (hs : s.Lucky) : r = 0 ∧ Still s t := by
  have hload := loadBlock_loaded h
  unfold loadBlock at h
  split at h
  · cases h
    exact ⟨rfl,.refl hs⟩
  obtain ⟨l,hl,hok⟩ := hs.luck
  have hs1 : Lucky (setCache {s with chance := l} b {words := fun _ => 0, dirty := false}) := hok
  obtain ⟨l',hl',hok'⟩ := hs1.luck
  simp only [sysPageAlloc,hl,ideRead,setCache_self,hl'] at h
  obtain ⟨rfl,rfl⟩ : 0 = r ∧ _ = t := by simpa [remap] using h
  exact ⟨rfl,(hload.success (by decide)).1,hok'⟩

lemma readBlock_still (h : s.readBlock w = some (r,t)) (hs : s.Lucky) : r = 0 ∧ Still s t := by
  obtain ⟨b,_,h⟩ := of_bind h
  obtain ⟨free,_,h⟩ := of_bind h
  cases free with
  | true => contradiction
  | false => exact loadBlock_still h hs

lemma Walked.still (h : Walked s f w alloc r ptr t) (hs : s.Lucky) (hhas : alloc →
    w.toNat < NINDIRECT → s.view.blockOf f w.toNat ≠ 0) : Still s t ∧ (ptr = none → r < 0) ∧
    ∀ p, ptr = some p → w.toNat < NINDIRECT ∧ s.view.word p = s.view.blockOf f w.toNat := by
  have hd : NDIRECT = 10 := rfl
  have hn : NINDIRECT = 1024 := rfl
  cases h with
  | direct hlt =>
    refine ⟨.refl hs,by simp,fun p hp => ⟨by omega,?_⟩⟩
    cases hp
    rw [blockOf,if_pos hlt]
  | missing _ _ _ => exact ⟨.refl hs,fun _ => by decide,by simp⟩
  | made hge hlt hind ha _ _ _ =>
    refine absurd ?_ (hhas ha hlt)
    rw [blockOf,if_neg (Nat.not_lt.mpr hge),if_pos (get_view hind).2]
  | read hge hlt hind h0 hr _ =>
    refine ⟨(readBlock_still hr hs).2,by simp,fun p hp => ⟨hlt,?_⟩⟩
    cases hp
    rw [blockOf,if_neg (Nat.not_lt.mpr hge),(get_view hind).2,if_neg h0]
  | unread _ _ _ _ hr hneg =>
    obtain ⟨rfl,_⟩ := readBlock_still hr hs
    exact absurd hneg (by decide)
  | range _ => exact ⟨.refl hs,fun _ => by decide,by simp⟩

lemma fileMapBlock_still (h : s.fileMapBlock f w alloc = some (r,v,t)) (hs : s.Lucky)
    (hhas : alloc → w.toNat < NINDIRECT → s.view.blockOf f w.toNat ≠ 0) : Still s t := by
  obtain ⟨⟨r1,ptr,s1⟩,hwalk,h⟩ := of_bind h
  obtain ⟨hstill,hnone,hsome⟩ := (fileBlockWalk_walked hwalk).still hs hhas
  simp only at h
  split at h
  · cases h
    exact hstill
  rename_i hr
  obtain ⟨⟨p,s2⟩,hfol,h⟩ := of_bind h
  obtain ⟨x,hx,h⟩ := of_bind h
  cases ptr with
  | none => exact absurd (hnone rfl) hr
  | some q =>
    obtain ⟨rfl,rfl⟩ := some_pair_inj hfol
    split at h
    · rename_i h0
      subst h0
      cases alloc with
      | true =>
        obtain ⟨hlt,hq⟩ := hsome q rfl
        refine absurd ?_ (hhas rfl hlt)
        rw [← hq,← hstill.1]
        exact (get_view hx).2
      | false =>
        cases h
        exact hstill
    cases h
    exact hstill

lemma fileGetBlock_still (h : s.fileGetBlock f w = some (r,b,t)) (hs : s.Lucky)
    (hhas : w.toNat < NINDIRECT → s.view.blockOf f w.toNat ≠ 0) : Still s t := by
  obtain ⟨⟨r1,d,s1⟩,hmap,h⟩ := of_bind h
  have h1 := fileMapBlock_still hmap hs fun _ => hhas
  simp only at h
  split at h
  · cases h
    exact h1
  obtain ⟨⟨r2,s2⟩,hr,h⟩ := of_bind h
  cases h
  exact h1.trans (readBlock_still hr h1.2).2

lemma put_still (hget : s.get p = some w) (hput : s.put p w = some t) (hs : s.Lucky) :
    Still s t := by
  refine ⟨?_,?_⟩
  · have hw := (get_view hget).2
    rw [show t.view = s.view.put p w from congrArg Vol.mem (put_vol hput ∅),← hw]
    simp [Mem.put,Mem.set,Mem.word]
  obtain ⟨pg,_,rfl⟩ := put_eq hput
  exact hs

lemma fileDirty_still (h : s.fileDirty f w = some (r,t)) (hs : s.Lucky) (hhas :
    (w.sdiv 4096).toNat < NINDIRECT → s.view.blockOf f (w.sdiv 4096).toNat ≠ 0) : Still s t := by
  obtain ⟨⟨r1,b,s1⟩,hget,h⟩ := of_bind h
  have h1 := fileGetBlock_still hget hs hhas
  simp only at h
  split at h
  · cases h
    exact h1
  obtain ⟨x,hx,h⟩ := of_bind h
  obtain ⟨s2,hp,h⟩ := of_bind h
  cases h
  exact h1.trans (put_still hx hp h1.2)

lemma writeBlock_still (h : s.writeBlock w = some t) (hs : s.Lucky) : Still s t := by
  refine ⟨congrArg Vol.mem (writeBlock_vol h ∅),?_⟩
  obtain ⟨pg,_,rfl⟩ := writeBlock_eq h
  exact hs

lemma flushRounds_still (n : Nat) : ∀ {s : Fs} {i : Nat}, s.flushRounds f n i = some t →
    s.Lucky → Still s t := by
  induction n with
  | zero =>
    intro s i h hs
    cases h
    exact .refl hs
  | succ n ih =>
    intro s i h hs
    obtain ⟨⟨r1,d,s1⟩,hmap,h⟩ := of_bind h
    have h1 := fileMapBlock_still hmap hs (by simp)
    simp only at h
    split at h
    · exact h1.trans (ih h h1.2)
    obtain ⟨dirty,_,h⟩ := of_bind h
    split at h
    · obtain ⟨s2,hw,h⟩ := of_bind h
      have h2 := writeBlock_still hw h1.2
      exact (h1.trans h2).trans (ih h h2.2)
    exact h1.trans (ih h h1.2)

lemma fileFlush_still (h : s.fileFlush f = some t) (hs : s.Lucky) : Still s t := by
  obtain ⟨x,_,h⟩ := of_bind h
  exact flushRounds_still _ h hs

lemma flushDir_still (h : s.flushDir f = some t) (hs : s.Lucky) : Still s t := by
  obtain ⟨x,_,h⟩ := of_bind h
  split at h
  · cases h
    exact .refl hs
  obtain ⟨d,_,h⟩ := of_bind h
  exact fileFlush_still h hs

lemma fileClose_still (h : s.fileClose f = some t) (hs : s.Lucky) : Still s t := by
  obtain ⟨s1,hf,h⟩ := of_bind h
  have h1 := fileFlush_still hf hs
  exact h1.trans (flushDir_still h h1.2)

lemma fileSetSize_still (h : s.fileSetSize f w = some t) (hs : s.Lucky)
    (hw : s.view.word f.size = w) : Still s t := by
  obtain ⟨x,hx,h⟩ := of_bind h
  obtain ⟨s1,h1,h⟩ := of_bind h
  obtain ⟨s2,hp,hflush⟩ := of_bind h
  obtain rfl : x = w := (get_view hx).2.symm.trans hw
  rw [if_neg (by simp [BitVec.slt])] at h1
  cases h1
  have h2 := put_still hx hp hs
  exact h2.trans (flushDir_still hflush h2.2)

end Fs

namespace Srv
open Interleaving

/-- A request on an open file that names an id opened with `O_RDONLY`, or one of no open file. -/
def ReadOnly (s : Srv) : Req → Prop
  | .map fileid _ | .setSize fileid _ | .dirty fileid _ | .close fileid =>
    ∀ i, s.openfileLookup fileid = (0,some i) → (s.opentab i).mode&&&O_ACCMODE = 0
  | .open _ _ _ | .remove _ | .sync => False

def Harmless (s : Srv) : Req → Prop
  | .map fileid offset | .dirty fileid offset =>
    ∀ i f, s.openfileLookup fileid = (0,some i) → (s.opentab i).file = some f →
      (offset.sdiv 4096).toNat < NINDIRECT → s.fs.view.blockOf f (offset.sdiv 4096).toNat ≠ 0
  | .setSize fileid size => ∀ i f, s.openfileLookup fileid = (0,some i) →
      (s.opentab i).file = some f → s.fs.view.word f.size = size
  | .close _ | .open _ _ _ | .remove _ | .sync => True

def NotWritable (rep : Reply) : Prop := ∀ b perm, rep.page = .block b perm → perm&&&PTE_W = 0

variable {s t : Srv} {q : Req} {rep : Reply}

lemma ReadOnly.still (hq : s.ReadOnly q) (hh : s.Harmless q) (hs : s.fs.Lucky)
    (h : s.serve q = some (rep,t)) : Fs.Still s.fs t.fs := by
  cases serve_served h with
  | bad _ => exact .refl hs
  | map hl hf hg => exact Fs.fileGetBlock_still hg hs (hh _ _ hl hf)
  | dirty hl hf hg => exact Fs.fileDirty_still hg hs (hh _ _ hl hf)
  | setSize hl hf hg _ => exact Fs.fileSetSize_still hg hs (hh _ _ hl hf)
  | close hl hf hg => exact Fs.fileClose_still hg hs
  | remove _ | sync _ | «open» _ => exact absurd hq id

lemma ReadOnly.notWritable (hq : s.ReadOnly q) (h : s.serve q = some (rep,t)) :
    NotWritable rep := by
  intro b perm hpage
  obtain ⟨fileid,offset,i,f,r,rfl,hl,_,_,_,rfl,_⟩ := serve_block h hpage
  have hacc : O_ACCMODE = O_WRONLY|||O_RDWR := rfl
  rw [if_neg (not_not.mpr (hacc ▸ hq i hl))]
  rfl

/-- Requests on ids opened with `O_RDONLY`, on blocks the file has or with the size it has, leave
every word of the disk as the server sees it. -/
theorem readOnly_unchanged (s0 s : Srv) (h : Reach (· = s0) (fun q s => (s.serve q).map Prod.snd)
    (fun q s => s.ReadOnly q ∧ s.Harmless q ∧ s.fs.Lucky) s) : s.fs.view = s0.fs.view ∧
    ∀ q rep t, s.ReadOnly q → s.serve q = some (rep,t) → NotWritable rep := by
  refine ⟨h.invariant (I := fun s => s.fs.view = s0.fs.view) ?_ ?_,fun q rep t hq h =>
    hq.notWritable h⟩
  · rintro s rfl
    rfl
  rintro s t q hview ⟨hq,hh,hs⟩ ht
  obtain ⟨⟨rep,t⟩,hserve,rfl⟩ := map_eq_some_iff.mp ht
  exact (hq.still hh hs hserve).1.trans hview

def openA : List SrvAct := [.req (.open pathA 0 true)]

/-- The size of `/a` is set through an id opened with `O_RDONLY`. The file loses its block. -/
theorem readOnly_truncates : ∃ s rep t, Reachable Owned s ∧ s.ReadOnly (.setSize 1024 0) ∧
    s.serve (.setSize 1024 0) = some (rep,t) ∧ IsFile s.fs.view ⟨3,0⟩ ∧
    s.fs.view.word (Ptr.size ⟨3,0⟩) = 4096 ∧ t.fs.view.word (Ptr.size ⟨3,0⟩) = 0 ∧
    s.fs.view.isFree 4 = false ∧ t.fs.view.isFree 4 := by
  have h : ((runOn (diskOf sampleWords) openA).bind fun s => (s.serve (.setSize 1024 0)).map fun x =>
      decide ((s.opentab 0).mode = 0 ∧ s.fs.view.word rootFile.type = FTYPE_DIR ∧
        s.fs.view.word (rootFile.direct 0) = 3 ∧
        s.fs.view.word (Ptr.size ⟨3,0⟩) = 4096 ∧ x.2.fs.view.word (Ptr.size ⟨3,0⟩) = 0 ∧
        s.fs.view.isFree 4 = false ∧ x.2.fs.view.isFree 4)) = some true := by decide +kernel
  obtain ⟨s,hs,h⟩ := of_bind h
  obtain ⟨⟨rep,t⟩,ht,hmode,hdir,hslot,hsize,hsize',hfree,hfree'⟩ := of_map_decide h
  have hfile : IsFile s.fs.view ⟨3,0⟩ := by
    have := IsFile.entry (k := 0) .root hdir (.direct (j := 0) (by decide)) trivial
      (by rw [hslot]; decide) (by decide)
    rw [hslot] at this
    exact this
  refine ⟨s,rep,t,.runOn (Sample.owned fun _ _ _ => rfl) hs,fun i hl => ?_,ht,hfile,hsize,hsize',hfree,
    hfree'⟩
  obtain ⟨rfl,_⟩ := openfileLookup_some hl
  change (s.opentab 0).mode&&&_ = 0
  rw [hmode]
  decide

theorem readOnly_unchanged_mapped : ∃ s t b perm, Reachable (· = diskOf sampleWords) s ∧ s.serve
    (.map 1024 0) = some (⟨0,.block b perm⟩,t) ∧ t.fs.view = s.fs.view ∧ perm&&&PTE_W = 0 := by
  have h : ((runOn (diskOf sampleWords) openA).bind fun s => (s.serve (.map 1024 0)).map fun x =>
      decide ((s.opentab 0).mode = 0 ∧ (s.opentab 0).file = some ⟨3,0⟩ ∧
        s.fs.view.blockOf ⟨3,0⟩ 0 = 4 ∧ s.fs.chance = [] ∧ x.1 = ⟨0,.block 4 0x405⟩)) =
      some true := by decide +kernel
  obtain ⟨s,hs,h⟩ := of_bind h
  obtain ⟨⟨rep,t⟩,ht,hmode,hfile,hblk,hchance,rfl⟩ := of_map_decide h
  have hq : s.ReadOnly (.map 1024 0) := by
    intro i hl
    obtain ⟨rfl,_⟩ := openfileLookup_some hl
    change (s.opentab 0).mode&&&_ = 0
    rw [hmode]
    decide
  have hh : s.Harmless (.map 1024 0) := by
    intro i f hl hf _
    obtain ⟨rfl,_⟩ := openfileLookup_some hl
    obtain rfl := mem_unique hfile hf
    change s.fs.view.blockOf ⟨3,0⟩ 0 ≠ 0
    rw [hblk]
    decide
  have hrun := readOnly_unchanged s t (.step (.start rfl)
    ⟨hq,hh,by simp [Fs.Lucky,hchance]⟩ (by rw [ht]; rfl))
  have hstart := readOnly_unchanged s s (.start rfl)
  exact ⟨s,t,4,0x405,.runOn rfl hs,ht,hrun.1,hstart.2 _ _ _ hq ht _ _ rfl⟩

end Srv

end KludgeOS
