import KludgeOS.Fs.NewBlocks

/-!
The pages of the disk map that clients hold.
-/

namespace KludgeOS
open Option List BitVec

structure Hold where
  env : Nat
  blk : Nat
  file : Ptr
  mode : Word
  deriving DecidableEq

/-- The server and the mappings its clients have from the replies of `serve_map`. -/
structure Clients where
  srv : Srv
  holds : List Hold

inductive ClientAct where
  | act : (env : Nat) → SrvAct → ClientAct
  /-- A mapping goes, by `sys_page_unmap` or with its environment. -/
  | unmap : (k : Nat) → ClientAct
  deriving DecidableEq

def Srv.lends (s : Srv) (env : Nat) : Req → Reply → List Hold
  | .map fileid _,⟨_,.block b perm⟩ =>
    if perm&&&PTE_W = 0 then []
    else
      match (s.openfileLookup fileid).2 with
      | none => []
      | some i => ((s.opentab i).file.map fun f => ⟨env,b,f,(s.opentab i).mode⟩).toList
  | _,_ => []

namespace Clients
open Interleaving

def next : ClientAct → Clients → Option Clients
  | .act env (.req q),s =>
    (s.srv.serve q).map fun x => ⟨x.2,s.srv.lends env q x.1++s.holds⟩
  | .act _ a,s => (s.srv.next a).map fun t => {s with srv := t}
  | .unmap k,s => some {s with holds := s.holds.eraseIdx k}

def Start (image : (Nat → Nat → Word) → Prop) (s : Clients) : Prop :=
  Srv.Boot image s.srv ∧ s.holds = []

def Private (s : Clients) : Prop :=
  ∀ h ∈ s.holds, ∀ g, s.srv.HasFile g → ∀ pl p, BlockSlot s.srv.fs.view g pl p →
    (s.srv.fs.view.word p).toNat = h.blk → g = h.file ∧ h.mode&&&(O_WRONLY|||O_RDWR) ≠ 0

/-- `alloc_block` hands out no block that a client may write. -/
def Spares (a : ClientAct) (s : Clients) : Prop :=
  ∀ t, s.next a = some t → ∀ b old disk, Fs.Noted s.srv.fs t.srv.fs (.taken b old disk) →
    ∀ h ∈ s.holds, h.blk ≠ b

end Clients

def Hold.Own (h : Hold) (v : Vol) : Prop :=
  ∀ g ∈ v.files, ∀ pl p, BlockSlot v.mem g pl p → (v.mem.word p).toNat = h.blk → g = h.file

namespace Hold

variable {h : Hold} {v : Vol} {opened files : Set Ptr} {e : FsEdit}

lemma Own.act (hown : h.Own v) (h0 : h.blk ≠ 0) (hv : Tidy opened v) (hok : e.Ok v)
    (hb : ∀ f pl p, e ≠ .hang f pl p h.blk) : h.Own (e.act opened v) := by
  intro g hg pl p hp hw
  have hne : (e.act opened v).mem.word p ≠ 0 := by
    intro hz
    rw [hz] at hw
    exact h0 hw.symm
  obtain ⟨hgv,hs,hcase⟩ := hv.slot_act hok hg hp hne
  obtain hsame | ⟨b,rfl⟩ := hcase
  · rw [hsame] at hw
    exact hown g hgv pl p hs hw
  obtain ⟨_,_,_,hvac⟩ := hok
  simp only [FsEdit.act,Mem.word_put_self,hvac.usable.toNat_ofNat] at hw
  subst hw
  exact absurd rfl (hb g pl p)

lemma own_of_slot {pl : Place} {p : Ptr} (hv : Tidy opened v) (hf : h.file ∈ v.files)
    (hp : BlockSlot v.mem h.file pl p) (hw : (v.mem.word p).toNat = h.blk) (h0 : h.blk ≠ 0) :
    h.Own v := by
  intro g hg ql q hq hwq
  have hne : v.mem.word p ≠ 0 := by
    intro hz
    rw [hz] at hw
    exact h0 hw.symm
  have he := eq_of_toNat_eq (hw.trans hwq.symm)
  obtain rfl := hv.inj h.file hf g hg pl ql p q hp hq hne he
  exact (hv.slot_inj hf hg hp hq).1.symm

end Hold

namespace Srv

variable {s t : Srv} {q : Req} {rep : Reply} {env : Nat} {h : Hold}

lemma lends_mem (hh : h ∈ s.lends env q rep) : ∃ fileid offset i perm, q = .map fileid offset ∧
    rep.page = .block h.blk perm ∧ perm&&&PTE_W ≠ 0 ∧ (s.openfileLookup fileid).2 = some i ∧
    (s.opentab i).file = some h.file ∧ h.mode = (s.opentab i).mode := by
  obtain ⟨r,page⟩ := rep
  cases q with
  | map fileid offset =>
    cases page with
    | block b perm =>
      simp only [lends] at hh
      split at hh
      · cases hh
      rename_i hperm
      split at hh
      · cases hh
      rename_i i hl
      obtain ⟨f,hf,rfl⟩ := map_eq_some_iff.mp (mem_toList.mp hh)
      exact ⟨fileid,offset,i,perm,rfl,rfl,hperm,hl,hf,rfl⟩
    | nothing | fd => contradiction
  | «open» | setSize | close | dirty | remove | sync => contradiction

end Srv

namespace Clients
open Interleaving

variable {s t : Clients} {a : ClientAct} {h : Hold} {opened files : Set Ptr}

structure Sound (h : Hold) (v : Vol) : Prop where
  ne : h.blk ≠ 0
  mode : h.mode&&&(O_WRONLY|||O_RDWR) ≠ 0
  own : h.Own v

lemma sound_lend {q : Req} {rep : Reply} {u w : Srv} {env : Nat} (hs : Srv.Held u opened files)
    (hserve : u.serve q = some (rep,w)) (hn : ∀ n ∈ w.fs.notes, n.Calm) (hh : h ∈ u.lends env q rep)
    {opened' files' : Set Ptr} (hw : Srv.Held w opened' files') : Sound h (w.fs.vol files') := by
  obtain ⟨fileid,offset,i,perm,rfl,hpage,hperm,hl,hf,hmode⟩ := Srv.lends_mem hh
  obtain ⟨_,_,i',f,r,hq,hl',hf',hg,hr,rfl,htab⟩ := Srv.serve_block hserve hpage
  obtain ⟨rfl,rfl⟩ := Req.map.inj hq
  obtain rfl : i = i' := by simpa [hl'] using hl.symm
  obtain rfl := mem_unique hf hf'
  obtain ⟨_,_,_,hres⟩ := Fs.fileGetBlock_edits hg hs.tidy (hs.at hf).mem hn
  obtain ⟨_,d,hd,hhas⟩ := hres hr
  obtain ⟨p,hp,hpw⟩ := hhas.slot
  have h0 : h.blk ≠ 0 := by
    intro hz
    exact hhas.ne (eq_of_toNat_eq (hd.trans hz))
  refine ⟨h0,?_,Hold.own_of_slot hw.tidy (hw.at (by rw [htab]; exact hf)).mem hp
    ((congrArg BitVec.toNat hpw).trans hd) h0⟩
  rw [hmode]
  intro hz
  rw [if_neg (not_not.mpr hz)] at hperm
  exact hperm (by decide)

lemma sound_next {b : SrvAct} {w : Srv} (hs : Srv.Held s.srv opened files) (hI : ∀ h ∈ s.holds,
    Sound h (s.srv.fs.vol files)) (hb : s.srv.next b = some w) (hn : ∀ n ∈ w.fs.notes, n.Calm)
    (hspare : ∀ b old disk, Fs.Noted s.srv.fs w.fs (.taken b old disk) → ∀ h ∈ s.holds, h.blk ≠ b)
    : ∃ opened' files', Srv.Held w opened' files' ∧ ∀ h ∈ s.holds, Sound h (w.fs.vol files') := by
  obtain ⟨opened',files',ht,hd⟩ := hs.next hb hn
  refine ⟨opened',files',ht,(hd.edits.induct (I := fun v => ∀ h ∈ s.holds, Sound h v) hs.tidy hI
    ?_).2.1⟩
  rintro v e hv hIv hok ⟨_,hback⟩ h hh
  obtain ⟨h0,hmode,hown⟩ := hIv h hh
  refine ⟨h0,hmode,hown.act h0 hv hok ?_⟩
  rintro f pl p rfl
  obtain ⟨old,disk,hnoted⟩ := hback
  exact hspare _ old disk hnoted h hh rfl

lemma sound_step (hs : Srv.Held s.srv opened files)
    (hI : ∀ h ∈ s.holds, Sound h (s.srv.fs.vol files)) (hspare : Spares a s)
    (ha : s.next a = some t) (hn : ∀ n ∈ t.srv.fs.notes, n.Calm) : ∃ opened' files',
    Srv.Held t.srv opened' files' ∧ ∀ h ∈ t.holds, Sound h (t.srv.fs.vol files') := by
  have hspare := hspare t ha
  cases a with
  | act env b =>
    cases b with
    | req q =>
      obtain ⟨⟨rep,w⟩,hserve,rfl⟩ := map_eq_some_iff.mp ha
      have hnext : s.srv.next (.req q) = some w := by simp only [Srv.next,hserve,map_some]
      obtain ⟨opened',files',ht,hI'⟩ := sound_next hs hI hnext hn hspare
      refine ⟨opened',files',ht,fun h hh => ?_⟩
      obtain hh | hh := mem_append.mp hh
      · exact sound_lend hs hserve hn hh ht
      exact hI' h hh
    | mapFd i | unmapFd i =>
      obtain ⟨w,hw,rfl⟩ := map_eq_some_iff.mp ha
      exact sound_next (s := s) hs hI hw hn hspare
  | unmap k =>
    cases ha
    exact ⟨opened,files,hs,fun h hh => hI h (mem_of_mem_eraseIdx hh)⟩

lemma next_notes (ha : s.next a = some t) : Fs.Ticks s.srv.fs t.srv.fs := by
  cases a with
  | act env b =>
    cases b with
    | req q =>
      obtain ⟨⟨rep,w⟩,hserve,rfl⟩ := map_eq_some_iff.mp ha
      exact Srv.next_fs (a := .req q) (by simp only [Srv.next,hserve,map_some])
    | mapFd i | unmapFd i =>
      obtain ⟨w,hw,rfl⟩ := map_eq_some_iff.mp ha
      exact Srv.next_fs hw
  | unmap k =>
    cases ha
    exact .refl

/-- If no block that a client may write is handed out, a client that may write a block has mapped
its file, open for writing. -/
theorem private_of_spares (s : Clients) (h : Reach (Start Owned) next Spares s)
    (hn : ∀ n ∈ s.srv.fs.notes, n.Calm) : s.Private := by
  have hI : (∀ n ∈ s.srv.fs.notes, n.Calm) → ∃ opened files, Srv.Held s.srv opened files ∧
      ∀ h ∈ s.holds, Sound h (s.srv.fs.vol files) := by
    refine Reach.invariant (I := fun s => (∀ n ∈ s.srv.fs.notes, n.Calm) → ∃ opened files,
      Srv.Held s.srv opened files ∧ ∀ h ∈ s.holds, Sound h (s.srv.fs.vol files)) h ?_ ?_
    · rintro s ⟨hboot,hholds⟩ _
      exact ⟨_,_,(hboot.held fun _ h => h).2,by simp [hholds]⟩
    intro s t a hs hspare ht hn
    obtain ⟨opened,files,hs,hI⟩ := hs ((next_notes ht).of_notes hn)
    exact sound_step hs hI hspare ht hn
  obtain ⟨opened,files,hs,hI⟩ := hI hn
  intro h hh g hg pl p hp hw
  exact ⟨(hI h hh).own g (hs.hasFile hg) pl p hp hw,(hI h hh).mode⟩

def runOn (ok : ClientAct → Clients → Bool) (disk : Nat → Nat → Word) (l : List ClientAct) :
    Option Clients :=
  (Srv.boot disk [] [] []).bind fun s => turns next ok l ⟨s,[]⟩

lemma reach_runOn {image : (Nat → Nat → Word) → Prop} {ok : ClientAct → Clients → Prop}
    {test : ClientAct → Clients → Bool} (htest : ∀ a s, test a s → ok a s)
    {disk : Nat → Nat → Word} {l : List ClientAct} (hd : image disk)
    (h : runOn test disk l = some s) : Reach (Start image) next ok s := by
  obtain ⟨s0,h0,h⟩ := of_bind h
  exact Reach.turns htest l (.start ⟨⟨disk,[],[],[],hd,h0⟩,rfl⟩) h

/-- Environment 0 maps `/a`, environment 1 removes it and maps `/b`. -/
def removeA : List ClientAct :=
  [.act 0 (.req (.open pathA O_RDWR true)),.act 0 (.req (.map 1024 0)),.act 1 (.req (.remove
   pathA)),.act 1 (.req (.open pathB O_RDWR true)),.act 1 (.req (.map 1025 0))]

/-- The block that environment 0 may write, from its mapping of `/a`, is one of `/b`. -/
theorem removed_block_writable : ∃ s, Reach (Start Owned) next (fun _ _ => True) s ∧
    ⟨0,4,⟨3,0⟩,O_RDWR⟩ ∈ s.holds ∧ s.srv.HasFile ⟨3,64⟩ ∧
    s.srv.fs.view.word (Ptr.direct ⟨3,64⟩ 0) = 4 ∧ ¬s.Private := by
  have h : (runOn (fun _ _ => true) (diskOf sampleWords) removeA).map (fun s =>
      decide (⟨0,4,⟨3,0⟩,O_RDWR⟩ ∈ s.holds ∧ (s.srv.opentab 1).file = some ⟨3,64⟩ ∧
        s.srv.fs.view.word (Ptr.direct ⟨3,64⟩ 0) = 4)) = some true := by decide +kernel
  obtain ⟨s,hs,hhold,hfile,hslot⟩ := of_map_decide h
  refine ⟨s,reach_runOn (fun _ _ _ => trivial) (Sample.owned fun _ _ _ => rfl) hs,hhold,
    .inr ⟨1,hfile⟩,hslot,fun hp => ?_⟩
  have := (hp _ hhold ⟨3,64⟩ (.inr ⟨1,hfile⟩) _ _ (.direct (j := 0) (by decide))
    (by rw [hslot]; rfl)).1
  simp at this

def spares (a : ClientAct) (s : Clients) : Bool :=
  match s.next a with
  | none => true
  | some t => (t.srv.fs.notes.take (t.srv.fs.notes.length-s.srv.fs.notes.length)).all fun n =>
      match n with
      | .taken b _ _ => s.holds.all fun h => h.blk != b
      | _ => true

lemma spares_of_test (a : ClientAct) (s : Clients) (h : spares a s) : Spares a s := by
  intro t ht b old disk hnoted hd hh
  obtain ⟨l,hl,hmem⟩ := hnoted
  simp only [spares,ht,hl,length_append,Nat.add_sub_cancel,take_left] at h
  have hb := List.all_eq_true.mp h _ hmem
  simpa using List.all_eq_true.mp hb hd hh

/-- Environment 0 maps `/a` and environment 1 maps `/b`. -/
def mapBoth : List ClientAct :=
  [.act 0 (.req (.open pathA O_RDWR true)),.act 0 (.req (.map 1024 0)),
   .act 1 (.req (.open pathB O_RDWR true)),.act 1 (.req (.map 1025 0))]

theorem private_of_spares_both : ∃ s, Reach (Start Owned) next Spares s ∧
    s.holds = [⟨1,5,⟨3,64⟩,O_RDWR⟩,⟨0,4,⟨3,0⟩,O_RDWR⟩] ∧ s.Private := by
  have h : (runOn spares (diskOf sampleWords) mapBoth).map (fun s =>
      decide (s.holds = [⟨1,5,⟨3,64⟩,O_RDWR⟩,⟨0,4,⟨3,0⟩,O_RDWR⟩] ∧
        ∀ n ∈ s.srv.fs.notes, n.Calm)) = some true := by decide +kernel
  obtain ⟨s,hs,hholds,hn⟩ := of_map_decide h
  have hr : Reach (Start Owned) next Spares s :=
    reach_runOn spares_of_test (Sample.owned fun _ _ _ => rfl) hs
  exact ⟨s,hr,hholds,private_of_spares s hr hn⟩

end Clients

end KludgeOS
