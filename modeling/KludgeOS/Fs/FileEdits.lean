import KludgeOS.Fs.Slots

/-!
The functions on files perform edits: the words of the disk as the file server
sees them change by edits only.
-/

namespace KludgeOS
open BitVec (ofNat ofInt)
open Traces List Mem BitVec
open Function FsEdit
open FsEdit (take)
open Relation (ReflTransGen)

def Note.Calm : Note → Prop
  | .taken _ (some pg) _ => Zero pg.words
  | .wild => False
  | _ => True

namespace Fs

def view (s : Fs) : Mem := fun b =>
  match s.cache b with
  | some pg => pg.words
  | none => s.disk b

def vol (s : Fs) (files : Set Ptr) : Vol :=
  {mem := s.view, cached := fun b => s.cache b ≠ none, files := files}

def Does (opened : Set Ptr) (P : Vol → FsEdit → Prop) (v v' : Vol) : Prop :=
  ∃ l, Runs (fun v e => e.Ok v ∧ P v e) (act opened) v l v'

namespace Does

variable {opened : Set Ptr} {P Q : Vol → FsEdit → Prop} {v v' v'' : Vol} {e : FsEdit}

lemma refl (v : Vol) : Does opened P v v := ⟨[],.nil⟩

lemma of_eq (h : v' = v) : Does opened P v v' := h ▸ refl v'

lemma trans (h : Does opened P v v') (h' : Does opened P v' v'') : Does opened P v v'' := by
  obtain ⟨l,hl⟩ := h
  obtain ⟨l',hl'⟩ := h'
  exact ⟨l++l',hl.append hl'⟩

lemma single (hok : e.Ok v) (hP : P v e) (hv : v' = e.act opened v) : Does opened P v v' := by
  subst hv
  exact ⟨[e],.single ⟨hok,hP⟩⟩

lemma induct {I : Vol → Prop} (h : Does opened P v v') (ht : Tidy opened v) (hI : I v)
    (hstep : ∀ v e, Tidy opened v → I v → e.Ok v → P v e → I (e.act opened v)) :
    Tidy opened v' ∧ I v' ∧ Does opened (fun v e => P v e ∧ Tidy opened v ∧ I v) v v' := by
  obtain ⟨l,hl⟩ := h
  induction hl with
  | nil => exact ⟨ht,hI,.refl _⟩
  | cons hok _ ih =>
    obtain ⟨ht',hI',hd⟩ := ih (ht.act hok.1) (hstep _ _ ht hI hok.1 hok.2)
    exact ⟨ht',hI',(Does.single hok.1 ⟨hok.2,ht,hI⟩ rfl).trans hd⟩

lemma mono (hPQ : ∀ v e, P v e → Q v e) (h : Does opened P v v') : Does opened Q v v' := by
  obtain ⟨l,hl⟩ := h
  induction hl with
  | nil => exact .refl _
  | cons hok _ ih => exact (Does.single hok.1 (hPQ _ _ hok.2) rfl).trans ih

lemma tidy (h : Does opened P v v') (ht : Tidy opened v) : Tidy opened v' :=
  (h.induct (I := fun _ => True) ht trivial fun _ _ _ _ _ _ => trivial).1

lemma frame {f : Ptr} {i : Nat} (h : Does opened P v v') (ht : Tidy opened v)
    (hf : f ∈ v.files) (hc : v.cached f.blk) (hi : i < 34 ∨ i = 45)
    (hP : ∀ v e, P v e → (∀ w, e ≠ .field f i w) ∧ e ≠ .release f.blk) :
    f ∈ v'.files ∧ v'.cached f.blk ∧ v'.mem.word (f.off i) = v.mem.word (f.off i) := by
  refine (h.induct (I := fun u => f ∈ u.files ∧ u.cached f.blk ∧
    u.mem.word (f.off i) = v.mem.word (f.off i)) ht ⟨hf,hc,rfl⟩ ?_).2.1
  rintro u e hu ⟨hfu,hcu,hwu⟩ hok hPe
  obtain ⟨hfield,hrel⟩ := hP u e hPe
  exact ⟨Tidy.mem_act hfu hrel,Tidy.cached_act hcu e,(hu.act_off hok hfu hcu hi hfield).trans hwu⟩

end Does

def Noted (s t : Fs) (n : Note) : Prop := ∃ l, t.notes = l++s.notes ∧ n ∈ l

/-- `w` is the address of a directory that has the block of `g` below its end. -/
def Within (u : Vol) (g : Ptr) (w : Word) : Prop :=
  ∃ d ∈ u.files, w = d.addr ∧ u.mem.word d.type = FTYPE_DIR ∧
    ∃ j < ((u.mem.word d.size).sdiv 4096).toNat, j < NINDIRECT ∧
      ∃ p, BlockSlot u.mem d (place j) p ∧ (u.mem.word p).toNat = g.blk

/-- What an edit on the way from `s` to `t` goes back to. -/
def Backed (s t : Fs) (u : Vol) : FsEdit → Prop
  | .load b c => c = u.mem b ∨ ∃ sectors disk, Noted s t (.unread b sectors disk)
  | .take b _ => ∃ old disk, Noted s t (.taken b old disk)
  | .hang _ _ _ b => ∃ old disk, Noted s t (.taken b old disk)
  | .field g i w => i = 45 → Within u g w
  | .unhook _ _ _ => True
  | .release _ => True

/-- From `s` to `t` by edits that satisfy `P`. -/
structure Makes (opened : Set Ptr) (P : Vol → FsEdit → Prop) (s : Fs) (files : Set Ptr) (t : Fs)
    (files' : Set Ptr) : Prop where
  ticks : Ticks s t
  edits : Does opened (fun u e => P u e ∧ Backed s t u e) (s.vol files) (t.vol files')

section

variable {s t u : Fs} {n : Note} {v : Vol} {e : FsEdit} {files files' files'' opened : Set Ptr}
  {P Q : Vol → FsEdit → Prop}

lemma Noted.before (h : Noted t u n) (ht : Ticks s t) : Noted s u n := by
  obtain ⟨l,hl,hn⟩ := h
  obtain ⟨k,hk⟩ := ht.notes
  exact ⟨l++k,by rw [hl,hk,List.append_assoc],mem_append_left k hn⟩

lemma Noted.after (h : Noted s t n) (ht : Ticks t u) : Noted s u n := by
  obtain ⟨l,hl,hn⟩ := h
  obtain ⟨k,hk⟩ := ht.notes
  exact ⟨k++l,by rw [hk,hl,List.append_assoc],mem_append_right k hn⟩

lemma Backed.mono {s' t' : Fs} (h : Backed s t v e)
    (hmono : ∀ n, Noted s t n → Noted s' t' n) : Backed s' t' v e := by
  cases e with
  | load b c => exact h.imp_right fun ⟨k,d,h⟩ => ⟨k,d,hmono _ h⟩
  | take b c | hang f pl p b =>
    obtain ⟨old,d,h⟩ := h
    exact ⟨old,d,hmono _ h⟩
  | unhook | release | field => exact h

namespace Makes

lemma does (h : Makes opened P s files t files') : Does opened P (s.vol files) (t.vol files') :=
  h.edits.mono fun _ _ h => h.1

lemma tidy (h : Makes opened P s files t files') (ht : Tidy opened (s.vol files)) :
    Tidy opened (t.vol files') := h.edits.tidy ht

lemma refl (s : Fs) (files : Set Ptr) : Makes opened P s files s files := ⟨.refl,.refl _⟩

lemma of_eq (ht : Ticks s t) (h : t.vol files = s.vol files) : Makes opened P s files t files :=
  ⟨ht,.of_eq h⟩

lemma trans (h : Makes opened P s files t files') (h' : Makes opened P t files' u files'') :
    Makes opened P s files u files'' where
  ticks := h.ticks.trans h'.ticks
  edits := (h.edits.mono fun _ _ he => ⟨he.1,he.2.mono fun _ hn => hn.after h'.ticks⟩).trans
    (h'.edits.mono fun _ _ he => ⟨he.1,he.2.mono fun _ hn => hn.before h.ticks⟩)

lemma mono (hPQ : ∀ v e, P v e → Q v e) (h : Makes opened P s files t files') :
    Makes opened Q s files t files' :=
  ⟨h.ticks,h.edits.mono fun _ _ he => ⟨hPQ _ _ he.1,he.2⟩⟩

end Makes

structure Unwritten (s t : Fs) : Prop where
  disk : t.disk = s.disk
  past : t.past = s.past

lemma Unwritten.refl (s : Fs) : Unwritten s s := ⟨rfl,rfl⟩

lemma Unwritten.trans (h : Unwritten s t) (h' : Unwritten t u) : Unwritten s u :=
  ⟨h'.disk.trans h.disk,h'.past.trans h.past⟩

def Stores (s t : Fs) : FsEdit → Prop
  | .take b _ => t.disk = update s.disk (2+b/BLKBITSIZE) (t.view (2+b/BLKBITSIZE)) ∧
      t.past = s.disk :: s.past
  | _ => Unwritten s t

inductive Move (opened : Set Ptr) (P : Vol → FsEdit → Prop) : Fs × Set Ptr → Fs × Set Ptr → Prop where
  | idle {s t : Fs} {files : Set Ptr} : t.vol files = s.vol files → Unwritten s t →
      Move opened P (s,files) (t,files)
  | edit {s t : Fs} {files files' : Set Ptr} {e : FsEdit} : e.Ok (s.vol files) → P (s.vol files) e →
      t.vol files' = e.act opened (s.vol files) → Stores s t e → Move opened P (s,files) (t,files')

lemma moves_mono (hPQ : ∀ v e, P v e → Q v e) {x y : Fs × Set Ptr}
    (h : ReflTransGen (Move opened P) x y) : ReflTransGen (Move opened Q) x y := by
  refine ReflTransGen.mono (fun x y h => ?_) _ _ h
  cases h with
  | idle hv hw => exact .idle hv hw
  | edit hok hP hv hw => exact .edit hok (hPQ _ _ hP) hv hw

/-- From `s` to `t` by edits that satisfy `P`, and nothing is written but the bitmap. -/
structure Steps (opened : Set Ptr) (P : Vol → FsEdit → Prop) (s : Fs) (files : Set Ptr) (t : Fs)
    (files' : Set Ptr) : Prop where
  ticks : Ticks s t
  moves : ReflTransGen (Move opened fun u e => P u e ∧ Backed s t u e) (s,files) (t,files')

namespace Steps

section

variable (h : Steps opened P s files t files')
include h

lemma edits : Does opened (fun u e => P u e ∧ Backed s t u e) (s.vol files) (t.vol files') := by
  have hall : ∀ {x y : Fs × Set Ptr} {R : Vol → FsEdit → Prop},
      ReflTransGen (Move opened R) x y → Does opened R (x.1.vol x.2) (y.1.vol y.2) := by
    intro x y R h
    induction h with
    | refl => exact .refl _
    | tail _ hm ih =>
      cases hm with
      | idle hv _ => exact ih.trans (.of_eq hv)
      | edit hok hP hv _ => exact ih.trans (.single hok hP hv)
  exact hall h.moves

lemma makes : Makes opened P s files t files' := ⟨h.ticks,h.edits⟩

lemma does : Does opened P (s.vol files) (t.vol files') := h.makes.does

lemma tidy (ht : Tidy opened (s.vol files)) : Tidy opened (t.vol files') := h.makes.tidy ht

end

lemma refl (s : Fs) (files : Set Ptr) : Steps opened P s files s files := ⟨.refl,.refl⟩

lemma of_eq (ht : Ticks s t) (h : t.vol files = s.vol files) (hw : Unwritten s t) :
    Steps opened P s files t files := ⟨ht,.single (.idle h hw)⟩

lemma trans (h : Steps opened P s files t files') (h' : Steps opened P t files' u files'') :
    Steps opened P s files u files'' where
  ticks := h.ticks.trans h'.ticks
  moves := (moves_mono (fun _ _ he => ⟨he.1,he.2.mono fun _ hn => hn.after h'.ticks⟩) h.moves).trans
    (moves_mono (fun _ _ he => ⟨he.1,he.2.mono fun _ hn => hn.before h.ticks⟩) h'.moves)

lemma mono (hPQ : ∀ v e, P v e → Q v e) (h : Steps opened P s files t files') :
    Steps opened Q s files t files' :=
  ⟨h.ticks,moves_mono (fun _ _ he => ⟨hPQ _ _ he.1,he.2⟩) h.moves⟩

lemma single (ht : Ticks s t) (hok : e.Ok (s.vol files)) (hP : P (s.vol files) e)
    (hb : Backed s t (s.vol files) e) (hv : t.vol files' = e.act opened (s.vol files))
    (hw : Stores s t e) : Steps opened P s files t files' := ⟨ht,.single (.edit hok ⟨hP,hb⟩ hv hw)⟩

lemma induct {I : Fs → Set Ptr → Prop} (h : Steps opened P s files t files') (hI : I s files)
    (hidle : ∀ u w F, I u F → w.vol F = u.vol F → Unwritten u w → I w F)
    (hedit : ∀ u w F F' e, I u F → e.Ok (u.vol F) → P (u.vol F) e → Backed s t (u.vol F) e →
      w.vol F' = e.act opened (u.vol F) → Stores u w e → I w F') : I t files' := by
  have hall : ∀ x, ReflTransGen (Move opened fun u e => P u e ∧ Backed s t u e)
      (s,files) x → I x.1 x.2 := by
    intro x hx
    induction hx with
    | refl => exact hI
    | tail _ hm ih =>
      cases hm with
      | idle hv hw => exact hidle _ _ _ ih hv hw
      | edit hok hP hv hw => exact hedit _ _ _ _ _ ih hok hP.1 hP.2 hv hw
  exact hall _ h.moves

lemma unwritten (h : Steps opened P s files t files') (hP : ∀ v b c, ¬P v (.take b c)) :
    Unwritten s t := by
  refine h.induct (I := fun u _ => Unwritten s u) (.refl s) (fun u w F hu _ hw => hu.trans hw) ?_
  intro u w F F' e hu _ he _ _ hw
  cases e with
  | take b c => exact absurd he (hP _ b c)
  | load | hang | unhook | release | field => exact hu.trans hw

lemma keep {I : Vol → Prop} (h : Steps opened P s files t files') (ht : Tidy opened (s.vol files))
    (hI : I (s.vol files))
    (hstep : ∀ v e, Tidy opened v → I v → e.Ok v → P v e → Backed s t v e → I (e.act opened v)) :
    I (t.vol files') ∧ Steps opened (fun v e => P v e ∧ Tidy opened v ∧ I v) s files t files' := by
  have hall : ∀ x, ReflTransGen (Move opened fun u e => P u e ∧ Backed s t u e)
      (s,files) x → (Tidy opened (x.1.vol x.2) ∧ I (x.1.vol x.2)) ∧ ReflTransGen
        (Move opened fun u e => (P u e ∧ Tidy opened u ∧ I u) ∧ Backed s t u e) (s,files) x := by
    intro x hx
    induction hx with
    | refl => exact ⟨⟨ht,hI⟩,.refl⟩
    | tail _ hm ih =>
      obtain ⟨⟨hu,hIu⟩,hr⟩ := ih
      cases hm with
      | idle hv hw => exact ⟨by rw [hv]; exact ⟨hu,hIu⟩,hr.tail (.idle hv hw)⟩
      | edit hok hP hv hw =>
        refine ⟨?_,hr.tail (.edit hok ⟨⟨hP.1,hu,hIu⟩,hP.2⟩ hv hw)⟩
        rw [hv]
        exact ⟨hu.act hok,hstep _ _ hu hIu hok hP.1 hP.2⟩
  obtain ⟨⟨_,hIt⟩,hr⟩ := hall _ h.moves
  exact ⟨hIt,h.ticks,hr⟩

end Steps

end

variable {s t : Fs} {p : Ptr} {w v : Word} {b : Nat} {r : Int} {files opened : Set Ptr}

/-! The words seen after each change. -/

lemma get_view (h : s.get p = some w) : s.cache p.blk ≠ none ∧ s.view.word p = w := by
  obtain ⟨pg,hpg,hw⟩ := get_eq h
  simp [view,word,hpg,hw]

variable {pg : Cached} {c : Nat → Word}

lemma view_cached (h : s.cache b = some pg) : s.view b = pg.words := by simp [view,h]

lemma setCache_vol (s : Fs) (b : Nat) (pg : Cached) (files : Set Ptr) :
    (s.setCache b pg).vol files =
      { mem := s.view.fill b pg.words, cached := fun x => x = b ∨ s.cache x ≠ none,
        files := files } := by
  have hview : (s.setCache b pg).view = s.view.fill b pg.words := by
    funext x
    by_cases hx : x = b
    · subst hx
      simp [view,Mem.fill]
    simp [view,setCache,Mem.fill,hx]
  have hcached : (fun x => (s.setCache b pg).cache x ≠ none) =
      fun x => x = b ∨ s.cache x ≠ none := by
    funext x
    by_cases hx : x = b
    · subst hx
      simp
    simp [setCache,hx]
  simp only [vol,hview,hcached]

lemma put_vol (h : s.put p w = some t) (files : Set Ptr) :
    t.vol files = {s.vol files with mem := s.view.put p w} := by
  obtain ⟨pg,hpg,rfl⟩ := put_eq h
  rw [setCache_vol]
  have hview : s.view.fill p.blk (update pg.words p.idx w) = s.view.put p w := by
    simp [Mem.put,Mem.set,Mem.fill,view_cached hpg]
  have hcached : (fun x => x = p.blk ∨ s.cache x ≠ none) = fun x => s.cache x ≠ none := by
    funext x
    refine propext ⟨?_,.inr⟩
    rintro (rfl | hx)
    · simp [hpg]
    exact hx
  simp only [hview,hcached,vol]

lemma writeBlock_vol (h : s.writeBlock w = some t) (files : Set Ptr) :
    t.vol files = s.vol files := by
  obtain ⟨pg,hpg,rfl⟩ := writeBlock_eq h
  have hview : ∀ x, (setCache
      {s with disk := update s.disk w.toNat pg.words, past := s.disk :: s.past} w.toNat
      {pg with dirty := false}).view x = s.view x := by
    intro x
    by_cases hx : x = w.toNat
    · subst hx
      simp [view,hpg]
    simp [view,setCache,hx]
  have hcached : ∀ x, (setCache
      {s with disk := update s.disk w.toNat pg.words, past := s.disk :: s.past} w.toNat
      {pg with dirty := false}).cache x ≠ none ↔ s.cache x ≠ none := by
    intro x
    by_cases hx : x = w.toNat
    · subst hx
      simp [hpg]
    simp [setCache,hx]
  simp only [vol,hcached]
  rw [funext hview]

lemma dirtied_vol {dirty : Bool} (h : s.cache b = some pg) (files : Set Ptr) :
    (s.setCache b {pg with dirty := dirty}).vol files = s.vol files := by
  rw [setCache_vol]
  have hview : s.view.fill b pg.words = s.view := by
    rw [← view_cached h]
    simp [Mem.fill]
  have hcached : (fun x => x = b ∨ s.cache x ≠ none) = fun x => s.cache x ≠ none := by
    funext x
    refine propext ⟨?_,.inr⟩
    rintro (rfl | hx)
    · simp [h]
    exact hx
  simp only [hview,hcached,vol]

/-! Reading a block. -/

def IsLoad (_ : Vol) : FsEdit → Prop
  | .load _ _ => True
  | _ => False

lemma Loaded.unwritten (h : Loaded s b r t) : Unwritten s t := by
  cases h with
  | cached _ | noMem _ _ | unread _ _ _ | done _ _ => exact ⟨rfl,rfl⟩

lemma Loaded.loads (h : Loaded s b r t) (files : Set Ptr) :
    Steps opened IsLoad s files t files := by
  have hticks := h.ticks
  cases h with
  | cached _ | noMem _ _ => exact .of_eq hticks rfl ⟨rfl,rfl⟩
  | @unread chance sectors hb =>
    have hview : s.view b = s.disk b := by simp [view,hb]
    refine .single (e := .load b (readSectors (fun _ => 0) (s.disk b) sectors)) hticks
      ⟨by simp [vol,hb],fun k => ?_⟩ trivial ?_ (setCache_vol _ b _ files) ⟨rfl,rfl⟩
    · simp only [vol,hview,readSectors,SECTWORDS]
      by_cases hk : k < 2*sectors
      · exact .inl fun i hi => if_pos (by omega)
      exact .inr fun i hi => if_neg (by omega)
    exact .inr ⟨sectors,s.disk b,[_],rfl,mem_cons_self⟩
  | @done chance hb =>
    have hview : s.view b = s.disk b := by simp [view,hb]
    exact .single (e := .load b (s.disk b)) hticks
      ⟨by simp [vol,hb],fun k => .inl fun i _ => by simp [vol,hview]⟩ trivial (.inl hview.symm)
      (setCache_vol _ b _ files) ⟨rfl,rfl⟩

lemma Loaded.success (h : Loaded s b r t) (hr : ¬r < 0) : t.view = s.view ∧ t.cache b ≠ none := by
  cases h with
  | cached hb => exact ⟨rfl,hb⟩
  | noMem _ _ => exact absurd (by decide) hr
  | unread _ _ _ => exact absurd (by decide) hr
  | @done chance hb =>
    refine ⟨?_,by simp⟩
    funext x
    by_cases hx : x = b
    · subst hx
      simp [view,hb]
    simp [view,setCache,hx]

/-! Taking a block. -/

lemma FreeAt.view (h : s.FreeAt b w) : b < s.view.nblocks ∧
    s.view.word (bitmapAt (b/32)) = w ∧ s.view.isFree b := by
  obtain ⟨n,hn,hb⟩ := h.lt
  obtain ⟨_,hw⟩ := get_view h.word
  obtain ⟨_,hn⟩ := get_view hn
  refine ⟨by rw [Mem.nblocks,hn]; exact hb,hw,?_⟩
  rw [Mem.isFree,hw]
  exact h.free

lemma cached_iff_of_vol (h : t.vol files = {s.vol files with mem := t.view}) (x : Nat) :
    t.cache x ≠ none ↔ s.cache x ≠ none :=
  iff_of_eq (congrFun (congrArg Vol.cached h) x)

lemma bitmap_blockno (hb : b < s.view.nblocks) :
    (2+ofNat 32 (b/BLKBITSIZE)).toNat = 2+b/BLKBITSIZE := by
  have hlt : b < 2^32 := lt_of_lt_of_le hb (s.view.word ⟨1,1⟩).isLt.le
  have h : BLKBITSIZE = 32768 := rfl
  have h2 : (2 : Word).toNat = 2 := rfl
  simp only [toNat_add,BitVec.toNat_ofNat,h,h2]
  omega

lemma allocBlock_take (h : s.allocBlock = some (r,t)) (ht : Tidy opened (s.vol files))
    (hn : ∀ n ∈ t.notes, n.Calm) : (r = -E_NO_DISK ∨ r = -E_NO_MEM) ∧
    t.vol files = s.vol files ∧ Unwritten s t ∨ ∃ (b : Nat) (c : Nat → Word), r = b ∧
    (take b c).Ok (s.vol files) ∧ (∃ old disk, Noted s t (.taken b old disk)) ∧
    Stores s t (.take b c) ∧ t.vol files = (take b c).act opened (s.vol files) := by
  cases allocBlock_allocated h with
  | full => exact .inl ⟨.inl rfl,rfl,rfl,rfl⟩
  | noMem chance hfree hpg =>
    exact .inl ⟨.inr rfl,dirtied_vol (s := {s with chance := chance}) hpg files,rfl,rfl⟩
  | @done b w s1 s2 _ hfree hput hhand hw =>
    obtain ⟨hb,hword,hbit⟩ := hfree.view
    have hs1 : s1.vol files = {s.vol files with mem := s.view.useBit b} := by
      rw [put_vol hput,Mem.useBit,hword]
    have hview1 : s1.view = s.view.useBit b := congrArg Vol.mem hs1
    have hcached : ∀ x, s1.cache x ≠ none ↔ s.cache x ≠ none :=
      cached_iff_of_vol (by rw [hs1,hview1])
    have hnotes := (writeBlock_ticks hw).of_notes hn
    have hnoted : ∃ old disk, Noted s t (.taken b old disk) := by
      have hhand' : ∃ old disk, Noted s1 s2 (.taken b old disk) := by
        cases hhand with
        | fresh _ _ | reuse _ => exact ⟨_,_,[_],rfl,List.mem_cons_self⟩
      obtain ⟨old,disk,h⟩ := hhand'
      exact ⟨old,disk,(h.before (put_ticks hput)).after (writeBlock_ticks hw)⟩
    have hstores : ∀ c, Stores s t (.take b c) := by
      obtain ⟨pg,hpg,ht'⟩ := writeBlock_eq hw
      have hlt := bitmap_blockno hb
      have hview : t.view (2+b/BLKBITSIZE) = pg.words := by
        rw [show t.view = s2.view from congrArg Vol.mem (writeBlock_vol hw files),← hlt,view_cached hpg]
      have hsame : Unwritten s s2 := by
        obtain ⟨_,_,rfl⟩ := put_eq hput
        cases hhand with
        | fresh _ _ | reuse _ => exact ⟨rfl,rfl⟩
      intro c
      rw [Stores,hview,← hsame.disk,← hsame.past,ht',hlt]
      exact ⟨rfl,rfl⟩
    rw [writeBlock_vol hw]
    refine .inr ⟨b,?_⟩
    cases hhand with
    | fresh chance hnone =>
      have hnone' : s.cache b = none := by
        by_contra hne
        exact (hcached b).mpr hne hnone
      refine ⟨fun _ => 0,rfl,⟨hb,hbit,fun hc => absurd hnone' hc,fun _ _ => rfl⟩,hnoted,hstores _,?_⟩
      change (setCache {s1 with chance := chance} b zeroPage).vol files = _
      rw [setCache_vol]
      simp only [act,vol,zeroPage]
      refine congrArg₂ (fun m c => Vol.mk m c files) ?_ ?_
      · exact congrArg (fun m : Mem => m.fill b fun _ => 0) hview1
      funext x
      exact propext (or_congr .rfl (hcached x))
    | @reuse pg hpg =>
      have hz : Zero pg.words := hnotes (.taken b (some pg) (s1.disk b)) List.mem_cons_self
      have hne : b ≠ (bitmapAt (b/32)).blk := by
        intro he
        have := (ht.sys _ (Mem.bitmap_reserved hb)).1
        rw [← he] at this
        rw [show (s.vol files).mem.isFree b = true from hbit] at this
        cases this
      have hpgv : s.view.useBit b b = pg.words := by rw [← hview1,view_cached hpg]
      have hsame : s.view b = pg.words := by rw [← hpgv,Mem.useBit,Mem.put,Mem.set_frame _ _ _ hne]
      refine ⟨pg.words,rfl,⟨hb,hbit,fun _ => by change Zero (s.view b); rw [hsame]; exact hz,hz⟩,hnoted,
        hstores _,?_⟩
      change s1.vol files = _
      rw [hs1]
      simp only [act]
      refine congrArg₂ (fun m c => Vol.mk m c files) ?_ ?_
      · change s.view.useBit b = (s.view.useBit b).fill b pg.words
        rw [← hpgv]
        simp [Mem.fill]
      funext x
      refine propext ⟨.inr,?_⟩
      rintro (rfl | hx)
      · exact (hcached x).mp (by simp [hpg])
      exact hx

lemma put_unwritten (h : s.put p w = some t) : Unwritten s t := by
  obtain ⟨_,_,rfl⟩ := put_eq h
  exact ⟨rfl,rfl⟩

lemma take_hang {s1 : Fs} {P : Vol → FsEdit → Prop} {f : Ptr}
    {pl : Place} {files' : Set Ptr} (hticks : Ticks s s1) (hok : (take b c).Ok (s.vol files))
    (htake : P (s.vol files) (.take b c)) (hnoted : ∃ old disk, Noted s s1 (.taken b old disk))
    (hstore : Stores s s1 (.take b c)) (hvol : s1.vol files = (take b c).act opened (s.vol files))
    (hok1 : (FsEdit.hang f pl p b).Ok (s1.vol files)) (hhang : P (s1.vol files) (.hang f pl p b))
    (hput : s1.put p (ofNat 32 b) = some t) (hv : t.vol files' =
    (FsEdit.hang f pl p b).act opened (s1.vol files)) : Steps opened P s files t files' :=
    by
  obtain ⟨old,disk,hnoted⟩ := hnoted
  have hnoted := hnoted.after (put_ticks hput)
  exact ⟨hticks.trans (put_ticks hput),.trans (.single (.edit hok ⟨htake,old,disk,hnoted⟩ hvol
    hstore)) (.single (.edit hok1 ⟨hhang,old,disk,hnoted⟩ hv (put_unwritten hput)))⟩

/-! Finding the slot of a block. -/

/-- The edits that give `f` its block `j`. -/
def Grows (f : Ptr) (j : Nat) (_ : Vol) : FsEdit → Prop
  | .load _ _ => True
  | .take _ _ => True
  | .hang g pl _ _ => g = f ∧ j < NINDIRECT ∧ (pl = place j ∨ pl = .indirect ∧ NDIRECT ≤ j)
  | _ => False

lemma IsLoad.grows {f : Ptr} {j : Nat} (u : Vol) (e : FsEdit) (h : IsLoad u e) : Grows f j u e := by
  cases e with
  | load => trivial
  | take | hang | unhook | release | field => exact absurd h id

variable {f : Ptr} {alloc : Bool} {ptr : Option Ptr}

/-- What `file_block_walk` has found: the slot was there before, or it is one of an indirect block
that is new and zero. -/
structure Found (s t : Fs) (f : Ptr) (j : Nat) (p : Ptr) : Prop where
  slot : BlockSlot t.view f (place j) p
  lt : j < NINDIRECT
  new : t.view = s.view ∨ s.view.word f.indirect = 0 ∧ NDIRECT ≤ j ∧
    Zero (t.view (t.view.word f.indirect).toNat)

lemma hang_indirect_files {v : Vol} {f p : Ptr} (b : Nat) :
    (FsEdit.hang f .indirect p b).act opened v = {v with mem := v.mem.put p (ofNat 32 b)} := by
  simp [act,Place.Data]

lemma Walked.edits (h : Walked s f w alloc r ptr t) (ht : Tidy opened (s.vol files))
    (hf : f ∈ files) (hn : ∀ n ∈ t.notes, n.Calm) : Steps opened (Grows f w.toNat) s files t files ∧
    ∀ p, ptr = some p → Found s t f w.toNat p := by
  have hd : NDIRECT = 10 := rfl
  have hni : NINDIRECT = 1024 := rfl
  cases h with
  | direct hj =>
    refine ⟨.refl _ _,?_⟩
    rintro p ⟨⟩
    exact ⟨by rw [place,if_pos hj]; exact .direct hj,by omega,.inl rfl⟩
  | missing _ _ _ | range _ => exact ⟨.refl _ _,by simp⟩
  | read hge hlt hind h0 hr hpos =>
    obtain ⟨hl,_⟩ := readBlock_loaded hr
    have hview := (hl.success hpos).1
    refine ⟨(hl.loads files).mono IsLoad.grows,?_⟩
    rintro p ⟨⟩
    obtain ⟨_,hw⟩ := get_view hind
    refine ⟨?_,hlt,.inl hview⟩
    rw [hview,place,if_neg (by omega)]
    subst hw
    exact .entry h0 hlt
  | unread _ _ _ _ hr _ =>
    exact ⟨((readBlock_loaded hr).1.loads files).mono IsLoad.grows,by simp⟩
  | @made r' s1 _ hge hlt hind halloc hal hput haddr =>
    have hn1 := (put_ticks hput).of_notes hn
    obtain ⟨_,hw0⟩ := get_view hind
    obtain ⟨hr,hvol,_⟩ | ⟨b,c,rfl,hok,hnoted,hstore,hvol⟩ := allocBlock_take hal ht hn1
    · -- The negative number stored as `f_indirect` is no block of the disk.
      obtain ⟨_,n,hnb,hlt'⟩ := diskaddr_eq haddr
      have hvt := put_vol hput files
      have hview : t.view = s.view.put f.indirect (ofInt 32 r') := by
        have h1 : t.view = s1.view.put f.indirect (ofInt 32 r') := congrArg Vol.mem hvt
        rw [h1,show s1.view = s.view from congrArg Vol.mem hvol]
      have hsize : n.toNat ≤ DISKSIZE/BLKSIZE := by
        have h1 := (get_view hnb).2
        rw [hview,Mem.word_put_ne (ht.slot_ne_sys hf BlockSlot.indirect).1.symm] at h1
        have := ht.fits.2
        simpa [Mem.nblocks,vol,h1] using this
      have hbig : 2^31 < (ofInt 32 r').toNat := by
        obtain rfl | rfl := hr
        · decide
        decide
      have hlt' : (ofInt 32 r').toNat < n.toNat := hlt'
      have : DISKSIZE/BLKSIZE = 786432 := by decide
      omega
    have ht1 : Tidy opened (s1.vol files) := hvol ▸ ht.act hok
    have hv : Vacant (s1.vol files) b := hvol ▸ ht.vacant_of_take hok
    have hof : ofInt 32 (b : Int) = ofNat 32 b := BitVec.ofInt_natCast 32 b
    have h01 : (s1.vol files).mem.word f.indirect = 0 := by
      rw [hvol,← hw0]
      exact ht.take_word hok hf (by decide)
    have hok1 : (FsEdit.hang f .indirect f.indirect b).Ok (s1.vol files) :=
      ⟨hf,.indirect,h01,hv⟩
    have hvt : t.vol files = (FsEdit.hang f .indirect f.indirect b).act opened (s1.vol files) := by
      rw [hang_indirect_files,put_vol hput,hof]
      rfl
    have hview : t.view = s1.view.put f.indirect (ofNat 32 b) := by
      rw [show t.view = _ from congrArg Vol.mem (put_vol hput files),hof]
    refine ⟨take_hang (allocBlock_ticks hal) hok trivial hnoted hstore hvol hok1
      ⟨rfl,hlt,.inr ⟨rfl,hge⟩⟩ hput hvt,?_⟩
    rintro p ⟨⟩
    have hword : t.view.word f.indirect = ofNat 32 b := by rw [hview,Mem.word_put_self]
    have hbn := hv.usable.toNat_ofNat
    have hne : t.view.word f.indirect ≠ 0 := by
      intro h0
      have hb0 : b = 0 := by rw [← hbn,← hword,h0]; rfl
      have := hv.usable.1
      have := (s1.vol files).mem.one_lt_nreserved
      omega
    refine ⟨?_,hlt,.inr ⟨hw0,hge,?_⟩⟩
    · rw [place,if_neg (by omega),hof,← hword]
      exact .entry hne hlt
    rw [hword,hbn]
    intro i hi
    have := ht1.hang_zero hf .indirect hv hi
    rw [hview]
    exact this

lemma follow_calm {q : Ptr} (h : s.follow ptr = some (q,t)) (hn : ∀ n ∈ t.notes, n.Calm) :
    ptr = some q ∧ t = s := by
  cases ptr with
  | some p =>
    cases h
    exact ⟨rfl,rfl⟩
  | none =>
    obtain ⟨q,_,h⟩ := of_bind h
    cases h
    exact absurd (hn .wild mem_cons_self) id

/-- Block `j` of `f` is the one with number `d`: it was before, or it is new and zero. -/
structure HasBlock (s t : Fs) (f : Ptr) (j : Nat) (d : Word) : Prop where
  lt : j < NINDIRECT
  ne : d ≠ 0
  slot : ∃ p, BlockSlot t.view f (place j) p ∧ t.view.word p = d
  new : t.view = s.view ∨ (∀ p, BlockSlot s.view f (place j) p → s.view.word p = 0) ∧
    Zero (t.view d.toNat) ∧ (s.view.word f.indirect = 0 → NDIRECT ≤ j →
      ∀ i < NINDIRECT, i ≠ j → t.view.word ⟨(t.view.word f.indirect).toNat,i⟩ = 0)

lemma Found.hang {s1 s2 : Fs} {j b : Nat} (h : Found s s1 f j p) (h0 : s1.view.word p = 0)
    (ht : Tidy opened (s1.vol files)) (hf : f ∈ files) (hok : (take b c).Ok (s1.vol files))
    (hticks : Ticks s1 s2) (hnoted : ∃ old disk, Noted s1 s2 (.taken b old disk))
    (hstore : Stores s1 s2 (.take b c)) (hvol : s2.vol files = (take b c).act opened (s1.vol files))
    (hput : s2.put p (ofNat 32 b) = some t) : ∃ files', Steps opened (Grows f j) s1 files t files' ∧
    files ⊆ files' ∧ HasBlock s t f j (ofNat 32 b) := by
  have hni : NINDIRECT = 1024 := rfl
  have hd : NDIRECT = 10 := rfl
  have ht2 : Tidy opened (s2.vol files) := hvol ▸ ht.act hok
  have hv : Vacant (s2.vol files) b := hvol ▸ ht.vacant_of_take hok
  have hview2 : s2.view = (s1.view.useBit b).fill b c := congrArg Vol.mem hvol
  obtain ⟨hs2,hw2⟩ : BlockSlot s2.view f (place j) p ∧ s2.view.word p = s1.view.word p := by
    rw [hview2]
    exact ht.take_slot hok hf h.slot
  have hok2 : (FsEdit.hang f (place j) p b).Ok (s2.vol files) := ⟨hf,hs2,hw2.trans h0,hv⟩
  have hview : t.view = s2.view.put p (ofNat 32 b) := congrArg Vol.mem (put_vol hput files)
  have hbn := hv.usable.toNat_ofNat
  have hb0 : ofNat 32 b ≠ 0 := by
    intro he
    have hb0 : b = 0 := by rw [← hbn,he]; rfl
    have := hv.usable.1
    have := (s2.vol files).mem.one_lt_nreserved
    omega
  have hpind : f.indirect ≠ p := by
    rintro rfl
    exact place_ne_indirect j (ht2.slot_inj hf hf hs2 .indirect).2
  have hind : t.view.word f.indirect = s2.view.word f.indirect := by
    rw [hview,word_put_ne hpind]
  refine ⟨((FsEdit.hang f (place j) p b).act opened (s2.vol files)).files,
    take_hang hticks hok trivial hnoted hstore hvol hok2 ⟨rfl,h.lt,.inl rfl⟩ hput (put_vol hput _),
    fun g hg => .inl hg,h.lt,hb0,⟨p,?_,by rw [hview,word_put_self]⟩,.inr ⟨?_,?_,?_⟩⟩
  · -- The slot stays where it is.
    exact hs2.congr hind
  · intro q hq
    obtain hnew | ⟨hz,hge,_⟩ := h.new
    · rw [← hnew] at hq ⊢
      rw [show q = p from ?_]
      · exact h0
      have := h.slot
      generalize place j = pl at this hq
      cases this <;> cases hq <;> rfl
    rw [place,if_neg (by omega)] at hq
    cases hq with
    | entry hi hj => exact absurd hz hi
  · rw [hbn,hview]
    exact fun i hi => ht2.hang_zero hf hs2 hv hi
  intro hz hge i hi hij
  obtain hnew | ⟨_,_,hzero⟩ := h.new
  · have := h.slot
    rw [hnew,place,if_neg (by omega)] at this
    cases this with
    | entry hi hj => exact absurd hz hi
  have hind2 : s2.view.word f.indirect = s1.view.word f.indirect := by
    rw [hview2]
    exact ht.take_word hok hf (by decide)
  have hslot := h.slot
  rw [place,if_neg (by omega)] at hslot
  obtain ⟨hne,hpeq⟩ : s1.view.word f.indirect ≠ 0 ∧ p = ⟨(s1.view.word f.indirect).toNat,j⟩ := by
    cases hslot with
    | entry hi hj => exact ⟨hi,rfl⟩
  rw [hind,hind2,hview,word_put_ne (by rw [hpeq]; simpa using hij),hview2]
  exact (ht.take_entry hok hf hne hi).trans (hzero i (by omega))

lemma fileMapBlock_edits (h : s.fileMapBlock f w alloc = some (r,v,t)) (ht : Tidy
    opened (s.vol files)) (hf : f ∈ files) (hn : ∀ n ∈ t.notes, n.Calm) : ∃ files', Steps opened
    (Grows f w.toNat) s files t files' ∧ files ⊆ files' ∧ (¬r < 0 → HasBlock s t f w.toNat v) := by
  cases fileMapBlock_mapped h with
  | walk hw hr => exact ⟨files,(hw.edits ht hf hn).1,subset_rfl,fun h0 => absurd hr h0⟩
  | found hw hfol hget h0 =>
    obtain ⟨rfl,rfl⟩ := follow_calm hfol hn
    obtain ⟨hdoes,hfound⟩ := hw.edits ht hf hn
    have hfd := hfound _ rfl
    refine ⟨files,hdoes,subset_rfl,fun _ => ⟨hfd.lt,h0,⟨_,hfd.slot,(get_view hget).2⟩,?_⟩⟩
    obtain hnew | ⟨hz,hge,hzero⟩ := hfd.new
    · exact .inl hnew
    -- A slot of a new indirect block has no number in it.
    refine absurd ?_ h0
    rw [← (get_view hget).2]
    have hslot := hfd.slot
    rw [place,if_neg (by omega)] at hslot
    cases hslot with
    | entry hi hj => exact hzero _ hj
  | hole hw hfol hget _ =>
    obtain ⟨rfl,rfl⟩ := follow_calm hfol hn
    exact ⟨files,(hw.edits ht hf hn).1,subset_rfl,fun h0 => absurd (by decide) h0⟩
  | full hw hfol hget _ hal hr =>
    have hn2 := (allocBlock_ticks hal).of_notes hn
    obtain ⟨rfl,rfl⟩ := follow_calm hfol hn2
    obtain ⟨hdoes,_⟩ := hw.edits ht hf hn2
    refine ⟨files,hdoes.trans ?_,subset_rfl,fun h0 => absurd hr h0⟩
    obtain ⟨_,hvol,hsame⟩ | ⟨b,c,rfl,_⟩ := allocBlock_take hal (hdoes.tidy ht) hn
    · exact .of_eq (allocBlock_ticks hal) hvol hsame
    omega
  | @grown r1 r2 ptr p s1 s2 s3 _ hw hfol hget _ hal hr hput =>
    have hn3 := (put_ticks hput).of_notes hn
    have hn2 := (allocBlock_ticks hal).of_notes hn3
    obtain ⟨rfl,rfl⟩ := follow_calm hfol hn2
    obtain ⟨hdoes,hfound⟩ := hw.edits ht hf hn2
    obtain ⟨hr',_⟩ | ⟨b,c,rfl,hok,hnoted,hstore,hvol⟩ := allocBlock_take hal (hdoes.tidy ht) hn3
    · exact absurd (by obtain rfl | rfl := hr' <;> decide) hr
    rw [ofInt_natCast] at hput ⊢
    obtain ⟨files',hd',hsub,hhas⟩ :=
      (hfound p rfl).hang (get_view hget).2 (hdoes.tidy ht) hf hok (allocBlock_ticks hal) hnoted
        hstore hvol hput
    exact ⟨files',hdoes.trans hd',hsub,fun _ => hhas⟩

end Fs

end KludgeOS
