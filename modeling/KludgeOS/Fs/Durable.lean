import KludgeOS.Fs.Restart
import KludgeOS.Fs.Flush

/-!
What `file_close` leaves on the disk.
-/

namespace KludgeOS
open Fs List Mem


lemma Fs.Coherent.saved {s : Fs} {b : Nat} (hc : s.Coherent) (hb : s.Clean b) :
    Saved s.disk s.view b := fun _ hi => CoherentAt.disk_eq (hc b) hb hi

namespace Mem

variable {m : Mem} {f g d : Ptr} {n : Nat}

lemma addr_file (ho : Owned m) (hf : Formatted m) (hd : Depth m d n) :
    d.addr ≠ 0 ∧ Ptr.ofAddr d.addr = some d := by
  have hres := m.one_lt_nreserved
  have hfit := hf.fits.1
  obtain rfl | hr := ho.placed hd.isFile
  · exact ofAddr_addr (by decide) (by decide)
  obtain ⟨k,hk,hidx⟩ := hr.aligned
  have : BLKFILES = 16 := rfl
  exact ofAddr_addr (lt_of_lt_of_le hr.usable.2 hf.fits.2) (by omega)

lemma dirs_depth (c : Nat) : ∀ {f : Ptr} {n : Nat} {path : List Byte}, Depth m f n → (∀ d ∈ m.dirs
    f c path, Legal m d) → m.walk f c path = some g → ∀ d ∈ m.dirs f c path, ∃ k, Depth m d k := by
  induction c with
  | zero =>
    intro f n path _ _ _ d hd
    simp [dirs] at hd
  | succ c ih =>
    intro f n path hf hl h d hd
    by_cases hp : path = []
    · simp [dirs,hp] at hd
    simp only [walk,if_neg hp] at h
    split at h
    · cases h
    rename_i hok
    push Not at hok
    obtain ⟨e,he,h⟩ := of_bind h
    simp only [dirs,if_neg hp,he] at hl hd
    obtain rfl | hd := mem_cons.mp hd
    · exact ⟨n,hf⟩
    obtain ⟨j,k,_,hj,h0,hk,rfl⟩ := scan_spec _ he
    have hlf := (hl f mem_cons_self).size
    obtain ⟨hint,hmax⟩ := hlf.toInt
    rw [sdiv_small (by omega)] at hj
    have hni : NINDIRECT = 1024 := rfl
    exact ih (hf.of_block hok.2 h0 (by omega) hk) (fun d hd => hl d (mem_cons_of_mem _ hd)) h
      d hd

end Mem

/-- A file that is open under `path`. The superblock, its indirect block and the directories above
its own have not been stored to since they were last written. -/
structure Closable (s : Fs) (path : List Byte) (f : Ptr) : Prop where
  owned : Owned s.view
  format : Formatted s.view
  coherent : s.Coherent
  bitmap : ∀ b < s.view.nblocks, s.view.isFree b = false → isFree s.disk b = false
  named : s.view.resolve path = some f
  dir : ∀ d, (s.view.dirsOf path).getLast? = some d → s.view.word f.dir = d.addr
  size : LegalSize (s.view.word f.size)
  sizes : ∀ d ∈ s.view.dirsOf path, Legal s.view d
  super : s.Clean 1
  indirect : ∀ g ∈ f :: s.view.dirsOf path, s.view.word g.indirect ≠ 0 →
    s.Clean (s.view.word g.indirect).toNat
  above : ∀ d ∈ (s.view.dirsOf path).dropLast, ∀ j : Nat,
    (j : Int) < sizeBlocks (s.view.word d.size) → s.view.blockOf d j ≠ 0 →
    s.Clean (s.view.blockOf d j).toNat

namespace Closable

variable {s t : Fs} {path : List Byte} {f d : Ptr}

lemma fileClose (hs : Closable s path f) (h : s.fileClose f = some t) (hn : t.notes = s.notes)
    : ∀ g, g = f ∨ (s.view.dirsOf path).getLast? = some g → ∀ j : Nat, (j : Int) < sizeBlocks
    (s.view.word g.size) → s.view.blockOf g j ≠ 0 → t.Clean (s.view.blockOf g j).toNat := by
  obtain ⟨s1,hflush,h⟩ := of_bind h
  obtain ⟨hr1,hr2⟩ := Fs.Reads.split (fileFlush_ticks hflush) (flushDir_ticks h)
    (reads_of_eq hn)
  obtain ⟨hq,hclean⟩ := fileFlush_quiet (W := Set.univ) hflush hr1 fun _ _ _ => trivial
  obtain ⟨x,hx,h⟩ := of_bind h
  obtain ⟨_,hx⟩ := get_view hx
  have hq2 : Fs.Quiet Set.univ s1 t := by
    split at h
    · cases h
      exact .refl _
    obtain ⟨d,_,h⟩ := of_bind h
    exact (fileFlush_quiet (W := Set.univ) h hr2 fun _ _ _ => trivial).1
  intro g hg j hj h0
  obtain rfl | hlast := hg
  · exact hq2.clean _ (hclean hs.size j hj h0)
  have hmem := mem_of_getLast? hlast
  obtain ⟨n,hd⟩ := dirs_depth _ .root hs.sizes hs.named g hmem
  obtain ⟨hne,haddr⟩ := addr_file hs.owned hs.format hd
  rw [hq.view,hs.dir g hlast] at hx
  subst hx
  rw [if_neg hne] at h
  obtain ⟨d,hd,h⟩ := of_bind h
  obtain rfl := Option.mem_unique haddr hd
  have hclean2 := (fileFlush_quiet (W := Set.univ) h hr2 fun _ _ _ => trivial).2
  rw [hq.view] at hclean2
  exact hclean2 (hs.sizes g hmem).size j hj h0

lemma startable (hs : Closable s path f) (hq : Fs.Quiet Set.univ s t) :
    Startable t.disk s.view where
  owned := hs.owned
  format := hs.format
  super := by
    have := Coherent.saved (fun b => hq.coherent b (hs.coherent b)) (hq.clean 1 hs.super)
    rwa [hq.view] at this
  used b hb hu := by
    obtain hd | ⟨_,hd⟩ := hq.disk (bitmapAt (b/32)).blk
    · have := hs.bitmap b hb hu
      simpa only [isFree,word,hd] using this
    simpa only [isFree,word,hd] using hu

lemma stored (hs : Closable s path f) (h : s.fileClose f = some t) (hn : t.notes = s.notes) :
    ∀ g ∈ f :: s.view.dirsOf path, Stored t.disk s.view g := by
  have hq := fileClose_quiet h (reads_of_eq hn)
  have hclean := hs.fileClose h hn
  have hsaved : ∀ b, t.Clean b → Saved t.disk s.view b := by
    intro b hb
    have := Coherent.saved (fun b => hq.coherent b (hs.coherent b)) hb
    rwa [hq.view] at this
  intro g hg
  refine ⟨fun h0 => hsaved _ (hq.clean _ (hs.indirect g hg h0)),fun j hj h0 => hsaved _ ?_⟩
  obtain rfl | hg := mem_cons.mp hg
  · exact hclean g (.inl rfl) j hj h0
  have hlast : g ∈ (s.view.dirsOf path).dropLast ∨ (s.view.dirsOf path).getLast? = some g := by
    have hne := ne_nil_of_mem hg
    rw [← dropLast_concat_getLast hne] at hg
    obtain hg | hg := mem_append.mp hg
    · exact .inl hg
    rw [mem_singleton.mp hg]
    exact .inr (getLast?_eq_some_getLast hne)
  obtain hg | hg := hlast
  · exact hq.clean _ (hs.above g hg j hj h0)
  exact hclean g (.inr hg) j hj h0

end Closable

namespace Srv

end Srv

end KludgeOS
