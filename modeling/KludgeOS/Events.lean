import KludgeOS.PmapSpec
import KludgeOS.Traces

/-!
The kernel as a machine of events, of which its functions perform sequences. The invariant is
proved once for each kind of event.
-/

namespace KludgeOS
open Ledger Traces List Function Mem
open Kern Option

inductive Edit where
  | status : EnvStatus → Edit
  | ran : Edit
  | frame : Trapframe → Edit
  | eax : Word → Edit
  | entry : Word → Edit
  /-- Enter the page fault upcall with the frame at this address. -/
  | enterUpcall : Word → Edit
  | upcall : Word → Edit
  /-- The mailbox is taken by a sender: its id and the value. -/
  | mail : Word → Word → Edit
  | mailPerm : Word → Edit
  | dstva : Word → Edit
  | block : Edit
  deriving DecidableEq

def Edit.apply : Edit → Env → Env
  | .status st,v => {v with envStatus := st}
  | .ran,v => {v with envRuns := v.envRuns+1}
  | .frame tf,v => {v with envTf := tf}
  | .eax w,v => {v with envTf := {v.envTf with regs := {v.envTf.regs with eax := w}}}
  | .entry w,v => {v with envTf := {v.envTf with eip := w}}
  | .enterUpcall utf,v =>
    {v with envTf := {v.envTf with eip := v.envPgfaultUpcall, esp := utf}}
  | .upcall w,v => {v with envPgfaultUpcall := w}
  | .mail sender value,v =>
    {v with envIpcRecving := false, envIpcFrom := sender, envIpcValue := value, envIpcPerm := 0}
  | .mailPerm perm,v => {v with envIpcPerm := perm}
  | .dstva va,v => {v with envIpcDstva := va}
  | .block,v =>
    { v with envIpcRecving := true, envStatus := .notRunnable,
             envTf := {v.envTf with regs := {v.envTf.regs with eax := 0}} }

inductive Event where
  /-- Page `n` of `e` is mapped to the frame of entry `w`. -/
  | map : (e n : Nat) → (w perm : Word) → Event
  | unmap : (e n : Nat) → Event
  /-- Page `n` of `e` is mapped to the first free frame, zeroed or not. -/
  | fresh : (e n : Nat) → Bool → (perm : Word) → Event
  | table : (e d : Nat) → Event
  | dropTable : (e d : Nat) → Event
  | scrub : (f : Nat) → Event
  | store : (e n i : Nat) → Word → Event
  /-- The first free slot becomes a child of this id. -/
  | spawn : (parentId : Word) → Event
  | reap : (e : Nat) → Event
  | edit : (e : Nat) → Edit → Event
  /-- `curenv` and `sched_yield`'s cursor. -/
  | sched : Option Nat → Nat → Event
  deriving DecidableEq

namespace Event

abbrev entry (f : Nat) (perm : Word) : Word := page2pa f|||perm|||PTE_P

def popPage (s : Kern) (zero : Bool) (p : Nat) : Kern :=
  s.withPages (if zero then s.mem.fill p fun _ => 0 else s.mem) s.ppRef s.pageFreeList.tail

def apply : Event → Kern → Kern
  | .map e n w perm,s => s.assignPte e n (entry (PPN w) perm)
  | .unmap e n,s => s.assignPte e n 0
  | .fresh e n zero perm,s =>
    let p := s.pageFreeList.headD 0
    ((popPage s zero p).withTable e (n/1024)).assignPte e n (entry p perm)
  | .table e d,s => s.withTable e d
  | .dropTable e d,s => s.dropTable e d
  | .scrub f,s => s.fillFrame f fun _ => 0
  | .store e n i v,s => s.setWord (((s.pte e n).map PPN).getD 0) i v
  | .spawn a,s => s.spawn (s.envFreeList.headD 0) (s.pageFreeList.headD 0) a
  | .reap e,s => s.reap e
  | .edit e k,s => s.modEnv e k.apply
  | .sched c pre,s => {s with curenv := c, pre := pre}

def EditOk (s : Kern) (e : Nat) : Edit → Prop
  | .status st => s.Live e ∧ st ≠ .free
  | .block => s.Live e
  | .dstva va => ¬BadVa va
  | _ => True

def Ok (s : Kern) : Event → Prop
  | .map e n w perm => s.Live e ∧ n < NUPAGE ∧ Present (s.pde e (n/1024)) ∧ LowBits perm ∧
      ∃ e' n', s.Live e' ∧ n' < NUPAGE ∧ s.pte e' n' = some w
  | .unmap e n => s.Live e ∧ n < NUPAGE ∧ s.pte e n ≠ none
  | .fresh e n _ perm => s.Live e ∧ n < NUPAGE ∧ LowBits perm ∧
      ∃ p l, s.pageFreeList = p :: l ∧ (Present (s.pde e (n/1024)) ∨ l ≠ [])
  | .table e d => s.Live e ∧ d < NUPDE
  | .dropTable e d => s.Live e ∧ d < NUPDE ∧ Present (s.pde e d) ∧
      ∀ t < NPTENTRIES, ¬Present (s.mem (PPN (s.pde e d)) t)
  | .scrub f => f ∈ s.pageFreeList
  | .store e n _ _ => s.Live e ∧ n < NUPAGE ∧ ∃ w, s.pte e n = some w ∧ w&&&PTE_W ≠ 0
  | .spawn _ => s.envFreeList ≠ [] ∧ s.pageFreeList ≠ []
  | .reap e => s.Live e ∧ ∀ d < NUPDE, ¬Present (s.pde e d)
  | .edit e k => EditOk s e k
  | .sched _ _ => True

end Event

abbrev Performs : Kern → List Event → Kern → Prop := Runs Event.Ok Event.apply

section withTable

variable {K : Finset Nat} {hand : Nat → Prop} {s : Kern} {e d : Nat}

lemma withTable_present (h : Inv K hand s) (he : s.Live e)
    (hor : Present (s.pde e d) ∨ s.pageFreeList ≠ []) : Present ((s.withTable e d).pde e d) := by
  unfold withTable
  split
  · assumption
  rename_i hp
  cases hl : s.pageFreeList with
  | nil => exact absurd hl (hor.resolve_left hp)
  | cons p l =>
    have hmem : p ∈ s.pageFreeList := by simp [hl]
    have hw := hangTable_dir (d := d) h he (h.free_not_structural hmem) he d
    rw [if_pos ⟨rfl,rfl⟩] at hw
    simp only [addTable,hl]
    change Present (s.hangTable e d p (s.pgdir e) d)
    rw [hw]
    exact present_or_PTE_P _

end withTable

section inv

variable {K : Finset Nat} {hand : Nat → Prop} {s : Kern} {e n : Nat} {f : Nat} {perm : Word}

lemma target_entry (hf : f < 2^20) (hp : LowBits perm) : target (Event.entry f perm) = some f := by
  rw [target,if_pos (present_or_PTE_P _),Event.entry,BitVec.or_assoc,PPN_pte hf (lowBits_or hp lowBits_PTE_P)]

lemma Inv.popPage (h : Inv K hand s) {p : Nat} {l : List Nat} (hl : s.pageFreeList = p :: l)
    (zero : Bool) : Inv K (fun f => hand f ∨ f = p) (Event.popPage s zero p) := by
  have hstr := h.free_not_structural (f := p) (by simp [hl])
  have h1 : Inv K (fun f => hand f ∨ f = p) (s.withPages s.mem s.ppRef l) :=
    ⟨h.npage_le,(hl ▸ h.balanced).take,h.held,h.sole,h.pde_word,h.half.congr (sameEnvs_withPages _ _
      _ _) (fun _ _ => rfl) (fun _ _ _ _ => rfl),h.table.withPages _ _ _⟩
  rw [Event.popPage,hl]
  refine h1.data (m := if zero then s.mem.fill p fun _ => 0 else s.mem) fun f hf => ?_
  split
  · exact fill_frame _ _ fun hc => hstr (by rw [← hc]; exact hf)
  rfl

lemma Inv.map (h : Inv K hand s) {w : Word} (hok : Event.Ok s (.map e n w perm)) :
    Inv K hand (Event.apply (.map e n w perm) s) := by
  obtain ⟨he,hn,hp,hperm,e',n',he',hn',hw⟩ := hok
  have hman := h.page_managed he' hn' hw
  have hheld : s.holds (.pte e' n') = some (PPN w) := by rw [holds_pte he',hw]; rfl
  have ht := target_entry (hman.1.trans_le h.npage_le) hperm
  have hx : Slot.pte e' n' ∈ slots := pte_mem_slots.mpr ⟨he'.1,hn'⟩
  have := h.assignPte he hn hp (w := Event.entry (PPN w) perm) (by
    intro f hf
    rw [ht] at hf
    cases hf
    exact ⟨hman,fun hc => h.balanced.not_held hc _ hx hheld,h.pte_not_table hn' hheld⟩)
  have hset : (fun f => hand f ∧ target (Event.entry (PPN w) perm) ≠ some f) = hand := by
    funext f
    refine propext ⟨fun hf => hf.1,fun hf => ⟨hf,?_⟩⟩
    rw [ht]
    intro hc
    exact h.balanced.hand_unheld f hf _ hx (hc ▸ hheld)
  rw [hset] at this
  exact this

lemma Inv.unmap (h : Inv K hand s) (hok : Event.Ok s (.unmap e n)) :
    Inv K hand (Event.apply (.unmap e n) s) := by
  obtain ⟨he,hn,hw⟩ := hok
  obtain ⟨w,hw⟩ := ne_none_iff_exists'.mp hw
  have := h.assignPte he hn (pte_some hw).1 (w := 0) (by
    intro f hf
    rw [target_zero] at hf
    contradiction)
  simp only [target_zero,ne_eq,reduceCtorEq,not_false_eq_true,and_true] at this
  exact this

lemma Inv.fresh (h : Inv K NoHand s) {zero : Bool} (hok : Event.Ok s (.fresh e n zero perm)) :
    Inv K NoHand (Event.apply (.fresh e n zero perm) s) := by
  obtain ⟨he,hn,hperm,p,l,hl,hor⟩ := hok
  have h1 := h.popPage hl zero
  have hd := pde_of_page hn
  have hstr := h.free_not_structural (f := p) (by simp [hl])
  have hpde : (Event.popPage s zero p).pde e (n/1024) = s.pde e (n/1024) := by
    change (if zero then s.mem.fill p fun _ => 0 else s.mem) (s.pgdir e) (n/1024) = _
    split
    · rw [fill_frame _ _ fun hc => hstr (.inr (.inl ⟨e,he,hc⟩))]
    rfl
  have he1 : (Event.popPage s zero p).Live e := he
  have h2 := h1.withTable he1 hd
  have hp2 := withTable_present (d := n/1024) h1 he1 (by
    rw [hpde,Event.popPage,hl]
    exact hor)
  have he2 := ((sameEnvs_withTable (Event.popPage s zero p) e (n/1024)).env e).live.mpr he1
  have hman := h2.balanced.hand_managed p (.inr rfl)
  have ht := target_entry (hman.1.trans_le h2.npage_le) hperm
  have := h2.assignPte he2 hn hp2 (w := Event.entry p perm) (by
    intro f hf
    rw [ht] at hf
    cases hf
    exact ⟨hman,h2.balanced.hand_free _ (.inr rfl),
      fun x hx _ => h2.balanced.hand_unheld _ (.inr rfl) x hx⟩)
  have hset : (fun f => (NoHand f ∨ f = p) ∧ target (Event.entry p perm) ≠ some f) = NoHand := by
    funext f
    rw [ht]
    simp only [eq_iff_iff]
    constructor
    · rintro ⟨hf | hf,hne⟩
      · exact hf
      exact hne (by rw [hf])
    exact fun hf => hf.elim
  rw [hset] at this
  simpa [Event.apply,hl] using this

lemma Inv.store (h : Inv K hand s) {i : Nat} {v : Word} (hok : Event.Ok s (.store e n i v)) :
    Inv K hand (Event.apply (.store e n i v) s) := by
  obtain ⟨he,hn,w,hw,_⟩ := hok
  have hheld : s.holds (.pte e n) = some (PPN w) := by rw [holds_pte he,hw]; rfl
  have hstr := h.data_not_structural hn hheld
  simp only [Event.apply,hw,map_some,getD_some]
  refine h.data fun f hf => set_frame _ _ _ fun hc => hstr (by rw [← hc]; exact hf)

lemma Inv.scrub (h : Inv K hand s) (hok : Event.Ok s (.scrub f)) :
    Inv K hand (Event.apply (.scrub f) s) := by
  have hstr := h.free_not_structural (f := f) hok
  exact h.data fun g hg => fill_frame _ _ fun hc => hstr (by rw [← hc]; exact hg)

lemma Event.quiet_edit {k : Edit} (hok : Event.EditOk s e k) :
    QuietStep s (s.modEnv e k.apply) := by
  refine ⟨rfl,rfl,rfl,rfl,rfl,rfl,fun e' => ?_⟩
  by_cases hee : e' = e
  · subst hee
    have : (s.modEnv e' k.apply).envs e' = k.apply (s.envs e') := update_self _ _ _
    rw [this]
    cases k with
    | status st => exact ⟨rfl,rfl,⟨fun hc => absurd hc hok.2,fun hc => absurd hc hok.1.2⟩,.inl rfl⟩
    | block => exact ⟨rfl,rfl,⟨fun hc => (by cases hc),fun hc => absurd hc hok.2⟩,.inl rfl⟩
    | dstva va => exact ⟨rfl,rfl,Iff.rfl,.inr (.inr hok)⟩
    | _ => exact ⟨rfl,rfl,Iff.rfl,.inl rfl⟩
  have : (s.modEnv e k.apply).envs e' = s.envs e' := update_of_ne hee _ _
  rw [this]
  exact ⟨rfl,rfl,Iff.rfl,.inl rfl⟩

lemma Inv.event (h : Inv K NoHand s) {a : Event} (hok : Event.Ok s a) :
    Inv K NoHand (a.apply s) := by
  cases a with
  | map e n w perm => exact h.map hok
  | unmap e n => exact h.unmap hok
  | fresh e n zero perm => exact h.fresh hok
  | table e d => exact h.withTable hok.1 hok.2
  | dropTable e d => exact h.dropTable hok.1 hok.2.1 hok.2.2.1 hok.2.2.2
  | scrub f => exact h.scrub hok
  | store e n i v => exact h.store hok
  | spawn a =>
    obtain ⟨e,l,hl⟩ := exists_cons_of_ne_nil hok.1
    obtain ⟨p,q,hq⟩ := exists_cons_of_ne_nil hok.2
    simp only [Event.apply,hl,hq,headD_cons]
    exact h.spawn hl hq
  | reap e => exact h.reap hok.1 hok.2
  | edit e k => exact h.quiet (Event.quiet_edit hok)
  | sched c pre => exact h.quiet ⟨rfl,rfl,rfl,rfl,rfl,rfl,fun _ => ⟨rfl,rfl,Iff.rfl,.inl rfl⟩⟩

lemma Inv.performs {s' : Kern} {l : List Event} (h : Inv K NoHand s) (hr : Performs s l s') :
    Inv K NoHand s' :=
  hr.invariant (P := fun _ => True) (fun _ _ hi hok _ => hi.event hok) (fun _ _ => trivial) h

end inv

end KludgeOS
