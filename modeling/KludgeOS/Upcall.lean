import KludgeOS.Fault
import KludgeOS.X86

/-!
The assembly stub `_pgfault_upcall` (`lib/pfentry.S`) on the frame that
`page_fault_handler` pushes: when a handled fault leaves no trace in the registers.
-/

namespace KludgeOS
open X86
open Kern (utfAddr wordBytes OnXstack)
open BitVec (ofNat toNat_sub toNat_add toNat_ofNat lt_def le_def)
open Cpu Option

/-- `_pgfault_upcall` up to the call of the C handler. -/
def upcallEnter (pgfaultHandler ret : Word) : List Instr :=
  [.pushl .esp,.movl pgfaultHandler .eax,.call .eax ret]

def upcallStash : List Instr :=
  [.addl 4 .esp,.load 48 .esp .eax,.load 40 .esp .ecx,.store .ecx (-4) .eax]

def upcallRegs : List Instr :=
  [.load 8 .esp .edi,.load 12 .esp .esi,.load 16 .esp .ebp,.load 24 .esp .ebx,.load 28 .esp .edx,
   .load 32 .esp .ecx,.load 36 .esp .eax]

def upcallFlags : List Instr := [.pushm 44 .esp,.popfl]

def upcallReturn : List Instr := [.load 48 .esp .esp,.subl 4 .esp,.ret]

def upcallResume : List Instr := upcallStash ++ (upcallRegs ++ (upcallFlags ++ upcallReturn))

def Trapframe.reg (tf : Trapframe) : Reg → Word
  | .eax => tf.regs.eax
  | .ecx => tf.regs.ecx
  | .edx => tf.regs.edx
  | .ebx => tf.regs.ebx
  | .esp => tf.esp
  | .ebp => tf.regs.ebp
  | .esi => tf.regs.esi
  | .edi => tf.regs.edi

def Trapframe.cpu (tf : Trapframe) (mem : ByteMem) : Cpu := ⟨tf.reg,tf.eip,tf.eflags,mem⟩

/-- A fault taken with the registers of `tf`, up to the first instruction of the upcall. -/
def faultEntry (tf : Trapframe) (faultVa upcall : Word) (mem : ByteMem) : Cpu :=
  let utf := utfAddr tf.esp
  {tf with eip := upcall, esp := utf}.cpu
    (mem.put utf ((utfWords tf faultVa).flatMap wordBytes))

/-- The C handler returns from `m` to `m'` and leaves the frame at `utf` as it was, and the flags
outside `popflMask`, `TF` and `AC`. -/
structure HandlerReturns (utf : Word) (m m' : Cpu) : Prop where
  esp : m'.reg .esp = m.reg .esp+4
  frame : ∀ i < 52, m'.mem (utf+ofNat 32 i) = m.mem (utf+ofNat 32 i)
  flags : m'.eflags&&&~~~popflMask m.eflags = m.eflags&&&~~~popflMask m.eflags
  checks : m'.eflags&&&CHECKS = m.eflags&&&CHECKS

def OnTrapStack (esp a : Word) : Prop := esp ≤ a ∧ (OnXstack a → OnXstack esp)

/-- The memory user code can read and write, which is all below `UTOP`. -/
structure UserSpace where
  acc : Access
  below : ∀ a, acc a → a < UTOP

/-- The stub from a state with `TF` and `AC` clear. With one of them set an instruction of it can
trap, and there is no result. -/
def runStub (U : UserSpace) (l : List Instr) (m : Cpu) : Option Cpu :=
  if m.eflags&&&CHECKS = 0 then execAll U.acc l m else none

def Transparent (U : UserSpace) (tf : Trapframe) (faultVa upcall pgfaultHandler ret : Word)
    (mem : ByteMem) : Prop :=
  ∃ m, runStub U (upcallEnter pgfaultHandler ret) (faultEntry tf faultVa upcall mem) = some m ∧
    ∀ m', HandlerReturns (utfAddr tf.esp) m m' → ∃ r, runStub U upcallResume m' = some r ∧
        r.reg = tf.reg ∧ r.eip = tf.eip ∧ r.eflags = tf.eflags ∧
        ∀ a, OnTrapStack tf.esp a → m'.mem a = m.mem a → r.mem a = mem a

section resume

variable {acc : Access} {utf : Word} {m : Cpu}

def FrameAccess (acc : Access) (utf : Word) : Prop := ∀ k < 13, acc.Word (utf+ofNat 32 (4*k))

lemma stash_exec (hf : FrameAccess acc utf) (hesp : m.reg .esp = utf-4) :
    execAll acc upcallStash m = if acc.Word (m.mem.load32 (utf+48)-4) then
        some { ((m.setStatus (addFlags (utf-4) 4)).set .esp utf).set .eax
            (m.mem.load32 (utf+48)) |>.set .ecx (m.mem.load32 (utf+40)) with
          mem := m.mem.store32 (m.mem.load32 (utf+48)-4) (m.mem.load32 (utf+40)) }
      else none := by
  have h40 : acc.Word (utf+40) := hf 10 (by decide)
  have h48 : acc.Word (utf+48) := hf 12 (by decide)
  have hneg : ∀ w : Word, w+(-4) = w-4 := fun w => (BitVec.sub_eq_add_neg w 4).symm
  simp only [upcallStash,execAll,Cpu.exec,Cpu.read,Cpu.write,hesp,BitVec.sub_add_cancel,
    set_reg,set_mem,setStatus_mem,if_pos h48,if_pos h40,hneg,bind,Option.bind,pure,
    reduceCtorEq,if_true,if_false]
  by_cases h : acc.Word (m.mem.load32 (utf+48)-4)
  · simp only [if_pos h]
  simp only [if_neg h]

lemma regs_exec (hf : FrameAccess acc utf) (hesp : m.reg .esp = utf) : ∃ m',
    execAll acc upcallRegs m = some m' ∧ m'.mem = m.mem ∧ m'.eflags = m.eflags ∧ m'.reg .esp = utf ∧
    m'.reg .edi = m.mem.load32 (utf+8) ∧ m'.reg .esi = m.mem.load32 (utf+12) ∧ m'.reg .ebp =
    m.mem.load32 (utf+16) ∧ m'.reg .ebx = m.mem.load32 (utf+24) ∧ m'.reg .edx = m.mem.load32
    (utf+28) ∧ m'.reg .ecx = m.mem.load32 (utf+32) ∧ m'.reg .eax = m.mem.load32 (utf+36) := by
  have h8 : acc.Word (utf+8) := hf 2 (by decide)
  have h12 : acc.Word (utf+12) := hf 3 (by decide)
  have h16 : acc.Word (utf+16) := hf 4 (by decide)
  have h24 : acc.Word (utf+24) := hf 6 (by decide)
  have h28 : acc.Word (utf+28) := hf 7 (by decide)
  have h32 : acc.Word (utf+32) := hf 8 (by decide)
  have h36 : acc.Word (utf+36) := hf 9 (by decide)
  simp only [upcallRegs,execAll,Cpu.exec,Cpu.read,hesp,set_reg,set_mem,if_pos h8,if_pos h12,if_pos
    h16,if_pos h24,if_pos h28,if_pos h32,if_pos h36,bind,Option.bind,pure,reduceCtorEq,if_false]
  refine ⟨_,rfl,?_⟩
  simp [hesp]

lemma flags_exec (hf : FrameAccess acc utf) (hslot : acc.Word (utf-4)) (hesp : m.reg .esp = utf) :
    ∃ m', execAll acc upcallFlags m = some m' ∧
      m'.mem = m.mem.store32 (utf-4) (m.mem.load32 (utf+44)) ∧ m'.reg = m.reg ∧
      m'.eflags = (m.eflags&&&~~~popflMask m.eflags) |||
        (m.mem.load32 (utf+44)&&&popflMask m.eflags) := by
  have h44 : acc.Word (utf+44) := hf 11 (by decide)
  simp only [upcallFlags,execAll,Cpu.exec,Cpu.read,Cpu.write,push,pop,hesp,set_reg,
    set_mem,if_pos h44,if_pos hslot,bind,Option.bind,pure,if_true,ByteMem.load32_store32]
  refine ⟨_,rfl,rfl,?_,rfl⟩
  funext q
  by_cases hq : q = .esp
  · rw [hq,hesp]
    simp
  simp [hq]

lemma return_exec (hf : FrameAccess acc utf) (hesp : m.reg .esp = utf) :
    execAll acc upcallReturn m = if acc.Word (m.mem.load32 (utf+48)-4) then
        some { m.set .esp (m.mem.load32 (utf+48)) with
          eip := m.mem.load32 (m.mem.load32 (utf+48)-4)
          eflags := (m.eflags&&&~~~STATUS)|||subFlags (m.mem.load32 (utf+48)) 4 }
      else none := by
  have h48 : acc.Word (utf+48) := hf 12 (by decide)
  simp only [upcallReturn,execAll,Cpu.exec,Cpu.read,Cpu.pop,hesp,set_reg,set_mem,
    Cpu.setStatus_mem,if_pos h48,bind,Option.bind,pure,if_true,BitVec.sub_add_cancel]
  by_cases h : acc.Word (m.mem.load32 (utf+48)-4)
  · simp only [if_pos h]
    refine congrArg some (Cpu.ext (funext fun q => ?_) rfl rfl rfl)
    by_cases hq : q = .esp <;> simp [hq]
  simp only [if_neg h]

lemma enter_exec (m : Cpu) {g : Word} (hg : acc.Word g) (ret : Word) :
    execAll acc (upcallEnter g ret) m = if acc.Word (m.reg .esp-4) ∧ acc.Word (m.reg .esp-8) then
        some { (m.set .eax ((m.mem.store32 (m.reg .esp-4) (m.reg .esp)).load32 g)).set .esp
            (m.reg .esp-8) with
          eip := (m.mem.store32 (m.reg .esp-4) (m.reg .esp)).load32 g
          mem := (m.mem.store32 (m.reg .esp-4) (m.reg .esp)).store32 (m.reg .esp-8) ret }
      else none := by
  have h8 : m.reg .esp-4-4 = m.reg .esp-8 := by bv_omega
  by_cases h1 : acc.Word (m.reg .esp-4)
  · by_cases h2 : acc.Word (m.reg .esp-8)
    · simp only [upcallEnter,execAll,Cpu.exec,Cpu.read,Cpu.write,Cpu.push,set_reg,
        set_mem,if_pos hg,h8,bind,Option.bind,pure,reduceCtorEq,if_true,if_false,h1,h2,and_self]
      refine congrArg some (Cpu.ext (funext fun q => ?_) rfl rfl rfl)
      by_cases hq : q = .esp <;> simp [hq]
    simp only [upcallEnter,execAll,Cpu.exec,Cpu.read,Cpu.write,Cpu.push,set_reg,set_mem,if_pos h1,
      if_pos hg,h8,bind,Option.bind,pure,reduceCtorEq,if_true,if_false,h2,and_false]
  simp only [upcallEnter,execAll,Cpu.exec,Cpu.write,Cpu.push,bind,Option.bind,h1,false_and,if_false]

def resumeMem (tf : Trapframe) (utf : Word) (mem : ByteMem) : ByteMem :=
  (mem.store32 (tf.esp-4) tf.eip).store32 (utf-4) tf.eflags

def FrameWords (tf : Trapframe) (faultVa utf : Word) (mem : ByteMem) (n : Nat) : Prop :=
  ∀ k < n, mem.load32 (utf+ofNat 32 (4*k)) = (utfWords tf faultVa).getD k 0

lemma resume_exec {tf : Trapframe} {faultVa : Word} (hf : FrameAccess acc utf)
    (hslot : acc.Word (utf-4)) (hesp : m.reg .esp = utf-4)
    (hfl : m.eflags&&&~~~popflMask tf.eflags = tf.eflags&&&~~~popflMask tf.eflags)
    (hw : FrameWords tf faultVa utf m.mem 13)
    (hw' : FrameWords tf faultVa utf (m.mem.store32 (tf.esp-4) tf.eip) 12) {e : Word}
    (he : (resumeMem tf utf m.mem).load32 (utf+48) = e) :
    execAll acc upcallResume m = if acc.Word (tf.esp-4) ∧ acc.Word (e-4) then
        some { reg := fun q => if q = .esp then e else tf.reg q
               eip := (resumeMem tf utf m.mem).load32 (e-4)
               eflags := (tf.eflags&&&~~~STATUS)|||subFlags e 4
               mem := resumeMem tf utf m.mem }
      else none := by
  have h40 : m.mem.load32 (utf+40) = tf.eip := hw 10 (by decide)
  have h48 : m.mem.load32 (utf+48) = tf.esp := hw 12 (by decide)
  rw [upcallResume,execAll_append,stash_exec hf hesp,h40,h48]
  by_cases hst : acc.Word (tf.esp-4)
  · rw [if_pos hst,bind_some,execAll_append]
    -- the registers come out of the frame as the handler left it
    obtain ⟨m1,h1,hmem1,hfl1,hesp1,hedi,hesi,hebp,hebx,hedx,hecx,heax⟩ :=
      regs_exec (m := { (((m.setStatus (addFlags (utf-4) 4)).set .esp utf).set .eax tf.esp).set
        .ecx tf.eip with mem := m.mem.store32 (tf.esp-4) tf.eip }) hf rfl
    rw [h1,bind_some,execAll_append]
    obtain ⟨m2,h2,hmem2,hreg2,hfl2⟩ := flags_exec hf hslot hesp1
    rw [h2,bind_some,return_exec hf (by rw [hreg2,hesp1])]
    have h44 : (m.mem.store32 (tf.esp-4) tf.eip).load32 (utf+44) = tf.eflags := hw' 11 (by decide)
    have hm2 : m2.mem = resumeMem tf utf m.mem := by
      rw [hmem2,hmem1]
      simp only [h44]
      rfl
    have hefl : m2.eflags = tf.eflags := by
      rw [hfl2,hmem1,hfl1]
      simp only [h44]
      exact popfl_restores ((status_and_mask (addFlags_and _ _) _).trans hfl)
    have hreg : ∀ q, q ≠ .esp → m2.reg q = tf.reg q := by
      intro q hq
      rw [hreg2]
      cases q with
      | esp => exact absurd rfl hq
      | edi => exact hedi.trans (hw' 2 (by decide))
      | esi => exact hesi.trans (hw' 3 (by decide))
      | ebp => exact hebp.trans (hw' 4 (by decide))
      | ebx => exact hebx.trans (hw' 6 (by decide))
      | edx => exact hedx.trans (hw' 7 (by decide))
      | ecx => exact hecx.trans (hw' 8 (by decide))
      | eax => exact heax.trans (hw' 9 (by decide))
    rw [hm2,he,hefl]
    by_cases hr : acc.Word (e-4)
    · rw [if_pos hr,if_pos ⟨hst,hr⟩]
      refine congrArg some (Cpu.ext (funext fun q => ?_) rfl rfl hm2)
      simp only [set_reg]
      by_cases hq : q = .esp
      · rw [if_pos hq,if_pos hq]
      rw [if_neg hq,if_neg hq,hreg q hq]
    rw [if_neg hr,if_neg fun h => hr h.2]
  rw [if_neg hst,if_neg fun h => hst h.1]
  rfl

end resume

section transparent

variable {U : UserSpace} {tf : Trapframe} {faultVa : Word}

/-- The frame is inside the exception stack, as far as `page_fault_handler` checks. -/
def UtfFits (tf : Trapframe) : Prop := OnXstack tf.esp → UXSTACKTOP-0x1000 ≤ utfAddr tf.esp

lemma word_below {a : Word} (h : U.acc.Word (a-4)) : 4 ≤ a.toNat ∧ a.toNat ≤ UTOP.toNat := by
  have h0 : (a-4+ofNat 32 0).toNat < UTOP.toNat := U.below _ (h 0 (by decide))
  have h3 : (a-4+ofNat 32 3).toNat < UTOP.toNat := U.below _ (h 3 (by decide))
  rw [show UTOP.toNat = 4005560320 from rfl] at h0 h3 ⊢
  simp only [toNat_add,toNat_sub,toNat_ofNat,show (4 : Word).toNat = 4 from rfl] at h0 h3
  omega

lemma stack_apart (hfit : UtfFits tf) (hw : U.acc.Word (tf.esp-4)) : (tf.esp-4).toNat+4 =
    tf.esp.toNat ∧ (tf.esp.toNat+8 ≤ (utfAddr tf.esp).toNat ∨ (utfAddr tf.esp).toNat+56
    ≤ tf.esp.toNat ∨ tf.esp = UXSTACKTOP ∧ (utfAddr tf.esp).toNat+52 = tf.esp.toNat) := by
  obtain ⟨h4,hU⟩ := word_below hw
  rw [show UTOP.toNat = 4005560320 from rfl] at hU
  refine ⟨by rw [toNat_sub,show (4 : Word).toNat = 4 from rfl]; omega,?_⟩
  by_cases hx : OnXstack tf.esp
  · exact .inr (.inl (by have := (utfAddr_bounds hfit).2.2 hx; omega))
  have hu : (utfAddr tf.esp).toNat = 4005560268 := by
    rw [utfAddr,if_neg hx]
    rfl
  rw [hu]
  by_cases htop : tf.esp = UXSTACKTOP
  · exact .inr (.inr ⟨htop,by rw [htop]; rfl⟩)
  have hne : tf.esp.toNat ≠ 4005560320 := fun h => htop (BitVec.eq_of_toNat_eq h)
  refine .inl ?_
  simp only [OnXstack,lt_def,le_def,show UXSTACKTOP.toNat = 4005560320 from rfl,
    show (UXSTACKTOP-0x1000).toNat = 4005556224 from rfl] at hx
  omega

lemma word_addr (hfit : UtfFits tf) {i : Nat} (hi : i < 52) :
    (utfAddr tf.esp+ofNat 32 i).toNat = (utfAddr tf.esp).toNat+i := by
  have hhi := (utfAddr_bounds hfit).2.1
  rw [show UXSTACKTOP.toNat = 4005560320 from rfl] at hhi
  rw [toNat_add,toNat_ofNat]
  omega

lemma slot_addr (hfit : UtfFits tf) : (utfAddr tf.esp-4).toNat+4 = (utfAddr tf.esp).toNat ∧
    (utfAddr tf.esp-8).toNat+8 = (utfAddr tf.esp).toNat ∧
    (utfAddr tf.esp).toNat+52 ≤ 4005560320 := by
  obtain ⟨hlo,hhi,_⟩ := utfAddr_bounds hfit
  rw [show (UXSTACKTOP-0x1000).toNat = 4005556224 from rfl] at hlo
  rw [show UXSTACKTOP.toNat = 4005560320 from rfl] at hhi
  rw [toNat_sub,toNat_sub,show (4 : Word).toNat = 4 from rfl, show (8 : Word).toNat = 8 from rfl]
  omega

def callMem (utf ret : Word) (mem : ByteMem) : ByteMem :=
  (mem.store32 (utf-4) utf).store32 (utf-8) ret

lemma FrameWords.store {mem : ByteMem} {n : Nat} (hfit : UtfFits tf) (hn : n ≤ 13)
    (h : FrameWords tf faultVa (utfAddr tf.esp) mem n) {a w : Word} (ha : a.toNat+4 ≤ 2^32)
    (hapart : a.toNat+4 ≤ (utfAddr tf.esp).toNat ∨ (utfAddr tf.esp).toNat+4*n ≤ a.toNat)
    : FrameWords tf faultVa (utfAddr tf.esp) (mem.store32 a w) n := by
  intro k hk
  have hb := word_addr hfit (show 4*k < 52 by omega)
  have hhi := (slot_addr hfit).2.2
  rw [ByteMem.load32_store32_outside _ ha (by omega) (by omega)]
  exact h k hk

lemma callMem_words {mem : ByteMem} (hfit : UtfFits tf) (ret : Word)
    (h : FrameWords tf faultVa (utfAddr tf.esp) mem 13) :
    FrameWords tf faultVa (utfAddr tf.esp) (callMem (utfAddr tf.esp) ret mem) 13 := by
  obtain ⟨h4,h8,hhi⟩ := slot_addr hfit
  exact (h.store hfit le_rfl (by omega) (by omega)).store hfit le_rfl
    (by omega) (by omega)

lemma faultEntry_words (upcall : Word) (mem : ByteMem) :
    FrameWords tf faultVa (utfAddr tf.esp) (faultEntry tf faultVa upcall mem).mem 13 :=
  fun _ hk => ByteMem.load32_put_words mem _ (l := utfWords tf faultVa) hk (show 52 ≤ 2^32 by decide)

lemma HandlerReturns.words {m m' : Cpu} (h : HandlerReturns (utfAddr tf.esp) m m')
    (hw : FrameWords tf faultVa (utfAddr tf.esp) m.mem 13) :
    FrameWords tf faultVa (utfAddr tf.esp) m'.mem 13 := by
  intro k hk
  rw [← hw k hk]
  apply ByteMem.load32_congr
  intro i hi
  have hadd : utfAddr tf.esp+ofNat 32 (4*k)+ofNat 32 i =
      utfAddr tf.esp+ofNat 32 (4*k+i) := by rw [BitVec.add_assoc,← BitVec.ofNat_add]
  rw [hadd]
  exact h.frame _ (by omega)

section stash

variable {mem : ByteMem}

section

variable (hfit : UtfFits tf) (hst : U.acc.Word (tf.esp-4))
include hfit hst

lemma stash_words (hw : FrameWords tf faultVa (utfAddr tf.esp) mem 13)
    : FrameWords tf faultVa (utfAddr tf.esp) (mem.store32 (tf.esp-4) tf.eip) 12 := by
  obtain ⟨h4,hapart⟩ := stack_apart hfit hst
  have hlt := tf.esp.isLt
  refine .store hfit (by decide) (fun k hk => hw k (by omega)) (by omega) ?_
  omega

lemma resumeMem_esp
    (hw : FrameWords tf faultVa (utfAddr tf.esp) mem 13) :
    (resumeMem tf (utfAddr tf.esp) mem).load32 (utfAddr tf.esp+48) =
      if tf.esp = UXSTACKTOP then tf.eip else tf.esp := by
  obtain ⟨h4,hapart⟩ := stack_apart hfit hst
  obtain ⟨hslot,_,hhi⟩ := slot_addr hfit
  have hword : (utfAddr tf.esp+48).toNat = (utfAddr tf.esp).toNat+48 :=
    word_addr hfit (show 48 < 52 by decide)
  rw [resumeMem,ByteMem.load32_store32_outside _ (by omega) (by omega) (by omega)]
  by_cases htop : tf.esp = UXSTACKTOP
  · have hsame : utfAddr tf.esp+48 = tf.esp-4 := by
      rw [htop]
      decide
    rw [if_pos htop,hsame,ByteMem.load32_store32]
  rw [if_neg htop,ByteMem.load32_store32_outside _ (by omega) (by omega) (by
    rcases hapart with h | h | ⟨h,_⟩
    · omega
    · omega
    exact absurd h htop)]
  exact hw 12 (by decide)

lemma resumeMem_eip : (resumeMem tf (utfAddr tf.esp) mem).load32 (tf.esp-4) = tf.eip := by
  obtain ⟨h4,hapart⟩ := stack_apart hfit hst
  obtain ⟨hslot,_,hhi⟩ := slot_addr hfit
  have hlt := tf.esp.isLt
  rw [resumeMem,ByteMem.load32_store32_outside _ (by omega) (by omega) (by omega),
    ByteMem.load32_store32]

end

variable {a : Word}

lemma trapStack_apart (hfit : UtfFits tf) (ha : OnTrapStack tf.esp a) :
    a.toNat+8 < (utfAddr tf.esp).toNat ∨ (utfAddr tf.esp).toNat+52 ≤ a.toNat := by
  have hle : tf.esp.toNat ≤ a.toNat := ha.1
  by_cases hx : OnXstack tf.esp
  · have := (utfAddr_bounds hfit).2.2 hx
    omega
  have hu : (utfAddr tf.esp).toNat = 4005560268 := by
    rw [utfAddr,if_neg hx]
    rfl
  have hax : ¬OnXstack a := fun h => hx (ha.2 h)
  simp only [OnXstack,lt_def,le_def,show UXSTACKTOP.toNat = 4005560320 from rfl,
    show (UXSTACKTOP-0x1000).toNat = 4005556224 from rfl] at hax
  omega

lemma resumeMem_stack (hfit : UtfFits tf) (hst : U.acc.Word (tf.esp-4))
    (ha : OnTrapStack tf.esp a) : resumeMem tf (utfAddr tf.esp) mem a = mem a := by
  obtain ⟨h4,_⟩ := stack_apart hfit hst
  obtain ⟨hslot,_,hhi⟩ := slot_addr hfit
  have hclear := trapStack_apart hfit ha
  have hle : tf.esp.toNat ≤ a.toNat := ha.1
  have hlt := tf.esp.isLt
  rw [resumeMem,ByteMem.store32_outside _ (by omega) (by omega),
    ByteMem.store32_outside _ (by omega) (by omega)]

lemma callMem_stack (hfit : UtfFits tf) (upcall ret : Word) (ha : OnTrapStack tf.esp a) :
    callMem (utfAddr tf.esp) ret (faultEntry tf faultVa upcall mem).mem a = mem a := by
  obtain ⟨hslot,hslot8,hhi⟩ := slot_addr hfit
  have hclear := trapStack_apart hfit ha
  rw [callMem,ByteMem.store32_outside _ (by omega) (by omega),
    ByteMem.store32_outside _ (by omega) (by omega)]
  exact ByteMem.put_outside mem (show _+52 ≤ 2^32 by omega) (show _ ∨ _+52 ≤ _ by omega)

end stash

end transparent

def Kern.userMem (s : Kern) (e : Nat) : ByteMem := fun a => (s.userByte e a).getD 0

section kernel

variable {K : Finset Nat} {s u : Kern} {c : Nat}

lemma Kern.userByte_congr {t : Kern} (hm : t.mem = s.mem) (hp : t.pgdir c = s.pgdir c) (a : Word) :
    t.userByte c a = s.userByte c a := by
  have hpte : t.pte c (PPN a) = s.pte c (PPN a) := by simp only [Kern.pte,hm,hp]
  simp only [Kern.userByte,Kern.frameByte,hm,hpte]

variable {x : Ext}

lemma enterUpcall_inv {utf : Word} (hu : s.enterUpcall c utf x = some u)
    : ∃ t, Kern.storeBytes (s.pgdir c) ((utfWords (s.envs c).envTf x.cr2).flatMap wordBytes) utf s =
    some t ∧ u.mem = t.mem ∧ u.pgdir c = t.pgdir c ∧
    (u.envs c).envTf = {(s.envs c).envTf with eip := (s.envs c).envPgfaultUpcall, esp := utf} := by
  obtain ⟨t,ht,hu⟩ := of_bind hu
  obtain ⟨henv,_⟩ := storeBytes_frame _ ht
  simp only at hu
  split at hu
  next =>
    cases hu
    refine ⟨t,ht,rfl,?_,?_⟩
    · simp only [Kern.pgdir,Kern.modEnv_self]
    rw [Kern.modEnv_self,Kern.modEnv_self,henv]
  next => cases hu

lemma enterUpcall_cpu (h : Inv K NoHand s) (hc : s.Live c) {w : Word} (hw : s.pte c (PPN
    (UXSTACKTOP-1)) = some w) (hwr : w&&&PTE_W ≠ 0) (hsole : ∀ n < NUPAGE, ∀ v, s.pte c n = some v →
    PPN v = PPN w → n = PPN (UXSTACKTOP-1)) (hfit : UtfFits (s.envs c).envTf) (hu : s.enterUpcall
    c (utfAddr (s.envs c).envTf.esp) x = some u) : (u.envs c).envTf.cpu (u.userMem c) =
    faultEntry (s.envs c).envTf x.cr2 (s.envs c).envPgfaultUpcall (s.userMem c) := by
  obtain ⟨hlo,hhi,_⟩ := utfAddr_bounds hfit
  rw [show (UXSTACKTOP-0x1000).toNat = 4005556224 from rfl] at hlo
  rw [show UXSTACKTOP.toNat = 4005560320 from rfl] at hhi
  generalize hutf : utfAddr (s.envs c).envTf.esp = utf at hlo hhi hu
  have hpage : ∀ b : Word, utf.toNat ≤ b.toNat → b.toNat < utf.toNat+52 →
      PPN b = PPN (UXSTACKTOP-1) := by
    intro b h1 h2
    rw [PPN_eq,show PPN (UXSTACKTOP-1) = 977919 by decide]
    omega
  obtain ⟨t,ht,_,hsame,_,hbyte⟩ := storeBytes_user
    ((utfWords (s.envs c).envTf x.cr2).flatMap wordBytes) utf s h hc
    (by rw [utf_length,show UTOP.toNat = 4005560320 from rfl]; exact hhi)
    fun b h1 h2 => ⟨w,by rw [hpage b h1 h2]; exact hw,hwr⟩
  rw [utf_length] at hbyte
  obtain ⟨_,ht',hm,hp,htf⟩ := enterUpcall_inv hu
  obtain rfl := mem_unique ht ht'
  rw [htf,faultEntry,hutf]
  refine Cpu.ext rfl rfl rfl (funext fun a => ?_)
  change (u.userByte c a).getD 0 =
    (s.userMem c).put utf ((utfWords (s.envs c).envTf x.cr2).flatMap wordBytes) a
  have hin : (a-utf).toNat < 52 ↔ utf.toNat ≤ a.toNat ∧ a.toNat < utf.toNat+52 := by
    have := a.isLt
    rw [toNat_sub]
    omega
  rw [Kern.userByte_congr hm hp a,hbyte a fun b h1 h2 ha v w' hv hw' hvw => ?_]
  · rw [ByteMem.put,utf_length]
    by_cases ha : (a-utf).toNat < 52
    · have hsub : (a-utf).toNat = a.toNat-utf.toNat := by
        rw [toNat_sub]
        omega
      rw [if_pos (hin.mp ha),if_pos ha,getD_some,hsub]
    rw [if_neg fun hc => ha (hin.mpr hc),if_neg ha]
    rfl
  rw [hpage b h1 h2] at hw' ⊢
  obtain rfl := mem_unique hw' hw
  exact hsole _ (PPN_lt_NUPAGE ha) v hv hvw

end kernel

lemma faultEntry_call {U : UserSpace} (tf : Trapframe) {g : Word} (hvar : U.acc.Word g)
    (faultVa upcall ret : Word) (mem : ByteMem) : (∀ m, execAll U.acc (upcallEnter g ret)
    (faultEntry tf faultVa upcall mem) = some m → (U.acc.Word (utfAddr tf.esp-4) ∧
    U.acc.Word (utfAddr tf.esp-8)) ∧ m.reg .esp = utfAddr tf.esp-8 ∧ m.eflags = tf.eflags ∧
    m.mem = callMem (utfAddr tf.esp) ret (faultEntry tf faultVa upcall mem).mem) ∧
    (U.acc.Word (utfAddr tf.esp-4) ∧ U.acc.Word (utfAddr tf.esp-8) →
    ∃ m, execAll U.acc (upcallEnter g ret) (faultEntry tf faultVa upcall mem) = some m) := by
  have hesp : (faultEntry tf faultVa upcall mem).reg .esp = utfAddr tf.esp := rfl
  rw [enter_exec _ hvar,hesp]
  constructor
  · intro m hm
    by_cases h : U.acc.Word (utfAddr tf.esp-4) ∧ U.acc.Word (utfAddr tf.esp-8)
    · rw [if_pos h] at hm
      cases hm
      exact ⟨h,rfl,rfl,rfl⟩
    rw [if_neg h] at hm
    cases hm
  intro h
  rw [if_pos h]
  exact ⟨_,rfl⟩

lemma handler_noop (utf : Word) (m : Cpu) : HandlerReturns utf m (m.set .esp (m.reg .esp+4)) where
  esp := by simp
  frame _ _ := rfl
  flags := rfl
  checks := rfl

lemma HandlerReturns.resume {U : UserSpace} {tf : Trapframe} {faultVa upcall ret : Word} {mem
    : ByteMem} (hfit : UtfFits tf) (hframe : FrameAccess U.acc (utfAddr tf.esp)) (hslot : U.acc.Word
    (utfAddr tf.esp-4)) {m m' : Cpu} (hesp : m.reg .esp = utfAddr tf.esp-8) (hfl : m.eflags =
    tf.eflags) (hmem : m.mem = callMem (utfAddr tf.esp) ret (faultEntry tf faultVa upcall mem).mem)
    (h : HandlerReturns (utfAddr tf.esp) m m') : (∀ r, execAll U.acc upcallResume m' = some r →
    r.reg = tf.reg → r.eflags = tf.eflags → U.acc.Word (tf.esp-4) ∧ (tf.esp = UXSTACKTOP → tf.eip =
    UXSTACKTOP) ∧ tf.eflags&&&STATUS = subFlags tf.esp 4) ∧ (U.acc.Word (tf.esp-4) ∧ (tf.esp =
    UXSTACKTOP → tf.eip = UXSTACKTOP) ∧ tf.eflags&&&STATUS = subFlags tf.esp 4 → execAll U.acc
    upcallResume m' = some ⟨tf.reg,tf.eip,tf.eflags,resumeMem tf (utfAddr tf.esp) m'.mem⟩) := by
  have hw : FrameWords tf faultVa (utfAddr tf.esp) m'.mem 13 :=
    h.words (hmem ▸ callMem_words hfit ret (faultEntry_words upcall mem))
  have hesp' : m'.reg .esp = utfAddr tf.esp-4 := by
    rw [h.esp,hesp]
    bv_omega
  have hfl' : m'.eflags&&&~~~popflMask tf.eflags = tf.eflags&&&~~~popflMask tf.eflags :=
    hfl ▸ h.flags
  by_cases hst : U.acc.Word (tf.esp-4)
  · have hexec := resume_exec hframe hslot hesp' hfl' hw (stash_words hfit hst hw)
      (resumeMem_esp hfit hst hw)
    generalize he : (if tf.esp = UXSTACKTOP then tf.eip else tf.esp) = e at hexec
    constructor
    · intro r hr hreg hefl
      rw [hexec] at hr
      split at hr
      next =>
        cases hr
        obtain rfl : e = tf.esp := congrFun hreg .esp
        refine ⟨hst,fun htop => ?_,(status_kept (subFlags_and _ _)).mp hefl⟩
        rw [if_pos htop] at he
        exact he.trans htop
      next => cases hr
    rintro ⟨_,htop,hstatus⟩
    obtain rfl : tf.esp = e := by
      rw [← he]
      split
      next hx => exact hx.trans (htop hx).symm
      next => rfl
    rw [hexec,if_pos ⟨hst,hst⟩,resumeMem_eip hfit hst,(status_kept (subFlags_and _ _)).mpr hstatus]
    refine congrArg some (Cpu.ext (funext fun q => ?_) rfl rfl rfl)
    by_cases hq : q = .esp
    · simp only [hq,if_true]
      rfl
    simp only [hq,if_false]
  refine ⟨fun r hr => ?_,fun hc => absurd hc.1 hst⟩
  have h48 : m'.mem.load32 (utfAddr tf.esp+48) = tf.esp := hw 12 (by decide)
  rw [upcallResume,execAll_append,stash_exec hframe hesp',h48,if_neg hst] at hr
  cases hr

lemma runStub_eq {U : UserSpace} {l : List Instr} {m : Cpu} (h : m.eflags&&&CHECKS = 0) :
    runStub U l m = execAll U.acc l m := if_pos h

/-- A fault without `TF` and `AC` is transparent when the words below the frame and the stack
pointer can be written and the status flags are those of the final `subl`. -/
theorem upcall_transparent (U : UserSpace) (tf : Trapframe)
    (faultVa upcall pgfaultHandler ret : Word) (mem : ByteMem)
    (hchecks : tf.eflags&&&CHECKS = 0) (hfit : UtfFits tf)
    (hframe : FrameAccess U.acc (utfAddr tf.esp)) (hvar : U.acc.Word pgfaultHandler) :
    Transparent U tf faultVa upcall pgfaultHandler ret mem ↔
      (U.acc.Word (utfAddr tf.esp-4) ∧ U.acc.Word (utfAddr tf.esp-8)) ∧ U.acc.Word (tf.esp-4) ∧
      (tf.esp = UXSTACKTOP → tf.eip = UXSTACKTOP) ∧ tf.eflags&&&STATUS = subFlags tf.esp 4 := by
  obtain ⟨hcall,hreach⟩ := faultEntry_call tf hvar faultVa upcall ret mem
  rw [Transparent,runStub_eq (show (faultEntry tf faultVa upcall mem).eflags&&&CHECKS = 0
    from hchecks)]
  constructor
  · rintro ⟨m,hm,hall⟩
    obtain ⟨hslots,hesp,hfl,hmem⟩ := hcall m hm
    have hret := handler_noop (utfAddr tf.esp) m
    obtain ⟨r,hr,hreg,_,hefl,_⟩ := hall _ hret
    rw [runStub_eq (by rw [hret.checks,hfl,hchecks])] at hr
    exact ⟨hslots,(hret.resume hfit hframe hslots.1 hesp hfl hmem).1 r hr hreg hefl⟩
  rintro ⟨hslots,hcond⟩
  obtain ⟨m,hm⟩ := hreach hslots
  obtain ⟨_,hesp,hfl,hmem⟩ := hcall m hm
  refine ⟨m,hm,fun m' hret => ?_⟩
  rw [runStub_eq (by rw [hret.checks,hfl,hchecks])]
  refine ⟨_,(hret.resume hfit hframe hslots.1 hesp hfl hmem).2 hcond,rfl,rfl,rfl,fun a ha hkept => ?_⟩
  calc resumeMem tf (utfAddr tf.esp) m'.mem a
    _ = m'.mem a := resumeMem_stack hfit hcond.1 ha
    _ = m.mem a := hkept
    _ = mem a := by rw [hmem,callMem_stack hfit upcall ret ha]

def openSpace : UserSpace := ⟨fun a => decide (a < UTOP),fun _ h => of_decide_eq_true h⟩

theorem upcall_transparent_flags :
    Transparent openSpace {esp := 0xEEBFDFA0, eflags := 0x296} 0x804000 0x800020 0x802000 0x800040
      (fun _ => 0) :=
  (upcall_transparent openSpace {esp := 0xEEBFDFA0, eflags := 0x296} 0x804000 0x800020 0x802000
    0x800040 (fun _ => 0) (by decide) (by unfold UtfFits; decide) (by unfold FrameAccess; decide)
    (by decide)).mpr (by decide)

/-- A fault with `ZF` set resumes with it clear. -/
theorem upcall_loses_flags :
    ¬Transparent openSpace {esp := 0xEEBFDFA0, eflags := 0x246} 0x804000 0x800020 0x802000
      0x800040 (fun _ => 0) := by
  rintro ⟨m,hm,hall⟩
  obtain ⟨r,hr,_,_,hfl,_⟩ := hall _ (handler_noop _ m)
  have hrun : ((runStub openSpace (upcallEnter 0x802000 0x800040)
      (faultEntry {esp := 0xEEBFDFA0, eflags := 0x246} 0x804000 0x800020 fun _ => 0)).bind fun m =>
      (runStub openSpace upcallResume (m.set .esp (m.reg .esp+4))).map eflags) =
      some 0x296 := by decide +kernel
  rw [hm,bind_some,hr,map_some,hfl] at hrun
  exact absurd hrun (by decide)

end KludgeOS
