import Jos.Trap

/-!
# The page fault upcall

A page fault in user mode travels from `page_fault_handler`, which pushes a `UTrapframe` on the
exception stack, through the stub `_pgfault_upcall` of `lib/pfentry.S` and the C handler, back
to the faulting instruction. This file runs the stub on a small x86 machine and asks whether
the program finds its registers again.

**The machine** (`UState`) is a user program's view of the processor: the registers and a flat
byte memory, where stores need a writable address. `W` says which addresses are writable and
`alu` which arithmetic flags an `addl` or `subl` leaves; both are arbitrary. `popf` in user mode
leaves the bits outside `UFLAGS` alone (among them RF, which is not part of what `pushf` shows).
The stub has no jumps, so it is a list of instructions and `eip` only matters at its ends.

**The handler** is C code that this file knows nothing about. `Returns` says what the stub
relies on: it returns to its caller with the stack pointer it was called with, and the
`UTrapframe` is as it was. It may fault itself on the way.

**The result.** The stub stores the return address below the trap-time stack pointer. With
`tf_esp = UXSTACKTOP` the kernel takes the fault for one on the normal stack and does not leave
a word for it, so the return address lands on the frame's own `utf_esp`, which the stub then
overwrites. This is the only trap frame on which the round trip fails.
-/

namespace Jos

open Lib

/-! ## The machine -/

/-- The registers and the memory that a user program sees. -/
structure UState where
  regs : PushRegs
  esp : Word
  eip : Word
  eflags : Word
  mem : ByteMem

/-- The registers the stub names. -/
inductive Reg
  | eax
  | ebp

def Reg.get (r : PushRegs) : Reg → Word
  | .eax => r.regEax
  | .ebp => r.regEbp

def Reg.set (r : PushRegs) (v : Word) : Reg → PushRegs
  | .eax => { r with regEax := v }
  | .ebp => { r with regEbp := v }

/-- The flags `popf` changes in user mode: CF, PF, AF, ZF, SF, TF, DF, OF, NT, AC and ID. -/
def UFLAGS : Word := 0x244DD5#32

/-- The flags arithmetic changes: CF, PF, AF, ZF, SF and OF. -/
def AFLAGS : Word := 0x8D5#32

/-- The instructions of the stub. `call` carries the address of the next instruction. -/
inductive Instr
  | pushEsp
  | movVar (addr : Word) (dst : Reg)
  | call (target : Reg) (next : Word)
  | addEsp (n : Word)
  | sub (n : Word) (dst : Reg)
  | movFromStack (disp : Word) (dst : Reg)
  | movToStack (src : Reg) (disp : Word)
  | movTo (src base : Reg)
  | popal
  | popf
  | popEsp
  | ret

section Machine

variable (W : Word → Prop) [DecidablePred W] (alu : Word → Word → Word)

/-- The four bytes at `a` are writable. -/
def WordWritable (a : Word) : Prop := W a ∧ W (a + 1#32) ∧ W (a + 2#32) ∧ W (a + 3#32)

instance (a : Word) : Decidable (WordWritable W a) := by unfold WordWritable; infer_instance

/-- A store; `none` is a page fault. -/
def UState.store (s : UState) (a w : Word) : Option UState :=
  if WordWritable W a then some { s with mem := s.mem.storeWord a w } else none

/-- The flags after an addition or subtraction. -/
def UState.arith (s : UState) (x y : Word) : Word :=
  s.eflags &&& ~~~AFLAGS ||| alu x y &&& AFLAGS

/-- `popal`, which skips the saved stack pointer. -/
def popRegs (s : UState) : PushRegs :=
  { regEdi := s.mem.loadWord s.esp
    regEsi := s.mem.loadWord (s.esp + 4#32)
    regEbp := s.mem.loadWord (s.esp + 8#32)
    regOesp := s.regs.regOesp
    regEbx := s.mem.loadWord (s.esp + 16#32)
    regEdx := s.mem.loadWord (s.esp + 20#32)
    regEcx := s.mem.loadWord (s.esp + 24#32)
    regEax := s.mem.loadWord (s.esp + 28#32) }

/-- Execute one instruction. -/
def Instr.step (s : UState) : Instr → Option UState
  | .pushEsp => UState.store W { s with esp := s.esp - 4#32 } (s.esp - 4#32) s.esp
  | .movVar addr dst => some { s with regs := dst.set s.regs (s.mem.loadWord addr) }
  | .call target next =>
    UState.store W { s with esp := s.esp - 4#32, eip := target.get s.regs } (s.esp - 4#32) next
  | .addEsp n => some { s with esp := s.esp + n, eflags := s.arith alu s.esp n }
  | .sub n dst =>
    some { s with regs := dst.set s.regs (dst.get s.regs - n)
                  eflags := s.arith alu (dst.get s.regs) n }
  | .movFromStack disp dst =>
    some { s with regs := dst.set s.regs (s.mem.loadWord (s.esp + disp)) }
  | .movToStack src disp => s.store W (s.esp + disp) (src.get s.regs)
  | .movTo src base => s.store W (base.get s.regs) (src.get s.regs)
  | .popal => some { s with regs := popRegs s, esp := s.esp + 32#32 }
  | .popf =>
    some { s with
      eflags := s.eflags &&& ~~~UFLAGS ||| s.mem.loadWord s.esp &&& UFLAGS
      esp := s.esp + 4#32 }
  | .popEsp => some { s with esp := s.mem.loadWord s.esp }
  | .ret => some { s with eip := s.mem.loadWord s.esp, esp := s.esp + 4#32 }

/-- Execute instructions in order. -/
def exec : List Instr → UState → Option UState
  | [], s => some s
  | i :: is, s => (i.step W alu s).bind (exec is)

end Machine

/-! ## `_pgfault_upcall` -/

/-- The stub up to the call of `*_pgfault_handler`; `next` is the address it returns to. -/
def stubCall (pgfaultHandler next : Word) : List Instr :=
  [.pushEsp, .movVar pgfaultHandler .eax, .call .eax next]

/-- The stub from the return of the handler on. -/
def stubReturn : List Instr :=
  [.addEsp 4#32,
   .movFromStack 48#32 .eax, .sub 4#32 .eax, .movFromStack 40#32 .ebp, .movTo .ebp .eax,
   .movToStack .eax 48#32,
   .addEsp 4#32, .addEsp 4#32, .popal,
   .addEsp 4#32, .popf,
   .popEsp,
   .ret]

/-- The state in which the stub starts: `page_fault_handler` has pushed the frame. -/
def enterUpcall (tf : Trapframe) (faultVa upcall : Word) (m : ByteMem) : UState where
  regs := tf.tfRegs
  esp := (uxFrame tf faultVa).1
  eip := upcall
  eflags := tf.tfEflags
  mem := m.storeWords (uxFrame tf faultVa).2

/-- What the handler, called in state `s`, leaves to the stub. -/
structure Returns (next utf : Word) (s s' : UState) : Prop where
  eip : s'.eip = next
  esp : s'.esp = s.esp + 4#32
  flags : s'.eflags &&& ~~~UFLAGS = s.eflags &&& ~~~UFLAGS
  frame : ∀ i : Word, i.toNat < 52 → s'.mem (utf + i) = s.mem (utf + i)

/-! ## The round trip -/

/-- What the claims of the upcall rest on: nothing from `UTOP` on is writable, the exception
page and the word below the trap-time stack pointer are, and a recursive frame fits, with the
two words the stub pushes to call the handler. -/
structure Setting (W : Word → Prop) (tf : Trapframe) : Prop where
  below_top : ∀ x, W x → x < UTOP
  exception_page : ∀ x, UXSTACKBASE ≤ x → x < UXSTACKTOP → W x
  scratch : WordWritable W (tf.tfEsp - 4#32)
  fits : OnUxStack tf.tfEsp → UXSTACKBASE + 64#32 ≤ tf.tfEsp

/-- The point below which the frame is pushed. -/
def uxTop (tf : Trapframe) : Word := if OnUxStack tf.tfEsp then tf.tfEsp else UXSTACKTOP

/-- Memory changed only on the exception stack below `uxTop`, and in the word below the
trap-time stack pointer. -/
def Untouched (tf : Trapframe) (m m' : ByteMem) : Prop :=
  ∀ x, ¬ (UXSTACKBASE ≤ x ∧ x < uxTop tf) → 4 ≤ (x - (tf.tfEsp - 4#32)).toNat → m' x = m x

/-- The general registers other than `esp`. -/
def PushRegs.general (r : PushRegs) : List Word :=
  [r.regEdi, r.regEsi, r.regEbp, r.regEbx, r.regEdx, r.regEcx, r.regEax]

/-- The program goes on where it was trapped. -/
structure Resumed (tf : Trapframe) (s : UState) : Prop where
  regs : s.regs.general = tf.tfRegs.general
  eflags : s.eflags = tf.tfEflags
  eip : s.eip = tf.tfEip
  esp : s.esp = tf.tfEsp

/-- The stub calls the handler, and whatever the handler does, the program is resumed; the
kernel and both parts of the stub leave all other memory alone. -/
def RoundTrip (W : Word → Prop) [DecidablePred W] (alu : Word → Word → Word) (tf : Trapframe)
    (faultVa upcall pgfaultHandler next : Word) (m : ByteMem) : Prop :=
  Untouched tf m (enterUpcall tf faultVa upcall m).mem ∧
  ∃ s, exec W alu (stubCall pgfaultHandler next) (enterUpcall tf faultVa upcall m) = some s ∧
    Untouched tf (enterUpcall tf faultVa upcall m).mem s.mem ∧
    ∀ s', Returns next (uxFrame tf faultVa).1 s s' →
      ∃ t, exec W alu stubReturn s' = some t ∧ Resumed tf t ∧ Untouched tf s'.mem t.mem

/-! ## The frame -/

/-- The words of the frame, by offset. -/
def frameWords (tf : Trapframe) (faultVa : Word) : List (Word × Word) :=
  [(48#32, tf.tfEsp), (44#32, tf.tfEflags), (40#32, tf.tfEip),
   (8#32, tf.tfRegs.regEdi), (12#32, tf.tfRegs.regEsi), (16#32, tf.tfRegs.regEbp),
   (20#32, tf.tfRegs.regOesp), (24#32, tf.tfRegs.regEbx), (28#32, tf.tfRegs.regEdx),
   (32#32, tf.tfRegs.regEcx), (36#32, tf.tfRegs.regEax), (4#32, tf.tfErr), (0#32, faultVa)]

/-- The words pushed before the frame: one on a recursive fault. -/
def scratchWords (tf : Trapframe) : List (Word × Word) :=
  if OnUxStack tf.tfEsp then [(52#32, 0#32)] else []

/-- The address of the frame. -/
def utfAddr (tf : Trapframe) : Word :=
  if OnUxStack tf.tfEsp then tf.tfEsp - 56#32 else UXSTACKTOP - 52#32

variable {W : Word → Prop} {tf : Trapframe} {faultVa : Word}

theorem uxFrame_fst (tf : Trapframe) (faultVa : Word) : (uxFrame tf faultVa).1 = utfAddr tf := by
  unfold uxFrame utfAddr
  split_ifs <;> simp only [push, pushRegs] <;> bv_omega

theorem uxFrame_snd (tf : Trapframe) (faultVa : Word) :
    (uxFrame tf faultVa).2 = (scratchWords tf ++ frameWords tf faultVa).map
      fun x => (utfAddr tf + x.1, x.2) := by
  unfold uxFrame scratchWords utfAddr
  split_ifs with h
  · simp only [push, pushRegs, frameWords, List.nil_append, List.cons_append, List.map_cons,
      List.map_nil, List.cons.injEq, Prod.mk.injEq, and_true]
    refine ⟨⟨?_, rfl⟩, ?_, ?_, ?_, ?_, ?_, ?_, ?_, ?_, ?_, ?_, ?_, ?_, ?_⟩ <;> bv_omega
  · simp only [push, pushRegs, frameWords, List.nil_append, List.cons_append, List.map_cons,
      List.map_nil, List.cons.injEq, Prod.mk.injEq, and_true]
    decide

theorem pairwise_frame (tf : Trapframe) (faultVa : Word) :
    (scratchWords tf ++ frameWords tf faultVa).Pairwise fun x y => Apart x.1 y.1 := by
  have hoff : ([52#32, 48#32, 44#32, 40#32, 8#32, 12#32, 16#32, 20#32, 24#32, 28#32, 32#32, 36#32,
      4#32, 0#32] : List Word).Pairwise Apart := by decide
  rw [← List.pairwise_map (f := Prod.fst)]
  unfold scratchWords
  split_ifs
  · exact hoff
  · exact hoff.tail

theorem pairwise_uxFrame (tf : Trapframe) (faultVa : Word) :
    (uxFrame tf faultVa).2.Pairwise fun x y => Apart x.1 y.1 := by
  rw [uxFrame_snd, List.pairwise_map]
  exact (pairwise_frame tf faultVa).imp fun h => apart_add _ _ _ h

theorem loadWord_frame (m : ByteMem) (c w : Word) (hcw : (c, w) ∈ frameWords tf faultVa) :
    (m.storeWords (uxFrame tf faultVa).2).loadWord (utfAddr tf + c) = w := by
  have hmem : (utfAddr tf + c, w) ∈ (uxFrame tf faultVa).2 := by
    rw [uxFrame_snd]
    exact List.mem_map.2 ⟨(c, w), List.mem_append_right _ hcw, rfl⟩
  exact ByteMem.loadWord_storeWords (x := (utfAddr tf + c, w)) (pairwise_uxFrame tf faultVa) hmem

/-! ## Where the frame lies -/

theorem toNat_sub_of_le {a c : Word} (h : c.toNat ≤ a.toNat) :
    (a - c).toNat = a.toNat - c.toNat := by
  rw [BitVec.toNat_sub]
  omega

theorem toNat_UXSTACKBASE : UXSTACKBASE.toNat = 0xEEBFF000 := by decide

theorem toNat_UXSTACKTOP : UXSTACKTOP.toNat = 0xEEC00000 := by decide

theorem onUxStack_iff {esp : Word} :
    OnUxStack esp ↔ 0xEEBFF000 ≤ esp.toNat ∧ esp.toNat < 0xEEC00000 := by
  rw [← toNat_UXSTACKBASE, ← toNat_UXSTACKTOP]
  exact and_comm

theorem Setting.fits_toNat (h : Setting W tf) (hux : OnUxStack tf.tfEsp) :
    0xEEBFF000 + 64 ≤ tf.tfEsp.toNat := by
  have hfits : (UXSTACKBASE + 64#32).toNat ≤ tf.tfEsp.toNat := h.fits hux
  rwa [show (UXSTACKBASE + 64#32).toNat = 0xEEBFF000 + 64 by decide] at hfits

/-- The frame and the two words below it lie on the exception stack. -/
theorem Setting.bounds (h : Setting W tf) :
    0xEEBFF000 + 8 ≤ (utfAddr tf).toNat ∧ (utfAddr tf).toNat + 52 ≤ (uxTop tf).toNat ∧
      (uxTop tf).toNat ≤ 0xEEC00000 := by
  unfold utfAddr uxTop
  split_ifs with hux
  · have hfits := h.fits_toNat hux
    have hlt := (onUxStack_iff.1 hux).2
    rw [BitVec.toNat_sub]
    simp only [BitVec.toNat_ofNat]
    omega
  · rw [toNat_UXSTACKTOP, show (UXSTACKTOP - 52#32).toNat = 0xEEC00000 - 52 by decide]
    omega

/-- A word on the exception stack below `uxTop` covers no other byte. -/
theorem far_of_outside {x a : Word} (ha : 0xEEBFF000 ≤ a.toNat)
    (ha' : a.toNat + 4 ≤ (uxTop tf).toNat) (hx : ¬ (UXSTACKBASE ≤ x ∧ x < uxTop tf)) :
    4 ≤ (x - a).toNat := by
  have hx' : ¬ (UXSTACKBASE.toNat ≤ x.toNat ∧ x.toNat < (uxTop tf).toNat) := hx
  have hxlt := x.isLt
  have halt := (uxTop tf).isLt
  rw [toNat_UXSTACKBASE] at hx'
  rw [BitVec.toNat_sub]
  omega

theorem Setting.writable (h : Setting W tf) {a : Word} (ha : 0xEEBFF000 ≤ a.toNat)
    (ha' : a.toNat + 4 ≤ 0xEEC00000) : WordWritable W a := by
  have hW : ∀ i : Word, i.toNat < 4 → W (a + i) := by
    intro i hi
    apply h.exception_page
    · show UXSTACKBASE.toNat ≤ (a + i).toNat
      rw [toNat_UXSTACKBASE, BitVec.toNat_add]
      omega
    · show (a + i).toNat < UXSTACKTOP.toNat
      rw [toNat_UXSTACKTOP, BitVec.toNat_add]
      omega
  have h0 := hW 0#32 (by decide)
  rw [BitVec.add_zero] at h0
  exact ⟨h0, hW 1#32 (by decide), hW 2#32 (by decide), hW 3#32 (by decide)⟩

namespace Untouched

variable {m m' m'' : ByteMem}

theorem trans (h : Untouched tf m m') (h' : Untouched tf m' m'') : Untouched tf m m'' :=
  fun x hx hs => (h' x hx hs).trans (h x hx hs)

theorem storeWord {a : Word} (w : Word) (ha : 0xEEBFF000 ≤ a.toNat)
    (ha' : a.toNat + 4 ≤ (uxTop tf).toNat) : Untouched tf m (m.storeWord a w) :=
  fun _ hx _ => ByteMem.storeWord_of_far (far_of_outside ha ha' hx)

theorem storeScratch (w : Word) : Untouched tf m (m.storeWord (tf.tfEsp - 4#32) w) :=
  fun _ _ hs => ByteMem.storeWord_of_far hs

end Untouched

theorem offset_le {x : Word × Word} (hx : x ∈ frameWords tf faultVa) : x.1.toNat ≤ 48 := by
  simp only [frameWords, List.mem_cons, List.not_mem_nil, or_false] at hx
  rcases hx with rfl | rfl | rfl | rfl | rfl | rfl | rfl | rfl | rfl | rfl | rfl | rfl | rfl <;>
    simp

theorem Setting.toNat_utf_add (h : Setting W tf) {c : Word} (hc : c.toNat ≤ 56) :
    (utfAddr tf + c).toNat = (utfAddr tf).toNat + c.toNat := by
  obtain ⟨-, h2, h3⟩ := h.bounds
  rw [BitVec.toNat_add]
  omega

theorem Setting.uxFrame_bounds (h : Setting W tf) {y : Word × Word}
    (hy : y ∈ (uxFrame tf faultVa).2) :
    0xEEBFF000 ≤ y.1.toNat ∧ y.1.toNat + 4 ≤ (uxTop tf).toNat := by
  obtain ⟨h1, h2, h3⟩ := h.bounds
  rw [uxFrame_snd] at hy
  obtain ⟨x, hx, rfl⟩ := List.mem_map.1 hy
  rcases List.mem_append.1 hx with hx | hx
  · unfold scratchWords at hx
    split_ifs at hx with hux
    · cases List.mem_singleton.1 hx
      have hfits := h.fits_toNat hux
      have hadd := h.toNat_utf_add (c := 52#32) (by decide)
      rw [hadd]
      simp only [utfAddr, uxTop, if_pos hux, BitVec.toNat_sub, BitVec.toNat_ofNat] at h1 h2 ⊢
      omega
    · cases hx
  · have hle := offset_le hx
    rw [h.toNat_utf_add (by omega)]
    omega

theorem Setting.untouched_frame (h : Setting W tf) (m : ByteMem) :
    Untouched tf m (m.storeWords (uxFrame tf faultVa).2) := by
  intro x hx _
  apply ByteMem.storeWords_of_far
  intro y hy
  obtain ⟨h1, h2⟩ := h.uxFrame_bounds hy
  exact far_of_outside h1 h2 hx

/-! ## Running the stub -/

section Stub

variable [DecidablePred W] {alu : Word → Word → Word} {s : UState}

theorem and_not_arith (x y : Word) (fl : Word) :
    (fl &&& ~~~AFLAGS ||| alu x y &&& AFLAGS) &&& ~~~AFLAGS = fl &&& ~~~AFLAGS := by
  rw [BitVec.and_or_distrib_right, BitVec.and_assoc, BitVec.and_assoc, BitVec.and_self]
  simp

theorem UState.store_ok {a : Word} (h : WordWritable W a) (w : Word) :
    s.store W a w = some { s with mem := s.mem.storeWord a w } := if_pos h

/-- Memory at the call of the handler. -/
def callMem (m : ByteMem) (b next : Word) : ByteMem :=
  (m.storeWord (b - 4#32) b).storeWord (b - 8#32) next

theorem exec_stubCall {b var next : Word} (hb : s.esp = b) (h4 : WordWritable W (b - 4#32))
    (h8 : WordWritable W (b - 8#32)) :
    ∃ t, exec W alu (stubCall var next) s = some t ∧ t.esp = b - 8#32 ∧ t.eflags = s.eflags ∧
      t.mem = callMem s.mem b next := by
  subst hb
  have h8' : s.esp - 4#32 - 4#32 = s.esp - 8#32 := by bv_omega
  simp only [stubCall, exec, Instr.step, UState.store_ok h4, Option.bind_some, h8',
    UState.store_ok h8]
  exact ⟨_, rfl, rfl, rfl, rfl⟩

/-- Memory after the stub has stored the return address and the adjusted stack pointer. -/
def returnMem (m : ByteMem) (b esp eip : Word) : ByteMem :=
  (m.storeWord (esp - 4#32) eip).storeWord (b + 48#32) (esp - 4#32)

theorem exec_stubReturn (alu : Word → Word → Word) {b esp eip : Word} (hb : s.esp = b - 4#32)
    (hesp : s.mem.loadWord (b + 48#32) = esp) (heip : s.mem.loadWord (b + 40#32) = eip)
    (hscratch : WordWritable W (esp - 4#32)) (h48 : WordWritable W (b + 48#32)) :
    ∃ t fl, exec W alu stubReturn s = some t ∧ t.mem = returnMem s.mem b esp eip ∧
      t.regs = popRegs { s with esp := b + 8#32, mem := t.mem } ∧
      t.eflags = fl &&& ~~~UFLAGS ||| t.mem.loadWord (b + 44#32) &&& UFLAGS ∧
      fl &&& ~~~AFLAGS = s.eflags &&& ~~~AFLAGS ∧
      t.eip = t.mem.loadWord (esp - 4#32) ∧ t.esp = esp := by
  have e0 : b - 4#32 + 4#32 = b := by bv_omega
  have e8 : b + 4#32 + 4#32 = b + 8#32 := by bv_omega
  have e40 : b + 8#32 + 32#32 + 4#32 = b + 44#32 := by bv_omega
  have e48 : b + 44#32 + 4#32 = b + 48#32 := by bv_omega
  simp only [stubReturn, exec, Instr.step, Option.bind_some, hb, e0, Reg.set, Reg.get, hesp, heip,
    UState.store_ok hscratch, UState.store_ok h48, e8, e40, e48, ByteMem.loadWord_storeWord]
  refine ⟨_, _, rfl, rfl, rfl, rfl, ?_, rfl, ?_⟩
  · simp only [UState.arith, and_not_arith]
  · bv_omega

end Stub

/-! ## The scratch word and the frame -/

theorem Setting.esp_bounds (h : Setting W tf) :
    4 ≤ tf.tfEsp.toNat ∧ tf.tfEsp.toNat ≤ 0xEEC00000 := by
  have h0 : (tf.tfEsp - 4#32).toNat < UTOP.toNat := h.below_top _ h.scratch.1
  have h3 : (tf.tfEsp - 4#32 + 3#32).toNat < UTOP.toNat := h.below_top _ h.scratch.2.2.2
  have hlt := tf.tfEsp.isLt
  rw [show UTOP.toNat = 0xEEC00000 by decide] at h0 h3
  rw [BitVec.toNat_sub] at h0
  rw [BitVec.toNat_add, BitVec.toNat_sub] at h3
  simp only [BitVec.toNat_ofNat] at h0 h3
  omega

/-- The word below the trap-time stack pointer meets the frame only if it is `utf_esp`. -/
theorem Setting.scratch_apart (h : Setting W tf) {c : Word} (hc : c.toNat ≤ 48)
    (hne : tf.tfEsp ≠ UXSTACKTOP ∨ c.toNat ≤ 44) : Apart (utfAddr tf + c) (tf.tfEsp - 4#32) := by
  obtain ⟨h4, htop⟩ := h.esp_bounds
  have hadd := h.toNat_utf_add (c := c) (by omega)
  obtain ⟨hb1, hb2, hb3⟩ := h.bounds
  have hsub : (tf.tfEsp - 4#32).toNat = tf.tfEsp.toNat - 4 := by
    rw [BitVec.toNat_sub]
    simp only [BitVec.toNat_ofNat]
    omega
  have hcases : (utfAddr tf).toNat + 52 ≤ tf.tfEsp.toNat - 4 ∨
      tf.tfEsp.toNat - 4 + 4 ≤ (utfAddr tf).toNat ∨
      (tf.tfEsp = UXSTACKTOP ∧ (utfAddr tf).toNat + 48 = tf.tfEsp.toNat - 4) := by
    by_cases hux : OnUxStack tf.tfEsp
    · left
      have hfits := h.fits_toNat hux
      rw [utfAddr, if_pos hux, BitVec.toNat_sub]
      simp only [BitVec.toNat_ofNat]
      omega
    · right
      rw [utfAddr, if_neg hux, show (UXSTACKTOP - 52#32).toNat = 0xEEC00000 - 52 by decide]
      rw [onUxStack_iff] at hux
      rcases Nat.lt_or_ge tf.tfEsp.toNat 0xEEBFF000 with hlo | hhi
      · left
        omega
      · right
        refine ⟨BitVec.eq_of_toNat_eq ?_, by omega⟩
        rw [toNat_UXSTACKTOP]
        omega
  rcases hcases with hlow | hhigh | ⟨heq, hmeet⟩
  · apply apart_of_le <;> omega
  · apply Apart.symm
    apply apart_of_le <;> omega
  · rcases hne with hne | hc44
    · exact (hne heq).elim
    · apply apart_of_le <;> omega

/-! ## The upcall restores everything but `eip` -/

variable {upcall var next : Word} {m : ByteMem}

theorem Setting.call [DecidablePred W] (h : Setting W tf) (alu : Word → Word → Word)
    (faultVa upcall var next : Word) (m : ByteMem) :
    ∃ s, exec W alu (stubCall var next) (enterUpcall tf faultVa upcall m) = some s ∧
      s.esp = utfAddr tf - 8#32 ∧ s.eflags = tf.tfEflags ∧
      s.mem = callMem (m.storeWords (uxFrame tf faultVa).2) (utfAddr tf) next := by
  obtain ⟨h1, h2, h3⟩ := h.bounds
  have h4 := toNat_sub_of_le (a := utfAddr tf) (c := 4#32)
    (by simp only [BitVec.toNat_ofNat]; omega)
  have h8 := toNat_sub_of_le (a := utfAddr tf) (c := 8#32)
    (by simp only [BitVec.toNat_ofNat]; omega)
  simp only [BitVec.toNat_ofNat] at h4 h8
  exact exec_stubCall (uxFrame_fst tf faultVa) (h.writable (by omega) (by omega))
    (h.writable (by omega) (by omega))

theorem Setting.untouched_call (h : Setting W tf) :
    Untouched tf m (callMem m (utfAddr tf) next) := by
  obtain ⟨h1, h2, h3⟩ := h.bounds
  have h4 := toNat_sub_of_le (a := utfAddr tf) (c := 4#32)
    (by simp only [BitVec.toNat_ofNat]; omega)
  have h8 := toNat_sub_of_le (a := utfAddr tf) (c := 8#32)
    (by simp only [BitVec.toNat_ofNat]; omega)
  simp only [BitVec.toNat_ofNat] at h4 h8
  exact (Untouched.storeWord _ (by omega) (by omega)).trans
    (Untouched.storeWord _ (by omega) (by omega))

/-- The frame survives the call and, by assumption, the handler. -/
theorem frame_kept {s s' : UState}
    (hmem : s.mem = callMem (m.storeWords (uxFrame tf faultVa).2) (utfAddr tf) next)
    (hret : Returns next (utfAddr tf) s s') (c w : Word) (hx : (c, w) ∈ frameWords tf faultVa) :
    s'.mem.loadWord (utfAddr tf + c) = w := by
  have hle : c.toNat ≤ 48 := offset_le (x := (c, w)) hx
  have hsame : s'.mem.loadWord (utfAddr tf + c) = s.mem.loadWord (utfAddr tf + c) := by
    apply ByteMem.loadWord_congr
    intro i hi
    rw [BitVec.add_assoc]
    apply hret.frame
    rw [BitVec.toNat_add]
    omega
  have hapart : ∀ x : Word, 4 ≤ x.toNat → x.toNat ≤ 8 →
      Apart (utfAddr tf + c) (utfAddr tf - x) := by
    intro x hx hx'
    rw [BitVec.sub_eq_add_neg]
    apply apart_add
    unfold Apart
    rw [BitVec.toNat_sub, BitVec.toNat_sub, BitVec.toNat_neg]
    omega
  rw [hsame, hmem, callMem, ByteMem.loadWord_storeWord_of_apart
    (hapart 8#32 (by decide) (by decide)), ByteMem.loadWord_storeWord_of_apart
    (hapart 4#32 (by decide) (by decide))]
  exact loadWord_frame m c w hx

theorem popf_restores {fl fl' old : Word} (h : fl &&& ~~~AFLAGS = fl' &&& ~~~AFLAGS)
    (h' : fl' &&& ~~~UFLAGS = old &&& ~~~UFLAGS) :
    fl &&& ~~~UFLAGS ||| old &&& UFLAGS = old := by
  have hsub : ~~~UFLAGS = ~~~AFLAGS &&& ~~~UFLAGS := by decide
  have hsys : fl &&& ~~~UFLAGS = old &&& ~~~UFLAGS := by
    rw [← h', hsub, ← BitVec.and_assoc, ← BitVec.and_assoc, h]
  rw [hsys]
  ext i hi
  simp only [BitVec.getElem_or, BitVec.getElem_and, BitVec.getElem_not]
  cases old[i] <;> cases UFLAGS[i] <;> rfl

theorem Setting.loadWord_returnMem (h : Setting W tf) {c : Word} (hc : c.toNat ≤ 44)
    (eip : Word) :
    (returnMem m (utfAddr tf) tf.tfEsp eip).loadWord (utfAddr tf + c) =
      m.loadWord (utfAddr tf + c) := by
  have h48 : Apart (utfAddr tf + c) (utfAddr tf + 48#32) := by
    apply apart_add
    apply apart_of_le
    · simp only [BitVec.toNat_ofNat]
      omega
    · decide
  rw [returnMem, ByteMem.loadWord_storeWord_of_apart h48,
    ByteMem.loadWord_storeWord_of_apart (h.scratch_apart (by omega) (.inr hc))]

theorem Setting.untouched_return (h : Setting W tf) (eip : Word) :
    Untouched tf m (returnMem m (utfAddr tf) tf.tfEsp eip) := by
  obtain ⟨h1, h2, h3⟩ := h.bounds
  have hadd := h.toNat_utf_add (c := 48#32) (by decide)
  simp only [BitVec.toNat_ofNat] at hadd
  exact (Untouched.storeScratch eip).trans (Untouched.storeWord _ (by omega) (by omega))

/-- From the return of the handler on: all but `eip` is restored. -/
theorem Setting.comeBack [DecidablePred W] (alu : Word → Word → Word) (h : Setting W tf)
    {s s' : UState} (hesp : s.esp = utfAddr tf - 8#32) (hfl : s.eflags = tf.tfEflags)
    (hmem : s.mem = callMem (m.storeWords (uxFrame tf faultVa).2) (utfAddr tf) next)
    (hret : Returns next (utfAddr tf) s s') :
    ∃ t, exec W alu stubReturn s' = some t ∧ t.regs.general = tf.tfRegs.general ∧
      t.eflags = tf.tfEflags ∧ t.esp = tf.tfEsp ∧ Untouched tf s'.mem t.mem ∧
      t.eip = (returnMem s'.mem (utfAddr tf) tf.tfEsp tf.tfEip).loadWord (tf.tfEsp - 4#32) := by
  have hword := frame_kept hmem hret
  obtain ⟨h1, h2, h3⟩ := h.bounds
  have hadd := h.toNat_utf_add (c := 48#32) (by decide)
  simp only [BitVec.toNat_ofNat] at hadd
  have hesp' : s'.esp = utfAddr tf - 4#32 := by
    rw [hret.esp, hesp]
    bv_omega
  obtain ⟨t, fl, hexec, htmem, hregs, hflags, hfl', heip, htesp⟩ := exec_stubReturn alu hesp'
    (hword 48#32 tf.tfEsp (by simp [frameWords])) (hword 40#32 tf.tfEip (by simp [frameWords]))
    h.scratch (h.writable (by omega) (by omega))
  -- the frame is read back from the memory after the two stores
  have hback : ∀ c w : Word, (c, w) ∈ frameWords tf faultVa → c.toNat ≤ 44 →
      t.mem.loadWord (utfAddr tf + c) = w := by
    intro c w hcw hle
    rw [htmem, h.loadWord_returnMem hle, hword c w hcw]
  have hreg : ∀ c : Word, c.toNat ≤ 28 → ∀ w, (8#32 + c, w) ∈ frameWords tf faultVa →
      t.mem.loadWord (utfAddr tf + 8#32 + c) = w := by
    intro c hc w hw
    rw [BitVec.add_assoc]
    refine hback (8#32 + c) w hw ?_
    rw [BitVec.toNat_add]
    simp only [BitVec.toNat_ofNat]
    omega
  refine ⟨t, hexec, ?_, ?_, htesp, ?_, by rw [heip, htmem]⟩
  · have hedi := hreg 0#32 (by decide) tf.tfRegs.regEdi (by simp [frameWords])
    rw [BitVec.add_zero] at hedi
    rw [hregs]
    simp only [popRegs, PushRegs.general, hedi,
      hreg 4#32 (by decide) tf.tfRegs.regEsi (by simp [frameWords]),
      hreg 8#32 (by decide) tf.tfRegs.regEbp (by simp [frameWords]),
      hreg 16#32 (by decide) tf.tfRegs.regEbx (by simp [frameWords]),
      hreg 20#32 (by decide) tf.tfRegs.regEdx (by simp [frameWords]),
      hreg 24#32 (by decide) tf.tfRegs.regEcx (by simp [frameWords]),
      hreg 28#32 (by decide) tf.tfRegs.regEax (by simp [frameWords])]
  · rw [hflags, hback 44#32 tf.tfEflags (by simp [frameWords]) (by decide)]
    exact popf_restores hfl' (hret.flags.trans (by rw [hfl]))
  · rw [htmem]
    exact h.untouched_return _

/-- `ret` finds the trap-time `eip`, unless the stub has stored `utf_esp` over it. -/
theorem Setting.return_eip (h : Setting W tf) :
    (returnMem m (utfAddr tf) tf.tfEsp tf.tfEip).loadWord (tf.tfEsp - 4#32) =
      if tf.tfEsp = UXSTACKTOP then UXSTACKTOP - 4#32 else tf.tfEip := by
  split_ifs with htop
  · have hux : ¬ OnUxStack tf.tfEsp := by rw [htop]; decide
    have haddr : utfAddr tf + 48#32 = tf.tfEsp - 4#32 := by
      rw [utfAddr, if_neg hux, htop]
      decide
    rw [returnMem, haddr, ByteMem.loadWord_storeWord, htop]
  · have hapart := (h.scratch_apart (c := 48#32) (by decide) (.inl htop)).symm
    rw [returnMem, ByteMem.loadWord_storeWord_of_apart hapart, ByteMem.loadWord_storeWord]

/-! ## Nested faults -/

theorem Untouched.above {m m' : ByteMem} (h : Untouched tf m m') (hset : Setting W tf)
    (hux : OnUxStack tf.tfEsp) {x : Word} (hx : ¬ (UXSTACKBASE ≤ x ∧ x < tf.tfEsp)) :
    m' x = m x := by
  have htop : uxTop tf = tf.tfEsp := if_pos hux
  rw [← htop] at hx
  have hfits := hset.fits_toNat hux
  have hsub := toNat_sub_of_le (a := tf.tfEsp) (c := 4#32)
    (by simp only [BitVec.toNat_ofNat]; omega)
  simp only [BitVec.toNat_ofNat] at hsub
  refine h x hx (far_of_outside ?_ ?_ hx)
  · omega
  · rw [htop]
    omega

section Nested

variable (W : Word → Prop) [DecidablePred W] (alu : Word → Word → Word) (upcall var next : Word)

/-- A handler at work, from the state it is called in. Its own instructions leave the bytes of
`keep` alone. It may fault on the exception stack, as long as those bytes lie above the stack
pointer; the upcall then runs the handler once more, to any depth. -/
inductive HandlerRun (keep : Word → Prop) : UState → UState → Prop
  | done (s : UState) : HandlerRun keep s s
  | instr {s s' t : UState} (hkeep : ∀ x, keep x → s'.mem x = s.mem x)
      (rest : HandlerRun keep s' t) : HandlerRun keep s t
  | fault {s s₁ s₂ s₃ t : UState} {tf : Trapframe} {faultVa : Word} (hset : Setting W tf)
      (hux : OnUxStack tf.tfEsp) (habove : ∀ x, keep x → ¬ (UXSTACKBASE ≤ x ∧ x < tf.tfEsp))
      (hcall : exec W alu (stubCall var next) (enterUpcall tf faultVa upcall s.mem) = some s₁)
      (inner : HandlerRun keep s₁ s₂) (hret : Returns next (utfAddr tf) s₁ s₂)
      (hback : exec W alu stubReturn s₂ = some s₃) (rest : HandlerRun keep s₃ t) :
      HandlerRun keep s t

variable {W alu upcall var next}

/-- Nested faults leave the frames above them intact. -/
theorem HandlerRun.intact {keep : Word → Prop} {s t : UState}
    (hrun : HandlerRun W alu upcall var next keep s t) :
    ∀ x, keep x → t.mem x = s.mem x := by
  induction hrun with
  | done s => exact fun _ _ => rfl
  | instr hkeep _ ih => exact fun x hx => (ih x hx).trans (hkeep x hx)
  | @fault s s₁ s₂ s₃ t tf faultVa hset hux habove hcall inner hret hback rest ihInner ihRest =>
    intro x hx
    have hout := habove x hx
    obtain ⟨s₁', hcall', hesp, hfl, hmem⟩ := hset.call alu faultVa upcall var next s.mem
    rw [hcall] at hcall'
    cases hcall'
    obtain ⟨s₃', hback', -, -, -, hunt, -⟩ := hset.comeBack alu hesp hfl hmem hret
    rw [hback] at hback'
    cases hback'
    calc t.mem x = s₃.mem x := ihRest x hx
      _ = s₂.mem x := hunt.above hset hux hout
      _ = s₁.mem x := ihInner x hx
      _ = (s.mem.storeWords (uxFrame tf faultVa).2) x := by
        rw [hmem]
        exact hset.untouched_call.above hset hux hout
      _ = s.mem x := (hset.untouched_frame s.mem).above hset hux hout

end Nested

/-! ## The round trip -/

section RoundTrip

variable [DecidablePred W] {alu : Word → Word → Word}

/-- Whether the round trip succeeds depends on the return address alone. -/
theorem Setting.roundTrip_of_eip (h : Setting W tf)
    (heip : tf.tfEsp = UXSTACKTOP → tf.tfEip = UXSTACKTOP - 4#32) :
    RoundTrip W alu tf faultVa upcall var next m := by
  obtain ⟨s, hexec, hesp, hfl, hmem⟩ := h.call alu faultVa upcall var next m
  refine ⟨h.untouched_frame m, s, hexec, ?_, ?_⟩
  · rw [hmem]
    exact h.untouched_call
  · intro s' hret
    rw [uxFrame_fst] at hret
    obtain ⟨t, hexec', hregs, hflags, htesp, hunt, hteip⟩ := h.comeBack alu hesp hfl hmem hret
    refine ⟨t, hexec', ⟨hregs, hflags, ?_, htesp⟩, hunt⟩
    rw [hteip, h.return_eip]
    split_ifs with htop
    · exact (heip htop).symm
    · rfl

theorem returns_at_once {s : UState} (utf : Word) :
    Returns next utf s { s with eip := next, esp := s.esp + 4#32 } :=
  ⟨rfl, rfl, rfl, fun _ _ => rfl⟩

theorem Setting.eip_of_roundTrip (h : Setting W tf)
    (hrt : RoundTrip W alu tf faultVa upcall var next m) (htop : tf.tfEsp = UXSTACKTOP) :
    tf.tfEip = UXSTACKTOP - 4#32 := by
  obtain ⟨-, s, hexec, -, hall⟩ := hrt
  obtain ⟨s₁, hexec₁, hesp, hfl, hmem⟩ := h.call alu faultVa upcall var next m
  rw [hexec] at hexec₁
  cases hexec₁
  obtain ⟨t, hexec', hres, -⟩ := hall _ (returns_at_once _)
  obtain ⟨t₁, hexec₁', -, -, -, -, hteip⟩ :=
    h.comeBack alu hesp hfl hmem (returns_at_once (utfAddr tf))
  rw [hexec'] at hexec₁'
  cases hexec₁'
  rw [← hres.eip, hteip, h.return_eip, if_pos htop]

theorem upcall_round_trip (h : Setting W tf) (alu : Word → Word → Word)
    (faultVa upcall pgfaultHandler next : Word) (m : ByteMem) :
    RoundTrip W alu tf faultVa upcall pgfaultHandler next m ↔
      ¬ (tf.tfEsp = UXSTACKTOP ∧ tf.tfEip ≠ UXSTACKTOP - 4#32) := by
  constructor
  · rintro hrt ⟨htop, hne⟩
    exact hne (h.eip_of_roundTrip hrt htop)
  · intro hcond
    apply h.roundTrip_of_eip
    intro htop
    by_contra hne
    exact hcond ⟨htop, hne⟩

end RoundTrip

/-- A program that may write everywhere below `UTOP`. -/
def belowTop (x : Word) : Prop := x < UTOP

instance : DecidablePred belowTop := fun x => by unfold belowTop; infer_instance

/-- A recursive fault with a misaligned stack pointer. -/
def recursiveTf : Trapframe :=
  { tfRegs := { regEax := 7#32, regEbp := 9#32 }
    tfEip := 0x800020#32, tfEflags := 0x246#32, tfEsp := 0xEEBFFF01#32 }

theorem setting_recursiveTf : Setting belowTop recursiveTf where
  below_top _ h := h
  exception_page _ _ h := h
  scratch := by decide
  fits _ := by decide

theorem upcall_round_trip_recursive :
    RoundTrip belowTop (fun _ _ => 0) recursiveTf 0xdeadbeef#32 0x800100#32 0x802000#32 0x800108#32
      (fun _ => 0) :=
  (upcall_round_trip setting_recursiveTf (fun _ _ => 0) 0xdeadbeef#32 0x800100#32 0x802000#32
    0x800108#32 (fun _ => 0)).2 (by decide)

/-- A fault with the exception stack empty. -/
def emptyUxTf : Trapframe :=
  { tfEip := 0x800020#32, tfEflags := 0x246#32, tfEsp := UXSTACKTOP }

theorem setting_emptyUxTf : Setting belowTop emptyUxTf where
  below_top _ h := h
  exception_page _ _ h := h
  scratch := by decide
  fits h := absurd h (by decide)

theorem upcall_loses_eip :
    Setting belowTop emptyUxTf ∧
      ¬ RoundTrip belowTop (fun _ _ => 0) emptyUxTf 0xdeadbeef#32 0x800100#32 0x802000#32
        0x800108#32 (fun _ => 0) :=
  ⟨setting_emptyUxTf, fun hrt =>
    absurd (setting_emptyUxTf.eip_of_roundTrip hrt rfl) (by decide)⟩

end Jos
