import Jos.Upcall
import Jos.Lib.Stack

/-!
# Into the kernel and back

What happens between a user program and the C function `trap`: the processor goes through a gate of
the interrupt descriptor table, the stub of `kern/trapentry.S` completes a `struct Trapframe` on the
kernel stack, and on the way back `env_pop_tf` loads the registers from one.

**The processor** (`CpuState`) has the registers that a trap frame is about, and the kernel part of
memory, byte by byte. `pad` says what a push leaves above a 16-bit selector, which differs between
processors. RF is not part of `eflags`: it only says whether the next instruction may raise a debug
exception, and no program can read it.

**Events** are what makes a processor in user mode enter the kernel: `int n`, an exception, or an
interrupt from outside. An `int n` is checked against the gate's privilege level and becomes a
general protection fault if the check fails. An exception pushes an error code if the processor
manual says so for its vector.

**The result.** The frame that `trap` reads holds the registers of the program, unless the event is
an alignment check: `vect17` pushes an error code of its own below the processor's. `env_pop_tf` is
the inverse of this on every frame with user segments, up to `fs` and `gs`, which no frame holds.
-/

namespace Jos

open Lib

/-! ## Descriptors -/

/-- An interrupt vector. -/
abbrev IntVec := Fin 256

def GD_KD : BitVec 16 := 0x10#16

def FL_TF : Word := 0x100#32
def FL_NT : Word := 0x4000#32
def FL_VM : Word := 0x20000#32
def FL_IOPL_MASK : Word := 0x3000#32

def STS_IG32 : BitVec 4 := 0xE#4
def STS_TG32 : BitVec 4 := 0xF#4

def DPL_KERN : BitVec 2 := 1#2
def DPL_USER : BitVec 2 := 3#2
def TRAP_N : Bool := false

def T_GPFLT : IntVec := 13
def T_ALIGN : IntVec := 17

/-- `IRQ_OFFSET + IRQ_TIMER`. -/
def timerVec : IntVec := 32

/-- `struct Gatedesc`. -/
structure Gatedesc where
  gdOff15_0 : BitVec 16
  gdSel : BitVec 16
  gdArgs : BitVec 5
  gdRsv1 : BitVec 3
  gdType : BitVec 4
  gdS : BitVec 1
  gdDpl : BitVec 2
  gdP : BitVec 1
  gdOff31_16 : BitVec 16

/-- The bit fields in memory, from the top. -/
def Gatedesc.raw (g : Gatedesc) : BitVec 64 :=
  g.gdOff31_16 ++ g.gdP ++ g.gdDpl ++ g.gdS ++ g.gdType ++ g.gdRsv1 ++ g.gdArgs ++ g.gdSel ++
    g.gdOff15_0

/-- `SETGATE`. -/
def SETGATE (istrap : Bool) (sel : BitVec 16) (off : Word) (dpl : BitVec 2) : Gatedesc where
  gdOff15_0 := (off &&& 0xffff#32).setWidth 16
  gdSel := sel
  gdArgs := 0
  gdRsv1 := 0
  gdType := if istrap then STS_TG32 else STS_IG32
  gdS := 0
  gdDpl := dpl
  gdP := 1
  gdOff31_16 := (off >>> 16).setWidth 16

/-- An interrupt or trap gate as the processor reads it. -/
structure Gate where
  offset : Word
  sel : BitVec 16
  dpl : BitVec 2
  clearsIf : Bool
  deriving DecidableEq

/-- The processor's reading of a descriptor; `none` is one that is not present, or no gate. -/
def Gate.decode (raw : BitVec 64) : Option Gate :=
  if raw.extractLsb' 47 1 = 1#1 ∧ raw.extractLsb' 44 1 = 0#1 ∧ raw.extractLsb' 41 3 = 0b111#3 ∧
      raw.extractLsb' 37 3 = 0#3 then
    some
      { offset := raw.extractLsb' 48 16 ++ raw.extractLsb' 0 16
        sel := raw.extractLsb' 16 16
        dpl := raw.extractLsb' 45 2
        clearsIf := raw.extractLsb' 40 1 = 0#1 }
  else none

/-- `idt` after `trap_init`; `vects` are the addresses of the stubs. -/
def trapInit (vects : IntVec → Word) (idt : IntVec → Gatedesc) : IntVec → Gatedesc :=
  let idt := (List.finRange 256).foldl
    (fun idt i => Function.update idt i (SETGATE TRAP_N GD_KT (vects i) DPL_KERN)) idt
  let idt := Function.update idt 48 (SETGATE TRAP_N GD_KT (vects 48) DPL_USER)
  Function.update idt 3 (SETGATE TRAP_N GD_KT (vects 3) DPL_USER)

/-- The kind of a segment, and its privilege level. -/
inductive Segment
  | code (dpl : Nat)
  | data (dpl : Nat)
  | tss
  deriving DecidableEq

/-- `gdt`, once every CPU has set its task segment. All bases are 0 and all limits 4 GB. -/
def gdt : List (Option Segment) :=
  [none, some (.code 0), some (.data 0), some (.code 3), some (.data 3)] ++
    List.replicate 8 (some .tss)

/-- The segment that a selector names. There is no local table. -/
def segment (sel : BitVec 16) : Option Segment :=
  if sel &&& 4#16 = 0#16 then (gdt[(sel >>> 3).toNat]?).join else none

/-- The requested privilege level of a selector. -/
def rpl (sel : BitVec 16) : Nat := (sel &&& 3#16).toNat

/-- A data segment register can be loaded with `sel` at privilege level `cpl`. -/
def Loadable (cpl : Nat) (sel : BitVec 16) : Prop :=
  sel &&& ~~~3#16 = 0#16 ∨
    ∃ dpl ≤ 3, (segment sel = some (.code dpl) ∨ segment sel = some (.data dpl)) ∧
      cpl ≤ dpl ∧ rpl sel ≤ dpl

instance (cpl : Nat) (sel : BitVec 16) : Decidable (Loadable cpl sel) := by
  unfold Loadable; infer_instance

/-! ## The processor -/

/-- The registers, and the memory of the kernel. -/
structure CpuState where
  regs : PushRegs
  esp : Word
  eip : Word
  eflags : Word
  cs : BitVec 16
  ds : BitVec 16
  es : BitVec 16
  ss : BitVec 16
  fs : BitVec 16
  gs : BitVec 16
  mem : ByteMem

/-- What `lidt` and `ltr` have told the processor. -/
structure Tables where
  idt : IntVec → Gatedesc
  tsEsp0 : Word
  tsSs0 : BitVec 16

/-- What makes a processor in user mode enter the kernel. `next` is the address of the instruction
after the `int`. -/
inductive Event
  | int (n : IntVec) (next : Word)
  | exn (v : IntVec) (err : Word)
  | irq (v : IntVec)

/-- The exceptions with an error code. -/
def PushesCode (v : IntVec) : Prop := v ∈ ([8, 10, 11, 12, 13, 14, 17] : List IntVec)

instance (v : IntVec) : Decidable (PushesCode v) := by unfold PushesCode; infer_instance

/-- Exceptions have the first 32 vectors, and `pic_init` gives the interrupts the ones from
`IRQ_OFFSET` on. -/
def Event.Possible : Event → Prop
  | .int _ _ => True
  | .exn v _ => v < 32
  | .irq v => 32 ≤ v

instance (ev : Event) : Decidable ev.Possible :=
  match ev with
  | .int _ _ => instDecidableTrue
  | .exn v _ => inferInstanceAs (Decidable (v < 32))
  | .irq v => inferInstanceAs (Decidable (32 ≤ v))

section Machine

variable (pad : Word → BitVec 16)

namespace CpuState

def push (s : CpuState) (w : Word) : CpuState :=
  { s with esp := s.esp - 4#32, mem := s.mem.storeWord (s.esp - 4#32) w }

def pushSel (s : CpuState) (sel : BitVec 16) : CpuState := s.push (pad (s.esp - 4#32) ++ sel)

/-- Go through the gate of vector `v`. From user mode, this switches to the kernel stack. -/
def enter (T : Tables) (s : CpuState) (v : IntVec) (err : Option Word) : Option CpuState :=
  match Gate.decode (T.idt v).raw with
  | none => none
  | some g =>
    let t :=
      if s.cs &&& 3 = 0 then s
      else (({ s with esp := T.tsEsp0, ss := T.tsSs0 }.pushSel pad s.ss).push s.esp)
    let t := ((t.push s.eflags).pushSel pad s.cs).push s.eip
    let t := match err with
      | none => t
      | some w => t.push w
    some { t with
      cs := g.sel
      eip := g.offset
      eflags := s.eflags &&& ~~~(FL_TF ||| FL_NT ||| FL_VM ||| if g.clearsIf then FL_IF else 0) }

/-- The processor's reaction to an event, with the vector it comes to. -/
def raise (T : Tables) (s : CpuState) : Event → Option (IntVec × CpuState)
  | .int n next =>
    match Gate.decode (T.idt n).raw with
    | none => none
    | some g =>
      if g.dpl.toNat < rpl s.cs then
        (s.enter pad T T_GPFLT (some (BitVec.ofNat 32 (8 * n + 2)))).map (T_GPFLT, ·)
      else ({ s with eip := next }.enter pad T n none).map (n, ·)
  | .exn v err => (s.enter pad T v (if PushesCode v then some err else none)).map (v, ·)
  | .irq v => (s.enter pad T v none).map (v, ·)

end CpuState

end Machine

/-! ## `kern/trapentry.S` and `env_pop_tf` -/

/-- The segment registers that a trap frame holds. -/
inductive SegReg
  | ds
  | es

def SegReg.get (s : CpuState) : SegReg → BitVec 16
  | .ds => s.ds
  | .es => s.es

def SegReg.set (s : CpuState) (v : BitVec 16) : SegReg → CpuState
  | .ds => { s with ds := v }
  | .es => { s with es := v }

/-- The instructions of the two files. `call` carries its target and the return address. -/
inductive KInstr
  | pushl (imm : Word)
  | pushlSeg (r : SegReg)
  | pushal
  | movwAx (imm : BitVec 16)
  | movwSeg (r : SegReg)
  | pushlEsp
  | call (target next : Word)
  | movlEsp (imm : Word)
  | popal
  | poplSeg (r : SegReg)
  | addlEsp (imm : Word)
  | iret

/-- The bits of `eflags` that `iret` loads at level 0. The others are fixed: bit 1 is set. -/
def EFLAGS_RW : Word := 0x3C7FD5#32

/-- A data segment register after a return to level 3. -/
def dropSegment (sel : BitVec 16) : BitVec 16 := if Loadable 3 sel then sel else 0

section Exec

variable (pad : Word → BitVec 16)

/-- `iret` from level 0 to level 3; `none` if it faults. -/
def CpuState.iret (s : CpuState) : Option CpuState :=
  let cs := (s.mem.loadWord (s.esp + 4#32)).setWidth 16
  let eflags := s.mem.loadWord (s.esp + 8#32)
  let ss := (s.mem.loadWord (s.esp + 16#32)).setWidth 16
  if s.eflags &&& FL_NT = 0 ∧ eflags &&& FL_VM = 0 ∧ segment cs = some (.code 3) ∧ rpl cs = 3 ∧
      segment ss = some (.data 3) ∧ rpl ss = 3 then
    some { s with
      eip := s.mem.loadWord s.esp
      cs := cs
      eflags := eflags &&& EFLAGS_RW ||| 2#32
      esp := s.mem.loadWord (s.esp + 12#32)
      ss := ss
      ds := dropSegment s.ds
      es := dropSegment s.es
      fs := dropSegment s.fs
      gs := dropSegment s.gs }
  else none

/-- Execute one instruction at level 0; `none` is a fault. -/
def KInstr.step (s : CpuState) : KInstr → Option CpuState
  | .pushl imm => some (s.push imm)
  | .pushlSeg r => some (s.pushSel pad (r.get s))
  | .pushal =>
    some ((((((((s.push s.regs.regEax).push s.regs.regEcx).push s.regs.regEdx).push
      s.regs.regEbx).push s.esp).push s.regs.regEbp).push s.regs.regEsi).push s.regs.regEdi)
  | .movwAx imm =>
    some { s with regs := { s.regs with
      regEax := s.regs.regEax &&& 0xFFFF0000#32 ||| imm.setWidth 32 } }
  | .movwSeg r =>
    let sel := s.regs.regEax.setWidth 16
    if Loadable 0 sel then some (r.set s sel) else none
  | .pushlEsp => some (s.push s.esp)
  | .call target next => some { s.push next with eip := target }
  | .movlEsp imm => some { s with esp := imm }
  | .popal =>
    some { s with
      regs :=
        { regEdi := s.mem.loadWord s.esp
          regEsi := s.mem.loadWord (s.esp + 4#32)
          regEbp := s.mem.loadWord (s.esp + 8#32)
          regOesp := s.regs.regOesp
          regEbx := s.mem.loadWord (s.esp + 16#32)
          regEdx := s.mem.loadWord (s.esp + 20#32)
          regEcx := s.mem.loadWord (s.esp + 24#32)
          regEax := s.mem.loadWord (s.esp + 28#32) }
      esp := s.esp + 32#32 }
  | .poplSeg r =>
    let sel := (s.mem.loadWord s.esp).setWidth 16
    if Loadable 0 sel then some { r.set s sel with esp := s.esp + 4#32 } else none
  | .addlEsp imm => some { s with esp := s.esp + imm }
  | .iret => s.iret

/-- Execute instructions in order. -/
def kexec : List KInstr → CpuState → Option CpuState
  | [], s => some s
  | i :: is, s => (i.step pad s).bind (kexec is)

end Exec

/-- The vectors that `trapentry.S` defines with `TRAPHANDLER`. -/
def HasCode (v : IntVec) : Prop := v ∈ ([8, 10, 11, 12, 13, 14] : List IntVec)

instance (v : IntVec) : Decidable (HasCode v) := by unfold HasCode; infer_instance

/-- `vect0` to `vect255`: `TRAPHANDLER`, or `TRAPHANDLER_NOEC` with its fake error code. -/
def vect (v : IntVec) : List KInstr :=
  if HasCode v then [.pushl (BitVec.ofNat 32 v)] else [.pushl 0, .pushl (BitVec.ofNat 32 v)]

/-- `_alltraps`; `next` is the address after its last instruction. -/
def alltraps (trap next : Word) : List KInstr :=
  [.pushlSeg .ds, .pushlSeg .es, .pushal,
   .movwAx GD_KD, .movwSeg .ds, .movwSeg .es,
   .pushlEsp, .call trap next]

/-- The assembly of `env_pop_tf`. -/
def popTf (tf : Word) : List KInstr :=
  [.movlEsp tf, .popal, .poplSeg .es, .poplSeg .ds, .addlEsp 8#32, .iret]

/-- From the event to the first instruction of `trap`. -/
def enterTrap (pad : Word → BitVec 16) (T : Tables) (trap next : Word) (ev : Event)
    (s : CpuState) : Option CpuState :=
  (s.raise pad T ev).bind fun r => kexec pad (vect r.1 ++ alltraps trap next) r.2

/-! ## Trap frames -/

/-- The `struct Trapframe` at `a`. -/
def trapframeAt (m : ByteMem) (a : Word) : Trapframe where
  tfRegs :=
    { regEdi := m.loadWord a
      regEsi := m.loadWord (a + 4#32)
      regEbp := m.loadWord (a + 8#32)
      regOesp := m.loadWord (a + 12#32)
      regEbx := m.loadWord (a + 16#32)
      regEdx := m.loadWord (a + 20#32)
      regEcx := m.loadWord (a + 24#32)
      regEax := m.loadWord (a + 28#32) }
  tfEs := (m.loadWord (a + 32#32)).setWidth 16
  tfDs := (m.loadWord (a + 36#32)).setWidth 16
  tfTrapno := m.loadWord (a + 40#32)
  tfErr := m.loadWord (a + 44#32)
  tfEip := m.loadWord (a + 48#32)
  tfCs := (m.loadWord (a + 52#32)).setWidth 16
  tfEflags := m.loadWord (a + 56#32)
  tfEsp := m.loadWord (a + 60#32)
  tfSs := (m.loadWord (a + 64#32)).setWidth 16

/-- The frame of a program in state `s`. `reg_oesp` is of no use. -/
def CpuState.frame (s : CpuState) (oesp : Word) (v : IntVec) (err : Word) : Trapframe where
  tfRegs := { s.regs with regOesp := oesp }
  tfEs := s.es
  tfDs := s.ds
  tfTrapno := BitVec.ofNat 32 v
  tfErr := err
  tfEip := s.eip
  tfCs := s.cs
  tfEflags := s.eflags
  tfEsp := s.esp
  tfSs := s.ss

/-- What `trap` finds after an alignment check. The fields from `tf_err` on hold the words that
belong one field further down; `hi` is what the push of `cs` left above it. -/
def CpuState.shiftedFrame (s : CpuState) (oesp : Word) (err : Word) (hi : BitVec 16) :
    Trapframe where
  tfRegs := { s.regs with regOesp := oesp }
  tfEs := s.es
  tfDs := s.ds
  tfTrapno := BitVec.ofNat 32 T_ALIGN
  tfErr := 0
  tfEip := err
  tfCs := s.eip.setWidth 16
  tfEflags := hi ++ s.cs
  tfEsp := s.eflags
  tfSs := s.esp.setWidth 16

/-- The vectors that a program may call with `int`. -/
def Callable (n : IntVec) : Prop := n = 3 ∨ n = 48

instance (n : IntVec) : Decidable (Callable n) := by unfold Callable; infer_instance

namespace Event

/-- The vector that an event in user mode comes to. -/
def vector : Event → IntVec
  | .int n _ => if Callable n then n else T_GPFLT
  | .exn v _ => v
  | .irq v => v

/-- The error code of an event. -/
def err : Event → Word
  | .int n _ => if Callable n then 0 else BitVec.ofNat 32 (8 * n + 2)
  | .exn v err => if PushesCode v then err else 0
  | .irq _ => 0

/-- Where the program goes on. -/
def resumeAt (eip : Word) : Event → Word
  | .int n next => if Callable n then next else eip
  | _ => eip

/-- The program as the event interrupts it. -/
def saved (s : CpuState) (ev : Event) : CpuState := { s with eip := ev.resumeAt s.eip }

end Event

/-- A processor that runs a user program. -/
structure InUser (s : CpuState) : Prop where
  cs : s.cs = GD_UT ||| 3
  ss : s.ss = GD_UD ||| 3
  ds : Loadable 3 s.ds
  es : Loadable 3 s.es
  fixed : s.eflags &&& ~~~EFLAGS_RW = 2#32
  interruptible : s.eflags &&& FL_IF ≠ 0
  iopl : s.eflags &&& FL_IOPL_MASK = 0

/-- The processor has entered `trap` with the address `tf`, on the kernel stack of `T`. -/
structure AtTrap (T : Tables) (trap next : Word) (s t : CpuState) (tf : Word) : Prop where
  eip : t.eip = trap
  ret : t.mem.loadWord t.esp = next
  arg : t.mem.loadWord (t.esp + 4#32) = tf
  cs : t.cs = GD_KT
  ss : t.ss = T.tsSs0
  ds : t.ds = GD_KD
  es : t.es = GD_KD
  eflags : t.eflags = s.eflags &&& ~~~(FL_TF ||| FL_NT ||| FL_VM ||| FL_IF)
  rest : t.fs = s.fs ∧ t.gs = s.gs
  mem : ∀ x, (x - T.tsEsp0).toNat < 2 ^ 32 - 80 → t.mem x = s.mem x

/-! ## The gates -/

theorem Gatedesc.fields (g : Gatedesc) :
    g.raw.extractLsb' 48 16 = g.gdOff31_16 ∧ g.raw.extractLsb' 47 1 = g.gdP ∧
      g.raw.extractLsb' 45 2 = g.gdDpl ∧ g.raw.extractLsb' 44 1 = g.gdS ∧
      g.raw.extractLsb' 41 3 = g.gdType.extractLsb' 1 3 ∧
      g.raw.extractLsb' 40 1 = g.gdType.extractLsb' 0 1 ∧ g.raw.extractLsb' 37 3 = g.gdRsv1 ∧
      g.raw.extractLsb' 16 16 = g.gdSel ∧ g.raw.extractLsb' 0 16 = g.gdOff15_0 := by
  unfold Gatedesc.raw
  refine ⟨?_, ?_, ?_, ?_, ?_, ?_, ?_, ?_, ?_⟩ <;>
    simp (disch := decide) only [BitVec.extractLsb'_append_eq_of_le,
      BitVec.extractLsb'_append_eq_of_add_le, Nat.sub_self, Nat.reduceSub,
      BitVec.extractLsb'_eq_self]

theorem offset_halves (off : Word) :
    (off >>> 16).setWidth 16 ++ (off &&& 0xffff#32).setWidth 16 = off := by
  apply BitVec.eq_of_toNat_eq
  have hoff := off.isLt
  rw [BitVec.toNat_append, BitVec.toNat_setWidth, BitVec.toNat_setWidth, BitVec.toNat_ushiftRight,
    BitVec.toNat_and, show (0xffff#32).toNat = 2 ^ 16 - 1 by rfl, Nat.and_two_pow_sub_one_eq_mod,
    Nat.mod_mod, Nat.shiftRight_eq_div_pow,
    ← Nat.shiftLeft_add_eq_or_of_lt (Nat.mod_lt _ (Nat.two_pow_pos 16)), Nat.shiftLeft_eq]
  omega

/-- **The processor reads the gate that `SETGATE` wrote.** -/
theorem decode_SETGATE (istrap : Bool) (sel : BitVec 16) (off : Word) (dpl : BitVec 2) :
    Gate.decode (SETGATE istrap sel off dpl).raw = some ⟨off, sel, dpl, !istrap⟩ := by
  obtain ⟨hhi, hp, hdpl, hs, htype, htrap, hrsv, hsel, hlo⟩ := (SETGATE istrap sel off dpl).fields
  unfold Gate.decode
  rw [hhi, hp, hdpl, hs, htype, htrap, hrsv, hsel, hlo]
  simp only [SETGATE, offset_halves]
  cases istrap <;> simp [STS_TG32, STS_IG32]

theorem trapInit_apply (vects : IntVec → Word) (idt : IntVec → Gatedesc) (v : IntVec) :
    trapInit vects idt v =
      SETGATE TRAP_N GD_KT (vects v) (if Callable v then DPL_USER else DPL_KERN) := by
  have hloop : ∀ (l : List IntVec) (idt : IntVec → Gatedesc), v ∈ l →
      l.foldl (fun idt i => Function.update idt i (SETGATE TRAP_N GD_KT (vects i) DPL_KERN)) idt v =
        SETGATE TRAP_N GD_KT (vects v) DPL_KERN := by
    intro l
    induction l using List.reverseRecOn with
    | nil => exact fun _ h => absurd h List.not_mem_nil
    | append_singleton l i ih =>
      intro idt hv
      rw [List.foldl_append, List.foldl_cons, List.foldl_nil]
      by_cases hi : v = i
      · subst hi
        exact Function.update_self _ _ _
      · rw [Function.update_of_ne hi]
        exact ih idt ((List.mem_append.1 hv).resolve_right fun h => hi (List.mem_singleton.1 h))
  unfold trapInit
  by_cases h3 : v = 3
  · subst h3
    rw [Function.update_self]
    rfl
  rw [Function.update_of_ne h3]
  by_cases h48 : v = 48
  · subst h48
    rw [Function.update_self]
    rfl
  rw [Function.update_of_ne h48, hloop _ _ (List.mem_finRange v), if_neg]
  rintro (h | h)
  · exact h3 h
  · exact h48 h

/-! ## The kernel stack -/

/-- The words on the kernel stack at the entry of `trap`, in the order in which they are pushed.
`codes` are the processor's error code and the stub's. -/
def entryWords (pad : Word → BitVec 16) (T : Tables) (s : CpuState) (codes : List Word)
    (v : IntVec) (next : Word) : List Word :=
  let sp := T.tsEsp0 - BitVec.ofNat 32 (4 * codes.length)
  [pad (T.tsEsp0 - 4#32) ++ s.ss, s.esp, s.eflags, pad (T.tsEsp0 - 16#32) ++ s.cs, s.eip] ++
    codes ++
    [BitVec.ofNat 32 v, pad (sp - 28#32) ++ s.ds, pad (sp - 32#32) ++ s.es,
      s.regs.regEax, s.regs.regEcx, s.regs.regEdx, s.regs.regEbx, sp - 32#32, s.regs.regEbp,
      s.regs.regEsi, s.regs.regEdi, sp - 64#32, next]

/-- The processor's error code. -/
def Event.cpuCode (ev : Event) : Option Word :=
  if PushesCode ev.vector then some ev.err else none

/-- The error codes on the stack. Only an alignment check leaves two. -/
def Event.codes (ev : Event) : List Word := if ev.vector = T_ALIGN then [ev.err, 0] else [ev.err]

/-- The frame that `trap` finds after an event. -/
def Event.frame (pad : Word → BitVec 16) (T : Tables) (s : CpuState) (ev : Event) : Trapframe :=
  if ev.vector = T_ALIGN then
    (ev.saved s).shiftedFrame (T.tsEsp0 - 40#32) ev.err (pad (T.tsEsp0 - 16#32))
  else (ev.saved s).frame (T.tsEsp0 - 36#32) ev.vector ev.err

/-! ## A processor to interrupt -/

/-- A linker's choice of addresses for the stubs. -/
def someVects (v : IntVec) : Word := 0xF0103A00#32 + BitVec.ofNat 32 (6 * v)

/-- CPU 0. -/
def someTables : Tables where
  idt := trapInit someVects fun _ => ⟨0, 0, 0, 0, 0, 0, 0, 0, 0⟩
  tsEsp0 := 0xEFC00000#32
  tsSs0 := GD_KD

/-- A program that has turned alignment checks on. -/
def someProgram : CpuState where
  regs := { regEax := 7#32, regEsi := 0x803001#32 }
  esp := 0xEEBFDF80#32
  eip := 0x800034#32
  eflags := 0x40246#32
  cs := 0x1B#16
  ds := 0x23#16
  es := 0x23#16
  ss := 0x23#16
  fs := 0x23#16
  gs := 0#16
  mem := fun _ => 0

theorem inUser_someProgram : InUser someProgram := by
  constructor <;> decide

/-! ## Entering the kernel -/

section Entry

variable {pad : Word → BitVec 16} {T : Tables} {trap next : Word} {s : CpuState}

@[simp] theorem push_esp (s : CpuState) (w : Word) : (s.push w).esp = s.esp - 4#32 := rfl
@[simp] theorem push_mem (s : CpuState) (w : Word) :
    (s.push w).mem = s.mem.storeWord (s.esp - 4#32) w := rfl
@[simp] theorem push_regs (s : CpuState) (w : Word) : (s.push w).regs = s.regs := rfl
@[simp] theorem push_ds (s : CpuState) (w : Word) : (s.push w).ds = s.ds := rfl
@[simp] theorem push_es (s : CpuState) (w : Word) : (s.push w).es = s.es := rfl
@[simp] theorem push_cs (s : CpuState) (w : Word) : (s.push w).cs = s.cs := rfl
@[simp] theorem push_ss (s : CpuState) (w : Word) : (s.push w).ss = s.ss := rfl
@[simp] theorem push_eip (s : CpuState) (w : Word) : (s.push w).eip = s.eip := rfl
@[simp] theorem push_eflags (s : CpuState) (w : Word) : (s.push w).eflags = s.eflags := rfl
@[simp] theorem push_fs (s : CpuState) (w : Word) : (s.push w).fs = s.fs := rfl
@[simp] theorem push_gs (s : CpuState) (w : Word) : (s.push w).gs = s.gs := rfl

theorem loadable_GD_KD : Loadable 0 GD_KD := by decide

variable (pad trap next) in
/-- **`_alltraps`.** -/
theorem kexec_alltraps (t : CpuState) : ∃ u, kexec pad (alltraps trap next) t = some u ∧
    u.mem = t.mem.pushWords t.esp [pad (t.esp - 4#32) ++ t.ds, pad (t.esp - 8#32) ++ t.es,
      t.regs.regEax, t.regs.regEcx, t.regs.regEdx, t.regs.regEbx, t.esp - 8#32, t.regs.regEbp,
      t.regs.regEsi, t.regs.regEdi, t.esp - 40#32, next] ∧
    u.mem.loadWord u.esp = next ∧ u.mem.loadWord (u.esp + 4#32) = t.esp - 40#32 ∧
    u.esp = t.esp - 48#32 ∧ u.eip = trap ∧ u.cs = t.cs ∧ u.ss = t.ss ∧ u.ds = GD_KD ∧
    u.es = GD_KD ∧ u.eflags = t.eflags ∧ u.fs = t.fs ∧ u.gs = t.gs := by
  have hax : (t.regs.regEax &&& 0xFFFF0000#32 ||| GD_KD.setWidth 32).setWidth 16 = GD_KD := by
    rw [BitVec.setWidth_or, BitVec.setWidth_and, show (0xFFFF0000#32).setWidth 16 = 0#16 by decide,
      BitVec.and_zero, BitVec.zero_or]
    decide
  simp only [alltraps, kexec, KInstr.step, CpuState.pushSel, SegReg.get, SegReg.set,
    Option.bind_some, push_regs, push_esp, push_es, hax, if_pos loadable_GD_KD]
  have h44 : t.esp - 44#32 - 4#32 + 4#32 = t.esp - 44#32 := BitVec.sub_add_cancel _ _
  have h40 : Apart (t.esp - 44#32) (t.esp - 48#32) := by
    rw [BitVec.sub_eq_add_neg, BitVec.sub_eq_add_neg t.esp]
    exact apart_add _ _ _ (by decide)
  refine ⟨_, rfl, ?_⟩
  simp only [push_mem, push_esp, push_cs, push_ss, push_ds, push_eflags, push_fs, push_gs,
    ByteMem.pushWords, BitVec.sub_sub, BitVec.reduceAdd, true_and, and_true] at h44 ⊢
  refine ⟨ByteMem.loadWord_storeWord .., ?_⟩
  rw [h44, ByteMem.loadWord_storeWord_of_apart h40, ByteMem.loadWord_storeWord]

variable (pad s) in
theorem enter_user (hs : s.cs &&& 3 ≠ 0) {v : IntVec} {g : Gate}
    (hg : Gate.decode (T.idt v).raw = some g) (err : Option Word) :
    ∃ t, s.enter pad T v err = some t ∧
      t.mem = s.mem.pushWords T.tsEsp0 ([pad (T.tsEsp0 - 4#32) ++ s.ss, s.esp, s.eflags,
        pad (T.tsEsp0 - 16#32) ++ s.cs, s.eip] ++ err.toList) ∧
      t.esp = T.tsEsp0 - 20#32 - BitVec.ofNat 32 (4 * err.toList.length) ∧ t.eip = g.offset ∧
      t.cs = g.sel ∧ t.ss = T.tsSs0 ∧
      t.eflags = s.eflags &&& ~~~(FL_TF ||| FL_NT ||| FL_VM ||| if g.clearsIf then FL_IF else 0) ∧
      t.regs = s.regs ∧ t.ds = s.ds ∧ t.es = s.es ∧ t.fs = s.fs ∧ t.gs = s.gs := by
  unfold CpuState.enter
  simp only [hg, if_neg hs, CpuState.pushSel]
  refine ⟨_, rfl, ?_, ?_, rfl, rfl, ?_, rfl, ?_, ?_, ?_, ?_, ?_⟩
  · cases err <;>
      simp only [push_mem, push_esp, Option.toList, List.append_nil, List.cons_append,
        List.nil_append, ByteMem.pushWords, BitVec.sub_sub, BitVec.reduceAdd]
  · cases err <;> simp [BitVec.sub_sub]
  all_goals cases err <;> rfl

theorem InUser.cs_ne (h : InUser s) : s.cs &&& 3 ≠ 0 := by
  rw [h.cs]
  decide

theorem InUser.rpl_cs (h : InUser s) : rpl s.cs = 3 := by
  rw [h.cs]
  decide

theorem hasCode_iff (v : IntVec) : HasCode v ↔ PushesCode v ∧ v ≠ T_ALIGN := by
  simp only [HasCode, PushesCode, T_ALIGN, List.mem_cons, List.not_mem_nil, or_false]
  constructor
  · rintro (rfl | rfl | rfl | rfl | rfl | rfl) <;> decide
  · rintro ⟨h, hne⟩
    tauto

/-- Neither interrupts nor system calls have an error code. -/
theorem PushesCode.lt {v : IntVec} (h : PushesCode v) : v < 32 ∧ ¬ Callable v := by
  simp only [PushesCode, List.mem_cons, List.not_mem_nil, or_false] at h
  rcases h with rfl | rfl | rfl | rfl | rfl | rfl | rfl <;> decide

variable {vects : IntVec → Word} {idt : IntVec → Gatedesc}

theorem decode_trapInit (hidt : T.idt = trapInit vects idt) (v : IntVec) :
    Gate.decode (T.idt v).raw =
      some ⟨vects v, GD_KT, if Callable v then DPL_USER else DPL_KERN, true⟩ := by
  rw [hidt, trapInit_apply, decode_SETGATE]
  rfl

theorem raise_user (hidt : T.idt = trapInit vects idt) (hs : InUser s) {ev : Event}
    (hev : ev.Possible) :
    s.raise pad T ev = ((ev.saved s).enter pad T ev.vector ev.cpuCode).map (ev.vector, ·) := by
  cases ev with
  | int n next =>
    simp only [CpuState.raise, decode_trapInit hidt, hs.rpl_cs]
    by_cases hn : Callable n
    · have hcode : ¬ PushesCode n := fun h => h.lt.2 hn
      rw [if_pos hn, if_neg (by decide)]
      simp only [Event.saved, Event.resumeAt, Event.vector, Event.cpuCode, if_pos hn, if_neg hcode]
    · have hcode : PushesCode T_GPFLT := by decide
      rw [if_neg hn, if_pos (by decide)]
      simp only [Event.saved, Event.resumeAt, Event.vector, Event.cpuCode, Event.err, if_neg hn,
        if_pos hcode]
  | exn v err =>
    simp only [CpuState.raise, Event.saved, Event.resumeAt, Event.vector, Event.cpuCode, Event.err]
    split_ifs <;> rfl
  | irq v =>
    have hcode : ¬ PushesCode (Event.irq v).vector := fun h => absurd h.lt.1 (not_lt.2 hev)
    rw [Event.cpuCode, if_neg hcode]
    rfl

theorem err_eq_zero {ev : Event} (h : ¬ PushesCode ev.vector) : ev.err = 0 := by
  cases ev with
  | int n next =>
    by_cases hn : Callable n
    · exact if_pos hn
    · rw [Event.vector, if_neg hn] at h
      exact absurd (by decide) h
  | exn v err => exact if_neg h
  | irq v => rfl

/-- What the processor and the stub push between `eip` and the trap number. -/
theorem codes_eq (ev : Event) :
    ev.cpuCode.toList ++ (if HasCode ev.vector then [] else [0]) = ev.codes := by
  unfold Event.codes Event.cpuCode
  by_cases hp : PushesCode ev.vector
  · rw [if_pos hp]
    by_cases ha : ev.vector = T_ALIGN
    · rw [if_pos ha, if_neg fun h => ((hasCode_iff _).1 h).2 ha]
      rfl
    · rw [if_neg ha, if_pos ((hasCode_iff _).2 ⟨hp, ha⟩)]
      rfl
  · have ha : ev.vector ≠ T_ALIGN := fun h => hp (h ▸ by decide)
    rw [if_neg hp, if_neg ha, if_neg fun h => hp ((hasCode_iff _).1 h).1, err_eq_zero hp]
    rfl

variable (pad) in
/-- The stub pushes what is missing, and `_alltraps` follows. -/
theorem kexec_vect (v : IntVec) (is : List KInstr) (t : CpuState) :
    ∃ u, kexec pad (vect v ++ is) t = kexec pad is u ∧
      u.mem = t.mem.pushWords t.esp ((if HasCode v then [] else [0]) ++ [BitVec.ofNat 32 v]) ∧
      u.esp = t.esp - BitVec.ofNat 32 (4 * (if HasCode v then [] else [(0 : Word)]).length) - 4#32 ∧
      u.eip = t.eip ∧ u.cs = t.cs ∧ u.ss = t.ss ∧ u.eflags = t.eflags ∧ u.regs = t.regs ∧
      u.ds = t.ds ∧ u.es = t.es ∧ u.fs = t.fs ∧ u.gs = t.gs := by
  unfold vect
  split_ifs
  · exact ⟨t.push (BitVec.ofNat 32 v), rfl,
      rfl, by simp, rfl, rfl, rfl, rfl, rfl, rfl, rfl, rfl, rfl⟩
  · exact ⟨(t.push 0).push (BitVec.ofNat 32 v), rfl, rfl, rfl, rfl, rfl, rfl, rfl, rfl,
      rfl, rfl, rfl, rfl⟩

variable (pad trap next) in
/-- **The kernel stack at the entry of `trap`.** -/
theorem enterTrap_words (hidt : T.idt = trapInit vects idt) (hs : InUser s) {ev : Event}
    (hev : ev.Possible) :
    ∃ t, enterTrap pad T trap next ev s = some t ∧
      t.mem = s.mem.pushWords T.tsEsp0
        (entryWords pad T (ev.saved s) ev.codes ev.vector next) ∧
      t.mem.loadWord t.esp = next ∧
      t.mem.loadWord (t.esp + 4#32) = T.tsEsp0 - BitVec.ofNat 32 (4 * ev.codes.length) - 64#32 ∧
      t.eip = trap ∧ t.cs = GD_KT ∧ t.ss = T.tsSs0 ∧ t.ds = GD_KD ∧ t.es = GD_KD ∧
      t.eflags = s.eflags &&& ~~~(FL_TF ||| FL_NT ||| FL_VM ||| FL_IF) ∧
      t.fs = s.fs ∧ t.gs = s.gs := by
  obtain ⟨t₁, h₁, hm₁, he₁, -, hc₁, hs₁, hf₁, hr₁, hd₁, hx₁, hfs₁, hgs₁⟩ :=
    enter_user pad (ev.saved s) hs.cs_ne (decode_trapInit hidt ev.vector) ev.cpuCode
  obtain ⟨t₂, h₂, hm₂, he₂, -, hc₂, hs₂, hf₂, hr₂, hd₂, hx₂, hfs₂, hgs₂⟩ :=
    kexec_vect pad ev.vector (alltraps trap next) t₁
  obtain ⟨t₃, h₃, hm₃, hret, harg, -, hi₃, hc₃, hs₃, hd₃, hx₃, hf₃, hfs₃, hgs₃⟩ :=
    kexec_alltraps pad trap next t₂
  have hsp : t₂.esp = T.tsEsp0 - BitVec.ofNat 32 (4 * ev.codes.length) - 24#32 := by
    rw [he₂, he₁, ← codes_eq, List.length_append, Nat.mul_add, BitVec.ofNat_add]
    rw [show 24#32 = 20#32 + 4#32 by rfl]
    simp only [BitVec.sub_sub]
    congr 1
    ac_rfl
  refine ⟨t₃, ?_, ?_, hret, ?_, hi₃, ?_, ?_, hd₃, hx₃, ?_, ?_, ?_⟩
  · rw [enterTrap, raise_user hidt hs hev, h₁]
    exact h₂.trans h₃
  · have hlist : entryWords pad T (ev.saved s) ev.codes ev.vector next =
        ([pad (T.tsEsp0 - 4#32) ++ s.ss, s.esp, s.eflags, pad (T.tsEsp0 - 16#32) ++ s.cs,
          ev.resumeAt s.eip] ++ ev.cpuCode.toList) ++
        (((if HasCode ev.vector then [] else [0]) ++ [BitVec.ofNat 32 ev.vector]) ++
        [pad (t₂.esp - 4#32) ++ t₂.ds, pad (t₂.esp - 8#32) ++ t₂.es, t₂.regs.regEax,
          t₂.regs.regEcx, t₂.regs.regEdx, t₂.regs.regEbx, t₂.esp - 8#32, t₂.regs.regEbp,
          t₂.regs.regEsi, t₂.regs.regEdi, t₂.esp - 40#32, next]) := by
      rw [entryWords, hsp, hd₂, hd₁, hx₂, hx₁, hr₂, hr₁, ← codes_eq]
      simp only [List.append_assoc, List.cons_append, List.nil_append, BitVec.sub_sub,
        BitVec.reduceAdd, Event.saved, BitVec.add_assoc]
    have hlen₁ : t₁.esp = T.tsEsp0 - BitVec.ofNat 32 (4 * ([pad (T.tsEsp0 - 4#32) ++ s.ss, s.esp,
        s.eflags, pad (T.tsEsp0 - 16#32) ++ s.cs, ev.resumeAt s.eip] ++
        ev.cpuCode.toList).length) := by
      rw [he₁, List.length_append, Nat.mul_add, BitVec.ofNat_add, ← BitVec.sub_sub]
      rfl
    have hlen₂ :
        t₂.esp = t₁.esp - BitVec.ofNat 32 (4 * ((if HasCode ev.vector then [] else [(0 : Word)]) ++
        [BitVec.ofNat 32 ev.vector]).length) := by
      rw [he₂, List.length_append, Nat.mul_add, BitVec.ofNat_add, ← BitVec.sub_sub]
      rfl
    rw [hlist, ByteMem.pushWords_append, ByteMem.pushWords_append, ← hlen₁, ← hlen₂, hm₃, hm₂, hm₁]
    rfl
  · rw [harg, hsp]
    simp only [BitVec.sub_sub, BitVec.reduceAdd, BitVec.add_assoc]
  · rw [hc₃, hc₂, hc₁]
  · rw [hs₃, hs₂, hs₁]
  · rw [hf₃, hf₂, hf₁]
    rfl
  · rw [hfs₃, hfs₂, hfs₁]
    rfl
  · rw [hgs₃, hgs₂, hgs₁]
    rfl

/-! ## Reading the frame -/

/-- A frame that has been pushed word by word, from `ss` down to `edi`. -/
theorem trapframeAt_pushWords (m : ByteMem) (sp : Word)
    (ss esp eflags cs eip err trapno ds es eax ecx edx ebx oesp ebp esi edi arg next : Word) :
    trapframeAt (m.pushWords sp [ss, esp, eflags, cs, eip, err, trapno, ds, es, eax, ecx, edx, ebx,
        oesp, ebp, esi, edi, arg, next]) (sp - 68#32) =
      { tfRegs :=
          { regEdi := edi, regEsi := esi, regEbp := ebp, regOesp := oesp, regEbx := ebx
            regEdx := edx, regEcx := ecx, regEax := eax }
        tfEs := es.setWidth 16, tfDs := ds.setWidth 16, tfTrapno := trapno, tfErr := err
        tfEip := eip, tfCs := cs.setWidth 16, tfEflags := eflags, tfEsp := esp
        tfSs := ss.setWidth 16 } := by
  set ws := [ss, esp, eflags, cs, eip, err, trapno, ds, es, eax, ecx, edx, ebx, oesp, ebp, esi, edi,
    arg, next] with hws
  have hread : ∀ i w, ws[i]? = some w → i < 17 →
      (m.pushWords sp ws).loadWord (sp - 68#32 + BitVec.ofNat 32 (4 * (17 - (i + 1)))) = w := by
    intro i w hi hn
    have hlen : ws.length = 19 := rfl
    exact ByteMem.loadWord_pushWords_add (by omega) hi hn rfl
  have hedi := hread 16 edi rfl (by decide)
  rw [show BitVec.ofNat 32 (4 * (17 - (16 + 1))) = 0#32 by rfl, BitVec.add_zero] at hedi
  have hes := congrArg (BitVec.setWidth 16) (hread 8 es rfl (by decide))
  have hds := congrArg (BitVec.setWidth 16) (hread 7 ds rfl (by decide))
  have hcs := congrArg (BitVec.setWidth 16) (hread 3 cs rfl (by decide))
  have hss := congrArg (BitVec.setWidth 16) (hread 0 ss rfl (by decide))
  simp only [trapframeAt, Trapframe.mk.injEq, PushRegs.mk.injEq]
  exact ⟨⟨hedi, hread 15 esi rfl (by decide), hread 14 ebp rfl (by decide),
    hread 13 oesp rfl (by decide), hread 12 ebx rfl (by decide), hread 11 edx rfl (by decide),
    hread 10 ecx rfl (by decide), hread 9 eax rfl (by decide)⟩, hes, hds,
    hread 6 trapno rfl (by decide), hread 5 err rfl (by decide), hread 4 eip rfl (by decide), hcs,
    hread 2 eflags rfl (by decide), hread 1 esp rfl (by decide), hss⟩

theorem setWidth_pad (hi lo : BitVec 16) : (hi ++ lo).setWidth 16 = lo :=
  BitVec.setWidth_append_eq_right

/-- One error code: the frame holds the registers of the program. -/
theorem trapframeAt_entry (m : ByteMem) (s : CpuState) (v : IntVec) (err : Word) :
    trapframeAt (m.pushWords T.tsEsp0 (entryWords pad T s [err] v next)) (T.tsEsp0 - 68#32) =
      s.frame (T.tsEsp0 - 36#32) v err := by
  have hoesp : T.tsEsp0 - BitVec.ofNat 32 (4 * [err].length) - 32#32 = T.tsEsp0 - 36#32 := by
    rw [BitVec.sub_sub]
    rfl
  refine (trapframeAt_pushWords m T.tsEsp0 ..).trans ?_
  simp only [CpuState.frame, setWidth_pad, hoesp]

/-- Two error codes: the frame starts a word too low. -/
theorem trapframeAt_shifted (m : ByteMem) (s : CpuState) (err : Word) :
    trapframeAt (m.pushWords T.tsEsp0 (entryWords pad T s [err, 0] T_ALIGN next))
    (T.tsEsp0 - 72#32) =
      s.shiftedFrame (T.tsEsp0 - 40#32) err (pad (T.tsEsp0 - 16#32)) := by
  have hoesp : T.tsEsp0 - BitVec.ofNat 32 (4 * [err, 0].length) - 32#32 = T.tsEsp0 - 40#32 := by
    rw [BitVec.sub_sub]
    rfl
  have hbase : T.tsEsp0 - 72#32 = T.tsEsp0 - 4#32 - 68#32 := by
    rw [BitVec.sub_sub]
    rfl
  have hsplit : entryWords pad T s [err, 0] T_ALIGN next =
      [pad (T.tsEsp0 - 4#32) ++ s.ss] ++ (entryWords pad T s [err, 0] T_ALIGN next).tail := rfl
  rw [hbase, hsplit, ByteMem.pushWords_append]
  refine (trapframeAt_pushWords _ (T.tsEsp0 - 4#32) ..).trans ?_
  simp only [CpuState.shiftedFrame, setWidth_pad, hoesp]

/-! ## The entry of `trap` -/

variable (pad trap next) in
/-- **Every event reaches `trap`.** -/
theorem enterTrap_frame (hidt : T.idt = trapInit vects idt) (hs : InUser s) {ev : Event}
    (hev : ev.Possible) :
    ∃ t tf, enterTrap pad T trap next ev s = some t ∧ AtTrap T trap next s t tf ∧
      trapframeAt t.mem tf = ev.frame pad T s := by
  obtain ⟨t, ht, hmem, hret, harg, heip, hcs, hss, hds, hes, hfl, hfs, hgs⟩ :=
    enterTrap_words pad trap next hidt hs hev
  have hlen : ev.codes.length ≤ 2 := by
    unfold Event.codes
    split_ifs <;> simp
  have hwords : (entryWords pad T (ev.saved s) ev.codes ev.vector next).length =
      18 + ev.codes.length := by
    simp only [entryWords, List.length_append, List.length_cons, List.length_nil]
    omega
  refine ⟨t, _, ht, ⟨heip, hret, harg, hcs, hss, hds, hes, hfl, ⟨hfs, hgs⟩, fun x hx => ?_⟩, ?_⟩
  · rw [hmem]
    exact ByteMem.pushWords_of_far (by omega) (by omega)
  · rw [hmem]
    unfold Event.frame Event.codes
    split_ifs with ha
    · rw [ha, BitVec.sub_sub]
      exact trapframeAt_shifted _ _ _
    · rw [BitVec.sub_sub]
      exact trapframeAt_entry _ _ _ _

theorem frame_ne_shifted (hs : InUser s) (ev : Event) (oesp oesp' : Word) (v : IntVec)
    (err err' : Word) (hi : BitVec 16) :
    (ev.saved s).shiftedFrame oesp err hi ≠ (ev.saved s).frame oesp' v err' := by
  intro h
  have hfl : hi ++ s.cs = s.eflags := congrArg Trapframe.tfEflags h
  -- bit 3 of `eflags` is zero, and the selector has it
  have hset : s.eflags.getLsbD 3 = true := by
    rw [← hfl, hs.cs, BitVec.getLsbD_append]
    rfl
  have hfix := congrArg (BitVec.getLsbD · 3) hs.fixed
  simp only [BitVec.getLsbD_and, hset] at hfix
  exact absurd hfix (by decide)

theorem low_bits_setWidth (x : Word) : x.setWidth 16 &&& 3#16 = 3#16 ↔ x &&& 3#32 = 3#32 := by
  have h16 : (x.setWidth 16 &&& 3#16).toNat = x.toNat % 4 := by
    rw [BitVec.toNat_and, BitVec.toNat_setWidth, show (3#16).toNat = 2 ^ 2 - 1 by rfl,
      Nat.and_two_pow_sub_one_eq_mod]
    omega
  have h32 : (x &&& 3#32).toNat = x.toNat % 4 := by
    rw [BitVec.toNat_and, show (3#32).toNat = 2 ^ 2 - 1 by rfl, Nat.and_two_pow_sub_one_eq_mod]
  rw [← BitVec.toNat_inj, ← BitVec.toNat_inj, h16, h32]
  rfl

/-- An alignment check is an exception, and resumes at the instruction that caused it. -/
theorem resumeAt_of_align {ev : Event} (h : ev.vector = T_ALIGN) (eip : Word) :
    ev.resumeAt eip = eip := by
  cases ev with
  | int n next =>
    by_cases hn : Callable n
    · rw [Event.vector, if_pos hn] at h
      rw [h] at hn
      exact absurd hn (by decide)
    · exact if_neg hn
  | exn v err => rfl
  | irq v => rfl

/-- **The frame of a trap from user mode.** `trap` finds the registers of the program if and only
if the event is not an alignment check. -/
theorem trap_frame_iff (pad : Word → BitVec 16) (trap next : Word)
    (hidt : T.idt = trapInit vects idt) (hs : InUser s) {ev : Event} (hev : ev.Possible) :
    ∃ t tf, enterTrap pad T trap next ev s = some t ∧ AtTrap T trap next s t tf ∧
      (trapframeAt t.mem tf = (ev.saved s).frame (T.tsEsp0 - 36#32) ev.vector ev.err ↔
        ev.vector ≠ T_ALIGN) ∧
      ((trapframeAt t.mem tf).tfCs &&& 3 = 3 ↔ ev.vector ≠ T_ALIGN ∨ s.eip &&& 3 = 3) := by
  obtain ⟨t, tf, ht, hat, hframe⟩ := enterTrap_frame pad trap next hidt hs hev
  refine ⟨t, tf, ht, hat, ?_, ?_⟩
  · rw [hframe, Event.frame]
    split_ifs with ha
    · exact iff_of_false (frame_ne_shifted hs ev _ _ _ _ _ _) fun h => h ha
    · exact iff_of_true rfl ha
  · rw [hframe, Event.frame]
    split_ifs with ha
    · have heip : (ev.saved s).eip = s.eip := resumeAt_of_align ha s.eip
      simp only [CpuState.shiftedFrame, heip]
      rw [or_iff_right fun h => h ha]
      exact low_bits_setWidth s.eip
    · have hcs : s.cs &&& 3 = 3 := by
        rw [hs.cs]
        decide
      exact iff_of_true hcs (.inl ha)
theorem trap_frame_align :
    ∃ t tf, enterTrap (fun _ => 0) someTables 0xF0104000#32 0xF0103FF0#32 (.exn 17 0) someProgram =
        some t ∧
      AtTrap someTables 0xF0104000#32 0xF0103FF0#32 someProgram t tf ∧
      (trapframeAt t.mem tf = ((Event.exn 17 0).saved someProgram).frame
          (someTables.tsEsp0 - 36#32) (Event.exn 17 0).vector (Event.exn 17 0).err ↔
        (Event.exn 17 0).vector ≠ T_ALIGN) ∧
      ((trapframeAt t.mem tf).tfCs &&& 3 = 3 ↔
        (Event.exn 17 0).vector ≠ T_ALIGN ∨ someProgram.eip &&& 3 = 3) :=
  trap_frame_iff (fun _ => 0) 0xF0104000#32 0xF0103FF0#32 rfl inUser_someProgram (by decide)

end Entry

/-! ## Leaving the kernel -/

/-- What `iret` asks of a trap frame that leads to user mode. -/
structure Trapframe.Returns (f : Trapframe) : Prop where
  cs : segment f.tfCs = some (.code 3) ∧ rpl f.tfCs = 3
  ss : segment f.tfSs = some (.data 3) ∧ rpl f.tfSs = 3
  ds : Loadable 0 f.tfDs
  es : Loadable 0 f.tfEs
  vm : f.tfEflags &&& FL_VM = 0

/-- The processor in user mode with the registers of a frame; the others are those of `s`. -/
def Trapframe.resume (f : Trapframe) (s : CpuState) : CpuState :=
  { s with
    regs := { f.tfRegs with regOesp := s.regs.regOesp }
    esp := f.tfEsp
    eip := f.tfEip
    eflags := f.tfEflags &&& EFLAGS_RW ||| 2#32
    cs := f.tfCs
    ss := f.tfSs
    ds := dropSegment f.tfDs
    es := dropSegment f.tfEs
    fs := dropSegment s.fs
    gs := dropSegment s.gs }

/-- A frame of a user program. -/
structure Trapframe.User (f : Trapframe) : Prop where
  cs : f.tfCs = GD_UT ||| 3
  ss : f.tfSs = GD_UD ||| 3
  ds : Loadable 3 f.tfDs
  es : Loadable 3 f.tfEs
  fixed : f.tfEflags &&& ~~~(EFLAGS_RW ||| 2#32) = 0
  interruptible : f.tfEflags &&& FL_IF ≠ 0
  iopl : f.tfEflags &&& FL_IOPL_MASK = 0

/-- The parts of the processor that belong to a program and that a trap frame holds. -/
structure SameProgram (s u : CpuState) : Prop where
  regs : u.regs.general = s.regs.general
  esp : u.esp = s.esp
  eip : u.eip = s.eip
  eflags : u.eflags = s.eflags
  cs : u.cs = s.cs
  ss : u.ss = s.ss
  ds : u.ds = s.ds
  es : u.es = s.es

section Exit

variable {pad : Word → BitVec 16} {T : Tables} {trap next : Word} {s u : CpuState}
  {vects : IntVec → Word} {idt : IntVec → Gatedesc}

/-- **`env_pop_tf`** enters user mode with the registers of its frame, or faults. -/
theorem kexec_popTf (hnt : s.eflags &&& FL_NT = 0) (p : Word) :
    kexec pad (popTf p) s = some u ↔
      (trapframeAt s.mem p).Returns ∧ u = (trapframeAt s.mem p).resume s := by
  have h36 : p + 32#32 + 4#32 = p + 36#32 := by
    rw [BitVec.add_assoc]
    rfl
  have h48 : p + 36#32 + 4#32 + 8#32 = p + 48#32 := by
    rw [BitVec.add_assoc, BitVec.add_assoc]
    rfl
  have h52 : p + 48#32 + 4#32 = p + 52#32 ∧ p + 48#32 + 8#32 = p + 56#32 ∧
      p + 48#32 + 12#32 = p + 60#32 ∧ p + 48#32 + 16#32 = p + 64#32 := by
    refine ⟨?_, ?_, ?_, ?_⟩ <;> rw [BitVec.add_assoc] <;> rfl
  obtain ⟨h52, h56, h60, h64⟩ := h52
  set f := trapframeAt s.mem p with hf
  by_cases hes : Loadable 0 f.tfEs
  · by_cases hds : Loadable 0 f.tfDs
    · have hes' : Loadable 0 ((s.mem.loadWord (p + 32#32)).setWidth 16) := hes
      have hds' : Loadable 0 ((s.mem.loadWord (p + 36#32)).setWidth 16) := hds
      simp only [popTf, kexec, KInstr.step, SegReg.set, Option.bind_some, h36, if_pos hes',
        if_pos hds', h48, CpuState.iret, h52, h56, h60, h64, hnt, true_and]
      split_ifs with hiret
      · obtain ⟨hvm, hcs, hcs', hss, hss'⟩ := hiret
        refine ⟨fun h => ⟨⟨⟨hcs, hcs'⟩, ⟨hss, hss'⟩, hds, hes, hvm⟩, (Option.some.inj h).symm⟩, ?_⟩
        rintro ⟨-, rfl⟩
        rfl
      · refine ⟨nofun, fun ⟨h, _⟩ => (hiret ?_).elim⟩
        exact ⟨h.vm, h.cs.1, h.cs.2, h.ss.1, h.ss.2⟩
    · have hes' : Loadable 0 ((s.mem.loadWord (p + 32#32)).setWidth 16) := hes
      have hds' : ¬ Loadable 0 ((s.mem.loadWord (p + 36#32)).setWidth 16) := hds
      simp only [popTf, kexec, KInstr.step, SegReg.set, Option.bind_some, h36, if_pos hes',
        if_neg hds', Option.bind_none]
      exact ⟨nofun, fun h => (hds h.1.ds).elim⟩
  · have hes' : ¬ Loadable 0 ((s.mem.loadWord (p + 32#32)).setWidth 16) := hes
    simp only [popTf, kexec, KInstr.step, Option.bind_some, if_neg hes', Option.bind_none]
    exact ⟨nofun, fun h => (hes h.1.es).elim⟩

theorem Loadable.mono {cpl cpl' : Nat} {sel : BitVec 16} (h : Loadable cpl sel) (hle : cpl' ≤ cpl) :
    Loadable cpl' sel := by
  refine h.imp id ?_
  rintro ⟨dpl, h3, hseg, hcpl, hrpl⟩
  exact ⟨dpl, h3, hseg, hle.trans hcpl, hrpl⟩

theorem and_eq_zero_of_subset {x a b : Word} (h : x &&& a = 0#32) (hb : b &&& a = b) :
    x &&& b = 0#32 := by
  rw [← hb, BitVec.and_comm b, ← BitVec.and_assoc, h, BitVec.zero_and]

theorem Trapframe.User.returns {f : Trapframe} (h : f.User) : f.Returns where
  cs := by
    rw [h.cs]
    decide
  ss := by
    rw [h.ss]
    decide
  ds := h.ds.mono (Nat.zero_le 3)
  es := h.es.mono (Nat.zero_le 3)
  vm := and_eq_zero_of_subset h.fixed (by decide)

theorem and_or_and_not (x a b c : Word) (hb : b &&& c = b) (ha : a &&& c = 0#32) :
    (x &&& a ||| b) &&& c = b := by
  rw [BitVec.and_or_distrib_right, BitVec.and_assoc, ha, BitVec.and_zero, BitVec.zero_or, hb]

theorem Trapframe.User.inUser {f : Trapframe} (h : f.User) (s : CpuState) :
    InUser (f.resume s) := by
  have hkeep : ∀ b : Word, b &&& EFLAGS_RW = b → b &&& 2#32 = 0#32 →
      (f.tfEflags &&& EFLAGS_RW ||| 2#32) &&& b = f.tfEflags &&& b := by
    intro b hb h2
    rw [BitVec.and_or_distrib_right, BitVec.and_assoc, BitVec.and_comm EFLAGS_RW, hb,
      BitVec.and_comm 2#32, h2, BitVec.or_zero]
  have hseg : ∀ sel, Loadable 3 sel → Loadable 3 (dropSegment sel) := by
    intro sel hsel
    rw [dropSegment, if_pos hsel]
    exact hsel
  constructor
  · exact h.cs
  · exact h.ss
  · exact hseg _ h.ds
  · exact hseg _ h.es
  · exact and_or_and_not _ _ _ _ (by decide) (by decide)
  · rw [Trapframe.resume, hkeep FL_IF (by decide) (by decide)]
    exact h.interruptible
  · rw [Trapframe.resume, hkeep FL_IOPL_MASK (by decide) (by decide)]
    exact h.iopl

theorem InUser.frame_user (h : InUser s) (ev : Event) (oesp : Word) (v : IntVec) (err : Word) :
    ((ev.saved s).frame oesp v err).User where
  cs := h.cs
  ss := h.ss
  ds := h.ds
  es := h.es
  fixed := by
    change s.eflags &&& ~~~(EFLAGS_RW ||| 2#32) = 0
    rw [show ~~~(EFLAGS_RW ||| 2#32) =
      ~~~EFLAGS_RW &&& ~~~2#32 by decide, ← BitVec.and_assoc, h.fixed]
    decide
  interruptible := h.interruptible
  iopl := h.iopl

/-- A segment register keeps what it had in user mode. -/
theorem dropSegment_of_loadable {sel : BitVec 16} (h : Loadable 3 sel) :
    dropSegment sel = sel := if_pos h

theorem InUser.eflags_eq (h : InUser s) : s.eflags &&& EFLAGS_RW ||| 2#32 = s.eflags := by
  rw [← h.fixed]
  ext i hi
  simp only [BitVec.getElem_or, BitVec.getElem_and, BitVec.getElem_not]
  cases s.eflags[i] <;> cases EFLAGS_RW[i] <;> rfl

theorem InUser.resume (h : InUser s) (ev : Event) (oesp : Word) (v : IntVec) (err : Word)
    (k : CpuState) :
    SameProgram (ev.saved s) (((ev.saved s).frame oesp v err).resume k) where
  regs := rfl
  esp := rfl
  eip := rfl
  eflags := h.eflags_eq
  cs := rfl
  ss := rfl
  ds := dropSegment_of_loadable h.ds
  es := dropSegment_of_loadable h.es

end Exit
end Jos
