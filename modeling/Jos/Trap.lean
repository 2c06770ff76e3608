import Jos.Access
import Jos.Syscall

/-!
# Traps

`kern/trap.c`, for traps from user mode: `trap` takes the kernel lock, saves the trap frame
into the current environment, dispatches, and ends in `env_run` or `sched_yield`. Its result is
therefore an `Exit`, the end of the whole kernel entry.

`tf` is what the hardware and `_alltraps` pushed, so its registers are whatever the user
program had in them; `cr2` is the faulting address, and `input` the character `sys_cgetc` would
read. Messages on the console are left out. The monitor, which a breakpoint enters, has no
command that leaves it.

The frame that `page_fault_handler` pushes is computed by `uxFrame` as a list of word stores,
so that it can be read apart from the page tables it is written through.
-/

namespace Jos

open Lib

def T_BRKPT : Word := 3#32
def T_PGFLT : Word := 14#32
def T_SYSCALL : Word := 48#32

def IRQ_OFFSET : Word := 32#32
def IRQ_OFFSET_HANDLE_MAX : Word := 47#32
def IRQ_TIMER : Word := 0#32
def IRQ_KBD : Word := 1#32
def IRQ_SERIAL : Word := 4#32
def IRQ_SPURIOUS : Word := 7#32
def IRQ_IDE : Word := 14#32
def IRQ_ERROR : Word := 19#32

/-! ## The user exception stack -/

/-- `sizeof(struct UTrapframe)`. -/
def UTRAP_SIZE : Word := 52#32

/-- A recursive fault leaves one more word. -/
def RCSV_UTRAP_SIZE : Word := 56#32

/-- A stack pointer on the exception stack. -/
def OnUxStack (esp : Word) : Prop := UXSTACKTOP > esp ∧ UXSTACKBASE ≤ esp

instance (esp : Word) : Decidable (OnUxStack esp) := by unfold OnUxStack; infer_instance

/-- `push`: the stack pointer moves down, and the store is added to those made so far. -/
def push (s : Word × List (Word × Word)) (element : Word) : Word × List (Word × Word) :=
  (s.1 - 4#32, s.2 ++ [(s.1 - 4#32, element)])

/-- Store a `struct PushRegs` below the stack pointer. -/
def pushRegs (s : Word × List (Word × Word)) (r : PushRegs) : Word × List (Word × Word) :=
  let esp := s.1 - 32#32
  (esp, s.2 ++ [(esp, r.regEdi), (esp + 4#32, r.regEsi), (esp + 8#32, r.regEbp),
    (esp + 12#32, r.regOesp), (esp + 16#32, r.regEbx), (esp + 20#32, r.regEdx),
    (esp + 24#32, r.regEcx), (esp + 28#32, r.regEax)])

/-- The `UTrapframe` of a fault: the new stack pointer, and the stores that build it. -/
def uxFrame (tf : Trapframe) (faultVa : Word) : Word × List (Word × Word) :=
  -- a recursive fault leaves a word below the trap-time stack pointer for the return address
  let s := if OnUxStack tf.tfEsp then push (tf.tfEsp, []) 0 else (UXSTACKTOP, [])
  let s := push s tf.tfEsp
  let s := push s tf.tfEflags
  let s := push s tf.tfEip
  let s := pushRegs s tf.tfRegs
  let s := push s tf.tfErr
  push s faultVa

/-- The state in which the upcall starts, once the frame is in memory. -/
def Kernel.upcall (k : Kernel) (cur : EnvIdx) (σ : Phys) (faultVa : Word) : Kernel :=
  { k with phys := σ }.setEnv cur fun env =>
    { env with envTf := { env.envTf with
        tfEsp := (uxFrame (k.envs cur).envTf faultVa).1
        tfEip := (k.envs cur).envPgfaultUpcall } }

/-- The end of `page_fault_handler`: push the frame and run the upcall. -/
def pushUxFrame (k : Kernel) (c : Cpu) (cur : EnvIdx) (faultVa : Word) : Exit :=
  let tf := (k.envs cur).envTf
  if OnUxStack tf.tfEsp ∧ UXSTACKBASE > tf.tfEsp - RCSV_UTRAP_SIZE then
    .panic "It will underflow !!!"
  else
    match (uxFrame tf faultVa).2.foldlM (kernStoreWord (k.cr3 c)) k.phys with
    | .error msg => .panic msg
    | .ok σ => .run (k.upcall cur σ faultVa) cur

/-- `page_fault_handler`. -/
def pageFaultHandler (k : Kernel) (c : Cpu) (cur : EnvIdx) (faultVa : Word) :
    Except Exit Kernel :=
  if (k.envs cur).envTf.tfCs &&& 3 = 0 then .error (.panic "=== Page fault at kernel ===")
  else do
    -- the source walks the page table and ignores the result
    let _ ← orPanic (pgdirWalk k.phys (← orPanic (k.pgdir cur)) faultVa false)
    if (k.envs cur).envPgfaultUpcall = 0 then
      envDestroy k c cur
    else do
      let k ← userMemAssert k c cur (k.envs cur).envPgfaultUpcall 0x1000#32 (PTE_U ||| PTE_P)
      let k ← userMemAssert k c cur (UXSTACKTOP - UTRAP_SIZE) UTRAP_SIZE (PTE_U ||| PTE_P ||| PTE_W)
      .error (pushUxFrame k c cur faultVa)

/-! ## Dispatch -/

/-- The hardware interrupts. -/
def irqDispatch (k : Kernel) (c : Cpu) (cur : EnvIdx) : Except Exit Kernel :=
  let tf := (k.envs cur).envTf
  let irq := tf.tfTrapno - IRQ_OFFSET
  if irq = IRQ_TIMER then .error (schedYield k c)
  else if irq = IRQ_KBD ∨ irq = IRQ_SERIAL ∨ irq = IRQ_SPURIOUS ∨ irq = IRQ_IDE ∨
      irq = IRQ_ERROR then .ok k
  else if tf.tfCs = GD_KT then .error (.panic "unhandled trap in kernel")
  else .error (.panic "unhandled trap in user")

/-- The trap is a hardware interrupt. -/
def Trapframe.IsIrq (tf : Trapframe) : Prop :=
  IRQ_OFFSET + IRQ_TIMER ≤ tf.tfTrapno ∧ tf.tfTrapno ≤ IRQ_OFFSET_HANDLE_MAX

instance (tf : Trapframe) : Decidable tf.IsIrq := by unfold Trapframe.IsIrq; infer_instance

/-- `trap_dispatch`. -/
def trapDispatch (k : Kernel) (c : Cpu) (cur : EnvIdx) (cr2 input : Word) : Except Exit Kernel :=
  let tf := (k.envs cur).envTf
  let regs := tf.tfRegs
  if tf.IsIrq then irqDispatch k c cur
  else if tf.tfTrapno = T_PGFLT then pageFaultHandler k c cur cr2
  else if tf.tfTrapno = T_BRKPT then .error (.monitor k)
  else if tf.tfTrapno = T_SYSCALL then do
    let (r, k) ← syscall k c cur input regs.regEax regs.regEdx regs.regEcx regs.regEbx regs.regEdi
      regs.regEsi
    return k.setEnv cur fun env => { env with envTf := env.envTf.setEax r }
  else if tf.tfCs = GD_KT then .error (.panic "unhandled trap in kernel")
  else envDestroy k c cur

/-- The end of `trap`: go on with the current environment if that makes sense. -/
def trapReturn (k : Kernel) (c : Cpu) : Exit :=
  match k.cpuEnv c with
  | none => schedYield k c
  | some e => if (k.envs e).envStatus = ENV_RUNNING then .run k e else schedYield k c

/-- `trap`, from user mode. -/
def trap (k : Kernel) (c : Cpu) (tf : Trapframe) (cr2 input : Word) : Exit :=
  match k.cpuEnv c with
  | none => .panic "assertion failed: curenv"
  | some cur =>
    if (k.envs cur).envStatus = ENV_DYING then
      match envFree k c cur with
      | .error msg => .panic msg
      | .ok k => schedYield (k.setCurenv c none) c
    else
      let k := k.setEnv cur fun env => { env with envTf := tf }
      match trapDispatch k c cur cr2 input with
      | .error exit => exit
      | .ok k => trapReturn k c

end Jos
