import Jos.Pmap

/-!
# Environments

`struct Env`, the environment table and the functions of `kern/env.c` and `kern/sched.c` that
run after boot. The kernel state (`Kernel`) is physical memory, `envs[]`, `env_free_list`, and
for each CPU its `cpu_env` and the page directory in its CR3.

**Control flow.** `env_run` and `sched_yield` do not return. `Exit` is how a kernel entry
ends: it calls `env_run`, it drops into the kernel monitor (which never returns either, and
keeps the kernel lock), or it panics. A function that may end the entry is in `Except Exit`.
`env_run` itself drops the lock halfway, so its parts are separate functions: `envRun` is what
happens under the lock, `lcr3Curenv` and `envPopTf` what follows.

**`env_status`** is an `unsigned` in the source and `sys_env_set_status` stores whatever it is
given, so it is a word here, with the five values of the enumeration as constants.
-/

namespace Jos

/-- A CPU number, below `NCPU`. -/
abbrev Cpu := Fin 8

instance neZero_8 : NeZero 8 := ⟨by decide⟩

def NENV : Nat := 1024
def ENVGENSHIFT : Nat := 12

def ENV_FREE : Word := 0#32
def ENV_DYING : Word := 1#32
def ENV_RUNNABLE : Word := 2#32
def ENV_RUNNING : Word := 3#32
def ENV_NOT_RUNNABLE : Word := 4#32

def GD_KT : BitVec 16 := 0x08#16
def GD_UT : BitVec 16 := 0x18#16
def GD_UD : BitVec 16 := 0x20#16
def FL_IF : Word := 0x200#32

/-- `enum EnvType`. -/
inductive EnvType
  | USER
  | IDLE
  deriving DecidableEq

/-- `struct PushRegs`: the general registers as `pushal` leaves them. -/
structure PushRegs where
  regEdi : Word := 0
  regEsi : Word := 0
  regEbp : Word := 0
  regOesp : Word := 0
  regEbx : Word := 0
  regEdx : Word := 0
  regEcx : Word := 0
  regEax : Word := 0
  deriving DecidableEq

/-- `struct Trapframe`. -/
structure Trapframe where
  tfRegs : PushRegs := {}
  tfEs : BitVec 16 := 0
  tfDs : BitVec 16 := 0
  tfTrapno : Word := 0
  tfErr : Word := 0
  tfEip : Word := 0
  tfCs : BitVec 16 := 0
  tfEflags : Word := 0
  tfEsp : Word := 0
  tfSs : BitVec 16 := 0
  deriving DecidableEq

/-- `tf->tf_regs.reg_eax = v`. -/
def Trapframe.setEax (tf : Trapframe) (v : Word) : Trapframe :=
  { tf with tfRegs := { tf.tfRegs with regEax := v } }

/-- `struct Env`. -/
structure Env where
  envTf : Trapframe := {}
  envLink : Option EnvIdx := none
  envId : Word := 0
  envParentId : Word := 0
  envType : EnvType := .USER
  envStatus : Word := ENV_FREE
  envRuns : Word := 0
  envCpunum : Cpu := 0
  envPgdir : Option Nat := none
  envPgfaultUpcall : Word := 0
  envIpcRecving : Bool := false
  envIpcDstva : Word := 0
  envIpcValue : Word := 0
  envIpcFrom : Word := 0
  envIpcPerm : Word := 0

/-- The kernel's state. -/
structure Kernel where
  phys : Phys
  envs : EnvIdx → Env
  envFreeList : Option EnvIdx
  cpuEnv : Cpu → Option EnvIdx
  cr3 : Cpu → Nat

namespace Kernel

/-- Write to `envs[e]`. -/
def setEnv (k : Kernel) (e : EnvIdx) (f : Env → Env) : Kernel :=
  { k with envs := Function.update k.envs e (f (k.envs e)) }

def setStatus (k : Kernel) (e : EnvIdx) (v : Word) : Kernel :=
  k.setEnv e fun env => { env with envStatus := v }

def setCurenv (k : Kernel) (c : Cpu) (v : Option EnvIdx) : Kernel :=
  { k with cpuEnv := Function.update k.cpuEnv c v }

def lcr3 (k : Kernel) (c : Cpu) (d : Nat) : Kernel :=
  { k with cr3 := Function.update k.cr3 c d }

/-- The page directories of the environments that have one. -/
def dirs (k : Kernel) (e : EnvIdx) : Option Nat := (k.envs e).envPgdir

end Kernel

/-- How a kernel entry ends. -/
inductive Exit
  | run (k : Kernel) (e : EnvIdx)
  | monitor (k : Kernel)
  | panic (msg : String)

/-- A panic ends the entry. -/
def orPanic {α : Type} (x : Except String α) : Except Exit α := x.mapError Exit.panic

/-- The directory of an environment, as an access through `env_pgdir`. A `NULL` directory is
dereferenced in kernel mode. -/
def Kernel.pgdir (k : Kernel) (e : EnvIdx) : Except String Nat :=
  match (k.envs e).envPgdir with
  | none => .error "=== Page fault at kernel ==="
  | some d => .ok d

/-! ## Looking environments up -/

/-- The slot an environment id refers to. -/
def ENVX (envid : Word) : EnvIdx := ⟨envid.toNat % 1024, Nat.mod_lt _ (by decide)⟩

/-- `envid2env` on behalf of `cur`; `none` is `-E_BAD_ENV`. -/
def envid2env (k : Kernel) (cur : EnvIdx) (envid : Word) (checkperm : Bool) : Option EnvIdx :=
  if envid.toInt < 0 then none
  else if envid = 0 then some cur
  else
    let e := ENVX envid
    if (k.envs e).envStatus = ENV_FREE ∨ (k.envs e).envId ≠ envid then none
    else if checkperm = true ∧ e ≠ cur ∧ (k.envs e).envParentId ≠ (k.envs cur).envId then none
    else some e

/-! ## Creating environments -/

/-- The page directory of a new environment: a copy of `kern_pgdir` that maps itself at
`UVPT`. -/
def initPgdir (σ : Phys) (p : Nat) : Phys :=
  let σ := { σ with mem := Function.update σ.mem p (σ.mem σ.kernPgdir) }
  let σ := incRef σ p
  σ.store (p, PDX UVPT) (page2pa p ||| PTE_P ||| PTE_U)

/-- `env_setup_vm`. -/
def envSetupVm (k : Kernel) (e : EnvIdx) : Except String (Word × Kernel) :=
  match pageAlloc k.phys true with
  | (none, σ) => .ok (-E_NO_MEM, { k with phys := σ })
  | (some p, σ) =>
    let k := { k with phys := initPgdir σ p }
    let k := k.setEnv e fun env => { env with envPgdir := some p }
    if k.phys.ppRef p = 1 then .ok (0, k) else .error "assertion failed: p->pp_ref == 1"

/-- The id of the next environment in slot `e`. -/
def nextEnvId (envId : Word) (e : EnvIdx) : Word :=
  let generation := (envId + 1 <<< ENVGENSHIFT) &&& ~~~(BitVec.ofNat 32 (NENV - 1))
  let generation := if generation.toInt ≤ 0 then 1#32 <<< ENVGENSHIFT else generation
  generation ||| BitVec.ofNat 32 e

/-- The trap frame a new environment starts from. -/
def newTrapframe : Trapframe :=
  { tfDs := GD_UD ||| 3, tfEs := GD_UD ||| 3, tfSs := GD_UD ||| 3, tfEsp := USTACKTOP
    tfCs := GD_UT ||| 3, tfEflags := FL_IF }

/-- `env_alloc`: the new environment, or the error code. -/
def envAlloc (k : Kernel) (parentId : Word) : Except String (Except Word EnvIdx × Kernel) :=
  match k.envFreeList with
  | none => .ok (.error (-E_NO_FREE_ENV), k)
  | some e => do
    let (r, k) ← envSetupVm k e
    if r.toInt < 0 then
      return (.error r, k)
    let k := k.setEnv e fun env =>
      { env with
        envId := nextEnvId env.envId e
        envParentId := parentId
        envType := .USER
        envStatus := ENV_RUNNABLE
        envRuns := 0
        envTf := newTrapframe
        envPgfaultUpcall := 0
        envIpcRecving := false }
    let k := { k with envFreeList := (k.envs e).envLink }
    return (.ok e, k)

/-! ## Freeing environments -/

/-- `KADDR`, for the frame a physical address lies in. -/
def kaddr (σ : Phys) (pa : Word) : Except String Nat :=
  if σ.npages ≤ PGNUM pa then .error "KADDR called with invalid pa" else .ok (PGNUM pa)

/-- The inner loop of `env_free` at one entry of the page table `pt`. -/
def freePte (d : Nat) (pdeno : Idx) (pt : Nat) (σ : Phys) (pteno : Idx) : Except String Phys :=
  if Present (σ.mem pt pteno) then pageRemove σ d (PGADDR pdeno pteno 0) else .ok σ

/-- The outer loop of `env_free` at one directory entry. -/
def freePde (d : Nat) (σ : Phys) (pdeno : Idx) : Except String Phys :=
  if ¬ Present (σ.mem d pdeno) then .ok σ
  else do
    let pa := PTE_ADDR (σ.mem d pdeno)
    let pt ← kaddr σ pa
    let σ ← (List.finRange 1024).foldlM (freePte d pdeno pt) σ
    let σ := σ.store (d, pdeno) 0
    let pp ← pa2page σ pa
    return pageDecref σ pp

/-- The directory entries `0 .. PDX(UTOP) - 1`. -/
def userPdes : List Idx := (List.finRange 1024).filter fun i => decide i.User

/-- `env_free` on the memory: flush the user mappings, then drop the directory. -/
def freeVm (σ : Phys) (d : Nat) : Except String Phys := do
  let σ ← userPdes.foldlM (freePde d) σ
  let pp ← pa2page σ (page2pa d)
  return pageDecref σ pp

/-- `env_free` of the current environment first switches to `kern_pgdir`. -/
def Kernel.leave (k : Kernel) (c : Cpu) (e : EnvIdx) : Kernel :=
  if k.cpuEnv c = some e then k.lcr3 c k.phys.kernPgdir else k

/-- The end of `env_free`: the environment goes back to the free list. -/
def Kernel.retire (k : Kernel) (e : EnvIdx) : Kernel :=
  let k := k.setEnv e fun env =>
    { env with envPgdir := none, envStatus := ENV_FREE, envLink := k.envFreeList }
  { k with envFreeList := some e }

/-- `env_free`. -/
def envFree (k : Kernel) (c : Cpu) (e : EnvIdx) : Except String Kernel := do
  let k := k.leave c e
  let d ← k.pgdir e
  let σ ← freeVm k.phys d
  return { k with phys := σ }.retire e

/-! ## Running environments -/

/-- `env_run` up to `unlock_kernel`. -/
def envRun (k : Kernel) (c : Cpu) (e : EnvIdx) : Kernel :=
  let k := match k.cpuEnv c with
    | none => k
    | some cur => if (k.envs cur).envStatus = ENV_RUNNING then k.setStatus cur ENV_RUNNABLE else k
  let k := k.setCurenv c (some e)
  k.setEnv e fun env => { env with envStatus := ENV_RUNNING, envRuns := env.envRuns + 1 }

/-- `lcr3 (PADDR (curenv->env_pgdir))`, which `env_run` does without the lock. -/
def lcr3Curenv (k : Kernel) (c : Cpu) : Except String Kernel :=
  match k.cpuEnv c with
  | none => .error "=== Page fault at kernel ==="
  | some e =>
    match (k.envs e).envPgdir with
    | none => .error "PADDR called with invalid kva 00000000"
    | some d => .ok (k.lcr3 c d)

/-- `env_pop_tf`, up to the `iret` that enters user mode. -/
def envPopTf (k : Kernel) (c : Cpu) : Kernel :=
  match k.cpuEnv c with
  | none => k
  | some e => k.setEnv e fun env => { env with envCpunum := c }

/-! ## `sched_yield` -/

/-- An environment the scheduler may pick. -/
def Schedulable (k : Kernel) (e : EnvIdx) : Prop :=
  (k.envs e).envType ≠ .IDLE ∧ (k.envs e).envStatus = ENV_RUNNABLE

instance (k : Kernel) : DecidablePred (Schedulable k) := fun e => by
  unfold Schedulable; infer_instance

/-- The environments in circular order from `i`. -/
def circular (i : Nat) : List EnvIdx :=
  (List.range NENV).map fun cnt => ⟨(i + cnt) % 1024, Nat.mod_lt _ (by decide)⟩

/-- The environment that keeps CPU `c` busy. -/
def idleEnv (c : Cpu) : EnvIdx := c.castLE (by decide)

/-- Where `sched_yield` starts to look, and the state once the current environment has given
up the CPU. -/
def schedStart (k : Kernel) (c : Cpu) : Nat × Kernel :=
  match k.cpuEnv c with
  | none => (0, k)
  | some e =>
    if (k.envs e).envStatus = ENV_RUNNING then (e.val + 1, k.setStatus e ENV_RUNNABLE)
    else (e.val, k)

/-- `sched_yield`. -/
def schedYield (k : Kernel) (c : Cpu) : Exit :=
  let (i, k) := schedStart k c
  match (circular i).find? (Schedulable k) with
  | some e => .run k e
  | none =>
    if ∀ e, ¬ ((k.envs e).envType ≠ .IDLE ∧
        ((k.envs e).envStatus = ENV_RUNNABLE ∨ (k.envs e).envStatus = ENV_RUNNING)) then
      .monitor k
    else if (k.envs (idleEnv c)).envStatus = ENV_RUNNABLE ∨
        (k.envs (idleEnv c)).envStatus = ENV_RUNNING then
      .run k (idleEnv c)
    else
      .panic "No idle environment!"

/-- `env_destroy`. Destroying the current environment does not return. -/
def envDestroy (k : Kernel) (c : Cpu) (e : EnvIdx) : Except Exit Kernel :=
  if (k.envs e).envStatus = ENV_RUNNING ∧ k.cpuEnv c ≠ some e then
    .ok (k.setStatus e ENV_DYING)
  else do
    let k ← orPanic (envFree k c e)
    if k.cpuEnv c = some e then .error (schedYield (k.setCurenv c none) c) else .ok k

end Jos
