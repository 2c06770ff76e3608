import Jos.Env
import Jos.UserMem

/-!
# System calls

`kern/syscall.c`. Every call runs on CPU `c` on behalf of its current environment `cur`, with
the kernel lock held. A call returns its value and the new state, or ends the kernel entry
(`Except Exit`): by running another environment, in the monitor, or with a panic.

The calls differ in how they look environments up: `sys_page_map` checks the permission of the
caller for the source only, and `sys_ipc_try_send` not at all. They also differ in which
arguments they filter; each definition has the tests of its source, in their order. Messages
printed on the console are left out, and the character `sys_cgetc` reads is an argument.
-/

namespace Jos

def SYS_cputs : Word := 0#32
def SYS_cgetc : Word := 1#32
def SYS_getenvid : Word := 2#32
def SYS_env_destroy : Word := 3#32
def SYS_page_alloc : Word := 4#32
def SYS_page_map : Word := 5#32
def SYS_page_unmap : Word := 6#32
def SYS_exofork : Word := 7#32
def SYS_env_set_status : Word := 8#32
def SYS_env_set_pgfault_upcall : Word := 9#32
def SYS_yield : Word := 10#32
def SYS_ipc_try_send : Word := 11#32
def SYS_ipc_recv : Word := 12#32

/-- `user_mem_assert`: destroy the environment if it may not access the range. -/
def userMemAssert (k : Kernel) (c : Cpu) (e : EnvIdx) (va len perm : Word) :
    Except Exit Kernel := do
  let d ← orPanic (k.pgdir e)
  let r ← orPanic (userMemCheck k.phys d va len (perm ||| PTE_U))
  if r.toInt < 0 then envDestroy k c e else return k

/-- `check_addr_scale`, as a test: the address is in `[min, max)` and page-aligned. -/
def checkAddrScale (val min max : Word) : Bool := min ≤ val && val < max && PGOFF val == 0

/-! ## Environments -/

def sysCputs (k : Kernel) (c : Cpu) (cur : EnvIdx) (s len : Word) : Except Exit Kernel :=
  userMemAssert k c cur s len (PTE_U ||| PTE_P)

def sysGetenvid (k : Kernel) (cur : EnvIdx) : Word := (k.envs cur).envId

def sysEnvDestroy (k : Kernel) (c : Cpu) (cur : EnvIdx) (envid : Word) :
    Except Exit (Word × Kernel) :=
  match envid2env k cur envid true with
  | none => .ok (-E_BAD_ENV, k)
  | some e => do
    let k ← envDestroy k c e
    return (0, k)

def sysYield (k : Kernel) (c : Cpu) : Exit := schedYield k c

/-- The child starts as a copy of the parent that sees `sys_exofork` return zero. -/
def exoforkChild (k : Kernel) (cur child : EnvIdx) : Kernel :=
  k.setEnv child fun env =>
    { env with envTf := (k.envs cur).envTf.setEax 0, envStatus := ENV_NOT_RUNNABLE }

def sysExofork (k : Kernel) (cur : EnvIdx) : Except Exit (Word × Kernel) := do
  match ← orPanic (envAlloc k (k.envs cur).envId) with
  | (.error r, k) => return (r, k)
  | (.ok child, k) =>
    let k := exoforkChild k cur child
    if (k.envs child).envId = (k.envs cur).envId then return (0, k)
    return ((k.envs child).envId, k)

def sysEnvSetStatus (k : Kernel) (cur : EnvIdx) (envid status : Word) : Word × Kernel :=
  match envid2env k cur envid true with
  | none => (-E_BAD_ENV, k)
  | some e =>
    if ENV_RUNNABLE ≠ (k.envs e).envStatus ∧ ENV_NOT_RUNNABLE ≠ (k.envs e).envStatus then
      (-E_INVAL, k)
    else (0, k.setStatus e status)

def sysEnvSetPgfaultUpcall (k : Kernel) (cur : EnvIdx) (envid func : Word) : Word × Kernel :=
  match envid2env k cur envid true with
  | none => (-E_BAD_ENV, k)
  | some e => (0, k.setEnv e fun env => { env with envPgfaultUpcall := func })

/-! ## Pages -/

def sysPageAlloc (k : Kernel) (cur : EnvIdx) (envid va perm : Word) :
    Except String (Word × Kernel) :=
  match envid2env k cur envid true with
  | none => .ok (-E_BAD_ENV, k)
  | some e =>
    if UTOP ≤ va ∨ perm &&& ~~~PTE_SYSCALL ≠ 0 then .ok (-E_INVAL, k)
    else match pageAlloc k.phys true with
      | (none, σ) => .ok (-E_NO_MEM, { k with phys := σ })
      | (some pageNeed, σ) => do
        let d ← k.pgdir e
        let (r, σ) ← pageInsert σ d (some pageNeed) va perm
        if r ≠ 0 then return (-E_NO_MEM, { k with phys := pageFree σ pageNeed })
        return (0, { k with phys := σ })

def sysPageMap (k : Kernel) (cur : EnvIdx) (srcenvid srcva dstenvid dstva perm : Word) :
    Except String (Word × Kernel) :=
  match envid2env k cur srcenvid true, envid2env k cur dstenvid false with
  | some srcE, some dstE =>
    if checkAddrScale srcva 0 UTOP = false ∨ checkAddrScale dstva 0 UTOP = false ∨
        PGOFF srcva ≠ 0 ∨ PGOFF dstva ≠ 0 then .ok (-E_INVAL, k)
    else do
      match ← pageLookup k.phys (← k.pgdir srcE) srcva with
      | none => return (-E_INVAL, k)
      | some (srcPage, srcPte) =>
        if k.phys.load srcPte &&& PTE_W = 0 ∧ perm &&& PTE_W ≠ 0 then return (-E_INVAL, k)
        let (r, σ) ← pageInsert k.phys (← k.pgdir dstE) (some srcPage) dstva perm
        return (r, { k with phys := σ })
  | _, _ => .ok (-E_BAD_ENV, k)

def sysPageUnmap (k : Kernel) (cur : EnvIdx) (envid va : Word) : Except String (Word × Kernel) :=
  match envid2env k cur envid true with
  | none => .ok (-E_BAD_ENV, k)
  | some e =>
    if checkAddrScale va 0 UTOP = false then .ok (-E_INVAL, k)
    else do
      let σ ← pageRemove k.phys (← k.pgdir e) va
      return (0, { k with phys := σ })

/-! ## IPC -/

/-- The tests `sys_ipc_try_send` makes on the page to be sent; `none` if they pass. -/
def ipcCheckPage (k : Kernel) (cur : EnvIdx) (srcva perm : Word) : Except String (Option Word) :=
  if srcva = IPC_NO_PAGE then .ok none
  else if UTOP ≤ srcva ∨ PGOFF srcva ≠ 0 then .ok (some (-E_INVAL))
  else if perm &&& ~~~PTE_SYSCALL ≠ 0 then .ok (some (-E_INVAL))
  else do
    match ← pageLookup k.phys (← k.pgdir cur) srcva with
    | none => return some (-E_INVAL)
    | some (_, srcPte) =>
      if k.phys.load srcPte &&& PTE_W = 0 ∧ perm &&& PTE_W ≠ 0 then return some (-E_INVAL)
      return none

/-- The message goes into the receiver's `Env`, and its blocked `sys_ipc_recv` returns. -/
def ipcDeliver (k : Kernel) (cur uenv : EnvIdx) (value : Word) : Kernel :=
  k.setEnv uenv fun env =>
    { env with
      envIpcFrom := (k.envs cur).envId
      envIpcValue := value
      envTf := env.envTf.setEax 0
      envIpcRecving := false
      envStatus := ENV_RUNNABLE }

def setIpcPerm (k : Kernel) (e : EnvIdx) (perm : Word) : Kernel :=
  k.setEnv e fun env => { env with envIpcPerm := perm }

/-- The page transfer of `sys_ipc_try_send`, when both sides want one. -/
def ipcTransfer (k : Kernel) (cur uenv : EnvIdx) (envid srcva perm : Word) :
    Except String (Option Word × Kernel) := do
  let dstva := (k.envs uenv).envIpcDstva
  if (← pageLookup k.phys (← k.pgdir uenv) dstva) ≠ none then return (some (-E_NO_MEM), k)
  let (_, k) ← sysPageMap k cur (k.envs cur).envId srcva envid dstva perm
  if (← pageLookup k.phys (← k.pgdir uenv) dstva) = none then
    .error "!!! sys_try_send: error map mapge!!!"
  return (none, setIpcPerm k uenv perm)

def sysIpcTrySend (k : Kernel) (cur : EnvIdx) (envid value srcva perm : Word) :
    Except String (Word × Kernel) :=
  match envid2env k cur envid false with
  | none => .ok (-E_BAD_ENV, k)
  | some uenv =>
    if (k.envs uenv).envIpcRecving = false then .ok (-E_IPC_NOT_RECV, k)
    else do
      match ← ipcCheckPage k cur srcva perm with
      | some r => return (r, k)
      | none =>
        let k := setIpcPerm k uenv 0
        if IPC_NO_PAGE ≠ srcva ∧ IPC_NO_PAGE ≠ (k.envs uenv).envIpcDstva then
          match ← ipcTransfer k cur uenv envid srcva perm with
          | (some r, k) => return (r, k)
          | (none, k) => return (0, ipcDeliver k cur uenv value)
        else
          return (0, ipcDeliver k cur uenv value)

/-- The caller blocks: it waits for a message at `dstva`. -/
def ipcBlock (k : Kernel) (cur : EnvIdx) (dstva : Word) : Kernel :=
  k.setEnv cur fun env =>
    { env with envIpcRecving := true, envIpcDstva := dstva, envStatus := ENV_NOT_RUNNABLE }

/-- `sys_ipc_recv` only returns on error; otherwise it yields until a message has arrived. -/
def sysIpcRecv (k : Kernel) (c : Cpu) (cur : EnvIdx) (dstva : Word) : Except Exit (Word × Kernel) :=
  if IPC_NO_PAGE ≠ dstva ∧ (UTOP ≤ dstva ∨ PGOFF dstva ≠ 0) then .ok (-E_INVAL, k)
  else .error (sysYield (ipcBlock k cur dstva) c)

/-! ## The dispatcher -/

/-- `syscall`. -/
def syscall (k : Kernel) (c : Cpu) (cur : EnvIdx) (input : Word)
    (syscallno a1 a2 a3 a4 a5 : Word) : Except Exit (Word × Kernel) :=
  if syscallno = SYS_cputs then do return (0, ← sysCputs k c cur a1 a2)
  else if syscallno = SYS_cgetc then .ok (input, k)
  else if syscallno = SYS_getenvid then .ok (sysGetenvid k cur, k)
  else if syscallno = SYS_env_destroy then sysEnvDestroy k c cur a1
  else if syscallno = SYS_yield then .error (sysYield k c)
  else if syscallno = SYS_exofork then sysExofork k cur
  else if syscallno = SYS_page_alloc then orPanic (sysPageAlloc k cur a1 a2 a3)
  else if syscallno = SYS_page_map then orPanic (sysPageMap k cur a1 a2 a3 a4 a5)
  else if syscallno = SYS_page_unmap then orPanic (sysPageUnmap k cur a1 a2)
  else if syscallno = SYS_env_set_status then .ok (sysEnvSetStatus k cur a1 a2)
  else if syscallno = SYS_env_set_pgfault_upcall then .ok (sysEnvSetPgfaultUpcall k cur a1 a2)
  else if syscallno = SYS_ipc_try_send then orPanic (sysIpcTrySend k cur a1 a2 a3 a4)
  else if syscallno = SYS_ipc_recv then sysIpcRecv k c cur a1
  else .ok (-E_INVAL, k)

end Jos
