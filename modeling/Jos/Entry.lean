import Jos.Trap
import Jos.Lib.Loop

/-!
# What a kernel entry does

The proofs about whole runs never unfold `trap` or `syscall`. They use the two inversions of
this file: `syscall_cases` lists what a system call can have done when it returns
(`SysReturn`) or ends the entry (`SysExit`), and `trap_cases` does the same for a trap
(`Entry`). The constructors carry the tests that were passed on the way.

After that, every entry that does not panic ends in the scheduler, in `env_run` of the current
environment, or in the monitor; `sched_cases` says what the scheduler can pick.
-/

namespace Jos

open Lib

/-! ## System calls -/

/-- A system call number with its arguments. -/
structure Call where
  no : Word
  a1 : Word
  a2 : Word
  a3 : Word
  a4 : Word
  a5 : Word

/-- The system call that a trap frame asks for. -/
def Trapframe.call (tf : Trapframe) : Call where
  no := tf.tfRegs.regEax
  a1 := tf.tfRegs.regEdx
  a2 := tf.tfRegs.regEcx
  a3 := tf.tfRegs.regEbx
  a4 := tf.tfRegs.regEdi
  a5 := tf.tfRegs.regEsi

def Call.run (k : Kernel) (c : Cpu) (cur : EnvIdx) (input : Word) (x : Call) :
    Except Exit (Word × Kernel) :=
  syscall k c cur input x.no x.a1 x.a2 x.a3 x.a4 x.a5

/-- `sys_ipc_recv` blocks if its argument is valid. -/
def RecvBlocks (dstva : Word) : Prop := ¬ (IPC_NO_PAGE ≠ dstva ∧ (UTOP ≤ dstva ∨ PGOFF dstva ≠ 0))

instance (dstva : Word) : Decidable (RecvBlocks dstva) := by unfold RecvBlocks; infer_instance

/-- `user_mem_assert` finds that environment `e` may not access the range. -/
def memFaults (k : Kernel) (e : EnvIdx) (va len perm : Word) : Bool :=
  match k.pgdir e with
  | .error _ => false
  | .ok d =>
    match userMemCheck k.phys d va len (perm ||| PTE_U) with
    | .error _ => false
    | .ok r => r.toInt < 0

/-- What a system call has done when it returns `r`. -/
inductive SysReturn (c : Cpu) (cur : EnvIdx) (k : Kernel) (x : Call) : Word → Kernel → Prop
  | same (r : Word) (hno : x.no ≠ SYS_ipc_try_send)
      (hrecv : x.no = SYS_ipc_recv → ¬ RecvBlocks x.a1) : SysReturn c cur k x r k
  | pageAlloc {r : Word} {k' : Kernel} (hno : x.no = SYS_page_alloc)
      (h : sysPageAlloc k cur x.a1 x.a2 x.a3 = .ok (r, k')) : SysReturn c cur k x r k'
  | pageMap {r : Word} {k' : Kernel} (hno : x.no = SYS_page_map)
      (h : sysPageMap k cur x.a1 x.a2 x.a3 x.a4 x.a5 = .ok (r, k')) : SysReturn c cur k x r k'
  | pageUnmap {r : Word} {k' : Kernel} (hno : x.no = SYS_page_unmap)
      (h : sysPageUnmap k cur x.a1 x.a2 = .ok (r, k')) : SysReturn c cur k x r k'
  | dying {e : EnvIdx} (hno : x.no = SYS_env_destroy) (hf : envid2env k cur x.a1 true = some e)
      (hr : (k.envs e).envStatus = ENV_RUNNING) (hne : k.cpuEnv c ≠ some e) :
      SysReturn c cur k x 0 (k.setStatus e ENV_DYING)
  | free {e : EnvIdx} {k' : Kernel} (hno : x.no = SYS_env_destroy)
      (hf : envid2env k cur x.a1 true = some e) (hr : (k.envs e).envStatus ≠ ENV_RUNNING)
      (hne : k.cpuEnv c ≠ some e) (h : envFree k c e = .ok k') : SysReturn c cur k x 0 k'
  | exofork {r : Word} {k' : Kernel} (hno : x.no = SYS_exofork)
      (h : sysExofork k cur = .ok (r, k')) : SysReturn c cur k x r k'
  | setStatus {e : EnvIdx} (hno : x.no = SYS_env_set_status)
      (hf : envid2env k cur x.a1 true = some e)
      (hs : (k.envs e).envStatus = ENV_RUNNABLE ∨ (k.envs e).envStatus = ENV_NOT_RUNNABLE) :
      SysReturn c cur k x 0 (k.setStatus e x.a2)
  | setUpcall {e : EnvIdx} (hno : x.no = SYS_env_set_pgfault_upcall)
      (hf : envid2env k cur x.a1 true = some e) :
      SysReturn c cur k x 0 (k.setEnv e fun env => { env with envPgfaultUpcall := x.a2 })
  | send {r : Word} {k' : Kernel} (hno : x.no = SYS_ipc_try_send)
      (h : sysIpcTrySend k cur x.a1 x.a2 x.a3 x.a4 = .ok (r, k')) : SysReturn c cur k x r k'

/-- How a system call ends the kernel entry. -/
inductive SysExit (c : Cpu) (cur : EnvIdx) (k : Kernel) (x : Call) : Exit → Prop
  | panic (msg : String) : SysExit c cur k x (.panic msg)
  | yield (hno : x.no = SYS_yield) : SysExit c cur k x (schedYield k c)
  | recv (hno : x.no = SYS_ipc_recv) (hblk : RecvBlocks x.a1) :
      SysExit c cur k x (schedYield (ipcBlock k cur x.a1) c)
  | destroySelf {k' : Kernel}
      (hno : x.no = SYS_env_destroy ∧ envid2env k cur x.a1 true = some cur ∨
        x.no = SYS_cputs ∧ memFaults k cur x.a1 x.a2 (PTE_U ||| PTE_P) = true)
      (h : envFree k c cur = .ok k') : SysExit c cur k x (schedYield (k'.setCurenv c none) c)

variable {c : Cpu} {cur e : EnvIdx} {k k' : Kernel} {x : Call} {input r : Word} {exit : Exit}

theorem orPanic_ok {α : Type} {y : Except String α} {a : α} : orPanic y = .ok a ↔ y = .ok a := by
  cases y <;> simp [orPanic]

theorem orPanic_error {α : Type} {y : Except String α} (h : orPanic y = .error exit) :
    ∃ msg, exit = .panic msg := by
  cases y with
  | error msg => exact ⟨msg, (Except.error.inj h).symm⟩
  | ok a => simp [orPanic] at h

@[simp] theorem cpuEnv_leave (k : Kernel) (c : Cpu) (e : EnvIdx) :
    (k.leave c e).cpuEnv = k.cpuEnv := by
  unfold Kernel.leave
  split <;> rfl

theorem cpuEnv_envFree (h : envFree k c e = .ok k') : k'.cpuEnv = k.cpuEnv := by
  unfold envFree at h
  obtain ⟨d, -, h⟩ := bind_eq_ok.1 h
  obtain ⟨σ, -, h⟩ := bind_eq_ok.1 h
  cases h
  exact cpuEnv_leave k c e

/-- `env_destroy` marks a running environment, frees another one, or frees the current one and
ends the entry. -/
theorem envDestroy_ok (h : envDestroy k c e = .ok k') :
    k.cpuEnv c ≠ some e ∧
      ((k.envs e).envStatus = ENV_RUNNING ∧ k' = k.setStatus e ENV_DYING ∨
        (k.envs e).envStatus ≠ ENV_RUNNING ∧ envFree k c e = .ok k') := by
  unfold envDestroy at h
  split_ifs at h with hr
  · cases h
    exact ⟨hr.2, .inl ⟨hr.1, rfl⟩⟩
  · obtain ⟨k₁, hfree, h⟩ := bind_eq_ok.1 h
    rw [orPanic_ok] at hfree
    split_ifs at h with hcur
    cases h
    rw [cpuEnv_envFree hfree] at hcur
    exact ⟨hcur, .inr ⟨fun hst => hr ⟨hst, hcur⟩, hfree⟩⟩

theorem envDestroy_error (h : envDestroy k c e = .error exit) :
    (∃ msg, exit = .panic msg) ∨
      k.cpuEnv c = some e ∧ ∃ k', envFree k c e = .ok k' ∧
        exit = schedYield (k'.setCurenv c none) c := by
  unfold envDestroy at h
  split_ifs at h with hr
  cases hfree : envFree k c e with
  | error msg =>
    rw [hfree] at h
    cases h
    exact .inl ⟨msg, rfl⟩
  | ok k₁ =>
    rw [hfree] at h
    simp only [orPanic, Except.mapError, ok_bind] at h
    split_ifs at h with hcur
    rw [cpuEnv_envFree hfree] at hcur
    exact .inr ⟨hcur, k₁, rfl, (Except.error.inj h).symm⟩

/-- `user_mem_assert` lets the call go on, or destroys the environment it is about. -/
theorem userMemAssert_ok {va len perm : Word} (hcur : k.cpuEnv c = some cur)
    (h : userMemAssert k c cur va len perm = .ok k') : k' = k := by
  unfold userMemAssert at h
  obtain ⟨d, -, h⟩ := bind_eq_ok.1 h
  obtain ⟨r, -, h⟩ := bind_eq_ok.1 h
  split_ifs at h
  · exact ((envDestroy_ok h).1 hcur).elim
  · cases h
    rfl

theorem userMemAssert_error {va len perm : Word}
    (h : userMemAssert k c cur va len perm = .error exit) :
    (∃ msg, exit = .panic msg) ∨
      memFaults k cur va len perm = true ∧
        ∃ k', envFree k c cur = .ok k' ∧ exit = schedYield (k'.setCurenv c none) c := by
  unfold userMemAssert at h
  cases hd : orPanic (k.pgdir cur) with
  | error ex =>
    rw [hd] at h
    cases h
    exact .inl (orPanic_error hd)
  | ok d =>
    rw [hd, ok_bind] at h
    cases hr : orPanic (userMemCheck k.phys d va len (perm ||| PTE_U)) with
    | error ex =>
      rw [hr] at h
      cases h
      exact .inl (orPanic_error hr)
    | ok r =>
      rw [hr, ok_bind] at h
      split_ifs at h with hneg
      · rcases envDestroy_error h with hp | ⟨-, hfree⟩
        · exact .inl hp
        · refine .inr ⟨?_, hfree⟩
          rw [orPanic_ok] at hd hr
          simpa only [memFaults, hd, hr, decide_eq_true_eq] using hneg
      · cases h

theorem sysEnvDestroy_ok {envid : Word} (hno : x.no = SYS_env_destroy) (hid : x.a1 = envid)
    (h : sysEnvDestroy k c cur envid = .ok (r, k')) : SysReturn c cur k x r k' := by
  subst hid
  unfold sysEnvDestroy at h
  cases hf : envid2env k cur x.a1 true with
  | none =>
    rw [hf] at h
    cases h
    exact .same _ (by rw [hno]; decide) (by rw [hno]; intro hc; exact absurd hc (by decide))
  | some e =>
    rw [hf] at h
    obtain ⟨k₁, hd, h⟩ := bind_eq_ok.1 h
    cases h
    obtain ⟨hne, ⟨hr, rfl⟩ | ⟨hr, hfree⟩⟩ := envDestroy_ok hd
    · exact .dying hno hf hr hne
    · exact .free hno hf hr hne hfree

theorem sysEnvSetStatus_ok (hno : x.no = SYS_env_set_status)
    (h : sysEnvSetStatus k cur x.a1 x.a2 = (r, k')) : SysReturn c cur k x r k' := by
  unfold sysEnvSetStatus at h
  cases hf : envid2env k cur x.a1 true with
  | none =>
    rw [hf] at h
    cases h
    exact .same _ (by rw [hno]; decide) (by rw [hno]; intro hc; exact absurd hc (by decide))
  | some e =>
    rw [hf] at h
    simp only at h
    split_ifs at h with hs
    · cases h
      exact .same _ (by rw [hno]; decide) (by rw [hno]; intro hc; exact absurd hc (by decide))
    · cases h
      refine .setStatus hno hf ?_
      by_cases hrun : (k.envs e).envStatus = ENV_RUNNABLE
      · exact .inl hrun
      · exact .inr (not_not.1 fun hn => hs ⟨fun hc => hrun hc.symm, fun hc => hn hc.symm⟩)

theorem sysEnvSetPgfaultUpcall_ok (hno : x.no = SYS_env_set_pgfault_upcall)
    (h : sysEnvSetPgfaultUpcall k cur x.a1 x.a2 = (r, k')) : SysReturn c cur k x r k' := by
  unfold sysEnvSetPgfaultUpcall at h
  cases hf : envid2env k cur x.a1 true with
  | none =>
    rw [hf] at h
    cases h
    exact .same _ (by rw [hno]; decide) (by rw [hno]; intro hc; exact absurd hc (by decide))
  | some e =>
    rw [hf] at h
    cases h
    exact .setUpcall hno hf

/-- What a system call that returns can have done. -/
theorem syscall_ok (hcur : k.cpuEnv c = some cur) (h : x.run k c cur input = .ok (r, k')) :
    SysReturn c cur k x r k' := by
  unfold Call.run syscall at h
  by_cases h0 : x.no = SYS_cputs
  · rw [if_pos h0] at h
    obtain ⟨k₁, hmem, h⟩ := bind_eq_ok.1 h
    cases h
    rw [userMemAssert_ok hcur hmem]
    exact .same _ (by rw [h0]; decide) (by rw [h0]; intro hc; exact absurd hc (by decide))
  rw [if_neg h0] at h
  by_cases h1 : x.no = SYS_cgetc
  · rw [if_pos h1] at h
    cases h
    exact .same _ (by rw [h1]; decide) (by rw [h1]; intro hc; exact absurd hc (by decide))
  rw [if_neg h1] at h
  by_cases h2 : x.no = SYS_getenvid
  · rw [if_pos h2] at h
    cases h
    exact .same _ (by rw [h2]; decide) (by rw [h2]; intro hc; exact absurd hc (by decide))
  rw [if_neg h2] at h
  by_cases h3 : x.no = SYS_env_destroy
  · rw [if_pos h3] at h
    exact sysEnvDestroy_ok h3 rfl h
  rw [if_neg h3] at h
  by_cases h4 : x.no = SYS_yield
  · rw [if_pos h4] at h
    cases h
  rw [if_neg h4] at h
  by_cases h5 : x.no = SYS_exofork
  · rw [if_pos h5] at h
    exact .exofork h5 h
  rw [if_neg h5] at h
  by_cases h6 : x.no = SYS_page_alloc
  · rw [if_pos h6] at h
    exact .pageAlloc h6 (orPanic_ok.1 h)
  rw [if_neg h6] at h
  by_cases h7 : x.no = SYS_page_map
  · rw [if_pos h7] at h
    exact .pageMap h7 (orPanic_ok.1 h)
  rw [if_neg h7] at h
  by_cases h8 : x.no = SYS_page_unmap
  · rw [if_pos h8] at h
    exact .pageUnmap h8 (orPanic_ok.1 h)
  rw [if_neg h8] at h
  by_cases h9 : x.no = SYS_env_set_status
  · rw [if_pos h9] at h
    exact sysEnvSetStatus_ok h9 (Except.ok.inj h)
  rw [if_neg h9] at h
  by_cases h10 : x.no = SYS_env_set_pgfault_upcall
  · rw [if_pos h10] at h
    exact sysEnvSetPgfaultUpcall_ok h10 (Except.ok.inj h)
  rw [if_neg h10] at h
  by_cases h11 : x.no = SYS_ipc_try_send
  · rw [if_pos h11] at h
    exact .send h11 (orPanic_ok.1 h)
  rw [if_neg h11] at h
  by_cases h12 : x.no = SYS_ipc_recv
  · rw [if_pos h12] at h
    unfold sysIpcRecv at h
    split_ifs at h with hbad
    cases h
    exact .same _ h11 fun _ hblk => hblk hbad
  rw [if_neg h12] at h
  cases h
  exact .same _ h11 fun hc => (h12 hc).elim

theorem SysExit.of_orPanic {α : Type} {y : Except String α} (h : orPanic y = .error exit) :
    SysExit c cur k x exit := by
  obtain ⟨msg, rfl⟩ := orPanic_error h
  exact .panic msg

theorem sysEnvDestroy_error (hcur : k.cpuEnv c = some cur) (hno : x.no = SYS_env_destroy)
    (h : sysEnvDestroy k c cur x.a1 = .error exit) : SysExit c cur k x exit := by
  unfold sysEnvDestroy at h
  cases hf : envid2env k cur x.a1 true with
  | none => simp only [hf] at h; cases h
  | some e =>
    simp only [hf] at h
    cases hd : envDestroy k c e with
    | ok k₁ => rw [hd] at h; cases h
    | error ex =>
      rw [hd, error_bind] at h
      cases h
      rcases envDestroy_error hd with ⟨msg, rfl⟩ | ⟨he, k₁, hfree, hexit⟩
      · exact .panic msg
      · rw [hcur, Option.some.injEq] at he
        subst he
        rw [hexit]
        exact .destroySelf (.inl ⟨hno, hf⟩) hfree

theorem sysExofork_error (h : sysExofork k cur = .error exit) : ∃ msg, exit = .panic msg := by
  unfold sysExofork at h
  cases ha : orPanic (envAlloc k (k.envs cur).envId) with
  | error ex =>
    rw [ha] at h
    cases h
    exact orPanic_error ha
  | ok y =>
    rw [ha, ok_bind] at h
    obtain ⟨r | child, k₁⟩ := y
    · cases h
    · simp only [pure_eq_ok] at h
      split_ifs at h

/-- How a system call that does not return ends the entry. -/
theorem syscall_error (hcur : k.cpuEnv c = some cur) (h : x.run k c cur input = .error exit) :
    SysExit c cur k x exit := by
  unfold Call.run syscall at h
  by_cases h0 : x.no = SYS_cputs
  · rw [if_pos h0] at h
    cases hmem : sysCputs k c cur x.a1 x.a2 with
    | ok k₁ => rw [hmem] at h; cases h
    | error ex =>
      rw [hmem, error_bind] at h
      cases h
      rcases userMemAssert_error hmem with ⟨msg, rfl⟩ | ⟨hmf, k₁, hfree, hexit⟩
      · exact .panic msg
      · rw [hexit]
        exact .destroySelf (.inr ⟨h0, hmf⟩) hfree
  rw [if_neg h0] at h
  by_cases h1 : x.no = SYS_cgetc
  · rw [if_pos h1] at h
    cases h
  rw [if_neg h1] at h
  by_cases h2 : x.no = SYS_getenvid
  · rw [if_pos h2] at h
    cases h
  rw [if_neg h2] at h
  by_cases h3 : x.no = SYS_env_destroy
  · rw [if_pos h3] at h
    exact sysEnvDestroy_error hcur h3 h
  rw [if_neg h3] at h
  by_cases h4 : x.no = SYS_yield
  · rw [if_pos h4] at h
    rw [← Except.error.inj h]
    exact .yield h4
  rw [if_neg h4] at h
  by_cases h5 : x.no = SYS_exofork
  · rw [if_pos h5] at h
    obtain ⟨msg, rfl⟩ := sysExofork_error h
    exact .panic msg
  rw [if_neg h5] at h
  by_cases h6 : x.no = SYS_page_alloc
  · rw [if_pos h6] at h
    exact .of_orPanic h
  rw [if_neg h6] at h
  by_cases h7 : x.no = SYS_page_map
  · rw [if_pos h7] at h
    exact .of_orPanic h
  rw [if_neg h7] at h
  by_cases h8 : x.no = SYS_page_unmap
  · rw [if_pos h8] at h
    exact .of_orPanic h
  rw [if_neg h8] at h
  by_cases h9 : x.no = SYS_env_set_status
  · rw [if_pos h9] at h
    cases h
  rw [if_neg h9] at h
  by_cases h10 : x.no = SYS_env_set_pgfault_upcall
  · rw [if_pos h10] at h
    cases h
  rw [if_neg h10] at h
  by_cases h11 : x.no = SYS_ipc_try_send
  · rw [if_pos h11] at h
    exact .of_orPanic h
  rw [if_neg h11] at h
  by_cases h12 : x.no = SYS_ipc_recv
  · rw [if_pos h12] at h
    unfold sysIpcRecv at h
    split_ifs at h with hbad
    rw [← Except.error.inj h]
    exact .recv h12 hbad
  rw [if_neg h12] at h
  cases h

/-! ## Traps -/

/-- The current environment's trap frame is saved. -/
def Kernel.save (k : Kernel) (cur : EnvIdx) (tf : Trapframe) : Kernel :=
  k.setEnv cur fun env => { env with envTf := tf }

/-- The value a system call returns goes into the saved `eax`. -/
def Kernel.setEax (k : Kernel) (cur : EnvIdx) (r : Word) : Kernel :=
  k.setEnv cur fun env => { env with envTf := env.envTf.setEax r }

/-- The trap frame asks for a system call. -/
def Trapframe.IsSyscall (tf : Trapframe) : Prop := tf.tfTrapno = T_SYSCALL

instance (tf : Trapframe) : Decidable tf.IsSyscall := by
  unfold Trapframe.IsSyscall; infer_instance

/-- The trap destroys the environment it comes from: a page fault that cannot be passed on, a
system call that asks for it or passes bad memory, or a trap that nothing handles. -/
def Dooms (k : Kernel) (cur : EnvIdx) (tf : Trapframe) : Prop :=
  ¬ tf.IsIrq ∧
    if tf.tfTrapno = T_PGFLT then
      (k.envs cur).envPgfaultUpcall = 0 ∨
        memFaults k cur (k.envs cur).envPgfaultUpcall 0x1000#32 (PTE_U ||| PTE_P) = true ∨
        memFaults k cur (UXSTACKTOP - UTRAP_SIZE) UTRAP_SIZE (PTE_U ||| PTE_P ||| PTE_W) = true
    else if tf.IsSyscall then
      tf.call.no = SYS_env_destroy ∧ envid2env k cur tf.call.a1 true = some cur ∨
        tf.call.no = SYS_cputs ∧ memFaults k cur tf.call.a1 tf.call.a2 (PTE_U ||| PTE_P) = true
    else True

instance (k : Kernel) (cur : EnvIdx) (tf : Trapframe) : Decidable (Dooms k cur tf) := by
  unfold Dooms; infer_instance

theorem Dooms.not_irq {k : Kernel} {cur : EnvIdx} {tf : Trapframe} (h : Dooms k cur tf) :
    ¬ tf.IsIrq := h.1

/-- The system calls that destroy their environment. -/
theorem Dooms.call {k : Kernel} {cur : EnvIdx} {tf : Trapframe} (h : Dooms k cur tf)
    (hsys : tf.IsSyscall) : tf.call.no = SYS_env_destroy ∨ tf.call.no = SYS_cputs := by
  have hpf : tf.tfTrapno ≠ T_PGFLT := by
    rw [hsys]
    decide
  have h₂ := h.2
  rw [if_neg hpf, if_pos hsys] at h₂
  exact h₂.imp And.left And.left

/-- What a trap on CPU `c` from environment `cur` does. -/
inductive Entry (c : Cpu) (cur : EnvIdx) (k : Kernel) (tf : Trapframe) (cr2 input : Word) :
    Exit → Prop
  | panic (msg : String) : Entry c cur k tf cr2 input (.panic msg)
  | reap {k' : Kernel} (hd : (k.envs cur).envStatus = ENV_DYING) (h : envFree k c cur = .ok k') :
      Entry c cur k tf cr2 input (schedYield (k'.setCurenv c none) c)
  | destroySelf {k' : Kernel} (hd : (k.envs cur).envStatus ≠ ENV_DYING) (hdoom : Dooms k cur tf)
      (h : envFree (k.save cur tf) c cur = .ok k') :
      Entry c cur k tf cr2 input (schedYield (k'.setCurenv c none) c)
  | yield (hd : (k.envs cur).envStatus ≠ ENV_DYING)
      (hno : tf.IsSyscall → tf.call.no = SYS_yield) :
      Entry c cur k tf cr2 input (schedYield (k.save cur tf) c)
  | monitor (hd : (k.envs cur).envStatus ≠ ENV_DYING) (hbp : tf.tfTrapno = T_BRKPT) :
      Entry c cur k tf cr2 input (.monitor (k.save cur tf))
  | irq (hd : (k.envs cur).envStatus ≠ ENV_DYING) (hirq : tf.IsIrq) :
      Entry c cur k tf cr2 input (trapReturn (k.save cur tf) c)
  | recv (hd : (k.envs cur).envStatus ≠ ENV_DYING) (hsys : tf.IsSyscall)
      (hno : tf.call.no = SYS_ipc_recv) (hblk : RecvBlocks tf.call.a1) :
      Entry c cur k tf cr2 input (schedYield (ipcBlock (k.save cur tf) cur tf.call.a1) c)
  | call {r : Word} {k' : Kernel} (hd : (k.envs cur).envStatus ≠ ENV_DYING) (hsys : tf.IsSyscall)
      (hrun : tf.call.run (k.save cur tf) c cur input = .ok (r, k'))
      (h : SysReturn c cur (k.save cur tf) tf.call r k') :
      Entry c cur k tf cr2 input (trapReturn (k'.setEax cur r) c)
  | fault {σ : Phys} (hd : (k.envs cur).envStatus ≠ ENV_DYING) (hpf : tf.tfTrapno = T_PGFLT)
      (h : (uxFrame tf cr2).2.foldlM (kernStoreWord (k.cr3 c)) k.phys = .ok σ) :
      Entry c cur k tf cr2 input (.run ((k.save cur tf).upcall cur σ cr2) cur)

variable {tf : Trapframe} {cr2 : Word}

theorem not_irq_of_syscall (hs : tf.IsSyscall) : ¬ tf.IsIrq := by
  intro hirq
  have hle := hirq.2
  rw [hs] at hle
  exact absurd hle (by decide)

theorem envTf_save (k : Kernel) (cur : EnvIdx) (tf : Trapframe) :
    ((k.save cur tf).envs cur).envTf = tf := by
  simp [Kernel.save, Kernel.setEnv]

theorem envid2env_save (k : Kernel) (cur : EnvIdx) (tf : Trapframe) (e : EnvIdx) (envid : Word)
    (b : Bool) : envid2env (k.save cur tf) e envid b = envid2env k e envid b := by
  have hread : ∀ e', ((k.save cur tf).envs e').envStatus = (k.envs e').envStatus ∧
      ((k.save cur tf).envs e').envId = (k.envs e').envId ∧
      ((k.save cur tf).envs e').envParentId = (k.envs e').envParentId := by
    intro e'
    by_cases he : e' = cur
    · subst he
      simp [Kernel.save, Kernel.setEnv]
    · simp [Kernel.save, Kernel.setEnv, he]
  unfold envid2env
  simp only [(hread _).1, (hread _).2.1, (hread _).2.2]

theorem memFaults_save (k : Kernel) (cur : EnvIdx) (tf : Trapframe) (va len perm : Word) :
    memFaults (k.save cur tf) cur va len perm = memFaults k cur va len perm := by
  have hdir : (k.save cur tf).pgdir cur = k.pgdir cur := by
    simp [Kernel.pgdir, Kernel.save, Kernel.setEnv]
  have hphys : (k.save cur tf).phys = k.phys := rfl
  unfold memFaults
  rw [hdir, hphys]

theorem envPgfaultUpcall_save (k : Kernel) (cur : EnvIdx) (tf : Trapframe) :
    ((k.save cur tf).envs cur).envPgfaultUpcall = (k.envs cur).envPgfaultUpcall := by
  simp [Kernel.save, Kernel.setEnv]

theorem Entry.of_destroy (hd : (k.envs cur).envStatus ≠ ENV_DYING) (hdoom : Dooms k cur tf)
    (h : envDestroy (k.save cur tf) c cur = .error exit) : Entry c cur k tf cr2 input exit := by
  rcases envDestroy_error h with ⟨msg, rfl⟩ | ⟨-, k₁, hfree, hexit⟩
  · exact .panic msg
  · rw [hexit]
    exact .destroySelf hd hdoom hfree

theorem Entry.of_assert {va len perm : Word} (hd : (k.envs cur).envStatus ≠ ENV_DYING)
    (hdoom : memFaults k cur va len perm = true → Dooms k cur tf)
    (h : userMemAssert (k.save cur tf) c cur va len perm = .error exit) :
    Entry c cur k tf cr2 input exit := by
  rcases userMemAssert_error h with ⟨msg, rfl⟩ | ⟨hmf, k₁, hfree, hexit⟩
  · exact .panic msg
  · rw [hexit]
    rw [memFaults_save] at hmf
    exact .destroySelf hd (hdoom hmf) hfree

theorem Entry.of_pushUxFrame (hd : (k.envs cur).envStatus ≠ ENV_DYING)
    (hpf : tf.tfTrapno = T_PGFLT) :
    Entry c cur k tf cr2 input (pushUxFrame (k.save cur tf) c cur cr2) := by
  unfold pushUxFrame
  simp only [envTf_save]
  split_ifs with hun
  · exact .panic _
  · cases hst : (uxFrame tf cr2).2.foldlM (kernStoreWord ((k.save cur tf).cr3 c))
      (k.save cur tf).phys with
    | error msg => exact .panic msg
    | ok σ => exact .fault hd hpf hst

theorem Entry.of_orPanic {α : Type} {y : Except String α} (h : orPanic y = .error exit) :
    Entry c cur k tf cr2 input exit := by
  obtain ⟨msg, rfl⟩ := orPanic_error h
  exact .panic msg

theorem pageFaultHandler_cases (cr2 input : Word) (hcur : k.cpuEnv c = some cur)
    (hd : (k.envs cur).envStatus ≠ ENV_DYING) (hirq : ¬ tf.IsIrq) (hpf : tf.tfTrapno = T_PGFLT) :
    ∃ exit, pageFaultHandler (k.save cur tf) c cur cr2 = .error exit ∧
      Entry c cur k tf cr2 input exit := by
  have hcur' : (k.save cur tf).cpuEnv c = some cur := hcur
  have hup := envPgfaultUpcall_save k cur tf
  unfold pageFaultHandler
  by_cases hcs : ((k.save cur tf).envs cur).envTf.tfCs &&& 3 = 0
  · rw [if_pos hcs]
    exact ⟨_, rfl, .panic _⟩
  rw [if_neg hcs]
  cases hdir : orPanic ((k.save cur tf).pgdir cur) with
  | error ex => exact ⟨ex, rfl, .of_orPanic hdir⟩
  | ok d =>
    rw [ok_bind]
    cases hwalk : orPanic (pgdirWalk (k.save cur tf).phys d cr2 false) with
    | error ex => exact ⟨ex, rfl, .of_orPanic hwalk⟩
    | ok y =>
      rw [ok_bind]
      split_ifs with hnone
      · cases hdes : envDestroy (k.save cur tf) c cur with
        | error ex =>
          refine ⟨ex, rfl, .of_destroy hd ⟨hirq, ?_⟩ hdes⟩
          rw [if_pos hpf, ← hup]
          exact .inl hnone
        | ok k₁ => exact ((envDestroy_ok hdes).1 hcur').elim
      · cases hm₁ : userMemAssert (k.save cur tf) c cur ((k.save cur tf).envs cur).envPgfaultUpcall
            0x1000#32 (PTE_U ||| PTE_P) with
        | error ex =>
          refine ⟨ex, rfl, .of_assert hd (fun hmf => ⟨hirq, ?_⟩) hm₁⟩
          rw [if_pos hpf, ← hup]
          exact .inr (.inl hmf)
        | ok k₁ =>
          cases userMemAssert_ok hcur' hm₁
          rw [ok_bind]
          cases hm₂ : userMemAssert (k.save cur tf) c cur (UXSTACKTOP - UTRAP_SIZE) UTRAP_SIZE
              (PTE_U ||| PTE_P ||| PTE_W) with
          | error ex =>
            refine ⟨ex, rfl, .of_assert hd (fun hmf => ⟨hirq, ?_⟩) hm₂⟩
            rw [if_pos hpf]
            exact .inr (.inr hmf)
          | ok k₂ =>
            cases userMemAssert_ok hcur' hm₂
            rw [ok_bind]
            exact ⟨_, rfl, .of_pushUxFrame hd hpf⟩

theorem irqDispatch_cases (c : Cpu) (tf : Trapframe) (cr2 input : Word) (hirq : tf.IsIrq)
    (hd : (k.envs cur).envStatus ≠ ENV_DYING) :
    (∃ exit, irqDispatch (k.save cur tf) c cur = .error exit ∧ Entry c cur k tf cr2 input exit) ∨
      irqDispatch (k.save cur tf) c cur = .ok (k.save cur tf) := by
  unfold irqDispatch
  simp only
  split_ifs
  · exact .inl ⟨_, rfl, .yield hd fun hs => (not_irq_of_syscall hs hirq).elim⟩
  · exact .inr rfl
  · exact .inl ⟨_, rfl, .panic _⟩
  · exact .inl ⟨_, rfl, .panic _⟩

theorem call_save (k : Kernel) (cur : EnvIdx) (tf : Trapframe) (c : Cpu) (input : Word) :
    syscall (k.save cur tf) c cur input tf.tfRegs.regEax tf.tfRegs.regEdx tf.tfRegs.regEcx
      tf.tfRegs.regEbx tf.tfRegs.regEdi tf.tfRegs.regEsi =
        tf.call.run (k.save cur tf) c cur input := rfl

theorem Entry.of_sysExit (hd : (k.envs cur).envStatus ≠ ENV_DYING) (hsys : tf.IsSyscall)
    (hirq : ¬ tf.IsIrq) (h : SysExit c cur (k.save cur tf) tf.call exit) :
    Entry c cur k tf cr2 input exit := by
  cases h with
  | panic msg => exact .panic msg
  | yield hno => exact .yield hd fun _ => hno
  | recv hno hblk => exact .recv hd hsys hno hblk
  | destroySelf hno hfree =>
    refine .destroySelf hd ⟨hirq, ?_⟩ hfree
    have hpf : tf.tfTrapno ≠ T_PGFLT := by
      rw [hsys]
      decide
    rw [envid2env_save, memFaults_save] at hno
    rw [if_neg hpf, if_pos hsys]
    exact hno

theorem trap_alive (hcur : k.cpuEnv c = some cur) (hd : (k.envs cur).envStatus ≠ ENV_DYING) :
    trap k c tf cr2 input = match trapDispatch (k.save cur tf) c cur cr2 input with
      | .error exit => exit
      | .ok k => trapReturn k c := by
  unfold trap
  simp only [hcur]
  rw [if_neg hd]
  rfl

/-- **Inversion of `trap`.** -/
theorem trap_cases (hcur : k.cpuEnv c = some cur) :
    Entry c cur k tf cr2 input (trap k c tf cr2 input) := by
  by_cases hd : (k.envs cur).envStatus = ENV_DYING
  · unfold trap
    simp only [hcur]
    rw [if_pos hd]
    cases hfree : envFree k c cur with
    | error msg => exact .panic msg
    | ok k₁ => exact .reap hd hfree
  · rw [trap_alive hcur hd]
    unfold trapDispatch
    simp only [envTf_save]
    by_cases hirq : tf.IsIrq
    · rw [if_pos hirq]
      rcases irqDispatch_cases c tf cr2 input hirq hd with ⟨exit, hex, hE⟩ | hok
      · rw [hex]
        exact hE
      · rw [hok]
        exact .irq hd hirq
    rw [if_neg hirq]
    by_cases hpf : tf.tfTrapno = T_PGFLT
    · rw [if_pos hpf]
      obtain ⟨exit, hex, hE⟩ := pageFaultHandler_cases cr2 input hcur hd hirq hpf
      rw [hex]
      exact hE
    rw [if_neg hpf]
    by_cases hbp : tf.tfTrapno = T_BRKPT
    · rw [if_pos hbp]
      exact .monitor hd hbp
    rw [if_neg hbp]
    by_cases hsys : tf.tfTrapno = T_SYSCALL
    · rw [if_pos hsys, call_save]
      cases hres : tf.call.run (k.save cur tf) c cur input with
      | error exit => exact .of_sysExit hd hsys hirq (syscall_error hcur hres)
      | ok y => exact .call hd hsys hres (syscall_ok hcur hres)
    rw [if_neg hsys]
    split_ifs with hkt
    · exact .panic _
    · cases hdes : envDestroy (k.save cur tf) c cur with
      | error ex =>
        have hsys' : ¬ tf.IsSyscall := hsys
        refine .of_destroy hd ⟨hirq, ?_⟩ hdes
        rw [if_neg hpf, if_neg hsys']
        trivial
      | ok k₁ => exact ((envDestroy_ok hdes).1 hcur).elim

/-! ## The scheduler -/

/-- The scheduler runs a runnable environment, or else the idle environment of its CPU. -/
theorem schedYield_run (h : schedYield k c = .run k' e) :
    k' = (schedStart k c).2 ∧
      (Schedulable k' e ∨ e = idleEnv c ∧
        ((k'.envs e).envStatus = ENV_RUNNABLE ∨ (k'.envs e).envStatus = ENV_RUNNING)) := by
  unfold schedYield at h
  simp only at h
  cases hfind : (circular (schedStart k c).1).find? (Schedulable (schedStart k c).2) with
  | some e₁ =>
    rw [hfind] at h
    cases h
    exact ⟨rfl, .inl (by simpa using List.find?_some hfind)⟩
  | none =>
    rw [hfind] at h
    simp only at h
    split_ifs at h with hmon hidle
    cases h
    exact ⟨rfl, .inr ⟨rfl, hidle⟩⟩

theorem schedYield_monitor (h : schedYield k c = .monitor k') : k' = (schedStart k c).2 := by
  unfold schedYield at h
  simp only at h
  cases hfind : (circular (schedStart k c).1).find? (Schedulable (schedStart k c).2) with
  | some e₁ =>
    rw [hfind] at h
    cases h
  | none =>
    rw [hfind] at h
    simp only at h
    split_ifs at h with hmon hidle
    cases h
    rfl

/-- A trap returns to the current environment, or to the scheduler. -/
theorem trapReturn_cases (hcur : k.cpuEnv c = some cur) :
    (k.envs cur).envStatus = ENV_RUNNING ∧ trapReturn k c = .run k cur ∨
      (k.envs cur).envStatus ≠ ENV_RUNNING ∧ trapReturn k c = schedYield k c := by
  unfold trapReturn
  simp only [hcur]
  split_ifs with hst
  · exact .inl ⟨hst, rfl⟩
  · exact .inr ⟨hst, rfl⟩

/-! ## What the calls do to the table of environments -/

/-- An environment that is found is the current one or a live one; with the permission check it
is the current one or a child of it. -/
theorem envid2env_some {envid : Word} {checkperm : Bool}
    (h : envid2env k cur envid checkperm = some e) :
    e = cur ∨ (k.envs e).envStatus ≠ ENV_FREE ∧
      (checkperm = true → (k.envs e).envParentId = (k.envs cur).envId) := by
  unfold envid2env at h
  simp only at h
  split_ifs at h with h1 h2 h3 h4
  · cases h
    exact .inl rfl
  · cases h
    by_cases hcur : ENVX envid = cur
    · exact .inl hcur
    · refine .inr ⟨fun hfree => h3 (.inl hfree), fun hcp => ?_⟩
      by_contra hpar
      exact h4 ⟨hcp, hcur, hpar⟩

theorem sysPageAlloc_phys {envid va perm : Word}
    (h : sysPageAlloc k cur envid va perm = .ok (r, k')) :
    k' = { k with phys := k'.phys } := by
  unfold sysPageAlloc at h
  cases hf : envid2env k cur envid true with
  | none => rw [hf] at h; cases h; rfl
  | some e =>
    simp only [hf] at h
    split_ifs at h with hbad
    · cases h; rfl
    · rcases hal : pageAlloc k.phys true with ⟨p | p, σ⟩
      · simp only [hal] at h
        cases h
        rfl
      · simp only [hal] at h
        obtain ⟨d, -, h⟩ := bind_eq_ok.1 h
        obtain ⟨⟨r', σ'⟩, -, h⟩ := bind_eq_ok.1 h
        simp only [pure_eq_ok] at h
        split_ifs at h <;> cases h <;> rfl

theorem sysPageMap_phys {srcenvid srcva dstenvid dstva perm : Word}
    (h : sysPageMap k cur srcenvid srcva dstenvid dstva perm = .ok (r, k')) :
    k' = { k with phys := k'.phys } := by
  unfold sysPageMap at h
  split at h
  · split_ifs at h with hbad
    · cases h; rfl
    · obtain ⟨d, -, h⟩ := bind_eq_ok.1 h
      obtain ⟨y, -, h⟩ := bind_eq_ok.1 h
      split at h
      · cases h; rfl
      · simp only [pure_eq_ok] at h
        split_ifs at h with hw
        · cases h; rfl
        · obtain ⟨d', -, h⟩ := bind_eq_ok.1 h
          obtain ⟨⟨r', σ'⟩, -, h⟩ := bind_eq_ok.1 h
          cases h
          rfl
  · cases h; rfl

theorem sysPageUnmap_phys {envid va : Word} (h : sysPageUnmap k cur envid va = .ok (r, k')) :
    k' = { k with phys := k'.phys } := by
  unfold sysPageUnmap at h
  cases hf : envid2env k cur envid true with
  | none => rw [hf] at h; cases h; rfl
  | some e =>
    simp only [hf] at h
    split_ifs at h with hbad
    · cases h; rfl
    · obtain ⟨d, -, h⟩ := bind_eq_ok.1 h
      obtain ⟨σ', -, h⟩ := bind_eq_ok.1 h
      cases h
      rfl

/-- The environment that `env_alloc` makes in slot `child`, with page directory `p`. -/
def newEnv (k : Kernel) (parentId : Word) (child : EnvIdx) (p : Nat) : Env :=
  { k.envs child with
    envTf := newTrapframe
    envId := nextEnvId (k.envs child).envId child
    envParentId := parentId
    envType := .USER
    envStatus := ENV_RUNNABLE
    envRuns := 0
    envPgdir := some p
    envPgfaultUpcall := 0
    envIpcRecving := false }

/-- The state once slot `child` at the head of the free list holds the new environment `env`. -/
def allocated (k : Kernel) (child : EnvIdx) (p : Nat) (env : Env) : Kernel :=
  { k with
    phys := initPgdir (pageAlloc k.phys true).2 p
    envs := Function.update k.envs child env
    envFreeList := (k.envs child).envLink }

theorem envAlloc_ok {parentId : Word} {res : Except Word EnvIdx}
    (h : envAlloc k parentId = .ok (res, k')) :
    (∃ r, res = .error r ∧ k' = k) ∨
      ∃ child p, res = .ok child ∧ k.envFreeList = some child ∧ k.phys.pageFreeList = some p ∧
        k' = allocated k child p (newEnv k parentId child p) := by
  unfold envAlloc at h
  obtain hfl | ⟨child, hfl⟩ := Option.eq_none_or_eq_some k.envFreeList
  · simp only [hfl] at h
    cases h
    exact .inl ⟨_, rfl, rfl⟩
  simp only [hfl] at h
  obtain ⟨⟨r₂, k₂⟩, hset, h⟩ := bind_eq_ok.1 h
  obtain hpf | ⟨p, hpf⟩ := Option.eq_none_or_eq_some k.phys.pageFreeList
  · simp only [envSetupVm, pageAlloc, hpf] at hset
    cases hset
    simp only [pure_eq_ok] at h
    rw [if_pos (by decide)] at h
    cases h
    exact .inl ⟨_, rfl, rfl⟩
  have hal : pageAlloc k.phys true = (some p, (pageAlloc k.phys true).2) := by
    simp [pageAlloc, hpf]
  rw [envSetupVm, hal] at hset
  simp only at hset
  split_ifs at hset with href
  cases hset
  simp only [pure_eq_ok] at h
  rw [if_neg (by decide)] at h
  cases h
  refine .inr ⟨child, p, rfl, hfl, hpf, ?_⟩
  simp [allocated, newEnv, Kernel.setEnv]

/-- The environment that `sys_exofork` makes in slot `child`, with page directory `p`. -/
def forkedEnv (k : Kernel) (cur child : EnvIdx) (p : Nat) : Env :=
  { newEnv k (k.envs cur).envId child p with
    envTf := (k.envs cur).envTf.setEax 0
    envStatus := ENV_NOT_RUNNABLE }

/-- `sys_exofork` on the table: nothing if it fails, else the head of the free list becomes the
child. -/
theorem sysExofork_ok (hne : k.envFreeList ≠ some cur) (h : sysExofork k cur = .ok (r, k')) :
    k' = k ∨
      ∃ child p, k.envFreeList = some child ∧ k.phys.pageFreeList = some p ∧
        k' = allocated k child p (forkedEnv k cur child p) := by
  unfold sysExofork at h
  obtain ⟨⟨res, k₁⟩, hal, hret⟩ := bind_eq_ok.1 h
  rw [orPanic_ok] at hal
  rcases envAlloc_ok hal with ⟨r₁, rfl, rfl⟩ | ⟨child, p, rfl, hfl, hpf, rfl⟩
  · cases hret
    exact .inl rfl
  have hchild : child ≠ cur := by
    rintro rfl
    exact hne hfl
  refine .inr ⟨child, p, hfl, hpf, ?_⟩
  have hk' : exoforkChild (allocated k child p (newEnv k (k.envs cur).envId child p)) cur child =
      k' := by
    simp only [pure_eq_ok] at hret
    split_ifs at hret <;> exact (Prod.ext_iff.1 (Except.ok.inj hret)).2
  rw [← hk']
  simp [exoforkChild, Kernel.setEnv, forkedEnv, allocated, Function.update_of_ne hchild.symm]

/-- The message a successful `sys_ipc_try_send` leaves in the receiver. -/
def sentPerm (k : Kernel) (uenv : EnvIdx) (srcva perm : Word) : Word :=
  if IPC_NO_PAGE ≠ srcva ∧ IPC_NO_PAGE ≠ (k.envs uenv).envIpcDstva then perm else 0

/-- The receiver after a successful `sys_ipc_try_send`. -/
def delivered (k : Kernel) (cur uenv : EnvIdx) (value perm : Word) : Env :=
  { k.envs uenv with
    envTf := (k.envs uenv).envTf.setEax 0
    envStatus := ENV_RUNNABLE
    envIpcRecving := false
    envIpcValue := value
    envIpcFrom := (k.envs cur).envId
    envIpcPerm := perm }

theorem ipcCheckPage_ne_zero {srcva perm : Word}
    (h : ipcCheckPage k cur srcva perm = .ok (some r)) :
    r ≠ 0 := by
  unfold ipcCheckPage at h
  split_ifs at h
  · cases h
  · cases h
    decide
  · cases h
    decide
  · obtain ⟨d, -, h⟩ := bind_eq_ok.1 h
    obtain ⟨y, -, h⟩ := bind_eq_ok.1 h
    cases y with
    | none =>
      cases h
      decide
    | some z =>
      simp only [pure_eq_ok] at h
      split_ifs at h
      · cases h
        decide
      · cases h

/-- The page transfer touches memory and the receiver's permission. Nothing was mapped at the
receiver's address before, and something is afterwards. -/
theorem ipcTransfer_ok {uenv : EnvIdx} {envid srcva perm : Word} {res : Option Word}
    (h : ipcTransfer k cur uenv envid srcva perm = .ok (res, k')) :
    res = some (-E_NO_MEM) ∧ k' = k ∨
      res = none ∧ ∃ d r σ, k.pgdir uenv = .ok d ∧
        pageLookup k.phys d (k.envs uenv).envIpcDstva = .ok none ∧
        sysPageMap k cur (k.envs cur).envId srcva envid (k.envs uenv).envIpcDstva perm =
          .ok (r, { k with phys := σ }) ∧
        pageLookup σ d (k.envs uenv).envIpcDstva ≠ .ok none ∧
        k' = setIpcPerm { k with phys := σ } uenv perm := by
  unfold ipcTransfer at h
  simp only at h
  obtain ⟨d, hd, h⟩ := bind_eq_ok.1 h
  obtain ⟨y, hy₀, h⟩ := bind_eq_ok.1 h
  by_cases hy : y ≠ none
  · rw [if_pos hy] at h
    cases h
    exact .inl ⟨rfl, rfl⟩
  rw [if_neg hy] at h
  rw [not_not.1 hy] at hy₀
  obtain ⟨⟨r₁, k₁⟩, hmap, h⟩ := bind_eq_ok.1 h
  have hk₁ := sysPageMap_phys hmap
  rw [hk₁] at hmap
  obtain ⟨d', hd', h⟩ := bind_eq_ok.1 h
  obtain ⟨y', hy₁, h⟩ := bind_eq_ok.1 h
  by_cases hy' : y' = none
  · rw [if_pos hy'] at h
    cases h
  rw [if_neg hy'] at h
  cases h
  obtain rfl : d' = d := by
    rw [hk₁] at hd'
    exact Except.ok.inj (hd'.symm.trans hd)
  refine .inr ⟨rfl, d', r₁, k₁.phys, hd, hy₀, hmap, ?_, by rw [← hk₁]⟩
  rw [hy₁]
  exact fun hc => hy' (Except.ok.inj hc)

theorem ipcDeliver_eq (k : Kernel) (cur uenv : EnvIdx) (value perm : Word) :
    ipcDeliver (setIpcPerm k uenv perm) cur uenv value =
      { k with envs := Function.update k.envs uenv (delivered k cur uenv value perm) } := by
  by_cases hcur : cur = uenv
  · subst hcur
    simp [ipcDeliver, setIpcPerm, Kernel.setEnv, delivered]
  · simp [ipcDeliver, setIpcPerm, Kernel.setEnv, delivered, Function.update_of_ne hcur]

theorem delivered_setIpcPerm (k : Kernel) (σ : Phys) (cur uenv : EnvIdx) (value perm : Word) :
    delivered { setIpcPerm k uenv 0 with phys := σ } cur uenv value perm =
      delivered k cur uenv value perm := by
  by_cases hcur : cur = uenv
  · subst hcur
    simp [setIpcPerm, Kernel.setEnv, delivered]
  · simp [setIpcPerm, Kernel.setEnv, delivered, Function.update_of_ne hcur]

/-- `sys_ipc_try_send` on the table. It finds no environment, or one that does not wait, or one
that does: then the checks on the page fail, the page cannot be mapped (and the permission is
already cleared), or the message is delivered. -/
theorem sysIpcTrySend_ok {envid value srcva perm : Word}
    (h : sysIpcTrySend k cur envid value srcva perm = .ok (r, k')) :
    (envid2env k cur envid false = none ∧ r = -E_BAD_ENV ∧ k' = k) ∨
    ∃ uenv, envid2env k cur envid false = some uenv ∧
      ((k.envs uenv).envIpcRecving = false ∧ r = -E_IPC_NOT_RECV ∧ k' = k ∨
        (k.envs uenv).envIpcRecving = true ∧
          (r ≠ 0 ∧ k' = k ∨ r ≠ 0 ∧ k' = setIpcPerm k uenv 0 ∨
            r = 0 ∧ k' = { k with
              phys := k'.phys
              envs := Function.update k.envs uenv
                (delivered k cur uenv value (sentPerm k uenv srcva perm)) })) := by
  unfold sysIpcTrySend at h
  cases hf : envid2env k cur envid false with
  | none =>
    rw [hf] at h
    cases h
    exact .inl ⟨rfl, rfl, rfl⟩
  | some uenv =>
    refine .inr ⟨uenv, rfl, ?_⟩
    simp only [hf] at h
    by_cases hrec : (k.envs uenv).envIpcRecving = false
    · rw [if_pos hrec] at h
      cases h
      exact .inl ⟨hrec, rfl, rfl⟩
    rw [if_neg hrec] at h
    refine .inr ⟨by simpa using hrec, ?_⟩
    obtain ⟨chk, hchk, h⟩ := bind_eq_ok.1 h
    cases chk with
    | some r' =>
      cases h
      exact .inl ⟨ipcCheckPage_ne_zero hchk, rfl⟩
    | none =>
      simp only [pure_eq_ok] at h
      split_ifs at h with hpage
      · obtain ⟨⟨res, k₁⟩, htr, hret⟩ := bind_eq_ok.1 h
        rcases ipcTransfer_ok htr with ⟨rfl, rfl⟩ | ⟨rfl, d, r₁, σ, -, -, -, -, rfl⟩
        · cases hret
          exact .inr (.inl ⟨by decide, rfl⟩)
        · cases hret
          refine .inr (.inr ⟨rfl, ?_⟩)
          have hperm : sentPerm k uenv srcva perm = perm := by
            rw [sentPerm, if_pos]
            simpa [setIpcPerm, Kernel.setEnv] using hpage
          rw [hperm]
          rw [ipcDeliver_eq, delivered_setIpcPerm]
          simp [setIpcPerm, Kernel.setEnv]
      · cases h
        refine .inr (.inr ⟨rfl, ?_⟩)
        have hperm : sentPerm k uenv srcva perm = 0 := by
          rw [sentPerm, if_neg]
          simpa [setIpcPerm, Kernel.setEnv] using hpage
        rw [hperm]
        rw [ipcDeliver_eq]

/-- Both sides of a message want a page. -/
def WantsPage (k : Kernel) (uenv : EnvIdx) (srcva : Word) : Prop :=
  IPC_NO_PAGE ≠ srcva ∧ IPC_NO_PAGE ≠ (k.envs uenv).envIpcDstva

instance (k : Kernel) (uenv : EnvIdx) (srcva : Word) : Decidable (WantsPage k uenv srcva) := by
  unfold WantsPage; infer_instance

/-- `sys_ipc_try_send` on the memory: nothing, or the page transfer of a successful send. -/
theorem sysIpcTrySend_phys {envid value srcva perm : Word}
    (h : sysIpcTrySend k cur envid value srcva perm = .ok (r, k')) :
    (k'.phys = k.phys ∧ (r = 0 → ∀ uenv, envid2env k cur envid false = some uenv →
        ¬ WantsPage k uenv srcva)) ∨
      ∃ uenv d r₁ σ, envid2env k cur envid false = some uenv ∧
        (k.envs uenv).envIpcRecving = true ∧ WantsPage k uenv srcva ∧
        perm &&& ~~~PTE_SYSCALL = 0 ∧ r = 0 ∧ k'.phys = σ ∧
        (setIpcPerm k uenv 0).pgdir uenv = .ok d ∧
        pageLookup k.phys d (k.envs uenv).envIpcDstva = .ok none ∧
        sysPageMap (setIpcPerm k uenv 0) cur (k.envs cur).envId srcva envid
          (k.envs uenv).envIpcDstva perm = .ok (r₁, { setIpcPerm k uenv 0 with phys := σ }) ∧
        pageLookup σ d (k.envs uenv).envIpcDstva ≠ .ok none := by
  unfold sysIpcTrySend at h
  obtain hf | ⟨uenv, hf⟩ := Option.eq_none_or_eq_some (envid2env k cur envid false)
  · rw [hf] at h
    cases h
    exact .inl ⟨rfl, fun hr => absurd hr (by decide)⟩
  simp only [hf] at h
  by_cases hrec : (k.envs uenv).envIpcRecving = false
  · rw [if_pos hrec] at h
    cases h
    exact .inl ⟨rfl, fun hr => absurd hr (by decide)⟩
  rw [if_neg hrec] at h
  obtain ⟨chk, hchk, h⟩ := bind_eq_ok.1 h
  cases chk with
  | some r' =>
    cases h
    exact .inl ⟨rfl, fun hr => (ipcCheckPage_ne_zero hchk hr).elim⟩
  | none =>
    have hread : ((setIpcPerm k uenv 0).envs uenv).envIpcDstva = (k.envs uenv).envIpcDstva := by
      simp [setIpcPerm, Kernel.setEnv]
    have hid : ((setIpcPerm k uenv 0).envs cur).envId = (k.envs cur).envId := by
      by_cases hc : cur = uenv
      · subst hc
        simp [setIpcPerm, Kernel.setEnv]
      · simp [setIpcPerm, Kernel.setEnv, hc]
    simp only [pure_eq_ok] at h
    split_ifs at h with hpage
    · rw [hread] at hpage
      obtain ⟨⟨res, k₁⟩, htr, hret⟩ := bind_eq_ok.1 h
      rcases ipcTransfer_ok htr with ⟨rfl, rfl⟩ | ⟨rfl, d, r₁, σ, hd, hl₀, hmap, hl₁, rfl⟩
      · cases hret
        exact .inl ⟨rfl, fun hr => absurd hr (by decide)⟩
      · cases hret
        rw [hread, hid] at hmap
        rw [hread] at hl₀ hl₁
        refine .inr ⟨uenv, d, r₁, σ, hf, by simpa using hrec, hpage, ?_, rfl, rfl, hd, hl₀, hmap,
          hl₁⟩
        unfold ipcCheckPage at hchk
        rw [if_neg fun hc => hpage.1 hc.symm] at hchk
        split_ifs at hchk with h₁ h₂
        · cases hchk
        · cases hchk
        · exact not_not.1 h₂
    · cases h
      rw [hread] at hpage
      refine .inl ⟨rfl, fun _ uenv' hf' => ?_⟩
      obtain rfl : uenv = uenv' := Option.some.inj (hf.symm.trans hf')
      exact hpage

end Jos
