import Jos.Ipc
import Jos.Preempt
import Jos.Failing
import Jos.Lib.Rendezvous

/-!
# User programs meet

`ipc_send` and `ipc_recv` (`lib/ipc.c`) turn the two system calls into the communication of
sequential processes, and `fork` (`lib/fork.c`) makes new ones. This file proves that: on the
machine with its scheduler, its interrupts and its CPUs, environments that run such programs behave
as a network of processes that meet (`Lib.Net`).

**Programs.** A program says what it does next (`Lib.Action`). `ipc_send` is a loop of `sys_yield`
and `sys_ipc_try_send`; `ipc_recv` is `sys_ipc_recv`, and returns what it finds in its `Env` when it
goes on; `fork` is `sys_exofork`, any number of calls that fill the child, and `sys_env_set_status`.
Between these calls a program may be interrupted, fault on its copy-on-write pages and make any
other call (`Quiet`). What a program keeps in its memory is its own, and the child of `fork` gets a
copy. An environment without a program runs `user/idle.c`.

**Control** (`Ctl`) says where an environment is in such a call. **The network** (`Sys.net`) names
the programs by their `envid_t`. A receiver has its message there as soon as it is sent, although it
goes on only when it is scheduled, and a child is there from `sys_exofork`.

**Theorem (`programs_meet`).** Every run of the machine is a run of the network.

**Proof.** The phases of `Jos.Ipc` say what the kernel does with the messages; `Agree` relates
control to phases. A kernel entry ends by running some environment, which changes no process
(`Agree.resume`); what comes before is one step of the network or none.
-/

namespace Jos

open Lib

variable {σ β : Type}

/-! ## Definitions -/

/-- A user program, whose messages are words. -/
abbrev Program (σ β : Type) := σ → Action Word Word β σ

/-- Where an environment is in the calls of its program. -/
inductive Ctl (σ : Type)
  | user (s : σ)
  | receiving (s : σ) (k : Word → σ)
  | forking (next : σ) (child : Word)
  | unborn (s : σ)
  | dead

/-- The machine, the programs of its environments and what they have printed. -/
structure Sys (σ β : Type) where
  m : Machine
  ctl : EnvIdx → Option (Ctl σ)
  out : List β

/-- A kernel entry, or a program prints. -/
inductive SysAct
  | entry (a : Act)
  | print (c : Cpu)

/-- After `sys_ipc_try_send`: `ipc_send` returns, tries again, or panics. -/
def Ctl.afterSend (s next : σ) (r : Word) : Ctl σ :=
  if r = 0 then .user next else if r = -E_IPC_NOT_RECV then .user s else .dead

/-- `fork` returns in the child. -/
def Ctl.born : Ctl σ → Ctl σ
  | .unborn s => .user s
  | p => p

/-- What the system call `x` of `cur` is to the programs, if it returns `r`. -/
def calledCtl (prog : Program σ β) (ctl : EnvIdx → Option (Ctl σ)) (cur : EnvIdx) (x : Call)
    (r : Option Word) :
    EnvIdx → Option (Ctl σ) :=
  match ctl cur with
  | some (.user s) =>
    match prog s, r with
    | .send _ _ next, some r =>
      if x.no = SYS_ipc_try_send then Function.update ctl cur (some (.afterSend s next r)) else ctl
    | .recv k, none =>
      if x.no = SYS_ipc_recv then Function.update ctl cur (some (.receiving s k)) else ctl
    | .fork f g, some r =>
      if x.no = SYS_exofork then
        if r.toInt < 0 then Function.update ctl cur (some .dead)
        else Function.update (Function.update ctl (ENVX r) (some (.unborn g))) cur
          (some (.forking (f r) r))
      else ctl
    | _, _ => ctl
  | some (.forking next child) =>
    match r with
    | some r =>
      if x.no = SYS_env_set_status then
        if r.toInt < 0 then Function.update ctl cur (some .dead)
        else Function.update (Function.update ctl cur (some (.user next))) (ENVX child)
          ((ctl (ENVX child)).map Ctl.born)
      else ctl
    | none => ctl
  | _ => ctl

/-- `ipc_recv` returns when its environment goes on. -/
def Ctl.resume (env : Env) : Ctl σ → Ctl σ
  | .receiving _ k =>
    .user (k (if env.envTf.tfRegs.regEax = 0 then env.envIpcValue else env.envTf.tfRegs.regEax))
  | p => p

/-- CPU `c` has ended an entry. -/
def resumedCtl (m' : Machine) (c : Cpu) (ctl : EnvIdx → Option (Ctl σ)) (e : EnvIdx) :
    Option (Ctl σ) :=
  if m'.mode c = .user ∧ m'.k.cpuEnv c = some e then (ctl e).map (Ctl.resume (m'.k.envs e))
    else ctl e

/-- The programs after the system call or other trap of the environment on `c`. -/
def trappedCtl (prog : Program σ β) (s : Sys σ β) (c : Cpu) (tf : Trapframe) (input : Word) :
    EnvIdx → Option (Ctl σ) :=
  match s.m.k.cpuEnv c with
  | none => s.ctl
  | some cur =>
    if tf.IsSyscall then calledCtl prog s.ctl cur tf.call (returned s.m.k c cur tf input) else s.ctl

/-- One step. -/
def Sys.step (prog : Program σ β) (s : Sys σ β) : SysAct → Option (Sys σ β)
  | .entry (.start c) =>
    (s.m.step (.start c)).map fun m' => { s with m := m', ctl := resumedCtl m' c s.ctl }
  | .entry (.trap c tf cr2 input) =>
    (s.m.step (.trap c tf cr2 input)).map fun m' =>
      { s with m := m', ctl := resumedCtl m' c (trappedCtl prog s c tf input) }
  | .print c =>
    match s.m.mode c, s.m.k.cpuEnv c with
    | .user, some e =>
      match s.ctl e with
      | some (.user st) =>
        match prog st with
        | .print b next =>
          some { s with ctl := Function.update s.ctl e (some (.user next)), out := s.out ++ [b] }
        | _ => none
      | _ => none
    | _, _ => none

/-! ## What programs do -/

/-- System calls that mean nothing to other programs. -/
def QuietCall (no : Word) : Prop :=
  no ≠ SYS_env_destroy ∧ no ≠ SYS_exofork ∧ no ≠ SYS_env_set_status ∧ no ≠ SYS_ipc_try_send ∧
  no ≠ SYS_ipc_recv

instance (no : Word) : Decidable (QuietCall no) := by unfold QuietCall; infer_instance

/-- Traps that mean nothing to other programs. -/
def Quiet (k : Kernel) (cur : EnvIdx) (tf : Trapframe) : Prop :=
  ¬ Dooms k cur tf ∧ (tf.IsSyscall → QuietCall tf.call.no)

instance (k : Kernel) (cur : EnvIdx) (tf : Trapframe) : Decidable (Quiet k cur tf) := by
  unfold Quiet; infer_instance

/-- The system call that a program makes next. A message comes without a page. -/
def Asks (x : Call) : Action Word Word β σ → Prop
  | .send dest a _ => x.no = SYS_ipc_try_send ∧ x.a1 = dest ∧ x.a2 = a ∧ x.a3 = IPC_NO_PAGE
  | .recv _ => x.no = SYS_ipc_recv ∧ x.a1 = IPC_NO_PAGE
  | .fork _ _ => x.no = SYS_exofork
  | .print _ _ => False

/-- The system call that is the next of a program or of the function it is in. -/
def Ctl.Makes (prog : Program σ β) (x : Call) : Ctl σ → Prop
  | .user s => Asks x (prog s)
  | .forking _ child => x.no = SYS_env_set_status ∧ x.a1 = child ∧ x.a2 = ENV_RUNNABLE
  | _ => False

instance (x : Call) (a : Action Word Word β σ) : Decidable (Asks x a) := by
  cases a <;> unfold Asks <;> infer_instance

instance (prog : Program σ β) (x : Call) (p : Ctl σ) : Decidable (p.Makes prog x) := by
  cases p <;> unfold Ctl.Makes <;> infer_instance

/-- The trap that an environment may make. -/
def Allowed (prog : Program σ β) (k : Kernel) (cur : EnvIdx) (tf : Trapframe) :
    Option (Ctl σ) → Prop
  | none => tf.IsIrq ∨ tf.IsSyscall ∧ (tf.call.no = SYS_yield ∨ tf.call.no = SYS_getenvid)
  | some p => Quiet k cur tf ∨ tf.IsSyscall ∧ p.Makes prog tf.call

instance (prog : Program σ β) (k : Kernel) (cur : EnvIdx) (tf : Trapframe) (p : Option (Ctl σ)) :
    Decidable (Allowed prog k cur tf p) := by
  cases p <;> unfold Allowed <;> infer_instance

/-- The environments do what their programs say; the others are idle. -/
def Follows (prog : Program σ β) (s : Sys σ β) : SysAct → Prop
  | .entry (.trap c tf _ _) => ∀ cur, s.m.k.cpuEnv c = some cur →
      Allowed prog s.m.k cur tf (s.ctl cur)
  | _ => True

instance (prog : Program σ β) (s : Sys σ β) (a : SysAct) : Decidable (Follows prog s a) :=
  match a with
  | .entry (.trap _ _ _ _) => decidableForallSome _
  | .entry (.start _) => instDecidableTrue
  | .print _ => instDecidableTrue

/-! ## The network -/

/-- The process that an environment is. -/
def Ctl.proc (env : Env) : Ctl σ → Proc σ
  | .user s => .run s
  | .receiving s k => .run (if env.envIpcRecving then s else k env.envIpcValue)
  | .forking next _ => .run next
  | .unborn s => .run s
  | .dead => .dead

def netOf (k : Kernel) (ctl : EnvIdx → Option (Ctl σ)) (out : List β) : Net Word β σ where
  procs id := if (k.envs (ENVX id)).envId = id then
    (ctl (ENVX id)).map (Ctl.proc (k.envs (ENVX id))) else none
  out := out

/-- The network that a state of the machine is. -/
def Sys.net (s : Sys σ β) : Net Word β σ := netOf s.m.k s.ctl s.out

/-! ## What an entry does to the table -/

/-- The same environment, and it sleeps if it slept. -/
structure SameEnv (env env' : Env) : Prop where
  id : env'.envId = env.envId
  type : env'.envType = env.envType
  parent : env'.envParentId = env.envParentId
  free : env'.envStatus = ENV_FREE ↔ env.envStatus = ENV_FREE
  asleep : env.envStatus = ENV_NOT_RUNNABLE → env'.envStatus = ENV_NOT_RUNNABLE

variable {k k' k₁ : Kernel} {c : Cpu} {cur e : EnvIdx} {tf : Trapframe} {cr2 input r : Word}
  {env env' : Env} {m m' : Machine} {exit : Exit} {x : Call}

theorem SameEnv.refl (env : Env) : SameEnv env env := ⟨rfl, rfl, rfl, Iff.rfl, fun hst => hst⟩

theorem SameEnv.trans {env'' : Env} (h : SameEnv env env') (h' : SameEnv env' env'') :
    SameEnv env env'' :=
  ⟨h'.id.trans h.id, h'.type.trans h.type, h'.parent.trans h.parent, h'.free.trans h.free,
    fun hst => h'.asleep (h.asleep hst)⟩

/-- A change of an environment that is awake, and stays alive. -/
theorem SameEnv.awake (hid : env'.envId = env.envId) (htype : env'.envType = env.envType)
    (hparent : env'.envParentId = env.envParentId)
    (hst : env.envStatus = ENV_RUNNABLE ∨ env.envStatus = ENV_RUNNING)
    (hlive : env'.envStatus ≠ ENV_FREE) : SameEnv env env' := by
  refine ⟨hid, htype, hparent, iff_of_false hlive ?_, fun hn => ?_⟩
  · rcases hst with hst | hst <;> rw [hst] <;> decide
  · rw [hn] at hst
    rcases hst with hst | hst <;> exact absurd hst (by decide)

theorem SameEnv.sameStatus (hid : env'.envId = env.envId) (htype : env'.envType = env.envType)
    (hparent : env'.envParentId = env.envParentId) (hst : env'.envStatus = env.envStatus) :
    SameEnv env env' :=
  ⟨hid, htype, hparent, by rw [hst], fun hn => hst.trans hn⟩

theorem SameEnv.setEnv (k : Kernel) (e₀ e : EnvIdx) (f : Env → Env)
    (h : SameEnv (k.envs e₀) (f (k.envs e₀))) :
    SameEnv (k.envs e) ((k.setEnv e₀ f).envs e) := by
  by_cases he : e = e₀
  · subst he
    simp only [Kernel.setEnv, Function.update_self]
    exact h
  · simp only [Kernel.setEnv, Function.update_of_ne he]
    exact .refl _

theorem sameEnv_of_table (h : SameTable k k') (e : EnvIdx) : SameEnv (k.envs e) (k'.envs e) :=
  .sameStatus (h.id e) (h.type e) (h.parent e) (h.status e)

theorem sameEnv_schedStart (k : Kernel) (c : Cpu) (e : EnvIdx) :
    SameEnv (k.envs e) ((schedStart k c).2.envs e) := by
  rcases schedStart_snd k c with heq | ⟨cur, -, hst, heq⟩
  · rw [heq]
    exact .refl _
  · rw [heq]
    exact .setEnv k cur e _ (.awake rfl rfl rfl (.inr hst) (by decide : ENV_RUNNABLE ≠ ENV_FREE))

theorem sameEnv_envRun {e₀ : EnvIdx} (hst : ((schedStart k c).2.envs e₀).envStatus = ENV_RUNNABLE ∨
    ((schedStart k c).2.envs e₀).envStatus = ENV_RUNNING) (e : EnvIdx) :
    SameEnv (k.envs e) ((envRun k c e₀).envs e) := by
  rw [envRun_eq]
  exact (sameEnv_schedStart k c e).trans (.setEnv ((schedStart k c).2.setCurenv c (some e₀)) e₀ e _
    (.awake rfl rfl rfl hst (by decide : ENV_RUNNING ≠ ENV_FREE)))

/-- How an entry ends from the state `k`. -/
inductive Ends (c : Cpu) (k : Kernel) : Exit → Prop
  | sched : Ends c k (schedYield k c)
  | back {e : EnvIdx} (hst : (k.envs e).envStatus = ENV_RUNNING) : Ends c k (.run k e)
  | monitor : Ends c k (.monitor k)

theorem ends_return (hcur : k.cpuEnv c = some cur) : Ends c k (trapReturn k c) := by
  rcases trapReturn_cases hcur with ⟨hst, heq⟩ | ⟨-, heq⟩
  · rw [heq]
    exact .back hst
  · rw [heq]
    exact .sched

theorem awake_schedStart
    (hst : (k.envs e).envStatus = ENV_RUNNABLE ∨ (k.envs e).envStatus = ENV_RUNNING) :
    ((schedStart k c).2.envs e).envStatus = ENV_RUNNABLE ∨
    ((schedStart k c).2.envs e).envStatus = ENV_RUNNING := by
  rcases schedStart_env k c e with heq | heq
  · rw [heq]
    exact hst
  · rw [heq]
    exact .inl rfl

theorem sameEnv_run {e₀ : EnvIdx} (hst : ((schedStart k c).2.envs e₀).envStatus = ENV_RUNNABLE ∨
    ((schedStart k c).2.envs e₀).envStatus = ENV_RUNNING) (hf :
    m.finish c (.run k e₀) = some m') (e : EnvIdx) :
    SameEnv (k.envs e) (m'.k.envs e) := by
  unfold Machine.finish at hf
  simp only at hf
  cases hl : lcr3Curenv (envRun k c e₀) c with
  | error msg =>
    rw [hl] at hf
    cases hf
  | ok k₁ =>
    rw [hl] at hf
    cases hf
    exact (sameEnv_envRun hst e).trans (sameEnv_of_table (sameTable_enter hl) e)

/-- **The end of an entry** moves environments between running and runnable, and does nothing else
to them. -/
theorem Ends.sameEnv (h : Ends c k exit) (hf : m.finish c exit = some m') (e : EnvIdx) :
    SameEnv (k.envs e) (m'.k.envs e) := by
  cases h with
  | back hst => exact sameEnv_run (awake_schedStart (.inr hst)) hf e
  | monitor =>
    cases hf
    exact .refl _
  | sched =>
    cases hs : schedYield k c with
    | panic msg =>
      rw [hs] at hf
      cases hf
    | monitor k₁ =>
      rw [hs] at hf
      cases hf
      rw [schedYield_monitor hs]
      exact sameEnv_schedStart k c e
    | run k₁ e₁ =>
      rw [hs] at hf
      obtain ⟨rfl, hpick⟩ := schedYield_run hs
      refine (sameEnv_schedStart k c e).trans (sameEnv_run ?_ hf e)
      apply awake_schedStart
      rcases hpick with ⟨-, hst⟩ | ⟨-, hst⟩
      · exact .inl hst
      · exact hst

theorem sameEnv_save (k : Kernel) (cur : EnvIdx) (tf : Trapframe) (e : EnvIdx) :
    SameEnv (k.envs e) ((k.save cur tf).envs e) := sameEnv_of_table (sameTable_save k cur tf) e

theorem sameEnv_phys {k k' : Kernel} (h : k' = { k with phys := k'.phys }) (e : EnvIdx) :
    SameEnv (k.envs e) (k'.envs e) := by
  rw [h]
  exact .refl _

/-- **A quiet trap** does nothing to the table before it ends. -/
theorem entry_quiet (hE : Entry c cur k tf cr2 input exit) (hcur : k.cpuEnv c = some cur)
    (hhead : k.envFreeList ≠ some cur) (hst : (k.envs cur).envStatus = ENV_RUNNING)
    (hq : Quiet k cur tf) (hf : m.finish c exit = some m') (e : EnvIdx) :
    SameEnv (k.envs e) (m'.k.envs e) := by
  have hsave := sameEnv_save k cur tf e
  obtain ⟨hdoom, hcall⟩ := hq
  cases hE with
  | panic msg => cases hf
  | reap hd h =>
    rw [hst] at hd
    exact absurd hd (by decide)
  | destroySelf hd hd' h => exact (hdoom hd').elim
  | yield hd hno => exact hsave.trans (Ends.sched.sameEnv hf e)
  | monitor hd hbp => exact hsave.trans (Ends.monitor.sameEnv hf e)
  | irq hd hirq => exact hsave.trans ((ends_return (k := k.save cur tf) hcur).sameEnv hf e)
  | recv hd hsys hno hblk => exact ((hcall hsys).2.2.2.2 hno).elim
  | @fault phys hd hpf h =>
    have hup := sameTable_upcall (k.save cur tf) cur phys cr2
    refine hsave.trans ((sameEnv_of_table hup e).trans (Ends.sameEnv (.back ?_) hf e))
    rw [hup.status, (sameTable_save k cur tf).status]
    exact hst
  | @call r k₁ hd hsys hrun h =>
    obtain ⟨hdes, hexo, hset, hsend, hrecv⟩ := hcall hsys
    have hcpu : (k₁.setEax cur r).cpuEnv c = some cur :=
      (congrFun (h.cpuEnv (k := k.save cur tf) hhead) c).trans hcur
    refine hsave.trans (SameEnv.trans (?_ : SameEnv _ (k₁.envs e))
      ((sameEnv_of_table (sameTable_setEax k₁ cur r) e).trans ((ends_return hcpu).sameEnv hf e)))
    cases h with
    | same => exact .refl _
    | pageAlloc hno h => exact sameEnv_phys (sysPageAlloc_phys h) e
    | pageMap hno h => exact sameEnv_phys (sysPageMap_phys h) e
    | pageUnmap hno h => exact sameEnv_phys (sysPageUnmap_phys h) e
    | dying hno => exact (hdes hno).elim
    | free hno => exact (hdes hno).elim
    | exofork hno => exact (hexo hno).elim
    | setStatus hno => exact (hset hno).elim
    | setUpcall hno hf => exact .setEnv _ _ e _ (.sameStatus rfl rfl rfl rfl)
    | send hno => exact (hsend hno).elim

/-- A system call other than `sys_yield` and `sys_ipc_recv` that is not destructive returns. -/
theorem entry_call (hE : Entry c cur k tf cr2 input exit) (hcur : k.cpuEnv c = some cur)
    (hhead : k.envFreeList ≠ some cur) (hst : (k.envs cur).envStatus = ENV_RUNNING)
    (hsys : tf.IsSyscall) (hno : tf.call.no = SYS_ipc_try_send ∨ tf.call.no = SYS_exofork ∨
      tf.call.no = SYS_env_set_status)
    (hf : m.finish c exit = some m') :
    ∃ r k₁, tf.call.run (k.save cur tf) c cur input = .ok (r, k₁) ∧
      ∀ e, SameEnv (k₁.envs e) (m'.k.envs e) := by
  have htrap : ∀ n : Word, tf.tfTrapno = n → n ≠ T_SYSCALL → False := by
    rintro n rfl hn
    exact hn hsys
  have hnot : ∀ n : Word, tf.call.no = n →
      ¬ (n = SYS_ipc_try_send ∨ n = SYS_exofork ∨ n = SYS_env_set_status) → False := by
    rintro n rfl hn
    exact hn hno
  cases hE with
  | panic msg => cases hf
  | reap hd h =>
    rw [hst] at hd
    exact absurd hd (by decide)
  | destroySelf hd hdoom h =>
    rcases hdoom.call hsys with hno' | hno'
    · exact (hnot _ hno' (by decide)).elim
    · exact (hnot _ hno' (by decide)).elim
  | yield hd hy => exact (hnot _ (hy hsys) (by decide)).elim
  | monitor hd hbp => exact (htrap _ hbp (by decide)).elim
  | irq hd hirq => exact (not_irq_of_syscall hsys hirq).elim
  | recv hd _ hno' hblk => exact (hnot _ hno' (by decide)).elim
  | fault hd hpf h => exact (htrap _ hpf (by decide)).elim
  | @call r k₁ hd _ hrun h =>
    have hcpu : (k₁.setEax cur r).cpuEnv c = some cur :=
      (congrFun (h.cpuEnv (k := k.save cur tf) hhead) c).trans hcur
    exact ⟨r, k₁, hrun, fun e =>
      (sameEnv_of_table (sameTable_setEax k₁ cur r) e).trans ((ends_return hcpu).sameEnv hf e)⟩

theorem entry_recv (hE : Entry c cur k tf cr2 input exit)
    (hst : (k.envs cur).envStatus = ENV_RUNNING) (hsys : tf.IsSyscall)
    (hno : tf.call.no = SYS_ipc_recv) (hblk : RecvBlocks tf.call.a1)
    (hf : m.finish c exit = some m') (e : EnvIdx) : SameEnv (k.envs e) (m'.k.envs e) := by
  have htrap : ∀ n : Word, tf.tfTrapno = n → n ≠ T_SYSCALL → False := by
    rintro n rfl hn
    exact hn hsys
  have hnot : ∀ n : Word, tf.call.no = n → n ≠ SYS_ipc_recv → False := by
    rintro n rfl hn
    exact hn hno
  have hsave := sameEnv_save k cur tf e
  cases hE with
  | panic msg => cases hf
  | reap hd h =>
    rw [hst] at hd
    exact absurd hd (by decide)
  | destroySelf hd hdoom h =>
    rcases hdoom.call hsys with hno' | hno'
    · exact (hnot _ hno' (by decide)).elim
    · exact (hnot _ hno' (by decide)).elim
  | yield hd hy => exact (hnot _ (hy hsys) (by decide)).elim
  | monitor hd hbp => exact (htrap _ hbp (by decide)).elim
  | irq hd hirq => exact (not_irq_of_syscall hsys hirq).elim
  | fault hd hpf h => exact (htrap _ hpf (by decide)).elim
  | call hd _ hrun h => exact (h.not_recv ⟨hno, hblk⟩).elim
  | recv hd _ _ _ =>
    refine hsave.trans (SameEnv.trans ?_ (Ends.sched.sameEnv hf e))
    refine .setEnv _ _ e _ (.awake rfl rfl rfl (.inr ?_) (by decide : ENV_NOT_RUNNABLE ≠ ENV_FREE))
    rw [(sameTable_save k cur tf).status]
    exact hst

/-! ## Programs and phases -/

/-- What the phase of an environment says about the message in its fields. -/
def Phase.Tells (env : Env) : Phase → Prop
  | .waiting _ => env.envIpcRecving = true
  | .served _ msg => env.envIpcRecving = false ∧ env.msg = msg
  | _ => True

/-- Where a program may be in each phase of its environment. -/
def Ctl.Fits (prog : Program σ β) (env : Env) (p : Phase) : Ctl σ → Prop
  | .user _ => p.Awake
  | .receiving s k => prog s = .recv k ∧ ((∃ tf, p = .waiting tf) ∨ ∃ tf msg, p = .served tf msg)
  | .forking _ _ => p.Ready
  | .unborn _ => p = .fresh ∧ env.envStatus = ENV_NOT_RUNNABLE
  | .dead => p.Ready

/-- The slot of a program. -/
structure SlotOk (e : EnvIdx) (env : Env) : Prop where
  type : env.envType ≠ .IDLE
  pos : 0 < env.envId.toInt
  idx : ENVX env.envId = e

/-- The child that environment `e` is filling. -/
structure ChildOk (k : Kernel) (ctl : EnvIdx → Option (Ctl σ)) (e : EnvIdx)
    (child : Word) : Prop where
  id : (k.envs (ENVX child)).envId = child
  parent : (k.envs (ENVX child)).envParentId = (k.envs e).envId
  unborn : ∃ g, ctl (ENVX child) = some (.unborn g)

/-- The programs agree with the kernel and the phases. -/
structure Agree (prog : Program σ β) (k : Kernel) (ctl : EnvIdx → Option (Ctl σ))
    (ph : EnvIdx → Phase) : Prop where
  fits : ∀ e p, ctl e = some p → p.Fits prog (k.envs e) (ph e)
  bystander : ∀ e, ctl e = none → ph e = .free ∨ (ph e).Awake
  idle : ∀ c, ph (idleEnv c) ≠ .free
  slot : ∀ e p, ctl e = some p → SlotOk e (k.envs e)
  child : ∀ e next child, ctl e = some (.forking next child) → ChildOk k ctl e child

variable {prog : Program σ β} {ctl : EnvIdx → Option (Ctl σ)} {ph ph' : EnvIdx → Phase}
  {p p' : Ctl σ} {q : Phase} {o : List β} {e₀ : EnvIdx}

theorem Phase.Fits.tells (h : q.Fits env) : q.Tells env := by
  cases q with
  | waiting tf => exact h.2.1
  | served tf msg => exact ⟨h.2.1, h.2.2.2⟩
  | _ => trivial

theorem SlotOk.kept (h : SlotOk e env) (hid : env'.envId = env.envId)
    (htype : env'.envType = env.envType) :
    SlotOk e env' := by
  obtain ⟨ht, hpos, hidx⟩ := h
  rw [← hid] at hpos hidx
  rw [← htype] at ht
  exact ⟨ht, hpos, hidx⟩

theorem SlotOk.same (h : SlotOk e env) (hs : SameEnv env env') : SlotOk e env' :=
  h.kept hs.id hs.type

theorem Ctl.Fits.same (h : p.Fits prog env q) (hs : SameEnv env env') : p.Fits prog env' q := by
  cases p with
  | unborn s => exact ⟨h.1, hs.asleep h.2⟩
  | _ => exact h

theorem Ctl.Fits.ne_free (h : p.Fits prog env q) : q ≠ .free := by
  rintro rfl
  cases p with
  | user s => rcases h with h | ⟨last, h⟩ <;> cases h
  | receiving s k => obtain ⟨-, ⟨tf, h⟩ | ⟨tf, msg, h⟩⟩ := h <;> cases h
  | unborn s => cases h.1
  | _ =>
    obtain ⟨last, h⟩ := h
    cases h

theorem Agree.eq_of_id (h : Agree prog k ctl ph) {e e' : EnvIdx} (hp : ctl e = some p)
    (hp' : ctl e' = some p') (hid : (k.envs e).envId = (k.envs e').envId) : e = e' := by
  rw [← (h.slot e p hp).idx, hid, (h.slot e' p' hp').idx]

theorem Agree.child_ne (h : Agree prog k ctl ph) {e' : EnvIdx} {next next' : σ}
    {child child' : Word} (hp : ctl e = some (.forking next child))
    (hp' : ctl e' = some (.forking next' child')) (hne : e ≠ e') :
    ENVX child ≠ ENVX child' := by
  intro heq
  refine hne (h.eq_of_id hp hp' ?_)
  rw [← (h.child e next child hp).parent, ← (h.child e' next' child' hp').parent, heq]

theorem Agree.same (h : Agree prog k ctl ph) (hs : ∀ e, SameEnv (k.envs e) (k'.envs e)) :
    Agree prog k' ctl ph where
  fits e p hp := (h.fits e p hp).same (hs e)
  bystander := h.bystander
  idle := h.idle
  slot e p hp := (h.slot e p hp).same (hs e)
  child e next child hp := by
    obtain ⟨hid, hparent, hunborn⟩ := h.child e next child hp
    refine ⟨(hs _).id.trans hid, ?_, hunborn⟩
    rw [(hs _).parent, (hs e).id]
    exact hparent

/-- **One program changes**, which is nobody's child. -/
theorem Agree.set (h : Agree prog k ctl ph) (k' : Kernel) (e₀ : EnvIdx) (p : Ctl σ) (q : Phase)
    (hs : ∀ e, e ≠ e₀ → SameEnv (k.envs e) (k'.envs e))
    (hfits : p.Fits prog (k'.envs e₀) q) (hslot : SlotOk e₀ (k'.envs e₀))
    (hchild : ∀ e next child, e ≠ e₀ → ctl e = some (.forking next child) → ENVX child ≠ e₀)
    (hfork : ∀ next child, p = .forking next child → ENVX child ≠ e₀ ∧ ChildOk k' ctl e₀ child) :
    Agree prog k' (Function.update ctl e₀ (some p)) (Function.update ph e₀ q) := by
  constructor
  · intro e p' hp'
    by_cases he : e = e₀
    · subst he
      rw [Function.update_self] at hp' ⊢
      obtain rfl := Option.some.inj hp'
      exact hfits
    · rw [Function.update_of_ne he] at hp' ⊢
      exact (h.fits e p' hp').same (hs e he)
  · intro e hnone
    by_cases he : e = e₀
    · subst he
      rw [Function.update_self] at hnone
      cases hnone
    · rw [Function.update_of_ne he] at hnone ⊢
      exact h.bystander e hnone
  · intro c
    by_cases he : idleEnv c = e₀
    · rw [he, Function.update_self]
      exact hfits.ne_free
    · rw [Function.update_of_ne he]
      exact h.idle c
  · intro e p' hp'
    by_cases he : e = e₀
    · subst he
      exact hslot
    · rw [Function.update_of_ne he] at hp'
      exact (h.slot e p' hp').same (hs e he)
  · intro e next child hp'
    by_cases he : e = e₀
    · subst he
      rw [Function.update_self] at hp'
      obtain ⟨hne, hid, hparent, hunborn⟩ := hfork next child (Option.some.inj hp')
      exact ⟨hid, hparent, by rwa [Function.update_of_ne hne]⟩
    · rw [Function.update_of_ne he] at hp'
      have hne := hchild e next child he hp'
      obtain ⟨hid, hparent, hunborn⟩ := h.child e next child hp'
      refine ⟨(hs _ hne).id.trans hid, ?_, by rwa [Function.update_of_ne hne]⟩
      rw [(hs _ hne).parent, (hs e he).id]
      exact hparent

theorem Agree.not_child (h : Agree prog k ctl ph) (hp : ctl e₀ = some p)
    (hnot : ∀ g, p ≠ .unborn g) :
    ∀ e next child, e ≠ e₀ → ctl e = some (.forking next child) → ENVX child ≠ e₀ := by
  rintro e next child - hfork rfl
  obtain ⟨g, hg⟩ := (h.child e next child hfork).unborn
  exact hnot g (Option.some.inj (hp.symm.trans hg))

/-- The process of an environment only depends on its message. -/
theorem Ctl.Fits.proc_eq (h : p.Fits prog env q) (hq : q.Tells env) (hq' : q.Tells env') :
    p.proc env' = p.proc env := by
  cases p with
  | receiving s f =>
    obtain ⟨-, ⟨tf, rfl⟩ | ⟨tf, msg, rfl⟩⟩ := h
    · change env.envIpcRecving = true at hq
      change env'.envIpcRecving = true at hq'
      simp only [Ctl.proc, hq, hq', if_true]
    · obtain ⟨hrec, hmsg⟩ := hq
      obtain ⟨hrec', hmsg'⟩ := hq'
      have hvalue : env'.envIpcValue = env.envIpcValue := congrArg Msg.value (hmsg'.trans hmsg.symm)
      simp only [Ctl.proc, hrec, hrec', hvalue]
  | _ => rfl

theorem netOf_procs (k : Kernel) (ctl : EnvIdx → Option (Ctl σ)) (o : List β) (id : Word) :
    (netOf k ctl o).procs id =
      if (k.envs (ENVX id)).envId = id then (ctl (ENVX id)).map (Ctl.proc (k.envs (ENVX id)))
        else none := rfl

theorem netOf_congr {ctl' : EnvIdx → Option (Ctl σ)}
    (hid : ∀ e, ctl e ≠ none → (k'.envs e).envId = (k.envs e).envId)
    (hproc : ∀ e, (ctl' e).map (Ctl.proc (k'.envs e)) = (ctl e).map (Ctl.proc (k.envs e))) :
    netOf k' ctl' o = netOf k ctl o := by
  refine Net.ext (funext fun id => ?_) rfl
  rw [netOf_procs, netOf_procs, hproc]
  cases hctl : ctl (ENVX id) with
  | none => rw [Option.map_none, ite_self, ite_self]
  | some p => rw [hid _ (by rw [hctl]; exact Option.some_ne_none p)]

/-- **One process changes.** -/
theorem netOf_set {id₀ : Word}
    (hid : ∀ e, e ≠ e₀ → ctl e ≠ none → (k'.envs e).envId = (k.envs e).envId)
    (hproc : ∀ e, e ≠ e₀ → (ctl e).map (Ctl.proc (k'.envs e)) = (ctl e).map (Ctl.proc (k.envs e)))
    (hid₀ : (k'.envs e₀).envId = id₀) (hidx : ENVX id₀ = e₀)
    (hold : ctl e₀ = none ∨ (k.envs e₀).envId = id₀) :
    netOf k' (Function.update ctl e₀ (some p)) o =
      (netOf k ctl o).set id₀ (p.proc (k'.envs e₀)) := by
  refine Net.ext (funext fun id => ?_) rfl
  rw [netOf_procs]
  by_cases he : ENVX id = e₀
  · subst he
    rw [Function.update_self]
    by_cases heq : id = id₀
    · subst heq
      rw [Net.set_self, if_pos hid₀]
      rfl
    · rw [Net.set_of_ne _ heq, if_neg fun hc => heq (hc.symm.trans hid₀), netOf_procs]
      rcases hold with hnone | hold
      · rw [hnone, Option.map_none, ite_self]
      · rw [if_neg fun hc => heq (hc.symm.trans hold)]
  · have hne : id ≠ id₀ := fun hc => he (by rw [hc, hidx])
    rw [Function.update_of_ne he, Net.set_of_ne _ hne, hproc _ he, netOf_procs]
    cases hctl : ctl (ENVX id) with
    | none => rw [Option.map_none, ite_self, ite_self]
    | some p' => rw [hid _ he (by rw [hctl]; exact Option.some_ne_none p')]

/-! ## An environment goes on -/

theorem Phase.step_ran {q' : Phase} (h : q.step (.ran env) = some q') :
    q'.Ready ∧ (q.Awake ∨ ∃ tf msg, q = .served tf msg ∧ env.envTf = tf.setEax 0 ∧
      env.msg = msg) := by
  cases q with
  | free => cases h
  | waiting tf => cases h
  | fresh =>
    cases h
    exact ⟨⟨none, rfl⟩, .inl (.inl rfl)⟩
  | ready last =>
    refine ⟨?_, .inl (.inr ⟨last, rfl⟩)⟩
    cases last with
    | none =>
      cases h
      exact ⟨none, rfl⟩
    | some msg =>
      simp only [Phase.step] at h
      split_ifs at h with hmsg
      cases h
      exact ⟨some msg, rfl⟩
  | served tf msg =>
    simp only [Phase.step] at h
    split_ifs at h with hmsg
    cases h
    exact ⟨⟨some msg, rfl⟩, .inr ⟨tf, msg, rfl, hmsg⟩⟩

theorem run_ranEvents {q' : Phase} (h : q.run (ranEvents m' c e) = some q') :
    ¬ (m'.mode c = .user ∧ m'.k.cpuEnv c = some e) ∧ q' = q ∨
      (m'.mode c = .user ∧ m'.k.cpuEnv c = some e) ∧ q.step (.ran (m'.k.envs e)) = some q' := by
  unfold ranEvents at h
  split_ifs at h with hran
  · rw [Phase.run_singleton] at h
    exact .inr ⟨hran, h⟩
  · exact .inl ⟨hran, (Option.some.inj h).symm⟩

/-- Before it goes on, an environment has the message that it will have then. -/
theorem tells_of_ran {q' : Phase} (h : q.run (ranEvents m' c e) = some q')
    (hfits : q'.Fits (m'.k.envs e)) :
    q.Tells (m'.k.envs e) := by
  rcases run_ranEvents h with ⟨-, rfl⟩ | ⟨-, hstep⟩
  · exact hfits.tells
  · obtain ⟨⟨last, rfl⟩, hawake | ⟨tf, msg, rfl, -, hmsg⟩⟩ := Phase.step_ran hstep
    · rcases hawake with rfl | ⟨last, rfl⟩ <;> trivial
    · exact ⟨hfits.2.1, hmsg⟩

theorem setEax_eax (tf : Trapframe) (r : Word) : (tf.setEax r).tfRegs.regEax = r := rfl

theorem Ctl.Fits.resume {q' : Phase} (h : p.Fits prog env q) (hstep : q.step (.ran env) = some q')
    (hfits : q'.Fits env) : (p.resume env).Fits prog env q' ∧ (p.resume env).proc env = p.proc env ∧
      ((∃ g, p = .unborn g) → False) ∧ ∀ next child, p.resume env = .forking next child →
      p = .forking next child := by
  obtain ⟨hready, hq⟩ := Phase.step_ran hstep
  cases p with
  | user s => exact ⟨.inr hready, rfl, (by simp), (by simp [Ctl.resume])⟩
  | forking next child => exact ⟨hready, rfl, (by simp), fun _ _ h => h⟩
  | dead => exact ⟨hready, rfl, (by simp), (by simp [Ctl.resume])⟩
  | unborn g =>
    obtain ⟨last, rfl⟩ := hready
    have hst := hfits.1
    rw [h.2] at hst
    rcases hst with hst | hst <;> exact absurd hst (by decide)
  | receiving s f =>
    obtain ⟨-, hphase⟩ := h
    have hserved : ∃ tf msg, q = .served tf msg ∧ env.envTf = tf.setEax 0 ∧ env.msg = msg := by
      rcases hq with hq | hq
      · rcases hphase with ⟨tf, rfl⟩ | ⟨tf, msg, rfl⟩ <;>
          rcases hq with hq | ⟨last, hq⟩ <;> cases hq
      · exact hq
    obtain ⟨tf, msg, -, htf, -⟩ := hserved
    obtain ⟨last, rfl⟩ := hready
    have hrec : env.envIpcRecving = false := hfits.2.1
    refine ⟨.inr ⟨last, rfl⟩, ?_, (by simp), (by simp [Ctl.resume])⟩
    simp only [Ctl.resume, Ctl.proc, htf, setEax_eax, hrec, if_true]
    rfl

/-- **The end of an entry** changes no process: a receiver already had its message. -/
theorem Agree.resume (h : Agree prog m'.k ctl ph)
    (hran : ∀ e, (ph e).run (ranEvents m' c e) = some (ph' e))
    (hfits : ∀ e, (ph' e).Fits (m'.k.envs e)) :
    Agree prog m'.k (resumedCtl m' c ctl) ph' ∧
      netOf m'.k (resumedCtl m' c ctl) o = netOf m'.k ctl o := by
  -- who goes on, and who does not
  have hother : ∀ e, ¬ (m'.mode c = .user ∧ m'.k.cpuEnv c = some e) →
      resumedCtl m' c ctl e = ctl e ∧ ph' e = ph e := by
    intro e hnot
    rcases run_ranEvents (hran e) with ⟨-, heq⟩ | ⟨hyes, -⟩
    · exact ⟨if_neg hnot, heq⟩
    · exact (hnot hyes).elim
  have hself : ∀ e, m'.mode c = .user ∧ m'.k.cpuEnv c = some e →
      resumedCtl m' c ctl e = (ctl e).map (Ctl.resume (m'.k.envs e)) ∧
        (ph e).step (.ran (m'.k.envs e)) = some (ph' e) := by
    intro e hyes
    rcases run_ranEvents (hran e) with ⟨hnot, -⟩ | ⟨-, hstep⟩
    · exact (hnot hyes).elim
    · exact ⟨if_pos hyes, hstep⟩
  have hnone : ∀ e, resumedCtl m' c ctl e = none → ctl e = none := by
    intro e hnone
    by_cases hyes : m'.mode c = .user ∧ m'.k.cpuEnv c = some e
    · rw [(hself e hyes).1, Option.map_eq_none_iff] at hnone
      exact hnone
    · rw [(hother e hyes).1] at hnone
      exact hnone
  have hsome : ∀ e p', resumedCtl m' c ctl e = some p' → ∃ p, ctl e = some p ∧
    p'.Fits prog (m'.k.envs e) (ph' e) ∧
      (∀ next child, p' = .forking next child → p = .forking next child) := by
    intro e p' hp'
    by_cases hyes : m'.mode c = .user ∧ m'.k.cpuEnv c = some e
    · obtain ⟨hctl, hstep⟩ := hself e hyes
      rw [hctl] at hp'
      obtain ⟨p, hp, rfl⟩ := Option.map_eq_some_iff.1 hp'
      obtain ⟨hfit, -, -, hfork⟩ := (h.fits e p hp).resume hstep (hfits e)
      exact ⟨p, hp, hfit, hfork⟩
    · obtain ⟨hctl, hphase⟩ := hother e hyes
      rw [hctl] at hp'
      rw [hphase]
      exact ⟨p', hp', h.fits e p' hp', fun _ _ h => h⟩
  have hunborn : ∀ e g, ctl e = some (.unborn g) → resumedCtl m' c ctl e = some (.unborn g) := by
    intro e g hg
    by_cases hyes : m'.mode c = .user ∧ m'.k.cpuEnv c = some e
    · exact (((h.fits e _ hg).resume (hself e hyes).2 (hfits e)).2.2.1 ⟨g, rfl⟩).elim
    · rw [(hother e hyes).1, hg]
  refine ⟨⟨?_, ?_, ?_, ?_, ?_⟩, ?_⟩
  · intro e p' hp'
    obtain ⟨p, -, hfit, -⟩ := hsome e p' hp'
    exact hfit
  · intro e he
    by_cases hyes : m'.mode c = .user ∧ m'.k.cpuEnv c = some e
    · exact .inr (.inr (Phase.step_ran (hself e hyes).2).1)
    · rw [(hother e hyes).2]
      exact h.bystander e (hnone e he)
  · intro c'
    by_cases hyes : m'.mode c = .user ∧ m'.k.cpuEnv c = some (idleEnv c')
    · obtain ⟨⟨last, hlast⟩, -⟩ := Phase.step_ran (hself _ hyes).2
      rw [hlast]
      simp
    · rw [(hother _ hyes).2]
      exact h.idle c'
  · intro e p' hp'
    obtain ⟨p, hp, -, -⟩ := hsome e p' hp'
    exact h.slot e p hp
  · intro e next child hp'
    obtain ⟨p, hp, -, hfork⟩ := hsome e _ hp'
    rw [hfork next child rfl] at hp
    obtain ⟨hid, hparent, g, hg⟩ := h.child e next child hp
    exact ⟨hid, hparent, g, hunborn _ g hg⟩
  · refine netOf_congr (fun _ _ => rfl) fun e => ?_
    by_cases hyes : m'.mode c = .user ∧ m'.k.cpuEnv c = some e
    · rw [(hself e hyes).1, Option.map_map]
      cases hctl : ctl e with
      | none => rfl
      | some p =>
        exact congrArg some ((h.fits e p hctl).resume (hself e hyes).2 (hfits e)).2.1
    · rw [(hother e hyes).1]

/-! ## The calls of programs -/

theorem returned_recv (hno : tf.call.no = SYS_ipc_recv) (hblk : RecvBlocks tf.call.a1)
    (k : Kernel) (c : Cpu) (cur : EnvIdx) (input : Word) : returned k c cur tf input = none := by
  have hrun : tf.call.run (k.save cur tf) c cur input =
    sysIpcRecv (k.save cur tf) c cur tf.call.a1 := by
    unfold Call.run syscall
    rw [hno]
    rfl
  unfold returned
  rw [hrun, sysIpcRecv, if_neg hblk]

theorem sysIpcTrySend_noPage {envid value perm : Word}
    (h : sysIpcTrySend k cur envid value IPC_NO_PAGE perm = .ok (r, k')) :
    envid2env k cur envid false = none ∧ r = -E_BAD_ENV ∧ k' = k ∨
      ∃ e, envid2env k cur envid false = some e ∧
        ((k.envs e).envIpcRecving = false ∧ r = -E_IPC_NOT_RECV ∧ k' = k ∨
          (k.envs e).envIpcRecving = true ∧ r = 0 ∧
            k'.envs = Function.update k.envs e
            (delivered k cur e value (sentPerm k e IPC_NO_PAGE perm))) := by
  rcases sysIpcTrySend_ok h with h' | ⟨e, hf, h' | ⟨hrec, h'⟩⟩
  · exact .inl h'
  · exact .inr ⟨e, hf, .inl h'⟩
  · refine .inr ⟨e, hf, .inr ⟨hrec, ?_⟩⟩
    -- without a page, nothing is left that can fail
    have hr : r = 0 := by
      unfold sysIpcTrySend ipcCheckPage at h
      simp only [hf, hrec, Bool.true_eq_false, if_false, if_true, ok_bind] at h
      rw [if_neg (fun hc => hc.1 rfl)] at h
      cases h
      rfl
    rcases h' with ⟨hne, -⟩ | ⟨hne, -⟩ | ⟨-, hk⟩
    · exact (hne hr).elim
    · exact (hne hr).elim
    · exact ⟨hr, by rw [hk]⟩

theorem envAlloc_error_neg {parentId : Word} (h : envAlloc k parentId = .ok (.error r, k')) :
    r.toInt < 0 := by
  unfold envAlloc at h
  obtain hfl | ⟨child, hfl⟩ := Option.eq_none_or_eq_some k.envFreeList
  · simp only [hfl] at h
    cases h
    decide
  · simp only [hfl] at h
    obtain ⟨⟨r₂, k₂⟩, hset, h⟩ := bind_eq_ok.1 h
    simp only at h
    split_ifs at h with hneg
    · cases h
      exact hneg
    · cases h

theorem sysExofork_result (hne : k.envFreeList ≠ some cur) (hidx : ENVX (k.envs cur).envId = cur)
    (h : sysExofork k cur = .ok (r, k')) :
    r.toInt < 0 ∧ k' = k ∨
      ∃ child p, k.envFreeList = some child ∧ r = nextEnvId (k.envs child).envId child ∧
        k' = allocated k child p (forkedEnv k cur child p) := by
  have hok := sysExofork_ok hne h
  unfold sysExofork at h
  obtain ⟨⟨res, k₁⟩, hal, hret⟩ := bind_eq_ok.1 h
  rw [orPanic_ok] at hal
  rcases envAlloc_ok hal with ⟨r₁, rfl, rfl⟩ | ⟨child, p, rfl, hfl, hpf, rfl⟩
  · cases hret
    exact .inl ⟨envAlloc_error_neg hal, rfl⟩
  · have hchild : child ≠ cur := by
      rintro rfl
      exact hne hfl
    have hid : ((exoforkChild (allocated k child p (newEnv k (k.envs cur).envId child p))
        cur child).envs child).envId = nextEnvId (k.envs child).envId child := by
      simp [exoforkChild, Kernel.setEnv, allocated, newEnv]
    have hcur : ((exoforkChild (allocated k child p (newEnv k (k.envs cur).envId child p))
        cur child).envs cur).envId = (k.envs cur).envId := by
      simp [exoforkChild, Kernel.setEnv, allocated, Function.update_of_ne hchild.symm]
    simp only [pure_eq_ok, hid, hcur] at hret
    split_ifs at hret with heq
    · -- the ids of two slots differ
      refine (hchild ?_).elim
      rw [← ENVX_nextEnvId (k.envs child).envId child, heq, hidx]
    · cases hret
      refine .inr ⟨child, p, hfl, rfl, ?_⟩
      simp [exoforkChild, Kernel.setEnv, forkedEnv, allocated, Function.update_of_ne hchild.symm]

theorem calledCtl_quiet (hq : QuietCall x.no) (prog : Program σ β) (ctl : EnvIdx → Option (Ctl σ))
    (cur : EnvIdx) (r : Option Word) : calledCtl prog ctl cur x r = ctl := by
  obtain ⟨-, hexo, hset, hsend, hrecv⟩ := hq
  unfold calledCtl
  split
  · split
    · rw [if_neg hsend]
    · rw [if_neg hrecv]
    · rw [if_neg hexo]
    · rfl
  · split
    · rw [if_neg hset]
    · rfl
  · rfl

theorem slotEvents_live (h : (k.envs e).envStatus ≠ ENV_FREE)
    (h' : (k'.envs e).envStatus ≠ ENV_FREE) :
    slotEvents k k' e = [] := by
  rw [slotEvents, if_neg fun hc => h hc.1, if_neg fun hc => h' hc.2]

/-! ## One trap -/

/-- An entry of environment `cur`; `ph₁` are the phases before some environment goes on. -/
structure Entered (prog : Program σ β) (ctl : EnvIdx → Option (Ctl σ)) (m m' : Machine) (c : Cpu)
    (cur : EnvIdx) (tf : Trapframe) (cr2 input : Word) (ph ph₁ : EnvIdx → Phase) : Prop where
  agree : Agree prog m.k ctl ph
  fits : ∀ e, (ph e).Fits (m.k.envs e)
  ready : (ph cur).Ready
  cpu : m.k.cpuEnv c = some cur
  cpuInv : CpuInv m.k
  status : (m.k.envs cur).envStatus = ENV_RUNNING
  finish : m.finish c (trap m.k c tf cr2 input) = some m'
  run : ∀ e, (ph e).run (msgEvents m.k c cur tf input e ++ slotEvents m.k m'.k e) = some (ph₁ e)
  tells : ∀ e, (ph₁ e).Tells (m'.k.envs e)

variable {ph₁ : EnvIdx → Phase}

theorem Entered.head (h : Entered prog ctl m m' c cur tf cr2 input ph ph₁) :
    m.k.envFreeList ≠ some cur :=
  fun hh => (h.cpuInv.head_free hh).2 c h.cpu

theorem Entered.phase_same (h : Entered prog ctl m m' c cur tf cr2 input ph ph₁)
    (hev : msgEvents m.k c cur tf input e = []) (hs : SameEnv (m.k.envs e) (m'.k.envs e)) :
    ph₁ e = ph e := by
  have hrun := h.run e
  rw [hev, slotEvents_congr (k := m.k) hs.free, slotEvents_same rfl] at hrun
  exact (Option.some.inj hrun).symm

theorem Entered.proc_same (h : Entered prog ctl m m' c cur tf cr2 input ph ph₁)
    (heq : ph₁ e = ph e) :
    (ctl e).map (Ctl.proc (m'.k.envs e)) = (ctl e).map (Ctl.proc (m.k.envs e)) := by
  cases hp : ctl e with
  | none => rfl
  | some p =>
    have htells := h.tells e
    rw [heq] at htells
    exact congrArg some ((h.agree.fits e p hp).proc_eq (h.fits e).tells htells)

theorem Agree.procs_id (h : Agree prog k ctl ph) (hp : ctl e = some p) :
    (netOf k ctl o).procs (k.envs e).envId = some (p.proc (k.envs e)) := by
  rw [netOf_procs, (h.slot e p hp).idx, if_pos rfl, hp]
  rfl

theorem Entered.quiet (h : Entered prog ctl m m' c cur tf cr2 input ph ph₁)
    (hq : Quiet m.k cur tf) :
    Agree prog m'.k ctl ph₁ ∧ netOf m'.k ctl o = netOf m.k ctl o := by
  have hs := entry_quiet (trap_cases h.cpu) h.cpu h.head h.status hq h.finish
  have hph : ph₁ = ph := by
    funext e
    refine h.phase_same (msgEvents_quiet (not_blocks fun hsys => ?_) (fun hsys => ?_) _ _ _ _)
      (hs e)
    · exact (hq.2 hsys).2.2.2.2
    · exact (hq.2 hsys).2.2.2.1
  rw [hph]
  exact ⟨h.agree.same hs, netOf_congr (fun e _ => (hs e).id) fun e => h.proc_same (congrFun hph e)⟩

theorem Entered.recv (h : Entered prog ctl m m' c cur tf cr2 input ph ph₁)
    (hsys : tf.IsSyscall) {s : σ} {f : Word → σ} (hp : ctl cur = some (.user s))
    (hprog : prog s = .recv f) (hno : tf.call.no = SYS_ipc_recv) (ha1 : tf.call.a1 = IPC_NO_PAGE) :
    Agree prog m'.k (Function.update ctl cur (some (.receiving s f))) ph₁ ∧
      netOf m'.k (Function.update ctl cur (some (.receiving s f))) o = netOf m.k ctl o := by
  have hblk : RecvBlocks tf.call.a1 := by
    rw [ha1]
    exact fun hc => hc.1 rfl
  have hs := entry_recv (trap_cases h.cpu) h.status hsys hno hblk h.finish
  have hcur : ph₁ cur = .waiting tf := by
    have hrun := h.run cur
    obtain ⟨last, hlast⟩ := h.ready
    rw [slotEvents_congr (k := m.k) (hs cur).free, slotEvents_same rfl, msgEvents,
      if_pos ⟨hsys, hno, hblk, rfl⟩, hlast] at hrun
    exact (Option.some.inj hrun).symm
  have hother : ∀ e, e ≠ cur → ph₁ e = ph e := by
    intro e he
    refine h.phase_same ?_ (hs e)
    rw [msgEvents, if_neg fun hb => he hb.2.2.2.symm, if_neg]
    exact fun hsend => absurd (hno.symm.trans hsend.2.1) (by decide)
  have hph : ph₁ = Function.update ph cur (.waiting tf) := by
    funext e
    by_cases he : e = cur
    · rw [he, Function.update_self, hcur]
    · rw [Function.update_of_ne he, hother e he]
  refine ⟨?_, netOf_congr (fun e _ => (hs e).id) fun e => ?_⟩
  · rw [hph]
    exact h.agree.set m'.k cur (.receiving s f) (.waiting tf) (fun e _ => hs e)
      ⟨hprog, .inl ⟨tf, rfl⟩⟩ ((h.agree.slot cur _ hp).same (hs cur))
      (h.agree.not_child hp (by simp)) (by simp)
  · by_cases he : e = cur
    · have hrec : (m'.k.envs cur).envIpcRecving = true := by
        have htells := h.tells cur
        rw [hcur] at htells
        exact htells
      subst he
      rw [Function.update_self, hp]
      simp only [Option.map_some, Ctl.proc, hrec, if_true]
    · rw [Function.update_of_ne he]
      exact h.proc_same (hother e he)

/-- A program that only changes where it is itself. -/
theorem Entered.set_self (h : Entered prog ctl m m' c cur tf cr2 input ph ph₁)
    (hs : ∀ e, SameEnv (m.k.envs e) (m'.k.envs e)) (hph : ph₁ = ph) (p' : Ctl σ)
    (hp : ctl cur = some p) (hnot : ∀ g, p ≠ .unborn g)
    (hfits : p'.Fits prog (m'.k.envs cur) (ph cur))
    (hfork : ∀ next child, p' ≠ .forking next child) :
    Agree prog m'.k (Function.update ctl cur (some p')) ph₁ ∧
      netOf m'.k (Function.update ctl cur (some p')) o =
        (netOf m.k ctl o).set (m.k.envs cur).envId (p'.proc (m'.k.envs cur)) := by
  have hslot := h.agree.slot cur p hp
  constructor
  · have hset := h.agree.set m'.k cur p' (ph cur) (fun e _ => hs e) hfits (hslot.same (hs cur))
      (h.agree.not_child hp hnot)
      fun next child hc => (hfork next child hc).elim
    rw [Function.update_eq_self] at hset
    rw [hph]
    exact hset
  · exact netOf_set (fun e _ _ => (hs e).id) (fun e _ => h.proc_same (congrFun hph e))
      (hs cur).id hslot.idx (.inr rfl)

theorem Agree.found (h : Agree prog k ctl ph) (hfits : ∀ e, (ph e).Fits (k.envs e)) {id : Word}
    (hp : ctl (ENVX id) = some p) (hid : (k.envs (ENVX id)).envId = id) {b : Bool}
    (hb : b = true → (k.envs (ENVX id)).envParentId = (k.envs cur).envId) :
    envid2env k cur id b = some (ENVX id) := by
  have hpos := (h.slot _ p hp).pos
  rw [hid] at hpos
  have hlive : (k.envs (ENVX id)).envStatus ≠ ENV_FREE := by
    intro hfree
    have hfit := h.fits _ p hp
    rw [(hfits _).eq_free hfree] at hfit
    cases p with
    | user s => rcases hfit with hf | ⟨last, hf⟩ <;> cases hf
    | receiving s f => obtain ⟨-, ⟨tf, hf⟩ | ⟨tf, msg, hf⟩⟩ := hfit <;> cases hf
    | forking next child => obtain ⟨last, hf⟩ := hfit; cases hf
    | unborn g => cases hfit.1
    | dead => obtain ⟨last, hf⟩ := hfit; cases hf
  unfold envid2env
  rw [if_neg (by omega), if_neg, if_neg (not_or.2 ⟨hlive, not_not.2 hid⟩), if_neg]
  · exact fun hc => hc.2.2 (hb hc.1)
  · rintro rfl
    exact absurd hpos (by decide)

theorem phase_sent {msg : Msg} {q' : Phase} (h : q.step (.sent msg) = some q') :
    ∃ tf, q = .waiting tf ∧ q' = .served tf msg := by
  cases q with
  | waiting tf => exact ⟨tf, rfl, (Option.some.inj h).symm⟩
  | ready last => cases last <;> cases h
  | _ => cases h

theorem Agree.waiting (h : Agree prog k ctl ph) (hq : ph e = .waiting tf) :
    ∃ t f, ctl e = some (.receiving t f) ∧ prog t = .recv f := by
  cases hp : ctl e with
  | none =>
    rcases h.bystander e hp with hf | hf | ⟨last, hf⟩ <;> rw [hq] at hf <;> cases hf
  | some p =>
    have hfit := h.fits e p hp
    rw [hq] at hfit
    cases p with
    | receiving t f => exact ⟨t, f, rfl, hfit.1⟩
    | user s => rcases hfit with hf | ⟨last, hf⟩ <;> cases hf
    | forking next child => obtain ⟨last, hf⟩ := hfit; cases hf
    | unborn g => cases hfit.1
    | dead => obtain ⟨last, hf⟩ := hfit; cases hf

theorem envid2env_idx {id : Word} {b : Bool} (h : envid2env k cur id b = some e) (hne : e ≠ cur) :
    ENVX id = e ∧ (k.envs e).envId = id := by
  unfold envid2env at h
  simp only at h
  split_ifs at h with h1 h2 h3 h4
  · exact (hne (Option.some.inj h).symm).elim
  · obtain rfl := Option.some.inj h
    exact ⟨rfl, not_not.1 (not_or.1 h3).2⟩

/-- A call that changes nothing but its result. -/
theorem Entered.unchanged (h : Entered prog ctl m m' c cur tf cr2 input ph ph₁)
    (hev : ∀ e, msgEvents m.k c cur tf input e = [])
    (hs : ∀ e, SameEnv ((m.k.save cur tf).envs e) (m'.k.envs e)) :
    (∀ e, SameEnv (m.k.envs e) (m'.k.envs e)) ∧ ph₁ = ph := by
  have hsame : ∀ e, SameEnv (m.k.envs e) (m'.k.envs e) :=
    fun e => (sameEnv_save m.k cur tf e).trans (hs e)
  exact ⟨hsame, funext fun e => h.phase_same (hev e) (hsame e)⟩

/-- Only environment `e₀` takes part in the call of `cur`. -/
theorem Entered.phase_only (h : Entered prog ctl m m' c cur tf cr2 input ph ph₁) (e₀ : EnvIdx)
    (hev : ∀ e, e ≠ e₀ → msgEvents m.k c cur tf input e = [])
    (hs : ∀ e, e ≠ e₀ → SameEnv (m.k.envs e) (m'.k.envs e)) :
    ph₁ = Function.update ph e₀ (ph₁ e₀) := by
  funext e
  by_cases he : e = e₀
  · rw [he, Function.update_self]
  · rw [Function.update_of_ne he]
    exact h.phase_same (hev e he) (hs e he)

/-- Two programs go on in one call: that of `e₀`, and that of `cur` itself. -/
theorem Entered.set_two (h : Entered prog ctl m m' c cur tf cr2 input ph ph₁) (p₁ p₂ : Ctl σ)
    (hne : e₀ ≠ cur) (hp : ctl cur = some p) (hnot : ∀ g, p ≠ .unborn g)
    (hs : ∀ e, e ≠ e₀ → SameEnv (m.k.envs e) (m'.k.envs e)) (hph : ph₁ = Function.update ph e₀ q)
    (hfits₁ : p₁.Fits prog (m'.k.envs e₀) q) (hslot : SlotOk e₀ (m'.k.envs e₀))
    (hchild : ∀ e next child, e ≠ e₀ → ctl e = some (.forking next child) → ENVX child ≠ e₀)
    (hfork₁ : ∀ next child, p₁ ≠ .forking next child)
    (hfits₂ : p₂.Fits prog (m'.k.envs cur) (ph cur))
    (hfork₂ : ∀ next child, p₂ = .forking next child →
      ENVX child ≠ cur ∧ ChildOk m'.k (Function.update ctl e₀ (some p₁)) cur child)
    (hold : ctl e₀ = none ∨ (m'.k.envs e₀).envId = (m.k.envs e₀).envId) :
    Agree prog m'.k (Function.update (Function.update ctl e₀ (some p₁)) cur (some p₂)) ph₁ ∧
      netOf m'.k (Function.update (Function.update ctl e₀ (some p₁)) cur (some p₂)) o =
        ((netOf m.k ctl o).set (m.k.envs cur).envId (p₂.proc (m'.k.envs cur))).set
        (m'.k.envs e₀).envId
          (p₁.proc (m'.k.envs e₀)) := by
  have hcur : ph₁ cur = ph cur := by
    rw [hph, Function.update_of_ne hne.symm]
  have hid : (m'.k.envs cur).envId = (m.k.envs cur).envId := (hs cur hne.symm).id
  have hids : (m.k.envs cur).envId ≠ (m'.k.envs e₀).envId := by
    intro heq
    refine hne ?_
    rw [← hslot.idx, ← heq, (h.agree.slot cur p hp).idx]
  constructor
  · have h₁ := h.agree.set m'.k e₀ p₁ q hs hfits₁ hslot hchild fun next child hc =>
      (hfork₁ next child hc).elim
    rw [← hph] at h₁
    have hp₁ : Function.update ctl e₀ (some p₁) cur = some p := by
      rw [Function.update_of_ne hne.symm, hp]
    rw [← hcur] at hfits₂
    have h₂ := h₁.set m'.k cur p₂ (ph₁ cur) (fun e _ => .refl _) hfits₂ (h₁.slot cur p hp₁)
      (h₁.not_child hp₁ hnot) hfork₂
    rwa [Function.update_eq_self] at h₂
  · have h₁ : netOf m'.k (Function.update ctl e₀ (some p₁)) o =
        (netOf m.k ctl o).set (m'.k.envs e₀).envId (p₁.proc (m'.k.envs e₀)) := by
      refine netOf_set (fun e he _ => (hs e he).id) (fun e he => ?_) rfl hslot.idx
        (hold.imp id Eq.symm)
      exact h.proc_same (by rw [hph, Function.update_of_ne he])
    have h₂ : netOf m'.k (Function.update (Function.update ctl e₀ (some p₁)) cur (some p₂)) o =
        (netOf m'.k (Function.update ctl e₀ (some p₁)) o).set (m.k.envs cur).envId
        (p₂.proc (m'.k.envs cur)) :=
      netOf_set (fun _ _ _ => rfl) (fun _ _ => rfl) hid (h.agree.slot cur p hp).idx (.inr hid)
    rw [h₂, h₁, ← Net.set_comm _ hids]

/-- Environment `cur` sends the value `a` to `dest`. -/
structure SendsTo (prog : Program σ β) (ctl : EnvIdx → Option (Ctl σ)) (cur : EnvIdx)
    (tf : Trapframe) (s next : σ) (dest a : Word) : Prop where
  here : ctl cur = some (.user s)
  asks : prog s = .send dest a next
  syscall : tf.IsSyscall
  no : tf.call.no = SYS_ipc_try_send
  a1 : tf.call.a1 = dest
  a2 : tf.call.a2 = a
  a3 : tf.call.a3 = IPC_NO_PAGE

variable {s next : σ} {dest a : Word}

theorem SendsTo.events (hsend : SendsTo prog ctl cur tf s next dest a)
    (hrun : tf.call.run (m.k.save cur tf) c cur input = .ok (r, k₁)) (e : EnvIdx) :
    msgEvents m.k c cur tf input e = sentEvents (m.k.save cur tf) cur tf.call r e :=
  msgEvents_call hsend.syscall (not_blocks fun _ => by rw [hsend.no]; decide) hrun e

/-- The message does not pass, and the program sees that there is no receiver, or that it does not
wait. -/
theorem Entered.send_refused (h : Entered prog ctl m m' c cur tf cr2 input ph ph₁)
    (hsend : SendsTo prog ctl cur tf s next dest a)
    (hsame : ∀ e, SameEnv (m.k.envs e) (m'.k.envs e)) (hph : ph₁ = ph)
    (hr : r = -E_BAD_ENV ∧ envid2env m.k cur dest false = none ∨ r = -E_IPC_NOT_RECV) :
    Agree prog m'.k (Function.update ctl cur (some (.afterSend s next r))) ph₁ ∧
      Net.StepOrStay prog (netOf m.k ctl o)
        (netOf m'.k (Function.update ctl cur (some (.afterSend s next r))) o) := by
  rcases hr with ⟨rfl, hf⟩ | rfl
  · have hafter : Ctl.afterSend s next (-E_BAD_ENV) = .dead := by
      rw [Ctl.afterSend, if_neg (by decide), if_neg (by decide)]
    rw [hafter]
    obtain ⟨hagree, hnet⟩ :=
      h.set_self (o := o) hsame hph .dead hsend.here (by simp) h.ready (by simp)
    refine ⟨hagree, .inr ?_⟩
    rw [hnet]
    refine .noReceiver (h.agree.procs_id hsend.here) hsend.asks ?_
    rw [netOf_procs]
    split_ifs with hid
    · cases hctl : ctl (ENVX dest) with
      | none => rfl
      | some p' =>
        rw [h.agree.found (b := false) h.fits hctl hid (by simp)] at hf
        cases hf
    · rfl
  · have hafter : Ctl.afterSend s next (-E_IPC_NOT_RECV) = .user s := by
      rw [Ctl.afterSend, if_neg (by decide), if_pos rfl]
    rw [hafter, ← hsend.here, Function.update_eq_self, hph]
    exact ⟨h.agree.same hsame,
      .inl (netOf_congr (fun e _ => (hsame e).id) fun e => h.proc_same (congrFun hph e))⟩

theorem Entered.send_phases (h : Entered prog ctl m m' c cur tf cr2 input ph ph₁)
    (hsend : SendsTo prog ctl cur tf s next dest a)
    (hrun : tf.call.run (m.k.save cur tf) c cur input = .ok (0, k₁))
    (hf : envid2env m.k cur dest false = some e₀)
    (hs : ∀ e, e ≠ e₀ → SameEnv (m.k.envs e) (m'.k.envs e))
    (hlive : (m'.k.envs e₀).envStatus ≠ ENV_FREE) :
    ∃ tf' msg t f, ctl e₀ = some (.receiving t f) ∧ prog t = .recv f ∧ msg.value = a ∧
      ph₁ = Function.update ph e₀ (.served tf' msg) := by
  rw [← hsend.a1, ← envid2env_congr (sameTable_save m.k cur tf)] at hf
  have hev := hsend.events (m := m) hrun
  have hsent := h.run e₀
  rw [hev, slotEvents_live
    (h.cpuInv.found_live h.cpu (by rwa [envid2env_congr (sameTable_save m.k cur tf)] at hf))
    hlive, List.append_nil, sentEvents, if_pos ⟨hsend.no, hf, rfl⟩, Phase.run_singleton] at hsent
  obtain ⟨tf', hwait, hserved⟩ := phase_sent hsent
  obtain ⟨t, f, hctl, hrecv⟩ := h.agree.waiting hwait
  have hph := h.phase_only e₀ (fun e he => ?_) hs
  · rw [hserved] at hph
    exact ⟨tf', _, t, f, hctl, hrecv, hsend.a2, hph⟩
  rw [hev, sentEvents, if_neg]
  rintro ⟨-, hf', -⟩
  rw [hf] at hf'
  exact he (Option.some.inj hf').symm

theorem Entered.send_passed (h : Entered prog ctl m m' c cur tf cr2 input ph ph₁)
    (hsend : SendsTo prog ctl cur tf s next dest a)
    (hrun : tf.call.run (m.k.save cur tf) c cur input = .ok (0, k₁))
    (hs₁ : ∀ e, SameEnv (k₁.envs e) (m'.k.envs e)) (hf : envid2env m.k cur dest false = some e₀)
    (hrec : (m.k.envs e₀).envIpcRecving = true) {perm : Word}
    (hk : k₁.envs = Function.update (m.k.save cur tf).envs e₀
      (delivered (m.k.save cur tf) cur e₀ a perm)) :
    Agree prog m'.k (Function.update ctl cur (some (.user next))) ph₁ ∧
      Net.StepOrStay prog (netOf m.k ctl o)
      (netOf m'.k (Function.update ctl cur (some (.user next))) o) := by
  have hsave := sameTable_save m.k cur tf
  have hne : e₀ ≠ cur := by
    rintro rfl
    rw [h.cpuInv.not_recving h.cpu] at hrec
    cases hrec
  obtain ⟨hidx, hid⟩ := envid2env_idx hf hne
  -- the table
  have hother : ∀ e, e ≠ e₀ → SameEnv (m.k.envs e) (m'.k.envs e) := by
    intro e he
    have hs := hs₁ e
    rw [hk, Function.update_of_ne he] at hs
    exact (sameEnv_save m.k cur tf e).trans hs
  have hgot := hs₁ e₀
  rw [hk, Function.update_self] at hgot
  have hid' : (m'.k.envs e₀).envId = (m.k.envs e₀).envId := hgot.id.trans (hsave.id e₀)
  have htype : (m'.k.envs e₀).envType = (m.k.envs e₀).envType := hgot.type.trans (hsave.type e₀)
  have hlive : (m'.k.envs e₀).envStatus ≠ ENV_FREE :=
    fun hc => absurd (hgot.free.1 hc) (by decide : ENV_RUNNABLE ≠ ENV_FREE)
  -- the programs
  obtain ⟨tf', msg, t, f, hctl, hrecv, hval, hph⟩ := h.send_phases hsend hrun hf hother hlive
  obtain ⟨hagree, hnet⟩ :=
    h.set_two (o := o) (.receiving t f) (.user next) hne hsend.here (by simp) hother
    hph ⟨hrecv, .inr ⟨tf', msg, rfl⟩⟩ ((h.agree.slot e₀ _ hctl).kept hid' htype)
    (h.agree.not_child hctl (by simp)) (by simp) (.inr h.ready) (by simp) (.inr hid')
  rw [← hctl, Function.update_eq_self] at hagree hnet
  refine ⟨hagree, .inr ?_⟩
  have hvalue : (Ctl.receiving t f).proc (m'.k.envs e₀) = .run (f a) := by
    have htells := h.tells e₀
    rw [hph, Function.update_self] at htells
    obtain ⟨hrec', hmsg⟩ := htells
    have hval' : (m'.k.envs e₀).envIpcValue = a := (congrArg Msg.value hmsg).trans hval
    simp only [Ctl.proc, hrec', hval']
    rfl
  have hdest := h.agree.procs_id (o := o) hctl
  have hproc : (Ctl.receiving t f).proc (m.k.envs e₀) = .run t := by
    simp only [Ctl.proc, hrec, if_true]
  rw [hid, hproc] at hdest
  rw [hnet, hid', hid, hvalue]
  exact .comm (h.agree.procs_id hsend.here) hdest hsend.asks hrecv

/-- `ipc_send`: the message passes, the receiver does not wait yet, or there is none. -/
theorem Entered.send (h : Entered prog ctl m m' c cur tf cr2 input ph ph₁)
    (hsend : SendsTo prog ctl cur tf s next dest a) :
    ∃ r, returned m.k c cur tf input = some r ∧
      Agree prog m'.k (Function.update ctl cur (some (.afterSend s next r))) ph₁ ∧
      Net.StepOrStay prog (netOf m.k ctl o)
        (netOf m'.k (Function.update ctl cur (some (.afterSend s next r))) o) := by
  obtain ⟨r, k₁, hrun, hs₁⟩ :=
    entry_call (trap_cases h.cpu) h.cpu h.head h.status hsend.syscall (.inl hsend.no) h.finish
  refine ⟨r, by rw [returned, hrun], ?_⟩
  have hcall := hrun
  rw [run_send hsend.no, orPanic_ok, hsend.a1, hsend.a2, hsend.a3] at hcall
  -- nothing happens unless the message passes
  have hsame : r ≠ 0 → k₁ = m.k.save cur tf →
      (∀ e, SameEnv (m.k.envs e) (m'.k.envs e)) ∧ ph₁ = ph := by
    rintro hr rfl
    refine h.unchanged (fun e => ?_) hs₁
    rw [hsend.events hrun, sentEvents, if_neg fun hc => hr hc.2.2]
  have hsave := sameTable_save m.k cur tf
  rcases sysIpcTrySend_noPage hcall with ⟨hf, rfl, hk⟩ | ⟨e, hf, ⟨-, rfl, hk⟩ | ⟨hrec, rfl, hk⟩⟩
  · rw [envid2env_congr hsave] at hf
    obtain ⟨hs, hph⟩ := hsame (by decide) hk
    exact h.send_refused hsend hs hph (.inl ⟨rfl, hf⟩)
  · obtain ⟨hs, hph⟩ := hsame (by decide) hk
    exact h.send_refused hsend hs hph (.inr rfl)
  · rw [envid2env_congr hsave] at hf
    rw [hsave.recving] at hrec
    exact h.send_passed hsend hrun hs₁ hf hrec hk

theorem run_exofork (hno : x.no = SYS_exofork) : x.run k c cur input = sysExofork k cur := by
  unfold Call.run syscall
  rw [hno]
  rfl

theorem run_set_status (hno : x.no = SYS_env_set_status) :
    x.run k c cur input = .ok (sysEnvSetStatus k cur x.a1 x.a2) := by
  unfold Call.run syscall
  rw [hno]
  rfl

theorem msgEvents_silent {k₁ : Kernel} (hsys : tf.IsSyscall) (hrecv : tf.call.no ≠ SYS_ipc_recv)
    (hsend : tf.call.no ≠ SYS_ipc_try_send)
    (hrun : tf.call.run (k.save cur tf) c cur input = .ok (r, k₁)) (e : EnvIdx) :
    msgEvents k c cur tf input e = [] := by
  rw [msgEvents_call hsys (not_blocks fun _ => hrecv) hrun, sentEvents, if_neg fun hc => hsend hc.1]

theorem Agree.free (h : Agree prog k ctl ph) (hq : ph e = .free) : ctl e = none := by
  cases hp : ctl e with
  | none => rfl
  | some p =>
    have hfit := h.fits e p hp
    rw [hq] at hfit
    cases p with
    | receiving t f => obtain ⟨-, ⟨tf, hf⟩ | ⟨tf, msg, hf⟩⟩ := hfit <;> cases hf
    | user s => rcases hfit with hf | ⟨last, hf⟩ <;> cases hf
    | forking next child => obtain ⟨last, hf⟩ := hfit; cases hf
    | unborn g => cases hfit.1
    | dead => obtain ⟨last, hf⟩ := hfit; cases hf

theorem Entered.forked (h : Entered prog ctl m m' c cur tf cr2 input ph ph₁) {g : σ} {f : Word → σ}
    {child : EnvIdx} {pg : ℕ} (hp : ctl cur = some (.user s)) (hprog : prog s = .fork f g)
    (hev : ∀ e, msgEvents m.k c cur tf input e = []) (hhead : m.k.envFreeList = some child)
    (hr : r = nextEnvId ((m.k.save cur tf).envs child).envId child)
    (hs₁ : ∀ e, SameEnv ((allocated (m.k.save cur tf) child pg
      (forkedEnv (m.k.save cur tf) cur child pg)).envs e) (m'.k.envs e)) :
    Agree prog m'.k (Function.update (Function.update ctl child (some (.unborn g))) cur
      (some (.forking (f r) r))) ph₁ ∧
      Net.StepOrStay prog (netOf m.k ctl o)
        (netOf m'.k (Function.update (Function.update ctl child (some (.unborn g))) cur
          (some (.forking (f r) r)))
          o) := by
  have hidx : ENVX r = child := by
    rw [hr]
    exact ENVX_nextEnvId _ _
  obtain ⟨hfree, hnot⟩ := h.cpuInv.head_free hhead
  have hne : child ≠ cur := by
    rintro rfl
    exact hnot c h.cpu
  have hnone : ctl child = none := h.agree.free ((h.fits child).eq_free hfree)
  -- the table
  have hother : ∀ e, e ≠ child → SameEnv (m.k.envs e) (m'.k.envs e) := by
    intro e he
    have hs := hs₁ e
    simp only [allocated, Function.update_of_ne he] at hs
    exact (sameEnv_save m.k cur tf e).trans hs
  have hnew := hs₁ child
  simp only [allocated, Function.update_self] at hnew
  have hid : (m'.k.envs child).envId = r := hnew.id.trans hr.symm
  have hasleep : (m'.k.envs child).envStatus = ENV_NOT_RUNNABLE := hnew.asleep rfl
  have hslot : SlotOk child (m'.k.envs child) := by
    refine ⟨?_, ?_, by rw [hid, hidx]⟩
    · rw [hnew.type]
      simp [forkedEnv, newEnv]
    · rw [hid, hr]
      exact toInt_nextEnvId_pos _ _
  have hparent : (m'.k.envs child).envParentId = (m'.k.envs cur).envId := by
    rw [(hother cur hne.symm).id]
    exact hnew.parent.trans ((sameTable_save m.k cur tf).id cur)
  -- the phases
  have hfresh : ph₁ child = .fresh := by
    have hrun := h.run child
    rw [hev, List.nil_append, slotEvents, if_pos ⟨hfree, by rw [hasleep]; decide⟩,
      (h.fits child).eq_free hfree, Phase.run_singleton] at hrun
    exact (Option.some.inj hrun).symm
  have hph := h.phase_only child (fun e _ => hev e) hother
  rw [hfresh] at hph
  -- a free environment is nobody's child yet
  have hchild : ∀ e next w, e ≠ child → ctl e = some (.forking next w) → ENVX w ≠ child := by
    rintro e next w - hfork rfl
    obtain ⟨g', hg⟩ := (h.agree.child e next w hfork).unborn
    rw [hnone] at hg
    cases hg
  obtain ⟨hagree, hnet⟩ :=
    h.set_two (o := o) (.unborn g) (.forking (f r) r) hne hp (by simp) hother hph
    ⟨rfl, hasleep⟩ hslot hchild (by simp) h.ready (by
      intro next w hw
      cases hw
      rw [hidx]
      refine ⟨hne, ?_, ?_, g, ?_⟩
      · rw [hidx]
        exact hid
      · rw [hidx]
        exact hparent
      · rw [hidx, Function.update_self]) (.inl hnone)
  refine ⟨hagree, .inr ?_⟩
  have hdest : (netOf m.k ctl o).procs r = none := by
    rw [netOf_procs, hidx, hnone, Option.map_none, ite_self]
  rw [hnet, hid]
  exact .fork (h.agree.procs_id hp) hprog hdest

/-- `sys_exofork`: a new process, or none. -/
theorem Entered.fork (h : Entered prog ctl m m' c cur tf cr2 input ph ph₁)
    (hsys : tf.IsSyscall) {g : σ} {f : Word → σ} (hp : ctl cur = some (.user s))
    (hprog : prog s = .fork f g) (hno : tf.call.no = SYS_exofork) :
    ∃ r ctl₁, returned m.k c cur tf input = some r ∧
      (ctl₁ = if r.toInt < 0 then Function.update ctl cur (some .dead)
        else Function.update (Function.update ctl (ENVX r) (some (.unborn g))) cur
          (some (.forking (f r) r))) ∧
      Agree prog m'.k ctl₁ ph₁ ∧ Net.StepOrStay prog (netOf m.k ctl o) (netOf m'.k ctl₁ o) := by
  obtain ⟨r, k₁, hrun, hs₁⟩ :=
    entry_call (trap_cases h.cpu) h.cpu h.head h.status hsys (.inr (.inl hno)) h.finish
  have hret : returned m.k c cur tf input = some r := by
    rw [returned, hrun]
  have hev := msgEvents_silent hsys (by rw [hno]; decide) (by rw [hno]; decide) hrun
  have hidcur : ENVX ((m.k.save cur tf).envs cur).envId = cur := by
    rw [(sameTable_save m.k cur tf).id]
    exact (h.agree.slot cur _ hp).idx
  rw [run_exofork hno] at hrun
  refine ⟨r, _, hret, rfl, ?_⟩
  rcases sysExofork_result (k := m.k.save cur tf) h.head hidcur
    hrun with ⟨hr, rfl⟩ | ⟨child, pg, hhead, hr, rfl⟩
  · -- there is no free environment, or no memory
    rw [if_pos hr]
    obtain ⟨hs, hph⟩ := h.unchanged hev hs₁
    obtain ⟨hagree, hnet⟩ := h.set_self (o := o) hs hph .dead hp (by simp) h.ready (by simp)
    refine ⟨hagree, .inr ?_⟩
    rw [hnet]
    exact .noFork (h.agree.procs_id hp) hprog
  · have hpos : ¬ r.toInt < 0 := by
      rw [hr]
      exact not_neg_nextEnvId _ _
    have hidx : ENVX r = child := by
      rw [hr]
      exact ENVX_nextEnvId _ _
    rw [if_neg hpos, hidx]
    exact h.forked hp hprog hev hhead hr hs₁

/-- `sys_env_set_status` at the end of `fork`: the child has been a process before. -/
theorem Entered.setStatus (h : Entered prog ctl m m' c cur tf cr2 input ph ph₁)
    (hsys : tf.IsSyscall) {next : σ} {child : Word} (hp : ctl cur = some (.forking next child))
    (hno : tf.call.no = SYS_env_set_status) (ha1 : tf.call.a1 = child)
    (ha2 : tf.call.a2 = ENV_RUNNABLE) :
    ∃ ctl₁, returned m.k c cur tf input = some 0 ∧
      ctl₁ = Function.update (Function.update ctl cur (some (.user next))) (ENVX child)
        ((ctl (ENVX child)).map Ctl.born) ∧
      Agree prog m'.k ctl₁ ph₁ ∧ netOf m'.k ctl₁ o = netOf m.k ctl o := by
  obtain ⟨r, k₁, hrun, hs₁⟩ :=
    entry_call (trap_cases h.cpu) h.cpu h.head h.status hsys (.inr (.inr hno)) h.finish
  have hev := msgEvents_silent hsys (by rw [hno]; decide) (by rw [hno]; decide) hrun
  have hsave := sameTable_save m.k cur tf
  obtain ⟨hid, hparent, g, hg⟩ := h.agree.child cur next child hp
  obtain ⟨hfresh, hst⟩ := h.agree.fits _ _ hg
  have hne : ENVX child ≠ cur := by
    intro heq
    rw [heq, hp] at hg
    cases hg
  -- the child is found, and may be made runnable
  have hfound : envid2env m.k cur child true = some (ENVX child) :=
    h.agree.found h.fits hg hid fun _ => hparent
  have hcall : sysEnvSetStatus (m.k.save cur tf) cur child ENV_RUNNABLE =
      (0, (m.k.save cur tf).setStatus (ENVX child) ENV_RUNNABLE) := by
    unfold sysEnvSetStatus
    rw [envid2env_congr hsave, hfound]
    simp only
    rw [if_neg]
    rw [hsave.status, hst]
    exact fun hc => hc.2 rfl
  have hret : returned m.k c cur tf input = some r := by
    rw [returned, hrun]
  rw [run_set_status hno, ha1, ha2, hcall] at hrun
  obtain ⟨rfl, rfl⟩ := Prod.mk.inj (Except.ok.inj hrun)
  refine ⟨_, hret, rfl, ?_⟩
  rw [hg]
  have hother : ∀ e, e ≠ ENVX child → SameEnv (m.k.envs e) (m'.k.envs e) := by
    intro e he
    have hs := hs₁ e
    rw [setStatus_envs, Function.update_of_ne he] at hs
    exact (sameEnv_save m.k cur tf e).trans hs
  have hkid : (m'.k.envs (ENVX child)).envId = (m.k.envs (ENVX child)).envId ∧
      (m'.k.envs (ENVX child)).envType = (m.k.envs (ENVX child)).envType ∧
      (m'.k.envs (ENVX child)).envStatus ≠ ENV_FREE := by
    have hs := hs₁ (ENVX child)
    rw [setStatus_envs, Function.update_self] at hs
    refine ⟨hs.id.trans (hsave.id _), hs.type.trans (hsave.type _), fun hc => ?_⟩
    exact absurd (hs.free.1 hc) (by decide : ENV_RUNNABLE ≠ ENV_FREE)
  have hph : ph₁ = ph := by
    funext e
    by_cases he : e = ENVX child
    · subst he
      have hrun' := h.run (ENVX child)
      rw [hev, List.nil_append, slotEvents, if_neg, if_neg fun hc => hkid.2.2 hc.2] at hrun'
      · exact (Option.some.inj hrun').symm
      · rw [hst]
        exact fun hc => absurd hc.1 (by decide)
    · exact h.phase_same (hev e) (hother e he)
  rw [hph]
  have hslot : SlotOk (ENVX child) (m'.k.envs (ENVX child)) :=
    (h.agree.slot _ _ hg).kept hkid.1 hkid.2.1
  -- first the parent, then its child
  have hagree₁ := h.agree.set m.k cur (.user next) (ph cur) (fun e _ => .refl _)
    (.inr h.ready) (h.agree.slot cur _ hp) (h.agree.not_child hp (by simp)) (by simp)
  rw [Function.update_eq_self] at hagree₁
  have hchild : ∀ e n w, e ≠ ENVX child →
    Function.update ctl cur (some (.user next)) e = some (.forking n w) →
      ENVX w ≠ ENVX child := by
    rintro e n w - hfork
    by_cases he : e = cur
    · rw [he, Function.update_self] at hfork
      cases hfork
    · rw [Function.update_of_ne he] at hfork
      exact h.agree.child_ne hfork hp he
  have hagree₂ := hagree₁.set m'.k (ENVX child) (.user g) (ph (ENVX child)) hother
    (.inl hfresh) hslot hchild (by simp)
  rw [Function.update_eq_self] at hagree₂
  refine ⟨hagree₂, netOf_congr (fun e _ => ?_) fun e => ?_⟩
  · by_cases he : e = ENVX child
    · rw [he]
      exact hkid.1
    · exact (hother e he).id
  · by_cases he : e = ENVX child
    · rw [he, Option.map_some, Function.update_self, hg]
      rfl
    · rw [Function.update_of_ne he]
      by_cases hc : e = cur
      · rw [hc, Function.update_self, hp]
        rfl
      · rw [Function.update_of_ne hc]
        exact h.proc_same (congrFun hph e)

/-! ## Runs -/

/-- The kernel follows the protocol, and the programs agree with it. -/
structure SysInv (prog : Program σ β) (s : Sys σ β) (ph : EnvIdx → Phase) : Prop where
  machine : MachineInv s.m
  ipc : s.m.LockFree ∧ IpcInv s.m.k ph ∨ ∃ c, s.m.mode c = .monitor ∧ IpcMid c s.m.k ph
  agree : Agree prog s.m.k s.ctl ph

/-- The programs are loaded, and nothing has run. -/
structure ProgramsLoaded (prog : Program σ β) (s : Sys σ β) : Prop where
  boot : Booted s.m
  user : ∀ e p, s.ctl e = some p → (∃ st, p = .user st) ∧ (s.m.k.envs e).envStatus ≠ ENV_FREE ∧
    SlotOk e (s.m.k.envs e)

variable {s s' : Sys σ β}

theorem fits_of_ipc (h : m.LockFree ∧ IpcInv m.k ph ∨ ∃ c, m.mode c = .monitor ∧ IpcMid c m.k ph)
    (e : EnvIdx) :
    (ph e).Fits (m.k.envs e) := by
  rcases h with ⟨-, hi⟩ | ⟨c, -, hi⟩
  · exact (hi.mid 0).fits e
  · exact hi.fits e

theorem SysInv.fits (h : SysInv prog s ph) (e : EnvIdx) : (ph e).Fits (s.m.k.envs e) :=
  fits_of_ipc h.ipc e

theorem ProgramsLoaded.sysInv (h : ProgramsLoaded prog s) : SysInv prog s (bootPhase s.m) := by
  obtain ⟨hmach, -, hipc⟩ := h.boot.tracedInv
  have hfresh : ∀ e, (s.m.k.envs e).envStatus ≠ ENV_FREE → bootPhase s.m e = .fresh :=
    fun e hst => if_neg hst
  refine ⟨hmach, hipc, ?_, fun e _ => ?_, fun c => ?_, fun e p hp => (h.user e p hp).2.2,
    fun e next child hp => ?_⟩
  · intro e p hp
    obtain ⟨⟨st, rfl⟩, hst, -⟩ := h.user e p hp
    exact .inl (hfresh e hst)
  · by_cases hst : (s.m.k.envs e).envStatus = ENV_FREE
    · exact .inl (if_pos hst)
    · exact .inr (.inl (hfresh e hst))
  · rw [hfresh _ (by rw [h.boot.idle_status c]; decide)]
    simp
  · obtain ⟨⟨st, hst⟩, -⟩ := h.user e _ hp
    cases hst

/-- Environment `e` of the machine runs a program, and the others are idle. -/
def Sys.boot (m : Machine) (e : EnvIdx) (st : σ) : Sys σ β :=
  ⟨m, Function.update (fun _ => none) e (some (.user st)), []⟩

theorem Booted.loaded {m : Machine} {st : σ} (h : Booted m)
    (hst : (m.k.envs e).envStatus ≠ ENV_FREE) (hslot : SlotOk e (m.k.envs e)) :
    ProgramsLoaded prog (Sys.boot m e st) := by
  refine ⟨h, fun e' p hp => ?_⟩
  change Function.update (fun _ => none) e (some (.user st)) e' = some p at hp
  by_cases he : e' = e
  · subst he
    rw [Function.update_self] at hp
    cases hp
    exact ⟨⟨st, rfl⟩, hst, hslot⟩
  · rw [Function.update_of_ne he] at hp
    cases hp

theorem Asks.no {a : Action Word Word β σ} (h : Asks x a) :
    x.no = SYS_ipc_try_send ∨ x.no = SYS_ipc_recv ∨ x.no = SYS_exofork := by
  cases a with
  | send dest a next => exact .inl h.1
  | recv f => exact .inr (.inl h.1)
  | fork f g => exact .inr (.inr h)
  | print b next => exact h.elim

theorem Agree.child_found (h : Agree prog k ctl ph) {next : σ} {child : Word}
    (hp : ctl cur = some (.forking next child)) (hf : envid2env k cur child true = some e) :
    ∃ g, ENVX child = e ∧ ctl e = some (.unborn g) := by
  obtain ⟨hid, -, g, hg⟩ := h.child cur next child hp
  have hne : e ≠ cur := by
    rintro rfl
    have hpos := (h.slot _ _ hg).pos
    rw [hid] at hpos
    unfold envid2env at hf
    simp only at hf
    rw [if_neg (by omega)] at hf
    split_ifs at hf with h0
    · rw [h0] at hpos
      exact absurd hpos (by decide)
    · have hx := Option.some.inj hf
      rw [hx, hp] at hg
      cases hg
  obtain ⟨hx, -⟩ := envid2env_idx hf hne
  rw [hx] at hg
  exact ⟨g, hx, hg⟩

theorem Agree.sparesIdle (h : Agree prog k ctl ph) (hinv : CpuInv k)
    (hfits : ∀ e, (ph e).Fits (k.envs e)) (x : Call) :
    SparesIdle k x := by
  intro _ c hhead
  exact h.idle c ((hfits _).eq_free (hinv.head_free hhead).1)

/-- What programs do is in the protocol. -/
theorem Agree.allowed (h : Agree prog k ctl ph) (hinv : CpuInv k)
    (hfits : ∀ e, (ph e).Fits (k.envs e)) (ha : Allowed prog k cur tf (ctl cur))
    (hsys : tf.IsSyscall) : PhaseCall ph k c cur tf.call := by
  have hidle := h.sparesIdle hinv hfits tf.call
  cases hp : ctl cur with
  | none =>
    rw [hp] at ha
    obtain ⟨-, hno⟩ := ha.resolve_left (not_irq_of_syscall hsys)
    refine ⟨fun hset => ?_, fun hdes => ?_, hidle⟩
    · rw [hset] at hno
      exact absurd hno (by decide)
    · rw [hdes] at hno
      exact absurd hno (by decide)
  | some p =>
    rw [hp] at ha
    rcases ha with hq | ⟨-, hmakes⟩
    · exact ⟨fun hset => ((hq.2 hsys).2.2.1 hset).elim, fun hdes =>
        ((hq.2 hsys).1 hdes).elim, hidle⟩
    cases p with
    | user st =>
      have hno := Asks.no (show Asks tf.call (prog st) from hmakes)
      refine ⟨fun hset => ?_, fun hdes => ?_, hidle⟩
      · rw [hset] at hno
        exact absurd hno (by decide)
      · rw [hdes] at hno
        exact absurd hno (by decide)
    | forking next child =>
      obtain ⟨hno, ha1, ha2⟩ := hmakes
      refine ⟨fun _ e hf => ?_, fun hdes => absurd (hdes.symm.trans hno) (by decide), hidle⟩
      rw [ha1] at hf
      obtain ⟨g, -, hg⟩ := h.child_found hp hf
      exact ⟨ha2, (h.fits _ _ hg).1⟩
    | _ => exact hmakes.elim

/-- **One trap**, up to the point where some environment goes on. -/
theorem Entered.trap (h : Entered prog ctl m m' c cur tf cr2 input ph ph₁)
    (ha : Allowed prog m.k cur tf (ctl cur)) :
    Agree prog m'.k (if tf.IsSyscall then calledCtl prog ctl cur tf.call
      (returned m.k c cur tf input) else ctl) ph₁ ∧
      Net.StepOrStay prog (netOf m.k ctl o)
        (netOf m'.k (if tf.IsSyscall then calledCtl prog ctl cur tf.call
          (returned m.k c cur tf input) else ctl) o) := by
  -- a quiet trap
  have hquiet : Quiet m.k cur tf →
      Agree prog m'.k (if tf.IsSyscall then
        calledCtl prog ctl cur tf.call (returned m.k c cur tf input) else ctl) ph₁ ∧
      Net.StepOrStay prog (netOf m.k ctl o) (netOf m'.k (if tf.IsSyscall then
        calledCtl prog ctl cur tf.call (returned m.k c cur tf input) else ctl) o) := by
    intro hq
    have hsame : (if tf.IsSyscall then calledCtl prog ctl cur tf.call (returned m.k c cur tf input)
      else ctl) = ctl := by
      split_ifs with hsys
      · exact calledCtl_quiet (hq.2 hsys) ..
      · rfl
    rw [hsame]
    obtain ⟨hagree, hnet⟩ := h.quiet (o := o) hq
    exact ⟨hagree, .inl hnet⟩
  cases hp : ctl cur with
  | none =>
    rw [hp] at ha
    apply hquiet
    rcases ha with hirq | ⟨hsys, hno⟩
    · exact ⟨fun hd => hd.not_irq hirq, fun hsys => (not_irq_of_syscall hsys hirq).elim⟩
    · refine ⟨fun hd => ?_, fun _ => ?_⟩
      · rcases hd.call hsys with hc | hc <;> rw [hc] at hno <;> exact absurd hno (by decide)
      · rcases hno with hno | hno <;> rw [hno] <;> decide
  | some p =>
    rw [hp] at ha
    rcases ha with hq | ⟨hsys, hmakes⟩
    · exact hquiet hq
    rw [if_pos hsys]
    cases p with
    | user st =>
      change Asks tf.call (prog st) at hmakes
      cases hprog : prog st with
      | send dest a next =>
        rw [hprog] at hmakes
        obtain ⟨hno, ha1, ha2, ha3⟩ := hmakes
        obtain ⟨r, hret, hresult⟩ := h.send (o := o) ⟨hp, hprog, hsys, hno, ha1, ha2, ha3⟩
        have hctl : calledCtl prog ctl cur tf.call (some r) =
            Function.update ctl cur (some (.afterSend st next r)) := by
          simp only [calledCtl, hp, hprog, hno, if_true]
        rw [hret, hctl]
        exact hresult
      | recv f =>
        rw [hprog] at hmakes
        obtain ⟨hno, ha1⟩ := hmakes
        obtain ⟨hagree, hnet⟩ := h.recv (o := o) hsys hp hprog hno ha1
        have hblk : RecvBlocks tf.call.a1 := by
          rw [ha1]
          exact fun hc => hc.1 rfl
        have hctl : calledCtl prog ctl cur tf.call none =
          Function.update ctl cur (some (.receiving st f)) := by
          simp only [calledCtl, hp, hprog, hno, if_true]
        rw [returned_recv hno hblk, hctl]
        exact ⟨hagree, .inl hnet⟩
      | fork f g =>
        rw [hprog] at hmakes
        obtain ⟨r, ctl₁, hret, hctl₁, hresult⟩ := h.fork (o := o) hsys hp hprog hmakes
        have hctl : calledCtl prog ctl cur tf.call (some r) = ctl₁ := by
          simp only [calledCtl, hp, hprog, show tf.call.no = SYS_exofork from hmakes,
            if_true, hctl₁]
        rw [hret, hctl]
        exact hresult
      | print b next =>
        rw [hprog] at hmakes
        exact hmakes.elim
    | forking next child =>
      obtain ⟨hno, ha1, ha2⟩ := hmakes
      obtain ⟨ctl₁, hret, hctl₁, hagree, hnet⟩ := h.setStatus (o := o) hsys hp hno ha1 ha2
      have hctl : calledCtl prog ctl cur tf.call (some 0) = ctl₁ := by
        have hzero : ¬ (0 : Word).toInt < 0 := by decide
        simp only [calledCtl, hp, hno, if_true, if_neg hzero, hctl₁]
      rw [hret, hctl]
      exact ⟨hagree, .inl hnet⟩
    | _ => exact hmakes.elim

theorem SysInv.print (h : SysInv prog s ph) {st next : σ} {b : β} (hctl : s.ctl e = some (.user st))
    (hprog : prog st = .print b next) :
    SysInv prog
        { s with ctl := Function.update s.ctl e (some (.user next)), out := s.out ++ [b] } ph ∧
      Net.Step prog s.net (Sys.net
        { s with ctl := Function.update s.ctl e (some (.user next)), out := s.out ++ [b] }) := by
  obtain ⟨hmach, hipc, hagree⟩ := h
  have hawake : (ph e).Awake := hagree.fits e _ hctl
  have hset := hagree.set s.m.k e (.user next) (ph e) (fun e _ => .refl _) hawake
    (hagree.slot e _ hctl) (hagree.not_child hctl (by simp)) (by simp)
  rw [Function.update_eq_self] at hset
  refine ⟨⟨hmach, hipc, hset⟩, ?_⟩
  have hnet : netOf s.m.k (Function.update s.ctl e (some (.user next))) s.out =
      s.net.set (s.m.k.envs e).envId (.run next) :=
    netOf_set (fun _ _ _ => rfl) (fun _ _ => rfl) rfl (hagree.slot e _ hctl).idx (.inr rfl)
  have hprint := Net.Step.print (hagree.procs_id (o := s.out) hctl) hprog
  change Net.Step prog s.net
    ⟨(netOf s.m.k (Function.update s.ctl e (some (.user next))) s.out).procs, s.out ++ [b]⟩
  rw [hnet]
  exact hprint

theorem SysInv.start (h : SysInv prog s ph) (hm : s.m.step (.start c) = some m') :
    (∃ ph', SysInv prog { s with m := m', ctl := resumedCtl m' c s.ctl } ph') ∧
      netOf m'.k (resumedCtl m' c s.ctl) s.out = s.net := by
  obtain ⟨hmach, hipc, hagree⟩ := id h
  have hmach' := hmach.step (a := .start c) trivial hm
  simp only [Machine.step] at hm
  split_ifs at hm with hc
  rcases hipc with ⟨-, hi⟩ | ⟨c', hc', -⟩
  · have hreach : Reaches c s.m.k (fun _ => []) ph s.m.k :=
      (hi.mid c).reaches_quiet (fun _ => rfl) fun _ => rfl
    obtain ⟨ph', hrun, hipc'⟩ := hreach.outcome_sched.finish hc.1 hm
    have hs := Ends.sched.sameEnv hm
    have hran : ∀ e, (ph e).run (ranEvents m' c e) = some (ph' e) := by
      intro e
      have hrun' := hrun e
      rw [slotEvents_congr (k := s.m.k) (hs e).free, slotEvents_same rfl] at hrun'
      exact hrun'
    obtain ⟨hagree', hnet⟩ := (hagree.same hs).resume (o := s.out) hran (fits_of_ipc hipc')
    refine ⟨⟨ph', hmach', hipc', hagree'⟩, hnet.trans ?_⟩
    refine netOf_congr (fun e _ => (hs e).id) fun e => ?_
    cases hp : s.ctl e with
    | none => rfl
    | some p =>
      exact congrArg some
        ((hagree.fits e p hp).proc_eq (h.fits e).tells
          (tells_of_ran (hran e) (fits_of_ipc hipc' e)))
  · exact (hc.1 c' hc').elim

/-- A trap of the environment on CPU `c`, up to the point where some environment goes on. -/
theorem SysInv.entered (h : SysInv prog s ph) (hcur : s.m.k.cpuEnv c = some cur)
    (ha : Allowed prog s.m.k cur tf (s.ctl cur)) (hlock : s.m.LockFree) (hi : IpcInv s.m.k ph)
    (hm : s.m.finish c (Jos.trap s.m.k c tf cr2 input) = some m') :
    ∃ ph₁ ph', Entered prog s.ctl s.m m' c cur tf cr2 input ph ph₁ ∧
    Safe s.m (.trap c tf cr2 input) ∧
      (∀ e, (ph₁ e).run (ranEvents m' c e) = some (ph' e)) ∧
      (m'.LockFree ∧ IpcInv m'.k ph' ∨ ∃ c, m'.mode c = .monitor ∧ IpcMid c m'.k ph') := by
  have hinv : CpuInv s.m.k := by
    rcases h.machine with ⟨-, hinv⟩ | ⟨c', hc', -⟩
    · exact hinv
    · exact (hlock c' hc').elim
  have hcall := h.agree.allowed (c := c) hinv h.fits ha
  have hsafe : Safe s.m (.trap c tf cr2 input) := by
    intro cur' hcur' hsys
    obtain rfl : cur = cur' := Option.some.inj (hcur.symm.trans hcur')
    exact (hcall hsys).safeCall hi
  obtain ⟨ph', hrun, hipc'⟩ := (hi.entry hinv hcur hcall (trap_cases hcur)).finish hlock hm
  have hmid :
      ∀ e, ∃ q, (ph e).run (msgEvents s.m.k c cur tf input e ++ slotEvents s.m.k m'.k e) = some q ∧
      q.run (ranEvents m' c e) = some (ph' e) := by
    intro e
    have hrun' := hrun e
    rw [← List.append_assoc, Phase.run_append] at hrun'
    exact Option.bind_eq_some_iff.1 hrun'
  choose ph₁ hph₁ hran using hmid
  exact ⟨ph₁, ph', ⟨h.agree, h.fits, hi.cpu c cur hcur, hcur, hinv, hi.running hinv hcur, hm, hph₁,
    fun e => tells_of_ran (hran e) (fits_of_ipc hipc' e)⟩, hsafe, hran, hipc'⟩

theorem SysInv.trap (h : SysInv prog s ph) (ha : Follows prog s (.entry (.trap c tf cr2 input)))
    (hm : s.m.step (.trap c tf cr2 input) = some m') :
    (∃ ph', SysInv prog
        { s with m := m', ctl := resumedCtl m' c (trappedCtl prog s c tf input) } ph') ∧
      Net.StepOrStay prog s.net
        (netOf m'.k (resumedCtl m' c (trappedCtl prog s c tf input)) s.out) := by
  have hstep := hm
  simp only [Machine.step] at hm
  split_ifs at hm with hc
  rcases h.ipc with ⟨hlock, hi⟩ | ⟨c', hc', -⟩
  · cases hcur : s.m.k.cpuEnv c with
    | none =>
      simp only [Jos.trap, hcur, Machine.finish] at hm
      cases hm
    | some cur =>
      obtain ⟨ph₁, ph', hentered, hsafe, hran, hipc'⟩ := h.entered hcur (ha cur hcur) hlock hi hm
      obtain ⟨hagree₁, hnet₁⟩ := hentered.trap (o := s.out) (ha cur hcur)
      obtain ⟨hagree', hnet⟩ := hagree₁.resume (o := s.out) hran (fits_of_ipc hipc')
      have htrapped : trappedCtl prog s c tf input = if tf.IsSyscall then
          calledCtl prog s.ctl cur tf.call (returned s.m.k c cur tf input) else s.ctl := by
        simp only [trappedCtl, hcur]
      rw [htrapped, hnet]
      exact ⟨⟨ph', h.machine.step hsafe hstep, hipc', hagree'⟩, hnet₁⟩
  · exact (hc.1 c' hc').elim

/-- **One step.** -/
theorem SysInv.step {a : SysAct} (h : SysInv prog s ph) (ha : Follows prog s a)
    (hstep : s.step prog a = some s') :
    (∃ ph', SysInv prog s' ph') ∧ Net.StepOrStay prog s.net s'.net := by
  cases a with
  | print c =>
    unfold Sys.step at hstep
    simp only at hstep
    split at hstep
    · split at hstep
      · rename_i hctl
        split at hstep
        · rename_i hprog
          obtain rfl := Option.some.inj hstep
          obtain ⟨hinv, hnet⟩ := h.print hctl hprog
          exact ⟨⟨ph, hinv⟩, .inr hnet⟩
        · cases hstep
      · cases hstep
    · cases hstep
  | entry a =>
    cases a with
    | start c =>
      obtain ⟨m', hm', rfl⟩ := Option.map_eq_some_iff.1 hstep
      obtain ⟨hinv, hnet⟩ := h.start hm'
      exact ⟨hinv, .inl hnet⟩
    | trap c tf cr2 input =>
      obtain ⟨m', hm', rfl⟩ := Option.map_eq_some_iff.1 hstep
      exact h.trap ha hm'

/-! ## An example -/

inductive Chat
  | start
  | tell (child : Word)
  | listen
  | heard (v : Word)

/-- The parent sends 42 to each of its children, and they print what they get. -/
def chat : Program Chat Word
  | .start => .fork .tell .listen
  | .tell child => .send child 42#32 .start
  | .listen => .recv .heard
  | .heard v => .print v .listen

/-- The child waits on CPU 1, which idles, gets its message, runs and prints. -/
def chatActs : List SysAct := ipcActs.map .entry ++ [.print 1]

theorem bootMachine_slot : SlotOk 8 (bootMachine.k.envs 8) := ⟨by decide, by decide, by decide⟩

end Jos
