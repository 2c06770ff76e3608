import Jos.Entry
import Jos.Lib.Chain
import Jos.Lib.Run

/-!
# Environments and CPUs

Several CPUs run user code, and each kernel entry runs under the big kernel lock from the trap
to `env_run`. This file asks whether an environment can be `cpu_env` of two CPUs, and whether
the environment a CPU runs has the status that says so.

**The machine** (`Machine`) is the kernel state and what each CPU is doing: it waits for its
first `sched_yield`, it is in user mode, or it sits in the monitor with the lock. A step is a
whole kernel entry of one CPU. Entries that panic stop the system and are no steps.

**The result.** Three things go wrong, all in code that trusts `env_status` to say whether an
environment runs somewhere:

* `env_destroy` frees an environment whose status is `ENV_DYING` while its CPU still runs it;
* `sys_env_set_status` makes an environment blocked in `sys_ipc_recv` runnable, and the flag
  `env_ipc_recving` stays; a later send sets the running environment to `ENV_RUNNABLE`;
* the idle environments have fixed slots, and `sched_yield` runs whatever is in the slot of its
  CPU; if one is ever destroyed and its slot recycled, that is an ordinary environment that may
  run elsewhere.

`Safe` excludes exactly these three, and then no environment runs on two CPUs (`one_cpu_each`). It
does not exclude `sys_page_map` with a permission that has address bits set, which can map a page of
the kernel for a program: the table `envs` is no part of the modelled memory, so no store of a
program reaches it here.

**Proof.** `CpuInv` holds between entries. Inside an entry of CPU `c` it holds except for what
it says about `c`'s own environment (`MidInv`), and `env_run` restores it.
-/

namespace Jos

open Lib

/-! ## The machine -/

/-- What a CPU is doing between kernel entries. -/
inductive Mode
  | boot
  | user
  | monitor
  deriving DecidableEq

/-- The kernel and its CPUs. -/
structure Machine where
  k : Kernel
  mode : Cpu → Mode

/-- A kernel entry: the first one of a CPU, which calls `sched_yield`, or a trap. -/
inductive Act
  | start (c : Cpu)
  | trap (c : Cpu) (tf : Trapframe) (cr2 input : Word)

/-- No CPU keeps the kernel lock. -/
def Machine.LockFree (m : Machine) : Prop := ∀ c, m.mode c ≠ .monitor

instance (m : Machine) : Decidable m.LockFree := by unfold Machine.LockFree; infer_instance

/-- The end of a kernel entry on CPU `c`. -/
def Machine.finish (m : Machine) (c : Cpu) : Exit → Option Machine
  | .run k e =>
    match lcr3Curenv (envRun k c e) c with
    | .error _ => none
    | .ok k => some ⟨envPopTf k c, Function.update m.mode c .user⟩
  | .monitor k => some ⟨k, Function.update m.mode c .monitor⟩
  | .panic _ => none

/-- One kernel entry. -/
def Machine.step (m : Machine) : Act → Option Machine
  | .start c =>
    if m.LockFree ∧ m.mode c = .boot then m.finish c (schedYield m.k c) else none
  | .trap c tf cr2 input =>
    if m.LockFree ∧ m.mode c = .user ∧ tf.tfCs &&& 3 = 3 then
      m.finish c (trap m.k c tf cr2 input)
    else none

/-- The state after boot: the CPUs are about to enter the scheduler for the first time. The
slots below `NCPU` hold the idle environments; what is not free is runnable. -/
structure Booted (m : Machine) : Prop where
  mode : ∀ c, m.mode c = .boot
  no_cpu : ∀ c, m.k.cpuEnv c = none
  status : ∀ e, (m.k.envs e).envStatus = ENV_FREE ∨ (m.k.envs e).envStatus = ENV_RUNNABLE
  no_recv : ∀ e, (m.k.envs e).envIpcRecving = false
  idle : ∀ c, (m.k.envs (idleEnv c)).envType = .IDLE
  idle_status : ∀ c, (m.k.envs (idleEnv c)).envStatus = ENV_RUNNABLE
  idle_parent : ∀ c, (m.k.envs (idleEnv c)).envParentId = 0
  ids : ∀ e, (m.k.envs e).envStatus ≠ ENV_FREE → (m.k.envs e).envId ≠ 0
  free_list : ∃ l, Chain (fun e => (m.k.envs e).envLink) m.k.envFreeList l ∧
    ∀ e ∈ l, (m.k.envs e).envStatus = ENV_FREE

/-- Each environment is on at most one CPU, and the ones that run say so. -/
structure OneCpuEach (m : Machine) : Prop where
  inj : ∀ c c' e, m.k.cpuEnv c = some e → m.k.cpuEnv c' = some e → c = c'
  running : ∀ c e, m.mode c = .user → m.k.cpuEnv c = some e →
    (m.k.envs e).envStatus = ENV_RUNNING ∨ (m.k.envs e).envStatus = ENV_DYING

/-- The system calls that do not go wrong: `sys_env_destroy` does not name a dying environment
that runs on another CPU, `sys_env_set_status` does not make a receiver runnable that is blocked
in `sys_ipc_recv`, and `sys_exofork` does not recycle the slot of an idle environment. -/
@[mk_iff]
structure SafeCall (k : Kernel) (c : Cpu) (cur : EnvIdx) (x : Call) : Prop where
  destroy : x.no = SYS_env_destroy → ∀ e, envid2env k cur x.a1 true = some e →
    (k.envs e).envStatus = ENV_DYING → ∀ c', k.cpuEnv c' = some e → c' = c
  set_status : x.no = SYS_env_set_status → x.a2 = ENV_RUNNABLE →
    ∀ e, envid2env k cur x.a1 true = some e → (k.envs e).envStatus = ENV_NOT_RUNNABLE →
      (k.envs e).envIpcRecving = false
  exofork : x.no = SYS_exofork → ∀ c', k.envFreeList ≠ some (idleEnv c')

instance (k : Kernel) (c : Cpu) (cur : EnvIdx) (x : Call) : Decidable (SafeCall k c cur x) :=
  decidable_of_iff' _ (safeCall_iff k c cur x)

/-- The kernel entries that do not go wrong. -/
def Safe (m : Machine) : Act → Prop
  | .start _ => True
  | .trap c tf _ _ => ∀ cur, m.k.cpuEnv c = some cur → tf.IsSyscall → SafeCall m.k c cur tf.call

instance (m : Machine) (a : Act) : Decidable (Safe m a) := by
  unfold Safe Trapframe.IsSyscall
  cases a <;> infer_instance

/-! ## The invariant -/

/-- The invariant inside an entry of CPU `c`: it says of the environment on `c` only that it is
on no other CPU, and that it does not wait for a message while its status is `ENV_RUNNING`. -/
structure MidInv (c : Cpu) (k : Kernel) : Prop where
  inj : ∀ c₁ c₂ e, k.cpuEnv c₁ = some e → k.cpuEnv c₂ = some e → c₁ = c₂
  running : ∀ c' e, c' ≠ c → k.cpuEnv c' = some e →
    (k.envs e).envStatus = ENV_RUNNING ∨ (k.envs e).envStatus = ENV_DYING
  recving : ∀ e, (k.envs e).envIpcRecving = true → (k.envs e).envStatus ≠ ENV_RUNNABLE ∧
    (∀ c', c' ≠ c → k.cpuEnv c' ≠ some e) ∧
    (k.cpuEnv c = some e → (k.envs e).envStatus ≠ ENV_RUNNING)
  idle_recv : ∀ c', (k.envs (idleEnv c')).envIpcRecving = true →
    (k.envs (idleEnv c')).envStatus ≠ ENV_RUNNING
  idle : ∀ c', (k.envs (idleEnv c')).envType = .IDLE
  idle_cpu : ∀ c₁ c₂, k.cpuEnv c₁ = some (idleEnv c₂) → c₁ = c₂
  idle_parent : ∀ c', (k.envs (idleEnv c')).envParentId = 0
  ids : ∀ e, (k.envs e).envStatus ≠ ENV_FREE → (k.envs e).envId ≠ 0
  free_list : ∃ l, Chain (fun e => (k.envs e).envLink) k.envFreeList l ∧
    ∀ e ∈ l, (k.envs e).envStatus = ENV_FREE

/-- The invariant between entries. -/
structure CpuInv (k : Kernel) : Prop where
  mid : ∀ c, MidInv c k
  running : ∀ c e, k.cpuEnv c = some e →
    (k.envs e).envStatus = ENV_RUNNING ∨ (k.envs e).envStatus = ENV_DYING

variable {c : Cpu} {cur e : EnvIdx} {k k' : Kernel}

theorem MidInv.cpuInv (h : MidInv c k)
    (hc : ∀ e, k.cpuEnv c = some e → (k.envs e).envIpcRecving = false ∧
      ((k.envs e).envStatus = ENV_RUNNING ∨ (k.envs e).envStatus = ENV_DYING)) : CpuInv k := by
  have hrun : ∀ c' e, k.cpuEnv c' = some e →
      (k.envs e).envStatus = ENV_RUNNING ∨ (k.envs e).envStatus = ENV_DYING := by
    intro c' e he
    by_cases hcc : c' = c
    · subst hcc
      exact (hc e he).2
    · exact h.running c' e hcc he
  have hnone : ∀ c' e, (k.envs e).envIpcRecving = true → k.cpuEnv c' ≠ some e := by
    intro c' e hrec he
    by_cases hcc : c' = c
    · subst hcc
      rw [(hc e he).1] at hrec
      cases hrec
    · exact (h.recving e hrec).2.1 c' hcc he
  refine ⟨fun c₁ => { h with running := ?_, recving := ?_ }, hrun⟩
  · exact fun c' e _ he => hrun c' e he
  · intro e hrec
    exact ⟨(h.recving e hrec).1, fun c' _ => hnone c' e hrec, fun he => (hnone c₁ e hrec he).elim⟩

theorem CpuInv.not_recving (h : CpuInv k) (he : k.cpuEnv c = some e) :
    (k.envs e).envIpcRecving = false := by
  by_contra hrec
  simp only [Bool.not_eq_false] at hrec
  -- any other CPU's view of the invariant forbids it
  obtain ⟨c', hne⟩ : ∃ c', c' ≠ c := exists_ne c
  exact ((h.mid c').recving e hrec).2.1 c (Ne.symm hne) he

/-! ## Changes that do not matter -/

/-- The two states agree in all that the invariant reads. -/
structure SameTable (k k' : Kernel) : Prop where
  cpuEnv : k'.cpuEnv = k.cpuEnv
  envFreeList : k'.envFreeList = k.envFreeList
  status : ∀ e, (k'.envs e).envStatus = (k.envs e).envStatus
  type : ∀ e, (k'.envs e).envType = (k.envs e).envType
  recving : ∀ e, (k'.envs e).envIpcRecving = (k.envs e).envIpcRecving
  parent : ∀ e, (k'.envs e).envParentId = (k.envs e).envParentId
  id : ∀ e, (k'.envs e).envId = (k.envs e).envId
  link : ∀ e, (k'.envs e).envLink = (k.envs e).envLink

theorem MidInv.congr (h : MidInv c k) (hs : SameTable k k') : MidInv c k' := by
  have hlink : (fun e => (k'.envs e).envLink) = fun e => (k.envs e).envLink := funext hs.link
  constructor
  · rw [hs.cpuEnv]
    exact h.inj
  · intro c' e hne he
    rw [hs.cpuEnv] at he
    rw [hs.status]
    exact h.running c' e hne he
  · intro e hrec
    rw [hs.recving] at hrec
    rw [hs.status, hs.cpuEnv]
    exact h.recving e hrec
  · intro c' hrec
    rw [hs.recving] at hrec
    rw [hs.status]
    exact h.idle_recv c' hrec
  · intro c'
    rw [hs.type]
    exact h.idle c'
  · rw [hs.cpuEnv]
    exact h.idle_cpu
  · intro c'
    rw [hs.parent]
    exact h.idle_parent c'
  · intro e hst
    rw [hs.status] at hst
    rw [hs.id]
    exact h.ids e hst
  · obtain ⟨l, hl, hfree⟩ := h.free_list
    refine ⟨l, ?_, fun e he => ?_⟩
    · rw [hlink, hs.envFreeList]
      exact hl
    · rw [hs.status]
      exact hfree e he

theorem CpuInv.congr (h : CpuInv k) (hs : SameTable k k') : CpuInv k' := by
  refine ⟨fun c => (h.mid c).congr hs, fun c e he => ?_⟩
  rw [hs.cpuEnv] at he
  rw [hs.status]
  exact h.running c e he

theorem sameTable_phys (k : Kernel) (σ : Phys) : SameTable k { k with phys := σ } :=
  ⟨rfl, rfl, fun _ => rfl, fun _ => rfl, fun _ => rfl, fun _ => rfl, fun _ => rfl, fun _ => rfl⟩

theorem sameTable_setEnv (k : Kernel) (e : EnvIdx) {f : Env → Env}
    (hst : ∀ env, (f env).envStatus = env.envStatus) (hty : ∀ env, (f env).envType = env.envType)
    (hre : ∀ env, (f env).envIpcRecving = env.envIpcRecving)
    (hpa : ∀ env, (f env).envParentId = env.envParentId) (hid : ∀ env, (f env).envId = env.envId)
    (hli : ∀ env, (f env).envLink = env.envLink) : SameTable k (k.setEnv e f) := by
  have hsame : ∀ {β : Type} (g : Env → β), (∀ env, g (f env) = g env) → ∀ e',
      g ((k.setEnv e f).envs e') = g (k.envs e') := by
    intro β g hg e'
    by_cases he : e' = e
    · subst he
      simp [Kernel.setEnv, hg]
    · simp [Kernel.setEnv, Function.update_of_ne he]
  exact ⟨rfl, rfl, hsame _ hst, hsame _ hty, hsame _ hre, hsame _ hpa, hsame _ hid, hsame _ hli⟩

theorem SameTable.trans {k₁ k₂ k₃ : Kernel} (h : SameTable k₁ k₂) (h' : SameTable k₂ k₃) :
    SameTable k₁ k₃ where
  cpuEnv := h'.cpuEnv.trans h.cpuEnv
  envFreeList := h'.envFreeList.trans h.envFreeList
  status e := (h'.status e).trans (h.status e)
  type e := (h'.type e).trans (h.type e)
  recving e := (h'.recving e).trans (h.recving e)
  parent e := (h'.parent e).trans (h.parent e)
  id e := (h'.id e).trans (h.id e)
  link e := (h'.link e).trans (h.link e)

theorem sameTable_save (k : Kernel) (cur : EnvIdx) (tf : Trapframe) : SameTable k (k.save cur tf) :=
  sameTable_setEnv k cur (fun _ => rfl) (fun _ => rfl) (fun _ => rfl) (fun _ => rfl) (fun _ => rfl)
    fun _ => rfl

theorem sameTable_setEax (k : Kernel) (cur : EnvIdx) (r : Word) : SameTable k (k.setEax cur r) :=
  sameTable_setEnv k cur (fun _ => rfl) (fun _ => rfl) (fun _ => rfl) (fun _ => rfl) (fun _ => rfl)
    fun _ => rfl

theorem sameTable_upcall (k : Kernel) (cur : EnvIdx) (σ : Phys) (faultVa : Word) :
    SameTable k (k.upcall cur σ faultVa) :=
  (sameTable_phys k σ).trans (sameTable_setEnv _ cur (fun _ => rfl) (fun _ => rfl) (fun _ => rfl)
    (fun _ => rfl) (fun _ => rfl) fun _ => rfl)

theorem sameTable_setIpcPerm (k : Kernel) (e : EnvIdx) (perm : Word) :
    SameTable k (setIpcPerm k e perm) :=
  sameTable_setEnv k e (fun _ => rfl) (fun _ => rfl) (fun _ => rfl) (fun _ => rfl) (fun _ => rfl)
    fun _ => rfl

/-! ## Changes of one environment -/

/-- The fields the invariant reads are written in slot `e` only. -/
theorem setStatus_envs (k : Kernel) (e : EnvIdx) (v : Word) :
    (k.setStatus e v).envs = Function.update k.envs e { k.envs e with envStatus := v } := rfl

theorem link_update {e : EnvIdx} {env : Env} (hl : env.envLink = (k.envs e).envLink) :
    (fun e' => (Function.update k.envs e env e').envLink) = fun e' => (k.envs e').envLink := by
  funext e'
  by_cases he : e' = e
  · subst he
    simp [hl]
  · simp [Function.update_of_ne he]

/-- **One environment changes.** The new contents of slot `e` are those of a live environment:
on another CPU it still runs, it waits only if it is neither runnable nor running on `c`, and
its type, parent and place in the free list are as before. -/
theorem MidInv.update (h : MidInv c k) (env : Env) (hlive : (k.envs e).envStatus ≠ ENV_FREE)
    (hcpu : ∀ c', c' ≠ c → k.cpuEnv c' = some e →
      env.envStatus = ENV_RUNNING ∨ env.envStatus = ENV_DYING)
    (hrec : env.envIpcRecving = true → env.envStatus ≠ ENV_RUNNABLE ∧
      (∀ c', c' ≠ c → k.cpuEnv c' ≠ some e) ∧
      (k.cpuEnv c = some e → env.envStatus ≠ ENV_RUNNING) ∧
      ((∃ c', e = idleEnv c') → env.envStatus ≠ ENV_RUNNING))
    (htype : env.envType = (k.envs e).envType) (hpar : env.envParentId = (k.envs e).envParentId)
    (hid : env.envId = (k.envs e).envId) (hlink : env.envLink = (k.envs e).envLink) :
    MidInv c { k with envs := Function.update k.envs e env } := by
  have hread : ∀ e', (Function.update k.envs e env) e' = if e' = e then env else k.envs e' := by
    intro e'
    by_cases he : e' = e
    · subst he
      simp
    · simp [he]
  obtain ⟨l, hl, hfree⟩ := h.free_list
  constructor
  · exact h.inj
  · intro c' e' hne he'
    simp only [hread]
    split_ifs with he
    · subst he
      exact hcpu c' hne he'
    · exact h.running c' e' hne he'
  · intro e' hr
    simp only [hread] at hr ⊢
    split_ifs at hr ⊢ with he
    · subst he
      exact ⟨(hrec hr).1, (hrec hr).2.1, (hrec hr).2.2.1⟩
    · exact h.recving e' hr
  · intro c' hr
    simp only [hread] at hr ⊢
    split_ifs at hr ⊢ with he
    · exact (hrec hr).2.2.2 ⟨c', he.symm⟩
    · exact h.idle_recv c' hr
  · intro c'
    simp only [hread]
    split_ifs with he
    · rw [htype, ← he]
      exact h.idle c'
    · exact h.idle c'
  · exact h.idle_cpu
  · intro c'
    simp only [hread]
    split_ifs with he
    · rw [hpar, ← he]
      exact h.idle_parent c'
    · exact h.idle_parent c'
  · intro e' hst
    simp only [hread] at hst ⊢
    split_ifs at hst ⊢ with he
    · rw [hid]
      exact h.ids e hlive
    · exact h.ids e' hst
  · refine ⟨l, ?_, fun e' he' => ?_⟩
    · rw [link_update hlink]
      exact hl
    · have hne : e' ≠ e := by
        rintro rfl
        exact hlive (hfree e' he')
      simp only [hread, if_neg hne]
      exact hfree e' he'

theorem MidInv.setStatus (h : MidInv c k) {v : Word} (hlive : (k.envs e).envStatus ≠ ENV_FREE)
    (hcpu : ∀ c', c' ≠ c → k.cpuEnv c' = some e → v = ENV_RUNNING ∨ v = ENV_DYING)
    (hrec : (k.envs e).envIpcRecving = true → v ≠ ENV_RUNNABLE ∧
      (k.cpuEnv c = some e → v ≠ ENV_RUNNING) ∧ ((∃ c', e = idleEnv c') → v ≠ ENV_RUNNING)) :
    MidInv c (k.setStatus e v) :=
  h.update _ hlive hcpu
    (fun hr => ⟨(hrec hr).1, (h.recving e hr).2.1, (hrec hr).2.1, (hrec hr).2.2⟩) rfl rfl rfl rfl

/-- CPU `c` takes up an environment that waits for nothing and is on no other CPU. -/
theorem MidInv.setCurenv (h : MidInv c k) (hrec : (k.envs e).envIpcRecving = false)
    (hcpu : ∀ c', c' ≠ c → k.cpuEnv c' ≠ some e) (hidle : ∀ c', e = idleEnv c' → c' = c) :
    MidInv c (k.setCurenv c (some e)) := by
  have hread : ∀ c', (k.setCurenv c (some e)).cpuEnv c' = if c' = c then some e
    else k.cpuEnv c' := by
    intro c'
    by_cases hc : c' = c
    · subst hc
      simp [Kernel.setCurenv]
    · simp [Kernel.setCurenv, hc]
  refine { h with inj := ?_, running := ?_, recving := ?_, idle_cpu := ?_ }
  · intro c₁ c₂ e' h₁ h₂
    rw [hread] at h₁ h₂
    split_ifs at h₁ h₂ with hc₁ hc₂ hc₂
    · exact hc₁.trans hc₂.symm
    · cases h₁
      exact (hcpu c₂ hc₂ h₂).elim
    · cases h₂
      exact (hcpu c₁ hc₁ h₁).elim
    · exact h.inj c₁ c₂ e' h₁ h₂
  · intro c' e' hne he'
    rw [hread, if_neg hne] at he'
    exact h.running c' e' hne he'
  · intro e' hr
    have hne' : e' ≠ e := by
      rintro rfl
      exact absurd (hr.symm.trans hrec) (by decide)
    refine ⟨(h.recving e' hr).1, fun c' hne => ?_, fun he' => ?_⟩
    · rw [hread, if_neg hne]
      exact (h.recving e' hr).2.1 c' hne
    · rw [hread, if_pos rfl] at he'
      exact (hne' (Option.some.inj he').symm).elim
  · intro c₁ c₂ h₁
    rw [hread] at h₁
    split_ifs at h₁ with hc₁
    · rw [hc₁]
      exact (hidle c₂ (Option.some.inj h₁)).symm
    · exact h.idle_cpu c₁ c₂ h₁

theorem MidInv.dropCurenv (h : MidInv c k) : MidInv c (k.setCurenv c none) := by
  have hsub : ∀ c' e', (k.setCurenv c none).cpuEnv c' = some e' → k.cpuEnv c' = some e' := by
    intro c' e' he'
    by_cases hc : c' = c
    · subst hc
      simp [Kernel.setCurenv] at he'
    · simpa [Kernel.setCurenv, hc] using he'
  refine { h with inj := ?_, running := ?_, recving := ?_, idle_cpu := ?_ }
  · exact fun c₁ c₂ e' h₁ h₂ => h.inj c₁ c₂ e' (hsub _ _ h₁) (hsub _ _ h₂)
  · exact fun c' e' hne he' => h.running c' e' hne (hsub _ _ he')
  · intro e' hr
    exact ⟨(h.recving e' hr).1, fun c' hne he' => (h.recving e' hr).2.1 c' hne (hsub _ _ he'),
      fun he' => (h.recving e' hr).2.2 (hsub _ _ he')⟩
  · exact fun c₁ c₂ h₁ => h.idle_cpu c₁ c₂ (hsub _ _ h₁)

/-! ## The scheduler and `env_run` -/

theorem schedStart_snd (k : Kernel) (c : Cpu) :
    (schedStart k c).2 = k ∨ ∃ cur, k.cpuEnv c = some cur ∧ (k.envs cur).envStatus = ENV_RUNNING ∧
      (schedStart k c).2 = k.setStatus cur ENV_RUNNABLE := by
  unfold schedStart
  cases hcur : k.cpuEnv c with
  | none => exact .inl rfl
  | some cur =>
    simp only
    split_ifs with hst
    · exact .inr ⟨cur, rfl, hst, rfl⟩
    · exact .inl rfl

/-- Giving up the CPU keeps the invariant. -/
theorem MidInv.schedStart (h : MidInv c k) : MidInv c (schedStart k c).2 := by
  rcases schedStart_snd k c with heq | ⟨cur, hcur, hst, heq⟩
  · rw [heq]
    exact h
  · rw [heq]
    apply h.setStatus
    · rw [hst]
      decide
    · intro c' hne hc'
      exact (hne (h.inj c' c cur hc' hcur)).elim
    · intro hr
      exact ((h.recving cur hr).2.2 hcur hst).elim

theorem envRun_eq (k : Kernel) (c : Cpu) (e : EnvIdx) :
    envRun k c e = ((Jos.schedStart k c).2.setCurenv c (some e)).setEnv e fun env =>
      { env with envStatus := ENV_RUNNING, envRuns := env.envRuns + 1 } := by
  unfold envRun Jos.schedStart
  cases hcur : k.cpuEnv c with
  | none => rfl
  | some cur =>
    simp only
    split_ifs <;> rfl

theorem cpuEnv_envRun (k : Kernel) (c : Cpu) (e : EnvIdx) : (envRun k c e).cpuEnv c = some e := by
  rw [envRun_eq]
  exact Function.update_self _ _ _

theorem schedStart_fields (k : Kernel) (c : Cpu) (e : EnvIdx) :
    (((schedStart k c).2.envs e).envIpcRecving = (k.envs e).envIpcRecving) ∧
      ((k.envs e).envStatus ≠ ENV_FREE → ((schedStart k c).2.envs e).envStatus ≠ ENV_FREE) ∧
      (schedStart k c).2.cpuEnv = k.cpuEnv := by
  rcases schedStart_snd k c with heq | ⟨cur, hcur, hst, heq⟩
  · rw [heq]
    exact ⟨rfl, id, rfl⟩
  · rw [heq, setStatus_envs]
    refine ⟨?_, fun hlive => ?_, rfl⟩
    · by_cases he : e = cur
      · subst he
        simp
      · simp [he]
    · by_cases he : e = cur
      · subst he
        simp only [Function.update_self]
        decide
      · simpa [he] using hlive

/-- **`env_run` restores the invariant.** -/
theorem MidInv.envRun (h : MidInv c k) (hlive : (k.envs e).envStatus ≠ ENV_FREE)
    (hrec : (k.envs e).envIpcRecving = false) (hcpu : ∀ c', c' ≠ c → k.cpuEnv c' ≠ some e)
    (hidle : ∀ c', e = idleEnv c' → c' = c) : CpuInv (Jos.envRun k c e) := by
  obtain ⟨hrec', hlive', hcpu'⟩ := schedStart_fields k c e
  have h₁ : MidInv c ((Jos.schedStart k c).2.setCurenv c (some e)) := by
    apply h.schedStart.setCurenv
    · rw [hrec', hrec]
    · rw [hcpu']
      exact hcpu
    · exact hidle
  have h₂ : MidInv c (Jos.envRun k c e) := by
    rw [envRun_eq]
    refine h₁.update _ (hlive' hlive) (fun _ _ _ => .inl rfl) (fun hr => ?_) rfl rfl rfl rfl
    exact absurd (hr.symm.trans (hrec'.trans hrec)) (by decide)
  refine h₂.cpuInv fun e' he' => ?_
  rw [envRun_eq] at he' ⊢
  have hee : e' = e := by
    simpa [Kernel.setEnv, Kernel.setCurenv, eq_comm] using he'
  subst hee
  simp [Kernel.setEnv, Kernel.setCurenv, hrec', hrec]

/-- What the scheduler picks can be run. -/
theorem MidInv.schedYield (h : MidInv c k) (hsched : Jos.schedYield k c = .run k' e) :
    CpuInv (Jos.envRun k' c e) := by
  obtain ⟨rfl, hpick⟩ := schedYield_run hsched
  have h' := h.schedStart
  rcases hpick with ⟨htype, hst⟩ | ⟨rfl, hst⟩
  · have hnot : ∀ c', e ≠ idleEnv c' := by
      rintro c' rfl
      exact htype (h'.idle c')
    refine h'.envRun (by rw [hst]; decide) ?_ ?_ fun c' he => (hnot c' he).elim
    · by_contra hr
      exact (h'.recving e (by simpa using hr)).1 hst
    · intro c' hne he
      rcases h'.running c' e hne he with hr | hr <;> rw [hst] at hr <;> exact absurd hr (by decide)
  · refine h'.envRun ?_ ?_ ?_ fun c' he => (Fin.castLE_injective _ he).symm
    · rcases hst with hr | hr <;> rw [hr] <;> decide
    · by_contra hr
      have hr' := by simpa using hr
      rcases hst with hst | hst
      · exact (h'.recving _ hr').1 hst
      · exact h'.idle_recv c hr' hst
    · intro c' hne he
      exact hne (h'.idle_cpu c' c he)

/-! ## Freeing and creating environments -/

theorem envFree_ok (h : envFree k c e = .ok k') :
    ∃ σ, k' = ({ k.leave c e with phys := σ }.retire e) := by
  unfold envFree at h
  obtain ⟨d, -, h⟩ := bind_eq_ok.1 h
  obtain ⟨σ, -, h⟩ := bind_eq_ok.1 h
  cases h
  exact ⟨σ, rfl⟩

theorem envs_envFree (h : envFree k c e = .ok k') :
    k'.envs = Function.update k.envs e
        { k.envs e with envPgdir := none, envStatus := ENV_FREE, envLink := k.envFreeList } ∧
      k'.envFreeList = some e := by
  obtain ⟨σ, rfl⟩ := envFree_ok h
  unfold Kernel.leave
  split_ifs <;> exact ⟨rfl, rfl⟩

theorem MidInv.free (h : MidInv c k) (hlive : (k.envs e).envStatus ≠ ENV_FREE)
    (hcpu : ∀ c', c' ≠ c → k.cpuEnv c' ≠ some e) (hfree : envFree k c e = .ok k') :
    MidInv c k' := by
  have hcpuEnv := cpuEnv_envFree hfree
  obtain ⟨henvs, hlist⟩ := envs_envFree hfree
  have hread : ∀ e', k'.envs e' = if e' = e then
      { k.envs e with envPgdir := none, envStatus := ENV_FREE, envLink := k.envFreeList }
      else k.envs e' := by
    intro e'
    rw [henvs]
    by_cases he : e' = e
    · subst he
      simp
    · simp [he]
  obtain ⟨l, hl, hall⟩ := h.free_list
  have hel : e ∉ l := fun hmem => hlive (hall e hmem)
  constructor
  · rw [hcpuEnv]
    exact h.inj
  · intro c' e' hne he'
    rw [hcpuEnv] at he'
    have hee : e' ≠ e := by
      rintro rfl
      exact hcpu c' hne he'
    rw [hread, if_neg hee]
    exact h.running c' e' hne he'
  · intro e' hr
    rw [hread, hcpuEnv] at *
    split_ifs at hr ⊢ with hee
    · subst hee
      exact ⟨(by decide : ENV_FREE ≠ ENV_RUNNABLE), hcpu, fun _ =>
        (by decide : ENV_FREE ≠ ENV_RUNNING)⟩
    · exact h.recving e' hr
  · intro c' hr
    rw [hread] at *
    split_ifs at hr ⊢ with hee
    · exact (by decide : ENV_FREE ≠ ENV_RUNNING)
    · exact h.idle_recv c' hr
  · intro c'
    rw [hread]
    split_ifs with hee
    · rw [← hee]
      exact h.idle c'
    · exact h.idle c'
  · rw [hcpuEnv]
    exact h.idle_cpu
  · intro c'
    rw [hread]
    split_ifs with hee
    · rw [← hee]
      exact h.idle_parent c'
    · exact h.idle_parent c'
  · intro e' hst
    rw [hread] at *
    split_ifs at hst ⊢ with hee
    · exact (hst rfl).elim
    · exact h.ids e' hst
  · have hlink : (fun e' => (k'.envs e').envLink) =
        Function.update (fun e' => (k.envs e').envLink) e k.envFreeList := by
      funext e'
      rw [hread]
      by_cases hee : e' = e
      · subst hee
        simp
      · simp [hee]
    refine ⟨e :: l, ?_, fun e' he' => ?_⟩
    · rw [hlink, hlist]
      exact hl.push hel
    · rw [hread]
      split_ifs with hee
      · rfl
      · exact hall e' ((List.mem_cons.1 he').resolve_left hee)

theorem nextEnvId_ne_zero (id : Word) (e : EnvIdx) : nextEnvId id e ≠ 0 := by
  unfold nextEnvId
  simp only
  intro h
  split_ifs at h with hle
  · have := congrArg (·.getLsbD 12) h
    simp [ENVGENSHIFT] at this
  · apply hle
    have hz := (BitVec.or_eq_zero_iff.1 h).1
    rw [hz]
    decide

theorem MidInv.allocated (h : MidInv c k) {child : EnvIdx} {p : Nat} {env : Env}
    (hhead : k.envFreeList = some child) (hidle : ∀ c', child ≠ idleEnv c')
    (hrec : env.envIpcRecving = false) (hid : env.envId ≠ 0) (hcur : k.cpuEnv c ≠ some child) :
    MidInv c (Jos.allocated k child p env) := by
  obtain ⟨l, hl, hall⟩ := h.free_list
  rw [hhead] at hl
  obtain ⟨l', rfl, hl'⟩ := hl.pop
  have hfree : (k.envs child).envStatus = ENV_FREE := hall child List.mem_cons_self
  have hcpu : ∀ c', k.cpuEnv c' ≠ some child := by
    intro c' he
    by_cases hcc : c' = c
    · exact hcur (hcc ▸ he)
    · rcases h.running c' child hcc he with hr | hr <;> rw [hfree] at hr <;>
        exact absurd hr (by decide)
  have hread : ∀ e', (Jos.allocated k child p env).envs e' = if e' = child then env
    else k.envs e' := by
    intro e'
    by_cases he : e' = child
    · subst he
      simp [Jos.allocated]
    · simp [Jos.allocated, he]
  have hnodup := hl.nodup
  constructor
  · exact h.inj
  · intro c' e' hne he'
    have hee : e' ≠ child := by
      rintro rfl
      exact hcpu c' he'
    rw [hread, if_neg hee]
    exact h.running c' e' hne he'
  · intro e' hr
    rw [hread] at *
    split_ifs at hr ⊢ with hee
    · exact absurd (hr.symm.trans hrec) (by decide)
    · exact h.recving e' hr
  · intro c' hr
    rw [hread, if_neg fun he => hidle c' he.symm] at *
    exact h.idle_recv c' hr
  · intro c'
    rw [hread, if_neg fun he => hidle c' he.symm]
    exact h.idle c'
  · exact h.idle_cpu
  · intro c'
    rw [hread, if_neg fun he => hidle c' he.symm]
    exact h.idle_parent c'
  · intro e' hst'
    rw [hread] at *
    split_ifs at hst' ⊢ with hee
    · exact hid
    · exact h.ids e' hst'
  · have hnot : child ∉ l' := (List.nodup_cons.1 hnodup).1
    have hlink : (fun e' => ((Jos.allocated k child p env).envs e').envLink) =
        Function.update (fun e' => (k.envs e').envLink) child env.envLink := by
      funext e'
      rw [hread]
      by_cases hee : e' = child
      · subst hee
        simp
      · simp [hee]
    refine ⟨l', ?_, fun e' he' => ?_⟩
    · rw [hlink]
      exact hl'.update_of_not_mem hnot _
    · have hee : e' ≠ child := by
        rintro rfl
        exact hnot he'
      rw [hread, if_neg hee]
      exact hall e' (List.mem_cons_of_mem _ he')

/-! ## System calls -/

variable {x : Call} {r : Word}

/-- A live environment that is found has an id; the idle environments are found by themselves
only, since their parent is the kernel. -/
theorem CpuInv.found_idle (h : CpuInv k) (hcur : k.cpuEnv c = some cur) {envid : Word}
    (hf : envid2env k cur envid true = some e) (hidle : ∃ c', e = idleEnv c') : e = cur := by
  rcases envid2env_some hf with he | ⟨-, hpar⟩
  · exact he
  · obtain ⟨c', rfl⟩ := hidle
    have hlive : (k.envs cur).envStatus ≠ ENV_FREE := by
      rcases h.running c cur hcur with hr | hr <;> rw [hr] <;> decide
    have hid := (h.mid c).ids cur hlive
    rw [← hpar rfl, (h.mid c).idle_parent c'] at hid
    exact (hid rfl).elim

theorem CpuInv.found_live (h : CpuInv k) (hcur : k.cpuEnv c = some cur) {envid : Word} {b : Bool}
    (hf : envid2env k cur envid b = some e) : (k.envs e).envStatus ≠ ENV_FREE := by
  rcases envid2env_some hf with rfl | ⟨hlive, -⟩
  · rcases h.running c e hcur with hr | hr <;> rw [hr] <;> decide
  · exact hlive

/-- **A system call keeps the invariant.** -/
theorem CpuInv.sysReturn (h : CpuInv k) (hcur : k.cpuEnv c = some cur)
    (hst : (k.envs cur).envStatus = ENV_RUNNING) (hsafe : SafeCall k c cur x)
    (hret : SysReturn c cur k x r k') : MidInv c k' ∧ k'.cpuEnv = k.cpuEnv := by
  have hm := h.mid c
  cases hret with
  | same => exact ⟨hm, rfl⟩
  | pageAlloc hno hcall =>
    rw [sysPageAlloc_phys hcall]
    exact ⟨hm.congr (sameTable_phys k _), rfl⟩
  | pageMap hno hcall =>
    rw [sysPageMap_phys hcall]
    exact ⟨hm.congr (sameTable_phys k _), rfl⟩
  | pageUnmap hno hcall =>
    rw [sysPageUnmap_phys hcall]
    exact ⟨hm.congr (sameTable_phys k _), rfl⟩
  | dying hno hf hr hne =>
    refine ⟨hm.setStatus (h.found_live hcur hf) (fun _ _ _ => .inr rfl) fun _ => ?_, rfl⟩
    exact ⟨by decide, fun _ => by decide, fun _ => by decide⟩
  | @free e k' hno hf hr hne hfree =>
    refine ⟨hm.free (h.found_live hcur hf) (fun c' hc' he => ?_) hfree, cpuEnv_envFree hfree⟩
    -- on another CPU it could only be dying, and then the call is not safe
    rcases h.running c' e he with hrun | hdying
    · exact hr hrun
    · exact hc' (hsafe.destroy hno e hf hdying c' he)
  | exofork hno hcall =>
    have hhead : k.envFreeList ≠ some cur := by
      intro hhead
      obtain ⟨l, hl, hall⟩ := hm.free_list
      rw [hhead] at hl
      obtain ⟨l', rfl, -⟩ := hl.pop
      have := hall cur List.mem_cons_self
      rw [hst] at this
      exact absurd this (by decide)
    rcases sysExofork_ok hhead hcall with rfl | ⟨child, p, hchild, -, rfl⟩
    · exact ⟨hm, rfl⟩
    · refine ⟨hm.allocated hchild (fun c' hc' => ?_) rfl (nextEnvId_ne_zero _ _) ?_, rfl⟩
      · rw [hc'] at hchild
        exact hsafe.exofork hno c' hchild
      · rw [hcur]
        exact fun hc' => hhead (hc' ▸ hchild)
  | @setStatus e hno hf hs =>
    have hne : e ≠ cur := by
      rintro rfl
      rw [hst] at hs
      rcases hs with hs | hs <;> exact absurd hs (by decide)
    refine ⟨hm.setStatus (h.found_live hcur hf) (fun c' hc' he => ?_) fun hrec => ⟨?_, ?_, ?_⟩, rfl⟩
    · rcases h.running c' e he with hr | hr <;> rcases hs with hs | hs <;> rw [hr] at hs <;>
        exact absurd hs (by decide)
    · intro hv
      rcases hs with hs | hs
      · exact (hm.recving e hrec).1 hs
      · rw [hsafe.set_status hno hv e hf hs] at hrec
        cases hrec
    · intro he
      rw [hcur, Option.some.injEq] at he
      exact (hne he.symm).elim
    · exact fun hidle => (hne (h.found_idle hcur hf hidle)).elim
  | setUpcall hno hf =>
    exact ⟨hm.congr (sameTable_setEnv k _ (fun _ => rfl) (fun _ => rfl) (fun _ => rfl)
      (fun _ => rfl) (fun _ => rfl) fun _ => rfl), rfl⟩
  | send hno hcall =>
    rcases sysIpcTrySend_ok hcall with ⟨-, -, rfl⟩ | ⟨uenv, hf, ⟨-, -, rfl⟩ | ⟨hrec, hsend⟩⟩
    · exact ⟨hm, rfl⟩
    · exact ⟨hm, rfl⟩
    · rcases hsend with ⟨-, rfl⟩ | ⟨-, rfl⟩ | ⟨-, hk'⟩
      · exact ⟨hm, rfl⟩
      · exact ⟨hm.congr (sameTable_setIpcPerm k uenv 0), rfl⟩
      · have hfree : ∀ c', k.cpuEnv c' ≠ some uenv := by
          intro c' he
          rw [h.not_recving he] at hrec
          cases hrec
        have hu := hm.update (delivered k cur uenv x.a2 (sentPerm k uenv x.a3 x.a4))
          (h.found_live hcur hf) (fun c' _ he => (hfree c' he).elim)
          (fun hr => absurd hr (by simp [delivered])) rfl rfl rfl rfl
        rw [hk']
        exact ⟨hu.congr (sameTable_phys _ _), rfl⟩

/-! ## Kernel entries -/

/-- What holds at the end of a kernel entry of CPU `c`. -/
structure Outcome (c : Cpu) (exit : Exit) : Prop where
  run : ∀ k e, exit = .run k e → CpuInv (envRun k c e)
  monitor : ∀ k, exit = .monitor k → MidInv c k

theorem MidInv.outcome_sched (h : MidInv c k) : Outcome c (Jos.schedYield k c) := by
  refine ⟨fun k' e hs => h.schedYield hs, fun k' hs => ?_⟩
  rw [schedYield_monitor hs]
  exact h.schedStart

theorem MidInv.outcome_run (h : MidInv c k) (hcur : k.cpuEnv c = some cur)
    (hst : (k.envs cur).envStatus = ENV_RUNNING) : Outcome c (.run k cur) := by
  refine ⟨fun k' e heq => ?_, nofun⟩
  cases heq
  apply h.envRun
  · rw [hst]
    decide
  · by_contra hrec
    exact (h.recving cur (by simpa using hrec)).2.2 hcur hst
  · exact fun c' hne he => hne (h.inj c' c cur he hcur)
  · rintro c' rfl
    exact (h.idle_cpu c c' hcur).symm

theorem MidInv.outcome_return (h : MidInv c k) (hcur : k.cpuEnv c = some cur) :
    Outcome c (trapReturn k c) := by
  rcases trapReturn_cases hcur with ⟨hst, heq⟩ | ⟨-, heq⟩
  · rw [heq]
    exact h.outcome_run hcur hst
  · rw [heq]
    exact h.outcome_sched

theorem MidInv.outcome_free (h : MidInv c k) (hcur : k.cpuEnv c = some cur)
    (hlive : (k.envs cur).envStatus ≠ ENV_FREE) (hfree : envFree k c cur = .ok k') :
    Outcome c (Jos.schedYield (k'.setCurenv c none) c) :=
  (h.free hlive (fun c' hne he => hne (h.inj c' c cur he hcur)) hfree).dropCurenv.outcome_sched

theorem envid2env_congr (hs : SameTable k k') (cur : EnvIdx) (envid : Word) (b : Bool) :
    envid2env k' cur envid b = envid2env k cur envid b := by
  unfold envid2env
  simp only [hs.status, hs.id, hs.parent]

theorem SafeCall.congr (h : SafeCall k c cur x) (hs : SameTable k k') : SafeCall k' c cur x := by
  constructor
  · intro hno e hf
    rw [envid2env_congr hs] at hf
    rw [hs.status, hs.cpuEnv]
    exact h.destroy hno e hf
  · intro hno hv e hf
    rw [envid2env_congr hs] at hf
    rw [hs.status, hs.recving]
    exact h.set_status hno hv e hf
  · intro hno
    rw [hs.envFreeList]
    exact h.exofork hno

/-- **A kernel entry keeps the invariant.** -/
theorem CpuInv.entry (h : CpuInv k) (hcur : k.cpuEnv c = some cur) {tf : Trapframe}
    {cr2 input : Word} {exit : Exit} (hsafe : tf.IsSyscall → SafeCall k c cur tf.call)
    (hE : Entry c cur k tf cr2 input exit) : Outcome c exit := by
  have hsave := h.congr (sameTable_save k cur tf)
  have hlive : (k.envs cur).envStatus ≠ ENV_FREE := by
    rcases h.running c cur hcur with hr | hr <;> rw [hr] <;> decide
  have hsame := (sameTable_save k cur tf).status cur
  have hrun : (k.envs cur).envStatus ≠ ENV_DYING →
      ((k.save cur tf).envs cur).envStatus = ENV_RUNNING := by
    intro hd
    rw [hsame]
    exact (h.running c cur hcur).resolve_right hd
  cases hE with
  | panic msg => exact ⟨nofun, nofun⟩
  | reap hd hfree => exact (h.mid c).outcome_free hcur hlive hfree
  | destroySelf hd hdoom hfree =>
    exact (hsave.mid c).outcome_free hcur (by rwa [hsame]) hfree
  | yield hd hno => exact (hsave.mid c).outcome_sched
  | monitor hd hbp =>
    refine ⟨nofun, fun k' heq => ?_⟩
    cases heq
    exact hsave.mid c
  | irq hd hirq => exact (hsave.mid c).outcome_return hcur
  | recv hd hsys hno hblk =>
    refine MidInv.outcome_sched ((hsave.mid c).update _ (by rwa [hsame]) ?_ ?_ rfl rfl rfl rfl)
    · intro c' hne he
      exact (hne ((h.mid c).inj c' c cur he hcur)).elim
    · intro _
      refine ⟨(by decide : ENV_NOT_RUNNABLE ≠ ENV_RUNNABLE), fun c' hne he => ?_,
        fun _ => (by decide : ENV_NOT_RUNNABLE ≠ ENV_RUNNING),
        fun _ => (by decide : ENV_NOT_RUNNABLE ≠ ENV_RUNNING)⟩
      exact hne ((h.mid c).inj c' c cur he hcur)
  | @call r k' hd hsys hrun' hret =>
    obtain ⟨hm, hcpu⟩ := hsave.sysReturn hcur (hrun hd)
      ((hsafe hsys).congr (sameTable_save k cur tf)) hret
    have hcur' : (k'.setEax cur r).cpuEnv c = some cur := (congrFun hcpu c).trans hcur
    exact (hm.congr (sameTable_setEax _ cur _)).outcome_return hcur'
  | fault hd hpf hst =>
    refine ((hsave.mid c).congr (sameTable_upcall _ cur _ _)).outcome_run hcur ?_
    rw [(sameTable_upcall _ cur _ _).status]
    exact hrun hd

/-! ## Runs -/

/-- Between entries the whole invariant holds, until a CPU stays in the monitor. -/
def MachineInv (m : Machine) : Prop :=
  m.LockFree ∧ CpuInv m.k ∨ ∃ c, m.mode c = .monitor ∧ MidInv c m.k

theorem MachineInv.oneCpuEach {m : Machine} (h : MachineInv m) : OneCpuEach m := by
  rcases h with ⟨-, h⟩ | ⟨c, hc, h⟩
  · exact ⟨(h.mid 0).inj, fun c e _ he => h.running c e he⟩
  · refine ⟨h.inj, fun c' e hu he => h.running c' e ?_ he⟩
    rintro rfl
    rw [hc] at hu
    cases hu

theorem Booted.cpuInv {m : Machine} (h : Booted m) : CpuInv m.k := by
  have hnone : ∀ c e, m.k.cpuEnv c ≠ some e := by
    intro c e
    rw [h.no_cpu c]
    nofun
  have hrec : ∀ e, (m.k.envs e).envIpcRecving ≠ true := by
    intro e
    rw [h.no_recv e]
    nofun
  refine ⟨fun c => ?_, fun c e he => (hnone c e he).elim⟩
  exact {
    inj := fun c₁ _ e he _ => (hnone c₁ e he).elim
    running := fun c' e _ he => (hnone c' e he).elim
    recving := fun e hr => (hrec e hr).elim
    idle_recv := fun c' hr => (hrec _ hr).elim
    idle := h.idle
    idle_cpu := fun c₁ c₂ he => (hnone c₁ _ he).elim
    idle_parent := h.idle_parent
    ids := h.ids
    free_list := h.free_list }

theorem Booted.inv {m : Machine} (h : Booted m) : MachineInv m := by
  refine .inl ⟨fun c hc => ?_, h.cpuInv⟩
  rw [h.mode c] at hc
  cases hc

theorem sameTable_enter (hl : lcr3Curenv k c = .ok k') : SameTable k (envPopTf k' c) := by
  have h₁ : SameTable k k' := by
    unfold lcr3Curenv at hl
    cases hcur : k.cpuEnv c with
    | none => simp [hcur] at hl
    | some e =>
      cases hd : (k.envs e).envPgdir with
      | none => simp [hcur, hd] at hl
      | some d =>
        simp only [hcur, hd] at hl
        cases hl
        exact ⟨rfl, rfl, fun _ => rfl, fun _ => rfl, fun _ => rfl, fun _ => rfl, fun _ => rfl,
          fun _ => rfl⟩
  refine h₁.trans ?_
  unfold envPopTf
  cases hcur : k'.cpuEnv c with
  | none =>
    exact ⟨rfl, rfl, fun _ => rfl, fun _ => rfl, fun _ => rfl, fun _ => rfl, fun _ => rfl,
      fun _ => rfl⟩
  | some e =>
    exact sameTable_setEnv k' e (fun _ => rfl) (fun _ => rfl) (fun _ => rfl) (fun _ => rfl)
      (fun _ => rfl) fun _ => rfl

theorem Outcome.finish {m m' : Machine} {exit : Exit} (ho : Outcome c exit) (hfree : m.LockFree)
    (hf : m.finish c exit = some m') : MachineInv m' := by
  unfold Machine.finish at hf
  cases exit with
  | panic msg => cases hf
  | monitor k =>
    cases hf
    exact .inr ⟨c, by simp, ho.monitor k rfl⟩
  | run k e =>
    simp only at hf
    cases hl : lcr3Curenv (envRun k c e) c with
    | error msg =>
      rw [hl] at hf
      cases hf
    | ok k₁ =>
      rw [hl] at hf
      cases hf
      refine .inl ⟨fun c' => ?_, (ho.run k e rfl).congr (sameTable_enter hl)⟩
      by_cases hc : c' = c
      · subst hc
        simp
      · simpa [hc] using hfree c'

/-- **One step.** -/
theorem MachineInv.step {m m' : Machine} {a : Act} (h : MachineInv m) (hsafe : Safe m a)
    (hstep : m.step a = some m') : MachineInv m' := by
  cases a with
  | start c =>
    simp only [Machine.step] at hstep
    split_ifs at hstep with hc
    rcases h with ⟨-, h⟩ | ⟨c', hc', -⟩
    · exact (h.mid c).outcome_sched.finish hc.1 hstep
    · exact (hc.1 c' hc').elim
  | trap c tf cr2 input =>
    simp only [Machine.step] at hstep
    split_ifs at hstep with hc
    rcases h with ⟨-, h⟩ | ⟨c', hc', -⟩
    · cases hcur : m.k.cpuEnv c with
      | none =>
        simp only [trap, hcur, Machine.finish] at hstep
        cases hstep
      | some cur =>
        exact (h.entry hcur (hsafe cur hcur) (trap_cases hcur)).finish hc.1 hstep
    · exact (hc.1 c' hc').elim

/-- `envs[]` after boot: the idle environments in slots 0 to 7 and one program in slot 8. The
other slots are on the free list, with the type that `env_init` gives them. -/
def bootEnv (e : EnvIdx) : Env :=
  if e.val < 9 then
    { envId := BitVec.ofNat 32 (0x1000 + e.val)
      envType := if e.val < 8 then .IDLE else .USER
      envStatus := ENV_RUNNABLE
      envPgdir := some (1 + e.val) }
  else
    { envType := .IDLE
      envLink := if h : e.val + 1 < 1024 then some ⟨e.val + 1, h⟩ else none }

/-- A machine of 128 pages. Pages 1 to 9 are the page directories; the program has one page
table, page 10, and one page, page 11, mapped at `0x800000`. Pages 12 to 99 are free, and page
100 is `kern_pgdir`. -/
def bootKernel : Kernel where
  phys :=
    { npages := 128
      mem := fun f i =>
        if f = 9 ∧ i = 2 then page2pa 10 ||| PTE_P ||| PTE_W ||| PTE_U
        else if f = 10 ∧ i = 0 then page2pa 11 ||| PTE_P ||| PTE_W ||| PTE_U
        else if 1 ≤ f ∧ f ≤ 9 ∧ i = PDX UVPT then page2pa f ||| PTE_P ||| PTE_U
        else 0
      ppRef := fun p => if 1 ≤ p ∧ p ≤ 11 then 1 else 0
      ppLink := fun p => if 12 ≤ p ∧ p < 99 then some (p + 1) else none
      pageFreeList := some 12
      nAvailPages := 88
      kernPgdir := 100
      tlb := [] }
  envs := bootEnv
  envFreeList := some 9
  cpuEnv := fun _ => none
  cr3 := fun _ => 100

def bootMachine : Machine := ⟨bootKernel, fun _ => .boot⟩

theorem bootEnv_chain (m n : Nat) (h : n + m = 1023) (hn : 9 ≤ n) :
    ∃ l, Chain (fun e => (bootEnv e).envLink) (some ⟨n, by omega⟩) l ∧ ∀ e ∈ l, 9 ≤ e.val := by
  induction m generalizing n with
  | zero =>
    have hlink : (bootEnv ⟨n, by omega⟩).envLink = none := by
      unfold bootEnv
      rw [if_neg (by simp only; omega)]
      exact dif_neg (by simp only; omega)
    refine ⟨[⟨n, by omega⟩], .cons ?_, ?_⟩
    · rw [hlink]
      exact .nil
    · intro e he
      rw [List.mem_singleton.1 he]
      exact hn
  | succ m ih =>
    obtain ⟨l, hl, hall⟩ := ih (n + 1) (by omega) (by omega)
    have hlink : (bootEnv ⟨n, by omega⟩).envLink = some ⟨n + 1, by omega⟩ := by
      unfold bootEnv
      rw [if_neg (by simp only; omega)]
      exact dif_pos (by simp only; omega)
    refine ⟨⟨n, by omega⟩ :: l, .cons ?_, ?_⟩
    · rw [hlink]
      exact hl
    · intro e he
      rcases List.mem_cons.1 he with rfl | he
      · exact hn
      · exact hall e he

theorem booted_bootMachine : Booted bootMachine where
  mode _ := rfl
  no_cpu _ := rfl
  status := by decide +kernel
  no_recv := by decide +kernel
  idle := by decide
  idle_status := by decide
  idle_parent := by decide
  ids := by decide +kernel
  free_list := by
    obtain ⟨l, hl, hall⟩ := bootEnv_chain 1014 9 rfl (le_refl 9)
    refine ⟨l, hl, fun e he => ?_⟩
    have h9 := hall e he
    change (bootEnv e).envStatus = ENV_FREE
    unfold bootEnv
    rw [if_neg (by omega)]

/-- A system call from user mode. -/
def callTf (no a1 a2 : Word) : Trapframe :=
  { tfTrapno := T_SYSCALL, tfCs := GD_UT ||| 3
    tfRegs := { regEax := no, regEdx := a1, regEcx := a2 } }

/-- The program forks and the child runs on another CPU. -/
def forkActs : List Act :=
  [.start 0, .trap 0 (callTf SYS_exofork 0 0) 0 0,
   .trap 0 (callTf SYS_env_set_status 0x1009#32 ENV_RUNNABLE) 0 0, .start 1]

/-- The parent destroys its running child twice. -/
def destroyActs : List Act :=
  forkActs ++ [.trap 0 (callTf SYS_env_destroy 0x1009#32 0) 0 0,
    .trap 0 (callTf SYS_env_destroy 0x1009#32 0) 0 0]

end Jos
