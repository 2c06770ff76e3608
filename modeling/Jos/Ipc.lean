import Jos.Cpus

/-!
# IPC delivers each message once

A message is not queued: `sys_ipc_try_send` writes it into fields of the receiver's `Env`, which
has to be waiting in `sys_ipc_recv`. This file says what that amounts to over whole runs.

**Histories.** A run gives every environment a history of events (`Ev`), read off the entries and
their results: it is created or destroyed, it blocks in `sys_ipc_recv`, a send to it returns
zero, it enters user mode. The protocol is an automaton over these events (`Phase.step`). It
accepts a send only while the receiver waits, so that each send completes one receive and each
receive is completed once, and it accepts that the receiver runs again only with `eax = 0`, the
other registers of its call, and the message in its fields; the message stays until the next
receive.

**The runs** are those in which `sys_env_set_status` is used as `fork` uses it and no environment is
destroyed while it runs on another CPU (`IpcAct`). They may violate the protocol: where the slot of
a destroyed idle environment is recycled, `sched_yield` may run an environment on two CPUs, and one
of them saves its frame over that of the `sys_ipc_recv` made on the other
(`recycled_idle_loses_recv`). `ipc_delivers_once` is about the runs in which `sys_exofork` never
recycles such a slot (`KeepsIdle`). User stores reach user pages only, so a program that maps kernel
data for itself with a forged permission is outside the model.

**Proof.** `IpcInv` relates the phase of an environment to its `Env`: it waits if and only if
`env_ipc_recving` is set, and what a CPU runs is past its last receive. `CpuInv` says who may run.
Inside an entry of CPU `c` the environment on `c` may be in any phase (`IpcMid`).
-/

namespace Jos

open Lib

/-! ## Histories -/

/-- A message, as the receiver finds it. -/
structure Msg where
  sender : Word
  value : Word
  perm : Word
  deriving DecidableEq

/-- The message in an environment's fields. -/
def Env.msg (env : Env) : Msg := ⟨env.envIpcFrom, env.envIpcValue, env.envIpcPerm⟩

/-- What happens to an environment. `blocked` carries the trap frame of the call, `ran` the
`Env` with which the environment enters user mode. -/
inductive Ev
  | created
  | destroyed
  | blocked (tf : Trapframe)
  | sent (msg : Msg)
  | ran (env : Env)

/-- What the system call in `tf` returns to environment `cur`, if it does. -/
def returned (k : Kernel) (c : Cpu) (cur : EnvIdx) (tf : Trapframe) (input : Word) : Option Word :=
  match tf.call.run (k.save cur tf) c cur input with
  | .ok (r, _) => some r
  | .error _ => none

/-- The entry blocks environment `e` in `sys_ipc_recv`. -/
def Blocks (cur : EnvIdx) (tf : Trapframe) (e : EnvIdx) : Prop :=
  tf.IsSyscall ∧ tf.call.no = SYS_ipc_recv ∧ RecvBlocks tf.call.a1 ∧ cur = e

/-- The entry is a `sys_ipc_try_send` to environment `e` that returns zero. -/
def Sends (k : Kernel) (c : Cpu) (cur : EnvIdx) (tf : Trapframe) (input : Word) (e : EnvIdx) :
    Prop :=
  tf.IsSyscall ∧ tf.call.no = SYS_ipc_try_send ∧ envid2env k cur tf.call.a1 false = some e ∧
    returned k c cur tf input = some 0

instance (cur : EnvIdx) (tf : Trapframe) (e : EnvIdx) : Decidable (Blocks cur tf e) := by
  unfold Blocks; infer_instance

instance (k : Kernel) (c : Cpu) (cur : EnvIdx) (tf : Trapframe) (input : Word) (e : EnvIdx) :
    Decidable (Sends k c cur tf input e) := by
  unfold Sends; infer_instance

/-- What the entry of environment `cur` does to the messages of environment `e`. -/
def msgEvents (k : Kernel) (c : Cpu) (cur : EnvIdx) (tf : Trapframe) (input : Word) (e : EnvIdx) :
    List Ev :=
  if Blocks cur tf e then [.blocked tf]
  else if Sends k c cur tf input e then
    [.sent ⟨(k.envs cur).envId, tf.call.a2, sentPerm k e tf.call.a3 tf.call.a4⟩]
  else []

/-- An entry creates or destroys environment `e`. -/
def slotEvents (k k' : Kernel) (e : EnvIdx) : List Ev :=
  if (k.envs e).envStatus = ENV_FREE ∧ (k'.envs e).envStatus ≠ ENV_FREE then [.created]
  else if (k.envs e).envStatus ≠ ENV_FREE ∧ (k'.envs e).envStatus = ENV_FREE then [.destroyed]
  else []

/-- CPU `c` ends an entry in user mode in environment `e`. -/
def ranEvents (m' : Machine) (c : Cpu) (e : EnvIdx) : List Ev :=
  if m'.mode c = .user ∧ m'.k.cpuEnv c = some e then [.ran (m'.k.envs e)] else []

/-- All that an entry does to environment `e`. -/
def stepEvents (m : Machine) (a : Act) (m' : Machine) (e : EnvIdx) : List Ev :=
  match a with
  | .start c => slotEvents m.k m'.k e ++ ranEvents m' c e
  | .trap c tf _ input =>
    match m.k.cpuEnv c with
    | none => []
    | some cur => msgEvents m.k c cur tf input e ++ (slotEvents m.k m'.k e ++ ranEvents m' c e)

/-! ## The protocol -/

/-- Where an environment is in the protocol. `ready` remembers the last message until the next
receive. -/
inductive Phase
  | free
  | fresh
  | ready (last : Option Msg)
  | waiting (tf : Trapframe)
  | served (tf : Trapframe) (msg : Msg)
  deriving DecidableEq

/-- The protocol; `none` is a violation. -/
def Phase.step : Phase → Ev → Option Phase
  | .free, .created => some .fresh
  | .fresh, .destroyed => some .free
  | .fresh, .ran _ => some (.ready none)
  | .ready _, .destroyed => some .free
  | .ready _, .blocked tf => some (.waiting tf)
  | .ready none, .ran _ => some (.ready none)
  | .ready (some msg), .ran env => if env.msg = msg then some (.ready (some msg)) else none
  | .waiting _, .destroyed => some .free
  | .waiting tf, .sent msg => some (.served tf msg)
  | .served _ _, .destroyed => some .free
  | .served tf msg, .ran env =>
    if env.envTf = tf.setEax 0 ∧ env.msg = msg then some (.ready (some msg)) else none
  | _, _ => none

/-- The phase after a history. -/
def Phase.run (p : Phase) (l : List Ev) : Option Phase := l.foldlM Phase.step p

/-- The phases after boot. -/
def bootPhase (m : Machine) (e : EnvIdx) : Phase :=
  if (m.k.envs e).envStatus = ENV_FREE then .free else .fresh

/-! ## Runs -/

/-- A machine with the histories of its environments. -/
structure Traced where
  m : Machine
  hist : EnvIdx → List Ev

def Traced.step (s : Traced) (a : Act) : Option Traced :=
  (s.m.step a).map fun m' => ⟨m', fun e => s.hist e ++ stepEvents s.m a m' e⟩

/-- The system calls of the runs considered, after the history `hist` since `m₀`. -/
@[mk_iff]
structure IpcCall (m₀ : Machine) (s : Traced) (c : Cpu) (cur : EnvIdx) (x : Call) : Prop where
  set_status : x.no = SYS_env_set_status → ∀ e, envid2env s.m.k cur x.a1 true = some e →
    x.a2 = ENV_RUNNABLE ∧ (bootPhase m₀ e).run (s.hist e) = some .fresh
  destroy : x.no = SYS_env_destroy → ∀ e, envid2env s.m.k cur x.a1 true = some e →
    ∀ c', c' ≠ c → s.m.k.cpuEnv c' ≠ some e

/-- The kernel entries of the runs considered. -/
def IpcAct (m₀ : Machine) (s : Traced) : Act → Prop
  | .start _ => True
  | .trap c tf _ _ => ∀ cur, s.m.k.cpuEnv c = some cur → tf.IsSyscall → IpcCall m₀ s c cur tf.call

/-- The call is no `sys_exofork` that recycles the slot of an idle environment. -/
def SparesIdle (k : Kernel) (x : Call) : Prop :=
  x.no = SYS_exofork → ∀ c, k.envFreeList ≠ some (idleEnv c)

/-- The entry recycles no slot of an idle environment. -/
def KeepsIdle (s : Traced) : Act → Prop
  | .start _ => True
  | .trap _ tf _ _ => tf.IsSyscall → SparesIdle s.m.k tf.call

instance (m₀ : Machine) (s : Traced) (c : Cpu) (cur : EnvIdx) (x : Call) :
    Decidable (IpcCall m₀ s c cur x) :=
  decidable_of_iff' _ (ipcCall_iff m₀ s c cur x)

instance (m₀ : Machine) (s : Traced) (a : Act) : Decidable (IpcAct m₀ s a) :=
  match a with
  | .start _ => instDecidableTrue
  | .trap _ _ _ _ => decidableForallSome _

instance (k : Kernel) (x : Call) : Decidable (SparesIdle k x) := by
  unfold SparesIdle; infer_instance

instance (s : Traced) (a : Act) : Decidable (KeepsIdle s a) :=
  match a with
  | .start _ => instDecidableTrue
  | .trap _ tf _ _ => inferInstanceAs (Decidable (tf.IsSyscall → SparesIdle s.m.k tf.call))

/-- The traced machine after boot. -/
def Traced.init (m : Machine) : Traced := ⟨m, fun _ => []⟩

/-- A send is refused, and changes nothing. -/
def Refused (k : Kernel) (c : Cpu) (cur : EnvIdx) (tf : Trapframe) (input : Word) : Prop :=
  tf.call.run (k.save cur tf) c cur input = .ok (-E_IPC_NOT_RECV, k.save cur tf)

/-! ## Phases and environments -/

/-- What the kernel holds for an environment in each phase. -/
def Phase.Fits (env : Env) : Phase → Prop
  | .free => env.envStatus = ENV_FREE
  | .fresh => (env.envStatus = ENV_RUNNABLE ∨ env.envStatus = ENV_NOT_RUNNABLE) ∧
      env.envIpcRecving = false
  | .ready last => (env.envStatus = ENV_RUNNABLE ∨ env.envStatus = ENV_RUNNING) ∧
      env.envIpcRecving = false ∧ ∀ msg, last = some msg → env.msg = msg
  | .waiting tf => env.envStatus = ENV_NOT_RUNNABLE ∧ env.envIpcRecving = true ∧ env.envTf = tf
  | .served tf msg => env.envStatus = ENV_RUNNABLE ∧ env.envIpcRecving = false ∧
      env.envTf = tf.setEax 0 ∧ env.msg = msg

/-- An environment that has run and waits for nothing. -/
def Phase.Ready (p : Phase) : Prop := ∃ last, p = .ready last

/-- An environment that has not run, or waits for nothing. -/
def Phase.Awake (p : Phase) : Prop := p = .fresh ∨ p.Ready

/-- The kernel agrees with the phases, inside an entry of CPU `c`. -/
structure IpcMid (c : Cpu) (k : Kernel) (ph : EnvIdx → Phase) : Prop where
  fits : ∀ e, (ph e).Fits (k.envs e)
  cpu : ∀ c' e, c' ≠ c → k.cpuEnv c' = some e → (ph e).Ready
  run_cpu : ∀ e, (k.envs e).envStatus = ENV_RUNNING → ∃ c', k.cpuEnv c' = some e

/-- The kernel agrees with the phases between entries. -/
structure IpcInv (k : Kernel) (ph : EnvIdx → Phase) : Prop where
  mid : ∀ c, IpcMid c k ph
  cpu : ∀ c e, k.cpuEnv c = some e → (ph e).Ready

variable {c : Cpu} {cur e : EnvIdx} {k k' : Kernel} {ph : EnvIdx → Phase} {p : Phase}
  {env env' : Env} {tf : Trapframe} {cr2 input : Word}

theorem Phase.Fits.ready_of_running (h : p.Fits env) (hst : env.envStatus = ENV_RUNNING) :
    p.Ready := by
  cases p with
  | ready last => exact ⟨last, rfl⟩
  | free =>
    rw [Phase.Fits, hst] at h
    exact absurd h (by decide)
  | fresh =>
    rw [Phase.Fits, hst] at h
    exact absurd h.1 (by decide)
  | waiting tf =>
    rw [Phase.Fits, hst] at h
    exact absurd h.1 (by decide)
  | served tf msg =>
    rw [Phase.Fits, hst] at h
    exact absurd h.1 (by decide)

/-- The parts of an environment that its phase speaks about. The trap frame of an environment
that can run is its own, and a failed send may touch the fields of one that waits. -/
theorem Phase.Fits.congr (h : p.Fits env) (hst : env'.envStatus = env.envStatus)
    (hrec : env'.envIpcRecving = env.envIpcRecving) (htf : env'.envTf = env.envTf ∨ p.Ready)
    (hmsg : env'.msg = env.msg ∨ env.envIpcRecving = true) : p.Fits env' := by
  cases p with
  | free => exact hst.trans h
  | fresh =>
    rw [Phase.Fits, hst, hrec]
    exact h
  | ready last =>
    rw [Phase.Fits, hst, hrec]
    refine ⟨h.1, h.2.1, fun msg hlast => ?_⟩
    rcases hmsg with hmsg | hmsg
    · rw [hmsg]
      exact h.2.2 msg hlast
    · rw [h.2.1] at hmsg
      cases hmsg
  | waiting tf =>
    rw [Phase.Fits, hst, hrec]
    refine ⟨h.1, h.2.1, ?_⟩
    rcases htf with htf | ⟨last, hlast⟩
    · rw [htf]
      exact h.2.2
    · cases hlast
  | served tf msg =>
    rw [Phase.Fits, hst, hrec]
    refine ⟨h.1, h.2.1, ?_, ?_⟩
    · rcases htf with htf | ⟨last, hlast⟩
      · rw [htf]
        exact h.2.2.1
      · cases hlast
    · rcases hmsg with hmsg | hmsg
      · rw [hmsg]
        exact h.2.2.2
      · rw [h.2.1] at hmsg
        cases hmsg

/-- An environment that the scheduler may pick can enter user mode, and waits for nothing. -/
theorem Phase.Fits.ran (h : p.Fits env)
    (hst : env.envStatus = ENV_RUNNABLE ∨ env.envStatus = ENV_RUNNING) :
    env.envIpcRecving = false ∧
      ∃ last, (∀ msg, last = some msg → env.msg = msg) ∧
        ∀ env', env'.envTf = env.envTf → env'.msg = env.msg →
          p.step (.ran env') = some (.ready last) := by
  cases p with
  | free =>
    rw [Phase.Fits] at h
    rw [h] at hst
    exact absurd hst (by decide)
  | fresh => exact ⟨h.2, none, nofun, fun _ _ _ => rfl⟩
  | ready last =>
    refine ⟨h.2.1, last, h.2.2, fun env' _ hmsg => ?_⟩
    cases last with
    | none => rfl
    | some msg => exact if_pos (hmsg.trans (h.2.2 msg rfl))
  | waiting tf =>
    rw [h.1] at hst
    exact absurd hst (by decide)
  | served tf msg =>
    refine ⟨h.2.1, some msg, ?_, fun env' htf hmsg => ?_⟩
    · rintro _ ⟨⟩
      exact h.2.2.2
    · exact if_pos ⟨htf.trans h.2.2.1, hmsg.trans h.2.2.2⟩

/-! ## Inside an entry -/

theorem IpcMid.congr (h : IpcMid c k ph) (hcpu : k'.cpuEnv = k.cpuEnv)
    (hst : ∀ e, (k'.envs e).envStatus = (k.envs e).envStatus)
    (hfits : ∀ e, (ph e).Fits (k'.envs e)) : IpcMid c k' ph where
  fits := hfits
  cpu := by
    rw [hcpu]
    exact h.cpu
  run_cpu e hr := by
    rw [hst] at hr
    rw [hcpu]
    exact h.run_cpu e hr

/-- **One environment changes.** -/
theorem IpcMid.update (h : IpcMid c k ph) (p : Phase) (hcpu : k'.cpuEnv = k.cpuEnv)
    (hother : ∀ e', e' ≠ e → k'.envs e' = k.envs e') (hfits : p.Fits (k'.envs e))
    (hnot : ∀ c', c' ≠ c → k.cpuEnv c' = some e → p.Ready)
    (hrun : (k'.envs e).envStatus = ENV_RUNNING → ∃ c', k'.cpuEnv c' = some e) :
    IpcMid c k' (Function.update ph e p) := by
  constructor
  · intro e'
    by_cases he : e' = e
    · subst he
      rwa [Function.update_self]
    · rw [Function.update_of_ne he, hother e' he]
      exact h.fits e'
  · intro c' e' hne he'
    rw [hcpu] at he'
    by_cases he : e' = e
    · subst he
      rw [Function.update_self]
      exact hnot c' hne he'
    · rw [Function.update_of_ne he]
      exact h.cpu c' e' hne he'
  · intro e' hr
    by_cases he : e' = e
    · subst he
      exact hrun hr
    · rw [hother e' he] at hr
      rw [hcpu]
      exact h.run_cpu e' hr

theorem IpcMid.setCurenv (h : IpcMid c k ph)
    (hcur : ∀ e, k.cpuEnv c = some e → (k.envs e).envStatus ≠ ENV_RUNNING) (v : Option EnvIdx) :
    IpcMid c (k.setCurenv c v) ph := by
  have hread : ∀ c', c' ≠ c → (k.setCurenv c v).cpuEnv c' = k.cpuEnv c' := by
    intro c' hne
    exact Function.update_of_ne hne _ _
  refine { h with cpu := ?_, run_cpu := ?_ }
  · intro c' e hne he
    rw [hread c' hne] at he
    exact h.cpu c' e hne he
  · intro e hr
    obtain ⟨c', he⟩ := h.run_cpu e hr
    have hne : c' ≠ c := by
      rintro rfl
      exact hcur e he hr
    exact ⟨c', (hread c' hne).trans he⟩

theorem schedStart_not_running (k : Kernel) (c : Cpu) (he : (schedStart k c).2.cpuEnv c = some e) :
    ((schedStart k c).2.envs e).envStatus ≠ ENV_RUNNING := by
  rw [(schedStart_fields k c e).2.2] at he
  unfold schedStart
  simp only [he]
  split_ifs with hst
  · simp only [setStatus_envs, Function.update_self]
    decide
  · exact hst

theorem IpcMid.schedStart (h : IpcMid c k ph) : IpcMid c (schedStart k c).2 ph := by
  rcases schedStart_snd k c with heq | ⟨cur, hcur, hst, heq⟩
  · rw [heq]
    exact h
  · rw [heq]
    obtain ⟨last, hlast⟩ := (h.fits cur).ready_of_running hst
    have hfits := h.fits cur
    rw [hlast] at hfits
    have hph : ph = Function.update ph cur (.ready last) := by
      rw [← hlast, Function.update_eq_self]
    rw [hph]
    refine h.update (.ready last) ?_ ?_ ?_ ?_ ?_
    · rfl
    · intro e he
      rw [setStatus_envs, Function.update_of_ne he]
    · rw [setStatus_envs, Function.update_self]
      exact ⟨.inl rfl, hfits.2⟩
    · exact fun _ _ _ => ⟨last, rfl⟩
    · exact fun _ => ⟨c, hcur⟩

theorem schedStart_env (k : Kernel) (c : Cpu) (e : EnvIdx) :
    (schedStart k c).2.envs e = k.envs e ∨
      (schedStart k c).2.envs e = { k.envs e with envStatus := ENV_RUNNABLE } := by
  rcases schedStart_snd k c with heq | ⟨cur, hcur, hst, heq⟩
  · rw [heq]
    exact .inl rfl
  · rw [heq, setStatus_envs]
    by_cases he : e = cur
    · subst he
      rw [Function.update_self]
      exact .inr rfl
    · rw [Function.update_of_ne he]
      exact .inl rfl

theorem IpcMid.inv (h : IpcMid c k ph) (hc : ∀ e, k.cpuEnv c = some e → (ph e).Ready) :
    IpcInv k ph := by
  have hcpu : ∀ c' e, k.cpuEnv c' = some e → (ph e).Ready := by
    intro c' e he
    by_cases hcc : c' = c
    · subst hcc
      exact hc e he
    · exact h.cpu c' e hcc he
  exact ⟨fun _ => { h with cpu := fun c' e _ => hcpu c' e }, hcpu⟩

/-- **`env_run` of an environment that can run.** -/
theorem IpcMid.envRun (h : IpcMid c k ph)
    (hst : (k.envs e).envStatus = ENV_RUNNABLE ∨ (k.envs e).envStatus = ENV_RUNNING) :
    ∃ last, (∀ env', env'.envTf = (k.envs e).envTf → env'.msg = (k.envs e).msg →
        (ph e).step (.ran env') = some (.ready last)) ∧
      IpcInv (Jos.envRun k c e) (Function.update ph e (.ready last)) := by
  obtain ⟨hrec, last, hlast, hran⟩ := (h.fits e).ran hst
  refine ⟨last, hran, ?_⟩
  have h₁ := h.schedStart.setCurenv (fun e he => schedStart_not_running k c he) (some e)
  rw [envRun_eq]
  have henv : ((Jos.schedStart k c).2.envs e).envIpcRecving = false ∧
      ((Jos.schedStart k c).2.envs e).msg = (k.envs e).msg := by
    rcases schedStart_env k c e with heq | heq <;> rw [heq] <;> exact ⟨hrec, rfl⟩
  have hcpu : ((Jos.schedStart k c).2.setCurenv c (some e)).cpuEnv c = some e :=
    Function.update_self _ _ _
  apply IpcMid.inv (c := c)
  · refine h₁.update (.ready last) ?_ ?_ ?_ ?_ ?_
    · rfl
    · intro e' he
      exact Function.update_of_ne he _ _
    · refine ⟨.inr ?_, ?_, ?_⟩
      · simp [Kernel.setEnv]
      · simpa [Kernel.setEnv, Kernel.setCurenv] using henv.1
      · intro msg hm
        rw [← hlast msg hm, ← henv.2]
        simp [Kernel.setEnv, Kernel.setCurenv, Env.msg]
    · exact fun _ _ _ => ⟨last, rfl⟩
    · exact fun _ => ⟨c, hcpu⟩
  · intro e' he'
    obtain rfl : e = e' := Option.some.inj (hcpu.symm.trans he')
    rw [Function.update_self]
    exact ⟨last, rfl⟩

theorem IpcMid.setTf (h : IpcMid c k ph) (hready : (ph cur).Ready) (hcpu : k'.cpuEnv = k.cpuEnv)
    (hother : ∀ e, e ≠ cur → k'.envs e = k.envs e)
    (htf : ∃ tf, k'.envs cur = { k.envs cur with envTf := tf }) : IpcMid c k' ph := by
  obtain ⟨tf, htf⟩ := htf
  have hsame : ∀ e, (k'.envs e).envStatus = (k.envs e).envStatus ∧ (ph e).Fits (k'.envs e) := by
    intro e
    by_cases he : e = cur
    · subst he
      rw [htf]
      exact ⟨rfl, (h.fits e).congr rfl rfl (.inr hready) (.inl rfl)⟩
    · rw [hother e he]
      exact ⟨rfl, h.fits e⟩
  exact h.congr hcpu (fun e => (hsame e).1) fun e => (hsame e).2

theorem IpcMid.save (h : IpcMid c k ph) (hready : (ph cur).Ready) : IpcMid c (k.save cur tf) ph :=
  h.setTf hready rfl (fun _ he => Function.update_of_ne he _ _) ⟨_, Function.update_self _ _ _⟩

theorem IpcMid.setEax (h : IpcMid c k ph) (hready : (ph cur).Ready) (r : Word) :
    IpcMid c (k.setEax cur r) ph :=
  h.setTf hready rfl (fun _ he => Function.update_of_ne he _ _) ⟨_, Function.update_self _ _ _⟩

theorem IpcMid.upcall (h : IpcMid c k ph) (hready : (ph cur).Ready) (σ : Phys) (faultVa : Word) :
    IpcMid c (k.upcall cur σ faultVa) ph :=
  h.setTf hready rfl (fun _ he => Function.update_of_ne he _ _) ⟨_, Function.update_self _ _ _⟩

/-! ## The end of an entry -/

theorem schedStart_free (k : Kernel) (c : Cpu) (e : EnvIdx) :
    ((schedStart k c).2.envs e).envStatus = ENV_FREE ↔ (k.envs e).envStatus = ENV_FREE := by
  rcases schedStart_snd k c with heq | ⟨cur, hcur, hst, heq⟩
  · rw [heq]
  · rw [heq, setStatus_envs]
    by_cases he : e = cur
    · subst he
      rw [Function.update_self, hst]
      exact ⟨fun h => absurd h (by decide : ENV_RUNNABLE ≠ ENV_FREE), fun h => absurd h (by decide)⟩
    · rw [Function.update_of_ne he]

theorem envRun_free (k : Kernel) (c : Cpu) {e : EnvIdx} (hlive : (k.envs e).envStatus ≠ ENV_FREE)
    (e' : EnvIdx) :
    ((envRun k c e).envs e').envStatus = ENV_FREE ↔ (k.envs e').envStatus = ENV_FREE := by
  rw [envRun_eq, ← schedStart_free k c e']
  by_cases he : e' = e
  · subst he
    rw [schedStart_free]
    simp only [Kernel.setEnv, Function.update_self]
    exact ⟨fun h => absurd h (by decide), fun h => (hlive h).elim⟩
  · simp only [Kernel.setEnv, Kernel.setCurenv, Function.update_of_ne he]

theorem slotEvents_congr {k₀ : Kernel}
    (h : (k'.envs e).envStatus = ENV_FREE ↔ (k.envs e).envStatus = ENV_FREE) :
    slotEvents k₀ k' e = slotEvents k₀ k e := by
  unfold slotEvents
  simp only [ne_eq, h]

/-- An entry that began in `k₀` with the phases `ph`, and did `ev` to the messages, is at `k`. -/
def Reaches (c : Cpu) (k₀ : Kernel) (ev : EnvIdx → List Ev) (ph : EnvIdx → Phase) (k : Kernel) :
    Prop :=
  ∃ ph₁, IpcMid c k ph₁ ∧ ∀ e, (ph e).run (ev e ++ slotEvents k₀ k e) = some (ph₁ e)

/-- What holds at the end of such an entry. -/
structure IpcOutcome (c : Cpu) (k₀ : Kernel) (ev : EnvIdx → List Ev) (ph : EnvIdx → Phase)
    (exit : Exit) : Prop where
  run : ∀ k e, exit = .run k e → ∃ ph₁ last,
    (∀ e', (ph e').run (ev e' ++ slotEvents k₀ (envRun k c e) e') = some (ph₁ e')) ∧
    (∀ env', env'.envTf = ((envRun k c e).envs e).envTf → env'.msg = ((envRun k c e).envs e).msg →
      (ph₁ e).step (.ran env') = some (.ready last)) ∧
    IpcInv (envRun k c e) (Function.update ph₁ e (.ready last))
  monitor : ∀ k, exit = .monitor k → Reaches c k₀ ev ph k

variable {k₀ : Kernel} {ev : EnvIdx → List Ev}

theorem envRun_env (k : Kernel) (c : Cpu) (e : EnvIdx) :
    ((envRun k c e).envs e).envTf = (k.envs e).envTf ∧
      ((envRun k c e).envs e).msg = (k.envs e).msg := by
  rw [envRun_eq]
  rcases schedStart_env k c e with heq | heq <;>
    simp [Kernel.setEnv, Kernel.setCurenv, heq, Env.msg]

theorem Reaches.run (h : Reaches c k₀ ev ph k)
    (hst : (k.envs e).envStatus = ENV_RUNNABLE ∨ (k.envs e).envStatus = ENV_RUNNING) :
    ∃ ph₁ last,
      (∀ e', (ph e').run (ev e' ++ slotEvents k₀ (envRun k c e) e') = some (ph₁ e')) ∧
      (∀ env', env'.envTf = ((envRun k c e).envs e).envTf →
        env'.msg = ((envRun k c e).envs e).msg → (ph₁ e).step (.ran env') = some (.ready last)) ∧
      IpcInv (envRun k c e) (Function.update ph₁ e (.ready last)) := by
  obtain ⟨ph₁, hmid, hrun⟩ := h
  obtain ⟨last, hran, hinv⟩ := hmid.envRun hst
  have hlive : (k.envs e).envStatus ≠ ENV_FREE := by
    rcases hst with hst | hst <;> rw [hst] <;> decide
  refine ⟨ph₁, last, fun e' => ?_, fun env' htf hmsg => ?_, hinv⟩
  · rw [slotEvents_congr (envRun_free k c hlive e')]
    exact hrun e'
  · rw [(envRun_env k c e).1] at htf
    rw [(envRun_env k c e).2] at hmsg
    exact hran env' htf hmsg

theorem Reaches.schedStart (h : Reaches c k₀ ev ph k) : Reaches c k₀ ev ph (schedStart k c).2 := by
  obtain ⟨ph₁, hmid, hrun⟩ := h
  refine ⟨ph₁, hmid.schedStart, fun e => ?_⟩
  rw [slotEvents_congr (schedStart_free k c e)]
  exact hrun e

theorem Reaches.outcome_sched (h : Reaches c k₀ ev ph k) :
    IpcOutcome c k₀ ev ph (schedYield k c) := by
  constructor
  · intro k' e hs
    obtain ⟨rfl, hpick⟩ := schedYield_run hs
    apply h.schedStart.run
    rcases hpick with ⟨-, hst⟩ | ⟨-, hst⟩
    · exact .inl hst
    · exact hst
  · intro k' hs
    rw [schedYield_monitor hs]
    exact h.schedStart

theorem Reaches.outcome_run (h : Reaches c k₀ ev ph k)
    (hst : (k.envs cur).envStatus = ENV_RUNNING) : IpcOutcome c k₀ ev ph (.run k cur) := by
  refine ⟨fun k' e heq => ?_, nofun⟩
  cases heq
  exact h.run (.inr hst)

theorem Reaches.outcome_return (h : Reaches c k₀ ev ph k) (hcur : k.cpuEnv c = some cur) :
    IpcOutcome c k₀ ev ph (trapReturn k c) := by
  rcases trapReturn_cases hcur with ⟨hst, heq⟩ | ⟨-, heq⟩
  · rw [heq]
    exact h.outcome_run hst
  · rw [heq]
    exact h.outcome_sched

/-! ## System calls -/

/-- `IpcCall`, in terms of the phases. -/
structure PhaseCall (ph : EnvIdx → Phase) (k : Kernel) (c : Cpu) (cur : EnvIdx) (x : Call) :
    Prop where
  set_status : x.no = SYS_env_set_status → ∀ e, envid2env k cur x.a1 true = some e →
    x.a2 = ENV_RUNNABLE ∧ ph e = .fresh
  destroy : x.no = SYS_env_destroy → ∀ e, envid2env k cur x.a1 true = some e →
    ∀ c', c' ≠ c → k.cpuEnv c' ≠ some e
  exofork : SparesIdle k x

/-- What a system call that returns `r` does to the messages of `e`. -/
def sentEvents (k : Kernel) (cur : EnvIdx) (x : Call) (r : Word) (e : EnvIdx) : List Ev :=
  if x.no = SYS_ipc_try_send ∧ envid2env k cur x.a1 false = some e ∧ r = 0 then
    [.sent ⟨(k.envs cur).envId, x.a2, sentPerm k e x.a3 x.a4⟩]
  else []

variable {x : Call} {r : Word}

theorem slotEvents_same (h : (k'.envs e).envStatus = (k.envs e).envStatus) :
    slotEvents k k' e = [] := by
  unfold slotEvents
  rw [h]
  rw [if_neg fun hc => hc.2 hc.1, if_neg fun hc => hc.1 hc.2]

theorem Phase.run_singleton (p : Phase) (v : Ev) : p.run [v] = p.step v := by
  simp [Phase.run]

/-- A system call of `cur` that returns `r` in state `k'` follows the protocol; `cur` itself is
where it was. -/
def CallReturns (c : Cpu) (cur : EnvIdx) (k : Kernel) (x : Call) (r : Word) (ph : EnvIdx → Phase)
    (k' : Kernel) : Prop :=
  ∃ ph₁, IpcMid c k' ph₁ ∧ ph₁ cur = ph cur ∧
    ∀ e, (ph e).run (sentEvents k cur x r e ++ slotEvents k k' e) = some (ph₁ e)

/-- The call sends nothing, and creates and destroys nothing. -/
theorem IpcMid.returns_same (h : IpcMid c k' ph) (hno : x.no ≠ SYS_ipc_try_send ∨ r ≠ 0)
    (hst : ∀ e, (k'.envs e).envStatus = ENV_FREE ↔ (k.envs e).envStatus = ENV_FREE) :
    CallReturns c cur k x r ph k' := by
  refine ⟨ph, h, rfl, fun e => ?_⟩
  rw [slotEvents_congr (hst e), slotEvents_same rfl, sentEvents, if_neg]
  · rfl
  · rintro ⟨hs, -, hr⟩
    exact hno.elim (fun hn => hn hs) fun hn => hn hr

theorem IpcMid.returns_phys (h : IpcMid c k ph) (hno : x.no ≠ SYS_ipc_try_send)
    (hk : k' = { k with phys := k'.phys }) : CallReturns c cur k x r ph k' := by
  have henvs : k'.envs = k.envs := by
    rw [hk]
  have hcpu : k'.cpuEnv = k.cpuEnv := by
    rw [hk]
  apply IpcMid.returns_same (h.congr hcpu _ _) (.inl hno)
  · intro e
    rw [henvs]
  · intro e
    rw [henvs]
  · rw [henvs]
    exact h.fits

theorem IpcMid.returns_update {v : Ev} (h : IpcMid c k' (Function.update ph e p)) (hne : e ≠ cur)
    (hother : ∀ e', e' ≠ e → k'.envs e' = k.envs e' ∧ sentEvents k cur x r e' = [])
    (hev : sentEvents k cur x r e ++ slotEvents k k' e = [v]) (hstep : (ph e).step v = some p) :
    CallReturns c cur k x r ph k' := by
  refine ⟨_, h, Function.update_of_ne hne.symm _ _, fun e' => ?_⟩
  by_cases he : e' = e
  · subst he
    rw [hev, Phase.run_singleton, Function.update_self]
    exact hstep
  · rw [(hother e' he).2, slotEvents_same (by rw [(hother e' he).1]), Function.update_of_ne he]
    rfl

theorem Phase.Fits.eq_free (h : p.Fits env) (hst : env.envStatus = ENV_FREE) : p = .free := by
  cases p with
  | free => rfl
  | fresh =>
    rw [Phase.Fits, hst] at h
    exact absurd h.1 (by decide)
  | ready last =>
    rw [Phase.Fits, hst] at h
    exact absurd h.1 (by decide)
  | waiting tf =>
    rw [Phase.Fits, hst] at h
    exact absurd h.1 (by decide)
  | served tf msg =>
    rw [Phase.Fits, hst] at h
    exact absurd h.1 (by decide)

theorem Phase.Fits.destroyed (h : p.Fits env) (hst : env.envStatus ≠ ENV_FREE) :
    p.step .destroyed = some .free := by
  cases p with
  | free => exact (hst h).elim
  | fresh => rfl
  | ready last => rfl
  | waiting tf => rfl
  | served tf msg => rfl

theorem Phase.Awake.ne_free (h : p.Awake) : p ≠ .free := by
  rintro rfl
  rcases h with h | ⟨last, h⟩ <;> cases h

theorem Phase.Fits.waiting_of_recving (h : p.Fits env) (hst : env.envStatus ≠ ENV_FREE)
    (hrec : env.envIpcRecving = true) : ∃ tf, p = .waiting tf ∧ env.envTf = tf := by
  cases p with
  | waiting tf => exact ⟨tf, rfl, h.2.2⟩
  | free => exact (hst h).elim
  | fresh =>
    rw [h.2] at hrec
    cases hrec
  | ready last =>
    rw [h.2.1] at hrec
    cases hrec
  | served tf msg =>
    rw [h.2.1] at hrec
    cases hrec

theorem IpcMid.returns_free (hm : IpcMid c k ph) (hlive : (k.envs e).envStatus ≠ ENV_FREE)
    (hne : e ≠ cur) (hnot : ∀ c', c' ≠ c → k.cpuEnv c' ≠ some e) (hno : x.no ≠ SYS_ipc_try_send)
    (hfree : envFree k c e = .ok k') : CallReturns c cur k x r ph k' := by
  have hcpu := cpuEnv_envFree hfree
  obtain ⟨henvs, -⟩ := envs_envFree hfree
  have hother : ∀ e', e' ≠ e → k'.envs e' = k.envs e' := by
    intro e' he
    rw [henvs, Function.update_of_ne he]
  have hst : (k'.envs e).envStatus = ENV_FREE := by
    rw [henvs, Function.update_self]
  have hsent : ∀ e', sentEvents k cur x r e' = [] := fun e' => if_neg fun hc => hno hc.1
  refine IpcMid.returns_update (v := .destroyed) ?_ hne (fun e' he => ⟨hother e' he, hsent e'⟩) ?_
    ((hm.fits e).destroyed hlive)
  · apply hm.update .free hcpu hother hst
    · exact fun c' hcc he => (hnot c' hcc he).elim
    · intro hr
      rw [hst] at hr
      exact absurd hr (by decide)
  · rw [hsent, slotEvents, if_neg fun hc => hc.2 hst, if_pos ⟨hlive, hst⟩]
    rfl

theorem CpuInv.head_free (hinv : CpuInv k) (hhead : k.envFreeList = some e) :
    (k.envs e).envStatus = ENV_FREE ∧ ∀ c, k.cpuEnv c ≠ some e := by
  obtain ⟨l, hl, hall⟩ := (hinv.mid 0).free_list
  rw [hhead] at hl
  obtain ⟨l', rfl, -⟩ := hl.pop
  have hst := hall e List.mem_cons_self
  refine ⟨hst, fun c he => ?_⟩
  rcases hinv.running c e he with hr | hr <;> rw [hst] at hr <;> exact absurd hr (by decide)

theorem IpcMid.returns_exofork (hm : IpcMid c k ph) (hinv : CpuInv k)
    (hcur : k.cpuEnv c = some cur) (hno : x.no = SYS_exofork)
    (hx : sysExofork k cur = .ok (r, k')) : CallReturns c cur k x r ph k' := by
  have hsend : x.no ≠ SYS_ipc_try_send := by
    rw [hno]
    decide
  have hhead : k.envFreeList ≠ some cur := fun hh => (hinv.head_free hh).2 c hcur
  rcases sysExofork_ok hhead hx with rfl | ⟨child, q, hchild, -, rfl⟩
  · exact hm.returns_same (.inl hsend) fun _ => Iff.rfl
  obtain ⟨hfree, hnot⟩ := hinv.head_free hchild
  have hread : (allocated k child q (forkedEnv k cur child q)).envs child =
      forkedEnv k cur child q := Function.update_self _ _ _
  have hother : ∀ e', e' ≠ child →
      (allocated k child q (forkedEnv k cur child q)).envs e' = k.envs e' :=
    fun e' he => Function.update_of_ne he _ _
  have hsent : ∀ e', sentEvents k cur x r e' = [] := fun e' => if_neg fun hc => hsend hc.1
  refine IpcMid.returns_update (v := .created) (p := .fresh) ?_ ?_
    (fun e' he => ⟨hother e' he, hsent e'⟩) ?_ ?_
  · refine hm.update .fresh ?_ hother ?_ ?_ ?_
    · rfl
    · rw [hread]
      exact ⟨.inr rfl, rfl⟩
    · exact fun c' _ he => (hnot c' he).elim
    · rw [hread]
      exact fun hr => absurd hr (by decide : ENV_NOT_RUNNABLE ≠ ENV_RUNNING)
  · rintro rfl
    exact hnot c hcur
  · rw [hsent, slotEvents, if_pos]
    · rfl
    · rw [hread]
      exact ⟨hfree, (by decide : ENV_NOT_RUNNABLE ≠ ENV_FREE)⟩
  · rw [(hm.fits child).eq_free hfree]
    rfl

/-- `fork` makes its child runnable. -/
theorem IpcMid.returns_setStatus (hm : IpcMid c k ph) (hfresh : ph e = .fresh)
    (hno : x.no ≠ SYS_ipc_try_send) :
    CallReturns c cur k x r ph (k.setStatus e ENV_RUNNABLE) := by
  have hfits := hm.fits e
  rw [hfresh] at hfits
  have hother : ∀ e', e' ≠ e → (k.setStatus e ENV_RUNNABLE).envs e' = k.envs e' :=
    fun e' he => Function.update_of_ne he _ _
  have hread : (k.setStatus e ENV_RUNNABLE).envs e = { k.envs e with envStatus := ENV_RUNNABLE } :=
    Function.update_self _ _ _
  have hm' : IpcMid c (k.setStatus e ENV_RUNNABLE) (Function.update ph e .fresh) := by
    refine hm.update .fresh ?_ hother ?_ ?_ ?_
    · rfl
    · rw [hread]
      exact ⟨.inl rfl, hfits.2⟩
    · intro c' hcc he
      obtain ⟨last, hlast⟩ := hm.cpu c' e hcc he
      rw [hfresh] at hlast
      cases hlast
    · rw [hread]
      exact fun hr => absurd hr (by decide : ENV_RUNNABLE ≠ ENV_RUNNING)
  rw [← hfresh, Function.update_eq_self] at hm'
  refine hm'.returns_same (.inl hno) fun e' => ?_
  by_cases he : e' = e
  · subst he
    rw [hread]
    refine ⟨fun hc => absurd hc (by decide : ENV_RUNNABLE ≠ ENV_FREE), fun hc => ?_⟩
    rw [Phase.Fits, hc] at hfits
    exact absurd hfits.1 (by decide)
  · rw [hother e' he]

theorem IpcMid.returns_sent (hm : IpcMid c k ph) (hlive : (k.envs e).envStatus ≠ ENV_FREE)
    (hrec : (k.envs e).envIpcRecving = true) (hne : e ≠ cur) (hno : x.no = SYS_ipc_try_send)
    (hf : envid2env k cur x.a1 false = some e) (hcpu : k'.cpuEnv = k.cpuEnv)
    (henvs : k'.envs = Function.update k.envs e
      (delivered k cur e x.a2 (sentPerm k e x.a3 x.a4))) : CallReturns c cur k x 0 ph k' := by
  obtain ⟨tf, hwait, htf⟩ := (hm.fits e).waiting_of_recving hlive hrec
  have hread : k'.envs e = delivered k cur e x.a2 (sentPerm k e x.a3 x.a4) := by
    rw [henvs, Function.update_self]
  have hother : ∀ e', e' ≠ e → k'.envs e' = k.envs e' := by
    intro e' he
    rw [henvs, Function.update_of_ne he]
  have hnone : ∀ e', e' ≠ e → sentEvents k cur x 0 e' = [] := by
    intro e' he
    refine if_neg ?_
    rintro ⟨-, hf', -⟩
    exact he (Option.some.inj (hf'.symm.trans hf))
  refine IpcMid.returns_update
    (v := .sent ⟨(k.envs cur).envId, x.a2, sentPerm k e x.a3 x.a4⟩)
    (p := .served tf ⟨(k.envs cur).envId, x.a2, sentPerm k e x.a3 x.a4⟩) ?_ hne
    (fun e' he => ⟨hother e' he, hnone e' he⟩) ?_ ?_
  · apply hm.update _ hcpu hother
    · rw [hread]
      exact ⟨rfl, rfl, by rw [← htf]; rfl, rfl⟩
    · intro c' hcc he
      obtain ⟨last, hlast⟩ := hm.cpu c' e hcc he
      rw [hwait] at hlast
      cases hlast
    · rw [hread]
      exact fun hr => absurd hr (by decide : ENV_RUNNABLE ≠ ENV_RUNNING)
  · rw [sentEvents, if_pos ⟨hno, hf, rfl⟩, slotEvents, if_neg fun hc => hlive hc.1, if_neg]
    · rfl
    · rw [hread]
      exact fun hc => absurd hc.2 (by decide : ENV_RUNNABLE ≠ ENV_FREE)
  · rw [hwait]
    rfl

/-- A failed page transfer clears the permission of an environment that still waits. -/
theorem IpcMid.setIpcPerm (hm : IpcMid c k ph) (hrec : (k.envs e).envIpcRecving = true)
    (perm : Word) : IpcMid c (setIpcPerm k e perm) ph := by
  have hs := sameTable_setIpcPerm k e perm
  refine hm.congr hs.cpuEnv hs.status fun e' => ?_
  by_cases he : e' = e
  · subst he
    refine (hm.fits e').congr (hs.status e') (hs.recving e') (.inl ?_) (.inr hrec)
    simp [Jos.setIpcPerm, Kernel.setEnv]
  · have hread : (Jos.setIpcPerm k e perm).envs e' = k.envs e' := Function.update_of_ne he _ _
    rw [hread]
    exact hm.fits e'

/-- **A system call follows the protocol.** -/
theorem IpcInv.sysReturn (h : IpcInv k ph) (hinv : CpuInv k) (hcur : k.cpuEnv c = some cur)
    (hst : (k.envs cur).envStatus = ENV_RUNNING) (hcall : PhaseCall ph k c cur x)
    (hret : SysReturn c cur k x r k') : CallReturns c cur k x r ph k' := by
  have hm := h.mid c
  cases hret with
  | same r hno hrecv => exact hm.returns_same (.inl hno) fun _ => Iff.rfl
  | pageAlloc hno hx => exact hm.returns_phys (by rw [hno]; decide) (sysPageAlloc_phys hx)
  | pageMap hno hx => exact hm.returns_phys (by rw [hno]; decide) (sysPageMap_phys hx)
  | pageUnmap hno hx => exact hm.returns_phys (by rw [hno]; decide) (sysPageUnmap_phys hx)
  | @dying e hno hf hr hne =>
    -- it runs on another CPU
    obtain ⟨c', he⟩ := hm.run_cpu e hr
    have hcc : c' ≠ c := by
      rintro rfl
      exact hne he
    exact (hcall.destroy hno e hf c' hcc he).elim
  | @free e k' hno hf hr hne hfree =>
    have hec : e ≠ cur := by
      rintro rfl
      exact hne hcur
    exact hm.returns_free (hinv.found_live hcur hf) hec (hcall.destroy hno e hf)
      (by rw [hno]; decide) hfree
  | exofork hno hx => exact hm.returns_exofork hinv hcur hno hx
  | @setStatus e hno hf hs =>
    obtain ⟨ha2, hfresh⟩ := hcall.set_status hno e hf
    rw [ha2]
    exact hm.returns_setStatus hfresh (by rw [hno]; decide)
  | @setUpcall e hno hf =>
    have hs := sameTable_setEnv k e (f := fun env => { env with envPgfaultUpcall := x.a2 })
      (fun _ => rfl) (fun _ => rfl) (fun _ => rfl) (fun _ => rfl) (fun _ => rfl) fun _ => rfl
    refine (hm.congr hs.cpuEnv hs.status fun e' => ?_).returns_same (.inl (by rw [hno]; decide))
      fun e' => by rw [hs.status]
    refine (hm.fits e').congr (hs.status e') (hs.recving e') (.inl ?_) (.inl ?_)
    · by_cases he : e' = e
      · subst he
        simp [Kernel.setEnv]
      · simp [Kernel.setEnv, he]
    · by_cases he : e' = e
      · subst he
        simp [Kernel.setEnv, Env.msg]
      · simp [Kernel.setEnv, he]
  | send hno hx =>
    rcases sysIpcTrySend_ok hx with ⟨-, rfl, rfl⟩ | ⟨e, hf, ⟨-, rfl, rfl⟩ | ⟨hrec, hsend⟩⟩
    · exact hm.returns_same (.inr (by decide)) fun _ => Iff.rfl
    · exact hm.returns_same (.inr (by decide)) fun _ => Iff.rfl
    rcases hsend with ⟨hr, rfl⟩ | ⟨hr, rfl⟩ | ⟨rfl, hk⟩
    · exact hm.returns_same (.inr hr) fun _ => Iff.rfl
    · exact (hm.setIpcPerm hrec 0).returns_same (.inr hr) fun e' => by
        rw [(sameTable_setIpcPerm k e 0).status]
    · have hne : e ≠ cur := by
        rintro rfl
        rw [hinv.not_recving hcur] at hrec
        cases hrec
      exact hm.returns_sent (hinv.found_live hcur hf) hrec hne hno hf (by rw [hk]) (by rw [hk])

/-! ## Kernel entries -/

/-- A trap that is neither a receive that blocks nor a send. -/
theorem msgEvents_quiet (hb : ∀ e, ¬ Blocks cur tf e)
    (hs : tf.IsSyscall → tf.call.no ≠ SYS_ipc_try_send) (k : Kernel) (c : Cpu) (input : Word)
    (e : EnvIdx) : msgEvents k c cur tf input e = [] := by
  rw [msgEvents, if_neg (hb e), if_neg fun hc => hs hc.1 hc.2.1]

theorem msgEvents_call {k₁ : Kernel} (hsys : tf.IsSyscall) (hb : ∀ e, ¬ Blocks cur tf e)
    (hrun : tf.call.run (k.save cur tf) c cur input = .ok (r, k₁)) (e : EnvIdx) :
    msgEvents k c cur tf input e = sentEvents (k.save cur tf) cur tf.call r e := by
  have hs := sameTable_save k cur tf
  have hret : returned k c cur tf input = some r := by
    rw [returned, hrun]
  have hperm : sentPerm (k.save cur tf) e tf.call.a3 tf.call.a4 =
      sentPerm k e tf.call.a3 tf.call.a4 := by
    unfold sentPerm
    by_cases he : e = cur
    · subst he
      simp [Kernel.save, Kernel.setEnv]
    · simp [Kernel.save, Kernel.setEnv, he]
  rw [msgEvents, if_neg (hb e), sentEvents, hperm, hs.id, envid2env_congr hs]
  unfold Sends
  simp only [hsys, hret, true_and, Option.some.injEq]

theorem PhaseCall.save (h : PhaseCall ph k c cur x) (tf : Trapframe) :
    PhaseCall ph (k.save cur tf) c cur x := by
  have hs := sameTable_save k cur tf
  constructor
  · intro hno e hf
    rw [envid2env_congr hs] at hf
    exact h.set_status hno e hf
  · intro hno e hf
    rw [envid2env_congr hs] at hf
    rw [hs.cpuEnv]
    exact h.destroy hno e hf
  · exact h.exofork

theorem IpcInv.save (h : IpcInv k ph) (hready : (ph cur).Ready) : IpcInv (k.save cur tf) ph :=
  ⟨fun c => (h.mid c).save hready, h.cpu⟩

/-- The events of an entry do not depend on the saved trap frame. -/
theorem slotEvents_save (k k' : Kernel) (cur e : EnvIdx) (tf : Trapframe) :
    slotEvents (k.save cur tf) k' e = slotEvents k k' e := by
  rw [slotEvents, (sameTable_save k cur tf).status, slotEvents]

theorem IpcMid.reaches_quiet (h : IpcMid c k' ph) (hev : ∀ e, ev e = [])
    (hst : ∀ e, (k'.envs e).envStatus = (k.envs e).envStatus) : Reaches c k ev ph k' := by
  refine ⟨ph, h, fun e => ?_⟩
  rw [hev, slotEvents_same (hst e)]
  rfl

/-- An environment on a CPU is running: none is dying. -/
theorem IpcInv.running (h : IpcInv k ph) (hinv : CpuInv k) (hcur : k.cpuEnv c = some cur) :
    (k.envs cur).envStatus = ENV_RUNNING := by
  obtain ⟨last, hlast⟩ := h.cpu c cur hcur
  have hfits := (h.mid c).fits cur
  rw [hlast] at hfits
  refine (hinv.running c cur hcur).resolve_right fun hd => ?_
  rw [Phase.Fits, hd] at hfits
  exact absurd hfits.1 (by decide)

theorem IpcMid.reaches_destroySelf (hm : IpcMid c k ph) (hinv : CpuInv k)
    (hcur : k.cpuEnv c = some cur) (hev : ∀ e, ev e = []) (hfree : envFree k c cur = .ok k') :
    Reaches c k ev ph (k'.setCurenv c none) := by
  have hlive : (k.envs cur).envStatus ≠ ENV_FREE := by
    rcases hinv.running c cur hcur with hr | hr <;> rw [hr] <;> decide
  have hcpu := cpuEnv_envFree hfree
  obtain ⟨henvs, -⟩ := envs_envFree hfree
  have hother : ∀ e, e ≠ cur → k'.envs e = k.envs e := by
    intro e he
    rw [henvs, Function.update_of_ne he]
  have hst : (k'.envs cur).envStatus = ENV_FREE := by
    rw [henvs, Function.update_self]
  have hm' : IpcMid c k' (Function.update ph cur .free) := by
    apply hm.update .free hcpu hother hst
    · intro c' hcc he
      exact (hcc ((hinv.mid c).inj c' c cur he hcur)).elim
    · intro hr
      rw [hst] at hr
      exact absurd hr (by decide)
  refine ⟨_, hm'.setCurenv (fun e he => ?_) none, fun e => ?_⟩
  · rw [hcpu, hcur, Option.some.injEq] at he
    rw [← he, hst]
    decide
  · rw [hev]
    by_cases he : e = cur
    · subst he
      have hslot : slotEvents k (k'.setCurenv c none) e = [.destroyed] := by
        rw [slotEvents, if_neg fun hc => hc.2 hst, if_pos ⟨hlive, hst⟩]
      rw [hslot, Function.update_self]
      exact (Phase.run_singleton _ _).trans ((hm.fits e).destroyed hlive)
    · have hslot : slotEvents k (k'.setCurenv c none) e = [] :=
        slotEvents_same (congrArg Env.envStatus (hother e he))
      rw [hslot, Function.update_of_ne he]
      rfl

theorem IpcMid.reaches_recv (hm : IpcMid c k ph) (hinv : CpuInv k) (hcur : k.cpuEnv c = some cur)
    (hready : (ph cur).Ready) (htf : (k.envs cur).envTf = tf) (hev : ev cur = [.blocked tf])
    (hother : ∀ e, e ≠ cur → ev e = []) (dstva : Word) :
    Reaches c k ev ph (ipcBlock k cur dstva) := by
  have hread : (ipcBlock k cur dstva).envs cur =
      { k.envs cur with
        envIpcRecving := true, envIpcDstva := dstva, envStatus := ENV_NOT_RUNNABLE } :=
    Function.update_self _ _ _
  have hlive : (k.envs cur).envStatus ≠ ENV_FREE := by
    rcases hinv.running c cur hcur with hr | hr <;> rw [hr] <;> decide
  have hsame : ∀ e, e ≠ cur → (ipcBlock k cur dstva).envs e = k.envs e :=
    fun e he => Function.update_of_ne he _ _
  refine ⟨Function.update ph cur (.waiting tf), ?_, fun e => ?_⟩
  · refine hm.update (.waiting tf) ?_ hsame ?_ ?_ ?_
    · rfl
    · rw [hread]
      exact ⟨rfl, rfl, htf⟩
    · intro c' hcc he
      exact (hcc ((hinv.mid c).inj c' c cur he hcur)).elim
    · exact fun _ => ⟨c, hcur⟩
  · by_cases he : e = cur
    · subst he
      have hslot : slotEvents k (ipcBlock k e dstva) e = [] := by
        rw [slotEvents, if_neg fun hc => hlive hc.1, if_neg]
        rw [hread]
        exact fun hc => absurd hc.2 (by decide : ENV_NOT_RUNNABLE ≠ ENV_FREE)
      obtain ⟨last, hlast⟩ := hready
      rw [hev, hslot, hlast, Function.update_self]
      rfl
    · rw [hother e he, slotEvents_same (by rw [hsame e he]), Function.update_of_ne he]
      rfl

theorem PhaseCall.safeCall (hcall : PhaseCall ph k c cur x) (h : IpcInv k ph) :
    SafeCall k c cur x := by
  constructor
  · intro hno e hf _ c' he
    by_contra hcc
    exact hcall.destroy hno e hf c' hcc he
  · intro hno _ e hf _
    have hfits := (h.mid c).fits e
    rw [(hcall.set_status hno e hf).2] at hfits
    exact hfits.2
  · exact hcall.exofork

/-- A call that returns has not blocked. -/
theorem SysReturn.not_recv (h : SysReturn c cur k x r k') :
    ¬ (x.no = SYS_ipc_recv ∧ RecvBlocks x.a1) := by
  rintro ⟨hrecv, hblk⟩
  cases h with
  | same r _ hn => exact hn hrecv hblk
  | pageAlloc hno | pageMap hno | pageUnmap hno | dying hno | free hno | exofork hno | setStatus hno
  | setUpcall hno | send hno => exact absurd (hno.symm.trans hrecv) (by decide)

theorem not_blocks (h : tf.IsSyscall → tf.call.no ≠ SYS_ipc_recv) (e : EnvIdx) :
    ¬ Blocks cur tf e := fun hb => h hb.1 hb.2.1

/-- **A kernel entry follows the protocol.** -/
theorem IpcInv.entry (h : IpcInv k ph) (hinv : CpuInv k) (hcur : k.cpuEnv c = some cur)
    (hcall : tf.IsSyscall → PhaseCall ph k c cur tf.call) {exit : Exit}
    (hE : Entry c cur k tf cr2 input exit) :
    IpcOutcome c k (msgEvents k c cur tf input) ph exit := by
  have hready := h.cpu c cur hcur
  have hs := sameTable_save k cur tf
  have hm : IpcMid c (k.save cur tf) ph := (h.mid c).save hready
  have hinv' := hinv.congr hs
  have hrun : ((k.save cur tf).envs cur).envStatus = ENV_RUNNING := by
    rw [hs.status]
    exact h.running hinv hcur
  have hquiet : (tf.IsSyscall → tf.call.no ≠ SYS_ipc_recv ∧ tf.call.no ≠ SYS_ipc_try_send) →
      ∀ e, msgEvents k c cur tf input e = [] := by
    intro hn e
    exact msgEvents_quiet (not_blocks fun hsys => (hn hsys).1) (fun hsys => (hn hsys).2) k c input e
  cases hE with
  | panic msg => exact ⟨nofun, nofun⟩
  | reap hd hfree =>
    rw [h.running hinv hcur] at hd
    exact absurd hd (by decide)
  | @destroySelf k' hd hdoom hfree =>
    have hev := hquiet fun hsys => by
      rcases hdoom.call hsys with hn | hn <;> rw [hn] <;> decide
    obtain ⟨ph₁, hm₁, hrun₁⟩ := hm.reaches_destroySelf hinv' hcur hev hfree
    refine Reaches.outcome_sched ⟨ph₁, hm₁, fun e => ?_⟩
    rw [← slotEvents_save k _ cur e tf]
    exact hrun₁ e
  | yield hd hno =>
    have hev := hquiet fun hsys => by
      rw [hno hsys]
      decide
    exact (hm.reaches_quiet hev hs.status).outcome_sched
  | monitor hd hbp =>
    have hev := hquiet fun hsys => absurd (hbp.symm.trans hsys) (by decide)
    refine ⟨nofun, fun k' heq => ?_⟩
    cases heq
    exact hm.reaches_quiet hev hs.status
  | irq hd hirq =>
    have hev := hquiet fun hsys => (not_irq_of_syscall hsys hirq).elim
    exact (hm.reaches_quiet hev hs.status).outcome_return hcur
  | recv hd hsys hno hblk =>
    have hev : msgEvents k c cur tf input cur = [.blocked tf] := if_pos ⟨hsys, hno, hblk, rfl⟩
    have hother : ∀ e, e ≠ cur → msgEvents k c cur tf input e = [] := by
      intro e he
      rw [msgEvents, if_neg fun hb => he hb.2.2.2.symm, if_neg]
      exact fun hsend => absurd (hno.symm.trans hsend.2.1) (by decide)
    obtain ⟨ph₁, hm₁, hrun₁⟩ :=
      hm.reaches_recv hinv' hcur hready (envTf_save k cur tf) hev hother tf.call.a1
    refine Reaches.outcome_sched ⟨ph₁, hm₁, fun e => ?_⟩
    rw [← slotEvents_save k _ cur e tf]
    exact hrun₁ e
  | @call r k' hd hsys hrun' hret =>
    have hb : ∀ e, ¬ Blocks cur tf e := fun e hb => hret.not_recv ⟨hb.2.1, hb.2.2.1⟩
    have hcall' := (hcall hsys).save tf
    have hcpu := (hinv'.sysReturn hcur hrun (hcall'.safeCall (h.save hready)) hret).2
    obtain ⟨ph₁, hm₁, hcur₁, hrun₁⟩ := IpcInv.sysReturn (h.save hready) hinv' hcur hrun
      hcall' hret
    have hready₁ : (ph₁ cur).Ready := by
      rw [hcur₁]
      exact hready
    have hcur' : (k'.setEax cur r).cpuEnv c = some cur := (congrFun hcpu c).trans hcur
    refine Reaches.outcome_return ⟨ph₁, hm₁.setEax hready₁ r, fun e => ?_⟩ hcur'
    rw [msgEvents_call hsys hb hrun', ← slotEvents_save k _ cur e tf, slotEvents_congr (k := k')]
    · exact hrun₁ e
    · rw [(sameTable_setEax k' cur r).status]
  | @fault σ hd hpf hst =>
    have hev := hquiet fun hsys => absurd (hpf.symm.trans hsys) (by decide)
    have hup := sameTable_upcall (k.save cur tf) cur σ cr2
    refine Reaches.outcome_run ((hm.upcall hready σ cr2).reaches_quiet hev fun e => ?_) ?_
    · rw [hup.status, hs.status]
    · rw [hup.status]
      exact hrun

/-! ## Runs -/

/-- The traced machine follows the protocol. -/
structure TracedInv (m₀ : Machine) (s : Traced) (ph : EnvIdx → Phase) : Prop where
  machine : MachineInv s.m
  hist : ∀ e, (bootPhase m₀ e).run (s.hist e) = some (ph e)
  ipc : s.m.LockFree ∧ IpcInv s.m.k ph ∨ ∃ c, s.m.mode c = .monitor ∧ IpcMid c s.m.k ph

theorem Phase.run_append (p : Phase) (l l' : List Ev) :
    p.run (l ++ l') = (p.run l).bind fun q => q.run l' := by
  simp [Phase.run, List.foldlM_append]

theorem TracedInv.fits {m₀ : Machine} {s : Traced} (h : TracedInv m₀ s ph) (e : EnvIdx) :
    (ph e).Fits (s.m.k.envs e) := by
  rcases h.ipc with ⟨-, hi⟩ | ⟨c, -, hi⟩
  · exact (hi.mid 0).fits e
  · exact hi.fits e

theorem enter_env (hl : lcr3Curenv k c = .ok k') (e : EnvIdx) :
    ((envPopTf k' c).envs e).envTf = (k.envs e).envTf ∧
      ((envPopTf k' c).envs e).msg = (k.envs e).msg := by
  have henvs : k'.envs = k.envs := by
    unfold lcr3Curenv at hl
    cases hcur : k.cpuEnv c with
    | none => simp [hcur] at hl
    | some e =>
      cases hd : (k.envs e).envPgdir with
      | none => simp [hcur, hd] at hl
      | some d =>
        simp only [hcur, hd] at hl
        cases hl
        rfl
  unfold envPopTf
  cases hcur : k'.cpuEnv c with
  | none => exact ⟨by rw [henvs], by rw [henvs]⟩
  | some e' =>
    by_cases he : e = e'
    · subst he
      simp [Kernel.setEnv, henvs, Env.msg]
    · simp [Kernel.setEnv, henvs, he]

theorem IpcInv.enter (h : IpcInv k ph) (hl : lcr3Curenv k c = .ok k') :
    IpcInv (envPopTf k' c) ph := by
  have hs := sameTable_enter hl
  refine ⟨fun c' => (h.mid c').congr hs.cpuEnv hs.status fun e => ?_, ?_⟩
  · exact ((h.mid c').fits e).congr (hs.status e) (hs.recving e) (.inl (enter_env hl e).1)
      (.inl (enter_env hl e).2)
  · rw [hs.cpuEnv]
    exact h.cpu

theorem IpcOutcome.finish {m m' : Machine} {exit : Exit} (ho : IpcOutcome c m.k ev ph exit)
    (hfree : m.LockFree) (hf : m.finish c exit = some m') :
    ∃ ph', (∀ e, (ph e).run (ev e ++ (slotEvents m.k m'.k e ++ ranEvents m' c e)) = some (ph' e)) ∧
      (m'.LockFree ∧ IpcInv m'.k ph' ∨ ∃ c, m'.mode c = .monitor ∧ IpcMid c m'.k ph') := by
  unfold Machine.finish at hf
  cases exit with
  | panic msg => cases hf
  | monitor k =>
    cases hf
    obtain ⟨ph₁, hmid, hrun⟩ := ho.monitor k rfl
    refine ⟨ph₁, fun e => ?_, .inr ⟨c, by simp, hmid⟩⟩
    rw [ranEvents, if_neg (by simp), List.append_nil]
    exact hrun e
  | run k e =>
    simp only at hf
    cases hl : lcr3Curenv (envRun k c e) c with
    | error msg =>
      rw [hl] at hf
      cases hf
    | ok k₁ =>
      rw [hl] at hf
      cases hf
      obtain ⟨ph₁, last, hrun, hran, hinv⟩ := ho.run k e rfl
      have hs := sameTable_enter hl
      have hcpu : (envPopTf k₁ c).cpuEnv c = some e := by
        rw [hs.cpuEnv]
        exact cpuEnv_envRun k c e
      refine ⟨_, fun e' => ?_, .inl ⟨fun c' => ?_, hinv.enter hl⟩⟩
      · have hslot : slotEvents m.k (envPopTf k₁ c) e' = slotEvents m.k (envRun k c e) e' :=
          slotEvents_congr (by rw [hs.status])
        rw [← List.append_assoc, Phase.run_append, hslot, hrun e', Option.bind_some, ranEvents]
        by_cases he : e' = e
        · subst he
          rw [if_pos ⟨Function.update_self _ _ _, hcpu⟩, Function.update_self, Phase.run_singleton]
          exact hran _ (enter_env hl e').1 (enter_env hl e').2
        · rw [if_neg fun hc => he (Option.some.inj (hc.2.symm.trans hcpu)),
            Function.update_of_ne he]
          rfl
      · by_cases hc : c' = c
        · subst hc
          simp
        · simpa [hc] using hfree c'

variable {m₀ : Machine} {s s' : Traced}

theorem IpcCall.phaseCall (hcall : IpcCall m₀ s c cur x) (hkeep : SparesIdle s.m.k x)
    (hhist : ∀ e, (bootPhase m₀ e).run (s.hist e) = some (ph e)) : PhaseCall ph s.m.k c cur x := by
  refine ⟨fun hno e hf => ?_, hcall.destroy, hkeep⟩
  obtain ⟨ha2, hfresh⟩ := hcall.set_status hno e hf
  rw [hhist e] at hfresh
  exact ⟨ha2, Option.some.inj hfresh⟩

theorem Booted.tracedInv (h : Booted m₀) : TracedInv m₀ (Traced.init m₀) (bootPhase m₀) := by
  have hfits : ∀ e, (bootPhase m₀ e).Fits (m₀.k.envs e) := by
    intro e
    unfold bootPhase
    split_ifs with hst
    · exact hst
    · exact ⟨.inl ((h.status e).resolve_left hst), h.no_recv e⟩
  have hnone : ∀ c e, m₀.k.cpuEnv c ≠ some e := by
    intro c e
    rw [h.no_cpu c]
    nofun
  refine ⟨h.inv, fun _ => rfl, .inl ⟨fun c hc => ?_, fun c => ⟨hfits, ?_, ?_⟩, ?_⟩⟩
  · change m₀.mode c = .monitor at hc
    rw [h.mode c] at hc
    cases hc
  · exact fun c' e _ he => (hnone c' e he).elim
  · intro e hr
    change (m₀.k.envs e).envStatus = ENV_RUNNING at hr
    rcases h.status e with hst | hst <;> rw [hst] at hr <;> exact absurd hr (by decide)
  · exact fun c e he => (hnone c e he).elim

/-- **One step.** -/
theorem TracedInv.step {a : Act} (h : TracedInv m₀ s ph) (ha : IpcAct m₀ s a)
    (hkeep : KeepsIdle s a) (hstep : s.step a = some s') : ∃ ph', TracedInv m₀ s' ph' := by
  obtain ⟨m', hm', rfl⟩ := Option.map_eq_some_iff.1 hstep
  obtain ⟨hmach, hhist, hipc⟩ := h
  -- it is enough to follow the events of this step
  have key : ∀ {ph' : EnvIdx → Phase}, (∀ e, (ph e).run (stepEvents s.m a m' e) = some (ph' e)) →
      ∀ e, (bootPhase m₀ e).run (s.hist e ++ stepEvents s.m a m' e) = some (ph' e) := by
    intro ph' hev e
    rw [Phase.run_append, hhist e]
    exact hev e
  cases a with
  | start c =>
    have hmach' := hmach.step (a := .start c) trivial hm'
    simp only [Machine.step] at hm'
    split_ifs at hm' with hc
    rcases hipc with ⟨-, hi⟩ | ⟨c', hc', -⟩
    · have hreach : Reaches c s.m.k (fun _ => []) ph s.m.k :=
        (hi.mid c).reaches_quiet (fun _ => rfl) fun _ => rfl
      obtain ⟨ph', hrun, hipc'⟩ := hreach.outcome_sched.finish hc.1 hm'
      exact ⟨ph', hmach', key hrun, hipc'⟩
    · exact (hc.1 c' hc').elim
  | trap c tf cr2 input =>
    have hm'' := hm'
    simp only [Machine.step] at hm'
    split_ifs at hm' with hc
    rcases hipc with ⟨hlock, hi⟩ | ⟨c', hc', -⟩
    · have hinv : CpuInv s.m.k := by
        rcases hmach with ⟨-, hinv⟩ | ⟨c', hc', -⟩
        · exact hinv
        · exact (hlock c' hc').elim
      cases hcur : s.m.k.cpuEnv c with
      | none =>
        simp only [trap, hcur, Machine.finish] at hm'
        cases hm'
      | some cur =>
        have hcall : tf.IsSyscall → PhaseCall ph s.m.k c cur tf.call :=
          fun hsys => (ha cur hcur hsys).phaseCall (hkeep hsys) hhist
        have hsafe : Safe s.m (.trap c tf cr2 input) := by
          intro cur' hcur' hsys
          obtain rfl : cur = cur' := Option.some.inj (hcur.symm.trans hcur')
          exact (hcall hsys).safeCall hi
        obtain ⟨ph', hrun, hipc'⟩ :=
          (hi.entry hinv hcur hcall (trap_cases hcur)).finish hc.1 hm'
        refine ⟨ph', hmach.step hsafe hm'', key fun e => ?_, hipc'⟩
        simp only [stepEvents, hcur]
        exact hrun e
    · exact (hc.1 c' hc').elim

theorem run_send (hno : x.no = SYS_ipc_try_send) :
    x.run k c cur input = orPanic (sysIpcTrySend k cur x.a1 x.a2 x.a3 x.a4) := by
  unfold Call.run syscall
  rw [hno]
  rfl

theorem TracedInv.refused (h : TracedInv m₀ s ph) (hmode : s.m.mode c = .user)
    (hcur : s.m.k.cpuEnv c = some cur) (hno : tf.call.no = SYS_ipc_try_send)
    (hf : envid2env s.m.k cur tf.call.a1 false = some e) (hnot : ∀ tf', ph e ≠ .waiting tf') :
    Refused s.m.k c cur tf input := by
  have hs := sameTable_save s.m.k cur tf
  have hready : (ph cur).Ready := by
    rcases h.ipc with ⟨-, hi⟩ | ⟨c', hc', hi⟩
    · exact hi.cpu c cur hcur
    · apply hi.cpu c cur _ hcur
      rintro rfl
      rw [hc'] at hmode
      cases hmode
  have hlive : (s.m.k.envs e).envStatus ≠ ENV_FREE := by
    rcases envid2env_some hf with rfl | ⟨hlive, -⟩
    · intro hfree
      obtain ⟨last, hlast⟩ := hready
      rw [(h.fits e).eq_free hfree] at hlast
      cases hlast
    · exact hlive
  have hrec : ((s.m.k.save cur tf).envs e).envIpcRecving = false := by
    rw [hs.recving]
    by_contra hrec
    obtain ⟨tf', htf', -⟩ := (h.fits e).waiting_of_recving hlive (by simpa using hrec)
    exact hnot tf' htf'
  rw [← envid2env_congr hs] at hf
  rw [Refused, run_send hno, orPanic_ok, sysIpcTrySend, hf]
  exact if_pos hrec

/-- `sys_ipc_try_send` without a page. -/
def sendTf (envid value : Word) : Trapframe :=
  { tfTrapno := T_SYSCALL, tfCs := GD_UT ||| 3
    tfRegs := { regEax := SYS_ipc_try_send, regEdx := envid, regEcx := value,
                regEbx := IPC_NO_PAGE } }

/-- The program forks; the child waits on another CPU, which idles, gets a message and runs. -/
def ipcActs : List Act :=
  forkActs ++ [.trap 1 (callTf SYS_ipc_recv IPC_NO_PAGE 0) 0 0, .trap 0 (sendTf 0x1009#32 42) 0 0,
    .trap 1 (callTf SYS_yield 0 0) 0 0]

/-- CPU 1's idle environment destroys itself, and the program's second child gets its slot. The
child runs on CPU 0, and when nothing else is left, on CPU 1 as well. It blocks in `sys_ipc_recv` on
CPU 0, the program sends it a message, and then it yields on CPU 1. -/
def recycleActs : List Act :=
  [.start 0, .start 1, .trap 0 (callTf SYS_exofork 0 0) 0 0,
    .trap 0 (callTf SYS_env_set_status 0x1009#32 ENV_RUNNABLE) 0 0,
    .trap 1 (callTf SYS_env_destroy 0 0) 0 0, .trap 0 (callTf SYS_exofork 0 0) 0 0,
    .trap 0 (callTf SYS_env_set_status 0x2001#32 ENV_RUNNABLE) 0 0,
    .trap 0 (callTf SYS_yield 0 0) 0 0, .start 2, .trap 1 (callTf SYS_ipc_recv IPC_NO_PAGE 0) 0 0,
    .trap 0 (callTf SYS_ipc_recv IPC_NO_PAGE 0) 0 0, .trap 2 (sendTf 0x2001#32 42) 0 0,
    .trap 1 (callTf SYS_yield 0 0) 0 0]

end Jos
