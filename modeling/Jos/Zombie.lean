import Jos.Smp

/-!
# Zombie environments

An environment that is destroyed while another CPU runs it becomes `ENV_DYING`, to be freed the
next time it traps to the kernel. This module says what can happen to a slot in that state during
a kernel entry. `Rests e k k'` is the frame: if `e` is dying in `k`, it is so in `k'`, and it is the
same environment.

Three calls do not respect it (`SparesZombies` excludes them). `env_destroy` of a dying environment
frees it at once, whoever runs it. `sys_ipc_try_send` makes its receiver runnable without a look at
its status; a dying environment may still have `env_ipc_recving` set if it was made runnable while
it waited. And a slot could be handed out by `env_alloc` if a dying one were on the free list.
-/

namespace Jos

open Lib

/-- The call leaves dying environments alone. -/
@[mk_iff]
structure SparesZombies (k : Kernel) (cur : EnvIdx) (x : Call) : Prop where
  destroy : x.no = SYS_env_destroy → ∀ e, envid2env k cur x.a1 true = some e →
    (k.envs e).envStatus ≠ ENV_DYING
  send : x.no = SYS_ipc_try_send → ∀ e, envid2env k cur x.a1 false = some e →
    (k.envs e).envStatus = ENV_DYING → (k.envs e).envIpcRecving = false
  exofork : x.no = SYS_exofork → ∀ e, k.envFreeList = some e → (k.envs e).envStatus ≠ ENV_DYING

instance (k : Kernel) (cur : EnvIdx) (x : Call) : Decidable (SparesZombies k cur x) :=
  decidable_of_iff' _ (sparesZombies_iff k cur x)

/-- The step leaves dying environments alone, unless it is their own trap. -/
def Buried (m : Smp) : SmpAct → Prop
  | .create _ _ => ∀ e, m.k.envFreeList = some e → (m.k.envs e).envStatus ≠ ENV_DYING
  | .trap c tf _ _ => ∀ cur, m.k.cpuEnv c = some cur → (m.k.envs cur).envStatus ≠ ENV_DYING →
      tf.IsSyscall → SparesZombies m.k cur tf.call
  | _ => True

instance (m : Smp) : DecidablePred (Buried m) :=
  SmpAct.decidableEntry (fun _ _ => decidableForallSome _) (fun _ _ _ _ => decidableForallSome _)
    (by rintro (_ | _) <;> trivial)

/-- `e` is dying, and it is the environment with this id. -/
def Zombie (e : EnvIdx) (id : Word) (k : Kernel) : Prop :=
  (k.envs e).envStatus = ENV_DYING ∧ (k.envs e).envId = id

instance (e : EnvIdx) (id : Word) (k : Kernel) : Decidable (Zombie e id k) := by
  unfold Zombie; infer_instance

/-! ## Steps that leave a zombie alone -/

/-- If `e` is dying, it stays so. -/
def Rests (e : EnvIdx) (k k' : Kernel) : Prop :=
  (k.envs e).envStatus = ENV_DYING →
    (k'.envs e).envStatus = ENV_DYING ∧ (k'.envs e).envId = (k.envs e).envId

namespace Rests

variable {e e' cur : EnvIdx} {c : Cpu} {k k' k'' : Kernel} {x : Call} {r : Word}

theorem of_envs (h : k'.envs e = k.envs e) : Rests e k k' := fun hd => by
  rw [h]
  exact ⟨hd, rfl⟩

theorem trans (h : Rests e k k') (h' : Rests e k' k'') : Rests e k k'' := fun hd => by
  obtain ⟨hd', hid⟩ := h hd
  obtain ⟨hd'', hid'⟩ := h' hd'
  exact ⟨hd'', hid'.trans hid⟩

theorem update (env : Env) (hst : (k.envs e').envStatus ≠ ENV_DYING)
    (henvs : k'.envs = Function.update k.envs e' env) : Rests e k k' := by
  by_cases he : e = e'
  · subst he
    exact fun hd => (hst hd).elim
  · apply of_envs
    rw [henvs, Function.update_of_ne he]

theorem setEnv {f : Env → Env} (hst : (f (k.envs e')).envStatus = (k.envs e').envStatus)
    (hid : (f (k.envs e')).envId = (k.envs e').envId) : Rests e k (k.setEnv e' f) := fun hd => by
  by_cases he : e = e'
  · subst he
    simp only [Kernel.setEnv, Function.update_self]
    exact ⟨hst.trans hd, hid⟩
  · have heq : (k.setEnv e' f).envs e = k.envs e := Function.update_of_ne he _ _
    rw [heq]
    exact ⟨hd, rfl⟩

/-! ## Scheduling -/

theorem schedStart (k : Kernel) (c : Cpu) : Rests e k (schedStart k c).2 := by
  rcases schedStart_snd k c with heq | ⟨cur, -, hst, heq⟩
  · rw [heq]
    exact of_envs rfl
  · rw [heq]
    refine update _ ?_ (setStatus_envs k cur ENV_RUNNABLE)
    rw [hst]
    decide

theorem envRun (hst : (k.envs e').envStatus ≠ ENV_DYING) : Rests e k (envRun k c e') := by
  rw [envRun_eq]
  have hst' : (((Jos.schedStart k c).2.setCurenv c (some e')).envs e').envStatus ≠ ENV_DYING := by
    change ((Jos.schedStart k c).2.envs e').envStatus ≠ ENV_DYING
    rcases schedStart_snd k c with heq | ⟨cur, -, -, heq⟩
    · rw [heq]
      exact hst
    · rw [heq, setStatus_envs]
      by_cases he : e' = cur
      · subst he
        rw [Function.update_self]
        exact (by decide : ENV_RUNNABLE ≠ ENV_DYING)
      · rw [Function.update_of_ne he]
        exact hst
  have h₁ : Rests e (Jos.schedStart k c).2 ((Jos.schedStart k c).2.setCurenv c (some e')) :=
    of_envs rfl
  exact (schedStart k c).trans (h₁.trans (update _ hst' rfl))

/-- What holds at the end of a kernel entry. -/
structure Exits (e : EnvIdx) (c : Cpu) (k : Kernel) (exit : Exit) : Prop where
  run : ∀ k' e', exit = .run k' e' → Rests e k (Jos.envRun k' c e')
  monitor : ∀ k', exit = .monitor k' → Rests e k k'

theorem exits_sched (h : Rests e k k') : Exits e c k (schedYield k' c) := by
  constructor
  · intro k₁ e' hs
    obtain ⟨rfl, hpick⟩ := schedYield_run hs
    refine (h.trans (schedStart k' c)).trans (envRun ?_)
    rcases hpick with ⟨-, hst⟩ | ⟨-, hst | hst⟩ <;> rw [hst] <;> decide
  · intro k₁ hs
    rw [schedYield_monitor hs]
    exact h.trans (schedStart k' c)

theorem exits_run (h : Rests e k k') (hst : (k'.envs e').envStatus ≠ ENV_DYING) :
    Exits e c k (.run k' e') := by
  refine ⟨fun k₁ e₁ heq => ?_, nofun⟩
  cases heq
  exact h.trans (envRun hst)

theorem exits_return (h : Rests e k k') : Exits e c k (trapReturn k' c) := by
  unfold trapReturn
  split
  · exact h.exits_sched
  · split_ifs with hst
    · refine h.exits_run ?_
      rw [hst]
      decide
    · exact h.exits_sched

/-! ## Kernel entries -/

theorem free (hst : (k.envs e').envStatus = ENV_DYING → e ≠ e') (hfree : envFree k c e' = .ok k') :
    Rests e k k' := by
  obtain ⟨henvs, -⟩ := envs_envFree hfree
  by_cases hd : (k.envs e').envStatus = ENV_DYING
  · apply of_envs
    rw [henvs, Function.update_of_ne (hst hd)]
  · exact update _ hd henvs

theorem alloc {parentId : Word} {res : Except Word EnvIdx}
    (hhead : ∀ e, k.envFreeList = some e → (k.envs e).envStatus ≠ ENV_DYING)
    (hx : envAlloc k parentId = .ok (res, k')) :
    Rests e k k' ∧ ∀ child, res = .ok child → (k'.envs child).envStatus ≠ ENV_DYING := by
  rcases envAlloc_ok hx with ⟨r, rfl, rfl⟩ | ⟨child, p, rfl, hchild, -, rfl⟩
  · exact ⟨of_envs rfl, nofun⟩
  · refine ⟨update _ (hhead child hchild) rfl, fun child' hc => ?_⟩
    obtain rfl := Except.ok.inj hc
    change (Function.update k.envs child (newEnv k parentId child p) child).envStatus ≠ ENV_DYING
    rw [Function.update_self]
    exact (by decide : ENV_RUNNABLE ≠ ENV_DYING)

theorem exofork (hhead : ∀ e, k.envFreeList = some e → (k.envs e).envStatus ≠ ENV_DYING)
    (hx : sysExofork k cur = .ok (r, k')) : Rests e k k' := by
  unfold sysExofork at hx
  obtain ⟨⟨res, k₁⟩, hal, hret⟩ := bind_eq_ok.1 hx
  obtain ⟨h₁, hchild⟩ := alloc (e := e) hhead (orPanic_ok.1 hal)
  cases res with
  | error r =>
    cases hret
    exact h₁
  | ok child =>
    have h₂ : Rests e k₁ (exoforkChild k₁ cur child) := update _ (hchild child rfl) rfl
    simp only at hret
    split_ifs at hret <;> cases hret <;> exact h₁.trans h₂

/-- **A system call** that returns. -/
theorem sysReturn (hs : SparesZombies k cur x) (hret : SysReturn c cur k x r k') :
    Rests e k k' := by
  cases hret with
  | same r hno hrecv => exact of_envs rfl
  | pageAlloc hno hx =>
    rw [sysPageAlloc_phys hx]
    exact of_envs rfl
  | pageMap hno hx =>
    rw [sysPageMap_phys hx]
    exact of_envs rfl
  | pageUnmap hno hx =>
    rw [sysPageUnmap_phys hx]
    exact of_envs rfl
  | @dying e' hno hf hr hne => exact update _ (hs.destroy hno e' hf) (setStatus_envs k e' ENV_DYING)
  | @free e' k' hno hf hr hne hfree =>
    exact Rests.free (fun hd => (hs.destroy hno e' hf hd).elim) hfree
  | exofork hno hx => exact Rests.exofork (hs.exofork hno) hx
  | @setStatus e' hno hf hst =>
    refine update _ ?_ (setStatus_envs k e' x.a2)
    rcases hst with hst | hst <;> rw [hst] <;> decide
  | setUpcall hno hf => exact setEnv rfl rfl
  | send hno hx =>
    rcases sysIpcTrySend_ok hx with ⟨-, -, rfl⟩ | ⟨uenv, hf, ⟨-, -, rfl⟩ | ⟨hrec, hsend⟩⟩
    · exact of_envs rfl
    · exact of_envs rfl
    have hst : (k.envs uenv).envStatus ≠ ENV_DYING := by
      intro hd
      rw [hs.send hno uenv hf hd] at hrec
      cases hrec
    rcases hsend with ⟨-, rfl⟩ | ⟨-, rfl⟩ | ⟨-, hk'⟩
    · exact of_envs rfl
    · exact setEnv rfl rfl
    · exact update _ hst (by rw [hk'])

theorem save (k : Kernel) (cur : EnvIdx) (tf : Trapframe) : Rests e k (k.save cur tf) :=
  setEnv rfl rfl

/-- **A kernel entry**, unless it is the zombie's own. -/
theorem entry {tf : Trapframe} {cr2 input : Word} {exit : Exit}
    (hst : (k.envs cur).envStatus = ENV_DYING → e ≠ cur)
    (hs : (k.envs cur).envStatus ≠ ENV_DYING → tf.IsSyscall → SparesZombies k cur tf.call)
    (hE : Entry c cur k tf cr2 input exit) : Exits e c k exit := by
  have htab := sameTable_save k cur tf
  have hst' : (k.envs cur).envStatus ≠ ENV_DYING →
      ((k.save cur tf).envs cur).envStatus ≠ ENV_DYING := by
    rw [htab.status]
    exact id
  have hsave : Rests e k (k.save cur tf) := save k cur tf
  cases hE with
  | panic msg => exact ⟨nofun, nofun⟩
  | @reap k' hd hfree =>
    have hcurenv : Rests e k' (k'.setCurenv c none) := of_envs rfl
    exact ((free hst hfree).trans hcurenv).exits_sched
  | @destroySelf k' hd hdoom hfree =>
    have hcurenv : Rests e k' (k'.setCurenv c none) := of_envs rfl
    have hfree' : Rests e (k.save cur tf) k' := free (fun hd' => (hst' hd hd').elim) hfree
    exact ((hsave.trans hfree').trans hcurenv).exits_sched
  | yield hd hno => exact hsave.exits_sched
  | monitor hd hbp =>
    refine ⟨nofun, fun k' heq => ?_⟩
    cases heq
    exact hsave
  | irq hd hirq => exact hsave.exits_return
  | recv hd hsys hno hblk =>
    have hblock : Rests e (k.save cur tf) (ipcBlock (k.save cur tf) cur tf.call.a1) :=
      update _ (hst' hd) rfl
    exact (hsave.trans hblock).exits_sched
  | @call r k' hd hsys hrun hret =>
    have hs' : SparesZombies (k.save cur tf) cur tf.call := by
      refine ⟨fun hno e' hf => ?_, fun hno e' hf hd' => ?_, fun hno e' hf => ?_⟩
      · rw [envid2env_save] at hf
        rw [htab.status]
        exact (hs hd hsys).destroy hno e' hf
      · rw [envid2env_save] at hf
        rw [htab.status] at hd'
        rw [htab.recving]
        exact (hs hd hsys).send hno e' hf hd'
      · rw [htab.status]
        exact (hs hd hsys).exofork hno e' hf
    have hret' : Rests e k' (k'.setEax cur r) := setEnv rfl rfl
    exact ((hsave.trans (sysReturn hs' hret)).trans hret').exits_return
  | @fault σ hd hpf hstore =>
    have hup : Rests e (k.save cur tf) ((k.save cur tf).upcall cur σ cr2) :=
      (of_envs rfl : Rests e (k.save cur tf) { k.save cur tf with phys := σ }).trans
      (setEnv rfl rfl)
    refine (hsave.trans hup).exits_run ?_
    rw [(sameTable_upcall (k.save cur tf) cur σ cr2).status]
    exact hst' hd

end Rests

/-! ## The trap of a zombie -/

variable {m m' : Smp} {c : Cpu} {e cur : EnvIdx}

/-- A free slot is not picked by the scheduler. -/
theorem status_sched {k k' : Kernel} (hst : (k.envs e).envStatus = ENV_FREE)
    (hcpu : k.cpuEnv c = none) :
    (∀ e', schedYield k c = .run k' e' → ((envRun k' c e').envs e).envStatus = ENV_FREE) ∧
      (schedYield k c = .monitor k' → (k'.envs e).envStatus = ENV_FREE) := by
  have hstart : (schedStart k c).2 = k := by
    rw [schedStart, hcpu]
  constructor
  · intro e' hs
    obtain ⟨rfl, hpick⟩ := schedYield_run hs
    rw [hstart] at hpick ⊢
    have hne : e ≠ e' := by
      rintro rfl
      rcases hpick with ⟨-, hp⟩ | ⟨-, hp | hp⟩ <;> rw [hst] at hp <;> exact absurd hp (by decide)
    rw [envRun_eq, hstart]
    simp only [Kernel.setEnv, Kernel.setCurenv, Function.update_of_ne hne]
    exact hst
  · intro hs
    rw [schedYield_monitor hs, hstart]
    exact hst

/-- A zombie's own trap frees it. -/
theorem trap_frees {tf : Trapframe} {cr2 input : Word} (hcur : m.k.cpuEnv c = some e)
    (hd : (m.k.envs e).envStatus = ENV_DYING)
    (hstep : m.step (.trap c tf cr2 input) = some m') :
    (∃ k', envFree m.k c e = .ok k') ∧ (m'.k.envs e).envStatus = ENV_FREE := by
  cases step_cases hstep with
  | trap hlock hphase hcs hcur' hfin =>
    rw [trap, hcur] at hfin
    simp only [if_pos hd] at hfin
    cases hfree : envFree m.k c e with
    | error msg =>
      rw [hfree] at hfin
      cases hfin
    | ok k' =>
      rw [hfree] at hfin
      simp only at hfin
      have hst : ((k'.setCurenv c none).envs e).envStatus = ENV_FREE := by
        change (k'.envs e).envStatus = ENV_FREE
        rw [(envs_envFree hfree).1, Function.update_self]
      have hcpu : (k'.setCurenv c none).cpuEnv c = none := Function.update_self c _ _
      refine ⟨⟨k', rfl⟩, ?_⟩
      cases hsched : schedYield (k'.setCurenv c none) c with
      | run k₁ e' =>
        rw [hsched] at hfin
        obtain rfl := Option.some.inj hfin
        exact (status_sched hst hcpu).1 e' hsched
      | monitor k₁ =>
        rw [hsched] at hfin
        obtain rfl := Option.some.inj hfin
        exact (status_sched hst hcpu).2 hsched
      | panic msg =>
        rw [hsched] at hfin
        cases hfin

/-! ## Runs -/

theorem Rests.Exits.finish {exit : Exit} (ho : Rests.Exits e c m.k exit)
    (hf : m.finish c exit = some m') : Rests e m.k m'.k := by
  cases exit with
  | run k e' =>
    obtain rfl := Option.some.inj hf
    exact ho.run k e' rfl
  | monitor k =>
    obtain rfl := Option.some.inj hf
    exact ho.monitor k rfl
  | panic msg => cases hf

/-- **One step** keeps a zombie, or is the trap of a CPU that runs it. -/
theorem Buried.step {a : SmpAct} (ha : Buried m a) (hstep : m.step a = some m') :
    Rests e m.k m'.k ∨ ∃ c tf cr2 input, a = .trap c tf cr2 input ∧ m.phase c = .user ∧
      m.k.cpuEnv c = some e := by
  cases step_cases hstep with
  | create hboot hk =>
    refine .inl ?_
    unfold envCreate at hk
    split at hk
    · rename_i child k₁ hal
      obtain ⟨h₁, hchild⟩ := Rests.alloc (e := e) ha hal
      obtain rfl := Option.some.inj hk
      exact h₁.trans (Rests.update _ (hchild child rfl) rfl)
    · cases hk
  | region hboot hva hk =>
    refine .inl (Rests.of_envs ?_)
    rw [regionPage_phys hk]
  | start hlock hphase hfirst hfin =>
    exact .inl ((Rests.exits_sched (Rests.of_envs rfl)).finish hfin)
  | @trap c cur tf cr2 input _ hlock hphase hcs hcur hfin =>
    by_cases he : e = cur ∧ (m.k.envs cur).envStatus = ENV_DYING
    · obtain ⟨rfl, -⟩ := he
      exact .inr ⟨c, tf, cr2, input, rfl, hphase, hcur⟩
    · exact .inl ((Rests.entry (fun hd hec => he ⟨hec, hd⟩) (ha cur hcur) (trap_cases hcur)).finish
        hfin)
  | unlock hphase => exact .inl (Rests.of_envs rfl)
  | lcr3 hphase hk =>
    obtain ⟨e', d, -, -, rfl⟩ := lcr3Curenv_ok hk
    exact .inl (Rests.of_envs rfl)
  | @iret c hphase =>
    refine .inl ?_
    change Rests e m.k (envPopTf m.k c)
    unfold envPopTf
    split
    · exact Rests.of_envs rfl
    · exact Rests.setEnv rfl rfl
  | store hphase hva hp => exact .inl (Rests.of_envs rfl)
  | touch hphase hva hp => exact .inl (Rests.of_envs rfl)

/-- The parent destroys its running child. -/
def killActs : List SmpAct := childActs ++ callActs 0 SYS_env_destroy 0x1009#32 0 0 0 0

/-- The state in which the child is a zombie on CPU 1. -/
def killed : Option Smp := killActs.foldlM (guardedStep (fun _ _ => True) Smp.step) freshSmp

end Jos
