import Jos.Smp
import Jos.TrapEntry

/-!
# Preemption is invisible

An environment that is interrupted goes on later, perhaps on another CPU, after any number of kernel
entries of other environments. This file follows its trap frame through such runs.

**What a step does to a frame** (`TfChange`). Most steps leave it alone. The environment that traps
gets the frame of its trap, with a return value or the registers of an upcall. A new environment
gets a copy of its parent's frame or `newTrapframe`, a freed one loses its page directory, and a
receiver's `eax` is set when a message arrives. There is no other way.

**Two results over whole runs.** Every frame that `env_pop_tf` is given is one of a user program, so
`iret` never faults and never stays in the kernel (`iret_enters_user`). And an environment that an
interrupt has stopped goes on with the registers it had, whatever happens in between
(`preemption_transparent`).
-/

namespace Jos

open Lib

/-- The frames that a trap with frame `tf` may leave to its own environment. -/
def Trapframe.Leaves (tf f : Trapframe) : Prop :=
  f = tf ∨ (∃ r, f = tf.setEax r) ∨ ∃ esp eip, f = { tf with tfEsp := esp, tfEip := eip }

/-- The frames of new environments, if the parent traps with `tf`. -/
def Trapframe.Starts (tf f : Trapframe) : Prop :=
  f = tf.setEax 0 ∨ ∃ eip, f = { newTrapframe with tfEip := eip }

/-- What becomes of environment `e` when `cur` traps with the frame `tf`. -/
inductive TfChange (k : Kernel) (cur : EnvIdx) (tf : Trapframe) (e : EnvIdx) (env : Env) : Prop
  | kept (htf : env.envTf = (k.envs e).envTf) (hdir : env.envPgdir = (k.envs e).envPgdir)
      (hrec : env.envIpcRecving = (k.envs e).envIpcRecving)
  | own (he : e = cur) (hdir : env.envPgdir = (k.envs e).envPgdir) (htf : tf.Leaves env.envTf)
  | freed (hdir : env.envPgdir = none)
  | created (hhead : k.envFreeList = some e) (htf : tf.Starts env.envTf)
  | received (hrec : (k.envs e).envIpcRecving = true) (hdir : env.envPgdir = (k.envs e).envPgdir)
      (htf : env.envTf = (k.envs e).envTf.setEax 0)

/-- Two records with the same frame. -/
structure SameTf (env env' : Env) : Prop where
  tf : env'.envTf = env.envTf
  dir : env'.envPgdir = env.envPgdir
  recving : env'.envIpcRecving = env.envIpcRecving

section Change

variable {k k' : Kernel} {c : Cpu} {cur e : EnvIdx} {tf : Trapframe} {cr2 input : Word}
  {env env' : Env} {m m' : Smp}

theorem SameTf.refl (env : Env) : SameTf env env := ⟨rfl, rfl, rfl⟩

theorem SameTf.trans {env'' : Env} (h : SameTf env env') (h' : SameTf env' env'') :
    SameTf env env'' :=
  ⟨h'.tf.trans h.tf, h'.dir.trans h.dir, h'.recving.trans h.recving⟩

theorem SameTf.setEnv (k : Kernel) (e₀ e : EnvIdx) (f : Env → Env)
    (h : SameTf (k.envs e₀) (f (k.envs e₀))) :
    SameTf (k.envs e) ((k.setEnv e₀ f).envs e) := by
  by_cases he : e = e₀
  · subst he
    simp only [Kernel.setEnv, Function.update_self]
    exact h
  · simp only [Kernel.setEnv, Function.update_of_ne he]
    exact .refl _

theorem TfChange.same (h : SameTf (k.envs e) env) : TfChange k cur tf e env :=
  .kept h.tf h.dir h.recving

theorem TfChange.andThen (h : TfChange k cur tf e env) (hs : SameTf env env') :
    TfChange k cur tf e env' := by
  cases h with
  | kept htf hdir hrec => exact .kept (hs.tf.trans htf) (hs.dir.trans hdir) (hs.recving.trans hrec)
  | own he hdir htf => exact .own he (hs.dir.trans hdir) (hs.tf ▸ htf)
  | freed hdir => exact .freed (hs.dir.trans hdir)
  | created hhead htf => exact .created hhead (hs.tf ▸ htf)
  | received hrec hdir htf => exact .received hrec (hs.dir.trans hdir) (hs.tf.trans htf)

/-! ## The end of an entry -/

theorem sameTf_schedStart (k : Kernel) (c : Cpu) (e : EnvIdx) :
    SameTf (k.envs e) ((schedStart k c).2.envs e) := by
  rcases schedStart_snd k c with heq | ⟨cur, -, -, heq⟩
  · rw [heq]
    exact .refl _
  · rw [heq]
    exact .setEnv k cur e _ ⟨rfl, rfl, rfl⟩

theorem sameTf_envRun (k : Kernel) (c : Cpu) (e₀ e : EnvIdx) :
    SameTf (k.envs e) ((envRun k c e₀).envs e) := by
  rw [envRun_eq]
  exact (sameTf_schedStart k c e).trans
    (.setEnv ((schedStart k c).2.setCurenv c (some e₀)) e₀ e _ ⟨rfl, rfl, rfl⟩)

theorem sameTf_run {e₀ : EnvIdx} (hf : m.finish c (.run k e₀) = some m') (e : EnvIdx) :
    SameTf (k.envs e) (m'.k.envs e) := by
  obtain rfl := Option.some.inj hf
  exact sameTf_envRun k c e₀ e

theorem sameTf_sched (hf : m.finish c (schedYield k c) = some m') (e : EnvIdx) :
    SameTf (k.envs e) (m'.k.envs e) := by
  cases hs : schedYield k c with
  | run k₁ e₁ =>
    rw [hs] at hf
    obtain ⟨rfl, -⟩ := schedYield_run hs
    exact (sameTf_schedStart k c e).trans (sameTf_run hf e)
  | monitor k₁ =>
    rw [hs] at hf
    obtain rfl := Option.some.inj hf
    obtain rfl := schedYield_monitor hs
    exact sameTf_schedStart k c e
  | panic msg =>
    rw [hs] at hf
    cases hf

theorem sameTf_return (hcur : k.cpuEnv c = some cur) (hf : m.finish c (trapReturn k c) = some m')
    (e : EnvIdx) : SameTf (k.envs e) (m'.k.envs e) := by
  rcases trapReturn_cases hcur with ⟨-, heq⟩ | ⟨-, heq⟩
  · rw [heq] at hf
    exact sameTf_run hf e
  · rw [heq] at hf
    exact sameTf_sched hf e

/-! ## Traps -/

theorem leaves_refl (tf : Trapframe) : tf.Leaves tf := .inl rfl

theorem TfChange.save (k : Kernel) (cur e : EnvIdx) (tf : Trapframe) :
    TfChange k cur tf e ((k.save cur tf).envs e) := by
  by_cases he : e = cur
  · subst he
    refine .own rfl ?_ ?_
    · simp [Kernel.save, Kernel.setEnv]
    · rw [envTf_save]
      exact leaves_refl tf
  · simp only [Kernel.save, Kernel.setEnv, Function.update_of_ne he]
    exact .same (.refl _)

theorem TfChange.free {e₀ : EnvIdx} (h : ∀ e, TfChange k cur tf e (k'.envs e)) {k'' : Kernel}
    (hfree : envFree k' c e₀ = .ok k'') (e : EnvIdx) : TfChange k cur tf e (k''.envs e) := by
  obtain ⟨henvs, -⟩ := envs_envFree hfree
  by_cases he : e = e₀
  · subst he
    rw [henvs, Function.update_self]
    exact .freed rfl
  · rw [henvs, Function.update_of_ne he]
    exact h e

/-- The frames after a system call that returns, before its value is stored. -/
theorem TfChange.call {x : Call} {r : Word} (hne : k.envFreeList ≠ some cur)
    (h : SysReturn c cur (k.save cur tf) x r k') (e : EnvIdx) :
    TfChange k cur tf e (k'.envs e) := by
  have hsave := TfChange.save k cur e tf
  have hphys : k' = { k.save cur tf with phys := k'.phys } → TfChange k cur tf e (k'.envs e) := by
    intro hk
    rw [hk]
    exact hsave
  cases h with
  | same => exact hsave
  | pageAlloc hno h => exact hphys (sysPageAlloc_phys h)
  | pageMap hno h => exact hphys (sysPageMap_phys h)
  | pageUnmap hno h => exact hphys (sysPageUnmap_phys h)
  | dying hno hf hr hcpu => exact hsave.andThen (.setEnv _ _ e _ ⟨rfl, rfl, rfl⟩)
  | free hno hf hr hcpu h => exact TfChange.free (fun e => TfChange.save k cur e tf) h e
  | setStatus hno hf hs => exact hsave.andThen (.setEnv _ _ e _ ⟨rfl, rfl, rfl⟩)
  | setUpcall hno hf => exact hsave.andThen (.setEnv _ _ e _ ⟨rfl, rfl, rfl⟩)
  | exofork hno h =>
    rcases sysExofork_ok (k := k.save cur tf) hne h with rfl | ⟨child, p, hhead, -, rfl⟩
    · exact hsave
    · by_cases he : e = child
      · subst he
        refine .created hhead (.inl ?_)
        simp only [allocated, Function.update_self, forkedEnv, envTf_save]
      · simp only [allocated, Function.update_of_ne he]
        exact hsave
  | send hno h =>
    rcases sysIpcTrySend_ok h with ⟨-, -, rfl⟩ | ⟨uenv, -, ⟨-, -, rfl⟩ | ⟨hrec, h⟩⟩
    · exact hsave
    · exact hsave
    · rcases h with ⟨-, rfl⟩ | ⟨-, rfl⟩ | ⟨-, hk⟩
      · exact hsave
      · exact hsave.andThen (.setEnv _ _ e _ ⟨rfl, rfl, rfl⟩)
      · rw [hk]
        by_cases he : e = uenv
        · subst he
          simp only [Function.update_self]
          by_cases hcur : e = cur
          · subst hcur
            refine .own rfl ?_ (.inr (.inl ⟨0, ?_⟩))
            · simp [delivered, Kernel.save, Kernel.setEnv]
            · simp only [delivered, envTf_save]
          · have hsame : (k.save cur tf).envs e = k.envs e := Function.update_of_ne hcur _ _
            rw [hsame] at hrec
            refine .received hrec ?_ ?_
            · simp only [delivered, hsame]
            · simp only [delivered, hsame]
        · simp only [Function.update_of_ne he]
          exact hsave

theorem SysReturn.caller {x : Call} {r : Word} (hcur : k.cpuEnv c = some cur)
    (hne : k.envFreeList ≠ some cur) (h : SysReturn c cur (k.save cur tf) x r k') :
    ((k'.envs cur).envTf = tf ∨ (k'.envs cur).envTf = tf.setEax 0) ∧
      (k'.envs cur).envPgdir = (k.envs cur).envPgdir := by
  have hsave : ((k.save cur tf).envs cur).envTf = tf ∧
      ((k.save cur tf).envs cur).envPgdir = (k.envs cur).envPgdir :=
    ⟨envTf_save k cur tf, by simp [Kernel.save, Kernel.setEnv]⟩
  have hsame : SameTf ((k.save cur tf).envs cur) (k'.envs cur) →
      ((k'.envs cur).envTf = tf ∨ (k'.envs cur).envTf = tf.setEax 0) ∧
        (k'.envs cur).envPgdir = (k.envs cur).envPgdir :=
    fun h => ⟨.inl (h.tf.trans hsave.1), h.dir.trans hsave.2⟩
  have hphys : k' = { k.save cur tf with phys := k'.phys } →
      SameTf ((k.save cur tf).envs cur) (k'.envs cur) := by
    intro hk
    rw [hk]
    exact .refl _
  cases h with
  | same => exact ⟨.inl hsave.1, hsave.2⟩
  | pageAlloc hno h => exact hsame (hphys (sysPageAlloc_phys h))
  | pageMap hno h => exact hsame (hphys (sysPageMap_phys h))
  | pageUnmap hno h => exact hsame (hphys (sysPageUnmap_phys h))
  | dying hno hf hr hcpu => exact hsame (.setEnv _ _ cur _ ⟨rfl, rfl, rfl⟩)
  | @free e k' hno hf hr hcpu h =>
    have he : cur ≠ e := by
      rintro rfl
      exact hcpu hcur
    obtain ⟨henvs, -⟩ := envs_envFree h
    apply hsame
    rw [henvs, Function.update_of_ne he]
    exact .refl _
  | setStatus hno hf hs => exact hsame (.setEnv _ _ cur _ ⟨rfl, rfl, rfl⟩)
  | setUpcall hno hf => exact hsame (.setEnv _ _ cur _ ⟨rfl, rfl, rfl⟩)
  | exofork hno h =>
    rcases sysExofork_ok (k := k.save cur tf) hne h with rfl | ⟨child, p, hhead, -, rfl⟩
    · exact ⟨.inl hsave.1, hsave.2⟩
    · have hchild : cur ≠ child := by
        rintro rfl
        exact hne hhead
      apply hsame
      simp only [allocated, Function.update_of_ne hchild]
      exact .refl _
  | send hno h =>
    rcases sysIpcTrySend_ok h with ⟨-, -, rfl⟩ | ⟨uenv, -, ⟨-, -, rfl⟩ | ⟨-, h⟩⟩
    · exact ⟨.inl hsave.1, hsave.2⟩
    · exact ⟨.inl hsave.1, hsave.2⟩
    · rcases h with ⟨-, rfl⟩ | ⟨-, rfl⟩ | ⟨-, hk⟩
      · exact ⟨.inl hsave.1, hsave.2⟩
      · exact hsame (.setEnv _ _ cur _ ⟨rfl, rfl, rfl⟩)
      · rw [hk]
        by_cases he : cur = uenv
        · subst he
          simp only [Function.update_self, delivered]
          exact ⟨.inr (congrArg (Trapframe.setEax · 0) hsave.1), hsave.2⟩
        · simp only [Function.update_of_ne he]
          exact ⟨.inl hsave.1, hsave.2⟩

theorem SysReturn.cpuEnv {x : Call} {r : Word} (hne : k.envFreeList ≠ some cur)
    (h : SysReturn c cur k x r k') : k'.cpuEnv = k.cpuEnv := by
  have hphys : k' = { k with phys := k'.phys } → k'.cpuEnv = k.cpuEnv := by
    intro hk
    rw [hk]
  cases h with
  | same => rfl
  | pageAlloc hno h => exact hphys (sysPageAlloc_phys h)
  | pageMap hno h => exact hphys (sysPageMap_phys h)
  | pageUnmap hno h => exact hphys (sysPageUnmap_phys h)
  | dying hno hf hr hcpu => rfl
  | free hno hf hr hcpu h => exact cpuEnv_envFree h
  | setStatus hno hf hs => rfl
  | setUpcall hno hf => rfl
  | exofork hno h =>
    rcases sysExofork_ok hne h with rfl | ⟨child, p, -, -, rfl⟩
    · rfl
    · rfl
  | send hno h =>
    rcases sysIpcTrySend_ok h with ⟨-, -, rfl⟩ | ⟨uenv, -, ⟨-, -, rfl⟩ | ⟨-, h⟩⟩
    · rfl
    · rfl
    · rcases h with ⟨-, rfl⟩ | ⟨-, rfl⟩ | ⟨-, hk⟩
      · rfl
      · rfl
      · rw [hk]

/-- **A trap**, from the entry to `unlock_kernel`. -/
theorem TfChange.trap (hcur : m.k.cpuEnv c = some cur) (hne : m.k.envFreeList ≠ some cur)
    (hf : m.finish c (Jos.trap m.k c tf cr2 input) = some m') (e : EnvIdx) :
    TfChange m.k cur tf e (m'.k.envs e) := by
  have hentry : Entry c cur m.k tf cr2 input (Jos.trap m.k c tf cr2 input) := trap_cases hcur
  generalize Jos.trap m.k c tf cr2 input = exit at hentry hf
  have hsaved : (m.k.save cur tf).cpuEnv c = some cur := hcur
  cases hentry with
  | panic msg => cases hf
  | reap hd h => exact (TfChange.free (fun e => .same (.refl _)) h e).andThen (sameTf_sched hf e)
  | destroySelf hd hdoom h =>
    exact (TfChange.free (TfChange.save m.k cur · tf) h e).andThen (sameTf_sched hf e)
  | yield hd hno => exact (TfChange.save m.k cur e tf).andThen (sameTf_sched hf e)
  | monitor hd hbp =>
    obtain rfl := Option.some.inj hf
    exact TfChange.save m.k cur e tf
  | irq hd hirq => exact (TfChange.save m.k cur e tf).andThen (sameTf_return hsaved hf e)
  | recv hd hsys hno hblk =>
    refine TfChange.andThen ?_ (sameTf_sched hf e)
    by_cases he : e = cur
    · subst he
      refine .own rfl ?_ (.inl ?_)
      · simp [ipcBlock, Kernel.save, Kernel.setEnv]
      · simp [ipcBlock, Kernel.save, Kernel.setEnv]
    · simp only [ipcBlock, Kernel.setEnv, Function.update_of_ne he]
      exact TfChange.save m.k cur e tf
  | @call r k' hd hsys hrun h =>
    have hcpu : (k'.setEax cur r).cpuEnv c = some cur := by
      change k'.cpuEnv c = some cur
      rw [SysReturn.cpuEnv (k := m.k.save cur tf) hne h]
      exact hcur
    refine TfChange.andThen ?_ (sameTf_return hcpu hf e)
    by_cases he : e = cur
    · subst he
      obtain ⟨htf, hdir⟩ := h.caller hcur hne
      refine .own rfl ?_ (.inr (.inl ⟨r, ?_⟩))
      · simpa [Kernel.setEax, Kernel.setEnv] using hdir
      · simp only [Kernel.setEax, Kernel.setEnv, Function.update_self]
        rcases htf with htf | htf
        · rw [htf]
        · rw [htf]
          rfl
    · simp only [Kernel.setEax, Kernel.setEnv, Function.update_of_ne he]
      exact TfChange.call hne h e
  | fault hd hpf h =>
    refine TfChange.andThen ?_ (sameTf_run hf e)
    by_cases he : e = cur
    · subst he
      refine .own rfl ?_ (.inr (.inr ⟨(uxFrame tf cr2).1, (m.k.envs e).envPgfaultUpcall, ?_⟩))
      · simp [Kernel.upcall, Kernel.save, Kernel.setEnv]
      · simp only [Kernel.upcall, Kernel.setEnv, Function.update_self, envTf_save,
          envPgfaultUpcall_save]
    · simp only [Kernel.upcall, Kernel.setEnv, Function.update_of_ne he]
      exact TfChange.save m.k cur e tf

/-- A trap that nothing handles frees its environment. -/
theorem trap_unhandled (hcur : k.cpuEnv c = some cur) (hirq : ¬ tf.IsIrq)
    (hpf : tf.tfTrapno ≠ T_PGFLT) (hbp : tf.tfTrapno ≠ T_BRKPT) (hsys : tf.tfTrapno ≠ T_SYSCALL) :
    (∃ msg, Jos.trap k c tf cr2 input = .panic msg) ∨
      ∃ k₁ k', (k₁ = k ∨ k₁ = k.save cur tf) ∧ envFree k₁ c cur = .ok k' ∧
        Jos.trap k c tf cr2 input = schedYield (k'.setCurenv c none) c := by
  by_cases hd : (k.envs cur).envStatus = ENV_DYING
  · unfold Jos.trap
    simp only [hcur]
    rw [if_pos hd]
    cases hfree : envFree k c cur with
    | error msg => exact .inl ⟨msg, rfl⟩
    | ok k₁ => exact .inr ⟨k, k₁, .inl rfl, hfree, rfl⟩
  · rw [trap_alive hcur hd]
    unfold trapDispatch
    simp only [envTf_save]
    rw [if_neg hirq, if_neg hpf, if_neg hbp, if_neg hsys]
    split_ifs with hkt
    · exact .inl ⟨_, rfl⟩
    · cases hdes : envDestroy (k.save cur tf) c cur with
      | error ex =>
        rcases envDestroy_error hdes with ⟨msg, rfl⟩ | ⟨-, k₁, hfree, hexit⟩
        · exact .inl ⟨msg, rfl⟩
        · exact .inr ⟨k.save cur tf, k₁, .inr rfl, hfree, hexit⟩
      | ok k₁ => exact ((envDestroy_ok hdes).1 hcur).elim

end Change

/-! ## Frames of user programs -/

/-- Every environment has the frame of a user program. -/
def FramesOk (k : Kernel) : Prop := ∀ e, k.dirs e ≠ none → (k.envs e).envTf.User

/-- The frame of a trap is what the processor and the stubs make of a program in user mode. -/
def HwTrap (_ : Smp) : SmpAct → Prop
  | .trap _ tf _ _ => ∃ pad T s ev, InUser s ∧ ev.Possible ∧ tf = Event.frame pad T s ev
  | _ => True

section Frames

variable {managed tables : Set Nat} {k k' : Kernel} {c : Cpu} {cur e : EnvIdx} {tf f : Trapframe}
  {cr2 input : Word} {m m' : Smp} {a : SmpAct}

theorem Trapframe.User.leaves (h : tf.User) (hf : tf.Leaves f) : f.User := by
  rcases hf with rfl | ⟨r, rfl⟩ | ⟨esp, eip, rfl⟩
  · exact h
  · exact ⟨h.cs, h.ss, h.ds, h.es, h.fixed, h.interruptible, h.iopl⟩
  · exact ⟨h.cs, h.ss, h.ds, h.es, h.fixed, h.interruptible, h.iopl⟩

theorem user_newTrapframe : newTrapframe.User := by
  constructor <;> decide

theorem Trapframe.User.starts (h : tf.User) (hf : tf.Starts f) : f.User := by
  rcases hf with rfl | ⟨eip, rfl⟩
  · exact h.leaves (.inr (.inl ⟨0, rfl⟩))
  · exact user_newTrapframe.leaves (.inr (.inr ⟨newTrapframe.tfEsp, eip, rfl⟩))

/-- A frame that the hardware has built is one of a user program, or that of an alignment check. -/
theorem user_or_align {pad : Word → BitVec 16} {T : Tables} {s : CpuState} (hs : InUser s)
    (ev : Event) :
    (ev.frame pad T s).User ∨ (ev.frame pad T s).tfTrapno = BitVec.ofNat 32 T_ALIGN := by
  unfold Event.frame
  split_ifs with ha
  · exact .inr rfl
  · exact .inl (hs.frame_user ev _ _ _)

theorem FramesOk.same (h : FramesOk k) (hs : ∀ e, SameTf (k.envs e) (k'.envs e)) : FramesOk k' := by
  intro e he
  rw [(hs e).tf]
  apply h e
  rw [Kernel.dirs, ← (hs e).dir]
  exact he

theorem KInv.head_ne (h : KInv managed tables k) (hdir : k.dirs e ≠ none) :
    k.envFreeList ≠ some e := by
  intro hhead
  obtain ⟨l, hl, hall⟩ := h.tab.free_list
  rw [hhead] at hl
  obtain ⟨l', rfl, -⟩ := hl.pop
  exact hdir (hall e List.mem_cons_self)

theorem FramesOk.trap (h : FramesOk m.k) (hcur : m.k.cpuEnv c = some cur)
    (hdir : m.k.dirs cur ≠ none) (hne : m.k.envFreeList ≠ some cur)
    (htf : tf.User ∨ tf.tfTrapno = BitVec.ofNat 32 T_ALIGN)
    (hf : m.finish c (Jos.trap m.k c tf cr2 input) = some m') : FramesOk m'.k := by
  rcases htf with htf | halign
  · intro e he
    cases TfChange.trap hcur hne hf e with
    | kept htf' hdir' hrec =>
      rw [htf']
      apply h e
      rw [Kernel.dirs, ← hdir']
      exact he
    | own he' hdir' hleft => exact htf.leaves hleft
    | freed hdir' => exact (he hdir').elim
    | created hhead hnew => exact htf.starts hnew
    | received hrec hdir' htf' =>
      rw [htf']
      refine Trapframe.User.leaves (h e ?_) (.inr (.inl ⟨0, rfl⟩))
      rw [Kernel.dirs, ← hdir']
      exact he
  · have hirq : ¬ tf.IsIrq := by
      unfold Trapframe.IsIrq
      rw [halign]
      decide
    have hother : tf.tfTrapno ≠ T_PGFLT ∧ tf.tfTrapno ≠ T_BRKPT ∧ tf.tfTrapno ≠ T_SYSCALL := by
      rw [halign]
      decide
    rcases @trap_unhandled _ _ _ _ cr2 input hcur hirq hother.1 hother.2.1 hother.2.2 with
      ⟨msg, hexit⟩ | ⟨k₁, k', hk₁, hfree, hexit⟩
    · rw [hexit] at hf
      cases hf
    · rw [hexit] at hf
      obtain ⟨henvs, -⟩ := envs_envFree hfree
      intro e he
      have hs := sameTf_sched hf e
      by_cases hec : e = cur
      · subst hec
        refine (he (hs.dir.trans ?_)).elim
        simp only [Kernel.setCurenv, henvs, Function.update_self]
      · have hsame : ((k'.setCurenv c none).envs e) = m.k.envs e := by
          simp only [Kernel.setCurenv, henvs, Function.update_of_ne hec]
          rcases hk₁ with rfl | rfl
          · rfl
          · exact Function.update_of_ne hec _ _
        rw [hsame] at hs
        rw [hs.tf]
        apply h e
        rw [Kernel.dirs, ← hs.dir]
        exact he

theorem envCreate_envs {type : EnvType} {eip : Word} (h : envCreate k type eip = some k') :
    ∃ child, k.envFreeList = some child ∧ (∀ e, e ≠ child → k'.envs e = k.envs e) ∧
      (k'.envs child).envTf = { newTrapframe with tfEip := eip } := by
  unfold envCreate at h
  split at h
  · rename_i child k₁ hal
    rcases envAlloc_ok hal with ⟨r, hr, -⟩ | ⟨child', p, hc, hhead, -, rfl⟩
    · cases hr
    obtain rfl : child = child' := Except.ok.inj hc
    obtain rfl := Option.some.inj h
    refine ⟨child, hhead, fun e he => ?_, ?_⟩
    · simp only [Kernel.setEnv, allocated, Function.update_of_ne he]
    · simp only [Kernel.setEnv, allocated, Function.update_self, newEnv]
  · cases h

theorem sameTf_envPopTf (k : Kernel) (c : Cpu) (e : EnvIdx) :
    SameTf (k.envs e) ((envPopTf k c).envs e) := by
  unfold envPopTf
  split
  · exact .refl _
  · exact .setEnv k _ e _ ⟨rfl, rfl, rfl⟩

/-- A step other than a trap or `env_create` leaves every frame. -/
theorem SmpStep.sameTf (h : SmpStep m a m') (htrap : ∀ c tf cr2 input, a ≠ .trap c tf cr2 input)
    (hcreate : ∀ type eip, a ≠ .create type eip) (e : EnvIdx) :
    SameTf (m.k.envs e) (m'.k.envs e) := by
  cases h with
  | create hboot hk => exact (hcreate _ _ rfl).elim
  | region hboot hva hk =>
    rw [regionPage_phys hk]
    exact .refl _
  | start hlock hphase hfirst hfin => exact sameTf_sched hfin e
  | trap hlock hphase hcs hcur hfin => exact (htrap _ _ _ _ rfl).elim
  | unlock hphase => exact .refl _
  | lcr3 hphase hk =>
    obtain ⟨e, d, -, -, rfl⟩ := lcr3Curenv_ok hk
    exact .refl _
  | iret hphase => exact sameTf_envPopTf _ _ e
  | store hphase hva hp => exact .refl _
  | touch hphase hva hp => exact .refl _

/-- **One step.** -/
theorem FramesOk.step (h : FramesOk m.k) (hinv : SmpInv managed tables m) (ha : HwTrap m a)
    (hstep : m.step a = some m') : FramesOk m'.k := by
  have hcases := step_cases hstep
  cases a with
  | trap c tf cr2 input =>
    obtain ⟨pad, T, s, ev, hs, -, rfl⟩ := ha
    cases hcases with
    | @trap _ cur _ _ _ _ hlock hphase hcs hcur hfin =>
      obtain ⟨cur', hcur', hdir⟩ := hinv.cpu c (.inr hphase)
      obtain rfl : cur = cur' := Option.some.inj (hcur.symm.trans hcur')
      have hlive : m.k.dirs cur ≠ none := by
        rw [hdir]
        exact Option.some_ne_none _
      exact h.trap hcur hlive (hinv.kinv.head_ne hlive) (user_or_align hs ev) hfin
  | create type eip =>
    cases hcases with
    | create hboot hk =>
      obtain ⟨child, -, hother, hnew⟩ := envCreate_envs hk
      intro e he
      by_cases hec : e = child
      · subst hec
        rw [hnew]
        exact user_newTrapframe.leaves (.inr (.inr ⟨newTrapframe.tfEsp, eip, rfl⟩))
      · have hsame := hother e hec
        rw [hsame]
        apply h e
        rw [Kernel.dirs, ← hsame]
        exact he
  | _ => exact h.same fun e => hcases.sameTf (by simp) (by simp) e

/-- The timer interrupts a program. -/
def tick (c : Cpu) : SmpAct :=
  .trap c ((Event.irq timerVec).frame (fun _ => 0) someTables someProgram) 0 0

/-- Three programs, and two of them run. -/
def tickActs : List SmpAct :=
  List.replicate 8 (.create .IDLE 0x800020#32) ++ List.replicate 3 (.create .USER 0x800020#32) ++
    .start 0 :: leaveActs 0 ++ .start 1 :: leaveActs 1

/-- CPU 0 turns to the third program, and then CPU 1 to the one that CPU 0 ran. -/
def moveActs : List SmpAct := leaveActs 0 ++ [tick 1, .unlock 1, .lcr3 1]

/-- The traps are interrupts of the timer. -/
def Ticks : SmpAct → Prop
  | .trap _ tf _ _ => tf = (Event.irq timerVec).frame (fun _ => 0) someTables someProgram
  | _ => True

instance : DecidablePred Ticks :=
  SmpAct.decidableEntry (fun _ _ => instDecidableTrue)
    (fun _ _ _ _ => inferInstanceAs (Decidable (_ = _))) (by rintro (_ | _) <;> trivial)

theorem Ticks.hwTrap (h : Ticks a) : HwTrap m a := by
  cases a with
  | trap c tf cr2 input => exact ⟨_, _, _, _, inUser_someProgram, by decide, h⟩
  | _ => trivial

/-- The step is no trap of environment `e`, and does not free it. -/
def Spares (e : EnvIdx) (m : Smp) : SmpAct → Prop
  | .trap c tf _ _ => ∀ cur, m.k.cpuEnv c = some cur → cur ≠ e ∧ ¬ Frees m.k cur tf e
  | _ => True

instance (e : EnvIdx) (m : Smp) : DecidablePred (Spares e m) :=
  SmpAct.decidableEntry (fun _ _ => instDecidableTrue) (fun _ _ _ _ => decidableForallSome _)
    (by rintro (_ | _) <;> trivial)

/-- Environment `e` is stopped with the frame `f` and the page directory `d`. -/
structure Stopped (managed tables : Set Nat) (e : EnvIdx) (f : Trapframe) (d : Nat)
    (m : Smp) : Prop where
  inv : SmpInv managed tables m
  tf : (m.k.envs e).envTf = f
  dir : m.k.dirs e = some d
  recving : (m.k.envs e).envIpcRecving = false

variable {d : Nat}

theorem Stopped.same (h : Stopped managed tables e f d m) (hinv : SmpInv managed tables m')
    (hs : SameTf (m.k.envs e) (m'.k.envs e)) : Stopped managed tables e f d m' :=
  ⟨hinv, hs.tf.trans h.tf, hs.dir.trans h.dir, hs.recving.trans h.recving⟩

/-- **A step of the others.** -/
theorem Stopped.step (h : Stopped managed tables e f d m) (ha : Sound m a) (he : Spares e m a)
    (hstep : m.step a = some m') : Stopped managed tables e f d m' := by
  have hinv' := h.inv.step ha hstep
  have hlive : m.k.dirs e ≠ none := by
    rw [h.dir]
    exact Option.some_ne_none _
  have hcases := step_cases hstep
  cases a with
  | trap c tf cr2 input =>
    obtain ⟨cur', hcur', -, -, -, -, hk⟩ := h.inv.trap ha hstep
    obtain ⟨hne, hspare⟩ := he cur' hcur'
    cases hcases with
    | @trap _ cur _ _ _ _ hlock hphase hcs hcur hfin =>
      obtain rfl : cur = cur' := Option.some.inj (hcur.symm.trans hcur')
      obtain ⟨cur', hcur', hdir⟩ := h.inv.cpu c (.inr hphase)
      obtain rfl : cur = cur' := Option.some.inj (hcur.symm.trans hcur')
      have hhead : m.k.envFreeList ≠ some cur := by
        apply h.inv.kinv.head_ne
        rw [hdir]
        exact Option.some_ne_none _
      cases TfChange.trap hcur hhead hfin e with
      | kept htf hdir' hrec => exact h.same hinv' ⟨htf, hdir', hrec⟩
      | own hcase hdir' hleft => exact (hne hcase.symm).elim
      | freed hdir' =>
        have hkept := (hk.dirs e hlive).resolve_left hspare
        rw [Kernel.dirs, hdir'] at hkept
        exact (hlive hkept.symm).elim
      | created hfree hnew => exact (h.inv.kinv.head_ne hlive hfree).elim
      | received hrec hdir' htf =>
        rw [h.recving] at hrec
        cases hrec
  | create type eip =>
    cases hcases with
    | create hboot hk =>
      obtain ⟨child, hhead, hother, -⟩ := envCreate_envs hk
      have hec : e ≠ child := by
        rintro rfl
        exact h.inv.kinv.head_ne hlive hhead
      refine h.same hinv' ?_
      rw [hother e hec]
      exact .refl _
  | _ => exact h.same hinv' (hcases.sameTf (by simp) (by simp) e)

theorem sameTf_irq (hcur : m.k.cpuEnv c = some cur) (hd : (m.k.envs cur).envStatus ≠ ENV_DYING)
    (hirq : tf.IsIrq) (hf : m.finish c (Jos.trap m.k c tf cr2 input) = some m') :
    SameTf ((m.k.save cur tf).envs cur) (m'.k.envs cur) := by
  have hno : ∀ n : Word, tf.tfTrapno = n →
    ¬ (IRQ_OFFSET + IRQ_TIMER ≤ n ∧ n ≤ IRQ_OFFSET_HANDLE_MAX) → False := by
    rintro n rfl hn
    exact hn hirq
  have hentry : Entry c cur m.k tf cr2 input (Jos.trap m.k c tf cr2 input) := trap_cases hcur
  generalize Jos.trap m.k c tf cr2 input = exit at hentry hf
  have hsaved : (m.k.save cur tf).cpuEnv c = some cur := hcur
  cases hentry with
  | panic msg => cases hf
  | reap hdying h => exact (hd hdying).elim
  | destroySelf hd hdoom h => exact (hdoom.not_irq hirq).elim
  | yield hd hno => exact sameTf_sched hf cur
  | monitor hd hbp => exact (hno _ hbp (by decide)).elim
  | irq hd hirq => exact sameTf_return hsaved hf cur
  | recv hd hsys hno' hblk => exact (hno _ hsys (by decide)).elim
  | call hd hsys hrun h => exact (hno _ hsys (by decide)).elim
  | fault hd hpf h => exact (hno _ hpf (by decide)).elim

theorem frame_irq {pad : Word → BitVec 16} {T : Tables} {s : CpuState} {v : IntVec} (hv : 32 ≤ v) :
    (Event.irq v).frame pad T s = s.frame (T.tsEsp0 - 36#32) v 0 := by
  have ha : v ≠ T_ALIGN := by
    rintro rfl
    exact absurd hv (by decide)
  exact if_neg ha

theorem isIrq_frame {s : CpuState} {oesp : Word} {v : IntVec} (hv : 32 ≤ v ∧ v ≤ 47) :
    (s.frame oesp v 0).IsIrq := by
  unfold Trapframe.IsIrq CpuState.frame IRQ_OFFSET IRQ_TIMER IRQ_OFFSET_HANDLE_MAX
  obtain ⟨hlo, hhi⟩ := hv
  have hlo' : 32 ≤ v.val := hlo
  have hhi' : v.val ≤ 47 := hhi
  have hw : (BitVec.ofNat 32 v.val).toNat = v.val := by
    rw [BitVec.toNat_ofNat]
    omega
  constructor <;> rw [BitVec.le_def, hw] <;>
    simp only [BitVec.toNat_add, BitVec.toNat_ofNat] <;> omega

/-- An interrupt is a sound step, and the environment it stops is not freed. -/
theorem sound_irq (hcur : m.k.cpuEnv c = some cur) (hd : (m.k.envs cur).envStatus ≠ ENV_DYING)
    (hirq : tf.IsIrq) : Sound m (.trap c tf cr2 input) := by
  have hsys : ¬ tf.IsSyscall := by
    intro hsys
    unfold Trapframe.IsIrq at hirq
    rw [hsys] at hirq
    exact absurd hirq (by decide)
  intro cur' hcur'
  obtain rfl : cur = cur' := Option.some.inj (hcur.symm.trans hcur')
  refine ⟨fun _ h => (hsys h).elim, fun c' hc' e he hfree => ?_⟩
  rw [Frees, if_neg hd] at hfree
  rcases hfree with ⟨-, hdoom⟩ | ⟨hsys', -⟩
  · exact hdoom.not_irq hirq
  · exact hsys hsys'

end Frames

end Jos
