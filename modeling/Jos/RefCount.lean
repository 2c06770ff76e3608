import Jos.FiniteMap
import Jos.Smp
import Jos.Validation

/-!
# Reference counts over system calls

**Theorem (`refs_exact`).** Take any run of system calls and interrupts from boot, on all CPUs,
whose `perm` arguments lie inside `PTE_SYSCALL` and in which no call makes another mapping of a page
that already has 65535 references. In every state it reaches, `pp_ref` is the number of references
to the page, so no increment has wrapped and no decrement was applied to 0, and no page on
`page_free_list` is mapped.

The last condition is not checked anywhere: `pp_ref` has 16 bits, and one environment has almost a
million pages below `UTOP`. A program that maps one page of its own 65535 times more brings the
counter back to 0 (`refs_wrap`).

**Invariant.** Which environments are alive does not matter here. `SlotInv` is the memory invariant,
and that the slots on `env_free_list` have no page directory; it holds even when an environment is
freed that still runs on another CPU.
-/

namespace Jos

open Lib

/-! ## The property and the runs -/

/-- The counters are the numbers of references, and no free page is mapped. -/
structure RefsExact (managed tables : Set Nat) (k : Kernel) : Prop where
  ref_eq : ∀ p ∈ managed, (k.phys.ppRef p).toNat = kernRefs tables p + userRefs k p
  ref_ne_zero : ∀ s p, target k.phys k.dirs s = some p → k.phys.ppRef p ≠ 0
  not_free : ∀ l, Chain k.phys.ppLink k.phys.pageFreeList l →
    ∀ x, Present (vm k.phys k.dirs x) → PGNUM (vm k.phys k.dirs x) ∉ l

/-- The `perm` argument lies inside `PTE_SYSCALL`. -/
def Call.PermInside (x : Call) : Prop :=
  (x.no = SYS_page_alloc → x.a3 &&& ~~~PTE_SYSCALL = 0) ∧
    (x.no = SYS_page_map → x.a5 &&& ~~~PTE_SYSCALL = 0) ∧
    (x.no = SYS_ipc_try_send → x.a4 &&& ~~~PTE_SYSCALL = 0)

instance (x : Call) : Decidable x.PermInside := by unfold Call.PermInside; infer_instance

/-- What the runs consist of: booting, system calls and interrupts, but no access of user code to
its memory. -/
def SmpAct.IsCall : SmpAct → Prop
  | .trap _ tf _ _ => tf.tfTrapno ≠ T_PGFLT ∧ (tf.IsSyscall → tf.call.PermInside)
  | .store _ _ _ => False
  | .touch _ _ _ => False
  | _ => True

instance (a : SmpAct) : Decidable a.IsCall :=
  match a with
  | .trap _ tf _ _ =>
    inferInstanceAs (Decidable (tf.tfTrapno ≠ T_PGFLT ∧ (tf.IsSyscall → tf.call.PermInside)))
  | .store _ _ _ | .touch _ _ _ => instDecidableFalse
  | .create _ _ | .region _ _ _ | .start _ | .unlock _ | .lcr3 _ | .iret _ => instDecidableTrue

/-- The call makes no other mapping of a page that has 65535 references. -/
def RefRoom (k : Kernel) (cur : EnvIdx) (x : Call) : Prop :=
  (x.no = SYS_page_map → ∀ y, mapTarget k cur x.a1 x.a2 x.a3 x.a4 x.a5 = some y →
      named (vm k.phys k.dirs (y.1, PDX x.a4, PTX x.a4)) = some y.2 ∨
        k.phys.ppRef y.2 ≠ 65535#16) ∧
    (x.no = SYS_ipc_try_send → SendOk k cur x.a1 x.a3 x.a4)

instance (k : Kernel) (cur : EnvIdx) (x : Call) : Decidable (RefRoom k cur x) := by
  unfold RefRoom; infer_instance

/-- A step of the runs, with room in the counters. -/
def CallStep (m : Smp) : SmpAct → Prop
  | .trap c tf cr2 input => (SmpAct.trap c tf cr2 input).IsCall ∧
      ∀ cur, m.k.cpuEnv c = some cur → (m.k.envs cur).envStatus ≠ ENV_DYING → tf.IsSyscall →
        RefRoom m.k cur tf.call
  | a => a.IsCall

instance (m : Smp) (a : SmpAct) : Decidable (CallStep m a) :=
  match a with
  | .trap _ _ _ _ => @instDecidableAnd _ _ inferInstance (decidableForallSome _)
  | .store _ _ _ | .touch _ _ _ => instDecidableFalse
  | .create _ _ | .region _ _ _ | .start _ | .unlock _ | .lcr3 _ | .iret _ => instDecidableTrue

theorem CallStep.isCall {m : Smp} {a : SmpAct} (h : CallStep m a) : a.IsCall := by
  cases a with
  | trap c tf cr2 input => exact h.1
  | _ => exact h

/-! ## The invariant -/

structure SlotInv (managed tables : Set Nat) (k : Kernel) : Prop where
  mem : KMem managed tables k
  slots : FreeSlots k

variable {managed tables : Set Nat} {c : Cpu} {cur e : EnvIdx} {k k' : Kernel} {x : Call} {r : Word}

theorem SlotInv.refsExact (h : SlotInv managed tables k) : RefsExact managed tables k := by
  obtain ⟨free, hm⟩ := h.mem
  have hexact : ∀ p ∈ managed, (k.phys.ppRef p).toNat =
      kernRefs tables p + refs (target k.phys k.dirs) p := by
    intro p hp
    have href : k.phys.ppRef p = BitVec.ofNat 16 (kernRefs tables p +
      refs (target k.phys k.dirs) p) := hm.pinv.valid.ref_eq p hp
    rw [href, BitVec.toNat_ofNat]
    exact Nat.mod_eq_of_lt (hm.noWrap p)
  refine ⟨fun p hp => ?_, fun s p hs h0 => ?_, fun l hl y hy => ?_⟩
  · rw [hexact p hp, hm.pinv.refs_eq]
  · have hpos : 0 < refs (target k.phys k.dirs) p := refs_pos hs
    have hp : p ∈ managed := hm.pinv.valid.tgt_mem s p hs
    have heq := hexact p hp
    rw [h0, show (0 : BitVec 16).toNat = 0 from rfl] at heq
    omega
  · obtain ⟨e, i, j⟩ := y
    have htgt : target k.phys k.dirs (.pte e i j) = some (PGNUM (vm k.phys k.dirs (e, i, j))) :=
      named_of_present hy
    rw [hl.unique hm.pinv.chain]
    exact hm.pinv.not_mem_free htgt

theorem FreeSlots.congr (h : FreeSlots k) (hlist : k'.envFreeList = k.envFreeList)
    (hdirs : k'.dirs = k.dirs) (hlink : ∀ e, (k'.envs e).envLink = (k.envs e).envLink) :
    FreeSlots k' := by
  unfold FreeSlots
  rw [hlist, hdirs, show (fun e => (k'.envs e).envLink) = fun e => (k.envs e).envLink from
    funext hlink]
  exact h

namespace SlotInv

theorem setEnv (h : SlotInv managed tables k) {f : Env → Env}
    (hdir : (f (k.envs e)).envPgdir = (k.envs e).envPgdir)
    (hlink : (f (k.envs e)).envLink = (k.envs e).envLink) :
    SlotInv managed tables (k.setEnv e f) := by
  have hsame : ∀ {β : Type} (g : Env → β), g (f (k.envs e)) = g (k.envs e) → ∀ e',
      g ((k.setEnv e f).envs e') = g (k.envs e') := by
    intro β g hg e'
    unfold Kernel.setEnv
    by_cases he : e' = e
    · subst he
      simp only [Function.update_self, hg]
    · simp only [Function.update_of_ne he]
  have hdirs : (k.setEnv e f).dirs = k.dirs := funext (hsame Env.envPgdir hdir)
  exact ⟨h.mem.congr rfl hdirs, h.slots.congr rfl hdirs (hsame Env.envLink hlink)⟩

theorem setPhys (h : SlotInv managed tables k) (hmem : KMem managed tables k')
    (hk : k' = { k with phys := k'.phys }) : SlotInv managed tables k' := by
  refine ⟨hmem, h.slots.congr ?_ ?_ fun e => ?_⟩
  · rw [hk]
  · rw [hk]
    rfl
  · rw [hk]

theorem setCurenv (h : SlotInv managed tables k) (v : Option EnvIdx) :
    SlotInv managed tables (k.setCurenv c v) :=
      ⟨h.mem.congr rfl rfl, h.slots.congr rfl rfl fun _ => rfl⟩

theorem envFree (h : SlotInv managed tables k) (hfree : envFree k c e = .ok k') :
    SlotInv managed tables k' := by
  obtain ⟨hmem, hd, -, hdirs, -⟩ := h.mem.envFree hfree
  exact ⟨hmem, h.slots.envFree hd hfree hdirs⟩

theorem allocated (h : SlotInv managed tables k) {child : EnvIdx} {p : Nat} {env : Env}
    (hhead : k.envFreeList = some child) (hp : k.phys.pageFreeList = some p)
    (hdir : env.envPgdir = some p) : SlotInv managed tables (Jos.allocated k child p env) := by
  obtain ⟨hmem, -, hdirs, -⟩ := h.mem.allocated (h.slots.head hhead) hp hdir
  exact ⟨hmem, h.slots.allocated hhead hdirs⟩

end SlotInv

/-- `sys_exofork`, also for a caller that has been freed and whose own slot is used again. -/
theorem sysExofork_allocated (h : sysExofork k cur = .ok (r, k')) :
    k' = k ∨ ∃ child p env, k.envFreeList = some child ∧ k.phys.pageFreeList = some p ∧
      env.envPgdir = some p ∧ k' = allocated k child p env := by
  unfold sysExofork at h
  obtain ⟨⟨res, k₁⟩, hal, hret⟩ := bind_eq_ok.1 h
  rw [orPanic_ok] at hal
  rcases envAlloc_ok hal with ⟨r₁, rfl, rfl⟩ | ⟨child, p, rfl, hfl, hpf, rfl⟩
  · cases hret
    exact .inl rfl
  have hk' : exoforkChild (allocated k child p (newEnv k (k.envs cur).envId child p)) cur child =
      k' := by
    simp only [pure_eq_ok] at hret
    split_ifs at hret <;> exact (Prod.ext_iff.1 (Except.ok.inj hret)).2
  refine .inr ⟨child, p, k'.envs child, hfl, hpf, ?_, ?_⟩
  · rw [← hk']
    simp [exoforkChild, Kernel.setEnv, allocated, newEnv]
  · rw [← hk']
    simp [exoforkChild, Kernel.setEnv, allocated]

/-! ## Kernel entries -/

/-- The calls that map pages do so soundly. -/
theorem RefRoom.callOk (h : RefRoom k cur x) (hperm : x.PermInside) : CallOk k cur x := by
  refine ⟨fun hno y hy => ⟨?_, h.1 hno y hy⟩, h.2⟩
  exact flags_trans (hperm.2.1 hno) (by decide)

namespace SlotInv

/-- **A system call** that returns. -/
theorem sysReturn (h : SlotInv managed tables k) (hok : CallOk k cur x)
    (hret : SysReturn c cur k x r k') : SlotInv managed tables k' := by
  cases hret with
  | same r hno hrecv => exact h
  | pageAlloc hno hx => exact h.setPhys (h.mem.sysPageAlloc hx).inv (sysPageAlloc_phys hx)
  | pageMap hno hx => exact h.setPhys (h.mem.sysPageMap (hok.1 hno) hx).1.inv (sysPageMap_phys hx)
  | pageUnmap hno hx => exact h.setPhys (h.mem.sysPageUnmap hx).inv (sysPageUnmap_phys hx)
  | dying hno hf hr hne => exact h.setEnv rfl rfl
  | free hno hf hr hne hfree => exact h.envFree hfree
  | exofork hno hx =>
    rcases sysExofork_allocated hx with rfl | ⟨child, p, env, hchild, hp, hdir, rfl⟩
    · exact h
    · exact h.allocated hchild hp hdir
  | setStatus hno hf hs => exact h.setEnv rfl rfl
  | setUpcall hno hf => exact h.setEnv rfl rfl
  | send hno hx =>
    have hmem := (h.mem.sysIpcTrySend (dirs_sysIpcTrySend hx) (hok.2 hno) hx).1.inv
    rcases sysIpcTrySend_ok hx with ⟨-, -, rfl⟩ | ⟨uenv, hf, ⟨-, -, rfl⟩ | ⟨-, hsend⟩⟩
    · exact h
    · exact h
    rcases hsend with ⟨-, rfl⟩ | ⟨-, rfl⟩ | ⟨-, hk'⟩
    · exact h
    · exact h.setEnv rfl rfl
    · have h' : SlotInv managed tables (k.setEnv uenv fun _ =>
          delivered k cur uenv x.a2 (sentPerm k uenv x.a3 x.a4)) := h.setEnv rfl rfl
      exact h'.setPhys hmem hk'

theorem schedStart (h : SlotInv managed tables k) (c : Cpu) :
    SlotInv managed tables (schedStart k c).2 := by
  rcases schedStart_snd k c with heq | ⟨cur, -, -, heq⟩
  · rw [heq]
    exact h
  · rw [heq]
    exact h.setEnv rfl rfl

theorem envRun (h : SlotInv managed tables k) : SlotInv managed tables (envRun k c e) := by
  rw [envRun_eq]
  exact ((h.schedStart c).setCurenv (some e)).setEnv rfl rfl

variable {m m' : Smp} {exit : Exit}

/-- What holds at the end of a kernel entry. -/
structure AtExit (managed tables : Set Nat) (exit : Exit) : Prop where
  run : ∀ k e, exit = .run k e → SlotInv managed tables k
  monitor : ∀ k, exit = .monitor k → SlotInv managed tables k

theorem AtExit.finish (ho : AtExit managed tables exit) (hf : m.finish c exit = some m') :
    SlotInv managed tables m'.k := by
  cases exit with
  | run k e =>
    obtain rfl := Option.some.inj hf
    exact (ho.run k e rfl).envRun
  | monitor k =>
    obtain rfl := Option.some.inj hf
    exact ho.monitor k rfl
  | panic msg => cases hf

theorem atExit_sched (h : SlotInv managed tables k) (c : Cpu) :
    AtExit managed tables (schedYield k c) := by
  constructor
  · intro k' e hs
    obtain ⟨rfl, -⟩ := schedYield_run hs
    exact h.schedStart c
  · intro k' hs
    rw [schedYield_monitor hs]
    exact h.schedStart c

theorem atExit_return (h : SlotInv managed tables k) (c : Cpu) :
    AtExit managed tables (trapReturn k c) := by
  unfold trapReturn
  split
  · exact h.atExit_sched c
  · split_ifs
    · refine ⟨fun k' e heq => ?_, nofun⟩
      cases heq
      exact h
    · exact h.atExit_sched c

/-- **A kernel entry** other than a page fault. -/
theorem entry {tf : Trapframe} {cr2 input : Word} (h : SlotInv managed tables k)
    (hpf : tf.tfTrapno ≠ T_PGFLT)
    (hok : (k.envs cur).envStatus ≠ ENV_DYING → tf.IsSyscall → CallOk k cur tf.call)
    (hE : Entry c cur k tf cr2 input exit) : AtExit managed tables exit := by
  have hsave : SlotInv managed tables (k.save cur tf) := h.setEnv rfl rfl
  cases hE with
  | panic msg => exact ⟨nofun, nofun⟩
  | reap hd hfree => exact ((h.envFree hfree).setCurenv none).atExit_sched c
  | destroySelf hd hdoom hfree => exact ((hsave.envFree hfree).setCurenv none).atExit_sched c
  | yield hd hno => exact hsave.atExit_sched c
  | monitor hd hbp =>
    refine ⟨nofun, fun k' heq => ?_⟩
    cases heq
    exact hsave
  | irq hd hirq => exact hsave.atExit_return c
  | recv hd hsys hno hblk =>
    have hblock : SlotInv managed tables (ipcBlock (k.save cur tf) cur tf.call.a1) :=
      hsave.setEnv rfl rfl
    exact hblock.atExit_sched c
  | @call r k' hd hsys hrun hret =>
    have hcall := hsave.sysReturn ((hok hd hsys).save tf) hret
    have heax : SlotInv managed tables (k'.setEax cur r) := hcall.setEnv rfl rfl
    exact heax.atExit_return c
  | fault hd hpf' hst => exact (hpf hpf').elim

/-! ## Runs -/

theorem create {type : EnvType} {eip : Word} (h : SlotInv managed tables k)
    (hx : envCreate k type eip = some k') : SlotInv managed tables k' := by
  unfold envCreate at hx
  split at hx
  · rename_i child k₁ hal
    rcases envAlloc_ok hal with ⟨r, hr, -⟩ | ⟨child', p, hc, hhead, hp, rfl⟩
    · cases hr
    obtain rfl : child = child' := Except.ok.inj hc
    obtain rfl := Option.some.inj hx
    exact (h.allocated hhead hp rfl).setEnv rfl rfl
  · cases hx

/-- **One step.** -/
theorem step {a : SmpAct} (h : SlotInv managed tables m.k) (ha : CallStep m a)
    (hstep : m.step a = some m') : SlotInv managed tables m'.k := by
  cases step_cases hstep with
  | create hboot hk => exact h.create hk
  | region hboot hva hk => exact h.setPhys (h.mem.region hva hk).1 (regionPage_phys hk)
  | @start c _ hlock hphase hfirst hfin => exact (h.atExit_sched c).finish hfin
  | trap hlock hphase hcs hcur hfin =>
    obtain ⟨⟨hpf, hperm⟩, hroom⟩ := ha
    refine (h.entry hpf (fun hd hsys => ?_) (trap_cases hcur)).finish hfin
    exact (hroom _ hcur hd hsys).callOk (hperm hsys)
  | unlock hphase => exact h
  | lcr3 hphase hk =>
    obtain ⟨e, d, -, -, rfl⟩ := lcr3Curenv_ok hk
    exact ⟨h.mem.congr rfl rfl, h.slots.congr rfl rfl fun _ => rfl⟩
  | @iret c hphase =>
    change SlotInv managed tables (envPopTf m.k c)
    unfold envPopTf
    split
    · exact h
    · exact h.setEnv rfl rfl
  | store hphase hva hp => exact ha.elim
  | touch hphase hva hp => exact ha.elim

end SlotInv

variable {m m' : Smp}

theorem Boots.slotInv (h : Boots managed tables m) : SlotInv managed tables m.k :=
  ⟨h.smpInv.kinv.mem, h.smpInv.kinv.tab.free_list⟩

theorem Boots.slotInv_run {l : List SmpAct} (h : Boots managed tables m)
    (hrun : RunWhile CallStep Smp.step m l m') : SlotInv managed tables m'.k :=
  hrun.invariant (P := fun m => SlotInv managed tables m.k) h.slotInv
    fun _ _ _ h ha hstep => h.step ha hstep

theorem trap_syscall {tf : Trapframe} {cr2 input : Word} (hcur : k.cpuEnv c = some cur)
    (hd : (k.envs cur).envStatus ≠ ENV_DYING) (hsys : tf.IsSyscall)
    (hrun : tf.call.run (k.save cur tf) c cur input = .ok (r, k')) :
    trap k c tf cr2 input = trapReturn (k'.setEax cur r) c := by
  have hirq : ¬ tf.IsIrq := not_irq_of_syscall hsys
  have hpf : tf.tfTrapno ≠ T_PGFLT := by
    rw [hsys]
    decide
  have hbp : tf.tfTrapno ≠ T_BRKPT := by
    rw [hsys]
    decide
  rw [trap_alive hcur hd]
  unfold trapDispatch
  simp only [envTf_save]
  rw [if_neg hirq, if_neg hpf, if_neg hbp, if_pos (id hsys : tf.tfTrapno = T_SYSCALL),
    call_save, hrun]
  rfl

/-- What stays when a CPU leaves the kernel. -/
structure SameSpace (k k' : Kernel) : Prop where
  phys : k'.phys = k.phys
  dirs : k'.dirs = k.dirs
  cpuEnv : k'.cpuEnv = k.cpuEnv
  status : ∀ e, (k'.envs e).envStatus = (k.envs e).envStatus

theorem leaveActs_run {m : Smp} {d : Nat} (hphase : m.phase c = .running)
    (hcur : m.k.cpuEnv c = some cur) (hd : m.k.dirs cur = some d) :
    ∃ m', RunWhile (fun _ a => a.IsCall) Smp.step m (leaveActs c) m' ∧
      m'.phase = Function.update m.phase c .user ∧ SameSpace m.k m'.k := by
  have hl : lcr3Curenv m.k c = .ok (m.k.lcr3 c d) := by
    have hd' : (m.k.envs cur).envPgdir = some d := hd
    simp only [lcr3Curenv, hcur, hd']
  have hpop : envPopTf (m.k.lcr3 c d) c = (m.k.lcr3 c d).setEnv cur fun env =>
      { env with envCpunum := c } := by
    have hcur' : (m.k.lcr3 c d).cpuEnv c = some cur := hcur
    simp only [envPopTf, hcur']
  set m₁ := m.setPhase c .switching m.k with hm₁
  set m₂ := m₁.setPhase c .loaded (m.k.lcr3 c d) with hm₂
  set m₃ := m₂.setPhase c .user (envPopTf (m.k.lcr3 c d) c) with hm₃
  have hp₁ : m₁.phase c = .switching := Function.update_self c _ _
  have hp₂ : m₂.phase c = .loaded := Function.update_self c _ _
  have h₁ : m.step (.unlock c) = some m₁ := if_pos hphase
  have h₂ : m₁.step (.lcr3 c) = some m₂ := (SmpStep.lcr3 hp₁ hl).step_eq
  have h₃ : m₂.step (.iret c) = some m₃ := if_pos hp₂
  have hu : (SmpAct.unlock c).IsCall := trivial
  have hr : (SmpAct.lcr3 c).IsCall := trivial
  have hi : (SmpAct.iret c).IsCall := trivial
  refine ⟨m₃, .cons hu h₁ (.cons hr h₂ (.cons hi h₃ .nil)), ?_, ?_⟩
  · funext c'
    by_cases hc : c' = c
    · subst hc
      rw [Function.update_self]
      exact Function.update_self _ _ _
    · simp only [hm₃, hm₂, hm₁, Smp.setPhase, Function.update_of_ne hc]
  · change SameSpace m.k (envPopTf (m.k.lcr3 c d) c)
    rw [hpop]
    refine ⟨rfl, ?_, rfl, fun e => ?_⟩
    · rw [dirs_setEnv]
      exact Function.update_eq_self cur m.k.dirs
    · by_cases he : e = cur
      · subst he
        simp [Kernel.setEnv, Kernel.lcr3]
      · simp [Kernel.setEnv, Kernel.lcr3, he]

theorem phys_envRun (k : Kernel) (c : Cpu) (e : EnvIdx) : (envRun k c e).phys = k.phys := by
  rw [envRun_eq]
  rcases schedStart_snd k c with heq | ⟨cur, -, -, heq⟩
  · rw [heq]
    rfl
  · rw [heq]
    rfl

theorem dirs_envRun (k : Kernel) (c : Cpu) (e : EnvIdx) : (envRun k c e).dirs = k.dirs := by
  rw [envRun_eq, dirs_setEnv, ← dirs_schedStart k c]
  exact Function.update_eq_self e _

/-- A call of a running environment that only changes memory returns to it. -/
theorem callActs_run {m : Smp} {no a1 a2 a3 a4 a5 : Word} {d : Nat} {σ : Phys}
    (hlock : m.LockFree) (hphase : m.phase c = .user) (hcur : m.k.cpuEnv c = some cur)
    (hst : (m.k.envs cur).envStatus = ENV_RUNNING) (hd : m.k.dirs cur = some d)
    (hok : (SmpAct.trap c (sysTf no a1 a2 a3 a4 a5) 0 0).IsCall)
    (hrun : (sysTf no a1 a2 a3 a4 a5).call.run (m.k.save cur (sysTf no a1 a2 a3 a4 a5)) c cur 0 =
      .ok (r, { m.k.save cur (sysTf no a1 a2 a3 a4 a5) with phys := σ })) :
    ∃ m', RunWhile (fun _ a => a.IsCall) Smp.step m (callActs c no a1 a2 a3 a4 a5) m' ∧
      m'.phase = m.phase ∧ m'.k.cpuEnv = m.k.cpuEnv ∧ m'.k.dirs = m.k.dirs ∧ m'.k.phys = σ ∧
      (m'.k.envs cur).envStatus = ENV_RUNNING := by
  set tf := sysTf no a1 a2 a3 a4 a5 with htf
  set k₁ : Kernel := ({ m.k.save cur tf with phys := σ } : Kernel).setEax cur r with hk₁
  have hcur₁ : k₁.cpuEnv c = some cur := hcur
  have hst₁ : (k₁.envs cur).envStatus = ENV_RUNNING := by
    simpa [hk₁, Kernel.setEax, Kernel.save, Kernel.setEnv] using hst
  have hdirs₁ : k₁.dirs = m.k.dirs := by
    rw [hk₁, Kernel.setEax, dirs_setEnv]
    refine (Function.update_eq_self cur _).trans ?_
    exact dirs_save m.k cur tf
  have hd' : (m.k.envs cur).envStatus ≠ ENV_DYING := by
    rw [hst]
    decide
  have htrap : trap m.k c tf 0 0 = .run k₁ cur := by
    have hsys : tf.IsSyscall := rfl
    rw [trap_syscall hcur hd' hsys hrun]
    rcases trapReturn_cases hcur₁ with ⟨-, heq⟩ | ⟨hne, -⟩
    · exact heq
    · exact (hne hst₁).elim
  set k₂ := envRun k₁ c cur with hk₂
  have hdirs₂ : k₂.dirs = m.k.dirs := by
    rw [← hdirs₁, hk₂, dirs_envRun]
  have hcur₂ : k₂.cpuEnv = m.k.cpuEnv := by
    rw [hk₂, envRun_eq]
    refine Eq.trans ?_ (Function.update_eq_self c m.k.cpuEnv)
    change Function.update (schedStart k₁ c).2.cpuEnv c (some cur) = _
    rw [(schedStart_fields k₁ c cur).2.2, hcur]
    rfl
  have hst₂ : (k₂.envs cur).envStatus = ENV_RUNNING := by
    rw [hk₂, envRun_eq]
    simp [Kernel.setEnv]
  have hstep : m.step (.trap c tf 0 0) = some (m.setPhase c .running k₂) := by
    have hcs : tf.tfCs &&& 3 = 3 := by
      change (GD_UT ||| 3) &&& 3 = 3
      decide
    refine (SmpStep.trap hlock hphase hcs hcur ?_).step_eq
    rw [htrap]
    rfl
  have hphase' : (m.setPhase c .running k₂).phase c = .running := Function.update_self c _ _
  have hcur' : (m.setPhase c .running k₂).k.cpuEnv c = some cur := by
    rw [Smp.setPhase, hcur₂]
    exact hcur
  have hdir' : (m.setPhase c .running k₂).k.dirs cur = some d := by
    rw [Smp.setPhase, hdirs₂]
    exact hd
  obtain ⟨m', hleave, hph, hs⟩ := leaveActs_run hphase' hcur' hdir'
  refine ⟨m', .cons hok hstep hleave, ?_, hs.cpuEnv.trans hcur₂,
    hs.dirs.trans hdirs₂, hs.phys.trans (phys_envRun k₁ c cur), (hs.status cur).trans hst₂⟩
  rw [hph]
  funext c'
  by_cases hc : c' = c
  · subst hc
    rw [Function.update_self, hphase]
  · simp only [Smp.setPhase, Function.update_of_ne hc]

/-- A machine with 80 pages for the allocator. -/
def roomyKernel : Kernel :=
  { freshKernel with
    phys := { freshKernel.phys with
      npages := 128
      ppLink := fun p => if p < 80 then some (p + 1) else none
      nAvailPages := 80
      kernPgdir := 90 }
    cr3 := fun _ => 90 }

def roomySmp : Smp := ⟨roomyKernel, fun _ => .boot⟩

theorem boots_roomySmp : Boots (Set.Icc 1 80) ∅ roomySmp where
  mem := by
    obtain ⟨l, hl, hmem⟩ : ∃ l, Chain roomyKernel.phys.ppLink (some 1) l ∧
        ∀ p, p ∈ l ↔ 1 ≤ p ∧ p ≤ 80 := chain_upTo rfl (fun p hp => if_pos hp) 79 1 rfl
    refine ⟨l, hl, fun p => ?_, Set.empty_subset _, fun _ _ => rfl, nofun, fun p hp => ?_, ?_, ?_,
      fun i _ => not_present_zero, fun e => ?_⟩
    · simp [hmem, Set.mem_Icc]
    · have hp' : 1 ≤ p ∧ p ≤ 80 := hp
      change p ≠ 0 ∧ p < 128
      omega
    · decide
    · change ¬ (1 ≤ 90 ∧ 90 ≤ 80)
      omega
    · change (initEnv e).envPgdir = none
      unfold initEnv
      split <;> rfl
  envs _ := rfl
  envFreeList := rfl
  cpuEnv _ := rfl
  cr3 _ := rfl
  phase _ := rfl

/-- The program has started. -/
def readyActs : List SmpAct := bootActs ++ .start 0 :: leaveActs 0

/-- The program maps its page, the 2048th of the address space, at the `n`th page after it. -/
def mapActs (n : Nat) : List SmpAct :=
  callActs 0 SYS_page_map 0 (pageVa 2048) 0 (pageVa (2048 + n)) (PTE_P ||| PTE_U)

/-- The program has mapped its page, which is page 10, at `n` more addresses. -/
structure MappedMem (n : Nat) (σ : Phys) (dirs : EnvIdx → Option Nat) : Prop where
  dir : dirs 8 = some 9
  pinv : ∃ free, PInv (Set.Icc 1 80) (kernRefs ∅) σ dirs free ∅ ∧ 63 ≤ free.length + n / 1024
  pte : ∀ i j : Idx, 2048 ≤ i.val * 1024 + j.val → target σ dirs (.pte 8 i j) =
    if i.val * 1024 + j.val ≤ 2048 + n then some 10 else none
  pde : ∀ i : Idx, 2 + n / 1024 < i.val → target σ dirs (.pde 8 i) = none
  refs : refs (target σ dirs) 10 = n + 1

/-- It runs on CPU 0, and the others have not started. -/
structure Mapped (n : Nat) (m : Smp) : Prop where
  phase : m.phase 0 = .user
  others : ∀ c, c ≠ 0 → m.phase c = .boot
  cpuEnv : m.k.cpuEnv 0 = some 8
  status : (m.k.envs 8).envStatus = ENV_RUNNING
  mem : MappedMem n m.k.phys m.k.dirs

theorem ready_mapped : ∃ m, RunWhile (fun _ a => a.IsCall) Smp.step roomySmp readyActs m ∧
    Mapped 0 m := by
  have hcomp : ((readyActs.foldlM (guardedStep CallStep Smp.step) roomySmp).map fun m =>
      decide (m.phase 0 = .user ∧ (∀ c, c ≠ 0 → m.phase c = .boot) ∧ m.k.cpuEnv 0 = some 8 ∧
        (m.k.envs 8).envStatus = ENV_RUNNING ∧ m.k.dirs 8 = some 9 ∧ m.k.phys.ppRef 10 = 1 ∧
        (Chain.follow m.k.phys.ppLink 100 m.k.phys.pageFreeList).map List.length = some 69 ∧
        (∀ j : Idx, target m.k.phys m.k.dirs (.pte 8 2 j) = if j = 0 then some 10 else none) ∧
        ∀ i : Idx, 2 < i → target m.k.phys m.k.dirs (.pde 8 i) = none)) = some true := by
    decide +kernel
  obtain ⟨m, hm, hfacts⟩ := Option.map_eq_some_iff.1 hcomp
  obtain ⟨hphase, hothers, hcpu, hst, hdir, href, hlen, hpte, hpde⟩ := of_decide_eq_true hfacts
  have hrun := RunWhile.of_foldlM hm
  have hinv := boots_roomySmp.slotInv_run hrun
  have hexact := hinv.refsExact
  obtain ⟨free, hm⟩ := hinv.mem
  have h10 : target m.k.phys m.k.dirs (.pte 8 2 0) = some 10 := hpte 0
  refine ⟨m, hrun.mono fun _ _ => CallStep.isCall, hphase, hothers, hcpu, hst, hdir,
    ⟨free, hm.pinv, ?_⟩, fun i j hij => ?_, hpde, ?_⟩
  · obtain ⟨l, hl, hlen⟩ := Option.map_eq_some_iff.1 hlen
    rw [hm.pinv.chain.unique (Chain.of_follow hl), hlen]
    omega
  · by_cases hi : i = 2
    · subst hi
      rw [hpte j]
      have hj : j = 0 ↔ (2 : Idx).val * 1024 + j.val ≤ 2048 + 0 := by
        rw [Fin.ext_iff]
        change j.val = 0 ↔ 2 * 1024 + j.val ≤ 2048
        omega
      simp only [hj]
    · have hi' : 2 < i.val := by
        have hne : i.val ≠ 2 := fun hc => hi (Fin.ext hc)
        omega
      rw [target_pte_absent (hpde i hi'), if_neg]
      omega
  · have heq := hexact.ref_eq 10 (hm.pinv.valid.tgt_mem (.pte 8 2 0) 10 h10)
    rw [href, kernRefs_empty, ← hm.pinv.refs_eq] at heq
    simpa using heq.symm

theorem addrOk_pageVa {n : Nat} (hn : n < 955 * 1024) : AddrOk (pageVa n) := by
  refine ⟨pageVa_lt hn, ?_⟩
  apply BitVec.eq_of_toNat_eq
  rw [PGOFF, BitVec.toNat_and, toNat_pageVa (by omega)]
  change n * 4096 &&& 2 ^ 12 - 1 = 0
  rw [Nat.and_two_pow_sub_one_eq_mod]
  omega

theorem sysPageMap_own {srcva dstva perm : Word} {d p : Nat} {pte : PtePtr} {σ : Phys}
    (hsrc : AddrOk srcva) (hdst : AddrOk dstva)
    (hd : k.dirs cur = some d) (hl : pageLookup k.phys d srcva = .ok (some (p, pte)))
    (hperm : perm &&& PTE_W = 0) (hins : pageInsert k.phys d (some p) dstva perm = .ok (r, σ)) :
    sysPageMap k cur 0 srcva 0 dstva perm = .ok (r, { k with phys := σ }) := by
  have hself : ∀ b, envid2env k cur 0 b = some cur := by
    intro b
    simp [envid2env]
  rw [sysPageMap_of_source (hself true) (hself false) hd hd hsrc hdst hl fun hw => hw.2 hperm, hins]
  rfl

theorem MappedMem.target_pageVa {n i : Nat} {σ : Phys} {dirs : EnvIdx → Option Nat}
    (h : MappedMem n σ dirs) (hlow : 2048 ≤ i) (hi : i ≤ 2048 + n) (hlt : i < 2 ^ 20) :
    target σ dirs (.pte 8 (PDX (pageVa i)) (PTX (pageVa i))) = some 10 := by
  have hpdx := PDX_pageVa hlt
  have hptx := PTX_pageVa hlt
  rw [h.pte _ _ (by omega), if_pos (by omega)]

/-- **One more mapping**, in memory. -/
theorem MappedMem.insert {n : Nat} {σ : Phys} {dirs : EnvIdx → Option Nat} (h : MappedMem n σ dirs)
    (hn : n < 65535) :
    ∃ pte σ', pageLookup σ 9 (pageVa 2048) = .ok (some (10, pte)) ∧
      pageInsert σ 9 (some 10) (pageVa (2048 + (n + 1))) (PTE_P ||| PTE_U) = .ok (0, σ') ∧
      MappedMem (n + 1) σ' dirs := by
  obtain ⟨free, hp, hlen⟩ := h.pinv
  set va := pageVa (2048 + (n + 1)) with hva
  have hpdx : (PDX va).val = (2048 + (n + 1)) / 1024 := PDX_pageVa (by omega)
  have hptx : (PTX va).val = (2048 + (n + 1)) % 1024 := PTX_pageVa (by omega)
  have hkey : (PDX va).val * 1024 + (PTX va).val = 2048 + (n + 1) := by omega
  have hslots : ∀ i j i', Slot.pte 8 i j ≠ Slot.pde 8 i' := fun _ _ _ => nofun
  have hsrc : target σ dirs (.pte 8 (PDX (pageVa 2048)) (PTX (pageVa 2048))) = some 10 :=
    h.target_pageVa (by omega) (by omega) (by omega)
  have hnone : target σ dirs (.pte 8 (PDX va) (PTX va)) = none := by
    rw [h.pte _ _ (by omega), if_neg (by omega)]
  -- a page table is only missing for the first of its 1024 pages
  have hfirst : target σ dirs (.pde 8 (PDX va)) = none → (n + 1) % 1024 = 0 := by
    intro hpde
    by_contra hne
    have habs : target σ dirs (.pte 8 (PDX va) 0) = none := target_pte_absent hpde 0
    have hzero : (0 : Idx).val = 0 := rfl
    rw [h.pte _ _ (by omega), if_pos (by omega)] at habs
    cases habs
  have hmem : 10 ∈ Set.Icc 1 80 := by
    constructor <;> omega
  have hperm : PTE_ADDR (PTE_P ||| PTE_U) = 0 := by decide
  obtain ⟨pt, -, hl⟩ := hp.lookup_some h.dir (PDX_user (pageVa_lt (by omega))) hsrc
  have huser : (PDX va).User := PDX_user (pageVa_lt (by omega))
  rcases hp.insert h.dir huser hmem (hp.not_mem_free hsrc) hperm
    (fun q hq => by rw [hnone] at hq; cases hq) with ⟨hfr, hpde, -⟩ | ⟨σ', free', hins, hI⟩
  · have := hfirst hpde
    rw [hfr, List.length_nil] at hlen
    omega
  obtain ⟨pt', htgt, hpt'⟩ := hI.tgt
  refine ⟨_, σ', hl, hins, h.dir, ⟨free', ?_, ?_⟩, fun i j hij => ?_, fun i hi => ?_, ?_⟩
  · simpa using hI.inv
  · rw [hI.free_eq hnone]
    split_ifs with hpde
    · have := hfirst hpde
      rw [List.length_tail]
      omega
    · omega
  · rw [htgt]
    by_cases hat : i = PDX va ∧ j = PTX va
    · obtain ⟨rfl, rfl⟩ := hat
      rw [Function.update_self, if_pos (by omega)]
    · have hne : i.val * 1024 + j.val ≠ 2048 + (n + 1) := fun hc =>
        hat ⟨Fin.ext (by omega), Fin.ext (by omega)⟩
      have hiff : i.val * 1024 + j.val ≤ 2048 + n ↔ i.val * 1024 + j.val ≤ 2048 + (n + 1) := by
        omega
      rw [Function.update_of_ne (by simpa using hat), Function.update_of_ne (hslots _ _ _),
        h.pte i j hij]
      simp only [hiff]
  · have hne : i ≠ PDX va := by
      rintro rfl
      omega
    rw [htgt, Function.update_of_ne (hslots _ _ _).symm, Function.update_of_ne (by simpa using hne)]
    exact h.pde i (by omega)
  · rw [htgt, refs_update_self]
    · rw [Nat.add_right_cancel_iff, ← h.refs]
      rcases hpt' with hpt' | ⟨habs, hfr⟩
      · rw [← hpt', Function.update_eq_self]
      · refine refs_update_of_ne (by rw [habs]; nofun) ?_
        rintro ⟨⟩
        exact hp.not_mem_free hsrc hfr
    · rw [Function.update_of_ne (hslots _ _ _)]
      exact hnone

/-- **One more mapping**, by a system call. -/
theorem Mapped.map {n : Nat} {m : Smp} (h : Mapped n m) (hn : n < 65535) :
    ∃ m', RunWhile (fun _ a => a.IsCall) Smp.step m (mapActs (n + 1)) m' ∧ Mapped (n + 1) m' := by
  set va := pageVa (2048 + (n + 1)) with hva
  set tf := sysTf SYS_page_map 0 (pageVa 2048) 0 va (PTE_P ||| PTE_U) with htf
  obtain ⟨pte, σ', hl, hins, hmem⟩ := h.mem.insert hn
  have hlock : m.LockFree := by
    intro c
    by_cases hc : c = 0
    · subst hc
      rw [h.phase]
      exact ⟨nofun, nofun⟩
    · rw [h.others c hc]
      exact ⟨nofun, nofun⟩
  have hcall : (SmpAct.trap 0 tf 0 0).IsCall := by
    have hpf : T_SYSCALL ≠ T_PGFLT := by decide
    have hal : SYS_page_map ≠ SYS_page_alloc := by decide
    have hsend : SYS_page_map ≠ SYS_ipc_try_send := by decide
    have hin : (PTE_P ||| PTE_U) &&& ~~~PTE_SYSCALL = 0 := by decide
    exact ⟨hpf, fun _ => ⟨fun hno => (hal hno).elim, fun _ => hin, fun hno => (hsend hno).elim⟩⟩
  have hrun : tf.call.run (m.k.save 8 tf) 0 8 0 = .ok (0, { m.k.save 8 tf with phys := σ' }) := by
    have hmap : sysPageMap (m.k.save 8 tf) 8 0 (pageVa 2048) 0 va (PTE_P ||| PTE_U) =
        .ok (0, { m.k.save 8 tf with phys := σ' }) :=
      sysPageMap_own (addrOk_pageVa (by omega)) (addrOk_pageVa (by omega))
        (by rw [dirs_save]; exact h.mem.dir) hl (by decide) hins
    change orPanic (sysPageMap (m.k.save 8 tf) 8 0 (pageVa 2048) 0 va (PTE_P ||| PTE_U)) = _
    rw [hmap]
    rfl
  obtain ⟨m', hm', hphase, hcpu, hdirs, hphys, hst⟩ :=
    callActs_run hlock h.phase h.cpuEnv h.status h.mem.dir hcall hrun
  refine ⟨m', hm', ?_, fun c hc => ?_, ?_, hst, ?_⟩
  · rw [hphase]
    exact h.phase
  · rw [hphase]
    exact h.others c hc
  · rw [hcpu]
    exact h.cpuEnv
  · rw [hphys, hdirs]
    exact hmem

/-- All the mappings of the loop. -/
def wrapActs (n : Nat) : List SmpAct :=
  readyActs ++ (List.range n).flatMap fun i => mapActs (i + 1)

theorem wrapActs_mapped {n : Nat} (hn : n ≤ 65535) :
    ∃ m, RunWhile (fun _ a => a.IsCall) Smp.step roomySmp (wrapActs n) m ∧ Mapped n m := by
  induction n with
  | zero =>
    obtain ⟨m, hrun, hm⟩ := ready_mapped
    exact ⟨m, by simpa [wrapActs] using hrun, hm⟩
  | succ n ih =>
    obtain ⟨m, hrun, hm⟩ := ih (by omega)
    obtain ⟨m', hrun', hm'⟩ := hm.map (by omega)
    refine ⟨m', ?_, hm'⟩
    rw [wrapActs, List.range_succ, List.flatMap_append, ← List.append_assoc]
    exact hrun.append (by simpa using hrun')

end Jos
