import Jos.Smp

/-!
# The page directory in CR3

Whether a CPU can be left with a freed page directory. `env_run` drops the kernel lock before it
loads the new environment's directory, so for a moment the CPU still has the old one in CR3
although the environment is no longer its `cpu_env`. `env_destroy` on another CPU does not look at
CR3: it frees any environment that is not running. It also frees one that is marked `ENV_DYING`
when it is destroyed a second time, and that one may still be running.

`Switched` excludes both. The invariant on top of `SmpInv` is that every CPU has `kern_pgdir` or
the directory of some environment in CR3 (`Cr3Inv`); neither is on `page_free_list`.
-/

namespace Jos

open Lib

/-- The page in a CPU's CR3 is not free. -/
def Cr3Live (k : Kernel) : Prop :=
  ∀ c l, Chain k.phys.ppLink k.phys.pageFreeList l → k.cr3 c ∉ l

/-- No environment is freed that another CPU runs, or that it has left without having switched
to the next one's directory. -/
def Switched (m : Smp) : SmpAct → Prop
  | .trap c tf cr2 input => Sound m (.trap c tf cr2 input) ∧
      ∀ cur, m.k.cpuEnv c = some cur → ∀ c', c' ≠ c → m.phase c' = .switching →
        ∀ e, Frees m.k cur tf e → m.k.dirs e ≠ some (m.k.cr3 c')
  | _ => True

instance (m : Smp) : DecidablePred (Switched m) :=
  SmpAct.decidableEntry (fun _ _ => instDecidableTrue)
    (fun _ _ _ _ => @instDecidableAnd _ _ inferInstance (decidableForallSome _))
    (by rintro (_ | _) <;> trivial)

/-- What is in CR3. -/
structure Cr3Inv (m : Smp) : Prop where
  boot : ∀ c, m.phase c = .boot → m.k.cr3 c = m.k.phys.kernPgdir
  dir : ∀ c, m.k.cr3 c = m.k.phys.kernPgdir ∨ ∃ e, m.k.dirs e = some (m.k.cr3 c)

variable {managed tables : Set Nat} {m m' : Smp} {c : Cpu}

theorem Switched.sound {a : SmpAct} (h : Switched m a) : Sound m a := by
  cases a with
  | trap c tf cr2 input => exact h.1
  | _ => trivial

theorem Cr3Inv.of_grows {k' : Kernel} (h : Cr3Inv m) (hg : Grows managed tables m.k k') :
    Cr3Inv { m with k := k' } := by
  constructor
  · intro c hc
    change k'.cr3 c = k'.phys.kernPgdir
    rw [hg.cr3, hg.kern]
    exact h.boot c hc
  · intro c
    change k'.cr3 c = k'.phys.kernPgdir ∨ ∃ e, k'.dirs e = some (k'.cr3 c)
    rw [hg.cr3, hg.kern]
    refine (h.dir c).imp id fun ⟨e, he⟩ => ⟨e, ?_⟩
    rw [hg.dirs e (by simp [he])]
    exact he

theorem Cr3Inv.setPhase {k' : Kernel} {p : CpuPhase} (h : Cr3Inv m)
    (hg : Grows managed tables m.k k') (hp : p ≠ .boot) : Cr3Inv (m.setPhase c p k') := by
  have hg' := h.of_grows hg
  refine ⟨fun c' hc' => ?_, hg'.dir⟩
  simp only [Smp.setPhase] at hc'
  by_cases hc : c' = c
  · subst hc
    rw [Function.update_self] at hc'
    exact (hp hc').elim
  · rw [Function.update_of_ne hc] at hc'
    exact hg'.boot c' hc'

theorem phase_finish {exit : Exit} (hf : m.finish c exit = some m') :
    (∀ c', c' ≠ c → m'.phase c' = m.phase c') ∧ m'.phase c ≠ .boot := by
  cases exit with
  | run k e =>
    obtain rfl := Option.some.inj hf
    exact ⟨fun c' hc => Function.update_of_ne hc _ _, by simp [Smp.setPhase]⟩
  | monitor k =>
    obtain rfl := Option.some.inj hf
    exact ⟨fun c' hc => Function.update_of_ne hc _ _, by simp [Smp.setPhase]⟩
  | panic msg => cases hf

/-- A kernel entry frees no directory that another CPU has loaded. -/
theorem Cr3Inv.entry {cur : EnvIdx} {gone : EnvIdx → Prop} (h : Cr3Inv m)
    (hk : Keeps managed tables c cur gone m.k m'.k)
    (hphase : (∀ c', c' ≠ c → m'.phase c' = m.phase c') ∧ m'.phase c ≠ .boot)
    (hown : m.k.cr3 c = m.k.phys.kernPgdir ∨ m.k.dirs cur = some (m.k.cr3 c))
    (hgone : ∀ c' e, c' ≠ c → m.k.dirs e = some (m.k.cr3 c') → ¬ gone e) : Cr3Inv m' := by
  constructor
  · intro c' hc'
    have hne : c' ≠ c := by
      rintro rfl
      exact hphase.2 hc'
    rw [(hk.cpu c' hne).2, hk.kern]
    exact h.boot c' ((hphase.1 c' hne).symm.trans hc')
  · intro c'
    by_cases hne : c' = c
    · subst hne
      rw [hk.kern]
      rcases hk.own with ⟨hcr3, hdir⟩ | hcr3
      · rw [hcr3]
        refine hown.imp id fun hd => ⟨cur, ?_⟩
        rw [hdir]
        exact hd
      · exact .inl hcr3
    · rw [(hk.cpu c' hne).2, hk.kern]
      refine (h.dir c').imp id fun ⟨e, he⟩ => ⟨e, ?_⟩
      rw [(hk.dirs e (by simp [he])).resolve_left (hgone c' e hne he)]
      exact he

theorem KInv.dir_ne_kern {k : Kernel} (h : KInv managed tables k) {e : EnvIdx} :
    k.dirs e ≠ some k.phys.kernPgdir := by
  obtain ⟨free, hm⟩ := h.mem
  exact hm.pinv.target_ne_kern (.dir e)

theorem KInv.dir_inj {k : Kernel} (h : KInv managed tables k) {e e' : EnvIdx} {d : Nat}
    (hd : k.dirs e = some d) (hd' : k.dirs e' = some d) : e = e' := by
  obtain ⟨free, hm⟩ := h.mem
  exact hm.pinv.dir_inj hd hd'

theorem Cr3Inv.trap {tf : Trapframe} {cr2 input : Word} (h : Cr3Inv m)
    (hinv : SmpInv managed tables m) (hs : Switched m (.trap c tf cr2 input))
    (hstep : m.step (.trap c tf cr2 input) = some m') : Cr3Inv m' := by
  obtain ⟨cur, hcur, hdir, hfree, hp, -, hk⟩ := hinv.trap hs.1 hstep
  obtain ⟨-, hsound⟩ := hs.1 cur hcur
  obtain ⟨exit, hfin⟩ : ∃ exit, m.finish c exit = some m' := by
    cases step_cases hstep with
    | trap hlock hphase hcs hcur' hfin => exact ⟨_, hfin⟩
  refine h.entry hk (phase_finish hfin) (.inr hdir) fun c' e hne he hgone => ?_
  -- by the phase of the other CPU
  cases hp' : m.phase c' with
  | boot =>
    rw [h.boot c' hp'] at he
    exact hinv.kinv.dir_ne_kern he
  | running => exact (hfree c').1 hp'
  | switching => exact hs.2 cur hcur c' hne hp' e hgone he
  | loaded =>
    obtain ⟨e', he', hd'⟩ := hinv.cpu c' (.inl hp')
    exact hsound c' hne e' he' (hinv.kinv.dir_inj he hd' ▸ hgone)
  | user =>
    obtain ⟨e', he', hd'⟩ := hinv.cpu c' (.inr hp')
    exact hsound c' hne e' he' (hinv.kinv.dir_inj he hd' ▸ hgone)
  | monitor => exact (hfree c').2 hp'

/-- **One step.** -/
theorem Cr3Inv.step {a : SmpAct} (h : Cr3Inv m) (hinv : SmpInv managed tables m)
    (hs : Switched m a) (hstep : m.step a = some m') : Cr3Inv m' := by
  have hinv' := hinv.step hs.sound hstep
  cases step_cases hstep with
  | create hboot hk => exact h.of_grows (hinv.kinv.create hk)
  | region hboot hva hk => exact h.of_grows (hinv.kinv.region hva hk)
  | @start c _ hlock hphase hfirst hfin =>
    obtain ⟨hp, -, hk⟩ := hinv.start hstep
    exact h.entry hk (phase_finish hfin) (.inl (h.boot c hp)) fun _ _ _ _ => id
  | trap hlock hphase hcs hcur hfin => exact h.trap hinv hs hstep
  | unlock hphase => exact h.setPhase ⟨hinv.kinv, rfl, fun _ _ => rfl, rfl, rfl⟩ (by decide)
  | @lcr3 c _ hphase hk =>
    obtain ⟨e, d, he, hd, rfl⟩ := lcr3Curenv_ok hk
    constructor
    · intro c' hc'
      by_cases hc : c' = c
      · subst hc
        simp [Smp.setPhase] at hc'
      · simp only [Smp.setPhase, Kernel.lcr3, Function.update_of_ne hc] at hc' ⊢
        exact h.boot c' hc'
    · intro c'
      by_cases hc : c' = c
      · subst hc
        simp only [Smp.setPhase, Kernel.lcr3, Function.update_self]
        exact .inr ⟨e, hd⟩
      · simp only [Smp.setPhase, Kernel.lcr3, Function.update_of_ne hc]
        exact h.dir c'
  | @iret c hphase =>
    obtain ⟨e, he, hd⟩ := hinv.cpu c (.inl hphase)
    refine h.setPhase (hinv.kinv.popTf fun e' he' => ?_) (by decide)
    rw [he, Option.some.injEq] at he'
    subst he'
    rw [hd]
    exact Option.some_ne_none _
  | store hphase hva hp => exact h.of_grows ⟨hinv'.kinv, rfl, fun _ _ => rfl, rfl, rfl⟩
  | touch hphase hva hp => exact h.of_grows ⟨hinv'.kinv, rfl, fun _ _ => rfl, rfl, rfl⟩

/-- Neither `kern_pgdir` nor the directory of an environment is free. -/
theorem Cr3Inv.live (h : Cr3Inv m) (hinv : SmpInv managed tables m) : Cr3Live m.k := by
  obtain ⟨free, hm⟩ := hinv.kinv.mem
  intro c l hl hmem
  obtain rfl := hl.unique hm.pinv.chain
  rcases h.dir c with hc | ⟨e, he⟩
  · rw [hc] at hmem
    exact hm.pinv.kern (hm.pinv.free_managed hmem)
  · exact hm.pinv.not_mem_free (s := .dir e) he hmem

/-- **A loaded page directory is not freed**, in any run in which an environment is freed only while
no other CPU is between `unlock_kernel` and `lcr3` with its page directory still in CR3. Outside
that window the directory in CR3 is that of `cpu_env` or the kernel's. -/
theorem loaded_dir_live {l : List SmpAct} (hboot : Boots managed tables m)
    (hrun : RunWhile Switched Smp.step m l m') : Cr3Live m'.k := by
  have hinit : SmpInv managed tables m ∧ Cr3Inv m :=
    ⟨hboot.smpInv, ⟨fun c _ => hboot.cr3 c, fun c => .inl (hboot.cr3 c)⟩⟩
  have h : SmpInv managed tables m' ∧ Cr3Inv m' := by
    apply hrun.invariant (P := fun m => SmpInv managed tables m ∧ Cr3Inv m) hinit
    intro t a u ht ha hstep
    exact ⟨ht.1.step ha.sound hstep, ht.2.step ht.1 ha hstep⟩
  exact h.2.live h.1

/-- The child waits for a message, and CPU 1 has released the lock to idle. -/
def blockActs : List SmpAct :=
  childActs ++ [.trap 1 (sysTf SYS_ipc_recv IPC_NO_PAGE 0 0 0 0) 0 0, .unlock 1]

/-- CPU 1 switches before the parent destroys the child. -/
def lateDestroyActs : List SmpAct :=
  blockActs ++ [.lcr3 1, .trap 0 (sysTf SYS_env_destroy 0x1009#32 0 0 0 0) 0 0]

theorem loaded_dir_live_late : Boots (Set.Icc 1 40) ∅ freshSmp ∧
    ∃ m, RunWhile Switched Smp.step freshSmp lateDestroyActs m ∧
      (m.k.envs 9).envStatus = ENV_FREE ∧ Cr3Live m.k := by
  have hcomp : ((lateDestroyActs.foldlM (guardedStep Switched Smp.step) freshSmp).map
      fun m => (m.k.envs 9).envStatus) = some ENV_FREE := by decide +kernel
  obtain ⟨m, hm, hst⟩ := Option.map_eq_some_iff.1 hcomp
  have hrun := RunWhile.of_foldlM hm
  exact ⟨boots_freshSmp, m, hrun, hst, loaded_dir_live boots_freshSmp hrun⟩

/-- The parent destroys the child before CPU 1 switches. -/
def earlyDestroyActs : List SmpAct :=
  blockActs ++ [.trap 0 (sysTf SYS_env_destroy 0x1009#32 0 0 0 0) 0 0]

theorem loaded_dir_freed : Boots (Set.Icc 1 40) ∅ freshSmp ∧
    ∃ m, Run Smp.step freshSmp earlyDestroyActs m ∧ m.phase 1 = .switching ∧ ¬ Cr3Live m.k := by
  have hcomp : ((earlyDestroyActs.foldlM (guardedStep (fun _ _ => True) Smp.step) freshSmp).map
      fun m => (m.phase 1, (Chain.follow m.k.phys.ppLink 40 m.k.phys.pageFreeList).map
        fun l => decide (m.k.cr3 1 ∈ l))) = some (.switching, some true) := by decide +kernel
  obtain ⟨m, hm, hfacts⟩ := Option.map_eq_some_iff.1 hcomp
  obtain ⟨hphase, hlist⟩ := Prod.mk.inj hfacts
  obtain ⟨l, hl, hmem⟩ := Option.map_eq_some_iff.1 hlist
  exact ⟨boots_freshSmp, m, RunWhile.of_foldlM hm, hphase, fun hlive =>
    hlive 1 l (Chain.of_follow hl) (of_decide_eq_true hmem)⟩

end Jos
