import Jos.Cpus
import Jos.Lib.Circular

/-!
# The scheduler

What `sched_yield` picks, and what many calls of it pick.

**One call.** Seen from CPU `c` the slots stand in a circle that starts just after `cpu_env`, at
slot zero if there is none (`turn`). `SchedCorrect` says that the scheduler runs the first runnable
environment in this order, that it falls back to the slot of the CPU or to the monitor only if there
is none, and that it leaves the others alone, in particular those that run on other CPUs. The last
part is false: the fallback looks at `env_status` and not at `env_type`, so if the slot of the CPU
holds an ordinary environment that another CPU is running, this CPU runs it too. `sched_correct_iff`
says that nothing else goes wrong.

**Many calls.** `Ready k c` is the set of environments that the scheduler of CPU `c` chooses from.
It does not change from call to call, and the slot served last is where the next scan starts, so the
calls are rounds in the sense of `Lib.Rounds` (`round_robin`).
-/

namespace Jos

open Lib

variable {k k' k₁ : Kernel} {c : Cpu} {e : EnvIdx}

/-! ## The state in which the scheduler looks -/

/-- The environment of CPU `c` is runnable again, if it was running. -/
def gaveUp (k : Kernel) (c : Cpu) : Kernel :=
  match k.cpuEnv c with
  | none => k
  | some cur => if (k.envs cur).envStatus = ENV_RUNNING then k.setStatus cur ENV_RUNNABLE else k

/-- What the scheduler of CPU `c` chooses from. -/
def Ready (k : Kernel) (c : Cpu) (e : EnvIdx) : Prop :=
  (k.envs e).envType ≠ .IDLE ∧ ((k.envs e).envStatus = ENV_RUNNABLE ∨
    (k.envs e).envStatus = ENV_RUNNING ∧ k.cpuEnv c = some e)

instance (k : Kernel) (c : Cpu) : DecidablePred (Ready k c) := fun e => by
  unfold Ready; infer_instance

/-- Just after the environment of CPU `c`. -/
def afterCpuEnv (k : Kernel) (c : Cpu) : ℕ :=
  match k.cpuEnv c with
  | none => 0
  | some cur => cur.val + 1

/-- The place of `e` in the circle of CPU `c`. -/
def turn (k : Kernel) (c : Cpu) (e : EnvIdx) : ℕ := gap NENV (afterCpuEnv k c) e

theorem schedStart_gaveUp (k : Kernel) (c : Cpu) : (schedStart k c).2 = gaveUp k c := by
  unfold schedStart gaveUp
  cases k.cpuEnv c with
  | none => rfl
  | some cur =>
    simp only
    split_ifs <;> rfl

theorem gaveUp_status (k : Kernel) (c : Cpu) (e : EnvIdx) :
    ((gaveUp k c).envs e).envStatus =
      if (k.envs e).envStatus = ENV_RUNNING ∧ k.cpuEnv c = some e then ENV_RUNNABLE
      else (k.envs e).envStatus := by
  unfold gaveUp
  cases hcur : k.cpuEnv c with
  | none => simp
  | some cur =>
    by_cases he : e = cur
    · subst he
      by_cases hst : (k.envs e).envStatus = ENV_RUNNING <;> simp [hst, setStatus_envs]
    · have hne : ¬ cur = e := fun h => he h.symm
      by_cases hst : (k.envs cur).envStatus = ENV_RUNNING <;> simp [hst, setStatus_envs, he, hne]

theorem gaveUp_type (k : Kernel) (c : Cpu) (e : EnvIdx) :
    ((gaveUp k c).envs e).envType = (k.envs e).envType := by
  rw [← schedStart_gaveUp]
  rcases schedStart_snd k c with heq | ⟨cur, -, -, heq⟩
  · rw [heq]
  · rw [heq, setStatus_envs]
    by_cases he : e = cur
    · subst he
      simp
    · simp [he]

theorem gaveUp_cpuEnv (k : Kernel) (c : Cpu) : (gaveUp k c).cpuEnv = k.cpuEnv := by
  rw [← schedStart_gaveUp]
  exact (schedStart_fields k c 0).2.2

theorem schedulable_gaveUp : Schedulable (gaveUp k c) e ↔ Ready k c e := by
  have hne : ENV_RUNNABLE ≠ ENV_RUNNING := by decide
  unfold Schedulable Ready
  rw [gaveUp_type, gaveUp_status]
  refine and_congr_right fun _ => ?_
  split_ifs with hrun
  · exact ⟨fun _ => .inr hrun, fun _ => rfl⟩
  · exact ⟨.inl, fun h => h.resolve_right hrun⟩

/-! ## Where it starts -/

theorem afterCpuEnv_le (k : Kernel) (c : Cpu) : afterCpuEnv k c ≤ 1024 := by
  unfold afterCpuEnv
  split
  · exact Nat.zero_le _
  · exact Nat.succ_le_of_lt (Fin.is_lt _)

theorem schedStart_le (k : Kernel) (c : Cpu) : (schedStart k c).1 ≤ 1024 := by
  unfold schedStart
  split
  · exact Nat.zero_le _
  · rename_i cur hcur
    split_ifs
    · exact Nat.succ_le_of_lt cur.isLt
    · exact le_of_lt cur.isLt

theorem circular_circle (i : ℕ) : circular i = circle 1024 i := rfl

/-- The slot of an environment that does not run is looked at first and not last. It is not
runnable, so this makes no difference. -/
theorem isFirst_schedStart
    (hcur : ∀ cur, k.cpuEnv c = some cur → (k.envs cur).envStatus ≠ ENV_RUNNABLE) :
    IsFirst (Schedulable (gaveUp k c)) (schedStart k c).1 e ↔
      IsFirst (Schedulable (gaveUp k c)) (afterCpuEnv k c) e := by
  unfold schedStart afterCpuEnv
  cases hc : k.cpuEnv c with
  | none => rfl
  | some cur =>
    simp only
    split_ifs with hst
    · rfl
    · have hnot : ¬ Schedulable (gaveUp k c) cur := by
        rw [schedulable_gaveUp]
        exact fun h => h.2.elim (hcur cur hc) fun h' => hst h'.1
      -- away from the slot itself, the two distances differ by one
      have hshift : ∀ e', Schedulable (gaveUp k c) e' →
          gap 1024 cur e' = gap 1024 (cur + 1) e' + 1 := by
        intro e' he'
        have hne : e'.val ≠ cur.val := fun h => hnot (Fin.ext h ▸ he')
        have h₁ := e'.isLt
        have h₂ := cur.isLt
        unfold gap
        split_ifs <;> omega
      refine and_congr_right fun he => forall₂_congr fun e' he' => ?_
      rw [hshift e he, hshift e' he']
      exact Nat.add_le_add_iff_right

/-! ## One call -/

/-- Another CPU runs `e`, by `env_status`. An environment that was destroyed while its CPU executes
it is `ENV_DYING` and does not count, although it executes until it traps. -/
def RunsElsewhere (k : Kernel) (c : Cpu) (e : EnvIdx) : Prop :=
  (k.envs e).envStatus = ENV_RUNNING ∧ k.cpuEnv c ≠ some e ∧ ∃ c', k.cpuEnv c' = some e

/-- No environment but the idle ones can run. -/
def AllIdle (k : Kernel) : Prop :=
  ∀ e, ¬ ((k.envs e).envType ≠ .IDLE ∧
    ((k.envs e).envStatus = ENV_RUNNABLE ∨ (k.envs e).envStatus = ENV_RUNNING))

theorem schedYield_first (h : IsFirst (Schedulable (gaveUp k c)) (schedStart k c).1 e) :
    schedYield k c = .run (gaveUp k c) e := by
  have hfind := (find?_circle (schedStart_le k c)).2 h
  unfold schedYield
  simp only [circular_circle, schedStart_gaveUp, hfind]

theorem schedYield_isFirst (h : IsFirst (Ready k c) (schedStart k c).1 e) :
    schedYield k c = .run (gaveUp k c) e :=
  schedYield_first ⟨schedulable_gaveUp.2 h.1, fun e' he' => h.2 e' (schedulable_gaveUp.1 he')⟩

/-- If something can be chosen, the first in the order is. -/
theorem schedYield_ready (h : ∃ e, Ready k c e) :
    ∃ e, IsFirst (Ready k c) (schedStart k c).1 e ∧ schedYield k c = .run (gaveUp k c) e := by
  obtain ⟨e, he⟩ := exists_isFirst (schedStart_le k c) h
  exact ⟨e, he, schedYield_isFirst he⟩

section
variable (hnone : ∀ e, ¬ Schedulable (gaveUp k c) e)
include hnone

theorem schedYield_allIdle (hidle : AllIdle (gaveUp k c)) :
    schedYield k c = .monitor (gaveUp k c) := by
  have hfind := (find?_circle_none (schedStart_le k c)).2 hnone
  unfold schedYield
  simp only [circular_circle, schedStart_gaveUp, hfind]
  exact if_pos hidle

theorem schedYield_idle (hidle : ¬ AllIdle (gaveUp k c))
    (hst : ((gaveUp k c).envs (idleEnv c)).envStatus = ENV_RUNNABLE ∨
      ((gaveUp k c).envs (idleEnv c)).envStatus = ENV_RUNNING) :
    schedYield k c = .run (gaveUp k c) (idleEnv c) := by
  have hfind := (find?_circle_none (schedStart_le k c)).2 hnone
  unfold schedYield
  simp only [circular_circle, schedStart_gaveUp, hfind]
  exact (if_neg hidle).trans (if_pos hst)

theorem schedYield_no_idle (hidle : ¬ AllIdle (gaveUp k c))
    (hst : ¬ (((gaveUp k c).envs (idleEnv c)).envStatus = ENV_RUNNABLE ∨
      ((gaveUp k c).envs (idleEnv c)).envStatus = ENV_RUNNING)) :
    schedYield k c = .panic "No idle environment!" := by
  have hfind := (find?_circle_none (schedStart_le k c)).2 hnone
  unfold schedYield
  simp only [circular_circle, schedStart_gaveUp, hfind]
  exact (if_neg hidle).trans (if_neg hst)

end

/-- The scheduler panics if it has nothing to run while another CPU has. -/
theorem schedYield_panic_iff : (∃ msg, schedYield k c = .panic msg) ↔
    (∀ e, ¬ Schedulable (gaveUp k c) e) ∧ ¬ AllIdle (gaveUp k c) ∧
      ¬ (((gaveUp k c).envs (idleEnv c)).envStatus = ENV_RUNNABLE ∨
        ((gaveUp k c).envs (idleEnv c)).envStatus = ENV_RUNNING) := by
  constructor
  · rintro ⟨msg, hmsg⟩
    have hnone : ∀ e, ¬ Schedulable (gaveUp k c) e := by
      intro e he
      obtain ⟨e', -, hrun⟩ := schedYield_ready ⟨e, schedulable_gaveUp.1 he⟩
      rw [hrun] at hmsg
      cases hmsg
    refine ⟨hnone, fun hidle => ?_, fun hst => ?_⟩
    · rw [schedYield_allIdle hnone hidle] at hmsg
      cases hmsg
    · by_cases hidle : AllIdle (gaveUp k c)
      · rw [schedYield_allIdle hnone hidle] at hmsg
        cases hmsg
      · rw [schedYield_idle hnone hidle hst] at hmsg
        cases hmsg
  · rintro ⟨hnone, hidle, hst⟩
    exact ⟨_, schedYield_no_idle hnone hidle hst⟩

/-- What the scheduler should do on CPU `c`. -/
structure SchedCorrect (k : Kernel) (c : Cpu) : Prop where
  injective : Function.Injective (turn k c)
  bound : ∀ e, turn k c e < NENV
  last : ∀ cur, k.cpuEnv c = some cur → turn k c cur = NENV - 1
  first : ∀ e, Schedulable (gaveUp k c) e →
    (∀ e', Schedulable (gaveUp k c) e' → turn k c e ≤ turn k c e') →
    schedYield k c = .run (gaveUp k c) e
  monitor : (∀ e, ¬ Schedulable (gaveUp k c) e) → AllIdle (gaveUp k c) →
    schedYield k c = .monitor (gaveUp k c)
  idle : (∀ e, ¬ Schedulable (gaveUp k c) e) → ¬ AllIdle (gaveUp k c) →
    ((gaveUp k c).envs (idleEnv c)).envStatus = ENV_RUNNABLE ∨
      ((gaveUp k c).envs (idleEnv c)).envStatus = ENV_RUNNING →
    schedYield k c = .run (gaveUp k c) (idleEnv c)
  no_idle : (∀ e, ¬ Schedulable (gaveUp k c) e) → ¬ AllIdle (gaveUp k c) →
    ¬ (((gaveUp k c).envs (idleEnv c)).envStatus = ENV_RUNNABLE ∨
      ((gaveUp k c).envs (idleEnv c)).envStatus = ENV_RUNNING) →
    schedYield k c = .panic "No idle environment!"
  elsewhere : ∀ k₁ e, schedYield k c = .run k₁ e → (k.envs e).envType ≠ .IDLE →
    ¬ RunsElsewhere k c e
  runs : ∀ k₁ e, schedYield k c = .run k₁ e →
    (envRun k₁ c e).cpuEnv c = some e ∧ ((envRun k₁ c e).envs e).envStatus = ENV_RUNNING
  gives_up : ∀ k₁ e cur, schedYield k c = .run k₁ e → k.cpuEnv c = some cur → cur ≠ e →
    ((envRun k₁ c e).envs cur).envStatus =
      if (k.envs cur).envStatus = ENV_RUNNING then ENV_RUNNABLE else (k.envs cur).envStatus
  others : ∀ k₁ e e', schedYield k c = .run k₁ e → k.cpuEnv c ≠ some e' → e' ≠ e →
    ((envRun k₁ c e).envs e').envStatus = (k.envs e').envStatus

theorem gaveUp_gaveUp (k : Kernel) (c : Cpu) : gaveUp (gaveUp k c) c = gaveUp k c := by
  cases hcur : k.cpuEnv c with
  | none => simp [gaveUp, hcur]
  | some cur =>
    have hst : ((gaveUp k c).envs cur).envStatus ≠ ENV_RUNNING := by
      rw [gaveUp_status]
      split_ifs with h
      · decide
      · exact fun hst => h ⟨hst, hcur⟩
    rw [gaveUp, gaveUp_cpuEnv, hcur]
    exact if_neg hst

theorem envRun_gaveUp (k : Kernel) (c : Cpu) (e : EnvIdx) :
    envRun (gaveUp k c) c e = ((gaveUp k c).setCurenv c (some e)).setEnv e fun env =>
      { env with envStatus := ENV_RUNNING, envRuns := env.envRuns + 1 } := by
  rw [envRun_eq, schedStart_gaveUp, gaveUp_gaveUp]

theorem envRun_gaveUp_cpuEnv (k : Kernel) (c : Cpu) (e : EnvIdx) :
    (envRun (gaveUp k c) c e).cpuEnv = Function.update k.cpuEnv c (some e) := by
  rw [envRun_gaveUp, ← gaveUp_cpuEnv k c]
  rfl

theorem envRun_gaveUp_status (k : Kernel) (c : Cpu) (e e' : EnvIdx) :
    ((envRun (gaveUp k c) c e).envs e').envStatus =
      if e' = e then ENV_RUNNING else ((gaveUp k c).envs e').envStatus := by
  rw [envRun_gaveUp]
  by_cases he : e' = e
  · subst he
    simp [Kernel.setEnv]
  · simp [Kernel.setEnv, Kernel.setCurenv, he]

theorem envRun_gaveUp_type (k : Kernel) (c : Cpu) (e e' : EnvIdx) :
    ((envRun (gaveUp k c) c e).envs e').envType = (k.envs e').envType := by
  rw [envRun_gaveUp, ← gaveUp_type k c]
  by_cases he : e' = e
  · subst he
    simp [Kernel.setEnv, Kernel.setCurenv]
  · simp [Kernel.setEnv, Kernel.setCurenv, he]

theorem schedYield_gaveUp (h : schedYield k c = .run k₁ e) : k₁ = gaveUp k c := by
  rw [← schedStart_gaveUp]
  exact (schedYield_run h).1

theorem not_ready_of_elsewhere (h : RunsElsewhere k c e) : ¬ Ready k c e := by
  rintro ⟨-, hst | ⟨-, hcur⟩⟩
  · rw [h.1] at hst
    exact absurd hst (by decide)
  · exact h.2.1 hcur

/-- **The scheduler chooses correctly** unless there is nothing to choose and its CPU's own slot
holds an ordinary environment that another CPU is running. -/
theorem sched_correct_iff (k : Kernel) (c : Cpu)
    (hcur : ∀ cur, k.cpuEnv c = some cur → (k.envs cur).envStatus ≠ ENV_RUNNABLE) :
    SchedCorrect k c ↔
      ((k.envs (idleEnv c)).envType ≠ .IDLE → RunsElsewhere k c (idleEnv c) → ∃ e,
        Ready k c e) := by
  constructor
  · intro h htype helse
    by_contra hnone
    have hnone' : ∀ e, ¬ Schedulable (gaveUp k c) e := fun e he =>
      hnone ⟨e, schedulable_gaveUp.1 he⟩
    have hst : ((gaveUp k c).envs (idleEnv c)).envStatus = ENV_RUNNING := by
      rw [gaveUp_status, if_neg fun h' => helse.2.1 h'.2]
      exact helse.1
    have hall : ¬ AllIdle (gaveUp k c) := fun hall =>
      hall (idleEnv c) ⟨by rwa [gaveUp_type], .inr hst⟩
    exact h.elsewhere _ _ (h.idle hnone' hall (.inr hst)) htype helse
  · intro hidle
    constructor
    case injective =>
      exact fun a b hab => Fin.ext (gap_inj (afterCpuEnv_le k c) a.isLt b.isLt hab)
    case bound => exact fun e => gap_lt (afterCpuEnv_le k c) e.isLt
    case last =>
      intro cur hc
      simp only [turn, afterCpuEnv, hc]
      exact gap_succ_self cur.isLt
    case first => exact fun e he hle => schedYield_first ((isFirst_schedStart hcur).2 ⟨he, hle⟩)
    case monitor => exact schedYield_allIdle
    case idle => exact schedYield_idle
    case no_idle => exact schedYield_no_idle
    case elsewhere =>
      intro k₁ e h htype helse
      obtain ⟨hk₁, hpick⟩ := schedYield_run h
      rw [hk₁, schedStart_gaveUp] at hpick
      rcases hpick with hs | ⟨rfl, -⟩
      · exact not_ready_of_elsewhere helse (schedulable_gaveUp.1 hs)
      · -- the fallback is not reached, as something is ready
        obtain ⟨e, hfirst, he⟩ := schedYield_ready (hidle htype helse)
        rw [he] at h
        cases h
        exact not_ready_of_elsewhere helse hfirst.1
    case runs =>
      intro k₁ e h
      rw [schedYield_gaveUp h, envRun_gaveUp_cpuEnv, envRun_gaveUp_status]
      exact ⟨Function.update_self .., if_pos rfl⟩
    case gives_up =>
      intro k₁ e cur h hc hne
      rw [schedYield_gaveUp h, envRun_gaveUp_status, if_neg hne, gaveUp_status]
      simp only [hc, and_true]
    case others =>
      intro k₁ e e' h hc hne
      rw [schedYield_gaveUp h, envRun_gaveUp_status, if_neg hne, gaveUp_status]
      exact if_neg fun h' => hc h'.2

/-- CPU 1 runs the environment in slot zero; CPU 0 has none. -/
def busyKernel : Kernel :=
  { bootKernel with
    envs := fun e =>
      if e = 0 then { envId := 0x1000, envType := .USER, envStatus := ENV_RUNNING } else {}
    cpuEnv := fun c => if c = 1 then some 0 else none }

/-- CPU 0 runs the environment in slot 3, CPU 1 the one in slot 0, and the one in slot 5 waits. -/
def turnKernel : Kernel :=
  { bootKernel with
    envs := fun e =>
      if e = 0 ∨ e = 3 then { envType := .USER, envStatus := ENV_RUNNING }
      else if e = 5 then { envType := .USER, envStatus := ENV_RUNNABLE } else {}
    cpuEnv := fun c => if c = 0 then some 3 else if c = 1 then some 0 else none }

/-- CPU 0 gives up slot 3 and runs slot 5. -/
theorem sched_correct_turn : SchedCorrect turnKernel 0 ∧
    schedYield turnKernel 0 = .run (gaveUp turnKernel 0) 5 := by
  have hright : SchedCorrect turnKernel 0 :=
    (sched_correct_iff turnKernel 0 fun cur h => by
      obtain rfl : 3 = cur := Option.some.inj h
      decide).2 fun _ _ => ⟨5, by decide⟩
  refine ⟨hright, hright.first 5 (by decide) fun e he => ?_⟩
  by_contra hlt
  have hzero : turn turnKernel 0 e = turn turnKernel 0 4 := by
    have h4 : turn turnKernel 0 4 = 0 := by decide
    have h5 : turn turnKernel 0 5 = 1 := by decide
    omega
  obtain rfl := hright.injective hzero
  exact absurd he (by decide)

/-- CPU 0 runs the environment that CPU 1 is running. -/
theorem sched_runs_twice :
    (∀ cur, busyKernel.cpuEnv 0 = some cur → (busyKernel.envs cur).envStatus ≠ ENV_RUNNABLE) ∧
      (busyKernel.envs 0).envType ≠ .IDLE ∧ RunsElsewhere busyKernel 0 0 ∧
      schedYield busyKernel 0 = .run busyKernel 0 ∧ ¬ SchedCorrect busyKernel 0 := by
  have hcur : ∀ cur, busyKernel.cpuEnv 0 = some cur →
      (busyKernel.envs cur).envStatus ≠ ENV_RUNNABLE := fun cur h => absurd h (by simp [busyKernel])
  have htype : (busyKernel.envs 0).envType ≠ .IDLE := by decide
  have helse : RunsElsewhere busyKernel 0 0 := ⟨by decide, by decide, 1, by decide⟩
  have hnone : ∀ e, ¬ Schedulable busyKernel e := by
    rintro e ⟨-, hst⟩
    by_cases he : e = 0
    · subst he
      exact absurd hst (by decide)
    · simp only [busyKernel, he, if_false] at hst
      exact absurd hst (by decide)
  have hrun : schedYield busyKernel 0 = .run busyKernel 0 :=
    schedYield_idle hnone (fun hall => hall 0 ⟨htype, .inr (by decide)⟩) (.inr (by decide))
  exact ⟨hcur, htype, helse, hrun, fun h => h.elsewhere _ _ hrun htype helse⟩

/-! ## Many calls -/

/-- Nothing that the scheduler of CPU `c` looks at differs. -/
structure SameSched (c : Cpu) (k k' : Kernel) : Prop where
  type : ∀ e, (k'.envs e).envType = (k.envs e).envType
  status : ∀ e, (k'.envs e).envStatus = (k.envs e).envStatus
  cpuEnv : k'.cpuEnv c = k.cpuEnv c

theorem SameSched.refl (c : Cpu) (k : Kernel) : SameSched c k k := ⟨fun _ => rfl, fun _ => rfl, rfl⟩

/-- Consecutive calls of `sched_yield` on CPU `c` and the environments they run. Between the
calls the environments do what they like, except that no status changes. -/
inductive SchedCalls (c : Cpu) : Kernel → List EnvIdx → Kernel → Prop
  | nil {k : Kernel} : SchedCalls c k [] k
  | call {k k₀ k₁ k' : Kernel} {e : EnvIdx} {es : List EnvIdx} (hsame : SameSched c k k₀)
      (hrun : schedYield k₀ c = .run k₁ e) (hrest : SchedCalls c (envRun k₁ c e) es k') :
      SchedCalls c k (e :: es) k'

theorem SameSched.ready (h : SameSched c k k') : Ready k' c = Ready k c := by
  funext e
  unfold Ready
  rw [h.type, h.status, h.cpuEnv]

theorem SameSched.schedStart (h : SameSched c k k') : (schedStart k' c).1 = (schedStart k c).1 := by
  unfold Jos.schedStart
  rw [h.cpuEnv]
  cases k.cpuEnv c with
  | none => rfl
  | some cur =>
    simp only [h.status]
    split_ifs <;> rfl

/-- Running a ready environment keeps the set. -/
theorem ready_envRun (he : Ready k c e) : Ready (envRun (gaveUp k c) c e) c = Ready k c := by
  funext e'
  refine propext (Iff.trans ?_ schedulable_gaveUp)
  unfold Ready Schedulable
  rw [envRun_gaveUp_type, envRun_gaveUp_status, envRun_gaveUp_cpuEnv, Function.update_self,
    gaveUp_type]
  refine and_congr_right fun htype => ?_
  by_cases hee : e' = e
  · subst hee
    have hst := (schedulable_gaveUp.2 he).2
    simp [hst]
  · simp [hee, Ne.symm hee]

theorem schedStart_envRun (k : Kernel) (c : Cpu) (e : EnvIdx) :
    (schedStart (envRun (gaveUp k c) c e) c).1 = e.val + 1 := by
  unfold schedStart
  rw [envRun_gaveUp_cpuEnv, Function.update_self]
  simp only [envRun_gaveUp_status, if_true]

/-- **Calls are rounds.** -/
theorem SchedCalls.rounds {es : List EnvIdx} (h : SchedCalls c k es k') (hne : ∃ e, Ready k c e) :
    Rounds (Ready k c) (schedStart k c).1 es ∧ Ready k' c = Ready k c := by
  induction h with
  | nil => exact ⟨.nil, rfl⟩
  | call hsame hrun hrest ih =>
    rw [← hsame.ready] at hne
    obtain ⟨e₁, hfirst, heq⟩ := schedYield_ready hne
    rw [heq] at hrun
    cases hrun
    have hkeep := ready_envRun hfirst.1
    rw [hkeep, schedStart_envRun] at ih
    obtain ⟨hrounds, hlast⟩ := ih hne
    rw [hsame.ready, hsame.schedStart] at hfirst
    rw [hsame.ready] at hrounds hlast
    exact ⟨.cons hfirst hrounds, hlast⟩

/-- **Round robin.** Every call runs an environment, and any `n` consecutive calls run each of the
`n` ready environments once, in circular order. -/
theorem round_robin {pre es : List EnvIdx} {k₂ : Kernel} (hne : ∃ e, Ready k c e)
    (hpre : SchedCalls c k pre k₁) (hes : SchedCalls c k₁ es k₂) :
    (∀ k₀, SameSched c k₂ k₀ → ∃ k₃ e, schedYield k₀ c = .run k₃ e) ∧
      (es.length = (Finset.univ.filter (Ready k c)).card →
        es.Nodup ∧ (∀ e, e ∈ es ↔ Ready k c e) ∧
          es.Pairwise fun a b : EnvIdx => gap NENV (schedStart k₁ c).1 a <
          gap NENV (schedStart k₁ c).1 b) := by
  obtain ⟨-, hready₁⟩ := hpre.rounds hne
  obtain ⟨hrounds, hready₂⟩ := hes.rounds (hready₁ ▸ hne)
  rw [hready₁] at hrounds hready₂
  refine ⟨fun k₀ hsame => ?_, fun hlen => ?_⟩
  · rw [← hready₂, ← hsame.ready] at hne
    obtain ⟨e, -, he⟩ := schedYield_ready hne
    exact ⟨_, e, he⟩
  · have hsort := hrounds.serves (schedStart_le k₁ c) hlen
    exact ⟨hsort.nodup, hsort.mem, hsort.pairwise⟩

/-- CPU 0 runs an idle environment in slot 3. Slots 2 and 5 are runnable. -/
def pairKernel : Kernel :=
  { bootKernel with
    envs := fun e =>
      if e = 3 then { envType := .IDLE, envStatus := ENV_RUNNING }
      else if e = 2 ∨ e = 5 then { envType := .USER, envStatus := ENV_RUNNABLE }
      else {}
    cpuEnv := fun c => if c = 0 then some 3 else none }

/-- Two calls run slots 5 and 2, in this order. -/
theorem round_robin_pair : ∃ k', SchedCalls 0 pairKernel [5, 2] k' ∧
    ∀ e, e ∈ ([5, 2] : List EnvIdx) ↔ Ready pairKernel 0 e := by
  have hfive : IsFirst (Ready pairKernel 0) (schedStart pairKernel 0).1 5 := by
    unfold IsFirst
    decide +kernel
  set k₁ := envRun (gaveUp pairKernel 0) 0 5 with hk₁
  have hready : Ready k₁ 0 = Ready pairKernel 0 := ready_envRun hfive.1
  have htwo : IsFirst (Ready pairKernel 0) (schedStart k₁ 0).1 2 := by
    rw [hk₁, schedStart_envRun]
    unfold IsFirst
    decide +kernel
  have hcalls : SchedCalls 0 pairKernel [5, 2] (envRun (gaveUp k₁ 0) 0 2) := by
    refine .call (.refl _ _) (schedYield_isFirst hfive)
      (.call (.refl _ _) (schedYield_isFirst ?_) .nil)
    rw [hready]
    exact htwo
  have hcard : (Finset.univ.filter (Ready pairKernel 0)).card = 2 := by decide +kernel
  exact ⟨_, hcalls, ((round_robin ⟨5, hfive.1⟩ .nil hcalls).2 hcard.symm).2.1⟩

end Jos
