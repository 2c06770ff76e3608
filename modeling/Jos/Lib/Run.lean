import Mathlib.Tactic

/-!
# Runs of a transition system

A system is a partial step function over actions. `Run step s l t` says that the actions `l`,
in this order, lead from `s` to `t`. `RunWhile good step s l t` asks in addition that each
action is good in the state it is taken in; an invariant that good actions keep then holds at
the end of the run, which is `RunWhile.invariant`, and a simulation carries over whole runs
(`RunWhile.simulates`). A run on a concrete system is computed by a
fold (`RunWhile.of_foldlM`), which also decides whether its actions are good; a condition on the
value of an option is decided at that value, and not by a search.
-/

namespace Lib

variable {σ α : Type*}

/-- The actions `l` lead from `s` to `t`, and each is good where it is taken. -/
inductive RunWhile (good : σ → α → Prop) (step : σ → α → Option σ) (s : σ) : List α → σ → Prop
  | nil : RunWhile good step s [] s
  | snoc {l : List α} {t u : σ} {a : α} (h : RunWhile good step s l t) (hg : good t a)
      (hstep : step t a = some u) : RunWhile good step s (l ++ [a]) u

/-- A run without a condition on its actions. -/
def Run (step : σ → α → Option σ) (s : σ) : List α → σ → Prop := RunWhile (fun _ _ => True) step s

variable {good : σ → α → Prop} {step : σ → α → Option σ} {s t : σ} {l : List α}

/-- **The run rule.** -/
theorem RunWhile.invariant {P : σ → Prop} (h : RunWhile good step s l t) (hinit : P s)
    (hkeep : ∀ t a u, P t → good t a → step t a = some u → P u) : P t := by
  induction h with
  | nil => exact hinit
  | snoc _ hg hstep ih => exact hkeep _ _ _ ih hg hstep

/-- **The simulation rule.** Where each good step has its counterpart in another system, each run
has. -/
theorem RunWhile.simulates {τ : Type*} {step' : τ → α → Option τ} {P : σ → τ → Prop} {r : τ}
    (h : RunWhile good step s l t) (hinit : P s r)
    (hkeep : ∀ t a u r, P t r → good t a → step t a = some u → ∃ r', step' r a = some r' ∧ P u r') :
    ∃ r', Run step' r l r' ∧ P t r' := by
  induction h with
  | nil => exact ⟨r, .nil, hinit⟩
  | snoc _ hg hstep ih =>
    obtain ⟨r₁, hrun, hP⟩ := ih
    obtain ⟨r', hr', hP'⟩ := hkeep _ _ _ _ hP hg hstep
    exact ⟨r', .snoc hrun trivial hr', hP'⟩

theorem RunWhile.holds_or_ends {P : σ → Prop} (h : RunWhile good step s l t) (hinit : P s) :
    P t ∨ ∃ l₁ a l₂ s₁ s₂, l = l₁ ++ a :: l₂ ∧ RunWhile good step s l₁ s₁ ∧ P s₁ ∧ good s₁ a ∧
      step s₁ a = some s₂ ∧ ¬ P s₂ ∧ RunWhile good step s₂ l₂ t := by
  induction h with
  | nil => exact .inl hinit
  | @snoc l t u a h hg hstep ih =>
    rcases ih with ht | ⟨l₁, b, l₂, s₁, s₂, rfl, hrun, hP, hb, hs, hnot, hrest⟩
    · by_cases hu : P u
      · exact .inl hu
      · exact .inr ⟨l, a, [], t, u, rfl, h, ht, hg, hstep, hu, .nil⟩
    · exact .inr ⟨l₁, b, l₂ ++ [a], s₁, s₂, by simp, hrun, hP, hb, hs, hnot, .snoc hrest hg hstep⟩

theorem RunWhile.mono {good' : σ → α → Prop} (h : RunWhile good step s l t)
    (hle : ∀ s a, good s a → good' s a) : RunWhile good' step s l t := by
  induction h with
  | nil => exact .nil
  | snoc _ hg hstep ih => exact .snoc ih (hle _ _ hg) hstep

theorem RunWhile.append {l' : List α} {u : σ} (h : RunWhile good step s l t)
    (h' : RunWhile good step t l' u) : RunWhile good step s (l ++ l') u := by
  induction h' with
  | nil => rwa [List.append_nil]
  | snoc _ hg hstep ih =>
    rw [← List.append_assoc]
    exact .snoc ih hg hstep

theorem RunWhile.cons {a : α} {u : σ} (hg : good s a) (hstep : step s a = some t)
    (h : RunWhile good step t l u) : RunWhile good step s (a :: l) u :=
  RunWhile.append (.snoc .nil hg hstep) h

/-- A condition on the value of an option, if it has one. -/
instance (priority := high) decidableForallSome {α : Type*} {P : α → Prop} [DecidablePred P]
    (o : Option α) : Decidable (∀ a, o = some a → P a) :=
  match o with
  | none => isTrue nofun
  | some a => decidable_of_iff (P a) ⟨fun h _ ha => Option.some.inj ha ▸ h, fun h => h a rfl⟩

/-- Take an action if it is good. -/
def guardedStep (good : σ → α → Prop) [∀ s a, Decidable (good s a)] (step : σ → α → Option σ)
    (s : σ) (a : α) : Option σ :=
  if good s a then step s a else none

/-- A run can be computed. -/
theorem RunWhile.of_foldlM [∀ s a, Decidable (good s a)]
    (h : l.foldlM (guardedStep good step) s = some t) : RunWhile good step s l t := by
  induction l generalizing s with
  | nil =>
    obtain rfl : s = t := Option.some.inj h
    exact .nil
  | cons a l ih =>
    rw [List.foldlM_cons] at h
    obtain ⟨u, hu, hrest⟩ := Option.bind_eq_some_iff.1 h
    unfold guardedStep at hu
    split_ifs at hu with hg
    exact .cons hg hu (ih hrest)

end Lib
