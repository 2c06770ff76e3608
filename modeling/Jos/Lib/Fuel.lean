import Mathlib.Tactic

/-!
# Programs with fuel

A loop that need not end is modelled with a bound on its rounds, the fuel, and fails when the fuel
is used up. `Settles x s a s'` says that the program, started in `s`, returns `a` in `s'` with any
amount of fuel that is large enough. So it is a statement of termination, and the rules below
compose it without a word about the amounts.
-/

namespace Lib

variable {ε σ α β : Type}

/-- With enough fuel, `x` started in `s` returns `a` and ends in `s'`. -/
def Settles (x : ℕ → ExceptT ε (StateM σ) α) (s : σ) (a : α) (s' : σ) : Prop :=
  ∃ F, ∀ fuel, F ≤ fuel → x fuel s = (.ok a, s')

/-- With enough fuel, `x` returns from any state, with a value that satisfies `Q`. -/
def Halts (x : ℕ → ExceptT ε (StateM σ) α) (Q : α → Prop) : Prop :=
  ∀ s, ∃ a s', Settles x s a s' ∧ Q a

variable {x y : ℕ → ExceptT ε (StateM σ) α} {f : ℕ → α → ExceptT ε (StateM σ) β} {s s' s'' : σ}
  {a a' : α} {b : β} {P : α → Prop} {Q : β → Prop}

theorem bind_apply {x : ExceptT ε (StateM σ) α} {f : α → ExceptT ε (StateM σ) β}
    (h : x s = (.ok a, s')) : (x >>= f) s = f a s' := by
  simp only [bind, ExceptT.bind, ExceptT.mk, StateT.bind, h]
  rfl

theorem Settles.const {x : ExceptT ε (StateM σ) α} (h : x s = (.ok a, s')) :
    Settles (fun _ => x) s a s' := ⟨0, fun _ _ => h⟩

/-- A sequence settles where its parts do. -/
theorem Settles.bind (h : Settles x s a s') (h' : Settles (fun fuel => f fuel a) s' b s'') :
    Settles (fun fuel => x fuel >>= f fuel) s b s'' := by
  obtain ⟨F, hF⟩ := h
  obtain ⟨F', hF'⟩ := h'
  refine ⟨max F F', fun fuel hfuel => ?_⟩
  calc (x fuel >>= f fuel) s = f fuel a s' :=
    bind_apply (hF fuel (le_trans (le_max_left _ _) hfuel))
    _ = (.ok b, s'') := hF' fuel (le_trans (le_max_right _ _) hfuel)

/-- A program that uses one unit of fuel and goes on as `y`, from some amount on. -/
theorem Settles.step (F : ℕ) (hstep : ∀ fuel, F ≤ fuel → x (fuel + 1) s = y fuel s')
    (h : Settles y s' a s'') : Settles x s a s'' := by
  obtain ⟨F', hF'⟩ := h
  refine ⟨max F F' + 1, fun fuel hfuel => ?_⟩
  obtain ⟨k, rfl⟩ : ∃ k, fuel = k + 1 := ⟨fuel - 1, by omega⟩
  have hk : max F F' ≤ k := by omega
  rw [hstep k (le_trans (le_max_left _ _) hk)]
  exact hF' k (le_trans (le_max_right _ _) hk)

/-! ## Programs that return from any state -/

theorem Halts.const {x : ExceptT ε (StateM σ) α} (h : ∀ s, ∃ a s', x s = (.ok a, s') ∧ P a) :
    Halts (fun _ => x) P := by
  intro s
  obtain ⟨a, s', hx, hP⟩ := h s
  exact ⟨a, s', .const hx, hP⟩

theorem Halts.pure {a : α} (h : P a) : Halts (fun _ => (Pure.pure a : ExceptT ε (StateM σ) α)) P :=
  .const fun s => ⟨a, s, rfl, h⟩

theorem Halts.bind (h : Halts x P) (h' : ∀ a, P a → Halts (fun fuel => f fuel a) Q) :
    Halts (fun fuel => x fuel >>= f fuel) Q := by
  intro s
  obtain ⟨a, s₁, hx, hP⟩ := h s
  obtain ⟨b, s₂, hf, hQ⟩ := h' a hP s₁
  exact ⟨b, s₂, hx.bind hf, hQ⟩

theorem Halts.step (hstep : ∀ fuel, x (fuel + 1) = y fuel) (h : Halts y P) : Halts x P := by
  intro s
  obtain ⟨a, s', hy, hP⟩ := h s
  exact ⟨a, s', hy.step 0 fun fuel _ => by rw [hstep], hP⟩

theorem Halts.ite {c : Prop} [Decidable c] (h : c → Halts x P) (h' : ¬ c → Halts y P) :
    Halts (fun fuel => if c then x fuel else y fuel) P := by
  by_cases hc : c
  · simpa only [if_pos hc] using h hc
  · simpa only [if_neg hc] using h' hc

theorem Halts.mono {P' : α → Prop} (h : Halts x P) (hle : ∀ a, P a → P' a) : Halts x P' := by
  intro s
  obtain ⟨a, s', hx, hP⟩ := h s
  exact ⟨a, s', hx, hle a hP⟩

end Lib
