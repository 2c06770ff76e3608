import Mathlib.Logic.Basic
import Mathlib.Data.List.Basic

/-!
# Programs that may fail

Sequencing and loops in `Except`. A `for` loop over a list of indices whose body may fail is a
`foldlM`. `foldlM_ok` is the loop rule of total correctness: an invariant over the indices
done so far, kept by a body that succeeds whenever it holds, holds at the end, and the loop
succeeds.
-/

namespace Lib

variable {α β ε : Type*}

@[simp] theorem ok_bind {α β : Type _} (a : α) (f : α → Except ε β) : (Except.ok a >>= f) = f a :=
  rfl

@[simp] theorem error_bind {α β : Type _} (x : ε) (f : α → Except ε β) :
    (Except.error x >>= f) = Except.error x := rfl

@[simp] theorem pure_eq_ok {α : Type _} (a : α) : (pure a : Except ε α) = Except.ok a := rfl

theorem bind_eq_ok {α β : Type _} {x : Except ε α} {f : α → Except ε β} {b : β} :
    (x >>= f) = .ok b ↔ ∃ a, x = .ok a ∧ f a = .ok b := by
  cases x <;> simp

@[simp] theorem mapError_ok {α ε' : Type _} (f : ε → ε') (a : α) :
    (Except.ok a : Except ε α).mapError f = .ok a := rfl

@[simp] theorem mapError_error {α ε' : Type _} (f : ε → ε') (x : ε) :
    (Except.error x : Except ε α).mapError f = .error (f x) := rfl

/-- **The loop rule.** `motive done b` is the invariant after the indices in `done`. -/
theorem foldlM_ok {f : β → α → Except ε β} {motive : List α → β → Prop} {l : List α}
    (hstep : ∀ done x b, x ∈ l → motive done b → ∃ b', f b x = .ok b' ∧ motive (done ++ [x]) b')
    {b : β} (h : motive [] b) : ∃ b', l.foldlM f b = .ok b' ∧ motive l b' := by
  suffices hgen : ∀ (todo done : List α) (b : β), (∀ x ∈ todo, x ∈ l) → motive done b →
      ∃ b', todo.foldlM f b = .ok b' ∧ motive (done ++ todo) b' from
    hgen l [] b (fun _ hx => hx) h
  intro todo
  induction todo with
  | nil =>
    intro done b _ hb
    exact ⟨b, rfl, by simpa using hb⟩
  | cons x todo ih =>
    intro done b hsub hb
    obtain ⟨b₁, hb₁, h₁⟩ := hstep done x b (hsub x List.mem_cons_self) hb
    obtain ⟨b₂, hb₂, h₂⟩ := ih (done ++ [x]) b₁ (fun y hy => hsub y (List.mem_cons_of_mem x hy)) h₁
    refine ⟨b₂, ?_, by simpa using h₂⟩
    rw [List.foldlM_cons, hb₁]
    exact hb₂

/-- What every step of a loop keeps holds at its end. -/
theorem foldlM_invariant {f : β → α → Except ε β} {P : β → Prop} {l : List α}
    (hstep : ∀ x ∈ l, ∀ b b', P b → f b x = .ok b' → P b') {b b' : β} (h : P b)
    (hl : l.foldlM f b = .ok b') : P b' := by
  induction l generalizing b with
  | nil =>
    obtain rfl : b = b' := Except.ok.inj hl
    exact h
  | cons x l ih =>
    rw [List.foldlM_cons] at hl
    obtain ⟨b₁, hx, hrest⟩ := bind_eq_ok.1 hl
    exact ih (fun y hy => hstep y (List.mem_cons_of_mem x hy))
      (hstep x List.mem_cons_self b b₁ h hx) hrest

end Lib
