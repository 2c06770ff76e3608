import Mathlib.Tactic

/-!
# Ring buffers

A buffer of `n` cells with a position to read at and a position to write at, which both go round.
Equal positions mean that nothing is held, so at most `n - 1` elements can be.

**Contents** (`RingBuffer.Holds`). A ring holds a list if its elements stand from the read position
on, and the write position is just behind them. A push appends (`Holds.push`) and a pop takes the
head (`Holds.pop`).
-/

namespace Lib

variable {α : Type*} {n : ℕ}

/-- The cell after `i`. -/
def ringNext (n i : ℕ) : ℕ := if i + 1 = n then 0 else i + 1

/-- The cells, and the two positions. -/
structure RingBuffer (α : Type*) where
  buf : ℕ → α
  rpos : ℕ
  wpos : ℕ

namespace RingBuffer

def push (n : ℕ) (r : RingBuffer α) (a : α) : RingBuffer α :=
  { r with buf := Function.update r.buf r.wpos a, wpos := ringNext n r.wpos }

def pop (n : ℕ) (r : RingBuffer α) : Option α × RingBuffer α :=
  if r.rpos ≠ r.wpos then (some (r.buf r.rpos), { r with rpos := ringNext n r.rpos }) else (none, r)

/-- The elements between the two positions are `l`. -/
structure Holds (n : ℕ) (r : RingBuffer α) (l : List α) : Prop where
  room : l.length < n
  rpos_lt : r.rpos < n
  wpos_eq : r.wpos = (r.rpos + l.length) % n
  cells : ∀ i (h : i < l.length), r.buf ((r.rpos + i) % n) = l[i]

end RingBuffer

theorem ringNext_eq_mod {i : ℕ} (h : i < n) : ringNext n i = (i + 1) % n := by
  unfold ringNext
  split_ifs with hn
  · rw [hn, Nat.mod_self]
  · rw [Nat.mod_eq_of_lt (by omega)]

theorem add_mod_inj {s i j : ℕ} (hi : i < n) (hj : j < n) (h : (s + i) % n = (s + j) % n) :
    i = j := by
  have hmod : i % n = j % n := Nat.ModEq.add_left_cancel' s h
  rwa [Nat.mod_eq_of_lt hi, Nat.mod_eq_of_lt hj] at hmod

namespace RingBuffer.Holds

variable {r : RingBuffer α} {l : List α} {a : α}

theorem wpos_lt (h : Holds n r l) : r.wpos < n := by
  rw [h.wpos_eq]
  exact Nat.mod_lt _ (by have := h.rpos_lt; omega)

theorem nil (buf : ℕ → α) (hn : 0 < n) : Holds n ⟨buf, 0, 0⟩ [] :=
  ⟨hn, hn, (Nat.zero_mod n).symm, fun _ hi => absurd hi (Nat.not_lt_zero _)⟩

/-- Equal positions: nothing is held. -/
theorem rpos_eq_wpos_iff (h : Holds n r l) : r.rpos = r.wpos ↔ l = [] := by
  have hroom := h.room
  rw [h.wpos_eq]
  constructor
  · intro heq
    have hzero : (r.rpos + 0) % n = (r.rpos + l.length) % n := by
      rw [Nat.add_zero, Nat.mod_eq_of_lt h.rpos_lt]
      exact heq
    exact List.eq_nil_of_length_eq_zero (add_mod_inj (by omega) hroom hzero).symm
  · rintro rfl
    rw [List.length_nil, Nat.add_zero, Nat.mod_eq_of_lt h.rpos_lt]

/-- **A push** appends, if there is room. -/
theorem push (h : Holds n r l) (hroom : l.length + 1 < n) (a : α) :
    Holds n (r.push n a) (l ++ [a]) := by
  refine ⟨by rwa [List.length_append], h.rpos_lt, ?_, fun i hi => ?_⟩
  · change ringNext n r.wpos = _
    rw [ringNext_eq_mod h.wpos_lt, h.wpos_eq, Nat.mod_add_mod, List.length_append,
      List.length_singleton, Nat.add_assoc]
    rfl
  · change Function.update r.buf r.wpos a ((r.rpos + i) % n) = _
    rw [List.length_append, List.length_singleton] at hi
    by_cases hlast : i = l.length
    · subst hlast
      rw [h.wpos_eq, Function.update_self, List.getElem_concat_length rfl]
    · have hne : (r.rpos + i) % n ≠ r.wpos := fun hc => by
        rw [h.wpos_eq] at hc
        exact hlast (add_mod_inj (by omega) (by omega) hc)
      rw [Function.update_of_ne hne, List.getElem_append_left (by omega)]
      exact h.cells i (by omega)

/-- **A pop** takes the head. -/
theorem pop (h : Holds n r (a :: l)) : (r.pop n).1 = some a ∧ Holds n (r.pop n).2 l := by
  have hne : r.rpos ≠ r.wpos := fun hc => absurd (h.rpos_eq_wpos_iff.1 hc) (List.cons_ne_nil a l)
  have hlt := h.rpos_lt
  have hroom := h.room
  rw [List.length_cons] at hroom
  have hhead := h.cells 0 (by simp)
  rw [Nat.add_zero, Nat.mod_eq_of_lt hlt] at hhead
  rw [RingBuffer.pop, if_pos hne]
  refine ⟨congrArg some hhead, by omega, ?_, ?_, fun i hi => ?_⟩
  · rw [ringNext_eq_mod hlt]
    exact Nat.mod_lt _ (by omega)
  · dsimp only
    rw [h.wpos_eq, ringNext_eq_mod hlt, Nat.mod_add_mod, List.length_cons]
    congr 1
    omega
  · have hcell := h.cells (i + 1) (by rw [List.length_cons]; omega)
    rw [List.getElem_cons_succ] at hcell
    dsimp only
    rw [ringNext_eq_mod hlt, Nat.mod_add_mod, ← hcell]
    congr 2
    omega

theorem pop_nil (h : Holds n r []) : r.pop n = (none, r) :=
  if_neg (not_not.2 (h.rpos_eq_wpos_iff.2 rfl))

end RingBuffer.Holds

end Lib
