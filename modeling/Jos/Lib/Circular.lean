import Mathlib.Tactic
import Mathlib.Data.List.Nodup

/-!
# Round-robin service

`n` slots in a circle. `gap n s e` is how many slots a scan from `s` passes before `e`, so a scan
from `s` serves the member of a set that is first (`IsFirst`) in this order. A scan may start at
`n`, which is the same as zero.

**Rounds.** If each scan starts just after the slot served last (`Rounds`), then as many scans as
the set has members serve each of them once, in the order of the first scan (`Rounds.serves`). The
proof rotates the sorted list of the members: what is served is its head, and seen from the next
slot it is the last (`Sorted.rotate`).
-/

namespace Lib

variable {n : ℕ}

/-- The number of slots from `s` to `e`. -/
def gap (n s e : ℕ) : ℕ := if s ≤ e then e - s else n - s + e

theorem gap_lt {s e : ℕ} (hs : s ≤ n) (he : e < n) : gap n s e < n := by
  unfold gap
  split_ifs <;> omega

theorem gap_inj {s a b : ℕ} (hs : s ≤ n) (ha : a < n) (hb : b < n) (h : gap n s a = gap n s b) :
    a = b := by
  unfold gap at h
  split_ifs at h <;> omega

theorem gap_succ_self {a : ℕ} (ha : a < n) : gap n (a + 1) a = n - 1 := by
  unfold gap
  rw [if_neg (by omega)]
  omega

/-- Beyond `a`, a scan from the next slot finds the same order. -/
theorem gap_succ_of_lt {s a b : ℕ} (hs : s ≤ n) (ha : a < n) (hb : b < n)
    (h : gap n s a < gap n s b) : gap n (a + 1) b + gap n s a + 1 = gap n s b := by
  unfold gap at *
  split_ifs at * <;> omega

/-- The slot at distance `c` from `s`. -/
def slot (n : ℕ) [NeZero n] (s c : ℕ) : Fin n := ⟨(s + c) % n, Nat.mod_lt _ (NeZero.pos n)⟩

variable [NeZero n] {s : ℕ} {e : Fin n}

theorem gap_slot (hs : s ≤ n) {c : ℕ} (hc : c < n) : gap n s (slot n s c) = c := by
  have hval : (slot n s c).val = if s + c < n then s + c else s + c - n := by
    split_ifs with h
    · exact Nat.mod_eq_of_lt h
    · change (s + c) % n = s + c - n
      by_cases htop : s + c < 2 * n
      · rw [Nat.mod_eq_sub_mod (by omega), Nat.mod_eq_of_lt (by omega)]
      · omega
  rw [hval]
  unfold gap
  split_ifs <;> omega

theorem slot_gap (hs : s ≤ n) (e : Fin n) : slot n s (gap n s e) = e :=
  Fin.ext (gap_inj hs (Fin.is_lt _) e.isLt (gap_slot hs (gap_lt hs e.isLt)))

/-- All slots, as a scan from `s` meets them. -/
def circle (n : ℕ) [NeZero n] (s : ℕ) : List (Fin n) := (List.range n).map (slot n s)

theorem mem_circle (hs : s ≤ n) (e : Fin n) : e ∈ circle n s :=
  List.mem_map.2 ⟨gap n s e, List.mem_range.2 (gap_lt hs e.isLt), slot_gap hs e⟩

theorem pairwise_circle (hs : s ≤ n) :
    (circle n s).Pairwise fun a b : Fin n => gap n s a < gap n s b := by
  refine List.pairwise_map.2 (List.Pairwise.imp_of_mem ?_ List.pairwise_lt_range)
  intro a b ha hb hab
  rw [gap_slot hs (List.mem_range.1 ha), gap_slot hs (List.mem_range.1 hb)]
  exact hab

/-- A scan from `s` for a member of `R` stops at `e`. -/
def IsFirst (R : Fin n → Prop) (s : ℕ) (e : Fin n) : Prop :=
  R e ∧ ∀ e', R e' → gap n s e ≤ gap n s e'

variable {R : Fin n → Prop}

omit [NeZero n] in
theorem IsFirst.unique {e' : Fin n} (hs : s ≤ n) (h : IsFirst R s e) (h' : IsFirst R s e') :
    e = e' :=
  Fin.ext (gap_inj hs e.isLt e'.isLt (le_antisymm (h.2 e' h'.1) (h'.2 e h.1)))

/-- The members of `R` in the order of a scan from `s`. -/
structure Sorted (R : Fin n → Prop) (s : ℕ) (l : List (Fin n)) : Prop where
  pairwise : l.Pairwise fun a b : Fin n => gap n s a < gap n s b
  mem : ∀ e, e ∈ l ↔ R e

omit [NeZero n] in
theorem Sorted.nodup {l : List (Fin n)} (h : Sorted R s l) : l.Nodup := by
  refine h.pairwise.imp fun {a b} hab heq => ?_
  rw [heq] at hab
  exact lt_irrefl _ hab

theorem sorted_circle [DecidablePred R] (hs : s ≤ n) : Sorted R s ((circle n s).filter (R ·)) := by
  refine ⟨(pairwise_circle hs).filter _, fun e => ?_⟩
  rw [List.mem_filter, decide_eq_true_iff]
  exact ⟨And.right, fun h => ⟨mem_circle hs e, h⟩⟩

omit [NeZero n] in
theorem Sorted.isFirst {l : List (Fin n)} (h : Sorted R s (e :: l)) : IsFirst R s e := by
  refine ⟨(h.mem e).1 List.mem_cons_self, fun e' he' => ?_⟩
  rcases List.mem_cons.1 ((h.mem e').2 he') with rfl | he'
  · exact le_rfl
  · exact le_of_lt ((List.pairwise_cons.1 h.pairwise).1 e' he')

/-- **Find** is a scan. -/
theorem find?_circle [DecidablePred R] (hs : s ≤ n) :
    (circle n s).find? (R ·) = some e ↔ IsFirst R s e := by
  have hsort := sorted_circle (R := R) hs
  rw [← List.head?_filter]
  cases hl : (circle n s).filter (R ·) with
  | nil =>
    rw [hl] at hsort
    refine ⟨fun h => (by cases h), fun h => ?_⟩
    cases (hsort.mem e).2 h.1
  | cons a l =>
    rw [hl] at hsort
    rw [List.head?_cons, Option.some.injEq]
    exact ⟨fun h => h ▸ hsort.isFirst, fun h => hsort.isFirst.unique hs h⟩

theorem find?_circle_none [DecidablePred R] (hs : s ≤ n) :
    (circle n s).find? (R ·) = none ↔ ∀ e, ¬ R e := by
  rw [List.find?_eq_none]
  exact ⟨fun h e => by simpa using h e (mem_circle hs e), fun h e _ => by simpa using h e⟩

theorem exists_isFirst [DecidablePred R] (hs : s ≤ n) (h : ∃ e, R e) : ∃ e, IsFirst R s e := by
  obtain ⟨e, he⟩ := h
  cases hfind : (circle n s).find? (R ·) with
  | none => exact ((find?_circle_none hs).1 hfind e he).elim
  | some e₁ => exact ⟨e₁, (find?_circle hs).1 hfind⟩

omit [NeZero n] in
/-- From the slot after the first member, the first member is the last. -/
theorem Sorted.rotate {l : List (Fin n)} (hs : s ≤ n) (h : Sorted R s (e :: l)) :
    Sorted R (e + 1) (l ++ [e]) := by
  obtain ⟨hfirst, hrest⟩ := List.pairwise_cons.1 h.pairwise
  have hshift : ∀ b ∈ l, gap n (e + 1) b + gap n s e + 1 = gap n s b := fun b hb =>
    gap_succ_of_lt hs e.isLt b.isLt (hfirst b hb)
  refine ⟨List.pairwise_append.2 ⟨?_, List.pairwise_singleton _ _, ?_⟩, fun e' => ?_⟩
  · refine hrest.imp_of_mem fun {a b} ha hb hab => ?_
    have ha' := hshift a ha
    have hb' := hshift b hb
    omega
  · intro a ha b hb
    obtain rfl := List.mem_singleton.1 hb
    have ha' := hshift a ha
    have hlt := gap_lt hs a.isLt
    rw [gap_succ_self b.isLt]
    omega
  · rw [List.mem_append, List.mem_singleton, ← h.mem, List.mem_cons]
    exact or_comm

/-- Each scan starts just after the slot that was served last. -/
inductive Rounds (R : Fin n → Prop) : ℕ → List (Fin n) → Prop
  | nil {s : ℕ} : Rounds R s []
  | cons {s : ℕ} {e : Fin n} {l : List (Fin n)} (h : IsFirst R s e) (hl : Rounds R (e + 1) l) :
      Rounds R s (e :: l)

omit [NeZero n] in
theorem Rounds.eq_take {l L : List (Fin n)} (h : Rounds R s l) (hs : s ≤ n) (hL : Sorted R s L)
    (hlen : l.length ≤ L.length) : l = L.take l.length := by
  induction h generalizing L with
  | nil => simp
  | @cons s e l hfirst _ ih =>
    cases L with
    | nil => simp at hlen
    | cons a L =>
      obtain rfl : e = a := hfirst.unique hs hL.isFirst
      have hl : l.length ≤ L.length := by simpa using hlen
      have hnext := ih (Nat.succ_le_of_lt e.isLt) (hL.rotate hs) (by
        rw [List.length_append]
        omega)
      rw [List.take_append_of_le_length hl] at hnext
      rw [List.length_cons, List.take_succ_cons, ← hnext]

/-- **As many scans as there are members** serve each of them once, in order. -/
theorem Rounds.serves {l : List (Fin n)} [DecidablePred R] (h : Rounds R s l) (hs : s ≤ n)
    (hlen : l.length = (Finset.univ.filter R).card) : Sorted R s l := by
  have hL := sorted_circle (R := R) hs
  set L := (circle n s).filter (R ·) with hdef
  have hcard : L.length = (Finset.univ.filter R).card := by
    rw [← List.toFinset_card_of_nodup hL.nodup]
    congr 1
    ext e
    rw [List.mem_toFinset, hL.mem, Finset.mem_filter]
    exact ⟨fun he => ⟨Finset.mem_univ e, he⟩, And.right⟩
  have heq := h.eq_take hs hL (by omega)
  rw [hlen, ← hcard, List.take_length] at heq
  rw [heq]
  exact hL

end Lib
