import Mathlib.Logic.Function.Basic
import Mathlib.Data.List.Nodup

/-!
# Linked chains

A singly linked list is a `next` pointer per node and a head. `Chain next head l` says that
following `next` from `head` visits exactly the nodes of `l`, in order, and then stops. A
chain is a function of the pointers, so it never visits a node twice: a list with a cycle
has no chain at all.

Pushing a node that is not on the chain and popping the head are the two updates a free list
makes; writing the pointer of a node off the chain changes nothing.
-/

namespace Lib

variable {α : Type*}

/-- Following `next` from the head visits the nodes of the list and then stops. -/
inductive Chain (next : α → Option α) : Option α → List α → Prop
  | nil : Chain next none []
  | cons {a : α} {l : List α} : Chain next (next a) l → Chain next (some a) (a :: l)

namespace Chain

variable {next : α → Option α} {head : Option α} {a : α} {l l' : List α}

theorem unique (h : Chain next head l) (h' : Chain next head l') : l = l' := by
  induction h generalizing l' with
  | nil => cases h'; rfl
  | cons _ ih =>
    cases h' with
    | cons h' => rw [ih h']

theorem exists_suffix (h : Chain next head l) (ha : a ∈ l) :
    ∃ l', Chain next (some a) l' ∧ l' <:+ l := by
  induction h with
  | nil => cases ha
  | @cons b l h ih =>
    rcases List.mem_cons.1 ha with rfl | ha
    · exact ⟨a :: l, .cons h, List.suffix_rfl⟩
    · obtain ⟨l', hl', hsuf⟩ := ih ha
      exact ⟨l', hl', hsuf.trans (List.suffix_cons b l)⟩

/-- **A chain visits no node twice.** -/
theorem nodup (h : Chain next head l) : l.Nodup := by
  induction h with
  | nil => exact List.nodup_nil
  | @cons b l h ih =>
    refine List.nodup_cons.2 ⟨fun hb => ?_, ih⟩
    -- A second visit to `b` would start a strictly shorter chain with the same head.
    obtain ⟨l', hl', hsuf⟩ := h.exists_suffix hb
    have hlen := hsuf.length_le
    rw [hl'.unique (.cons h), List.length_cons] at hlen
    omega

theorem pop (h : Chain next (some a) l) : ∃ l', l = a :: l' ∧ Chain next (next a) l' := by
  cases h with
  | cons h => exact ⟨_, rfl, h⟩

theorem head_none (h : Chain next none l) : l = [] := by
  cases h
  rfl

/-- Only the pointers of the nodes matter. -/
theorem congr {next' : α → Option α} (h : Chain next head l) (hnext : ∀ a ∈ l, next' a = next a) :
    Chain next' head l := by
  induction h with
  | nil => exact .nil
  | @cons a l _ ih =>
    have hl := ih fun b hb => hnext b (List.mem_cons_of_mem a hb)
    rw [← hnext a List.mem_cons_self] at hl
    exact .cons hl

/-- A run of nodes that each point to the next number, before a chain. -/
theorem segment {next : ℕ → Option ℕ} {l : List ℕ} {a n : ℕ}
    (hnext : ∀ i < n, next (a + i) = some (a + i + 1)) (h : Chain next (next (a + n)) l) :
    Chain next (some a) (List.range' a (n + 1) ++ l) := by
  induction n generalizing a with
  | zero => exact .cons h
  | succ n ih =>
    have hrest : Chain next (some (a + 1)) (List.range' (a + 1) (n + 1) ++ l) := by
      refine ih (fun i hi => ?_) ?_
      · rw [Nat.add_right_comm a 1 i]
        exact hnext (i + 1) (by omega)
      · rwa [Nat.add_right_comm a 1 n]
    have ha : next a = some (a + 1) := hnext 0 (by omega)
    rw [List.range'_succ]
    exact .cons (ha ▸ hrest)

/-- Follow the pointers for at most `n` nodes. -/
def follow (next : α → Option α) : Nat → Option α → Option (List α)
  | _, none => some []
  | 0, some _ => none
  | n + 1, some a => (follow next n (next a)).map (a :: ·)

theorem of_follow {n : Nat} (h : follow next n head = some l) : Chain next head l := by
  induction n generalizing head l with
  | zero =>
    cases head with
    | none => exact Option.some.inj h ▸ .nil
    | some a => cases h
  | succ n ih =>
    cases head with
    | none => exact Option.some.inj h ▸ .nil
    | some a =>
      obtain ⟨l', hl', rfl⟩ := Option.map_eq_some_iff.1 h
      exact .cons (ih hl')

variable [DecidableEq α]

theorem update_of_not_mem (h : Chain next head l) (ha : a ∉ l) (v : Option α) :
    Chain (Function.update next a v) head l := by
  induction h with
  | nil => exact .nil
  | @cons b l h ih =>
    simp only [List.mem_cons, not_or] at ha
    have hb : Function.update next a v b = next b := Function.update_of_ne (Ne.symm ha.1) v next
    exact .cons (hb ▸ ih ha.2)

theorem push (h : Chain next head l) (ha : a ∉ l) :
    Chain (Function.update next a head) (some a) (a :: l) := by
  have hh : Function.update next a head a = head := Function.update_self a head next
  exact .cons (by rw [hh]; exact h.update_of_not_mem ha head)

theorem pop_update (h : Chain next (some a) (a :: l)) (v : Option α) :
    Chain (Function.update next a v) (next a) l := by
  obtain ⟨l', hl, h'⟩ := h.pop
  obtain rfl : l = l' := (List.cons.inj hl).2
  exact h'.update_of_not_mem (List.nodup_cons.1 h.nodup).1 v

end Chain

end Lib
