import Jos.Lib.ByteMem

/-!
# Stacks in a byte memory

A stack grows down, and a push stores a word below the stack pointer. A whole sequence of pushes is
`pushWords`: every word can be read back, and nothing above the stack pointer or below the last word
changes. The stack pointer may be any address, as addresses wrap around.
-/

namespace Lib

namespace ByteMem

variable {m : ByteMem} {a w : BitVec 32}

/-- Push words in order, each below the one before. -/
def pushWords (m : ByteMem) (sp : BitVec 32) : List (BitVec 32) → ByteMem
  | [] => m
  | w :: ws => (m.storeWord (sp - 4#32) w).pushWords (sp - 4#32) ws

theorem pushWords_append (m : ByteMem) (sp : BitVec 32) (ws vs : List (BitVec 32)) :
    m.pushWords sp (ws ++ vs) =
      (m.pushWords sp ws).pushWords (sp - BitVec.ofNat 32 (4 * ws.length)) vs := by
  induction ws generalizing m sp with
  | nil =>
    rw [List.length_nil, Nat.mul_zero, BitVec.sub_zero]
    rfl
  | cons w ws ih =>
    rw [List.cons_append, pushWords, ih, pushWords, List.length_cons, Nat.mul_add, BitVec.ofNat_add,
      BitVec.add_comm, ← BitVec.sub_sub]

/-- Pushing leaves what lies above the stack pointer, as long as the stack does not go all the way
round. -/
theorem loadWord_pushWords_of_above {sp : BitVec 32} {ws : List (BitVec 32)}
    (h : ∀ i < ws.length, Apart a (sp - BitVec.ofNat 32 (4 * (i + 1)))) :
    (m.pushWords sp ws).loadWord a = m.loadWord a := by
  induction ws generalizing m sp with
  | nil => rfl
  | cons w ws ih =>
    have hrest : ∀ i < ws.length, Apart a (sp - 4#32 - BitVec.ofNat 32 (4 * (i + 1))) := by
      intro i hi
      have hi' := h (i + 1) (Nat.succ_lt_succ hi)
      rwa [show sp - 4#32 - BitVec.ofNat 32 (4 * (i + 1)) = sp - BitVec.ofNat 32
        (4 * (i + 1 + 1)) by
        rw [Nat.mul_add 4 (i + 1) 1, BitVec.ofNat_add]
        bv_omega]
    have hhead : Apart a (sp - 4#32) := h 0 (Nat.succ_pos _)
    calc ((m.storeWord (sp - 4#32) w).pushWords (sp - 4#32) ws).loadWord a
        = (m.storeWord (sp - 4#32) w).loadWord a := ih hrest
      _ = m.loadWord a := loadWord_storeWord_of_apart hhead

/-- **What is pushed can be read back.** -/
theorem loadWord_pushWords {sp : BitVec 32} {ws : List (BitVec 32)} (hlen : 4 * ws.length < 2 ^ 32)
    {i : Nat} (hi : ws[i]? = some w) :
    (m.pushWords sp ws).loadWord (sp - BitVec.ofNat 32 (4 * (i + 1))) = w := by
  induction ws generalizing m sp i with
  | nil => cases hi
  | cons v ws ih =>
    rw [List.length_cons] at hlen
    cases i with
    | zero =>
      obtain rfl : v = w := Option.some.inj hi
      calc ((m.storeWord (sp - 4#32) v).pushWords (sp - 4#32) ws).loadWord (sp - 4#32)
          = (m.storeWord (sp - 4#32) v).loadWord (sp - 4#32) := by
            apply loadWord_pushWords_of_above
            intro i hi
            rw [BitVec.sub_eq_add_neg (sp - 4#32)]
            nth_rewrite 1 [← BitVec.add_zero (sp - 4#32)]
            apply apart_add
            unfold Apart
            rw [BitVec.toNat_sub, BitVec.toNat_sub, BitVec.toNat_neg, BitVec.toNat_ofNat,
              BitVec.toNat_ofNat]
            omega
        _ = v := loadWord_storeWord ..
    | succ i =>
      have hi' : ws[i]? = some w := hi
      have hstep : ((m.storeWord (sp - 4#32) v).pushWords (sp - 4#32) ws).loadWord
          (sp - 4#32 - BitVec.ofNat 32 (4 * (i + 1))) = w := ih (by omega) hi'
      rwa [show sp - 4#32 - BitVec.ofNat 32 (4 * (i + 1)) = sp - BitVec.ofNat 32
        (4 * (i + 1 + 1)) by
        rw [Nat.mul_add 4 (i + 1) 1, BitVec.ofNat_add]
        bv_omega] at hstep

theorem loadWord_pushWords_add {sp b : BitVec 32} {ws : List (BitVec 32)}
    (hlen : 4 * ws.length < 2 ^ 32) {i n : Nat} (hi : ws[i]? = some w) (hn : i < n)
    (hb : b = sp - BitVec.ofNat 32 (4 * n)) :
    (m.pushWords sp ws).loadWord (b + BitVec.ofNat 32 (4 * (n - (i + 1)))) = w := by
  have haddr : b + BitVec.ofNat 32 (4 * (n - (i + 1))) = sp - BitVec.ofNat 32 (4 * (i + 1)) := by
    rw [hb, show 4 * n = 4 * (i + 1) + 4 * (n - (i + 1)) by omega, BitVec.ofNat_add,
      ← BitVec.sub_sub]
    exact BitVec.sub_add_cancel _ _
  rw [haddr]
  exact loadWord_pushWords hlen hi

theorem pushWords_of_far {sp : BitVec 32} {ws : List (BitVec 32)} {x : BitVec 32}
    (hlen : 4 * ws.length < 2 ^ 32) (h : (x - sp).toNat < 2 ^ 32 - 4 * ws.length) :
    m.pushWords sp ws x = m x := by
  induction ws generalizing m sp with
  | nil => rfl
  | cons w ws ih =>
    rw [List.length_cons] at hlen h
    have hnext : (x - (sp - 4#32)).toNat = (x - sp).toNat + 4 := by
      rw [show x - (sp - 4#32) = x - sp + 4#32 by bv_omega, BitVec.toNat_add]
      simp only [BitVec.toNat_ofNat]
      omega
    calc (m.storeWord (sp - 4#32) w).pushWords (sp - 4#32) ws x
        = m.storeWord (sp - 4#32) w x := ih (by omega) (by omega)
      _ = m x := storeWord_of_far (by omega)

end ByteMem

end Lib
