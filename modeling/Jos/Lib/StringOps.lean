import Jos.Lib.ByteMem

/-!
# Copying and filling, and the string instructions

`ByteMem.move` and `ByteMem.fill` say what copying and filling a range of memory should do, all at
once. A loop does it in pieces, and each piece changes the memory the next one reads.

**The pieces** of a copy make up the whole if no piece overwrites what a later one reads. Going up
(`move_move_up`) that is so if the destination is not inside the source behind its start, going down
(`move_move_down`) if it is not before it.

`rep` repeats a string instruction, with the registers `edi` and `esi` that go up or down after each
one. What a single instruction does is a parameter: `Moves` and `Fills` are all the loop needs to
know.
-/

namespace Lib

namespace ByteMem

/-- `n` bytes from `s` to `d`, where none of the ranges wraps around. -/
def move (m : ByteMem) (d s n : Nat) : ByteMem := fun x =>
  if d ≤ x.toNat ∧ x.toNat < d + n then m (BitVec.ofNat 32 (s + (x.toNat - d))) else m x

/-- The byte `c` at `n` addresses from `v` on. -/
def fill (m : ByteMem) (v n : Nat) (c : BitVec 8) : ByteMem := fun x =>
  if v ≤ x.toNat ∧ x.toNat < v + n then c else m x

def storeByte (m : ByteMem) (a : BitVec 32) (b : BitVec 8) : ByteMem := Function.update m a b

variable {m : ByteMem} {d s v a b : Nat} {c : BitVec 8} {x : BitVec 32}

theorem move_inside (h : d ≤ x.toNat ∧ x.toNat < d + a) :
    m.move d s a x = m (BitVec.ofNat 32 (s + (x.toNat - d))) := if_pos h

theorem move_outside (h : ¬ (d ≤ x.toNat ∧ x.toNat < d + a)) : m.move d s a x = m x := if_neg h

@[simp] theorem move_zero (m : ByteMem) (d s : Nat) : m.move d s 0 = m := by
  funext x
  exact move_outside (by omega)

@[simp] theorem fill_zero (m : ByteMem) (v : Nat) (c : BitVec 8) : m.fill v 0 c = m := by
  funext x
  exact if_neg (by omega)

/-- Going up: the first piece must not overwrite the source of the second. -/
theorem move_move_up (hs : s + (a + b) ≤ 2 ^ 32) (h : d ≤ s ∨ s + (a + b) ≤ d) :
    (m.move d s a).move (d + a) (s + a) b = m.move d s (a + b) := by
  funext x
  by_cases hb : d + a ≤ x.toNat ∧ x.toNat < d + a + b
  · have hsrc : (BitVec.ofNat 32 (s + a + (x.toNat - (d + a)))).toNat = s + (x.toNat - d) := by
      rw [BitVec.toNat_ofNat, Nat.mod_eq_of_lt (by omega)]
      omega
    rw [move_inside hb, move_outside (by rw [hsrc]; omega), move_inside (by omega)]
    congr 2
    omega
  rw [move_outside hb]
  by_cases ha : d ≤ x.toNat ∧ x.toNat < d + a
  · rw [move_inside ha, move_inside (by omega)]
  · rw [move_outside ha, move_outside (by omega)]

/-- Going down: the piece above is copied first. -/
theorem move_move_down (hs : s + (a + b) ≤ 2 ^ 32) (h : s ≤ d) :
    (m.move (d + a) (s + a) b).move d s a = m.move d s (a + b) := by
  funext x
  by_cases ha : d ≤ x.toNat ∧ x.toNat < d + a
  · have hsrc : (BitVec.ofNat 32 (s + (x.toNat - d))).toNat = s + (x.toNat - d) := by
      rw [BitVec.toNat_ofNat, Nat.mod_eq_of_lt (by omega)]
    rw [move_inside ha, move_outside (by rw [hsrc]; omega), move_inside (by omega)]
  rw [move_outside ha]
  by_cases hb : d + a ≤ x.toNat ∧ x.toNat < d + a + b
  · rw [move_inside hb, move_inside (by omega)]
    congr 2
    omega
  · rw [move_outside hb, move_outside (by omega)]

theorem fill_fill : (m.fill v a c).fill (v + a) b c = m.fill v (a + b) c := by
  funext x
  simp only [fill]
  split_ifs <;> first | rfl | omega

end ByteMem

/-! ## String instructions -/

/-- A string instruction: what it does to the memory, with `edi` and `esi` as they are. -/
abbrev StringOp := ByteMem → BitVec 32 → BitVec 32 → ByteMem

/-- `movsb`. -/
def movsb : StringOp := fun m edi esi => m.storeByte edi (m esi)

/-- `movsl`. -/
def movsl : StringOp := fun m edi esi => m.storeWord edi (m.loadWord esi)

/-- `stosb`, with `al` the low byte of `eax`. -/
def stosb (eax : BitVec 32) : StringOp := fun m edi _ => m.storeByte edi (byteAt eax 0)

/-- `stosl`. -/
def stosl (eax : BitVec 32) : StringOp := fun m edi _ => m.storeWord edi eax

/-- The `rep` prefix, for an instruction on `w` bytes: `ecx` times, and after each time the
registers go up by `w`, or down if the direction flag `df` is set. -/
def rep (op : StringOp) (w : Nat) (df : Bool) : Nat → StringOp
  | 0, m, _, _ => m
  | ecx + 1, m, edi, esi =>
    let δ := if df then - BitVec.ofNat 32 w else BitVec.ofNat 32 w
    rep op w df ecx (op m edi esi) (edi + δ) (esi + δ)

/-- The instruction copies `w` bytes. -/
def Moves (op : StringOp) (w : Nat) : Prop := ∀ (m : ByteMem) (d s : Nat), d + w ≤ 2 ^ 32 →
  s + w ≤ 2 ^ 32 → op m (BitVec.ofNat 32 d) (BitVec.ofNat 32 s) = m.move d s w

/-- The instruction stores the byte `c` at `w` addresses. -/
def Fills (op : StringOp) (w : Nat) (c : BitVec 8) : Prop :=
  ∀ (m : ByteMem) (v : Nat) (esi : BitVec 32), v + w ≤ 2 ^ 32 →
  op m (BitVec.ofNat 32 v) esi = m.fill v w c

section Rep

variable {op : StringOp} {w d s v : Nat} {c : BitVec 8}

theorem rep_succ_up (n : Nat) (m : ByteMem) (edi esi : BitVec 32) :
    rep op w false (n + 1) m edi esi =
    rep op w false n (op m edi esi) (edi + BitVec.ofNat 32 w) (esi + BitVec.ofNat 32 w) := rfl

theorem rep_succ_down (n : Nat) (m : ByteMem) (edi esi : BitVec 32) :
    rep op w true (n + 1) m edi esi =
    rep op w true n (op m edi esi) (edi - BitVec.ofNat 32 w) (esi - BitVec.ofNat 32 w) := by
  rw [BitVec.sub_eq_add_neg, BitVec.sub_eq_add_neg]
  rfl

/-- **Going up** copies right if the destination starts before the source, or behind its end. -/
theorem Moves.rep_up (hop : Moves op w) (n : Nat) (m : ByteMem) (hd : d + n * w ≤ 2 ^ 32)
    (hs : s + n * w ≤ 2 ^ 32) (h : d ≤ s ∨ s + n * w ≤ d) :
    rep op w false n m (BitVec.ofNat 32 d) (BitVec.ofNat 32 s) = m.move d s (n * w) := by
  induction n generalizing m d s with
  | zero => simp [rep]
  | succ n ih =>
    rw [Nat.succ_mul, Nat.add_comm (n * w)] at hd hs h ⊢
    calc rep op w false (n + 1) m (BitVec.ofNat 32 d) (BitVec.ofNat 32 s)
        = rep op w false n (m.move d s w) (BitVec.ofNat 32 (d + w)) (BitVec.ofNat 32 (s + w)) := by
          rw [rep_succ_up, hop m d s (by omega) (by omega), BitVec.ofNat_add, BitVec.ofNat_add]
      _ = (m.move d s w).move (d + w) (s + w) (n * w) :=
          ih _ (by omega) (by omega) (by omega)
      _ = m.move d s (w + n * w) := ByteMem.move_move_up hs h

theorem ofNat_add_sub_self (d w : Nat) :
    BitVec.ofNat 32 (d + w) - BitVec.ofNat 32 w = BitVec.ofNat 32 d := by
  rw [BitVec.ofNat_add, BitVec.add_sub_cancel]

/-- **Going down**, from the last cell, copies right if the destination is behind the source. -/
theorem Moves.rep_down (hop : Moves op w) (n : Nat) (m : ByteMem) (hd : d + n * w ≤ 2 ^ 32)
    (hs : s + n * w ≤ 2 ^ 32) (h : s ≤ d) :
    rep op w true n m (BitVec.ofNat 32 (d + n * w) - BitVec.ofNat 32 w)
      (BitVec.ofNat 32 (s + n * w) - BitVec.ofNat 32 w) = m.move d s (n * w) := by
  induction n generalizing m with
  | zero => simp [rep]
  | succ n ih =>
    rw [Nat.succ_mul] at hd hs ⊢
    rw [← Nat.add_assoc, ← Nat.add_assoc, ofNat_add_sub_self, ofNat_add_sub_self]
    calc rep op w true (n + 1) m (BitVec.ofNat 32 (d + n * w)) (BitVec.ofNat 32 (s + n * w))
        = rep op w true n (m.move (d + n * w) (s + n * w) w)
            (BitVec.ofNat 32 (d + n * w) - BitVec.ofNat 32 w)
            (BitVec.ofNat 32 (s + n * w) - BitVec.ofNat 32 w) := by
          rw [rep_succ_down, hop m _ _ (by omega) (by omega)]
      _ = (m.move (d + n * w) (s + n * w) w).move d s (n * w) := ih _ (by omega) (by omega)
      _ = m.move d s (n * w + w) := ByteMem.move_move_down hs h

theorem Fills.rep_up (hop : Fills op w c) (n : Nat) (m : ByteMem) (esi : BitVec 32)
    (hv : v + n * w ≤ 2 ^ 32) :
    rep op w false n m (BitVec.ofNat 32 v) esi = m.fill v (n * w) c := by
  induction n generalizing m v esi with
  | zero => simp [rep]
  | succ n ih =>
    rw [Nat.succ_mul, Nat.add_comm (n * w)] at hv ⊢
    calc rep op w false (n + 1) m (BitVec.ofNat 32 v) esi
        = rep op w false n (m.fill v w c) (BitVec.ofNat 32 (v + w)) (esi + BitVec.ofNat 32 w) := by
          rw [rep_succ_up, hop m v esi (by omega), BitVec.ofNat_add]
      _ = (m.fill v w c).fill (v + w) (n * w) c := ih _ _ (by omega)
      _ = m.fill v (w + n * w) c := ByteMem.fill_fill

end Rep

/-! ### What the instructions do -/

theorem storeByte_ofNat (m : ByteMem) (b : BitVec 8) {d : Nat} (hd : d < 2 ^ 32) (x : BitVec 32) :
    m.storeByte (BitVec.ofNat 32 d) b x = if d ≤ x.toNat ∧ x.toNat < d + 1 then b else m x := by
  have hx : x = BitVec.ofNat 32 d ↔ d ≤ x.toNat ∧ x.toNat < d + 1 := by
    rw [← BitVec.toNat_inj, BitVec.toNat_ofNat, Nat.mod_eq_of_lt hd]
    omega
  simp only [ByteMem.storeByte, Function.update_apply, hx]

theorem storeWord_ofNat (m : ByteMem) (w : BitVec 32) {d : Nat} (hd : d + 4 ≤ 2 ^ 32)
    (x : BitVec 32) :
    m.storeWord (BitVec.ofNat 32 d) w x =
      if d ≤ x.toNat ∧ x.toNat < d + 4 then byteAt w (x.toNat - d) else m x := by
  have hsub : (x - BitVec.ofNat 32 d).toNat = (2 ^ 32 - d + x.toNat) % 2 ^ 32 := by
    rw [BitVec.toNat_sub, BitVec.toNat_ofNat, Nat.mod_eq_of_lt (show d < 2 ^ 32 by omega)]
  have hx := x.isLt
  unfold ByteMem.storeWord
  by_cases h : d ≤ x.toNat ∧ x.toNat < d + 4
  · have hdist : (x - BitVec.ofNat 32 d).toNat = x.toNat - d := by omega
    rw [if_pos h, if_pos (by omega), hdist]
  · rw [if_neg h, if_neg (by omega)]

theorem moves_movsb : Moves movsb 1 := by
  intro m d s hd hs
  funext x
  unfold movsb ByteMem.move
  rw [storeByte_ofNat m _ (by omega)]
  by_cases h : d ≤ x.toNat ∧ x.toNat < d + 1
  · rw [if_pos h, if_pos h, show s + (x.toNat - d) = s by omega]
  · rw [if_neg h, if_neg h]

theorem moves_movsl : Moves movsl 4 := by
  intro m d s hd hs
  funext x
  unfold movsl ByteMem.move
  rw [storeWord_ofNat m _ hd]
  by_cases h : d ≤ x.toNat ∧ x.toNat < d + 4
  · rw [if_pos h, if_pos h, ByteMem.byteAt_loadWord m _ (by omega), BitVec.ofNat_add]
  · rw [if_neg h, if_neg h]

theorem fills_stosb (eax : BitVec 32) : Fills (stosb eax) 1 (byteAt eax 0) := by
  intro m v _ hv
  funext x
  exact storeByte_ofNat m _ (by omega) x

theorem fills_stosl {eax : BitVec 32} {c : BitVec 8} (h : ∀ i < 4, byteAt eax i = c) :
    Fills (stosl eax) 4 c := by
  intro m v _ hv
  funext x
  unfold stosl ByteMem.fill
  rw [storeWord_ofNat m _ hv]
  by_cases hx : v ≤ x.toNat ∧ x.toNat < v + 4
  · rw [if_pos hx, if_pos hx, h _ (by omega)]
  · rw [if_neg hx, if_neg hx]

end Lib
