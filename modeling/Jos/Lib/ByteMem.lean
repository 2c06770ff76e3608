import Mathlib.Tactic

/-!
# Byte memories

A memory with 32-bit addresses that wrap around, and little-endian words at any address,
aligned or not. Everything about overlap is said through the distance `x - a` of an address
from the start of a word: the word at `a` covers `x` if that distance is below four.
-/

namespace Lib

/-- A byte for every address. -/
abbrev ByteMem := BitVec 32 → BitVec 8

/-- The bytes of a word, from the lowest. -/
def byteAt (w : BitVec 32) (i : Nat) : BitVec 8 := w.extractLsb' (8 * i) 8

/-- Put the bytes of a word together, from the lowest. -/
def ofBytes (b₀ b₁ b₂ b₃ : BitVec 8) : BitVec 32 := b₃ ++ b₂ ++ b₁ ++ b₀

namespace ByteMem

def loadWord (m : ByteMem) (a : BitVec 32) : BitVec 32 :=
  ofBytes (m a) (m (a + 1#32)) (m (a + 2#32)) (m (a + 3#32))

def storeWord (m : ByteMem) (a w : BitVec 32) : ByteMem := fun x =>
  if (x - a).toNat < 4 then byteAt w (x - a).toNat else m x

/-- Stores in order, each an address and a word. -/
def storeWords (m : ByteMem) (l : List (BitVec 32 × BitVec 32)) : ByteMem :=
  l.foldl (fun m x => m.storeWord x.1 x.2) m

end ByteMem

/-- The words at `a` and `b` do not overlap. -/
def Apart (a b : BitVec 32) : Prop := 4 ≤ (a - b).toNat ∧ 4 ≤ (b - a).toNat

instance (a b : BitVec 32) : Decidable (Apart a b) := by unfold Apart; infer_instance

theorem Apart.symm {a b : BitVec 32} (h : Apart a b) : Apart b a := ⟨h.2, h.1⟩

/-- The word at `a` ends before the one at `b` starts, and that one does not wrap around. -/
theorem apart_of_le {a b : BitVec 32} (h : a.toNat + 4 ≤ b.toNat) (hb : b.toNat + 4 ≤ 2 ^ 32) :
    Apart a b := by
  unfold Apart
  rw [BitVec.toNat_sub, BitVec.toNat_sub]
  omega

theorem apart_add (b x y : BitVec 32) (h : Apart x y) : Apart (b + x) (b + y) := by
  unfold Apart at *
  rwa [show b + x - (b + y) = x - y by bv_omega, show b + y - (b + x) = y - x by bv_omega]

theorem byteAt_ofBytes (b₀ b₁ b₂ b₃ : BitVec 8) :
    byteAt (ofBytes b₀ b₁ b₂ b₃) 0 = b₀ ∧ byteAt (ofBytes b₀ b₁ b₂ b₃) 1 = b₁ ∧
      byteAt (ofBytes b₀ b₁ b₂ b₃) 2 = b₂ ∧ byteAt (ofBytes b₀ b₁ b₂ b₃) 3 = b₃ := by
  unfold byteAt ofBytes
  refine ⟨?_, ?_, ?_, ?_⟩ <;> ext i hi <;>
    simp <;> grind

theorem byteAt_ofBytes_byteAt (w : BitVec 32) :
    ofBytes (byteAt w 0) (byteAt w 1) (byteAt w 2) (byteAt w 3) = w := by
  apply BitVec.eq_of_getLsbD_eq
  intro i hi
  simp only [ofBytes, byteAt, BitVec.getLsbD_append, BitVec.getLsbD_extractLsb']
  interval_cases i <;> simp

namespace ByteMem

variable {m : ByteMem} {a b w : BitVec 32}

theorem byteAt_loadWord (m : ByteMem) (a : BitVec 32) {i : Nat} (h : i < 4) :
    byteAt (m.loadWord a) i = m (a + BitVec.ofNat 32 i) := by
  obtain ⟨h₀, h₁, h₂, h₃⟩ := byteAt_ofBytes (m a) (m (a + 1#32)) (m (a + 2#32)) (m (a + 3#32))
  unfold loadWord
  interval_cases i
  · rw [h₀, BitVec.add_zero]
  · rw [h₁]
  · rw [h₂]
  · rw [h₃]

theorem storeWord_of_far {x : BitVec 32} (h : 4 ≤ (x - a).toNat) : m.storeWord a w x = m x :=
  if_neg (by omega)

theorem storeWord_add {i : BitVec 32} (h : i.toNat < 4) :
    m.storeWord a w (a + i) = byteAt w i.toNat := by
  unfold storeWord
  rw [show a + i - a = i by bv_omega, if_pos h]

@[simp] theorem loadWord_storeWord (m : ByteMem) (a w : BitVec 32) :
    (m.storeWord a w).loadWord a = w := by
  have h0 : m.storeWord a w a = byteAt w 0 := by
    have := storeWord_add (m := m) (a := a) (w := w) (i := 0#32) (by decide)
    simpa using this
  have h1 := storeWord_add (m := m) (a := a) (w := w) (i := 1#32) (by decide)
  have h2 := storeWord_add (m := m) (a := a) (w := w) (i := 2#32) (by decide)
  have h3 := storeWord_add (m := m) (a := a) (w := w) (i := 3#32) (by decide)
  unfold loadWord
  rw [h0, h1, h2, h3]
  exact byteAt_ofBytes_byteAt w

theorem loadWord_congr {m' : ByteMem} (h : ∀ i : BitVec 32, i.toNat < 4 → m' (a + i) = m (a + i)) :
    m'.loadWord a = m.loadWord a := by
  have h0 := h 0#32 (by decide)
  rw [BitVec.add_zero] at h0
  unfold loadWord
  rw [h0, h 1#32 (by decide), h 2#32 (by decide), h 3#32 (by decide)]

theorem loadWord_storeWord_of_apart (h : Apart a b) :
    (m.storeWord b w).loadWord a = m.loadWord a := by
  apply loadWord_congr
  intro i hi
  apply storeWord_of_far
  have hba := (b - a).isLt
  have hsum : (a - b) + (b - a) = 0#32 := by bv_omega
  have hadd := congrArg BitVec.toNat hsum
  rw [BitVec.toNat_add] at hadd
  rw [show a + i - b = (a - b) + i by bv_omega, BitVec.toNat_add]
  have hab := (a - b).isLt
  have h1 := h.1
  have h2 := h.2
  simp only [BitVec.toNat_ofNat, Nat.zero_mod] at hadd
  omega

/-- A sequence of stores leaves the bytes none of them covers. -/
theorem storeWords_of_far {l : List (BitVec 32 × BitVec 32)} {x : BitVec 32}
    (h : ∀ y ∈ l, 4 ≤ (x - y.1).toNat) : m.storeWords l x = m x := by
  induction l generalizing m with
  | nil => rfl
  | cons y l ih =>
    have hl : ∀ z ∈ l, 4 ≤ (x - z.1).toNat := fun z hz => h z (List.mem_cons_of_mem _ hz)
    calc (m.storeWord y.1 y.2).storeWords l x = m.storeWord y.1 y.2 x := ih hl
      _ = m x := storeWord_of_far (h y List.mem_cons_self)

theorem loadWord_storeWords_of_apart {l : List (BitVec 32 × BitVec 32)}
    (h : ∀ y ∈ l, Apart a y.1) : (m.storeWords l).loadWord a = m.loadWord a := by
  induction l generalizing m with
  | nil => rfl
  | cons y l ih =>
    have hl : ∀ z ∈ l, Apart a z.1 := fun z hz => h z (List.mem_cons_of_mem _ hz)
    calc ((m.storeWord y.1 y.2).storeWords l).loadWord a
        = (m.storeWord y.1 y.2).loadWord a := ih hl
      _ = m.loadWord a := loadWord_storeWord_of_apart (h y List.mem_cons_self)

/-- Where no two stores of a sequence overlap, each one is what is read back. -/
theorem loadWord_storeWords {l : List (BitVec 32 × BitVec 32)}
    (hl : l.Pairwise fun x y => Apart x.1 y.1) {x : BitVec 32 × BitVec 32} (hx : x ∈ l) :
    (m.storeWords l).loadWord x.1 = x.2 := by
  induction l generalizing m with
  | nil => cases hx
  | cons y l ih =>
    obtain ⟨hy, hl'⟩ := List.pairwise_cons.1 hl
    rcases List.mem_cons.1 hx with rfl | hx
    · calc ((m.storeWord x.1 x.2).storeWords l).loadWord x.1
          = (m.storeWord x.1 x.2).loadWord x.1 := loadWord_storeWords_of_apart hy
        _ = x.2 := loadWord_storeWord ..
    · exact ih hl' hx

end ByteMem

end Lib
