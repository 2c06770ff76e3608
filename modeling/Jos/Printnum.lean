import Jos.Numeric

/-!
# Positional notation

`printnum` with the machine's integers: a number of 64 bits, an `unsigned` base and an `int` width.
The digits in front of the last are printed by a recursive call with one less in the width, and what
is left of the width at the first digit is filled up.

**The width** (`printnum_eq`). Every digit takes one from the width, and a number of 64 bits has at
most 64 digits. So the width stays an `int` if there are 64 to take away, and then the machine
prints what `Jos.printnum` does.

**Theorem (`printnum_positional`).** The output is the padding and then the number in positional
notation (`Positional`): digits of the base, no zero in front, and the number when they are read
back.
-/

namespace Jos

open Lib NumDirective

namespace CInt

/-- The loop `while (--width > 0)` that prints the padding. -/
def printPad (padc : Int) (width : Word) : Print Unit :=
  if _h : 0 < (width - 1#32).toInt then do
    putch padc
    printPad padc (width - 1#32)
  else return
termination_by width.toNat
decreasing_by
  rw [BitVec.toInt_eq_toNat_cond] at _h
  split at _h <;> bv_omega

/-- `printnum`, for a base of at least two. -/
def printnum (padc : Int) (base : Word) (num : BitVec 64) (width : Word) : Print Unit :=
  if _h : 2 ≤ base.toNat ∧ base.toNat ≤ num.toNat then do
    printnum padc base (num / base.setWidth 64) (width - 1#32)
    putch ("0123456789abcdef".toList.getD (num % base.setWidth 64).toNat '0').toNat
  else do
    printPad padc width
    putch ("0123456789abcdef".toList.getD (num % base.setWidth 64).toNat '0').toNat
termination_by num.toNat
decreasing_by
  rw [BitVec.toNat_udiv, BitVec.toNat_setWidth_of_le (by decide)]
  exact Nat.div_lt_self (by omega) (by omega)

end CInt

/-! ## The width stays an `int` -/

theorem toInt_pred {width : Word} (h : -2 ^ 31 < width.toInt) :
    (width - 1#32).toInt = width.toInt - 1 := by
  have hlt := width.toInt_lt
  have hle := width.le_toInt
  rw [BitVec.toInt_sub, show (1#32).toInt = 1 by decide, Int.bmod_eq_of_le]
  · omega
  · omega

theorem printPad_eq (padc : Int) {width : Word} (h : -2 ^ 31 < width.toInt) :
    CInt.printPad padc width = putPad padc (width.toInt - 1).toNat := by
  generalize hn : (width.toInt - 1).toNat = n
  induction n generalizing width with
  | zero =>
    rw [CInt.printPad, dif_neg (by rw [toInt_pred h]; omega)]
    rfl
  | succ n ih =>
    have hpred := toInt_pred h
    rw [CInt.printPad, dif_pos (by rw [hpred]; omega), ih (by rw [hpred]; omega)
      (by rw [hpred]; omega)]
    rfl

/-- **The machine's `printnum`**, where the width is at least the digits away from an overflow. -/
theorem printnum_eq (padc : Int) {base : Word} (hlo : 2 ≤ base.toNat) (num : BitVec 64)
    {width : Word} (h : -2 ^ 31 + (numeral base.toNat num.toNat).length ≤ width.toInt) :
    CInt.printnum padc base num width = printnum base.toNat padc num.toNat width.toInt := by
  have hbase : (base.setWidth 64).toNat = base.toNat := BitVec.toNat_setWidth_of_le (by decide)
  induction hn : num.toNat using Nat.strong_induction_on generalizing num width with
  | _ n ih =>
    subst hn
    have hdiv : (num / base.setWidth 64).toNat = num.toNat / base.toNat := by
      rw [BitVec.toNat_udiv, hbase]
    have hmod : (num % base.setWidth 64).toNat = num.toNat % base.toNat := by
      rw [BitVec.toNat_umod, hbase]
    have hpos := length_numeral_pos base.toNat num.toNat
    have hpred : (width - 1#32).toInt = width.toInt - 1 := toInt_pred (by omega)
    rw [CInt.printnum, printnum, hmod]
    by_cases hle : base.toNat ≤ num.toNat
    · -- one digit less for the recursive call, and one less in the width
      have hlen : (numeral base.toNat num.toNat).length =
          (numeral base.toNat (num.toNat / base.toNat)).length + 1 := by
        unfold numeral
        rw [Nat.toDigits_of_base_le hlo hle, List.map_append, List.length_append,
          List.map_singleton, List.length_singleton]
      have hrec : CInt.printnum padc base (num / base.setWidth 64) (width - 1#32) =
          printnum base.toNat padc (num.toNat / base.toNat) (width - 1#32).toInt :=
        ih _ (Nat.div_lt_self (by omega) (by omega)) _ (by rw [hpred, hdiv]; omega) hdiv
      rw [dif_pos ⟨hlo, hle⟩, dif_pos ⟨hlo, hle⟩, hrec, hpred]
    · rw [dif_neg fun h => hle h.2, dif_neg fun h => hle h.2, printPad_eq padc (by omega)]

/-! ## Reading a number -/

/-- What a character stands for as a digit, as `strtol` reads it. -/
def digitValue (ch : Int) : Int := if 48 ≤ ch ∧ ch ≤ 57 then ch - 48 else ch - 97 + 10

/-- The number that digits stand for, the first one being the most significant. -/
def readDigits (base : ℕ) (digits : List Int) : Int :=
  digits.foldl (fun val ch => val * base + digitValue ch) 0

/-- **Positional notation** of a number. -/
structure Positional (base num : ℕ) (digits : List Int) : Prop where
  digit : ∀ ch ∈ digits, ∃ i < base, ch = ("0123456789abcdef".toList.getD i '0').toNat
  no_leading_zero : 1 < digits.length → digits.head? ≠ some 48
  zero : num = 0 → digits.length = 1
  nonempty : 0 < digits.length
  value : readDigits base digits = num

theorem digitValue_digitChar : ∀ i < 16, digitValue ((Nat.digitChar i).toNat : Int) = i := by
  decide

theorem digitChar_ne_zero : ∀ i < 16, i ≠ 0 → ((Nat.digitChar i).toNat : Int) ≠ 48 := by
  decide

section
variable {base : ℕ} (hlo : 2 ≤ base) (hhi : base ≤ 16)
include hlo hhi

theorem mem_numeral {num : ℕ} {ch : Int} (h : ch ∈ numeral base num) :
    ∃ i < base, ch = ("0123456789abcdef".toList.getD i '0').toNat := by
  induction num using Nat.strong_induction_on with
  | _ num ih =>
    unfold numeral at h ih
    have hlast : ∀ i < base, ((Nat.digitChar i).toNat : Int) =
        ("0123456789abcdef".toList.getD i '0').toNat := by
      intro i hi
      rw [digitChar_eq_getD i (by omega)]
    rw [Nat.toDigits_eq_if hlo] at h
    split_ifs at h with hlt
    · rw [List.map_singleton, List.mem_singleton] at h
      exact ⟨num, hlt, h.trans (hlast num hlt)⟩
    · rw [List.map_append, List.mem_append, List.map_singleton, List.mem_singleton] at h
      rcases h with h | h
      · exact ih _ (Nat.div_lt_self (by omega) (by omega)) h
      · have hmod := Nat.mod_lt num (by omega : 0 < base)
        exact ⟨num % base, hmod, h.trans (hlast _ hmod)⟩

theorem head_numeral {num : ℕ} (h : num ≠ 0) : (numeral base num).head? ≠ some 48 := by
  induction num using Nat.strong_induction_on with
  | _ num ih =>
    unfold numeral at ih ⊢
    rw [Nat.toDigits_eq_if hlo]
    split_ifs with hlt
    · intro hc
      exact digitChar_ne_zero num (by omega) h (Option.some.inj hc)
    · have hdiv : num / base ≠ 0 := (Nat.div_pos (by omega) (by omega)).ne'
      have hfront := ih _ (Nat.div_lt_self (by omega) (by omega)) hdiv
      have hne : (Nat.toDigits base (num / base)).map (fun ch => (ch.toNat : Int)) ≠ [] := by
        simp
      rwa [List.map_append, List.head?_append_of_ne_nil _ hne]

theorem readDigits_numeral (num : ℕ) : readDigits base (numeral base num) = num := by
  induction num using Nat.strong_induction_on with
  | _ num ih =>
    unfold numeral at ih ⊢
    rw [Nat.toDigits_eq_if hlo]
    split_ifs with hlt
    · have hval := digitValue_digitChar num (by omega)
      simp [readDigits, hval]
    · have hmod := Nat.mod_lt num (by omega : 0 < base)
      have hval := digitValue_digitChar (num % base) (by omega)
      have hfront := ih (num / base) (Nat.div_lt_self (by omega) (by omega))
      have hsplit : ((num / base : ℕ) : Int) * base + (num % base : ℕ) = num := by
        rw [mul_comm]
        exact_mod_cast Nat.div_add_mod num base
      unfold readDigits at hfront ⊢
      rw [List.map_append, List.map_singleton, List.foldl_append, hfront, List.foldl_cons, hval]
      exact hsplit

theorem positional_numeral (num : ℕ) : Positional base num (numeral base num) where
  digit ch h := mem_numeral hlo hhi h
  no_leading_zero h := by
    apply head_numeral hlo hhi
    rintro rfl
    rw [numeral, Nat.toDigits_zero] at h
    exact absurd h (by decide)
  zero h := by
    rw [h, numeral, Nat.toDigits_zero]
    rfl
  nonempty := length_numeral_pos base num
  value := readDigits_numeral hlo hhi num

end

/-- **`printnum` prints positional notation**: padding for what the digits lack of the width, and
the digits of the number. -/
theorem printnum_positional {base : Word} (hlo : 2 ≤ base.toNat) (hhi : base.toNat ≤ 16)
    (num : BitVec 64) {width : Word} (hwidth : -2 ^ 30 < width.toInt) (padc : Int) (t : Printed) :
    ∃ digits, Positional base.toNat num.toNat digits ∧
      CInt.printnum padc base num width t =
        (.ok (), { t with out := t.out ++
          (List.replicate (max 0 (width.toInt - digits.length)).toNat padc ++ digits) }) := by
  have hlen := length_numeral_le hlo num.isLt
  refine ⟨numeral base.toNat num.toNat, positional_numeral hlo hhi num.toNat, ?_⟩
  have hpad : (max 0 (width.toInt - (numeral base.toNat num.toNat).length)).toNat =
      (width.toInt - (numeral base.toNat num.toNat).length).toNat := by
    omega
  rw [printnum_eq padc hlo num (by omega), hpad]
  exact printnum_apply hlo hhi padc num.toNat width.toInt t

/-- `%04x` of 42. -/
theorem printnum_positional_hex :
    ∃ digits, Positional (16#32).toNat (42#64).toNat digits ∧
      CInt.printnum 48 16#32 42#64 4#32 { out := [], reads := [] } =
        (.ok (), { ({ out := [], reads := [] } : Printed) with out := [] ++
          (List.replicate (max 0 ((4#32).toInt - digits.length)).toNat 48 ++ digits) }) :=
  printnum_positional (by decide) (by decide) 42#64 (by decide) 48 _

end Jos
