import Jos.Vprintfmt

/-!
# Numbers in a field

The directives `%d`, `%u`, `%o` and `%x` of `vprintfmt`, with the flags `-` and `0`, a width, and
`l` or `ll` for the size of the argument. The number belongs into a field of the given width: with
`-` at its left end and spaces behind it, with `0` behind zeros, which come after the sign, and else
behind spaces.

**What the code prints** (`printed`). The sign is printed by `vprintfmt` and the padding by
`printnum`, which does not know of the sign: it pads the digits alone to the width. And `-` is a
character to pad with, as `0` is, so the padding is always in front of the digits.

**Theorem (`prints_field_iff`).** A directive prints its field exactly if there is nothing to pad,
or if it has no `-`, the number is not negative, and the width is an `int`.

An `int` that overflows in the loop of the digits wraps around here.
-/

namespace Jos

open Lib

/-! ## Directives -/

/-- An `int` that overflows wraps around. -/
def wrapInt (x : Int) : Int := (BitVec.ofInt 32 x).toInt

/-- The size of an argument: no `l`, `l`, or `ll`. -/
inductive NumSize
  | int
  | long
  | longlong

/-- How many `l` there are. -/
def NumSize.flags : NumSize → ℕ
  | int => 0
  | long => 1
  | longlong => 2

def NumSize.bits : NumSize → ℕ
  | int => 32
  | long => 32
  | longlong => 64

inductive NumConv
  | d
  | u
  | o
  | x
  deriving DecidableEq

def NumConv.char : NumConv → Char
  | d => 'd'
  | u => 'u'
  | o => 'o'
  | x => 'x'

def NumConv.base : NumConv → ℕ
  | d => 10
  | u => 10
  | o => 8
  | x => 16

/-- `%[-][0][width][l|ll](d|u|o|x)`. A width of zero is none. -/
structure NumDirective where
  minus : Bool
  zero : Bool
  width : ℕ
  size : NumSize
  conv : NumConv

namespace NumDirective

/-- The characters of the width. -/
def widthText (width : ℕ) : List (BitVec 8) := if width = 0 then [] else asciiBytes width.repr

/-- The directive behind its width. -/
def typeText (D : NumDirective) : List (BitVec 8) :=
  List.replicate D.size.flags 108#8 ++ [BitVec.ofNat 8 D.conv.char.toNat]

/-- The directive as it stands in a format. -/
def text (D : NumDirective) : List (BitVec 8) :=
  37#8 :: ((if D.minus then [45#8] else []) ++ ((if D.zero then [48#8] else []) ++
    (widthText D.width ++ D.typeText)))

/-- The argument on the stack, which has 32-bit slots. -/
def words (D : NumDirective) (a : BitVec D.size.bits) : List Word :=
  match D.size with
  | .longlong => [a.setWidth 32, (a >>> 32).setWidth 32]
  | _ => [a.setWidth 32]

/-- The number to print. -/
def value (D : NumDirective) (a : BitVec D.size.bits) : Int :=
  if D.conv = .d then a.toInt else a.toNat

/-- The digits of a number, as characters. -/
def numeral (base n : ℕ) : List Int := (Nat.toDigits base n).map fun ch => (ch.toNat : Int)

def digits (D : NumDirective) (a : BitVec D.size.bits) : List Int :=
  numeral D.conv.base (D.value a).natAbs

def sign (D : NumDirective) (a : BitVec D.size.bits) : List Int :=
  if D.value a < 0 then [45] else []

/-- What fills up the field. -/
def missing (D : NumDirective) (a : BitVec D.size.bits) : ℕ :=
  D.width - (D.sign a ++ D.digits a).length

/-- **The field**: what the directive stands for. -/
def field (D : NumDirective) (a : BitVec D.size.bits) : List Int :=
  if D.minus then D.sign a ++ D.digits a ++ List.replicate (D.missing a) 32
  else if D.zero then D.sign a ++ List.replicate (D.missing a) 48 ++ D.digits a
  else List.replicate (D.missing a) 32 ++ (D.sign a ++ D.digits a)

/-- `padc` behind the flags. -/
def padc (D : NumDirective) : Int := if D.zero then 48 else if D.minus then 45 else 32

/-- The flags as `vprintfmt` has them at the conversion character. -/
def spec (D : NumDirective) : FmtSpec :=
  { padc := D.padc
    width := if D.width = 0 then -1 else wrapInt D.width
    lflag := D.size.flags }

/-- What `vprintfmt` prints. -/
def printed (D : NumDirective) (a : BitVec D.size.bits) : List Int :=
  D.sign a ++ List.replicate (D.spec.width - (D.digits a).length).toNat D.padc ++ D.digits a

end NumDirective

/-- The format has these characters from `p` on. -/
def HoldsAt (fmt : ℕ → BitVec 8) : ℕ → List (BitVec 8) → Prop
  | _, [] => True
  | p, c :: l => fmt p = c ∧ HoldsAt fmt (p + 1) l

/-- **A directive prints its field**: wherever it stands, the round of the loop that starts at it
puts the field behind what has been printed, and the next round starts behind it with the next
argument. -/
def PrintsField (D : NumDirective) (a : BitVec D.size.bits) : Prop :=
  ∀ (mem : Word → Option (BitVec 8)) (fmt : ℕ → BitVec 8) (p : ℕ) (args : List Word)
  (reads : List ℕ)
    (t : Printed), HoldsAt fmt p D.text →
    ∃ rs F, ∀ fuel, F ≤ fuel →
      vprintfmtAt mem wrapInt fmt (fuel + 1) p (D.words a ++ args) reads t =
        vprintfmtAt mem wrapInt fmt fuel (p + D.text.length) args (reads ++ rs)
          { t with out := t.out ++ D.field a }

/-! ## Digits -/

open NumDirective (numeral)

theorem wrapInt_eq (x : Int) :
    wrapInt x = if x % 2 ^ 32 < 2 ^ 31 then x % 2 ^ 32 else x % 2 ^ 32 - 2 ^ 32 := by
  unfold wrapInt
  rw [BitVec.toInt_ofInt, Int.bmod]
  rfl

theorem wrapInt_of_lt {n : ℕ} (h : n < 2 ^ 31) : wrapInt n = n := by
  rw [wrapInt_eq]
  omega

/-- The loop of the digits wraps around in each round. -/
theorem wrapInt_step (x y z : Int) (h : wrapInt x = wrapInt y) :
    wrapInt (wrapInt x * 10 + z) = wrapInt (10 * y + z) := by
  rw [wrapInt_eq, wrapInt_eq y] at h
  rw [wrapInt_eq, wrapInt_eq (10 * y + z), wrapInt_eq x]
  omega

theorem digitChar_eq_getD : ∀ i < 16, "0123456789abcdef".toList.getD i '0' = Nat.digitChar i := by
  decide

theorem putPad_apply (c : Int) (n : ℕ) (t : Printed) :
    putPad c n t = (.ok (), { t with out := t.out ++ List.replicate n c }) := by
  induction n generalizing t with
  | zero =>
    have hpure : putPad c 0 t = (.ok (), t) := rfl
    rw [hpure, List.replicate_zero, List.append_nil]
  | succ n ih =>
    have hput : putch c t = (.ok (), { t with out := t.out ++ [c] }) := rfl
    rw [putPad, bind_apply hput, ih, List.replicate_succ]
    simp

/-- **`printnum`** prints the digits, with what they lack of the width before them. -/
theorem printnum_apply {base : ℕ} (hlo : 2 ≤ base) (hhi : base ≤ 16) (c : Int) (num : ℕ)
    (width : Int) (t : Printed) :
    printnum base c num width t =
      (.ok (), { t with out := t.out ++
        (List.replicate (width - (numeral base num).length).toNat c ++
        numeral base num) }) := by
  induction num using Nat.strong_induction_on generalizing width t with
  | _ num ih =>
    have hdigit : ∀ s : Printed, putch ("0123456789abcdef".toList.getD (num % base) '0').toNat s =
        (.ok (), { s with out := s.out ++ [((Nat.digitChar (num % base)).toNat : Int)] }) := by
      intro s
      rw [digitChar_eq_getD _ (lt_of_lt_of_le (Nat.mod_lt _ (by omega)) hhi)]
      rfl
    rw [printnum]
    by_cases hle : base ≤ num
    · -- the digits in front are printed first, with one less to fill
      have hnum : numeral base num =
          numeral base (num / base) ++ [((Nat.digitChar (num % base)).toNat : Int)] := by
        unfold numeral
        rw [Nat.toDigits_of_base_le (by omega) hle, List.map_append, List.map_singleton]
      have hlen : (numeral base num).length =
          (numeral base (num / base)).length + 1 := by
        rw [hnum, List.length_append, List.length_singleton]
      have hwidth : width - (numeral base num).length =
          width - 1 - (numeral base (num / base)).length := by omega
      rw [dif_pos ⟨hlo, hle⟩, bind_apply (ih _ (Nat.div_lt_self (by omega) (by omega)) _ t), hdigit,
        hwidth, hnum]
      simp only [List.append_assoc]
    · have hnum : numeral base num = [((Nat.digitChar (num % base)).toNat : Int)] := by
        unfold numeral
        rw [Nat.toDigits_of_lt_base (by omega), Nat.mod_eq_of_lt (by omega), List.map_singleton]
      rw [dif_neg fun h => hle h.2, bind_apply (putPad_apply _ _ t), hdigit, hnum]
      simp only [List.append_assoc, List.length_singleton]
      rfl

theorem length_numeral_le {base n : ℕ} (hb : 2 ≤ base) (hn : n < 2 ^ 64) :
    (numeral base n).length ≤ 64 := by
  unfold numeral
  rw [List.length_map, Nat.length_toDigits_le_iff hb (by decide)]
  exact lt_of_lt_of_le hn (Nat.pow_le_pow_left hb 64)

theorem length_numeral_pos (base n : ℕ) : 0 < (numeral base n).length := by
  unfold numeral
  rw [List.length_map]
  exact Nat.length_toDigits_pos

theorem ne_space_of_mem_numeral {base n : ℕ} (hlo : 2 ≤ base) (hhi : base ≤ 16) {c : Int}
    (hc : c ∈ numeral base n) : c ≠ 32 := by
  have hdigit : ∀ i < 16, ((Nat.digitChar i).toNat : Int) ≠ 32 := by decide
  induction n using Nat.strong_induction_on with
  | _ n ih =>
    unfold numeral at hc ih
    rw [Nat.toDigits_eq_if hlo] at hc
    split_ifs at hc with hlt
    · rw [List.map_singleton, List.mem_singleton] at hc
      subst hc
      exact hdigit n (by omega)
    · rw [List.map_append, List.mem_append, List.map_singleton, List.mem_singleton] at hc
      rcases hc with hc | rfl
      · exact ih _ (Nat.div_lt_self (by omega) (by omega)) hc
      · exact hdigit _ (lt_of_lt_of_le (Nat.mod_lt _ (by omega)) hhi)

/-! ## Reading a directive -/

variable {fmt : ℕ → BitVec 8} {D : NumDirective}

theorem holdsAt_append {l l' : List (BitVec 8)} {p : ℕ} :
    HoldsAt fmt p (l ++ l') ↔ HoldsAt fmt p l ∧ HoldsAt fmt (p + l.length) l' := by
  induction l generalizing p with
  | nil => simp [HoldsAt]
  | cons c l ih =>
    have hp : p + (c :: l).length = p + 1 + l.length := by
      rw [List.length_cons]
      omega
    rw [List.cons_append, HoldsAt, HoldsAt, ih, hp, and_assoc]

theorem HoldsAt.left {l l' : List (BitVec 8)} {p : ℕ} (h : HoldsAt fmt p (l ++ l')) :
    HoldsAt fmt p l :=
  (holdsAt_append.1 h).1

theorem HoldsAt.right {l l' : List (BitVec 8)} {p : ℕ} (h : HoldsAt fmt p (l ++ l')) :
    HoldsAt fmt (p + l.length) l' := (holdsAt_append.1 h).2

theorem holdsAt_getD (l l' : List (BitVec 8)) :
    HoldsAt (fun i => (l ++ l').getD i 0#8) l.length l' := by
  induction l' generalizing l with
  | nil => trivial
  | cons c l' ih =>
    refine ⟨by simp, ?_⟩
    have h := ih (l ++ [c])
    rwa [List.append_assoc, List.singleton_append, List.length_append, List.length_singleton] at h

/-- With enough fuel, the escape from `p` on is read as `e`. -/
def EscapeAt (fmt : ℕ → BitVec 8) (sp : FmtSpec) (p : ℕ) (args : List Word) (e : Escape) : Prop :=
  ∃ K, ∀ fuel, K ≤ fuel → reswitchAt wrapInt fmt fuel sp p args = some e

theorem EscapeAt.flag {sp sp' : FmtSpec} {p : ℕ} {args : List Word} {e : Escape}
    (h : EscapeAt fmt sp' (p + 1) args e)
    (hflag : ∀ fuel, reswitchAt wrapInt fmt (fuel + 1) sp p args =
      (reswitchAt wrapInt fmt fuel sp' (p + 1) args).map fun e => e.after [p]) :
    EscapeAt fmt sp p args (e.after [p]) := by
  obtain ⟨K, hK⟩ := h
  refine ⟨K + 1, fun fuel hfuel => ?_⟩
  obtain ⟨n, rfl⟩ : ∃ n, fuel = n + 1 := ⟨fuel - 1, by omega⟩
  rw [hflag, hK n (by omega)]
  rfl

theorem EscapeAt.minus {sp : FmtSpec} {p : ℕ} {args : List Word} {e : Escape} (hp : fmt p = 45#8)
    (h : EscapeAt fmt { sp with padc := 45 } (p + 1) args e) :
    EscapeAt fmt sp p args (e.after [p]) := by
  refine h.flag fun fuel => ?_
  rw [reswitchAt, hp]
  rfl

theorem EscapeAt.zero {sp : FmtSpec} {p : ℕ} {args : List Word} {e : Escape} (hp : fmt p = 48#8)
    (h : EscapeAt fmt { sp with padc := 48 } (p + 1) args e) :
    EscapeAt fmt sp p args (e.after [p]) := by
  refine h.flag fun fuel => ?_
  rw [reswitchAt, hp]
  rfl

theorem EscapeAt.long {sp : FmtSpec} {p : ℕ} {args : List Word} {e : Escape} (hp : fmt p = 108#8)
    (h : EscapeAt fmt { sp with lflag := sp.lflag + 1 } (p + 1) args e) :
    EscapeAt fmt sp p args (e.after [p]) := by
  refine h.flag fun fuel => ?_
  rw [reswitchAt, hp]
  rfl

theorem escapeAt_typeText (k : ℕ) (c : NumConv) (sp : FmtSpec) {p : ℕ} (args : List Word)
    (h : HoldsAt fmt p (List.replicate k 108#8 ++ [BitVec.ofNat 8 c.char.toNat])) :
    ∃ rs, EscapeAt fmt sp p args
      ⟨c.char.toNat, { sp with lflag := sp.lflag + k }, p + k + 1, args, rs⟩ := by
  induction k generalizing sp p with
  | zero =>
    have hp : fmt p = BitVec.ofNat 8 c.char.toNat := h.1
    refine ⟨[p], 1, fun fuel hfuel => ?_⟩
    obtain ⟨n, rfl⟩ : ∃ n, fuel = n + 1 := ⟨fuel - 1, by omega⟩
    rw [reswitchAt, hp]
    cases c <;> rfl
  | succ k ih =>
    have hp : fmt p = 108#8 := h.1
    obtain ⟨rs, hrest⟩ := ih { sp with lflag := sp.lflag + 1 } (p := p + 1) h.2
    refine ⟨[p] ++ rs, ?_⟩
    have hescape := EscapeAt.long hp hrest
    rwa [show p + 1 + k + 1 = p + (k + 1) + 1 by omega, Nat.add_assoc, Nat.add_comm 1 k] at hescape

theorem toNat_of_isDigit {c : Char} (hc : c.isDigit) : 48 ≤ c.toNat ∧ c.toNat ≤ 57 := by
  simpa [Char.isDigit, UInt32.le_iff_toNat_le] using hc

theorem digit_byte {c : Char} (hc : c.isDigit) : (BitVec.ofNat 8 c.toNat).toNat = c.toNat := by
  have hdigit := toNat_of_isDigit hc
  rw [BitVec.toNat_ofNat]
  omega

/-- The loop of the digits reads the number that they are. -/
theorem digitsAt_ofDigitChars (cs : List Char) (hcs : ∀ c ∈ cs, c.isDigit) (n : ℕ) {p : ℕ}
    (h : HoldsAt fmt p (cs.map fun c => BitVec.ofNat 8 c.toNat))
    (hnext : ¬ (48 ≤ (fmt (p + cs.length)).toNat ∧ (fmt (p + cs.length)).toNat ≤ 57))
    (precision ch : Int) (hn : wrapInt (precision * 10 + ch - 48) = wrapInt n) :
    ∃ rs, ∀ fuel, cs.length < fuel → digitsAt wrapInt fmt fuel p precision ch =
      some (wrapInt (Nat.ofDigitChars 10 cs n), p + cs.length, rs) := by
  induction cs generalizing n p precision ch with
  | nil =>
    refine ⟨[p], fun fuel hfuel => ?_⟩
    obtain ⟨k, rfl⟩ : ∃ k, fuel = k + 1 := ⟨fuel - 1, by omega⟩
    rw [List.length_nil, Nat.add_zero] at hnext
    rw [digitsAt_succ, if_neg hnext, hn]
    rfl
  | cons c cs ih =>
    have hc : c.isDigit := hcs c List.mem_cons_self
    have hdigit := toNat_of_isDigit hc
    have hp : fmt p = BitVec.ofNat 8 c.toNat := h.1
    have hpN : (fmt p).toNat = c.toNat := by rw [hp, digit_byte hc]
    have hlen : p + (c :: cs).length = p + 1 + cs.length := by
      rw [List.length_cons]
      omega
    have hint : (fmt p).toInt = c.toNat := by
      rw [BitVec.toInt_eq_toNat_of_lt (by omega), hpN]
    have hstep : wrapInt (wrapInt (precision * 10 + ch - 48) * 10 + (fmt p).toInt - 48) =
        wrapInt ((10 * n + (c.toNat - 48) : ℕ) : Int) := by
      have hadd := wrapInt_step _ _ ((c.toNat : Int) - 48) hn
      rw [hint, Int.add_sub_assoc, hadd]
      congr 1
      omega
    rw [hlen] at hnext ⊢
    obtain ⟨rs, hrs⟩ := ih (fun c hc => hcs c (List.mem_cons_of_mem _ hc)) _
      (p := p + 1) h.2 hnext _ _ hstep
    refine ⟨p :: rs, fun fuel hfuel => ?_⟩
    rw [List.length_cons] at hfuel
    obtain ⟨k, rfl⟩ : ∃ k, fuel = k + 1 := ⟨fuel - 1, by omega⟩
    rw [digitsAt_succ, if_pos (by rwa [hpN]), hrs k (by omega), Nat.ofDigitChars_cons]
    rfl

theorem toDigits_head {n : ℕ} (hn : n ≠ 0) :
    ∃ c cs, Nat.toDigits 10 n = c :: cs ∧ 49 ≤ c.toNat ∧ c.toNat ≤ 57 := by
  induction n using Nat.strong_induction_on with
  | _ n ih =>
    rw [Nat.toDigits_eq_if (by decide)]
    by_cases hlt : n < 10
    · have hc := Nat.toNat_digitChar_of_lt_ten hlt
      rw [if_pos hlt]
      exact ⟨n.digitChar, [], rfl, by omega, by omega⟩
    · obtain ⟨c, cs, hcs, hlo, hhi⟩ := ih (n / 10) (by omega) (by omega)
      rw [if_neg hlt, hcs]
      exact ⟨c, _, rfl, hlo, hhi⟩

theorem EscapeAt.width {sp : FmtSpec} {w p : ℕ} {args : List Word} {e : Escape} (hw : w ≠ 0)
    (h : HoldsAt fmt p (asciiBytes w.repr))
    (hnext : ¬ (48 ≤ (fmt (p + (asciiBytes w.repr).length)).toNat ∧
      (fmt (p + (asciiBytes w.repr).length)).toNat ≤ 57))
    (hrest : EscapeAt fmt (sp.processPrecision (wrapInt w))
      (p + (asciiBytes w.repr).length) args e) :
    ∃ rs, EscapeAt fmt sp p args (e.after rs) := by
  obtain ⟨c, cs, hcs, hlo, hhi⟩ := toDigits_head hw
  have hdigits : ∀ d ∈ c :: cs, d.isDigit := fun d hd =>
    Nat.isDigit_of_mem_toDigits (b := 10) (n := w) (by decide) (by decide) (hcs ▸ hd)
  have htext : asciiBytes w.repr = (c :: cs).map fun d => BitVec.ofNat 8 d.toNat := by
    rw [asciiBytes, Nat.toList_repr, hcs]
  have hlen : p + ((c :: cs).map fun d => BitVec.ofNat 8 d.toNat).length = p + 1 + cs.length := by
    rw [List.length_map, List.length_cons]
    omega
  rw [htext] at h
  rw [htext, hlen] at hnext hrest
  have hp : (fmt p).toNat = c.toNat := by
    rw [h.1, digit_byte (hdigits c List.mem_cons_self)]
  have hfirst : wrapInt (0 * 10 + ((fmt p).toNat : Int) - 48) =
    wrapInt ((c.toNat - 48 : ℕ) : Int) := by
    rw [hp]
    congr 1
    omega
  obtain ⟨rs, hrs⟩ := digitsAt_ofDigitChars cs (fun d hd => hdigits d (List.mem_cons_of_mem _ hd)) _
    (p := p + 1) h.2 hnext 0 _ hfirst
  have hvalue : Nat.ofDigitChars 10 cs (c.toNat - 48) = w := by
    have hw := Nat.ofDigitChars_ten_toDigits (n := w)
    rwa [hcs, Nat.ofDigitChars_cons, Nat.mul_zero, Nat.zero_add] at hw
  rw [hvalue] at hrs
  obtain ⟨K, hK⟩ := hrest
  refine ⟨p :: rs, max K (cs.length + 1) + 1, fun fuel hfuel => ?_⟩
  obtain ⟨n, rfl⟩ : ∃ n, fuel = n + 1 := ⟨fuel - 1, by omega⟩
  have hKn : K ≤ n := by omega
  have hcsn : cs.length < n := by omega
  rw [reswitchAt]
  simp only [if_neg (show ¬ (fmt p).toNat = 45 by omega),
    if_neg (show ¬ (fmt p).toNat = 48 by omega),
    if_pos (show 49 ≤ (fmt p).toNat ∧ (fmt p).toNat ≤ 57 by omega), hrs n hcsn, hK n hKn]
  rfl

theorem typeText_not_digit {p : ℕ} (h : HoldsAt fmt p D.typeText) :
    ¬ (48 ≤ (fmt p).toNat ∧ (fmt p).toNat ≤ 57) := by
  have hp : fmt p = 108#8 ∨ fmt p = BitVec.ofNat 8 D.conv.char.toNat := by
    unfold NumDirective.typeText at h
    cases hs : D.size with
    | int => rw [hs] at h; exact .inr h.1
    | long => rw [hs] at h; exact .inl h.1
    | longlong => rw [hs] at h; exact .inl h.1
  rcases hp with hp | hp
  · rw [hp]
    decide
  · rw [hp]
    cases D.conv <;> decide

theorem escapeAt_widthText (sp : FmtSpec) (hw : sp.width = -1) (hprec : sp.precision = -1)
    {p : ℕ} (args : List Word) (h : HoldsAt fmt p (NumDirective.widthText D.width ++ D.typeText)) :
    ∃ rs, EscapeAt fmt sp p args
      ⟨D.conv.char.toNat, { sp with width := D.spec.width, lflag := sp.lflag + D.size.flags },
        p + (NumDirective.widthText D.width ++ D.typeText).length, args, rs⟩ := by
  have hlen : D.typeText.length = D.size.flags + 1 := by simp [NumDirective.typeText]
  by_cases h0 : D.width = 0
  · have hspec : D.spec.width = sp.width := by
      rw [hw]
      exact if_pos h0
    rw [NumDirective.widthText, if_pos h0, List.nil_append] at h ⊢
    rw [hspec, hlen, ← Nat.add_assoc]
    exact escapeAt_typeText _ _ sp args h
  · have hspec : D.spec.width = wrapInt D.width := if_neg h0
    rw [NumDirective.widthText, if_neg h0] at h ⊢
    obtain ⟨rs, hrest⟩ := escapeAt_typeText _ _ (sp.processPrecision (wrapInt D.width)) args h.right
    obtain ⟨rs', hescape⟩ := EscapeAt.width h0 h.left (typeText_not_digit h.right) hrest
    refine ⟨rs' ++ rs, ?_⟩
    have hpp : sp.processPrecision (wrapInt D.width) = { sp with width := D.spec.width } := by
      unfold FmtSpec.processPrecision
      rw [if_pos (by omega), hspec, ← hprec]
    rw [hpp] at hescape
    rw [List.length_append, hlen, ← Nat.add_assoc, ← Nat.add_assoc]
    exact hescape

theorem EscapeAt.optional (b : Bool) {c : BitVec 8} {padc : Int} {sp sp' : FmtSpec}
    {args : List Word} {ch : ℕ} {l : List (BitVec 8)} {p : ℕ}
    (h : HoldsAt fmt p ((if b then [c] else []) ++ l))
    (hflag : ∀ e, fmt p = c → EscapeAt fmt { sp with padc := padc } (p + 1) args e →
      EscapeAt fmt sp p args (e.after [p]))
    (hrest : ∀ q, HoldsAt fmt q l → ∃ rs,
      EscapeAt fmt (if b then { sp with padc := padc } else sp) q args
        ⟨ch, sp', q + l.length, args, rs⟩) :
    ∃ rs, EscapeAt fmt sp p args
    ⟨ch, sp', p + ((if b then [c] else []) ++ l).length, args, rs⟩ := by
  cases b with
  | false => exact hrest p h
  | true =>
    obtain ⟨rs, he⟩ := hrest (p + 1) h.2
    refine ⟨[p] ++ rs, ?_⟩
    have hlen : p + ((if true then [c] else []) ++ l).length = p + 1 + l.length := by
      simp only [if_true, List.singleton_append, List.length_cons]
      omega
    rw [hlen]
    exact hflag _ h.1 he

/-- **Reading a directive**: the flags at its conversion character. -/
theorem escapeAt_text {p : ℕ} (args : List Word) (h : HoldsAt fmt p D.text) :
    ∃ rs, EscapeAt fmt {} (p + 1) args
    ⟨D.conv.char.toNat, D.spec, p + D.text.length, args, rs⟩ := by
  have hlen : p + D.text.length = p + 1 + D.text.tail.length := by
    rw [NumDirective.text, List.length_cons, List.tail_cons]
    omega
  rw [hlen]
  refine EscapeAt.optional D.minus h.2 (fun _ => EscapeAt.minus) fun q hq => ?_
  refine EscapeAt.optional D.zero hq (fun _ => EscapeAt.zero) fun r hr => ?_
  set sp : FmtSpec := if D.zero then
    { (if D.minus then { padc := 45 } else {} : FmtSpec) with padc := 48 }
    else if D.minus then { padc := 45 } else {} with hsp
  have hspec : D.spec = { sp with width := D.spec.width, lflag := sp.lflag + D.size.flags } := by
    rw [hsp]
    unfold NumDirective.spec NumDirective.padc
    cases D.minus <;> cases D.zero <;> simp
  have hwidth : sp.width = -1 := by
    rw [hsp]
    cases D.minus <;> cases D.zero <;> rfl
  have hprec : sp.precision = -1 := by
    rw [hsp]
    cases D.minus <;> cases D.zero <;> rfl
  rw [hspec]
  exact escapeAt_widthText sp hwidth hprec args hr

/-! ## Printing -/

variable {a : BitVec D.size.bits}

theorem toNat_slots (a : BitVec 64) :
    (a.setWidth 32).toNat + 2 ^ 32 * ((a >>> 32).setWidth 32).toNat = a.toNat := by
  have ha := a.isLt
  rw [BitVec.toNat_setWidth, BitVec.toNat_setWidth, BitVec.toNat_ushiftRight,
    Nat.shiftRight_eq_div_pow]
  omega

theorem toInt_slots (a : BitVec 64) :
    ((a.setWidth 32).toNat : Int) + 2 ^ 32 * ((a >>> 32).setWidth 32).toInt = a.toInt := by
  have hslots := toNat_slots a
  have hlo := (a.setWidth 32).isLt
  rw [BitVec.toInt_eq_toNat_cond, BitVec.toInt_eq_toNat_cond]
  split_ifs <;> omega

theorem getuint_words (D : NumDirective) (a : BitVec D.size.bits) (args : List Word) :
    getuint D.size.flags (D.words a ++ args) = (a.toNat, args) := by
  obtain ⟨minus, zero, width, size, conv⟩ := D
  cases size with
  | int => exact congrArg (fun w : Word => (w.toNat, args)) (BitVec.setWidth_eq a)
  | long => exact congrArg (fun w : Word => (w.toNat, args)) (BitVec.setWidth_eq a)
  | longlong => exact congrArg (fun n => (n, args)) (toNat_slots a)

theorem getint_words (D : NumDirective) (a : BitVec D.size.bits) (args : List Word) :
    getint D.size.flags (D.words a ++ args) = (a.toInt, args) := by
  obtain ⟨minus, zero, width, size, conv⟩ := D
  cases size with
  | int => exact congrArg (fun w : Word => (w.toInt, args)) (BitVec.setWidth_eq a)
  | long => exact congrArg (fun w : Word => (w.toInt, args)) (BitVec.setWidth_eq a)
  | longlong => exact congrArg (fun n => (n, args)) (toInt_slots a)

theorem two_le_base (c : NumConv) : 2 ≤ c.base := by cases c <;> decide

theorem base_le_sixteen (c : NumConv) : c.base ≤ 16 := by cases c <;> decide

theorem printInt_apply (sp : FmtSpec) (num : Int) (t : Printed) :
    printInt sp num t = (.ok (), { t with out := t.out ++ ((if num < 0 then [45] else []) ++
      (List.replicate (sp.width - (numeral 10 num.natAbs).length).toNat sp.padc ++
        numeral 10 num.natAbs)) }) := by
  have hnum := fun t =>
    printnum_apply (show 2 ≤ 10 by decide) (by decide) sp.padc num.natAbs sp.width t
  unfold printInt
  by_cases hneg : num < 0
  · have hput : putch 45 t = (.ok (), { t with out := t.out ++ [45] }) := rfl
    simp only [if_pos hneg]
    rw [bind_apply hput, hnum]
    simp only [List.append_assoc]
  · simp only [if_neg hneg, List.nil_append]
    exact hnum t

/-- **The conversion of a directive.** -/
theorem convert_directive (mem : Word → Option (BitVec 8)) (fuel : ℕ) (D : NumDirective)
    (a : BitVec D.size.bits) (args : List Word) (t : Printed) :
    convert mem fuel D.conv.char D.spec (D.words a ++ args) t =
      (.ok (some args), { t with out := t.out ++ D.printed a }) := by
  by_cases hd : D.conv = .d
  · have hvalue : D.value a = a.toInt := if_pos hd
    have hconv : convert mem fuel 'd' D.spec (D.words a ++ args) =
        printInt D.spec a.toInt >>= fun _ => pure (some args) := by
      unfold convert
      rw [if_neg (by decide), if_neg (by decide), if_neg (by decide), if_pos rfl]
      change (printInt D.spec (getint D.size.flags _).1 >>= fun _ =>
        pure (some (getint D.size.flags _).2)) = _
      rw [getint_words]
    have hprinted : D.printed a = (if a.toInt < 0 then [45] else []) ++
        (List.replicate (D.spec.width - (numeral 10 a.toInt.natAbs).length).toNat D.padc ++
          numeral 10 a.toInt.natAbs) := by
      unfold NumDirective.printed NumDirective.sign NumDirective.digits
      rw [hvalue, hd, List.append_assoc]
      rfl
    rw [hd, hprinted]
    change convert mem fuel 'd' D.spec (D.words a ++ args) t = _
    rw [hconv, bind_apply (printInt_apply _ _ t)]
    rfl
  · have hvalue : D.value a = a.toNat := if_neg hd
    have hconv : convert mem fuel D.conv.char D.spec (D.words a ++ args) =
        printnum D.conv.base D.spec.padc a.toNat D.spec.width >>= fun _ => pure (some args) := by
      have hu : D.conv.char = 'u' ∨ D.conv.char = 'o' ∨ D.conv.char = 'x' := by
        cases hc : D.conv <;> simp_all [NumConv.char]
      have hbase : (if D.conv.char = 'u' then 10 else if D.conv.char = 'o' then 8 else 16) =
        D.conv.base := by
        cases hc : D.conv <;> simp_all [NumConv.char, NumConv.base]
      have hother : D.conv.char ≠ 'c' ∧ D.conv.char ≠ 'e' ∧ D.conv.char ≠ 's' ∧
        D.conv.char ≠ 'd' := by
        rcases hu with hu | hu | hu <;> rw [hu] <;> decide
      unfold convert
      rw [if_neg hother.1, if_neg hother.2.1, if_neg hother.2.2.1, if_neg hother.2.2.2,
        if_pos hu, hbase]
      change (printnum _ _ (getuint D.size.flags _).1 _ >>= fun _ =>
        pure (some (getuint D.size.flags _).2)) = _
      rw [getuint_words]
    have hprinted : D.printed a =
        List.replicate (D.spec.width - (numeral D.conv.base a.toNat).length).toNat D.padc ++
          numeral D.conv.base a.toNat := by
      unfold NumDirective.printed NumDirective.sign NumDirective.digits
      rw [hvalue, if_neg (by omega), List.nil_append, Int.natAbs_natCast]
    rw [hprinted, hconv, bind_apply (printnum_apply (two_le_base _) (base_le_sixteen _) _ _ _ t)]
    rfl

/-- **A round of the loop** that starts at a directive. -/
theorem vprintfmtAt_directive (mem : Word → Option (BitVec 8)) {p : ℕ} (a : BitVec D.size.bits)
    (args : List Word) (reads : List ℕ) (t : Printed) (h : HoldsAt fmt p D.text) :
    ∃ rs F, ∀ fuel, F ≤ fuel →
      vprintfmtAt mem wrapInt fmt (fuel + 1) p (D.words a ++ args) reads t =
        vprintfmtAt mem wrapInt fmt fuel (p + D.text.length) args (reads ++ rs)
          { t with out := t.out ++ D.printed a } := by
  obtain ⟨rs, K, hK⟩ := escapeAt_text (D.words a ++ args) h
  refine ⟨[p] ++ rs, K, fun fuel hfuel => ?_⟩
  rw [vprintfmtAt_escape mem fuel h.1 (hK fuel hfuel)]
  have hchar : Char.ofNat D.conv.char.toNat = D.conv.char := Char.ofNat_toNat _
  simp only [hchar]
  rw [bind_apply (convert_directive mem fuel D a args t), List.append_assoc]

/-! ## The field -/

namespace NumDirective

/-- When the field is printed: there is nothing to pad, or it is padded on the left of a number
without a sign. -/
def FieldKept (D : NumDirective) (a : BitVec D.size.bits) : Prop :=
  D.width ≤ (D.digits a).length ∨ D.width < 2 ^ 31 ∧ D.minus = false ∧ 0 ≤ D.value a

theorem length_field (D : NumDirective) (a : BitVec D.size.bits) :
    (D.field a).length = max D.width (D.sign a ++ D.digits a).length := by
  have hmissing : D.missing a + (D.sign a ++ D.digits a).length =
      max D.width (D.sign a ++ D.digits a).length := Nat.sub_add_eq_max _ _
  rw [← hmissing]
  unfold field
  split_ifs <;> simp only [List.length_append, List.length_replicate] <;> omega

theorem natAbs_value_lt (D : NumDirective) (a : BitVec D.size.bits) :
    (D.value a).natAbs < 2 ^ 64 := by
  have hbits : 2 ^ D.size.bits ≤ 2 ^ 64 :=
    Nat.pow_le_pow_right (by decide) (by cases D.size <;> decide)
  have ha := a.isLt
  unfold value
  rw [BitVec.toInt_eq_toNat_cond]
  split_ifs <;> omega

theorem length_digits_le (D : NumDirective) (a : BitVec D.size.bits) : (D.digits a).length ≤ 64 :=
  length_numeral_le (two_le_base _) (D.natAbs_value_lt a)

/-- A width that is an `int` is the one that `vprintfmt` has. -/
theorem padding_of_lt (h : D.width < 2 ^ 31) :
    (D.spec.width - (D.digits a).length).toNat = D.width - (D.digits a).length := by
  have hspec : D.spec.width = if D.width = 0 then -1 else (D.width : Int) := by
    rw [← wrapInt_of_lt h]
    rfl
  rw [hspec]
  split_ifs <;> omega

theorem FieldKept.printed_eq (h : D.FieldKept a) : D.printed a = D.field a := by
  have hlen := D.length_digits_le a
  rcases h with h | ⟨hwidth, hminus, hvalue⟩
  · have hmissing : D.missing a = 0 := by
      unfold missing
      rw [List.length_append]
      omega
    unfold printed field
    rw [padding_of_lt (by omega), hmissing, Nat.sub_eq_zero_of_le h]
    simp
  · have hsign : D.sign a = [] := if_neg (by omega)
    have hmissing : D.missing a = D.width - (D.digits a).length := by
      unfold missing
      rw [hsign, List.nil_append]
    unfold printed field padc
    rw [padding_of_lt hwidth, hmissing, hsign, hminus]
    cases D.zero <;> rfl

/-- The length of what is printed: the sign is not counted. -/
theorem length_printed (D : NumDirective) (a : BitVec D.size.bits) : (D.printed a).length =
    (D.sign a).length + (D.spec.width - (D.digits a).length).toNat + (D.digits a).length := by
  unfold printed
  rw [List.length_append, List.length_append, List.length_replicate]

/-- With a width that is no `int`, the field is not even as long as it should be. -/
theorem width_lt_of_eq (h : D.printed a = D.field a) : D.width < 2 ^ 31 := by
  by_contra hge
  have hlen := congrArg List.length h
  rw [length_printed, length_field, List.length_append] at hlen
  have hdigits := D.length_digits_le a
  have hsign : (D.sign a).length ≤ 1 := by
    unfold sign
    split_ifs <;> simp
  have hspec : D.spec.width = wrapInt D.width := if_neg (by omega)
  rw [hspec, wrapInt_eq] at hlen
  omega

theorem fieldKept_of_eq (h : D.printed a = D.field a) : D.FieldKept a := by
  have hwidth := width_lt_of_eq h
  rcases Nat.lt_or_ge (D.digits a).length D.width with hlt | hge
  swap
  · exact .inl hge
  have hlen := congrArg List.length h
  rw [length_printed, length_field, List.length_append, padding_of_lt hwidth] at hlen
  have hsign : D.sign a = [] := List.length_eq_zero_iff.1 (by omega)
  have hvalue : 0 ≤ D.value a := by
    by_contra hneg
    have hone : D.sign a = [45] := if_pos (by omega)
    rw [hsign] at hone
    exact absurd hone (by simp)
  refine .inr ⟨hwidth, ?_, hvalue⟩
  -- with `-` the last character is a space, and not a digit
  by_contra hminus
  rw [Bool.not_eq_false] at hminus
  have hmissing : D.missing a = D.width - (D.digits a).length := by
    unfold missing
    rw [hsign, List.nil_append]
  have hspaces : D.missing a ≠ 0 := by omega
  have hfield : (D.field a).getLast? = some 32 := by
    unfold field
    rw [if_pos hminus, List.getLast?_append, List.getLast?_replicate, if_neg hspaces]
    rfl
  have hne : D.digits a ≠ [] := List.length_pos_iff.1 (length_numeral_pos _ _)
  obtain ⟨c, hc⟩ : ∃ c, (D.digits a).getLast? = some c := ⟨_, List.getLast?_eq_some_getLast hne⟩
  have hprinted : (D.printed a).getLast? = some c := by
    unfold printed
    rw [List.getLast?_append, hc]
    rfl
  rw [h, hfield] at hprinted
  have hmem : c ∈ D.digits a := List.mem_of_getLast? hc
  exact ne_space_of_mem_numeral (two_le_base _) (base_le_sixteen _) hmem
    (Option.some.inj hprinted).symm

end NumDirective

/-- A directive that prints its field prints it in a format of its own. -/
theorem PrintsField.printed_eq (h : PrintsField D a) : D.printed a = D.field a := by
  have hholds : HoldsAt (fun i => ([] ++ D.text).getD i 0#8) 0 D.text := holdsAt_getD [] D.text
  have hnul : (([] ++ D.text).getD (0 + D.text.length) 0#8) = 0#8 := by simp
  obtain ⟨rs, F, hF⟩ := h (fun _ => none) _ 0 [] [] {} hholds
  obtain ⟨rs', F', hF'⟩ := vprintfmtAt_directive (fun _ => none) a [] [] {} hholds
  have hrun := hF (max F F' + 1) (by omega)
  rw [hF' (max F F' + 1) (by omega), vprintfmtAt_zero _ _ hnul, vprintfmtAt_zero _ _ hnul] at hrun
  have hout := congrArg (fun r => r.2.out) hrun
  simpa using hout

/-- **A directive prints its field** exactly if there is nothing to pad, or no `-` and no sign. -/
theorem prints_field_iff (D : NumDirective) (a : BitVec D.size.bits) :
    PrintsField D a ↔ D.FieldKept a := by
  constructor
  · intro h
    exact NumDirective.fieldKept_of_eq h.printed_eq
  · intro h mem fmt p args reads t hholds
    rw [← h.printed_eq]
    exact vprintfmtAt_directive mem a args reads t hholds

/-- `%5d` prints `-3` with six characters, and `%-5d` puts dashes before a number. -/
theorem field_not_kept :
    ¬ PrintsField ⟨false, false, 5, .int, .d⟩ (BitVec.ofInt 32 (-3)) ∧
      ¬ PrintsField ⟨true, false, 5, .int, .d⟩ 3#32 := by
  refine ⟨fun h => ?_, fun h => ?_⟩
  · have heq := h.printed_eq
    revert heq
    decide
  · have heq := h.printed_eq
    revert heq
    decide

end Jos
