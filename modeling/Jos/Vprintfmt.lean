import Jos.Printfmt
import Jos.Monitor
import Jos.Lib.Fuel

/-!
# The format string

`vprintfmt` (`lib/printfmt.c`) walks through the format with a pointer. It reads a character with
`*fmt++`, looks at the next one in the loop of the digits, and at an escape it does not know it
moves the pointer back to the last `%` and goes on behind it. This file models the walk itself:
`fmt` is memory from the start of the format on, the pointer is an offset, and the offsets that are
read are recorded. What a conversion prints is `convert` of `Printfmt`.

**Theorem (`vprintfmt_terminates`).** On a format that ends with a zero byte at `L`, `vprintfmt`
returns and reads nothing behind `L`. An escape with an unknown conversion character is printed as
it stands.

Between the `%` and the conversion character there are only flags, so the way back ends at this very
`%` (`backUp_flags`), also where the conversion character is the zero byte. So every round of the
loop ends behind where it started.

An `int` that overflows in the loop of the digits has some value: `ovf` is any function.
-/

namespace Jos

open Lib

/-! ## The program -/

section Pointer

variable (mem : Word → Option (BitVec 8)) (ovf : Int → Int) (fmt : ℕ → BitVec 8)

/-- The loop of the digits: `ch` is the last one read, and `*fmt` the next. The result is the number
and the pointer, with the offsets read. -/
def digitsAt : ℕ → ℕ → Int → Int → Option (Int × ℕ × List ℕ)
  | 0, _, _, _ => none
  | fuel + 1, p, precision, ch =>
    let precision := ovf (precision * 10 + ch - 48)
    let ch := (fmt p).toInt
    if ch < 48 ∨ 57 < ch then some (precision, p, [p])
    else (digitsAt fuel (p + 1) precision ch).map fun r => (r.1, r.2.1, p :: r.2.2)

/-- An escape that has been read: the conversion character and the pointer behind it. -/
structure Escape where
  ch : ℕ
  sp : FmtSpec
  pos : ℕ
  args : List Word
  reads : List ℕ

/-- With the offsets `rs` read before. -/
def Escape.after (e : Escape) (rs : List ℕ) : Escape := { e with reads := rs ++ e.reads }

/-- From the label `reswitch` to the conversion. -/
def reswitchAt : ℕ → FmtSpec → ℕ → List Word → Option Escape
  | 0, _, _, _ => none
  | fuel + 1, sp, p, args =>
    let ch := (fmt p).toNat
    let next (sp : FmtSpec) (args : List Word) :=
      (reswitchAt fuel sp (p + 1) args).map fun e => e.after [p]
    if ch = 45 then next { sp with padc := 45 } args
    else if ch = 48 then next { sp with padc := 48 } args
    else if 49 ≤ ch ∧ ch ≤ 57 then
      match digitsAt ovf fmt fuel (p + 1) 0 ch with
      | none => none
      | some (precision, q, rs) =>
        (reswitchAt fuel (sp.processPrecision precision) q args).map fun e => e.after (p :: rs)
    else if ch = 42 then next (sp.processPrecision (args.headD 0).toInt) args.tail
    else if ch = 46 then next { sp with width := if sp.width < 0 then 0 else sp.width } args
    else if ch = 35 then next { sp with altflag := true } args
    else if ch = 108 then next { sp with lflag := sp.lflag + 1 } args
    else some ⟨ch, sp, p + 1, args, [p]⟩

/-- `for (; fmt[-1] != '%'; fmt--)`. There is no way back from the start of the format. -/
def backUp : ℕ → Option (ℕ × List ℕ)
  | 0 => none
  | p + 1 =>
    if fmt p = 37#8 then some (p + 1, [p]) else (backUp p).map fun r => (r.1, p :: r.2)

/-- `vprintfmt`, with the offsets of the format that have been read. -/
def vprintfmtAt : ℕ → ℕ → List Word → List ℕ → Print (List ℕ)
  | 0, _, _, _ => throw .fuel
  | fuel + 1, p, args, reads =>
    let ch := (fmt p).toNat
    let reads := reads ++ [p]
    if ch ≠ 37 then
      if ch = 0 then return reads
      else do
        putch ch
        vprintfmtAt fuel (p + 1) args reads
    else
      match reswitchAt ovf fmt fuel {} (p + 1) args with
      | none => throw .fuel
      | some e => do
        let reads := reads ++ e.reads
        match ← convert mem fuel (Char.ofNat e.ch) e.sp e.args with
        | some args => vprintfmtAt fuel e.pos args reads
        | none =>
          putch 37
          match backUp fmt (e.pos - 1) with
          | none => throw (.fault 0#32)
          | some (q, rs) => vprintfmtAt fuel q e.args (reads ++ rs)

end Pointer

/-! ## Arguments -/

/-- The arguments that are left after a conversion, and `none` if there is no such conversion. -/
def convertArgs (ch : Char) (sp : FmtSpec) (args : List Word) : Option (List Word) :=
  if ch = 'c' ∨ ch = 'e' ∨ ch = 's' ∨ ch = 'p' then some args.tail
  else if ch = 'd' ∨ ch = 'u' ∨ ch = 'o' ∨ ch = 'x' then
    some (if 2 ≤ sp.lflag then args.tail.tail else args.tail)
  else if ch = '%' then some args
  else none

/-- The strings that the conversions of the format from `p` on print, each with its precision. Both
bounds are large enough if they are larger than the format. -/
def stringArgs (ovf : Int → Int) (fmt : ℕ → BitVec 8) (bound : ℕ) :
    ℕ → ℕ → List Word → List (Word × Int)
  | 0, _, _ => []
  | n + 1, p, args =>
    if fmt p = 0#8 then []
    else if fmt p ≠ 37#8 then stringArgs ovf fmt bound n (p + 1) args
    else
      match reswitchAt ovf fmt bound {} (p + 1) args with
      | none => []
      | some e =>
        match convertArgs (Char.ofNat e.ch) e.sp e.args with
        | none => stringArgs ovf fmt bound n (p + 1) e.args
        | some args =>
          (if e.ch = 115 then [(e.args.headD 0, e.sp.precision)] else []) ++
            stringArgs ovf fmt bound n e.pos args

/-- A string to print: `NULL`, or one that has a precision, or ends. -/
def StringOk (m : ByteMem) (s : Word × Int) : Prop :=
  s.1 = 0 ∨ 0 ≤ s.2 ∨ ∃ n : ℕ, m (s.1 + BitVec.ofNat 32 n) = 0#8

/-- A memory where every address can be read. -/
def flat (m : ByteMem) (a : Word) : Option (BitVec 8) := some (m a)

/-- The flags, with the digits and the characters of width and precision. -/
def IsFlag (c : BitVec 8) : Prop :=
  c = 45#8 ∨ 48 ≤ c.toNat ∧ c.toNat ≤ 57 ∨ c = 42#8 ∨ c = 46#8 ∨ c = 35#8 ∨ c = 108#8

/-- The conversion characters `c`, `e`, `s`, `d`, `u`, `o`, `p`, `x` and `%`. -/
def IsConversion (c : BitVec 8) : Prop :=
  c ∈ [99#8, 101#8, 115#8, 100#8, 117#8, 111#8, 112#8, 120#8, 37#8]

/-- An escape from `i` to `q` with an unknown conversion character. -/
structure UnknownEscape (fmt : ℕ → BitVec 8) (i q : ℕ) : Prop where
  percent : fmt i = 37#8
  lt : i < q
  flags : ∀ j, i < j → j < q → IsFlag (fmt j)
  notFlag : ¬ IsFlag (fmt q)
  unknown : ¬ IsConversion (fmt q)

/-! ## Reading an escape -/

variable {ovf : Int → Int} {fmt : ℕ → BitVec 8} {L : ℕ} {m : ByteMem}

theorem toNat_eq_iff (c : BitVec 8) {k : ℕ} (hk : k < 256) :
    c.toNat = k ↔ c = BitVec.ofNat 8 k := by
  rw [← BitVec.toNat_inj, BitVec.toNat_ofNat, Nat.mod_eq_of_lt hk]

/-- The signed character is a digit where the unsigned one is. -/
theorem notDigit_iff (c : BitVec 8) :
    (c.toInt < 48 ∨ 57 < c.toInt) ↔ ¬ (48 ≤ c.toNat ∧ c.toNat ≤ 57) := by
  have hlt := c.isLt
  rw [BitVec.toInt_eq_toNat_cond]
  split_ifs <;> omega

theorem isFlag_of_digit {c : BitVec 8} (h : 48 ≤ c.toNat ∧ c.toNat ≤ 57) : IsFlag c := .inr (.inl h)

theorem ne_star_of_digit {c : BitVec 8} (h : 48 ≤ c.toNat ∧ c.toNat ≤ 57) : c ≠ 42#8 := by
  rintro rfl
  exact absurd h.1 (by decide)

theorem EndsAt.lt_of_flag (hend : EndsAt fmt L) {p : ℕ} (hp : p ≤ L) (h : IsFlag (fmt p)) :
    p < L := by
  refine lt_of_le_of_ne hp fun heq => ?_
  subst heq
  rw [hend.zero] at h
  rcases h with h | ⟨h, -⟩ | h | h | h | h <;> exact absurd h (by decide)

theorem digitsAt_succ (fuel p : ℕ) (precision ch : Int) :
    digitsAt ovf fmt (fuel + 1) p precision ch =
      if 48 ≤ (fmt p).toNat ∧ (fmt p).toNat ≤ 57 then
        (digitsAt ovf fmt fuel (p + 1) (ovf (precision * 10 + ch - 48)) (fmt p).toInt).map
          fun r => (r.1, r.2.1, p :: r.2.2)
      else some (ovf (precision * 10 + ch - 48), p, [p]) := by
  rw [digitsAt]
  simp only [notDigit_iff, ite_not]

theorem digitsAt_ok (ovf : Int → Int) (hend : EndsAt fmt L) (k : ℕ) {p : ℕ} (hk : p + k = L)
    (precision ch : Int) :
    ∃ precision' q rs, (∀ fuel, k < fuel →
        digitsAt ovf fmt fuel p precision ch = some (precision', q, rs)) ∧
      p ≤ q ∧ q ≤ L ∧ (∀ r ∈ rs, r ≤ L) ∧ ∀ j, p ≤ j → j < q → 48 ≤ (fmt j).toNat ∧
        (fmt j).toNat ≤ 57 := by
  -- the loop ends at a character that is not a digit
  have hstop : ∀ {p : ℕ} (precision ch : Int), p ≤ L → ¬ (48 ≤ (fmt p).toNat ∧ (fmt p).toNat ≤ 57) →
      ∀ k, ∃ precision' q rs, (∀ fuel, k < fuel →
          digitsAt ovf fmt fuel p precision ch = some (precision', q, rs)) ∧
        p ≤ q ∧ q ≤ L ∧ (∀ r ∈ rs, r ≤ L) ∧
        ∀ j, p ≤ j → j < q → 48 ≤ (fmt j).toNat ∧ (fmt j).toNat ≤ 57 := by
    intro p precision ch hp hd k
    refine ⟨ovf (precision * 10 + ch - 48), p, [p], fun fuel hfuel => ?_, le_refl p, hp,
      List.forall_mem_singleton.2 hp, fun j hj hjp => by omega⟩
    obtain ⟨n, rfl⟩ : ∃ n, fuel = n + 1 := ⟨fuel - 1, by omega⟩
    rw [digitsAt_succ, if_neg hd]
  induction k generalizing p precision ch with
  | zero =>
    refine hstop precision ch (by omega) (fun hd => ?_) 0
    exact absurd (hend.lt_of_flag (by omega) (isFlag_of_digit hd)) (by omega)
  | succ k ih =>
    by_cases hd : 48 ≤ (fmt p).toNat ∧ (fmt p).toNat ≤ 57
    · obtain ⟨precision', q, rs, hrun, hpq, hq, hrs, hdigits⟩ :=
        ih (p := p + 1) (by omega) (ovf (precision * 10 + ch - 48)) (fmt p).toInt
      refine ⟨precision', q, p :: rs, fun fuel hfuel => ?_, by omega, hq,
        List.forall_mem_cons.2 ⟨by omega, hrs⟩, fun j hj hjq => ?_⟩
      · obtain ⟨n, rfl⟩ : ∃ n, fuel = n + 1 := ⟨fuel - 1, by omega⟩
        rw [digitsAt_succ, if_pos hd, hrun n (by omega)]
        rfl
      · rcases Nat.eq_or_lt_of_le hj with rfl | hj
        · exact hd
        · exact hdigits j hj hjq
    · exact hstop precision ch (by omega) hd (k + 1)

/-- What the walk from `p` to a conversion character has done: it has passed flags only, with an
argument for each star. -/
structure FlagsPassed (fmt : ℕ → BitVec 8) (L p : ℕ) (args : List Word) (e : Escape) : Prop where
  lt : p < e.pos
  le : e.pos ≤ L + 1
  ch : e.ch = (fmt (e.pos - 1)).toNat
  flags : ∀ j, p ≤ j → j < e.pos - 1 → IsFlag (fmt j)
  notFlag : ¬ IsFlag (fmt (e.pos - 1))
  args : e.args = args.drop ((slice fmt p (e.pos - 1)).count 42#8)
  reads : ∀ r ∈ e.reads, r ≤ L

theorem FlagsPassed.cons {p : ℕ} {args : List Word} {e : Escape} (hp : p ≤ L)
    (hflag : IsFlag (fmt p))
    (h : FlagsPassed fmt L (p + 1) (args.drop (if fmt p = 42#8 then 1 else 0)) e) :
    FlagsPassed fmt L p args (e.after [p]) := by
  have hlt := h.lt
  refine ⟨Nat.lt_of_succ_lt hlt, h.le, h.ch, fun j hj hje => ?_, h.notFlag, ?_,
    List.forall_mem_cons.2 ⟨hp, h.reads⟩⟩
  · rcases Nat.eq_or_lt_of_le hj with rfl | hj
    · exact hflag
    · exact h.flags j hj hje
  · have hslice : slice fmt p (e.pos - 1) = fmt p :: slice fmt (p + 1) (e.pos - 1) :=
      slice_cons (by omega)
    change e.args = args.drop ((slice fmt p (e.pos - 1)).count 42#8)
    rw [h.args, List.drop_drop, hslice, List.count_cons, Nat.add_comm]
    simp only [beq_iff_eq]

theorem FlagsPassed.digits {p q : ℕ} {args : List Word} {rs : List ℕ} {e : Escape} (hpq : p ≤ q)
    (hdigits : ∀ j, p ≤ j → j < q → 48 ≤ (fmt j).toNat ∧ (fmt j).toNat ≤ 57) (hrs : ∀ r ∈ rs, r ≤ L)
    (h : FlagsPassed fmt L q args e) : FlagsPassed fmt L p args (e.after rs) := by
  have hlt := h.lt
  refine ⟨by change p < e.pos; omega, h.le, h.ch, fun j hj hje => ?_, h.notFlag, ?_, fun r hr => ?_⟩
  · rcases Nat.lt_or_ge j q with hjq | hjq
    · exact isFlag_of_digit (hdigits j hj hjq)
    · exact h.flags j hjq hje
  · have hcount : (slice fmt p q).count 42#8 = 0 := by
      rw [List.count_eq_zero]
      intro hmem
      obtain ⟨j, hj, hstar⟩ := List.mem_map.1 hmem
      have hj' := List.Ico.mem.1 hj
      exact ne_star_of_digit (hdigits j hj'.1 hj'.2) hstar
    have hsplit : slice fmt p (e.pos - 1) = slice fmt p q ++ slice fmt q (e.pos - 1) :=
      (slice_append hpq (by omega)).symm
    change e.args = args.drop ((slice fmt p (e.pos - 1)).count 42#8)
    rw [h.args, hsplit, List.count_append, hcount, Nat.zero_add]
  · exact (List.mem_append.1 hr).elim (hrs r) (h.reads r)

/-- **Reading an escape** ends at the first character that is not a flag. -/
theorem reswitchAt_ok (ovf : Int → Int) (hend : EndsAt fmt L) (k : ℕ) (sp : FmtSpec) {p : ℕ}
    (hk : p + k = L) (args : List Word) :
    ∃ e, (∀ fuel, k < fuel → reswitchAt ovf fmt fuel sp p args = some e) ∧
    FlagsPassed fmt L p args e := by
  induction k using Nat.strong_induction_on generalizing sp p args with
  | _ k ih =>
    -- a flag of one character
    have hone : ∀ sp args', IsFlag (fmt p) → args' = args.drop (if fmt p = 42#8 then 1 else 0) →
        ∃ e, (∀ fuel, k ≤ fuel →
            (reswitchAt ovf fmt fuel sp (p + 1) args').map (fun e => e.after [p]) = some e) ∧
          FlagsPassed fmt L p args e := by
      intro sp args' hflag hargs
      have hlt := hend.lt_of_flag (by omega) hflag
      obtain ⟨e, hrun, h⟩ := ih (k - 1) (by omega) sp (p := p + 1) (by omega) args'
      rw [hargs] at h
      refine ⟨e.after [p], fun fuel hfuel => ?_, h.cons (by omega) hflag⟩
      rw [hrun fuel (by omega)]
      rfl
    have hdrop : ∀ c : ℕ, (fmt p).toNat = c → c ≠ 42 →
        args = args.drop (if fmt p = 42#8 then 1 else 0) := by
      intro c hc hne
      rw [if_neg fun h => hne (by rw [← hc, h]; rfl), List.drop_zero]
    -- each case gives the result for any fuel that is not zero
    suffices hcases : ∃ e, (∀ fuel, k ≤ fuel → reswitchAt ovf fmt (fuel + 1) sp p args = some e) ∧
        FlagsPassed fmt L p args e by
      obtain ⟨e, hrun, h⟩ := hcases
      refine ⟨e, fun fuel hfuel => ?_, h⟩
      obtain ⟨n, rfl⟩ : ∃ n, fuel = n + 1 := ⟨fuel - 1, by omega⟩
      exact hrun n (by omega)
    simp only [reswitchAt]
    by_cases h45 : (fmt p).toNat = 45
    · simp only [if_pos h45]
      exact hone _ _ (.inl ((toNat_eq_iff _ (by decide)).1 h45)) (hdrop _ h45 (by decide))
    simp only [if_neg h45]
    by_cases h48 : (fmt p).toNat = 48
    · simp only [if_pos h48]
      exact hone _ _ (isFlag_of_digit (by omega)) (hdrop _ h48 (by decide))
    simp only [if_neg h48]
    by_cases hdig : 49 ≤ (fmt p).toNat ∧ (fmt p).toNat ≤ 57
    · simp only [if_pos hdig]
      have hflag : 48 ≤ (fmt p).toNat ∧ (fmt p).toNat ≤ 57 := by omega
      have hlt := hend.lt_of_flag (by omega) (isFlag_of_digit hflag)
      obtain ⟨precision, q, rs, hrun, hpq, hq, hrs, hdigits⟩ :=
        digitsAt_ok ovf hend (k - 1) (p := p + 1) (by omega) 0 ((fmt p).toNat : Int)
      obtain ⟨e, hrun', h⟩ :=
        ih (L - q) (by omega) (sp.processPrecision precision) (p := q) (by omega) args
      refine ⟨e.after (p :: rs), fun fuel hfuel => ?_, ?_⟩
      · rw [hrun fuel (by omega)]
        simp only
        rw [hrun' fuel (by omega)]
        rfl
      · have h' := h.digits hpq hdigits hrs
        refine FlagsPassed.cons (e := e.after rs) (by omega) (isFlag_of_digit hflag) ?_
        rwa [if_neg (ne_star_of_digit hflag), List.drop_zero]
    simp only [if_neg hdig]
    by_cases h42 : (fmt p).toNat = 42
    · have hstar : fmt p = 42#8 := (toNat_eq_iff _ (by decide)).1 h42
      simp only [if_pos h42]
      refine hone _ _ (.inr (.inr (.inl hstar))) ?_
      rw [if_pos hstar, List.drop_one]
    simp only [if_neg h42]
    by_cases h46 : (fmt p).toNat = 46
    · simp only [if_pos h46]
      exact hone _ _ (.inr (.inr (.inr (.inl ((toNat_eq_iff _ (by decide)).1 h46)))))
        (hdrop _ h46 (by decide))
    simp only [if_neg h46]
    by_cases h35 : (fmt p).toNat = 35
    · simp only [if_pos h35]
      exact hone _ _ (.inr (.inr (.inr (.inr (.inl ((toNat_eq_iff _ (by decide)).1 h35))))))
        (hdrop _ h35 (by decide))
    simp only [if_neg h35]
    by_cases h108 : (fmt p).toNat = 108
    · simp only [if_pos h108]
      exact hone _ _ (.inr (.inr (.inr (.inr (.inr ((toNat_eq_iff _ (by decide)).1 h108))))))
        (hdrop _ h108 (by decide))
    simp only [if_neg h108]
    refine ⟨_, fun _ _ => rfl, Nat.lt_succ_self p, by change p + 1 ≤ L + 1; omega, rfl,
      fun j hj hjp => absurd hj (Nat.not_le.2 hjp), ?_, ?_, List.forall_mem_singleton.2 (by omega)⟩
    · change ¬ IsFlag (fmt p)
      rintro (h | h | h | h | h | h)
      · exact h45 (by rw [h]; rfl)
      · omega
      · exact h42 (by rw [h]; rfl)
      · exact h46 (by rw [h]; rfl)
      · exact h35 (by rw [h]; rfl)
      · exact h108 (by rw [h]; rfl)
    · simp [slice_self]

theorem ne_percent_of_flag {c : BitVec 8} (h : IsFlag c) : c ≠ 37#8 := by
  rintro rfl
  rcases h with h | ⟨h, -⟩ | h | h | h | h <;> exact absurd h (by decide)

theorem backUp_flags {i : ℕ} (hpercent : fmt i = 37#8) (k : ℕ) (hk : i + k ≤ L)
    (hflags : ∀ j, i < j → j ≤ i + k → IsFlag (fmt j)) :
    ∃ rs, backUp fmt (i + k + 1) = some (i + 1, rs) ∧ ∀ r ∈ rs, r ≤ L := by
  induction k with
  | zero =>
    refine ⟨[i], ?_, List.forall_mem_singleton.2 hk⟩
    rw [Nat.add_zero, backUp, if_pos hpercent]
  | succ k ih =>
    obtain ⟨rs, hrun, hrs⟩ := ih (by omega) fun j hj hjk => hflags j hj (by omega)
    refine ⟨(i + (k + 1)) :: rs, ?_, List.forall_mem_cons.2 ⟨hk, hrs⟩⟩
    have hne := ne_percent_of_flag (hflags (i + (k + 1)) (by omega) (le_refl _))
    rw [backUp, if_neg hne]
    exact congrArg (Option.map _) hrun

/-! ## Conversions -/

theorem halts_putch (ch : Int) : Halts (fun _ => putch ch) fun _ => True :=
  .const fun _ => ⟨(), _, rfl, trivial⟩

theorem halts_putPad (padc : Int) (n : ℕ) : Halts (fun _ => putPad padc n) fun _ => True := by
  induction n with
  | zero => exact .pure trivial
  | succ n ih => exact (halts_putch padc).bind fun _ _ => ih

theorem halts_printnum (base : ℕ) (padc : Int) (num : ℕ) (width : Int) :
    Halts (fun _ => printnum base padc num width) fun _ => True := by
  induction num using Nat.strong_induction_on generalizing width with
  | _ num ih =>
    rw [printnum]
    by_cases h : 2 ≤ base ∧ base ≤ num
    · rw [dif_pos h]
      have hlt : num / base < num := Nat.div_lt_self (by omega) (by omega)
      exact (ih _ hlt _).bind fun _ _ => halts_putch _
    · rw [dif_neg h]
      exact (halts_putPad _ _).bind fun _ _ => halts_putch _

theorem halts_next (m : ByteMem) (s : Str) : Halts (fun _ => s.next (flat m)) fun _ => True := by
  cases s with
  | user p => exact .const fun t => ⟨_, _, rfl, trivial⟩
  | lit l => cases l <;> exact .pure trivial

theorem halts_strnlen (m : ByteMem) (size : ℕ) (s : Str) :
    Halts (fun _ => strnlen (flat m) size s) fun _ => True := by
  induction size generalizing s with
  | zero => exact .pure trivial
  | succ size ih =>
    refine (halts_next m s).bind fun r _ => .ite (fun _ => .pure trivial) fun _ => ?_
    exact (ih r.2).bind fun _ _ => .pure trivial

theorem halts_putString_cons {alt : Bool} {s s' : Str} {ch : Int}
    (hnext : Halts (fun _ => s.next (flat m)) fun r => r = (ch, s')) (precision width : Int)
    (hrest : ch ≠ 0 → precision < 0 ∨ 0 ≤ precision - 1 →
      Halts (fun fuel => putString (flat m) alt fuel s'
        (if precision < 0 then precision else precision - 1) (width - 1)) fun _ => True) :
    Halts (fun fuel => putString (flat m) alt fuel s precision width) fun _ => True := by
  refine .step (fun _ => rfl) (hnext.bind ?_)
  rintro _ rfl
  refine .ite (fun _ => .pure trivial) fun hch => .ite (fun hp => ?_) fun _ => .pure trivial
  exact (halts_putch _).bind fun _ _ => hrest hch hp

theorem halts_next_user (p : Word) :
    Halts (fun _ => (Str.user p).next (flat m)) fun r => r = (charOf (m p), .user (p + 1#32)) :=
  .const fun _ => ⟨_, _, rfl, rfl⟩

theorem halts_putString_lit (alt : Bool) (l : List Char) (precision width : Int) :
    Halts (fun fuel => putString (flat m) alt fuel (.lit l) precision width) fun _ => True := by
  induction l generalizing precision width with
  | nil =>
    have hnext : Halts (fun _ => (Str.lit []).next (flat m)) fun r => r = (0, .lit []) :=
      .const fun _ => ⟨_, _, rfl, rfl⟩
    exact halts_putString_cons hnext precision width fun h => (h rfl).elim
  | cons ch l ih =>
    have hnext : Halts (fun _ => (Str.lit (ch :: l)).next (flat m)) fun r => r =
      ((ch.toNat : Int), Str.lit l) :=
      .const fun _ => ⟨_, _, rfl, rfl⟩
    exact halts_putString_cons hnext precision width fun _ _ => ih _ _

theorem halts_putString_zero (alt : Bool) (n : ℕ) {p : Word} (hn : m (p + BitVec.ofNat 32 n) = 0#8)
    (precision width : Int) :
    Halts (fun fuel => putString (flat m) alt fuel (.user p) precision width) fun _ => True := by
  induction n generalizing p precision width with
  | zero =>
    rw [add_ofNat_zero] at hn
    refine halts_putString_cons (halts_next_user p) precision width fun h => ?_
    exact (h (charOf_eq_zero.2 hn)).elim
  | succ n ih =>
    refine halts_putString_cons (halts_next_user p) precision width fun _ _ => ih ?_ _ _
    rwa [add_one_add]

theorem halts_putString_precision (alt : Bool) (n : ℕ) (p : Word) (width : Int) :
    Halts (fun fuel => putString (flat m) alt fuel (.user p) n width) fun _ => True := by
  induction n generalizing p width with
  | zero => exact halts_putString_cons (halts_next_user p) _ width fun _ h => by omega
  | succ n ih =>
    refine halts_putString_cons (halts_next_user p) _ width fun _ _ => ?_
    rw [if_neg (by omega), show ((n + 1 : ℕ) : Int) - 1 = (n : Int) by omega]
    exact ih _ _

theorem halts_formatString (sp : FmtSpec) (s : Str)
    (h : ∀ width, Halts (fun fuel => putString (flat m) sp.altflag fuel s sp.precision width)
      fun _ => True) :
    Halts (fun fuel => formatString (flat m) fuel sp s) fun _ => True := by
  have hrest : ∀ width, Halts (fun fuel => do
      let rest ← putString (flat m) sp.altflag fuel s sp.precision width
      putPad 32 rest.toNat) fun _ => True :=
    fun width => (h width).bind fun rest _ => halts_putPad 32 rest.toNat
  unfold formatString
  by_cases hw : 0 < sp.width ∧ sp.padc ≠ 45
  · simp only [if_pos hw, pure_bind]
    exact (halts_strnlen m _ s).bind fun _ _ => (halts_putPad _ _).bind fun _ _ => hrest _
  · simp only [if_neg hw, pure_bind]
    exact hrest _

theorem halts_printInt (sp : FmtSpec) (num : Int) :
    Halts (fun _ => printInt sp num) fun _ => True := by
  unfold printInt
  by_cases h : num < 0
  · simp only [if_pos h]
    exact (halts_putch 45).bind fun _ _ => halts_printnum _ _ _ _
  · simp only [if_neg h]
    exact halts_printnum _ _ _ _

theorem halts_formatError (err : ℕ) :
    Halts (fun fuel => formatError (flat m) fuel err) fun _ => True := by
  have hloop : ∀ l : List Char, Halts (fun _ => (forIn l PUnit.unit fun ch _ => do
      putch ch.toNat
      pure (ForInStep.yield PUnit.unit) : Print PUnit)) fun _ => True := by
    intro l
    induction l with
    | nil => exact .pure trivial
    | cons ch l ih =>
      simp only [List.forIn_cons, bind_assoc, pure_bind]
      exact (halts_putch _).bind fun _ _ => ih
  unfold formatError
  cases errorString.getD err none with
  | none => exact (hloop _).bind fun _ _ => halts_printInt _ _
  | some msg => exact halts_formatString _ _ fun width => halts_putString_lit _ _ _ _

theorem halts_string (sp : FmtSpec) (p : Word) (h : StringOk m (p, sp.precision)) :
    Halts (fun fuel => formatString (flat m) fuel sp
      (if p = 0 then .lit "(null)".toList else .user p))
      fun _ => True := by
  apply halts_formatString
  intro width
  by_cases h0 : p = 0
  · rw [if_pos h0]
    exact halts_putString_lit _ _ _ _
  · rw [if_neg h0]
    rcases h with h | h | ⟨n, hn⟩
    · exact (h0 h).elim
    · obtain ⟨n, hn⟩ := Int.eq_ofNat_of_zero_le h
      change sp.precision = n at hn
      rw [hn]
      exact halts_putString_precision _ n p width
    · exact halts_putString_zero _ n hn _ _

/-- **A conversion** returns, and takes its arguments. -/
theorem halts_convert (ch : Char) (sp : FmtSpec) (args : List Word)
    (hs : ch = 's' → StringOk m (args.headD 0, sp.precision)) :
    Halts (fun fuel => convert (flat m) fuel ch sp args) fun r => r = convertArgs ch sp args := by
  have hret : ∀ {α : Type} {x : ℕ → Print α} (r : Option (List Word)), Halts x (fun _ => True) →
      Halts (fun fuel => do let _ ← x fuel; return r) fun r' => r' = r :=
    fun r hx => hx.bind fun _ _ => .pure rfl
  unfold convert
  by_cases hc : ch = 'c'
  · subst hc
    exact hret _ (halts_putch _)
  rw [funext fun _ => if_neg hc]
  by_cases he : ch = 'e'
  · subst he
    exact hret _ (halts_formatError _)
  rw [funext fun _ => if_neg he]
  by_cases hstr : ch = 's'
  · subst hstr
    exact hret _ (halts_string sp _ (hs rfl))
  rw [funext fun _ => if_neg hstr]
  by_cases hd : ch = 'd'
  · subst hd
    refine (hret (some (getint sp.lflag args).2) (halts_printInt sp (getint sp.lflag args).1)).mono
      ?_
    rintro r rfl
    unfold getint
    split_ifs with hl <;> simp [convertArgs, hl]
  rw [funext fun _ => if_neg hd]
  by_cases hu : ch = 'u' ∨ ch = 'o' ∨ ch = 'x'
  · rw [funext fun _ => if_pos hu]
    refine (hret (some (getuint sp.lflag args).2)
      (halts_printnum _ sp.padc (getuint sp.lflag args).1
      sp.width)).mono ?_
    rintro r rfl
    have hargs : convertArgs ch sp args =
      some (if 2 ≤ sp.lflag then args.tail.tail else args.tail) := by
      rcases hu with rfl | rfl | rfl <;> rfl
    rw [hargs]
    unfold getuint
    split_ifs <;> rfl
  rw [funext fun _ => if_neg hu]
  by_cases hp : ch = 'p'
  · subst hp
    exact (halts_putch 48).bind fun _ _ => (halts_putch 120).bind fun _ _ =>
      hret _ (halts_printnum _ _ _ _)
  rw [funext fun _ => if_neg hp]
  by_cases hpc : ch = '%'
  · subst hpc
    exact hret _ (halts_putch _)
  rw [funext fun _ => if_neg hpc]
  refine .pure ?_
  push Not at hu
  simp [convertArgs, hc, he, hstr, hp, hd, hu, hpc]

/-- A conversion that does not exist does nothing. -/
theorem convert_unknown {ch : Char} {sp : FmtSpec} {args : List Word}
    (h : convertArgs ch sp args = none) (mem : Word → Option (BitVec 8)) (fuel : ℕ) :
    convert mem fuel ch sp args = pure none := by
  unfold convertArgs at h
  split_ifs at h with h1 h2 h3
  push Not at h1 h2
  unfold convert
  simp [h1, h2, h3]

theorem convertArgs_eq_none_iff (c : BitVec 8) (sp : FmtSpec) (args : List Word) :
    convertArgs (Char.ofNat c.toNat) sp args = none ↔ ¬ IsConversion c := by
  have hchar : ∀ c : BitVec 8, c ∈ [99#8, 101#8, 115#8, 100#8, 117#8, 111#8, 112#8, 120#8, 37#8] ↔
      Char.ofNat c.toNat ∈ ['c', 'e', 's', 'd', 'u', 'o', 'p', 'x', '%'] := by decide +kernel
  unfold IsConversion convertArgs
  rw [hchar]
  simp only [List.mem_cons, List.not_mem_nil, or_false]
  split_ifs with h1 h2 h3
  · rcases h1 with h | h | h | h <;> simp [h]
  · rcases h2 with h | h | h | h <;> simp [h]
  · simp [h3]
  · push Not at h1 h2
    simp [h1, h2, h3]

/-! ## The walk -/

theorem vprintfmtAt_char (mem : Word → Option (BitVec 8)) (fuel : ℕ) {p : ℕ} (h37 : fmt p ≠ 37#8)
    (h0 : fmt p ≠ 0#8) (args : List Word) (reads : List ℕ) (t : Printed) :
    vprintfmtAt mem ovf fmt (fuel + 1) p args reads t =
      vprintfmtAt mem ovf fmt fuel (p + 1) args (reads ++ [p])
        { t with out := t.out ++ [((fmt p).toNat : Int)] } := by
  have h37' : (fmt p).toNat ≠ 37 := fun h => h37 ((toNat_eq_iff _ (by decide)).1 h)
  have h0' : (fmt p).toNat ≠ 0 := fun h => h0 ((toNat_eq_iff _ (by decide)).1 h)
  rw [vprintfmtAt]
  simp only [ne_eq, h37', not_false_eq_true, if_true, h0', if_false]
  rfl

theorem vprintfmtAt_zero (mem : Word → Option (BitVec 8)) (fuel : ℕ) {p : ℕ} (h0 : fmt p = 0#8)
    (args : List Word) (reads : List ℕ) (t : Printed) :
    vprintfmtAt mem ovf fmt (fuel + 1) p args reads t = (.ok (reads ++ [p]), t) := by
  rw [vprintfmtAt, h0]
  rfl

theorem vprintfmtAt_escape (mem : Word → Option (BitVec 8)) (fuel : ℕ) {p : ℕ} (h37 : fmt p = 37#8)
    {args : List Word} {e : Escape} (he : reswitchAt ovf fmt fuel {} (p + 1) args = some e)
    (reads : List ℕ) :
    vprintfmtAt mem ovf fmt (fuel + 1) p args reads =
      convert mem fuel (Char.ofNat e.ch) e.sp e.args >>= fun r =>
        match r with
        | some args => vprintfmtAt mem ovf fmt fuel e.pos args (reads ++ [p] ++ e.reads)
        | none => putch 37 >>= fun _ =>
          match backUp fmt (e.pos - 1) with
          | none => throw (.fault 0#32)
          | some (q, rs) =>
            vprintfmtAt mem ovf fmt fuel q e.args (reads ++ [p] ++ e.reads ++ rs) := by
  rw [vprintfmtAt, h37]
  simp only [he]
  rfl

/-- Characters that are no escape are printed as they stand. -/
theorem settles_literal {mem : Word → Option (BitVec 8)} (k : ℕ) {p : ℕ}
    (h37 : ∀ j, p ≤ j → j < p + k → fmt j ≠ 37#8) (h0 : ∀ j, p ≤ j → j < p + k → fmt j ≠ 0#8)
    {args : List Word} {reads r : List ℕ} {t t' : Printed}
    (h : Settles
      (fun fuel => vprintfmtAt mem ovf fmt fuel (p + k) args (reads ++ List.Ico p (p + k)))
      { t with out := t.out ++ (slice fmt p (p + k)).map fun b => (b.toNat : Int) } r t') :
    Settles (fun fuel => vprintfmtAt mem ovf fmt fuel p args reads) t r t' := by
  induction k generalizing p reads t with
  | zero =>
    rw [Nat.add_zero, slice_self, List.Ico.self_empty] at h
    simpa using h
  | succ k ih =>
    refine .step 0 (fun fuel _ => vprintfmtAt_char mem fuel (h37 p (le_refl p) (by omega))
      (h0 p (le_refl p) (by omega)) args reads t) (ih ?_ ?_ ?_)
    · exact fun j hj hjk => h37 j (by omega) (by omega)
    · exact fun j hj hjk => h0 j (by omega) (by omega)
    · have hnext : p + 1 + k = p + (k + 1) := by omega
      rw [hnext]
      rw [List.Ico.eq_cons (show p < p + (k + 1) by omega), slice_cons (by omega)] at h
      simpa [List.append_assoc] using h

theorem FlagsPassed.unknownEscape {i : ℕ} {args : List Word} {e : Escape} (h37 : fmt i = 37#8)
    (h : FlagsPassed fmt L (i + 1) args e) (hun : ¬ IsConversion (fmt (e.pos - 1))) :
    UnknownEscape fmt i (e.pos - 1) := by
  have hlt := h.lt
  exact ⟨h37, by omega, fun j hj hje => h.flags j hj hje, h.notFlag, hun⟩

/-- The conversion character of an escape is where the flags end. -/
theorem FlagsPassed.pos_eq {i q : ℕ} {args : List Word} {e : Escape}
    (h : FlagsPassed fmt L (i + 1) args e) (hesc : UnknownEscape fmt i q) : e.pos = q + 1 := by
  have hlt := h.lt
  have hq := hesc.lt
  rcases Nat.lt_trichotomy (e.pos - 1) q with hc | hc | hc
  · exact (h.notFlag (hesc.flags _ (by omega) hc)).elim
  · omega
  · exact (hesc.notFlag (h.flags q hq hc)).elim

/-- **An unknown escape**: `%` is printed, and the pointer is behind it again. -/
theorem settles_unknown (ovf : Int → Int) (mem : Word → Option (BitVec 8))
    (hend : EndsAt fmt L) {i q : ℕ} (hesc : UnknownEscape fmt i q) (hq : q ≤ L) (args : List Word)
    (reads : List ℕ) (t : Printed) :
    ∃ rs, (∀ r ∈ rs, r ≤ L) ∧ ∀ r t',
      Settles (fun fuel => vprintfmtAt mem ovf fmt fuel (i + 1)
          (args.drop ((slice fmt (i + 1) q).count 42#8)) (reads ++ rs))
          { t with out := t.out ++ [37] } r t' →
        Settles (fun fuel => vprintfmtAt mem ovf fmt fuel i args reads) t r t' := by
  have hlt := hesc.lt
  obtain ⟨e, hrun, he⟩ := reswitchAt_ok ovf hend (L - (i + 1)) {} (p := i + 1) (by omega) args
  have hpos := he.pos_eq hesc
  obtain ⟨rs, hback, hrs⟩ := backUp_flags (L := L) hesc.percent (q - i - 1) (by omega)
    fun j hj hjq => hesc.flags j hj (by omega)
  rw [show i + (q - i - 1) + 1 = q by omega] at hback
  have hconv : convertArgs (Char.ofNat e.ch) e.sp e.args = none := by
    rw [he.ch, convertArgs_eq_none_iff, hpos, Nat.add_sub_cancel]
    exact hesc.unknown
  refine ⟨[i] ++ e.reads ++ rs, ?_, fun r t' h => ?_⟩
  · intro r hr
    simp only [List.mem_append, List.mem_singleton] at hr
    rcases hr with (rfl | hr) | hr
    · omega
    · exact he.reads r hr
    · exact hrs r hr
  · refine .step (L + 1) (fun fuel hfuel => ?_) h
    rw [vprintfmtAt_escape mem fuel hesc.percent (hrun fuel (by omega)),
      convert_unknown hconv, pure_bind]
    simp only [hpos, Nat.add_sub_cancel, hback, he.args, List.append_assoc]
    rfl

theorem settles_conversion {mem : Word → Option (BitVec 8)} {p : ℕ} (h37 : fmt p = 37#8) (K : ℕ)
    {args args' : List Word} {e : Escape}
    (he : ∀ fuel, K ≤ fuel → reswitchAt ovf fmt fuel {} (p + 1) args = some e)
    {reads r : List ℕ} {t t₁ t' : Printed}
    (hconv : Settles (fun fuel => convert mem fuel (Char.ofNat e.ch) e.sp e.args) t (some args') t₁)
    (hrest : Settles (fun fuel => vprintfmtAt mem ovf fmt fuel e.pos args'
      (reads ++ [p] ++ e.reads))
      t₁ r t') : Settles (fun fuel => vprintfmtAt mem ovf fmt fuel p args reads) t r t' := by
  obtain ⟨F, hF⟩ := hconv
  refine .step (max K F) (fun fuel hfuel => ?_) hrest
  rw [vprintfmtAt_escape mem fuel h37 (he fuel (le_trans (le_max_left _ _) hfuel)),
    bind_apply (hF fuel (le_trans (le_max_right _ _) hfuel))]

theorem toNat_of_ofNat_s : ∀ c : BitVec 8, Char.ofNat c.toNat = 's' → c.toNat = 115 := by
  decide +kernel

/-- **The walk ends** behind the last character, with every offset read inside the format. -/
theorem settles_vprintfmtAt (ovf : Int → Int) (hend : EndsAt fmt L) (k : ℕ) {p n : ℕ}
    (hk : p + k = L) (hn : k < n) (args : List Word)
    (hstr : ∀ s ∈ stringArgs ovf fmt (L + 1) n p args, StringOk m s) (reads : List ℕ)
    (t : Printed) :
    ∃ rs t', Settles (fun fuel => vprintfmtAt (flat m) ovf fmt fuel p args reads) t
    (reads ++ rs) t' ∧
      ∀ r ∈ rs, r ≤ L := by
  induction k using Nat.strong_induction_on generalizing p n args reads t with
  | _ k ih =>
    obtain ⟨n, rfl⟩ : ∃ n', n = n' + 1 := ⟨n - 1, by omega⟩
    by_cases h0 : fmt p = 0#8
    · refine ⟨[p], t, ⟨1, fun fuel hfuel => ?_⟩, List.forall_mem_singleton.2 (by omega)⟩
      obtain ⟨fuel, rfl⟩ : ∃ n', fuel = n' + 1 := ⟨fuel - 1, by omega⟩
      exact vprintfmtAt_zero _ fuel h0 args reads t
    have hlt : p < L := lt_of_le_of_ne (by omega) fun heq => h0 (heq ▸ hend.zero)
    rw [stringArgs, if_neg h0] at hstr
    by_cases h37 : fmt p = 37#8
    · obtain ⟨e, hrun, he⟩ := reswitchAt_ok ovf hend (L - (p + 1)) {} (p := p + 1) (by omega) args
      have hpos := he.lt
      rw [if_neg (not_not.2 h37), hrun (L + 1) (by omega)] at hstr
      cases hconv : convertArgs (Char.ofNat e.ch) e.sp e.args with
      | none =>
        -- the escape is unknown, and the walk goes on behind the `%`
        have hun : ¬ IsConversion (fmt (e.pos - 1)) := by
          rwa [he.ch, convertArgs_eq_none_iff] at hconv
        have hesc := he.unknownEscape h37 hun
        have hle := he.le
        obtain ⟨rs, hrs, hgo⟩ := settles_unknown ovf (flat m) hend hesc (by omega) args reads t
        rw [← he.args] at hgo
        simp only [hconv] at hstr
        obtain ⟨rs', t', hsettle, hrs'⟩ :=
          ih (k - 1) (by omega) (p := p + 1) (n := n) (by omega) (by omega)
          e.args hstr (reads ++ rs) { t with out := t.out ++ [37] }
        refine ⟨rs ++ rs', t', ?_, fun r hr => (List.mem_append.1 hr).elim (hrs r) (hrs' r)⟩
        rw [← List.append_assoc]
        exact hgo _ _ hsettle
      | some args' =>
        simp only [hconv] at hstr
        -- a conversion is not the end of the format
        have hne : e.pos ≤ L := by
          have hle := he.le
          by_contra hc
          have hnul : fmt (e.pos - 1) = 0#8 := by
            rw [show e.pos - 1 = L by omega]
            exact hend.zero
          have hnone : convertArgs (Char.ofNat e.ch) e.sp e.args = none := by
            rw [he.ch, convertArgs_eq_none_iff, hnul]
            unfold IsConversion
            decide
          rw [hconv] at hnone
          cases hnone
        have hs : Char.ofNat e.ch = 's' → StringOk m (e.args.headD 0, e.sp.precision) := by
          intro hch
          have h115 : e.ch = 115 := by
            rw [he.ch] at hch ⊢
            exact toNat_of_ofNat_s _ hch
          refine hstr _ (List.mem_append_left _ ?_)
          rw [if_pos h115]
          exact List.mem_singleton_self _
        obtain ⟨r, t₁, hsettle₁, hr⟩ := halts_convert (Char.ofNat e.ch) e.sp e.args hs t
        rw [hconv] at hr
        subst hr
        obtain ⟨rs', t', hsettle, hrs'⟩ :=
          ih (L - e.pos) (by omega) (p := e.pos) (n := n) (by omega)
          (by omega) args' (fun s hmem => hstr s (List.mem_append_right _ hmem))
          (reads ++ [p] ++ e.reads) t₁
        refine ⟨[p] ++ e.reads ++ rs', t', ?_, ?_⟩
        · rw [← List.append_assoc, ← List.append_assoc]
          exact settles_conversion h37 (L + 1) (fun fuel hfuel => hrun fuel (by omega))
            hsettle₁ hsettle
        · intro r hr
          simp only [List.mem_append, List.mem_singleton] at hr
          rcases hr with (rfl | hr) | hr
          · omega
          · exact he.reads r hr
          · exact hrs' r hr
    · rw [if_pos h37] at hstr
      obtain ⟨rs', t', hsettle, hrs'⟩ :=
        ih (k - 1) (by omega) (p := p + 1) (n := n) (by omega) (by omega)
        args hstr (reads ++ [p]) { t with out := t.out ++ [((fmt p).toNat : Int)] }
      refine ⟨p :: rs', t', ?_, List.forall_mem_cons.2 ⟨by omega, hrs'⟩⟩
      rw [List.append_assoc, List.singleton_append] at hsettle
      exact .step 0 (fun fuel _ => vprintfmtAt_char _ fuel h37 h0 args reads t) hsettle

/-! ## The result -/

/-- An unknown escape is printed as it stands, and the walk goes on behind it. -/
theorem settles_echo (ovf : Int → Int) (mem : Word → Option (BitVec 8))
    (hend : EndsAt fmt L) {i q : ℕ} (hesc : UnknownEscape fmt i q) (hq : q ≤ L) (args : List Word)
    (reads : List ℕ) (t : Printed) :
    ∃ reads', ∀ r t',
      Settles (fun fuel => vprintfmtAt mem ovf fmt fuel (min (q + 1) L)
          (args.drop ((slice fmt (i + 1) q).count 42#8)) reads')
        { t with out := t.out ++ 37 :: (slice fmt (i + 1) (min (q + 1) L)).map fun b =>
          (b.toNat : Int) }
        r t' →
      Settles (fun fuel => vprintfmtAt mem ovf fmt fuel i args reads) t r t' := by
  have hlt := hesc.lt
  obtain ⟨rs, -, hgo⟩ := settles_unknown ovf mem hend hesc hq args reads t
  obtain ⟨k, hk⟩ : ∃ k, i + 1 + k = min (q + 1) L := ⟨min (q + 1) L - (i + 1), by omega⟩
  refine ⟨reads ++ rs ++ List.Ico (i + 1) (min (q + 1) L), fun r t' h => hgo r t' ?_⟩
  -- no character behind the `%` is another one, and none before `L` is the end
  have h37 : ∀ j, i + 1 ≤ j → j < i + 1 + k → fmt j ≠ 37#8 := by
    intro j hj hjk
    rcases Nat.lt_or_ge j q with hjq | hjq
    · exact ne_percent_of_flag (hesc.flags j hj hjq)
    · obtain rfl : j = q := by omega
      intro hc
      refine hesc.unknown ?_
      rw [hc]
      unfold IsConversion
      decide
  refine settles_literal k h37 (fun j hj hjk => hend.first j (by omega)) ?_
  rw [hk]
  simpa using h

/-- **`vprintfmt` terminates**, reads the format up to its zero byte, and echoes unknown escapes. -/
theorem vprintfmt_terminates (m : ByteMem) (ovf : Int → Int) (fmt : ℕ → BitVec 8) (L : ℕ)
    (args : List Word) (hend : EndsAt fmt L)
    (hstr : ∀ s ∈ stringArgs ovf fmt (L + 1) (L + 1) 0 args, StringOk m s) :
    (∃ reads t, Settles (fun fuel => vprintfmtAt (flat m) ovf fmt fuel 0 args []) {} reads t ∧
      ∀ r ∈ reads, r ≤ L) ∧
    ∀ i q args reads t, UnknownEscape fmt i q → q ≤ L →
      ∃ reads', ∀ r t',
        Settles (fun fuel => vprintfmtAt (flat m) ovf fmt fuel (min (q + 1) L)
            (args.drop ((slice fmt (i + 1) q).count 42#8)) reads')
          { t with out := t.out ++ 37 :: (slice fmt (i + 1) (min (q + 1) L)).map fun b =>
            (b.toNat : Int) }
          r t' →
        Settles (fun fuel => vprintfmtAt (flat m) ovf fmt fuel i args reads) t r t' := by
  constructor
  · obtain ⟨rs, t, hsettle, hrs⟩ :=
      settles_vprintfmtAt ovf hend L (Nat.zero_add L) (Nat.lt_succ_self L) args hstr [] {}
    exact ⟨rs, t, hsettle, hrs⟩
  · intro i q args reads t hesc hq
    exact settles_echo ovf (flat m) hend hesc hq args reads t

/-- The format `%-3q%s`. -/
def echoFmt : ℕ → BitVec 8 := fun i => (asciiBytes "%-3q%s").getD i 0#8

/-- Memory with the string `A` at `0x1000`, and zeros elsewhere. -/
def echoMem : ByteMem := fun a => if a = 0x1000#32 then 65#8 else 0#8

/-- The unknown escape `%-3q` goes to the output, and `vprintfmt` goes on with `%s`. -/
theorem vprintfmt_terminates_echo :
    EndsAt echoFmt 6 ∧ (∀ s ∈ stringArgs id echoFmt 7 7 0 [0x1000#32], StringOk echoMem s) ∧
      (∃ reads t,
        Settles
          (fun fuel => vprintfmtAt (flat echoMem) id echoFmt fuel 0 [0x1000#32] []) {} reads t ∧
        ∀ r ∈ reads, r ≤ 6) ∧
      UnknownEscape echoFmt 0 3 ∧ ∃ reads', ∀ r t',
        Settles (fun fuel => vprintfmtAt (flat echoMem) id echoFmt fuel 4 [0x1000#32] reads')
          { out := [37, 45, 51, 113] } r t' →
        Settles
          (fun fuel => vprintfmtAt (flat echoMem) id echoFmt fuel 0 [0x1000#32] []) {} r t' := by
  have hend : EndsAt echoFmt 6 := ⟨by decide, by decide⟩
  have hargs : stringArgs id echoFmt 7 7 0 [0x1000#32] = [(0x1000#32, -1)] := by rfl
  have hstr : ∀ s ∈ stringArgs id echoFmt 7 7 0 [0x1000#32], StringOk echoMem s := by
    rw [hargs]
    exact List.forall_mem_singleton.2 (.inr (.inr ⟨1, by decide⟩))
  have hesc : UnknownEscape echoFmt 0 3 := by
    refine ⟨by decide, by decide, fun j h0 h3 => ?_, ?_, ?_⟩
    · obtain rfl | rfl : j = 1 ∨ j = 2 := by omega
      all_goals unfold IsFlag; decide
    · unfold IsFlag; decide
    · unfold IsConversion; decide
  obtain ⟨hterm, hecho⟩ := vprintfmt_terminates echoMem id echoFmt 6 [0x1000#32] hend hstr
  exact ⟨hend, hstr, hterm, hesc, hecho 0 3 [0x1000#32] [] {} hesc (by decide)⟩

end Jos
