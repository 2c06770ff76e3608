import Jos.Console
import Jos.Numeric

/-!
# Printing into a buffer

`vsnprintf` (`lib/printfmt.c`) formats into a buffer of `n` bytes. `sprintputch` counts every
character and stores it while the cursor is before the last byte of the buffer, which is kept for
the zero byte at the end.

**The model.** What the formatter does to the buffer is decided by the characters it passes to
`sprintputch` (`putchCallsAt`), so `vsnprintf` takes them, with how the formatter ends, and folds
`sprintputch` over them. They are any characters here: the format and its strings may be in the
buffer too, and then change while they are printed.

**Theorem (`vsnprintf_bounded`).** The buffer holds as many of the characters as fit before the zero
byte, and nothing else is written. The result is the number of all characters, as an `int`: it is
that number if it is below `2^31`, and the format `%2147483647u%u` has one character too many
(`vsnprintf_count_wraps`).
-/

namespace Jos

open Lib

/-! ## The program -/

/-- The characters that `vprintfmt` passes to `putch`, in order, and how it ends. -/
def putchCallsAt (mem : Word → Option (BitVec 8)) (ovf : Int → Int) (fmt : ℕ → BitVec 8) (fuel : ℕ)
    (args : List Word) : Except Stop Unit × List Int :=
  let r := vprintfmtAt mem ovf fmt fuel 0 args [] {}
  (r.1.map fun _ => (), r.2.out)

/-- `struct sprintbuf`, with memory and the addresses that have been written. -/
structure Sprintbuf where
  buf : Word
  ebuf : Word
  cnt : Word
  bytes : ByteMem
  writes : List Word

/-- `*b.buf = c`. -/
def Sprintbuf.put (b : Sprintbuf) (c : BitVec 8) : Sprintbuf :=
  { b with bytes := Function.update b.bytes b.buf c, writes := b.writes ++ [b.buf] }

/-- `sprintputch`. -/
def sprintputch (b : Sprintbuf) (ch : Int) : Sprintbuf :=
  let b := { b with cnt := b.cnt + 1 }
  if b.buf.toNat < b.ebuf.toNat then { b.put (byteOf ch) with buf := b.buf + 1#32 } else b

/-- `vsnprintf`, for a formatter that ends with `r` and makes these calls: the result, memory, and
the addresses that have been written. -/
def vsnprintf (run : Except Stop Unit × List Int) (m : ByteMem) (buf n : Word) :
    Except Stop Word × ByteMem × List Word :=
  if buf = 0#32 ∨ n.toInt < 1 then (.ok (-E_INVAL), m, [])
  else
    let b := run.2.foldl sprintputch ⟨buf, buf + n - 1#32, 0#32, m, []⟩
    match run.1 with
    | .error e => (.error e, b.bytes, b.writes)
    | .ok () =>
      let b := b.put 0#8
      (.ok b.cnt, b.bytes, b.writes)

/-- **The first characters of `S` that fit, and a zero byte** are in the buffer, and nothing else
has been written. -/
structure PrefixWritten (S : List Int) (m : ByteMem) (buf n : Word) (m' : ByteMem)
    (writes : List Word) :
    Prop where
  text : HoldsAt (fun i => m' (buf + BitVec.ofNat 32 i)) 0
    ((S.take (min S.length (n.toNat - 1))).map byteOf ++ [0#8])
  inside : ∀ x ∈ writes, InRange buf n x
  outside : ∀ x, ¬ InRange buf n x → m' x = m x

/-! ## The cursor -/

variable {m : ByteMem} {base buf n : Word} {k : ℕ} {S : List Int} {b : Sprintbuf}

/-- Where the cursor is and what stands before it, after the calls `S` on a buffer with room for `k`
characters. -/
structure BufFilled (m : ByteMem) (base : Word) (k : ℕ) (S : List Int) (b : Sprintbuf) : Prop where
  buf : b.buf = base + BitVec.ofNat 32 (min S.length k)
  ebuf : b.ebuf = base + BitVec.ofNat 32 k
  cnt : b.cnt = BitVec.ofNat 32 S.length
  stored : ∀ i (h : i < S.length), i < k → b.bytes (base + BitVec.ofNat 32 i) = byteOf S[i]
  other : ∀ x, (∀ i < k, x ≠ base + BitVec.ofNat 32 i) → b.bytes x = m x
  writes : ∀ x ∈ b.writes, ∃ i < k, x = base + BitVec.ofNat 32 i

theorem toNat_offset {i : ℕ} (h : base.toNat + i < 2 ^ 32) :
    (base + BitVec.ofNat 32 i).toNat = base.toNat + i := by
  rw [BitVec.toNat_add, BitVec.toNat_ofNat]
  omega

theorem offset_ne {i j : ℕ} (hi : base.toNat + i < 2 ^ 32) (hj : base.toNat + j < 2 ^ 32)
    (hne : i ≠ j) :
    base + BitVec.ofNat 32 i ≠ base + BitVec.ofNat 32 j := by
  intro heq
  have hN := congrArg BitVec.toNat heq
  rw [toNat_offset hi, toNat_offset hj] at hN
  omega

theorem BufFilled.init (m : ByteMem) (base n : Word) (hn : 1 ≤ n.toNat) :
    BufFilled m base (n.toNat - 1) [] ⟨base, base + n - 1#32, 0#32, m, []⟩ := by
  refine ⟨?_, ?_, rfl, fun i h => absurd h (Nat.not_lt_zero i), fun _ _ => rfl,
    fun _ h => nomatch h⟩
  · rw [List.length_nil, Nat.zero_min, add_ofNat_zero]
  · have hsub : BitVec.ofNat 32 (n.toNat - 1) = n - 1#32 := by
      apply BitVec.eq_of_toNat_eq
      have hlt := n.isLt
      rw [BitVec.toNat_ofNat, BitVec.toNat_sub]
      change (n.toNat - 1) % 2 ^ 32 = (2 ^ 32 - 1 + n.toNat) % 2 ^ 32
      omega
    change base + n - 1#32 = _
    rw [hsub, BitVec.sub_eq_add_neg, BitVec.sub_eq_add_neg, BitVec.add_assoc]

theorem BufFilled.putch (hk : base.toNat + k < 2 ^ 32) (h : BufFilled m base k S b) (ch : Int) :
    BufFilled m base k (S ++ [ch]) (sprintputch b ch) := by
  have hlen : (S ++ [ch]).length = S.length + 1 := by rw [List.length_append, List.length_singleton]
  have hcnt : b.cnt + 1 = BitVec.ofNat 32 (S ++ [ch]).length := by
    rw [h.cnt, hlen, BitVec.ofNat_add]
    rfl
  have hbuf : b.buf.toNat = base.toNat + min S.length k := by
    rw [h.buf, toNat_offset (by omega)]
  have hebuf : b.ebuf.toNat = base.toNat + k := by rw [h.ebuf, toNat_offset hk]
  unfold sprintputch
  by_cases hroom : S.length < k
  · have hmin : min S.length k = S.length := by omega
    have hcur : b.buf = base + BitVec.ofNat 32 S.length := by rw [h.buf, hmin]
    rw [if_pos (show b.buf.toNat < b.ebuf.toNat by omega)]
    refine ⟨?_, h.ebuf, hcnt, fun i hi hik => ?_, fun x hx => ?_, fun x hx => ?_⟩
    · change b.buf + 1#32 = _
      rw [hlen, hcur, show min (S.length + 1) k = S.length +
        1 by omega, BitVec.add_assoc, BitVec.ofNat_add]
    · -- the cell at the cursor, and those before it
      change Function.update b.bytes b.buf (byteOf ch) _ = _
      by_cases hlast : i = S.length
      · subst hlast
        rw [hcur, Function.update_self, List.getElem_concat_length rfl]
      · have hlt : i < S.length := by omega
        rw [hcur, Function.update_of_ne (offset_ne (by omega) (by omega) hlast), h.stored i hlt hik,
          List.getElem_append_left]
    · change Function.update b.bytes b.buf (byteOf ch) x = m x
      rw [Function.update_of_ne (hcur ▸ hx S.length hroom), h.other x hx]
    · rcases List.mem_append.1 hx with hx | hx
      · exact h.writes x hx
      · exact ⟨S.length, hroom, by rw [List.mem_singleton.1 hx]; exact hcur⟩
  · rw [if_neg (show ¬ b.buf.toNat < b.ebuf.toNat by omega)]
    refine ⟨?_, h.ebuf, hcnt, fun i hi hik => ?_, h.other, h.writes⟩
    · change b.buf = _
      rw [h.buf, hlen, show min (S.length + 1) k = min S.length k by omega]
    · change b.bytes _ = _
      rw [h.stored i (by omega) hik, List.getElem_append_left]

/-- **All characters.** -/
theorem BufFilled.run (hk : base.toNat + k < 2 ^ 32) (h : BufFilled m base k [] b) (S : List Int) :
    BufFilled m base k S (S.foldl sprintputch b) := by
  induction S using List.reverseRecOn with
  | nil => exact h
  | append_singleton S ch ih =>
    rw [List.foldl_append]
    exact ih.putch hk ch

theorem holdsAt_of_getElem {f : ℕ → BitVec 8} {p : ℕ} (l : List (BitVec 8))
    (h : ∀ i (hi : i < l.length), f (p + i) = l[i]) : HoldsAt f p l := by
  induction l generalizing p with
  | nil => trivial
  | cons c l ih =>
    refine ⟨h 0 (Nat.zero_lt_succ _), ih fun i hi => ?_⟩
    have hi' := h (i + 1) (Nat.succ_lt_succ hi)
    rwa [Nat.add_assoc, Nat.add_comm 1 i]

theorem BufFilled.finish (hn : 1 ≤ n.toNat) (hfits : base.toNat + n.toNat ≤ 2 ^ 32)
    (h : BufFilled m base (n.toNat - 1) S b) :
    PrefixWritten S m base n (b.put 0#8).bytes (b.put 0#8).writes := by
  have hin : ∀ i < n.toNat, InRange base n (base + BitVec.ofNat 32 i) := by
    intro i hi
    unfold InRange
    rw [toNat_offset (by omega)]
    omega
  have hlen : ((S.take (min S.length (n.toNat - 1))).map byteOf).length =
    min S.length (n.toNat - 1) := by
    rw [List.length_map, List.length_take]
    omega
  refine ⟨holdsAt_append.2 ⟨holdsAt_of_getElem _ fun i hi => ?_, ?_, trivial⟩, fun x hx => ?_,
    fun x hx => ?_⟩
  · rw [hlen] at hi
    change Function.update b.bytes b.buf 0#8 (base + BitVec.ofNat 32 (0 + i)) = _
    rw [Nat.zero_add, h.buf, Function.update_of_ne (offset_ne (by omega) (by omega) (by omega)),
      h.stored i (by omega) (by omega), List.getElem_map, List.getElem_take]
  · change Function.update b.bytes b.buf 0#8 (base + BitVec.ofNat 32 (0 + _)) = _
    rw [Nat.zero_add, hlen, h.buf, Function.update_self]
  · rcases List.mem_append.1 hx with hx | hx
    · obtain ⟨i, hi, rfl⟩ := h.writes x hx
      exact hin i (by omega)
    · rw [List.mem_singleton.1 hx, h.buf]
      exact hin _ (by omega)
  · change Function.update b.bytes b.buf 0#8 x = m x
    have hcur : x ≠ b.buf := by
      rintro rfl
      rw [h.buf] at hx
      exact hx (hin _ (by omega))
    rw [Function.update_of_ne hcur]
    refine h.other x fun i hi heq => ?_
    rw [heq] at hx
    exact hx (hin i (by omega))

/-! ## The result -/

theorem toNat_of_one_le (hn : 1 ≤ n.toInt) : 1 ≤ n.toNat := by
  rw [BitVec.toInt_eq_toNat_cond] at hn
  split_ifs at hn <;> omega

theorem putchCallsAt_of_settles {mem : Word → Option (BitVec 8)} {ovf : Int → Int}
    {fmt : ℕ → BitVec 8} {args : List Word} {r : List ℕ} {t : Printed}
    (h : Settles (fun fuel => vprintfmtAt mem ovf fmt fuel 0 args []) {} r t) :
    ∃ F, ∀ fuel, F ≤ fuel → putchCallsAt mem ovf fmt fuel args = (.ok (), t.out) := by
  obtain ⟨F, hF⟩ := h
  refine ⟨F, fun fuel hfuel => ?_⟩
  unfold putchCallsAt
  simp only [hF fuel hfuel]
  rfl

/-- What `vsnprintf` does with the calls of a formatter that returns. -/
theorem vsnprintf_ok (m : ByteMem) (hbuf : buf ≠ 0#32) (hn : 1 ≤ n.toInt)
    (hfits : buf.toNat + n.toNat ≤ 2 ^ 32) (S : List Int) :
    ∃ m' writes, vsnprintf (.ok (), S) m buf n = (.ok (BitVec.ofNat 32 S.length), m', writes) ∧
      PrefixWritten S m buf n m' writes := by
  have hpos := toNat_of_one_le hn
  have hfilled := BufFilled.run (by omega) (BufFilled.init m buf n hpos) S
  refine ⟨_, _, ?_, hfilled.finish hpos hfits⟩
  unfold vsnprintf
  rw [if_neg (by simpa [hbuf] using hn), ← hfilled.cnt]
  rfl

/-- **`vsnprintf`** leaves the first characters that fit and a zero byte in the buffer, writes
nothing else, and returns the number of all characters as an `int`. -/
theorem vsnprintf_bounded (m : ByteMem) (buf n : Word) :
    (buf = 0#32 ∨ n.toInt < 1 → ∀ run, vsnprintf run m buf n = (.ok (-E_INVAL), m, [])) ∧
    (buf ≠ 0#32 → 1 ≤ n.toInt → buf.toNat + n.toNat ≤ 2 ^ 32 → ∀ S : List Int, ∃ ret m' writes,
      vsnprintf (.ok (), S) m buf n = (.ok ret, m', writes) ∧ ret = BitVec.ofNat 32 S.length ∧
        (S.length < 2 ^ 31 → ret.toInt = S.length) ∧ PrefixWritten S m buf n m' writes) ∧
    ∀ (ovf : Int → Int) (fmt : ℕ → BitVec 8) (L : ℕ) (args : List Word), EndsAt fmt L →
      (∀ s ∈ stringArgs ovf fmt (L + 1) (L + 1) 0 args, StringOk m s) →
        ∃ S F, ∀ fuel, F ≤ fuel → putchCallsAt (flat m) ovf fmt fuel args = (.ok (), S) := by
  refine ⟨fun h run => ?_, fun hbuf hn hfits S => ?_, fun ovf fmt L args hend hstr => ?_⟩
  · unfold vsnprintf
    rw [if_pos h]
  · obtain ⟨m', writes, hrun, hprefix⟩ := vsnprintf_ok m hbuf hn hfits S
    refine ⟨_, m', writes, hrun, rfl, fun hlen => ?_, hprefix⟩
    have hN : (BitVec.ofNat 32 S.length).toNat = S.length := by
      rw [BitVec.toNat_ofNat]
      omega
    rw [BitVec.toInt_eq_toNat_of_lt (by omega), hN]
  · obtain ⟨rs, t, hsettle, -⟩ :=
      settles_vprintfmtAt ovf hend L (Nat.zero_add L) (Nat.lt_succ_self L) args hstr [] {}
    exact ⟨t.out, putchCallsAt_of_settles hsettle⟩

/-- Five characters in a buffer of four bytes. -/
theorem vsnprintf_bounded_hello : ∃ m' writes,
    vsnprintf (.ok (), [72, 101, 108, 108, 111]) echoMem 0x2000#32 4#32 = (.ok 5#32, m', writes) ∧
      PrefixWritten [72, 101, 108, 108, 111] echoMem 0x2000#32 4#32 m' writes := by
  obtain ⟨ret, m', writes, hrun, rfl, -, hprefix⟩ :=
    (vsnprintf_bounded echoMem 0x2000#32 4#32).2.1 (by decide) (by decide) (by decide)
    [72, 101, 108, 108, 111]
  exact ⟨m', writes, hrun, hprefix⟩

/-! ## The count -/

theorem putchCallsAt_pair (mem : Word → Option (BitVec 8)) (D D' : NumDirective)
    (a : BitVec D.size.bits) (a' : BitVec D'.size.bits) : ∃ F, ∀ fuel, F ≤ fuel →
      putchCallsAt mem wrapInt (fun i => (D.text ++ D'.text).getD i 0#8) fuel
          (D.words a ++ (D'.words a' ++ [])) = (.ok (), D.printed a ++ D'.printed a') := by
  have hfirst : HoldsAt (fun i => (D.text ++ D'.text).getD i 0#8) 0 D.text :=
    (holdsAt_getD [] (D.text ++ D'.text)).left
  have hsecond : HoldsAt (fun i => (D.text ++ D'.text).getD i 0#8) (0 + D.text.length) D'.text := by
    rw [Nat.zero_add]
    exact holdsAt_getD D.text D'.text
  have hnul : (D.text ++ D'.text).getD (0 + D.text.length + D'.text.length) 0#8 = 0#8 := by simp
  obtain ⟨rs, F, hF⟩ := vprintfmtAt_directive mem a (D'.words a' ++ []) [] {} hfirst
  obtain ⟨rs', F', hF'⟩ :=
    vprintfmtAt_directive mem a' [] ([] ++ rs) ⟨[], [] ++ D.printed a⟩ hsecond
  have hend :
      Settles (fun fuel => vprintfmtAt mem wrapInt (fun i => (D.text ++ D'.text).getD i 0#8) fuel
      (0 + D.text.length + D'.text.length) [] ([] ++ rs ++ rs')) ⟨[], D.printed a ++ D'.printed a'⟩
      ([] ++ rs ++ rs' ++ [0 + D.text.length + D'.text.length])
      ⟨[], D.printed a ++ D'.printed a'⟩ := by
    refine ⟨1, fun fuel hfuel => ?_⟩
    obtain ⟨j, rfl⟩ : ∃ j, fuel = j + 1 := ⟨fuel - 1, by omega⟩
    exact vprintfmtAt_zero mem j hnul [] _ _
  exact putchCallsAt_of_settles (.step F hF (.step F' hF' hend))

/-- A number in the widest field there is. -/
def widest : NumDirective := ⟨false, false, 2147483647, .int, .u⟩

/-- A number without a field. -/
def plainU : NumDirective := ⟨false, false, 0, .int, .u⟩

/-- The format `%2147483647u%u`. -/
def countFmt : ℕ → BitVec 8 := fun i => (asciiBytes "%2147483647u%u").getD i 0#8

theorem countFmt_eq : countFmt = fun i => (widest.text ++ plainU.text).getD i 0#8 := by
  have htext : asciiBytes "%2147483647u%u" = widest.text ++ plainU.text := by decide
  unfold countFmt
  rw [htext]

theorem length_printed_widest : (widest.printed 0#_).length = 2147483647 := by
  have hdigits : (widest.digits 0#_).length = 1 := by decide
  have hsign : (widest.sign 0#_).length = 0 := by decide
  have hwidth : widest.width = 2147483647 := rfl
  rw [NumDirective.length_printed, NumDirective.padding_of_lt (by decide), hdigits, hsign, hwidth]

/-- **The count wraps around**: with `2^31` characters the result is negative. -/
theorem vsnprintf_count_wraps : ∃ S F, (∀ fuel, F ≤ fuel →
      putchCallsAt (flat echoMem) wrapInt countFmt fuel [0#32, 0#32] = (.ok (), S)) ∧
    S.length = 2 ^ 31 ∧ ∃ ret m' writes, vsnprintf (.ok (), S) echoMem 0x2000#32 4#32 =
    (.ok ret, m', writes) ∧
      ret.toInt = -2 ^ 31 ∧ ret.toInt ≠ S.length := by
  obtain ⟨F, hF⟩ := putchCallsAt_pair (flat echoMem) widest plainU 0#_ 0#_
  rw [← countFmt_eq] at hF
  have hplain : (plainU.printed 0#_).length = 1 := by decide
  have hlen : (widest.printed 0#_ ++ plainU.printed 0#_).length = 2 ^ 31 := by
    rw [List.length_append, length_printed_widest, hplain]
    rfl
  obtain ⟨m', writes, hrun, -⟩ := vsnprintf_ok echoMem (show 0x2000#32 ≠ 0#32 by decide)
    (show 1 ≤ (4#32).toInt by decide) (by decide) (widest.printed 0#_ ++ plainU.printed 0#_)
  rw [hlen] at hrun
  refine ⟨_, F, hF, hlen, _, m', writes, hrun, by decide, ?_⟩
  rw [hlen]
  decide

end Jos
