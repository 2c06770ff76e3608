import Jos.Mmu
import Jos.Lib.StringOps

/-!
# `memset` and `memmove`

`lib/string.c` has two versions of both. The one that is compiled (`ASM` is defined) uses the string
instructions, with words where the pointers and the length are whole words, and `memmove` sets the
direction flag to copy from the end if the destination starts inside the source. The other version
is plain C.

**Theorem (`string_bytewise_iff`).** The compiled versions and the plain `memmove` do what they
should for every overlap, alignment and length. The plain `memset` counts in an `int`: it does so
for fewer than 2³¹ bytes, and for more than 2³¹ it stores nothing.

`--m` on the smallest `int` is undefined in C, and here (`none`).
-/

namespace Jos

open Lib

/-! ## The version with string instructions -/

/-- The memory, and the direction flag of the processor. -/
structure StrState where
  mem : ByteMem
  df : Bool

namespace StrState

def cld (t : StrState) : StrState := { t with df := false }

def std (t : StrState) : StrState := { t with df := true }

/-- A string instruction on `w` bytes with the prefix `rep`. -/
def rep (op : StringOp) (w : Nat) (edi esi ecx : Word) (t : StrState) : StrState :=
  { t with mem := Lib.rep op w t.df ecx.toNat t.mem edi esi }

end StrState

/-- `(int) a % 4 == 0`. -/
def WordAligned (a : Word) : Prop := a.toInt.tmod 4 = 0

instance (a : Word) : Decidable (WordAligned a) := by unfold WordAligned; infer_instance

namespace Asm

/-- `memset`. -/
def memset (v c n : Word) (t : StrState) : Word × StrState :=
  if n = 0#32 then (v, t)
  else if WordAligned v ∧ n % 4#32 = 0#32 then
    let c := c &&& 0xFF#32
    let c := c <<< 24 ||| c <<< 16 ||| c <<< 8 ||| c
    -- `stosl` does not use `esi`
    (v, t.cld.rep (stosl c) 4 v 0#32 (n / 4#32))
  else (v, t.cld.rep (stosb c) 1 v 0#32 n)

/-- `memmove`. -/
def memmove (dst src n : Word) (t : StrState) : Word × StrState :=
  let s := src
  let d := dst
  if s < d ∧ d < s + n then
    let s := s + n
    let d := d + n
    if WordAligned s ∧ WordAligned d ∧ n % 4#32 = 0#32 then
      (dst, (t.std.rep movsl 4 (d - 4#32) (s - 4#32) (n / 4#32)).cld)
    else (dst, (t.std.rep movsb 1 (d - 1#32) (s - 1#32) n).cld)
  else if WordAligned s ∧ WordAligned d ∧ n % 4#32 = 0#32 then
    (dst, t.cld.rep movsl 4 d s (n / 4#32))
  else (dst, t.cld.rep movsb 1 d s n)

end Asm

/-! ## The plain version -/

namespace Plain

/-- The loop of `memset`, with `m` an `int`. -/
def memsetLoop (c : BitVec 8) (mem : ByteMem) (p : Word) (m : Int) : Option ByteMem :=
  if m = -2 ^ 31 then none
  else if 0 ≤ m - 1 then memsetLoop c (mem.storeByte p c) (p + 1#32) (m - 1)
  else some mem
termination_by m.toNat

/-- `memset`. -/
def memset (v c n : Word) (mem : ByteMem) : Option (Word × ByteMem) :=
  (memsetLoop (c.setWidth 8) mem v n.toInt).map fun mem => (v, mem)

/-- `while (n-- > 0) *--d = *--s`. -/
def copyDown (mem : ByteMem) (d s : Word) : Nat → ByteMem
  | 0 => mem
  | n + 1 =>
    let d := d - 1#32
    let s := s - 1#32
    copyDown (mem.storeByte d (mem s)) d s n

/-- `while (n-- > 0) *d++ = *s++`. -/
def copyUp (mem : ByteMem) (d s : Word) : Nat → ByteMem
  | 0 => mem
  | n + 1 => copyUp (mem.storeByte d (mem s)) (d + 1#32) (s + 1#32) n

/-- `memmove`. -/
def memmove (dst src n : Word) (mem : ByteMem) : Word × ByteMem :=
  let s := src
  let d := dst
  if s < d ∧ d < s + n then (dst, copyDown mem (d + n) (s + n) n.toNat)
  else (dst, copyUp mem d s n.toNat)

end Plain

/-! ## The meaning -/

/-- The range does not wrap around. -/
def InSpace (a n : Word) : Prop := a.toNat + n.toNat ≤ 2 ^ 32

/-- The memory `m'` has at `dst` what `m` has at `src`, and elsewhere what it has there. -/
structure BytesMoved (m m' : ByteMem) (dst src n : Word) : Prop where
  range : ∀ i < n.toNat, m' (dst + BitVec.ofNat 32 i) = m (src + BitVec.ofNat 32 i)
  other : ∀ x, (∀ i < n.toNat, x ≠ dst + BitVec.ofNat 32 i) → m' x = m x

/-- The memory `m'` has the low byte of `c` at `v`, and elsewhere what `m` has. -/
structure BytesSet (m m' : ByteMem) (v c n : Word) : Prop where
  range : ∀ i < n.toNat, m' (v + BitVec.ofNat 32 i) = c.setWidth 8
  other : ∀ x, (∀ i < n.toNat, x ≠ v + BitVec.ofNat 32 i) → m' x = m x

/-- The compiled versions do what they should, and return their first argument. -/
structure AsmRight (t : StrState) (dst src v c n : Word) : Prop where
  memmove : BytesMoved t.mem (Asm.memmove dst src n t).2.mem dst src n
  memset : BytesSet t.mem (Asm.memset v c n t).2.mem v c n
  ret : (Asm.memmove dst src n t).1 = dst ∧ (Asm.memset v c n t).1 = v

/-- So do the plain ones. -/
structure PlainRight (m : ByteMem) (dst src v c n : Word) : Prop where
  memmove : BytesMoved m (Plain.memmove dst src n m).2 dst src n
  memset : ∃ m', Plain.memset v c n m = some (v, m') ∧ BytesSet m m' v c n
  ret : (Plain.memmove dst src n m).1 = dst

/-- The length is a positive `int`, or every byte of the range is as it should be from the start. -/
def FillCounts (m : ByteMem) (v c n : Word) : Prop :=
  n.toNat < 2 ^ 31 ∨ 2 ^ 31 < n.toNat ∧ ∀ i < n.toNat, m (v + BitVec.ofNat 32 i) = c.setWidth 8

variable {m : ByteMem} {t : StrState} {dst src v c n : Word}

/-! ## The string instructions -/

theorem mod_four_eq_zero_iff {n : Word} : n % 4#32 = 0#32 ↔ n.toNat % 4 = 0 := by
  rw [← BitVec.toNat_inj, BitVec.toNat_umod]
  rfl

theorem div_four_mul {n : Word} (h : n.toNat % 4 = 0) : (n / 4#32).toNat * 4 = n.toNat := by
  rw [BitVec.toNat_udiv]
  change n.toNat / 4 * 4 = n.toNat
  omega

theorem InSpace.toNat_add {a : Word} (h : InSpace a n) {i : Nat} (hi : i < n.toNat) :
    (a + BitVec.ofNat 32 i).toNat = a.toNat + i := by
  unfold InSpace at h
  rw [BitVec.toNat_add, BitVec.toNat_ofNat]
  omega

/-- The direction is chosen so that nothing is overwritten before it is read. -/
theorem goesDown_iff (hd : InSpace dst n) :
    src < dst ∧ dst < src + n ↔ src.toNat < dst.toNat ∧ dst.toNat < src.toNat + n.toNat := by
  unfold InSpace at hd
  rw [BitVec.lt_def, BitVec.lt_def, BitVec.toNat_add]
  refine and_congr_right fun hlt => ?_
  -- a source before the destination does not reach the end of the address space
  rw [Nat.mod_eq_of_lt (by omega)]

theorem moved_of_eq {m' : ByteMem} (hd : InSpace dst n)
    (h : m' = m.move dst.toNat src.toNat n.toNat) : BytesMoved m m' dst src n := by
  subst h
  refine ⟨fun i hi => ?_, fun x hx => ByteMem.move_outside ?_⟩
  · have hi' := hd.toNat_add hi
    rw [ByteMem.move_inside (by omega), hi', Nat.add_sub_cancel_left, BitVec.ofNat_add,
      BitVec.ofNat_toNat, BitVec.setWidth_eq]
  · rintro ⟨hlo, hhi⟩
    have hi : x.toNat - dst.toNat < n.toNat := by omega
    refine hx _ hi (BitVec.eq_of_toNat_eq ?_)
    rw [hd.toNat_add hi]
    omega

theorem filled_of_eq {m' : ByteMem} (hv : InSpace v n)
    (h : m' = m.fill v.toNat n.toNat (c.setWidth 8)) : BytesSet m m' v c n := by
  subst h
  refine ⟨fun i hi => ?_, fun x hx => if_neg ?_⟩
  · have hi' := hv.toNat_add hi
    exact if_pos (by omega)
  · rintro ⟨hlo, hhi⟩
    have hi : x.toNat - v.toNat < n.toNat := by omega
    refine hx _ hi (BitVec.eq_of_toNat_eq ?_)
    rw [hv.toNat_add hi]
    omega

theorem ofNat_toNat_self (a : Word) : BitVec.ofNat 32 a.toNat = a := by
  rw [BitVec.ofNat_toNat, BitVec.setWidth_eq]

theorem ofNat_toNat_add (a n : Word) : BitVec.ofNat 32 (a.toNat + n.toNat) = a + n := by
  rw [BitVec.ofNat_add, ofNat_toNat_self, ofNat_toNat_self]

theorem rep_movs_up {op : StringOp} {w : Nat} {ecx : Word} (hop : Moves op w)
    (hn : ecx.toNat * w = n.toNat) (hd : InSpace dst n) (hs : InSpace src n)
    (h : ¬ (src < dst ∧ dst < src + n)) :
    (t.cld.rep op w dst src ecx).mem = t.mem.move dst.toNat src.toNat n.toNat := by
  rw [goesDown_iff hd] at h
  unfold InSpace at hd hs
  have hrep := hop.rep_up (d := dst.toNat) (s := src.toNat) ecx.toNat t.mem (by omega) (by omega)
    (by omega)
  rw [ofNat_toNat_self, ofNat_toNat_self, hn] at hrep
  exact hrep

theorem rep_movs_down {op : StringOp} {w : Nat} {ecx : Word} (hop : Moves op w)
    (hn : ecx.toNat * w = n.toNat) (hd : InSpace dst n) (h : src < dst ∧ dst < src + n) :
    (t.std.rep op w (dst + n - BitVec.ofNat 32 w) (src + n - BitVec.ofNat 32 w) ecx).mem =
      t.mem.move dst.toNat src.toNat n.toNat := by
  rw [goesDown_iff hd] at h
  unfold InSpace at hd
  have hrep := hop.rep_down (d := dst.toNat) (s := src.toNat) ecx.toNat t.mem (by omega) (by omega)
    (by omega)
  rw [hn, ofNat_toNat_add, ofNat_toNat_add] at hrep
  exact hrep

theorem rep_stos {op : StringOp} {w : Nat} {ecx : Word} {b : BitVec 8} (hop : Fills op w b)
    (hn : ecx.toNat * w = n.toNat) (hv : InSpace v n) :
    (t.cld.rep op w v 0#32 ecx).mem = t.mem.fill v.toNat n.toNat b := by
  unfold InSpace at hv
  have hrep := hop.rep_up (v := v.toNat) ecx.toNat t.mem 0#32 (by omega)
  rw [ofNat_toNat_self, hn] at hrep
  exact hrep

/-- **`memmove`**, in each of its four ways. -/
theorem Asm.memmove_mem (hd : InSpace dst n) (hs : InSpace src n) :
    (Asm.memmove dst src n t).2.mem = t.mem.move dst.toNat src.toNat n.toNat := by
  have hone : n.toNat * 1 = n.toNat := Nat.mul_one _
  simp only [Asm.memmove]
  split_ifs with hdown hwords hwords
  · exact rep_movs_down moves_movsl (div_four_mul (mod_four_eq_zero_iff.1 hwords.2.2)) hd hdown
  · exact rep_movs_down moves_movsb hone hd hdown
  · exact rep_movs_up moves_movsl (div_four_mul (mod_four_eq_zero_iff.1 hwords.2.2)) hd hs hdown
  · exact rep_movs_up moves_movsb hone hd hs hdown

theorem low_byte_bit (c : Word) (k : Nat) :
    (c &&& 0xFF#32).getLsbD k = (decide (k < 8) && c.getLsbD k) := by
  rw [show (0xFF#32) = (BitVec.allOnes 8).setWidth 32 from rfl, BitVec.getLsbD_and,
    BitVec.getLsbD_setWidth, BitVec.getLsbD_allOnes]
  grind

theorem byteAt_fourfold (c : Word) {i : Nat} (hi : i < 4) :
    byteAt ((c &&& 0xFF#32) <<< 24 ||| (c &&& 0xFF#32) <<< 16 ||| (c &&& 0xFF#32) <<< 8 |||
      (c &&& 0xFF#32)) i = c.setWidth 8 := by
  apply BitVec.eq_of_getLsbD_eq
  intro j hj
  simp only [byteAt, BitVec.getLsbD_extractLsb', BitVec.getLsbD_or, BitVec.getLsbD_shiftLeft,
    low_byte_bit, BitVec.getLsbD_setWidth]
  interval_cases i <;> simp <;> grind

/-- **`memset`**, by words or by bytes. -/
theorem Asm.memset_mem (hv : InSpace v n) :
    (Asm.memset v c n t).2.mem = t.mem.fill v.toNat n.toNat (c.setWidth 8) := by
  simp only [Asm.memset]
  split_ifs with hzero hwords
  · subst hzero
    simp
  · exact rep_stos (fills_stosl fun i hi => byteAt_fourfold c hi)
      (div_four_mul (mod_four_eq_zero_iff.1 hwords.2)) hv
  · have hlow : byteAt c 0 = c.setWidth 8 := by
      apply BitVec.eq_of_getLsbD_eq
      intro j hj
      simp [byteAt]
    exact rep_stos (hlow ▸ fills_stosb c) (Nat.mul_one _) hv

theorem asm_df (h : t.df = false) :
    (Asm.memmove dst src n t).2.df = false ∧ (Asm.memset v c n t).2.df = false := by
  constructor
  · simp only [Asm.memmove]
    split_ifs <;> rfl
  · simp only [Asm.memset]
    split_ifs
    · exact h
    · rfl
    · rfl

/-- **The compiled versions** do what they should. -/
theorem asm_right (hd : InSpace dst n) (hs : InSpace src n) (hv : InSpace v n) :
    AsmRight t dst src v c n := by
  refine ⟨moved_of_eq hd (Asm.memmove_mem hd hs), filled_of_eq hv (Asm.memset_mem hv), ?_, ?_⟩
  · simp only [Asm.memmove]
    split_ifs <;> rfl
  · simp only [Asm.memset]
    split_ifs <;> rfl

/-! ## Plain C -/

theorem Plain.copyUp_eq (m : ByteMem) (d s : Word) (n : Nat) :
    Plain.copyUp m d s n = Lib.rep movsb 1 false n m d s := by
  induction n generalizing m d s with
  | zero => rw [Plain.copyUp, Lib.rep]
  | succ n ih => rw [Plain.copyUp, ih, rep_succ_up, movsb]

theorem Plain.copyDown_eq (m : ByteMem) (d s : Word) (n : Nat) :
    Plain.copyDown m d s n = Lib.rep movsb 1 true n m (d - 1#32) (s - 1#32) := by
  induction n generalizing m d s with
  | zero => rw [Plain.copyDown, Lib.rep]
  | succ n ih => rw [Plain.copyDown, ih, rep_succ_down, movsb]

/-- **`memmove`** in plain C. -/
theorem Plain.memmove_mem (hd : InSpace dst n) (hs : InSpace src n) :
    (Plain.memmove dst src n m).2 = m.move dst.toNat src.toNat n.toNat := by
  simp only [Plain.memmove]
  split_ifs with hdown
  · rw [Plain.copyDown_eq]
    exact rep_movs_down (t := ⟨m, true⟩) moves_movsb (Nat.mul_one _) hd hdown
  · rw [Plain.copyUp_eq]
    exact rep_movs_up (t := ⟨m, false⟩) moves_movsb (Nat.mul_one _) hd hs hdown

theorem Plain.memsetLoop_nat (b : BitVec 8) (m : ByteMem) (p : Word) (k : Nat) :
    Plain.memsetLoop b m p k =
    some (Lib.rep (fun m edi _ => m.storeByte edi b) 1 false k m p 0#32) := by
  have hesi : ∀ (k : Nat) (m : ByteMem) (p x y : Word),
      Lib.rep (fun m edi _ => m.storeByte edi b) 1 false k m p x =
        Lib.rep (fun m edi _ => m.storeByte edi b) 1 false k m p y := by
    intro k
    induction k with
    | zero => exact fun _ _ _ _ => rfl
    | succ k ih => exact fun _ _ _ _ => ih _ _ _ _
  induction k generalizing m p with
  | zero => rw [Plain.memsetLoop, if_neg (by decide), if_neg (by decide), Lib.rep]
  | succ k ih =>
    rw [Plain.memsetLoop, if_neg (by omega), if_pos (by omega),
      show ((k + 1 : Nat) : Int) - 1 = (k : Int) by omega, ih, Lib.rep]
    exact congrArg some (hesi _ _ _ _ _)

/-- With fewer than 2³¹ bytes the counter is the length. -/
theorem Plain.memset_small (hv : InSpace v n) (hn : n.toNat < 2 ^ 31) :
    Plain.memset v c n m = some (v, m.fill v.toNat n.toNat (c.setWidth 8)) := by
  have hint : n.toInt = n.toNat := by
    rw [BitVec.toInt_eq_toNat_cond, if_pos (by omega)]
  have hfills : Fills (fun m edi _ => m.storeByte edi (c.setWidth 8)) 1 (c.setWidth 8) := by
    intro m a _ ha
    funext x
    exact storeByte_ofNat m _ (by omega) x
  unfold Plain.memset
  rw [hint, Plain.memsetLoop_nat]
  exact congrArg (fun m => some (v, m))
    (rep_stos (t := ⟨m, false⟩) hfills (Nat.mul_one _) hv)

/-- With more than 2³¹ it is negative, and nothing is stored. -/
theorem Plain.memset_big (hn : 2 ^ 31 < n.toNat) : Plain.memset v c n m = some (v, m) := by
  have hint : n.toInt = n.toNat - 2 ^ 32 := by
    rw [BitVec.toInt_eq_toNat_cond, if_neg (by omega)]
    norm_num
  have hlt := n.isLt
  unfold Plain.memset
  rw [hint, Plain.memsetLoop, if_neg (by omega), if_neg (by omega)]
  rfl

/-- With 2³¹ bytes the counter overflows. -/
theorem Plain.memset_min (hn : n.toNat = 2 ^ 31) : Plain.memset v c n m = none := by
  have hint : n.toInt = -2 ^ 31 := by
    rw [BitVec.toInt_eq_toNat_cond, if_neg (by omega), hn]
    norm_num
  unfold Plain.memset
  rw [hint, Plain.memsetLoop, if_pos rfl]
  rfl

theorem Plain.memset_filled_iff (hv : InSpace v n) :
    (∃ m', Plain.memset v c n m = some (v, m') ∧ BytesSet m m' v c n) ↔ FillCounts m v c n := by
  unfold FillCounts
  rcases lt_trichotomy n.toNat (2 ^ 31) with hn | hn | hn
  · exact ⟨fun _ => .inl hn, fun _ => ⟨_, Plain.memset_small hv hn, filled_of_eq hv rfl⟩⟩
  · rw [Plain.memset_min hn]
    constructor
    · rintro ⟨_, h, -⟩
      cases h
    · rintro (h | ⟨h, -⟩) <;> omega
  · rw [Plain.memset_big hn]
    constructor
    · rintro ⟨m', h, hfill⟩
      cases h
      exact .inr ⟨hn, hfill.range⟩
    · rintro (h | ⟨-, h⟩)
      · omega
      · exact ⟨m, rfl, h, fun _ _ => rfl⟩

/-! ## The result -/

/-- **`memset` and `memmove` byte by byte**: the compiled versions always, and the plain ones
exactly where the counter of `memset` is not too small. -/
theorem string_bytewise_iff (t : StrState) (dst src v c n : Word) (hd : InSpace dst n)
    (hs : InSpace src n) (hv : InSpace v n) :
    AsmRight t dst src v c n ∧
      (AsmRight t dst src v c n ∧ PlainRight t.mem dst src v c n ↔ FillCounts t.mem v c n) := by
  have hasm : AsmRight t dst src v c n := asm_right hd hs hv
  refine ⟨hasm, ?_, fun h => ⟨hasm, ?_⟩⟩
  · rintro ⟨-, hplain⟩
    exact (Plain.memset_filled_iff hv).1 hplain.memset
  · refine ⟨moved_of_eq hd (Plain.memmove_mem hd hs), (Plain.memset_filled_iff hv).2 h, ?_⟩
    simp only [Plain.memmove]
    split_ifs <;> rfl

/-- Twelve bytes moved up by four, and twelve cleared. -/
theorem string_bytewise_twelve :
    InSpace 0x1004#32 12#32 ∧ InSpace 0x1000#32 12#32 ∧ InSpace 0x2001#32 12#32 ∧
      AsmRight ⟨fun _ => 1#8, true⟩ 0x1004#32 0x1000#32 0x2001#32 0#32 12#32 ∧
      PlainRight (fun _ => 1#8) 0x1004#32 0x1000#32 0x2001#32 0#32 12#32 := by
  have hd : InSpace 0x1004#32 12#32 := by unfold InSpace; decide
  have hs : InSpace 0x1000#32 12#32 := by unfold InSpace; decide
  have hv : InSpace 0x2001#32 12#32 := by unfold InSpace; decide
  obtain ⟨hasm, hiff⟩ := string_bytewise_iff ⟨fun _ => 1#8, true⟩ 0x1004#32 0x1000#32 0x2001#32 0#32
    12#32 hd hs hv
  exact ⟨hd, hs, hv, hasm, (hiff.2 (.inl (by decide))).2⟩

/-- The plain `memset` on 2³¹ + 1 bytes of an empty memory. -/
theorem memset_stores_nothing :
    Plain.memset 0#32 1#32 0x80000001#32 (fun _ => 0#8) = some (0#32, fun _ => 0#8) ∧
      InSpace 0#32 0x80000001#32 ∧
      ¬ ∃ m', Plain.memset 0#32 1#32 0x80000001#32 (fun _ => 0#8) = some (0#32, m') ∧
        BytesSet (fun _ => 0#8) m' 0#32 1#32 0x80000001#32 := by
  have hbig : Plain.memset 0#32 1#32 0x80000001#32 (fun _ => 0#8) = some (0#32, fun _ => 0#8) :=
    Plain.memset_big (by decide)
  refine ⟨hbig, by unfold InSpace; decide, ?_⟩
  rintro ⟨m', h, hfill⟩
  rw [hbig] at h
  cases h
  exact absurd (hfill.range 0 (by decide)) (by decide)

end Jos
