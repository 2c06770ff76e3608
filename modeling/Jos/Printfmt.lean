import Jos.Access
import Jos.Cpus
import Jos.UserMem

/-!
# Printing user memory

`sys_cputs` checks that the caller may read `len` bytes at `s` and prints them by `cprintf("%.*s",
len, s)`. So what the kernel reads is decided by `vprintfmt` (`lib/printfmt.c`), which knows `len`
as a precision. This file models `vprintfmt`, with the addresses it reads (`Printed`).

**The string loop** (`putString`) is `(ch = *p++) != '\0' && (precision < 0 || --precision >= 0)`:
it reads a character before it looks at the precision. With `len` characters printed it therefore
reads one more. And a `len` with the sign bit set is no precision at all.

**Theorem (`cputs_reads_iff`).** `sys_cputs` keeps to the checked range exactly if there is a zero
byte in it (or `s` is `NULL`, which prints as `(null)`).

C `int`s are integers here. The bound on the loops (`fuel`) is there because a string need not end.
-/

namespace Jos

open Lib

/-! ## `vprintfmt` -/

/-- What has been printed, and which addresses have been read for it. -/
structure Printed where
  reads : List Word := []
  out : List Int := []

inductive Stop
  | fault (va : Word)
  | fuel
  deriving DecidableEq

abbrev Print := ExceptT Stop (StateM Printed)

def putch (ch : Int) : Print Unit := modify fun t => { t with out := t.out ++ [ch] }

/-- A character of a C string. -/
def charOf (b : BitVec 8) : Int := b.toInt

/-- A string to print: one in memory, or a literal of the kernel. -/
inductive Str
  | user (p : Word)
  | lit (l : List Char)

section Format

variable (mem : Word → Option (BitVec 8))

/-- `*p++`. -/
def Str.next : Str → Print (Int × Str)
  | .user p => do
    modify fun t => { t with reads := t.reads ++ [p] }
    match mem p with
    | none => throw (.fault p)
    | some b => return (charOf b, .user (p + 1#32))
  | .lit [] => return (0, .lit [])
  | .lit (ch :: l) => return (ch.toNat, .lit l)

def strnlen : Nat → Str → Print Int
  | 0, _ => return 0
  | size + 1, s => do
    let (ch, s) ← s.next mem
    if ch = 0 then return 0
    return 1 + (← strnlen size s)

/-- The loop of the string case; the result is the width that is left. -/
def putString (altflag : Bool) : Nat → Str → Int → Int → Print Int
  | 0, _, _, _ => throw .fuel
  | fuel + 1, p, precision, width => do
    let (ch, p) ← p.next mem
    if ch = 0 then return width
    if precision < 0 ∨ 0 ≤ precision - 1 then
      putch (if altflag ∧ (ch < 32 ∨ 126 < ch) then 63 else ch)
      putString altflag fuel p (if precision < 0 then precision else precision - 1) (width - 1)
    else return width

/-- Padding: `width` characters, if it is positive. -/
def putPad (padc : Int) : Nat → Print Unit
  | 0 => return
  | width + 1 => do
    putch padc
    putPad padc width

/-- `printnum`, for a base of at least two. -/
def printnum (base : Nat) (padc : Int) (num : Nat) (width : Int) : Print Unit :=
  if _h : 2 ≤ base ∧ base ≤ num then do
    printnum base padc (num / base) (width - 1)
    putch ("0123456789abcdef".toList.getD (num % base) '0').toNat
  else do
    putPad padc (width - 1).toNat
    putch ("0123456789abcdef".toList.getD (num % base) '0').toNat
termination_by num
decreasing_by exact Nat.div_lt_self (by omega) (by omega)

/-- The flags of a conversion. -/
structure FmtSpec where
  padc : Int := 32
  width : Int := -1
  precision : Int := -1
  lflag : Nat := 0
  altflag : Bool := false

/-- The label `process_precision`. -/
def FmtSpec.processPrecision (sp : FmtSpec) (precision : Int) : FmtSpec :=
  if sp.width < 0 then { sp with width := precision, precision := -1 }
  else { sp with precision := precision }

/-- The flags from `fmt` on, up to the conversion character, which is NUL at the end of the format.
`num` is a number that is being read. -/
def reswitch (sp : FmtSpec) (num : Option Int) :
    List Char → List Word → Char × FmtSpec × List Char × List Word
  | [], args => ('\x00', num.elim sp sp.processPrecision, [], args)
  | ch :: fmt, args =>
    if num ≠ none ∧ ch.isDigit then
      reswitch sp (num.map fun n => n * 10 + (ch.toNat - 48 : Int)) fmt args
    else
      let sp := num.elim sp sp.processPrecision
      if ch = '-' then reswitch { sp with padc := 45 } none fmt args
      else if ch = '0' then reswitch { sp with padc := 48 } none fmt args
      else if ch.isDigit then reswitch sp (some (ch.toNat - 48 : Int)) fmt args
      else if ch = '*' then reswitch (sp.processPrecision (args.headD 0).toInt) none fmt args.tail
      else if ch = '.' then
        reswitch { sp with width := if sp.width < 0 then 0 else sp.width } none fmt args
      else if ch = '#' then reswitch { sp with altflag := true } none fmt args
      else if ch = 'l' then reswitch { sp with lflag := sp.lflag + 1 } none fmt args
      else (ch, sp, fmt, args)

/-- `getuint`. -/
def getuint (lflag : Nat) (args : List Word) : Nat × List Word :=
  if 2 ≤ lflag then ((args.headD 0).toNat + 2 ^ 32 * (args.tail.headD 0).toNat, args.tail.tail)
  else ((args.headD 0).toNat, args.tail)

/-- `getint`. -/
def getint (lflag : Nat) (args : List Word) : Int × List Word :=
  if 2 ≤ lflag then
    ((args.headD 0).toNat + 2 ^ 32 * (args.tail.headD 0).toInt, args.tail.tail)
  else ((args.headD 0).toInt, args.tail)

/-- The string case. -/
def formatString (fuel : Nat) (sp : FmtSpec) (p : Str) : Print Unit := do
  let width ←
    if 0 < sp.width ∧ sp.padc ≠ 45 then do
      let n ← strnlen mem (BitVec.ofInt 32 sp.precision).toNat p
      putPad sp.padc (sp.width - n).toNat
      pure (min 0 (sp.width - n))
    else pure sp.width
  let width ← putString mem sp.altflag fuel p sp.precision width
  putPad 32 width.toNat

def printInt (sp : FmtSpec) (num : Int) : Print Unit := do
  if num < 0 then putch 45
  printnum 10 sp.padc num.natAbs sp.width

/-- `error_string`. -/
def errorString : List (Option String) :=
  [none, some "unspecified error", some "bad environment", some "invalid parameter",
   some "out of memory", some "out of environments", some "segmentation fault",
   some "env is not recving", some "unexpected end of file"]

/-- The error case, after `if (err < 0) err = -err`. For `INT_MIN` this negation overflows, which is
undefined in C, and the model goes on with `2147483648`. -/
def formatError (fuel : Nat) (err : Nat) : Print Unit :=
  match errorString.getD err none with
  | none => do
    for ch in "error ".toList do putch ch.toNat
    printInt {} err
  | some msg => formatString mem fuel {} (.lit msg.toList)

/-- One conversion; `none` if the character is not one. -/
def convert (fuel : Nat) (ch : Char) (sp : FmtSpec) (args : List Word) :
    Print (Option (List Word)) := do
  if ch = 'c' then
    putch (args.headD 0).toInt
    return some args.tail
  else if ch = 'e' then
    formatError mem fuel (args.headD 0).toInt.natAbs
    return some args.tail
  else if ch = 's' then
    let p := args.headD 0
    formatString mem fuel sp (if p = 0 then .lit "(null)".toList else .user p)
    return some args.tail
  else if ch = 'd' then
    let (num, args) := getint sp.lflag args
    printInt sp num
    return some args
  else if ch = 'u' ∨ ch = 'o' ∨ ch = 'x' then
    let (num, args) := getuint sp.lflag args
    printnum (if ch = 'u' then 10 else if ch = 'o' then 8 else 16) sp.padc num sp.width
    return some args
  else if ch = 'p' then
    putch 48
    putch 120
    printnum 16 sp.padc (args.headD 0).toNat sp.width
    return some args.tail
  else if ch = '%' then
    putch 37
    return some args
  else return none

/-- `vprintfmt`. An unknown conversion is printed as it stands. -/
def vprintfmt (fuel : Nat) : Nat → List Char → List Word → Print Unit
  | _, [], _ => return
  | 0, _, _ => throw .fuel
  | n + 1, ch :: fmt, args =>
    if ch ≠ '%' then do
      putch ch.toNat
      vprintfmt fuel n fmt args
    else do
      let (ch, sp, rest, args) := reswitch {} none fmt args
      match ← convert mem fuel ch sp args with
      | some args => vprintfmt fuel n rest args
      | none =>
        putch 37
        vprintfmt fuel n fmt args

/-- `cprintf`. -/
def cprintf (fuel : Nat) (fmt : String) (args : List Word) : Print Unit :=
  vprintfmt mem fuel (fmt.toList.length + 1) fmt.toList args

end Format

/-! ## `sys_cputs` -/

/-- A load by the kernel. -/
def kernLoadByte (σ : Phys) (d : Nat) (va : Word) : Option (BitVec 8) :=
  if Permits σ d va PTE_P then some (loadByte σ d va) else none

/-- The second half of `sys_cputs`. -/
def cputs (mem : Word → Option (BitVec 8)) (fuel : Nat) (s len : Word) : Print Unit :=
  cprintf mem fuel "%.*s" [len, s]

/-- `a` is in the range `[s, s + len)`. -/
def InRange (s len a : Word) : Prop := s.toNat ≤ a.toNat ∧ a.toNat < s.toNat + len.toNat

/-- User mode may read the range. -/
def UserReadable (σ : Phys) (d : Nat) (s len : Word) : Prop :=
  s.toNat + len.toNat ≤ ULIM.toNat ∧ ∀ a, InRange s len a → Permits σ d a (PTE_P ||| PTE_U)

/-- `sys_cputs` reads nothing else, however long it runs. -/
def ReadsInRange (σ : Phys) (d : Nat) (s len : Word) : Prop :=
  ∀ fuel, ∀ a ∈ (cputs (kernLoadByte σ d) fuel s len {}).2.reads, InRange s len a

variable {mem : Word → Option (BitVec 8)} {alt : Bool} {p s len : Word} {t : Printed}

theorem charOf_eq_zero {b : BitVec 8} : charOf b = 0 ↔ b = 0 := by
  unfold charOf
  rw [← BitVec.toInt_zero (w := 8), BitVec.toInt_inj]
  rfl

theorem putString_succ (fuel : Nat) (precision width : Int) :
    putString mem alt (fuel + 1) (.user p) precision width t =
      match mem p with
      | none => (.error (.fault p), { t with reads := t.reads ++ [p] })
      | some b =>
        if b = 0 then (.ok width, { t with reads := t.reads ++ [p] })
        else if precision < 0 ∨ 0 ≤ precision - 1 then
          putString mem alt fuel (.user (p + 1#32))
            (if precision < 0 then precision else precision - 1) (width - 1)
            { reads := t.reads ++ [p]
              out := t.out ++
                [if alt ∧ (charOf b < 32 ∨ 126 < charOf b) then 63 else charOf b] }
        else (.ok width, { t with reads := t.reads ++ [p] }) := by
  cases hm : mem p with
  | none =>
    unfold putString Str.next
    simp only [hm]
    rfl
  | some b =>
    have hnext : ∀ f : Int × Str → Print Int, ((Str.user p).next mem >>= f) t =
        f (charOf b, .user (p + 1#32)) { t with reads := t.reads ++ [p] } := by
      intro f
      unfold Str.next
      simp only [hm]
      rfl
    rw [putString, hnext]
    simp only [charOf_eq_zero]
    split_ifs <;> rfl

theorem putString_cases (fuel : Nat) (p : Word) (precision width : Int) (t : Printed) :
    (putString mem alt (fuel + 1) (.user p) precision width t).2.reads = t.reads ++ [p] ∧
        (∀ b, mem p = some b → b = 0#8 ∨ precision = 0) ∨
      ∃ b precision' t', mem p = some b ∧ b ≠ 0#8 ∧ t'.reads = t.reads ++ [p] ∧
        (precision < 0 ∧ precision' = precision ∨ 0 < precision ∧ precision' = precision - 1) ∧
        putString mem alt (fuel + 1) (.user p) precision width t =
          putString mem alt fuel (.user (p + 1#32)) precision' (width - 1) t' := by
  rw [putString_succ]
  cases hm : mem p with
  | none => exact .inl ⟨rfl, nofun⟩
  | some b =>
    simp only
    by_cases hb : b = 0
    · rw [if_pos hb]
      exact .inl ⟨rfl, fun b' hb' => .inl (Option.some.inj hb' ▸ hb)⟩
    rw [if_neg hb]
    by_cases hp : precision < 0 ∨ 0 ≤ precision - 1
    · rw [if_pos hp]
      refine .inr ⟨b, _, _, rfl, hb, rfl, ?_, rfl⟩
      split_ifs with hneg
      · exact .inl ⟨hneg, rfl⟩
      · exact .inr ⟨by omega, rfl⟩
    · rw [if_neg hp]
      exact .inl ⟨rfl, fun _ _ => .inr (by omega)⟩

theorem mem_reads_putString (fuel : Nat) {a : Word} (p : Word) (precision width : Int) (t : Printed)
    (ha : a ∈ t.reads) : a ∈ (putString mem alt fuel (.user p) precision width t).2.reads := by
  induction fuel generalizing p precision width t with
  | zero => exact ha
  | succ fuel ih =>
    rcases putString_cases fuel p precision width t with ⟨heq, -⟩ | ⟨_, _, t', -, -, ht', -, heq⟩
    · rw [heq]
      exact List.mem_append_left _ ha
    · rw [heq]
      refine ih _ _ _ _ ?_
      rw [ht']
      exact List.mem_append_left _ ha

theorem add_one_add (p : Word) (j : Nat) :
    p + 1#32 + BitVec.ofNat 32 j = p + BitVec.ofNat 32 (j + 1) := by
  rw [BitVec.add_assoc, ← BitVec.ofNat_add, Nat.add_comm]

theorem add_ofNat_zero (p : Word) : p + BitVec.ofNat 32 0 = p := BitVec.add_zero p

/-- The loop does not go beyond a zero byte. -/
theorem reads_le_of_zero (fuel : Nat) {i : Nat} (p : Word) (precision width : Int) (t : Printed)
    (hzero : mem (p + BitVec.ofNat 32 i) = some 0) :
    ∀ a ∈ (putString mem alt fuel (.user p) precision width t).2.reads,
      a ∈ t.reads ∨ ∃ j, j ≤ i ∧ a = p + BitVec.ofNat 32 j := by
  induction fuel generalizing i p precision width t with
  | zero => exact fun a ha => .inl ha
  | succ fuel ih =>
    have hhere : ∀ a ∈ t.reads ++ [p], a ∈ t.reads ∨ ∃ j, j ≤ i ∧ a = p + BitVec.ofNat 32 j := by
      intro a ha
      refine (List.mem_append.1 ha).imp id fun ha => ⟨0, Nat.zero_le i, ?_⟩
      rw [List.mem_singleton.1 ha, add_ofNat_zero]
    intro a ha
    rcases putString_cases fuel p precision width t with ⟨heq, -⟩ | ⟨b, _, t', hm, hb, ht', -, heq⟩
    · rw [heq] at ha
      exact hhere a ha
    · rw [heq] at ha
      cases i with
      | zero =>
        rw [add_ofNat_zero, hm] at hzero
        exact (hb (Option.some.inj hzero)).elim
      | succ i =>
        rcases ih (p + 1#32) _ _ _ (add_one_add p i ▸ hzero) a ha with h | ⟨j, hj, rfl⟩
        · rw [ht'] at h
          exact hhere a h
        · exact .inr ⟨j + 1, by omega, add_one_add p j⟩

/-- **The loop reads one character more** than it prints. -/
theorem reads_past (i fuel : Nat) (p : Word) (precision width : Int) (t : Printed)
    (hne : ∀ j < i, ∃ b, mem (p + BitVec.ofNat 32 j) = some b ∧ b ≠ 0)
    (hprec : precision < 0 ∨ i ≤ precision) (hfuel : i < fuel) :
    p + BitVec.ofNat 32 i ∈ (putString mem alt fuel (.user p) precision width t).2.reads := by
  induction i generalizing fuel p precision width t with
  | zero =>
    obtain ⟨fuel, rfl⟩ : ∃ n, fuel = n + 1 := ⟨fuel - 1, by omega⟩
    rw [add_ofNat_zero]
    have hp : p ∈ t.reads ++ [p] := List.mem_append_right _ (List.mem_singleton_self p)
    rcases putString_cases fuel p precision width t with ⟨heq, -⟩ | ⟨_, _, t', -, -, ht', -, heq⟩
    · rw [heq]
      exact hp
    · rw [heq]
      exact mem_reads_putString _ _ _ _ _ (ht'.symm ▸ hp)
  | succ i ih =>
    obtain ⟨fuel, rfl⟩ : ∃ n, fuel = n + 1 := ⟨fuel - 1, by omega⟩
    obtain ⟨b, hb, hb0⟩ := hne 0 (by omega)
    rw [add_ofNat_zero] at hb
    rcases putString_cases fuel p precision width t with ⟨-, hstop⟩ | ⟨_, _, t', -, -, -, hpr, heq⟩
    · -- the character is not zero and the precision is not used up
      rcases hstop b hb with hc | hc
      · exact (hb0 hc).elim
      · omega
    · rw [heq, ← add_one_add p i]
      refine ih fuel _ _ _ _ (fun j hj => ?_) (by omega) (by omega)
      rw [add_one_add p j]
      exact hne (j + 1) (by omega)

theorem reads_putPad (padc : Int) (n : Nat) (t : Printed) :
    (putPad padc n t).2.reads = t.reads := by
  induction n generalizing t with
  | zero => rfl
  | succ n ih => exact ih _

theorem reswitch_cputs : reswitch {} none ".*s".toList [len, s] =
    ('s', { width := 0, precision := len.toInt }, [], [s]) := rfl

theorem convert_s (fuel : Nat) (sp : FmtSpec) (args : List Word) :
    convert mem fuel 's' sp (s :: args) = (do
      formatString mem fuel sp (if s = 0 then .lit "(null)".toList else .user s)
      return some args) := by
  unfold convert
  rw [if_neg (by decide), if_neg (by decide), if_pos rfl]
  rfl

theorem cputs_eq (fuel : Nat) : cputs mem fuel s len =
    formatString mem fuel { width := 0, precision := len.toInt }
      (if s = 0 then .lit "(null)".toList else .user s) >>= fun _ => pure () := by
  unfold cputs cprintf
  change vprintfmt mem fuel 5 ('%' :: ".*s".toList) [len, s] = _
  rw [vprintfmt, if_neg (by decide), reswitch_cputs]
  simp only [convert_s, bind_assoc, pure_bind]
  rfl

/-- What reads nothing can be left out. -/
theorem reads_bind {α β : Type} (x : Print α) (f : α → Print β) (t : Printed)
    (hf : ∀ a t, (f a t).2.reads = t.reads) : ((x >>= f) t).2.reads = (x t).2.reads := by
  simp only [bind, ExceptT.bind, ExceptT.mk, StateT.bind]
  rcases x t with ⟨r, t'⟩
  cases r with
  | ok a => exact hf a t'
  | error e => rfl

/-- What `sys_cputs` reads: the string loop with `len` as the precision. -/
theorem reads_cputs (fuel : Nat) (hs : s ≠ 0) :
    (cputs mem fuel s len {}).2.reads =
      (putString mem false fuel (.user s) len.toInt 0 {}).2.reads := by
  rw [cputs_eq, if_neg hs, formatString, if_neg (by simp)]
  simp only [pure_bind, bind_assoc]
  refine reads_bind _ _ _ fun width t => ?_
  rw [reads_bind _ _ _ fun _ _ => rfl]
  exact reads_putPad 32 _ t

theorem reads_lit (fuel : Nat) (l : List Char) (precision width : Int) (t : Printed) :
    (putString mem alt fuel (.lit l) precision width t).2.reads = t.reads := by
  induction fuel generalizing l precision width t with
  | zero => rfl
  | succ fuel ih =>
    cases l with
    | nil => rfl
    | cons ch l =>
      have hnext : ∀ f : Int × Str → Print Int, ((Str.lit (ch :: l)).next mem >>= f) t =
          f (ch.toNat, .lit l) t := fun _ => rfl
      rw [putString, hnext]
      simp only
      by_cases hch : (ch.toNat : Int) = 0
      · rw [if_pos hch]
        rfl
      rw [if_neg hch]
      by_cases hp : precision < 0 ∨ 0 ≤ precision - 1
      · rw [if_pos hp]
        exact ih _ _ _ _
      · rw [if_neg hp]
        rfl

theorem reads_cputs_null (fuel : Nat) : (cputs mem fuel 0 len {}).2.reads = [] := by
  rw [cputs_eq, if_pos rfl, formatString, if_neg (by simp)]
  simp only [pure_bind, bind_assoc]
  rw [reads_bind]
  · exact reads_lit fuel _ _ _ _
  · intro width t
    rw [reads_bind _ _ _ fun _ _ => rfl]
    exact reads_putPad 32 _ t

/-! ## The result -/

variable {σ : Phys} {d : Nat}

theorem UserReadable.toNat_add (h : UserReadable σ d s len) {i : Nat} (hi : i ≤ len.toNat) :
    (s + BitVec.ofNat 32 i).toNat = s.toNat + i := by
  have hlim : ULIM.toNat < 2 ^ 32 := ULIM.isLt
  have hle := h.1
  rw [BitVec.toNat_add, BitVec.toNat_ofNat]
  omega

theorem UserReadable.inRange (h : UserReadable σ d s len) {i : Nat} (hi : i < len.toNat) :
    InRange s len (s + BitVec.ofNat 32 i) := by
  unfold InRange
  rw [h.toNat_add (le_of_lt hi)]
  omega

/-- The kernel can read what the user can. -/
theorem UserReadable.load (h : UserReadable σ d s len) {i : Nat} (hi : i < len.toNat) :
    kernLoadByte σ d (s + BitVec.ofNat 32 i) = some (loadByte σ d (s + BitVec.ofNat 32 i)) := by
  obtain ⟨hpde, hpte⟩ := h.2 _ (h.inRange hi)
  have hP : ∀ w : Word, w &&& (PTE_P ||| PTE_U) = PTE_P ||| PTE_U → w &&& PTE_P = PTE_P := by
    intro w hw
    calc w &&& PTE_P = w &&& ((PTE_P ||| PTE_U) &&& PTE_P) := by
          rw [show (PTE_P ||| PTE_U) &&& PTE_P = PTE_P by decide]
      _ = (PTE_P ||| PTE_U) &&& PTE_P := by rw [← BitVec.and_assoc, hw]
      _ = PTE_P := by decide
  exact if_pos ⟨hP _ hpde, hP _ hpte⟩

/-- **`sys_cputs` reads only the checked range** exactly if the string ends there. -/
theorem cputs_reads_iff (h : UserReadable σ d s len) :
    ReadsInRange σ d s len ↔
      s = 0 ∨ ∃ i < len.toNat, loadByte σ d (s + BitVec.ofNat 32 i) = 0 := by
  constructor
  · intro hin
    by_contra hno
    push Not at hno
    obtain ⟨hs, hne⟩ := hno
    -- without a zero byte the loop gets to the byte behind the range
    have hprec : len.toInt < 0 ∨ (len.toNat : Int) ≤ len.toInt := by
      rw [BitVec.toInt_eq_toNat_cond]
      split_ifs <;> omega
    have hread : s + BitVec.ofNat 32 len.toNat ∈
        (cputs (kernLoadByte σ d) (len.toNat + 1) s len {}).2.reads := by
      rw [reads_cputs _ hs]
      refine reads_past _ _ _ _ _ _ (fun j hj => ⟨_, h.load hj, hne j hj⟩) hprec (by omega)
    have hlt := (hin _ _ hread).2
    rw [h.toNat_add (le_refl _)] at hlt
    omega
  · rintro (rfl | ⟨i, hi, hzero⟩) fuel a ha
    · rw [reads_cputs_null] at ha
      cases ha
    · by_cases hs : s = 0
      · subst hs
        rw [reads_cputs_null] at ha
        cases ha
      rw [reads_cputs _ hs] at ha
      have hload : kernLoadByte σ d (s + BitVec.ofNat 32 i) = some 0 := by
        rw [h.load hi, hzero]
      rcases reads_le_of_zero _ _ _ _ _ hload a ha with hc | ⟨j, hj, rfl⟩
      · cases hc
      · exact h.inRange (by omega)

theorem userReadable_of_samePage {x : Word} (hp : Permits σ d x (PTE_P ||| PTE_U))
    (hlim : s.toNat + len.toNat ≤ ULIM.toNat)
    (hpage : ∀ a, InRange s len a → SamePage a x) : UserReadable σ d s len := by
  refine ⟨hlim, fun a ha => ?_⟩
  have hx := hpage a ha
  unfold Permits mmuPte
  rw [hx.PDX_eq, hx.PTX_eq]
  exact hp

/-- The program of the boot machine prints its empty page. -/
theorem cputs_reads_boot : UserReadable bootKernel.phys 9 0x800000#32 5#32 ∧
    ReadsInRange bootKernel.phys 9 0x800000#32 5#32 := by
  have hread : UserReadable bootKernel.phys 9 0x800000#32 5#32 := by
    refine userReadable_of_samePage (x := 0x800000#32) (by decide) (by decide) fun a ha => ?_
    have hlo : 0x800000 ≤ a.toNat := ha.1
    have hhi : a.toNat < 0x800005 := ha.2
    change a.toNat / 4096 = 0x800000 / 4096
    omega
  exact ⟨hread, (cputs_reads_iff hread).2 (.inr ⟨0, by decide, by decide⟩)⟩

/-- The same with a page full of letters. -/
def lettersPhys : Phys :=
  { bootKernel.phys with mem := Function.update bootKernel.phys.mem 11 fun _ => 0x41414141#32 }

/-- The last two bytes of the page: the check passes, and the kernel faults on the next page. -/
theorem cputs_overruns : UserReadable lettersPhys 9 0x800FFE#32 2#32 ∧
    userMemCheck lettersPhys 9 0x800FFE#32 2#32 (PTE_U ||| PTE_P ||| PTE_U) = .ok 0 ∧
    (cputs (kernLoadByte lettersPhys 9) 3 0x800FFE#32 2#32 {}).1 = .error (.fault 0x801000#32) ∧
    ¬ ReadsInRange lettersPhys 9 0x800FFE#32 2#32 := by
  refine ⟨?_, by rfl, by rfl, fun hin => ?_⟩
  · refine userReadable_of_samePage (x := 0x800000#32) (by decide) (by decide) fun a ha => ?_
    have hlo : 0x800FFE ≤ a.toNat := ha.1
    have hhi : a.toNat < 0x801000 := ha.2
    change a.toNat / 4096 = 0x800000 / 4096
    omega
  · have hread : (cputs (kernLoadByte lettersPhys 9) 3 0x800FFE#32 2#32 {}).2.reads =
        [0x800FFE#32, 0x800FFF#32, 0x801000#32] := by rfl
    have hlt := (hin 3 0x801000#32 (by rw [hread]; decide)).2
    exact absurd hlt (by decide)

end Jos
