import Mathlib.Tactic
import Mathlib.Data.List.Intervals

/-!
# The monitor's command line

`runcmd` (`kern/monitor.c`) cuts a command buffer into words in place: it overwrites whitespace by
zeros and keeps a pointer to the start of each word. The zero behind a word is written when the next
gap is skipped, so the words can be read as strings only at the end.

**The words** (`runs`) are the maximal runs of characters other than whitespace.

**Theorem (`runcmd_tokenises`).** With at most `MAXARGS - 1` words `argv` has them in order, with
`NULL` behind the last. With more no command is run. The buffer is used up to its zero byte, and
`argv` inside its bounds.

The invariant (`Parsing`) says that the buffer is the original one with the whitespace before the
pointer zeroed, and that the words found so far, with those of the rest of the buffer, are all the
words.

Pointers into the buffer are offsets. `Cmd` records what is read and written. The loops are bounded
by `fuel`, because the model's buffer need not end; the texts printed are part of the result.
-/

namespace Jos

/-! ## The program -/

def MAXARGS : ℕ := 16

/-- `"\t\r\n "`. -/
def WHITESPACE : List (BitVec 8) := [9#8, 13#8, 10#8, 32#8]

/-- `strchr` on a literal. The result is an index, or `none` for `NULL`. -/
def strchr : List (BitVec 8) → BitVec 8 → Option ℕ
  | [], _ => none
  | s :: l, c => if s = c then some 0 else (strchr l c).map (· + 1)

/-- The commands of the monitor. -/
inductive Command
  | help
  | kerninfo
  | backtrace
  deriving DecidableEq

/-- The characters of a literal. -/
def asciiBytes (s : String) : List (BitVec 8) := s.toList.map fun ch => BitVec.ofNat 8 ch.toNat

/-- The table `commands`. -/
def commands : List (List (BitVec 8) × Command) :=
  [(asciiBytes "help", .help), (asciiBytes "kerninfo", .kerninfo),
    (asciiBytes "backtrace", .backtrace)]

/-- The variables of `runcmd`, and the indices at which buffer and `argv` have been used. -/
structure Cmd where
  mem : ℕ → BitVec 8
  buf : ℕ
  argv : ℕ → Option ℕ
  argc : ℕ
  reads : List ℕ
  writes : List ℕ
  argvUses : List ℕ

namespace Cmd

/-- Read the byte at `p`. -/
def load (s : Cmd) (p : ℕ) : BitVec 8 × Cmd := (s.mem p, { s with reads := s.reads ++ [p] })

/-- `*buf++ = 0`. -/
def clear (s : Cmd) : Cmd :=
  { s with mem := Function.update s.mem s.buf 0#8, buf := s.buf + 1, writes := s.writes ++ [s.buf] }

/-- `argv[argc] = p`. -/
def setArgv (s : Cmd) (p : Option ℕ) : Cmd :=
  { s with argv := Function.update s.argv s.argc p, argvUses := s.argvUses ++ [s.argc] }

/-- `argv[argc++] = buf`. -/
def pushArg (s : Cmd) : Cmd :=
  { s with
    argv := Function.update s.argv s.argc (some s.buf)
    argvUses := s.argvUses ++ [s.argc]
    argc := s.argc + 1 }

end Cmd

/-- The character is one of `WHITESPACE`. -/
def isSpace (c : BitVec 8) : Bool := (strchr WHITESPACE c).isSome

/-- `while (*buf && strchr (WHITESPACE, *buf)) *buf++ = 0`. -/
def gobble : ℕ → Cmd → Option Cmd
  | 0, _ => none
  | fuel + 1, s =>
    let (c, s) := s.load s.buf
    if c ≠ 0#8 ∧ isSpace c then gobble fuel s.clear else some s

/-- `while (*buf && !strchr (WHITESPACE, *buf)) buf++`. -/
def scan : ℕ → Cmd → Option Cmd
  | 0, _ => none
  | fuel + 1, s =>
    let (c, s) := s.load s.buf
    if c ≠ 0#8 ∧ ¬ isSpace c then scan fuel { s with buf := s.buf + 1 } else some s

/-- The loop that parses the buffer; the result is `false` if there are too many arguments. -/
def parseArgs (n : ℕ) : ℕ → Cmd → Option (Bool × Cmd)
  | 0, _ => none
  | fuel + 1, s => do
    let s ← gobble n s
    let (c, s) := s.load s.buf
    if c = 0#8 then return (true, s)
    if s.argc = MAXARGS - 1 then return (false, s)
    let s ← scan n s.pushArg
    parseArgs n fuel s

/-- `strcmp` of the string at `p` with a literal. -/
def strcmp (p : ℕ) : List (BitVec 8) → Cmd → Int × Cmd
  | [], s =>
    let (c, s) := s.load p
    (c.toNat, s)
  | q :: l, s =>
    let (c, s) := s.load p
    if c ≠ 0#8 ∧ c = q then strcmp (p + 1) l s else ((c.toNat : Int) - q.toNat, s)

/-- The loop over the commands. -/
def lookup : List (List (BitVec 8) × Command) → Cmd → Option (Option Command × Cmd)
  | [], s => some (none, s)
  | (name, cmd) :: l, s => do
    let s := { s with argvUses := s.argvUses ++ [0] }
    let (r, s) := strcmp (← s.argv 0) name s
    if r = 0 then return (some cmd, s) else lookup l s

/-- The string at `p`, as `cprintf` reads it. -/
def printArg : ℕ → ℕ → Cmd → Option (List (BitVec 8) × Cmd)
  | 0, _, _ => none
  | fuel + 1, p, s => do
    let (c, s) := s.load p
    if c = 0#8 then return ([], s)
    let (l, s) ← printArg fuel (p + 1) s
    return (c :: l, s)

/-- What `runcmd` does. -/
inductive CmdResult
  | tooMany
  | empty
  | invoked (cmd : Command)
  | unknown (name : List (BitVec 8))

/-- What it returns, with what the functions of the commands do. -/
def CmdResult.ret (func : Command → Int) : CmdResult → Int
  | .invoked cmd => func cmd
  | _ => 0

/-- `runcmd`. The array `argv` starts with what is on the stack. -/
def runcmd (fuel : ℕ) (mem : ℕ → BitVec 8) (argv : ℕ → Option ℕ) : Option (CmdResult × Cmd) := do
  let s : Cmd := ⟨mem, 0, argv, 0, [], [], []⟩
  let (ok, s) ← parseArgs fuel fuel (s.setArgv none)
  if !ok then return (.tooMany, s)
  let s := s.setArgv none
  if s.argc = 0 then return (.empty, s)
  let (cmd, s) ← lookup commands s
  match cmd with
  | some cmd => return (.invoked cmd, s)
  | none =>
    let s := { s with argvUses := s.argvUses ++ [0] }
    let (name, s) ← printArg fuel (← s.argv 0) s
    return (.unknown name, s)

/-! ## The words -/

/-- The maximal runs of characters other than whitespace. -/
def runs (l : List (BitVec 8)) : List (List (BitVec 8)) :=
  (l.splitOnP (· ∈ WHITESPACE)).filter (· ≠ [])

/-- The bytes from `a` to `b`. -/
def slice (mem : ℕ → BitVec 8) (a b : ℕ) : List (BitVec 8) := (List.Ico a b).map mem

/-- What is done with the words, if they are not too many. -/
def dispatch : List (List (BitVec 8)) → CmdResult
  | [] => .empty
  | w :: _ =>
    match commands.find? (·.1 = w) with
    | some c => .invoked c.2
    | none => .unknown w

/-- The string at `p` is `w`. -/
structure IsString (mem : ℕ → BitVec 8) (p : ℕ) (w : List (BitVec 8)) : Prop where
  bytes : slice mem p (p + w.length) = w
  nonzero : 0#8 ∉ w
  ends : mem (p + w.length) = 0#8

/-- The words are all there: `argv` has them in order, and ends. -/
structure Tokenised (s : Cmd) (words : List (List (BitVec 8))) : Prop where
  argc : s.argc = words.length
  argv : ∀ i (hi : i < words.length), ∃ p, s.argv i = some p ∧ IsString s.mem p words[i]
  null : s.argv s.argc = none

theorem isSpace_iff {c : BitVec 8} : isSpace c = true ↔ c ∈ WHITESPACE := by
  have hgen : ∀ l : List (BitVec 8), (strchr l c).isSome = true ↔ c ∈ l := by
    intro l
    induction l with
    | nil => simp [strchr]
    | cons s l ih =>
      rw [strchr, List.mem_cons, ← ih]
      by_cases h : s = c
      · simp [h]
      · rw [if_neg h, Option.isSome_map]
        simp [Ne.symm h]
  exact hgen WHITESPACE

@[simp] theorem runs_nil : runs [] = [] := rfl

theorem runs_cons_space {c : BitVec 8} (l : List (BitVec 8)) (h : c ∈ WHITESPACE) :
    runs (c :: l) = runs l := by
  unfold runs
  rw [List.splitOnP_cons_eq_if_modifyHead, if_pos (by simpa using h)]
  simp

theorem runs_cons_ne_nil {c : BitVec 8} (l : List (BitVec 8)) (h : c ∉ WHITESPACE) :
    runs (c :: l) ≠ [] := by
  obtain ⟨w, ws, hsplit⟩ :=
    List.exists_cons_of_ne_nil (List.splitOnP_ne_nil (fun c => decide (c ∈ WHITESPACE)) l)
  unfold runs
  rw [List.splitOnP_cons_eq_if_modifyHead, if_neg (by simpa using h), hsplit]
  simp

theorem runs_append {w l : List (BitVec 8)} (hne : w ≠ []) (hw : ∀ c ∈ w, c ∉ WHITESPACE)
    (hl : ∀ c ∈ l.head?, c ∈ WHITESPACE) : runs (w ++ l) = w :: runs l := by
  have hw' : ∀ c ∈ w, decide (c ∈ WHITESPACE) = false := fun c hc => by simpa using hw c hc
  cases l with
  | nil =>
    rw [List.append_nil, runs_nil]
    unfold runs
    rw [List.splitOnP_eq_singleton hw']
    simp [hne]
  | cons c l =>
    have hc : c ∈ WHITESPACE := hl c rfl
    rw [runs_cons_space l hc]
    unfold runs
    rw [List.splitOnP_append_cons_of_forall_mem hw' c (by simpa using hc)]
    simp [hne]

/-! ## The parser -/

/-- The buffer with the whitespace before `n` zeroed. -/
def zeroed (mem : ℕ → BitVec 8) (n : ℕ) : ℕ → BitVec 8 := fun x =>
  if x < n ∧ mem x ∈ WHITESPACE then 0#8 else mem x

/-- The run `w` stands at `p`, and whitespace or the end of the buffer behind it. -/
structure RunAt (mem : ℕ → BitVec 8) (L p : ℕ) (w : List (BitVec 8)) : Prop where
  bytes : slice mem p (p + w.length) = w
  word : ∀ c ∈ w, c ∉ WHITESPACE
  le : p + w.length ≤ L
  ends : p + w.length = L ∨ mem (p + w.length) ∈ WHITESPACE

/-- What has been used is in bounds. -/
structure UsesInside (L : ℕ) (s : Cmd) : Prop where
  reads : ∀ p ∈ s.reads, p ≤ L
  writes : ∀ p ∈ s.writes, p ≤ L
  argvUses : ∀ i ∈ s.argvUses, i < MAXARGS

/-- **The invariant**: the words `words` have been found at `starts`. -/
structure Parsing (mem : ℕ → BitVec 8) (L : ℕ) (s : Cmd) (starts : List ℕ)
    (words : List (List (BitVec 8))) : Prop where
  memory : s.mem = zeroed mem s.buf
  buf : s.buf ≤ L
  bounds : UsesInside L s
  argc : s.argc = starts.length
  argc_lt : s.argc < MAXARGS
  argv : ∀ i (hi : i < starts.length), s.argv i = some starts[i]
  found : List.Forall₂ (RunAt mem L) starts words
  all : words ++ runs (slice mem s.buf L) = runs (slice mem 0 L)

section Parser

variable {mem : ℕ → BitVec 8} {L : ℕ} {s s' : Cmd} {starts : List ℕ}
  {words : List (List (BitVec 8))}

/-- The buffer is a string that ends at `L`. -/
structure EndsAt (mem : ℕ → BitVec 8) (L : ℕ) : Prop where
  zero : mem L = 0#8
  first : ∀ j < L, mem j ≠ 0#8

theorem slice_cons {a b : ℕ} (h : a < b) : slice mem a b = mem a :: slice mem (a + 1) b := by
  unfold slice
  rw [List.Ico.eq_cons h, List.map_cons]

theorem slice_self (a : ℕ) : slice mem a a = [] := by
  unfold slice
  rw [List.Ico.self_empty, List.map_nil]

theorem slice_append {a b c : ℕ} (hab : a ≤ b) (hbc : b ≤ c) :
    slice mem a b ++ slice mem b c = slice mem a c := by
  unfold slice
  rw [← List.map_append, List.Ico.append_consecutive hab hbc]

theorem length_slice (a n : ℕ) : (slice mem a (a + n)).length = n := by
  unfold slice
  rw [List.length_map, List.Ico.length]
  omega

theorem zeroed_of_le {n x : ℕ} (h : n ≤ x) : zeroed mem n x = mem x := if_neg (by omega)

theorem update_zeroed {n : ℕ} (h : mem n ∈ WHITESPACE) :
    Function.update (zeroed mem n) n 0#8 = zeroed mem (n + 1) := by
  funext x
  by_cases hx : x = n
  · subst hx
    rw [Function.update_self, zeroed, if_pos ⟨by omega, h⟩]
  · rw [Function.update_of_ne hx]
    unfold zeroed
    have hlt : x < n ↔ x < n + 1 := by omega
    simp only [hlt]

theorem zeroed_add {a n : ℕ} (h : ∀ j < n, mem (a + j) ∉ WHITESPACE) :
    zeroed mem (a + n) = zeroed mem a := by
  funext x
  unfold zeroed
  by_cases hx : mem x ∈ WHITESPACE
  · have hlt : x < a + n ↔ x < a := by
      constructor
      · intro hlt
        by_contra hge
        refine h (x - a) (by omega) ?_
        rwa [show a + (x - a) = x by omega]
      · omega
    simp only [hlt]
  · rw [if_neg fun hc => hx hc.2, if_neg fun hc => hx hc.2]

theorem UsesInside.load (h : UsesInside L s) {p : ℕ} (hp : p ≤ L) : UsesInside L (s.load p).2 := by
  refine ⟨fun x hx => ?_, h.writes, h.argvUses⟩
  rcases List.mem_append.1 hx with hx | hx
  · exact h.reads x hx
  · rwa [List.mem_singleton.1 hx]

theorem UsesInside.setArgv (h : UsesInside L s) (hlt : s.argc < MAXARGS) (p : Option ℕ) :
    UsesInside L (s.setArgv p) := by
  refine ⟨h.reads, h.writes, fun i hi => ?_⟩
  rcases List.mem_append.1 hi with hi | hi
  · exact h.argvUses i hi
  · rwa [List.mem_singleton.1 hi]

theorem Parsing.load (h : Parsing mem L s starts words) {p : ℕ} (hp : p ≤ L) :
    Parsing mem L (s.load p).2 starts words :=
  ⟨h.memory, h.buf, h.bounds.load hp, h.argc, h.argc_lt, h.argv, h.found, h.all⟩

theorem Parsing.char (h : Parsing mem L s starts words) : (s.load s.buf).1 = mem s.buf := by
  change s.mem s.buf = mem s.buf
  rw [h.memory, zeroed_of_le (le_refl _)]

theorem Parsing.clear (h : Parsing mem L s starts words) (hlt : s.buf < L)
    (hc : mem s.buf ∈ WHITESPACE) : Parsing mem L s.clear starts words := by
  refine ⟨?_, hlt, ⟨h.bounds.reads, fun p hp => ?_, h.bounds.argvUses⟩, h.argc, h.argc_lt, h.argv,
    h.found, ?_⟩
  · change Function.update s.mem s.buf 0#8 = zeroed mem (s.buf + 1)
    rw [h.memory, update_zeroed hc]
  · rcases List.mem_append.1 hp with hp | hp
    · exact h.bounds.writes p hp
    · rw [List.mem_singleton.1 hp]
      exact h.buf
  · rw [← h.all, slice_cons hlt, runs_cons_space _ hc]
    rfl

theorem EndsAt.zero_iff (hend : EndsAt mem L) {p : ℕ} (hp : p ≤ L) : mem p = 0#8 ↔ p = L := by
  constructor
  · intro h0
    by_contra hne
    exact hend.first p (by omega) h0
  · rintro rfl
    exact hend.zero

theorem gobble_ok (hend : EndsAt mem L) (fuel : ℕ) (h : Parsing mem L s starts words)
    (hfuel : L < s.buf + fuel) :
    ∃ s', gobble fuel s = some s' ∧ Parsing mem L s' starts words ∧ s.buf ≤ s'.buf ∧
      mem s'.buf ∉ WHITESPACE := by
  induction fuel generalizing s with
  | zero =>
    have := h.buf
    omega
  | succ fuel ih =>
    have hload := h.load h.buf
    have hchar := h.char
    rw [gobble]
    simp only [hchar]
    by_cases hc : mem s.buf ≠ 0#8 ∧ isSpace (mem s.buf)
    · rw [if_pos hc]
      have hlt : s.buf < L := lt_of_le_of_ne h.buf fun heq => hc.1 ((hend.zero_iff h.buf).2 heq)
      obtain ⟨s', hrun, h', hle, hstop⟩ := ih (hload.clear hlt (isSpace_iff.1 hc.2)) (by
        change L < s.buf + 1 + fuel
        omega)
      exact ⟨s', hrun, h', le_trans (Nat.le_succ _) hle, hstop⟩
    · rw [if_neg hc]
      refine ⟨_, rfl, hload, le_refl _, fun hsp => hc ⟨?_, isSpace_iff.2 hsp⟩⟩
      intro h0
      change mem s.buf ∈ WHITESPACE at hsp
      rw [h0] at hsp
      exact absurd hsp (by decide)

theorem scan_ok (hend : EndsAt mem L) (fuel : ℕ) (hmem : ∀ x, s.buf ≤ x → s.mem x = mem x)
    (hbuf : s.buf ≤ L) (hb : UsesInside L s) (hfuel : L < s.buf + fuel) :
    ∃ n reads, scan fuel s = some { s with buf := s.buf + n, reads := reads } ∧
      (∀ p ∈ reads, p ≤ L) ∧ s.buf + n ≤ L ∧ (∀ j < n, mem (s.buf + j) ∉ WHITESPACE) ∧
      (s.buf + n = L ∨ mem (s.buf + n) ∈ WHITESPACE) := by
  induction fuel generalizing s with
  | zero => omega
  | succ fuel ih =>
    have hload := hb.load hbuf
    rw [scan]
    simp only [Cmd.load, hmem s.buf (le_refl _)]
    by_cases hc : mem s.buf ≠ 0#8 ∧ ¬ isSpace (mem s.buf)
    · rw [if_pos hc]
      have hlt : s.buf < L := lt_of_le_of_ne hbuf fun heq => hc.1 ((hend.zero_iff hbuf).2 heq)
      obtain ⟨n, reads, hrun, hreads, hle, hword, hstop⟩ :=
        ih (s := { s with buf := s.buf + 1, reads := s.reads ++ [s.buf] })
          (fun x hx => hmem x (by change s.buf + 1 ≤ x at hx; omega)) hlt
          ⟨hload.reads, hload.writes, hload.argvUses⟩ (by change L < s.buf + 1 + fuel; omega)
      have hnext : s.buf + 1 + n = s.buf + (n + 1) := by omega
      simp only [hnext] at hrun hle hword hstop
      refine ⟨n + 1, reads, hrun, hreads, hle, fun j hj => ?_, hstop⟩
      cases j with
      | zero => exact fun hsp => hc.2 (isSpace_iff.2 hsp)
      | succ j =>
        rw [show s.buf + (j + 1) = s.buf + 1 + j by omega]
        exact hword j (by omega)
    · rw [if_neg hc]
      refine ⟨0, _, rfl, hload.reads, hbuf, fun j hj => (Nat.not_lt_zero j hj).elim, ?_⟩
      by_cases h0 : mem s.buf = 0#8
      · exact .inl ((hend.zero_iff hbuf).1 h0)
      · right
        rw [← isSpace_iff]
        by_contra hsp
        exact hc ⟨h0, hsp⟩

theorem Parsing.word (hend : EndsAt mem L) (fuel : ℕ) (h : Parsing mem L s starts words)
    (hne : mem s.buf ≠ 0#8) (hsp : mem s.buf ∉ WHITESPACE) (hroom : s.argc ≠ MAXARGS - 1)
    (hfuel : L < s.buf + fuel) :
    ∃ s' w, scan fuel s.pushArg = some s' ∧
      Parsing mem L s' (starts ++ [s.buf]) (words ++ [w]) ∧ s.buf < s'.buf := by
  have hargc := h.argc_lt
  have hset := h.bounds.setArgv hargc (some s.buf)
  have hmem : ∀ x, s.buf ≤ x → s.mem x = mem x := fun x hx => by rw [h.memory, zeroed_of_le hx]
  obtain ⟨n, reads, hrun, hreads, hle, hword, hstop⟩ :=
    scan_ok (s := s.pushArg) hend fuel hmem h.buf ⟨hset.reads, hset.writes, hset.argvUses⟩ hfuel
  change s.buf + n ≤ L at hle
  change ∀ j < n, mem (s.buf + j) ∉ WHITESPACE at hword
  change s.buf + n = L ∨ mem (s.buf + n) ∈ WHITESPACE at hstop
  -- the first character is part of the word
  have hpos : 0 < n := by
    rcases Nat.eq_zero_or_pos n with rfl | hpos
    · exact (hstop.elim (fun heq => hne ((hend.zero_iff h.buf).2 heq)) hsp).elim
    · exact hpos
  have hlen : (slice mem s.buf (s.buf + n)).length = n := length_slice s.buf n
  have hchars : ∀ c ∈ slice mem s.buf (s.buf + n), c ∉ WHITESPACE := by
    intro c hc
    obtain ⟨x, hx, rfl⟩ := List.mem_map.1 hc
    have hx' := List.Ico.mem.1 hx
    rw [show x = s.buf + (x - s.buf) by omega]
    exact hword _ (by omega)
  refine ⟨_, slice mem s.buf (s.buf + n), hrun, ?_, Nat.lt_add_of_pos_right hpos⟩
  refine ⟨?_, hle, ⟨hreads, hset.writes, hset.argvUses⟩, ?_, ?_, fun i hi => ?_, ?_, ?_⟩
  · change s.mem = zeroed mem (s.buf + n)
    rw [h.memory, zeroed_add hword]
  · rw [List.length_append, List.length_singleton, ← h.argc]
    rfl
  · change s.argc + 1 < MAXARGS
    unfold MAXARGS at *
    omega
  · change Function.update s.argv s.argc (some s.buf) i = _
    rw [h.argc]
    rcases Nat.lt_or_ge i starts.length with hlt | hge
    · rw [Function.update_of_ne hlt.ne, h.argv i hlt, List.getElem_append_left hlt]
    · rw [List.length_append, List.length_singleton] at hi
      obtain rfl : i = starts.length := by omega
      rw [Function.update_self, List.getElem_concat_length rfl]
  · refine List.rel_append h.found (.cons ⟨?_, hchars, ?_, ?_⟩ .nil)
    · rw [hlen]
    · rwa [hlen]
    · rwa [hlen]
  · change words ++ [slice mem s.buf (s.buf + n)] ++ runs (slice mem (s.buf + n) L) = _
    have hrest : ∀ c ∈ (slice mem (s.buf + n) L).head?, c ∈ WHITESPACE := by
      intro c hc
      rcases Nat.lt_or_ge (s.buf + n) L with hlt | hge
      · rw [slice_cons hlt] at hc
        obtain rfl := Option.some.inj hc
        exact hstop.resolve_left hlt.ne
      · rw [show s.buf + n = L by omega, slice_self] at hc
        cases hc
    have hnil : slice mem s.buf (s.buf + n) ≠ [] := by
      rw [← List.length_pos_iff, hlen]
      exact hpos
    rw [List.append_assoc, List.singleton_append, ← runs_append hnil hchars hrest,
      slice_append (Nat.le_add_right _ _) hle, h.all]

/-- **The parser** ends behind the last word, or stops where another one starts. -/
theorem parseArgs_ok (hend : EndsAt mem L) (n fuel : ℕ) (h : Parsing mem L s starts words)
    (hn : L < n) (hfuel : L < s.buf + fuel) :
    ∃ ok s' starts' words', parseArgs n fuel s = some (ok, s') ∧ Parsing mem L s' starts' words' ∧
      (ok = true → s'.buf = L) ∧
      (ok = false → s'.argc = MAXARGS - 1 ∧ runs (slice mem s'.buf L) ≠ []) := by
  induction fuel generalizing s starts words with
  | zero =>
    have := h.buf
    omega
  | succ fuel ih =>
    obtain ⟨s₁, hgob, h₁, hle, hsp⟩ := gobble_ok hend n h (by omega)
    have hload := h₁.load h₁.buf
    have hchar := h₁.char
    have hargc : (s₁.load s₁.buf).2.argc = s₁.argc := rfl
    simp only [parseArgs, hgob, Option.bind_eq_bind, Option.bind_some, hchar, hargc]
    by_cases h0 : mem s₁.buf = 0#8
    · rw [if_pos h0]
      exact ⟨true, _, _, _, rfl, hload, fun _ => (hend.zero_iff h₁.buf).1 h0, nofun⟩
    rw [if_neg h0]
    have hlt : s₁.buf < L := lt_of_le_of_ne h₁.buf fun heq => h0 ((hend.zero_iff h₁.buf).2 heq)
    by_cases hmax : s₁.argc = MAXARGS - 1
    · rw [if_pos hmax]
      refine ⟨false, _, _, _, rfl, hload, nofun, fun _ => ⟨hmax, ?_⟩⟩
      -- the rest of the buffer starts with a word
      change runs (slice mem s₁.buf L) ≠ []
      rw [slice_cons hlt]
      exact runs_cons_ne_nil _ hsp
    · rw [if_neg hmax]
      obtain ⟨s₂, w, hscan, h₂, hadv⟩ := hload.word hend n h0 hsp hmax (by
        change L < s₁.buf + n
        omega)
      change s₁.buf < s₂.buf at hadv
      obtain ⟨ok, s', starts', words', hrun, h', hok, hno⟩ := ih h₂ (by omega)
      refine ⟨ok, s', starts', words', ?_, h', hok, hno⟩
      rw [← hrun]
      exact congrArg (fun o => o.bind fun s => parseArgs n fuel s) hscan

/-! ## The words as strings -/

/-- A word is a string once the gaps are zeroed. -/
theorem RunAt.isString (hend : EndsAt mem L) {p : ℕ} {w : List (BitVec 8)} (h : RunAt mem L p w) :
    IsString (zeroed mem L) p w := by
  have hle := h.le
  have hchar : ∀ x ∈ List.Ico p (p + w.length), mem x ∈ w := by
    intro x hx
    rw [← h.bytes]
    exact List.mem_map_of_mem hx
  refine ⟨?_, fun h0 => ?_, ?_⟩
  · calc slice (zeroed mem L) p (p + w.length) = slice mem p (p + w.length) :=
          List.map_congr_left fun x hx => if_neg fun hc => h.word _ (hchar x hx) hc.2
      _ = w := h.bytes
  · rw [← h.bytes] at h0
    obtain ⟨x, hx, h0⟩ := List.mem_map.1 h0
    have hx' := List.Ico.mem.1 hx
    exact hend.first x (by omega) h0
  · rcases h.ends with heq | hsp
    · rw [heq, zeroed_of_le (le_refl L), hend.zero]
    · have hne : p + w.length ≠ L := by
        intro heq
        rw [heq, hend.zero] at hsp
        exact absurd hsp (by decide)
      exact if_pos ⟨by omega, hsp⟩

theorem isString_cons_iff {p : ℕ} {c : BitVec 8} {w : List (BitVec 8)} :
    IsString mem p (c :: w) ↔ mem p = c ∧ c ≠ 0#8 ∧ IsString mem (p + 1) w := by
  have hlen : p + (c :: w).length = p + 1 + w.length := by
    rw [List.length_cons]
    omega
  constructor
  · intro h
    have hbytes := h.bytes
    have hnz := h.nonzero
    have hends := h.ends
    rw [hlen] at hbytes hends
    rw [slice_cons (by omega)] at hbytes
    obtain ⟨hp, hrest⟩ := List.cons.inj hbytes
    rw [List.mem_cons, not_or] at hnz
    exact ⟨hp, Ne.symm hnz.1, hrest, hnz.2, hends⟩
  · rintro ⟨rfl, hne, hrest⟩
    refine ⟨?_, ?_, ?_⟩
    · rw [hlen, slice_cons (by omega), hrest.bytes]
    · rw [List.mem_cons, not_or]
      exact ⟨Ne.symm hne, hrest.nonzero⟩
    · rw [hlen]
      exact hrest.ends

theorem strcmp_cons (p : ℕ) (b : BitVec 8) (q : List (BitVec 8)) (s : Cmd) :
    strcmp p (b :: q) s =
      if s.mem p ≠ 0#8 ∧ s.mem p = b then strcmp (p + 1) q (s.load p).2
      else (((s.mem p).toNat : Int) - b.toNat, (s.load p).2) := rfl

theorem strcmp_ok {p : ℕ} {w q : List (BitVec 8)} (hq : 0#8 ∉ q) (h : IsString s.mem p w)
    (hle : p + w.length ≤ L) (hb : UsesInside L s) :
    ∃ r reads, strcmp p q s = (r, { s with reads := reads }) ∧ (r = 0 ↔ w = q) ∧
      ∀ x ∈ reads, x ≤ L := by
  induction q generalizing s p w with
  | nil =>
    refine ⟨_, _, rfl, ?_, (hb.load (p := p) (by omega)).reads⟩
    cases w with
    | nil =>
      have hp : s.mem p = 0#8 := h.ends
      simp [hp]
    | cons c w =>
      obtain ⟨hp, hne, -⟩ := isString_cons_iff.1 h
      have hpos : c.toNat ≠ 0 := fun h0 => hne (BitVec.eq_of_toNat_eq h0)
      simp [hp, hpos]
  | cons b q ih =>
    rw [List.mem_cons, not_or] at hq
    rw [strcmp_cons]
    cases w with
    | nil =>
      have hp : s.mem p = 0#8 := h.ends
      rw [if_neg fun hc => hc.1 hp]
      have hpos : b.toNat ≠ 0 := fun h0 => hq.1 (BitVec.eq_of_toNat_eq h0).symm
      refine ⟨_, _, rfl, ?_, (hb.load (p := p) hle).reads⟩
      simp [hp, hpos]
    | cons c w =>
      obtain ⟨hp, hne, hrest⟩ := isString_cons_iff.1 h
      rw [List.length_cons] at hle
      have hload := hb.load (p := p) (by omega)
      by_cases hc : c = b
      · rw [if_pos ⟨by rwa [hp], by rwa [hp]⟩]
        obtain ⟨r, reads, hrun, hr, hreads⟩ :=
          ih (s := (s.load p).2) (p := p + 1) hq.2 hrest (by omega) hload
        refine ⟨r, reads, hrun, ?_, hreads⟩
        rw [hr, hc]
        simp
      · rw [if_neg fun hc' => hc (hp ▸ hc'.2)]
        refine ⟨_, _, rfl, ?_, hload.reads⟩
        have hne' : c.toNat ≠ b.toNat := fun heq => hc (BitVec.eq_of_toNat_eq heq)
        rw [hp]
        simp only [List.cons.injEq, hc, false_and, iff_false]
        omega

theorem UsesInside.useArgv (h : UsesInside L s) :
    UsesInside L { s with argvUses := s.argvUses ++ [0] } := by
  refine ⟨h.reads, h.writes, fun i hi => ?_⟩
  rcases List.mem_append.1 hi with hi | hi
  · exact h.argvUses i hi
  · rw [List.mem_singleton.1 hi]
    decide

theorem lookup_ok {p : ℕ} {w : List (BitVec 8)} (cmds : List (List (BitVec 8) × Command))
    (hcmds : ∀ c ∈ cmds, 0#8 ∉ c.1) (hargv : s.argv 0 = some p) (h : IsString s.mem p w)
    (hle : p + w.length ≤ L) (hb : UsesInside L s) :
    ∃ reads uses, lookup cmds s = some ((cmds.find? (·.1 = w)).map Prod.snd,
        { s with reads := reads, argvUses := uses }) ∧
      UsesInside L { s with reads := reads, argvUses := uses } := by
  induction cmds generalizing s with
  | nil => exact ⟨_, _, rfl, hb⟩
  | cons c cmds ih =>
    obtain ⟨name, cmd⟩ := c
    obtain ⟨hname, hcmds⟩ := List.forall_mem_cons.1 hcmds
    have huse := hb.useArgv
    obtain ⟨r, reads, hcmp, hr, hreads⟩ :=
      strcmp_ok (s := { s with argvUses := s.argvUses ++ [0] }) hname h hle huse
    have hb' : UsesInside L { s with reads := reads, argvUses := s.argvUses ++ [0] } :=
      ⟨hreads, huse.writes, huse.argvUses⟩
    simp only [lookup, hargv, Option.bind_eq_bind, Option.bind_some, hcmp]
    by_cases h0 : r = 0
    · rw [if_pos h0]
      refine ⟨_, _, ?_, hb'⟩
      rw [List.find?_cons_of_pos (by simpa using (hr.1 h0).symm)]
      rfl
    · rw [if_neg h0]
      obtain ⟨reads', uses, hrun, hb''⟩ :=
        ih (s := { s with reads := reads, argvUses := s.argvUses ++ [0] }) hcmds hargv h hb'
      refine ⟨reads', uses, ?_, hb''⟩
      rw [hrun, List.find?_cons_of_neg]
      simpa using fun heq => h0 (hr.2 heq.symm)

theorem printArg_succ (fuel p : ℕ) (s : Cmd) :
    printArg (fuel + 1) p s =
      if s.mem p = 0#8 then some ([], (s.load p).2)
      else (printArg fuel (p + 1) (s.load p).2).map fun r => (s.mem p :: r.1, r.2) := by
  by_cases h : s.mem p = 0#8
  · simp [printArg, Cmd.load, h]
  · simp [printArg, Cmd.load, h, Option.map_eq_bind]

theorem printArg_ok (fuel : ℕ) {p : ℕ} {w : List (BitVec 8)} (h : IsString s.mem p w)
    (hle : p + w.length ≤ L) (hb : UsesInside L s) (hfuel : w.length < fuel) :
    ∃ reads, printArg fuel p s = some (w, { s with reads := reads }) ∧ ∀ x ∈ reads, x ≤ L := by
  induction fuel generalizing s p w with
  | zero => omega
  | succ fuel ih =>
    have hload := hb.load (p := p) (by omega)
    rw [printArg_succ]
    cases w with
    | nil =>
      have hp : s.mem p = 0#8 := h.ends
      rw [if_pos hp]
      exact ⟨_, rfl, hload.reads⟩
    | cons c w =>
      obtain ⟨hp, hne, hrest⟩ := isString_cons_iff.1 h
      rw [List.length_cons] at hle hfuel
      rw [if_neg (by rwa [hp])]
      obtain ⟨reads, hrun, hreads⟩ :=
        ih (s := (s.load p).2) (p := p + 1) hrest (by omega) hload (by omega)
      refine ⟨reads, ?_, hreads⟩
      rw [hrun, hp]
      rfl

/-! ## The result -/

theorem parsing_init (mem : ℕ → BitVec 8) (L : ℕ) (argv : ℕ → Option ℕ) :
    Parsing mem L (Cmd.setArgv ⟨mem, 0, argv, 0, [], [], []⟩ none) [] [] := by
  refine ⟨?_, Nat.zero_le L, ⟨nofun, nofun, ?_⟩, rfl, Nat.succ_pos _, nofun, .nil, rfl⟩
  · funext x
    exact (zeroed_of_le (Nat.zero_le x)).symm
  · intro i hi
    rw [List.mem_singleton.1 hi]
    exact Nat.succ_pos _

/-- At the end of the buffer, with `NULL` behind the last argument. -/
theorem Parsing.tokenised (hend : EndsAt mem L) (h : Parsing mem L s starts words)
    (hbuf : s.buf = L) :
    words = runs (slice mem 0 L) ∧ Tokenised (s.setArgv none) words := by
  have hall := h.all
  rw [hbuf, slice_self, runs_nil, List.append_nil] at hall
  have hlen : starts.length = words.length := h.found.length_eq
  have hargc : (s.setArgv none).argc = words.length := h.argc.trans hlen
  refine ⟨hall, hargc, fun i hi => ?_, ?_⟩
  · have hi' : i < starts.length := by omega
    refine ⟨starts[i], ?_, ?_⟩
    · change Function.update s.argv s.argc none i = _
      rw [Function.update_of_ne (by rw [h.argc]; omega), h.argv i hi']
    · change IsString s.mem _ _
      rw [h.memory, hbuf]
      exact (h.found.get hi' hi).isString hend
  · exact Function.update_self ..

/-- **`runcmd` cuts the buffer into its words.** -/
theorem runcmd_tokenises (mem : ℕ → BitVec 8) (L : ℕ) (argv : ℕ → Option ℕ) (fuel : ℕ)
    (hend : EndsAt mem L) (hfuel : L < fuel) :
    ∃ res s, runcmd fuel mem argv = some (res, s) ∧ UsesInside L s ∧
      ((runs (slice mem 0 L)).length ≤ MAXARGS - 1 →
        Tokenised s (runs (slice mem 0 L)) ∧ res = dispatch (runs (slice mem 0 L))) ∧
      (MAXARGS - 1 < (runs (slice mem 0 L)).length →
        res = .tooMany ∧ ∀ func, res.ret func = 0) := by
  obtain ⟨ok, s, starts, words, hparse, h, hok, hno⟩ :=
    parseArgs_ok hend fuel fuel (parsing_init mem L argv) hfuel (by
      change L < 0 + fuel
      omega)
  have hlen : starts.length = words.length := h.found.length_eq
  have hlt := h.argc_lt
  have hargc := h.argc
  simp only [runcmd, hparse, Option.bind_eq_bind, Option.bind_some]
  cases ok with
  | false =>
    obtain ⟨hmax, hrest⟩ := hno rfl
    have hmany : MAXARGS - 1 < (runs (slice mem 0 L)).length := by
      rw [← h.all, List.length_append]
      have hpos := List.length_pos_iff.2 hrest
      omega
    exact ⟨_, _, rfl, h.bounds, fun hc => by omega, fun _ => ⟨rfl, fun _ => rfl⟩⟩
  | true =>
    obtain ⟨hwords, htok⟩ := h.tokenised hend (hok rfl)
    have hb : UsesInside L (s.setArgv none) := h.bounds.setArgv hlt none
    rw [← hwords]
    have hfew : ¬ MAXARGS - 1 < words.length := by
      unfold MAXARGS at *
      omega
    have hargc' : (s.setArgv none).argc = words.length := htok.argc
    simp only [Bool.not_true, Bool.false_eq_true, if_false, hargc']
    cases words with
    | nil => exact ⟨_, _, rfl, hb, fun _ => ⟨htok, rfl⟩, fun hc => (hfew hc).elim⟩
    | cons w ws =>
      obtain ⟨p, ps, hrun, -, rfl⟩ := List.forall₂_cons_right_iff.1 h.found
      obtain ⟨p', hargv, hstr⟩ := htok.argv 0 (Nat.succ_pos _)
      change IsString _ p' w at hstr
      obtain rfl : p = p' := by
        have hp : (s.setArgv none).argv 0 = some p := by
          change Function.update s.argv s.argc none 0 = some p
          rw [Function.update_of_ne (by rw [hargc]; simp), h.argv 0 (Nat.succ_pos _)]
          rfl
        exact Option.some.inj (hp.symm.trans hargv)
      obtain ⟨reads, uses, hlook, hb'⟩ :=
        lookup_ok commands (by decide) hargv hstr hrun.le hb
      rw [List.length_cons, if_neg (Nat.succ_ne_zero _), hlook]
      simp only [Option.bind_some, dispatch]
      cases commands.find? (·.1 = w) with
      | some c =>
        exact ⟨_, _, rfl, hb', fun _ => ⟨⟨htok.argc, htok.argv, htok.null⟩, rfl⟩,
          fun hc => (hfew hc).elim⟩
      | none =>
        obtain ⟨reads', hprint, hreads⟩ := printArg_ok (L := L)
          (s := { s.setArgv none with reads := reads, argvUses := uses ++ [0] }) fuel hstr hrun.le
          hb'.useArgv (by have := hrun.le; omega)
        simp only [Option.map_none, hargv, Option.bind_some, hprint]
        exact ⟨_, _, rfl, ⟨hreads, hb'.writes, hb'.useArgv.argvUses⟩,
          fun _ => ⟨⟨htok.argc, htok.argv, htok.null⟩, rfl⟩, fun hc => (hfew hc).elim⟩

end Parser

/-- A command line with two words. -/
def helpLine : ℕ → BitVec 8 := fun i => (asciiBytes " help  me").getD i 0#8

theorem runcmd_tokenises_help : EndsAt helpLine 9 ∧ 9 < 10 ∧
    ∃ res s, runcmd 10 helpLine (fun _ => none) = some (res, s) ∧ UsesInside 9 s ∧
      Tokenised s [asciiBytes "help", asciiBytes "me"] ∧ res = .invoked .help := by
  have hend : EndsAt helpLine 9 := ⟨by decide, by decide⟩
  have hruns : runs (slice helpLine 0 9) = [asciiBytes "help", asciiBytes "me"] := by decide
  obtain ⟨res, s, hrun, hb, hfew, -⟩ :=
    runcmd_tokenises helpLine 9 (fun _ => none) 10 hend (by decide)
  rw [hruns] at hfew
  obtain ⟨htok, hres⟩ := hfew (by decide)
  exact ⟨hend, by decide, res, s, hrun, hb, htok, hres⟩

end Jos
