import Jos.Mmu

/-!
# Reading a line

`readline` (`lib/readline.c`) collects characters in a buffer of `BUFLEN` bytes until the line ends.
The branches of its loop test the character and the fill level together, so that a character whose
first test fails is tried again further down.

**The edits** (`edited`). A character from the space on is appended while there is room, a backspace
or DEL removes the last one, and everything else is ignored.

**Theorem (`readline_edits_iff`).** `readline` returns the edited line exactly if no DEL is left in
it. DEL (code 127) is not below the space: on an empty line it does not remove anything and is
appended instead. It goes away when the line is emptied again.

`getchar` returns a byte, or a negative number. The prompt and the message for an error are left
out.
-/

namespace Jos

/-! ## The program -/

def BUFLEN : ℕ := 1024

/-- The buffer and the index, with what has been echoed and where the buffer has been written. -/
structure ReadBuf where
  i : ℕ
  buf : ℕ → BitVec 8
  echo : List Int
  writes : List ℕ

/-- `cputchar`, if the console echoes. -/
def ReadBuf.cputchar (r : ReadBuf) (echoing : Bool) (c : Int) : ReadBuf :=
  if echoing then { r with echo := r.echo ++ [c] } else r

/-- `buf[i] = c`. -/
def ReadBuf.store (r : ReadBuf) (c : Int) : ReadBuf :=
  { r with buf := Function.update r.buf r.i (BitVec.ofInt 8 c), writes := r.writes ++ [r.i] }

/-- Waiting for a character, or returned: `NULL` or the buffer. -/
inductive Readline
  | waiting (r : ReadBuf)
  | null
  | line (r : ReadBuf)

/-- One round of the loop. -/
def readlineStep (echoing : Bool) (r : ReadBuf) (c : Int) : Readline :=
  if c < 0 then .null
  else if (c = 8 ∨ c = 127) ∧ 0 < r.i then
    let r := r.cputchar echoing 8
    .waiting { r with i := r.i - 1 }
  else if 32 ≤ c ∧ r.i < BUFLEN - 1 then
    let r := (r.cputchar echoing c).store c
    .waiting { r with i := r.i + 1 }
  else if c = 10 ∨ c = 13 then .line ((r.cputchar echoing 10).store 0)
  else .waiting r

/-- The loop, on what `getchar` returns. -/
def readlineLoop (echoing : Bool) : ReadBuf → List Int → Readline
  | r, [] => .waiting r
  | r, c :: input =>
    match readlineStep echoing r c with
    | .waiting r => readlineLoop echoing r input
    | result => result

/-- `readline`, with what the buffer holds from the last call. -/
def readline (echoing : Bool) (buf : ℕ → BitVec 8) (input : List Int) : Readline :=
  readlineLoop echoing ⟨0, buf, [], []⟩ input

/-- The buffer as a C string. -/
def ReadBuf.str (r : ReadBuf) : List (BitVec 8) :=
  ((List.range BUFLEN).map r.buf).takeWhile (· ≠ 0#8)

/-! ## The edits -/

/-- Backspace or DEL. -/
def Erases (c : BitVec 8) : Prop := c = 8#8 ∨ c = 127#8

instance (c : BitVec 8) : Decidable (Erases c) := by unfold Erases; infer_instance

/-- What a character should do to the line. -/
def edit (line : List (BitVec 8)) (c : BitVec 8) : List (BitVec 8) :=
  if Erases c then line.dropLast
  else if 32 ≤ c.toNat ∧ line.length < BUFLEN - 1 then line ++ [c]
  else line

def edited (chars : List (BitVec 8)) : List (BitVec 8) := chars.foldl edit []

/-- The number of characters on the line, DELs included. -/
def held (chars : List (BitVec 8)) : ℕ :=
  chars.foldl (fun n c => if Erases c ∧ 0 < n then n - 1
    else if 32 ≤ c.toNat ∧ n < BUFLEN - 1 then n + 1 else n) 0

/-- A DEL came when the line was empty, and it has not been empty since. -/
def DelLeft (chars : List (BitVec 8)) : Prop :=
  ∃ pre post, chars = pre ++ 127#8 :: post ∧ held pre = 0 ∧
    ∀ q, q <+: post → held (pre ++ 127#8 :: q) ≠ 0

/-! ## The line in the buffer -/

/-- What `readline` does to the line. -/
def typed (line : List (BitVec 8)) (c : BitVec 8) : List (BitVec 8) :=
  if Erases c ∧ line ≠ [] then line.dropLast
  else if 32 ≤ c.toNat ∧ line.length < BUFLEN - 1 then line ++ [c]
  else line

/-- The buffer holds the line, and has not been written outside. -/
structure ReadBuf.Holds (r : ReadBuf) (line : List (BitVec 8)) : Prop where
  i : r.i = line.length
  buf : (List.range line.length).map r.buf = line
  lt : line.length < BUFLEN
  writes : ∀ j ∈ r.writes, j < BUFLEN
  nonzero : ∀ c ∈ line, c ≠ 0#8

variable {r : ReadBuf} {line ref chars : List (BitVec 8)} {c : BitVec 8}

/-- What `getchar` returns for a character. -/
def charInt (c : BitVec 8) : Int := c.toNat

theorem charInt_eq_iff (c : BitVec 8) {k : ℕ} (hk : k < 256) :
    charInt c = k ↔ c = BitVec.ofNat 8 k := by
  unfold charInt
  rw [Nat.cast_inj, ← BitVec.toNat_inj, BitVec.toNat_ofNat, Nat.mod_eq_of_lt hk]

theorem erases_iff : charInt c = 8 ∨ charInt c = 127 ↔ Erases c :=
  or_congr (charInt_eq_iff c (k := 8) (by decide)) (charInt_eq_iff c (k := 127) (by decide))

theorem ofInt_charInt (c : BitVec 8) : BitVec.ofInt 8 (charInt c) = c := by
  unfold charInt
  rw [BitVec.ofInt_natCast, BitVec.ofNat_toNat, BitVec.setWidth_eq]

@[simp] theorem ReadBuf.cputchar_i (r : ReadBuf) (echoing : Bool) (c : Int) :
    (r.cputchar echoing c).i = r.i := by
  cases echoing <;> rfl

theorem ReadBuf.Holds.cputchar (h : r.Holds line) (echoing : Bool) (c : Int) :
    (r.cputchar echoing c).Holds line := by
  cases echoing
  · exact h
  · exact ⟨h.i, h.buf, h.lt, h.writes, h.nonzero⟩

theorem ReadBuf.Holds.dropLast (h : r.Holds line) :
    ReadBuf.Holds { r with i := r.i - 1 } line.dropLast := by
  have hlen : line.dropLast.length = line.length - 1 := List.length_dropLast
  refine ⟨?_, ?_, ?_, h.writes, fun c hc => h.nonzero c (List.mem_of_mem_dropLast hc)⟩
  · rw [hlen, ← h.i]
  · calc (List.range line.dropLast.length).map r.buf
        = ((List.range line.length).dropLast).map r.buf := by
          rw [hlen]
          cases line.length <;> simp [List.range_succ]
      _ = line.dropLast := by rw [List.map_dropLast, h.buf]
  · have := h.lt
    omega

theorem map_update_length (buf : ℕ → BitVec 8) (n : ℕ) (b : BitVec 8) :
    (List.range n).map (Function.update buf n b) = (List.range n).map buf := by
  apply List.map_congr_left
  intro j hj
  exact Function.update_of_ne (List.mem_range.1 hj).ne b buf

theorem ReadBuf.Holds.append (h : r.Holds line) (hlt : line.length < BUFLEN - 1) (hc : c ≠ 0#8) :
    ReadBuf.Holds { r.store (charInt c) with i := (r.store (charInt c)).i + 1 } (line ++ [c]) := by
  have hlen : (line ++ [c]).length = line.length + 1 := List.length_append
  refine ⟨?_, ?_, ?_, ?_, ?_⟩
  · rw [hlen, ← h.i]
    rfl
  · rw [hlen, List.range_succ, List.map_append]
    simp only [ReadBuf.store, h.i, ofInt_charInt, map_update_length, h.buf, List.map_cons,
      List.map_nil, Function.update_self]
  · omega
  · intro j hj
    rcases List.mem_append.1 hj with hj | hj
    · exact h.writes j hj
    · rw [List.mem_singleton.1 hj, h.i]
      exact h.lt
  · intro b hb
    rcases List.mem_append.1 hb with hb | hb
    · exact h.nonzero b hb
    · rw [List.mem_singleton.1 hb]
      exact hc

theorem readlineStep_char (echoing : Bool) (h : r.Holds line) (hc : c ≠ 10#8 ∧ c ≠ 13#8) :
    ∃ r', readlineStep echoing r (charInt c) = .waiting r' ∧ r'.Holds (typed line c) := by
  have hneg : ¬ charInt c < 0 := by unfold charInt; omega
  have hspace : (32 : Int) ≤ charInt c ↔ 32 ≤ c.toNat := by unfold charInt; omega
  have hend : ¬ (charInt c = 10 ∨ charInt c = 13) := by
    rintro (he | he)
    · exact hc.1 ((charInt_eq_iff c (k := 10) (by decide)).1 he)
    · exact hc.2 ((charInt_eq_iff c (k := 13) (by decide)).1 he)
  unfold readlineStep typed
  simp only [if_neg hneg, erases_iff, hspace, h.i, List.length_pos_iff, if_neg hend]
  by_cases hdel : Erases c ∧ line ≠ []
  · rw [if_pos hdel, if_pos hdel]
    exact ⟨_, rfl, (h.cputchar echoing 8).dropLast⟩
  rw [if_neg hdel, if_neg hdel]
  by_cases happ : 32 ≤ c.toNat ∧ line.length < BUFLEN - 1
  · rw [if_pos happ, if_pos happ]
    have hne : c ≠ 0#8 := by
      rintro rfl
      exact absurd happ.1 (by decide)
    exact ⟨_, rfl, (h.cputchar echoing (charInt c)).append happ.2 hne⟩
  · rw [if_neg happ, if_neg happ]
    exact ⟨r, rfl, h⟩

theorem readlineLoop_chars (echoing : Bool) (chars : List (BitVec 8)) (rest : List Int)
    (h : r.Holds line) (hchars : ∀ c ∈ chars, c ≠ 10#8 ∧ c ≠ 13#8) :
    ∃ r', readlineLoop echoing r (chars.map charInt ++ rest) = readlineLoop echoing r' rest ∧
      r'.Holds (chars.foldl typed line) := by
  induction chars generalizing r line with
  | nil => exact ⟨r, rfl, h⟩
  | cons c chars ih =>
    obtain ⟨hc, hchars⟩ := List.forall_mem_cons.1 hchars
    obtain ⟨r₁, hstep, h₁⟩ := readlineStep_char echoing h hc
    obtain ⟨r', hloop, h'⟩ := ih h₁ hchars
    refine ⟨r', ?_, h'⟩
    rw [← hloop, List.map_cons, List.cons_append, readlineLoop, hstep]

/-- A line with a zero behind it, read as a string. -/
theorem ReadBuf.Holds.str (h : r.Holds line) : (r.store 0).str = line := by
  have hsplit : List.range BUFLEN =
      List.range line.length ++ line.length :: (List.range (BUFLEN - line.length - 1)).map
        fun j => line.length + 1 + j := by
    have hlt := h.lt
    rw [show BUFLEN = line.length + (1 + (BUFLEN - line.length - 1)) by omega, List.range_add,
      List.range_add, List.map_append, List.map_map]
    simp [Nat.add_assoc]
  unfold ReadBuf.str ReadBuf.store
  simp only [h.i]
  rw [hsplit, List.map_append, map_update_length, h.buf, List.map_cons, Function.update_self]
  rw [List.takeWhile_append_of_pos fun c hc => by simpa using h.nonzero c hc]
  simp

theorem readlineLoop_end (echoing : Bool) {nl : BitVec 8} (rest : List Int) (h : r.Holds line)
    (hnl : nl = 10#8 ∨ nl = 13#8) :
    ∃ r', readlineLoop echoing r (charInt nl :: rest) = .line r' ∧ (∀ j ∈ r'.writes, j < BUFLEN) ∧
      r'.str = line := by
  have hr := h.cputchar echoing 10
  have hstep : readlineStep echoing r (charInt nl) = .line ((r.cputchar echoing 10).store 0) := by
    rcases hnl with rfl | rfl <;> rfl
  refine ⟨_, ?_, ?_, hr.str⟩
  · rw [readlineLoop, hstep]
  · intro j hj
    rcases List.mem_append.1 hj with hj | hj
    · exact hr.writes j hj
    · rw [List.mem_singleton.1 hj, hr.i]
      exact h.lt

/-! ## A DEL on the line -/

/-- The line is what it should be, or starts with a DEL that should not be there. -/
structure TypedAs (line ref : List (BitVec 8)) : Prop where
  eq_or : line = ref ∨ line.head? = some 127#8
  length_le : ref.length ≤ line.length
  noDel : 127#8 ∉ ref

theorem head?_dropLast_of_ne {line : List (BitVec 8)} (h : line.dropLast ≠ []) :
    line.dropLast.head? = line.head? := by
  cases line with
  | nil => exact (h rfl).elim
  | cons b line =>
    cases line with
    | nil => exact (h rfl).elim
    | cons b' line => rfl

theorem TypedAs.step (h : TypedAs line ref) (c : BitVec 8) :
    TypedAs (typed line c) (edit ref c) := by
  have hle := h.length_le
  have hlen : ∀ l : List (BitVec 8), l.dropLast.length = l.length - 1 :=
    fun l => List.length_dropLast
  unfold typed edit
  by_cases hdel : Erases c
  · rw [if_pos hdel]
    have hno : 127#8 ∉ ref.dropLast := fun hmem => h.noDel (List.mem_of_mem_dropLast hmem)
    by_cases hempty : line = []
    · -- backspace is ignored, and DEL is appended
      have href : ref = [] := List.length_eq_zero_iff.1 (by rw [hempty] at hle; simpa using hle)
      subst hempty href
      rw [if_neg (by simp)]
      rcases hdel with rfl | rfl
      · exact ⟨.inl rfl, le_refl _, List.not_mem_nil⟩
      · exact ⟨.inr rfl, Nat.zero_le _, List.not_mem_nil⟩
    · rw [if_pos ⟨hdel, hempty⟩]
      refine ⟨?_, by rw [hlen, hlen]; omega, hno⟩
      rcases h.eq_or with heq | hhead
      · exact .inl (congrArg _ heq)
      by_cases hnil : line.dropLast = []
      · -- the line is empty again, and so is the other
        left
        have hzero := hlen line
        rw [hnil] at hzero ⊢
        refine (List.length_eq_zero_iff.1 ?_).symm
        rw [hlen]
        simp only [List.length_nil] at hzero
        omega
      · exact .inr ((head?_dropLast_of_ne hnil).trans hhead)
  · rw [if_neg hdel, if_neg fun hc => hdel hc.1]
    have hc : c ≠ 127#8 := fun hc => hdel (.inr hc)
    have hno : 127#8 ∉ ref ++ [c] := by
      rw [List.mem_append, List.mem_singleton]
      exact fun hmem => hmem.elim h.noDel fun he => hc he.symm
    by_cases happ : 32 ≤ c.toNat ∧ line.length < BUFLEN - 1
    · rw [if_pos happ, if_pos ⟨happ.1, by omega⟩]
      refine ⟨?_, by simpa using hle, hno⟩
      refine h.eq_or.imp (fun heq => by rw [heq]) fun hhead => ?_
      rw [List.head?_append, hhead]
      rfl
    rw [if_neg happ]
    by_cases happ' : 32 ≤ c.toNat ∧ ref.length < BUFLEN - 1
    · -- only the other line has room: the DEL takes its place here
      rw [if_pos happ']
      have hroom : ref.length < line.length := by
        by_contra hno
        exact happ ⟨happ'.1, by omega⟩
      refine ⟨.inr (h.eq_or.resolve_left fun heq => ?_), by simpa using hroom, hno⟩
      rw [heq] at hroom
      exact lt_irrefl _ hroom
    · rw [if_neg happ']
      exact h

theorem typedAs_foldl (chars : List (BitVec 8)) :
    TypedAs (chars.foldl typed []) (edited chars) := by
  induction chars using List.reverseRecOn with
  | nil => exact ⟨.inl rfl, le_refl _, List.not_mem_nil⟩
  | append_singleton chars c ih =>
    rw [edited, List.foldl_append, List.foldl_append]
    exact ih.step c

theorem held_eq (chars : List (BitVec 8)) : held chars = (chars.foldl typed []).length := by
  induction chars using List.reverseRecOn with
  | nil => rfl
  | append_singleton chars c ih =>
    rw [held, List.foldl_append, List.foldl_append]
    change (if Erases c ∧ 0 < held chars then held chars - 1
      else if 32 ≤ c.toNat ∧ held chars < BUFLEN - 1 then held chars + 1 else held chars) =
        (typed (chars.foldl typed []) c).length
    simp only [ih, typed, List.length_pos_iff]
    split_ifs
    · rw [List.length_dropLast]
    · rw [List.length_append, List.length_singleton]
    · rfl

theorem delLeft_append_singleton (chars : List (BitVec 8)) (c : BitVec 8) :
    DelLeft (chars ++ [c]) ↔
      (held chars = 0 ∧ c = 127#8 ∨ DelLeft chars) ∧ held (chars ++ [c]) ≠ 0 := by
  constructor
  · rintro ⟨pre, post, heq, hpre, hpost⟩
    have hlast : held (chars ++ [c]) ≠ 0 := heq ▸ hpost post (List.prefix_refl post)
    refine ⟨?_, hlast⟩
    cases post using List.reverseRecOn with
    | nil =>
      obtain ⟨rfl, hc⟩ := List.append_inj' heq rfl
      exact .inl ⟨hpre, by simpa using hc⟩
    | append_singleton post b _ =>
      right
      rw [← List.cons_append, ← List.append_assoc] at heq
      obtain ⟨rfl, -⟩ := List.append_inj' heq rfl
      exact ⟨pre, post, rfl, hpre, fun q hq => hpost q (hq.trans (List.prefix_append post [b]))⟩
  · rintro ⟨⟨hpre, rfl⟩ | ⟨pre, post, rfl, hpre, hpost⟩, hlast⟩
    · refine ⟨chars, [], rfl, hpre, fun q hq => ?_⟩
      rw [List.prefix_nil.1 hq]
      exact hlast
    · refine ⟨pre, post ++ [c], by simp, hpre, fun q hq => ?_⟩
      rcases List.prefix_concat_iff.1 hq with rfl | hq
      · simpa using hlast
      · exact hpost q hq

theorem typed_head? (line : List (BitVec 8)) (c : BitVec 8) :
    (typed line c).head? = some 127#8 ↔
      (line.length = 0 ∧ c = 127#8 ∨ line.head? = some 127#8) ∧ (typed line c).length ≠ 0 := by
  unfold typed
  by_cases hempty : line = []
  · subst hempty
    rw [if_neg (by simp)]
    by_cases happ : 32 ≤ c.toNat ∧ ([] : List (BitVec 8)).length < BUFLEN - 1
    · rw [if_pos happ]
      simp
    · rw [if_neg happ]
      simp
  have hlen : line.length ≠ 0 := fun h => hempty (List.length_eq_zero_iff.1 h)
  split_ifs with hdel happ
  · by_cases hnil : line.dropLast = []
    · rw [hnil]
      simp
    · rw [head?_dropLast_of_ne hnil]
      have hne : line.dropLast.length ≠ 0 := fun h => hnil (List.length_eq_zero_iff.1 h)
      exact ⟨fun h => ⟨.inr h, hne⟩, fun h => h.1.resolve_left fun h => hlen h.1⟩
  · have hhead : (line ++ [c]).head? = line.head? := by
      cases line with
      | nil => exact (hempty rfl).elim
      | cons b line => rfl
    rw [hhead]
    exact ⟨fun h => ⟨.inr h, by simp⟩, fun h => h.1.resolve_left fun h => hlen h.1⟩
  · exact ⟨fun h => ⟨.inr h, hlen⟩, fun h => h.1.resolve_left fun h => hlen h.1⟩

theorem delLeft_iff (chars : List (BitVec 8)) :
    DelLeft chars ↔ (chars.foldl typed []).head? = some 127#8 := by
  induction chars using List.reverseRecOn with
  | nil =>
    constructor
    · rintro ⟨pre, post, heq, -⟩
      simp at heq
    · intro h
      cases h
  | append_singleton chars c ih =>
    rw [delLeft_append_singleton, ih, held_eq, held_eq, List.foldl_append]
    exact (typed_head? _ c).symm

/-! ## The result -/

/-- **`readline` returns the edited line** exactly if no DEL is left in it. -/
theorem readline_edits_iff (echoing : Bool) (buf : ℕ → BitVec 8) (chars : List (BitVec 8))
    (nl : BitVec 8) (rest : List Int) (hchars : ∀ c ∈ chars, c ≠ 10#8 ∧ c ≠ 13#8)
    (hnl : nl = 10#8 ∨ nl = 13#8) :
    ∃ r, readline echoing buf (chars.map charInt ++ charInt nl :: rest) = .line r ∧
      (∀ j ∈ r.writes, j < BUFLEN) ∧ (r.str = edited chars ↔ ¬ DelLeft chars) := by
  have hinit : ReadBuf.Holds ⟨0, buf, [], []⟩ [] :=
    ⟨rfl, rfl, by decide, fun _ hj => (List.not_mem_nil hj).elim, fun _ hc =>
      (List.not_mem_nil hc).elim⟩
  obtain ⟨r₁, hloop, h₁⟩ :=
    readlineLoop_chars echoing chars (charInt nl :: rest) hinit hchars
  obtain ⟨r, hend, hwrites, hstr⟩ := readlineLoop_end echoing rest h₁ hnl
  refine ⟨r, hloop.trans hend, hwrites, ?_⟩
  have htyped := typedAs_foldl chars
  rw [hstr, delLeft_iff]
  refine ⟨fun heq hhead => htyped.noDel ?_, fun hhead => htyped.eq_or.resolve_right hhead⟩
  rw [← heq]
  exact List.mem_of_mem_head? hhead

/-- `a`, `b`, a backspace, DEL, `c` and a newline. -/
theorem readline_edits_abc :
    (∀ c ∈ [97#8, 98#8, 8#8, 127#8, 99#8], c ≠ 10#8 ∧ c ≠ 13#8) ∧ (10#8 = 10#8 ∨ 10#8 = 13#8) ∧
    ∃ r, readline true (fun _ => 0#8)
    ([97#8, 98#8, 8#8, 127#8, 99#8].map charInt ++ [charInt 10#8]) =
        .line r ∧ (∀ j ∈ r.writes, j < BUFLEN) ∧
      (r.str = edited [97#8, 98#8, 8#8, 127#8, 99#8] ↔ ¬ DelLeft [97#8, 98#8, 8#8, 127#8, 99#8]) :=
  ⟨by decide, .inl rfl,
    readline_edits_iff true (fun _ => 0#8) [97#8, 98#8, 8#8, 127#8, 99#8] 10#8 []
    (by decide) (.inl rfl)⟩

/-- DEL on an empty line is part of the line. -/
theorem readline_keeps_del : ∃ r, readline true (fun _ => 0#8) [127, 10] = .line r ∧
    r.str = [127#8] ∧ edited [127#8] = [] := by
  refine ⟨_, rfl, ?_, by decide⟩
  have hinit : ReadBuf.Holds ⟨1, Function.update (fun _ => 0#8) 0 127#8, [127, 10], [0]⟩ [127#8] :=
    ⟨rfl, by decide, by decide, by decide, by decide⟩
  exact hinit.str

end Jos
