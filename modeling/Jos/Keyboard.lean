import Jos.ConsoleInput

/-!
# The keyboard

The keyboard sends one byte for a key that goes down and one for a key that comes up, some of them
after an escape byte `E0`. `kbd_proc_data` (`kern/console.c`) keeps the modifiers in the bits of a
static word and returns the character of the byte, or zero.

**The model.** `kbdProcData` takes the byte and the word. The controller may split what it has at
any byte: the bytes of one key may come with two interrupts.

**Theorem (`typed_read`).** A typist's view knows no word and no escape: a modifier is in effect if
the last thing that happened to one of its keys is a press (`InEffect`), a lock if its key has been
pressed an odd number of times. For every run of keyboard interrupts, serial interrupts and calls of
`cons_getc`, what is read is what has been typed.
-/

namespace Jos

open Lib

/-! ## Tables -/

def SHIFT : BitVec 8 := 1#8 <<< 0
def CTL : BitVec 8 := 1#8 <<< 1
def ALT : BitVec 8 := 1#8 <<< 2
def CAPSLOCK : BitVec 8 := 1#8 <<< 3
def NUMLOCK : BitVec 8 := 1#8 <<< 4
def SCROLLLOCK : BitVec 8 := 1#8 <<< 5
def E0ESC : BitVec 8 := 1#8 <<< 6

def KEY_HOME : BitVec 8 := 0xE0
def KEY_END : BitVec 8 := 0xE1
def KEY_UP : BitVec 8 := 0xE2
def KEY_DN : BitVec 8 := 0xE3
def KEY_LF : BitVec 8 := 0xE4
def KEY_RT : BitVec 8 := 0xE5
def KEY_PGUP : BitVec 8 := 0xE6
def KEY_PGDN : BitVec 8 := 0xE7
def KEY_INS : BitVec 8 := 0xE8
def KEY_DEL : BitVec 8 := 0xE9

def shiftcode (data : BitVec 8) : BitVec 8 :=
  if data = 0x1D#8 then CTL
  else if data = 0x2A#8 then SHIFT
  else if data = 0x36#8 then SHIFT
  else if data = 0x38#8 then ALT
  else if data = 0x9D#8 then CTL
  else if data = 0xB8#8 then ALT
  else 0#8

def togglecode (data : BitVec 8) : BitVec 8 :=
  if data = 0x3A#8 then CAPSLOCK
  else if data = 0x45#8 then NUMLOCK
  else if data = 0x46#8 then SCROLLLOCK
  else 0#8

/-- An array with the characters of its first rows and some entries by their index; the others are
zero. -/
def keyTable (rows : List Char) (entries : List (BitVec 8 × BitVec 8)) (data : BitVec 8) :
    BitVec 8 :=
  match entries.lookup data with
  | some c => c
  | none => BitVec.ofNat 8 (rows.getD data.toNat '\x00').toNat

/-- The entries that `normalmap` and `shiftmap` give by their index. -/
def keypad : List (BitVec 8 × BitVec 8) :=
  [(0xC7, KEY_HOME), (0x9C, 0x0A), (0xB5, 0x2F), (0xC8, KEY_UP), (0xC9, KEY_PGUP), (0xCB, KEY_LF),
    (0xCD, KEY_RT), (0xCF, KEY_END), (0xD0, KEY_DN), (0xD1, KEY_PGDN), (0xD2, KEY_INS),
    (0xD3, KEY_DEL)]

def normalmap : BitVec 8 → BitVec 8 := keyTable
  ['\x00', '\x1B', '1', '2', '3', '4', '5', '6',
    '7', '8', '9', '0', '-', '=', '\x08', '\t',
    'q', 'w', 'e', 'r', 't', 'y', 'u', 'i',
    'o', 'p', '[', ']', '\n', '\x00', 'a', 's',
    'd', 'f', 'g', 'h', 'j', 'k', 'l', ';',
    '\x27', '\x60', '\x00', '\x5c', 'z', 'x', 'c', 'v',
    'b', 'n', 'm', ',', '.', '/', '\x00', '*',
    '\x00', ' ', '\x00', '\x00', '\x00', '\x00', '\x00', '\x00',
    '\x00', '\x00', '\x00', '\x00', '\x00', '\x00', '\x00', '7',
    '8', '9', '-', '4', '5', '6', '+', '1',
    '2', '3', '0', '.', '\x00', '\x00', '\x00', '\x00'] keypad

def shiftmap : BitVec 8 → BitVec 8 := keyTable
  ['\x00', '\x1B', '!', '@', '#', '$', '%', '^',
    '&', '*', '(', ')', '_', '+', '\x08', '\t',
    'Q', 'W', 'E', 'R', 'T', 'Y', 'U', 'I',
    'O', 'P', '\x7b', '\x7d', '\n', '\x00', 'A', 'S',
    'D', 'F', 'G', 'H', 'J', 'K', 'L', ':',
    '\x22', '~', '\x00', '|', 'Z', 'X', 'C', 'V',
    'B', 'N', 'M', '<', '>', '?', '\x00', '*',
    '\x00', ' ', '\x00', '\x00', '\x00', '\x00', '\x00', '\x00',
    '\x00', '\x00', '\x00', '\x00', '\x00', '\x00', '\x00', '7',
    '8', '9', '-', '4', '5', '6', '+', '1',
    '2', '3', '0', '.', '\x00', '\x00', '\x00', '\x00'] keypad

/-- The macro `C`, at its length of a byte: `C ('/')` is negative. -/
def ctlChar (x : Char) : Char :=
  Char.ofNat (BitVec.ofNat 8 x.toNat - BitVec.ofNat 8 '@'.toNat).toNat

/-- Home is given with the index `97` here. -/
def ctlmap : BitVec 8 → BitVec 8 := keyTable
  ['\x00', '\x00', '\x00', '\x00', '\x00', '\x00', '\x00', '\x00',
    '\x00', '\x00', '\x00', '\x00', '\x00', '\x00', '\x00', '\x00',
    ctlChar 'Q', ctlChar 'W', ctlChar 'E', ctlChar 'R', ctlChar 'T', ctlChar 'Y', ctlChar 'U',
    ctlChar 'I', ctlChar 'O', ctlChar 'P', '\x00', '\x00', '\r', '\x00', ctlChar 'A', ctlChar 'S',
    ctlChar 'D', ctlChar 'F', ctlChar 'G', ctlChar 'H', ctlChar 'J', ctlChar 'K',
    ctlChar 'L', '\x00', '\x00', '\x00', '\x00', ctlChar '\x5c', ctlChar 'Z', ctlChar 'X',
    ctlChar 'C', ctlChar 'V', ctlChar 'B', ctlChar 'N', ctlChar 'M', '\x00', '\x00', ctlChar '/',
    '\x00', '\x00']
  [(0x97, KEY_HOME), (0xB5, BitVec.ofNat 8 (ctlChar '/').toNat), (0xC8, KEY_UP), (0xC9, KEY_PGUP),
    (0xCB, KEY_LF), (0xCD, KEY_RT), (0xCF, KEY_END), (0xD0, KEY_DN), (0xD1, KEY_PGDN),
    (0xD2, KEY_INS), (0xD3, KEY_DEL)]

/-- `charcode`, with the modifiers `CTL | SHIFT` as its index. -/
def charcode (i : BitVec 32) : BitVec 8 → BitVec 8 :=
  if i = 0#32 then normalmap else if i = 1#32 then shiftmap else ctlmap

/-- What `CAPSLOCK` does to a character. -/
def swapCase (c : BitVec 8) : BitVec 8 :=
  if 0x61#8 ≤ c ∧ c ≤ 0x7A#8 then c - 0x20#8
  else if 0x41#8 ≤ c ∧ c ≤ 0x5A#8 then c + 0x20#8
  else c

/-! ## The driver -/

/-- What a call returns, the static `shift` after it, and whether it has written the reset port. -/
structure KbdResult where
  c : BitVec 8
  shift : BitVec 32
  reboot : Bool
  deriving DecidableEq, Repr

/-- `kbd_proc_data` with a byte of the controller. -/
def kbdProcData (shift : BitVec 32) (data : BitVec 8) : KbdResult :=
  if data = 0xE0#8 then ⟨0#8, shift ||| E0ESC.setWidth 32, false⟩
  else if data &&& 0x80#8 ≠ 0#8 then
    let data := if shift &&& E0ESC.setWidth 32 ≠ 0#32 then data else data &&& 0x7F#8
    ⟨0#8, shift &&& ~~~(shiftcode data ||| E0ESC).setWidth 32, false⟩
  else
    let escaped := shift &&& E0ESC.setWidth 32 ≠ 0#32
    let data := if escaped then data ||| 0x80#8 else data
    let shift := if escaped then shift &&& ~~~E0ESC.setWidth 32 else shift
    let shift := shift ||| (shiftcode data).setWidth 32
    let shift := shift ^^^ (togglecode data).setWidth 32
    let c := charcode (shift &&& (CTL ||| SHIFT).setWidth 32) data
    let c := if shift &&& CAPSLOCK.setWidth 32 ≠ 0#32 then swapCase c else c
    ⟨c, shift, decide (~~~shift &&& (CTL ||| ALT).setWidth 32 = 0#32 ∧ c = KEY_DEL)⟩

/-- The calls of `kbd_proc_data` for the bytes that the controller has. -/
def kbdBurst (shift : BitVec 32) : List (BitVec 8) → List KbdResult
  | [] => []
  | data :: rest => kbdProcData shift data :: kbdBurst (kbdProcData shift data).shift rest

/-- `shift` after these bytes. -/
def kbdShift (shift : BitVec 32) (bytes : List (BitVec 8)) : BitVec 32 :=
  bytes.foldl (fun shift data => (kbdProcData shift data).shift) shift

/-- The characters that go into the console buffer. -/
def kbdChars (shift : BitVec 32) (bytes : List (BitVec 8)) : List (BitVec 8) :=
  ((kbdBurst shift bytes).map KbdResult.c).filter (· ≠ 0#8)

/-- The machine is reset at one of these bytes. -/
def kbdReboots (shift : BitVec 32) (bytes : List (BitVec 8)) : Bool :=
  (kbdBurst shift bytes).any KbdResult.reboot

/-! ## The typist's view -/

/-- A key: its code, and whether it is sent after the escape. A key with the code `60` would be
released by the escape itself. -/
structure Key where
  ext : Bool
  code : BitVec 8
  isCode : code < 0x80#8 ∧ code ≠ 0x60#8
  deriving DecidableEq

inductive KeyEvent
  | press (k : Key)
  | release (k : Key)
  deriving DecidableEq

def KeyEvent.key : KeyEvent → Key
  | .press k => k
  | .release k => k

def Key.escape (k : Key) : List (BitVec 8) := if k.ext then [0xE0#8] else []

/-- The bytes that the keyboard sends. -/
def KeyEvent.scan : KeyEvent → List (BitVec 8)
  | .press k => k.escape ++ [k.code]
  | .release k => k.escape ++ [k.code ||| 0x80#8]

/-- Left shift and right shift. -/
def Key.isShift (k : Key) : Bool := !k.ext && (k.code == 0x2A#8 || k.code == 0x36#8)

/-- Both control keys. -/
def Key.isCtl (k : Key) : Bool := k.code == 0x1D#8

/-- Both alternate keys. -/
def Key.isAlt (k : Key) : Bool := k.code == 0x38#8

def Key.isCapsLock (k : Key) : Bool := !k.ext && k.code == 0x3A#8

def Key.isDelete (k : Key) : Bool := k.ext && k.code == 0x53#8

/-- The entry of the tables that is the key's. -/
def Key.index (k : Key) : BitVec 8 := if k.ext then k.code ||| 0x80#8 else k.code

/-- A modifier is in effect if the last thing that happened to its keys is a press. -/
def InEffect (keys : Key → Bool) (past : List KeyEvent) : Bool :=
  match (past.filter fun ev => keys ev.key).getLast? with
  | some (.press _) => true
  | _ => false

/-- A lock is in effect if it has been pressed an odd number of times. -/
def Locked (keys : Key → Bool) (past : List KeyEvent) : Bool :=
  past.countP (fun ev => match ev with | .press k => keys k | .release _ => false) % 2 == 1

/-- The character of a key. -/
def Key.char (k : Key) (shift ctl caps : Bool) : BitVec 8 :=
  let c := (if ctl then ctlmap else if shift then shiftmap else normalmap) k.index
  if caps then swapCase c else c

/-- The character of an event, with the events up to it; zero if there is none. -/
def KeyEvent.char (past : List KeyEvent) : KeyEvent → BitVec 8
  | .press k =>
    k.char (InEffect Key.isShift past) (InEffect Key.isCtl past) (Locked Key.isCapsLock past)
  | .release _ => 0#8

/-- Delete is pressed with control and alternate. -/
def KeyEvent.reboots (past : List KeyEvent) : KeyEvent → Bool
  | .press k => k.isDelete && InEffect Key.isCtl past && InEffect Key.isAlt past
  | .release _ => false

/-- The characters of events that follow others. -/
def charsAfter (past : List KeyEvent) : List KeyEvent → List (BitVec 8)
  | [] => []
  | ev :: evs => [ev.char (past ++ [ev])].filter (· ≠ 0#8) ++ charsAfter (past ++ [ev]) evs

/-- What has been typed. -/
def typedChars (evs : List KeyEvent) : List (BitVec 8) := charsAfter [] evs

/-- The three keys have been struck at some time. -/
def Rebooted (evs : List KeyEvent) : Prop :=
  ∃ past ev rest, evs = past ++ ev :: rest ∧ ev.reboots (past ++ [ev]) = true

/-! ## The bits -/

/-- What the bits of `word` say of the modifiers. -/
structure Shows (past : List KeyEvent) (word : BitVec 32) : Prop where
  shift : word.getLsbD 0 = InEffect Key.isShift past
  ctl : word.getLsbD 1 = InEffect Key.isCtl past
  alt : word.getLsbD 2 = InEffect Key.isAlt past
  caps : word.getLsbD 3 = Locked Key.isCapsLock past

theorem inEffect_press (keys : Key → Bool) (past : List KeyEvent) (k : Key) :
    InEffect keys (past ++ [.press k]) = (InEffect keys past || keys k) := by
  unfold InEffect
  by_cases hk : keys k = true
  · have hfilter : ([KeyEvent.press k].filter fun ev => keys ev.key) = [.press k] := by
      simp [KeyEvent.key, hk]
    rw [List.filter_append, hfilter, List.getLast?_concat, hk, Bool.or_true]
  · have hfilter : ([KeyEvent.press k].filter fun ev => keys ev.key) = [] := by
      simp [KeyEvent.key, hk]
    rw [List.filter_append, hfilter, List.append_nil, Bool.eq_false_iff.2 hk, Bool.or_false]

theorem inEffect_release (keys : Key → Bool) (past : List KeyEvent) (k : Key) :
    InEffect keys (past ++ [.release k]) = (InEffect keys past && !keys k) := by
  unfold InEffect
  by_cases hk : keys k = true
  · have hfilter : ([KeyEvent.release k].filter fun ev => keys ev.key) = [.release k] := by
      simp [KeyEvent.key, hk]
    rw [List.filter_append, hfilter, List.getLast?_concat, hk, Bool.not_true, Bool.and_false]
  · have hfilter : ([KeyEvent.release k].filter fun ev => keys ev.key) = [] := by
      simp [KeyEvent.key, hk]
    rw [List.filter_append, hfilter, List.append_nil, Bool.eq_false_iff.2 hk, Bool.not_false,
      Bool.and_true]

theorem locked_press (keys : Key → Bool) (past : List KeyEvent) (k : Key) :
    Locked keys (past ++ [.press k]) = (Locked keys past ^^ keys k) := by
  unfold Locked
  rw [List.countP_append]
  by_cases hk : keys k = true
  · simp only [List.countP_singleton, hk]
    grind
  · simp only [List.countP_singleton, hk]
    grind

theorem locked_release (keys : Key → Bool) (past : List KeyEvent) (k : Key) :
    Locked keys (past ++ [.release k]) = Locked keys past := by
  simp [Locked, List.countP_append]

theorem Key.code_ne (k : Key) : k.code ≠ 0xE0#8 := by
  have hlt := k.isCode.1
  bv_omega

theorem Key.code_and (k : Key) : k.code &&& 0x80#8 = 0#8 := by
  obtain ⟨ext, code, hcode⟩ := k
  cases ext <;> revert code <;> decide

theorem Key.released_ne (k : Key) : k.code ||| 0x80#8 ≠ 0xE0#8 := by
  obtain ⟨ext, code, hcode⟩ := k
  cases ext <;> revert code <;> decide

theorem Key.released_and (k : Key) : (k.code ||| 0x80#8) &&& 0x80#8 ≠ 0#8 := by
  obtain ⟨ext, code, hcode⟩ := k
  cases ext <;> revert code <;> decide

theorem Key.released_code (k : Key) : (k.code ||| 0x80#8) &&& 0x7F#8 = k.code := by
  obtain ⟨ext, code, hcode⟩ := k
  cases ext <;> revert code <;> decide

theorem shiftcode_bits (k : Key) : (shiftcode k.index).getLsbD 0 = k.isShift ∧
    (shiftcode k.index).getLsbD 1 = k.isCtl ∧ (shiftcode k.index).getLsbD 2 = k.isAlt ∧
    (shiftcode k.index).getLsbD 3 = false ∧ (shiftcode k.index).getLsbD 6 = false := by
  obtain ⟨ext, code, hcode⟩ := k
  cases ext <;> revert code <;> decide

theorem togglecode_bits (k : Key) : (togglecode k.index).getLsbD 0 = false ∧
    (togglecode k.index).getLsbD 1 = false ∧ (togglecode k.index).getLsbD 2 = false ∧
    (togglecode k.index).getLsbD 3 = k.isCapsLock ∧ (togglecode k.index).getLsbD 6 = false := by
  obtain ⟨ext, code, hcode⟩ := k
  cases ext <;> revert code <;> decide

variable {word : BitVec 32} {past : List KeyEvent}

theorem esc_ne_zero : word &&& E0ESC.setWidth 32 ≠ 0#32 ↔ word.getLsbD 6 = true := by
  have hesc : E0ESC.setWidth 32 = BitVec.twoPow 32 6 := by decide
  have hone : BitVec.twoPow 32 6 ≠ 0#32 := by decide
  rw [hesc, BitVec.and_twoPow]
  split <;> simp_all

theorem caps_ne_zero : word &&& CAPSLOCK.setWidth 32 ≠ 0#32 ↔ word.getLsbD 3 = true := by
  have hcaps : CAPSLOCK.setWidth 32 = BitVec.twoPow 32 3 := by decide
  have hone : BitVec.twoPow 32 3 ≠ 0#32 := by decide
  rw [hcaps, BitVec.and_twoPow]
  split <;> simp_all

theorem charcode_bits :
    charcode (word &&& (CTL ||| SHIFT).setWidth 32) =
      if word.getLsbD 1 then ctlmap else if word.getLsbD 0 then shiftmap else normalmap := by
  have hmask : (CTL ||| SHIFT).setWidth 32 = 3#32 := by decide
  have hbits : word &&& 3#32 =
      (if word.getLsbD 1 then 2#32 else 0#32) ||| (if word.getLsbD 0 then 1#32 else 0#32) := by
    refine BitVec.eq_of_getLsbD_eq fun i hi => ?_
    rw [BitVec.getLsbD_and, BitVec.getLsbD_or]
    cases h1 : word.getLsbD 1 <;> cases h0 : word.getLsbD 0 <;> interval_cases i <;> simp_all
  rw [hmask, hbits, charcode]
  cases word.getLsbD 1 <;> cases word.getLsbD 0 <;> rfl

theorem both_held :
    ~~~word &&& (CTL ||| ALT).setWidth 32 = 0#32 ↔
    word.getLsbD 1 = true ∧ word.getLsbD 2 = true := by
  have hmask : (CTL ||| ALT).setWidth 32 = BitVec.twoPow 32 1 ||| BitVec.twoPow 32 2 := by decide
  rw [hmask, BitVec.and_or_distrib_left, BitVec.or_eq_zero_iff, BitVec.and_twoPow,
    BitVec.and_twoPow]
  have h1 : BitVec.twoPow 32 1 ≠ 0#32 := by decide
  have h2 : BitVec.twoPow 32 2 ≠ 0#32 := by decide
  simp [h1, h2]

/-! ## One key -/

/-- `shift` once the byte of a key has come that goes down. -/
def pressedShift (word : BitVec 32) (k : Key) : BitVec 32 :=
  (word &&& ~~~E0ESC.setWidth 32 ||| (shiftcode k.index).setWidth 32) ^^^
  (togglecode k.index).setWidth 32

/-- The character of a key that goes down. -/
def pressedChar (shift : BitVec 32) (k : Key) : BitVec 8 :=
  let c := charcode (shift &&& (CTL ||| SHIFT).setWidth 32) k.index
  if shift &&& CAPSLOCK.setWidth 32 ≠ 0#32 then swapCase c else c

/-- The escape that comes before a key. -/
theorem kbd_escape (h : Shows past word) (hesc : word.getLsbD 6 = false) (k : Key) :
    (∀ r ∈ kbdBurst word k.escape, r.c = 0#8 ∧ r.reboot = false) ∧
    Shows past (kbdShift word k.escape) ∧
      (kbdShift word k.escape).getLsbD 6 = k.ext := by
  unfold Key.escape
  cases k.ext with
  | false => exact ⟨fun r hr => absurd hr List.not_mem_nil, h, hesc⟩
  | true =>
    have hbits (i : ℕ) : (kbdShift word [0xE0#8]).getLsbD i =
      (word.getLsbD i || (E0ESC.setWidth 32).getLsbD i) :=
      BitVec.getLsbD_or
    refine ⟨fun r hr => ?_, ⟨?_, ?_, ?_, ?_⟩, ?_⟩
    · obtain rfl := List.mem_singleton.1 hr
      exact ⟨rfl, rfl⟩
    · exact (hbits 0).trans ((Bool.or_false _).trans h.shift)
    · exact (hbits 1).trans ((Bool.or_false _).trans h.ctl)
    · exact (hbits 2).trans ((Bool.or_false _).trans h.alt)
    · exact (hbits 3).trans ((Bool.or_false _).trans h.caps)
    · exact (hbits 6).trans (Bool.or_true _)

/-- The byte of a key that goes down, the escape before it being in the word. -/
theorem proc_press (k : Key) (hesc : word.getLsbD 6 = k.ext) :
    kbdProcData word k.code =
      ⟨pressedChar (pressedShift word k) k, pressedShift word k,
        decide (~~~pressedShift word k &&& (CTL ||| ALT).setWidth 32 = 0#32 ∧
          pressedChar (pressedShift word k) k = KEY_DEL)⟩ := by
  have hdata :
      (if word &&& E0ESC.setWidth 32 ≠ 0#32 then k.code ||| 0x80#8 else k.code) = k.index :=
    if_congr (esc_ne_zero.trans (by rw [hesc])) rfl rfl
  have hword : (if word &&& E0ESC.setWidth 32 ≠ 0#32 then word &&& ~~~E0ESC.setWidth 32 else word) =
      word &&& ~~~E0ESC.setWidth 32 := by
    split
    · rfl
    · rename_i hne
      rw [not_not] at hne
      calc word = word &&& (E0ESC.setWidth 32 ||| ~~~E0ESC.setWidth 32) := by
            rw [BitVec.or_not_self, BitVec.and_allOnes]
        _ = word &&& ~~~E0ESC.setWidth 32 := by rw [BitVec.and_or_distrib_left, hne, BitVec.zero_or]
  unfold kbdProcData
  rw [if_neg k.code_ne, if_neg (not_not.2 k.code_and)]
  simp only [hdata, hword]
  rfl

/-- The byte of a key that comes up. -/
theorem proc_release (k : Key) (hesc : word.getLsbD 6 = k.ext) :
    kbdProcData word (k.code ||| 0x80#8) =
      ⟨0#8, word &&& ~~~(shiftcode k.index ||| E0ESC).setWidth 32, false⟩ := by
  have hdata : (if word &&& E0ESC.setWidth 32 ≠ 0#32 then k.code ||| 0x80#8 else
    (k.code ||| 0x80#8) &&& 0x7F#8) =
      k.index := by
    rw [k.released_code]
    exact if_congr (esc_ne_zero.trans (by rw [hesc])) rfl rfl
  unfold kbdProcData
  rw [if_neg k.released_ne, if_pos k.released_and]
  simp only [hdata]

theorem Shows.press (h : Shows past word) (k : Key) :
    Shows (past ++ [.press k]) (pressedShift word k) ∧ (pressedShift word k).getLsbD 6 = false := by
  obtain ⟨hs0, hs1, hs2, hs3, hs6⟩ := shiftcode_bits k
  obtain ⟨ht0, ht1, ht2, ht3, ht6⟩ := togglecode_bits k
  have hbits (i : ℕ) (hi : i < 32) : (pressedShift word k).getLsbD i =
      ((word.getLsbD i && !(E0ESC.setWidth 32).getLsbD i || (shiftcode k.index).getLsbD i) ^^
        (togglecode k.index).getLsbD i) := by
    simp only [pressedShift, BitVec.getLsbD_xor, BitVec.getLsbD_or, BitVec.getLsbD_and,
      BitVec.getLsbD_not, BitVec.getLsbD_setWidth, hi, decide_true, Bool.true_and]
  refine ⟨⟨?_, ?_, ?_, ?_⟩, ?_⟩
  · rw [hbits 0 (by decide), hs0, ht0, inEffect_press, h.shift]
    simp [E0ESC]
  · rw [hbits 1 (by decide), hs1, ht1, inEffect_press, h.ctl]
    simp [E0ESC]
  · rw [hbits 2 (by decide), hs2, ht2, inEffect_press, h.alt]
    simp [E0ESC]
  · rw [hbits 3 (by decide), hs3, ht3, locked_press, h.caps]
    simp [E0ESC]
  · rw [hbits 6 (by decide), hs6, ht6]
    simp [E0ESC]

theorem Shows.release (h : Shows past word) (k : Key) :
    Shows (past ++ [.release k]) (word &&& ~~~(shiftcode k.index ||| E0ESC).setWidth 32) ∧
      (word &&& ~~~(shiftcode k.index ||| E0ESC).setWidth 32).getLsbD 6 = false := by
  obtain ⟨hs0, hs1, hs2, hs3, -⟩ := shiftcode_bits k
  have hbits (i : ℕ) (hi : i < 32) :
      (word &&& ~~~(shiftcode k.index ||| E0ESC).setWidth 32).getLsbD i =
      (word.getLsbD i && !((shiftcode k.index).getLsbD i || E0ESC.getLsbD i)) := by
    simp only [BitVec.getLsbD_or, BitVec.getLsbD_and, BitVec.getLsbD_not, BitVec.getLsbD_setWidth,
      hi, decide_true, Bool.true_and]
  refine ⟨⟨?_, ?_, ?_, ?_⟩, ?_⟩
  · rw [hbits 0 (by decide), hs0, inEffect_release, h.shift]
    simp [E0ESC]
  · rw [hbits 1 (by decide), hs1, inEffect_release, h.ctl]
    simp [E0ESC]
  · rw [hbits 2 (by decide), hs2, inEffect_release, h.alt]
    simp [E0ESC]
  · rw [hbits 3 (by decide), hs3, locked_release, h.caps]
    simp [E0ESC]
  · rw [hbits 6 (by decide)]
    simp [E0ESC]

theorem swapCase_eq_del (c : BitVec 8) : swapCase c = KEY_DEL ↔ c = KEY_DEL := by
  revert c
  decide

/-- Each table has `KEY_DEL` once, for the delete key. -/
theorem tables_eq_del (k : Key) : (normalmap k.index = KEY_DEL ↔ k.isDelete = true) ∧
    (shiftmap k.index = KEY_DEL ↔ k.isDelete = true) ∧
    (ctlmap k.index = KEY_DEL ↔ k.isDelete = true) := by
  obtain ⟨ext, code, hcode⟩ := k
  cases ext <;> revert code <;> decide +kernel

theorem Key.char_eq_del (k : Key) (shift ctl caps : Bool) :
    k.char shift ctl caps = KEY_DEL ↔ k.isDelete = true := by
  obtain ⟨hnormal, hshift, hctl⟩ := tables_eq_del k
  have htable : (if ctl then ctlmap else if shift then shiftmap else normalmap) k.index = KEY_DEL ↔
      k.isDelete = true := by
    cases ctl with
    | true => exact hctl
    | false =>
      cases shift with
      | true => exact hshift
      | false => exact hnormal
  cases caps with
  | true => exact (swapCase_eq_del _).trans htable
  | false => exact htable

theorem Shows.char (h : Shows past word) (k : Key) :
    pressedChar word k = (KeyEvent.press k).char past := by
  unfold pressedChar
  rw [charcode_bits, h.shift, h.ctl]
  exact if_congr (caps_ne_zero.trans (by rw [h.caps])) rfl rfl

theorem Shows.reboots (h : Shows past word) (k : Key) :
    decide (~~~word &&& (CTL ||| ALT).setWidth 32 = 0#32 ∧ pressedChar word k = KEY_DEL) =
      (KeyEvent.press k).reboots past := by
  have hdel : pressedChar word k = KEY_DEL ↔ k.isDelete = true := by
    rw [h.char]
    exact k.char_eq_del _ _ _
  rw [Bool.eq_iff_iff, decide_eq_true_eq, both_held, hdel, h.ctl, h.alt, KeyEvent.reboots]
  simp only [Bool.and_eq_true]
  tauto

/-- A letter is capital if one of shift and capslock is in effect, but not both; with control it is
the control character, whatever the others. -/
theorem Key.char_letter (k : Key) (shift caps : Bool)
    (hletter : 0x61#8 ≤ normalmap k.index ∧ normalmap k.index ≤ 0x7A#8) :
    k.char shift false caps =
    (if shift ^^ caps then normalmap k.index - 0x20#8 else normalmap k.index) ∧
      k.char shift true caps = normalmap k.index - 0x60#8 := by
  obtain ⟨ext, code, hcode⟩ := k
  have hall : ∀ i : BitVec 8, 0x61#8 ≤ normalmap i ∧ normalmap i ≤ 0x7A#8 →
      shiftmap i = normalmap i - 0x20#8 ∧ ctlmap i = normalmap i - 0x60#8 := by decide +kernel
  have hcase : ∀ c : BitVec 8, 0x61#8 ≤ c ∧ c ≤ 0x7A#8 →
      swapCase c = c - 0x20#8 ∧ swapCase (c - 0x20#8) = c ∧ swapCase (c - 0x60#8) = c - 0x60#8 := by
        decide
  obtain ⟨hshift, hctl⟩ := hall _ hletter
  obtain ⟨hlower, hupper, hcontrol⟩ := hcase _ hletter
  unfold Key.char
  cases shift <;> cases caps <;> simp [hshift, hctl, hlower, hupper, hcontrol]

/-! ## All keys -/

theorem kbdShift_append (bytes rest : List (BitVec 8)) :
    kbdShift word (bytes ++ rest) = kbdShift (kbdShift word bytes) rest := List.foldl_append

theorem kbdBurst_append (word : BitVec 32) (bytes rest : List (BitVec 8)) :
    kbdBurst word (bytes ++ rest) = kbdBurst word bytes ++ kbdBurst (kbdShift word bytes) rest := by
  induction bytes generalizing word with
  | nil => rfl
  | cons data bytes ih => exact congrArg (_ :: ·) (ih _)

theorem kbdChars_append (word : BitVec 32) (bytes rest : List (BitVec 8)) :
    kbdChars word (bytes ++ rest) = kbdChars word bytes ++ kbdChars (kbdShift word bytes) rest := by
  simp only [kbdChars, kbdBurst_append, List.map_append, List.filter_append]

theorem kbdReboots_append (word : BitVec 32) (bytes rest : List (BitVec 8)) :
    kbdReboots word (bytes ++ rest) =
      (kbdReboots word bytes || kbdReboots (kbdShift word bytes) rest) := by
  simp only [kbdReboots, kbdBurst_append, List.any_append]

theorem kbd_escape_silent (h : Shows past word) (hesc : word.getLsbD 6 = false) (k : Key) :
    kbdChars word k.escape = [] ∧ kbdReboots word k.escape = false := by
  obtain ⟨hsilent, -⟩ := kbd_escape h hesc k
  constructor
  · refine List.filter_eq_nil_iff.2 fun c hc => ?_
    obtain ⟨r, hr, rfl⟩ := List.mem_map.1 hc
    simp [(hsilent r hr).1]
  · refine List.any_eq_false.2 fun r hr => ?_
    simp [(hsilent r hr).2]

/-- **One event.** -/
theorem kbd_event (h : Shows past word) (hesc : word.getLsbD 6 = false) (ev : KeyEvent) :
    kbdChars word ev.scan = [ev.char (past ++ [ev])].filter (· ≠ 0#8) ∧
      kbdReboots word ev.scan = ev.reboots (past ++ [ev]) ∧
      Shows (past ++ [ev]) (kbdShift word ev.scan) ∧ (kbdShift word ev.scan).getLsbD 6 = false := by
  obtain ⟨-, hshows, hext⟩ := kbd_escape h hesc ev.key
  obtain ⟨hchars, hreboots⟩ := kbd_escape_silent h hesc ev.key
  cases ev with
  | press k =>
    replace hshows : Shows past (kbdShift word k.escape) := hshows
    obtain ⟨hpressed, hesc'⟩ := hshows.press k
    have hproc : kbdProcData (kbdShift word k.escape) _ = _ := proc_press k hext
    rw [hpressed.reboots, hpressed.char] at hproc
    have hchar : kbdChars (kbdShift word k.escape) [k.code] =
        [(KeyEvent.press k).char (past ++ [.press k])].filter (· ≠ 0#8) := by
      simp only [kbdChars, kbdBurst, List.map_cons, List.map_nil, hproc]
    have hreboot : kbdReboots (kbdShift word k.escape) [k.code] =
        (KeyEvent.press k).reboots (past ++ [.press k]) := by
      simp only [kbdReboots, kbdBurst, List.any_cons, List.any_nil, hproc, Bool.or_false]
    have hshift : kbdShift word (k.escape ++ [k.code]) =
      pressedShift (kbdShift word k.escape) k := by
      rw [kbdShift_append]
      exact congrArg KbdResult.shift hproc
    refine ⟨?_, ?_, hshift ▸ hpressed, hshift ▸ hesc'⟩
    · exact (kbdChars_append ..).trans ((congrArg₂ (· ++ ·) hchars hchar).trans (List.nil_append _))
    · exact (kbdReboots_append ..).trans
        ((congrArg₂ (· || ·) hreboots hreboot).trans (Bool.false_or _))
  | release k =>
    obtain ⟨hreleased, hesc'⟩ := hshows.release k
    have hproc : kbdProcData (kbdShift word k.escape) _ = _ := proc_release k hext
    have hshift : kbdShift word (k.escape ++ [k.code ||| 0x80#8]) =
        kbdShift word k.escape &&& ~~~(shiftcode k.index ||| E0ESC).setWidth 32 := by
      rw [kbdShift_append]
      exact congrArg KbdResult.shift hproc
    have hchar : kbdChars (kbdShift word k.escape) [k.code ||| 0x80#8] = [] := by
      simp [kbdChars, kbdBurst, hproc]
    have hreboot : kbdReboots (kbdShift word k.escape) [k.code ||| 0x80#8] = false := by
      simp [kbdReboots, kbdBurst, hproc]
    refine ⟨?_, ?_, hshift ▸ hreleased, hshift ▸ hesc'⟩
    · exact (kbdChars_append ..).trans (congrArg₂ (· ++ ·) hchars hchar)
    · exact (kbdReboots_append ..).trans (congrArg₂ (· || ·) hreboots hreboot)

/-- **All events**, after others. -/
theorem kbd_events (h : Shows past word) (hesc : word.getLsbD 6 = false) (evs : List KeyEvent) :
    kbdChars word (evs.flatMap KeyEvent.scan) = charsAfter past evs ∧
      (kbdReboots word (evs.flatMap KeyEvent.scan) = true ↔
        ∃ mid ev rest, evs = mid ++ ev :: rest ∧ ev.reboots (past ++ mid ++ [ev]) = true) := by
  induction evs generalizing past word with
  | nil =>
    refine ⟨rfl, fun h => absurd h Bool.false_ne_true, ?_⟩
    rintro ⟨mid, ev, rest, hnil, -⟩
    simp at hnil
  | cons ev evs ih =>
    obtain ⟨hchars, hreboots, hshows, hesc'⟩ := kbd_event h hesc ev
    obtain ⟨ihchars, ihreboots⟩ := ih hshows hesc'
    rw [List.flatMap_cons]
    refine ⟨?_, ?_⟩
    · rw [kbdChars_append, hchars, ihchars, charsAfter]
    · rw [kbdReboots_append, Bool.or_eq_true, hreboots, ihreboots]
      constructor
      · rintro (hnow | ⟨mid, ev', rest, rfl, hlater⟩)
        · exact ⟨[], ev, evs, rfl, by rwa [List.append_nil]⟩
        · exact ⟨ev :: mid, ev', rest, rfl, by simpa using hlater⟩
      · rintro ⟨mid, ev', rest, hsplit, hev⟩
        cases mid with
        | nil =>
          obtain ⟨rfl, rfl⟩ := List.cons.inj hsplit
          exact Or.inl (by rwa [List.append_nil] at hev)
        | cons ev₀ mid =>
          obtain ⟨rfl, rfl⟩ := List.cons.inj hsplit
          exact Or.inr ⟨mid, ev', rest, rfl, by simpa using hev⟩

/-! ## The console -/

/-- The devices that fill the console buffer. -/
inductive ConsDev
  | serial
  | keyboard
  deriving DecidableEq

/-- The static word and the buffer, with what the keyboard has sent, what has gone into the buffer
and from where, and what `cons_getc` has returned. -/
structure Typing where
  shift : BitVec 32
  cons : Cons
  scanned : List (BitVec 8)
  delivered : List (ConsDev × BitVec 8)
  results : List (BitVec 8)
  rebooted : Bool

/-- An interrupt of the keyboard with the bytes that its controller has, one of the serial port with
its characters, or a call of `cons_getc`, which asks both. -/
inductive TypingAct
  | kbdIntr (data : List (BitVec 8))
  | serialIntr (burst : List (BitVec 8))
  | getc (serial data : List (BitVec 8))

def Typing.init (buf : ℕ → BitVec 8) : Typing := ⟨0#32, ⟨buf, 0, 0⟩, [], [], [], false⟩

/-- What goes into the buffer, under the name of its device. -/
def sentBy (dev : ConsDev) (cs : List (BitVec 8)) : List (ConsDev × BitVec 8) :=
  (cs.filter (· ≠ 0#8)).map (dev, ·)

def kbdResults (shift : BitVec 32) (data : List (BitVec 8)) : List (BitVec 8) :=
  (kbdBurst shift data).map KbdResult.c

def Typing.step (s : Typing) : TypingAct → Option Typing
  | .kbdIntr data => some { s with
      shift := kbdShift s.shift data
      cons := consIntr s.cons (kbdResults s.shift data)
      scanned := s.scanned ++ data
      delivered := s.delivered ++ sentBy .keyboard (kbdResults s.shift data)
      rebooted := s.rebooted || kbdReboots s.shift data }
  | .serialIntr burst => some { s with
      cons := consIntr s.cons burst
      delivered := s.delivered ++ sentBy .serial burst }
  | .getc serial data =>
    let result := consGetc s.cons serial (kbdResults s.shift data)
    some {
      shift := kbdShift s.shift data
      cons := result.2
      scanned := s.scanned ++ data
      delivered := s.delivered ++
        (sentBy .serial serial ++ sentBy .keyboard (kbdResults s.shift data))
      results := s.results ++ [result.1]
      rebooted := s.rebooted || kbdReboots s.shift data }

/-- The buffer alone, with the characters of all devices. -/
def Typing.trace (s : Typing) : ConsTrace := ⟨s.cons, s.delivered.map Prod.snd, s.results⟩

def TypingAct.consAct (shift : BitVec 32) : TypingAct → ConsAct
  | .kbdIntr data => .intr (kbdResults shift data)
  | .serialIntr burst => .intr burst
  | .getc serial data => .getc serial (kbdResults shift data)

/-- There is room for the characters of this action. -/
def Typing.Roomy (s : Typing) (a : TypingAct) : Prop := Jos.Roomy s.trace (a.consAct s.shift)

instance (s : Typing) (a : TypingAct) : Decidable (s.Roomy a) := by
  unfold Typing.Roomy; infer_instance

/-- What has come from the keyboard. -/
def Typing.fromKeyboard (s : Typing) : List (BitVec 8) :=
  (s.delivered.filter (·.1 = .keyboard)).map Prod.snd

theorem fromKeyboard_serial (l : List (ConsDev × BitVec 8)) (cs : List (BitVec 8)) :
    ((l ++ sentBy .serial cs).filter (·.1 = .keyboard)).map Prod.snd =
      (l.filter (·.1 = .keyboard)).map Prod.snd := by
  have hnone : (sentBy .serial cs).filter (·.1 = .keyboard) = [] := by
    refine List.filter_eq_nil_iff.2 fun d hd => ?_
    obtain ⟨c, -, rfl⟩ := List.mem_map.1 hd
    simp
  rw [List.filter_append, hnone, List.append_nil]

theorem fromKeyboard_keyboard (l : List (ConsDev × BitVec 8)) (shift : BitVec 32)
    (data : List (BitVec 8)) :
    ((l ++ sentBy .keyboard (kbdResults shift data)).filter (·.1 = .keyboard)).map Prod.snd =
      (l.filter (·.1 = .keyboard)).map Prod.snd ++ kbdChars shift data := by
  have hall : (sentBy .keyboard (kbdResults shift data)).filter (·.1 = .keyboard) =
      sentBy .keyboard (kbdResults shift data) := by
    refine List.filter_eq_self.2 fun d hd => ?_
    obtain ⟨c, -, rfl⟩ := List.mem_map.1 hd
    simp
  have hsnd : (sentBy .keyboard (kbdResults shift data)).map Prod.snd = kbdChars shift data := by
    rw [sentBy, List.map_map]
    exact List.map_id _
  rw [List.filter_append, List.map_append, hall, hsnd]

/-- The word, the characters of the keyboard and the reset are those of the bytes sent. -/
structure TypingInv (s : Typing) : Prop where
  shift : s.shift = kbdShift 0#32 s.scanned
  chars : s.fromKeyboard = kbdChars 0#32 s.scanned
  rebooted : s.rebooted = kbdReboots 0#32 s.scanned
  queued : ∃ waiting, Queued s.trace waiting

variable {s s' : Typing}

theorem Typing.step_trace {a : TypingAct} (hstep : s.step a = some s') :
    s.trace.step (a.consAct s.shift) = some s'.trace := by
  have hsnd (dev : ConsDev) (cs : List (BitVec 8)) :
      (sentBy dev cs).map Prod.snd = cs.filter (· ≠ 0#8) := by
    rw [sentBy, List.map_map]
    exact List.map_id _
  cases a with
  | kbdIntr data =>
    obtain rfl := Option.some.inj hstep
    simp only [ConsTrace.step, TypingAct.consAct, Typing.trace, ConsAct.arrivals,
      List.map_append, hsnd]
  | serialIntr burst =>
    obtain rfl := Option.some.inj hstep
    simp only [ConsTrace.step, TypingAct.consAct, Typing.trace, ConsAct.arrivals,
      List.map_append, hsnd]
  | getc serial data =>
    obtain rfl := Option.some.inj hstep
    have hdelivered :
        s.delivered.map Prod.snd ++ (ConsAct.getc serial (kbdResults s.shift data)).arrivals =
          (s.delivered ++ (sentBy .serial serial ++
            sentBy .keyboard (kbdResults s.shift data))).map Prod.snd := by
      simp only [ConsAct.arrivals, List.map_append, hsnd, List.filter_append]
    exact congrArg (fun delivered => some (ConsTrace.mk _ delivered _)) hdelivered

theorem TypingInv.init (buf : ℕ → BitVec 8) : TypingInv (Typing.init buf) :=
  ⟨rfl, rfl, rfl, [], .init buf⟩

theorem TypingInv.data (h : TypingInv s) {data : List (BitVec 8)}
    (hshift : s'.shift = kbdShift s.shift data) (hscanned : s'.scanned = s.scanned ++ data)
    (hchars : s'.fromKeyboard = s.fromKeyboard ++ kbdChars s.shift data)
    (hrebooted : s'.rebooted = (s.rebooted || kbdReboots s.shift data))
    (hqueued : ∃ waiting, Queued s'.trace waiting) : TypingInv s' where
  shift := by rw [hshift, hscanned, kbdShift_append, h.shift]
  chars := by rw [hchars, hscanned, kbdChars_append, h.chars, h.shift]
  rebooted := by rw [hrebooted, hscanned, kbdReboots_append, h.rebooted, h.shift]
  queued := hqueued

theorem TypingInv.step (h : TypingInv s) {a : TypingAct} (hroom : s.Roomy a)
    (hstep : s.step a = some s') :
    TypingInv s' := by
  obtain ⟨waiting, hq⟩ := h.queued
  have hqueued := hq.step hroom (Typing.step_trace hstep)
  cases a with
  | kbdIntr data =>
    obtain rfl := Option.some.inj hstep
    exact h.data rfl rfl (fromKeyboard_keyboard ..) rfl hqueued
  | serialIntr burst =>
    obtain rfl := Option.some.inj hstep
    exact ⟨h.shift, (fromKeyboard_serial ..).trans h.chars, h.rebooted, hqueued⟩
  | getc serial data =>
    obtain rfl := Option.some.inj hstep
    refine h.data rfl rfl ?_ rfl hqueued
    change ((s.delivered ++ (sentBy .serial serial ++ sentBy .keyboard _)).filter _).map _ = _
    rw [← List.append_assoc, fromKeyboard_keyboard, fromKeyboard_serial]
    rfl

/-- **What is typed is read.** In every run of keyboard and serial interrupts and calls of
`cons_getc` in which at most `CONSBUFSIZE - 1` characters are ever waiting, however the interrupts
cut the bytes of the keys `evs`: the results of `cons_getc` that are characters, then those in the
buffer, are the characters delivered; those from the keyboard are the ones typed; and the machine
has been reset if and only if control, alternate and delete have been struck. -/
theorem typed_read {buf : ℕ → BitVec 8} {acts : List TypingAct} {evs : List KeyEvent}
    (h : RunWhile Typing.Roomy Typing.step (Typing.init buf) acts s)
    (hsent : s.scanned = evs.flatMap KeyEvent.scan) :
    (∃ waiting, s.cons.Holds CONSBUFSIZE waiting ∧
        s.results.filter (· ≠ 0#8) ++ waiting = s.delivered.map Prod.snd) ∧
      s.fromKeyboard = typedChars evs ∧ (s.rebooted = true ↔ Rebooted evs) := by
  have hinv : TypingInv s :=
    h.invariant (TypingInv.init buf) fun _ _ _ hi hroom hstep => hi.step hroom hstep
  obtain ⟨waiting, hq⟩ := hinv.queued
  have hnone : Shows [] 0#32 := ⟨rfl, rfl, rfl, rfl⟩
  obtain ⟨hchars, hreboots⟩ := kbd_events hnone rfl evs
  refine ⟨⟨waiting, hq.holds, hq.order⟩, ?_, ?_⟩
  · rw [hinv.chars, hsent, hchars, typedChars]
  · rw [hinv.rebooted, hsent, hreboots]
    rfl

/-- Right control with Q, its escape and its code in two interrupts; then a capital letter, with a
character of the serial port between the bytes. -/
theorem typed_read_capital : ∃ (s : Typing) (evs : List KeyEvent),
    RunWhile Typing.Roomy Typing.step (Typing.init fun _ => 0)
      [.kbdIntr [0xE0], .kbdIntr [0x1D, 0x10], .getc [] [0x90, 0xE0], .kbdIntr [0x9D, 0x2A],
        .serialIntr [0x21], .getc [] [0x1E]] s ∧
    s.scanned = evs.flatMap KeyEvent.scan ∧ s.results = [0x11, 0x21] ∧
    s.fromKeyboard = [0x11, 0x41] ∧
    s.fromKeyboard = typedChars evs := by
  obtain ⟨s, hrun, hsent, hresults, hchars⟩ : ∃ s : Typing,
      RunWhile Typing.Roomy Typing.step (Typing.init fun _ => 0)
        [.kbdIntr [0xE0], .kbdIntr [0x1D, 0x10], .getc [] [0x90, 0xE0], .kbdIntr [0x9D, 0x2A],
          .serialIntr [0x21], .getc [] [0x1E]] s ∧
      s.scanned = ([.press ⟨true, 0x1D, by decide⟩, .press ⟨false, 0x10, by decide⟩,
        .release ⟨false, 0x10, by decide⟩, .release ⟨true, 0x1D, by decide⟩,
        .press ⟨false, 0x2A, by decide⟩, .press ⟨false, 0x1E, by decide⟩] : List KeyEvent).flatMap
        KeyEvent.scan ∧
      s.results = [0x11, 0x21] ∧ s.fromKeyboard = [0x11, 0x41] :=
    ⟨_, .cons (by decide) rfl (.cons (by decide) rfl (.cons (by decide) rfl (.cons (by decide) rfl
      (.cons (by decide) rfl (.cons (by decide) rfl .nil))))), by decide, by decide, by decide⟩
  exact ⟨s, _, hrun, hsent, hresults, hchars, (typed_read hrun hsent).2.1⟩

end Jos
