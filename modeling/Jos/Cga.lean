import Mathlib.Tactic.Common
import Jos.Mmu

/-!
# The text screen

`cga_putc` (`kern/console.c`) writes a character with its attribute to the text buffer at `crt_pos`.
A newline, a carriage return and a backspace move the position, and a tab is five spaces, which go
through `cons_putc` and so come back to `cga_putc`. A position behind the last row scrolls the
screen.

**The model.** `crt_buf` is memory: nothing in the model stops a store behind the screen. The
history of a run (`CrtEvent`) has the index of each store, those of `memmove` included, the screen
before and after each scroll, and the position that each call of `cga_putc` leaves, which it tells
the controller.

**Theorem (`cga_stays_on_screen`).** Starting on the screen, every store is to the screen, every
call leaves the position on it, and every scroll moves the rows up by one and clears the last one,
in the history and on the screen that the call leaves. The position is at most one row behind the
screen when a call comes to its test (`Crt.Typed`).
-/

namespace Jos

/-! ## Definitions -/

def CRT_ROWS : ℕ := 25
def CRT_COLS : ℕ := 80
def CRT_SIZE : ℕ := CRT_ROWS * CRT_COLS

inductive CrtEvent
  | store (i : ℕ)
  | scroll (before after : ℕ → BitVec 16)
  | cursor (pos : BitVec 16)

/-- The display, the bytes that went to the two ports, and the history. -/
structure Crt where
  crtBuf : ℕ → BitVec 16
  crtPos : BitVec 16
  serial : List (BitVec 8)
  lpt : List (BitVec 8)
  history : List CrtEvent

/-- A space, in white on black. -/
def BLANK : BitVec 16 := 0x0700#16 ||| 0x20#16

/-- `c`, with an attribute. -/
def withAttribute (c : Word) : Word := if c &&& ~~~0xFF#32 = 0#32 then c ||| 0x0700#32 else c

/-- The low byte is a tab. -/
def IsTab (c : Word) : Prop := withAttribute c &&& 0xFF#32 = 9#32

instance (c : Word) : Decidable (IsTab c) := inferInstanceAs (Decidable (_ = _))

namespace Crt

/-- `crt_buf[i] = v`. -/
def store (s : Crt) (i : ℕ) (v : BitVec 16) : Crt :=
  { s with crtBuf := Function.update s.crtBuf i v, history := s.history ++ [.store i] }

/-- `memmove` of `n` cells. -/
def memmove (s : Crt) (dst src n : ℕ) : Crt :=
  { s with
    crtBuf := fun i => if dst ≤ i ∧ i < dst + n then s.crtBuf (src + (i - dst)) else s.crtBuf i
    history := s.history ++ (List.range' dst n).map .store }

/-- The rows move up, and the last one is cleared. -/
def scroll (s : Crt) : Crt :=
  let moved := s.memmove 0 CRT_COLS (CRT_SIZE - CRT_COLS)
  let cleared := (List.range' (CRT_SIZE - CRT_COLS) CRT_COLS).foldl
    (fun s i => s.store i BLANK) moved
  { cleared with
    crtPos := cleared.crtPos - BitVec.ofNat 16 CRT_COLS
    history := cleared.history ++ [.scroll s.crtBuf cleared.crtBuf] }

/-- What `cga_putc` does behind the `switch`. -/
def settle (s : Crt) : Crt :=
  let s := if CRT_SIZE ≤ s.crtPos.toNat then s.scroll else s
  { s with history := s.history ++ [.cursor s.crtPos] }

def backspace (s : Crt) (c : Word) : Crt :=
  if 0 < s.crtPos.toNat then
    let s := { s with crtPos := s.crtPos - 1#16 }
    s.store s.crtPos.toNat (((c &&& ~~~0xFF#32) ||| 0x20#32).setWidth 16)
  else s

def carriageReturn (s : Crt) : Crt :=
  { s with crtPos := s.crtPos - s.crtPos % BitVec.ofNat 16 CRT_COLS }

def newline (s : Crt) : Crt :=
  { s with crtPos := s.crtPos + BitVec.ofNat 16 CRT_COLS }.carriageReturn

def write (s : Crt) (c : Word) : Crt :=
  let s := s.store s.crtPos.toNat (c.setWidth 16)
  { s with crtPos := s.crtPos + 1#16 }

end Crt

def serialPutc (c : Word) (s : Crt) : Crt := { s with serial := s.serial ++ [c.setWidth 8] }

def lptPutc (c : Word) (s : Crt) : Crt := { s with lpt := s.lpt ++ [c.setWidth 8] }

mutual

/-- `cga_putc`. -/
def cgaPutc (c : Word) (s : Crt) : Crt :=
  let ch := withAttribute c &&& 0xFF#32
  if ch = 8#32 then (s.backspace (withAttribute c)).settle
  else if ch = 10#32 then s.newline.settle
  else if ch = 13#32 then s.carriageReturn.settle
  else if _h : IsTab c then
    (consPutc 32#32 (consPutc 32#32 (consPutc 32#32 (consPutc 32#32 (consPutc 32#32 s))))).settle
  else (s.write (withAttribute c)).settle
termination_by if IsTab c then 2 else 0
decreasing_by all_goals
  rw [if_pos _h, if_neg (by decide)]
  decide

/-- `cons_putc`. -/
def consPutc (c : Word) (s : Crt) : Crt := cgaPutc c (lptPutc c (serialPutc c s))
termination_by (if IsTab c then 2 else 0) + 1

end

/-- The characters of a list, one after the other, on a display that shows `buf`. -/
def cgaPutcs (buf : ℕ → BitVec 16) (pos : BitVec 16) (cs : List Word) : Crt :=
  cs.foldl (fun s c => cgaPutc c s)
    { crtBuf := buf, crtPos := pos, serial := [], lpt := [], history := [] }

/-- The rows have moved up by one, and the last one is clear. -/
def Scrolled (before after : ℕ → BitVec 16) : Prop :=
  (∀ row < CRT_ROWS - 1, ∀ col < CRT_COLS,
    after (row * CRT_COLS + col) = before ((row + 1) * CRT_COLS + col)) ∧
  ∀ col < CRT_COLS, after ((CRT_ROWS - 1) * CRT_COLS + col) = BLANK

/-- What holds of each event: a store is to the screen, and a call leaves the position on the
screen. -/
def CrtEvent.Ok : CrtEvent → Prop
  | .store i => i < CRT_SIZE
  | .scroll before after => Scrolled before after
  | .cursor pos => pos.toNat < CRT_SIZE

namespace Crt

/-- Between calls. -/
structure OnScreen (s : Crt) : Prop where
  pos : s.crtPos.toNat < CRT_SIZE
  history : ∀ e ∈ s.history, e.Ok

/-- Behind the `switch`: the position may have left the screen. -/
structure Typed (s : Crt) : Prop where
  pos : s.crtPos.toNat < CRT_SIZE + CRT_COLS
  history : ∀ e ∈ s.history, e.Ok

variable {s : Crt}

theorem OnScreen.typed (h : s.OnScreen) : s.Typed := ⟨h.pos.trans (by decide), h.history⟩

/-! ## Scrolling -/

@[simp] theorem crtPos_store (s : Crt) (i : ℕ) (v : BitVec 16) : (s.store i v).crtPos = s.crtPos :=
  rfl

@[simp] theorem crtPos_memmove (s : Crt) (dst src n : ℕ) : (s.memmove dst src n).crtPos =
    s.crtPos := rfl

theorem history_ok_append {l l' : List CrtEvent} (h : ∀ e ∈ l, e.Ok) (h' : ∀ e ∈ l', e.Ok) :
    ∀ e ∈ l ++ l', e.Ok := by
  intro e he
  exact (List.mem_append.1 he).elim (h e) (h' e)

theorem foldl_store (s : Crt) (a n : ℕ) (v : BitVec 16) :
    (List.range' a n).foldl (fun s i => s.store i v) s = { s with
      crtBuf := fun i => if a ≤ i ∧ i < a + n then v else s.crtBuf i
      history := s.history ++ (List.range' a n).map .store } := by
  induction n with
  | zero =>
    have hno : ∀ i, ¬ (a ≤ i ∧ i < a + 0) := fun i => by omega
    simp only [List.range'_zero, List.foldl_nil, List.map_nil, List.append_nil, hno, if_false]
  | succ n ih =>
    have hbuf : Function.update (fun i => if a ≤ i ∧ i < a + n then v else s.crtBuf i) (a + n) v =
        fun i => if a ≤ i ∧ i < a + (n + 1) then v else s.crtBuf i := by
      funext i
      rcases eq_or_ne i (a + n) with rfl | hi
      · rw [Function.update_self, if_pos (by omega)]
      · rw [Function.update_of_ne hi]
        exact if_congr (by omega) rfl rfl
    rw [List.range'_1_concat, List.foldl_append, ih, List.map_append]
    simp [store, hbuf]

theorem stores_ok {a n : ℕ} (h : a + n ≤ CRT_SIZE) :
    ∀ e ∈ (List.range' a n).map CrtEvent.store, e.Ok := by
  intro e he
  obtain ⟨i, hi, rfl⟩ := List.mem_map.1 he
  have hlt := (List.mem_range'_1.1 hi).2
  exact lt_of_lt_of_le hlt h

/-- The screen after a scroll. -/
theorem crtBuf_scroll (s : Crt) (i : ℕ) :
    s.scroll.crtBuf i =
      if CRT_SIZE - CRT_COLS ≤ i ∧ i < CRT_SIZE then BLANK
      else if i < CRT_SIZE - CRT_COLS then s.crtBuf (CRT_COLS + i) else s.crtBuf i := by
  have hsize : CRT_SIZE - CRT_COLS + CRT_COLS = CRT_SIZE := by decide
  simp [scroll, foldl_store, memmove, hsize]

/-- **A scroll moves the rows up by one and clears the last one.** -/
theorem scroll_ok (s : Crt) : Scrolled s.crtBuf s.scroll.crtBuf := by
  have hsize : CRT_SIZE = 2000 := by decide
  have hcols : CRT_COLS = 80 := by decide
  have hrows : CRT_ROWS = 25 := by decide
  constructor
  · intro row hrow col hcol
    rw [hrows] at hrow
    rw [hcols] at hcol ⊢
    rw [crtBuf_scroll, hsize, hcols, if_neg (by omega), if_pos (by omega)]
    congr 1
    ring
  · intro col hcol
    rw [hcols] at hcol ⊢
    rw [hrows, crtBuf_scroll, hsize, hcols, if_pos (by omega)]

theorem history_scroll (s : Crt) :
    s.scroll.history = s.history ++ (List.range' 0 (CRT_SIZE - CRT_COLS)).map .store ++
      (List.range' (CRT_SIZE - CRT_COLS) CRT_COLS).map .store ++
      [.scroll s.crtBuf s.scroll.crtBuf] := by
  simp [scroll, foldl_store, memmove]

theorem crtPos_scroll (s : Crt) : s.scroll.crtPos = s.crtPos - BitVec.ofNat 16 CRT_COLS := by
  simp [scroll, foldl_store]

theorem crtBuf_settle (s : Crt) :
    s.settle.crtBuf = if CRT_SIZE ≤ s.crtPos.toNat then s.scroll.crtBuf else s.crtBuf := by
  unfold settle
  split_ifs <;> rfl

/-- **The test behind the `switch`** brings the position back. -/
theorem Typed.settle (h : s.Typed) : s.settle.OnScreen := by
  have hpos := h.pos
  have hsize : CRT_SIZE = 2000 := by decide
  have hcols : CRT_COLS = 80 := by decide
  have hmain : (if CRT_SIZE ≤ s.crtPos.toNat then s.scroll else s).OnScreen := by
    split_ifs with hend
    · constructor
      · rw [crtPos_scroll, hcols]
        rw [hsize] at hend ⊢
        rw [hsize, hcols] at hpos
        bv_omega
      · rw [history_scroll]
        apply history_ok_append
        · exact history_ok_append (history_ok_append h.history (stores_ok (by decide)))
            (stores_ok (by decide))
        · intro e he
          rw [List.mem_singleton.1 he]
          exact scroll_ok s
    · exact ⟨not_le.1 hend, h.history⟩
  refine ⟨hmain.pos, history_ok_append hmain.history fun e he => ?_⟩
  rw [List.mem_singleton.1 he]
  exact hmain.pos

/-! ## Moving the position -/

theorem OnScreen.store (h : s.OnScreen) {i : ℕ} (hi : i < CRT_SIZE) (v : BitVec 16) :
    (s.store i v).OnScreen := by
  refine ⟨h.pos, history_ok_append h.history fun e he => ?_⟩
  rw [List.mem_singleton.1 he]
  exact hi

theorem OnScreen.write (h : s.OnScreen) (c : Word) : (s.write c).Typed := by
  have hpos := h.pos
  have hsize : CRT_SIZE = 2000 := by decide
  have hcols : CRT_COLS = 80 := by decide
  refine ⟨?_, (h.store h.pos (c.setWidth 16)).history⟩
  change (s.crtPos + 1#16).toNat < CRT_SIZE + CRT_COLS
  rw [hsize] at hpos
  rw [hsize, hcols]
  bv_omega

theorem OnScreen.backspace (h : s.OnScreen) (c : Word) : (s.backspace c).OnScreen := by
  have hpos := h.pos
  unfold Crt.backspace
  split_ifs with hne
  · have hlt : (s.crtPos - 1#16).toNat < CRT_SIZE := by bv_omega
    have hmoved : { s with crtPos := s.crtPos - 1#16 }.OnScreen := ⟨hlt, h.history⟩
    exact hmoved.store hlt _
  · exact h

theorem toNat_carriageReturn_le (s : Crt) : s.carriageReturn.crtPos.toNat ≤ s.crtPos.toNat := by
  change (s.crtPos - s.crtPos % BitVec.ofNat 16 CRT_COLS).toNat ≤ s.crtPos.toNat
  have hmod : (s.crtPos % BitVec.ofNat 16 CRT_COLS).toNat ≤ s.crtPos.toNat := by
    rw [BitVec.toNat_umod]
    exact Nat.mod_le _ _
  rw [BitVec.toNat_sub_of_le hmod]
  exact Nat.sub_le _ _

theorem OnScreen.carriageReturn (h : s.OnScreen) : s.carriageReturn.OnScreen :=
  ⟨lt_of_le_of_lt (toNat_carriageReturn_le s) h.pos, h.history⟩

theorem OnScreen.newline (h : s.OnScreen) : s.newline.Typed := by
  have hpos := h.pos
  have hsize : CRT_SIZE = 2000 := by decide
  have hcols : CRT_COLS = 80 := by decide
  refine ⟨lt_of_le_of_lt (toNat_carriageReturn_le _) ?_, h.history⟩
  change (s.crtPos + BitVec.ofNat 16 CRT_COLS).toNat < CRT_SIZE + CRT_COLS
  rw [hsize] at hpos
  rw [hsize, hcols]
  bv_omega

end Crt

open Crt

/-! ## The calls -/

variable {s : Crt}

/-- The `switch`, for a character that is not a tab. -/
def Crt.type (s : Crt) (c : Word) : Crt :=
  let ch := withAttribute c &&& 0xFF#32
  if ch = 8#32 then s.backspace (withAttribute c)
  else if ch = 10#32 then s.newline
  else if ch = 13#32 then s.carriageReturn
  else s.write (withAttribute c)

theorem cgaPutc_of_not_tab {c : Word} (hc : ¬ IsTab c) (s : Crt) :
    cgaPutc c s = (s.type c).settle := by
  rw [cgaPutc]
  simp only [dif_neg hc, Crt.type]
  split_ifs <;> rfl

/-- A tab goes through `cons_putc`, as five spaces. -/
def tabSpaces (s : Crt) : Crt :=
  consPutc 32#32 (consPutc 32#32 (consPutc 32#32 (consPutc 32#32 (consPutc 32#32 s))))

theorem cgaPutc_tab {c : Word} (hc : IsTab c) (s : Crt) : cgaPutc c s = (tabSpaces s).settle := by
  have hch : withAttribute c &&& 0xFF#32 = 9#32 := hc
  rw [cgaPutc]
  simp only [dif_pos hc, hch]
  rfl

theorem Crt.OnScreen.cgaPutc_of_not_tab (h : s.OnScreen) {c : Word} (hc : ¬ IsTab c) :
    (cgaPutc c s).OnScreen := by
  rw [Jos.cgaPutc_of_not_tab hc, Crt.type]
  split_ifs
  · exact (h.backspace _).typed.settle
  · exact h.newline.settle
  · exact h.carriageReturn.typed.settle
  · exact (h.write _).settle

/-- The other devices do not see the display. -/
theorem Crt.OnScreen.consPutc_of_not_tab (h : s.OnScreen) {c : Word} (hc : ¬ IsTab c) :
    (consPutc c s).OnScreen := by
  have hport : (lptPutc c (serialPutc c s)).OnScreen := ⟨h.pos, h.history⟩
  rw [consPutc]
  exact hport.cgaPutc_of_not_tab hc

theorem Crt.OnScreen.tabSpaces (h : s.OnScreen) : (tabSpaces s).OnScreen := by
  have hspace : ∀ {s : Crt}, s.OnScreen → (consPutc 32#32 s).OnScreen := fun h =>
    h.consPutc_of_not_tab (by decide)
  exact hspace (hspace (hspace (hspace (hspace h))))

/-- **One call of `cga_putc`**; a tab calls it five times again, for spaces. -/
theorem Crt.OnScreen.cgaPutc (h : s.OnScreen) (c : Word) : (cgaPutc c s).OnScreen := by
  by_cases hc : IsTab c
  · rw [cgaPutc_tab hc]
    exact h.tabSpaces.typed.settle
  · exact h.cgaPutc_of_not_tab hc

/-- The screen that a call leaves: scrolled if the `switch` has left the position behind the screen.
Only the spaces of a tab scroll, never the tab itself. -/
structure CallShows (s : Crt) (c : Word) : Prop where
  scrolled : ¬ IsTab c → CRT_SIZE ≤ (s.type c).crtPos.toNat →
    Scrolled (s.type c).crtBuf (cgaPutc c s).crtBuf
  same : ¬ IsTab c → (s.type c).crtPos.toNat < CRT_SIZE → (cgaPutc c s).crtBuf = (s.type c).crtBuf
  tab : IsTab c → s.OnScreen → (cgaPutc c s).crtBuf = (tabSpaces s).crtBuf

theorem callShows (s : Crt) (c : Word) : CallShows s c := by
  refine ⟨fun hc hend => ?_, fun hc hlt => ?_, fun hc h => ?_⟩
  · rw [cgaPutc_of_not_tab hc, crtBuf_settle, if_pos hend]
    exact scroll_ok _
  · rw [cgaPutc_of_not_tab hc, crtBuf_settle, if_neg (not_le.2 hlt)]
  · rw [cgaPutc_tab hc, crtBuf_settle, if_neg (not_le.2 h.tabSpaces.pos)]

/-- **The cursor stays on the screen**, and every call shows what it should. -/
theorem cga_stays_on_screen (buf : ℕ → BitVec 16) {pos : BitVec 16} (hpos : pos.toNat < CRT_SIZE)
    (cs : List Word) : (cgaPutcs buf pos cs).OnScreen ∧ ∀ s c, CallShows s c := by
  have hrun : ∀ {s : Crt}, s.OnScreen → (cs.foldl (fun s c => cgaPutc c s) s).OnScreen := by
    induction cs with
    | nil => exact fun h => h
    | cons c cs ih => exact fun h => ih (h.cgaPutc c)
  refine ⟨hrun ⟨hpos, fun e he => (List.not_mem_nil he).elim⟩, callShows⟩

/-- A tab, a newline and a letter in the last column of the last row. The letter alone would scroll
the screen. -/
theorem cga_stays_on_screen_corner :
    (cgaPutcs (fun _ => BLANK) 1999#16 [9#32, 10#32, 0x1F41#32]).OnScreen ∧
      Scrolled (Function.update (fun _ => BLANK) 1999 0x1F41#16)
        (cgaPutc 0x1F41#32 (cgaPutcs (fun _ => BLANK) 1999#16 [])).crtBuf := by
  obtain ⟨hon, hshows⟩ :=
    cga_stays_on_screen (fun _ => BLANK) (by decide : (1999#16).toNat < CRT_SIZE)
    [9#32, 10#32, 0x1F41#32]
  exact ⟨hon, (hshows _ 0x1F41#32).scrolled (by decide) (by decide)⟩

end Jos
