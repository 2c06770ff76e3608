import Jos.Lib.Ring
import Jos.Lib.Run

/-!
# Console input

Characters from the keyboard and the serial port go into one ring buffer (`kern/console.c`). An
interrupt takes what the device has (`consIntr`), and `cons_getc` asks both devices before it takes
a character out.

**The model.** A burst is the list of characters that a device gives before it says `-1`; a device
without data, or a port that does not exist, gives the empty list. `proc` returns one byte, zero if
a key is not a character.

**Theorem (`cons_input_fifo`).** The history of a run is kept beside the buffer (`ConsTrace`). As
long as there is always room, what `cons_getc` has returned and what the ring holds is what has been
delivered, in this order.
-/

namespace Jos

open Lib

/-! ## Definitions -/

def CONSBUFSIZE : ℕ := 512

/-- The buffer `cons`. -/
abbrev Cons := RingBuffer (BitVec 8)

/-- `cons_intr`, with what `proc` returns. -/
def consIntr (cons : Cons) (burst : List (BitVec 8)) : Cons :=
  burst.foldl (fun cons c => if c = 0#8 then cons else cons.push CONSBUFSIZE c) cons

/-- `cons_getc`, with what the serial port and the keyboard have. -/
def consGetc (cons : Cons) (serial kbd : List (BitVec 8)) : BitVec 8 × Cons :=
  let cons := consIntr (consIntr cons serial) kbd
  let (c, cons) := cons.pop CONSBUFSIZE
  (c.getD 0#8, cons)

/-- An interrupt of a device, or a call of `cons_getc`. -/
inductive ConsAct
  | intr (burst : List (BitVec 8))
  | getc (serial kbd : List (BitVec 8))

/-- The characters that come in with an action. -/
def ConsAct.arrivals : ConsAct → List (BitVec 8)
  | .intr burst => burst.filter (· ≠ 0#8)
  | .getc serial kbd => (serial ++ kbd).filter (· ≠ 0#8)

/-- The buffer, the characters delivered and the results of `cons_getc` so far. -/
structure ConsTrace where
  cons : Cons
  delivered : List (BitVec 8)
  results : List (BitVec 8)

/-- The results that are characters. -/
def ConsTrace.taken (s : ConsTrace) : List (BitVec 8) := s.results.filter (· ≠ 0#8)

def ConsTrace.step (s : ConsTrace) (a : ConsAct) : Option ConsTrace :=
  match a with
  | .intr burst => some { s with
      cons := consIntr s.cons burst
      delivered := s.delivered ++ a.arrivals }
  | .getc serial kbd =>
    let (c, cons) := consGetc s.cons serial kbd
    some { cons := cons, delivered := s.delivered ++ a.arrivals, results := s.results ++ [c] }

/-- With the characters of this action, at most `CONSBUFSIZE - 1` are waiting. -/
def Roomy (s : ConsTrace) (a : ConsAct) : Prop :=
  (s.delivered ++ a.arrivals).length - s.taken.length ≤ CONSBUFSIZE - 1

instance (s : ConsTrace) (a : ConsAct) : Decidable (Roomy s a) := by unfold Roomy; infer_instance

def ConsTrace.init (buf : ℕ → BitVec 8) : ConsTrace := ⟨⟨buf, 0, 0⟩, [], []⟩

/-! ## Bursts -/

variable {cons : Cons} {waiting : List (BitVec 8)}

/-- A burst is appended, without its zeros. -/
theorem holds_consIntr (burst : List (BitVec 8)) (h : cons.Holds CONSBUFSIZE waiting)
    (hroom : (waiting ++ burst.filter (· ≠ 0#8)).length < CONSBUFSIZE) :
    (consIntr cons burst).Holds CONSBUFSIZE (waiting ++ burst.filter (· ≠ 0#8)) := by
  induction burst generalizing cons waiting with
  | nil =>
    rw [List.filter_nil, List.append_nil]
    exact h
  | cons c burst ih =>
    by_cases hc : c = 0#8
    · have hfilter : (c :: burst).filter (· ≠ 0#8) = burst.filter (· ≠ 0#8) := by simp [hc]
      rw [hfilter] at hroom ⊢
      have hstep : consIntr cons (c :: burst) = consIntr cons burst := by simp [consIntr, hc]
      rw [hstep]
      exact ih h hroom
    · have hfilter : waiting ++ (c :: burst).filter (· ≠ 0#8) =
          (waiting ++ [c]) ++ burst.filter (· ≠ 0#8) := by simp [hc]
      rw [hfilter] at hroom ⊢
      have hstep : consIntr cons (c :: burst) = consIntr (cons.push CONSBUFSIZE c) burst := by
        simp [consIntr, hc]
      rw [hstep]
      refine ih (h.push ?_ c) hroom
      rw [List.length_append, List.length_append, List.length_singleton] at hroom
      omega

/-! ## Runs -/

/-- What is held is what has been delivered and not been taken. -/
structure Queued (s : ConsTrace) (waiting : List (BitVec 8)) : Prop where
  holds : s.cons.Holds CONSBUFSIZE waiting
  order : s.taken ++ waiting = s.delivered
  nonzero : ∀ c ∈ waiting, c ≠ 0#8

variable {s s' : ConsTrace} {acts : List ConsAct}

theorem Queued.init (buf : ℕ → BitVec 8) : Queued (ConsTrace.init buf) [] :=
  ⟨.nil buf (by decide), rfl, fun _ hc => absurd hc List.not_mem_nil⟩

theorem ConsAct.arrivals_nonzero (a : ConsAct) {c : BitVec 8} (hc : c ∈ a.arrivals) : c ≠ 0#8 := by
  cases a with
  | intr burst =>
    obtain ⟨-, hne⟩ := List.mem_filter.1 hc
    simpa using hne
  | getc serial kbd =>
    obtain ⟨-, hne⟩ := List.mem_filter.1 hc
    simpa using hne

theorem Queued.room (h : Queued s waiting) {a : ConsAct} (hroom : Roomy s a) :
    (waiting ++ a.arrivals).length < CONSBUFSIZE := by
  have hlen := congrArg List.length h.order
  unfold Roomy at hroom
  rw [List.length_append] at hlen hroom ⊢
  have hpos : 0 < CONSBUFSIZE := by decide
  omega

theorem Queued.nonzero_append (h : Queued s waiting) (a : ConsAct) :
    ∀ c ∈ waiting ++ a.arrivals, c ≠ 0#8 := by
  intro c hc
  rcases List.mem_append.1 hc with hc | hc
  · exact h.nonzero c hc
  · exact a.arrivals_nonzero hc

/-- What `cons_getc` returns: the first of the characters that are there, or zero. -/
theorem Queued.getc (h : Queued s waiting) {serial kbd : List (BitVec 8)}
    (hroom : Roomy s (.getc serial kbd)) :
    (consGetc s.cons serial kbd).1 = (waiting ++ (ConsAct.getc serial kbd).arrivals).headD 0#8 ∧
      (consGetc s.cons serial kbd).2.Holds CONSBUFSIZE
        (waiting ++ (ConsAct.getc serial kbd).arrivals).tail := by
  have hlt := h.room hroom
  have hsplit : waiting ++ (ConsAct.getc serial kbd).arrivals =
      (waiting ++ serial.filter (· ≠ 0#8)) ++ kbd.filter (· ≠ 0#8) := by
    rw [ConsAct.arrivals, List.filter_append, List.append_assoc]
  rw [hsplit] at hlt ⊢
  have hserial :
      (consIntr s.cons serial).Holds CONSBUFSIZE (waiting ++ serial.filter (· ≠ 0#8)) := by
    refine holds_consIntr serial h.holds (lt_of_le_of_lt ?_ hlt)
    exact (List.prefix_append _ _).length_le
  have hkbd := holds_consIntr kbd hserial hlt
  change ((RingBuffer.pop CONSBUFSIZE (consIntr (consIntr s.cons serial) kbd)).1.getD 0#8 = _ ∧
    RingBuffer.Holds CONSBUFSIZE
    (RingBuffer.pop CONSBUFSIZE (consIntr (consIntr s.cons serial) kbd)).2 _)
  generalize (waiting ++ serial.filter (· ≠ 0#8)) ++ kbd.filter (· ≠ 0#8) = l at hkbd
  cases l with
  | nil =>
    rw [hkbd.pop_nil]
    exact ⟨rfl, hkbd⟩
  | cons c l =>
    obtain ⟨hhead, htail⟩ := hkbd.pop
    exact ⟨congrArg (Option.getD · 0#8) hhead, htail⟩

/-- **One action.** -/
theorem Queued.step (h : Queued s waiting) {a : ConsAct} (hroom : Roomy s a)
    (hstep : s.step a = some s') :
    ∃ waiting', Queued s' waiting' := by
  have hnonzero := h.nonzero_append a
  cases a with
  | intr burst =>
    obtain rfl := Option.some.inj hstep
    refine ⟨waiting ++ (ConsAct.intr burst).arrivals, holds_consIntr burst h.holds (h.room hroom),
      ?_, hnonzero⟩
    change s.taken ++ (waiting ++ _) = s.delivered ++ _
    rw [← List.append_assoc, h.order]
  | getc serial kbd =>
    obtain ⟨hres, hholds⟩ := h.getc hroom
    obtain rfl := Option.some.inj hstep
    refine ⟨(waiting ++ (ConsAct.getc serial kbd).arrivals).tail, hholds, ?_, fun c hc =>
      hnonzero c (List.mem_of_mem_tail hc)⟩
    change (s.results ++ [(consGetc s.cons serial kbd).1]).filter (· ≠ 0#8) ++ _ = s.delivered ++ _
    rw [hres, List.filter_append, ← h.order, List.append_assoc, List.append_assoc]
    refine congrArg (s.taken ++ ·) ?_
    generalize waiting ++ (ConsAct.getc serial kbd).arrivals = l at hnonzero
    cases l with
    | nil => rfl
    | cons c l =>
      have hc : c ≠ 0#8 := hnonzero c List.mem_cons_self
      simp [hc]

theorem queued_of_run {buf : ℕ → BitVec 8}
    (h : RunWhile Roomy ConsTrace.step (ConsTrace.init buf) acts s) :
    ∃ waiting, Queued s waiting :=
  h.invariant (P := fun s => ∃ waiting, Queued s waiting) ⟨[], .init buf⟩
    fun _ _ _ ⟨_, ht⟩ hg hstep => ht.step hg hstep

/-- **Console input is a FIFO.** In every run in which at most `CONSBUFSIZE - 1` characters are ever
waiting, the results of `cons_getc` that are characters are the characters delivered, in the order
of their arrival, up to those that are waiting; if the next `cons_getc` returns zero, none is. The
positions stay in the buffer. -/
theorem cons_input_fifo {buf : ℕ → BitVec 8}
    (h : RunWhile Roomy ConsTrace.step (ConsTrace.init buf) acts s) :
    s.taken <+: s.delivered ∧ s.cons.rpos < CONSBUFSIZE ∧ s.cons.wpos < CONSBUFSIZE ∧
      ∀ serial kbd, Roomy s (.getc serial kbd) → (consGetc s.cons serial kbd).1 = 0#8 →
        s.taken = s.delivered ++ (ConsAct.getc serial kbd).arrivals := by
  obtain ⟨waiting, hq⟩ := queued_of_run h
  refine ⟨⟨waiting, hq.order⟩, hq.holds.rpos_lt, hq.holds.wpos_lt, fun serial kbd hroom hzero => ?_⟩
  obtain ⟨hres, -⟩ := hq.getc hroom
  have hnil : waiting ++ (ConsAct.getc serial kbd).arrivals = [] := by
    have hnonzero := hq.nonzero_append (.getc serial kbd)
    generalize waiting ++ (ConsAct.getc serial kbd).arrivals = l at hnonzero hres
    cases l with
    | nil => rfl
    | cons c l => exact absurd (hres.symm.trans hzero) (hnonzero c List.mem_cons_self)
  rw [← hq.order, List.append_assoc, hnil, List.append_nil]

/-- Two letters from the keyboard, one taken, and one more from the serial port. -/
theorem cons_input_fifo_hi : ∃ s, RunWhile Roomy ConsTrace.step (ConsTrace.init fun _ => 0)
      [.intr [104, 0, 105], .getc [] [], .getc [33] []] s ∧ s.delivered = [104, 105, 33] ∧
    s.taken = [104, 105] ∧ s.taken <+: s.delivered := by
  obtain ⟨s, hrun, hdel, htaken⟩ : ∃ s, RunWhile Roomy ConsTrace.step (ConsTrace.init fun _ => 0)
      [.intr [104, 0, 105], .getc [] [], .getc [33] []] s ∧ s.delivered = [104, 105, 33] ∧
      s.taken = [104, 105] :=
    ⟨_, .cons (by decide) rfl
      (.cons (by decide) rfl (.cons (by decide) rfl .nil)), by decide, by decide⟩
  exact ⟨s, hrun, hdel, htaken, (cons_input_fifo hrun).1⟩

end Jos
