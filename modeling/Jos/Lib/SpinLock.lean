import Mathlib.Tactic

/-!
# Spin locks that record their owner

A lock word taken by an atomic exchange, with a field that says who has it, as spin locks keep it
for debugging. Both operations first test whether the caller holds the lock, and give up if the
answer is wrong. Any number of processors are somewhere in the code of the two operations
(`LockPos`); a step of one of them is `SpinLock.go`, and the order of the steps is arbitrary.

The owner is not written in the same step as the word, so the two may disagree for a while. The
invariant (`SpinLock.Inv`) says who is between taking and releasing the lock, and what the owner
field is then. It follows that at most one processor is there (`Inv.unique`) and that no test fails
(`Inv.not_failed`), as long as a processor releases the lock only after it has taken it, which is
what `LockPos` expresses.
-/

namespace Lib

variable {ι : Type*}

/-- Where a processor is in the code of the lock. -/
inductive LockPos
  | out
  /-- In the lock operation, before the test. -/
  | lock
  /-- At the exchange. -/
  | spin
  /-- It has the lock, and has not recorded it. -/
  | record
  | held
  /-- In the unlock operation, before the test. -/
  | unlock
  /-- Before the owner is cleared. -/
  | clear
  /-- Before the word is cleared. -/
  | release
  /-- A test has failed. -/
  | failed
  deriving DecidableEq

/-- Between taking and releasing the lock. -/
def LockPos.Critical : LockPos → Prop
  | .record | .held | .unlock | .clear | .release => True
  | _ => False

/-- The owner field names this processor. -/
def LockPos.Owns : LockPos → Prop
  | .held | .unlock | .clear => True
  | _ => False

instance (p : LockPos) : Decidable p.Critical := by
  cases p <;> unfold LockPos.Critical <;> infer_instance

instance (p : LockPos) : Decidable p.Owns := by cases p <;> unfold LockPos.Owns <;> infer_instance

/-- The lock and the processors that use it. -/
structure SpinLock (ι : Type*) where
  locked : Bool
  owner : Option ι
  pos : ι → LockPos

namespace SpinLock

/-- The test of both operations. -/
def Holding (s : SpinLock ι) (c : ι) : Prop := s.locked = true ∧ s.owner = some c

/-- No processor is inside, or one of them is. -/
inductive Inv (s : SpinLock ι) : Prop
  | free (hlocked : s.locked = false) (howner : s.owner = none)
      (hpos : ∀ c, ¬ (s.pos c).Critical ∧ s.pos c ≠ .failed)
  | taken (c : ι) (hlocked : s.locked = true)
      (howner : s.owner = if (s.pos c).Owns then some c else none) (hpos : (s.pos c).Critical)
      (hothers : ∀ c', c' ≠ c → ¬ (s.pos c').Critical ∧ s.pos c' ≠ .failed)

variable {s : SpinLock ι} {c c' : ι}

theorem Inv.unique (h : Inv s) (hc : (s.pos c).Critical) (hc' : (s.pos c').Critical) : c = c' := by
  cases h with
  | free _ _ hpos => exact ((hpos c).1 hc).elim
  | taken c₀ _ _ _ hothers =>
    have heq : ∀ c, (s.pos c).Critical → c = c₀ := fun c hc =>
      not_not.1 fun hne => (hothers c hne).1 hc
    rw [heq c hc, heq c' hc']

theorem Inv.not_failed (h : Inv s) (c : ι) : s.pos c ≠ .failed := by
  cases h with
  | free _ _ hpos => exact (hpos c).2
  | taken c₀ _ _ hpos hothers =>
    by_cases hc : c = c₀
    · rintro hf
      rw [← hc, hf] at hpos
      exact hpos
    · exact (hothers c hc).2

theorem Inv.locked_iff (h : Inv s) : s.locked = true ↔ ∃ c, (s.pos c).Critical := by
  cases h with
  | free hlocked _ hpos =>
    rw [hlocked]
    exact ⟨nofun, fun ⟨c, hc⟩ => ((hpos c).1 hc).elim⟩
  | taken c₀ hlocked _ hpos _ => exact ⟨fun _ => ⟨c₀, hpos⟩, fun _ => hlocked⟩

/-- The test gives the right answer, but for the time it takes to record the owner. -/
theorem Inv.holding_iff (h : Inv s) : s.Holding c ↔ (s.pos c).Owns := by
  cases h with
  | free hlocked howner hpos =>
    constructor
    · rintro ⟨hl, -⟩
      rw [hlocked] at hl
      cases hl
    · intro ho
      refine ((hpos c).1 ?_).elim
      cases hp : s.pos c <;> rw [hp] at ho <;> first | exact ho.elim | trivial
  | taken c₀ hlocked howner hpos hothers =>
    unfold Holding
    by_cases hc : c = c₀
    · subst hc
      rw [howner]
      by_cases ho : (s.pos c).Owns
      · simp [hlocked, ho]
      · simp [ho]
    · have hno : ¬ (s.pos c).Owns := by
        intro ho
        refine (hothers c hc).1 ?_
        cases hp : s.pos c <;> rw [hp] at ho <;> first | exact ho.elim | trivial
      refine iff_of_false (fun hh => ?_) hno
      rw [howner] at hh
      by_cases ho : (s.pos c₀).Owns
      · rw [if_pos ho] at hh
        exact hc (Option.some.inj hh.2).symm
      · rw [if_neg ho] at hh
        cases hh.2

theorem Inv.outside {s' : SpinLock ι} (h : Inv s) (hlocked : s'.locked = s.locked)
    (howner : s'.owner = s.owner) (hother : ∀ c', c' ≠ c → s'.pos c' = s.pos c')
    (hout : ¬ (s.pos c).Critical) (hout' : ¬ (s'.pos c).Critical) (hok : s'.pos c ≠ .failed) :
    Inv s' := by
  cases h with
  | free hl ho hpos =>
    refine .free (hlocked.trans hl) (howner.trans ho) fun c' => ?_
    by_cases hc : c' = c
    · subst hc
      exact ⟨hout', hok⟩
    · rw [hother c' hc]
      exact hpos c'
  | taken c₀ hl ho hpos hothers =>
    have hne : c₀ ≠ c := fun hc => hout (hc ▸ hpos)
    refine .taken c₀ (hlocked.trans hl) ?_ ?_ fun c' hc' => ?_
    · rw [howner, hother c₀ hne]
      exact ho
    · rw [hother c₀ hne]
      exact hpos
    · by_cases hc : c' = c
      · subst hc
        exact ⟨hout', hok⟩
      · rw [hother c' hc]
        exact hothers c' hc'

theorem Inv.inside {s' : SpinLock ι} (h : Inv s) (hother : ∀ c', c' ≠ c → s'.pos c' = s.pos c')
    (hin : (s.pos c).Critical) (hlocked : s'.locked = true)
    (howner : s'.owner = if (s'.pos c).Owns then some c else none) (hin' : (s'.pos c).Critical) :
    Inv s' := by
  cases h with
  | free _ _ hpos => exact ((hpos c).1 hin).elim
  | taken c₀ _ _ hpos hothers =>
    obtain rfl : c = c₀ := not_not.1 fun hne => (hothers c hne).1 hin
    refine .taken c hlocked howner hin' fun c' hc' => ?_
    rw [hother c' hc']
    exact hothers c' hc'

/-! ## The operations -/

variable [DecidableEq ι]

instance (s : SpinLock ι) (c : ι) : Decidable (s.Holding c) := by unfold Holding; infer_instance

def setPos (s : SpinLock ι) (c : ι) (p : LockPos) : SpinLock ι :=
  { s with pos := Function.update s.pos c p }

/-- One step of processor `c`. From `out` it calls the lock operation, from `held` the unlock
operation. -/
def go (s : SpinLock ι) (c : ι) : SpinLock ι :=
  match s.pos c with
  | .out => s.setPos c .lock
  | .lock => if s.Holding c then s.setPos c .failed else s.setPos c .spin
  | .spin => if s.locked then s else { s.setPos c .record with locked := true }
  | .record => { s.setPos c .held with owner := some c }
  | .held => s.setPos c .unlock
  | .unlock => if s.Holding c then s.setPos c .clear else s.setPos c .failed
  | .clear => { s.setPos c .release with owner := none }
  | .release => { s.setPos c .out with locked := false }
  | .failed => s

@[simp] theorem pos_setPos_self (s : SpinLock ι) (c : ι) (p : LockPos) : (s.setPos c p).pos c = p :=
  Function.update_self ..

theorem pos_setPos_of_ne {c c' : ι} (h : c' ≠ c) (s : SpinLock ι) (p : LockPos) :
    (s.setPos c p).pos c' = s.pos c' := Function.update_of_ne h ..

theorem pos_go_of_ne {c c' : ι} (h : c' ≠ c) (s : SpinLock ι) : (s.go c).pos c' = s.pos c' := by
  unfold go
  split <;> (try split_ifs) <;> first | rfl | exact pos_setPos_of_ne h _ _

theorem pos_go_self (s : SpinLock ι) (c : ι) :
    (s.go c).pos c = match s.pos c with
      | .out => .lock
      | .lock => if s.Holding c then .failed else .spin
      | .spin => if s.locked then .spin else .record
      | .record => .held
      | .held => .unlock
      | .unlock => if s.Holding c then .clear else .failed
      | .clear => .release
      | .release => .out
      | .failed => .failed := by
  unfold go
  cases hp : s.pos c with
  | lock => simp only; split_ifs <;> simp
  | spin => simp only; split_ifs <;> simp [setPos, hp]
  | unlock => simp only; split_ifs <;> simp
  | failed => exact hp
  | _ => simp [setPos]

/-- **One step keeps the invariant.** -/
theorem Inv.go (h : Inv s) (c : ι) : Inv (s.go c) := by
  have hother : ∀ c', c' ≠ c → (s.go c).pos c' = s.pos c' := fun c' hc => pos_go_of_ne hc s
  have hhold := h.holding_iff (c := c)
  unfold SpinLock.go at hother ⊢
  cases hp : s.pos c with
  | out =>
    simp only [hp] at hother ⊢
    refine h.outside rfl rfl hother ?_ ?_ ?_ <;> simp [hp, LockPos.Critical]
  | lock =>
    have hno : ¬ s.Holding c := by simp [hhold, hp, LockPos.Owns]
    simp only [hp, if_neg hno] at hother ⊢
    refine h.outside rfl rfl hother ?_ ?_ ?_ <;> simp [hp, LockPos.Critical]
  | spin =>
    simp only [hp] at hother ⊢
    cases hl : s.locked with
    | true =>
      simpa using h
    | false =>
      -- the lock is free, so nobody is inside
      have hout : ∀ c', ¬ (s.pos c').Critical := by
        intro c' hc'
        rw [h.locked_iff.2 ⟨c', hc'⟩] at hl
        cases hl
      have howner : s.owner = none := by
        cases h with
        | free _ ho _ => exact ho
        | taken c₀ _ _ hpos _ => exact (hout c₀ hpos).elim
      simp only [hl, Bool.false_eq_true, if_false] at hother ⊢
      refine .taken c rfl ?_ ?_ fun c' hc' => ?_
      · simp [setPos, howner, LockPos.Owns]
      · simp [setPos, LockPos.Critical]
      · rw [hother c' hc']
        exact ⟨hout c', h.not_failed c'⟩
  | record =>
    simp only [hp] at hother ⊢
    refine h.inside hother (by simp [hp, LockPos.Critical]) ?_ ?_ ?_
    · exact h.locked_iff.2 ⟨c, by simp [hp, LockPos.Critical]⟩
    · simp [setPos, LockPos.Owns]
    · simp [setPos, LockPos.Critical]
  | held =>
    have hown : s.Holding c := by simp [hhold, hp, LockPos.Owns]
    simp only [hp] at hother ⊢
    refine h.inside hother (by simp [hp, LockPos.Critical]) hown.1 ?_ ?_
    · simp [setPos, LockPos.Owns, hown.2]
    · simp [setPos, LockPos.Critical]
  | unlock =>
    have hown : s.Holding c := by simp [hhold, hp, LockPos.Owns]
    simp only [hp, if_pos hown] at hother ⊢
    refine h.inside hother (by simp [hp, LockPos.Critical]) hown.1 ?_ ?_
    · simp [setPos, LockPos.Owns, hown.2]
    · simp [setPos, LockPos.Critical]
  | clear =>
    have hown : s.Holding c := by simp [hhold, hp, LockPos.Owns]
    simp only [hp] at hother ⊢
    refine h.inside hother (by simp [hp, LockPos.Critical]) hown.1 ?_ ?_
    · simp [setPos, LockPos.Owns]
    · simp [setPos, LockPos.Critical]
  | release =>
    simp only [hp] at hother ⊢
    cases h with
    | free _ _ hpos => exact ((hpos c).1 (by simp [hp, LockPos.Critical])).elim
    | taken c₀ _ howner _ hothers =>
      obtain rfl : c = c₀ :=
        not_not.1 fun hne => (hothers c hne).1 (by simp [hp, LockPos.Critical])
      refine .free rfl ?_ fun c' => ?_
      · simpa [setPos, hp, LockPos.Owns] using howner
      · by_cases hc : c' = c
        · subst hc
          simp [setPos, LockPos.Critical]
        · rw [hother c' hc]
          exact hothers c' hc
  | failed => exact (h.not_failed c hp).elim

end SpinLock

end Lib
