import Mathlib.Tactic
import Jos.Lib.Run

/-!
# Processes that meet

Sequential processes with names. A message has no queue: it passes when its sender and its receiver
meet (`Net.Step.comm`). A process may also print, and fork a child under a name that no process has;
the fork may fail, and a message to a name that no process has fails, and then the process is dead.

A system that implements such a network is compared with it step by step: each of its steps is one
of the network, or changes nothing there (`RunWhile.refines`).
-/

namespace Lib

variable {ι α β σ : Type*}

/-- What a process does next. -/
inductive Action (ι α β σ : Type*)
  | send (dest : ι) (a : α) (next : σ)
  | recv (next : α → σ)
  | print (b : β) (next : σ)
  | fork (parent : ι → σ) (child : σ)

inductive Proc (σ : Type*)
  | run (s : σ)
  | dead

/-- The processes by their names, and what has been printed. -/
@[ext]
structure Net (ι β σ : Type*) where
  procs : ι → Option (Proc σ)
  out : List β

namespace Net

variable [DecidableEq ι] {prog : σ → Action ι α β σ}

/-- The process `i` goes on as `p`. -/
def set (n : Net ι β σ) (i : ι) (p : Proc σ) : Net ι β σ :=
  ⟨Function.update n.procs i (some p), n.out⟩

@[simp] theorem set_out (n : Net ι β σ) (i : ι) (p : Proc σ) : (n.set i p).out = n.out := rfl

@[simp] theorem set_self (n : Net ι β σ) (i : ι) (p : Proc σ) : (n.set i p).procs i = some p :=
  Function.update_self _ _ _

theorem set_of_ne (n : Net ι β σ) {i j : ι} (hne : j ≠ i) (p : Proc σ) :
    (n.set i p).procs j = n.procs j :=
  Function.update_of_ne hne _ _

theorem set_comm (n : Net ι β σ) {i j : ι} (hne : i ≠ j) (p q : Proc σ) :
    (n.set i p).set j q = (n.set j q).set i p := by
  unfold set
  rw [Function.update_comm hne]

/-- One step of a network whose processes run `prog`. -/
inductive Step (prog : σ → Action ι α β σ) (n : Net ι β σ) : Net ι β σ → Prop
  | comm {i j : ι} {s s' t : σ} {a : α} {k : α → σ} (hi : n.procs i = some (.run s))
      (hj : n.procs j = some (.run t)) (hs : prog s = .send j a s') (ht : prog t = .recv k) :
      Step prog n ((n.set i (.run s')).set j (.run (k a)))
  | print {i : ι} {s s' : σ} {b : β} (hi : n.procs i = some (.run s)) (hs : prog s = .print b s') :
      Step prog n ⟨(n.set i (.run s')).procs, n.out ++ [b]⟩
  | fork {i j : ι} {s : σ} {f : ι → σ} {g : σ} (hi : n.procs i = some (.run s))
      (hs : prog s = .fork f g) (hj : n.procs j = none) :
      Step prog n ((n.set i (.run (f j))).set j (.run g))
  | noFork {i : ι} {s : σ} {f : ι → σ} {g : σ} (hi : n.procs i = some (.run s))
      (hs : prog s = .fork f g) :
      Step prog n (n.set i .dead)
  | noReceiver {i j : ι} {s s' : σ} {a : α} (hi : n.procs i = some (.run s))
      (hs : prog s = .send j a s') (hj : n.procs j = none) : Step prog n (n.set i .dead)

/-- A step, or none. -/
def StepOrStay (prog : σ → Action ι α β σ) (n n' : Net ι β σ) : Prop := n' = n ∨ Step prog n n'

end Net

/-- **The refinement rule.** Where each good step leaves the image as it is or is a step of it, each
run leads to a state whose image can be reached. -/
theorem RunWhile.refines {τ : Type*} {good : σ → α → Prop} {step : σ → α → Option σ} {s t : σ}
    {l : List α} {P : σ → Prop} {R : τ → τ → Prop} (image : σ → τ) (h : RunWhile good step s l t)
    (hinit : P s) (hkeep : ∀ t a u, P t → good t a → step t a = some u → P u ∧
      (image u = image t ∨ R (image t) (image u))) :
    P t ∧ Relation.ReflTransGen R (image s) (image t) := by
  induction h with
  | nil => exact ⟨hinit, .refl⟩
  | snoc _ hg hstep ih =>
    obtain ⟨hP, hreach⟩ := ih
    obtain ⟨hP', heq | hR⟩ := hkeep _ _ _ hP hg hstep
    · rw [heq]
      exact ⟨hP', hreach⟩
    · exact ⟨hP', hreach.tail hR⟩

end Lib
