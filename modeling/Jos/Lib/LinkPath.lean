import Jos.Lib.Chain
import Mathlib.Tactic.Common

/-!
# Paths through link cells

A program that rebuilds a linked list in place holds pointers to links: to a variable with the head
of a list, or to the link field of a node. The links are cells of a memory. `Path link mem c l d`
says that what starts in cell `c` visits the nodes of `l` and goes on in cell `d`, whose contents do
not matter: `d` is where the next node is appended.

Writing the last cell keeps the path (`Path.fill`), writing a cell off the path too (`Path.off`),
and a path with a chain in its last cell is a chain (`Path.chain`).
-/

namespace Lib

variable {κ α : Type*}

/-- From cell `c` the nodes of `l`, up to cell `d`. -/
inductive Path (link : α → κ) (mem : κ → Option α) : κ → List α → κ → Prop
  | nil {c : κ} : Path link mem c [] c
  | cons {c d : κ} {a : α} {l : List α} (ha : mem c = some a) (h : Path link mem (link a) l d) :
    Path link mem c (a :: l) d

namespace Path

variable {link : α → κ} {mem mem' : κ → Option α} {c d x : κ} {a : α} {l r : List α} {v : Option α}

/-- The last cell is the first one, or the link of a node. -/
theorem last_mem (h : Path link mem c l d) : d ∈ c :: l.map link := by
  induction h with
  | nil => exact List.mem_cons_self
  | cons _ _ ih => exact List.mem_cons_of_mem _ ih

/-- The contents of the last cell do not matter, nor what is off the path. -/
theorem congr (h : Path link mem c l d) (hnd : (c :: l.map link).Nodup)
    (hmem : ∀ y ∈ c :: l.map link, y ≠ d → mem' y = mem y) : Path link mem' c l d := by
  induction h with
  | nil => exact .nil
  | @cons c d a l ha h ih =>
    obtain ⟨hc, hnd⟩ := List.nodup_cons.1 hnd
    have hcd : c ≠ d := fun hcd => hc (hcd ▸ h.last_mem)
    refine .cons ?_ (ih hnd fun x hx => hmem x (List.mem_cons_of_mem c hx))
    rw [hmem c List.mem_cons_self hcd]
    exact ha

theorem concat (h : Path link mem c l d) (ha : mem d = some a) :
    Path link mem c (l ++ [a]) (link a) := by
  induction h with
  | nil => exact .cons ha .nil
  | cons hb _ ih => exact .cons hb (ih ha)

/-- **A path with a chain behind it.** -/
theorem chain (h : Path link mem c l d) (hr : Chain (fun a => mem (link a)) (mem d) r) :
    Chain (fun a => mem (link a)) (mem c) (l ++ r) := by
  induction h with
  | nil => exact hr
  | cons ha _ ih =>
    rw [ha]
    exact .cons (ih hr)

variable [DecidableEq κ]

theorem fill (h : Path link mem c l d) (hnd : (c :: l.map link).Nodup) :
    Path link (Function.update mem d v) c l d :=
  h.congr hnd fun _ _ hy => Function.update_of_ne hy v mem

theorem off (h : Path link mem c l d) (hnd : (c :: l.map link).Nodup) (hx : x ∉ c :: l.map link) :
    Path link (Function.update mem x v) c l d := by
  refine h.congr hnd fun y hy _ => ?_
  have hyx : y ≠ x := fun hyx => hx (hyx ▸ hy)
  exact Function.update_of_ne hyx v mem

theorem append (h : Path link mem c l d) (hnd : (c :: l.map link).Nodup) :
    Path link (Function.update mem d (some a)) c (l ++ [a]) (link a) :=
  (h.fill hnd).concat (Function.update_self d (some a) mem)

end Path

end Lib
