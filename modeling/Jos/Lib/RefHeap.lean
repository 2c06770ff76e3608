import Mathlib.Tactic
import Mathlib.Data.Fintype.Card
import Mathlib.Data.Fintype.Sum

/-!
# Reference-counted objects with a free list

A finite set of *slots* points to objects. Every object carries a `w`-bit counter, and the
objects nobody uses are on a free list. `held` are the objects that were taken from the free
list and have not been stored in a slot yet.

`Valid managed base` ties the parts together: the counter of a managed object is the number
of slots that point to it (plus `base`, the references from outside the slots), modulo
`2 ^ w`, and the free list holds exactly the managed objects without references that are not
held. The three operations `take`, `attach` and `detach` preserve it; `detach` needs the
counter not to have wrapped, because it frees the object when the counter reads zero.
-/

namespace Lib

/-- Slots, counters, free list, and the objects taken but not yet attached. -/
structure RefHeap (S P : Type*) (w : ℕ) where
  tgt : S → Option P
  ref : P → BitVec w
  free : List P
  held : Set P

variable {S P : Type*} {w : ℕ} [Fintype S] [DecidableEq S] [DecidableEq P]

/-- The number of slots that point to `p`. -/
def refs (tgt : S → Option P) (p : P) : ℕ := (Finset.univ.filter fun s => tgt s = some p).card

/-! ## Counting slots -/

omit [DecidableEq S] in
theorem refs_pos {tgt : S → Option P} {s : S} {p : P} (h : tgt s = some p) : 0 < refs tgt p :=
  Finset.card_pos.2 ⟨s, by simpa using h⟩

omit [DecidableEq S] in
theorem refs_eq_zero {tgt : S → Option P} {p : P} : refs tgt p = 0 ↔ ∀ s, tgt s ≠ some p := by
  simp [refs, Finset.filter_eq_empty_iff]

theorem refs_update_self {tgt : S → Option P} {s : S} {p : P} (h : tgt s = none) :
    refs (Function.update tgt s (some p)) p = refs tgt p + 1 := by
  have hins : (Finset.univ.filter fun t => Function.update tgt s (some p) t = some p) =
      insert s (Finset.univ.filter fun t => tgt t = some p) := by
    ext t
    by_cases ht : t = s
    · subst ht; simp
    · simp [ht]
  rw [refs, hins, Finset.card_insert_of_notMem (by simp [h])]
  rfl

theorem refs_update_of_ne {tgt : S → Option P} {s : S} {p : P} {v : Option P}
    (h : tgt s ≠ some p) (hv : v ≠ some p) :
    refs (Function.update tgt s v) p = refs tgt p := by
  unfold refs
  congr 1
  ext t
  by_cases ht : t = s
  · subst ht; simp [h, hv]
  · simp [ht]

theorem refs_update_none {tgt : S → Option P} {s : S} {p : P} (h : tgt s = some p) :
    refs (Function.update tgt s none) p = refs tgt p - 1 := by
  have her : (Finset.univ.filter fun t => Function.update tgt s none t = some p) =
      (Finset.univ.filter fun t => tgt t = some p).erase s := by
    ext t
    by_cases ht : t = s
    · subst ht; simp
    · simp [ht]
  rw [refs, her, Finset.card_erase_of_mem (by simpa using h)]
  rfl

theorem refs_update_le (tgt : S → Option P) (s : S) (v : Option P) (p : P) :
    refs (Function.update tgt s v) p ≤ refs tgt p + 1 := by
  have hsub : (Finset.univ.filter fun t => Function.update tgt s v t = some p) ⊆
      insert s (Finset.univ.filter fun t => tgt t = some p) := by
    intro t ht
    by_cases hts : t = s
    · subst hts; simp
    · simpa [hts] using ht
  exact (Finset.card_le_card hsub).trans (Finset.card_insert_le _ _)

omit [DecidableEq S] in
theorem refs_mono {tgt tgt' : S → Option P} {p : P}
    (h : ∀ s, tgt' s = some p → tgt s = some p) : refs tgt' p ≤ refs tgt p :=
  Finset.card_le_card fun s hs => by
    simp only [Finset.mem_filter, Finset.mem_univ, true_and] at hs ⊢
    exact h s hs

omit [DecidableEq S] in
theorem refs_le_one {tgt : S → Option P} {p : P}
    (h : ∀ s t, tgt s = some p → tgt t = some p → s = t) :
    refs tgt p ≤ 1 :=
  Finset.card_le_one.2 fun s hs t ht => h s t (by simpa using hs) (by simpa using ht)

omit [DecidableEq S] in
/-- Renaming the slots does not change the count. -/
theorem refs_equiv {T : Type*} [Fintype T] (e : S ≃ T) (tgt : S → Option P) (p : P) :
    refs tgt p = refs (tgt ∘ e.symm) p := by
  refine Finset.card_bij (fun s _ => e s) ?_ ?_ ?_
  · intro s hs
    simpa using hs
  · intro s _ t _ hst
    exact e.injective hst
  · intro t ht
    exact ⟨e.symm t, by simpa using ht, by simp⟩

omit [DecidableEq S] in
theorem refs_sum {T : Type*} [Fintype T] (tgt : S ⊕ T → Option P) (p : P) :
    refs tgt p = refs (tgt ∘ Sum.inl) p + refs (tgt ∘ Sum.inr) p := by
  simp only [refs, Finset.card_filter, Fintype.sum_sum_type, Function.comp]

/-! ## Validity -/

/-- The references that come from the slots in `q`. -/
def refsIn (q : S → Prop) [DecidablePred q] (tgt : S → Option P) (p : P) : ℕ :=
  (Finset.univ.filter fun s => q s ∧ tgt s = some p).card

omit [DecidableEq S] in
theorem refsIn_pos {q : S → Prop} [DecidablePred q] {tgt : S → Option P} {p : P} :
    0 < refsIn q tgt p ↔ ∃ s, q s ∧ tgt s = some p := by
  simp [refsIn, Finset.card_pos, Finset.filter_nonempty_iff]

/-- If the slots in `q` are emptied, each takes one reference with it. -/
theorem refs_without (q : S → Prop) [DecidablePred q] (tgt : S → Option P) (p : P) :
    refs (fun s => if q s then none else tgt s) p + refsIn q tgt p = refs tgt p := by
  unfold refs refsIn
  rw [← Finset.card_union_of_disjoint]
  · congr 1
    ext s
    by_cases hq : q s <;> simp [hq]
  · rw [Finset.disjoint_filter]
    intro s _ hs hq
    simp [hq.1] at hs

namespace RefHeap

/-- Counters and free list agree with the slots. -/
structure Valid (managed : Set P) (base : P → ℕ) (h : RefHeap S P w) : Prop where
  nodup : h.free.Nodup
  mem_free : ∀ p, p ∈ h.free ↔ p ∈ managed ∧ base p + refs h.tgt p = 0 ∧ p ∉ h.held
  ref_eq : ∀ p ∈ managed, h.ref p = BitVec.ofNat w (base p + refs h.tgt p)
  tgt_mem : ∀ s p, h.tgt s = some p → p ∈ managed
  held_mem : ∀ p ∈ h.held, p ∈ managed ∧ base p + refs h.tgt p = 0

variable {managed : Set P} {base : P → ℕ} {h : RefHeap S P w}

omit [DecidableEq S] in
theorem Valid.not_free (hv : h.Valid managed base) {s : S} {p : P} (hs : h.tgt s = some p) :
    p ∉ h.free := fun hp => by
  have := refs_pos hs
  have := ((hv.mem_free p).1 hp).2.1
  omega

/-- Take an object off the free list. -/
def take (h : RefHeap S P w) (p : P) (rest : List P) : RefHeap S P w :=
  { h with ref := Function.update h.ref p 0, free := rest, held := insert p h.held }

omit [DecidableEq S] in
theorem Valid.take (hv : h.Valid managed base) {p : P} {rest : List P}
    (hfree : h.free = p :: rest) : (h.take p rest).Valid managed base := by
  have hp := (hv.mem_free p).1 (by simp [hfree])
  have hnd := hv.nodup
  rw [hfree, List.nodup_cons] at hnd
  refine ⟨hnd.2, fun q => ?_, fun q hq => ?_, hv.tgt_mem, fun q hq => ?_⟩
  · have := hv.mem_free q
    rw [hfree, List.mem_cons] at this
    show q ∈ rest ↔ q ∈ managed ∧ base q + refs h.tgt q = 0 ∧ q ∉ insert p h.held
    by_cases hqp : q = p
    · subst hqp; simp [hnd.1]
    · simpa [hqp] using this
  · show Function.update h.ref p 0 q = BitVec.ofNat w (base q + refs h.tgt q)
    by_cases hqp : q = p
    · subst hqp; simp [hp.2.1]
    · simpa [hqp] using hv.ref_eq q hq
  · rcases hq with rfl | hq
    · exact ⟨hp.1, hp.2.1⟩
    · exact hv.held_mem q hq

/-- Store an object in an empty slot. -/
def attach (h : RefHeap S P w) (s : S) (p : P) : RefHeap S P w :=
  { h with tgt := Function.update h.tgt s (some p)
           ref := Function.update h.ref p (h.ref p + 1)
           held := h.held \ {p} }

theorem Valid.attach (hv : h.Valid managed base) {s : S} {p : P} (hs : h.tgt s = none)
    (hp : p ∈ managed) (hfree : p ∉ h.free) : (h.attach s p).Valid managed base := by
  have hself : refs (h.attach s p).tgt p = refs h.tgt p + 1 := refs_update_self hs
  have hother : ∀ q ≠ p, refs (h.attach s p).tgt q = refs h.tgt q := fun q hq =>
    refs_update_of_ne (by simp [hs]) (by simpa using Ne.symm hq)
  refine ⟨hv.nodup, fun q => ?_, fun q hq => ?_, fun t q ht => ?_, fun q hq => ?_⟩
  · by_cases hqp : q = p
    · subst hqp
      constructor
      · exact fun hq => (hfree hq).elim
      · rintro ⟨-, h0, -⟩
        rw [hself] at h0
        omega
    · rw [hother q hqp]
      have := hv.mem_free q
      simpa [RefHeap.attach, hqp] using this
  · show Function.update h.ref p (h.ref p + 1) q = _
    by_cases hqp : q = p
    · subst hqp
      rw [hself, Function.update_self, hv.ref_eq q hq, ← Nat.add_assoc,
        BitVec.ofNat_add (base q + refs h.tgt q) 1]
      rfl
    · rw [hother q hqp, Function.update_of_ne hqp, hv.ref_eq q hq]
  · change Function.update h.tgt s (some p) t = some q at ht
    by_cases hts : t = s
    · subst hts
      rw [Function.update_self] at ht
      exact Option.some.inj ht ▸ hp
    · rw [Function.update_of_ne hts] at ht
      exact hv.tgt_mem t q ht
  · obtain ⟨hq, hqp⟩ := hq
    rw [hother q hqp]
    exact hv.held_mem q hq

/-- Empty a slot, and free its object when the counter reaches zero. -/
def detach (h : RefHeap S P w) (s : S) (p : P) : RefHeap S P w :=
  { h with tgt := Function.update h.tgt s none
           ref := Function.update h.ref p (h.ref p - 1)
           free := if h.ref p - 1 = 0 then p :: h.free else h.free }

theorem Valid.detach (hv : h.Valid managed base) {s : S} {p : P} (hs : h.tgt s = some p)
    (hlt : base p + refs h.tgt p ≤ 2 ^ w) : (h.detach s p).Valid managed base := by
  have hp : p ∈ managed := hv.tgt_mem s p hs
  have hpos : 0 < refs h.tgt p := refs_pos hs
  have hself : refs (h.detach s p).tgt p = refs h.tgt p - 1 := refs_update_none hs
  have hother : ∀ q ≠ p, refs (h.detach s p).tgt q = refs h.tgt q := fun q hq =>
    refs_update_of_ne (by simpa [hs] using Ne.symm hq) (by simp)
  have hdec : h.ref p - 1 = BitVec.ofNat w (base p + (refs h.tgt p - 1)) := by
    rw [hv.ref_eq p hp, show base p + refs h.tgt p = base p + (refs h.tgt p - 1) + 1 by omega,
      BitVec.ofNat_add]
    exact BitVec.add_sub_cancel _ _
  -- The counter has not wrapped, so it reads zero exactly when the last slot is emptied.
  have hzero : h.ref p - 1 = 0 ↔ base p + (refs h.tgt p - 1) = 0 := by
    rw [hdec]
    constructor
    · intro h0
      have := congrArg BitVec.toNat h0
      simp only [BitVec.toNat_ofNat] at this
      rwa [Nat.mod_eq_of_lt (by omega)] at this
    · intro h0; rw [h0]; rfl
  have hnotfree : p ∉ h.free := hv.not_free hs
  have hnotheld : p ∉ h.held := fun hh => by
    have := (hv.held_mem p hh).2
    omega
  refine ⟨?_, fun q => ?_, fun q hq => ?_, fun t q ht => ?_, fun q hq => ?_⟩
  · show (if h.ref p - 1 = 0 then p :: h.free else h.free).Nodup
    split_ifs
    · exact List.nodup_cons.2 ⟨hnotfree, hv.nodup⟩
    · exact hv.nodup
  · show q ∈ (if h.ref p - 1 = 0 then p :: h.free else h.free) ↔ _
    by_cases hqp : q = p
    · subst hqp
      rw [hself, ← hzero]
      split_ifs with h0
      · exact ⟨fun _ => ⟨hp, h0, hnotheld⟩, fun _ => List.mem_cons_self⟩
      · simp only [hnotfree, false_iff, not_and]
        exact fun _ h0' => (h0 h0').elim
    · rw [hother q hqp]
      have := hv.mem_free q
      split_ifs <;> simpa [RefHeap.detach, hqp] using this
  · show Function.update h.ref p (h.ref p - 1) q = _
    by_cases hqp : q = p
    · subst hqp
      rw [hself, Function.update_self, hdec]
    · rw [hother q hqp, Function.update_of_ne hqp, hv.ref_eq q hq]
  · change Function.update h.tgt s none t = some q at ht
    by_cases hts : t = s
    · subst hts; simp at ht
    · rw [Function.update_of_ne hts] at ht
      exact hv.tgt_mem t q ht
  · have hqp : q ≠ p := fun e => hnotheld (e ▸ hq)
    rw [hother q hqp]
    exact hv.held_mem q hq

end RefHeap

end Lib
