import Jos.EnvOps

/-!
# TLB invalidation

`page_remove` and `page_insert` say of themselves that the TLB must be invalidated when a present
entry goes away. `page_remove` does so only when the page is freed (`dropPte`), and `page_insert`
only through `page_remove`, which it does not call when the page stays the same.

The results here say exactly when `tlb_invalidate` is called (`tlb_invalidated_iff`):

* by `page_remove`, if the page has one reference (`RemoveSole`);
* by `page_insert`, if the page changes and the old one has one reference (`InsertSole`). The old
  page is looked up after the flags have been or'ed into the directory entry; flags that are only
  flags do not change it (`insertSole_of_flags`).
-/

namespace Jos

variable {σ σ' : Phys} {d : Nat} {va perm : Word}

/-! ## What should happen -/

/-- The operation from `σ` to `σ'` calls `tlb_invalidate` for `va`. -/
def Invalidated (σ σ' : Phys) (d : Nat) (va : Word) : Prop := ∃ l, σ'.tlb = l ++ σ.tlb ∧ (d, va) ∈ l

/-- The entry of `va`, if its directory entry is present. -/
def ptePtr (σ : Phys) (d : Nat) (va : Word) : PtePtr := (PGNUM (σ.mem d (PDX va)), PTX va)

/-- The entry of `va` is present. -/
def MappedAt (σ : Phys) (d : Nat) (va : Word) : Prop :=
  Present (σ.mem d (PDX va)) ∧ Present (σ.load (ptePtr σ d va))

/-- `page_remove` invalidates what it clears. -/
def RemoveInvalidates (σ : Phys) (d : Nat) (va : Word) : Prop :=
  ∀ σ', pageRemove σ d va = .ok σ' → MappedAt σ d va → Invalidated σ σ' d va

/-- `page_insert` invalidates what it replaces. -/
def InsertInvalidates (σ : Phys) (d pp : Nat) (va perm : Word) : Prop :=
  ∀ σ', pageInsert σ d (some pp) va perm = .ok (0, σ') → MappedAt σ d va →
    σ'.load (ptePtr σ d va) ≠ σ.load (ptePtr σ d va) → Invalidated σ σ' d va

/-! ## When it does -/

/-- The page at `va` has no other reference. -/
def RemoveSole (σ : Phys) (d : Nat) (va : Word) : Prop :=
  ∀ q pte, pageLookup σ d va = .ok (some (q, pte)) → σ.ppRef q = 1

/-- The flags are or'ed into the directory entry of `va`. -/
def orFlags (σ : Phys) (d : Nat) (va perm : Word) : Phys :=
  σ.store (d, PDX va) (σ.mem d (PDX va) ||| (perm ||| PTE_P))

/-- If the entry of `va` changes, then so does the page, and the old one has no other reference. -/
def InsertSole (σ : Phys) (d pp : Nat) (va perm : Word) : Prop :=
  MappedAt σ d va → PGNUM (σ.mem d (PDX va)) < σ.npages →
    page2pa pp ||| perm ||| PTE_P ≠ σ.load (ptePtr σ d va) →
    page2pa pp ≠ PTE_ADDR ((orFlags σ d va perm).load (ptePtr σ d va)) ∧
      ∀ r, pageLookup (orFlags σ d va perm) d va = .ok r →
        ∃ q pte, r = some (q, pte) ∧ (incRef σ pp).ppRef q = 1

/-! ## `page_remove` -/

theorem tlb_pageDecref (σ : Phys) (q : Nat) : (pageDecref σ q).tlb = σ.tlb := by
  unfold pageDecref pageFree
  simp only
  split_ifs <;> rfl

theorem tlb_dropPte (σ : Phys) (d : Nat) (va : Word) (q : Nat) (pte : PtePtr) :
    (dropPte σ d va q pte).tlb = if σ.ppRef q = 1 then (d, va) :: σ.tlb else σ.tlb := by
  have hsub : σ.ppRef q - 1 = 0 ↔ σ.ppRef q = 1 := by
    constructor
    · intro h
      have := BitVec.sub_eq_iff_eq_add.1 h
      simpa using this
    · intro h
      rw [h]
      rfl
  unfold dropPte
  simp only [ppRef_pageDecref, Function.update_self, hsub]
  split_ifs
  · exact congrArg ((d, va) :: ·) (tlb_pageDecref σ q)
  · exact tlb_pageDecref σ q

theorem not_invalidated (h : σ'.tlb = σ.tlb) : ¬ Invalidated σ σ' d va := by
  rintro ⟨l, hl, hmem⟩
  rw [h] at hl
  rw [List.self_eq_append_left.1 hl] at hmem
  cases hmem

theorem invalidated_dropPte {q : Nat} {pte : PtePtr} :
    Invalidated σ (dropPte σ d va q pte) d va ↔ σ.ppRef q = 1 := by
  have htlb := tlb_dropPte σ d va q pte
  split_ifs at htlb with href
  · exact ⟨fun _ => href, fun _ => ⟨[(d, va)], htlb, List.mem_singleton.2 rfl⟩⟩
  · exact ⟨fun h => (not_invalidated htlb h).elim, fun h => (href h).elim⟩

theorem pgdirWalk_present (hpr : Present (σ.mem d (PDX va))) (create : Bool) :
    pgdirWalk σ d va create =
      (pa2page σ (σ.mem d (PDX va))).map fun pg => (some (pg, PTX va), σ) := by
  rw [pgdirWalk, if_pos hpr]
  cases pa2page σ (σ.mem d (PDX va)) <;> rfl

theorem pageLookup_mapped {r : Option (Nat × PtePtr)} (h : MappedAt σ d va)
    (hr : pageLookup σ d va = .ok r) :
    r = some (PGNUM (σ.load (ptePtr σ d va)), ptePtr σ d va) := by
  rw [pageLookup, pgdirWalk_present h.1, pa2page] at hr
  split_ifs at hr with hlt
  · cases hr
  · change (if Present (σ.load (ptePtr σ d va)) then _ else _) = _ at hr
    rw [if_pos h.2, pa2page, PGNUM_PTE_ADDR] at hr
    split_ifs at hr
    · cases hr
    · cases hr
      rfl

theorem pageLookup_of_mapped (h : MappedAt σ d va) (hlt : PGNUM (σ.mem d (PDX va)) < σ.npages)
    (hpg : PGNUM (σ.load (ptePtr σ d va)) < σ.npages) :
    pageLookup σ d va = .ok (some (PGNUM (σ.load (ptePtr σ d va)), ptePtr σ d va)) := by
  rw [pageLookup, pgdirWalk_present h.1, pa2page_of_lt hlt]
  change (if Present (σ.load (ptePtr σ d va)) then _ else _) = _
  rw [if_pos h.2, pa2page_of_lt (by rwa [PGNUM_PTE_ADDR]), PGNUM_PTE_ADDR]
  rfl

theorem mappedAt_of_lookup {q : Nat} {pte : PtePtr} (hr : pageLookup σ d va = .ok (some (q, pte))) :
    MappedAt σ d va := by
  by_cases hpr : Present (σ.mem d (PDX va))
  · refine ⟨hpr, ?_⟩
    by_contra hpte
    rw [pageLookup, pgdirWalk_present hpr, pa2page] at hr
    split_ifs at hr with hlt
    · cases hr
    · change (if Present (σ.load (ptePtr σ d va)) then _ else _) = _ at hr
      rw [if_neg hpte] at hr
      cases hr
  · rw [pageLookup, pgdirWalk, if_neg hpr] at hr
    cases hr

theorem pageRemove_of_lookup {q : Nat} {pte : PtePtr}
    (hr : pageLookup σ d va = .ok (some (q, pte))) :
    pageRemove σ d va = .ok (dropPte σ d va q pte) := by
  rw [pageRemove, hr]
  rfl

theorem lookup_of_pageRemove (h : pageRemove σ d va = .ok σ') : ∃ r, pageLookup σ d va = .ok r := by
  rw [pageRemove] at h
  cases hr : pageLookup σ d va with
  | error msg =>
    rw [hr] at h
    cases h
  | ok r => exact ⟨r, rfl⟩

theorem remove_invalidates_iff : RemoveInvalidates σ d va ↔ RemoveSole σ d va := by
  constructor
  · intro h q pte hr
    exact invalidated_dropPte.1 (h _ (pageRemove_of_lookup hr) (mappedAt_of_lookup hr))
  · intro h σ' hrem hmap
    obtain ⟨r, hr⟩ := lookup_of_pageRemove hrem
    rw [pageLookup_mapped hmap hr] at hr
    rw [pageRemove_of_lookup hr] at hrem
    cases hrem
    exact invalidated_dropPte.2 (h _ _ hr)

/-! ## `page_insert` -/

section
variable {pp : Nat}

theorem load_orFlags (σ : Phys) (d : Nat) (va perm : Word) {pte : PtePtr}
    (h : Present (σ.load pte)) :
    Present ((orFlags σ d va perm).load pte) := by
  change Present ((σ.store (d, PDX va) (σ.mem d (PDX va) ||| (perm ||| PTE_P))).mem pte.1 pte.2)
  rw [Phys.mem_store]
  split_ifs with hpte
  · exact present_or.2 (.inr (present_or_PTE_P perm))
  · exact h

theorem pageInsert_mapped (h : MappedAt σ d va) (hlt : PGNUM (σ.mem d (PDX va)) < σ.npages) :
    pageInsert σ d (some pp) va perm =
      (if page2pa pp ≠ PTE_ADDR ((orFlags σ d va perm).load (ptePtr σ d va)) then
        pageRemove (incRef (orFlags σ d va perm) pp) d va
      else .ok (orFlags σ d va perm)).map
        fun σ' => (0, σ'.store (ptePtr σ d va) (page2pa pp ||| perm ||| PTE_P)) := by
  have hwalk : pgdirWalk σ d va true = .ok (some (ptePtr σ d va), σ) := by
    rw [pgdirWalk_present h.1, pa2page_of_lt hlt]
    rfl
  have hpr := load_orFlags σ d va perm h.2
  have hpr' : Present ((incRef (orFlags σ d va perm) pp).load (ptePtr σ d va)) := hpr
  have hor : σ.store (d, PDX va) (σ.mem d (PDX va) ||| (perm ||| PTE_P)) = orFlags σ d va perm :=
    rfl
  rw [pageInsert_of_walk hwalk, installPte]
  simp only [hor]
  by_cases hne : page2pa pp ≠ PTE_ADDR ((orFlags σ d va perm).load (ptePtr σ d va))
  · rw [if_pos hne, if_pos hne, if_pos hpr']
    cases pageRemove (incRef (orFlags σ d va perm) pp) d va <;> rfl
  · rw [if_neg hne, if_neg hne]
    rfl

/-- If the page stays the same, nothing is invalidated. -/
theorem pageInsert_same (h : MappedAt σ d va) (hlt : PGNUM (σ.mem d (PDX va)) < σ.npages)
    (heq : page2pa pp = PTE_ADDR ((orFlags σ d va perm).load (ptePtr σ d va))) :
    ∃ σ', pageInsert σ d (some pp) va perm = .ok (0, σ') ∧
      σ'.load (ptePtr σ d va) = page2pa pp ||| perm ||| PTE_P ∧ ¬ Invalidated σ σ' d va := by
  refine ⟨(orFlags σ d va perm).store (ptePtr σ d va) (page2pa pp ||| perm ||| PTE_P), ?_, ?_, ?_⟩
  · rw [pageInsert_mapped h hlt, if_neg (not_not.2 heq)]
    rfl
  · rw [Phys.load, Phys.mem_store, if_pos ⟨rfl, rfl⟩]
  · exact not_invalidated rfl

/-- If the page changes, what `page_remove` does decides. -/
theorem pageInsert_other {r : Option (Nat × PtePtr)} (h : MappedAt σ d va)
    (hlt : PGNUM (σ.mem d (PDX va)) < σ.npages)
    (hne : page2pa pp ≠ PTE_ADDR ((orFlags σ d va perm).load (ptePtr σ d va)))
    (hr : pageLookup (orFlags σ d va perm) d va = .ok r) :
    ∃ σ', pageInsert σ d (some pp) va perm = .ok (0, σ') ∧
      σ'.load (ptePtr σ d va) = page2pa pp ||| perm ||| PTE_P ∧
      (Invalidated σ σ' d va ↔ ∃ q pte, r = some (q, pte) ∧ (incRef σ pp).ppRef q = 1) := by
  rw [← pageLookup_incRef _ pp] at hr
  rw [pageInsert_mapped h hlt, if_pos hne, pageRemove, hr]
  cases r with
  | none =>
    refine ⟨_, rfl, ?_, ?_⟩
    · rw [Phys.load, Phys.mem_store, if_pos ⟨rfl, rfl⟩]
    · refine ⟨fun hinv => (not_invalidated rfl hinv).elim, ?_⟩
      rintro ⟨q, pte, hnone, -⟩
      cases hnone
  | some x =>
    obtain ⟨q, pte⟩ := x
    refine ⟨_, rfl, ?_, ?_⟩
    · rw [Phys.load, Phys.mem_store, if_pos ⟨rfl, rfl⟩]
    · have hdrop : Invalidated σ (dropPte (incRef (orFlags σ d va perm) pp) d va q pte) d va ↔
          (incRef σ pp).ppRef q = 1 := invalidated_dropPte (σ := incRef (orFlags σ d va perm) pp)
      refine ⟨fun hinv => ⟨q, pte, rfl, hdrop.1 hinv⟩, ?_⟩
      rintro ⟨q', pte', hsome, href⟩
      cases hsome
      exact hdrop.2 href

theorem insert_invalidates_iff : InsertInvalidates σ d pp va perm ↔ InsertSole σ d pp va perm := by
  constructor
  · intro h hmap hlt hnew
    refine ⟨fun heq => ?_, fun r hr => ?_⟩
    · obtain ⟨σ', hok, hload, hnot⟩ := pageInsert_same hmap hlt heq
      exact hnot (h σ' hok hmap (hload ▸ hnew))
    · by_cases heq : page2pa pp = PTE_ADDR ((orFlags σ d va perm).load (ptePtr σ d va))
      · obtain ⟨σ', hok, hload, hnot⟩ := pageInsert_same hmap hlt heq
        exact (hnot (h σ' hok hmap (hload ▸ hnew))).elim
      · obtain ⟨σ', hok, hload, hiff⟩ := pageInsert_other hmap hlt heq hr
        exact hiff.1 (h σ' hok hmap (hload ▸ hnew))
  · intro h σ' hins hmap hnew
    have hlt : PGNUM (σ.mem d (PDX va)) < σ.npages := by
      by_contra hge
      rw [pageInsert, pgdirWalk_present hmap.1, pa2page, if_pos (not_lt.1 hge)] at hins
      cases hins
    by_cases heq : page2pa pp = PTE_ADDR ((orFlags σ d va perm).load (ptePtr σ d va))
    · obtain ⟨σ'', hok, hload, -⟩ := pageInsert_same hmap hlt heq
      rw [hok] at hins
      cases hins
      exact ((h hmap hlt (hload ▸ hnew)).1 heq).elim
    · cases hr : pageLookup (orFlags σ d va perm) d va with
      | error msg =>
        rw [pageInsert_mapped hmap hlt, if_pos heq, pageRemove, pageLookup_incRef, hr] at hins
        cases hins
      | ok r =>
        obtain ⟨σ'', hok, hload, hiff⟩ := pageInsert_other hmap hlt heq hr
        rw [hok] at hins
        cases hins
        exact hiff.2 ((h hmap hlt (hload ▸ hnew)).2 r hr)

/-- With flags only, and a page table that is not the directory itself: the old page is the one the
entry names. -/
theorem insertSole_of_flags (hperm : PTE_ADDR perm = 0) (hmap : MappedAt σ d va)
    (htab : ptePtr σ d va ≠ (d, PDX va)) (hlt : PGNUM (σ.mem d (PDX va)) < σ.npages)
    (hpg : PGNUM (σ.load (ptePtr σ d va)) < σ.npages)
    (hnew : page2pa pp ||| perm ||| PTE_P ≠ σ.load (ptePtr σ d va)) :
    InsertSole σ d pp va perm ↔ page2pa pp ≠ PTE_ADDR (σ.load (ptePtr σ d va)) ∧
      (incRef σ pp).ppRef (PGNUM (σ.load (ptePtr σ d va))) = 1 := by
  have hload : (orFlags σ d va perm).load (ptePtr σ d va) = σ.load (ptePtr σ d va) := by
    rw [Phys.load, orFlags, Phys.mem_store, if_neg fun h => htab (Prod.ext h.1 h.2)]
    rfl
  have hpde : (orFlags σ d va perm).mem d (PDX va) = σ.mem d (PDX va) ||| (perm ||| PTE_P) := by
    rw [orFlags, Phys.mem_store, if_pos ⟨rfl, rfl⟩]
  have hpte : ptePtr (orFlags σ d va perm) d va = ptePtr σ d va := by
    have haddr : PTE_ADDR (perm ||| PTE_P) = 0 := by
      rw [PTE_ADDR_or, hperm, PTE_ADDR_PTE_P]
      rfl
    have hpg : PGNUM (σ.mem d (PDX va) ||| (perm ||| PTE_P)) = PGNUM (σ.mem d (PDX va)) := by
      apply PGNUM_congr
      rw [PTE_ADDR_or, haddr]
      exact BitVec.or_zero
    rw [ptePtr, hpde, hpg]
    rfl
  have hmap' : MappedAt (orFlags σ d va perm) d va := by
    refine ⟨?_, ?_⟩
    · rw [hpde]
      exact present_or.2 (.inl hmap.1)
    · rw [hpte]
      exact load_orFlags σ d va perm hmap.2
  have hlook : pageLookup (orFlags σ d va perm) d va =
      .ok (some (PGNUM (σ.load (ptePtr σ d va)), ptePtr σ d va)) := by
    rw [pageLookup_of_mapped hmap' (lt_of_eq_of_lt (congrArg Prod.fst hpte) hlt), hpte, hload]
    rw [hpte, hload]
    exact hpg
  refine ⟨fun h => ?_, fun h _ _ _ => ?_⟩
  · obtain ⟨hne, hr⟩ := h hmap hlt hnew
    obtain ⟨q, pte, hsome, href⟩ := hr _ hlook
    cases hsome
    rw [hload] at hne
    exact ⟨hne, href⟩
  · rw [hload]
    refine ⟨h.1, fun r hr => ?_⟩
    rw [hlook] at hr
    cases hr
    exact ⟨_, _, rfl, h.2⟩

end

/-- **When the TLB is invalidated.** `page_remove` calls `tlb_invalidate` for the page it unmaps if
and only if it was the last reference, and `page_insert` for the entry it replaces if and only if
the page changes and the old one had no other reference. -/
theorem tlb_invalidated_iff (σ : Phys) (d pp : Nat) (va perm : Word) :
    (RemoveInvalidates σ d va ↔ RemoveSole σ d va) ∧
      (InsertInvalidates σ d pp va perm ↔ InsertSole σ d pp va perm) :=
  ⟨remove_invalidates_iff, insert_invalidates_iff⟩

/-- Page 1 is a directory, page 2 its page table, and page 3 is mapped at `0x800000`. It has a
second reference. -/
def sharedPhys : Phys where
  npages := 16
  mem f i :=
    if f = 1 ∧ i = 2 then page2pa 2 ||| PTE_P ||| PTE_W ||| PTE_U
    else if f = 2 ∧ i = 0 then page2pa 3 ||| PTE_P ||| PTE_W ||| PTE_U
    else 0
  ppRef p := if p = 3 then 2 else 1
  ppLink _ := none
  pageFreeList := none
  nAvailPages := 0
  kernPgdir := 0
  tlb := []

/-- Neither the removal of the shared page nor its insertion with fewer permissions invalidates
the TLB. -/
theorem tlb_stays_stale : ¬ RemoveInvalidates sharedPhys 1 0x800000 ∧
    ¬ InsertInvalidates sharedPhys 1 3 0x800000 PTE_U := by
  have hmap : MappedAt sharedPhys 1 0x800000 := ⟨by decide, by decide⟩
  constructor
  · intro h
    have hsole := remove_invalidates_iff.1 h 3 (2, 0) rfl
    exact absurd hsole (by decide)
  · intro h
    have hsole := insert_invalidates_iff.1 h hmap (by decide) (by decide)
    exact hsole.1 (by decide)

end Jos
