import Jos.Lib.LinkPath
import Jos.Pmap

/-!
# Reordering the free list

Before it tests the free list, `check_page_free_list` (`kern/pmap.c`) moves the pages with low
addresses to its front, since the first page directory does not map the others. It splits the list
in place: `tp` has, for each class of pages, a pointer to the link that the next page of the class
belongs into, at first the local variables `pp1` and `pp2`. Then the two lists are joined.

**The model.** The two variables and the links of the pages are cells of one memory (`LinkPtr`), so
a store through `tp` may hit any of them. Both variables start with any contents. The loop is
bounded by fuel.

**Invariant** (`Splitting`). From each variable a path leads through the pages of its class that
have been visited to the cell `tp` points to, and the pages to come are a chain that no store has
touched.

**Theorem (`reorder_stable`).** The reordering is a stable partition of the free list.
-/

namespace Jos

open Lib

/-! ## Definitions -/

/-- A `struct Page **`: one of the two variables, or the link of a page. -/
inductive LinkPtr
  | pp1
  | pp2
  | link (pp : ℕ)
  deriving DecidableEq

/-- `PDX(page2pa(pp)) >= pdx_limit`. -/
def pagetype (pdxLimit pp : ℕ) : Bool := decide (pdxLimit ≤ (PDX (page2pa pp)).val)

/-- The cells, and `tp`. -/
structure Splitter where
  mem : LinkPtr → Option ℕ
  tp : Bool → LinkPtr

/-- The body of the loop. -/
def splitPage (pdxLimit : ℕ) (s : Splitter) (pp : ℕ) : Splitter where
  mem := Function.update s.mem (s.tp (pagetype pdxLimit pp)) (some pp)
  tp := Function.update s.tp (pagetype pdxLimit pp) (.link pp)

/-- The loop from page `pp` on, which goes on at the link the page has after the body. -/
def splitLoop (pdxLimit : ℕ) : ℕ → Option ℕ → Splitter → Option Splitter
  | _, none, s => some s
  | 0, some _, _ => none
  | fuel + 1, some pp, s =>
    let s := splitPage pdxLimit s pp
    splitLoop pdxLimit fuel (s.mem (.link pp)) s

/-- `tp` before the loop. -/
def LinkPtr.head (pagetype : Bool) : LinkPtr := if pagetype then .pp2 else .pp1

/-- The cells before the loop. -/
def Phys.links (σ : Phys) (pp1 pp2 : Option ℕ) : LinkPtr → Option ℕ
  | .pp1 => pp1
  | .pp2 => pp2
  | .link pp => σ.ppLink pp

/-- `*tp[1] = 0; *tp[0] = pp2`. -/
def joinLists (s : Splitter) : LinkPtr → Option ℕ :=
  let mem := Function.update s.mem (s.tp true) none
  Function.update mem (s.tp false) (mem .pp2)

/-- `check_page_free_list(1)` up to the end of the reordering; `pp1` and `pp2` are not initialised.
-/
def reorderFreeList (fuel : ℕ) (σ : Phys) (pp1 pp2 : Option ℕ) : Except String Phys :=
  if σ.pageFreeList = none then .error "'page_free_list' is a null pointer!"
  else
    match splitLoop 1 fuel σ.pageFreeList ⟨σ.links pp1 pp2, .head⟩ with
    | none => .error "out of fuel"
    | some s =>
      let mem := joinLists s
      .ok { σ with ppLink := fun pp => mem (.link pp), pageFreeList := mem .pp1 }

/-! ## The loop -/

/-- The visited pages of a class. -/
def ofType (pdxLimit : ℕ) (t : Bool) (l : List ℕ) : List ℕ :=
  l.filter fun pp => pagetype pdxLimit pp = t

/-- The cells of a class: its variable, and the links of its pages. -/
def cells (pdxLimit : ℕ) (t : Bool) (l : List ℕ) : List LinkPtr :=
  .head t :: (ofType pdxLimit t l).map .link

/-- After the pages of `done`, with those of `rest` to come. -/
structure Splitting (pdxLimit : ℕ) (σ : Phys) (s : Splitter) (done : List ℕ) (pp : Option ℕ)
    (rest : List ℕ) : Prop where
  path : ∀ t, Path .link s.mem (.head t) (ofType pdxLimit t done) (s.tp t)
  chain : Chain (fun pp => s.mem (.link pp)) pp rest
  nodup : (done ++ rest).Nodup
  other : ∀ pp ∉ done, s.mem (.link pp) = σ.ppLink pp

variable {pdxLimit : ℕ} {σ : Phys} {s : Splitter} {done rest l : List ℕ} {pp : Option ℕ} {a : ℕ}
  {t t' : Bool}

theorem head_ne_link (t : Bool) (a : ℕ) : LinkPtr.head t ≠ .link a := by
  cases t <;> simp [LinkPtr.head]

theorem head_inj (h : LinkPtr.head t = .head t') : t = t' := by
  cases t <;> cases t' <;> simp_all [LinkPtr.head]

theorem link_mem_cells : .link a ∈ cells pdxLimit t l ↔ a ∈ l ∧ pagetype pdxLimit a = t := by
  simp [cells, ofType, (head_ne_link t a).symm]

theorem head_mem_cells : .head t' ∈ cells pdxLimit t l ↔ t' = t := by
  constructor
  · intro h
    rcases List.mem_cons.1 h with h | h
    · exact head_inj h
    · obtain ⟨a, -, ha⟩ := List.mem_map.1 h
      exact (head_ne_link t' a ha.symm).elim
  · rintro rfl
    exact List.mem_cons_self

theorem not_mem_cells {x : LinkPtr} (hx : x ∈ cells pdxLimit t l) (ht : t' ≠ t) :
    x ∉ cells pdxLimit t' l := by
  intro hx'
  rcases List.mem_cons.1 hx with rfl | hx
  · exact ht (head_mem_cells.1 hx').symm
  · obtain ⟨a, ha, rfl⟩ := List.mem_map.1 hx
    have htype : pagetype pdxLimit a = t := by simpa using (List.mem_filter.1 ha).2
    exact ht ((link_mem_cells.1 hx').2.symm.trans htype)

theorem nodup_cells (h : l.Nodup) : (cells pdxLimit t l).Nodup := by
  refine List.nodup_cons.2 ⟨fun hc => ?_, ?_⟩
  · obtain ⟨a, -, ha⟩ := List.mem_map.1 hc
    exact head_ne_link t a ha.symm
  · exact (h.filter _).map fun a b hab => LinkPtr.link.inj hab

theorem ofType_append_self : ofType pdxLimit (pagetype pdxLimit a) (l ++ [a]) =
    ofType pdxLimit (pagetype pdxLimit a) l ++ [a] := by
  simp [ofType]

theorem ofType_append_other (h : t ≠ pagetype pdxLimit a) :
    ofType pdxLimit t (l ++ [a]) = ofType pdxLimit t l := by
  simp [ofType, h.symm]

/-- **The body of the loop** appends the page to its class. -/
theorem Splitting.step (h : Splitting pdxLimit σ s done (some a) (a :: rest)) :
    Splitting pdxLimit σ (splitPage pdxLimit s a) (done ++ [a])
      ((splitPage pdxLimit s a).mem (.link a)) rest := by
  have hnd := h.nodup
  have hdone : done.Nodup := hnd.of_append_left
  have hnew : ∀ b ∈ a :: rest, b ∉ done :=
    fun b hb hc => (List.nodup_append.1 hnd).2.2 b hc b hb rfl
  have hlast : s.tp (pagetype pdxLimit a) ∈ cells pdxLimit (pagetype pdxLimit a) done :=
    (h.path _).last_mem
  have hlink : ∀ b ∉ done, (splitPage pdxLimit s a).mem (.link b) = s.mem (.link b) := by
    intro b hb
    apply Function.update_of_ne
    intro heq
    rw [← heq, link_mem_cells] at hlast
    exact hb hlast.1
  refine ⟨fun t => ?_, ?_, ?_, fun b hb => ?_⟩
  · by_cases ht : t = pagetype pdxLimit a
    · subst ht
      rw [ofType_append_self]
      simp only [splitPage, Function.update_self]
      exact (h.path _).append (nodup_cells hdone)
    · rw [ofType_append_other ht]
      simp only [splitPage, Function.update_of_ne ht]
      exact (h.path t).off (nodup_cells hdone) (not_mem_cells hlast ht)
  · obtain ⟨rest', heq, hrest⟩ := h.chain.pop
    obtain rfl : rest = rest' := (List.cons.inj heq).2
    rw [hlink a (hnew a List.mem_cons_self)]
    exact hrest.congr fun b hb => hlink b (hnew b (List.mem_cons_of_mem a hb))
  · rw [List.append_assoc]
    exact hnd
  · have hb' : b ∉ done := fun hc => hb (List.mem_append_left _ hc)
    rw [hlink b hb']
    exact h.other b hb'

theorem Splitting.loop (h : Splitting pdxLimit σ s done pp rest) :
    ∃ s', (∀ fuel, rest.length ≤ fuel → splitLoop pdxLimit fuel pp s = some s') ∧
      Splitting pdxLimit σ s' (done ++ rest) none [] := by
  induction rest generalizing s done pp with
  | nil =>
    obtain rfl : pp = none := by
      have hrest := h.chain
      cases hrest
      rfl
    refine ⟨s, fun fuel _ => ?_, ?_⟩
    · cases fuel <;> rfl
    · rw [List.append_nil]
      exact h
  | cons a rest ih =>
    obtain rfl : pp = some a := by
      have hrest := h.chain
      cases hrest
      rfl
    obtain ⟨s', hloop, hs'⟩ := ih h.step
    refine ⟨s', fun fuel hfuel => ?_, ?_⟩
    · cases fuel with
      | zero => exact (Nat.not_succ_le_zero _ hfuel).elim
      | succ fuel => exact hloop fuel (Nat.le_of_succ_le_succ hfuel)
    · rw [List.append_assoc] at hs'
      exact hs'

/-! ## The join -/

/-- **The two lists are joined**, also if one of them is empty. -/
theorem Splitting.join (h : Splitting pdxLimit σ s l none []) :
    Chain (fun pp => joinLists s (.link pp)) (joinLists s .pp1)
      (ofType pdxLimit false l ++ ofType pdxLimit true l) ∧
    ∀ pp ∉ l, joinLists s (.link pp) = σ.ppLink pp := by
  have hnd : l.Nodup := by
    have hnd := h.nodup
    rwa [List.append_nil] at hnd
  have hlow : s.tp false ∈ cells pdxLimit false l := (h.path false).last_mem
  have hhigh : s.tp true ∈ cells pdxLimit true l := (h.path true).last_mem
  have hoff : s.tp false ∉ cells pdxLimit true l := not_mem_cells hlow (by decide)
  have hne : s.tp true ≠ s.tp false := fun hc => hoff (hc ▸ hhigh)
  have hpp2 : LinkPtr.pp2 ≠ s.tp false := by
    intro hc
    rw [← hc] at hoff
    exact hoff (head_mem_cells.2 rfl)
  constructor
  · have hpath₁ : Path .link (joinLists s) .pp2 (ofType pdxLimit true l) (s.tp true) :=
      ((h.path true).fill (nodup_cells hnd)).off (nodup_cells hnd) hoff
    have hpath₀ : Path .link (joinLists s) .pp1 (ofType pdxLimit false l) (s.tp false) :=
      ((h.path false).off (nodup_cells hnd) (not_mem_cells hhigh (by decide))).fill
      (nodup_cells hnd)
    have hend : joinLists s (s.tp true) = none := by
      simp only [joinLists, Function.update_of_ne hne, Function.update_self]
    have hnext : joinLists s (s.tp false) = joinLists s .pp2 := by
      simp only [joinLists, Function.update_of_ne hpp2, Function.update_self]
    have hrest : Chain (fun pp => joinLists s (.link pp)) (joinLists s (s.tp true)) [] := by
      rw [hend]
      exact .nil
    apply hpath₀.chain
    rw [hnext, ← List.append_nil (ofType pdxLimit true l)]
    exact hpath₁.chain hrest
  · intro pp hpp
    have hcell : ∀ t, s.tp t ∈ cells pdxLimit t l → LinkPtr.link pp ≠ s.tp t := by
      intro t ht hc
      rw [← hc, link_mem_cells] at ht
      exact hpp ht.1
    simp only [joinLists, Function.update_of_ne (hcell false hlow), Function.update_of_ne
      (hcell true hhigh)]
    exact h.other pp hpp

/-- **The reordering is a stable partition**: the pages that the first page directory maps, then the
others, each in the order of the list. It writes no other link, whatever the two variables hold at
first. -/
theorem reorder_stable (hl : Chain σ.ppLink σ.pageFreeList l) (hne : l ≠ []) (pp1 pp2 : Option ℕ) :
    ∃ σ', (∀ fuel, l.length ≤ fuel → reorderFreeList fuel σ pp1 pp2 = .ok σ') ∧
      Chain σ'.ppLink σ'.pageFreeList
        (l.filter (fun pp => (PDX (page2pa pp)).val < 1) ++
          l.filter (fun pp => ¬ (PDX (page2pa pp)).val < 1)) ∧
      (l.filter (fun pp => (PDX (page2pa pp)).val < 1) ++
        l.filter (fun pp => ¬ (PDX (page2pa pp)).val < 1)).Perm l ∧
      (∀ pp ∉ l, σ'.ppLink pp = σ.ppLink pp) ∧
      σ' = { σ with ppLink := σ'.ppLink, pageFreeList := σ'.pageFreeList } := by
  have hsome : σ.pageFreeList ≠ none := by
    intro hc
    rw [hc] at hl
    exact hne hl.head_none
  have hinit : Splitting 1 σ ⟨σ.links pp1 pp2, .head⟩ [] σ.pageFreeList l :=
    ⟨fun _ => .nil, hl, by simpa using hl.nodup, fun _ _ => rfl⟩
  obtain ⟨s, hloop, hs⟩ := hinit.loop
  rw [List.nil_append] at hs
  obtain ⟨hchain, hother⟩ := hs.join
  have hlow : ofType 1 false l = l.filter fun pp => (PDX (page2pa pp)).val < 1 :=
    List.filter_congr fun pp _ => by simp only [pagetype, decide_eq_false_iff_not, not_le]
  have hhigh : ofType 1 true l = l.filter fun pp => ¬ (PDX (page2pa pp)).val < 1 :=
    List.filter_congr fun pp _ => by simp only [pagetype, decide_eq_true_eq, not_lt]
  rw [hlow, hhigh] at hchain
  refine ⟨{ σ with ppLink := fun pp => joinLists s (.link pp), pageFreeList := joinLists s .pp1 },
    fun fuel hfuel => ?_, hchain, ?_, hother, rfl⟩
  · rw [reorderFreeList, if_neg hsome, hloop fuel hfuel]
  · simpa only [decide_not] using List.filter_append_perm
      (fun pp => decide ((PDX (page2pa pp)).val < 1)) l

/-- Four free pages, alternately above and below the limit. -/
def mixedFree : Phys where
  npages := 2048
  mem := fun _ _ => 0
  ppRef := fun _ => 0
  ppLink := fun pp =>
    if pp = 1500 then some 3 else if pp = 3 then some 2000 else if pp = 2000 then some 5 else none
  pageFreeList := some 1500
  nAvailPages := 4
  kernPgdir := 0
  tlb := []

theorem reorder_stable_mixed :
    ∃ σ', (∀ fuel, 4 ≤ fuel → reorderFreeList fuel mixedFree none none = .ok σ') ∧
      Chain σ'.ppLink σ'.pageFreeList [3, 5, 1500, 2000] := by
  have hchain : Chain mixedFree.ppLink mixedFree.pageFreeList [1500, 3, 2000, 5] :=
    Chain.of_follow (n := 4) rfl
  obtain ⟨σ', hrun, hl, -⟩ := reorder_stable hchain (by decide) none none
  exact ⟨σ', hrun, hl⟩

end Jos
