import Jos.PageTable

/-!
# The page operations

`pgdir_walk`, `page_lookup`, `page_remove` and `page_insert` on a live directory `d` of
environment `e`, at an address below `UTOP`. Each is specified by its effect on the map `vm`
and shown to keep `PInv`:

* a walk that creates a table changes no entry of `vm`;
* `page_remove` zeroes one entry;
* `page_insert` writes one entry, or fails and changes nothing at all.

`Dropped` is the part of the specification that `page_remove` shares with `env_free`: only
slots of one environment are emptied. It composes.

A reference count that has wrapped would free a page in use, so the operations that drop a
reference ask for the page they drop to have at most `2 ^ 16` of them.
-/

namespace Jos

open Lib

variable {managed : Set Nat} {base : Nat → ℕ} {σ σ₁ σ₂ : Phys}
  {dirs dirs₁ dirs₂ : EnvIdx → Option Nat} {free free₁ free₂ : List Nat} {held : Set Nat}
  {e : EnvIdx} {d : Nat} {va : Word}

/-! ## `pgdir_walk` -/

theorem pa2page_of_lt {w : Word} (h : PGNUM w < σ.npages) : pa2page σ w = .ok (PGNUM w) := by
  simp [pa2page, Nat.not_le.2 h]

theorem pde_of_target {i : Idx} {pt : Nat} (hd : dirs e = some d) (hi : i.User)
    (hpt : target σ dirs (.pde e i) = some pt) : Present (σ.mem d i) ∧ PGNUM (σ.mem d i) = pt := by
  simp only [target, pdes_of_dir hd hi, named] at hpt
  split_ifs at hpt with hpr
  exact ⟨hpr, Option.some.inj hpt⟩

theorem pde_of_absent {i : Idx} (hd : dirs e = some d) (hi : i.User)
    (habs : target σ dirs (.pde e i) = none) : ¬ Present (σ.mem d i) := by
  simpa only [target, pdes_of_dir hd hi, named_eq_none] using habs

theorem PInv.walk_present (h : PInv managed base σ dirs free held) (hd : dirs e = some d)
    (hi : (PDX va).User) {pt : Nat} (hpt : target σ dirs (.pde e (PDX va)) = some pt)
    (create : Bool) : pgdirWalk σ d va create = .ok (some (pt, PTX va), σ) := by
  obtain ⟨hpr, hpg⟩ := pde_of_target hd hi hpt
  rw [pgdirWalk, if_pos hpr, pa2page_of_lt (by rw [hpg]; exact h.lt_npages hpt), hpg]
  rfl

theorem walk_absent (hd : dirs e = some d) (hi : (PDX va).User)
    (habs : target σ dirs (.pde e (PDX va)) = none) : pgdirWalk σ d va false = .ok (none, σ) := by
  rw [pgdirWalk, if_neg (pde_of_absent hd hi habs), if_pos rfl]
  rfl

/-- Without free pages no table can be created, and nothing changes. -/
theorem PInv.walk_no_mem (h : PInv managed base σ dirs [] held) (hd : dirs e = some d)
    (hi : (PDX va).User) (habs : target σ dirs (.pde e (PDX va)) = none) :
    pgdirWalk σ d va true = .ok (none, σ) := by
  rw [pgdirWalk, if_neg (pde_of_absent hd hi habs), if_neg (by simp), pageAlloc, h.head_eq_none]
  rfl

/-- The state after `pgdir_walk` has put the page table `q` into directory entry `PDX va`. -/
def withTable (σ : Phys) (d : Nat) (va : Word) (q : Nat) : Phys :=
  (incRef (pageAlloc σ true).2 q).store (d, PDX va) (page2pa q ||| PTE_P ||| PTE_W)

/-- **Creating a table** takes the first free page and changes no entry of the map. -/
theorem PInv.walk_create {q : Nat} {rest : List Nat}
    (h : PInv managed base σ dirs (q :: rest) held) (hd : dirs e = some d) (hi : (PDX va).User)
    (habs : target σ dirs (.pde e (PDX va)) = none) :
    pgdirWalk σ d va true = .ok (some (q, PTX va), withTable σ d va q) ∧
      PInv managed base (withTable σ d va q) dirs rest held ∧
      target (withTable σ d va q) dirs =
        Function.update (target σ dirs) (.pde e (PDX va)) (some q) ∧
      pdes (withTable σ d va q) dirs =
        Function.update (pdes σ dirs) (e, PDX va) (page2pa q ||| PTE_P ||| PTE_W) ∧
      vm (withTable σ d va q) dirs = vm σ dirs := by
  obtain ⟨hret, hinv, hpdes, hvm⟩ := h.alloc true
  have htgt := target_congr hpdes hvm
  have hzero : ∀ j, (pageAlloc σ true).2.mem q j = 0 := fun j => by
    rw [mem_pageAlloc h.head_eq, if_pos ⟨rfl, rfl⟩]
  have hqheld : q ∉ held := ((h.valid.mem_free q).1 List.mem_cons_self).2.2
  obtain ⟨hinv', htgt', hpdes', hvm'⟩ := hinv.attachPde hd hi (by rw [htgt]; exact habs)
    (Set.mem_insert q held) hzero PTE_ADDR_PTE_W
  rw [Set.insert_sdiff_self_of_notMem hqheld] at hinv'
  rw [htgt] at htgt'
  rw [hpdes] at hpdes'
  rw [hvm] at hvm'
  refine ⟨?_, hinv', htgt', hpdes', hvm'⟩
  rw [pgdirWalk, if_neg (pde_of_absent hd hi habs), if_neg (by simp)]
  rw [show pageAlloc σ true = (some q, (pageAlloc σ true).2) from Prod.ext hret rfl]
  rfl

theorem mem_withTable {q : Nat} (hhead : σ.pageFreeList = some q) {f : Nat} (hfq : f ≠ q)
    (i : Idx) (hfd : ¬ (f = d ∧ i = PDX va)) : (withTable σ d va q).mem f i = σ.mem f i := by
  rw [withTable, Phys.mem_store, if_neg hfd]
  show (pageAlloc σ true).2.mem f i = σ.mem f i
  rw [mem_pageAlloc hhead, if_neg (fun hc => hfq hc.2)]

theorem static_withTable (σ : Phys) (d : Nat) (va : Word) (q : Nat) :
    (withTable σ d va q).npages = σ.npages ∧ (withTable σ d va q).kernPgdir = σ.kernPgdir := by
  unfold withTable pageAlloc
  cases σ.pageFreeList <;> simp [Phys.store, incRef]

/-! ## `page_lookup` -/

theorem PInv.lookup (h : PInv managed base σ dirs free held) (hd : dirs e = some d)
    (hi : (PDX va).User) :
    ∃ r, pageLookup σ d va = .ok r ∧
      r.map Prod.fst = target σ dirs (.pte e (PDX va) (PTX va)) ∧
      ∀ pp pte, r = some (pp, pte) →
        target σ dirs (.pde e (PDX va)) = some pte.1 ∧ pte.2 = PTX va := by
  cases hpt : target σ dirs (.pde e (PDX va)) with
  | none =>
    refine ⟨none, ?_, by simp [target_pte_absent hpt], by simp⟩
    rw [pageLookup, walk_absent hd hi hpt]
    rfl
  | some pt =>
    have hload : σ.load (pt, PTX va) = vm σ dirs (e, PDX va, PTX va) := (vm_of_present hpt _).symm
    by_cases hpr : Present (vm σ dirs (e, PDX va, PTX va))
    · have hpte : target σ dirs (.pte e (PDX va) (PTX va)) =
          some (PGNUM (vm σ dirs (e, PDX va, PTX va))) := named_of_present hpr
      have hpg : PGNUM (PTE_ADDR (vm σ dirs (e, PDX va, PTX va))) =
          PGNUM (vm σ dirs (e, PDX va, PTX va)) := PGNUM_congr (by
        rw [← page2pa_PGNUM (vm σ dirs (e, PDX va, PTX va)), PTE_ADDR_page2pa])
      refine ⟨some (PGNUM (vm σ dirs (e, PDX va, PTX va)), pt, PTX va), ?_, hpte.symm, ?_⟩
      · rw [pageLookup, h.walk_present hd hi hpt]
        show (if Present (σ.load (pt, PTX va)) then _ else _) = _
        rw [hload, if_pos hpr, pa2page_of_lt (by rw [hpg]; exact h.lt_npages hpte), hpg]
        rfl
      · rintro pp pte ⟨⟩
        exact ⟨rfl, rfl⟩
    · refine ⟨none, ?_, by simp [target, named_eq_none.2 hpr], by simp⟩
      rw [pageLookup, h.walk_present hd hi hpt]
      show (if Present (σ.load (pt, PTX va)) then _ else _) = _
      rw [hload, if_neg hpr]
      rfl

theorem PInv.lookup_some (h : PInv managed base σ dirs free held) (hd : dirs e = some d)
    (hi : (PDX va).User) {q : Nat} (hq : target σ dirs (.pte e (PDX va) (PTX va)) = some q) :
    ∃ pt, target σ dirs (.pde e (PDX va)) = some pt ∧
      pageLookup σ d va = .ok (some (q, pt, PTX va)) := by
  obtain ⟨r, hr, hmap, hptr⟩ := h.lookup hd hi
  rw [hq] at hmap
  cases r with
  | none => cases hmap
  | some x =>
    obtain ⟨pp, pt, j⟩ := x
    obtain ⟨hpt, hj⟩ := hptr pp (pt, j) rfl
    obtain rfl : pp = q := Option.some.inj hmap
    obtain rfl : j = PTX va := hj
    exact ⟨pt, hpt, hr⟩

theorem PInv.lookup_none (h : PInv managed base σ dirs free held) (hd : dirs e = some d)
    (hi : (PDX va).User) (hq : target σ dirs (.pte e (PDX va) (PTX va)) = none) :
    pageLookup σ d va = .ok none := by
  obtain ⟨r, hr, hmap, -⟩ := h.lookup hd hi
  rw [hq] at hmap
  rw [hr, Option.map_eq_none_iff.1 hmap]

/-- Reference counts do not matter to a lookup. -/
theorem pageLookup_incRef (σ : Phys) (p d : Nat) (va : Word) :
    pageLookup (incRef σ p) d va = pageLookup σ d va := by
  have hmem : (incRef σ p).mem = σ.mem := rfl
  have hpa : pa2page (incRef σ p) = pa2page σ := rfl
  simp only [pageLookup, pgdirWalk, hmem, hpa, Phys.load, if_true]
  split_ifs
  · cases pa2page σ (σ.mem d (PDX va)) <;> rfl
  · rfl

/-! ## Dropping references -/

/-- The environment a slot belongs to. -/
def Slot.env : Slot → EnvIdx
  | .dir e => e
  | .pde e _ => e
  | .pte e _ _ => e

/-- From `σ` to `σ₁` only slots of `e` were emptied, and only its tables were written. -/
structure Dropped (e : EnvIdx) (σ : Phys) (dirs : EnvIdx → Option Nat) (free : List Nat)
    (σ₁ : Phys) (dirs₁ : EnvIdx → Option Nat) (free₁ : List Nat) : Prop where
  npages : σ₁.npages = σ.npages
  kernPgdir : σ₁.kernPgdir = σ.kernPgdir
  tgt : ∀ s q, target σ₁ dirs₁ s = some q → target σ dirs s = some q
  pdes : ∀ x, x.1 ≠ e → pdes σ₁ dirs₁ x = pdes σ dirs x
  vm : ∀ x, x.1 ≠ e → vm σ₁ dirs₁ x = vm σ dirs x
  mem : ∀ f, (∀ s, s.IsTable → s.env = e → target σ dirs s ≠ some f) → σ₁.mem f = σ.mem f
  free_sub : ∀ q ∈ free₁, q ∈ free ∨ ∃ s, s.env = e ∧ target σ dirs s = some q
  ref : ∀ q, (∀ s, s.env = e → target σ dirs s ≠ some q) → σ₁.ppRef q = σ.ppRef q

namespace Dropped

theorem refl : Dropped e σ dirs free σ dirs free :=
  ⟨rfl, rfl, fun _ _ h => h, fun _ _ => rfl, fun _ _ => rfl, fun _ _ => rfl, fun _ h => Or.inl h,
    fun _ _ => rfl⟩

theorem trans (h : Dropped e σ dirs free σ₁ dirs₁ free₁)
    (h' : Dropped e σ₁ dirs₁ free₁ σ₂ dirs₂ free₂) : Dropped e σ dirs free σ₂ dirs₂ free₂ where
  npages := h'.npages.trans h.npages
  kernPgdir := h'.kernPgdir.trans h.kernPgdir
  tgt s q hq := h.tgt s q (h'.tgt s q hq)
  pdes x hx := (h'.pdes x hx).trans (h.pdes x hx)
  vm x hx := (h'.vm x hx).trans (h.vm x hx)
  mem f hf := (h'.mem f fun s hs he hq => hf s hs he (h.tgt s f hq)).trans (h.mem f hf)
  free_sub q hq := by
    rcases h'.free_sub q hq with hq | ⟨s, hs, hq⟩
    · exact h.free_sub q hq
    · exact Or.inr ⟨s, hs, h.tgt s q hq⟩
  ref q hq := (h'.ref q fun s hs hc => hq s hs (h.tgt s q hc)).trans (h.ref q hq)

theorem refs_le (h : Dropped e σ dirs free σ₁ dirs₁ free₁) (q : Nat) :
    refs (target σ₁ dirs₁) q ≤ refs (target σ dirs) q := refs_mono fun s hs => h.tgt s q hs

theorem none (h : Dropped e σ dirs free σ₁ dirs₁ free₁) {s : Slot}
    (hs : target σ dirs s = .none) : target σ₁ dirs₁ s = .none := by
  cases hq : target σ₁ dirs₁ s with
  | none => rfl
  | some q => rw [h.tgt s q hq] at hs; cases hs

end Dropped

/-- Counters that have not wrapped. -/
def NoWrap (base : Nat → ℕ) (tgt : Slot → Option Nat) : Prop := ∀ q, base q + refs tgt q < 2 ^ 16

theorem Dropped.noWrap (h : Dropped e σ dirs free σ₁ dirs₁ free₁)
    (hb : NoWrap base (target σ dirs)) : NoWrap base (target σ₁ dirs₁) := fun q =>
  lt_of_le_of_lt (Nat.add_le_add_left (h.refs_le q) _) (hb q)

theorem tgt_of_update_none {tgt tgt₁ : Slot → Option Nat} {s : Slot}
    (h : tgt₁ = Function.update tgt s none) (t : Slot) (q : Nat) (hq : tgt₁ t = some q) :
    tgt t = some q := by
  rw [h] at hq
  by_cases hts : t = s
  · subst hts; simp at hq
  · rwa [Function.update_of_ne hts] at hq

theorem mem_freeAfter {q r : Nat} (h : r ∈ freeAfter σ q free) : r ∈ free ∨ r = q := by
  unfold freeAfter at h
  split_ifs at h
  · rcases List.mem_cons.1 h with h | h
    · exact Or.inr h
    · exact Or.inl h
  · exact Or.inl h

/-! ## `page_remove` -/

theorem mem_dropPte (σ : Phys) (d : Nat) (va : Word) (q : Nat) (pte : PtePtr) :
    (dropPte σ d va q pte).mem = (σ.store pte 0).mem := by
  unfold dropPte
  dsimp only
  split_ifs <;> simp [Phys.store, tlbInvalidate]

theorem PInv.dropPte (h : PInv managed base σ dirs free held) (d : Nat) (va : Word) {i j : Idx}
    {pt q : Nat}
    (hpt : target σ dirs (.pde e i) = some pt) (hq : target σ dirs (.pte e i j) = some q)
    (hlt : base q + refs (target σ dirs) q ≤ 2 ^ 16) :
    PInv managed base (dropPte σ d va q (pt, j)) dirs (freeAfter σ q free) held ∧
      pdes (Jos.dropPte σ d va q (pt, j)) dirs = pdes σ dirs ∧
      vm (Jos.dropPte σ d va q (pt, j)) dirs = Function.update (vm σ dirs) (e, i, j) 0 := by
  obtain ⟨hinv, hpdes, hvm⟩ := h.detachPte hpt hq hlt
  have hmem : (Jos.dropPte σ d va q (pt, j)).mem = ((pageDecref σ q).store (pt, j) 0).mem := by
    rw [mem_dropPte]
    simp [Phys.store]
  have hs : SameAlloc ((pageDecref σ q).store (pt, j) 0) (Jos.dropPte σ d va q (pt, j)) := by
    unfold Jos.dropPte
    dsimp only
    split_ifs <;> exact ⟨rfl, rfl, rfl, rfl, rfl⟩
  have hvm' : vm (Jos.dropPte σ d va q (pt, j)) dirs = Function.update (vm σ dirs) (e, i, j) 0 :=
    (vm_of_mem hmem).trans hvm
  refine ⟨hinv.congr hs (target_of_mem hmem) ?_, (pdes_of_mem hmem).trans hpdes, hvm'⟩
  rw [hvm', ← hvm]
  exact hinv.vm_zero

theorem PInv.remove_none (h : PInv managed base σ dirs free held) (hd : dirs e = some d)
    (hi : (PDX va).User) (hq : target σ dirs (.pte e (PDX va) (PTX va)) = none) :
    pageRemove σ d va = .ok σ := by
  rw [pageRemove, h.lookup_none hd hi hq]
  rfl

theorem PInv.remove_some (h : PInv managed base σ dirs free held) (hd : dirs e = some d)
    (hi : (PDX va).User) {q : Nat} (hq : target σ dirs (.pte e (PDX va) (PTX va)) = some q) :
    ∃ pt, target σ dirs (.pde e (PDX va)) = some pt ∧
      pageRemove σ d va = .ok (Jos.dropPte σ d va q (pt, PTX va)) := by
  obtain ⟨pt, hpt, hlook⟩ := h.lookup_some hd hi hq
  refine ⟨pt, hpt, ?_⟩
  rw [pageRemove, hlook]
  rfl

/-- A frame that no directory entry names as a page table. -/
def NotTable (σ : Phys) (dirs : EnvIdx → Option Nat) (f : Nat) : Prop :=
  ∀ e i, target σ dirs (.pde e i) ≠ some f

theorem npages_dropPte (σ : Phys) (d : Nat) (va : Word) (q : Nat) (pte : PtePtr) :
    (dropPte σ d va q pte).npages = σ.npages ∧
      (dropPte σ d va q pte).kernPgdir = σ.kernPgdir := by
  unfold dropPte
  dsimp only
  split_ifs <;> simp [Phys.store, tlbInvalidate]

theorem ppRef_dropPte (σ : Phys) (d : Nat) (va : Word) (q : Nat) (pte : PtePtr) :
    (dropPte σ d va q pte).ppRef = Function.update σ.ppRef q (σ.ppRef q - 1) := by
  unfold dropPte
  dsimp only
  split_ifs <;> simp [Phys.store, tlbInvalidate]

/-- **`page_remove` zeroes one entry** and drops the reference it held. -/
theorem PInv.remove (h : PInv managed base σ dirs free held) (hd : dirs e = some d)
    (hi : (PDX va).User)
    (hlt : ∀ q, target σ dirs (.pte e (PDX va) (PTX va)) = some q →
      base q + refs (target σ dirs) q ≤ 2 ^ 16) :
    ∃ σ₁ free₁, pageRemove σ d va = .ok σ₁ ∧ PInv managed base σ₁ dirs free₁ held ∧
      Dropped e σ dirs free σ₁ dirs free₁ ∧ Jos.pdes σ₁ dirs = Jos.pdes σ dirs ∧
      Jos.vm σ₁ dirs = Function.update (Jos.vm σ dirs) (e, PDX va, PTX va) 0 := by
  cases hq : target σ dirs (.pte e (PDX va) (PTX va)) with
  | none =>
    have hzero : Jos.vm σ dirs (e, PDX va, PTX va) = 0 := h.vm_zero _ (by
      simpa only [target, named_eq_none] using hq)
    exact ⟨σ, free, h.remove_none hd hi hq, h, .refl, rfl,
      (Function.update_eq_self_iff.2 hzero.symm).symm⟩
  | some q =>
    obtain ⟨pt, hpt, hrem⟩ := h.remove_some hd hi hq
    obtain ⟨hinv, hpdes, hvm⟩ := h.dropPte d va hpt hq (hlt q hq)
    have htgt : target (Jos.dropPte σ d va q (pt, PTX va)) dirs =
        Function.update (target σ dirs) (.pte e (PDX va) (PTX va)) none := by
      simpa using target_update_pte hpdes hvm
    refine ⟨_, _, hrem, hinv, ⟨(npages_dropPte ..).1, (npages_dropPte ..).2,
      tgt_of_update_none htgt, fun x _ => by rw [hpdes], fun x hx => ?_, fun f hf => ?_,
      fun r hr => ?_, fun r hr => ?_⟩, hpdes, hvm⟩
    · rw [hvm, Function.update_of_ne]
      exact fun hc => hx (congrArg Prod.fst hc)
    · rw [mem_dropPte]
      funext k
      rw [Phys.mem_store, if_neg]
      exact fun hc => hf (.pde e (PDX va)) trivial rfl (hc.1 ▸ hpt)
    · rcases mem_freeAfter hr with hr | rfl
      · exact Or.inl hr
      · exact Or.inr ⟨.pte e (PDX va) (PTX va), rfl, hq⟩
    · rw [ppRef_dropPte, Function.update_of_ne]
      rintro rfl
      exact hr _ rfl hq

/-! ## `page_insert` -/

theorem pageDecref_incRef {p q : Nat} (hpq : q ≠ p) :
    pageDecref (incRef σ p) q = incRef (pageDecref σ q) p := by
  have hcomm : Function.update (Function.update σ.ppRef p (σ.ppRef p + 1)) q (σ.ppRef q - 1) =
      Function.update (Function.update σ.ppRef q (σ.ppRef q - 1)) p (σ.ppRef p + 1) :=
    Function.update_comm hpq.symm _ _ _
  simp only [pageDecref, incRef, Function.update_self, Function.update_of_ne hpq, hcomm]
  split_ifs with h0
  · simp only [pageFree]
    split_ifs <;> simp [hpq.symm]
  · simp [hpq.symm]

/-- Taking the new reference before dropping the old one is the same as after it. -/
theorem dropPte_incRef {p q : Nat} (hpq : q ≠ p) (pte : PtePtr) :
    dropPte (incRef σ p) d va q pte = incRef (dropPte σ d va q pte) p := by
  have href : (incRef (pageDecref σ q) p).ppRef q = (pageDecref σ q).ppRef q := by
    simp [incRef, Function.update_of_ne hpq]
  simp only [dropPte, pageDecref_incRef hpq, href]
  split_ifs <;> rfl

/-- The directory entry `pgdir_walk` leaves: the old one, or a fresh table on the first free
page. -/
def walkPde (pde : Word) (free : List Nat) : Word :=
  if Present pde then pde
  else match free with
    | [] => 0
    | q :: _ => page2pa q ||| PTE_P ||| PTE_W

theorem walkPde_of_present {pde : Word} (h : Present pde) (free : List Nat) :
    walkPde pde free = pde := by
  unfold walkPde
  exact if_pos h

theorem walkPde_of_absent {pde : Word} (h : ¬ Present pde) (q : Nat) (rest : List Nat) :
    walkPde pde (q :: rest) = page2pa q ||| PTE_P ||| PTE_W := by
  unfold walkPde
  exact if_neg h

theorem pageInsert_of_walk {σ₁ : Phys} {pte : PtePtr}
    (h : pgdirWalk σ d va true = .ok (some pte, σ₁)) (p : Nat) (perm : Word) :
    pageInsert σ d (some p) va perm = (installPte σ₁ d pte p va perm).map fun σ' => (0, σ') := by
  rw [pageInsert, h]
  rfl

/-- What a successful `page_insert` does. -/
structure Inserted (managed : Set Nat) (base : Nat → ℕ) (σ σ' : Phys) (dirs : EnvIdx → Option Nat)
    (free free' : List Nat) (held : Set Nat) (e : EnvIdx) (p : Nat) (va perm : Word) : Prop where
  inv : PInv managed base σ' dirs free' (held \ {p})
  npages : σ'.npages = σ.npages
  kernPgdir : σ'.kernPgdir = σ.kernPgdir
  pdes : pdes σ' dirs = Function.update (pdes σ dirs) (e, PDX va)
    (walkPde (Jos.pdes σ dirs (e, PDX va)) free ||| (perm ||| PTE_P))
  vm : vm σ' dirs =
    Function.update (vm σ dirs) (e, PDX va, PTX va) (page2pa p ||| perm ||| PTE_P)
  tgt : ∃ pt, target σ' dirs = Function.update
      (Function.update (target σ dirs) (.pde e (PDX va)) (some pt)) (.pte e (PDX va) (PTX va))
        (some p) ∧
    (target σ dirs (.pde e (PDX va)) = some pt ∨
      target σ dirs (.pde e (PDX va)) = none ∧ pt ∈ free)
  mem : ∀ f, dirs e ≠ some f → NotTable σ dirs f → f ∉ free → σ'.mem f = σ.mem f
  own : ∀ f, dirs e = some f → ∀ i : Idx, ¬ i.User → σ'.mem f i = σ.mem f i
  free_sub : ∀ q ∈ free', q ∈ free ∨ target σ dirs (.pte e (PDX va) (PTX va)) = some q
  free_eq : target σ dirs (.pte e (PDX va) (PTX va)) = none →
    free' = if target σ dirs (.pde e (PDX va)) = none then free.tail else free
  free_some : ∀ q, target σ dirs (.pte e (PDX va) (PTX va)) = some q →
    free' = if q = p then free else freeAfter σ q free

section Flags

variable {σ' : Phys} {free' : List Nat} {p : Nat} {perm : Word}

theorem Inserted.pde_bit (hI : Inserted managed base σ σ' dirs free free' held e p va perm)
    {n : Nat} (hpr : Present (Jos.pdes σ dirs (e, PDX va)))
    (hn : (Jos.pdes σ dirs (e, PDX va)).getLsbD n = true) :
    (Jos.pdes σ' dirs (e, PDX va)).getLsbD n = true := by
  rw [hI.pdes, Function.update_self, walkPde_of_present hpr, BitVec.getLsbD_or, hn, Bool.true_or]

/-- `page_insert` only adds flags to the directory entry, and a new one has `PTE_W`. -/
theorem Inserted.pde_w (hI : Inserted managed base σ σ' dirs free free' held e p va perm)
    (hw : ∀ x, Present (Jos.pdes σ dirs x) → (Jos.pdes σ dirs x).getLsbD 1 = true)
    (x : EnvIdx × Idx) (hx : Present (Jos.pdes σ' dirs x)) :
    (Jos.pdes σ' dirs x).getLsbD 1 = true := by
  by_cases hxe : x = (e, PDX va)
  · subst hxe
    by_cases hpr : Present (Jos.pdes σ dirs (e, PDX va))
    · exact hI.pde_bit hpr (hw _ hpr)
    · obtain ⟨pt, -, hpt⟩ := hI.tgt
      cases free with
      | nil =>
        rw [target, named_eq_none.2 hpr] at hpt
        rcases hpt with hpt | ⟨-, hpt⟩ <;> cases hpt
      | cons q rest =>
        rw [hI.pdes, Function.update_self, walkPde_of_absent hpr]
        simp only [BitVec.getLsbD_or]
        simp [PTE_W]
  · rw [hI.pdes, Function.update_of_ne hxe] at hx ⊢
    exact hw x hx

end Flags

/-- An insertion adds one reference to the page and, if it made a page table, the first one
to that. -/
theorem Inserted.noWrap {σ' : Phys} {free' : List Nat} {p : Nat} {perm : Word}
    (hI : Inserted managed base σ σ' dirs free free' held e p va perm)
    (h : PInv managed base σ dirs free held) (hb : NoWrap base (target σ dirs))
    (hfree : p ∉ free)
    (hp : target σ dirs (.pte e (PDX va) (PTX va)) = some p ∨
      base p + refs (target σ dirs) p + 1 < 2 ^ 16) : NoWrap base (target σ' dirs) := by
  obtain ⟨pt, htgt, hpt⟩ := hI.tgt
  set tgt₁ := Function.update (target σ dirs) (.pde e (PDX va)) (some pt)
  -- The page table: its count is what it was, or one.
  have h₁ : ∀ q, base q + refs tgt₁ q < 2 ^ 16 ∧
    (q ∉ free → refs tgt₁ q = refs (target σ dirs) q) :=
    fun q => by
    rcases hpt with hpt | ⟨hnone, hfr⟩
    · have hself : tgt₁ = target σ dirs := Function.update_eq_self_iff.2 hpt.symm
      rw [hself]
      exact ⟨hb q, fun _ => rfl⟩
    · by_cases hq : q = pt
      · subst hq
        have hzero := ((h.valid.mem_free q).1 hfr).2.1
        change base q + refs (target σ dirs) q = 0 at hzero
        rw [refs_update_self hnone]
        exact ⟨by omega, fun hc => (hc hfr).elim⟩
      · rw [refs_update_of_ne (by simp [hnone]) (by simpa using Ne.symm hq)]
        exact ⟨hb q, fun _ => rfl⟩
  have hold : tgt₁ (.pte e (PDX va) (PTX va)) = target σ dirs (.pte e (PDX va) (PTX va)) :=
    Function.update_of_ne (by simp) _ _
  intro q
  rw [htgt]
  by_cases hq : q = p
  · subst hq
    rcases hp with hp | hp
    · rw [Function.update_eq_self_iff.2 (hold.trans hp).symm]
      exact (h₁ q).1
    · have := refs_update_le tgt₁ (.pte e (PDX va) (PTX va)) (some q) q
      have := (h₁ q).2 hfree
      omega
  · have hle : refs (Function.update tgt₁ (.pte e (PDX va) (PTX va)) (some p)) q ≤ refs tgt₁ q :=
      refs_mono fun s hs => by
        by_cases hse : s = .pte e (PDX va) (PTX va)
        · subst hse
          rw [Function.update_self] at hs
          exact (hq (Option.some.inj hs).symm).elim
        · rwa [Function.update_of_ne hse] at hs
    have := (h₁ q).1
    omega

/-- What the branches of `installPte` have in common: the directory entry has its flags, and the
table `pt` the new entry. -/
theorem PInv.inserted (h : PInv managed base σ dirs free held) (hd : dirs e = some d)
    (hi : (PDX va).User) {pt : Nat} (hpt : target σ dirs (.pde e (PDX va)) = some pt) {p : Nat}
    (hp : p ∈ managed) {perm : Word} (hperm : PTE_ADDR perm = 0) {τ : Phys} {free' : List Nat}
    (hinv : PInv managed base τ dirs free' (held \ {p}))
    (hstat : τ.npages = σ.npages ∧ τ.kernPgdir = σ.kernPgdir)
    (hpτ : pdes τ dirs = pdes (σ.store (d, PDX va) (σ.mem d (PDX va) ||| (perm ||| PTE_P))) dirs)
    (hvτ : vm τ dirs = Function.update
      (vm (σ.store (d, PDX va) (σ.mem d (PDX va) ||| (perm ||| PTE_P))) dirs) (e, PDX va, PTX va)
      (page2pa p ||| perm ||| PTE_P))
    (hmem : ∀ f, f ≠ pt →
      τ.mem f = (σ.store (d, PDX va) (σ.mem d (PDX va) ||| (perm ||| PTE_P))).mem f)
    (hnone : target σ dirs (.pte e (PDX va) (PTX va)) = none → free' = free)
    (hsome : ∀ q, target σ dirs (.pte e (PDX va) (PTX va)) = some q →
      free' = if q = p then free else freeAfter σ q free) :
    Inserted managed base σ τ dirs free free' held e p va perm := by
  have hpd : walkPde (pdes σ dirs (e, PDX va)) free = σ.mem d (PDX va) := by
    rw [pdes_of_dir hd hi, walkPde_of_present (pde_of_target hd hi hpt).1]
  obtain ⟨-, ht₁, hp₁, hv₁⟩ := h.orPde hd hi hpt (f := perm ||| PTE_P) (by
    simp [PTE_ADDR_or, hperm])
  set σ₁ := σ.store (d, PDX va) (σ.mem d (PDX va) ||| (perm ||| PTE_P))
  refine ⟨hinv, hstat.1, hstat.2, by rw [hpτ, hp₁, hpd], by rw [hvτ, hv₁], ⟨pt, ?_, Or.inl hpt⟩,
    fun f hf hnt _ => ?_, fun f hf i hni => ?_, fun r hr =>
      ?_, fun hc => by simp [hpt, hnone hc], hsome⟩
  · have hself : Function.update (target σ dirs) (.pde e (PDX va)) (some pt) = target σ dirs :=
      Function.update_eq_self_iff.2 hpt.symm
    rw [hself, target_update_pte hpτ hvτ, ht₁, named_mk (h.lt_two_pow hp) hperm]
  · rw [hmem f fun hc => hnt e (PDX va) (hc ▸ hpt)]
    funext k
    rw [Phys.mem_store, if_neg]
    exact fun hc => hf (hc.1 ▸ hd)
  · rw [hmem f (h.dir_ne_table hf hpt), Phys.mem_store, if_neg]
    exact fun hc => hni (hc.2 ▸ hi)
  · cases hq : target σ dirs (.pte e (PDX va) (PTX va)) with
    | none => exact Or.inl (hnone hq ▸ hr)
    | some q =>
      rw [hsome q hq] at hr
      unfold freeAfter at hr
      split_ifs at hr
      · exact Or.inl hr
      · rcases List.mem_cons.1 hr with rfl | hr
        · exact Or.inr rfl
        · exact Or.inl hr
      · exact Or.inl hr

section Install

variable {σ₁ τ : Phys} {p q : Nat} {pte : PtePtr} {perm : Word}

/-- An empty entry is filled, and the page gains a reference. -/
theorem installPte_empty
    (hσ : σ₁ = σ.store (d, PDX va) (σ.mem d (PDX va) ||| (perm ||| PTE_P)))
    (hz : σ₁.load pte = 0) (hp : page2pa p ≠ 0) :
    installPte σ d pte p va perm =
      .ok ((incRef σ₁ p).store pte (page2pa p ||| perm ||| PTE_P)) := by
  have hz' : (incRef σ₁ p).load pte = 0 := hz
  simp only [installPte]
  rw [← hσ, hz, if_pos (by simpa using hp), hz', if_neg (by simp)]
  rfl

/-- Where the page is mapped already, only the flags change. -/
theorem installPte_same
    (hσ : σ₁ = σ.store (d, PDX va) (σ.mem d (PDX va) ||| (perm ||| PTE_P)))
    (hp : PTE_ADDR (σ₁.load pte) = page2pa p) :
    installPte σ d pte p va perm = .ok (σ₁.store pte (page2pa p ||| perm ||| PTE_P)) := by
  simp only [installPte]
  rw [← hσ, hp, if_neg (by simp)]
  rfl

/-- Another page is removed first. -/
theorem installPte_other
    (hσ : σ₁ = σ.store (d, PDX va) (σ.mem d (PDX va) ||| (perm ||| PTE_P)))
    (hpr : Present (σ₁.load pte)) (hq : PTE_ADDR (σ₁.load pte) = page2pa q)
    (hne : page2pa p ≠ page2pa q) (hrem : pageRemove (incRef σ₁ p) d va = .ok τ) :
    installPte σ d pte p va perm = .ok (τ.store pte (page2pa p ||| perm ||| PTE_P)) := by
  have hpr' : Present ((incRef σ₁ p).load pte) := hpr
  simp only [installPte]
  rw [← hσ, hq, if_pos hne, if_pos hpr', hrem]
  rfl

end Install

/-- `page_remove` does not look at the counter of another page. -/
theorem PInv.remove_incRef (h : PInv managed base σ dirs free held) (hd : dirs e = some d)
    (hi : (PDX va).User) {pt p q : Nat} (hpt : target σ dirs (.pde e (PDX va)) = some pt)
    (hq : target σ dirs (.pte e (PDX va) (PTX va)) = some q) (hqp : q ≠ p) :
    pageRemove (incRef σ p) d va = .ok (incRef (Jos.dropPte σ d va q (pt, PTX va)) p) := by
  obtain ⟨pt', hpt', hlk⟩ := h.lookup_some hd hi hq
  obtain rfl : pt' = pt := Option.some.inj (hpt'.symm.trans hpt)
  rw [pageRemove, pageLookup_incRef, hlk]
  exact congrArg Except.ok (dropPte_incRef hqp _)

/-- The end of `page_insert`, when the page table exists. -/
theorem PInv.install (h : PInv managed base σ dirs free held) (hd : dirs e = some d)
    (hi : (PDX va).User) {pt : Nat} (hpt : target σ dirs (.pde e (PDX va)) = some pt) {p : Nat}
    (hp : p ∈ managed) (hfree : p ∉ free) {perm : Word} (hperm : PTE_ADDR perm = 0)
    (hlt : ∀ q, target σ dirs (.pte e (PDX va) (PTX va)) = some q → q ≠ p →
      base q + refs (target σ dirs) q ≤ 2 ^ 16) :
    ∃ σ' free', installPte σ d (pt, PTX va) p va perm = .ok σ' ∧
      Inserted managed base σ σ' dirs free free' held e p va perm := by
  obtain ⟨h₁, ht₁, hp₁, hv₁⟩ := h.orPde hd hi hpt (f := perm ||| PTE_P) (by
    simp [PTE_ADDR_or, hperm])
  set σ₁ := σ.store (d, PDX va) (σ.mem d (PDX va) ||| (perm ||| PTE_P))
  have hpt₁ : target σ₁ dirs (.pde e (PDX va)) = some pt := by rw [ht₁]; exact hpt
  have hload : σ₁.load (pt, PTX va) = vm σ dirs (e, PDX va, PTX va) := by
    rw [← hv₁]
    exact (vm_of_present hpt₁ _).symm
  have hstore : ∀ (τ : Phys) (w : Word) (f : Nat), f ≠ pt →
      (τ.store (pt, PTX va) w).mem f = τ.mem f := fun τ w f hf => by
    funext k
    rw [Phys.mem_store, if_neg (fun hc => hf hc.1)]
  cases hq : target σ dirs (.pte e (PDX va) (PTX va)) with
  | none =>
    -- Nothing is mapped: the entry is zero, so it does not name `p`.
    have hzero : vm σ dirs (e, PDX va, PTX va) = 0 := h.vm_zero _ (by
      simpa only [target, named_eq_none] using hq)
    have hne : page2pa p ≠ 0 := fun hc => by
      have hp0 := (h.bound p hp).1
      apply hp0
      rw [← PGNUM_page2pa (h.lt_two_pow hp), hc]
      rfl
    obtain ⟨h₂, hp₂, hv₂⟩ := h₁.attachPte hpt₁ (j := PTX va) (by rw [hv₁, hzero]) hp hfree hperm
    exact ⟨_, free, installPte_empty rfl (hload.trans hzero) hne,
      h.inserted hd hi hpt hp hperm h₂ ⟨rfl, rfl⟩ hp₂ hv₂ (fun f hf => hstore _ _ f hf)
      (fun _ => rfl) fun q hc => (by cases hq.symm.trans hc)⟩
  | some q =>
    have hpr : Present (vm σ dirs (e, PDX va, PTX va)) := by
      by_contra hn
      simp [target, named_eq_none.2 hn] at hq
    have hqn : PGNUM (vm σ dirs (e, PDX va, PTX va)) = q := by
      simp only [target, named_of_present hpr] at hq
      exact Option.some.inj hq
    have hqm : q ∈ managed := h.valid.tgt_mem (.pte e (PDX va) (PTX va)) q hq
    have haddr : PTE_ADDR (vm σ dirs (e, PDX va, PTX va)) = page2pa q := by
      rw [← hqn, page2pa_PGNUM]
    have hq₁ : target σ₁ dirs (.pte e (PDX va) (PTX va)) = some q := by rw [ht₁]; exact hq
    by_cases hqp : q = p
    · -- The same page: only the flags change.
      subst hqp
      obtain ⟨h₂, hp₂, hv₂⟩ := h₁.rewritePte hpt₁ hq₁ hperm
      have hnh : q ∉ held := fun hh => h.target_ne_held hh _ hq
      rw [← Set.sdiff_singleton_eq_self hnh] at h₂
      refine ⟨_, free, installPte_same rfl ((congrArg _ hload).trans haddr),
        h.inserted hd hi hpt hp hperm h₂ ⟨rfl, rfl⟩ hp₂ hv₂ (fun f hf => hstore _ _ f hf)
        (fun hc => (by cases hq.symm.trans hc)) fun r hr => ?_⟩
      rw [if_pos (Option.some.inj (hr.symm.trans hq))]
    · -- Another page: it loses the reference that `p` gains.
      have hne : page2pa p ≠ page2pa q := fun hc =>
        hqp (page2pa_injective (h.lt_two_pow hp) (h.lt_two_pow hqm) hc).symm
      obtain ⟨h₂, hp₂, hv₂⟩ := h₁.dropPte d va hpt₁ hq₁ (by
        rw [ht₁]; exact hlt q hq hqp)
      have hpt₂ : target (Jos.dropPte σ₁ d va q (pt, PTX va)) dirs (.pde e (PDX va)) = some pt := by
        simp only [target, hp₂]
        exact hpt₁
      obtain ⟨h₃, hp₃, hv₃⟩ := h₂.attachPte hpt₂ (j := PTX va) (by rw [hv₂]; simp) hp (by
        unfold freeAfter
        split_ifs
        · simpa using ⟨Ne.symm hqp, hfree⟩
        · exact hfree) hperm
      have hrem := h₁.remove_incRef hd hi hpt₁ hq₁ hqp
      refine ⟨_, _, installPte_other rfl (hload ▸ hpr) ((congrArg _ hload).trans haddr) hne hrem,
        h.inserted hd hi hpt hp hperm h₃ (npages_dropPte σ₁ d va q (pt, PTX va))
        (hp₃.trans hp₂) (by rw [hv₃, hv₂, Function.update_idem]) (fun f hf => ?_)
        (fun hc => (by cases hq.symm.trans hc)) fun r hr => ?_⟩
      · rw [hstore _ _ f hf]
        show (Jos.dropPte σ₁ d va q (pt, PTX va)).mem f = σ₁.mem f
        rw [mem_dropPte, hstore _ _ f hf]
      · obtain rfl : q = r := Option.some.inj (hq.symm.trans hr)
        rw [if_neg hqp]
        rfl

/-- **`page_insert` writes one entry**, or fails for want of a page table and changes
nothing. -/
theorem PInv.insert (h : PInv managed base σ dirs free held) (hd : dirs e = some d)
    (hi : (PDX va).User) {p : Nat} (hp : p ∈ managed) (hfree : p ∉ free) {perm : Word}
    (hperm : PTE_ADDR perm = 0)
    (hlt : ∀ q, target σ dirs (.pte e (PDX va) (PTX va)) = some q → q ≠ p →
      base q + refs (target σ dirs) q ≤ 2 ^ 16) :
    (free = [] ∧ target σ dirs (.pde e (PDX va)) = none ∧
        pageInsert σ d (some p) va perm = .ok (-E_NO_MEM, σ)) ∨
      ∃ σ' free', pageInsert σ d (some p) va perm = .ok (0, σ') ∧
        Inserted managed base σ σ' dirs free free' held e p va perm := by
  cases hpt : target σ dirs (.pde e (PDX va)) with
  | some pt =>
    obtain ⟨σ', free', hins, hI⟩ := h.install hd hi hpt hp hfree hperm hlt
    refine Or.inr ⟨σ', free', ?_, hI⟩
    rw [pageInsert_of_walk (h.walk_present hd hi hpt true), hins]
    rfl
  | none =>
    have hpd : ¬ Present (pdes σ dirs (e, PDX va)) := named_eq_none.1 hpt
    cases free with
    | nil =>
      refine Or.inl ⟨rfl, rfl, ?_⟩
      rw [pageInsert, h.walk_no_mem hd hi hpt]
      rfl
    | cons q rest =>
      obtain ⟨hwalk, hinv, htgt, hpdes, hvm⟩ := h.walk_create hd hi hpt
      have hpq : p ∉ rest := fun hc => hfree (List.mem_cons_of_mem q hc)
      have hpt' : target (withTable σ d va q) dirs (.pde e (PDX va)) = some q := by
        rw [htgt, Function.update_self]
      have hold : target σ dirs (.pte e (PDX va) (PTX va)) = none := target_pte_absent hpt _
      -- The entry under a new table is empty, so nothing is removed.
      have hpte : target (withTable σ d va q) dirs (.pte e (PDX va) (PTX va)) = none := by
        rw [htgt, Function.update_of_ne (by simp)]
        exact hold
      obtain ⟨σ', free', hins, hI⟩ := hinv.install hd hi hpt' hp hpq hperm
        (fun r hr => by rw [hpte] at hr; cases hr)
      have hprq : Present (page2pa q ||| PTE_P ||| PTE_W) :=
        present_or.2 (Or.inl (present_or_PTE_P _))
      refine Or.inr ⟨σ', free', ?_, hI.inv, hI.npages.trans (static_withTable ..).1,
        hI.kernPgdir.trans (static_withTable ..).2,
        ?_, by rw [hI.vm, hvm], ?_, ?_, ?_, ?_, fun _ => ?_,
        fun r hr => by rw [hold] at hr; cases hr⟩
      · rw [pageInsert_of_walk hwalk, hins]
        rfl
      · rw [hI.pdes, hpdes, Function.update_self, Function.update_idem, walkPde_of_present hprq,
          walkPde_of_absent hpd]
      · obtain ⟨pt, hpt₁, hpt₂⟩ := hI.tgt
        rw [hpt'] at hpt₂
        have hptq : pt = q := by
          rcases hpt₂ with hc | hc
          · exact (Option.some.inj hc).symm
          · cases hc.1
        refine ⟨q, ?_, Or.inr ⟨hpt, List.mem_cons_self⟩⟩
        rw [hpt₁, htgt, hptq, Function.update_idem]
      · intro f hf hnt hff
        have hfq : f ≠ q := fun hc => hff (hc ▸ List.mem_cons_self)
        rw [hI.mem f hf ?_ (fun hc => hff (List.mem_cons_of_mem q hc))]
        · funext k
          exact mem_withTable h.head_eq hfq k (fun hc => hf (hc.1 ▸ hd))
        · intro e' i hc
          rw [htgt] at hc
          by_cases hei : Slot.pde e' i = .pde e (PDX va)
          · rw [hei, Function.update_self] at hc
            exact hfq (Option.some.inj hc).symm
          · rw [Function.update_of_ne hei] at hc
            exact hnt e' i hc
      · intro f hf i hni
        have hfq : f ≠ q := fun hc => h.target_ne_free List.mem_cons_self (.dir e) (hc ▸ hf)
        rw [hI.own f hf i hni]
        exact mem_withTable h.head_eq hfq i fun hc => hni (hc.2 ▸ hi)
      · intro r hr
        rcases hI.free_sub r hr with hr | hr
        · exact Or.inl (List.mem_cons_of_mem q hr)
        · rw [hpte] at hr
          cases hr
      · rw [hI.free_eq hpte, hpt', if_neg (by simp), if_pos hpt]
        rfl

/-! ## `page_free` -/

theorem PInv.giveBack (h : PInv managed base σ dirs free held) {p : Nat} (hp : p ∈ held) :
    PInv managed base (pageFree σ p) dirs (p :: free) (held \ {p}) := by
  obtain ⟨hm, hz⟩ := h.valid.held_mem p hp
  have hfree := h.not_free_of_held hp
  have htgt : target (pageFree σ p) dirs = target σ dirs := target_of_mem (mem_pageFree σ p)
  have hlt : ¬ σ.npages ≤ PGNUM (page2pa p) := by
    rw [PGNUM_page2pa (h.lt_two_pow hm)]
    exact Nat.not_le.2 (h.bound p hm).2
  have hv := h.valid
  have hvalid : (heap (pageFree σ p) dirs (p :: free) (held \ {p})).Valid managed base := by
    constructor
    · exact List.nodup_cons.2 ⟨hfree, hv.nodup⟩
    · intro q
      change q ∈ p :: free ↔ q ∈ managed ∧
        base q + refs (target (pageFree σ p) dirs) q = 0 ∧ q ∉ held \ {p}
      rw [htgt, List.mem_cons, show q ∈ free ↔ _ from hv.mem_free q]
      by_cases hq : q = p
      · subst hq
        exact ⟨fun _ => ⟨hm, hz, fun hc => hc.2 rfl⟩, fun _ => .inl rfl⟩
      · refine ⟨fun hc => ?_, fun hc => .inr ⟨hc.1, hc.2.1, fun hh => hc.2.2 ⟨hh, hq⟩⟩⟩
        obtain ⟨h₁, h₂, h₃⟩ := hc.resolve_left hq
        exact ⟨h₁, h₂, fun hh => h₃ hh.1⟩
    · intro q hq
      change (pageFree σ p).ppRef q = BitVec.ofNat 16 (_ + refs (target (pageFree σ p) dirs) q)
      rw [ppRef_pageFree, htgt]
      exact hv.ref_eq q hq
    · intro s q hq
      change target (pageFree σ p) dirs s = some q at hq
      rw [htgt] at hq
      exact hv.tgt_mem s q hq
    · intro q hq
      change q ∈ managed ∧ _ + refs (target (pageFree σ p) dirs) q = 0
      rw [htgt]
      exact hv.held_mem q hq.1
  refine ⟨?_, hvalid, ?_, ?_, ?_, ?_, ?_⟩
  · simp only [pageFree, if_neg hlt]
    exact h.chain.push hfree
  · rw [htgt]
    exact h.table_inj
  · rw [vm_of_mem (mem_pageFree σ p)]
    exact h.vm_zero
  · rw [npages_pageFree]
    exact h.bound
  · rw [npages_pageFree]
    exact h.npages_le
  · rw [kernPgdir_pageFree]
    exact h.kern

end Jos
