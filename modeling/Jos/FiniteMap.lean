import Jos.Accounting

/-!
# Page tables implement a finite map

A page directory is meant to be a finite map from virtual pages to pages with flags:
`page_insert` sets an entry, `page_remove` clears it and `page_lookup` reads it. The map of a
run is read off its history (`lastMapped`): what the last successful `page_insert` or
`page_remove` at each virtual page did. `IsMap` compares it with what `page_lookup` returns and
with the rights the MMU computes from the two levels.

The map is implemented as long as no counter wraps. `pp_ref` has 16 bits, and the 65536th
mapping of a page is not refused: its counter reads zero, a later `page_remove` frees the page
while it is still mapped, and it is handed out again as a page table. The condition `Fits` on
each insertion rules that out, and `wrapOps` is a run that goes wrong without it.
-/

namespace Jos

open Lib

/-- The virtual page of an address in an environment. -/
def vpage (e : EnvIdx) (va : Word) : EnvIdx × Idx × Idx := (e, PDX va, PTX va)

/-! ## The operations and their history -/

/-- The operations on mappings. -/
inductive MapOp
  | insert (e : EnvIdx) (pp : Nat) (va perm : Word)
  | remove (e : EnvIdx) (va : Word)
  | lookup (e : EnvIdx) (va : Word)

/-- Execute one operation; `0` is success. -/
def MapOp.run (k : Kernel) : MapOp → Except String (Word × Kernel)
  | .insert e pp va perm => do
    let (r, σ) ← pageInsert k.phys (← k.pgdir e) (some pp) va perm
    return (r, { k with phys := σ })
  | .remove e va => do
    let σ ← pageRemove k.phys (← k.pgdir e) va
    return (0, { k with phys := σ })
  | .lookup e va => do
    let _ ← pageLookup k.phys (← k.pgdir e) va
    return (0, k)

/-- The virtual page an operation is about. -/
def MapOp.page : MapOp → EnvIdx × Idx × Idx
  | .insert e _ va _ => vpage e va
  | .remove e va => vpage e va
  | .lookup e va => vpage e va

/-- What the callers promise. -/
def MapOp.Allowed (managed : Set Nat) (k : Kernel) : MapOp → Prop
  | .insert e pp va perm => k.dirs e ≠ none ∧ va < UTOP ∧ perm &&& ~~~PTE_SYSCALL = 0 ∧
      pp ∈ managed ∧ ∀ l, Chain k.phys.ppLink k.phys.pageFreeList l → pp ∉ l
  | .remove e va => k.dirs e ≠ none ∧ va < UTOP
  | .lookup e va => k.dirs e ≠ none ∧ va < UTOP

/-- An insertion does not give its page more than 65535 references. -/
def MapOp.Fits (tables : Set Nat) (k : Kernel) : MapOp → Prop
  | .insert e pp va _ => named (vm k.phys k.dirs (vpage e va)) = some pp ∨
      kernRefs tables pp + userRefs k pp < 65535
  | .remove _ _ => True
  | .lookup _ _ => True

/-- Execute a sequence of operations and record their results. -/
def runMap : List MapOp → Kernel → Except String (List (MapOp × Word) × Kernel)
  | [], k => .ok ([], k)
  | op :: ops, k => do
    let (r, k) ← op.run k
    let (h, k) ← runMap ops k
    return ((op, r) :: h, k)

/-- Every operation of a run meets a condition on the state before it. -/
def Along (P : Kernel → MapOp → Prop) : List MapOp → Kernel → Prop
  | [], _ => True
  | op :: ops, k => P k op ∧ ∀ r k', op.run k = .ok (r, k') → Along P ops k'

/-- The effect of one operation on the map. -/
def record (M : EnvIdx × Idx × Idx → Option (Nat × Word)) :
    MapOp × Word → EnvIdx × Idx × Idx → Option (Nat × Word)
  | (.insert e pp va perm, r) =>
    if r = 0 then Function.update M (vpage e va) (some (pp, perm)) else M
  | (.remove e va, _) => Function.update M (vpage e va) none
  | (.lookup _ _, _) => M

/-- The page and flags of the last successful insertion at each virtual page, if it has not
been removed since. -/
def lastMapped (h : List (MapOp × Word)) : EnvIdx × Idx × Idx → Option (Nat × Word) :=
  h.foldl record fun _ => none

/-! ## What the code and the MMU see -/

/-- `page_lookup`: the page, and the entry behind the pointer it stores. -/
def lookupPte (σ : Phys) (d : Nat) (va : Word) : Except String (Option (Nat × Word)) :=
  (pageLookup σ d va).map (Option.map fun r => (r.1, σ.load r.2))

/-- The right `bit` as the MMU computes it: the AND of directory and table entry. -/
def HwRight (σ : Phys) (d : Nat) (va bit : Word) : Prop :=
  σ.mem d (PDX va) &&& σ.mem (PGNUM (σ.mem d (PDX va))) (PTX va) &&& bit ≠ 0

/-- Lookups and rights agree with the map. -/
structure IsMap (M : EnvIdx × Idx × Idx → Option (Nat × Word)) (k : Kernel) : Prop where
  lookup : ∀ e d va, k.dirs e = some d → va < UTOP → lookupPte k.phys d va =
    .ok ((M (vpage e va)).map fun x => (x.1, page2pa x.1 ||| x.2 ||| PTE_P))
  rights : ∀ e d va p perm, k.dirs e = some d → va < UTOP → M (vpage e va) = some (p, perm) →
    (HwRight k.phys d va PTE_U ↔ perm &&& PTE_U ≠ 0) ∧
      (HwRight k.phys d va PTE_W ↔ perm &&& PTE_W ≠ 0)

/-- Fresh directories: the pages are accounted for and nothing is mapped below `UTOP`. -/
structure Fresh (managed tables : Set Nat) (k : Kernel) : Prop where
  pinv : ∃ free held, PInv managed (kernRefs tables) k.phys k.dirs free held
  countable : Countable tables k
  empty : ∀ x, ¬ Present (pdes k.phys k.dirs x)

/-! ## Flag bits -/

theorem and_twoPow_ne_zero (w : Word) (n : Nat) (hn : n < 32) :
    w &&& BitVec.twoPow 32 n ≠ 0 ↔ w.getLsbD n = true := by
  rw [BitVec.and_twoPow]
  cases hb : w.getLsbD n
  · simp
  · simp only [if_true, iff_true]
    intro hc
    have := congrArg (·.getLsbD n) hc
    simp [hn] at this

theorem PTE_U_iff (w : Word) : w &&& PTE_U ≠ 0 ↔ w.getLsbD 2 = true :=
  and_twoPow_ne_zero w 2 (by decide)

theorem PTE_W_iff (w : Word) : w &&& PTE_W ≠ 0 ↔ w.getLsbD 1 = true :=
  and_twoPow_ne_zero w 1 (by decide)

theorem getLsbD_page2pa (p n : Nat) (hn : n < 12) : (page2pa p).getLsbD n = false := by
  simp [page2pa, hn]

/-- The flags of an entry, apart from `PTE_P`, are those it was made with. -/
theorem getLsbD_entry (p n : Nat) (perm : Word) (hn : n < 12) (h0 : n ≠ 0) :
    (page2pa p ||| perm ||| PTE_P).getLsbD n = perm.getLsbD n := by
  have hP : PTE_P.getLsbD n = false := by
    rw [show PTE_P = BitVec.twoPow 32 0 by decide, BitVec.getLsbD_twoPow]
    simp [Ne.symm h0]
  simp [getLsbD_page2pa p n hn, hP]

/-! ## The invariant -/

/-- The word a page table holds for an entry of the map. -/
def entry : Option (Nat × Word) → Word
  | none => 0
  | some (p, perm) => page2pa p ||| perm ||| PTE_P

/-- The invariant of the runs: the entries are those of the map, and no directory entry is
narrower than the entries under it. -/
structure MapInv (managed tables : Set Nat) (M : EnvIdx × Idx × Idx → Option (Nat × Word))
    (k : Kernel) : Prop where
  pinv : ∃ free held, PInv managed (kernRefs tables) k.phys k.dirs free held
  noWrap : NoWrap (kernRefs tables) (target k.phys k.dirs)
  vm_eq : ∀ x, vm k.phys k.dirs x = entry (M x)
  named : ∀ x p perm, M x = some (p, perm) → named (entry (M x)) = some p
  pde_w : ∀ x, Present (pdes k.phys k.dirs x) → (pdes k.phys k.dirs x).getLsbD 1 = true
  pde_u : ∀ x p perm, M x = some (p, perm) → perm.getLsbD 2 = true →
    (pdes k.phys k.dirs (x.1, x.2.1)).getLsbD 2 = true

variable {managed tables : Set Nat} {k : Kernel} {M : EnvIdx × Idx × Idx → Option (Nat × Word)}

theorem Fresh.inv (h : Fresh managed tables k) : MapInv managed tables (fun _ => none) k := by
  obtain ⟨free, held, hp⟩ := h.pinv
  refine ⟨h.pinv, hp.noWrap h.countable, fun x => ?_, nofun, fun x hx => (h.empty x hx).elim, nofun⟩
  simp [vm, h.empty, entry]

theorem MapInv.pde_present (h : MapInv managed tables M k) {x : EnvIdx × Idx × Idx} {p : Nat}
    {perm : Word} (hx : M x = some (p, perm)) : Present (pdes k.phys k.dirs (x.1, x.2.1)) := by
  by_contra hc
  have hz : vm k.phys k.dirs x = 0 := vm_of_absent (named_eq_none.2 hc) x.2.2
  have hn := h.named x p perm hx
  rw [← h.vm_eq x, hz] at hn
  cases hn

/-- **The invariant gives the map.** -/
theorem MapInv.isMap (h : MapInv managed tables M k) : IsMap M k := by
  obtain ⟨free, held, hp⟩ := h.pinv
  refine ⟨fun e d va hd hva => ?_, fun e d va p perm hd hva hM => ?_⟩
  · have hi := PDX_user hva
    have hvm := h.vm_eq (vpage e va)
    cases hM : M (vpage e va) with
    | none =>
      rw [hM] at hvm
      have hq : target k.phys k.dirs (.pte e (PDX va) (PTX va)) = none := by
        show Jos.named (vm k.phys k.dirs (vpage e va)) = none
        rw [hvm]
        exact named_zero
      rw [lookupPte, hp.lookup_none hd hi hq]
      rfl
    | some x =>
      obtain ⟨p, perm⟩ := x
      have hq : target k.phys k.dirs (.pte e (PDX va) (PTX va)) = some p := by
        show Jos.named (vm k.phys k.dirs (vpage e va)) = some p
        rw [hvm]
        exact h.named _ p perm hM
      obtain ⟨pt, hpt, hlook⟩ := hp.lookup_some hd hi hq
      have hload : k.phys.load (pt, PTX va) = page2pa p ||| perm ||| PTE_P := by
        have hread : k.phys.load (pt, PTX va) = vm k.phys k.dirs (vpage e va) :=
          (vm_of_present hpt _).symm
        rw [hread, hvm, hM]
        rfl
      rw [lookupPte, hlook]
      show Except.ok (some (p, k.phys.load (pt, PTX va))) = _
      rw [hload]
      rfl
  · have hi := PDX_user hva
    have hvm := h.vm_eq (vpage e va)
    have hpd : pdes k.phys k.dirs (e, PDX va) = k.phys.mem d (PDX va) := pdes_of_dir hd hi
    have hpr : Present (pdes k.phys k.dirs (e, PDX va)) := h.pde_present hM
    have hread : k.phys.mem (PGNUM (k.phys.mem d (PDX va))) (PTX va) =
        page2pa p ||| perm ||| PTE_P := by
      have hpt : target k.phys k.dirs (.pde e (PDX va)) =
          some (PGNUM (pdes k.phys k.dirs (e, PDX va))) := named_of_present hpr
      rw [← hpd, ← vm_of_present hpt (PTX va)]
      exact hvm.trans (by rw [hM]; rfl)
    have hw := h.pde_w (e, PDX va) hpr
    have hu := h.pde_u (vpage e va) p perm hM
    rw [hpd] at hw
    change _ → (pdes k.phys k.dirs (e, PDX va)).getLsbD 2 = true at hu
    rw [hpd] at hu
    have hbits : ∀ n, n < 12 → n ≠ 0 →
        (k.phys.mem d (PDX va) &&& (page2pa p ||| perm ||| PTE_P)).getLsbD n =
          ((k.phys.mem d (PDX va)).getLsbD n && perm.getLsbD n) := fun n hn h0 => by
      rw [BitVec.getLsbD_and, getLsbD_entry p n perm hn h0]
    unfold HwRight
    rw [hread, PTE_U_iff, PTE_W_iff, PTE_U_iff, PTE_W_iff, hbits 2 (by decide) (by decide),
      hbits 1 (by decide) (by decide), hw]
    constructor
    · rw [Bool.and_eq_true]
      exact ⟨fun hc => hc.2, fun hc => ⟨hu hc, hc⟩⟩
    · rw [Bool.true_and]

/-! ## Each operation is an operation on the map -/

theorem MapOp.run_insert {e : EnvIdx} {d pp : Nat} {va perm r : Word} {σ : Phys}
    (hd : k.dirs e = some d) (h : pageInsert k.phys d (some pp) va perm = .ok (r, σ)) :
    (MapOp.insert e pp va perm).run k = .ok (r, { k with phys := σ }) := by
  simp only [MapOp.run, pgdir_of_dirs hd, ok_bind, h, pure_eq_ok]

theorem MapOp.run_remove {e : EnvIdx} {d : Nat} {va : Word} {σ : Phys} (hd : k.dirs e = some d)
    (h : pageRemove k.phys d va = .ok σ) :
    (MapOp.remove e va).run k = .ok (0, { k with phys := σ }) := by
  simp only [MapOp.run, pgdir_of_dirs hd, ok_bind, h, pure_eq_ok]

theorem MapInv.insert (h : MapInv managed tables M k) {e : EnvIdx} {pp : Nat} {va perm : Word}
    (hop : (MapOp.insert e pp va perm).Allowed managed k)
    (hfit : (MapOp.insert e pp va perm).Fits tables k) :
    ∃ r k', (MapOp.insert e pp va perm).run k = .ok (r, k') ∧
      MapInv managed tables (record M (.insert e pp va perm, r)) k' ∧ k'.dirs = k.dirs := by
  obtain ⟨free, held, hp⟩ := h.pinv
  obtain ⟨he, hva, hperm, hpm, hpf⟩ := hop
  obtain ⟨d, hd⟩ := Option.ne_none_iff_exists'.1 he
  have hfree := hpf free hp.chain
  have haddr := PTE_ADDR_of_syscall hperm
  rcases hp.insert hd (PDX_user hva) hpm hfree haddr (fun q _ _ => (h.noWrap q).le) with
    ⟨-, -, hfail⟩ | ⟨σ', free', hins, hI⟩
  · refine ⟨-E_NO_MEM, k, MapOp.run_insert hd hfail, ?_, rfl⟩
    simp only [record]
    rw [if_neg (by decide)]
    exact h
  · have hnw : NoWrap (kernRefs tables) (target σ' k.dirs) := by
      refine hI.noWrap hp h.noWrap hfree ?_
      rcases hfit with hfit | hfit
      · exact Or.inl hfit
      · rw [hp.refs_eq pp]
        exact Or.inr (by omega)
    refine ⟨0, { k with phys := σ' }, MapOp.run_insert hd hins, ?_, rfl⟩
    simp only [record, if_true]
    have hnamed : Jos.named (entry (some (pp, perm))) = some pp :=
      named_mk (hp.lt_two_pow hpm) haddr
    refine ⟨⟨free', _, hI.inv⟩, hnw, fun x => ?_, fun x p q hx => ?_, hI.pde_w h.pde_w,
      fun x p q hx hq => ?_⟩
    · show vm σ' k.dirs x = _
      rw [hI.vm]
      by_cases hxv : x = vpage e va
      · subst hxv
        rw [Function.update_self]
        exact Function.update_self ..
      · rw [Function.update_of_ne hxv]
        exact (Function.update_of_ne hxv _ _).trans (h.vm_eq x)
    · by_cases hxv : x = vpage e va
      · subst hxv
        rw [Function.update_self] at hx ⊢
        obtain ⟨rfl, rfl⟩ : pp = p ∧ perm = q := by simpa using hx
        exact hnamed
      · rw [Function.update_of_ne hxv] at hx ⊢
        exact h.named x p q hx
    · show (pdes σ' k.dirs (x.1, x.2.1)).getLsbD 2 = true
      by_cases hxe : (x.1, x.2.1) = (e, PDX va)
      · rw [hxe]
        by_cases hxv : x = vpage e va
        · subst hxv
          rw [Function.update_self] at hx
          obtain ⟨rfl, rfl⟩ : pp = p ∧ perm = q := by simpa using hx
          rw [hI.pdes, Function.update_self]
          simp [hq]
        · rw [Function.update_of_ne hxv] at hx
          have hold := h.pde_u x p q hx hq
          rw [hxe] at hold
          exact hI.pde_bit (hxe ▸ h.pde_present hx) hold
      · rw [Function.update_of_ne (fun hc => hxe (by rw [hc]; rfl))] at hx
        rw [hI.pdes, Function.update_of_ne hxe]
        exact h.pde_u x p q hx hq

theorem MapInv.remove (h : MapInv managed tables M k) {e : EnvIdx} {va : Word}
    (hop : (MapOp.remove e va).Allowed managed k) :
    ∃ r k', (MapOp.remove e va).run k = .ok (r, k') ∧
      MapInv managed tables (record M (.remove e va, r)) k' ∧ k'.dirs = k.dirs := by
  obtain ⟨free, held, hp⟩ := h.pinv
  obtain ⟨d, hd⟩ := Option.ne_none_iff_exists'.1 hop.1
  obtain ⟨σ', free', hrem, hp', hdrop, hpdes, hvm⟩ :=
    hp.remove hd (PDX_user hop.2) fun q _ => (h.noWrap q).le
  refine ⟨0, { k with phys := σ' }, MapOp.run_remove hd hrem, ?_, rfl⟩
  have hM : ∀ x p q, record M (.remove e va, 0) x = some (p, q) → M x = some (p, q) := by
    intro x p q hx
    by_cases hxv : x = vpage e va
    · subst hxv
      simp [record] at hx
    · simpa [record, hxv] using hx
  refine ⟨⟨free', _, hp'⟩, hdrop.noWrap h.noWrap, fun x => ?_, fun x p q hx => ?_, fun x hx => ?_,
    fun x p q hx hq => ?_⟩
  · show vm σ' k.dirs x = _
    rw [hvm]
    by_cases hxv : x = vpage e va
    · subst hxv
      simp only [record, Function.update_self]
      exact Function.update_self ..
    · simp only [record, Function.update_of_ne hxv]
      exact (Function.update_of_ne hxv _ _).trans (h.vm_eq x)
  · rw [hx, ← hM x p q hx]
    exact h.named x p q (hM x p q hx)
  · change Present (pdes σ' k.dirs x) at hx
    show (pdes σ' k.dirs x).getLsbD 1 = true
    rw [hpdes] at hx ⊢
    exact h.pde_w x hx
  · show (pdes σ' k.dirs (x.1, x.2.1)).getLsbD 2 = true
    rw [hpdes]
    exact h.pde_u x p q (hM x p q hx) hq

theorem MapInv.lookup (h : MapInv managed tables M k) {e : EnvIdx} {va : Word}
    (hop : (MapOp.lookup e va).Allowed managed k) : (MapOp.lookup e va).run k = .ok (0, k) := by
  obtain ⟨free, held, hp⟩ := h.pinv
  obtain ⟨d, hd⟩ := Option.ne_none_iff_exists'.1 hop.1
  obtain ⟨r, hr, -, -⟩ := hp.lookup hd (PDX_user hop.2)
  simp only [MapOp.run, pgdir_of_dirs hd, ok_bind, hr, pure_eq_ok]

/-- **One operation** succeeds or fails for want of memory, and acts on the map. -/
theorem MapInv.step (h : MapInv managed tables M k) {op : MapOp} (hop : op.Allowed managed k)
    (hfit : op.Fits tables k) :
    ∃ r k', op.run k = .ok (r, k') ∧ MapInv managed tables (record M (op, r)) k' ∧
      k'.dirs = k.dirs := by
  cases op with
  | insert e pp va perm => exact h.insert hop hfit
  | remove e va => exact h.remove hop
  | lookup e va => exact ⟨0, k, h.lookup hop, h, rfl⟩

/-! ## Runs -/

theorem MapInv.run {ops : List MapOp} (h : MapInv managed tables M k)
    (hops : Along (fun k op => op.Allowed managed k ∧ op.Fits tables k) ops k) :
    ∃ hist k', runMap ops k = .ok (hist, k') ∧
      MapInv managed tables (hist.foldl record M) k' ∧ k'.dirs = k.dirs := by
  induction ops generalizing M k with
  | nil => exact ⟨[], k, rfl, h, rfl⟩
  | cons op ops ih =>
    obtain ⟨⟨hop, hfit⟩, hrest⟩ := hops
    obtain ⟨r, k₁, hr, h₁, hd₁⟩ := h.step hop hfit
    obtain ⟨hist, k₂, hk₂, h₂, hd₂⟩ := ih h₁ (hrest r k₁ hr)
    refine ⟨(op, r) :: hist, k₂, ?_, h₂, hd₂.trans hd₁⟩
    simp only [runMap, hr, ok_bind, hk₂, pure_eq_ok]

theorem record_of_ne {op : MapOp} {r : Word} {x : EnvIdx × Idx × Idx} (hx : x ≠ op.page) :
    record M (op, r) x = M x := by
  cases op with
  | insert e pp va perm =>
    simp only [record]
    split_ifs
    · exact Function.update_of_ne hx _ _
    · rfl
  | remove e va => exact Function.update_of_ne hx _ _
  | lookup e va => rfl

/-- **The page tables are a finite map** in every run whose insertions fit the counters: from
fresh directories the run ends, lookups and rights are those of the last operation on each
virtual page, and a further operation changes the lookup of no other page. -/
theorem finite_map (hk : Fresh managed tables k) (ops : List MapOp)
    (hops : Along (fun k op => op.Allowed managed k ∧ op.Fits tables k) ops k) :
    ∃ hist k', runMap ops k = .ok (hist, k') ∧ IsMap (lastMapped hist) k' ∧
      ∀ op : MapOp, op.Allowed managed k' → op.Fits tables k' →
        ∃ r k'', op.run k' = .ok (r, k'') ∧ ∀ e d va, k'.dirs e = some d → va < UTOP →
          vpage e va ≠ op.page → lookupPte k''.phys d va = lookupPte k'.phys d va := by
  obtain ⟨hist, k', hrun, hinv, -⟩ := hk.inv.run hops
  refine ⟨hist, k', hrun, hinv.isMap, fun op hop hfit => ?_⟩
  obtain ⟨r, k'', hr, hinv', hdirs⟩ := hinv.step hop hfit
  refine ⟨r, k'', hr, fun e d va hd hva hne => ?_⟩
  rw [hinv'.isMap.lookup e d va (by rw [hdirs]; exact hd) hva, hinv.isMap.lookup e d va hd hva,
    record_of_ne hne]

/-! ## A counter that wraps -/

/-- A machine of 128 pages with one environment. Page 1 is its directory, pages 2 and 3 have
been allocated, pages 4 to 99 are free. -/
def mapKernel : Kernel where
  phys :=
    { npages := 128
      mem := fun f i => if f = 1 ∧ i = PDX UVPT then page2pa 1 ||| PTE_P ||| PTE_U else 0
      ppRef := fun p => if p = 1 then 1 else 0
      ppLink := fun p => if 4 ≤ p ∧ p < 99 then some (p + 1) else none
      pageFreeList := some 4
      nAvailPages := 96
      kernPgdir := 100
      tlb := [] }
  envs := fun e => { envPgdir := if e = 0 then some 1 else none }
  envFreeList := none
  cpuEnv := fun _ => none
  cr3 := fun _ => 100

/-- The pages of `mapKernel` that the allocator manages. -/
def mapPages : Set Nat := { p | 1 ≤ p ∧ p < 100 }

theorem mapKernel_dirs (e : EnvIdx) : mapKernel.dirs e = if e = 0 then some 1 else none := rfl

theorem mapKernel_pdes (x : EnvIdx × Idx) : pdes mapKernel.phys mapKernel.dirs x = 0 := by
  obtain ⟨e, i⟩ := x
  simp only [pdes, mapKernel_dirs]
  by_cases he : e = 0
  · simp only [he, if_true]
    by_cases hi : i.User
    · have hne : i ≠ PDX UVPT := by
        rintro rfl
        exact absurd hi (by decide)
      simp [hi, mapKernel, hne]
    · simp [hi]
  · simp [he]

theorem mapKernel_target (s : Slot) :
    target mapKernel.phys mapKernel.dirs s = if s = .dir 0 then some 1 else none := by
  cases s with
  | dir e =>
    simp only [target, mapKernel_dirs, Slot.dir.injEq]
  | pde e i => simp [target, mapKernel_pdes]
  | pte e i j => simp [target, vm, mapKernel_pdes]

theorem mapKernel_chain (n m : Nat) (h : n + m = 99) (hn : 4 ≤ n) :
    Chain mapKernel.phys.ppLink (some n) (List.range' n (m + 1)) := by
  induction m generalizing n with
  | zero =>
    obtain rfl : n = 99 := by omega
    exact .cons .nil
  | succ m ih =>
    rw [List.range'_succ]
    refine .cons ?_
    have hlink : mapKernel.phys.ppLink n = some (n + 1) := if_pos ⟨hn, by omega⟩
    rw [hlink]
    exact ih (n + 1) (by omega) (by omega)

theorem kernRefs_empty (p : Nat) : kernRefs ∅ p = 0 := kernRefs_of_notMem (by simp)

theorem mapKernel_refs (p : Nat) :
    refs (target mapKernel.phys mapKernel.dirs) p = if p = 1 then 1 else 0 := by
  have htgt : target mapKernel.phys mapKernel.dirs =
      Function.update (fun _ => none) (.dir 0) (some 1) := by
    funext s
    rw [mapKernel_target, Function.update_apply]
  rw [htgt]
  split_ifs with hp
  · subst hp
    rw [refs_update_self rfl, refs_eq_zero.2 (by simp)]
  · rw [refs_update_of_ne (by simp) (by simpa using Ne.symm hp), refs_eq_zero.2 (by simp)]

theorem mapKernel_pinv : PInv mapPages (kernRefs ∅) mapKernel.phys mapKernel.dirs
    (List.range' 4 96) {2, 3} where
  chain := mapKernel_chain 4 95 rfl (le_refl 4)
  valid := by
    refine ⟨List.nodup_range', fun p => ?_, fun p hp => ?_, fun s p hs => ?_, fun p hp => ?_⟩
    · show p ∈ List.range' 4 96 ↔ (1 ≤ p ∧ p < 100) ∧
        kernRefs ∅ p + refs (target mapKernel.phys mapKernel.dirs) p = 0 ∧ p ∉ ({2, 3} : Set Nat)
      rw [kernRefs_empty, mapKernel_refs, List.mem_range'_1]
      simp only [Set.mem_insert_iff, Set.mem_singleton_iff]
      by_cases hp : p = 1
      · subst hp; decide
      · rw [if_neg hp]
        omega
    · show mapKernel.phys.ppRef p =
        BitVec.ofNat 16 (kernRefs ∅ p + refs (target mapKernel.phys mapKernel.dirs) p)
      rw [kernRefs_empty, mapKernel_refs]
      by_cases hp1 : p = 1 <;> simp [mapKernel, hp1]
    · change target mapKernel.phys mapKernel.dirs s = some p at hs
      rw [mapKernel_target] at hs
      split_ifs at hs
      obtain rfl : 1 = p := Option.some.inj hs
      show 1 ≤ 1 ∧ 1 < 100
      omega
    · show p ∈ mapPages ∧ kernRefs ∅ p + refs (target mapKernel.phys mapKernel.dirs) p = 0
      rw [kernRefs_empty, mapKernel_refs]
      rcases hp with rfl | rfl
      · exact ⟨⟨by omega, by omega⟩, rfl⟩
      · exact ⟨⟨by omega, by omega⟩, rfl⟩
  table_inj := by
    intro s t p _ _ hs ht
    rw [mapKernel_target] at hs ht
    split_ifs at hs ht with h₁ h₂
    rw [h₁, h₂]
  vm_zero x _ := by simp [vm, mapKernel_pdes]
  bound p hp := ⟨fun hc => absurd hp.1 (by omega), lt_trans hp.2 (by decide)⟩
  npages_le := by decide
  kern hc := absurd hc.2 (by decide)

theorem mapKernel_fresh : Fresh mapPages ∅ mapKernel where
  pinv := ⟨_, _, mapKernel_pinv⟩
  countable p := by
    rw [kernRefs_empty, ← mapKernel_pinv.refs_eq p, mapKernel_refs]
    split_ifs <;> omega
  empty x := by
    rw [mapKernel_pdes]
    exact not_present_zero

/-- The flags of the run below. -/
def mapPerm : Word := PTE_U ||| PTE_W

/-! ### Mapping one page 65537 times -/

/-- The `n`th virtual page. -/
def pageVa (n : Nat) : Word := BitVec.ofNat 32 (n * 4096)

theorem toNat_pageVa {n : Nat} (hn : n < 2 ^ 20) : (pageVa n).toNat = n * 4096 := by
  simp only [pageVa, BitVec.toNat_ofNat]
  omega

theorem PDX_pageVa {n : Nat} (hn : n < 2 ^ 20) : (PDX (pageVa n)).val = n / 1024 := by
  rw [val_PDX, toNat_pageVa hn]
  omega

theorem PTX_pageVa {n : Nat} (hn : n < 2 ^ 20) : (PTX (pageVa n)).val = n % 1024 := by
  rw [val_PTX, toNat_pageVa hn]
  omega

theorem pageVa_lt {n : Nat} (hn : n < 955 * 1024) : pageVa n < UTOP := by
  show (pageVa n).toNat < UTOP.toNat
  rw [toNat_pageVa (by omega), show UTOP.toNat = 955 * 1024 * 4096 by decide]
  omega

/-- Page 2 is mapped at the first `n` virtual pages, and one page table per 1024 of them has
been taken from the free list. -/
structure Filled (n : Nat) (k : Kernel) (free : List Nat) (held : Set Nat) : Prop where
  pinv : PInv mapPages (kernRefs ∅) k.phys k.dirs free held
  held : 3 ∈ held
  dirs : k.dirs = mapKernel.dirs
  npages : k.phys.npages = 128
  free_ge : ∀ q ∈ free, 4 ≤ q
  free_len : free.length + (n + 1023) / 1024 = 96
  vm : ∀ i j, vm k.phys k.dirs (0, i, j) =
    if i.val * 1024 + j.val < n then entry (some (2, mapPerm)) else 0
  pde : ∀ i : Idx, (n + 1023) / 1024 ≤ i.val → target k.phys k.dirs (.pde 0 i) = none
  table_ge : ∀ i pt, target k.phys k.dirs (.pde 0 i) = some pt → 4 ≤ pt
  refs : refs (target k.phys k.dirs) 2 = n

theorem mapKernel_filled : Filled 0 mapKernel (List.range' 4 96) {2, 3} where
  pinv := mapKernel_pinv
  held := by simp
  dirs := rfl
  npages := rfl
  free_ge q hq := (List.mem_range'_1.1 hq).1
  free_len := rfl
  vm i j := by simp [Jos.vm, mapKernel_pdes]
  pde i _ := by rw [mapKernel_target]; rfl
  table_ge i pt hpt := by
    rw [mapKernel_target] at hpt
    cases hpt
  refs := mapKernel_refs 2

theorem mapPerm_addr : PTE_ADDR mapPerm = 0 := by decide

theorem Filled.allowed {n : Nat} {free : List Nat} {held : Set Nat} (h : Filled n k free held)
    (hn : n < 955 * 1024) : (MapOp.insert 0 2 (pageVa n) mapPerm).Allowed mapPages k := by
  refine ⟨by rw [h.dirs]; simp [mapKernel_dirs], pageVa_lt hn, by decide, ⟨by omega, by omega⟩,
    fun l hl hmem => ?_⟩
  rw [hl.unique h.pinv.chain] at hmem
  exact absurd (h.free_ge 2 hmem) (by omega)

theorem Filled.unmapped {n : Nat} {free : List Nat} {held : Set Nat} (h : Filled n k free held)
    (hn : n < 955 * 1024) :
    target k.phys k.dirs (.pte 0 (PDX (pageVa n)) (PTX (pageVa n))) = none := by
  have hpdx := PDX_pageVa (n := n) (by omega)
  have hptx := PTX_pageVa (n := n) (by omega)
  show named (Jos.vm k.phys k.dirs _) = none
  rw [h.vm, if_neg (by omega)]
  exact named_zero

/-- The next page needs a new table when it is the first one of its region. -/
theorem Filled.pde_none_iff {n : Nat} {free : List Nat} {held : Set Nat}
    (h : Filled n k free held) (hn : n < 955 * 1024) :
    target k.phys k.dirs (.pde 0 (PDX (pageVa n))) = none ↔ n % 1024 = 0 := by
  have hpdx := PDX_pageVa (n := n) (by omega)
  constructor
  · intro hnone
    by_contra hne
    have hz := vm_of_absent hnone (⟨0, by omega⟩ : Idx)
    rw [h.vm, if_pos (by rw [hpdx]; show n / 1024 * 1024 + 0 < n; omega)] at hz
    exact absurd hz (by decide)
  · intro h0
    exact h.pde _ (by rw [hpdx]; omega)

/-- The entries after one more mapping. -/
theorem Filled.vm_succ {n : Nat} {free : List Nat} {held : Set Nat} (h : Filled n k free held)
    (hn : n < 955 * 1024) (w : Word) (hw : w = entry (some (2, mapPerm))) (i j : Idx) :
    Function.update (Jos.vm k.phys k.dirs) (0, PDX (pageVa n), PTX (pageVa n)) w (0, i, j) =
      if i.val * 1024 + j.val < n + 1 then entry (some (2, mapPerm)) else 0 := by
  have hpdx := PDX_pageVa (n := n) (by omega)
  have hptx := PTX_pageVa (n := n) (by omega)
  by_cases hij : ((0 : EnvIdx), i, j) = (0, PDX (pageVa n), PTX (pageVa n))
  · obtain ⟨rfl, rfl⟩ : i = PDX (pageVa n) ∧ j = PTX (pageVa n) := by simpa using hij
    rw [Function.update_self, if_pos (by omega), hw]
  · rw [Function.update_of_ne hij, h.vm]
    have hne : i.val * 1024 + j.val ≠ n := fun hc => hij (by
      have hi : i = PDX (pageVa n) := Fin.ext (by omega)
      have hj : j = PTX (pageVa n) := Fin.ext (by omega)
      rw [hi, hj])
    by_cases hlt : i.val * 1024 + j.val < n
    · rw [if_pos hlt, if_pos (by omega)]
    · rw [if_neg hlt, if_neg (by omega)]

/-- **One more mapping.** Nothing stops the counter. -/
theorem Filled.insert {n : Nat} {free : List Nat} {held : Set Nat} (h : Filled n k free held)
    (hn : n < 90 * 1024) :
    ∃ k' free' held', (MapOp.insert 0 2 (pageVa n) mapPerm).run k = .ok (0, k') ∧
      Filled (n + 1) k' free' held' := by
  have hd : k.dirs 0 = some 1 := by rw [h.dirs]; rfl
  have hpdx := PDX_pageVa (n := n) (by omega)
  have hempty := h.unmapped (by omega)
  have hpde := h.pde_none_iff (by omega)
  have h2 : 2 ∉ free := fun hc => absurd (h.free_ge 2 hc) (by omega)
  have hlen := h.free_len
  rcases h.pinv.insert hd (PDX_user (pageVa_lt (n := n) (by omega))) (p := 2)
    ⟨by omega, by omega⟩ h2
    mapPerm_addr (fun q hq => by rw [hempty] at hq; cases hq) with
    ⟨hfr, -, -⟩ | ⟨σ', free', hins, hI⟩
  · rw [hfr, List.length_nil] at hlen
    omega
  obtain ⟨pt, htgt, hpt⟩ := hI.tgt
  have hfree := hI.free_eq hempty
  have hpt2 :
      Lib.refs (Function.update (target k.phys k.dirs) (.pde 0 (PDX (pageVa n))) (some pt)) 2 =
      n := by
    rcases hpt with hpt | ⟨hnone, hpt⟩
    · rw [Function.update_eq_self_iff.2 hpt.symm]
      exact h.refs
    · have hne : some pt ≠ some 2 := fun hc => h2 (Option.some.inj hc ▸ hpt)
      rw [refs_update_of_ne (by rw [hnone]; simp) hne]
      exact h.refs
  refine ⟨{ k with phys := σ' }, free', held \ {2}, MapOp.run_insert hd hins, hI.inv,
    ⟨h.held, by simp⟩, h.dirs, hI.npages.trans h.npages, fun q hq => ?_, ?_, fun i j => ?_,
    fun i hi => ?_, fun i pt' hpt' => ?_, ?_⟩
  · rcases hI.free_sub q hq with hq | hq
    · exact h.free_ge q hq
    · rw [hempty] at hq
      cases hq
  · rw [hfree]
    by_cases h0 : n % 1024 = 0
    · rw [if_pos (hpde.2 h0), List.length_tail]
      omega
    · rw [if_neg (fun hc => h0 (hpde.1 hc))]
      omega
  · show Jos.vm σ' k.dirs (0, i, j) = _
    rw [hI.vm]
    exact h.vm_succ (by omega) _ rfl i j
  · show target σ' k.dirs (.pde 0 i) = none
    have hne : (Slot.pde 0 i) ≠ .pde 0 (PDX (pageVa n)) := by
      intro hc
      obtain rfl : i = PDX (pageVa n) := by simpa using hc
      omega
    rw [htgt, Function.update_of_ne (by simp), Function.update_of_ne hne]
    exact h.pde i (by omega)
  · change target σ' k.dirs (.pde 0 i) = some pt' at hpt'
    rw [htgt, Function.update_of_ne (by simp)] at hpt'
    by_cases hi : (Slot.pde 0 i) = .pde 0 (PDX (pageVa n))
    · rw [hi, Function.update_self] at hpt'
      obtain rfl : pt = pt' := Option.some.inj hpt'
      rcases hpt with hpt | ⟨-, hpt⟩
      · exact h.table_ge _ pt hpt
      · exact h.free_ge pt hpt
    · rw [Function.update_of_ne hi] at hpt'
      exact h.table_ge i pt' hpt'
  · show Lib.refs (target σ' k.dirs) 2 = n + 1
    rw [htgt, refs_update_self, hpt2]
    rw [Function.update_of_ne (by simp)]
    exact hempty

theorem Filled.fits {n : Nat} {free : List Nat} {held : Set Nat} (h : Filled n k free held)
    (hn : n < 65535) : (MapOp.insert 0 2 (pageVa n) mapPerm).Fits ∅ k := by
  refine .inr ?_
  rw [kernRefs_empty, ← h.pinv.refs_eq 2, h.refs]
  omega

theorem MapOp.dirs_remove {k' : Kernel} {e : EnvIdx} {va r : Word}
    (h : (MapOp.remove e va).run k = .ok (r, k')) : k'.dirs = k.dirs := by
  obtain ⟨d, -, h⟩ := bind_eq_ok.1 h
  obtain ⟨σ, -, h⟩ := bind_eq_ok.1 h
  cases h
  rfl

/-- Page 2 is mapped at two virtual pages, through a page table that the first insertion makes,
and removed from one of them. -/
def shareOps : List MapOp :=
  [.insert 0 2 (pageVa 0) mapPerm, .insert 0 2 (pageVa 1) mapPerm, .remove 0 (pageVa 0),
    .lookup 0 (pageVa 1)]

theorem finite_map_insert : ∃ hist k', runMap shareOps mapKernel = .ok (hist, k') ∧
    IsMap (lastMapped hist) k' := by
  have h₀ := mapKernel_filled
  obtain ⟨k₁, free₁, held₁, hrun₁, h₁⟩ := h₀.insert (by decide)
  obtain ⟨k₂, free₂, held₂, hrun₂, h₂⟩ := h₁.insert (by decide)
  have hlive : k₂.dirs 0 ≠ none := by simp [h₂.dirs, mapKernel_dirs]
  obtain ⟨hist, k', hrun, hmap, -⟩ := finite_map mapKernel_fresh shareOps
    ⟨⟨h₀.allowed (by decide), h₀.fits (by decide)⟩, fun r k' hr => by
      cases hrun₁.symm.trans hr
      refine ⟨⟨h₁.allowed (by decide), h₁.fits (by decide)⟩, fun r k' hr => ?_⟩
      cases hrun₂.symm.trans hr
      refine ⟨⟨⟨hlive, pageVa_lt (by decide)⟩, trivial⟩, fun r k' hr => ?_⟩
      refine ⟨⟨⟨?_, pageVa_lt (by decide)⟩, trivial⟩, fun _ _ _ => trivial⟩
      rw [MapOp.dirs_remove hr]
      exact hlive⟩
  exact ⟨hist, k', hrun, hmap⟩

/-! ### After the wrap -/

/-- `page_insert` of `q` under a table that does not exist yet: the first free page becomes
the table. No invariant is assumed. -/
theorem pageInsert_new {σ : Phys} {d p q : Nat} {va : Word} {rest : List Nat} (perm : Word)
    (habs : ¬ Present (σ.mem d (PDX va))) (hc : Chain σ.ppLink σ.pageFreeList (p :: rest))
    (hhead : σ.pageFreeList = some p) (hpd : p ≠ d) (hpq : p ≠ q) (hq : page2pa q ≠ 0) :
    ∃ σ', pageInsert σ d (some q) va perm = .ok (0, σ') ∧ σ'.npages = σ.npages ∧
      σ'.ppRef p = 1 ∧ Chain σ'.ppLink σ'.pageFreeList rest ∧
      σ'.mem p = Function.update (fun _ => 0) (PTX va) (page2pa q ||| perm ||| PTE_P) ∧
      σ'.mem d (PDX va) = page2pa p ||| PTE_P ||| PTE_W ||| (perm ||| PTE_P) ∧
      ∀ f i, f ≠ p → ¬ (f = d ∧ i = PDX va) → σ'.mem f i = σ.mem f i := by
  have hwalk : pgdirWalk σ d va true = .ok (some (p, PTX va), withTable σ d va p) := by
    rw [pgdirWalk, if_neg habs, if_neg (by simp)]
    simp only [pageAlloc, hhead, withTable, pure_eq_ok]
  set σ₁ := withTable σ d va p with hσ₁
  have hmem₁ : σ₁.mem p = fun _ => 0 := by
    funext i
    rw [hσ₁, withTable, Phys.mem_store, if_neg (fun hc => hpd hc.1)]
    show (pageAlloc σ true).2.mem p i = 0
    rw [mem_pageAlloc hhead, if_pos ⟨rfl, rfl⟩]
  have hpde₁ : σ₁.mem d (PDX va) = page2pa p ||| PTE_P ||| PTE_W := by
    rw [hσ₁, withTable, Phys.mem_store, if_pos ⟨rfl, rfl⟩]
  let σ₂ := σ₁.store (d, PDX va) (σ₁.mem d (PDX va) ||| (perm ||| PTE_P))
  have hmem₂ : σ₂.mem p = fun _ => 0 := by
    funext i
    show (σ₁.store _ _).mem p i = 0
    rw [Phys.mem_store, if_neg (fun hc => hpd hc.1), hmem₁]
  refine ⟨(incRef σ₂ q).store (p, PTX va) (page2pa q ||| perm ||| PTE_P), ?_, ?_, ?_, ?_, ?_, ?_,
    ?_⟩
  · rw [pageInsert_of_walk hwalk]
    have hload : σ₂.load (p, PTX va) = 0 := by rw [Phys.load, hmem₂]
    rw [installPte_empty rfl hload hq]
    rfl
  · show σ₁.npages = σ.npages
    exact (static_withTable σ d va p).1
  · show Function.update σ₁.ppRef q (σ₁.ppRef q + 1) p = 1
    rw [Function.update_of_ne hpq]
    simp [σ₁, withTable, incRef, Phys.store, pageAlloc, hhead]
  · show Chain σ₁.ppLink σ₁.pageFreeList rest
    rw [hhead] at hc
    have := hc.pop_update none
    simpa [σ₁, withTable, Phys.store, incRef, pageAlloc, hhead] using this
  · funext i
    rw [Phys.mem_store, Function.update_apply]
    by_cases hi : i = PTX va
    · rw [if_pos ⟨rfl, hi⟩, if_pos hi]
    · rw [if_neg (fun hc => hi hc.2), if_neg hi]
      show σ₂.mem p i = 0
      rw [hmem₂]
  · rw [Phys.mem_store, if_neg (fun hc => hpd hc.1.symm)]
    show (σ₁.store _ _).mem d (PDX va) = _
    rw [Phys.mem_store, if_pos ⟨rfl, rfl⟩, hpde₁]
  · intro f i hfp hfd
    rw [Phys.mem_store, if_neg (fun hc => hfp hc.1)]
    show (σ₁.store _ _).mem f i = _
    rw [Phys.mem_store, if_neg hfd]
    exact mem_withTable hhead hfp i hfd

/-- `page_remove` of a page whose counter reads one frees it, whatever maps it. -/
theorem pageRemove_last {σ : Phys} {d pt p : Nat} {va : Word} {l : List Nat}
    (hpde : Present (σ.mem d (PDX va))) (hpt : PGNUM (σ.mem d (PDX va)) = pt)
    (hpte : Present (σ.mem pt (PTX va))) (hp : PGNUM (σ.mem pt (PTX va)) = p)
    (hpt' : pt < σ.npages) (hp' : p < σ.npages) (hn : σ.npages ≤ 2 ^ 20) (href : σ.ppRef p = 1)
    (hc : Chain σ.ppLink σ.pageFreeList l) (hpl : p ∉ l) :
    ∃ σ', pageRemove σ d va = .ok σ' ∧ σ'.npages = σ.npages ∧ σ'.pageFreeList = some p ∧
      Chain σ'.ppLink σ'.pageFreeList (p :: l) ∧ σ'.mem = (σ.store (pt, PTX va) 0).mem := by
  have hlook : pageLookup σ d va = .ok (some (p, pt, PTX va)) := by
    have hwalk : pgdirWalk σ d va false = .ok (some (pt, PTX va), σ) := by
      rw [pgdirWalk, if_pos hpde, pa2page_of_lt (by omega), hpt]
      rfl
    have hpg : PGNUM (PTE_ADDR (σ.load (pt, PTX va))) = p := (PGNUM_PTE_ADDR _).trans hp
    rw [pageLookup, hwalk]
    show (if Present (σ.load (pt, PTX va)) then _ else _) = _
    rw [if_pos (show Present (σ.load (pt, PTX va)) from hpte),
      pa2page_of_lt (by rw [hpg]; exact hp'), hpg]
    rfl
  have hchain := chain_pageDecref hc hpl hp' hn
  rw [freeAfter, href, if_pos (by decide)] at hchain
  have hhead : (pageDecref σ p).pageFreeList = some p := by
    cases hh : (pageDecref σ p).pageFreeList with
    | none => rw [hh] at hchain; cases hchain
    | some q =>
      rw [hh] at hchain
      obtain ⟨l', hl, -⟩ := hchain.pop
      rw [(List.cons.inj hl).1]
  refine ⟨dropPte σ d va p (pt, PTX va), ?_, (npages_dropPte ..).1, ?_, ?_, mem_dropPte ..⟩
  · rw [pageRemove, hlook]
    rfl
  all_goals
    unfold dropPte
    dsimp only
    split_ifs
    · assumption
    · assumption

/-- Page 2, whose counter reads one, is unmapped at `va` and so freed, whatever else maps it. Page 3
is then inserted at `vb`, and page 2 becomes the page table. -/
theorem remove_insert_wrapped {σ : Phys} {pt : Nat} {l : List Nat} (va vb : Word)
    (hn : σ.npages = 128) (hpt : pt < 128) (hpt1 : pt ≠ 1) (hpr : Present (σ.mem 1 (PDX va)))
    (hpg : PGNUM (σ.mem 1 (PDX va)) = pt) (hpte : σ.mem pt (PTX va) = entry (some (2, mapPerm)))
    (habs : ¬ Present (σ.mem 1 (PDX vb))) (href : σ.ppRef 2 = 1)
    (hc : Chain σ.ppLink σ.pageFreeList l) (hl : 2 ∉ l) :
    ∃ σ₁ σ₂, pageRemove σ 1 va = .ok σ₁ ∧ Chain σ₁.ppLink σ₁.pageFreeList (2 :: l) ∧
      pageInsert σ₁ 1 (some 3) vb mapPerm = .ok (0, σ₂) ∧ σ₂.npages = 128 ∧ σ₂.ppRef 2 = 1 ∧
      Chain σ₂.ppLink σ₂.pageFreeList l ∧
      σ₂.mem 2 = Function.update (fun _ => 0) (PTX vb) (page2pa 3 ||| mapPerm ||| PTE_P) ∧
      σ₂.mem 1 (PDX vb) = page2pa 2 ||| PTE_P ||| PTE_W ||| (mapPerm ||| PTE_P) ∧
      ∀ f i, f ≠ 2 → ¬ (f = 1 ∧ i = PDX vb) → ¬ (f = pt ∧ i = PTX va) → σ₂.mem f i = σ.mem f i := by
  have hE : Present (entry (some (2, mapPerm))) ∧ PGNUM (entry (some (2, mapPerm))) = 2 := by decide
  obtain ⟨σ₁, hrem, hn₁, hhead, hc₁, hm₁⟩ := pageRemove_last hpr hpg (hpte ▸ hE.1) (hpte ▸ hE.2)
    (by omega) (by omega) (by omega) href hc hl
  have hmem₁ : ∀ f i, ¬ (f = pt ∧ i = PTX va) → σ₁.mem f i = σ.mem f i := fun f i hne => by
    rw [hm₁, Phys.mem_store]
    exact if_neg hne
  have habs₁ : ¬ Present (σ₁.mem 1 (PDX vb)) := by
    rwa [hmem₁ 1 _ fun hc => hpt1 hc.1.symm]
  obtain ⟨σ₂, hins, hn₂, href₂, hc₂, htab, hpde, hmem₂⟩ :=
    pageInsert_new (q := 3) mapPerm habs₁ hc₁ hhead
    (by decide) (by decide) (by decide)
  exact ⟨σ₁, σ₂, hrem, hc₁, hins, by omega, href₂, hc₂, htab, hpde, fun f i hf hd hp =>
    (hmem₂ f i hf hd).trans (hmem₁ f i hp)⟩

/-- Unmap page 2 twice, and insert page 3 under a new table after each. -/
def wrapTail : List MapOp :=
  [.remove 0 (pageVa 0), .insert 0 3 (pageVa 102400) mapPerm,
    .remove 0 (pageVa 1), .insert 0 3 (pageVa 103425) mapPerm]

/-- The state after the run: page 3 was inserted at `pageVa 102400` and is not found there. -/
def LostMapping (hist : List (MapOp × Word)) (k : Kernel) : Prop :=
  (∀ M, hist.foldl record M (vpage 0 (pageVa 102400)) = some (3, mapPerm)) ∧ k.dirs 0 = some 1 ∧
    lookupPte k.phys 1 (pageVa 102400) = .ok none

/-- After 65537 mappings the counter of page 2 reads one. -/
theorem Filled.wrapped {free : List Nat} {held : Set Nat} (h : Filled 65537 k free held) :
    k.phys.ppRef 2 = 1 := by
  have href := h.pinv.valid.ref_eq 2 ⟨by omega, by omega⟩
  change k.phys.ppRef 2 =
    BitVec.ofNat 16 (kernRefs ∅ 2 + Lib.refs (target k.phys k.dirs) 2) at href
  rw [href, kernRefs_empty, h.refs]
  rfl

/-- The first page table is full of mappings of page 2. -/
theorem Filled.first_table {free : List Nat} {held : Set Nat} (h : Filled 65537 k free held) :
    ∃ pt, target k.phys k.dirs (.pde 0 0) = some pt ∧ 4 ≤ pt ∧ pt < 128 ∧
      ∀ j, k.phys.mem pt j = entry (some (2, mapPerm)) := by
  have hentry : ∀ j : Idx, Jos.vm k.phys k.dirs (0, 0, j) = entry (some (2, mapPerm)) := fun j => by
    rw [h.vm, if_pos (by have := j.isLt; show 0 * 1024 + j.val < 65537; omega)]
  cases hpt : target k.phys k.dirs (.pde 0 0) with
  | none =>
    have hz := vm_of_absent hpt 0
    rw [hentry] at hz
    exact absurd hz (by decide)
  | some pt =>
    refine ⟨pt, rfl, h.table_ge 0 pt hpt, h.npages ▸ h.pinv.lt_npages hpt, fun j => ?_⟩
    rw [← vm_of_present hpt j]
    exact hentry j

/-- A page table that holds zero there maps nothing. -/
theorem lookupPte_zero {σ : Phys} {d pt : Nat} {va : Word} (hpr : Present (σ.mem d (PDX va)))
    (hpt : PGNUM (σ.mem d (PDX va)) = pt) (hn : pt < σ.npages) (hz : σ.mem pt (PTX va) = 0) :
    lookupPte σ d va = .ok none := by
  have hwalk : pgdirWalk σ d va false = .ok (some (pt, PTX va), σ) := by
    rw [pgdirWalk, if_pos hpr, pa2page_of_lt (by omega), hpt]
    rfl
  rw [lookupPte, pageLookup, hwalk]
  show Except.map _ (if Present (σ.mem pt (PTX va)) then _ else _) = _
  rw [hz, if_neg (show ¬ Present 0 from not_present_zero)]
  rfl

theorem Filled.tail {free : List Nat} {held : Set Nat} (h : Filled 65537 k free held) :
    Along (fun k op => op.Allowed mapPages k) wrapTail k ∧
      ∃ hist k', runMap wrapTail k = .ok (hist, k') ∧ LostMapping hist k' := by
  have hd : k.dirs 0 = some 1 := by rw [h.dirs]; rfl
  have hlive : k.dirs 0 ≠ none := by rw [hd]; simp
  have hn := h.npages
  have h2 : 2 ∉ free := fun hc => absurd (h.free_ge 2 hc) (by omega)
  have h3 : 3 ∉ free := h.pinv.not_free_of_held h.held
  obtain ⟨pt, hpt, hpt4, hptn, hread⟩ := h.first_table
  obtain ⟨hpr, hpg⟩ := pde_of_target hd (show (0 : Idx).User by decide) hpt
  have hpt1 : pt ≠ 1 := by omega
  have habs : ∀ i : Idx, i.User → 65 < i.val → ¬ Present (k.phys.mem 1 i) := fun i hi hlt =>
    pde_of_absent hd hi (h.pde i (by omega))
  -- The first removal frees page 2, which is still mapped, and it becomes a page table.
  obtain ⟨σA, σB, hA, hAc, hB, hBn, hBref, hBc, -, hBpde, hBmem⟩ :=
    remove_insert_wrapped (σ := k.phys)
    (pageVa 0) (pageVa 102400) hn hptn hpt1 hpr hpg (hread _) (habs _ (by decide) (by decide))
    h.wrapped h.pinv.chain h2
  have hB0 : σB.mem 1 (PDX (pageVa 1)) = k.phys.mem 1 0 :=
    hBmem 1 _ (by decide) (by decide) fun hc => hpt1 hc.1.symm
  have hBpt : σB.mem pt (PTX (pageVa 1)) = entry (some (2, mapPerm)) :=
    (hBmem pt _ (by omega) (fun hc => hpt1 hc.1) fun hc => absurd hc.2 (by decide)).trans (hread _)
  have hBabs : ¬ Present (σB.mem 1 (PDX (pageVa 103425))) := by
    rw [hBmem 1 _ (by decide) (by decide) fun hc => hpt1 hc.1.symm]
    exact habs _ (by decide) (by decide)
  -- The second one frees it again. It becomes a second page table, and the first one is wiped.
  obtain ⟨σC, σD, hC, hCc, hD, hDn, -, hDc, hD2, -, hDmem⟩ := remove_insert_wrapped (pageVa 1)
    (pageVa 103425) hBn hptn hpt1 (hB0 ▸ hpr) ((congrArg PGNUM hB0).trans hpg) hBpt hBabs
    hBref hBc h2
  have hDpde : σD.mem 1 (PDX (pageVa 102400)) =
      page2pa 2 ||| PTE_P ||| PTE_W ||| (mapPerm ||| PTE_P) := by
    rw [hDmem 1 _ (by decide) (by decide) fun hc => hpt1 hc.1.symm, hBpde]
  have hrunA := MapOp.run_remove hd hA
  have hrunB := MapOp.run_insert (k := { k with phys := σA }) hd hB
  have hrunC := MapOp.run_remove (k := { k with phys := σB }) hd hC
  have hrunD := MapOp.run_insert (k := { k with phys := σC }) hd hD
  have hnot : ∀ {σ : Phys} {l : List Nat}, Chain σ.ppLink σ.pageFreeList l → 3 ∉ l →
      ∀ l', Chain σ.ppLink σ.pageFreeList l' → 3 ∉ l' := fun hl h3 l' hl' => by
    rw [hl'.unique hl]
    exact h3
  have h3' : 3 ∉ 2 :: free := by simpa using h3
  refine ⟨⟨⟨hlive, by decide⟩, fun r k' hr => ?_⟩, ?_⟩
  · cases hrunA.symm.trans hr
    refine ⟨⟨hlive, by decide, by decide, ⟨by omega, by omega⟩, hnot hAc h3'⟩, fun r k' hr => ?_⟩
    cases hrunB.symm.trans hr
    refine ⟨⟨hlive, by decide⟩, fun r k' hr => ?_⟩
    cases hrunC.symm.trans hr
    exact ⟨⟨hlive, by decide, by decide, ⟨by omega, by omega⟩, hnot hCc h3'⟩, fun _ _ _ => trivial⟩
  · refine ⟨wrapTail.map fun op => (op, 0), { k with phys := σD }, ?_, fun M => ?_, hd, ?_⟩
    · simp only [wrapTail, List.map_cons, List.map_nil, runMap, hrunA, ok_bind, hrunB, hrunC,
        hrunD, pure_eq_ok]
    · simp only [wrapTail, List.map_cons, List.map_nil, List.foldl_cons, List.foldl_nil, record,
        if_true]
      rw [Function.update_of_ne (by decide), Function.update_of_ne (by decide),
        Function.update_self]
    · have hnD : 2 < σD.npages := by omega
      refine lookupPte_zero (by rw [hDpde]; decide) (by rw [hDpde]; decide) hnD ?_
      show σD.mem 2 _ = 0
      rw [hD2, Function.update_of_ne (by decide)]

/-- Map page 2 at `m` virtual pages, starting at the `n`th. -/
def fill (n m : Nat) : List MapOp :=
  (List.range' n m).map fun i => .insert 0 2 (pageVa i) mapPerm

theorem Filled.run {free : List Nat} {held : Set Nat} (m : Nat) {n : Nat}
    (h : Filled n k free held) (hnm : n + m = 65537) :
    Along (fun k op => op.Allowed mapPages k) (fill n m ++ wrapTail) k ∧
      ∃ hist k', runMap (fill n m ++ wrapTail) k = .ok (hist, k') ∧ LostMapping hist k' := by
  induction m generalizing n k free held with
  | zero =>
    obtain rfl : n = 65537 := hnm
    exact h.tail
  | succ m ih =>
    obtain ⟨k₁, free₁, held₁, hrun, h₁⟩ := h.insert (by omega)
    obtain ⟨halong, hist, k', hk', hlost⟩ := ih h₁ (by omega)
    have hfill : fill n (m + 1) ++ wrapTail =
        .insert 0 2 (pageVa n) mapPerm :: (fill (n + 1) m ++ wrapTail) := by
      simp only [fill, List.range'_succ, List.map_cons, List.cons_append]
    rw [hfill]
    refine ⟨⟨h.allowed (by omega), fun r k'' hr => ?_⟩, (.insert 0 2 (pageVa n) mapPerm, 0) :: hist,
      k', ?_, fun M => hlost.1 _, hlost.2⟩
    · cases hrun.symm.trans hr
      exact halong
    · simp only [runMap, hrun, ok_bind, hk', pure_eq_ok]

/-- The run that loses a mapping. -/
def wrapOps : List MapOp := fill 0 65537 ++ wrapTail

/-- **Without the bound the map is lost.** The operations of `wrapOps` keep all promises of
their callers, but the lookup at `pageVa 102400` finds nothing although the last operation
there was the insertion of page 3. -/
theorem finite_map_fails : Fresh mapPages ∅ mapKernel ∧
    Along (fun k op => op.Allowed mapPages k) wrapOps mapKernel ∧
    ∃ hist k', runMap wrapOps mapKernel = .ok (hist, k') ∧ ¬ IsMap (lastMapped hist) k' := by
  obtain ⟨halong, hist, k', hrun, hlast, hdir, hnone⟩ := mapKernel_filled.run 65537 rfl
  refine ⟨mapKernel_fresh, halong, hist, k', hrun, fun hmap => ?_⟩
  have hlook := hmap.lookup 0 1 (pageVa 102400) hdir (by decide)
  rw [hnone, lastMapped, hlast] at hlook
  cases hlook

end Jos
