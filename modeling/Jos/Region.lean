import Jos.Boot
import Jos.SysMem

/-!
# `region_alloc`

`region_alloc` (`kern/env.c`) maps fresh pages for `len` bytes from `va` on, and panics when there
is no page left. It rounds the two ends of the range to pages, in 32 bits, and compares the upper
one with `UTOP`. It does not look at what `page_insert` returns.

**The loop** (`regionLoop`). Each page takes one page from the free list, and one more if its page
table does not exist yet; a page that was mapped there before goes back to the free list when that
was its last reference. `RegionFilled` is the state after `k` pages, with the balance of the free
list.

**What goes wrong.** If the last free page is taken for the last page of the range, and its page
table does not exist, `page_insert` fails and `region_alloc` returns as if nothing had happened
(`LastTableMissing`). For any page before the last one the next `page_alloc` panics. And a
range that reaches the end of the address space wraps to a small address, so that nothing is mapped
(`WrapsUnseen`).
-/

namespace Jos

open Lib

/-! ## Definitions -/

/-- The flags of a region. -/
def regionPerm : Word := PTE_U ||| PTE_P ||| PTE_W

/-- The loop of `region_alloc`, for `n` pages from `va` on. -/
def regionLoop (pgdir : Nat) : Nat → Word → Phys → Except String Phys
  | 0, _, σ => .ok σ
  | n + 1, va, σ =>
    match pageAlloc σ false with
    | (none, _) => .error "region_alloc: failed at page_alloc\n"
    | (some p, σ) => do
      -- the result is dropped
      let (_, σ) ← pageInsert σ pgdir (some p) va regionPerm
      regionLoop pgdir n (va + 0x1000#32) σ

/-- `region_alloc`. -/
def regionAlloc (σ : Phys) (pgdir : Nat) (va len : Word) : Except String (Option PtePtr × Phys) :=
  let dstoft := ROUNDUP (va + len)
  if UTOP ≤ dstoft then .error "Fatal UTOP <= ROUNUP( ((uint32_t)(va)) + len)"
  else do
    let rdownVa := ROUNDDOWN va
    let σ ← regionLoop pgdir ((dstoft.toNat - rdownVa.toNat) / PGSIZE) rdownVa σ
    pgdirWalk σ pgdir va false

/-- The `k`-th page from the page of `va` on. -/
def pageFrom (va : Word) (k : ℕ) : Word := ROUNDDOWN va + BitVec.ofNat 32 (k * PGSIZE)

/-- The entry for the `k`-th page. -/
def regionSlot (e : EnvIdx) (va : Word) (k : ℕ) : Slot :=
  .pte e (PDX (pageFrom va k)) (PTX (pageFrom va k))

variable {managed tables : Set Nat} {σ σ' σ₁ : Phys} {dirs : EnvIdx → Option Nat}
  {free free' : List Nat} {held : Set Nat} {e : EnvIdx} {d p q n k : Nat} {va len : Word}

/-- The page tables that the first `k` pages need and that do not exist. -/
def newTables (σ : Phys) (dirs : EnvIdx → Option Nat) (e : EnvIdx) (va : Word) (k : ℕ) :
    Finset Idx :=
  Finset.univ.filter fun i => target σ dirs (.pde e i) = none ∧ ∃ j < k, PDX (pageFrom va j) = i

/-- The pages that are mapped at the first `k` pages and nowhere else. -/
def freedPages (σ : Phys) (dirs : EnvIdx → Option Nat) (e : EnvIdx) (va : Word) (k : ℕ) :
    Finset Nat :=
  (Finset.range σ.npages).filter fun q => (∃ j < k, target σ dirs (regionSlot e va j) = some q) ∧
    ∀ s, target σ dirs s = some q → ∃ j < k, s = regionSlot e va j

/-- Once `k` pages are mapped, there is memory for the next one and its table. -/
def PageFits (σ : Phys) (dirs : EnvIdx → Option Nat) (free : List Nat) (e : EnvIdx)
    (va : Word) (k : ℕ) :
    Prop :=
  k + 1 + (newTables σ dirs e va (k + 1)).card ≤ free.length + (freedPages σ dirs e va k).card

instance (σ : Phys) (dirs : EnvIdx → Option Nat) (free : List Nat) (e : EnvIdx)
    (va : Word) (k : ℕ) :
    Decidable (PageFits σ dirs free e va k) := by
  unfold PageFits; infer_instance

/-! ## The pages of a region -/

/-- The region of `n` pages ends at or below `UTOP`. -/
def BelowUTOP (va : Word) (n : ℕ) : Prop := va.toNat / 4096 * 4096 + n * 4096 ≤ UTOP.toNat

theorem toNat_ROUNDDOWN (a : Word) : (ROUNDDOWN a).toNat = a.toNat / 4096 * 4096 := toNat_PTE_ADDR a

theorem toNat_UTOP : UTOP.toNat = 0xEEC00000 := by decide

theorem toNat_pageFrom (h : BelowUTOP va n) (hk : k ≤ n) :
    (pageFrom va k).toNat = va.toNat / 4096 * 4096 + k * 4096 := by
  have hutop := toNat_UTOP
  unfold BelowUTOP at h
  rw [pageFrom, BitVec.toNat_add, toNat_ROUNDDOWN, BitVec.toNat_ofNat]
  unfold PGSIZE
  omega

theorem pageFrom_lt (h : BelowUTOP va n) (hk : k < n) : pageFrom va k < UTOP := by
  rw [BitVec.lt_def, toNat_pageFrom h hk.le]
  unfold BelowUTOP at h
  omega

theorem pageFrom_succ (va : Word) (k : ℕ) :
    pageFrom va k + 0x1000#32 = pageFrom va (k + 1) := by
  unfold pageFrom PGSIZE
  rw [Nat.succ_mul, BitVec.ofNat_add, BitVec.add_assoc]

theorem pageFrom_zero (va : Word) : pageFrom va 0 = ROUNDDOWN va := by
  rw [pageFrom, Nat.zero_mul]
  exact BitVec.add_zero _

theorem mapIdx_pageFrom_inj (h : BelowUTOP va n) {j : ℕ} (hj : j < n) (hk : k < n)
    (heq : mapIdx e (pageFrom va j) = mapIdx e (pageFrom va k)) : j = k := by
  have hd : (PDX (pageFrom va j)).val = (PDX (pageFrom va k)).val :=
    congrArg (fun x => x.2.1.val) heq
  have ht : (PTX (pageFrom va j)).val = (PTX (pageFrom va k)).val :=
    congrArg (fun x => x.2.2.val) heq
  rw [val_PDX, val_PDX, toNat_pageFrom h hj.le, toNat_pageFrom h hk.le] at hd
  rw [val_PTX, val_PTX, toNat_pageFrom h hj.le, toNat_pageFrom h hk.le] at ht
  omega

theorem regionSlot_inj (h : BelowUTOP va n) {j : ℕ} (hj : j < n) (hk : k < n)
    (heq : regionSlot e va j = regionSlot e va k) : j = k := by
  refine mapIdx_pageFrom_inj h hj hk (e := e) ?_
  unfold regionSlot at heq
  simpa [mapIdx] using heq

/-! ## The balance of the free list -/

theorem newTables_succ (σ : Phys) (dirs : EnvIdx → Option Nat) (e : EnvIdx) (va : Word) (k : ℕ) :
    (newTables σ dirs e va (k + 1)).card = (newTables σ dirs e va k).card +
      if target σ dirs (.pde e (PDX (pageFrom va k))) = none ∧
        ∀ j < k, PDX (pageFrom va j) ≠ PDX (pageFrom va k) then 1 else 0 := by
  have hmem : ∀ k i, i ∈ newTables σ dirs e va k ↔
      target σ dirs (.pde e i) = none ∧ ∃ j < k, PDX (pageFrom va j) = i := fun k i => by
    simp [newTables]
  have hle : ∀ j < k + 1, j < k ∨ j = k := fun j hj => Nat.lt_succ_iff_lt_or_eq.1 hj
  split_ifs with h
  · have hnew : PDX (pageFrom va k) ∉ newTables σ dirs e va k := fun hc => by
      obtain ⟨-, j, hj, hjk⟩ := (hmem _ _).1 hc
      exact h.2 j hj hjk
    have heq : newTables σ dirs e va (k + 1) =
        insert (PDX (pageFrom va k)) (newTables σ dirs e va k) := by
      ext i
      rw [Finset.mem_insert, hmem, hmem]
      constructor
      · rintro ⟨hnone, j, hj, rfl⟩
        rcases hle j hj with hj | rfl
        · exact .inr ⟨hnone, j, hj, rfl⟩
        · exact .inl rfl
      · rintro (rfl | ⟨hnone, j, hj, hji⟩)
        · exact ⟨h.1, k, k.lt_succ_self, rfl⟩
        · exact ⟨hnone, j, by omega, hji⟩
    rw [heq, Finset.card_insert_of_notMem hnew]
  · have heq : newTables σ dirs e va (k + 1) = newTables σ dirs e va k := by
      ext i
      rw [hmem, hmem]
      refine ⟨?_, fun ⟨hnone, j, hj, hji⟩ => ⟨hnone, j, by omega, hji⟩⟩
      rintro ⟨hnone, j, hj, rfl⟩
      rcases hle j hj with hj | rfl
      · exact ⟨hnone, j, hj, rfl⟩
      · by_contra hc
        exact h ⟨hnone, fun i hi hij => hc ⟨hnone, i, hi, hij⟩⟩
    rw [heq, Nat.add_zero]

theorem newTables_mono {j : ℕ} (h : j ≤ k) : newTables σ dirs e va j ⊆ newTables σ dirs e va k := by
  intro i hi
  obtain ⟨h₁, h₂, l, hl, hli⟩ := Finset.mem_filter.1 hi
  exact Finset.mem_filter.2 ⟨h₁, h₂, l, by omega, hli⟩

/-- The page mapped at the `k`-th page is mapped nowhere else, apart from pages before. -/
def LastAt (σ : Phys) (dirs : EnvIdx → Option Nat) (e : EnvIdx) (va : Word) (k q : ℕ) : Prop :=
  target σ dirs (regionSlot e va k) = some q ∧
    ∀ s, target σ dirs s = some q → ∃ j < k + 1, s = regionSlot e va j

theorem freedPages_succ_some (hb : BelowUTOP va n) (hk : k < n) (h : LastAt σ dirs e va k q)
    (hq : q < σ.npages) :
    (freedPages σ dirs e va (k + 1)).card = (freedPages σ dirs e va k).card + 1 := by
  have hnew : q ∉ freedPages σ dirs e va k := fun hc => by
    obtain ⟨-, -, hall⟩ := Finset.mem_filter.1 hc
    obtain ⟨j, hj, heq⟩ := hall _ h.1
    have := regionSlot_inj hb hk (by omega) heq
    omega
  rw [← Finset.card_insert_of_notMem hnew]
  congr 1
  ext q'
  rw [Finset.mem_insert]
  constructor
  · intro hq'
    obtain ⟨hlt, ⟨j, hj, hjq⟩, hall⟩ := Finset.mem_filter.1 hq'
    by_cases hqq : q' = q
    · exact .inl hqq
    · have hlow : ∀ j < k + 1, target σ dirs (regionSlot e va j) = some q' → j < k :=
        fun i hi hiq => by
        by_contra hc
        obtain rfl : i = k := by omega
        exact hqq (Option.some.inj (hiq.symm.trans h.1))
      refine .inr (Finset.mem_filter.2 ⟨hlt, ⟨j, hlow j hj hjq, hjq⟩, fun s hs => ?_⟩)
      obtain ⟨i, hi, rfl⟩ := hall s hs
      exact ⟨i, hlow i hi hs, rfl⟩
  · rintro (rfl | hq')
    · exact Finset.mem_filter.2 ⟨Finset.mem_range.2 hq, ⟨k, k.lt_succ_self, h.1⟩, h.2⟩
    · obtain ⟨hlt, ⟨j, hj, hjq⟩, hall⟩ := Finset.mem_filter.1 hq'
      refine Finset.mem_filter.2 ⟨hlt, ⟨j, by omega, hjq⟩, fun s hs => ?_⟩
      obtain ⟨i, hi, his⟩ := hall s hs
      exact ⟨i, by omega, his⟩

theorem freedPages_succ_none (h : ∀ q, ¬ LastAt σ dirs e va k q) :
    freedPages σ dirs e va (k + 1) = freedPages σ dirs e va k := by
  ext q
  constructor
  · intro hq
    obtain ⟨hlt, ⟨j, hj, hjq⟩, hall⟩ := Finset.mem_filter.1 hq
    have hlow : ∀ j < k + 1, target σ dirs (regionSlot e va j) = some q → j < k :=
      fun i hi hiq => by
      by_contra hc
      obtain rfl : i = k := by omega
      exact h q ⟨hiq, hall⟩
    refine Finset.mem_filter.2 ⟨hlt, ⟨j, hlow j hj hjq, hjq⟩, fun s hs => ?_⟩
    obtain ⟨i, hi, rfl⟩ := hall s hs
    exact ⟨i, hlow i hi hs, rfl⟩
  · intro hq
    obtain ⟨hlt, ⟨j, hj, hjq⟩, hall⟩ := Finset.mem_filter.1 hq
    refine Finset.mem_filter.2 ⟨hlt, ⟨j, by omega, hjq⟩, fun s hs => ?_⟩
    obtain ⟨i, hi, his⟩ := hall s hs
    exact ⟨i, by omega, his⟩

theorem MemInv.freeAfter_eq (h : MemInv managed tables σ dirs free held) {i j : Idx}
    (hq : target σ dirs (.pte e i j) = some q) (l : List Nat) :
    freeAfter σ q l = if refs (target σ dirs) q = 1 then q :: l else l := by
  have hbase : kernRefs tables q = 0 := by
    rw [kernRefs, Set.indicator_of_notMem (h.data e i j q hq).1]
  have href : σ.ppRef q = BitVec.ofNat 16 (kernRefs tables q + refs (target σ dirs) q) :=
    h.pinv.valid.ref_eq q (h.pinv.valid.tgt_mem (.pte e i j) q hq)
  have hlt := h.noWrap q
  have hpos := refs_pos hq
  rw [hbase, Nat.zero_add] at href hlt
  have hiff : σ.ppRef q - 1 = 0 ↔ refs (target σ dirs) q = 1 := by
    rw [href]
    constructor
    · intro hz
      bv_omega
    · intro hone
      rw [hone]
      rfl
  unfold freeAfter
  by_cases hone : refs (target σ dirs) q = 1
  · rw [if_pos (hiff.2 hone), if_pos hone]
  · rw [if_neg fun hz => hone (hiff.1 hz), if_neg hone]

theorem refs_eq_one_iff {tgt : Slot → Option Nat} {s : Slot} (h : tgt s = some q) :
    refs tgt q = 1 ↔ ∀ t, tgt t = some q → t = s := by
  constructor
  · intro hone t ht
    obtain ⟨a, ha⟩ := Finset.card_eq_one.1 hone
    have hmem : ∀ t, tgt t = some q → t = a := fun t ht => by
      have : t ∈ Finset.univ.filter fun s => tgt s = some q := by simp [ht]
      rw [ha] at this
      exact Finset.mem_singleton.1 this
    rw [hmem t ht, hmem s h]
  · intro hall
    have hle : refs tgt q ≤ 1 := refs_le_one fun t t' ht ht' => (hall t ht).trans (hall t' ht').symm
    have := refs_pos h
    omega

/-! ## One page -/

/-- `1` if dropping the entry drops the last reference to its page. -/
def lastRef (tgt : Slot → Option Nat) (s : Slot) : ℕ :=
  match tgt s with
  | none => 0
  | some q => if refs tgt q = 1 then 1 else 0

/-- One page of the loop took effect: the fresh page `p` is mapped at `va`. `count` is the balance
of the free list. -/
structure MappedFresh (managed tables : Set Nat) (σ σ' : Phys) (dirs : EnvIdx → Option Nat)
    (free free' : List Nat) (e : EnvIdx) (d : Nat) (va : Word) (p : Nat) : Prop where
  inv : MemInv managed tables σ' dirs free' ∅
  fresh : p ∈ free
  npages : σ'.npages = σ.npages
  kernPgdir : σ'.kernPgdir = σ.kernPgdir
  vm : vm σ' dirs = Function.update (Jos.vm σ dirs) (mapIdx e va)
    (page2pa p ||| regionPerm ||| PTE_P)
  pdes : ∃ w, pdes σ' dirs =
    Function.update (Jos.pdes σ dirs) (e, PDX va) (w ||| (regionPerm ||| PTE_P))
  tgt : ∃ pt, target σ' dirs = Function.update
      (Function.update (target σ dirs) (.pde e (PDX va)) (some pt)) (.pte e (PDX va) (PTX va))
        (some p) ∧
    (target σ dirs (.pde e (PDX va)) = some pt ∨
      target σ dirs (.pde e (PDX va)) = none ∧ pt ∈ free ∧ pt ≠ p)
  mem : ∀ f, (∃ e i j, target σ dirs (.pte e i j) = some f) → σ'.mem f = σ.mem f
  own : ∀ i : Idx, ¬ i.User → σ'.mem d i = σ.mem d i
  count : free'.length + 1 + (if target σ dirs (.pde e (PDX va)) = none then 1 else 0) =
    free.length + lastRef (target σ dirs) (.pte e (PDX va) (PTX va))

theorem MemInv.alloc_region {rest : List Nat} (h : MemInv managed tables σ dirs (p :: rest) ∅) :
    ∃ σ₁, pageAlloc σ false = (some p, σ₁) ∧ MemInv managed tables σ₁ dirs rest {p} ∧
      pdes σ₁ dirs = pdes σ dirs ∧ vm σ₁ dirs = vm σ dirs ∧ σ₁.mem = σ.mem ∧
      σ₁.npages = σ.npages ∧ σ₁.kernPgdir = σ.kernPgdir := by
  have hhead := h.pinv.head_eq
  obtain ⟨h₁, hm, hvm, -⟩ := h.alloc false
  obtain ⟨-, -, hpd, -⟩ := h.pinv.alloc false
  rw [insert_empty_eq] at hm
  exact ⟨(pageAlloc σ false).2, Prod.ext h₁ rfl, hm, hpd, hvm, by simp [pageAlloc, hhead],
    by simp [pageAlloc, hhead], by simp [pageAlloc, hhead]⟩

/-- The bounds on the counts that `page_insert` of a fresh page needs. -/
theorem MemInv.insert_region (h : MemInv managed tables σ dirs free {p}) (hd : dirs e = some d)
    (hva : va < UTOP) :
    (free = [] ∧ target σ dirs (.pde e (PDX va)) = none ∧
        pageInsert σ d (some p) va regionPerm = .ok (-E_NO_MEM, σ)) ∨
      ∃ σ' free', pageInsert σ d (some p) va regionPerm = .ok (0, σ') ∧
        Inserted managed (kernRefs tables) σ σ' dirs free free' {p} e p va regionPerm ∧
        MemInv managed tables σ' dirs free' ∅ := by
  obtain ⟨hmanaged, hfree, htab, hzero⟩ := h.pinv.held_fresh (Set.mem_singleton p)
  have hbase : kernRefs tables p = 0 := by rw [kernRefs, Set.indicator_of_notMem htab]
  have hins := h.insert hd hva hmanaged hfree (h.pinv.held_mappable (Set.mem_singleton p))
    (by decide : regionPerm &&& ~~~PTE_USER = 0) (.inr (by omega))
  rw [sdiff_self, Set.bot_eq_empty] at hins
  rcases hins with ⟨hnil, hfail⟩ | hok
  · refine .inl ⟨hnil, ?_, hfail⟩
    obtain ⟨-, hnone, -⟩ | ⟨σ', free', hok, -⟩ := h.pinv.insert hd (PDX_user hva) hmanaged hfree
      (by decide : PTE_ADDR regionPerm = 0) fun q _ _ => (h.noWrap q).le
    · exact hnone
    · rw [hfail] at hok
      have hret : -E_NO_MEM = (0 : Word) := congrArg Prod.fst (Except.ok.inj hok)
      exact absurd hret (by decide)
  · exact .inr hok

/-- The last free page was taken for the page itself, and its table does not exist. -/
theorem MemInv.insert_region_fails (h : MemInv managed tables σ dirs [] {p}) (hd : dirs e = some d)
    (hva : va < UTOP) (hnone : target σ dirs (.pde e (PDX va)) = none) :
    pageInsert σ d (some p) va regionPerm = .ok (-E_NO_MEM, σ) := by
  obtain ⟨-, -, hfail⟩ | ⟨σ', free', -, hI, -⟩ := h.insert_region hd hva
  · exact hfail
  · obtain ⟨pt, -, hold | ⟨-, hpt⟩⟩ := hI.tgt
    · rw [hnone] at hold
      cases hold
    · exact absurd hpt List.not_mem_nil

/-- **One page of the loop**, if there is memory for it. -/
theorem MemInv.mapFresh (h : MemInv managed tables σ dirs free ∅) (hd : dirs e = some d)
    (hva : va < UTOP)
    (hroom : 1 + (if target σ dirs (.pde e (PDX va)) = none then 1 else 0) ≤ free.length) :
    ∃ p σ₁ σ' free', pageAlloc σ false = (some p, σ₁) ∧
      pageInsert σ₁ d (some p) va regionPerm = .ok (0, σ') ∧
      MappedFresh managed tables σ σ' dirs free free' e d va p := by
  obtain ⟨p, rest, rfl⟩ : ∃ p rest, free = p :: rest := by
    cases free with
    | nil => simp at hroom
    | cons p rest => exact ⟨p, rest, rfl⟩
  obtain ⟨σ₁, halloc, hm, hpd, hvm, hmem, hnp, hkd⟩ := h.alloc_region
  have htgt : target σ₁ dirs = target σ dirs := target_congr hpd hvm
  rcases hm.insert_region hd hva with ⟨rfl, hnone, -⟩ | ⟨σ', free', hins, hI, hm'⟩
  · rw [htgt] at hnone
    rw [if_pos hnone] at hroom
    simp at hroom
  have hpfree : p ∉ rest := hm.pinv.not_free_of_held (Set.mem_singleton p)
  refine ⟨p, σ₁, σ', free', halloc, hins, hm', List.mem_cons_self, hI.npages.trans hnp,
    hI.kernPgdir.trans hkd, hvm ▸ hI.vm, ⟨_, hpd ▸ hI.pdes⟩, ?_, fun f hf => ?_, fun i hi => ?_, ?_⟩
  · obtain ⟨pt, htgt', hpt⟩ := hI.tgt
    rw [htgt] at htgt' hpt
    refine ⟨pt, htgt', hpt.imp id fun hc => ⟨hc.1, List.mem_cons_of_mem p hc.2, ?_⟩⟩
    rintro rfl
    exact hpfree hc.2
  · obtain ⟨e', i, j, hf⟩ := hf
    have hdata := (h.data e' i j f hf).2
    rw [hI.mem f (hdata (.dir e) trivial) ?_ ?_, hmem]
    · intro e'' i'
      rw [htgt]
      exact hdata (.pde e'' i') trivial
    · exact fun hc => h.pinv.not_mem_free hf (List.mem_cons_of_mem p hc)
  · rw [hI.own d hd i hi, hmem]
  · have hcount := hI.free_eq
    have hcount' := hI.free_some
    rw [htgt] at hcount hcount'
    unfold lastRef
    cases hq : target σ dirs (.pte e (PDX va) (PTX va)) with
    | none =>
      rw [hcount hq]
      dsimp only
      by_cases hnone : target σ dirs (.pde e (PDX va)) = none
      · rw [if_pos hnone] at hroom ⊢
        rw [if_pos hnone]
        rw [List.length_cons] at hroom ⊢
        rw [List.length_tail]
        omega
      · rw [if_neg hnone, if_neg hnone]
        rfl
    | some q =>
      have hqp : q ≠ p := fun hc => h.pinv.not_mem_free hq (hc ▸ List.mem_cons_self)
      have hpde : target σ dirs (.pde e (PDX va)) ≠ none := fun hc => by
        rw [target_pte_absent hc] at hq
        cases hq
      rw [hcount' q hq, if_neg hqp, hm.freeAfter_eq (htgt ▸ hq), htgt, if_neg hpde]
      dsimp only
      split_ifs <;> rfl

/-! ## The loop -/

/-- The first `k` pages of the region are mapped, to pages of their own. Everything else is as
before. -/
structure RegionFilled (managed tables : Set Nat) (σ σ' : Phys) (dirs : EnvIdx → Option Nat)
    (free free' : List Nat) (e : EnvIdx) (d : Nat) (va : Word) (k : ℕ) : Prop where
  inv : MemInv managed tables σ' dirs free' ∅
  npages : σ'.npages = σ.npages
  kernPgdir : σ'.kernPgdir = σ.kernPgdir
  own : ∀ i : Idx, ¬ i.User → σ'.mem d i = σ.mem d i
  vm : ∀ x, (∀ j < k, x ≠ mapIdx e (pageFrom va j)) → vm σ' dirs x = vm σ dirs x
  pages : ∀ j < k, ∃ p, p ∈ managed ∧
    Jos.vm σ' dirs (mapIdx e (pageFrom va j)) = page2pa p ||| regionPerm ||| PTE_P
  pdes : ∀ j < k, ∃ w, pdes σ' dirs (e, PDX (pageFrom va j)) = w ||| (regionPerm ||| PTE_P)
  pdes_other : ∀ i, (∀ j < k, PDX (pageFrom va j) ≠ i) →
    Jos.pdes σ' dirs (e, i) = Jos.pdes σ dirs (e, i)
  pde_none : ∀ i, target σ' dirs (.pde e i) = none ↔
    target σ dirs (.pde e i) = none ∧ ∀ j < k, PDX (pageFrom va j) ≠ i
  same : ∀ q s₀, target σ dirs s₀ = some q → (∀ j < k, s₀ ≠ regionSlot e va j) →
    ∀ s, target σ' dirs s = some q ↔ target σ dirs s = some q ∧ ∀ j < k, s ≠ regionSlot e va j
  alone : ∀ j < k, ∀ s, target σ' dirs s = target σ' dirs (regionSlot e va j) →
    s = regionSlot e va j
  mem : ∀ q e' i j', target σ dirs (.pte e' i j') = some q →
    (∀ j < k, Slot.pte e' i j' ≠ regionSlot e va j) → σ'.mem q = σ.mem q
  count : free'.length + k + (newTables σ dirs e va k).card =
    free.length + (freedPages σ dirs e va k).card

theorem newTables_zero (σ : Phys) (dirs : EnvIdx → Option Nat) (e : EnvIdx) (va : Word) :
    newTables σ dirs e va 0 = ∅ := by
  simp [newTables]

theorem freedPages_zero (σ : Phys) (dirs : EnvIdx → Option Nat) (e : EnvIdx) (va : Word) :
    freedPages σ dirs e va 0 = ∅ := by
  simp [freedPages]

theorem RegionFilled.init (h : MemInv managed tables σ dirs free ∅) (e : EnvIdx) (d : Nat)
    (va : Word) :
    RegionFilled managed tables σ σ dirs free free e d va 0 where
  inv := h
  npages := rfl
  kernPgdir := rfl
  own := fun _ _ => rfl
  vm := fun _ _ => rfl
  pages := fun j hj => absurd hj (Nat.not_lt_zero j)
  pdes := fun j hj => absurd hj (Nat.not_lt_zero j)
  pdes_other := fun _ _ => rfl
  pde_none := fun i => ⟨fun h => ⟨h, fun j hj => absurd hj (Nat.not_lt_zero j)⟩, fun h => h.1⟩
  same := fun q s₀ _ _ s => ⟨fun h => ⟨h, fun j hj => absurd hj (Nat.not_lt_zero j)⟩, fun h => h.1⟩
  alone := fun j hj => absurd hj (Nat.not_lt_zero j)
  mem := fun _ _ _ _ _ _ => rfl
  count := by rw [newTables_zero, freedPages_zero, Nat.add_zero]; rfl

section step

variable {σ₂ : Phys} {free₂ : List Nat}

theorem RegionFilled.target_next (h : RegionFilled managed tables σ σ' dirs free free' e d va k)
    (hb : BelowUTOP va n) (hk : k < n) :
    target σ' dirs (regionSlot e va k) = target σ dirs (regionSlot e va k) := by
  have hvm := h.vm (mapIdx e (pageFrom va k)) fun j hj heq => by
    have := mapIdx_pageFrom_inj hb hk (hj.trans hk) heq
    omega
  exact congrArg named hvm

theorem RegionFilled.tables_next (h : RegionFilled managed tables σ σ' dirs free free' e d va k) :
    (newTables σ dirs e va (k + 1)).card = (newTables σ dirs e va k).card +
      if target σ' dirs (.pde e (PDX (pageFrom va k))) = none then 1 else 0 := by
  rw [newTables_succ]
  simp only [h.pde_none]

theorem RegionFilled.lastRef_next (h : RegionFilled managed tables σ σ' dirs free free' e d va k)
    (hb : BelowUTOP va n) (hk : k < n) (hinv : MemInv managed tables σ dirs free ∅) :
    (freedPages σ dirs e va (k + 1)).card =
      (freedPages σ dirs e va k).card + lastRef (target σ' dirs) (regionSlot e va k) := by
  have hnext := h.target_next hb hk
  unfold lastRef
  cases hq : target σ' dirs (regionSlot e va k) with
  | none =>
    rw [hnext] at hq
    rw [freedPages_succ_none fun q hc => by rw [hc.1] at hq; cases hq]
    rfl
  | some q =>
    have hq₀ : target σ dirs (regionSlot e va k) = some q := hnext ▸ hq
    have hsame := h.same q _ hq₀ fun j hj heq => by
      have := regionSlot_inj hb hk (hj.trans hk) heq
      omega
    have hiff : refs (target σ' dirs) q = 1 ↔ LastAt σ dirs e va k q := by
      rw [refs_eq_one_iff hq]
      constructor
      · intro hall
        refine ⟨hq₀, fun s hs => ?_⟩
        by_cases hold : ∃ j < k, s = regionSlot e va j
        · obtain ⟨j, hj, rfl⟩ := hold
          exact ⟨j, by omega, rfl⟩
        · refine ⟨k, k.lt_succ_self, hall s ((hsame s).2 ⟨hs, fun j hj hc => hold ⟨j, hj, hc⟩⟩)⟩
      · intro hlast s hs
        obtain ⟨hs₀, hne⟩ := (hsame s).1 hs
        obtain ⟨j, hj, rfl⟩ := hlast.2 s hs₀
        obtain rfl : j = k := by
          by_contra hc
          exact hne j (by omega) rfl
        rfl
    dsimp only
    by_cases hone : refs (target σ' dirs) q = 1
    · rw [if_pos hone]
      exact freedPages_succ_some hb hk (hiff.1 hone) (hinv.pinv.lt_npages hq₀)
    · rw [if_neg hone, freedPages_succ_none fun q' hc => ?_]
      · rfl
      · have hqq : q' = q := Option.some.inj (hc.1.symm.trans hq₀)
        exact hone (hiff.2 (hqq ▸ hc))

/-- The entries that name a page in use are as before, apart from the one that is set. -/
theorem MappedFresh.target_iff (h : MappedFresh managed tables σ σ' dirs free free' e d va p)
    (hq : q ∉ free) (s : Slot) :
    target σ' dirs s = some q ↔ s ≠ .pte e (PDX va) (PTX va) ∧ target σ dirs s = some q := by
  obtain ⟨pt, htgt, hpt⟩ := h.tgt
  rw [htgt]
  by_cases hs : s = .pte e (PDX va) (PTX va)
  · rw [hs, Function.update_self]
    refine iff_of_false (fun hc => hq ?_) fun hc => hc.1 rfl
    exact Option.some.inj hc ▸ h.fresh
  rw [Function.update_of_ne hs]
  by_cases hs' : s = .pde e (PDX va)
  · rw [hs', Function.update_self]
    rcases hpt with hold | ⟨hnone, hmem, -⟩
    · rw [hold]
      exact ⟨fun hc => ⟨nofun, hc⟩, fun hc => hc.2⟩
    · rw [hnone]
      exact iff_of_false (fun hc => hq (Option.some.inj hc ▸ hmem)) fun hc => by cases hc.2
  · rw [Function.update_of_ne hs']
    exact ⟨fun hc => ⟨hs, hc⟩, fun hc => hc.2⟩

theorem MappedFresh.alone (h : MappedFresh managed tables σ σ' dirs free free' e d va p)
    (hinv : MemInv managed tables σ dirs free ∅) {s : Slot} (hs : target σ' dirs s = some p) :
    s = .pte e (PDX va) (PTX va) := by
  have hpfree := hinv.pinv.target_ne_free h.fresh
  obtain ⟨pt, htgt, hpt⟩ := h.tgt
  by_contra hne
  rw [htgt, Function.update_of_ne hne] at hs
  by_cases hs' : s = .pde e (PDX va)
  · rw [hs', Function.update_self] at hs
    obtain rfl := Option.some.inj hs
    rcases hpt with hold | ⟨-, -, hne⟩
    · exact hpfree _ hold
    · exact hne rfl
  · rw [Function.update_of_ne hs'] at hs
    exact hpfree s hs

theorem MappedFresh.pde_none
    (h : MappedFresh managed tables σ σ' dirs free free' e d va p) (i : Idx) :
    target σ' dirs (.pde e i) = none ↔ target σ dirs (.pde e i) = none ∧ PDX va ≠ i := by
  obtain ⟨pt, htgt, -⟩ := h.tgt
  have hne : Slot.pde e i ≠ .pte e (PDX va) (PTX va) := nofun
  rw [htgt, Function.update_of_ne hne]
  by_cases hi : PDX va = i
  · rw [← hi, Function.update_self]
    exact iff_of_false nofun fun hc => hc.2 rfl
  · rw [Function.update_of_ne fun hc => hi (by injection hc with _ hc; exact hc.symm)]
    exact ⟨fun hc => ⟨hc, hi⟩, fun hc => hc.1⟩

theorem MappedFresh.pde_bits
    (h : MappedFresh managed tables σ σ' dirs free free' e d va p) {i : Idx}
    (hi : PDX va = i ∨ ∃ w, Jos.pdes σ dirs (e, i) = w ||| (regionPerm ||| PTE_P)) :
    ∃ w, Jos.pdes σ' dirs (e, i) = w ||| (regionPerm ||| PTE_P) := by
  obtain ⟨w, hw⟩ := h.pdes
  by_cases heq : PDX va = i
  · exact ⟨w, by rw [hw, heq, Function.update_self]⟩
  · obtain ⟨w', hw'⟩ := hi.resolve_left heq
    exact ⟨w', by rw [hw, Function.update_of_ne fun hc => heq (Prod.ext_iff.1 hc).2.symm, hw']⟩

/-- **The step of the loop.** -/
theorem RegionFilled.step (h : RegionFilled managed tables σ σ' dirs free free' e d va k)
    (hinv : MemInv managed tables σ dirs free ∅) (hb : BelowUTOP va n) (hk : k < n)
    (hf : MappedFresh managed tables σ' σ₂ dirs free' free₂ e d (pageFrom va k) p) :
    RegionFilled managed tables σ σ₂ dirs free free₂ e d va (k + 1) := by
  have hkept : ∀ q s, target σ dirs s = some q → (∀ j < k, s ≠ regionSlot e va j) → q ∉ free' :=
    fun q s hs hne => h.inv.pinv.not_mem_free ((h.same q s hs hne s).2 ⟨hs, hne⟩)
  refine ⟨hf.inv, hf.npages.trans h.npages, hf.kernPgdir.trans h.kernPgdir,
    fun i hi => (hf.own i hi).trans (h.own i hi), fun x hx => ?_, ?_, ?_, fun i hi =>
      ?_, fun i => ?_,
    fun q s₀ hs₀ hne₀ s => ?_, ?_, fun q e' i j' hq hne => ?_, ?_⟩
  · obtain ⟨hx, hxk⟩ := Nat.forall_lt_succ_right.1 hx
    rw [hf.vm, Function.update_of_ne hxk, h.vm x hx]
  · refine Nat.forall_lt_succ_right.2 ⟨fun j hj => ?_, ?_⟩
    · obtain ⟨p', hp', hvm⟩ := h.pages j hj
      refine ⟨p', hp', ?_⟩
      rw [hf.vm, Function.update_of_ne, hvm]
      intro hc
      have := mapIdx_pageFrom_inj hb (hj.trans hk) hk hc
      omega
    · exact ⟨p, h.inv.pinv.free_managed hf.fresh, by rw [hf.vm, Function.update_self]⟩
  · exact Nat.forall_lt_succ_right.2 ⟨fun j hj => hf.pde_bits (.inr (h.pdes j hj)),
      hf.pde_bits (.inl rfl)⟩
  · obtain ⟨hi, hik⟩ := Nat.forall_lt_succ_right.1 hi
    obtain ⟨w, hw⟩ := hf.pdes
    rw [hw, Function.update_of_ne fun hc => hik (Prod.ext_iff.1 hc).2.symm, h.pdes_other i hi]
  · rw [hf.pde_none, h.pde_none, Nat.forall_lt_succ_right, and_assoc]
  · obtain ⟨hne₀, -⟩ := Nat.forall_lt_succ_right.1 hne₀
    rw [hf.target_iff (hkept q s₀ hs₀ hne₀), h.same q s₀ hs₀ hne₀, Nat.forall_lt_succ_right]
    exact ⟨fun ⟨hsk, hs, hne⟩ => ⟨hs, hne, hsk⟩, fun ⟨hs, hne, hsk⟩ => ⟨hsk, hs, hne⟩⟩
  · refine Nat.forall_lt_succ_right.2 ⟨fun j hj s hs => ?_, fun s hs => ?_⟩
    · obtain ⟨p', hp', hvm⟩ := h.pages j hj
      have hold : target σ' dirs (regionSlot e va j) = some p' := by
        refine (congrArg named hvm).trans (named_mk (h.inv.pinv.lt_two_pow hp') (by decide))
      have hiff := hf.target_iff (h.inv.pinv.not_mem_free hold)
      have hnew : target σ₂ dirs (regionSlot e va j) = some p' := by
        refine (hiff _).2 ⟨fun hc => ?_, hold⟩
        have := regionSlot_inj hb (hj.trans hk) hk hc
        omega
      exact h.alone j hj s (((hiff s).1 (hs.trans hnew)).2.trans hold.symm)
    · have hnew : target σ₂ dirs (regionSlot e va k) = some p := by
        obtain ⟨pt, htgt, -⟩ := hf.tgt
        rw [htgt]
        exact Function.update_self _ _ _
      exact hf.alone h.inv (hs.trans hnew)
  · obtain ⟨hne, -⟩ := Nat.forall_lt_succ_right.1 hne
    rw [hf.mem q ⟨e', i, j', (h.same q _ hq hne _).2 ⟨hq, hne⟩⟩, h.mem q e' i j' hq hne]
  · have hcount := h.count
    have hcount' := hf.count
    have hfreed := h.lastRef_next hb hk hinv
    have htab := h.tables_next
    unfold regionSlot at hfreed
    omega

end step

/-- The memory left after `k` pages, and what the next one needs. -/
theorem RegionFilled.pageFits_iff (h : RegionFilled managed tables σ σ' dirs free free' e d va k) :
    PageFits σ dirs free e va k ↔
      1 + (if target σ' dirs (.pde e (PDX (pageFrom va k))) = none then 1 else 0) ≤
        free'.length := by
  have hcount := h.count
  have htab := h.tables_next
  unfold PageFits
  omega

section loop

variable {m : ℕ} (hinv : MemInv managed tables σ dirs free ∅) (hd : dirs e = some d)
  (hb : BelowUTOP va n)
include hinv hd hb

/-- **As long as memory lasts**, the loop fills the region. -/
theorem regionLoop_fill (hm : m ≤ n) (hfits : ∀ k < m, PageFits σ dirs free e va k) :
    ∃ σ' free', regionLoop d n (pageFrom va 0) σ = regionLoop d (n - m) (pageFrom va m) σ' ∧
      RegionFilled managed tables σ σ' dirs free free' e d va m := by
  induction m with
  | zero => exact ⟨σ, free, rfl, .init hinv e d va⟩
  | succ m ih =>
    obtain ⟨σ', free', hrun, hfill⟩ := ih (by omega) fun k hk => hfits k (by omega)
    obtain ⟨p, σ₁, σ₂, free₂, halloc, hins, hf⟩ :=
      hfill.inv.mapFresh hd (pageFrom_lt hb (by omega))
      (hfill.pageFits_iff.1 (hfits m m.lt_succ_self))
    refine ⟨σ₂, free₂, ?_, hfill.step hinv hb (by omega) hf⟩
    rw [hrun, show n - m = (n - (m + 1)) + 1 by omega, regionLoop, halloc]
    dsimp only
    rw [hins, pageFrom_succ]
    rfl

/-- Memory runs out at the table of the last page. -/
theorem regionLoop_missing (hm : n = m + 1) (hfits : ∀ k < m, PageFits σ dirs free e va k)
    (hlast : m + 1 + (newTables σ dirs e va m).card = free.length + (freedPages σ dirs e va m).card)
    (hnew : newTables σ dirs e va (m + 1) ≠ newTables σ dirs e va m) :
    ∃ σ' held, regionLoop d n (pageFrom va 0) σ = .ok σ' ∧
      PInv managed (kernRefs tables) σ' dirs [] held ∧ σ'.npages = σ.npages ∧
      (∀ i : Idx, ¬ i.User → σ'.mem d i = σ.mem d i) ∧
      (∀ x, (∀ j < m, x ≠ mapIdx e (pageFrom va j)) → vm σ' dirs x = vm σ dirs x) ∧
      target σ' dirs (.pde e (PDX (pageFrom va m))) = none := by
  obtain ⟨σ', free', hrun, hfill⟩ := regionLoop_fill hinv hd hb (by omega) hfits
  have hcount := hfill.count
  obtain ⟨p, rfl⟩ := List.length_eq_one_iff.1 (by omega : free'.length = 1)
  have hnone : target σ' dirs (.pde e (PDX (pageFrom va m))) = none := by
    by_contra hsome
    refine hnew (Finset.eq_of_subset_of_card_le (newTables_mono m.le_succ) ?_).symm
    rw [hfill.tables_next, if_neg hsome, Nat.add_zero]
  obtain ⟨σ₁, halloc, hm₁, hpd, hvm, hmem, hnp, -⟩ := hfill.inv.alloc_region
  rw [← target_congr hpd hvm] at hnone
  refine ⟨σ₁, {p}, ?_, hm₁.pinv, hnp.trans hfill.npages, fun i hi => ?_, fun x hx => ?_, hnone⟩
  · rw [hrun, show n - m = 0 + 1 by omega, regionLoop, halloc]
    dsimp only
    rw [hm₁.insert_region_fails hd (pageFrom_lt hb (by omega)) hnone]
    rfl
  · rw [hmem, hfill.own i hi]
  · rw [hvm, hfill.vm x hx]

/-- In all other cases `page_alloc` finds the free list empty. -/
theorem regionLoop_panics (hm : m < n) (hfits : ∀ k < m, PageFits σ dirs free e va k)
    (hnot : ¬ PageFits σ dirs free e va m)
    (hlast : n = m + 1 →
      m + 1 + (newTables σ dirs e va m).card ≠ free.length + (freedPages σ dirs e va m).card) :
    regionLoop d n (pageFrom va 0) σ = .error "region_alloc: failed at page_alloc\n" := by
  obtain ⟨σ', free', hrun, hfill⟩ := regionLoop_fill hinv hd hb hm.le hfits
  have hcount := hfill.count
  have hempty : ∀ (σ : Phys) (n : ℕ) (va : Word), σ.pageFreeList = none →
      regionLoop d (n + 1) va σ = .error "region_alloc: failed at page_alloc\n" :=
        fun σ n va hnil => by
    rw [regionLoop, pageAlloc, hnil]
  have hshort : ¬ 1 + (if target σ' dirs (.pde e (PDX (pageFrom va m))) = none then 1 else 0) ≤
      free'.length := fun hc => hnot (hfill.pageFits_iff.2 hc)
  rw [hrun]
  cases free' with
  | nil =>
    rw [show n - m = (n - m - 1) + 1 by omega]
    exact hempty _ _ _ hfill.inv.pinv.head_eq_none
  | cons p rest =>
    have hrest : rest = [] := by
      rw [List.length_cons] at hshort
      refine List.eq_nil_of_length_eq_zero ?_
      split_ifs at hshort <;> omega
    subst hrest
    obtain ⟨σ₁, halloc, hm₁, hpd, hvm, -⟩ := hfill.inv.alloc_region
    have hlt : n ≠ m + 1 := fun hc => hlast hc (by
      rw [List.length_singleton] at hcount
      omega)
    have hnone : target σ' dirs (.pde e (PDX (pageFrom va m))) = none := by
      by_contra hsome
      rw [if_neg hsome] at hshort
      exact hshort le_rfl
    rw [← target_congr hpd hvm] at hnone
    rw [show n - m = (n - m - 2) + 1 + 1 by omega, regionLoop, halloc]
    dsimp only
    rw [hm₁.insert_region_fails hd (pageFrom_lt hb hm) hnone]
    exact hempty _ _ _ hm₁.pinv.head_eq_none

end loop

/-- Of `n` pages, all but the last one are mapped; then one free page is left, and the table of the
last page does not exist. -/
structure LastTableMissing (σ : Phys) (dirs : EnvIdx → Option Nat) (free : List Nat) (e : EnvIdx)
    (va : Word) (n : ℕ) : Prop where
  pos : 0 < n
  before : ∀ k < n - 1, PageFits σ dirs free e va k
  one_left : n + (newTables σ dirs e va (n - 1)).card =
    free.length + (freedPages σ dirs e va (n - 1)).card
  table : newTables σ dirs e va n ≠ newTables σ dirs e va (n - 1)

theorem regionLoop_cases (hinv : MemInv managed tables σ dirs free ∅) (hd : dirs e = some d)
    (hb : BelowUTOP va n) :
    ((∀ k < n, PageFits σ dirs free e va k) ∧ ∃ σ' free',
      regionLoop d n (pageFrom va 0) σ = .ok σ' ∧
        RegionFilled managed tables σ σ' dirs free free' e d va n) ∨
      (LastTableMissing σ dirs free e va n ∧ ∃ σ' held, regionLoop d n (pageFrom va 0) σ = .ok σ' ∧
        PInv managed (kernRefs tables) σ' dirs [] held ∧ σ'.npages = σ.npages ∧
        (∀ i : Idx, ¬ i.User → σ'.mem d i = σ.mem d i) ∧
        (∀ x, (∀ j < n, x ≠ mapIdx e (pageFrom va j)) → vm σ' dirs x = vm σ dirs x) ∧
        target σ' dirs (.pde e (PDX (pageFrom va (n - 1)))) = none) ∨
      ¬ LastTableMissing σ dirs free e va n ∧ (∃ k < n, ¬ PageFits σ dirs free e va k) ∧
        regionLoop d n (pageFrom va 0) σ = .error "region_alloc: failed at page_alloc\n" := by
  by_cases hall : ∀ k < n, PageFits σ dirs free e va k
  · obtain ⟨σ', free', hrun, hfill⟩ := regionLoop_fill hinv hd hb le_rfl hall
    rw [Nat.sub_self] at hrun
    exact .inl ⟨hall, σ', free', hrun, hfill⟩
  by_cases hmiss : LastTableMissing σ dirs free e va n
  · have hpos := hmiss.pos
    have hone := hmiss.one_left
    have hsucc : n - 1 + 1 = n := by omega
    obtain ⟨σ', held, hrun, hp, hnp, hown, hvm, hnone⟩ := regionLoop_missing hinv hd hb hsucc.symm
      hmiss.before (by omega) (hsucc.symm ▸ hmiss.table)
    exact .inr (.inl ⟨hmiss, σ', held, hrun, hp, hnp, hown,
      fun x hx => hvm x fun j hj => hx j (by omega), hnone⟩)
  · push Not at hall
    have hex : ∃ m, m < n ∧ ¬ PageFits σ dirs free e va m := hall
    have hfind := Nat.find_spec hex
    have hmin : ∀ k < Nat.find hex, PageFits σ dirs free e va k := fun k hk => by
      by_contra hc
      exact Nat.find_min hex hk ⟨hk.trans hfind.1, hc⟩
    refine .inr (.inr ⟨hmiss, hall, regionLoop_panics hinv hd hb hfind.1 hmin hfind.2
      fun hn hc => ?_⟩)
    have hsub : Nat.find hex = n - 1 := by omega
    rw [hsub] at hfind hmin hc
    have hsucc : n - 1 + 1 = n := by omega
    refine hmiss ⟨by omega, hmin, by omega, fun heq => hfind.2 ?_⟩
    unfold PageFits
    rw [hsucc, heq]
    omega

/-! ## The whole range -/

/-- The page with number `n` meets the bytes `[va, va + len)`; there is no wrap here. -/
def PageMeets (va len : Word) (n : ℕ) : Prop :=
  ∃ a, va.toNat ≤ a ∧ a < va.toNat + len.toNat ∧ a / 4096 = n

/-- The page with number `n` is in the range `[va, va + len)`, rounded to pages. -/
def InRounded (va len : Word) (n : ℕ) : Prop :=
  va.toNat / 4096 ≤ n ∧ n * 4096 < va.toNat + len.toNat

/-- The whole range is below `UTOP` and mapped for the user to write, and nothing else is changed.
-/
structure RegionDone (σ σ' : Phys) (dirs : EnvIdx → Option Nat) (e : EnvIdx) (d : Nat)
    (va len : Word) :
    Prop where
  below : ∀ n, PageMeets va len n → n * 4096 < UTOP.toNat
  mapped : ∀ n, PageMeets va len n →
    Permits σ' d (BitVec.ofNat 32 (n * 4096)) (PTE_P ||| PTE_U ||| PTE_W)
  kept : ∀ x : MapIdx, ¬ (x.1 = e ∧ InRounded va len (x.2.1.val * 1024 + x.2.2.val)) →
    vm σ' dirs x = vm σ dirs x
  kernel : ∀ i : Idx, ¬ i.User → σ'.mem d i = σ.mem d i

/-- The kernel's part of a directory names pages. -/
def KernPart (σ : Phys) (d : Nat) : Prop :=
  ∀ i : Idx, ¬ i.User → Present (σ.mem d i) → PGNUM (σ.mem d i) < σ.npages

/-- The number of pages that the loop goes through. -/
def regionCount (va len : Word) : ℕ := ((ROUNDUP (va + len)).toNat - (ROUNDDOWN va).toNat) / PGSIZE

/-- The rounded end of the range wraps around, to an address that is not above `UTOP`. -/
def WrapsUnseen (free : List Nat) (va len : Word) : Prop :=
  2 ^ 32 < va.toNat + len.toNat + 4096 ∧ ROUNDUP (va + len) < UTOP ∧
    (ROUNDDOWN va < ROUNDUP (va + len) → free ≠ [])

/-- The range fits, but there is no memory for the table of its last page. -/
def LastPageLost (σ : Phys) (dirs : EnvIdx → Option Nat) (free : List Nat) (e : EnvIdx)
    (va len : Word) : Prop :=
  va.toNat + len.toNat + 4096 ≤ 2 ^ 32 ∧ ROUNDUP (va + len) < UTOP ∧
    LastTableMissing σ dirs free e va (regionCount va len)

theorem regionAlloc_eq (h : ROUNDUP (va + len) < UTOP) (σ : Phys) (d : Nat) :
    regionAlloc σ d va len =
      (regionLoop d (regionCount va len) (pageFrom va 0) σ).bind fun σ =>
      pgdirWalk σ d va false := by
  rw [regionAlloc, if_neg (BitVec.not_le.2 h), pageFrom_zero]
  rfl

theorem walk_ok (hp : PInv managed (kernRefs tables) σ' dirs free held) (hd : dirs e = some d)
    (hkern : KernPart σ d) (hnp : σ'.npages = σ.npages)
    (hown : ∀ i : Idx, ¬ i.User → σ'.mem d i = σ.mem d i) (va : Word) :
    ∃ r, pgdirWalk σ' d va false = .ok (r, σ') := by
  by_cases hpres : Present (σ'.mem d (PDX va))
  · have hlt : PGNUM (σ'.mem d (PDX va)) < σ'.npages := by
      by_cases hi : (PDX va).User
      · refine hp.lt_npages (s := .pde e (PDX va)) ?_
        rw [target, pdes_of_dir hd hi, named_of_present hpres]
      · rw [hown _ hi, hnp]
        exact hkern _ hi (hown _ hi ▸ hpres)
    exact ⟨_, by rw [pgdirWalk, if_pos hpres, pa2page_of_lt hlt]; rfl⟩
  · exact ⟨none, by rw [pgdirWalk, if_neg hpres, if_pos rfl]; rfl⟩

theorem pageNo_pageFrom (hb : BelowUTOP va n) (hk : k < n) :
    (PDX (pageFrom va k)).val * 1024 + (PTX (pageFrom va k)).val = va.toNat / 4096 + k := by
  rw [val_PDX, val_PTX, toNat_pageFrom hb hk.le]
  omega

theorem or_regionPerm_and (v : Word) :
    (v ||| (regionPerm ||| PTE_P)) &&& (PTE_P ||| PTE_U ||| PTE_W) = PTE_P ||| PTE_U ||| PTE_W := by
  have hperm : regionPerm ||| PTE_P = PTE_P ||| PTE_U ||| PTE_W := by decide
  rw [hperm]
  generalize PTE_P ||| PTE_U ||| PTE_W = m
  ext i
  rw [BitVec.getElem_and, BitVec.getElem_or]
  cases v[i] <;> cases m[i] <;> rfl

theorem RegionFilled.permits (h : RegionFilled managed tables σ σ' dirs free free' e d va n)
    (hd : dirs e = some d) (hb : BelowUTOP va n) (hk : k < n) :
    Permits σ' d (pageFrom va k) (PTE_P ||| PTE_U ||| PTE_W) := by
  have hi := PDX_user (pageFrom_lt hb hk)
  obtain ⟨w, hw⟩ := h.pdes k hk
  obtain ⟨p, hp, hvm⟩ := h.pages k hk
  have hpde : σ'.mem d (PDX (pageFrom va k)) = w ||| (regionPerm ||| PTE_P) := by
    rw [← hw, pdes_of_dir hd hi]
  have hpte : mmuPte σ' d (pageFrom va k) = page2pa p ||| (regionPerm ||| PTE_P) := by
    have hpres : Present (Jos.pdes σ' dirs (e, PDX (pageFrom va k))) := by
      rw [hw, ← BitVec.or_assoc]
      exact present_or_PTE_P _
    rw [← BitVec.or_assoc, ← hvm]
    rw [Jos.vm, mapIdx, if_pos hpres, pdes_of_dir hd hi]
    rfl
  exact ⟨hpde ▸ or_regionPerm_and w, hpte ▸ or_regionPerm_and (page2pa p)⟩

section range

variable (hb : BelowUTOP va n)
  (hlen : va.toNat / 4096 * 4096 + n * 4096 < va.toNat + len.toNat + 4096)
include hb hlen

theorem kept_of_pages
    (hvm : ∀ x, (∀ j < n, x ≠ mapIdx e (pageFrom va j)) → vm σ' dirs x = vm σ dirs x) {x : MapIdx}
    (hx : ¬ (x.1 = e ∧ InRounded va len (x.2.1.val * 1024 + x.2.2.val))) :
    vm σ' dirs x = vm σ dirs x := by
  refine hvm x fun j hj heq => hx ?_
  rw [heq]
  refine ⟨rfl, ?_⟩
  have hno := pageNo_pageFrom hb hj
  unfold InRounded mapIdx
  dsimp only
  rw [hno]
  omega

theorem RegionFilled.done (h : RegionFilled managed tables σ σ' dirs free free' e d va n)
    (hd : dirs e = some d) (hle : va.toNat + len.toNat ≤ va.toNat / 4096 * 4096 + n * 4096) :
    RegionDone σ σ' dirs e d va len := by
  have hb' := hb
  unfold BelowUTOP at hb'
  refine ⟨fun m ⟨a, ha, ha', hm⟩ => ?_, fun m ⟨a, ha, ha', hm⟩ => ?_,
    fun x hx => kept_of_pages hb hlen h.vm hx, h.own⟩
  · rw [← hm]
    exact (Nat.div_mul_le_self a 4096).trans_lt (ha'.trans_le (hle.trans hb'))
  have hutop := toNat_UTOP
  have hk : m - va.toNat / 4096 < n := by omega
  have hpage : BitVec.ofNat 32 (m * 4096) = pageFrom va (m - va.toNat / 4096) := by
    rw [← BitVec.toNat_inj, toNat_pageFrom hb hk.le, BitVec.toNat_ofNat]
    omega
  rw [hpage]
  exact h.permits hd hb hk

end range

theorem toNat_regionEnd (va len : Word) :
    (ROUNDUP (va + len)).toNat = (va.toNat + len.toNat + 4095) / 4096 * 4096 % 2 ^ 32 := by
  have hva := va.isLt
  have hlen := len.isLt
  rw [toNat_ROUNDUP, BitVec.toNat_add]
  by_cases hadd : va.toNat + len.toNat < 2 ^ 32
  · rw [Nat.mod_eq_of_lt hadd]
  · have hmod : (va.toNat + len.toNat) % 2 ^ 32 = va.toNat + len.toNat - 2 ^ 32 := by omega
    rw [hmod]
    omega

theorem regionCount_mul (va len : Word) : regionCount va len * 4096 =
    (ROUNDUP (va + len)).toNat - va.toNat / 4096 * 4096 := by
  have hdvd : (ROUNDUP (va + len)).toNat % 4096 = 0 := by
    rw [toNat_regionEnd]
    omega
  rw [regionCount, toNat_ROUNDDOWN, PGSIZE]
  omega

theorem belowUTOP_region (h : ROUNDUP (va + len) < UTOP) (hpos : 0 < regionCount va len) :
    BelowUTOP va (regionCount va len) := by
  rw [BitVec.lt_def] at h
  have hcount := regionCount_mul va len
  unfold BelowUTOP
  omega

theorem regionAlloc_ok (hkern : KernPart σ d) (hd : dirs e = some d)
    (hend : ROUNDUP (va + len) < UTOP)
    (hrun : regionLoop d (regionCount va len) (pageFrom va 0) σ = .ok σ')
    (hp : PInv managed (kernRefs tables) σ' dirs free held) (hnp : σ'.npages = σ.npages)
    (hown : ∀ i : Idx, ¬ i.User → σ'.mem d i = σ.mem d i) :
    ∃ r, regionAlloc σ d va len = .ok (r, σ') := by
  obtain ⟨r, hwalk⟩ := walk_ok hp hd hkern hnp hown va
  exact ⟨r, by rw [regionAlloc_eq hend, hrun]; exact hwalk⟩

/-- A range that wraps meets the last page of the address space. -/
theorem not_done_of_wrap (hlen : len ≠ 0) (hwrap : 2 ^ 32 < va.toNat + len.toNat + 4096)
    (σ σ' : Phys) (dirs : EnvIdx → Option Nat) (e : EnvIdx) (d : Nat) :
    ¬ RegionDone σ σ' dirs e d va len := by
  have hva := va.isLt
  have hpos : len.toNat ≠ 0 := fun hc => hlen (BitVec.eq_of_toNat_eq hc)
  intro hdone
  have hbelow := hdone.below (2 ^ 20 - 1)
    ⟨max va.toNat (2 ^ 32 - 4096), by omega, by omega, by omega⟩
  rw [toNat_UTOP] at hbelow
  omega

theorem not_done_of_missing (hlen : len ≠ 0) (hb : BelowUTOP va n) (hpos : 0 < n)
    (hend : va.toNat / 4096 * 4096 + n * 4096 < va.toNat + len.toNat + 4096) (hd : dirs e = some d)
    (hnone : target σ' dirs (.pde e (PDX (pageFrom va (n - 1)))) = none) :
    ¬ RegionDone σ σ' dirs e d va len := by
  have hne : len.toNat ≠ 0 := fun hc => hlen (BitVec.eq_of_toNat_eq hc)
  have hlt : n - 1 < n := by omega
  intro hdone
  have hpage : BitVec.ofNat 32 ((va.toNat / 4096 + (n - 1)) * 4096) = pageFrom va (n - 1) := by
    have hutop := toNat_UTOP
    unfold BelowUTOP at hb
    rw [← BitVec.toNat_inj, toNat_pageFrom hb hlt.le, BitVec.toNat_ofNat]
    omega
  have hmap := hdone.mapped (va.toNat / 4096 + (n - 1))
    ⟨max va.toNat ((va.toNat / 4096 + (n - 1)) * 4096), by omega, by omega, by omega⟩
  rw [hpage] at hmap
  have hpres : Present (σ'.mem d (PDX (pageFrom va (n - 1)))) :=
    present_of_and hmap.1 (by decide)
  exact pde_of_absent hd (PDX_user (pageFrom_lt hb hlt)) hnone hpres

theorem done_of_empty (hlen : len = 0) (hown : ∀ i : Idx, ¬ i.User → σ'.mem d i = σ.mem d i)
    (hkept : ∀ x : MapIdx, ¬ (x.1 = e ∧ InRounded va len (x.2.1.val * 1024 + x.2.2.val)) →
      vm σ' dirs x = vm σ dirs x) : RegionDone σ σ' dirs e d va len := by
  have hnone : ∀ m, ¬ PageMeets va len m := by
    rintro m ⟨a, ha, ha', -⟩
    have hzero : len.toNat = 0 := by rw [hlen]; rfl
    omega
  exact ⟨fun m hm => absurd hm (hnone m), fun m hm => absurd hm (hnone m), hkept, hown⟩

theorem LastTableMissing.not_fits (h : LastTableMissing σ dirs free e va n) :
    ¬ PageFits σ dirs free e va (n - 1) := by
  have hpos := h.pos
  have hone := h.one_left
  have hlt : (newTables σ dirs e va (n - 1)).card < (newTables σ dirs e va n).card :=
    Finset.card_lt_card ((newTables_mono (by omega)).ssubset_of_ne h.table.symm)
  unfold PageFits
  rw [show n - 1 + 1 = n by omega]
  omega

section result

variable (h : MemInv managed tables σ dirs free ∅) (hd : dirs e = some d) (hkern : KernPart σ d)
include h hd hkern

theorem region_alloc_fits (hwrap : va.toNat + len.toNat + 4096 ≤ 2 ^ 32)
    (hend : ROUNDUP (va + len) < UTOP) :
    (∀ r σ', regionAlloc σ d va len = .ok (r, σ') → RegionDone σ σ' dirs e d va len) ↔
      ¬ (len ≠ 0 ∧ LastTableMissing σ dirs free e va (regionCount va len)) := by
  have hcount := regionCount_mul va len
  have hend' : (ROUNDUP (va + len)).toNat = (va.toNat + len.toNat + 4095) / 4096 * 4096 := by
    rw [toNat_regionEnd]
    omega
  have hb : BelowUTOP va (regionCount va len) := by
    rw [BitVec.lt_def] at hend
    unfold BelowUTOP
    omega
  have hlt : va.toNat / 4096 * 4096 + regionCount va len * 4096 < va.toNat + len.toNat + 4096 := by
    omega
  rcases regionLoop_cases h hd hb with ⟨hfits, σ', free', hrun, hfill⟩ |
    ⟨hmiss, σ', held, hrun, hp, hnp, hown, hvm, hnone⟩ | ⟨hmiss, -, hrun⟩
  · -- All pages are mapped.
    obtain ⟨r, hok⟩ := regionAlloc_ok hkern hd hend hrun hfill.inv.pinv hfill.npages hfill.own
    refine iff_of_true (fun r' σ'' hok' => ?_) fun ⟨_, hc⟩ => ?_
    · obtain ⟨-, rfl⟩ : r = r' ∧ σ' = σ'' := by simpa using hok.symm.trans hok'
      exact hfill.done hb hlt hd (by omega)
    · have hpos := hc.pos
      exact hc.not_fits (hfits _ (by omega))
  · -- The last page is left out.
    obtain ⟨r, hok⟩ := regionAlloc_ok hkern hd hend hrun hp hnp hown
    by_cases hlen : len = 0
    · refine iff_of_true (fun r' σ'' hok' => ?_) fun hc => hc.1 hlen
      obtain ⟨-, rfl⟩ : r = r' ∧ σ' = σ'' := by simpa using hok.symm.trans hok'
      exact done_of_empty hlen hown fun x hx => kept_of_pages hb hlt hvm hx
    · exact iff_of_false
        (fun hall => not_done_of_missing hlen hb hmiss.pos hlt hd hnone (hall r σ' hok))
        (not_not.2 ⟨hlen, hmiss⟩)
  · refine iff_of_true (fun r' σ'' hok => ?_) fun hc => hmiss hc.2
    rw [regionAlloc_eq hend, hrun] at hok
    cases hok

/-- A range that wraps. At most one page is mapped, and that is not one of the range. -/
theorem region_alloc_wraps (hwrap : 2 ^ 32 < va.toNat + len.toNat + 4096)
    (hend : ROUNDUP (va + len) < UTOP) :
    (∀ r σ', regionAlloc σ d va len = .ok (r, σ') → RegionDone σ σ' dirs e d va len) ↔
      ¬ (len ≠ 0 ∧ (ROUNDDOWN va < ROUNDUP (va + len) → free ≠ [])) := by
  have hcount := regionCount_mul va len
  have hva := va.isLt
  have hlen' := len.isLt
  have hdown : ROUNDDOWN va < ROUNDUP (va + len) ↔ 0 < regionCount va len := by
    rw [BitVec.lt_def, toNat_ROUNDDOWN]
    omega
  rcases Nat.eq_zero_or_pos (regionCount va len) with hzero | hpos
  · -- Nothing is mapped.
    obtain ⟨r, hok⟩ := regionAlloc_ok hkern hd hend (by rw [hzero]; rfl) h.pinv rfl fun _ _ => rfl
    by_cases hlen : len = 0
    · refine iff_of_true (fun r' σ'' hok' => ?_) fun hc => hc.1 hlen
      obtain ⟨-, rfl⟩ : r = r' ∧ σ = σ'' := by simpa using hok.symm.trans hok'
      exact done_of_empty hlen (fun _ _ => rfl) fun _ _ => rfl
    · refine iff_of_false (fun hall => not_done_of_wrap hlen hwrap _ _ _ _ _ (hall r σ hok))
        (not_not.2 ⟨hlen, fun hc => ?_⟩)
      have := hdown.1 hc
      omega
  have hone : regionCount va len = 1 := by
    rw [toNat_regionEnd] at hcount
    omega
  have hlen : len ≠ 0 := fun hc => by
    have hzero : len.toNat = 0 := by rw [hc]; rfl
    rw [toNat_regionEnd] at hcount
    omega
  have hb := belowUTOP_region hend hpos
  have hret : ∀ r σ', regionAlloc σ d va len = .ok (r, σ') → free ≠ [] →
      ((∀ r σ', regionAlloc σ d va len = .ok (r, σ') → RegionDone σ σ' dirs e d va len) ↔
        ¬ (len ≠ 0 ∧ (ROUNDDOWN va < ROUNDUP (va + len) → free ≠ []))) := fun r σ' hok hfree =>
    iff_of_false (fun hall => not_done_of_wrap hlen hwrap _ _ _ _ _ (hall r σ' hok))
      (not_not.2 ⟨hlen, fun _ => hfree⟩)
  rcases regionLoop_cases h hd hb with ⟨hfits, σ', free', hrun, hfill⟩ |
    ⟨hmiss, σ', held, hrun, hp, hnp, hown, hvm, hnone⟩ | ⟨hmiss, hshort, hrun⟩
  · obtain ⟨r, hok⟩ := regionAlloc_ok hkern hd hend hrun hfill.inv.pinv hfill.npages hfill.own
    refine hret r σ' hok fun hnil => ?_
    have hfit := hfits 0 hpos
    unfold PageFits at hfit
    rw [hnil, freedPages_zero] at hfit
    simp at hfit
  · obtain ⟨r, hok⟩ := regionAlloc_ok hkern hd hend hrun hp hnp hown
    refine hret r σ' hok fun hnil => ?_
    have hleft := hmiss.one_left
    rw [hnil, hone, freedPages_zero] at hleft
    simp at hleft
  · refine iff_of_true (fun r' σ'' hok => ?_) fun hc => ?_
    · rw [regionAlloc_eq hend, hrun] at hok
      cases hok
    · have hfree := List.length_pos_iff.2 (hc.2 (hdown.2 hpos))
      rw [hone] at hshort hmiss
      obtain ⟨k, hk, hfit⟩ := hshort
      obtain rfl : k = 0 := by omega
      have htab := newTables_succ σ dirs e va 0
      unfold PageFits at hfit
      rw [newTables_zero, Finset.card_empty] at htab
      rw [freedPages_zero, Finset.card_empty] at hfit
      have hcard : (newTables σ dirs e va (0 + 1)).card ≤ 1 := by
        rw [htab]
        split_ifs <;> omega
      refine hmiss ⟨one_pos, fun k hk => absurd hk (Nat.not_lt_zero k), ?_, fun heq => ?_⟩
      · rw [Nat.sub_self, newTables_zero, freedPages_zero, Finset.card_empty, Finset.card_empty]
        omega
      · rw [Nat.sub_self, newTables_zero] at heq
        rw [Nat.zero_add, heq, Finset.card_empty] at hfit
        omega

/-- **`region_alloc` maps the whole range or panics, except in two cases.** -/
theorem region_alloc_done_iff (va len : Word) :
    (∀ r σ', regionAlloc σ d va len = .ok (r, σ') → RegionDone σ σ' dirs e d va len) ↔
      len = 0 ∨ ¬ WrapsUnseen free va len ∧ ¬ LastPageLost σ dirs free e va len := by
  by_cases hend : ROUNDUP (va + len) < UTOP
  · by_cases hwrap : va.toNat + len.toNat + 4096 ≤ 2 ^ 32
    · rw [region_alloc_fits h hd hkern hwrap hend]
      have hno : ¬ WrapsUnseen free va len := fun hc => by
        have := hc.1
        omega
      have hiff : LastPageLost σ dirs free e va len ↔
          LastTableMissing σ dirs free e va (regionCount va len) :=
        ⟨fun hc => hc.2.2, fun hc => ⟨hwrap, hend, hc⟩⟩
      rw [hiff, not_and_or, not_not]
      exact or_congr_right ⟨fun hc => ⟨hno, hc⟩, fun hc => hc.2⟩
    · rw [region_alloc_wraps h hd hkern (not_le.1 hwrap) hend]
      have hno : ¬ LastPageLost σ dirs free e va len := fun hc => hwrap hc.1
      have hiff : WrapsUnseen free va len ↔ (ROUNDDOWN va < ROUNDUP (va + len) → free ≠ []) :=
        ⟨fun hc => hc.2.2, fun hc => ⟨not_le.1 hwrap, hend, hc⟩⟩
      rw [hiff, not_and_or, not_not]
      exact or_congr_right ⟨fun hc => ⟨hc, hno⟩, fun hc => hc.1⟩
  · refine iff_of_true (fun r σ' hok => ?_) (.inr ⟨fun hc => hend hc.2.1, fun hc => hend hc.2.1⟩)
    rw [regionAlloc, if_pos (BitVec.not_lt.1 hend)] at hok
    cases hok

end result

/-! ### A small machine -/

theorem MemInit.memInv {k : Kernel} (h : MemInit managed tables k free) :
    MemInv managed tables k.phys k.dirs free ∅ := by
  have hpd : ∀ x, pdes k.phys k.dirs x = 0 := fun x => by simp [pdes, h.no_env]
  have hrefs : ∀ p, refs (target k.phys k.dirs) p = 0 := fun p =>
    refs_eq_zero.2 fun t => by simp [h.target_eq_none]
  refine ⟨h.pinv, fun p => ?_, h.kern_dir, fun x hx => ?_, fun x hx => ?_, fun e i j p ht => ?_⟩
  · have := kernRefs_le tables p
    rw [hrefs]
    omega
  · rw [hpd x] at hx
    exact (not_present_zero hx).elim
  · rw [h.vm_eq_zero x] at hx
    exact (not_present_zero hx).elim
  · rw [h.target_eq_none] at ht
    cases ht

/-- The memory of the small machine after `env_setup_vm` of an environment: page 1 is its directory.
-/
def smallSpace : Phys := initPgdir (pageAlloc smallKernel.phys true).2 1

def smallDirs : EnvIdx → Option Nat := Function.update smallKernel.dirs 0 (some 1)

theorem smallSpace_memInv : MemInv {1, 2, 3, 4, 5} {5} smallSpace smallDirs [2, 3, 4] ∅ :=
  (smallKernel_memInit.memInv.setupVm rfl).1

theorem smallSpace_kernPart : KernPart smallSpace 1 := by
  intro i _ hpres
  by_cases hi : i = PDX UVPT
  · subst hi
    decide
  · have hzero : smallSpace.mem 1 i = 0 := by
      rw [smallSpace, initPgdir, Phys.mem_store, if_neg fun hc => hi hc.2]
      rfl
    rw [hzero] at hpres
    exact absurd hpres not_present_zero

theorem region_alloc_done_small :
    MemInv {1, 2, 3, 4, 5} {5} smallSpace smallDirs [2, 3, 4] ∅ ∧ smallDirs 0 = some 1 ∧
      KernPart smallSpace 1 ∧
      ((∀ r σ', regionAlloc smallSpace 1 0x800010#32 0x1000#32 = .ok (r, σ') →
          RegionDone smallSpace σ' smallDirs 0 1 0x800010#32 0x1000#32) ↔
        0x1000#32 = 0#32 ∨ ¬ WrapsUnseen [2, 3, 4] 0x800010#32 0x1000#32 ∧
          ¬ LastPageLost smallSpace smallDirs [2, 3, 4] 0 0x800010#32 0x1000#32) :=
  ⟨smallSpace_memInv, rfl, smallSpace_kernPart,
    region_alloc_done_iff smallSpace_memInv rfl smallSpace_kernPart 0x800010#32 0x1000#32⟩

/-- Two ranges that `region_alloc` does not map, although it returns: the last page of the address
space, and two pages in two page tables with memory for three pages. -/
theorem region_alloc_returns_unmapped :
    MemInv {1, 2, 3, 4, 5} {5} smallSpace smallDirs [2, 3, 4] ∅ ∧ smallDirs 0 = some 1 ∧
      (∃ r σ', regionAlloc smallSpace 1 0xFFFFF000#32 0x1000#32 = .ok (r, σ') ∧
        ¬ RegionDone smallSpace σ' smallDirs 0 1 0xFFFFF000#32 0x1000#32) ∧
      ∃ r σ', regionAlloc smallSpace 1 0xBFF000#32 0x2000#32 = .ok (r, σ') ∧
        ¬ RegionDone smallSpace σ' smallDirs 0 1 0xBFF000#32 0x2000#32 := by
  refine ⟨smallSpace_memInv, rfl, ⟨_, _, rfl, fun h => ?_⟩, ⟨_, _, rfl, fun h => ?_⟩⟩
  · exact absurd (h.below 0xFFFFF ⟨0xFFFFF000, by decide, by decide, by decide⟩) (by decide)
  · exact absurd (h.mapped 0xC00 ⟨0xC00000, by decide, by decide, by decide⟩) (by decide)

end Jos
