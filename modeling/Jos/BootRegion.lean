import Jos.Boot
import Jos.KernSpace

/-!
# What `boot_map_region` maps

`boot_map_region` for any page directory whose page tables come from `pgdir_walk`, as `mem_init`
calls it for its fourteen regions. The loop ends at the rounded size, which may be the end of the
address space: then `va + i` does not get past it, because `i < size` is tested before. The tests of
`va` and `pa` against `0xFFFFFFFF` never end it, since both are multiples of a page.

**Theorem (`boot_map_region_exact`).** With a free page for each page table that is missing, the
region is mapped page by page and nothing else changes (`RegionExact`).
-/

namespace Jos

open Lib

variable {σ σ' : Phys} {d : Nat} {free free' : List Nat} {va pa perm size : Word}

/-! ## Definitions -/

/-- The page tables of `d` come from `pgdir_walk`, which makes them writable. -/
structure WalkedDir (σ : Phys) (d : Nat) (free : List Nat) : Prop extends DirTab σ d free where
  writable : ∀ i, i ≠ PDX UVPT → Present (σ.mem d i) → σ.mem d i &&& PTE_W ≠ 0

/-- The size in whole pages. -/
def roundedSize (size : Word) : ℕ := (size.toNat + 4095) / 4096 * 4096

/-- The region has the address `v`. -/
def Covers (va size v : Word) : Prop := va.toNat ≤ v.toNat ∧ v.toNat < va.toNat + roundedSize size

/-- **The region is mapped and nothing else changes.** The pages that leave the free list are the
new page tables, and only their counts change. -/
structure RegionExact (σ σ' : Phys) (d : Nat) (free free' : List Nat)
    (va size pa perm : Word) : Prop where
  dir : WalkedDir σ' d free'
  pte : ∀ i, PGOFF i = 0 → i.toNat < roundedSize size →
    dirVm σ' d (pageIx (va + i)) = (pa + i) ||| perm ||| PTE_P
  pde : ∀ v, Covers va size v → Present (σ'.mem d (PDX v)) ∧ σ'.mem d (PDX v) &&& PTE_W ≠ 0 ∧
    (perm &&& PTE_U ≠ 0 → σ'.mem d (PDX v) &&& PTE_U ≠ 0)
  pte_other : ∀ v, PDX v ≠ PDX UVPT → ¬ Covers va size v →
    dirVm σ' d (pageIx v) = dirVm σ d (pageIx v)
  pde_other : ∀ i, (∀ v, Covers va size v → PDX v ≠ i) → σ'.mem d i = σ.mem d i
  frame : ∀ p, p ≠ d → (∀ v, Covers va size v → named (σ'.mem d (PDX v)) ≠ some p) →
    σ'.mem p = σ.mem p
  taken : ∀ p ∈ free, p ∉ free' → ∃ v, Covers va size v ∧ named (σ'.mem d (PDX v)) = some p
  ref : ∀ p, σ'.ppRef p = if p ∈ free ∧ p ∉ free' then 1 else σ.ppRef p

/-! ## The region -/

/-- At most one table is missing for each page. -/
theorem card_lackingTables_le (σ : Phys) (d : Nat) (va : Word) (n : ℕ) :
    (lackingTables σ d va n).card ≤ n := by
  have hsub : lackingTables σ d va n ⊆ (Finset.range n).image fun m => PDX (pageOf va m) := by
    intro i hi
    obtain ⟨-, ⟨m, hm, hmi⟩, -⟩ := Finset.mem_filter.1 hi
    exact Finset.mem_image.2 ⟨m, Finset.mem_range.2 hm, hmi⟩
  calc (lackingTables σ d va n).card ≤ ((Finset.range n).image fun m => PDX (pageOf va m)).card :=
        Finset.card_le_card hsub
    _ ≤ (Finset.range n).card := Finset.card_image_le
    _ = n := Finset.card_range n

theorem and_ne_zero_or {v w f : Word} (h : v &&& f ≠ 0) : (v ||| w) &&& f ≠ 0 := by
  intro hc
  apply h
  rw [BitVec.and_or_distrib_right] at hc
  have hle : v &&& f = (v &&& f) &&& (v &&& f ||| w &&& f) := by
    ext i hi
    simp only [BitVec.getElem_and, BitVec.getElem_or]
    cases v[i] <;> cases f[i] <;> simp
  rw [hle, hc]
  exact BitVec.and_zero

section
variable {n : ℕ} (h : PagesMapped σ σ' d free free' va pa perm n)
include h

theorem PagesMapped.flags (hdir : WalkedDir σ d free) {m : ℕ} (hm : m < n)
    (hi : PDX (pageOf va m) ≠ PDX UVPT) :
    σ'.mem d (PDX (pageOf va m)) &&& PTE_W ≠ 0 ∧
      (perm &&& PTE_U ≠ 0 → σ'.mem d (PDX (pageOf va m)) &&& PTE_U ≠ 0) := by
  obtain ⟨e, he, hcase⟩ := h.pde m hm
  have hW : e &&& PTE_W ≠ 0 := by
    rcases hcase with ⟨hpr, rfl⟩ | ⟨q, -, -, rfl⟩
    · exact hdir.writable _ hi hpr
    · rw [BitVec.or_comm]
      exact and_ne_zero_or (by decide)
  refine ⟨he ▸ and_ne_zero_or hW, fun hU => ?_⟩
  rw [he, BitVec.or_comm]
  apply and_ne_zero_or
  rw [BitVec.and_assoc, BitVec.and_self]
  exact hU

theorem PagesMapped.walkedDir (hdir : WalkedDir σ d free)
    (huvpt : ∀ m < n, PDX (pageOf va m) ≠ PDX UVPT) : WalkedDir σ' d free' := by
  refine ⟨h.tab, fun i hi hpr => ?_⟩
  by_cases hcov : ∃ m < n, PDX (pageOf va m) = i
  · obtain ⟨m, hm, rfl⟩ := hcov
    exact (h.flags hdir hm (huvpt m hm)).1
  · have hsame : σ'.mem d i = σ.mem d i := h.pde_other i fun m hm hc => hcov ⟨m, hm, hc⟩
    rw [hsame] at hpr ⊢
    exact hdir.writable i hi hpr

end

theorem covers_iff (hva : va.toNat % 4096 = 0) (hlen : va.toNat + roundedSize size ≤ 2 ^ 32)
    {v : Word} :
    Covers va size v ↔ ∃ m < roundedSize size / 4096, pageIx (pageOf va m) = pageIx v := by
  have hround : roundedSize size % 4096 = 0 := Nat.mul_mod_left _ _
  constructor
  · rintro ⟨hlo, hhi⟩
    refine ⟨(v.toNat - va.toNat) / 4096, by omega, ?_⟩
    rw [pageIx_eq, toNat_pageOf (by omega)]
    omega
  · rintro ⟨m, hm, hix⟩
    rw [pageIx_eq, toNat_pageOf (by omega)] at hix
    exact ⟨by omega, by omega⟩

/-- **`boot_map_region` maps exactly its region.** -/
theorem boot_map_region_exact (h : WalkedDir σ d free) (hva : PGOFF va = 0) (hpa : PGOFF pa = 0)
    (htop : UTOP ≤ va) (hlen : va.toNat + roundedSize size ≤ 2 ^ 32)
    (huvpt : ∀ v, Covers va size v → PDX v ≠ PDX UVPT)
    (hroom : (lackingTables σ d va (roundedSize size / PGSIZE)).card ≤ free.length) (perm : Word) :
    ∃ σ' free', bootMapRegion σ d va size pa perm = .ok σ' ∧
      RegionExact σ σ' d free free' va size pa perm := by
  have hva' := PGOFF_eq_zero.1 hva
  have hpos : 0 < va.toNat := lt_of_lt_of_le (by decide) (BitVec.le_def.1 htop)
  have hsize : (ROUNDUP size).toNat = roundedSize size := by
    rw [toNat_ROUNDUP]
    exact Nat.mod_eq_of_lt (by unfold roundedSize at hlen; omega)
  have hround : roundedSize size % 4096 = 0 := Nat.mul_mod_left _ _
  have hpages : 4096 * (roundedSize size / PGSIZE) = roundedSize size := by
    rw [PGSIZE]
    omega
  have hin : ∀ m < roundedSize size / PGSIZE, Covers va size (pageOf va m) := fun m hm =>
    (covers_iff hva' hlen).2 ⟨m, hm, rfl⟩
  have hout : ∀ {v}, Covers va size v →
    ∃ m < roundedSize size / PGSIZE, PDX (pageOf va m) = PDX v := by
    intro v hv
    obtain ⟨m, hm, hix⟩ := (covers_iff hva' hlen).1 hv
    exact ⟨m, hm, congrArg Prod.fst hix⟩
  have huvpt' : ∀ m < roundedSize size / PGSIZE, PDX (pageOf va m) ≠ PDX UVPT := fun m hm =>
    huvpt _ (hin m hm)
  rcases h.toDirTab.mapPages hva' _ (by omega) huvpt' pa perm with
    ⟨hshort, -⟩ | ⟨σ', free', hok, hm⟩
  · exact absurd hroom (not_le.2 hshort)
  refine ⟨σ', free', ?_, hm.walkedDir h huvpt', fun i hi hlt => ?_, fun v hv => ?_,
    fun v hv hnot => ?_,
    fun i hi => hm.pde_other i fun m hmn => hi _ (hin m hmn),
    fun p hpd hp => hm.frame p hpd fun m hmn => hp _ (hin m hmn), fun p hp hpn => ?_, hm.ref⟩
  · unfold bootMapRegion
    rw [compareMax_aligned hva, compareMax_aligned hpa, if_neg (by decide), pageOffsets, hsize]
    exact hok
  · have hsum : (va + i).toNat = va.toNat + i.toNat := by
      rw [BitVec.toNat_add]
      omega
    have hwithin : Covers va size (va + i) := ⟨by omega, by omega⟩
    have hbase : PTE_ADDR (pa + (va + i - va)) = pa + i := by
      rw [PGOFF_eq_zero] at hpa hi
      apply BitVec.eq_of_toNat_eq
      rw [BitVec.add_comm va i, BitVec.add_sub_cancel, toNat_PTE_ADDR, BitVec.toNat_add]
      omega
    rw [hm.vm _ (huvpt _ hwithin), hpages]
    refine (if_pos hwithin).trans ?_
    rw [PTE_ADDR_region hva hpa (by omega), hbase]
  · obtain ⟨m, hmn, heq⟩ := hout hv
    rw [← heq]
    exact ⟨hm.present hmn, hm.flags h hmn (huvpt' m hmn)⟩
  · rw [hm.vm v hv, hpages]
    exact if_neg hnot
  · obtain ⟨m, hmn, hname⟩ := hm.taken p hp hpn
    exact ⟨_, hin m hmn, hname⟩

/-- An empty directory in frame 257, and two free pages. -/
def twoFree : Phys where
  npages := 300
  mem := fun _ _ => 0
  ppRef := fun _ => 0
  ppLink := fun pp => if pp = 1 then some 2 else none
  pageFreeList := some 1
  nAvailPages := 2
  kernPgdir := 257
  tlb := []

/-- Two pages on both sides of the last boundary between page tables. -/
theorem boot_map_region_exact_two :
    ∃ σ' free', bootMapRegion twoFree 257 0xFFBFF000#32 0x1001#32 0x100000#32 PTE_W = .ok σ' ∧
      RegionExact twoFree σ' 257 [1, 2] free' 0xFFBFF000#32 0x1001#32 0x100000#32 PTE_W := by
  have hround : roundedSize 0x1001#32 = 8192 := by decide
  have hnone : ∀ i t, named (twoFree.mem 257 i) ≠ some t := by
    intro i t ht
    change named 0#32 = some t at ht
    rw [named_zero] at ht
    cases ht
  have hdir : WalkedDir twoFree 257 [1, 2] :=
    ⟨⟨Chain.of_follow (n := 2)
      rfl, by decide, by decide, by decide, fun i _ t ht => (hnone i t ht).elim,
      fun i _ t _ _ ht _ => (hnone i t ht).elim⟩, fun _ _ hpr => (not_present_zero hpr).elim⟩
  refine boot_map_region_exact hdir (by decide) (by decide) (by decide) (by decide)
    (fun v hv hc => ?_) (card_lackingTables_le _ _ _ _) PTE_W
  have hval := congrArg Fin.val hc
  obtain ⟨hlo, hhi⟩ := hv
  rw [val_PDX, show (PDX UVPT).val = 957 by decide] at hval
  rw [show (0xFFBFF000#32).toNat = 4290768896 by decide] at hlo hhi
  omega

end Jos
