import Jos.Protect

/-!
# The map of the kernel's address space

**Theorem (`kernel_space`).** `mem_init` builds the address space of `memlayout.h`: the translation
of every address above `UTOP` outside `UVPT` is the documented one (`KernelSpace`).

`mem_init` lays fourteen regions over each other: `pages`, the boot stack, all of physical memory,
`envs`, the devices and eight stacks. Two of them are later overridden: the boot stack by the stack
of CPU 0, and the top of physical memory by the devices. One region is one page after the other
(`DirTab.mapPages`), and what a region does to the map is to override it (`RegionMapped`). So the
final map is read off by going through the regions from the last to the first.
-/

namespace Jos

open Lib

variable {σ σ' : Phys} {d : Nat} {free free' : List Nat} {va pa perm size v : Word}

/-! ## Definitions -/

/-- The physical address that the MMU finds for `va`, or `none` for a page fault. -/
def mmuPhys (σ : Phys) (d : Nat) (va : Word) : Option Word :=
  if Present (σ.mem d (PDX va)) ∧ Present (mmuPte σ d va) then
    some (PTE_ADDR (mmuPte σ d va) + PGOFF va)
  else none

structure Placement.Aligned (place : Placement) : Prop where
  pages : PGOFF place.pages = 0
  envs : PGOFF place.envs = 0
  bootstack : PGOFF place.bootstack = 0
  percpuKstacks : ∀ i, PGOFF (place.percpuKstacks i) = 0

/-- The `size` bytes from `va`, rounded up to pages. -/
def InRegion (va size v : Word) : Prop :=
  va.toNat ≤ v.toNat ∧ v.toNat < va.toNat + (ROUNDUP size).toNat

instance (va size v : Word) : Decidable (InRegion va size v) := by unfold InRegion; infer_instance

/-- The lowest address of the stack of CPU `i`, which ends at `KSTACKTOP - i * (KSTKSIZE +
KSTKGAP)`. -/
def kstack (i : Cpu) : Word := KSTACKTOP - BitVec.ofNat 32 i * (KSTKSIZE + KSTKGAP) - KSTKSIZE

/-- The documented address space. -/
structure KernelSpace (place : Placement) (σ : Phys) : Prop where
  pages : ∀ va, InRegion UPAGES (BitVec.ofNat 32 σ.npages * SIZEOF_PAGE) va →
    mmuPhys σ σ.kernPgdir va = some (place.pages + (va - UPAGES))
  envs : ∀ va, InRegion UENVS (BitVec.ofNat 32 NENV * SIZEOF_ENV) va →
    mmuPhys σ σ.kernPgdir va = some (place.envs + (va - UENVS))
  stack : ∀ i va, InRegion (kstack i) KSTKSIZE va →
    mmuPhys σ σ.kernPgdir va = some (place.percpuKstacks i + (va - kstack i))
  phys : ∀ va, KERNBASE ≤ va → va < IOMEMBASE → mmuPhys σ σ.kernPgdir va = some (va - KERNBASE)
  io : ∀ va, IOMEMBASE ≤ va → mmuPhys σ σ.kernPgdir va = some va
  unmapped : ∀ va, UTOP ≤ va → va < KERNBASE → PDX va ≠ PDX UVPT →
    ¬ InRegion UPAGES (BitVec.ofNat 32 σ.npages * SIZEOF_PAGE) va →
    ¬ InRegion UENVS (BitVec.ofNat 32 NENV * SIZEOF_ENV) va →
    (∀ i, ¬ InRegion (kstack i) KSTKSIZE va) →
    mmuPhys σ σ.kernPgdir va = none

/-! ## Addresses and entries -/

/-- Where the entry of `v` is. -/
def pageIx (v : Word) : Idx × Idx := (PDX v, PTX v)

theorem pageIx_eq {u : Word} : pageIx u = pageIx v ↔ u.toNat / 4096 = v.toNat / 4096 := by
  unfold pageIx
  rw [Prod.mk.injEq, Fin.ext_iff, Fin.ext_iff, val_PDX, val_PDX, val_PTX, val_PTX]
  omega

theorem toNat_PGOFF (w : Word) : (PGOFF w).toNat = w.toNat % 4096 := by
  rw [PGOFF, BitVec.toNat_and, show (0xFFF#32).toNat =
    2 ^ 12 - 1 by decide, Nat.and_two_pow_sub_one_eq_mod]

theorem PGOFF_eq_zero {w : Word} : PGOFF w = 0 ↔ w.toNat % 4096 = 0 := by
  rw [← toNat_PGOFF]
  exact ⟨fun h => by rw [h]; rfl, fun h => BitVec.eq_of_toNat_eq h⟩

theorem PTE_ADDR_PTE_ADDR (w : Word) : PTE_ADDR (PTE_ADDR w) = PTE_ADDR w := by
  apply BitVec.eq_of_toNat_eq
  rw [toNat_PTE_ADDR, toNat_PTE_ADDR]
  omega

theorem PTE_ADDR_add_PGOFF (w : Word) : PTE_ADDR w + PGOFF w = w := by
  apply BitVec.eq_of_toNat_eq
  have hw := w.isLt
  rw [BitVec.toNat_add, toNat_PTE_ADDR, toNat_PGOFF, Nat.mod_eq_of_lt (by omega)]
  omega

theorem mmuPhys_kernVm (σ : Phys) (v : Word) : mmuPhys σ σ.kernPgdir v =
    if Present (kernVm σ (pageIx v)) then some (PTE_ADDR (kernVm σ (pageIx v)) + PGOFF v)
      else none := by
  unfold mmuPhys kernVm mmuPte pageIx
  by_cases hpr : Present (σ.mem σ.kernPgdir (PDX v))
  · simp [hpr]
  · simp [hpr]

theorem mmuPhys_of_entry (perm : Word) (hpa : PGOFF pa = 0) (hva : PGOFF va = 0)
    (hperm : PTE_ADDR perm = 0)
    (h : kernVm σ (pageIx v) = PTE_ADDR (pa + (v - va)) ||| perm ||| PTE_P) :
    mmuPhys σ σ.kernPgdir v = some (pa + (v - va)) := by
  have hpr : Present (kernVm σ (pageIx v)) := h ▸ present_or_PTE_P _
  have haddr : PTE_ADDR (kernVm σ (pageIx v)) = PTE_ADDR (pa + (v - va)) := by
    rw [h, PTE_ADDR_or, PTE_ADDR_or, hperm, PTE_ADDR_PTE_P, PTE_ADDR_PTE_ADDR]
    simp
  have hoff : PGOFF v = PGOFF (pa + (v - va)) := by
    rw [PGOFF_eq_zero] at hpa hva
    apply BitVec.eq_of_toNat_eq
    have h₁ := pa.isLt
    have h₂ := va.isLt
    have h₃ := v.isLt
    rw [toNat_PGOFF, toNat_PGOFF, BitVec.toNat_add, BitVec.toNat_sub]
    omega
  rw [mmuPhys_kernVm, if_pos hpr, haddr, hoff, PTE_ADDR_add_PGOFF]

/-! ## A region -/

/-- What mapping a region does: it overrides the map. -/
structure RegionMapped (σ σ' : Phys) (free' : List Nat) (va size pa perm : Word) : Prop where
  tab : KernTab σ' free'
  npages : σ'.npages = σ.npages
  kernPgdir : σ'.kernPgdir = σ.kernPgdir
  vm : ∀ v, PDX v ≠ PDX UVPT → kernVm σ' (pageIx v) =
    if InRegion va size v then PTE_ADDR (pa + (v - va)) ||| perm ||| PTE_P else kernVm σ (pageIx v)

/-- The page at offset `m * PGSIZE` of a region. -/
def pageOf (va : Word) (m : ℕ) : Word := va + BitVec.ofNat 32 (m * PGSIZE)

/-- The page tables that the first `n` pages of a region lack. -/
def lackingTables (σ : Phys) (d : Nat) (va : Word) (n : ℕ) : Finset Idx :=
  Finset.univ.filter fun i => (∃ m < n, PDX (pageOf va m) = i) ∧ ¬ Present (σ.mem d i)

/-- What mapping the first `n` pages of a region does to the directory `d`. -/
structure PagesMapped (σ σ' : Phys) (d : Nat) (free free' : List Nat) (va pa perm : Word) (n : ℕ) :
    Prop where
  tab : DirTab σ' d free'
  npages : σ'.npages = σ.npages
  kernPgdir : σ'.kernPgdir = σ.kernPgdir
  vm : ∀ v, PDX v ≠ PDX UVPT → dirVm σ' d (pageIx v) =
    if va.toNat ≤ v.toNat ∧ v.toNat < va.toNat + 4096 * n then
      PTE_ADDR (pa + (PTE_ADDR v - va)) ||| perm ||| PTE_P
    else dirVm σ d (pageIx v)
  pde : ∀ m < n, ∃ e, σ'.mem d (PDX (pageOf va m)) = e ||| (perm &&& PTE_U) ∧
    (Present (σ.mem d (PDX (pageOf va m))) ∧ e = σ.mem d (PDX (pageOf va m)) ∨
      ∃ q ∈ free, q ∉ free' ∧ e = page2pa q ||| PTE_P ||| PTE_W)
  pde_other : ∀ i, (∀ m < n, PDX (pageOf va m) ≠ i) → σ'.mem d i = σ.mem d i
  frame : ∀ p, p ≠ d → (∀ m < n, named (σ'.mem d (PDX (pageOf va m))) ≠ some p) →
    σ'.mem p = σ.mem p
  free_eq : free' = free.drop (lackingTables σ d va n).card
  taken : ∀ p ∈ free, p ∉ free' → ∃ m < n, named (σ'.mem d (PDX (pageOf va m))) = some p
  ref : ∀ p, σ'.ppRef p = if p ∈ free ∧ p ∉ free' then 1 else σ.ppRef p

theorem toNat_pageOf {m : ℕ} (h : va.toNat + 4096 * m < 2 ^ 32) :
    (pageOf va m).toNat = va.toNat + 4096 * m := by
  rw [pageOf, BitVec.toNat_add, BitVec.toNat_ofNat, PGSIZE]
  omega

theorem PagesMapped.refl (h : DirTab σ d free) (va pa perm : Word) :
    PagesMapped σ σ d free free va pa perm 0 where
  tab := h
  npages := rfl
  kernPgdir := rfl
  vm v _ := (if_neg (by omega)).symm
  pde m hm := (Nat.not_lt_zero m hm).elim
  pde_other _ _ := rfl
  frame _ _ _ := rfl
  free_eq := by simp [lackingTables]
  taken p hp hpn := (hpn hp).elim
  ref p := (if_neg fun hc => hc.2 hc.1).symm

section
variable {τ τ' : Phys} {free₁ free₂ : List Nat} {n : ℕ}

theorem PagesMapped.present (h : PagesMapped σ τ d free free₁ va pa perm n) {m : ℕ} (hm : m < n) :
    Present (τ.mem d (PDX (pageOf va m))) := by
  obtain ⟨e, he, hpr | ⟨q, -, -, rfl⟩⟩ := h.pde m hm
  · rw [he, hpr.2]
    exact present_or.2 (.inl hpr.1)
  · rw [he]
    exact present_or.2 (.inl (present_or.2 (.inl (present_or_PTE_P _))))

/-- One more page needs a table exactly if its entry is not present by now. -/
theorem PagesMapped.card_succ (h : PagesMapped σ τ d free free₁ va pa perm n) :
    (lackingTables σ d va (n + 1)).card =
      if Present (τ.mem d (PDX (pageOf va n))) then (lackingTables σ d va n).card
      else (lackingTables σ d va n).card + 1 := by
  have hmem : ∀ i, i ∈ lackingTables σ d va (n + 1) ↔
      i ∈ lackingTables σ d va n ∨ i = PDX (pageOf va n) ∧ ¬ Present (σ.mem d i) := by
    intro i
    simp only [lackingTables, Finset.mem_filter, Finset.mem_univ, true_and,
      Nat.lt_succ_iff_lt_or_eq]
    constructor
    · rintro ⟨⟨m, hm | rfl, hi⟩, habs⟩
      · exact .inl ⟨⟨m, hm, hi⟩, habs⟩
      · exact .inr ⟨hi.symm, habs⟩
    · rintro (⟨⟨m, hm, hi⟩, habs⟩ | ⟨hi, habs⟩)
      · exact ⟨⟨m, .inl hm, hi⟩, habs⟩
      · exact ⟨⟨n, .inr rfl, hi.symm⟩, habs⟩
  by_cases hcov : ∃ m < n, PDX (pageOf va m) = PDX (pageOf va n)
  · obtain ⟨m, hm, heq⟩ := hcov
    rw [if_pos (heq ▸ h.present hm)]
    apply congrArg Finset.card
    ext i
    rw [hmem]
    refine ⟨fun hi => hi.elim id ?_, .inl⟩
    rintro ⟨rfl, habs⟩
    exact Finset.mem_filter.2 ⟨Finset.mem_univ _, ⟨m, hm, heq⟩, habs⟩
  · have hsame : τ.mem d (PDX (pageOf va n)) = σ.mem d (PDX (pageOf va n)) :=
      h.pde_other _ fun m hm hc => hcov ⟨m, hm, hc⟩
    rw [hsame]
    split_ifs with hpr
    · apply congrArg Finset.card
      ext i
      rw [hmem]
      refine ⟨fun hi => hi.elim id ?_, .inl⟩
      rintro ⟨rfl, habs⟩
      exact (habs hpr).elim
    · have hnew : PDX (pageOf va n) ∉ lackingTables σ d va n := fun hc =>
        hcov (Finset.mem_filter.1 hc).2.1
      rw [← Finset.card_insert_of_notMem hnew]
      apply congrArg Finset.card
      ext i
      rw [hmem, Finset.mem_insert]
      constructor
      · rintro (hi | ⟨hi, -⟩)
        · exact .inr hi
        · exact .inl hi
      · rintro (rfl | hi)
        · exact .inr ⟨rfl, hpr⟩
        · exact .inl hi

section Step
variable (h : PagesMapped σ τ d free free₁ va pa perm n)
  (hm : DirMapped τ τ' d free₁ free₂ (pageOf va n)
    (PTE_ADDR (pa + BitVec.ofNat 32 (n * PGSIZE)) ||| perm ||| PTE_P) (perm &&& PTE_U))
include h hm

/-- The entries so far at most get `PTE_U` once more. -/
theorem PagesMapped.kept {m : ℕ} (hmn : m < n) :
    τ'.mem d (PDX (pageOf va m)) = τ.mem d (PDX (pageOf va m)) := by
  rw [hm.pde]
  by_cases heq : PDX (pageOf va m) = PDX (pageOf va n)
  · obtain ⟨e, he, -⟩ := h.pde m hmn
    rw [heq] at he
    rw [heq, Function.update_self, walkPde_of_present (heq ▸ h.present hmn), he, BitVec.or_assoc,
      BitVec.or_self]
  · rw [Function.update_of_ne heq]

theorem PagesMapped.vm_succ (hlen : va.toNat + 4096 * (n + 1) ≤ 2 ^ 32)
    (hva : va.toNat % 4096 = 0) {v : Word} (hv : PDX v ≠ PDX UVPT) : dirVm τ' d (pageIx v) =
      if va.toNat ≤ v.toNat ∧ v.toNat < va.toNat + 4096 * (n + 1) then
        PTE_ADDR (pa + (PTE_ADDR v - va)) ||| perm ||| PTE_P
      else dirVm σ d (pageIx v) := by
  have hpage : pageIx v = (PDX (pageOf va n), PTX (pageOf va n)) ↔
    v.toNat / 4096 = va.toNat / 4096 + n := by
    change pageIx v = pageIx _ ↔ _
    rw [pageIx_eq, toNat_pageOf (by omega)]
    omega
  rw [hm.vm (pageIx v) hv, h.vm v hv]
  by_cases hnew : v.toNat / 4096 = va.toNat / 4096 + n
  · have hbase : PTE_ADDR v - va = BitVec.ofNat 32 (n * PGSIZE) := by
      apply BitVec.eq_of_toNat_eq
      have hlt := v.isLt
      rw [BitVec.toNat_sub, toNat_PTE_ADDR, BitVec.toNat_ofNat, PGSIZE]
      omega
    rw [if_pos (hpage.2 hnew), if_pos (by omega), hbase]
  · rw [if_neg fun hc => hnew (hpage.1 hc)]
    by_cases hold : va.toNat ≤ v.toNat ∧ v.toNat < va.toNat + 4096 * n
    · rw [if_pos hold, if_pos (by omega)]
    · rw [if_neg hold, if_neg (by omega)]

theorem PagesMapped.pde_succ (hi : PDX (pageOf va n) ≠ PDX UVPT) {m : ℕ} (hmn : m < n + 1) :
    ∃ e, τ'.mem d (PDX (pageOf va m)) = e ||| (perm &&& PTE_U) ∧
      (Present (σ.mem d (PDX (pageOf va m))) ∧ e = σ.mem d (PDX (pageOf va m)) ∨
        ∃ q ∈ free, q ∉ free₂ ∧ e = page2pa q ||| PTE_P ||| PTE_W) := by
  have hsub : free₁ ⊆ free := h.free_eq ▸ List.drop_subset _ _
  by_cases hcov : ∃ m' < n, PDX (pageOf va m') = PDX (pageOf va m)
  · obtain ⟨m', hlt, heq⟩ := hcov
    obtain ⟨e, he, hcase⟩ := h.pde m' hlt
    have hkept := h.kept hm hlt
    rw [heq] at he hcase hkept
    refine ⟨e, hkept.trans he, hcase.imp_right ?_⟩
    rintro ⟨q, hq, hqn, heq⟩
    exact ⟨q, hq, fun hc => hqn (hm.free_sub hc), heq⟩
  · -- the first page of this table
    obtain rfl : m = n := by
      by_contra hne
      exact hcov ⟨m, by omega, rfl⟩
    have hsame : τ.mem d (PDX (pageOf va m)) = σ.mem d (PDX (pageOf va m)) :=
      h.pde_other _ fun m' hm' hc => hcov ⟨m', hm', hc⟩
    refine ⟨_, by rw [hm.pde, Function.update_self], ?_⟩
    rw [hsame]
    by_cases hpr : Present (σ.mem d (PDX (pageOf va m)))
    · exact .inl ⟨hpr, walkPde_of_present hpr free₁⟩
    · have hfree := hm.free_eq
      rw [hsame, if_neg hpr] at hfree
      cases hcase : free₁ with
      | nil =>
        -- the entry would not be present after the call
        have hpr' := hm.present (present_or_PTE_P _) hi
        rw [hm.pde, Function.update_self, hsame, hcase, walkPde, if_neg hpr, and_PTE_U] at hpr'
        split_ifs at hpr' <;> exact absurd hpr' (by decide)
      | cons q rest =>
        have hnd : free₁.Nodup := h.tab.chain.nodup
        rw [hcase] at hfree hnd hsub
        refine .inr ⟨q, hsub List.mem_cons_self, ?_, walkPde_of_absent hpr q rest⟩
        rw [hfree]
        exact (List.nodup_cons.1 hnd).1

/-- **One page more.** -/
theorem PagesMapped.step (hva : va.toNat % 4096 = 0) (hlen : va.toNat + 4096 * (n + 1) ≤ 2 ^ 32)
    (hi : PDX (pageOf va n) ≠ PDX UVPT) : PagesMapped σ τ' d free free₂ va pa perm (n + 1) := by
  have hsub : free₁ ⊆ free := h.free_eq ▸ List.drop_subset _ _
  have hsub' := hm.free_sub
  constructor
  · exact hm.tab
  · exact hm.npages.trans h.npages
  · exact hm.kernPgdir.trans h.kernPgdir
  · intro v hv
    exact h.vm_succ hm hlen hva hv
  · intro m hmn
    exact h.pde_succ hm hi hmn
  · intro i hi
    rw [hm.pde, Function.update_of_ne (hi n (Nat.lt_succ_self n)).symm]
    exact h.pde_other i fun m hmn => hi m (Nat.lt_succ_of_lt hmn)
  · intro p hpd hp
    rw [hm.frame p hpd (hp n (Nat.lt_succ_self n))]
    apply h.frame p hpd
    intro m hmn
    rw [← h.kept hm hmn]
    exact hp m (Nat.lt_succ_of_lt hmn)
  · rw [h.card_succ, hm.free_eq, h.free_eq]
    split_ifs
    · rfl
    · rw [List.tail_drop]
  · intro p hp hp₂
    by_cases h₁ : p ∈ free₁
    · exact ⟨n, Nat.lt_succ_self n, hm.taken p h₁ hp₂⟩
    · obtain ⟨m, hmn, hname⟩ := h.taken p hp h₁
      rw [← h.kept hm hmn] at hname
      exact ⟨m, Nat.lt_succ_of_lt hmn, hname⟩
  · intro p
    rw [hm.ref p, h.ref p]
    by_cases h₂ : p ∈ free₂
    · rw [if_neg fun hc => hc.2 h₂, if_neg fun hc => hc.2 (hsub' h₂), if_neg fun hc => hc.2 h₂]
    · by_cases h₁ : p ∈ free₁
      · rw [if_pos ⟨h₁, h₂⟩, if_pos ⟨hsub h₁, h₂⟩]
      · rw [if_neg fun hc => h₁ hc.1]
        exact if_congr ⟨fun hc => ⟨hc.1, h₂⟩, fun hc => ⟨hc.1, h₁⟩⟩ rfl rfl

end Step

end

/-- **The first `n` pages of a region** are mapped, unless there are too few pages for the tables.
-/
theorem DirTab.mapPages (h : DirTab σ d free) (hva : va.toNat % 4096 = 0) (n : ℕ)
    (hlen : va.toNat + 4096 * n ≤ 2 ^ 32) (huvpt : ∀ m < n, PDX (pageOf va m) ≠ PDX UVPT)
    (pa perm : Word) :
    (free.length < (lackingTables σ d va n).card ∧
      ∃ e, ((List.range n).map fun m => BitVec.ofNat 32 (m * PGSIZE)).foldlM
        (bootMapPage d va pa perm) σ = .error e) ∨
    ∃ σ' free', ((List.range n).map fun m => BitVec.ofNat 32 (m * PGSIZE)).foldlM
        (bootMapPage d va pa perm) σ = .ok σ' ∧
      PagesMapped σ σ' d free free' va pa perm n := by
  induction n with
  | zero => exact .inr ⟨σ, free, rfl, .refl h va pa perm⟩
  | succ n ih =>
    rw [List.range_succ, List.map_append, List.foldlM_append, List.map_singleton]
    rcases ih (by omega)
      (fun m hm => huvpt m (by omega)) with ⟨hshort, e, he⟩ | ⟨τ, free₁, hτ, hmapped⟩
    · refine .inl ⟨lt_of_lt_of_le hshort (Finset.card_le_card fun i hi => ?_), e, by rw [he]; rfl⟩
      obtain ⟨-, ⟨m, hm, hmi⟩, habs⟩ := Finset.mem_filter.1 hi
      exact Finset.mem_filter.2 ⟨Finset.mem_univ i, ⟨m, Nat.lt_succ_of_lt hm, hmi⟩, habs⟩
    · rw [hτ, ok_bind, List.foldlM_cons]
      rcases hmapped.tab.mapPage (huvpt n (Nat.lt_succ_self n)) pa perm with
        ⟨hnil, habs, herr⟩ | ⟨τ', free₂, hok, hm⟩
      · refine .inl ⟨?_, _, by rw [herr]; rfl⟩
        have hdrop := hmapped.free_eq.symm.trans hnil
        rw [List.drop_eq_nil_iff] at hdrop
        rw [hmapped.card_succ, pageOf, if_neg habs]
        omega
      · exact .inr ⟨τ', free₂, by rw [hok]; rfl, hmapped.step hm hva hlen
          (huvpt n (Nat.lt_succ_self n))⟩

theorem compareMax_aligned {w : Word} (h : PGOFF w = 0) : compareMax w 0xFFFFFFFF#32 4 = false := by
  rw [PGOFF_eq_zero] at h
  have hne : ∀ i < 4, w + BitVec.ofNat 32 i ≠ 0xFFFFFFFF#32 := by
    intro i hi hc
    have hval := congrArg BitVec.toNat hc
    rw [BitVec.toNat_add, BitVec.toNat_ofNat, BitVec.toNat_ofNat] at hval
    have hw := w.isLt
    omega
  rw [compareMax, List.any_eq_false]
  intro i hi
  simpa using hne i (List.mem_range.1 hi)

theorem PTE_ADDR_region (hva : PGOFF va = 0) (hpa : PGOFF pa = 0) (hlo : va.toNat ≤ v.toNat) :
    PTE_ADDR (pa + (PTE_ADDR v - va)) = PTE_ADDR (pa + (v - va)) := by
  rw [PGOFF_eq_zero] at hva hpa
  apply BitVec.eq_of_toNat_eq
  have h₁ := pa.isLt
  have h₂ := v.isLt
  rw [toNat_PTE_ADDR, toNat_PTE_ADDR, BitVec.toNat_add, BitVec.toNat_add, BitVec.toNat_sub,
    BitVec.toNat_sub, toNat_PTE_ADDR]
  omega

/-- **`boot_map_region` maps exactly its region.** -/
theorem mapRegion_vm (h : KernTab σ free) (hva : PGOFF va = 0) (hpa : PGOFF pa = 0)
    (hlen : va.toNat + (ROUNDUP size).toNat ≤ 2 ^ 32)
    (huvpt : ∀ i ∈ pageOffsets (ROUNDUP size), PDX (va + i) ≠ PDX UVPT)
    (hx : bootMapRegion σ σ.kernPgdir va size pa perm = .ok σ') :
    ∃ free', RegionMapped σ σ' free' va size pa perm := by
  have hround : (ROUNDUP size).toNat % 4096 = 0 := by
    change (PTE_ADDR _).toNat % 4096 = 0
    rw [toNat_PTE_ADDR]
    omega
  have hpages : 4096 * ((ROUNDUP size).toNat / PGSIZE) = (ROUNDUP size).toNat := by
    rw [PGSIZE]
    omega
  have huvpt' : ∀ m < (ROUNDUP size).toNat / PGSIZE, PDX (pageOf va m) ≠ PDX UVPT := fun m hm =>
    huvpt _ (List.mem_map.2 ⟨m, List.mem_range.2 hm, rfl⟩)
  unfold bootMapRegion at hx
  rw [compareMax_aligned hva, compareMax_aligned hpa, if_neg (by decide)] at hx
  rcases h.dirTab.mapPages (PGOFF_eq_zero.1 hva) _ (by omega) huvpt' pa perm with
    ⟨-, e, he⟩ | ⟨τ, free', hok, hm⟩
  · rw [pageOffsets, he] at hx
    cases hx
  · rw [pageOffsets, hok] at hx
    obtain rfl := Except.ok.inj hx
    have htab := hm.tab
    have hvm := hm.vm
    rw [← hm.kernPgdir] at htab hvm
    refine ⟨free', ⟨htab.chain, htab.bound, htab.npages_le, ?_, htab.dir_free, ?_, htab.table,
      htab.table_inj⟩, hm.npages, hm.kernPgdir, fun v hv => ?_⟩
    · rw [hm.npages, hm.kernPgdir]
      exact h.kern_lt
    · rw [hm.kernPgdir, hm.pde_other _ huvpt']
      exact h.uvpt
    · have hv' := hm.vm v hv
      rw [hpages] at hv'
      have hkern : kernVm τ (pageIx v) = dirVm τ σ.kernPgdir (pageIx v) := by
        unfold kernVm
        rw [hm.kernPgdir]
        rfl
      rw [hkern, hv']
      change (if InRegion va size v then _ else _) = _
      by_cases hin : InRegion va size v
      · rw [if_pos hin, if_pos hin, PTE_ADDR_region hva hpa hin.1]
      · rw [if_neg hin, if_neg hin]
        rfl

/-! ## The stacks -/

theorem toNat_kstack (i : Cpu) : (kstack i).toNat = 959 * 2 ^ 22 - 2 ^ 15 - i * 2 ^ 16 := by
  revert i
  decide

theorem kstack_eq (i : Cpu) :
    KSTACKTOP - KSTKSIZE * (BitVec.ofNat 32 i + 1) - KSTKGAP * BitVec.ofNat 32 i = kstack i := by
  revert i
  decide

theorem kstack_inj {i j : Cpu} (hi : InRegion (kstack i) KSTKSIZE v)
    (hj : InRegion (kstack j) KSTKSIZE v) : i = j := by
  unfold InRegion at hi hj
  rw [toNat_kstack, show (ROUNDUP KSTKSIZE).toNat = 2 ^ 15 by decide] at hi hj
  have hlt := i.isLt
  have hlt' := j.isLt
  ext
  omega

theorem stacks_vm {place : Placement} (hplace : place.Aligned) {l : List Cpu} (h : KernTab σ free)
    (hx : l.foldlM (fun σ (i : Cpu) => bootMapRegion σ σ.kernPgdir (kstack i) KSTKSIZE
      (place.percpuKstacks i) PTE_W) σ = .ok σ') :
    (σ'.npages = σ.npages ∧ σ'.kernPgdir = σ.kernPgdir) ∧ ∀ v, PDX v ≠ PDX UVPT →
      (∀ i ∈ l, InRegion (kstack i) KSTKSIZE v → kernVm σ' (pageIx v) =
        PTE_ADDR (place.percpuKstacks i + (v - kstack i)) ||| PTE_W ||| PTE_P) ∧
      ((∀ i ∈ l, ¬ InRegion (kstack i) KSTKSIZE v) → kernVm σ' (pageIx v) = kernVm σ
        (pageIx v)) := by
  induction l generalizing σ free with
  | nil =>
    obtain rfl := Except.ok.inj hx
    exact ⟨⟨rfl, rfl⟩, fun v _ => ⟨fun i hi => (by cases hi), fun _ => rfl⟩⟩
  | cons i l ih =>
    rw [List.foldlM_cons] at hx
    obtain ⟨σ₁, hx₁, hx⟩ := bind_eq_ok.1 hx
    obtain ⟨hlo, hhi⟩ := stack_bounds i
    rw [kstack_eq] at hlo hhi
    have htop := KSTACKTOP.isLt
    have hfits : ∀ o ∈ pageOffsets (ROUNDUP KSTKSIZE), PDX (kstack i + o) ≠ PDX UVPT := fun o ho =>
      (fits_kernel_region hlo (by omega) ho).2.1
    have halign : PGOFF (kstack i) = 0 := by
      rw [PGOFF_eq_zero, toNat_kstack]
      have := i.isLt
      omega
    obtain ⟨free₁, hm⟩ := mapRegion_vm h halign (hplace.percpuKstacks i) (by omega) hfits hx₁
    obtain ⟨⟨hnp, hk⟩, hvm⟩ := ih hm.tab hx
    refine ⟨⟨hnp.trans hm.npages, hk.trans hm.kernPgdir⟩, fun v hv =>
      ⟨fun j hj hin => ?_, fun hout => ?_⟩⟩
    · by_cases hjl : j ∈ l
      · exact (hvm v hv).1 j hjl hin
      · obtain rfl := (List.mem_cons.1 hj).resolve_right hjl
        have hout : ∀ i ∈ l, ¬ InRegion (kstack i) KSTKSIZE v := fun i hi hc =>
          hjl (kstack_inj hin hc ▸ hi)
        rw [(hvm v hv).2 hout, hm.vm v hv, if_pos hin]
    · rw [(hvm v hv).2 fun j hj => hout j (List.mem_cons_of_mem i hj), hm.vm v hv,
        if_neg (hout i List.mem_cons_self)]

/-! ## `mem_init` -/

theorem kernVm_clear (σ : Phys) (hv : PDX v ≠ PDX UVPT) :
    kernVm (clearKernPgdir σ) (pageIx v) = 0 := by
  have habs : ¬ Present ((clearKernPgdir σ).mem σ.kernPgdir (PDX v)) := by
    simp [clearKernPgdir, Phys.mem_store, hv]
  exact if_neg habs

/-- The map below the stacks, the last region first. -/
def baseVm (place : Placement) (np : Nat) (v : Word) : Word :=
  if InRegion IOMEMBASE (-IOMEMBASE) v then
    PTE_ADDR (IOMEM_PADDR + (v - IOMEMBASE)) ||| PTE_W ||| PTE_P
  else if InRegion UENVS (BitVec.ofNat 32 NENV * SIZEOF_ENV) v then
    PTE_ADDR (place.envs + (v - UENVS)) ||| PTE_U ||| PTE_P
  else if InRegion KERNBASE (0xFFFFFFFF#32 - KERNBASE) v then
    PTE_ADDR (0 + (v - KERNBASE)) ||| PTE_W ||| PTE_P
  else if InRegion (KSTACKTOP - KSTKSIZE) KSTKSIZE v then
    PTE_ADDR (place.bootstack + (v - (KSTACKTOP - KSTKSIZE))) ||| PTE_W ||| PTE_P
  else if InRegion UPAGES (BitVec.ofNat 32 np * SIZEOF_PAGE) v then
    PTE_ADDR (place.pages + (v - UPAGES)) ||| PTE_U ||| PTE_P
  else 0

/-- **All regions.** -/
theorem memInit_vm {place : Placement} (h : AllocInit σ free) (hplace : place.Aligned)
    (hx : memInit place σ = .ok σ') :
    (σ'.npages = σ.npages ∧ σ'.kernPgdir = σ.kernPgdir) ∧ ∀ v, PDX v ≠ PDX UVPT →
      (∀ i, InRegion (kstack i) KSTKSIZE v → kernVm σ' (pageIx v) =
        PTE_ADDR (place.percpuKstacks i + (v - kstack i)) ||| PTE_W ||| PTE_P) ∧
      ((∀ i, ¬ InRegion (kstack i) KSTKSIZE v) →
        kernVm σ' (pageIx v) = baseVm place σ.npages v) := by
  have hpages := ROUNDUP_pages h.npages_le
  unfold memInit at hx
  obtain ⟨σ₁, hx₁, hx⟩ := bind_eq_ok.1 hx
  obtain ⟨σ₂, hx₂, hx⟩ := bind_eq_ok.1 hx
  obtain ⟨σ₃, hx₃, hx⟩ := bind_eq_ok.1 hx
  obtain ⟨σ₄, hx₄, hx⟩ := bind_eq_ok.1 hx
  unfold memInitMp at hx
  obtain ⟨σ₅, hx₅, hx⟩ := bind_eq_ok.1 hx
  have hlen : UPAGES.toNat + (ROUNDUP (BitVec.ofNat 32 σ.npages * SIZEOF_PAGE)).toNat ≤ 2 ^ 32 := by
    rw [show UPAGES.toNat = 956 * 2 ^ 22 by decide]
    omega
  obtain ⟨free₁, hm₁⟩ := mapRegion_vm h.kernTab (by decide) hplace.pages hlen
    (fun i hi => (fits_user_region (.inl rfl) hpages hi).2.1) hx₁
  obtain ⟨free₂, hm₂⟩ := mapRegion_vm hm₁.tab (by decide) hplace.bootstack (by decide)
    (fun i hi => (fits_kernel_region (by decide) (by decide) hi).2.1) hx₂
  obtain ⟨free₃, hm₃⟩ := mapRegion_vm hm₂.tab (by decide) (by decide) (by decide)
    (fun i hi => (fits_kernel_region (by decide) (by decide) hi).2.1) hx₃
  obtain ⟨free₄, hm₄⟩ := mapRegion_vm hm₃.tab (by decide) hplace.envs (by decide)
    (fun i hi => (fits_user_region (.inr rfl) (by decide) hi).2.1) hx₄
  obtain ⟨free₅, hm₅⟩ := mapRegion_vm hm₄.tab (by decide) (by decide) (by decide)
    (fun i hi => (fits_kernel_region (by decide) (by decide) hi).2.1) hx₅
  simp only [kstack_eq] at hx
  obtain ⟨⟨hnp, hk⟩, hvm⟩ := stacks_vm hplace hm₅.tab hx
  refine ⟨⟨?_, ?_⟩, fun v hv => ⟨fun i => (hvm v hv).1 i (List.mem_finRange i), fun hout => ?_⟩⟩
  · rw [hnp, hm₅.npages, hm₄.npages, hm₃.npages, hm₂.npages, hm₁.npages]
    rfl
  · rw [hk, hm₅.kernPgdir, hm₄.kernPgdir, hm₃.kernPgdir, hm₂.kernPgdir, hm₁.kernPgdir]
    rfl
  · rw [(hvm v hv).2 fun i _ => hout i, hm₅.vm v hv, hm₄.vm v hv, hm₃.vm v hv, hm₂.vm v hv,
      hm₁.vm v hv, kernVm_clear σ hv]
    rfl

/-! ## The documented map -/

theorem not_uvpt (h : v.toNat < 957 * 2 ^ 22 ∨ 958 * 2 ^ 22 ≤ v.toNat) : PDX v ≠ PDX UVPT := by
  intro hc
  have hval := val_PDX v
  rw [hc, show (PDX UVPT).val = 957 by decide] at hval
  omega

theorem inRegion_kstack (i : Cpu) : InRegion (kstack i) KSTKSIZE v ↔
    959 * 2 ^ 22 - 2 ^ 15 - i * 2 ^ 16 ≤ v.toNat ∧ v.toNat < 959 * 2 ^ 22 - i * 2 ^ 16 := by
  have hi := i.isLt
  unfold InRegion
  rw [toNat_kstack, show (ROUNDUP KSTKSIZE).toNat = 2 ^ 15 by decide]
  omega

theorem inRegion_io : InRegion IOMEMBASE (-IOMEMBASE) v ↔ 1016 * 2 ^ 22 ≤ v.toNat := by
  have hv := v.isLt
  unfold InRegion
  rw [show IOMEMBASE.toNat =
    1016 * 2 ^ 22 by decide, show (ROUNDUP (-IOMEMBASE)).toNat = 8 * 2 ^ 22 by decide]
  omega

theorem inRegion_phys :
    InRegion KERNBASE (0xFFFFFFFF#32 - KERNBASE) v ↔ 960 * 2 ^ 22 ≤ v.toNat := by
  have hv := v.isLt
  unfold InRegion
  rw [show KERNBASE.toNat = 960 * 2 ^ 22 by decide,
    show (ROUNDUP (0xFFFFFFFF#32 - KERNBASE)).toNat = 64 * 2 ^ 22 by decide]
  omega

theorem inRegion_envs (h : InRegion UENVS (BitVec.ofNat 32 NENV * SIZEOF_ENV) v) :
    955 * 2 ^ 22 ≤ v.toNat ∧ v.toNat < 956 * 2 ^ 22 := by
  unfold InRegion at h
  rw [show UENVS.toNat = 955 * 2 ^ 22 by decide,
    show (ROUNDUP (BitVec.ofNat 32 NENV * SIZEOF_ENV)).toNat = 126976 by decide] at h
  omega

theorem inRegion_pages {np : Nat} (hnp : np * 12 ≤ 2 ^ 22)
    (h : InRegion UPAGES (BitVec.ofNat 32 np * SIZEOF_PAGE) v) :
    956 * 2 ^ 22 ≤ v.toNat ∧ v.toNat < 957 * 2 ^ 22 := by
  have hround := ROUNDUP_pages hnp
  unfold InRegion at h
  rw [show UPAGES.toNat = 956 * 2 ^ 22 by decide] at h
  omega

section
variable {place : Placement} {np : Nat}

theorem not_inRegion_io (h : v.toNat < 1016 * 2 ^ 22) : ¬ InRegion IOMEMBASE (-IOMEMBASE) v := by
  rw [inRegion_io]
  omega

theorem not_inRegion_phys (h : v.toNat < 960 * 2 ^ 22) :
    ¬ InRegion KERNBASE (0xFFFFFFFF#32 - KERNBASE) v := by
  rw [inRegion_phys]
  omega

theorem not_inRegion_envs (h : 956 * 2 ^ 22 ≤ v.toNat) :
    ¬ InRegion UENVS (BitVec.ofNat 32 NENV * SIZEOF_ENV) v := by
  intro hc
  have := inRegion_envs hc
  omega

theorem baseVm_io (h : 1016 * 2 ^ 22 ≤ v.toNat) :
    baseVm place np v = PTE_ADDR (IOMEM_PADDR + (v - IOMEMBASE)) ||| PTE_W ||| PTE_P :=
  if_pos (inRegion_io.2 h)

theorem baseVm_envs (h : InRegion UENVS (BitVec.ofNat 32 NENV * SIZEOF_ENV) v) :
    baseVm place np v = PTE_ADDR (place.envs + (v - UENVS)) ||| PTE_U ||| PTE_P := by
  have hpos := inRegion_envs h
  rw [baseVm, if_neg (not_inRegion_io (by omega)), if_pos h]

theorem baseVm_phys (hlo : 960 * 2 ^ 22 ≤ v.toNat) (hhi : v.toNat < 1016 * 2 ^ 22) :
    baseVm place np v = PTE_ADDR (0 + (v - KERNBASE)) ||| PTE_W ||| PTE_P := by
  rw [baseVm, if_neg (not_inRegion_io hhi), if_neg (not_inRegion_envs (by omega)),
    if_pos (inRegion_phys.2 hlo)]

/-- Below `KERNBASE` the boot stack is where the stack of CPU 0 is. -/
theorem baseVm_low (hlt : v.toNat < 960 * 2 ^ 22)
    (henvs : ¬ InRegion UENVS (BitVec.ofNat 32 NENV * SIZEOF_ENV) v)
    (hstack : ¬ InRegion (kstack 0) KSTKSIZE v) :
    baseVm place np v = if InRegion UPAGES (BitVec.ofNat 32 np * SIZEOF_PAGE) v then
      PTE_ADDR (place.pages + (v - UPAGES)) ||| PTE_U ||| PTE_P else 0 := by
  have hboot : ¬ InRegion (KSTACKTOP - KSTKSIZE) KSTKSIZE v := hstack
  rw [baseVm, if_neg (not_inRegion_io (by omega)), if_neg henvs, if_neg (not_inRegion_phys hlt),
    if_neg hboot]

end

/-- **`mem_init` builds the documented address space.** -/
theorem kernel_space {place : Placement} (h : AllocInit σ free) (hplace : place.Aligned)
    (hroom : 67 ≤ free.length) : ∃ σ', memInit place σ = .ok σ' ∧ KernelSpace place σ' := by
  obtain ⟨σ', free', hx, -, -⟩ := memInit_ok (n := 0) h hroom place
  obtain ⟨⟨hnp, hk⟩, hvm⟩ := memInit_vm h hplace hx
  -- outside the page table of the stacks
  have hstack : ∀ {v : Word}, v.toNat < 958 * 2 ^ 22 ∨ 959 * 2 ^ 22 ≤ v.toNat →
      ∀ i, ¬ InRegion (kstack i) KSTKSIZE v := by
    intro v hv i hin
    rw [inRegion_kstack] at hin
    have := i.isLt
    omega
  have hbase : ∀ {v : Word}, v.toNat < 957 * 2 ^ 22 ∨ 959 * 2 ^ 22 ≤ v.toNat →
      kernVm σ' (pageIx v) = baseVm place σ.npages v := fun hv =>
    (hvm _ (not_uvpt (by omega))).2 (hstack (by omega))
  refine ⟨σ', hx, ?_⟩
  constructor
  case pages =>
    intro v hv
    rw [hnp] at hv
    have hpos := inRegion_pages h.npages_le hv
    apply mmuPhys_of_entry PTE_U hplace.pages (by decide) (by decide)
    rw [hbase (by omega), baseVm_low (by omega) (not_inRegion_envs (by omega))
      (hstack (by omega) 0), if_pos hv]
  case envs =>
    intro v hv
    have hpos := inRegion_envs hv
    apply mmuPhys_of_entry PTE_U hplace.envs (by decide) (by decide)
    rw [hbase (by omega), baseVm_envs hv]
  case stack =>
    intro i v hv
    have hpos := (inRegion_kstack i).1 hv
    have hi := i.isLt
    have halign : PGOFF (kstack i) = 0 := by
      rw [PGOFF_eq_zero, toNat_kstack]
      omega
    exact mmuPhys_of_entry PTE_W (hplace.percpuKstacks i) halign (by decide)
      ((hvm v (not_uvpt (by omega))).1 i hv)
  case phys =>
    intro v hlo hhi
    have hlo' : 960 * 2 ^ 22 ≤ v.toNat := hlo
    have hhi' : v.toNat < 1016 * 2 ^ 22 := hhi
    have hentry : mmuPhys σ' σ'.kernPgdir v = some (0 + (v - KERNBASE)) := by
      apply mmuPhys_of_entry PTE_W (by decide) (by decide) (by decide)
      rw [hbase (by omega), baseVm_phys hlo' hhi']
    rw [hentry]
    exact congrArg some (BitVec.zero_add _)
  case io =>
    intro v hv
    have hv' : 1016 * 2 ^ 22 ≤ v.toNat := hv
    have hentry : mmuPhys σ' σ'.kernPgdir v = some (IOMEM_PADDR + (v - IOMEMBASE)) := by
      apply mmuPhys_of_entry PTE_W (by decide) (by decide) (by decide)
      rw [hbase (by omega), baseVm_io hv']
    have hsame : IOMEMBASE + (v - IOMEMBASE) = v := by
      rw [BitVec.add_comm, BitVec.sub_add_cancel]
    rw [hentry]
    exact congrArg some hsame
  case unmapped =>
    intro v _ hhi huvpt hpages henvs hout
    have hhi' : v.toNat < 960 * 2 ^ 22 := hhi
    rw [hnp] at hpages
    have hzero : kernVm σ' (pageIx v) = 0 := by
      rw [(hvm v huvpt).2 hout, baseVm_low hhi' henvs (hout 0), if_neg hpages]
    rw [mmuPhys_kernVm, hzero]
    exact if_neg not_present_zero

/-- With 16 MB of memory the kernel is linked at `KERNBASE + 0x100000`. -/
theorem kernel_space_pages : ∃ σ', memInit kernPlace pagesPhys = .ok σ' ∧
    mmuPhys σ' σ'.kernPgdir 0xF0100000#32 = some 0x100000#32 := by
  have hplace : kernPlace.Aligned := ⟨by decide, by decide, by decide, by decide⟩
  obtain ⟨σ', hx, hspace⟩ := kernel_space pagesPhys_pageInit.allocInit hplace (by simp)
  exact ⟨σ', hx, hspace.phys _ (by decide) (by decide)⟩

end Jos
