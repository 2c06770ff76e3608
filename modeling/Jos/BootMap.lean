import Jos.EnvOps
import Jos.UserMem

/-!
# The kernel's own address space

`mem_init` builds `kern_pgdir` with `boot_map_region`: the read-only copies of `pages` and `envs`
for the user, the kernel stacks, all of physical memory, and the memory-mapped devices. Every
environment's directory starts as a copy of it.

**The state before.** `page_init` has set up the allocator and `kern_pgdir` is a frame of
`boot_alloc`, so it is not on the free list (`PageInit`). The functions of `mem_init` that only
test (`check_page` and so on) restore what they touch and are left out.

**Invariant** (`DirTab`, and `KernTab` for `kern_pgdir`). The entries of a directory other than the
one at `UVPT` lead to page tables of their own, which are off the free list. `dirVm` is the mapping
they represent, and one step of `boot_map_region` writes one entry of it (`DirTab.mapPage`).
-/

namespace Jos

open Lib

/-! ## Definitions -/

def KSTKSIZE : Word := 0x8000#32
def KSTKGAP : Word := 0x8000#32
def IOMEMBASE : Word := 0xfe000000#32
def IOMEM_PADDR : Word := 0xfe000000#32

/-- `sizeof(struct Page)` and `sizeof(struct Env)`. -/
def SIZEOF_PAGE : Word := 12#32
def SIZEOF_ENV : Word := 124#32

/-- `ROUNDUP(a, PGSIZE)`. -/
def ROUNDUP (a : Word) : Word := ROUNDDOWN (a + 0x1000#32 - 1#32)

/-- `compare_MAX`, true where the source returns -1. -/
def compareMax (v max : Word) (units : Nat) : Bool :=
  (List.range units).any fun i => v + BitVec.ofNat 32 i == max

/-- The entry is written, and a page for the user is made accessible in the directory too. -/
def bootInstallPte (σ : Phys) (pgdir : Nat) (ptep : PtePtr) (va w perm : Word) : Phys :=
  let σ := σ.store ptep w
  if perm &&& PTE_U ≠ 0 ∧ σ.mem pgdir (PDX va) &&& PTE_U = 0 then
    σ.store (pgdir, PDX va) (σ.mem pgdir (PDX va) ||| PTE_U)
  else σ

/-- The body of the loop of `boot_map_region`, at offset `i`. -/
def bootMapPage (pgdir : Nat) (va pa perm : Word) (σ : Phys) (i : Word) : Except String Phys := do
  match ← pgdirWalk σ pgdir (va + i) true with
  | (none, _) => .error "assertion failed: NIL != ptep"
  | (some ptep, σ) =>
    return bootInstallPte σ pgdir ptep (va + i) (PTE_ADDR (pa + i) ||| perm ||| PTE_P) perm

/-- The offsets `0, PGSIZE, ..` below `size`. -/
def pageOffsets (size : Word) : List Word :=
  (List.range (size.toNat / PGSIZE)).map fun n => BitVec.ofNat 32 (n * PGSIZE)

/-- `boot_map_region`. The loop condition also tests `va` and `pa`, which do not change. -/
def bootMapRegion (σ : Phys) (pgdir : Nat) (va size pa perm : Word) : Except String Phys :=
  if compareMax va 0xFFFFFFFF#32 4 ∨ compareMax pa 0xFFFFFFFF#32 4 then .ok σ
  else (pageOffsets (ROUNDUP size)).foldlM (bootMapPage pgdir va pa perm) σ

/-- The physical addresses of the kernel's data. -/
structure Placement where
  pages : Word
  envs : Word
  bootstack : Word
  percpuKstacks : Cpu → Word

/-- `mem_init_mp`. -/
def memInitMp (place : Placement) (σ : Phys) : Except String Phys := do
  let σ ← bootMapRegion σ σ.kernPgdir IOMEMBASE (-IOMEMBASE) IOMEM_PADDR PTE_W
  (List.finRange 8).foldlM (fun σ (i : Cpu) =>
    let n := BitVec.ofNat 32 i
    bootMapRegion σ σ.kernPgdir (KSTACKTOP - KSTKSIZE * (n + 1) - KSTKGAP * n) KSTKSIZE
      (place.percpuKstacks i) PTE_W) σ

/-- `kern_pgdir` before anything is mapped. -/
def clearKernPgdir (σ : Phys) : Phys :=
  let σ := { σ with mem := Function.update σ.mem σ.kernPgdir fun _ => 0 }
  σ.store (σ.kernPgdir, PDX UVPT) (page2pa σ.kernPgdir ||| PTE_U ||| PTE_P)

/-- The mappings of `mem_init`. -/
def memInit (place : Placement) (σ : Phys) : Except String Phys := do
  let σ := clearKernPgdir σ
  let σ ← bootMapRegion σ σ.kernPgdir UPAGES (BitVec.ofNat 32 σ.npages * SIZEOF_PAGE)
    place.pages PTE_U
  let σ ← bootMapRegion σ σ.kernPgdir (KSTACKTOP - KSTKSIZE) KSTKSIZE place.bootstack PTE_W
  let σ ← bootMapRegion σ σ.kernPgdir KERNBASE (0xFFFFFFFF#32 - KERNBASE) 0 PTE_W
  let σ ← bootMapRegion σ σ.kernPgdir UENVS (BitVec.ofNat 32 NENV * SIZEOF_ENV) place.envs PTE_U
  memInitMp place σ

/-- `i386_detect_memory`: the number of pages, from the two sizes in kilobytes the CMOS has. -/
def i386DetectMemory (baselo extlo : BitVec 16) : Nat :=
  let npagesBasemem := baselo.toNat * 1024 / PGSIZE
  let npagesExtmem := extlo.toNat * 1024 / PGSIZE
  if npagesExtmem ≠ 0 then 0x100000 / PGSIZE + npagesExtmem else npagesBasemem

/-- The allocator after `page_init`, with `kern_pgdir` in use. -/
structure PageInit (σ : Phys) (free : List Nat) : Prop where
  npages : ∃ baselo extlo, σ.npages = i386DetectMemory baselo extlo
  chain : Chain σ.ppLink σ.pageFreeList free
  bound : ∀ p ∈ free, p < σ.npages
  kern_lt : σ.kernPgdir < σ.npages
  kern_free : σ.kernPgdir ∉ free

/-- The same for any number of pages whose `struct Page`s fit into a page table. -/
structure AllocInit (σ : Phys) (free : List Nat) : Prop where
  pages_fit : σ.npages * SIZEOF_PAGE.toNat ≤ PTSIZE.toNat
  chain : Chain σ.ppLink σ.pageFreeList free
  bound : ∀ p ∈ free, p < σ.npages
  kern_lt : σ.kernPgdir < σ.npages
  kern_free : σ.kernPgdir ∉ free

/-! ## The tables of a page directory -/

/-- The entry for a page in the directory `d`, `0` where there is no page table. -/
def dirVm (σ : Phys) (d : Nat) (x : Idx × Idx) : Word :=
  if Present (σ.mem d x.1) then σ.mem (PGNUM (σ.mem d x.1)) x.2 else 0

/-- The page tables of the directory `d` are frames of their own, off the free list. -/
structure DirTab (σ : Phys) (d : Nat) (free : List Nat) : Prop where
  chain : Chain σ.ppLink σ.pageFreeList free
  bound : ∀ p ∈ free, p < σ.npages
  npages_le : σ.npages ≤ 2 ^ 20
  dir_free : d ∉ free
  table : ∀ i, i ≠ PDX UVPT → ∀ t, named (σ.mem d i) = some t → t ∉ free ∧ t ≠ d ∧ t < σ.npages
  table_inj : ∀ i i' t, i ≠ PDX UVPT → i' ≠ PDX UVPT → named (σ.mem d i) = some t →
    named (σ.mem d i') = some t → i = i'

/-- The kernel entry for a page, `0` where there is no page table. -/
def kernVm (σ : Phys) (x : Idx × Idx) : Word :=
  if Present (σ.mem σ.kernPgdir x.1) then σ.mem (PGNUM (σ.mem σ.kernPgdir x.1)) x.2 else 0

structure KernTab (σ : Phys) (free : List Nat) : Prop where
  chain : Chain σ.ppLink σ.pageFreeList free
  bound : ∀ p ∈ free, p < σ.npages
  npages_le : σ.npages ≤ 2 ^ 20
  kern_lt : σ.kernPgdir < σ.npages
  kern_free : σ.kernPgdir ∉ free
  uvpt : σ.mem σ.kernPgdir (PDX UVPT) = page2pa σ.kernPgdir ||| PTE_U ||| PTE_P
  table : ∀ i, i ≠ PDX UVPT → ∀ t, named (σ.mem σ.kernPgdir i) = some t →
    t ∉ free ∧ t ≠ σ.kernPgdir ∧ t < σ.npages
  table_inj : ∀ i i' t, i ≠ PDX UVPT → i' ≠ PDX UVPT → named (σ.mem σ.kernPgdir i) = some t →
    named (σ.mem σ.kernPgdir i') = some t → i = i'

variable {σ σ' : Phys} {d : Nat} {free free' : List Nat} {va pa perm : Word}

theorem i386DetectMemory_le (baselo extlo : BitVec 16) : i386DetectMemory baselo extlo ≤ 16639 := by
  have hb := baselo.isLt
  have he := extlo.isLt
  unfold i386DetectMemory PGSIZE
  simp only
  split
  · omega
  · omega

theorem PageInit.allocInit (h : PageInit σ free) : AllocInit σ free := by
  obtain ⟨baselo, extlo, hn⟩ := h.npages
  have hle := i386DetectMemory_le baselo extlo
  refine ⟨?_, h.chain, h.bound, h.kern_lt, h.kern_free⟩
  rw [show SIZEOF_PAGE.toNat = 12 by decide, show PTSIZE.toNat = 2 ^ 22 by decide]
  omega

theorem AllocInit.npages_le (h : AllocInit σ free) : σ.npages * 12 ≤ 2 ^ 22 := h.pages_fit

theorem AllocInit.kernTab (h : AllocInit σ free) : KernTab (clearKernPgdir σ) free := by
  have hle : σ.npages ≤ 2 ^ 20 := by
    have := h.npages_le
    omega
  have hzero : ∀ i, i ≠ PDX UVPT → (clearKernPgdir σ).mem σ.kernPgdir i = 0 := by
    intro i hi
    simp [clearKernPgdir, Phys.mem_store, hi]
  have huvpt : (clearKernPgdir σ).mem σ.kernPgdir (PDX UVPT) =
      page2pa σ.kernPgdir ||| PTE_U ||| PTE_P := by
    simp [clearKernPgdir, Phys.mem_store]
  have hnone : ∀ i, i ≠ PDX UVPT → ∀ t, named ((clearKernPgdir σ).mem σ.kernPgdir i) ≠ some t := by
    intro i hi t ht
    rw [hzero i hi] at ht
    cases ht
  exact ⟨h.chain, h.bound, hle, h.kern_lt, h.kern_free, huvpt, fun i hi t ht =>
    (hnone i hi t ht).elim,
    fun i i' t hi _ ht _ => (hnone i hi t ht).elim⟩

namespace DirTab

theorem congr (h : DirTab σ d free) (hs : SameAlloc σ σ')
    (hn : ∀ i, i ≠ PDX UVPT → named (σ'.mem d i) = named (σ.mem d i)) : DirTab σ' d free := by
  refine ⟨?_, ?_, ?_, h.dir_free, fun i hi t ht => ?_, fun i i' t hi hi' ht ht' => ?_⟩
  · rw [hs.ppLink, hs.pageFreeList]
    exact h.chain
  · rw [hs.npages]
    exact h.bound
  · rw [hs.npages]
    exact h.npages_le
  · rw [hn i hi] at ht
    rw [hs.npages]
    exact h.table i hi t ht
  · rw [hn i hi] at ht
    rw [hn i' hi'] at ht'
    exact h.table_inj i i' t hi hi' ht ht'

theorem storePte (h : DirTab σ d free) {i : Idx} (hi : i ≠ PDX UVPT) {t : Nat}
    (ht : named (σ.mem d i) = some t) (j : Idx) (w : Word) :
    DirTab (σ.store (t, j) w) d free ∧ (σ.store (t, j) w).mem d = σ.mem d ∧
      ∀ x, x.1 ≠ PDX UVPT → dirVm (σ.store (t, j) w) d x = if x = (i, j) then w
      else dirVm σ d x := by
  have hkd : (σ.store (t, j) w).mem d = σ.mem d :=
    Function.update_of_ne (h.table i hi t ht).2.1.symm _ _
  refine ⟨h.congr (sameAlloc_store σ (t, j) w) (fun i _ => by rw [hkd]), hkd, ?_⟩
  rintro ⟨i', j'⟩ hi'
  unfold dirVm
  rw [hkd]
  by_cases hpr : Present (σ.mem d i')
  · have ht' := named_of_present hpr
    simp only [if_pos hpr, Phys.mem_store]
    by_cases hii : i' = i
    · subst hii
      have heq : PGNUM (σ.mem d i') = t := Option.some.inj (ht'.symm.trans ht)
      simp [heq]
    · have hne : PGNUM (σ.mem d i') ≠ t := by
        rintro rfl
        exact hii (h.table_inj i' i _ hi' hi ht' ht)
      simp [hne, hii]
  · have hii : i' ≠ i := by
      rintro rfl
      rw [named_eq_none.2 hpr] at ht
      cases ht
    simp [hpr, hii]

theorem mem_storePde (σ : Phys) (d : Nat) (i : Idx) (w : Word) :
    (σ.store (d, i) w).mem d = Function.update (σ.mem d) i w :=
  Function.update_self _ _ _

theorem orPde (h : DirTab σ d free) {i : Idx} (hi : i ≠ PDX UVPT) {t : Nat}
    (ht : named (σ.mem d i) = some t) {f : Word} (hf : PTE_ADDR f = 0) :
    DirTab (σ.store (d, i) (σ.mem d i ||| f)) d free ∧
      ∀ x, x.1 ≠ PDX UVPT → dirVm (σ.store (d, i) (σ.mem d i ||| f)) d x = dirVm σ d x := by
  set w := σ.mem d i with hw
  have hpr : Present w := by
    by_contra hc
    rw [named_eq_none.2 hc] at ht
    cases ht
  have hpr' : Present (w ||| f) := present_or.2 (.inl hpr)
  have hpg : PGNUM (w ||| f) = PGNUM w :=
    PGNUM_congr (by rw [PTE_ADDR_or, hf]; exact BitVec.or_zero)
  have hkd := mem_storePde σ d i (w ||| f)
  constructor
  · refine h.congr (sameAlloc_store σ _ _) (fun i' _ => ?_)
    rw [hkd]
    by_cases hii : i' = i
    · subst hii
      rw [Function.update_self, named_of_present hpr', hpg, named_of_present hpr]
    · rw [Function.update_of_ne hii]
  · rintro ⟨i', j'⟩ hi'
    have hread : ∀ i'', i'' ≠ PDX UVPT → Present (σ.mem d i'') →
        (σ.store (d, i) (w ||| f)).mem (PGNUM (σ.mem d i'')) = σ.mem (PGNUM (σ.mem d i'')) :=
      fun i'' hi'' hp => Function.update_of_ne (h.table i'' hi'' _ (named_of_present hp)).2.1 _ _
    unfold dirVm
    rw [hkd]
    by_cases hii : i' = i
    · subst hii
      simp only [Function.update_self, if_pos hpr', hpg]
      rw [hread i' hi' hpr, if_pos hpr]
    · simp only [Function.update_of_ne hii]
      split_ifs with hp
      · rw [hread i' hi' hp]
      · rfl

theorem head_eq {q : Nat} {rest : List Nat} (h : DirTab σ d (q :: rest)) :
    σ.pageFreeList = some q := by
  have hc := h.chain
  generalize σ.pageFreeList = o at hc ⊢
  cases hc
  rfl

theorem newTable {q : Nat} {rest : List Nat} (h : DirTab σ d (q :: rest))
    (habs : ¬ Present (σ.mem d (PDX va))) :
    pgdirWalk σ d va true = .ok (some (q, PTX va), withTable σ d va q) ∧
      DirTab (withTable σ d va q) d rest ∧
      (withTable σ d va q).mem d =
        Function.update (σ.mem d) (PDX va) (page2pa q ||| PTE_P ||| PTE_W) ∧
      (∀ x, x.1 ≠ PDX UVPT → dirVm (withTable σ d va q) d x = dirVm σ d x) ∧
      (∀ p, p ≠ d → p ≠ q → (withTable σ d va q).mem p = σ.mem p) ∧
      (withTable σ d va q).ppRef = Function.update σ.ppRef q 1 := by
  have hhead := h.head_eq
  have hal : pageAlloc σ true = (some q, (pageAlloc σ true).2) := by
    simp [pageAlloc, hhead]
  have hq : q < 2 ^ 20 := lt_of_lt_of_le (h.bound q List.mem_cons_self) h.npages_le
  have hqk : d ≠ q := fun hc => h.dir_free (hc ▸ List.mem_cons_self)
  obtain ⟨hnp, -⟩ := static_withTable σ d va q
  have hkd : (withTable σ d va q).mem d =
      Function.update (σ.mem d) (PDX va) (page2pa q ||| PTE_P ||| PTE_W) := by
    funext i
    by_cases hi' : i = PDX va
    · subst hi'
      rw [Function.update_self, withTable, Phys.mem_store, if_pos ⟨rfl, rfl⟩]
    · rw [Function.update_of_ne hi', mem_withTable hhead hqk i fun hc => hi' hc.2]
  have hnew : named (page2pa q ||| PTE_P ||| PTE_W) = some q := by
    rw [BitVec.or_assoc, BitVec.or_comm PTE_P, ← BitVec.or_assoc]
    exact named_mk hq PTE_ADDR_PTE_W
  have hother : ∀ {i t}, i ≠ PDX UVPT → named (σ.mem d i) = some t → t ≠ q := by
    rintro i t hi' ht rfl
    exact (h.table i hi' t ht).1 List.mem_cons_self
  refine ⟨?_, ⟨?_, ?_, ?_, ?_, fun i hi' t ht => ?_, fun i i' t hi₁ hi₂ h₁ h₂ => ?_⟩, hkd, ?_,
    fun p hpd hpq => ?_, ?_⟩
  · rw [pgdirWalk, if_neg habs, if_neg (by simp), hal]
    rfl
  · have hpop : Chain (Function.update σ.ppLink q none) (σ.ppLink q) rest := by
      have hc := h.chain
      rw [hhead] at hc
      exact hc.pop_update none
    simpa [withTable, pageAlloc, hhead, Phys.store, incRef] using hpop
  · rw [hnp]
    exact fun p hp => h.bound p (List.mem_cons_of_mem q hp)
  · rw [hnp]
    exact h.npages_le
  · exact fun hc => h.dir_free (List.mem_cons_of_mem q hc)
  · rw [hkd] at ht
    rw [hnp]
    by_cases hii : i = PDX va
    · rw [hii, Function.update_self, hnew] at ht
      obtain rfl := Option.some.inj ht
      exact ⟨(List.nodup_cons.1 h.chain.nodup).1, hqk.symm, h.bound _ List.mem_cons_self⟩
    · rw [Function.update_of_ne hii] at ht
      obtain ⟨hf, hk, hlt⟩ := h.table i hi' t ht
      exact ⟨fun hc => hf (List.mem_cons_of_mem q hc), hk, hlt⟩
  · rw [hkd] at h₁ h₂
    by_cases hii : i = PDX va
    · by_cases hii' : i' = PDX va
      · rw [hii, hii']
      · rw [hii, Function.update_self, hnew] at h₁
        rw [Function.update_of_ne hii'] at h₂
        exact (hother hi₂ h₂ (Option.some.inj h₁).symm).elim
    · rw [Function.update_of_ne hii] at h₁
      by_cases hii' : i' = PDX va
      · rw [hii', Function.update_self, hnew] at h₂
        exact (hother hi₁ h₁ (Option.some.inj h₂).symm).elim
      · rw [Function.update_of_ne hii'] at h₂
        exact h.table_inj i i' t hi₁ hi₂ h₁ h₂
  · rintro ⟨i', j'⟩ hi'
    unfold dirVm
    rw [hkd]
    by_cases hii : i' = PDX va
    · subst hii
      have hpr : Present (page2pa q ||| PTE_P ||| PTE_W) := by
        by_contra hc
        rw [named_eq_none.2 hc] at hnew
        cases hnew
      have hpg : PGNUM (page2pa q ||| PTE_P ||| PTE_W) = q :=
        Option.some.inj ((named_of_present hpr).symm.trans hnew)
      simp only [Function.update_self, if_pos hpr, if_neg habs, hpg]
      rw [withTable, Phys.mem_store, if_neg fun hc => hqk hc.1.symm]
      change (pageAlloc σ true).2.mem q j' = 0
      rw [mem_pageAlloc hhead, if_pos ⟨rfl, rfl⟩]
    · simp only [Function.update_of_ne hii]
      split_ifs with hp
      · have ht := named_of_present hp
        exact mem_withTable hhead (hother hi' ht) j' fun hc => (h.table i' hi' _ ht).2.1 hc.1
      · rfl
  · funext i
    exact mem_withTable hhead hpq i fun hc => hpd hc.1
  · simp [withTable, pageAlloc, hhead, Phys.store, incRef]

end DirTab

/-- What mapping one page does: the entry `w` at `va`, and the flags `f` in the directory. A page
that leaves the free list becomes a page table. -/
structure DirMapped (σ σ' : Phys) (d : Nat) (free free' : List Nat) (va w f : Word) : Prop where
  tab : DirTab σ' d free'
  npages : σ'.npages = σ.npages
  kernPgdir : σ'.kernPgdir = σ.kernPgdir
  pde : σ'.mem d = Function.update (σ.mem d) (PDX va) (walkPde (σ.mem d (PDX va)) free ||| f)
  vm : ∀ x, x.1 ≠ PDX UVPT → dirVm σ' d x = if x = (PDX va, PTX va) then w else dirVm σ d x
  frame : ∀ p, p ≠ d → named (σ'.mem d (PDX va)) ≠ some p → σ'.mem p = σ.mem p
  free_eq : free' = if Present (σ.mem d (PDX va)) then free else free.tail
  taken : ∀ p ∈ free, p ∉ free' → named (σ'.mem d (PDX va)) = some p
  ref : ∀ p, σ'.ppRef p = if p ∈ free ∧ p ∉ free' then 1 else σ.ppRef p

theorem DirMapped.free_sub {w f : Word} (hm : DirMapped σ σ' d free free' va w f) :
    free' ⊆ free := by
  rw [hm.free_eq]
  split_ifs
  · exact fun _ hp => hp
  · exact List.tail_subset _

theorem DirMapped.present {w f : Word} (hm : DirMapped σ σ' d free free' va w f) (hw : Present w)
    (hi : PDX va ≠ PDX UVPT) : Present (σ'.mem d (PDX va)) := by
  by_contra hc
  have hvm := hm.vm (PDX va, PTX va) hi
  rw [if_pos rfl, dirVm, if_neg hc] at hvm
  rw [← hvm] at hw
  exact not_present_zero hw

theorem and_PTE_U (w : Word) : w &&& PTE_U = if w.getLsbD 2 then PTE_U else 0 := by
  rw [show PTE_U = BitVec.twoPow 32 2 by decide, BitVec.and_twoPow]
  rfl

theorem or_PTE_U {w : Word} (h : w &&& PTE_U ≠ 0) : w ||| PTE_U = w := by
  have hbit : w.getLsbD 2 = true := by
    by_contra hc
    rw [and_PTE_U, if_neg hc] at h
    exact h rfl
  have hU : w &&& PTE_U = PTE_U := by
    rw [and_PTE_U, if_pos hbit]
  rw [← hU]
  ext i hi
  simp only [BitVec.getElem_or, BitVec.getElem_and]
  cases w[i] <;> simp

theorem DirTab.installPte (h : DirTab σ d free) (hi : PDX va ≠ PDX UVPT) {t : Nat}
    (ht : named (σ.mem d (PDX va)) = some t) (w perm : Word) :
    DirMapped σ (bootInstallPte σ d (t, PTX va) va w perm) d free free va w (perm &&& PTE_U) := by
  obtain ⟨htab, hkd, hvm⟩ := h.storePte hi ht (PTX va) w
  set σ₁ := σ.store (t, PTX va) w with hσ₁
  have hpr : Present (σ.mem d (PDX va)) := by
    by_contra hc
    rw [named_eq_none.2 hc] at ht
    cases ht
  have ht₁ : named (σ₁.mem d (PDX va)) = some t := by
    rw [hkd]
    exact ht
  have hframe : ∀ p, p ≠ t → σ₁.mem p = σ.mem p := fun p hp => Function.update_of_ne hp _ _
  have href : ∀ p, σ.ppRef p = if p ∈ free ∧ p ∉ free then 1 else σ.ppRef p := fun p => by
    rw [if_neg fun hc => hc.2 hc.1]
  unfold bootInstallPte
  simp only [← hσ₁]
  split_ifs with hU
  · obtain ⟨htab₂, hvm₂⟩ := htab.orPde hi ht₁ (f := PTE_U) (by decide)
    have hperm : perm &&& PTE_U = PTE_U := by
      rw [and_PTE_U, if_pos]
      by_contra hc
      rw [and_PTE_U, if_neg hc] at hU
      exact hU.1 rfl
    have hmem : (σ₁.store (d, PDX va) (σ₁.mem d (PDX va) ||| PTE_U)).mem d =
        Function.update (σ.mem d) (PDX va) (σ.mem d (PDX va) ||| PTE_U) := by
      rw [DirTab.mem_storePde, hkd]
    refine ⟨htab₂, rfl, rfl, ?_, fun x hx => ?_, fun p hpd hp => ?_, (if_pos hpr).symm,
      fun _ hp hpn => (hpn hp).elim, href⟩
    · rw [hmem, walkPde_of_present hpr, hperm]
    · exact (hvm₂ x hx).trans (hvm x hx)
    · have hpt : p ≠ t := by
        rintro rfl
        refine hp ?_
        have hpg : PGNUM (σ.mem d (PDX va) ||| PTE_U) = PGNUM (σ.mem d (PDX va)) :=
          PGNUM_congr (by rw [PTE_ADDR_or, show PTE_ADDR PTE_U = 0 by decide]; exact BitVec.or_zero)
        rw [hmem, Function.update_self, named_of_present (present_or.2 (.inl hpr)), hpg,
          ← named_of_present hpr]
        exact ht
      exact (Function.update_of_ne hpd _ _).trans (hframe p hpt)
  · refine ⟨htab, rfl, rfl, ?_, hvm, fun p _ hp => ?_, (if_pos hpr).symm,
      fun _ hp hpn => (hpn hp).elim, href⟩
    · have hsame : σ.mem d (PDX va) ||| (perm &&& PTE_U) = σ.mem d (PDX va) := by
        rw [not_and_or, not_not, hkd] at hU
        rcases hU with hU | hU
        · rw [hU]
          exact BitVec.or_zero
        · rw [and_PTE_U perm]
          split_ifs
          · exact or_PTE_U hU
          · exact BitVec.or_zero
      rw [hkd, walkPde_of_present hpr, hsame, Function.update_eq_self]
    · apply hframe
      rintro rfl
      exact hp ht₁

/-- **One page of `boot_map_region`.** -/
theorem DirTab.mapPage (h : DirTab σ d free) {i : Word} (hi : PDX (va + i) ≠ PDX UVPT)
    (pa perm : Word) :
    (free = [] ∧ ¬ Present (σ.mem d (PDX (va + i))) ∧
        bootMapPage d va pa perm σ i = .error "assertion failed: NIL != ptep") ∨
      ∃ σ' free', bootMapPage d va pa perm σ i = .ok σ' ∧
        DirMapped σ σ' d free free' (va + i) (PTE_ADDR (pa + i) ||| perm ||| PTE_P)
          (perm &&& PTE_U) := by
  by_cases hpr : Present (σ.mem d (PDX (va + i)))
  · have ht := named_of_present hpr
    have hwalk : pgdirWalk σ d (va + i) true =
        .ok (some (PGNUM (σ.mem d (PDX (va + i))), PTX (va + i)), σ) := by
      rw [pgdirWalk, if_pos hpr, pa2page_of_lt (h.table _ hi _ ht).2.2]
      rfl
    refine .inr ⟨_, free, ?_, h.installPte hi ht _ perm⟩
    rw [bootMapPage, hwalk]
    rfl
  · cases free with
    | nil =>
      refine .inl ⟨rfl, hpr, ?_⟩
      have hhead : σ.pageFreeList = none := by
        have hc := h.chain
        generalize σ.pageFreeList = o at hc ⊢
        cases hc
        rfl
      have hwalk : pgdirWalk σ d (va + i) true = .ok (none, σ) := by
        rw [pgdirWalk, if_neg hpr, if_neg (by simp), pageAlloc, hhead]
        rfl
      rw [bootMapPage, hwalk]
      rfl
    | cons q rest =>
      obtain ⟨hwalk, htab, hkd, hvm, hframe, href⟩ := h.newTable hpr
      obtain ⟨hnp, hkp⟩ := static_withTable σ d (va + i) q
      have hq : q < 2 ^ 20 := lt_of_lt_of_le (h.bound q List.mem_cons_self) h.npages_le
      have hqr : q ∉ rest := (List.nodup_cons.1 h.chain.nodup).1
      have ht : named ((withTable σ d (va + i) q).mem d (PDX (va + i))) = some q := by
        rw [hkd, Function.update_self, BitVec.or_assoc, BitVec.or_comm PTE_P, ← BitVec.or_assoc]
        exact named_mk hq PTE_ADDR_PTE_W
      have hpr' : Present ((withTable σ d (va + i) q).mem d (PDX (va + i))) := (named_eq_some ht).1
      have hm := htab.installPte hi ht (PTE_ADDR (pa + i) ||| perm ||| PTE_P) perm
      have hpde := hm.pde
      rw [walkPde_of_present hpr', hkd, Function.update_idem, Function.update_self] at hpde
      -- the entry that `pgdir_walk` has written names the new table, with or without `PTE_U`
      have hnew : named ((bootInstallPte (withTable σ d (va + i) q) d (q, PTX (va + i)) (va + i)
          (PTE_ADDR (pa + i) ||| perm ||| PTE_P) perm).mem d (PDX (va + i))) = some q := by
        have hU : PTE_ADDR (perm &&& PTE_U) = 0 := by
          rw [and_PTE_U]
          split_ifs <;> decide
        have hpg : PGNUM (page2pa q ||| PTE_P ||| PTE_W ||| (perm &&& PTE_U)) =
            PGNUM (page2pa q ||| PTE_P ||| PTE_W) :=
          PGNUM_congr (by rw [PTE_ADDR_or, hU]; exact BitVec.or_zero)
        rw [hkd, Function.update_self] at ht hpr'
        rw [hpde, Function.update_self, named_of_present (present_or.2 (.inl hpr')), hpg,
          ← named_of_present hpr']
        exact ht
      refine .inr ⟨_, rest, ?_, hm.tab, hm.npages.trans hnp, hm.kernPgdir.trans hkp, ?_,
        fun x hx => ?_, fun p hpd hp => ?_, (if_neg hpr).symm, fun p hp hpr => ?_, fun p => ?_⟩
      · rw [bootMapPage, hwalk]
        rfl
      · rw [hpde, walkPde_of_absent hpr]
      · rw [hm.vm x hx, hvm x hx]
      · rw [hm.frame p hpd hp]
        apply hframe p hpd
        rintro rfl
        exact hp hnew
      · rw [(List.mem_cons.1 hp).resolve_right hpr]
        exact hnew
      · rw [hm.ref p, if_neg fun hc => hc.2 hc.1, href]
        by_cases hpq : p = q
        · subst hpq
          rw [Function.update_self, if_pos ⟨List.mem_cons_self, hqr⟩]
        · rw [Function.update_of_ne hpq, if_neg]
          rintro ⟨hp, hpr⟩
          exact hpr ((List.mem_cons.1 hp).resolve_left hpq)

/-! ## The tables of `kern_pgdir` -/

theorem KernTab.dirTab (h : KernTab σ free) : DirTab σ σ.kernPgdir free :=
  ⟨h.chain, h.bound, h.npages_le, h.kern_free, h.table, h.table_inj⟩

/-- What mapping one page in `kern_pgdir` does. -/
structure MappedPage (σ σ' : Phys) (free free' : List Nat) (va w f : Word) : Prop where
  tab : KernTab σ' free'
  npages : σ'.npages = σ.npages
  kernPgdir : σ'.kernPgdir = σ.kernPgdir
  pde : σ'.mem σ.kernPgdir = Function.update (σ.mem σ.kernPgdir) (PDX va)
    (walkPde (σ.mem σ.kernPgdir (PDX va)) free ||| f)
  vm : ∀ x, x.1 ≠ PDX UVPT → kernVm σ' x = if x = (PDX va, PTX va) then w else kernVm σ x
  free_eq : free' = if Present (σ.mem σ.kernPgdir (PDX va)) then free else free.tail

/-- Entries outside `UVPT` keep the invariant of `kern_pgdir`. -/
theorem KernTab.mappedPage {w f : Word} (h : KernTab σ free) (hi : PDX va ≠ PDX UVPT)
    (hm : DirMapped σ σ' σ.kernPgdir free free' va w f) : MappedPage σ σ' free free' va w f := by
  have htab := hm.tab
  have hvm := hm.vm
  rw [← hm.kernPgdir] at htab hvm
  refine ⟨⟨htab.chain, htab.bound, htab.npages_le, ?_, htab.dir_free, ?_, htab.table,
    htab.table_inj⟩, hm.npages, hm.kernPgdir, hm.pde, fun x hx => ?_, hm.free_eq⟩
  · rw [hm.npages, hm.kernPgdir]
    exact h.kern_lt
  · rw [hm.kernPgdir, hm.pde, Function.update_of_ne hi.symm]
    exact h.uvpt
  · have hx' := hvm x hx
    rw [hm.kernPgdir] at hx'
    unfold kernVm
    rw [hm.kernPgdir]
    exact hx'

/-- **One page of `boot_map_region`**, in `kern_pgdir`. -/
theorem KernTab.mapPage (h : KernTab σ free) {i : Word} (hi : PDX (va + i) ≠ PDX UVPT)
    (pa perm : Word) :
    (free = [] ∧ ¬ Present (σ.mem σ.kernPgdir (PDX (va + i))) ∧
        bootMapPage σ.kernPgdir va pa perm σ i = .error "assertion failed: NIL != ptep") ∨
      ∃ σ' free', bootMapPage σ.kernPgdir va pa perm σ i = .ok σ' ∧
        MappedPage σ σ' free free' (va + i) (PTE_ADDR (pa + i) ||| perm ||| PTE_P)
          (perm &&& PTE_U) := by
  rcases h.dirTab.mapPage hi pa perm with hfail | ⟨σ', free', hok, hm⟩
  · exact .inl hfail
  · exact .inr ⟨σ', free', hok, h.mappedPage hi hm⟩

/-! ## What the user may do -/

/-- The parts the user may read. -/
def UserReads (i : Idx) : Prop := i = PDX UPAGES ∨ i = PDX UENVS

instance (i : Idx) : Decidable (UserReads i) := by unfold UserReads; infer_instance

/-- Only the read-only parts are accessible to the user, and nothing in them is writable. -/
structure KernRights (σ : Phys) : Prop where
  user : KernDir σ
  pde_u : ∀ i, i ≠ PDX UVPT → σ.mem σ.kernPgdir i &&& PTE_U ≠ 0 → UserReads i
  pte_w : ∀ i j, UserReads i → kernVm σ (i, j) &&& PTE_W = 0

/-- A page at index `i` may be mapped with `perm`. -/
def MapFits (i : Idx) (perm : Word) : Prop :=
  ¬ i.User ∧ i ≠ PDX UVPT ∧ (UserReads i ∧ perm = PTE_U ∨ ¬ UserReads i ∧ perm = PTE_W)

instance (i : Idx) (perm : Word) : Decidable (MapFits i perm) := by unfold MapFits; infer_instance

theorem PTE_ADDR_and (x : Word) {f : Word} (hf : ~~~0xFFF#32 &&& f = 0) : PTE_ADDR x &&& f = 0 := by
  rw [PTE_ADDR, BitVec.and_assoc, hf]
  exact BitVec.and_zero

theorem page2pa_and (p : Nat) {f : Word} (hf : ~~~0xFFF#32 &&& f = 0) : page2pa p &&& f = 0 := by
  rw [← PTE_ADDR_page2pa]
  exact PTE_ADDR_and _ hf

theorem or_and_zero {v w f : Word} (hv : v &&& f = 0) (hw : w &&& f = 0) : (v ||| w) &&& f = 0 := by
  rw [BitVec.and_or_distrib_right, hv, hw]
  rfl

/-- A fresh directory entry gives the user nothing. -/
theorem walkPde_and_PTE_U {pde : Word} (h : ¬ Present pde) (free : List Nat) :
    walkPde pde free &&& PTE_U = 0 := by
  unfold walkPde
  rw [if_neg h]
  split
  · rfl
  · exact or_and_zero (or_and_zero (page2pa_and _ (by decide)) (by decide)) (by decide)

theorem KernRights.mapped (h : KernRights σ)
    (hm : MappedPage σ σ' free free' va (PTE_ADDR pa ||| perm ||| PTE_P) (perm &&& PTE_U))
    (hfit : MapFits (PDX va) perm) : KernRights σ' := by
  obtain ⟨huser, huvpt, hperm⟩ := hfit
  refine ⟨fun i hi => ?_, fun i hi hU => ?_, fun i j hi => ?_⟩
  · have hne : i ≠ PDX va := by
      rintro rfl
      exact huser hi
    rw [hm.kernPgdir, hm.pde, Function.update_of_ne hne]
    exact h.user i hi
  · rw [hm.kernPgdir, hm.pde] at hU
    by_cases hiv : i = PDX va
    · subst hiv
      rcases hperm with ⟨hr, -⟩ | ⟨-, rfl⟩
      · exact hr
      · rw [Function.update_self, show PTE_W &&& PTE_U = 0 by decide] at hU
        by_cases hpr : Present (σ.mem σ.kernPgdir (PDX va))
        · rw [walkPde_of_present hpr] at hU
          exact h.pde_u _ hi (by simpa using hU)
        · exact (hU (or_and_zero (walkPde_and_PTE_U hpr free) (by decide))).elim
    · rw [Function.update_of_ne hiv] at hU
      exact h.pde_u i hi hU
  · have hne : i ≠ PDX UVPT := by
      rcases hi with rfl | rfl <;> decide
    rw [hm.vm (i, j) hne]
    split_ifs with hx
    · obtain rfl : i = PDX va := congrArg Prod.fst hx
      rcases hperm with ⟨-, rfl⟩ | ⟨hr, -⟩
      · exact or_and_zero (or_and_zero (PTE_ADDR_and _ (by decide)) (by decide)) (by decide)
      · exact (hr hi).elim
    · exact h.pte_w i j hi

/-- A page table that `mem_init` needs: nothing is mapped between `KSTACKTOP` and `KERNBASE`. -/
def NeedsTable (i : Idx) : Prop := ¬ i.User ∧ i ≠ PDX UVPT ∧ i ≠ PDX KSTACKTOP

instance (i : Idx) : Decidable (NeedsTable i) := by unfold NeedsTable; infer_instance

/-- The page tables that do not exist yet. -/
def missingTables (σ : Phys) : ℕ :=
  (Finset.univ.filter fun i : Idx => NeedsTable i ∧ ¬ Present (σ.mem σ.kernPgdir i)).card

/-- A page table is taken from the free list only if it is missing. -/
theorem MappedPage.missingTables_le {w f : Word} (hm : MappedPage σ σ' free free' va w f)
    (hw : Present w) (hi : NeedsTable (PDX va)) {n : ℕ}
    (hroom : missingTables σ + n ≤ free.length) : missingTables σ' + n ≤ free'.length := by
  have hpr' : Present (σ'.mem σ.kernPgdir (PDX va)) := by
    by_contra hc
    have hvm := hm.vm (PDX va, PTX va) hi.2.1
    rw [if_pos rfl, kernVm, hm.kernPgdir, if_neg hc] at hvm
    rw [← hvm] at hw
    exact not_present_zero hw
  unfold missingTables at hroom ⊢
  rw [hm.kernPgdir, hm.free_eq]
  set S := Finset.univ.filter fun i : Idx => NeedsTable i ∧ ¬ Present (σ.mem σ.kernPgdir i) with hS
  have hsub : (Finset.univ.filter fun i : Idx => NeedsTable i ∧ ¬ Present (σ'.mem σ.kernPgdir i)) ⊆
      S.erase (PDX va) := by
    intro i hmem
    obtain ⟨-, hneeds, habs⟩ := Finset.mem_filter.1 hmem
    have hne : i ≠ PDX va := by
      rintro rfl
      exact habs hpr'
    rw [hm.pde, Function.update_of_ne hne] at habs
    exact Finset.mem_erase.2 ⟨hne, Finset.mem_filter.2 ⟨Finset.mem_univ i, hneeds, habs⟩⟩
  have hle := Finset.card_le_card hsub
  split_ifs with hpr
  · have herase := Finset.card_le_card (Finset.erase_subset (PDX va) S)
    omega
  · have hmem : PDX va ∈ S := Finset.mem_filter.2 ⟨Finset.mem_univ _, hi, hpr⟩
    have hpos : 0 < S.card := Finset.card_pos.2 ⟨_, hmem⟩
    rw [Finset.card_erase_of_mem hmem] at hle
    rw [List.length_tail]
    omega

/-! ## `boot_map_region` and `mem_init` -/

/-- The invariant of the construction, from a state with the directory `kd` and `np` pages. -/
structure KernBuilt (kd np : Nat) (σ : Phys) (free : List Nat) : Prop where
  tab : KernTab σ free
  rights : KernRights σ
  kernPgdir : σ.kernPgdir = kd
  npages : σ.npages = np

variable {kd np : Nat} {size : Word}

theorem KernBuilt.mapPage (h : KernBuilt kd np σ free) {i : Word}
    (hfit : MapFits (PDX (va + i)) perm) (pa : Word) :
    (free = [] ∧ (NeedsTable (PDX (va + i)) → missingTables σ ≠ 0) ∧
        bootMapPage kd va pa perm σ i = .error "assertion failed: NIL != ptep") ∨
      ∃ σ' free', bootMapPage kd va pa perm σ i = .ok σ' ∧ KernBuilt kd np σ' free' ∧
        (NeedsTable (PDX (va + i)) →
          ∀ n, missingTables σ + n ≤ free.length → missingTables σ' + n ≤ free'.length) := by
  obtain ⟨htab, hrights, rfl, rfl⟩ := h
  rcases htab.mapPage hfit.2.1 pa perm with ⟨hfree, habs, herr⟩ | ⟨σ', free', hok, hm⟩
  · refine .inl ⟨hfree, fun hneeds hc => ?_, herr⟩
    rw [missingTables, Finset.card_eq_zero, Finset.filter_eq_empty_iff] at hc
    exact hc (Finset.mem_univ _) ⟨hneeds, habs⟩
  · exact .inr ⟨σ', free', hok, ⟨hm.tab, hrights.mapped hm hfit, hm.kernPgdir, hm.npages⟩,
      fun hneeds n => hm.missingTables_le (present_or_PTE_P _) hneeds⟩

/-- **A region** that is mapped. -/
theorem KernBuilt.mapRegion (h : KernBuilt kd np σ free)
    (hfit : ∀ i ∈ pageOffsets (ROUNDUP size), MapFits (PDX (va + i)) perm)
    (hx : bootMapRegion σ kd va size pa perm = .ok σ') : ∃ free', KernBuilt kd np σ' free' := by
  unfold bootMapRegion at hx
  split_ifs at hx
  · exact ⟨free, Except.ok.inj hx ▸ h⟩
  · refine foldlM_invariant (P := fun σ => ∃ free, KernBuilt kd np σ free) ?_ ⟨free, h⟩ hx
    rintro i hi τ τ' ⟨free₁, hτ⟩ hstep
    rcases hτ.mapPage (hfit i hi) pa with ⟨-, -, herr⟩ | ⟨τ₁, free₂, hok, hτ₁, -⟩
    · rw [herr] at hstep
      cases hstep
    · rw [hok] at hstep
      exact ⟨free₂, Except.ok.inj hstep ▸ hτ₁⟩

theorem KernBuilt.mapRegion_ok (h : KernBuilt kd np σ free) {n : ℕ}
    (hroom : missingTables σ + n ≤ free.length)
    (hfit : ∀ i ∈ pageOffsets (ROUNDUP size), MapFits (PDX (va + i)) perm)
    (hneeds : ∀ i ∈ pageOffsets (ROUNDUP size), NeedsTable (PDX (va + i))) (pa : Word) :
    ∃ σ' free', bootMapRegion σ kd va size pa perm = .ok σ' ∧ KernBuilt kd np σ' free' ∧
      missingTables σ' + n ≤ free'.length := by
  unfold bootMapRegion
  split_ifs
  · exact ⟨σ, free, rfl, h, hroom⟩
  · obtain ⟨σ', hok, free', hb, hr⟩ := foldlM_ok (l := pageOffsets (ROUNDUP size))
      (f := bootMapPage kd va pa perm) (b := σ)
      (motive := fun _ τ => ∃ free', KernBuilt kd np τ free' ∧ missingTables τ +
        n ≤ free'.length) (by
        rintro done i τ hi ⟨free₁, hτ, hr⟩
        rcases hτ.mapPage (hfit i hi) pa with ⟨hfree, hne, -⟩ | ⟨τ₁, free₂, hok, hτ₁, hr₁⟩
        · have hpos := hne (hneeds i hi)
          rw [hfree, List.length_nil] at hr
          omega
        · exact ⟨τ₁, hok, free₂, hτ₁, hr₁ (hneeds i hi) n hr⟩) ⟨free, h, hroom⟩
    exact ⟨σ', free', hok, hb, hr⟩

theorem mem_pageOffsets {i : Word} (h : i ∈ pageOffsets size) : i.toNat < size.toNat := by
  obtain ⟨n, hn, rfl⟩ := List.mem_map.1 h
  rw [List.mem_range, PGSIZE] at hn
  have hsize := size.isLt
  rw [BitVec.toNat_ofNat, PGSIZE, Nat.mod_eq_of_lt (by omega)]
  omega

theorem fits_kernel {v : Word} (h : ULIM ≤ v) : MapFits (PDX v) PTE_W := by
  have hge : 958 ≤ (PDX v).val := by
    have hv : ULIM.toNat ≤ v.toNat := h
    rw [show ULIM.toNat = 958 * 2 ^ 22 by decide] at hv
    rw [val_PDX]
    omega
  have hne : ∀ i : Idx, i.val < 958 → PDX v ≠ i := by
    rintro i hi rfl
    omega
  have huser : ¬ (PDX v).User := by
    intro hu
    have hu' : (PDX v).val < (PDX UTOP).val := hu
    rw [show (PDX UTOP).val = 955 by decide] at hu'
    omega
  refine ⟨huser, hne _ (by decide), .inr ⟨?_, rfl⟩⟩
  rintro (hc | hc)
  · exact hne _ (by decide) hc
  · exact hne _ (by decide) hc

theorem fits_kernel_region (hva : ULIM ≤ va) (hsize : va.toNat + (ROUNDUP size).toNat ≤ 2 ^ 32)
    {i : Word} (hi : i ∈ pageOffsets (ROUNDUP size)) : MapFits (PDX (va + i)) PTE_W := by
  have hlt := mem_pageOffsets hi
  apply fits_kernel
  have hva' : ULIM.toNat ≤ va.toNat := hva
  change ULIM.toNat ≤ (va + i).toNat
  rw [BitVec.toNat_add, Nat.mod_eq_of_lt (by omega)]
  omega

/-- Each region lies on one side of the gap above `KSTACKTOP`. -/
theorem needs_region (hva : ULIM ≤ va) (hsize : va.toNat + (ROUNDUP size).toNat ≤ KSTACKTOP.toNat ∨
      KERNBASE ≤ va ∧ va.toNat + (ROUNDUP size).toNat ≤ 2 ^ 32)
    {i : Word} (hi : i ∈ pageOffsets (ROUNDUP size)) : NeedsTable (PDX (va + i)) := by
  have hlt := mem_pageOffsets hi
  have hva' : ULIM.toNat ≤ va.toNat := hva
  have htop : KSTACKTOP.toNat = 959 * 2 ^ 22 := by decide
  have hkern : KERNBASE.toNat = 960 * 2 ^ 22 := by decide
  rw [show ULIM.toNat = 958 * 2 ^ 22 by decide] at hva'
  have hsum : (va + i).toNat = va.toNat + i.toNat := by
    rw [BitVec.toNat_add, Nat.mod_eq_of_lt]
    rcases hsize with hsize | ⟨-, hsize⟩ <;> omega
  have hne : ∀ n, (PDX (va + i)).val ≠ n → ∀ j : Idx, j.val = n → PDX (va + i) ≠ j := by
    rintro n hn j rfl rfl
    exact hn rfl
  have hval := val_PDX (va + i)
  have hfit : MapFits (PDX (va + i)) PTE_W := by
    apply fits_kernel
    change ULIM.toNat ≤ (va + i).toNat
    rw [hsum, show ULIM.toNat = 958 * 2 ^ 22 by decide]
    omega
  refine ⟨hfit.1, hfit.2.1, hne 959 ?_ _ (by decide)⟩
  rcases hsize with hsize | ⟨hge, hsize⟩
  · omega
  · have hge' : KERNBASE.toNat ≤ va.toNat := hge
    omega

theorem fits_user_region (hva : va = UPAGES ∨ va = UENVS) (hsize : (ROUNDUP size).toNat ≤ 2 ^ 22)
    {i : Word} (hi : i ∈ pageOffsets (ROUNDUP size)) : MapFits (PDX (va + i)) PTE_U := by
  have hlt := mem_pageOffsets hi
  have hsame : PDX (va + i) = PDX va := by
    apply Fin.ext
    have hbase : va.toNat = 956 * 2 ^ 22 ∨ va.toNat = 955 * 2 ^ 22 := by
      rcases hva with rfl | rfl
      · exact .inl (by decide)
      · exact .inr (by decide)
    rw [val_PDX, val_PDX, BitVec.toNat_add]
    omega
  rw [hsame]
  rcases hva with rfl | rfl <;> decide

theorem needs_user_region (hva : va = UPAGES ∨ va = UENVS) (hsize : (ROUNDUP size).toNat ≤ 2 ^ 22)
    {i : Word} (hi : i ∈ pageOffsets (ROUNDUP size)) : NeedsTable (PDX (va + i)) := by
  obtain ⟨hu, hne, hr⟩ := fits_user_region hva hsize hi
  refine ⟨hu, hne, ?_⟩
  rcases hr with ⟨hr | hr, -⟩ | ⟨-, hr⟩
  · rw [hr]
    decide
  · rw [hr]
    decide
  · exact absurd hr (by decide)

theorem ROUNDUP_pages {n : Nat} (hn : n * 12 ≤ 2 ^ 22) :
    (ROUNDUP (BitVec.ofNat 32 n * SIZEOF_PAGE)).toNat ≤ 2 ^ 22 := by
  change (PTE_ADDR (BitVec.ofNat 32 n * 12#32 + 0x1000#32 - 1#32)).toNat ≤ 2 ^ 22
  have hval : (BitVec.ofNat 32 n * 12#32 + 0x1000#32 - 1#32).toNat = n * 12 + 4095 := by
    rw [BitVec.toNat_sub, BitVec.toNat_add, BitVec.toNat_mul]
    simp only [BitVec.toNat_ofNat]
    omega
  rw [toNat_PTE_ADDR, hval]
  omega

theorem stack_bounds (i : Cpu) :
    ULIM ≤ KSTACKTOP - KSTKSIZE * (BitVec.ofNat 32 i + 1) - KSTKGAP * BitVec.ofNat 32 i ∧
      (KSTACKTOP - KSTKSIZE * (BitVec.ofNat 32 i + 1) - KSTKGAP * BitVec.ofNat 32 i).toNat +
        (ROUNDUP KSTKSIZE).toNat ≤ KSTACKTOP.toNat := by
  revert i
  decide

theorem AllocInit.built (h : AllocInit σ free) :
    KernBuilt σ.kernPgdir σ.npages (clearKernPgdir σ) free := by
  have hzero : ∀ i, i ≠ PDX UVPT → (clearKernPgdir σ).mem σ.kernPgdir i = 0 := by
    intro i hi
    simp [clearKernPgdir, Phys.mem_store, hi]
  refine ⟨h.kernTab, ⟨fun i hi => ?_, fun i hi hU => ?_, fun i j hi => ?_⟩, rfl, rfl⟩
  · have hne : i ≠ PDX UVPT := by
      rintro rfl
      exact absurd hi (by decide)
    change ¬ Present ((clearKernPgdir σ).mem σ.kernPgdir i)
    rw [hzero i hne]
    exact not_present_zero
  · change (clearKernPgdir σ).mem σ.kernPgdir i &&& PTE_U ≠ 0 at hU
    rw [hzero i hi] at hU
    exact (hU rfl).elim
  · have hne : i ≠ PDX UVPT := by
      rcases hi with rfl | rfl <;> decide
    have habs : ¬ Present ((clearKernPgdir σ).mem (clearKernPgdir σ).kernPgdir i) := by
      change ¬ Present ((clearKernPgdir σ).mem σ.kernPgdir i)
      rw [hzero i hne]
      exact not_present_zero
    rw [kernVm, if_neg habs]
    rfl

theorem KernBuilt.memInitMp {place : Placement} (h : KernBuilt kd np σ free)
    (hx : memInitMp place σ = .ok σ') : ∃ free', KernBuilt kd np σ' free' := by
  unfold Jos.memInitMp at hx
  obtain ⟨σ₁, h₁, hx⟩ := bind_eq_ok.1 hx
  rw [h.kernPgdir] at h₁
  obtain ⟨free₁, hb₁⟩ := h.mapRegion (fun i hi => fits_kernel_region (by decide) (by decide) hi) h₁
  refine foldlM_invariant (P := fun σ => ∃ free, KernBuilt kd np σ free) ?_ ⟨free₁, hb₁⟩ hx
  rintro i - τ τ' ⟨free₂, hτ⟩ hstep
  simp only [hτ.kernPgdir] at hstep
  obtain ⟨hlo, hhi⟩ := stack_bounds i
  have htop := KSTACKTOP.isLt
  exact hτ.mapRegion (fun o ho => fits_kernel_region hlo (by omega) ho) hstep

theorem KernBuilt.memInitMp_ok (h : KernBuilt kd np σ free) {n : ℕ}
    (hroom : missingTables σ + n ≤ free.length) (place : Placement) :
    ∃ σ' free', Jos.memInitMp place σ = .ok σ' ∧ KernBuilt kd np σ' free' ∧ n ≤ free'.length := by
  have hio : ∀ i ∈ pageOffsets (ROUNDUP (-IOMEMBASE)), MapFits (PDX (IOMEMBASE + i)) PTE_W :=
    fun i hi => fits_kernel_region (by decide) (by decide) hi
  obtain ⟨σ₁, free₁, hx₁, h₁, hr₁⟩ := h.mapRegion_ok hroom hio
    (fun i hi => needs_region (by decide) (by decide) hi) IOMEM_PADDR
  let stack : Phys → Cpu → Except String Phys := fun σ i =>
    bootMapRegion σ σ.kernPgdir
      (KSTACKTOP - KSTKSIZE * (BitVec.ofNat 32 i + 1) - KSTKGAP * BitVec.ofNat 32 i) KSTKSIZE
      (place.percpuKstacks i) PTE_W
  obtain ⟨σ', hok, free', hb, hr⟩ := foldlM_ok (l := List.finRange 8) (f := stack) (b := σ₁)
    (motive := fun _ τ => ∃ free', KernBuilt kd np τ free' ∧ missingTables τ + n ≤ free'.length) (by
      rintro done i τ - ⟨free₂, hτ, hr₂⟩
      obtain ⟨hlo, hhi⟩ := stack_bounds i
      have htop := KSTACKTOP.isLt
      obtain ⟨τ', free₃, hx, hτ', hr₃⟩ := hτ.mapRegion_ok hr₂
        (fun o ho => fits_kernel_region hlo (by omega) ho)
        (fun o ho => needs_region hlo (.inl hhi) ho) (place.percpuKstacks i)
      refine ⟨τ', ?_, free₃, hτ', hr₃⟩
      rw [← hτ.kernPgdir] at hx
      exact hx) ⟨free₁, h₁, hr₁⟩
  refine ⟨σ', free', ?_, hb, by omega⟩
  unfold Jos.memInitMp
  rw [h.kernPgdir, hx₁]
  exact hok

/-- **What `mem_init` builds.** -/
theorem memInit_built {place : Placement} (h : AllocInit σ free) (hx : memInit place σ = .ok σ') :
    ∃ free', KernBuilt σ.kernPgdir σ.npages σ' free' := by
  have hpages := ROUNDUP_pages h.npages_le
  unfold memInit at hx
  obtain ⟨σ₁, hx₁, hx⟩ := bind_eq_ok.1 hx
  obtain ⟨σ₂, hx₂, hx⟩ := bind_eq_ok.1 hx
  obtain ⟨σ₃, hx₃, hx⟩ := bind_eq_ok.1 hx
  obtain ⟨σ₄, hx₄, hx⟩ := bind_eq_ok.1 hx
  obtain ⟨free₁, h₁⟩ := h.built.mapRegion (fun i hi => fits_user_region (.inl rfl) hpages hi) hx₁
  rw [h₁.kernPgdir] at hx₂
  obtain ⟨free₂, h₂⟩ := h₁.mapRegion (fun i hi => fits_kernel_region (by decide) (by decide) hi) hx₂
  rw [h₂.kernPgdir] at hx₃
  obtain ⟨free₃, h₃⟩ := h₂.mapRegion (fun i hi => fits_kernel_region (by decide) (by decide) hi) hx₃
  rw [h₃.kernPgdir] at hx₄
  obtain ⟨free₄, h₄⟩ := h₃.mapRegion (fun i hi => fits_user_region (.inr rfl) (by decide) hi) hx₄
  exact h₄.memInitMp hx

theorem missingTables_clear (σ : Phys) : missingTables (clearKernPgdir σ) = 67 := by
  have habs : ∀ i, i ≠ PDX UVPT → ¬ Present ((clearKernPgdir σ).mem σ.kernPgdir i) := by
    intro i hi
    simp [clearKernPgdir, Phys.mem_store, hi]
  have hset : (Finset.univ.filter fun i : Idx => NeedsTable i ∧
      ¬ Present ((clearKernPgdir σ).mem (clearKernPgdir σ).kernPgdir i)) =
        Finset.univ.filter NeedsTable := by
    apply Finset.filter_congr
    intro i _
    exact ⟨fun h => h.1, fun h => ⟨h, habs i h.2.1⟩⟩
  rw [missingTables, hset]
  decide +kernel

/-- With a page for each page table `mem_init` succeeds, and the other pages stay free. -/
theorem memInit_ok (h : AllocInit σ free) {n : ℕ} (hroom : 67 + n ≤ free.length)
    (place : Placement) :
    ∃ σ' free', memInit place σ = .ok σ' ∧ KernBuilt σ.kernPgdir σ.npages σ' free' ∧
      n ≤ free'.length := by
  have hpages := ROUNDUP_pages h.npages_le
  rw [← missingTables_clear σ] at hroom
  obtain ⟨σ₁, free₁, hx₁, h₁, hr₁⟩ := h.built.mapRegion_ok hroom
    (fun i hi => fits_user_region (.inl rfl) hpages hi)
    (fun i hi => needs_user_region (.inl rfl) hpages hi) place.pages
  have hstack : ∀ i ∈ pageOffsets (ROUNDUP KSTKSIZE),
      MapFits (PDX (KSTACKTOP - KSTKSIZE + i)) PTE_W :=
    fun i hi => fits_kernel_region (by decide) (by decide) hi
  obtain ⟨σ₂, free₂, hx₂, h₂, hr₂⟩ := h₁.mapRegion_ok hr₁ hstack
    (fun i hi => needs_region (by decide) (by decide) hi) place.bootstack
  have hphys : ∀ i ∈ pageOffsets (ROUNDUP (0xFFFFFFFF#32 - KERNBASE)),
      MapFits (PDX (KERNBASE + i)) PTE_W :=
    fun i hi => fits_kernel_region (by decide) (by decide) hi
  obtain ⟨σ₃, free₃, hx₃, h₃, hr₃⟩ := h₂.mapRegion_ok hr₂ hphys
    (fun i hi => needs_region (by decide) (by decide) hi) 0
  have henvs : ∀ i ∈ pageOffsets (ROUNDUP (BitVec.ofNat 32 NENV * SIZEOF_ENV)),
      MapFits (PDX (UENVS + i)) PTE_U :=
    fun i hi => fits_user_region (.inr rfl) (by decide) hi
  obtain ⟨σ₄, free₄, hx₄, h₄, hr₄⟩ := h₃.mapRegion_ok hr₃ henvs
    (fun i hi => needs_user_region (.inr rfl) (by decide) hi) place.envs
  obtain ⟨σ₅, free₅, hx₅, h₅, hr₅⟩ := h₄.memInitMp_ok hr₄ place
  refine ⟨σ₅, free₅, ?_, h₅, hr₅⟩
  have hk : (clearKernPgdir σ).kernPgdir = σ.kernPgdir := rfl
  have hnp : (clearKernPgdir σ).npages = σ.npages := rfl
  unfold memInit
  simp only [hk, hnp, hx₁, ok_bind, h₁.kernPgdir, hx₂, h₂.kernPgdir, hx₃, h₃.kernPgdir, hx₄, hx₅]

end Jos
