import Jos.BootMap
import Mathlib.Order.CompletePartialOrder

/-!
# Physical memory at boot: `boot_alloc` and `page_init`

Until `page_init` has run, the kernel takes memory with `boot_alloc`, which hands out the pages
above the kernel image one after the other. `page_init` then puts the rest on the free list.

**The state** (`BootMem`). The variables of the page allocator, the static `nextfree` of
`boot_alloc` (zero before its first call) and the linker's symbol `end`. `npages_basemem` is set by
`i386_detect_memory` and read by no function.

**The free list.** `page_init` first links all pages in order and then patches the links around
page 0, the IO hole, the kernel and the page at `MPENTRY_PADDR`. The base memory is not cut at
`npages_basemem`: the list runs up to the IO hole whatever the machine has (`pageInit_spec`).

**Room.** `boot_alloc` tests a counter that starts at the number of all pages, while its addresses
start above the kernel, so the counter does not bound the address. `BootFits` is the condition
under which a sequence of calls stays inside memory.

**The counter.** `nAvailPages` and the length of the free list change together, and never agree:
the pages below the kernel's end and the page at `MPENTRY_PADDR` are in one and not in the other.
-/

namespace Jos

open Lib

/-! ## Definitions -/

def IOPHYSMEM : Word := 0x0A0000#32
def EXTPHYSMEM : Word := 0x100000#32
def MPENTRY_PADDR : Word := 0x7000#32

/-- Physical memory, and the variables that only matter during boot. -/
structure BootMem where
  phys : Phys
  npagesBasemem : Nat
  nextfree : Word
  kernEnd : Word

/-- `PADDR`. -/
def paddr (kva : Word) : Except String Word :=
  if kva < KERNBASE then .error "PADDR called with invalid kva" else .ok (kva - KERNBASE)

/-- The first lines of `boot_alloc`: a null `nextfree` has not been set yet. -/
def bootStart (b : BootMem) : BootMem :=
  if b.nextfree = 0 then
    { b with
      phys := { b.phys with nAvailPages := BitVec.ofNat 32 b.phys.npages }
      nextfree := ROUNDUP b.kernEnd }
  else b

/-- The pages that hold `n` bytes. -/
def amountPages (n : Word) : Word :=
  if n % 0x1000#32 ≠ 0 then n / 0x1000#32 + 1 else n / 0x1000#32

/-- `boot_alloc`, with the state after it. -/
def bootAlloc (b : BootMem) (n : Word) : Except String (Word × BootMem) :=
  let b := bootStart b
  if b.phys.nAvailPages < amountPages n then .error "We don't have any available pages"
  else if n ≠ 0 then
    .ok (b.nextfree, { b with
      phys := { b.phys with nAvailPages := b.phys.nAvailPages - amountPages n }
      nextfree := ROUNDUP (b.nextfree + amountPages n * 0x1000#32) })
  else .ok (b.nextfree, b)

def Phys.setRef (σ : Phys) (p : Nat) (r : BitVec 16) : Phys :=
  { σ with ppRef := Function.update σ.ppRef p r }

def Phys.setLink (σ : Phys) (p : Nat) (next : Option Nat) : Phys :=
  { σ with ppLink := Function.update σ.ppLink p next }

/-- The body of the first loop of `page_init`. -/
def linkPage (σ : Phys) (i : Nat) : Phys := (σ.setRef (i - 1) 0).setLink (i - 1) (some i)

/-- `page_init` up to its call of `boot_alloc`: all pages but page 0 are free. -/
def linkPages (σ : Phys) : Phys :=
  let σ := (List.range' 1 (σ.npages - 1)).foldl linkPage { σ with pageFreeList := some 0 }
  let σ := (σ.setRef (σ.npages - 1) 0).setLink (σ.npages - 1) none
  let σ := (σ.setRef 0 1).setLink 0 none
  { σ with pageFreeList := some 1 }

/-- The rest of `page_init`: the used pages are taken out of the list, and chained from page 0. -/
def reservePages (σ : Phys) (nextBootFree : Word) : Phys :=
  let σ := (List.range' (PGNUM EXTPHYSMEM) (PGNUM nextBootFree - PGNUM EXTPHYSMEM)).foldl
    (fun σ i => σ.setRef i 1) σ
  let σ := σ.setLink (PGNUM IOPHYSMEM - 1) (some (PGNUM nextBootFree))
  let σ := σ.setLink (PGNUM nextBootFree - 1) none
  let σ := σ.setLink 0 (some (PGNUM IOPHYSMEM))
  let σ := σ.setLink (PGNUM MPENTRY_PADDR - 1) (some (PGNUM MPENTRY_PADDR + 1))
  let σ := σ.setRef (PGNUM MPENTRY_PADDR) 1
  let σ := σ.setLink (PGNUM MPENTRY_PADDR) none
  let σ := σ.setLink (PGNUM IOPHYSMEM) (some (PGNUM MPENTRY_PADDR))
  { σ with
    nAvailPages := σ.nAvailPages - BitVec.ofNat 32 (1 + (PGNUM EXTPHYSMEM - PGNUM IOPHYSMEM)) }

/-- `page_init`. -/
def pageInit (b : BootMem) : Except String BootMem := do
  let (kva, b) ← bootAlloc { b with phys := linkPages b.phys } 0
  let nextBootFree ← paddr kva
  return { b with phys := reservePages b.phys nextBootFree }

/-- The start of `mem_init`: memory for `kern_pgdir`, `pages` and `envs`, then `page_init`. The
addresses of the last two only matter for the mappings of `memInit`. -/
def memInitAlloc (b : BootMem) : Except String BootMem := do
  let (kernPgdir, b) ← bootAlloc b 0x1000#32
  let pa ← paddr kernPgdir
  let b := { b with phys := { b.phys with kernPgdir := PGNUM pa } }
  let (_, b) ← bootAlloc b (SIZEOF_PAGE * BitVec.ofNat 32 b.phys.npages)
  let (_, b) ← bootAlloc b (SIZEOF_ENV * BitVec.ofNat 32 NENV)
  pageInit b

/-- `next_boot_free` as `page_init` computes it. -/
def nextBootFree (b : BootMem) : Except String Word := do
  let (kva, _) ← bootAlloc b 0
  paddr kva

variable {b b' : BootMem} {nbf : Word}

/-! ## The links of `page_init` -/

section fields

variable (σ : Phys) (p : Nat) (r : BitVec 16) (next : Option Nat)

@[simp] theorem npages_setRef : (σ.setRef p r).npages = σ.npages := rfl
@[simp] theorem npages_setLink : (σ.setLink p next).npages = σ.npages := rfl
@[simp] theorem ppRef_setRef : (σ.setRef p r).ppRef = Function.update σ.ppRef p r := rfl
@[simp] theorem ppRef_setLink : (σ.setLink p next).ppRef = σ.ppRef := rfl
@[simp] theorem ppLink_setRef : (σ.setRef p r).ppLink = σ.ppLink := rfl
@[simp] theorem ppLink_setLink : (σ.setLink p next).ppLink = Function.update σ.ppLink p next := rfl
@[simp] theorem pageFreeList_setRef : (σ.setRef p r).pageFreeList = σ.pageFreeList := rfl
@[simp] theorem pageFreeList_setLink : (σ.setLink p next).pageFreeList = σ.pageFreeList := rfl
@[simp] theorem nAvailPages_setRef : (σ.setRef p r).nAvailPages = σ.nAvailPages := rfl
@[simp] theorem nAvailPages_setLink : (σ.setLink p next).nAvailPages = σ.nAvailPages := rfl
@[simp] theorem kernPgdir_setRef : (σ.setRef p r).kernPgdir = σ.kernPgdir := rfl
@[simp] theorem kernPgdir_setLink : (σ.setLink p next).kernPgdir = σ.kernPgdir := rfl

end fields

theorem update_ite {β : Type} {f g : Nat → β} {P Q : Nat → Prop} [DecidablePred P] [DecidablePred Q]
    {n : Nat} (h : ∀ i, Q i ↔ i = n ∨ P i) :
    Function.update (fun i => if P i then f i else g i) n (f n) =
      fun i => if Q i then f i else g i := by
  funext i
  rcases eq_or_ne i n with rfl | hi
  · rw [Function.update_self, if_pos ((h i).2 (.inl rfl))]
  · simp only [Function.update_of_ne hi, h, hi, false_or]

theorem foldl_linkPage (σ : Phys) (n : Nat) :
    (List.range' 1 n).foldl linkPage σ = { σ with
      ppRef := fun i => if i < n then 0 else σ.ppRef i
      ppLink := fun i => if i < n then some (i + 1) else σ.ppLink i } := by
  induction n with
  | zero => simp
  | succ n ih =>
    have hlt : ∀ i, i < n + 1 ↔ i = n ∨ i < n := fun i => by omega
    rw [List.range'_1_concat, List.foldl_append, ih]
    simp only [List.foldl_cons, List.foldl_nil, linkPage, Phys.setRef, Phys.setLink,
      Nat.add_sub_cancel_left, Phys.mk.injEq, true_and, and_true]
    rw [Nat.add_comm 1 n]
    exact ⟨update_ite (f := fun _ => 0) hlt, update_ite (f := fun i => some (i + 1)) hlt⟩

/-- The second loop marks a range of pages as used. -/
theorem foldl_setRef (σ : Phys) (a n : Nat) (r : BitVec 16) :
    (List.range' a n).foldl (fun σ i => σ.setRef i r) σ = { σ with
      ppRef := fun i => if a ≤ i ∧ i < a + n then r else σ.ppRef i } := by
  induction n with
  | zero =>
    have hno : ∀ i, ¬ (a ≤ i ∧ i < a + 0) := fun i => by omega
    simp only [List.range'_zero, List.foldl_nil, hno, if_false]
  | succ n ih =>
    rw [List.range'_1_concat, List.foldl_append, ih]
    simp only [List.foldl_cons, List.foldl_nil, Phys.setRef, Phys.mk.injEq, true_and, and_true]
    exact update_ite (f := fun _ => r) fun i => by omega

theorem linkPages_spec {σ : Phys} {i : Nat} (h0 : 0 < i) (hi : i < σ.npages) :
    (linkPages σ).ppRef i = 0 ∧
      (linkPages σ).ppLink i = if i + 1 < σ.npages then some (i + 1) else none := by
  have h0 : i ≠ 0 := by omega
  simp only [linkPages, foldl_linkPage, ppRef_setLink, ppRef_setRef, ppLink_setLink, ppLink_setRef,
    Function.update_apply, h0, if_false]
  by_cases hlast : i = σ.npages - 1
  · rw [if_pos hlast, if_pos hlast, if_neg (by omega)]
    exact ⟨rfl, rfl⟩
  · rw [if_neg hlast, if_neg hlast, if_pos (by omega), if_pos (by omega), if_pos (by omega)]
    exact ⟨rfl, rfl⟩
@[simp] theorem PGNUM_IOPHYSMEM : PGNUM IOPHYSMEM = 160 := by decide
@[simp] theorem PGNUM_EXTPHYSMEM : PGNUM EXTPHYSMEM = 256 := by decide
@[simp] theorem PGNUM_MPENTRY_PADDR : PGNUM MPENTRY_PADDR = 7 := by decide

/-- The pages that `page_init` leaves free: base memory up to the IO hole without page 0 and the
page at `MPENTRY_PADDR`, and what lies above the kernel's memory, which ends at page `n`. -/
def freePages (n npages : Nat) : List Nat :=
  List.range' 1 6 ++ (List.range' 8 152 ++ List.range' n (npages - n))

theorem mem_freePages {n npages p : Nat} :
    p ∈ freePages n npages ↔ 1 ≤ p ∧ p < 160 ∧ p ≠ 7 ∨ n ≤ p ∧ p < npages := by
  simp only [freePages, List.mem_append, List.mem_range'_1]
  omega

section reserve

variable {σ : Phys}

theorem ppRef_reservePages {p : Nat} (hp : p ∈ freePages (PGNUM nbf) σ.npages)
    (hlo : 256 < PGNUM nbf) : (reservePages σ nbf).ppRef p = σ.ppRef p := by
  rw [mem_freePages] at hp
  simp only [reservePages, foldl_setRef, ppRef_setLink, ppRef_setRef, PGNUM_EXTPHYSMEM,
    PGNUM_MPENTRY_PADDR]
  rw [Function.update_of_ne (by omega), if_neg (by omega)]

theorem ppLink_reservePages {p : Nat} (hlo : 256 < PGNUM nbf)
    (hp : 1 ≤ p ∧ p < 160 ∧ p ≠ 7 ∨ PGNUM nbf ≤ p) :
    (reservePages σ nbf).ppLink p =
      if p = 6 then some 8 else if p = 159 then some (PGNUM nbf) else σ.ppLink p := by
  simp only [reservePages, foldl_setRef, ppLink_setLink, ppLink_setRef, PGNUM_IOPHYSMEM,
    PGNUM_MPENTRY_PADDR]
  rw [Function.update_of_ne (by omega), Function.update_of_ne (by omega)]
  by_cases h6 : p = 6
  · rw [if_pos h6, h6, Function.update_self]
  rw [if_neg h6, Function.update_of_ne (by omega), Function.update_of_ne (by omega),
    Function.update_of_ne (by omega)]
  by_cases h159 : p = 159
  · rw [if_pos h159, h159, Function.update_self]
  · rw [if_neg h159, Function.update_of_ne (by omega)]

theorem chain_reservePages (hlo : 256 < PGNUM nbf) (hhi : PGNUM nbf < σ.npages)
    (hlink : ∀ i, 0 < i → i < σ.npages →
      σ.ppLink i = if i + 1 < σ.npages then some (i + 1) else none) :
    Chain (reservePages σ nbf).ppLink (some 1) (freePages (PGNUM nbf) σ.npages) := by
  have hnext : ∀ p, 1 ≤ p ∧ p < 160 ∧ p ≠ 7 ∨ PGNUM nbf ≤ p → p ≠ 6 → p ≠ 159 →
      p + 1 < σ.npages → (reservePages σ nbf).ppLink p = some (p + 1) := by
    intro p hp h6 h159 hlt
    rw [ppLink_reservePages hlo hp, if_neg h6, if_neg h159, hlink p (by omega)
      (by omega), if_pos hlt]
  -- The three pieces of the list, from its end.
  have hupper : Chain (reservePages σ nbf).ppLink (some (PGNUM nbf))
      (List.range' (PGNUM nbf) (σ.npages - PGNUM nbf - 1 + 1) ++ []) := by
    apply Chain.segment
    · intro i hi
      exact hnext _ (by omega) (by omega) (by omega) (by omega)
    · rw [ppLink_reservePages hlo (by omega), if_neg (by omega), if_neg (by omega),
        hlink _ (by omega) (by omega), if_neg (by omega)]
      exact .nil
  have hmiddle : Chain (reservePages σ nbf).ppLink (some 8)
      (List.range' 8 (151 + 1) ++ List.range' (PGNUM nbf) (σ.npages - PGNUM nbf)) := by
    apply Chain.segment
    · intro i hi
      exact hnext _ (by omega) (by omega) (by omega) (by omega)
    · rw [ppLink_reservePages hlo (by omega), if_neg (by omega), if_pos rfl]
      rwa [List.append_nil, Nat.sub_add_cancel (by omega)] at hupper
  have hlower : Chain (reservePages σ nbf).ppLink (some 1)
      (List.range' 1 (5 + 1) ++
        (List.range' 8 (151 + 1) ++ List.range' (PGNUM nbf) (σ.npages - PGNUM nbf))) := by
    apply Chain.segment
    · intro i hi
      exact hnext _ (by omega) (by omega) (by omega) (by omega)
    · rwa [ppLink_reservePages hlo (by omega), if_pos rfl]
  exact hlower

end reserve

/-! ## What `page_init` does -/

theorem bootAlloc_zero (b : BootMem) :
    bootAlloc b 0 = .ok ((bootStart b).nextfree, bootStart b) := by
  simp [bootAlloc, amountPages]

@[simp] theorem npages_bootStart (b : BootMem) : (bootStart b).phys.npages = b.phys.npages := by
  unfold bootStart
  split <;> rfl

@[simp] theorem npagesBasemem_bootStart (b : BootMem) :
    (bootStart b).npagesBasemem = b.npagesBasemem := by
  unfold bootStart
  split <;> rfl

@[simp] theorem kernEnd_bootStart (b : BootMem) : (bootStart b).kernEnd = b.kernEnd := by
  unfold bootStart
  split <;> rfl

@[simp] theorem ppLink_bootStart (b : BootMem) : (bootStart b).phys.ppLink = b.phys.ppLink := by
  unfold bootStart
  split <;> rfl

@[simp] theorem ppRef_bootStart (b : BootMem) : (bootStart b).phys.ppRef = b.phys.ppRef := by
  unfold bootStart
  split <;> rfl

@[simp] theorem pageFreeList_bootStart (b : BootMem) :
    (bootStart b).phys.pageFreeList = b.phys.pageFreeList := by
  unfold bootStart
  split <;> rfl

theorem bootStart_of_ne (h : b.nextfree ≠ 0) : bootStart b = b := if_neg h

theorem nextfree_bootStart (b : BootMem) :
    (bootStart b).nextfree = if b.nextfree = 0 then ROUNDUP b.kernEnd else b.nextfree := by
  unfold bootStart
  split <;> rfl

theorem nAvailPages_bootStart (b : BootMem) : (bootStart b).phys.nAvailPages =
    if b.nextfree = 0 then BitVec.ofNat 32 b.phys.npages else b.phys.nAvailPages := by
  unfold bootStart
  split <;> rfl

theorem npages_linkPages (σ : Phys) : (linkPages σ).npages = σ.npages := by
  simp [linkPages, foldl_linkPage]

theorem nAvailPages_linkPages (σ : Phys) : (linkPages σ).nAvailPages = σ.nAvailPages := by
  simp [linkPages, foldl_linkPage]

/-- **The free list that `page_init` builds**, whatever `npages_basemem` is. -/
theorem pageInit_spec (hnbf : nextBootFree b = .ok nbf) (hlo : 256 < PGNUM nbf)
    (hhi : PGNUM nbf < b.phys.npages) :
    ∃ b', pageInit b = .ok b' ∧ b'.npagesBasemem = b.npagesBasemem ∧
      b'.phys.npages = b.phys.npages ∧
      Chain b'.phys.ppLink b'.phys.pageFreeList (freePages (PGNUM nbf) b.phys.npages) ∧
      (∀ p ∈ freePages (PGNUM nbf) b.phys.npages, b'.phys.ppRef p = 0) ∧
      b'.phys.nAvailPages = (bootStart b).phys.nAvailPages - 97#32 := by
  let b₁ : BootMem := bootStart { b with phys := linkPages b.phys }
  have hnp : b₁.phys.npages = b.phys.npages := by rw [npages_bootStart, npages_linkPages]
  have hbm : b₁.npagesBasemem = b.npagesBasemem := npagesBasemem_bootStart _
  have hkva : paddr b₁.nextfree = .ok nbf := by
    simp only [nextBootFree, bootAlloc_zero, ok_bind] at hnbf
    rwa [nextfree_bootStart] at hnbf ⊢
  have hinit : pageInit b = .ok { b₁ with phys := reservePages b₁.phys nbf } := by
    simp only [pageInit, bootAlloc_zero, ok_bind, hkva, pure_eq_ok, b₁]
  have hlinked : ∀ i, 0 < i → i < b₁.phys.npages → b₁.phys.ppRef i = 0 ∧
      b₁.phys.ppLink i = if i + 1 < b₁.phys.npages then some (i + 1) else none := by
    intro i h0 hi
    rw [hnp] at hi ⊢
    rw [ppRef_bootStart, ppLink_bootStart]
    exact linkPages_spec h0 hi
  refine ⟨_, hinit, hbm, ?_, ?_, ?_, ?_⟩
  · simp only [reservePages, foldl_setRef, npages_setLink, npages_setRef, hnp]
  · have hhead : (reservePages b₁.phys nbf).pageFreeList = some 1 := by
      simp only [reservePages, foldl_setRef, pageFreeList_setLink, pageFreeList_setRef]
      rw [pageFreeList_bootStart]
      rfl
    rw [hhead, ← hnp]
    exact chain_reservePages hlo (hnp ▸ hhi) fun i h0 hi => (hlinked i h0 hi).2
  · intro p hp
    have hp' := mem_freePages.1 hp
    rw [ppRef_reservePages (hnp ▸ hp) hlo]
    exact (hlinked p (by omega) (by omega)).1
  · simp only [reservePages, foldl_setRef, nAvailPages_setLink, nAvailPages_setRef, b₁,
      nAvailPages_bootStart, nAvailPages_linkPages, npages_linkPages, PGNUM_EXTPHYSMEM,
      PGNUM_IOPHYSMEM]

/-- The free list as the comment in `page_init` describes it: each page of base memory but page 0
and the page at `MPENTRY_PADDR`, and each page above the kernel's memory, once and unused. -/
def FreeListDocumented (b : BootMem) (nbf : Word) : Prop :=
  ∃ l, Chain b.phys.ppLink b.phys.pageFreeList l ∧ l.Nodup ∧
    (∀ p, p ∈ l ↔ 1 ≤ p ∧ p < b.npagesBasemem ∧ p ≠ PGNUM MPENTRY_PADDR ∨
      PGNUM nbf ≤ p ∧ p < b.phys.npages) ∧
    ∀ p ∈ l, b.phys.ppRef p = 0

/-- **`page_init` builds the documented free list exactly on machines whose base memory reaches
the IO hole.** -/
theorem pageInit_documented_iff (hnbf : nextBootFree b = .ok nbf)
    (hbase : PGNUM MPENTRY_PADDR + 1 < b.npagesBasemem) (hio : b.npagesBasemem ≤ PGNUM IOPHYSMEM)
    (hlo : PGNUM EXTPHYSMEM < PGNUM nbf) (hhi : PGNUM nbf < b.phys.npages) :
    ∃ b', pageInit b = .ok b' ∧
      (FreeListDocumented b' nbf ↔ b.npagesBasemem = PGNUM IOPHYSMEM) := by
  simp only [PGNUM_MPENTRY_PADDR, PGNUM_IOPHYSMEM, PGNUM_EXTPHYSMEM] at hbase hio hlo ⊢
  obtain ⟨b', hinit, hbm, hnp, hchain, href, -⟩ := pageInit_spec hnbf hlo hhi
  refine ⟨b', hinit, fun hdoc => ?_, fun heq => ?_⟩
  · obtain ⟨l, hl, -, hmem, -⟩ := hdoc
    rw [hl.unique hchain] at hmem
    -- The last page below the IO hole is on the list, so it has to be base memory.
    have h159 := (hmem 159).1 (mem_freePages.2 (by omega))
    omega
  · refine ⟨_, hchain, hchain.nodup, fun p => ?_, href⟩
    rw [mem_freePages, hbm, heq, hnp, PGNUM_MPENTRY_PADDR]

/-- A machine of 300 pages whose base memory ends before the IO hole, after the calls of
`boot_alloc`. -/
def smallBoot (npagesBasemem : Nat) : BootMem where
  phys :=
    { npages := 300
      mem := fun _ _ => 0
      ppRef := fun _ => 7
      ppLink := fun _ => none
      pageFreeList := none
      nAvailPages := 267
      kernPgdir := 257
      tlb := [] }
  npagesBasemem := npagesBasemem
  nextfree := 0xF0122000#32
  kernEnd := 0xF0100100#32

theorem pageInit_documented_small :
    ∃ b', pageInit (smallBoot 160) = .ok b' ∧
      (FreeListDocumented b' 0x122000#32 ↔ (smallBoot 160).npagesBasemem = PGNUM IOPHYSMEM) :=
  pageInit_documented_iff (by rfl) (by decide) (by decide) (by decide) (by decide)

/-- With base memory of 159 pages the page below the IO hole is still handed out. -/
theorem pageInit_not_documented :
    PGNUM MPENTRY_PADDR + 1 < (smallBoot 159).npagesBasemem ∧
      (smallBoot 159).npagesBasemem ≤ PGNUM IOPHYSMEM ∧
      nextBootFree (smallBoot 159) = .ok 0x122000#32 ∧
      PGNUM EXTPHYSMEM < PGNUM 0x122000#32 ∧ PGNUM 0x122000#32 < (smallBoot 159).phys.npages ∧
      ∃ b', pageInit (smallBoot 159) = .ok b' ∧ ¬ FreeListDocumented b' 0x122000#32 := by
  refine ⟨by decide, by decide, rfl, by decide, by decide, ?_⟩
  obtain ⟨b', hinit, hbm, -, hchain, -⟩ :=
    pageInit_spec (b := smallBoot 159) rfl (by decide) (by decide)
  refine ⟨b', hinit, ?_⟩
  rintro ⟨l, hl, -, hmem, -⟩
  rw [hl.unique hchain] at hmem
  rcases (hmem 159).1 (by decide) with ⟨-, hlt, -⟩ | ⟨hle, -⟩
  · rw [hbm] at hlt
    exact absurd hlt (by decide)
  · exact absurd hle (by decide)

/-! ## Sequences of calls of `boot_alloc` -/

/-- A call of `boot_alloc` that returned. -/
structure BootCall where
  size : Word
  result : Word
  after : BootMem

/-- The calls of `boot_alloc` for the given sizes, up to the first that panics. -/
def bootAllocs (b : BootMem) : List Word → List BootCall
  | [] => []
  | n :: ns =>
    match bootAlloc b n with
    | .error _ => []
    | .ok (r, b') => ⟨n, r, b'⟩ :: bootAllocs b' ns

/-- The bytes a call hands out. -/
def BootCall.range (c : BootCall) : Set ℕ :=
  Set.Ico c.result.toNat (c.result.toNat + c.size.toNat)

/-- The call returned a page-aligned address of memory above `kernEnd`, and for size 0 the address
that the next call gets. -/
structure BootCall.Ok (kernEnd : Word) (npages : Nat) (c : BootCall) : Prop where
  aligned : c.result.toNat % PGSIZE = 0
  inside : c.range ⊆ Set.Ico kernEnd.toNat (KERNBASE.toNat + npages * PGSIZE)
  next : c.size = 0 → ∀ n r b', n ≠ 0 → bootAlloc c.after n = .ok (r, b') → r = c.result

/-- Every call returned memory of its own. -/
structure BootSafe (kernEnd : Word) (npages : Nat) (calls : List BootCall) : Prop where
  ok : ∀ c ∈ calls, BootCall.Ok kernEnd npages c
  disjoint : calls.Pairwise fun c c' => c.size ≠ 0 → Disjoint c.range c'.range

/-- The address where the first allocation starts, not reduced to 32 bits. -/
def bootBase (kernEnd : Word) : Nat := (kernEnd.toNat + 4095) / 4096 * 4096

/-- The pages that hold `n` bytes. -/
def pagesFor (n : Word) : Nat := (n.toNat + 4095) / 4096

/-- The pages that count as used. When `nextfree` has wrapped around to null, `boot_alloc` starts
again. -/
def bootUsed (base used : Nat) : Nat := if base + 4096 * used = 2 ^ 32 then 0 else used

/-- The calls stay inside memory: until the counter makes one panic, each allocation starts below
`2^32` and ends in memory, `used` pages after `base`. -/
def BootFits (base npages : Nat) : Nat → List Word → Prop
  | _, [] => True
  | used, n :: ns =>
    if n = 0 then BootFits base npages used ns
    else npages < bootUsed base used + pagesFor n ∨
      base + 4096 * used < 2 ^ 32 ∧
        base + 4096 * used + n.toNat ≤ KERNBASE.toNat + npages * PGSIZE ∧
        BootFits base npages (used + pagesFor n) ns

instance decidableBootFits (base npages : Nat) : ∀ (used : Nat) (ns : List Word),
    Decidable (BootFits base npages used ns)
  | _, [] => isTrue trivial
  | used, n :: ns =>
    have := decidableBootFits base npages used ns
    have := decidableBootFits base npages (used + pagesFor n) ns
    inferInstanceAs (Decidable (if n = 0 then _ else _))

theorem toNat_ROUNDUP (a : Word) : (ROUNDUP a).toNat = (a.toNat + 4095) / 4096 * 4096 % 2 ^ 32 := by
  have ha := a.isLt
  have h : (a + 0x1000#32 - 1#32).toNat = (a.toNat + 4095) % 2 ^ 32 := by
    rw [show a + 0x1000#32 - 1#32 = a + 4095#32 by bv_omega, BitVec.toNat_add]
    rfl
  have hdown : (ROUNDUP a).toNat = (a + 0x1000#32 - 1#32).toNat / 4096 * 4096 := toNat_PTE_ADDR _
  rw [hdown, h]
  omega

theorem toNat_amountPages (n : Word) : (amountPages n).toNat = pagesFor n := by
  have hn := n.isLt
  have hdiv : (n / 0x1000#32).toNat = n.toNat / 4096 := by
    rw [BitVec.toNat_udiv]
    rfl
  have hmod : (n % 0x1000#32).toNat = n.toNat % 4096 := by
    rw [BitVec.toNat_umod]
    rfl
  have hzero : n % 0x1000#32 ≠ 0 ↔ n.toNat % 4096 ≠ 0 := by
    rw [← hmod, ← BitVec.toNat_inj.ne]
    rfl
  unfold amountPages pagesFor
  by_cases h : n % 0x1000#32 ≠ 0
  · have h' := hzero.1 h
    rw [if_pos h, BitVec.toNat_add, hdiv, show (1 : Word).toNat = 1 from rfl]
    omega
  · have h' : n.toNat % 4096 = 0 := not_not.1 fun hne => h (hzero.2 hne)
    rw [if_neg h, hdiv]
    omega

theorem pagesFor_pos {n : Word} (h : n ≠ 0) : 0 < pagesFor n := by
  have hn : n.toNat ≠ 0 := fun h0 => h (BitVec.eq_of_toNat_eq h0)
  unfold pagesFor
  omega

/-- Where `boot_alloc` is after `used` pages: its address and its counter, once `nextfree` is set.
-/
structure BootAt (kernEnd : Word) (npages : Nat) (b : BootMem) (used : Nat) : Prop where
  kernEnd_eq : b.kernEnd = kernEnd
  npages_eq : b.phys.npages = npages
  npages_lt : npages < 2 ^ 32
  addr : (bootStart b).nextfree.toNat =
    (bootBase kernEnd + 4096 * bootUsed (bootBase kernEnd) used) % 2 ^ 32
  avail : (bootStart b).phys.nAvailPages.toNat + bootUsed (bootBase kernEnd) used = npages

theorem bootStart_bootStart (b : BootMem) : bootStart (bootStart b) = bootStart b := by
  unfold bootStart
  by_cases h : b.nextfree = 0
  · rw [if_pos h]
    split <;> rfl
  · rw [if_neg h, if_neg h]

section calls

variable {kernEnd n r : Word} {npages used : Nat}

theorem BootAt.init (hnew : b.nextfree = 0) (hnp : b.phys.npages < 2 ^ 32) :
    BootAt b.kernEnd b.phys.npages b 0 := by
  have h0 : bootUsed (bootBase b.kernEnd) 0 = 0 := by simp [bootUsed]
  refine ⟨rfl, rfl, hnp, ?_, ?_⟩
  · rw [nextfree_bootStart, if_pos hnew, toNat_ROUNDUP, h0]
    simp only [bootBase, Nat.mul_zero, Nat.add_zero]
  · rw [nAvailPages_bootStart, if_pos hnew, h0, BitVec.toNat_ofNat, Nat.mod_eq_of_lt hnp,
      Nat.add_zero]

theorem BootAt.aligned (h : BootAt kernEnd npages b used) :
    (bootStart b).nextfree.toNat % 4096 = 0 := by
  rw [h.addr]
  unfold bootBase
  omega

theorem BootAt.start (h : BootAt kernEnd npages b used) :
    BootAt kernEnd npages (bootStart b) used := by
  exact ⟨by rw [kernEnd_bootStart, h.kernEnd_eq], by rw [npages_bootStart, h.npages_eq],
    h.npages_lt, by rw [bootStart_bootStart, h.addr], by rw [bootStart_bootStart, h.avail]⟩

theorem BootAt.panics (h : BootAt kernEnd npages b used)
    (hn : npages < bootUsed (bootBase kernEnd) used + pagesFor n) :
    bootAlloc b n = .error "We don't have any available pages" := by
  have hlt : (bootStart b).phys.nAvailPages < amountPages n := by
    rw [BitVec.lt_def, toNat_amountPages]
    have := h.avail
    omega
  rw [bootAlloc, if_pos hlt]

theorem toNat_nextfree {nextfree : Word} (h : nextfree.toNat % 4096 = 0) (n : Word) :
    (ROUNDUP (nextfree + amountPages n * 0x1000#32)).toNat =
      (nextfree.toNat + 4096 * pagesFor n) % 2 ^ 32 := by
  have hadd : (nextfree + amountPages n * 0x1000#32).toNat =
      (nextfree.toNat + 4096 * pagesFor n) % 2 ^ 32 := by
    rw [BitVec.toNat_add, BitVec.toNat_mul, toNat_amountPages, show (0x1000#32).toNat =
      4096 from rfl]
    omega
  rw [toNat_ROUNDUP, hadd]
  omega

theorem BootAt.returns (h : BootAt kernEnd npages b used) (h0 : n ≠ 0)
    (hn : bootUsed (bootBase kernEnd) used + pagesFor n ≤ npages) :
    ∃ b', bootAlloc b n = .ok ((bootStart b).nextfree, b') ∧
      (bootBase kernEnd + 4096 * used < 2 ^ 32 → BootAt kernEnd npages b' (used + pagesFor n)) := by
  have havail := h.avail
  have hlt : ¬ (bootStart b).phys.nAvailPages < amountPages n := by
    rw [BitVec.lt_def, toNat_amountPages]
    omega
  refine ⟨_, by rw [bootAlloc, if_neg hlt, if_pos h0], fun hpos => ?_⟩
  have hsub : ((bootStart b).phys.nAvailPages - amountPages n).toNat + (used + pagesFor n) =
      npages := by
    have hused : bootUsed (bootBase kernEnd) used = used := by
      rw [bootUsed, if_neg (by omega)]
    rw [BitVec.toNat_sub_of_le (BitVec.not_lt.1 hlt), toNat_amountPages]
    omega
  have hnext : (ROUNDUP ((bootStart b).nextfree + amountPages n * 0x1000#32)).toNat =
      (bootBase kernEnd + 4096 * (used + pagesFor n)) % 2 ^ 32 := by
    have hused : bootUsed (bootBase kernEnd) used = used := by
      rw [bootUsed, if_neg (by omega)]
    rw [toNat_nextfree h.aligned, h.addr, hused]
    omega
  have hbound : pagesFor n ≤ 2 ^ 20 := by
    have := n.isLt
    unfold pagesFor
    omega
  -- The address is null again exactly if it has reached the end of the address space.
  have hnull : ROUNDUP ((bootStart b).nextfree + amountPages n * 0x1000#32) = 0 ↔
      bootBase kernEnd + 4096 * (used + pagesFor n) = 2 ^ 32 := by
    rw [← BitVec.toNat_inj, hnext, show (0 : Word).toNat = 0 from rfl]
    have := pagesFor_pos h0
    unfold bootBase at hpos ⊢
    omega
  have hpre := h.start
  refine ⟨hpre.kernEnd_eq, hpre.npages_eq, h.npages_lt, ?_, ?_⟩
  · rw [nextfree_bootStart]
    simp only [hnull, bootUsed, hpre.kernEnd_eq]
    split
    · simp only [toNat_ROUNDUP, bootBase, Nat.mul_zero, Nat.add_zero]
    · exact hnext
  · rw [nAvailPages_bootStart]
    simp only [hnull, bootUsed, hpre.npages_eq]
    split
    · rw [BitVec.toNat_ofNat, Nat.mod_eq_of_lt h.npages_lt, Nat.add_zero]
    · exact hsub

/-- The earlier calls: their memory ends below the next address, and covers the pages from the
first on. -/
structure BootPast (base used : Nat) (past : List BootCall) : Prop where
  below : ∀ c ∈ past, c.size ≠ 0 → c.result.toNat + c.size.toNat ≤ base + 4096 * used
  covers : ∀ i < used, ∃ c ∈ past, c.size ≠ 0 ∧ base + 4096 * i ∈ c.range

variable {past : List BootCall}

theorem BootPast.init (base : Nat) : BootPast base 0 [] :=
  ⟨fun _ hc => absurd hc List.not_mem_nil, fun _ hi => absurd hi (Nat.not_lt_zero _)⟩

theorem BootPast.skip {base : Nat} (h : BootPast base used past) (r : Word) (b' : BootMem) :
    BootPast base used (past ++ [⟨0, r, b'⟩]) := by
  refine ⟨fun c hc hsize => ?_, fun i hi => ?_⟩
  · rcases List.mem_append.1 hc with hc | hc
    · exact h.below c hc hsize
    · rw [List.mem_singleton.1 hc] at hsize
      exact absurd rfl hsize
  · obtain ⟨c, hc, hcov⟩ := h.covers i hi
    exact ⟨c, List.mem_append_left _ hc, hcov⟩

theorem BootPast.alloc {base : Nat} (h : BootPast base used past) (h0 : n ≠ 0)
    (hr : r.toNat = base + 4096 * used) (b' : BootMem) :
    BootPast base (used + pagesFor n) (past ++ [⟨n, r, b'⟩]) := by
  have hpages : n.toNat ≤ 4096 * pagesFor n ∧ 4096 * pagesFor n < n.toNat + 4096 := by
    unfold pagesFor
    omega
  refine ⟨fun c hc hsize => ?_, fun i hi => ?_⟩
  · rcases List.mem_append.1 hc with hc | hc
    · have := h.below c hc hsize
      omega
    · rw [List.mem_singleton.1 hc]
      show r.toNat + n.toNat ≤ _
      omega
  · by_cases hold : i < used
    · obtain ⟨c, hc, hcov⟩ := h.covers i hold
      exact ⟨c, List.mem_append_left _ hc, hcov⟩
    · refine ⟨⟨n, r, b'⟩, List.mem_append_right _ (List.mem_singleton.2 rfl), h0, ?_, ?_⟩
      · show r.toNat ≤ _
        omega
      · show _ < r.toNat + n.toNat
        omega

/-- After the address has left the 32-bit range, what `boot_alloc` returns is below the kernel's
end or was handed out before. -/
theorem BootPast.wrapped (hpast : BootPast (bootBase kernEnd) used past)
    (h : BootAt kernEnd npages b used) (hend : KERNBASE + EXTPHYSMEM ≤ kernEnd)
    (hpos : 2 ^ 32 ≤ bootBase kernEnd + 4096 * used)
    (hpos' : bootBase kernEnd + 4096 * used < 2 ^ 33) (h0 : n ≠ 0)
    (hin : (BootCall.mk n (bootStart b).nextfree b').range ⊆
      Set.Ico kernEnd.toNat (KERNBASE.toNat + npages * PGSIZE)) :
    ∃ c ∈ past, c.size ≠ 0 ∧
    ¬ Disjoint c.range (BootCall.mk n (bootStart b).nextfree b').range := by
  have hn : n.toNat ≠ 0 := fun hz => h0 (BitVec.eq_of_toNat_eq hz)
  have hfirst : (bootStart b).nextfree.toNat ∈ (BootCall.mk n (bootStart b).nextfree b').range :=
    ⟨le_rfl, Nat.lt_add_of_pos_right (Nat.pos_of_ne_zero hn)⟩
  have hge : kernEnd.toNat ≤ (bootStart b).nextfree.toNat := (hin hfirst).1
  have hlow : (KERNBASE + EXTPHYSMEM).toNat ≤ kernEnd.toNat := hend
  rw [show (KERNBASE + EXTPHYSMEM).toNat = 0xF0100000 by decide] at hlow
  -- The address is that of a page between the first one and the next one.
  obtain ⟨i, hi, haddr⟩ : ∃ i < used, bootBase kernEnd + 4096 * i =
    (bootStart b).nextfree.toNat := by
    have haddr := h.addr
    have hbase : bootBase kernEnd % 4096 = 0 ∧ bootBase kernEnd < kernEnd.toNat + 4096 := by
      unfold bootBase
      omega
    unfold bootUsed at haddr
    split at haddr
    · rw [Nat.mul_zero, Nat.add_zero] at haddr
      refine ⟨0, ?_, ?_⟩ <;> omega
    · refine ⟨used - 2 ^ 20, ?_, ?_⟩ <;> omega
  obtain ⟨c, hc, hsize, hcov⟩ := hpast.covers i hi
  exact ⟨c, hc, hsize, fun hd => Set.disjoint_left.1 hd hcov (haddr ▸ hfirst)⟩

/-- The calls are safe, also with respect to the earlier ones. -/
def SafeAfter (kernEnd : Word) (npages : Nat) (past calls : List BootCall) : Prop :=
  BootSafe kernEnd npages calls ∧
    ∀ c ∈ past, ∀ c' ∈ calls, c.size ≠ 0 → Disjoint c.range c'.range

theorem safeAfter_nil (kernEnd : Word) (npages : Nat) (past : List BootCall) :
    SafeAfter kernEnd npages past [] :=
  ⟨⟨fun _ hc => absurd hc List.not_mem_nil, List.Pairwise.nil⟩,
    fun _ _ _ hc => absurd hc List.not_mem_nil⟩

theorem safeAfter_cons {c : BootCall} {calls : List BootCall} :
    SafeAfter kernEnd npages past (c :: calls) ↔
      BootCall.Ok kernEnd npages c ∧ (∀ p ∈ past, p.size ≠ 0 → Disjoint p.range c.range) ∧
        SafeAfter kernEnd npages (past ++ [c]) calls := by
  constructor
  · rintro ⟨⟨hok, hd⟩, hpast⟩
    rw [List.pairwise_cons] at hd
    refine ⟨hok c List.mem_cons_self, fun p hp => hpast p hp c List.mem_cons_self,
      ⟨fun c' hc' => hok c' (List.mem_cons_of_mem c hc'), hd.2⟩, fun p hp c' hc' => ?_⟩
    rcases List.mem_append.1 hp with hp | hp
    · exact hpast p hp c' (List.mem_cons_of_mem c hc')
    · rw [List.mem_singleton.1 hp]
      exact hd.1 c' hc'
  · rintro ⟨hc, hdc, ⟨hok, hd⟩, hpast⟩
    refine ⟨⟨List.forall_mem_cons.2 ⟨hc, hok⟩, List.pairwise_cons.2 ⟨fun c' hc' => ?_, hd⟩⟩,
      fun p hp => List.forall_mem_cons.2 ⟨hdc p hp, fun c' hc' => ?_⟩⟩
    · exact hpast c (List.mem_append_right _ (List.mem_singleton.2 rfl)) c' hc'
    · exact hpast p (List.mem_append_left _ hp) c' hc'

theorem bootAlloc_result (h : bootAlloc b n = .ok (r, b')) : r = (bootStart b).nextfree := by
  unfold bootAlloc at h
  dsimp only at h
  split_ifs at h <;> cases h <;> rfl

theorem BootAt.callOk_zero (h : BootAt kernEnd npages b used) :
    BootCall.Ok kernEnd npages ⟨0, (bootStart b).nextfree, bootStart b⟩ := by
  refine ⟨h.aligned, ?_, fun _ n r b' _ hcall => ?_⟩
  · have hempty : (BootCall.mk 0 (bootStart b).nextfree (bootStart b)).range = ∅ := Set.Ico_self _
    rw [hempty]
    exact Set.empty_subset _
  · rw [bootAlloc_result hcall, bootStart_bootStart]

theorem BootAt.toNat_nextfree (h : BootAt kernEnd npages b used)
    (hpos : bootBase kernEnd + 4096 * used < 2 ^ 32) :
    (bootStart b).nextfree.toNat = bootBase kernEnd + 4096 * used := by
  have hused : bootUsed (bootBase kernEnd) used = used := by rw [bootUsed, if_neg (by omega)]
  rw [h.addr, hused, Nat.mod_eq_of_lt hpos]

theorem BootAt.callOk_iff (h : BootAt kernEnd npages b used) (h0 : n ≠ 0)
    (hpos : bootBase kernEnd + 4096 * used < 2 ^ 32) (b' : BootMem) :
    BootCall.Ok kernEnd npages ⟨n, (bootStart b).nextfree, b'⟩ ↔
      bootBase kernEnd + 4096 * used + n.toNat ≤ KERNBASE.toNat + npages * PGSIZE := by
  have hn : 0 < n.toNat := Nat.pos_of_ne_zero fun hz => h0 (BitVec.eq_of_toNat_eq hz)
  have hrange : (BootCall.mk n (bootStart b).nextfree b').range = Set.Ico
      (bootBase kernEnd + 4096 * used) (bootBase kernEnd + 4096 * used + n.toNat) := by
    rw [← h.toNat_nextfree hpos]
    rfl
  constructor
  · intro hok
    have hin := hok.inside
    rw [hrange, Set.Ico_subset_Ico_iff (by omega)] at hin
    exact hin.2
  · intro hle
    refine ⟨h.aligned, ?_, fun hz => absurd hz h0⟩
    rw [hrange]
    apply Set.Ico_subset_Ico _ hle
    unfold bootBase
    omega

theorem BootPast.disjoint {c : BootCall} {base : Nat} (hpast : BootPast base used past)
    (hc : base + 4096 * used ≤ c.result.toNat) :
    ∀ p ∈ past, p.size ≠ 0 → Disjoint p.range c.range := by
  intro p hp hsize
  have hbelow := hpast.below p hp hsize
  refine Set.disjoint_left.2 fun a ha ha' => ?_
  exact absurd (ha.2.trans_le (hbelow.trans hc)) (Nat.not_lt.2 ha'.1)

/-- **Calls from any point of a run are safe exactly if they fit.** -/
theorem BootAt.safe_iff (hend : KERNBASE + EXTPHYSMEM ≤ kernEnd) (h : BootAt kernEnd npages b used)
    (hpast : BootPast (bootBase kernEnd) used past)
    (hpos : bootBase kernEnd + 4096 * used < 2 ^ 33) (ns : List Word) :
    SafeAfter kernEnd npages past (bootAllocs b ns) ↔
      BootFits (bootBase kernEnd) npages used ns := by
  induction ns generalizing b used past with
  | nil => exact iff_of_true (safeAfter_nil kernEnd npages past) trivial
  | cons n ns ih =>
    by_cases h0 : n = 0
    · subst h0
      have hstep : bootAllocs b (0 :: ns) =
          ⟨0, (bootStart b).nextfree, bootStart b⟩ :: bootAllocs (bootStart b) ns := by
        rw [bootAllocs, bootAlloc_zero]
      have hempty : (BootCall.mk 0 (bootStart b).nextfree (bootStart b)).range = ∅ := Set.Ico_self _
      have hrest := ih h.start (hpast.skip (bootStart b).nextfree (bootStart b)) hpos
      rw [hstep, safeAfter_cons, BootFits, if_pos rfl, ← hrest]
      exact ⟨fun hs => hs.2.2, fun hs => ⟨h.callOk_zero,
        fun p _ _ => hempty ▸ Set.disjoint_empty p.range, hs⟩⟩
    · by_cases hroom : npages < bootUsed (bootBase kernEnd) used + pagesFor n
      · have hstop : bootAllocs b (n :: ns) = [] := by rw [bootAllocs, h.panics hroom]
        rw [hstop, BootFits, if_neg h0]
        exact iff_of_true (safeAfter_nil kernEnd npages past) (.inl hroom)
      · obtain ⟨b', hcall, hnext⟩ := h.returns h0 (Nat.not_lt.1 hroom)
        have hstep : bootAllocs b (n :: ns) =
            ⟨n, (bootStart b).nextfree, b'⟩ :: bootAllocs b' ns := by
          rw [bootAllocs, hcall]
        rw [hstep, safeAfter_cons, BootFits, if_neg h0, or_iff_right hroom]
        by_cases hlt : bootBase kernEnd + 4096 * used < 2 ^ 32
        · have hr := h.toNat_nextfree hlt
          have hbound : pagesFor n ≤ 2 ^ 20 := by
            have := n.isLt
            unfold pagesFor
            omega
          rw [h.callOk_iff h0 hlt b', ← ih (hnext hlt) (hpast.alloc h0 hr b') (by omega)]
          exact ⟨fun hs => ⟨hlt, hs.1, hs.2.2⟩, fun hs => ⟨hs.2.1, hpast.disjoint hr.ge, hs.2.2⟩⟩
        · -- The address has wrapped around, and this call returns memory in use.
          refine iff_of_false (fun hs => ?_) fun hs => hlt hs.1
          obtain ⟨c, hc, hsize, hover⟩ :=
            hpast.wrapped h hend (Nat.not_lt.1 hlt) hpos h0 hs.1.inside
          exact hover (hs.2.1 c hc hsize)

end calls

/-- **A sequence of calls of `boot_alloc` hands out memory that exists, each piece once, exactly if
it fits above the kernel.** -/
theorem bootAlloc_safe_iff (hnew : b.nextfree = 0) (hend : KERNBASE + EXTPHYSMEM ≤ b.kernEnd)
    (hnp : b.phys.npages < 2 ^ 32) (ns : List Word) :
    BootSafe b.kernEnd b.phys.npages (bootAllocs b ns) ↔
      BootFits (bootBase b.kernEnd) b.phys.npages 0 ns := by
  have hpos : bootBase b.kernEnd + 4096 * 0 < 2 ^ 33 := by
    have := b.kernEnd.isLt
    unfold bootBase
    omega
  rw [← BootAt.safe_iff hend (BootAt.init hnew hnp) (BootPast.init _) hpos ns]
  exact ⟨fun hs => ⟨hs, fun _ hc => absurd hc List.not_mem_nil⟩, fun hs => hs.1⟩

/-- The same machine before the first call of `boot_alloc`. -/
def newBoot : BootMem := { smallBoot 160 with nextfree := 0 }

theorem bootAlloc_safe_small :
    BootSafe newBoot.kernEnd newBoot.phys.npages (bootAllocs newBoot [4096, 0, 3600, 126976]) ↔
      BootFits (bootBase newBoot.kernEnd) newBoot.phys.npages 0 [4096, 0, 3600, 126976] :=
  bootAlloc_safe_iff rfl (by decide) (by decide) _

/-- 100 pages are handed out 257 pages above the start of 300 pages. -/
theorem bootAlloc_beyond_memory :
    newBoot.nextfree = 0 ∧ KERNBASE + EXTPHYSMEM ≤ newBoot.kernEnd ∧ newBoot.phys.npages < 2 ^ 32 ∧
      ¬ BootSafe newBoot.kernEnd newBoot.phys.npages (bootAllocs newBoot [409600]) := by
  refine ⟨rfl, by decide, by decide, fun hs => ?_⟩
  obtain ⟨c, hc, hr⟩ : ∃ c ∈ bootAllocs newBoot [409600],
      c.result = 0xF0101000#32 ∧ c.size = 409600#32 := ⟨_, List.mem_singleton.2 rfl, by decide, rfl⟩
  have hlast : 0xF0101000 + 409599 ∈ c.range := by
    constructor <;> simp [hr.1, hr.2]
  have hin := ((hs.ok c hc).inside hlast).2
  revert hin
  decide

/-! ## The counter of free pages -/

/-- Runs of the allocator from `σ`; `out` are the pages allocated and not freed since. -/
inductive AllocRun (σ : Phys) : List Nat → Phys → Prop
  | start : AllocRun σ [] σ
  | alloc {out : List Nat} {σ₁ σ₂ : Phys} {zero : Bool} {p : Nat} (h : AllocRun σ out σ₁)
      (hp : pageAlloc σ₁ zero = (some p, σ₂)) : AllocRun σ (p :: out) σ₂
  | fail {out : List Nat} {σ₁ σ₂ : Phys} {zero : Bool} (h : AllocRun σ out σ₁)
      (hp : pageAlloc σ₁ zero = (none, σ₂)) : AllocRun σ out σ₂
  | free {out : List Nat} {σ₁ : Phys} {p : Nat} (h : AllocRun σ out σ₁) (hp : p ∈ out) :
      AllocRun σ (out.erase p) (pageFree σ₁ p)

/-- The counter is `d` more than the pages on the list, and the pages given out are not on it. -/
structure Counts (d : Word) (σ : Phys) (free out : List Nat) : Prop where
  chain : Chain σ.ppLink σ.pageFreeList free
  count : σ.nAvailPages = BitVec.ofNat 32 free.length + d
  bound : ∀ p ∈ free ++ out, p < σ.npages
  nodup : out.Nodup
  apart : ∀ p ∈ out, p ∉ free

section counter

variable {σ σ' : Phys} {free out : List Nat} {d : Word} {p : Nat}

theorem Counts.alloc (h : Counts d σ free out) {zero : Bool}
    (hp : pageAlloc σ zero = (some p, σ')) :
    ∃ free', Counts d σ' free' (p :: out) := by
  cases hhead : σ.pageFreeList with
  | none =>
    rw [pageAlloc, hhead] at hp
    cases congrArg Prod.fst hp
  | some q =>
    obtain ⟨free', rfl, -⟩ := (hhead ▸ h.chain).pop
    rw [pageAlloc, hhead] at hp
    obtain ⟨hq, rfl⟩ := Prod.mk.inj hp
    obtain rfl : q = p := Option.some.inj hq
    have hq : q ∉ free' := (List.nodup_cons.1 h.chain.nodup).1
    refine ⟨free', (hhead ▸ h.chain).pop_update none, ?_, ?_, ?_, ?_⟩
    · show σ.nAvailPages - 1 = _
      rw [h.count, List.length_cons, BitVec.ofNat_add]
      bv_omega
    · intro x hx
      refine h.bound x ?_
      simp only [List.mem_append, List.mem_cons] at hx ⊢
      tauto
    · exact List.nodup_cons.2 ⟨fun hout => h.apart q hout List.mem_cons_self, h.nodup⟩
    · intro x hx
      rcases List.mem_cons.1 hx with rfl | hx
      · exact hq
      · exact fun hf => h.apart x hx (List.mem_cons_of_mem q hf)

theorem Counts.pageFree (h : Counts d σ free out) (hp : p ∈ out) :
    Counts d (pageFree σ p) (p :: free) (out.erase p) := by
  have hlt : p < σ.npages := h.bound p (List.mem_append_right _ hp)
  have hguard : ¬ σ.npages ≤ PGNUM (page2pa p) := by
    rw [toNat_PGNUM, page2pa, BitVec.toNat_shiftLeft, BitVec.toNat_ofNat, Nat.shiftLeft_eq]
    omega
  rw [Jos.pageFree, if_neg hguard]
  refine ⟨h.chain.push (h.apart p hp), ?_, ?_, h.nodup.erase p, ?_⟩
  · show σ.nAvailPages + 1 = _
    rw [h.count, List.length_cons, BitVec.ofNat_add]
    bv_omega
  · intro x hx
    refine h.bound x ?_
    simp only [List.mem_append, List.mem_cons] at hx ⊢
    rcases hx with (rfl | hx) | hx
    · exact .inr hp
    · exact .inl hx
    · exact .inr (List.mem_of_mem_erase hx)
  · intro x hx hfree
    rcases List.mem_cons.1 hfree with rfl | hfree
    · exact (h.nodup.mem_erase_iff.1 hx).1 rfl
    · exact h.apart x (List.mem_of_mem_erase hx) hfree

/-- **The counter and the list change together.** -/
theorem AllocRun.counts (hrun : AllocRun σ out σ') (h : Counts d σ free []) :
    ∃ free', Counts d σ' free' out := by
  induction hrun with
  | start => exact ⟨free, h⟩
  | alloc _ hp ih =>
    obtain ⟨free', h'⟩ := ih
    exact h'.alloc hp
  | @fail out σ₁ σ₂ zero _ hp ih =>
    have hsame : σ₂ = σ₁ := by
      unfold pageAlloc at hp
      split at hp
      · exact (congrArg Prod.snd hp).symm
      · cases congrArg Prod.fst hp
    exact hsame ▸ ih
  | free _ hp ih =>
    obtain ⟨free', h'⟩ := ih
    exact ⟨_, h'.pageFree hp⟩

end counter

/-- The next address and the counter, in pages, add up to where the first allocation starts and
all of memory. -/
structure BootCount (b : BootMem) : Prop where
  aligned : (bootStart b).nextfree.toNat % 4096 = 0
  sum : (PGNUM (bootStart b).nextfree + (bootStart b).phys.nAvailPages.toNat) % 2 ^ 20 =
    (PGNUM (ROUNDUP b.kernEnd) + b.phys.npages) % 2 ^ 20

theorem BootCount.of_nextfree_eq_zero (h : b.nextfree = 0) : BootCount b := by
  refine ⟨?_, ?_⟩
  · rw [nextfree_bootStart, if_pos h, toNat_ROUNDUP]
    omega
  · rw [nextfree_bootStart, nAvailPages_bootStart, if_pos h, if_pos h, BitVec.toNat_ofNat]
    omega

theorem BootCount.bootStart (h : BootCount b) : BootCount (bootStart b) :=
  ⟨by rw [bootStart_bootStart, h.aligned],
    by rw [bootStart_bootStart, h.sum, kernEnd_bootStart, npages_bootStart]⟩

/-- A call of `boot_alloc` moves pages from the counter to the address. -/
theorem BootCount.bootAlloc {n r : Word} (h : BootCount b) (hcall : bootAlloc b n = .ok (r, b')) :
    BootCount b' := by
  unfold Jos.bootAlloc at hcall
  dsimp only at hcall
  split_ifs at hcall with hfull h0
  · cases hcall
    by_cases hnull : ROUNDUP ((Jos.bootStart b).nextfree + amountPages n * 0x1000#32) = 0
    · exact .of_nextfree_eq_zero hnull
    · have hnext := toNat_nextfree h.aligned n
      have hsub : ((Jos.bootStart b).phys.nAvailPages - amountPages n).toNat + pagesFor n =
          (Jos.bootStart b).phys.nAvailPages.toNat := by
        have hle := BitVec.not_lt.1 hfull
        rw [BitVec.toNat_sub_of_le hle, toNat_amountPages]
        rw [BitVec.le_def, toNat_amountPages] at hle
        omega
      have hal := h.aligned
      have hsum := h.sum
      refine ⟨?_, ?_⟩
      · rw [bootStart_of_ne hnull, hnext]
        omega
      · rw [bootStart_of_ne hnull]
        simp only [kernEnd_bootStart, npages_bootStart]
        rw [toNat_PGNUM] at hsum ⊢
        rw [hnext]
        omega
  · cases hcall
    exact h.bootStart

theorem bootAlloc_frame {n r : Word} (hcall : bootAlloc b n = .ok (r, b')) :
    b'.kernEnd = b.kernEnd ∧ b'.phys.npages = b.phys.npages := by
  unfold bootAlloc at hcall
  dsimp only at hcall
  split_ifs at hcall <;> cases hcall <;> exact ⟨kernEnd_bootStart b, npages_bootStart b⟩

theorem nextBootFree_pageInit (h : pageInit b = .ok b') : nextBootFree b' = nextBootFree b := by
  simp only [pageInit, bootAlloc_zero, ok_bind] at h
  obtain ⟨pa, hpa, hb'⟩ := bind_eq_ok.1 h
  have hnext : b'.nextfree = (bootStart b).nextfree := by
    rw [← Except.ok.inj hb', nextfree_bootStart, nextfree_bootStart]
  have hend : b'.kernEnd = b.kernEnd := by rw [← Except.ok.inj hb', kernEnd_bootStart]
  have hsame : (bootStart b').nextfree = (bootStart b).nextfree := by
    rw [nextfree_bootStart b', hnext, hend, nextfree_bootStart b]
    split_ifs <;> rfl
  simp only [nextBootFree, bootAlloc_zero, ok_bind, hsame]

theorem npages_pageInit (h : pageInit b = .ok b') : b'.phys.npages = b.phys.npages := by
  simp only [pageInit, bootAlloc_zero, ok_bind] at h
  obtain ⟨pa, -, hb'⟩ := bind_eq_ok.1 h
  rw [← Except.ok.inj hb']
  simp only [reservePages, foldl_setRef, npages_setLink, npages_setRef, npages_bootStart,
    npages_linkPages]

theorem length_freePages {n npages : Nat} (h : n < npages) :
    (freePages n npages).length + n = 158 + npages := by
  simp only [freePages, List.length_append, List.length_range']
  omega

theorem PGNUM_paddr {kva pa : Word} (h : paddr kva = .ok pa) : PGNUM pa + 0xF0000 = PGNUM kva := by
  unfold paddr at h
  split_ifs at h with hlt
  have hle := BitVec.not_lt.1 hlt
  rw [← Except.ok.inj h, toNat_PGNUM, toNat_PGNUM, BitVec.toNat_sub_of_le hle]
  rw [BitVec.le_def] at hle
  rw [show KERNBASE.toNat = 0xF0000000 by decide] at hle ⊢
  omega

/-- The first allocation is above the IO hole, if the address does not wrap around. -/
theorem PGNUM_ROUNDUP_kernEnd {kernEnd : Word} (h : KERNBASE + EXTPHYSMEM ≤ kernEnd) :
    PGNUM (ROUNDUP kernEnd) = 0 ∨
      0xF0100 ≤ PGNUM (ROUNDUP kernEnd) ∧ PGNUM (ROUNDUP kernEnd) < 2 ^ 20 := by
  have hlow : (KERNBASE + EXTPHYSMEM).toNat ≤ kernEnd.toNat := h
  rw [show (KERNBASE + EXTPHYSMEM).toNat = 0xF0100000 by decide] at hlow
  have hlt := kernEnd.isLt
  rw [toNat_PGNUM, toNat_ROUNDUP]
  omega

/-- After `page_init` the counter is off by the pages between the IO hole and the first allocation,
less the hole, page 0 and the page at `MPENTRY_PADDR`. -/
theorem pageInit_counts (h : BootCount b) (hend : KERNBASE + EXTPHYSMEM ≤ b.kernEnd)
    (hnbf : nextBootFree b = .ok nbf) (hlo : 256 < PGNUM nbf) (hhi : PGNUM nbf < b.phys.npages) :
    ∃ b' d, pageInit b = .ok b' ∧ d ≠ 0 ∧
      Counts d b'.phys (freePages (PGNUM nbf) b.phys.npages) [] := by
  obtain ⟨b', hinit, -, hnp, hchain, -, hav⟩ := pageInit_spec hnbf hlo hhi
  refine ⟨b', b'.phys.nAvailPages -
    BitVec.ofNat 32 (freePages (PGNUM nbf) b.phys.npages).length, hinit, ?_, hchain, ?_, ?_,
    List.nodup_nil, fun _ hp => absurd hp List.not_mem_nil⟩
  · intro hzero
    have hlen := length_freePages hhi
    have hcount : (bootStart b).phys.nAvailPages.toNat =
        ((freePages (PGNUM nbf) b.phys.npages).length + 97) % 2 ^ 32 := by
      rw [hav] at hzero
      have heq : (bootStart b).phys.nAvailPages =
          BitVec.ofNat 32 (freePages (PGNUM nbf) b.phys.npages).length + 97#32 := by bv_omega
      rw [heq, BitVec.toNat_add, BitVec.toNat_ofNat, show (97#32).toNat = 97 from rfl]
      omega
    have hpage : PGNUM nbf + 0xF0000 = PGNUM (bootStart b).nextfree := by
      simp only [nextBootFree, bootAlloc_zero, ok_bind] at hnbf
      exact PGNUM_paddr hnbf
    have hstart := PGNUM_ROUNDUP_kernEnd hend
    have hsum := h.sum
    omega
  · bv_omega
  · intro p hp
    rw [List.append_nil, mem_freePages] at hp
    omega

theorem BootCount.congr (h : BootCount b) (hphys : b'.phys.npages = b.phys.npages)
    (hav : b'.phys.nAvailPages = b.phys.nAvailPages) (hnext : b'.nextfree = b.nextfree)
    (hend : b'.kernEnd = b.kernEnd) : BootCount b' := by
  have hal := h.aligned
  have hsum := h.sum
  rw [nextfree_bootStart] at hal
  rw [nextfree_bootStart, nAvailPages_bootStart] at hsum
  constructor
  · rwa [nextfree_bootStart, hnext, hend]
  · rwa [nextfree_bootStart, nAvailPages_bootStart, hnext, hend, hphys, hav]

/-- The state in which `mem_init` calls `page_init`. -/
theorem memInitAlloc_boot (hnew : b.nextfree = 0) (h : memInitAlloc b = .ok b') :
    ∃ b₁, pageInit b₁ = .ok b' ∧ BootCount b₁ ∧ b₁.kernEnd = b.kernEnd := by
  unfold memInitAlloc at h
  obtain ⟨⟨r₁, b₁⟩, h₁, h⟩ := bind_eq_ok.1 h
  obtain ⟨pa, -, h⟩ := bind_eq_ok.1 h
  obtain ⟨⟨r₂, b₂⟩, h₂, h⟩ := bind_eq_ok.1 h
  obtain ⟨⟨r₃, b₃⟩, h₃, h⟩ := bind_eq_ok.1 h
  have hc₁ : BootCount b₁ := (BootCount.of_nextfree_eq_zero hnew).bootAlloc h₁
  have hc₁' : BootCount { b₁ with phys := { b₁.phys with kernPgdir := PGNUM pa } } :=
    hc₁.congr rfl rfl rfl rfl
  have hc₂ := hc₁'.bootAlloc h₂
  refine ⟨b₃, h, hc₂.bootAlloc h₃, ?_⟩
  exact (bootAlloc_frame h₃).1.trans ((bootAlloc_frame h₂).1.trans (bootAlloc_frame h₁).1)

/-- **`nAvailPages` never is the number of pages on the free list.** -/
theorem nAvailPages_never_counts {σ : Phys} {out : List Nat} (hnew : b.nextfree = 0)
    (hend : KERNBASE + EXTPHYSMEM ≤ b.kernEnd) (hinit : memInitAlloc b = .ok b')
    (hnbf : nextBootFree b' = .ok nbf) (hlo : PGNUM EXTPHYSMEM < PGNUM nbf)
    (hhi : PGNUM nbf < b'.phys.npages) (hrun : AllocRun b'.phys out σ) :
    ∃ l, Chain σ.ppLink σ.pageFreeList l ∧ σ.nAvailPages.toNat ≠ l.length := by
  obtain ⟨b₁, hpage, hcount, hkern⟩ := memInitAlloc_boot hnew hinit
  have hnp : b'.phys.npages = b₁.phys.npages := npages_pageInit hpage
  rw [nextBootFree_pageInit hpage] at hnbf
  rw [PGNUM_EXTPHYSMEM] at hlo
  obtain ⟨b₂, d, hpage', hd, hc⟩ :=
    pageInit_counts hcount (hkern ▸ hend) hnbf hlo (hnp ▸ hhi)
  obtain rfl : b' = b₂ := Except.ok.inj (hpage.symm.trans hpage')
  obtain ⟨free, hfree⟩ := hrun.counts hc
  refine ⟨free, hfree.chain, fun heq => hd ?_⟩
  have hword := hfree.count
  rw [← heq, BitVec.ofNat_toNat, BitVec.setWidth_eq] at hword
  bv_omega

theorem nextBootFree_smallBoot : nextBootFree (smallBoot 160) = .ok 0x122000#32 := rfl

/-- The small machine with the given counter and next address. -/
def smallAfter (avail nextfree : Word) : BootMem :=
  { smallBoot 160 with
    phys := { (smallBoot 160).phys with nAvailPages := avail }
    nextfree := nextfree }

/-- On the small machine, `mem_init` takes 33 pages before `page_init`. -/
theorem memInitAlloc_newBoot : memInitAlloc newBoot = pageInit (smallBoot 160) := by
  have hpgdir : bootAlloc newBoot 0x1000#32 = .ok (0xF0101000#32, smallAfter 299 0xF0102000#32) :=
    rfl
  have hpages : bootAlloc (smallAfter 299 0xF0102000#32) (SIZEOF_PAGE * 300#32) =
      .ok (0xF0102000#32, smallAfter 298 0xF0103000#32) := rfl
  have henvs : bootAlloc (smallAfter 298 0xF0103000#32) (SIZEOF_ENV * BitVec.ofNat 32 NENV) =
      .ok (0xF0103000#32, smallAfter 267 0xF0122000#32) := rfl
  have hpa : paddr 0xF0101000#32 = .ok 0x101000#32 := rfl
  rw [memInitAlloc, hpgdir, ok_bind]
  dsimp only
  rw [hpa, ok_bind]
  have hsame : { smallAfter 299 0xF0102000#32 with
      phys := { (smallAfter 299 0xF0102000#32).phys with kernPgdir := PGNUM 0x101000#32 } } =
      smallAfter 299 0xF0102000#32 := rfl
  rw [hsame, show (smallAfter 299 0xF0102000#32).phys.npages = 300 from rfl, hpages, ok_bind]
  dsimp only
  rw [henvs, ok_bind]
  exact congrArg pageInit (show smallAfter 267 0xF0122000#32 = smallBoot 160 from rfl)

theorem nAvailPages_never_counts_small :
    ∃ b', memInitAlloc newBoot = .ok b' ∧ nextBootFree b' = .ok 0x122000#32 ∧
      ∃ l, Chain b'.phys.ppLink b'.phys.pageFreeList l ∧ b'.phys.nAvailPages.toNat ≠ l.length := by
  obtain ⟨b', hinit, -, hnp, -⟩ :=
    pageInit_spec (b := smallBoot 160) nextBootFree_smallBoot (by decide) (by decide)
  have hnbf : nextBootFree b' = .ok 0x122000#32 := nextBootFree_pageInit hinit
  exact ⟨b', memInitAlloc_newBoot.trans hinit, hnbf, nAvailPages_never_counts
    (b := newBoot) rfl (by decide) (memInitAlloc_newBoot.trans hinit) hnbf (by decide)
    (hnp ▸ by decide) .start⟩

/-- Already after `page_init` the counter says 170 pages and the list has 168. -/
theorem nAvailPages_counts_too_many :
    ∃ b', memInitAlloc newBoot = .ok b' ∧ AllocRun b'.phys [] b'.phys ∧
      ¬ ∃ l, Chain b'.phys.ppLink b'.phys.pageFreeList l ∧
      b'.phys.nAvailPages.toNat = l.length := by
  obtain ⟨b', hinit, -, -, hchain, -, hav⟩ :=
    pageInit_spec (b := smallBoot 160) nextBootFree_smallBoot (by decide) (by decide)
  refine ⟨b', memInitAlloc_newBoot.trans hinit, .start, ?_⟩
  rintro ⟨l, hl, hlen⟩
  have hlist : (freePages (PGNUM 0x122000#32) (smallBoot 160).phys.npages).length +
      PGNUM 0x122000#32 = 158 + 300 := length_freePages (by decide)
  have hcount : ((bootStart (smallBoot 160)).phys.nAvailPages - 97#32).toNat = 170 := by decide
  rw [hl.unique hchain, hav, hcount] at hlen
  rw [← hlen] at hlist
  exact absurd hlist (by decide)

end Jos
