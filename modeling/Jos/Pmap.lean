import Jos.Mmu

/-!
# Physical pages and page tables

The part of `kern/pmap.c` that runs after `mem_init`: the page allocator, the two-level page
table walk, and the three operations on mappings.

**The state** (`Phys`). Frames hold 1024 words each, and page directories, page tables and
data pages all live in the same frames. `pages[]` is split into its fields. `paddr` is not
one of them: `page_init` sets it to `page2pa` for every page and nothing writes it again.

**Pointers.** A `struct Page *` and a page directory are page numbers (a directory's kernel
address is `KERNBASE` plus its frame). A `pte_t *` is a frame and an index. `NULL` is `none`.

**Panics.** `pa2page` panics on an address beyond `npages`; the functions that may reach it
return `Except String`. `KADDR` is applied only to pages already inside `pages[]`.

`tlb` records the calls of `tlb_invalidate`, the only effect these functions have outside
memory.
-/

namespace Jos

/-- A pointer to a page table or page directory entry. -/
abbrev PtePtr := Nat × Idx

/-- Physical memory and the variables of the page allocator. -/
structure Phys where
  npages : Nat
  mem : Nat → Idx → Word
  ppRef : Nat → BitVec 16
  ppLink : Nat → Option Nat
  pageFreeList : Option Nat
  nAvailPages : Word
  kernPgdir : Nat
  tlb : List (Nat × Word)

namespace Phys

def load (σ : Phys) (p : PtePtr) : Word := σ.mem p.1 p.2

def store (σ : Phys) (p : PtePtr) (w : Word) : Phys :=
  { σ with mem := Function.update σ.mem p.1 (Function.update (σ.mem p.1) p.2 w) }

theorem mem_store (σ : Phys) (p : PtePtr) (w : Word) (f : Nat) (i : Idx) :
    (σ.store p w).mem f i = if f = p.1 ∧ i = p.2 then w else σ.mem f i := by
  by_cases hf : f = p.1
  · subst hf
    by_cases hi : i = p.2 <;> simp [store, hi]
  · simp [store, hf]

end Phys

/-! ## The page allocator -/

/-- `page_alloc`: take the head of the free list. The reference count is the caller's job. -/
def pageAlloc (σ : Phys) (zero : Bool) : Option Nat × Phys :=
  match σ.pageFreeList with
  | none => (none, σ)
  | some pp =>
    (some pp, { σ with
      pageFreeList := σ.ppLink pp
      ppLink := Function.update σ.ppLink pp none
      nAvailPages := σ.nAvailPages - 1
      mem := if zero then Function.update σ.mem pp (fun _ => 0) else σ.mem
      ppRef := Function.update σ.ppRef pp 0 })

/-- `page_free`: push the page on the free list. -/
def pageFree (σ : Phys) (pp : Nat) : Phys :=
  if σ.npages ≤ PGNUM (page2pa pp) then σ
  else { σ with
    ppLink := Function.update σ.ppLink pp σ.pageFreeList
    pageFreeList := some pp
    nAvailPages := σ.nAvailPages + 1 }

/-- `pp->pp_ref++`. -/
def incRef (σ : Phys) (pp : Nat) : Phys :=
  { σ with ppRef := Function.update σ.ppRef pp (σ.ppRef pp + 1) }

/-- `page_decref`: drop a reference, and free the page when none is left. -/
def pageDecref (σ : Phys) (pp : Nat) : Phys :=
  let σ := { σ with ppRef := Function.update σ.ppRef pp (σ.ppRef pp - 1) }
  if σ.ppRef pp = 0 then pageFree σ pp else σ

def pa2page (σ : Phys) (pa : Word) : Except String Nat :=
  if σ.npages ≤ PGNUM pa then .error "pa2page called with invalid pa" else .ok (PGNUM pa)

def tlbInvalidate (σ : Phys) (pgdir : Nat) (va : Word) : Phys :=
  { σ with tlb := (pgdir, va) :: σ.tlb }

/-! ## Walking and changing page tables -/

/-- `pgdir_walk`: the entry for `va`, or `none` if its page table does not exist and is not
to be created or cannot be allocated. -/
def pgdirWalk (σ : Phys) (pgdir : Nat) (va : Word) (create : Bool) :
    Except String (Option PtePtr × Phys) :=
  if Present (σ.mem pgdir (PDX va)) then do
    let pdePg ← pa2page σ (σ.mem pgdir (PDX va))
    return (some (pdePg, PTX va), σ)
  else if create = false then
    return (none, σ)
  else
    match pageAlloc σ true with
    | (none, σ) => return (none, σ)
    | (some pdePg, σ) =>
      let σ := incRef σ pdePg
      let σ := σ.store (pgdir, PDX va) (page2pa pdePg ||| PTE_P ||| PTE_W)
      return (some (pdePg, PTX va), σ)

/-- `page_lookup`: the page mapped at `va` and the entry that maps it. -/
def pageLookup (σ : Phys) (pgdir : Nat) (va : Word) : Except String (Option (Nat × PtePtr)) := do
  match ← pgdirWalk σ pgdir va false with
  | (none, _) => return none
  | (some pte, _) =>
    if Present (σ.load pte) then
      let pp ← pa2page σ (PTE_ADDR (σ.load pte))
      return some (pp, pte)
    else
      return none

/-- The end of `page_remove`, once the entry is found: drop the page's reference and clear the
entry. The TLB entry is invalidated only if the page was freed. -/
def dropPte (σ : Phys) (pgdir : Nat) (va : Word) (pp : Nat) (pte : PtePtr) : Phys :=
  let σ := pageDecref σ pp
  let σ := if σ.ppRef pp = 0 then tlbInvalidate σ pgdir va else σ
  σ.store pte 0

/-- `page_remove`: unmap `va`. -/
def pageRemove (σ : Phys) (pgdir : Nat) (va : Word) : Except String Phys := do
  match ← pageLookup σ pgdir va with
  | none => return σ
  | some (pp, pte) => return dropPte σ pgdir va pp pte

/-- The end of `page_insert`, once the entry is found: the flags are or'ed into the directory
entry, the page mapped so far is removed unless it is `pp`, and the entry is written. -/
def installPte (σ : Phys) (pgdir : Nat) (ptep : PtePtr) (pp : Nat) (va perm : Word) :
    Except String Phys := do
  let σ := σ.store (pgdir, PDX va) (σ.mem pgdir (PDX va) ||| (perm ||| PTE_P))
  let σ ←
    if page2pa pp ≠ PTE_ADDR (σ.load ptep) then
      let σ := incRef σ pp
      if Present (σ.load ptep) then pageRemove σ pgdir va else pure σ
    else pure σ
  return σ.store ptep (page2pa pp ||| perm ||| PTE_P)

/-- `page_insert`: map `pp` at `va` with flags `perm | PTE_P`. -/
def pageInsert (σ : Phys) (pgdir : Nat) (pp : Option Nat) (va perm : Word) :
    Except String (Word × Phys) := do
  match ← pgdirWalk σ pgdir va true with
  | (none, σ) => return (-E_NO_MEM, σ)
  | (some ptep, σ) =>
    match pp with
    | none => return (-E_UNSPECIFIED, σ)
    | some pp => return (0, ← installPte σ pgdir ptep pp va perm)

end Jos
