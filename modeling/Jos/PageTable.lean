import Jos.Pmap
import Jos.Lib.Chain
import Jos.Lib.RefHeap

/-!
# Page tables as reference slots

`dirs` names the live page directories, one per environment that has an address space. Below
`UTOP` each of them holds two kinds of entries, and together with the directory pointers
themselves they are the *slots* of a reference-counted heap (`Lib.RefHeap`):

* `dir e`: the page directory of `e`;
* `pde e i`: the page table named by directory entry `i`;
* `pte e i j`: the page named by entry `j` of that table.

`vm` reads the entries of all address spaces as one finite map, an absent page table being a
table of zeros. The invariant `PInv` says that the allocator's counters and free list are
those of the slots, that no frame serves as two tables, and that an absent entry is zero.

Every primitive step of `kern/pmap.c` is one `take`, `attach` or `detach` on the heap; this
file proves that for each of them, and `Jos.PageOps` composes them into the C functions.
-/

namespace Jos

open Lib

/-! ## The entries of the live address spaces -/

/-- The page an entry names, if it is present. -/
def named (w : Word) : Option Nat := if Present w then some (PGNUM w) else none

@[simp] theorem named_zero : named 0#32 = none := by simp [named]

theorem named_of_present {w : Word} (h : Present w) : named w = some (PGNUM w) := if_pos h

theorem named_eq_none {w : Word} : named w = none ↔ ¬ Present w := by
  unfold named
  split_ifs with h <;> simp [h]

theorem named_eq_some {w : Word} {p : Nat} (h : named w = some p) : Present w ∧ PGNUM w = p := by
  by_cases hpr : Present w
  · rw [named_of_present hpr] at h
    exact ⟨hpr, Option.some.inj h⟩
  · rw [named_eq_none.2 hpr] at h
    cases h

theorem named_mk {pp : Nat} {f : Word} (h : pp < 2 ^ 20) (hf : PTE_ADDR f = 0) :
    named (page2pa pp ||| f ||| PTE_P) = some pp := by
  rw [named_of_present (present_or_PTE_P _), BitVec.or_assoc, PGNUM_page2pa_or h]
  simp [PTE_ADDR_or, hf]

/-- The directory entries below `UTOP`. -/
def pdes (σ : Phys) (dirs : EnvIdx → Option Nat) (x : EnvIdx × Idx) : Word :=
  match dirs x.1 with
  | none => 0
  | some d => if x.2.User then σ.mem d x.2 else 0

/-- The page table entries below `UTOP`; an absent table reads as zeros. -/
def vm (σ : Phys) (dirs : EnvIdx → Option Nat) (x : EnvIdx × Idx × Idx) : Word :=
  if Present (pdes σ dirs (x.1, x.2.1)) then σ.mem (PGNUM (pdes σ dirs (x.1, x.2.1))) x.2.2 else 0

/-- The places a reference to a page is kept. -/
inductive Slot
  | dir (e : EnvIdx)
  | pde (e : EnvIdx) (i : Idx)
  | pte (e : EnvIdx) (i j : Idx)
  deriving DecidableEq, Fintype

/-- What a slot points to. -/
def target (σ : Phys) (dirs : EnvIdx → Option Nat) : Slot → Option Nat
  | .dir e => dirs e
  | .pde e i => named (pdes σ dirs (e, i))
  | .pte e i j => named (vm σ dirs (e, i, j))

/-- The slots whose page holds entries: directories and page tables. -/
def Slot.IsTable : Slot → Prop
  | .dir _ => True
  | .pde _ _ => True
  | .pte _ _ _ => False

/-- No frame serves as two tables. -/
def TableInj (tgt : Slot → Option Nat) : Prop :=
  ∀ s t p, s.IsTable → t.IsTable → tgt s = some p → tgt t = some p → s = t

theorem TableInj.update_none {tgt : Slot → Option Nat} (h : TableInj tgt) (s : Slot) :
    TableInj (Function.update tgt s none) := by
  intro t u p ht hu htp hup
  by_cases hts : t = s
  · subst hts; simp at htp
  by_cases hus : u = s
  · subst hus; simp at hup
  rw [Function.update_of_ne hts] at htp
  rw [Function.update_of_ne hus] at hup
  exact h t u p ht hu htp hup

theorem TableInj.update_pte {tgt : Slot → Option Nat} (h : TableInj tgt) (e : EnvIdx) (i j : Idx)
    (v : Option Nat) : TableInj (Function.update tgt (.pte e i j) v) := by
  intro t u p ht hu htp hup
  have hne : ∀ s : Slot, s.IsTable → s ≠ .pte e i j := by rintro s hs rfl; exact hs
  rw [Function.update_of_ne (hne t ht)] at htp
  rw [Function.update_of_ne (hne u hu)] at hup
  exact h t u p ht hu htp hup

theorem TableInj.update_fresh {tgt : Slot → Option Nat} (h : TableInj tgt) (s : Slot) {p : Nat}
    (hp : ∀ t, tgt t ≠ some p) : TableInj (Function.update tgt s (some p)) := by
  intro t u q ht hu htq huq
  by_cases hts : t = s
  · subst hts
    by_contra hne
    rw [Function.update_self] at htq
    rw [Function.update_of_ne (Ne.symm hne)] at huq
    exact hp u (Option.some.inj htq ▸ huq)
  · rw [Function.update_of_ne hts] at htq
    by_cases hus : u = s
    · subst hus
      rw [Function.update_self] at huq
      exact (hp t (Option.some.inj huq ▸ htq)).elim
    · rw [Function.update_of_ne hus] at huq
      exact h t u q ht hu htq huq

theorem pdes_of_dir {σ : Phys} {dirs : EnvIdx → Option Nat} {e : EnvIdx} {d : Nat} {i : Idx}
    (hd : dirs e = some d) (hi : i.User) : pdes σ dirs (e, i) = σ.mem d i := by
  simp [pdes, hd, hi]

theorem vm_of_present {σ : Phys} {dirs : EnvIdx → Option Nat} {e : EnvIdx} {pt : Nat} {i : Idx}
    (h : target σ dirs (.pde e i) = some pt) (j : Idx) : vm σ dirs (e, i, j) = σ.mem pt j := by
  simp only [target, named] at h
  split_ifs at h with hp
  simp only [Option.some.injEq] at h
  simp [vm, hp, h]

theorem vm_of_absent {σ : Phys} {dirs : EnvIdx → Option Nat} {e : EnvIdx} {i : Idx}
    (h : target σ dirs (.pde e i) = none) (j : Idx) : vm σ dirs (e, i, j) = 0 := by
  simp only [target, named_eq_none] at h
  simp [vm, h]

theorem user_of_target_pde {σ : Phys} {dirs : EnvIdx → Option Nat} {e : EnvIdx} {i : Idx} {pt : Nat}
    (h : target σ dirs (.pde e i) = some pt) : i.User ∧ ∃ d, dirs e = some d := by
  unfold target pdes at h
  cases hd : dirs e with
  | none => simp [hd] at h
  | some d =>
    by_cases hi : i.User
    · exact ⟨hi, d, rfl⟩
    · simp [hd, hi] at h

theorem target_pte_absent {σ : Phys} {dirs : EnvIdx → Option Nat} {e : EnvIdx} {i : Idx}
    (h : target σ dirs (.pde e i) = none) (j : Idx) : target σ dirs (.pte e i j) = none := by
  simp [target, vm_of_absent h]

/-! ## The invariant -/

/-- The reference-counted heap that the page tables and the allocator implement. -/
def heap (σ : Phys) (dirs : EnvIdx → Option Nat) (free : List Nat) (held : Set Nat) :
    RefHeap Slot Nat 16 :=
  ⟨target σ dirs, σ.ppRef, free, held⟩

/-- The page allocator's invariant. `managed` are the pages `page_init` handed to the
allocator and `base` counts the references from outside the live directories (the kernel's
own page tables). `free` is the free list, `held` the pages returned by `page_alloc` that no
slot holds yet. -/
structure PInv (managed : Set Nat) (base : Nat → ℕ) (σ : Phys) (dirs : EnvIdx → Option Nat)
    (free : List Nat) (held : Set Nat) : Prop where
  chain : Chain σ.ppLink σ.pageFreeList free
  valid : (heap σ dirs free held).Valid managed base
  table_inj : TableInj (target σ dirs)
  vm_zero : ∀ x, ¬ Present (vm σ dirs x) → vm σ dirs x = 0
  bound : ∀ p ∈ managed, p ≠ 0 ∧ p < σ.npages
  npages_le : σ.npages ≤ 2 ^ 20
  kern : σ.kernPgdir ∉ managed

namespace PInv

variable {managed : Set Nat} {base : Nat → ℕ} {σ : Phys} {dirs : EnvIdx → Option Nat}
  {free : List Nat} {held : Set Nat}

theorem lt_npages (h : PInv managed base σ dirs free held) {s : Slot} {p : Nat}
    (hs : target σ dirs s = some p) : p < σ.npages := (h.bound p (h.valid.tgt_mem s p hs)).2

theorem lt_two_pow (h : PInv managed base σ dirs free held) {p : Nat} (hp : p ∈ managed) :
    p < 2 ^ 20 := lt_of_lt_of_le (h.bound p hp).2 h.npages_le

theorem not_mem_free (h : PInv managed base σ dirs free held) {s : Slot} {p : Nat}
    (hs : target σ dirs s = some p) : p ∉ free := h.valid.not_free hs

theorem free_managed (h : PInv managed base σ dirs free held) {p : Nat} (hp : p ∈ free) :
    p ∈ managed := ((h.valid.mem_free p).1 hp).1

theorem target_ne_free (h : PInv managed base σ dirs free held) {p : Nat} (hp : p ∈ free)
    (s : Slot) : target σ dirs s ≠ some p := fun hs => h.not_mem_free hs hp

theorem dir_ne_table (h : PInv managed base σ dirs free held) {e e' : EnvIdx} {i : Idx} {d pt : Nat}
    (hd : dirs e = some d) (hpt : target σ dirs (.pde e' i) = some pt) : d ≠ pt := by
  rintro rfl
  cases h.table_inj (.dir e) (.pde e' i) d trivial trivial hd hpt

theorem dir_inj (h : PInv managed base σ dirs free held) {e e' : EnvIdx} {d : Nat}
    (hd : dirs e = some d) (hd' : dirs e' = some d) : e = e' := by
  cases h.table_inj (.dir e) (.dir e') d trivial trivial hd hd'
  rfl

end PInv

/-! ## How a write to memory shows in the entries -/

/-- Memory outside the directories and page tables does not matter. -/
theorem pdes_congr {σ σ' : Phys} {dirs : EnvIdx → Option Nat}
    (h : ∀ e d, dirs e = some d → ∀ i : Idx, i.User → σ'.mem d i = σ.mem d i) :
    pdes σ' dirs = pdes σ dirs := by
  funext ⟨e, i⟩
  simp only [pdes]
  cases hd : dirs e with
  | none => rfl
  | some d =>
    by_cases hi : i.User
    · simp [hi, h e d hd i hi]
    · simp [hi]

theorem vm_congr {σ σ' : Phys} {dirs : EnvIdx → Option Nat} (hp : pdes σ' dirs = pdes σ dirs)
    (h : ∀ e i pt, target σ dirs (.pde e i) = some pt → σ'.mem pt = σ.mem pt) :
    vm σ' dirs = vm σ dirs := by
  funext ⟨e, i, j⟩
  simp only [vm, hp]
  split_ifs with hpr
  · rw [h e i _ (by simp only [target]; exact named_of_present hpr)]
  · rfl

theorem target_congr {σ σ' : Phys} {dirs : EnvIdx → Option Nat} (hp : pdes σ' dirs = pdes σ dirs)
    (hv : vm σ' dirs = vm σ dirs) : target σ' dirs = target σ dirs := by
  funext s
  cases s <;> simp [target, hp, hv]

variable {managed : Set Nat} {base : Nat → ℕ} {σ : Phys} {dirs : EnvIdx → Option Nat}
  {free : List Nat} {held : Set Nat}

theorem vm_store_pte (h : PInv managed base σ dirs free held) {e : EnvIdx} {i : Idx} {pt : Nat}
    (hpt : target σ dirs (.pde e i) = some pt) (j : Idx) (w : Word) :
    pdes (σ.store (pt, j) w) dirs = pdes σ dirs ∧
      vm (σ.store (pt, j) w) dirs = Function.update (vm σ dirs) (e, i, j) w := by
  have hpdes : pdes (σ.store (pt, j) w) dirs = pdes σ dirs := pdes_congr fun e' d hd i' _ => by
    rw [Phys.mem_store, if_neg]
    exact fun hc => h.dir_ne_table hd hpt hc.1
  refine ⟨hpdes, ?_⟩
  funext ⟨e', i', j'⟩
  simp only [vm, hpdes]
  by_cases hpr : Present (pdes σ dirs (e', i'))
  · have htab : target σ dirs (.pde e' i') = some (PGNUM (pdes σ dirs (e', i'))) :=
      named_of_present hpr
    rw [if_pos hpr, Phys.mem_store]
    by_cases heq : (e', i', j') = (e, i, j)
    · obtain ⟨rfl, rfl, rfl⟩ : e' = e ∧ i' = i ∧ j' = j := by simpa using heq
      rw [hpt] at htab
      simp [← Option.some.inj htab]
    · rw [Function.update_of_ne heq, if_neg, vm, if_pos hpr]
      -- Another table in the same frame would be a second table slot with the same target.
      rintro ⟨hfr, rfl⟩
      rw [hfr] at htab
      cases h.table_inj (.pde e' i') (.pde e i) pt trivial trivial htab hpt
      exact heq rfl
  · rw [if_neg hpr]
    have hne : (e', i', j') ≠ (e, i, j) := by
      rintro heq
      obtain ⟨rfl, rfl, rfl⟩ : e' = e ∧ i' = i ∧ j' = j := by simpa using heq
      simp only [target, named, hpr, if_false] at hpt
      cases hpt
    rw [Function.update_of_ne hne, vm, if_neg hpr]

theorem pdes_store_pde {e : EnvIdx} {d : Nat} (hd : dirs e = some d)
    (hinj : ∀ e', dirs e' = some d → e' = e) {i : Idx} (hi : i.User) (w : Word) :
    pdes (σ.store (d, i) w) dirs = Function.update (pdes σ dirs) (e, i) w := by
  funext ⟨e', i'⟩
  by_cases heq : (e', i') = (e, i)
  · obtain ⟨rfl, rfl⟩ : e' = e ∧ i' = i := by simpa using heq
    rw [pdes_of_dir hd hi, Phys.mem_store]
    simp
  · rw [Function.update_of_ne heq]
    cases hd' : dirs e' with
    | none => simp [pdes, hd']
    | some d' =>
      by_cases hi' : i'.User
      · rw [pdes_of_dir hd' hi', pdes_of_dir hd' hi', Phys.mem_store, if_neg]
        rintro ⟨rfl, rfl⟩
        exact heq (by rw [hinj e' hd'])
      · simp [pdes, hd', hi']

theorem target_update_pte {σ' : Phys} {x : EnvIdx × Idx × Idx} {w : Word}
    (hp : pdes σ' dirs = pdes σ dirs) (hv : vm σ' dirs = Function.update (vm σ dirs) x w) :
    target σ' dirs = Function.update (target σ dirs) (.pte x.1 x.2.1 x.2.2) (named w) := by
  obtain ⟨e, i, j⟩ := x
  funext s
  cases s with
  | dir e' => simp [target]
  | pde e' i' => simp [target, hp]
  | pte e' i' j' =>
    by_cases heq : (e', i', j') = (e, i, j)
    · obtain ⟨rfl, rfl, rfl⟩ : e' = e ∧ i' = i ∧ j' = j := by simpa using heq
      simp [target, hv]
    · rw [Function.update_of_ne (by simpa using heq)]
      simp [target, hv, Function.update_of_ne heq]

/-! ## Taking a page from the free list -/

theorem PInv.head_eq {p : Nat} {rest : List Nat}
    (h : PInv managed base σ dirs (p :: rest) held) : σ.pageFreeList = some p := by
  have hc := h.chain
  cases hhead : σ.pageFreeList with
  | none => rw [hhead] at hc; cases hc
  | some q =>
    rw [hhead] at hc
    obtain ⟨l', hl, -⟩ := hc.pop
    rw [(List.cons.inj hl).1]

theorem PInv.head_eq_none (h : PInv managed base σ dirs [] held) : σ.pageFreeList = none := by
  have hc := h.chain
  cases hhead : σ.pageFreeList with
  | none => rfl
  | some q =>
    rw [hhead] at hc
    obtain ⟨l', hl, -⟩ := hc.pop
    cases hl

/-- What a frame holds after `page_alloc`. -/
theorem mem_pageAlloc {p : Nat} (hhead : σ.pageFreeList = some p) (zero : Bool) (f : Nat) :
    (pageAlloc σ zero).2.mem f = if zero = true ∧ f = p then fun _ => 0 else σ.mem f := by
  simp only [pageAlloc, hhead]
  cases zero
  · simp
  · by_cases hf : f = p
    · subst hf; simp
    · simp [hf]

/-- `page_alloc` returns a page no entry refers to, so no entry changes. -/
theorem PInv.alloc {p : Nat} {rest : List Nat} (h : PInv managed base σ dirs (p :: rest) held)
    (zero : Bool) :
    (pageAlloc σ zero).1 = some p ∧
      PInv managed base (pageAlloc σ zero).2 dirs rest (insert p held) ∧
      pdes (pageAlloc σ zero).2 dirs = pdes σ dirs ∧ vm (pageAlloc σ zero).2 dirs = vm σ dirs := by
  have hhead := h.head_eq
  have hfree : ∀ s, target σ dirs s ≠ some p := h.target_ne_free List.mem_cons_self
  have hmem : ∀ f, f ≠ p → (pageAlloc σ zero).2.mem f = σ.mem f := fun f hf => by
    rw [mem_pageAlloc hhead, if_neg (fun hc => hf hc.2)]
  have hpdes : pdes (pageAlloc σ zero).2 dirs = pdes σ dirs := pdes_congr fun e d hd i _ => by
    rw [hmem d]
    exact fun hdp => hfree (.dir e) (hdp ▸ hd)
  have hvm : vm (pageAlloc σ zero).2 dirs = vm σ dirs := vm_congr hpdes fun e i pt hpt =>
    hmem pt fun hp => hfree (.pde e i) (hp ▸ hpt)
  have htgt := target_congr hpdes hvm
  have hchain : Chain σ.ppLink (some p) (p :: rest) := hhead ▸ h.chain
  have hval := RefHeap.Valid.take h.valid
    (show (heap σ dirs (p :: rest) held).free = p :: rest from rfl)
  refine ⟨by simp [pageAlloc, hhead], ⟨?_, ?_, ?_, ?_, ?_, ?_, ?_⟩, hpdes, hvm⟩
  · simp only [pageAlloc, hhead]
    exact hchain.pop_update none
  · have hheap : heap (pageAlloc σ zero).2 dirs rest (insert p held) =
        (heap σ dirs (p :: rest) held).take p rest := by
      simp only [heap, RefHeap.take, htgt]
      simp [pageAlloc, hhead]
    rw [hheap]
    exact hval
  · rw [htgt]; exact h.table_inj
  · rw [hvm]; exact h.vm_zero
  · simp only [pageAlloc, hhead]; exact h.bound
  · simp only [pageAlloc, hhead]; exact h.npages_le
  · simp only [pageAlloc, hhead]; exact h.kern

/-! ## Dropping a reference -/

@[simp] theorem mem_pageFree (σ : Phys) (p : Nat) : (pageFree σ p).mem = σ.mem := by
  unfold pageFree; split_ifs <;> rfl

@[simp] theorem ppRef_pageFree (σ : Phys) (p : Nat) : (pageFree σ p).ppRef = σ.ppRef := by
  unfold pageFree; split_ifs <;> rfl

@[simp] theorem npages_pageFree (σ : Phys) (p : Nat) : (pageFree σ p).npages = σ.npages := by
  unfold pageFree; split_ifs <;> rfl

@[simp] theorem kernPgdir_pageFree (σ : Phys) (p : Nat) :
    (pageFree σ p).kernPgdir = σ.kernPgdir := by
  unfold pageFree; split_ifs <;> rfl

@[simp] theorem mem_pageDecref (σ : Phys) (p : Nat) : (pageDecref σ p).mem = σ.mem := by
  unfold pageDecref; dsimp only; split_ifs <;> simp

@[simp] theorem npages_pageDecref (σ : Phys) (p : Nat) : (pageDecref σ p).npages = σ.npages := by
  unfold pageDecref; dsimp only; split_ifs <;> simp

@[simp] theorem kernPgdir_pageDecref (σ : Phys) (p : Nat) :
    (pageDecref σ p).kernPgdir = σ.kernPgdir := by
  unfold pageDecref; dsimp only; split_ifs <;> simp

@[simp] theorem ppRef_pageDecref (σ : Phys) (p : Nat) :
    (pageDecref σ p).ppRef = Function.update σ.ppRef p (σ.ppRef p - 1) := by
  unfold pageDecref; dsimp only; split_ifs <;> simp

/-- The free list after `page_decref`. -/
def freeAfter (σ : Phys) (p : Nat) (free : List Nat) : List Nat :=
  if σ.ppRef p - 1 = 0 then p :: free else free

theorem chain_pageDecref {p : Nat} (hc : Chain σ.ppLink σ.pageFreeList free) (hp : p ∉ free)
    (hlt : p < σ.npages) (hn : σ.npages ≤ 2 ^ 20) :
    Chain (pageDecref σ p).ppLink (pageDecref σ p).pageFreeList (freeAfter σ p free) := by
  have hpg : PGNUM (page2pa p) = p := PGNUM_page2pa (by omega)
  simp only [pageDecref, freeAfter, Function.update_self]
  split_ifs with h0
  · rw [pageFree, hpg, if_neg (by simpa using hlt)]
    exact hc.push hp
  · exact hc

theorem pdes_of_mem {σ σ' : Phys} (h : σ'.mem = σ.mem) : pdes σ' dirs = pdes σ dirs := by
  funext x
  simp [pdes, h]

theorem vm_of_mem {σ σ' : Phys} (h : σ'.mem = σ.mem) : vm σ' dirs = vm σ dirs := by
  funext x
  simp [vm, pdes_of_mem h, h]

theorem target_of_mem {σ σ' : Phys} (h : σ'.mem = σ.mem) : target σ' dirs = target σ dirs :=
  target_congr (pdes_of_mem h) (vm_of_mem h)

/-- The allocator's variables are the same; memory and the TLB log may differ. -/
structure SameAlloc (σ σ' : Phys) : Prop where
  npages : σ'.npages = σ.npages
  ppRef : σ'.ppRef = σ.ppRef
  ppLink : σ'.ppLink = σ.ppLink
  pageFreeList : σ'.pageFreeList = σ.pageFreeList
  kernPgdir : σ'.kernPgdir = σ.kernPgdir

theorem sameAlloc_store (σ : Phys) (p : PtePtr) (w : Word) : SameAlloc σ (σ.store p w) :=
  ⟨rfl, rfl, rfl, rfl, rfl⟩

theorem PInv.congr (h : PInv managed base σ dirs free held) {σ' : Phys} (hs : SameAlloc σ σ')
    (ht : target σ' dirs = target σ dirs) (hz : ∀ x, ¬ Present (vm σ' dirs x) → vm σ' dirs x = 0) :
    PInv managed base σ' dirs free held := by
  refine ⟨?_, ?_, by rw [ht]; exact h.table_inj, hz, ?_, ?_, ?_⟩
  · rw [hs.ppLink, hs.pageFreeList]; exact h.chain
  · rw [heap, ht, hs.ppRef]; exact h.valid
  · rw [hs.npages]; exact h.bound
  · rw [hs.npages]; exact h.npages_le
  · rw [hs.kernPgdir]; exact h.kern

/-- **Emptying a page table entry** drops the reference it held. -/
theorem PInv.detachPte (h : PInv managed base σ dirs free held) {e : EnvIdx} {i j : Idx}
    {pt q : Nat} (hpt : target σ dirs (.pde e i) = some pt)
    (hq : target σ dirs (.pte e i j) = some q)
    (hlt : base q + refs (target σ dirs) q ≤ 2 ^ 16) :
    PInv managed base ((pageDecref σ q).store (pt, j) 0) dirs (freeAfter σ q free) held ∧
      pdes ((pageDecref σ q).store (pt, j) 0) dirs = pdes σ dirs ∧
      vm ((pageDecref σ q).store (pt, j) 0) dirs = Function.update (vm σ dirs) (e, i, j) 0 := by
  set σ' := (pageDecref σ q).store (pt, j) 0
  have hmem : σ'.mem = (σ.store (pt, j) 0).mem := by simp [σ', Phys.store]
  obtain ⟨hp0, hv0⟩ := vm_store_pte h hpt j 0
  have hpdes : pdes σ' dirs = pdes σ dirs := (pdes_of_mem hmem).trans hp0
  have hvm : vm σ' dirs = Function.update (vm σ dirs) (e, i, j) 0 := (vm_of_mem hmem).trans hv0
  have htgt : target σ' dirs = Function.update (target σ dirs) (.pte e i j) none := by
    simpa using target_update_pte hpdes hvm
  have hval := h.valid.detach (s := .pte e i j) hq hlt
  refine ⟨⟨?_, ?_, ?_, fun x hx => ?_, ?_, ?_, ?_⟩, hpdes, hvm⟩
  · exact chain_pageDecref h.chain (h.not_mem_free hq) (h.lt_npages hq) h.npages_le
  · have hheap : heap σ' dirs (freeAfter σ q free) held =
        (heap σ dirs free held).detach (.pte e i j) q := by
      rw [heap, htgt, show σ'.ppRef = Function.update σ.ppRef q (σ.ppRef q - 1) by
        simp [σ', Phys.store]]
      rfl
    rw [hheap]
    exact hval
  · rw [htgt]; exact h.table_inj.update_none _
  · rw [hvm] at hx ⊢
    by_cases hxe : x = (e, i, j)
    · subst hxe; simp
    · rw [Function.update_of_ne hxe] at hx ⊢
      exact h.vm_zero x hx
  · simpa [σ', Phys.store] using h.bound
  · simpa [σ', Phys.store] using h.npages_le
  · simpa [σ', Phys.store] using h.kern

/-- **Filling an empty page table entry** adds a reference. -/
theorem PInv.attachPte (h : PInv managed base σ dirs free held) {e : EnvIdx} {i j : Idx}
    {pt p : Nat} (hpt : target σ dirs (.pde e i) = some pt) (hempty : vm σ dirs (e, i, j) = 0)
    (hp : p ∈ managed) (hfree : p ∉ free) {f : Word} (hf : PTE_ADDR f = 0) :
    PInv managed base ((incRef σ p).store (pt, j) (page2pa p ||| f ||| PTE_P)) dirs free
        (held \ {p}) ∧
      pdes ((incRef σ p).store (pt, j) (page2pa p ||| f ||| PTE_P)) dirs = pdes σ dirs ∧
      vm ((incRef σ p).store (pt, j) (page2pa p ||| f ||| PTE_P)) dirs =
        Function.update (vm σ dirs) (e, i, j) (page2pa p ||| f ||| PTE_P) := by
  set w := page2pa p ||| f ||| PTE_P
  set σ' := (incRef σ p).store (pt, j) w
  have hmem : σ'.mem = (σ.store (pt, j) w).mem := by simp [σ', Phys.store, incRef]
  obtain ⟨hp0, hv0⟩ := vm_store_pte h hpt j w
  have hpdes : pdes σ' dirs = pdes σ dirs := (pdes_of_mem hmem).trans hp0
  have hvm : vm σ' dirs = Function.update (vm σ dirs) (e, i, j) w := (vm_of_mem hmem).trans hv0
  have hw : named w = some p := named_mk (h.lt_two_pow hp) hf
  have htgt : target σ' dirs = Function.update (target σ dirs) (.pte e i j) (some p) := by
    have := target_update_pte hpdes hvm
    rwa [hw] at this
  have hnone : target σ dirs (.pte e i j) = none := by simp [target, hempty]
  have hval := h.valid.attach (s := .pte e i j) hnone hp hfree
  refine ⟨⟨h.chain, ?_, ?_, fun x hx => ?_, h.bound, h.npages_le, h.kern⟩,
    hpdes, hvm⟩
  · have hheap : heap σ' dirs free (held \ {p}) =
        (heap σ dirs free held).attach (.pte e i j) p := by
      rw [heap, htgt]
      rfl
    rw [hheap]
    exact hval
  · rw [htgt]; exact h.table_inj.update_pte e i j _
  · rw [hvm] at hx ⊢
    by_cases hxe : x = (e, i, j)
    · subst hxe
      rw [Function.update_self] at hx
      exact (hx (present_or_PTE_P _)).elim
    · rw [Function.update_of_ne hxe] at hx ⊢
      exact h.vm_zero x hx

/-- **Rewriting the flags of an entry** keeps the reference. -/
theorem PInv.rewritePte (h : PInv managed base σ dirs free held) {e : EnvIdx} {i j : Idx}
    {pt p : Nat} (hpt : target σ dirs (.pde e i) = some pt)
    (hp : target σ dirs (.pte e i j) = some p) {f : Word} (hf : PTE_ADDR f = 0) :
    PInv managed base (σ.store (pt, j) (page2pa p ||| f ||| PTE_P)) dirs free held ∧
      pdes (σ.store (pt, j) (page2pa p ||| f ||| PTE_P)) dirs = pdes σ dirs ∧
      vm (σ.store (pt, j) (page2pa p ||| f ||| PTE_P)) dirs =
        Function.update (vm σ dirs) (e, i, j) (page2pa p ||| f ||| PTE_P) := by
  obtain ⟨hpdes, hvm⟩ := vm_store_pte h hpt j (page2pa p ||| f ||| PTE_P)
  refine ⟨h.congr (sameAlloc_store ..) ?_ fun x hx => ?_, hpdes, hvm⟩
  · have htgt := target_update_pte hpdes hvm
    rw [named_mk (h.lt_two_pow (h.valid.tgt_mem (.pte e i j) p hp)) hf] at htgt
    exact htgt.trans (Function.update_eq_self_iff.2 hp.symm)
  · rw [hvm] at hx ⊢
    by_cases hxe : x = (e, i, j)
    · subst hxe
      rw [Function.update_self] at hx
      exact (hx (present_or_PTE_P _)).elim
    · rw [Function.update_of_ne hxe] at hx ⊢
      exact h.vm_zero x hx

/-! ## Directory entries -/

/-- Page tables stay in place when a directory entry keeps its address. -/
theorem vm_store_pde (h : PInv managed base σ dirs free held) {e : EnvIdx} {d : Nat} {i : Idx}
    (hd : dirs e = some d) (hi : i.User) (w : Word) (x : EnvIdx × Idx × Idx) :
    vm (σ.store (d, i) w) dirs x =
      if (x.1, x.2.1) = (e, i) then if Present w then (σ.store (d, i) w).mem (PGNUM w) x.2.2 else 0
      else vm σ dirs x := by
  obtain ⟨e', i', j'⟩ := x
  have hpdes := pdes_store_pde (σ := σ) hd (fun e' he' => h.dir_inj he' hd) hi w
  simp only [vm, hpdes]
  by_cases heq : (e', i') = (e, i)
  · rw [if_pos heq, heq, Function.update_self]
  · rw [if_neg heq, Function.update_of_ne heq]
    split_ifs with hpr
    · rw [Phys.mem_store, if_neg]
      exact fun hc => h.dir_ne_table hd (named_of_present hpr) hc.1.symm
    · rfl

/-- **Adding flags to a directory entry** changes no mapping. -/
theorem PInv.orPde (h : PInv managed base σ dirs free held) {e : EnvIdx} {d : Nat} {i : Idx}
    (hd : dirs e = some d) (hi : i.User) {pt : Nat} (hpt : target σ dirs (.pde e i) = some pt)
    {f : Word} (hf : PTE_ADDR f = 0) :
    PInv managed base (σ.store (d, i) (σ.mem d i ||| f)) dirs free held ∧
      target (σ.store (d, i) (σ.mem d i ||| f)) dirs = target σ dirs ∧
      pdes (σ.store (d, i) (σ.mem d i ||| f)) dirs =
        Function.update (pdes σ dirs) (e, i) (σ.mem d i ||| f) ∧
      vm (σ.store (d, i) (σ.mem d i ||| f)) dirs = vm σ dirs := by
  have hpdes := pdes_store_pde (σ := σ) hd (fun e' he' => h.dir_inj he' hd) hi (σ.mem d i ||| f)
  have hold : pdes σ dirs (e, i) = σ.mem d i := pdes_of_dir hd hi
  have hnamed : named (σ.mem d i ||| f) = some pt := by
    have hpt' : named (σ.mem d i) = some pt := by rw [← hold]; exact hpt
    have hpr : Present (σ.mem d i) := by
      by_contra hn
      rw [named_eq_none.2 hn] at hpt'
      cases hpt'
    rw [named_of_present (present_or.2 (Or.inl hpr)), ← hpt', named_of_present hpr,
      PGNUM_congr (w := σ.mem d i)]
    simp [PTE_ADDR_or, hf]
  have hpg : Present (σ.mem d i ||| f) ∧ PGNUM (σ.mem d i ||| f) = pt := by
    unfold named at hnamed
    split_ifs at hnamed with hpr
    exact ⟨hpr, Option.some.inj hnamed⟩
  have hvm : vm (σ.store (d, i) (σ.mem d i ||| f)) dirs = vm σ dirs := by
    funext x
    rw [vm_store_pde h hd hi]
    split_ifs with hx hpr
    · obtain ⟨e', i', j'⟩ := x
      obtain ⟨rfl, rfl⟩ : e' = e ∧ i' = i := by simpa using hx
      rw [hpg.2, Phys.mem_store, if_neg (fun hc => h.dir_ne_table hd hpt hc.1.symm),
        vm_of_present hpt]
    · exact (hpr hpg.1).elim
    · rfl
  have htgt : target (σ.store (d, i) (σ.mem d i ||| f)) dirs = target σ dirs := by
    funext s
    cases s with
    | dir e' => rfl
    | pde e' i' =>
      simp only [target, hpdes]
      by_cases heq : (e', i') = (e, i)
      · obtain ⟨rfl, rfl⟩ : e' = e ∧ i' = i := by simpa using heq
        rw [Function.update_self, hnamed]
        exact hpt.symm
      · rw [Function.update_of_ne heq]
    | pte e' i' j' => simp only [target, hvm]
  exact ⟨h.congr (sameAlloc_store ..) htgt (by rw [hvm]; exact h.vm_zero), htgt, hpdes, hvm⟩

theorem PInv.target_ne_held (h : PInv managed base σ dirs free held) {p : Nat} (hp : p ∈ held)
    (s : Slot) : target σ dirs s ≠ some p := fun hs => by
  have h0 := (h.valid.held_mem p hp).2
  have hpos : 0 < refs (target σ dirs) p := refs_pos hs
  change base p + refs (target σ dirs) p = 0 at h0
  omega

theorem PInv.not_free_of_held (h : PInv managed base σ dirs free held) {p : Nat} (hp : p ∈ held) :
    p ∉ free := fun hf => ((h.valid.mem_free p).1 hf).2.2 hp

theorem target_update_pde {σ' : Phys} {e : EnvIdx} {i : Idx} {w : Word}
    (hp : pdes σ' dirs = Function.update (pdes σ dirs) (e, i) w) (hv : vm σ' dirs = vm σ dirs) :
    target σ' dirs = Function.update (target σ dirs) (.pde e i) (named w) := by
  funext s
  cases s with
  | dir e' => simp [target]
  | pte e' i' j' => simp [target, hv]
  | pde e' i' =>
    by_cases heq : (e', i') = (e, i)
    · obtain ⟨rfl, rfl⟩ : e' = e ∧ i' = i := by simpa using heq
      simp [target, hp]
    · rw [Function.update_of_ne (by simpa using heq)]
      simp [target, hp, Function.update_of_ne heq]

/-- **Installing an empty page table** adds a reference to it and changes no mapping. -/
theorem PInv.attachPde (h : PInv managed base σ dirs free held) {e : EnvIdx} {d : Nat} {i : Idx}
    (hd : dirs e = some d) (hi : i.User) (habs : target σ dirs (.pde e i) = none) {p : Nat}
    (hp : p ∈ held) (hzero : ∀ j, σ.mem p j = 0) {f : Word} (hf : PTE_ADDR f = 0) :
    PInv managed base ((incRef σ p).store (d, i) (page2pa p ||| PTE_P ||| f)) dirs free
        (held \ {p}) ∧
      target ((incRef σ p).store (d, i) (page2pa p ||| PTE_P ||| f)) dirs =
        Function.update (target σ dirs) (.pde e i) (some p) ∧
      pdes ((incRef σ p).store (d, i) (page2pa p ||| PTE_P ||| f)) dirs =
        Function.update (pdes σ dirs) (e, i) (page2pa p ||| PTE_P ||| f) ∧
      vm ((incRef σ p).store (d, i) (page2pa p ||| PTE_P ||| f)) dirs = vm σ dirs := by
  set w := page2pa p ||| PTE_P ||| f
  set σ' := (incRef σ p).store (d, i) w
  have hpm : p ∈ managed := (h.valid.held_mem p hp).1
  have hnone : ∀ t, target σ dirs t ≠ some p := h.target_ne_held hp
  have hdp : d ≠ p := fun hc => hnone (.dir e) (hc ▸ hd)
  have hw : named w = some p := by
    rw [show w = page2pa p ||| f ||| PTE_P by simp only [w]; rw [BitVec.or_assoc,
      BitVec.or_comm PTE_P, ← BitVec.or_assoc]]
    exact named_mk (h.lt_two_pow hpm) hf
  have hpg : Present w ∧ PGNUM w = p := by
    unfold named at hw
    split_ifs at hw with hpr
    exact ⟨hpr, Option.some.inj hw⟩
  have hmem : σ'.mem = (σ.store (d, i) w).mem := rfl
  have hpdes : pdes σ' dirs = Function.update (pdes σ dirs) (e, i) w :=
    (pdes_of_mem hmem).trans (pdes_store_pde hd (fun e' he' => h.dir_inj he' hd) hi w)
  have hvm : vm σ' dirs = vm σ dirs := by
    rw [vm_of_mem hmem]
    funext x
    rw [vm_store_pde h hd hi]
    split_ifs with hx hpr
    · obtain ⟨e', i', j'⟩ := x
      obtain ⟨rfl, rfl⟩ : e' = e ∧ i' = i := by simpa using hx
      -- The new table is empty, and the absent one read as empty.
      rw [hpg.2, Phys.mem_store, if_neg (fun hc => hdp hc.1.symm), hzero, vm_of_absent habs]
    · exact (hpr hpg.1).elim
    · rfl
  have htgt : target σ' dirs = Function.update (target σ dirs) (.pde e i) (some p) := by
    have := target_update_pde hpdes hvm
    rwa [hw] at this
  have hval := h.valid.attach (s := .pde e i) habs hpm (h.not_free_of_held hp)
  refine ⟨⟨h.chain, ?_, ?_, by rw [hvm]; exact h.vm_zero, h.bound, h.npages_le, h.kern⟩, htgt,
    hpdes, hvm⟩
  · rw [heap, htgt]; exact hval
  · rw [htgt]; exact h.table_inj.update_fresh _ hnone

/-- **Removing an empty page table** drops the reference to it. -/
theorem PInv.detachPde (h : PInv managed base σ dirs free held) {e : EnvIdx} {d : Nat} {i : Idx}
    (hd : dirs e = some d) (hi : i.User) {pt : Nat} (hpt : target σ dirs (.pde e i) = some pt)
    (hempty : ∀ j, vm σ dirs (e, i, j) = 0) (hlt : base pt + refs (target σ dirs) pt ≤ 2 ^ 16) :
    PInv managed base (pageDecref (σ.store (d, i) 0) pt) dirs (freeAfter σ pt free) held ∧
      target (pageDecref (σ.store (d, i) 0) pt) dirs =
        Function.update (target σ dirs) (.pde e i) none ∧
      pdes (pageDecref (σ.store (d, i) 0) pt) dirs = Function.update (pdes σ dirs) (e, i) 0 ∧
      vm (pageDecref (σ.store (d, i) 0) pt) dirs = vm σ dirs := by
  set σ' := pageDecref (σ.store (d, i) 0) pt
  have hmem : σ'.mem = (σ.store (d, i) 0).mem := mem_pageDecref _ _
  have hpdes : pdes σ' dirs = Function.update (pdes σ dirs) (e, i) 0 :=
    (pdes_of_mem hmem).trans (pdes_store_pde hd (fun e' he' => h.dir_inj he' hd) hi 0)
  have hvm : vm σ' dirs = vm σ dirs := by
    rw [vm_of_mem hmem]
    funext x
    rw [vm_store_pde h hd hi]
    split_ifs with hx hpr
    · exact (not_present_zero hpr).elim
    · obtain ⟨e', i', j'⟩ := x
      obtain ⟨rfl, rfl⟩ : e' = e ∧ i' = i := by simpa using hx
      exact (hempty j').symm
    · rfl
  have htgt : target σ' dirs = Function.update (target σ dirs) (.pde e i) none := by
    simpa using target_update_pde hpdes hvm
  have hval := h.valid.detach (s := .pde e i) hpt hlt
  refine ⟨⟨?_, ?_, ?_, by rw [hvm]; exact h.vm_zero, ?_, ?_, ?_⟩, htgt, hpdes, hvm⟩
  · exact chain_pageDecref (σ := σ.store (d, i) 0) h.chain (h.not_mem_free hpt) (h.lt_npages hpt)
      h.npages_le
  · rw [heap, htgt, show σ'.ppRef = Function.update σ.ppRef pt (σ.ppRef pt - 1) from
      ppRef_pageDecref _ _]
    exact hval
  · rw [htgt]; exact h.table_inj.update_none _
  · simpa [σ', Phys.store] using h.bound
  · simpa [σ', Phys.store] using h.npages_le
  · simpa [σ', Phys.store] using h.kern

/-! ## Directories -/

theorem pdes_update_dir (e : EnvIdx) (v : Option Nat) (e' : EnvIdx) (i : Idx) :
    pdes σ (Function.update dirs e v) (e', i) =
      if e' = e then (match v with | none => 0 | some d => if i.User then σ.mem d i else 0)
      else pdes σ dirs (e', i) := by
  by_cases he : e' = e
  · subst he; simp [pdes]
  · simp [pdes, he]

/-- A directory without page tables contributes nothing but itself. -/
theorem target_update_dir {e : EnvIdx} {v : Option Nat}
    (hold : ∀ i, ¬ Present (pdes σ dirs (e, i)))
    (hnew : ∀ i, ¬ Present (pdes σ (Function.update dirs e v) (e, i))) :
    vm σ (Function.update dirs e v) = vm σ dirs ∧
      target σ (Function.update dirs e v) = Function.update (target σ dirs) (.dir e) v := by
  have hpd : ∀ e' i, e' ≠ e → pdes σ (Function.update dirs e v) (e', i) = pdes σ dirs (e', i) :=
    fun e' i he => by rw [pdes_update_dir, if_neg he]
  have hvm : vm σ (Function.update dirs e v) = vm σ dirs := by
    funext ⟨e', i, j⟩
    by_cases he : e' = e
    · subst he
      simp [vm, hold, hnew]
    · simp [vm, hpd e' i he]
  refine ⟨hvm, ?_⟩
  funext s
  cases s with
  | dir e' =>
    by_cases he : e' = e
    · subst he; simp [target]
    · rw [Function.update_of_ne (by simpa using he)]
      simp [target, he]
  | pde e' i =>
    rw [Function.update_of_ne (by simp)]
    by_cases he : e' = e
    · subst he
      simp [target, named_eq_none.2 (hold i), named_eq_none.2 (hnew i)]
    · simp [target, hpd e' i he]
  | pte e' i j =>
    rw [Function.update_of_ne (by simp)]
    simp [target, hvm]

/-- **Adding a directory** without page tables. -/
theorem PInv.attachDir (h : PInv managed base σ dirs free held) {e : EnvIdx} (he : dirs e = none)
    {p : Nat} (hp : p ∈ held) (habs : ∀ i : Idx, i.User → ¬ Present (σ.mem p i)) :
    PInv managed base (incRef σ p) (Function.update dirs e (some p)) free (held \ {p}) ∧
      target (incRef σ p) (Function.update dirs e (some p)) =
        Function.update (target σ dirs) (.dir e) (some p) ∧
      vm (incRef σ p) (Function.update dirs e (some p)) = vm σ dirs := by
  have hpm : p ∈ managed := (h.valid.held_mem p hp).1
  have hold : ∀ i, ¬ Present (pdes σ dirs (e, i)) := fun i => by simp [pdes, he]
  have hnew : ∀ i, ¬ Present (pdes σ (Function.update dirs e (some p)) (e, i)) := fun i => by
    rw [pdes_update_dir, if_pos rfl]
    by_cases hi : i.User
    · simpa [hi] using habs i hi
    · simp [hi]
  obtain ⟨hvm, htgt⟩ := target_update_dir hold hnew
  have hvm' : vm (incRef σ p) (Function.update dirs e (some p)) = vm σ dirs := hvm
  have htgt' : target (incRef σ p) (Function.update dirs e (some p)) =
      Function.update (target σ dirs) (.dir e) (some p) := htgt
  have hval := h.valid.attach (s := .dir e) he hpm (h.not_free_of_held hp)
  refine ⟨⟨h.chain, ?_, ?_, by rw [hvm']; exact h.vm_zero, h.bound, h.npages_le, h.kern⟩, htgt',
    hvm'⟩
  · rw [heap, htgt']; exact hval
  · rw [htgt']; exact h.table_inj.update_fresh _ (h.target_ne_held hp)

/-- **Dropping a directory** whose page tables are gone. -/
theorem PInv.detachDir (h : PInv managed base σ dirs free held) {e : EnvIdx} {d : Nat}
    (hd : dirs e = some d) (habs : ∀ i, ¬ Present (pdes σ dirs (e, i)))
    (hlt : base d + refs (target σ dirs) d ≤ 2 ^ 16) :
    PInv managed base (pageDecref σ d) (Function.update dirs e none) (freeAfter σ d free) held ∧
      target (pageDecref σ d) (Function.update dirs e none) =
        Function.update (target σ dirs) (.dir e) none ∧
      vm (pageDecref σ d) (Function.update dirs e none) = vm σ dirs := by
  have hnew : ∀ i, ¬ Present (pdes σ (Function.update dirs e none) (e, i)) := fun i => by
    rw [pdes_update_dir, if_pos rfl]
    simp
  obtain ⟨hvm, htgt⟩ := target_update_dir habs hnew
  have hvm' : vm (pageDecref σ d) (Function.update dirs e none) = vm σ dirs :=
    (vm_of_mem (mem_pageDecref _ _)).trans hvm
  have htgt' : target (pageDecref σ d) (Function.update dirs e none) =
      Function.update (target σ dirs) (.dir e) none :=
    (target_of_mem (mem_pageDecref _ _)).trans htgt
  have hval := h.valid.detach (s := .dir e) hd hlt
  refine ⟨⟨?_, ?_, ?_, by rw [hvm']; exact h.vm_zero, ?_, ?_, ?_⟩, htgt', hvm'⟩
  · exact chain_pageDecref h.chain (h.not_mem_free (s := .dir e) hd) (h.lt_npages (s := .dir e) hd)
      h.npages_le
  · rw [heap, htgt', ppRef_pageDecref]
    exact hval
  · rw [htgt']; exact h.table_inj.update_none _
  · simpa using h.bound
  · simpa using h.npages_le
  · simpa using h.kern

end Jos
