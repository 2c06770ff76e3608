import Jos.SysMem
import Jos.Cpus

/-!
# Calls that fail

A system call that returns an error has changed nothing. For most errors this is plain, since the
tests come first. The one call that fails with its work half done is `sys_page_alloc`: it takes the
page off the free list, clears it, and then finds no page for the page table. It gives the page
back, to the head of the list it came from, so only the contents of that page have changed.

What is needed of the state is little (`WfPages`): the pages of the free list are pages of the
machine with no references, and none of them is a page directory or a page table. The number of free
pages and free environments is arbitrary.
-/

namespace Jos

open Lib

/-! ## The property -/

/-- `d` is a page directory of an environment, or the kernel's. -/
def IsDir (k : Kernel) (d : Nat) : Prop := (∃ e, k.dirs e = some d) ∨ d = k.phys.kernPgdir

/-- The free list `l` and the page tables are well formed. -/
structure WfPages (k : Kernel) (l : List Nat) : Prop where
  chain : Chain k.phys.ppLink k.phys.pageFreeList l
  nodup : l.Nodup
  ref : ∀ p ∈ l, k.phys.ppRef p = 0
  bound : ∀ p ∈ l, p < k.phys.npages
  npages_le : k.phys.npages ≤ 2 ^ 20
  dir : ∀ d, IsDir k d → d ∉ l
  table : ∀ d i, IsDir k d → Present (k.phys.mem d i) → PGNUM (k.phys.mem d i) ∉ l

/-- Nothing has changed but contents of pages of the free list `l`. -/
structure Unchanged (l : List Nat) (k k' : Kernel) : Prop where
  chain : Chain k'.phys.ppLink k'.phys.pageFreeList l
  count : k'.phys.nAvailPages = k.phys.nAvailPages
  ref : k'.phys.ppRef = k.phys.ppRef
  dir : ∀ d, IsDir k d → k'.phys.mem d = k.phys.mem d
  table : ∀ d i, IsDir k d → Present (k.phys.mem d i) →
    k'.phys.mem (PGNUM (k.phys.mem d i)) = k.phys.mem (PGNUM (k.phys.mem d i))
  mem : ∀ f, f ∉ l → k'.phys.mem f = k.phys.mem f
  envs : k'.envs = k.envs
  envFreeList : k'.envFreeList = k.envFreeList
  cpuEnv : k'.cpuEnv = k.cpuEnv
  cr3 : k'.cr3 = k.cr3

/-- The calls that create environments and change mappings and environments. -/
def Call.IsEnvCall (x : Call) : Prop :=
  x.no ∈ [SYS_exofork, SYS_page_alloc, SYS_page_map, SYS_page_unmap, SYS_env_set_status,
    SYS_env_set_pgfault_upcall, SYS_env_destroy]

instance (x : Call) : Decidable x.IsEnvCall := by unfold Call.IsEnvCall; infer_instance

variable {k k' : Kernel} {c : Cpu} {cur : EnvIdx} {l : List Nat} {x : Call} {input r : Word}

/-- A page of the free list is cleared. -/
def zeroPage (k : Kernel) (q : Nat) : Kernel :=
  { k with phys := { k.phys with mem := Function.update k.phys.mem q fun _ => 0 } }

theorem WfPages.unchanged_refl (h : WfPages k l) : Unchanged l k k :=
  ⟨h.chain, rfl, rfl, fun _ _ => rfl, fun _ _ _ _ => rfl, fun _ _ => rfl, rfl, rfl, rfl, rfl⟩

theorem WfPages.unchanged_zeroPage (h : WfPages k l) {q : Nat} (hq : q ∈ l) :
    Unchanged l k (zeroPage k q) := by
  have hmem : ∀ f, f ∉ l → (zeroPage k q).phys.mem f = k.phys.mem f := fun f hf =>
    Function.update_of_ne (fun hc : f = q => hf (hc ▸ hq)) _ _
  exact ⟨h.chain, rfl, rfl, fun d hd => hmem d (h.dir d hd),
    fun d i hd hi => hmem _ (h.table d i hd hi), hmem, rfl, rfl, rfl, rfl⟩

/-! ## Giving a page back -/

/-- A page that is taken off the free list and given back is cleared. -/
theorem pageFree_pageAlloc {σ : Phys} {q : Nat} (hhead : σ.pageFreeList = some q)
    (href : σ.ppRef q = 0) (hq : q < σ.npages) (hn : σ.npages ≤ 2 ^ 20) :
    pageFree (pageAlloc σ true).2 q =
      { σ with mem := Function.update σ.mem q fun _ => 0 } := by
  have hnum : ¬ σ.npages ≤ PGNUM (page2pa q) := by
    rw [PGNUM_page2pa (by omega)]
    omega
  rw [pageAlloc, hhead, pageFree, if_neg hnum]
  simp only [Function.update_idem, Function.update_eq_self, if_true, BitVec.sub_add_cancel]
  rw [← href, Function.update_eq_self, ← hhead]

/-- `page_insert` fails for want of memory, before it has done anything. -/
theorem pageInsert_fails {σ σ' : Phys} {d p : Nat} {va perm : Word}
    (h : pageInsert σ d (some p) va perm = .ok (r, σ')) (hr : r ≠ 0) : σ' = σ := by
  unfold pageInsert at h
  obtain ⟨⟨ptep, σ₁⟩, hwalk, h⟩ := bind_eq_ok.1 h
  cases ptep with
  | some ptep =>
    obtain ⟨σ₂, -, h⟩ := bind_eq_ok.1 h
    cases h
    exact (hr rfl).elim
  | none =>
    cases h
    unfold pgdirWalk at hwalk
    by_cases hpr : Present (σ.mem d (PDX va))
    · rw [if_pos hpr] at hwalk
      obtain ⟨pt, -, hwalk⟩ := bind_eq_ok.1 hwalk
      cases hwalk
    · rw [if_neg hpr, if_neg (by decide)] at hwalk
      cases hlist : σ.pageFreeList with
      | none =>
        simp only [pageAlloc, hlist] at hwalk
        cases hwalk
        rfl
      | some q =>
        simp only [pageAlloc, hlist] at hwalk
        cases hwalk

/-! ## The calls -/

/-- **`sys_page_alloc`.** -/
theorem sysPageAlloc_fails {envid va perm : Word} (hw : WfPages k l)
    (h : sysPageAlloc k cur envid va perm = .ok (r, k')) (hr : r ≠ 0) : Unchanged l k k' := by
  unfold sysPageAlloc at h
  cases hf : envid2env k cur envid true with
  | none =>
    rw [hf] at h
    cases h
    exact hw.unchanged_refl
  | some e =>
    simp only [hf] at h
    split_ifs at h with hbad
    · cases h
      exact hw.unchanged_refl
    cases hlist : k.phys.pageFreeList with
    | none =>
      simp only [pageAlloc, hlist] at h
      cases h
      exact hw.unchanged_refl
    | some q =>
      have hpop : pageAlloc k.phys true = (some q, (pageAlloc k.phys true).2) := by
        rw [pageAlloc, hlist]
      rw [hpop] at h
      obtain ⟨d, -, h⟩ := bind_eq_ok.1 h
      obtain ⟨⟨r₁, σ₁⟩, hins, h⟩ := bind_eq_ok.1 h
      simp only at h
      split_ifs at h with hr₁
      · cases h
        obtain rfl := pageInsert_fails hins hr₁
        have hq : q ∈ l := by
          have hchain := hw.chain
          rw [hlist] at hchain
          obtain ⟨l', rfl, -⟩ := hchain.pop
          exact List.mem_cons_self
        rw [pageFree_pageAlloc hlist (hw.ref q hq) (hw.bound q hq) hw.npages_le]
        exact hw.unchanged_zeroPage hq
      · cases h
        exact (hr rfl).elim

/-- **`sys_page_map`.** -/
theorem sysPageMap_fails {srcenvid srcva dstenvid dstva perm : Word}
    (h : sysPageMap k cur srcenvid srcva dstenvid dstva perm = .ok (r, k')) (hr : r ≠ 0) :
    k' = k := by
  rcases sysPageMap_ok h with ⟨-, rfl⟩ | ⟨dst, p, d, -, -, hins, hk'⟩
  · rfl
  · rw [hk', pageInsert_fails hins hr]

theorem sysPageUnmap_fails {envid va : Word} (h : sysPageUnmap k cur envid va = .ok (r, k'))
    (hr : r ≠ 0) : k' = k := by
  unfold sysPageUnmap at h
  cases hf : envid2env k cur envid true with
  | none =>
    rw [hf] at h
    cases h
    rfl
  | some e =>
    simp only [hf] at h
    split_ifs at h with hbad
    · cases h
      rfl
    · obtain ⟨d, -, h⟩ := bind_eq_ok.1 h
      obtain ⟨σ, -, h⟩ := bind_eq_ok.1 h
      cases h
      exact (hr rfl).elim

theorem not_neg_nextEnvId (id : Word) (e : EnvIdx) : ¬ (nextEnvId id e).toInt < 0 := by
  have hidx : (BitVec.ofNat 32 e.val : Word).msb = false := by
    rw [BitVec.msb_eq_false_iff_two_mul_lt, BitVec.toNat_ofNat]
    omega
  have hpos : ∀ w : Word, 0 < w.toInt → w.msb = false := by
    intro w hw
    rw [BitVec.msb_eq_toInt, decide_eq_false_iff_not]
    omega
  have hmsb : (nextEnvId id e).msb = false := by
    unfold nextEnvId
    simp only [BitVec.msb_or, hidx, Bool.or_false]
    split_ifs with hle
    · decide
    · exact hpos _ (not_le.1 hle)
  rw [BitVec.msb_eq_toInt, decide_eq_false_iff_not] at hmsb
  exact hmsb

theorem toInt_nextEnvId_pos (id : Word) (e : EnvIdx) : 0 < (nextEnvId id e).toInt := by
  have hneg := not_neg_nextEnvId id e
  have hne : (nextEnvId id e).toInt ≠ 0 := fun hc =>
    nextEnvId_ne_zero id e (BitVec.eq_of_toInt_eq (hc.trans (by decide)))
  omega

/-- **`sys_exofork`** returns the id of the child, which is not negative. -/
theorem sysExofork_fails (h : sysExofork k cur = .ok (r, k')) (hr : r.toInt < 0) : k' = k := by
  unfold sysExofork at h
  obtain ⟨⟨res, k₁⟩, halloc, hret⟩ := bind_eq_ok.1 h
  rcases envAlloc_ok (orPanic_ok.1 halloc) with ⟨r₁, rfl, hk₁⟩ | ⟨child, p, rfl, -, -, hk₁⟩
  · cases hret
    exact hk₁
  · simp only at hret
    split_ifs at hret with hid
    · cases hret
      exact absurd hr (by decide)
    · cases hret
      subst hk₁
      refine (not_neg_nextEnvId (k.envs child).envId child ?_).elim
      simpa [exoforkChild, Kernel.setEnv, allocated, newEnv] using hr

/-- **A call that fails changes nothing** but the contents of free pages. -/
theorem failing_call_unchanged (hw : WfPages k l) (hcur : k.cpuEnv c = some cur)
    (hx : x.IsEnvCall) (h : x.run k c cur input = .ok (r, k')) (hr : r.toInt < 0) :
    Unchanged l k k' := by
  have hr₀ : r ≠ 0 := by
    rintro rfl
    exact absurd hr (by decide)
  cases syscall_ok hcur h with
  | same _ _ _ => exact hw.unchanged_refl
  | pageAlloc _ halloc => exact sysPageAlloc_fails hw halloc hr₀
  | pageMap _ hmap =>
    rw [sysPageMap_fails hmap hr₀]
    exact hw.unchanged_refl
  | pageUnmap _ hunmap =>
    rw [sysPageUnmap_fails hunmap hr₀]
    exact hw.unchanged_refl
  | dying _ _ _ _ => exact (hr₀ rfl).elim
  | free _ _ _ _ _ => exact (hr₀ rfl).elim
  | exofork _ hfork =>
    rw [sysExofork_fails hfork hr]
    exact hw.unchanged_refl
  | setStatus _ _ _ => exact (hr₀ rfl).elim
  | setUpcall _ _ => exact (hr₀ rfl).elim
  | send hno _ =>
    -- `sys_ipc_try_send` is not among the calls
    unfold Call.IsEnvCall at hx
    rw [hno] at hx
    exact absurd hx (by decide)

/-- The boot machine with one free page left, while the program runs on CPU 0. -/
def lowKernel : Kernel :=
  { bootKernel with
    phys := { bootKernel.phys with ppLink := fun _ => none }
    cpuEnv := fun c => if c = 0 then some 8 else none }

theorem wfPages_lowKernel : WfPages lowKernel [12] := by
  have hnot : ∀ d, IsDir lowKernel d → d ≠ 12 := by
    rintro d (⟨e, he⟩ | rfl) hd
    · subst hd
      have hdirs : ∀ e, lowKernel.dirs e ≠ some 12 := by decide +kernel
      exact hdirs e he
    · exact absurd hd (by decide)
  refine ⟨.cons .nil, by simp, ?_, ?_, by decide, ?_, ?_⟩
  · intro p hp
    rw [List.mem_singleton.1 hp]
    decide
  · intro p hp
    rw [List.mem_singleton.1 hp]
    decide
  · intro d hd
    simpa using hnot d hd
  · intro d i hd
    rw [List.mem_singleton]
    change Present (bootKernel.phys.mem d i) → PGNUM (bootKernel.phys.mem d i) ≠ 12
    simp only [bootKernel]
    split_ifs with h₁ h₂ h₃
    · decide
    · decide
    · intro _
      obtain ⟨hlo, hhi, -⟩ := h₃
      interval_cases d <;> decide
    · intro hpr
      exact (not_present_zero hpr).elim

/-- `sys_page_alloc` takes the last page, finds no page for the page table, and gives it back. -/
theorem failing_alloc_unchanged : WfPages lowKernel [12] ∧
    ∃ k', Call.run lowKernel 0 8 0 ⟨SYS_page_alloc, 0, 0xC00000#32, PTE_U ||| PTE_P, 0, 0⟩ =
      .ok (-E_NO_MEM, k') ∧ Unchanged [12] lowKernel k' := by
  have hres : (Call.run lowKernel 0 8 0
      ⟨SYS_page_alloc, 0, 0xC00000#32, PTE_U ||| PTE_P, 0, 0⟩).toOption.map Prod.fst =
        some (-E_NO_MEM) := by decide +kernel
  cases hrun : Call.run lowKernel 0 8 0 ⟨SYS_page_alloc, 0, 0xC00000#32, PTE_U ||| PTE_P, 0, 0⟩ with
  | error ex =>
    rw [hrun] at hres
    cases hres
  | ok y =>
    obtain ⟨r, k'⟩ := y
    rw [hrun] at hres
    obtain rfl : r = -E_NO_MEM := Option.some.inj hres
    exact ⟨wfPages_lowKernel, k', rfl,
      failing_call_unchanged wfPages_lowKernel (by decide) (by decide) hrun (by decide)⟩

end Jos
