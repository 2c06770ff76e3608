import Jos.Fork

/-!
# The address space of a forked child

The loop of `fork` over the pages below `UTOP`, which ignores what `duppage` and `sys_page_alloc`
return. When memory for a page table of the child runs out, the pages of that table are left out.

**The loop** (`fork_loop`) leaves the parent's pages copy-on-write and maps them into the child,
each or none of the pages of a table. It keeps one account (`Copying.count`): a page leaves the free
list exactly when the child gets a page table. So memory is short at the end if and only if it was
short at the start (`Copying.enough`, `Copying.needed`), and the point at which it runs out does not
matter.
-/

namespace Jos

open Lib

variable {managed tables : Set Nat} {base : Nat → ℕ} {σ σ' : Phys} {dirs : EnvIdx → Option Nat}
  {free free' : List Nat} {held : Set Nat} {k : Kernel} {cur child e : EnvIdx} {p : Nat}
  {va perm w upcall : Word}

/-! ## The entry of a duplicated page -/

/-- A page that user programs may read. -/
def UserPte (w : Word) : Prop := w &&& (PTE_P ||| PTE_U) = PTE_P ||| PTE_U

instance (w : Word) : Decidable (UserPte w) := by unfold UserPte; infer_instance

/-- The flags `duppage` passes on. -/
def dupFlags (pte : Word) : Word :=
  if pte &&& (PTE_W ||| PTE_COW) = 0 then PGOFF pte else cowFlags pte

/-- The entry for a page that `duppage` has been given, in the child and in the parent. -/
def dupPte (pte : Word) : Word := page2pa (PGNUM pte) ||| dupFlags pte ||| PTE_P

theorem PGOFF_and {m : Word} (hm : 0xFFF#32 &&& m = m) : PGOFF w &&& m = w &&& m := by
  rw [PGOFF, BitVec.and_assoc, hm]

theorem cowFlags_and {m : Word} (hm : 0xFFF#32 &&& m = m) (hcow : PTE_COW &&& m = 0)
    (hw : ~~~PTE_W &&& m = m) : cowFlags w &&& m = w &&& m := by
  rw [cowFlags, BitVec.and_assoc, hw, BitVec.and_or_distrib_right, hcow, PGOFF_and hm]
  exact BitVec.or_zero

theorem dupFlags_and {m : Word} (hm : 0xFFF#32 &&& m = m) (hcow : PTE_COW &&& m = 0)
    (hw : ~~~PTE_W &&& m = m) : dupFlags w &&& m = w &&& m := by
  unfold dupFlags
  split_ifs
  · exact PGOFF_and hm
  · exact cowFlags_and hm hcow hw

theorem PTE_ADDR_PGOFF (w : Word) : PTE_ADDR (PGOFF w) = 0 := by
  rw [PTE_ADDR, PGOFF, BitVec.and_assoc, show 0xFFF#32 &&& ~~~0xFFF#32 = 0#32 by decide]
  exact BitVec.and_zero

theorem PTE_ADDR_cowFlags (w : Word) : PTE_ADDR (cowFlags w) = 0 := by
  have hle : cowFlags w &&& ~~~0xFFF#32 = 0 := by
    have hcow : PTE_ADDR (PGOFF w ||| PTE_COW) = 0 := by
      rw [PTE_ADDR_or, PTE_ADDR_PGOFF]
      decide
    rw [cowFlags, BitVec.and_assoc, BitVec.and_comm (~~~PTE_W), ← BitVec.and_assoc]
    rw [show (PGOFF w ||| PTE_COW) &&& ~~~0xFFF#32 = 0 from hcow]
    exact BitVec.zero_and
  exact hle

theorem PTE_ADDR_dupFlags (w : Word) : PTE_ADDR (dupFlags w) = 0 := by
  unfold dupFlags
  split_ifs
  · exact PTE_ADDR_PGOFF w
  · exact PTE_ADDR_cowFlags w

theorem cowFlags_and_W (w : Word) : cowFlags w &&& PTE_W = 0 := by
  rw [cowFlags, BitVec.and_assoc, show ~~~PTE_W &&& PTE_W = 0#32 by decide]
  exact BitVec.and_zero

theorem dupFlags_and_W (w : Word) : dupFlags w &&& PTE_W = 0 := by
  unfold dupFlags
  split_ifs with h
  · rw [PGOFF_and (by decide)]
    rw [BitVec.and_or_distrib_left] at h
    exact (BitVec.or_eq_zero_iff.1 h).1
  · exact cowFlags_and_W w

theorem PGNUM_dupPte (w : Word) : PGNUM (dupPte w) = PGNUM w := by
  rw [dupPte, BitVec.or_assoc, PGNUM_page2pa_or (PGNUM_lt w)]
  rw [PTE_ADDR_or, PTE_ADDR_dupFlags]
  decide

theorem dupPte_and {m : Word} (hm : 0xFFF#32 &&& m = m) (hcow : PTE_COW &&& m = 0)
    (hw : ~~~PTE_W &&& m = m) (haddr : ~~~0xFFF#32 &&& m = 0) (hp : w &&& PTE_P = PTE_P) :
    dupPte w &&& m = w &&& m := by
  have hP : PTE_P &&& m = (w &&& m) &&& PTE_P := by
    rw [BitVec.and_assoc, BitVec.and_comm m, ← BitVec.and_assoc, hp]
  rw [dupPte, BitVec.or_assoc, page2pa_or_and _ haddr, BitVec.and_or_distrib_right,
    dupFlags_and hm hcow hw, hP]
  ext i hi
  simp only [BitVec.getElem_or, BitVec.getElem_and]
  cases w[i] <;> cases m[i] <;> simp

theorem UserPte.dupPte (h : UserPte w) : UserPte (dupPte w) := by
  unfold UserPte
  rw [dupPte_and (by decide) (by decide) (by decide) (by decide) (and_eq_of_and_or_left h)]
  exact h

theorem dupPte_of_readonly (hp : w &&& PTE_P = PTE_P) (hro : w &&& (PTE_W ||| PTE_COW) = 0) :
    dupPte w = w := by
  have hsplit : PTE_ADDR w ||| PGOFF w = w := by
    unfold PTE_ADDR PGOFF
    ext i hi
    simp only [BitVec.getElem_or, BitVec.getElem_and, BitVec.getElem_not]
    cases w[i] <;> simp
  rw [Jos.dupPte, dupFlags, if_pos hro, page2pa_PGNUM, hsplit]
  ext i hi
  have hbit : (w &&& PTE_P)[i] = PTE_P[i] := by rw [hp]
  simp only [BitVec.getElem_and, BitVec.getElem_or] at *
  cases hw : w[i] <;> simp_all

/-! ## The page tables of the child -/

/-- The directory entries below `UTOP` that `e` has page tables for. -/
def userTables (σ : Phys) (dirs : EnvIdx → Option Nat) (e : EnvIdx) : Finset Idx :=
  Finset.univ.filter fun i => target σ dirs (.pde e i) ≠ none

theorem mem_userTables {i : Idx} : i ∈ userTables σ dirs e ↔ target σ dirs (.pde e i) ≠ none := by
  simp [userTables]

theorem userTables_congr (h : target σ' dirs = target σ dirs) (e : EnvIdx) :
    userTables σ' dirs e = userTables σ dirs e := by
  unfold userTables
  rw [h]

namespace Inserted

variable (hI : Inserted managed base σ σ' dirs free free' held e p va perm)
include hI

theorem userTables_self : userTables σ' dirs e = insert (PDX va) (userTables σ dirs e) := by
  obtain ⟨pt, htgt, -⟩ := hI.tgt
  ext i
  rw [Finset.mem_insert, mem_userTables, mem_userTables, htgt, Function.update_of_ne (by simp)]
  by_cases hi : i = PDX va
  · subst hi
    simp
  · rw [Function.update_of_ne (by simpa using hi)]
    simp [hi]

theorem userTables_other {e' : EnvIdx} (hne : e' ≠ e) :
    userTables σ' dirs e' = userTables σ dirs e' := by
  ext i
  rw [mem_userTables, mem_userTables, hI.pde_other hne]

/-- **The account.** A new page table costs one free page. -/
theorem count (hnone : target σ dirs (.pte e (PDX va) (PTX va)) = none) :
    free'.length + (userTables σ' dirs e).card = free.length + (userTables σ dirs e).card := by
  obtain ⟨pt, -, hpt⟩ := hI.tgt
  rw [hI.userTables_self, hI.free_eq hnone]
  rcases hpt with hpt | ⟨habs, hpt⟩
  · rw [if_neg (by simp [hpt]), Finset.insert_eq_of_mem (mem_userTables.2 (by simp [hpt]))]
  · have hpos := List.length_pos_of_mem hpt
    rw [if_pos habs, Finset.card_insert_of_notMem fun hc => mem_userTables.1 hc habs,
      List.length_tail]
    omega

end Inserted

/-! ## `duppage` -/

/-- What `duppage` leaves of page `va` of `cur` in `child`: `w₁` is the entry of the child. -/
structure Dupped (managed tables : Set Nat) (k : Kernel) (free : List Nat)
    (cur child : EnvIdx) (va : Word) (σ' : Phys) (free' : List Nat) (w₁ : Word) : Prop where
  inv : SpaceInv managed tables σ' k.dirs free' ∅
  vm : vm σ' k.dirs = Function.update (Function.update (vm k.phys k.dirs) (mapIdx child va) w₁)
    (mapIdx cur va) (dupPte (Jos.vm k.phys k.dirs (mapIdx cur va)))
  mem : ∀ q, InUse k.phys k.dirs q → σ'.mem q = k.phys.mem q
  count : free'.length + (userTables σ' k.dirs child).card =
    free.length + (userTables k.phys k.dirs child).card
  tables_sub : userTables σ' k.dirs child ⊆ insert (PDX va) (userTables k.phys k.dirs child)
  done : w₁ = dupPte (Jos.vm k.phys k.dirs (mapIdx cur va)) ∨
    w₁ = 0 ∧ free = [] ∧ PDX va ∉ userTables k.phys k.dirs child

theorem mapIdx_ne (hne : child ≠ cur) (va : Word) : mapIdx child va ≠ mapIdx cur va := fun hc =>
  hne (congrArg Prod.fst hc)

/-- Setting an entry that was empty takes no page out of use. -/
theorem inUse_of_update {x : MapIdx} {w₁ : Word} {q : Nat}
    (hv : vm σ' dirs = Function.update (vm σ dirs) x w₁) (hx : vm σ dirs x = 0)
    (hq : InUse σ dirs q) :
    InUse σ' dirs q := by
  obtain ⟨e', i, j, ht⟩ := hq
  change named (vm σ dirs (e', i, j)) = some q at ht
  have hne : (e', i, j) ≠ x := by
    rintro rfl
    rw [hx] at ht
    cases named_zero.symm.trans ht
  refine inUse_of_vm (x := (e', i, j)) ?_
  rw [hv, Function.update_of_ne hne, ht]

/-- The first call of `duppage`. -/
theorem dup_child {envid : Word} (h : SpaceInv managed tables k.phys k.dirs free ∅)
    (hd : k.dirs cur ≠ none) (hdc : k.dirs child ≠ none)
    (hf : envid2env k cur envid false = some child) (hva : AddrOk va)
    (hw : UserPte (vm k.phys k.dirs (mapIdx cur va)))
    (hempty : vm k.phys k.dirs (mapIdx child va) = 0) :
    ∃ r σ₁ free₁ w₁, sysPageMap k cur 0 va envid va (dupFlags (vm k.phys k.dirs (mapIdx cur va))) =
        .ok (r, { k with phys := σ₁ }) ∧ SpaceInv managed tables σ₁ k.dirs free₁ ∅ ∧
      vm σ₁ k.dirs = Function.update (vm k.phys k.dirs) (mapIdx child va) w₁ ∧
      (∀ q, InUse k.phys k.dirs q → σ₁.mem q = k.phys.mem q) ∧
      free₁.length + (userTables σ₁ k.dirs child).card =
        free.length + (userTables k.phys k.dirs child).card ∧
      userTables σ₁ k.dirs child ⊆ insert (PDX va) (userTables k.phys k.dirs child) ∧
      (w₁ = dupPte (vm k.phys k.dirs (mapIdx cur va)) ∨
        w₁ = 0 ∧ free = [] ∧ PDX va ∉ userTables k.phys k.dirs child) ∧
      ∀ e, e ≠ child → userTables σ₁ k.dirs e = userTables k.phys k.dirs e := by
  have hnone : target k.phys k.dirs (.pte child (PDX va) (PTX va)) = none := by
    change named (vm k.phys k.dirs (mapIdx child va)) = none
    rw [hempty]
    exact named_zero
  rcases h.sysPageMap (envid2env_zero k cur true) hf hd hdc hva hva (target_of_PU hw)
      (PTE_ADDR_dupFlags (vm k.phys k.dirs (mapIdx cur va)))
      (fun hc => (hc (dupFlags_and_W _)).elim) (fun q hq => by rw [hnone] at hq; cases hq) with
    ⟨hnil, hpde, hno⟩ | ⟨σ₁, free₁, hok, hI, h₁⟩
  · refine ⟨_, k.phys, free, 0, hno, h, ?_, fun _ _ => rfl, rfl, Finset.subset_insert _ _,
      .inr ⟨rfl, hnil, fun hc => mem_userTables.1 hc hpde⟩, fun _ _ => rfl⟩
    rw [← hempty, Function.update_eq_self]
  · have hs := h.mem_of_inserted hI
    exact ⟨0, σ₁, free₁, _, hok, h₁, hs.vm, hs.mem, hI.count hnone, hI.userTables_self.le, .inl rfl,
      fun e he => hI.userTables_other he⟩

theorem dup_self (h : SpaceInv managed tables k.phys k.dirs free ∅) (hd : k.dirs cur ≠ none)
    (hva : AddrOk va) (hw : UserPte (vm k.phys k.dirs (mapIdx cur va))) :
    ∃ σ₁ free₁, sysPageMap k cur 0 va 0 va (dupFlags (vm k.phys k.dirs (mapIdx cur va))) =
        .ok (0, { k with phys := σ₁ }) ∧ SpaceInv managed tables σ₁ k.dirs free₁ ∅ ∧
      vm σ₁ k.dirs = Function.update (vm k.phys k.dirs) (mapIdx cur va)
        (dupPte (vm k.phys k.dirs (mapIdx cur va))) ∧
      (∀ q, InUse k.phys k.dirs q → σ₁.mem q = k.phys.mem q) ∧ free₁ = free ∧
      ∀ e, e ≠ cur → userTables σ₁ k.dirs e = userTables k.phys k.dirs e := by
  have htgt := target_of_PU (e := cur) (i := PDX va) (j := PTX va) hw
  rcases h.sysPageMap (envid2env_zero k cur true) (envid2env_zero k cur false) hd hd hva hva htgt
      (PTE_ADDR_dupFlags (vm k.phys k.dirs (mapIdx cur va)))
      (fun hc => (hc (dupFlags_and_W _)).elim)
      (fun q hq hqp => (hqp (Option.some.inj (hq.symm.trans htgt))).elim) with
    ⟨-, hpde, -⟩ | ⟨σ₁, free₁, hok, hI, h₁⟩
  · have hz := vm_of_absent hpde (PTX va)
    change vm k.phys k.dirs (mapIdx cur va) = 0 at hz
    rw [hz] at hw
    exact absurd hw (by decide)
  · have hs := h.mem_of_inserted hI
    have hfree := hI.free_some _ htgt
    rw [if_pos rfl] at hfree
    exact ⟨σ₁, free₁, hok, h₁, hs.vm, hs.mem, hfree, fun e he => hI.userTables_other he⟩

/-- **`duppage`** of a user page. -/
theorem duppage_spec {envid : Word} {pn : Nat} (h : SpaceInv managed tables k.phys k.dirs free ∅)
    (hd : k.dirs cur ≠ none) (hdc : k.dirs child ≠ none)
    (hf : envid2env k cur envid false = some child) (hne : child ≠ cur) (hpn : pn < PGNUM UTOP)
    (hw : UserPte (vm k.phys k.dirs (mapIdx cur (PGNUM2LA pn))))
    (hempty : vm k.phys k.dirs (mapIdx child (PGNUM2LA pn)) = 0) :
    ∃ σ' free' w₁, duppage k cur envid pn = .ok (0, { k with phys := σ' }) ∧
      Dupped managed tables k free cur child (PGNUM2LA pn) σ' free' w₁ ∧
      ∀ e, e ≠ cur → e ≠ child → userTables σ' k.dirs e = userTables k.phys k.dirs e := by
  have hva := addrOk_PGNUM2LA hpn
  have hpn' : pn < 2 ^ 20 := by
    have hU : PGNUM UTOP = 955 * 1024 := by decide
    omega
  obtain ⟨d, hdir⟩ := Option.ne_none_iff_exists'.1 hd
  set va := PGNUM2LA pn with hvadef
  set w := vm k.phys k.dirs (mapIdx cur va) with hwdef
  have hpde := h.pde_PU hw
  have hread := h.readVpt hdir hva.1 hpde
  have hreadD := h.readVpd hdir (PDX va)
  rw [← pdes_of_dir hdir (PDX_user hva.1), ← shiftRight_eq_PDX hpn'] at hreadD
  rw [PGNUM_PGNUM2LA hpn', ← hwdef] at hread
  obtain ⟨r, σ₁, free₁, w₁, hmap, h₁, hv₁, hm₁, hcount, hsub, hdone, ht₁⟩ :=
    dup_child h hd hdc hf hva hw hempty
  have hkeep : vm σ₁ k.dirs (mapIdx cur va) = w := by
    rw [hv₁, Function.update_of_ne (mapIdx_ne hne va).symm]
  unfold duppage
  simp only [hreadD, hread, ok_bind, ← hvadef]
  rw [if_neg (not_not.2 hpde.symm), if_neg (not_not.2 (BitVec.or_comm PTE_U PTE_P ▸ hw.symm))]
  by_cases hro : w &&& (PTE_W ||| PTE_COW) = 0
  · -- a page that cannot be written: one call
    rw [if_pos hro]
    rw [show dupFlags _ = PGOFF w from if_pos hro] at hmap
    refine ⟨σ₁, free₁, w₁, ?_, ⟨h₁, ?_, hm₁, hcount, hsub, hdone⟩, fun e _ he => ht₁ e he⟩
    · simp only [hmap, ofCall, mapError_ok, ok_bind]
      rfl
    · rw [dupPte_of_readonly (and_eq_of_and_or_left hw) hro, ← hkeep, ← hv₁,
        Function.update_eq_self]
  · rw [if_neg hro]
    rw [show dupFlags _ = cowFlags w from if_neg hro] at hmap
    have hw₁ : UserPte (vm σ₁ k.dirs (mapIdx cur va)) := hkeep ▸ hw
    have hread₁ := SpaceInv.readVpt (k := { k with phys := σ₁ }) h₁ hdir hva.1 (h₁.pde_PU hw₁)
    rw [PGNUM_PGNUM2LA hpn'] at hread₁
    change _ = Except.ok (vm σ₁ k.dirs (mapIdx cur va)) at hread₁
    obtain ⟨σ₂, free₂, hself, h₂, hv₂, hm₂, rfl, ht₂⟩ :=
      dup_self (k := { k with phys := σ₁ }) h₁ hd hva hw₁
    change sysPageMap _ cur 0 va 0 va (dupFlags (vm σ₁ k.dirs (mapIdx cur va))) = _ at hself
    change vm σ₂ k.dirs =
      Function.update (vm σ₁ k.dirs) _ (dupPte (vm σ₁ k.dirs (mapIdx cur va))) at hv₂
    rw [hkeep] at hread₁
    rw [hkeep, show dupFlags w = cowFlags w from if_neg hro] at hself
    rw [hkeep, hv₁] at hv₂
    refine ⟨σ₂, free₂, w₁, ?_, ⟨h₂, hv₂, fun q hq => ?_, ?_, ?_, hdone⟩, fun e hec hed => ?_⟩
    · simp only [hmap, ofCall, mapError_ok, ok_bind, hread₁, hself]
      rfl
    · rw [hm₂ q (inUse_of_update hv₁ hempty hq), hm₁ q hq]
    · rw [show userTables σ₂ k.dirs child = _ from ht₂ child hne]
      exact hcount
    · rw [show userTables σ₂ k.dirs child = _ from ht₂ child hne]
      exact hsub
    · rw [show userTables σ₂ k.dirs e = _ from ht₂ e hec]
      exact ht₁ e hed

theorem named_dupPte (h : UserPte w) : named (dupPte w) = named w := by
  rw [named_of_present (present_of_and_PU h), named_of_present (present_of_and_PU h.dupPte),
    PGNUM_dupPte]

theorem Dupped.inUse {w₁ : Word} (h : Dupped managed tables k free cur child va σ' free' w₁)
    (hw : UserPte (Jos.vm k.phys k.dirs (mapIdx cur va)))
    (hempty : Jos.vm k.phys k.dirs (mapIdx child va) = 0) {q : Nat} (hq : InUse k.phys k.dirs q) :
    InUse σ' k.dirs q := by
  obtain ⟨e', i, j, ht⟩ := hq
  change named (Jos.vm k.phys k.dirs (e', i, j)) = some q at ht
  refine inUse_of_vm (x := (e', i, j)) ?_
  rw [h.vm]
  by_cases hx : (e', i, j) = mapIdx cur va
  · rw [hx, Function.update_self, named_dupPte hw, ← hx, ht]
  · rw [Function.update_of_ne hx, Function.update_of_ne, ht]
    intro hc
    rw [hc, hempty] at ht
    cases named_zero.symm.trans ht

/-! ## The loop -/

/-- The number of the page with the given indices. -/
def pageNo (i j : Idx) : ℕ := i.val * 1024 + j.val

theorem pageNo_eq_iff {n : Nat} (hn : n < 2 ^ 20) {i j : Idx} :
    pageNo i j = n ↔ i = PDX (PGNUM2LA n) ∧ j = PTX (PGNUM2LA n) := by
  have hi := i.isLt
  have hj := j.isLt
  rw [Fin.ext_iff, Fin.ext_iff, val_PDX_PGNUM2LA hn, val_PTX_PGNUM2LA hn, pageNo]
  omega

/-- The directory entries whose page tables the child needs: those with a user page of the parent,
and the one of the exception stack. -/
def forkTables (k : Kernel) (cur : EnvIdx) : Finset Idx :=
  Finset.univ.filter fun i => i = PDX UXSTACKBASE ∨
    ∃ j, UserPte (pdes k.phys k.dirs (cur, i)) ∧ UserPte (vm k.phys k.dirs (cur, i, j))

/-- An entry of the parent once the loop has passed the pages below `n`. -/
def passed (n : Nat) (i j : Idx) (w : Word) : Word :=
  if pageNo i j < n ∧ UserPte w then dupPte w else w

/-- The same entry in the child. -/
def copied (n : Nat) (i j : Idx) (w : Word) : Word :=
  if pageNo i j < n ∧ UserPte w then dupPte w else 0

/-- The state after the pages below `n`. An entry of the child may be missing, but only if there was
not memory for all its tables. -/
structure Copying (managed tables : Set Nat) (k₁ : Kernel) (free₁ : List Nat) (cur child : EnvIdx)
    (n : Nat) (σ : Phys) (free : List Nat) : Prop where
  inv : SpaceInv managed tables σ k₁.dirs free ∅
  source : ∀ i j, vm σ k₁.dirs (cur, i, j) = passed n i j (vm k₁.phys k₁.dirs (cur, i, j))
  copy : ∀ i j, vm σ k₁.dirs (child, i, j) = copied n i j (vm k₁.phys k₁.dirs (cur, i, j)) ∨
    vm σ k₁.dirs (child, i, j) = 0 ∧ free₁.length < (forkTables k₁ cur).card
  others : ∀ x : MapIdx, x.1 ≠ cur → x.1 ≠ child → vm σ k₁.dirs x = vm k₁.phys k₁.dirs x
  mem : ∀ q, InUse k₁.phys k₁.dirs q → InUse σ k₁.dirs q ∧ σ.mem q = k₁.phys.mem q
  count : free.length + (userTables σ k₁.dirs child).card = free₁.length
  tables_sub : userTables σ k₁.dirs child ⊆ forkTables k₁ cur

theorem lt_succ_and_iff {n : Nat} {i j : Idx} (h : pageNo i j ≠ n) (w : Word) :
    (pageNo i j < n + 1 ∧ UserPte w) ↔ (pageNo i j < n ∧ UserPte w) := by
  have hlt : pageNo i j < n + 1 ↔ pageNo i j < n := by omega
  rw [hlt]

/-- A page that is not duplicated. -/
theorem Copying.skip {k₁ : Kernel} {free₁ : List Nat} {n : Nat}
    (h : Copying managed tables k₁ free₁ cur child n σ free) (hn : n < 2 ^ 20)
    (hw : ¬ UserPte (vm k₁.phys k₁.dirs (mapIdx cur (PGNUM2LA n)))) :
    Copying managed tables k₁ free₁ cur child (n + 1) σ free := by
  have hiff : ∀ i j, (pageNo i j < n + 1 ∧ UserPte (vm k₁.phys k₁.dirs (cur, i, j))) ↔
      (pageNo i j < n ∧ UserPte (vm k₁.phys k₁.dirs (cur, i, j))) := by
    intro i j
    by_cases hij : pageNo i j = n
    · obtain ⟨rfl, rfl⟩ := (pageNo_eq_iff hn).1 hij
      exact ⟨fun hc => (hw hc.2).elim, fun hc => (hw hc.2).elim⟩
    · exact lt_succ_and_iff hij _
  refine ⟨h.inv, fun i j => ?_, fun i j => ?_, h.others, h.mem, h.count, h.tables_sub⟩
  · rw [h.source, passed, passed, if_congr (hiff i j) rfl rfl]
  · rw [copied, if_congr (hiff i j) rfl rfl]
    exact h.copy i j

theorem Copying.dup {k₁ : Kernel} {free₁ : List Nat} {n : Nat} {w₁ : Word}
    (h : Copying managed tables k₁ free₁ cur child n σ free)
    (h₁ : SpaceInv managed tables k₁.phys k₁.dirs free₁ ∅) (hn : n < 2 ^ 20) (hne : child ≠ cur)
    (hw : UserPte (vm k₁.phys k₁.dirs (mapIdx cur (PGNUM2LA n))))
    (hdup : Dupped managed tables { k₁ with phys := σ } free cur child (PGNUM2LA n) σ' free' w₁) :
    Copying managed tables k₁ free₁ cur child (n + 1) σ' free' := by
  have hwσ : vm σ k₁.dirs (mapIdx cur (PGNUM2LA n)) =
    vm k₁.phys k₁.dirs (mapIdx cur (PGNUM2LA n)) := by
    rw [mapIdx, h.source, passed, (pageNo_eq_iff hn).2 ⟨rfl, rfl⟩, if_neg (by omega)]
  have hempty : vm σ k₁.dirs (mapIdx child (PGNUM2LA n)) = 0 := by
    rcases h.copy (PDX (PGNUM2LA n)) (PTX (PGNUM2LA n)) with hc | hc
    · rw [copied, (pageNo_eq_iff hn).2 ⟨rfl, rfl⟩, if_neg (by omega)] at hc
      exact hc
    · exact hc.1
  have hvm : vm σ' k₁.dirs =
    Function.update (Function.update (vm σ k₁.dirs) (mapIdx child (PGNUM2LA n)) w₁)
      (mapIdx cur (PGNUM2LA n)) (dupPte (vm k₁.phys k₁.dirs (mapIdx cur (PGNUM2LA n)))) := by
    rw [← hwσ]
    exact hdup.vm
  have hin : PDX (PGNUM2LA n) ∈ forkTables k₁ cur :=
    Finset.mem_filter.2 ⟨Finset.mem_univ _, .inr ⟨_, h₁.pde_PU hw, hw⟩⟩
  refine ⟨hdup.inv, fun i j => ?_, fun i j => ?_, fun x hxc hxd => ?_, fun q hq => ?_, ?_, ?_⟩
  · by_cases hij : pageNo i j = n
    · obtain ⟨rfl, rfl⟩ := (pageNo_eq_iff hn).1 hij
      rw [hvm, passed, if_pos ⟨by omega, hw⟩]
      exact Function.update_self _ _ _
    · have hx : (cur, i, j) ≠ mapIdx cur (PGNUM2LA n) := fun hc =>
        hij ((pageNo_eq_iff hn).2 (by simpa [mapIdx] using hc))
      rw [hvm, Function.update_of_ne hx, Function.update_of_ne fun hc =>
        hne (congrArg Prod.fst hc).symm, h.source, passed, passed,
        if_congr (lt_succ_and_iff hij _) rfl rfl]
  · have hxc : (child, i, j) ≠ mapIdx cur (PGNUM2LA n) := fun hc => hne (congrArg Prod.fst hc)
    rw [hvm, Function.update_of_ne hxc]
    by_cases hij : pageNo i j = n
    · obtain ⟨rfl, rfl⟩ := (pageNo_eq_iff hn).1 hij
      rw [show (child, PDX (PGNUM2LA n), PTX (PGNUM2LA n)) = mapIdx child (PGNUM2LA n) from rfl,
        Function.update_self]
      rcases hdup.done with hdone | ⟨hzero, hnil, hnot⟩
      · refine .inl ?_
        rw [hdone, copied, if_pos ⟨by omega, hw⟩]
        exact congrArg dupPte hwσ
      · refine .inr ⟨hzero, ?_⟩
        -- all free pages have become tables, and this table is not among them
        have hlt : (userTables σ k₁.dirs child).card < (forkTables k₁ cur).card :=
          Finset.card_lt_card ⟨h.tables_sub, fun hc => hnot (hc hin)⟩
        have hcount := h.count
        rw [hnil, List.length_nil] at hcount
        omega
    · have hx : (child, i, j) ≠ mapIdx child (PGNUM2LA n) := fun hc =>
        hij ((pageNo_eq_iff hn).2 (by simpa [mapIdx] using hc))
      rw [Function.update_of_ne hx, copied, if_congr (lt_succ_and_iff hij _) rfl rfl]
      exact h.copy i j
  · rw [hvm, Function.update_of_ne fun hc => hxc (congrArg Prod.fst hc),
      Function.update_of_ne fun hc => hxd (congrArg Prod.fst hc), h.others x hxc hxd]
  · obtain ⟨huse, hmem⟩ := h.mem q hq
    refine ⟨hdup.inUse (hwσ ▸ hw) hempty huse, ?_⟩
    rw [← hmem]
    exact hdup.mem q huse
  · exact hdup.count.trans h.count
  · exact hdup.tables_sub.trans (Finset.insert_subset hin h.tables_sub)

/-- The loop leaves the page of the exception stack to `sys_page_alloc`. -/
theorem Copying.stack_empty {k₁ : Kernel} {free₁ : List Nat} {n : Nat}
    (h : Copying managed tables k₁ free₁ cur child n σ free) (hn : n ≤ PGNUM UXSTACKBASE) :
    vm σ k₁.dirs (mapIdx child UXSTACKBASE) = 0 := by
  have hno : pageNo (PDX UXSTACKBASE) (PTX UXSTACKBASE) = PGNUM UXSTACKBASE := by decide
  rcases h.copy (PDX UXSTACKBASE) (PTX UXSTACKBASE) with hc | hc
  · rw [mapIdx, hc, copied, if_neg fun hc => by omega]
  · exact hc.1

section
variable {k₁ : Kernel} {free₁ : List Nat} {envid : Word}
  (h₁ : SpaceInv managed tables k₁.phys k₁.dirs free₁ ∅) (hd : k₁.dirs cur ≠ none)
  (hdc : k₁.dirs child ≠ none) (hf : ∀ b, envid2env k₁ cur envid b = some child) (hne : child ≠ cur)
include h₁ hd hdc hf hne

theorem Copying.page {n : Nat} (h : Copying managed tables k₁ free₁ cur child n σ free)
    (hn : n < PGNUM UXSTACKBASE) :
    ∃ σ' free', forkPage cur envid { k₁ with phys := σ } n = .ok { k₁ with phys := σ' } ∧
      Copying managed tables k₁ free₁ cur child (n + 1) σ' free' ∧
      ∀ e, e ≠ cur → e ≠ child → userTables σ' k₁.dirs e = userTables σ k₁.dirs e := by
  have hU : PGNUM UTOP = 955 * 1024 := by decide
  have hX : PGNUM UXSTACKBASE = 955 * 1024 - 1 := by decide
  have hn' : n < 2 ^ 20 := by omega
  have hva := addrOk_PGNUM2LA (show n < PGNUM UTOP by omega)
  obtain ⟨d, hdir⟩ := Option.ne_none_iff_exists'.1 hd
  have hwσ : vm σ k₁.dirs (mapIdx cur (PGNUM2LA n)) =
    vm k₁.phys k₁.dirs (mapIdx cur (PGNUM2LA n)) := by
    rw [mapIdx, h.source, passed, (pageNo_eq_iff hn').2 ⟨rfl, rfl⟩, if_neg (by omega)]
  have hpdes : pdes σ k₁.dirs (cur, PDX (PGNUM2LA n)) = σ.mem d (PDX (PGNUM2LA n)) :=
    pdes_of_dir hdir (PDX_user hva.1)
  have hreadD := SpaceInv.readVpd (k := { k₁ with phys := σ }) h.inv hdir (PDX (PGNUM2LA n))
  rw [← hpdes, ← shiftRight_eq_PDX hn'] at hreadD
  unfold forkPage
  rw [if_neg (by omega), if_pos hn]
  simp only [hreadD, ok_bind]
  by_cases hpde : UserPte (pdes σ k₁.dirs (cur, PDX (PGNUM2LA n)))
  · have hread := SpaceInv.readVpt (k := { k₁ with phys := σ }) h.inv hdir hva.1 hpde
    rw [PGNUM_PGNUM2LA hn'] at hread
    change _ = Except.ok (vm σ k₁.dirs (mapIdx cur (PGNUM2LA n))) at hread
    rw [if_pos hpde.symm, hread, ok_bind]
    by_cases hw : UserPte (vm σ k₁.dirs (mapIdx cur (PGNUM2LA n)))
    · have hempty : vm σ k₁.dirs (mapIdx child (PGNUM2LA n)) = 0 := by
        rcases h.copy (PDX (PGNUM2LA n)) (PTX (PGNUM2LA n)) with hc | hc
        · rw [copied, (pageNo_eq_iff hn').2 ⟨rfl, rfl⟩, if_neg (by omega)] at hc
          exact hc
        · exact hc.1
      obtain ⟨σ', free', w₁, hdup, hD, htab⟩ :=
        duppage_spec (k := { k₁ with phys := σ }) h.inv hd hdc (hf false)
        hne (show n < PGNUM UTOP by omega) hw hempty
      refine ⟨σ', free', ?_, h.dup h₁ hn' hne (hwσ ▸ hw) hD, htab⟩
      rw [if_pos hw.symm, hdup]
      rfl
    · exact ⟨σ, free, if_neg fun hc => hw hc.symm, h.skip hn' (hwσ ▸ hw), fun _ _ _ => rfl⟩
  · refine ⟨σ, free, if_neg fun hc => hpde hc.symm, h.skip hn' fun hc => hpde ?_, fun _ _ _ => rfl⟩
    exact h.inv.pde_PU (hwσ ▸ hc)

theorem Copying.loop (hempty : ∀ i, target k₁.phys k₁.dirs (.pde child i) = none) :
    ∀ n ≤ PGNUM UXSTACKBASE, ∃ σ free,
      (List.range n).foldlM (forkPage cur envid) k₁ = .ok { k₁ with phys := σ } ∧
        Copying managed tables k₁ free₁ cur child n σ free ∧
        ∀ e, e ≠ cur → e ≠ child → userTables σ k₁.dirs e = userTables k₁.phys k₁.dirs e := by
  intro n
  induction n with
  | zero =>
    intro _
    have hzero : ∀ i j, vm k₁.phys k₁.dirs (child, i, j) = 0 := fun i j => vm_of_absent (hempty i) j
    have htab : userTables k₁.phys k₁.dirs child = ∅ := by
      ext i
      simp [mem_userTables, hempty i]
    refine ⟨k₁.phys, free₁, rfl, ⟨h₁, fun i j => ?_, fun i j => .inl ?_, fun _ _ _ => rfl,
      fun q hq => ⟨hq, rfl⟩, ?_, ?_⟩, fun _ _ _ => rfl⟩
    · rw [passed, if_neg (by omega)]
    · rw [copied, if_neg (by omega), hzero]
    · rw [htab, Finset.card_empty, Nat.add_zero]
    · rw [htab]
      exact Finset.empty_subset _
  | succ n ih =>
    intro hn
    obtain ⟨σ, free, hfold, hC, htab⟩ := ih (by omega)
    obtain ⟨σ', free', hpage, hC', htab'⟩ := hC.page h₁ hd hdc hf hne (by omega)
    refine ⟨σ', free', ?_, hC', fun e hec hed => (htab' e hec hed).trans (htab e hec hed)⟩
    rw [List.range_succ, List.foldlM_append, hfold, ok_bind, List.foldlM_cons, hpage]
    rfl

theorem fork_loop (hempty : ∀ i, target k₁.phys k₁.dirs (.pde child i) = none) :
    ∃ σ free σ' free', (List.range (PGNUM UTOP)).foldlM (forkPage cur envid) k₁ =
        .ok { k₁ with phys := σ' } ∧ SpaceInv managed tables σ' k₁.dirs free' ∅ ∧
      Copying managed tables k₁ free₁ cur child (PGNUM UXSTACKBASE) σ free ∧
      (free.length < 1 + tableNeed { k₁ with phys := σ } child UXSTACKBASE ∧
          vm σ' k₁.dirs = vm σ k₁.dirs ∨
        free'.length + (1 + tableNeed { k₁ with phys := σ } child UXSTACKBASE) = free.length ∧
        ∃ p ∈ free,
          PageStep σ σ' k₁.dirs (mapIdx child UXSTACKBASE)
            (page2pa p ||| (PTE_U ||| PTE_W ||| PTE_P) ||| PTE_P)) ∧
      ∀ e, e ≠ cur → e ≠ child → userTables σ' k₁.dirs e = userTables k₁.phys k₁.dirs e := by
  obtain ⟨σ, free, hfold, hC, htab⟩ := Copying.loop h₁ hd hdc hf hne hempty _ le_rfl
  have hnone : target σ k₁.dirs (.pte child (PDX UXSTACKBASE) (PTX UXSTACKBASE)) = none := by
    change named (vm σ k₁.dirs (mapIdx child UXSTACKBASE)) = none
    rw [hC.stack_empty le_rfl]
    exact named_zero
  have hrange : (List.range (PGNUM UTOP)).foldlM (forkPage cur envid) k₁ =
      forkPage cur envid { k₁ with phys := σ } (PGNUM UXSTACKBASE) := by
    rw [show PGNUM UTOP = PGNUM UXSTACKBASE +
      1 by decide, List.range_succ, List.foldlM_append, hfold, ok_bind, List.foldlM_cons]
    cases forkPage cur envid { k₁ with phys := σ } (PGNUM UXSTACKBASE) <;> rfl
  rw [hrange, forkPage, if_pos rfl]
  rcases SpaceInv.sysPageAlloc (k := { k₁ with phys := σ }) hC.inv (hf true) hdc
      (by decide : UXSTACKBASE < UTOP)
      (by decide : (PTE_U ||| PTE_W ||| PTE_P) &&& ~~~PTE_SYSCALL = 0)
      (fun q hq => by cases hnone.symm.trans hq) with
    ⟨hshort, σ', hal, h', hvm, hpd⟩ |
      ⟨hroom, p, rest, σ₁, σ', free', rfl, hal, htgt, -, -, hI, h', hs⟩
  · refine ⟨σ, free, σ', free, ?_, h', hC, .inl ⟨hshort, hvm⟩, fun e hec hed => ?_⟩
    · rw [hal]
      rfl
    · rw [← htab e hec hed]
      exact userTables_congr (target_congr hpd hvm) e
  · have hcount : free'.length + (1 + tableNeed { k₁ with phys := σ } child UXSTACKBASE) =
        (p :: rest).length := by
      rw [List.length_cons] at hroom ⊢
      rw [hI.free_eq (htgt ▸ hnone), htgt]
      unfold tableNeed at hroom ⊢
      change (if target σ k₁.dirs _ = none then rest.tail else rest).length +
        (1 + if target σ k₁.dirs _ = none then 1 else 0) = _
      change 1 + (if target σ k₁.dirs _ = none then 1 else 0) ≤ _ at hroom
      split_ifs at hroom ⊢
      · rw [List.length_tail]
        omega
      · omega
    refine ⟨σ, p :: rest, σ', free', ?_, h', hC, .inr ⟨hcount, p, List.mem_cons_self, hs⟩,
      fun e hec hed => ?_⟩
    · rw [hal]
      rfl
    · have hsame : userTables σ₁ k₁.dirs e = userTables σ k₁.dirs e := userTables_congr htgt e
      rw [← htab e hec hed, ← hsame]
      exact hI.userTables_other hed

end

/-! ## The account at the end of the loop -/

theorem tableNeed_eq (k : Kernel) (e : EnvIdx) (va : Word) :
    tableNeed k e va = if PDX va ∈ userTables k.phys k.dirs e then 0 else 1 := by
  unfold tableNeed
  by_cases h : target k.phys k.dirs (.pde e (PDX va)) = none
  · rw [if_pos h, if_neg fun hc => mem_userTables.1 hc h]
  · rw [if_neg h, if_pos (mem_userTables.2 h)]

theorem mem_forkTables_stack (k : Kernel) (cur : EnvIdx) : PDX UXSTACKBASE ∈ forkTables k cur :=
  Finset.mem_filter.2 ⟨Finset.mem_univ _, .inl rfl⟩

section
variable {k₁ : Kernel} {free₁ : List Nat}
  (hC : Copying managed tables k₁ free₁ cur child (PGNUM UXSTACKBASE) σ free)
include hC

/-- With enough memory nothing is missing, and there is memory left for the exception stack. -/
theorem Copying.enough (hroom : (forkTables k₁ cur).card + 1 ≤ free₁.length) :
    (∀ i j, vm σ k₁.dirs (child, i, j) =
        copied (PGNUM UXSTACKBASE) i j (vm k₁.phys k₁.dirs (cur, i, j))) ∧
      1 + tableNeed { k₁ with phys := σ } child UXSTACKBASE ≤ free.length := by
  refine ⟨fun i j => (hC.copy i j).resolve_right fun hc => by omega, ?_⟩
  have hcount := hC.count
  have hle := Finset.card_le_card hC.tables_sub
  rw [tableNeed_eq]
  change 1 + (if PDX UXSTACKBASE ∈ userTables σ k₁.dirs child then 0 else 1) ≤ free.length
  split_ifs with hmem
  · omega
  · have hlt : (userTables σ k₁.dirs child).card < (forkTables k₁ cur).card :=
      Finset.card_lt_card ⟨hC.tables_sub, fun hc => hmem (hc (mem_forkTables_stack k₁ cur))⟩
    omega

/-- The pages that the loop and the exception stack take. -/
theorem Copying.left (hcount : free'.length +
    (1 + tableNeed { k₁ with phys := σ } child UXSTACKBASE) = free.length) :
    free₁.length ≤ free'.length + 1 + (forkTables k₁ cur).card := by
  have hsum := hC.count
  have hle := Finset.card_le_card hC.tables_sub
  rw [tableNeed_eq] at hcount
  change free'.length +
    (1 + if PDX UXSTACKBASE ∈ userTables σ k₁.dirs child then 0 else 1) = _ at hcount
  split_ifs at hcount with hmem
  · omega
  · have hlt : (userTables σ k₁.dirs child).card < (forkTables k₁ cur).card :=
      Finset.card_lt_card ⟨hC.tables_sub, fun hc => hmem (hc (mem_forkTables_stack k₁ cur))⟩
    omega

/-- If nothing is missing, there was enough memory. -/
theorem Copying.needed
    (hmapped : ∀ i j, pageNo i j < PGNUM UXSTACKBASE → UserPte (vm k₁.phys k₁.dirs (cur, i, j)) →
      vm σ k₁.dirs (child, i, j) ≠ 0)
    (hroom : 1 + tableNeed { k₁ with phys := σ } child UXSTACKBASE ≤ free.length) :
    (forkTables k₁ cur).card + 1 ≤ free₁.length := by
  have hsub : forkTables k₁ cur ⊆ insert (PDX UXSTACKBASE) (userTables σ k₁.dirs child) := by
    intro i hi
    rw [Finset.mem_insert]
    by_cases hX : i = PDX UXSTACKBASE
    · exact .inl hX
    obtain ⟨j, hpde, hw⟩ := (Finset.mem_filter.1 hi).2.resolve_left hX
    have hpt : target k₁.phys k₁.dirs (.pde cur i) = some _ :=
      named_of_present (present_of_and_PU hpde)
    have hiU : i.val < 955 := (user_of_target_pde hpt).1
    have hiX : i.val ≠ 954 := fun hc => hX (Fin.ext hc)
    have hno : pageNo i j < PGNUM UXSTACKBASE := by
      have hj := j.isLt
      rw [pageNo, show PGNUM UXSTACKBASE = 955 * 1024 - 1 by decide]
      omega
    refine .inr (mem_userTables.2 fun hc => hmapped i j hno hw (vm_of_absent hc j))
  have hcount := hC.count
  have hle := Finset.card_le_card hsub
  rw [tableNeed_eq] at hroom
  change 1 + (if PDX UXSTACKBASE ∈ userTables σ k₁.dirs child then 0 else 1) ≤ free.length at hroom
  split_ifs at hroom with hmem
  · rw [Finset.insert_eq_of_mem hmem] at hle
    omega
  · rw [Finset.card_insert_of_notMem hmem] at hle
    omega

end

end Jos
