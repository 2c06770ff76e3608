import Jos.ForkResult

/-!
# Stores of user programs

A program stores a byte. If the page cannot be written the store faults, `pgfault` runs, and the
instruction is started again (`UserStore`). A store that ends in a panic is no store.

**What a store does** (`UserStore.spec`). It goes to the page that is mapped there and changes no
mapping, or it goes to a copy of that page which nobody else maps.
-/

namespace Jos

open Lib

variable {managed tables : Set Nat} {σ σ' : Phys} {dirs : EnvIdx → Option Nat}
  {free free' : List Nat} {held : Set Nat} {k k' : Kernel} {cur e : EnvIdx} {d p : Nat}
  {va err : Word} {b : BitVec 8}

/-! ## Counting mappings -/

theorem SpaceInv.refs_of_inUse (h : SpaceInv managed tables k.phys k.dirs free held)
    (hp : InUse k.phys k.dirs p) : kernRefs tables p + refs (target k.phys k.dirs) p =
      refs (fun x => named (vm k.phys k.dirs x)) p := by
  obtain ⟨-, -, htab, hslot⟩ := h.inUse hp
  have hdir : (Finset.univ.filter fun e => k.dirs e = some p).card = 0 := by
    rw [Finset.card_eq_zero, Finset.filter_eq_empty_iff]
    exact fun e _ hc => hslot (.dir e) trivial hc
  have hpde : pdeRefs k p = 0 := by
    rw [pdeRefs, Finset.card_eq_zero, Finset.filter_eq_empty_iff]
    exact fun x _ hc => hslot (.pde x.1 x.2) trivial hc
  rw [kernRefs_of_notMem htab, refs_target, hdir, hpde, Nat.zero_add, Nat.zero_add, Nat.zero_add]
  rfl

/-! ## Faults that `pgfault` resolves -/

/-- `vpt[n]` cannot be read if there is no page table for page `n`. -/
theorem SpaceInv.readVpt_fails (h : SpaceInv managed tables k.phys k.dirs free ∅)
    (hd : k.dirs cur = some d) (hva : va < UTOP)
    (hpde : ¬ UserPte (pdes k.phys k.dirs (cur, PDX va))) :
    readWord k cur (vpt (PGNUM va)) = .error (.panic "page fault handler failed by: " k) := by
  have hno : ¬ Permits k.phys d (vpt (PGNUM va)) (PTE_P ||| PTE_U) := by
    rw [h.permits_vpt hd (PGNUM_lt va), PTX_vpt_PGNUM]
    rwa [pdes_of_dir hd (PDX_user hva)] at hpde
  simp only [readWord, ofCall, pgdir_of_dirs hd, mapError_ok, ok_bind, if_neg hno]

theorem memmovePage_fails {dst src : Word} (hd : k.dirs cur = some d) (hsrc : src < UTOP)
    (hread : ¬ UserPte (vm k.phys k.dirs (mapIdx cur src))) :
    memmovePage k cur dst src = .error (.panic "page fault handler failed by: " k) := by
  have hno : ¬ (Permits k.phys d src (PTE_P ||| PTE_U) ∧ Permits k.phys d dst
    (PTE_P ||| PTE_U ||| PTE_W)) :=
    fun hc => hread ((permits_iff hd hsrc (by decide)).1 hc.1).2
  simp only [memmovePage, ofCall, pgdir_of_dirs hd, mapError_ok, ok_bind, if_neg hno]

theorem pgfault_checks (h : SpaceInv managed tables k.phys k.dirs free ∅) (hd : k.dirs cur ≠ none)
    (hva : va < UTOP) (hok : pgfault k cur va err = .ok k') :
    UserPte (pdes k.phys k.dirs (cur, PDX va)) ∧ PTE_P &&& vm k.phys k.dirs (mapIdx cur va) ≠ 0 ∧
      FEC_WR &&& err ≠ 0 ∧ vm k.phys k.dirs (mapIdx cur va) &&& PTE_COW ≠ 0 := by
  obtain ⟨d, hdir⟩ := Option.ne_none_iff_exists'.1 hd
  unfold pgfault at hok
  by_cases hpde : UserPte (pdes k.phys k.dirs (cur, PDX va))
  swap
  · rw [h.readVpt_fails hdir hva hpde] at hok
    cases hok
  have hreadD := h.readVpd hdir (PDX va)
  rw [← pdes_of_dir hdir (PDX_user hva)] at hreadD
  simp only [h.readVpt hdir hva hpde, hreadD, ok_bind] at hok
  rw [if_neg (not_not.2 hpde.symm)] at hok
  by_cases hcond : PTE_P &&& vm k.phys k.dirs (mapIdx cur va) ≠ 0 ∧ FEC_WR &&& err ≠ 0 ∧
      vm k.phys k.dirs (mapIdx cur va) &&& PTE_COW ≠ 0
  · exact ⟨hpde, hcond⟩
  · rw [if_pos hcond] at hok
    cases hok

/-- **`pgfault`** returns only from a write to a copy-on-write page. -/
theorem pgfault_ok (h : SpaceInv managed tables k.phys k.dirs free ∅) (hd : k.dirs cur ≠ none)
    (hva : va < UTOP) (hne : mapIdx cur va ≠ mapIdx cur PFTEMP)
    (hlt : ∀ q, named (vm k.phys k.dirs (mapIdx cur PFTEMP)) = some q →
      kernRefs tables q + refs (target k.phys k.dirs) q ≤ 2 ^ 16)
    (hok : pgfault k cur va err = .ok k') :
    UserPte (vm k.phys k.dirs (mapIdx cur va)) ∧ vm k.phys k.dirs (mapIdx cur va) &&& PTE_COW ≠ 0 ∧
      FEC_WR &&& err ≠ 0 := by
  obtain ⟨hpde, hcond⟩ := pgfault_checks h hd hva hok
  obtain ⟨d, hdir⟩ := Option.ne_none_iff_exists'.1 hd
  refine ⟨?_, hcond.2.2, hcond.2.1⟩
  by_contra hu
  have hreadD := h.readVpd hdir (PDX va)
  rw [← pdes_of_dir hdir (PDX_user hva)] at hreadD
  unfold pgfault at hok
  simp only [h.readVpt hdir hva hpde, hreadD, ok_bind] at hok
  rw [if_neg (not_not.2 hpde.symm), if_neg (not_not.2 hcond)] at hok
  -- the page cannot be read, so `memmove` faults
  rcases h.sysPageAlloc (envid2env_zero k cur true) hd (by decide : PFTEMP < UTOP)
    (by decide : (PTE_P ||| PTE_U ||| PTE_W) &&& ~~~PTE_SYSCALL = 0) hlt with
    ⟨-, σ₁, hal, -⟩ | ⟨-, p, rest, σ₀, σ₁, free₁, -, hal, -, -, -, -, -, hs₁⟩
  · simp only [hal, ofCall, mapError_ok, ok_bind] at hok
    rw [if_pos (by decide)] at hok
    cases hok
  · have hsame : vm σ₁ k.dirs (mapIdx cur (PTE_ADDR va)) = vm k.phys k.dirs (mapIdx cur va) := by
      rw [mapIdx_PTE_ADDR, hs₁.vm, Function.update_of_ne hne]
    have hmv : memmovePage { k with phys := σ₁ } cur PFTEMP (PTE_ADDR va) = .error _ :=
      memmovePage_fails (k := { k with phys := σ₁ }) hdir (addrOk_PTE_ADDR hva).1 (hsame ▸ hu)
    simp only [hal, ofCall, mapError_ok, ok_bind] at hok
    rw [if_neg (by decide), hmv] at hok
    cases hok

/-! ## Stores -/

/-- The contents of a page with the byte at `va` replaced. -/
def pageSet (c : Idx → Word) (va : Word) (b : BitVec 8) : Idx → Word :=
  Function.update c (WORDX va) (setByte (c (WORDX va)) (BYTEX va) b)

/-- The error code of a store that faults in user mode. -/
def storeErr (σ : Phys) (d : Nat) (va : Word) : Word :=
  FEC_WR ||| FEC_U ||| if Permits σ d va PTE_P then FEC_PR else 0

/-- The program of `e` stores `b` at `va`, with faults on the way. -/
inductive UserStore (e : EnvIdx) (va : Word) (b : BitVec 8) : Kernel → Kernel → Prop
  | direct {k : Kernel} {d : Nat} (hd : k.dirs e = some d)
      (hp : Permits k.phys d va (PTE_P ||| PTE_U ||| PTE_W)) :
      UserStore e va b k { k with phys := storeByte k.phys d va b }
  | fault {k k₁ k' : Kernel} {d : Nat} (hd : k.dirs e = some d)
      (hp : ¬ Permits k.phys d va (PTE_P ||| PTE_U ||| PTE_W))
      (hf : pgfault k e va (storeErr k.phys d va) = .ok k₁) (h : UserStore e va b k₁ k') :
      UserStore e va b k k'

/-- The store goes to the page that is mapped. -/
structure DirectStore (k : Kernel) (σ' : Phys) (e : EnvIdx) (va : Word) (b : BitVec 8) : Prop where
  pte : vm k.phys k.dirs (mapIdx e va) &&& (PTE_P ||| PTE_U ||| PTE_W) = PTE_P ||| PTE_U ||| PTE_W
  vm : vm σ' k.dirs = vm k.phys k.dirs
  mem : σ'.mem = Function.update k.phys.mem (PGNUM (Jos.vm k.phys k.dirs (mapIdx e va)))
    (pageSet (k.phys.mem (PGNUM (Jos.vm k.phys k.dirs (mapIdx e va)))) va b)

/-- The store goes to a copy: page `p`, which nothing maps before. -/
structure CopyStore (k : Kernel) (σ' : Phys) (e : EnvIdx) (va : Word) (b : BitVec 8)
    (p : Nat) : Prop where
  user : UserPte (vm k.phys k.dirs (mapIdx e va))
  cow : vm k.phys k.dirs (mapIdx e va) &&& PTE_COW ≠ 0
  ro : vm k.phys k.dirs (mapIdx e va) &&& PTE_W = 0
  fresh : ¬ InUse k.phys k.dirs p
  lt : p < 2 ^ 20
  vm : vm σ' k.dirs = Function.update (Function.update (vm k.phys k.dirs) (mapIdx e PFTEMP) 0)
    (mapIdx e va) (page2pa p ||| (PTE_P ||| PTE_U ||| PTE_W) ||| PTE_P)
  copy : σ'.mem p = pageSet (k.phys.mem (PGNUM (Jos.vm k.phys k.dirs (mapIdx e va)))) va b
  mem : ∀ q, InUse k.phys k.dirs q → InUse σ' k.dirs q → σ'.mem q = k.phys.mem q

theorem storeErr_wr (σ : Phys) (d : Nat) (va : Word) : FEC_WR &&& storeErr σ d va ≠ 0 := by
  unfold storeErr
  split_ifs <;> decide

theorem and_PTE_W_eq_zero {w : Word} (h : w &&& PTE_W ≠ PTE_W) : w &&& PTE_W = 0 := by
  by_contra hc
  exact h (and_twoPow_eq (n := 1) hc)

theorem SpaceInv.permits_write_iff (h : SpaceInv managed tables k.phys k.dirs free ∅)
    (hd : k.dirs e = some d) (hva : va < UTOP) : Permits k.phys d va (PTE_P ||| PTE_U ||| PTE_W) ↔
      vm k.phys k.dirs (mapIdx e va) &&& (PTE_P ||| PTE_U ||| PTE_W) = PTE_P ||| PTE_U ||| PTE_W :=
  ⟨fun hp => ((permits_iff hd hva (by decide)).1 hp).2, h.permits_write hd hva⟩

theorem SpaceInv.storeByte (h : SpaceInv managed tables k.phys k.dirs free ∅)
    (hd : k.dirs e = some d) (hva : va < UTOP)
    (hp : Permits k.phys d va (PTE_P ||| PTE_U ||| PTE_W)) (b : BitVec 8) :
    SpaceInv managed tables (storeByte k.phys d va b) k.dirs free ∅ ∧
      DirectStore k (Jos.storeByte k.phys d va b) e va b := by
  have hpte := (h.permits_write_iff hd hva).1 hp
  have hmmu : mmuPte k.phys d va = vm k.phys k.dirs (mapIdx e va) :=
    (mmu_target hd hva (by decide) hp).2
  have huse : InUse k.phys k.dirs (PGNUM (vm k.phys k.dirs (mapIdx e va))) :=
    ⟨e, _, _, target_of_PU (and_eq_of_and_or_left hpte)⟩
  have hmem : (Jos.storeByte k.phys d va b).mem = Function.update k.phys.mem
      (PGNUM (vm k.phys k.dirs (mapIdx e va)))
      (pageSet (k.phys.mem (PGNUM (vm k.phys k.dirs (mapIdx e va)))) va b) := by
    rw [Jos.storeByte, mmuWord, hmmu]
    rfl
  have hsame : SameAlloc k.phys (Jos.storeByte k.phys d va b) := ⟨rfl, rfl, rfl, rfl, rfl⟩
  obtain ⟨h', hvm, -⟩ := h.writeFrame hsame huse fun f hf => by rw [hmem, Function.update_of_ne hf]
  exact ⟨h', hpte, hvm, hmem⟩

/-- **A store** goes to the page that is mapped, or to a copy. -/
theorem UserStore.spec (hs : UserStore e va b k k')
    (h : SpaceInv managed tables k.phys k.dirs free ∅) (hva : va < UTOP)
    (hne : mapIdx e va ≠ mapIdx e PFTEMP)
    (hlt : ∀ x, x = mapIdx e va ∨ x = mapIdx e PFTEMP → ∀ q, named (vm k.phys k.dirs x) = some q →
      kernRefs tables q + refs (target k.phys k.dirs) q ≤ 2 ^ 16) :
    ∃ σ' free', k' = { k with phys := σ' } ∧ SpaceInv managed tables σ' k.dirs free' ∅ ∧
      (DirectStore k σ' e va b ∨ ∃ p, CopyStore k σ' e va b p) := by
  cases hs with
  | direct hd hp =>
    obtain ⟨h', hD⟩ := h.storeByte hd hva hp b
    exact ⟨_, free, rfl, h', .inl hD⟩
  | fault hd hp hf hs =>
    have hdir : k.dirs e ≠ none := by simp [hd]
    obtain ⟨hw, hcow, herr⟩ := pgfault_ok h hdir hva hne (hlt _ (.inr rfl)) hf
    have hro : vm k.phys k.dirs (mapIdx e va) &&& PTE_W = 0 := by
      refine and_PTE_W_eq_zero fun hc => hp ?_
      exact (h.permits_write_iff hd hva).2 (and_or_eq hw hc)
    rcases pgfault_spec h hdir hva hne hw hcow herr hlt with
      ⟨-, stop, hstop⟩ | ⟨-, σ₁, free₁, p, hok, h₁, hR, -⟩
    · cases hstop.symm.trans hf
    obtain rfl := Except.ok.inj (hok.symm.trans hf)
    have hfree := h.pinv.free_managed hR.free
    have hp20 := h.pinv.lt_two_pow hfree
    have hnew : vm σ₁ k.dirs (mapIdx e va) =
      page2pa p ||| (PTE_P ||| PTE_U ||| PTE_W) ||| PTE_P := by
      rw [hR.vm, Function.update_self]
    have hfresh : ¬ InUse k.phys k.dirs p := fun hc => (h.inUse hc).2.1 hR.free
    cases hs with
    | fault hd' hp' _ _ =>
      -- after the fault the page can be written
      refine (hp' ?_).elim
      exact SpaceInv.permits_write (k := { k with phys := σ₁ }) h₁ hd' hva (hnew ▸ and_PUW p)
    | @direct _ d' hd' hp' =>
      obtain ⟨h', hD⟩ := SpaceInv.storeByte (k := { k with phys := σ₁ }) h₁ hd' hva hp' b
      have hmem := hD.mem
      have hvm : vm (Jos.storeByte σ₁ d' va b) k.dirs = vm σ₁ k.dirs := hD.vm
      change (Jos.storeByte σ₁ d' va b).mem =
        Function.update σ₁.mem (PGNUM (vm σ₁ k.dirs (mapIdx e va)))
        (pageSet (σ₁.mem (PGNUM (vm σ₁ k.dirs (mapIdx e va)))) va b) at hmem
      rw [hnew, PGNUM_PUW hp20] at hmem
      refine ⟨_, free₁, rfl, h', .inr ⟨p, hw, hcow, hro, hfresh, hp20, ?_, ?_, fun q hq hq' => ?_⟩⟩
      · exact hvm.trans hR.vm
      · rw [hmem, Function.update_self, hR.copy]
      · have hqp : q ≠ p := by
          rintro rfl
          exact hfresh hq
        rw [hmem, Function.update_of_ne hqp]
        refine hR.mem q hq ?_
        obtain ⟨e', i, j, ht⟩ := hq'
        change named (vm (Jos.storeByte σ₁ d' va b) k.dirs (e', i, j)) = some q at ht
        rw [hvm] at ht
        exact inUse_of_vm (x := (e', i, j)) ht

/-- A store to a copy-on-write page goes through, if there is memory for the copy. -/
theorem exists_userStore (h : SpaceInv managed tables k.phys k.dirs free ∅) (hd : k.dirs e ≠ none)
    (hva : va < UTOP) (hne : mapIdx e va ≠ mapIdx e PFTEMP)
    (hw : UserPte (vm k.phys k.dirs (mapIdx e va)))
    (hcow : vm k.phys k.dirs (mapIdx e va) &&& PTE_COW ≠ 0)
    (hro : vm k.phys k.dirs (mapIdx e va) &&& PTE_W = 0)
    (hlt : ∀ x, x = mapIdx e va ∨ x = mapIdx e PFTEMP → ∀ q, named (vm k.phys k.dirs x) = some q →
      kernRefs tables q + refs (target k.phys k.dirs) q ≤ 2 ^ 16)
    (hroom : 1 + tableNeed k e PFTEMP ≤ free.length) (b : BitVec 8) :
    ∃ k' p, p ∈ free ∧ UserStore e va b k k' ∧ vm k'.phys k'.dirs (mapIdx e va) =
      page2pa p ||| (PTE_P ||| PTE_U ||| PTE_W) ||| PTE_P := by
  obtain ⟨d, hdir⟩ := Option.ne_none_iff_exists'.1 hd
  have hp : ¬ Permits k.phys d va (PTE_P ||| PTE_U ||| PTE_W) := by
    rw [h.permits_write_iff hdir hva]
    intro hc
    have hbit := and_eq_of_and_or_right hc
    rw [hro] at hbit
    exact absurd hbit (by decide)
  rcases pgfault_spec h hd hva hne hw hcow (storeErr_wr k.phys d va) hlt with
    ⟨hshort, -⟩ | ⟨-, σ₁, free₁, p, hok, h₁, hR, -⟩
  · omega
  have hnew : vm σ₁ k.dirs (mapIdx e va) = page2pa p ||| (PTE_P ||| PTE_U ||| PTE_W) ||| PTE_P := by
    rw [hR.vm, Function.update_self]
  have hp₁ : Permits σ₁ d va (PTE_P ||| PTE_U ||| PTE_W) :=
    SpaceInv.permits_write (k := { k with phys := σ₁ }) h₁ hdir hva (hnew ▸ and_PUW p)
  obtain ⟨-, hD⟩ := SpaceInv.storeByte (k := { k with phys := σ₁ }) h₁ hdir hva hp₁ b
  refine ⟨_, p, hR.free, .fault hdir hp hok (.direct (k := { k with phys := σ₁ }) hdir hp₁), ?_⟩
  rw [← hnew]
  exact congrFun hD.vm (mapIdx e va)

end Jos
