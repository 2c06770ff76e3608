import Jos.Smp

/-!
# What user mappings name

Every present entry below `UTOP` of every environment names a data page: one that `page_alloc`
manages, that is not on the free list, and that is no page table or page directory. Its flags are
those a system call may ask for, apart from the accessed and dirty bits (`UserPage`).

This is part of `MemInv`, so it holds in every state a run reaches whose steps are `Sound`. The
condition is needed: `sys_page_map` does not check its `perm`, and ors it into the physical address
of the page, so a caller chooses which frame it gets.
-/

namespace Jos

open Lib

/-- The entry `x` maps a data page, with flags of a user mapping. -/
structure UserPage (managed tables : Set Nat) (k : Kernel) (x : MapIdx) : Prop where
  managed : PGNUM (vm k.phys k.dirs x) ∈ managed
  not_kern : PGNUM (vm k.phys k.dirs x) ∉ tables
  not_table : ∀ s, s.IsTable → target k.phys k.dirs s ≠ some (PGNUM (vm k.phys k.dirs x))
  not_free : ∀ l, Chain k.phys.ppLink k.phys.pageFreeList l → PGNUM (vm k.phys k.dirs x) ∉ l
  flags : flagBits (vm k.phys k.dirs x) &&& ~~~(PTE_A ||| PTE_D) &&& ~~~PTE_SYSCALL = 0

/-- Every user mapping names a user page. -/
def UserMappings (managed tables : Set Nat) (k : Kernel) : Prop :=
  ∀ x, Present (vm k.phys k.dirs x) → UserPage managed tables k x

variable {managed tables : Set Nat} {k k' : Kernel} {m m' : Smp}

theorem flags_ignoring {w : Word} (h : w &&& ~~~PTE_USER = 0) :
    w &&& ~~~(PTE_A ||| PTE_D) &&& ~~~PTE_SYSCALL = 0 := by
  have hsplit : PTE_USER = PTE_A ||| PTE_D ||| PTE_SYSCALL := by decide
  rw [BitVec.and_assoc, ← BitVec.not_or, ← hsplit]
  exact h

theorem KInv.userMappings (h : KInv managed tables k) : UserMappings managed tables k := by
  obtain ⟨free, hm⟩ := h.mem
  intro x hx
  obtain ⟨e, i, j⟩ := x
  have htgt : target k.phys k.dirs (.pte e i j) = some (PGNUM (vm k.phys k.dirs (e, i, j))) :=
    named_of_present hx
  obtain ⟨hnt, htab⟩ := hm.data e i j _ htgt
  refine ⟨hm.pinv.valid.tgt_mem (.pte e i j) _ htgt, hnt, htab, fun l hl => ?_,
    flags_ignoring (hm.flags _ hx)⟩
  rw [hl.unique hm.pinv.chain]
  exact hm.pinv.not_mem_free htgt

/-- The mappings that the calls of an environment make are shares of what it maps itself. -/
structure SharesOnly (k : Kernel) (cur : EnvIdx) : Prop where
  page_map : ∀ srcenvid srcva dstenvid dstva perm k',
    MapOk k cur srcenvid srcva dstenvid dstva perm →
    sysPageMap k cur srcenvid srcva dstenvid dstva perm = .ok (0, k') →
    ∃ src dst, envid2env k cur srcenvid true = some src ∧
      envid2env k cur dstenvid false = some dst ∧ Shares k k' src srcva dst dstva
  ipc : ∀ envid value srcva perm k' uenv, SendOk k cur envid srcva perm →
    sysIpcTrySend k cur envid value srcva perm = .ok (0, k') →
    envid2env k cur envid false = some uenv → WantsPage k uenv srcva →
    Shares k k' cur srcva uenv (k.envs uenv).envIpcDstva

theorem KInv.sharesOnly (h : KInv managed tables k) {cur : EnvIdx} (hdir : k.dirs cur ≠ none) :
    SharesOnly k cur := by
  constructor
  · intro srcenvid srcva dstenvid dstva perm k' hok hx
    exact (h.mem.sysPageMap hok hx).2.2 rfl
  · intro envid value srcva perm k' uenv hok hx hf hwant
    exact (h.mem.sysIpcTrySend (dirs_sysIpcTrySend hx) hok hx).2 (h.tab.ids cur hdir) rfl uenv hf
      hwant

/-- **User mappings only name user pages**, in every state reached by sound steps. -/
theorem user_mappings {l : List SmpAct} (hboot : Boots managed tables m)
    (hrun : RunWhile Sound Smp.step m l m') :
    UserMappings managed tables m'.k ∧
      ∀ c cur, m'.phase c = .user → m'.k.cpuEnv c = some cur → SharesOnly m'.k cur := by
  have h := hboot.smpInv_run hrun
  refine ⟨h.kinv.userMappings, fun c cur hp hcur => h.kinv.sharesOnly ?_⟩
  obtain ⟨e, he, hd⟩ := h.cpu c (.inr hp)
  rw [hcur, Option.some.injEq] at he
  subst he
  rw [hd]
  nofun

/-- The program and its child share a page. -/
theorem user_mappings_child : Boots (Set.Icc 1 40) ∅ freshSmp ∧
    ∃ m, RunWhile Sound Smp.step freshSmp childActs m ∧
      PGNUM (vm m.k.phys m.k.dirs (8, 2, 0)) = 10 ∧ PGNUM (vm m.k.phys m.k.dirs (9, 2, 0)) = 10 ∧
      UserMappings (Set.Icc 1 40) ∅ m.k := by
  have hcomp : ((childActs.foldlM (guardedStep Sound Smp.step) freshSmp).map fun m =>
      (PGNUM (vm m.k.phys m.k.dirs (8, 2, 0)), PGNUM (vm m.k.phys m.k.dirs (9, 2, 0)))) =
        some (10, 10) := by decide +kernel
  obtain ⟨m, hm, hfacts⟩ := Option.map_eq_some_iff.1 hcomp
  obtain ⟨h₁, h₂⟩ := Prod.mk.inj hfacts
  have hrun := RunWhile.of_foldlM hm
  exact ⟨boots_freshSmp, m, hrun, h₁, h₂, (user_mappings boots_freshSmp hrun).1⟩

/-- The program maps its page once more, with a bit of the address in `perm`. -/
def forgeActs : List SmpAct :=
  bootActs ++ .start 0 :: leaveActs 0 ++
    callActs 0 SYS_page_map 0 0x800000#32 0 0x801000#32 (0x1000#32 ||| PTE_P ||| PTE_U ||| PTE_W)

theorem page_table_mapped : Boots (Set.Icc 1 40) ∅ freshSmp ∧
    ∃ m, Run Smp.step freshSmp forgeActs m ∧ m.phase 0 = .user ∧
      Permits m.k.phys (m.k.cr3 0) 0x801000#32 (PTE_P ||| PTE_U ||| PTE_W) ∧
      ¬ UserMappings (Set.Icc 1 40) ∅ m.k := by
  have hcomp : ((forgeActs.foldlM (guardedStep (fun _ _ => True) Smp.step) freshSmp).map fun m =>
      (m.phase 0, decide (Permits m.k.phys (m.k.cr3 0) 0x801000#32 (PTE_P ||| PTE_U ||| PTE_W)),
        decide (Present (vm m.k.phys m.k.dirs (8, 2, 1))),
        decide (target m.k.phys m.k.dirs (.pde 8 2) =
          some (PGNUM (vm m.k.phys m.k.dirs (8, 2, 1)))))) =
        some (.user, true, true, true) := by decide +kernel
  obtain ⟨m, hm, hfacts⟩ := Option.map_eq_some_iff.1 hcomp
  simp only [Prod.mk.injEq, decide_eq_true_eq] at hfacts
  obtain ⟨hphase, hperm, hpres, htab⟩ := hfacts
  exact ⟨boots_freshSmp, m, RunWhile.of_foldlM hm, hphase, hperm, fun hmap =>
    (hmap _ hpres).not_table (.pde 8 2) trivial htab⟩

end Jos
