import Jos.ForkSpace
import Jos.Failing

/-!
# What `fork` returns

`fork` makes its child runnable and returns its id whatever the loop over the pages has left out.

**Theorem (`fork_complete_iff`).** `fork` does what it promises if and only if, when it calls
`sys_exofork`, that call fails, or there are enough free pages for the child's directory, for one
page table per table that holds a user page of the parent or the exception stack, and for the
exception stack itself.

Before that call `set_pgfault_handler` may take a page or two for the exception stack of the parent
(`freeAtExofork`).
-/

namespace Jos

open Lib

variable {managed tables : Set Nat} {base : Nat → ℕ} {σ σ' : Phys} {dirs : EnvIdx → Option Nat}
  {free free' : List Nat} {held : Set Nat} {k : Kernel} {cur child e : EnvIdx} {p : Nat}
  {va perm w upcall : Word}

/-! ## `sys_exofork` -/

/-- The state in which the loop starts: the child has an id, an entry point and an empty address
space. -/
def forked (k : Kernel) (cur child : EnvIdx) (p : Nat) (upcall : Word) : Kernel :=
  allocated k child p { forkedEnv k cur child p with envPgfaultUpcall := upcall }

theorem envAlloc_fails (hno : k.envFreeList = none ∨ k.phys.pageFreeList = none) (parentId : Word) :
    ∃ r, envAlloc k parentId = .ok (.error r, k) ∧ r.toInt < 0 := by
  unfold envAlloc
  cases hfl : k.envFreeList with
  | none => exact ⟨_, rfl, by decide⟩
  | some c =>
    have hp := hno.resolve_left (by simp [hfl])
    simp only [envSetupVm_none hp, ok_bind]
    exact ⟨_, if_pos (by decide), by decide⟩

theorem envAlloc_some (hfl : k.envFreeList = some child) (hp : k.phys.pageFreeList = some p)
    (parentId : Word) :
    envAlloc k parentId = .ok (.ok child, allocated k child p (newEnv k parentId child p)) := by
  unfold envAlloc
  simp only [hfl, envSetupVm_some hp, ok_bind]
  rw [if_neg (by decide)]
  simp [allocated, newEnv, Kernel.setEnv]

/-- **`sys_exofork`**: it makes the child at the head of the list of free environments, or there is
no environment or no page. -/
theorem sysExofork_spec (ht : TabInv k) (hd : k.dirs cur ≠ none) :
    ((k.envFreeList = none ∨ k.phys.pageFreeList = none) ∧
        ∃ r, sysExofork k cur = .ok (r, k) ∧ r.toInt < 0) ∨
      ∃ child p, k.envFreeList = some child ∧ k.phys.pageFreeList = some p ∧ child ≠ cur ∧
        sysExofork k cur = .ok (nextEnvId (k.envs child).envId child,
          allocated k child p (forkedEnv k cur child p)) := by
  by_cases hno : k.envFreeList = none ∨ k.phys.pageFreeList = none
  · obtain ⟨r, hal, hr⟩ := envAlloc_fails hno (k.envs cur).envId
    refine .inl ⟨hno, r, ?_, hr⟩
    simp only [sysExofork, hal, orPanic, mapError_ok, ok_bind]
    rfl
  · obtain ⟨hfl, hp⟩ := not_or.1 hno
    obtain ⟨child, hfl⟩ := Option.ne_none_iff_exists'.1 hfl
    obtain ⟨p, hp⟩ := Option.ne_none_iff_exists'.1 hp
    have hne : child ≠ cur := by
      rintro rfl
      exact hd (FreeSlots.head ht.free_list hfl)
    refine .inr ⟨child, p, hfl, hp, hne, ?_⟩
    have hstate :
        exoforkChild (allocated k child p (newEnv k (k.envs cur).envId child p)) cur child =
        allocated k child p (forkedEnv k cur child p) := by
      simp [exoforkChild, Kernel.setEnv, forkedEnv, allocated, Function.update_of_ne hne.symm]
    have hid : nextEnvId (k.envs child).envId child ≠ (k.envs cur).envId := fun hc =>
      hne (by rw [← ht.ids cur hd, ← hc, ENVX_nextEnvId])
    simp only [sysExofork, envAlloc_some hfl hp, orPanic, mapError_ok, ok_bind, hstate]
    rw [if_neg]
    · simp [allocated, forkedEnv, newEnv]
    · simpa [allocated, Function.update_of_ne hne.symm, forkedEnv, newEnv] using hid

section
variable (hne : child ≠ cur)
include hne

/-- The parent finds its child. -/
theorem envid2env_forked (b : Bool) : envid2env (forked k cur child p upcall) cur
    (nextEnvId (k.envs child).envId child) b = some child := by
  have henv : (forked k cur child p upcall).envs child =
      { forkedEnv k cur child p with envPgfaultUpcall := upcall } := by simp [forked, allocated]
  have hcur : (forked k cur child p upcall).envs cur = k.envs cur := by
    simp [forked, allocated, Function.update_of_ne hne.symm]
  unfold envid2env
  rw [if_neg (not_neg_nextEnvId _ _), if_neg (nextEnvId_ne_zero _ _)]
  simp only [ENVX_nextEnvId, henv, hcur]
  rw [if_neg, if_neg]
  · rintro ⟨-, -, hc⟩
    exact hc rfl
  · rintro (hc | hc)
    · exact absurd hc (by decide : ENV_NOT_RUNNABLE ≠ ENV_FREE)
    · exact hc rfl

theorem setUpcall_forked :
    (sysEnvSetPgfaultUpcall (allocated k child p (forkedEnv k cur child p)) cur
    (nextEnvId (k.envs child).envId child) upcall).2 = forked k cur child p upcall := by
  have hfind : envid2env (forked k cur child p 0) cur (nextEnvId (k.envs child).envId child) true =
      some child := envid2env_forked hne true
  rw [show forked k cur child p 0 = allocated k child p (forkedEnv k cur child p) from rfl] at hfind
  simp only [sysEnvSetPgfaultUpcall, hfind]
  simp [forked, allocated, Kernel.setEnv]

theorem setStatus_forked (σ : Phys) :
    sysEnvSetStatus { forked k cur child p upcall with phys := σ } cur
    (nextEnvId (k.envs child).envId child) ENV_RUNNABLE =
      (0, ({ forked k cur child p upcall with phys := σ } : Kernel).setStatus child
        ENV_RUNNABLE) := by
  have hfind : envid2env { forked k cur child p upcall with phys := σ } cur
      (nextEnvId (k.envs child).envId child) true = some child := envid2env_forked hne true
  have hstat : ((forked k cur child p upcall).envs child).envStatus = ENV_NOT_RUNNABLE := by
    simp [forked, allocated, forkedEnv]
  simp only [sysEnvSetStatus, hfind]
  exact if_neg fun hc => hc.2 hstat.symm

end

theorem dirs_forked (upcall : Word) :
    (forked k cur child p upcall).dirs = Function.update k.dirs child (some p) := by
  funext e
  by_cases he : e = child
  · subst he
    simp [Kernel.dirs, forked, allocated, forkedEnv, newEnv]
  · simp [Kernel.dirs, forked, allocated, Function.update_of_ne he]

/-- The child starts with an empty address space, and nobody else's has changed. -/
structure EmptyChild (managed tables : Set Nat) (k : Kernel) (rest : List Nat)
    (child : EnvIdx) (p : Nat) (k₁ : Kernel) : Prop where
  inv : SpaceInv managed tables k₁.phys k₁.dirs rest ∅
  dirs : k₁.dirs = Function.update k.dirs child (some p)
  vm : vm k₁.phys k₁.dirs = vm k.phys k.dirs
  pdes : ∀ x, x.1 ≠ child → pdes k₁.phys k₁.dirs x = pdes k.phys k.dirs x
  empty : ∀ i, target k₁.phys k₁.dirs (.pde child i) = none
  mem : ∀ f ≠ p, k₁.phys.mem f = k.phys.mem f

theorem emptyChild_forked {rest : List Nat}
    (h : SpaceInv managed tables k.phys k.dirs (p :: rest) ∅) (hc : k.dirs child = none)
    (upcall : Word) :
    EmptyChild managed tables k rest child p (forked k cur child p upcall) := by
  obtain ⟨hinv, hvm, hpd, hempty, hmem⟩ := h.setupVm hc
  have hdirs : (forked k cur child p upcall).dirs = _ := dirs_forked upcall
  rw [← hdirs] at hinv hvm hpd hempty
  exact ⟨hinv, hdirs, hvm, hpd, hempty, hmem⟩

theorem EmptyChild.forkTables {rest : List Nat} {k₁ : Kernel}
    (h : EmptyChild managed tables k rest child p k₁) (hne : child ≠ cur) :
    forkTables k₁ cur = forkTables k cur := by
  ext i
  rw [Jos.forkTables, Jos.forkTables, Finset.mem_filter, Finset.mem_filter, h.vm,
    h.pdes (cur, i) hne.symm]

/-! ## `fork`, with a handler -/

/-- What `fork` leaves: the child is made runnable. -/
def started (k₁ : Kernel) (child : EnvIdx) (σ : Phys) : Kernel :=
  ({ k₁ with phys := σ } : Kernel).setStatus child ENV_RUNNABLE

theorem dirs_started (k₁ : Kernel) (child : EnvIdx) (σ : Phys) :
    (started k₁ child σ).dirs = k₁.dirs := by
  funext e
  by_cases he : e = child
  · subst he
    simp [Kernel.dirs, started, Kernel.setStatus, Kernel.setEnv]
  · simp [Kernel.dirs, started, Kernel.setStatus, Kernel.setEnv, Function.update_of_ne he]

theorem target_started (k₁ : Kernel) (child : EnvIdx) (σ : Phys) :
    target (started k₁ child σ).phys (started k₁ child σ).dirs = target σ k₁.dirs := by
  rw [dirs_started]
  rfl

theorem SpaceInv.pageFreeList_eq_none_iff (h : SpaceInv managed tables σ dirs free held) :
    σ.pageFreeList = none ↔ free = [] := by
  cases free with
  | nil => exact iff_of_true h.pinv.head_eq_none rfl
  | cons q rest => simp [h.pinv.head_eq]

section
variable (ht : TabInv k) (hd : k.dirs cur ≠ none)
include ht hd

theorem fork_fails (hno : k.envFreeList = none ∨ k.phys.pageFreeList = none) (upcall : Word) :
    fork upcall true k cur = .error (.panic "fork in copy-on-write:" k) := by
  rcases sysExofork_spec ht hd with ⟨-, r, hexo, hr⟩ | ⟨child, p, hfl, hp, -, -⟩
  · unfold fork setPgfaultHandler
    rw [if_pos rfl, ok_bind, hexo, mapError_ok, ok_bind]
    exact if_pos hr
  · simp [hfl, hp] at hno

/-- `fork` makes a child and returns its id, whatever its loop leaves. -/
theorem fork_of_loop (hfl : k.envFreeList = some child) (hp : k.phys.pageFreeList = some p)
    (hloop : (List.range (PGNUM UTOP)).foldlM (forkPage cur (nextEnvId (k.envs child).envId child))
      (forked k cur child p upcall) = .ok { forked k cur child p upcall with phys := σ }) :
    fork upcall true k cur = .ok (nextEnvId (k.envs child).envId child,
      started (forked k cur child p upcall) child σ) := by
  rcases sysExofork_spec ht hd with ⟨hno, -⟩ | ⟨child', p', hfl', hp', hne, hexo⟩
  · simp [hfl, hp] at hno
  obtain rfl : child = child' := Option.some.inj (hfl.symm.trans hfl')
  obtain rfl : p = p' := Option.some.inj (hp.symm.trans hp')
  have hset : sysEnvSetStatus { forked k cur child p upcall with phys := σ } cur
      (nextEnvId (k.envs child).envId child) ENV_RUNNABLE =
        (0, started (forked k cur child p upcall) child σ) := setStatus_forked hne σ
  unfold fork setPgfaultHandler
  rw [if_pos rfl, ok_bind, hexo, mapError_ok, ok_bind]
  simp only
  rw [if_neg (not_neg_nextEnvId _ _), if_neg (nextEnvId_ne_zero _ _).symm,
    setUpcall_forked hne, hloop, ok_bind, hset]
  exact if_neg (show ¬ (0 : Word).toInt < 0 by decide)

end

/-- The MMU lets `e` access the page at `va` in the way `bits` says. -/
def Accessible (k : Kernel) (e : EnvIdx) (va bits : Word) : Prop :=
  ∃ d, k.dirs e = some d ∧ Permits k.phys d va bits

/-- The address space that a successful `fork` promises the child. -/
structure Complete (k k' : Kernel) (cur child : EnvIdx) (upcall : Word) : Prop where
  pages : ∀ n < PGNUM UXSTACKBASE, Accessible k cur (PGNUM2LA n) (PTE_P ||| PTE_U) →
    target k'.phys k'.dirs (.pte child (PDX (PGNUM2LA n)) (PTX (PGNUM2LA n))) ≠ none
  stack : ∃ p, target k'.phys k'.dirs (.pte child (PDX UXSTACKBASE) (PTX UXSTACKBASE)) = some p ∧
    Accessible k' child UXSTACKBASE (PTE_P ||| PTE_U ||| PTE_W) ∧
    ∀ e i j, target k'.phys k'.dirs (.pte e i j) = some p → e = child
  upcall : (k'.envs child).envPgfaultUpcall = upcall

theorem SpaceInv.accessible_iff (h : SpaceInv managed tables k.phys k.dirs free ∅)
    (hd : k.dirs e ≠ none) (hva : va < UTOP) :
    Accessible k e va (PTE_P ||| PTE_U) ↔ UserPte (vm k.phys k.dirs (mapIdx e va)) := by
  obtain ⟨d, hd⟩ := Option.ne_none_iff_exists'.1 hd
  constructor
  · rintro ⟨d', hd', hp⟩
    exact ((permits_iff hd' hva (by decide)).1 hp).2
  · intro hw
    exact ⟨d, hd, h.permits_read hd hva hw⟩

theorem PGNUM2LA_pageNo (i j : Idx) :
    PDX (PGNUM2LA (pageNo i j)) = i ∧ PTX (PGNUM2LA (pageNo i j)) = j := by
  have hlt : pageNo i j < 2 ^ 20 := by
    rw [pageNo]
    omega
  have hidx := (pageNo_eq_iff hlt).1 rfl
  exact ⟨hidx.1.symm, hidx.2.symm⟩

theorem SpaceInv.named_ne_free (h : SpaceInv managed tables σ dirs free held) (hp : p ∈ free)
    (x : MapIdx) :
    named (vm σ dirs x) ≠ some p := fun hc => (h.inUse (inUse_of_vm hc)).2.1 hp

theorem ne_stack {i j : Idx} (hij : pageNo i j < PGNUM UXSTACKBASE) :
    (child, i, j) ≠ mapIdx child UXSTACKBASE := by
  intro hc
  obtain ⟨rfl, rfl⟩ : i = PDX UXSTACKBASE ∧ j = PTX UXSTACKBASE := by simpa [mapIdx] using hc
  exact absurd hij (by decide)

section
variable {k₁ : Kernel} {free₁ : List Nat}
  (hd : k₁.dirs cur ≠ none) (h₁ : SpaceInv managed tables k₁.phys k₁.dirs free₁ ∅)
  (hC : Copying managed tables k₁ free₁ cur child (PGNUM UXSTACKBASE) σ free)
include hd h₁ hC

/-- What `Complete` promises is there only if there was memory for it. -/
theorem Complete.room {k' : Kernel} (hcomp : Complete k₁ k' cur child upcall)
    (htgt : target k'.phys k'.dirs = target σ' k₁.dirs)
    (hend : vm σ' k₁.dirs = vm σ k₁.dirs ∨
      1 + tableNeed { k₁ with phys := σ } child UXSTACKBASE ≤ free.length ∧
        ∃ w, vm σ' k₁.dirs = Function.update (vm σ k₁.dirs) (mapIdx child UXSTACKBASE) w) :
    (forkTables k₁ cur).card + 1 ≤ free₁.length := by
  refine hC.needed (fun i j hij hw hz => ?_) ?_
  · obtain ⟨hi, hj⟩ := PGNUM2LA_pageNo i j
    have hva := addrOk_PGNUM2LA (hij.trans (by decide : PGNUM UXSTACKBASE < PGNUM UTOP))
    have hpage := hcomp.pages _ hij ((h₁.accessible_iff hd hva.1).2 (by rwa [mapIdx, hi, hj]))
    rw [htgt, hi, hj] at hpage
    apply hpage
    change named (vm σ' k₁.dirs (child, i, j)) = none
    rcases hend with hvm | ⟨-, w, hvm⟩
    · rw [hvm, hz]
      exact named_zero
    · rw [hvm, Function.update_of_ne (ne_stack hij), hz]
      exact named_zero
  · obtain ⟨p, hp, -⟩ := hcomp.stack
    rw [htgt] at hp
    change named (vm σ' k₁.dirs (mapIdx child UXSTACKBASE)) = some p at hp
    rcases hend with hvm | ⟨hroom, -⟩
    · rw [hvm, hC.stack_empty le_rfl] at hp
      cases named_zero.symm.trans hp
    · exact hroom

theorem Copying.complete (hdc : k₁.dirs child ≠ none)
    (h' : SpaceInv managed tables σ' k₁.dirs free' ∅)
    (hup : (k₁.envs child).envPgfaultUpcall = upcall) (hcopy : ∀ i j, vm σ k₁.dirs (child, i, j) =
      copied (PGNUM UXSTACKBASE) i j (vm k₁.phys k₁.dirs (cur, i, j)))
    (hp : p ∈ free)
    (hvm : vm σ' k₁.dirs = Function.update (vm σ k₁.dirs) (mapIdx child UXSTACKBASE)
      (page2pa p ||| (PTE_P ||| PTE_U ||| PTE_W) ||| PTE_P)) :
    Complete k₁ (started k₁ child σ') cur child upcall := by
  have htgt := target_started k₁ child σ'
  have hstack : vm σ' k₁.dirs (mapIdx child UXSTACKBASE) =
      page2pa p ||| (PTE_P ||| PTE_U ||| PTE_W) ||| PTE_P := by
    rw [hvm, Function.update_self]
  refine ⟨fun n hn hacc => ?_, ⟨p, ?_, ?_, fun e i j hp' => ?_⟩, ?_⟩
  · have hva := addrOk_PGNUM2LA (hn.trans (by decide : PGNUM UXSTACKBASE < PGNUM UTOP))
    have hw := (h₁.accessible_iff hd hva.1).1 hacc
    have hno := (pageNo_eq_iff (hn.trans (PGNUM_lt UXSTACKBASE))).2 ⟨rfl, rfl⟩
    have hlt := hno.trans_lt hn
    have hpte : vm σ' k₁.dirs (child, PDX (PGNUM2LA n), PTX (PGNUM2LA n)) =
        dupPte (vm k₁.phys k₁.dirs (cur, PDX (PGNUM2LA n), PTX (PGNUM2LA n))) := by
      rw [hvm, Function.update_of_ne (ne_stack hlt), hcopy, copied, if_pos ⟨hlt, hw⟩]
    have hw' := hw.dupPte
    rw [mapIdx, ← hpte] at hw'
    rw [htgt, target_of_PU hw']
    simp
  · rw [htgt]
    change named (vm σ' k₁.dirs (mapIdx child UXSTACKBASE)) = some p
    rw [hstack, named_of_present (present_of_and (and_PUW p) (by decide)),
      PGNUM_PUW (hC.inv.pinv.lt_two_pow (hC.inv.pinv.free_managed hp))]
  · obtain ⟨d, hdc⟩ := Option.ne_none_iff_exists'.1 hdc
    refine ⟨d, (dirs_started k₁ child σ').symm ▸ hdc, ?_⟩
    exact SpaceInv.permits_write (k := { k₁ with phys := σ' }) h' hdc (by decide)
      (hstack ▸ and_PUW p)
  · rw [htgt] at hp'
    by_contra hne
    change named (vm σ' k₁.dirs (e, i, j)) = some p at hp'
    rw [hvm, Function.update_of_ne fun hc => hne (congrArg Prod.fst hc)] at hp'
    exact hC.inv.named_ne_free hp _ hp'
  · simpa [started, Kernel.setStatus, Kernel.setEnv] using hup

end

theorem Complete.congr {k₀ k' : Kernel}
    (hacc : ∀ n < PGNUM UXSTACKBASE, Accessible k₀ cur (PGNUM2LA n) (PTE_P ||| PTE_U) ↔
      Accessible k cur (PGNUM2LA n) (PTE_P ||| PTE_U)) :
    Complete k₀ k' cur child upcall ↔ Complete k k' cur child upcall := by
  constructor
  · intro h
    exact ⟨fun n hn ha => h.pages n hn ((hacc n hn).2 ha), h.stack, h.upcall⟩
  · intro h
    exact ⟨fun n hn ha => h.pages n hn ((hacc n hn).1 ha), h.stack, h.upcall⟩

theorem accessible_congr {k₀ : Kernel} {free₀ : List Nat}
    (h : SpaceInv managed tables k.phys k.dirs free ∅)
    (h₀ : SpaceInv managed tables k₀.phys k₀.dirs free₀ ∅) (hd : k.dirs cur ≠ none)
    (hd₀ : k₀.dirs cur ≠ none) (hvm : ∀ i j, pageNo i j < PGNUM UXSTACKBASE →
      vm k₀.phys k₀.dirs (cur, i, j) = vm k.phys k.dirs (cur, i, j)) :
    ∀ n < PGNUM UXSTACKBASE, Accessible k₀ cur (PGNUM2LA n) (PTE_P ||| PTE_U) ↔
      Accessible k cur (PGNUM2LA n) (PTE_P ||| PTE_U) := by
  intro n hn
  have hva := addrOk_PGNUM2LA (hn.trans (by decide : PGNUM UXSTACKBASE < PGNUM UTOP))
  have hno := (pageNo_eq_iff (hn.trans (PGNUM_lt UXSTACKBASE))).2 ⟨rfl, rfl⟩
  rw [h₀.accessible_iff hd₀ hva.1, h.accessible_iff hd hva.1, mapIdx, hvm _ _ (hno.trans_lt hn)]

/-- **`fork` with a handler**: the child is complete if and only if there was memory for all of it.
-/
theorem fork_makes_iff {rest : List Nat} (h : SpaceInv managed tables k.phys k.dirs (p :: rest) ∅)
    (ht : TabInv k) (hd : k.dirs cur ≠ none) (hfl : k.envFreeList = some child) (upcall : Word) :
    ∃ k', fork upcall true k cur = .ok (nextEnvId (k.envs child).envId child, k') ∧
      (Complete k k' cur child upcall ↔ 2 + (forkTables k cur).card ≤ (p :: rest).length) := by
  have hne : child ≠ cur := by
    rintro rfl
    exact hd (FreeSlots.head ht.free_list hfl)
  have hF : EmptyChild managed tables k rest child p (forked k cur child p upcall) :=
    emptyChild_forked h (FreeSlots.head ht.free_list hfl) upcall
  set k₁ := forked k cur child p upcall with hk₁
  have hdcur : k₁.dirs cur ≠ none := by
    rw [hF.dirs, Function.update_of_ne hne.symm]
    exact hd
  have hdchild : k₁.dirs child ≠ none := by
    rw [hF.dirs, Function.update_self]
    simp
  obtain ⟨σ, free, σ', free', hloop, h', hC, hend, -⟩ :=
    fork_loop hF.inv hdcur hdchild (hk₁ ▸ envid2env_forked hne) hne hF.empty
  refine ⟨started k₁ child σ', fork_of_loop ht hd hfl h.pinv.head_eq hloop, ?_⟩
  have hup : (k₁.envs child).envPgfaultUpcall = upcall := by simp [hk₁, forked, allocated]
  rw [← Complete.congr (accessible_congr h hF.inv hd hdcur fun i j _ => by rw [hF.vm]),
    ← hF.forkTables hne, List.length_cons]
  constructor
  · intro hcomp
    have hroom := hcomp.room hdcur hF.inv hC (target_started k₁ child σ') <| by
      rcases hend with ⟨-, hvm⟩ | ⟨hcount, q, -, hs⟩
      · exact .inl hvm
      · exact .inr ⟨by omega, _, hs.vm⟩
    omega
  · intro hroom
    obtain ⟨hcopy, hleft⟩ := hC.enough (by omega)
    obtain ⟨hshort, -⟩ | ⟨-, q, hq, hs⟩ := hend
    · omega
    · exact hC.complete hdcur hF.inv hdchild h' hup hcopy hq hs.vm

/-! ## `set_pgfault_handler` -/

/-- The pages that `set_pgfault_handler` takes, the first time. -/
def handlerNeed (k : Kernel) (cur : EnvIdx) : ℕ := 1 + tableNeed k cur UXSTACKBASE

/-- Whether it frees the page that was there before. -/
def handlerFrees (k : Kernel) (cur : EnvIdx) : ℕ :=
  match target k.phys k.dirs (.pte cur (PDX UXSTACKBASE) (PTX UXSTACKBASE)) with
  | some q => if k.phys.ppRef q - 1 = 0 then 1 else 0
  | none => 0

/-- The number of free pages when `fork` calls `sys_exofork`, if it gets there with `n` to begin
with. -/
def freeAtExofork (k : Kernel) (cur : EnvIdx) (installed : Bool) (n : ℕ) : Option ℕ :=
  if installed = true then some n
  else if n < handlerNeed k cur then none
  else some (n - handlerNeed k cur + handlerFrees k cur)

/-- What `set_pgfault_handler` leaves. -/
structure Handled (managed tables : Set Nat) (k : Kernel) (cur : EnvIdx) (k₀ : Kernel)
    (free₀ : List Nat) :
    Prop where
  inv : SpaceInv managed tables k₀.phys k₀.dirs free₀ ∅
  tab : TabInv k₀
  dirs : k₀.dirs = k.dirs
  envFreeList : k₀.envFreeList = k.envFreeList
  envs : ∀ e, e ≠ cur → k₀.envs e = k.envs e
  vm : ∀ x, x ≠ mapIdx cur UXSTACKBASE → vm k₀.phys k₀.dirs x = vm k.phys k.dirs x
  pdes : ∀ x, x ≠ (cur, PDX UXSTACKBASE) → pdes k₀.phys k₀.dirs x = pdes k.phys k.dirs x
  mem : ∀ q, InUse k.phys k.dirs q → k₀.phys.mem q = k.phys.mem q

theorem Handled.forkTables {k₀ : Kernel} {free₀ : List Nat}
    (h : Handled managed tables k cur k₀ free₀) :
    forkTables k₀ cur = forkTables k cur := by
  ext i
  rw [Jos.forkTables, Jos.forkTables, Finset.mem_filter, Finset.mem_filter]
  by_cases hi : i = PDX UXSTACKBASE
  · simp [hi]
  · rw [h.pdes (cur, i) (by simpa using hi)]
    have hvm : ∀ j, Jos.vm k₀.phys k₀.dirs (cur, i, j) = Jos.vm k.phys k.dirs (cur, i, j) :=
      fun j =>
      h.vm _ (by simp [mapIdx, hi])
    simp only [hvm]

/-- The state once the handler of `cur` is registered. -/
def registered (k : Kernel) (cur : EnvIdx) (σ : Phys) (upcall : Word) : Kernel :=
  ({ k with phys := σ } : Kernel).setEnv cur fun env => { env with envPgfaultUpcall := upcall }

theorem setUpcall_self (k : Kernel) (cur : EnvIdx) (σ : Phys) (upcall : Word) :
    (sysEnvSetPgfaultUpcall { k with phys := σ } cur 0 upcall).2 = registered k cur σ upcall := by
  simp only [sysEnvSetPgfaultUpcall, envid2env_zero, registered]

theorem TabInv.registered (ht : TabInv k) (hd : k.dirs cur ≠ none) (σ : Phys) (upcall : Word) :
    TabInv (registered k cur σ upcall) ∧ (registered k cur σ upcall).dirs = k.dirs := by
  apply ht.update (e := cur)
  · rfl
  · exact fun e he => Function.update_of_ne he _ _
  · simp [Jos.registered, Kernel.setEnv]
  · simp [Jos.registered, Kernel.setEnv]
  · simp [Jos.registered, Kernel.setEnv]
  · exact fun _ => hd

theorem length_after_alloc {rest : List Nat} {σ₁ : Phys}
    (h : SpaceInv managed tables k.phys k.dirs (p :: rest) ∅)
    (htgt : target σ₁ k.dirs = target k.phys k.dirs) (href : ∀ q ≠ p, σ₁.ppRef q = k.phys.ppRef q)
    (hI : Inserted managed (kernRefs tables) σ₁ σ' k.dirs rest free' {p} cur p UXSTACKBASE perm) :
    free'.length = (p :: rest).length - handlerNeed k cur + handlerFrees k cur := by
  rw [handlerNeed, handlerFrees, List.length_cons]
  cases hq : target k.phys k.dirs (.pte cur (PDX UXSTACKBASE) (PTX UXSTACKBASE)) with
  | none =>
    rw [hI.free_eq (htgt ▸ hq), htgt, tableNeed]
    split_ifs
    · rw [List.length_tail]
      change rest.length - 1 = rest.length + 1 - (1 + 1) + 0
      omega
    · simp
  | some q =>
    have hpde : target k.phys k.dirs (.pde cur (PDX UXSTACKBASE)) ≠ none := by
      intro hc
      have hz : named (vm k.phys k.dirs (cur, PDX UXSTACKBASE, PTX UXSTACKBASE)) = some q := hq
      rw [vm_of_absent hc] at hz
      cases named_zero.symm.trans hz
    have hqp : q ≠ p := by
      rintro rfl
      exact h.pinv.not_mem_free hq List.mem_cons_self
    have hfree := hI.free_some q (htgt ▸ hq)
    rw [if_neg hqp, freeAfter, href q hqp] at hfree
    simp only [hfree, tableNeed, if_neg hpde]
    split_ifs <;> simp

/-- **`set_pgfault_handler`** registers the handler, or there is no memory for the exception stack.
-/
theorem setPgfaultHandler_spec (h : SpaceInv managed tables k.phys k.dirs free ∅) (ht : TabInv k)
    (hd : k.dirs cur ≠ none) (installed : Bool) (upcall : Word)
    (hlt : ∀ q, target k.phys k.dirs (.pte cur (PDX UXSTACKBASE) (PTX UXSTACKBASE)) = some q →
      kernRefs tables q + refs (target k.phys k.dirs) q ≤ 2 ^ 16) :
    (freeAtExofork k cur installed free.length = none ∧ ∃ msg k', k'.envs = k.envs ∧
        setPgfaultHandler upcall installed k cur = .error (.panic msg k')) ∨
      ∃ k₀ free₀, setPgfaultHandler upcall installed k cur = .ok k₀ ∧
        freeAtExofork k cur installed free.length = some free₀.length ∧
        Handled managed tables k cur k₀ free₀ := by
  cases installed with
  | true =>
    exact .inr ⟨k, free, rfl, rfl, h, ht, rfl, rfl, fun _ _ => rfl, fun _ _ => rfl, fun _ _ => rfl,
      fun _ _ => rfl⟩
  | false =>
    unfold setPgfaultHandler freeAtExofork
    simp only [Bool.false_eq_true, if_false]
    rcases h.sysPageAlloc (envid2env_zero k cur true) hd (by decide : UXSTACKBASE < UTOP)
      (by decide : (PTE_U ||| PTE_W ||| PTE_P) &&& ~~~PTE_SYSCALL = 0) hlt with
      ⟨hshort, σ', hal, -⟩ | ⟨hroom, p, rest, σ₁, σ', free', rfl, hal, htgt, hpd, href, hI, h', hs⟩
    · refine .inl ⟨if_pos hshort, "allocating at ", { k with phys := σ' }, rfl, ?_⟩
      simp only [hal, ofCall, mapError_ok, ok_bind]
      exact if_pos (by decide)
    · obtain ⟨ht', hdirs⟩ := ht.registered hd σ' upcall
      refine .inr ⟨registered k cur σ' upcall, free', ?_, ?_, hdirs.symm ▸ h', ht', hdirs, rfl,
        fun e he => Function.update_of_ne he _ _, fun x hx => ?_, fun x hx => ?_, hs.mem⟩
      · simp only [hal, ofCall, mapError_ok, ok_bind, setUpcall_self]
        exact if_neg (by decide)
      · change handlerNeed k cur ≤ (p :: rest).length at hroom
        rw [if_neg (not_lt.2 hroom), length_after_alloc h htgt href hI]
      · rw [hdirs]
        exact hs.vm ▸ Function.update_of_ne hx _ _
      · rw [hdirs, ← hpd]
        exact hI.pdes ▸ Function.update_of_ne hx _ _

/-! ## `fork` -/

/-- No environment that was free can run. -/
def NoChild (k k' : Kernel) : Prop :=
  ∀ e, (k.envs e).envStatus = ENV_FREE → (k'.envs e).envStatus ≠ ENV_RUNNABLE

/-- What `fork` promises: a positive id comes with a complete child, and everything else with an
error or a panic and no child that can run. -/
def ForkSafe (upcall : Word) (installed : Bool) (k : Kernel) (cur : EnvIdx) : Prop :=
  match fork upcall installed k cur with
  | .ok (r, k') =>
    (0 < r.toInt → Complete k k' cur (ENVX r) upcall) ∧ (¬ 0 < r.toInt → r.toInt < 0 ∧ NoChild k k')
  | .error (.panic _ k') => NoChild k k'
  | .error (.kernel _) => False

/-- There is memory for all of the child, or `sys_exofork` or something before it fails. -/
def ForkFits (k : Kernel) (cur : EnvIdx) (installed : Bool) (n : ℕ) : Prop :=
  ∀ m, freeAtExofork k cur installed n = some m →
    k.envFreeList = none ∨ m = 0 ∨ 2 + (forkTables k cur).card ≤ m

theorem fork_of_handled {installed : Bool} {k₀ : Kernel}
    (h : setPgfaultHandler upcall installed k cur = .ok k₀) :
    fork upcall installed k cur = fork upcall true k₀ cur := by
  unfold fork
  rw [h]
  rfl

theorem fork_of_unhandled {installed : Bool} {stop : UserStop}
    (h : setPgfaultHandler upcall installed k cur = .error stop) :
    fork upcall installed k cur = .error stop := by
  unfold fork
  rw [h]
  rfl

theorem noChild_of_envs {k' : Kernel}
    (h : ∀ e, (k.envs e).envStatus = ENV_FREE → k'.envs e = k.envs e) :
    NoChild k k' := by
  intro e he
  rw [h e he, he]
  decide

/-- `fork` gets to its loop: it returns the id of the child. -/
theorem fork_returns {installed : Bool} {m : ℕ} (h : SpaceInv managed tables k.phys k.dirs free ∅)
    (ht : TabInv k) (hd : k.dirs cur ≠ none) (upcall : Word)
    (hlt : ∀ q, target k.phys k.dirs (.pte cur (PDX UXSTACKBASE) (PTX UXSTACKBASE)) = some q →
      kernRefs tables q + refs (target k.phys k.dirs) q ≤ 2 ^ 16)
    (hm : freeAtExofork k cur installed free.length = some m) (hpos : m ≠ 0)
    (hfl : k.envFreeList = some child) :
    ∃ r k', fork upcall installed k cur = .ok (r, k') ∧ 0 < r.toInt ∧ ENVX r = child ∧
      (Complete k k' cur child upcall ↔ 2 + (forkTables k cur).card ≤ m) := by
  rcases setPgfaultHandler_spec h ht hd installed upcall hlt with
    ⟨hnone, -⟩ | ⟨k₀, free₀, hok, hcount, hH⟩
  · cases hnone.symm.trans hm
  obtain rfl : free₀.length = m := Option.some.inj (hcount.symm.trans hm)
  have hd₀ : k₀.dirs cur ≠ none := hH.dirs ▸ hd
  obtain ⟨p, rest, rfl⟩ := List.exists_cons_of_length_pos (Nat.pos_of_ne_zero hpos)
  obtain ⟨k', hfork, hiff⟩ := fork_makes_iff hH.inv hH.tab hd₀ (hH.envFreeList.trans hfl) upcall
  refine ⟨_, k', (fork_of_handled hok).trans hfork, toInt_nextEnvId_pos _ _, ENVX_nextEnvId _ _, ?_⟩
  have hcongr : Complete k₀ k' cur child upcall ↔ Complete k k' cur child upcall :=
    Complete.congr (accessible_congr h hH.inv hd hd₀ fun i j hij => hH.vm _ (ne_stack hij))
  rw [← hcongr, hiff, hH.forkTables]

/-- `fork` stops before its loop: there is no child. -/
theorem fork_stops {installed : Bool} (h : SpaceInv managed tables k.phys k.dirs free ∅)
    (ht : TabInv k) (hcur : (k.envs cur).envStatus ≠ ENV_FREE) (upcall : Word)
    (hlt : ∀ q, target k.phys k.dirs (.pte cur (PDX UXSTACKBASE) (PTX UXSTACKBASE)) = some q →
      kernRefs tables q + refs (target k.phys k.dirs) q ≤ 2 ^ 16)
    (hno : ∀ m, freeAtExofork k cur installed free.length = some m → k.envFreeList = none ∨ m = 0) :
    ∃ msg k', fork upcall installed k cur = .error (.panic msg k') ∧ NoChild k k' := by
  have hd : k.dirs cur ≠ none := ht.live cur hcur
  rcases setPgfaultHandler_spec h ht hd installed upcall hlt with
    ⟨-, msg, k', henvs, hstop⟩ | ⟨k₀, free₀, hok, hcount, hH⟩
  · exact ⟨msg, k', fork_of_unhandled hstop, noChild_of_envs fun e _ => by rw [henvs]⟩
  have hno' : k₀.envFreeList = none ∨ k₀.phys.pageFreeList = none := by
    rw [hH.envFreeList, hH.inv.pageFreeList_eq_none_iff]
    exact (hno _ hcount).imp_right List.eq_nil_of_length_eq_zero
  refine ⟨_, k₀, (fork_of_handled hok).trans (fork_fails hH.tab (hH.dirs ▸ hd) hno' upcall), ?_⟩
  refine noChild_of_envs fun e he => hH.envs e ?_
  rintro rfl
  exact hcur he

theorem MemInit.spaceInv (h : MemInit managed tables k free) :
    SpaceInv managed tables k.phys k.dirs free ∅ := by
  have hpd : ∀ x, pdes k.phys k.dirs x = 0 := fun x => by simp [pdes, h.no_env]
  refine ⟨h.pinv, ⟨h.kern_dir, fun x hx => ?_, fun e i j p ht => ?_⟩, fun e d hd => ?_,
    fun e i j hu => ?_⟩
  · rw [hpd x] at hx
    exact (not_present_zero hx).elim
  · rw [h.target_eq_none] at ht
    cases ht
  · rw [h.no_env e] at hd
    cases hd
  · rw [h.vm_eq_zero] at hu
    exact (hu (by simp)).elim

theorem SpaceInv.alloc_empty {envid : Word} (h : SpaceInv managed tables k.phys k.dirs free ∅)
    (hf : envid2env k cur envid true = some e) (hd : k.dirs e ≠ none) (hva : va < UTOP)
    (hperm : perm &&& ~~~PTE_SYSCALL = 0) (hempty : vm k.phys k.dirs (mapIdx e va) = 0)
    (hroom : 1 + tableNeed k e va ≤ free.length) :
    ∃ p ∈ free, ∃ σ' free', Jos.sysPageAlloc k cur envid va perm = .ok (0, { k with phys := σ' }) ∧
      SpaceInv managed tables σ' k.dirs free' ∅ ∧
      PageStep k.phys σ' k.dirs (mapIdx e va) (page2pa p ||| perm ||| PTE_P) ∧
      free'.length = free.length - (1 + tableNeed k e va) ∧
      userTables σ' k.dirs e = Insert.insert (PDX va) (userTables k.phys k.dirs e) := by
  have hnone : target k.phys k.dirs (.pte e (PDX va) (PTX va)) = none := by
    change named (vm k.phys k.dirs (mapIdx e va)) = none
    rw [hempty]
    exact named_zero
  rcases h.sysPageAlloc hf hd hva hperm (fun q hq => by cases hnone.symm.trans hq) with
    ⟨hshort, -⟩ | ⟨-, p, rest, σ₁, σ', free', rfl, hal, htgt, -, -, hI, h', hs⟩
  · omega
  refine ⟨p, List.mem_cons_self, σ', free', hal, h', hs, ?_, ?_⟩
  · rw [hI.free_eq (htgt ▸ hnone), htgt, tableNeed, List.length_cons]
    split_ifs
    · rw [List.length_tail]
      omega
    · omega
  · have hsame : userTables σ₁ k.dirs e = userTables k.phys k.dirs e := by
      ext i
      rw [mem_userTables, mem_userTables, htgt]
    rw [hI.userTables_self, hsame]

/-- Eleven pages: 1 to 9 are free, 10 is `kern_pgdir`. Two environments are free. -/
def poolKernel : Kernel where
  phys :=
    { npages := 11
      mem := fun _ _ => 0
      ppRef := fun _ => 0
      ppLink := fun p => if 1 ≤ p ∧ p < 9 then some (p + 1) else none
      pageFreeList := some 1
      nAvailPages := 9
      kernPgdir := 10
      tlb := [] }
  envs := fun e => if e = 0 then { envLink := some 1 } else {}
  envFreeList := some 0
  cpuEnv := fun _ => none
  cr3 := fun _ => 10

theorem poolKernel_memInit : MemInit (Set.Icc 1 9) ∅ poolKernel [1, 2, 3, 4, 5, 6, 7, 8, 9] where
  chain := .cons (.cons (.cons (.cons (.cons (.cons (.cons (.cons (.cons .nil))))))))
  mem_free p := by
    simp only [List.mem_cons, List.not_mem_nil, or_false, Set.mem_Icc, Set.mem_empty_iff_false,
      not_false_eq_true, and_true]
    omega
  tables_sub p hp := hp.elim
  ref_free p _ := rfl
  ref_tables p hp := hp.elim
  bound p hp := by
    obtain ⟨h1, h9⟩ := hp
    show p ≠ 0 ∧ p < 11
    omega
  npages_le := by decide
  kern := by simp [poolKernel]
  kern_dir i _ := not_present_zero
  no_env e := by
    simp only [Kernel.dirs, poolKernel]
    split_ifs <;> rfl

theorem poolKernel_tab : TabInv poolKernel := by
  refine ⟨⟨[0, 1], .cons (.cons .nil), fun e _ => poolKernel_memInit.no_env e⟩, fun e he => ?_,
    fun e he => ?_⟩
  · refine (he ?_).elim
    simp only [poolKernel]
    split_ifs <;> rfl
  · exact (he (poolKernel_memInit.no_env e)).elim

def UTEXT : Word := 0x800000#32

/-- A program with a page of code and a page of stack. -/
def loaded : Except String Kernel := do
  let (_, k) ← envAlloc poolKernel 0
  let (_, k) ← sysPageAlloc k 0 0 UTEXT (PTE_P ||| PTE_U ||| PTE_W)
  let (_, k) ← sysPageAlloc k 0 0 (USTACKTOP - 0x1000#32) (PTE_P ||| PTE_U ||| PTE_W)
  return k

/-- The mappings of the program, if its pages are `p` and `q`. -/
def twoPages (p q : Nat) : MapIdx → Word :=
  Function.update (Function.update (fun _ => 0) (mapIdx 0 UTEXT)
    (page2pa p ||| (PTE_P ||| PTE_U ||| PTE_W) ||| PTE_P)) (mapIdx 0 (USTACKTOP - 0x1000#32))
    (page2pa q ||| (PTE_P ||| PTE_U ||| PTE_W) ||| PTE_P)

/-- The kernel once its first environment is there. -/
def firstEnv : Kernel := allocated poolKernel 0 1 (newEnv poolKernel 0 0 1)

theorem envAlloc_poolKernel : envAlloc poolKernel 0 = .ok (.ok 0, firstEnv) :=
  envAlloc_some rfl rfl 0

theorem dirs_firstEnv : firstEnv.dirs = Function.update poolKernel.dirs 0 (some 1) := by
  funext e
  by_cases he : e = 0
  · subst he
    simp [Kernel.dirs, firstEnv, allocated, newEnv]
  · simp [Kernel.dirs, firstEnv, allocated, Function.update_of_ne he]

theorem dirs_firstEnv_ne : firstEnv.dirs 0 ≠ none := by
  rw [dirs_firstEnv, Function.update_self]
  simp

theorem tabInv_firstEnv : TabInv firstEnv :=
  poolKernel_tab.allocated rfl dirs_firstEnv (ENVX_nextEnvId _ _)

theorem spaceInv_firstEnv :
    SpaceInv (Set.Icc 1 9) ∅ firstEnv.phys firstEnv.dirs [2, 3, 4, 5, 6, 7, 8, 9] ∅ ∧
      vm firstEnv.phys firstEnv.dirs = (fun _ => 0) ∧
        userTables firstEnv.phys firstEnv.dirs 0 = ∅ := by
  obtain ⟨h, hvm, -, htab, -⟩ := poolKernel_memInit.spaceInv.setupVm (poolKernel_memInit.no_env 0)
  rw [← dirs_firstEnv] at h hvm htab
  refine ⟨h, hvm.trans (funext poolKernel_memInit.vm_eq_zero), ?_⟩
  ext i
  simp only [mem_userTables, Finset.notMem_empty, iff_false, not_not]
  exact htab i

theorem firstEnv_alloc (hva : va < UTOP) : ∃ p σ free, sysPageAlloc firstEnv 0 0 va
      (PTE_P ||| PTE_U ||| PTE_W) = .ok (0, { firstEnv with phys := σ }) ∧
    SpaceInv (Set.Icc 1 9) ∅ σ firstEnv.dirs free ∅ ∧ free.length = 6 ∧
    userTables σ firstEnv.dirs 0 = {PDX va} ∧
    vm σ firstEnv.dirs = Function.update (fun _ => 0) (mapIdx 0 va)
      (page2pa p ||| (PTE_P ||| PTE_U ||| PTE_W) ||| PTE_P) := by
  obtain ⟨h, hvm, htab⟩ := spaceInv_firstEnv
  have hneed : tableNeed firstEnv 0 va = 1 := by
    rw [tableNeed_eq, htab]
    rfl
  obtain ⟨p, -, σ, free, hal, h', hs, hlen, htab'⟩ := h.alloc_empty (envid2env_zero firstEnv 0 true)
    dirs_firstEnv_ne hva (by decide : (PTE_P ||| PTE_U ||| PTE_W) &&& ~~~PTE_SYSCALL = 0)
    (by rw [hvm]) (by rw [hneed]; decide)
  rw [hneed] at hlen
  rw [htab] at htab'
  have hv := hs.vm
  rw [hvm] at hv
  exact ⟨p, σ, free, hal, h', hlen, htab', hv⟩

theorem loaded_spec : ∃ k free p q, loaded = .ok k ∧
    SpaceInv (Set.Icc 1 9) ∅ k.phys k.dirs free ∅ ∧ TabInv k ∧ (k.envs 0).envStatus ≠ ENV_FREE ∧
    k.envFreeList = some 1 ∧ free.length = 4 ∧
    userTables k.phys k.dirs 0 = {PDX UTEXT, PDX UXSTACKBASE} ∧
    vm k.phys k.dirs = twoPages p q := by
  obtain ⟨p, σ₂, free₂, hal₂, h₂, hl₂, hu₂, hv₂⟩ := firstEnv_alloc (by decide : UTEXT < UTOP)
  have hn₂ : tableNeed { firstEnv with phys := σ₂ } 0 (USTACKTOP - 0x1000#32) = 1 := by
    rw [tableNeed_eq]
    change (if _ ∈ userTables σ₂ firstEnv.dirs 0 then 0 else 1) = 1
    rw [hu₂]
    decide
  have hempty : vm σ₂ firstEnv.dirs (mapIdx 0 (USTACKTOP - 0x1000#32)) = 0 := by
    rw [hv₂, Function.update_of_ne (by decide)]
  obtain ⟨q, -, σ₃, free₃, hal₃, h₃, hs₃, hl₃, hu₃⟩ :=
    SpaceInv.alloc_empty (k := { firstEnv with phys := σ₂ }) h₂ (envid2env_zero _ 0 true)
    dirs_firstEnv_ne
      (by decide : USTACKTOP - 0x1000#32 < UTOP)
      (by decide : (PTE_P ||| PTE_U ||| PTE_W) &&& ~~~PTE_SYSCALL = 0) hempty
      (by rw [hn₂, hl₂]; decide)
  rw [hn₂, hl₂] at hl₃
  refine ⟨{ firstEnv with phys := σ₃ }, free₃, p, q, ?_, h₃, tabInv_firstEnv.congr rfl rfl, ?_, rfl,
    hl₃, ?_, ?_⟩
  · simp only [loaded, envAlloc_poolKernel, ok_bind, hal₂, hal₃]
    rfl
  · exact (by decide : ENV_RUNNABLE ≠ ENV_FREE)
  · change userTables σ₃ firstEnv.dirs 0 = _
    change userTables σ₃ firstEnv.dirs 0 = Insert.insert _ (userTables σ₂ firstEnv.dirs 0) at hu₃
    rw [hu₃, hu₂]
    decide
  · rw [twoPages, ← hv₂]
    exact hs₃.vm

theorem forkTables_loaded {k : Kernel} {free : List Nat} {p q : Nat}
    (h : SpaceInv (Set.Icc 1 9) ∅ k.phys k.dirs free ∅)
    (hvm : vm k.phys k.dirs = twoPages p q) :
    forkTables k 0 = {PDX UTEXT, PDX UXSTACKBASE} := by
  have hstack : PDX (USTACKTOP - 0x1000#32) = PDX UXSTACKBASE := by decide
  ext i
  rw [forkTables, Finset.mem_filter, Finset.mem_insert, Finset.mem_singleton]
  constructor
  · rintro ⟨-, rfl | ⟨j, -, hw⟩⟩
    · exact .inr rfl
    · by_cases hs : ((0 : EnvIdx), i, j) = mapIdx 0 (USTACKTOP - 0x1000#32)
      · exact .inr ((congrArg (fun x => x.2.1) hs).trans hstack)
      by_cases ht : ((0 : EnvIdx), i, j) = mapIdx 0 UTEXT
      · exact .inl (congrArg (fun x => x.2.1) ht)
      · rw [hvm, twoPages, Function.update_of_ne hs, Function.update_of_ne ht] at hw
        exact absurd hw (by decide)
  · rintro (rfl | rfl)
    · have hw : UserPte (vm k.phys k.dirs (0, PDX UTEXT, PTX UTEXT)) := by
        rw [hvm, twoPages, Function.update_of_ne (by decide)]
        exact (Function.update_self (mapIdx 0 UTEXT) _ _).symm ▸ and_eq_of_and_or_left (and_PUW p)
      exact ⟨Finset.mem_univ _, .inr ⟨_, h.pde_PU hw, hw⟩⟩
    · exact ⟨Finset.mem_univ _, .inl rfl⟩

theorem stack_loaded {k : Kernel} {p q : Nat}
    (hvm : vm k.phys k.dirs = twoPages p q) :
    target k.phys k.dirs (.pte 0 (PDX UXSTACKBASE) (PTX UXSTACKBASE)) = none := by
  change named (vm k.phys k.dirs (mapIdx 0 UXSTACKBASE)) = none
  rw [hvm, twoPages, Function.update_of_ne (by decide), Function.update_of_ne (by decide)]
  exact named_zero

end Jos
