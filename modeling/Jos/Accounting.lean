import Jos.EnvOps

/-!
# Reference counts and the free list

Every page the allocator manages is referred to from page table entries, from directory
entries and from `env_pgdir`. `pp_ref` counts these references, and `page_free_list` holds the
pages without any. This file states that for every state that the page operations reach from
the one `mem_init` leaves.

**Runs.** `PageOp` are the operations, `PageOp.run` executes one on the kernel state and a set
`held` of pages: those that `page_alloc` returned and nobody has inserted yet. `Admissible`
collects what the callers promise along a run: the directories are live, addresses are below
`UTOP`, flags inside `PTE_SYSCALL`, inserted pages are allocated, and no page ever has more
than 65535 references, the range of `pp_ref`.

**Proof.** `PInv` holds after `mem_init` and each operation keeps it; it also shows that no
operation panics. The counts of the statement are the slots of the heap, sorted by kind.
-/

namespace Jos

open Lib

/-! ## Counting references -/

/-- The present PTEs below `UTOP`, over all live directories, that map page `p`. -/
def pteRefs (k : Kernel) (p : Nat) : ℕ :=
  (Finset.univ.filter fun x => named (vm k.phys k.dirs x) = some p).card

/-- The present PDEs below `UTOP`, over all live directories, that point to page `p`. -/
def pdeRefs (k : Kernel) (p : Nat) : ℕ :=
  (Finset.univ.filter fun x => named (pdes k.phys k.dirs x) = some p).card

/-- `1` if page `p` is a live environment's page directory. -/
def dirRefs (k : Kernel) (p : Nat) : ℕ := if ∃ e, k.dirs e = some p then 1 else 0

/-- The references to a page, apart from those of `kern_pgdir`. -/
def userRefs (k : Kernel) (p : Nat) : ℕ := pteRefs k p + pdeRefs k p + dirRefs k p

/-- The kernel's own page tables have one reference from `kern_pgdir`. -/
noncomputable def kernRefs (tables : Set Nat) : Nat → ℕ := tables.indicator fun _ => 1

/-- Slots by kind. -/
def Slot.sort : Slot ≃ EnvIdx ⊕ (EnvIdx × Idx) ⊕ (EnvIdx × Idx × Idx) where
  toFun
    | .dir e => .inl e
    | .pde e i => .inr (.inl (e, i))
    | .pte e i j => .inr (.inr (e, i, j))
  invFun
    | .inl e => .dir e
    | .inr (.inl (e, i)) => .pde e i
    | .inr (.inr (e, i, j)) => .pte e i j
  left_inv s := by cases s <;> rfl
  right_inv x := by rcases x with e | x | x <;> rfl

theorem refs_target (k : Kernel) (p : Nat) :
    refs (target k.phys k.dirs) p =
      (Finset.univ.filter fun e => k.dirs e = some p).card + (pdeRefs k p + pteRefs k p) := by
  rw [refs_equiv Slot.sort, refs_sum, refs_sum]
  rfl

theorem card_dir {k : Kernel} {p : Nat}
    (hinj : ∀ e e', k.dirs e = some p → k.dirs e' = some p → e = e') :
    (Finset.univ.filter fun e => k.dirs e = some p).card = dirRefs k p := by
  unfold dirRefs
  split_ifs with h
  · obtain ⟨e, he⟩ := h
    rw [Finset.card_eq_one]
    refine ⟨e, Finset.ext fun e' => ?_⟩
    simp only [Finset.mem_filter, Finset.mem_univ, true_and, Finset.mem_singleton]
    exact ⟨fun he' => hinj e' e he' he, fun hc => hc ▸ he⟩
  · rw [Finset.card_eq_zero, Finset.filter_eq_empty_iff]
    exact fun e _ he => h ⟨e, he⟩

/-! ## Operations -/

/-- The operations on pages and live directories. -/
inductive PageOp
  | pageAlloc (zero : Bool)
  | pgdirWalk (e : EnvIdx) (va : Word)
  | pageInsert (e : EnvIdx) (pp : Nat) (va perm : Word)
  | pageRemove (e : EnvIdx) (va : Word)
  | envSetupVm (e : EnvIdx)
  | envFree (c : Cpu) (e : EnvIdx)

/-- The kernel state, and the pages returned by `page_alloc` that await insertion. -/
structure Acct where
  k : Kernel
  held : Set Nat

/-- Execute one operation. -/
noncomputable def PageOp.run (s : Acct) : PageOp → Except String Acct
  | .pageAlloc zero =>
    match Jos.pageAlloc s.k.phys zero with
    | (none, σ) => .ok { s with k.phys := σ }
    | (some pp, σ) => .ok ⟨{ s.k with phys := σ }, insert pp s.held⟩
  | .pgdirWalk e va => do
    let (_, σ) ← Jos.pgdirWalk s.k.phys (← s.k.pgdir e) va true
    return { s with k.phys := σ }
  | .pageInsert e pp va perm => do
    let (r, σ) ← Jos.pageInsert s.k.phys (← s.k.pgdir e) (some pp) va perm
    return ⟨{ s.k with phys := σ }, if r = 0 then s.held \ {pp} else s.held⟩
  | .pageRemove e va => do
    let σ ← Jos.pageRemove s.k.phys (← s.k.pgdir e) va
    return { s with k.phys := σ }
  | .envSetupVm e => do
    let (_, k) ← Jos.envSetupVm s.k e
    return { s with k := k }
  | .envFree c e => do
    let k ← Jos.envFree s.k c e
    return { s with k := k }

/-- What the caller of an operation promises. -/
def PageOp.Allowed (managed : Set Nat) (k : Kernel) : PageOp → Prop
  | .pageAlloc _ => True
  | .pgdirWalk e va => k.dirs e ≠ none ∧ va < UTOP
  | .pageInsert e pp va perm => k.dirs e ≠ none ∧ va < UTOP ∧ perm &&& ~~~PTE_SYSCALL = 0 ∧
      pp ∈ managed ∧ ∀ l, Chain k.phys.ppLink k.phys.pageFreeList l → pp ∉ l
  | .pageRemove e va => k.dirs e ≠ none ∧ va < UTOP
  | .envSetupVm e => k.dirs e = none
  | .envFree _ e => k.dirs e ≠ none

/-- No page has more references than `pp_ref` can count. -/
def Countable (tables : Set Nat) (k : Kernel) : Prop :=
  ∀ p, kernRefs tables p + userRefs k p ≤ 65535

/-- The run `ops` from `s` keeps the callers' promises and stays countable. -/
def Admissible (managed tables : Set Nat) : List PageOp → Acct → Prop
  | [], s => Countable tables s.k
  | op :: ops, s => Countable tables s.k ∧ op.Allowed managed s.k ∧
      ∀ s', op.run s = .ok s' → Admissible managed tables ops s'

/-- Execute a sequence of operations. -/
noncomputable def runOps (ops : List PageOp) (s : Acct) : Except String Acct :=
  ops.foldlM PageOp.run s

/-! ## The initial state and the property -/

/-- The state `mem_init` leaves: no environment has a directory yet, `tables` are the pages it
allocated for the kernel's own page tables, and the other managed pages are free. -/
structure MemInit (managed tables : Set Nat) (k : Kernel) (free : List Nat) : Prop where
  chain : Chain k.phys.ppLink k.phys.pageFreeList free
  mem_free : ∀ p, p ∈ free ↔ p ∈ managed ∧ p ∉ tables
  tables_sub : tables ⊆ managed
  ref_free : ∀ p ∈ free, k.phys.ppRef p = 0
  ref_tables : ∀ p ∈ tables, k.phys.ppRef p = 1
  bound : ∀ p ∈ managed, p ≠ 0 ∧ p < k.phys.npages
  npages_le : k.phys.npages ≤ 2 ^ 20
  kern : k.phys.kernPgdir ∉ managed
  kern_dir : KernDir k.phys
  no_env : ∀ e, k.dirs e = none

/-- `pp_ref` counts the references to each page, and the free list holds the unreferenced
pages that are not held. -/
structure Accounted (managed tables : Set Nat) (s : Acct) : Prop where
  ref_eq : ∀ p ∈ managed, p ∉ tables →
    (s.k.phys.ppRef p).toNat = pteRefs s.k p + pdeRefs s.k p + dirRefs s.k p
  free_list : ∃ free : List Nat, Chain s.k.phys.ppLink s.k.phys.pageFreeList free ∧ free.Nodup ∧
    ∀ p, p ∈ free ↔ p ∈ managed ∧ p ∉ tables ∧
      pteRefs s.k p + pdeRefs s.k p + dirRefs s.k p = 0 ∧ p ∉ s.held

/-- The invariant of the runs. -/
structure AcctInv (managed tables : Set Nat) (s : Acct) : Prop where
  pinv : ∃ free, PInv managed (kernRefs tables) s.k.phys s.k.dirs free s.held
  kern_dir : KernDir s.k.phys

variable {managed tables : Set Nat} {k : Kernel} {s : Acct} {free : List Nat} {held : Set Nat}

theorem kernRefs_of_mem {p : Nat} (h : p ∈ tables) : kernRefs tables p = 1 := by
  simp [kernRefs, h]

theorem kernRefs_of_notMem {p : Nat} (h : p ∉ tables) : kernRefs tables p = 0 := by
  simp [kernRefs, h]

theorem PInv.refs_eq {base : Nat → ℕ} (h : PInv managed base k.phys k.dirs free held) (p : Nat) :
    refs (target k.phys k.dirs) p = userRefs k p := by
  rw [refs_target, card_dir fun e e' he he' => h.dir_inj he he', userRefs]
  omega

theorem PInv.noWrap (h : PInv managed (kernRefs tables) k.phys k.dirs free held)
    (hc : Countable tables k) : NoWrap (kernRefs tables) (target k.phys k.dirs) := fun p => by
  have := hc p
  rw [h.refs_eq p]
  omega

theorem AcctInv.accounted (h : AcctInv managed tables s) (hc : Countable tables s.k) :
    Accounted managed tables s := by
  obtain ⟨free, hp⟩ := h.pinv
  refine ⟨fun p hpm hpt => ?_, free, hp.chain, hp.chain.nodup, fun p => ?_⟩
  · have href := hp.valid.ref_eq p hpm
    change s.k.phys.ppRef p =
      BitVec.ofNat 16 (kernRefs tables p + refs (target s.k.phys s.k.dirs) p) at href
    have hle := hc p
    rw [hp.refs_eq p, kernRefs_of_notMem hpt, Nat.zero_add] at href
    rw [kernRefs_of_notMem hpt] at hle
    rw [href, BitVec.toNat_ofNat, userRefs]
    rw [userRefs] at hle
    omega
  · have hfree := hp.valid.mem_free p
    change p ∈ free ↔ p ∈ managed ∧
      kernRefs tables p + refs (target s.k.phys s.k.dirs) p = 0 ∧ p ∉ s.held at hfree
    rw [hp.refs_eq p] at hfree
    by_cases hpt : p ∈ tables
    · rw [kernRefs_of_mem hpt] at hfree
      simp only [hpt, not_true, false_and, and_false, iff_false]
      intro hmem
      have := (hfree.1 hmem).2.1
      omega
    · rw [kernRefs_of_notMem hpt, Nat.zero_add] at hfree
      simpa only [hpt, not_false_iff, true_and, userRefs] using hfree

theorem MemInit.target_eq_none (h : MemInit managed tables k free) (t : Slot) :
    target k.phys k.dirs t = none := by
  have hpd : ∀ x, pdes k.phys k.dirs x = 0 := fun x => by simp [pdes, h.no_env]
  cases t with
  | dir e => exact h.no_env e
  | pde e i => simp [target, hpd]
  | pte e i j => simp [target, vm, hpd]

theorem MemInit.vm_eq_zero (h : MemInit managed tables k free) (x : EnvIdx × Idx × Idx) :
    vm k.phys k.dirs x = 0 := by
  simp [vm, pdes, h.no_env]

theorem MemInit.pinv (h : MemInit managed tables k free) :
    PInv managed (kernRefs tables) k.phys k.dirs free ∅ := by
  have hrefs : ∀ p, refs (target k.phys k.dirs) p = 0 := fun p =>
    refs_eq_zero.2 fun t => by simp [h.target_eq_none]
  refine ⟨h.chain, ⟨h.chain.nodup, fun p => ?_, fun p hp => ?_, fun t p ht => ?_,
    fun p hp => hp.elim⟩, fun t _ p _ _ ht _ => ?_, fun x _ => h.vm_eq_zero x, h.bound, h.npages_le,
    h.kern⟩
  · show p ∈ free ↔ p ∈ managed ∧ kernRefs tables p + refs (target k.phys k.dirs) p = 0 ∧ p ∉ ∅
    rw [h.mem_free p, hrefs, kernRefs]
    by_cases hpt : p ∈ tables <;> simp [hpt]
  · show k.phys.ppRef p = BitVec.ofNat 16 (kernRefs tables p + refs (target k.phys k.dirs) p)
    rw [hrefs]
    by_cases hpt : p ∈ tables
    · rw [h.ref_tables p hpt, kernRefs_of_mem hpt]
      rfl
    · rw [h.ref_free p ((h.mem_free p).2 ⟨hp, hpt⟩), kernRefs_of_notMem hpt]
      rfl
  · change target k.phys k.dirs t = some p at ht
    rw [h.target_eq_none t] at ht
    cases ht
  · rw [h.target_eq_none t] at ht
    cases ht

theorem MemInit.inv (h : MemInit managed tables k free) : AcctInv managed tables ⟨k, ∅⟩ :=
  ⟨⟨free, h.pinv⟩, h.kern_dir⟩

/-! ## Each operation keeps the invariant -/

theorem pgdir_of_dirs {e : EnvIdx} {d : Nat} (h : k.dirs e = some d) : k.pgdir e = .ok d := by
  have h' : (k.envs e).envPgdir = some d := h
  simp [Kernel.pgdir, h']

theorem PInv.target_ne_kern {base : Nat → ℕ} {σ : Phys} {dirs : EnvIdx → Option Nat}
    (h : PInv managed base σ dirs free held) (t : Slot) : target σ dirs t ≠ some σ.kernPgdir :=
  fun ht => h.kern (h.valid.tgt_mem t _ ht)

theorem KernDir.congr {σ σ' : Phys} (h : KernDir σ) (hk : σ'.kernPgdir = σ.kernPgdir)
    (hm : σ'.mem σ.kernPgdir = σ.mem σ.kernPgdir) : KernDir σ' := by
  intro i hi
  rw [hk, hm]
  exact h i hi

theorem AcctInv.pageAlloc (h : AcctInv managed tables s) (zero : Bool) :
    ∃ s', (PageOp.pageAlloc zero).run s = .ok s' ∧ AcctInv managed tables s' := by
  obtain ⟨free, hp⟩ := h.pinv
  cases free with
  | nil =>
    refine ⟨s, ?_, h⟩
    simp only [PageOp.run, Jos.pageAlloc, hp.head_eq_none]
  | cons p rest =>
    obtain ⟨hret, hp', -, -⟩ := hp.alloc zero
    have hpk : s.k.phys.kernPgdir ≠ p := fun hc => hp.kern (hc ▸ hp.free_managed List.mem_cons_self)
    refine ⟨⟨{ s.k with phys := (Jos.pageAlloc s.k.phys zero).2 }, insert p s.held⟩, ?_,
      ⟨rest, hp'⟩, h.kern_dir.congr ?_ ?_⟩
    · simp only [PageOp.run]
      rw [show Jos.pageAlloc s.k.phys zero = (some p, (Jos.pageAlloc s.k.phys zero).2) from
        Prod.ext hret rfl]
    · simp [Jos.pageAlloc, hp.head_eq]
    · rw [mem_pageAlloc hp.head_eq, if_neg fun hc => hpk hc.2]

theorem AcctInv.pgdirWalk (h : AcctInv managed tables s) {e : EnvIdx} {d : Nat} {va : Word}
    (hd : s.k.dirs e = some d) (hva : va < UTOP) :
    ∃ s', (PageOp.pgdirWalk e va).run s = .ok s' ∧ AcctInv managed tables s' := by
  obtain ⟨free, hp⟩ := h.pinv
  have hi := PDX_user hva
  cases hpt : target s.k.phys s.k.dirs (.pde e (PDX va)) with
  | some pt =>
    refine ⟨s, ?_, h⟩
    simp only [PageOp.run, pgdir_of_dirs hd, ok_bind, hp.walk_present hd hi hpt true, pure_eq_ok]
  | none =>
    cases free with
    | nil =>
      refine ⟨s, ?_, h⟩
      simp only [PageOp.run, pgdir_of_dirs hd, ok_bind, hp.walk_no_mem hd hi hpt, pure_eq_ok]
    | cons q rest =>
      obtain ⟨hwalk, hp', -, -, -⟩ := hp.walk_create hd hi hpt
      have hkq : s.k.phys.kernPgdir ≠ q := fun hc =>
        hp.kern (hc ▸ hp.free_managed List.mem_cons_self)
      refine ⟨{ s with k.phys := withTable s.k.phys d va q }, ?_, ⟨rest, hp'⟩,
        h.kern_dir.congr (static_withTable ..).2 (funext fun i => ?_)⟩
      · simp only [PageOp.run, pgdir_of_dirs hd, ok_bind, hwalk, pure_eq_ok]
      · exact mem_withTable hp.head_eq hkq i fun hc => hp.target_ne_kern (.dir e) (hc.1 ▸ hd)

theorem AcctInv.pageInsert (h : AcctInv managed tables s) (hc : Countable tables s.k) {e : EnvIdx}
    {d p : Nat} {va perm : Word} (hd : s.k.dirs e = some d) (hva : va < UTOP)
    (hperm : perm &&& ~~~PTE_SYSCALL = 0) (hpm : p ∈ managed)
    (hpf : ∀ l, Chain s.k.phys.ppLink s.k.phys.pageFreeList l → p ∉ l) :
    ∃ s', (PageOp.pageInsert e p va perm).run s = .ok s' ∧ AcctInv managed tables s' := by
  obtain ⟨free, hp⟩ := h.pinv
  rcases hp.insert hd (PDX_user hva) hpm (hpf free hp.chain) (PTE_ADDR_of_syscall hperm)
    (fun q _ _ => (hp.noWrap hc q).le) with ⟨-, -, hfail⟩ | ⟨σ', free', hins, hI⟩
  · refine ⟨s, ?_, h⟩
    simp only [PageOp.run, pgdir_of_dirs hd, ok_bind, hfail, pure_eq_ok]
    rw [if_neg (by decide)]
  · refine ⟨⟨{ s.k with phys := σ' }, s.held \ {p}⟩, ?_, ⟨free', hI.inv⟩,
      h.kern_dir.congr hI.kernPgdir ?_⟩
    · simp only [PageOp.run, pgdir_of_dirs hd, ok_bind, hins, pure_eq_ok, if_true]
    · exact hI.mem _ (hp.target_ne_kern (.dir e)) (fun e' i => hp.target_ne_kern (.pde e' i))
        fun hmem => hp.kern (hp.free_managed hmem)

theorem AcctInv.pageRemove (h : AcctInv managed tables s) (hc : Countable tables s.k) {e : EnvIdx}
    {d : Nat} {va : Word} (hd : s.k.dirs e = some d) (hva : va < UTOP) :
    ∃ s', (PageOp.pageRemove e va).run s = .ok s' ∧ AcctInv managed tables s' := by
  obtain ⟨free, hp⟩ := h.pinv
  obtain ⟨σ', free', hrem, hp', hdrop, -, -⟩ :=
    hp.remove hd (PDX_user hva) fun q _ => (hp.noWrap hc q).le
  refine ⟨{ s with k.phys := σ' }, ?_, ⟨free', hp'⟩, h.kern_dir.congr hdrop.kernPgdir ?_⟩
  · simp only [PageOp.run, pgdir_of_dirs hd, ok_bind, hrem, pure_eq_ok]
  · exact hdrop.mem _ fun t _ _ => hp.target_ne_kern t

theorem AcctInv.envSetupVm (h : AcctInv managed tables s) {e : EnvIdx} (hd : s.k.dirs e = none) :
    ∃ s', (PageOp.envSetupVm e).run s = .ok s' ∧ AcctInv managed tables s' := by
  obtain ⟨free, hp⟩ := h.pinv
  cases free with
  | nil =>
    refine ⟨s, ?_, h⟩
    simp only [PageOp.run, envSetupVm_none hp.head_eq_none, ok_bind, pure_eq_ok]
  | cons p rest =>
    obtain ⟨hp', -, -⟩ := hp.setupVm h.kern_dir hd
    have hpk : s.k.phys.kernPgdir ≠ p := fun hc => hp.kern (hc ▸ hp.free_managed List.mem_cons_self)
    let k' : Kernel := { s.k with phys := initPgdir (Jos.pageAlloc s.k.phys true).2 p }
    refine ⟨⟨k'.setEnv e fun env => { env with envPgdir := some p }, s.held⟩, ?_, ⟨rest, ?_⟩,
      h.kern_dir.congr (kernPgdir_initPgdir _ p) ?_⟩
    · simp only [PageOp.run, envSetupVm_some hp.head_eq, ok_bind, pure_eq_ok]
      rfl
    · rw [dirs_setEnv]
      exact hp'
    · show (initPgdir (Jos.pageAlloc s.k.phys true).2 p).mem _ = _
      rw [mem_initPgdir _ _ _ hpk, mem_pageAlloc hp.head_eq, if_neg fun hc => hpk hc.2]

theorem AcctInv.envFree (h : AcctInv managed tables s) (hc : Countable tables s.k) (c : Cpu)
    {e : EnvIdx} {d : Nat} (hd : s.k.dirs e = some d) :
    ∃ s', (PageOp.envFree c e).run s = .ok s' ∧ AcctInv managed tables s' := by
  obtain ⟨free, hp⟩ := h.pinv
  obtain ⟨σ', free', hfree, hp', hdrop⟩ := hp.freeVm hd (hp.noWrap hc)
  refine ⟨{ s with k := { s.k.leave c e with phys := σ' }.retire e }, ?_, ⟨free', ?_⟩, ?_⟩
  · simp only [PageOp.run, envFree_of_freeVm c hd hfree, ok_bind, pure_eq_ok]
  · rw [dirs_retire]
    exact hp'
  · exact h.kern_dir.congr hdrop.kernPgdir (hdrop.mem _ fun t _ _ => hp.target_ne_kern t)

/-- **One operation** succeeds and keeps the invariant. -/
theorem AcctInv.step (h : AcctInv managed tables s) (hc : Countable tables s.k) {op : PageOp}
    (hop : op.Allowed managed s.k) : ∃ s', op.run s = .ok s' ∧ AcctInv managed tables s' := by
  have hlive : ∀ {e : EnvIdx}, s.k.dirs e ≠ none → ∃ d, s.k.dirs e = some d :=
    fun he => Option.ne_none_iff_exists'.1 he
  cases op with
  | pageAlloc zero => exact h.pageAlloc zero
  | pgdirWalk e va =>
    obtain ⟨d, hd⟩ := hlive hop.1
    exact h.pgdirWalk hd hop.2
  | pageInsert e pp va perm =>
    obtain ⟨he, hva, hperm, hpm, hpf⟩ := hop
    obtain ⟨d, hd⟩ := hlive he
    exact h.pageInsert hc hd hva hperm hpm hpf
  | pageRemove e va =>
    obtain ⟨d, hd⟩ := hlive hop.1
    exact h.pageRemove hc hd hop.2
  | envSetupVm e => exact h.envSetupVm hop
  | envFree c e =>
    obtain ⟨d, hd⟩ := hlive hop
    exact h.envFree hc c hd

/-! ## Runs -/

theorem AcctInv.run (ops : List PageOp) (h : AcctInv managed tables s)
    (hadm : Admissible managed tables ops s) :
    ∃ s', runOps ops s = .ok s' ∧ AcctInv managed tables s' ∧ Countable tables s'.k := by
  induction ops generalizing s with
  | nil => exact ⟨s, rfl, h, hadm⟩
  | cons op ops ih =>
    obtain ⟨hc, hop, hrest⟩ := hadm
    obtain ⟨s₁, hs₁, h₁⟩ := h.step hc hop
    obtain ⟨s₂, hs₂, h₂⟩ := ih h₁ (hrest s₁ hs₁)
    refine ⟨s₂, ?_, h₂⟩
    show (op.run s >>= fun s' => runOps ops s') = .ok s₂
    rw [hs₁]
    exact hs₂

/-- **Accounting.** From the state `mem_init` leaves, every sequence of page operations that
keeps the callers' promises runs to its end, and there `pp_ref` is the number of references
and the free list holds exactly the pages without any that are not held. -/
theorem accounting (hinit : MemInit managed tables k free) (ops : List PageOp)
    (hadm : Admissible managed tables ops ⟨k, ∅⟩) :
    ∃ s, runOps ops ⟨k, ∅⟩ = .ok s ∧ Accounted managed tables s := by
  obtain ⟨s, hrun, hinv, hc⟩ := hinit.inv.run ops hadm
  exact ⟨s, hrun, hinv.accounted hc⟩

theorem userRefs_of_no_dir (h : ∀ e, k.dirs e = none) (p : Nat) : userRefs k p = 0 := by
  have hpd : ∀ x, pdes k.phys k.dirs x = 0 := fun x => by simp [pdes, h]
  have hvm : ∀ x, vm k.phys k.dirs x = 0 := fun x => by simp [vm, hpd]
  simp [userRefs, pteRefs, pdeRefs, dirRefs, hpd, hvm, h]

/-! ### Small machines -/

/-- A page table entry lies in a frame of its own: the page table and the index in it. -/
theorem PInv.pteRefs_le (h : PInv managed base k.phys k.dirs free held) (p : Nat) :
    pteRefs k p ≤ k.phys.npages * 1024 := by
  have htable : ∀ x : EnvIdx × Idx × Idx, named (vm k.phys k.dirs x) = some p →
      ∃ pt, target k.phys k.dirs (.pde x.1 x.2.1) = some pt := fun x hx => by
    refine Option.ne_none_iff_exists'.1 fun habs => ?_
    have hnone : target k.phys k.dirs (.pte x.1 x.2.1 x.2.2) = none := target_pte_absent habs x.2.2
    cases hnone.symm.trans hx
  have hcard : (Finset.range k.phys.npages ×ˢ (Finset.univ : Finset Idx)).card =
      k.phys.npages * 1024 := by
    rw [Finset.card_product, Finset.card_range, Finset.card_univ, Fintype.card_fin]
  rw [← hcard]
  refine Finset.card_le_card_of_injOn
    (fun x => ((target k.phys k.dirs (.pde x.1 x.2.1)).getD 0, x.2.2)) ?_ ?_ <;>
  simp only [Set.MapsTo, Set.InjOn, Finset.coe_filter, Finset.mem_univ, true_and, Set.mem_ofPred_eq,
    Finset.mem_coe, Finset.mem_product, Finset.mem_range, and_true, Prod.mk.injEq]
  · intro x hx
    obtain ⟨pt, hpt⟩ := htable x hx
    rw [hpt]
    exact h.lt_npages hpt
  · rintro x hx y hy ⟨htab, hj⟩
    obtain ⟨pt, hpt⟩ := htable x hx
    obtain ⟨pt', hpt'⟩ := htable y hy
    rw [hpt, hpt'] at htab
    obtain rfl : pt = pt' := htab
    have hslot := h.table_inj (.pde x.1 x.2.1) (.pde y.1 y.2.1) pt trivial trivial hpt hpt'
    simp only [Slot.pde.injEq] at hslot
    exact Prod.ext hslot.1 (Prod.ext hslot.2 hj)

theorem PInv.pdeRefs_le (h : PInv managed base k.phys k.dirs free held) (p : Nat) :
    pdeRefs k p ≤ 1 := by
  rw [pdeRefs, Finset.card_le_one]
  simp only [Finset.mem_filter, Finset.mem_univ, true_and]
  intro x hx y hy
  have hslot := h.table_inj (.pde x.1 x.2) (.pde y.1 y.2) p trivial trivial hx hy
  simp only [Slot.pde.injEq] at hslot
  exact Prod.ext hslot.1 hslot.2

theorem kernRefs_le (tables : Set Nat) (p : Nat) : kernRefs tables p ≤ 1 := by
  by_cases hp : p ∈ tables
  · rw [kernRefs_of_mem hp]
  · rw [kernRefs_of_notMem hp]
    omega

/-- **On a machine of at most 63 pages `pp_ref` always suffices.** -/
theorem PInv.countable (h : PInv managed base k.phys k.dirs free held)
    (hn : k.phys.npages ≤ 63) : Countable tables k := fun p => by
  have hpte := h.pteRefs_le p
  have hpde := h.pdeRefs_le p
  have hkern := kernRefs_le tables p
  have hdir : dirRefs k p ≤ 1 := by
    unfold dirRefs
    split_ifs <;> omega
  unfold userRefs
  omega

theorem AcctInv.notMem_free (h : AcctInv managed tables s) {p : Nat}
    (hp : p ∈ s.held ∨ s.k.phys.ppRef p ≠ 0) (l : List Nat)
    (hl : Chain s.k.phys.ppLink s.k.phys.pageFreeList l) : p ∉ l := by
  obtain ⟨free, hinv⟩ := h.pinv
  rw [hl.unique hinv.chain]
  intro hmem
  obtain ⟨hpm, hz, hheld⟩ := (hinv.valid.mem_free p).1 hmem
  rcases hp with hp | hp
  · exact hheld hp
  · refine hp ((hinv.valid.ref_eq p hpm).trans ?_)
    rw [hz]
    rfl

theorem AcctInv.admissible_cons {op : PageOp} {ops : List PageOp}
    (h : AcctInv managed tables s) (hn : s.k.phys.npages ≤ 63) (hop : op.Allowed managed s.k)
    (hrest : ∀ s', op.run s = .ok s' → AcctInv managed tables s' →
      Admissible managed tables ops s') :
    Admissible managed tables (op :: ops) s := by
  obtain ⟨free, hp⟩ := h.pinv
  refine ⟨hp.countable hn, hop, fun s' hs' => hrest s' hs' ?_⟩
  obtain ⟨s₁, hs₁, h₁⟩ := h.step (hp.countable hn) hop
  obtain rfl : s₁ = s' := Except.ok.inj (hs₁.symm.trans hs')
  exact h₁

/-- Eight pages: 1 to 4 are free, 5 is a kernel page table, 6 is `kern_pgdir`. -/
def smallKernel : Kernel where
  phys :=
    { npages := 8
      mem := fun _ _ => 0
      ppRef := fun p => if p = 5 then 1 else 0
      ppLink := fun p => if p = 1 ∨ p = 2 ∨ p = 3 then some (p + 1) else none
      pageFreeList := some 1
      nAvailPages := 4
      kernPgdir := 6
      tlb := [] }
  envs := fun _ => {}
  envFreeList := some 0
  cpuEnv := fun _ => none
  cr3 := fun _ => 6

theorem smallKernel_memInit : MemInit {1, 2, 3, 4, 5} {5} smallKernel [1, 2, 3, 4] where
  chain := .cons (.cons (.cons (.cons .nil)))
  mem_free p := by
    simp only [List.mem_cons, List.not_mem_nil, or_false, Set.mem_insert_iff, Set.mem_singleton_iff]
    omega
  tables_sub p hp := by
    obtain rfl : p = 5 := hp
    simp
  ref_free p hp := by
    simp only [List.mem_cons, List.not_mem_nil, or_false] at hp
    rcases hp with rfl | rfl | rfl | rfl <;> rfl
  ref_tables p hp := by
    obtain rfl : p = 5 := hp
    rfl
  bound p hp := by
    simp only [Set.mem_insert_iff, Set.mem_singleton_iff] at hp
    show p ≠ 0 ∧ p < 8
    omega
  npages_le := by decide
  kern := by simp [smallKernel]
  kern_dir i _ := not_present_zero
  no_env e := rfl

/-- Page 1 is mapped at two addresses, through a page table that the first mapping makes, and
one of the mappings is removed again. -/
def smallOps : List PageOp :=
  [.pageAlloc true, .envSetupVm 0, .pageInsert 0 1 0x1000#32 PTE_W, .pageInsert 0 1 0x2000#32 PTE_U,
    .pageRemove 0 0x1000#32]

theorem accounting_small :
    ∃ s, runOps smallOps ⟨smallKernel, ∅⟩ = .ok s ∧ Accounted {1, 2, 3, 4, 5} {5} s := by
  refine accounting smallKernel_memInit _ (smallKernel_memInit.inv.admissible_cons (by decide)
    trivial fun s₁ hs₁ h₁ => ?_)
  obtain rfl := Except.ok.inj hs₁
  refine h₁.admissible_cons (by decide) rfl fun s₂ hs₂ h₂ => ?_
  obtain rfl := Except.ok.inj hs₂
  refine h₂.admissible_cons (by decide) ⟨by decide, by decide, by decide, by simp,
    h₂.notMem_free (.inl (Set.mem_insert 1 ∅))⟩ fun s₃ hs₃ h₃ => ?_
  obtain rfl := Except.ok.inj hs₃
  refine h₃.admissible_cons (by decide) ⟨by decide, by decide, by decide, by simp,
    h₃.notMem_free (.inr (by decide))⟩ fun s₄ hs₄ h₄ => ?_
  obtain rfl := Except.ok.inj hs₄
  refine h₄.admissible_cons (by decide) ⟨by decide, by decide⟩ fun s₅ hs₅ h₅ => ?_
  obtain rfl := Except.ok.inj hs₅
  obtain ⟨free, h⟩ := h₅.pinv
  exact h.countable (by decide)

end Jos
