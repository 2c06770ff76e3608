import Jos.CowPages
import Jos.Lib.Run

/-!
# A tree of forked environments

Environments that only fork and access memory, all of them descendants of one program. `fork` is not
one step here: other environments, and the memory accesses of the parent itself, come between its
system calls. Its loop over the pages is one step, and so is `pgfault`, whose frame and variables
end up on the exception stack.

**The reference** (`eagerStep`) has no page tables. Every environment has pages of its own, a store
changes the page of the environment that makes it, and `fork` copies all pages.

**Theorem (`fork_refines_eager`).** Every run is a run of the reference: the same actions in the
same order, and each load reads the same byte. The loop of `fork` does not notice when memory runs
out for a page table of the child (`Jos.ForkResult`), so each loop must find enough of it. A store
that faults comes to its end, if `pgfault` finds two free pages.
-/

namespace Jos

open Lib

variable {managed tables : Set Nat} {σ σ' : Phys} {dirs : EnvIdx → Option Nat}
  {free free' : List Nat} {k k' : Kernel} {e : EnvIdx} {d p : Nat} {upcall va r : Word}
  {b : BitVec 8}

/-! ## The system -/

/-- Where an environment is. `run` is its own program, outside `fork`; a parent in `fork` knows the
id of its child. A child that has not started is `born` while its address space is empty, and then
`filled`. -/
inductive ForkPc
  | absent
  | run (installed : Bool)
  | stacked
  | handled
  | forked (child : Word)
  | armed (child : Word)
  | copied (child : Word)
  | born (parent : EnvIdx)
  | filled (parent : EnvIdx)
  deriving DecidableEq

/-- The environment has pages that it will use. -/
def ForkPc.live : ForkPc → Bool
  | .absent | .born _ => false
  | _ => true

/-- The environment runs. -/
def ForkPc.awake : ForkPc → Bool
  | .absent | .born _ | .filled _ => false
  | _ => true

/-- Its page fault handler has been registered. -/
def ForkPc.handles : ForkPc → Bool
  | .run installed => installed
  | .handled | .forked _ | .armed _ | .copied _ => true
  | .absent | .stacked | .born _ | .filled _ => false

/-- Its exception stack is mapped. -/
def ForkPc.hasStack : ForkPc → Bool
  | .absent | .run false | .born _ => false
  | _ => true

structure ForkState where
  k : Kernel
  pc : EnvIdx → ForkPc

/-- Environment `e` moves on. -/
def ForkState.goto (s : ForkState) (k : Kernel) (e : EnvIdx) (pc : ForkPc) : ForkState :=
  ⟨k, Function.update s.pc e pc⟩

/-- The actions of environment `e`: it loads the byte `b`, stores a byte, or has a store resolved by
`pgfault`, which leaves `frame` on the exception stack. The others are the steps of `fork`. -/
inductive ForkAct
  | load (e : EnvIdx) (va : Word) (b : BitVec 8)
  | store (e : EnvIdx) (va : Word) (b : BitVec 8)
  | fault (e : EnvIdx) (va : Word) (frame : Idx → Word)
  | stack (e : EnvIdx)
  | register (e : EnvIdx)
  | exofork (e : EnvIdx)
  | arm (e : EnvIdx)
  | loop (e child : EnvIdx)
  | status (e : EnvIdx)

/-- The exception stack after a fault. -/
def pushFrame (k : Kernel) (d : Nat) (frame : Idx → Word) : Kernel :=
  { k with phys := { k.phys with
    mem := Function.update k.phys.mem (PGNUM (mmuPte k.phys d UXSTACKBASE)) frame } }

/-- One action, if it can be taken and its program goes on. `upcall` is `_pgfault_upcall`. -/
def forkStep (upcall : Word) (s : ForkState) : ForkAct → Option ForkState
  | .load e va b => do
    let d ← s.k.dirs e
    if (s.pc e).awake ∧ va < UXSTACKBASE ∧ Permits s.k.phys d va (PTE_P ||| PTE_U) ∧
      loadByte s.k.phys d va = b then some s else none
  | .store e va b => do
    let d ← s.k.dirs e
    if (s.pc e).awake ∧ va < UXSTACKBASE ∧ Permits s.k.phys d va (PTE_P ||| PTE_U ||| PTE_W) then
      some { s with k := { s.k with phys := storeByte s.k.phys d va b } }
    else none
  | .fault e va frame => do
    let d ← s.k.dirs e
    if (s.pc e).handles ∧ va < UXSTACKBASE ∧ ¬ Permits s.k.phys d va (PTE_P ||| PTE_U ||| PTE_W) ∧
      Permits s.k.phys d UXSTACKBASE (PTE_P ||| PTE_U ||| PTE_W) then do
      let k ← (pgfault (pushFrame s.k d frame) e va (storeErr s.k.phys d va)).toOption
      some { s with k }
    else none
  | .stack e =>
    if s.pc e = .run false then do
      let (r, k) ← (sysPageAlloc s.k e 0 UXSTACKBASE (PTE_U ||| PTE_W ||| PTE_P)).toOption
      if 0 ≠ r then none else some (s.goto k e .stacked)
    else none
  | .register e =>
    if s.pc e = .stacked then some (s.goto (sysEnvSetPgfaultUpcall s.k e 0 upcall).2 e .handled)
      else none
  | .exofork e =>
    if s.pc e = .run true ∨ s.pc e = .handled then do
      let (child, k) ← (sysExofork s.k e).toOption
      if child.toInt < 0 ∨ child = 0 then none
      else some (ForkState.goto ⟨k, Function.update s.pc (ENVX child) (.born e)⟩ k e
        (.forked child))
    else none
  | .arm e =>
    match s.pc e with
    | .forked child => some (s.goto (sysEnvSetPgfaultUpcall s.k e child upcall).2 e (.armed child))
    | _ => none
  | .loop e c =>
    match s.pc e with
    | .armed child =>
      if ENVX child = c then do
        let k ← ((List.range (PGNUM UTOP)).foldlM (forkPage e child) s.k).toOption
        some (ForkState.goto ⟨k, Function.update s.pc c (.filled e)⟩ k e (.copied child))
      else none
    | _ => none
  | .status e =>
    match s.pc e with
    | .copied child =>
      let (r, k) := sysEnvSetStatus s.k e child ENV_RUNNABLE
      if r.toInt < 0 then none
      else some (ForkState.goto (s.goto k e (.run true)) k (ENVX child) (.run true))
    | _ => none

/-- The loop of `fork` finds a free page for each page table of the child, and one for its exception
stack. -/
def LoopFits (s : ForkState) : ForkAct → Prop
  | .loop e _ => ∀ free, Chain s.k.phys.ppLink s.k.phys.pageFreeList free →
      (forkTables s.k e).card + 1 ≤ free.length
  | _ => True

/-- A program that has been loaded, as environment `root`: a page that can be written is mapped at
one address only, nothing is mapped at `PFTEMP`, and the count of a page at the place of the
exception stack has its 16 bits. -/
structure Loaded (managed tables : Set Nat) (k : Kernel) (root : EnvIdx) : Prop where
  inv : ∃ free, SpaceInv managed tables k.phys k.dirs free ∅
  tab : TabInv k
  dir : k.dirs root ≠ none
  sole : ∀ z z' q, UserPte (vm k.phys k.dirs z) → vm k.phys k.dirs z &&& (PTE_W ||| PTE_COW) ≠ 0 →
    named (vm k.phys k.dirs z) = some q → named (vm k.phys k.dirs z') = some q → z' = z
  temp : vm k.phys k.dirs (mapIdx root PFTEMP) = 0
  stack : ∀ q, named (vm k.phys k.dirs (mapIdx root UXSTACKBASE)) = some q →
    refs (fun z => named (vm k.phys k.dirs z)) q ≤ 2 ^ 16

/-- The program starts. -/
def treeOf (k : Kernel) (root : EnvIdx) : ForkState :=
  ⟨k, fun e => if e = root then .run false else .absent⟩

/-! ## The reference -/

/-- The pages of each environment, each with contents of its own. -/
abbrev PrivatePages := EnvIdx × Idx × Idx → Option (Idx → Word)

/-- The same actions without sharing. -/
def eagerStep (R : PrivatePages) : ForkAct → Option PrivatePages
  | .load e va b => do
    let c ← R (mapIdx e va)
    if byteAt (c (WORDX va)) (BYTEX va) = b then some R else none
  | .store e va b => do
    let c ← R (mapIdx e va)
    some (Function.update R (mapIdx e va) (some (pageSet c va b)))
  | .loop e child => some (Cow.copyTo R e child LowPage)
  | _ => some R

/-- The program of `e` stores a byte: at once, or after a fault if its page is copy-on-write. -/
def storeActs (s : ForkState) (e : EnvIdx) (va : Word) (b : BitVec 8) (frame : Idx → Word) :
    List ForkAct :=
  if Writable (vm s.k.phys s.k.dirs (mapIdx e va)) then [.store e va b]
  else [.fault e va frame, .store e va b]

/-! ## What a step of `fork` does -/

section
variable {s t : ForkState} {c : EnvIdx}

theorem store_step (hd : s.k.dirs e = some d) (he : (s.pc e).awake) (hva : va < UXSTACKBASE)
    (hp : Permits s.k.phys d va (PTE_P ||| PTE_U ||| PTE_W)) (b : BitVec 8) :
    forkStep upcall s (.store e va b) =
      some { s with k := { s.k with phys := storeByte s.k.phys d va b } } := by
  simp only [forkStep, hd, Option.bind_eq_bind, Option.bind_some]
  exact if_pos ⟨he, hva, hp⟩

theorem stack_step : forkStep upcall s (.stack e) = some t ↔ s.pc e = .run false ∧ ∃ k',
    sysPageAlloc s.k e 0 UXSTACKBASE (PTE_U ||| PTE_W ||| PTE_P) = .ok (0, k') ∧
      t = s.goto k' e .stacked := by
  simp only [forkStep]
  constructor
  · intro h
    split_ifs at h with he
    obtain ⟨⟨r, k'⟩, hk', h⟩ := Option.bind_eq_some_iff.1 h
    simp only at h
    split_ifs at h with hr
    obtain rfl := not_not.1 hr
    exact ⟨he, k', toOption_eq_some hk', (Option.some.inj h).symm⟩
  · rintro ⟨he, k', hk', rfl⟩
    rw [if_pos he, hk']
    change (if (0 : Word) ≠ 0 then none else some (s.goto k' e .stacked)) = _
    exact if_neg (not_not.2 rfl)

theorem register_step : forkStep upcall s (.register e) = some t ↔
    s.pc e = .stacked ∧ t = s.goto (sysEnvSetPgfaultUpcall s.k e 0 upcall).2 e .handled := by
  simp only [forkStep]
  split_ifs with he <;> simp [he, eq_comm]

theorem exofork_step : forkStep upcall s (.exofork e) = some t ↔
    (s.pc e = .run true ∨ s.pc e = .handled) ∧
    ∃ r k', sysExofork s.k e = .ok (r, k') ∧ ¬ (r.toInt < 0 ∨ r = 0) ∧
      t = ForkState.goto ⟨k', Function.update s.pc (ENVX r) (.born e)⟩ k' e (.forked r) := by
  simp only [forkStep]
  constructor
  · intro h
    split_ifs at h with he
    obtain ⟨⟨r, k'⟩, hk', h⟩ := Option.bind_eq_some_iff.1 h
    simp only at h
    split_ifs at h with hr
    exact ⟨he, r, k', toOption_eq_some hk', hr, (Option.some.inj h).symm⟩
  · rintro ⟨he, r, k', hk', hr, rfl⟩
    rw [if_pos he, hk']
    exact if_neg hr

theorem arm_step : forkStep upcall s (.arm e) = some t ↔ ∃ w, s.pc e = .forked w ∧
    t = s.goto (sysEnvSetPgfaultUpcall s.k e w upcall).2 e (.armed w) := by
  simp only [forkStep]
  cases he : s.pc e <;> simp [eq_comm]

theorem loop_step :
    forkStep upcall s (.loop e c) = some t ↔ ∃ w k', s.pc e = .armed w ∧ ENVX w = c ∧
    (List.range (PGNUM UTOP)).foldlM (forkPage e w) s.k = .ok k' ∧
      t = ForkState.goto ⟨k', Function.update s.pc c (.filled e)⟩ k' e (.copied w) := by
  simp only [forkStep]
  constructor
  · intro h
    cases he : s.pc e with
    | armed w =>
      simp only [he] at h
      split_ifs at h with hc
      obtain ⟨k', hk', h⟩ := Option.bind_eq_some_iff.1 h
      exact ⟨w, k', rfl, hc, toOption_eq_some hk', (Option.some.inj h).symm⟩
    | _ => simp [he] at h
  · rintro ⟨w, k', he, hc, hk', rfl⟩
    simp only [he, if_pos hc, hk']
    rfl

theorem status_step : forkStep upcall s (.status e) = some t ↔ ∃ w, s.pc e = .copied w ∧
    ¬ (sysEnvSetStatus s.k e w ENV_RUNNABLE).1.toInt < 0 ∧
      t = ForkState.goto (s.goto s.k e (.run true)) (sysEnvSetStatus s.k e w ENV_RUNNABLE).2
        (ENVX w) (.run true) := by
  simp only [forkStep]
  constructor
  · intro h
    cases he : s.pc e with
    | copied w =>
      simp only [he] at h
      split_ifs at h with hr
      exact ⟨w, rfl, hr, (Option.some.inj h).symm⟩
    | _ => simp [he] at h
  · rintro ⟨w, he, hr, rfl⟩
    simp only [he]
    exact if_neg hr

end

/-! ## The steps are `fork` -/

/-- What `e` does in `fork`, if its child is `c`. -/
def forkSteps (installed : Bool) (e c : EnvIdx) : List ForkAct :=
  (if installed then [] else [.stack e, .register e]) ++ [.exofork e, .arm e, .loop e c, .status e]

section
variable {s t : ForkState} {c : EnvIdx}

theorem ofCall_eq_ok {α : Type} {x : Except String α} {a : α} : ofCall x = .ok a ↔ x = .ok a := by
  cases x <;> simp [ofCall, Except.mapError]

theorem goto_pc (s : ForkState) (k : Kernel) (e : EnvIdx) (pc : ForkPc) :
    (s.goto k e pc).pc e = pc :=
  Function.update_self _ _ _

/-- The steps after `set_pgfault_handler`. -/
theorem fork_of_steps (h : (forkSteps true e c).foldlM (forkStep upcall) s = some t) :
    ∃ r, fork upcall true s.k e = .ok (r, t.k) ∧ ENVX r = c := by
  obtain ⟨s₁, h₁, h⟩ := Option.bind_eq_some_iff.1 h
  obtain ⟨s₂, h₂, h⟩ := Option.bind_eq_some_iff.1 h
  obtain ⟨s₃, h₃, h⟩ := Option.bind_eq_some_iff.1 h
  obtain ⟨s₄, h₄, h⟩ := Option.bind_eq_some_iff.1 h
  obtain rfl := Option.some.inj h
  obtain ⟨-, r, k₁, hexo, hr, rfl⟩ := exofork_step.1 h₁
  obtain ⟨w, hw, rfl⟩ := arm_step.1 h₂
  obtain rfl : r = w := ForkPc.forked.inj ((goto_pc _ _ _ _).symm.trans hw)
  obtain ⟨w, k₃, hw, rfl, hloop, rfl⟩ := loop_step.1 h₃
  obtain rfl : r = w := ForkPc.armed.inj ((goto_pc _ _ _ _).symm.trans hw)
  obtain ⟨w, hw, hst, rfl⟩ := status_step.1 h₄
  obtain rfl : r = w := ForkPc.copied.inj ((goto_pc _ _ _ _).symm.trans hw)
  refine ⟨r, ?_, rfl⟩
  change (List.range (PGNUM UTOP)).foldlM (forkPage e r) (sysEnvSetPgfaultUpcall k₁ e r upcall).2 =
    .ok k₃ at hloop
  change ¬ (sysEnvSetStatus k₃ e r ENV_RUNNABLE).1.toInt < 0 at hst
  unfold fork setPgfaultHandler
  rw [if_pos rfl, ok_bind, hexo, mapError_ok, ok_bind]
  simp only
  rw [if_neg fun hc => hr (.inl hc), if_neg fun hc => hr (.inr hc.symm), hloop, ok_bind]
  exact if_neg hst

/-- **The steps are `fork`** when nothing comes between them. -/
theorem fork_of_run {installed : Bool}
    (h : (forkSteps installed e c).foldlM (forkStep upcall) s = some t) :
    ∃ r, fork upcall installed s.k e = .ok (r, t.k) ∧ ENVX r = c := by
  cases installed with
  | true => exact fork_of_steps h
  | false =>
    obtain ⟨s₁, h₁, h⟩ := Option.bind_eq_some_iff.1 h
    obtain ⟨s₂, h₂, h⟩ := Option.bind_eq_some_iff.1 h
    obtain ⟨-, k₁, hal, rfl⟩ := stack_step.1 h₁
    obtain ⟨-, rfl⟩ := register_step.1 h₂
    obtain ⟨r, hfork, hr⟩ := fork_of_steps h
    refine ⟨r, (fork_of_handled ?_).trans hfork, hr⟩
    unfold setPgfaultHandler
    rw [if_neg Bool.false_ne_true, hal]
    simp only [ofCall, mapError_ok, ok_bind]
    exact if_neg (by decide)

end

/-! ## The invariant -/

/-- The child that an environment has made and not filled. -/
def ForkPc.expects : ForkPc → Option Word
  | .forked child | .armed child => some child
  | _ => none

/-- A child that has not been filled. -/
structure Unborn (s : ForkState) (e : EnvIdx) (child : Word) : Prop where
  pc : s.pc (ENVX child) = .born e
  found : ∀ b, envid2env s.k e child b = some (ENVX child)
  empty : ∀ i, target s.k.phys s.k.dirs (.pde (ENVX child) i) = none

/-- The page at the place of the exception stack can be replaced. -/
def StackFits (σ : Phys) (dirs : EnvIdx → Option Nat) (e : EnvIdx) : Prop :=
  ∀ q, named (vm σ dirs (mapIdx e UXSTACKBASE)) = some q →
  refs (fun z => named (vm σ dirs z)) q ≤ 2 ^ 16

theorem PageStep.stackFits {held : Set Nat} (hs : PageStep σ σ' dirs (mapIdx e UXSTACKBASE)
      (page2pa p ||| (PTE_U ||| PTE_W ||| PTE_P) ||| PTE_P))
    (h : SpaceInv managed tables σ dirs free held) (hp : p ∈ free) : StackFits σ' dirs e := by
  intro q hq
  have hlt : p < 2 ^ 20 := h.pinv.lt_two_pow (h.pinv.free_managed hp)
  rw [hs.vm, Function.update_self, named_mk hlt (by decide)] at hq
  obtain rfl := Option.some.inj hq
  have hplace : ∀ z, named (Jos.vm σ' dirs z) = some p → z = mapIdx e UXSTACKBASE := by
    intro z hz
    by_contra hne
    rw [hs.vm, Function.update_of_ne hne] at hz
    exact h.pinv.not_mem_free (s := .pte z.1 z.2.1 z.2.2) hz hp
  have hone : refs (fun z => named (Jos.vm σ' dirs z)) p ≤ 1 :=
    refs_le_one fun z z' hz hz' => (hplace z hz).trans (hplace z' hz').symm
  omega

/-- What holds in every state, and how it shows the pages `R` of the reference. Before its first
`fork` the program is alone. -/
structure TreeInv (managed tables : Set Nat) (s : ForkState) (R : PrivatePages) : Prop where
  inv : ∃ free, SpaceInv managed tables s.k.phys s.k.dirs free ∅
  tab : TabInv s.k
  member : ∀ e, s.pc e ≠ .absent → s.k.dirs e ≠ none
  temp : ∀ e, s.pc e ≠ .absent → vm s.k.phys s.k.dirs (mapIdx e PFTEMP) = 0
  xstack : ∀ e, (s.pc e).hasStack → Writable (vm s.k.phys s.k.dirs (mapIdx e UXSTACKBASE))
  start : ∀ e, s.pc e = .run false → StackFits s.k.phys s.k.dirs e ∧ ∀ x, x ≠ e → s.pc x = .absent
  unborn : ∀ e child, (s.pc e).expects = some child → Unborn s e child
  filled : ∀ e child, s.pc e = .copied child → s.pc (ENVX child) = .filled e
  proper : Cow.Proper (cowSpaces s.k.phys s.k.dirs)
  agree : Cow.Agree (cowSpaces s.k.phys s.k.dirs) R (fun e => (s.pc e).live) LowPage

theorem ForkPc.live_of_awake {pc : ForkPc} (h : pc.awake) : pc.live := by
  cases pc <;> simp_all [ForkPc.awake, ForkPc.live]

theorem ForkPc.awake_of_handles {pc : ForkPc} (h : pc.handles) : pc.awake := by
  cases pc <;> simp_all [ForkPc.awake, ForkPc.handles]

theorem ForkPc.hasStack_of_handles {pc : ForkPc} (h : pc.handles) : pc.hasStack := by
  cases pc <;> simp_all [ForkPc.handles, ForkPc.hasStack]

theorem ForkPc.ne_absent {pc : ForkPc} (h : pc.live) : pc ≠ .absent := by
  rintro rfl
  cases h

theorem mapIdx_stack_ne (hva : va < UXSTACKBASE) (x y : EnvIdx) :
    mapIdx x UXSTACKBASE ≠ mapIdx y va := by
  intro hc
  have hlow := lowPage_of_lt hva
  rw [← show (PDX UXSTACKBASE, PTX UXSTACKBASE) =
    (PDX va, PTX va) from congrArg Prod.snd hc] at hlow
  exact not_lowPage_stack hlow

theorem mapIdx_PFTEMP_ne (x y : EnvIdx) : mapIdx x PFTEMP ≠ mapIdx y UXSTACKBASE := fun hc =>
  absurd (congrArg Prod.snd hc)
    (by decide : (PDX PFTEMP, PTX PFTEMP) ≠ (PDX UXSTACKBASE, PTX UXSTACKBASE))

theorem lt_UTOP (hva : va < UXSTACKBASE) : va < UTOP := BitVec.lt_trans hva (by decide)

theorem envid2env_of_same {cur : EnvIdx} {envid : Word}
    (hcur : (k'.envs cur).envId = (k.envs cur).envId)
    (hst : (k'.envs (ENVX envid)).envStatus = ENV_FREE ↔ (k.envs (ENVX envid)).envStatus = ENV_FREE)
    (hid : (k'.envs (ENVX envid)).envId = (k.envs (ENVX envid)).envId)
    (hpar : (k'.envs (ENVX envid)).envParentId = (k.envs (ENVX envid)).envParentId) (b : Bool) :
    envid2env k' cur envid b = envid2env k cur envid b := by
  unfold envid2env
  simp only [hcur, hst, hid, hpar]

namespace TreeInv

variable {s : ForkState} {R R' : PrivatePages} (h : TreeInv managed tables s R)
include h

theorem awake_member (he : (s.pc e).awake) : s.k.dirs e ≠ none :=
  h.member e (ForkPc.ne_absent (ForkPc.live_of_awake he))

/-- Once an environment is past its first `fork`, no other is before it. -/
theorem no_start (he : (s.pc e).live) (hne : s.pc e ≠ .run false) (x : EnvIdx) :
    s.pc x ≠ .run false := by
  intro hx
  by_cases hex : e = x
  · exact hne (hex ▸ hx)
  · exact ForkPc.ne_absent he ((h.start x hx).2 e hex)

theorem awake_ne_filled (he : (s.pc e).awake) {x : EnvIdx} {child : Word}
    (hx : s.pc x = .copied child) :
    ENVX child ≠ e := by
  rintro rfl
  rw [h.filled x child hx] at he
  cases he

theorem stack_bound (hinv : SpaceInv managed tables s.k.phys s.k.dirs free ∅)
    (he : s.pc e = .run false) {q : Nat}
    (hq : target s.k.phys s.k.dirs (.pte e (PDX UXSTACKBASE) (PTX UXSTACKBASE)) = some q) :
    kernRefs tables q + refs (target s.k.phys s.k.dirs) q ≤ 2 ^ 16 := by
  rw [hinv.refs_of_inUse (inUse_of_vm (x := mapIdx e UXSTACKBASE) hq)]
  exact (h.start e he).1 q hq

theorem memory (hinv : ∃ free, SpaceInv managed tables σ' s.k.dirs free ∅)
    (htemp : ∀ e, s.pc e ≠ .absent →
      vm σ' s.k.dirs (mapIdx e PFTEMP) = vm s.k.phys s.k.dirs (mapIdx e PFTEMP))
    (hxstack : ∀ e, (s.pc e).hasStack → Writable (vm σ' s.k.dirs (mapIdx e UXSTACKBASE)))
    (hstart : ∀ e, s.pc e = .run false → StackFits σ' s.k.dirs e)
    (hempty : ∀ e c i, s.pc c = .born e → target σ' s.k.dirs (.pde c i) = target s.k.phys
      s.k.dirs (.pde c i))
    (hP : Cow.Proper (cowSpaces σ' s.k.dirs))
    (hA : Cow.Agree (cowSpaces σ' s.k.dirs) R' (fun e => (s.pc e).live) LowPage) :
    TreeInv managed tables { s with k := { s.k with phys := σ' } } R' where
  inv := hinv
  tab := h.tab.congr rfl rfl
  member := h.member
  temp e he := (htemp e he).trans (h.temp e he)
  xstack := hxstack
  start e he := ⟨hstart e he, (h.start e he).2⟩
  unborn e child he := by
    have hU := h.unborn e child he
    exact ⟨hU.pc, hU.found, fun i => (hempty e _ i hU.pc).trans (hU.empty i)⟩
  filled := h.filled
  proper := hP
  agree := hA

theorem congr (hR : ∀ e a, LowPage a → R' (e, a) = R (e, a)) : TreeInv managed tables s R' :=
  { h with agree := h.agree.congr hR fun _ he => he }

/-- **A page is written.** -/
theorem write (σ' : Phys) {z : MapIdx} {c : Idx → Word} (hw : Writable (vm s.k.phys s.k.dirs z))
    (hsame : SameAlloc s.k.phys σ')
    (hmem : σ'.mem = Function.update s.k.phys.mem (PGNUM (vm s.k.phys s.k.dirs z)) c) :
    TreeInv managed tables { s with k := { s.k with phys := σ' } } (Function.update R z (some c)) ∧
      vm σ' s.k.dirs = vm s.k.phys s.k.dirs := by
  obtain ⟨free, hinv⟩ := h.inv
  have huse : InUse s.k.phys s.k.dirs (PGNUM (vm s.k.phys s.k.dirs z)) :=
    inUse_of_vm (PGNUM_lt_of_named hw.user).1
  obtain ⟨hinv', hvm, hpd⟩ :=
    hinv.writeFrame hsame huse fun f hf => by rw [hmem, Function.update_of_ne hf]
  have hW := wrote_frame hw hvm hmem
  refine ⟨h.memory ⟨free, hinv'⟩ (fun e _ => by rw [hvm]) (fun e he => hvm ▸ h.xstack e he)
    (fun e he => ?_) (fun _ c i _ => ?_) (hW.proper h.proper) (hW.agree h.proper h.agree), hvm⟩
  · have hfits := (h.start e he).1
    unfold StackFits at hfits ⊢
    rwa [hvm]
  · rw [target_congr hpd hvm]

/-- **A page gets a frame of its own.** -/
theorem renew {a : Idx × Idx} {c : Idx → Word} (he : (s.pc e).awake)
    (hstart : ∀ x, s.pc x = .run false → StackFits σ' s.k.dirs x)
    (hinv : ∃ free, SpaceInv managed tables σ' s.k.dirs free ∅)
    (hr : Cow.Renewed (cowSpaces s.k.phys s.k.dirs) (cowSpaces σ' s.k.dirs) (e, a) c)
    (hview : LowPage a → (cowSpaces s.k.phys s.k.dirs).view (e, a) = some c)
    (hvm : ∀ z, z ≠ (e, a) → vm σ' s.k.dirs z = vm s.k.phys s.k.dirs z)
    (ha : (e, a) ≠ mapIdx e PFTEMP)
    (hxstack : (e, a) = mapIdx e UXSTACKBASE → Writable (vm σ' s.k.dirs (e, a)))
    (hpde : ∀ x i, x ≠ e → target σ' s.k.dirs (.pde x i) = target s.k.phys s.k.dirs (.pde x i)) :
    TreeInv managed tables { s with k := { s.k with phys := σ' } } R := by
  refine h.memory hinv (fun x _ => hvm _ ?_) (fun x hx => ?_) hstart (fun _ c i hc => hpde c i ?_)
    (hr.proper h.proper) (hr.agree hview h.agree)
  · intro hc
    obtain rfl : x = e := congrArg Prod.fst hc
    exact ha hc.symm
  · by_cases hxa : mapIdx x UXSTACKBASE = (e, a)
    · obtain rfl : x = e := congrArg Prod.fst hxa
      rw [hxa]
      exact hxstack hxa.symm
    · rw [hvm _ hxa]
      exact h.xstack x hx
  · rintro rfl
    rw [hc] at he
    cases he

/-- **An environment moves on.** -/
theorem goto {pc : ForkPc} (hlive : (s.pc e).live)
    (hfree : ∀ x child, x ≠ e → s.pc x = .copied child → ENVX child ≠ e) (hrun : pc ≠ .run false)
    (hxstack : pc.hasStack → Writable (vm s.k.phys s.k.dirs (mapIdx e UXSTACKBASE)))
    (hexp : ∀ child, pc.expects = some child → Unborn s e child)
    (hcop : ∀ child, pc = .copied child → ENVX child ≠ e ∧ s.pc (ENVX child) = .filled e) :
    TreeInv managed tables (s.goto s.k e pc) R := by
  have hother : ∀ x, x ≠ e → (s.goto s.k e pc).pc x = s.pc x :=
    fun x hx => Function.update_of_ne hx _ _
  have hself : (s.goto s.k e pc).pc e = pc := Function.update_self _ _ _
  have hmember : ∀ x, (s.goto s.k e pc).pc x ≠ .absent → s.pc x ≠ .absent := by
    intro x hx
    by_cases hxe : x = e
    · exact hxe ▸ ForkPc.ne_absent hlive
    · rwa [hother x hxe] at hx
  refine ⟨h.inv, h.tab, fun x hx => h.member x (hmember x hx), fun x hx => h.temp x (hmember x hx),
    fun x hx => ?_, fun x hx => ?_, fun x child hx => ?_, fun x child hx => ?_, h.proper,
    h.agree.congr (fun _ _ _ => rfl) ?_⟩
  · by_cases hxe : x = e
    · subst hxe
      exact hxstack (hself ▸ hx)
    · exact h.xstack x (hother x hxe ▸ hx)
  · have hxe : x ≠ e := by
      rintro rfl
      exact hrun (hself.symm.trans hx)
    rw [hother x hxe] at hx
    exact (ForkPc.ne_absent hlive ((h.start x hx).2 e hxe.symm)).elim
  · have hU : Unborn s x child := by
      by_cases hxe : x = e
      · subst hxe
        exact hexp child (hself ▸ hx)
      · rw [hother x hxe] at hx
        exact h.unborn x child hx
    have hne : ENVX child ≠ e := by
      rintro rfl
      rw [hU.pc] at hlive
      cases hlive
    exact ⟨(hother _ hne).trans hU.pc, hU.found, hU.empty⟩
  · by_cases hxe : x = e
    · subst hxe
      obtain ⟨hne, hchild⟩ := hcop child (hself.symm.trans hx)
      exact (hother _ hne).trans hchild
    · rw [hother x hxe] at hx
      rw [hother _ (hfree x child hxe hx)]
      exact h.filled x child hx
  · intro x hx
    by_cases hxe : x = e
    · exact hxe ▸ hlive
    · rwa [hother x hxe] at hx

/-- An environment moves on in its own program, where it has no child. -/
theorem goOn {pc : ForkPc} (he : (s.pc e).awake) (hrun : pc ≠ .run false)
    (hxstack : pc.hasStack → Writable (vm s.k.phys s.k.dirs (mapIdx e UXSTACKBASE)))
    (hexp : pc.expects = none) (hcop : ∀ child, pc ≠ .copied child) :
    TreeInv managed tables (s.goto s.k e pc) R := by
  refine h.goto (ForkPc.live_of_awake he) (fun x child _ hx => h.awake_ne_filled he hx) hrun hxstack
    (fun child hc => ?_) fun child hc => (hcop child hc).elim
  cases hexp.symm.trans hc

/-- **One slot of the table changes**, but not what the others look at. -/
theorem setEnv (x : EnvIdx) (f : Env → Env)
    (hdir : (f (s.k.envs x)).envPgdir = (s.k.envs x).envPgdir) (hid : (f (s.k.envs x)).envId =
      (s.k.envs x).envId) (hlink : (f (s.k.envs x)).envLink = (s.k.envs x).envLink)
    (hpar : (f (s.k.envs x)).envParentId = (s.k.envs x).envParentId)
    (hst : (f (s.k.envs x)).envStatus = ENV_FREE ↔ (s.k.envs x).envStatus = ENV_FREE) :
    TreeInv managed tables ⟨s.k.setEnv x f, s.pc⟩ R := by
  have hread : ∀ {β : Type} (g : Env → β), g (f (s.k.envs x)) = g (s.k.envs x) → ∀ y,
      g ((s.k.setEnv x f).envs y) = g (s.k.envs y) := by
    intro β g hg y
    by_cases hy : y = x
    · subst hy
      exact (congrArg g (Function.update_self _ _ _)).trans hg
    · exact congrArg g (Function.update_of_ne hy _ _)
  have hself : (s.k.setEnv x f).envs x = f (s.k.envs x) := Function.update_self _ _ _
  have htable : TabInv (s.k.setEnv x f) ∧ (s.k.setEnv x f).dirs = s.k.dirs :=
    h.tab.update rfl (fun y hy => Function.update_of_ne hy _ _) (hself ▸ hdir) (hself ▸ hid)
    (hself ▸ hlink)
      fun hlive => h.tab.live x fun hc => hlive (hself ▸ hst.2 hc)
  obtain ⟨htab, hdirs⟩ := htable
  have hfound : ∀ e child b, envid2env (s.k.setEnv x f) e child b = envid2env s.k e child b := by
    intro e child b
    refine envid2env_of_same (hread Env.envId hid e) ?_ (hread Env.envId hid _)
      (hread Env.envParentId hpar _) b
    exact Eq.to_iff (hread (fun env => env.envStatus = ENV_FREE) (propext hst) (ENVX child))
  have hphys : (s.k.setEnv x f).phys = s.k.phys := rfl
  constructor
  · simp only [hdirs, hphys]
    exact h.inv
  · exact htab
  · simp only [hdirs]
    exact h.member
  · simp only [hdirs, hphys]
    exact h.temp
  · simp only [hdirs, hphys]
    exact h.xstack
  · simp only [hdirs, hphys]
    exact h.start
  · intro e child he
    have hU := h.unborn e child he
    refine ⟨hU.pc, fun b => (hfound e child b).trans (hU.found b), ?_⟩
    simp only [hdirs, hphys]
    exact hU.empty
  · exact h.filled
  · simp only [hdirs, hphys]
    exact h.proper
  · simp only [hdirs, hphys]
    exact h.agree

/-! ## Memory accesses -/

theorem page (he : (s.pc e).awake) (hva : va < UXSTACKBASE)
    (hw : UserPte (vm s.k.phys s.k.dirs (mapIdx e va))) :
    R (mapIdx e va) = some (s.k.phys.mem (PGNUM (vm s.k.phys s.k.dirs (mapIdx e va)))) := by
  have hview := h.agree e (PDX va, PTX va) (ForkPc.live_of_awake he) (lowPage_of_lt hva)
  rw [view_cowSpaces] at hview
  rw [show R (mapIdx e va) = R (e, PDX va, PTX va) from rfl, ← hview]
  exact if_pos hw

/-- **A load** reads the byte that the reference has. -/
theorem load (he : (s.pc e).awake) (hva : va < UXSTACKBASE) (hd : s.k.dirs e = some d)
    (hp : Permits s.k.phys d va (PTE_P ||| PTE_U)) :
    eagerStep R (.load e va (loadByte s.k.phys d va)) = some R := by
  have hlt := lt_UTOP hva
  have hw := ((permits_iff hd hlt (by decide)).1 hp).2
  have hbyte : loadByte s.k.phys d va =
      byteAt (s.k.phys.mem (PGNUM (vm s.k.phys s.k.dirs (mapIdx e va))) (WORDX va)) (BYTEX va) := by
    rw [loadByte, mmuWord, (mmu_target hd hlt (by decide) hp).2]
    rfl
  simp only [eagerStep, h.page he hva hw, Option.bind_eq_bind, Option.bind_some]
  exact if_pos hbyte.symm

/-- **A store** that the MMU lets through. -/
theorem store (he : (s.pc e).awake) (hva : va < UXSTACKBASE) (hd : s.k.dirs e = some d)
    (hp : Permits s.k.phys d va (PTE_P ||| PTE_U ||| PTE_W)) (b : BitVec 8) :
    ∃ R', eagerStep R (.store e va b) = some R' ∧
      TreeInv managed tables { s with k := { s.k with phys := storeByte s.k.phys d va b } } R' := by
  obtain ⟨free, hinv⟩ := h.inv
  obtain ⟨-, hD⟩ := hinv.storeByte hd (lt_UTOP hva) hp b
  have hw : Writable (vm s.k.phys s.k.dirs (mapIdx e va)) := hD.pte
  refine ⟨_, ?_, (h.write (storeByte s.k.phys d va b) hw ⟨rfl, rfl, rfl, rfl, rfl⟩ hD.mem).1⟩
  simp only [eagerStep, h.page he hva hw.user, Option.bind_eq_bind, Option.bind_some]

theorem temp_empty (he : (s.pc e).live) (q : Nat) :
    named (vm s.k.phys s.k.dirs (mapIdx e PFTEMP)) ≠ some q := by
  intro hq
  rw [h.temp e (ForkPc.ne_absent he)] at hq
  cases named_zero.symm.trans hq

theorem ne_temp (he : (s.pc e).live) (va : Word)
    (hpr : vm s.k.phys s.k.dirs (mapIdx e va) ≠ 0) : mapIdx e va ≠ mapIdx e PFTEMP :=
  fun hc => hpr (hc ▸ h.temp e (ForkPc.ne_absent he))

theorem fault_bound (hinv : SpaceInv managed tables s.k.phys s.k.dirs free ∅) (he : (s.pc e).live)
    (hpte : CowPte (vm s.k.phys s.k.dirs (mapIdx e va))) (x : MapIdx)
    (hx : x = mapIdx e va ∨ x = mapIdx e PFTEMP) (q : Nat)
    (hq : named (vm s.k.phys s.k.dirs x) = some q) :
    kernRefs tables q + refs (target s.k.phys s.k.dirs) q ≤ 2 ^ 16 := by
  rcases hx with rfl | rfl
  · exact hinv.bound_of_proper h.proper (.inr hpte) hq
  · exact (h.temp_empty he q hq).elim

/-- `pgfault` makes a private copy. -/
theorem pgfault {err : Word} (he : (s.pc e).handles) (hva : va < UXSTACKBASE)
    (hro : ¬ Writable (vm s.k.phys s.k.dirs (mapIdx e va)))
    (hok : Jos.pgfault s.k e va err = .ok k') :
    TreeInv managed tables { s with k := k' } R := by
  have hlt := lt_UTOP hva
  have hawake := ForkPc.awake_of_handles he
  have hd := h.awake_member hawake
  have hlive := ForkPc.live_of_awake hawake
  have htemp := h.temp e (ForkPc.ne_absent hlive)
  obtain ⟨free, hinv⟩ := h.inv
  have hne : mapIdx e va ≠ mapIdx e PFTEMP := h.ne_temp hlive va fun hc => by
    have hpr := (pgfault_checks hinv hd hlt hok).2.1
    rw [hc] at hpr
    exact hpr (by decide)
  obtain ⟨hw, hcow, herr⟩ :=
    pgfault_ok hinv hd hlt hne (fun q hq => (h.temp_empty hlive q hq).elim) hok
  have hpte : CowPte (vm s.k.phys s.k.dirs (mapIdx e va)) :=
    ⟨hw, hcow, and_PTE_W_eq_zero fun hc => hro (and_or_eq hw hc)⟩
  rcases pgfault_spec hinv hd hlt hne hw hcow herr (h.fault_bound hinv hlive hpte) with
    ⟨-, stop, hstop⟩ | ⟨-, σ₁, free₁, p, hok₁, hinv₁, hR, hpde⟩
  · cases hstop.symm.trans hok
  obtain rfl := Except.ok.inj (hok₁.symm.trans hok)
  have hstart : s.pc e ≠ .run false := by
    intro hc
    rw [hc] at he
    cases he
  refine h.renew (a := (PDX va, PTX va)) hawake
    (fun x hx => (h.no_start (ForkPc.live_of_awake hawake) hstart x hx).elim)
    ⟨free₁, hinv₁⟩ (hR.renewed hinv htemp) (fun _ => ?_) (fun z hz => ?_) hne
    (fun hc => (mapIdx_stack_ne hva e e hc.symm).elim) hpde
  · rw [view_cowSpaces]
    exact if_pos hw
  · rw [hR.vm, Function.update_of_ne (show z ≠ mapIdx e va from hz)]
    by_cases hzp : z = mapIdx e PFTEMP
    · rw [hzp, Function.update_self, htemp]
    · rw [Function.update_of_ne hzp]

/-- The frame of a fault goes to the exception stack, which the reference does not show. -/
theorem push (hd : s.k.dirs e = some d)
    (hp : Permits s.k.phys d UXSTACKBASE (PTE_P ||| PTE_U ||| PTE_W)) (frame : Idx → Word) :
    TreeInv managed tables { s with k := pushFrame s.k d frame } R ∧
      vm (pushFrame s.k d frame).phys s.k.dirs = vm s.k.phys s.k.dirs := by
  obtain ⟨free, hinv⟩ := h.inv
  have hstack : Writable (vm s.k.phys s.k.dirs (mapIdx e UXSTACKBASE)) :=
    (hinv.permits_write_iff hd (by decide)).1 hp
  have hpush : (pushFrame s.k d frame).phys.mem =
      Function.update s.k.phys.mem (PGNUM (vm s.k.phys s.k.dirs (mapIdx e UXSTACKBASE))) frame := by
    have hmmu : mmuPte s.k.phys d UXSTACKBASE = vm s.k.phys s.k.dirs (mapIdx e UXSTACKBASE) :=
      (mmu_target hd (by decide) (by decide) hp).2
    rw [pushFrame, hmmu]
  obtain ⟨h₁, hvm⟩ := h.write (pushFrame s.k d frame).phys hstack ⟨rfl, rfl, rfl, rfl, rfl⟩ hpush
  refine ⟨h₁.congr fun x a ha => (Function.update_of_ne ?_ _ _).symm, hvm⟩
  intro hc
  obtain rfl : a = (PDX UXSTACKBASE, PTX UXSTACKBASE) := congrArg Prod.snd hc
  exact not_lowPage_stack ha

/-- **A store** to a copy-on-write page. -/
theorem fault {frame : Idx → Word} {err : Word} (he : (s.pc e).handles) (hva : va < UXSTACKBASE)
    (hd : s.k.dirs e = some d) (hno : ¬ Permits s.k.phys d va (PTE_P ||| PTE_U ||| PTE_W))
    (hp : Permits s.k.phys d UXSTACKBASE (PTE_P ||| PTE_U ||| PTE_W))
    (hok : Jos.pgfault (pushFrame s.k d frame) e va err = .ok k') :
    TreeInv managed tables { s with k := k' } R := by
  obtain ⟨free, hinv⟩ := h.inv
  obtain ⟨h₁, hvm⟩ := h.push hd hp frame
  refine h₁.pgfault he hva (fun hw => hno ?_) hok
  change Writable (vm (pushFrame s.k d frame).phys s.k.dirs (mapIdx e va)) at hw
  rw [hvm] at hw
  exact (hinv.permits_write_iff hd (lt_UTOP hva)).2 hw

/-- **Progress of stores.** With two free pages a store to a page that is writable or copy-on-write
goes through, if need be after a fault. -/
theorem exists_store (he : (s.pc e).handles) (hva : va < UXSTACKBASE)
    (hw : UserPte (vm s.k.phys s.k.dirs (mapIdx e va)))
    (hopen : vm s.k.phys s.k.dirs (mapIdx e va) &&& (PTE_W ||| PTE_COW) ≠ 0)
    (hinv : SpaceInv managed tables s.k.phys s.k.dirs free ∅) (hroom : 2 ≤ free.length)
    (b : BitVec 8) (frame : Idx → Word) :
    ∃ t, RunWhile LoopFits (forkStep upcall) s (storeActs s e va b frame) t := by
  have hawake := ForkPc.awake_of_handles he
  have hlive := ForkPc.live_of_awake hawake
  have hlt := lt_UTOP hva
  obtain ⟨d, hd⟩ := Option.ne_none_iff_exists'.1 (h.awake_member hawake)
  unfold storeActs
  split_ifs with hwr
  · have hp := (hinv.permits_write_iff hd hlt).2 hwr
    exact ⟨_, .cons trivial (store_step hd hawake hva hp b) .nil⟩
  -- a copy-on-write page
  have hp : Permits s.k.phys d UXSTACKBASE (PTE_P ||| PTE_U ||| PTE_W) :=
    (hinv.permits_write_iff hd (by decide)).2 (h.xstack e (ForkPc.hasStack_of_handles he))
  have hno : ¬ Permits s.k.phys d va (PTE_P ||| PTE_U ||| PTE_W) := fun hc =>
    hwr ((hinv.permits_write_iff hd hlt).1 hc)
  have hro := and_PTE_W_eq_zero fun hc => hwr (and_or_eq hw hc)
  have hcow : vm s.k.phys s.k.dirs (mapIdx e va) &&& PTE_COW ≠ 0 := by
    intro hc
    rw [BitVec.and_or_distrib_left, hro, hc] at hopen
    exact hopen (by decide)
  obtain ⟨h₁, hvm⟩ := h.push hd hp frame
  obtain ⟨free₁, hinv₁⟩ := h₁.inv
  obtain rfl : free₁ = free := hinv₁.pinv.chain.unique hinv.pinv.chain
  have hpte : CowPte (vm (pushFrame s.k d frame).phys s.k.dirs (mapIdx e va)) :=
    hvm ▸ ⟨hw, hcow, hro⟩
  have hne := h₁.ne_temp hlive va fun hc => by
    have hz := hpte.cow
    rw [show vm (pushFrame s.k d frame).phys s.k.dirs (mapIdx e va) = 0 from hc] at hz
    exact hz (by decide)
  rcases pgfault_spec hinv₁ (h₁.awake_member hawake) hlt hne hpte.user hpte.cow
      (storeErr_wr s.k.phys d va) (h₁.fault_bound hinv₁ hlive hpte) with
    ⟨hshort, -⟩ | ⟨-, σ₂, free₂, p, hok, hinv₂, hR, -⟩
  · have hneed := tableNeed_le_one (pushFrame s.k d frame) e PFTEMP
    change free₁.length < 1 + tableNeed (pushFrame s.k d frame) e PFTEMP at hshort
    omega
  have hfault : forkStep upcall s (.fault e va frame) =
    some { s with k := { s.k with phys := σ₂ } } := by
    simp only [forkStep, hd, Option.bind_eq_bind, Option.bind_some]
    rw [if_pos ⟨he, hva, hno, hp⟩]
    rw [hok]
    rfl
  have hp₂ : Permits σ₂ d va (PTE_P ||| PTE_U ||| PTE_W) := by
    refine (SpaceInv.permits_write_iff (k := { s.k with phys := σ₂ }) hinv₂ hd hlt).2 ?_
    have hnew := congrFun hR.vm (mapIdx e va)
    rw [Function.update_self] at hnew
    exact hnew ▸ writable_PUW p
  have hstore : forkStep upcall { s with k := { s.k with phys := σ₂ } } (.store e va b) =
      some { s with k := { s.k with phys := storeByte σ₂ d va b } } :=
    store_step (s := { s with k := { s.k with phys := σ₂ } }) hd hawake hva hp₂ b
  exact ⟨_, .cons trivial hfault (.cons trivial hstore .nil)⟩

/-! ## The steps of `fork` -/

/-- **The first part of `set_pgfault_handler`**: the parent gets an exception stack. -/
theorem stack (he : s.pc e = .run false)
    (hok : sysPageAlloc s.k e 0 UXSTACKBASE (PTE_U ||| PTE_W ||| PTE_P) = .ok (0, k')) :
    TreeInv managed tables (s.goto k' e .stacked) R := by
  have hawake : (s.pc e).awake := by rw [he]; rfl
  have hd := h.awake_member hawake
  obtain ⟨free, hinv⟩ := h.inv
  rcases hinv.sysPageAlloc (envid2env_zero s.k e true) hd (by decide : UXSTACKBASE < UTOP)
      (by decide : (PTE_U ||| PTE_W ||| PTE_P) &&& ~~~PTE_SYSCALL = 0)
      (fun q hq => h.stack_bound hinv he hq) with
    ⟨-, σ₁, hal, -⟩ | ⟨-, p, rest, σ₀, σ₁, free₁, rfl, hal, htgt, hpd, -, hI, hinv₁, hs⟩
  · have hr : -E_NO_MEM = (0 : Word) := congrArg Prod.fst (Except.ok.inj (hal.symm.trans hok))
    exact absurd hr (by decide)
  obtain rfl : _ = k' := congrArg Prod.snd (Except.ok.inj (hal.symm.trans hok))
  have hnew : vm σ₁ s.k.dirs (mapIdx e UXSTACKBASE) =
    page2pa p ||| (PTE_U ||| PTE_W ||| PTE_P) ||| PTE_P := by
    rw [hs.vm, Function.update_self]
  have hwr : Writable (vm σ₁ s.k.dirs (mapIdx e UXSTACKBASE)) := by
    rw [hnew, show PTE_U ||| PTE_W ||| PTE_P = PTE_P ||| PTE_U ||| PTE_W by decide]
    exact writable_PUW p
  have h₁ : TreeInv managed tables { s with k := { s.k with phys := σ₁ } } R := by
    refine h.renew hawake (fun x hx => ?_) ⟨free₁, hinv₁⟩
      (hs.renewed hinv List.mem_cons_self) (fun hc => (not_lowPage_stack hc).elim) (fun z hz => ?_)
      (mapIdx_PFTEMP_ne e e).symm (fun _ => hwr) fun x i hx => ?_
    · obtain rfl : x = e := by
        by_contra hxe
        rw [(h.start x hx).2 e (Ne.symm hxe)] at he
        cases he
      exact hs.stackFits hinv List.mem_cons_self
    · rw [hs.vm, Function.update_of_ne (show z ≠ mapIdx e UXSTACKBASE from hz)]
    · exact (hI.pde_other hx i).trans (congrFun htgt _)
  exact h₁.goOn hawake nofun (fun _ => hwr) rfl nofun

/-- `sys_env_set_pgfault_upcall`. -/
theorem setUpcall (x : EnvIdx) (envid upcall : Word) :
    TreeInv managed tables ⟨(sysEnvSetPgfaultUpcall s.k x envid upcall).2, s.pc⟩ R := by
  unfold sysEnvSetPgfaultUpcall
  cases envid2env s.k x envid true with
  | none => exact h
  | some y =>
    exact h.setEnv y (fun env => { env with envPgfaultUpcall := upcall }) rfl rfl rfl rfl Iff.rfl

theorem register (he : s.pc e = .stacked) (upcall : Word) :
    TreeInv managed tables (s.goto (sysEnvSetPgfaultUpcall s.k e 0 upcall).2 e .handled) R := by
  have hawake : (s.pc e).awake := by rw [he]; rfl
  have h₁ := h.setUpcall e 0 upcall
  exact h₁.goOn hawake nofun (fun _ => h₁.xstack e (by rw [he]; rfl)) rfl nofun

theorem arm {child : Word} (he : s.pc e = .forked child) (upcall : Word) :
    TreeInv managed tables
      (s.goto (sysEnvSetPgfaultUpcall s.k e child upcall).2 e (.armed child)) R := by
  have hawake : (s.pc e).awake := by rw [he]; rfl
  have h₁ := h.setUpcall e child upcall
  refine h₁.goto (ForkPc.live_of_awake hawake)
    (fun x child _ hx => h.awake_ne_filled hawake hx) nofun
    (fun _ => h₁.xstack e (by rw [he]; rfl)) (fun child' hc => h₁.unborn e child' ?_) nofun
  change (s.pc e).expects = _
  rw [he]
  exact hc

theorem status {child : Word} (he : s.pc e = .copied child)
    (hr : (sysEnvSetStatus s.k e child ENV_RUNNABLE).1 = r) (hneg : ¬ r.toInt < 0) :
    TreeInv managed tables
      (ForkState.goto (s.goto s.k e (.run true)) (sysEnvSetStatus s.k e child ENV_RUNNABLE).2
        (ENVX child) (.run true))
      R := by
  have hawake : (s.pc e).awake := by rw [he]; rfl
  have hfill := h.filled e child he
  have hne : ENVX child ≠ e := by
    intro hc
    rw [hc, he] at hfill
    cases hfill
  -- the parent first, so that nobody waits for the child any more
  have h₁ : TreeInv managed tables (s.goto s.k e (.run true)) R :=
    h.goOn hawake nofun (fun _ => h.xstack e (by rw [he]; rfl)) rfl nofun
  have hchild : (s.goto s.k e (.run true)).pc (ENVX child) = .filled e :=
    (Function.update_of_ne hne _ _).trans hfill
  have h₂ :
      TreeInv managed tables ((s.goto s.k e (.run true)).goto s.k (ENVX child) (.run true)) R := by
    refine h₁.goto (by rw [hchild]; rfl) (fun x child' hx hc hcx => ?_) nofun
      (fun _ => h₁.xstack (ENVX child) (by rw [hchild]; rfl)) nofun nofun
    have hx' := h₁.filled x child' hc
    rw [hcx, hchild, ForkPc.filled.injEq] at hx'
    rw [← hx', show (s.goto s.k e (.run true)).pc e =
      .run true from Function.update_self _ _ _] at hc
    cases hc
  unfold sysEnvSetStatus at hr ⊢
  cases hf : envid2env s.k e child true with
  | none =>
    simp only [hf] at hr
    subst hr
    exact (hneg (by decide)).elim
  | some y =>
    simp only [hf] at hr ⊢
    split_ifs at hr ⊢ with hst
    · rw [← hr] at hneg
      exact (hneg (by decide : (-E_INVAL).toInt < 0)).elim
    · refine h₂.setEnv y (fun env => { env with envStatus := ENV_RUNNABLE }) rfl rfl rfl rfl ?_
      have hold : (s.k.envs y).envStatus ≠ ENV_FREE := by
        intro hc
        rw [hc] at hst
        exact hst (by decide)
      exact iff_of_false (by decide : ENV_RUNNABLE ≠ ENV_FREE) hold

/-- **A child that nobody waits for** is born or filled. -/
theorem setChild {c : EnvIdx} {pc : ForkPc} (hpc : pc = .born e ∨ pc = .filled e)
    (hstart : ∀ x, s.pc x ≠ .run false) (hc : ¬ (s.pc c).live)
    (hwait : ∀ x w, (s.pc x).expects = some w → ENVX w ≠ c)
    (hinv : ∃ free, SpaceInv managed tables k'.phys k'.dirs free ∅) (htab : TabInv k')
    (hmember : ∀ x, s.pc x ≠ .absent ∨ x = c → k'.dirs x ≠ none)
    (htemp : ∀ x, s.pc x ≠ .absent ∨ x = c → vm k'.phys k'.dirs (mapIdx x PFTEMP) = 0)
    (hxstack : ∀ x, (x ≠ c → (s.pc x).hasStack) → (x = c → pc.hasStack) →
      Writable (vm k'.phys k'.dirs (mapIdx x UXSTACKBASE)))
    (hunborn : ∀ x w, x ≠ c → ENVX w ≠ c → Unborn s x w →
      (∀ b, envid2env k' x w b = some (ENVX w)) ∧
      ∀ i, target k'.phys k'.dirs (.pde (ENVX w) i) = none)
    (hP : Cow.Proper (cowSpaces k'.phys k'.dirs))
    (hA : Cow.Agree (cowSpaces k'.phys k'.dirs) R'
      (fun x => (s.pc x).live ∨ x = c ∧ pc.live) LowPage) :
    TreeInv managed tables ⟨k', Function.update s.pc c pc⟩ R' := by
  have hother : ∀ x, x ≠ c → Function.update s.pc c pc x = s.pc x :=
    fun x hx => Function.update_of_ne hx _ _
  have hself : Function.update s.pc c pc c = pc := Function.update_self _ _ _
  have hold : ∀ x, Function.update s.pc c pc x ≠ .absent → s.pc x ≠ .absent ∨ x = c := by
    intro x hx
    by_cases hxc : x = c
    · exact .inr hxc
    · exact .inl (hother x hxc ▸ hx)
  refine ⟨hinv, htab, fun x hx => hmember x (hold x hx), fun x hx => htemp x (hold x hx),
    fun x hx => ?_,
    fun x hx => ?_, fun x w hx => ?_, fun x w hx =>
      ?_, hP, hA.congr (fun _ _ _ => rfl) fun x hx => ?_⟩
  · refine hxstack x (fun hxc => hother x hxc ▸ hx) fun hxc => ?_
    subst hxc
    exact hself ▸ hx
  · by_cases hxc : x = c
    · subst hxc
      rcases hpc with rfl | rfl <;> cases hself.symm.trans hx
    · exact (hstart x ((hother x hxc).symm.trans hx)).elim
  · by_cases hxc : x = c
    · subst hxc
      change (Function.update s.pc x pc x).expects = _ at hx
      rw [hself] at hx
      rcases hpc with rfl | rfl <;> cases hx
    · change (Function.update s.pc c pc x).expects = _ at hx
      rw [hother x hxc] at hx
      have hne := hwait x w hx
      obtain ⟨hfound, hempty⟩ := hunborn x w hxc hne (h.unborn x w hx)
      exact ⟨(hother _ hne).trans (h.unborn x w hx).pc, hfound, hempty⟩
  · by_cases hxc : x = c
    · subst hxc
      rcases hpc with rfl | rfl <;> cases hself.symm.trans hx
    · have hfill := h.filled x w ((hother x hxc).symm.trans hx)
      refine (hother _ ?_).trans hfill
      intro hwc
      rw [hwc] at hfill
      rw [hfill] at hc
      exact hc rfl
  · by_cases hxc : x = c
    · subst hxc
      change (Function.update s.pc x pc x).live = true at hx
      rw [hself] at hx
      exact .inr ⟨rfl, hx⟩
    · change (Function.update s.pc c pc x).live = true at hx
      rw [hother x hxc] at hx
      exact .inl hx

/-- **`sys_exofork`** makes a child. -/
theorem exofork (he : s.pc e = .run true ∨ s.pc e = .handled) (hok : sysExofork s.k e = .ok (r, k'))
    (hneg : ¬ r.toInt < 0) :
    TreeInv managed tables
      (ForkState.goto ⟨k', Function.update s.pc (ENVX r) (.born e)⟩ k' e (.forked r)) R := by
  have hawake : (s.pc e).awake := by
    rcases he with he | he <;> rw [he] <;> rfl
  have hstart : s.pc e ≠ .run false := by
    rcases he with he | he <;> rw [he] <;> nofun
  have hd := h.awake_member hawake
  rcases sysExofork_spec h.tab hd with ⟨-, r', hex, hr'⟩ | ⟨c, p, hfl, hp, hne, hex⟩
  · obtain rfl : r' = r := congrArg Prod.fst (Except.ok.inj (hex.symm.trans hok))
    exact (hneg hr').elim
  obtain rfl : _ = r := congrArg Prod.fst (Except.ok.inj (hex.symm.trans hok))
  obtain rfl : forked s.k e c p 0 = k' := congrArg Prod.snd (Except.ok.inj (hex.symm.trans hok))
  rw [ENVX_nextEnvId]
  obtain ⟨free, hinv⟩ := h.inv
  obtain ⟨rest, rfl⟩ : ∃ rest, free = p :: rest := by
    cases free with
    | nil => cases hinv.pinv.head_eq_none.symm.trans hp
    | cons q rest => exact ⟨rest, by rw [Option.some.inj (hinv.pinv.head_eq.symm.trans hp)]⟩
  have hcnone : s.k.dirs c = none := FreeSlots.head h.tab.free_list hfl
  have habs : s.pc c = .absent := by
    by_contra hc
    exact h.member c hc hcnone
  have hE : EmptyChild managed tables s.k rest c p (forked s.k e c p 0) :=
    emptyChild_forked hinv hcnone 0
  obtain ⟨hmap, hview⟩ := hE.spaces hinv
  have henvs : ∀ x, x ≠ c → (forked s.k e c p 0).envs x = s.k.envs x :=
    fun x hx => Function.update_of_ne hx _ _
  have h₁ : TreeInv managed tables ⟨forked s.k e c p 0, Function.update s.pc c (.born e)⟩ R := by
    refine h.setChild (.inl rfl) (h.no_start (ForkPc.live_of_awake hawake) hstart) ?_
      (fun x w hx hc => ?_)
      ⟨rest, hE.inv⟩ (h.tab.allocated hfl (dirs_forked 0) (ENVX_nextEnvId _ _)) (fun x hx => ?_)
      (fun x hx => ?_) (fun x hx hxc => ?_) (fun x w hxc hwc hU => ⟨fun b => ?_, fun i => ?_⟩)
      (h.proper.congr hmap) ?_
    · rw [habs]
      nofun
    · have hborn := (h.unborn x w hx).pc
      rw [hc, habs] at hborn
      cases hborn
    · rw [hE.dirs]
      by_cases hxc : x = c
      · rw [hxc, Function.update_self]
        nofun
      · rw [Function.update_of_ne hxc]
        exact h.member x (hx.resolve_right hxc)
    · rw [hE.vm]
      by_cases hxc : x = c
      · rw [hxc]
        exact vm_of_no_dir hcnone _ _
      · exact h.temp x (hx.resolve_right hxc)
    · rw [hE.vm]
      refine h.xstack x (hx ?_)
      rintro rfl
      cases hxc rfl
    · rw [← hU.found b]
      exact envid2env_of_same (by rw [henvs x hxc]) (by rw [henvs _ hwc]) (by rw [henvs _ hwc])
        (by rw [henvs _ hwc]) b
    · rw [← hU.empty i]
      exact congrArg named (hE.pdes (ENVX w, i) hwc)
    · refine (h.agree.of_view hview).congr (fun _ _ _ => rfl) fun x hx => ?_
      exact hx.resolve_right nofun
  have hpe : Function.update s.pc c (.born e) e = s.pc e := Function.update_of_ne hne.symm _ _
  refine h₁.goto ?_ (fun x w hxe hx hc => ?_) nofun (fun _ => h₁.xstack e ?_) (fun w hw => ?_) nofun
  · change (Function.update s.pc c (.born e) e).live = true
    rw [hpe]
    exact ForkPc.live_of_awake hawake
  · have hfill := h₁.filled x w hx
    change Function.update s.pc c (.born e) (ENVX w) = _ at hfill
    rw [hc, hpe] at hfill
    rw [hfill] at hawake
    cases hawake
  · change (Function.update s.pc c (.born e) e).hasStack = true
    rw [hpe]
    rcases he with he | he <;> rw [he] <;> rfl
  · obtain rfl := Option.some.inj hw
    have hidx := ENVX_nextEnvId (s.k.envs c).envId c
    refine ⟨?_, ?_, ?_⟩
    · rw [hidx]
      exact Function.update_self _ _ _
    · rw [hidx]
      exact envid2env_forked hne
    · rw [hidx]
      exact hE.empty

/-- **A child is filled** with copies of its parent's pages, and gets an exception stack. -/
theorem fillChild {c : EnvIdx} {free₁ : List Nat} (he : s.pc e = .handled)
    (hborn : s.pc c = .born e) (hempty : ∀ i, target s.k.phys s.k.dirs (.pde c i) = none)
    (hC : Copying managed tables s.k free₁ e c (PGNUM UXSTACKBASE) σ free) (hcopy : ∀ i j,
      vm σ s.k.dirs (c, i, j) = copied (PGNUM UXSTACKBASE) i j (vm s.k.phys s.k.dirs (e, i, j)))
    (hinv : SpaceInv managed tables σ' s.k.dirs free' ∅) (hp : p ∈ free)
    (hs : PageStep σ σ' s.k.dirs (mapIdx c UXSTACKBASE)
      (page2pa p ||| (PTE_U ||| PTE_W ||| PTE_P) ||| PTE_P))
    (htab : ∀ x, x ≠ e → x ≠ c → userTables σ' s.k.dirs x = userTables s.k.phys s.k.dirs x) :
    TreeInv managed tables ⟨{ s.k with phys := σ' }, Function.update s.pc c (.filled e)⟩
      (Cow.copyTo R e c LowPage) := by
  have hlive : (s.pc e).live := by rw [he]; rfl
  have hne : c ≠ e := by
    rintro rfl
    cases hborn.symm.trans he
  have hdup := hC.duplicated hne hempty hcopy
  have hren := hs.renewed hC.inv hp
  have hagree : Cow.Agree (cowSpaces σ' s.k.dirs) (Cow.copyTo R e c LowPage)
      (fun x => (s.pc x).live ∨ x = c) LowPage :=
    hren.agree (fun hc => (not_lowPage_stack hc).elim) (hdup.agree hlive h.agree)
  refine h.setChild (.inr rfl) (h.no_start hlive (by rw [he]; nofun)) ?_
    (fun x w hx hc => ?_) ⟨free', hinv⟩ (h.tab.congr rfl rfl) (fun x hx => ?_) (fun x hx => ?_)
    (fun x hx _ => ?_) (fun x w hxc hwc hU => ⟨hU.found, fun i => ?_⟩)
    (hren.proper (hdup.proper h.proper)) ?_
  · rw [hborn]
    nofun
  · -- only the parent waits for the child
    have hparent := (h.unborn x w hx).pc
    rw [hc, hborn, ForkPc.born.injEq] at hparent
    rw [← hparent, he] at hx
    cases hx
  · rcases hx with hx | rfl
    · exact h.member x hx
    · exact h.member x (by rw [hborn]; nofun)
  · change vm σ' s.k.dirs (mapIdx x PFTEMP) = 0
    rw [hs.vm, Function.update_of_ne (mapIdx_PFTEMP_ne x c)]
    exact hC.vm_eq_zero hcopy (h.temp e (ForkPc.ne_absent hlive)) fun hxc =>
      h.temp x (hx.resolve_right hxc)
  · change Writable (vm σ' s.k.dirs (mapIdx x UXSTACKBASE))
    by_cases hxc : x = c
    · subst hxc
      rw [hs.vm, Function.update_self, show PTE_U ||| PTE_W ||| PTE_P =
        PTE_P ||| PTE_U ||| PTE_W by decide]
      exact writable_PUW p
    · rw [hs.vm, Function.update_of_ne fun hc => hxc (congrArg Prod.fst hc), hC.vm_stack hxc]
      exact h.xstack x (hx hxc)
  · have hwe : ENVX w ≠ e := by
      intro hc
      have hborn := hU.pc
      rw [hc, he] at hborn
      cases hborn
    change target σ' s.k.dirs (.pde (ENVX w) i) = none
    have hnot : i ∉ userTables s.k.phys s.k.dirs (ENVX w) :=
      fun hc => mem_userTables.1 hc (hU.empty i)
    rw [← htab _ hwe hwc, mem_userTables, not_not] at hnot
    exact hnot
  · exact hagree.congr (fun _ _ _ => rfl) fun x hx => hx.imp_right And.left

/-- **The loop of `fork`** is a copy of all pages, if there is memory for it. -/
theorem loop {w : Word} (he : s.pc e = .armed w) (hfits : LoopFits s (.loop e (ENVX w)))
    (hok : (List.range (PGNUM UTOP)).foldlM (forkPage e w) s.k = .ok k') :
    TreeInv managed tables
    (ForkState.goto ⟨k', Function.update s.pc (ENVX w) (.filled e)⟩ k' e (.copied w))
      (Cow.copyTo R e (ENVX w) LowPage) := by
  have hawake : (s.pc e).awake := by rw [he]; rfl
  have hU := h.unborn e w (by rw [he]; rfl)
  set c := ENVX w
  have hborn : s.pc c = .born e := hU.pc
  have hne : c ≠ e := by
    intro hc
    rw [hc, he] at hborn
    cases hborn
  obtain ⟨free₁, hinv⟩ := h.inv
  obtain ⟨σ, free, σ', free', hfold, hinv', hC, hend, htab⟩ :=
    fork_loop hinv (h.awake_member hawake)
    (h.member c (by rw [hborn]; nofun)) hU.found hne hU.empty
  obtain rfl := Except.ok.inj (hfold.symm.trans hok)
  obtain ⟨hcopy, hroom⟩ := hC.enough (hfits free₁ hinv.pinv.chain)
  obtain ⟨p, hp, hs⟩ : ∃ p ∈ free, PageStep σ σ' s.k.dirs (mapIdx c UXSTACKBASE)
      (page2pa p ||| (PTE_U ||| PTE_W ||| PTE_P) ||| PTE_P) := by
    rcases hend with ⟨hshort, -⟩ | ⟨-, hs⟩
    · omega
    · exact hs
  -- meanwhile the parent is a program without a child
  have h₁ : TreeInv managed tables (s.goto s.k e .handled) R :=
    h.goOn hawake nofun (fun _ => h.xstack e (by rw [he]; rfl)) rfl nofun
  have hborn₁ : (s.goto s.k e .handled).pc c = .born e :=
    (Function.update_of_ne hne _ _).trans hborn
  have h₂ := h₁.fillChild (goto_pc _ _ _ _) hborn₁ hU.empty hC hcopy hinv' hp hs htab
  have hpe : Function.update (s.goto s.k e .handled).pc c (.filled e) e = .handled :=
    (Function.update_of_ne hne.symm _ _).trans (goto_pc _ _ _ _)
  have h₃ : TreeInv managed tables (ForkState.goto
      ⟨{ s.k with phys := σ' }, Function.update (s.goto s.k e .handled).pc c (.filled e)⟩
      { s.k with phys := σ' } e
      (.copied w)) (Cow.copyTo R e c LowPage) := by
    refine h₂.goto ?_ (fun x w' hxe hx hc => ?_) nofun (fun _ => h₂.xstack e ?_) nofun
      fun w' hw => ?_
    · change (Function.update (s.goto s.k e .handled).pc c (.filled e) e).live = true
      rw [hpe]
      rfl
    · have hfill := h₂.filled x w' hx
      change Function.update (s.goto s.k e .handled).pc c (.filled e) (ENVX w') = _ at hfill
      rw [hc, hpe] at hfill
      cases hfill
    · change (Function.update (s.goto s.k e .handled).pc c (.filled e) e).hasStack = true
      rw [hpe]
      rfl
    · obtain rfl : w = w' := ForkPc.copied.inj hw
      exact ⟨hne, Function.update_self _ _ _⟩
  have hpcs : Function.update (Function.update (Function.update s.pc e .handled) c (.filled e)) e
    (.copied w) =
      Function.update (Function.update s.pc c (.filled e)) e (.copied w) := by
    rw [Function.update_comm hne.symm, Function.update_idem]
  unfold ForkState.goto at h₃ ⊢
  rw [← hpcs]
  exact h₃

/-! ## Runs -/

/-- **One action** of the system is one of the reference. -/
theorem step {t : ForkState} {a : ForkAct} (hfits : LoopFits s a)
    (hstep : forkStep upcall s a = some t) :
    ∃ R', eagerStep R a = some R' ∧ TreeInv managed tables t R' := by
  cases a with
  | load e va b =>
    obtain ⟨d, hd, hstep⟩ := Option.bind_eq_some_iff.1 hstep
    split_ifs at hstep with hc
    obtain rfl := Option.some.inj hstep
    obtain ⟨he, hva, hp, rfl⟩ := hc
    exact ⟨R, h.load he hva hd hp, h⟩
  | store e va b =>
    obtain ⟨d, hd, hstep⟩ := Option.bind_eq_some_iff.1 hstep
    split_ifs at hstep with hc
    obtain ⟨he, hva, hp⟩ := hc
    obtain rfl := Option.some.inj hstep
    exact h.store he hva hd hp b
  | fault e va frame =>
    obtain ⟨d, hd, hstep⟩ := Option.bind_eq_some_iff.1 hstep
    split_ifs at hstep with hc
    obtain ⟨he, hva, hno, hp⟩ := hc
    obtain ⟨k', hk', hstep⟩ := Option.bind_eq_some_iff.1 hstep
    obtain rfl := Option.some.inj hstep
    exact ⟨R, rfl, h.fault he hva hd hno hp (toOption_eq_some hk')⟩
  | stack e =>
    obtain ⟨he, k', hk', rfl⟩ := stack_step.1 hstep
    exact ⟨R, rfl, h.stack he hk'⟩
  | register e =>
    obtain ⟨he, rfl⟩ := register_step.1 hstep
    exact ⟨R, rfl, h.register he upcall⟩
  | exofork e =>
    obtain ⟨he, r, k', hk', hr, rfl⟩ := exofork_step.1 hstep
    exact ⟨R, rfl, h.exofork he hk' fun hneg => hr (.inl hneg)⟩
  | arm e =>
    obtain ⟨w, he, rfl⟩ := arm_step.1 hstep
    exact ⟨R, rfl, h.arm he upcall⟩
  | loop e c =>
    obtain ⟨w, k', he, rfl, hk', rfl⟩ := loop_step.1 hstep
    exact ⟨_, rfl, h.loop he hfits hk'⟩
  | status e =>
    obtain ⟨w, he, hr, rfl⟩ := status_step.1 hstep
    exact ⟨R, rfl, h.status he rfl hr⟩

theorem load_iff (he : (s.pc e).awake) (hva : va < UXSTACKBASE) :
    forkStep upcall s (.load e va b) = some s ↔ eagerStep R (.load e va b) = some R := by
  obtain ⟨d, hd⟩ := Option.ne_none_iff_exists'.1 (h.awake_member he)
  obtain ⟨free, hinv⟩ := h.inv
  constructor
  · intro hstep
    obtain ⟨d', hd', hstep⟩ := Option.bind_eq_some_iff.1 hstep
    split_ifs at hstep with hc
    rw [← hc.2.2.2]
    exact h.load he hva hd' hc.2.2.1
  · intro hstep
    obtain ⟨c, hc, hstep⟩ := Option.bind_eq_some_iff.1 hstep
    split_ifs at hstep with hb
    have hview := (h.agree e (PDX va, PTX va) (ForkPc.live_of_awake he) (lowPage_of_lt hva)).trans
      hc
    rw [view_cowSpaces] at hview
    split_ifs at hview with hw
    have hp : Permits s.k.phys d va (PTE_P ||| PTE_U) := hinv.permits_read hd (lt_UTOP hva) hw
    have hbyte : loadByte s.k.phys d va = b := by
      rw [loadByte, mmuWord, (mmu_target hd (lt_UTOP hva) (by decide) hp).2, ← hb, ←
        Option.some.inj hview]
      rfl
    simp only [forkStep, hd, Option.bind_eq_bind, Option.bind_some]
    exact if_pos ⟨he, hva, hp, hbyte⟩

end TreeInv

/-- A loaded program is one environment with pages of its own. -/
theorem Loaded.treeInv {root : EnvIdx} (h : Loaded managed tables k root) :
    TreeInv managed tables (treeOf k root) (cowSpaces k.phys k.dirs).view := by
  have hroot : ∀ e, (treeOf k root).pc e ≠ .absent → e = root := by
    intro e he
    by_contra hc
    exact he (if_neg hc)
  have hpc : ∀ e, (treeOf k root).pc e = .run false ∨ (treeOf k root).pc e = .absent := by
    intro e
    by_cases he : e = root
    · exact .inl (if_pos he)
    · exact .inr (if_neg he)
  refine ⟨h.inv, h.tab, fun e he => hroot e he ▸ h.dir, fun e he => hroot e he ▸ h.temp,
    fun e he => ?_,
    fun e he => ?_, fun e w he => ?_, fun e w he =>
      ?_, ⟨fun z z' f hz hz' => ?_, fun z e a a' f hz ha ha' => ?_⟩,
    fun e a _ _ => rfl⟩
  · rcases hpc e with hc | hc <;> rw [hc] at he <;> cases he
  · obtain rfl := hroot e (by rw [he]; nofun)
    exact ⟨h.stack, fun x hx => if_neg hx⟩
  · rcases hpc e with hc | hc <;> rw [hc] at he <;> cases he
  · rcases hpc e with hc | hc <;> cases hc.symm.trans he
  · obtain ⟨hw, hn⟩ := pteEntry_eq_rw.1 hz
    change Writable (vm k.phys k.dirs z) at hw
    refine h.sole z z' f hw.user (fun hc => ?_) hn (names_iff.1 hz')
    rw [BitVec.and_or_distrib_left, and_eq_of_and_or_right hw] at hc
    exact absurd (BitVec.or_eq_zero_iff.1 hc).1 (by decide)
  · obtain ⟨hcow, hn⟩ := pteEntry_eq_cow.1 hz
    have hopen : vm k.phys k.dirs z &&& (PTE_W ||| PTE_COW) ≠ 0 := by
      rw [BitVec.and_or_distrib_left]
      exact fun hc => hcow.cow (BitVec.or_eq_zero_iff.1 hc).2
    have heq : ((e, a) : MapIdx) = (e, a') :=
      (h.sole z _ f hcow.user hopen hn (names_iff.1 ha)).trans
      (h.sole z _ f hcow.user hopen hn (names_iff.1 ha')).symm
    exact congrArg Prod.snd heq

/-- **Copy-on-write `fork` refines eager copying.** Every run of the tree of environments, with
enough memory for each loop of `fork`, is a run of the reference, and every load that comes next
reads in the one what it does in the other. A store to a page that is writable or copy-on-write goes
through, with two free pages for `pgfault`. -/
theorem fork_refines_eager {root : EnvIdx} {l : List ForkAct} {t : ForkState}
    (h : Loaded managed tables k root)
    (hrun : RunWhile LoopFits (forkStep upcall) (treeOf k root) l t) :
    ∃ R, Run eagerStep (cowSpaces k.phys k.dirs).view l R ∧
      (∀ e va b, (t.pc e).awake → va < UXSTACKBASE →
        (forkStep upcall t (.load e va b) = some t ↔ eagerStep R (.load e va b) = some R)) ∧
      ∀ e va b frame free, (t.pc e).handles → va < UXSTACKBASE →
      UserPte (vm t.k.phys t.k.dirs (mapIdx e va)) →
        vm t.k.phys t.k.dirs (mapIdx e va) &&& (PTE_W ||| PTE_COW) ≠ 0 →
        Chain t.k.phys.ppLink t.k.phys.pageFreeList free → 2 ≤ free.length →
        ∃ t', RunWhile LoopFits (forkStep upcall) t (storeActs t e va b frame) t' := by
  obtain ⟨R, hR, ht⟩ := hrun.simulates h.treeInv fun s a s' R hs hfits hstep => hs.step hfits hstep
  refine ⟨R, hR, fun e va b he hva => ht.load_iff he hva, fun e va b frame free he hva hw hopen
    hfree hroom => ?_⟩
  obtain ⟨free', hinv⟩ := ht.inv
  obtain rfl := hfree.unique hinv.pinv.chain
  exact ht.exists_store he hva hw hopen hinv hroom b frame

/-! ## `fork` goes through -/

section
variable {s : ForkState} {c : EnvIdx}

/-- After `fork` the parent goes on, and the child starts with the parent's pages. Of the `m` free
pages, `fork` has taken one for the child's directory, one for its exception stack, and its page
tables. -/
structure AfterFork (s t : ForkState) (e c : EnvIdx) (m : ℕ) : Prop where
  parent : (t.pc e).awake
  child : t.pc c = .run true
  pages : ∀ i j, pageNo i j < PGNUM UXSTACKBASE →
    vm t.k.phys t.k.dirs (c, i, j) = copied (PGNUM UXSTACKBASE) i j (vm s.k.phys s.k.dirs (e, i, j))
  left : ∃ free, Chain t.k.phys.ppLink t.k.phys.pageFreeList free ∧
    m ≤ free.length + 2 + (forkTables s.k e).card

theorem exists_forked (hinv : SpaceInv managed tables s.k.phys s.k.dirs free ∅) (ht : TabInv s.k)
    (hd : s.k.dirs e ≠ none) (he : s.pc e = .run true ∨ s.pc e = .handled)
    (hroom : 2 + (forkTables s.k e).card ≤ free.length) (hfl : s.k.envFreeList = some c)
    (upcall : Word) :
    ∃ t, RunWhile LoopFits (forkStep upcall) s (forkSteps true e c) t ∧
    AfterFork s t e c free.length := by
  obtain ⟨p, rest, rfl⟩ := List.exists_cons_of_length_pos (show 0 < free.length by omega)
  rcases sysExofork_spec ht hd with ⟨hno, -⟩ | ⟨c', p', hfl', hp', hne, hexo⟩
  · simp [hfl, hinv.pinv.head_eq] at hno
  obtain rfl : c = c' := Option.some.inj (hfl.symm.trans hfl')
  obtain rfl : p = p' := Option.some.inj (hinv.pinv.head_eq.symm.trans hp')
  have hidx := ENVX_nextEnvId (s.k.envs c).envId c
  set r := nextEnvId (s.k.envs c).envId c with hr
  have hE : EmptyChild managed tables s.k rest c p (forked s.k e c p upcall) :=
    emptyChild_forked hinv (FreeSlots.head ht.free_list hfl) upcall
  have hde : (forked s.k e c p upcall).dirs e ≠ none := by
    rw [hE.dirs, Function.update_of_ne hne.symm]
    exact hd
  have hdc : (forked s.k e c p upcall).dirs c ≠ none := by
    rw [hE.dirs, Function.update_self]
    nofun
  obtain ⟨σ, free, σ', free', hloop, hinv', hC, hend, -⟩ :=
    fork_loop hE.inv hde hdc (envid2env_forked hne) hne hE.empty
  have htab : forkTables (forked s.k e c p upcall) e = forkTables s.k e := hE.forkTables hne
  rw [List.length_cons] at hroom
  obtain ⟨hcopy, hleft⟩ := hC.enough (by rw [htab]; omega)
  have h₁ : forkStep upcall s (.exofork e) = some _ :=
    exofork_step.2 ⟨he, r, _, hexo, not_or.2 ⟨not_neg_nextEnvId _ _, nextEnvId_ne_zero _ _⟩, rfl⟩
  set s₁ := ForkState.goto
    ⟨allocated s.k c p (forkedEnv s.k e c p), Function.update s.pc (ENVX r) (.born e)⟩
    (allocated s.k c p (forkedEnv s.k e c p)) e (.forked r)
  have h₂ : forkStep upcall s₁ (.arm e) = some (s₁.goto (forked s.k e c p upcall) e (.armed r)) :=
    arm_step.2 ⟨r, goto_pc _ _ _ _, by rw [← setUpcall_forked hne]; rfl⟩
  set s₂ := s₁.goto (forked s.k e c p upcall) e (.armed r)
  have h₃ : forkStep upcall s₂ (.loop e c) = some _ :=
    loop_step.2 ⟨r, _, goto_pc _ _ _ _, hidx, hloop, rfl⟩
  set s₃ := ForkState.goto
    ⟨{ forked s.k e c p upcall with phys := σ' }, Function.update s₂.pc c (.filled e)⟩
    { forked s.k e c p upcall with phys := σ' } e (.copied r)
  have hset : sysEnvSetStatus s₃.k e r ENV_RUNNABLE = (0, started (forked s.k e c p upcall) c σ') :=
    setStatus_forked hne σ'
  have h₄ : forkStep upcall s₃ (.status e) = some (ForkState.goto
      (s₃.goto s₃.k e (.run true)) (started (forked s.k e c p upcall) c σ') (ENVX r) (.run true)) :=
    status_step.2 ⟨r, goto_pc _ _ _ _, hset ▸ (by decide : ¬ (0 : Word).toInt < 0), by rw [hset]⟩
  have hfits : LoopFits s₂ (.loop e c) := by
    intro free hfree
    have hrest : free = rest := hfree.unique hE.inv.pinv.chain
    rw [hrest, show forkTables s₂.k e = forkTables s.k e from htab]
    omega
  refine ⟨_, .cons trivial h₁ (.cons trivial h₂ (.cons hfits h₃ (.cons trivial h₄ .nil))), ?_, ?_,
    fun i j hij => ?_, free', hinv'.pinv.chain, ?_⟩
  · change (Function.update (Function.update s₃.pc e (.run true)) (ENVX r) (.run true) e).awake =
      true
    rw [hidx, Function.update_of_ne hne.symm, Function.update_self]
    rfl
  · change Function.update (Function.update s₃.pc e (.run true)) (ENVX r) (.run true) c = .run true
    rw [hidx, Function.update_self]
  · change vm σ' (started (forked s.k e c p upcall) c σ').dirs (c, i, j) = _
    obtain ⟨hshort, -⟩ | ⟨-, q, -, hs⟩ := hend
    · omega
    rw [dirs_started, hs.vm, Function.update_of_ne (ne_stack hij), hcopy, hE.vm]
  · obtain ⟨hshort, -⟩ | ⟨hcount, -⟩ := hend
    · omega
    have hle := hC.left hcount
    rw [htab] at hle
    rw [List.length_cons]
    omega

theorem exists_fork {installed : Bool} {m : ℕ} {R : PrivatePages} (h : TreeInv managed tables s R)
    (hinv : SpaceInv managed tables s.k.phys s.k.dirs free ∅) (he : s.pc e = .run installed)
    (hm : freeAtExofork s.k e installed free.length = some m)
    (hroom : 2 + (forkTables s.k e).card ≤ m) (hfl : s.k.envFreeList = some c) (upcall : Word) :
    ∃ t, RunWhile LoopFits (forkStep upcall) s (forkSteps installed e c) t ∧
    AfterFork s t e c m := by
  have hd : s.k.dirs e ≠ none := h.awake_member (by rw [he]; rfl)
  cases installed with
  | true =>
    obtain rfl : free.length = m := Option.some.inj hm
    exact exists_forked hinv h.tab hd (.inl he) hroom hfl upcall
  | false =>
    rcases setPgfaultHandler_spec hinv h.tab hd false upcall fun q hq =>
      h.stack_bound hinv he hq with
      ⟨hnone, -⟩ | ⟨k₀, free₀, hok, hcount, hH⟩
    · cases hnone.symm.trans hm
    obtain rfl : free₀.length = m := Option.some.inj (hcount.symm.trans hm)
    -- the two steps of the handler
    unfold setPgfaultHandler at hok
    rw [if_neg Bool.false_ne_true] at hok
    obtain ⟨⟨r, k₁⟩, hal, hok⟩ := bind_eq_ok.1 hok
    simp only at hok
    split_ifs at hok with hr
    obtain rfl := not_not.1 hr
    obtain rfl : (sysEnvSetPgfaultUpcall k₁ e 0 upcall).2 = k₀ := Except.ok.inj hok
    have h₁ : forkStep upcall s (.stack e) = some (s.goto k₁ e .stacked) :=
      stack_step.2 ⟨he, k₁, ofCall_eq_ok.1 hal, rfl⟩
    have h₂ : forkStep upcall (s.goto k₁ e .stacked) (.register e) = some _ :=
      register_step.2 ⟨goto_pc _ _ _ _, rfl⟩
    set s₂ := (s.goto k₁ e .stacked).goto (sysEnvSetPgfaultUpcall k₁ e 0 upcall).2 e .handled
    have hd₂ : s₂.k.dirs e ≠ none := hH.dirs ▸ hd
    have htab₂ : forkTables s₂.k e = forkTables s.k e := hH.forkTables
    have hroom₂ : 2 + (forkTables s₂.k e).card ≤ free₀.length := by rw [htab₂]; exact hroom
    obtain ⟨t, hrun, ht⟩ :=
      exists_forked (s := s₂) hH.inv hH.tab hd₂ (.inr (goto_pc _ _ _ _)) hroom₂
      (hH.envFreeList.trans hfl) upcall
    refine ⟨t, .cons trivial h₁ (.cons trivial h₂ hrun), ht.parent, ht.child, fun i j hij => ?_,
      htab₂ ▸ ht.left⟩
    rw [ht.pages i j hij]
    exact congrArg _ (hH.vm (e, i, j) (ne_stack hij))

end

/-! ### A small program -/

/-- The page of the stack. -/
def stackPage : Word := USTACKTOP - 0x1000#32

/-- A program whose only page is its stack, in a pool that is just large enough for one `fork` and
one fault. -/
theorem exists_loaded : ∃ k p free, Loaded (Set.Icc 1 9) ∅ k 0 ∧
    SpaceInv (Set.Icc 1 9) ∅ k.phys k.dirs free ∅ ∧ k.envFreeList = some 1 ∧
    freeAtExofork k 0 false free.length = some 5 ∧ (forkTables k 0).card ≤ 1 ∧
    vm k.phys k.dirs (mapIdx 0 stackPage) =
      page2pa p ||| (PTE_P ||| PTE_U ||| PTE_W) ||| PTE_P := by
  obtain ⟨p, σ, free, -, h, hlen, htab, hvm⟩ := firstEnv_alloc (by decide : stackPage < UTOP)
  have hzero : ∀ z, z ≠ mapIdx 0 stackPage → vm σ firstEnv.dirs z = 0 := fun z hz => by
    rw [hvm, Function.update_of_ne hz]
  have hplace : ∀ z q, named (vm σ firstEnv.dirs z) = some q → z = mapIdx 0 stackPage := by
    intro z q hq
    by_contra hz
    rw [hzero z hz] at hq
    cases named_zero.symm.trans hq
  have hstack : ∀ q, target σ firstEnv.dirs (.pte 0 (PDX UXSTACKBASE) (PTX UXSTACKBASE)) ≠ some q :=
    fun q hq =>
    absurd (hplace (mapIdx 0 UXSTACKBASE) q hq) (by decide)
  refine ⟨{ firstEnv with phys := σ }, p, free, ?_, h, rfl, ?_, ?_, ?_⟩
  · exact ⟨⟨free, h⟩, tabInv_firstEnv.congr rfl rfl, dirs_firstEnv_ne,
      fun z z' q _ _ hz hz' => (hplace z' q hz').trans (hplace z q hz).symm, hzero _ (by decide),
      fun q hq => (hstack q hq).elim⟩
  · have hneed : handlerNeed { firstEnv with phys := σ } 0 = 1 := by
      rw [handlerNeed, tableNeed_eq]
      change 1 + (if PDX UXSTACKBASE ∈ userTables σ firstEnv.dirs 0 then 0 else 1) = 1
      rw [htab]
      decide
    have hfrees : handlerFrees { firstEnv with phys := σ } 0 = 0 := by
      unfold handlerFrees
      split
      · exact (hstack _ (by assumption)).elim
      · rfl
    rw [freeAtExofork, hneed, hfrees, hlen]
    rfl
  · have hsub : forkTables { firstEnv with phys := σ } 0 ⊆ {PDX UXSTACKBASE} := by
      intro i hi
      rw [Finset.mem_singleton]
      rcases (Finset.mem_filter.1 hi).2 with rfl | ⟨j, -, hw⟩
      · rfl
      · exact congrArg (fun z => z.2.1) (hplace (0, i, j) _ (PGNUM_lt_of_named hw).1)
    exact (Finset.card_le_card hsub).trans_eq (Finset.card_singleton _)
  · exact (congrFun hvm _).trans (Function.update_self _ _ _)

/-- The program forks, and its child stores a byte, after a fault that `pgfault` resolves. -/
theorem fork_refines_eager_child : ∃ k t R, Loaded (Set.Icc 1 9) ∅ k 0 ∧
    RunWhile LoopFits (forkStep 0x800020#32) (treeOf k 0)
      (forkSteps false 0 1 ++ [.fault 1 stackPage (fun _ => 0), .store 1 stackPage 7#8]) t ∧
    Run eagerStep (cowSpaces k.phys k.dirs).view
      (forkSteps false 0 1 ++ [.fault 1 stackPage (fun _ => 0), .store 1 stackPage 7#8]) R ∧
    ∀ e va b, (t.pc e).awake → va < UXSTACKBASE →
      (forkStep 0x800020#32 t (.load e va b) = some t ↔ eagerStep R (.load e va b) = some R) := by
  obtain ⟨k, p, free, h, hinv, hfl, hm, hcard, hvm⟩ := exists_loaded
  have hroom : 2 + (forkTables k 0).card ≤ 5 := by omega
  obtain ⟨t, hrun, ht⟩ := exists_fork h.treeInv hinv (if_pos rfl) hm hroom hfl 0x800020#32
  obtain ⟨-, -, -, hstore⟩ := fork_refines_eager h hrun
  -- the child's page is copy-on-write
  have hcow : CowPte (vm t.k.phys t.k.dirs (mapIdx 1 stackPage)) := by
    have hpage := ht.pages (PDX stackPage) (PTX stackPage) (by decide)
    change vm t.k.phys t.k.dirs (mapIdx 1 stackPage) =
      copied _ _ _ (vm k.phys k.dirs (mapIdx 0 stackPage)) at hpage
    have hw := hvm ▸ writable_PUW p
    rw [hpage, copied, if_pos ⟨by decide, hw.user⟩]
    refine cowPte_dupPte hw.user fun hc => ?_
    have hbit : _ &&& PTE_W = PTE_W := and_eq_of_and_or_right hw
    rw [BitVec.and_or_distrib_left, hbit] at hc
    exact absurd (BitVec.or_eq_zero_iff.1 hc).1 (by decide)
  have hopen : vm t.k.phys t.k.dirs (mapIdx 1 stackPage) &&& (PTE_W ||| PTE_COW) ≠ 0 := by
    rw [BitVec.and_or_distrib_left]
    exact fun hc => hcow.cow (BitVec.or_eq_zero_iff.1 hc).2
  obtain ⟨free', hchain, hleft⟩ := ht.left
  change 5 ≤ free'.length + 2 + (forkTables k 0).card at hleft
  obtain ⟨t', hrun'⟩ :=
    hstore 1 stackPage 7#8 (fun _ => 0) free' (by rw [ht.child]; rfl) (by decide) hcow.user hopen
    hchain (by omega)
  rw [storeActs, if_neg (not_writable_of_ro hcow.ro)] at hrun'
  obtain ⟨R, hR, hload, -⟩ := fork_refines_eager h (hrun.append hrun')
  exact ⟨k, t', R, h, hrun.append hrun', hR, hload⟩

end Jos
