import Jos.SysInv

/-!
# The kernel on several CPUs

The kernel on all its CPUs, from the state `mem_init` and `env_init` leave (`Boots`). Unlike in
`Jos.Cpus`, the end of `env_run` is not part of the kernel entry: the entry stops at
`unlock_kernel`, and `unlock`, `lcr3` and `iret` are actions of their own, so that another CPU
may take the lock as soon as it is released and run any entry before this CPU has switched.

**Phases of a CPU** (`CpuPhase`). It waits for the lock at boot, has chosen an environment and still
holds the lock, has released it, has loaded the page directory, runs user code, or sits in the
monitor with the lock.

**Actions** (`SmpAct`). Before any CPU runs: `env_create` and the pages `region_alloc` maps for it,
with whatever contents the program has. Later: a CPU leaves boot, a trap from user mode with any
registers, the three parts of `env_run`, and what user code does by itself, which is to store to
its pages and have the MMU set accessed and dirty bits. User mode has no write access at or above
`UTOP`.

The invariant (`SmpInv`) is `KInv` with, for each CPU, what its page directory is. It needs from
every trap that the memory calls are sound (`TrapOk`) and that no environment is freed while it is
another CPU's `cpu_env` (`Sound`).
-/

namespace Jos

open Lib

/-! ## The machine -/

/-- Where a CPU is. -/
inductive CpuPhase
  | boot
  | running
  | switching
  | loaded
  | user
  | monitor
  deriving DecidableEq

/-- The kernel and its CPUs. -/
structure Smp where
  k : Kernel
  phase : Cpu → CpuPhase

inductive SmpAct
  | create (type : EnvType) (eip : Word)
  | region (e : EnvIdx) (va : Word) (contents : Idx → Word)
  | start (c : Cpu)
  | trap (c : Cpu) (tf : Trapframe) (cr2 input : Word)
  | unlock (c : Cpu)
  | lcr3 (c : Cpu)
  | iret (c : Cpu)
  | store (c : Cpu) (va : Word) (b : BitVec 8)
  | touch (c : Cpu) (va : Word) (dirty : Bool)

namespace Smp

/-- No CPU holds the kernel lock. -/
def LockFree (m : Smp) : Prop := ∀ c, m.phase c ≠ .running ∧ m.phase c ≠ .monitor

instance (m : Smp) : Decidable m.LockFree := by unfold LockFree; infer_instance

/-- `i386_init` is still creating environments. -/
def Booting (m : Smp) : Prop := ∀ c, m.phase c = .boot

instance (m : Smp) : Decidable m.Booting := by unfold Booting; infer_instance

def setPhase (m : Smp) (c : Cpu) (p : CpuPhase) (k : Kernel) : Smp :=
  ⟨k, Function.update m.phase c p⟩

/-- The end of a kernel entry, up to `unlock_kernel`. A panic ends the run. -/
def finish (m : Smp) (c : Cpu) : Exit → Option Smp
  | .run k e => some (m.setPhase c .running (envRun k c e))
  | .monitor k => some (m.setPhase c .monitor k)
  | .panic _ => none

end Smp

/-- `env_create` without the program's pages. -/
def envCreate (k : Kernel) (type : EnvType) (eip : Word) : Option Kernel :=
  match envAlloc k 0 with
  | .ok (.ok e, k) => some (k.setEnv e fun env =>
      { env with envTf := { env.envTf with tfEip := eip }, envType := type, envParentId := 0 })
  | _ => none

/-- One page of `region_alloc`, and what `load_icode` writes to it. The result of `page_insert`
is ignored there, and the write faults if nothing is mapped. -/
def regionPage (k : Kernel) (e : EnvIdx) (va : Word) (contents : Idx → Word) : Option Kernel :=
  match k.dirs e, pageAlloc k.phys false with
  | some d, (some p, σ) =>
    match pageInsert σ d (some p) va (PTE_U ||| PTE_P ||| PTE_W) with
    | .ok (r, σ) =>
      if r = 0 then some { k with phys := { σ with mem := Function.update σ.mem p contents } }
      else none
    | .error _ => none
  | _, _ => none

/-- The MMU marks a page it has used, at both levels. -/
def touchPage (σ : Phys) (d : Nat) (va : Word) (dirty : Bool) : Phys :=
  let pte : PtePtr := (PGNUM (σ.mem d (PDX va)), PTX va)
  let σ := σ.store (d, PDX va) (σ.mem d (PDX va) ||| PTE_A)
  σ.store pte (σ.load pte ||| (if dirty then PTE_A ||| PTE_D else PTE_A))

/-- One step. -/
def Smp.step (m : Smp) : SmpAct → Option Smp
  | .create type eip =>
    if m.Booting then (envCreate m.k type eip).map fun k => { m with k := k } else none
  | .region e va contents =>
    if m.Booting ∧ va < UTOP then
      (regionPage m.k e va contents).map fun k => { m with k := k }
    else none
  | .start c =>
    -- CPU 0 has the lock from the start
    if m.LockFree ∧ m.phase c = .boot ∧ (c = 0 ∨ m.phase 0 ≠ .boot) then
      m.finish c (schedYield m.k c)
    else none
  | .trap c tf cr2 input =>
    if m.LockFree ∧ m.phase c = .user ∧ tf.tfCs &&& 3 = 3 then
      m.finish c (trap m.k c tf cr2 input)
    else none
  | .unlock c => if m.phase c = .running then some (m.setPhase c .switching m.k) else none
  | .lcr3 c =>
    if m.phase c = .switching then
      match lcr3Curenv m.k c with
      | .ok k => some (m.setPhase c .loaded k)
      | .error _ => none
    else none
  | .iret c =>
    if m.phase c = .loaded then some (m.setPhase c .user (envPopTf m.k c)) else none
  | .store c va b =>
    if m.phase c = .user ∧ va < UTOP ∧
      Permits m.k.phys (m.k.cr3 c) va (PTE_P ||| PTE_U ||| PTE_W) then
      some { m with k.phys := storeByte m.k.phys (m.k.cr3 c) va b }
    else none
  | .touch c va dirty =>
    if m.phase c = .user ∧ va < UTOP ∧ Permits m.k.phys (m.k.cr3 c) va (PTE_P ||| PTE_U) then
      some { m with k.phys := touchPage m.k.phys (m.k.cr3 c) va dirty }
    else none

/-- A slot as `env_init` leaves it. The loop sets the type and the link of all but the last. -/
def initEnv (e : EnvIdx) : Env :=
  if h : e.val + 1 < 1024 then { envType := .IDLE, envLink := some ⟨e.val + 1, h⟩ } else {}

/-- The state after `mem_init` and `env_init`. -/
structure Boots (managed tables : Set Nat) (m : Smp) : Prop where
  mem : ∃ free, MemInit managed tables m.k free
  envs : ∀ e, m.k.envs e = initEnv e
  envFreeList : m.k.envFreeList = some 0
  cpuEnv : ∀ c, m.k.cpuEnv c = none
  cr3 : ∀ c, m.k.cr3 c = m.k.phys.kernPgdir
  phase : ∀ c, m.phase c = .boot

/-! ## What a step does -/

section
variable {m m' : Smp} {a : SmpAct} {c : Cpu}

/-- A step, with the tests it has passed. -/
inductive SmpStep (m : Smp) : SmpAct → Smp → Prop
  | create {type : EnvType} {eip : Word} {k : Kernel} (hboot : m.Booting)
      (hk : envCreate m.k type eip = some k) : SmpStep m (.create type eip) { m with k := k }
  | region {e : EnvIdx} {va : Word} {contents : Idx → Word} {k : Kernel} (hboot : m.Booting)
      (hva : va < UTOP) (hk : regionPage m.k e va contents = some k) :
      SmpStep m (.region e va contents) { m with k := k }
  | start {c : Cpu} {m' : Smp} (hlock : m.LockFree) (hphase : m.phase c = .boot)
      (hfirst : c = 0 ∨ m.phase 0 ≠ .boot) (hfin : m.finish c (schedYield m.k c) = some m') :
      SmpStep m (.start c) m'
  | trap {c : Cpu} {cur : EnvIdx} {tf : Trapframe} {cr2 input : Word} {m' : Smp}
      (hlock : m.LockFree) (hphase : m.phase c = .user) (hcs : tf.tfCs &&& 3 = 3)
      (hcur : m.k.cpuEnv c = some cur) (hfin : m.finish c (trap m.k c tf cr2 input) = some m') :
      SmpStep m (.trap c tf cr2 input) m'
  | unlock {c : Cpu} (hphase : m.phase c = .running) : SmpStep m (.unlock c)
      (m.setPhase c .switching m.k)
  | lcr3 {c : Cpu} {k : Kernel} (hphase : m.phase c = .switching) (hk : lcr3Curenv m.k c = .ok k) :
      SmpStep m (.lcr3 c) (m.setPhase c .loaded k)
  | iret {c : Cpu} (hphase : m.phase c = .loaded) :
      SmpStep m (.iret c) (m.setPhase c .user (envPopTf m.k c))
  | store {c : Cpu} {va : Word} {b : BitVec 8} (hphase : m.phase c = .user) (hva : va < UTOP)
      (hp : Permits m.k.phys (m.k.cr3 c) va (PTE_P ||| PTE_U ||| PTE_W)) :
      SmpStep m (.store c va b)
        { m with k := { m.k with phys := storeByte m.k.phys (m.k.cr3 c) va b } }
  | touch {c : Cpu} {va : Word} {dirty : Bool} (hphase : m.phase c = .user) (hva : va < UTOP)
      (hp : Permits m.k.phys (m.k.cr3 c) va (PTE_P ||| PTE_U)) :
      SmpStep m (.touch c va dirty)
        { m with k := { m.k with phys := touchPage m.k.phys (m.k.cr3 c) va dirty } }

/-- **Inversion of a step.** The proofs about runs use this, and do not unfold `Smp.step`. -/
theorem step_cases (h : m.step a = some m') : SmpStep m a m' := by
  cases a with
  | create type eip =>
    simp only [Smp.step] at h
    split_ifs at h with hg
    obtain ⟨k, hk, rfl⟩ := Option.map_eq_some_iff.1 h
    exact .create hg hk
  | region e va contents =>
    simp only [Smp.step] at h
    split_ifs at h with hg
    obtain ⟨k, hk, rfl⟩ := Option.map_eq_some_iff.1 h
    exact .region hg.1 hg.2 hk
  | start c =>
    simp only [Smp.step] at h
    split_ifs at h with hg
    exact .start hg.1 hg.2.1 hg.2.2 h
  | trap c tf cr2 input =>
    simp only [Smp.step] at h
    split_ifs at h with hg
    cases hcur : m.k.cpuEnv c with
    | none =>
      rw [Jos.trap, hcur] at h
      cases h
    | some cur => exact .trap hg.1 hg.2.1 hg.2.2 hcur h
  | unlock c =>
    simp only [Smp.step] at h
    split_ifs at h with hg
    obtain rfl := Option.some.inj h
    exact .unlock hg
  | lcr3 c =>
    simp only [Smp.step] at h
    split_ifs at h with hg
    cases hk : lcr3Curenv m.k c with
    | error msg =>
      rw [hk] at h
      cases h
    | ok k =>
      rw [hk] at h
      obtain rfl := Option.some.inj h
      exact .lcr3 hg hk
  | iret c =>
    simp only [Smp.step] at h
    split_ifs at h with hg
    obtain rfl := Option.some.inj h
    exact .iret hg
  | store c va b =>
    simp only [Smp.step] at h
    split_ifs at h with hg
    obtain rfl := Option.some.inj h
    exact .store hg.1 hg.2.1 hg.2.2
  | touch c va dirty =>
    simp only [Smp.step] at h
    split_ifs at h with hg
    obtain rfl := Option.some.inj h
    exact .touch hg.1 hg.2.1 hg.2.2

theorem SmpStep.step_eq (h : SmpStep m a m') : m.step a = some m' := by
  cases h with
  | create hboot hk => simp only [Smp.step, if_pos hboot, hk, Option.map_some]
  | region hboot hva hk => simp only [Smp.step, if_pos (And.intro hboot hva), hk, Option.map_some]
  | start hlock hphase hfirst hfin => exact (if_pos ⟨hlock, hphase, hfirst⟩).trans hfin
  | trap hlock hphase hcs hcur hfin => exact (if_pos ⟨hlock, hphase, hcs⟩).trans hfin
  | unlock hphase => exact if_pos hphase
  | lcr3 hphase hk => simp only [Smp.step, if_pos hphase, hk]
  | iret hphase => exact if_pos hphase
  | store hphase hva hp => exact if_pos ⟨hphase, hva, hp⟩
  | touch hphase hva hp => exact if_pos ⟨hphase, hva, hp⟩

theorem lcr3Curenv_ok {k k' : Kernel} (h : lcr3Curenv k c = .ok k') :
    ∃ e d, k.cpuEnv c = some e ∧ k.dirs e = some d ∧ k' = k.lcr3 c d := by
  unfold lcr3Curenv at h
  split at h
  · cases h
  · rename_i e he
    split at h
    · cases h
    · rename_i d hd
      exact ⟨e, d, he, hd, (Except.ok.inj h).symm⟩

end

/-! ## Memory steps outside the calls -/

section Memory

variable {managed tables : Set Nat} {σ : Phys} {dirs : EnvIdx → Option Nat} {free : List Nat}
  {held : Set Nat} {e : EnvIdx} {d : Nat} {va : Word}

theorem or_flagBits (w : Word) : PTE_ADDR w ||| flagBits w = w := by
  unfold PTE_ADDR flagBits
  ext i hi
  simp only [BitVec.getElem_or, BitVec.getElem_and, BitVec.getElem_not]
  cases w[i] <;> cases (0xFFF#32)[i] <;> rfl

theorem PTE_ADDR_flagBits (w : Word) : PTE_ADDR (flagBits w) = 0 := by
  unfold PTE_ADDR flagBits
  rw [BitVec.and_assoc]
  simp

theorem or_flags {w : Word} (hw : Present w) (f : Word) :
    w ||| f = page2pa (PGNUM w) ||| (flagBits w ||| f) ||| PTE_P := by
  have hP : w ||| PTE_P = w := by
    have hw' := (present_iff w).1 hw
    ext i hi
    rw [BitVec.getElem_or]
    by_cases h0 : i = 0
    · subst h0
      rw [← BitVec.getLsbD_eq_getElem, hw']
      rfl
    · have hP : PTE_P[i] = false := by
        rw [show PTE_P = BitVec.twoPow 32 0 by decide, BitVec.getElem_twoPow]
        simpa using h0
      rw [hP, Bool.or_false]
  rw [page2pa_PGNUM, ← BitVec.or_assoc, or_flagBits, BitVec.or_assoc, BitVec.or_comm f,
    ← BitVec.or_assoc, hP]

theorem touch_flags (dirty : Bool) :
    (if dirty then PTE_A ||| PTE_D else PTE_A) &&& ~~~PTE_USER = 0 := by
  cases dirty <;> decide

/-- **The MMU's own stores** only add flags. -/
theorem MemInv.touch (h : MemInv managed tables σ dirs free held) (hd : dirs e = some d)
    (hva : va < UTOP) {bits : Word} (hbits : Present bits) (hp : Permits σ d va bits)
    (dirty : Bool) :
    MemInv managed tables (touchPage σ d va dirty) dirs free held ∧
      (touchPage σ d va dirty).kernPgdir = σ.kernPgdir := by
  obtain ⟨htgt, hpte⟩ := mmu_target hd hva hbits hp
  have hpde : Present (σ.mem d (PDX va)) := present_of_and hp.1 hbits
  have hpt : target σ dirs (.pde e (PDX va)) = some (PGNUM (σ.mem d (PDX va))) := by
    rw [target, pdes_of_dir hd (PDX_user hva), named_of_present hpde]
  obtain ⟨hp₁, ht₁, hd₁, hv₁⟩ := h.pinv.orPde hd (PDX_user hva) hpt (f := PTE_A) (by decide)
  set σ₁ := σ.store (d, PDX va) (σ.mem d (PDX va) ||| PTE_A) with hσ₁
  set pt := PGNUM (σ.mem d (PDX va)) with hpt'
  set f := if dirty then PTE_A ||| PTE_D else PTE_A with hf
  have hpt₁ : target σ₁ dirs (.pde e (PDX va)) = some pt := by
    rw [ht₁]
    exact hpt
  have hload : σ₁.load (pt, PTX va) = vm σ dirs (e, PDX va, PTX va) := by
    rw [← hv₁]
    exact (vm_of_present hpt₁ (PTX va)).symm
  have hpres : Present (vm σ dirs (e, PDX va, PTX va)) := (present_of_target htgt).1
  have haddr : PTE_ADDR (flagBits (vm σ dirs (e, PDX va, PTX va)) ||| f) = 0 := by
    rw [PTE_ADDR_or, PTE_ADDR_flagBits, PTE_ADDR_of_flags (touch_flags dirty) (by decide)]
    rfl
  have hname : target σ₁ dirs (.pte e (PDX va) (PTX va)) =
      some (PGNUM (vm σ dirs (e, PDX va, PTX va))) := by
    rw [ht₁, htgt, (present_of_target htgt).2]
  obtain ⟨hp₂, hd₂, hv₂⟩ := hp₁.rewritePte hpt₁ hname haddr
  have hσ₂ : touchPage σ d va dirty = σ₁.store (pt, PTX va)
      (page2pa (PGNUM (vm σ dirs (e, PDX va, PTX va))) |||
        (flagBits (vm σ dirs (e, PDX va, PTX va)) ||| f) ||| PTE_P) := by
    rw [← or_flags hpres, ← hload]
    rfl
  rw [← hσ₂] at hp₂ hd₂ hv₂
  have ht₂ : target (touchPage σ d va dirty) dirs = target σ dirs := by
    rw [target_update_pte hd₂ hv₂, ht₁]
    refine (congrArg (Function.update _ _) ?_).trans (Function.update_eq_self _ _)
    rw [named_mk (PGNUM_lt _) haddr, htgt, (present_of_target htgt).2]
  have hne : ∀ t, target σ dirs t ≠ some σ.kernPgdir := h.pinv.target_ne_kern
  refine ⟨⟨hp₂, ?_, h.kern_dir.congr rfl ?_, ?_, ?_, ?_⟩, rfl⟩
  · rw [ht₂]
    exact h.noWrap
  · have h₁ : σ.kernPgdir ≠ pt := fun hc => hne _ (hc ▸ hpt)
    have h₂ : σ.kernPgdir ≠ d := fun hc => hne (.dir e) (hc ▸ hd)
    funext i
    rw [hσ₂, Phys.mem_store, if_neg fun hc => h₁ hc.1, hσ₁, Phys.mem_store,
      if_neg fun hc => h₂ hc.1]
  · intro x hx
    rw [hd₂, hd₁] at hx ⊢
    by_cases hxe : x = (e, PDX va)
    · subst hxe
      rw [Function.update_self, ← pdes_of_dir hd (PDX_user hva)]
      refine pde_w_or (h.pde_w _ ?_) _
      rw [pdes_of_dir hd (PDX_user hva)]
      exact hpde
    · rw [Function.update_of_ne hxe] at hx ⊢
      exact h.pde_w x hx
  · intro x hx
    rw [hv₂] at hx ⊢
    by_cases hxe : x = (e, PDX va, PTX va)
    · subst hxe
      rw [Function.update_self]
      refine flagBits_mk (flags_or (h.flags _ hpres) (touch_flags dirty))
    · rw [Function.update_of_ne hxe] at hx ⊢
      rw [hv₁] at hx ⊢
      exact h.flags x hx
  · rw [ht₂]
    exact h.data

end Memory

/-! ## The invariant -/

/-- What a CPU outside the kernel has in CR3. -/
def CpuOk (k : Kernel) (p : CpuPhase) (c : Cpu) : Prop :=
  p = .loaded ∨ p = .user → ∃ e, k.cpuEnv c = some e ∧ k.dirs e = some (k.cr3 c)

structure SmpInv (managed tables : Set Nat) (m : Smp) : Prop where
  kinv : KInv managed tables m.k
  cpu : ∀ c, CpuOk m.k (m.phase c) c

/-- What the invariant needs from a step: the mappings made are sound, and no environment is freed
that is another CPU's `cpu_env`. -/
def Sound (m : Smp) : SmpAct → Prop
  | .trap c tf _ _ => ∀ cur, m.k.cpuEnv c = some cur →
      TrapOk m.k cur tf ∧ ∀ c', c' ≠ c → ∀ e, m.k.cpuEnv c' = some e → ¬ Frees m.k cur tf e
  | _ => True

/-- `P`, of the steps other than `env_create` and traps. -/
def SmpAct.Rest (P : SmpAct → Prop) : SmpAct → Prop
  | .create _ _ | .trap _ _ _ _ => True
  | a => P a

/-- A condition that only `env_create` and traps have to meet is decided there. -/
@[reducible] def SmpAct.decidableEntry {P : SmpAct → Prop}
    (hcreate : ∀ type eip, Decidable (P (.create type eip)))
    (htrap : ∀ c tf cr2 input, Decidable (P (.trap c tf cr2 input)))
    (hrest : ∀ a : SmpAct, a.Rest P) : DecidablePred P
  | .create type eip => hcreate type eip
  | .trap c tf cr2 input => htrap c tf cr2 input
  | .region e va contents => isTrue (hrest (.region e va contents))
  | .start c => isTrue (hrest (.start c))
  | .unlock c => isTrue (hrest (.unlock c))
  | .lcr3 c => isTrue (hrest (.lcr3 c))
  | .iret c => isTrue (hrest (.iret c))
  | .store c va b => isTrue (hrest (.store c va b))
  | .touch c va dirty => isTrue (hrest (.touch c va dirty))

instance (m : Smp) : DecidablePred (Sound m) :=
  SmpAct.decidableEntry (fun _ _ => instDecidableTrue) (fun _ _ _ _ => decidableForallSome _)
    (by rintro (_ | _) <;> trivial)

/-- The step takes no environment away, and leaves the CPUs alone. -/
structure Grows (managed tables : Set Nat) (k k' : Kernel) : Prop where
  inv : KInv managed tables k'
  kern : k'.phys.kernPgdir = k.phys.kernPgdir
  dirs : ∀ e, k.dirs e ≠ none → k'.dirs e = k.dirs e
  cpuEnv : k'.cpuEnv = k.cpuEnv
  cr3 : k'.cr3 = k.cr3

section Steps

variable {managed tables : Set Nat} {k k' : Kernel} {c : Cpu} {e : EnvIdx}

theorem CpuOk.mono {p : CpuPhase} (h : CpuOk k p c) (hcpu : k'.cpuEnv c = k.cpuEnv c)
    (hcr3 : k'.cr3 c = k.cr3 c)
    (hdirs : ∀ e, k.cpuEnv c = some e → k.dirs e ≠ none → k'.dirs e = k.dirs e) :
    CpuOk k' p c := by
  intro hp
  obtain ⟨e, he, hd⟩ := h hp
  refine ⟨e, by rw [hcpu, he], ?_⟩
  rw [hdirs e he (by rw [hd]; nofun), hcr3]
  exact hd

theorem KInv.create (h : KInv managed tables k) {type : EnvType} {eip : Word}
    (hx : envCreate k type eip = some k') : Grows managed tables k k' := by
  unfold envCreate at hx
  split at hx
  · rename_i child k₁ hal
    rcases envAlloc_ok hal with ⟨r, hr, -⟩ | ⟨child', p, hc, hhead, hp, rfl⟩
    · cases hr
    obtain rfl : child = child' := Except.ok.inj hc
    have hpg : (newEnv k 0 child p).envPgdir = some p := rfl
    obtain ⟨hinv, hkern, hdirs, hnone, -⟩ := h.allocated hhead hp hpg (ENVX_nextEnvId _ _)
    set k₂ := Jos.allocated k child p (newEnv k 0 child p) with hk₂
    have hdir₂ : k₂.dirs child ≠ none := by
      rw [hdirs, Function.update_self]
      nofun
    have hkeep : MidKeeps managed tables 0 child (fun _ => False) k₂ (k₂.setEnv child fun env =>
        { env with envTf := { env.envTf with tfEip := eip }, envType := type, envParentId := 0 }) :=
      hinv.keeps_setEnv rfl rfl rfl fun _ => hdir₂
    obtain rfl := Option.some.inj hx
    refine ⟨hkeep.inv, hkern, fun e he => ?_, rfl, rfl⟩
    have hne : e ≠ child := by
      rintro rfl
      exact he hnone
    have he₂ : k₂.dirs e = k.dirs e := by
      rw [hdirs, Function.update_of_ne hne]
    rw [← he₂] at he ⊢
    exact (hkeep.dirs e he).resolve_left id
  · cases hx

theorem MemInv.grows {σ : Phys} {free : List Nat} (hm : MemInv managed tables σ k.dirs free ∅)
    (h : KInv managed tables k) (hkern : σ.kernPgdir = k.phys.kernPgdir) :
    Grows managed tables k { k with phys := σ } :=
  ⟨⟨⟨free, hm⟩, h.tab.congr rfl rfl⟩, hkern, fun _ _ => rfl, rfl, rfl⟩

/-- **A page of a new environment.** -/
theorem KMem.region (h : KMem managed tables k) {va : Word} {contents : Idx → Word}
    (hva : va < UTOP) (hx : regionPage k e va contents = some k') :
    KMem managed tables k' ∧ k'.phys.kernPgdir = k.phys.kernPgdir := by
  obtain ⟨free, hm⟩ := h
  unfold regionPage at hx
  split at hx
  · rename_i d p σ₁ hd hal
    cases free with
    | nil => simp [pageAlloc, hm.pinv.head_eq_none] at hal
    | cons q rest =>
      obtain ⟨hal₁, hm₁, -, -⟩ := hm.alloc false
      have hk₁ : (pageAlloc k.phys false).2.kernPgdir = k.phys.kernPgdir := by
        simp [pageAlloc, hm.pinv.head_eq]
      rw [hal] at hal₁ hm₁ hk₁
      obtain rfl : p = q := Option.some.inj hal₁
      have hheld : p ∈ insert p (∅ : Set Nat) := Set.mem_insert _ _
      obtain ⟨hpm, hpf, hpt, hz⟩ := hm₁.pinv.held_fresh hheld
      have hmap : MemInv.Mappable tables σ₁ k.dirs p :=
        ⟨hpt, fun s _ => hm₁.pinv.target_ne_held hheld s⟩
      have href : kernRefs tables p + refs (target σ₁ k.dirs) p + 1 < 2 ^ 16 := by
        rw [hz, kernRefs_of_notMem hpt]
        norm_num
      have hempty : insert p (∅ : Set Nat) \ {p} = ∅ := by simp
      have hperm : (PTE_U ||| PTE_P ||| PTE_W) &&& ~~~PTE_USER = 0 := by decide
      rcases hm₁.insert hd hva hpm hpf hmap hperm (.inr href) with
        ⟨-, hno⟩ | ⟨σ', free', hok, hI, hm₂⟩
      · rw [hno] at hx
        simp only at hx
        rw [if_neg (by decide : ¬ -E_NO_MEM = 0)] at hx
        cases hx
      · rw [hok] at hx
        simp only [if_true] at hx
        obtain rfl := Option.some.inj hx
        rw [hempty] at hm₂
        have htgt : target σ' k.dirs (.pte e (PDX va) (PTX va)) = some p := by
          obtain ⟨pt, htgt, -⟩ := hI.tgt
          rw [htgt, Function.update_self]
        have hpk : p ≠ σ'.kernPgdir := fun hc => hm₂.pinv.target_ne_kern _ (hc ▸ htgt)
        obtain ⟨hm₃, -⟩ := hm₂.writeFrame (p := p)
          (⟨rfl, rfl, rfl, rfl, rfl⟩ :
            SameAlloc σ' { σ' with mem := Function.update σ'.mem p contents })
          (hm₂.data _ _ _ p htgt).2 hpk
          fun f hf => Function.update_of_ne hf contents σ'.mem
        exact ⟨⟨free', hm₃⟩, hI.kernPgdir.trans hk₁⟩
  · cases hx

theorem regionPage_phys {k k' : Kernel} {e : EnvIdx} {va : Word} {contents : Idx → Word}
    (hx : regionPage k e va contents = some k') : k' = { k with phys := k'.phys } := by
  unfold regionPage at hx
  split at hx
  · split at hx
    · split_ifs at hx
      obtain rfl := Option.some.inj hx
      rfl
    · cases hx
  · cases hx

theorem KInv.region (h : KInv managed tables k) {va : Word} {contents : Idx → Word}
    (hva : va < UTOP) (hx : regionPage k e va contents = some k') : Grows managed tables k k' := by
  obtain ⟨⟨free, hm⟩, hkern⟩ := h.mem.region hva hx
  have hk := regionPage_phys hx
  have hdirs : k'.dirs = k.dirs := by
    rw [hk]
    rfl
  rw [hdirs] at hm
  rw [hk]
  exact hm.grows h hkern

/-! ## Every step keeps it -/

theorem SmpInv.of_grows {m : Smp} (h : SmpInv managed tables m) (hg : Grows managed tables m.k k') :
    SmpInv managed tables { m with k := k' } :=
  ⟨hg.inv, fun c => (h.cpu c).mono (by rw [hg.cpuEnv]) (by rw [hg.cr3]) fun e _ => hg.dirs e⟩

theorem SmpInv.finish {m m' : Smp} {cur : EnvIdx} {gone : EnvIdx → Prop} {exit : Exit}
    (h : SmpInv managed tables m) (ho : SysOutcome managed tables c cur gone m.k exit)
    (hgone : ∀ c', c' ≠ c → ∀ e, m.k.cpuEnv c' = some e → ¬ gone e)
    (hf : m.finish c exit = some m') :
    SmpInv managed tables m' ∧ Keeps managed tables c cur gone m.k m'.k := by
  have hstep : ∀ (p : CpuPhase), p = .running ∨ p = .monitor → ∀ k',
      Keeps managed tables c cur gone m.k k' → SmpInv managed tables (m.setPhase c p k') := by
    intro p hp k' hk
    refine ⟨hk.inv, fun c' => ?_⟩
    by_cases hc : c' = c
    · subst hc
      intro hph
      simp only [Smp.setPhase, Function.update_self] at hph
      rcases hp with rfl | rfl <;> rcases hph with hph | hph <;> cases hph
    · change CpuOk k' (Function.update m.phase c p c') c'
      rw [Function.update_of_ne hc]
      obtain ⟨hcpu, hcr3⟩ := hk.cpu c' hc
      exact (h.cpu c').mono hcpu hcr3 fun e he hd => (hk.dirs e hd).resolve_left (hgone c' hc e he)
  cases exit with
  | run k₁ e =>
    obtain rfl := Option.some.inj hf
    have hk := (ho.run k₁ e rfl).1
    exact ⟨hstep _ (.inl rfl) _ hk, hk⟩
  | monitor k₁ =>
    obtain rfl := Option.some.inj hf
    have hk := ho.monitor k₁ rfl
    exact ⟨hstep _ (.inr rfl) _ hk, hk⟩
  | panic msg => cases hf

theorem dirs_envPopTf (k : Kernel) (c : Cpu) : (envPopTf k c).dirs = k.dirs := by
  unfold envPopTf
  split
  · rfl
  · rw [dirs_setEnv]
    exact Function.update_eq_self _ _

theorem KInv.popTf (h : KInv managed tables k) (hdir : ∀ e, k.cpuEnv c = some e → k.dirs e ≠ none) :
    Grows managed tables k (envPopTf k c) := by
  unfold envPopTf
  split
  · exact ⟨h, rfl, fun _ _ => rfl, rfl, rfl⟩
  · rename_i e he
    have hkeep : MidKeeps managed tables c e (fun _ => False) k
        (k.setEnv e fun env => { env with envCpunum := c }) :=
      h.keeps_setEnv rfl rfl rfl fun _ => hdir e he
    exact ⟨hkeep.inv, rfl, fun e' he' => (hkeep.dirs e' he').resolve_left id, rfl, rfl⟩

theorem SmpInv.trap {m m' : Smp} {tf : Trapframe} {cr2 input : Word}
    (h : SmpInv managed tables m) (hs : Sound m (.trap c tf cr2 input))
    (hstep : m.step (.trap c tf cr2 input) = some m') :
    ∃ cur, m.k.cpuEnv c = some cur ∧ m.k.dirs cur = some (m.k.cr3 c) ∧ m.LockFree ∧
      m.phase c = .user ∧ SmpInv managed tables m' ∧
      Keeps managed tables c cur (Frees m.k cur tf) m.k m'.k := by
  cases step_cases hstep with
  | @trap _ cur _ _ _ _ hlock hphase hcs hcur hfin =>
    obtain ⟨cur', hcur', hdir⟩ := h.cpu c (.inr hphase)
    obtain rfl : cur = cur' := Option.some.inj (hcur.symm.trans hcur')
    obtain ⟨hok, hgone⟩ := hs cur hcur
    obtain ⟨hinv, hk⟩ := h.finish (h.kinv.entry hcur hdir hok (trap_cases hcur)) hgone hfin
    exact ⟨cur, hcur, hdir, hlock, hphase, hinv, hk⟩

theorem SmpInv.start {m m' : Smp} (h : SmpInv managed tables m)
    (hstep : m.step (.start c) = some m') :
    m.phase c = .boot ∧ SmpInv managed tables m' ∧
      Keeps managed tables c 0 (fun _ => False) m.k m'.k := by
  cases step_cases hstep with
  | start hlock hphase hfirst hfin =>
    have hrefl : MidKeeps managed tables c 0 (fun _ => False) m.k m.k := h.kinv.keeps_refl
    exact ⟨hphase, h.finish hrefl.toKeeps.outcome_sched (fun _ _ _ _ => id) hfin⟩

theorem SmpInv.setPhase {m : Smp} {p : CpuPhase} (h : SmpInv managed tables m)
    (hg : Grows managed tables m.k k') (hp : CpuOk k' p c) :
    SmpInv managed tables (m.setPhase c p k') := by
  refine ⟨hg.inv, fun c' => ?_⟩
  change CpuOk k' (Function.update m.phase c p c') c'
  by_cases hc : c' = c
  · subst hc
    rw [Function.update_self]
    exact hp
  · rw [Function.update_of_ne hc]
    exact (h.of_grows hg).cpu c'

/-- **One step keeps the invariant.** -/
theorem SmpInv.step {m m' : Smp} {a : SmpAct} (h : SmpInv managed tables m) (hs : Sound m a)
    (hstep : m.step a = some m') : SmpInv managed tables m' := by
  cases step_cases hstep with
  | create hboot hk => exact h.of_grows (h.kinv.create hk)
  | region hboot hva hk => exact h.of_grows (h.kinv.region hva hk)
  | start hlock hphase hfirst hfin => exact (h.start hstep).2.1
  | trap hlock hphase hcs hcur hfin =>
    obtain ⟨cur, -, -, -, -, hinv, -⟩ := h.trap hs hstep
    exact hinv
  | unlock hphase =>
    refine h.setPhase ⟨h.kinv, rfl, fun _ _ => rfl, rfl, rfl⟩ ?_
    rintro (hp | hp) <;> cases hp
  | @lcr3 c _ hphase hk =>
    obtain ⟨e, d, he, hd, rfl⟩ := lcr3Curenv_ok hk
    have hk : KInv managed tables (m.k.lcr3 c d) :=
      ⟨h.kinv.mem.congr rfl rfl, h.kinv.tab.congr rfl rfl⟩
    refine ⟨hk, fun c' => ?_⟩
    by_cases hc : c' = c
    · subst hc
      refine fun _ => ⟨e, he, ?_⟩
      simp only [Smp.setPhase, Kernel.lcr3, Function.update_self]
      exact hd
    · change CpuOk (m.k.lcr3 c d) (Function.update m.phase c .loaded c') c'
      rw [Function.update_of_ne hc]
      exact (h.cpu c').mono rfl (Function.update_of_ne hc _ _) fun _ _ _ => rfl
  | @iret c hphase =>
    obtain ⟨e, he, hd⟩ := h.cpu c (.inl hphase)
    have hpop : Grows managed tables m.k (envPopTf m.k c) := by
      refine h.kinv.popTf fun e' he' => ?_
      rw [he, Option.some.injEq] at he'
      subst he'
      rw [hd]
      exact Option.some_ne_none _
    refine h.setPhase hpop fun _ => ⟨e, by rw [hpop.cpuEnv]; exact he, ?_⟩
    rw [dirs_envPopTf, hpop.cr3]
    exact hd
  | @store c va b hphase hva hp =>
    obtain ⟨e, -, hd⟩ := h.cpu c (.inr hphase)
    obtain ⟨free, hm⟩ := h.kinv.mem
    exact h.of_grows ((hm.storeByte hd hva (by decide) hp b).1.grows h.kinv rfl)
  | @touch c va dirty hphase hva hp =>
    obtain ⟨e, -, hd⟩ := h.cpu c (.inr hphase)
    obtain ⟨free, hm⟩ := h.kinv.mem
    obtain ⟨hm', hk'⟩ := hm.touch hd hva (by decide) hp dirty
    exact h.of_grows (hm'.grows h.kinv hk')

/-! ## The start -/

theorem initEnv_chain (m n : Nat) (h : n + m = 1023) :
    ∃ l, Chain (fun e => (initEnv e).envLink) (some ⟨n, by omega⟩) l ∧ ∀ e, e ∈ l ↔ n ≤ e.val := by
  induction m generalizing n with
  | zero =>
    obtain rfl : n = 1023 := h
    refine ⟨[⟨1023, by omega⟩], .cons .nil, fun e => ?_⟩
    rw [List.mem_singleton, Fin.ext_iff]
    exact ⟨fun he => le_of_eq he.symm, fun he => le_antisymm (Nat.le_of_lt_succ e.isLt) he⟩
  | succ m ih =>
    obtain ⟨l, hl, hmem⟩ := ih (n + 1) (by omega)
    have hlt : n + 1 < 1024 := by omega
    refine ⟨⟨n, by omega⟩ :: l, .cons ?_, fun e => ?_⟩
    · simpa [initEnv, hlt] using hl
    · rw [List.mem_cons, hmem, Fin.ext_iff]
      exact ⟨fun he => he.elim (fun he => le_of_eq he.symm) Nat.le_of_succ_le,
        fun he => (Nat.eq_or_lt_of_le he).imp Eq.symm id⟩

theorem envStatus_initEnv (e : EnvIdx) : (initEnv e).envStatus = ENV_FREE := by
  unfold initEnv
  split <;> rfl

theorem Boots.smpInv {m : Smp} (h : Boots managed tables m) : SmpInv managed tables m := by
  obtain ⟨free, hm⟩ := h.mem
  obtain ⟨free', hp⟩ := hm.inv.pinv
  have hvm : ∀ x, vm m.k.phys m.k.dirs x = 0#32 := fun x => vm_of_no_dir (hm.no_env x.1) _ _
  refine ⟨⟨⟨free', hp, fun p => ?_, hm.kern_dir, fun x hx => ?_, fun x hx => ?_,
      fun e i j p ht => ?_⟩,
    ⟨?_, fun e he => ?_, fun e he => (he (hm.no_env e)).elim⟩⟩, fun c hc => ?_⟩
  · have := kernRefs_le tables p
    rw [hp.refs_eq, userRefs_of_no_dir hm.no_env]
    omega
  · rw [pdes, hm.no_env] at hx
    exact (not_present_zero hx).elim
  · rw [hvm] at hx
    exact (not_present_zero hx).elim
  · rw [target, hvm, named_zero] at ht
    cases ht
  · obtain ⟨l, hl, -⟩ := initEnv_chain 1023 0 rfl
    refine ⟨l, ?_, fun e _ => hm.no_env e⟩
    rw [h.envFreeList, show (fun e => (m.k.envs e).envLink) = fun e => (initEnv e).envLink from
      funext fun e => by rw [h.envs]]
    exact hl
  · rw [h.envs] at he
    exact (he (envStatus_initEnv e)).elim
  · rw [h.phase] at hc
    rcases hc with hc | hc <;> cases hc

/-- **The invariant holds in every run** whose steps are sound. -/
theorem Boots.smpInv_run {m m' : Smp} {acts : List SmpAct} (h : Boots managed tables m)
    (hrun : RunWhile Sound Smp.step m acts m') : SmpInv managed tables m' :=
  hrun.invariant h.smpInv fun _ _ _ hinv hs hstep => hinv.step hs hstep

end Steps

/-! ## A machine to boot -/

/-- A machine with 40 pages for the allocator. -/
def freshKernel : Kernel where
  phys :=
    { npages := 64
      mem := fun _ _ => 0
      ppRef := fun _ => 0
      ppLink := fun p => if p < 40 then some (p + 1) else none
      pageFreeList := some 1
      nAvailPages := 40
      kernPgdir := 50
      tlb := [] }
  envs := initEnv
  envFreeList := some 0
  cpuEnv := fun _ => none
  cr3 := fun _ => 50

def freshSmp : Smp := ⟨freshKernel, fun _ => .boot⟩

theorem chain_upTo {link : Nat → Option Nat} {last : Nat} (hlast : link last = none)
    (hlink : ∀ p < last, link p = some (p + 1)) (m n : Nat) (h : n + m = last) :
    ∃ l, Chain link (some n) l ∧ ∀ p, p ∈ l ↔ n ≤ p ∧ p ≤ last := by
  induction m generalizing n with
  | zero =>
    obtain rfl : n = last := h
    have hnil : Chain link (link n) [] := hlast ▸ .nil
    refine ⟨[n], .cons hnil, fun p => ?_⟩
    rw [List.mem_singleton]
    omega
  | succ m ih =>
    obtain ⟨l, hl, hmem⟩ := ih (n + 1) (by omega)
    refine ⟨n :: l, .cons (hlink n (by omega) ▸ hl), fun p => ?_⟩
    rw [List.mem_cons, hmem]
    omega

theorem boots_freshSmp : Boots (Set.Icc 1 40) ∅ freshSmp where
  mem := by
    obtain ⟨l, hl, hmem⟩ : ∃ l, Chain freshKernel.phys.ppLink (some 1) l ∧
        ∀ p, p ∈ l ↔ 1 ≤ p ∧ p ≤ 40 := chain_upTo rfl (fun p hp => if_pos hp) 39 1 rfl
    refine ⟨l, hl, fun p => ?_, Set.empty_subset _, fun _ _ => rfl, nofun, fun p hp => ?_, ?_, ?_,
      fun i _ => not_present_zero, fun e => ?_⟩
    · simp [hmem, Set.mem_Icc]
    · have hp' : 1 ≤ p ∧ p ≤ 40 := hp
      change p ≠ 0 ∧ p < 64
      omega
    · decide
    · change ¬ (1 ≤ 50 ∧ 50 ≤ 40)
      omega
    · change (initEnv e).envPgdir = none
      unfold initEnv
      split <;> rfl
  envs _ := rfl
  envFreeList := rfl
  cpuEnv _ := rfl
  cr3 _ := rfl
  phase _ := rfl

/-- What `i386_init` creates: an idle environment for each CPU, and a program with one page. -/
def bootActs : List SmpAct :=
  List.replicate 8 (.create .IDLE 0x800020#32) ++
    [.create .USER 0x800020#32, .region 8 0x800000#32 fun _ => 0]

/-- The CPU leaves the kernel. -/
def leaveActs (c : Cpu) : List SmpAct := [.unlock c, .lcr3 c, .iret c]

/-- A system call. -/
def sysTf (no a1 a2 a3 a4 a5 : Word) : Trapframe :=
  { tfTrapno := T_SYSCALL, tfCs := GD_UT ||| 3
    tfRegs :=
      { regEax := no, regEdx := a1, regEcx := a2, regEbx := a3, regEdi := a4, regEsi := a5 } }

/-- A system call that returns to its caller. -/
def callActs (c : Cpu) (no a1 a2 a3 a4 a5 : Word) : List SmpAct :=
  .trap c (sysTf no a1 a2 a3 a4 a5) 0 0 :: leaveActs c

/-- The program forks, shares its page with the child, and the child runs on CPU 1. -/
def childActs : List SmpAct :=
  bootActs ++ .start 0 :: leaveActs 0 ++ callActs 0 SYS_exofork 0 0 0 0 0 ++
    callActs 0 SYS_page_map 0 0x800000#32 0x1009#32 0x800000#32 (PTE_P ||| PTE_U) ++
    callActs 0 SYS_env_set_status 0x1009#32 ENV_RUNNABLE 0 0 0 ++ .start 1 :: leaveActs 1

end Jos
