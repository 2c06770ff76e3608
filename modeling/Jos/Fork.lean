import Jos.Spaces

/-!
# `fork`

`lib/fork.c` and `lib/pgfault.c`: the library functions that build the address space of a child out
of system calls. They run in user mode, so they see page tables only through `vpt` and `vpd`, and
each read of those goes through the MMU (`readWord`).

**Stops.** A library function returns, or its program stops in `_panic` (`UserStop.panic`, with the
state it leaves behind), or a system call ends in the kernel (`UserStop.kernel`).

**What is left out.** The variable `_pgfault_handler` is an argument (`installed`), and so is the
address of `_pgfault_upcall`. The writes that compiled code makes to its own stack and variables are
not part of these functions; where they matter they are separate writes of the program. Messages on
the console are left out, and a panic message ends where its first number would stand.

**Results.** `pgfault_spec` says what the handler does to all mappings and to the contents of mapped
pages.
-/

namespace Jos

open Lib

/-- The mark of a copy-on-write page, one of the bits in `PTE_AVAIL`. -/
def PTE_COW : Word := 0x800#32

def FEC_PR : Word := 0x1#32
def FEC_WR : Word := 0x2#32
def FEC_U : Word := 0x4#32

/-- The address of a page, by its number. -/
def PGNUM2LA (n : Nat) : Word := BitVec.ofNat 32 n <<< 12

/-- How a user program stops before a library function returns. -/
inductive UserStop
  | panic (msg : String) (k : Kernel)
  | kernel (exit : Exit)

/-- A system call on pages, made by a program. -/
def ofCall {α : Type} (x : Except String α) : Except UserStop α :=
  x.mapError fun msg => .kernel (.panic msg)

/-- A word read by the program of `cur`. A read that faults ends in the panic of `pgfault`, which
only resolves writes. -/
def readWord (k : Kernel) (cur : EnvIdx) (va : Word) : Except UserStop Word := do
  let d ← ofCall (k.pgdir cur)
  if Permits k.phys d va (PTE_P ||| PTE_U) then return k.phys.load (mmuWord k.phys d va)
  else .error (.panic "page fault handler failed by: " k)

/-- `memmove` of a whole page, from `src` to `dst`. -/
def memmovePage (k : Kernel) (cur : EnvIdx) (dst src : Word) : Except UserStop Kernel := do
  let d ← ofCall (k.pgdir cur)
  if Permits k.phys d src (PTE_P ||| PTE_U) ∧ Permits k.phys d dst (PTE_P ||| PTE_U ||| PTE_W) then
    return { k with phys := { k.phys with
      mem := Function.update k.phys.mem (PGNUM (mmuPte k.phys d dst))
        (k.phys.mem (PGNUM (mmuPte k.phys d src))) } }
  else .error (.panic "page fault handler failed by: " k)

/-! ## The page fault handler -/

/-- `pgfault`, for a fault at `addr` with error code `err`. -/
def pgfault (k : Kernel) (cur : EnvIdx) (addr err : Word) : Except UserStop Kernel := do
  let _ ← readWord k cur (vpt (PGNUM addr))
  let pde ← readWord k cur (vpd (PDX addr))
  if PTE_P ||| PTE_U ≠ pde &&& (PTE_P ||| PTE_U) then
    .error (.panic "page fault handler failed by: " k)
  else do
    let pte ← readWord k cur (vpt (PGNUM addr))
    if ¬ (PTE_P &&& pte ≠ 0 ∧ FEC_WR &&& err ≠ 0 ∧ pte &&& PTE_COW ≠ 0) then
      .error (.panic "page fault handler failed by: " k)
    else do
      let (r, k) ← ofCall (sysPageAlloc k cur 0 PFTEMP (PTE_P ||| PTE_U ||| PTE_W))
      if r.toInt < 0 then .error (.panic "page fault handler failed by: " k)
      else do
        let k ← memmovePage k cur PFTEMP (PTE_ADDR addr)
        let (r, k) ← ofCall (sysPageMap k cur 0 PFTEMP 0 (PTE_ADDR addr)
          (PTE_P ||| PTE_U ||| PTE_W))
        if r.toInt < 0 then .error (.panic "page fault handler failed by: " k)
        else do
          let (r, k) ← ofCall (sysPageUnmap k cur 0 PFTEMP)
          if r.toInt < 0 then .error (.panic "page fault handler failed by: " k) else return k

/-- `set_pgfault_handler`: the first time, allocate an exception stack and register the entry point.
-/
def setPgfaultHandler (upcall : Word) (installed : Bool) (k : Kernel) (cur : EnvIdx) :
    Except UserStop Kernel :=
  if installed = true then .ok k
  else do
    let (r, k) ← ofCall (sysPageAlloc k cur 0 UXSTACKBASE (PTE_U ||| PTE_W ||| PTE_P))
    if 0 ≠ r then .error (.panic "allocating at " k)
    else return (sysEnvSetPgfaultUpcall k cur 0 upcall).2

/-! ## Duplicating an address space -/

/-- The flags of a page that becomes copy-on-write. -/
def cowFlags (pte : Word) : Word := (PGOFF pte ||| PTE_COW) &&& ~~~PTE_W

/-- `duppage`: map page `pn` into `envid`, copy-on-write if it can be written. -/
def duppage (k : Kernel) (cur : EnvIdx) (envid : Word) (pn : Nat) :
    Except UserStop (Word × Kernel) := do
  let pde ← readWord k cur (vpd (pn >>> 10))
  if ¬ (PTE_P ||| PTE_U = pde &&& (PTE_P ||| PTE_U)) then return (-E_INVAL, k)
  else do
    let pte ← readWord k cur (vpt pn)
    if PTE_U ||| PTE_P ≠ pte &&& (PTE_U ||| PTE_P) then return (-E_INVAL, k)
    else if pte &&& (PTE_W ||| PTE_COW) = 0 then do
      let (_, k) ← ofCall (sysPageMap k cur 0 (PGNUM2LA pn) envid (PGNUM2LA pn) (PGOFF pte))
      return (0, k)
    else do
      let (_, k) ← ofCall (sysPageMap k cur 0 (PGNUM2LA pn) envid (PGNUM2LA pn) (cowFlags pte))
      let pte ← readWord k cur (vpt pn)
      let (_, k) ← ofCall (sysPageMap k cur 0 (PGNUM2LA pn) 0 (PGNUM2LA pn) (cowFlags pte))
      return (0, k)

/-- The loop of `fork` at one page. -/
def forkPage (cur : EnvIdx) (child : Word) (k : Kernel) (pgn : Nat) : Except UserStop Kernel :=
  if pgn = PGNUM UXSTACKBASE then do
    let (_, k) ← ofCall (sysPageAlloc k cur child UXSTACKBASE (PTE_U ||| PTE_W ||| PTE_P))
    return k
  else if pgn < PGNUM UXSTACKBASE then do
    let pde ← readWord k cur (vpd (pgn >>> 10))
    if PTE_P ||| PTE_U = pde &&& (PTE_P ||| PTE_U) then do
      let pte ← readWord k cur (vpt pgn)
      if PTE_P ||| PTE_U = pte &&& (PTE_P ||| PTE_U) then do
        let (_, k) ← duppage k cur child pgn
        return k
      else return k
    else return k
  else return k

/-- `fork`, as the parent runs it. The child enters where `sys_exofork` returns zero. -/
def fork (upcall : Word) (installed : Bool) (k : Kernel) (cur : EnvIdx) :
    Except UserStop (Word × Kernel) := do
  let k ← setPgfaultHandler upcall installed k cur
  let (child, k) ← (sysExofork k cur).mapError UserStop.kernel
  if child.toInt < 0 then .error (.panic "fork in copy-on-write:" k)
  else if 0 = child then return (0, k)
  else do
    let k := (sysEnvSetPgfaultUpcall k cur child upcall).2
    let k ← (List.range (PGNUM UTOP)).foldlM (forkPage cur child) k
    let (r, k) := sysEnvSetStatus k cur child ENV_RUNNABLE
    if r.toInt < 0 then .error (.panic "sys_env_set_status: " k) else return (child, k)

/-! ## Page numbers -/

theorem PGOFF_PGNUM2LA (n : Nat) : PGOFF (PGNUM2LA n) = 0 := flagBits_page2pa n

section
variable {n : Nat} (hn : n < 2 ^ 20)
include hn

theorem toNat_PGNUM2LA : (PGNUM2LA n).toNat = n * 4096 := toNat_page2pa hn

theorem PGNUM_PGNUM2LA : PGNUM (PGNUM2LA n) = n := PGNUM_page2pa hn

theorem val_PDX_PGNUM2LA : (PDX (PGNUM2LA n)).val = n / 1024 := by
  rw [val_PDX, toNat_PGNUM2LA hn]
  omega

theorem val_PTX_PGNUM2LA : (PTX (PGNUM2LA n)).val = n % 1024 := by
  rw [val_PTX, toNat_PGNUM2LA hn]
  omega

theorem shiftRight_eq_PDX : n >>> 10 = PDX (PGNUM2LA n) := by
  rw [val_PDX_PGNUM2LA hn, Nat.shiftRight_eq_div_pow]

end

theorem addrOk_PGNUM2LA {n : Nat} (hn : n < PGNUM UTOP) : AddrOk (PGNUM2LA n) := by
  have hU : PGNUM UTOP = 955 * 1024 := by decide
  refine ⟨?_, PGOFF_PGNUM2LA n⟩
  change (PGNUM2LA n).toNat < UTOP.toNat
  rw [toNat_PGNUM2LA (by omega), show UTOP.toNat = 955 * 1024 * 4096 by decide]
  omega

/-! ## Bits -/

theorem and_or_eq {w a b : Word} (ha : w &&& a = a) (hb : w &&& b = b) :
    w &&& (a ||| b) = a ||| b := by
  rw [BitVec.and_or_distrib_left, ha, hb]

theorem and_eq_of_and_or_left {w a b : Word} (h : w &&& (a ||| b) = a ||| b) : w &&& a = a := by
  have hab : (a ||| b) &&& a = a := by
    ext i hi
    simp only [BitVec.getElem_and, BitVec.getElem_or]
    cases a[i] <;> simp
  rw [← hab, ← BitVec.and_assoc, h]

theorem and_eq_of_and_or_right {w a b : Word} (h : w &&& (a ||| b) = a ||| b) : w &&& b = b := by
  rw [BitVec.or_comm] at h
  exact and_eq_of_and_or_left h

theorem and_twoPow_eq {w : Word} {n : Nat} (h : w &&& BitVec.twoPow 32 n ≠ 0) :
    w &&& BitVec.twoPow 32 n = BitVec.twoPow 32 n := by
  rw [BitVec.and_twoPow] at *
  split_ifs at * with hb
  · rfl
  · exact (h rfl).elim

theorem and_PTE_U_eq {w : Word} (h : w &&& PTE_U ≠ 0) : w &&& PTE_U = PTE_U :=
  and_twoPow_eq (n := 2) h

theorem and_PTE_P_eq {w : Word} (h : Present w) : w &&& PTE_P = PTE_P := and_twoPow_eq (n := 0) h

theorem present_of_and_PU {w : Word} (h : w &&& (PTE_P ||| PTE_U) = PTE_P ||| PTE_U) : Present w :=
  present_of_and h (by decide)

/-! ## Reading page tables -/

variable {managed tables : Set Nat} {free free' : List Nat} {k : Kernel}
  {cur e : EnvIdx} {d p : Nat} {va : Word}

theorem permits_iff (hd : k.dirs e = some d) (hva : va < UTOP) {bits : Word}
    (hbits : Present bits) :
    Permits k.phys d va bits ↔
      pdes k.phys k.dirs (e, PDX va) &&& bits = bits ∧
        vm k.phys k.dirs (mapIdx e va) &&& bits = bits := by
  rw [pdes_of_dir hd (PDX_user hva)]
  constructor
  · intro h
    exact ⟨h.1, (mmu_target hd hva hbits h).2 ▸ h.2⟩
  · rintro ⟨hpde, hpte⟩
    have hpt : target k.phys k.dirs (.pde e (PDX va)) = some (PGNUM (k.phys.mem d (PDX va))) := by
      simp only [target, pdes_of_dir hd (PDX_user hva)]
      exact named_of_present (present_of_and hpde hbits)
    refine ⟨hpde, ?_⟩
    rw [mapIdx, vm_of_present hpt] at hpte
    exact hpte

namespace SpaceInv

variable (h : SpaceInv managed tables k.phys k.dirs free ∅) (hd : k.dirs cur = some d)
include h hd

theorem self_named : named (k.phys.mem d (PDX UVPT)) = some d := by
  have hlt : d < 2 ^ 20 := h.pinv.lt_two_pow (h.pinv.valid.tgt_mem (.dir cur) d hd)
  rw [h.self cur d hd, BitVec.or_assoc, BitVec.or_comm PTE_P, ← BitVec.or_assoc]
  exact named_mk hlt (by decide)

theorem self_PU : k.phys.mem d (PDX UVPT) &&& (PTE_P ||| PTE_U) = PTE_P ||| PTE_U := by
  rw [h.self cur d hd, BitVec.or_assoc, page2pa_or_and d (by decide)]
  decide

/-- The MMU lets a read of `vpt[n]` through if the directory entry for page `n` lets user programs
in. -/
theorem permits_vpt {n : Nat} (hn : n < 2 ^ 20) : Permits k.phys d (vpt n) (PTE_P ||| PTE_U) ↔
    k.phys.mem d (PTX (vpt n)) &&& (PTE_P ||| PTE_U) = PTE_P ||| PTE_U := by
  rw [Permits, PDX_vpt hn, mmuPte_vpt (h.self_named hd) hn]
  exact and_iff_right (h.self_PU hd)

theorem readVpd (i : Idx) : readWord k cur (vpd i) = .ok (k.phys.mem d i) := by
  obtain ⟨hpg, hdx, htx⟩ := uvpt_page i
  have hlt := PGNUM_lt (UVPT + BitVec.ofNat 32 (4096 * i))
  have hptx : PTX (vpt (PGNUM UVPT + i)) = PDX UVPT := by rw [← hpg, PTX_vpt_PGNUM, hdx]
  have hpr : Permits k.phys d (vpd i) (PTE_P ||| PTE_U) := by
    rw [vpd_eq, h.permits_vpt hd (hpg ▸ hlt), hptx]
    exact h.self_PU hd
  have hword : mmuWord k.phys d (vpd i) = (d, i) := by
    rw [vpd_eq, mmuWord, mmuPte_vpt (h.self_named hd) (hpg ▸ hlt), hptx,
      (named_eq_some (h.self_named hd)).2, ← hpg, WORDX_vpt_PGNUM, htx]
  simp only [readWord, ofCall, pgdir_of_dirs hd, mapError_ok, ok_bind, if_pos hpr, hword]
  rfl

theorem readVpt (hva : va < UTOP)
    (hpde : pdes k.phys k.dirs (cur, PDX va) &&& (PTE_P ||| PTE_U) = PTE_P ||| PTE_U) :
    readWord k cur (vpt (PGNUM va)) = .ok (vm k.phys k.dirs (mapIdx cur va)) := by
  have hlt := PGNUM_lt va
  rw [pdes_of_dir hd (PDX_user hva)] at hpde
  have hpr : Permits k.phys d (vpt (PGNUM va)) (PTE_P ||| PTE_U) := by
    rw [h.permits_vpt hd hlt, PTX_vpt_PGNUM]
    exact hpde
  have hpt : target k.phys k.dirs (.pde cur (PDX va)) = some (PGNUM (k.phys.mem d (PDX va))) := by
    simp only [target, pdes_of_dir hd (PDX_user hva)]
    exact named_of_present (present_of_and_PU hpde)
  have hword : mmuWord k.phys d (vpt (PGNUM va)) = (PGNUM (k.phys.mem d (PDX va)), PTX va) := by
    rw [mmuWord, mmuPte_vpt (h.self_named hd) hlt, PTX_vpt_PGNUM, WORDX_vpt_PGNUM]
  simp only [readWord, ofCall, pgdir_of_dirs hd, mapError_ok, ok_bind, if_pos hpr, hword, mapIdx,
    vm_of_present hpt]
  rfl

end SpaceInv

/-! ## Entries that let user programs through -/

theorem target_of_PU {σ : Phys} {dirs : EnvIdx → Option Nat} {i j : Idx}
    (hw : vm σ dirs (e, i, j) &&& (PTE_P ||| PTE_U) = PTE_P ||| PTE_U) :
    target σ dirs (.pte e i j) = some (PGNUM (vm σ dirs (e, i, j))) := by
  simp only [target]
  exact named_of_present (present_of_and_PU hw)

theorem PU_ne_zero {w : Word} (h : w &&& (PTE_P ||| PTE_U) = PTE_P ||| PTE_U) :
    w &&& PTE_U ≠ 0 := by
  rw [and_eq_of_and_or_right h]
  decide

theorem SpaceInv.pde_PU {σ : Phys} {dirs : EnvIdx → Option Nat} {held : Set Nat} {i j : Idx}
    (h : SpaceInv managed tables σ dirs free held)
    (hw : vm σ dirs (e, i, j) &&& (PTE_P ||| PTE_U) = PTE_P ||| PTE_U) :
    pdes σ dirs (e, i) &&& (PTE_P ||| PTE_U) = PTE_P ||| PTE_U := by
  have hpr : Present (pdes σ dirs (e, i)) := by
    by_contra hc
    rw [vm, if_neg hc] at hw
    exact absurd hw (by decide)
  exact and_or_eq (and_PTE_P_eq hpr) (and_PTE_U_eq (h.pde_u e i j (PU_ne_zero hw)))

theorem SpaceInv.permits_read (h : SpaceInv managed tables k.phys k.dirs free ∅)
    (hd : k.dirs e = some d) (hva : va < UTOP)
    (hw : vm k.phys k.dirs (mapIdx e va) &&& (PTE_P ||| PTE_U) = PTE_P ||| PTE_U) :
    Permits k.phys d va (PTE_P ||| PTE_U) :=
  (permits_iff hd hva (by decide)).2 ⟨h.pde_PU hw, hw⟩

theorem SpaceInv.permits_write (h : SpaceInv managed tables k.phys k.dirs free ∅)
    (hd : k.dirs e = some d) (hva : va < UTOP)
    (hw : vm k.phys k.dirs (mapIdx e va) &&& (PTE_P ||| PTE_U ||| PTE_W) =
      PTE_P ||| PTE_U ||| PTE_W) :
    Permits k.phys d va (PTE_P ||| PTE_U ||| PTE_W) := by
  have hpde := h.pde_PU (and_eq_of_and_or_left hw)
  exact (permits_iff hd hva (by decide)).2
    ⟨and_or_eq hpde (h.layout.pde_w _ (present_of_and_PU hpde)), hw⟩

theorem SpaceInv.memmovePage {dst src : Word} (h : SpaceInv managed tables k.phys k.dirs free ∅)
    (hd : k.dirs cur ≠ none) (hsrc : src < UTOP) (hdst : dst < UTOP)
    (hread : vm k.phys k.dirs (mapIdx cur src) &&& (PTE_P ||| PTE_U) = PTE_P ||| PTE_U)
    (hwrite : vm k.phys k.dirs (mapIdx cur dst) &&& (PTE_P ||| PTE_U ||| PTE_W) =
      PTE_P ||| PTE_U ||| PTE_W) :
    ∃ σ', memmovePage k cur dst src = .ok { k with phys := σ' } ∧
      SpaceInv managed tables σ' k.dirs free ∅ ∧ vm σ' k.dirs = vm k.phys k.dirs ∧
      target σ' k.dirs = target k.phys k.dirs ∧
      σ'.mem = Function.update k.phys.mem (PGNUM (vm k.phys k.dirs (mapIdx cur dst)))
        (k.phys.mem (PGNUM (vm k.phys k.dirs (mapIdx cur src)))) := by
  obtain ⟨d, hd⟩ := Option.ne_none_iff_exists'.1 hd
  have hps := h.permits_read hd hsrc hread
  have hpd := h.permits_write hd hdst hwrite
  have hms : mmuPte k.phys d src = vm k.phys k.dirs (mapIdx cur src) :=
    (mmu_target hd hsrc (by decide) hps).2
  have hmd : mmuPte k.phys d dst = vm k.phys k.dirs (mapIdx cur dst) :=
    (mmu_target hd hdst (by decide) hpd).2
  have huse : InUse k.phys k.dirs (PGNUM (vm k.phys k.dirs (mapIdx cur dst))) :=
    ⟨cur, PDX dst, PTX dst, target_of_PU (and_eq_of_and_or_left hwrite)⟩
  obtain ⟨σ', hσ'⟩ : ∃ σ' : Phys, σ' = { k.phys with
      mem := Function.update k.phys.mem (PGNUM (vm k.phys k.dirs (mapIdx cur dst)))
        (k.phys.mem (PGNUM (vm k.phys k.dirs (mapIdx cur src)))) } := ⟨_, rfl⟩
  have hmem : σ'.mem = Function.update k.phys.mem (PGNUM (vm k.phys k.dirs (mapIdx cur dst)))
      (k.phys.mem (PGNUM (vm k.phys k.dirs (mapIdx cur src)))) := by rw [hσ']
  have hsame : SameAlloc k.phys σ' := by
    rw [hσ']
    exact ⟨rfl, rfl, rfl, rfl, rfl⟩
  obtain ⟨h', hvm, hpdes⟩ := h.writeFrame hsame huse fun f hf => by
    rw [hmem, Function.update_of_ne hf]
  refine ⟨σ', ?_, h', hvm, target_congr hpdes hvm, hmem⟩
  simp only [Jos.memmovePage, ofCall, pgdir_of_dirs hd, mapError_ok, ok_bind,
    if_pos (And.intro hps hpd), hms, hmd, pure_eq_ok, hσ']

/-! ## `pgfault` -/

/-- A copy-on-write fault of `e` at `va` resolved: page `p`, which was free, is now the private
copy, and nothing is mapped at `PFTEMP`. -/
structure Resolved (k : Kernel) (free : List Nat) (σ' : Phys) (e : EnvIdx) (va : Word) (p : Nat) :
    Prop where
  vm : vm σ' k.dirs = Function.update (Function.update (vm k.phys k.dirs) (mapIdx e PFTEMP) 0)
    (mapIdx e va) (page2pa p ||| (PTE_P ||| PTE_U ||| PTE_W) ||| PTE_P)
  free : p ∈ free
  copy : σ'.mem p = k.phys.mem (PGNUM (Jos.vm k.phys k.dirs (mapIdx e va)))
  mem : ∀ q, InUse k.phys k.dirs q → InUse σ' k.dirs q → σ'.mem q = k.phys.mem q

theorem samePage_PTE_ADDR (va : Word) : SamePage (PTE_ADDR va) va := by
  rw [SamePage, toNat_PTE_ADDR]
  omega

theorem mapIdx_PTE_ADDR (e : EnvIdx) (va : Word) : mapIdx e (PTE_ADDR va) = mapIdx e va := by
  rw [mapIdx, (samePage_PTE_ADDR va).PDX_eq, (samePage_PTE_ADDR va).PTX_eq, mapIdx]

theorem addrOk_PTE_ADDR (hva : va < UTOP) : AddrOk (PTE_ADDR va) := by
  have h : (PTE_ADDR va).toNat < UTOP.toNat := by
    have : va.toNat < UTOP.toNat := hva
    rw [toNat_PTE_ADDR]
    omega
  refine ⟨h, ?_⟩
  rw [← page2pa_PGNUM]
  exact PGOFF_PGNUM2LA _

theorem and_PUW (p : Nat) : (page2pa p ||| (PTE_P ||| PTE_U ||| PTE_W) ||| PTE_P) &&&
    (PTE_P ||| PTE_U ||| PTE_W) = PTE_P ||| PTE_U ||| PTE_W := by
  rw [BitVec.or_assoc, page2pa_or_and p (by decide)]
  decide

theorem PGNUM_PUW (hp : p < 2 ^ 20) :
    PGNUM (page2pa p ||| (PTE_P ||| PTE_U ||| PTE_W) ||| PTE_P) = p := by
  rw [BitVec.or_assoc, PGNUM_page2pa_or hp (by decide)]

theorem inUse_of_vm {σ : Phys} {dirs : EnvIdx → Option Nat} {x : MapIdx} {q : Nat}
    (h : named (vm σ dirs x) = some q) : InUse σ dirs q := by
  obtain ⟨e, i, j⟩ := x
  exact ⟨e, i, j, h⟩

/-- A mapping of one environment leaves the page tables of the others. -/
theorem Inserted.pde_other {base : Nat → ℕ} {σ σ' : Phys} {dirs : EnvIdx → Option Nat}
    {held : Set Nat} {perm : Word}
    (hI : Inserted managed base σ σ' dirs free free' held e p va perm) {e' : EnvIdx} (hne : e' ≠ e)
    (i : Idx) : target σ' dirs (.pde e' i) = target σ dirs (.pde e' i) := by
  obtain ⟨pt, htgt, -⟩ := hI.tgt
  rw [htgt, Function.update_of_ne (by simp), Function.update_of_ne (by simp [hne])]

/-- What the four calls of `pgfault` do: a new page is mapped at `PFTEMP`, gets the contents of the
old one, replaces it, and is no longer mapped at `PFTEMP`. -/
theorem resolved_of_steps {σ₁ σ₂ σ₃ σ₄ : Phys} (h : SpaceInv managed tables k.phys k.dirs free ∅)
    (hp : p ∈ free) (hne : mapIdx cur va ≠ mapIdx cur PFTEMP)
    (huse : InUse k.phys k.dirs (PGNUM (vm k.phys k.dirs (mapIdx cur va)))) (hs₁ : PageStep k.phys
      σ₁ k.dirs (mapIdx cur PFTEMP) (page2pa p ||| (PTE_P ||| PTE_U ||| PTE_W) ||| PTE_P))
    (hv₂ : vm σ₂ k.dirs = vm σ₁ k.dirs)
    (hm₂ : σ₂.mem = Function.update σ₁.mem p (σ₁.mem (PGNUM (vm k.phys k.dirs (mapIdx cur va)))))
    (hs₃ : PageStep σ₂ σ₃ k.dirs (mapIdx cur va)
      (page2pa p ||| (PTE_P ||| PTE_U ||| PTE_W) ||| PTE_P))
    (hs₄ : PageStep σ₃ σ₄ k.dirs (mapIdx cur PFTEMP) 0) : Resolved k free σ₄ cur va p := by
  set x := page2pa p ||| (PTE_P ||| PTE_U ||| PTE_W) ||| PTE_P with hxdef
  have hp20 : p < 2 ^ 20 := h.pinv.lt_two_pow (h.pinv.free_managed hp)
  have hnx : named x = some p := by
    rw [named_of_present (present_of_and (and_PUW p) (by decide)), PGNUM_PUW hp20]
  have hv₁ := hs₁.vm
  have hv₃ : vm σ₃ k.dirs = Function.update (vm σ₁ k.dirs) (mapIdx cur va) x := by
    rw [← hv₂]
    exact hs₃.vm
  have hv₄ :
      vm σ₄ k.dirs = Function.update (Function.update (vm k.phys k.dirs) (mapIdx cur PFTEMP) 0)
      (mapIdx cur va) x := by
    rw [hs₄.vm, hv₃, hv₁, Function.update_comm hne, Function.update_idem]
  refine ⟨hv₄, hp, ?_, fun q hq hq₄ => ?_⟩
  · have hx₁ : vm σ₁ k.dirs (mapIdx cur PFTEMP) = x := by rw [hv₁, Function.update_self]
    have huse₂ : InUse σ₂ k.dirs p := inUse_of_vm (x := mapIdx cur PFTEMP) (by rw [hv₂, hx₁, hnx])
    have huse₃ : InUse σ₃ k.dirs p :=
      inUse_of_vm (x := mapIdx cur PFTEMP) (by rw [hv₃, Function.update_of_ne hne.symm, hx₁, hnx])
    rw [hs₄.mem p huse₃, hs₃.mem p huse₂, hm₂, Function.update_self, hs₁.mem _ huse]
  · have hqp : q ≠ p := fun hc => (h.inUse hq).2.1 (hc ▸ hp)
    -- what still maps `q` at the end has mapped it all the time
    obtain ⟨e', i, j, ht⟩ := hq₄
    change named (vm σ₄ k.dirs (e', i, j)) = some q at ht
    have hnv : (e', i, j) ≠ mapIdx cur va := by
      intro hc
      rw [hc, hv₄, Function.update_self, hnx] at ht
      exact hqp (Option.some.inj ht).symm
    have hnp : (e', i, j) ≠ mapIdx cur PFTEMP := by
      intro hc
      rw [hc, hv₄, Function.update_of_ne hne.symm, Function.update_self] at ht
      cases named_zero.symm.trans ht
    rw [hv₄, Function.update_of_ne hnv, Function.update_of_ne hnp] at ht
    have ht₁ : named (vm σ₁ k.dirs (e', i, j)) = some q := by
      rw [hv₁, Function.update_of_ne hnp, ht]
    have ht₂ : named (vm σ₂ k.dirs (e', i, j)) = some q := by rw [hv₂, ht₁]
    have ht₃ : named (vm σ₃ k.dirs (e', i, j)) = some q := by
      rw [hv₃, Function.update_of_ne hnv, ht₁]
    rw [hs₄.mem q (inUse_of_vm ht₃), hs₃.mem q (inUse_of_vm ht₂), hm₂, Function.update_of_ne hqp,
      hs₁.mem q hq]

/-- The calls of `pgfault`, behind its checks. -/
def copyCalls (k : Kernel) (cur : EnvIdx) (addr : Word) : Except UserStop Kernel := do
  let (r, k) ← ofCall (sysPageAlloc k cur 0 PFTEMP (PTE_P ||| PTE_U ||| PTE_W))
  if r.toInt < 0 then .error (.panic "page fault handler failed by: " k)
  else do
    let k ← memmovePage k cur PFTEMP (PTE_ADDR addr)
    let (r, k) ← ofCall (sysPageMap k cur 0 PFTEMP 0 (PTE_ADDR addr) (PTE_P ||| PTE_U ||| PTE_W))
    if r.toInt < 0 then .error (.panic "page fault handler failed by: " k)
    else do
      let (r, k) ← ofCall (sysPageUnmap k cur 0 PFTEMP)
      if r.toInt < 0 then .error (.panic "page fault handler failed by: " k) else return k

theorem SpaceInv.pgfault_checked {err : Word} (h : SpaceInv managed tables k.phys k.dirs free ∅)
    (hd : k.dirs cur ≠ none) (hva : va < UTOP)
    (hw : vm k.phys k.dirs (mapIdx cur va) &&& (PTE_P ||| PTE_U) = PTE_P ||| PTE_U)
    (hcow : vm k.phys k.dirs (mapIdx cur va) &&& PTE_COW ≠ 0) (herr : FEC_WR &&& err ≠ 0) :
    pgfault k cur va err = copyCalls k cur va := by
  obtain ⟨d, hdir⟩ := Option.ne_none_iff_exists'.1 hd
  have hpde := h.pde_PU hw
  have hread := h.readVpt hdir hva hpde
  have hreadD := h.readVpd hdir (PDX va)
  rw [← pdes_of_dir hdir (PDX_user hva)] at hreadD
  have hpw : PTE_P &&& vm k.phys k.dirs (mapIdx cur va) ≠ 0 := by
    rw [BitVec.and_comm]
    exact present_of_and_PU hw
  unfold pgfault
  simp only [hread, hreadD, ok_bind]
  rw [if_neg (not_not.2 hpde.symm), if_neg (not_not.2 ⟨hpw, herr, hcow⟩)]
  rfl

/-- `sys_page_map` puts the page that is mapped at `PFTEMP` in the place of the one at `va`. -/
theorem SpaceInv.replacePage (h : SpaceInv managed tables k.phys k.dirs free ∅)
    (hd : k.dirs cur ≠ none) (hva : va < UTOP) (hp : p < 2 ^ 20) (htemp :
      vm k.phys k.dirs (mapIdx cur PFTEMP) = page2pa p ||| (PTE_P ||| PTE_U ||| PTE_W) ||| PTE_P)
    (hw : vm k.phys k.dirs (mapIdx cur va) &&& (PTE_P ||| PTE_U) = PTE_P ||| PTE_U)
    (hlt : kernRefs tables (PGNUM (vm k.phys k.dirs (mapIdx cur va))) +
      refs (target k.phys k.dirs) (PGNUM (vm k.phys k.dirs (mapIdx cur va))) ≤ 2 ^ 16) :
    ∃ σ' free', Jos.sysPageMap k cur 0 PFTEMP 0 (PTE_ADDR va) (PTE_P ||| PTE_U ||| PTE_W) =
        .ok (0, { k with phys := σ' }) ∧
      Inserted managed (kernRefs tables) k.phys σ' k.dirs free free' ∅ cur p (PTE_ADDR va)
        (PTE_P ||| PTE_U ||| PTE_W) ∧
      SpaceInv managed tables σ' k.dirs free' ∅ ∧
      PageStep k.phys σ' k.dirs (mapIdx cur va)
        (page2pa p ||| (PTE_P ||| PTE_U ||| PTE_W) ||| PTE_P) := by
  have hsrc : target k.phys k.dirs (.pte cur (PDX PFTEMP) (PTX PFTEMP)) = some p := by
    change named (vm k.phys k.dirs (mapIdx cur PFTEMP)) = some p
    rw [htemp, named_of_present (present_of_and (and_PUW p) (by decide)), PGNUM_PUW hp]
  have hold :
      ∀ q, target k.phys k.dirs (.pte cur (PDX (PTE_ADDR va)) (PTX (PTE_ADDR va))) = some q →
      q = PGNUM (vm k.phys k.dirs (mapIdx cur va)) := by
    intro q hq
    change named (vm k.phys k.dirs (mapIdx cur (PTE_ADDR va))) = some q at hq
    rw [mapIdx_PTE_ADDR] at hq
    exact (named_eq_some hq).2.symm
  have hpt : target k.phys k.dirs (.pde cur (PDX (PTE_ADDR va))) ≠ none := by
    intro hc
    have hz := vm_of_absent hc (PTX (PTE_ADDR va))
    change vm k.phys k.dirs (mapIdx cur (PTE_ADDR va)) = 0 at hz
    rw [mapIdx_PTE_ADDR] at hz
    rw [hz] at hw
    exact absurd hw (by decide)
  rcases h.sysPageMap (envid2env_zero k cur true) (envid2env_zero k cur false) hd hd
    (by decide : AddrOk PFTEMP)
      (addrOk_PTE_ADDR hva) hsrc (by decide : PTE_ADDR (PTE_P ||| PTE_U ||| PTE_W) = 0) (fun _ => by
        rw [htemp, and_eq_of_and_or_right (and_PUW p)]
        decide) (fun q hq _ => hold q hq ▸ hlt) with ⟨-, hc, -⟩ | ⟨σ', free', hmap, hI, h'⟩
  · exact (hpt hc).elim
  · have hs := h.mem_of_inserted hI
    rw [mapIdx_PTE_ADDR] at hs
    exact ⟨σ', free', hmap, hI, h', hs⟩

/-- **`pgfault`** resolves a write to a copy-on-write page, if there is memory for the copy. Other
environments keep their page tables. -/
theorem pgfault_spec {err : Word} (h : SpaceInv managed tables k.phys k.dirs free ∅)
    (hd : k.dirs cur ≠ none) (hva : va < UTOP) (hne : mapIdx cur va ≠ mapIdx cur PFTEMP)
    (hw : vm k.phys k.dirs (mapIdx cur va) &&& (PTE_P ||| PTE_U) = PTE_P ||| PTE_U)
    (hcow : vm k.phys k.dirs (mapIdx cur va) &&& PTE_COW ≠ 0) (herr : FEC_WR &&& err ≠ 0)
    (hlt : ∀ x, x = mapIdx cur va ∨ x = mapIdx cur PFTEMP → ∀ q,
      named (vm k.phys k.dirs x) = some q →
      kernRefs tables q + refs (target k.phys k.dirs) q ≤ 2 ^ 16) :
    (free.length < 1 + tableNeed k cur PFTEMP ∧ ∃ stop, pgfault k cur va err = .error stop) ∨
      1 + tableNeed k cur PFTEMP ≤ free.length ∧
        ∃ σ' free' p, pgfault k cur va err = .ok { k with phys := σ' } ∧
          SpaceInv managed tables σ' k.dirs free' ∅ ∧ Resolved k free σ' cur va p ∧
          ∀ e i, e ≠ cur → target σ' k.dirs (.pde e i) = target k.phys k.dirs (.pde e i) := by
  set w := vm k.phys k.dirs (mapIdx cur va) with hwdef
  have huse : InUse k.phys k.dirs (PGNUM w) := ⟨cur, _, _, target_of_PU hw⟩
  rw [h.pgfault_checked hd hva hw hcow herr, copyCalls]
  rcases h.sysPageAlloc (envid2env_zero k cur true) hd (by decide : PFTEMP < UTOP)
    (by decide : (PTE_P ||| PTE_U ||| PTE_W) &&& ~~~PTE_SYSCALL = 0)
    (fun q hq => hlt _ (.inr rfl) q hq) with
    ⟨hshort, σ₁, hal, -, -, -⟩ | ⟨hroom, p, rest, σ₀, σ₁, free₁, rfl, hal, htgt₀, hpd₀, -,
      hI₁, h₁, hs₁⟩
  · refine .inl ⟨hshort, ?_⟩
    simp only [hal, ofCall, mapError_ok, ok_bind]
    exact ⟨_, if_pos (by decide)⟩
  refine .inr ⟨hroom, ?_⟩
  set x := page2pa p ||| (PTE_P ||| PTE_U ||| PTE_W) ||| PTE_P with hxdef
  obtain ⟨hpm, hzero, -⟩ := (h.pinv.valid.mem_free p).1 List.mem_cons_self
  change kernRefs tables p + refs (target k.phys k.dirs) p = 0 at hzero
  have hp20 : p < 2 ^ 20 := h.pinv.lt_two_pow hpm
  -- `sys_page_alloc` has mapped a new page at `PFTEMP`
  have hw₁ : vm σ₁ k.dirs (mapIdx cur va) = w := by rw [hs₁.vm, Function.update_of_ne hne]
  have hx₁ : vm σ₁ k.dirs (mapIdx cur PFTEMP) = x := by rw [hs₁.vm, Function.update_self]
  -- `memmove` has filled it
  obtain ⟨σ₂, hmv, h₂, hv₂, ht₂, hm₂⟩ := SpaceInv.memmovePage (k := { k with phys := σ₁ }) h₁ hd
    (addrOk_PTE_ADDR hva).1 (by decide : PFTEMP < UTOP) (mapIdx_PTE_ADDR cur va ▸ hw₁.symm ▸ hw)
    (hx₁.symm ▸ and_PUW p)
  change vm σ₂ k.dirs = vm σ₁ k.dirs at hv₂
  change target σ₂ k.dirs = target σ₁ k.dirs at ht₂
  change σ₂.mem = Function.update σ₁.mem (PGNUM (vm σ₁ k.dirs (mapIdx cur PFTEMP)))
    (σ₁.mem (PGNUM (vm σ₁ k.dirs (mapIdx cur (PTE_ADDR va))))) at hm₂
  rw [hx₁, PGNUM_PUW hp20, mapIdx_PTE_ADDR, hw₁] at hm₂
  -- `sys_page_map` replaces the old page by it
  have hold : kernRefs tables (PGNUM w) + refs (target σ₂ k.dirs) (PGNUM w) ≤ 2 ^ 16 := by
    have hle := hI₁.refs_le (fun hc => (h.inUse huse).2.1 (hc ▸ List.mem_cons_self))
      fun hc => (h.inUse huse).2.1 (List.mem_cons_of_mem p hc)
    rw [htgt₀, ← ht₂] at hle
    have hbound : kernRefs tables (PGNUM w) + refs (target k.phys k.dirs) (PGNUM w) ≤ 2 ^ 16 :=
      hlt _ (.inl rfl) _ (named_of_present (present_of_and_PU hw))
    omega
  have hw₂ : vm σ₂ k.dirs (mapIdx cur va) = w := (congrFun hv₂ _).trans hw₁
  have hx₂ : vm σ₂ k.dirs (mapIdx cur PFTEMP) = x := (congrFun hv₂ _).trans hx₁
  obtain ⟨σ₃, free₃, hmap, hI₃, h₃, hs₃⟩ :=
    SpaceInv.replacePage (k := { k with phys := σ₂ }) h₂ hd hva hp20
    hx₂ (hw₂.symm ▸ hw) (hw₂.symm ▸ hold)
  -- `sys_page_unmap` drops the mapping at `PFTEMP`
  have hp₃ : ∀ q, named (vm σ₃ k.dirs (mapIdx cur PFTEMP)) = some q →
      kernRefs tables q + refs (target σ₃ k.dirs) q ≤ 2 ^ 16 := by
    intro q hq
    have hkeep : vm σ₃ k.dirs (mapIdx cur PFTEMP) = x :=
      ((congrFun hs₃.vm _).trans (Function.update_of_ne hne.symm _ _)).trans hx₂
    rw [hkeep] at hq
    obtain rfl : p = q := by
      rw [← PGNUM_PUW hp20]
      exact (named_eq_some hq).2
    have hle₁ := hI₁.refs_le_add p
    have hle₃ := hI₃.refs_le_add p
    rw [htgt₀] at hle₁
    change refs (target σ₃ k.dirs) p ≤ refs (target σ₂ k.dirs) p + 2 at hle₃
    rw [ht₂] at hle₃
    omega
  obtain ⟨σ₄, free₄, hun, h₄, hs₄, hpd₄⟩ := SpaceInv.sysPageUnmap (k := { k with phys := σ₃ }) h₃
    (envid2env_zero _ cur true) hd (by decide : AddrOk PFTEMP) hp₃
  have hR : Resolved k (p :: rest) σ₄ cur va p :=
    resolved_of_steps h List.mem_cons_self hne huse hs₁ hv₂ hm₂ hs₃ hs₄
  refine ⟨σ₄, free₄, p, ?_, h₄, hR, fun e' i he' => ?_⟩
  · simp only [hal, hmv, hmap, hun, ofCall, mapError_ok, ok_bind]
    rfl
  · calc target σ₄ k.dirs (.pde e' i) = target σ₃ k.dirs (.pde e' i) :=
      congrArg named (congrFun hpd₄ (e', i))
      _ = target σ₂ k.dirs (.pde e' i) := hI₃.pde_other he' i
      _ = target σ₁ k.dirs (.pde e' i) := by rw [ht₂]
      _ = target k.phys k.dirs (.pde e' i) := by rw [hI₁.pde_other he' i, htgt₀]

end Jos
