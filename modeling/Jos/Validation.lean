import Jos.Cpus
import Jos.SysMem

/-!
# What the calls check

The contract of `sys_page_alloc`, `sys_page_map` and `sys_env_set_status`, as their comments give
it, beside what the calls test. The contract is a predicate on the arguments (`BadAlloc`, `BadMap`,
`BadStatus`); the spec lemma of each call says exactly when it returns `-E_INVAL`, in any state.

The two differ. `sys_page_alloc` does not look at the alignment of `va`, nor for `PTE_U` and
`PTE_P`. `sys_page_map` does not look at `perm` at all, apart from `PTE_W`. `sys_env_set_status`
tests the status the environment has and not the one it is to get.
-/

namespace Jos

open Lib

/-- The permissions a call may be given. -/
def PermOk (perm : Word) : Prop :=
  perm &&& (PTE_U ||| PTE_P) = PTE_U ||| PTE_P ∧ perm &&& ~~~PTE_SYSCALL = 0

instance (perm : Word) : Decidable (PermOk perm) := by unfold PermOk; infer_instance

/-- An address the calls may be given. -/
def AddrOk (va : Word) : Prop := va < UTOP ∧ PGOFF va = 0

instance (va : Word) : Decidable (AddrOk va) := by unfold AddrOk; infer_instance

/-- The call returns `-E_INVAL`. -/
def Inval (x : Except String (Word × Kernel)) : Prop := ∃ k, x = .ok (-E_INVAL, k)

/-! ## The contract -/

/-- `sys_page_alloc` should return `-E_INVAL`. -/
def BadAlloc (va perm : Word) : Prop := ¬ AddrOk va ∨ ¬ PermOk perm

/-- Nothing is mapped at `va`. -/
def Unmapped (k : Kernel) (e : EnvIdx) (va : Word) : Prop :=
  ∃ d, k.dirs e = some d ∧ pageLookup k.phys d va = .ok none

/-- `perm` asks for write access to a page that is mapped read-only at `va`. -/
def GrantsWrite (k : Kernel) (e : EnvIdx) (va perm : Word) : Prop :=
  perm &&& PTE_W ≠ 0 ∧ ∃ d p pte, k.dirs e = some d ∧
    pageLookup k.phys d va = .ok (some (p, pte)) ∧ k.phys.load pte &&& PTE_W = 0

/-- `sys_page_map` should return `-E_INVAL`. -/
def BadMap (k : Kernel) (src : EnvIdx) (srcva dstva perm : Word) : Prop :=
  ¬ AddrOk srcva ∨ ¬ AddrOk dstva ∨ Unmapped k src srcva ∨ ¬ PermOk perm ∨
    GrantsWrite k src srcva perm

/-- `sys_env_set_status` should return `-E_INVAL`. -/
def BadStatus (status : Word) : Prop := status ≠ ENV_RUNNABLE ∧ status ≠ ENV_NOT_RUNNABLE

instance (status : Word) : Decidable (BadStatus status) := by unfold BadStatus; infer_instance

/-! ## What the calls do -/

variable {k k' : Kernel} {cur e src dst : EnvIdx}

theorem not_inval_error (msg : String) : ¬ Inval (.error msg) := nofun

/-- **`sys_page_alloc`** refuses high addresses and foreign bits. -/
theorem sysPageAlloc_inval {envid va perm : Word} (hf : envid2env k cur envid true = some e) :
    Inval (sysPageAlloc k cur envid va perm) ↔ UTOP ≤ va ∨ perm &&& ~~~PTE_SYSCALL ≠ 0 := by
  unfold sysPageAlloc
  simp only [hf]
  split_ifs with hbad
  · exact ⟨fun _ => hbad, fun _ => ⟨k, rfl⟩⟩
  · refine ⟨fun h => ?_, fun h => (hbad h).elim⟩
    exfalso
    -- what is left returns zero or `-E_NO_MEM`
    obtain ⟨k', h⟩ := h
    split at h
    · cases h
    · obtain ⟨d, -, h⟩ := bind_eq_ok.1 h
      obtain ⟨⟨r, σ⟩, -, h⟩ := bind_eq_ok.1 h
      simp only at h
      split_ifs at h <;> cases h

theorem checkAddrScale_eq_false {va : Word} : checkAddrScale va 0 UTOP = false ↔ ¬ AddrOk va := by
  have hzero : 0#32 ≤ va := Nat.zero_le va.toNat
  unfold checkAddrScale AddrOk
  simp only [Bool.and_eq_false_iff, decide_eq_false_iff_not, beq_eq_false_iff_ne]
  tauto

theorem sysPageMap_of_source {srcenvid srcva dstenvid dstva perm : Word} {d du p : Nat}
    {pte : PtePtr} (hs : envid2env k cur srcenvid true = some src)
    (hf : envid2env k cur dstenvid false = some dst) (hd : k.dirs src = some d)
    (hdu : k.dirs dst = some du) (hsrc : AddrOk srcva) (hdst : AddrOk dstva)
    (hl : pageLookup k.phys d srcva = .ok (some (p, pte)))
    (hw : ¬ (k.phys.load pte &&& PTE_W = 0 ∧ perm &&& PTE_W ≠ 0)) :
    sysPageMap k cur srcenvid srcva dstenvid dstva perm =
      (pageInsert k.phys du (some p) dstva perm).map fun y => (y.1, { k with phys := y.2 }) := by
  have haddr : ¬ (checkAddrScale srcva 0 UTOP = false ∨ checkAddrScale dstva 0 UTOP = false ∨
      PGOFF srcva ≠ 0 ∨ PGOFF dstva ≠ 0) := by
    rw [checkAddrScale_eq_false, checkAddrScale_eq_false]
    simp [hsrc, hdst, hsrc.2, hdst.2]
  unfold sysPageMap
  simp only [hs, hf, if_neg haddr, pgdir_of_dirs hd, pgdir_of_dirs hdu, ok_bind, hl, if_neg hw]
  cases pageInsert k.phys du (some p) dstva perm <;> rfl

theorem not_inval_pageInsert {σ : Phys} {d p : Nat} {va perm r : Word} {σ' : Phys}
    (h : pageInsert σ d (some p) va perm = .ok (r, σ')) : r ≠ -E_INVAL := by
  unfold pageInsert at h
  obtain ⟨⟨ptep, σ₁⟩, -, h⟩ := bind_eq_ok.1 h
  cases ptep with
  | none =>
    cases h
    decide
  | some ptep =>
    obtain ⟨σ₂, -, h⟩ := bind_eq_ok.1 h
    cases h
    decide

/-- **`sys_page_map`** refuses bad addresses, a missing page, and write access to a page that is
read-only. -/
theorem sysPageMap_inval {srcenvid srcva dstenvid dstva perm : Word}
    (hs : envid2env k cur srcenvid true = some src)
    (hd : envid2env k cur dstenvid false = some dst) :
    Inval (sysPageMap k cur srcenvid srcva dstenvid dstva perm) ↔
      ¬ AddrOk srcva ∨ ¬ AddrOk dstva ∨ Unmapped k src srcva ∨ GrantsWrite k src srcva perm := by
  unfold sysPageMap
  simp only [hs, hd]
  split_ifs with haddr
  · refine ⟨fun _ => ?_, fun _ => ⟨k, rfl⟩⟩
    rcases haddr with h | h | h | h
    · exact .inl (checkAddrScale_eq_false.1 h)
    · exact .inr (.inl (checkAddrScale_eq_false.1 h))
    · exact .inl fun hok => h hok.2
    · exact .inr (.inl fun hok => h hok.2)
  have hsrc : AddrOk srcva := not_not.1 fun h => haddr (.inl (checkAddrScale_eq_false.2 h))
  have hdst : AddrOk dstva := not_not.1 fun h => haddr (.inr (.inl (checkAddrScale_eq_false.2 h)))
  simp only [hsrc, hdst, not_true, false_or]
  cases hdir : k.dirs src with
  | none =>
    have hpg : k.pgdir src = .error "=== Page fault at kernel ===" := by
      rw [Kernel.pgdir, show (k.envs src).envPgdir = none from hdir]
    rw [hpg]
    refine ⟨fun h => (not_inval_error _ h).elim, ?_⟩
    rintro (⟨d, hd', -⟩ | ⟨-, d, p, pte, hd', -⟩) <;> rw [hdir] at hd' <;> cases hd'
  | some d =>
    rw [pgdir_of_dirs hdir, ok_bind]
    cases hl : pageLookup k.phys d srcva with
    | error msg =>
      refine ⟨fun h => (not_inval_error _ h).elim, ?_⟩
      rintro (⟨d', hd', hl'⟩ | ⟨-, d', p, pte, hd', hl', -⟩) <;> rw [hdir] at hd' <;> cases hd' <;>
        rw [hl] at hl' <;> cases hl'
    | ok found =>
      rw [ok_bind]
      cases found with
      | none => exact ⟨fun _ => .inl ⟨d, hdir, hl⟩, fun _ => ⟨k, rfl⟩⟩
      | some x =>
        obtain ⟨p, pte⟩ := x
        have hmapped : ¬ Unmapped k src srcva := by
          rintro ⟨d', hd', hl'⟩
          rw [hdir, Option.some.injEq] at hd'
          subst hd'
          rw [hl] at hl'
          cases hl'
        have hgrant : GrantsWrite k src srcva perm ↔
            k.phys.load pte &&& PTE_W = 0 ∧ perm &&& PTE_W ≠ 0 := by
          constructor
          · rintro ⟨hw, d', p', pte', hd', hl', hro⟩
            rw [hdir, Option.some.injEq] at hd'
            subst hd'
            rw [hl] at hl'
            cases hl'
            exact ⟨hro, hw⟩
          · rintro ⟨hro, hw⟩
            exact ⟨hw, d, p, pte, hdir, hl, hro⟩
        simp only [hmapped, false_or, hgrant]
        split_ifs with hw
        · exact ⟨fun _ => hw, fun _ => ⟨k, rfl⟩⟩
        · refine ⟨fun h => ?_, fun h => (hw h).elim⟩
          obtain ⟨k', h⟩ := h
          obtain ⟨d', -, h⟩ := bind_eq_ok.1 h
          obtain ⟨⟨r, σ⟩, hins, h⟩ := bind_eq_ok.1 h
          obtain ⟨hr, -⟩ := Prod.mk.inj (Except.ok.inj h)
          exact (not_inval_pageInsert hins hr).elim

/-- **`sys_env_set_status`** refuses to change an environment that is neither runnable nor not
runnable, and stores any value into the others. -/
theorem sysEnvSetStatus_eq {envid status : Word} (hf : envid2env k cur envid true = some e) :
    sysEnvSetStatus k cur envid status =
      if BadStatus (k.envs e).envStatus then (-E_INVAL, k) else (0, k.setStatus e status) := by
  unfold sysEnvSetStatus BadStatus
  rw [hf]
  simp only [ne_comm]

theorem envid2env_mono {envid : Word} (h : envid2env k cur envid true = some e) :
    envid2env k cur envid false = some e := by
  unfold envid2env at h ⊢
  simp only at h ⊢
  split_ifs at h with h₁ h₂ h₃ h₄
  · rw [if_neg h₁, if_pos h₂]
    exact h
  · rw [if_neg h₁, if_neg h₂, if_neg h₃, if_neg fun hc => Bool.noConfusion hc.1]
    exact h

/-! ## Where they agree -/

/-- `sys_env_set_status` keeps its contract. -/
def StatusChecked (k : Kernel) (cur e : EnvIdx) (envid status : Word) : Prop :=
  (BadStatus status → (sysEnvSetStatus k cur envid status).1 = -E_INVAL) ∧
    (((sysEnvSetStatus k cur envid status).2.envs e).envStatus = (k.envs e).envStatus ∨
      ¬ BadStatus ((sysEnvSetStatus k cur envid status).2.envs e).envStatus)

theorem statusChecked_iff {envid status : Word} (hf : envid2env k cur envid true = some e) :
    StatusChecked k cur e envid status ↔ ¬ BadStatus status ∨ BadStatus (k.envs e).envStatus := by
  unfold StatusChecked
  rw [sysEnvSetStatus_eq hf]
  split_ifs with hcur
  · exact ⟨fun _ => .inr hcur, fun _ => ⟨fun _ => rfl, .inl rfl⟩⟩
  · have hst : ((k.setStatus e status).envs e).envStatus = status := by
      rw [setStatus_envs, Function.update_self]
    rw [hst]
    constructor
    · rintro ⟨hret, -⟩
      refine .inl fun hbad => ?_
      have hne : (0 : Word) ≠ -E_INVAL := by decide
      exact hne (hret hbad)
    · rintro (hok | hbad)
      · exact ⟨fun hbad => (hok hbad).elim, .inr hok⟩
      · exact (hcur hbad).elim

theorem alloc_checked_iff {envid va perm : Word} (hf : envid2env k cur envid true = some e) :
    (Inval (sysPageAlloc k cur envid va perm) ↔ BadAlloc va perm) ↔
      UTOP ≤ va ∨ perm &&& ~~~PTE_SYSCALL ≠ 0 ∨
        PGOFF va = 0 ∧ perm &&& (PTE_U ||| PTE_P) = PTE_U ||| PTE_P := by
  rw [sysPageAlloc_inval hf]
  unfold BadAlloc AddrOk PermOk
  rw [← BitVec.not_lt]
  tauto

theorem map_checked_iff {srcenvid srcva dstenvid dstva perm : Word}
    (hs : envid2env k cur srcenvid true = some src)
    (hd : envid2env k cur dstenvid true = some dst) :
    (Inval (sysPageMap k cur srcenvid srcva dstenvid dstva perm) ↔
        BadMap k src srcva dstva perm) ↔
      PermOk perm ∨ ¬ AddrOk srcva ∨ ¬ AddrOk dstva ∨ Unmapped k src srcva ∨
        GrantsWrite k src srcva perm := by
  rw [sysPageMap_inval hs (envid2env_mono hd)]
  unfold BadMap
  tauto

/-- **The calls keep their contract exactly when** the arguments they do not test are right, or one
of their tests fails anyway. -/
theorem validation_iff (k : Kernel) (cur : EnvIdx) :
    (∀ e envid va perm, envid2env k cur envid true = some e →
      ((Inval (sysPageAlloc k cur envid va perm) ↔ BadAlloc va perm) ↔
        UTOP ≤ va ∨ perm &&& ~~~PTE_SYSCALL ≠ 0 ∨
          PGOFF va = 0 ∧ perm &&& (PTE_U ||| PTE_P) = PTE_U ||| PTE_P)) ∧
    (∀ src dst srcenvid srcva dstenvid dstva perm,
      envid2env k cur srcenvid true = some src → envid2env k cur dstenvid true = some dst →
      ((Inval (sysPageMap k cur srcenvid srcva dstenvid dstva perm) ↔
          BadMap k src srcva dstva perm) ↔
        PermOk perm ∨ ¬ AddrOk srcva ∨ ¬ AddrOk dstva ∨ Unmapped k src srcva ∨
          GrantsWrite k src srcva perm)) ∧
    ∀ e envid status, envid2env k cur envid true = some e →
      (StatusChecked k cur e envid status ↔
        ¬ BadStatus status ∨ BadStatus (k.envs e).envStatus) :=
  ⟨fun _ _ _ _ hf => alloc_checked_iff hf, fun _ _ _ _ _ _ _ hs hd => map_checked_iff hs hd,
    fun _ _ _ hf => statusChecked_iff hf⟩

/-- The program of the boot machine, with good arguments. -/
theorem validation_program :
    (Inval (sysPageAlloc bootKernel 8 0 0x900000#32 (PTE_U ||| PTE_P)) ↔
      BadAlloc 0x900000#32 (PTE_U ||| PTE_P)) ∧
    (Inval (sysPageMap bootKernel 8 0 0x800000#32 0 0x900000#32 (PTE_U ||| PTE_P)) ↔
      BadMap bootKernel 8 0x800000#32 0x900000#32 (PTE_U ||| PTE_P)) ∧
    StatusChecked bootKernel 8 8 0 ENV_NOT_RUNNABLE := by
  have hf : envid2env bootKernel 8 0 true = some 8 := by decide
  obtain ⟨halloc, hmap, hstatus⟩ := validation_iff bootKernel 8
  exact ⟨(halloc _ _ _ _ hf).2 (by decide), (hmap _ _ _ _ _ _ _ hf hf).2 (.inl (by decide)),
    (hstatus _ _ _ hf).2 (.inl (by decide))⟩

/-- An unaligned address, permissions with a bit of the address, and the status `ENV_FREE` are
all accepted. -/
theorem validation_misses :
    ¬ (Inval (sysPageAlloc bootKernel 8 0 0x900001#32 (PTE_U ||| PTE_P)) ↔
      BadAlloc 0x900001#32 (PTE_U ||| PTE_P)) ∧
    ¬ (Inval (sysPageMap bootKernel 8 0 0x800000#32 0 0x900000#32 0x1005#32) ↔
      BadMap bootKernel 8 0x800000#32 0x900000#32 0x1005#32) ∧
    ¬ StatusChecked bootKernel 8 8 0 ENV_FREE := by
  have hf : envid2env bootKernel 8 0 true = some 8 := by decide
  have hdir : bootKernel.dirs 8 = some 9 := by decide
  have hl : pageLookup bootKernel.phys 9 0x800000#32 = .ok (some (11, (10, 0))) := by rfl
  refine ⟨fun h => ?_, fun h => ?_, fun h => ?_⟩
  · exact absurd ((alloc_checked_iff hf).1 h) (by decide)
  · rcases (map_checked_iff hf hf).1 h with h | h | h | ⟨d, hd, hn⟩ | ⟨hw, -⟩
    · exact absurd h (by decide)
    · exact h (by decide)
    · exact h (by decide)
    · rw [hdir, Option.some.injEq] at hd
      subst hd
      rw [hl] at hn
      cases hn
    · exact hw (by decide)
  · rcases (statusChecked_iff hf).1 h with h | h
    · exact h (by decide)
    · exact absurd h (by decide)

end Jos
