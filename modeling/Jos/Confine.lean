import Jos.Smp

/-!
# What a system call does to other environments

A system call of `cur` may change `cur` and its immediate children. Everyone else is a third party
(`ThirdParty`): its mappings, status, trap frame and upcall should stay as they are (`Spared`),
unless the scheduler picks it (`Picked`) or it receives a message it was waiting for (`Received`).

All lookups that lead to a change check the permission of the caller except two: the receiver of
`sys_ipc_try_send`, which is meant, and the destination of `sys_page_map`, which is not. The second
also leaves its `perm` argument unchecked, and address bits in it would redirect the walk to any
page table. `MapGuarded` says when neither matters, and **`confined_iff_guarded`** that this is what
confinement takes.
-/

namespace Jos

open Lib

/-! ## Definitions -/

/-- Neither the caller nor one of its children. -/
def ThirdParty (k : Kernel) (cur e : EnvIdx) : Prop :=
  e ≠ cur ∧ (k.envs e).envParentId ≠ (k.envs cur).envId

instance (k : Kernel) (cur e : EnvIdx) : Decidable (ThirdParty k cur e) := by
  unfold ThirdParty; infer_instance

/-- Nothing happens to `e`. -/
structure Spared (k k' : Kernel) (e : EnvIdx) : Prop where
  vm : ∀ i j, vm k'.phys k'.dirs (e, i, j) = vm k.phys k.dirs (e, i, j)
  status : (k'.envs e).envStatus = (k.envs e).envStatus
  tf : (k'.envs e).envTf = (k.envs e).envTf
  upcall : (k'.envs e).envPgfaultUpcall = (k.envs e).envPgfaultUpcall

/-- The scheduler picks `e`. -/
structure Picked (k k' : Kernel) (e : EnvIdx) : Prop where
  vm : ∀ i j, vm k'.phys k'.dirs (e, i, j) = vm k.phys k.dirs (e, i, j)
  was : (k.envs e).envStatus = ENV_RUNNABLE
  status : (k'.envs e).envStatus = ENV_RUNNING
  tf : (k'.envs e).envTf = (k.envs e).envTf
  upcall : (k'.envs e).envPgfaultUpcall = (k.envs e).envPgfaultUpcall

/-- `e` gets the message it waits for. -/
structure Received (k k' : Kernel) (e : EnvIdx) : Prop where
  recving : (k.envs e).envIpcRecving = true
  vm : ∀ i j, (e, i, j) ≠ mapIdx e (k.envs e).envIpcDstva →
    vm k'.phys k'.dirs (e, i, j) = vm k.phys k.dirs (e, i, j)
  status : (k'.envs e).envStatus = ENV_RUNNABLE
  tf : (k'.envs e).envTf = (k.envs e).envTf.setEax 0
  upcall : (k'.envs e).envPgfaultUpcall = (k.envs e).envPgfaultUpcall

/-- The state a system call leads to, and the environment that runs if the call does not return. -/
def callState (c : Cpu) : Except Exit (Word × Kernel) → Option (Kernel × Option EnvIdx)
  | .ok (_, k) => some (k, none)
  | .error (.run k e) => some (envRun k c e, some e)
  | .error (.monitor k) => some (k, none)
  | .error (.panic _) => none

/-- The call `x` of `cur` does nothing to third parties that it should not. -/
def Confined (k : Kernel) (c : Cpu) (cur : EnvIdx) (input : Word) (x : Call) : Prop :=
  ∀ k' picked, callState c (x.run k c cur input) = some (k', picked) →
    ∀ e, k.dirs e ≠ none → ThirdParty k cur e →
      Spared k k' e ∨ picked = some e ∧ Picked k k' e ∨
        (x.no = SYS_ipc_try_send ∧ x.run k c cur input = .ok (0, k') ∧
          envid2env k cur x.a1 false = some e) ∧ Received k k' e

/-- If the call is a `sys_page_map` that gets as far as `page_insert`, then its flags are flags, and
its destination is not a third party, or has no page table and cannot get one, or has the entry
already. -/
def MapGuarded (k : Kernel) (cur : EnvIdx) (x : Call) : Prop :=
  x.no = SYS_page_map → ∀ y, mapTarget k cur x.a1 x.a2 x.a3 x.a4 x.a5 = some y →
    PTE_ADDR x.a5 = 0 ∧
      (¬ ThirdParty k cur y.1 ∨
        ¬ Present (pdes k.phys k.dirs (y.1, PDX x.a4)) ∧ k.phys.pageFreeList = none ∨
        vm k.phys k.dirs (mapIdx y.1 x.a4) = page2pa y.2 ||| x.a5 ||| PTE_P)

variable {managed tables : Set Nat} {c : Cpu} {cur e e' : EnvIdx} {k k₁ k' : Kernel} {x : Call}
  {r input perm : Word} {p d : Nat}

/-! ## Steps that spare an environment -/

theorem Spared.refl (k : Kernel) (e : EnvIdx) : Spared k k e := ⟨fun _ _ => rfl, rfl, rfl, rfl⟩

theorem Spared.of_env (henv : k'.envs e = k.envs e)
    (hvm : ∀ i j, Jos.vm k'.phys k'.dirs (e, i, j) = Jos.vm k.phys k.dirs (e, i, j)) :
    Spared k k' e := by
  refine ⟨hvm, ?_, ?_, ?_⟩
  · rw [henv]
  · rw [henv]
  · rw [henv]

theorem Spared.trans (h : Spared k k₁ e) (h' : Spared k₁ k' e) : Spared k k' e :=
  ⟨fun i j => (h'.vm i j).trans (h.vm i j), h'.status.trans h.status, h'.tf.trans h.tf,
    h'.upcall.trans h.upcall⟩

theorem Spared.setEnv (hne : e ≠ e') {f : Env → Env}
    (hdir : (f (k.envs e')).envPgdir = (k.envs e').envPgdir) : Spared k (k.setEnv e' f) e := by
  have hdirs : (k.setEnv e' f).dirs = k.dirs := by
    rw [dirs_setEnv, hdir]
    exact Function.update_eq_self _ _
  refine .of_env (Function.update_of_ne hne _ _) fun i j => ?_
  rw [hdirs]
  rfl

theorem ThirdParty.ne_found (h : ThirdParty k cur e) {envid : Word}
    (hf : envid2env k cur envid true = some e') : e ≠ e' := by
  rintro rfl
  rcases envid2env_some hf with heq | ⟨-, hparent⟩
  · exact h.1 heq
  · exact h.2 (hparent rfl)

theorem ThirdParty.ne_cur (h : ThirdParty k cur e) : e ≠ cur := h.1

theorem MemStep.spared {xs : MapIdx → Prop} (h : MemStep managed tables xs k k')
    (hk : k' = { k with phys := k'.phys }) (hne : ∀ i j, ¬ xs (e, i, j)) : Spared k k' e := by
  refine .of_env ?_ fun i j => h.vm _ (hne i j)
  rw [hk]

/-! ## `sys_page_map` -/

/-- With flags only, `page_insert` writes the one entry or finds no memory for a page table. -/
theorem KMem.insertTarget (h : KMem managed tables k) {srcenvid srcva dstenvid dstva : Word}
    (ht : mapTarget k cur srcenvid srcva dstenvid dstva perm = some (e, p)) (hd : k.dirs e = some d)
    (hperm : PTE_ADDR perm = 0) :
    (¬ Present (pdes k.phys k.dirs (e, PDX dstva)) ∧ k.phys.pageFreeList = none) ∧
        pageInsert k.phys d (some p) dstva perm = .ok (-E_NO_MEM, k.phys) ∨
      ¬ (¬ Present (pdes k.phys k.dirs (e, PDX dstva)) ∧ k.phys.pageFreeList = none) ∧
        ∃ σ', pageInsert k.phys d (some p) dstva perm = .ok (0, σ') ∧
          vm σ' k.dirs = Function.update (vm k.phys k.dirs) (mapIdx e dstva)
            (page2pa p ||| perm ||| PTE_P) := by
  obtain ⟨free, hm⟩ := h
  obtain ⟨srcE, d₀, pte, -, -, hsva, hdva, hd₀, hl, -⟩ := mapTarget_some ht
  obtain ⟨htgt, -⟩ := hm.lookup_eq hd₀ hsva hl
  have hfree : p ∉ free := hm.pinv.not_mem_free htgt
  have hmem : p ∈ managed :=
    hm.pinv.valid.tgt_mem (.pte srcE (PDX srcva) (PTX srcva)) p htgt
  have hi := PDX_user hdva
  rcases hm.pinv.insert hd hi hmem hfree hperm fun q _ _ => (hm.noWrap q).le with
    ⟨rfl, hpde, hins⟩ | ⟨σ', free', hins, hI⟩
  · exact .inl ⟨⟨named_eq_none.1 hpde, hm.pinv.head_eq_none⟩, hins⟩
  · refine .inr ⟨?_, σ', hins, hI.vm⟩
    rintro ⟨habs, hnone⟩
    have hnil : free = [] := by
      have hchain := hm.pinv.chain
      rw [hnone] at hchain
      exact hchain.head_none
    subst hnil
    rw [pageInsert, hm.pinv.walk_no_mem hd hi (named_eq_none.2 habs)] at hins
    have hr : -E_NO_MEM = (0 : Word) := congrArg Prod.fst (Except.ok.inj hins)
    exact absurd hr (by decide)

theorem sysPageMap_of_target {srcenvid srcva dstenvid dstva : Word} {σ' : Phys}
    (ht : mapTarget k cur srcenvid srcva dstenvid dstva perm = some (e, p)) (hd : k.dirs e = some d)
    (hins : pageInsert k.phys d (some p) dstva perm = .ok (r, σ')) :
    sysPageMap k cur srcenvid srcva dstenvid dstva perm = .ok (r, { k with phys := σ' }) := by
  unfold mapTarget at ht
  split at ht
  · rename_i srcE dstE hsrc hdst
    split_ifs at ht with hbad
    split at ht
    · cases ht
    · rename_i d₀ hd₀
      split at ht
      · rename_i srcPage srcPte hl
        split_ifs at ht with hw
        cases ht
        have hp₀ : k.pgdir srcE = .ok d₀ := by
          unfold Kernel.pgdir
          rw [show (k.envs srcE).envPgdir = some d₀ from hd₀]
        have hp : k.pgdir e = .ok d := by
          unfold Kernel.pgdir
          rw [show (k.envs e).envPgdir = some d from hd]
        simp only [sysPageMap, hsrc, hdst, if_neg hbad, hp₀, hl, hp, hins, ok_bind, if_neg hw]
        rfl
      · cases ht
  · cases ht

/-- `sys_page_map` into the address space of `e'` does nothing to `e`. -/
theorem KMem.spared_map (h : KMem managed tables k) {srcenvid srcva dstenvid dstva : Word}
    (hx : Jos.sysPageMap k cur srcenvid srcva dstenvid dstva perm = .ok (r, k'))
    (hperm : ∀ y, mapTarget k cur srcenvid srcva dstenvid dstva perm = some y → PTE_ADDR perm = 0)
    (i j : Idx)
    (hother : ∀ y, mapTarget k cur srcenvid srcva dstenvid dstva perm = some y →
      (e, i, j) ≠ mapIdx y.1 dstva ∨
      (¬ Present (pdes k.phys k.dirs (y.1, PDX dstva)) ∧ k.phys.pageFreeList = none) ∨
      vm k.phys k.dirs (mapIdx y.1 dstva) = page2pa y.2 ||| perm ||| PTE_P) :
    vm k'.phys k'.dirs (e, i, j) = vm k.phys k.dirs (e, i, j) := by
  rcases sysPageMap_ok hx with ⟨-, rfl⟩ | ⟨dst, p, d, ht, hd, hins, hk⟩
  · rfl
  have hdirs : k'.dirs = k.dirs := by
    rw [hk]
    rfl
  rw [hdirs]
  rcases h.insertTarget ht hd (hperm _ ht) with ⟨-, hins'⟩ | ⟨hroom, σ', hins', hvm⟩
  · obtain ⟨-, hσ⟩ := Prod.mk.inj (Except.ok.inj (hins.symm.trans hins'))
    rw [hσ]
  · obtain ⟨-, rfl⟩ := Prod.mk.inj (Except.ok.inj (hins.symm.trans hins'))
    rw [hvm]
    rcases hother _ ht with hne | hno | hsame
    · exact Function.update_of_ne hne _ _
    · exact (hroom hno).elim
    · have hsame' : page2pa p ||| perm ||| PTE_P = vm k.phys k.dirs (mapIdx dst dstva) := hsame.symm
      rw [hsame', Function.update_eq_self]

/-! ## Calls that return -/

theorem KInv.spared_destroy (h : KInv managed tables k) (hne : e ≠ e')
    (hfree : Jos.envFree k c e' = .ok k') : Spared k k' e := by
  obtain ⟨-, -, -, -, -, -, hvm⟩ := h.envFree hfree
  refine .of_env ?_ fun i j => hvm (e, i, j) hne
  rw [(envs_envFree hfree).1, Function.update_of_ne hne]

theorem spared_exofork (h : KInv managed tables k) (hcur : k.dirs cur ≠ none)
    (he : k.dirs e ≠ none) (hx : sysExofork k cur = .ok (r, k')) : Spared k k' e := by
  have hslot : ∀ {child}, k.envFreeList = some child → k.dirs child = none := fun hc =>
    FreeSlots.head h.tab.free_list hc
  rcases sysExofork_ok (fun hc => hcur (hslot hc)) hx with rfl | ⟨child, p, hhead, hp, rfl⟩
  · exact .refl _ _
  · have hne : e ≠ child := by
      rintro rfl
      exact he (hslot hhead)
    have hvm : vm (allocated k child p (forkedEnv k cur child p)).phys
        (allocated k child p (forkedEnv k cur child p)).dirs = vm k.phys k.dirs :=
      (h.mem.allocated (hslot hhead) hp rfl).2.2.2
    exact .of_env (Function.update_of_ne hne _ _) fun i j => congrFun hvm (e, i, j)

/-- **`sys_ipc_try_send`** only reaches a receiver. -/
theorem KMem.send_cases (h : KMem managed tables k) {envid value srcva : Word}
    (hx : Jos.sysIpcTrySend k cur envid value srcva perm = .ok (r, k')) :
    Spared k k' e ∨ (r = 0 ∧ envid2env k cur envid false = some e) ∧ Received k k' e := by
  have hdirs := dirs_sysIpcTrySend hx
  -- The memory changes at one entry of the receiver, if at all.
  have hvm : ∀ i j, vm k'.phys k'.dirs (e, i, j) = vm k.phys k.dirs (e, i, j) ∨
      ∃ uenv, envid2env k cur envid false = some uenv ∧ (k.envs uenv).envIpcRecving = true ∧
        r = 0 ∧ (e, i, j) = mapIdx uenv (k.envs uenv).envIpcDstva := by
    intro i j
    rcases sysIpcTrySend_phys hx with
      ⟨hphys, -⟩ | ⟨uenv, d, r₁, σ, hf, hrec, -, hperm, rfl, hphys, -, -, hmap, -⟩
    · exact .inl (by rw [hphys, hdirs])
    by_cases heq : (e, i, j) = mapIdx uenv (k.envs uenv).envIpcDstva
    · exact .inr ⟨uenv, hf, hrec, rfl, heq⟩
    · have hd₀ := dirs_setIpcPerm k uenv 0
      have h₀ : KMem managed tables (setIpcPerm k uenv 0) := h.congr rfl hd₀
      have hframe := h₀.spared_map hmap (fun _ _ => PTE_ADDR_of_syscall hperm) i j (e := e) (by
        intro y hy
        obtain ⟨dst, q⟩ := y
        obtain ⟨-, -, -, -, hdst, -⟩ := mapTarget_some hy
        rw [envid2env_setIpcPerm, hf, Option.some.injEq] at hdst
        subst hdst
        exact .inl heq)
      left
      rw [hphys, hdirs, ← hd₀]
      exact hframe
  rcases sysIpcTrySend_ok hx with ⟨-, -, rfl⟩ | ⟨uenv, hf, hcase⟩
  · exact .inl (.refl _ _)
  rcases hcase with ⟨-, -, rfl⟩ | ⟨hrec, ⟨-, rfl⟩ | ⟨-, rfl⟩ | ⟨rfl, hk⟩⟩
  · exact .inl (.refl _ _)
  · exact .inl (.refl _ _)
  · refine .inl ⟨fun i j => by rw [hdirs]; rfl, ?_, ?_, ?_⟩ <;>
    · by_cases he : e = uenv
      · subst he
        simp [setIpcPerm, Kernel.setEnv]
      · simp [setIpcPerm, Kernel.setEnv, he]
  · have henvs : k'.envs = Function.update k.envs uenv
        (delivered k cur uenv value (sentPerm k uenv srcva perm)) := congrArg Kernel.envs hk
    by_cases he : e = uenv
    · subst he
      refine .inr ⟨⟨rfl, hf⟩, hrec, fun i j hne => ?_, ?_, ?_, ?_⟩
      · rcases hvm i j with hsame | ⟨uenv, hf', -, -, heq⟩
        · exact hsame
        · obtain rfl : e = uenv := Option.some.inj (hf.symm.trans hf')
          exact (hne heq).elim
      · rw [henvs, Function.update_self]
        rfl
      · rw [henvs, Function.update_self]
        rfl
      · rw [henvs, Function.update_self]
        rfl
    · refine .inl (.of_env ?_ fun i j => ?_)
      · rw [henvs, Function.update_of_ne he]
      · rcases hvm i j with hsame | ⟨uenv', hf', -, -, heq⟩
        · exact hsame
        · obtain rfl : uenv = uenv' := Option.some.inj (hf.symm.trans hf')
          exact (he (congrArg Prod.fst heq)).elim

theorem KInv.confined_return (h : KInv managed tables k) (hdir : k.dirs cur ≠ none)
    (hguard : MapGuarded k cur x) (hret : SysReturn c cur k x r k') (he : k.dirs e ≠ none)
    (h3 : ThirdParty k cur e) :
    Spared k k' e ∨ (x.no = SYS_ipc_try_send ∧ r = 0 ∧ envid2env k cur x.a1 false = some e) ∧
      Received k k' e := by
  cases hret with
  | same => exact .inl (.refl k e)
  | pageAlloc hno hx =>
    refine .inl ((h.mem.sysPageAlloc hx).spared (sysPageAlloc_phys hx) ?_)
    rintro i j ⟨e', hf, heq⟩
    exact h3.ne_found hf (congrArg Prod.fst heq)
  | pageMap hno hx =>
    refine .inl (.of_env ?_ fun i j => h.mem.spared_map hx (fun y hy => (hguard hno y hy).1) i j ?_)
    · rw [sysPageMap_phys hx]
    · intro y hy
      rcases (hguard hno y hy).2 with hnot | hother
      · refine .inl fun heq => hnot ?_
        rw [← show e = y.1 from congrArg Prod.fst heq]
        exact h3
      · exact .inr hother
  | pageUnmap hno hx =>
    refine .inl ((h.mem.sysPageUnmap hx).spared (sysPageUnmap_phys hx) ?_)
    rintro i j ⟨e', hf, heq⟩
    exact h3.ne_found hf (congrArg Prod.fst heq)
  | dying hno hf => exact .inl (.setEnv (h3.ne_found hf) rfl)
  | free hno hf _ _ hfree => exact .inl (h.spared_destroy (h3.ne_found hf) hfree)
  | exofork hno hx => exact .inl (spared_exofork h hdir he hx)
  | setStatus hno hf => exact .inl (.setEnv (h3.ne_found hf) rfl)
  | setUpcall hno hf => exact .inl (.setEnv (h3.ne_found hf) rfl)
  | send hno hx =>
    rcases h.mem.send_cases hx with hs | ⟨⟨hr, hf⟩, hrec⟩
    · exact .inl hs
    · exact .inr ⟨⟨hno, hr, hf⟩, hrec⟩

/-! ## Calls that do not return -/

theorem spared_schedStart (hne : k.cpuEnv c ≠ some e) : Spared k (schedStart k c).2 e := by
  rcases schedStart_snd k c with heq | ⟨cur, hcur, -, heq⟩
  · rw [heq]
    exact .refl k e
  · rw [heq]
    refine .setEnv ?_ rfl
    rintro rfl
    exact hne hcur

theorem cpuEnv_schedStart (k : Kernel) (c : Cpu) : (schedStart k c).2.cpuEnv = k.cpuEnv := by
  rcases schedStart_snd k c with heq | ⟨cur, -, -, heq⟩
  · rw [heq]
  · rw [heq]
    rfl

/-- `env_run` changes the status of the environment that runs, and of the one that ran before. -/
theorem spared_envRun (hne : k.cpuEnv c ≠ some e) (e' : EnvIdx) :
    (e ≠ e' → Spared k (envRun k c e') e) ∧
      (e = e' → ((k.envs e).envStatus = ENV_RUNNABLE ∨ (k.envs e).envStatus = ENV_RUNNING) →
        Spared k (envRun k c e') e ∨ Picked k (envRun k c e') e) := by
  rw [envRun_eq]
  have hs := spared_schedStart hne
  set k₀ := (schedStart k c).2 with hk₀
  have hs₁ : Spared k (k₀.setCurenv c (some e')) e :=
    hs.trans (.of_env rfl fun i j => rfl)
  set run : Env → Env :=
    fun env => { env with envStatus := ENV_RUNNING, envRuns := env.envRuns + 1 }
  refine ⟨fun hee => hs₁.trans (.setEnv hee rfl), ?_⟩
  rintro rfl hst
  have hdirs : ((k₀.setCurenv c (some e)).setEnv e run).dirs = k₀.dirs := by
    rw [dirs_setEnv]
    exact Function.update_eq_self _ _
  have henv : ((k₀.setCurenv c (some e)).setEnv e run).envs e = run (k₀.envs e) :=
    Function.update_self _ _ _
  have hvm : ∀ i j, vm ((k₀.setCurenv c (some e)).setEnv e run).phys
      ((k₀.setCurenv c (some e)).setEnv e run).dirs (e, i, j) = vm k.phys k.dirs (e, i, j) := by
    intro i j
    rw [hdirs]
    exact hs.vm i j
  rcases hst with hst | hst
  · refine .inr ⟨hvm, hst, ?_, ?_, ?_⟩
    · rw [henv]
    · rw [henv]
      exact hs.tf
    · rw [henv]
      exact hs.upcall
  · refine .inl ⟨hvm, ?_, ?_, ?_⟩
    · rw [henv, hst]
    · rw [henv]
      exact hs.tf
    · rw [henv]
      exact hs.upcall

/-- **The scheduler** changes no third party but the one it picks. -/
theorem Spared.sched (h : Spared k k₁ e) (hne : k₁.cpuEnv c ≠ some e) {picked : Option EnvIdx}
    (hx : callState c (.error (schedYield k₁ c)) = some (k', picked)) :
    Spared k k' e ∨ picked = some e ∧ Picked k k' e := by
  have hs := h.trans (spared_schedStart hne)
  cases hy : schedYield k₁ c with
  | panic msg =>
    rw [hy] at hx
    cases hx
  | monitor k₂ =>
    rw [hy] at hx
    cases hx
    rw [schedYield_monitor hy]
    exact .inl hs
  | run k₂ e₂ =>
    obtain ⟨hk₂, hst⟩ := schedYield_run hy
    rw [hy] at hx
    cases hx
    rw [← hk₂] at hs
    have hne₂ : k₂.cpuEnv c ≠ some e := by
      rw [hk₂, cpuEnv_schedStart]
      exact hne
    obtain ⟨hother, hself⟩ := spared_envRun hne₂ e₂
    by_cases hee : e = e₂
    · have hst' : (k₂.envs e).envStatus = ENV_RUNNABLE ∨ (k₂.envs e).envStatus = ENV_RUNNING := by
        rw [hee]
        rcases hst with hst | ⟨-, hst⟩
        · exact .inl hst.2
        · exact hst
      rcases hself hee hst' with hsp | hp
      · exact .inl (hs.trans hsp)
      · refine .inr ⟨by rw [hee], fun i j => (hp.vm i j).trans (hs.vm i j), ?_, hp.status,
          hp.tf.trans hs.tf, hp.upcall.trans hs.upcall⟩
        rw [← hs.status]
        exact hp.was
    · exact .inl (hs.trans (hother hee))

theorem KInv.confined_exit (h : KInv managed tables k) (hcur : k.cpuEnv c = some cur)
    {exit : Exit} (hexit : SysExit c cur k x exit) (h3 : ThirdParty k cur e)
    {picked : Option EnvIdx} (hx : callState c (.error exit) = some (k', picked)) :
    Spared k k' e ∨ picked = some e ∧ Picked k k' e := by
  have hne : k.cpuEnv c ≠ some e := by
    rw [hcur]
    exact fun hc => h3.ne_cur (Option.some.inj hc).symm
  cases hexit with
  | panic msg => cases hx
  | yield hno => exact (Spared.refl k e).sched hne hx
  | recv hno hblk =>
    have hs : Spared k (ipcBlock k cur x.a1) e := .setEnv h3.ne_cur rfl
    exact hs.sched hne hx
  | @destroySelf k₁ hno hfree =>
    have hs := h.spared_destroy h3.ne_cur hfree
    have hs' : Spared k (k₁.setCurenv c none) e := hs.trans (.of_env rfl fun i j => rfl)
    refine hs'.sched ?_ hx
    simp [Kernel.setCurenv]

/-! ## The theorem -/

theorem KInv.confined (h : KInv managed tables k) (hcur : k.cpuEnv c = some cur)
    (hdir : k.dirs cur ≠ none) (hguard : MapGuarded k cur x) : Confined k c cur input x := by
  intro k' picked hx e he h3
  cases hrun : x.run k c cur input with
  | ok y =>
    obtain ⟨r, k₁⟩ := y
    rw [hrun] at hx
    cases hx
    rcases h.confined_return hdir hguard (syscall_ok hcur hrun) he
      h3 with hs | ⟨⟨hno, rfl, hf⟩, hrec⟩
    · exact .inl hs
    · exact .inr (.inr ⟨⟨hno, rfl, hf⟩, hrec⟩)
  | error exit =>
    rw [hrun] at hx
    rcases h.confined_exit hcur (syscall_error hcur hrun) h3 hx with hs | hp
    · exact .inl hs
    · exact .inr (.inl hp)

/-- With flags only, a `sys_page_map` that is not guarded changes a third party. -/
theorem KInv.guarded_of_confined (h : KInv managed tables k) (hdir : k.dirs cur ≠ none)
    (hperm : PTE_ADDR x.a5 = 0) (hconf : Confined k c cur input x) : MapGuarded k cur x := by
  intro hno y hy
  obtain ⟨dst, p⟩ := y
  refine ⟨hperm, ?_⟩
  by_contra hc
  simp only [not_or, not_not] at hc
  obtain ⟨h3, hroom, hdiff⟩ := hc
  obtain ⟨-, -, -, -, hdst, -⟩ := mapTarget_some hy
  have hdd := h.tab.found hdir hdst
  obtain ⟨d, hd⟩ := Option.ne_none_iff_exists'.1 hdd
  rcases h.mem.insertTarget hy hd hperm with ⟨hno', -⟩ | ⟨-, σ', hins, hvm⟩
  · exact hroom hno'
  have hmap := sysPageMap_of_target hy hd hins
  have hrun : x.run k c cur input = .ok (0, { k with phys := σ' }) := by
    unfold Call.run syscall
    rw [hno]
    simp only [show ¬ (SYS_page_map = SYS_cputs) by decide,
      show ¬ (SYS_page_map = SYS_cgetc) by decide, show ¬ (SYS_page_map = SYS_getenvid) by decide,
      show ¬ (SYS_page_map =
        SYS_env_destroy) by decide, show ¬ (SYS_page_map = SYS_yield) by decide,
      show ¬ (SYS_page_map = SYS_exofork) by decide,
      show ¬ (SYS_page_map = SYS_page_alloc) by decide, if_false, if_true, hmap]
    rfl
  have hout : ∀ {k' : Kernel}, k' = { k with phys := σ' } →
      ¬ vm k'.phys k'.dirs (mapIdx dst x.a4) = vm k.phys k.dirs (mapIdx dst x.a4) := by
    rintro k' rfl heq
    change vm σ' k.dirs _ = _ at heq
    rw [hvm, Function.update_self] at heq
    exact hdiff heq.symm
  rcases hconf _ none (by rw [hrun]; rfl) dst hdd h3 with hs | ⟨hp, -⟩ | ⟨⟨hs, -⟩, -⟩
  · exact hout rfl (hs.vm _ _)
  · cases hp
  · rw [hno] at hs
    exact absurd hs (by decide)

/-- **A system call is confined if it is guarded**, and not otherwise if its flags are flags. -/
theorem confined_iff_guarded (h : KInv managed tables k) (hcur : k.cpuEnv c = some cur)
    (hdir : k.dirs cur ≠ none) (input : Word) (x : Call) :
    (MapGuarded k cur x → Confined k c cur input x) ∧
      (PTE_ADDR x.a5 = 0 → Confined k c cur input x → MapGuarded k cur x) :=
  ⟨fun hguard => h.confined hcur hdir hguard, fun hperm hconf =>
    h.guarded_of_confined hdir hperm hconf⟩

/-- The first program runs on CPU 0. -/
def firstActs : List SmpAct := bootActs ++ .start 0 :: leaveActs 0

/-- A `sys_page_map` of the first program, of the page at `0x800000`. -/
def mapCall (dstenvid dstva : Word) : Call :=
  ⟨SYS_page_map, 0, 0x800000#32, dstenvid, dstva, PTE_P ||| PTE_U⟩

theorem firstActs_run : ∃ m, RunWhile Sound Smp.step freshSmp firstActs m ∧
    (m.k.cpuEnv 0 = some 8 ∧ m.k.dirs 8 ≠ none) ∧
    mapTarget m.k 8 0 0x800000#32 0 0x900000#32 (PTE_P ||| PTE_U) = some (8, 10) ∧
    mapTarget m.k 8 0 0x800000#32 0x1000#32 0x900000#32 (PTE_P ||| PTE_U) = some (0, 10) ∧
    ThirdParty m.k 8 0 ∧ m.k.phys.pageFreeList ≠ none ∧ vm m.k.phys m.k.dirs (0, 2, 256) = 0 := by
  have hcomp : ((firstActs.foldlM (guardedStep Sound Smp.step) freshSmp).map fun m =>
      (decide (m.k.cpuEnv 0 = some 8 ∧ m.k.dirs 8 ≠ none),
        mapTarget m.k 8 0 0x800000#32 0 0x900000#32 (PTE_P ||| PTE_U),
        mapTarget m.k 8 0 0x800000#32 0x1000#32 0x900000#32 (PTE_P ||| PTE_U),
        decide (ThirdParty m.k 8 0 ∧ m.k.phys.pageFreeList ≠ none ∧
          vm m.k.phys m.k.dirs (0, 2, 256) = 0))) =
        some (true, some (8, 10), some (0, 10), true) := by decide +kernel
  obtain ⟨m, hm, hfacts⟩ := Option.map_eq_some_iff.1 hcomp
  simp only [Prod.mk.injEq, decide_eq_true_eq] at hfacts
  exact ⟨m, RunWhile.of_foldlM hm, hfacts⟩

/-- The program maps its page again in its own address space. -/
theorem confined_own_map : Boots (Set.Icc 1 40) ∅ freshSmp ∧
    ∃ m, RunWhile Sound Smp.step freshSmp firstActs m ∧ m.k.cpuEnv 0 = some 8 ∧
      Confined m.k 0 8 0 (mapCall 0 0x900000#32) := by
  obtain ⟨m, hrun, ⟨hcur, hdir⟩, htgt, -, -, -, -⟩ := firstActs_run
  have hinv := (boots_freshSmp.smpInv_run hrun).kinv
  refine ⟨boots_freshSmp, m, hrun, hcur, (confined_iff_guarded hinv hcur hdir 0 _).1 ?_⟩
  intro _ y hy
  obtain rfl : (8, 10) = y := Option.some.inj (htgt.symm.trans hy)
  exact ⟨by decide, .inl fun h3 => h3.1 rfl⟩

/-- The program maps its page into the address space of an idle environment. -/
theorem page_map_unconfined : Boots (Set.Icc 1 40) ∅ freshSmp ∧
    ∃ m, RunWhile Sound Smp.step freshSmp firstActs m ∧ m.k.cpuEnv 0 = some 8 ∧
      ¬ Confined m.k 0 8 0 (mapCall 0x1000#32 0x900000#32) := by
  obtain ⟨m, hrun, ⟨hcur, hdir⟩, -, htgt, h3, hfree, hvm⟩ := firstActs_run
  have hinv := (boots_freshSmp.smpInv_run hrun).kinv
  refine ⟨boots_freshSmp, m, hrun, hcur, fun hconf => ?_⟩
  obtain ⟨-, hg⟩ := hinv.guarded_of_confined hdir (by decide) hconf rfl (0, 10) htgt
  rcases hg with hg | hg | hg
  · exact hg h3
  · exact hfree hg.2
  · change vm m.k.phys m.k.dirs (0, 2, 256) = _ at hg
    rw [hvm] at hg
    exact absurd hg (by decide)

end Jos
