import Jos.Confine
import Jos.Send

/-!
# What `env_ipc_perm` tells the receiver

`ipc_recv` hands `env_ipc_perm` to its caller, as the way to learn whether a page has arrived: it
"is nonzero iff a page was successfully transferred". `PermTruth` is that contract, together with
what the page is.

A send that returns 0 has transferred a page exactly if both sides want one (`WantsPage`): the code
panics if the page is not there in the end. The field is then `perm`, and nothing keeps `perm` from
being zero, since `sys_ipc_try_send` does not ask for `PTE_U | PTE_P`.
-/

namespace Jos

open Lib

/-- From `k` to `k'` the environment `e` got a mapping at `va`. -/
def Installed (k k' : Kernel) (e : EnvIdx) (va : Word) : Prop :=
  Present (vm k'.phys k'.dirs (mapIdx e va)) ∧
    vm k'.phys k'.dirs (mapIdx e va) ≠ vm k.phys k.dirs (mapIdx e va)

instance (k k' : Kernel) (e : EnvIdx) (va : Word) : Decidable (Installed k k' e va) := by
  unfold Installed; infer_instance

/-- `env_ipc_perm` is right about the page that `uenv` got from `cur`. -/
structure PermTruth (k k' : Kernel) (cur uenv : EnvIdx) (srcva : Word) : Prop where
  perm : (k'.envs uenv).envIpcPerm ≠ 0 ↔ Installed k k' uenv (k.envs uenv).envIpcDstva
  page : Installed k k' uenv (k.envs uenv).envIpcDstva →
    Present (vm k.phys k.dirs (mapIdx cur srcva)) ∧
      vm k'.phys k'.dirs (mapIdx uenv (k.envs uenv).envIpcDstva) =
        page2pa (PGNUM (vm k.phys k.dirs (mapIdx cur srcva))) |||
          (k'.envs uenv).envIpcPerm ||| PTE_P
  unchanged : ¬ Installed k k' uenv (k.envs uenv).envIpcDstva → k'.phys = k.phys

variable {managed tables : Set Nat} {cur uenv : EnvIdx} {k k' : Kernel}
  {envid value srcva perm : Word}

theorem sent_perm (hx : sysIpcTrySend k cur envid value srcva perm = .ok (0, k'))
    (hf : envid2env k cur envid false = some uenv) :
    (k'.envs uenv).envIpcPerm = if WantsPage k uenv srcva then perm else 0 := by
  rcases sysIpcTrySend_ok hx with ⟨hno, -, -⟩ | ⟨uenv', hf', hcase⟩
  · rw [hno] at hf
    cases hf
  obtain rfl : uenv = uenv' := Option.some.inj (hf.symm.trans hf')
  rcases hcase with ⟨-, hr, -⟩ | ⟨-, ⟨hr, -⟩ | ⟨hr, -⟩ | ⟨-, hk⟩⟩
  · exact absurd hr (by decide)
  · exact absurd rfl hr
  · exact absurd rfl hr
  · have henvs : k'.envs = Function.update k.envs uenv
        (delivered k cur uenv value (sentPerm k uenv srcva perm)) := congrArg Kernel.envs hk
    rw [henvs, Function.update_self]
    rfl

/-- **The page** that a successful send transfers. -/
theorem sent_page (h : KInv managed tables k) (hdir : k.dirs cur ≠ none)
    (hx : sysIpcTrySend k cur envid value srcva perm = .ok (0, k'))
    (hf : envid2env k cur envid false = some uenv) (hwant : WantsPage k uenv srcva) :
    ¬ Present (vm k.phys k.dirs (mapIdx uenv (k.envs uenv).envIpcDstva)) ∧
      Present (vm k.phys k.dirs (mapIdx cur srcva)) ∧
      vm k'.phys k'.dirs (mapIdx uenv (k.envs uenv).envIpcDstva) =
        page2pa (PGNUM (vm k.phys k.dirs (mapIdx cur srcva))) ||| perm ||| PTE_P := by
  have hdirs := dirs_sysIpcTrySend hx
  rcases sysIpcTrySend_phys hx with
    ⟨-, hno⟩ | ⟨uenv', d, r₁, σ, hf', -, -, hperm, -, hphys, hd, hl₀, hmap, hl₁⟩
  · exact (hno rfl uenv hf hwant).elim
  obtain rfl : uenv = uenv' := Option.some.inj (hf.symm.trans hf')
  have hd₀ := dirs_setIpcPerm k uenv 0
  have hdu : k.dirs uenv = some d := by
    rw [← hd₀]
    exact dirs_of_pgdir hd
  have h₀ : KMem managed tables (setIpcPerm k uenv 0) := h.mem.congr rfl hd₀
  rcases sysPageMap_ok hmap with ⟨-, hk⟩ | ⟨dst, p, d', ht, hd', hins, -⟩
  · -- nothing was mapped, so the second lookup would have failed too
    have hσ : σ = k.phys := congrArg Kernel.phys hk
    rw [hσ] at hl₁
    exact (hl₁ hl₀).elim
  obtain ⟨srcE, ds, pte, hsrc, hdst, hsva, hdva, hds, hl, -⟩ := mapTarget_some ht
  rw [envid2env_setIpcPerm] at hsrc hdst
  obtain rfl : uenv = dst := Option.some.inj (hf.symm.trans hdst)
  obtain rfl := ENVX_found (h.tab.ids cur hdir) hsrc
  rcases h₀.insertTarget ht hd' (PTE_ADDR_of_syscall hperm) with ⟨-, hins'⟩ | ⟨-, σ', hins', hvm⟩
  · obtain ⟨-, hσ⟩ := Prod.mk.inj (Except.ok.inj (hins.symm.trans hins'))
    change σ = k.phys at hσ
    rw [hσ] at hl₁
    exact (hl₁ hl₀).elim
  obtain ⟨-, hσ⟩ := Prod.mk.inj (Except.ok.inj (hins.symm.trans hins'))
  change σ = σ' at hσ
  obtain ⟨free, hm⟩ := h.mem
  rw [hd₀] at hds
  obtain ⟨htgt, -⟩ := hm.lookup_eq hds hsva hl
  obtain ⟨hpres, hpg⟩ := present_of_target htgt
  obtain ⟨y, hy, hnone, -⟩ := hm.pinv.lookup hdu (PDX_user hdva)
  rw [hl₀] at hy
  cases hy
  refine ⟨named_eq_none.1 hnone.symm, hpres, ?_⟩
  have hpg' : PGNUM (vm k.phys k.dirs (mapIdx srcE srcva)) = p := hpg
  rw [hpg', hphys, hdirs, ← hd₀, hσ, hvm, Function.update_self]

/-- **`env_ipc_perm` tells the truth** unless a page is sent with `perm` zero. -/
theorem perm_truth_iff (h : KInv managed tables k) (hdir : k.dirs cur ≠ none)
    (hx : sysIpcTrySend k cur envid value srcva perm = .ok (0, k'))
    (hf : envid2env k cur envid false = some uenv) :
    PermTruth k k' cur uenv srcva ↔ (WantsPage k uenv srcva → perm ≠ 0) := by
  have hp := sent_perm hx hf
  by_cases hwant : WantsPage k uenv srcva
  · obtain ⟨habs, hpres, hpte⟩ := sent_page h hdir hx hf hwant
    rw [if_pos hwant] at hp
    have hinst : Installed k k' uenv (k.envs uenv).envIpcDstva := by
      have hpres' : Present (vm k'.phys k'.dirs (mapIdx uenv (k.envs uenv).envIpcDstva)) := by
        rw [hpte]
        exact present_or_PTE_P _
      exact ⟨hpres', fun heq => habs (heq ▸ hpres')⟩
    refine ⟨fun ht _ => ?_, fun hne => ⟨?_, fun _ => ⟨hpres, ?_⟩, fun hc => (hc hinst).elim⟩⟩
    · rw [← hp]
      exact ht.perm.2 hinst
    · rw [hp]
      exact ⟨fun _ => hinst, fun _ => hne hwant⟩
    · rw [hp]
      exact hpte
  · rw [if_neg hwant] at hp
    have hphys : k'.phys = k.phys := by
      rcases sysIpcTrySend_phys hx with ⟨hphys, -⟩ | ⟨uenv', d, r₁, σ, hf', -, hw, -⟩
      · exact hphys
      · obtain rfl : uenv = uenv' := Option.some.inj (hf.symm.trans hf')
        exact (hwant hw).elim
    have hnot : ¬ Installed k k' uenv (k.envs uenv).envIpcDstva := by
      rintro ⟨-, hne⟩
      rw [hphys, dirs_sysIpcTrySend hx] at hne
      exact hne rfl
    refine ⟨fun _ hc => (hwant hc).elim, fun _ => ⟨?_, fun hc => (hnot hc).elim, fun _ => hphys⟩⟩
    rw [hp]
    exact ⟨fun hc => (hc rfl).elim, fun hc => (hnot hc).elim⟩

theorem send_child (perm : Word) (hperm : perm = PTE_U ||| PTE_P ∨ perm = 0) :
    ∃ k k', KInv (Set.Icc 1 40) ∅ k ∧ k.dirs 8 ≠ none ∧
      envid2env k 8 0x1009#32 false = some 9 ∧ WantsPage k 9 0x800000#32 ∧
      sysIpcTrySend k 8 0x1009#32 7#32 0x800000#32 perm = .ok (0, k') := by
  have hcomp : (((recvActs 0xC00000#32).foldlM (guardedStep Sound Smp.step) freshSmp).map
      fun m => (recvFacts 0xC00000#32 m, decide (m.k.dirs 8 ≠ none),
        (sysIpcTrySend m.k 8 0x1009#32 7#32 0x800000#32 (PTE_U ||| PTE_P)).toOption.map Prod.fst,
        (sysIpcTrySend m.k 8 0x1009#32 7#32 0x800000#32 0).toOption.map Prod.fst)) =
      some (true, true, some 0, some 0) := by
    decide +kernel
  obtain ⟨m, hm, hfacts⟩ := Option.map_eq_some_iff.1 hcomp
  simp only [Prod.mk.injEq] at hfacts
  obtain ⟨hfacts, hdir, hres, hzero⟩ := hfacts
  obtain ⟨-, -, hf, -, hdst, -⟩ := of_decide_eq_true hfacts
  have hinv := (boots_freshSmp.smpInv_run (RunWhile.of_foldlM hm)).kinv
  have hret : ∃ k', sysIpcTrySend m.k 8 0x1009#32 7#32 0x800000#32 perm = .ok (0, k') := by
    have hany : (sysIpcTrySend m.k 8 0x1009#32 7#32 0x800000#32 perm).toOption.map Prod.fst =
      some 0 := by
      rcases hperm with rfl | rfl
      · exact hres
      · exact hzero
    obtain ⟨⟨r, k'⟩, hy, hr⟩ := Option.map_eq_some_iff.1 hany
    obtain rfl : r = 0 := hr
    refine ⟨k', ?_⟩
    cases hs : sysIpcTrySend m.k 8 0x1009#32 7#32 0x800000#32 perm with
    | error msg =>
      rw [hs] at hy
      cases hy
    | ok y =>
      rw [hs] at hy
      rw [Option.some.inj hy]
  obtain ⟨k', hx⟩ := hret
  exact ⟨m.k, k', hinv, of_decide_eq_true hdir, hf, ⟨by decide, by rw [hdst]; decide⟩, hx⟩

/-- A send with `PTE_U | PTE_P`. -/
theorem perm_truth_child : ∃ k k', KInv (Set.Icc 1 40) ∅ k ∧ WantsPage k 9 0x800000#32 ∧
    sysIpcTrySend k 8 0x1009#32 7#32 0x800000#32 (PTE_U ||| PTE_P) = .ok (0, k') ∧
    PermTruth k k' 8 9 0x800000#32 := by
  obtain ⟨k, k', hinv, hdir, hf, hwant, hx⟩ := send_child (PTE_U ||| PTE_P) (.inl rfl)
  exact ⟨k, k', hinv, hwant, hx, (perm_truth_iff hinv hdir hx hf).2 fun _ => by decide⟩

/-- A send with `perm` zero: the page arrives, and `env_ipc_perm` says that none did. -/
theorem perm_zero_lies : ∃ k k', KInv (Set.Icc 1 40) ∅ k ∧
    envid2env k 8 0x1009#32 false = some 9 ∧
    sysIpcTrySend k 8 0x1009#32 7#32 0x800000#32 0 = .ok (0, k') ∧
    Installed k k' 9 (k.envs 9).envIpcDstva ∧ (k'.envs 9).envIpcPerm = 0 := by
  obtain ⟨k, k', hinv, hdir, hf, hwant, hx⟩ := send_child 0 (.inr rfl)
  obtain ⟨habs, -, hpte⟩ := sent_page hinv hdir hx hf hwant
  have hpres : Present (vm k'.phys k'.dirs (mapIdx 9 (k.envs 9).envIpcDstva)) := by
    rw [hpte]
    exact present_or_PTE_P _
  refine ⟨k, k', hinv, hf, hx, ⟨hpres, fun heq => habs (heq ▸ hpres)⟩, ?_⟩
  rw [sent_perm hx hf, if_pos hwant]

end Jos
