import Jos.Env
import Jos.PageOps
import Jos.Lib.Loop

/-!
# Creating and freeing address spaces

What `env_setup_vm` and the double loop of `env_free` do to the page tables.

The loops of `env_free` are chains of `page_remove` and `page_decref`, each of which drops one
reference of the environment that is freed (`Dropped`); the loop rule of `Lib.Loop` carries
that together with "the entries visited so far are empty".
-/

namespace Jos

open Lib

variable {managed : Set Nat} {base : Nat → ℕ} {σ σ₁ : Phys} {dirs : EnvIdx → Option Nat}
  {free : List Nat} {held : Set Nat} {e : EnvIdx} {d : Nat}

/-! ## One page table -/

theorem PInv.freePtes (h : PInv managed base σ dirs free held) (hd : dirs e = some d) {i : Idx}
    (hi : i.User) {pt : Nat} (hpt : target σ dirs (.pde e i) = some pt)
    (hb : NoWrap base (target σ dirs)) :
    ∃ σ₁ free₁, (List.finRange 1024).foldlM (freePte d i pt) σ = .ok σ₁ ∧
      PInv managed base σ₁ dirs free₁ held ∧ Dropped e σ dirs free σ₁ dirs free₁ ∧
      pdes σ₁ dirs = pdes σ dirs ∧ ∀ j, vm σ₁ dirs (e, i, j) = 0 := by
  obtain ⟨σ₁, hfold, free₁, hinv, hdrop, hpdes, hdone⟩ := foldlM_ok (l := List.finRange 1024)
    (f := freePte d i pt) (b := σ)
    (motive := fun done τ => ∃ free', PInv managed base τ dirs free' held ∧
      Dropped e σ dirs free τ dirs free' ∧ pdes τ dirs = pdes σ dirs ∧
      ∀ j ∈ done, target τ dirs (.pte e i j) = none) (by
    rintro done j τ - ⟨free', hτ, hdrop, hpdes, hdone⟩
    have hptτ : target τ dirs (.pde e i) = some pt := by simpa only [target, hpdes] using hpt
    have hread : τ.mem pt j = vm τ dirs (e, i, j) := (vm_of_present hptτ j).symm
    rw [freePte, hread]
    split_ifs with hpr
    · obtain ⟨τ₁, free₂, hrem, hτ₁, hdrop₁, hpdes₁, hvm₁⟩ := hτ.remove hd
        (show (PDX (PGADDR i j 0)).User by rw [PDX_PGADDR]; exact hi) fun q _ =>
        (hdrop.noWrap hb q).le
      rw [PDX_PGADDR, PTX_PGADDR] at hvm₁
      refine ⟨τ₁, hrem, free₂, hτ₁, hdrop.trans hdrop₁, hpdes₁.trans hpdes, fun j' hj' => ?_⟩
      rcases List.mem_append.1 hj' with hj' | hj'
      · exact hdrop₁.none (hdone j' hj')
      · obtain rfl : j' = j := by simpa using hj'
        simp [target, hvm₁]
    · refine ⟨τ, rfl, free', hτ, hdrop, hpdes, fun j' hj' => ?_⟩
      rcases List.mem_append.1 hj' with hj' | hj'
      · exact hdone j' hj'
      · obtain rfl : j' = j := by simpa using hj'
        exact named_eq_none.2 hpr)
    ⟨free, h, .refl, rfl, by simp⟩
  refine ⟨σ₁, free₁, hfold, hinv, hdrop, hpdes, fun j => hinv.vm_zero _ ?_⟩
  simpa only [target, named_eq_none] using hdone j (by simp)

theorem PGNUM_PTE_ADDR (w : Word) : PGNUM (PTE_ADDR w) = PGNUM w :=
  PGNUM_congr (by rw [← page2pa_PGNUM w, PTE_ADDR_page2pa])

theorem PInv.freePde (h : PInv managed base σ dirs free held) (hd : dirs e = some d) {i : Idx}
    (hi : i.User) (hb : NoWrap base (target σ dirs)) :
    ∃ σ₁ free₁, freePde d σ i = .ok σ₁ ∧ PInv managed base σ₁ dirs free₁ held ∧
      Dropped e σ dirs free σ₁ dirs free₁ ∧ target σ₁ dirs (.pde e i) = none := by
  cases hpt : target σ dirs (.pde e i) with
  | none =>
    refine ⟨σ, free, ?_, h, .refl, hpt⟩
    rw [Jos.freePde, if_pos (pde_of_absent hd hi hpt)]
  | some pt =>
    obtain ⟨hpr, hpg⟩ := pde_of_target hd hi hpt
    obtain ⟨σ₁, free₁, hfold, h₁, hdrop, hpdes, hempty⟩ := h.freePtes hd hi hpt hb
    have hpt₁ : target σ₁ dirs (.pde e i) = some pt := by simpa only [target, hpdes] using hpt
    obtain ⟨h₂, htgt, hpdes₂, hvm₂⟩ := h₁.detachPde hd hi hpt₁ hempty (hdrop.noWrap hb pt).le
    refine ⟨_, _, ?_, h₂, hdrop.trans ⟨by simp [Phys.store], by simp [Phys.store],
      tgt_of_update_none htgt, fun x hx => ?_, fun x _ => by rw [hvm₂], fun f hf => ?_,
      fun r hr => ?_, fun r hr => ?_⟩, by rw [htgt, Function.update_self]⟩
    · have hlt : PGNUM (PTE_ADDR (σ.mem d i)) < σ.npages := by
        rw [PGNUM_PTE_ADDR, hpg]
        exact h.lt_npages hpt
      have hk : kaddr σ (PTE_ADDR (σ.mem d i)) = .ok pt := by
        rw [kaddr, if_neg (Nat.not_le.2 hlt), PGNUM_PTE_ADDR, hpg]
      have hpa : pa2page (σ₁.store (d, i) 0) (PTE_ADDR (σ.mem d i)) = .ok pt := by
        rw [pa2page_of_lt (by simpa [Phys.store, hdrop.npages] using hlt), PGNUM_PTE_ADDR, hpg]
      rw [Jos.freePde, if_neg (not_not.2 hpr)]
      simp only [hk, ok_bind, hfold, hpa, pure_eq_ok]
    · rw [hpdes₂, Function.update_of_ne]
      exact fun hc => hx (congrArg Prod.fst hc)
    · rw [mem_pageDecref]
      funext k
      rw [Phys.mem_store, if_neg]
      exact fun hc => hf (.dir e) trivial rfl (hc.1 ▸ hd)
    · rcases mem_freeAfter hr with hr | rfl
      · exact Or.inl hr
      · exact Or.inr ⟨.pde e i, rfl, hpt₁⟩
    · rw [ppRef_pageDecref, Function.update_of_ne]
      · rfl
      · rintro rfl
        exact hr _ rfl hpt₁

/-! ## The whole address space -/

theorem mem_userPdes {i : Idx} : i ∈ userPdes ↔ i.User := by simp [userPdes]

/-- **`env_free` empties the slots of its environment** and leaves every other address space
as it was. -/
theorem PInv.freeVm (h : PInv managed base σ dirs free held) (hd : dirs e = some d)
    (hb : NoWrap base (target σ dirs)) :
    ∃ σ₁ free₁, freeVm σ d = .ok σ₁ ∧
      PInv managed base σ₁ (Function.update dirs e none) free₁ held ∧
      Dropped e σ dirs free σ₁ (Function.update dirs e none) free₁ := by
  obtain ⟨σ₁, hfold, free₁, h₁, hdrop, hdone⟩ := foldlM_ok (l := userPdes)
    (f := Jos.freePde d) (b := σ)
    (motive := fun done τ => ∃ free', PInv managed base τ dirs free' held ∧
      Dropped e σ dirs free τ dirs free' ∧ ∀ i ∈ done, target τ dirs (.pde e i) = none)
    (by
      rintro done i τ hmem ⟨free', hτ, hdrop, hdone⟩
      obtain ⟨τ₁, free₂, hfree, hτ₁, hdrop₁, hnone⟩ :=
        hτ.freePde hd (mem_userPdes.1 hmem) (hdrop.noWrap hb)
      refine ⟨τ₁, hfree, free₂, hτ₁, hdrop.trans hdrop₁, fun i' hi' => ?_⟩
      rcases List.mem_append.1 hi' with hi' | hi'
      · exact hdrop₁.none (hdone i' hi')
      · obtain rfl : i' = i := by simpa using hi'
        exact hnone)
    ⟨free, h, .refl, by simp⟩
  have habs : ∀ i, ¬ Present (pdes σ₁ dirs (e, i)) := fun i => by
    by_cases hi : i.User
    · exact named_eq_none.1 (hdone i (by simpa using mem_userPdes.2 hi))
    · simp [pdes, hd, hi]
  obtain ⟨h₂, htgt, hvm⟩ := h₁.detachDir hd habs (hdrop.noWrap hb d).le
  have hlt : d < σ₁.npages := h₁.lt_npages (s := .dir e) hd
  refine ⟨_, _, ?_, h₂, hdrop.trans ⟨by simp, by simp, tgt_of_update_none htgt, fun x hx => ?_,
    fun x _ => by rw [hvm], fun f _ => by simp, fun r hr => ?_, fun r hr => ?_⟩⟩
  · have hpg : PGNUM (page2pa d) = d :=
      PGNUM_page2pa (h₁.lt_two_pow (h₁.valid.tgt_mem (.dir e) d hd))
    simp only [Jos.freeVm, hfold, ok_bind, pa2page_of_lt (by rw [hpg]; exact hlt), hpg, pure_eq_ok]
  · obtain ⟨e', i⟩ := x
    rw [pdes_of_mem (mem_pageDecref _ _), pdes_update_dir, if_neg hx]
  · rcases mem_freeAfter hr with hr | rfl
    · exact Or.inl hr
    · exact Or.inr ⟨.dir e, rfl, hd⟩
  · rw [ppRef_pageDecref, Function.update_of_ne]
    rintro rfl
    exact hr (.dir e) rfl hd

@[simp] theorem envs_leave (k : Kernel) (c : Cpu) (e : EnvIdx) : (k.leave c e).envs = k.envs := by
  unfold Kernel.leave
  split_ifs <;> rfl

@[simp] theorem phys_leave (k : Kernel) (c : Cpu) (e : EnvIdx) : (k.leave c e).phys = k.phys := by
  unfold Kernel.leave
  split_ifs <;> rfl

theorem dirs_setEnv (k : Kernel) (e : EnvIdx) (f : Env → Env) :
    (k.setEnv e f).dirs = Function.update k.dirs e (f (k.envs e)).envPgdir := by
  funext e'
  by_cases he : e' = e
  · subst he; simp [Kernel.dirs, Kernel.setEnv]
  · simp [Kernel.dirs, Kernel.setEnv, he]

theorem dirs_retire (k : Kernel) (c : Cpu) (e : EnvIdx) (σ : Phys) :
    ({ k.leave c e with phys := σ }.retire e).dirs = Function.update k.dirs e none := by
  have hdirs : ({ k.leave c e with phys := σ } : Kernel).dirs = k.dirs := by
    funext e'
    simp [Kernel.dirs]
  have := dirs_setEnv { k.leave c e with phys := σ } e fun env =>
    { env with envPgdir := none, envStatus := ENV_FREE, envLink := (k.leave c e).envFreeList }
  rw [hdirs] at this
  exact this

theorem envFree_of_freeVm {k : Kernel} (c : Cpu) (hd : k.dirs e = some d)
    (h : Jos.freeVm k.phys d = .ok σ₁) :
    envFree k c e = .ok ({ k.leave c e with phys := σ₁ }.retire e) := by
  have hd' : (k.envs e).envPgdir = some d := hd
  simp only [envFree, Kernel.pgdir, envs_leave, hd', phys_leave, h, ok_bind, pure_eq_ok]

/-! ## A new address space -/

/-- Writing to a frame that is no table changes no entry. -/
theorem PInv.writeFrame (h : PInv managed base σ dirs free held) (hs : SameAlloc σ σ₁) {p : Nat}
    (hp : ∀ s, s.IsTable → target σ dirs s ≠ some p) (hmem : ∀ f ≠ p, σ₁.mem f = σ.mem f) :
    PInv managed base σ₁ dirs free held ∧ pdes σ₁ dirs = pdes σ dirs ∧ vm σ₁ dirs = vm σ dirs := by
  have hpdes : pdes σ₁ dirs = pdes σ dirs := pdes_congr fun e' d' hd' i _ => by
    rw [hmem d' fun hc => hp (.dir e') trivial (hc ▸ hd')]
  have hvm : vm σ₁ dirs = vm σ dirs := vm_congr hpdes fun e' i pt hpt =>
    hmem pt fun hc => hp (.pde e' i) trivial (hc ▸ hpt)
  exact ⟨h.congr hs (target_congr hpdes hvm) (by rw [hvm]; exact h.vm_zero), hpdes, hvm⟩

/-- `kern_pgdir` maps nothing below `UTOP`. -/
def KernDir (σ : Phys) : Prop := ∀ i : Idx, i.User → ¬ Present (σ.mem σ.kernPgdir i)

theorem mem_initPgdir (σ : Phys) (p f : Nat) (hf : f ≠ p) : (initPgdir σ p).mem f = σ.mem f := by
  simp [initPgdir, Phys.store, incRef, hf]

theorem initPgdir_user {p : Nat} {i : Idx} (hi : i.User) :
    (initPgdir σ p).mem p i = σ.mem σ.kernPgdir i := by
  have hne : i ≠ PDX UVPT := by
    rintro rfl
    exact absurd hi (by decide)
  simp [initPgdir, Phys.store, incRef, hne]

/-- What `env_setup_vm` does when there is a free page. -/
theorem PInv.setupVm {p : Nat} {rest : List Nat} (h : PInv managed base σ dirs (p :: rest) held)
    (hk : KernDir σ) (he : dirs e = none) :
    PInv managed base (initPgdir (pageAlloc σ true).2 p) (Function.update dirs e (some p)) rest
        held ∧
      target (initPgdir (pageAlloc σ true).2 p) (Function.update dirs e (some p)) =
        Function.update (target σ dirs) (.dir e) (some p) ∧
      vm (initPgdir (pageAlloc σ true).2 p) (Function.update dirs e (some p)) = vm σ dirs := by
  obtain ⟨-, h₁, hpdes₁, hvm₁⟩ := h.alloc true
  have htgt₁ := target_congr hpdes₁ hvm₁
  have hkern : (pageAlloc σ true).2.kernPgdir = σ.kernPgdir := by simp [pageAlloc, h.head_eq]
  have hkp : σ.kernPgdir ≠ p := fun hc => h.kern (hc ▸ h.free_managed List.mem_cons_self)
  set σ₁ := (pageAlloc σ true).2
  -- The memory of `initPgdir`, with the counter still at zero.
  let τ : Phys := { initPgdir σ₁ p with ppRef := σ₁.ppRef }
  have hτp : ∀ i : Idx, i.User → ¬ Present (τ.mem p i) := fun i hi => by
    show ¬ Present ((initPgdir σ₁ p).mem p i)
    rw [initPgdir_user hi, hkern, mem_pageAlloc h.head_eq, if_neg (fun hc => hkp hc.2)]
    exact hk i hi
  obtain ⟨h₂, hpdes₂, hvm₂⟩ :=
    h₁.writeFrame (p := p) (show SameAlloc σ₁ τ from ⟨rfl, rfl, rfl, rfl, rfl⟩)
    (fun s _ => h₁.target_ne_held (Set.mem_insert p held) s) (fun f hf => mem_initPgdir σ₁ p f hf)
  obtain ⟨h₃, htgt₃, hvm₃⟩ := h₂.attachDir he (Set.mem_insert p held) hτp
  have hpheld : p ∉ held := ((h.valid.mem_free p).1 List.mem_cons_self).2.2
  rw [Set.insert_sdiff_self_of_notMem hpheld] at h₃
  have heq : incRef τ p = initPgdir σ₁ p := rfl
  rw [heq] at h₃ htgt₃ hvm₃
  refine ⟨h₃, ?_, by rw [hvm₃, hvm₂, hvm₁]⟩
  rw [htgt₃, target_congr hpdes₂ hvm₂, htgt₁]

theorem ppRef_initPgdir {p : Nat} (hhead : σ.pageFreeList = some p) :
    (initPgdir (pageAlloc σ true).2 p).ppRef p = 1 := by
  simp [initPgdir, Phys.store, incRef, pageAlloc, hhead]

theorem envSetupVm_some {k : Kernel} {p : Nat} (hhead : k.phys.pageFreeList = some p)
    (e : EnvIdx) :
    envSetupVm k e = .ok (0, { k with phys := initPgdir (pageAlloc k.phys true).2 p }.setEnv e
      fun env => { env with envPgdir := some p }) := by
  have halloc : pageAlloc k.phys true = (some p, (pageAlloc k.phys true).2) := by
    simp [pageAlloc, hhead]
  unfold envSetupVm
  rw [halloc]
  exact if_pos (ppRef_initPgdir hhead)

theorem envSetupVm_none {k : Kernel} (hhead : k.phys.pageFreeList = none) (e : EnvIdx) :
    envSetupVm k e = .ok (-E_NO_MEM, k) := by
  unfold envSetupVm pageAlloc
  rw [hhead]

theorem kernPgdir_initPgdir (σ : Phys) (p : Nat) :
    (initPgdir (pageAlloc σ true).2 p).kernPgdir = σ.kernPgdir := by
  unfold initPgdir pageAlloc
  cases σ.pageFreeList <;> rfl

theorem vm_of_no_dir (hd : dirs e = none) (i j : Idx) : vm σ dirs (e, i, j) = 0 := by
  simp [vm, pdes, hd]

end Jos
