import Jos.Preempt
import Jos.RefCount

/-!
# Memory that nobody else maps

The other half of preemption: while an environment is stopped, its address space does not change
either. Its mappings stay, and so do the contents of each page that it maps and that nothing else
refers to (`OwnPage`).

**Operations on pages.** `KeepsSpace` says this about one change of physical memory. `page_insert`
into another address space keeps it if the page is not one of `e`, `page_remove` and `env_free` of
another environment in any case, since they only drop references.

**Steps of the machine.** A step may not be one of `e` itself, and it may not name `e` in
`sys_page_alloc`, `sys_page_map` or `sys_page_unmap` (`Aloof`). Only a parent can do that with its
child, except that `sys_page_map` does not check who its destination is. Everything else is allowed:
other environments run on all CPUs, map and send their pages, fork, exit and store what they like.

**The result** (`isolation`): over all such runs, the MMU finds the same rights and the same bytes
for every address in a page of its own.
-/

namespace Jos

open Lib

/-- A page that `e` maps and that nothing else refers to. -/
def OwnPage (σ : Phys) (dirs : EnvIdx → Option Nat) (e : EnvIdx) (p : Nat) : Prop :=
  (∃ i j, target σ dirs (.pte e i j) = some p) ∧ ∀ s, target σ dirs s = some p → s.env = e

/-- The address space of `e` stays as it is, as far as it is its own. -/
structure KeepsSpace (e : EnvIdx) (σ σ' : Phys) (dirs dirs' : EnvIdx → Option Nat) : Prop where
  dir : dirs' e = dirs e
  pdes : ∀ i, pdes σ' dirs' (e, i) = pdes σ dirs (e, i)
  vm : ∀ i j, vm σ' dirs' (e, i, j) = vm σ dirs (e, i, j)
  mem : ∀ p, OwnPage σ dirs e p → σ'.mem p = σ.mem p
  own : ∀ p s, OwnPage σ dirs e p → target σ' dirs' s = some p → s.env = e

variable {managed tables : Set Nat} {σ σ' σ'' : Phys} {dirs dirs' dirs'' : EnvIdx → Option Nat}
  {free free' : List Nat} {held : Set Nat} {e e' : EnvIdx} {d p : Nat} {va perm : Word}

namespace KeepsSpace

theorem refl : KeepsSpace e σ σ dirs dirs :=
  ⟨rfl, fun _ => rfl, fun _ _ => rfl, fun _ _ => rfl, fun _ s hp => hp.2 s⟩

theorem ownPage (h : KeepsSpace e σ σ' dirs dirs') (hp : OwnPage σ dirs e p) :
    OwnPage σ' dirs' e p := by
  obtain ⟨⟨i, j, htgt⟩, -⟩ := id hp
  refine ⟨⟨i, j, ?_⟩, fun s => h.own p s hp⟩
  rw [target, h.vm]
  exact htgt

theorem trans (h : KeepsSpace e σ σ' dirs dirs') (h' : KeepsSpace e σ' σ'' dirs' dirs'') :
    KeepsSpace e σ σ'' dirs dirs'' where
  dir := h'.dir.trans h.dir
  pdes i := (h'.pdes i).trans (h.pdes i)
  vm i j := (h'.vm i j).trans (h.vm i j)
  mem p hp := (h'.mem p (h.ownPage hp)).trans (h.mem p hp)
  own p s hp := h'.own p s (h.ownPage hp)

/-! ## Operations on pages -/

theorem of_mem (hmem : σ'.mem = σ.mem) : KeepsSpace e σ σ' dirs dirs where
  dir := rfl
  pdes i := by rw [pdes_of_mem hmem]
  vm i j := by rw [vm_of_mem hmem]
  mem p _ := by rw [hmem]
  own p s hp := by
    rw [target_of_mem hmem]
    exact hp.2 s

/-- A reference of another environment is not one to its pages. -/
theorem ne_of_target {s : Slot} (hs : target σ dirs s = some p) (he : s.env ≠ e) :
    ¬ OwnPage σ dirs e p :=
  fun hp => he (hp.2 s hs)

theorem not_own_free (h : MemInv managed tables σ dirs free held) (hp : p ∈ free) :
    ¬ OwnPage σ dirs e p := by
  rintro ⟨⟨i, j, htgt⟩, -⟩
  exact h.pinv.not_mem_free htgt hp

theorem writeFrame (h : MemInv managed tables σ dirs free held) (hs : SameAlloc σ σ')
    (hp : ∀ s, s.IsTable → target σ dirs s ≠ some p) (hmem : ∀ f ≠ p, σ'.mem f = σ.mem f)
    (hown : ¬ OwnPage σ dirs e p) : KeepsSpace e σ σ' dirs dirs := by
  obtain ⟨-, hpd, hvm⟩ := h.pinv.writeFrame hs hp hmem
  refine ⟨rfl, fun i => by rw [hpd],
    fun i j => by rw [hvm], fun q hq => hmem q ?_, fun q s hq => ?_⟩
  · rintro rfl
    exact hown hq
  · rw [target_congr hpd hvm]
    exact hq.2 s

/-- **`page_alloc`.** -/
theorem alloc {rest : List Nat} (h : MemInv managed tables σ dirs (p :: rest) held) (zero : Bool) :
    KeepsSpace e σ (pageAlloc σ zero).2 dirs dirs := by
  obtain ⟨-, -, hpd, hvm⟩ := h.pinv.alloc zero
  refine ⟨rfl, fun i => by rw [hpd], fun i j => by rw [hvm], fun q hq => ?_, fun q s hq => ?_⟩
  · rw [mem_pageAlloc h.pinv.head_eq, if_neg]
    rintro ⟨-, rfl⟩
    exact not_own_free h List.mem_cons_self hq
  · rw [target_congr hpd hvm]
    exact hq.2 s

/-- **`page_insert`** into another address space. -/
theorem inserted (h : MemInv managed tables σ dirs free held)
    (hI : Inserted managed (kernRefs tables) σ σ' dirs free free' held e' p va perm) (he : e' ≠ e)
    (hp : ¬ OwnPage σ dirs e p) : KeepsSpace e σ σ' dirs dirs := by
  refine ⟨rfl, fun i => ?_, fun i j => ?_, fun q hq => ?_, fun q s hq hs => ?_⟩
  · rw [hI.pdes, Function.update_of_ne]
    exact fun hc => he (congrArg Prod.fst hc).symm
  · rw [hI.vm, Function.update_of_ne]
    exact fun hc => he (congrArg Prod.fst hc).symm
  · obtain ⟨⟨i, j, htgt⟩, hown⟩ := hq
    have hdata := (h.data e i j q htgt).2
    exact hI.mem q (hdata (.dir e') trivial) (fun x i => hdata (.pde x i) trivial)
      (h.pinv.not_mem_free htgt)
  · obtain ⟨pt, htgt, hpt⟩ := hI.tgt
    rw [htgt] at hs
    by_cases hs₁ : s = .pte e' (PDX va) (PTX va)
    · subst hs₁
      rw [Function.update_self] at hs
      obtain rfl := Option.some.inj hs
      exact (hp hq).elim
    rw [Function.update_of_ne hs₁] at hs
    by_cases hs₂ : s = .pde e' (PDX va)
    · subst hs₂
      rw [Function.update_self] at hs
      obtain rfl := Option.some.inj hs
      rcases hpt with hpt | ⟨-, hpt⟩
      · exact (ne_of_target hpt he hq).elim
      · exact (not_own_free h hpt hq).elim
    rw [Function.update_of_ne hs₂] at hs
    exact hq.2 s hs

/-- **`page_remove`** and **`env_free`** elsewhere. -/
theorem dropped (h : Dropped e' σ dirs free σ' dirs' free') (he : e' ≠ e)
    (hdir : dirs' e = dirs e) :
    KeepsSpace e σ σ' dirs dirs' where
  dir := hdir
  pdes i := h.pdes (e, i) he.symm
  vm i j := h.vm (e, i, j) he.symm
  mem q hq := h.mem q fun s _ hs htgt => he (hs.symm.trans (hq.2 s htgt))
  own q s hq hs := hq.2 s (h.tgt s q hs)

/-- **`env_setup_vm`** of a new environment. -/
theorem setupVm {rest : List Nat} (h : MemInv managed tables σ dirs (p :: rest) held)
    (hnone : dirs e' = none) (he : e' ≠ e) :
    KeepsSpace e σ (initPgdir (pageAlloc σ true).2 p) dirs (Function.update dirs e' (some p)) := by
  obtain ⟨-, htgt, hvm⟩ := h.pinv.setupVm h.kern_dir hnone
  have hpm : ∀ q, OwnPage σ dirs e q → q ≠ p := by
    rintro q hq rfl
    exact not_own_free h List.mem_cons_self hq
  have hmem : ∀ q ≠ p, (initPgdir (pageAlloc σ true).2 p).mem q = σ.mem q := by
    intro q hq
    rw [mem_initPgdir _ _ _ hq, mem_pageAlloc h.pinv.head_eq, if_neg fun hc => hq hc.2]
  refine ⟨Function.update_of_ne he.symm _ _, fun i => ?_, fun i j => by rw [hvm],
    fun q hq => hmem q (hpm q hq), fun q s hq hs => ?_⟩
  · simp only [Jos.pdes, Function.update_of_ne he.symm]
    cases hd : dirs e with
    | none => rfl
    | some d =>
      have hdp : d ≠ p := by
        rintro rfl
        exact h.pinv.target_ne_free List.mem_cons_self (.dir e) hd
      simp only [hmem d hdp]
  · rw [htgt] at hs
    by_cases hse : s = .dir e'
    · subst hse
      rw [Function.update_self] at hs
      exact (hpm q hq (Option.some.inj hs).symm).elim
    · rw [Function.update_of_ne hse] at hs
      exact hq.2 s hs

theorem storeByte (h : MemInv managed tables σ dirs free held) (hd : dirs e' = some d) (he : e' ≠ e)
    (hva : va < UTOP) {bits : Word} (hbits : Present bits) (hp : Permits σ d va bits)
    (b : BitVec 8) :
    KeepsSpace e σ (storeByte σ d va b) dirs dirs := by
  obtain ⟨htgt, -⟩ := mmu_target hd hva hbits hp
  refine writeFrame h (sameAlloc_store _ _ _) (h.data _ _ _ _ htgt).2 (fun f hf => ?_)
    (ne_of_target htgt he)
  funext i
  rw [Jos.storeByte, Phys.mem_store, if_neg fun hc => hf hc.1]

theorem touch (h : MemInv managed tables σ dirs free held) (hd : dirs e' = some d) (he : e' ≠ e)
    (hva : va < UTOP) {bits : Word} (hbits : Present bits) (hp : Permits σ d va bits)
    (dirty : Bool) :
    KeepsSpace e σ (touchPage σ d va dirty) dirs dirs := by
  obtain ⟨htgt, -⟩ := mmu_target hd hva hbits hp
  have hpde : Present (σ.mem d (PDX va)) := present_of_and hp.1 hbits
  have hpt : target σ dirs (.pde e' (PDX va)) = some (PGNUM (σ.mem d (PDX va))) := by
    rw [target, pdes_of_dir hd (PDX_user hva), named_of_present hpde]
  set pt := PGNUM (σ.mem d (PDX va)) with hpt'
  obtain ⟨hp₁, ht₁, hd₁, hv₁⟩ := h.pinv.orPde hd (PDX_user hva) hpt (f := PTE_A) (by decide)
  set σ₁ := σ.store (d, PDX va) (σ.mem d (PDX va) ||| PTE_A) with hσ₁
  have hload : σ₁.load (pt, PTX va) = Jos.vm σ dirs (e', PDX va, PTX va) := by
    rw [← hv₁]
    refine (vm_of_present ?_ (PTX va)).symm
    rw [ht₁]
    exact hpt
  have hpres : Present (Jos.vm σ dirs (e', PDX va, PTX va)) := (present_of_target htgt).1
  set w := flagBits (Jos.vm σ dirs (e', PDX va, PTX va)) |||
    (if dirty then PTE_A ||| PTE_D else PTE_A) with hw
  have haddr : PTE_ADDR w = 0 := by
    rw [PTE_ADDR_or, PTE_ADDR_flagBits, PTE_ADDR_of_flags (touch_flags dirty) (by decide)]
    rfl
  have hname : target σ₁ dirs (.pte e' (PDX va) (PTX va)) =
      some (PGNUM (Jos.vm σ dirs (e', PDX va, PTX va))) := by
    rw [ht₁, htgt, (present_of_target htgt).2]
  have hpt₁ : target σ₁ dirs (.pde e' (PDX va)) = some pt := by
    rw [ht₁]
    exact hpt
  obtain ⟨-, hd₂, hv₂⟩ := hp₁.rewritePte hpt₁ hname haddr
  have hσ₂ : touchPage σ d va dirty = σ₁.store (pt, PTX va)
      (page2pa (PGNUM (Jos.vm σ dirs (e', PDX va, PTX va))) ||| w ||| PTE_P) := by
    rw [hw, ← or_flags hpres, ← hload]
    rfl
  rw [← hσ₂] at hd₂ hv₂
  have ht₂ : target (touchPage σ d va dirty) dirs = target σ dirs := by
    rw [target_update_pte hd₂ hv₂, ht₁]
    refine (congrArg (Function.update _ _) ?_).trans (Function.update_eq_self _ _)
    rw [named_mk (PGNUM_lt _) haddr, htgt, (present_of_target htgt).2]
  refine ⟨rfl, fun i => ?_, fun i j => ?_, fun q hq => ?_, fun q s hq => ?_⟩
  · rw [hd₂, hd₁, Function.update_of_ne]
    exact fun hc => he (congrArg Prod.fst hc).symm
  · rw [hv₂, hv₁, Function.update_of_ne]
    exact fun hc => he (congrArg Prod.fst hc).symm
  · have hqd : q ≠ d := by
      rintro rfl
      exact ne_of_target (s := .dir e') hd he hq
    have hqt : q ≠ pt := fun hc => ne_of_target (p := pt) hpt he (hc ▸ hq)
    funext i
    rw [hσ₂, Phys.mem_store, if_neg fun hc => hqt hc.1, hσ₁, Phys.mem_store,
      if_neg fun hc => hqd hc.1]
  · rw [ht₂]
    exact hq.2 s

end KeepsSpace

/-! ## System calls -/

/-- The same, for two states of the kernel. -/
abbrev KeepsSpaceOf (e : EnvIdx) (k k' : Kernel) : Prop :=
  KeepsSpace e k.phys k'.phys k.dirs k'.dirs

/-- A system call of `cur` that does not name `e` in a call on pages. -/
def Avoids (k : Kernel) (cur e : EnvIdx) (x : Call) : Prop :=
  (x.no = SYS_page_alloc ∨ x.no = SYS_page_map ∨ x.no = SYS_page_unmap →
      envid2env k cur x.a1 true ≠ some e) ∧
    (x.no = SYS_page_map → envid2env k cur x.a3 false ≠ some e)

instance (k : Kernel) (cur e : EnvIdx) (x : Call) : Decidable (Avoids k cur e x) := by
  unfold Avoids; infer_instance

section Calls

variable {k k₁ k' : Kernel} {c : Cpu} {cur : EnvIdx} {r : Word} {x : Call}

/-- Only records of the table change, and no directory in them. -/
theorem KeepsSpace.of_table (hphys : k'.phys = k.phys) (hdirs : k'.dirs = k.dirs) :
    KeepsSpaceOf e k k' := by
  unfold KeepsSpaceOf
  rw [hphys, hdirs]
  exact .refl

theorem KeepsSpace.setEnv (k : Kernel) (x : EnvIdx) (f : Env → Env)
    (hdir : (f (k.envs x)).envPgdir = (k.envs x).envPgdir) : KeepsSpaceOf e k (k.setEnv x f) := by
  refine .of_table rfl ?_
  rw [dirs_setEnv, hdir]
  exact Function.update_eq_self x k.dirs

theorem keepsSpace_alloc {envid : Word} (h : KMem managed tables k)
    (hx : sysPageAlloc k cur envid va perm = .ok (r, k'))
    (he : envid2env k cur envid true ≠ some e) :
    KeepsSpaceOf e k k' := by
  obtain ⟨free, hm⟩ := h
  unfold Jos.sysPageAlloc at hx
  obtain hf | ⟨e', hf⟩ := Option.eq_none_or_eq_some (envid2env k cur envid true)
  · rw [hf] at hx
    cases hx
    exact .refl
  have hne : e' ≠ e := by
    rintro rfl
    exact he hf
  simp only [hf] at hx
  by_cases hbad : UTOP ≤ va ∨ perm &&& ~~~PTE_SYSCALL ≠ 0
  · rw [if_pos hbad] at hx
    cases hx
    exact .refl
  rw [if_neg hbad] at hx
  have hva : va < UTOP := BitVec.not_le.1 fun hc => hbad (.inl hc)
  have hperm : perm &&& ~~~PTE_USER = 0 :=
    flags_trans (not_not.1 fun hc => hbad (.inr hc)) (by decide)
  cases free with
  | nil =>
    have hal : pageAlloc k.phys true = (none, k.phys) := by
      simp [pageAlloc, hm.pinv.head_eq_none]
    rw [hal] at hx
    cases hx
    exact .refl
  | cons p rest =>
    have halloc : KeepsSpace e k.phys (pageAlloc k.phys true).2 k.dirs k.dirs := .alloc hm true
    obtain ⟨hal, hm₁, -, -⟩ := hm.alloc true
    generalize pageAlloc k.phys true = al at hal hm₁ halloc hx
    obtain ⟨a, σ₁⟩ := al
    obtain rfl : a = some p := hal
    simp only at hx hm₁ halloc
    obtain ⟨d, hd, hret⟩ := bind_eq_ok.1 hx
    obtain ⟨⟨r₁, σ₂⟩, hins, hret⟩ := bind_eq_ok.1 hret
    have hheld : p ∈ insert p (∅ : Set Nat) := Set.mem_insert _ _
    obtain ⟨hpm, hpf, hpt, hz⟩ := hm₁.pinv.held_fresh hheld
    have hmap : MemInv.Mappable tables σ₁ k.dirs p :=
      ⟨hpt, fun s _ => hm₁.pinv.target_ne_held hheld s⟩
    have href : kernRefs tables p + refs (target σ₁ k.dirs) p + 1 < 2 ^ 16 := by
      rw [hz, kernRefs_of_notMem hpt]
      norm_num
    have hown : ¬ OwnPage σ₁ k.dirs e p := by
      rintro ⟨⟨_, _, htgt⟩, -⟩
      exact hm₁.pinv.target_ne_held hheld _ htgt
    rcases hm₁.insert (dirs_of_pgdir hd) hva hpm hpf hmap hperm (.inr href) with
      ⟨-, hno⟩ | ⟨σ', free', hok, hI, -⟩
    · rw [hno] at hins
      cases hins
      rw [if_pos (by decide : -E_NO_MEM ≠ 0)] at hret
      cases hret
      exact halloc.trans (.of_mem (mem_pageFree _ _))
    · rw [hok] at hins
      cases hins
      rw [if_neg fun hc => hc rfl] at hret
      cases hret
      exact halloc.trans (.inserted hm₁ hI hne hown)

theorem keepsSpace_map {srcenvid srcva dstenvid dstva : Word} (h : KMem managed tables k)
    (hok : MapOk k cur srcenvid srcva dstenvid dstva perm)
    (hx : sysPageMap k cur srcenvid srcva dstenvid dstva perm = .ok (r, k'))
    (hsrc : envid2env k cur srcenvid true ≠ some e)
    (hdst : envid2env k cur dstenvid false ≠ some e) :
    KeepsSpaceOf e k k' := by
  obtain ⟨free, hm⟩ := h
  rcases sysPageMap_ok hx with ⟨-, rfl⟩ | ⟨dst, p, d, htgt, hd, hins, hk'⟩
  · exact .refl
  obtain ⟨hperm, href⟩ := hok _ htgt
  obtain ⟨src, ds, pte, hs, hds, hsva, hdva, hsd, hl, -⟩ := mapTarget_some htgt
  obtain ⟨hp, -⟩ := hm.lookup_eq hsd hsva hl
  have hpm : p ∈ managed := hm.pinv.valid.tgt_mem (.pte src (PDX srcva) (PTX srcva)) p hp
  have hsne : src ≠ e := by
    rintro rfl
    exact hsrc hs
  have hdne : dst ≠ e := by
    rintro rfl
    exact hdst hds
  rcases hm.insert hd hdva hpm (hm.pinv.not_mem_free hp) (hm.data _ _ _ p hp) hperm
    (href.imp id (hm.room hpm)) with ⟨-, hno⟩ | ⟨σ', free', hins', hI, -⟩
  · rw [hno] at hins
    obtain ⟨-, hphys⟩ := Prod.mk.inj (Except.ok.inj hins)
    rw [hk', ← hphys]
    exact .refl
  · rw [hins'] at hins
    obtain ⟨-, hphys⟩ := Prod.mk.inj (Except.ok.inj hins)
    rw [hk', ← hphys]
    exact .inserted hm hI hdne (KeepsSpace.ne_of_target hp hsne)

theorem keepsSpace_unmap {envid : Word} (h : KMem managed tables k)
    (hx : sysPageUnmap k cur envid va = .ok (r, k')) (he : envid2env k cur envid true ≠ some e) :
    KeepsSpaceOf e k k' := by
  obtain ⟨free, hm⟩ := h
  unfold Jos.sysPageUnmap at hx
  obtain hf | ⟨e', hf⟩ := Option.eq_none_or_eq_some (envid2env k cur envid true)
  · rw [hf] at hx
    cases hx
    exact .refl
  have hne : e' ≠ e := by
    rintro rfl
    exact he hf
  simp only [hf] at hx
  by_cases hbad : checkAddrScale va 0 UTOP = false
  · rw [if_pos hbad] at hx
    cases hx
    exact .refl
  rw [if_neg hbad] at hx
  have hva : va < UTOP := by
    simp only [checkAddrScale, Bool.and_eq_false_iff, decide_eq_false_iff_not, not_or,
      not_not] at hbad
    exact hbad.1.2
  obtain ⟨d, hd, hret⟩ := bind_eq_ok.1 hx
  obtain ⟨σ₁, hrem, hret⟩ := bind_eq_ok.1 hret
  cases hret
  obtain ⟨σ', free', hok, -, hdrop, -, -⟩ :=
    hm.pinv.remove (dirs_of_pgdir hd) (PDX_user hva) fun q _ => (hm.noWrap q).le
  rw [hok] at hrem
  cases hrem
  exact .dropped hdrop hne rfl

theorem keepsSpace_send {envid value srcva : Word} (h : KMem managed tables k)
    (hid : ENVX (k.envs cur).envId = cur) (hok : SendOk k cur envid srcva perm)
    (hx : sysIpcTrySend k cur envid value srcva perm = .ok (r, k')) (hcur : cur ≠ e)
    (hrec : (k.envs e).envIpcRecving = false) : KeepsSpaceOf e k k' := by
  have hdirs := dirs_sysIpcTrySend hx
  rcases sysIpcTrySend_phys hx with
    ⟨hphys, -⟩ | ⟨uenv, d, r₁, σ, hf, hrec', hwant, hperm, rfl, hphys, hd, hl₀, hmap, -⟩
  · exact .of_table hphys hdirs
  have hd₀ := dirs_setIpcPerm k uenv 0
  have hphys₀ : (setIpcPerm k uenv 0).phys = k.phys := rfl
  have hfind := envid2env_setIpcPerm k uenv 0 cur
  have hdir : k.dirs uenv = some d := by
    rw [← hd₀]
    exact dirs_of_pgdir hd
  have hmapOk : MapOk (setIpcPerm k uenv 0) cur (k.envs cur).envId srcva envid
      (k.envs uenv).envIpcDstva perm := by
    intro y hy
    rw [mapTarget_congr hphys₀ hd₀ hfind] at hy
    refine ⟨flags_trans hperm (by decide), .inr (hok uenv hf hrec' hwant hperm ?_ y hy)⟩
    obtain ⟨-, -, -, -, -, -, hdva, -, -, -⟩ := mapTarget_some hy
    obtain ⟨free, hm⟩ := h
    obtain ⟨y₀, hy₀, hnone, -⟩ := hm.pinv.lookup hdir (PDX_user hdva)
    rw [hl₀] at hy₀
    cases hy₀
    exact named_eq_none.1 hnone.symm
  have h₀ : KMem managed tables (setIpcPerm k uenv 0) := by
    unfold KMem
    rw [hd₀]
    exact h
  have hstep : KeepsSpaceOf e (setIpcPerm k uenv 0) { setIpcPerm k uenv 0 with phys := σ } :=
    keepsSpace_map h₀ hmapOk hmap (fun hs => hcur (ENVX_found hid (hfind _ _ ▸ hs)).symm)
    fun hs => ?_
  · unfold KeepsSpaceOf
    rw [hphys, hdirs, ← hd₀]
    exact hstep
  · rw [hfind, hf, Option.some.injEq] at hs
    rw [hs, hrec] at hrec'
    cases hrec'

theorem keepsSpace_free (h : KMem managed tables k) (hfree : envFree k c e' = .ok k')
    (he : e' ≠ e) :
    KeepsSpaceOf e k k' := by
  obtain ⟨free, hm⟩ := h
  unfold Jos.envFree at hfree
  obtain ⟨d, hd, hret⟩ := bind_eq_ok.1 hfree
  obtain ⟨σ, hσ, hret⟩ := bind_eq_ok.1 hret
  cases hret
  have hd' : k.dirs e' = some d := by
    rw [← dirs_of_pgdir hd]
    simp [Kernel.dirs]
  obtain ⟨σ', free', hok, -, hdrop⟩ := hm.pinv.freeVm hd' hm.noWrap
  rw [phys_leave, hok] at hσ
  cases hσ
  unfold KeepsSpaceOf
  rw [dirs_retire]
  exact .dropped hdrop he (Function.update_of_ne he.symm _ _)

theorem keepsSpace_allocated (h : KInv managed tables k) {child : EnvIdx} {p : Nat} {env : Env}
    (hhead : k.envFreeList = some child) (hp : k.phys.pageFreeList = some p)
    (hpg : env.envPgdir = some p) (hid : ENVX env.envId = child) (he : k.dirs e ≠ none) :
    KeepsSpaceOf e k (allocated k child p env) := by
  obtain ⟨-, -, hdirs, hnone, -⟩ := h.allocated hhead hp hpg hid
  obtain ⟨free, hm⟩ := h.mem
  have hne : child ≠ e := by
    rintro rfl
    exact he hnone
  cases free with
  | nil =>
    rw [hm.pinv.head_eq_none] at hp
    cases hp
  | cons q rest =>
    obtain rfl : q = p := Option.some.inj (hm.pinv.head_eq.symm.trans hp)
    unfold KeepsSpaceOf
    rw [hdirs]
    exact .setupVm hm hnone hne

theorem keepsSpace_pushFrame {tf : Trapframe} {cr2 : Word} {d : Nat}
    (h : MemInv managed tables σ dirs free held) (hd : dirs cur = some d) (hcur : cur ≠ e)
    (hst : (uxFrame tf cr2).2.foldlM (kernStoreWord d) σ = .ok σ') :
    KeepsSpace e σ σ' dirs dirs := by
  have hbyte : ∀ {τ τ' : Phys} {va : Word} {b : BitVec 8}, va < UTOP →
    MemInv managed tables τ dirs free held →
      kernStoreByte τ d va b = .ok τ' →
      MemInv managed tables τ' dirs free held ∧ KeepsSpace e τ τ' dirs dirs := by
    intro τ τ' va b hva hτ hst
    unfold kernStoreByte at hst
    split_ifs at hst with hp
    cases hst
    exact ⟨(hτ.storeByte hd hva (by decide) hp b).1, .storeByte hτ hd hcur hva (by decide) hp b⟩
  refine (foldlM_invariant (P := fun τ => MemInv managed tables τ dirs free held ∧
    KeepsSpace e σ τ dirs dirs) ?_ ⟨h, .refl⟩ hst).2
  rintro ⟨a, w⟩ hy τ τ' ⟨hτ, hkeep⟩ hs
  have hlt := uxFrame_below tf cr2 hy
  unfold Jos.kernStoreWord at hs
  obtain ⟨σ₁, h₁, hs⟩ := bind_eq_ok.1 hs
  obtain ⟨σ₂, h₂, hs⟩ := bind_eq_ok.1 hs
  obtain ⟨σ₃, h₃, h₄⟩ := bind_eq_ok.1 hs
  rw [show (a, w).1 = a + 0#32 by simp] at h₁
  obtain ⟨m₁, k₁⟩ := hbyte (hlt 0#32 (by decide)) hτ h₁
  obtain ⟨m₂, k₂⟩ := hbyte (hlt 1#32 (by decide)) m₁ h₂
  obtain ⟨m₃, k₃⟩ := hbyte (hlt 2#32 (by decide)) m₂ h₃
  obtain ⟨m₄, k₄⟩ := hbyte (hlt 3#32 (by decide)) m₃ h₄
  exact ⟨m₄, (((hkeep.trans k₁).trans k₂).trans k₃).trans k₄⟩

/-- **A system call that returns.** -/
theorem keepsSpace_call (h : KInv managed tables k) (hdir : k.dirs cur ≠ none)
    (hok : CallOk k cur x) (hret : SysReturn c cur k x r k') (havoid : Avoids k cur e x)
    (hcur : cur ≠ e) (he : k.dirs e ≠ none) (hrec : (k.envs e).envIpcRecving = false)
    (hspare : ∀ e', x.no = SYS_env_destroy → envid2env k cur x.a1 true = some e' →
      (k.envs e').envStatus ≠ ENV_RUNNING → e' ≠ e) : KeepsSpaceOf e k k' := by
  cases hret with
  | same r hno hrecv => exact .refl
  | pageAlloc hno hx => exact keepsSpace_alloc h.mem hx (havoid.1 (.inl hno))
  | pageMap hno hx =>
    exact keepsSpace_map h.mem (hok.1 hno) hx (havoid.1 (.inr (.inl hno))) (havoid.2 hno)
  | pageUnmap hno hx => exact keepsSpace_unmap h.mem hx (havoid.1 (.inr (.inr hno)))
  | dying hno hf hr hne => exact .setEnv k _ _ rfl
  | free hno hf hr hne hfree => exact keepsSpace_free h.mem hfree (hspare _ hno hf hr)
  | setStatus hno hf hs => exact .setEnv k _ _ rfl
  | setUpcall hno hf => exact .setEnv k _ _ rfl
  | exofork hno hx =>
    have hhead : k.envFreeList ≠ some cur := h.head_ne hdir
    rcases sysExofork_ok hhead hx with rfl | ⟨child, p, hchild, hp, rfl⟩
    · exact .refl
    · exact keepsSpace_allocated h hchild hp rfl (ENVX_nextEnvId _ _) he
  | send hno hx => exact keepsSpace_send h.mem (h.tab.ids cur hdir) (hok.2 hno) hx hcur hrec

/-! ## Steps of the machine -/

variable {m m' : Smp} {tf : Trapframe} {cr2 input : Word} {a : SmpAct}

theorem phys_schedStart (k : Kernel) (c : Cpu) : (schedStart k c).2.phys = k.phys := by
  rcases schedStart_snd k c with heq | ⟨cur, -, -, heq⟩
  · rw [heq]
  · rw [heq]
    rfl

theorem KeepsSpace.run (hf : m.finish c (.run k e') = some m') : KeepsSpaceOf e k m'.k := by
  have hdir := sameTf_run hf
  obtain rfl := Option.some.inj hf
  exact .of_table (phys_envRun k c e') (funext fun x => (hdir x).dir)

theorem KeepsSpace.sched (hf : m.finish c (schedYield k c) = some m') : KeepsSpaceOf e k m'.k := by
  refine .of_table ?_ (funext fun x => (sameTf_sched hf x).dir)
  cases hs : schedYield k c with
  | run k₁ e₁ =>
    rw [hs] at hf
    obtain ⟨rfl, -⟩ := schedYield_run hs
    obtain rfl := Option.some.inj hf
    exact (phys_envRun _ c e₁).trans (phys_schedStart k c)
  | monitor k₁ =>
    rw [hs] at hf
    obtain rfl := Option.some.inj hf
    obtain rfl := schedYield_monitor hs
    exact phys_schedStart k c
  | panic msg =>
    rw [hs] at hf
    cases hf

theorem KeepsSpace.return (hcur : k.cpuEnv c = some cur)
    (hf : m.finish c (trapReturn k c) = some m') :
    KeepsSpaceOf e k m'.k := by
  rcases trapReturn_cases hcur with ⟨-, heq⟩ | ⟨-, heq⟩
  · rw [heq] at hf
    exact .run hf
  · rw [heq] at hf
    exact .sched hf

theorem Avoids.save (h : Avoids k cur e x) (tf : Trapframe) : Avoids (k.save cur tf) cur e x := by
  unfold Avoids
  rw [envid2env_save, envid2env_save]
  exact h

/-- **A trap of another environment**, up to `unlock_kernel`. -/
theorem keepsSpace_trap (h : KInv managed tables m.k) (hcur : m.k.cpuEnv c = some cur)
    (hdir : m.k.dirs cur = some (m.k.cr3 c)) (hok : TrapOk m.k cur tf)
    (havoid : tf.IsSyscall → Avoids m.k cur e tf.call) (hne : cur ≠ e)
    (hspare : ¬ Frees m.k cur tf e) (he : m.k.dirs e ≠ none)
    (hrec : (m.k.envs e).envIpcRecving = false)
    (hf : m.finish c (Jos.trap m.k c tf cr2 input) = some m') : KeepsSpaceOf e m.k m'.k := by
  have hentry : Entry c cur m.k tf cr2 input (Jos.trap m.k c tf cr2 input) := trap_cases hcur
  generalize Jos.trap m.k c tf cr2 input = exit at hentry hf
  have hlive : m.k.dirs cur ≠ none := by
    rw [hdir]
    exact Option.some_ne_none _
  have hsave : KeepsSpaceOf e m.k (m.k.save cur tf) := .setEnv m.k cur _ rfl
  have hsaved : KInv managed tables (m.k.save cur tf) := by
    have hkeep : MidKeeps managed tables c cur (fun _ => False) m.k (m.k.save cur tf) :=
      h.keeps_setEnv rfl rfl rfl fun _ => hlive
    exact hkeep.inv
  have hcur' : (m.k.save cur tf).cpuEnv c = some cur := hcur
  cases hentry with
  | panic msg => cases hf
  | @reap k' hd hfree =>
    have hgone : KeepsSpaceOf e m.k k' := keepsSpace_free h.mem hfree hne
    have hleave : KeepsSpaceOf e k' (k'.setCurenv c none) := .refl
    exact (hgone.trans hleave).trans (.sched hf)
  | @destroySelf k' hd hdoom hfree =>
    have hgone : KeepsSpaceOf e (m.k.save cur tf) k' := keepsSpace_free hsaved.mem hfree hne
    have hleave : KeepsSpaceOf e k' (k'.setCurenv c none) := .refl
    exact ((hsave.trans hgone).trans hleave).trans (.sched hf)
  | yield hd hno => exact hsave.trans (.sched hf)
  | monitor hd hbp =>
    obtain rfl := Option.some.inj hf
    exact hsave
  | irq hd hirq => exact hsave.trans (.return hcur' hf)
  | recv hd hsys hno hblk =>
    have hblock : KeepsSpaceOf e (m.k.save cur tf) (ipcBlock (m.k.save cur tf) cur tf.call.a1) :=
      .setEnv _ cur _ rfl
    exact (hsave.trans hblock).trans (.sched hf)
  | @call r k' hd hsys hrun hret =>
    have hdirs := dirs_save m.k cur tf
    have hrec' : ((m.k.save cur tf).envs e).envIpcRecving = false := by
      simp only [Kernel.save, Kernel.setEnv, Function.update_of_ne hne.symm]
      exact hrec
    have hfree : ∀ e', tf.call.no = SYS_env_destroy →
      envid2env (m.k.save cur tf) cur tf.call.a1 true = some e' →
        ((m.k.save cur tf).envs e').envStatus ≠ ENV_RUNNING → e' ≠ e := by
      rintro e' hno hfound hst rfl
      rw [envid2env_save] at hfound
      rw [(sameTable_save m.k cur tf).status] at hst
      apply hspare
      rw [Frees, if_neg hd]
      exact .inr ⟨hsys, hno, hfound, hst⟩
    have hcall : KeepsSpaceOf e (m.k.save cur tf) k' :=
      keepsSpace_call hsaved (by rw [hdirs]; exact hlive) ((hok hd hsys).save tf) hret
      ((havoid hsys).save tf)
        hne (by rw [hdirs]; exact he) hrec' hfree
    have hcpu : (k'.setEax cur r).cpuEnv c = some cur := by
      change k'.cpuEnv c = some cur
      rw [SysReturn.cpuEnv (k := m.k.save cur tf) (h.head_ne hlive) hret]
      exact hcur
    have heax : KeepsSpaceOf e k' (k'.setEax cur r) := .setEnv k' cur _ rfl
    exact ((hsave.trans hcall).trans heax).trans (.return hcpu hf)
  | @fault σ hd hpf hst =>
    obtain ⟨free, hm⟩ := h.mem
    have hpush : KeepsSpace e m.k.phys σ m.k.dirs m.k.dirs := keepsSpace_pushFrame hm hdir hne hst
    have hup : KeepsSpaceOf e m.k ((m.k.save cur tf).upcall cur σ cr2) := by
      have hdirs : ((m.k.save cur tf).upcall cur σ cr2).dirs = m.k.dirs := by
        rw [← dirs_save m.k cur tf, Kernel.upcall, dirs_setEnv]
        exact Function.update_eq_self cur _
      unfold KeepsSpaceOf
      rw [hdirs]
      exact hpush
    exact hup.trans (.run hf)

/-! ## Runs -/

/-- The step is none of environment `e`, does not free it and does not name it in a call on pages.
-/
def Aloof (e : EnvIdx) (m : Smp) : SmpAct → Prop
  | .trap c tf _ _ => ∀ cur, m.k.cpuEnv c = some cur →
      (cur ≠ e ∧ ¬ Frees m.k cur tf e) ∧ (tf.IsSyscall → Avoids m.k cur e tf.call)
  | .region e' _ _ => e' ≠ e
  | .store c _ _ => m.k.cpuEnv c ≠ some e
  | .touch c _ _ => m.k.cpuEnv c ≠ some e
  | _ => True

instance (e : EnvIdx) (m : Smp) (a : SmpAct) : Decidable (Aloof e m a) :=
  match a with
  | .trap _ _ _ _ => decidableForallSome _
  | .region _ _ _ => instDecidableNot
  | .store _ _ _ | .touch _ _ _ => instDecidableNot
  | .create _ _ | .start _ | .unlock _ | .lcr3 _ | .iret _ => instDecidableTrue

theorem Aloof.spares (h : Aloof e m a) : Spares e m a := by
  cases a with
  | trap c tf cr2 input => exact fun cur hcur => (h cur hcur).1
  | _ => trivial

theorem keepsSpace_region {va : Word} {contents : Idx → Word} (h : KMem managed tables k)
    (hva : va < UTOP) (hx : regionPage k e' va contents = some k') (he : e' ≠ e) :
    KeepsSpaceOf e k k' := by
  obtain ⟨free, hm⟩ := h
  unfold regionPage at hx
  split at hx
  · rename_i d p σ₁ hd hal
    cases free with
    | nil => simp [pageAlloc, hm.pinv.head_eq_none] at hal
    | cons q rest =>
      have halloc : KeepsSpace e k.phys (pageAlloc k.phys false).2 k.dirs k.dirs := .alloc hm false
      obtain ⟨hal₁, hm₁, -, -⟩ := hm.alloc false
      rw [hal] at hal₁ hm₁ halloc
      obtain rfl : p = q := Option.some.inj hal₁
      have hheld : p ∈ insert p (∅ : Set Nat) := Set.mem_insert _ _
      obtain ⟨hpm, hpf, hpt, hz⟩ := hm₁.pinv.held_fresh hheld
      have hmap : MemInv.Mappable tables σ₁ k.dirs p :=
        ⟨hpt, fun s _ => hm₁.pinv.target_ne_held hheld s⟩
      have href : kernRefs tables p + refs (target σ₁ k.dirs) p + 1 < 2 ^ 16 := by
        rw [hz, kernRefs_of_notMem hpt]
        norm_num
      have hown : ¬ OwnPage σ₁ k.dirs e p := by
        rintro ⟨⟨_, _, htgt⟩, -⟩
        exact hm₁.pinv.target_ne_held hheld _ htgt
      rcases hm₁.insert hd hva hpm hpf hmap
        (by decide : (PTE_U ||| PTE_P ||| PTE_W) &&& ~~~PTE_USER = 0)
          (.inr href) with
        ⟨-, hno⟩ | ⟨σ', free', hok, hI, hm₂⟩
      · rw [hno] at hx
        simp only at hx
        rw [if_neg (by decide : ¬ -E_NO_MEM = 0)] at hx
        cases hx
      · rw [hok] at hx
        simp only [if_true] at hx
        obtain rfl := Option.some.inj hx
        have htgt : target σ' k.dirs (.pte e' (PDX va) (PTX va)) = some p := by
          obtain ⟨pt, htgt, -⟩ := hI.tgt
          rw [htgt, Function.update_self]
        have hwrite :
            KeepsSpace e σ' { σ' with mem := Function.update σ'.mem p contents } k.dirs k.dirs :=
          .writeFrame hm₂ ⟨rfl, rfl, rfl, rfl, rfl⟩ (hm₂.data _ _ _ p htgt).2
            (fun f hf => Function.update_of_ne hf contents σ'.mem) (KeepsSpace.ne_of_target htgt he)
        exact (halloc.trans (.inserted hm₁ hI he hown)).trans hwrite
  · cases hx

theorem keepsSpace_create {type : EnvType} {eip : Word} (h : KInv managed tables k)
    (hx : envCreate k type eip = some k') (he : k.dirs e ≠ none) : KeepsSpaceOf e k k' := by
  unfold envCreate at hx
  split at hx
  · rename_i child k₁ hal
    rcases envAlloc_ok hal with ⟨r, hr, -⟩ | ⟨child', p, hc, hhead, hp, rfl⟩
    · cases hr
    obtain rfl : child = child' := Except.ok.inj hc
    obtain rfl := Option.some.inj hx
    have halloc : KeepsSpaceOf e k (allocated k child p (newEnv k 0 child p)) :=
      keepsSpace_allocated h hhead hp rfl (ENVX_nextEnvId _ _) he
    exact halloc.trans (.setEnv _ _ _ rfl)
  · cases hx

/-- **One step.** -/
theorem keepsSpace_step (h : SmpInv managed tables m) (hs : Sound m a) (ha : Aloof e m a)
    (he : m.k.dirs e ≠ none) (hrec : (m.k.envs e).envIpcRecving = false)
    (hstep : m.step a = some m') :
    KeepsSpaceOf e m.k m'.k := by
  cases step_cases hstep with
  | create hboot hk => exact keepsSpace_create h.kinv hk he
  | region hboot hva hk => exact keepsSpace_region h.kinv.mem hva hk ha
  | start hlock hphase hfirst hfin => exact .sched hfin
  | @trap c cur tf cr2 input _ hlock hphase hcs hcur hfin =>
    obtain ⟨cur', hcur', hdir⟩ := h.cpu c (.inr hphase)
    obtain rfl : cur = cur' := Option.some.inj (hcur.symm.trans hcur')
    obtain ⟨⟨hne, hspare⟩, havoid⟩ := ha cur hcur
    exact keepsSpace_trap h.kinv hcur hdir (hs cur hcur).1 havoid hne hspare he hrec hfin
  | unlock hphase => exact .refl
  | lcr3 hphase hk =>
    obtain ⟨e, d, -, -, rfl⟩ := lcr3Curenv_ok hk
    exact .refl
  | @iret c hphase =>
    refine .of_table ?_ (dirs_envPopTf m.k c)
    unfold envPopTf
    split <;> rfl
  | @store c va b hphase hva hp =>
    obtain ⟨e', he', hd⟩ := h.cpu c (.inr hphase)
    obtain ⟨free, hm⟩ := h.kinv.mem
    have hne : e' ≠ e := by
      rintro rfl
      exact ha he'
    exact .storeByte hm hd hne hva (by decide) hp b
  | @touch c va dirty hphase hva hp =>
    obtain ⟨e', he', hd⟩ := h.cpu c (.inr hphase)
    obtain ⟨free, hm⟩ := h.kinv.mem
    have hne : e' ≠ e := by
      rintro rfl
      exact ha he'
    exact .touch hm hd hne hva (by decide) hp dirty

theorem ownPage_of_ref (h : MemInv managed tables σ dirs free held) {i j : Idx}
    (htgt : target σ dirs (.pte e i j) = some p) (href : σ.ppRef p = 1) : OwnPage σ dirs e p := by
  refine ⟨⟨i, j, htgt⟩, fun s hs => ?_⟩
  have hpm : p ∈ managed := h.pinv.valid.tgt_mem (.pte e i j) p htgt
  have heq : σ.ppRef p = BitVec.ofNat 16 (kernRefs tables p + refs (target σ dirs) p) :=
    h.pinv.valid.ref_eq p hpm
  have hlt := h.noWrap p
  rw [kernRefs_of_notMem (h.data e i j p htgt).1, Nat.zero_add] at heq hlt
  have hone : refs (target σ dirs) p = 1 := by
    rw [href] at heq
    have := congrArg BitVec.toNat heq
    rw [BitVec.toNat_ofNat, Nat.mod_eq_of_lt hlt] at this
    exact this.symm
  obtain ⟨t, ht⟩ := Finset.card_eq_one.1 hone
  have hmem : ∀ u, target σ dirs u = some p → u = t := by
    intro u hu
    have : u ∈ (Finset.univ.filter fun s => target σ dirs s = some p) := by simpa using hu
    rw [ht] at this
    exact Finset.mem_singleton.1 this
  rw [(hmem s hs).trans (hmem _ htgt).symm]
  rfl

theorem KeepsSpace.access (h : KeepsSpace e σ σ' dirs dirs') (hd : dirs e = some d)
    (hva : va < UTOP) {bits : Word} (hbits : Present bits) :
    (Permits σ' d va bits ↔ Permits σ d va bits) ∧
      (Permits σ d va bits → OwnPage σ dirs e (mmuWord σ d va).1 →
        loadByte σ' d va = loadByte σ d va) := by
  have hd' : dirs' e = some d := h.dir.trans hd
  have hpde : σ'.mem d (PDX va) = σ.mem d (PDX va) := by
    rw [← pdes_of_dir hd' (PDX_user hva), h.pdes, pdes_of_dir hd (PDX_user hva)]
  have hpte : Present (σ.mem d (PDX va)) → mmuPte σ' d va = mmuPte σ d va := by
    intro hpres
    have hpt : target σ dirs (.pde e (PDX va)) = some (PGNUM (σ.mem d (PDX va))) := by
      rw [target, pdes_of_dir hd (PDX_user hva), named_of_present hpres]
    have hpt' : target σ' dirs' (.pde e (PDX va)) = some (PGNUM (σ.mem d (PDX va))) := by
      rw [target, h.pdes]
      exact hpt
    rw [mmuPte, hpde]
    exact (vm_of_present hpt' (PTX va)).symm.trans ((h.vm _ _).trans (vm_of_present hpt (PTX va)))
  refine ⟨?_, fun hp hown => ?_⟩
  · unfold Permits
    rw [hpde]
    refine and_congr_right fun hp => ?_
    rw [hpte (present_of_and hp hbits)]
  · have hword : mmuWord σ' d va = mmuWord σ d va := by
      unfold mmuWord
      rw [hpte (present_of_and hp.1 hbits)]
    rw [loadByte, loadByte, hword, Phys.load, Phys.load, h.mem _ hown]

/-- Two programs with a page each. The timer stops the first, and CPU 0 chooses the second. -/
def pairActs : List SmpAct :=
  List.replicate 8 (.create .IDLE 0x800020#32) ++
    [.create .USER 0x800020#32, .region 8 0x800000#32 fun _ => 7,
      .create .USER 0x800020#32, .region 9 0x800000#32 fun _ => 0] ++
    .start 0 :: leaveActs 0 ++ [tick 0]

/-- The second program stores to its page, gets another one and forks. -/
def busyActs : List SmpAct :=
  leaveActs 0 ++ [.touch 0 0x800000#32 true, .store 0 0x800000#32 1] ++
    callActs 0 SYS_page_alloc 0 0x801000#32 (PTE_P ||| PTE_U ||| PTE_W) 0 0 ++
    callActs 0 SYS_exofork 0 0 0 0 0

end Calls

end Jos
