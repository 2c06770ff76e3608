import Jos.Validation
import Jos.SysInv
import Jos.Vpt

/-!
# Address spaces under the calls on pages

What a user program can rely on when it builds address spaces with `sys_page_alloc`, `sys_page_map`
and `sys_page_unmap`: `SpaceInv`. To the accounting and the layout of `Jos.SysMem` it adds two facts
about directories: each maps itself at `UVPT`, and an entry gives user programs access to a table if
an entry of the table does to a page.

It leaves out the bounds on reference counts. A call that drops a reference asks for the bound on
the one page it drops, so `SpaceInv` survives any number of new references.

Each call sets one mapping and leaves the contents of all mapped pages alone (`PageStep`).
-/

namespace Jos

open Lib

/-- The address spaces and the memory they are in. -/
structure SpaceInv (managed tables : Set Nat) (σ : Phys) (dirs : EnvIdx → Option Nat)
    (free : List Nat) (held : Set Nat) : Prop where
  pinv : PInv managed (kernRefs tables) σ dirs free held
  layout : Layout tables σ dirs
  self : ∀ e d, dirs e = some d → σ.mem d (PDX UVPT) = page2pa d ||| PTE_P ||| PTE_U
  pde_u : ∀ e i j, vm σ dirs (e, i, j) &&& PTE_U ≠ 0 → pdes σ dirs (e, i) &&& PTE_U ≠ 0

/-- The page is mapped somewhere below `UTOP`. -/
def InUse (σ : Phys) (dirs : EnvIdx → Option Nat) (p : Nat) : Prop :=
  ∃ e i j, target σ dirs (.pte e i j) = some p

/-- One mapping is set, and the pages in use keep their contents. -/
structure PageStep (σ σ' : Phys) (dirs : EnvIdx → Option Nat) (x : MapIdx) (w : Word) : Prop where
  vm : vm σ' dirs = Function.update (vm σ dirs) x w
  mem : ∀ p, InUse σ dirs p → σ'.mem p = σ.mem p

variable {managed tables : Set Nat} {base : Nat → ℕ} {σ σ' : Phys} {dirs : EnvIdx → Option Nat}
  {free free' : List Nat} {held : Set Nat} {e : EnvIdx} {d p : Nat} {va perm : Word}

/-! ## Bits of entries -/

theorem and_or_ne_zero {v w m : Word} (h : v &&& m ≠ 0) : (v ||| w) &&& m ≠ 0 := by
  rw [BitVec.and_or_distrib_right]
  exact fun hc => h (BitVec.or_eq_zero_iff.1 hc).1

theorem or_and_or_ne_zero {v w m : Word} (h : w &&& m ≠ 0) : (v ||| w) &&& m ≠ 0 := by
  rw [BitVec.or_comm]
  exact and_or_ne_zero h

theorem page2pa_or_and (p : Nat) {m : Word} (hm : ~~~0xFFF#32 &&& m = 0) (f : Word) :
    (page2pa p ||| f) &&& m = f &&& m := by
  rw [BitVec.and_or_distrib_right, page2pa_and p hm]
  exact BitVec.zero_or

/-! ## The invariant -/

theorem PInv.remove_dir (h : PInv managed base σ dirs free held) (hd : dirs e = some d)
    (hi : (PDX va).User) (hx : pageRemove σ d va = .ok σ') {e' : EnvIdx} {d' : Nat}
    (hd' : dirs e' = some d') : σ'.mem d' = σ.mem d' := by
  cases hq : target σ dirs (.pte e (PDX va) (PTX va)) with
  | none =>
    rw [h.remove_none hd hi hq] at hx
    obtain rfl := Except.ok.inj hx
    rfl
  | some q =>
    obtain ⟨pt, hpt, hrem⟩ := h.remove_some hd hi hq
    rw [hrem] at hx
    obtain rfl := Except.ok.inj hx
    funext i
    rw [mem_dropPte, Phys.mem_store, if_neg fun hc => h.dir_ne_table hd' hpt hc.1]

namespace SpaceInv

theorem inUse (h : SpaceInv managed tables σ dirs free held) (hp : InUse σ dirs p) :
    p ∈ managed ∧ p ∉ free ∧ MemInv.Mappable tables σ dirs p := by
  obtain ⟨e, i, j, ht⟩ := hp
  exact ⟨h.pinv.valid.tgt_mem (.pte e i j) p ht, h.pinv.not_mem_free ht, h.layout.data e i j p ht⟩

theorem mem_of_inserted (h : SpaceInv managed tables σ dirs free held)
    (hI : Inserted managed (kernRefs tables) σ σ' dirs free free' held e p va perm) :
    PageStep σ σ' dirs (mapIdx e va) (page2pa p ||| perm ||| PTE_P) := by
  refine ⟨hI.vm, fun q hq => ?_⟩
  obtain ⟨-, hfree, -, htab⟩ := h.inUse hq
  exact hI.mem q (fun hc => htab (.dir e) trivial hc) (fun e' i => htab (.pde e' i) trivial) hfree

theorem congr {held' : Set Nat} (h : SpaceInv managed tables σ dirs free held)
    (hp : PInv managed (kernRefs tables) σ' dirs free' held') (hk : σ'.kernPgdir = σ.kernPgdir)
    (hkern : σ'.mem σ.kernPgdir = σ.mem σ.kernPgdir) (hpd : pdes σ' dirs = pdes σ dirs)
    (hvm : vm σ' dirs = vm σ dirs) (hdir : ∀ e d, dirs e = some d → σ'.mem d = σ.mem d) :
    SpaceInv managed tables σ' dirs free' held' := by
  refine ⟨hp, h.layout.congr hk hkern hpd hvm, fun e d hd => ?_, ?_⟩
  · rw [hdir e d hd, h.self e d hd]
  · rw [hvm, hpd]
    exact h.pde_u

/-- **`page_alloc`**: a zeroed page that nothing refers to. -/
theorem alloc {rest : List Nat} (h : SpaceInv managed tables σ dirs (p :: rest) held) :
    ∃ σ₁, pageAlloc σ true = (some p, σ₁) ∧ SpaceInv managed tables σ₁ dirs rest (insert p held) ∧
      pdes σ₁ dirs = pdes σ dirs ∧ vm σ₁ dirs = vm σ dirs ∧ σ₁.mem p = (fun _ => 0) ∧
      (∀ f ≠ p, σ₁.mem f = σ.mem f) ∧ ∀ q ≠ p, σ₁.ppRef q = σ.ppRef q := by
  obtain ⟨h₁, hp, hpd, hvm⟩ := h.pinv.alloc true
  have hhead := h.pinv.head_eq
  have hmem : ∀ f ≠ p, (pageAlloc σ true).2.mem f = σ.mem f := fun f hf => by
    rw [mem_pageAlloc hhead, if_neg fun hc => hf hc.2]
  have hfree : p ∈ managed := h.pinv.free_managed List.mem_cons_self
  refine ⟨(pageAlloc σ true).2, Prod.ext h₁ rfl, h.congr hp ?_ (hmem _ ?_) hpd hvm
    (fun e d hd => hmem d ?_), hpd, hvm, ?_, hmem, fun q hq => ?_⟩
  · simp [pageAlloc, hhead]
  · exact fun hc => h.pinv.kern (hc ▸ hfree)
  · exact fun hc => h.pinv.target_ne_free List.mem_cons_self (.dir e) (hc ▸ hd)
  · rw [mem_pageAlloc hhead, if_pos ⟨rfl, rfl⟩]
  · simp [pageAlloc, hhead, Function.update_of_ne hq]

/-- **`page_free`** of a page in hand. -/
theorem giveBack (h : SpaceInv managed tables σ dirs free held) (hp : p ∈ held) :
    SpaceInv managed tables (pageFree σ p) dirs (p :: free) (held \ {p}) := by
  have hmem := mem_pageFree σ p
  exact h.congr (h.pinv.giveBack hp) (kernPgdir_pageFree σ p) (by rw [hmem]) (pdes_of_mem hmem)
    (vm_of_mem hmem) fun e d _ => by rw [hmem]

theorem writeFrame (h : SpaceInv managed tables σ dirs free held) (hs : SameAlloc σ σ')
    (hp : InUse σ dirs p) (hmem : ∀ f ≠ p, σ'.mem f = σ.mem f) :
    SpaceInv managed tables σ' dirs free held ∧ vm σ' dirs = vm σ dirs ∧
      pdes σ' dirs = pdes σ dirs := by
  obtain ⟨hm, -, -, htab⟩ := h.inUse hp
  obtain ⟨hp', hpd, hvm⟩ := h.pinv.writeFrame hs htab hmem
  refine ⟨h.congr hp' hs.kernPgdir (hmem _ ?_) hpd hvm fun e d hd => hmem d ?_, hvm, hpd⟩
  · exact fun hc => h.pinv.kern (hc ▸ hm)
  · exact fun hc => htab (.dir e) trivial (hc ▸ hd)

/-- **`page_insert`** of a page that may be mapped. -/
theorem insert (h : SpaceInv managed tables σ dirs free held) (hd : dirs e = some d)
    (hva : va < UTOP) (hp : p ∈ managed) (hfree : p ∉ free) (hmap : MemInv.Mappable tables σ dirs p)
    (hperm : PTE_ADDR perm = 0)
    (hlt : ∀ q, target σ dirs (.pte e (PDX va) (PTX va)) = some q → q ≠ p →
      kernRefs tables q + refs (target σ dirs) q ≤ 2 ^ 16) :
    (free = [] ∧ target σ dirs (.pde e (PDX va)) = none ∧
        pageInsert σ d (some p) va perm = .ok (-E_NO_MEM, σ)) ∨
      ∃ σ' free', pageInsert σ d (some p) va perm = .ok (0, σ') ∧
        Inserted managed (kernRefs tables) σ σ' dirs free free' held e p va perm ∧
        SpaceInv managed tables σ' dirs free' (held \ {p}) := by
  rcases h.pinv.insert hd (PDX_user hva) hp hfree hperm hlt with hno | ⟨σ', free', hok, hI⟩
  · exact .inl hno
  refine .inr ⟨σ', free', hok, hI, hI.inv, h.layout.insert h.pinv hI hfree hmap,
    fun e' d' hd' => ?_,
    fun e' i j hu => ?_⟩
  · by_cases he : e' = e
    · subst he
      rw [hI.own d' hd' _ (by decide), h.self e' d' hd']
    · have hne : dirs e ≠ some d' := fun hc => he (h.pinv.dir_inj hd' hc)
      rw [hI.mem d' hne (fun e'' i hc => h.pinv.dir_ne_table hd' hc rfl)
        (h.pinv.not_mem_free (s := .dir e') hd'), h.self e' d' hd']
  · rw [hI.vm] at hu
    rw [hI.pdes]
    by_cases hx : (e', i, j) = (e, PDX va, PTX va)
    · obtain ⟨rfl, rfl, rfl⟩ : e' = e ∧ i = PDX va ∧ j = PTX va := by simpa using hx
      rw [Function.update_self, BitVec.or_assoc, page2pa_or_and p (by decide)] at hu
      rw [Function.update_self]
      exact or_and_or_ne_zero hu
    · rw [Function.update_of_ne hx] at hu
      have hold := h.pde_u e' i j hu
      by_cases hy : (e', i) = (e, PDX va)
      · obtain ⟨rfl, rfl⟩ : e' = e ∧ i = PDX va := by simpa using hy
        -- an entry below this one is in use, so the directory entry was there
        have hpr : Present (pdes σ dirs (e', PDX va)) := by
          by_contra hc
          rw [vm, if_neg hc] at hu
          exact hu (by simp)
        rw [Function.update_self, walkPde_of_present hpr]
        exact and_or_ne_zero hold
      · rw [Function.update_of_ne hy]
        exact hold

/-- **`page_remove`.** -/
theorem remove (h : SpaceInv managed tables σ dirs free held) (hd : dirs e = some d)
    (hva : va < UTOP)
    (hlt : ∀ q, target σ dirs (.pte e (PDX va) (PTX va)) = some q →
      kernRefs tables q + refs (target σ dirs) q ≤ 2 ^ 16) :
    ∃ σ' free', pageRemove σ d va = .ok σ' ∧ SpaceInv managed tables σ' dirs free' held ∧
      PageStep σ σ' dirs (mapIdx e va) 0 ∧ pdes σ' dirs = pdes σ dirs := by
  obtain ⟨σ', free', hok, hp, hdrop, hpd, hvm⟩ := h.pinv.remove hd (PDX_user hva) hlt
  refine ⟨σ', free', hok, ⟨hp, h.layout.of_dropped h.pinv hdrop (fun x _ => by rw [hpd]),
    fun e' d' hd' => ?_, fun e' i j hu => ?_⟩, ⟨hvm, fun q hq => ?_⟩, hpd⟩
  · rw [h.pinv.remove_dir hd (PDX_user hva) hok hd', h.self e' d' hd']
  · rw [hvm] at hu
    rw [hpd]
    by_cases hx : (e', i, j) = (e, PDX va, PTX va)
    · rw [hx, Function.update_self] at hu
      exact (hu (by simp)).elim
    · rw [Function.update_of_ne hx] at hu
      exact h.pde_u e' i j hu
  · exact hdrop.mem q fun s hs _ => (h.inUse hq).2.2.2 s hs

/-- **`env_setup_vm`.** -/
theorem setupVm {rest : List Nat} (h : SpaceInv managed tables σ dirs (p :: rest) held)
    (he : dirs e = none) :
    SpaceInv managed tables (initPgdir (pageAlloc σ true).2 p)
    (Function.update dirs e (some p)) rest
        held ∧
      vm (initPgdir (pageAlloc σ true).2 p) (Function.update dirs e (some p)) = vm σ dirs ∧
      (∀ x, x.1 ≠ e → pdes (initPgdir (pageAlloc σ true).2 p) (Function.update dirs e (some p)) x =
        pdes σ dirs x) ∧
      (∀ i, target (initPgdir (pageAlloc σ true).2 p) (Function.update dirs e (some p)) (.pde e i) =
        none) ∧
      ∀ f ≠ p, (initPgdir (pageAlloc σ true).2 p).mem f = σ.mem f := by
  obtain ⟨hp, htgt, hvm⟩ := h.pinv.setupVm h.layout.kern_dir he
  have hmem : ∀ f ≠ p, (initPgdir (pageAlloc σ true).2 p).mem f = σ.mem f := fun f hf => by
    rw [mem_initPgdir _ _ _ hf, mem_pageAlloc h.pinv.head_eq, if_neg fun hc => hf hc.2]
  have hdir : ∀ e' d', dirs e' = some d' → d' ≠ p := fun e' d' hd' hc =>
    h.pinv.target_ne_free List.mem_cons_self (.dir e') (hc ▸ hd')
  have hpd : ∀ x, x.1 ≠ e → pdes (initPgdir (pageAlloc σ true).2 p)
      (Function.update dirs e (some p)) x = pdes σ dirs x := by
    rintro ⟨e', i⟩ hx
    have hsame : pdes (initPgdir (pageAlloc σ true).2 p) dirs = pdes σ dirs :=
      pdes_congr fun e₁ d₁ hd₁ i₁ _ => by rw [hmem d₁ (hdir e₁ d₁ hd₁)]
    rw [pdes_update_dir, if_neg hx, hsame]
  refine ⟨⟨hp, h.layout.setupVm h.pinv he, fun e' d' hd' => ?_, fun e' i j hu => ?_⟩, hvm, hpd,
    fun i => ?_, hmem⟩
  · by_cases hee : e' = e
    · subst hee
      rw [Function.update_self, Option.some.injEq] at hd'
      subst hd'
      rw [initPgdir, Phys.mem_store, if_pos ⟨rfl, rfl⟩]
    · rw [Function.update_of_ne hee] at hd'
      rw [hmem d' (hdir e' d' hd'), h.self e' d' hd']
  · rw [hvm] at hu
    by_cases hee : e' = e
    · subst hee
      rw [vm_of_no_dir he] at hu
      exact (hu (by simp)).elim
    · rw [hpd _ hee]
      exact h.pde_u e' i j hu
  · rw [htgt, Function.update_of_ne (by simp)]
    simp [target, pdes, he]

end SpaceInv

/-! ## Counting -/

theorem Inserted.refs_le_add (hI : Inserted managed base σ σ' dirs free free' held e p va perm)
    (q : Nat) : refs (target σ' dirs) q ≤ refs (target σ dirs) q + 2 := by
  obtain ⟨pt, htgt, -⟩ := hI.tgt
  rw [htgt]
  have h₁ := refs_update_le (target σ dirs) (.pde e (PDX va)) (some pt) q
  have h₂ := refs_update_le (Function.update (target σ dirs) (.pde e (PDX va)) (some pt))
    (.pte e (PDX va) (PTX va)) (some p) q
  omega

/-- Only the page that is inserted gains a reference, or a free page that becomes a table. -/
theorem Inserted.refs_le
    (hI : Inserted managed base σ σ' dirs free free' held e p va perm) {q : Nat} (hqp : q ≠ p)
    (hfree : q ∉ free) : refs (target σ' dirs) q ≤ refs (target σ dirs) q := by
  obtain ⟨pt, htgt, hpt⟩ := hI.tgt
  refine refs_mono fun s hs => ?_
  rw [htgt] at hs
  by_cases hsp : s = .pte e (PDX va) (PTX va)
  · rw [hsp, Function.update_self, Option.some.injEq] at hs
    exact (hqp hs.symm).elim
  rw [Function.update_of_ne hsp] at hs
  by_cases hse : s = .pde e (PDX va)
  · subst hse
    rw [Function.update_self, Option.some.injEq] at hs
    subst hs
    exact hpt.resolve_right fun hc => hfree hc.2
  · rwa [Function.update_of_ne hse] at hs

/-! ## The calls -/

variable {k : Kernel} {cur src dst : EnvIdx}

theorem envid2env_zero (k : Kernel) (cur : EnvIdx) (b : Bool) : envid2env k cur 0 b = some cur := by
  simp [envid2env]

/-- **`sys_page_map`** of a mapped page: it sets the mapping, or finds no memory for a page table.
-/
theorem SpaceInv.sysPageMap {srcenvid srcva dstenvid dstva : Word}
    (h : SpaceInv managed tables k.phys k.dirs free ∅)
    (hs : envid2env k cur srcenvid true = some src) (hf : envid2env k cur dstenvid false = some dst)
    (hd : k.dirs src ≠ none) (hd' : k.dirs dst ≠ none) (hsrc : AddrOk srcva) (hdst : AddrOk dstva)
    (hp : target k.phys k.dirs (.pte src (PDX srcva) (PTX srcva)) = some p)
    (hperm : PTE_ADDR perm = 0)
    (hw : perm &&& PTE_W ≠ 0 → vm k.phys k.dirs (mapIdx src srcva) &&& PTE_W ≠ 0)
    (hlt : ∀ q, target k.phys k.dirs (.pte dst (PDX dstva) (PTX dstva)) = some q → q ≠ p →
      kernRefs tables q + refs (target k.phys k.dirs) q ≤ 2 ^ 16) :
    (free = [] ∧ target k.phys k.dirs (.pde dst (PDX dstva)) = none ∧
        sysPageMap k cur srcenvid srcva dstenvid dstva perm = .ok (-E_NO_MEM, k)) ∨
      ∃ σ' free', Jos.sysPageMap k cur srcenvid srcva dstenvid dstva perm =
          .ok (0, { k with phys := σ' }) ∧
        Inserted managed (kernRefs tables) k.phys σ' k.dirs free free' ∅ dst p dstva perm ∧
        SpaceInv managed tables σ' k.dirs free' ∅ := by
  obtain ⟨d, hd⟩ := Option.ne_none_iff_exists'.1 hd
  obtain ⟨d', hd'⟩ := Option.ne_none_iff_exists'.1 hd'
  obtain ⟨pt, hpt, hl⟩ := h.pinv.lookup_some hd (PDX_user hsrc.1) hp
  have hload : k.phys.load (pt, PTX srcva) = vm k.phys k.dirs (mapIdx src srcva) :=
    (vm_of_present hpt _).symm
  have heq : Jos.sysPageMap k cur srcenvid srcva dstenvid dstva perm =
      (pageInsert k.phys d' (some p) dstva perm).map fun y => (y.1, { k with phys := y.2 }) :=
    sysPageMap_of_source hs hf hd hd' hsrc hdst hl fun hc => hw hc.2 (hload ▸ hc.1)
  obtain ⟨hm, hfree, hmap⟩ := h.inUse ⟨src, _, _, hp⟩
  rcases h.insert hd' hdst.1 hm hfree hmap hperm
    hlt with ⟨hnil, hpde, hno⟩ | ⟨σ', free', hok, hI, h'⟩
  · refine .inl ⟨hnil, hpde, ?_⟩
    rw [heq, hno]
    rfl
  · refine .inr ⟨σ', free', ?_, hI, by simpa using h'⟩
    rw [heq, hok]
    rfl

/-- The page table that a mapping at `va` may need. -/
def tableNeed (k : Kernel) (e : EnvIdx) (va : Word) : ℕ :=
  if target k.phys k.dirs (.pde e (PDX va)) = none then 1 else 0

theorem tableNeed_le_one (k : Kernel) (e : EnvIdx) (va : Word) : tableNeed k e va ≤ 1 := by
  unfold tableNeed
  split_ifs <;> omega

/-- **`sys_page_alloc`** maps a zeroed page, if there is memory for it and its page table. -/
theorem SpaceInv.sysPageAlloc {envid : Word} (h : SpaceInv managed tables k.phys k.dirs free ∅)
    (hf : envid2env k cur envid true = some e) (hd : k.dirs e ≠ none) (hva : va < UTOP)
    (hperm : perm &&& ~~~PTE_SYSCALL = 0)
    (hlt : ∀ q, target k.phys k.dirs (.pte e (PDX va) (PTX va)) = some q →
      kernRefs tables q + refs (target k.phys k.dirs) q ≤ 2 ^ 16) :
    (free.length < 1 + tableNeed k e va ∧ ∃ σ', sysPageAlloc k cur envid va perm =
          .ok (-E_NO_MEM, { k with phys := σ' }) ∧ SpaceInv managed tables σ' k.dirs free ∅ ∧
        vm σ' k.dirs = vm k.phys k.dirs ∧ pdes σ' k.dirs = pdes k.phys k.dirs) ∨
      1 + tableNeed k e va ≤ free.length ∧ ∃ p rest σ₁ σ' free', free = p :: rest ∧
        Jos.sysPageAlloc k cur envid va perm = .ok (0, { k with phys := σ' }) ∧
        target σ₁ k.dirs = target k.phys k.dirs ∧ pdes σ₁ k.dirs = pdes k.phys k.dirs ∧
        (∀ q ≠ p, σ₁.ppRef q = k.phys.ppRef q) ∧
        Inserted managed (kernRefs tables) σ₁ σ' k.dirs rest free' {p} e p va perm ∧
        SpaceInv managed tables σ' k.dirs free' ∅ ∧
        PageStep k.phys σ' k.dirs (mapIdx e va) (page2pa p ||| perm ||| PTE_P) := by
  obtain ⟨d, hd⟩ := Option.ne_none_iff_exists'.1 hd
  have hbad : ¬ (UTOP ≤ va ∨ perm &&& ~~~PTE_SYSCALL ≠ 0) := by
    rintro (hc | hc)
    · exact absurd hva (BitVec.not_lt.2 hc)
    · exact hc hperm
  unfold Jos.sysPageAlloc
  simp only [hf, if_neg hbad]
  cases free with
  | nil =>
    have hal : pageAlloc k.phys true = (none, k.phys) := by simp [pageAlloc, h.pinv.head_eq_none]
    rw [hal]
    refine .inl ⟨?_, k.phys, rfl, h, rfl, rfl⟩
    rw [List.length_nil]
    omega
  | cons p rest =>
    obtain ⟨σ₁, hal, h₁, hpd, hvm, -, hmem, href⟩ := h.alloc
    have htgt := target_congr hpd hvm
    have hheld : p ∈ Insert.insert p (∅ : Set Nat) := Set.mem_insert _ _
    have hempty : Insert.insert p (∅ : Set Nat) \ {p} = ∅ := by simp
    obtain ⟨hpm, hpf, -, -⟩ := h₁.pinv.held_fresh hheld
    rw [hal]
    simp only [pgdir_of_dirs hd, ok_bind]
    rcases h₁.insert hd hva hpm hpf (h₁.pinv.held_mappable hheld) (PTE_ADDR_of_syscall hperm)
      (fun q hq _ => htgt ▸ hlt q (htgt ▸ hq)) with ⟨rfl, hpde, hno⟩ | ⟨σ', free', hok, hI, h'⟩
    · refine .inl ⟨?_, pageFree σ₁ p, ?_, ?_, ?_, ?_⟩
      · rw [tableNeed, if_pos (htgt ▸ hpde), List.length_singleton]
        omega
      · rw [hno, ok_bind]
        exact if_pos (show -E_NO_MEM ≠ 0 by decide)
      · have hback := h₁.giveBack hheld
        rwa [hempty] at hback
      · rw [vm_of_mem (mem_pageFree _ _), hvm]
      · rw [pdes_of_mem (mem_pageFree _ _), hpd]
    · refine .inr ⟨?_, p, rest, σ₁, σ', free', rfl, ?_, htgt, hpd, href, by simpa using hI,
        by rwa [hempty] at h', ?_, fun q hq => ?_⟩
      · obtain ⟨pt, -, hpt⟩ := hI.tgt
        rw [htgt] at hpt
        rw [tableNeed, List.length_cons]
        rcases hpt with hpt | ⟨-, hpt⟩
        · rw [if_neg (by simp [hpt])]
          omega
        · have := List.length_pos_of_mem hpt
          split_ifs <;> omega
      · rw [hok, ok_bind]
        exact if_neg (show ¬ (0 : Word) ≠ 0 by decide)
      · rw [hI.vm, hvm]
        rfl
      · have hq₁ : InUse σ₁ k.dirs q := by
          rw [InUse, htgt]
          exact hq
        have hne : q ≠ p := by
          rintro rfl
          exact (h.inUse hq).2.1 List.mem_cons_self
        rw [(h₁.mem_of_inserted hI).mem q hq₁, hmem q hne]

/-- **`sys_page_unmap`.** -/
theorem SpaceInv.sysPageUnmap {envid : Word} (h : SpaceInv managed tables k.phys k.dirs free ∅)
    (hf : envid2env k cur envid true = some e) (hd : k.dirs e ≠ none) (hva : AddrOk va)
    (hlt : ∀ q, target k.phys k.dirs (.pte e (PDX va) (PTX va)) = some q →
      kernRefs tables q + refs (target k.phys k.dirs) q ≤ 2 ^ 16) :
    ∃ σ' free', sysPageUnmap k cur envid va = .ok (0, { k with phys := σ' }) ∧
      SpaceInv managed tables σ' k.dirs free' ∅ ∧ PageStep k.phys σ' k.dirs (mapIdx e va) 0 ∧
        pdes σ' k.dirs = pdes k.phys k.dirs := by
  obtain ⟨d, hd⟩ := Option.ne_none_iff_exists'.1 hd
  obtain ⟨σ', free', hok, h', hstep⟩ := h.remove hd hva.1 hlt
  refine ⟨σ', free', ?_, h', hstep⟩
  unfold Jos.sysPageUnmap
  simp only [hf, if_neg fun hc => checkAddrScale_eq_false.1 hc hva, pgdir_of_dirs hd, ok_bind, hok]
  rfl

end Jos
