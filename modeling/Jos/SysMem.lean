import Jos.Accounting
import Jos.Entry

/-!
# The memory of the running system

`MemInv` is what the kernel relies on once environments run: the accounting of `PInv` with no
page at its limit of references, `kern_pgdir` empty below `UTOP`, and, of every page mapped
below `UTOP`, that it is a data page mapped with flags that user programs may have. Directory
entries always permit writes, so that the page table entry decides.

The system calls keep it as long as the flags passed to `page_insert` are flags and no reference
count wraps around. `sys_page_map` does not look at its flags, and nothing looks at the counts, so
both are conditions here (`MapOk`). `Jos.Switch` and `Jos.Mappings` put them on runs.
-/

namespace Jos

open Lib

/-- The flags a user mapping may have, the hardware's bits included. -/
def PTE_USER : Word := PTE_SYSCALL ||| PTE_A ||| PTE_D

/-- The flag bits of an entry. -/
def flagBits (w : Word) : Word := w &&& 0xFFF#32

/-- The memory of the running system; `held` are the pages in the hands of a system call. -/
structure MemInv (managed tables : Set Nat) (σ : Phys) (dirs : EnvIdx → Option Nat)
    (free : List Nat) (held : Set Nat) : Prop where
  pinv : PInv managed (kernRefs tables) σ dirs free held
  noWrap : NoWrap (kernRefs tables) (target σ dirs)
  kern_dir : KernDir σ
  pde_w : ∀ x, Present (pdes σ dirs x) → pdes σ dirs x &&& PTE_W = PTE_W
  flags : ∀ x, Present (vm σ dirs x) → flagBits (vm σ dirs x) &&& ~~~PTE_USER = 0
  data : ∀ e i j p, target σ dirs (.pte e i j) = some p →
    p ∉ tables ∧ ∀ s, s.IsTable → target σ dirs s ≠ some p

variable {managed tables : Set Nat} {σ σ' : Phys} {dirs dirs' : EnvIdx → Option Nat}
  {free free' : List Nat} {held : Set Nat} {e : EnvIdx} {d p : Nat} {va perm : Word}

/-! ## Flags -/

theorem and_not_eq_zero_iff {w m : Word} :
    w &&& ~~~m = 0 ↔ ∀ i, w.getLsbD i = true → m.getLsbD i = true := by
  constructor
  · intro h i hi
    have hlt : i < 32 := BitVec.lt_of_getLsbD hi
    have := congrArg (·.getLsbD i) h
    simpa [hi, hlt] using this
  · intro h
    ext i hi
    simp only [BitVec.getElem_and, BitVec.getElem_not]
    have := h i
    rw [BitVec.getLsbD_eq_getElem hi, BitVec.getLsbD_eq_getElem hi] at this
    cases hb : w[i] with
    | false => simp
    | true => simp [this hb]

theorem flags_trans {w m n : Word} (h : w &&& ~~~m = 0) (hmn : m &&& ~~~n = 0) :
    w &&& ~~~n = 0 := by
  rw [and_not_eq_zero_iff] at *
  exact fun i hi => hmn i (h i hi)

theorem flags_or {v w m : Word} (hv : v &&& ~~~m = 0) (hw : w &&& ~~~m = 0) :
    (v ||| w) &&& ~~~m = 0 := by
  rw [and_not_eq_zero_iff] at *
  intro i hi
  rw [BitVec.getLsbD_or, Bool.or_eq_true] at hi
  exact hi.elim (hv i) (hw i)

theorem PTE_ADDR_of_flags {f m : Word} (h : f &&& ~~~m = 0) (hm : PTE_ADDR m = 0) :
    PTE_ADDR f = 0 := by
  unfold PTE_ADDR at *
  rw [and_not_eq_zero_iff] at *
  exact fun i hi => hm i (h i hi)

theorem flagBits_page2pa (p : Nat) : flagBits (page2pa p) = 0#32 := by
  apply BitVec.eq_of_toNat_eq
  simp only [flagBits, page2pa, BitVec.toNat_and, BitVec.toNat_shiftLeft, BitVec.toNat_ofNat,
    Nat.shiftLeft_eq]
  rw [show 4095 % 2 ^ 32 = 2 ^ 12 - 1 by norm_num, Nat.and_two_pow_sub_one_eq_mod]
  omega

theorem flagBits_mk (hperm : perm &&& ~~~PTE_USER = 0) :
    flagBits (page2pa p ||| perm ||| PTE_P) &&& ~~~PTE_USER = 0 := by
  have hbits : flagBits (page2pa p ||| perm ||| PTE_P) =
      flagBits (page2pa p) ||| (flagBits perm ||| flagBits PTE_P) := by
    unfold flagBits
    ext i hi
    simp only [BitVec.getElem_and, BitVec.getElem_or]
    cases (page2pa p)[i] <;> cases perm[i] <;> cases PTE_P[i] <;> simp
  rw [hbits, flagBits_page2pa]
  refine flags_or (by decide) (flags_or ?_ (by decide))
  rw [and_not_eq_zero_iff] at *
  intro i hi
  rw [flagBits, BitVec.getLsbD_and, Bool.and_eq_true] at hi
  exact hperm i hi.1

/-! ## The operations on pages -/

/-- The part of the invariant that does not count: `kern_pgdir` is empty below `UTOP`, directory
entries permit writes, and a mapped page is no table. -/
structure Layout (tables : Set Nat) (σ : Phys) (dirs : EnvIdx → Option Nat) : Prop where
  kern_dir : KernDir σ
  pde_w : ∀ x, Present (pdes σ dirs x) → pdes σ dirs x &&& PTE_W = PTE_W
  data : ∀ e i j p, target σ dirs (.pte e i j) = some p →
    p ∉ tables ∧ ∀ s, s.IsTable → target σ dirs s ≠ some p

/-- The pages that may be mapped: a page in hand, or one that is mapped already. -/
def MemInv.Mappable (tables : Set Nat) (σ : Phys) (dirs : EnvIdx → Option Nat) (p : Nat) : Prop :=
  p ∉ tables ∧ ∀ s, s.IsTable → target σ dirs s ≠ some p

theorem and_PTE_W_iff {w : Word} : w &&& PTE_W = PTE_W ↔ w.getLsbD 1 = true := by
  have htwo : PTE_W = BitVec.twoPow 32 1 := by decide
  rw [htwo, BitVec.and_twoPow]
  cases w.getLsbD 1 <;> decide

theorem pde_w_or {w : Word} (h : w &&& PTE_W = PTE_W) (f : Word) : (w ||| f) &&& PTE_W = PTE_W := by
  rw [and_PTE_W_iff] at h ⊢
  rw [BitVec.getLsbD_or, h, Bool.true_or]

theorem PInv.held_fresh (h : PInv managed (kernRefs tables) σ dirs free held) (hp : p ∈ held) :
    p ∈ managed ∧ p ∉ free ∧ p ∉ tables ∧ refs (target σ dirs) p = 0 := by
  obtain ⟨hm, hz⟩ := h.valid.held_mem p hp
  change kernRefs tables p + refs (target σ dirs) p = 0 at hz
  refine ⟨hm, h.not_free_of_held hp, fun ht => ?_, by omega⟩
  rw [kernRefs_of_mem ht] at hz
  omega

theorem PInv.held_mappable (h : PInv managed (kernRefs tables) σ dirs free held) (hp : p ∈ held) :
    MemInv.Mappable tables σ dirs p :=
  ⟨(h.held_fresh hp).2.2.1, fun s _ => h.target_ne_held hp s⟩

namespace Layout

variable {base : Nat → ℕ}

theorem congr (h : Layout tables σ dirs) (hk : σ'.kernPgdir = σ.kernPgdir)
    (hmem : σ'.mem σ.kernPgdir = σ.mem σ.kernPgdir) (hpd : pdes σ' dirs = pdes σ dirs)
    (hvm : vm σ' dirs = vm σ dirs) : Layout tables σ' dirs := by
  refine ⟨h.kern_dir.congr hk hmem, ?_, ?_⟩
  · rw [hpd]
    exact h.pde_w
  · rw [target_congr hpd hvm]
    exact h.data

/-- **`page_alloc`.** -/
theorem alloc {rest : List Nat} (h : Layout tables σ dirs)
    (hp : PInv managed base σ dirs (p :: rest) held) (zero : Bool) :
    Layout tables (pageAlloc σ zero).2 dirs := by
  obtain ⟨-, -, hpd, hvm⟩ := hp.alloc zero
  have hpk : σ.kernPgdir ≠ p := fun hc => hp.kern (hc ▸ hp.free_managed List.mem_cons_self)
  refine h.congr (by simp [pageAlloc, hp.head_eq]) ?_ hpd hvm
  rw [mem_pageAlloc hp.head_eq, if_neg fun hc => hpk hc.2]

/-- **`page_insert`** of a page that may be mapped. -/
theorem insert (h : Layout tables σ dirs) (hp : PInv managed base σ dirs free held)
    (hI : Inserted managed base σ σ' dirs free free' held e p va perm) (hfree : p ∉ free)
    (hmap : MemInv.Mappable tables σ dirs p) : Layout tables σ' dirs := by
  have hpde := hI.pde_w fun x hx => and_PTE_W_iff.1 (h.pde_w x hx)
  refine ⟨?_, fun x hx => and_PTE_W_iff.2 (hpde x hx), ?_⟩
  · refine h.kern_dir.congr hI.kernPgdir (hI.mem _ ?_ ?_ ?_)
    · exact fun hc => hp.target_ne_kern (.dir e) hc
    · exact fun e' i => hp.target_ne_kern (.pde e' i)
    · exact fun hc => hp.kern (hp.free_managed hc)
  · obtain ⟨pt, htgt, hpt⟩ := hI.tgt
    -- the table that holds the entry is an old one, or was free
    have htab : ∀ s, s.IsTable → ∀ q, target σ' dirs s = some q →
        (∃ t, t.IsTable ∧ target σ dirs t = some q) ∨ q ∈ free := by
      intro s hs q hq
      rw [htgt] at hq
      have hne : s ≠ .pte e (PDX va) (PTX va) := by
        rintro rfl
        exact hs
      rw [Function.update_of_ne hne] at hq
      by_cases hse : s = .pde e (PDX va)
      · subst hse
        rw [Function.update_self, Option.some.injEq] at hq
        subst hq
        rcases hpt with hpt | ⟨-, hpt⟩
        · exact .inl ⟨.pde e (PDX va), trivial, hpt⟩
        · exact .inr hpt
      · rw [Function.update_of_ne hse] at hq
        exact .inl ⟨s, hs, hq⟩
    intro e' i j q hq
    rw [htgt] at hq
    by_cases hx : Slot.pte e' i j = .pte e (PDX va) (PTX va)
    · rw [hx, Function.update_self, Option.some.injEq] at hq
      subst hq
      refine ⟨hmap.1, fun s hs hc => ?_⟩
      rcases htab s hs _ hc with ⟨t, ht, htq⟩ | hf
      · exact hmap.2 t ht htq
      · exact hfree hf
    · rw [Function.update_of_ne hx, Function.update_of_ne (by simp)] at hq
      refine ⟨(h.data e' i j q hq).1, fun s hs hc => ?_⟩
      rcases htab s hs _ hc with ⟨t, ht, htq⟩ | hf
      · exact (h.data e' i j q hq).2 t ht htq
      · exact hp.not_mem_free hq hf

theorem of_dropped (h : Layout tables σ dirs) (hp : PInv managed base σ dirs free held)
    (hdrop : Dropped e σ dirs free σ' dirs' free')
    (hpd : ∀ x, Present (pdes σ' dirs' x) → pdes σ' dirs' x = pdes σ dirs x) :
    Layout tables σ' dirs' := by
  refine ⟨?_, ?_, ?_⟩
  · exact h.kern_dir.congr hdrop.kernPgdir (hdrop.mem _ fun s _ _ => hp.target_ne_kern s)
  · intro x hx
    have heq := hpd x hx
    rw [heq] at hx ⊢
    exact h.pde_w x hx
  · intro e' i j q hq
    obtain ⟨hnt, htab⟩ := h.data e' i j q (hdrop.tgt _ _ hq)
    exact ⟨hnt, fun s hs hc => htab s hs (hdrop.tgt _ _ hc)⟩

theorem pde_w_setup {rest : List Nat} (h : Layout tables σ dirs)
    (hp : PInv managed base σ dirs (p :: rest) held) (x : EnvIdx × Idx)
    (hx : Present (pdes (initPgdir (pageAlloc σ true).2 p) (Function.update dirs e (some p)) x)) :
    pdes (initPgdir (pageAlloc σ true).2 p) (Function.update dirs e (some p)) x &&& PTE_W =
      PTE_W := by
  obtain ⟨e', i⟩ := x
  have hpk : σ.kernPgdir ≠ p := fun hc => hp.kern (hc ▸ hp.free_managed List.mem_cons_self)
  have hmem : ∀ f ≠ p, (initPgdir (pageAlloc σ true).2 p).mem f = σ.mem f := by
    intro f hf
    rw [mem_initPgdir _ _ _ hf, mem_pageAlloc hp.head_eq, if_neg fun hc => hf hc.2]
  rw [pdes_update_dir] at hx ⊢
  by_cases he : e' = e
  · rw [if_pos he] at hx
    simp only at hx
    split_ifs at hx with hi
    · have hk : (pageAlloc σ true).2.kernPgdir = σ.kernPgdir := by simp [pageAlloc, hp.head_eq]
      rw [initPgdir_user hi, hk, mem_pageAlloc hp.head_eq, if_neg fun hc => hpk hc.2] at hx
      exact (h.kern_dir i hi hx).elim
    · exact (not_present_zero hx).elim
  · rw [if_neg he] at hx ⊢
    have hpd : pdes (initPgdir (pageAlloc σ true).2 p) dirs = pdes σ dirs := by
      refine pdes_congr fun e₁ d₁ hd₁ i₁ _ => ?_
      have hne : d₁ ≠ p := fun hc => hp.target_ne_free List.mem_cons_self (.dir e₁) (hc ▸ hd₁)
      rw [hmem d₁ hne]
    rw [hpd] at hx ⊢
    exact h.pde_w _ hx

/-- **`env_setup_vm`.** -/
theorem setupVm {rest : List Nat} (h : Layout tables σ dirs)
    (hp : PInv managed base σ dirs (p :: rest) held) (he : dirs e = none) :
    Layout tables (initPgdir (pageAlloc σ true).2 p) (Function.update dirs e (some p)) := by
  obtain ⟨-, htgt, -⟩ := hp.setupVm h.kern_dir he
  have hpk : σ.kernPgdir ≠ p := fun hc => hp.kern (hc ▸ hp.free_managed List.mem_cons_self)
  refine ⟨?_, h.pde_w_setup hp, ?_⟩
  · refine h.kern_dir.congr (kernPgdir_initPgdir _ p) ?_
    rw [mem_initPgdir _ _ _ hpk, mem_pageAlloc hp.head_eq, if_neg fun hc => hpk hc.2]
  · intro e' i j q hq
    rw [htgt, Function.update_of_ne (by simp)] at hq
    refine ⟨(h.data e' i j q hq).1, fun s hs hc => ?_⟩
    rw [htgt] at hc
    by_cases hse : s = .dir e
    · subst hse
      rw [Function.update_self, Option.some.injEq] at hc
      subst hc
      exact hp.target_ne_free List.mem_cons_self _ hq
    · rw [Function.update_of_ne hse] at hc
      exact (h.data e' i j q hq).2 s hs hc

end Layout

namespace MemInv

theorem layout (h : MemInv managed tables σ dirs free held) : Layout tables σ dirs :=
  ⟨h.kern_dir, h.pde_w, h.data⟩

theorem of_layout (hp : PInv managed (kernRefs tables) σ dirs free held)
    (hb : NoWrap (kernRefs tables) (target σ dirs)) (hl : Layout tables σ dirs)
    (hf : ∀ x, Present (vm σ dirs x) → flagBits (vm σ dirs x) &&& ~~~PTE_USER = 0) :
    MemInv managed tables σ dirs free held :=
  ⟨hp, hb, hl.kern_dir, hl.pde_w, hf, hl.data⟩

theorem alloc {rest : List Nat} (h : MemInv managed tables σ dirs (p :: rest) held) (zero : Bool) :
    (pageAlloc σ zero).1 = some p ∧
      MemInv managed tables (pageAlloc σ zero).2 dirs rest (insert p held) ∧
      vm (pageAlloc σ zero).2 dirs = vm σ dirs ∧
      target (pageAlloc σ zero).2 dirs = target σ dirs := by
  obtain ⟨h₁, hp, hpd, hvm⟩ := h.pinv.alloc zero
  have ht := target_congr hpd hvm
  refine ⟨h₁, of_layout hp ?_ (h.layout.alloc h.pinv zero) ?_, hvm, ht⟩
  · rw [ht]
    exact h.noWrap
  · rw [hvm]
    exact h.flags

/-- **`page_insert`** of a page that may be mapped. -/
theorem insert (h : MemInv managed tables σ dirs free held) (hd : dirs e = some d)
    (hva : va < UTOP) (hp : p ∈ managed) (hfree : p ∉ free) (hmap : Mappable tables σ dirs p)
    (hperm : perm &&& ~~~PTE_USER = 0)
    (href : target σ dirs (.pte e (PDX va) (PTX va)) = some p ∨
      kernRefs tables p + refs (target σ dirs) p + 1 < 2 ^ 16) :
    (free = [] ∧ pageInsert σ d (some p) va perm = .ok (-E_NO_MEM, σ)) ∨
      ∃ σ' free', pageInsert σ d (some p) va perm = .ok (0, σ') ∧
        Inserted managed (kernRefs tables) σ σ' dirs free free' held e p va perm ∧
        MemInv managed tables σ' dirs free' (held \ {p}) := by
  have haddr : PTE_ADDR perm = 0 := PTE_ADDR_of_flags hperm (by decide)
  rcases h.pinv.insert hd (PDX_user hva) hp hfree haddr (fun q _ _ => (h.noWrap q).le) with
    ⟨hnil, -, hno⟩ | ⟨σ', free', hok, hI⟩
  · exact .inl ⟨hnil, hno⟩
  refine .inr ⟨σ', free', hok, hI, of_layout hI.inv (hI.noWrap h.pinv h.noWrap hfree href)
    (h.layout.insert h.pinv hI hfree hmap) fun x hx => ?_⟩
  rw [hI.vm] at hx ⊢
  by_cases hxe : x = (e, PDX va, PTX va)
  · subst hxe
    rw [Function.update_self]
    exact flagBits_mk hperm
  · rw [Function.update_of_ne hxe] at hx ⊢
    exact h.flags x hx

theorem of_dropped (h : MemInv managed tables σ dirs free held)
    (hp : PInv managed (kernRefs tables) σ' dirs' free' held)
    (hdrop : Dropped e σ dirs free σ' dirs' free')
    (hpd : ∀ x, Present (pdes σ' dirs' x) → pdes σ' dirs' x = pdes σ dirs x)
    (hvm : ∀ x, Present (vm σ' dirs' x) → vm σ' dirs' x = vm σ dirs x) :
    MemInv managed tables σ' dirs' free' held := by
  refine of_layout hp (hdrop.noWrap h.noWrap) (h.layout.of_dropped h.pinv hdrop hpd) ?_
  intro x hx
  have heq := hvm x hx
  rw [heq] at hx ⊢
  exact h.flags x hx

/-- **`page_remove`.** -/
theorem remove (h : MemInv managed tables σ dirs free held) (hd : dirs e = some d)
    (hva : va < UTOP) :
    ∃ σ' free', pageRemove σ d va = .ok σ' ∧ MemInv managed tables σ' dirs free' held ∧
      σ'.kernPgdir = σ.kernPgdir ∧
      vm σ' dirs = Function.update (vm σ dirs) (e, PDX va, PTX va) 0 := by
  obtain ⟨σ', free', hok, hp, hdrop, hpd, hvm⟩ :=
    h.pinv.remove hd (PDX_user hva) fun q _ => (h.noWrap q).le
  refine ⟨σ', free', hok, h.of_dropped hp hdrop (fun x _ => by rw [hpd]) fun x hx => ?_,
    hdrop.kernPgdir, hvm⟩
  rw [hvm] at hx ⊢
  by_cases hxe : x = (e, PDX va, PTX va)
  · subst hxe
    rw [Function.update_self] at hx
    exact (not_present_zero hx).elim
  · rw [Function.update_of_ne hxe]

/-- **`env_free`** on the memory. -/
theorem freeVm (h : MemInv managed tables σ dirs free held) (hd : dirs e = some d) :
    ∃ σ' free', freeVm σ d = .ok σ' ∧
      MemInv managed tables σ' (Function.update dirs e none) free' held ∧
      σ'.kernPgdir = σ.kernPgdir ∧
      ∀ x, x.1 ≠ e → vm σ' (Function.update dirs e none) x = vm σ dirs x := by
  obtain ⟨σ', free', hok, hp, hdrop⟩ := h.pinv.freeVm hd h.noWrap
  refine ⟨σ', free', hok, h.of_dropped hp hdrop (fun x hx => ?_) fun x hx => ?_, hdrop.kernPgdir,
    hdrop.vm⟩
  · by_cases hxe : x.1 = e
    · rw [pdes, hxe, Function.update_self] at hx
      exact (not_present_zero hx).elim
    · exact hdrop.pdes x hxe
  by_cases hxe : x.1 = e
  · obtain ⟨e', i, j⟩ := x
    obtain rfl : e' = e := hxe
    rw [vm_of_no_dir (Function.update_self _ _ _)] at hx
    exact (not_present_zero hx).elim
  · exact hdrop.vm x hxe

/-- **`env_setup_vm`.** -/
theorem setupVm {rest : List Nat} (h : MemInv managed tables σ dirs (p :: rest) held)
    (he : dirs e = none) :
    MemInv managed tables (initPgdir (pageAlloc σ true).2 p) (Function.update dirs e (some p)) rest
      held ∧
      vm (initPgdir (pageAlloc σ true).2 p) (Function.update dirs e (some p)) = vm σ dirs := by
  obtain ⟨hp, htgt, hvm⟩ := h.pinv.setupVm h.kern_dir he
  have hz := (h.pinv.valid.mem_free p).1 List.mem_cons_self
  refine ⟨of_layout hp ?_ (h.layout.setupVm h.pinv he) ?_, hvm⟩
  · intro q
    rw [htgt]
    have hle := refs_update_le (target σ dirs) (.dir e) (some p) q
    by_cases hqp : q = p
    · subst hqp
      have := hz.2.1
      change kernRefs tables q + refs (target σ dirs) q = 0 at this
      omega
    · rw [refs_update_of_ne]
      · exact h.noWrap q
      · change dirs e ≠ some q
        rw [he]
        nofun
      · exact fun hc => hqp (Option.some.inj hc).symm
  · rw [hvm]
    exact h.flags

theorem writeFrame (h : MemInv managed tables σ dirs free held) (hs : SameAlloc σ σ')
    (hp : ∀ s, s.IsTable → target σ dirs s ≠ some p) (hpk : p ≠ σ.kernPgdir)
    (hmem : ∀ f ≠ p, σ'.mem f = σ.mem f) :
    MemInv managed tables σ' dirs free held ∧ vm σ' dirs = vm σ dirs := by
  obtain ⟨hp', hpd, hvm⟩ := h.pinv.writeFrame hs hp hmem
  refine ⟨of_layout hp' ?_ (h.layout.congr hs.kernPgdir (hmem _ hpk.symm) hpd hvm) ?_, hvm⟩
  · rw [target_congr hpd hvm]
    exact h.noWrap
  · rw [hvm]
    exact h.flags

/-- **`page_free`** of a page in hand. -/
theorem giveBack (h : MemInv managed tables σ dirs free held) (hp : p ∈ held) :
    MemInv managed tables (pageFree σ p) dirs (p :: free) (held \ {p}) := by
  have hmem := mem_pageFree σ p
  have hvm : vm (pageFree σ p) dirs = vm σ dirs := vm_of_mem hmem
  refine of_layout (h.pinv.giveBack hp) ?_ (h.layout.congr (kernPgdir_pageFree σ p) (by rw [hmem])
    (pdes_of_mem hmem) hvm) ?_
  · rw [target_of_mem hmem]
    exact h.noWrap
  · rw [hvm]
    exact h.flags

end MemInv

/-! ## Accesses through the MMU -/

theorem present_of_and {w m : Word} (h : w &&& m = m) (hm : Present m) : Present w := by
  rw [present_iff] at *
  rw [← h, BitVec.getLsbD_and, Bool.and_eq_true] at hm
  exact hm.1

/-- An address below `UTOP` that the MMU lets through leads to a data page. -/
theorem mmu_target (hd : dirs e = some d) (hva : va < UTOP) {bits : Word} (hbits : Present bits)
    (hp : Permits σ d va bits) :
    target σ dirs (.pte e (PDX va) (PTX va)) = some (mmuWord σ d va).1 ∧
      mmuPte σ d va = vm σ dirs (e, PDX va, PTX va) := by
  have hpde : pdes σ dirs (e, PDX va) = σ.mem d (PDX va) := pdes_of_dir hd (PDX_user hva)
  have hpt : target σ dirs (.pde e (PDX va)) = some (PGNUM (σ.mem d (PDX va))) := by
    simp only [target, hpde]
    exact named_of_present (present_of_and hp.1 hbits)
  have hvm : mmuPte σ d va = vm σ dirs (e, PDX va, PTX va) := by
    rw [vm_of_present hpt]
    rfl
  refine ⟨?_, hvm⟩
  simp only [target, ← hvm]
  exact named_of_present (present_of_and hp.2 hbits)

/-- A store to such an address changes no mapping. -/
theorem MemInv.storeByte (h : MemInv managed tables σ dirs free held) (hd : dirs e = some d)
    (hva : va < UTOP) {bits : Word} (hbits : Present bits) (hp : Permits σ d va bits)
    (b : BitVec 8) :
    MemInv managed tables (storeByte σ d va b) dirs free held ∧
      vm (Jos.storeByte σ d va b) dirs = vm σ dirs := by
  obtain ⟨htgt, -⟩ := mmu_target hd hva hbits hp
  have hm : (mmuWord σ d va).1 ∈ managed :=
    h.pinv.valid.tgt_mem (.pte e (PDX va) (PTX va)) _ htgt
  refine h.writeFrame (sameAlloc_store _ _ _) (h.data _ _ _ _ htgt).2 ?_ fun f hf => ?_
  · intro hc
    rw [hc] at hm
    exact h.pinv.kern hm
  · funext i
    rw [Jos.storeByte, Phys.mem_store, if_neg fun hc => hf hc.1]

theorem MemInv.kernStoreWord (h : MemInv managed tables σ dirs free held) (hd : dirs e = some d)
    {a w : Word} (ha : ∀ o : Word, o.toNat < 4 → a + o < UTOP)
    (hs : kernStoreWord d σ (a, w) = .ok σ') :
    MemInv managed tables σ' dirs free held ∧ vm σ' dirs = vm σ dirs ∧
      σ'.kernPgdir = σ.kernPgdir := by
  have hbyte : ∀ {τ τ' : Phys} {o : Word} {b : BitVec 8}, o.toNat < 4 →
      MemInv managed tables τ dirs free held → kernStoreByte τ d (a + o) b = .ok τ' →
      MemInv managed tables τ' dirs free held ∧ vm τ' dirs = vm τ dirs ∧
        τ'.kernPgdir = τ.kernPgdir := by
    intro τ τ' o b ho hτ hst
    unfold kernStoreByte at hst
    split_ifs at hst with hp
    cases hst
    obtain ⟨hm, hvm⟩ := hτ.storeByte hd (ha o ho) (by decide) hp b
    exact ⟨hm, hvm, rfl⟩
  unfold Jos.kernStoreWord at hs
  obtain ⟨σ₁, h₁, hs⟩ := bind_eq_ok.1 hs
  obtain ⟨σ₂, h₂, hs⟩ := bind_eq_ok.1 hs
  obtain ⟨σ₃, h₃, h₄⟩ := bind_eq_ok.1 hs
  rw [show (a, w).1 = a + 0#32 by simp] at h₁
  obtain ⟨m₁, v₁, k₁⟩ := hbyte (by decide) h h₁
  obtain ⟨m₂, v₂, k₂⟩ := hbyte (by decide) m₁ h₂
  obtain ⟨m₃, v₃, k₃⟩ := hbyte (by decide) m₂ h₃
  obtain ⟨m₄, v₄, k₄⟩ := hbyte (by decide) m₃ h₄
  exact ⟨m₄, by rw [v₄, v₃, v₂, v₁], by rw [k₄, k₃, k₂, k₁]⟩

/-! ## The system calls on pages -/

/-- The memory between system calls. -/
def KMem (managed tables : Set Nat) (k : Kernel) : Prop :=
  ∃ free, MemInv managed tables k.phys k.dirs free ∅

/-- Where the mappings of all environments are. -/
abbrev MapIdx := EnvIdx × Idx × Idx

/-- The place of the mapping of `e` at `va`. -/
def mapIdx (e : EnvIdx) (va : Word) : MapIdx := (e, PDX va, PTX va)

/-- What a system call does to memory: it keeps the invariant, and changes only the mappings at
places in `xs`. -/
structure MemStep (managed tables : Set Nat) (xs : MapIdx → Prop) (k k' : Kernel) : Prop where
  inv : KMem managed tables k'
  kern : k'.phys.kernPgdir = k.phys.kernPgdir
  vm : ∀ x, ¬ xs x → vm k'.phys k'.dirs x = vm k.phys k.dirs x

variable {k k' : Kernel} {cur : EnvIdx} {r : Word}

theorem dirs_of_pgdir (h : k.pgdir e = .ok d) : k.dirs e = some d := by
  unfold Kernel.pgdir at h
  unfold Kernel.dirs
  cases hd : (k.envs e).envPgdir with
  | none =>
    rw [hd] at h
    cases h
  | some d' =>
    rw [hd] at h
    rw [Except.ok.inj h]

theorem KMem.refl (h : KMem managed tables k) (xs : MapIdx → Prop) :
    MemStep managed tables xs k k := ⟨h, rfl, fun _ _ => rfl⟩

/-- **`sys_page_alloc`.** -/
theorem KMem.sysPageAlloc {envid : Word} (h : KMem managed tables k)
    (hx : sysPageAlloc k cur envid va perm = .ok (r, k')) :
    MemStep managed tables
      (fun x => ∃ e, envid2env k cur envid true = some e ∧ x = mapIdx e va) k k' := by
  obtain ⟨free, hm⟩ := h
  unfold Jos.sysPageAlloc at hx
  obtain hf | ⟨e, hf⟩ := Option.eq_none_or_eq_some (envid2env k cur envid true)
  · rw [hf] at hx
    cases hx
    exact KMem.refl ⟨free, hm⟩ _
  simp only [hf] at hx ⊢
  by_cases hbad : UTOP ≤ va ∨ perm &&& ~~~PTE_SYSCALL ≠ 0
  · rw [if_pos hbad] at hx
    cases hx
    exact KMem.refl ⟨free, hm⟩ _
  rw [if_neg hbad] at hx
  have hva : va < UTOP := BitVec.not_le.1 fun hc => hbad (.inl hc)
  have hperm : perm &&& ~~~PTE_USER = 0 :=
    flags_trans (not_not.1 fun hc => hbad (.inr hc)) (by decide)
  cases free with
  | nil =>
    have hal : pageAlloc k.phys true = (none, k.phys) := by
      simp [pageAlloc, hm.pinv.head_eq_none]
    rw [hal] at hx
    cases hx
    exact KMem.refl ⟨[], hm⟩ _
  | cons p rest =>
    obtain ⟨hal, hm₁, hvm₁, htgt₁⟩ := hm.alloc true
    have hk₁ : (pageAlloc k.phys true).2.kernPgdir = k.phys.kernPgdir := by
      simp [pageAlloc, hm.pinv.head_eq]
    generalize pageAlloc k.phys true = al at hal hm₁ hvm₁ htgt₁ hk₁ hx
    obtain ⟨a, σ₁⟩ := al
    obtain rfl : a = some p := hal
    simp only at hx hm₁ hvm₁ htgt₁ hk₁
    obtain ⟨d, hd, hret⟩ := bind_eq_ok.1 hx
    obtain ⟨⟨r₁, σ₂⟩, hins, hret⟩ := bind_eq_ok.1 hret
    have hheld : p ∈ insert p (∅ : Set Nat) := Set.mem_insert _ _
    obtain ⟨hpm, hpf, hpt, hz⟩ := hm₁.pinv.held_fresh hheld
    have hmap : MemInv.Mappable tables σ₁ k.dirs p :=
      ⟨hpt, fun s _ => hm₁.pinv.target_ne_held hheld s⟩
    have href : kernRefs tables p + refs (target σ₁ k.dirs) p + 1 < 2 ^ 16 := by
      rw [hz, kernRefs_of_notMem hpt]
      norm_num
    have hempty : insert p (∅ : Set Nat) \ {p} = ∅ := by simp
    rcases hm₁.insert (dirs_of_pgdir hd) hva hpm hpf hmap hperm (.inr href) with
      ⟨-, hno⟩ | ⟨σ', free', hok, hI, hm₂⟩
    · rw [hno] at hins
      cases hins
      rw [if_pos (by decide : -E_NO_MEM ≠ 0)] at hret
      cases hret
      have hg := hm₁.giveBack hheld
      rw [hempty] at hg
      refine ⟨⟨_, hg⟩, ?_, fun x _ => ?_⟩
      · exact (kernPgdir_pageFree _ _).trans hk₁
      · rw [← hvm₁]
        exact congrFun (vm_of_mem (mem_pageFree _ _)) x
    · rw [hok] at hins
      cases hins
      rw [if_neg fun hc => hc rfl] at hret
      cases hret
      rw [hempty] at hm₂
      refine ⟨⟨free', hm₂⟩, hI.kernPgdir.trans hk₁, fun x hxe => ?_⟩
      have hne : x ≠ (e, PDX va, PTX va) := by
        rintro rfl
        exact hxe ⟨e, rfl, rfl⟩
      change vm σ₂ k.dirs x = _
      rw [hI.vm, Function.update_of_ne hne, hvm₁]

/-- **`sys_page_unmap`.** -/
theorem KMem.sysPageUnmap {envid : Word} (h : KMem managed tables k)
    (hx : sysPageUnmap k cur envid va = .ok (r, k')) :
    MemStep managed tables
      (fun x => ∃ e, envid2env k cur envid true = some e ∧ x = mapIdx e va) k k' := by
  obtain ⟨free, hm⟩ := h
  unfold Jos.sysPageUnmap at hx
  obtain hf | ⟨e, hf⟩ := Option.eq_none_or_eq_some (envid2env k cur envid true)
  · rw [hf] at hx
    cases hx
    exact KMem.refl ⟨free, hm⟩ _
  simp only [hf] at hx ⊢
  by_cases hbad : checkAddrScale va 0 UTOP = false
  · rw [if_pos hbad] at hx
    cases hx
    exact KMem.refl ⟨free, hm⟩ _
  rw [if_neg hbad] at hx
  have hva : va < UTOP := by
    simp only [checkAddrScale, Bool.and_eq_false_iff, decide_eq_false_iff_not, not_or,
      not_not] at hbad
    exact hbad.1.2
  obtain ⟨d, hd, hret⟩ := bind_eq_ok.1 hx
  obtain ⟨σ₁, hrem, hret⟩ := bind_eq_ok.1 hret
  cases hret
  obtain ⟨σ', free', hok, hm', hkern, hvm⟩ := hm.remove (dirs_of_pgdir hd) hva
  rw [hok] at hrem
  cases hrem
  refine ⟨⟨free', hm'⟩, hkern, fun x hxe => ?_⟩
  have hne : x ≠ (e, PDX va, PTX va) := by
    rintro rfl
    exact hxe ⟨e, rfl, rfl⟩
  change vm σ₁ k.dirs x = _
  rw [hvm, Function.update_of_ne hne]

/-- The environment and the page with which `sys_page_map` calls `page_insert`, if it gets that
far. -/
def mapTarget (k : Kernel) (cur : EnvIdx) (srcenvid srcva dstenvid dstva perm : Word) :
    Option (EnvIdx × Nat) :=
  match envid2env k cur srcenvid true, envid2env k cur dstenvid false with
  | some srcE, some dstE =>
    if checkAddrScale srcva 0 UTOP = false ∨ checkAddrScale dstva 0 UTOP = false ∨
        PGOFF srcva ≠ 0 ∨ PGOFF dstva ≠ 0 then none
    else
      match k.dirs srcE with
      | none => none
      | some d =>
        match pageLookup k.phys d srcva with
        | .ok (some (srcPage, srcPte)) =>
          if k.phys.load srcPte &&& PTE_W = 0 ∧ perm &&& PTE_W ≠ 0 then none
          else some (dstE, srcPage)
        | _ => none
  | _, _ => none

theorem mapTarget_some {srcenvid srcva dstenvid dstva : Word}
    (h : mapTarget k cur srcenvid srcva dstenvid dstva perm = some (e, p)) :
    ∃ srcE d pte, envid2env k cur srcenvid true = some srcE ∧
      envid2env k cur dstenvid false = some e ∧ srcva < UTOP ∧ dstva < UTOP ∧
      k.dirs srcE = some d ∧ pageLookup k.phys d srcva = .ok (some (p, pte)) ∧
      (perm &&& PTE_W ≠ 0 → k.phys.load pte &&& PTE_W ≠ 0) := by
  unfold mapTarget at h
  split at h
  · rename_i srcE dstE hsrc hdst
    split_ifs at h with hbad
    simp only [not_or] at hbad
    have hlt : ∀ {va : Word}, ¬ checkAddrScale va 0 UTOP = false → va < UTOP := by
      intro va hva
      simp only [checkAddrScale, Bool.and_eq_false_iff, decide_eq_false_iff_not, not_or,
        not_not] at hva
      exact hva.1.2
    split at h
    · cases h
    · rename_i d hd
      split at h
      · rename_i srcPage srcPte hl
        split_ifs at h with hw
        cases h
        exact ⟨srcE, d, srcPte, hsrc, hdst, hlt hbad.1, hlt hbad.2.1, hd, hl,
          fun hp hz => hw ⟨hz, hp⟩⟩
      · cases h
  · cases h

/-- `sys_page_map` does nothing, or calls `page_insert`. -/
theorem sysPageMap_ok {srcenvid srcva dstenvid dstva : Word}
    (h : sysPageMap k cur srcenvid srcva dstenvid dstva perm = .ok (r, k')) :
    r ≠ 0 ∧ k' = k ∨ ∃ dstE p d, mapTarget k cur srcenvid srcva dstenvid dstva
    perm = some (dstE, p) ∧
      k.dirs dstE = some d ∧ pageInsert k.phys d (some p) dstva perm = .ok (r, k'.phys) ∧
      k' = { k with phys := k'.phys } := by
  unfold sysPageMap at h
  split at h
  · rename_i srcE dstE hsrc hdst
    split_ifs at h with hbad
    · cases h
      exact .inl ⟨by decide, rfl⟩
    · obtain ⟨d, hd, h⟩ := bind_eq_ok.1 h
      obtain ⟨y, hl, h⟩ := bind_eq_ok.1 h
      split at h
      · cases h
        exact .inl ⟨by decide, rfl⟩
      · rename_i srcPage srcPte
        simp only [pure_eq_ok] at h
        split_ifs at h with hw
        · cases h
          exact .inl ⟨by decide, rfl⟩
        · obtain ⟨d', hd', h⟩ := bind_eq_ok.1 h
          obtain ⟨⟨r', σ'⟩, hins, h⟩ := bind_eq_ok.1 h
          cases h
          refine .inr ⟨dstE, srcPage, d', ?_, dirs_of_pgdir hd', hins, rfl⟩
          simp only [mapTarget, hsrc, hdst, if_neg hbad, dirs_of_pgdir hd, hl, if_neg hw]
  · cases h
    exact .inl ⟨by decide, rfl⟩

/-- What `sys_page_map` should look at and does not: the flags are flags, and the page has room
for another reference. -/
def MapOk (k : Kernel) (cur : EnvIdx) (srcenvid srcva dstenvid dstva perm : Word) : Prop :=
  ∀ y, mapTarget k cur srcenvid srcva dstenvid dstva perm = some y →
    perm &&& ~~~PTE_USER = 0 ∧
      (named (vm k.phys k.dirs (y.1, PDX dstva, PTX dstva)) = some y.2 ∨
        k.phys.ppRef y.2 ≠ 65535#16)

instance (k : Kernel) (cur : EnvIdx) (srcenvid srcva dstenvid dstva perm : Word) :
    Decidable (MapOk k cur srcenvid srcva dstenvid dstva perm) :=
  inferInstanceAs (Decidable (∀ y, mapTarget k cur srcenvid srcva dstenvid dstva perm = some y →
    perm &&& ~~~PTE_USER = 0 ∧
      (named (vm k.phys k.dirs (y.1, PDX dstva, PTX dstva)) = some y.2 ∨
        k.phys.ppRef y.2 ≠ 65535#16)))

theorem MemInv.lookup_eq (h : MemInv managed tables σ dirs free held) (hd : dirs e = some d)
    (hva : va < UTOP) {pte : PtePtr} (hl : pageLookup σ d va = .ok (some (p, pte))) :
    target σ dirs (.pte e (PDX va) (PTX va)) = some p ∧
      σ.load pte = vm σ dirs (e, PDX va, PTX va) := by
  obtain ⟨y, hy, hmap, hpte⟩ := h.pinv.lookup hd (PDX_user hva)
  rw [hl] at hy
  cases hy
  obtain ⟨hpt, hj⟩ := hpte p pte rfl
  refine ⟨hmap.symm, ?_⟩
  rw [vm_of_present hpt, ← hj]
  rfl

theorem present_of_target {i j : Idx} (h : target σ dirs (.pte e i j) = some p) :
    Present (vm σ dirs (e, i, j)) ∧ PGNUM (vm σ dirs (e, i, j)) = p := by
  simp only [target, named] at h
  split_ifs at h with hp
  exact ⟨hp, Option.some.inj h⟩

theorem MemInv.room (h : MemInv managed tables σ dirs free held) (hp : p ∈ managed)
    (href : σ.ppRef p ≠ 65535#16) : kernRefs tables p + refs (target σ dirs) p + 1 < 2 ^ 16 := by
  have hlt := h.noWrap p
  have heq : σ.ppRef p = BitVec.ofNat 16 (kernRefs tables p + refs (target σ dirs) p) :=
    h.pinv.valid.ref_eq p hp
  by_contra hge
  apply href
  rw [heq]
  apply BitVec.eq_of_toNat_eq
  rw [BitVec.toNat_ofNat, BitVec.toNat_ofNat]
  omega

/-- The mapping of environment `dst` at `dstva` in `k'` names the frame that `src` had at `srcva`
in `k`, and grants no more than `src` had. -/
structure Shares (k k' : Kernel) (src : EnvIdx) (srcva : Word) (dst : EnvIdx) (dstva : Word) :
    Prop where
  present : Present (vm k.phys k.dirs (src, PDX srcva, PTX srcva))
  present' : Present (vm k'.phys k'.dirs (dst, PDX dstva, PTX dstva))
  frame : PGNUM (vm k'.phys k'.dirs (dst, PDX dstva, PTX dstva)) =
    PGNUM (vm k.phys k.dirs (src, PDX srcva, PTX srcva))
  write : vm k'.phys k'.dirs (dst, PDX dstva, PTX dstva) &&& PTE_W ≠ 0 →
    vm k.phys k.dirs (src, PDX srcva, PTX srcva) &&& PTE_W ≠ 0

theorem and_PTE_W_mk (p : Nat) (perm : Word) :
    (page2pa p ||| perm ||| PTE_P) &&& PTE_W = perm &&& PTE_W := by
  have h₁ : page2pa p &&& PTE_W = 0#32 := by
    have hz := flagBits_page2pa p
    have hW : PTE_W = 0xFFF#32 &&& PTE_W := by decide
    rw [hW, ← BitVec.and_assoc]
    change flagBits (page2pa p) &&& PTE_W = 0#32
    rw [hz]
    simp
  have h₂ : PTE_P &&& PTE_W = 0#32 := by decide
  rw [BitVec.and_comm, BitVec.and_or_distrib_left, BitVec.and_or_distrib_left,
    BitVec.and_comm PTE_W, h₁, BitVec.and_comm PTE_W PTE_P, h₂, BitVec.and_comm PTE_W]
  simp

theorem Shares.of_vm {src dst : EnvIdx} {srcva dstva : Word}
    (hp : target k.phys k.dirs (.pte src (PDX srcva) (PTX srcva)) = some p) (hlt : p < 2 ^ 20)
    (haddr : PTE_ADDR perm = 0)
    (hvm : vm k'.phys k'.dirs (dst, PDX dstva, PTX dstva) = page2pa p ||| perm ||| PTE_P)
    (hw : perm &&& PTE_W ≠ 0 → vm k.phys k.dirs (src, PDX srcva, PTX srcva) &&& PTE_W ≠ 0) :
    Shares k k' src srcva dst dstva := by
  obtain ⟨hpres, hnum⟩ := present_of_target hp
  refine ⟨hpres, ?_, ?_, ?_⟩
  · rw [hvm]
    exact present_or_PTE_P _
  · rw [hvm, BitVec.or_assoc, hnum]
    exact PGNUM_page2pa_or hlt (by simp [PTE_ADDR_or, haddr])
  · rw [hvm, and_PTE_W_mk]
    exact hw

/-- **`sys_page_map`.** -/
theorem KMem.sysPageMap {srcenvid srcva dstenvid dstva : Word} (h : KMem managed tables k)
    (hok : MapOk k cur srcenvid srcva dstenvid dstva perm)
    (hx : sysPageMap k cur srcenvid srcva dstenvid dstva perm = .ok (r, k')) :
    MemStep managed tables (fun x => r = 0 ∧
        ∃ e, envid2env k cur dstenvid false = some e ∧ x = mapIdx e dstva) k k' ∧
      (r ≠ 0 → k' = k) ∧
      (r = 0 → ∃ src dst, envid2env k cur srcenvid true = some src ∧
        envid2env k cur dstenvid false = some dst ∧ Shares k k' src srcva dst dstva) := by
  obtain ⟨free, hm⟩ := h
  rcases sysPageMap_ok hx with ⟨hr, rfl⟩ | ⟨dst, p, d, htgt, hd, hins, hk'⟩
  · exact ⟨KMem.refl ⟨free, hm⟩ _, fun _ => rfl, fun hc => (hr hc).elim⟩
  obtain ⟨hperm, href⟩ := hok _ htgt
  obtain ⟨src, ds, pte, hsrc, hdst, hsva, hdva, hds, hl, hw⟩ := mapTarget_some htgt
  obtain ⟨hp, hload⟩ := hm.lookup_eq hds hsva hl
  have hpm : p ∈ managed := hm.pinv.valid.tgt_mem (.pte src (PDX srcva) (PTX srcva)) p hp
  have hroom : target k.phys k.dirs (.pte dst (PDX dstva) (PTX dstva)) = some p ∨
      kernRefs tables p + refs (target k.phys k.dirs) p + 1 < 2 ^ 16 :=
    href.imp id (hm.room hpm)
  have hdirs : k'.dirs = k.dirs := by
    rw [hk']
    rfl
  rcases hm.insert hd hdva hpm (hm.pinv.not_mem_free hp) (hm.data _ _ _ p hp) hperm hroom with
    ⟨-, hno⟩ | ⟨σ', free', hins', hI, hm'⟩
  · rw [hno] at hins
    obtain ⟨rfl, hphys⟩ := Prod.mk.inj (Except.ok.inj hins)
    have hkk : k' = k := by
      rw [hk', ← hphys]
    subst hkk
    exact ⟨KMem.refl ⟨free, hm⟩ _, fun _ => rfl, fun hc => absurd hc (by decide)⟩
  · rw [hins'] at hins
    obtain ⟨rfl, rfl⟩ := Prod.mk.inj (Except.ok.inj hins)
    have hempty : (∅ : Set Nat) \ {p} = ∅ := by simp
    rw [hempty] at hm'
    have hvm : vm k'.phys k'.dirs (dst, PDX dstva, PTX dstva) = page2pa p ||| perm ||| PTE_P := by
      rw [hdirs, hI.vm, Function.update_self]
    have haddr : PTE_ADDR perm = 0 := PTE_ADDR_of_flags hperm (by decide)
    refine ⟨⟨⟨free', by rwa [hdirs]⟩, hI.kernPgdir, fun x hxe => ?_⟩, fun hc => (hc rfl).elim,
      fun _ => ⟨src, dst, hsrc, hdst, ?_⟩⟩
    · have hne : x ≠ (dst, PDX dstva, PTX dstva) := by
        rintro rfl
        exact hxe ⟨rfl, dst, hdst, rfl⟩
      rw [hdirs, hI.vm, Function.update_of_ne hne]
    · exact .of_vm hp (hm.pinv.lt_two_pow hpm) haddr hvm (hload ▸ hw)

/-! ### IPC -/

theorem dirs_setIpcPerm (k : Kernel) (e : EnvIdx) (v : Word) :
    (setIpcPerm k e v).dirs = k.dirs := by
  rw [setIpcPerm, dirs_setEnv]
  exact Function.update_eq_self e k.dirs

theorem envid2env_setIpcPerm (k : Kernel) (e : EnvIdx) (v : Word) (cur : EnvIdx) (envid : Word)
    (b : Bool) : envid2env (setIpcPerm k e v) cur envid b = envid2env k cur envid b := by
  have hread : ∀ e', ((setIpcPerm k e v).envs e').envStatus = (k.envs e').envStatus ∧
      ((setIpcPerm k e v).envs e').envId = (k.envs e').envId ∧
      ((setIpcPerm k e v).envs e').envParentId = (k.envs e').envParentId := by
    intro e'
    by_cases he : e' = e
    · subst he
      simp [setIpcPerm, Kernel.setEnv]
    · simp [setIpcPerm, Kernel.setEnv, he]
  unfold envid2env
  simp only [(hread _).1, (hread _).2.1, (hread _).2.2]

theorem mapTarget_congr (hphys : k'.phys = k.phys) (hdirs : k'.dirs = k.dirs)
    (hfind : ∀ envid b, envid2env k' cur envid b = envid2env k cur envid b)
    (srcenvid srcva dstenvid dstva perm : Word) :
    mapTarget k' cur srcenvid srcva dstenvid dstva perm =
      mapTarget k cur srcenvid srcva dstenvid dstva perm := by
  unfold mapTarget
  simp only [hfind, hdirs, hphys]

/-- What `sys_ipc_try_send` should look at before it maps a page. -/
def SendOk (k : Kernel) (cur : EnvIdx) (envid srcva perm : Word) : Prop :=
  ∀ uenv, envid2env k cur envid false = some uenv → (k.envs uenv).envIpcRecving = true →
    WantsPage k uenv srcva → perm &&& ~~~PTE_SYSCALL = 0 →
    ¬ Present (vm k.phys k.dirs
      (uenv, PDX (k.envs uenv).envIpcDstva, PTX (k.envs uenv).envIpcDstva)) →
    ∀ y, mapTarget k cur (k.envs cur).envId srcva envid (k.envs uenv).envIpcDstva perm = some y →
      k.phys.ppRef y.2 ≠ 65535#16

instance (k : Kernel) (cur : EnvIdx) (envid srcva perm : Word) :
    Decidable (SendOk k cur envid srcva perm) :=
  inferInstanceAs (Decidable (∀ uenv, envid2env k cur envid false = some uenv →
    (k.envs uenv).envIpcRecving = true → WantsPage k uenv srcva → perm &&& ~~~PTE_SYSCALL = 0 →
    ¬ Present (vm k.phys k.dirs
      (uenv, PDX (k.envs uenv).envIpcDstva, PTX (k.envs uenv).envIpcDstva)) →
    ∀ y, mapTarget k cur (k.envs cur).envId srcva envid (k.envs uenv).envIpcDstva perm = some y →
      k.phys.ppRef y.2 ≠ 65535#16))

theorem ENVX_found {src : EnvIdx} (hid : ENVX (k.envs cur).envId = cur)
    (h : envid2env k cur (k.envs cur).envId true = some src) : src = cur := by
  unfold envid2env at h
  simp only at h
  split_ifs at h with h₁ h₂ h₃ h₄
  · exact (Option.some.inj h).symm
  · rw [← Option.some.inj h]
    exact hid

/-- **`sys_ipc_try_send`** on the memory. -/
theorem KMem.sysIpcTrySend {envid value srcva : Word} (h : KMem managed tables k)
    (hdirs : k'.dirs = k.dirs) (hok : SendOk k cur envid srcva perm)
    (hx : sysIpcTrySend k cur envid value srcva perm = .ok (r, k')) :
    MemStep managed tables (fun x => r = 0 ∧ ∃ e, envid2env k cur envid false = some e ∧
        (k.envs e).envIpcRecving = true ∧ x = mapIdx e (k.envs e).envIpcDstva) k k' ∧
      (ENVX (k.envs cur).envId = cur → r = 0 → ∀ uenv, envid2env k cur envid false = some uenv →
        WantsPage k uenv srcva → Shares k k' cur srcva uenv (k.envs uenv).envIpcDstva) := by
  rcases sysIpcTrySend_phys hx with
    ⟨hphys, hno⟩ | ⟨uenv, d, r₁, σ, hf, hrec, hwant, hperm, rfl, hphys, hd, hl₀, hmap, hl₁⟩
  · refine ⟨⟨?_, by rw [hphys], fun x _ => by rw [hphys, hdirs]⟩, fun _ hr uenv hf hw =>
      (hno hr uenv hf hw).elim⟩
    unfold KMem
    rw [hphys, hdirs]
    exact h
  have hd₀ := dirs_setIpcPerm k uenv 0
  have hphys₀ : (setIpcPerm k uenv 0).phys = k.phys := rfl
  have hdir : k.dirs uenv = some d := by
    rw [← hd₀]
    exact dirs_of_pgdir hd
  have hmapOk : MapOk (setIpcPerm k uenv 0) cur (k.envs cur).envId srcva envid
      (k.envs uenv).envIpcDstva perm := by
    intro y hy
    rw [mapTarget_congr hphys₀ hd₀ (envid2env_setIpcPerm k uenv 0 cur)] at hy
    refine ⟨flags_trans hperm (by decide), .inr (hok uenv hf hrec hwant hperm ?_ y hy)⟩
    -- nothing is mapped at the receiver's address yet
    obtain ⟨dst, q⟩ := y
    obtain ⟨-, -, -, -, -, -, hdva, -, -, -⟩ := mapTarget_some hy
    obtain ⟨free, hm⟩ := h
    obtain ⟨y₀, hy₀, hnone, -⟩ := hm.pinv.lookup hdir (PDX_user hdva)
    rw [hl₀] at hy₀
    cases hy₀
    exact named_eq_none.1 hnone.symm
  have h₀ : KMem managed tables (setIpcPerm k uenv 0) := by
    unfold KMem
    rw [hd₀]
    exact h
  obtain ⟨hstep, hsame, hshare⟩ := h₀.sysPageMap hmapOk hmap
  have hr₁ : r₁ = 0 := by
    by_contra hr
    have hσ : σ = k.phys := congrArg Kernel.phys (hsame hr)
    rw [hσ] at hl₁
    exact hl₁ hl₀
  have hvm : ∀ x, vm k'.phys k'.dirs x =
      vm σ ({ setIpcPerm k uenv 0 with phys := σ } : Kernel).dirs x := by
    intro x
    rw [hphys, hdirs]
    change _ = vm σ (setIpcPerm k uenv 0).dirs x
    rw [hd₀]
  have hvm₀ : ∀ x, vm (setIpcPerm k uenv 0).phys (setIpcPerm k uenv 0).dirs x =
      vm k.phys k.dirs x := by
    intro x
    rw [hd₀]
    rfl
  refine ⟨⟨?_, ?_, fun x hxe => ?_⟩, fun hid _ uenv' hf' _ => ?_⟩
  · obtain ⟨free, hm⟩ := hstep.inv
    refine ⟨free, ?_⟩
    rw [hphys, hdirs, ← hd₀]
    exact hm
  · rw [hphys]
    exact hstep.kern
  · rw [hvm, hstep.vm x, hvm₀]
    rintro ⟨-, e, he, rfl⟩
    rw [envid2env_setIpcPerm, hf, Option.some.injEq] at he
    subst he
    exact hxe ⟨rfl, uenv, hf, hrec, rfl⟩
  · obtain rfl : uenv = uenv' := Option.some.inj (hf.symm.trans hf')
    obtain ⟨src, dst, hsrc, hdst, hS⟩ := hshare hr₁
    rw [envid2env_setIpcPerm] at hsrc hdst
    obtain rfl := ENVX_found hid hsrc
    obtain rfl : uenv = dst := Option.some.inj (hf.symm.trans hdst)
    constructor
    · rw [← hvm₀]
      exact hS.present
    · rw [hvm]
      exact hS.present'
    · rw [hvm, ← hvm₀]
      exact hS.frame
    · rw [hvm, ← hvm₀]
      exact hS.write

end Jos
