import Jos.SysMem

/-!
# What `env_free` gives back

**Theorem (`env_free_reclaims`).** In a state with correct reference counts, `env_free` drops
exactly the references that come from the environment: from its `env_pgdir`, its page directory and
its page tables. A page that has no others is on the free list afterwards, once, and all other pages
are what they were but for the count. So whatever an environment allocates and maps within itself,
its creation and destruction leave the set of free pages as it was.

Both parts come from one fact. The references of the heap after `env_free` are those before it, less
the slots of the environment (`target_freed`), and in a valid heap the free list is determined by
the references. An operation within `e` changes slots of `e` only (`PageCall.keeps`), so at the end
the references are the ones before `env_alloc`.
-/

namespace Jos

open Lib

variable {managed tables : Set Nat} {base : Nat → ℕ} {k k' k₁ : Kernel} {e : EnvIdx}
  {free free' : List Nat}

/-! ## Definitions -/

/-- The references to page `p` that come from `e`: `env_pgdir`, directory entries, page table
entries. -/
def envRefs (k : Kernel) (e : EnvIdx) (p : Nat) : ℕ :=
  refsIn (fun s : Slot => s.env = e) (target k.phys k.dirs) p

/-- What `env_free` should do. -/
structure Reclaimed (k k' : Kernel) (e : EnvIdx) (free free' : List Nat) : Prop where
  chain : Chain k'.phys.ppLink k'.phys.pageFreeList free'
  nodup : free'.Nodup
  freed : ∀ p, 0 < envRefs k e p → (k.phys.ppRef p).toNat = envRefs k e p →
    p ∈ free' ∧ k'.phys.ppRef p = 0
  shared : ∀ p, envRefs k e p < (k.phys.ppRef p).toNat →
    (k'.phys.ppRef p).toNat = (k.phys.ppRef p).toNat - envRefs k e p ∧ p ∉ free'
  others : ∀ p, envRefs k e p = 0 → k'.phys.ppRef p = k.phys.ppRef p ∧ (p ∈ free' ↔ p ∈ free)
  mem : ∀ f, k.dirs e ≠ some f → (∀ i, named (pdes k.phys k.dirs (e, i)) ≠ some f) →
    k'.phys.mem f = k.phys.mem f
  dirs : ∀ e', e' ≠ e → k'.dirs e' = k.dirs e'
  pdes : ∀ e' i, e' ≠ e → pdes k'.phys k'.dirs (e', i) = pdes k.phys k.dirs (e', i)
  vm : ∀ e' i j, e' ≠ e → vm k'.phys k'.dirs (e', i, j) = vm k.phys k.dirs (e', i, j)

/-- A system call that changes mappings of `e` only. -/
inductive PageCall (e : EnvIdx) (k k' : Kernel) : Prop
  | alloc {cur : EnvIdx} {envid va perm r : Word} (he : envid2env k cur envid true = some e)
      (h : sysPageAlloc k cur envid va perm = .ok (r, k'))
  | map {cur : EnvIdx} {srcenvid srcva dstenvid dstva perm r : Word}
      (hsrc : envid2env k cur srcenvid true = some e)
      (hdst : envid2env k cur dstenvid false = some e) (hperm : perm &&& ~~~PTE_SYSCALL = 0)
      (h : sysPageMap k cur srcenvid srcva dstenvid dstva perm = .ok (r, k'))
  | unmap {cur : EnvIdx} {envid va r : Word} (he : envid2env k cur envid true = some e)
      (h : sysPageUnmap k cur envid va = .ok (r, k'))

/-- A sequence of such calls. No page ever has more than 65535 references. -/
inductive PageCalls (base : Nat → ℕ) (e : EnvIdx) : Kernel → Kernel → Prop
  | nil {k : Kernel} (hb : NoWrap base (target k.phys k.dirs)) : PageCalls base e k k
  | cons {k k₁ k' : Kernel} (hb : NoWrap base (target k.phys k.dirs)) (hc : PageCall e k k₁)
      (hrest : PageCalls base e k₁ k') : PageCalls base e k k'

/-! ## `env_free` -/

theorem target_freed {σ σ' : Phys} {dirs : EnvIdx → Option Nat}
    (h : Dropped e σ dirs free σ' (Function.update dirs e none) free') :
    target σ' (Function.update dirs e none) = fun s => if s.env = e then none
      else target σ dirs s := by
  funext s
  by_cases hs : s.env = e
  · rw [if_pos hs]
    cases s with
    | dir e' =>
      obtain rfl : e' = e := hs
      simp [target]
    | pde e' i =>
      obtain rfl : e' = e := hs
      simp [target, Jos.pdes]
    | pte e' i j =>
      obtain rfl : e' = e := hs
      simp [target, Jos.vm, Jos.pdes]
  · rw [if_neg hs]
    cases s with
    | dir e' => exact Function.update_of_ne hs _ _
    | pde e' i => exact congrArg named (h.pdes (e', i) hs)
    | pte e' i j => exact congrArg named (h.vm (e', i, j) hs)

theorem PInv.envFree (h : PInv managed base k.phys k.dirs free ∅)
    (hb : NoWrap base (target k.phys k.dirs)) (hd : k.dirs e ≠ none) (c : Cpu) :
    ∃ k' free', envFree k c e = .ok k' ∧ PInv managed base k'.phys k'.dirs free' ∅ ∧
      k'.dirs = Function.update k.dirs e none ∧
      Dropped e k.phys k.dirs free k'.phys k'.dirs free' := by
  obtain ⟨d, hd⟩ := Option.ne_none_iff_exists'.1 hd
  obtain ⟨σ', free', hok, hinv, hdrop⟩ := h.freeVm hd hb
  have hdirs := dirs_retire k c e σ'
  refine ⟨_, free', envFree_of_freeVm c hd hok, ?_, hdirs, ?_⟩
  · rw [hdirs]
    exact hinv
  · rw [hdirs]
    exact hdrop

theorem PInv.reclaimed (h : PInv managed base k.phys k.dirs free ∅)
    (hb : NoWrap base (target k.phys k.dirs)) (h' : PInv managed base k'.phys k'.dirs free' ∅)
    (hdirs : k'.dirs = Function.update k.dirs e none)
    (hdrop : Dropped e k.phys k.dirs free k'.phys k'.dirs free') : Reclaimed k k' e free free' := by
  have htgt : target k'.phys k'.dirs = fun s => if s.env = e then none
    else target k.phys k.dirs s := by
    rw [hdirs] at hdrop ⊢
    exact target_freed hdrop
  have hrefs : ∀ p, refs (target k'.phys k'.dirs) p + envRefs k e p =
    refs (target k.phys k.dirs) p := by
    intro p
    rw [htgt]
    exact refs_without (fun s : Slot => s.env = e) (target k.phys k.dirs) p
  have hcount : ∀ p ∈ managed, (k.phys.ppRef p).toNat = base p + refs (target k.phys k.dirs) p := by
    intro p hp
    have href : k.phys.ppRef p = _ := h.valid.ref_eq p hp
    rw [href, BitVec.toNat_ofNat]
    exact Nat.mod_eq_of_lt (hb p)
  have hcount' : ∀ p ∈ managed, (k'.phys.ppRef p).toNat =
    base p + refs (target k'.phys k'.dirs) p := by
    intro p hp
    have href : k'.phys.ppRef p = _ := h'.valid.ref_eq p hp
    rw [href, BitVec.toNat_ofNat]
    exact Nat.mod_eq_of_lt (hdrop.noWrap hb p)
  have hmem : ∀ p, p ∈ free ↔ p ∈ managed ∧ base p + refs (target k.phys k.dirs) p = 0 := by
    intro p
    have hf : p ∈ free ↔ _ := h.valid.mem_free p
    rw [hf]
    exact ⟨fun hp => ⟨hp.1, hp.2.1⟩, fun hp => ⟨hp.1, hp.2, id⟩⟩
  have hmem' : ∀ p, p ∈ free' ↔ p ∈ managed ∧ base p + refs (target k'.phys k'.dirs) p = 0 := by
    intro p
    have hf : p ∈ free' ↔ _ := h'.valid.mem_free p
    rw [hf]
    exact ⟨fun hp => ⟨hp.1, hp.2.1⟩, fun hp => ⟨hp.1, hp.2, id⟩⟩
  have hmanaged : ∀ p, 0 < envRefs k e p → p ∈ managed := by
    intro p hp
    obtain ⟨s, -, hs⟩ := refsIn_pos.1 hp
    exact h.valid.tgt_mem s p hs
  have hsame : ∀ p, envRefs k e p = 0 → k'.phys.ppRef p = k.phys.ppRef p := by
    intro p hp
    refine hdrop.ref p fun s hs hq => ?_
    exact (refsIn_pos.2 ⟨s, hs, hq⟩).ne' hp
  constructor
  case chain => exact h'.chain
  case nodup => exact h'.valid.nodup
  case freed =>
    intro p hpos hall
    have hp := hmanaged p hpos
    have h₁ := hcount p hp
    have h₂ := hrefs p
    refine ⟨(hmem' p).2 ⟨hp, by omega⟩, BitVec.eq_of_toNat_eq ?_⟩
    rw [hcount' p hp]
    change _ = 0
    omega
  case shared =>
    intro p hlt
    by_cases hpos : envRefs k e p = 0
    · refine ⟨by rw [hsame p hpos, hpos, Nat.sub_zero], fun hc => ?_⟩
      obtain ⟨hp, hz⟩ := (hmem' p).1 hc
      have h₁ := hcount p hp
      have h₂ := hrefs p
      omega
    · have hp := hmanaged p (Nat.pos_of_ne_zero hpos)
      have h₁ := hcount p hp
      have h₂ := hrefs p
      refine ⟨?_, fun hc => ?_⟩
      · rw [hcount' p hp]
        omega
      · have := ((hmem' p).1 hc).2
        omega
  case others =>
    intro p hz
    have h₂ := hrefs p
    refine ⟨hsame p hz, ?_⟩
    rw [hmem, hmem', ← h₂, hz, Nat.add_zero]
  case mem =>
    intro f hdir hpde
    refine hdrop.mem f fun s hs he hq => ?_
    cases s with
    | dir e' =>
      obtain rfl : e' = e := he
      exact hdir hq
    | pde e' i =>
      obtain rfl : e' = e := he
      exact hpde i hq
    | pte e' i j => exact hs
  case dirs =>
    intro e' hne
    rw [hdirs, Function.update_of_ne hne]
  case pdes => exact fun e' i hne => hdrop.pdes (e', i) hne
  case vm => exact fun e' i j hne => hdrop.vm (e', i, j) hne

/-! ## Calls within one environment -/

/-- The counts are still right, and only references from `e` have changed. -/
structure Within (managed : Set Nat) (base : Nat → ℕ) (e : EnvIdx) (k k' : Kernel) : Prop where
  inv : ∃ free', PInv managed base k'.phys k'.dirs free' ∅
  dirs : k'.dirs = k.dirs
  tgt : ∀ s : Slot, s.env ≠ e → target k'.phys k'.dirs s = target k.phys k.dirs s

variable {cur : EnvIdx} {envid va perm r : Word} {σ σ' : Phys} {dirs : EnvIdx → Option Nat}
  {held : Set Nat}

theorem Inserted.tgt_others {p : Nat}
    (h : Inserted managed base σ σ' dirs free free' held e p va perm) {s : Slot} (hs : s.env ≠ e) :
    target σ' dirs s = target σ dirs s := by
  obtain ⟨pt, htgt, -⟩ := h.tgt
  have hne : ∀ i j, s ≠ .pte e i j := by
    rintro i j rfl
    exact hs rfl
  have hne' : ∀ i, s ≠ .pde e i := by
    rintro i rfl
    exact hs rfl
  rw [htgt, Function.update_of_ne (hne _ _), Function.update_of_ne (hne' _)]

theorem Dropped.tgt_others (h : Dropped e σ dirs free σ' dirs free') {s : Slot} (hs : s.env ≠ e) :
    target σ' dirs s = target σ dirs s := by
  cases s with
  | dir e' => rfl
  | pde e' i => exact congrArg named (h.pdes (e', i) hs)
  | pte e' i j => exact congrArg named (h.vm (e', i, j) hs)

section
variable (h : PInv managed base k.phys k.dirs free ∅) (hb : NoWrap base (target k.phys k.dirs))
include h

theorem Within.refl : Within managed base e k k := ⟨⟨free, h⟩, rfl, fun _ _ => rfl⟩

include hb

theorem within_alloc (he : envid2env k cur envid true = some e)
    (hx : sysPageAlloc k cur envid va perm = .ok (r, k')) : Within managed base e k k' := by
  unfold sysPageAlloc at hx
  rw [he] at hx
  simp only at hx
  by_cases hbad : UTOP ≤ va ∨ perm &&& ~~~PTE_SYSCALL ≠ 0
  · rw [if_pos hbad] at hx
    cases hx
    exact .refl h
  rw [if_neg hbad] at hx
  have hva : va < UTOP := BitVec.not_le.1 fun hc => hbad (.inl hc)
  have hperm : PTE_ADDR perm = 0 := PTE_ADDR_of_syscall (not_not.1 fun hc => hbad (.inr hc))
  cases free with
  | nil =>
    have hal : pageAlloc k.phys true = (none, k.phys) := by
      simp [pageAlloc, h.head_eq_none]
    rw [hal] at hx
    cases hx
    exact .refl h
  | cons p rest =>
    obtain ⟨hal, h₁, hpd₁, hvm₁⟩ := h.alloc true
    generalize pageAlloc k.phys true = al at hal h₁ hpd₁ hvm₁ hx
    obtain ⟨a, σ₁⟩ := al
    obtain rfl : a = some p := hal
    simp only at hx h₁ hpd₁ hvm₁
    have htgt₁ : target σ₁ k.dirs = target k.phys k.dirs := target_congr hpd₁ hvm₁
    obtain ⟨d, hd, hret⟩ := bind_eq_ok.1 hx
    obtain ⟨⟨r₁, σ₂⟩, hins, hret⟩ := bind_eq_ok.1 hret
    have hheld : p ∈ insert p (∅ : Set Nat) := Set.mem_insert _ _
    have hempty : insert p (∅ : Set Nat) \ {p} = ∅ := by simp
    rcases h₁.insert (dirs_of_pgdir hd) (PDX_user hva) (h₁.valid.held_mem p hheld).1
      (h₁.not_free_of_held hheld) hperm
      (fun q _ _ => htgt₁ ▸ (hb q).le) with ⟨-, -, hno⟩ | ⟨σ', free', hok, hI⟩
    · rw [hno] at hins
      cases hins
      rw [if_pos (by decide : -E_NO_MEM ≠ 0)] at hret
      cases hret
      have hg := h₁.giveBack hheld
      rw [hempty] at hg
      refine ⟨⟨_, hg⟩, rfl, fun s _ => ?_⟩
      rw [← htgt₁]
      exact congrFun (target_of_mem (mem_pageFree _ _)) s
    · rw [hok] at hins
      cases hins
      rw [if_neg fun hc => hc rfl] at hret
      cases hret
      have hinv := hI.inv
      rw [hempty] at hinv
      refine ⟨⟨free', hinv⟩, rfl, fun s hs => ?_⟩
      rw [← htgt₁]
      exact hI.tgt_others hs

theorem within_map {srcenvid srcva dstenvid dstva : Word}
    (hdst : envid2env k cur dstenvid false = some e) (hperm : perm &&& ~~~PTE_SYSCALL = 0)
    (hx : sysPageMap k cur srcenvid srcva dstenvid dstva perm = .ok (r, k')) :
    Within managed base e k k' := by
  rcases sysPageMap_ok hx with ⟨-, rfl⟩ | ⟨dstE, p, d, hmap, hd, hins, hk'⟩
  · exact .refl h
  obtain ⟨src, ds, pte, -, hdst', hsva, hdva, hds, hl, -⟩ := mapTarget_some hmap
  obtain rfl : dstE = e := Option.some.inj (hdst'.symm.trans hdst)
  have hp : target k.phys k.dirs (.pte src (PDX srcva) (PTX srcva)) = some p := by
    obtain ⟨r', hr', htgt, -⟩ := h.lookup hds (PDX_user hsva)
    rw [hl] at hr'
    cases hr'
    exact htgt.symm
  rcases h.insert hd (PDX_user hdva) (h.valid.tgt_mem (.pte src (PDX srcva) (PTX srcva)) p hp)
    (h.not_mem_free hp)
    (PTE_ADDR_of_syscall hperm) (fun q _ _ => (hb q).le) with ⟨-, -, hno⟩ | ⟨σ', free', hok, hI⟩
  · rw [hno] at hins
    have hphys : k'.phys = k.phys := (Prod.ext_iff.1 (Except.ok.inj hins)).2.symm
    rw [hk', hphys]
    exact .refl h
  · rw [hok] at hins
    have hphys : k'.phys = σ' := (Prod.ext_iff.1 (Except.ok.inj hins)).2.symm
    rw [hk', hphys]
    have hinv := hI.inv
    rw [Set.empty_sdiff] at hinv
    exact ⟨⟨free', hinv⟩, rfl, fun s hs => hI.tgt_others hs⟩

theorem within_unmap (he : envid2env k cur envid true = some e)
    (hx : sysPageUnmap k cur envid va = .ok (r, k')) : Within managed base e k k' := by
  unfold sysPageUnmap at hx
  rw [he] at hx
  simp only at hx
  by_cases hbad : checkAddrScale va 0 UTOP = false
  · rw [if_pos hbad] at hx
    cases hx
    exact .refl h
  rw [if_neg hbad] at hx
  have hva : va < UTOP := by
    simp only [checkAddrScale, Bool.and_eq_false_iff, decide_eq_false_iff_not, not_or,
      not_not] at hbad
    exact hbad.1.2
  obtain ⟨d, hd, hret⟩ := bind_eq_ok.1 hx
  obtain ⟨σ₁, hrem, hret⟩ := bind_eq_ok.1 hret
  cases hret
  obtain ⟨σ', free', hok, hinv, hdrop, -, -⟩ :=
    h.remove (dirs_of_pgdir hd) (PDX_user hva) fun q _ => (hb q).le
  rw [hok] at hrem
  cases hrem
  exact ⟨⟨free', hinv⟩, rfl, fun s hs => hdrop.tgt_others hs⟩

/-- **A call** within `e`. -/
theorem PageCall.within (hc : PageCall e k k') : Within managed base e k k' := by
  cases hc with
  | alloc he hx => exact within_alloc h hb he hx
  | map hsrc hdst hperm hx => exact within_map h hb hdst hperm hx
  | unmap he hx => exact within_unmap h hb he hx

end

/-- **A sequence of calls** within `e`. -/
theorem PageCalls.within (h : PInv managed base k.phys k.dirs free ∅) (hc : PageCalls base e k k') :
    Within managed base e k k' ∧ NoWrap base (target k'.phys k'.dirs) := by
  induction hc generalizing free with
  | nil hb => exact ⟨.refl h, hb⟩
  | cons hb hcall _ ih =>
    have h₁ := hcall.within h hb
    obtain ⟨free₁, hinv⟩ := h₁.inv
    obtain ⟨h₂, hb'⟩ := ih hinv
    exact ⟨⟨h₂.inv, h₂.dirs.trans h₁.dirs, fun s hs => (h₂.tgt s hs).trans (h₁.tgt s hs)⟩, hb'⟩

/-! ## `env_alloc` -/

/-- The new environment has a directory and nothing else. -/
theorem PInv.envAlloc {parentId : Word} (h : PInv managed base k.phys k.dirs free ∅)
    (hk : KernDir k.phys) (hnone : ∀ e, k.envFreeList = some e → k.dirs e = none)
    (hx : envAlloc k parentId = .ok (.ok e, k₁)) :
    (∃ free₁, PInv managed base k₁.phys k₁.dirs free₁ ∅) ∧ k.dirs e = none ∧ k₁.dirs e ≠ none ∧
      ∃ p, target k₁.phys k₁.dirs = Function.update (target k.phys k.dirs) (.dir e) (some p) := by
  rcases envAlloc_ok hx with ⟨r, hr, -⟩ | ⟨child, p, hr, hfl, hp, rfl⟩
  · cases hr
  obtain rfl : e = child := Except.ok.inj hr
  obtain ⟨rest, rfl⟩ : ∃ rest, free = p :: rest := by
    cases free with
    | nil =>
      rw [h.head_eq_none] at hp
      cases hp
    | cons q rest =>
      rw [h.head_eq, Option.some.injEq] at hp
      exact ⟨rest, by rw [hp]⟩
  obtain ⟨hinv, htgt, -⟩ := h.setupVm hk (hnone e hfl)
  have hdirs : (allocated k e p (newEnv k parentId e p)).dirs =
    Function.update k.dirs e (some p) := by
    funext e'
    unfold Kernel.dirs allocated
    by_cases he : e' = e
    · simp only [he, Function.update_self]
      rfl
    · simp only [Function.update_of_ne he]
  refine ⟨⟨rest, ?_⟩, hnone e hfl, ?_, p, ?_⟩
  · rw [hdirs]
    exact hinv
  · rw [hdirs, Function.update_self]
    exact Option.some_ne_none p
  · rw [hdirs]
    exact htgt

theorem target_of_no_dir {s : Slot} (h : dirs e = none) (hs : s.env = e) :
    target σ dirs s = none := by
  cases s with
  | dir e' =>
    obtain rfl : e' = e := hs
    exact h
  | pde e' i =>
    obtain rfl : e' = e := hs
    simp [target, Jos.pdes, h]
  | pte e' i j =>
    obtain rfl : e' = e := hs
    simp [target, Jos.vm, Jos.pdes, h]

/-- The free list is determined by the references. -/
theorem PInv.mem_free_congr (h : PInv managed base k.phys k.dirs free ∅)
    (h' : PInv managed base k'.phys k'.dirs free' ∅)
    (ht : target k'.phys k'.dirs = target k.phys k.dirs) (p : Nat) : p ∈ free' ↔ p ∈ free := by
  have hf : p ∈ free ↔ _ := h.valid.mem_free p
  have hf' : p ∈ free' ↔ p ∈ managed ∧ base p + refs (target k'.phys k'.dirs) p = 0 ∧
    p ∉ (∅ : Set Nat) :=
    h'.valid.mem_free p
  rw [hf', ht, hf]
  rfl

/-- **`env_free` reclaims the environment's memory**, and after `env_alloc` and any calls within the
environment it restores the set of free pages. -/
theorem env_free_reclaims (h : PInv managed base k.phys k.dirs free ∅)
    (hb : NoWrap base (target k.phys k.dirs)) (c : Cpu) :
    (∀ e, k.dirs e ≠ none → ∃ k' free', envFree k c e = .ok k' ∧ Reclaimed k k' e free free') ∧
      (KernDir k.phys → (∀ e, k.envFreeList = some e → k.dirs e = none) →
        ∀ e parentId k₁ k₂, envAlloc k parentId = .ok (.ok e, k₁) → PageCalls base e k₁ k₂ →
          ∃ k' free', envFree k₂ c e = .ok k' ∧
            Chain k'.phys.ppLink k'.phys.pageFreeList free' ∧ free'.Nodup ∧
            ∀ p, p ∈ free' ↔ p ∈ free) := by
  refine ⟨fun e hd => ?_, fun hk hnone e parentId k₁ k₂ hal hcalls => ?_⟩
  · obtain ⟨k', free', hok, h', hdirs, hdrop⟩ := h.envFree hb hd c
    exact ⟨k', free', hok, h.reclaimed hb h' hdirs hdrop⟩
  · obtain ⟨⟨free₁, h₁⟩, hno, hd₁, p, htgt₁⟩ := h.envAlloc hk hnone hal
    obtain ⟨hwithin, hb₂⟩ := hcalls.within h₁
    obtain ⟨free₂, h₂⟩ := hwithin.inv
    have hd₂ : k₂.dirs e ≠ none := by
      rw [hwithin.dirs]
      exact hd₁
    obtain ⟨k', free', hok, h', hdirs, hdrop⟩ := h₂.envFree hb₂ hd₂ c
    refine ⟨k', free', hok, h'.chain, h'.valid.nodup, h.mem_free_congr h' ?_⟩
    rw [hdirs] at hdrop ⊢
    rw [target_freed hdrop]
    funext s
    by_cases hs : s.env = e
    · rw [if_pos hs, target_of_no_dir hno hs]
    · have hne : s ≠ .dir e := by
        rintro rfl
        exact hs rfl
      rw [if_neg hs, hwithin.tgt s hs, htgt₁, Function.update_of_ne hne]

/-! ### A small machine -/

theorem PInv.noWrap_small (h : PInv managed (kernRefs tables) k.phys k.dirs free ∅)
    (hn : k.phys.npages ≤ 63) : NoWrap (kernRefs tables) (target k.phys k.dirs) :=
  h.noWrap (h.countable hn)

theorem PageCalls.cons_small (h : PInv managed (kernRefs tables) k.phys k.dirs free ∅)
    (hn : k.phys.npages ≤ 63) (hc : PageCall e k k₁)
    (hrest : ∀ free₁, PInv managed (kernRefs tables) k₁.phys k₁.dirs free₁ ∅ →
      PageCalls (kernRefs tables) e k₁ k') : PageCalls (kernRefs tables) e k k' := by
  obtain ⟨free₁, h₁⟩ := (hc.within h (h.noWrap_small hn)).inv
  exact .cons (h.noWrap_small hn) hc (hrest free₁ h₁)

/-- The state a call leaves. -/
def stateAfter {α : Type} : Except String (α × Kernel) → Kernel
  | .ok (_, k) => k
  | .error _ => smallKernel

/-- The small machine with its first environment. -/
def smallEnv : Kernel := stateAfter (envAlloc smallKernel 0)

/-- The environment allocates a page at `0x1000`. -/
def smallPage : Kernel := stateAfter (sysPageAlloc smallEnv 0 0 0x1000#32 (PTE_U ||| PTE_W))

/-- It maps the page at `0x2000` too. -/
def smallTwice : Kernel := stateAfter (sysPageMap smallPage 0 0 0x1000#32 0 0x2000#32 PTE_U)

/-- It maps the page at `0x3000`, the third place. -/
def smallThrice : Kernel := stateAfter (sysPageMap smallTwice 0 0 0x1000#32 0 0x3000#32 PTE_U)

/-- It unmaps `0x1000`. The page has two references left. -/
def smallShared : Kernel := stateAfter (sysPageUnmap smallThrice 0 0 0x1000#32)

theorem smallEnv_eq : envAlloc smallKernel 0 = .ok (.ok 0, smallEnv) := (rfl)

theorem smallPage_eq : sysPageAlloc smallEnv 0 0 0x1000#32 (PTE_U ||| PTE_W) =
    .ok (0, smallPage) := (rfl)

theorem smallTwice_eq : sysPageMap smallPage 0 0 0x1000#32 0 0x2000#32 PTE_U =
    .ok (0, smallTwice) := (rfl)

theorem smallThrice_eq : sysPageMap smallTwice 0 0 0x1000#32 0 0x3000#32 PTE_U =
    .ok (0, smallThrice) := (rfl)

theorem smallShared_eq : sysPageUnmap smallThrice 0 0 0x1000#32 = .ok (0, smallShared) := (rfl)

theorem smallShared_calls (h : PInv managed (kernRefs tables) smallEnv.phys smallEnv.dirs free ∅) :
    PageCalls (kernRefs tables) 0 smallEnv smallShared := by
  refine .cons_small h (by decide +kernel) (.alloc (by decide +kernel) smallPage_eq)
    fun free₁ h₁ => ?_
  refine .cons_small h₁ (by decide +kernel)
    (.map (by decide +kernel) (by decide +kernel) (by decide) smallTwice_eq) fun free₂ h₂ => ?_
  refine .cons_small h₂ (by decide +kernel)
    (.map (by decide +kernel) (by decide +kernel) (by decide) smallThrice_eq) fun free₃ h₃ => ?_
  refine .cons_small h₃ (by decide +kernel) (.unmap (by decide +kernel) smallShared_eq)
    fun free₄ h₄ => ?_
  exact .nil (h₄.noWrap_small (by decide +kernel))

/-- The environment with its shared page and its page table is freed. -/
theorem env_free_reclaims_small : smallShared.phys.ppRef 2 = 2 ∧
    ∃ k' free₂ free', envFree smallShared 0 0 = .ok k' ∧ Reclaimed smallShared k' 0 free₂ free' ∧
      ∃ l l', Chain smallKernel.phys.ppLink smallKernel.phys.pageFreeList l ∧
        Chain k'.phys.ppLink k'.phys.pageFreeList l' ∧ ∀ p, p ∈ l' ↔ p ∈ l := by
  obtain ⟨⟨free, hinv⟩, hk⟩ := smallKernel_memInit.inv
  have h : PInv {1, 2, 3, 4, 5} (kernRefs {5}) smallKernel.phys smallKernel.dirs free ∅ := hinv
  have hnone : ∀ e, smallKernel.envFreeList = some e → smallKernel.dirs e = none := fun e _ => rfl
  obtain ⟨⟨free₁, h₁⟩, -, -, -⟩ := h.envAlloc hk hnone smallEnv_eq
  have hcalls := smallShared_calls h₁
  obtain ⟨hwithin, hb₂⟩ := hcalls.within h₁
  obtain ⟨free₂, h₂⟩ := hwithin.inv
  obtain ⟨k', free', hok, hrec⟩ := (env_free_reclaims h₂ hb₂ 0).1 0 (by decide +kernel)
  obtain ⟨k'', l', hok', hchain, -, hfree⟩ :=
    (env_free_reclaims h (h.noWrap_small (by decide)) 0).2 hk hnone 0 0 smallEnv smallShared
      smallEnv_eq hcalls
  obtain rfl : k' = k'' := Except.ok.inj (hok.symm.trans hok')
  exact ⟨by decide +kernel, k', free₂, free', hok, hrec, free, l', h.chain, hchain, hfree⟩

end Jos
