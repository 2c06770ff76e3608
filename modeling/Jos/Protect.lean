import Jos.BootMap
import Jos.Access

/-!
# The kernel's part of every address space

**Theorem (`kernel_protected`).** Take a directory that `env_setup_vm` makes from the `kern_pgdir`
of `mem_init`, and run any sequence of `page_insert` and `page_remove` on it below `UTOP`. The
entries above `UTOP` stay those of `kern_pgdir`, and the MMU gives the user no access above
`ULIM` and no write access above `UTOP`.

The proof is a wall around the frames that decide the rights above `UTOP`: `kern_pgdir`, its page
tables and the directory itself. **Invariant** (`Walled`): no such frame is on the free list, is a
user page table, or is named by an entry of one. So a new page table never is one of these frames,
and no operation drops a reference to one. Reference counts play no role: a page that is freed too
early is still outside the wall.

Above the wall the rights are read off the layout. Only the entries at `UPAGES`, `UENVS` and
`UVPT` have `PTE_U`. The tables of the first two have no `PTE_W`, and the entry at `UVPT`, which is
the one level that every access through the self-mapping passes twice, has none itself.
-/

namespace Jos

open Lib

/-! ## Definitions -/

/-- The pages `page_alloc` returns, now or later. -/
inductive OnFreeList (σ : Phys) : Nat → Prop
  | head {p : Nat} : σ.pageFreeList = some p → OnFreeList σ p
  | link {p q : Nat} : OnFreeList σ p → σ.ppLink p = some q → OnFreeList σ q

/-- The page tables for addresses above `UTOP`, in `kern_pgdir` or in `d`. The entry at `UVPT` makes
both directories such tables. -/
def KernelTable (σ : Phys) (d : Nat) : Set Nat :=
  {p | ∃ i : Idx, ¬ i.User ∧ (named (σ.mem σ.kernPgdir i) = some p ∨ named (σ.mem d i) = some p)}

/-- Equal but for the bits the MMU sets. -/
def SameEntry (v w : Word) : Prop := v &&& ~~~(PTE_A ||| PTE_D) = w &&& ~~~(PTE_A ||| PTE_D)

/-- `kern_pgdir` is as `mem_init` has left it in `σ₁`, and its page tables are in use. -/
structure KernelKept (σ₁ σ : Phys) : Prop where
  npages : σ.npages = σ₁.npages
  kernPgdir : σ.kernPgdir = σ₁.kernPgdir
  entry : ∀ p ∈ KernelTable σ₁ σ₁.kernPgdir, ∀ i, SameEntry (σ.mem p i) (σ₁.mem p i)
  free : ∃ free, Chain σ.ppLink σ.pageFreeList free ∧
    ∀ p ∈ free, p < σ₁.npages ∧ p ∉ KernelTable σ₁ σ₁.kernPgdir

/-- An operation on an address space. Pages may be allocated in between. -/
inductive SpaceOp
  | alloc (zero : Bool)
  | insert (pp : Option Nat) (va perm : Word)
  | remove (va : Word)

namespace SpaceOp

def run (d : Nat) (σ : Phys) : SpaceOp → Except String Phys
  | alloc zero => .ok (pageAlloc σ zero).2
  | insert pp va perm => do return (← pageInsert σ d pp va perm).2
  | remove va => pageRemove σ d va

/-- Below `UTOP`, with flags a system call may ask for, and no page table of the kernel. -/
def Allowed (σ : Phys) (d : Nat) : SpaceOp → Prop
  | alloc _ => True
  | insert pp va perm => va < UTOP ∧ perm &&& ~~~PTE_SYSCALL = 0 ∧
      ∀ p, pp = some p → p < σ.npages ∧ p ∉ KernelTable σ d
  | remove va => va < UTOP

end SpaceOp

/-- What the user may not do with the kernel's part of the address space `d`. -/
structure Protected (σ : Phys) (d : Nat) : Prop where
  same : ∀ i : Idx, PDX UTOP ≤ i → i ≠ PDX UVPT → σ.mem d i = σ.mem σ.kernPgdir i
  access : ∀ va, ULIM ≤ va → ¬ Permits σ d va (PTE_P ||| PTE_U)
  write : ∀ va, UTOP ≤ va → ¬ Permits σ d va (PTE_P ||| PTE_U ||| PTE_W)

/-! ## The free list -/

variable {σ σ' : Phys} {p q d : Nat} {K : Set Nat} {va : Word}

theorem OnFreeList.congr (h : OnFreeList σ' p) (hl : σ'.ppLink = σ.ppLink)
    (hh : σ'.pageFreeList = σ.pageFreeList) : OnFreeList σ p := by
  induction h with
  | head h => exact .head (hh ▸ h)
  | link _ h ih => exact .link ih (hl ▸ h)

theorem OnFreeList.pageAlloc {zero : Bool} (h : OnFreeList (pageAlloc σ zero).2 p) :
    OnFreeList σ p := by
  cases hhead : σ.pageFreeList with
  | none =>
    exact h.congr (by simp [Jos.pageAlloc, hhead]) (by simp [Jos.pageAlloc, hhead])
  | some q =>
    have hl : (Jos.pageAlloc σ zero).2.ppLink = Function.update σ.ppLink q none := by
      simp [Jos.pageAlloc, hhead]
    have hf : (Jos.pageAlloc σ zero).2.pageFreeList = σ.ppLink q := by
      simp [Jos.pageAlloc, hhead]
    induction h with
    | head h => exact .link (.head hhead) (hf ▸ h)
    | @link p p' _ h ih =>
      rw [hl] at h
      by_cases hp : p = q
      · subst hp
        rw [Function.update_self] at h
        cases h
      · rw [Function.update_of_ne hp] at h
        exact .link ih h

theorem OnFreeList.pageFree (h : OnFreeList (pageFree σ q) p) : p = q ∨ OnFreeList σ p := by
  unfold Jos.pageFree at h
  split_ifs at h
  · exact .inr h
  · induction h with
    | head h => exact .inl (Option.some.inj h).symm
    | @link p p' _ h ih =>
      change Function.update σ.ppLink q σ.pageFreeList p = some p' at h
      by_cases hp : p = q
      · subst hp
        rw [Function.update_self] at h
        exact .inr (.head h)
      · rw [Function.update_of_ne hp] at h
        exact .inr (.link (ih.resolve_left hp) h)

/-- A freed page is the only new one on the list. -/
theorem OnFreeList.pageDecref (h : OnFreeList (pageDecref σ q) p) : p = q ∨ OnFreeList σ p := by
  unfold Jos.pageDecref at h
  simp only at h
  split_ifs at h
  · rcases h.pageFree with hp | h
    · exact .inl hp
    · exact .inr (h.congr rfl rfl)
  · exact .inr (h.congr rfl rfl)

/-! ## The wall -/

/-- A page outside the wall. -/
def Outside (K : Set Nat) (σ : Phys) (p : Nat) : Prop := p < σ.npages ∧ p ∉ K

structure Walled (K : Set Nat) (d : Nat) (σ : Phys) : Prop where
  npages_le : σ.npages ≤ 2 ^ 20
  dir : d ∈ K
  free : ∀ p, OnFreeList σ p → Outside K σ p
  table : ∀ i : Idx, i.User → ∀ t, named (σ.mem d i) = some t → Outside K σ t
  entry : ∀ i : Idx, i.User → ∀ t, named (σ.mem d i) = some t →
    ∀ j p, named (σ.mem t j) = some p → Outside K σ p

/-- The frames in the wall are unchanged, but for the user part of `d`. -/
structure WallKept (K : Set Nat) (d : Nat) (σ σ' : Phys) : Prop where
  npages : σ'.npages = σ.npages
  kernPgdir : σ'.kernPgdir = σ.kernPgdir
  mem : ∀ p ∈ K, ∀ i : Idx, ¬ (p = d ∧ i.User) → σ'.mem p i = σ.mem p i

theorem WallKept.refl (K : Set Nat) (d : Nat) (σ : Phys) : WallKept K d σ σ :=
  ⟨rfl, rfl, fun _ _ _ _ => rfl⟩

theorem WallKept.trans {σ'' : Phys} (h : WallKept K d σ σ') (h' : WallKept K d σ' σ'') :
    WallKept K d σ σ'' :=
  ⟨h'.npages.trans h.npages, h'.kernPgdir.trans h.kernPgdir,
    fun p hp i hi => (h'.mem p hp i hi).trans (h.mem p hp i hi)⟩

/-- An operation below `UTOP`, with flags only and on a page outside the wall. -/
def SpaceOp.StaysOutside (K : Set Nat) (σ : Phys) : SpaceOp → Prop
  | alloc _ => True
  | insert pp va perm => va < UTOP ∧ PTE_ADDR perm = 0 ∧ ∀ p, pp = some p → Outside K σ p
  | remove va => va < UTOP

theorem SpaceOp.StaysOutside.congr {op : SpaceOp} (h : op.StaysOutside K σ)
    (hn : σ'.npages = σ.npages) :
    op.StaysOutside K σ' := by
  cases op with
  | alloc zero => trivial
  | insert pp va perm => exact ⟨h.1, h.2.1, fun p hp => ⟨hn ▸ (h.2.2 p hp).1, (h.2.2 p hp).2⟩⟩
  | remove va => exact h

theorem SpaceOp.Allowed.staysOutside {op : SpaceOp} (h : op.Allowed σ d) :
    op.StaysOutside (KernelTable σ d) σ := by
  cases op with
  | alloc zero => trivial
  | insert pp va perm => exact ⟨h.1, PTE_ADDR_of_syscall h.2.1, h.2.2⟩
  | remove va => exact h

namespace Walled

theorem untouched_store {t : Nat} (ht : t ∉ K) (j : Idx) (w : Word) :
    WallKept K d σ (σ.store (t, j) w) := by
  refine ⟨rfl, rfl, fun p hp i _ => ?_⟩
  rw [Phys.mem_store, if_neg]
  rintro ⟨rfl, -⟩
  exact ht hp

theorem of_mem (h : Walled K d σ) (hm : σ'.mem = σ.mem) (hn : σ'.npages = σ.npages)
    (hk : σ'.kernPgdir = σ.kernPgdir) (hf : ∀ p, OnFreeList σ' p → OnFreeList σ p ∨ Outside K σ p) :
    Walled K d σ' ∧ WallKept K d σ σ' := by
  have hout : ∀ {p}, Outside K σ p → Outside K σ' p := fun hp => ⟨hn ▸ hp.1, hp.2⟩
  refine ⟨⟨hn ▸ h.npages_le, h.dir, fun p hp => ?_, fun i hi t ht => ?_,
    fun i hi t ht j p hp => ?_⟩, hn, hk, fun p _ i _ => by rw [hm]⟩
  · rcases hf p hp with hp | hp
    · exact hout (h.free p hp)
    · exact hout hp
  · rw [hm] at ht
    exact hout (h.table i hi t ht)
  · rw [hm] at ht hp
    exact hout (h.entry i hi t ht j p hp)

theorem storePte (h : Walled K d σ) {i : Idx} (hi : i.User) {t : Nat}
    (ht : named (σ.mem d i) = some t) (j : Idx) {w : Word}
    (hw : ∀ p, named w = some p → Outside K σ p) :
    Walled K d (σ.store (t, j) w) ∧ WallKept K d σ (σ.store (t, j) w) ∧
      (σ.store (t, j) w).mem d = σ.mem d := by
  have htd : d ≠ t := by
    rintro rfl
    exact (h.table i hi d ht).2 h.dir
  have hd : (σ.store (t, j) w).mem d = σ.mem d := Function.update_of_ne htd _ _
  refine ⟨⟨h.npages_le, h.dir, fun p hp => h.free p (hp.congr rfl rfl), fun i' hi' t' ht' => ?_,
    fun i' hi' t' ht' j' p hp => ?_⟩, untouched_store (h.table i hi t ht).2 j w, hd⟩
  · rw [hd] at ht'
    exact h.table i' hi' t' ht'
  · rw [hd] at ht'
    rw [Phys.mem_store] at hp
    split_ifs at hp
    · exact hw p hp
    · exact h.entry i' hi' t' ht' j' p hp

theorem storePde (h : Walled K d σ) {i : Idx} (hi : i.User) {t : Nat} {w : Word}
    (hw : named w = some t) (ht : Outside K σ t)
    (hent : ∀ j p, named (σ.mem t j) = some p → Outside K σ p) :
    Walled K d (σ.store (d, i) w) ∧ WallKept K d σ (σ.store (d, i) w) := by
  have hdir : ∀ i', (σ.store (d, i) w).mem d i' = if i' = i then w else σ.mem d i' := by
    intro i'
    rw [Phys.mem_store]
    simp
  have hmem : ∀ {t'}, t' ∉ K → (σ.store (d, i) w).mem t' = σ.mem t' := by
    intro t' ht'
    refine Function.update_of_ne ?_ _ _
    rintro rfl
    exact ht' h.dir
  refine ⟨⟨h.npages_le, h.dir, fun p hp => h.free p (hp.congr rfl rfl), fun i' hi' t' ht' => ?_,
    fun i' hi' t' ht' j' p hp => ?_⟩, rfl, rfl, fun p hp i' hi' => ?_⟩
  · rw [hdir] at ht'
    split_ifs at ht'
    · rw [hw] at ht'
      exact Option.some.inj ht' ▸ ht
    · exact h.table i' hi' t' ht'
  · rw [hdir] at ht'
    split_ifs at ht'
    · rw [hw] at ht'
      obtain rfl := Option.some.inj ht'
      rw [hmem ht.2] at hp
      exact hent j' p hp
    · rw [hmem (h.table i' hi' t' ht').2] at hp
      exact h.entry i' hi' t' ht' j' p hp
  · rw [Phys.mem_store, if_neg]
    rintro ⟨rfl, rfl⟩
    exact hi' ⟨rfl, hi⟩

theorem decref (h : Walled K d σ) (hp : Outside K σ p) :
    Walled K d (pageDecref σ p) ∧ WallKept K d σ (pageDecref σ p) := by
  refine h.of_mem (mem_pageDecref σ p) (npages_pageDecref σ p) (kernPgdir_pageDecref σ p) ?_
  intro q hq
  rcases hq.pageDecref with rfl | hq
  · exact .inr hp
  · exact .inl hq

theorem alloc (h : Walled K d σ) (hhead : σ.pageFreeList = some p) (zero : Bool) :
    Walled K d (pageAlloc σ zero).2 ∧ WallKept K d σ (pageAlloc σ zero).2 ∧ Outside K σ p ∧
      (zero = true → ∀ j, (pageAlloc σ zero).2.mem p j = 0) := by
  have hp : Outside K σ p := h.free p (.head hhead)
  have hn : (pageAlloc σ zero).2.npages = σ.npages := by simp [pageAlloc, hhead]
  have hk : (pageAlloc σ zero).2.kernPgdir = σ.kernPgdir := by simp [pageAlloc, hhead]
  have hmem : ∀ f, f ≠ p → (pageAlloc σ zero).2.mem f = σ.mem f := by
    intro f hf
    rw [mem_pageAlloc hhead, if_neg fun hc => hf hc.2]
  have hout : ∀ {q}, Outside K σ q → Outside K (pageAlloc σ zero).2 q := fun hq => ⟨hn ▸ hq.1, hq.2⟩
  have hdp : d ≠ p := fun hc => hp.2 (hc ▸ h.dir)
  refine ⟨⟨hn ▸ h.npages_le, h.dir, fun q hq => hout (h.free q hq.pageAlloc), fun i hi t ht => ?_,
    fun i hi t ht j q hq => ?_⟩, ⟨hn, hk, fun q hq i _ => ?_⟩, hp, fun hz j => ?_⟩
  · rw [hmem d hdp] at ht
    exact hout (h.table i hi t ht)
  · rw [hmem d hdp] at ht
    rw [mem_pageAlloc hhead] at hq
    split_ifs at hq
    · change named 0#32 = some q at hq
      rw [named_zero] at hq
      cases hq
    · exact hout (h.entry i hi t ht j q hq)
  · rw [hmem q fun hc => hp.2 (hc ▸ hq)]
  · rw [mem_pageAlloc hhead, if_pos ⟨hz, rfl⟩]

/-! ## The operations -/

theorem walk (h : Walled K d σ) (hva : va < UTOP) :
    ∃ r σ', pgdirWalk σ d va true = .ok (r, σ') ∧ Walled K d σ' ∧ WallKept K d σ σ' ∧
      ∀ pte, r = some pte → pte.2 = PTX va ∧ named (σ'.mem d (PDX va)) = some pte.1 := by
  have hi := PDX_user hva
  by_cases hpr : Present (σ.mem d (PDX va))
  · have ht := named_of_present hpr
    refine ⟨some (PGNUM (σ.mem d (PDX va)), PTX va), σ, ?_, h, .refl K d σ, ?_⟩
    · rw [pgdirWalk, if_pos hpr, pa2page_of_lt (h.table _ hi _ ht).1]
      rfl
    · rintro pte rfl'
      obtain rfl := Option.some.inj rfl'
      exact ⟨rfl, ht⟩
  · cases hhead : σ.pageFreeList with
    | none =>
      refine ⟨none, σ, ?_, h, .refl K d σ, fun pte hpte => by cases hpte⟩
      rw [pgdirWalk, if_neg hpr, if_neg (by simp), pageAlloc, hhead]
      rfl
    | some q =>
      obtain ⟨h₁, hu₁, hq, hzero⟩ := h.alloc hhead true
      have h₂ : Walled K d (incRef (pageAlloc σ true).2 q) ∧
          WallKept K d (pageAlloc σ true).2 (incRef (pageAlloc σ true).2 q) :=
        h₁.of_mem rfl rfl rfl fun p hp => .inl (hp.congr rfl rfl)
      have hq₂ : Outside K (incRef (pageAlloc σ true).2 q) q := ⟨hu₁.npages ▸ hq.1, hq.2⟩
      have hnew : named (page2pa q ||| PTE_P ||| PTE_W) = some q := by
        rw [BitVec.or_assoc, BitVec.or_comm PTE_P, ← BitVec.or_assoc]
        exact named_mk (lt_of_lt_of_le hq.1 h.npages_le) PTE_ADDR_PTE_W
      obtain ⟨h₃, hu₃⟩ := h₂.1.storePde hi hnew hq₂ (by
        intro j p hp
        change named ((pageAlloc σ true).2.mem q j) = some p at hp
        rw [hzero rfl] at hp
        cases hp)
      refine ⟨some (q, PTX va), withTable σ d va q, ?_, h₃, (hu₁.trans h₂.2).trans hu₃, ?_⟩
      · have hal : pageAlloc σ true = (some q, (pageAlloc σ true).2) := by simp [pageAlloc, hhead]
        rw [pgdirWalk, if_neg hpr, if_neg (by simp), hal]
        rfl
      · intro pte hpte
        obtain rfl := Option.some.inj hpte
        refine ⟨rfl, ?_⟩
        rw [withTable, Phys.mem_store, if_pos ⟨rfl, rfl⟩]
        exact hnew

theorem lookup (h : Walled K d σ) (hva : va < UTOP) :
    ∃ r, pageLookup σ d va = .ok r ∧ ∀ pp pte, r = some (pp, pte) →
      Outside K σ pp ∧ named (σ.mem d (PDX va)) = some pte.1 := by
  have hi := PDX_user hva
  by_cases hpr : Present (σ.mem d (PDX va))
  · have ht := named_of_present hpr
    have hwalk : pgdirWalk σ d va false = .ok (some (PGNUM (σ.mem d (PDX va)), PTX va), σ) := by
      rw [pgdirWalk, if_pos hpr, pa2page_of_lt (h.table _ hi _ ht).1]
      rfl
    set w := σ.mem (PGNUM (σ.mem d (PDX va))) (PTX va) with hw
    by_cases hpte : Present w
    · have hout := h.entry _ hi _ ht _ _ (named_of_present hpte)
      refine ⟨some (PGNUM w, PGNUM (σ.mem d (PDX va)), PTX va), ?_, fun pp pte hr => ?_⟩
      · rw [pageLookup, hwalk]
        change (if Present w then _ else _) = _
        rw [if_pos hpte, ← PGNUM_PTE_ADDR w]
        have hlt : PGNUM (PTE_ADDR w) < σ.npages := by
          rw [PGNUM_PTE_ADDR]
          exact hout.1
        change (do let pp ← pa2page σ (PTE_ADDR w); _) = _
        rw [pa2page_of_lt hlt]
        rfl
      · cases Option.some.inj hr
        exact ⟨hout, ht⟩
    · refine ⟨none, ?_, fun pp pte hr => by cases hr⟩
      rw [pageLookup, hwalk]
      change (if Present w then _ else _) = _
      rw [if_neg hpte]
      rfl
  · refine ⟨none, ?_, fun pp pte hr => by cases hr⟩
    rw [pageLookup, pgdirWalk, if_neg hpr]
    rfl

theorem remove (h : Walled K d σ) (hva : va < UTOP) :
    ∃ σ', pageRemove σ d va = .ok σ' ∧ Walled K d σ' ∧ WallKept K d σ σ' ∧ σ'.mem d = σ.mem d := by
  have hi := PDX_user hva
  obtain ⟨r, hr, hpte⟩ := h.lookup hva
  rw [pageRemove, hr]
  cases r with
  | none => exact ⟨σ, rfl, h, .refl K d σ, rfl⟩
  | some x =>
    obtain ⟨pp, t, j⟩ := x
    obtain ⟨hpp, ht⟩ := hpte pp (t, j) rfl
    obtain ⟨h₁, hu₁⟩ := h.decref hpp
    set σ₁ := pageDecref σ pp with hσ₁
    -- Invalidating the TLB changes nothing the invariant reads.
    set σ₂ := if σ₁.ppRef pp = 0 then tlbInvalidate σ₁ d va else σ₁ with hσ₂
    have h₂ : Walled K d σ₂ ∧ WallKept K d σ₁ σ₂ := by
      rw [hσ₂]
      split_ifs
      · exact h₁.of_mem rfl rfl rfl fun p hp => .inl (hp.congr rfl rfl)
      · exact ⟨h₁, .refl K d σ₁⟩
    have hm₂ : σ₂.mem = σ.mem := by
      rw [hσ₂]
      split_ifs
      · exact mem_pageDecref σ pp
      · exact mem_pageDecref σ pp
    have ht₂ : named (σ₂.mem d (PDX va)) = some t := by
      rw [hm₂]
      exact ht
    obtain ⟨h₃, hu₃, hd₃⟩ := h₂.1.storePte hi ht₂ j (w := 0) fun p hp => by cases hp
    exact ⟨σ₂.store (t, j) 0, rfl, h₃, (hu₁.trans h₂.2).trans hu₃, by rw [hd₃, hm₂]⟩

theorem install (h : Walled K d σ) (hva : va < UTOP) {perm : Word} (hperm : PTE_ADDR perm = 0)
    {pp t : Nat} (hpp : Outside K σ pp) (ht : named (σ.mem d (PDX va)) = some t) :
    ∃ σ', installPte σ d (t, PTX va) pp va perm = .ok σ' ∧ Walled K d σ' ∧ WallKept K d σ σ' := by
  have hi := PDX_user hva
  set w := σ.mem d (PDX va) ||| (perm ||| PTE_P) with hw
  have hw_named : named w = some t := by
    have hpr : Present w := present_or.2 (.inr (present_or_PTE_P perm))
    have hpr₀ : Present (σ.mem d (PDX va)) := by
      by_contra hc
      rw [named_eq_none.2 hc] at ht
      cases ht
    have haddr : PTE_ADDR (perm ||| PTE_P) = 0 := by
      rw [PTE_ADDR_or, hperm, PTE_ADDR_PTE_P]
      rfl
    have hpg : PGNUM w = PGNUM (σ.mem d (PDX va)) :=
      PGNUM_congr (by rw [hw, PTE_ADDR_or, haddr]; exact BitVec.or_zero)
    rw [named_of_present hpr, hpg, ← named_of_present hpr₀]
    exact ht
  obtain ⟨h₁, hu₁⟩ := h.storePde hi hw_named (h.table _ hi t ht) (h.entry _ hi t ht)
  set σ₁ := σ.store (d, PDX va) w with hσ₁
  have ht₁ : named (σ₁.mem d (PDX va)) = some t := by
    rw [hσ₁, Phys.mem_store, if_pos ⟨rfl, rfl⟩]
    exact hw_named
  -- Whatever happens in between, the entry is written at the end.
  have hend : ∀ σ₂, Walled K d σ₂ → WallKept K d σ₁ σ₂ → σ₂.mem d = σ₁.mem d →
      Walled K d (σ₂.store (t, PTX va) (page2pa pp ||| perm ||| PTE_P)) ∧
        WallKept K d σ (σ₂.store (t, PTX va) (page2pa pp ||| perm ||| PTE_P)) := by
    intro σ₂ h₂ hu₂ hd₂
    have hu := hu₁.trans hu₂
    have ht₂ : named (σ₂.mem d (PDX va)) = some t := by
      rw [hd₂]
      exact ht₁
    have hnew : ∀ p, named (page2pa pp ||| perm ||| PTE_P) = some p → Outside K σ₂ p := by
      intro p hp
      rw [named_mk (lt_of_lt_of_le hpp.1 h.npages_le) hperm] at hp
      obtain rfl := Option.some.inj hp
      exact ⟨hu.npages ▸ hpp.1, hpp.2⟩
    obtain ⟨h₃, hu₃, -⟩ := h₂.storePte hi ht₂ (PTX va) hnew
    exact ⟨h₃, hu.trans hu₃⟩
  have h₂ : Walled K d (incRef σ₁ pp) ∧ WallKept K d σ₁ (incRef σ₁ pp) :=
    h₁.of_mem rfl rfl rfl fun p hp => .inl (hp.congr rfl rfl)
  unfold installPte
  simp only [← hw, ← hσ₁]
  split_ifs
  · obtain ⟨σ₂, hx, h₃, hu₃, hd₃⟩ := h₂.1.remove hva
    rw [hx]
    exact ⟨_, rfl, hend σ₂ h₃ (h₂.2.trans hu₃) hd₃⟩
  · exact ⟨_, rfl, hend _ h₂.1 h₂.2 rfl⟩
  · exact ⟨_, rfl, hend σ₁ h₁ (.refl K d σ₁) rfl⟩

theorem insert (h : Walled K d σ) (hva : va < UTOP) {perm : Word} (hperm : PTE_ADDR perm = 0)
    {pp : Option Nat} (hpp : ∀ p, pp = some p → Outside K σ p) :
    ∃ r σ', pageInsert σ d pp va perm = .ok (r, σ') ∧ Walled K d σ' ∧ WallKept K d σ σ' := by
  obtain ⟨r, σ₁, hx, h₁, hu₁, hpte⟩ := h.walk hva
  rw [pageInsert, hx]
  cases r with
  | none => exact ⟨_, σ₁, rfl, h₁, hu₁⟩
  | some pte =>
    obtain ⟨t, j⟩ := pte
    obtain ⟨rfl, ht⟩ := hpte (t, j) rfl
    cases pp with
    | none => exact ⟨_, σ₁, rfl, h₁, hu₁⟩
    | some p =>
      obtain ⟨hlt, hK⟩ := hpp p rfl
      obtain ⟨σ₂, hx₂, h₂, hu₂⟩ := h₁.install hva hperm ⟨hu₁.npages ▸ hlt, hK⟩ ht
      refine ⟨0, σ₂, ?_, h₂, hu₁.trans hu₂⟩
      simp only [ok_bind, hx₂]
      rfl

/-- **A step** that stays outside the wall. -/
theorem step (h : Walled K d σ) {op : SpaceOp} (hop : op.StaysOutside K σ) :
    ∃ σ', op.run d σ = .ok σ' ∧ Walled K d σ' ∧ WallKept K d σ σ' := by
  cases op with
  | alloc zero =>
    cases hhead : σ.pageFreeList with
    | none =>
      refine ⟨σ, ?_, h, .refl K d σ⟩
      rw [SpaceOp.run, pageAlloc, hhead]
    | some q =>
      obtain ⟨h', hu, -⟩ := h.alloc hhead zero
      exact ⟨_, rfl, h', hu⟩
  | insert pp va perm =>
    obtain ⟨hva, hperm, hpp⟩ := hop
    obtain ⟨r, σ', hx, h', hu⟩ := h.insert hva hperm hpp
    refine ⟨σ', ?_, h', hu⟩
    rw [SpaceOp.run, hx]
    rfl
  | remove va =>
    obtain ⟨σ', hx, h', hu, -⟩ := h.remove hop
    exact ⟨σ', hx, h', hu⟩

/-- **A run** of such steps. -/
theorem run (h : Walled K d σ) {ops : List SpaceOp} (hops : ∀ op ∈ ops, op.StaysOutside K σ) :
    ∃ σ', ops.foldlM (SpaceOp.run d) σ = .ok σ' ∧ Walled K d σ' ∧ WallKept K d σ σ' := by
  refine foldlM_ok (motive := fun _ τ => Walled K d τ ∧ WallKept K d σ τ) ?_ ⟨h, .refl K d σ⟩
  intro done op τ hmem hτ
  obtain ⟨τ', hx, hτ', hu⟩ := hτ.1.step ((hops op hmem).congr hτ.2.npages)
  exact ⟨τ', hx, hτ', hτ.2.trans hu⟩

end Walled

/-! ## A new directory -/

theorem OnFreeList.mem_chain {free : List Nat} (h : OnFreeList σ p)
    (hc : Chain σ.ppLink σ.pageFreeList free) : p ∈ free := by
  obtain ⟨l, hl, hsub⟩ : ∃ l, Chain σ.ppLink (some p) l ∧ l <:+ free := by
    induction h with
    | head h => exact ⟨free, h ▸ hc, List.suffix_rfl⟩
    | link _ h ih =>
      obtain ⟨l, hl, hsub⟩ := ih
      obtain ⟨l', rfl, hl'⟩ := hl.pop
      exact ⟨l', h ▸ hl', (List.suffix_cons _ l').trans hsub⟩
  obtain ⟨l', rfl, -⟩ := hl.pop
  exact hsub.subset List.mem_cons_self

theorem SameEntry.and {v w f : Word} (h : SameEntry v w)
    (hf : ~~~(PTE_A ||| PTE_D) &&& f = f) : v &&& f = w &&& f := by
  rw [← hf, ← BitVec.and_assoc, ← BitVec.and_assoc, h]

theorem SameEntry.named {v w : Word} (h : SameEntry v w) : named v = named w := by
  have hpr : Present v ↔ Present w := by
    unfold Present
    rw [h.and (by decide)]
  have hpg : PGNUM v = PGNUM w := PGNUM_congr (h.and (by decide))
  unfold Jos.named
  simp only [hpr, hpg]

/-- The address space `d` shares the kernel's part, as `mem_init` built it in `σ₁`. -/
structure SharesKernel (σ₁ σ : Phys) (d : Nat) : Prop where
  kernPgdir : σ.kernPgdir = σ₁.kernPgdir
  same : ∀ i : Idx, ¬ i.User → i ≠ PDX UVPT → σ.mem d i = σ.mem σ.kernPgdir i
  uvpt : σ.mem d (PDX UVPT) = page2pa d ||| PTE_P ||| PTE_U
  entry : ∀ p ∈ KernelTable σ₁ σ₁.kernPgdir, ∀ i, SameEntry (σ.mem p i) (σ₁.mem p i)

theorem KernTab.kern_mem {free : List Nat} (h : KernTab σ free) :
    σ.kernPgdir ∈ KernelTable σ σ.kernPgdir := by
  refine ⟨PDX UVPT, by decide, .inl ?_⟩
  rw [h.uvpt]
  exact named_mk (lt_of_lt_of_le h.kern_lt h.npages_le) (by decide)

theorem has_flag {w bits f : Word} (h : w &&& bits = bits) (hf : bits &&& f = f) : w &&& f = f := by
  rw [← hf, ← BitVec.and_assoc, h]

/-- **The rights above `UTOP`**, by the layout. -/
theorem SharesKernel.protected {σ₁ : Phys} {free : List Nat} {kd np : Nat}
    (hb : KernBuilt kd np σ₁ free) (h : SharesKernel σ₁ σ d) : Protected σ d := by
  have hkd := hb.tab.kern_mem
  -- The only entries with `PTE_U` are the ones for the user to read, and `UVPT`.
  have hreads : ∀ i : Idx, ¬ i.User → i ≠ PDX UVPT → σ.mem d i &&& PTE_U = PTE_U →
      UserReads i := by
    intro i hi hne hU
    apply hb.rights.pde_u i hne
    rw [← (h.entry _ hkd i).and (by decide), ← h.kernPgdir, ← h.same i hi hne, hU]
    decide
  have hnot : ∀ {va : Word}, UTOP ≤ va → ¬ (PDX va).User := by
    intro va hva hu
    have hva' : UTOP.toNat ≤ va.toNat := hva
    have hu' : (PDX va).val < (PDX UTOP).val := hu
    rw [show UTOP.toNat = 955 * 2 ^ 22 by decide] at hva'
    rw [show (PDX UTOP).val = 955 by decide, val_PDX] at hu'
    omega
  refine ⟨fun i hi hne => h.same i (not_lt.2 hi) hne, fun va hva hp => ?_, fun va hva hp => ?_⟩
  · obtain ⟨hu, hne, hr⟩ := fits_kernel hva
    have hreads' := hreads _ hu hne (has_flag hp.1 (by decide))
    rcases hr with ⟨-, hc⟩ | ⟨hr, -⟩
    · exact absurd hc (by decide)
    · exact hr hreads'
  · by_cases hne : PDX va = PDX UVPT
    · have hW := has_flag (f := PTE_W) hp.1 (by decide)
      rw [hne, h.uvpt] at hW
      have hzero : (page2pa d ||| PTE_P ||| PTE_U) &&& PTE_W = 0 :=
        or_and_zero (or_and_zero (page2pa_and d (by decide)) (by decide)) (by decide)
      rw [hzero] at hW
      exact absurd hW (by decide)
    · have hu := hnot hva
      have hr := hreads _ hu hne (has_flag hp.1 (by decide))
      have hse := h.entry _ hkd (PDX va)
      have hpde : σ.mem d (PDX va) = σ.mem σ₁.kernPgdir (PDX va) := by
        rw [h.same _ hu hne, h.kernPgdir]
      have hpr₁ : Present (σ₁.mem σ₁.kernPgdir (PDX va)) := by
        have hP := has_flag (f := PTE_P) hp.1 (by decide)
        rw [hpde, hse.and (by decide)] at hP
        rw [Present, hP]
        decide
      have hpg : PGNUM (σ.mem d (PDX va)) = PGNUM (σ₁.mem σ₁.kernPgdir (PDX va)) := by
        rw [hpde]
        exact PGNUM_congr (hse.and (by decide))
      have ht : PGNUM (σ₁.mem σ₁.kernPgdir (PDX va)) ∈ KernelTable σ₁ σ₁.kernPgdir :=
        ⟨_, hu, .inl (named_of_present hpr₁)⟩
      have hW := has_flag (f := PTE_W) hp.2 (by decide)
      rw [mmuPte, hpg, (h.entry _ ht (PTX va)).and (by decide)] at hW
      have hzero := hb.rights.pte_w _ (PTX va) hr
      rw [kernVm, if_pos hpr₁, hW] at hzero
      exact absurd hzero (by decide)

/-- What `env_setup_vm` makes of the kernel's part. -/
theorem setup_walled {σ₁ : Phys} {free : List Nat} {kd np : Nat} (hb : KernBuilt kd np σ₁ free)
    (hk : KernelKept σ₁ σ) (hhead : σ.pageFreeList = some p) :
    ∃ τ, τ = initPgdir (pageAlloc σ true).2 p ∧ Walled (KernelTable τ p) p τ ∧ SharesKernel σ₁ τ p ∧
      KernelTable σ₁ σ₁.kernPgdir ⊆ KernelTable τ p ∧ p ∉ KernelTable σ₁ σ₁.kernPgdir := by
  obtain ⟨l, hchain, hout⟩ := hk.free
  rw [hhead] at hchain
  obtain ⟨rest, rfl, -⟩ := hchain.pop
  obtain ⟨hlt, hpK⟩ := hout p List.mem_cons_self
  have hkd := hb.tab.kern_mem
  have hkp : σ.kernPgdir ≠ p := by
    rintro rfl
    exact hpK (hk.kernPgdir ▸ hkd)
  set τ := initPgdir (pageAlloc σ true).2 p with hτ
  have hnp : τ.npages = σ₁.npages := by
    rw [← hk.npages, hτ]
    simp [initPgdir, pageAlloc, hhead, Phys.store, incRef]
  have hkern : τ.kernPgdir = σ.kernPgdir := kernPgdir_initPgdir σ p
  have hmem : ∀ f, f ≠ p → τ.mem f = σ.mem f := by
    intro f hf
    rw [hτ, mem_initPgdir _ p f hf, mem_pageAlloc hhead, if_neg fun hc => hf hc.2]
  have hdir : ∀ i, τ.mem p i =
      if i = PDX UVPT then page2pa p ||| PTE_P ||| PTE_U else σ.mem σ.kernPgdir i := by
    intro i
    have hsrc : (pageAlloc σ true).2.mem σ.kernPgdir = σ.mem σ.kernPgdir := by
      rw [mem_pageAlloc hhead, if_neg fun hc => hkp hc.2]
    have hkal : (pageAlloc σ true).2.kernPgdir = σ.kernPgdir := by simp [pageAlloc, hhead]
    rw [hτ, initPgdir]
    simp only [Phys.mem_store, true_and, incRef, Function.update_self, hkal, hsrc]
  have hself : named (page2pa p ||| PTE_P ||| PTE_U) = some p := by
    rw [BitVec.or_assoc, BitVec.or_comm PTE_P, ← BitVec.or_assoc]
    exact named_mk (lt_of_lt_of_le hlt hb.tab.npages_le) (by decide)
  have hkept : ∀ i, named (σ.mem σ.kernPgdir i) = named (σ₁.mem σ₁.kernPgdir i) := by
    intro i
    rw [hk.kernPgdir]
    exact (hk.entry _ hkd i).named
  have hshares : SharesKernel σ₁ τ p := by
    refine ⟨hkern.trans hk.kernPgdir, fun i _ hne => ?_, ?_, fun q hq i => ?_⟩
    · rw [hdir, if_neg hne, hkern, hmem _ hkp]
    · rw [hdir, if_pos rfl]
    · rw [hmem q fun hc => hpK (hc ▸ hq)]
      exact hk.entry q hq i
  have hsub : KernelTable σ₁ σ₁.kernPgdir ⊆ KernelTable τ p := by
    rintro q ⟨i, hi, hq⟩
    refine ⟨i, hi, .inl ?_⟩
    rw [hkern, hmem _ hkp, hkept]
    exact hq.elim id id
  have hK : ∀ q ∈ KernelTable τ p, q = p ∨ q ∈ KernelTable σ₁ σ₁.kernPgdir := by
    rintro q ⟨i, hi, hq | hq⟩
    · rw [hkern, hmem _ hkp, hkept] at hq
      exact .inr ⟨i, hi, .inl hq⟩
    · rw [hdir] at hq
      split_ifs at hq
      · rw [hself] at hq
        exact .inl (Option.some.inj hq).symm
      · rw [hkept] at hq
        exact .inr ⟨i, hi, .inl hq⟩
  have hnone : ∀ i : Idx, i.User → ∀ t, named (τ.mem p i) ≠ some t := by
    intro i hi t ht
    have hne : i ≠ PDX UVPT := by
      rintro rfl
      exact absurd hi (by decide)
    rw [hdir, if_neg hne, hkept, named_eq_none.2 (hb.rights.user i hi)] at ht
    cases ht
  refine ⟨τ, rfl, ⟨?_, ?_, fun q hq => ?_, fun i hi t ht => (hnone i hi t ht).elim,
    fun i hi t ht => (hnone i hi t ht).elim⟩, hshares, hsub, hpK⟩
  · rw [hnp]
    exact hb.tab.npages_le
  · refine ⟨PDX UVPT, by decide, .inr ?_⟩
    rw [hdir, if_pos rfl]
    exact hself
  · have hchain' : Chain (pageAlloc σ true).2.ppLink (pageAlloc σ true).2.pageFreeList rest := by
      have hpop := hchain.pop_update none
      simpa [pageAlloc, hhead] using hpop
    have hqr : q ∈ rest :=
      OnFreeList.mem_chain (σ := (pageAlloc σ true).2) (hq.congr rfl rfl) hchain'
    obtain ⟨hqlt, hqK⟩ := hout q (List.mem_cons_of_mem p hqr)
    refine ⟨hnp ▸ hqlt, fun hc => ?_⟩
    rcases hK q hc with rfl | hc
    · exact (List.nodup_cons.1 hchain.nodup).1 hqr
    · exact hqK hc

theorem SharesKernel.untouched {σ₁ : Phys} (h : SharesKernel σ₁ σ d) (hu : WallKept K d σ σ')
    (hd : d ∈ K) (hkd : σ₁.kernPgdir ∈ KernelTable σ₁ σ₁.kernPgdir)
    (hsub : KernelTable σ₁ σ₁.kernPgdir ⊆ K) (hnot : d ∉ KernelTable σ₁ σ₁.kernPgdir) :
    SharesKernel σ₁ σ' d := by
  have hmem : ∀ p ∈ KernelTable σ₁ σ₁.kernPgdir, ∀ i, σ'.mem p i = σ.mem p i := by
    intro p hp i
    refine hu.mem p (hsub hp) i ?_
    rintro ⟨rfl, -⟩
    exact hnot hp
  refine ⟨hu.kernPgdir.trans h.kernPgdir, fun i hi hne => ?_, ?_, fun p hp i => ?_⟩
  · rw [hu.mem d hd i fun hc => hi hc.2, h.same i hi hne, hu.kernPgdir, h.kernPgdir, hmem _ hkd]
  · rw [hu.mem d hd _ fun hc => absurd hc.2 (by decide)]
    exact h.uvpt
  · rw [hmem p hp]
    exact h.entry p hp i

/-- **The kernel is protected in every address space.** -/
theorem kernel_protected {σ₀ σ₁ : Phys} {free : List Nat} {place : Placement}
    (h₀ : PageInit σ₀ free) (hinit : memInit place σ₀ = .ok σ₁) {k k' : Kernel}
    (hk : KernelKept σ₁ k.phys) {e : EnvIdx} (hset : envSetupVm k e = .ok (0, k'))
    (hd : k'.dirs e = some d) {ops : List SpaceOp} (hops : ∀ op ∈ ops, op.Allowed k'.phys d) :
    ∃ σ', ops.foldlM (SpaceOp.run d) k'.phys = .ok σ' ∧ Protected σ' d := by
  obtain ⟨free₁, hb⟩ := memInit_built h₀.allocInit hinit
  cases hhead : k.phys.pageFreeList with
  | none =>
    rw [envSetupVm_none hhead] at hset
    have hcode : -E_NO_MEM = (0 : Word) := congrArg Prod.fst (Except.ok.inj hset)
    exact absurd hcode (by decide)
  | some p =>
    rw [envSetupVm_some hhead] at hset
    obtain rfl := congrArg Prod.snd (Except.ok.inj hset)
    obtain rfl : p = d := by simpa [Kernel.dirs, Kernel.setEnv] using hd
    obtain ⟨τ, hτ, hw, hs, hsub, hnot⟩ := setup_walled hb hk hhead
    change ∀ op ∈ ops, op.Allowed (initPgdir (pageAlloc k.phys true).2 p) p at hops
    change ∃ σ', ops.foldlM (SpaceOp.run p) (initPgdir (pageAlloc k.phys true).2 p) = .ok σ' ∧ _
    rw [← hτ] at hops ⊢
    obtain ⟨σ', hx, -, hu⟩ := hw.run fun op hop => (hops op hop).staysOutside
    exact ⟨σ', hx, (hs.untouched hu hw.dir hb.tab.kern_mem hsub hnot).protected hb⟩

/-- 16 MB of memory, with the pages below 101 free. -/
def pagesPhys : Phys where
  npages := i386DetectMemory 640 15360
  mem := fun _ _ => 0
  ppRef := fun _ => 0
  ppLink := fun p => if p < 100 then some (p + 1) else none
  pageFreeList := some 1
  nAvailPages := 100
  kernPgdir := 280
  tlb := []

def kernPlace : Placement := ⟨0x119000#32, 0x125000#32, 0x110000#32, fun _ => 0x180000#32⟩

def mappedKernel (σ : Phys) : Kernel :=
  { phys := σ, envs := fun _ => {}, envFreeList := some 0, cpuEnv := fun _ => none
    cr3 := fun _ => σ.kernPgdir }

theorem pagesPhys_pageInit : PageInit pagesPhys ((List.range 100).map (· + 1)) := by
  refine ⟨⟨640, 15360, by rw [pagesPhys]⟩, Chain.of_follow (n := 101) (by decide +kernel),
    fun p hp => ?_, by decide +kernel, by decide +kernel⟩
  obtain ⟨i, hi, rfl⟩ := List.mem_map.1 hp
  have hn : pagesPhys.npages = 4096 := by decide +kernel
  rw [List.mem_range] at hi
  rw [hn]
  omega

theorem KernelKept.refl {kd np : Nat} {free : List Nat} (hb : KernBuilt kd np σ free) :
    KernelKept σ σ := by
  refine ⟨rfl, rfl, fun _ _ _ => rfl, free, hb.tab.chain, fun p hp => ⟨hb.tab.bound p hp, ?_⟩⟩
  rintro ⟨i, -, hi⟩
  have hi' := hi.elim id id
  by_cases hne : i = PDX UVPT
  · rw [hne, hb.tab.uvpt, named_mk (lt_of_lt_of_le hb.tab.kern_lt hb.tab.npages_le)
      (by decide)] at hi'
    exact hb.tab.kern_free (Option.some.inj hi' ▸ hp)
  · exact (hb.tab.table i hne p hi').1 hp

/-- The first environment after `mem_init` allocates a page, maps it and unmaps it. -/
theorem kernel_protected_first : ∃ σ₁ k' d q σ', memInit kernPlace pagesPhys = .ok σ₁ ∧
    envSetupVm (mappedKernel σ₁) 0 = .ok (0, k') ∧ k'.dirs 0 = some d ∧
    k'.phys.pageFreeList = some q ∧
    [SpaceOp.alloc true, .insert (some q) 0x800000#32 (PTE_U ||| PTE_W), .remove 0x800000#32].foldlM
      (SpaceOp.run d) k'.phys = .ok σ' ∧ Protected σ' d := by
  have hroom : 67 + 2 ≤ ((List.range 100).map (· + 1)).length := by simp
  obtain ⟨σ₁, free, hinit, hb, hlen⟩ := memInit_ok pagesPhys_pageInit.allocInit hroom kernPlace
  have hk := KernelKept.refl hb
  obtain ⟨p, q, rest, rfl⟩ : ∃ p q rest, free = p :: q :: rest := by
    rcases free with _ | ⟨p, _ | ⟨q, rest⟩⟩
    · simp at hlen
    · simp at hlen
    · exact ⟨p, q, rest, rfl⟩
  have hchain := hb.tab.chain
  have hhead : σ₁.pageFreeList = some p := by
    generalize σ₁.pageFreeList = o at hchain ⊢
    cases hchain
    rfl
  have hlink : σ₁.ppLink p = some q := by
    rw [hhead] at hchain
    obtain ⟨l, hl, hchain'⟩ := hchain.pop
    obtain rfl : q :: rest = l := (List.cons.inj hl).2
    generalize σ₁.ppLink p = o at hchain' ⊢
    cases hchain'
    rfl
  obtain ⟨τ, hτ, hw, -, -, -⟩ := setup_walled hb hk hhead
  obtain ⟨k', hset, hd, hphys⟩ : ∃ k', envSetupVm (mappedKernel σ₁) 0 = .ok (0, k') ∧
      k'.dirs 0 = some p ∧ k'.phys = τ :=
    ⟨_, envSetupVm_some hhead 0, by simp [Kernel.dirs, Kernel.setEnv], hτ.symm⟩
  have hfree : k'.phys.pageFreeList = some q := by
    rw [hphys, hτ]
    simp [initPgdir, pageAlloc, hhead, Phys.store, incRef, hlink]
  have hq : Outside (KernelTable k'.phys p) k'.phys q := by
    rw [hphys] at hfree ⊢
    exact hw.free q (.head hfree)
  have hops : ∀ op ∈ [SpaceOp.alloc true, .insert (some q) 0x800000#32 (PTE_U ||| PTE_W),
      .remove 0x800000#32], op.Allowed k'.phys p := by
    intro op hop
    simp only [List.mem_cons, List.not_mem_nil, or_false] at hop
    rcases hop with rfl | rfl | rfl
    · trivial
    · refine ⟨by decide, by decide, fun p' hp' => ?_⟩
      obtain rfl := Option.some.inj hp'
      exact hq
    · change 0x800000#32 < UTOP
      decide
  obtain ⟨σ', hrun, hprot⟩ := kernel_protected pagesPhys_pageInit hinit hk hset hd hops
  exact ⟨σ₁, k', p, q, σ', hinit, hset, hd, hfree, hrun, hprot⟩

end Jos
