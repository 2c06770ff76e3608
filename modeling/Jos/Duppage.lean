import Jos.Stores

/-!
# `duppage` and faults in its middle

The parent runs `duppage` on the pages it runs on, its stack among them. So between any two steps of
the function it may write to the very page that is being duplicated, and if the page is
copy-on-write by then, the write replaces it.

**The steps** (`DupAct`). Each read of `vpd` and `vpt` is one step, and so is each system call: the
C function reads `vpt[pn]` anew for every test and for each of the two calls. Between them the
parent may store to page `pn` (`DupStep`). Without stores the steps are the function `duppage`
(`duppage_of_quiet`).

**The argument.** Until the first call the parent's own entry is the only one through which its page
can be written. The first call gives the child whatever page the parent has then. From there on only
the parent's entry could write the child's page; the second call, made on the page the parent has by
that time, closes it.

**Two limits.** Page `PFTEMP` belongs to the fault handler and cannot be duplicated safely
(`PageLost`). And a page stays shut only as long as it is mapped somewhere: once nobody maps it, it
is free and comes back as the copy of the next fault (`PageReused`).
-/

namespace Jos

open Lib Relation

variable {managed tables : Set Nat} {σ σ' : Phys} {free free' : List Nat} {k k' k₁ : Kernel}
  {cur child e : EnvIdx} {envid va perm : Word} {pn p : Nat} {b : BitVec 8}

/-! ## The steps -/

/-- Where the parent is in `duppage`. -/
inductive DupPc
  | start
  | table
  | present
  | shared
  | first (perm : Word)
  | between
  | second (perm : Word)
  | done

/-- One step of `duppage` on a page that is writable or copy-on-write, with calls that succeed. -/
inductive DupAct (cur : EnvIdx) (envid : Word) (pn : Nat) : DupPc × Kernel → DupPc × Kernel → Prop
  | readPde {k : Kernel} {pde : Word} (hr : readWord k cur (vpd (pn >>> 10)) = .ok pde)
      (hpde : PTE_P ||| PTE_U = pde &&& (PTE_P ||| PTE_U)) :
      DupAct cur envid pn (.start, k) (.table, k)
  | readPte {k : Kernel} {pte : Word} (hr : readWord k cur (vpt pn) = .ok pte)
      (hpte : PTE_U ||| PTE_P = pte &&& (PTE_U ||| PTE_P)) :
      DupAct cur envid pn (.table, k) (.present, k)
  | readCow {k : Kernel} {pte : Word} (hr : readWord k cur (vpt pn) = .ok pte)
      (hpte : pte &&& (PTE_W ||| PTE_COW) ≠ 0) : DupAct cur envid pn (.present, k) (.shared, k)
  | readFirst {k : Kernel} {pte : Word} (hr : readWord k cur (vpt pn) = .ok pte) :
      DupAct cur envid pn (.shared, k) (.first (cowFlags pte), k)
  | mapChild {k k' : Kernel} {perm : Word}
      (hr : sysPageMap k cur 0 (PGNUM2LA pn) envid (PGNUM2LA pn) perm = .ok (0, k')) :
      DupAct cur envid pn (.first perm, k) (.between, k')
  | readSecond {k : Kernel} {pte : Word} (hr : readWord k cur (vpt pn) = .ok pte) :
      DupAct cur envid pn (.between, k) (.second (cowFlags pte), k)
  | mapSelf {k k' : Kernel} {perm : Word}
      (hr : sysPageMap k cur 0 (PGNUM2LA pn) 0 (PGNUM2LA pn) perm = .ok (0, k')) :
      DupAct cur envid pn (.second perm, k) (.done, k')

/-- `duppage` with stores of the parent to page `pn` between its steps. -/
inductive DupStep (cur : EnvIdx) (envid : Word) (pn : Nat) : DupPc × Kernel → DupPc × Kernel → Prop
  | act {s t : DupPc × Kernel} (h : DupAct cur envid pn s t) : DupStep cur envid pn s t
  | store {pc : DupPc} {k k' : Kernel} {va : Word} {b : BitVec 8} (hpc : pc ≠ .done)
      (hva : PGNUM va = pn) (hs : UserStore cur va b k k') : DupStep cur envid pn (pc, k) (pc, k')

/-! ## Without stores -/

section
variable (cur : EnvIdx) (envid : Word) (pn : Nat)

def dupSecond (k : Kernel) (perm : Word) : Except UserStop (Word × Kernel) := do
  let (_, k) ← ofCall (sysPageMap k cur 0 (PGNUM2LA pn) 0 (PGNUM2LA pn) perm)
  return (0, k)

def dupBetween (k : Kernel) : Except UserStop (Word × Kernel) := do
  let pte ← readWord k cur (vpt pn)
  dupSecond cur pn k (cowFlags pte)

def dupFirst (k : Kernel) (perm : Word) : Except UserStop (Word × Kernel) := do
  let (_, k) ← ofCall (sysPageMap k cur 0 (PGNUM2LA pn) envid (PGNUM2LA pn) perm)
  dupBetween cur pn k

def dupShared (k : Kernel) : Except UserStop (Word × Kernel) := do
  let pte ← readWord k cur (vpt pn)
  dupFirst cur envid pn k (cowFlags pte)

def dupPresent (k : Kernel) : Except UserStop (Word × Kernel) := do
  let pte ← readWord k cur (vpt pn)
  if pte &&& (PTE_W ||| PTE_COW) = 0 then do
    let pte ← readWord k cur (vpt pn)
    let (_, k) ← ofCall (sysPageMap k cur 0 (PGNUM2LA pn) envid (PGNUM2LA pn) (PGOFF pte))
    return (0, k)
  else dupShared cur envid pn k

def dupTable (k : Kernel) : Except UserStop (Word × Kernel) := do
  let pte ← readWord k cur (vpt pn)
  if PTE_U ||| PTE_P ≠ pte &&& (PTE_U ||| PTE_P) then return (-E_INVAL, k)
    else dupPresent cur envid pn k

/-- What is left of `duppage` from each of its points, each read of `vpt[pn]` made anew. -/
def dupRest : DupPc × Kernel → Except UserStop (Word × Kernel)
  | (.start, k) => do
    let pde ← readWord k cur (vpd (pn >>> 10))
    if ¬ (PTE_P ||| PTE_U = pde &&& (PTE_P ||| PTE_U)) then return (-E_INVAL, k)
      else dupTable cur envid pn k
  | (.table, k) => dupTable cur envid pn k
  | (.present, k) => dupPresent cur envid pn k
  | (.shared, k) => dupShared cur envid pn k
  | (.first perm, k) => dupFirst cur envid pn k perm
  | (.between, k) => dupBetween cur pn k
  | (.second perm, k) => dupSecond cur pn k perm
  | (.done, k) => .ok (0, k)

/-- Reading the same entry again makes no difference. -/
theorem dupRest_start (k : Kernel) : dupRest cur envid pn (.start, k) = duppage k cur envid pn := by
  have htable : dupTable cur envid pn k = (do
      let pte ← readWord k cur (vpt pn)
      if PTE_U ||| PTE_P ≠ pte &&& (PTE_U ||| PTE_P) then return (-E_INVAL, k)
      else if pte &&& (PTE_W ||| PTE_COW) = 0 then do
        let (_, k) ← ofCall (sysPageMap k cur 0 (PGNUM2LA pn) envid (PGNUM2LA pn) (PGOFF pte))
        return (0, k)
      else dupFirst cur envid pn k (cowFlags pte)) := by
    unfold dupTable dupPresent dupShared
    cases hr : readWord k cur (vpt pn) with
    | error stop => rfl
    | ok pte => simp only [ok_bind]
  unfold duppage
  simp only [dupRest, htable]
  rfl

end

theorem DupAct.rest_eq {s t : DupPc × Kernel} (h : DupAct cur envid pn s t) :
    dupRest cur envid pn s = dupRest cur envid pn t := by
  cases h with
  | readPde hr hpde => simp only [dupRest, hr, ok_bind, hpde.symm, not_true_eq_false, if_false]
  | readPte hr hpte =>
    simp only [dupRest, dupTable, hr, ok_bind, ne_eq, hpte.symm, not_true_eq_false, if_false]
  | readCow hr hpte => simp only [dupRest, dupPresent, hr, ok_bind, if_neg hpte]
  | readFirst hr => simp only [dupRest, dupShared, hr, ok_bind]
  | mapChild hr => simp only [dupRest, dupFirst, hr, ofCall, mapError_ok, ok_bind]
  | readSecond hr => simp only [dupRest, dupBetween, hr, ok_bind]
  | mapSelf hr =>
    simp only [dupRest, dupSecond, hr, ofCall, mapError_ok, ok_bind]
    rfl

/-- **The steps are `duppage`** when the parent stores nothing on the way. -/
theorem duppage_of_quiet (h : ReflTransGen (DupAct cur envid pn) (.start, k) (.done, k')) :
    duppage k cur envid pn = .ok (0, k') := by
  have hrest : ∀ s t, ReflTransGen (DupAct cur envid pn) s t →
      dupRest cur envid pn s = dupRest cur envid pn t := by
    intro s t hst
    induction hst with
    | refl => rfl
    | tail _ hstep ih => exact ih.trans hstep.rest_eq
  rw [← dupRest_start, hrest _ _ h]
  rfl

/-! ## Entries -/

/-- The entry lets user programs write. -/
def Writable (w : Word) : Prop := w &&& (PTE_P ||| PTE_U ||| PTE_W) = PTE_P ||| PTE_U ||| PTE_W

instance (w : Word) : Decidable (Writable w) := by unfold Writable; infer_instance

/-- A copy-on-write entry. -/
structure CowPte (w : Word) : Prop where
  user : UserPte w
  cow : w &&& PTE_COW ≠ 0
  ro : w &&& PTE_W = 0

theorem not_writable_of_ro {w : Word} (h : w &&& PTE_W = 0) : ¬ Writable w := by
  intro hc
  have hw := and_eq_of_and_or_right hc
  rw [h] at hw
  exact absurd hw (by decide)

theorem Writable.user {w : Word} (h : Writable w) : UserPte w := and_eq_of_and_or_left h

theorem cowFlags_and_COW (w : Word) : cowFlags w &&& PTE_COW ≠ 0 := by
  rw [cowFlags, BitVec.and_assoc, show ~~~PTE_W &&& PTE_COW = PTE_COW by decide]
  exact or_and_or_ne_zero (by decide)

theorem cowPte_mk (p : Nat) {w : Word} (hw : UserPte w) :
    CowPte (page2pa p ||| cowFlags w ||| PTE_P) := by
  constructor
  · unfold UserPte
    rw [BitVec.or_assoc, page2pa_or_and p (by decide), BitVec.and_or_distrib_right,
      cowFlags_and (by decide) (by decide) (by decide), show w &&& (PTE_P ||| PTE_U) = _ from hw]
    decide
  · rw [BitVec.or_assoc, page2pa_or_and p (by decide)]
    exact and_or_ne_zero (cowFlags_and_COW w)
  · rw [BitVec.or_assoc, page2pa_or_and p (by decide), BitVec.and_or_distrib_right, cowFlags_and_W]
    decide

/-! ## Stores and mappings -/

/-- The invariant with a bound on the number of mappings of a page. -/
structure Counted (managed tables : Set Nat) (n : ℕ) (σ : Phys)
    (dirs : EnvIdx → Option Nat) : Prop where
  inv : ∃ free, SpaceInv managed tables σ dirs free ∅
  count : ∀ q, refs (fun z => named (vm σ dirs z)) q ≤ n

namespace CopyStore

variable (h : CopyStore k σ' e va b p)
include h

theorem named_new : named (Jos.vm σ' k.dirs (mapIdx e va)) = some p := by
  rw [h.vm, Function.update_self]
  exact named_mk h.lt (by decide)

/-- A mapping after the store is the copy, or it was there before. -/
theorem named_cases {z : MapIdx} {q : Nat} (hz : named (Jos.vm σ' k.dirs z) = some q) :
    z = mapIdx e va ∧ q = p ∨
      z ≠ mapIdx e va ∧ q ≠ p ∧ Jos.vm σ' k.dirs z = Jos.vm k.phys k.dirs z := by
  by_cases hzx : z = mapIdx e va
  · subst hzx
    exact .inl ⟨rfl, Option.some.inj (hz.symm.trans h.named_new)⟩
  by_cases hzp : z = mapIdx e PFTEMP
  · rw [h.vm, Function.update_of_ne hzx, hzp, Function.update_self] at hz
    cases named_zero.symm.trans hz
  · have hsame : Jos.vm σ' k.dirs z = Jos.vm k.phys k.dirs z := by
      rw [h.vm, Function.update_of_ne hzx, Function.update_of_ne hzp]
    refine .inr ⟨hzx, ?_, hsame⟩
    rintro rfl
    exact h.fresh (inUse_of_vm (hsame ▸ hz))

theorem vm_other {z : MapIdx} (hz : z.1 ≠ e) : Jos.vm σ' k.dirs z = Jos.vm k.phys k.dirs z := by
  rw [h.vm, Function.update_of_ne fun hc => hz (congrArg Prod.fst hc),
    Function.update_of_ne fun hc => hz (congrArg Prod.fst hc)]

theorem count_le {n : ℕ} (hn : 1 ≤ n)
    (hc : ∀ q, refs (fun z => named (Jos.vm k.phys k.dirs z)) q ≤ n) (q : Nat) :
    refs (fun z => named (Jos.vm σ' k.dirs z)) q ≤ n := by
  by_cases hq : q = p
  · subst hq
    refine (refs_le_one fun z z' hz hz' => ?_).trans hn
    have hz₁ := (h.named_cases hz).resolve_right fun hc => hc.2.1 rfl
    have hz₂ := (h.named_cases hz').resolve_right fun hc => hc.2.1 rfl
    rw [hz₁.1, hz₂.1]
  · refine (refs_mono fun z hz => ?_).trans (hc q)
    obtain ⟨-, -, hsame⟩ := (h.named_cases hz).resolve_left fun hc => hq hc.2
    exact hsame ▸ hz

end CopyStore

theorem SpaceInv.bound_of_count (h : SpaceInv managed tables k.phys k.dirs free ∅)
    (hc : ∀ q, refs (fun z => named (vm k.phys k.dirs z)) q ≤ 2 ^ 16) {z : MapIdx} {q : Nat}
    (hz : named (vm k.phys k.dirs z) = some q) :
    kernRefs tables q + refs (target k.phys k.dirs) q ≤ 2 ^ 16 := by
  rw [h.refs_of_inUse (inUse_of_vm hz)]
  exact hc q

/-- A store keeps the bound. -/
theorem Counted.store {n : ℕ} (h : Counted managed tables n k.phys k.dirs) (hn : 1 ≤ n)
    (hn' : n ≤ 2 ^ 16) (hva : va < UTOP) (hne : mapIdx e va ≠ mapIdx e PFTEMP)
    (hs : UserStore e va b k k') :
    ∃ σ', k' = { k with phys := σ' } ∧ Counted managed tables n σ' k.dirs ∧
      (DirectStore k σ' e va b ∨ ∃ p, CopyStore k σ' e va b p) := by
  obtain ⟨free, hinv⟩ := h.inv
  obtain ⟨σ', free', hk', h', hcase⟩ := hs.spec hinv hva hne fun z _ q hz =>
    hinv.bound_of_count (fun q => (h.count q).trans hn') hz
  refine ⟨σ', hk', ⟨⟨free', h'⟩, fun q => ?_⟩, hcase⟩
  rcases hcase with hD | ⟨p, hC⟩
  · rw [hD.vm]
    exact h.count q
  · exact hC.count_le hn h.count q

/-! ## Pages by number -/

theorem mapIdx_of_PGNUM (hva : PGNUM va = pn) (e : EnvIdx) :
    mapIdx e va = mapIdx e (PGNUM2LA pn) := by
  subst hva
  rw [← mapIdx_PTE_ADDR, ← page2pa_PGNUM]
  rfl

theorem lt_of_PGNUM (hva : PGNUM va = pn) (hpn : pn < PGNUM UTOP) : va < UTOP := by
  have hU : UTOP.toNat = PGNUM UTOP * 4096 := by decide
  have hv : va.toNat / 4096 = pn := by
    rw [← hva, PGNUM]
    simp [Nat.shiftRight_eq_div_pow]
  rw [BitVec.lt_def, hU]
  omega

theorem ne_PFTEMP (hpn : pn < PGNUM UTOP) (hpf : pn ≠ PGNUM PFTEMP) (e : EnvIdx) :
    mapIdx e (PGNUM2LA pn) ≠ mapIdx e PFTEMP := by
  intro hc
  have hno := (pageNo_eq_iff (hpn.trans (PGNUM_lt UTOP))).2 ⟨rfl, rfl⟩
  have hidx : PDX (PGNUM2LA pn) = PDX PFTEMP ∧ PTX (PGNUM2LA pn) = PTX PFTEMP := by
    simpa [mapIdx] using hc
  rw [hidx.1, hidx.2] at hno
  exact hpf (hno.symm.trans (by decide))

/-! ## The invariant -/

/-- The parent's page at `x` may be written, if at all, through `x` only. -/
structure SoleWriter (σ : Phys) (dirs : EnvIdx → Option Nat) (x : MapIdx) : Prop where
  user : UserPte (vm σ dirs x)
  open' : vm σ dirs x &&& (PTE_W ||| PTE_COW) ≠ 0
  sole : ∀ z, z ≠ x → named (vm σ dirs z) = named (vm σ dirs x) → ¬ Writable (vm σ dirs z)

/-- The child's page at `y` is `c`, copy-on-write, and may be written through `x` only. -/
structure ChildPage (σ : Phys) (dirs : EnvIdx → Option Nat) (x y : MapIdx) (c : Nat) : Prop where
  pte : CowPte (vm σ dirs y)
  named : named (vm σ dirs y) = some c
  shut : ∀ z, z ≠ x → Jos.named (vm σ dirs z) = some c → ¬ Writable (vm σ dirs z)

/-- What `duppage` is for: both entries are copy-on-write, and nobody can write the child's page
`c`. -/
structure CowShared (σ : Phys) (dirs : EnvIdx → Option Nat) (x y : MapIdx) (c : Nat) : Prop where
  parent : CowPte (vm σ dirs x)
  child : CowPte (vm σ dirs y)
  named : named (vm σ dirs y) = some c
  shut : ∀ z, Jos.named (vm σ dirs z) = some c → ¬ Writable (vm σ dirs z)

/-- The state in which the parent calls `duppage`: its page can be read, it is writable or
copy-on-write, and no other mapping can write it. No count has passed its 16 bits. -/
structure DupReady (managed tables : Set Nat) (k : Kernel) (cur child : EnvIdx) (envid : Word)
    (pn : Nat) :
    Prop where
  inv : ∃ free, SpaceInv managed tables k.phys k.dirs free ∅
  count : ∀ q, refs (fun z => named (vm k.phys k.dirs z)) q < 2 ^ 16
  dir : k.dirs cur ≠ none
  childDir : k.dirs child ≠ none
  found : envid2env k cur envid false = some child
  ne : child ≠ cur
  lt : pn < PGNUM UTOP
  writer : SoleWriter k.phys k.dirs (mapIdx cur (PGNUM2LA pn))

/-- The permission argument of a call. -/
def CowArg (perm : Word) : Prop := ∃ w, UserPte w ∧ perm = cowFlags w

/-- What holds at each point of `duppage`. The first call adds one mapping to a page. -/
def DupInv (managed tables : Set Nat) (k₀ : Kernel) (x y : MapIdx) (s : DupPc × Kernel) : Prop :=
  ∃ σ, s.2 = { k₀ with phys := σ } ∧ match s.1 with
    | .start | .table | .present | .shared =>
      Counted managed tables (2 ^ 16 - 1) σ k₀.dirs ∧ SoleWriter σ k₀.dirs x
    | .first perm => Counted managed tables (2 ^ 16 - 1) σ k₀.dirs ∧
        SoleWriter σ k₀.dirs x ∧ CowArg perm
    | .between => Counted managed tables (2 ^ 16) σ k₀.dirs ∧ SoleWriter σ k₀.dirs x ∧
      ∃ c, ChildPage σ k₀.dirs x y c
    | .second perm => Counted managed tables (2 ^ 16) σ k₀.dirs ∧ SoleWriter σ k₀.dirs x ∧
      (∃ c, ChildPage σ k₀.dirs x y c) ∧ CowArg perm
    | .done => Counted managed tables (2 ^ 16) σ k₀.dirs ∧ ∃ c, CowShared σ k₀.dirs x y c

theorem writable_PUW (p : Nat) :
    Writable (page2pa p ||| (PTE_P ||| PTE_U ||| PTE_W) ||| PTE_P) := and_PUW p

/-- A store of the parent leaves it the only writer of its page. -/
theorem SoleWriter.store (h : SoleWriter k.phys k.dirs (mapIdx e va))
    (hs : DirectStore k σ' e va b ∨ ∃ p, CopyStore k σ' e va b p) :
    SoleWriter σ' k.dirs (mapIdx e va) := by
  rcases hs with hD | ⟨p, hC⟩
  · exact ⟨hD.vm ▸ h.user, hD.vm ▸ h.open', hD.vm ▸ h.sole⟩
  · have hnew := congrFun hC.vm (mapIdx e va)
    rw [Function.update_self] at hnew
    refine ⟨hnew ▸ (writable_PUW p).user, ?_, fun z hz hn => ?_⟩
    · rw [hnew, BitVec.or_assoc, page2pa_or_and p (by decide)]
      decide
    · rw [hC.named_new] at hn
      exact absurd rfl ((hC.named_cases hn).resolve_left fun hc => hz hc.1).2.1

/-- A store of the parent leaves the child's page alone. -/
theorem ChildPage.store {y : MapIdx} {c : Nat} (h : ChildPage k.phys k.dirs (mapIdx e va) y c)
    (hy : y.1 ≠ e) (hs : DirectStore k σ' e va b ∨ ∃ p, CopyStore k σ' e va b p) :
    ChildPage σ' k.dirs (mapIdx e va) y c := by
  rcases hs with hD | ⟨p, hC⟩
  · exact ⟨hD.vm ▸ h.pte, hD.vm ▸ h.named, hD.vm ▸ h.shut⟩
  · have hsame := hC.vm_other hy
    refine ⟨hsame ▸ h.pte, hsame ▸ h.named, fun z hz hn => ?_⟩
    obtain ⟨-, -, hzsame⟩ := (hC.named_cases hn).resolve_left fun hc => hz hc.1
    rw [hzsame] at hn ⊢
    exact h.shut z hz hn

/-! ## The calls -/

theorem named_update (v : MapIdx → Word) (z : MapIdx) (w : Word) :
    (fun z' => named (Function.update v z w z')) =
    Function.update (fun z' => named (v z')) z (named w) := by
  funext z'
  by_cases hz : z' = z
  · subst hz
    rw [Function.update_self, Function.update_self]
  · rw [Function.update_of_ne hz, Function.update_of_ne hz]

theorem PGNUM_lt_of_named {w : Word} (hw : UserPte w) :
    named w = some (PGNUM w) ∧ PGNUM w < 2 ^ 20 :=
  ⟨named_of_present (present_of_and_PU hw), PGNUM_lt w⟩

theorem call_ok {n : ℕ} {dst : EnvIdx} {dstid : Word} (h : Counted managed tables n k.phys k.dirs)
    (hn : n ≤ 2 ^ 16) (hd : k.dirs cur ≠ none) (hdd : k.dirs dst ≠ none)
    (hf : envid2env k cur dstid false = some dst) (hva : AddrOk va)
    (hw : UserPte (vm k.phys k.dirs (mapIdx cur va))) (hperm : CowArg perm)
    (hr : sysPageMap k cur 0 va dstid va perm = .ok (0, k')) :
    ∃ σ', k' = { k with phys := σ' } ∧ (∃ free', SpaceInv managed tables σ' k.dirs free' ∅) ∧
      vm σ' k.dirs = Function.update (vm k.phys k.dirs) (mapIdx dst va)
        (page2pa (PGNUM (vm k.phys k.dirs (mapIdx cur va))) ||| perm ||| PTE_P) := by
  obtain ⟨free, hinv⟩ := h.inv
  obtain ⟨w, -, rfl⟩ := hperm
  rcases hinv.sysPageMap (envid2env_zero k cur true) hf hd hdd hva hva (target_of_PU hw)
      (PTE_ADDR_cowFlags w) (fun hc => (hc (cowFlags_and_W w)).elim)
      (fun q hq _ => hinv.bound_of_count (z := mapIdx dst va)
        (fun q => (h.count q).trans hn) hq) with
    ⟨-, -, hno⟩ | ⟨σ', free', hok, hI, h'⟩
  · cases hno.symm.trans hr
  · obtain rfl : _ = k' := congrArg Prod.snd (Except.ok.inj (hok.symm.trans hr))
    exact ⟨σ', rfl, ⟨free', h'⟩, (hinv.mem_of_inserted hI).vm⟩

/-- **The first call** gives the child the page that the parent has. -/
theorem SoleWriter.mapChild (h : Counted managed tables (2 ^ 16 - 1) k.phys k.dirs)
    (hS : SoleWriter k.phys k.dirs (mapIdx cur va)) (hd : k.dirs cur ≠ none)
    (hdc : k.dirs child ≠ none) (hf : envid2env k cur envid false = some child) (hne : child ≠ cur)
    (hva : AddrOk va) (hperm : CowArg perm)
    (hr : sysPageMap k cur 0 va envid va perm = .ok (0, k')) :
    ∃ σ', k' = { k with phys := σ' } ∧ Counted managed tables (2 ^ 16) σ' k.dirs ∧
      SoleWriter σ' k.dirs (mapIdx cur va) ∧
        ∃ c, ChildPage σ' k.dirs (mapIdx cur va) (mapIdx child va) c := by
  obtain ⟨σ', hk', hinv, hvm⟩ := call_ok h (by decide) hd hdc hf hva hS.user hperm hr
  obtain ⟨w, hw, rfl⟩ := hperm
  have hxy := mapIdx_ne hne va
  have hx : vm σ' k.dirs (mapIdx cur va) = vm k.phys k.dirs (mapIdx cur va) := by
    rw [hvm, Function.update_of_ne hxy.symm]
  have hy := congrFun hvm (mapIdx child va)
  rw [Function.update_self] at hy
  obtain ⟨hF, hlt⟩ := PGNUM_lt_of_named hS.user
  have hcow := cowPte_mk (PGNUM (vm k.phys k.dirs (mapIdx cur va))) hw
  have hshut : ∀ z, z ≠ mapIdx cur va →
    named (vm σ' k.dirs z) = named (vm k.phys k.dirs (mapIdx cur va)) →
      ¬ Writable (vm σ' k.dirs z) := by
    intro z hz hn
    by_cases hzy : z = mapIdx child va
    · rw [hzy, hy]
      exact not_writable_of_ro hcow.ro
    · rw [hvm, Function.update_of_ne hzy] at hn ⊢
      exact hS.sole z hz hn
  refine ⟨σ', hk', ⟨hinv, fun q => ?_⟩, ⟨hx ▸ hS.user, hx ▸ hS.open', ?_⟩,
    PGNUM (vm k.phys k.dirs (mapIdx cur va)), hy ▸ hcow, ?_, ?_⟩
  · rw [hvm, named_update]
    exact (refs_update_le _ _ _ q).trans (Nat.add_le_add_right (h.count q) 1)
  · rw [hx]
    exact hshut
  · rw [hy]
    exact named_mk hlt (PTE_ADDR_cowFlags w)
  · rw [← hF]
    exact hshut

/-- **The second call** closes the parent's own entry. -/
theorem ChildPage.mapSelf {c : Nat} (h : Counted managed tables (2 ^ 16) k.phys k.dirs)
    (hS : SoleWriter k.phys k.dirs (mapIdx cur va))
    (hC : ChildPage k.phys k.dirs (mapIdx cur va) (mapIdx child va) c) (hd : k.dirs cur ≠ none)
    (hne : child ≠ cur) (hva : AddrOk va) (hperm : CowArg perm)
    (hr : sysPageMap k cur 0 va 0 va perm = .ok (0, k')) :
    ∃ σ', k' = { k with phys := σ' } ∧ Counted managed tables (2 ^ 16) σ' k.dirs ∧
      CowShared σ' k.dirs (mapIdx cur va) (mapIdx child va) c := by
  obtain ⟨σ', hk', hinv, hvm⟩ :=
    call_ok h le_rfl hd hd (envid2env_zero k cur false) hva hS.user hperm hr
  obtain ⟨w, hw, rfl⟩ := hperm
  have hx := congrFun hvm (mapIdx cur va)
  rw [Function.update_self] at hx
  have hy : vm σ' k.dirs (mapIdx child va) = vm k.phys k.dirs (mapIdx child va) := by
    rw [hvm, Function.update_of_ne (mapIdx_ne hne va)]
  obtain ⟨hF, hlt⟩ := PGNUM_lt_of_named hS.user
  have hcow := cowPte_mk (PGNUM (vm k.phys k.dirs (mapIdx cur va))) hw
  refine ⟨σ', hk', ⟨hinv, fun q => ?_⟩, hx ▸ hcow, hy ▸ hC.pte, hy ▸ hC.named, fun z hn => ?_⟩
  · -- the entry names the same page as before
    have hsame :
        Jos.named (page2pa (PGNUM (vm k.phys k.dirs (mapIdx cur va))) ||| cowFlags w ||| PTE_P) =
        (fun z => Jos.named (vm k.phys k.dirs z)) (mapIdx cur va) :=
      (named_mk hlt (PTE_ADDR_cowFlags w)).trans hF.symm
    rw [hvm, named_update, hsame, Function.update_eq_self]
    exact h.count q
  · by_cases hz : z = mapIdx cur va
    · rw [hz, hx]
      exact not_writable_of_ro hcow.ro
    · rw [hvm, Function.update_of_ne hz] at hn ⊢
      exact hC.shut z hz hn

/-! ## The run of `duppage` -/

section
variable {k₀ : Kernel} {s t : DupPc × Kernel} (hd : k₀.dirs cur ≠ none) (hdc : k₀.dirs child ≠ none)
  (hf : envid2env k₀ cur envid false = some child) (hne : child ≠ cur) (hpn : pn < PGNUM UTOP)
include hd hpn

theorem Counted.readVpt {n : ℕ} {pte : Word} (h : Counted managed tables n σ k₀.dirs)
    (hw : UserPte (vm σ k₀.dirs (mapIdx cur (PGNUM2LA pn))))
    (hr : readWord { k₀ with phys := σ } cur (vpt pn) = .ok pte) :
    pte = vm σ k₀.dirs (mapIdx cur (PGNUM2LA pn)) := by
  obtain ⟨free, hinv⟩ := h.inv
  obtain ⟨d, hdir⟩ := Option.ne_none_iff_exists'.1 hd
  have hread := SpaceInv.readVpt (k := { k₀ with phys := σ }) hinv hdir (addrOk_PGNUM2LA hpn).1
    (hinv.pde_PU hw)
  rw [PGNUM_PGNUM2LA (hpn.trans (PGNUM_lt UTOP))] at hread
  exact Except.ok.inj (hr.symm.trans hread)

include hdc hf hne

/-- **A step of `duppage`** keeps the invariant. -/
theorem DupInv.act (h : DupInv managed tables k₀ (mapIdx cur (PGNUM2LA pn))
    (mapIdx child (PGNUM2LA pn)) s) (hstep : DupAct cur envid pn s t) :
    DupInv managed tables k₀ (mapIdx cur (PGNUM2LA pn)) (mapIdx child (PGNUM2LA pn)) t := by
  have hva := addrOk_PGNUM2LA hpn
  obtain ⟨σ, hk, hpc⟩ := h
  cases hstep with
  | readPde hr hpde => exact ⟨σ, hk, hpc⟩
  | readPte hr hpte => exact ⟨σ, hk, hpc⟩
  | readCow hr hpte => exact ⟨σ, hk, hpc⟩
  | readFirst hr =>
    obtain rfl : _ = _ := hk
    obtain ⟨hcount, hS⟩ := hpc
    exact ⟨σ, rfl, hcount, hS, _, hS.user, congrArg cowFlags (hcount.readVpt hd hpn hS.user hr)⟩
  | mapChild hr =>
    obtain rfl : _ = _ := hk
    obtain ⟨hcount, hS, hperm⟩ := hpc
    obtain ⟨σ', rfl, hcount', hS', hC⟩ :=
      SoleWriter.mapChild (k := { k₀ with phys := σ }) hcount hS hd hdc hf hne hva hperm hr
    exact ⟨σ', rfl, hcount', hS', hC⟩
  | readSecond hr =>
    obtain rfl : _ = _ := hk
    obtain ⟨hcount, hS, hC⟩ := hpc
    exact ⟨σ, rfl, hcount, hS, hC, _, hS.user, congrArg cowFlags (hcount.readVpt hd hpn hS.user hr)⟩
  | mapSelf hr =>
    obtain rfl : _ = _ := hk
    obtain ⟨hcount, hS, ⟨c, hC⟩, hperm⟩ := hpc
    obtain ⟨σ', rfl, hcount', hD⟩ :=
      ChildPage.mapSelf (k := { k₀ with phys := σ }) hcount hS hC hd hne hva hperm hr
    exact ⟨σ', rfl, hcount', c, hD⟩

omit hd hdc hf in
/-- **A store of the parent** between the steps keeps it too. -/
theorem DupInv.store {pc : DupPc} (hpf : pn ≠ PGNUM PFTEMP)
    (h : DupInv managed tables k₀ (mapIdx cur (PGNUM2LA pn)) (mapIdx child (PGNUM2LA pn)) (pc, k))
    (hpc : pc ≠ .done) (hva : PGNUM va = pn) (hs : UserStore cur va b k k') :
    DupInv managed tables k₀ (mapIdx cur (PGNUM2LA pn)) (mapIdx child (PGNUM2LA pn)) (pc, k') := by
  have hlt := lt_of_PGNUM hva hpn
  have hidx := mapIdx_of_PGNUM hva cur
  have hpft : mapIdx cur va ≠ mapIdx cur PFTEMP := hidx ▸ ne_PFTEMP hpn hpf cur
  have hy : (mapIdx child (PGNUM2LA pn)).1 ≠ cur := hne
  obtain ⟨σ, rfl, hinv⟩ := h
  rw [← hidx] at hinv ⊢
  have hstore : ∀ {n : ℕ}, 1 ≤ n → n ≤ 2 ^ 16 → Counted managed tables n σ k₀.dirs → ∃ σ',
      k' = { k₀ with phys := σ' } ∧ Counted managed tables n σ' k₀.dirs ∧
        (DirectStore { k₀ with phys := σ } σ' cur va b ∨ ∃ p,
          CopyStore { k₀ with phys := σ } σ' cur va b p) :=
    fun h₁ h₂ hc => Counted.store (k := { k₀ with phys := σ }) hc h₁ h₂ hlt hpft hs
  cases pc with
  | done => exact (hpc rfl).elim
  | start | table | present | shared =>
    obtain ⟨hcount, hS⟩ := hinv
    obtain ⟨σ', rfl, hcount', hcase⟩ := hstore (by decide) (by decide) hcount
    exact ⟨σ', rfl, hcount', SoleWriter.store (k := { k₀ with phys := σ }) hS hcase⟩
  | first perm =>
    obtain ⟨hcount, hS, hperm⟩ := hinv
    obtain ⟨σ', rfl, hcount', hcase⟩ := hstore (by decide) (by decide) hcount
    exact ⟨σ', rfl, hcount', SoleWriter.store (k := { k₀ with phys := σ }) hS hcase, hperm⟩
  | between =>
    obtain ⟨hcount, hS, c, hC⟩ := hinv
    obtain ⟨σ', rfl, hcount', hcase⟩ := hstore (by decide) le_rfl hcount
    exact ⟨σ', rfl, hcount', SoleWriter.store (k := { k₀ with phys := σ }) hS hcase, c,
      ChildPage.store (k := { k₀ with phys := σ }) hC hy hcase⟩
  | second perm =>
    obtain ⟨hcount, hS, ⟨c, hC⟩, hperm⟩ := hinv
    obtain ⟨σ', rfl, hcount', hcase⟩ := hstore (by decide) le_rfl hcount
    exact ⟨σ', rfl, hcount', SoleWriter.store (k := { k₀ with phys := σ }) hS hcase,
      ⟨c, ChildPage.store (k := { k₀ with phys := σ }) hC hy hcase⟩, hperm⟩

theorem DupInv.run (hpf : pn ≠ PGNUM PFTEMP)
    (h : DupInv managed tables k₀ (mapIdx cur (PGNUM2LA pn)) (mapIdx child (PGNUM2LA pn)) s)
    (hrun : ReflTransGen (DupStep cur envid pn) s t) :
    DupInv managed tables k₀ (mapIdx cur (PGNUM2LA pn)) (mapIdx child (PGNUM2LA pn)) t := by
  induction hrun with
  | refl => exact h
  | tail _ hstep ih =>
    cases hstep with
    | act hact => exact ih.act hd hdc hf hne hpn hact
    | store hpc hva hs => exact ih.store hne hpn hpf hpc hva hs

end

/-! ## Stores after `duppage` -/

/-- A store of `e` through `x` that changes nobody else's memory: it ends on a page that only `x`
maps, with the contents of the page before and the new byte, and a page that was shared is left
behind. -/
structure OwnCopy (k k' : Kernel) (x : MapIdx) (va : Word) (b : BitVec 8) (p : Nat) : Prop where
  named : named (vm k'.phys k'.dirs x) = some p
  writable : Writable (vm k'.phys k'.dirs x)
  own : ∀ z, Jos.named (vm k'.phys k'.dirs z) = some p → z = x
  contents : k'.phys.mem p = pageSet (k.phys.mem (PGNUM (vm k.phys k.dirs x))) va b
  moved : CowPte (vm k.phys k.dirs x) → ¬ InUse k.phys k.dirs p
  others : ∀ z q, z ≠ x → Jos.named (vm k'.phys k'.dirs z) = some q →
    vm k'.phys k'.dirs z = vm k.phys k.dirs z ∧ k'.phys.mem q = k.phys.mem q

/-- The page at `x` is copy-on-write, or nobody else maps it. -/
def Settled (σ : Phys) (dirs : EnvIdx → Option Nat) (x : MapIdx) : Prop :=
  CowPte (vm σ dirs x) ∨
    Writable (vm σ dirs x) ∧ ∀ z, named (vm σ dirs z) = named (vm σ dirs x) → z = x

theorem Settled.ownCopy (h : Settled k.phys k.dirs (mapIdx e va))
    (hs : DirectStore k σ' e va b ∨ ∃ p, CopyStore k σ' e va b p) :
    ∃ p, OwnCopy k { k with phys := σ' } (mapIdx e va) va b p := by
  rcases hs with hD | ⟨p, hC⟩
  · have hw : Writable (vm k.phys k.dirs (mapIdx e va)) := hD.pte
    obtain ⟨-, hown⟩ := h.resolve_left fun hc => not_writable_of_ro hc.ro hw
    obtain ⟨hF, -⟩ := PGNUM_lt_of_named hw.user
    have hvm : vm σ' k.dirs = vm k.phys k.dirs := hD.vm
    refine ⟨PGNUM (vm k.phys k.dirs (mapIdx e va)), hvm ▸ hF, hvm ▸ hw, fun z hz => hown z ?_, ?_,
      fun hc => (not_writable_of_ro hc.ro hw).elim, fun z q hz hn => ⟨congrFun hvm z, ?_⟩⟩
    · change named (vm σ' k.dirs z) = _ at hz
      rw [hF, ← hz, hvm]
    · change σ'.mem _ = _
      rw [hD.mem, Function.update_self]
    · change named (vm σ' k.dirs z) = some q at hn
      rw [hvm] at hn
      change σ'.mem q = _
      rw [hD.mem, Function.update_of_ne]
      rintro rfl
      exact hz (hown z (hn.trans hF.symm))
  · have hnew := congrFun hC.vm (mapIdx e va)
    rw [Function.update_self] at hnew
    refine ⟨p, hC.named_new, ?_, fun z hz => ?_, hC.copy, fun _ => hC.fresh, fun z q hz hn => ?_⟩
    · change Writable (vm σ' k.dirs _)
      rw [hnew]
      exact writable_PUW p
    · exact ((hC.named_cases hz).resolve_right fun hc => hc.2.1 rfl).1
    · obtain ⟨-, -, hsame⟩ := (hC.named_cases hn).resolve_left fun hc => hz hc.1
      refine ⟨hsame, hC.mem q (inUse_of_vm (x := z) ?_) (inUse_of_vm hn)⟩
      rw [← hsame]
      exact hn

/-- A store keeps both pages settled. -/
theorem Settled.store {x : MapIdx} (h : Settled k.phys k.dirs x) (hx : x = mapIdx e va ∨ x.1 ≠ e)
    (hs : DirectStore k σ' e va b ∨ ∃ p, CopyStore k σ' e va b p) : Settled σ' k.dirs x := by
  rcases hs with hD | ⟨p, hC⟩
  · unfold Settled
    rw [hD.vm]
    exact h
  rcases hx with rfl | hx
  · have hnew := congrFun hC.vm (mapIdx e va)
    rw [Function.update_self] at hnew
    refine .inr ⟨hnew ▸ writable_PUW p, fun z hz => ?_⟩
    rw [hC.named_new] at hz
    exact ((hC.named_cases hz).resolve_right fun hc => hc.2.1 rfl).1
  · have hsame := hC.vm_other hx
    refine h.imp (fun hcow => hsame ▸ hcow) fun ⟨hw, hown⟩ => ⟨hsame ▸ hw, fun z hz => ?_⟩
    rw [hsame, (PGNUM_lt_of_named hw.user).1] at hz
    rcases hC.named_cases hz with ⟨-, hp⟩ | ⟨-, -, hzs⟩
    · exact (hC.fresh (inUse_of_vm (x := x) (hp ▸ (PGNUM_lt_of_named hw.user).1))).elim
    · apply hown
      rw [← hzs, hz, (PGNUM_lt_of_named hw.user).1]

/-- A store to page `pn` by the parent or the child. -/
def PageStore (cur child : EnvIdx) (pn : Nat) (k k' : Kernel) : Prop :=
  ∃ e va b, (e = cur ∨ e = child) ∧ PGNUM va = pn ∧ UserStore e va b k k'

/-- What holds after `duppage`, whatever is stored to the page. -/
structure DupSettled (managed tables : Set Nat) (cur child : EnvIdx) (pn : Nat)
    (k : Kernel) : Prop where
  count : Counted managed tables (2 ^ 16) k.phys k.dirs
  parent : Settled k.phys k.dirs (mapIdx cur (PGNUM2LA pn))
  child : Settled k.phys k.dirs (mapIdx child (PGNUM2LA pn))

section
variable (hne : child ≠ cur) (hpn : pn < PGNUM UTOP) (hpf : pn ≠ PGNUM PFTEMP)
include hne hpn hpf

theorem DupSettled.store (h : DupSettled managed tables cur child pn k) (he : e = cur ∨ e = child)
    (hva : PGNUM va = pn) (hs : UserStore e va b k k') :
    DupSettled managed tables cur child pn k' ∧ (∃ p, OwnCopy k k' (mapIdx e va) va b p) ∧
      ∀ c, InUse k.phys k.dirs c →
      (∀ z, named (vm k.phys k.dirs z) = some c → ¬ Writable (vm k.phys k.dirs z)) →
        ∀ z, named (vm k'.phys k'.dirs z) = some c → ¬ Writable (vm k'.phys k'.dirs z) := by
  have hidx := mapIdx_of_PGNUM hva e
  obtain ⟨σ', rfl, hcount, hcase⟩ := h.count.store (by decide) le_rfl (lt_of_PGNUM hva hpn)
    (hidx ▸ ne_PFTEMP hpn hpf e) hs
  have hwriter : Settled k.phys k.dirs (mapIdx e va) := by
    rw [hidx]
    rcases he with rfl | rfl
    · exact h.parent
    · exact h.child
  have hmine : ∀ e', mapIdx e' (PGNUM2LA pn) = mapIdx e va ∨ (mapIdx e' (PGNUM2LA pn)).1 ≠ e := by
    intro e'
    by_cases he' : e' = e
    · exact .inl (he' ▸ hidx.symm)
    · exact .inr he'
  refine ⟨⟨hcount, h.parent.store (hmine cur) hcase, h.child.store (hmine child) hcase⟩,
    hwriter.ownCopy hcase, fun c hc hshut z hz => ?_⟩
  rcases hcase with hD | ⟨p, hC⟩
  · change named (vm σ' k.dirs z) = some c at hz
    change ¬ Writable (vm σ' k.dirs z)
    rw [hD.vm] at hz ⊢
    exact hshut z hz
  · rcases hC.named_cases hz with ⟨-, rfl⟩ | ⟨-, -, hsame⟩
    · exact (hC.fresh hc).elim
    · change named (vm σ' k.dirs z) = some c at hz
      change ¬ Writable (vm σ' k.dirs z)
      rw [hsame] at hz ⊢
      exact hshut z hz

theorem DupSettled.run (h : DupSettled managed tables cur child pn k)
    (hrun : ReflTransGen (PageStore cur child pn) k k') :
    DupSettled managed tables cur child pn k' := by
  induction hrun with
  | refl => exact h
  | tail _ hstep ih =>
    obtain ⟨e, va, b, he, hva, hs⟩ := hstep
    exact (ih.store hne hpn hpf he hva hs).1

omit hne hpn hpf in
/-- The state right after the second call. -/
theorem DupReady.settled (h : DupReady managed tables k cur child envid pn)
    (hpf : pn ≠ PGNUM PFTEMP) (hrun : ReflTransGen (DupStep cur envid pn) (.start, k) (.done, k₁)) :
    (∃ c, CowShared k₁.phys k₁.dirs (mapIdx cur (PGNUM2LA pn)) (mapIdx child (PGNUM2LA pn)) c) ∧
      DupSettled managed tables cur child pn k₁ := by
  have hcount : Counted managed tables (2 ^ 16 - 1) k.phys k.dirs := by
    refine ⟨h.inv, fun q => ?_⟩
    have hq := h.count q
    omega
  have hinit : DupInv managed tables k (mapIdx cur (PGNUM2LA pn)) (mapIdx child (PGNUM2LA pn))
    (.start, k) :=
    ⟨k.phys, rfl, hcount, h.writer⟩
  obtain ⟨σ, rfl, hcount₁, c, hC⟩ := hinit.run h.dir h.childDir h.found h.ne h.lt hpf hrun
  exact ⟨⟨c, hC⟩, hcount₁, .inl hC.parent, .inl hC.child⟩

omit hne hpn hpf in
/-- **`duppage` is safe against faults in its middle**, for every page but the handler's own. -/
theorem duppage_safe (h : DupReady managed tables k cur child envid pn) (hpf : pn ≠ PGNUM PFTEMP)
    (hrun : ReflTransGen (DupStep cur envid pn) (.start, k) (.done, k₁)) :
    ∃ c, CowShared k₁.phys k₁.dirs (mapIdx cur (PGNUM2LA pn)) (mapIdx child (PGNUM2LA pn)) c ∧
      (∀ k₂, ReflTransGen (fun a a' => PageStore cur child pn a a' ∧
        InUse a'.phys a'.dirs c) k₁ k₂ →
        ∀ z, named (vm k₂.phys k₂.dirs z) = some c → ¬ Writable (vm k₂.phys k₂.dirs z)) ∧
      ∀ k₂, ReflTransGen (PageStore cur child pn) k₁ k₂ → ∀ e va b k₃, (e = cur ∨ e = child) →
      PGNUM va = pn →
        UserStore e va b k₂ k₃ → ∃ p, OwnCopy k₂ k₃ (mapIdx e va) va b p := by
  obtain ⟨⟨c, hC⟩, hsettled⟩ := h.settled hpf hrun
  refine ⟨c, hC, fun k₂ hrun₂ => ?_, fun k₂ hrun₂ e va b k₃ he hva hs => ?_⟩
  · have hall : DupSettled managed tables cur child pn k₂ ∧ InUse k₂.phys k₂.dirs c ∧
        ∀ z, named (vm k₂.phys k₂.dirs z) = some c → ¬ Writable (vm k₂.phys k₂.dirs z) := by
      induction hrun₂ with
      | refl => exact ⟨hsettled, inUse_of_vm hC.named, hC.shut⟩
      | tail _ hstep ih =>
        obtain ⟨⟨e, va, b, he, hva, hs⟩, huse⟩ := hstep
        obtain ⟨hset, -, hshut⟩ := ih.1.store h.ne h.lt hpf he hva hs
        exact ⟨hset, huse, hshut c ih.2.1 ih.2.2⟩
    exact hall.2.2
  · exact ((hsettled.run h.ne h.lt hpf hrun₂).store h.ne h.lt hpf he hva hs).2.1

end

/-! ### Runs that can be computed -/

/-- The next step of `duppage`, if it is one of `DupAct`. -/
def dupNext (cur : EnvIdx) (envid : Word) (pn : Nat) : DupPc × Kernel → Option (DupPc × Kernel)
  | (.start, k) => do
    let pde ← (readWord k cur (vpd (pn >>> 10))).toOption
    if PTE_P ||| PTE_U = pde &&& (PTE_P ||| PTE_U) then some (.table, k) else none
  | (.table, k) => do
    let pte ← (readWord k cur (vpt pn)).toOption
    if PTE_U ||| PTE_P = pte &&& (PTE_U ||| PTE_P) then some (.present, k) else none
  | (.present, k) => do
    let pte ← (readWord k cur (vpt pn)).toOption
    if pte &&& (PTE_W ||| PTE_COW) ≠ 0 then some (.shared, k) else none
  | (.shared, k) => do
    let pte ← (readWord k cur (vpt pn)).toOption
    some (.first (cowFlags pte), k)
  | (.first perm, k) => do
    let (r, k') ← (sysPageMap k cur 0 (PGNUM2LA pn) envid (PGNUM2LA pn) perm).toOption
    if r = 0 then some (.between, k') else none
  | (.between, k) => do
    let pte ← (readWord k cur (vpt pn)).toOption
    some (.second (cowFlags pte), k)
  | (.second perm, k) => do
    let (r, k') ← (sysPageMap k cur 0 (PGNUM2LA pn) 0 (PGNUM2LA pn) perm).toOption
    if r = 0 then some (.done, k') else none
  | (.done, _) => none

theorem toOption_eq_some {ε α : Type} {x : Except ε α} {a : α} (h : x.toOption = some a) :
    x = .ok a := by
  cases x with
  | error _ => cases h
  | ok y => exact congrArg Except.ok (Option.some.inj h)

theorem of_toOption_bind {ε α β : Type} {x : Except ε α} {a : α} {f : α → Option β} {y : β}
    (hx : x = .ok a) (h : x.toOption.bind f = some y) : f a = some y := by
  subst hx
  exact h

theorem dupNext_act {s t : DupPc × Kernel} (h : dupNext cur envid pn s = some t) :
    DupAct cur envid pn s t := by
  obtain ⟨pc, k⟩ := s
  cases pc with
  | start =>
    obtain ⟨pde, hr, h⟩ := Option.bind_eq_some_iff.1 h
    split_ifs at h with hc
    cases h
    exact .readPde (toOption_eq_some hr) hc
  | table =>
    obtain ⟨pte, hr, h⟩ := Option.bind_eq_some_iff.1 h
    split_ifs at h with hc
    cases h
    exact .readPte (toOption_eq_some hr) hc
  | present =>
    obtain ⟨pte, hr, h⟩ := Option.bind_eq_some_iff.1 h
    split_ifs at h with hc
    cases h
    exact .readCow (toOption_eq_some hr) hc
  | shared =>
    obtain ⟨pte, hr, h⟩ := Option.bind_eq_some_iff.1 h
    cases h
    exact .readFirst (toOption_eq_some hr)
  | first perm =>
    obtain ⟨⟨r, k'⟩, hr, h⟩ := Option.bind_eq_some_iff.1 h
    simp only at h
    split_ifs at h with hc
    cases h
    subst hc
    exact .mapChild (toOption_eq_some hr)
  | between =>
    obtain ⟨pte, hr, h⟩ := Option.bind_eq_some_iff.1 h
    cases h
    exact .readSecond (toOption_eq_some hr)
  | second perm =>
    obtain ⟨⟨r, k'⟩, hr, h⟩ := Option.bind_eq_some_iff.1 h
    simp only at h
    split_ifs at h with hc
    cases h
    subst hc
    exact .mapSelf (toOption_eq_some hr)
  | done => cases h

/-- `n` steps of `duppage`. -/
def dupIter (cur : EnvIdx) (envid : Word) (pn : Nat) : ℕ → DupPc × Kernel → Option (DupPc × Kernel)
  | 0, s => some s
  | n + 1, s => (dupNext cur envid pn s).bind (dupIter cur envid pn n)

theorem dupIter_run {n : ℕ} {s t : DupPc × Kernel} (h : dupIter cur envid pn n s = some t) :
    ReflTransGen (DupStep cur envid pn) s t := by
  induction n generalizing s with
  | zero =>
    obtain rfl := Option.some.inj h
    exact .refl
  | succ n ih =>
    obtain ⟨u, hu, h⟩ := Option.bind_eq_some_iff.1 h
    exact .head (.act (dupNext_act hu)) (ih h)

/-- A store with at most one fault. -/
def storeNext (e : EnvIdx) (va : Word) (b : BitVec 8) (k : Kernel) : Option Kernel :=
  match k.dirs e with
  | none => none
  | some d =>
    if Permits k.phys d va (PTE_P ||| PTE_U ||| PTE_W) then
      some { k with phys := storeByte k.phys d va b }
    else match pgfault k e va (storeErr k.phys d va) with
      | .error _ => none
      | .ok k₁ =>
        match k₁.dirs e with
        | none => none
        | some d =>
          if Permits k₁.phys d va (PTE_P ||| PTE_U ||| PTE_W) then
            some { k₁ with phys := storeByte k₁.phys d va b }
          else none

theorem storeNext_store (h : storeNext e va b k = some k') : UserStore e va b k k' := by
  unfold storeNext at h
  cases hd : k.dirs e with
  | none =>
    simp only [hd] at h
    cases h
  | some d =>
    simp only [hd] at h
    split_ifs at h with hp
    · cases h
      exact .direct hd hp
    cases hf : pgfault k e va (storeErr k.phys d va) with
    | error stop =>
      simp only [hf] at h
      cases h
    | ok k₁ =>
      cases hd₁ : k₁.dirs e with
      | none =>
        simp only [hf, hd₁] at h
        cases h
      | some d₁ =>
        simp only [hf, hd₁] at h
        split_ifs at h with hp₁
        cases h
        exact .fault hd hp hf (.direct hd₁ hp₁)

/-! ### A parent with one page -/

/-- A program with one page at `va`, and a child without pages. -/
def onePage (va : Word) : Except String (Word × Kernel) := do
  let (_, k) ← envAlloc poolKernel 0
  let (_, k) ← sysPageAlloc k 0 0 va (PTE_P ||| PTE_U ||| PTE_W)
  let (r, k) ← (sysExofork k 0).mapError fun _ => "exofork"
  return (r, k)

theorem soleWriter_of_vm {dirs : EnvIdx → Option Nat} {x : MapIdx} {w : Word}
    (hvm : vm σ dirs = Function.update (fun _ => 0) x w) (huser : UserPte w)
    (hopen : w &&& (PTE_W ||| PTE_COW) ≠ 0) :
    SoleWriter σ dirs x ∧ ∀ q, refs (fun z => named (vm σ dirs z)) q < 2 ^ 16 := by
  have hx : vm σ dirs x = w := by rw [hvm, Function.update_self]
  refine ⟨⟨hx ▸ huser, hx ▸ hopen, fun z hz hn => ?_⟩, fun q => ?_⟩
  · rw [hx, (PGNUM_lt_of_named huser).1, hvm, Function.update_of_ne hz] at hn
    cases named_zero.symm.trans hn
  · rw [hvm, named_update]
    have hzero : refs (fun _ : MapIdx => named (0 : Word)) q = 0 :=
      refs_eq_zero.2 fun _ hc => by cases named_zero.symm.trans hc
    calc refs (Function.update (fun _ => named 0) x (named w)) q
        ≤ refs (fun _ : MapIdx => named (0 : Word)) q + 1 := refs_update_le _ _ _ q
      _ < 2 ^ 16 := by
        rw [hzero]
        decide

theorem onePage_spec (hva : va < UTOP) : ∃ k p free, onePage va = .ok (0x1001#32, k) ∧
    SpaceInv (Set.Icc 1 9) ∅ k.phys k.dirs free ∅ ∧ k.dirs 0 ≠ none ∧ k.dirs 1 ≠ none ∧
    (∀ b, envid2env k 0 0x1001#32 b = some 1) ∧
    vm k.phys k.dirs = Function.update (fun _ => 0) (mapIdx 0 va)
      (page2pa p ||| (PTE_P ||| PTE_U ||| PTE_W) ||| PTE_P) := by
  obtain ⟨p, σ, free, hal, h, hlen, -, hvm⟩ := firstEnv_alloc hva
  obtain ⟨q, rest, rfl⟩ := List.exists_cons_of_length_pos (hlen.symm ▸ (by decide : 0 < 6))
  have ht : TabInv { firstEnv with phys := σ } := tabInv_firstEnv.congr rfl rfl
  rcases sysExofork_spec ht dirs_firstEnv_ne with ⟨hno, -⟩ | ⟨child, q', hfl, hq', hne, hexo⟩
  · exact absurd hno (by simp [h.pinv.head_eq, firstEnv, allocated, poolKernel])
  obtain rfl : child = 1 := Option.some.inj (hfl.symm.trans rfl)
  obtain rfl : q = q' := Option.some.inj (h.pinv.head_eq.symm.trans hq')
  have hE : EmptyChild (Set.Icc 1 9) ∅ { firstEnv with phys := σ } rest 1 q
      (forked { firstEnv with phys := σ } 0 1 q 0) :=
    emptyChild_forked h (FreeSlots.head ht.free_list hfl) 0
  refine ⟨forked { firstEnv with phys := σ } 0 1 q 0, p, rest, ?_, hE.inv, ?_, ?_, ?_,
    hE.vm.trans hvm⟩
  · simp only [onePage, envAlloc_poolKernel, ok_bind, hal, hexo, mapError_ok]
    rfl
  · rw [hE.dirs, Function.update_of_ne (by decide)]
    exact dirs_firstEnv_ne
  · rw [hE.dirs, Function.update_self]
    simp
  · intro b
    have hid : nextEnvId (firstEnv.envs 1).envId 1 = 0x1001#32 := by decide
    rw [← hid]
    exact envid2env_forked (k := { firstEnv with phys := σ }) hne b

theorem onePage_ready (hpn : pn < PGNUM UTOP) : ∃ k, onePage (PGNUM2LA pn) = .ok (0x1001#32, k) ∧
    DupReady (Set.Icc 1 9) ∅ k 0 1 0x1001#32 pn := by
  obtain ⟨k, p, free, hk, h, hd, hdc, hf, hvm⟩ := onePage_spec (addrOk_PGNUM2LA hpn).1
  obtain ⟨hS, hc⟩ := soleWriter_of_vm hvm (writable_PUW p).user (by
    rw [BitVec.or_assoc, page2pa_or_and p (by decide)]
    decide)
  exact ⟨k, hk, ⟨free, h⟩, hc, hd, hdc, hf false, by decide, hpn, hS⟩

theorem onePage_cow_ready (hpn : pn < PGNUM UTOP) :
    ∃ k k', onePage (PGNUM2LA pn) = .ok (0x1001#32, k) ∧
    sysPageMap k 0 0 (PGNUM2LA pn) 0 (PGNUM2LA pn) (PTE_P ||| PTE_U ||| PTE_COW) = .ok (0, k') ∧
    DupReady (Set.Icc 1 9) ∅ k' 0 1 0x1001#32 pn := by
  have hva := addrOk_PGNUM2LA hpn
  obtain ⟨k, p, free, hk, h, hd, hdc, hf, hvm⟩ := onePage_spec hva.1
  have hx : vm k.phys k.dirs (mapIdx 0 (PGNUM2LA pn)) =
    page2pa p ||| (PTE_P ||| PTE_U ||| PTE_W) ||| PTE_P := by
    rw [hvm, Function.update_self]
  have hw : Writable (vm k.phys k.dirs (mapIdx 0 (PGNUM2LA pn))) := hx ▸ writable_PUW p
  have htgt := target_of_PU (e := 0) (i := PDX (PGNUM2LA pn)) (j := PTX (PGNUM2LA pn)) hw.user
  rcases h.sysPageMap (envid2env_zero k 0 true) (envid2env_zero k 0 false) hd hd hva hva htgt
      (by decide : PTE_ADDR (PTE_P ||| PTE_U ||| PTE_COW) = 0) (fun hc => (hc (by decide)).elim)
      (fun q hq hqp => (hqp (Option.some.inj (hq.symm.trans htgt))).elim) with
    ⟨-, hpde, -⟩ | ⟨σ, free', hok, hI, h'⟩
  · have hz := vm_of_absent hpde (PTX (PGNUM2LA pn))
    change vm k.phys k.dirs (mapIdx 0 (PGNUM2LA pn)) = 0 at hz
    rw [hz] at hw
    exact absurd hw (by decide)
  · have hvm' := (h.mem_of_inserted hI).vm
    rw [hvm, Function.update_idem] at hvm'
    obtain ⟨hS, hc⟩ := soleWriter_of_vm hvm' (by
      unfold UserPte
      rw [BitVec.or_assoc, page2pa_or_and _ (by decide)]
      decide) (by
      rw [BitVec.or_assoc, page2pa_or_and _ (by decide)]
      decide)
    exact ⟨k, _, hk, hok, ⟨free', h'⟩, hc, hd, hdc, hf false, by decide, hpn, hS⟩

/-! ### A run with faults -/

/-- The parent writes between the two calls of `duppage`, and the child writes after them. The
states after `duppage` and at the end. -/
def reuseRun (k : Kernel) : Option (DupPc × DupPc × Kernel × Kernel) :=
  (dupIter 0 0x1001#32 (PGNUM UTEXT) 5 (.start, k)).bind fun s =>
    (storeNext 0 UTEXT 5#8 s.2).bind fun k' =>
      (dupIter 0 0x1001#32 (PGNUM UTEXT) 2 (s.1, k')).bind fun t =>
        (storeNext 1 UTEXT 7#8 t.2).map fun k₂ => (s.1, t.1, t.2, k₂)

theorem reuseRun_run {k k₁ k₂ : Kernel} (h : reuseRun k = some (.between, .done, k₁, k₂)) :
    ReflTransGen (DupStep 0 0x1001#32 (PGNUM UTEXT)) (.start, k) (.done, k₁) ∧
      UserStore 1 UTEXT 7#8 k₁ k₂ := by
  obtain ⟨⟨pc, k'⟩, hrun, h⟩ := Option.bind_eq_some_iff.1 h
  obtain ⟨k'', hs, h⟩ := Option.bind_eq_some_iff.1 h
  obtain ⟨⟨pc₁, k₁'⟩, hrun₁, h⟩ := Option.bind_eq_some_iff.1 h
  obtain ⟨k₂', hs₁, hend⟩ := Option.map_eq_some_iff.1 h
  cases hend
  have hstore : DupStep 0 0x1001#32 (PGNUM UTEXT) (.between, k') (.between, k'') :=
    .store nofun rfl (storeNext_store hs)
  exact ⟨((dupIter_run hrun).tail hstore).trans (dupIter_run hrun₁), storeNext_store hs₁⟩

/-- The run from the state in which the parent's page is copy-on-write. -/
def reuseStart : Option (DupPc × DupPc × Kernel × Kernel) :=
  (onePage UTEXT).toOption.bind fun x =>
    (sysPageMap x.2 0 0 UTEXT 0 UTEXT (PTE_P ||| PTE_U ||| PTE_COW)).toOption.bind fun y =>
    reuseRun y.2

theorem reuseStart_computed :
    reuseStart.map (fun x => x.1 matches .between) = some true ∧
    reuseStart.map (fun x => x.2.1 matches .done) = some true ∧
    reuseStart.map (fun x => named (vm x.2.2.1.phys x.2.2.1.dirs (mapIdx 1 UTEXT))) =
    some (some 2) ∧
    reuseStart.map (fun x => x.2.2.2.phys.pageFreeList) = some (some 2) ∧
    reuseStart.map (fun x => x.2.2.2.phys.ppLink 2) = some none ∧
    reuseStart.map (fun x => (x.2.2.2.dirs 0).isSome) = some true ∧
    reuseStart.map (fun x => (target x.2.2.2.phys x.2.2.2.dirs (.pde 0 (PDX PFTEMP))).isSome) =
    some true ∧
    reuseStart.map (fun x => decide (Writable (vm x.2.2.2.phys x.2.2.2.dirs (mapIdx 0 UTEXT)))) =
    some false := by
  refine ⟨?_, ?_, ?_, ?_, ?_, ?_, ?_, ?_⟩ <;> decide +kernel

/-- In this run the parent's page is copy-on-write from the start, so both writes fault. -/
theorem reuse_computed : ∃ k k₁ k₂, DupReady (Set.Icc 1 9) ∅ k 0 1 0x1001#32 (PGNUM UTEXT) ∧
    reuseRun k = some (.between, .done, k₁, k₂) ∧
    named (vm k₁.phys k₁.dirs (mapIdx 1 UTEXT)) = some 2 ∧
    k₂.phys.pageFreeList = some 2 ∧ k₂.phys.ppLink 2 = none ∧ (k₂.dirs 0).isSome ∧
    (target k₂.phys k₂.dirs (.pde 0 (PDX PFTEMP))).isSome ∧
    ¬ Writable (vm k₂.phys k₂.dirs (mapIdx 0 UTEXT)) := by
  obtain ⟨k₀, k, hk₀, hk, hready⟩ := onePage_cow_ready (by decide : PGNUM UTEXT < PGNUM UTOP)
  rw [show PGNUM2LA (PGNUM UTEXT) = UTEXT by decide] at hk₀ hk
  have hstart : reuseStart = reuseRun k := by
    rw [reuseStart, hk₀]
    change (sysPageMap k₀ 0 0 UTEXT 0 UTEXT (PTE_P ||| PTE_U ||| PTE_COW)).toOption.bind
      (fun y => reuseRun y.2) = _
    rw [hk]
    rfl
  have hcomp := reuseStart_computed
  rw [hstart] at hcomp
  obtain ⟨⟨pc, pc₁, k₁, k₂⟩, hrun⟩ : ∃ x, reuseRun k = some x := by
    cases hx : reuseRun k with
    | none =>
      rw [hx] at hcomp
      cases hcomp.1
    | some x => exact ⟨x, rfl⟩
  rw [hrun] at hcomp
  simp only [Option.map_some, Option.some.injEq] at hcomp
  obtain ⟨hpc, hpc₁, hc, hlist, hlink, hd, htab, hro⟩ := hcomp
  obtain rfl : pc = .between := by cases pc <;> first | rfl | cases hpc
  obtain rfl : pc₁ = .done := by cases pc₁ <;> first | rfl | cases hpc₁
  exact ⟨k, k₁, k₂, hready, hrun, hc, hlist, hlink, hd, htab, of_decide_eq_false hro⟩

/-- `duppage` of the page of code of a program: the parent's fault in its middle leaves page 2 to
the child, and the child's write goes to a copy of that. -/
theorem duppage_safe_text : ∃ k k₁ k₂, DupReady (Set.Icc 1 9) ∅ k 0 1 0x1001#32 (PGNUM UTEXT) ∧
    reuseRun k = some (.between, .done, k₁, k₂) ∧
    CowShared k₁.phys k₁.dirs (mapIdx 0 UTEXT) (mapIdx 1 UTEXT) 2 ∧
    ∃ p, OwnCopy k₁ k₂ (mapIdx 1 UTEXT) UTEXT 7#8 p := by
  obtain ⟨k, k₁, k₂, hready, hrun, hchild, -⟩ := reuse_computed
  obtain ⟨hdone, hs⟩ := reuseRun_run hrun
  obtain ⟨c, hC, -, hown⟩ := duppage_safe hready (by decide) hdone
  obtain rfl : c = 2 := Option.some.inj (hC.named.symm.trans hchild)
  exact ⟨k, k₁, k₂, hready, hrun, hC, hown k₁ .refl 1 UTEXT 7#8 k₂ (.inr rfl) rfl hs⟩

/-! ### The two limits -/

/-- The page of the handler: after `duppage` a write of the parent leaves it without any page. -/
def PageLost : Prop := ∃ k k₁ k₂, DupReady (Set.Icc 1 9) ∅ k 0 1 0x1001#32 (PGNUM PFTEMP) ∧
  ReflTransGen (DupStep 0 0x1001#32 (PGNUM PFTEMP)) (.start, k) (.done, k₁) ∧
  pgfault k₁ 0 PFTEMP (FEC_WR ||| FEC_U ||| FEC_PR) = .ok k₂ ∧
  vm k₂.phys k₂.dirs (mapIdx 0 PFTEMP) = 0

/-- A page that is left by everybody comes back: the parent's fault between the calls leaves page 2
to the child alone, the child's write frees it, and the parent's next write takes it. -/
def PageReused : Prop := ∃ k k₁ k₂ k₃, DupReady (Set.Icc 1 9) ∅ k 0 1 0x1001#32 (PGNUM UTEXT) ∧
  ReflTransGen (DupStep 0 0x1001#32 (PGNUM UTEXT)) (.start, k) (.done, k₁) ∧
  UserStore 1 UTEXT 7#8 k₁ k₂ ∧ UserStore 0 UTEXT 7#8 k₂ k₃ ∧
  named (vm k₁.phys k₁.dirs (mapIdx 1 UTEXT)) = some 2 ∧
  named (vm k₃.phys k₃.dirs (mapIdx 0 UTEXT)) = some 2 ∧
  Writable (vm k₃.phys k₃.dirs (mapIdx 0 UTEXT))

theorem pageLost : PageLost := by
  obtain ⟨k, hk, hready⟩ := onePage_ready (by decide : PGNUM PFTEMP < PGNUM UTOP)
  have hcomp : ((onePage PFTEMP).toOption.bind fun x =>
      (dupIter 0 0x1001#32 (PGNUM PFTEMP) 7 (.start, x.2)).bind fun s =>
        (pgfault s.2 0 PFTEMP (FEC_WR ||| FEC_U ||| FEC_PR)).toOption.map fun k₂ =>
          (s.1 matches .done) && decide (vm k₂.phys k₂.dirs (mapIdx 0 PFTEMP) = 0)) =
          some true := by
    decide +kernel
  rw [show PGNUM2LA (PGNUM PFTEMP) = PFTEMP by decide] at hk
  have hcomp := of_toOption_bind hk hcomp
  obtain ⟨⟨pc, k₁⟩, hrun, hcomp⟩ := Option.bind_eq_some_iff.1 hcomp
  obtain ⟨k₂, hf, hend⟩ := Option.map_eq_some_iff.1 hcomp
  rw [Bool.and_eq_true, decide_eq_true_iff] at hend
  cases pc with
  | done => exact ⟨k, k₁, k₂, hready, dupIter_run hrun, toOption_eq_some hf, hend.2⟩
  | _ => cases hend.1

theorem pageReused : PageReused := by
  obtain ⟨k, k₁, k₂, hready, hrun, hc, hlist, hlink, hd, htab, hro⟩ := reuse_computed
  obtain ⟨hdone, hs₁⟩ := reuseRun_run hrun
  -- page 2 is the only one on the free list, so the parent's write takes it
  have hsettled := (hready.settled (by decide) hdone).2
  have hsettled₂ := (hsettled.store hready.ne hready.lt (by decide) (.inr rfl) rfl hs₁).1
  obtain ⟨free, h₂⟩ := hsettled₂.count.inv
  have hfree : free = [2] := by
    have hchain := h₂.pinv.chain
    rw [hlist] at hchain
    obtain ⟨rest, rfl, hrest⟩ := hchain.pop
    rw [hlink] at hrest
    rw [hrest.head_none]
  have hcow : CowPte (vm k₂.phys k₂.dirs (mapIdx 0 UTEXT)) :=
    hsettled₂.parent.resolve_right fun hw => hro hw.1
  obtain ⟨k₃, p, hp, hs₂, hpte⟩ := exists_userStore h₂ (Option.isSome_iff_ne_none.1 hd)
    (by decide : UTEXT < UTOP) (by decide) hcow.user hcow.cow hcow.ro
    (fun z _ q hz => h₂.bound_of_count hsettled₂.count.count hz) (by
      rw [hfree, tableNeed, if_neg (Option.isSome_iff_ne_none.1 htab)]
      decide) 7#8
  obtain rfl : p = 2 := by simpa [hfree] using hp
  exact ⟨k, k₁, k₂, k₃, hready, hdone, hs₁, hs₂, hc, hpte ▸ named_mk (by decide) (by decide),
    hpte ▸ writable_PUW 2⟩

/-- Not every page may be duplicated, and no page stays shut once it is free. -/
theorem duppage_limits : PageLost ∧ PageReused := ⟨pageLost, pageReused⟩

end Jos
