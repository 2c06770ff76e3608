import Jos.Duppage
import Jos.Lib.CopyOnWrite

/-!
# Copy-on-write pages

What the entries of user programs are for `Jos.Lib.CopyOnWrite`: a page that can be written, a page
that `pgfault` copies, a page that can be read, or a page that user programs have no access to
(`cowSpaces`).

Each part of `fork` and of `pgfault` is then one of the steps of that module: stores write a page
(`wrote_frame`), `pgfault` and `sys_page_alloc` give a frame of its own to one (`Resolved.renewed`,
`PageStep.renewed`), and the loop of `fork` duplicates all pages (`Copying.duplicated`).
-/

namespace Jos

open Lib

variable {managed tables : Set Nat} {σ σ' : Phys} {dirs : EnvIdx → Option Nat}
  {free free' : List Nat} {held : Set Nat} {k k' : Kernel} {cur child e : EnvIdx} {d p q : Nat}
  {va perm w : Word} {b : BitVec 8} {z : MapIdx} {c : Idx → Word}

/-! ## Entries -/

/-- What user programs can do with a page. -/
def pteMode (w : Word) : Cow.Mode :=
  if w &&& PTE_U = 0 then .hidden
  else if w &&& PTE_W ≠ 0 then .rw
  else if w &&& PTE_COW ≠ 0 then .cow
  else .ro

def pteEntry (w : Word) : Option (Cow.Entry Nat) := (named w).map fun p => ⟨p, pteMode w⟩

/-- The address spaces of all environments. -/
def cowSpaces (σ : Phys) (dirs : EnvIdx → Option Nat) :
    Cow.Spaces EnvIdx (Idx × Idx) Nat (Idx → Word) where
  map z := pteEntry (vm σ dirs z)
  mem := σ.mem

theorem pteEntry_eq_some {m : Cow.Mode} :
    pteEntry w = some ⟨p, m⟩ ↔ named w = some p ∧ pteMode w = m := by
  unfold pteEntry
  cases named w <;> simp

theorem pteEntry_zero : pteEntry 0 = none := congrArg (Option.map _) named_zero

theorem names_iff : (cowSpaces σ dirs).Names z p ↔ named (vm σ dirs z) = some p := by
  constructor
  · rintro ⟨m, hm⟩
    exact (pteEntry_eq_some.1 hm).1
  · intro h
    exact ⟨_, pteEntry_eq_some.2 ⟨h, rfl⟩⟩

theorem userPte_iff : UserPte w ↔ Present w ∧ w &&& PTE_U ≠ 0 := by
  constructor
  · intro h
    exact ⟨present_of_and_PU h, PU_ne_zero h⟩
  · rintro ⟨hp, hu⟩
    exact and_or_eq (and_PTE_P_eq hp) (and_PTE_U_eq hu)

theorem pteMode_eq_hidden : pteMode w = .hidden ↔ w &&& PTE_U = 0 := by
  unfold pteMode
  split_ifs <;> simp_all

theorem pteMode_eq_rw : pteMode w = .rw ↔ w &&& PTE_U ≠ 0 ∧ w &&& PTE_W ≠ 0 := by
  unfold pteMode
  split_ifs <;> simp_all

theorem CowPte.mode (h : CowPte w) : pteMode w = .cow := by
  unfold pteMode
  rw [if_neg (userPte_iff.1 h.user).2, if_neg (not_not.2 h.ro), if_pos h.cow]

theorem pteEntry_eq_rw : pteEntry w = some ⟨p, .rw⟩ ↔ Writable w ∧ named w = some p := by
  rw [pteEntry_eq_some, pteMode_eq_rw]
  constructor
  · rintro ⟨hn, hu, hw⟩
    have huser : UserPte w := userPte_iff.2 ⟨(named_eq_some hn).1, hu⟩
    exact ⟨and_or_eq huser (and_twoPow_eq (n := 1) hw), hn⟩
  · rintro ⟨hw, hn⟩
    refine ⟨hn, (userPte_iff.1 hw.user).2, ?_⟩
    rw [and_eq_of_and_or_right hw]
    decide

theorem pteEntry_eq_cow : pteEntry w = some ⟨p, .cow⟩ ↔ CowPte w ∧ named w = some p := by
  rw [pteEntry_eq_some]
  constructor
  · rintro ⟨hn, hmode⟩
    have hpr := (named_eq_some hn).1
    unfold pteMode at hmode
    split_ifs at hmode with hu hw hcow
    exact ⟨⟨userPte_iff.2 ⟨hpr, hu⟩, hcow, not_not.1 hw⟩, hn⟩
  · rintro ⟨hc, hn⟩
    exact ⟨hn, hc.mode⟩

theorem pteEntry_new (hp : p < 2 ^ 20) :
    pteEntry (page2pa p ||| (PTE_P ||| PTE_U ||| PTE_W) ||| PTE_P) = some ⟨p, .rw⟩ :=
  pteEntry_eq_rw.2 ⟨writable_PUW p, named_mk hp (by decide)⟩

theorem cowPte_dupPte (h : UserPte w) (hopen : w &&& (PTE_W ||| PTE_COW) ≠ 0) :
    CowPte (dupPte w) := by
  rw [dupPte, dupFlags, if_neg hopen]
  exact cowPte_mk _ h

theorem pteEntry_dupPte (h : UserPte w) :
    pteEntry (dupPte w) = (pteEntry w).map Cow.Entry.share := by
  have hn := (PGNUM_lt_of_named h).1
  have hold : pteEntry w = some ⟨PGNUM w, pteMode w⟩ := pteEntry_eq_some.2 ⟨hn, rfl⟩
  by_cases hro : w &&& (PTE_W ||| PTE_COW) = 0
  · have hw : w &&& PTE_W = 0 := by
      rw [BitVec.and_or_distrib_left] at hro
      exact (BitVec.or_eq_zero_iff.1 hro).1
    have hshare : Cow.Entry.share ⟨PGNUM w, pteMode w⟩ = ⟨PGNUM w, pteMode w⟩ :=
      if_neg fun hc => (pteMode_eq_rw.1 hc).2 hw
    rw [dupPte_of_readonly (and_eq_of_and_or_left h) hro, hold, Option.map_some, hshare]
  · have hcow := cowPte_dupPte h hro
    have hshare : Cow.Entry.share ⟨PGNUM w, pteMode w⟩ = ⟨PGNUM w, .cow⟩ := by
      by_cases hw : w &&& PTE_W = 0
      · have hmode : CowPte w := by
          refine ⟨h, fun hc => hro ?_, hw⟩
          rw [BitVec.and_or_distrib_left, hw, hc]
          exact BitVec.zero_or
        rw [hmode.mode]
        rfl
      · exact if_pos (pteMode_eq_rw.2 ⟨(userPte_iff.1 h).2, hw⟩)
    rw [hold, Option.map_some, hshare]
    exact pteEntry_eq_some.2 ⟨(named_dupPte h).trans hn, hcow.mode⟩

/-- What an environment sees is what it may read. -/
theorem view_cowSpaces (z : MapIdx) : (cowSpaces σ dirs).view z =
    if UserPte (vm σ dirs z) then some (σ.mem (PGNUM (vm σ dirs z))) else none := by
  unfold Cow.Spaces.view cowSpaces pteEntry
  by_cases hp : Present (vm σ dirs z)
  · simp only [named_of_present hp, Option.map_some, Option.bind_some, Cow.Entry.show,
      pteMode_eq_hidden, userPte_iff, hp, true_and]
    split_ifs <;> simp_all
  · simp only [named_eq_none.2 hp, Option.map_none, Option.bind_none, userPte_iff, hp,
      false_and, if_false]

/-! ## Counting mappings -/

/-- **A page that is written or copied has few mappings**, so its count does not wrap around. -/
theorem SpaceInv.bound_of_proper (h : SpaceInv managed tables k.phys k.dirs free ∅)
    (hP : Cow.Proper (cowSpaces k.phys k.dirs))
    (hw : Writable (vm k.phys k.dirs z) ∨ CowPte (vm k.phys k.dirs z))
    (hq : named (vm k.phys k.dirs z) = some q) :
    kernRefs tables q + refs (target k.phys k.dirs) q ≤ 2 ^ 16 := by
  have hmap : (cowSpaces k.phys k.dirs).map z = some ⟨q, .rw⟩ ∨
    (cowSpaces k.phys k.dirs).map z = some ⟨q, .cow⟩ :=
    hw.imp (fun hw => pteEntry_eq_rw.2 ⟨hw, hq⟩) (fun hc => pteEntry_eq_cow.2 ⟨hc, hq⟩)
  have hle := hP.card_le hmap
    (Finset.univ.filter fun z' => named (vm k.phys k.dirs z') = some q) fun z' =>
    ((Finset.mem_filter_univ z').trans names_iff.symm).1
  rw [Fintype.card_fin] at hle
  rw [h.refs_of_inUse (inUse_of_vm hq), refs]
  omega

/-! ## Stores -/

theorem wrote_frame (hw : Writable (vm σ dirs z)) (hvm : vm σ' dirs = vm σ dirs)
    (hmem : σ'.mem = Function.update σ.mem (PGNUM (vm σ dirs z)) c) :
    Cow.Wrote (cowSpaces σ dirs) (cowSpaces σ' dirs) z c := by
  refine ⟨?_, PGNUM (vm σ dirs z), pteEntry_eq_rw.2 ⟨hw, (PGNUM_lt_of_named hw.user).1⟩, hmem⟩
  funext z'
  exact congrArg pteEntry (congrFun hvm z')

/-! ## New pages -/

/-- A page that was free is mapped at `z`. -/
theorem renewed_of_vm (h : SpaceInv managed tables σ dirs free held) (hp : p ∈ free)
    (hvm : vm σ' dirs = Function.update (vm σ dirs) z
      (page2pa p ||| (PTE_P ||| PTE_U ||| PTE_W) ||| PTE_P))
    (hmem : ∀ q, InUse σ dirs q → InUse σ' dirs q → σ'.mem q = σ.mem q) :
    Cow.Renewed (cowSpaces σ dirs) (cowSpaces σ' dirs) z (σ'.mem p) := by
  have hp20 := h.pinv.lt_two_pow (h.pinv.free_managed hp)
  refine ⟨⟨p, fun z' hz' => h.named_ne_free hp z' (names_iff.1 hz'), ?_, rfl⟩,
    fun z₁ z₂ f h₁ h₂ => ?_⟩
  · funext z'
    by_cases hz : z' = z
    · subst hz
      rw [Function.update_self]
      change pteEntry (vm σ' dirs z') = _
      rw [hvm, Function.update_self, pteEntry_new hp20]
    · rw [Function.update_of_ne hz]
      change pteEntry (vm σ' dirs z') = pteEntry (vm σ dirs z')
      rw [hvm, Function.update_of_ne hz]
  · exact hmem f (inUse_of_vm (names_iff.1 h₁)) (inUse_of_vm (names_iff.1 h₂))

theorem PageStep.renewed (h : SpaceInv managed tables σ dirs free held) (hp : p ∈ free)
    (hs : PageStep σ σ' dirs z (page2pa p ||| (PTE_U ||| PTE_W ||| PTE_P) ||| PTE_P)) :
    Cow.Renewed (cowSpaces σ dirs) (cowSpaces σ' dirs) z (σ'.mem p) :=
  renewed_of_vm h hp hs.vm fun q hq _ => hs.mem q hq

theorem Resolved.renewed (h : SpaceInv managed tables k.phys k.dirs free ∅)
    (hR : Resolved k free σ' e va p) (htemp : Jos.vm k.phys k.dirs (mapIdx e PFTEMP) = 0) :
    Cow.Renewed (cowSpaces k.phys k.dirs) (cowSpaces σ' k.dirs) (mapIdx e va)
      (k.phys.mem (PGNUM (Jos.vm k.phys k.dirs (mapIdx e va)))) := by
  rw [← hR.copy]
  refine renewed_of_vm h hR.free ?_ hR.mem
  have hsame : Function.update (Jos.vm k.phys k.dirs) (mapIdx e PFTEMP) 0 =
    Jos.vm k.phys k.dirs := by
    rw [← htemp, Function.update_eq_self]
  rw [hR.vm, hsame]

/-! ## The loop of `fork` -/

/-- The pages below the exception stack. -/
def LowPage (a : Idx × Idx) : Prop := pageNo a.1 a.2 < PGNUM UXSTACKBASE

instance : DecidablePred LowPage := fun _ => Nat.decLt _ _

theorem pageNo_PDX_PTX (va : Word) : pageNo (PDX va) (PTX va) = PGNUM va := by
  rw [pageNo, val_PDX, val_PTX, PGNUM, BitVec.toNat_ushiftRight, Nat.shiftRight_eq_div_pow]
  have := va.isLt
  omega

theorem lowPage_of_lt (hva : va < UXSTACKBASE) : LowPage (PDX va, PTX va) := by
  have hlt : va.toNat < UXSTACKBASE.toNat := hva
  have hX : UXSTACKBASE.toNat = PGNUM UXSTACKBASE * 4096 := by decide
  rw [LowPage, pageNo_PDX_PTX, PGNUM, BitVec.toNat_ushiftRight, Nat.shiftRight_eq_div_pow]
  omega

theorem not_lowPage_stack : ¬ LowPage (PDX UXSTACKBASE, PTX UXSTACKBASE) := by decide

/-- The loop leaves the exception stacks alone, but for the child's. -/
theorem Copying.vm_stack {free₁ : List Nat} {x : EnvIdx}
    (hC : Copying managed tables k free₁ cur child (PGNUM UXSTACKBASE) σ free) (hx : x ≠ child) :
    vm σ k.dirs (mapIdx x UXSTACKBASE) = vm k.phys k.dirs (mapIdx x UXSTACKBASE) := by
  have hno : ¬ pageNo (PDX UXSTACKBASE) (PTX UXSTACKBASE) < PGNUM UXSTACKBASE := by decide
  by_cases hxc : x = cur
  · rw [hxc]
    exact (hC.source _ _).trans (if_neg fun hc => hno hc.1)
  · exact hC.others _ hxc hx

theorem Copying.vm_eq_zero {free₁ : List Nat} {n : Nat} {a : Idx × Idx} {x : EnvIdx}
    (hC : Copying managed tables k free₁ cur child n σ free)
    (hcopy : ∀ i j, vm σ k.dirs (child, i, j) = copied n i j (vm k.phys k.dirs (cur, i, j)))
    (hcur : vm k.phys k.dirs (cur, a) = 0) (hx : x ≠ child → vm k.phys k.dirs (x, a) = 0) :
    vm σ k.dirs (x, a) = 0 := by
  have hno : ¬ UserPte (vm k.phys k.dirs (cur, a)) := by
    rw [hcur]
    decide
  by_cases hxcur : x = cur
  · rw [hxcur]
    exact (hC.source a.1 a.2).trans ((if_neg fun hc => hno hc.2).trans hcur)
  by_cases hxc : x = child
  · rw [hxc]
    exact (hcopy a.1 a.2).trans (if_neg fun hc => hno hc.2)
  · rw [hC.others _ hxcur hxc]
    exact hx hxc

/-- **The loop of `fork`** duplicates the pages below the exception stack, if there is memory for
it. -/
theorem Copying.duplicated {free₁ : List Nat}
    (hC : Copying managed tables k free₁ cur child (PGNUM UXSTACKBASE) σ free) (hne : child ≠ cur)
    (hempty : ∀ i, target k.phys k.dirs (.pde child i) = none)
    (hcopy : ∀ i j, vm σ k.dirs (child, i, j) =
      copied (PGNUM UXSTACKBASE) i j (vm k.phys k.dirs (cur, i, j))) :
    Cow.Duplicated (cowSpaces k.phys k.dirs) (cowSpaces σ k.dirs) cur child LowPage := by
  refine ⟨hne, fun a => ?_, fun a x hlow hx hm => ?_, fun a hkeep => ?_, fun z hzc hzd => ?_,
    fun z f hf => ?_⟩
  · change pteEntry (vm k.phys k.dirs (child, a.1, a.2)) = none
    rw [vm_of_absent (hempty a.1), pteEntry_zero]
  · have hw : UserPte (vm k.phys k.dirs (cur, a)) := by
      obtain ⟨hn, hmode⟩ := pteEntry_eq_some.1 hx
      exact userPte_iff.2 ⟨(named_eq_some hn).1, fun hc => hm (hmode ▸ pteMode_eq_hidden.2 hc)⟩
    have hshare : pteEntry (dupPte (vm k.phys k.dirs (cur, a))) = some x.share := by
      rw [pteEntry_dupPte hw, show pteEntry (vm k.phys k.dirs (cur, a)) = some x from hx,
        Option.map_some]
    refine ⟨?_, ?_⟩
    · change pteEntry (vm σ k.dirs (cur, a.1, a.2)) = _
      rw [hC.source, passed, if_pos ⟨hlow, hw⟩]
      exact hshare
    · change pteEntry (vm σ k.dirs (child, a.1, a.2)) = _
      rw [hcopy, copied, if_pos ⟨hlow, hw⟩]
      exact hshare
  · have hno :
        ¬ (pageNo a.1 a.2 < PGNUM UXSTACKBASE ∧ UserPte (vm k.phys k.dirs (cur, a.1, a.2))) := by
      rintro ⟨hlow, hw⟩
      have hmap : (cowSpaces k.phys k.dirs).map (cur, a) =
        some ⟨_, pteMode (vm k.phys k.dirs (cur, a))⟩ :=
        pteEntry_eq_some.2 ⟨(PGNUM_lt_of_named hw).1, rfl⟩
      exact (userPte_iff.1 hw).2 (pteMode_eq_hidden.1 (hkeep hlow _ hmap))
    refine ⟨?_, ?_⟩
    · change pteEntry (vm σ k.dirs (cur, a.1, a.2)) = _
      rw [hC.source, passed, if_neg hno]
      rfl
    · change pteEntry (vm σ k.dirs (child, a.1, a.2)) = _
      rw [hcopy, copied, if_neg hno, pteEntry_zero]
  · exact congrArg pteEntry (hC.others z hzc hzd)
  · exact (hC.mem f (inUse_of_vm (names_iff.1 hf))).2

/-! ## A new child -/

/-- `sys_exofork` changes no mapping, and of all frames one that was free. -/
theorem EmptyChild.spaces {rest : List Nat}
    (h : SpaceInv managed tables k.phys k.dirs (p :: rest) ∅)
    (hE : EmptyChild managed tables k rest child p k') :
    (cowSpaces k'.phys k'.dirs).map = (cowSpaces k.phys k.dirs).map ∧
      (cowSpaces k'.phys k'.dirs).view = (cowSpaces k.phys k.dirs).view := by
  have hmap : (cowSpaces k'.phys k'.dirs).map = (cowSpaces k.phys k.dirs).map := by
    funext z
    exact congrArg pteEntry (congrFun hE.vm z)
  refine ⟨hmap, Cow.view_congr hmap fun z f hf => hE.mem f ?_⟩
  rintro rfl
  exact h.named_ne_free List.mem_cons_self z (names_iff.1 hf)

end Jos
