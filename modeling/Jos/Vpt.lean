import Jos.Protect
import Jos.Tlb

/-!
# The page tables as user programs read them

`env_setup_vm` enters a directory into itself at `UVPT`. A user program reads its page table entries
as the array `vpt` and its directory entries as the array `vpd`: the MMU passes the directory twice,
or three times.

**Theorem (`vpt_reads`).** As long as the directory's own entry stands, each element of the arrays
is the word that holds the entry (`vptReads_of_self`). It stands in every run of `page_insert` and
`page_remove` below `UTOP`, if the flags are only flags and the directory is not itself inserted as
a page: then it is behind the wall of `Jos.Protect`.

`page_insert` does not check its flags, and it or's them into the directory entry. With address
bits among them the entry names another page table, which may be the directory itself, and a
`page_remove` in that table clears the entry at `UVPT` (`vpt_lost`).
-/

namespace Jos

open Lib

variable {σ : Phys} {d : Nat} {va : Word}

/-! ## Definitions -/

/-- The address of `vpt[n]`. -/
def vpt (n : Nat) : Word := UVPT + 4#32 * BitVec.ofNat 32 n

/-- The address of `vpd[i]`. -/
def vpd (i : Nat) : Word := UVPT + (UVPT >>> 12) * 4#32 + 4#32 * BitVec.ofNat 32 i

/-- The word of physical memory that `va` names, or `none` for a page fault because an entry is
not present. -/
def mmuAddr (σ : Phys) (d : Nat) (va : Word) : Option PtePtr :=
  if Present (σ.mem d (PDX va)) ∧ Present (mmuPte σ d va) then some (mmuWord σ d va) else none

/-- What the arrays hold. Each page number is the one of some `va`. -/
structure VptReads (σ : Phys) (d : Nat) : Prop where
  vpt : ∀ va, Present (σ.mem d (PDX va)) → mmuAddr σ d (vpt (PGNUM va)) = some (ptePtr σ d va)
  fault : ∀ va, ¬ Present (σ.mem d (PDX va)) → mmuAddr σ d (Jos.vpt (PGNUM va)) = none
  vpd : ∀ i : Idx, mmuAddr σ d (vpd i) = some (d, i)

/-- A state in which directories are made: the free list is sound, and `kern_pgdir` maps nothing
below `UTOP`. -/
structure DirSource (σ : Phys) : Prop where
  npages_le : σ.npages ≤ 2 ^ 20
  free : ∃ free, Chain σ.ppLink σ.pageFreeList free ∧ ∀ p ∈ free, p < σ.npages ∧ p ≠ σ.kernPgdir
  empty : ∀ i : Idx, i.User → ¬ Present (σ.mem σ.kernPgdir i)

/-! ## Index arithmetic -/

theorem val_WORDX (la : Word) : (WORDX la).val = la.toNat / 4 % 1024 := by
  simp [WORDX, Nat.shiftRight_eq_div_pow]

theorem toNat_vpt {n : Nat} (hn : n < 2 ^ 20) : (vpt n).toNat = 957 * 2 ^ 22 + 4 * n := by
  rw [vpt, BitVec.toNat_add, BitVec.toNat_mul, BitVec.toNat_ofNat, BitVec.toNat_ofNat,
    show UVPT.toNat = 957 * 2 ^ 22 by decide]
  omega

theorem vpd_eq (i : Nat) : vpd i = vpt (PGNUM UVPT + i) := by
  have hbase : (UVPT >>> 12) * 4#32 = 4#32 * BitVec.ofNat 32 (PGNUM UVPT) := by decide
  rw [vpd, vpt, BitVec.ofNat_add, BitVec.mul_add, hbase, BitVec.add_assoc]

section
variable {n : Nat} (hn : n < 2 ^ 20)
include hn

theorem PDX_vpt : PDX (vpt n) = PDX UVPT := by
  ext
  rw [val_PDX, toNat_vpt hn, show (PDX UVPT).val = 957 by decide]
  omega

theorem val_PTX_vpt : (PTX (vpt n)).val = n / 1024 := by
  rw [val_PTX, toNat_vpt hn]
  omega

theorem val_WORDX_vpt : (WORDX (vpt n)).val = n % 1024 := by
  rw [val_WORDX, toNat_vpt hn]
  omega

end

theorem PTX_vpt_PGNUM (va : Word) : PTX (vpt (PGNUM va)) = PDX va := by
  ext
  rw [val_PTX_vpt (PGNUM_lt va), val_PDX, PGNUM, BitVec.toNat_ushiftRight,
    Nat.shiftRight_eq_div_pow]
  omega

theorem WORDX_vpt_PGNUM (va : Word) : WORDX (vpt (PGNUM va)) = PTX va := by
  ext
  rw [val_WORDX_vpt (PGNUM_lt va), val_PTX, PGNUM, BitVec.toNat_ushiftRight,
    Nat.shiftRight_eq_div_pow]

theorem uvpt_page (i : Idx) : PGNUM (UVPT + BitVec.ofNat 32 (4096 * i)) = PGNUM UVPT + i ∧
    PDX (UVPT + BitVec.ofNat 32 (4096 * i)) = PDX UVPT ∧
      PTX (UVPT + BitVec.ofNat 32 (4096 * i)) = i := by
  have hi := i.isLt
  have hva : (UVPT + BitVec.ofNat 32 (4096 * i)).toNat = 957 * 2 ^ 22 + 4096 * i.val := by
    rw [BitVec.toNat_add, BitVec.toNat_ofNat, show UVPT.toNat = 957 * 2 ^ 22 by decide]
    omega
  refine ⟨?_, ?_, ?_⟩
  · rw [PGNUM, BitVec.toNat_ushiftRight, Nat.shiftRight_eq_div_pow, hva,
      show PGNUM UVPT = 957 * 1024 by decide]
    omega
  · ext
    rw [val_PDX, hva, show (PDX UVPT).val = 957 by decide]
    omega
  · ext
    rw [val_PTX, hva]
    omega

/-! ## Two walks -/

/-- The first walk ends in the directory, so the entry it finds is a directory entry. -/
theorem mmuPte_vpt (hself : named (σ.mem d (PDX UVPT)) = some d) {n : Nat} (hn : n < 2 ^ 20) :
    mmuPte σ d (vpt n) = σ.mem d (PTX (vpt n)) := by
  rw [mmuPte, PDX_vpt hn, (named_eq_some hself).2]

/-- **The entry at `UVPT` is all it takes.** -/
theorem vptReads_of_self (hself : named (σ.mem d (PDX UVPT)) = some d) : VptReads σ d := by
  obtain ⟨hpr, hpg⟩ := named_eq_some hself
  have hread : ∀ va, Present (σ.mem d (PDX va)) →
    mmuAddr σ d (vpt (PGNUM va)) = some (ptePtr σ d va) := by
    intro va hpde
    have hpte := mmuPte_vpt hself (PGNUM_lt va)
    rw [PTX_vpt_PGNUM] at hpte
    rw [mmuAddr, PDX_vpt (PGNUM_lt va), hpte, if_pos ⟨hpr, hpde⟩, mmuWord, hpte,
      WORDX_vpt_PGNUM, ptePtr]
  refine ⟨hread, fun va hpde => ?_, fun i => ?_⟩
  · have hpte := mmuPte_vpt hself (PGNUM_lt va)
    rw [PTX_vpt_PGNUM] at hpte
    rw [mmuAddr, hpte, if_neg fun h => hpde h.2]
  · -- `vpd[i]` is the element of `vpt` for page `i` of the window at `UVPT`
    obtain ⟨hva, hdx, htx⟩ := uvpt_page i
    rw [vpd_eq, ← hva, hread _ (hdx ▸ hpr), ptePtr, hdx, hpg, htx]

/-! ## Runs -/

/-- A new directory is behind the wall, and its own entry stands. -/
theorem DirSource.setup {p : Nat} (h : DirSource σ) (hhead : σ.pageFreeList = some p) :
    Walled {p} p (initPgdir (pageAlloc σ true).2 p) ∧
      named ((initPgdir (pageAlloc σ true).2 p).mem p (PDX UVPT)) = some p := by
  obtain ⟨free, hchain, hout⟩ := h.free
  rw [hhead] at hchain
  obtain ⟨rest, rfl, -⟩ := hchain.pop
  obtain ⟨hlt, hkp⟩ := hout p List.mem_cons_self
  have hnp : (initPgdir (pageAlloc σ true).2 p).npages = σ.npages := by
    simp [initPgdir, pageAlloc, hhead, Phys.store, incRef]
  have hnone : ∀ i : Idx, i.User →
    ∀ t, named ((initPgdir (pageAlloc σ true).2 p).mem p i) ≠ some t := by
    intro i hi t ht
    have hkern : (pageAlloc σ true).2.mem (pageAlloc σ true).2.kernPgdir = σ.mem σ.kernPgdir := by
      rw [show (pageAlloc σ true).2.kernPgdir = σ.kernPgdir by simp [pageAlloc, hhead],
        mem_pageAlloc hhead, if_neg fun hc => hkp hc.2.symm]
    rw [initPgdir_user hi, hkern, named_eq_none.2 (h.empty i hi)] at ht
    cases ht
  refine ⟨⟨?_, rfl, fun q hq => ?_, fun i hi t ht => (hnone i hi t ht).elim,
    fun i hi t ht => (hnone i hi t ht).elim⟩, ?_⟩
  · rw [hnp]
    exact h.npages_le
  · have hpop : Chain (pageAlloc σ true).2.ppLink (pageAlloc σ true).2.pageFreeList rest := by
      simpa [pageAlloc, hhead] using hchain.pop_update none
    have hqr : q ∈ rest := OnFreeList.mem_chain (σ := (pageAlloc σ true).2) (hq.congr rfl rfl) hpop
    refine ⟨hnp ▸ (hout q (List.mem_cons_of_mem p hqr)).1, ?_⟩
    rintro rfl
    exact (List.nodup_cons.1 hchain.nodup).1 hqr
  · have hself : (initPgdir (pageAlloc σ true).2 p).mem p (PDX UVPT) =
      page2pa p ||| PTE_U ||| PTE_P := by
      rw [initPgdir, Phys.mem_store, if_pos ⟨rfl, rfl⟩, BitVec.or_assoc, BitVec.or_comm PTE_P,
        ← BitVec.or_assoc]
    rw [hself]
    exact named_mk (lt_of_lt_of_le hlt h.npages_le) (by decide)

theorem KernelKept.dirSource {σ₁ : Phys} {free : List Nat} {kd np : Nat}
    (hb : KernBuilt kd np σ₁ free) (hk : KernelKept σ₁ σ) : DirSource σ := by
  have hkd := hb.tab.kern_mem
  obtain ⟨l, hchain, hout⟩ := hk.free
  refine ⟨hk.npages ▸ hb.tab.npages_le,
    ⟨l, hchain, fun p hp => ⟨hk.npages ▸ (hout p hp).1, ?_⟩⟩, ?_⟩
  · rintro rfl
    exact (hout _ hp).2 (hk.kernPgdir ▸ hkd)
  · intro i hi
    rw [hk.kernPgdir, ← named_eq_none, (hk.entry _ hkd i).named]
    exact named_eq_none.2 (hb.rights.user i hi)

/-- **`vpt` and `vpd` show the live page tables.** -/
theorem vpt_reads {k k' : Kernel} {e : EnvIdx} (hk : DirSource k.phys)
    (hset : envSetupVm k e = .ok (0, k')) (hd : k'.dirs e = some d) {ops : List SpaceOp}
    (hops : ∀ op ∈ ops, op.StaysOutside {d} k'.phys) :
    ∃ σ', ops.foldlM (SpaceOp.run d) k'.phys = .ok σ' ∧ VptReads σ' d := by
  cases hhead : k.phys.pageFreeList with
  | none =>
    rw [envSetupVm_none hhead] at hset
    have hcode : -E_NO_MEM = (0 : Word) := congrArg Prod.fst (Except.ok.inj hset)
    exact absurd hcode (by decide)
  | some p =>
    rw [envSetupVm_some hhead] at hset
    obtain rfl := congrArg Prod.snd (Except.ok.inj hset)
    obtain rfl : p = d := by simpa [Kernel.dirs, Kernel.setEnv] using hd
    obtain ⟨hw, hself⟩ := hk.setup hhead
    obtain ⟨σ', hx, -, hkept⟩ := hw.run hops
    refine ⟨σ', hx, vptReads_of_self ?_⟩
    rw [hkept.mem p rfl (PDX UVPT) fun h => absurd h.2 (by decide)]
    exact hself

/-- 16 pages, of which 2, 3 and 4 are free. Page 10 is `kern_pgdir`. -/
def fewPages : Kernel where
  phys :=
    { npages := 16
      mem := fun f i => if f = 10 ∧ i = PDX UVPT then page2pa 10 ||| PTE_P ||| PTE_U else 0
      ppRef := fun p => if p = 5 ∨ p = 10 then 1 else 0
      ppLink := fun p => if p = 3 then some 2 else if p = 2 then some 4 else none
      pageFreeList := some 3
      nAvailPages := 3
      kernPgdir := 10
      tlb := [] }
  envs := fun _ => {}
  envFreeList := some 0
  cpuEnv := fun _ => none
  cr3 := fun _ => 10

/-- The directory, page 3. -/
def fewPagesDir : Phys := initPgdir (pageAlloc fewPages.phys true).2 3

theorem fewPages_source : DirSource fewPages.phys := by
  refine ⟨by decide, ⟨[3, 2, 4], Chain.of_follow (n := 4) (by decide), by decide⟩, fun i hi => ?_⟩
  have hne : i ≠ PDX UVPT := by
    rintro rfl
    exact absurd hi (by decide)
  change ¬ Present (if (10 : Nat) = 10 ∧ i = PDX UVPT then _ else 0#32)
  rw [if_neg fun h => hne h.2]
  exact not_present_zero

theorem fewPages_setup : ∃ k', envSetupVm fewPages 0 = .ok (0, k') ∧ k'.dirs 0 = some 3 ∧
    k'.phys = fewPagesDir :=
  ⟨_, rfl, rfl, rfl⟩

/-- A page is mapped and unmapped. -/
theorem vpt_reads_few : ∃ σ', [SpaceOp.insert (some 5) 0x800000#32 (PTE_U ||| PTE_W),
    .remove 0x800000#32].foldlM (SpaceOp.run 3) fewPagesDir = .ok σ' ∧ VptReads σ' 3 := by
  obtain ⟨k', hset, hd, hphys⟩ := fewPages_setup
  rw [← hphys]
  refine vpt_reads fewPages_source hset hd fun op hop => ?_
  rw [hphys]
  rcases List.mem_cons.1 hop with rfl | hop
  · refine ⟨by decide, by decide, fun p hp => ?_⟩
    obtain rfl := Option.some.inj hp
    exact ⟨by decide, by simp⟩
  · obtain rfl := List.mem_singleton.1 hop
    change (0x800000#32) < UTOP
    decide

/-- With `0x1000` among the flags, the directory entry `0x2000` becomes `0x3000`, which is the
directory; and removing the page clears its entry at `UVPT`. -/
theorem vpt_lost : ∃ k' σ', DirSource fewPages.phys ∧ envSetupVm fewPages 0 = .ok (0, k') ∧
    k'.dirs 0 = some 3 ∧ 0xBBD000#32 < UTOP ∧
    [SpaceOp.insert (some 5) 0xBBD000#32 (0x1000#32 ||| PTE_U), .remove 0xBBD000#32].foldlM
      (SpaceOp.run 3) k'.phys = .ok σ' ∧ ¬ VptReads σ' 3 := by
  obtain ⟨k', hset, hd, hphys⟩ := fewPages_setup
  obtain ⟨σ', hx, hmem⟩ : ∃ σ', [SpaceOp.insert (some 5) 0xBBD000#32 (0x1000#32 ||| PTE_U),
      .remove 0xBBD000#32].foldlM (SpaceOp.run 3) fewPagesDir = .ok σ' ∧ σ'.mem 3 (PDX UVPT) = 0 :=
    ⟨_, rfl, by decide +kernel⟩
  refine ⟨k', σ', fewPages_source, hset, hd, by decide, hphys ▸ hx, fun h => ?_⟩
  have hvpd := h.vpd 0
  rw [mmuAddr, vpd_eq, PDX_vpt (by decide), hmem, if_neg fun h => not_present_zero h.1] at hvpd
  cases hvpd

end Jos
