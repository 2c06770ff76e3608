import Jos.PageOps
import Jos.Lib.Loop

/-!
# `user_mem_check`

Every access of the kernel to memory named by a user program is guarded by `user_mem_check`,
which is to accept `[va, va+len)` exactly if the range ends at or below `ULIM` and every page
that it touches is mapped with the asked permissions (`UserCanAccess`).

The loop steps by `PGSIZE` from an unaligned `va`, so it looks at the pages of
`va + k * PGSIZE` for `k * PGSIZE < len`. When the offset of `va` and the length of the tail
together cross a page boundary, the last page of the range is not one of them; and when
`va + len` wraps around, the loop stops after the first page. `Missed` are the inputs on which
this matters, and `user_mem_check_exact` shows that on all others the answer is right. Where it
does fail, the address it stores is the first one that the user cannot access.
-/

namespace Jos

open Lib

def ROUNDDOWN (a : Word) : Word := a &&& ~~~0xFFF#32

/-- The loop of `user_mem_check`. `none` is success; otherwise the result is the address stored
in `user_mem_check_addr`. The first argument bounds the number of iterations. -/
def userMemLoop (σ : Phys) (pgdir : Nat) (va len checkPerm : Word) :
    Nat → Word → Word → Except String (Option Word)
  | 0, _, _ => .error "user_mem_check does not terminate"
  | fuel + 1, vaCnt, iterateLen =>
    let faultAddr := if iterateLen = len then va else ROUNDDOWN vaCnt
    if ULIM ≤ vaCnt then .ok (some faultAddr)
    else do
      match ← pgdirWalk σ pgdir vaCnt false with
      | (none, _) => return some faultAddr
      | (some pte, _) =>
        if checkPerm ≠ checkPerm &&& σ.load pte then
          return some faultAddr
        else
          let step := if iterateLen < 0x1000#32 then (vaCnt + iterateLen, iterateLen)
            else (vaCnt + 0x1000#32, iterateLen - 0x1000#32)
          if step.1 < va + len then userMemLoop σ pgdir va len checkPerm fuel step.1 step.2
          else return none

/-- `user_mem_check`, with the address it stores on failure. -/
def userMemScan (σ : Phys) (pgdir : Nat) (va len perm : Word) : Except String (Option Word) :=
  userMemLoop σ pgdir va len (perm ||| PTE_P) (len.toNat / 4096 + 1) va len

/-- `user_mem_check`. -/
def userMemCheck (σ : Phys) (pgdir : Nat) (va len perm : Word) : Except String Word := do
  match ← userMemScan σ pgdir va len perm with
  | none => return 0
  | some _ => return -E_FAULT

/-! ## What it is meant to decide -/

/-- The page of `a` has a page table and an entry with all bits of `perm | PTE_P`. -/
def PageOk (σ : Phys) (d : Nat) (perm a : Word) : Prop :=
  Present (σ.mem d (PDX a)) ∧
    perm ||| PTE_P = (perm ||| PTE_P) &&& σ.mem (PGNUM (σ.mem d (PDX a))) (PTX a)

instance (σ : Phys) (d : Nat) (perm a : Word) : Decidable (PageOk σ d perm a) := by
  unfold PageOk; infer_instance

/-- The range lies below `ULIM`, without wrapping around, and all pages it touches are
mapped with `perm | PTE_P`. -/
def UserCanAccess (σ : Phys) (d : Nat) (va len perm : Word) : Prop :=
  va.toNat + len.toNat ≤ ULIM.toNat ∧
    ∀ a : Word, va.toNat ≤ a.toNat → a.toNat < va.toNat + len.toNat → PageOk σ d perm a

/-- The page tables of a directory below `ULIM` are pages of the machine. -/
def WfDir (σ : Phys) (d : Nat) : Prop :=
  ∀ i : Idx, i < PDX ULIM → Present (σ.mem d i) → PGNUM (σ.mem d i) < σ.npages

/-- The pages of `va + k * PGSIZE`, for `n ≤ k` and `k * PGSIZE < len`, are accessible and
below `ULIM`. -/
def StepsOk (σ : Phys) (d : Nat) (va len perm : Word) (n : Nat) : Prop :=
  ∀ k, n ≤ k → k * 4096 < len.toNat → va.toNat + k * 4096 < ULIM.toNat ∧
    PageOk σ d perm (BitVec.ofNat 32 (va.toNat + k * 4096))

/-- The inputs on which `user_mem_check` accepts a range it should not: the range wraps around
and its first page is accessible, or its tail reaches a page that the steps of the loop do not,
those are accessible, and the last page is not. -/
def Missed (σ : Phys) (d : Nat) (va len perm : Word) : Prop :=
  (2 ^ 32 ≤ va.toNat + len.toNat ∧ va < ULIM ∧ PageOk σ d perm va) ∨
  (va.toNat + len.toNat < 2 ^ 32 ∧ 4096 ≤ va.toNat % 4096 + (len.toNat - 1) % 4096 ∧
    StepsOk σ d va len perm 0 ∧
    ¬ (va.toNat + len.toNat ≤ ULIM.toNat ∧ PageOk σ d perm (va + len - 1#32)))

variable {σ : Phys} {d : Nat} {va len perm : Word}

/-! ## One iteration -/

theorem PDX_lt_ULIM {a : Word} (h : a < ULIM) : PDX a < PDX ULIM := by
  have h' : a.toNat < ULIM.toNat := h
  have hU : ULIM.toNat = 958 * 2 ^ 22 := by decide
  have hP : (PDX ULIM).val = 958 := by decide
  show (PDX a).val < (PDX ULIM).val
  rw [hP, val_PDX]
  omega

theorem userMemLoop_ok (hwf : WfDir σ d) {fuel : Nat} {vaCnt iterateLen : Word}
    (hlt : vaCnt < ULIM) (hok : PageOk σ d perm vaCnt) :
    userMemLoop σ d va len (perm ||| PTE_P) (fuel + 1) vaCnt iterateLen =
      let step := if iterateLen < 0x1000#32 then (vaCnt + iterateLen, iterateLen)
        else (vaCnt + 0x1000#32, iterateLen - 0x1000#32)
      if step.1 < va + len then userMemLoop σ d va len (perm ||| PTE_P) fuel step.1 step.2
      else .ok none := by
  have hwalk : pgdirWalk σ d vaCnt false =
      .ok (some (PGNUM (σ.mem d (PDX vaCnt)), PTX vaCnt), σ) := by
    rw [pgdirWalk, if_pos hok.1, pa2page_of_lt (hwf _ (PDX_lt_ULIM hlt) hok.1)]
    rfl
  rw [userMemLoop, if_neg (BitVec.not_le.2 hlt), hwalk]
  show (if perm ||| PTE_P ≠ (perm ||| PTE_P) &&& σ.mem _ _ then _ else _) = _
  rw [if_neg (not_not.2 hok.2)]
  rfl

theorem userMemLoop_bad (hwf : WfDir σ d) {fuel : Nat} {vaCnt iterateLen : Word}
    (hbad : ¬ (vaCnt < ULIM ∧ PageOk σ d perm vaCnt)) :
    userMemLoop σ d va len (perm ||| PTE_P) (fuel + 1) vaCnt iterateLen =
      .ok (some (if iterateLen = len then va else ROUNDDOWN vaCnt)) := by
  rw [userMemLoop]
  by_cases hlt : vaCnt < ULIM
  · rw [if_neg (BitVec.not_le.2 hlt)]
    by_cases hpr : Present (σ.mem d (PDX vaCnt))
    · rw [pgdirWalk, if_pos hpr, pa2page_of_lt (hwf _ (PDX_lt_ULIM hlt) hpr)]
      show (if perm ||| PTE_P ≠ (perm ||| PTE_P) &&& σ.mem _ _ then _ else _) = _
      rw [if_pos fun hc => hbad ⟨hlt, hpr, hc⟩]
      rfl
    · rw [pgdirWalk, if_neg hpr, if_pos rfl]
      rfl
  · rw [if_pos (BitVec.not_lt.1 hlt)]

/-! ## The loop -/

theorem toNat_ULIM : ULIM.toNat = 0xef800000 := by decide

/-- Without wrap-around, the loop decides `StepsOk`. -/
theorem userMemLoop_steps (perm : Word) (hwf : WfDir σ d) (hsum : va.toNat + len.toNat < 2 ^ 32)
    (fuel : Nat) {n : Nat} (hn : n * 4096 < len.toNat) (hfuel : len.toNat / 4096 < n + fuel) :
    (StepsOk σ d va len perm n ∧ userMemLoop σ d va len (perm ||| PTE_P) fuel
        (BitVec.ofNat 32 (va.toNat + n * 4096)) (BitVec.ofNat 32 (len.toNat - n * 4096)) =
          .ok none) ∨
      (¬ StepsOk σ d va len perm n ∧ ∃ a, userMemLoop σ d va len (perm ||| PTE_P) fuel
        (BitVec.ofNat 32 (va.toNat + n * 4096)) (BitVec.ofNat 32 (len.toNat - n * 4096)) =
          .ok (some a)) := by
  induction fuel generalizing n with
  | zero => omega
  | succ fuel ih =>
    set vaCnt := BitVec.ofNat 32 (va.toNat + n * 4096) with hva
    set iterateLen := BitVec.ofNat 32 (len.toNat - n * 4096) with hlen
    have hvaN : vaCnt.toNat = va.toNat + n * 4096 := by
      rw [hva, BitVec.toNat_ofNat]
      omega
    have hlenN : iterateLen.toNat = len.toNat - n * 4096 := by
      rw [hlen, BitVec.toNat_ofNat]
      omega
    have hend : (va + len).toNat = va.toNat + len.toNat := by
      rw [BitVec.toNat_add]
      omega
    by_cases hpage : vaCnt < ULIM ∧ PageOk σ d perm vaCnt
    · obtain ⟨hlt, hok⟩ := hpage
      have hlt' : va.toNat + n * 4096 < ULIM.toNat := hvaN ▸ hlt
      have hstep : StepsOk σ d va len perm n ↔ StepsOk σ d va len perm (n + 1) := by
        constructor
        · intro h k hk
          exact h k (by omega)
        · intro h k hk hkl
          by_cases hkn : k = n
          · subst hkn
            exact ⟨hlt', hok⟩
          · exact h k (by omega) hkl
      rw [userMemLoop_ok hwf hlt hok, hstep]
      by_cases hlast : len.toNat ≤ (n + 1) * 4096
      · -- The tail, or a whole last page: the loop ends here.
        have hdone : StepsOk σ d va len perm (n + 1) := fun k hk hkl => by
          have : (n + 1) * 4096 ≤ k * 4096 := Nat.mul_le_mul_right 4096 hk
          omega
        refine Or.inl ⟨hdone, if_neg ?_⟩
        show ¬ (BitVec.toNat _ < BitVec.toNat _)
        rw [hend]
        by_cases htail : iterateLen < 0x1000#32
        · rw [if_pos htail, BitVec.toNat_add, hvaN, hlenN]
          omega
        · have htail' : ¬ iterateLen.toNat < 4096 := htail
          rw [if_neg htail, BitVec.toNat_add, hvaN]
          show ¬ ((va.toNat + n * 4096 + 4096) % 2 ^ 32 < _)
          rw [toNat_ULIM] at hlt'
          omega
      · have htail : ¬ iterateLen < 0x1000#32 := by
          show ¬ (iterateLen.toNat < 4096)
          omega
        have hnext : vaCnt + 0x1000#32 = BitVec.ofNat 32 (va.toNat + (n + 1) * 4096) := by
          apply BitVec.eq_of_toNat_eq
          simp only [BitVec.toNat_add, BitVec.toNat_ofNat, hvaN]
          omega
        have hrest : iterateLen - 0x1000#32 = BitVec.ofNat 32 (len.toNat - (n + 1) * 4096) := by
          apply BitVec.eq_of_toNat_eq
          simp only [BitVec.toNat_sub, BitVec.toNat_ofNat, hlenN]
          omega
        have hmore : vaCnt + 0x1000#32 < va + len := by
          show (vaCnt + 0x1000#32).toNat < (va + len).toNat
          rw [hnext, hend, BitVec.toNat_ofNat]
          omega
        simp only [if_neg htail]
        rw [if_pos hmore, hnext, hrest]
        exact ih (Nat.not_le.1 hlast) (by omega)
    · refine Or.inr ⟨fun hs => hpage ?_, _, userMemLoop_bad hwf hpage⟩
      obtain ⟨hlt, hok⟩ := hs n (le_refl n) hn
      exact ⟨show vaCnt.toNat < ULIM.toNat from hvaN ▸ hlt, hok⟩

/-- With wrap-around, the loop looks at the first page only. -/
theorem userMemLoop_wrap (perm : Word) (hwf : WfDir σ d) (hsum : 2 ^ 32 ≤ va.toNat + len.toNat)
    (fuel : Nat) :
    (va < ULIM ∧ PageOk σ d perm va →
        userMemLoop σ d va len (perm ||| PTE_P) (fuel + 1) va len = .ok none) ∧
      (¬ (va < ULIM ∧ PageOk σ d perm va) →
        userMemLoop σ d va len (perm ||| PTE_P) (fuel + 1) va len = .ok (some va)) := by
  refine ⟨fun ⟨hlt, hok⟩ => ?_, fun hbad => ?_⟩
  · have hlt' : va.toNat < 0xef800000 := toNat_ULIM ▸ hlt
    have hlen := len.isLt
    have htail : ¬ len < 0x1000#32 := by
      show ¬ (len.toNat < 4096)
      omega
    rw [userMemLoop_ok hwf hlt hok]
    simp only [if_neg htail]
    refine if_neg ?_
    show ¬ ((va + 0x1000#32).toNat < (va + len).toNat)
    rw [BitVec.toNat_add, BitVec.toNat_add]
    show ¬ ((va.toNat + 4096) % 2 ^ 32 < _)
    omega
  · rw [userMemLoop_bad hwf hbad, if_pos rfl]

/-- **What `user_mem_check` decides.** -/
theorem userMemCheck_eq (va perm : Word) (hwf : WfDir σ d) (hlen : len ≠ 0) :
    ((va.toNat + len.toNat < 2 ^ 32 ∧ StepsOk σ d va len perm 0 ∨
        2 ^ 32 ≤ va.toNat + len.toNat ∧ va < ULIM ∧ PageOk σ d perm va) ∧
        userMemCheck σ d va len perm = .ok 0) ∨
      (¬ (va.toNat + len.toNat < 2 ^ 32 ∧ StepsOk σ d va len perm 0 ∨
        2 ^ 32 ≤ va.toNat + len.toNat ∧ va < ULIM ∧ PageOk σ d perm va) ∧
        userMemCheck σ d va len perm = .ok (-E_FAULT)) := by
  have hpos : 0 < len.toNat := Nat.pos_of_ne_zero fun hc => hlen (BitVec.eq_of_toNat_eq hc)
  by_cases hsum : va.toNat + len.toNat < 2 ^ 32
  · have hnot : ¬ 2 ^ 32 ≤ va.toNat + len.toNat := Nat.not_le.2 hsum
    have h0 := userMemLoop_steps perm hwf hsum (len.toNat / 4096 + 1) (n := 0)
      (by rw [Nat.zero_mul]; exact hpos) (by omega)
    simp only [Nat.zero_mul, Nat.add_zero, Nat.sub_zero, BitVec.ofNat_toNat,
      BitVec.setWidth_eq] at h0
    simp only [hsum, hnot, true_and, false_and, or_false]
    rcases h0 with ⟨hok, hrun⟩ | ⟨hbad, a, hrun⟩
    · refine Or.inl ⟨hok, ?_⟩
      rw [userMemCheck, userMemScan, hrun]
      rfl
    · refine Or.inr ⟨hbad, ?_⟩
      rw [userMemCheck, userMemScan, hrun]
      rfl
  · have hge : 2 ^ 32 ≤ va.toNat + len.toNat := Nat.not_lt.1 hsum
    obtain ⟨hok, hbad⟩ := userMemLoop_wrap perm hwf hge (len.toNat / 4096)
    simp only [hsum, hge, true_and, false_and, false_or]
    by_cases hpage : va < ULIM ∧ PageOk σ d perm va
    · refine Or.inl ⟨hpage, ?_⟩
      rw [userMemCheck, userMemScan, hok hpage]
      rfl
    · refine Or.inr ⟨hpage, ?_⟩
      rw [userMemCheck, userMemScan, hbad hpage]
      rfl

/-! ## Steps and pages -/

theorem PageOk.congr {a b : Word} (h : a.toNat / 4096 = b.toNat / 4096) :
    PageOk σ d perm a ↔ PageOk σ d perm b := by
  have hdx : PDX a = PDX b := by
    ext
    rw [val_PDX, val_PDX]
    omega
  have htx : PTX a = PTX b := by
    ext
    rw [val_PTX, val_PTX, h]
  rw [PageOk, PageOk, hdx, htx]

/-- An address of the range is on the page of a step or, past the last step, on the last
page. -/
theorem page_cases {v l a : Nat} (ha : v ≤ a) (hl : a < v + l) :
    ∃ k, k * 4096 < l ∧ (a / 4096 = (v + k * 4096) / 4096 ∨
      4096 ≤ v % 4096 + (l - 1) % 4096 ∧ a / 4096 = (v + l - 1) / 4096) := by
  by_cases h : a / 4096 = (v + (a - v) / 4096 * 4096) / 4096
  · exact ⟨(a - v) / 4096, by omega, Or.inl h⟩
  · obtain ⟨t, rfl⟩ : ∃ t, a = v + t := ⟨a - v, by omega⟩
    obtain ⟨k, r, hr, rfl⟩ : ∃ k r, r < 4096 ∧ t = k * 4096 + r :=
      ⟨t / 4096, t % 4096, by omega, by omega⟩
    by_cases hkl : k * 4096 + 4096 < l
    · exact ⟨k + 1, by omega, Or.inl (by omega)⟩
    · refine ⟨k, by omega, Or.inr ?_⟩
      obtain ⟨s, hs, rfl⟩ : ∃ s, s < 4096 ∧ l = k * 4096 + s + 1 :=
        ⟨l - 1 - k * 4096, by omega, by omega⟩
      omega

/-- The steps of the loop reach every page of the range but, if the tail crosses a page
boundary, the last one. -/
theorem userCanAccess_iff (σ : Phys) (d : Nat) (perm : Word) (hlen : len ≠ 0)
    (hsum : va.toNat + len.toNat < 2 ^ 32) :
    UserCanAccess σ d va len perm ↔ StepsOk σ d va len perm 0 ∧
      (4096 ≤ va.toNat % 4096 + (len.toNat - 1) % 4096 →
        va.toNat + len.toNat ≤ ULIM.toNat ∧ PageOk σ d perm (va + len - 1#32)) := by
  have hpos : 0 < len.toNat := Nat.pos_of_ne_zero fun hc => hlen (BitVec.eq_of_toNat_eq hc)
  have hlast : (va + len - 1#32).toNat = va.toNat + len.toNat - 1 := by
    simp only [BitVec.toNat_sub, BitVec.toNat_add, BitVec.toNat_ofNat]
    omega
  have hstep : ∀ k, k * 4096 < len.toNat →
      (BitVec.ofNat 32 (va.toNat + k * 4096)).toNat = va.toNat + k * 4096 := fun k hk => by
    rw [BitVec.toNat_ofNat]
    omega
  constructor
  · rintro ⟨hle, hall⟩
    refine ⟨fun k _ hk => ⟨by omega, hall _ ?_ ?_⟩, fun _ => ⟨hle, hall _ ?_ ?_⟩⟩
    · rw [hstep k hk]; omega
    · rw [hstep k hk]; omega
    · rw [hlast]; omega
    · rw [hlast]; omega
  · rintro ⟨hsteps, htail⟩
    refine ⟨?_, fun a ha ha' => ?_⟩
    · by_cases hcross : 4096 ≤ va.toNat % 4096 + (len.toNat - 1) % 4096
      · exact (htail hcross).1
      · obtain ⟨K, hK⟩ : ∃ K, K = (len.toNat - 1) / 4096 := ⟨_, rfl⟩
        have hlt := (hsteps K (Nat.zero_le K) (by omega)).1
        rw [toNat_ULIM] at hlt ⊢
        omega
    · obtain ⟨k, hk, hpage | ⟨hcross, hpage⟩⟩ := page_cases ha ha'
      · exact (PageOk.congr (by rw [hstep k hk, hpage])).2 (hsteps k (Nat.zero_le k) hk).2
      · exact (PageOk.congr (by rw [hlast, hpage])).2 (htail hcross).2

/-! ## When the answer is right -/

/-- `user_mem_check` accepts the range if and only if the user can access it. -/
def ExactCheck (σ : Phys) (d : Nat) (va len perm : Word) : Prop :=
  (UserCanAccess σ d va len perm → userMemCheck σ d va len perm = .ok 0) ∧
    (¬ UserCanAccess σ d va len perm → userMemCheck σ d va len perm = .ok (-E_FAULT))

/-- **`user_mem_check` is exact but for the missed ranges.** -/
theorem user_mem_check_exact (hwf : WfDir σ d) (hlen : len ≠ 0) :
    ExactCheck σ d va len perm ↔ ¬ Missed σ d va len perm := by
  have hcode := userMemCheck_eq va perm hwf hlen
  by_cases hsum : va.toNat + len.toNat < 2 ^ 32
  · have hnot : ¬ 2 ^ 32 ≤ va.toNat + len.toNat := Nat.not_le.2 hsum
    have hspec := userCanAccess_iff σ d perm hlen hsum
    simp only [hsum, hnot, true_and, false_and, or_false] at hcode
    simp only [Missed, hsum, hnot, true_and, false_and, false_or, ExactCheck]
    rcases hcode with ⟨hsteps, hrun⟩ | ⟨hsteps, hrun⟩
    · rw [hspec, hrun]
      simp only [hsteps, true_and, implies_true]
      constructor
      · intro h ⟨hcross, hbad⟩
        have := h fun hgood => hbad (hgood hcross)
        exact absurd this (by decide)
      · intro h hbad
        exact (h (by simpa using hbad)).elim
    · rw [hspec, hrun]
      simp [hsteps]
  · have hge : 2 ^ 32 ≤ va.toNat + len.toNat := Nat.not_lt.1 hsum
    have hno : ¬ UserCanAccess σ d va len perm := fun hc => by
      have := hc.1
      rw [toNat_ULIM] at this
      omega
    simp only [hsum, hge, true_and, false_and, false_or] at hcode
    simp only [Missed, hsum, hge, true_and, false_and, or_false, ExactCheck, hno, not_false_iff,
      forall_const, false_implies]
    rcases hcode with ⟨hpage, hrun⟩ | ⟨hpage, hrun⟩
    · rw [hrun]
      have hne : ¬ (0#32 = -E_FAULT) := by decide
      simp [hne, hpage]
    · rw [hrun]
      simp [hpage]

/-! ### A range that is missed -/

/-- A directory that maps the page at `0x1000` and nothing else. -/
def onePagePhys : Phys where
  npages := 8
  mem := fun f i =>
    if f = 1 ∧ i = 0 then page2pa 2 ||| PTE_P ||| PTE_W ||| PTE_U
    else if f = 2 ∧ i = 1 then page2pa 3 ||| PTE_P ||| PTE_U else 0
  ppRef := fun _ => 0
  ppLink := fun _ => none
  pageFreeList := none
  nAvailPages := 0
  kernPgdir := 4
  tlb := []

theorem onePagePhys_wf : WfDir onePagePhys 1 := by
  intro i _ hpr
  by_cases hi : i = 0
  · subst hi; decide
  · have hz : onePagePhys.mem 1 i = 0 := by simp [onePagePhys, hi]
    rw [hz] at hpr
    exact (not_present_zero hpr).elim

/-- Two bytes across a page boundary: only the first page is checked. -/
theorem user_mem_check_tail : ¬ ExactCheck onePagePhys 1 0x1fff#32 2#32 PTE_U := by
  intro h
  have hno : ¬ UserCanAccess onePagePhys 1 0x1fff#32 2#32 PTE_U := fun hc =>
    absurd (hc.2 0x2000#32 (by decide) (by decide)) (by decide)
  have hrun : userMemCheck onePagePhys 1 0x1fff#32 2#32 PTE_U = .ok 0 := by rfl
  exact absurd (hrun.symm.trans (h.2 hno)) (by decide)

/-- The same directory with the page at `0x2000` mapped too. -/
def twoPagePhys : Phys := onePagePhys.store (2, 2) (page2pa 5 ||| PTE_P ||| PTE_U)

theorem twoPagePhys_wf : WfDir twoPagePhys 1 := by
  intro i hi hpr
  have hmem : twoPagePhys.mem 1 i = onePagePhys.mem 1 i := by
    rw [twoPagePhys, Phys.mem_store, if_neg (by simp)]
  rw [hmem] at hpr ⊢
  exact onePagePhys_wf i hi hpr

/-- A range over two pages, with and without the second one. -/
theorem user_mem_check_two_pages : ExactCheck twoPagePhys 1 0x1800#32 0x1000#32 PTE_U ∧
    ¬ ExactCheck onePagePhys 1 0x1800#32 0x1000#32 PTE_U := by
  refine ⟨(user_mem_check_exact twoPagePhys_wf (by decide)).2 ?_, fun h =>
    (user_mem_check_exact onePagePhys_wf (by decide)).1 h ?_⟩
  · rintro (⟨hwrap, -, -⟩ | ⟨-, -, -, hlast⟩)
    · exact absurd hwrap (by decide)
    · exact hlast ⟨by decide, by decide⟩
  · refine .inr ⟨by decide, by decide, fun k _ hk => ?_, by decide⟩
    have hlen : (0x1000#32 : Word).toNat = 4096 := rfl
    obtain rfl : k = 0 := by omega
    exact ⟨by decide, by decide⟩

/-! ## The address that is reported -/

/-- The user cannot access the address. -/
def BadAddr (σ : Phys) (d : Nat) (perm a : Word) : Prop := ULIM ≤ a ∨ ¬ PageOk σ d perm a

theorem userMemLoop_succ_some {fuel : Nat} {vaCnt iterateLen a : Word}
    (h : userMemLoop σ d va len (perm ||| PTE_P) (fuel + 1) vaCnt iterateLen = .ok (some a)) :
    BadAddr σ d perm vaCnt ∧ a = (if iterateLen = len then va else ROUNDDOWN vaCnt) ∨
      ¬ BadAddr σ d perm vaCnt ∧
        let step := if iterateLen < 0x1000#32 then (vaCnt + iterateLen, iterateLen)
          else (vaCnt + 0x1000#32, iterateLen - 0x1000#32)
        step.1 < va + len ∧
          userMemLoop σ d va len (perm ||| PTE_P) fuel step.1 step.2 = .ok (some a) := by
  rw [userMemLoop] at h
  by_cases hlim : ULIM ≤ vaCnt
  · rw [if_pos hlim] at h
    exact .inl ⟨.inl hlim, (Option.some.inj (Except.ok.inj h)).symm⟩
  rw [if_neg hlim] at h
  by_cases hpr : Present (σ.mem d (PDX vaCnt))
  · obtain ⟨⟨pte, σ'⟩, hwalk, h⟩ := bind_eq_ok.1 h
    rw [pgdirWalk, if_pos hpr, pa2page] at hwalk
    split_ifs at hwalk with hnp
    · cases hwalk
    · obtain ⟨rfl, -⟩ := Prod.mk.inj (Except.ok.inj hwalk)
      have hload : σ.load (PGNUM (σ.mem d (PDX vaCnt)), PTX vaCnt) =
          σ.mem (PGNUM (σ.mem d (PDX vaCnt))) (PTX vaCnt) := rfl
      dsimp only at h
      rw [hload] at h
      by_cases hperm : perm ||| PTE_P ≠ (perm ||| PTE_P) &&&
          σ.mem (PGNUM (σ.mem d (PDX vaCnt))) (PTX vaCnt)
      · rw [if_pos hperm] at h
        exact .inl ⟨.inr fun hok => hperm hok.2, (Option.some.inj (Except.ok.inj h)).symm⟩
      · rw [if_neg hperm] at h
        have hgood : ¬ BadAddr σ d perm vaCnt := by
          rintro (hge | hno)
          · exact hlim hge
          · exact hno ⟨hpr, not_not.1 hperm⟩
        refine .inr ⟨hgood, ?_⟩
        dsimp only
        by_cases hmore : (if iterateLen < 0x1000#32 then (vaCnt + iterateLen, iterateLen)
            else (vaCnt + 0x1000#32, iterateLen - 0x1000#32)).1 < va + len
        · rw [if_pos hmore] at h
          exact ⟨hmore, h⟩
        · rw [if_neg hmore] at h
          cases h
  · rw [pgdirWalk, if_neg hpr, if_pos rfl] at h
    exact .inl ⟨.inr fun hok => hpr hok.1, (Option.some.inj (Except.ok.inj h)).symm⟩

/-- The address where the loop stands after `k` whole pages. -/
def stepAddr (va : Word) (k : Nat) : Word := BitVec.ofNat 32 (va.toNat + k * 4096)

theorem toNat_stepAddr {k : Nat} (hk : k * 4096 < len.toNat)
    (hsum : va.toNat + len.toNat < 2 ^ 32) :
    (stepAddr va k).toNat = va.toNat + k * 4096 := by
  rw [stepAddr, BitVec.toNat_ofNat]
  omega

theorem userMemLoop_first (hsum : va.toNat + len.toNat < 2 ^ 32) (fuel : Nat) {n : Nat} {a : Word}
    (hn : n * 4096 < len.toNat) (hgood : ∀ j < n, ¬ BadAddr σ d perm (stepAddr va j))
    (hrun : userMemLoop σ d va len (perm ||| PTE_P) fuel (stepAddr va n)
      (BitVec.ofNat 32 (len.toNat - n * 4096)) = .ok (some a)) :
    ∃ k, k * 4096 < len.toNat ∧ (∀ j < k, ¬ BadAddr σ d perm (stepAddr va j)) ∧
      BadAddr σ d perm (stepAddr va k) ∧ a = if k = 0 then va else ROUNDDOWN (stepAddr va k) := by
  induction fuel generalizing n with
  | zero => cases hrun
  | succ fuel ih =>
    have hvaN := toNat_stepAddr hn hsum
    have hlenN : (BitVec.ofNat 32 (len.toNat - n * 4096)).toNat = len.toNat - n * 4096 := by
      rw [BitVec.toNat_ofNat]
      omega
    have hend : (va + len).toNat = va.toNat + len.toNat := by
      rw [BitVec.toNat_add]
      omega
    rcases userMemLoop_succ_some hrun with ⟨hbad, ha⟩ | ⟨hok, hmore, hrest⟩
    · refine ⟨n, hn, hgood, hbad, ?_⟩
      have hfirst : BitVec.ofNat 32 (len.toNat - n * 4096) = len ↔ n = 0 := by
        rw [← BitVec.toNat_inj, hlenN]
        omega
      simpa only [hfirst] using ha
    · -- A short rest ends the loop, so there is a whole page before the next iteration.
      have htail : ¬ BitVec.ofNat 32 (len.toNat - n * 4096) < 0x1000#32 := by
        intro htail
        simp only [if_pos htail] at hmore
        have hmore' : (stepAddr va n + BitVec.ofNat 32 (len.toNat - n * 4096)).toNat <
            (va + len).toNat := hmore
        rw [BitVec.toNat_add, hvaN, hlenN, hend] at hmore'
        omega
      have htail' : ¬ len.toNat - n * 4096 < 4096 := fun h => htail (by
        show (BitVec.toNat _) < 4096
        rwa [hlenN])
      simp only [if_neg htail] at hmore hrest
      have hnext : stepAddr va n + 0x1000#32 = stepAddr va (n + 1) := by
        apply BitVec.eq_of_toNat_eq
        simp only [stepAddr, BitVec.toNat_add, BitVec.toNat_ofNat]
        omega
      have hsub : BitVec.ofNat 32 (len.toNat - n * 4096) - 0x1000#32 =
          BitVec.ofNat 32 (len.toNat - (n + 1) * 4096) := by
        apply BitVec.eq_of_toNat_eq
        simp only [BitVec.toNat_sub, BitVec.toNat_ofNat]
        omega
      rw [hnext, hsub] at hrest
      have hlt : (n + 1) * 4096 < len.toNat := by
        have hmore' : (stepAddr va n + 0x1000#32).toNat < (va + len).toNat := hmore
        rw [BitVec.toNat_add, hvaN, hend, show (0x1000#32).toNat = 4096 from rfl,
          Nat.mod_eq_of_lt (by omega)] at hmore'
        linarith
      refine ih hlt (fun j hj => ?_) hrest
      rcases Nat.lt_succ_iff_lt_or_eq.1 hj with hj | rfl
      · exact hgood j hj
      · exact hok

/-- The smallest address of `[va, va+len)` that the user cannot access. -/
structure FirstBad (σ : Phys) (d : Nat) (va len perm a : Word) : Prop where
  ge : va.toNat ≤ a.toNat
  lt : a.toNat < va.toNat + len.toNat
  bad : BadAddr σ d perm a
  least : ∀ x : Word, va.toNat ≤ x.toNat → x.toNat < va.toNat + len.toNat → BadAddr σ d perm x →
    a.toNat ≤ x.toNat

/-- `ULIM` is a page boundary, so a page is bad as a whole. -/
theorem BadAddr.congr {a b : Word} (h : a.toNat / 4096 = b.toNat / 4096) :
    BadAddr σ d perm a ↔ BadAddr σ d perm b := by
  have hlim : ULIM ≤ a ↔ ULIM ≤ b := by
    rw [BitVec.le_def, BitVec.le_def, toNat_ULIM]
    omega
  rw [BadAddr, BadAddr, hlim, PageOk.congr h]

theorem firstBad_of_step {k : Nat} (hsum : va.toNat + len.toNat < 2 ^ 32)
    (hk : k * 4096 < len.toNat) (hgood : ∀ j < k, ¬ BadAddr σ d perm (stepAddr va j))
    (hbad : BadAddr σ d perm (stepAddr va k)) :
    FirstBad σ d va len perm (if k = 0 then va else ROUNDDOWN (stepAddr va k)) := by
  have hkN := toNat_stepAddr hk hsum
  by_cases h0 : k = 0
  · subst h0
    have hva : stepAddr va 0 = va := by
      apply BitVec.eq_of_toNat_eq
      rw [hkN, Nat.zero_mul, Nat.add_zero]
    rw [hva] at hbad
    rw [Nat.zero_mul] at hk
    exact ⟨le_rfl, Nat.lt_add_of_pos_right hk, hbad, fun x hx _ _ => hx⟩
  · have hround : (ROUNDDOWN (stepAddr va k)).toNat = (va.toNat + k * 4096) / 4096 * 4096 := by
      rw [← hkN]
      exact toNat_PTE_ADDR _
    rw [if_neg h0]
    refine ⟨by omega, by omega, (BadAddr.congr ?_).2 hbad, fun x hx hx' hxbad => ?_⟩
    · rw [hround, hkN]
      omega
    · -- An address below is on the page of an earlier step.
      by_contra hlt
      rw [hround] at hlt
      obtain ⟨j, hj, hpage⟩ : ∃ j < k, x.toNat / 4096 = (va.toNat + j * 4096) / 4096 :=
        ⟨x.toNat / 4096 - va.toNat / 4096, by omega, by omega⟩
      have hjlen : j * 4096 < len.toNat := (Nat.mul_lt_mul_of_pos_right hj (by decide)).trans hk
      have hjN := toNat_stepAddr hjlen hsum
      exact hgood j hj ((BadAddr.congr (hjN ▸ hpage)).1 hxbad)

/-- **A failing `user_mem_check` reports the first address the user cannot access.** -/
theorem user_mem_check_reports_first (hlen : 0 < len.toNat)
    (hsum : va.toNat + len.toNat ≤ 2 ^ 32 - PGSIZE)
    (h : userMemCheck σ d va len perm = .ok (-E_FAULT)) :
    ∃ a, userMemScan σ d va len perm = .ok (some a) ∧ FirstBad σ d va len perm a := by
  unfold userMemCheck at h
  obtain ⟨res, hscan, hres⟩ := bind_eq_ok.1 h
  cases res with
  | none => exact absurd (Except.ok.inj hres) (by decide)
  | some a =>
    refine ⟨a, hscan, ?_⟩
    have hsum' : va.toNat + len.toNat < 2 ^ 32 := by
      unfold PGSIZE at hsum
      omega
    have hstart : userMemLoop σ d va len (perm ||| PTE_P) (len.toNat / 4096 + 1) (stepAddr va 0)
        (BitVec.ofNat 32 (len.toNat - 0 * 4096)) = .ok (some a) := by
      simpa only [userMemScan, stepAddr, Nat.zero_mul, Nat.add_zero, Nat.sub_zero,
        BitVec.ofNat_toNat, BitVec.setWidth_eq] using hscan
    obtain ⟨k, hk, hgood, hbad, rfl⟩ := userMemLoop_first hsum' _
      (by rwa [Nat.zero_mul]) (fun j hj => absurd hj (Nat.not_lt_zero j)) hstart
    exact firstBad_of_step hsum' hk hgood hbad

/-- The second page of two is reported, at its first byte. -/
theorem user_mem_check_reports_second_page :
    ∃ a, userMemScan onePagePhys 1 0x1800#32 0x1800#32 PTE_U = .ok (some a) ∧
      FirstBad onePagePhys 1 0x1800#32 0x1800#32 PTE_U a :=
  user_mem_check_reports_first (by decide) (by decide) (by rfl)

end Jos
