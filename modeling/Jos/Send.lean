import Jos.Smp
import Jos.Validation

/-!
# Sending a message

The comment of `sys_ipc_try_send` lists the errors of the call (`SendError`), and says that a send
that fails does nothing. This file states that contract (`SendDocumented`) and compares it with the
code, case by case.

**Where they differ** (`send_documented_iff`). The code tests `perm` for foreign bits but not for
`PTE_U` and `PTE_P`. It refuses to replace a page of the receiver, and has cleared `env_ipc_perm` by
then. And it does not look at the result of `sys_page_map`: if there is no memory for a page table,
the test after it panics.
-/

namespace Jos

open Lib

/-! ## The contract -/

/-- The page to be sent is not in order. -/
def BadPage (k : Kernel) (cur : EnvIdx) (srcva perm : Word) : Prop :=
  ¬ AddrOk srcva ∨ ¬ PermOk perm ∨ Unmapped k cur srcva ∨ GrantsWrite k cur srcva perm

/-- A page table is missing for `dstva`, and there is no page for it. -/
def NoTable (k : Kernel) (u : EnvIdx) (dstva : Word) : Prop :=
  AddrOk dstva ∧ k.phys.pageFreeList = none ∧
    ∃ d, k.dirs u = some d ∧ ¬ Present (k.phys.mem d (PDX dstva))

/-- The errors of `sys_ipc_try_send`. -/
inductive SendError (k : Kernel) (cur : EnvIdx) (envid srcva perm : Word) : Word → Prop
  | badEnv (hf : envid2env k cur envid false = none) : SendError k cur envid srcva perm (-E_BAD_ENV)
  | notRecv {u : EnvIdx} (hf : envid2env k cur envid false = some u)
      (hrec : (k.envs u).envIpcRecving = false) :
      SendError k cur envid srcva perm (-E_IPC_NOT_RECV)
  | inval {u : EnvIdx} (hf : envid2env k cur envid false = some u)
      (hrec : (k.envs u).envIpcRecving = true) (hpage : srcva ≠ IPC_NO_PAGE)
      (hbad : BadPage k cur srcva perm) : SendError k cur envid srcva perm (-E_INVAL)
  | noMem {u : EnvIdx} (hf : envid2env k cur envid false = some u)
      (hrec : (k.envs u).envIpcRecving = true) (hwant : WantsPage k u srcva)
      (hgood : ¬ BadPage k cur srcva perm) (hmem : NoTable k u (k.envs u).envIpcDstva) :
      SendError k cur envid srcva perm (-E_NO_MEM)

/-- `sys_ipc_try_send` does what its comment says: it does not panic, it fails exactly in the cases
listed and leaves the target alone then, and otherwise the target has the page it asked for. -/
def SendDocumented (k : Kernel) (cur : EnvIdx) (envid value srcva perm : Word) : Prop :=
  ∃ r k', sysIpcTrySend k cur envid value srcva perm = .ok (r, k') ∧
    (r.toInt < 0 → SendError k cur envid srcva perm r) ∧
    (∀ code, SendError k cur envid srcva perm code → r = code) ∧
    (r.toInt < 0 → ∀ u, envid2env k cur envid false = some u →
      k'.envs u = k.envs u ∧ (∀ i, pdes k'.phys k'.dirs (u, i) = pdes k.phys k.dirs (u, i)) ∧
        ∀ i j, vm k'.phys k'.dirs (u, i, j) = vm k.phys k.dirs (u, i, j)) ∧
    (¬ r.toInt < 0 → ∀ u, envid2env k cur envid false = some u → WantsPage k u srcva →
      Shares k k' cur srcva u (k.envs u).envIpcDstva)

/-! ## What the code tests -/

/-- The code's tests on the page to be sent fail. -/
def Rejects (k : Kernel) (cur : EnvIdx) (srcva perm : Word) : Prop :=
  ¬ AddrOk srcva ∨ perm &&& ~~~PTE_SYSCALL ≠ 0 ∨ Unmapped k cur srcva ∨
    GrantsWrite k cur srcva perm

/-- The cases in which the code does what the comment says. -/
def SendSafe (k : Kernel) (cur : EnvIdx) (envid srcva perm : Word) : Prop :=
  ∀ u, envid2env k cur envid false = some u → (k.envs u).envIpcRecving = true →
    srcva ≠ IPC_NO_PAGE → ¬ Rejects k cur srcva perm →
    PermOk perm ∧ (IPC_NO_PAGE ≠ (k.envs u).envIpcDstva →
      AddrOk (k.envs u).envIpcDstva ∧ Unmapped k u (k.envs u).envIpcDstva ∧
        ¬ NoTable k u (k.envs u).envIpcDstva)

/-- The environment that makes a call. `env_alloc` gives out positive ids. -/
structure Caller (k : Kernel) (cur : EnvIdx) : Prop where
  live : (k.envs cur).envStatus ≠ ENV_FREE
  id : 0 < (k.envs cur).envId.toInt

variable {managed tables : Set Nat} {k k' : Kernel} {cur u : EnvIdx} {d : Nat}
  {envid value srcva perm r : Word}

theorem Caller.dir (hc : Caller k cur) (h : KInv managed tables k) : ∃ d, k.dirs cur = some d :=
  Option.ne_none_iff_exists'.1 (h.tab.live cur hc.live)

theorem Caller.dir_of_found (hc : Caller k cur) (h : KInv managed tables k) {b : Bool}
    (hf : envid2env k cur envid b = some u) : ∃ d, k.dirs u = some d := by
  rcases envid2env_some hf with rfl | ⟨hst, -⟩
  · exact hc.dir h
  · exact Option.ne_none_iff_exists'.1 (h.tab.live u hst)

theorem Caller.find_self (hc : Caller k cur) (h : KInv managed tables k) :
    envid2env k cur (k.envs cur).envId true = some cur := by
  have hx := h.tab.ids cur (h.tab.live cur hc.live)
  have hneg : ¬ (k.envs cur).envId.toInt < 0 := not_lt.2 (le_of_lt hc.id)
  have hzero : ¬ (k.envs cur).envId = 0 := by
    intro hz
    have hid := hc.id
    rw [hz] at hid
    exact absurd hid (by decide)
  unfold envid2env
  simp only [hx, if_neg hneg, if_neg hzero]
  rw [if_neg (by simp [hc.live]), if_neg (by simp)]

theorem lookup_total (h : KInv managed tables k) (hd : k.dirs cur = some d) (hva : AddrOk srcva) :
    ∃ y, pageLookup k.phys d srcva = .ok y := by
  obtain ⟨free, hm⟩ := h.mem
  obtain ⟨y, hy, -⟩ := hm.pinv.lookup hd (PDX_user hva.1)
  exact ⟨y, hy⟩

/-- **The checks on the page.** -/
theorem ipcCheckPage_eq (h : KInv managed tables k) (hd : k.dirs cur = some d)
    (hpage : srcva ≠ IPC_NO_PAGE) :
    Rejects k cur srcva perm ∧ ipcCheckPage k cur srcva perm = .ok (some (-E_INVAL)) ∨
      ¬ Rejects k cur srcva perm ∧ ipcCheckPage k cur srcva perm = .ok none := by
  unfold ipcCheckPage
  rw [if_neg hpage]
  by_cases haddr : UTOP ≤ srcva ∨ PGOFF srcva ≠ 0
  · rw [if_pos haddr]
    refine .inl ⟨.inl fun hok => ?_, rfl⟩
    exact haddr.elim (BitVec.not_le.2 hok.1) fun hc => hc hok.2
  rw [if_neg haddr]
  push Not at haddr
  have hok : AddrOk srcva := ⟨BitVec.not_le.1 (by simpa using haddr.1), haddr.2⟩
  by_cases hperm : perm &&& ~~~PTE_SYSCALL ≠ 0
  · rw [if_pos hperm]
    exact .inl ⟨.inr (.inl hperm), rfl⟩
  rw [if_neg hperm, pgdir_of_dirs hd, ok_bind]
  obtain ⟨y, hy⟩ := lookup_total h hd hok
  rw [hy, ok_bind]
  cases y with
  | none => exact .inl ⟨.inr (.inr (.inl ⟨d, hd, hy⟩)), rfl⟩
  | some y =>
    obtain ⟨p, pte⟩ := y
    simp only
    split_ifs with hw
    · exact .inl ⟨.inr (.inr (.inr ⟨hw.2, d, p, pte, hd, hy, hw.1⟩)), rfl⟩
    · refine .inr ⟨?_, rfl⟩
      rintro (hc | hc | ⟨d', hd', hl⟩ | ⟨hpw, d', p', pte', hd', hl, hro⟩)
      · exact hc hok
      · exact hperm hc
      · rw [hd, Option.some.injEq] at hd'
        subst hd'
        rw [hy] at hl
        cases hl
      · rw [hd, Option.some.injEq] at hd'
        subst hd'
        rw [hy] at hl
        cases hl
        exact hw ⟨hro, hpw⟩

theorem source_of_not_rejects (h : KInv managed tables k) (hd : k.dirs cur = some d)
    (hgood : ¬ Rejects k cur srcva perm) :
    AddrOk srcva ∧ perm &&& ~~~PTE_SYSCALL = 0 ∧ ∃ p pte,
      pageLookup k.phys d srcva = .ok (some (p, pte)) ∧
      ¬ (k.phys.load pte &&& PTE_W = 0 ∧ perm &&& PTE_W ≠ 0) := by
  unfold Rejects at hgood
  push Not at hgood
  obtain ⟨haddr, hperm, hmapped, hwrite⟩ := hgood
  obtain ⟨y, hy⟩ := lookup_total h hd haddr
  cases y with
  | none => exact (hmapped ⟨d, hd, hy⟩).elim
  | some y =>
    obtain ⟨p, pte⟩ := y
    exact ⟨haddr, hperm, p, pte, hy, fun hw => hwrite ⟨hw.2, d, p, pte, hd, hy, hw.1⟩⟩

/-! ## The transfer -/

theorem sysPageMap_bad_dst {dstva : Word} (hs : envid2env k cur (k.envs cur).envId true = some cur)
    (hf : envid2env k cur envid false = some u) (hdst : ¬ AddrOk dstva) :
    sysPageMap k cur (k.envs cur).envId srcva envid dstva perm = .ok (-E_INVAL, k) := by
  unfold sysPageMap
  simp only [hs, hf]
  exact if_pos (.inr (.inl (checkAddrScale_eq_false.2 hdst)))

/-- **The transfer** to a valid address: it finds a page there, or no memory for a page table, or
it shares the page. -/
theorem ipcTransfer_eq (h : KInv managed tables k) (hc : Caller k cur)
    (hf : envid2env k cur envid false = some u) (hgood : ¬ Rejects k cur srcva perm)
    (hdst : AddrOk (k.envs u).envIpcDstva) :
    ¬ Unmapped k u (k.envs u).envIpcDstva ∧
        ipcTransfer k cur u envid srcva perm = .ok (some (-E_NO_MEM), k) ∨
      NoTable k u (k.envs u).envIpcDstva ∧
        ipcTransfer k cur u envid srcva perm = .error "!!! sys_try_send: error map mapge!!!" ∨
      Unmapped k u (k.envs u).envIpcDstva ∧ ¬ NoTable k u (k.envs u).envIpcDstva ∧
        ∃ σ, ipcTransfer k cur u envid srcva perm =
            .ok (none, setIpcPerm { k with phys := σ } u perm) ∧
          Shares k { k with phys := σ } cur srcva u (k.envs u).envIpcDstva := by
  obtain ⟨d, hd⟩ := hc.dir h
  obtain ⟨du, hdu⟩ := hc.dir_of_found h hf
  obtain ⟨hsrc, hperm, p, pte, hl, hw⟩ := source_of_not_rejects h hd hgood
  obtain ⟨free, hm⟩ := h.mem
  have hui : (PDX (k.envs u).envIpcDstva).User := PDX_user hdst.1
  obtain ⟨htgt, hload⟩ := hm.lookup_eq hd hsrc.1 hl
  have hmap := sysPageMap_of_source (hc.find_self h) hf hd hdu hsrc hdst hl hw
  have hpm : p ∈ managed := hm.pinv.valid.tgt_mem (.pte cur (PDX srcva) (PTX srcva)) p htgt
  have haddr : PTE_ADDR perm = 0 := PTE_ADDR_of_flags hperm (by decide)
  unfold ipcTransfer
  simp only [pgdir_of_dirs hdu, ok_bind]
  cases hq : target k.phys k.dirs (.pte u (PDX (k.envs u).envIpcDstva)
      (PTX (k.envs u).envIpcDstva)) with
  | some q =>
    obtain ⟨pt, -, hlu⟩ := hm.pinv.lookup_some hdu hui hq
    refine .inl ⟨?_, ?_⟩
    · rintro ⟨d', hd', hn⟩
      rw [hdu, Option.some.injEq] at hd'
      subst hd'
      rw [hlu] at hn
      cases hn
    · rw [hlu, ok_bind]
      exact if_pos (by simp)
  | none =>
    have hlu := hm.pinv.lookup_none hdu hui hq
    rw [hlu, ok_bind, if_neg (by simp), hmap]
    rcases hm.pinv.insert hdu hui hpm (hm.pinv.not_mem_free htgt) haddr
      (by simp [hq]) with ⟨hfree, hpde, hins⟩ | ⟨σ', free', hins, hI⟩
    · refine .inr (.inl ⟨⟨hdst, ?_, du, hdu, pde_of_absent hdu hui hpde⟩, ?_⟩)
      · subst hfree
        exact hm.pinv.head_eq_none
      · rw [hins]
        simp only [Except.map, ok_bind, pgdir_of_dirs hdu, hlu]
        rfl
    · obtain ⟨pt, htgt', hpt⟩ := hI.tgt
      have hq' : target σ' k.dirs (.pte u (PDX (k.envs u).envIpcDstva)
          (PTX (k.envs u).envIpcDstva)) = some p := by
        rw [htgt', Function.update_self]
      obtain ⟨pt', -, hlu'⟩ := hI.inv.lookup_some hdu hui hq'
      refine .inr (.inr ⟨⟨du, hdu, hlu⟩, ?_, σ', ?_, ?_⟩)
      · rintro ⟨-, hnone, d', hd', habs⟩
        rw [hdu, Option.some.injEq] at hd'
        subst hd'
        rcases hpt with hpt | ⟨-, hpt⟩
        · exact habs (pde_of_target hdu hui hpt).1
        · have hchain := hm.pinv.chain
          rw [hnone] at hchain
          cases hchain
          cases hpt
      · have hdu' : ({ k with phys := σ' } : Kernel).pgdir u = .ok du := pgdir_of_dirs hdu
        rw [hins]
        simp only [Except.map, ok_bind, hdu', hlu']
        rfl
      · refine .of_vm htgt (hm.pinv.lt_two_pow hpm) haddr ?_ ?_
        · exact (congrFun hI.vm _).trans (Function.update_self ..)
        · intro hpw hro
          rw [← hload] at hro
          exact hw ⟨hro, hpw⟩

/-! ## The errors -/

theorem BadPage.iff_of_not_rejects (hgood : ¬ Rejects k cur srcva perm) :
    BadPage k cur srcva perm ↔ ¬ PermOk perm := by
  unfold Rejects at hgood
  unfold BadPage
  tauto

theorem Rejects.badPage (h : Rejects k cur srcva perm) : BadPage k cur srcva perm := by
  rcases h with h | h | h | h
  · exact .inl h
  · exact .inr (.inl fun hok => h hok.2)
  · exact .inr (.inr (.inl h))
  · exact .inr (.inr (.inr h))

theorem unmapped_of_absent {dstva : Word} (hd : k.dirs u = some d)
    (habs : ¬ Present (k.phys.mem d (PDX dstva))) : Unmapped k u dstva := by
  refine ⟨d, hd, ?_⟩
  unfold pageLookup pgdirWalk
  rw [if_neg habs]
  rfl

theorem NoTable.unmapped {dstva : Word} (hno : NoTable k u dstva) : Unmapped k u dstva := by
  obtain ⟨-, -, d, hd, habs⟩ := hno
  exact unmapped_of_absent hd habs

theorem SendError.of_recv {code : Word} (h : SendError k cur envid srcva perm code)
    (hf : envid2env k cur envid false = some u) (hrec : (k.envs u).envIpcRecving = true) :
    code = -E_INVAL ∧ srcva ≠ IPC_NO_PAGE ∧ BadPage k cur srcva perm ∨
      code = -E_NO_MEM ∧ WantsPage k u srcva ∧ ¬ BadPage k cur srcva perm ∧
        NoTable k u (k.envs u).envIpcDstva := by
  cases h with
  | badEnv hf' =>
    rw [hf] at hf'
    cases hf'
  | notRecv hf' hrec' =>
    rw [hf, Option.some.injEq] at hf'
    subst hf'
    rw [hrec] at hrec'
    cases hrec'
  | inval hf' hrec' hpage hbad => exact .inl ⟨rfl, hpage, hbad⟩
  | noMem hf' hrec' hwant hgood hmem =>
    rw [hf, Option.some.injEq] at hf'
    subst hf'
    exact .inr ⟨rfl, hwant, hgood, hmem⟩

theorem SendError.unique {code code' : Word} (h : SendError k cur envid srcva perm code)
    (h' : SendError k cur envid srcva perm code') : code' = code := by
  cases h with
  | badEnv hf =>
    cases h' with
    | badEnv _ => rfl
    | notRecv hf' _ => simp [hf] at hf'
    | inval hf' _ _ _ => simp [hf] at hf'
    | noMem hf' _ _ _ _ => simp [hf] at hf'
  | @notRecv u hf hrec =>
    have hrec' : ∀ u', envid2env k cur envid false = some u' →
      ¬ (k.envs u').envIpcRecving = true := by
      intro u' hf'
      rw [hf, Option.some.injEq] at hf'
      rw [← hf', hrec]
      decide
    cases h' with
    | badEnv hf' => simp [hf] at hf'
    | notRecv _ _ => rfl
    | inval hf' hr _ _ => exact (hrec' _ hf' hr).elim
    | noMem hf' hr _ _ _ => exact (hrec' _ hf' hr).elim
  | inval hf hrec _ hbad =>
    rcases h'.of_recv hf hrec with ⟨rfl, -⟩ | ⟨-, -, hgood, -⟩
    · rfl
    · exact (hgood hbad).elim
  | noMem hf hrec _ hgood _ =>
    rcases h'.of_recv hf hrec with ⟨-, -, hbad⟩ | ⟨rfl, -⟩
    · exact (hgood hbad).elim
    · rfl

/-- A call that fails as listed and changes nothing. -/
theorem SendDocumented.of_error (hx : sysIpcTrySend k cur envid value srcva perm = .ok (r, k))
    (herr : SendError k cur envid srcva perm r) (hneg : r.toInt < 0) :
    SendDocumented k cur envid value srcva perm :=
  ⟨r, k, hx, fun _ => herr, fun _ h => (herr.unique h).symm,
    fun _ _ _ => ⟨rfl, fun _ => rfl, fun _ _ => rfl⟩, fun hc => (hc hneg).elim⟩

/-- A call that returns zero is right if no error applies. -/
theorem sendDocumented_zero (hx : sysIpcTrySend k cur envid value srcva perm = .ok (0, k'))
    (hshare : ∀ u, envid2env k cur envid false = some u → WantsPage k u srcva →
      Shares k k' cur srcva u (k.envs u).envIpcDstva) :
    SendDocumented k cur envid value srcva perm ↔
      ∀ code, ¬ SendError k cur envid srcva perm code := by
  constructor
  · rintro ⟨r, k₁, hx', -, hcode, -⟩ code herr
    rw [hx] at hx'
    obtain ⟨rfl, -⟩ := Prod.mk.inj (Except.ok.inj hx')
    have hzero := hcode code herr
    cases herr with
    | badEnv _ => exact absurd hzero (by decide)
    | notRecv _ _ => exact absurd hzero (by decide)
    | inval _ _ _ _ => exact absurd hzero (by decide)
    | noMem _ _ _ _ _ => exact absurd hzero (by decide)
  · intro hno
    exact ⟨0, k', hx, fun hc => absurd hc (by decide), fun code h => (hno code h).elim,
      fun hc => absurd hc (by decide), fun _ => hshare⟩

/-! ## The call -/

theorem envs_setIpcPerm (k : Kernel) (u : EnvIdx) (v : Word) (e : EnvIdx) :
    (setIpcPerm k u v).envs e =
      { k.envs e with envIpcPerm := if e = u then v else (k.envs e).envIpcPerm } := by
  by_cases he : e = u
  · subst he
    simp [setIpcPerm, Kernel.setEnv]
  · simp [setIpcPerm, Kernel.setEnv, he]

theorem send_no_transfer (hf : envid2env k cur envid false = some u)
    (hrec : (k.envs u).envIpcRecving = true) (hchk : ipcCheckPage k cur srcva perm = .ok none)
    (hwant : ¬ WantsPage k u srcva) :
    sysIpcTrySend k cur envid value srcva perm =
      .ok (0, ipcDeliver (setIpcPerm k u 0) cur u value) := by
  unfold sysIpcTrySend
  simp only [hf, hrec, hchk, ok_bind, envs_setIpcPerm]
  rw [if_neg (by decide)]
  exact if_neg hwant

theorem send_transfer (value : Word) (hf : envid2env k cur envid false = some u)
    (hrec : (k.envs u).envIpcRecving = true) (hchk : ipcCheckPage k cur srcva perm = .ok none)
    (hwant : WantsPage k u srcva) :
    sysIpcTrySend k cur envid value srcva perm = (do
      match ← ipcTransfer (setIpcPerm k u 0) cur u envid srcva perm with
      | (some r, k) => return (r, k)
      | (none, k) => return (0, ipcDeliver k cur u value)) := by
  unfold sysIpcTrySend
  simp only [hf, hrec, hchk, ok_bind, envs_setIpcPerm]
  rw [if_neg (by decide)]
  exact if_pos hwant

theorem ipcTransfer_bad_dst (h : KInv managed tables k) (hc : Caller k cur)
    (hf : envid2env k cur envid false = some u) (hdst : ¬ AddrOk (k.envs u).envIpcDstva) :
    ipcTransfer k cur u envid srcva perm ≠ .ok (none, k') := by
  intro hx
  rcases ipcTransfer_ok hx with ⟨hres, -⟩ | ⟨-, d, r, σ, -, hl, hmap, hl', -⟩
  · cases hres
  · rw [sysPageMap_bad_dst (hc.find_self h) hf hdst] at hmap
    have hσ : k.phys = σ := congrArg Kernel.phys (Prod.mk.inj (Except.ok.inj hmap)).2
    rw [← hσ] at hl'
    exact hl' hl

theorem KInv.setIpcPerm (h : KInv managed tables k) (u : EnvIdx) (v : Word)
    (hdir : k.dirs u ≠ none) : KInv managed tables (Jos.setIpcPerm k u v) := by
  have hkeeps : MidKeeps managed tables 0 u (fun _ => False) k (Jos.setIpcPerm k u v) :=
    h.keeps_setEnv rfl rfl rfl fun _ => hdir
  exact hkeeps.inv

/-- What the transfer reads is as before `env_ipc_perm` was cleared. -/
theorem Caller.setIpcPerm (hc : Caller k cur) (u : EnvIdx) (v : Word) :
    Caller (Jos.setIpcPerm k u v) cur := by
  constructor
  · rw [envs_setIpcPerm]
    exact hc.live
  · rw [envs_setIpcPerm]
    exact hc.id

theorem unmapped_setIpcPerm {e : EnvIdx} {v va : Word} :
    Unmapped (setIpcPerm k u v) e va ↔ Unmapped k e va := by
  unfold Unmapped
  rw [dirs_setIpcPerm]
  rfl

theorem noTable_setIpcPerm {e : EnvIdx} {v va : Word} :
    NoTable (setIpcPerm k u v) e va ↔ NoTable k e va := by
  unfold NoTable
  rw [dirs_setIpcPerm]
  rfl

theorem rejects_setIpcPerm {v : Word} :
    Rejects (setIpcPerm k u v) cur srcva perm ↔ Rejects k cur srcva perm := by
  unfold Rejects GrantsWrite
  rw [unmapped_setIpcPerm, dirs_setIpcPerm]
  rfl

theorem shares_setIpcPerm {σ : Phys} {v dstva : Word}
    (hs : Shares (setIpcPerm k u v) { setIpcPerm k u v with phys := σ } cur srcva u dstva)
    (hphys : k'.phys = σ) (hdirs : k'.dirs = k.dirs) : Shares k k' cur srcva u dstva := by
  have hd₀ := dirs_setIpcPerm k u v
  have hd₁ : ({ setIpcPerm k u v with phys := σ } : Kernel).dirs = k.dirs := hd₀
  obtain ⟨h₁, h₂, h₃, h₄⟩ := hs
  rw [hd₀] at h₁ h₃ h₄
  rw [hd₁] at h₂ h₃ h₄
  subst hphys
  rw [← hdirs] at h₂ h₃ h₄
  exact ⟨hdirs ▸ h₁, h₂, hdirs ▸ h₃, hdirs ▸ h₄⟩

theorem dirs_ipcDeliver (k : Kernel) (cur u : EnvIdx) (v : Word) :
    (ipcDeliver k cur u v).dirs = k.dirs := by
  funext e
  by_cases he : e = u
  · subst he
    simp [ipcDeliver, Kernel.setEnv, Kernel.dirs]
  · simp [ipcDeliver, Kernel.setEnv, Kernel.dirs, he]

theorem sendSafe_iff (hf : envid2env k cur envid false = some u)
    (hrec : (k.envs u).envIpcRecving = true) :
    SendSafe k cur envid srcva perm ↔ (srcva ≠ IPC_NO_PAGE → ¬ Rejects k cur srcva perm →
      PermOk perm ∧ (IPC_NO_PAGE ≠ (k.envs u).envIpcDstva → AddrOk (k.envs u).envIpcDstva ∧
        Unmapped k u (k.envs u).envIpcDstva ∧ ¬ NoTable k u (k.envs u).envIpcDstva)) := by
  refine ⟨fun h => h u hf hrec, fun h u' hf' _ => ?_⟩
  rw [hf, Option.some.injEq] at hf'
  subst hf'
  exact h

/-- If the checks pass and there is memory, the only error left is in the permissions. -/
theorem no_error_iff (hf : envid2env k cur envid false = some u)
    (hrec : (k.envs u).envIpcRecving = true) (hpage : srcva ≠ IPC_NO_PAGE)
    (hgood : ¬ Rejects k cur srcva perm)
    (hmem : WantsPage k u srcva → ¬ NoTable k u (k.envs u).envIpcDstva) :
    (∀ code, ¬ SendError k cur envid srcva perm code) ↔ PermOk perm := by
  constructor
  · intro hno
    by_contra hperm
    exact hno _ (.inval hf hrec hpage ((BadPage.iff_of_not_rejects hgood).2 hperm))
  · intro hperm code herr
    rcases herr.of_recv hf hrec with ⟨-, -, hbad⟩ | ⟨-, hwant, -, hno⟩
    · exact (BadPage.iff_of_not_rejects hgood).1 hbad hperm
    · exact hmem hwant hno

/-- A call that ends with `-E_NO_MEM` although a page table can be had is not as documented, nor
is one that panics. -/
theorem not_sendDocumented (hf : envid2env k cur envid false = some u)
    (hrec : (k.envs u).envIpcRecving = true) (hmem : ¬ NoTable k u (k.envs u).envIpcDstva)
    (hx : ∀ r k', sysIpcTrySend k cur envid value srcva perm = .ok (r, k') → r = -E_NO_MEM) :
    ¬ SendDocumented k cur envid value srcva perm := by
  rintro ⟨r, k', hok, herr, -⟩
  obtain rfl := hx r k' hok
  rcases (herr (by decide)).of_recv hf hrec with ⟨hcode, -⟩ | ⟨-, -, -, hno⟩
  · exact absurd hcode (by decide)
  · exact hmem hno

/-- **The transfer decides**, once both sides want a page and the checks have passed. -/
theorem sendDocumented_transfer (h : KInv managed tables k) (hc : Caller k cur)
    (hf : envid2env k cur envid false = some u) (hrec : (k.envs u).envIpcRecving = true)
    (hwant : WantsPage k u srcva) (hgood : ¬ Rejects k cur srcva perm)
    (hchk : ipcCheckPage k cur srcva perm = .ok none) :
    SendDocumented k cur envid value srcva perm ↔ PermOk perm ∧ AddrOk (k.envs u).envIpcDstva ∧
      Unmapped k u (k.envs u).envIpcDstva ∧ ¬ NoTable k u (k.envs u).envIpcDstva := by
  obtain ⟨du, hdu⟩ := hc.dir_of_found h hf
  have h₀ := h.setIpcPerm u 0 (by simp [hdu])
  have hc₀ := hc.setIpcPerm u 0
  have hf₀ : envid2env (setIpcPerm k u 0) cur envid false = some u := by
    rw [envid2env_setIpcPerm]
    exact hf
  have hdst₀ : ((setIpcPerm k u 0).envs u).envIpcDstva = (k.envs u).envIpcDstva := by
    rw [envs_setIpcPerm]
  have hx := send_transfer value hf hrec hchk hwant
  by_cases hdst : AddrOk (k.envs u).envIpcDstva
  · have hcases := ipcTransfer_eq h₀ hc₀ hf₀ (mt rejects_setIpcPerm.1 hgood) (hdst₀.symm ▸ hdst)
    rw [hdst₀, unmapped_setIpcPerm, noTable_setIpcPerm] at hcases
    rcases hcases with ⟨hmapped, htr⟩ | ⟨hno, htr⟩ | ⟨hun, hno, σ, htr, hshare⟩
    · -- a page is in the way
      rw [htr, ok_bind] at hx
      refine ⟨fun hdoc => ?_, fun hsafe => (hmapped hsafe.2.2.1).elim⟩
      refine (not_sendDocumented hf hrec (mt NoTable.unmapped hmapped) ?_ hdoc).elim
      intro r k' hok
      rw [hx] at hok
      exact (Prod.mk.inj (Except.ok.inj hok)).1.symm
    · -- no memory
      rw [htr] at hx
      refine ⟨fun ⟨r, k', hok, _⟩ => ?_, fun hsafe => (hsafe.2.2.2 hno).elim⟩
      rw [hx] at hok
      cases hok
    · rw [htr, ok_bind] at hx
      rw [sendDocumented_zero hx ?_, no_error_iff hf hrec hwant.1.symm hgood fun _ => hno]
      · exact ⟨fun hperm => ⟨hperm, hdst, hun, hno⟩, And.left⟩
      · intro u' hu' _
        rw [hf, Option.some.injEq] at hu'
        subst hu'
        refine shares_setIpcPerm hshare rfl ?_
        rw [dirs_ipcDeliver, dirs_setIpcPerm]
        exact dirs_setIpcPerm k u 0
  · refine ⟨fun hdoc => ?_, fun hsafe => (hdst hsafe.2.1).elim⟩
    refine (not_sendDocumented hf hrec (fun hno => hdst hno.1) ?_ hdoc).elim
    intro r k' hok
    rw [hx] at hok
    obtain ⟨⟨res, k₁⟩, htr, hok⟩ := bind_eq_ok.1 hok
    rcases ipcTransfer_ok htr with ⟨rfl, -⟩ | ⟨rfl, -⟩
    · exact (Prod.mk.inj (Except.ok.inj hok)).1.symm
    · exact (ipcTransfer_bad_dst h₀ hc₀ hf₀ (hdst₀.symm ▸ hdst) htr).elim

/-! ## The result -/

/-- **`sys_ipc_try_send` keeps to its comment** exactly in the cases `SendSafe`. -/
theorem send_documented_iff (h : KInv managed tables k) (hc : Caller k cur)
    (envid value srcva perm : Word) :
    SendDocumented k cur envid value srcva perm ↔ SendSafe k cur envid srcva perm := by
  obtain ⟨d, hd⟩ := hc.dir h
  obtain hf | ⟨u, hf⟩ := Option.eq_none_or_eq_some (envid2env k cur envid false)
  · have hx : sysIpcTrySend k cur envid value srcva perm = .ok (-E_BAD_ENV, k) := by
      rw [sysIpcTrySend, hf]
    refine ⟨fun _ u hu => ?_, fun _ => .of_error hx (.badEnv hf) (by decide)⟩
    rw [hf] at hu
    cases hu
  cases hrec : (k.envs u).envIpcRecving with
  | false =>
    have hx : sysIpcTrySend k cur envid value srcva perm = .ok (-E_IPC_NOT_RECV, k) := by
      rw [sysIpcTrySend, hf]
      exact if_pos hrec
    refine ⟨fun _ u' hu hrec' => ?_, fun _ => .of_error hx (.notRecv hf hrec) (by decide)⟩
    rw [hf, Option.some.injEq] at hu
    rw [← hu, hrec] at hrec'
    cases hrec'
  | true =>
    rw [sendSafe_iff hf hrec]
    by_cases hpage : srcva = IPC_NO_PAGE
    · -- a message without a page
      have hchk : ipcCheckPage k cur srcva perm = .ok none := if_pos hpage
      have hwant : ¬ WantsPage k u srcva := fun hw => hw.1 hpage.symm
      rw [sendDocumented_zero (send_no_transfer hf hrec hchk hwant) fun _ _ hw =>
        (hw.1 hpage.symm).elim]
      refine ⟨fun _ hc => (hc hpage).elim, fun _ code herr => ?_⟩
      rcases herr.of_recv hf hrec with ⟨-, hc, -⟩ | ⟨-, hw, -⟩
      · exact hc hpage
      · exact hwant hw
    rcases ipcCheckPage_eq h hd hpage with ⟨hrej, hchk⟩ | ⟨hgood, hchk⟩
    · have hx : sysIpcTrySend k cur envid value srcva perm = .ok (-E_INVAL, k) := by
        unfold sysIpcTrySend
        simp only [hf, hrec]
        rw [if_neg (by decide), hchk]
        rfl
      exact ⟨fun _ _ hgood => (hgood hrej).elim,
        fun _ => .of_error hx (.inval hf hrec hpage hrej.badPage) (by decide)⟩
    · simp only [ne_eq, hpage, not_false_eq_true, hgood, forall_const]
      by_cases hwant : WantsPage k u srcva
      · rw [sendDocumented_transfer h hc hf hrec hwant hgood hchk]
        exact and_congr_right' ⟨fun hs _ => hs, fun hs => hs hwant.2⟩
      · have hno : ∀ u', envid2env k cur envid false = some u' → ¬ WantsPage k u' srcva := by
          intro u' hu'
          rw [hf, Option.some.injEq] at hu'
          exact hu' ▸ hwant
        rw [sendDocumented_zero (send_no_transfer hf hrec hchk hwant)
          fun u' hu' hw => (hno u' hu' hw).elim, no_error_iff hf hrec hpage hgood
            fun hw => (hwant hw).elim]
        refine ⟨fun hperm => ⟨hperm, fun hdst => ?_⟩, And.left⟩
        exact (hwant ⟨Ne.symm hpage, hdst⟩).elim

/-- The child of `childActs` waits for a page at `dstva`. -/
def recvActs (dstva : Word) : List SmpAct :=
  childActs ++ [.trap 1 (sysTf SYS_ipc_recv dstva 0 0 0 0) 0 0]

/-- The program and the waiting child. -/
def recvFacts (dstva : Word) (m : Smp) : Bool :=
  decide ((m.k.envs 8).envStatus ≠ ENV_FREE ∧ 0 < (m.k.envs 8).envId.toInt ∧
    envid2env m.k 8 0x1009#32 false = some 9 ∧ (m.k.envs 9).envIpcRecving = true ∧
    (m.k.envs 9).envIpcDstva = dstva ∧ m.k.phys.pageFreeList ≠ none)

/-- The child waits at an address for which a page table has to be made. -/
theorem send_documented_child : ∃ k, KInv (Set.Icc 1 40) ∅ k ∧ Caller k 8 ∧
    envid2env k 8 0x1009#32 false = some 9 ∧ WantsPage k 9 0x800000#32 ∧
    SendDocumented k 8 0x1009#32 7#32 0x800000#32 (PTE_U ||| PTE_P) := by
  have hcomp : (((recvActs 0xC00000#32).foldlM (guardedStep Sound Smp.step) freshSmp).map
      fun m => (recvFacts 0xC00000#32 m, m.k.dirs 9,
        decide (Present (m.k.phys.mem 12 (PDX 0xC00000#32))))) = some (true, some 12, false) := by
    decide +kernel
  obtain ⟨m, hm, hfacts⟩ := Option.map_eq_some_iff.1 hcomp
  simp only [Prod.mk.injEq, decide_eq_false_iff_not] at hfacts
  obtain ⟨hfacts, hdir, habs⟩ := hfacts
  obtain ⟨hlive, hid, hf, hrec, hdst, hfree⟩ := of_decide_eq_true hfacts
  have hinv := (boots_freshSmp.smpInv_run (RunWhile.of_foldlM hm)).kinv
  have hc : Caller m.k 8 := ⟨hlive, hid⟩
  refine ⟨m.k, hinv, hc, hf, ⟨by decide, by rw [hdst]; decide⟩,
    (send_documented_iff hinv hc _ _ _ _).2 ?_⟩
  rw [sendSafe_iff hf hrec, hdst]
  exact fun _ _ => ⟨by decide, fun _ => ⟨by decide, unmapped_of_absent hdir habs,
    fun hno => hfree hno.2.1⟩⟩

/-- The child waits at an address where it has a page already: the send fails. -/
theorem send_fails_mapped : ∃ k, KInv (Set.Icc 1 40) ∅ k ∧ Caller k 8 ∧
    ¬ SendDocumented k 8 0x1009#32 7#32 0x800000#32 (PTE_U ||| PTE_P) := by
  have hcomp : (((recvActs 0x800000#32).foldlM (guardedStep Sound Smp.step) freshSmp).map
      fun m => (recvFacts 0x800000#32 m,
        (sysIpcTrySend m.k 8 0x1009#32 7#32 0x800000#32 (PTE_U ||| PTE_P)).toOption.map Prod.fst)) =
      some (true, some (-E_NO_MEM)) := by
    decide +kernel
  obtain ⟨m, hm, hfacts⟩ := Option.map_eq_some_iff.1 hcomp
  obtain ⟨hfacts, hres⟩ := Prod.mk.inj hfacts
  obtain ⟨hlive, hid, hf, hrec, hdst, hfree⟩ := of_decide_eq_true hfacts
  refine ⟨m.k, (boots_freshSmp.smpInv_run (RunWhile.of_foldlM hm)).kinv, ⟨hlive, hid⟩,
    not_sendDocumented hf hrec (fun hno => hfree hno.2.1) fun r k' hok => ?_⟩
  rw [hok] at hres
  exact Option.some.inj hres

end Jos
