import Jos.Smp

/-!
# Environment ids

An id is a generation, in steps of `1 << ENVGENSHIFT`, and the index of the slot. `env_alloc` adds
one to the generation of the slot, and starts again at one before the id would turn negative. So the
`n`-th id of a slot is `slotId` of `n`, and the ids of a slot repeat after `NGEN` allocations and
not before.

The state of a run (`EnvHist`) is the kernel and, for each slot, the ids it was given so far, newest
first. **Invariant** (`IdInv`): these are the first ids of the slot, and the newest is the one in
`envs[]`. **`ids_sound`** reads off that a stale id is not accepted.
-/

namespace Jos

open Lib

/-- The number of generations. -/
def NGEN : Nat := 524287

/-- The `n`-th id of slot `e`, from zero. -/
def slotId (e : EnvIdx) (n : Nat) : Word := BitVec.ofNat 32 ((n % NGEN + 1) * 4096 + e)

/-- The first `n` ids of slot `e`, newest first. -/
def issued (e : EnvIdx) : Nat → List Word
  | 0 => []
  | n + 1 => slotId e n :: issued e n

/-! ## The arithmetic of ids -/

theorem toNat_and_not_idx (w : Word) :
    (w &&& ~~~(BitVec.ofNat 32 (NENV - 1))).toNat = w.toNat / 1024 * 1024 := by
  have h : w &&& ~~~(BitVec.ofNat 32 (NENV - 1)) = (w >>> 10) <<< 10 := by
    ext i hi
    simp only [NENV, BitVec.getElem_and, BitVec.getElem_not, BitVec.getElem_shiftLeft]
    by_cases h : i < 10
    · interval_cases i <;> simp
    · have h' : 10 ≤ i := by omega
      interval_cases i <;> simp
  rw [h]
  have := w.isLt
  simp only [BitVec.toNat_shiftLeft, BitVec.toNat_ushiftRight, Nat.shiftLeft_eq,
    Nat.shiftRight_eq_div_pow]
  omega

theorem toNat_slotId (e : EnvIdx) (n : Nat) : (slotId e n).toNat = (n % NGEN + 1) * 4096 + e := by
  have hmod : n % NGEN < NGEN := Nat.mod_lt _ (by decide)
  have he := e.isLt
  rw [slotId, BitVec.toNat_ofNat]
  unfold NGEN at *
  omega

/-- An id from its generation. -/
theorem or_idx {g : Word} {q : Nat} (hg : g.toNat = q * 1024) (e : EnvIdx) :
    (g ||| BitVec.ofNat 32 e).toNat = q * 1024 + e := by
  have he := e.isLt
  rw [BitVec.toNat_or, BitVec.toNat_ofNat, Nat.mod_eq_of_lt (by omega), hg, Nat.mul_comm q]
  exact (Nat.two_pow_add_eq_or_of_lt (i := 10) (by omega) q).symm

theorem nextEnvId_of_toNat {id : Word} {e : EnvIdx} {g : Nat} (hlt : g ≤ NGEN)
    (hid : id.toNat / 1024 = g * 4) :
    (nextEnvId id e).toNat = (if g = NGEN then 1 else g + 1) * 4096 + e := by
  unfold NGEN at *
  have hbound := id.isLt
  have hadd : (id + 1 <<< ENVGENSHIFT).toNat = id.toNat + 4096 := by
    rw [BitVec.toNat_add, show (1 <<< ENVGENSHIFT : Word).toNat = 4096 by decide]
    omega
  have hgen : ((id + 1 <<< ENVGENSHIFT) &&& ~~~(BitVec.ofNat 32 (NENV - 1))).toNat =
    (g + 1) * 4096 := by
    rw [toNat_and_not_idx, hadd]
    omega
  unfold nextEnvId
  set gen := (id + 1 <<< ENVGENSHIFT) &&& ~~~(BitVec.ofNat 32 (NENV - 1))
  simp only
  by_cases hg : g = 524287
  · have hneg : gen.toInt ≤ 0 := by
      rw [BitVec.toInt_eq_toNat_cond, hgen]
      split_ifs <;> omega
    rw [if_pos hneg, if_pos hg, or_idx (q := 4) (by decide)]
  · have hpos : ¬ gen.toInt ≤ 0 := by
      rw [BitVec.toInt_eq_toNat_cond, hgen]
      split_ifs <;> omega
    rw [if_neg hpos, if_neg hg, or_idx (q := (g + 1) * 4) (by rw [hgen]; omega)]
    omega

theorem nextEnvId_zero (e : EnvIdx) : nextEnvId 0 e = slotId e 0 := by
  apply BitVec.eq_of_toNat_eq
  rw [nextEnvId_of_toNat (g := 0) (by decide) (by decide), toNat_slotId]
  rfl

/-- **The ids of a slot** follow each other. -/
theorem nextEnvId_slotId (e : EnvIdx) (n : Nat) : nextEnvId (slotId e n) e = slotId e (n + 1) := by
  have hmod : n % NGEN < NGEN := Nat.mod_lt _ (by decide)
  have he := e.isLt
  apply BitVec.eq_of_toNat_eq
  rw [nextEnvId_of_toNat (g := n % NGEN + 1) hmod, toNat_slotId, Nat.add_mod]
  · unfold NGEN at *
    split_ifs <;> omega
  · rw [toNat_slotId]
    omega

theorem slotId_pos (e : EnvIdx) (n : Nat) : 0 < (slotId e n).toInt := by
  have hmod : n % NGEN < NGEN := Nat.mod_lt _ (by decide)
  have he := e.isLt
  rw [BitVec.toInt_eq_toNat_cond, toNat_slotId]
  unfold NGEN at *
  split_ifs <;> omega

theorem ENVX_slotId (e : EnvIdx) (n : Nat) : ENVX (slotId e n) = e := by
  have he := e.isLt
  apply Fin.ext
  change (slotId e n).toNat % 1024 = e.val
  rw [toNat_slotId]
  omega

/-- Fewer than `NGEN` steps lead to another id. -/
theorem slotId_ne (e : EnvIdx) {m n : Nat} (hlt : m < n) (hn : n < m + NGEN) :
    slotId e m ≠ slotId e n := by
  intro heq
  have hnat := congrArg BitVec.toNat heq
  rw [toNat_slotId, toNat_slotId] at hnat
  have hmod : m % NGEN = n % NGEN := by omega
  unfold NGEN at *
  omega

/-! ## The ids a slot was given -/

theorem getElem?_issued {e : EnvIdx} {n i : Nat} {id : Word} (h : (issued e n)[i]? = some id) :
    i < n ∧ id = slotId e (n - 1 - i) := by
  induction n generalizing i with
  | zero => simp [issued] at h
  | succ n ih =>
    cases i with
    | zero =>
      rw [issued, List.getElem?_cons_zero] at h
      exact ⟨by omega, (Option.some.inj h).symm⟩
    | succ i =>
      rw [issued, List.getElem?_cons_succ] at h
      obtain ⟨hi, rfl⟩ := ih h
      refine ⟨by omega, ?_⟩
      congr 1
      omega

theorem mem_issued {e : EnvIdx} {n : Nat} {id : Word} (h : id ∈ issued e n) :
    ∃ m, id = slotId e m := by
  obtain ⟨i, hi⟩ := List.mem_iff_getElem?.1 h
  exact ⟨_, (getElem?_issued hi).2⟩

/-! ## Runs -/

/-- `env_alloc` or `env_free`. -/
inductive EnvAct
  | alloc (parentId : Word)
  | free (c : Cpu) (e : EnvIdx)

/-- The kernel, and the ids each slot was given, newest first. -/
structure EnvHist where
  k : Kernel
  ids : EnvIdx → List Word

def EnvHist.step (s : EnvHist) : EnvAct → Option EnvHist
  | .alloc parentId =>
    match envAlloc s.k parentId with
    | .ok (.ok e, k) => some ⟨k, Function.update s.ids e ((k.envs e).envId :: s.ids e)⟩
    | .ok (.error _, k) => some ⟨k, s.ids⟩
    | .error _ => none
  | .free c e =>
    match envFree s.k c e with
    | .ok k => some ⟨k, s.ids⟩
    | .error _ => none

/-- After `env_init`. -/
structure EnvInit (k : Kernel) : Prop where
  envs : ∀ e, k.envs e = initEnv e
  envFreeList : k.envFreeList = some 0

structure IdInv (s : EnvHist) : Prop where
  slots : FreeSlots s.k
  ids : ∀ e, ∃ n, s.ids e = issued e n
  newest : ∀ e, (s.k.envs e).envId = (s.ids e).headD 0
  live : ∀ e, (s.k.envs e).envStatus ≠ ENV_FREE → s.ids e ≠ []

theorem EnvInit.idInv {k : Kernel} (h : EnvInit k) : IdInv ⟨k, fun _ => []⟩ := by
  have hinit : ∀ e, (k.envs e).envPgdir = none ∧ (k.envs e).envId = 0 := by
    intro e
    rw [h.envs, initEnv]
    split_ifs <;> exact ⟨rfl, rfl⟩
  refine ⟨?_, fun e => ⟨0, rfl⟩, fun e => (hinit e).2, fun e he => ?_⟩
  · obtain ⟨l, hl, -⟩ := initEnv_chain 1023 0 rfl
    refine ⟨l, ?_, fun e _ => (hinit e).1⟩
    have hlink : (fun e => (k.envs e).envLink) = fun e => (initEnv e).envLink := by
      funext e
      rw [h.envs]
    change Chain (fun e => (k.envs e).envLink) k.envFreeList l
    rw [hlink, h.envFreeList]
    exact hl
  · change (k.envs e).envStatus ≠ ENV_FREE at he
    rw [h.envs, envStatus_initEnv] at he
    exact (he rfl).elim

theorem IdInv.alloc {s : EnvHist} (h : IdInv s) {child : EnvIdx} {p : Nat} (parentId : Word)
    (hhead : s.k.envFreeList = some child) :
    IdInv ⟨allocated s.k child p (newEnv s.k parentId child p),
      Function.update s.ids child (nextEnvId (s.k.envs child).envId child :: s.ids child)⟩ := by
  have hdirs : (allocated s.k child p (newEnv s.k parentId child p)).dirs =
      Function.update s.k.dirs child (some p) := by
    funext e
    by_cases he : e = child
    · subst he
      simp [Kernel.dirs, allocated, newEnv]
    · simp [Kernel.dirs, allocated, he]
  have hnext : ∃ n, nextEnvId (s.k.envs child).envId child :: s.ids child = issued child n := by
    obtain ⟨n, hn⟩ := h.ids child
    refine ⟨n + 1, ?_⟩
    rw [h.newest, hn, issued]
    cases n with
    | zero => rw [issued, List.headD_nil, nextEnvId_zero]
    | succ n => rw [issued, List.headD_cons, nextEnvId_slotId]
  refine ⟨FreeSlots.allocated h.slots hhead hdirs, fun e => ?_, fun e => ?_, fun e he => ?_⟩
  · by_cases hec : e = child
    · subst hec
      simp only [Function.update_self]
      exact hnext
    · simp only [Function.update_of_ne hec]
      exact h.ids e
  · by_cases hec : e = child
    · subst hec
      simp [allocated, newEnv]
    · simp only [allocated, Function.update_of_ne hec]
      exact h.newest e
  · by_cases hec : e = child
    · subst hec
      simp
    · simp only [allocated, Function.update_of_ne hec] at he ⊢
      exact h.live e he

theorem IdInv.free {s : EnvHist} (h : IdInv s) {c : Cpu} {e : EnvIdx} {k' : Kernel}
    (hfree : envFree s.k c e = .ok k') : IdInv ⟨k', s.ids⟩ := by
  obtain ⟨henvs, -⟩ := envs_envFree hfree
  have hd : s.k.dirs e ≠ none := by
    unfold envFree at hfree
    obtain ⟨d, hd, -⟩ := bind_eq_ok.1 hfree
    have hd' := dirs_of_pgdir hd
    change ((s.k.leave c e).envs e).envPgdir = some d at hd'
    rw [envs_leave] at hd'
    change (s.k.envs e).envPgdir ≠ none
    rw [hd']
    exact Option.some_ne_none d
  have hdirs : k'.dirs = Function.update s.k.dirs e none := by
    obtain ⟨σ, rfl⟩ := envFree_ok hfree
    exact dirs_retire s.k c e σ
  refine ⟨FreeSlots.envFree h.slots hd hfree hdirs, h.ids, fun e' => ?_, fun e' he' => ?_⟩
  · change (k'.envs e').envId = _
    rw [henvs]
    by_cases hee : e' = e
    · subst hee
      rw [Function.update_self]
      exact h.newest e'
    · rw [Function.update_of_ne hee]
      exact h.newest e'
  · change (k'.envs e').envStatus ≠ ENV_FREE at he'
    rw [henvs] at he'
    by_cases hee : e' = e
    · subst hee
      rw [Function.update_self] at he'
      exact (he' rfl).elim
    · rw [Function.update_of_ne hee] at he'
      exact h.live e' he'

/-- **One step** of the table. -/
theorem IdInv.step {s s' : EnvHist} {a : EnvAct} (h : IdInv s) (hstep : s.step a = some s') :
    IdInv s' := by
  cases a with
  | alloc parentId =>
    rw [EnvHist.step] at hstep
    split at hstep
    · rename_i e k' hx
      cases hstep
      rcases envAlloc_ok hx with ⟨r, hr, -⟩ | ⟨child, p, hres, hhead, -, rfl⟩
      · cases hr
      · obtain rfl : e = child := Except.ok.inj hres
        have hid : ((allocated s.k e p (newEnv s.k parentId e p)).envs e).envId =
            nextEnvId (s.k.envs e).envId e := by
          simp [allocated, newEnv]
        rw [hid]
        exact h.alloc parentId hhead
    · rename_i r k' hx
      cases hstep
      rcases envAlloc_ok hx with ⟨-, -, rfl⟩ | ⟨child, p, hres, -⟩
      · exact h
      · cases hres
    · cases hstep
  | free c e =>
    rw [EnvHist.step] at hstep
    split at hstep
    · rename_i k' hx
      cases hstep
      exact h.free hx
    · cases hstep

/-! ## Stale ids -/

/-- What holds of the ids in every state of the table. -/
structure IdsSound (s : EnvHist) : Prop where
  assigned : ∀ e, ∀ id ∈ s.ids e, 0 < id.toInt ∧ ENVX id = e
  current : ∀ e, (s.k.envs e).envStatus ≠ ENV_FREE → (s.ids e)[0]? = some (s.k.envs e).envId
  live : ∀ e e', (s.k.envs e).envStatus ≠ ENV_FREE → (s.k.envs e').envStatus ≠ ENV_FREE → e ≠ e' →
    (s.k.envs e).envId ≠ (s.k.envs e').envId
  distinct : ∀ e i j id, i < j → j < i + 524287 → (s.ids e)[i]? = some id → (s.ids e)[j]? ≠ some id
  stale : ∀ e i id, (s.ids e)[i]? = some id → (i = 0 → (s.k.envs e).envStatus = ENV_FREE) →
    i < 524287 → ∀ cur checkperm, envid2env s.k cur id checkperm = none

theorem IdInv.distinct {s : EnvHist} (h : IdInv s) {e : EnvIdx} {i j : Nat} {id : Word}
    (hij : i < j) (hj : j < i + 524287) (hi : (s.ids e)[i]? = some id) :
    (s.ids e)[j]? ≠ some id := by
  intro hj'
  obtain ⟨n, hn⟩ := h.ids e
  rw [hn] at hi hj'
  obtain ⟨hin, rfl⟩ := getElem?_issued hi
  obtain ⟨hjn, heq⟩ := getElem?_issued hj'
  exact slotId_ne e (m := n - 1 - j) (n := n - 1 - i) (by omega) (by unfold NGEN; omega) heq.symm

theorem IdInv.current {s : EnvHist} (h : IdInv s) {e : EnvIdx}
    (hlive : (s.k.envs e).envStatus ≠ ENV_FREE) : (s.ids e)[0]? = some (s.k.envs e).envId := by
  have hne := h.live e hlive
  have hnew := h.newest e
  cases hl : s.ids e with
  | nil => exact (hne hl).elim
  | cons id l =>
    rw [hl, List.headD_cons] at hnew
    rw [List.getElem?_cons_zero, hnew]

theorem IdInv.assigned {s : EnvHist} (h : IdInv s) {e : EnvIdx} {id : Word} (hid : id ∈ s.ids e) :
    0 < id.toInt ∧ ENVX id = e := by
  obtain ⟨n, hn⟩ := h.ids e
  rw [hn] at hid
  obtain ⟨m, rfl⟩ := mem_issued hid
  exact ⟨slotId_pos e m, ENVX_slotId e m⟩

theorem IdInv.sound {s : EnvHist} (h : IdInv s) : IdsSound s := by
  refine ⟨fun e id hid => h.assigned hid, fun e he => h.current he, fun e e' he he' hne heq => ?_,
    fun e i j id hij hj hi => h.distinct hij hj hi, fun e i id hi hfreed hlt cur checkperm => ?_⟩
  · have hx := (h.assigned (List.mem_of_getElem? (h.current he))).2
    have hx' := (h.assigned (List.mem_of_getElem? (h.current he'))).2
    rw [heq] at hx
    exact hne (hx.symm.trans hx')
  · obtain ⟨hpos, hslot⟩ := h.assigned (List.mem_of_getElem? hi)
    have hnonneg : ¬ id.toInt < 0 := by omega
    have hne : id ≠ 0 := by
      rintro rfl
      exact absurd hpos (by decide)
    unfold envid2env
    rw [if_neg hnonneg, if_neg hne]
    simp only [hslot]
    rw [if_pos]
    by_contra hc
    rw [not_or, not_not] at hc
    obtain ⟨hlive, hid⟩ := hc
    -- the id in the table is the newest one, so `id` would have come back too early
    have hcur := h.current hlive
    rw [hid] at hcur
    cases i with
    | zero => exact hlive (hfreed rfl)
    | succ i => exact h.distinct (Nat.succ_pos i) (by omega) hcur hi

/-- **Stale ids are rejected**, in every run of `env_alloc` and `env_free`. -/
theorem ids_sound {k : Kernel} {acts : List EnvAct} {s : EnvHist} (hinit : EnvInit k)
    (hrun : Run EnvHist.step ⟨k, fun _ => []⟩ acts s) : IdsSound s := by
  have h : IdInv s := hrun.invariant hinit.idInv fun _ _ _ ht _ hstep => ht.step hstep
  exact h.sound

/-- An environment is freed, and its slot is used again. -/
theorem ids_sound_reuse : EnvInit freshKernel ∧
    ∃ s, Run EnvHist.step ⟨freshKernel, fun _ => []⟩ [.alloc 0, .free 0 0, .alloc 0] s ∧
      s.ids 0 = [0x2000#32, 0x1000#32] ∧ IdsSound s := by
  have hinit : EnvInit freshKernel := ⟨fun _ => rfl, rfl⟩
  have hcomp : (([.alloc 0, .free 0 0, .alloc 0] : List EnvAct).foldlM
      (guardedStep (fun _ _ => True) EnvHist.step) ⟨freshKernel, fun _ => []⟩).map
        (fun s => s.ids 0) = some [0x2000#32, 0x1000#32] := by decide +kernel
  obtain ⟨s, hs, hids⟩ := Option.map_eq_some_iff.1 hcomp
  have hrun := RunWhile.of_foldlM hs
  exact ⟨hinit, s, hrun, hids, ids_sound hinit hrun⟩

end Jos
