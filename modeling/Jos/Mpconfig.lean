import Jos.Mmu

/-!
# `mp_init`

At boot the kernel reads the table in which the BIOS lists the processors (`kern/mpconfig.c`). Each
processor gets the next element of `cpus`, and the one that is marked as the boot processor is
remembered in `bootcpu`.

**The model** starts with what `mpconfig` has found, and reads the entries of the table as bytes. A
pointer into `cpus` is an index, which may be beyond the array; `written` are the elements that have
been written.

**The theorem** (`mp_init_safe_iff`). When the array is full, more processors are ignored. But the
mark is looked at before the number, so a boot processor behind the first `NCPU` is taken to be at
`cpus[NCPU]`, and this element, which does not exist, is set to `CPU_STARTED`.
-/

namespace Jos

/-! ## Definitions -/

def NCPU : ℕ := 8
def CPU_UNUSED : Word := 0#32
def CPU_STARTED : Word := 1#32

def MPPROC_BOOT : BitVec 8 := 0x02#8

def MPPROC : BitVec 8 := 0x00#8
def MPBUS : BitVec 8 := 0x01#8
def MPIOAPIC : BitVec 8 := 0x02#8
def MPIOINTR : BitVec 8 := 0x03#8
def MPLINTR : BitVec 8 := 0x04#8

/-- `sizeof (struct mpproc)`. -/
def MPPROC_SIZE : ℕ := 20

/-- The fields of `struct Cpu` that are written. -/
structure CpuInfo where
  cpuId : BitVec 8 := 0
  cpuStatus : Word := CPU_UNUSED

/-- What `mpconfig` returns: the configuration table, and `imcrp` of the structure that points to
it. -/
structure Mpconf where
  lapicaddr : Word
  entry : BitVec 16
  entries : ℕ → BitVec 8
  imcrp : BitVec 8

/-- The variables that `mp_init` sets. -/
structure MpState where
  cpus : ℕ → CpuInfo := fun _ => {}
  bootcpu : ℕ := 0
  ncpu : ℕ := 0
  ismp : Bool := false
  lapic : Word := 0
  imcr : Bool := false
  written : List ℕ := []

/-- The test for the boot processor. -/
def MpState.mark (s : MpState) (flags : BitVec 8) : MpState :=
  if flags &&& MPPROC_BOOT ≠ 0#8 then { s with bootcpu := s.ncpu } else s

/-- One processor more, if there is room. -/
def MpState.add (s : MpState) : MpState :=
  if s.ncpu < NCPU then
    { s with
      cpus := Function.update s.cpus s.ncpu { s.cpus s.ncpu with cpuId := BitVec.ofNat 8 s.ncpu }
      written := s.written ++ [s.ncpu]
      ncpu := s.ncpu + 1 }
  else s

/-- The entry of a processor. -/
def MpState.proc (s : MpState) (flags : BitVec 8) : MpState := (s.mark flags).add

/-- The loop over the entries, with `n` of them left and the next at `p`. -/
def mpEntries (entries : ℕ → BitVec 8) : ℕ → ℕ → MpState → MpState
  | 0, _, s => s
  | n + 1, p, s =>
    if entries p = MPPROC then mpEntries entries n (p + MPPROC_SIZE) (s.proc (entries (p + 3)))
    else if entries p = MPBUS ∨ entries p = MPIOAPIC ∨ entries p = MPIOINTR ∨
      entries p = MPLINTR then
      mpEntries entries n (p + 8) s
    else { s with ismp := false }

/-- `bootcpu->cpu_status = CPU_STARTED`. -/
def MpState.start (s : MpState) : MpState :=
  { s with
    cpus := Function.update s.cpus s.bootcpu { s.cpus s.bootcpu with cpuStatus := CPU_STARTED }
    written := s.written ++ [s.bootcpu] }

/-- `mp_init`, with the variables as they are at boot. -/
def mpInit (conf : Option Mpconf) : MpState :=
  match conf with
  | none => {}
  | some conf =>
    let s := (mpEntries conf.entries conf.entry.toNat 0
      { ismp := true, lapic := conf.lapicaddr }).start
    if s.ismp = false then { s with ncpu := 1, lapic := 0 }
    else if conf.imcrp ≠ 0#8 then { s with imcr := true }
    else s

/-! ## The processors of a table -/

/-- The flags of the processors, up to an entry of an unknown type. -/
def procFlags (entries : ℕ → BitVec 8) : ℕ → ℕ → List (BitVec 8)
  | 0, _ => []
  | n + 1, p =>
    if entries p = MPPROC then entries (p + 3) :: procFlags entries n (p + MPPROC_SIZE)
    else if entries p = MPBUS ∨ entries p = MPIOAPIC ∨ entries p = MPIOINTR ∨
      entries p = MPLINTR then
      procFlags entries n (p + 8)
    else []

/-- The processors of the table. -/
def Mpconf.procs (conf : Mpconf) : List (BitVec 8) := procFlags conf.entries conf.entry.toNat 0

theorem mpEntries_eq (entries : ℕ → BitVec 8) (n p : ℕ) (s : MpState) :
    ∃ b, mpEntries entries n p s =
      { (procFlags entries n p).foldl MpState.proc s with ismp := b } := by
  induction n generalizing p s with
  | zero => exact ⟨s.ismp, rfl⟩
  | succ n ih =>
    unfold mpEntries procFlags
    split_ifs
    · exact ih _ _
    · exact ih _ _
    · exact ⟨false, rfl⟩

/-! ## The state after some processors -/

/-- What holds once the processors with the flags `l` have been seen. -/
structure ProcsSeen (l : List (BitVec 8)) (s : MpState) : Prop where
  ncpu : s.ncpu = min l.length NCPU
  ids : ∀ i < s.ncpu, (s.cpus i).cpuId = BitVec.ofNat 8 i
  first : (s.cpus 0).cpuId = 0
  written : ∀ i ∈ s.written, i < NCPU
  bootcpu : s.bootcpu < NCPU ↔ ∀ f ∈ l.drop NCPU, f &&& MPPROC_BOOT = 0#8

variable {l : List (BitVec 8)} {s : MpState}

theorem ProcsSeen.room (h : ProcsSeen l s) : s.ncpu < NCPU ↔ l.length < NCPU := by
  rw [h.ncpu, min_lt_iff]
  simp

theorem ProcsSeen.boot (h : ProcsSeen l s) (f : BitVec 8) :
    (if f &&& MPPROC_BOOT ≠ 0#8 then s.ncpu else s.bootcpu) < NCPU ↔
      ∀ g ∈ (l ++ [f]).drop NCPU, g &&& MPPROC_BOOT = 0#8 := by
  by_cases hfull : l.length < NCPU
  · have hnil : (l ++ [f]).drop NCPU = [] := by
      rw [List.drop_eq_nil_iff, List.length_append, List.length_singleton]
      omega
    have hold : s.bootcpu < NCPU := by
      rw [h.bootcpu, List.drop_eq_nil_of_le hfull.le]
      exact fun _ hg => absurd hg List.not_mem_nil
    rw [hnil]
    refine iff_of_true ?_ fun _ hg => absurd hg List.not_mem_nil
    split_ifs
    · exact h.room.2 hfull
    · exact hold
  · have hdrop : (l ++ [f]).drop NCPU = l.drop NCPU ++ [f] :=
      List.drop_append_of_le_length (not_lt.1 hfull)
    rw [hdrop]
    by_cases hf : f &&& MPPROC_BOOT = 0#8
    · rw [if_neg (not_not.2 hf), h.bootcpu]
      refine ⟨fun hall g hg => ?_, fun hall g hg => hall g (List.mem_append_left _ hg)⟩
      rcases List.mem_append.1 hg with hg | hg
      · exact hall g hg
      · rwa [List.mem_singleton.1 hg]
    · rw [if_pos hf]
      exact iff_of_false (fun hc => hfull (h.room.1 hc)) fun hall => hf (hall f (by simp))

theorem ProcsSeen.mark (h : ProcsSeen l s) (f : BitVec 8) :
    (s.mark f).ncpu = s.ncpu ∧ (s.mark f).cpus = s.cpus ∧ (s.mark f).written = s.written ∧
      ((s.mark f).bootcpu < NCPU ↔ ∀ g ∈ (l ++ [f]).drop NCPU, g &&& MPPROC_BOOT = 0#8) := by
  have hboot := h.boot f
  unfold MpState.mark
  by_cases hf : f &&& MPPROC_BOOT ≠ 0#8
  · rw [if_pos hf] at hboot ⊢
    exact ⟨rfl, rfl, rfl, hboot⟩
  · rw [if_neg hf] at hboot ⊢
    exact ⟨rfl, rfl, rfl, hboot⟩

/-- **One processor.** -/
theorem ProcsSeen.proc (h : ProcsSeen l s) (f : BitVec 8) : ProcsSeen (l ++ [f]) (s.proc f) := by
  obtain ⟨hncpu, hcpus, hwritten, hboot⟩ := h.mark f
  have hlen := h.ncpu
  unfold MpState.proc MpState.add
  rw [hncpu, hcpus, hwritten]
  by_cases hlt : s.ncpu < NCPU
  · rw [if_pos hlt]
    refine ⟨?_, fun i hi => ?_, ?_, fun i hi => ?_, hboot⟩
    · rw [List.length_append, List.length_singleton]
      dsimp only
      omega
    · dsimp only at hi ⊢
      by_cases hi' : i = s.ncpu
      · rw [hi', Function.update_self]
      · rw [Function.update_of_ne hi']
        exact h.ids i (by omega)
    · dsimp only
      by_cases hzero : 0 = s.ncpu
      · rw [← hzero, Function.update_self]
        rfl
      · rw [Function.update_of_ne hzero, h.first]
    · rcases List.mem_append.1 hi with hi | hi
      · exact h.written i hi
      · rwa [List.mem_singleton.1 hi]
  · rw [if_neg hlt]
    refine ⟨?_, fun i hi => ?_, ?_, fun i hi => ?_, hboot⟩
    · rw [hncpu, List.length_append, List.length_singleton]
      omega
    · rw [hcpus]
      exact h.ids i (hncpu ▸ hi)
    · rw [hcpus, h.first]
    · exact h.written i (hwritten ▸ hi)

theorem ProcsSeen.foldl (h : ProcsSeen l s) (more : List (BitVec 8)) :
    ProcsSeen (l ++ more) (more.foldl MpState.proc s) := by
  induction more generalizing l s with
  | nil =>
    rw [List.append_nil]
    exact h
  | cons f more ih =>
    rw [List.foldl_cons, show l ++ f :: more = (l ++ [f]) ++ more by simp]
    exact ih (h.proc f)

/-! ## The result -/

/-- What is promised for any number of processors. -/
structure MpSafe (s : MpState) : Prop where
  ncpu : s.ncpu ≤ NCPU
  ids : ∀ i < s.ncpu, (s.cpus i).cpuId = BitVec.ofNat 8 i
  bootcpu : s.bootcpu < NCPU
  written : ∀ i ∈ s.written, i < NCPU

theorem cpuId_start (s : MpState) (i : ℕ) : (s.start.cpus i).cpuId = (s.cpus i).cpuId := by
  by_cases hi : i = s.bootcpu
  · simp [MpState.start, hi]
  · simp [MpState.start, Function.update_of_ne hi]

/-- The end of `mp_init` keeps the ids; there is one processor if the table has an unknown entry. -/
theorem mpInit_end (conf : Mpconf) : ∃ s, ProcsSeen conf.procs s ∧
    (mpInit (some conf)).bootcpu = s.bootcpu ∧
    (mpInit (some conf)).written = s.written ++ [s.bootcpu] ∧
    (∀ i, ((mpInit (some conf)).cpus i).cpuId = (s.cpus i).cpuId) ∧
    ((mpInit (some conf)).ncpu = s.ncpu ∨ (mpInit (some conf)).ncpu = 1) := by
  have hinit : ProcsSeen [] ({ ismp := true, lapic := conf.lapicaddr } : MpState) :=
    ⟨rfl, fun i hi => absurd hi (Nat.not_lt_zero i), rfl, fun i hi => absurd hi List.not_mem_nil,
      iff_of_true (Nat.zero_lt_succ 7) fun _ hf => absurd hf List.not_mem_nil⟩
  obtain ⟨b, hloop⟩ := mpEntries_eq conf.entries conf.entry.toNat 0
    ({ ismp := true, lapic := conf.lapicaddr } : MpState)
  refine ⟨_, hinit.foldl conf.procs, ?_⟩
  unfold mpInit
  dsimp only
  rw [hloop]
  unfold Mpconf.procs
  generalize (procFlags conf.entries conf.entry.toNat 0).foldl MpState.proc
    ({ ismp := true, lapic := conf.lapicaddr } : MpState) = s
  have hids := cpuId_start { s with ismp := b }
  split_ifs
  · exact ⟨rfl, rfl, hids, .inr rfl⟩
  · exact ⟨rfl, rfl, hids, .inl rfl⟩
  · exact ⟨rfl, rfl, hids, .inl rfl⟩

/-- **`mp_init` is safe exactly if no processor behind the first `NCPU` is marked as the boot
processor.** -/
theorem mp_init_safe_iff (conf : Mpconf) :
    MpSafe (mpInit (some conf)) ↔ ∀ f ∈ conf.procs.drop NCPU, f &&& MPPROC_BOOT = 0#8 := by
  obtain ⟨s, h, hboot, hwritten, hids, hncpu⟩ := mpInit_end conf
  have hle : s.ncpu ≤ NCPU := by
    rw [h.ncpu]
    exact min_le_right _ _
  rw [← h.bootcpu]
  constructor
  · intro hsafe
    exact hboot ▸ hsafe.bootcpu
  · intro hlt
    refine ⟨?_, fun i hi => ?_, hboot ▸ hlt, fun i hi => ?_⟩
    · rcases hncpu with heq | heq
      · rwa [heq]
      · rw [heq]
        decide
    · rw [hids]
      rcases hncpu with heq | heq
      · exact h.ids i (heq ▸ hi)
      · obtain rfl : i = 0 := by omega
        rw [h.first]
        rfl
    · rw [hwritten] at hi
      rcases List.mem_append.1 hi with hi | hi
      · exact h.written i hi
      · rwa [List.mem_singleton.1 hi]

/-- Nine processors, the last of them the boot processor. -/
def nineProcs : Mpconf where
  lapicaddr := 0xFEE00000#32
  entry := 9#16
  entries := fun p => if p = 163 then MPPROC_BOOT else 0#8
  imcrp := 0#8

theorem mp_init_writes_behind : (mpInit (some nineProcs)).bootcpu = NCPU ∧
    (mpInit (some nineProcs)).written = [0, 1, 2, 3, 4, 5, 6, 7, 8] ∧
    ¬ MpSafe (mpInit (some nineProcs)) := by
  have hboot : (mpInit (some nineProcs)).bootcpu = NCPU := by rfl
  refine ⟨hboot, by rfl, fun h => ?_⟩
  have hlt := h.bootcpu
  rw [hboot] at hlt
  exact lt_irrefl _ hlt

end Jos
