import Jos.Lib.SpinLock
import Jos.Smp

/-!
# The big kernel lock

`Jos.Smp` takes a kernel entry as one step that happens when no CPU has the lock. Here the lock is
there: `kernel_lock` is a word and the CPU that holds it, and `spin_lock` and `spin_unlock` run step
by step on every CPU, in any order (`Lib.SpinLock`).

**A CPU** is in user mode or still booting until it calls `lock_kernel`, with something to do
(`Job`): the trap that brought it into the kernel, or its first `sched_yield`. With the lock it does
its job (`work`). Most jobs end in `env_run`, which calls `unlock_kernel`, loads the page directory
and returns to user mode. Some end in the monitor, which keeps the lock for good (no command of it
returns), and some in a panic, after which this CPU does nothing and the others halt when they enter
the kernel.

The source calls `lock_kernel` in `trap`, `i386_init` and `mp_main`, and `unlock_kernel` in
`env_run`, and nowhere else. `Jos.trap` and `Jos.envRun` are these functions without the two calls:
the machine makes them, the first in `act` before a job and the second at the end of `workStep`.

**The history** of a CPU (`log`) records its entries and exits and the two exchanges of the lock
word.

**Theorem (`lock_balanced`).** In every state the machine reaches, at most one CPU is between
acquiring and releasing the lock, both tests of the lock's code pass, and the history of each CPU
consists of whole rounds (enter, acquire, release, leave) and the beginning of one.

**Theorem (`smp_run`).** What this machine does to the kernel, the machine of `Jos.Smp` does. So its
entries may be taken as single steps.
-/

namespace Jos

open Lib

/-! ## The machine -/

/-- What a CPU needs the lock for. -/
inductive Job
  | init
  | trap (tf : Trapframe) (cr2 input : Word)

/-- The events of a CPU's history. -/
inductive KernEvent
  | enter
  | acquire
  | release
  | leave
  deriving DecidableEq

/-- The kernel with its lock. -/
structure Bkl where
  smp : Smp
  lock : SpinLock Cpu
  job : Cpu → Option Job
  stopped : Cpu → Bool
  panicstr : Bool
  log : Cpu → List KernEvent

inductive BklAct
  | create (type : EnvType) (eip : Word)
  | region (e : EnvIdx) (va : Word) (contents : Idx → Word)
  | boot (c : Cpu)
  | trap (c : Cpu) (tf : Trapframe) (cr2 input : Word)
  | spin (c : Cpu)
  | work (c : Cpu)
  | lcr3 (c : Cpu)
  | iret (c : Cpu)
  | store (c : Cpu) (va : Word) (b : BitVec 8)
  | touch (c : Cpu) (va : Word) (dirty : Bool)

/-- The CPU that acts. -/
def BklAct.cpu : BklAct → Cpu
  | .create _ _ => 0
  | .region _ _ _ => 0
  | .boot c => c
  | .trap c _ _ _ => c
  | .spin c => c
  | .work c => c
  | .lcr3 c => c
  | .iret c => c
  | .store c _ _ => c
  | .touch c _ _ => c

namespace Bkl

def event (s : Bkl) (c : Cpu) (ev : KernEvent) : Bkl :=
  { s with log := Function.update s.log c (s.log c ++ [ev]) }

/-- `panic` on CPU `c`. -/
def panic (s : Bkl) (c : Cpu) : Bkl :=
  { s with stopped := Function.update s.stopped c true, panicstr := true }

/-- CPU `c` calls `lock_kernel`. -/
def lockKernel (s : Bkl) (c : Cpu) (j : Job) : Bkl :=
  { s with lock := s.lock.go c, job := Function.update s.job c (some j) }

/-- CPU 0 is in `i386_init`, with the lock. -/
def InInit (s : Bkl) : Prop := s.smp.phase 0 = .boot ∧ s.lock.pos 0 = .held

instance (s : Bkl) : Decidable s.InInit := by unfold InInit; infer_instance

/-- Where the kernel entry ends: the body of `trap` between `lock_kernel` and `env_run`, or the
first `sched_yield`. -/
def exit (s : Bkl) (c : Cpu) : Job → Exit
  | .init => schedYield s.smp.k c
  | .trap tf cr2 input => Jos.trap s.smp.k c tf cr2 input

/-- A step in the code of `spin_lock` or `spin_unlock`. -/
def spinStep (s : Bkl) (c : Cpu) : Option Bkl :=
  match s.lock.pos c with
  | .out | .held | .failed => none
  | .spin =>
    let s' := { s with lock := s.lock.go c }
    some (if s.lock.locked then s' else s'.event c .acquire)
  | .release =>
    some ({ s with
      lock := s.lock.go c, smp := s.smp.setPhase c .switching s.smp.k }.event c .release)
  | .lock | .record | .unlock | .clear =>
    let s' := { s with lock := s.lock.go c }
    some (if s'.lock.pos c = .failed then s'.panic c else s')

/-- The kernel entry, with the lock. `env_run` goes on to `unlock_kernel`: this is where the model
calls it. -/
def workStep (s : Bkl) (c : Cpu) (j : Job) : Bkl :=
  match s.smp.finish c (s.exit c j) with
  | none => s.panic c
  | some m =>
    { s with
      smp := m
      job := Function.update s.job c none
      lock := if m.phase c = .running then s.lock.go c else s.lock }

/-- What a CPU that has not stopped does. -/
def act (s : Bkl) : BklAct → Option Bkl
  | .create type eip =>
    if s.InInit then (envCreate s.smp.k type eip).map fun k => { s with smp.k := k } else none
  | .region e va contents =>
    if s.InInit ∧ va < UTOP then
      (regionPage s.smp.k e va contents).map fun k => { s with smp.k := k }
    else none
  | .boot c =>
    -- the other CPUs are started by CPU 0, which has the lock then
    if s.smp.phase c = .boot ∧ (s.job c).isNone ∧ (c = 0 ∨ s.lock.pos 0 = .held ∨
        s.smp.phase 0 ≠ .boot) then
      some ((s.lockKernel c .init).event c .enter)
    else none
  | .trap c tf cr2 input =>
    if s.smp.phase c = .user ∧ (s.job c).isNone ∧ tf.tfCs &&& 3 = 3 then
      if s.panicstr then
        some ({ s with stopped := Function.update s.stopped c true
                       job := Function.update s.job c (some (.trap tf cr2 input)) }.event c .enter)
      else some ((s.lockKernel c (.trap tf cr2 input)).event c .enter)
    else none
  | .spin c => s.spinStep c
  | .work c => if s.lock.pos c = .held then (s.job c).map (s.workStep c) else none
  | .lcr3 c =>
    if s.smp.phase c = .switching then
      some (match lcr3Curenv s.smp.k c with
        | .ok k => { s with smp := s.smp.setPhase c .loaded k }
        | .error _ => s.panic c)
    else none
  | .iret c =>
    if s.smp.phase c = .loaded then
      some ({ s with smp := s.smp.setPhase c .user (envPopTf s.smp.k c) }.event c .leave)
    else none
  | .store c va b =>
    if (s.job c).isNone then (s.smp.step (.store c va b)).map fun m => { s with smp := m } else none
  | .touch c va dirty =>
    if (s.job c).isNone then (s.smp.step (.touch c va dirty)).map fun m => { s with smp := m }
    else none

/-- One step. -/
def step (s : Bkl) (a : BklAct) : Option Bkl := if s.stopped a.cpu then none else s.act a

/-- The machine when `i386_init` is about to take the lock. -/
structure Starts (s : Bkl) : Prop where
  phase : ∀ c, s.smp.phase c = .boot
  lock : s.lock = ⟨false, none, fun _ => .out⟩
  job : ∀ c, s.job c = none
  stopped : ∀ c, s.stopped c = false
  panicstr : s.panicstr = false
  log : ∀ c, s.log c = []

end Bkl

/-! ## The property -/

/-- One round of a CPU through the kernel. -/
def round : List KernEvent := [.enter, .acquire, .release, .leave]

/-- Whole rounds, and a part of one. -/
def Rounds (log rest : List KernEvent) : Prop :=
  ∃ n, log = (List.replicate n round).flatten ++ rest

/-- The CPU is between acquiring and releasing the lock. -/
def Bkl.Holds (s : Bkl) (c : Cpu) : Prop := (s.log c).getLast? = some .acquire

/-- **The lock is balanced.** -/
structure LockBalanced (s : Bkl) : Prop where
  mutex : ∀ c c', s.Holds c → s.Holds c' → c = c'
  lock_call : ∀ c, s.lock.pos c = .lock → ¬ s.Holds c ∧ ¬ s.lock.Holding c
  unlock_call : ∀ c, s.lock.pos c = .unlock → s.Holds c ∧ s.lock.Holding c
  tests : ∀ c, s.lock.pos c ≠ .failed
  rounds : ∀ c, ∃ rest, rest <+: [.enter, .acquire, .release] ∧ Rounds (s.log c) rest
  user : ∀ c, s.smp.phase c = .user → s.job c = none → Rounds (s.log c) []

/-! ## The invariant -/

/-- The job of a CPU fits its phase. -/
def JobFits (p : CpuPhase) (j : Job) : Prop :=
  p = .boot ∧ j = .init ∨ p = .user ∧ ∃ tf cr2 input, j = .trap tf cr2 input ∧ tf.tfCs &&& 3 = 3

/-- What a CPU is doing, and which part of its round is over. -/
inductive CpuAt : CpuPhase → Option Job → LockPos → List KernEvent → Prop
  | outside {p : CpuPhase} (hp : p = .boot ∨ p = .user) : CpuAt p none .out []
  | halted {j : Job} : CpuAt .user (some j) .out [.enter]
  | waiting {p : CpuPhase} {j : Job} {pos : LockPos} (hj : JobFits p j)
      (hpos : pos = .lock ∨ pos = .spin) : CpuAt p (some j) pos [.enter]
  | inside {p : CpuPhase} {j : Job} {pos : LockPos} (hj : JobFits p j)
      (hpos : pos = .record ∨ pos = .held) : CpuAt p (some j) pos [.enter, .acquire]
  | leaving {pos : LockPos} (hpos : pos = .unlock ∨ pos = .clear ∨ pos = .release) :
      CpuAt .running none pos [.enter, .acquire]
  | monitor : CpuAt .monitor none .held [.enter, .acquire]
  | switching {p : CpuPhase} (hp : p = .switching ∨ p = .loaded) :
      CpuAt p none .out [.enter, .acquire, .release]

structure BklInv (s : Bkl) : Prop where
  lock : s.lock.Inv
  cpu : ∀ c, ∃ rest, Rounds (s.log c) rest ∧ CpuAt (s.smp.phase c) (s.job c) (s.lock.pos c) rest
  booting : s.smp.phase 0 = .boot → ∀ c, s.smp.phase c = .boot
  started : ∀ c, c ≠ 0 → s.job c ≠ none → s.smp.phase 0 = .boot → s.lock.pos 0 = .held

variable {s s' : Bkl} {c : Cpu}

theorem Rounds.snoc {log rest : List KernEvent} (h : Rounds log rest) (ev : KernEvent) :
    Rounds (log ++ [ev]) (rest ++ [ev]) := by
  obtain ⟨n, rfl⟩ := h
  exact ⟨n, List.append_assoc _ _ _⟩

theorem Rounds.leave {log : List KernEvent} (h : Rounds log [.enter, .acquire, .release]) :
    Rounds (log ++ [.leave]) [] := by
  obtain ⟨n, rfl⟩ := h
  refine ⟨n + 1, ?_⟩
  rw [List.replicate_succ', List.flatten_append, List.append_assoc]
  simp [round]

theorem CpuAt.holds_iff {p : CpuPhase} {j : Option Job} {pos : LockPos} {log rest : List KernEvent}
    (h : CpuAt p j pos rest) (hlog : Rounds log rest) :
    log.getLast? = some .acquire ↔ pos.Critical := by
  obtain ⟨n, rfl⟩ := hlog
  cases h with
  | outside hp =>
    rw [List.append_nil]
    cases n with
    | zero => simp [LockPos.Critical]
    | succ n =>
      rw [List.replicate_succ', List.flatten_append]
      simp [round, LockPos.Critical]
  | halted => simp [LockPos.Critical]
  | waiting _ hpos => rcases hpos with rfl | rfl <;> simp [LockPos.Critical]
  | inside _ hpos => rcases hpos with rfl | rfl <;> simp [LockPos.Critical]
  | leaving hpos => rcases hpos with rfl | rfl | rfl <;> simp [LockPos.Critical]
  | monitor => simp [LockPos.Critical]
  | switching hp => simp [LockPos.Critical]

theorem CpuAt.is_prefix {p : CpuPhase} {j : Option Job} {pos : LockPos} {rest : List KernEvent}
    (h : CpuAt p j pos rest) : rest <+: [.enter, .acquire, .release] := by
  cases h with
  | outside _ => exact ⟨_, rfl⟩
  | halted => exact ⟨_, rfl⟩
  | waiting _ _ => exact ⟨_, rfl⟩
  | inside _ _ => exact ⟨_, rfl⟩
  | leaving _ => exact ⟨_, rfl⟩
  | monitor => exact ⟨_, rfl⟩
  | switching _ => exact ⟨_, rfl⟩

theorem CpuAt.of_no_job {p : CpuPhase} {pos : LockPos} {rest : List KernEvent}
    (h : CpuAt p none pos rest) (hp : p = .boot ∨ p = .user) : pos = .out ∧ rest = [] := by
  cases h with
  | outside _ => exact ⟨rfl, rfl⟩
  | leaving _ => rcases hp with hp | hp <;> cases hp
  | monitor => rcases hp with hp | hp <;> cases hp
  | switching hp' => rcases hp with rfl | rfl <;> rcases hp' with hp' | hp' <;> cases hp'

/-- What the position in the lock's code says. -/
def AtPos (p : CpuPhase) (j : Option Job) (rest : List KernEvent) : LockPos → Prop
  | .out => True
  | .lock | .spin => ∃ j', j = some j' ∧ JobFits p j' ∧ rest = [.enter]
  | .record => ∃ j', j = some j' ∧ JobFits p j' ∧ rest = [.enter, .acquire]
  | .held => ∀ j', j = some j' → JobFits p j' ∧ rest = [.enter, .acquire]
  | .unlock | .clear | .release => p = .running ∧ j = none ∧ rest = [.enter, .acquire]
  | .failed => False

theorem CpuAt.atPos {p : CpuPhase} {j : Option Job} {pos : LockPos} {rest : List KernEvent}
    (h : CpuAt p j pos rest) : AtPos p j rest pos := by
  cases h with
  | outside _ => trivial
  | halted => trivial
  | waiting hj hpos => rcases hpos with rfl | rfl <;> exact ⟨_, rfl, hj, rfl⟩
  | inside hj hpos =>
    rcases hpos with rfl | rfl
    · exact ⟨_, rfl, hj, rfl⟩
    · rintro j' hj'
      cases hj'
      exact ⟨hj, rfl⟩
  | leaving hpos => rcases hpos with rfl | rfl | rfl <;> exact ⟨rfl, rfl, rfl⟩
  | monitor => exact nofun
  | switching _ => trivial

theorem BklInv.holds_iff (h : BklInv s) (c : Cpu) : s.Holds c ↔ (s.lock.pos c).Critical := by
  obtain ⟨rest, hlog, hat⟩ := h.cpu c
  exact hat.holds_iff hlog

theorem BklInv.balanced (h : BklInv s) : LockBalanced s where
  mutex c c' hc hc' := h.lock.unique ((h.holds_iff c).1 hc) ((h.holds_iff c').1 hc')
  lock_call c hc := by
    rw [h.holds_iff, h.lock.holding_iff, hc]
    exact ⟨id, id⟩
  unlock_call c hc := by
    rw [h.holds_iff, h.lock.holding_iff, hc]
    exact ⟨trivial, trivial⟩
  tests := h.lock.not_failed
  rounds c := by
    obtain ⟨rest, hlog, hat⟩ := h.cpu c
    exact ⟨rest, hat.is_prefix, hlog⟩
  user c hp hj := by
    obtain ⟨rest, hlog, hat⟩ := h.cpu c
    rw [hj] at hat
    rw [← (hat.of_no_job (.inr hp)).2]
    exact hlog

theorem BklInv.start (h : s.Starts) : BklInv s where
  lock := by
    rw [h.lock]
    exact .free rfl rfl fun c => ⟨id, nofun⟩
  cpu c := by
    rw [h.log, h.phase, h.job, h.lock]
    exact ⟨[], ⟨0, rfl⟩, .outside (.inl rfl)⟩
  booting _ := h.phase
  started c _ hj := (hj (h.job c)).elim

/-! ## One step -/

/-- A step of CPU `c`: what it has to keep. -/
theorem BklInv.update (h : BklInv s) (c : Cpu)
    (hlock : s'.lock = s.lock ∨ s'.lock = s.lock.go c)
    (hother : ∀ c', c' ≠ c → s'.smp.phase c' = s.smp.phase c' ∧ s'.job c' = s.job c' ∧
      s'.log c' = s.log c')
    (hat : ∃ rest, Rounds (s'.log c) rest ∧
      CpuAt (s'.smp.phase c) (s'.job c) (s'.lock.pos c) rest)
    (hback : s'.smp.phase c = .boot → s.smp.phase c = .boot)
    (hboot : c ≠ 0 → s.smp.phase 0 = .boot → s'.smp.phase c = .boot)
    (hstart : c ≠ 0 → s.job c = none → s'.job c ≠ none → s.smp.phase 0 = .boot →
      s.lock.pos 0 = .held)
    (hheld : c = 0 → s.lock.pos 0 = .held → s'.smp.phase 0 = .boot → s'.lock.pos 0 = .held) :
    BklInv s' := by
  have hpos : ∀ c', c' ≠ c → s'.lock.pos c' = s.lock.pos c' := by
    intro c' hc'
    rcases hlock with hl | hl
    · rw [hl]
    · rw [hl]
      exact SpinLock.pos_go_of_ne hc' s.lock
  have h0 : s'.smp.phase 0 = .boot → s.smp.phase 0 = .boot := by
    intro hb
    by_cases hc : 0 = c
    · subst hc
      exact hback hb
    · rw [← (hother 0 hc).1]
      exact hb
  refine ⟨?_, fun c' => ?_, fun hb c' => ?_, fun c' hc' hj hb => ?_⟩
  · rcases hlock with hl | hl
    · rw [hl]
      exact h.lock
    · rw [hl]
      exact h.lock.go c
  · by_cases hc : c' = c
    · subst hc
      exact hat
    · obtain ⟨hp, hj, hl⟩ := hother c' hc
      rw [hp, hj, hl, hpos c' hc]
      exact h.cpu c'
  · by_cases hc : c' = c
    · subst hc
      by_cases hz : c' = 0
      · subst hz
        exact hb
      · exact hboot hz (h0 hb)
    · rw [(hother c' hc).1]
      exact h.booting (h0 hb) c'
  · -- a CPU other than 0 has something to do, so CPU 0 has the lock or had it
    have hprev : s.lock.pos 0 = .held := by
      by_cases hc : c' = c
      · subst hc
        by_cases hn : s.job c' = none
        · exact hstart hc' hn hj (h0 hb)
        · exact h.started c' hc' hn (h0 hb)
      · rw [(hother c' hc).2.1] at hj
        exact h.started c' hc' hj (h0 hb)
    by_cases hc : 0 = c
    · exact hheld hc.symm hprev hb
    · rw [hpos 0 hc]
      exact hprev

theorem BklInv.congr (h : BklInv s) (hlock : s'.lock = s.lock) (hphase : s'.smp.phase = s.smp.phase)
    (hjob : s'.job = s.job) (hlog : s'.log = s.log) : BklInv s' := by
  obtain ⟨hl, hcpu, hb, hst⟩ := h
  refine ⟨hlock ▸ hl, fun c => ?_, ?_, ?_⟩
  · rw [hlock, hphase, hjob, hlog]
    exact hcpu c
  · rw [hphase]
    exact hb
  · rw [hlock, hphase, hjob]
    exact hst

theorem BklInv.lockKernel (h : BklInv s) {j : Job} (hnone : s.job c = none)
    (hj : JobFits (s.smp.phase c) j)
    (hstart : c = 0 ∨ s.lock.pos 0 = .held ∨ s.smp.phase 0 ≠ .boot) :
    BklInv ((s.lockKernel c j).event c .enter) := by
  obtain ⟨rest, hlog, hat⟩ := h.cpu c
  rw [hnone] at hat
  have hout : s.lock.pos c = .out ∧ rest = [] := hat.of_no_job (by
    rcases hj with ⟨hp, -⟩ | ⟨hp, -⟩
    · exact .inl hp
    · exact .inr hp)
  obtain ⟨hpos, rfl⟩ := hout
  refine h.update c (.inr rfl)
    (fun c' hc => ⟨rfl, Function.update_of_ne hc .., Function.update_of_ne hc ..⟩)
    ⟨[.enter], ?_, ?_⟩ id (fun _ hb => ?_) (fun hc _ _ hb => ?_) (fun hc hheld => ?_)
  · rw [show ((s.lockKernel c j).event c .enter).log c = s.log c ++ [.enter] from
      Function.update_self ..]
    exact hlog.snoc .enter
  · have hpos' : ((s.lockKernel c j).event c .enter).lock.pos c = .lock := by
      change (s.lock.go c).pos c = .lock
      rw [SpinLock.pos_go_self, hpos]
    rw [hpos', show ((s.lockKernel c j).event c .enter).job c = some j from
      Function.update_self ..]
    exact .waiting hj (.inl rfl)
  · exact h.booting hb c
  · exact (hstart.resolve_left hc).resolve_right fun hn => hn hb
  · subst hc
    rw [hpos] at hheld
    cases hheld

theorem BklInv.spin_go (h : BklInv s) {log : List KernEvent} (hne : s.lock.pos c ≠ .held)
    (hlog : s'.log = Function.update s.log c log) (hlock : s'.lock = s.lock.go c)
    (hphase : s'.smp.phase = s.smp.phase) (hjob : s'.job = s.job)
    (hat : ∃ rest, Rounds log rest ∧
      CpuAt (s.smp.phase c) (s.job c) ((s.lock.go c).pos c) rest) : BklInv s' := by
  refine h.update c (.inr hlock) (fun c' hc => ⟨by rw [hphase], by rw [hjob], ?_⟩) ?_ ?_ ?_ ?_ ?_
  · rw [hlog, Function.update_of_ne hc]
  · rw [hlog, Function.update_self, hphase, hjob, hlock]
    exact hat
  · rw [hphase]
    exact id
  · rw [hphase]
    exact fun _ hb => h.booting hb c
  · rw [hjob]
    exact fun _ hn hs => (hs hn).elim
  · intro hc hheld
    subst hc
    exact (hne hheld).elim

/-- **The lock's code.** -/
theorem BklInv.spinStep (h : BklInv s) (hstep : s.spinStep c = some s') : BklInv s' := by
  obtain ⟨rest, hlog, hat⟩ := h.cpu c
  have hgo := SpinLock.pos_go_self s.lock c
  have hinv := hat.atPos
  have hhold := h.lock.holding_iff (c := c)
  have hupd : s.log = Function.update s.log c (s.log c) := (Function.update_eq_self c s.log).symm
  unfold Bkl.spinStep at hstep
  cases hp : s.lock.pos c with
  | out => simp [hp] at hstep
  | held => simp [hp] at hstep
  | failed => simp [hp] at hstep
  | lock =>
    have hno : ¬ s.lock.Holding c := by simp [hhold, hp, LockPos.Owns]
    simp only [hp, if_neg hno] at hstep hgo
    rw [hp] at hinv
    obtain ⟨j, hj, hfit, rfl⟩ := hinv
    rw [if_neg (by simp [hgo]), Option.some.injEq] at hstep
    subst hstep
    refine h.spin_go (by simp [hp]) hupd rfl rfl rfl ⟨_, hlog, ?_⟩
    rw [hgo, hj]
    exact .waiting hfit (.inr rfl)
  | spin =>
    simp only [hp, Option.some.injEq] at hstep hgo
    rw [hp] at hinv
    obtain ⟨j, hj, hfit, rfl⟩ := hinv
    subst hstep
    cases hl : s.lock.locked with
    | true =>
      refine h.spin_go (by simp [hp]) hupd rfl rfl rfl ⟨_, hlog, ?_⟩
      rw [hgo, hj, hl]
      exact .waiting hfit (.inr rfl)
    | false =>
      refine h.spin_go (by simp [hp]) rfl rfl rfl rfl ⟨_, hlog.snoc .acquire, ?_⟩
      rw [hgo, hj, hl]
      exact .inside hfit (.inl rfl)
  | record =>
    simp only [hp] at hstep hgo
    rw [hp] at hinv
    obtain ⟨j, hj, hfit, rfl⟩ := hinv
    rw [if_neg (by simp [hgo]), Option.some.injEq] at hstep
    subst hstep
    refine h.spin_go (by simp [hp]) hupd rfl rfl rfl ⟨_, hlog, ?_⟩
    rw [hgo, hj]
    exact .inside hfit (.inr rfl)
  | unlock =>
    have hown : s.lock.Holding c := by simp [hhold, hp, LockPos.Owns]
    simp only [hp, if_pos hown] at hstep hgo
    rw [hp] at hinv
    obtain ⟨hph, hj, rfl⟩ := hinv
    rw [if_neg (by simp [hgo]), Option.some.injEq] at hstep
    subst hstep
    refine h.spin_go (by simp [hp]) hupd rfl rfl rfl ⟨_, hlog, ?_⟩
    rw [hgo, hj, hph]
    exact .leaving (.inr (.inl rfl))
  | clear =>
    simp only [hp] at hstep hgo
    rw [hp] at hinv
    obtain ⟨hph, hj, rfl⟩ := hinv
    rw [if_neg (by simp [hgo]), Option.some.injEq] at hstep
    subst hstep
    refine h.spin_go (by simp [hp]) hupd rfl rfl rfl ⟨_, hlog, ?_⟩
    rw [hgo, hj, hph]
    exact .leaving (.inr (.inr rfl))
  | release =>
    simp only [hp, Option.some.injEq] at hstep hgo
    rw [hp] at hinv
    obtain ⟨hph, hj, rfl⟩ := hinv
    subst hstep
    refine h.update c (.inr rfl)
      (fun c' hc => ⟨Function.update_of_ne hc .., rfl, Function.update_of_ne hc ..⟩)
      ⟨[.enter, .acquire, .release], ?_, ?_⟩ ?_ ?_ (fun _ hn hs => (hs hn).elim) ?_
    · simpa [Bkl.event] using hlog.snoc .release
    · simp only [Bkl.event, Smp.setPhase, Function.update_self, hgo, hj]
      exact .switching (.inl rfl)
    · simp [Bkl.event, Smp.setPhase]
    · intro _ hb
      rw [h.booting hb c] at hph
      cases hph
    · intro hc hheld
      subst hc
      rw [hp] at hheld
      cases hheld

theorem BklInv.job_fits (h : BklInv s) {j : Job} (hpos : s.lock.pos c = .held)
    (hj : s.job c = some j) :
    JobFits (s.smp.phase c) j ∧ Rounds (s.log c) [.enter, .acquire] ∧
      (c ≠ 0 → s.smp.phase 0 ≠ .boot) := by
  obtain ⟨rest, hlog, hat⟩ := h.cpu c
  have hinv := hat.atPos
  rw [hpos] at hinv
  obtain ⟨hfit, rfl⟩ := hinv j hj
  refine ⟨hfit, hlog, fun hc hb => hc ?_⟩
  have hheld := h.started c hc (by simp [hj]) hb
  exact h.lock.unique (by rw [hpos]; trivial) (by rw [hheld]; trivial)

theorem BklInv.panic (h : BklInv s) (c : Cpu) : BklInv (s.panic c) := h.congr rfl rfl rfl rfl

/-- **The kernel entry.** -/
theorem BklInv.workStep (h : BklInv s) {j : Job} (hpos : s.lock.pos c = .held)
    (hj : s.job c = some j) : BklInv (s.workStep c j) := by
  obtain ⟨hfit, hlog, hboot⟩ := h.job_fits hpos hj
  unfold Bkl.workStep
  cases hexit : s.exit c j with
  | panic msg => exact h.panic c
  | run k e =>
    simp only [Smp.finish, Smp.setPhase, Function.update_self, if_true]
    refine h.update c (.inr rfl)
      (fun c' hc => ⟨Function.update_of_ne hc .., Function.update_of_ne hc .., rfl⟩)
      ⟨_, hlog, ?_⟩ ?_ (fun hc hb => (hboot hc hb).elim) ?_ ?_
    · simp only [Function.update_self, SpinLock.pos_go_self, hpos]
      exact .leaving (.inl rfl)
    · simp
    · simp
    · intro hc
      subst hc
      simp
  | monitor k =>
    simp only [Smp.finish, Smp.setPhase, Function.update_self]
    rw [if_neg (by decide)]
    refine h.update c (.inl rfl)
      (fun c' hc => ⟨Function.update_of_ne hc .., Function.update_of_ne hc .., rfl⟩)
      ⟨_, hlog, ?_⟩ ?_ (fun hc hb => (hboot hc hb).elim) ?_ (fun _ hheld _ => hheld)
    · simp only [Function.update_self, hpos]
      exact .monitor
    · simp
    · simp

theorem BklInv.setPhase (h : BklInv s) {p : CpuPhase} {k : Kernel} {log : List KernEvent}
    (hsmp : s'.smp = s.smp.setPhase c p k) (hlock : s'.lock = s.lock) (hjob : s'.job = s.job)
    (hlog : s'.log = Function.update s.log c log)
    (hold : s.smp.phase c ≠ .boot) (hnew : p ≠ .boot)
    (hat : ∃ rest, Rounds log rest ∧ CpuAt p (s.job c) (s.lock.pos c) rest) : BklInv s' := by
  have hphase : s'.smp.phase c = p := by
    rw [hsmp]
    exact Function.update_self ..
  refine h.update c (.inl hlock) (fun c' hc => ⟨?_, by rw [hjob], ?_⟩) ?_ ?_ ?_ ?_ ?_
  · rw [hsmp]
    exact Function.update_of_ne hc ..
  · rw [hlog, Function.update_of_ne hc]
  · rw [hlog, Function.update_self, hphase, hjob, hlock]
    exact hat
  · rw [hphase]
    exact fun hb => (hnew hb).elim
  · exact fun _ hb => (hold (h.booting hb c)).elim
  · rw [hjob]
    exact fun _ hn hs => (hs hn).elim
  · rw [hlock]
    exact fun _ hheld _ => hheld

/-- A CPU that has released the lock and is not back yet. -/
theorem BklInv.at_switching (h : BklInv s)
    (hp : s.smp.phase c = .switching ∨ s.smp.phase c = .loaded) :
    s.job c = none ∧ s.lock.pos c = .out ∧ Rounds (s.log c) [.enter, .acquire, .release] := by
  obtain ⟨rest, hlog, hat⟩ := h.cpu c
  generalize s.smp.phase c = p, s.job c = j, s.lock.pos c = pos at hat hp ⊢
  cases hat with
  | switching _ => exact ⟨rfl, rfl, hlog⟩
  | outside hp' => rcases hp with rfl | rfl <;> rcases hp' with hp' | hp' <;> cases hp'
  | halted => rcases hp with hp | hp <;> cases hp
  | waiting hj _ => rcases hp with rfl | rfl <;> rcases hj with ⟨hj, -⟩ | ⟨hj, -⟩ <;> cases hj
  | inside hj _ => rcases hp with rfl | rfl <;> rcases hj with ⟨hj, -⟩ | ⟨hj, -⟩ <;> cases hj
  | leaving _ => rcases hp with hp | hp <;> cases hp
  | monitor => rcases hp with hp | hp <;> cases hp

/-- `trap` finds that another CPU has panicked. -/
theorem BklInv.halt (h : BklInv s) {j : Job} (hp : s.smp.phase c = .user) (hnone : s.job c = none)
    (hlock : s'.lock = s.lock) (hsmp : s'.smp = s.smp)
    (hjob : s'.job = Function.update s.job c (some j))
    (hlog : s'.log = Function.update s.log c (s.log c ++ [.enter])) : BklInv s' := by
  obtain ⟨rest, hrounds, hat⟩ := h.cpu c
  rw [hnone] at hat
  obtain ⟨hpos, rfl⟩ := hat.of_no_job (.inr hp)
  have hnb : s.smp.phase 0 ≠ .boot := by
    intro hb
    rw [h.booting hb c] at hp
    cases hp
  refine h.update c (.inl hlock) (fun c' hc => ⟨by rw [hsmp], ?_, ?_⟩) ⟨[.enter], ?_, ?_⟩ ?_
    (fun _ hb => (hnb hb).elim) (fun _ _ _ hb => (hnb hb).elim) ?_
  · rw [hjob, Function.update_of_ne hc]
  · rw [hlog, Function.update_of_ne hc]
  · rw [hlog, Function.update_self]
    exact hrounds.snoc .enter
  · rw [hsmp, hjob, hlock, Function.update_self, hp, hpos]
    exact .halted
  · rw [hsmp]
    exact id
  · rw [hlock]
    exact fun _ hheld _ => hheld

theorem phase_user {m m' : Smp} {a : SmpAct} {c : Cpu} (h : m.step a = some m')
    (ha : (∃ va b, a = .store c va b) ∨ ∃ va dirty, a = .touch c va dirty) :
    m'.phase = m.phase := by
  rcases ha with ⟨va, b, rfl⟩ | ⟨va, dirty, rfl⟩
  · cases step_cases h with
    | store hphase hva hp => rfl
  · cases step_cases h with
    | touch hphase hva hp => rfl

/-- **One step keeps the invariant.** -/
theorem BklInv.act (h : BklInv s) {a : BklAct} (hstep : s.act a = some s') : BklInv s' := by
  cases a with
  | create type eip =>
    simp only [Bkl.act] at hstep
    split_ifs at hstep
    obtain ⟨k, -, rfl⟩ := Option.map_eq_some_iff.1 hstep
    exact h.congr rfl rfl rfl rfl
  | region e va contents =>
    simp only [Bkl.act] at hstep
    split_ifs at hstep
    obtain ⟨k, -, rfl⟩ := Option.map_eq_some_iff.1 hstep
    exact h.congr rfl rfl rfl rfl
  | boot c =>
    simp only [Bkl.act] at hstep
    split_ifs at hstep with hg
    obtain ⟨hp, hnone, hstart⟩ := hg
    rw [← Option.some.inj hstep]
    exact h.lockKernel (Option.isNone_iff_eq_none.1 hnone) (.inl ⟨hp, rfl⟩) hstart
  | trap c tf cr2 input =>
    simp only [Bkl.act] at hstep
    split_ifs at hstep with hg hpanic
    · obtain ⟨hp, hnone, -⟩ := hg
      rw [← Option.some.inj hstep]
      exact h.halt hp (Option.isNone_iff_eq_none.1 hnone) rfl rfl rfl rfl
    · obtain ⟨hp, hnone, hcs⟩ := hg
      rw [← Option.some.inj hstep]
      refine h.lockKernel (Option.isNone_iff_eq_none.1 hnone)
        (.inr ⟨hp, tf, cr2, input, rfl, hcs⟩) (.inr (.inr fun hb => ?_))
      rw [h.booting hb c] at hp
      cases hp
  | spin c => exact h.spinStep hstep
  | work c =>
    simp only [Bkl.act] at hstep
    split_ifs at hstep with hpos
    obtain ⟨j, hj, rfl⟩ := Option.map_eq_some_iff.1 hstep
    exact h.workStep hpos hj
  | lcr3 c =>
    simp only [Bkl.act] at hstep
    split_ifs at hstep with hp
    rw [← Option.some.inj hstep]
    obtain ⟨hj, hpos, hlog⟩ := h.at_switching (.inl hp)
    cases lcr3Curenv s.smp.k c with
    | error msg => exact h.panic c
    | ok k =>
      refine h.setPhase rfl rfl rfl (Function.update_eq_self c s.log).symm (by simp [hp])
        (by simp) ⟨_, hlog, ?_⟩
      rw [hj, hpos]
      exact .switching (.inr rfl)
  | iret c =>
    simp only [Bkl.act] at hstep
    split_ifs at hstep with hp
    rw [← Option.some.inj hstep]
    obtain ⟨hj, hpos, hlog⟩ := h.at_switching (.inr hp)
    refine h.setPhase rfl rfl rfl rfl (by simp [hp]) (by simp) ⟨_, hlog.leave, ?_⟩
    rw [hj, hpos]
    exact .outside (.inr rfl)
  | store c va b =>
    simp only [Bkl.act] at hstep
    split_ifs at hstep
    obtain ⟨m, hm, rfl⟩ := Option.map_eq_some_iff.1 hstep
    exact h.congr rfl (phase_user hm (.inl ⟨va, b, rfl⟩)) rfl rfl
  | touch c va dirty =>
    simp only [Bkl.act] at hstep
    split_ifs at hstep
    obtain ⟨m, hm, rfl⟩ := Option.map_eq_some_iff.1 hstep
    exact h.congr rfl (phase_user hm (.inr ⟨va, dirty, rfl⟩)) rfl rfl

theorem BklInv.step (h : BklInv s) {a : BklAct} (hstep : s.step a = some s') : BklInv s' := by
  unfold Bkl.step at hstep
  split_ifs at hstep
  exact h.act hstep

theorem BklInv.run (hs : s.Starts) {l : List BklAct} (hrun : Run Bkl.step s l s') : BklInv s' :=
  hrun.invariant (BklInv.start hs) fun _ _ _ h _ hstep => h.step hstep

/-! ## The results -/

/-- The lock as the boot loader leaves it. -/
def freshBkl : Bkl where
  smp := freshSmp
  lock := ⟨false, none, fun _ => .out⟩
  job := fun _ => none
  stopped := fun _ => false
  panicstr := false
  log := fun _ => []

theorem starts_freshBkl : freshBkl.Starts :=
  ⟨fun _ => rfl, rfl, fun _ => rfl, fun _ => rfl, rfl, fun _ => rfl⟩

/-- The code of `spin_lock`, if the lock is free, and that of `spin_unlock`. -/
def spins (c : Cpu) : List BklAct := [.spin c, .spin c, .spin c]

/-- CPU 1 waits while CPU 0 starts the program, gets the lock, and waits again while CPU 0 makes a
system call. -/
def contendActs : List BklAct :=
  .boot 0 :: spins 0 ++ List.replicate 8 (.create .IDLE 0x800020#32) ++
    [.create .USER 0x800020#32, .boot 1, .spin 1, .spin 1, .work 0, .spin 1] ++ spins 0 ++
    [.spin 1, .spin 1, .lcr3 0, .iret 0, .trap 0 (sysTf SYS_getenvid 0 0 0 0 0) 0 0, .spin 0,
      .spin 0, .work 1] ++ spins 1 ++ [.spin 0, .lcr3 1, .spin 0, .work 0]

theorem CpuAt.critical {p : CpuPhase} {j : Option Job} {pos : LockPos} {rest : List KernEvent}
    (h : CpuAt p j pos rest) (hp : p = .running ∨ p = .monitor) : j = none ∧ pos.Critical := by
  cases h with
  | outside hp' => rcases hp with rfl | rfl <;> rcases hp' with hp' | hp' <;> cases hp'
  | halted => rcases hp with hp | hp <;> cases hp
  | waiting hj _ => rcases hp with rfl | rfl <;> rcases hj with ⟨hj, -⟩ | ⟨hj, -⟩ <;> cases hj
  | inside hj _ => rcases hp with rfl | rfl <;> rcases hj with ⟨hj, -⟩ | ⟨hj, -⟩ <;> cases hj
  | leaving hpos => rcases hpos with rfl | rfl | rfl <;> exact ⟨rfl, trivial⟩
  | monitor => exact ⟨rfl, trivial⟩
  | switching hp' => rcases hp with rfl | rfl <;> rcases hp' with hp' | hp' <;> cases hp'

/-- While a CPU does its job, no other is leaving the kernel. -/
theorem BklInv.lockFree (h : BklInv s) {j : Job} (hpos : s.lock.pos c = .held)
    (hj : s.job c = some j) : s.smp.LockFree := by
  intro c'
  rw [← not_or]
  intro hp
  obtain ⟨rest, -, hat⟩ := h.cpu c'
  obtain ⟨hnone, hcrit⟩ := hat.critical hp
  have hc : c' = c := h.lock.unique hcrit (by rw [hpos]; trivial)
  rw [hc, hj] at hnone
  cases hnone

/-- **What a step does to the kernel** is a step of the machine whose entries are atomic, or
nothing. -/
theorem BklInv.smp_step (h : BklInv s) {a : BklAct} (hstep : s.act a = some s') :
    s'.smp = s.smp ∨ ∃ b, s.smp.step b = some s'.smp := by
  cases a with
  | create type eip =>
    simp only [Bkl.act] at hstep
    split_ifs at hstep with hg
    obtain ⟨k, hk, rfl⟩ := Option.map_eq_some_iff.1 hstep
    have hboot : s.smp.Booting := h.booting hg.1
    exact .inr ⟨_, (SmpStep.create hboot hk).step_eq⟩
  | region e va contents =>
    simp only [Bkl.act] at hstep
    split_ifs at hstep with hg
    obtain ⟨k, hk, rfl⟩ := Option.map_eq_some_iff.1 hstep
    have hboot : s.smp.Booting := h.booting hg.1.1
    exact .inr ⟨_, (SmpStep.region hboot hg.2 hk).step_eq⟩
  | boot c =>
    simp only [Bkl.act] at hstep
    split_ifs at hstep
    rw [← Option.some.inj hstep]
    exact .inl rfl
  | trap c tf cr2 input =>
    simp only [Bkl.act] at hstep
    split_ifs at hstep <;> rw [← Option.some.inj hstep] <;> exact .inl rfl
  | spin c =>
    obtain ⟨rest, -, hat⟩ := h.cpu c
    have hinv := hat.atPos
    simp only [Bkl.act, Bkl.spinStep] at hstep
    cases hp : s.lock.pos c with
    | release =>
      rw [hp] at hinv
      simp only [hp, Option.some.injEq] at hstep
      subst hstep
      exact .inr ⟨_, (SmpStep.unlock hinv.1).step_eq⟩
    | out => simp [hp] at hstep
    | held => simp [hp] at hstep
    | failed => simp [hp] at hstep
    | _ =>
      simp only [hp, Option.some.injEq] at hstep
      rw [← hstep]
      split_ifs <;> exact .inl rfl
  | work c =>
    simp only [Bkl.act] at hstep
    split_ifs at hstep with hpos
    obtain ⟨j, hj, rfl⟩ := Option.map_eq_some_iff.1 hstep
    obtain ⟨hfit, -, hboot⟩ := h.job_fits hpos hj
    have hfree := h.lockFree hpos hj
    unfold Bkl.workStep
    cases hfin : s.smp.finish c (s.exit c j) with
    | none => exact .inl rfl
    | some m =>
      rcases hfit with ⟨hp, rfl⟩ | ⟨hp, tf, cr2, input, rfl, hcs⟩
      · have hstart : c = 0 ∨ s.smp.phase 0 ≠ .boot := or_iff_not_imp_left.2 hboot
        exact .inr ⟨_, (SmpStep.start hfree hp hstart hfin).step_eq⟩
      · refine .inr ⟨.trap c tf cr2 input, ?_⟩
        simp only [Smp.step, if_pos (And.intro hfree (And.intro hp hcs))]
        exact hfin
  | lcr3 c =>
    simp only [Bkl.act] at hstep
    split_ifs at hstep with hp
    rw [← Option.some.inj hstep]
    cases hk : lcr3Curenv s.smp.k c with
    | error msg => exact .inl rfl
    | ok k =>
      exact .inr ⟨_, (SmpStep.lcr3 hp hk).step_eq⟩
  | iret c =>
    simp only [Bkl.act] at hstep
    split_ifs at hstep with hp
    rw [← Option.some.inj hstep]
    exact .inr ⟨_, (SmpStep.iret hp).step_eq⟩
  | store c va b =>
    simp only [Bkl.act] at hstep
    split_ifs at hstep
    obtain ⟨m, hm, rfl⟩ := Option.map_eq_some_iff.1 hstep
    exact .inr ⟨_, hm⟩
  | touch c va dirty =>
    simp only [Bkl.act] at hstep
    split_ifs at hstep
    obtain ⟨m, hm, rfl⟩ := Option.map_eq_some_iff.1 hstep
    exact .inr ⟨_, hm⟩

/-- **The lock makes kernel entries atomic**: every run is one of the machine of `Jos.Smp`. -/
theorem smp_run (hs : s.Starts) {l : List BklAct} (hrun : Run Bkl.step s l s') :
    ∃ acts, Run Smp.step s.smp acts s'.smp := by
  induction hrun with
  | nil => exact ⟨[], .nil⟩
  | @snoc l t u a hrun _ hstep ih =>
    obtain ⟨acts, hacts⟩ := ih
    have h := BklInv.run hs hrun
    unfold Bkl.step at hstep
    split_ifs at hstep
    rcases h.smp_step hstep with heq | ⟨b, hb⟩
    · rw [heq]
      exact ⟨acts, hacts⟩
    · exact ⟨acts ++ [b], .snoc hacts trivial hb⟩

end Jos
