import Jos.Smp

/-!
# The environment table and its free list

A slot is free if and only if it is on `env_free_list`, and every other slot has a page directory
(`TableAgrees`). The list is only edited by `env_alloc` and `env_free`, but the status is also
written elsewhere. Two of these places can break the agreement: `sys_env_set_status` stores what it
is given, `ENV_FREE` included, and an environment that has been freed while another CPU still runs
it goes on to make system calls.

`Tidy` excludes both. The invariant (`ListInv`) adds that no CPU's `cpu_env` is on the list, which
is why the status an entry writes for its own environment does no harm.

A program that maps the pages of `envs` for itself, by `sys_page_map` with address bits in the
permission, is outside the model: its stores reach modelled memory only, and the table is not there.
-/

namespace Jos

open Lib

/-- The table and the free list agree. -/
def TableAgrees (k : Kernel) : Prop :=
  ∃ l, Chain (fun e => (k.envs e).envLink) k.envFreeList l ∧ l.Nodup ∧
    (∀ e, (k.envs e).envStatus = ENV_FREE ↔ e ∈ l) ∧ ∀ e, e ∉ l → (k.envs e).envPgdir ≠ none

/-- The call does not set the status of a living environment to `ENV_FREE`. -/
def KeepsAlive (k : Kernel) (cur : EnvIdx) (x : Call) : Prop :=
  x.no = SYS_env_set_status → x.a2 = ENV_FREE → ∀ e, envid2env k cur x.a1 true = some e →
    (k.envs e).envStatus ≠ ENV_RUNNABLE ∧ (k.envs e).envStatus ≠ ENV_NOT_RUNNABLE

instance (k : Kernel) (cur : EnvIdx) (x : Call) : Decidable (KeepsAlive k cur x) := by
  unfold KeepsAlive; infer_instance

/-- No environment is declared free, and none is freed that is another CPU's `cpu_env`. -/
def Tidy (m : Smp) : SmpAct → Prop
  | .trap c tf _ _ => ∀ cur, m.k.cpuEnv c = some cur →
      ((m.k.envs cur).envStatus ≠ ENV_DYING → tf.IsSyscall → KeepsAlive m.k cur tf.call) ∧
        ∀ c', c' ≠ c → ∀ e, m.k.cpuEnv c' = some e → ¬ Frees m.k cur tf e
  | _ => True

instance (m : Smp) : DecidablePred (Tidy m) :=
  SmpAct.decidableEntry (fun _ _ => instDecidableTrue) (fun _ _ _ _ => decidableForallSome _)
    (by rintro (_ | _) <;> trivial)

/-! ## The invariant -/

/-- `l` is the free list, and no CPU's environment is on it. -/
structure ListInv (l : List EnvIdx) (k : Kernel) : Prop where
  chain : Chain (fun e => (k.envs e).envLink) k.envFreeList l
  free : ∀ e, (k.envs e).envStatus = ENV_FREE ↔ e ∈ l
  dir : ∀ e, e ∉ l → k.dirs e ≠ none
  cpu : ∀ c e, k.cpuEnv c = some e → e ∉ l

namespace ListInv

variable {l : List EnvIdx} {c : Cpu} {cur e : EnvIdx} {k k' : Kernel} {x : Call} {r : Word}

theorem agrees (h : ListInv l k) : TableAgrees k := ⟨l, h.chain, h.chain.nodup, h.free, h.dir⟩

theorem congr (h : ListInv l k) (henvs : k'.envs = k.envs)
    (hlist : k'.envFreeList = k.envFreeList) (hcpu : k'.cpuEnv = k.cpuEnv) : ListInv l k' := by
  have hdirs : k'.dirs = k.dirs := by
    funext e
    rw [Kernel.dirs, henvs]
    rfl
  constructor
  · rw [henvs, hlist]
    exact h.chain
  · rw [henvs]
    exact h.free
  · rw [hdirs]
    exact h.dir
  · rw [hcpu]
    exact h.cpu

theorem live (h : ListInv l k) (he : e ∉ l) : (k.envs e).envStatus ≠ ENV_FREE :=
  fun hf => he ((h.free e).1 hf)

theorem setEnv (h : ListInv l k) (he : e ∉ l) {f : Env → Env}
    (hst : (f (k.envs e)).envStatus ≠ ENV_FREE)
    (hlink : (f (k.envs e)).envLink = (k.envs e).envLink)
    (hdir : (f (k.envs e)).envPgdir = (k.envs e).envPgdir) : ListInv l (k.setEnv e f) := by
  refine ⟨?_, fun e' => ?_, fun e' he' => ?_, h.cpu⟩
  · change Chain (fun e' => (Function.update k.envs e (f (k.envs e)) e').envLink) k.envFreeList l
    rw [link_update hlink]
    exact h.chain
  · by_cases hee : e' = e
    · subst hee
      simp only [Kernel.setEnv, Function.update_self]
      exact ⟨fun hc => (hst hc).elim, fun hc => (he hc).elim⟩
    · simp only [Kernel.setEnv, Function.update_of_ne hee]
      exact h.free e'
  · rw [dirs_setEnv, hdir, show (k.envs e).envPgdir = k.dirs e from rfl, Function.update_eq_self]
    exact h.dir e' he'

theorem setStatus (h : ListInv l k) (he : e ∉ l) {v : Word} (hv : v ≠ ENV_FREE) :
    ListInv l (k.setStatus e v) := h.setEnv he hv rfl rfl

theorem setCurenv (h : ListInv l k) (he : e ∉ l) : ListInv l (k.setCurenv c (some e)) := by
  refine ⟨h.chain, h.free, h.dir, fun c' e' hc' => ?_⟩
  by_cases hc : c' = c
  · subst hc
    simp only [Kernel.setCurenv, Function.update_self, Option.some.injEq] at hc'
    exact hc' ▸ he
  · simp only [Kernel.setCurenv, Function.update_of_ne hc] at hc'
    exact h.cpu c' e' hc'

/-- The caller can only name itself and environments that are not free. -/
theorem found (h : ListInv l k) (hcur : cur ∉ l) {envid : Word} {b : Bool}
    (hf : envid2env k cur envid b = some e) : e ∉ l := by
  rcases envid2env_some hf with rfl | ⟨hst, -⟩
  · exact hcur
  · exact fun hc => hst ((h.free e).2 hc)

theorem retired (h : ListInv l k) (he : e ∉ l) (hfree : envFree k c e = .ok k')
    {v : Cpu → Option EnvIdx} (hv : ∀ c' e', v c' = some e' → k.cpuEnv c' = some e' ∧ e' ≠ e) :
    ListInv (e :: l) { k' with cpuEnv := v } := by
  obtain ⟨henvs, hlist⟩ := envs_envFree hfree
  refine ⟨?_, fun e' => ?_, fun e' he' => ?_, fun c' e' hc' => ?_⟩
  · rw [henvs, hlist]
    have hlink : (fun e' => (Function.update k.envs e { k.envs e with
        envPgdir := none, envStatus := ENV_FREE, envLink := k.envFreeList } e').envLink) =
        Function.update (fun e' => (k.envs e').envLink) e k.envFreeList := by
      funext e'
      by_cases hee : e' = e
      · subst hee
        simp
      · simp [hee]
    rw [hlink]
    exact h.chain.push he
  · rw [henvs, List.mem_cons]
    by_cases hee : e' = e
    · subst hee
      simp
    · rw [Function.update_of_ne hee, h.free e']
      exact ⟨.inr, fun hc => hc.resolve_left hee⟩
  · obtain ⟨hee, hel⟩ := not_or.1 fun hc => he' (List.mem_cons.2 hc)
    change (k'.envs e').envPgdir ≠ none
    rw [henvs, Function.update_of_ne hee]
    exact h.dir e' hel
  · obtain ⟨hold, hne⟩ := hv c' e' hc'
    exact fun hc => (List.mem_cons.1 hc).elim hne (h.cpu c' e' hold)

theorem allocated (h : ListInv l k) {child : EnvIdx} {p : Nat} {env : Env}
    (hhead : k.envFreeList = some child) (hst : env.envStatus ≠ ENV_FREE)
    (hlink : env.envLink = (k.envs child).envLink) (hdir : env.envPgdir = some p) :
    ∃ l', l = child :: l' ∧ ListInv l' (Jos.allocated k child p env) := by
  have hchain := h.chain
  rw [hhead] at hchain
  obtain ⟨l', rfl, hrest⟩ := hchain.pop
  have hnot : child ∉ l' := (List.nodup_cons.1 hchain.nodup).1
  refine ⟨l', rfl, ?_, fun e' => ?_, fun e' he' => ?_, fun c' e' hc' hc => ?_⟩
  · change Chain (fun e' => (Function.update k.envs child env e').envLink)
      (k.envs child).envLink l'
    rw [link_update hlink]
    exact hrest
  · change (Function.update k.envs child env e').envStatus = ENV_FREE ↔ e' ∈ l'
    by_cases hee : e' = child
    · subst hee
      rw [Function.update_self]
      exact ⟨fun hc => (hst hc).elim, fun hc => (hnot hc).elim⟩
    · rw [Function.update_of_ne hee, h.free e', List.mem_cons]
      exact ⟨fun hc => hc.resolve_left hee, .inr⟩
  · change (Function.update k.envs child env e').envPgdir ≠ none
    by_cases hee : e' = child
    · subst hee
      rw [Function.update_self, hdir]
      nofun
    · rw [Function.update_of_ne hee]
      exact h.dir e' fun hc => (List.mem_cons.1 hc).elim hee he'
  · exact h.cpu c' e' hc' (List.mem_cons_of_mem child hc)

/-! ## Scheduling -/

theorem schedStart (h : ListInv l k) (c : Cpu) : ListInv l (schedStart k c).2 := by
  rcases schedStart_snd k c with heq | ⟨cur, hcur, -, heq⟩
  · rw [heq]
    exact h
  · rw [heq]
    exact h.setStatus (h.cpu c cur hcur) (by decide)

theorem envRun (h : ListInv l k) (he : e ∉ l) : ListInv l (envRun k c e) := by
  rw [envRun_eq]
  exact ((h.schedStart c).setCurenv he).setEnv he (by simp [ENV_RUNNING, ENV_FREE]) rfl rfl

/-- What holds at the end of a kernel entry. -/
structure Exits (c : Cpu) (exit : Exit) : Prop where
  run : ∀ k e, exit = .run k e → ∃ l, ListInv l (Jos.envRun k c e)
  monitor : ∀ k, exit = .monitor k → ∃ l, ListInv l k

theorem exits_sched (h : ListInv l k) : Exits c (schedYield k c) := by
  constructor
  · intro k' e hs
    obtain ⟨rfl, hpick⟩ := schedYield_run hs
    refine ⟨l, (h.schedStart c).envRun fun hc => ?_⟩
    have hfree := ((h.schedStart c).free e).2 hc
    rcases hpick with ⟨-, hst⟩ | ⟨-, hst | hst⟩ <;> rw [hst] at hfree <;>
      exact absurd hfree (by decide)
  · intro k' hs
    rw [schedYield_monitor hs]
    exact ⟨l, h.schedStart c⟩

theorem exits_run (h : ListInv l k) (he : e ∉ l) : Exits c (.run k e) := by
  refine ⟨fun k' e' heq => ?_, nofun⟩
  cases heq
  exact ⟨l, h.envRun he⟩

theorem exits_return (h : ListInv l k) (hcur : k.cpuEnv c = some cur) :
    Exits c (trapReturn k c) := by
  rcases trapReturn_cases hcur with ⟨-, heq⟩ | ⟨-, heq⟩
  · rw [heq]
    exact h.exits_run (h.cpu c cur hcur)
  · rw [heq]
    exact h.exits_sched

theorem exits_free (h : ListInv l k) (hcur : k.cpuEnv c = some cur)
    (hcpu : ∀ c', c' ≠ c → k.cpuEnv c' ≠ some cur) (hfree : envFree k c cur = .ok k') :
    Exits c (schedYield (k'.setCurenv c none) c) := by
  refine (h.retired (h.cpu c cur hcur) hfree fun c' e' hc' => ?_).exits_sched
  rw [cpuEnv_envFree hfree] at hc'
  by_cases hc : c' = c
  · subst hc
    rw [Function.update_self] at hc'
    cases hc'
  · rw [Function.update_of_ne hc] at hc'
    refine ⟨hc', ?_⟩
    rintro rfl
    exact hcpu c' hc hc'

/-! ## Kernel entries -/

/-- **A system call** that returns. -/
theorem sysReturn (h : ListInv l k) (hcur : k.cpuEnv c = some cur)
    (halive : KeepsAlive k cur x)
    (hcpu : ∀ c', c' ≠ c → ∀ e, k.cpuEnv c' = some e → x.no = SYS_env_destroy →
      envid2env k cur x.a1 true = some e → (k.envs e).envStatus = ENV_RUNNING)
    (hret : SysReturn c cur k x r k') : (∃ l', ListInv l' k') ∧ k'.cpuEnv = k.cpuEnv := by
  have hoff := h.cpu c cur hcur
  cases hret with
  | same r hno hrecv => exact ⟨⟨l, h⟩, rfl⟩
  | pageAlloc hno hx =>
    rw [sysPageAlloc_phys hx]
    exact ⟨⟨l, h.congr rfl rfl rfl⟩, rfl⟩
  | pageMap hno hx =>
    rw [sysPageMap_phys hx]
    exact ⟨⟨l, h.congr rfl rfl rfl⟩, rfl⟩
  | pageUnmap hno hx =>
    rw [sysPageUnmap_phys hx]
    exact ⟨⟨l, h.congr rfl rfl rfl⟩, rfl⟩
  | dying hno hf hr hne => exact ⟨⟨l, h.setStatus (h.found hoff hf) (by decide)⟩, rfl⟩
  | @free e k' hno hf hr hne hfree =>
    refine ⟨⟨e :: l, h.retired (v := k'.cpuEnv) (h.found hoff hf) hfree fun c' e' hc' => ?_⟩,
      cpuEnv_envFree hfree⟩
    rw [cpuEnv_envFree hfree] at hc'
    refine ⟨hc', ?_⟩
    rintro rfl
    by_cases hc : c' = c
    · exact hne (hc ▸ hc')
    · exact hr (hcpu c' hc e' hc' hno hf)
  | exofork hno hx =>
    have hhead : k.envFreeList ≠ some cur := by
      intro hh
      have hchain := h.chain
      rw [hh] at hchain
      obtain ⟨l', rfl, -⟩ := hchain.pop
      exact hoff List.mem_cons_self
    rcases sysExofork_ok hhead hx with rfl | ⟨child, p, hchild, -, rfl⟩
    · exact ⟨⟨l, h⟩, rfl⟩
    · have hst : (forkedEnv k cur child p).envStatus ≠ ENV_FREE := by
        change ENV_NOT_RUNNABLE ≠ ENV_FREE
        decide
      obtain ⟨l', -, h'⟩ := h.allocated hchild hst rfl rfl
      exact ⟨⟨l', h'⟩, rfl⟩
  | @setStatus e hno hf hs =>
    refine ⟨⟨l, h.setStatus (h.found hoff hf) fun hv => ?_⟩, rfl⟩
    obtain ⟨h₁, h₂⟩ := halive hno hv e hf
    exact hs.elim h₁ h₂
  | @setUpcall e hno hf =>
    have he := h.found hoff hf
    exact ⟨⟨l, h.setEnv he (h.live he) rfl rfl⟩, rfl⟩
  | send hno hx =>
    rcases sysIpcTrySend_ok hx with ⟨-, -, rfl⟩ | ⟨uenv, hf, ⟨-, -, rfl⟩ | ⟨-, hsend⟩⟩
    · exact ⟨⟨l, h⟩, rfl⟩
    · exact ⟨⟨l, h⟩, rfl⟩
    have he := h.found hoff hf
    rcases hsend with ⟨-, rfl⟩ | ⟨-, rfl⟩ | ⟨-, hk'⟩
    · exact ⟨⟨l, h⟩, rfl⟩
    · exact ⟨⟨l, h.setEnv he (h.live he) rfl rfl⟩, rfl⟩
    · have hst : (delivered k cur uenv x.a2 (sentPerm k uenv x.a3 x.a4)).envStatus ≠ ENV_FREE := by
        change ENV_RUNNABLE ≠ ENV_FREE
        decide
      have h' : ListInv l (k.setEnv uenv fun _ =>
          delivered k cur uenv x.a2 (sentPerm k uenv x.a3 x.a4)) := h.setEnv he hst rfl rfl
      rw [hk']
      exact ⟨⟨l, h'.congr rfl rfl rfl⟩, rfl⟩

/-- **A kernel entry.** -/
theorem entry {tf : Trapframe} {cr2 input : Word} {exit : Exit} (h : ListInv l k)
    (hcur : k.cpuEnv c = some cur)
    (halive : (k.envs cur).envStatus ≠ ENV_DYING → tf.IsSyscall → KeepsAlive k cur tf.call)
    (hgone : ∀ c', c' ≠ c → ∀ e, k.cpuEnv c' = some e → ¬ Frees k cur tf e)
    (hE : Entry c cur k tf cr2 input exit) : Exits c exit := by
  have hoff := h.cpu c cur hcur
  have hsave : ListInv l (k.save cur tf) := h.setEnv hoff (h.live hoff) rfl rfl
  have hs := sameTable_save k cur tf
  cases hE with
  | panic msg =>
    constructor
    · intro k' e heq
      cases heq
    · intro k' heq
      cases heq
  | reap hd hfree =>
    refine h.exits_free hcur (fun c' hc he => hgone c' hc cur he ?_) hfree
    rw [Frees, if_pos hd]
  | destroySelf hd hdoom hfree =>
    refine hsave.exits_free hcur (fun c' hc he => hgone c' hc cur he ?_) hfree
    rw [Frees, if_neg hd]
    exact .inl ⟨rfl, hdoom⟩
  | yield hd hno => exact hsave.exits_sched
  | monitor hd hbp =>
    constructor
    · intro k' e heq
      cases heq
    · intro k' heq
      cases heq
      exact ⟨l, hsave⟩
  | irq hd hirq => exact hsave.exits_return hcur
  | recv hd hsys hno hblk =>
    have hst : ENV_NOT_RUNNABLE ≠ ENV_FREE := by decide
    exact (hsave.setEnv hoff hst rfl rfl).exits_sched
  | @call r k' hd hsys hrun hret =>
    have hal : KeepsAlive (k.save cur tf) cur tf.call := by
      intro hno hv e hf
      rw [hs.status]
      exact halive hd hsys hno hv e (by rwa [envid2env_save] at hf)
    -- what the call frees is not another CPU's environment
    have hrunning : ∀ c', c' ≠ c → ∀ e, k.cpuEnv c' = some e → tf.call.no = SYS_env_destroy →
        envid2env (k.save cur tf) cur tf.call.a1 true = some e →
        ((k.save cur tf).envs e).envStatus = ENV_RUNNING := by
      intro c' hc e he hno hf
      rw [envid2env_save] at hf
      rw [hs.status]
      by_contra hr
      refine hgone c' hc e he ?_
      rw [Frees, if_neg hd]
      exact .inr ⟨hsys, hno, hf, hr⟩
    obtain ⟨⟨l', h'⟩, hcpu⟩ := hsave.sysReturn hcur hal hrunning hret
    have hcur' : k'.cpuEnv c = some cur := by
      rw [hcpu]
      exact hcur
    have hoff' := h'.cpu c cur hcur'
    have hret' : ListInv l' (k'.setEax cur r) := h'.setEnv hoff' (h'.live hoff') rfl rfl
    exact hret'.exits_return hcur'
  | @fault σ hd hpf hst =>
    have h₁ : ListInv l { k.save cur tf with phys := σ } := hsave.congr rfl rfl rfl
    exact ListInv.exits_run (h₁.setEnv hoff (hsave.live hoff) rfl rfl) hoff

end ListInv

/-! ## Runs -/

variable {managed tables : Set Nat} {m m' : Smp} {c : Cpu}

theorem ListInv.Exits.finish {exit : Exit} (ho : ListInv.Exits c exit)
    (hf : m.finish c exit = some m') : ∃ l, ListInv l m'.k := by
  cases exit with
  | run k e =>
    obtain rfl := Option.some.inj hf
    exact ho.run k e rfl
  | monitor k =>
    obtain rfl := Option.some.inj hf
    exact ho.monitor k rfl
  | panic msg => cases hf

theorem ListInv.create {l : List EnvIdx} {k k' : Kernel} (h : ListInv l k) {type : EnvType}
    {eip : Word} (hx : envCreate k type eip = some k') : ∃ l', ListInv l' k' := by
  unfold envCreate at hx
  split at hx
  · rename_i child k₁ hal
    rcases envAlloc_ok hal with ⟨r, hr, -⟩ | ⟨child', p, hc, hhead, -, rfl⟩
    · cases hr
    obtain rfl : child = child' := Except.ok.inj hc
    have hst : (newEnv k 0 child p).envStatus ≠ ENV_FREE := by
      change ENV_RUNNABLE ≠ ENV_FREE
      decide
    obtain ⟨l', rfl, h'⟩ := h.allocated hhead hst rfl rfl
    have hchain := h.chain
    have hnot : child ∉ l' := (List.nodup_cons.1 hchain.nodup).1
    obtain rfl := Option.some.inj hx
    exact ⟨l', h'.setEnv hnot (h'.live hnot) rfl rfl⟩
  · cases hx

/-- **One step.** -/
theorem ListInv.step {l : List EnvIdx} {a : SmpAct} (h : ListInv l m.k) (ha : Tidy m a)
    (hstep : m.step a = some m') : ∃ l', ListInv l' m'.k := by
  cases step_cases hstep with
  | create hboot hk => exact h.create hk
  | region hboot hva hk =>
    rw [regionPage_phys hk]
    exact ⟨l, h.congr rfl rfl rfl⟩
  | start hlock hphase hfirst hfin => exact h.exits_sched.finish hfin
  | trap hlock hphase hcs hcur hfin =>
    obtain ⟨halive, hgone⟩ := ha _ hcur
    exact (h.entry hcur halive hgone (trap_cases hcur)).finish hfin
  | unlock hphase => exact ⟨l, h⟩
  | lcr3 hphase hk =>
    obtain ⟨e, d, -, -, rfl⟩ := lcr3Curenv_ok hk
    exact ⟨l, h.congr rfl rfl rfl⟩
  | @iret c hphase =>
    refine ⟨l, ?_⟩
    change ListInv l (envPopTf m.k c)
    unfold envPopTf
    split
    · exact h
    · rename_i e he
      have hoff := h.cpu c e he
      exact h.setEnv hoff (h.live hoff) rfl rfl
  | store hphase hva hp => exact ⟨l, h.congr rfl rfl rfl⟩
  | touch hphase hva hp => exact ⟨l, h.congr rfl rfl rfl⟩

theorem Boots.listInv (h : Boots managed tables m) : ∃ l, ListInv l m.k := by
  obtain ⟨l, hl, hmem⟩ := initEnv_chain 1023 0 rfl
  have hall : ∀ e, e ∈ l := fun e => (hmem e).2 (Nat.zero_le _)
  refine ⟨l, ?_, fun e => ?_, fun e he => (he (hall e)).elim, fun c e hc => ?_⟩
  · rw [h.envFreeList, show (fun e => (m.k.envs e).envLink) = fun e => (initEnv e).envLink from
      funext fun e => by rw [h.envs]]
    exact hl
  · rw [h.envs]
    exact ⟨fun _ => hall e, fun _ => envStatus_initEnv e⟩
  · rw [h.cpuEnv] at hc
    cases hc

/-- The program forks and declares the child free. -/
def declareActs : List SmpAct :=
  bootActs ++ .start 0 :: leaveActs 0 ++ callActs 0 SYS_exofork 0 0 0 0 0 ++
    callActs 0 SYS_env_set_status 0x1009#32 ENV_FREE 0 0 0

end Jos
