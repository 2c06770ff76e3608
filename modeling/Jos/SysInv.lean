import Jos.Cpus
import Jos.SysMem
import Jos.Upcall

/-!
# Kernel entries keep the system's invariant

`KInv` adds to the memory invariant what the table of environments must satisfy: the slots on
the free list have no page directory, the live ones do, and an environment id leads to its slot.

`Keeps` says what a kernel entry of CPU `c` leaves as it is: the directories of the environments
it does not free, and everything about the other CPUs. Which environments an entry frees can be
read off the state before it (`Frees`).
-/

namespace Jos

open Lib

/-- The slots on the free list have no directory. -/
def FreeSlots (k : Kernel) : Prop :=
  ∃ l, Chain (fun e => (k.envs e).envLink) k.envFreeList l ∧ ∀ e ∈ l, k.dirs e = none

/-- The table of environments. -/
structure TabInv (k : Kernel) : Prop where
  free_list : ∃ l, Chain (fun e => (k.envs e).envLink) k.envFreeList l ∧ ∀ e ∈ l, k.dirs e = none
  live : ∀ e, (k.envs e).envStatus ≠ ENV_FREE → k.dirs e ≠ none
  ids : ∀ e, k.dirs e ≠ none → ENVX (k.envs e).envId = e

/-- The invariant of the running system. -/
structure KInv (managed tables : Set Nat) (k : Kernel) : Prop where
  mem : KMem managed tables k
  tab : TabInv k

/-- What an entry of environment `cur` on CPU `c` leaves as it is, if it frees the environments
in `gone`. -/
structure Keeps (managed tables : Set Nat) (c : Cpu) (cur : EnvIdx) (gone : EnvIdx → Prop)
    (k k' : Kernel) : Prop where
  inv : KInv managed tables k'
  kern : k'.phys.kernPgdir = k.phys.kernPgdir
  dirs : ∀ e, k.dirs e ≠ none → gone e ∨ k'.dirs e = k.dirs e
  cpu : ∀ c', c' ≠ c → k'.cpuEnv c' = k.cpuEnv c' ∧ k'.cr3 c' = k.cr3 c'
  own : k'.cr3 c = k.cr3 c ∧ k'.dirs cur = k.dirs cur ∨ k'.cr3 c = k.phys.kernPgdir

/-- The same in the middle of the entry, while `cur` is still there. -/
structure MidKeeps (managed tables : Set Nat) (c : Cpu) (cur : EnvIdx) (gone : EnvIdx → Prop)
    (k k' : Kernel) : Prop extends Keeps managed tables c cur gone k k' where
  cpuEnv : k'.cpuEnv = k.cpuEnv
  dir : k'.dirs cur = k.dirs cur

/-- The environments that a trap of `cur` frees. -/
def Frees (k : Kernel) (cur : EnvIdx) (tf : Trapframe) (e : EnvIdx) : Prop :=
  if (k.envs cur).envStatus = ENV_DYING then e = cur
  else e = cur ∧ Dooms k cur tf ∨
    tf.IsSyscall ∧ tf.call.no = SYS_env_destroy ∧ envid2env k cur tf.call.a1 true = some e ∧
      (k.envs e).envStatus ≠ ENV_RUNNING

instance (k : Kernel) (cur : EnvIdx) (tf : Trapframe) (e : EnvIdx) :
    Decidable (Frees k cur tf e) := by
  unfold Frees; infer_instance

variable {managed tables : Set Nat} {c : Cpu} {cur e : EnvIdx} {k k' : Kernel} {x : Call} {r : Word}
  {gone : EnvIdx → Prop}

/-! ## The table of environments -/

theorem KMem.congr (h : KMem managed tables k) (hphys : k'.phys = k.phys)
    (hdirs : k'.dirs = k.dirs) : KMem managed tables k' := by
  unfold KMem
  rw [hphys, hdirs]
  exact h

/-- **One environment changes**, but neither its directory nor its id and place. -/
theorem TabInv.update (h : TabInv k) (hlist : k'.envFreeList = k.envFreeList)
    (hother : ∀ e', e' ≠ e → k'.envs e' = k.envs e')
    (hdir : (k'.envs e).envPgdir = (k.envs e).envPgdir) (hid : (k'.envs e).envId = (k.envs e).envId)
    (hlink : (k'.envs e).envLink = (k.envs e).envLink)
    (hlive : (k'.envs e).envStatus ≠ ENV_FREE → k.dirs e ≠ none) :
    TabInv k' ∧ k'.dirs = k.dirs := by
  have hsame : ∀ {β : Type} (g : Env → β), g (k'.envs e) = g (k.envs e) → ∀ e',
      g (k'.envs e') = g (k.envs e') := by
    intro β g hg e'
    by_cases he : e' = e
    · rw [he, hg]
    · rw [hother e' he]
  have hdirs : k'.dirs = k.dirs := funext (hsame Env.envPgdir hdir)
  refine ⟨⟨?_, ?_, ?_⟩, hdirs⟩
  · rw [hlist, hdirs, show (fun e => (k'.envs e).envLink) = fun e => (k.envs e).envLink from
      funext (hsame Env.envLink hlink)]
    exact h.free_list
  · intro e' hst
    rw [hdirs]
    by_cases he : e' = e
    · subst he
      exact hlive hst
    · rw [hother e' he] at hst
      exact h.live e' hst
  · intro e' hd
    rw [hdirs] at hd
    rw [hsame Env.envId hid]
    exact h.ids e' hd

theorem TabInv.found (h : TabInv k) (hcur : k.dirs cur ≠ none) {envid : Word} {b : Bool}
    (hf : envid2env k cur envid b = some e) : k.dirs e ≠ none := by
  rcases envid2env_some hf with rfl | ⟨hlive, -⟩
  · exact hcur
  · exact h.live e hlive

theorem MemStep.keeps {xs : MapIdx → Prop} (hm : MemStep managed tables xs k k') (h : TabInv k)
    (hk : k' = { k with phys := k'.phys }) : MidKeeps managed tables c cur gone k k' := by
  have henvs : k'.envs = k.envs := by
    rw [hk]
  have hdirs : k'.dirs = k.dirs := by
    unfold Kernel.dirs
    rw [henvs]
  have hlist : k'.envFreeList = k.envFreeList := by
    rw [hk]
  have hcpu : k'.cpuEnv = k.cpuEnv := by
    rw [hk]
  have hcr3 : k'.cr3 = k.cr3 := by
    rw [hk]
  refine ⟨⟨⟨hm.inv, ?_⟩, hm.kern, fun e _ => .inr (by rw [hdirs]), fun c' _ => ?_, .inl ?_⟩, hcpu,
    by rw [hdirs]⟩
  · refine (h.update (e := 0) hlist (fun e' _ => by rw [henvs]) ?_ ?_ ?_ fun hst => ?_).1
    · rw [henvs]
    · rw [henvs]
    · rw [henvs]
    · rw [henvs] at hst
      exact h.live 0 hst
  · rw [hcpu, hcr3]
    exact ⟨rfl, rfl⟩
  · rw [hdirs, hcr3]
    exact ⟨rfl, rfl⟩

theorem KInv.keeps_setEnv (h : KInv managed tables k) {f : Env → Env}
    (hdir : (f (k.envs e)).envPgdir = (k.envs e).envPgdir)
    (hid : (f (k.envs e)).envId = (k.envs e).envId)
    (hlink : (f (k.envs e)).envLink = (k.envs e).envLink)
    (hlive : (f (k.envs e)).envStatus ≠ ENV_FREE → k.dirs e ≠ none) :
    MidKeeps managed tables c cur gone k (k.setEnv e f) := by
  have hread : (k.setEnv e f).envs e = f (k.envs e) := Function.update_self _ _ _
  obtain ⟨htab, hdirs⟩ : TabInv (k.setEnv e f) ∧ (k.setEnv e f).dirs = k.dirs := by
    refine h.tab.update ?_ (fun e' he => Function.update_of_ne he _ _) ?_ ?_ ?_ ?_
    · rfl
    · rw [hread, hdir]
    · rw [hread, hid]
    · rw [hread, hlink]
    · rw [hread]
      exact hlive
  exact ⟨⟨⟨h.mem.congr rfl hdirs, htab⟩, rfl, fun e _ => .inr (by rw [hdirs]),
    fun _ _ => ⟨rfl, rfl⟩, .inl ⟨rfl, by rw [hdirs]⟩⟩, rfl, by rw [hdirs]⟩

theorem KInv.keeps_refl (h : KInv managed tables k) : MidKeeps managed tables c cur gone k k :=
  ⟨⟨h, rfl, fun _ _ => .inr rfl, fun _ _ => ⟨rfl, rfl⟩, .inl ⟨rfl, rfl⟩⟩, rfl, rfl⟩

/-! ## Freeing and creating -/

/-- **`env_free`** on the memory. -/
theorem KMem.envFree (h : KMem managed tables k) (hfree : envFree k c e = .ok k') :
    KMem managed tables k' ∧ k.dirs e ≠ none ∧ k'.phys.kernPgdir = k.phys.kernPgdir ∧
      k'.dirs = Function.update k.dirs e none ∧
      (∀ c', c' ≠ c → k'.cr3 c' = k.cr3 c') ∧
      k'.cr3 c = (if k.cpuEnv c = some e then k.phys.kernPgdir else k.cr3 c) ∧
      ∀ y, y.1 ≠ e → vm k'.phys k'.dirs y = vm k.phys k.dirs y := by
  obtain ⟨d, hd⟩ : ∃ d, k.dirs e = some d := by
    unfold Jos.envFree at hfree
    obtain ⟨d, hd, -⟩ := bind_eq_ok.1 hfree
    have hdir := dirs_of_pgdir hd
    simp only [Kernel.dirs, envs_leave] at hdir
    exact ⟨d, hdir⟩
  obtain ⟨free, hm⟩ := h
  obtain ⟨σ', free', hok, hm', hkern, hvm⟩ := hm.freeVm hd
  have hk' : k' = { k.leave c e with phys := σ' }.retire e :=
    Except.ok.inj (hfree.symm.trans (envFree_of_freeVm c hd hok))
  have hdirs : k'.dirs = Function.update k.dirs e none := by
    rw [hk', dirs_retire]
  have hphys : k'.phys = σ' := by
    rw [hk']
    rfl
  have hcr3 : k'.cr3 = (k.leave c e).cr3 := by
    rw [hk']
    rfl
  refine ⟨⟨free', ?_⟩, by simp [hd], ?_, hdirs, fun c' hne => ?_, ?_, ?_⟩
  · rw [hphys, hdirs]
    exact hm'
  · rw [hphys]
    exact hkern
  · rw [hcr3, Kernel.leave]
    split_ifs
    · exact Function.update_of_ne hne _ _
    · rfl
  · rw [hcr3, Kernel.leave]
    split_ifs
    · exact Function.update_self _ _ _
    · rfl
  · rw [hphys, hdirs]
    exact hvm

theorem FreeSlots.envFree (h : FreeSlots k) (hd : k.dirs e ≠ none)
    (hfree : envFree k c e = .ok k') (hdirs : k'.dirs = Function.update k.dirs e none) :
    FreeSlots k' := by
  obtain ⟨henvs, hlist⟩ := envs_envFree hfree
  obtain ⟨l, hl, hall⟩ := h
  have hel : e ∉ l := fun he => hd (hall e he)
  refine ⟨e :: l, ?_, fun e' he' => ?_⟩
  · have hlink : (fun e' => (k'.envs e').envLink) =
        Function.update (fun e' => (k.envs e').envLink) e k.envFreeList := by
      funext e'
      rw [henvs]
      by_cases he : e' = e
      · subst he
        simp
      · simp [he]
    rw [hlink, hlist]
    exact hl.push hel
  · rw [hdirs]
    by_cases he : e' = e
    · rw [he, Function.update_self]
    · rw [Function.update_of_ne he]
      exact hall e' ((List.mem_cons.1 he').resolve_left he)

/-- **`env_free`.** -/
theorem KInv.envFree (h : KInv managed tables k) (hfree : envFree k c e = .ok k') :
    KInv managed tables k' ∧ k'.phys.kernPgdir = k.phys.kernPgdir ∧
      k'.dirs = Function.update k.dirs e none ∧ k'.cpuEnv = k.cpuEnv ∧
      (∀ c', c' ≠ c → k'.cr3 c' = k.cr3 c') ∧
      k'.cr3 c = (if k.cpuEnv c = some e then k.phys.kernPgdir else k.cr3 c) ∧
      ∀ y, y.1 ≠ e → vm k'.phys k'.dirs y = vm k.phys k.dirs y := by
  obtain ⟨hmem, hd, hkern, hdirs, hcr3, hown, hvm⟩ := h.mem.envFree hfree
  obtain ⟨henvs, -⟩ := envs_envFree hfree
  refine ⟨⟨hmem, FreeSlots.envFree h.tab.free_list hd hfree hdirs, ?_, ?_⟩, hkern, hdirs,
    cpuEnv_envFree hfree, hcr3, hown, hvm⟩
  · intro e' hst
    rw [henvs] at hst
    have he : e' ≠ e := by
      rintro rfl
      rw [Function.update_self] at hst
      exact hst rfl
    rw [Function.update_of_ne he] at hst
    rw [hdirs, Function.update_of_ne he]
    exact h.tab.live e' hst
  · intro e' hd'
    rw [hdirs] at hd'
    have he : e' ≠ e := by
      rintro rfl
      rw [Function.update_self] at hd'
      exact hd' rfl
    rw [Function.update_of_ne he] at hd'
    rw [henvs, Function.update_of_ne he]
    exact h.tab.ids e' hd'

theorem or_idx_mod {g : Word} (e : EnvIdx) (hg : g &&& BitVec.ofNat 32 (NENV - 1) = 0) :
    (g ||| BitVec.ofNat 32 e).toNat % 1024 = e := by
  have hlt := e.isLt
  have hmod : g.toNat % 2 ^ 10 = 0 := by
    have := congrArg BitVec.toNat hg
    rw [BitVec.toNat_and, BitVec.toNat_ofNat] at this
    rw [← Nat.and_two_pow_sub_one_eq_mod]
    exact this
  rw [BitVec.toNat_or, BitVec.toNat_ofNat]
  change (g.toNat ||| e.val % 2 ^ 32) % 2 ^ 10 = e.val
  rw [Nat.or_mod_two_pow, hmod, Nat.zero_or]
  omega

theorem ENVX_nextEnvId (id : Word) (e : EnvIdx) : ENVX (nextEnvId id e) = e := by
  apply Fin.ext
  refine or_idx_mod e ?_
  split_ifs
  · decide
  · ext i hi
    simp only [BitVec.getElem_and, BitVec.getElem_not]
    cases (BitVec.ofNat 32 (NENV - 1))[i] <;> simp

theorem KMem.allocated (h : KMem managed tables k) {child : EnvIdx} {p : Nat} {env : Env}
    (hnone : k.dirs child = none) (hp : k.phys.pageFreeList = some p)
    (hdir : env.envPgdir = some p) :
    KMem managed tables (Jos.allocated k child p env) ∧
      (Jos.allocated k child p env).phys.kernPgdir = k.phys.kernPgdir ∧
      (Jos.allocated k child p env).dirs = Function.update k.dirs child (some p) ∧
      vm (Jos.allocated k child p env).phys (Jos.allocated k child p env).dirs =
        vm k.phys k.dirs := by
  obtain ⟨free, hm⟩ := h
  obtain ⟨rest, rfl⟩ : ∃ rest, free = p :: rest := by
    cases free with
    | nil =>
      rw [hm.pinv.head_eq_none] at hp
      cases hp
    | cons q rest =>
      rw [hm.pinv.head_eq, Option.some.injEq] at hp
      exact ⟨rest, by rw [hp]⟩
  obtain ⟨hm', hvm⟩ := hm.setupVm hnone
  have hdirs : (Jos.allocated k child p env).dirs = Function.update k.dirs child (some p) := by
    funext e'
    unfold Kernel.dirs Jos.allocated
    by_cases he : e' = child
    · simp only [he, Function.update_self, hdir]
    · simp only [Function.update_of_ne he]
  refine ⟨⟨rest, ?_⟩, kernPgdir_initPgdir _ p, hdirs, ?_⟩
  · rw [hdirs]
    exact hm'
  · rw [hdirs]
    exact hvm

theorem FreeSlots.allocated (h : FreeSlots k) {child : EnvIdx} {p : Nat} {env : Env}
    (hhead : k.envFreeList = some child)
    (hdirs : (Jos.allocated k child p env).dirs = Function.update k.dirs child (some p)) :
    FreeSlots (Jos.allocated k child p env) := by
  obtain ⟨l, hl, hall⟩ := h
  rw [hhead] at hl
  obtain ⟨l', rfl, hl'⟩ := hl.pop
  have hnot : child ∉ l' := (List.nodup_cons.1 hl.nodup).1
  have hlink : (fun e' => ((Jos.allocated k child p env).envs e').envLink) =
      Function.update (fun e' => (k.envs e').envLink) child env.envLink := by
    funext e'
    unfold Jos.allocated
    by_cases he : e' = child
    · simp only [he, Function.update_self]
    · simp only [Function.update_of_ne he]
  refine ⟨l', ?_, fun e' he' => ?_⟩
  · rw [hlink]
    exact hl'.update_of_not_mem hnot _
  · have he : e' ≠ child := by
      rintro rfl
      exact hnot he'
    rw [hdirs, Function.update_of_ne he]
    exact hall e' (List.mem_cons_of_mem _ he')

theorem FreeSlots.head (h : FreeSlots k) (hhead : k.envFreeList = some e) : k.dirs e = none := by
  obtain ⟨l, hl, hall⟩ := h
  rw [hhead] at hl
  obtain ⟨l', rfl, -⟩ := hl.pop
  exact hall e List.mem_cons_self

theorem TabInv.allocated (h : TabInv k) {child : EnvIdx} {p : Nat} {env : Env}
    (hhead : k.envFreeList = some child)
    (hdirs : (Jos.allocated k child p env).dirs = Function.update k.dirs child (some p))
    (hid : ENVX env.envId = child) : TabInv (Jos.allocated k child p env) := by
  have hslots : FreeSlots k := h.free_list
  have hread : ∀ e', e' ≠ child → (Jos.allocated k child p env).envs e' = k.envs e' :=
    fun e' he => Function.update_of_ne he _ _
  have hchild : (Jos.allocated k child p env).envs child = env := Function.update_self _ _ _
  refine ⟨hslots.allocated hhead hdirs, ?_, ?_⟩
  · intro e' hst
    rw [hdirs]
    by_cases he : e' = child
    · rw [he, Function.update_self]
      nofun
    · rw [hread e' he] at hst
      rw [Function.update_of_ne he]
      exact h.live e' hst
  · intro e' hd'
    by_cases he : e' = child
    · rw [he, hchild]
      exact hid
    · rw [hdirs, Function.update_of_ne he] at hd'
      rw [hread e' he]
      exact h.ids e' hd'

/-- **`sys_exofork`**, when it succeeds. -/
theorem KInv.allocated (h : KInv managed tables k) {child : EnvIdx} {p : Nat} {env : Env}
    (hhead : k.envFreeList = some child) (hp : k.phys.pageFreeList = some p)
    (hdir : env.envPgdir = some p) (hid : ENVX env.envId = child) :
    KInv managed tables (Jos.allocated k child p env) ∧
      (Jos.allocated k child p env).phys.kernPgdir = k.phys.kernPgdir ∧
      (Jos.allocated k child p env).dirs = Function.update k.dirs child (some p) ∧
      k.dirs child = none ∧
      vm (Jos.allocated k child p env).phys (Jos.allocated k child p env).dirs =
        vm k.phys k.dirs := by
  have hnone : k.dirs child = none := FreeSlots.head h.tab.free_list hhead
  obtain ⟨hmem, hkern, hdirs, hvm⟩ := h.mem.allocated hnone hp hdir
  exact ⟨⟨hmem, h.tab.allocated hhead hdirs hid⟩, hkern, hdirs, hnone, hvm⟩

/-! ## System calls -/

/-- What the memory needs from a system call. -/
def CallOk (k : Kernel) (cur : EnvIdx) (x : Call) : Prop :=
  (x.no = SYS_page_map → MapOk k cur x.a1 x.a2 x.a3 x.a4 x.a5) ∧
    (x.no = SYS_ipc_try_send → SendOk k cur x.a1 x.a3 x.a4)

instance (k : Kernel) (cur : EnvIdx) (x : Call) : Decidable (CallOk k cur x) := by
  unfold CallOk; infer_instance

/-- A child in a free slot is nobody's directory. -/
theorem KInv.keeps_exofork (h : KInv managed tables k) (hdir : k.dirs cur ≠ none)
    (hx : sysExofork k cur = .ok (r, k')) : MidKeeps managed tables c cur gone k k' := by
  have hslots : FreeSlots k := h.tab.free_list
  have hhead : k.envFreeList ≠ some cur := fun hh => hdir (hslots.head hh)
  rcases sysExofork_ok hhead hx with rfl | ⟨child, p, hchild, hp, rfl⟩
  · exact h.keeps_refl
  have hpg : (forkedEnv k cur child p).envPgdir = some p := rfl
  obtain ⟨hinv, hkern, hdirs, hnone, -⟩ := h.allocated hchild hp hpg (ENVX_nextEnvId _ _)
  have hsame : ∀ e, k.dirs e ≠ none →
      (Jos.allocated k child p (forkedEnv k cur child p)).dirs e = k.dirs e := by
    intro e he
    have hne : e ≠ child := by
      rintro rfl
      exact he hnone
    rw [hdirs, Function.update_of_ne hne]
  exact ⟨⟨hinv, hkern, fun e he => .inr (hsame e he), fun _ _ => ⟨rfl, rfl⟩,
    .inl ⟨rfl, hsame cur hdir⟩⟩, rfl, hsame cur hdir⟩

theorem KInv.keeps_free (h : KInv managed tables k) (hne : k.cpuEnv c ≠ some e) (hec : e ≠ cur)
    (hgone : gone e) (hfree : Jos.envFree k c e = .ok k') :
    MidKeeps managed tables c cur gone k k' := by
  obtain ⟨hinv, hkern, hdirs, hcpu, hcr3, hown, -⟩ := h.envFree hfree
  rw [if_neg hne] at hown
  have hsame : ∀ e', e' ≠ e → k'.dirs e' = k.dirs e' := by
    intro e' he
    rw [hdirs, Function.update_of_ne he]
  refine ⟨⟨hinv, hkern, fun e' _ => ?_, fun c' hc => ⟨by rw [hcpu], hcr3 c' hc⟩,
    .inl ⟨hown, hsame cur hec.symm⟩⟩, hcpu, hsame cur hec.symm⟩
  by_cases he : e' = e
  · subst he
    exact .inl hgone
  · exact .inr (hsame e' he)

/-- The message goes to an environment that was found. -/
theorem dirs_sysIpcTrySend {envid value srcva perm : Word}
    (hx : sysIpcTrySend k cur envid value srcva perm = .ok (r, k')) : k'.dirs = k.dirs := by
  rcases sysIpcTrySend_ok hx with ⟨-, -, rfl⟩ | ⟨uenv, hf, ⟨-, -, rfl⟩ | ⟨-, hsend⟩⟩
  · rfl
  · rfl
  rcases hsend with ⟨-, rfl⟩ | ⟨-, rfl⟩ | ⟨-, hk'⟩
  · rfl
  · exact dirs_setIpcPerm k uenv 0
  · rw [hk']
    funext e
    by_cases he : e = uenv
    · subst he
      simp [Kernel.dirs, delivered]
    · simp [Kernel.dirs, he]

theorem KInv.keeps_send (h : KInv managed tables k) (hdir : k.dirs cur ≠ none)
    (hok : SendOk k cur x.a1 x.a3 x.a4)
    (hx : sysIpcTrySend k cur x.a1 x.a2 x.a3 x.a4 = .ok (r, k')) :
    MidKeeps managed tables c cur gone k k' := by
  rcases sysIpcTrySend_ok hx with ⟨-, -, rfl⟩ | ⟨uenv, hf, ⟨-, -, rfl⟩ | ⟨-, hsend⟩⟩
  · exact h.keeps_refl
  · exact h.keeps_refl
  rcases hsend with ⟨-, rfl⟩ | ⟨-, rfl⟩ | ⟨-, hk'⟩
  · exact h.keeps_refl
  · exact h.keeps_setEnv rfl rfl rfl fun _ => h.tab.found hdir hf
  have henvs : k'.envs = Function.update k.envs uenv
      (delivered k cur uenv x.a2 (sentPerm k uenv x.a3 x.a4)) := by
    rw [hk']
  have hread : k'.envs uenv = delivered k cur uenv x.a2 (sentPerm k uenv x.a3 x.a4) := by
    rw [henvs, Function.update_self]
  obtain ⟨htab, hdirs⟩ : TabInv k' ∧ k'.dirs = k.dirs := by
    apply h.tab.update (e := uenv)
    · rw [hk']
    · intro e' he
      rw [henvs, Function.update_of_ne he]
    · rw [hread]
      rfl
    · rw [hread]
      rfl
    · rw [hread]
      rfl
    · exact fun _ => h.tab.found hdir hf
  obtain ⟨hstep, -⟩ := h.mem.sysIpcTrySend hdirs hok hx
  have hcpu : k'.cpuEnv = k.cpuEnv := by
    rw [hk']
  have hcr3 : k'.cr3 = k.cr3 := by
    rw [hk']
  exact ⟨⟨⟨hstep.inv, htab⟩, hstep.kern, fun e _ => .inr (by rw [hdirs]),
    fun c' _ => ⟨by rw [hcpu], by rw [hcr3]⟩, .inl ⟨by rw [hcr3], by rw [hdirs]⟩⟩, hcpu,
    by rw [hdirs]⟩

/-- **A system call keeps the invariant.** -/
theorem KInv.sysReturn (h : KInv managed tables k) (hcur : k.cpuEnv c = some cur)
    (hdir : k.dirs cur ≠ none) (hok : CallOk k cur x) (hret : SysReturn c cur k x r k')
    (hgone : ∀ e, x.no = SYS_env_destroy → envid2env k cur x.a1 true = some e →
      (k.envs e).envStatus ≠ ENV_RUNNING → gone e) :
    MidKeeps managed tables c cur gone k k' := by
  cases hret with
  | same r hno hrecv => exact h.keeps_refl
  | pageAlloc hno hx => exact (h.mem.sysPageAlloc hx).keeps h.tab (sysPageAlloc_phys hx)
  | pageMap hno hx =>
    exact (h.mem.sysPageMap (hok.1 hno) hx).1.keeps h.tab (sysPageMap_phys hx)
  | pageUnmap hno hx => exact (h.mem.sysPageUnmap hx).keeps h.tab (sysPageUnmap_phys hx)
  | dying hno hf hr hne => exact h.keeps_setEnv rfl rfl rfl fun _ => h.tab.found hdir hf
  | @free e k' hno hf hr hne hfree =>
    have hec : e ≠ cur := by
      rintro rfl
      exact hne hcur
    exact h.keeps_free hne hec (hgone e hno hf hr) hfree
  | exofork hno hx => exact h.keeps_exofork hdir hx
  | setStatus hno hf hs => exact h.keeps_setEnv rfl rfl rfl fun _ => h.tab.found hdir hf
  | setUpcall hno hf => exact h.keeps_setEnv rfl rfl rfl fun _ => h.tab.found hdir hf
  | send hno hx => exact h.keeps_send hdir (hok.2 hno) hx

/-! ## Kernel entries -/

variable {tf : Trapframe} {cr2 input : Word} {exit : Exit} {k₀ : Kernel}

theorem uxFrame_below (tf : Trapframe) (faultVa : Word) {y : Word × Word}
    (hy : y ∈ (uxFrame tf faultVa).2) (o : Word) (ho : o.toNat < 4) : y.1 + o < UTOP := by
  rw [uxFrame_snd, List.mem_map] at hy
  obtain ⟨z, hz, rfl⟩ := hy
  have hz52 : z.1.toNat ≤ 48 ∨ z.1 = 52#32 ∧ OnUxStack tf.tfEsp := by
    rcases List.mem_append.1 hz with hz | hz
    · unfold scratchWords at hz
      split_ifs at hz with hux
      · rw [List.mem_singleton.1 hz]
        exact .inr ⟨rfl, hux⟩
      · cases hz
    · left
      simp only [frameWords, List.mem_cons, List.not_mem_nil, or_false] at hz
      rcases hz with rfl | rfl | rfl | rfl | rfl | rfl | rfl | rfl | rfl | rfl | rfl | rfl | rfl <;>
        simp
  have htop : UTOP.toNat = 0xEEC00000 := by decide
  rw [BitVec.lt_def, BitVec.toNat_add, BitVec.toNat_add, htop]
  unfold utfAddr
  by_cases hux : OnUxStack tf.tfEsp
  · rw [if_pos hux]
    have hb := onUxStack_iff.1 hux
    rw [toNat_sub_of_le (by rw [show (56#32).toNat = 56 from rfl]; omega),
      show (56#32).toNat = 56 from rfl]
    rcases hz52 with hz | ⟨hz, -⟩
    · omega
    · rw [hz, show (52#32).toNat = 52 from rfl]
      omega
  · rw [if_neg hux, show (UXSTACKTOP - 52#32).toNat = 0xEEBFFFCC by decide]
    rcases hz52 with hz | ⟨-, hz⟩
    · omega
    · exact (hux hz).elim

theorem Keeps.trans {k₁ k₂ : Kernel} (h : Keeps managed tables c cur gone k k₁)
    (h' : Keeps managed tables c cur gone k₁ k₂) : Keeps managed tables c cur gone k k₂ where
  inv := h'.inv
  kern := h'.kern.trans h.kern
  dirs e he := by
    rcases h.dirs e he with hg | hd
    · exact .inl hg
    · rw [← hd] at he ⊢
      exact h'.dirs e he
  cpu c' hne := ⟨(h'.cpu c' hne).1.trans (h.cpu c' hne).1, (h'.cpu c' hne).2.trans (h.cpu c' hne).2⟩
  own := by
    rcases h'.own with ⟨hcr, hd⟩ | hcr
    · rcases h.own with ⟨hcr₁, hd₁⟩ | hcr₁
      · exact .inl ⟨hcr.trans hcr₁, hd.trans hd₁⟩
      · exact .inr (hcr.trans hcr₁)
    · exact .inr (hcr.trans h.kern)

theorem MidKeeps.trans {k₁ k₂ : Kernel} (h : MidKeeps managed tables c cur gone k k₁)
    (h' : MidKeeps managed tables c cur gone k₁ k₂) : MidKeeps managed tables c cur gone k k₂ :=
  ⟨h.toKeeps.trans h'.toKeeps, h'.cpuEnv.trans h.cpuEnv, h'.dir.trans h.dir⟩

theorem TabInv.congr (h : TabInv k) (henvs : k'.envs = k.envs)
    (hlist : k'.envFreeList = k.envFreeList) : TabInv k' := by
  have hdirs : k'.dirs = k.dirs := by
    unfold Kernel.dirs
    rw [henvs]
  constructor
  · rw [henvs, hlist, hdirs]
    exact h.free_list
  · rw [henvs, hdirs]
    exact h.live
  · rw [henvs, hdirs]
    exact h.ids

theorem Keeps.setCurenv (h : Keeps managed tables c cur gone k k') (v : Option EnvIdx) :
    Keeps managed tables c cur gone k (k'.setCurenv c v) := by
  refine h.trans ⟨⟨h.inv.mem.congr rfl rfl, h.inv.tab.congr rfl rfl⟩, rfl, fun _ _ => .inr rfl,
    fun c' hne => ⟨Function.update_of_ne hne _ _, rfl⟩, .inl ⟨rfl, rfl⟩⟩

theorem Keeps.setEnv (h : Keeps managed tables c cur gone k k') {f : Env → Env}
    (hdir : (f (k'.envs e)).envPgdir = (k'.envs e).envPgdir)
    (hid : (f (k'.envs e)).envId = (k'.envs e).envId)
    (hlink : (f (k'.envs e)).envLink = (k'.envs e).envLink)
    (hlive : (f (k'.envs e)).envStatus ≠ ENV_FREE → k'.dirs e ≠ none) :
    Keeps managed tables c cur gone k (k'.setEnv e f) :=
  h.trans (h.inv.keeps_setEnv hdir hid hlink hlive).toKeeps

theorem Keeps.schedStart (h : Keeps managed tables c cur gone k k') :
    Keeps managed tables c cur gone k (schedStart k' c).2 := by
  rcases schedStart_snd k' c with heq | ⟨cur', -, hst, heq⟩
  · rw [heq]
    exact h
  · rw [heq]
    refine h.setEnv rfl rfl rfl fun _ => h.inv.tab.live cur' ?_
    rw [hst]
    decide

theorem dirs_schedStart (k : Kernel) (c : Cpu) : (schedStart k c).2.dirs = k.dirs := by
  rcases schedStart_snd k c with heq | ⟨cur, -, -, heq⟩
  · rw [heq]
  · rw [heq, Kernel.setStatus, dirs_setEnv]
    exact Function.update_eq_self cur k.dirs

/-- **`env_run`.** -/
theorem Keeps.envRun (h : Keeps managed tables c cur gone k k') (hdir : k'.dirs e ≠ none) :
    Keeps managed tables c cur gone k (envRun k' c e) ∧ (Jos.envRun k' c e).dirs e ≠ none := by
  have hd : ((Jos.schedStart k' c).2.setCurenv c (some e)).dirs e ≠ none := by
    change (Jos.schedStart k' c).2.dirs e ≠ none
    rw [dirs_schedStart]
    exact hdir
  rw [envRun_eq]
  refine ⟨(h.schedStart.setCurenv (some e)).setEnv rfl rfl rfl fun _ => hd, ?_⟩
  rw [dirs_setEnv, Function.update_self]
  exact hd

/-- What holds at the end of a kernel entry. -/
structure SysOutcome (managed tables : Set Nat) (c : Cpu) (cur : EnvIdx) (gone : EnvIdx → Prop)
    (k : Kernel) (exit : Exit) : Prop where
  run : ∀ k' e, exit = .run k' e →
    Keeps managed tables c cur gone k (envRun k' c e) ∧ (envRun k' c e).dirs e ≠ none
  monitor : ∀ k', exit = .monitor k' → Keeps managed tables c cur gone k k'

theorem Keeps.outcome_sched (h : Keeps managed tables c cur gone k k') :
    SysOutcome managed tables c cur gone k (schedYield k' c) := by
  have h' := h.schedStart
  constructor
  · intro k₁ e hs
    obtain ⟨rfl, hpick⟩ := schedYield_run hs
    apply h'.envRun
    apply h'.inv.tab.live
    rcases hpick with ⟨-, hst⟩ | ⟨-, hst | hst⟩ <;> rw [hst] <;> decide
  · intro k₁ hs
    rw [schedYield_monitor hs]
    exact h'

theorem Keeps.outcome_run (h : Keeps managed tables c cur gone k k') (hdir : k'.dirs e ≠ none) :
    SysOutcome managed tables c cur gone k (.run k' e) := by
  refine ⟨fun k₁ e' heq => ?_, nofun⟩
  cases heq
  exact h.envRun hdir

theorem MidKeeps.outcome_return (h : MidKeeps managed tables c cur gone k k')
    (hcur : k.cpuEnv c = some cur) (hdir : k.dirs cur ≠ none) :
    SysOutcome managed tables c cur gone k (trapReturn k' c) := by
  have hcur' : k'.cpuEnv c = some cur := by
    rw [h.cpuEnv]
    exact hcur
  rcases trapReturn_cases hcur' with ⟨-, heq⟩ | ⟨-, heq⟩
  · rw [heq]
    refine h.toKeeps.outcome_run ?_
    rw [h.dir]
    exact hdir
  · rw [heq]
    exact h.toKeeps.outcome_sched

theorem Keeps.outcome_free (h : MidKeeps managed tables c cur gone k₀ k)
    (hcur : k.cpuEnv c = some cur) (hgone : gone cur) (hfree : Jos.envFree k c cur = .ok k') :
    SysOutcome managed tables c cur gone k₀ (schedYield (k'.setCurenv c none) c) := by
  obtain ⟨hinv, hkern, hdirs, hcpu, hcr3, hown, -⟩ := h.inv.envFree hfree
  rw [if_pos hcur] at hown
  refine Keeps.outcome_sched (Keeps.setCurenv (h.toKeeps.trans ⟨hinv, hkern, fun e _ => ?_,
    fun c' hne => ⟨by rw [hcpu], hcr3 c' hne⟩, .inr hown⟩) none)
  by_cases he : e = cur
  · rw [he]
    exact .inl hgone
  · rw [hdirs, Function.update_of_ne he]
    exact .inr rfl

theorem dirs_save (k : Kernel) (cur : EnvIdx) (tf : Trapframe) : (k.save cur tf).dirs = k.dirs := by
  rw [Kernel.save, dirs_setEnv]
  exact Function.update_eq_self cur k.dirs

theorem CallOk.save (h : CallOk k cur x) (tf : Trapframe) : CallOk (k.save cur tf) cur x := by
  have hphys : (k.save cur tf).phys = k.phys := rfl
  have hdirs := dirs_save k cur tf
  have hfind := envid2env_save k cur tf cur
  have hread : ∀ e, ((k.save cur tf).envs e).envIpcRecving = (k.envs e).envIpcRecving ∧
      ((k.save cur tf).envs e).envIpcDstva = (k.envs e).envIpcDstva ∧
      ((k.save cur tf).envs e).envId = (k.envs e).envId := by
    intro e
    by_cases he : e = cur
    · subst he
      simp [Kernel.save, Kernel.setEnv]
    · simp [Kernel.save, Kernel.setEnv, he]
  refine ⟨fun hno y hy => ?_, fun hno uenv hf hrec hwant hperm hnot y hy => ?_⟩
  · rw [mapTarget_congr hphys hdirs hfind] at hy
    rw [hphys, hdirs]
    exact h.1 hno y hy
  · rw [WantsPage, (hread uenv).2.1] at hwant
    rw [(hread uenv).1] at hrec
    rw [hphys, hdirs, (hread uenv).2.1] at hnot
    rw [(hread cur).2.2, (hread uenv).2.1, mapTarget_congr hphys hdirs hfind] at hy
    rw [hfind] at hf
    exact h.2 hno uenv hf hrec hwant hperm hnot y hy

/-- The exception frame goes into the current environment's own pages. -/
theorem MemInv.pushFrame {σ σ' : Phys} {dirs : EnvIdx → Option Nat} {free : List Nat}
    {held : Set Nat} {d : Nat} (h : MemInv managed tables σ dirs free held)
    (hdir : dirs cur = some d)
    (hst : (uxFrame tf cr2).2.foldlM (Jos.kernStoreWord d) σ = .ok σ') :
    MemInv managed tables σ' dirs free held ∧ vm σ' dirs = vm σ dirs ∧
      σ'.kernPgdir = σ.kernPgdir := by
  refine foldlM_invariant (P := fun τ => MemInv managed tables τ dirs free held ∧
    vm τ dirs = vm σ dirs ∧ τ.kernPgdir = σ.kernPgdir) ?_ ⟨h, rfl, rfl⟩ hst
  rintro ⟨a, w⟩ hy τ τ' ⟨hτ, hv, hk⟩ hs
  obtain ⟨hτ', hv', hk'⟩ := hτ.kernStoreWord hdir (fun o ho => uxFrame_below tf cr2 hy o ho) hs
  exact ⟨hτ', hv'.trans hv, hk'.trans hk⟩

theorem KInv.keeps_upcall (h : KInv managed tables k) {d : Nat} (hdir : k.dirs cur = some d)
    {σ : Phys} (hst : (uxFrame tf cr2).2.foldlM (kernStoreWord d) k.phys = .ok σ) :
    MidKeeps managed tables c cur gone k (k.upcall cur σ cr2) := by
  obtain ⟨free, hm⟩ := h.mem
  obtain ⟨hm', hvm, hkern⟩ := hm.pushFrame hdir hst
  have hstep : MemStep managed tables (fun _ => False) k { k with phys := σ } :=
    ⟨⟨free, hm'⟩, hkern, fun y _ => congrFun hvm y⟩
  have hmid : MidKeeps managed tables c cur gone k { k with phys := σ } := hstep.keeps h.tab rfl
  refine hmid.trans (hmid.inv.keeps_setEnv rfl rfl rfl fun _ => ?_)
  change k.dirs cur ≠ none
  rw [hdir]
  nofun

/-- What the memory needs from a trap of `cur`. -/
def TrapOk (k : Kernel) (cur : EnvIdx) (tf : Trapframe) : Prop :=
  (k.envs cur).envStatus ≠ ENV_DYING → tf.IsSyscall → CallOk k cur tf.call

instance (k : Kernel) (cur : EnvIdx) (tf : Trapframe) : Decidable (TrapOk k cur tf) := by
  unfold TrapOk; infer_instance

/-- **A kernel entry keeps the invariant**, and frees only what `Frees` says. -/
theorem KInv.entry (h : KInv managed tables k) (hcur : k.cpuEnv c = some cur)
    (hdir : k.dirs cur = some (k.cr3 c)) (hok : TrapOk k cur tf)
    (hE : Entry c cur k tf cr2 input exit) :
    SysOutcome managed tables c cur (Frees k cur tf) k exit := by
  have hlive : k.dirs cur ≠ none := by
    rw [hdir]
    nofun
  have hsave : MidKeeps managed tables c cur (Frees k cur tf) k (k.save cur tf) :=
    h.keeps_setEnv rfl rfl rfl fun _ => hlive
  have hs := sameTable_save k cur tf
  have hdir' : (k.save cur tf).dirs cur = some (k.cr3 c) := by
    rw [dirs_save]
    exact hdir
  have hlive' : (k.save cur tf).dirs cur ≠ none := by
    rw [hdir']
    nofun
  have hnotDying : (k.envs cur).envStatus ≠ ENV_DYING → ∀ e, (Frees k cur tf e ↔
      e = cur ∧ Dooms k cur tf ∨ tf.IsSyscall ∧ tf.call.no = SYS_env_destroy ∧
        envid2env k cur tf.call.a1 true = some e ∧ (k.envs e).envStatus ≠ ENV_RUNNING) := by
    intro hd e
    rw [Frees, if_neg hd]
  cases hE with
  | panic msg => exact ⟨nofun, nofun⟩
  | reap hd hfree =>
    refine Keeps.outcome_free h.keeps_refl hcur ?_ hfree
    rw [Frees, if_pos hd]
  | destroySelf hd hdoom hfree =>
    exact Keeps.outcome_free hsave hcur ((hnotDying hd cur).2 (.inl ⟨rfl, hdoom⟩)) hfree
  | yield hd hno => exact hsave.toKeeps.outcome_sched
  | monitor hd hbp =>
    refine ⟨nofun, fun k' heq => ?_⟩
    cases heq
    exact hsave.toKeeps
  | irq hd hirq => exact hsave.outcome_return hcur hlive
  | recv hd hsys hno hblk =>
    exact (hsave.toKeeps.setEnv rfl rfl rfl fun _ => hlive').outcome_sched
  | @call r k' hd hsys hrun hret =>
    have hcall : MidKeeps managed tables c cur (Frees k cur tf) (k.save cur tf) k' := by
      refine hsave.inv.sysReturn hcur hlive' ((hok hd hsys).save tf) hret
        fun e hno hf hst => (hnotDying hd e).2 (.inr ⟨hsys, hno, ?_, ?_⟩)
      · rwa [envid2env_save] at hf
      · rwa [hs.status] at hst
    have hmid := hsave.trans hcall
    refine (hmid.trans (hmid.inv.keeps_setEnv rfl rfl rfl fun _ => ?_)).outcome_return hcur hlive
    rw [hmid.dir]
    exact hlive
  | @fault σ hd hpf hst =>
    have hup : MidKeeps managed tables c cur (Frees k cur tf) (k.save cur tf)
        ((k.save cur tf).upcall cur σ cr2) := hsave.inv.keeps_upcall hdir' hst
    refine (hsave.trans hup).toKeeps.outcome_run ?_
    rw [hup.dir]
    exact hlive'

end Jos
