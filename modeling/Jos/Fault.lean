import Jos.Sched
import Jos.Smp
import Jos.Upcall

/-!
# Page faults of user programs

`page_fault_handler` for a fault in user mode. It should either destroy the environment or leave a
`UTrapframe` on the exception stack and resume at the upcall (`FaultHandled`). The frame is written
by the kernel through the page directory in CR3, so the check of the exception stack before it is
what keeps the kernel from faulting itself: the stack is one page, and `user_mem_check` looks at
that page.

**Theorem (`fault_handled_iff`).** The handler does one or the other unless one of two things
happens. A recursive fault finds less than `RCSV_UTRAP_SIZE` bytes left on the exception stack: the
source says in a comment that the environment is to be destroyed then, but calls `panic`. Or the
environment is destroyed and `sched_yield` panics: its CPU has nothing left to run, not even the
environment in its idle slot, while another CPU runs an ordinary one (`Starves`).
-/

namespace Jos

open Lib

/-! ## The property -/

/-- The words of the frame are in memory, as the directory `d` maps it, and nothing else has
changed: no other frame, and no byte of the exception stack outside the new frame. -/
structure FrameWritten (σ : Phys) (d : Nat) (tf : Trapframe) (faultVa : Word)
    (σ' : Phys) : Prop where
  base : UXSTACKBASE.toNat ≤ (utfAddr tf).toNat
  top : (utfAddr tf).toNat + 52 + (if OnUxStack tf.tfEsp then 4 else 0) ≤ UXSTACKTOP.toNat
  words : ∀ c w, (c, w) ∈ frameWords tf faultVa →
    ByteMem.loadWord (loadByte σ' d) (utfAddr tf + c) = w
  stack : ∀ y, UXSTACKBASE ≤ y → y < UXSTACKTOP → ¬ (utfAddr tf ≤ y ∧ y < uxTop tf) →
    loadByte σ' d y = loadByte σ d y
  frames : ∀ f, f ≠ PGNUM (mmuPte σ d UXSTACKBASE) → σ'.mem f = σ.mem f

/-- The fault is handled, and the kernel does not panic: the environment is destroyed and the
scheduler goes on, or it resumes at its upcall with a frame on its exception stack. -/
def FaultHandled (k : Kernel) (c : Cpu) (cur : EnvIdx) (faultVa : Word) : Prop :=
  (∃ k', envFree k c cur = .ok k' ∧
    pageFaultHandler k c cur faultVa = .error (schedYield (k'.setCurenv c none) c) ∧
    ∀ msg, schedYield (k'.setCurenv c none) c ≠ .panic msg) ∨
  ∃ k', pageFaultHandler k c cur faultVa = .error (.run k' cur) ∧
    (k'.envs cur).envTf = { (k.envs cur).envTf with
      tfEsp := utfAddr (k.envs cur).envTf, tfEip := (k.envs cur).envPgfaultUpcall } ∧
    FrameWritten k.phys (k.cr3 c) (k.envs cur).envTf faultVa k'.phys

/-- The upcall and the exception stack are in order, but a recursive frame does not fit. -/
def Overflows (k : Kernel) (cur : EnvIdx) : Prop :=
  (k.envs cur).envPgfaultUpcall ≠ 0 ∧
    memFaults k cur (k.envs cur).envPgfaultUpcall 0x1000#32 (PTE_U ||| PTE_P) = false ∧
    memFaults k cur (UXSTACKTOP - UTRAP_SIZE) UTRAP_SIZE (PTE_U ||| PTE_P ||| PTE_W) = false ∧
    OnUxStack (k.envs cur).envTf.tfEsp ∧
    UXSTACKBASE > (k.envs cur).envTf.tfEsp - RCSV_UTRAP_SIZE

/-- There is no upcall, or one of the two checks fails. -/
def Denied (k : Kernel) (cur : EnvIdx) : Prop :=
  (k.envs cur).envPgfaultUpcall = 0 ∨
    memFaults k cur (k.envs cur).envPgfaultUpcall 0x1000#32 (PTE_U ||| PTE_P) = true ∨
    memFaults k cur (UXSTACKTOP - UTRAP_SIZE) UTRAP_SIZE (PTE_U ||| PTE_P ||| PTE_W) = true

/-- Without `cur` there is nothing for CPU `c` to run, its idle slot included, but another CPU runs
an ordinary environment. -/
structure Starves (k : Kernel) (c : Cpu) (cur : EnvIdx) : Prop where
  none_ready : ∀ e, e ≠ cur → ¬ Schedulable k e
  running : ∃ e, e ≠ cur ∧ (k.envs e).envType ≠ .IDLE ∧ (k.envs e).envStatus = ENV_RUNNING
  no_idle : idleEnv c ≠ cur → (k.envs (idleEnv c)).envStatus ≠ ENV_RUNNABLE ∧
    (k.envs (idleEnv c)).envStatus ≠ ENV_RUNNING

/-- The state in which `page_fault_handler` is called for a fault of `cur` on CPU `c`. -/
structure FaultState (managed tables : Set Nat) (k : Kernel) (c : Cpu) (cur : EnvIdx) : Prop where
  inv : KInv managed tables k
  cpu : k.cpuEnv c = some cur
  dir : k.dirs cur = some (k.cr3 c)
  tables : ∀ i : Idx, Present (k.phys.mem (k.cr3 c) i) →
    PGNUM (k.phys.mem (k.cr3 c) i) < k.phys.npages
  user : (k.envs cur).envTf.tfCs &&& 3 = 3

variable {managed tables : Set Nat} {k : Kernel} {c : Cpu} {cur : EnvIdx} {tf : Trapframe}
  {faultVa : Word}

/-! ## Where the frame goes -/

/-- There is room for the frame. -/
def Fits (tf : Trapframe) : Prop :=
  ¬ (OnUxStack tf.tfEsp ∧ UXSTACKBASE > tf.tfEsp - RCSV_UTRAP_SIZE)

theorem Fits.bounds (h : Fits tf) :
    0xEEBFF000 ≤ (utfAddr tf).toNat ∧
      (utfAddr tf).toNat + 52 + (if OnUxStack tf.tfEsp then 4 else 0) = (uxTop tf).toNat ∧
      (uxTop tf).toNat ≤ 0xEEC00000 := by
  unfold utfAddr uxTop
  by_cases hux : OnUxStack tf.tfEsp
  · rw [if_pos hux, if_pos hux, if_pos hux]
    obtain ⟨hlo, hhi⟩ := onUxStack_iff.1 hux
    have hle : (56#32).toNat ≤ tf.tfEsp.toNat := by
      simp only [BitVec.toNat_ofNat]
      omega
    have hsub : (tf.tfEsp - 56#32).toNat = tf.tfEsp.toNat - 56 := toNat_sub_of_le hle
    have hfit : UXSTACKBASE.toNat ≤ (tf.tfEsp - 56#32).toNat := by
      have := fun hc => h ⟨hux, hc⟩
      exact BitVec.le_def.1 (BitVec.not_lt.1 this)
    rw [toNat_UXSTACKBASE] at hfit
    omega
  · rw [if_neg hux, if_neg hux, if_neg hux]
    decide

theorem samePage_ux {y : Word} (hlo : 0xEEBFF000 ≤ y.toNat) (hhi : y.toNat < 0xEEC00000) :
    SamePage y UXSTACKBASE := by
  unfold SamePage
  rw [toNat_UXSTACKBASE]
  omega

theorem Fits.store_bounds (h : Fits tf) {x : Word × Word} (hx : x ∈ (uxFrame tf faultVa).2)
    (o : Word) (ho : o.toNat < 4) :
    (utfAddr tf).toNat ≤ (x.1 + o).toNat ∧ (x.1 + o).toNat < (uxTop tf).toNat := by
  obtain ⟨hlo, htop, hhi⟩ := h.bounds
  rw [uxFrame_snd, List.mem_map] at hx
  obtain ⟨⟨b, w⟩, hb, rfl⟩ := hx
  have hb' : b.toNat + 4 ≤ 52 + (if OnUxStack tf.tfEsp then 4 else 0) := by
    rcases List.mem_append.1 hb with hb | hb
    · unfold scratchWords at hb
      split_ifs at hb with hux
      · obtain ⟨rfl, -⟩ := Prod.mk.inj (List.mem_singleton.1 hb)
        rw [if_pos hux]
        decide
      · cases hb
    · have h48 : b.toNat ≤ 48 := offset_le hb
      have := Nat.zero_le (if OnUxStack tf.tfEsp then 4 else 0)
      omega
  have hadd : (utfAddr tf + b + o).toNat = (utfAddr tf).toNat + b.toNat + o.toNat := by
    rw [BitVec.toNat_add, BitVec.toNat_add]
    omega
  constructor
  · rw [hadd]
    omega
  · rw [hadd]
    omega

/-! ## Writing it -/

/-- **The frame is written** if the exception stack is mapped writable. -/
theorem Fits.written {σ : Phys} {d p : Nat} (h : Fits tf) (hmap : MapsTo σ d UXSTACKBASE p)
    (faultVa : Word) :
    ∃ σ', (uxFrame tf faultVa).2.foldlM (kernStoreWord d) σ = .ok σ' ∧
      FrameWritten σ d tf faultVa σ' := by
  obtain ⟨hlo, htop, hhi⟩ := h.bounds
  have hpage : ∀ x ∈ (uxFrame tf faultVa).2, ∀ o : Word, o.toNat < 4 →
      SamePage (x.1 + o) UXSTACKBASE := by
    intro x hx o ho
    obtain ⟨h₁, h₂⟩ := h.store_bounds hx o ho
    exact samePage_ux (by omega) (by omega)
  obtain ⟨σ', hok, hframes, hview⟩ := hmap.storeWords _ hpage fun _ _ => rfl
  refine ⟨σ', hok, ?_, ?_, fun b w hbw => ?_, fun y hy hy' hout => ?_, fun f hf => ?_⟩
  · rw [toNat_UXSTACKBASE]
    exact hlo
  · rw [toNat_UXSTACKTOP]
    omega
  · -- the four bytes of the word are on the page
    have hbytes : ∀ o : Word, o.toNat < 4 → loadByte σ' d (utfAddr tf + b + o) =
        (ByteMem.storeWords (loadByte σ d) (uxFrame tf faultVa).2) (utfAddr tf + b + o) := by
      intro o ho
      refine hview _ (hpage (utfAddr tf + b, w) ?_ o ho)
      rw [uxFrame_snd, List.mem_map]
      exact ⟨(b, w), List.mem_append_right _ hbw, rfl⟩
    rw [ByteMem.loadWord_congr hbytes]
    exact loadWord_frame _ _ _ hbw
  · have hyp : SamePage y UXSTACKBASE := by
      have h₁ : UXSTACKBASE.toNat ≤ y.toNat := hy
      have h₂ : y.toNat < UXSTACKTOP.toNat := hy'
      rw [toNat_UXSTACKBASE] at h₁
      rw [toNat_UXSTACKTOP] at h₂
      exact samePage_ux h₁ h₂
    rw [hview y hyp]
    refine ByteMem.storeWords_of_far fun x hx => ?_
    by_contra hnear
    obtain ⟨h₁, h₂⟩ := h.store_bounds hx (y - x.1) (Nat.lt_of_not_le hnear)
    rw [BitVec.add_comm, BitVec.sub_add_cancel] at h₁ h₂
    exact hout ⟨h₁, h₂⟩
  · rw [hmap.frame] at hf
    exact hframes f hf

/-! ## The checks before -/

theorem FaultState.wfDir (h : FaultState managed tables k c cur) : WfDir k.phys (k.cr3 c) :=
  fun i _ hi => h.tables i hi

theorem FaultState.pgdir (h : FaultState managed tables k c cur) : k.pgdir cur = .ok (k.cr3 c) :=
  pgdir_of_dirs h.dir

theorem FaultState.destroy (h : FaultState managed tables k c cur) :
    ∃ k', envFree k c cur = .ok k' ∧
      envDestroy k c cur = .error (schedYield (k'.setCurenv c none) c) := by
  obtain ⟨free, hm⟩ := h.inv.mem
  obtain ⟨σ', free', hok, -⟩ := hm.freeVm h.dir
  have hfree := envFree_of_freeVm c h.dir hok
  refine ⟨_, hfree, ?_⟩
  rw [envDestroy, if_neg fun hc => hc.2 h.cpu, hfree]
  exact if_pos ((congrFun (cpuEnv_envFree hfree) c).trans h.cpu)

theorem FaultState.assert (h : FaultState managed tables k c cur) {va len perm : Word}
    (hlen : len ≠ 0) :
    memFaults k cur va len perm = true ∧ userMemAssert k c cur va len perm = envDestroy k c cur ∨
      memFaults k cur va len perm = false ∧ userMemAssert k c cur va len perm = .ok k ∧
        userMemCheck k.phys (k.cr3 c) va len (perm ||| PTE_U) = .ok 0 := by
  unfold memFaults userMemAssert
  rw [h.pgdir]
  rcases userMemCheck_eq va (perm ||| PTE_U) h.wfDir hlen with ⟨-, hok⟩ | ⟨-, hbad⟩
  · simp only [orPanic, Except.mapError, ok_bind, hok]
    exact .inr ⟨rfl, rfl, trivial⟩
  · simp only [orPanic, Except.mapError, ok_bind, hbad]
    exact .inl ⟨rfl, rfl⟩

theorem FaultState.mapsTo (h : FaultState managed tables k c cur)
    (hok : userMemCheck k.phys (k.cr3 c) (UXSTACKTOP - UTRAP_SIZE) UTRAP_SIZE
      (PTE_U ||| PTE_P ||| PTE_W ||| PTE_U) = .ok 0) :
    ∃ p, MapsTo k.phys (k.cr3 c) UXSTACKBASE p := by
  obtain ⟨free, hm⟩ := h.inv.mem
  have hva : UXSTACKBASE < UTOP := by decide
  have hpage : PageOk k.phys (k.cr3 c) (PTE_U ||| PTE_P ||| PTE_W ||| PTE_U)
      (UXSTACKTOP - UTRAP_SIZE) := by
    rcases userMemCheck_eq (UXSTACKTOP - UTRAP_SIZE) (PTE_U ||| PTE_P ||| PTE_W ||| PTE_U) h.wfDir
      (by decide : UTRAP_SIZE ≠ 0) with ⟨⟨-, hsteps⟩ | ⟨hwrap, -⟩, -⟩ | ⟨-, hbad⟩
    · exact (hsteps 0 (le_refl 0) (by decide)).2
    · exact absurd hwrap (by decide)
    · rw [hok] at hbad
      cases hbad
  obtain ⟨hpde, hpte⟩ := (PageOk.congr (by decide : (UXSTACKTOP - UTRAP_SIZE).toNat / 4096 =
    UXSTACKBASE.toNat / 4096)).1 hpage
  have hpd : pdes k.phys k.dirs (cur, PDX UXSTACKBASE) = k.phys.mem (k.cr3 c) (PDX UXSTACKBASE) :=
    pdes_of_dir h.dir (PDX_user hva)
  have hw := hm.pde_w (cur, PDX UXSTACKBASE) (by rw [hpd]; exact hpde)
  rw [hpd] at hw
  have hperm : Permits k.phys (k.cr3 c) UXSTACKBASE (PTE_P ||| PTE_W) := by
    constructor
    · have hP : k.phys.mem (k.cr3 c) (PDX UXSTACKBASE) &&& PTE_P = PTE_P := by
        rw [show PTE_P = BitVec.twoPow 32 0 by decide, BitVec.and_twoPow,
          if_pos ((present_iff _).1 hpde)]
      rw [BitVec.and_or_distrib_left, hP, hw]
    · have hall : (PTE_P ||| PTE_W) &&& (PTE_U ||| PTE_P ||| PTE_W ||| PTE_U ||| PTE_P) =
          PTE_P ||| PTE_W := by decide
      rw [mmuPte, BitVec.and_comm]
      calc (PTE_P ||| PTE_W) &&& _
          = ((PTE_P ||| PTE_W) &&& (PTE_U ||| PTE_P ||| PTE_W ||| PTE_U ||| PTE_P)) &&& _ := by
            rw [hall]
        _ = (PTE_P ||| PTE_W) &&& (PTE_U ||| PTE_P ||| PTE_W ||| PTE_U ||| PTE_P) := by
            rw [BitVec.and_assoc, ← hpte]
        _ = PTE_P ||| PTE_W := hall
  obtain ⟨htgt, -⟩ := mmu_target h.dir hva (by decide) hperm
  have htab := (hm.data _ _ _ _ htgt).2
  refine ⟨_, hperm, rfl, fun hc => htab (.dir cur) trivial ?_, fun hc => ?_⟩
  · rw [target, h.dir]
    exact congrArg some hc.symm
  · refine htab (.pde cur (PDX UXSTACKBASE)) trivial ?_
    rw [target, hpd, named_of_present hpde]
    exact congrArg some hc.symm

/-- The walk at the top of the handler does nothing. -/
theorem FaultState.walk (h : FaultState managed tables k c cur) (va : Word) :
    ∃ r, pgdirWalk k.phys (k.cr3 c) va false = .ok r := by
  by_cases hpr : Present (k.phys.mem (k.cr3 c) (PDX va))
  · rw [pgdirWalk, if_pos hpr, pa2page_of_lt (h.tables _ hpr)]
    exact ⟨_, rfl⟩
  · rw [pgdirWalk, if_neg hpr, if_pos rfl]
    exact ⟨_, rfl⟩

/-- **The handler** destroys the environment, or pushes the frame on a writable page. -/
theorem FaultState.handler (h : FaultState managed tables k c cur) (faultVa : Word) :
    Denied k cur ∧ pageFaultHandler k c cur faultVa = envDestroy k c cur ∨
      ¬ Denied k cur ∧
        pageFaultHandler k c cur faultVa = .error (pushUxFrame k c cur faultVa) ∧
        ∃ p, MapsTo k.phys (k.cr3 c) UXSTACKBASE p := by
  have hcs : ¬ (k.envs cur).envTf.tfCs &&& 3 = 0 := by
    rw [h.user]
    decide
  obtain ⟨r, hr⟩ := h.walk faultVa
  unfold pageFaultHandler Denied
  simp only [if_neg hcs, h.pgdir, hr, orPanic, Except.mapError, ok_bind]
  by_cases hup : (k.envs cur).envPgfaultUpcall = 0
  · exact .inl ⟨.inl hup, if_pos hup⟩
  rw [if_neg hup]
  rcases h.assert (by decide : (0x1000#32 : Word) ≠ 0) with ⟨hbad, hexit⟩ | ⟨hgood, hgo, -⟩
  · rw [hexit]
    refine .inl ⟨.inr (.inl hbad), ?_⟩
    obtain ⟨k', -, hd⟩ := h.destroy
    rw [hd]
    rfl
  rw [hgo, ok_bind]
  rcases h.assert (by decide : UTRAP_SIZE ≠ 0) with ⟨hbad, hexit⟩ | ⟨hgood', hgo', hchk⟩
  · rw [hexit]
    refine .inl ⟨.inr (.inr hbad), ?_⟩
    obtain ⟨k', -, hd⟩ := h.destroy
    rw [hd]
    rfl
  rw [hgo', ok_bind]
  refine .inr ⟨?_, rfl, h.mapsTo hchk⟩
  rw [hgood, hgood']
  exact fun hc => hc.elim hup (by decide)

theorem overflows_iff : Overflows k cur ↔ ¬ Denied k cur ∧ ¬ Fits (k.envs cur).envTf := by
  unfold Overflows Denied Fits
  simp only [not_or, Bool.not_eq_true, not_not, and_assoc, ne_eq]

/-- Once `cur` is freed, its CPU has something to run unless it starves. -/
theorem starves_iff {k' : Kernel} (hfree : envFree k c cur = .ok k') :
    (∃ msg, schedYield (k'.setCurenv c none) c = .panic msg) ↔ Starves k c cur := by
  have hgave : gaveUp (k'.setCurenv c none) c = k'.setCurenv c none := by
    simp only [gaveUp, Kernel.setCurenv, Function.update_self]
  obtain ⟨henvs, -⟩ := envs_envFree hfree
  have hother : ∀ e, e ≠ cur → (k'.setCurenv c none).envs e = k.envs e := by
    intro e he
    change k'.envs e = k.envs e
    rw [henvs, Function.update_of_ne he]
  have hself : ((k'.setCurenv c none).envs cur).envStatus = ENV_FREE := by
    change (k'.envs cur).envStatus = ENV_FREE
    rw [henvs, Function.update_self]
  have hasleep : ENV_FREE ≠ ENV_RUNNABLE ∧ ENV_FREE ≠ ENV_RUNNING := by decide
  rw [schedYield_panic_iff, hgave]
  constructor
  · rintro ⟨hnone, hidle, hst⟩
    have hready : ∀ e, e ≠ cur → ¬ Schedulable k e := by
      intro e he hs
      apply hnone e
      rw [Schedulable, hother e he]
      exact hs
    refine ⟨hready, ?_, fun hne => ?_⟩
    · unfold AllIdle at hidle
      push Not at hidle
      obtain ⟨e, htype, hawake⟩ := hidle
      have he : e ≠ cur := by
        rintro rfl
        rw [hself] at hawake
        exact hawake.elim hasleep.1 hasleep.2
      rw [hother e he] at htype hawake
      exact ⟨e, he, htype, hawake.resolve_left fun hr => hready e he ⟨htype, hr⟩⟩
    · rw [hother _ hne] at hst
      exact not_or.1 hst
  · rintro ⟨hready, ⟨e, he, htype, hrun⟩, hidle⟩
    refine ⟨fun e' hs => ?_, fun hall => ?_, fun hst => ?_⟩
    · by_cases he' : e' = cur
      · subst he'
        rw [Schedulable, hself] at hs
        exact hasleep.1 hs.2
      · apply hready e' he'
        rw [Schedulable, hother e' he'] at hs
        exact hs
    · apply hall e
      rw [hother e he]
      exact ⟨htype, .inr hrun⟩
    · by_cases hne : idleEnv c = cur
      · rw [hne, hself] at hst
        exact hst.elim hasleep.1 hasleep.2
      · rw [hother _ hne] at hst
        exact hst.elim (hidle hne).1 (hidle hne).2

theorem FaultState.panics (h : FaultState managed tables k c cur) (href : ¬ Denied k cur)
    (hfits : ¬ Fits (k.envs cur).envTf) (faultVa : Word) :
    pageFaultHandler k c cur faultVa = .error (.panic "It will underflow !!!") := by
  rcases h.handler faultVa with ⟨hc, -⟩ | ⟨-, heq, -⟩
  · exact (href hc).elim
  · rw [heq, pushUxFrame, if_pos (not_not.1 hfits)]

theorem not_handled_of_panic {msg : String}
    (h : pageFaultHandler k c cur faultVa = .error (.panic msg)) :
    ¬ FaultHandled k c cur faultVa := by
  rintro (⟨k', -, hexit, hgo⟩ | ⟨k', hexit, -⟩)
  · rw [h] at hexit
    exact hgo msg (Except.error.inj hexit).symm
  · rw [h] at hexit
    cases hexit

theorem FaultState.starves (h : FaultState managed tables k c cur) (href : Denied k cur)
    (hstarves : Starves k c cur) (faultVa : Word) :
    ∃ msg, pageFaultHandler k c cur faultVa = .error (.panic msg) := by
  obtain ⟨k', hfree, hdestroy⟩ := h.destroy
  obtain ⟨msg, hmsg⟩ := (starves_iff hfree).2 hstarves
  rcases h.handler faultVa with ⟨-, heq⟩ | ⟨hc, -⟩
  · refine ⟨msg, ?_⟩
    rw [heq, hdestroy, hmsg]
  · exact (hc href).elim

/-! ## The result -/

/-- **A page fault of a user program is handled** exactly if the frame does not overflow the
exception stack, and an environment that is destroyed leaves its CPU something to run. -/
theorem fault_handled_iff (h : FaultState managed tables k c cur) (faultVa : Word) :
    FaultHandled k c cur faultVa ↔ ¬ Overflows k cur ∧ ¬ (Denied k cur ∧ Starves k c cur) := by
  obtain ⟨k₁, hfree, hdestroy⟩ := h.destroy
  rw [overflows_iff]
  rcases h.handler faultVa with ⟨href, heq⟩ | ⟨href, heq, p, hmap⟩
  · constructor
    · refine fun hh => ⟨fun hc => hc.1 href, fun hc => ?_⟩
      obtain ⟨msg, hmsg⟩ := h.starves href hc.2 faultVa
      exact not_handled_of_panic hmsg hh
    · refine fun hgo => .inl ⟨k₁, hfree, by rw [heq, hdestroy], fun msg hmsg => ?_⟩
      exact hgo.2 ⟨href, (starves_iff hfree).1 ⟨msg, hmsg⟩⟩
  · by_cases hfits : Fits (k.envs cur).envTf
    · refine ⟨fun _ => ⟨fun hc => hc.2 hfits, fun hc => href hc.1⟩, fun _ => .inr ?_⟩
      obtain ⟨σ', hok, hwritten⟩ := hfits.written hmap faultVa
      refine ⟨k.upcall cur σ' faultVa, ?_, ?_, hwritten⟩
      · rw [heq, pushUxFrame, if_neg hfits, hok]
      · simp only [Kernel.upcall, Kernel.setEnv, Function.update_self, uxFrame_fst]
    · refine ⟨fun hc => ?_, fun hc => (hc.1 ⟨href, hfits⟩).elim⟩
      exact (not_handled_of_panic (h.panics href hfits faultVa) hc).elim

instance : Decidable (Denied k cur) := by unfold Denied; infer_instance

instance : Decidable (Fits tf) := by unfold Fits; infer_instance

/-- The program gets an exception stack and an upcall, and then makes a system call with the stack
pointer `esp`. -/
def faultActs (esp : Word) : List SmpAct :=
  bootActs ++ .start 0 :: leaveActs 0 ++
    callActs 0 SYS_page_alloc 0 UXSTACKBASE (PTE_U ||| PTE_P ||| PTE_W) 0 0 ++
    callActs 0 SYS_env_set_pgfault_upcall 0 0x800000#32 0 0 0 ++
    .trap 0 { sysTf SYS_getenvid 0 0 0 0 0 with tfEsp := esp } 0 0 :: leaveActs 0

/-- CPU 1 has started too, and runs its idle environment. -/
def idleActs : List SmpAct := bootActs ++ .start 0 :: leaveActs 0 ++ .start 1 :: leaveActs 1

/-- A run of the machine that ends with an environment in user mode gives the state of a fault. -/
theorem faultState_of_run {m : Smp} {acts : List SmpAct}
    (hrun : RunWhile Sound Smp.step freshSmp acts m) (hphase : m.phase c = .user)
    (hcpu : m.k.cpuEnv c = some cur)
    (htables : ∀ i : Idx, Present (m.k.phys.mem (m.k.cr3 c) i) →
      PGNUM (m.k.phys.mem (m.k.cr3 c) i) < m.k.phys.npages)
    (huser : (m.k.envs cur).envTf.tfCs &&& 3 = 3) : FaultState (Set.Icc 1 40) ∅ m.k c cur := by
  have hinv := boots_freshSmp.smpInv_run hrun
  obtain ⟨e, he, hd⟩ := hinv.cpu c (.inr hphase)
  obtain rfl : cur = e := Option.some.inj (hcpu.symm.trans he)
  exact ⟨hinv.kinv, hcpu, hd, htables, huser⟩

/-- What the two runs below need of their last state. -/
def faultFacts (m : Smp) : Bool :=
  decide (m.phase 0 = .user ∧ m.k.cpuEnv 0 = some 8 ∧
    (∀ i : Idx, Present (m.k.phys.mem (m.k.cr3 0) i) →
      PGNUM (m.k.phys.mem (m.k.cr3 0) i) < m.k.phys.npages) ∧
    (m.k.envs 8).envTf.tfCs &&& 3 = 3 ∧ ¬ Denied m.k 8)

/-- A recursive fault in the middle of the exception stack. -/
theorem fault_handled_recursive : ∃ k, FaultState (Set.Icc 1 40) ∅ k 0 8 ∧ ¬ Denied k 8 ∧
    OnUxStack (k.envs 8).envTf.tfEsp ∧ FaultHandled k 0 8 0xDEAD0000#32 := by
  have hcomp : (((faultActs 0xEEBFF800#32).foldlM (guardedStep Sound Smp.step) freshSmp).map
      fun m => (faultFacts m, (m.k.envs 8).envTf.tfEsp)) = some (true, 0xEEBFF800#32) := by
    decide +kernel
  obtain ⟨m, hm, hfacts⟩ := Option.map_eq_some_iff.1 hcomp
  obtain ⟨hfacts, hesp⟩ := Prod.mk.inj hfacts
  obtain ⟨hphase, hcpu, htables, huser, href⟩ := of_decide_eq_true hfacts
  have hst := faultState_of_run (RunWhile.of_foldlM hm) hphase hcpu htables huser
  refine ⟨m.k, hst, href, ?_, (fault_handled_iff hst _).2 ⟨fun hc => ?_, fun hc => href hc.1⟩⟩
  · rw [hesp]
    decide
  · have hfits := (overflows_iff.1 hc).2
    unfold Fits at hfits
    rw [hesp] at hfits
    exact hfits (by decide)

/-- With eight bytes left on the exception stack the kernel panics. -/
theorem fault_overflow_panics : ∃ k, FaultState (Set.Icc 1 40) ∅ k 0 8 ∧
    pageFaultHandler k 0 8 0xDEAD0000#32 = .error (.panic "It will underflow !!!") ∧
    ¬ FaultHandled k 0 8 0xDEAD0000#32 := by
  have hcomp : (((faultActs 0xEEBFF008#32).foldlM (guardedStep Sound Smp.step) freshSmp).map
      fun m => (faultFacts m, (m.k.envs 8).envTf.tfEsp)) = some (true, 0xEEBFF008#32) := by
    decide +kernel
  obtain ⟨m, hm, hfacts⟩ := Option.map_eq_some_iff.1 hcomp
  obtain ⟨hfacts, hesp⟩ := Prod.mk.inj hfacts
  obtain ⟨hphase, hcpu, htables, huser, href⟩ := of_decide_eq_true hfacts
  have hst := faultState_of_run (RunWhile.of_foldlM hm) hphase hcpu htables huser
  have hfits : ¬ Fits (m.k.envs 8).envTf := by
    unfold Fits
    rw [hesp]
    decide
  have hpanic := hst.panics href hfits 0xDEAD0000#32
  exact ⟨m.k, hst, hpanic, not_handled_of_panic hpanic⟩

/-- An idle environment without an upcall faults while a program runs on another CPU, and the kernel
panics. -/
theorem fault_starves_panics : ∃ k, FaultState (Set.Icc 1 40) ∅ k 1 1 ∧ ¬ Overflows k 1 ∧
    (∃ msg, pageFaultHandler k 1 1 0xDEAD0000#32 = .error (.panic msg)) ∧
    ¬ FaultHandled k 1 1 0xDEAD0000#32 := by
  have hcomp : ((idleActs.foldlM (guardedStep Sound Smp.step) freshSmp).map fun m =>
      decide (m.phase 1 = .user ∧ m.k.cpuEnv 1 = some 1 ∧
        (∀ i : Idx, Present (m.k.phys.mem (m.k.cr3 1) i) →
          PGNUM (m.k.phys.mem (m.k.cr3 1) i) < m.k.phys.npages) ∧
        (m.k.envs 1).envTf.tfCs &&& 3 = 3 ∧ (m.k.envs 1).envPgfaultUpcall = 0 ∧
        (∀ e, e ≠ 1 → ¬ Schedulable m.k e) ∧
        (m.k.envs 8).envType ≠ .IDLE ∧ (m.k.envs 8).envStatus = ENV_RUNNING)) = some true := by
    decide +kernel
  obtain ⟨m, hm, hfacts⟩ := Option.map_eq_some_iff.1 hcomp
  obtain ⟨hphase, hcpu, htables, huser, hup, hnone, htype, hst8⟩ := of_decide_eq_true hfacts
  have hst := faultState_of_run (RunWhile.of_foldlM hm) hphase hcpu htables huser
  have hstarves : Starves m.k 1 1 := ⟨hnone, ⟨8, by decide, htype, hst8⟩, fun hne => absurd rfl hne⟩
  obtain ⟨msg, hpanic⟩ := hst.starves (.inl hup) hstarves 0xDEAD0000#32
  exact ⟨m.k, hst, fun hc => hc.1 hup, ⟨msg, hpanic⟩, not_handled_of_panic hpanic⟩

end Jos
