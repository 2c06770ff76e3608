import Mathlib.Tactic
import Mathlib.Data.Fintype.Card

/-!
# The MMU and the memory layout

The constants and address macros of `inc/mmu.h`, `inc/memlayout.h` and `inc/error.h`. A
machine word is a `BitVec 32`; a physical page is named by its number, which is also the
index of its `struct Page` in `pages[]`, so `page2pa` and `pa2page` are the only bridge
between the two.

A page directory or page table is a frame of 1024 words, and its entries are indexed by
`Fin 1024`.
-/

namespace Jos

/-- A 32-bit machine word (`uint32_t`, `pte_t`, `pde_t`, `physaddr_t`, a pointer). -/
abbrev Word := BitVec 32

/-- An index into a page directory or a page table. -/
abbrev Idx := Fin 1024

/-- An environment slot: an index into `envs[NENV]`. -/
abbrev EnvIdx := Fin 1024

instance neZero_1024 : NeZero 1024 := ⟨by decide⟩

/-! ## Constants -/

def PGSIZE : Nat := 4096
def PTSIZE : Word := 0x400000#32

def PTE_P : Word := 0x001#32
def PTE_W : Word := 0x002#32
def PTE_U : Word := 0x004#32
def PTE_A : Word := 0x020#32
def PTE_D : Word := 0x040#32
def PTE_AVAIL : Word := 0xE00#32

/-- The flags a system call may ask for. -/
def PTE_SYSCALL : Word := PTE_AVAIL ||| PTE_P ||| PTE_W ||| PTE_U

def KERNBASE : Word := 0xF0000000#32
def KSTACKTOP : Word := KERNBASE - PTSIZE
def ULIM : Word := KSTACKTOP - PTSIZE
def UVPT : Word := ULIM - PTSIZE
def UPAGES : Word := UVPT - PTSIZE
def UENVS : Word := UPAGES - PTSIZE
def UTOP : Word := UENVS
def UXSTACKTOP : Word := UTOP
def UXSTACKBASE : Word := UTOP - 0x1000#32
def USTACKTOP : Word := UTOP - 0x2000#32
def UTEMP : Word := PTSIZE
def PFTEMP : Word := UTEMP + PTSIZE - 0x1000#32

/-- The address that stands for "no page" in the IPC calls. -/
def IPC_NO_PAGE : Word := 0xaabbccdd#32

def E_UNSPECIFIED : Word := 1#32
def E_BAD_ENV : Word := 2#32
def E_INVAL : Word := 3#32
def E_NO_MEM : Word := 4#32
def E_NO_FREE_ENV : Word := 5#32
def E_FAULT : Word := 6#32
def E_IPC_NOT_RECV : Word := 7#32

/-! ## Address macros -/

/-- The page number of an address. -/
def PGNUM (la : Word) : Nat := (la >>> 12).toNat

/-- The page directory index of a linear address. -/
def PDX (la : Word) : Idx := ⟨(la >>> 22).toNat % 1024, Nat.mod_lt _ (by decide)⟩

/-- The page table index of a linear address. -/
def PTX (la : Word) : Idx := ⟨(la >>> 12).toNat % 1024, Nat.mod_lt _ (by decide)⟩

/-- The offset of an address in its page. -/
def PGOFF (la : Word) : Word := la &&& 0xFFF#32

/-- The linear address with the given indices and offset. -/
def PGADDR (d t : Idx) (o : Word) : Word :=
  BitVec.ofNat 32 d <<< 22 ||| BitVec.ofNat 32 t <<< 12 ||| o

/-- The address part of a PTE or PDE. -/
def PTE_ADDR (pte : Word) : Word := pte &&& ~~~0xFFF#32

def page2pa (pp : Nat) : Word := BitVec.ofNat 32 pp <<< 12

/-- The entry has `PTE_P` set. -/
def Present (pte : Word) : Prop := pte &&& PTE_P ≠ 0

instance (pte : Word) : Decidable (Present pte) := by unfold Present; infer_instance

/-- The directory entries below `UTOP`, the part of the address space an environment owns. -/
def Idx.User (i : Idx) : Prop := i < PDX UTOP

instance (i : Idx) : Decidable i.User := by unfold Idx.User; infer_instance

/-! ## Flags and addresses do not mix -/

theorem toNat_PTE_ADDR (w : Word) : (PTE_ADDR w).toNat = w.toNat / 4096 * 4096 := by
  have h : PTE_ADDR w = (w >>> 12) <<< 12 := by
    ext i hi
    simp only [PTE_ADDR, BitVec.getElem_and, BitVec.getElem_not, BitVec.getElem_shiftLeft]
    by_cases h : i < 12
    · interval_cases i <;> simp
    · have h' : 12 ≤ i := by omega
      interval_cases i <;> simp
  rw [h]
  have := w.isLt
  simp only [BitVec.toNat_shiftLeft, BitVec.toNat_ushiftRight, Nat.shiftLeft_eq,
    Nat.shiftRight_eq_div_pow]
  omega

theorem toNat_PGNUM (w : Word) : PGNUM w = w.toNat / 4096 := by
  simp [PGNUM, Nat.shiftRight_eq_div_pow]

theorem PGNUM_lt (w : Word) : PGNUM w < 2 ^ 20 := by
  have := w.isLt
  rw [toNat_PGNUM]
  omega

theorem PGNUM_congr {v w : Word} (h : PTE_ADDR v = PTE_ADDR w) : PGNUM v = PGNUM w := by
  have := congrArg BitVec.toNat h
  rw [toNat_PTE_ADDR, toNat_PTE_ADDR] at this
  rw [toNat_PGNUM, toNat_PGNUM]
  omega

theorem toNat_page2pa {pp : Nat} (h : pp < 2 ^ 20) : (page2pa pp).toNat = pp * 4096 := by
  simp only [page2pa, BitVec.toNat_shiftLeft, BitVec.toNat_ofNat, Nat.shiftLeft_eq]
  omega

theorem PTE_ADDR_or (v w : Word) : PTE_ADDR (v ||| w) = PTE_ADDR v ||| PTE_ADDR w := by
  unfold PTE_ADDR
  ext i hi
  simp [Bool.and_or_distrib_right]

@[simp] theorem PTE_ADDR_page2pa (pp : Nat) : PTE_ADDR (page2pa pp) = page2pa pp := by
  apply BitVec.eq_of_toNat_eq
  rw [toNat_PTE_ADDR]
  simp only [page2pa, BitVec.toNat_shiftLeft, BitVec.toNat_ofNat, Nat.shiftLeft_eq]
  omega

@[simp] theorem PTE_ADDR_PTE_P : PTE_ADDR PTE_P = 0#32 := by decide

@[simp] theorem PTE_ADDR_PTE_W : PTE_ADDR PTE_W = 0#32 := by decide

@[simp] theorem PTE_ADDR_zero : PTE_ADDR 0#32 = 0#32 := by decide

theorem PGNUM_page2pa {pp : Nat} (h : pp < 2 ^ 20) : PGNUM (page2pa pp) = pp := by
  rw [toNat_PGNUM, toNat_page2pa h]
  omega

/-- An entry built from a page and flags names that page. -/
theorem PGNUM_page2pa_or {pp : Nat} {f : Word} (h : pp < 2 ^ 20) (hf : PTE_ADDR f = 0) :
    PGNUM (page2pa pp ||| f) = pp := by
  rw [PGNUM_congr (w := page2pa pp), PGNUM_page2pa h]
  simp [PTE_ADDR_or, hf]

theorem page2pa_injective {p q : Nat} (hp : p < 2 ^ 20) (hq : q < 2 ^ 20)
    (h : page2pa p = page2pa q) : p = q := by
  rw [← PGNUM_page2pa hp, h, PGNUM_page2pa hq]

theorem page2pa_PGNUM (w : Word) : page2pa (PGNUM w) = PTE_ADDR w := by
  apply BitVec.eq_of_toNat_eq
  rw [toNat_page2pa (PGNUM_lt w), toNat_PTE_ADDR, toNat_PGNUM]

/-- Flags inside `PTE_SYSCALL` leave the address part alone. -/
theorem PTE_ADDR_of_syscall {perm : Word} (h : perm &&& ~~~PTE_SYSCALL = 0) :
    PTE_ADDR perm = 0 := by
  have hsub : PTE_ADDR (perm &&& PTE_SYSCALL) = 0 := by
    unfold PTE_ADDR
    rw [BitVec.and_assoc, show PTE_SYSCALL &&& ~~~0xFFF#32 = 0 by decide]
    simp
  have hperm : perm = perm &&& PTE_SYSCALL := by
    ext i hi
    have := congrArg (·.getLsbD i) h
    simp only [BitVec.getLsbD_and, BitVec.getLsbD_not, hi, decide_true, Bool.true_and] at this
    simp only [BitVec.getElem_and]
    rw [← BitVec.getLsbD_eq_getElem, ← BitVec.getLsbD_eq_getElem]
    cases hb : perm.getLsbD i <;> cases hs : PTE_SYSCALL.getLsbD i <;> simp_all
  rw [hperm]
  exact hsub

/-! ## Presence -/

@[simp] theorem not_present_zero : ¬ Present 0#32 := by decide

theorem present_or_PTE_P (w : Word) : Present (w ||| PTE_P) := by
  intro h
  have := congrArg (·.getLsbD 0) h
  simp [PTE_P] at this

theorem present_iff (w : Word) : Present w ↔ w.getLsbD 0 = true := by
  have hbit : w &&& PTE_P = if w.getLsbD 0 then 1#32 else 0#32 := by
    rw [show PTE_P = BitVec.twoPow 32 0 by decide, BitVec.and_twoPow]
    rfl
  unfold Present
  rw [hbit]
  cases w.getLsbD 0 <;> decide

theorem present_or {v w : Word} : Present (v ||| w) ↔ Present v ∨ Present w := by
  simp [present_iff]

/-! ## Indices -/

@[simp] theorem val_PDX (la : Word) : (PDX la).val = la.toNat / 2 ^ 22 := by
  have := la.isLt
  simp only [PDX, BitVec.toNat_ushiftRight, Nat.shiftRight_eq_div_pow]
  omega

@[simp] theorem val_PTX (la : Word) : (PTX la).val = la.toNat / 4096 % 1024 := by
  simp [PTX, Nat.shiftRight_eq_div_pow]

theorem toNat_PGADDR (d t : Idx) : (PGADDR d t 0).toNat = d.val * 2 ^ 22 + t.val * 4096 := by
  have hd := d.isLt
  have ht := t.isLt
  have hor : (d.val * 2 ^ 22) ||| (t.val * 4096) = d.val * 2 ^ 22 + t.val * 4096 := by
    rw [Nat.mul_comm d.val, Nat.two_pow_add_eq_or_of_lt (by omega)]
  simp only [PGADDR, BitVec.toNat_or, BitVec.toNat_shiftLeft, BitVec.toNat_ofNat,
    Nat.shiftLeft_eq]
  rw [Nat.mod_eq_of_lt (by omega : d.val < 2 ^ 32), Nat.mod_eq_of_lt (by omega : t.val < 2 ^ 32),
    Nat.mod_eq_of_lt (by omega : d.val * 2 ^ 22 < 2 ^ 32),
    Nat.mod_eq_of_lt (by omega : t.val * 2 ^ 12 < 2 ^ 32)]
  simpa using hor

@[simp] theorem PDX_PGADDR (d t : Idx) : PDX (PGADDR d t 0) = d := by
  have ht := t.isLt
  ext
  rw [val_PDX, toNat_PGADDR]
  omega

@[simp] theorem PTX_PGADDR (d t : Idx) : PTX (PGADDR d t 0) = t := by
  have ht := t.isLt
  ext
  rw [val_PTX, toNat_PGADDR]
  omega

/-- Addresses below `UTOP` are the ones whose directory entry the environment owns. -/
theorem PDX_user {va : Word} (h : va < UTOP) : (PDX va).User := by
  have h' : va.toNat < UTOP.toNat := h
  have hU : UTOP.toNat = 955 * 2 ^ 22 := by decide
  have hP : (PDX UTOP).val = 955 := by decide
  show (PDX va).val < (PDX UTOP).val
  rw [hP, val_PDX]
  omega

end Jos
