import Jos.Region
import Jos.ForkResult

/-!
# `load_icode`

`load_icode` (`kern/env.c`) makes the first address space of an environment from an ELF image that
is linked into the kernel. It loads the directory of the environment into CR3 and, for each program
header of type `ELF_PROG_LOAD`, allocates a region, copies the bytes of the file into it and clears
the rest. Then it adds a page for the stack and sets the entry point.

**The model.** `m` is memory as the kernel reads it: the image is at `binary`. The image is part of
the kernel, no page of it is ever mapped below `UTOP`, so the stores of `load_icode` do not change
it. `memset` and `memmove` are the versions with string instructions (`ASM` is defined): they store
words or bytes, and `memmove` goes up or down.

**The address space** is described by `Owned`: the address may be written, and its page is mapped
nowhere else. A store changes the byte at its own address and nothing else that is owned
(`Owned.store`), a region adds addresses and keeps the bytes of those there are
(`RegionFilled.owned_old`). So the bytes of a segment are still there when the last one is loaded.

An empty segment at an address inside a page has a page, because `region_alloc` rounds both ends.
-/

namespace Jos

open Lib

/-! ## Definitions -/

def ELF_MAGIC : Word := 0x464C457F#32
def ELF_PROG_LOAD : Word := 1#32

/-- The fields of `struct Elf` that are read. -/
structure Elf where
  eMagic : Word
  eEntry : Word
  ePhoff : Word
  ePhnum : BitVec 16

/-- The header at `a`. -/
def elfAt (m : ByteMem) (a : Word) : Elf where
  eMagic := m.loadWord a
  eEntry := m.loadWord (a + 24#32)
  ePhoff := m.loadWord (a + 28#32)
  ePhnum := m (a + 45#32) ++ m (a + 44#32)

/-- The fields of `struct Proghdr` that are read. -/
structure Proghdr where
  pType : Word
  pOffset : Word
  pVa : Word
  pFilesz : Word
  pMemsz : Word

/-- The program header at `a`. -/
def proghdrAt (m : ByteMem) (a : Word) : Proghdr where
  pType := m.loadWord a
  pOffset := m.loadWord (a + 4#32)
  pVa := m.loadWord (a + 8#32)
  pFilesz := m.loadWord (a + 16#32)
  pMemsz := m.loadWord (a + 20#32)

/-- The program headers of the image. -/
def proghdrs (m : ByteMem) (binary : Word) : List Proghdr :=
  (List.range (elfAt m binary).ePhnum.toNat).map fun i =>
    proghdrAt m (binary + (elfAt m binary).ePhoff + BitVec.ofNat 32 (32 * i))

/-- A store of one byte through the directory in CR3. -/
def putByte (d : Nat) (σ : Phys) (x : Word × BitVec 8) : Except String Phys :=
  kernStoreByte σ d x.1 x.2

/-- `memset`: `rep stosl` if start and length are whole words, else `rep stosb`. -/
def memset (d : Nat) (σ : Phys) (v : Word) (c : BitVec 8) (n : Word) : Except String Phys :=
  if n = 0 then .ok σ
  else if v.toNat % 4 = 0 ∧ n.toNat % 4 = 0 then
    ((List.range (n.toNat / 4)).map fun i => (v + BitVec.ofNat 32 (4 * i), ofBytes c c c c)).foldlM
      (kernStoreWord d) σ
  else ((List.range n.toNat).map fun i => (v + BitVec.ofNat 32 i, c)).foldlM (putByte d) σ

/-- `memmove` from memory that the stores do not change: up or down, by words or by bytes. -/
def memmove (m : ByteMem) (d : Nat) (σ : Phys) (dst src n : Word) : Except String Phys :=
  if src < dst ∧ dst < src + n then
    if (src + n).toNat % 4 = 0 ∧ (dst + n).toNat % 4 = 0 ∧ n.toNat % 4 = 0 then
      ((List.range (n.toNat / 4)).map fun i =>
        (dst + n - 4#32 - BitVec.ofNat 32 (4 * i),
          m.loadWord (src + n - 4#32 - BitVec.ofNat 32 (4 * i)))).foldlM (kernStoreWord d) σ
    else
      ((List.range n.toNat).map fun i =>
        (dst + n - 1#32 - BitVec.ofNat 32 i, m (src + n - 1#32 - BitVec.ofNat 32 i))).foldlM
        (putByte d) σ
  else if src.toNat % 4 = 0 ∧ dst.toNat % 4 = 0 ∧ n.toNat % 4 = 0 then
    ((List.range (n.toNat / 4)).map fun i =>
      (dst + BitVec.ofNat 32 (4 * i), m.loadWord (src + BitVec.ofNat 32 (4 * i)))).foldlM
        (kernStoreWord d) σ
  else
    ((List.range n.toNat).map fun i =>
      (dst + BitVec.ofNat 32 i, m (src + BitVec.ofNat 32 i))).foldlM (putByte d) σ

/-- The body of the loop over the program headers. `pgdir` is `e->env_pgdir`, `cr3` the directory in
force. -/
def loadSegment (m : ByteMem) (binary : Word) (pgdir cr3 : Nat) (σ : Phys) (ph : Proghdr) :
    Except String Phys :=
  if ph.pType ≠ ELF_PROG_LOAD then .ok σ
  else if ph.pMemsz < ph.pFilesz then .error "ph->p_filesz > ph->p_memsz\n"
  else do
    let (_, σ) ← regionAlloc σ pgdir ph.pVa ph.pMemsz
    let σ ← memmove m cr3 σ ph.pVa (binary + ph.pOffset) ph.pFilesz
    memset cr3 σ (ph.pVa + ph.pFilesz) 0 (ph.pMemsz - ph.pFilesz)

/-- `load_icode` on CPU `c`. -/
def loadIcode (k : Kernel) (c : Cpu) (e : EnvIdx) (m : ByteMem) (binary : Word) :
    Except String Kernel :=
  let elf := elfAt m binary
  if ELF_MAGIC ≠ elf.eMagic then .ok k
  else do
    let pgdir ← k.pgdir e
    let k := k.lcr3 c pgdir
    let σ ← (proghdrs m binary).foldlM (loadSegment m binary pgdir (k.cr3 c)) k.phys
    match ← regionAlloc σ pgdir (USTACKTOP - 0x1000#32) 0x1000#32 with
    | (none, _) => .error "Not Found!?\n"
    | (some _, σ) =>
      let σ ← memset (k.cr3 c) σ ((k.envs e).envTf.tfEsp - 0x1000#32) 0 0x1000#32
      let k := { k with phys := σ }
      let k := k.setEnv e fun env => { env with envTf := { env.envTf with tfEip := elf.eEntry } }
      return k.lcr3 c k.phys.kernPgdir

variable {managed tables : Set Nat} {σ σ' σ₁ : Phys} {dirs : EnvIdx → Option Nat}
  {free free' : List Nat} {e : EnvIdx} {d n : Nat} {a va len dst src : Word} {m : ByteMem}

/-! ## Addresses of one's own -/

/-- User programs may write at `a`, and its page is mapped nowhere else. -/
structure Owned (σ : Phys) (dirs : EnvIdx → Option Nat) (e : EnvIdx) (d : Nat)
    (a : Word) : Prop where
  lt : a < UTOP
  permits : Permits σ d a (PTE_P ||| PTE_U ||| PTE_W)
  alone : ∀ s, target σ dirs s = target σ dirs (.pte e (PDX a) (PTX a)) → s = .pte e (PDX a) (PTX a)

theorem Owned.frame (h : Owned σ dirs e d a) (hd : dirs e = some d) :
    target σ dirs (.pte e (PDX a) (PTX a)) = some (PGNUM (mmuPte σ d a)) :=
  (mmu_target hd h.lt (by decide) h.permits).1

theorem Owned.samePage {b : Word} (h : Owned σ dirs e d a) (h' : Owned σ dirs e d b)
    (hd : dirs e = some d) (hf : PGNUM (mmuPte σ d b) = PGNUM (mmuPte σ d a)) : SamePage b a := by
  have hslot := h.alone (.pte e (PDX b) (PTX b)) (by rw [h'.frame hd, h.frame hd, hf])
  injection hslot with _ hi hj
  have hi' := congrArg Fin.val hi
  have hj' := congrArg Fin.val hj
  rw [val_PDX, val_PDX] at hi'
  rw [val_PTX, val_PTX] at hj'
  unfold SamePage
  omega

theorem Owned.mapsTo (h : Owned σ dirs e d a) (hinv : MemInv managed tables σ dirs free ∅)
    (hd : dirs e = some d) : MapsTo σ d a (PGNUM (mmuPte σ d a)) := by
  have hdata := (hinv.data _ _ _ _ (h.frame hd)).2
  have hweak : ∀ w : Word, w &&& (PTE_P ||| PTE_U ||| PTE_W) = PTE_P ||| PTE_U ||| PTE_W →
      w &&& (PTE_P ||| PTE_W) = PTE_P ||| PTE_W := fun w hw => by
    have hsub : PTE_P ||| PTE_W = (PTE_P ||| PTE_U ||| PTE_W) &&& (PTE_P ||| PTE_W) := by decide
    rw [hsub, ← BitVec.and_assoc, hw]
  refine ⟨⟨hweak _ h.permits.1, hweak _ h.permits.2⟩, rfl, fun hc => ?_, fun hc => ?_⟩
  · exact hdata (.dir e) trivial (hd.trans (congrArg some hc.symm))
  · refine hdata (.pde e (PDX a)) trivial ?_
    rw [hc, target, pdes_of_dir hd (PDX_user h.lt)]
    exact named_of_present (present_of_and h.permits.1 (by decide))

/-- The addresses that are owned stay owned, and the directory is in use. -/
structure Kept (managed tables : Set Nat) (σ σ' : Phys) (dirs : EnvIdx → Option Nat)
    (free : List Nat) (e : EnvIdx) (d : Nat) : Prop where
  inv : MemInv managed tables σ' dirs free ∅
  vm : vm σ' dirs = vm σ dirs
  target : target σ' dirs = target σ dirs
  kernPgdir : σ'.kernPgdir = σ.kernPgdir
  owned : ∀ y, Owned σ dirs e d y → Owned σ' dirs e d y

/-- **A store of one byte.** -/
theorem Owned.store (h : Owned σ dirs e d a) (hinv : MemInv managed tables σ dirs free ∅)
    (hd : dirs e = some d) (b : BitVec 8) :
    ∃ σ', putByte d σ (a, b) = .ok σ' ∧ Kept managed tables σ σ' dirs free e d ∧
      ∀ y, Owned σ dirs e d y → loadByte σ' d y = if y = a then b else loadByte σ d y := by
  have hto := h.mapsTo hinv hd
  obtain ⟨hok, hmem, hview⟩ := hto.storeByte b
  obtain ⟨hinv', hvm⟩ := hinv.storeByte hd h.lt (by decide) h.permits b
  have hdata := (hinv.data _ _ _ _ (h.frame hd)).2
  have hpd : pdes (storeByte σ d a b) dirs = pdes σ dirs := pdes_congr fun e' d' hd' i _ => by
    rw [hmem d' fun hc => hdata (.dir e') trivial (hc ▸ hd')]
  have htgt : target (storeByte σ d a b) dirs = target σ dirs := target_congr hpd hvm
  have hpte : ∀ y, Owned σ dirs e d y → (storeByte σ d a b).mem d = σ.mem d ∧
      mmuPte (storeByte σ d a b) d y = mmuPte σ d y := fun y hy => by
    have hdir : (storeByte σ d a b).mem d = σ.mem d := hmem d hto.ne_dir.symm
    refine ⟨hdir, ?_⟩
    rw [mmuPte, hdir, hmem _ fun hc => hdata (.pde e (PDX y)) trivial ?_]
    · rfl
    · rw [Jos.target, pdes_of_dir hd (PDX_user hy.lt), ← hc]
      exact named_of_present (present_of_and hy.permits.1 (by decide))
  refine ⟨storeByte σ d a b, hok, ⟨hinv', hvm, htgt, rfl, fun y hy => ⟨hy.lt, ?_, ?_⟩⟩,
    fun y hy => ?_⟩
  · obtain ⟨hdir, hy'⟩ := hpte y hy
    unfold Permits
    rw [hdir, hy']
    exact hy.permits
  · rw [htgt]
    exact hy.alone
  · by_cases hsame : SamePage y a
    · exact hview y hsame
    · have hne : PGNUM (mmuPte σ d y) ≠ PGNUM (mmuPte σ d a) :=
        fun hc => hsame (h.samePage hy hd hc)
      have hya : y ≠ a := fun hc => hsame (hc ▸ rfl)
      rw [if_neg hya, loadByte, loadByte, mmuWord, (hpte y hy).2, mmuWord, Phys.load,
        Phys.load, hmem _ hne]

/-! ## Stores to a range -/

/-- `n` bytes from `dst` on are stored, and no other owned byte is changed. -/
structure BytesStored (managed tables : Set Nat) (σ σ' : Phys) (dirs : EnvIdx → Option Nat)
    (free : List Nat) (e : EnvIdx) (d : Nat) (dst : Word) (n : ℕ) (g : ℕ → BitVec 8) : Prop where
  kept : Kept managed tables σ σ' dirs free e d
  inside : ∀ j < n, loadByte σ' d (dst + BitVec.ofNat 32 j) = g j
  outside : ∀ y, Owned σ dirs e d y → (∀ j < n, y ≠ dst + BitVec.ofNat 32 j) →
    loadByte σ' d y = loadByte σ d y

theorem Kept.refl (h : MemInv managed tables σ dirs free ∅) :
    Kept managed tables σ σ dirs free e d :=
  ⟨h, rfl, rfl, rfl, fun _ hy => hy⟩

theorem Kept.trans {σ₂ : Phys} (h : Kept managed tables σ σ₁ dirs free e d)
    (h' : Kept managed tables σ₁ σ₂ dirs free e d) : Kept managed tables σ σ₂ dirs free e d :=
  ⟨h'.inv, h'.vm.trans h.vm, h'.target.trans h.target, h'.kernPgdir.trans h.kernPgdir,
    fun y hy => h'.owned y (h.owned y hy)⟩

/-- **Stores to owned addresses**, in any order: a byte is the one stored there. -/
theorem putBytes_ok (hd : dirs e = some d) (f : Word → BitVec 8) (l : List (Word × BitVec 8))
    (hinv : MemInv managed tables σ dirs free ∅)
    (hl : ∀ x ∈ l, Owned σ dirs e d x.1 ∧ x.2 = f x.1) :
    ∃ σ', l.foldlM (putByte d) σ = .ok σ' ∧ Kept managed tables σ σ' dirs free e d ∧
      ∀ y, Owned σ dirs e d y →
        loadByte σ' d y = if y ∈ l.map Prod.fst then f y else loadByte σ d y := by
  induction l generalizing σ with
  | nil => exact ⟨σ, rfl, .refl hinv, fun y _ => by simp⟩
  | cons x l ih =>
    obtain ⟨hx, hfx⟩ := hl x List.mem_cons_self
    obtain ⟨σ₁, hput, hkept, hview⟩ := hx.store hinv hd x.2
    obtain ⟨σ', hrun, hkept', hview'⟩ := ih hkept.inv fun y hy =>
      ⟨hkept.owned _ (hl y (List.mem_cons_of_mem x hy)).1, (hl y (List.mem_cons_of_mem x hy)).2⟩
    refine ⟨σ', ?_, hkept.trans hkept', fun y hy => ?_⟩
    · rw [List.foldlM_cons, hput]
      exact hrun
    · rw [hview' y (hkept.owned y hy), hview y hy, List.map_cons]
      by_cases hmem : y ∈ l.map Prod.fst
      · rw [if_pos hmem, if_pos (List.mem_cons_of_mem _ hmem)]
      · rw [if_neg hmem]
        by_cases hyx : y = x.1
        · rw [if_pos hyx, if_pos (hyx ▸ List.mem_cons_self), hfx, hyx]
        · rw [if_neg hyx, if_neg fun hc => (List.mem_cons.1 hc).elim hyx hmem]

/-- The bytes of a word, with their addresses. -/
def wordBytes (x : Word × Word) : List (Word × BitVec 8) :=
  [(x.1, byteAt x.2 0), (x.1 + 1#32, byteAt x.2 1), (x.1 + 2#32, byteAt x.2 2),
    (x.1 + 3#32, byteAt x.2 3)]

theorem kernStoreWord_eq (d : Nat) (σ : Phys) (x : Word × Word) :
    kernStoreWord d σ x = (wordBytes x).foldlM (putByte d) σ := by
  simp only [wordBytes, kernStoreWord, putByte, List.foldlM_cons, List.foldlM_nil, bind_pure]

theorem foldlM_words (d : Nat) (l : List (Word × Word)) (σ : Phys) :
    l.foldlM (kernStoreWord d) σ = (l.flatMap wordBytes).foldlM (putByte d) σ := by
  induction l generalizing σ with
  | nil => rfl
  | cons x l ih =>
    rw [List.foldlM_cons, List.flatMap_cons, List.foldlM_append, kernStoreWord_eq]
    exact congrArg _ (funext fun σ => ih σ)

section fill

variable {g : ℕ → BitVec 8} (hinv : MemInv managed tables σ dirs free ∅) (hd : dirs e = some d)
  (hown : ∀ j < n, Owned σ dirs e d (dst + BitVec.ofNat 32 j)) (hwrap : dst.toNat + n ≤ 2 ^ 32)
include hinv hd hown hwrap

theorem fill_bytes (l : List (Word × BitVec 8))
    (hl : ∀ x, x ∈ l ↔ ∃ j < n, x = (dst + BitVec.ofNat 32 j, g j)) :
    ∃ σ', l.foldlM (putByte d) σ = .ok σ' ∧
    BytesStored managed tables σ σ' dirs free e d dst n g := by
  have hoff : ∀ j < n, (dst + BitVec.ofNat 32 j - dst).toNat = j := fun j hj => by
    rw [BitVec.add_comm, BitVec.add_sub_cancel, BitVec.toNat_ofNat]
    omega
  obtain ⟨σ', hrun, hkept, hview⟩ :=
    putBytes_ok hd (fun y => g (y - dst).toNat) l hinv fun x hx => by
    obtain ⟨j, hj, rfl⟩ := (hl x).1 hx
    exact ⟨hown j hj, by rw [hoff j hj]⟩
  have hmem : ∀ y, y ∈ l.map Prod.fst ↔ ∃ j < n, y = dst + BitVec.ofNat 32 j := fun y => by
    constructor
    · intro hy
      obtain ⟨x, hx, rfl⟩ := List.mem_map.1 hy
      obtain ⟨j, hj, rfl⟩ := (hl x).1 hx
      exact ⟨j, hj, rfl⟩
    · rintro ⟨j, hj, rfl⟩
      exact List.mem_map.2 ⟨_, (hl _).2 ⟨j, hj, rfl⟩, rfl⟩
  refine ⟨σ', hrun, hkept, fun j hj => ?_, fun y hy hne => ?_⟩
  · rw [hview _ (hown j hj), if_pos ((hmem _).2 ⟨j, hj, rfl⟩), hoff j hj]
  · rw [hview y hy, if_neg fun hc => ?_]
    obtain ⟨j, hj, heq⟩ := (hmem y).1 hc
    exact hne j hj heq

theorem fill_words {k : ℕ} (hn : n = 4 * k) (w : ℕ → Word)
    (hw : ∀ j o, o < 4 → byteAt (w j) o = g (4 * j + o)) (l : List (Word × Word))
    (hl : ∀ x, x ∈ l ↔ ∃ j < k, x = (dst + BitVec.ofNat 32 (4 * j), w j)) :
    ∃ σ', l.foldlM (kernStoreWord d) σ = .ok σ' ∧
      BytesStored managed tables σ σ' dirs free e d dst n g := by
  rw [foldlM_words]
  refine fill_bytes hinv hd hown hwrap (l.flatMap wordBytes) fun x => ?_
  have haddr : ∀ j o : ℕ, dst + BitVec.ofNat 32 (4 * j) + BitVec.ofNat 32 o =
      dst + BitVec.ofNat 32 (4 * j + o) := fun j o => by
    rw [BitVec.add_assoc, BitVec.ofNat_add]
  have hbytes : ∀ j, x ∈ wordBytes (dst + BitVec.ofNat 32 (4 * j), w j) ↔
      ∃ o < 4, x = (dst + BitVec.ofNat 32 (4 * j + o), g (4 * j + o)) := fun j => by
    constructor
    · intro hx
      simp only [wordBytes, List.mem_cons, List.not_mem_nil, or_false] at hx
      rcases hx with rfl | rfl | rfl | rfl
      · exact ⟨0, by decide, by rw [← hw j 0 (by decide)]; rfl⟩
      · exact ⟨1, by decide, by rw [← hw j 1 (by decide), ← haddr]⟩
      · exact ⟨2, by decide, by rw [← hw j 2 (by decide), ← haddr]⟩
      · exact ⟨3, by decide, by rw [← hw j 3 (by decide), ← haddr]⟩
    · rintro ⟨o, ho, rfl⟩
      rw [← hw j o ho, ← haddr]
      simp only [wordBytes, List.mem_cons, List.not_mem_nil, or_false]
      interval_cases o
      · exact .inl (by simp)
      · exact .inr (.inl rfl)
      · exact .inr (.inr (.inl rfl))
      · exact .inr (.inr (.inr rfl))
  rw [List.mem_flatMap]
  constructor
  · rintro ⟨y, hy, hx⟩
    obtain ⟨j, hj, rfl⟩ := (hl y).1 hy
    obtain ⟨o, ho, rfl⟩ := (hbytes j).1 hx
    exact ⟨4 * j + o, by omega, rfl⟩
  · rintro ⟨i, hi, rfl⟩
    refine ⟨_, (hl _).2 ⟨i / 4, by omega, rfl⟩, (hbytes (i / 4)).2 ⟨i % 4, by omega, ?_⟩⟩
    rw [Nat.div_add_mod]

end fill

/-- **`memset`** of owned bytes. -/
theorem memset_ok {v n : Word} (hinv : MemInv managed tables σ dirs free ∅) (hd : dirs e = some d)
    (hown : ∀ j < n.toNat, Owned σ dirs e d (v + BitVec.ofNat 32 j))
    (hwrap : v.toNat + n.toNat ≤ 2 ^ 32) (c : BitVec 8) :
    ∃ σ', memset d σ v c n = .ok σ' ∧
      BytesStored managed tables σ σ' dirs free e d v n.toNat fun _ => c := by
  unfold memset
  split_ifs with hzero hword
  · have hn : n.toNat = 0 := by rw [hzero]; rfl
    exact ⟨σ, rfl, .refl hinv, fun j hj => by omega, fun _ _ _ => rfl⟩
  · refine fill_words hinv hd hown hwrap (by omega : n.toNat = 4 * (n.toNat / 4))
      (fun _ => ofBytes c c c c) (fun j o ho => ?_) _ fun x => by simp [eq_comm]
    exact ByteMem.byteAt_loadWord (fun _ => c) 0#32 ho
  · exact fill_bytes hinv hd hown hwrap _ fun x => by simp [eq_comm]

theorem mem_map_range_down {α : Type} (g h : ℕ → α) {k : ℕ}
    (hgh : ∀ i < k, h i = g (k - 1 - i)) (x : α) :
    x ∈ (List.range k).map h ↔ ∃ j < k, x = g j := by
  rw [List.mem_map]
  constructor
  · rintro ⟨i, hi, rfl⟩
    rw [List.mem_range] at hi
    exact ⟨k - 1 - i, by omega, hgh i hi⟩
  · rintro ⟨j, hj, rfl⟩
    refine ⟨k - 1 - j, List.mem_range.2 (by omega), ?_⟩
    rw [hgh _ (by omega)]
    congr 1
    omega

theorem mem_map_range_up {α : Type} (g : ℕ → α) (k : ℕ) (x : α) :
    x ∈ (List.range k).map g ↔ ∃ j < k, x = g j := by
  simp [eq_comm]

theorem add_sub_ofNat (x n : Word) {b i j : ℕ} (h : j + b + i = n.toNat) :
    x + n - BitVec.ofNat 32 b - BitVec.ofNat 32 i = x + BitVec.ofNat 32 j := by
  have hn : n = BitVec.ofNat 32 j + BitVec.ofNat 32 b + BitVec.ofNat 32 i := by
    rw [← BitVec.ofNat_add, ← BitVec.ofNat_add, h, BitVec.ofNat_toNat, BitVec.setWidth_eq]
  rw [hn]
  bv_omega

/-- **`memmove`** to owned bytes. -/
theorem memmove_ok {dst n : Word} (hinv : MemInv managed tables σ dirs free ∅)
    (hd : dirs e = some d) (hown : ∀ j < n.toNat, Owned σ dirs e d (dst + BitVec.ofNat 32 j))
    (hwrap : dst.toNat + n.toNat ≤ 2 ^ 32) (m : ByteMem) (src : Word) :
    ∃ σ', memmove m d σ dst src n = .ok σ' ∧
      BytesStored managed tables σ σ' dirs free e d dst n.toNat fun j =>
        m (src + BitVec.ofNat 32 j) := by
  have hword : ∀ j o : ℕ, o < 4 → byteAt (m.loadWord (src + BitVec.ofNat 32 (4 * j))) o =
      m (src + BitVec.ofNat 32 (4 * j + o)) := fun j o ho => by
    rw [ByteMem.byteAt_loadWord m _ ho, BitVec.add_assoc, ← BitVec.ofNat_add]
  unfold memmove
  split_ifs with hdown hwords hwords
  · have hn : n.toNat = 4 * (n.toNat / 4) := by omega
    refine fill_words hinv hd hown hwrap hn _ hword _ (mem_map_range_down _ _ fun i hi => ?_)
    have hj : 4 * (n.toNat / 4 - 1 - i) + 4 + 4 * i = n.toNat := by omega
    rw [add_sub_ofNat dst n hj, add_sub_ofNat src n hj]
  · refine fill_bytes hinv hd hown hwrap _ (mem_map_range_down _ _ fun i hi => ?_)
    have hj : n.toNat - 1 - i + 1 + i = n.toNat := by omega
    rw [add_sub_ofNat dst n hj, add_sub_ofNat src n hj]
  · exact fill_words hinv hd hown hwrap (by omega : n.toNat = 4 * (n.toNat / 4)) _ hword _
      (mem_map_range_up _ _)
  · exact fill_bytes hinv hd hown hwrap _ (mem_map_range_up _ _)

/-! ## A region in an address space -/

/-- The address is in one of the pages of a region. -/
def InPages (s : Word × Word) (a : Word) : Prop := InRounded s.1 s.2 (a.toNat / 4096)

/-- The region does not wrap and ends at or below the top of the stack. -/
def RegionOk (s : Word × Word) : Prop := s.1.toNat + s.2.toNat ≤ USTACKTOP.toNat

theorem toNat_USTACKTOP : USTACKTOP.toNat = 0xEEBFE000 := by decide

theorem RegionOk.end_lt (h : RegionOk (va, len)) :
    ROUNDUP (va + len) < UTOP ∧
      (ROUNDUP (va + len)).toNat = (va.toNat + len.toNat + 4095) / 4096 * 4096 := by
  have htop := toNat_USTACKTOP
  have hutop := toNat_UTOP
  unfold RegionOk at h
  dsimp only at h
  have hend : (ROUNDUP (va + len)).toNat = (va.toNat + len.toNat + 4095) / 4096 * 4096 := by
    rw [toNat_regionEnd]
    omega
  refine ⟨?_, hend⟩
  rw [BitVec.lt_def, hend]
  omega

theorem RegionOk.below (h : RegionOk (va, len)) : BelowUTOP va (regionCount va len) := by
  obtain ⟨hlt, hend⟩ := h.end_lt
  have hcount := regionCount_mul va len
  rw [BitVec.lt_def] at hlt
  unfold BelowUTOP
  omega

theorem RegionOk.inRounded_iff (h : RegionOk (va, len)) (n : ℕ) :
    InRounded va len n ↔ ∃ j < regionCount va len, n = va.toNat / 4096 + j := by
  obtain ⟨-, hend⟩ := h.end_lt
  have hcount := regionCount_mul va len
  rw [hend] at hcount
  unfold InRounded
  constructor
  · rintro ⟨hle, hlt⟩
    exact ⟨n - va.toNat / 4096, by omega, by omega⟩
  · rintro ⟨j, hj, rfl⟩
    omega

theorem RegionOk.inPages_iff (h : RegionOk (va, len)) (a : Word) :
    InPages (va, len) a ↔ ∃ j < regionCount va len, SamePage a (pageFrom va j) := by
  unfold InPages SamePage
  rw [h.inRounded_iff]
  constructor
  · rintro ⟨j, hj, heq⟩
    exact ⟨j, hj, by rw [toNat_pageFrom h.below hj.le]; omega⟩
  · rintro ⟨j, hj, heq⟩
    rw [toNat_pageFrom h.below hj.le] at heq
    exact ⟨j, hj, by omega⟩

theorem samePage_of_mapIdx {a b : Word} (h : mapIdx e a = mapIdx e b) : SamePage a b := by
  have hi := congrArg (fun x => x.2.1.val) h
  have hj := congrArg (fun x => x.2.2.val) h
  simp only [mapIdx, val_PDX, val_PTX] at hi hj
  unfold SamePage
  omega

theorem RegionFilled.owned_new (h : RegionFilled managed tables σ σ' dirs free free' e d va n)
    (hd : dirs e = some d) (hb : BelowUTOP va n) {j : ℕ} (hj : j < n) (hlt : a < UTOP)
    (ha : SamePage a (pageFrom va j)) : Owned σ' dirs e d a := by
  refine ⟨hlt, ?_, ?_⟩
  · unfold Permits mmuPte
    rw [ha.PDX_eq, ha.PTX_eq]
    exact h.permits hd hb hj
  · rw [ha.PDX_eq, ha.PTX_eq]
    exact h.alone j hj

theorem RegionFilled.owned_old (h : RegionFilled managed tables σ σ' dirs free free' e d va n)
    (hd : dirs e = some d) (ho : Owned σ dirs e d a) (ha : ∀ j < n, ¬ SamePage a (pageFrom va j)) :
    Owned σ' dirs e d a ∧ loadByte σ' d a = loadByte σ d a := by
  have hi := PDX_user ho.lt
  have hne : ∀ j < n, Slot.pte e (PDX a) (PTX a) ≠ regionSlot e va j := fun j hj hc => by
    refine ha j hj (samePage_of_mapIdx (e := e) ?_)
    injection hc with _ hi hj
    rw [mapIdx, mapIdx, hi, hj]
  have hvm : Jos.vm σ' dirs (mapIdx e a) = Jos.vm σ dirs (mapIdx e a) :=
    h.vm _ fun j hj hc => ha j hj (samePage_of_mapIdx hc)
  have hframe := ho.frame hd
  have htgt : target σ' dirs (.pte e (PDX a) (PTX a)) = some (PGNUM (mmuPte σ d a)) :=
    (congrArg named hvm).trans hframe
  have hpde : σ'.mem d (PDX a) &&& (PTE_P ||| PTE_U ||| PTE_W) = PTE_P ||| PTE_U ||| PTE_W := by
    rw [← pdes_of_dir hd hi]
    by_cases hj : ∃ j < n, PDX (pageFrom va j) = PDX a
    · obtain ⟨j, hj, heq⟩ := hj
      obtain ⟨w, hw⟩ := h.pdes j hj
      rw [← heq, hw]
      exact or_regionPerm_and w
    · rw [h.pdes_other _ fun j hj' hc => hj ⟨j, hj', hc⟩, pdes_of_dir hd hi]
      exact ho.permits.1
  have hpte : mmuPte σ' d a = mmuPte σ d a := by
    have hpt : target σ' dirs (.pde e (PDX a)) = some (PGNUM (σ'.mem d (PDX a))) := by
      rw [target, pdes_of_dir hd hi]
      exact named_of_present (present_of_and hpde (by decide))
    rw [(mmu_target hd ho.lt (by decide) ho.permits).2]
    exact (vm_of_present hpt (PTX a)).symm.trans hvm
  refine ⟨⟨ho.lt, ⟨hpde, hpte ▸ ho.permits.2⟩, fun s hs => ?_⟩, ?_⟩
  · rw [htgt] at hs
    have hold := ((h.same _ _ hframe hne s).1 hs).1
    exact ho.alone s (hold.trans hframe.symm)
  · rw [loadByte, loadByte, mmuWord, mmuWord, hpte, Phys.load, Phys.load, h.mem _ _ _ _ hframe hne]

/-- **`region_alloc` where nothing is mapped**, with memory for its pages and tables. -/
theorem region_fresh (hinv : MemInv managed tables σ dirs free ∅) (hd : dirs e = some d)
    (hok : RegionOk (va, len))
    (hempty : ∀ j < regionCount va len, vm σ dirs (mapIdx e (pageFrom va j)) = 0)
    (hroom : regionCount va len + (newTables σ dirs e va (regionCount va len)).card ≤ free.length) :
    ∃ r σ' free', regionAlloc σ d va len = .ok (r, σ') ∧
      RegionFilled managed tables σ σ' dirs free free' e d va (regionCount va len) ∧
      free'.length + regionCount va len + (newTables σ dirs e va (regionCount va len)).card =
        free.length ∧ (0 < regionCount va len → r ≠ none) := by
  have hfreed : ∀ k ≤ regionCount va len, freedPages σ dirs e va k = ∅ := fun k hk => by
    refine Finset.filter_eq_empty_iff.2 fun q _ hc => ?_
    obtain ⟨⟨j, hj, htgt⟩, -⟩ := hc
    have hnone : target σ dirs (regionSlot e va j) = none := by
      refine (congrArg named (hempty j (by omega))).trans named_zero
    rw [hnone] at htgt
    cases htgt
  have hfits : ∀ k < regionCount va len, PageFits σ dirs free e va k := fun k hk => by
    have hsub : newTables σ dirs e va (k + 1) ⊆ newTables σ dirs e va (regionCount va len) :=
      newTables_mono (by omega)
    have hle := Finset.card_le_card hsub
    unfold PageFits
    omega
  obtain ⟨σ', free', hrun, hfill⟩ := regionLoop_fill hinv hd hok.below le_rfl hfits
  rw [Nat.sub_self] at hrun
  have hcount := hfill.count
  rw [hfreed _ le_rfl, Finset.card_empty, Nat.add_zero] at hcount
  have hva : va < UTOP := by
    have htop := toNat_USTACKTOP
    unfold RegionOk at hok
    rw [BitVec.lt_def, toNat_UTOP]
    dsimp only at hok
    omega
  have hret : ∀ r, pgdirWalk σ' d va false = .ok (r, σ') → regionAlloc σ d va len = .ok (r, σ') :=
    fun r hwalk => by
      rw [regionAlloc_eq hok.end_lt.1, hrun]
      exact hwalk
  cases hpde : target σ' dirs (.pde e (PDX va)) with
  | none =>
    refine ⟨none, σ', free', hret _ (walk_absent hd (PDX_user hva) hpde), hfill, hcount,
      fun hpos => ?_⟩
    have hsame : SamePage (pageFrom va 0) va := by
      unfold SamePage
      rw [pageFrom_zero, toNat_ROUNDDOWN]
      omega
    exact absurd hsame.PDX_eq (((hfill.pde_none _).1 hpde).2 0 hpos)
  | some pt =>
    exact ⟨_, σ', free', hret _ (hfill.inv.pinv.walk_present hd (PDX_user hva) hpde false),
      hfill, hcount,
      fun _ => nofun⟩

/-! ## Room -/

/-- The number of pages of some regions. -/
def regionPages (L : List (Word × Word)) : ℕ := (L.map fun s => regionCount s.1 s.2).sum

/-- The page tables that some regions need and that do not exist. -/
def absentTables (σ : Phys) (dirs : EnvIdx → Option Nat) (e : EnvIdx) (L : List (Word × Word)) :
    Finset Idx :=
  Finset.univ.filter fun i => target σ dirs (.pde e i) = none ∧
    ∃ s ∈ L, ∃ j < regionCount s.1 s.2, PDX (pageFrom s.1 j) = i

/-- There is memory for the pages of the regions and their page tables. -/
def EnoughFor (σ : Phys) (dirs : EnvIdx → Option Nat) (free : List Nat) (e : EnvIdx)
    (L : List (Word × Word)) : Prop :=
  regionPages L + (absentTables σ dirs e L).card ≤ free.length

variable {L : List (Word × Word)} {s : Word × Word}

theorem EnoughFor.head (h : EnoughFor σ dirs free e (s :: L)) :
    regionCount s.1 s.2 + (newTables σ dirs e s.1 (regionCount s.1 s.2)).card ≤ free.length := by
  have hsub : newTables σ dirs e s.1 (regionCount s.1 s.2) ⊆ absentTables σ dirs e (s :: L) := by
    intro i hi
    obtain ⟨h₁, h₂, j, hj, hji⟩ := Finset.mem_filter.1 hi
    exact Finset.mem_filter.2 ⟨h₁, h₂, s, List.mem_cons_self, j, hj, hji⟩
  have hle := Finset.card_le_card hsub
  unfold EnoughFor regionPages at h
  rw [List.map_cons, List.sum_cons] at h
  omega

theorem EnoughFor.tail (h : EnoughFor σ dirs free e (s :: L))
    (hfill : RegionFilled managed tables σ σ' dirs free free' e d s.1 (regionCount s.1 s.2))
    (hcount : free'.length + regionCount s.1 s.2 +
      (newTables σ dirs e s.1 (regionCount s.1 s.2)).card = free.length) :
    EnoughFor σ' dirs free' e L := by
  have hdisj :
      Disjoint (newTables σ dirs e s.1 (regionCount s.1 s.2)) (absentTables σ' dirs e L) := by
    refine Finset.disjoint_left.2 fun i hi hi' => ?_
    obtain ⟨-, -, j, hj, hji⟩ := Finset.mem_filter.1 hi
    obtain ⟨-, hnone, -⟩ := Finset.mem_filter.1 hi'
    exact ((hfill.pde_none i).1 hnone).2 j hj hji
  have hsub : newTables σ dirs e s.1 (regionCount s.1 s.2) ∪ absentTables σ' dirs e L ⊆
      absentTables σ dirs e (s :: L) := by
    intro i hi
    rcases Finset.mem_union.1 hi with hi | hi
    · obtain ⟨h₁, h₂, j, hj, hji⟩ := Finset.mem_filter.1 hi
      exact Finset.mem_filter.2 ⟨h₁, h₂, s, List.mem_cons_self, j, hj, hji⟩
    · obtain ⟨h₁, h₂, t, ht, hjt⟩ := Finset.mem_filter.1 hi
      exact Finset.mem_filter.2 ⟨h₁, ((hfill.pde_none i).1 h₂).1, t, List.mem_cons_of_mem s ht, hjt⟩
  have hle := Finset.card_le_card hsub
  rw [Finset.card_union_of_disjoint hdisj] at hle
  unfold EnoughFor regionPages at h ⊢
  rw [List.map_cons, List.sum_cons] at h
  omega

theorem EnoughFor.kept (h : EnoughFor σ dirs free e L)
    (hk : Kept managed tables σ σ' dirs free e d) :
    EnoughFor σ' dirs free e L := by
  unfold EnoughFor absentTables at h ⊢
  rw [hk.target]
  exact h

/-! ## The address space so far -/

/-- The pages of the regions, and no others, are mapped, and their addresses are owned. -/
structure Placed (managed tables : Set Nat) (σ : Phys) (dirs : EnvIdx → Option Nat)
    (free : List Nat) (e : EnvIdx) (d : Nat) (L : List (Word × Word)) : Prop where
  inv : MemInv managed tables σ dirs free ∅
  mapped : ∀ i j, vm σ dirs (e, i, j) ≠ 0 ↔ ∃ s ∈ L, InRounded s.1 s.2 (i.val * 1024 + j.val)
  owned : ∀ a, a < UTOP → (∃ s ∈ L, InPages s a) → Owned σ dirs e d a

theorem Placed.kept (h : Placed managed tables σ dirs free e d L)
    (hk : Kept managed tables σ σ' dirs free e d) : Placed managed tables σ' dirs free e d L :=
  ⟨hk.inv, fun i j => by rw [hk.vm, h.mapped], fun a ha hL => hk.owned a (h.owned a ha hL)⟩

/-- No page of the one is a page of the other. -/
def PagesApart (s t : Word × Word) : Prop := ∀ n, ¬ (InRounded s.1 s.2 n ∧ InRounded t.1 t.2 n)

theorem mapIdx_pageFrom_iff (hb : BelowUTOP va n) {k : ℕ} (hk : k < n) (i j : Idx) :
    (e, i, j) = mapIdx e (pageFrom va k) ↔ i.val * 1024 + j.val = va.toNat / 4096 + k := by
  have hno := pageNo_pageFrom hb hk
  unfold mapIdx
  rw [Prod.mk.injEq, Prod.mk.injEq, ← hno]
  refine ⟨fun ⟨_, hi, hj⟩ => by rw [hi, hj], fun heq => ⟨rfl, ?_, ?_⟩⟩
  · apply Fin.ext
    omega
  · apply Fin.ext
    omega

/-- **A new region** next to those that are there. -/
theorem Placed.region (h : Placed managed tables σ dirs free e d L) (hd : dirs e = some d)
    (hok : RegionOk s) (hapart : ∀ t ∈ L, PagesApart t s) {L' : List (Word × Word)}
    (hroom : EnoughFor σ dirs free e (s :: L')) :
    ∃ r σ' free', regionAlloc σ d s.1 s.2 = .ok (r, σ') ∧
      Placed managed tables σ' dirs free' e d (L ++ [s]) ∧ EnoughFor σ' dirs free' e L' ∧
      (0 < regionCount s.1 s.2 → r ≠ none) ∧
      ∀ a, a < UTOP → (∃ t ∈ L, InPages t a) → loadByte σ' d a = loadByte σ d a := by
  obtain ⟨va, len⟩ := s
  have hempty : ∀ j < regionCount va len, vm σ dirs (mapIdx e (pageFrom va j)) = 0 := fun j hj => by
    by_contra hne
    obtain ⟨t, ht, hin⟩ := (h.mapped _ _).1 hne
    rw [pageNo_pageFrom hok.below hj] at hin
    exact hapart t ht _ ⟨hin, (hok.inRounded_iff _).2 ⟨j, hj, rfl⟩⟩
  obtain ⟨r, σ', free', hrun, hfill, hcount, hr⟩ := region_fresh h.inv hd hok hempty hroom.head
  have hout : ∀ a, (∃ t ∈ L, InPages t a) →
    ∀ j < regionCount va len, ¬ SamePage a (pageFrom va j) :=
    fun a ⟨t, ht, hin⟩ j hj hsame =>
      hapart t ht _ ⟨hin, (hok.inPages_iff a).2 ⟨j, hj, hsame⟩⟩
  refine ⟨r, σ', free', hrun, ⟨hfill.inv, fun i j => ?_, fun a ha hin => ?_⟩,
    hroom.tail hfill hcount, hr,
    fun a ha hin => (hfill.owned_old hd (h.owned a ha hin) (hout a hin)).2⟩
  · by_cases hpage : InRounded va len (i.val * 1024 + j.val)
    · refine iff_of_true ?_ ⟨(va, len), by simp, hpage⟩
      obtain ⟨k, hk, heq⟩ := (hok.inRounded_iff _).1 hpage
      obtain ⟨p, -, hvm⟩ := hfill.pages k hk
      rw [(mapIdx_pageFrom_iff hok.below hk i j).2 heq, hvm]
      intro hzero
      have hpres := present_or_PTE_P (page2pa p ||| regionPerm)
      rw [hzero] at hpres
      exact not_present_zero hpres
    · have hvm := hfill.vm (e, i, j) fun k hk hc =>
        hpage ((hok.inRounded_iff _).2 ⟨k, hk, (mapIdx_pageFrom_iff hok.below hk i j).1 hc⟩)
      rw [hvm, h.mapped]
      constructor
      · rintro ⟨t, ht, hin⟩
        exact ⟨t, List.mem_append_left _ ht, hin⟩
      · rintro ⟨t, ht, hin⟩
        rcases List.mem_append.1 ht with ht | ht
        · exact ⟨t, ht, hin⟩
        · obtain rfl := List.mem_singleton.1 ht
          exact absurd hin hpage
  · obtain ⟨t, ht, hin⟩ := hin
    rcases List.mem_append.1 ht with ht | ht
    · exact (hfill.owned_old hd (h.owned a ha ⟨t, ht, hin⟩) (hout a ⟨t, ht, hin⟩)).1
    · obtain rfl := List.mem_singleton.1 ht
      obtain ⟨j, hj, hsame⟩ := (hok.inPages_iff a).1 hin
      exact hfill.owned_new hd hok.below hj ha hsame

/-! ## Segments -/

/-- The region of a segment. -/
def Proghdr.region (ph : Proghdr) : Word × Word := (ph.pVa, ph.pMemsz)

/-- The bytes in the file fit, and the segment does not wrap and ends below the stack. -/
structure SegmentOk (ph : Proghdr) : Prop where
  filesz : ph.pFilesz ≤ ph.pMemsz
  below : ph.pVa.toNat + ph.pMemsz.toNat ≤ (USTACKTOP - 0x1000#32).toNat

/-- The bytes of the file are in memory, and the rest of the segment is zero. -/
structure SegmentAt (m : ByteMem) (binary : Word) (σ : Phys) (d : Nat) (ph : Proghdr) : Prop where
  file : ∀ i < ph.pFilesz.toNat,
    loadByte σ d (ph.pVa + BitVec.ofNat 32 i) = m (binary + ph.pOffset + BitVec.ofNat 32 i)
  rest : ∀ i, ph.pFilesz.toNat ≤ i → i < ph.pMemsz.toNat →
    loadByte σ d (ph.pVa + BitVec.ofNat 32 i) = 0

variable {ph : Proghdr} {binary : Word}

theorem toNat_stackPage : (USTACKTOP - 0x1000#32).toNat = 0xEEBFD000 := by decide

theorem SegmentOk.regionOk (h : SegmentOk ph) : RegionOk ph.region := by
  have hbelow := h.below
  rw [toNat_stackPage] at hbelow
  unfold RegionOk Proghdr.region
  rw [toNat_USTACKTOP]
  dsimp only
  omega

theorem RegionOk.byte_inPages (h : RegionOk (va, len)) {i : ℕ} (hi : i < len.toNat) :
    (va + BitVec.ofNat 32 i).toNat = va.toNat + i ∧ va + BitVec.ofNat 32 i < UTOP ∧
      InPages (va, len) (va + BitVec.ofNat 32 i) := by
  have htop := toNat_USTACKTOP
  have hutop := toNat_UTOP
  unfold RegionOk at h
  dsimp only at h
  have hadd : (va + BitVec.ofNat 32 i).toNat = va.toNat + i := by
    rw [BitVec.toNat_add, BitVec.toNat_ofNat]
    omega
  refine ⟨hadd, by rw [BitVec.lt_def, hadd]; omega, ?_⟩
  unfold InPages InRounded
  rw [hadd]
  dsimp only
  omega

/-- What was loaded before is not touched by a new segment. -/
theorem SegmentAt.congr (h : SegmentAt m binary σ d ph) (hok : SegmentOk ph)
    (hsame : ∀ a, a < UTOP → InPages ph.region a → loadByte σ' d a = loadByte σ d a) :
    SegmentAt m binary σ' d ph := by
  have hle := hok.filesz
  rw [BitVec.le_def] at hle
  refine ⟨fun i hi => ?_, fun i hi hi' => ?_⟩
  · obtain ⟨-, hlt, hin⟩ := hok.regionOk.byte_inPages (hi.trans_le hle)
    rw [hsame _ hlt hin, h.file i hi]
  · obtain ⟨-, hlt, hin⟩ := hok.regionOk.byte_inPages hi'
    rw [hsame _ hlt hin, h.rest i hi hi']

/-- **One segment** is loaded next to those that are there. -/
theorem loadSegment_ok (h : Placed managed tables σ dirs free e d L) (hd : dirs e = some d)
    (hok : SegmentOk ph) (hload : ph.pType = ELF_PROG_LOAD)
    (hapart : ∀ t ∈ L, PagesApart t ph.region) {L' : List (Word × Word)}
    (hroom : EnoughFor σ dirs free e (ph.region :: L')) (m : ByteMem) (binary : Word) :
    ∃ σ' free', loadSegment m binary d d σ ph = .ok σ' ∧
      Placed managed tables σ' dirs free' e d (L ++ [ph.region]) ∧ EnoughFor σ' dirs free' e L' ∧
      SegmentAt m binary σ' d ph ∧
      ∀ a, a < UTOP → (∃ t ∈ L, InPages t a) → loadByte σ' d a = loadByte σ d a := by
  obtain ⟨r, σ₁, free₁, hregion, hplaced, hroom₁, -, hold⟩ := h.region hd hok.regionOk hapart hroom
  have hle := hok.filesz
  rw [BitVec.le_def] at hle
  have hsize : (ph.pMemsz - ph.pFilesz).toNat = ph.pMemsz.toNat - ph.pFilesz.toNat :=
    BitVec.toNat_sub_of_le hok.filesz
  have hbyte := fun i hi => hok.regionOk.byte_inPages (i := i) hi
  have hown : ∀ i < ph.pMemsz.toNat, Owned σ₁ dirs e d (ph.pVa + BitVec.ofNat 32 i) := fun i hi =>
    hplaced.owned _ (hbyte i hi).2.1 ⟨ph.region, by simp, (hbyte i hi).2.2⟩
  have hend : ph.pVa.toNat + ph.pMemsz.toNat ≤ 2 ^ 32 := by
    have := hok.below
    rw [toNat_stackPage] at this
    omega
  -- The bytes of the file.
  obtain ⟨σ₂, hmove, hs₂⟩ :=
    memmove_ok hplaced.inv hd (fun j hj => hown j (hj.trans_le hle)) (by omega) m
    (binary + ph.pOffset)
  -- The bytes after them.
  have hadd : ∀ j : ℕ, ph.pVa + ph.pFilesz + BitVec.ofNat 32 j =
      ph.pVa + BitVec.ofNat 32 (ph.pFilesz.toNat + j) := fun j => by
    rw [BitVec.ofNat_add, BitVec.ofNat_toNat, BitVec.setWidth_eq, BitVec.add_assoc]
  have hstart : (ph.pVa + ph.pFilesz).toNat = ph.pVa.toNat + ph.pFilesz.toNat := by
    have hbelow := hok.below
    rw [toNat_stackPage] at hbelow
    rw [BitVec.toNat_add]
    omega
  have hown' : ∀ j < (ph.pMemsz - ph.pFilesz).toNat,
      Owned σ₂ dirs e d (ph.pVa + ph.pFilesz + BitVec.ofNat 32 j) := fun j hj => by
    rw [hadd]
    exact hs₂.kept.owned _ (hown _ (by omega))
  obtain ⟨σ₃, hset, hs₃⟩ := memset_ok hs₂.kept.inv hd hown' (by omega) 0
  refine ⟨σ₃, free₁, ?_, (hplaced.kept hs₂.kept).kept hs₃.kept,
    (hroom₁.kept hs₂.kept).kept hs₃.kept, ⟨fun i hi => ?_, fun i hi hi' => ?_⟩, fun a ha hin => ?_⟩
  · rw [loadSegment, if_neg (not_not.2 hload), if_neg (BitVec.not_lt.2 hok.filesz)]
    have hregion' : regionAlloc σ d ph.pVa ph.pMemsz = .ok (r, σ₁) := hregion
    rw [hregion']
    show (memmove m d σ₁ ph.pVa (binary + ph.pOffset) ph.pFilesz).bind _ = _
    rw [hmove]
    exact hset
  · rw [hs₃.outside _ (hs₂.kept.owned _ (hown i (hi.trans_le hle))) fun j hj hc => ?_,
      hs₂.inside i hi]
    rw [hadd] at hc
    have hc' := congrArg BitVec.toNat hc
    rw [(hbyte i (by omega)).1, (hbyte _ (by omega)).1] at hc'
    omega
  · have hj : i = ph.pFilesz.toNat + (i - ph.pFilesz.toNat) := by omega
    rw [hj, ← hadd]
    exact hs₃.inside _ (by omega)
  · have howned : Owned σ₁ dirs e d a := by
      obtain ⟨t, ht, hin⟩ := hin
      exact hplaced.owned a ha ⟨t, List.mem_append_left _ ht, hin⟩
    have hne : ∀ i < ph.pMemsz.toNat, a ≠ ph.pVa + BitVec.ofNat 32 i := fun i hi hc => by
      obtain ⟨t, ht, hin⟩ := hin
      exact hapart t ht _ ⟨hin, hc ▸ (hbyte i hi).2.2⟩
    rw [hs₃.outside a (hs₂.kept.owned a howned) fun j hj => hadd j ▸ hne _ (by omega),
      hs₂.outside a howned fun j hj => hne j (by omega), hold a ha hin]

/-- The program headers that are loaded. -/
def loads (phs : List Proghdr) : List Proghdr := phs.filter fun ph => ph.pType = ELF_PROG_LOAD

theorem loads_cons (ph : Proghdr) (phs : List Proghdr) :
    loads (ph :: phs) = if ph.pType = ELF_PROG_LOAD then ph :: loads phs else loads phs := by
  unfold loads
  rw [List.filter_cons]
  simp

/-- **The loop over the program headers**, after the segments of `done`. -/
theorem loadSegments_ok (hd : dirs e = some d) (m : ByteMem) (binary : Word)
    {L' : List (Word × Word)} (phs done : List Proghdr)
    (hplaced : Placed managed tables σ dirs free e d (done.map Proghdr.region))
    (hok : ∀ ph ∈ done ++ loads phs, SegmentOk ph) (hat : ∀ ph ∈ done, SegmentAt m binary σ d ph)
    (hapart : (done ++ loads phs).Pairwise fun a b => PagesApart a.region b.region)
    (hroom : EnoughFor σ dirs free e ((loads phs).map Proghdr.region ++ L')) :
    ∃ σ' free', phs.foldlM (loadSegment m binary d d) σ = .ok σ' ∧
      Placed managed tables σ' dirs free' e d ((done ++ loads phs).map Proghdr.region) ∧
      EnoughFor σ' dirs free' e L' ∧ ∀ ph ∈ done ++ loads phs, SegmentAt m binary σ' d ph := by
  induction phs generalizing σ free done with
  | nil =>
    have hnil : done ++ loads [] = done := List.append_nil done
    rw [hnil]
    exact ⟨σ, free, rfl, hplaced, hroom, hat⟩
  | cons ph phs ih =>
    rw [loads_cons] at hok hapart hroom ⊢
    by_cases hload : ph.pType = ELF_PROG_LOAD
    · rw [if_pos hload] at hok hapart hroom ⊢
      have hsplit : done ++ ph :: loads phs = (done ++ [ph]) ++ loads phs := by simp
      have hnew : ∀ t ∈ done.map Proghdr.region, PagesApart t ph.region := fun t ht => by
        obtain ⟨ph', hph', rfl⟩ := List.mem_map.1 ht
        exact (List.pairwise_append.1 hapart).2.2 ph' hph' ph List.mem_cons_self
      obtain ⟨σ₁, free₁, hrun, hplaced₁, hroom₁, hat₁, hold⟩ :=
        loadSegment_ok hplaced hd (hok ph (by simp)) hload hnew hroom m binary
      have hdone : ∀ ph' ∈ done ++ [ph], SegmentAt m binary σ₁ d ph' := fun ph' hph' => by
        rcases List.mem_append.1 hph' with hph' | hph'
        · exact (hat ph' hph').congr (hok ph' (List.mem_append_left _ hph')) fun a ha hin =>
            hold a ha ⟨ph'.region, List.mem_map_of_mem hph', hin⟩
        · obtain rfl := List.mem_singleton.1 hph'
          exact hat₁
      rw [hsplit] at hok hapart ⊢
      rw [List.foldlM_cons, hrun]
      exact ih (done ++ [ph]) (by rwa [List.map_append]) hok hdone hapart hroom₁
    · rw [if_neg hload] at hok hapart hroom ⊢
      have hskip : loadSegment m binary d d σ ph = .ok σ := by rw [loadSegment, if_pos hload]
      rw [List.foldlM_cons, hskip]
      exact ih done hplaced hok hat hapart hroom

/-! ## The whole program -/

/-- The page of the stack. -/
def stackRegion : Word × Word := (USTACKTOP - 0x1000#32, 0x1000#32)

/-- The regions of an image: those of its segments, and the stack. -/
def icodeRegions (m : ByteMem) (binary : Word) : List (Word × Word) :=
  (loads (proghdrs m binary)).map Proghdr.region ++ [stackRegion]

/-- An image that can be loaded. -/
structure IcodeOk (m : ByteMem) (binary : Word) : Prop where
  magic : (elfAt m binary).eMagic = ELF_MAGIC
  segments : ∀ ph ∈ loads (proghdrs m binary), SegmentOk ph
  apart : (loads (proghdrs m binary)).Pairwise fun a b => PagesApart a.region b.region

theorem stackRegion_ok : RegionOk stackRegion := by
  unfold RegionOk stackRegion
  decide

theorem inRounded_stack (n : ℕ) : InRounded stackRegion.1 stackRegion.2 n ↔ n = 0xEEBFD := by
  unfold InRounded stackRegion
  dsimp only
  rw [toNat_stackPage, show (0x1000#32).toNat = 4096 from rfl]
  omega

theorem SegmentOk.apart_stack (h : SegmentOk ph) : PagesApart ph.region stackRegion := by
  rintro n ⟨hseg, hstack⟩
  rw [inRounded_stack] at hstack
  have hbelow := h.below
  rw [toNat_stackPage] at hbelow
  obtain ⟨-, hlt⟩ := hseg
  unfold Proghdr.region at hlt
  dsimp only at hlt
  omega

/-- The address space and the entry point after `load_icode`. -/
structure IcodeLoaded (m : ByteMem) (binary : Word) (k : Kernel) (e : EnvIdx) (d : Nat) : Prop where
  segments : ∀ ph ∈ loads (proghdrs m binary), SegmentAt m binary k.phys d ph
  stack : ∀ i < 4096, loadByte k.phys d (USTACKTOP - 0x1000#32 + BitVec.ofNat 32 i) = 0
  mapped : ∀ a, a < UTOP → (Permits k.phys d a PTE_P ↔ ∃ s ∈ icodeRegions m binary, InPages s a)
  writable : ∀ a, a < UTOP → Permits k.phys d a PTE_P →
    Permits k.phys d a (PTE_P ||| PTE_U ||| PTE_W)
  eip : (k.envs e).envTf.tfEip = (elfAt m binary).eEntry

theorem Permits.present {perm : Word} (h : Permits σ d a perm) (hp : perm &&& PTE_P = PTE_P) :
    Permits σ d a PTE_P := by
  have hweak : ∀ w : Word, w &&& perm = perm → w &&& PTE_P = PTE_P := fun w hw => by
    rw [← hp, ← BitVec.and_assoc, hw]
  exact ⟨hweak _ h.1, hweak _ h.2⟩

theorem Placed.permits_iff (h : Placed managed tables σ dirs free e d L) (hd : dirs e = some d)
    (ha : a < UTOP) : Permits σ d a PTE_P ↔ ∃ s ∈ L, InPages s a := by
  constructor
  · intro hperm
    have htgt := (mmu_target hd ha (by decide) hperm).1
    have hne : vm σ dirs (e, PDX a, PTX a) ≠ 0 := fun hc => by
      rw [target, hc] at htgt
      cases named_zero.symm.trans htgt
    obtain ⟨s, hs, hin⟩ := (h.mapped _ _).1 hne
    refine ⟨s, hs, ?_⟩
    have hpage : (PDX a).val * 1024 + (PTX a).val = a.toNat / 4096 := by
      rw [val_PDX, val_PTX]
      omega
    rwa [hpage] at hin
  · intro hin
    exact (h.owned a ha hin).permits.present (by decide)

/-- **`load_icode`** of an image into an empty address space. -/
theorem loadIcode_ok {k : Kernel} (h : MemInv managed tables k.phys k.dirs free ∅)
    (hd : k.dirs e = some d) (hempty : ∀ i j, vm k.phys k.dirs (e, i, j) = 0)
    (hesp : (k.envs e).envTf.tfEsp = USTACKTOP) (himage : IcodeOk m binary)
    (hroom : EnoughFor k.phys k.dirs free e (icodeRegions m binary)) (c : Cpu) :
    ∃ k' free', loadIcode k c e m binary = .ok k' ∧ k'.dirs = k.dirs ∧
      Placed managed tables k'.phys k.dirs free' e d (icodeRegions m binary) ∧
      (∀ ph ∈ loads (proghdrs m binary), SegmentAt m binary k'.phys d ph) ∧
      (∀ i < 4096, loadByte k'.phys d (USTACKTOP - 0x1000#32 + BitVec.ofNat 32 i) = 0) ∧
      (k'.envs e).envTf.tfEip = (elfAt m binary).eEntry := by
  have hplaced : Placed managed tables k.phys k.dirs free e d [] :=
    ⟨h, fun i j => by simp [hempty], fun a _ hin => by simp at hin⟩
  obtain ⟨σ₁, free₁, hrun, hplaced₁, hroom₁, hat₁⟩ :=
    loadSegments_ok hd m binary (proghdrs m binary) []
    hplaced himage.segments (by simp) himage.apart hroom
  -- The stack.
  have hapart : ∀ t ∈ (loads (proghdrs m binary)).map Proghdr.region, PagesApart t stackRegion := by
    intro t ht
    obtain ⟨ph, hph, rfl⟩ := List.mem_map.1 ht
    exact (himage.segments ph hph).apart_stack
  obtain ⟨r, σ₂, free₂, hstack, hplaced₂, -, hr, hold₂⟩ :=
    Placed.region hplaced₁ hd stackRegion_ok hapart hroom₁
  obtain ⟨pte, rfl⟩ := Option.ne_none_iff_exists'.1 (hr (by decide))
  have hbyte := fun i hi => stackRegion_ok.byte_inPages (i := i) hi
  have hown : ∀ j < (0x1000#32).toNat, Owned σ₂ k.dirs e d (stackRegion.1 + BitVec.ofNat 32 j) :=
    fun j hj =>
    hplaced₂.owned _ (hbyte j hj).2.1 ⟨stackRegion, by simp, (hbyte j hj).2.2⟩
  obtain ⟨σ₃, hset, hs₃⟩ := memset_ok hplaced₂.inv hd hown (by decide) 0
  have hplaced₃ : Placed managed tables σ₃ k.dirs free₂ e d (icodeRegions m binary) :=
    hplaced₂.kept hs₃.kept
  have hsegments : ∀ ph ∈ loads (proghdrs m binary), SegmentAt m binary σ₃ d ph := fun ph hph => by
    have hok := himage.segments ph hph
    have hmem : ph.region ∈ (loads (proghdrs m binary)).map Proghdr.region :=
      List.mem_map_of_mem hph
    refine (hat₁ ph hph).congr hok fun a ha hin => ?_
    have hout : ∀ j < (0x1000#32).toNat, a ≠ stackRegion.1 + BitVec.ofNat 32 j := fun j hj hc =>
      hok.apart_stack _ ⟨hin, hc ▸ (hbyte j hj).2.2⟩
    rw [hs₃.outside a (hplaced₂.owned a ha ⟨_, List.mem_append_left _ hmem, hin⟩) hout,
      hold₂ a ha ⟨_, hmem, hin⟩]
  refine ⟨(({ k.lcr3 c d with phys := σ₃ } : Kernel).setEnv e fun env =>
    { env with envTf := { env.envTf with tfEip := (elfAt m binary).eEntry } }).lcr3 c σ₃.kernPgdir,
    free₂, ?_, ?_, hplaced₃, hsegments, hs₃.inside, ?_⟩
  · have hcr3 : (k.lcr3 c d).cr3 c = d := by simp [Kernel.lcr3]
    have hrun' : (proghdrs m binary).foldlM (loadSegment m binary d d) (k.lcr3 c d).phys = .ok σ₁ :=
      hrun
    have hstack' : regionAlloc σ₁ d (USTACKTOP - 0x1000#32) 0x1000#32 = .ok (some pte, σ₂) := hstack
    have hset' : memset d σ₂ (((k.lcr3 c d).envs e).envTf.tfEsp - 0x1000#32) 0 0x1000#32 =
      .ok σ₃ := by
      change memset d σ₂ ((k.envs e).envTf.tfEsp - 0x1000#32) 0 0x1000#32 = .ok σ₃
      rw [hesp]
      exact hset
    simp only [loadIcode, if_neg (not_not.2 himage.magic.symm), pgdir_of_dirs hd, ok_bind, hcr3,
      hrun', hstack', hset']
    rfl
  · funext e'
    by_cases he : e' = e
    · simp [Kernel.dirs, Kernel.lcr3, Kernel.setEnv, he]
    · simp [Kernel.dirs, Kernel.lcr3, Kernel.setEnv, Function.update_of_ne he]
  · simp [Kernel.lcr3, Kernel.setEnv]

/-- **`load_icode` loads the image.** The image has the magic number, its segments are no larger in
the file than in memory, have no page in common, do not wrap and end below the stack. The
environment is as `env_alloc` leaves it: nothing is mapped below `UTOP`, and the stack pointer is
`USTACKTOP`. Then, with enough memory, the address space is the segments and a stack of zeros, the
pages of these and no others are mapped, all for writing, and the entry point is set. The pages of a
segment are those between `p_va` rounded down and its end rounded up. -/
theorem load_icode_loads {k : Kernel} (h : MemInv managed tables k.phys k.dirs free ∅)
    (hd : k.dirs e = some d) (hempty : ∀ i j, vm k.phys k.dirs (e, i, j) = 0)
    (hesp : (k.envs e).envTf.tfEsp = USTACKTOP) (himage : IcodeOk m binary)
    (hroom : EnoughFor k.phys k.dirs free e (icodeRegions m binary)) (c : Cpu) :
    ∃ k', loadIcode k c e m binary = .ok k' ∧ k'.dirs = k.dirs ∧ IcodeLoaded m binary k' e d := by
  obtain ⟨k', free', hrun, hdirs, hplaced, hsegments, hstack, heip⟩ :=
    loadIcode_ok h hd hempty hesp himage hroom c
  refine ⟨k', hrun, hdirs, hsegments, hstack, fun a ha => hplaced.permits_iff hd ha,
    fun a ha hperm => ?_, heip⟩
  exact (hplaced.owned a ha ((hplaced.permits_iff hd ha).1 hperm)).permits

/-! ### A small image -/

/-- Twice as much memory as the regions have pages is enough. -/
theorem enoughFor_of_twice (h : 2 * regionPages L ≤ free.length) : EnoughFor σ dirs free e L := by
  have hsub : absentTables σ dirs e L ⊆ (L.flatMap fun s =>
      (List.range (regionCount s.1 s.2)).map fun j => PDX (pageFrom s.1 j)).toFinset := by
    intro i hi
    obtain ⟨-, -, s, hs, j, hj, hji⟩ := Finset.mem_filter.1 hi
    rw [List.mem_toFinset, List.mem_flatMap]
    exact ⟨s, hs, List.mem_map.2 ⟨j, List.mem_range.2 hj, hji⟩⟩
  have hle := (Finset.card_le_card hsub).trans (List.toFinset_card_le _)
  rw [List.length_flatMap] at hle
  simp only [List.length_map, List.length_range] at hle
  unfold EnoughFor
  unfold regionPages at h ⊢
  omega

/-- Where the image is linked. -/
def image : Word := 0xF0200000#32

/-- An image with one segment. -/
def oneSegment (pVa pFilesz pMemsz : Word) : ByteMem :=
  ByteMem.storeWords (fun _ => 0)
    [(image, ELF_MAGIC), (image + 24#32, 0x800020#32), (image + 28#32, 52#32),
      (image + 44#32, 1#32), (image + 52#32, ELF_PROG_LOAD), (image + 56#32, 84#32),
      (image + 60#32, pVa), (image + 68#32, pFilesz), (image + 72#32, pMemsz),
      (image + 84#32, 0x90C3FEEB#32)]

theorem memInv_firstEnv :
    MemInv (Set.Icc 1 9) ∅ firstEnv.phys firstEnv.dirs [2, 3, 4, 5, 6, 7, 8, 9] ∅ := by
  rw [dirs_firstEnv]
  exact (poolKernel_memInit.memInv.setupVm (poolKernel_memInit.no_env 0)).1

theorem vm_firstEnv (i j : Idx) : vm firstEnv.phys firstEnv.dirs (0, i, j) = 0 := by
  rw [spaceInv_firstEnv.2.1]

/-- An image with two segments: sixteen bytes over a page boundary, eight of them in the file, and a
page further on `0x40` bytes with four in the file. -/
def smallImage : ByteMem :=
  ByteMem.storeWords (fun _ => 0)
    [(image, ELF_MAGIC), (image + 24#32, 0x800FFC#32), (image + 28#32, 52#32),
      (image + 44#32, 2#32), (image + 52#32, ELF_PROG_LOAD), (image + 56#32, 116#32),
      (image + 60#32, 0x800FFC#32), (image + 68#32, 8#32), (image + 72#32, 16#32),
      (image + 84#32, ELF_PROG_LOAD), (image + 88#32, 124#32), (image + 92#32, 0x803020#32),
      (image + 100#32, 4#32), (image + 104#32, 0x40#32), (image + 116#32, 0x90909090#32),
      (image + 120#32, 0x90C3FEEB#32), (image + 124#32, 0x2A#32)]

theorem loads_smallImage : loads (proghdrs smallImage image) =
    [⟨ELF_PROG_LOAD, 116#32, 0x800FFC#32, 8#32, 16#32⟩,
      ⟨ELF_PROG_LOAD, 124#32, 0x803020#32, 4#32, 0x40#32⟩] := by
  rfl

theorem smallImage_ok : IcodeOk smallImage image := by
  refine ⟨by rfl, fun ph hph => ?_, ?_⟩
  · rw [loads_smallImage] at hph
    simp only [List.mem_cons, List.not_mem_nil, or_false] at hph
    rcases hph with rfl | rfl <;> exact ⟨by decide, by decide⟩
  · rw [loads_smallImage]
    refine List.pairwise_pair.2 ?_
    rintro n ⟨⟨-, hlast⟩, hfirst, -⟩
    change n * 4096 < 0x800FFC + 16 at hlast
    change 0x803020 / 4096 ≤ n at hfirst
    omega

theorem load_icode_loads_small : IcodeOk smallImage image ∧
    ∃ k', loadIcode firstEnv 0 0 smallImage image = .ok k' ∧ k'.dirs = firstEnv.dirs ∧
      IcodeLoaded smallImage image k' 0 1 := by
  have hroom : EnoughFor firstEnv.phys firstEnv.dirs [2, 3, 4, 5, 6, 7, 8, 9] 0
    (icodeRegions smallImage image) := by
    apply enoughFor_of_twice
    rw [icodeRegions, loads_smallImage]
    decide
  refine ⟨smallImage_ok, load_icode_loads memInv_firstEnv ?_ vm_firstEnv ?_ smallImage_ok hroom 0⟩
  · rw [dirs_firstEnv, Function.update_self]
  · rfl

/-! ### A segment without bytes -/

/-- A byte of the region is in the page with number `n`. -/
def Touches (s : Word × Word) (n : ℕ) : Prop := ∃ i < s.2.toNat, (s.1.toNat + i) / 4096 = n

/-- A region that does not wrap has the pages it touches, and no others unless it is empty. -/
theorem inRounded_iff_touches (s : Word × Word) (n : ℕ) : InRounded s.1 s.2 n ↔
    Touches s n ∨ s.2 = 0 ∧ s.1.toNat % 4096 ≠ 0 ∧ n = s.1.toNat / 4096 := by
  have hlen : s.2 = 0 ↔ s.2.toNat = 0 := by
    rw [← BitVec.toNat_inj]
    rfl
  rw [hlen]
  unfold InRounded
  constructor
  · rintro ⟨hle, hlt⟩
    by_cases hzero : s.2.toNat = 0
    · exact .inr (by omega)
    · refine .inl ?_
      by_cases hfirst : n = s.1.toNat / 4096
      · exact ⟨0, by omega, by omega⟩
      · exact ⟨n * 4096 - s.1.toNat, by omega, by omega⟩
  · rintro (⟨i, hi, rfl⟩ | hempty)
    · omega
    · omega

/-- One segment without bytes, at an address inside a page. -/
def emptyImage : ByteMem := oneSegment 0x800010#32 0#32 0#32

theorem loads_emptyImage : loads (proghdrs emptyImage image) =
    [⟨ELF_PROG_LOAD, 84#32, 0x800010#32, 0#32, 0#32⟩] := by
  rfl

theorem emptyImage_ok : IcodeOk emptyImage image := by
  refine ⟨by rfl, fun ph hph => ?_, ?_⟩
  · rw [loads_emptyImage, List.mem_singleton] at hph
    subst hph
    exact ⟨by decide, by decide⟩
  · rw [loads_emptyImage]
    exact List.pairwise_singleton _ _

/-- Its page is mapped, and no byte of the program is in it. -/
theorem load_icode_maps_untouched : IcodeOk emptyImage image ∧
    (loads (proghdrs emptyImage image)).Pairwise
    (fun a b => ∀ n, ¬ (Touches a.region n ∧ Touches b.region n)) ∧
    EnoughFor firstEnv.phys firstEnv.dirs [2, 3, 4, 5, 6, 7, 8, 9] 0
    (icodeRegions emptyImage image) ∧
    ∃ k', loadIcode firstEnv 0 0 emptyImage image = .ok k' ∧ Permits k'.phys 1 0x800010#32 PTE_P ∧
      ¬ ∃ s ∈ icodeRegions emptyImage image, Touches s 0x800 := by
  have hroom : EnoughFor firstEnv.phys firstEnv.dirs [2, 3, 4, 5, 6, 7, 8, 9] 0
    (icodeRegions emptyImage image) := by
    apply enoughFor_of_twice
    rw [icodeRegions, loads_emptyImage]
    decide
  have hd : firstEnv.dirs 0 = some 1 := by rw [dirs_firstEnv, Function.update_self]
  obtain ⟨k', free', hrun, hdirs, hplaced, -⟩ :=
    loadIcode_ok memInv_firstEnv hd vm_firstEnv rfl emptyImage_ok hroom 0
  have hregions : icodeRegions emptyImage image = [(0x800010#32, 0#32), stackRegion] := by
    rw [icodeRegions, loads_emptyImage]
    rfl
  refine ⟨emptyImage_ok, ?_, hroom, k', hrun, ?_, ?_⟩
  · rw [loads_emptyImage]
    exact List.pairwise_singleton _ _
  · refine (hplaced.permits_iff hd (by decide)).2 ⟨(0x800010#32, 0#32), ?_, ?_⟩
    · rw [hregions]
      exact List.mem_cons_self
    · unfold InPages InRounded
      decide
  · rw [hregions]
    rintro ⟨s, hs, i, hi, hpage⟩
    rcases List.mem_cons.1 hs with rfl | hs
    · exact absurd hi (Nat.not_lt_zero i)
    · obtain rfl := List.mem_singleton.1 hs
      unfold stackRegion at hpage
      dsimp only at hpage
      rw [toNat_stackPage] at hpage
      omega

end Jos
