import Jos.Pmap
import Jos.Lib.ByteMem
import Jos.Lib.Loop

/-!
# Memory accesses through the MMU

What the processor does with a virtual address: it walks the page directory in CR3 and grants
the rights that both levels grant. A data page holds 1024 words of four bytes each. The
accessed and dirty bits that the walk sets are not set here; they are no part of what the
kernel reads, and `Jos.Smp` has an action that sets them.
-/

namespace Jos

open Lib

/-- The word of its page that an address lies in. -/
def WORDX (la : Word) : Idx := ⟨(la >>> 2).toNat % 1024, Nat.mod_lt _ (by decide)⟩

/-- The byte of its word that an address names. -/
def BYTEX (la : Word) : Nat := la.toNat % 4

/-- Replace byte `o` of a word. -/
def setByte (w : Word) (o : Nat) (b : BitVec 8) : Word :=
  w &&& ~~~(0xFF#32 <<< (8 * o)) ||| b.setWidth 32 <<< (8 * o)

/-- The page table entry for `va`. -/
def mmuPte (σ : Phys) (d : Nat) (va : Word) : Word := σ.mem (PGNUM (σ.mem d (PDX va))) (PTX va)

/-- Both levels have all of `bits`. -/
def Permits (σ : Phys) (d : Nat) (va bits : Word) : Prop :=
  σ.mem d (PDX va) &&& bits = bits ∧ mmuPte σ d va &&& bits = bits

instance (σ : Phys) (d : Nat) (va bits : Word) : Decidable (Permits σ d va bits) := by
  unfold Permits; infer_instance

/-- Where the byte at `va` lies in physical memory. -/
def mmuWord (σ : Phys) (d : Nat) (va : Word) : PtePtr := (PGNUM (mmuPte σ d va), WORDX va)

def loadByte (σ : Phys) (d : Nat) (va : Word) : BitVec 8 :=
  byteAt (σ.load (mmuWord σ d va)) (BYTEX va)

def storeByte (σ : Phys) (d : Nat) (va : Word) (b : BitVec 8) : Phys :=
  σ.store (mmuWord σ d va) (setByte (σ.load (mmuWord σ d va)) (BYTEX va) b)

/-- A store by the kernel: `CR0_WP` is set, so the page must be writable. -/
def kernStoreByte (σ : Phys) (d : Nat) (va : Word) (b : BitVec 8) : Except String Phys :=
  if Permits σ d va (PTE_P ||| PTE_W) then .ok (storeByte σ d va b)
  else .error "=== Page fault at kernel ==="

/-- A word, from its lowest byte. -/
def kernStoreWord (d : Nat) (σ : Phys) (x : Word × Word) : Except String Phys := do
  let σ ← kernStoreByte σ d x.1 (byteAt x.2 0)
  let σ ← kernStoreByte σ d (x.1 + 1#32) (byteAt x.2 1)
  let σ ← kernStoreByte σ d (x.1 + 2#32) (byteAt x.2 2)
  kernStoreByte σ d (x.1 + 3#32) (byteAt x.2 3)

/-! ## Bytes of a word -/

theorem byteAt_setByte (w : Word) (b : BitVec 8) {o o' : Nat} (ho : o < 4) (ho' : o' < 4) :
    byteAt (setByte w o b) o' = if o' = o then b else byteAt w o' := by
  ext i hi
  have hk : 8 * o' + i < 32 := by omega
  have hmask : (0xFF#32 <<< (8 * o)).getLsbD (8 * o' + i) = decide (o' = o) := by
    have hff : ∀ j, (0xFF#32).getLsbD j = decide (j < 8) := by
      intro j
      rw [show 0xFF#32 = (BitVec.allOnes 8).setWidth 32 by decide, BitVec.getLsbD_setWidth,
        BitVec.getLsbD_allOnes]
      by_cases hj : j < 8
      · simp [hj, (by omega : j < 32)]
      · simp [hj]
    rw [BitVec.getLsbD_shiftLeft, hff]
    by_cases h : o' = o
    · subst h
      simp [hk, hi]
    · by_cases hlt : 8 * o' + i < 8 * o
      · simp [h, hlt]
      · have hge : ¬ 8 * o' + i - 8 * o < 8 := by omega
        simp [h, hge]
  have hbyte : ∀ v : Word, (byteAt v o')[i] = v.getLsbD (8 * o' + i) := by
    intro v
    rw [byteAt, ← BitVec.getLsbD_eq_getElem, BitVec.getLsbD_extractLsb']
    simp [hi]
  rw [hbyte, setByte, BitVec.getLsbD_or, BitVec.getLsbD_and, BitVec.getLsbD_not, hmask,
    BitVec.getLsbD_shiftLeft, BitVec.getLsbD_setWidth]
  by_cases h : o' = o
  · subst h
    rw [if_pos rfl]
    simp [hk, (by omega : i < 32), BitVec.getLsbD_eq_getElem hi]
  · rw [if_neg h, hbyte]
    by_cases hlt : 8 * o' + i < 8 * o
    · simp [h, hlt, hk]
    · have hb : b.getLsbD (8 * o' + i - 8 * o) = false := BitVec.getLsbD_of_ge _ _ (by omega)
      simp [h, hb, hk]

/-! ## Pages -/

/-- Two addresses in one page. -/
def SamePage (x y : Word) : Prop := x.toNat / 4096 = y.toNat / 4096

theorem SamePage.PDX_eq {x y : Word} (h : SamePage x y) : PDX x = PDX y := by
  unfold SamePage at h
  ext
  rw [val_PDX, val_PDX]
  omega

theorem SamePage.PTX_eq {x y : Word} (h : SamePage x y) : PTX x = PTX y := by
  unfold SamePage at h
  ext
  rw [val_PTX, val_PTX, h]

theorem SamePage.eq_of_word {x y : Word} (h : SamePage x y) (hw : WORDX x = WORDX y)
    (hb : BYTEX x = BYTEX y) : x = y := by
  unfold SamePage at h
  have hw' : x.toNat / 4 % 1024 = y.toNat / 4 % 1024 := by
    have := congrArg Fin.val hw
    simpa [WORDX, Nat.shiftRight_eq_div_pow] using this
  unfold BYTEX at hb
  apply BitVec.eq_of_toNat_eq
  omega

/-- The page of `va` is mapped writable to the frame `p`, which is not one of its tables. -/
structure MapsTo (σ : Phys) (d : Nat) (va : Word) (p : Nat) : Prop where
  permits : Permits σ d va (PTE_P ||| PTE_W)
  frame : PGNUM (mmuPte σ d va) = p
  ne_dir : p ≠ d
  ne_table : p ≠ PGNUM (σ.mem d (PDX va))

namespace MapsTo

variable {σ σ' : Phys} {d p : Nat} {va x y : Word}

theorem of_samePage (h : MapsTo σ d va p) (hx : SamePage x va) : MapsTo σ d x p := by
  have hpte : mmuPte σ d x = mmuPte σ d va := by
    rw [mmuPte, mmuPte, hx.PDX_eq, hx.PTX_eq]
  constructor
  · unfold Permits
    rw [hx.PDX_eq, hpte]
    exact h.permits
  · rw [hpte]
    exact h.frame
  · exact h.ne_dir
  · rw [hx.PDX_eq]
    exact h.ne_table

/-- Writing into the page itself does not change how it is mapped. -/
theorem congr (h : MapsTo σ d va p) (hmem : ∀ f ≠ p, σ'.mem f = σ.mem f) :
    MapsTo σ' d va p ∧ mmuPte σ' d va = mmuPte σ d va := by
  have hdir : σ'.mem d = σ.mem d := hmem d h.ne_dir.symm
  have hpte : mmuPte σ' d va = mmuPte σ d va := by
    rw [mmuPte, hdir, hmem _ h.ne_table.symm]
    rfl
  refine ⟨⟨?_, ?_, h.ne_dir, ?_⟩, hpte⟩
  · unfold Permits
    rw [hdir, hpte]
    exact h.permits
  · rw [hpte]
    exact h.frame
  · rw [hdir]
    exact h.ne_table

theorem loadByte_eq (h : MapsTo σ d va p) :
    loadByte σ d va = byteAt (σ.mem p (WORDX va)) (BYTEX va) := by
  rw [loadByte, mmuWord, h.frame]
  rfl

/-- **A store of one byte**, seen in its page. -/
theorem storeByte (h : MapsTo σ d va p) (b : BitVec 8) :
    kernStoreByte σ d va b = .ok (storeByte σ d va b) ∧
      (∀ f ≠ p, (Jos.storeByte σ d va b).mem f = σ.mem f) ∧
      ∀ y, SamePage y va → loadByte (Jos.storeByte σ d va b) d y =
        if y = va then b else loadByte σ d y := by
  have hmem : ∀ f ≠ p, (Jos.storeByte σ d va b).mem f = σ.mem f := by
    intro f hf
    funext i
    rw [Jos.storeByte, Phys.mem_store, if_neg]
    rw [mmuWord, h.frame]
    exact fun hc => hf hc.1
  refine ⟨if_pos h.permits, hmem, fun y hy => ?_⟩
  have hy' := h.of_samePage hy
  rw [(hy'.congr hmem).1.loadByte_eq, hy'.loadByte_eq]
  have hstore : (Jos.storeByte σ d va b).mem p (WORDX y) =
      if WORDX y = WORDX va then setByte (σ.mem p (WORDX va)) (BYTEX va) b
      else σ.mem p (WORDX y) := by
    rw [Jos.storeByte, Phys.mem_store, mmuWord, h.frame]
    simp only [true_and]
    rfl
  have hlt : ∀ z : Word, BYTEX z < 4 := fun z => Nat.mod_lt _ (by decide)
  rw [hstore]
  by_cases hw : WORDX y = WORDX va
  · rw [if_pos hw, byteAt_setByte _ _ (hlt va) (hlt y), hw]
    by_cases hb : BYTEX y = BYTEX va
    · rw [if_pos hb, if_pos (hy.eq_of_word hw hb)]
    · rw [if_neg hb, if_neg (ne_of_apply_ne BYTEX hb)]
  · rw [if_neg hw, if_neg (ne_of_apply_ne WORDX hw)]

/-- **A store of a word** inside the page. -/
theorem storeWord (h : MapsTo σ d va p) {a : Word} (w : Word)
    (ha : ∀ o : Word, o.toNat < 4 → SamePage (a + o) va) :
    ∃ σ', kernStoreWord d σ (a, w) = .ok σ' ∧ (∀ f ≠ p, σ'.mem f = σ.mem f) ∧
      ∀ y, SamePage y va → loadByte σ' d y = ByteMem.storeWord (loadByte σ d) a w y := by
  have hbyte : ∀ {τ : Phys} (o : Word) (b : BitVec 8), o.toNat < 4 → MapsTo τ d va p →
      ∃ τ', kernStoreByte τ d (a + o) b = .ok τ' ∧ MapsTo τ' d va p ∧
        (∀ f ≠ p, τ'.mem f = τ.mem f) ∧
        ∀ y, SamePage y va → loadByte τ' d y = if y = a + o then b else loadByte τ d y := by
    intro τ o b ho hτ
    obtain ⟨hok, hmem, hview⟩ := (hτ.of_samePage (ha o ho)).storeByte b
    exact ⟨_, hok, (hτ.congr hmem).1, hmem, fun y hy => hview y (hy.trans (ha o ho).symm)⟩
  obtain ⟨σ₀, h₀, hm₀, hf₀, hv₀⟩ := hbyte 0#32 (byteAt w 0) (by decide) h
  obtain ⟨σ₁, h₁, hm₁, hf₁, hv₁⟩ := hbyte 1#32 (byteAt w 1) (by decide) hm₀
  obtain ⟨σ₂, h₂, hm₂, hf₂, hv₂⟩ := hbyte 2#32 (byteAt w 2) (by decide) hm₁
  obtain ⟨σ₃, h₃, hm₃, hf₃, hv₃⟩ := hbyte 3#32 (byteAt w 3) (by decide) hm₂
  refine ⟨σ₃, ?_, fun f hf => ?_, fun y hy => ?_⟩
  · rw [BitVec.add_zero] at h₀
    rw [kernStoreWord, h₀, ok_bind, h₁, ok_bind, h₂, ok_bind, h₃]
  · rw [hf₃ f hf, hf₂ f hf, hf₁ f hf, hf₀ f hf]
  · rw [hv₃ y hy, hv₂ y hy, hv₁ y hy, hv₀ y hy]
    have hoff : ∀ o : Word, y = a + o ↔ y - a = o := by
      intro o
      constructor
      · rintro rfl
        rw [BitVec.add_comm, BitVec.add_sub_cancel]
      · rintro rfl
        rw [BitVec.add_comm, BitVec.sub_add_cancel]
    simp only [hoff, ByteMem.storeWord]
    generalize y - a = o
    by_cases ho : o.toNat < 4
    · have hcases : o = 0#32 ∨ o = 1#32 ∨ o = 2#32 ∨ o = 3#32 := by
        have : o.toNat = 0 ∨ o.toNat = 1 ∨ o.toNat = 2 ∨ o.toNat = 3 := by omega
        rcases this with h | h | h | h
        · exact .inl (BitVec.eq_of_toNat_eq h)
        · exact .inr (.inl (BitVec.eq_of_toNat_eq h))
        · exact .inr (.inr (.inl (BitVec.eq_of_toNat_eq h)))
        · exact .inr (.inr (.inr (BitVec.eq_of_toNat_eq h)))
      rcases hcases with rfl | rfl | rfl | rfl <;> simp
    · have hne : ∀ c : Word, c.toNat < 4 → o ≠ c := by
        rintro c hc rfl
        exact ho hc
      rw [if_neg (hne 3#32 (by decide)), if_neg (hne 2#32 (by decide)),
        if_neg (hne 1#32 (by decide)), if_neg (hne 0#32 (by decide)), if_neg ho]

/-- **A list of word stores** inside the page. -/
theorem storeWords (l : List (Word × Word)) (h : MapsTo σ d va p)
    (hl : ∀ x ∈ l, ∀ o : Word, o.toNat < 4 → SamePage (x.1 + o) va) {m : ByteMem}
    (hm : ∀ y, SamePage y va → loadByte σ d y = m y) :
    ∃ σ', l.foldlM (kernStoreWord d) σ = .ok σ' ∧ (∀ f ≠ p, σ'.mem f = σ.mem f) ∧
      ∀ y, SamePage y va → loadByte σ' d y = m.storeWords l y := by
  induction l generalizing σ m with
  | nil => exact ⟨σ, rfl, fun _ _ => rfl, hm⟩
  | cons x l ih =>
    obtain ⟨σ₁, h₁, hf₁, hv₁⟩ := h.storeWord x.2 (hl x List.mem_cons_self)
    have hm₁ : ∀ y, SamePage y va → loadByte σ₁ d y = m.storeWord x.1 x.2 y := by
      intro y hy
      rw [hv₁ y hy, ByteMem.storeWord, ByteMem.storeWord, hm y hy]
    obtain ⟨σ', h', hf', hv'⟩ := ih (h.congr hf₁).1
      (fun z hz => hl z (List.mem_cons_of_mem x hz)) hm₁
    refine ⟨σ', ?_, fun f hf => (hf' f hf).trans (hf₁ f hf), hv'⟩
    rw [List.foldlM_cons, show kernStoreWord d σ x = .ok σ₁ from h₁]
    exact h'

end MapsTo

end Jos
