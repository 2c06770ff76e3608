import Jos.Icode

/-!
# The boot loader

`bootmain` (`boot/main.c`) reads the first page of the kernel image from the disk into a scratch
area and then each program segment to its physical address. `readseg` only reads whole sectors: it
starts at the sector boundary below the segment and ends at one above it.

**Theorem (`bootmain_loads_iff`).** Every segment is in memory at the end exactly if

- the last sector of each segment is not the last one of the address space, where the address wraps
  to zero and the loop does not end, and
- a segment that begins in a sector that holds bytes of an earlier one has the same bytes before its
  start as the earlier one has there (`SharedAgree`).

The bytes that `readseg` writes behind a segment are written again when the next one is loaded,
because the segments come in increasing order. The bytes it writes before a segment are not.

The disk is a byte for every position, and the image starts at sector 1. A loop that does not end
has no result for any `fuel`.

The memory here is data: the loader's own code and stack, at `0x7C00` and below, are not in it, so a
segment that would overwrite them is loaded like any other. A segment that ends at the top of the
address space, where its end is zero as a 32-bit number, is not read at all (`readseg_top`), and
`BootImage` leaves it out.
-/

namespace Jos

open Lib

/-! ## The program -/

def SECTSIZE : ℕ := 512

/-- The scratch space. -/
def ELFHDR : Word := 0x10000#32

/-- The sector the drive reads for what `readsect` puts in its registers: three bytes of the number,
and four bits in the register that also selects the drive. -/
def lba (offset : Word) : ℕ :=
  (offset.setWidth 8).toNat + 2 ^ 8 * ((offset >>> 8).setWidth 8).toNat +
    2 ^ 16 * ((offset >>> 16).setWidth 8).toNat +
    2 ^ 24 * (((offset >>> 24 ||| 0xE0#32).setWidth 8).toNat % 16)

/-- `readsect`. -/
def readsect (disk : ℕ → BitVec 8) (m : ByteMem) (dst offset : Word) : ByteMem := fun x =>
  if (x - dst).toNat < SECTSIZE then disk (SECTSIZE * lba offset + (x - dst).toNat) else m x

/-- The loop of `readseg`. -/
def readsegLoop (disk : ℕ → BitVec 8) (endPa : Word) : ℕ → ByteMem → Word → Word → Option ByteMem
  | 0, _, _, _ => none
  | fuel + 1, m, pa, offset =>
    if pa < endPa then
      readsegLoop disk endPa fuel (readsect disk m pa offset) (pa + BitVec.ofNat 32 SECTSIZE)
        (offset + 1#32)
    else some m

/-- `readseg`. -/
def readseg (disk : ℕ → BitVec 8) (fuel : ℕ) (m : ByteMem) (pa count offset : Word) :
    Option ByteMem :=
  let endPa := pa + count
  let pa := pa &&& ~~~ (BitVec.ofNat 32 SECTSIZE - 1#32)
  let offset := offset / BitVec.ofNat 32 SECTSIZE + 1#32
  readsegLoop disk endPa fuel m pa offset

/-- The fields of `struct Proghdr` that say what is loaded where. -/
structure BootSeg where
  pOffset : Word
  pPa : Word
  pFilesz : Word
  pMemsz : Word

/-- The program header at `a`. -/
def bootSegAt (m : ByteMem) (a : Word) : BootSeg where
  pOffset := m.loadWord (a + 4#32)
  pPa := m.loadWord (a + 12#32)
  pFilesz := m.loadWord (a + 16#32)
  pMemsz := m.loadWord (a + 20#32)

/-- The loop over the program headers. -/
def readSegments (disk : ℕ → BitVec 8) (fuel : ℕ) (eph : Word) : ℕ → ByteMem → Word → Option ByteMem
  | 0, _, _ => none
  | n + 1, m, ph =>
    if ph < eph then do
      let seg := bootSegAt m ph
      let m ← readseg disk fuel m seg.pPa seg.pMemsz seg.pOffset
      readSegments disk fuel eph n m (ph + 32#32)
    else some m

/-- `bootmain` stops in a loop, or jumps to the kernel. -/
inductive BootResult
  | bad
  | entry (eip : Word) (m : ByteMem)

/-- `bootmain`. -/
def bootmain (disk : ℕ → BitVec 8) (fuel : ℕ) (m : ByteMem) : Option BootResult := do
  let m ← readseg disk fuel m ELFHDR (BitVec.ofNat 32 (SECTSIZE * 8)) 0#32
  let elf := elfAt m ELFHDR
  if elf.eMagic ≠ ELF_MAGIC then return .bad
  let ph := ELFHDR + elf.ePhoff
  let m ← readSegments disk fuel (ph + BitVec.ofNat 32 (32 * elf.ePhnum.toNat)) fuel m ph
  return .entry (elfAt m ELFHDR).eEntry m

/-! ## The image -/

/-- A byte of the image. -/
def fileByte (disk : ℕ → BitVec 8) (x : ℕ) : BitVec 8 := disk (SECTSIZE + x)

/-- The image as it would be in memory at `ELFHDR`. -/
def imageMem (disk : ℕ → BitVec 8) : ByteMem := fun x => fileByte disk (x - ELFHDR).toNat

def bootElf (disk : ℕ → BitVec 8) : Elf := elfAt (imageMem disk) ELFHDR

/-- The program headers of the image. -/
def segments (disk : ℕ → BitVec 8) : List BootSeg :=
  (List.range (bootElf disk).ePhnum.toNat).map fun i =>
    bootSegAt (imageMem disk) (ELFHDR + (bootElf disk).ePhoff + BitVec.ofNat 32 (32 * i))

namespace BootSeg

/-- The end of the segment in memory. -/
def endPa (seg : BootSeg) : ℕ := seg.pPa.toNat + seg.pMemsz.toNat

/-- Where the first sector of the segment starts. -/
def first (seg : BootSeg) : ℕ := seg.pPa.toNat / 512 * 512

/-- The number of sectors. -/
def sectors (seg : BootSeg) : ℕ := (seg.endPa - seg.first + 511) / 512

/-- The sectors of the segment cover `a`. -/
def Covers (seg : BootSeg) (a : ℕ) : Prop := seg.first ≤ a ∧ a < seg.first + 512 * seg.sectors

instance (seg : BootSeg) (a : ℕ) : Decidable (seg.Covers a) := by unfold Covers; infer_instance

/-- The position in the image that belongs to the address `a`. -/
def position (seg : BootSeg) (a : ℕ) : ℕ := seg.pOffset.toNat + a - seg.pPa.toNat

/-- A segment of a kernel image: in the address space, away from the scratch area, and at the same
place in a sector in memory and in the file. -/
structure WellFormed (seg : BootSeg) : Prop where
  size : seg.pFilesz.toNat ≤ seg.pMemsz.toNat
  wrap : seg.endPa < 2 ^ 32
  away : seg.endPa ≤ 0x10000 ∨ 0x11000 ≤ seg.pPa.toNat
  aligned : seg.pPa.toNat % 512 = seg.pOffset.toNat % 512

end BootSeg

/-- A kernel image. -/
structure BootImage (disk : ℕ → BitVec 8) : Prop where
  magic : (bootElf disk).eMagic = ELF_MAGIC
  fit : (bootElf disk).ePhoff.toNat + 32 * (bootElf disk).ePhnum.toNat ≤ 4096
  segs : ∀ seg ∈ segments disk, seg.WellFormed
  increasing : (segments disk).Pairwise fun seg seg' => seg.endPa ≤ seg'.pPa.toNat

/-- Every segment is where it belongs. -/
def SegsLoaded (disk : ℕ → BitVec 8) (m : ByteMem) : Prop :=
  ∀ seg ∈ segments disk, ∀ i < seg.pFilesz.toNat,
    m (seg.pPa + BitVec.ofNat 32 i) = fileByte disk (seg.pOffset.toNat + i)

/-- `bootmain` gets to the kernel, and has loaded it. -/
def BootsRight (disk : ℕ → BitVec 8) (m : ByteMem) : Prop :=
  ∃ fuel eip m', bootmain disk fuel m = some (.entry eip m') ∧ SegsLoaded disk m'

/-- The last segment to begin in a sector with bytes of an earlier one has the same bytes there. -/
def SharedAgree (disk : ℕ → BitVec 8) : Prop :=
  ∀ pre seg mid seg' rest, segments disk = pre ++ seg :: (mid ++ seg' :: rest) →
    ∀ a, seg.pPa.toNat ≤ a → a < seg.pPa.toNat + seg.pFilesz.toNat → seg'.first ≤ a →
      (∀ l ∈ rest, a < l.first) →
      fileByte disk (seg'.position a) = fileByte disk (seg.position a)

variable {disk : ℕ → BitVec 8} {m m' : ByteMem} {seg : BootSeg}

/-! ## Sectors -/

theorem lba_eq {offset : Word} (h : offset.toNat < 2 ^ 28) : lba offset = offset.toNat := by
  have htop : ((offset >>> 24 ||| 0xE0#32).setWidth 8).toNat % 16 = offset.toNat / 2 ^ 24 := by
    have hdiv : (offset >>> 24).toNat = offset.toNat / 2 ^ 24 := by
      rw [BitVec.toNat_ushiftRight, Nat.shiftRight_eq_div_pow]
    have hor : ∀ x < 16, (x ||| 0xE0) % 2 ^ 8 % 16 = x := by decide
    rw [BitVec.toNat_setWidth, BitVec.toNat_or, hdiv]
    exact hor _ (by omega)
  unfold lba
  rw [htop]
  simp only [BitVec.toNat_setWidth, BitVec.toNat_ushiftRight, Nat.shiftRight_eq_div_pow]
  omega

/-- `n` sectors of the disk from sector `s` on, in memory from `p` on. -/
def placed (disk : ℕ → BitVec 8) (m : ByteMem) (p s n : ℕ) : ByteMem := fun x =>
  if p ≤ x.toNat ∧ x.toNat < p + 512 * n then disk (512 * s + (x.toNat - p)) else m x

theorem placed_inside {p s n : ℕ} {x : Word} (h : p ≤ x.toNat ∧ x.toNat < p + 512 * n) :
    placed disk m p s n x = disk (512 * s + (x.toNat - p)) := if_pos h

theorem placed_outside {p s n : ℕ} {x : Word} (h : ¬ (p ≤ x.toNat ∧ x.toNat < p + 512 * n)) :
    placed disk m p s n x = m x := if_neg h

@[simp] theorem placed_zero (m : ByteMem) (p s : ℕ) : placed disk m p s 0 = m := by
  funext x
  exact placed_outside (by omega)

theorem placed_one (p s : ℕ) (x : Word) : placed disk m p s 1 x =
    if p ≤ x.toNat ∧ x.toNat < p + 512 then disk (512 * s + (x.toNat - p)) else m x := by
  rw [placed, Nat.mul_one]

theorem placed_succ (m : ByteMem) (p s n : ℕ) :
    placed disk (placed disk m p s 1) (p + 512) (s + 1) n = placed disk m p s (n + 1) := by
  funext x
  have hsum : 512 * (n + 1) = 512 + 512 * n := by ring
  rcases Nat.lt_or_ge x.toNat (p + 512) with hlt | hge
  · have hall : x.toNat < p + 512 * (n + 1) := by
      rw [hsum]
      omega
    rw [placed_outside (by omega), placed_one]
    by_cases hp : p ≤ x.toNat
    · rw [if_pos ⟨hp, hlt⟩, placed_inside ⟨hp, hall⟩]
    · rw [if_neg fun hc => hp hc.1, placed_outside fun hc => hp hc.1]
  · by_cases hn : x.toNat < p + 512 + 512 * n
    · have hpos : 512 * (s + 1) + (x.toNat - (p + 512)) = 512 * s + (x.toNat - p) := by omega
      rw [placed_inside ⟨hge, hn⟩, placed_inside ⟨by omega, by omega⟩, hpos]
    · rw [placed_outside fun hc => hn hc.2, placed_one, if_neg fun hc => by omega,
        placed_outside fun hc => by omega]

theorem readsect_eq (m : ByteMem) {p s : ℕ} (hp : p + 512 ≤ 2 ^ 32) (hs : s < 2 ^ 28) :
    readsect disk m (BitVec.ofNat 32 p) (BitVec.ofNat 32 s) = placed disk m p s 1 := by
  have hs' : (BitVec.ofNat 32 s).toNat = s := by
    rw [BitVec.toNat_ofNat, Nat.mod_eq_of_lt (by omega)]
  have hlba : lba (BitVec.ofNat 32 s) = s := by rw [lba_eq (by omega), hs']
  funext x
  have hx := x.isLt
  have hsub : (x - BitVec.ofNat 32 p).toNat = (2 ^ 32 - p + x.toNat) % 2 ^ 32 := by
    rw [BitVec.toNat_sub, BitVec.toNat_ofNat, Nat.mod_eq_of_lt (show p < 2 ^ 32 by omega)]
  unfold readsect SECTSIZE
  rw [hlba, placed_one]
  by_cases h : p ≤ x.toNat ∧ x.toNat < p + 512
  · have hdist : (x - BitVec.ofNat 32 p).toNat = x.toNat - p := by omega
    rw [if_pos h, hdist, if_pos (by omega)]
  · rw [if_neg h, if_neg (by omega)]

/-- The loop of `readseg`, if its last sector is not the last one there is. -/
theorem readsegLoop_ok {e : ℕ} (he : e ≤ 2 ^ 32 - 512) (fuel : ℕ) (m : ByteMem) {p s : ℕ}
    (hp : p % 512 = 0) (hp' : p < 2 ^ 32) (hs : s + (e - p + 511) / 512 < 2 ^ 28)
    (hfuel : (e - p + 511) / 512 < fuel) :
    readsegLoop disk (BitVec.ofNat 32 e) fuel m (BitVec.ofNat 32 p) (BitVec.ofNat 32 s) =
      some (placed disk m p s ((e - p + 511) / 512)) := by
  induction fuel generalizing m p s with
  | zero => omega
  | succ fuel ih =>
    have hlt : BitVec.ofNat 32 p < BitVec.ofNat 32 e ↔ p < e := by
      rw [BitVec.lt_def, BitVec.toNat_ofNat, BitVec.toNat_ofNat, Nat.mod_eq_of_lt hp',
        Nat.mod_eq_of_lt (by omega)]
    rw [readsegLoop]
    by_cases h : p < e
    · have hn : (e - p + 511) / 512 = (e - (p + 512) + 511) / 512 + 1 := by omega
      have hnext : BitVec.ofNat 32 p + BitVec.ofNat 32 SECTSIZE = BitVec.ofNat 32 (p + 512) :=
        (BitVec.ofNat_add ..).symm
      have hsect : BitVec.ofNat 32 s + 1#32 = BitVec.ofNat 32 (s + 1) := (BitVec.ofNat_add ..).symm
      have hp512 : p + 512 ≤ 2 ^ 32 := by omega
      have hs28 : s < 2 ^ 28 := by omega
      rw [if_pos (hlt.2 h), readsect_eq m hp512 hs28, hnext, hsect, hn,
        ← placed_succ m p s ((e - (p + 512) + 511) / 512)]
      exact ih (p := p + 512) (s := s + 1) _ (by omega) (by omega) (by omega) (by omega)
    · have hn : (e - p + 511) / 512 = 0 := by omega
      rw [if_neg (mt hlt.1 h), hn, placed_zero]

theorem readsegLoop_mono {e : Word} {fuel fuel' : ℕ} (hle : fuel ≤ fuel') {p s : Word}
    (h : readsegLoop disk e fuel m p s = some m') : readsegLoop disk e fuel' m p s = some m' := by
  induction fuel generalizing fuel' m p s with
  | zero => cases h
  | succ fuel ih =>
    obtain ⟨k, rfl⟩ : ∃ k, fuel' = k + 1 := ⟨fuel' - 1, by omega⟩
    rw [readsegLoop] at h ⊢
    split_ifs at h ⊢ with hlt
    · exact ih (by omega) h
    · exact h

/-- Behind the last sector the address is zero again, and the loop goes on. -/
theorem readsegLoop_wraps {e : Word} (he : 2 ^ 32 - 512 < e.toNat) (fuel : ℕ)
    (m : ByteMem) {p : Word} (hp : p.toNat % 512 = 0) (s : Word) :
    readsegLoop disk e fuel m p s = none := by
  induction fuel generalizing m p s with
  | zero => rfl
  | succ fuel ih =>
    have hlt : p < e := by
      rw [BitVec.lt_def]
      have := p.isLt
      omega
    rw [readsegLoop, if_pos hlt]
    refine ih _ ?_ _
    rw [BitVec.toNat_add, show SECTSIZE = 512 from rfl, BitVec.toNat_ofNat]
    omega

/-! ## Segments -/

/-- What loading a segment makes of the memory. -/
def place (disk : ℕ → BitVec 8) (m : ByteMem) (seg : BootSeg) : ByteMem := fun x =>
  if seg.Covers x.toNat then fileByte disk (seg.position x.toNat) else m x

theorem toNat_sector_start (w : Word) :
    (w &&& ~~~ (BitVec.ofNat 32 SECTSIZE - 1#32)).toNat = w.toNat / 512 * 512 := by
  have h : w &&& ~~~ (BitVec.ofNat 32 SECTSIZE - 1#32) = (w >>> 9) <<< 9 := by
    have hmask : ∀ i < 32, (~~~ (BitVec.ofNat 32 SECTSIZE - 1#32)).getLsbD i = decide (9 ≤ i) := by
      decide
    apply BitVec.eq_of_getLsbD_eq
    intro i hi
    rw [BitVec.getLsbD_and, hmask i hi, BitVec.getLsbD_shiftLeft, BitVec.getLsbD_ushiftRight]
    by_cases hi9 : 9 ≤ i
    · have hsum : 9 + (i - 9) = i := by omega
      simp [hi9, hi, hsum, Nat.not_lt.2 hi9]
    · simp [hi9, Nat.not_le.1 hi9]
  have hw := w.isLt
  rw [h, BitVec.toNat_shiftLeft, BitVec.toNat_ushiftRight, Nat.shiftRight_eq_div_pow,
    Nat.shiftLeft_eq]
  omega

theorem BootSeg.first_le (seg : BootSeg) : seg.first ≤ seg.pPa.toNat := Nat.div_mul_le_self _ _

theorem BootSeg.endPa_le (seg : BootSeg) : seg.endPa ≤ seg.first + 512 * seg.sectors := by
  unfold BootSeg.sectors
  omega

/-- In memory and in the file the sectors start at the same place. -/
theorem BootSeg.position_eq (h : seg.pPa.toNat % 512 = seg.pOffset.toNat % 512) {a : ℕ}
    (ha : seg.first ≤ a) : seg.position a = seg.pOffset.toNat / 512 * 512 + (a - seg.first) := by
  unfold BootSeg.position BootSeg.first at *
  omega

theorem BootSeg.toNat_endPa (h : seg.endPa < 2 ^ 32) :
    (seg.pPa + seg.pMemsz).toNat = seg.endPa := by
  unfold BootSeg.endPa at *
  rw [BitVec.toNat_add, Nat.mod_eq_of_lt h]

/-- The number of iterations of any loop of `readseg`. -/
def sectorBound : ℕ := 2 ^ 24

theorem BootSeg.sectors_lt (h : seg.endPa ≤ 2 ^ 32 - 512) : seg.sectors < sectorBound := by
  unfold BootSeg.sectors sectorBound
  omega

/-- **`readseg`** places the sectors of the segment. -/
theorem readseg_ok (h : seg.pPa.toNat % 512 = seg.pOffset.toNat % 512)
    (hend : seg.endPa ≤ 2 ^ 32 - 512) {fuel : ℕ} (hfuel : sectorBound ≤ fuel) (m : ByteMem) :
    readseg disk fuel m seg.pPa seg.pMemsz seg.pOffset = some (place disk m seg) := by
  have hlt := BootSeg.sectors_lt hend
  have hpa : seg.pPa &&& ~~~ (BitVec.ofNat 32 SECTSIZE - 1#32) = BitVec.ofNat 32 seg.first := by
    apply BitVec.eq_of_toNat_eq
    have hfirst := seg.first_le
    have hpa := seg.pPa.isLt
    rw [toNat_sector_start, BitVec.toNat_ofNat, Nat.mod_eq_of_lt (by omega)]
    rfl
  have hoff : seg.pOffset / BitVec.ofNat 32 SECTSIZE + 1#32 =
      BitVec.ofNat 32 (seg.pOffset.toNat / 512 + 1) := by
    apply BitVec.eq_of_toNat_eq
    have hoff := seg.pOffset.isLt
    rw [BitVec.toNat_add, BitVec.toNat_udiv, BitVec.toNat_ofNat]
    rfl
  have hendPa : seg.pPa + seg.pMemsz = BitVec.ofNat 32 seg.endPa := by
    apply BitVec.eq_of_toNat_eq
    rw [BootSeg.toNat_endPa (by omega), BitVec.toNat_ofNat, Nat.mod_eq_of_lt (by omega)]
  have hoffset := seg.pOffset.isLt
  have hfirst := seg.first_le
  have hpalt := seg.pPa.isLt
  unfold readseg
  simp only [hpa, hoff, hendPa]
  have hmod : seg.first % 512 = 0 := Nat.mul_mod_left _ _
  rw [readsegLoop_ok hend fuel m hmod (by omega)]
  · change some (placed disk m seg.first _ seg.sectors) = some (place disk m seg)
    congr 1
    funext x
    unfold place
    by_cases hcov : seg.Covers x.toNat
    · rw [if_pos hcov, BootSeg.position_eq h hcov.1, placed_inside hcov]
      unfold fileByte SECTSIZE
      congr 1
      omega
    · rw [if_neg hcov, placed_outside hcov]
  · change seg.pOffset.toNat / 512 + 1 + seg.sectors < 2 ^ 28
    unfold sectorBound at hlt
    omega
  · exact lt_of_lt_of_le hlt hfuel

/-- A segment that ends where the address wraps to zero: `end_pa` is zero, and the loop does
nothing. -/
theorem readseg_top (hend : seg.endPa = 2 ^ 32) (fuel : ℕ) (m : ByteMem) :
    readseg disk (fuel + 1) m seg.pPa seg.pMemsz seg.pOffset = some m := by
  have hzero : seg.pPa + seg.pMemsz = 0#32 := by
    rw [← BitVec.toNat_inj, BitVec.toNat_add]
    change seg.endPa % 2 ^ 32 = 0
    rw [hend, Nat.mod_self]
  simp only [readseg, hzero]
  exact if_neg BitVec.not_lt_zero

/-- A segment whose last sector is the last one there is. -/
theorem readseg_wraps (h : seg.WellFormed) (hend : 2 ^ 32 - 512 < seg.endPa) (fuel : ℕ)
    (m : ByteMem) :
    readseg disk fuel m seg.pPa seg.pMemsz seg.pOffset = none := by
  refine readsegLoop_wraps ?_ fuel m ?_ _
  · rw [BootSeg.toNat_endPa h.wrap]
    exact hend
  · rw [toNat_sector_start, Nat.mul_mod_left]

theorem readseg_inv (h : seg.WellFormed) {fuel : ℕ}
    (hread : readseg disk fuel m seg.pPa seg.pMemsz seg.pOffset = some m') :
    seg.endPa ≤ 2 ^ 32 - 512 ∧ m' = place disk m seg := by
  by_cases hend : seg.endPa ≤ 2 ^ 32 - 512
  · have hbig : readseg disk (max sectorBound fuel) m seg.pPa seg.pMemsz seg.pOffset = some m' :=
      readsegLoop_mono (le_max_right _ _) hread
    rw [readseg_ok h.aligned hend (le_max_left _ _)] at hbig
    exact ⟨hend, (Option.some.inj hbig).symm⟩
  · rw [readseg_wraps h (by omega)] at hread
    cases hread

/-! ## The program headers -/

/-- The scratch area has the first page of the image. -/
def HeaderPage (disk : ℕ → BitVec 8) (m : ByteMem) : Prop :=
  ∀ x : Word, 0x10000 ≤ x.toNat → x.toNat < 0x11000 → m x = imageMem disk x

theorem HeaderPage.loadWord (h : HeaderPage disk m) {a : Word} (hlo : 0x10000 ≤ a.toNat)
    (hhi : a.toNat + 4 ≤ 0x11000) : m.loadWord a = (imageMem disk).loadWord a := by
  apply ByteMem.loadWord_congr
  intro i hi
  have hadd : (a + i).toNat = a.toNat + i.toNat := by
    rw [BitVec.toNat_add]
    omega
  exact h _ (by omega) (by omega)

theorem HeaderPage.bootSegAt_eq (h : HeaderPage disk m) {a : Word} (hlo : 0x10000 ≤ a.toNat)
    (hhi : a.toNat + 32 ≤ 0x11000) : bootSegAt m a = bootSegAt (imageMem disk) a := by
  have hadd : ∀ k : Word, k.toNat ≤ 28 → (a + k).toNat = a.toNat + k.toNat := by
    intro k hk
    rw [BitVec.toNat_add]
    omega
  have hfield : ∀ k : Word, k.toNat ≤ 28 →
      m.loadWord (a + k) = (imageMem disk).loadWord (a + k) := by
    intro k hk
    have hk' := hadd k hk
    exact h.loadWord (by omega) (by omega)
  unfold bootSegAt
  rw [hfield 4#32 (by decide), hfield 12#32 (by decide), hfield 16#32 (by decide),
    hfield 20#32 (by decide)]

theorem HeaderPage.elfAt_eq (h : HeaderPage disk m) : elfAt m ELFHDR = bootElf disk := by
  have hfield : ∀ k : Word, k.toNat ≤ 28 →
      m.loadWord (ELFHDR + k) = (imageMem disk).loadWord (ELFHDR + k) := by
    intro k hk
    have hk' : (ELFHDR + k).toNat = 0x10000 + k.toNat := by
      rw [BitVec.toNat_add, show ELFHDR.toNat = 0x10000 from rfl]
      omega
    exact h.loadWord (by omega) (by omega)
  have h0 := hfield 0#32 (by decide)
  rw [BitVec.add_zero] at h0
  unfold bootElf elfAt
  rw [h0, hfield 24#32 (by decide), hfield 28#32 (by decide), h (ELFHDR + 45#32) (by decide)
    (by decide), h (ELFHDR + 44#32) (by decide) (by decide)]

/-- A segment away from the scratch area does not change it. -/
theorem HeaderPage.place (h : HeaderPage disk m) (hseg : seg.WellFormed) :
    HeaderPage disk (place disk m seg) := by
  intro x hlo hhi
  have haway := hseg.away
  rw [← h x hlo hhi]
  refine if_neg fun hcov => ?_
  obtain ⟨h1, h2⟩ := hcov
  unfold BootSeg.sectors at h2
  unfold BootSeg.first at h1 h2
  have hle : seg.pPa.toNat ≤ seg.endPa := Nat.le_add_right _ _
  omega

/-- The first page as a segment. -/
def headerSeg : BootSeg := ⟨0#32, ELFHDR, 0#32, BitVec.ofNat 32 (SECTSIZE * 8)⟩

theorem headerPage_place (m : ByteMem) : HeaderPage disk (place disk m headerSeg) := by
  intro x hlo hhi
  have hsub : (x - ELFHDR).toNat = x.toNat - 0x10000 := by
    rw [BitVec.toNat_sub, show ELFHDR.toNat = 0x10000 from rfl]
    omega
  have hcov : headerSeg.Covers x.toNat := ⟨hlo, hhi⟩
  have hpos : headerSeg.position x.toNat = x.toNat - 0x10000 := by
    unfold BootSeg.position headerSeg
    rw [show (0#32).toNat = 0 from rfl, Nat.zero_add]
    rfl
  rw [Jos.place, if_pos hcov, imageMem, hsub, hpos]

theorem readseg_header {fuel : ℕ} (hfuel : sectorBound ≤ fuel) (m : ByteMem) :
    readseg disk fuel m ELFHDR (BitVec.ofNat 32 (SECTSIZE * 8)) 0#32 =
      some (place disk m headerSeg) := by
  have hend : headerSeg.endPa ≤ 2 ^ 32 - 512 := by decide
  exact readseg_ok (by decide) hend hfuel m

theorem readseg_header_inv {fuel : ℕ}
    (h : readseg disk fuel m ELFHDR (BitVec.ofNat 32 (SECTSIZE * 8)) 0#32 = some m') :
    HeaderPage disk m' := by
  have hbig : readseg disk (max sectorBound fuel) m ELFHDR (BitVec.ofNat 32 (SECTSIZE * 8)) 0#32 =
      some m' := readsegLoop_mono (le_max_right _ _) h
  rw [readseg_header (le_max_left _ _)] at hbig
  obtain rfl := Option.some.inj hbig
  exact headerPage_place m

/-- The address of a program header. -/
def headerAt (disk : ℕ → BitVec 8) (i : ℕ) : Word :=
  ELFHDR + (bootElf disk).ePhoff + BitVec.ofNat 32 (32 * i)

theorem toNat_headerAt (h : BootImage disk) {i : ℕ} (hi : i ≤ (bootElf disk).ePhnum.toNat) :
    (headerAt disk i).toNat = 0x10000 + (bootElf disk).ePhoff.toNat + 32 * i := by
  have hfit := h.fit
  unfold headerAt
  rw [BitVec.toNat_add, BitVec.toNat_add, BitVec.toNat_ofNat, show ELFHDR.toNat = 0x10000 from rfl]
  omega

theorem headerAt_succ (disk : ℕ → BitVec 8) (i : ℕ) :
    headerAt disk i + 32#32 = headerAt disk (i + 1) := by
  unfold headerAt
  rw [Nat.mul_add, BitVec.ofNat_add, ← BitVec.add_assoc]

theorem readSegments_cons (h : BootImage disk) (hm : HeaderPage disk m) {seg : BootSeg}
    {l : List BootSeg} {i : ℕ} (hl : (segments disk).drop i = seg :: l) (fuel n : ℕ) :
    readSegments disk fuel (headerAt disk (bootElf disk).ePhnum.toNat) (n + 1) m (headerAt disk i) =
      (readseg disk fuel m seg.pPa seg.pMemsz seg.pOffset).bind fun m =>
        readSegments disk fuel (headerAt disk (bootElf disk).ePhnum.toNat) n m
          (headerAt disk (i + 1)) := by
  have hlen : (segments disk).length = (bootElf disk).ePhnum.toNat := by simp [segments]
  have hi : i < (segments disk).length := by
    by_contra hge
    rw [List.drop_eq_nil_of_le (by omega)] at hl
    cases hl
  have hseg : seg = bootSegAt (imageMem disk) (headerAt disk i) := by
    rw [List.drop_eq_getElem_cons hi] at hl
    rw [← (List.cons.inj hl).1]
    simp [segments, headerAt]
  have hfit := h.fit
  have hhere := toNat_headerAt h (i := i) (by omega)
  have hlt : headerAt disk i < headerAt disk (bootElf disk).ePhnum.toNat := by
    rw [BitVec.lt_def, hhere, toNat_headerAt h (le_refl _)]
    omega
  rw [readSegments, if_pos hlt, hm.bootSegAt_eq (by omega) (by omega), ← hseg, headerAt_succ]
  rfl

theorem readSegments_nil (disk : ℕ → BitVec 8) (fuel n : ℕ) (m : ByteMem) (eph : Word) :
    readSegments disk fuel eph (n + 1) m eph = some m := by
  rw [readSegments, if_neg (by rw [BitVec.lt_def]; exact lt_irrefl _)]

theorem mem_segments_of_drop {l : List BootSeg} {i : ℕ} (hl : (segments disk).drop i = seg :: l) :
    seg ∈ segments disk := by
  apply List.mem_of_mem_drop (i := i)
  rw [hl]
  exact List.mem_cons_self

theorem drop_succ_of_drop {l : List BootSeg} {i : ℕ} (hl : (segments disk).drop i = seg :: l) :
    (segments disk).drop (i + 1) = l := by
  rw [← List.tail_drop, hl, List.tail_cons]

theorem readSegments_inv (h : BootImage disk) (fuel n : ℕ) {l : List BootSeg} {i : ℕ}
    (hi : i ≤ (bootElf disk).ePhnum.toNat) (hl : (segments disk).drop i = l)
    (hm : HeaderPage disk m) (hrun : readSegments disk fuel
      (headerAt disk (bootElf disk).ePhnum.toNat) n m (headerAt disk i) =
      some m') :
    (∀ seg ∈ l, seg.endPa ≤ 2 ^ 32 - 512) ∧ m' = l.foldl (place disk) m := by
  have hlen : (segments disk).length = (bootElf disk).ePhnum.toNat := by simp [segments]
  induction l generalizing i n m with
  | nil =>
    obtain rfl : i = (bootElf disk).ePhnum.toNat := by
      have := List.drop_eq_nil_iff.1 hl
      omega
    cases n with
    | zero => cases hrun
    | succ n =>
      rw [readSegments_nil] at hrun
      exact ⟨nofun, (Option.some.inj hrun).symm⟩
  | cons seg l ih =>
    have hwf := h.segs seg (mem_segments_of_drop hl)
    have hi' : i < (segments disk).length := by
      by_contra hge
      rw [List.drop_eq_nil_of_le (by omega)] at hl
      cases hl
    cases n with
    | zero => cases hrun
    | succ n =>
      rw [readSegments_cons h hm hl] at hrun
      obtain ⟨m₁, hread, hrest⟩ := Option.bind_eq_some_iff.1 hrun
      obtain ⟨hend, rfl⟩ := readseg_inv hwf hread
      obtain ⟨hends, hm'⟩ := ih n (by omega) (drop_succ_of_drop hl) (hm.place hwf) hrest
      exact ⟨List.forall_mem_cons.2 ⟨hend, hends⟩, hm'⟩

theorem readSegments_ok (h : BootImage disk) {fuel n : ℕ} (hfuel : sectorBound ≤ fuel)
    {l : List BootSeg} {i : ℕ} (hi : i ≤ (bootElf disk).ePhnum.toNat)
    (hl : (segments disk).drop i = l) (hm : HeaderPage disk m)
    (hends : ∀ seg ∈ l, seg.endPa ≤ 2 ^ 32 - 512) (hn : l.length < n) :
    readSegments disk fuel (headerAt disk (bootElf disk).ePhnum.toNat) n m (headerAt disk i) =
      some (l.foldl (place disk) m) := by
  have hlen : (segments disk).length = (bootElf disk).ePhnum.toNat := by simp [segments]
  obtain ⟨n, rfl⟩ : ∃ k, n = k + 1 := ⟨n - 1, by omega⟩
  induction l generalizing i n m with
  | nil =>
    obtain rfl : i = (bootElf disk).ePhnum.toNat := by
      have := List.drop_eq_nil_iff.1 hl
      omega
    rw [readSegments_nil]
    rfl
  | cons seg l ih =>
    have hwf := h.segs seg (mem_segments_of_drop hl)
    obtain ⟨hend, hends⟩ := List.forall_mem_cons.1 hends
    have hi' : i < (segments disk).length := by
      by_contra hge
      rw [List.drop_eq_nil_of_le (by omega)] at hl
      cases hl
    rw [List.length_cons] at hn
    obtain ⟨n, rfl⟩ : ∃ k, n = k + 1 := ⟨n - 1, by omega⟩
    rw [readSegments_cons h hm hl, readseg_ok hwf.aligned hend hfuel, Option.bind_some]
    exact ih (by omega) (drop_succ_of_drop hl) (hm.place hwf) hends n (by omega)

/-! ## Shared sectors -/

theorem foldl_place_of_none {l : List BootSeg} {x : Word} (h : ∀ seg ∈ l, ¬ seg.Covers x.toNat) :
    l.foldl (place disk) m x = m x := by
  induction l generalizing m with
  | nil => rfl
  | cons seg l ih =>
    obtain ⟨hseg, h⟩ := List.forall_mem_cons.1 h
    rw [List.foldl_cons, ih h]
    exact if_neg hseg

/-- The last segment that covers an address decides what is there. -/
theorem foldl_place_of_last {pre rest : List BootSeg} {x : Word} (hseg : seg.Covers x.toNat)
    (hrest : ∀ l ∈ rest, ¬ l.Covers x.toNat) :
    (pre ++ seg :: rest).foldl (place disk) m x = fileByte disk (seg.position x.toNat) := by
  rw [List.foldl_append, List.foldl_cons, foldl_place_of_none hrest]
  exact if_pos hseg

theorem none_or_last (P : BootSeg → Prop) (l : List BootSeg) :
    (∀ seg ∈ l, ¬ P seg) ∨ ∃ mid seg rest, l = mid ++ seg :: rest ∧ P seg ∧ ∀ x ∈ rest, ¬ P x := by
  induction l with
  | nil => exact .inl nofun
  | cons a l ih =>
    rcases ih with hnone | ⟨mid, seg, rest, rfl, hseg, hrest⟩
    · by_cases ha : P a
      · exact .inr ⟨[], a, l, rfl, ha, hnone⟩
      · exact .inl (List.forall_mem_cons.2 ⟨ha, hnone⟩)
    · exact .inr ⟨a :: mid, seg, rest, rfl, hseg, hrest⟩

theorem BootSeg.WellFormed.toNat_add (h : seg.WellFormed) {i : ℕ} (hi : i < seg.pFilesz.toNat) :
    (seg.pPa + BitVec.ofNat 32 i).toNat = seg.pPa.toNat + i := by
  have hsize := h.size
  have hwrap := h.wrap
  unfold BootSeg.endPa at hwrap
  rw [BitVec.toNat_add, BitVec.toNat_ofNat]
  omega

theorem BootSeg.WellFormed.covers (h : seg.WellFormed) {a : ℕ} (hlo : seg.pPa.toNat ≤ a)
    (hhi : a < seg.pPa.toNat + seg.pFilesz.toNat) : seg.Covers a := by
  have hsize := h.size
  have hfirst := seg.first_le
  have hend := seg.endPa_le
  unfold BootSeg.endPa at hend
  exact ⟨by omega, by omega⟩

/-- A later segment covers a byte of an earlier one if it begins in its sector. -/
theorem covers_iff_first_le {later : BootSeg} (h : seg.WellFormed)
    (hle : seg.endPa ≤ later.pPa.toNat) {a : ℕ} (ha : a < seg.pPa.toNat + seg.pFilesz.toNat) :
    later.Covers a ↔ later.first ≤ a := by
  refine ⟨fun hc => hc.1, fun hc => ⟨hc, ?_⟩⟩
  have hsize := h.size
  have hend := later.endPa_le
  unfold BootSeg.endPa at hend hle
  omega

theorem BootImage.above (h : BootImage disk) {pre post : List BootSeg}
    (hsplit : segments disk = pre ++ seg :: post) :
    ∀ later ∈ post, seg.endPa ≤ later.pPa.toNat := by
  have hinc := h.increasing
  rw [hsplit, List.pairwise_append] at hinc
  exact (List.pairwise_cons.1 hinc.2.1).1

theorem BootImage.seg_mem {pre post : List BootSeg} (hsplit : segments disk = pre ++ seg :: post) :
    seg ∈ segments disk := by
  rw [hsplit]
  exact List.mem_append_right _ List.mem_cons_self

/-- **The segments are loaded** if and only if those that share a sector agree. -/
theorem segsLoaded_iff (h : BootImage disk) (m : ByteMem) :
    SegsLoaded disk ((segments disk).foldl (place disk) m) ↔ SharedAgree disk := by
  constructor
  · intro hloaded pre seg mid seg' rest hsplit a hlo hhi hfirst hrest
    have hmem := BootImage.seg_mem hsplit
    have hwf := h.segs seg hmem
    have habove := h.above hsplit
    obtain ⟨i, rfl⟩ : ∃ i, a = seg.pPa.toNat + i := ⟨a - seg.pPa.toNat, by omega⟩
    have hi : i < seg.pFilesz.toNat := by omega
    have hbyte := hloaded seg hmem i hi
    have haddr := hwf.toNat_add hi
    have hsplit' : segments disk = (pre ++ seg :: mid) ++ seg' :: rest := by
      rw [hsplit]
      simp
    have hcov : seg'.Covers (seg.pPa + BitVec.ofNat 32 i).toNat := by
      rw [haddr, covers_iff_first_le hwf (habove seg' (by simp)) hhi]
      exact hfirst
    rw [hsplit', foldl_place_of_last hcov fun l hl hc => ?_, haddr] at hbyte
    · rw [hbyte]
      unfold BootSeg.position
      congr 1
      omega
    · rw [haddr] at hc
      exact absurd hc.1 (Nat.not_le.2 (hrest l hl))
  · intro hagree seg hmem i hi
    have hwf := h.segs seg hmem
    have haddr := hwf.toNat_add hi
    obtain ⟨pre, post, hsplit⟩ := List.append_of_mem hmem
    have habove := h.above hsplit
    have hpos : seg.position (seg.pPa.toNat + i) = seg.pOffset.toNat + i := by
      unfold BootSeg.position
      omega
    rcases none_or_last (fun l => l.Covers (seg.pPa.toNat + i)) post with
      hnone | ⟨mid, seg', rest, rfl, hcov, hrest⟩
    · rw [hsplit, foldl_place_of_last]
      · rw [haddr, hpos]
      · rw [haddr]
        exact hwf.covers (by omega) (by omega)
      · rw [haddr]
        exact hnone
    · have hsplit' : segments disk = (pre ++ seg :: mid) ++ seg' :: rest := by
        rw [hsplit]
        simp
      rw [hsplit', foldl_place_of_last (by rwa [haddr]) (by rwa [haddr]), haddr, ← hpos]
      refine hagree pre seg mid seg' rest hsplit _ (by omega) (by omega) hcov.1 fun l hl => ?_
      have hlast := hrest l hl
      rw [covers_iff_first_le hwf (habove l (by simp [hl])) (by omega)] at hlast
      omega

/-! ## The result -/

theorem readSegments_start (disk : ℕ → BitVec 8) :
    ELFHDR + (bootElf disk).ePhoff = headerAt disk 0 := by
  unfold headerAt
  simp

theorem readSegments_end (disk : ℕ → BitVec 8) :
    ELFHDR + (bootElf disk).ePhoff + BitVec.ofNat 32 (32 * (bootElf disk).ePhnum.toNat) =
      headerAt disk (bootElf disk).ePhnum.toNat := rfl

/-- If `bootmain` gets to the kernel with every segment loaded, then the loops have ended. -/
theorem BootsRight.inv (h : BootImage disk) (hboots : BootsRight disk m) :
    (∀ seg ∈ segments disk, seg.endPa ≤ 2 ^ 32 - 512) ∧ SharedAgree disk := by
  obtain ⟨fuel, eip, m', hboot, hloaded⟩ := hboots
  unfold bootmain at hboot
  obtain ⟨m₁, hread, hboot⟩ := Option.bind_eq_some_iff.1 hboot
  have hm₁ := readseg_header_inv hread
  simp only [hm₁.elfAt_eq, h.magic, ne_eq, not_true_eq_false, if_false] at hboot
  obtain ⟨m₂, hload, hboot⟩ := Option.bind_eq_some_iff.1 hboot
  obtain ⟨rfl, rfl⟩ := BootResult.entry.inj (Option.some.inj hboot)
  rw [readSegments_end, readSegments_start] at hload
  obtain ⟨hends, rfl⟩ := readSegments_inv h fuel fuel (Nat.zero_le _) rfl hm₁ hload
  exact ⟨hends, (segsLoaded_iff h m₁).1 hloaded⟩

/-- With enough fuel `bootmain` gets to the kernel. -/
theorem bootmain_ok (h : BootImage disk) (m : ByteMem)
    (hends : ∀ seg ∈ segments disk, seg.endPa ≤ 2 ^ 32 - 512) :
    bootmain disk sectorBound m =
      some (.entry
        (elfAt ((segments disk).foldl (place disk) (place disk m headerSeg)) ELFHDR).eEntry
        ((segments disk).foldl (place disk) (place disk m headerSeg))) := by
  have hm₁ : HeaderPage disk (place disk m headerSeg) := headerPage_place m
  have hcount : (segments disk).length < sectorBound := by
    have hlt := (bootElf disk).ePhnum.isLt
    rw [show (segments disk).length = (bootElf disk).ePhnum.toNat by simp [segments]]
    unfold sectorBound
    omega
  have hload := readSegments_ok h (le_refl sectorBound) (Nat.zero_le _) rfl hm₁ hends hcount
  rw [List.drop_zero] at hload
  unfold bootmain
  rw [readseg_header (le_refl _)]
  simp only [Option.bind_eq_bind, Option.bind_some, hm₁.elfAt_eq, h.magic, ne_eq, not_true_eq_false,
    if_false]
  rw [readSegments_end, readSegments_start, hload]
  rfl

/-- **The boot loader places every segment** exactly if no segment ends in the last sector of the
address space and those that share a sector agree. -/
theorem bootmain_loads_iff (disk : ℕ → BitVec 8) (m : ByteMem) (h : BootImage disk) :
    BootsRight disk m ↔
      (∀ seg ∈ segments disk, seg.endPa ≤ 2 ^ 32 - 512) ∧ SharedAgree disk := by
  refine ⟨fun hboots => hboots.inv h, ?_⟩
  rintro ⟨hends, hagree⟩
  exact ⟨sectorBound, _, _, bootmain_ok h m hends, (segsLoaded_iff h _).2 hagree⟩

/-! ## Two images -/

/-- The header of an image with two segments of 16 bytes, from `offset` and `offset'` of the file to
0x100000 and to 0x100010. -/
def twoSegments (offset offset' : Word) : List (BitVec 8) :=
  let word (w : Word) := [byteAt w 0, byteAt w 1, byteAt w 2, byteAt w 3]
  let segment (pa offset : Word) := word 1#32 ++ word offset ++ word pa ++ word pa ++ word 16#32 ++
    word 16#32 ++ word 0#32 ++ word 0#32
  word ELF_MAGIC ++ List.replicate 24 0#8 ++ word 52#32 ++ List.replicate 12 0#8 ++
    [2#8, 0#8] ++ List.replicate 6 0#8 ++ segment 0x100000#32 offset ++ segment 0x100010#32 offset'

/-- The image on the disk, with a one at the start of the first segment. -/
def twoSegmentDisk (offset offset' : Word) : ℕ → BitVec 8 := fun x =>
  if x = 512 + offset.toNat then 1#8 else (twoSegments offset offset').getD (x - 512) 0#8

theorem segments_twoSegmentDisk {offset' : Word} (h : offset' = 0x1010#32 ∨ offset' = 0x3010#32) :
    segments (twoSegmentDisk 0x1000#32 offset') =
      [⟨0x1000#32, 0x100000#32, 16#32, 16#32⟩, ⟨offset', 0x100010#32, 16#32, 16#32⟩] := by
  rcases h with rfl | rfl <;> rfl

theorem bootImage_twoSegmentDisk {offset' : Word} (h : offset' = 0x1010#32 ∨ offset' = 0x3010#32) :
    BootImage (twoSegmentDisk 0x1000#32 offset') := by
  have hsegs := segments_twoSegmentDisk h
  refine ⟨?_, ?_, ?_, ?_⟩
  · rcases h with rfl | rfl <;> rfl
  · rcases h with rfl | rfl <;> decide
  · rw [hsegs]
    refine List.forall_mem_cons.2 ⟨?_, List.forall_mem_singleton.2 ?_⟩
    · exact ⟨by decide, by decide, by decide, by decide⟩
    · rcases h with rfl | rfl <;> exact ⟨by decide, by decide, by decide, by decide⟩
  · rw [hsegs]
    refine List.pairwise_cons.2 ⟨List.forall_mem_singleton.2 ?_, List.pairwise_singleton _ _⟩
    exact Nat.le_refl 0x100010

/-- Two segments that are next to each other in the file as well. -/
theorem bootmain_loads_adjacent : BootImage (twoSegmentDisk 0x1000#32 0x1010#32) ∧
    BootsRight (twoSegmentDisk 0x1000#32 0x1010#32) fun _ => 0#8 := by
  have himage := bootImage_twoSegmentDisk (.inl rfl)
  have hsegs := segments_twoSegmentDisk (.inl rfl)
  refine ⟨himage, (bootmain_loads_iff _ _ himage).2 ⟨?_, ?_⟩⟩
  · rw [hsegs]
    exact List.forall_mem_cons.2 ⟨by decide, List.forall_mem_singleton.2 (by decide)⟩
  · intro pre seg mid seg' rest hsplit a hlo hhi _ _
    rw [hsegs] at hsplit
    have hlen := congrArg List.length hsplit
    simp only [List.length_cons, List.length_nil, List.length_append] at hlen
    obtain rfl : pre = [] := List.length_eq_zero_iff.1 (by omega)
    obtain rfl : mid = [] := List.length_eq_zero_iff.1 (by omega)
    simp only [List.nil_append, List.cons.injEq] at hsplit
    obtain ⟨rfl, rfl, -⟩ := hsplit
    have hpa : 0x100000 ≤ a := hlo
    have hpos : BootSeg.position ⟨0x1010#32, 0x100010#32, 16#32, 16#32⟩ a =
        BootSeg.position ⟨0x1000#32, 0x100000#32, 16#32, 16#32⟩ a := by
      simp only [BootSeg.position, BitVec.toNat_ofNat]
      omega
    rw [hpos]

/-- Two segments that share a sector in memory, but not in the file: the first byte is lost. -/
theorem bootmain_overwrites : BootImage (twoSegmentDisk 0x1000#32 0x3010#32) ∧
    ¬ BootsRight (twoSegmentDisk 0x1000#32 0x3010#32) fun _ => 0#8 := by
  have himage := bootImage_twoSegmentDisk (.inr rfl)
  have hsegs := segments_twoSegmentDisk (.inr rfl)
  refine ⟨himage, fun hboots => ?_⟩
  have hbyte := (hboots.inv himage).2 [] _ [] _ [] hsegs 0x100000 (by decide) (by decide)
    (by decide) nofun
  exact absurd hbyte (by decide)

end Jos
