import Jos.Stabs

/-!
# `debuginfo_eip`

`debuginfo_eip` (`kern/kdebug.c`) looks up an address in the stab table of the kernel or of a user
program: first the source file, then the function in it, then the line. The three searches are
`stab_binsearch`, and the result of one is the range of the next. The table of a user program may
hold anything.

**The model** starts behind the checks that the tables are readable. `stabs` is what memory holds at
an index, in the table or not; `n` is the number of its entries. The string table is a list of
bytes, and a name is an offset in it.

**Inside the table.** A search of `[left, right]` reads only there, and ends with a region that may
start one before `left` (`search_bounds`): that is how it says that the stab at `left` is above the
address. `debuginfo_eip` takes `lfile == 0` for "not found", so a first source file above the
address is missed and the next search starts at `-1`. The same happens, for the last address of all,
by the wrap of `addr++` (`SearchesBefore`).
-/

namespace Jos

/-! ## Definitions -/

def N_FUN : Int := 0x24
def N_SLINE : Int := 0x44
def N_SO : Int := 0x64
def N_SOL : Int := 0x84
def N_PSYM : Int := 0xa0

/-- A name: the default string, or an offset in the string table. -/
inductive StabName
  | unknown
  | at (strx : Nat)
  deriving DecidableEq

structure Eipdebuginfo where
  eipFile : StabName
  eipLine : Nat
  eipFnName : StabName
  eipFnNamelen : Nat
  eipFnAddr : Word
  eipFnNarg : Nat

/-- The name at `strx`, if that is in the string table. -/
def nameAt (stabstr : List (BitVec 8)) (strx : Word) (default : StabName) : StabName :=
  if strx.toNat < stabstr.length then .at strx.toNat else default

/-- `strfind (name, ':') - name`. -/
def namelen (stabstr : List (BitVec 8)) : StabName → Nat
  | .unknown => 9
  | .at strx => ((stabstr.drop strx).takeWhile fun c => c ≠ 58#8 ∧ c ≠ 0#8).length

/-- The stab names a source file. -/
def NamesFile (stabs : Int → Stab) (i : Int) : Prop :=
  HasType stabs N_SOL i ∨ HasType stabs N_SO i ∧ (stabs i).nValue ≠ 0

instance (stabs : Int → Stab) : DecidablePred (NamesFile stabs) := fun i => by
  unfold NamesFile; infer_instance

/-- The arguments that follow a function, for at most `n` stabs; with the indices read. -/
def countArgs (stabs : Int → Stab) : Nat → Int → Nat × List Int
  | 0, _ => (0, [])
  | n + 1, i =>
    if HasType stabs N_PSYM i then
      let (narg, reads) := countArgs stabs n (i + 1)
      (narg + 1, i :: reads)
    else (0, [i])

/-- What the function search tells: the information, the address and the range for the line
search, and the indices read. -/
def functionInfo (stabs : Int → Stab) (stabstr : List (BitVec 8)) (info : Eipdebuginfo)
    (addr : Word) (lfile rfile lfun rfun : Int) : Eipdebuginfo × Word × Int × Int × List Int :=
  let (info, addr, lline, rline, reads) :=
    if lfun ≤ rfun then
      ({ info with
          eipFnName := nameAt stabstr (stabs lfun).nStrx info.eipFnName
          eipFnAddr := (stabs lfun).nValue },
        addr - (stabs lfun).nValue, lfun, rfun, [lfun])
    else ({ info with eipFnAddr := addr }, addr, lfile, rfile, [])
  ({ info with eipFnNamelen := namelen stabstr info.eipFnName }, addr, lline, rline, reads)

/-- What the line search tells, and the end of the function. -/
def lineInfo (stabs : Int → Stab) (stabstr : List (BitVec 8)) (info : Eipdebuginfo)
    (lfile lfun rfun lline : Int) : Eipdebuginfo × List Int :=
  let info := { info with eipLine := (stabs lline).nDesc.toNat }
  let (i, reads) := scanDown (NamesFile stabs) (lline - lfile + 1).toNat lline
  let info :=
    if lfile ≤ i then { info with eipFile := nameAt stabstr (stabs i).nStrx info.eipFile } else info
  let (narg, reads') :=
    if lfun < rfun then countArgs stabs (rfun - (lfun + 1)).toNat (lfun + 1) else (0, [])
  ({ info with eipFnNarg := narg }, lline :: reads ++ reads')

/-- `debuginfo_eip`: the return value, the information, and the indices at which `stabs` is read. -/
def debuginfoEip (stabs : Int → Stab) (n : Nat) (stabstr : List (BitVec 8)) (addr : Word) :
    Option (Int × Eipdebuginfo × List Int) :=
  let info : Eipdebuginfo := ⟨.unknown, 0, .unknown, 9, addr, 0⟩
  if stabstr.getLast? ≠ some 0#8 then some (-1, info, [])
  else do
    let (lfile, rfile, reads₁) ← stabBinsearch stabs 0 (n - 1) N_SO addr
    if lfile = 0 then return (-1, info, reads₁)
    let (lfun, rfun, reads₂) ← stabBinsearch stabs lfile rfile N_FUN addr
    let (info, addr, lline, rline, reads₃) :=
      functionInfo stabs stabstr info addr lfile rfile lfun rfun
    let (lline, _, reads₄) ← stabBinsearch stabs lline rline N_SLINE addr
    let (info, reads₅) := lineInfo stabs stabstr info lfile lfun rfun lline
    return (0, info, reads₁ ++ reads₂ ++ reads₃ ++ reads₄ ++ reads₅)

variable {stabs : Int → Stab} {type left right : Int} {addr : Word} {s : Search}

/-! ## The bounds of a search -/

/-- The loop stays in the range, and `right` is the end of the interval. -/
structure InBounds (stabs : Int → Stab) (type left right : Int) (s : Search) : Prop where
  right_eq : s.right = s.r
  lo : left ≤ s.l
  lo' : left - 1 ≤ s.r
  hi : s.r ≤ right
  left_ge : left ≤ s.left
  left_le : s.left ≤ s.l
  left_type : s.left = left ∨ HasType stabs type s.left
  below : s.anyMatches = true → s.r = left - 1 → HasType stabs type left
  near : s.left ≤ s.r + 1
  none : s.anyMatches = false → s.left = left ∧ s.r = right
  reads : ∀ i ∈ s.reads, left ≤ i ∧ i ≤ right

theorem InBounds.init (hle : left ≤ right + 1) :
    InBounds stabs type left right ⟨left, right, addr, left, right, false, []⟩ :=
  ⟨rfl, le_rfl, by dsimp only; omega, le_rfl, le_rfl, le_rfl, .inl rfl, nofun,
    by dsimp only; omega, fun _ => ⟨rfl, rfl⟩, fun i hi => absurd hi List.not_mem_nil⟩

theorem InBounds.probe (h : InBounds stabs type left right s) (hle : s.l ≤ s.r) :
    InBounds stabs type left right (probe stabs type s) := by
  have hlo := h.lo
  have hhi := h.hi
  have hleft := h.left_le
  have hge := h.left_ge
  obtain ⟨mid, reads, hlm, hmr, -, hreads, hcases⟩ := probe_cases stabs type hle
  have hread : ∀ i ∈ s.reads ++ reads, left ≤ i ∧ i ≤ right := by
    intro i hi
    rcases List.mem_append.1 hi with hi | hi
    · exact h.reads i hi
    · have := hreads i hi
      omega
  obtain ⟨-, heq⟩ | ⟨m, hml, hmm, htype, -, ⟨-, heq⟩ | ⟨-, heq⟩ | ⟨-, heq⟩⟩ := hcases
  · rw [heq]
    exact ⟨h.right_eq, by dsimp only; omega, h.lo', hhi,
      hge, by dsimp only; omega, h.left_type, h.below, h.near, h.none, hread⟩
  · rw [heq]
    exact ⟨h.right_eq, by dsimp only; omega, h.lo', hhi, by dsimp only; omega, by dsimp only; omega,
      .inr htype, fun _ hr => by dsimp only at hr; omega, by dsimp only; omega, nofun, hread⟩
  · rw [heq]
    refine ⟨rfl, hlo, by
      dsimp only; omega, by dsimp only; omega, hge, hleft, h.left_type, fun _ hr =>
      ?_, by dsimp only; omega, nofun, hread⟩
    obtain rfl : m = left := by
      dsimp only at hr
      omega
    exact htype
  · rw [heq]
    exact ⟨h.right_eq, by dsimp only; omega, h.lo', hhi, by dsimp only; omega, le_rfl, .inr htype,
      fun _ hr => by dsimp only at hr; omega, by dsimp only; omega, nofun, hread⟩

theorem InBounds.finish (h : InBounds stabs type left right s) :
    ∃ left' right' reads, s.finish stabs type = (left', right', reads) ∧
      (∀ i ∈ reads, left ≤ i ∧ i ≤ right) ∧
      (s.anyMatches = false ∧ left' = left ∧ right' = left - 1 ∨
        s.anyMatches = true ∧ right' = s.r ∧ left - 1 ≤ left' ∧ left' ≤ right' ∧ right' ≤ right ∧
          (left' = left - 1 → HasType stabs type left) ∧
          (left' = left ∨ HasType stabs type left' ∨ left' = right') ∧
          (s.left ≤ left' ∨ left' = right')) := by
  have hright := h.right_eq
  have hlo := h.lo'
  have hhi := h.hi
  have hge := h.left_ge
  cases hany : s.anyMatches with
  | false =>
    refine ⟨s.left, s.left - 1, s.reads, by simp [Search.finish, hany], h.reads, .inl ⟨rfl, ?_⟩⟩
    rw [(h.none hany).1]
    exact ⟨rfl, rfl⟩
  | true =>
    obtain ⟨k, reads, hscan, hk, hk', htype, -, hreads⟩ :=
      scanDown_spec (HasType stabs type) (s.right - s.left).toNat s.right
    refine ⟨k, s.right, s.reads ++ reads, by simp [Search.finish, hany, hscan], fun i hi => ?_,
      .inr ⟨rfl, hright, by omega, hk', by omega, fun hkl => ?_, ?_, by omega⟩⟩
    · rcases List.mem_append.1 hi with hi | hi
      · exact h.reads i hi
      · have := hreads i hi
        omega
    · exact h.below hany (by omega)
    · by_cases htop : s.right - (s.right - s.left).toNat < k
      · exact .inr (.inl (htype htop))
      · by_cases hle : s.left ≤ s.right
        · obtain rfl : k = s.left := by omega
          exact h.left_type.imp id .inl
        · exact .inr (.inr (by omega))

/-- **A search reads only its range**, and its result starts there or one before it. -/
theorem search_bounds (stabs : Int → Stab) (type : Int) (addr : Word) (hle : left ≤ right + 1) :
    ∃ left' right' reads, stabBinsearch stabs left right type addr = some (left', right', reads) ∧
      (∀ i ∈ reads, left ≤ i ∧ i ≤ right) ∧
      (left' = left ∧ right' = left - 1 ∨
        left - 1 ≤ left' ∧ left' ≤ right' ∧ right' ≤ right ∧
          (left' = left - 1 → HasType stabs type left) ∧
          (left' = left ∨ HasType stabs type left' ∨ left' = right')) := by
  obtain ⟨s, hrun, h, -⟩ := searchLoop_ok (P := InBounds stabs type left right)
    (fun s hs hsr => hs.probe hsr) _ _ (InBounds.init hle) (size_init stabs type left right addr)
  obtain ⟨left', right', reads, hfin, hreads, hres⟩ := h.finish
  refine ⟨left', right', reads, by rw [stabBinsearch, hrun, Option.map_some, hfin], hreads, ?_⟩
  rcases hres with ⟨-, hres⟩ | ⟨-, -, h₁, h₂, h₃, h₄, h₅, -⟩
  · exact .inl hres
  · exact .inr ⟨h₁, h₂, h₃, h₄, h₅⟩

/-- **`stab_binsearch` ends for every table**, sorted or not, and every address: it reads only the
range it is given, and its results are at most one below the start and not above the end. The middle
is computed without overflow if `right` is below `2 ^ 30`. -/
theorem stab_binsearch_total (stabs : Int → Stab) (type : Int) (addr : Word)
    (hle : left ≤ right + 1) :
    ∃ left' right' reads, stabBinsearch stabs left right type addr = some (left', right', reads) ∧
      (∀ i ∈ reads, left ≤ i ∧ i ≤ right) ∧ left - 1 ≤ left' ∧ right' ≤ right := by
  obtain ⟨left', right', reads, hrun, hreads, hres⟩ := search_bounds stabs type addr hle
  refine ⟨left', right', reads, hrun, hreads, ?_⟩
  rcases hres with ⟨rfl, rfl⟩ | ⟨hlo, -, hhi, -⟩
  · omega
  · exact ⟨hlo, hhi⟩

/-- Stabs in decreasing order, and an address whose successor is zero. -/
theorem stab_binsearch_total_last : ∃ left' right' reads,
    stabBinsearch (fiveStabs 0xFFFFFFFF#32 20#32 10#32) 0 4 36 0xFFFFFFFF#32 =
    some (left', right', reads) ∧
      (∀ i ∈ reads, 0 ≤ i ∧ i ≤ 4) ∧ 0 - 1 ≤ left' ∧ right' ≤ 4 :=
  stab_binsearch_total _ _ _ (by decide)

/-- The stab is above the address, or both are the last address of all and `addr++` wraps around. -/
def AboveAddr (v addr : Word) : Prop := addr < v ∨ v = addr ∧ addr = 0xFFFFFFFF#32

theorem probe_one (stabs : Int → Stab) (type : Int) (h : s.r = s.l) :
    probe stabs type s =
      if ¬ HasType stabs type s.l then { s with l := s.l + 1, reads := s.reads ++ [s.l] }
      else if (stabs s.l).nValue < s.addr then
        { s with left := s.l, l := s.l + 1, anyMatches := true, reads := s.reads ++ [s.l] }
      else if s.addr < (stabs s.l).nValue then
        { s with right := s.l - 1, r := s.l - 1, anyMatches := true, reads := s.reads ++ [s.l] }
      else
        { s with
          left := s.l, addr := s.addr + 1, anyMatches := true, reads := s.reads ++ [s.l] } := by
  have hmid : (s.l + s.r).tdiv 2 = s.l := by
    have := le_tdiv_le (l := s.l) (r := s.r) h.ge
    omega
  have hone : (s.l - s.l + 1).toNat = 1 := by omega
  rw [probe, hmid, hone]
  by_cases htype : HasType stabs type s.l
  · simp [scanDown, htype]
  · simp [scanDown, htype]

theorem searchLoop_end (stabs : Int → Stab) (type : Int) (n : Nat) (h : s.r < s.l) :
    searchLoop stabs type n s = some s := by
  cases n with
  | zero => exact if_neg (not_le.2 h)
  | succ n => exact if_neg (not_le.2 h)

theorem search_one_once {s' : Search} (x : Int)
    (hprobe : probe stabs type ⟨x, x, addr, x, x, false, []⟩ = s') (hend : s'.r < s'.l) :
    stabBinsearch stabs x x type addr = some (s'.finish stabs type) := by
  have hfuel : 2 * (x - x + 1).toNat + 1 = 3 := by omega
  rw [stabBinsearch, hfuel, searchLoop, if_pos le_rfl, hprobe, searchLoop_end stabs type _ hend,
    Option.map_some]

theorem search_one_twice {s' : Search} (x : Int)
    (hprobe : probe stabs type ⟨x, x, addr, x, x, false, []⟩ = ⟨x, x, addr + 1, x, x, true, [x]⟩)
    (hprobe' : probe stabs type ⟨x, x, addr + 1, x, x, true, [x]⟩ = s') (hend : s'.r < s'.l) :
    stabBinsearch stabs x x type addr = some (s'.finish stabs type) := by
  have hfuel : 2 * (x - x + 1).toNat + 1 = 3 := by omega
  rw [stabBinsearch, hfuel, searchLoop, if_pos le_rfl, hprobe, searchLoop, if_pos le_rfl, hprobe',
    searchLoop_end stabs type _ hend, Option.map_some]

/-- A search of one stab reads it, and ends before it exactly if it is above the address. -/
theorem search_one (stabs : Int → Stab) (type x : Int) (addr : Word) :
    ∃ left' right' reads, stabBinsearch stabs x x type addr = some (left', right', reads) ∧
      x ∈ reads ∧ (left' = x - 1 → right' = x - 1) ∧
      (left' = x - 1 ↔ HasType stabs type x ∧ AboveAddr (stabs x).nValue addr) := by
  by_cases htype : HasType stabs type x
  · by_cases hlt : (stabs x).nValue < addr
    · have hprobe : probe stabs type ⟨x, x, addr, x, x, false, []⟩ =
          ⟨x + 1, x, addr, x, x, true, [x]⟩ := by
        rw [probe_one stabs type rfl, if_neg (not_not.2 htype), if_pos hlt]
        rfl
      refine ⟨x, x, [x], ?_, List.mem_singleton.2 rfl, id, iff_of_false (by omega) ?_⟩
      · rw [search_one_once x hprobe (Int.lt_succ x)]
        simp [Search.finish, scanDown]
      · rintro ⟨-, hgt | ⟨heq, -⟩⟩ <;> bv_omega
    by_cases hgt : addr < (stabs x).nValue
    · have hprobe : probe stabs type ⟨x, x, addr, x, x, false, []⟩ =
          ⟨x, x - 1, addr, x, x - 1, true, [x]⟩ := by
        rw [probe_one stabs type rfl, if_neg (not_not.2 htype), if_neg hlt, if_pos hgt]
        rfl
      refine ⟨x - 1, x - 1, [x], ?_, List.mem_singleton.2 rfl, id,
        iff_of_true rfl ⟨htype, .inl hgt⟩⟩
      rw [search_one_once x hprobe (by dsimp only; omega)]
      simp [Search.finish, scanDown]
    -- An exact match is looked at again.
    have heq : (stabs x).nValue = addr := by bv_omega
    have hprobe : probe stabs type ⟨x, x, addr, x, x, false, []⟩ =
        ⟨x, x, addr + 1, x, x, true, [x]⟩ := by
      rw [probe_one stabs type rfl, if_neg (not_not.2 htype), if_neg hlt, if_neg hgt]
      rfl
    by_cases hlast : addr = 0xFFFFFFFF#32
    · have hprobe' : probe stabs type ⟨x, x, addr + 1, x, x, true, [x]⟩ =
          ⟨x, x - 1, addr + 1, x, x - 1, true, [x, x]⟩ := by
        have hlt' : ¬ (stabs x).nValue < addr + 1 := by bv_omega
        have hgt' : addr + 1 < (stabs x).nValue := by bv_omega
        rw [probe_one stabs type rfl, if_neg (not_not.2 htype), if_neg hlt', if_pos hgt']
        rfl
      refine ⟨x - 1, x - 1, [x, x], ?_, by simp, id, iff_of_true rfl ⟨htype, .inr ⟨heq, hlast⟩⟩⟩
      rw [search_one_twice x hprobe hprobe' (by dsimp only; omega)]
      simp [Search.finish, scanDown]
    · have hprobe' : probe stabs type ⟨x, x, addr + 1, x, x, true, [x]⟩ =
          ⟨x + 1, x, addr + 1, x, x, true, [x, x]⟩ := by
        have hlt' : (stabs x).nValue < addr + 1 := by bv_omega
        rw [probe_one stabs type rfl, if_neg (not_not.2 htype), if_pos hlt']
        rfl
      refine ⟨x, x, [x, x], ?_, by simp, id, iff_of_false (by omega) ?_⟩
      · rw [search_one_twice x hprobe hprobe' (Int.lt_succ x)]
        simp [Search.finish, scanDown]
      · rintro ⟨-, hgt' | ⟨-, hc⟩⟩
        · exact hgt hgt'
        · exact hlast hc
  · have hprobe : probe stabs type ⟨x, x, addr, x, x, false, []⟩ =
        ⟨x + 1, x, addr, x, x, false, [x]⟩ := by
      rw [probe_one stabs type rfl, if_pos htype]
      rfl
    refine ⟨x, x - 1, [x], ?_, List.mem_singleton.2 rfl, fun _ => rfl,
      iff_of_false (by omega) fun h => htype h.1⟩
    rw [search_one_once x hprobe (Int.lt_succ x)]
    simp [Search.finish]

/-! ## The first stab of a type -/

/-- The stab at `x` is the first of the type. -/
structure FirstOf (stabs : Int → Stab) (type left right x : Int) : Prop where
  mem : InTable stabs type left right x
  le : ∀ i, InTable stabs type left right i → x ≤ i

/-- The bisection of `[l, r]` for `addr` gets to the first stab `x` of the type and takes it for
one above `addr`. Stabs of the type that it comes to before are above `addr` too. -/
inductive Undercuts (stabs : Int → Stab) (type x : Int) : Int → Int → Word → Prop
  | here {l r : Int} {addr : Word} (h : x ≤ (l + r) / 2)
      (hno : ∀ i, x < i → i ≤ (l + r) / 2 → ¬ HasType stabs type i)
      (hlt : addr < (stabs x).nValue) :
      Undercuts stabs type x l r addr
  | again {l r : Int} {addr : Word} (h : x ≤ (l + r) / 2)
      (hno : ∀ i, x < i → i ≤ (l + r) / 2 → ¬ HasType stabs type i) (heq : (stabs x).nValue = addr)
      (hrest : Undercuts stabs type x x r (addr + 1)) : Undercuts stabs type x l r addr
  | up {l r : Int} {addr : Word} (h : (l + r) / 2 < x)
      (hrest : Undercuts stabs type x ((l + r) / 2 + 1) r addr) : Undercuts stabs type x l r addr
  | down {l r m : Int} {addr : Word} (h : x < m) (hm : m ≤ (l + r) / 2)
      (htype : HasType stabs type m) (hno : ∀ i, m < i → i ≤ (l + r) / 2 → ¬ HasType stabs type i)
      (hlt : addr < (stabs m).nValue) (hrest : Undercuts stabs type x l (m - 1) addr) :
      Undercuts stabs type x l r addr

section first

variable {x l r m : Int} {a : Word}

theorem undercuts_up (h : (l + r) / 2 < x) :
    Undercuts stabs type x l r a ↔ Undercuts stabs type x ((l + r) / 2 + 1) r a := by
  refine ⟨fun hu => ?_, fun hu => .up h hu⟩
  cases hu with
  | here h' => omega
  | again h' => omega
  | up _ hrest => exact hrest
  | down h' hm => omega

theorem lastOf_unique {m' mid : Int} (hm : m ≤ mid) (hm' : m' ≤ mid) (htype : HasType stabs type m)
    (htype' : HasType stabs type m') (hno : ∀ i, m < i → i ≤ mid → ¬ HasType stabs type i)
    (hno' : ∀ i, m' < i → i ≤ mid → ¬ HasType stabs type i) : m = m' := by
  by_contra hne
  rcases lt_or_gt_of_ne hne with hlt | hgt
  · exact hno m' hlt hm' htype'
  · exact hno' m hgt hm htype

theorem undercuts_first (h : x ≤ (l + r) / 2)
    (hno : ∀ i, x < i → i ≤ (l + r) / 2 → ¬ HasType stabs type i) :
    Undercuts stabs type x l r a ↔ a < (stabs x).nValue ∨
      (stabs x).nValue = a ∧ Undercuts stabs type x x r (a + 1) := by
  constructor
  · intro hu
    cases hu with
    | here _ _ hlt => exact .inl hlt
    | again _ _ heq hrest => exact .inr ⟨heq, hrest⟩
    | up h' => omega
    | down h' hm htype' => exact absurd htype' (hno _ h' hm)
  · rintro (hlt | ⟨heq, hrest⟩)
    · exact .here h hno hlt
    · exact .again h hno heq hrest

theorem undercuts_later (h : x < m) (hm : m ≤ (l + r) / 2) (htype : HasType stabs type m)
    (hno : ∀ i, m < i → i ≤ (l + r) / 2 → ¬ HasType stabs type i) :
    Undercuts stabs type x l r a ↔
      a < (stabs m).nValue ∧ Undercuts stabs type x l (m - 1) a := by
  refine ⟨fun hu => ?_, fun hu => .down h hm htype hno hu.1 hu.2⟩
  cases hu with
  | here _ hno' => exact absurd htype (hno' m h hm)
  | again _ hno' => exact absurd htype (hno' m h hm)
  | up h' => omega
  | down h' hm' htype' hno' hlt hrest =>
    obtain rfl := lastOf_unique hm hm' htype htype' hno hno'
    exact ⟨hlt, hrest⟩

/-- The first stab of the type is still in the interval. At most it was an exact match. -/
structure Open (stabs : Int → Stab) (type left right x : Int) (addr : Word)
    (s : Search) : Prop where
  l_le : s.l ≤ x
  le_r : x ≤ s.r
  before : s.left = left ∧ s.addr = addr ∨
    s.left = x ∧ s.l = x ∧ s.addr = addr + 1 ∧ (stabs x).nValue = addr
  iff : Undercuts stabs type x s.l s.r s.addr ↔ Undercuts stabs type x left right addr

/-- The first stab of the type was taken for one above the address. -/
structure Cut (stabs : Int → Stab) (type left right x : Int) (addr : Word) (s : Search) : Prop where
  undercuts : Undercuts stabs type x left right addr
  r_eq : s.r = x - 1
  any : s.anyMatches = true
  before : s.left = left ∧ addr < (stabs x).nValue ∨
    s.left = x ∧ addr = 0xFFFFFFFF#32 ∧ (stabs x).nValue = addr

/-- The search went on above the first stab of the type. -/
structure Passed (stabs : Int → Stab) (type left right x : Int) (addr : Word)
    (s : Search) : Prop where
  not_undercuts : ¬ Undercuts stabs type x left right addr
  lt_l : x < s.l
  le_left : x ≤ s.left
  le_r : x ≤ s.r
  any : s.anyMatches = true

/-- Where the first stab of the type is, at any time of the search. -/
def FirstPhase (stabs : Int → Stab) (type left right x : Int) (addr : Word) (s : Search) : Prop :=
  Open stabs type left right x addr s ∨ Cut stabs type left right x addr s ∨
    Passed stabs type left right x addr s

theorem Open.probe (hx : FirstOf stabs type left right x) (hpos : 0 ≤ left)
    (hb : InBounds stabs type left right s) (h : Open stabs type left right x addr s)
    (hle : s.l ≤ s.r) : FirstPhase stabs type left right x addr (probe stabs type s) := by
  have hlo := hb.lo
  have hhi := hb.hi
  have hlx := h.l_le
  have hxr := h.le_r
  obtain ⟨mid, reads, hlm, hmr, hmid, -, hcases⟩ := probe_cases stabs type hle
  obtain rfl := hmid (by omega)
  obtain ⟨hno, heq⟩ | ⟨m, hml, hmm, htype, hno, hcmp⟩ := hcases
  · -- No stab of the type up to the middle.
    have hlt : (s.l + s.r) / 2 < x := by
      by_contra hge
      exact hno x hlx (not_lt.1 hge) hx.mem.2.2
    rw [heq]
    refine .inl ⟨by dsimp only; omega, hxr, ?_, (undercuts_up hlt).symm.trans h.iff⟩
    exact .inl (h.before.resolve_right fun hc => by omega)
  have hxm : x ≤ m := hx.le m ⟨by omega, by omega, htype⟩
  rcases hxm.eq_or_lt with rfl | hxm
  · have hiff := undercuts_first (a := s.addr) hmm hno
    obtain ⟨hlt, heq⟩ | ⟨hgt, heq⟩ | ⟨hval, heq⟩ := hcmp
    · rw [heq]
      refine .inr (.inr ⟨fun hu => ?_, by dsimp only; omega, le_rfl, hxr, rfl⟩)
      rcases hiff.1 (h.iff.2 hu) with hlt' | ⟨hval, -⟩ <;> bv_omega
    · rw [heq]
      refine .inr (.inl ⟨h.iff.1 (hiff.2 (.inl hgt)), rfl, rfl, ?_⟩)
      rcases h.before with ⟨hleft, haddr⟩ | ⟨hleft, -, haddr, hval⟩
      · exact .inl ⟨hleft, haddr ▸ hgt⟩
      · exact .inr ⟨hleft, by bv_omega, hval⟩
    · rw [heq]
      obtain ⟨-, haddr⟩ := h.before.resolve_right fun ⟨_, _, haddr, hval'⟩ => by bv_omega
      refine .inl ⟨le_rfl, hxr, .inr ⟨rfl, rfl, congrArg (· + 1) haddr, hval.trans haddr⟩, ?_⟩
      refine Iff.trans ⟨fun hu => hiff.2 (.inr ⟨hval, hu⟩), fun hu => ?_⟩ h.iff
      exact ((hiff.1 hu).resolve_left fun hlt => by bv_omega).2
  · have hiff := undercuts_later (a := s.addr) hxm hmm htype hno
    obtain ⟨hlt, heq⟩ | ⟨hgt, heq⟩ | ⟨hval, heq⟩ := hcmp
    · rw [heq]
      refine .inr (.inr ⟨fun hu => ?_, by dsimp only; omega, hxm.le, hxr, rfl⟩)
      have := (hiff.1 (h.iff.2 hu)).1
      bv_omega
    · rw [heq]
      refine .inl ⟨hlx, by dsimp only; omega, h.before, ?_⟩
      exact Iff.trans ⟨fun hu => hiff.2 ⟨hgt, hu⟩, fun hu => (hiff.1 hu).2⟩ h.iff
    · rw [heq]
      refine .inr (.inr ⟨fun hu => ?_, hxm, hxm.le, hxr, rfl⟩)
      have := (hiff.1 (h.iff.2 hu)).1
      bv_omega

theorem Cut.probe (hx : FirstOf stabs type left right x) (hb : InBounds stabs type left right s)
    (h : Cut stabs type left right x addr s) (hle : s.l ≤ s.r) :
    Cut stabs type left right x addr (probe stabs type s) := by
  have hlo := hb.lo
  have hhi := hb.hi
  have hr := h.r_eq
  obtain ⟨mid, reads, hlm, hmr, -, -, ⟨-, heq⟩ | ⟨m, hml, hmm, htype, -⟩⟩ :=
    probe_cases stabs type hle
  · rw [heq]
    exact ⟨h.undercuts, hr, h.any, h.before⟩
  · have := hx.le m ⟨by omega, by omega, htype⟩
    omega

theorem Passed.probe (h : Passed stabs type left right x addr s) (hle : s.l ≤ s.r) :
    Passed stabs type left right x addr (probe stabs type s) := by
  have hl := h.lt_l
  have hr := h.le_r
  obtain ⟨mid, reads, hlm, hmr, -, -,
    ⟨-, heq⟩ | ⟨m, hml, hmm, -, -, ⟨-, heq⟩ | ⟨-, heq⟩ | ⟨-, heq⟩⟩⟩ :=
    probe_cases stabs type hle
  · rw [heq]
    exact ⟨h.not_undercuts, by dsimp only; omega, h.le_left, hr, h.any⟩
  · rw [heq]
    exact ⟨h.not_undercuts, by dsimp only; omega, by dsimp only; omega, hr, rfl⟩
  · rw [heq]
    exact ⟨h.not_undercuts, hl, h.le_left, by dsimp only; omega, rfl⟩
  · rw [heq]
    exact ⟨h.not_undercuts, by dsimp only; omega, by dsimp only; omega, hr, rfl⟩

theorem FirstPhase.probe (hx : FirstOf stabs type left right x) (hpos : 0 ≤ left)
    (hb : InBounds stabs type left right s) (h : FirstPhase stabs type left right x addr s)
    (hle : s.l ≤ s.r) : FirstPhase stabs type left right x addr (probe stabs type s) := by
  rcases h with h | h | h
  · exact h.probe hx hpos hb hle
  · exact .inr (.inl (h.probe hx hb hle))
  · exact .inr (.inr (h.probe hle))

/-- **Whether a search gets below the first stab of the type.** If it does, the region ends there.
-/
theorem search_first (hx : FirstOf stabs type left right x) (hpos : 0 ≤ left) (addr : Word) :
    ∃ left' right' reads, stabBinsearch stabs left right type addr = some (left', right', reads) ∧
      (¬ Undercuts stabs type x left right addr → x ≤ left') ∧
      (Undercuts stabs type x left right addr → right' = x - 1 ∧
        (addr < (stabs x).nValue ∧ (left < x → left' = left) ∧ (left = x → left' = x - 1) ∨
          addr = 0xFFFFFFFF#32 ∧ (stabs x).nValue = addr ∧ left' = x - 1)) := by
  obtain ⟨hlx, hxr, -⟩ := hx.mem
  obtain ⟨s, hrun, ⟨hb, hphase⟩, hend⟩ := searchLoop_ok
    (P := fun s => InBounds stabs type left right s ∧ FirstPhase stabs type left right x addr s)
    (fun s hs hsr => ⟨hs.1.probe hsr, hs.2.probe hx hpos hs.1 hsr⟩) _ _
    ⟨InBounds.init (by omega), .inl ⟨hlx, hxr, .inl ⟨rfl, rfl⟩, Iff.rfl⟩⟩
    (size_init stabs type left right addr)
  have hright := hb.right_eq
  rcases hphase with h | h | h
  · exact absurd (h.l_le.trans h.le_r) (not_le.2 hend)
  · have hr := h.r_eq
    by_cases hleft : s.left = left ∧ left < x
    · -- The last loop goes down to the start of the range.
      have hno : ∀ i, s.left < i → i ≤ s.right → ¬ HasType stabs type i := fun i hi hi' htype => by
        have := hx.le i ⟨by omega, by omega, htype⟩
        omega
      obtain ⟨reads, hfin⟩ := finish_eq stabs type h.any (by omega) hno
      refine ⟨s.left, s.right, reads, by rw [stabBinsearch, hrun, Option.map_some, hfin],
        fun hu => absurd h.undercuts hu, fun _ => ⟨by omega, ?_⟩⟩
      rcases h.before with ⟨-, hlt⟩ | ⟨hleft', -⟩
      · exact .inl ⟨hlt, fun _ => hleft.1, fun hc => by omega⟩
      · omega
    · obtain ⟨k, reads, hfin, hk, hk'⟩ := finish_bounds stabs type h.any
      refine ⟨k, s.right, reads, by rw [stabBinsearch, hrun, Option.map_some, hfin],
        fun hu => absurd h.undercuts hu, fun _ => ⟨by omega, ?_⟩⟩
      rcases h.before with ⟨hleft', hlt⟩ | ⟨hleft', hlast, hval⟩
      · exact .inl ⟨hlt, fun hc => absurd ⟨hleft', hc⟩ hleft, fun _ => by omega⟩
      · exact .inr ⟨hlast, hval, by omega⟩
  · have hr := h.le_r
    have hleft := h.le_left
    obtain ⟨k, reads, hfin, hk, hk'⟩ := finish_bounds stabs type h.any
    exact ⟨k, s.right, reads, by rw [stabBinsearch, hrun, Option.map_some, hfin],
      fun _ => by omega, fun hu => absurd hu h.not_undercuts⟩

theorem search_none (hle : left ≤ right + 1) (hno : ∀ i, ¬ InTable stabs type left right i)
    (addr : Word) :
    ∃ reads, stabBinsearch stabs left right type addr = some (left, left - 1, reads) := by
  obtain ⟨s, hrun, ⟨hb, hany⟩, -⟩ := searchLoop_ok
    (P := fun s => InBounds stabs type left right s ∧ s.anyMatches = false)
    (fun s hs hsr => by
      refine ⟨hs.1.probe hsr, ?_⟩
      have hlo := hs.1.lo
      have hhi := hs.1.hi
      obtain ⟨mid, reads, hlm, hmr, -, -, ⟨-, heq⟩ | ⟨m, hml, hmm, htype, -⟩⟩ :=
        probe_cases stabs type hsr
      · rw [heq]
        exact hs.2
      · exact absurd ⟨by omega, by omega, htype⟩ (hno m)) _ _
    ⟨InBounds.init hle, rfl⟩ (size_init stabs type left right addr)
  refine ⟨s.reads, ?_⟩
  rw [stabBinsearch, hrun, Option.map_some, Search.finish, if_pos hany, (hb.none hany).1]

end first

/-! ## The whole lookup -/

/-- The name is the default string, or starts in the string table. -/
def NameInside (stabstr : List (BitVec 8)) : StabName → Prop
  | .unknown => True
  | .at strx => strx < stabstr.length

/-- Both names are inside the string table. -/
structure NamesInside (stabstr : List (BitVec 8)) (info : Eipdebuginfo) : Prop where
  file : NameInside stabstr info.eipFile
  fn : NameInside stabstr info.eipFnName

/-- Every index read is in the table of `n` stabs, and every name in the string table. -/
def InsideTables (n : Nat) (stabstr : List (BitVec 8)) (info : Eipdebuginfo)
    (reads : List Int) : Prop :=
  (∀ i ∈ reads, 0 ≤ i ∧ i < n) ∧ NamesInside stabstr info

/-- The table makes a search start, or the lookup read, before the first stab. Either the first stab
is a source file and is taken for one above the address; or the lookup is for the last address of
all, and each of the three searches ends one stab before its range. -/
inductive SearchesBefore (stabs : Int → Stab) (n : Nat) (addr : Word) : Prop
  | file (hfirst : FirstOf stabs N_SO 0 (n - 1) 0) (hcut : Undercuts stabs N_SO 0 0 (n - 1) addr)
  | line (hfirst : FirstOf stabs N_SO 0 (n - 1) 2) (hcut : Undercuts stabs N_SO 2 0 (n - 1) addr)
      (hfun : HasType stabs N_FUN 1) (hval : (stabs 1).nValue = addr) (hlast : addr = 0xFFFFFFFF#32)
      (hline : HasType stabs N_SLINE 0) (hlt : addr - (stabs 0).nValue < (stabs 0).nValue)

variable {stabstr : List (BitVec 8)} {info : Eipdebuginfo} {n : Nat}

theorem nameAt_inside {default : StabName} (strx : Word) (h : NameInside stabstr default) :
    NameInside stabstr (nameAt stabstr strx default) := by
  unfold nameAt
  split_ifs with hlt
  · exact hlt
  · exact h

theorem countArgs_reads (stabs : Int → Stab) (k : Nat) (i : Int) :
    ∀ j ∈ (countArgs stabs k i).2, i ≤ j ∧ j < i + k := by
  induction k generalizing i with
  | zero => exact fun j hj => absurd hj List.not_mem_nil
  | succ k ih =>
    intro j hj
    rw [countArgs] at hj
    split_ifs at hj with htype
    · rcases List.mem_cons.1 hj with rfl | hj
      · omega
      · have := ih (i + 1) j hj
        omega
    · obtain rfl := List.mem_singleton.1 hj
      omega

theorem functionInfo_cases (stabs : Int → Stab) (hinfo : NamesInside stabstr info) (addr : Word)
    (lfile rfile lfun rfun : Int) :
    ∃ info', NamesInside stabstr info' ∧
      (lfun ≤ rfun ∧ functionInfo stabs stabstr info addr lfile rfile lfun rfun =
          (info', addr - (stabs lfun).nValue, lfun, rfun, [lfun]) ∨
        rfun < lfun ∧ functionInfo stabs stabstr info addr lfile rfile lfun rfun =
          (info', addr, lfile, rfile, [])) := by
  by_cases hle : lfun ≤ rfun
  · refine ⟨_, ?_, .inl ⟨hle, by rw [functionInfo, if_pos hle]⟩⟩
    exact ⟨hinfo.file, nameAt_inside (stabs lfun).nStrx hinfo.fn⟩
  · refine ⟨_, ?_, .inr ⟨not_le.1 hle, by rw [functionInfo, if_neg hle]⟩⟩
    exact ⟨hinfo.file, hinfo.fn⟩

/-- The end of `debuginfo_eip` reads the stab of the line, stabs of the file before it, and stabs in
the function. -/
theorem lineInfo_spec (stabs : Int → Stab) (hinfo : NamesInside stabstr info)
    (lfile lfun rfun lline : Int) :
    ∃ info' reads, lineInfo stabs stabstr info lfile lfun rfun lline = (info', reads) ∧
      NamesInside stabstr info' ∧ lline ∈ reads ∧
      ∀ i ∈ reads, i = lline ∨ lfile ≤ i ∧ i ≤ lline ∨ lfun < i ∧ i < rfun := by
  obtain ⟨k, reads, hscan, -, -, -, -, hreads⟩ :=
    scanDown_spec (NamesFile stabs) (lline - lfile + 1).toNat lline
  have hargs : ∀ i ∈ (if lfun < rfun then countArgs stabs (rfun - (lfun + 1)).toNat (lfun + 1)
      else (0, [])).2, lfun < i ∧ i < rfun := by
    intro i hi
    split_ifs at hi with hlt
    · have := countArgs_reads stabs _ _ i hi
      omega
    · exact absurd hi List.not_mem_nil
  simp only [lineInfo, hscan]
  refine ⟨_, _, rfl, ?_, List.mem_cons_self, fun i hi => ?_⟩
  · by_cases hk : lfile ≤ k
    · rw [if_pos hk]
      exact ⟨nameAt_inside (stabs k).nStrx hinfo.file, hinfo.fn⟩
    · rw [if_neg hk]
      exact ⟨hinfo.file, hinfo.fn⟩
  · rcases List.mem_cons.1 hi with rfl | hi
    · exact .inl rfl
    · rcases List.mem_append.1 hi with hi | hi
      · have := hreads i hi
        exact .inr (.inl (by omega))
      · exact .inr (.inr (hargs i hi))

/-- What `debuginfo_eip` reads after the search for the function, if it goes on with `[lline,
rline]` and the address `a`. -/
theorem debuginfo_after_fun (hvalid : stabstr.getLast? = some 0#8)
    {lfile rfile lfun rfun lline rline : Int} {reads₁ reads₂ reads₃ : List Int} {a : Word}
    (hfile : stabBinsearch stabs 0 (n - 1) N_SO addr = some (lfile, rfile, reads₁))
    (hne : lfile ≠ 0) (hfun : stabBinsearch stabs lfile rfile N_FUN addr =
      some (lfun, rfun, reads₂))
    (hinfo : NamesInside stabstr info)
    (heq : functionInfo stabs stabstr ⟨.unknown, 0, .unknown, 9, addr, 0⟩ addr lfile
      rfile lfun rfun =
      (info, a, lline, rline, reads₃)) (hle : lline ≤ rline) :
    ∃ lline' rline' reads₄ info' reads₅,
      stabBinsearch stabs lline rline N_SLINE a = some (lline', rline', reads₄) ∧
      debuginfoEip stabs n stabstr addr =
        some (0, info', reads₁ ++ reads₂ ++ (reads₃ ++ reads₄ ++ reads₅)) ∧
      NamesInside stabstr info' ∧ lline' ∈ reads₅ ∧ (∀ i ∈ reads₄, lline ≤ i ∧ i ≤ rline) ∧
      ∀ i ∈ reads₅, i = lline' ∨ lfile ≤ i ∧ i ≤ lline' ∨ lfun < i ∧ i < rfun := by
  obtain ⟨lline', rline', reads₄, hsearch, hreads₄, -⟩ :=
    search_bounds stabs N_SLINE a (by omega : lline ≤ rline + 1)
  obtain ⟨info', reads₅, hinfo', hnames, hmem, hreads₅⟩ :=
    lineInfo_spec stabs hinfo lfile lfun rfun lline'
  refine ⟨lline', rline', reads₄, info', reads₅, hsearch, ?_, hnames, hmem, hreads₄, hreads₅⟩
  simp [debuginfoEip, hvalid, hfile, hne, hfun, heq, hsearch, hinfo']

/-- What `debuginfo_eip` reads after the search for the file; `lline'` is the stab that it takes for
the line. -/
theorem debuginfo_after_file (hvalid : stabstr.getLast? = some 0#8) {lfile rfile : Int}
    {reads₁ : List Int}
    (hfile : stabBinsearch stabs 0 (n - 1) N_SO addr = some (lfile, rfile, reads₁))
    (hne : lfile ≠ 0) (hle : lfile ≤ rfile) :
    ∃ lfun rfun reads₂ lline rline a lline' reads info,
      stabBinsearch stabs lfile rfile N_FUN addr = some (lfun, rfun, reads₂) ∧
      (lfun ≤ rfun ∧ lline = lfun ∧ rline = rfun ∧ a = addr - (stabs lfun).nValue ∨
        rfun < lfun ∧ lline = lfile ∧ rline = rfile ∧ a = addr) ∧
      (∃ rline' reads₄, stabBinsearch stabs lline rline N_SLINE a = some (lline', rline', reads₄)) ∧
      debuginfoEip stabs n stabstr addr = some (0, info, reads₁ ++ reads₂ ++ reads) ∧
      NamesInside stabstr info ∧ lline' ∈ reads ∧
      ∀ i ∈ reads, lline ≤ i ∧ i ≤ rline ∨ i = lline' ∨ lfile ≤ i ∧ i ≤ lline' ∨
        lfun ≤ i ∧ i ≤ rfun := by
  obtain ⟨lfun, rfun, reads₂, hfun, -, -⟩ :=
    search_bounds stabs N_FUN addr (by omega : lfile ≤ rfile + 1)
  have hinit : NamesInside stabstr ⟨.unknown, 0, .unknown, 9, addr, 0⟩ := ⟨trivial, trivial⟩
  obtain ⟨info₁, hinfo₁, ⟨hlt, heq⟩ | ⟨hlt, heq⟩⟩ :=
    functionInfo_cases stabs hinit addr lfile rfile lfun rfun
  · obtain ⟨lline', rline', reads₄, info, reads₅, hsearch, hrun, hnames, hmem, hreads₄, hreads₅⟩ :=
      debuginfo_after_fun hvalid hfile hne hfun hinfo₁ heq hlt
    refine ⟨lfun, rfun, reads₂, lfun, rfun, _, lline', _, info, hfun, .inl ⟨hlt, rfl, rfl, rfl⟩,
      ⟨rline', reads₄, hsearch⟩, hrun, hnames, by simp [hmem], fun i hi => ?_⟩
    rcases List.mem_append.1 hi with hi | hi
    · rcases List.mem_append.1 hi with hi | hi
      · obtain rfl := List.mem_singleton.1 hi
        omega
      · exact .inl (hreads₄ i hi)
    · have := hreads₅ i hi
      omega
  · obtain ⟨lline', rline', reads₄, info, reads₅, hsearch, hrun, hnames, hmem, hreads₄, hreads₅⟩ :=
      debuginfo_after_fun hvalid hfile hne hfun hinfo₁ heq hle
    refine ⟨lfun, rfun, reads₂, lfile, rfile, _, lline', _, info, hfun, .inr ⟨hlt, rfl, rfl, rfl⟩,
      ⟨rline', reads₄, hsearch⟩, hrun, hnames, by simp [hmem], fun i hi => ?_⟩
    rcases List.mem_append.1 hi with hi | hi
    · exact .inl (hreads₄ i (by simpa using hi))
    · have := hreads₅ i hi
      omega

section results

variable {left' right' x : Int} {reads : List Int}

theorem search_bounds_of
    (h : stabBinsearch stabs left right type addr = some (left', right', reads))
    (hle : left ≤ right + 1) :
    (∀ i ∈ reads, left ≤ i ∧ i ≤ right) ∧
      (left' = left ∧ right' = left - 1 ∨
        left - 1 ≤ left' ∧ left' ≤ right' ∧ right' ≤ right ∧
          (left' = left - 1 → HasType stabs type left) ∧
          (left' = left ∨ HasType stabs type left' ∨ left' = right')) := by
  obtain ⟨_, _, _, hrun, hres⟩ := search_bounds stabs type addr hle
  obtain ⟨rfl, rfl, rfl⟩ : _ = left' ∧ _ = right' ∧ _ = reads := by simpa using hrun.symm.trans h
  exact hres

theorem search_one_of (h : stabBinsearch stabs x x type addr = some (left', right', reads)) :
    x ∈ reads ∧ (left' = x - 1 → right' = x - 1) ∧
      (left' = x - 1 ↔ HasType stabs type x ∧ AboveAddr (stabs x).nValue addr) := by
  obtain ⟨_, _, _, hrun, hres⟩ := search_one stabs type x addr
  obtain ⟨rfl, rfl, rfl⟩ : _ = left' ∧ _ = right' ∧ _ = reads := by simpa using hrun.symm.trans h
  exact hres

theorem search_first_of (h : stabBinsearch stabs left right type addr = some (left', right', reads))
    (hx : FirstOf stabs type left right x) (hpos : 0 ≤ left) :
    (¬ Undercuts stabs type x left right addr → x ≤ left') ∧
      (Undercuts stabs type x left right addr → right' = x - 1 ∧
        (addr < (stabs x).nValue ∧ (left < x → left' = left) ∧ (left = x → left' = x - 1) ∨
          addr = 0xFFFFFFFF#32 ∧ (stabs x).nValue = addr ∧ left' = x - 1)) := by
  obtain ⟨_, _, _, hrun, hres⟩ := search_first hx hpos addr
  obtain ⟨rfl, rfl, -⟩ : _ = left' ∧ _ = right' ∧ _ = reads := by simpa using hrun.symm.trans h
  exact hres

end results

section lookup

variable {lfile rfile lfun rfun lline rline lline' rline' : Int} {a : Word}
  {reads₁ reads₂ reads₄ : List Int}

/-- Only if there is a source file does the lookup go on. -/
theorem exists_first
    (hfile : stabBinsearch stabs 0 (n - 1) N_SO addr = some (lfile, rfile, reads₁))
    (hne : lfile ≠ 0) :
    ∃ x, FirstOf stabs N_SO 0 (n - 1) x := by
  have hex : ∃ i, InTable stabs N_SO 0 (n - 1) i := by
    by_contra hno
    obtain ⟨reads, hrun⟩ := search_none (by omega) (fun i hi => hno ⟨i, hi⟩) addr
    rw [hrun] at hfile
    simp only [Option.some.injEq, Prod.mk.injEq] at hfile
    exact hne hfile.1.symm
  obtain ⟨x, hx, hle⟩ := Int.exists_least_of_bdd ⟨0, fun i hi => hi.1⟩ hex
  exact ⟨x, hx, hle⟩

/-- The search for the file ends before the table exactly in the first case of `SearchesBefore`. -/
theorem file_before_iff
    (hfile : stabBinsearch stabs 0 (n - 1) N_SO addr = some (lfile, rfile, reads₁)) :
    lfile < 0 ↔ FirstOf stabs N_SO 0 (n - 1) 0 ∧ Undercuts stabs N_SO 0 0 (n - 1) addr := by
  constructor
  · intro hneg
    obtain ⟨x, hx⟩ := exists_first hfile (by omega)
    obtain ⟨hno, hcut⟩ := search_first_of hfile hx le_rfl
    have hpos := hx.mem.1
    have hu : Undercuts stabs N_SO x 0 (n - 1) addr := by
      by_contra hu
      have := hno hu
      omega
    obtain rfl : x = 0 := by
      obtain ⟨-, ⟨-, hlt, -⟩ | ⟨-, -, heq⟩⟩ := hcut hu <;> omega
    exact ⟨hx, hu⟩
  · rintro ⟨hx, hu⟩
    obtain ⟨-, hcut⟩ := search_first_of hfile hx le_rfl
    obtain ⟨-, ⟨-, -, heq⟩ | ⟨-, -, heq⟩⟩ := hcut hu <;> omega

/-- For the last address of all, the search for the file may end at the stab before the first
source file. -/
theorem file_of_last
    (hfile : stabBinsearch stabs 0 (n - 1) N_SO addr = some (lfile, rfile, reads₁)) {x : Int}
    (hx : FirstOf stabs N_SO 0 (n - 1) x) (hu : Undercuts stabs N_SO x 0 (n - 1) addr)
    (hlast : addr = 0xFFFFFFFF#32) : lfile = x - 1 ∧ rfile = x - 1 := by
  obtain ⟨hr, ⟨hlt, -⟩ | ⟨-, -, hl⟩⟩ := (search_first_of hfile hx le_rfl).2 hu
  · bv_omega
  · exact ⟨hl, hr⟩

theorem HasType.ne {i j type' : Int} (h : HasType stabs type i) (h' : HasType stabs type' j)
    (hne : type ≠ type') : i ≠ j := by
  rintro rfl
  exact hne (h.symm.trans h')

/-- If the file starts at 1, but not with a source file, the lookup is for the last address of all.
-/
theorem last_of_file_one
    (hfile : stabBinsearch stabs 0 (n - 1) N_SO addr = some (1, 1, reads₁))
    (hfun : HasType stabs N_FUN 1) (hline : HasType stabs N_SLINE 0) :
    FirstOf stabs N_SO 0 (n - 1) 2 ∧ Undercuts stabs N_SO 2 0 (n - 1) addr ∧
      addr = 0xFFFFFFFF#32 := by
  obtain ⟨x, hx⟩ := exists_first hfile one_ne_zero
  obtain ⟨hno, hcut⟩ := search_first_of hfile hx le_rfl
  have hx0 := hx.mem.1
  have hne0 : x ≠ 0 := hx.mem.2.2.ne hline (by decide)
  have hne1 : x ≠ 1 := hx.mem.2.2.ne hfun (by decide)
  have hu : Undercuts stabs N_SO x 0 (n - 1) addr := by
    by_contra hu
    have := hno hu
    omega
  obtain ⟨hr, ⟨-, hc, -⟩ | ⟨hlast, -, -⟩⟩ := hcut hu
  · have := hc (by omega)
    omega
  · obtain rfl : x = 2 := by omega
    exact ⟨hx, hu, hlast⟩

/-- The search for the line ends before the table only if all three searches end one stab before
their range. -/
theorem before_of_line
    (hfile : stabBinsearch stabs 0 (n - 1) N_SO addr = some (lfile, rfile, reads₁))
    (hpos : 0 < lfile) (hle : lfile ≤ rfile) (htype : HasType stabs N_SO lfile ∨ lfile = rfile)
    (hfun : stabBinsearch stabs lfile rfile N_FUN addr = some (lfun, rfun, reads₂))
    (hcases : lfun ≤ rfun ∧ lline = lfun ∧ rline = rfun ∧ a = addr - (stabs lfun).nValue ∨
      rfun < lfun ∧ lline = lfile ∧ rline = rfile ∧ a = addr)
    (hline : stabBinsearch stabs lline rline N_SLINE a = some (lline', rline', reads₄))
    (hneg : lline' < 0) : SearchesBefore stabs n addr := by
  obtain ⟨-, hres₂⟩ := search_bounds_of hfun (by omega)
  obtain ⟨-, hres₃⟩ := search_bounds_of hline (by omega)
  -- The search for the function ended before the file, at the start of the table.
  obtain ⟨hlt, rfl, rfl, rfl⟩ : lfun ≤ rfun ∧ lline = lfun ∧ rline = rfun ∧
      a = addr - (stabs lfun).nValue := hcases.resolve_right fun hc => by omega
  obtain ⟨hlo₂, -, -, hbelow₂, -⟩ := hres₂.resolve_left fun hc => by omega
  obtain ⟨hlo₃, -, -, hbelow₃, -⟩ := hres₃.resolve_left fun hc => by omega
  obtain rfl : lfile = 1 := by omega
  obtain rfl : lline = 0 := by omega
  have hfun1 : HasType stabs N_FUN 1 := hbelow₂ rfl
  have hline0 : HasType stabs N_SLINE 0 := hbelow₃ (by omega)
  obtain rfl : (1 : Int) = rfile := htype.resolve_left fun hc => hc.ne hfun1 (by decide) rfl
  -- So it was one of a single stab, and so is the search for the line.
  obtain ⟨-, hend, habove⟩ := search_one_of hfun
  obtain rfl : rline = 0 := hend rfl
  obtain ⟨-, -, habove'⟩ := search_one_of hline
  obtain ⟨hx, hu, hlast⟩ := last_of_file_one hfile hfun1 hline0
  refine .line hx hu hfun1 ?_ hlast hline0 ?_
  · rcases (habove.1 rfl).2 with hlt | ⟨heq, -⟩
    · bv_omega
    · exact heq
  · rcases (habove'.1 (by omega)).2 with hlt | ⟨heq, hc⟩
    · exact hlt
    · bv_omega

theorem line_of_before
    (hfile : stabBinsearch stabs 0 (n - 1) N_SO addr = some (lfile, rfile, reads₁))
    (hpos : 0 < lfile) (hfun : stabBinsearch stabs lfile rfile N_FUN addr =
      some (lfun, rfun, reads₂))
    (hcases : lfun ≤ rfun ∧ lline = lfun ∧ rline = rfun ∧ a = addr - (stabs lfun).nValue ∨
      rfun < lfun ∧ lline = lfile ∧ rline = rfile ∧ a = addr)
    (hline : stabBinsearch stabs lline rline N_SLINE a = some (lline', rline', reads₄))
    (h : SearchesBefore stabs n addr) : lline' < 0 := by
  cases h with
  | file hx hu =>
    have := (file_before_iff hfile).2 ⟨hx, hu⟩
    omega
  | line hx hu hfun1 hval hlast hline0 hlt =>
    obtain ⟨rfl, rfl⟩ := file_of_last hfile hx hu hlast
    obtain ⟨-, hend, habove⟩ := search_one_of hfun
    have hlfun : lfun = 0 := habove.2 ⟨hfun1, .inr ⟨hval, hlast⟩⟩
    have hrfun : rfun = 0 := hend hlfun
    obtain ⟨-, rfl, rfl, rfl⟩ := hcases.resolve_right fun hc => by omega
    subst hlfun hrfun
    obtain ⟨-, -, habove'⟩ := search_one_of hline
    have := habove'.2 ⟨hline0, .inl hlt⟩
    omega

end lookup

/-- **`debuginfo_eip` stays inside the tables exactly if no search gets before the first stab.** -/
theorem debuginfo_eip_inside_iff (stabs : Int → Stab) (n : Nat) (stabstr : List (BitVec 8))
    (addr : Word) (hvalid : stabstr.getLast? = some 0#8) :
    ∃ ret info reads, debuginfoEip stabs n stabstr addr = some (ret, info, reads) ∧
      (InsideTables n stabstr info reads ↔ ¬ SearchesBefore stabs n addr) := by
  obtain ⟨lfile, rfile, reads₁, hfile, hreads₁, hres⟩ :=
    search_bounds stabs N_SO addr (by omega : (0 : Int) ≤ (n : Int) - 1 + 1)
  by_cases hne : lfile = 0
  · -- No source file, as far as the lookup can tell.
    subst hne
    refine ⟨-1, ⟨.unknown, 0, .unknown, 9, addr, 0⟩, reads₁, by simp [debuginfoEip, hvalid, hfile],
      iff_of_true ⟨fun i hi => ?_, ⟨trivial, trivial⟩⟩ fun hc => ?_⟩
    · have := hreads₁ i hi
      omega
    · cases hc with
      | file hx hu => exact absurd ((file_before_iff hfile).2 ⟨hx, hu⟩) (lt_irrefl 0)
      | line hx hu _ _ hlast _ _ => exact absurd (file_of_last hfile hx hu hlast).1 (by decide)
  obtain ⟨hlo, hle, hhi, -, hkind⟩ := hres.resolve_left fun hc => hne hc.1
  obtain ⟨lfun, rfun, reads₂, lline, rline, a, lline', reads, info, hfun, hcases,
    ⟨rline', reads₄, hline⟩, hrun, hnames, hmem, hreads⟩ :=
    debuginfo_after_file hvalid hfile hne hle
  refine ⟨0, info, _, hrun, ?_⟩
  by_cases hneg : lfile < 0
  · -- The search for the function is one of the stab before the table.
    obtain ⟨hx, hu⟩ := (file_before_iff hfile).1 hneg
    obtain rfl : lfile = -1 := by omega
    obtain rfl : rfile = -1 := ((search_first_of hfile hx le_rfl).2 hu).1
    obtain ⟨hread, -⟩ := search_one_of hfun
    refine iff_of_false (fun hin => ?_) (not_not.2 (.file hx hu))
    have := hin.1 (-1) (by simp [hread])
    omega
  · have hpos : 0 < lfile := by omega
    have hin : InsideTables n stabstr info (reads₁ ++ reads₂ ++ reads) ↔ ¬ lline' < 0 := by
      obtain ⟨hreads₂, hres₂⟩ := search_bounds_of hfun (by omega)
      obtain ⟨-, hres₃⟩ := search_bounds_of hline (by omega)
      refine ⟨fun h => not_lt.2 (h.1 lline' (by simp [hmem])).1, fun h => ⟨fun i hi => ?_, hnames⟩⟩
      rcases List.mem_append.1 hi with hi | hi
      · rcases List.mem_append.1 hi with hi | hi
        · have := hreads₁ i hi
          omega
        · have := hreads₂ i hi
          omega
      · have := hreads i hi
        omega
    rw [hin, not_iff_not]
    exact ⟨before_of_line hfile hpos hle (hkind.resolve_left hne) hfun hcases hline,
      line_of_before hfile hpos hfun hcases hline⟩

/-- A table of one source file at `value`. -/
def oneFile (value : Word) (_ : Int) : Stab := ⟨1, 0x64, 0, value⟩

theorem debuginfo_eip_inside_one :
    [1#8, 0#8].getLast? = some 0#8 ∧
      ∃ ret info reads, debuginfoEip (oneFile 0x800020) 1 [1#8, 0#8] 0x800100 =
      some (ret, info, reads) ∧
        (InsideTables 1 [1#8, 0#8] info reads ↔ ¬ SearchesBefore (oneFile 0x800020) 1 0x800100) :=
  ⟨rfl, debuginfo_eip_inside_iff (oneFile 0x800020) 1 [1#8, 0#8] 0x800100 rfl⟩

/-- An address below the only source file: the stab before the table is read. -/
theorem debuginfo_eip_before_table :
    [1#8, 0#8].getLast? = some 0#8 ∧
      ∃ ret info reads, debuginfoEip (oneFile 0x800020) 1 [1#8, 0#8] 0x800000 =
      some (ret, info, reads) ∧
        ¬ InsideTables 1 [1#8, 0#8] info reads := by
  refine ⟨rfl, _, _, _, rfl, fun h => ?_⟩
  have := h.1 (-1) (by decide)
  omega

end Jos
