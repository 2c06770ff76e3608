import Jos.Mmu

/-!
# `stab_binsearch`

The debugging information of a program is a table of stabs, and the stabs of one type are to be in
increasing order of address. `stab_binsearch` (`kern/kdebug.c`) looks for the last stab of a type
whose address is at most `addr`, by a binary search in which only the stabs of that type count.

**The search** (`Search`). `[l, r]` is what is left, `left` and `right` are the two results. A probe
goes down from the middle to a stab of the type (`scanDown`) and compares its address. On an exact
match the search goes on with `addr + 1`, to find the end of the region.

**What goes wrong.** If the next stab of the type has the address `addr + 1` and is still in
`[l, r]`, it is taken for an exact match too (`MatchedFirst`). And when all stabs of the type are
above `addr`, the result looks like a match: the caller is told of an empty region only if the type
does not occur at all.

C `int`s are integers here; `reads` are the indices at which `stabs` is read.
-/

namespace Jos

/-! ## Definitions -/

/-- `struct Stab`, without the field that is not used. -/
structure Stab where
  nStrx : Word
  nType : BitVec 8
  nDesc : BitVec 16
  nValue : Word

/-- The stab at `i` has the type. -/
def HasType (stabs : Int → Stab) (type i : Int) : Prop := ((stabs i).nType.toNat : Int) = type

instance (stabs : Int → Stab) (type i : Int) : Decidable (HasType stabs type i) := by
  unfold HasType; infer_instance

/-- Go down from `m` for at most `n` stabs, to one with the property; with the indices read. -/
def scanDown (p : Int → Prop) [DecidablePred p] : Nat → Int → Int × List Int
  | 0, m => (m, [])
  | n + 1, m =>
    if p m then (m, [m])
    else
      let (k, reads) := scanDown p n (m - 1)
      (k, m :: reads)

/-- The variables of `stab_binsearch`. -/
structure Search where
  l : Int
  r : Int
  addr : Word
  left : Int
  right : Int
  anyMatches : Bool
  reads : List Int

/-- The body of the loop. -/
def probe (stabs : Int → Stab) (type : Int) (s : Search) : Search :=
  let trueM := (s.l + s.r).tdiv 2
  let (m, reads) := scanDown (HasType stabs type) (trueM - s.l + 1).toNat trueM
  let s := { s with reads := s.reads ++ reads }
  if m < s.l then { s with l := trueM + 1 }
  else
    let s := { s with anyMatches := true }
    if (stabs m).nValue < s.addr then { s with left := m, l := trueM + 1 }
    else if s.addr < (stabs m).nValue then { s with right := m - 1, r := m - 1 }
    else { s with left := m, l := m, addr := s.addr + 1 }

/-- The loop; `none` if it takes more than the given number of iterations. -/
def searchLoop (stabs : Int → Stab) (type : Int) : Nat → Search → Option Search
  | 0, s => if s.l ≤ s.r then none else some s
  | n + 1, s => if s.l ≤ s.r then searchLoop stabs type n (probe stabs type s) else some s

/-- The end of the function: the two results, and the indices read. -/
def Search.finish (stabs : Int → Stab) (type : Int) (s : Search) : Int × Int × List Int :=
  if s.anyMatches = false then (s.left, s.left - 1, s.reads)
  else
    let (l, reads) := scanDown (HasType stabs type) (s.right - s.left).toNat s.right
    (l, s.right, s.reads ++ reads)

/-- `stab_binsearch`. -/
def stabBinsearch (stabs : Int → Stab) (left right type : Int) (addr : Word) :
    Option (Int × Int × List Int) :=
  (searchLoop stabs type (2 * (right - left + 1).toNat + 1)
    ⟨left, right, addr, left, right, false, []⟩).map (Search.finish stabs type)

variable {stabs : Int → Stab} {type l m r : Int} {s s' : Search}

/-! ## Scanning down -/

/-- The scan stops at the first stab with the property, or after `n` stabs. -/
theorem scanDown_spec (p : Int → Prop) [DecidablePred p] (n : Nat) (m : Int) :
    ∃ k reads, scanDown p n m = (k, reads) ∧ m - n ≤ k ∧ k ≤ m ∧ (m - n < k → p k) ∧
      (∀ i, k < i → i ≤ m → ¬ p i) ∧ ∀ i ∈ reads, m - n < i ∧ i ≤ m := by
  induction n generalizing m with
  | zero =>
    exact ⟨m, [], rfl, by omega, le_rfl, fun h => by omega, fun i h h' => by omega, by simp⟩
  | succ n ih =>
    by_cases hm : p m
    · exact ⟨m, [m], by rw [scanDown, if_pos hm], by omega, le_rfl, fun _ => hm,
        fun i h h' => by omega, by simp⟩
    · obtain ⟨k, reads, hk, hlo, hhi, hp, hno, hreads⟩ := ih (m - 1)
      refine ⟨k, m :: reads, by rw [scanDown, if_neg hm, hk], by omega, by omega,
        fun h => hp (by omega), fun i hki him => ?_, fun i hi => ?_⟩
      · by_cases him' : i = m
        · rwa [him']
        · exact hno i hki (by omega)
      · rcases List.mem_cons.1 hi with rfl | hi
        · omega
        · have := hreads i hi
          omega

/-- The middle of an interval is in it, although `/` of C rounds towards zero. -/
theorem le_tdiv_le (h : l ≤ r) : l ≤ (l + r).tdiv 2 ∧ (l + r).tdiv 2 ≤ r := by
  rw [Int.tdiv_eq_ediv, show Int.sign 2 = 1 from rfl]
  split_ifs <;> omega

theorem probe_cases (stabs : Int → Stab) (type : Int) (h : s.l ≤ s.r) :
    ∃ mid reads, s.l ≤ mid ∧ mid ≤ s.r ∧ (0 ≤ s.l → mid = (s.l + s.r) / 2) ∧
      (∀ i ∈ reads, s.l ≤ i ∧ i ≤ mid) ∧
      ((∀ i, s.l ≤ i → i ≤ mid → ¬ HasType stabs type i) ∧
          probe stabs type s = { s with l := mid + 1, reads := s.reads ++ reads } ∨
        ∃ m, s.l ≤ m ∧ m ≤ mid ∧ HasType stabs type m ∧
          (∀ i, m < i → i ≤ mid → ¬ HasType stabs type i) ∧
          ((stabs m).nValue < s.addr ∧ probe stabs type s =
              { s with l := mid + 1, left := m, anyMatches := true, reads := s.reads ++ reads } ∨
            s.addr < (stabs m).nValue ∧ probe stabs type s =
              { s with r := m - 1, right := m - 1, anyMatches := true, reads := s.reads ++ reads } ∨
            (stabs m).nValue = s.addr ∧ probe stabs type s =
              { s with l := m, left := m, addr := s.addr + 1, anyMatches := true,
                       reads := s.reads ++ reads })) := by
  have htdiv : 0 ≤ s.l → (s.l + s.r).tdiv 2 = (s.l + s.r) / 2 := fun hl =>
    Int.tdiv_eq_ediv_of_nonneg (by omega)
  have hmid := le_tdiv_le h
  generalize hm : (s.l + s.r).tdiv 2 = mid at htdiv hmid
  obtain ⟨m, reads, hscan, hlo, hhi, htype, hno, hreads⟩ :=
    scanDown_spec (HasType stabs type) (mid - s.l + 1).toNat mid
  refine ⟨mid, reads, hmid.1, hmid.2, htdiv, fun i hi => ?_, ?_⟩
  · have := hreads i hi
    omega
  have hprobe : probe stabs type s =
      if m < s.l then { s with l := mid + 1, reads := s.reads ++ reads }
      else if (stabs m).nValue < s.addr then
        { s with l := mid + 1, left := m, anyMatches := true, reads := s.reads ++ reads }
      else if s.addr < (stabs m).nValue then
        { s with r := m - 1, right := m - 1, anyMatches := true, reads := s.reads ++ reads }
      else { s with l := m, left := m, addr := s.addr + 1, anyMatches := true,
                    reads := s.reads ++ reads } := by
    rw [probe, hm, hscan]
  by_cases hml : m < s.l
  · exact .inl ⟨fun i hi hi' => hno i (by omega) hi', by rw [hprobe, if_pos hml]⟩
  · refine .inr ⟨m, by omega, hhi, htype (by omega), hno, ?_⟩
    rw [hprobe, if_neg hml]
    by_cases hlt : (stabs m).nValue < s.addr
    · exact .inl ⟨hlt, if_pos hlt⟩
    by_cases hgt : s.addr < (stabs m).nValue
    · exact .inr (.inl ⟨hgt, by rw [if_neg hlt, if_pos hgt]⟩)
    · have heq : (stabs m).nValue = s.addr :=
        BitVec.le_antisymm (BitVec.not_lt.1 hgt) (BitVec.not_lt.1 hlt)
      exact .inr (.inr ⟨heq, by rw [if_neg hlt, if_neg hgt]⟩)

/-! ## The loop ends -/

/-- A bound on the number of iterations. An exact match at `l` leaves the interval as it is, but
is none any more. -/
def Search.size (stabs : Int → Stab) (type : Int) (s : Search) : Nat :=
  2 * (s.r - s.l + 1).toNat +
    if HasType stabs type s.l ∧ (stabs s.l).nValue = s.addr then 1 else 0

theorem size_probe_lt (stabs : Int → Stab) (type : Int) (h : s.l ≤ s.r) :
    (probe stabs type s).size stabs type < s.size stabs type := by
  obtain ⟨mid, reads, hlm, hmr, -, -, ⟨-, heq⟩ | ⟨m, hlo, hhi, htype, -, ⟨-, heq⟩ | ⟨-, heq⟩ |
    ⟨hval, heq⟩⟩⟩ := probe_cases stabs type h
  · rw [heq]
    unfold Search.size
    dsimp only
    split_ifs <;> omega
  · rw [heq]
    unfold Search.size
    dsimp only
    split_ifs <;> omega
  · rw [heq]
    unfold Search.size
    dsimp only
    split_ifs <;> omega
  · have hnext : ¬ (HasType stabs type m ∧ (stabs m).nValue = s.addr + 1) := by
      rw [hval]
      rintro ⟨-, hc⟩
      bv_omega
    rw [heq]
    unfold Search.size
    dsimp only
    rw [if_neg hnext]
    by_cases hm : m = s.l
    · subst hm
      rw [if_pos ⟨htype, hval⟩]
      omega
    · omega

theorem size_init (stabs : Int → Stab) (type left right : Int) (addr : Word) :
    Search.size stabs type ⟨left, right, addr, left, right, false, []⟩ ≤
      2 * (right - left + 1).toNat + 1 := by
  unfold Search.size
  dsimp only
  split_ifs <;> omega

/-- **The loop rule**: what every probe keeps holds at the end, and there is an end. -/
theorem searchLoop_ok {P : Search → Prop}
    (hstep : ∀ s, P s → s.l ≤ s.r → P (probe stabs type s)) (n : Nat) (s : Search) (hs : P s)
    (hn : s.size stabs type ≤ n) :
    ∃ s', searchLoop stabs type n s = some s' ∧ P s' ∧ s'.r < s'.l := by
  induction n generalizing s with
  | zero =>
    have hend : ¬ s.l ≤ s.r := by
      unfold Search.size at hn
      omega
    exact ⟨s, if_neg hend, hs, not_le.1 hend⟩
  | succ n ih =>
    by_cases hle : s.l ≤ s.r
    · have hlt := size_probe_lt stabs type hle
      obtain ⟨s', hrun, hP, hend⟩ := ih (probe stabs type s) (hstep s hs hle) (by omega)
      exact ⟨s', by rw [searchLoop, if_pos hle, hrun], hP, hend⟩
    · exact ⟨s, by rw [searchLoop, if_neg hle], hs, not_le.1 hle⟩

/-! ## What the search is for -/

/-- The stab at `i` is in the range and has the type. -/
def InTable (stabs : Int → Stab) (type left right i : Int) : Prop :=
  left ≤ i ∧ i ≤ right ∧ HasType stabs type i

/-- The stabs of the type are in strictly increasing order of address. -/
def Increasing (stabs : Int → Stab) (type left right : Int) : Prop :=
  ∀ i j, InTable stabs type left right i → InTable stabs type left right j → i < j →
    (stabs i).nValue < (stabs j).nValue

/-- The stab at `e` is the last of the type at or below `addr`. -/
structure LastBelow (stabs : Int → Stab) (type left right : Int) (addr : Word)
    (e : Int) : Prop where
  mem : InTable stabs type left right e
  le : (stabs e).nValue ≤ addr
  last : ∀ i, InTable stabs type left right i → (stabs i).nValue ≤ addr → i ≤ e

/-- The results `left'` and `right'` are the region that contains `addr`: the last stab of the type
at or below it, and the index before the next one. -/
structure FindsRegion (stabs : Int → Stab) (type left right : Int) (addr : Word)
    (left' right' : Int) : Prop where
  found : ∀ e, LastBelow stabs type left right addr e → left' = e
  next : ∀ e j, LastBelow stabs type left right addr e → InTable stabs type left right j → e < j →
    (∀ i, InTable stabs type left right i → e < i → j ≤ i) → right' = j - 1
  rest : ∀ e, LastBelow stabs type left right addr e →
    (∀ i, InTable stabs type left right i → i ≤ e) → right' = right
  none : (∀ i, InTable stabs type left right i → ¬ (stabs i).nValue ≤ addr) → right' < left'

/-- The bisection of `[l, r]` gets to the stab `e` while the next one, `e'`, is still in the
interval. Stabs of the type below `e` are below the address that is looked for, and those from
`e'` on are above it. -/
inductive MatchedFirst (stabs : Int → Stab) (type e e' : Int) : Int → Int → Prop
  | here {l r : Int} (h : e ≤ (l + r) / 2) (h' : (l + r) / 2 < e') (hr : e' ≤ r) :
      MatchedFirst stabs type e e' l r
  | up {l r : Int} (h : (l + r) / 2 < e)
      (hrest : MatchedFirst stabs type e e' ((l + r) / 2 + 1) r) :
      MatchedFirst stabs type e e' l r
  | down {l r m : Int} (h : e' ≤ m) (hm : m ≤ (l + r) / 2) (hr : m ≤ r)
      (htype : HasType stabs type m) (hno : ∀ i, m < i → i ≤ (l + r) / 2 → ¬ HasType stabs type i)
      (hrest : MatchedFirst stabs type e e' l (m - 1)) : MatchedFirst stabs type e e' l r

/-- The stab `e` is at `addr` and `e'` is at the next address. -/
structure Neighbours (stabs : Int → Stab) (type left right : Int) (addr : Word) (e e' : Int) :
    Prop where
  here : InTable stabs type left right e
  next : InTable stabs type left right e'
  lt : e < e'
  value : (stabs e).nValue = addr
  value' : (stabs e').nValue = addr + 1

/-- The search finds the region: the type does not occur in the range, or one of its stabs is at or
below `addr` and no neighbour is taken for it. At the end of the address space that is undone. -/
def SearchFits (stabs : Int → Stab) (type left right : Int) (addr : Word) : Prop :=
  (∀ i, ¬ InTable stabs type left right i) ∨
    (∃ i, InTable stabs type left right i ∧ (stabs i).nValue ≤ addr) ∧
      ∀ e e', Neighbours stabs type left right addr e e' → MatchedFirst stabs type e e' left right →
        addr = 0xFFFFFFFE#32 ∧ e' = e + 1

/-! ## The results -/

theorem finish_bounds (stabs : Int → Stab) (type : Int) (h : s.anyMatches = true) :
    ∃ k reads, s.finish stabs type = (k, s.right, reads) ∧ k ≤ s.right ∧
    (s.left ≤ k ∨ k = s.right) := by
  obtain ⟨k, reads, hscan, hlo, hhi, -⟩ :=
    scanDown_spec (HasType stabs type) (s.right - s.left).toNat s.right
  refine ⟨k, s.reads ++ reads, ?_, hhi, by omega⟩
  simp [Search.finish, h, hscan]

/-- Without a stab of the type above `left` the last loop goes down to it. -/
theorem finish_eq (stabs : Int → Stab) (type : Int) (h : s.anyMatches = true)
    (hle : s.left ≤ s.right) (hno : ∀ i, s.left < i → i ≤ s.right → ¬ HasType stabs type i) :
    ∃ reads, s.finish stabs type = (s.left, s.right, reads) := by
  obtain ⟨k, reads, hscan, hlo, hhi, htype, -⟩ :=
    scanDown_spec (HasType stabs type) (s.right - s.left).toNat s.right
  have hk : k = s.left := by
    by_contra hne
    exact hno k (by omega) hhi (htype (by omega))
  refine ⟨s.reads ++ reads, ?_⟩
  simp [Search.finish, h, hscan, hk]

/-! ## The order of the probes -/

section bisection

variable {e e' : Int}

theorem MatchedFirst.le_right (h : MatchedFirst stabs type e e' l r) : e' ≤ r := by
  induction h with
  | here _ _ hr => exact hr
  | up _ _ ih => exact ih
  | down h _ hr _ _ _ _ => omega

theorem matchedFirst_up (h : (l + r) / 2 < e) (hlt : e < e') :
    MatchedFirst stabs type e e' l r ↔ MatchedFirst stabs type e e' ((l + r) / 2 + 1) r := by
  refine ⟨fun hf => ?_, fun hf => .up h hf⟩
  cases hf with
  | here h' => omega
  | up _ hrest => exact hrest
  | down h' hm => omega

theorem matchedFirst_down (h : e' ≤ m) (hm : m ≤ (l + r) / 2) (hr : m ≤ r) (hlt : e < e')
    (htype : HasType stabs type m) (hno : ∀ i, m < i → i ≤ (l + r) / 2 → ¬ HasType stabs type i) :
    MatchedFirst stabs type e e' l r ↔ MatchedFirst stabs type e e' l (m - 1) := by
  refine ⟨fun hf => ?_, fun hf => .down h hm hr htype hno hf⟩
  cases hf with
  | here _ h' => omega
  | up h' => omega
  | @down _ _ m' h' hm' _ htype' hno' hrest =>
    obtain rfl : m = m' := by
      by_contra hne
      rcases lt_or_gt_of_ne hne with hlt | hgt
      · exact hno m' hlt hm' htype'
      · exact hno' m hgt hm htype
    exact hrest

end bisection

/-! ## The search in a sorted table -/

section sorted

variable {left right : Int} {addr : Word} {e e' : Int}

/-- No exact match so far. -/
structure Plain (stabs : Int → Stab) (type left right : Int) (addr : Word) (s : Search) : Prop where
  addr_eq : s.addr = addr
  right_eq : s.right = s.r
  lo : left ≤ s.l
  hi : s.r ≤ right
  gap : s.l ≤ s.r + 1
  below : ∀ i, InTable stabs type left right i → i < s.l → (stabs i).nValue < addr
  above : ∀ i, InTable stabs type left right i → s.r < i → addr < (stabs i).nValue
  edge : s.r = right ∨ InTable stabs type left right (s.r + 1)
  last : s.left = left ∧ (∀ i, InTable stabs type left right i → s.l ≤ i) ∨
    InTable stabs type left right s.left ∧ s.left < s.l ∧
      ∀ i, InTable stabs type left right i → s.left < i → s.l ≤ i
  any : s.anyMatches = true ↔ ∃ i, InTable stabs type left right i ∧ (i < s.l ∨ s.r < i)
  same : ∀ e e', Neighbours stabs type left right addr e e' →
    (MatchedFirst stabs type e e' s.l s.r ↔ MatchedFirst stabs type e e' left right)

/-- The search goes on behind an exact match at `e`, and no neighbour can be taken for it. -/
structure Matched (stabs : Int → Stab) (type left right : Int) (addr : Word)
    (s : Search) : Prop where
  addr_eq : s.addr = addr + 1
  right_eq : s.right = s.r
  any : s.anyMatches = true
  mem : InTable stabs type left right s.left
  value : (stabs s.left).nValue = addr
  lo : s.left ≤ s.l
  hi : s.r ≤ right
  left_le : s.left ≤ s.r
  between : ∀ i, InTable stabs type left right i → s.left < i → s.l ≤ i
  edge : s.r = right ∨ InTable stabs type left right (s.r + 1)
  apart : ∀ i, InTable stabs type left right i → i ≤ s.r → (stabs i).nValue ≠ addr + 1
  free : ∀ e e', Neighbours stabs type left right addr e e' →
    ¬ MatchedFirst stabs type e e' left right

/-- After an exact match at `e`, its neighbour is still in the interval. -/
structure Overtaken (stabs : Int → Stab) (type left right : Int) (addr : Word) (e e' : Int)
    (s : Search) : Prop where
  addr_eq : s.addr = addr + 1
  right_eq : s.right = s.r
  any : s.anyMatches = true
  lo : e ≤ s.l
  le : s.l ≤ e'
  hi : e' ≤ s.r
  hi' : s.r ≤ right

/-- The neighbour has been taken for a match. -/
structure Lost (addr : Word) (e' : Int) (s : Search) : Prop where
  right_eq : s.right = s.r
  any : s.anyMatches = true
  left_ge : e' ≤ s.left
  lo : e' ≤ s.l
  hi : e' ≤ s.r
  addr_eq : s.l = e' → s.addr = addr + 2

/-- The neighbour is at the last address, and `addr` has wrapped around to 0. -/
structure Wrapped (right e' : Int) (s : Search) : Prop where
  right_eq : s.right = s.r
  hi' : s.r ≤ right
  any : s.anyMatches = true
  left_eq : s.left = e'
  l_eq : s.l = e'
  hi : e' ≤ s.r ∧ s.addr = 0 ∨ s.r = e' - 1

variable (hsort : Increasing stabs type left right)

include hsort in
theorem InTable.le_of_value (he : InTable stabs type left right e)
    (he' : InTable stabs type left right e') (h : (stabs e).nValue ≤ (stabs e').nValue) :
    e ≤ e' := by
  by_contra hlt
  have := hsort e' e he' he (not_le.1 hlt)
  bv_omega

theorem Plain.mem_interval (h : Plain stabs type left right addr s)
    (hn : Neighbours stabs type left right addr e e') : s.l ≤ e ∧ e ≤ s.r := by
  have hval := hn.value
  constructor
  · by_contra hlt
    have := h.below e hn.here (not_le.1 hlt)
    bv_omega
  · by_contra hlt
    have := h.above e hn.here (not_le.1 hlt)
    bv_omega

theorem Plain.skip (h : Plain stabs type left right addr s) {mid : Int}
    (hmid : mid = (s.l + s.r) / 2) (hle : s.l ≤ mid) (hmr : mid ≤ s.r)
    (hno : ∀ i, s.l ≤ i → i ≤ mid → ¬ HasType stabs type i) (reads : List Int) :
    Plain stabs type left right addr { s with l := mid + 1, reads := reads } := by
  have hskip : ∀ i, InTable stabs type left right i → s.l ≤ i → mid + 1 ≤ i := by
    intro i hi hli
    by_contra hlt
    exact hno i hli (by omega) hi.2.2
  have hlo := h.lo
  refine ⟨h.addr_eq, h.right_eq, by dsimp only; omega,
    h.hi, by dsimp only; omega, ?_, h.above, h.edge, ?_, ?_, ?_⟩
  · intro i hi hlt
    refine h.below i hi ?_
    by_contra hli
    have := hskip i hi (not_lt.1 hli)
    dsimp only at hlt
    omega
  · refine h.last.imp (fun ⟨heq, hall⟩ => ⟨heq, fun i hi => hskip i hi (hall i hi)⟩)
      fun ⟨hmem, hlt, hall⟩ =>
        ⟨hmem, by dsimp only; omega, fun i hi hli => hskip i hi (hall i hi hli)⟩
  · rw [h.any]
    refine exists_congr fun i => and_congr_right fun hi => or_congr_left ?_
    dsimp only
    constructor
    · omega
    · intro hlt
      by_contra hli
      have := hskip i hi (not_lt.1 hli)
      omega
  · intro e e' hn
    rw [← h.same e e' hn]
    subst hmid
    exact (matchedFirst_up (by
      have := hskip e hn.here (h.mem_interval hn).1
      omega) hn.lt).symm

include hsort in
theorem Plain.less (h : Plain stabs type left right addr s) {mid : Int}
    (hmid : mid = (s.l + s.r) / 2) (hlm : s.l ≤ m) (hmm : m ≤ mid) (hmr : mid ≤ s.r)
    (htype : HasType stabs type m) (hno : ∀ i, m < i → i ≤ mid → ¬ HasType stabs type i)
    (hval : (stabs m).nValue < addr) (reads : List Int) : Plain stabs type left right addr
      { s with l := mid + 1, left := m, anyMatches := true, reads := reads } := by
  have hlo := h.lo
  have hhi := h.hi
  have hm : InTable stabs type left right m := ⟨by omega, by omega, htype⟩
  have hskip : ∀ i, InTable stabs type left right i → m < i → mid + 1 ≤ i := by
    intro i hi hmi
    by_contra hlt
    exact hno i hmi (by omega) hi.2.2
  refine ⟨h.addr_eq, h.right_eq, by dsimp only; omega,
    hhi, by dsimp only; omega, ?_, h.above, h.edge, .inr ⟨hm, by dsimp only; omega, hskip⟩, ?_, ?_⟩
  · intro i hi hlt
    by_cases hmi : i ≤ m
    · rcases hmi.lt_or_eq with hlt' | rfl
      · exact BitVec.lt_trans (hsort i m hi hm hlt') hval
      · exact hval
    · have := hskip i hi (not_le.1 hmi)
      dsimp only at hlt
      omega
  · exact iff_of_true rfl ⟨m, hm, .inl (by dsimp only; omega)⟩
  · intro e e' hn
    have hme : m < e := by
      by_contra hem
      rcases (not_lt.1 hem).lt_or_eq with hlt | rfl
      · have := hsort e m hn.here hm hlt
        have := hn.value
        bv_omega
      · have := hn.value
        bv_omega
    rw [← h.same e e' hn]
    subst hmid
    exact (matchedFirst_up (by
      have := hskip e hn.here hme
      omega) hn.lt).symm

include hsort in
theorem Plain.more (h : Plain stabs type left right addr s) {mid : Int}
    (hmid : mid = (s.l + s.r) / 2) (hlm : s.l ≤ m) (hmm : m ≤ mid) (hmr : mid ≤ s.r)
    (htype : HasType stabs type m) (hno : ∀ i, m < i → i ≤ mid → ¬ HasType stabs type i)
    (hval : addr < (stabs m).nValue) (reads : List Int) : Plain stabs type left right addr
      { s with r := m - 1, right := m - 1, anyMatches := true, reads := reads } := by
  have hlo := h.lo
  have hhi := h.hi
  have hm : InTable stabs type left right m := ⟨by omega, by omega, htype⟩
  have hm' : InTable stabs type left right (m - 1 + 1) := by rwa [Int.sub_add_cancel]
  refine ⟨h.addr_eq, rfl, h.lo, by dsimp only; omega, by dsimp only; omega, h.below, ?_, .inr hm',
    h.last, ?_, ?_⟩
  · intro i hi hlt
    dsimp only at hlt
    rcases (show m ≤ i by omega).lt_or_eq with hlt' | rfl
    · exact BitVec.lt_trans hval (hsort m i hm hi hlt')
    · exact hval
  · exact iff_of_true rfl ⟨m, hm, .inr (by dsimp only; omega)⟩
  · intro e e' hn
    have hem : e' ≤ m := by
      refine hn.next.le_of_value hsort hm ?_
      have := hn.value'
      bv_omega
    rw [← h.same e e' hn]
    subst hmid
    exact (matchedFirst_down hem hmm (by omega) hn.lt htype hno).symm

include hsort in
/-- A probe that finds a stab at the address: its neighbour, if there is one, is above the interval
or will be found too. -/
theorem Plain.exact (hmax : addr < 0xFFFFFFFF#32)
    (h : Plain stabs type left right addr s) {mid : Int} (hmid : mid = (s.l + s.r) / 2)
    (hlm : s.l ≤ m) (hmm : m ≤ mid) (hmr : mid ≤ s.r) (htype : HasType stabs type m)
    (hno : ∀ i, m < i → i ≤ mid → ¬ HasType stabs type i) (hval : (stabs m).nValue = addr)
    (reads : List Int) :
    let s' := { s with l := m, left := m, addr := s.addr + 1, anyMatches := true, reads := reads }
    Matched stabs type left right addr s' ∨
      ∃ e e', Neighbours stabs type left right addr e e' ∧ MatchedFirst stabs type e e' left right ∧
        Overtaken stabs type left right addr e e' s' := by
  have hlo := h.lo
  have hhi := h.hi
  have hm : InTable stabs type left right m := ⟨by omega, by omega, htype⟩
  have haddr : s.addr + 1 = addr + 1 := by rw [h.addr_eq]
  by_cases hex : ∃ i, InTable stabs type left right i ∧ i ≤ s.r ∧ (stabs i).nValue = addr + 1
  · obtain ⟨i, hi, hir, hival⟩ := hex
    have hmi : m < i := by
      by_contra him
      rcases (not_lt.1 him).lt_or_eq with hlt | rfl
      · have := hsort i m hi hm hlt
        bv_omega
      · bv_omega
    have hn : Neighbours stabs type left right addr m i := ⟨hm, hi, hmi, hval, hival⟩
    have hi' : mid < i := by
      by_contra him
      exact hno i hmi (not_lt.1 him) hi.2.2
    refine .inr ⟨m, i, hn, (h.same m i hn).1 (.here (hmid ▸ hmm) (hmid ▸ hi') hir), haddr,
      h.right_eq, rfl, le_rfl, le_of_lt hmi, hir, h.hi⟩
  · refine .inl ⟨haddr, h.right_eq, rfl, hm, hval, le_rfl, h.hi, by dsimp only; omega,
      fun i _ hi => le_of_lt hi, h.edge, fun i hi hir hc => hex ⟨i, hi, hir, hc⟩, ?_⟩
    intro e e' hn hf
    exact hex ⟨e', hn.next, ((h.same e e' hn).2 hf).le_right, hn.value'⟩

include hsort in
theorem Plain.probe (hleft : 0 ≤ left) (hmax : addr < 0xFFFFFFFF#32)
    (h : Plain stabs type left right addr s) (hle : s.l ≤ s.r) :
    Plain stabs type left right addr (probe stabs type s) ∨
      Matched stabs type left right addr (probe stabs type s) ∨
      ∃ e e', Neighbours stabs type left right addr e e' ∧ MatchedFirst stabs type e e' left right ∧
        Overtaken stabs type left right addr e e' (probe stabs type s) := by
  have hlo := h.lo
  obtain ⟨mid, reads, hlm, hmr, hmid, -, ⟨hno, heq⟩ | ⟨m, hml, hmm, htype, hno, hcases⟩⟩ :=
    probe_cases stabs type hle
  all_goals replace hmid := hmid (by omega)
  · rw [heq]
    exact .inl (h.skip hmid hlm hmr hno _)
  have haddr := h.addr_eq
  obtain ⟨hval, heq⟩ | ⟨hval, heq⟩ | ⟨hval, heq⟩ := hcases
  · rw [heq]
    exact .inl (h.less hsort hmid hml hmm hmr htype hno (haddr ▸ hval) _)
  · rw [heq]
    exact .inl (h.more hsort hmid hml hmm hmr htype hno (haddr ▸ hval) _)
  · rw [heq]
    exact .inr (h.exact hsort hmax hmid hml hmm hmr htype hno (haddr ▸ hval) _)

include hsort in
/-- Behind an exact match, the stab of the match is the last one below `addr + 1`. -/
theorem eq_of_value_lt (hmax : addr < 0xFFFFFFFF#32) (he : InTable stabs type left right e)
    (hval : (stabs e).nValue = addr) (hm : InTable stabs type left right m) (hem : e ≤ m)
    (hlt : (stabs m).nValue < addr + 1) : m = e := by
  by_contra hne
  have := hsort e m he hm (by omega)
  bv_omega

include hsort in
theorem Matched.probe (hmax : addr < 0xFFFFFFFF#32)
    (h : Matched stabs type left right addr s) (hle : s.l ≤ s.r) :
    Matched stabs type left right addr (probe stabs type s) := by
  have hlo := h.lo
  have hhi := h.hi
  have hmem := h.mem
  have haddr := h.addr_eq
  obtain ⟨mid, reads, hlm, hmr, hmid, -, ⟨hno, heq⟩ | ⟨m, hml, hmm, htype, hno, hcases⟩⟩ :=
    probe_cases stabs type hle
  · rw [heq]
    refine ⟨haddr, h.right_eq, h.any, hmem,
      h.value, by dsimp only; omega, hhi, h.left_le, ?_, h.edge, h.apart, h.free⟩
    intro i hi hlt
    have := h.between i hi hlt
    by_contra hlt'
    exact hno i this (by dsimp only at hlt'; omega) hi.2.2
  have hm : InTable stabs type left right m := ⟨by have := hmem.1; omega, by omega, htype⟩
  obtain ⟨hval, heq⟩ | ⟨hval, heq⟩ | ⟨hval, heq⟩ := hcases
  · obtain rfl : m = s.left :=
      eq_of_value_lt hsort hmax hmem h.value hm (by omega) (haddr ▸ hval)
    rw [heq]
    refine ⟨haddr, h.right_eq, rfl, hmem, h.value, by dsimp only; omega, hhi, h.left_le, ?_, h.edge,
      h.apart, h.free⟩
    intro i hi hlt
    by_contra hlt'
    exact hno i hlt (by dsimp only at hlt'; omega) hi.2.2
  · have hne : s.left ≠ m := by
      rintro heq'
      have := h.value
      rw [heq'] at this
      bv_omega
    rw [heq]
    refine ⟨haddr, rfl, rfl, hmem, h.value,
      hlo, by dsimp only; omega, by dsimp only; omega, h.between,
      .inr (by rwa [Int.sub_add_cancel]), fun i hi hir =>
      h.apart i hi (by dsimp only at hir; omega), h.free⟩
  · exact absurd (haddr ▸ hval) (h.apart m hm (by omega))

include hsort in
theorem Overtaken.probe (hmax : addr < 0xFFFFFFFF#32)
    (hn : Neighbours stabs type left right addr e e')
    (h : Overtaken stabs type left right addr e e' s) :
    Overtaken stabs type left right addr e e' (probe stabs type s) ∨
      addr ≠ 0xFFFFFFFE#32 ∧ Lost addr e' (probe stabs type s) ∨
      addr = 0xFFFFFFFE#32 ∧ Wrapped right e' (probe stabs type s) := by
  have hlo := h.lo
  have hhi := h.hi
  have hle' := h.le
  have hhi' := h.hi'
  have hlt := hn.lt
  have he := hn.here.1
  have haddr := h.addr_eq
  obtain ⟨mid, reads, hlm, hmr, hmid, -, ⟨hno, heq⟩ | ⟨m, hml, hmm, htype, hno, hcases⟩⟩ :=
    probe_cases stabs type (hle'.trans hhi)
  · have hmid' : mid < e' := by
      by_contra hge
      exact hno e' hle' (not_lt.1 hge) hn.next.2.2
    rw [heq]
    exact .inl ⟨haddr, h.right_eq, h.any, by dsimp only; omega, by dsimp only; omega, hhi, hhi'⟩
  have hm : InTable stabs type left right m := ⟨by omega, by omega, htype⟩
  obtain ⟨hval, heq⟩ | ⟨hval, heq⟩ | ⟨hval, heq⟩ := hcases
  · obtain rfl : m = e :=
      eq_of_value_lt hsort hmax hn.here hn.value hm (by omega) (haddr ▸ hval)
    have hmid' : mid < e' := by
      by_contra hge
      exact hno e' hlt (not_lt.1 hge) hn.next.2.2
    rw [heq]
    exact .inl ⟨haddr, h.right_eq, rfl, by dsimp only; omega, by dsimp only; omega, hhi, hhi'⟩
  · have hge : e' < m := by
      have hval' := hn.value'
      rcases lt_or_ge e' m with hlt' | hge
      · exact hlt'
      · rcases hge.lt_or_eq with hlt' | rfl
        · have := hsort m e' hm hn.next hlt'
          bv_omega
        · bv_omega
    rw [heq]
    exact .inl ⟨haddr, rfl, rfl, hlo, hle', by dsimp only; omega, by dsimp only; omega⟩
  · obtain rfl : m = e' := by
      have hval' := hn.value'
      refine le_antisymm (hm.le_of_value hsort hn.next ?_)
        (hn.next.le_of_value hsort hm ?_) <;> bv_omega
    rw [heq]
    by_cases hlast : addr = 0xFFFFFFFE#32
    · refine .inr (.inr ⟨hlast, h.right_eq, hhi', rfl, rfl, rfl, .inl ⟨hhi, ?_⟩⟩)
      rw [haddr, hlast]
      rfl
    · refine .inr (.inl ⟨hlast, h.right_eq, rfl, le_rfl, le_rfl, hhi, fun _ => ?_⟩)
      rw [haddr]
      bv_omega

theorem Lost.probe (hmax : addr < 0xFFFFFFFE#32)
    (hn : Neighbours stabs type left right addr e e') (h : Lost addr e' s) (hle : s.l ≤ s.r) :
    Lost addr e' (probe stabs type s) := by
  have hlo := h.lo
  have hhi := h.hi
  have hlt := hn.lt
  have he := hn.here.1
  have hval' := hn.value'
  obtain ⟨mid, reads, hlm, hmr, hmid, -, ⟨hno, heq⟩ | ⟨m, hml, hmm, htype, hno, hcases⟩⟩ :=
    probe_cases stabs type hle
  · rw [heq]
    exact ⟨h.right_eq, h.any,
      h.left_ge, by dsimp only; omega, hhi, fun hc => by dsimp only at hc; omega⟩
  -- At the neighbour itself the address is now above its own.
  have hown : m = e' → (stabs m).nValue < s.addr := by
    rintro rfl
    have := h.addr_eq (le_antisymm hml hlo)
    bv_omega
  obtain ⟨hval, heq⟩ | ⟨hval, heq⟩ | ⟨hval, heq⟩ := hcases
  · rw [heq]
    exact ⟨h.right_eq, rfl, by dsimp only; omega, by dsimp only; omega, hhi,
      fun hc => by dsimp only at hc; omega⟩
  · have hne : m ≠ e' := fun hc => by
      have := hown hc
      bv_omega
    rw [heq]
    exact ⟨rfl, rfl, h.left_ge, hlo, by dsimp only; omega, h.addr_eq⟩
  · have hne : m ≠ e' := fun hc => by
      have := hown hc
      bv_omega
    rw [heq]
    exact ⟨h.right_eq, rfl, by dsimp only; omega, by dsimp only; omega, hhi,
      fun hc => absurd hc hne⟩

include hsort in
theorem Wrapped.probe (hlast : addr = 0xFFFFFFFE#32)
    (hn : Neighbours stabs type left right addr e e') (h : Wrapped right e' s) (hle : s.l ≤ s.r) :
    Wrapped right e' (probe stabs type s) := by
  have hhi' := h.hi'
  have hl := h.l_eq
  have hlt := hn.lt
  have he := hn.here.1
  have hval' := hn.value'
  obtain ⟨hhi, haddr⟩ : e' ≤ s.r ∧ s.addr = 0 := h.hi.resolve_right (by omega)
  obtain ⟨mid, reads, hlm, hmr, hmid, -, ⟨hno, heq⟩ | ⟨m, hml, hmm, htype, hno, hcases⟩⟩ :=
    probe_cases stabs type hle
  · exact absurd hn.next.2.2 (hno e' hl.le (by omega))
  obtain rfl : m = e' := by
    -- No stab is above the last address.
    have hm : InTable stabs type left right m := ⟨by omega, by omega, htype⟩
    refine le_antisymm (hm.le_of_value hsort hn.next ?_) (by omega)
    bv_omega
  obtain ⟨hval, heq⟩ | ⟨hval, heq⟩ | ⟨hval, heq⟩ := hcases
  · bv_omega
  · rw [heq]
    exact ⟨rfl, by dsimp only; omega, rfl, h.left_eq, hl, .inr rfl⟩
  · bv_omega

/-- Where the search is. -/
def SearchPhase (stabs : Int → Stab) (type left right : Int) (addr : Word) (s : Search) : Prop :=
  Plain stabs type left right addr s ∨ Matched stabs type left right addr s ∨
    ∃ e e', Neighbours stabs type left right addr e e' ∧ MatchedFirst stabs type e e' left right ∧
      (Overtaken stabs type left right addr e e' s ∨ addr ≠ 0xFFFFFFFE#32 ∧ Lost addr e' s ∨
        addr = 0xFFFFFFFE#32 ∧ Wrapped right e' s)

include hsort in
/-- **What a probe does in a sorted table.** -/
theorem SearchPhase.probe (hleft : 0 ≤ left) (hmax : addr < 0xFFFFFFFF#32)
    (h : SearchPhase stabs type left right addr s) (hle : s.l ≤ s.r) :
    SearchPhase stabs type left right addr (probe stabs type s) := by
  obtain h | h | ⟨e, e', hn, hf, h | ⟨hne, h⟩ | ⟨hlast, h⟩⟩ := h
  · refine (h.probe hsort hleft hmax hle).imp id (Or.imp id ?_)
    rintro ⟨e, e', hn, hf, h'⟩
    exact ⟨e, e', hn, hf, .inl h'⟩
  · exact .inr (.inl (h.probe hsort hmax hle))
  · exact .inr (.inr ⟨e, e', hn, hf, h.probe hsort hmax hn⟩)
  · have hlt : addr < 0xFFFFFFFE#32 := by bv_omega
    exact .inr (.inr ⟨e, e', hn, hf, .inr (.inl ⟨hne, h.probe hlt hn hle⟩)⟩)
  · exact .inr (.inr ⟨e, e', hn, hf, .inr (.inr ⟨hlast, h.probe hsort hlast hn hle⟩)⟩)

theorem SearchPhase.init (hle : left ≤ right + 1) :
    SearchPhase stabs type left right addr ⟨left, right, addr, left, right, false, []⟩ := by
  refine .inl ⟨rfl, rfl, le_rfl, le_rfl, hle, fun i hi h => ?_, fun i hi h => ?_, .inl rfl,
    .inl ⟨rfl, fun i hi => hi.1⟩, ?_, fun e e' _ => Iff.rfl⟩
  · exact absurd h (not_lt.2 hi.1)
  · exact absurd h (not_lt.2 hi.2.1)
  · refine ⟨fun h => absurd h Bool.false_ne_true, ?_⟩
    rintro ⟨i, hi, h⟩
    have := hi.1
    have := hi.2.1
    dsimp only at h
    omega

theorem Neighbours.last (hsort : Increasing stabs type left right)
    (hn : Neighbours stabs type left right addr e e') : LastBelow stabs type left right addr e := by
  refine ⟨hn.here, ?_, fun i hi hle => hi.le_of_value hsort hn.here (hn.value ▸ hle)⟩
  rw [hn.value]
  exact BitVec.le_refl addr

theorem LastBelow.unique (h : LastBelow stabs type left right addr e)
    (h' : LastBelow stabs type left right addr e') : e = e' :=
  le_antisymm (h'.last e h.mem h.le) (h.last e' h'.mem h'.le)

theorem LastBelow.findsRegion (h : LastBelow stabs type left right addr e) (her : e ≤ r)
    (hno : ∀ i, InTable stabs type left right i → e < i → r < i)
    (hedge : r = right ∨ InTable stabs type left right (r + 1)) :
    FindsRegion stabs type left right addr e r := by
  refine ⟨fun e' h' => h.unique h', fun e' j h' hj hlt hnext => ?_, fun e' h' hall => ?_,
    fun hnone => absurd h.le (hnone e h.mem)⟩
  · obtain rfl := h.unique h'
    have hrj := hno j hj hlt
    rcases hedge with rfl | hedge
    · exact absurd hj.2.1 (not_le.2 hrj)
    · have := hnext (r + 1) hedge (by omega)
      omega
  · obtain rfl := h.unique h'
    rcases hedge with hr | hedge
    · exact hr
    · have := hall (r + 1) hedge
      omega

theorem Plain.finish (h : Plain stabs type left right addr s) (hend : s.r < s.l) :
    ∃ left' right' reads, s.finish stabs type = (left', right', reads) ∧
      (FindsRegion stabs type left right addr left' right' ↔
        SearchFits stabs type left right addr) := by
  have hout : ∀ i, InTable stabs type left right i → i < s.l ∨ s.r < i := fun i _ => by omega
  cases hany : s.anyMatches with
  | false =>
    -- The type does not occur.
    have hno : ∀ i, ¬ InTable stabs type left right i := fun i hi => by
      have := h.any.2 ⟨i, hi, hout i hi⟩
      simp [hany] at this
    refine ⟨s.left, s.left - 1, s.reads, by simp [Search.finish, hany], iff_of_true ?_ (.inl hno)⟩
    exact ⟨fun e he => absurd he.mem (hno e), fun e _ he => absurd he.mem (hno e),
      fun e he => absurd he.mem (hno e), fun _ => by omega⟩
  | true =>
    rcases h.last with ⟨hleft, hall⟩ | ⟨hmem, hlt, hall⟩
    · -- All stabs of the type are above the address.
      have habove : ∀ i, InTable stabs type left right i → ¬ (stabs i).nValue ≤ addr :=
        fun i hi => by
        have hl := hall i hi
        have := h.above i hi (by omega)
        bv_omega
      obtain ⟨k, reads, hfin, hk, -⟩ := finish_bounds stabs type hany
      refine ⟨k, s.right, reads, hfin, iff_of_false (fun hf => ?_) ?_⟩
      · have := hf.none habove
        omega
      · rintro (hno | ⟨⟨i, hi, hle⟩, -⟩)
        · obtain ⟨i, hi, -⟩ := h.any.1 hany
          exact hno i hi
        · exact habove i hi hle
    · have hlast : LastBelow stabs type left right addr s.left := by
        have hval := h.below s.left hmem hlt
        refine ⟨hmem, BitVec.le_of_lt hval, fun i hi hle => ?_⟩
        by_contra hgt
        have hl := hall i hi (not_le.1 hgt)
        have := h.above i hi (by omega)
        bv_omega
      have hgap := h.gap
      have hright := h.right_eq
      have hno : ∀ i, InTable stabs type left right i → s.left < i → s.right < i :=
        fun i hi hgt => by
        have := hall i hi hgt
        omega
      have hle : s.left ≤ s.right := by omega
      obtain ⟨reads, hfin⟩ := finish_eq stabs type hany hle fun i hgt hir htype => by
        have hlo := hmem.1
        have hhi := h.hi
        have := hno i ⟨by omega, by omega, htype⟩ hgt
        omega
      refine ⟨s.left, s.right, reads, hfin,
        iff_of_true (hlast.findsRegion hle hno (hright ▸ h.edge))
        (.inr ⟨⟨s.left, hmem, hlast.le⟩, ?_⟩)⟩
      intro e e' hn
      have := h.mem_interval hn
      omega

include hsort in
theorem Matched.finish (h : Matched stabs type left right addr s) (hend : s.r < s.l) :
    ∃ left' right' reads, s.finish stabs type = (left', right', reads) ∧
      (FindsRegion stabs type left right addr left' right' ↔
        SearchFits stabs type left right addr) := by
  have hmem := h.mem
  have hright := h.right_eq
  have hle : s.left ≤ s.right := hright ▸ h.left_le
  have hlast : LastBelow stabs type left right addr s.left := by
    refine ⟨hmem, ?_, fun i hi hle => hi.le_of_value hsort hmem (h.value ▸ hle)⟩
    rw [h.value]
    exact BitVec.le_refl addr
  have hno : ∀ i, InTable stabs type left right i → s.left < i → s.right < i := fun i hi hgt => by
    have := h.between i hi hgt
    omega
  obtain ⟨reads, hfin⟩ := finish_eq stabs type h.any hle fun i hgt hir htype => by
    have hlo := hmem.1
    have hhi := h.hi
    have := hno i ⟨by omega, by omega, htype⟩ hgt
    omega
  refine ⟨s.left, s.right, reads, hfin,
    iff_of_true (hlast.findsRegion hle hno (hright ▸ h.edge)) (.inr ⟨⟨s.left, hmem, hlast.le⟩, ?_⟩)⟩
  intro e e' hn hf
  exact absurd hf (h.free e e' hn)

include hsort in
theorem Lost.finish (hne : addr ≠ 0xFFFFFFFE#32) (hn : Neighbours stabs type left right addr e e')
    (hf : MatchedFirst stabs type e e' left right) (h : Lost addr e' s) :
    ∃ left' right' reads, s.finish stabs type = (left', right', reads) ∧
      (FindsRegion stabs type left right addr left' right' ↔
        SearchFits stabs type left right addr) := by
  obtain ⟨k, reads, hfin, hk, hk'⟩ := finish_bounds stabs type h.any
  refine ⟨k, s.right, reads, hfin, iff_of_false (fun hfinds => ?_) ?_⟩
  · have hke := hfinds.found e (hn.last hsort)
    have hlt := hn.lt
    have hleft := h.left_ge
    have hright := h.right_eq
    have hhi := h.hi
    omega
  · rintro (hno | ⟨-, hfits⟩)
    · exact hno e hn.here
    · exact hne (hfits e e' hn hf).1

include hsort in
theorem Wrapped.finish (hlast : addr = 0xFFFFFFFE#32)
    (hn : Neighbours stabs type left right addr e e')
    (hf : MatchedFirst stabs type e e' left right) (h : Wrapped right e' s) (hend : s.r < s.l) :
    ∃ left' right' reads, s.finish stabs type = (left', right', reads) ∧
      (FindsRegion stabs type left right addr left' right' ↔
        SearchFits stabs type left right addr) := by
  have hl := h.l_eq
  have hr : s.r = e' - 1 := h.hi.resolve_left (by omega)
  have hright := h.right_eq
  have hleft := h.left_eq
  have hlt := hn.lt
  obtain ⟨k, reads, hfin, hk, hk'⟩ := finish_bounds stabs type h.any
  have hke : k = e' - 1 := by omega
  refine ⟨k, s.right, reads, hfin, ?_⟩
  constructor
  · intro hfinds
    have hke' := hfinds.found e (hn.last hsort)
    refine .inr ⟨⟨e, hn.here, (hn.last hsort).le⟩, fun x x' hx _ => ⟨hlast, ?_⟩⟩
    obtain rfl := (hx.last hsort).unique (hn.last hsort)
    obtain rfl : x' = e' := by
      have hv := hx.value'
      have hv' := hn.value'
      refine le_antisymm (hx.next.le_of_value hsort hn.next ?_)
        (hn.next.le_of_value hsort hx.next ?_) <;>
        bv_omega
    omega
  · rintro (hno | ⟨-, hfits⟩)
    · exact absurd hn.here (hno e)
    · obtain ⟨-, hnext⟩ := hfits e e' hn hf
      obtain rfl : k = e := by omega
      refine (hn.last hsort).findsRegion (by omega) (fun i hi hgt => by omega) (.inr ?_)
      rw [hright, hr, Int.sub_add_cancel]
      exact hn.next

end sorted

variable {left right : Int} {addr : Word}

/-- **`stab_binsearch` in a sorted table finds the region exactly in the cases of `SearchFits`.** -/
theorem stab_binsearch_finds_iff (hleft : 0 ≤ left) (hle : left ≤ right + 1)
    (hmax : addr < 0xFFFFFFFF#32) (hsort : Increasing stabs type left right) :
    ∃ left' right' reads, stabBinsearch stabs left right type addr = some (left', right', reads) ∧
      (FindsRegion stabs type left right addr left' right' ↔
        SearchFits stabs type left right addr) := by
  obtain ⟨s, hrun, hphase, hend⟩ :=
    searchLoop_ok (P := SearchPhase stabs type left right addr)
      (fun s hs hsr => hs.probe hsort hleft hmax hsr) _ _ (SearchPhase.init hle)
      (size_init stabs type left right addr)
  have hresult : ∃ left' right' reads, s.finish stabs type = (left', right', reads) ∧
      (FindsRegion stabs type left right addr left' right' ↔
        SearchFits stabs type left right addr) := by
    obtain h | h | ⟨e, e', hn, hf, h | ⟨hne, h⟩ | ⟨hlast, h⟩⟩ := hphase
    · exact h.finish hend
    · exact h.finish hsort hend
    · exact absurd (h.le.trans h.hi) (not_le.2 hend)
    · exact h.finish hsort hne hn hf
    · exact h.finish hsort hlast hn hf hend
  obtain ⟨left', right', reads, hfin, hiff⟩ := hresult
  exact ⟨left', right', reads, by rw [stabBinsearch, hrun, Option.map_some, hfin], hiff⟩

/-- Five stabs: three of type 36 at the given addresses, with others in between. -/
def fiveStabs (a b c : Word) (i : Int) : Stab :=
  { nStrx := 1, nDesc := 0
    nType := if i = 0 ∨ i = 2 ∨ i = 4 then 36 else 68
    nValue := if i = 0 then a else if i = 2 then b else c }

theorem fiveStabs_increasing {a b c : Word} (hab : a < b) (hbc : b < c) :
    Increasing (fiveStabs a b c) 36 0 4 := by
  have hodd : ∀ i, InTable (fiveStabs a b c) 36 0 4 i → i = 0 ∨ i = 2 ∨ i = 4 := by
    rintro i ⟨-, -, htype⟩
    by_contra hno
    simp [HasType, fiveStabs, hno] at htype
  intro i j hi hj hij
  rcases hodd i hi with rfl | rfl | rfl <;> rcases hodd j hj with rfl | rfl | rfl <;>
    first | omega | exact hab | exact hbc | exact BitVec.lt_trans hab hbc

theorem stab_binsearch_finds_five : ∃ left' right' reads,
    stabBinsearch (fiveStabs 10#32 20#32 30#32) 0 4 36 25#32 = some (left', right', reads) ∧
      (FindsRegion (fiveStabs 10#32 20#32 30#32) 36 0 4 25#32 left' right' ↔
        SearchFits (fiveStabs 10#32 20#32 30#32) 36 0 4 25#32) :=
  stab_binsearch_finds_iff (by decide) (by decide) (by decide)
    (fiveStabs_increasing (by decide) (by decide))

/-- With stabs at 20 and 21, the search for 20 ends at 21. With none below the address it gives a
region too. -/
theorem stab_binsearch_misses :
    Increasing (fiveStabs 10#32 20#32 21#32) 36 0 4 ∧
      stabBinsearch (fiveStabs 10#32 20#32 21#32) 0 4 36 20#32 = some (4, 4, [2, 3, 2, 4, 4]) ∧
      ¬ FindsRegion (fiveStabs 10#32 20#32 21#32) 36 0 4 20#32 4 4 ∧
      stabBinsearch (fiveStabs 10#32 20#32 21#32) 0 4 36 5#32 = some (-1, -1, [2, 0]) := by
  have hsort : Increasing (fiveStabs 10#32 20#32 21#32) 36 0 4 :=
    fiveStabs_increasing (by decide) (by decide)
  refine ⟨hsort, by decide, fun h => ?_, by decide⟩
  have hn : Neighbours (fiveStabs 10#32 20#32 21#32) 36 0 4 20#32 2 4 :=
    ⟨⟨by decide, by decide, by decide⟩, ⟨by decide, by decide, by decide⟩, by decide, rfl, rfl⟩
  exact absurd (h.found 2 (hn.last hsort)) (by decide)

end Jos
