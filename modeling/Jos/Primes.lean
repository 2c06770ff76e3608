import Mathlib.NumberTheory.Chebyshev
import Jos.UserIpc

/-!
# The concurrent prime sieve

`user/primes.c` is the sieve of Eratosthenes as a chain of environments. The first feeds all
integers from 2 on; each of the others takes its first number for its prime, prints it, forks its
right neighbor, and passes on what its prime does not divide. This file proves that, on the machine
with all its CPUs and interrupts, it prints the primes, in order.

**The chain** (`Stages`). Stage `b` has prime number `b`, counted from 0. It has got the numbers
below some `low` that no earlier stage filters out (`Sieved`), and no others. A stage that is about
to send `i` stands between its neighbors: its right neighbor has got the numbers below `i` only.

**Why no integer overflows.** The first process would come to `INT_MAX`, but a prime leaves the
chain only as the prime of a stage, and a stage holds back at most one more. There are at most 1015
stages (`Few`), so at most 2030 primes are below the number that is fed next, and it is at most `2 ^
30` by Chebyshev's bound.

**Theorem (`primes_prints_primes`).** What has been printed is always the first primes, and at most
1015 of them: the comment in the source says 1022, for a machine with one idle environment.
-/

namespace Jos

open Lib

/-! ## The program -/

/-- Where a process is: in `umain` before `fork`, in the loop of `umain`, at the label `top`, at
`cprintf`, at `fork`, in `ipc_recv` of the second loop, and in its `ipc_send`. -/
inductive PrimesPc
  | umain
  | feed (id i : Word)
  | top
  | cprintf (p : Word)
  | fork (p : Word)
  | filter (id p : Word)
  | send (id p i : Word)

/-- `umain` and `primeproc`. -/
def primes : Program PrimesPc Word
  | .umain => .fork (fun id => .feed id 2#32) .top
  | .feed id i => .send id i (.feed id (i + 1#32))
  | .top => .recv .cprintf
  | .cprintf p => .print p (.fork p)
  | .fork p => .fork (fun id => .filter id p) .top
  | .filter id p => .recv fun i => if i.srem p ≠ 0 then .send id p i else .filter id p
  | .send id p i => .send id i (.filter id p)

/-! ## Filters -/

/-- The numbers that come to stage `b`. -/
def Sieved (b v : Nat) : Prop := 2 ≤ v ∧ ∀ j < b, ¬ Nat.nth Nat.Prime j ∣ v

variable {b low v w m : Nat}

theorem sieved_succ : Sieved (b + 1) v ↔ Sieved b v ∧ ¬ Nat.nth Nat.Prime b ∣ v := by
  constructor
  · rintro ⟨hv, h⟩
    exact ⟨⟨hv, fun j hj => h j (hj.trans b.lt_succ_self)⟩, h b b.lt_succ_self⟩
  · rintro ⟨⟨hv, h⟩, hb⟩
    refine ⟨hv, fun j hj => ?_⟩
    rcases Nat.lt_succ_iff_lt_or_eq.1 hj with hj | rfl
    · exact h j hj
    · exact hb

/-- The first number that comes to a stage is its prime. -/
theorem Sieved.nth_le (h : Sieved b v) : Nat.nth Nat.Prime b ≤ v := by
  have hprime : v.minFac.Prime := Nat.minFac_prime (by have := h.1; omega)
  have hnth : Nat.nth Nat.Prime (Nat.count Nat.Prime v.minFac) = v.minFac := Nat.nth_count hprime
  have hb : b ≤ Nat.count Nat.Prime v.minFac := by
    by_contra hlt
    apply h.2 _ (not_le.1 hlt)
    rw [hnth]
    exact v.minFac_dvd
  calc
    Nat.nth Nat.Prime b ≤ Nat.nth Nat.Prime (Nat.count Nat.Prime v.minFac) :=
      Nat.nth_monotone Nat.infinite_setOfPred_prime hb
    _ = v.minFac := hnth
    _ ≤ v := Nat.minFac_le (by have := h.1; omega)

theorem sieved_nth (b : Nat) : Sieved b (Nat.nth Nat.Prime b) := by
  refine ⟨(Nat.prime_nth_prime b).two_le, fun j hj hdvd => ?_⟩
  have heq := (Nat.prime_dvd_prime_iff_eq (Nat.prime_nth_prime j) (Nat.prime_nth_prime b)).1 hdvd
  exact absurd (Nat.nth_injective Nat.infinite_setOfPred_prime heq) hj.ne

/-- A prime that a filter stops is the filter's. -/
theorem Sieved.prime (h : Sieved b v) (hv : v.Prime) :
    v = Nat.nth Nat.Prime b ∨ Sieved (b + 1) v := by
  by_cases hdvd : Nat.nth Nat.Prime b ∣ v
  · exact .inl ((Nat.prime_dvd_prime_iff_eq (Nat.prime_nth_prime b) hv).1 hdvd).symm
  · exact .inr (sieved_succ.2 ⟨h, hdvd⟩)

/-- Of the numbers below `low`, stage `b` has got `v` last. -/
structure LastGot (b v low : Nat) : Prop where
  lt : v < low
  last : ∀ w, Sieved b w → v < w → low ≤ w

/-- The C operator `%` on numbers that are not negative. -/
theorem srem_eq_zero_iff {i p : Word} (hi : i.toNat < 2 ^ 31) (hp : p.toNat < 2 ^ 31) :
    i.srem p = 0 ↔ p.toNat ∣ i.toNat := by
  have hpos : ∀ {x : Word}, x.toNat < 2 ^ 31 → x.msb = false :=
    fun hx => BitVec.msb_eq_false_iff_two_mul_lt.2 (by omega)
  rw [BitVec.srem_eq, hpos hi, hpos hp, Nat.dvd_iff_mod_eq_zero, ← BitVec.toNat_umod]
  exact BitVec.toNat_inj.symm

/-! ## The chain -/

/-- The chain from stage `b` on, which has got the numbers below `low`; `m` primes have been
printed. -/
inductive Stages (procs : Word → Option (Proc PrimesPc)) (m : Nat) : Nat → Nat → List Word → Prop
  | top {b low : Nat} {e : Word} (he : procs e = some (.run .top)) (hm : m = b)
      (hlow : ∀ v, Sieved b v → low ≤ v) : Stages procs m b low [e]
  | cprintf {b low : Nat} {e p : Word} (he : procs e = some (.run (.cprintf p))) (hm : m = b)
      (hp : p.toNat = Nat.nth Nat.Prime b) (hlast : LastGot b (Nat.nth Nat.Prime b) low) :
      Stages procs m b low [e]
  | fork {b low : Nat} {e p : Word} (he : procs e = some (.run (.fork p))) (hm : m = b + 1)
      (hp : p.toNat = Nat.nth Nat.Prime b) (hlast : LastGot b (Nat.nth Nat.Prime b) low) :
      Stages procs m b low [e]
  | dead {b low : Nat} {e : Word} (he : procs e = some .dead) (hm : m = b + 1)
      (hlast : LastGot b (Nat.nth Nat.Prime b) low) : Stages procs m b low [e]
  | filter {b low : Nat} {e id p : Word} {rest : List Word}
      (he : procs e = some (.run (.filter id p))) (hp : p.toNat = Nat.nth Nat.Prime b)
      (hrest : Stages procs m (b + 1) low (id :: rest)) :
      Stages procs m b low (e :: id :: rest)
  | send {b low : Nat} {e id p i : Word} {rest : List Word}
      (he : procs e = some (.run (.send id p i))) (hp : p.toNat = Nat.nth Nat.Prime b)
      (hi : Sieved (b + 1) i.toNat) (hlast : LastGot b i.toNat low)
      (hrest : Stages procs m (b + 1) i.toNat (id :: rest)) : Stages procs m b low (e :: id :: rest)

variable {procs procs' : Word → Option (Proc PrimesPc)} {e i j p : Word} {ids rest : List Word}

theorem Stages.live (h : Stages procs m b low ids) : ∀ e ∈ ids, procs e ≠ none := by
  induction h with
  | top he | cprintf he | fork he | dead he =>
    intro x hx
    rw [List.mem_singleton.1 hx, he]
    exact Option.some_ne_none _
  | filter he _ _ ih | send he _ _ _ _ ih =>
    intro x hx
    rcases List.mem_cons.1 hx with rfl | hx
    · rw [he]
      exact Option.some_ne_none _
    · exact ih x hx

theorem Stages.congr (h : Stages procs m b low ids) (hsame : ∀ e ∈ ids, procs' e = procs e) :
    Stages procs' m b low ids := by
  induction h with
  | top he hm hlow => exact .top ((hsame _ (by simp)).trans he) hm hlow
  | cprintf he hm hp hlast => exact .cprintf ((hsame _ (by simp)).trans he) hm hp hlast
  | fork he hm hp hlast => exact .fork ((hsame _ (by simp)).trans he) hm hp hlast
  | dead he hm hlast => exact .dead ((hsame _ (by simp)).trans he) hm hlast
  | filter he hp _ ih =>
    exact .filter ((hsame _ (by simp)).trans he) hp
      (ih fun e he => hsame e (List.mem_cons_of_mem _ he))
  | send he hp hi hlast _ ih =>
    exact .send ((hsame _ (by simp)).trans he) hp hi hlast
      (ih fun e he => hsame e (List.mem_cons_of_mem _ he))

/-- Numbers that an earlier stage filters out do not matter. -/
theorem Stages.advance {low' : Nat} (h : Stages procs m b low ids) (hle : low ≤ low')
    (hnone : ∀ v, Sieved b v → low ≤ v → low' ≤ v) : Stages procs m b low' ids := by
  induction h generalizing low' with
  | top he hm hlow => exact .top he hm fun v hv => hnone v hv (hlow v hv)
  | cprintf he hm hp hlast =>
    exact .cprintf he hm hp
      ⟨hlast.lt.trans_le hle, fun w hw hlt => hnone w hw (hlast.last w hw hlt)⟩
  | fork he hm hp hlast =>
    exact .fork he hm hp ⟨hlast.lt.trans_le hle, fun w hw hlt => hnone w hw (hlast.last w hw hlt)⟩
  | dead he hm hlast =>
    exact .dead he hm ⟨hlast.lt.trans_le hle, fun w hw hlt => hnone w hw (hlast.last w hw hlt)⟩
  | filter he hp _ ih =>
    exact .filter he hp (ih hle fun v hv hlow => hnone v (sieved_succ.1 hv).1 hlow)
  | send he hp hi hlast hrest =>
    exact .send he hp hi
      ⟨hlast.lt.trans_le hle, fun w hw hlt => hnone w hw (hlast.last w hw hlt)⟩ hrest

/-- **A stage in the chain.** What comes before it stays when it and what comes after it change. -/
theorem Stages.split (h : Stages procs m b low ids) (hi : i ∈ ids) :
    ∃ (pre post : List Word) (b' low' : Nat), ids = pre ++ i :: post ∧ low' ≤ low ∧
      Stages procs m b' low' (i :: post) ∧ ∀ procs' m' post', (∀ e ∈ pre, procs' e = procs e) →
        Stages procs' m' b' low' (i :: post') → Stages procs' m' b low (pre ++ i :: post') := by
  -- the stage is the head
  have hhead : ∀ {b low e rest}, Stages procs m b low (e :: rest) → i = e →
      ∃ (pre post : List Word) (b' low' : Nat), e :: rest = pre ++ i :: post ∧ low' ≤ low ∧
        Stages procs m b' low' (i :: post) ∧ ∀ procs' m' post', (∀ e ∈ pre, procs' e = procs e) →
          Stages procs' m' b' low' (i :: post') → Stages procs' m' b low (pre ++ i :: post') := by
    rintro b low e rest h rfl
    exact ⟨[], rest, b, low, rfl, le_rfl, h, fun procs' m' post' _ h' => h'⟩
  induction h with
  | top he hm hlow => exact hhead (.top he hm hlow) (List.mem_singleton.1 hi)
  | cprintf he hm hp hlast => exact hhead (.cprintf he hm hp hlast) (List.mem_singleton.1 hi)
  | fork he hm hp hlast => exact hhead (.fork he hm hp hlast) (List.mem_singleton.1 hi)
  | dead he hm hlast => exact hhead (.dead he hm hlast) (List.mem_singleton.1 hi)
  | @filter b low e id p rest he hp hrest ih =>
    rcases List.mem_cons.1 hi with rfl | hmem
    · exact hhead (.filter he hp hrest) rfl
    obtain ⟨pre, post, b', low', hids, hle, hat, hback⟩ := ih hmem
    refine ⟨e :: pre, post, b',
      low', by rw [hids, List.cons_append], hle, hat, fun procs' m' post' hsame h' => ?_⟩
    have htail := hback procs' m' post' (fun x hx => hsame x (List.mem_cons_of_mem _ hx)) h'
    have he' := (hsame e (List.mem_cons_self ..)).trans he
    cases pre with
    | nil =>
      obtain rfl : id = i := (List.cons.inj hids).1
      exact .filter he' hp htail
    | cons x pre =>
      obtain rfl : id = x := (List.cons.inj hids).1
      exact .filter he' hp htail
  | @send b low e id p v rest he hp hv hlast hrest ih =>
    rcases List.mem_cons.1 hi with rfl | hmem
    · exact hhead (.send he hp hv hlast hrest) rfl
    obtain ⟨pre, post, b', low', hids, hle, hat, hback⟩ := ih hmem
    refine ⟨e :: pre, post, b', low', by rw [hids, List.cons_append], hle.trans hlast.lt.le, hat,
      fun procs' m' post' hsame h' => ?_⟩
    have htail := hback procs' m' post' (fun x hx => hsame x (List.mem_cons_of_mem _ hx)) h'
    have he' := (hsame e (List.mem_cons_self ..)).trans he
    cases pre with
    | nil =>
      obtain rfl : id = i := (List.cons.inj hids).1
      exact .send he' hp hv hlast htail
    | cons x pre =>
      obtain rfl : id = x := (List.cons.inj hids).1
      exact .send he' hp hv hlast htail

/-- **A number comes to a stage.** -/
theorem Stages.deliver {v : Word} {t : PrimesPc} {k : Word → PrimesPc}
    (h : Stages procs m b v.toNat (j :: rest)) (hv : Sieved b v.toNat) (hsmall : v.toNat < 2 ^ 31)
    (hj : procs j = some (.run t)) (ht : primes t = .recv k) (hself : procs' j = some (.run (k v)))
    (hother : ∀ e ∈ rest, procs' e = procs e) : Stages procs' m b (v.toNat + 1) (j :: rest) := by
  have hpc : ∀ {s}, procs j = some (.run s) → primes s = .recv k := by
    intro s hs
    rw [hj] at hs
    cases hs
    exact ht
  cases h with
  | top he hm hlow =>
    -- it is the prime of the stage
    cases hpc he
    have hprime : v.toNat = Nat.nth Nat.Prime b := le_antisymm (hlow _ (sieved_nth b)) hv.nth_le
    refine .cprintf hself hm hprime ⟨by omega, fun w _ hlt => ?_⟩
    rw [← hprime] at hlt
    exact hlt
  | cprintf he => cases hpc he
  | fork he => cases hpc he
  | dead he =>
    rw [hj] at he
    cases he
  | @filter _ _ _ id p rest he hp hrest =>
    cases hpc he
    have hrest' : Stages procs' m (b + 1) v.toNat (id :: rest) := hrest.congr hother
    have hdvd : v.srem p = 0 ↔ Nat.nth Nat.Prime b ∣ v.toNat := by
      rw [← hp]
      apply srem_eq_zero_iff hsmall
      have := hv.nth_le
      omega
    have hgo : procs' j = some (.run (if v.srem p ≠ 0 then .send id p v else .filter id p)) := hself
    by_cases hz : v.srem p = 0
    · rw [if_neg (not_not.2 hz)] at hgo
      refine .filter hgo hp (hrest'.advance (Nat.le_succ _) fun w hw hle => ?_)
      refine lt_of_le_of_ne hle ?_
      rintro rfl
      exact (sieved_succ.1 hw).2 (hdvd.1 hz)
    · rw [if_pos hz] at hgo
      have hv' : Sieved (b + 1) v.toNat := sieved_succ.2 ⟨hv, fun hc => hz (hdvd.2 hc)⟩
      exact .send hgo hp hv' ⟨Nat.lt_succ_self _, fun w _ hlt => hlt⟩ hrest'
  | send he => cases hpc he

theorem Stages.next {id p v : Word} (h : Stages procs m b low (i :: rest))
    (hi : procs i = some (.run (.send id p v))) : ∃ rest', rest = id :: rest' := by
  cases h with
  | send he =>
    rw [hi] at he
    cases he
    exact ⟨_, rfl⟩
  | top he | cprintf he | fork he | dead he | filter he =>
    rw [hi] at he
    cases he

/-- **A stage passes its number on.** -/
theorem Stages.sent {v p : Word} {t : PrimesPc} {k : Word → PrimesPc}
    (h : Stages procs m b low (i :: j :: rest)) (hsmall : low ≤ 2 ^ 31)
    (hi : procs i = some (.run (.send j p v))) (hj : procs j = some (.run t)) (ht : primes t =
      .recv k) (hi' : procs' i = some (.run (.filter j p))) (hj' : procs' j = some (.run (k v)))
    (hother : ∀ e ∈ rest, procs' e = procs e) : Stages procs' m b low (i :: j :: rest) := by
  cases h with
  | filter he =>
    rw [hi] at he
    cases he
  | send he hp hv hlast hrest =>
    rw [hi] at he
    cases he
    have hlt := hlast.lt
    have hrest' := hrest.deliver hv (by omega) hj ht hj' hother
    exact .filter hi' hp (hrest'.advance hlt fun w hw hle => hlast.last w (sieved_succ.1 hw).1 hle)

theorem Stages.not_first (h : Stages procs m b low ids) (he : e ∈ ids) :
    (∀ id i, procs e ≠ some (.run (.feed id i))) ∧ procs e ≠ some (.run .umain) := by
  induction h with
  | top hx | cprintf hx | fork hx | dead hx =>
    rw [List.mem_singleton.1 he, hx]
    simp
  | filter hx _ _ ih | send hx _ _ _ _ ih =>
    rcases List.mem_cons.1 he with rfl | he
    · rw [hx]
      simp
    · exact ih he

/-! ## How far the numbers go -/

noncomputable instance (b : Nat) : DecidablePred (Sieved b) := Classical.decPred _

/-- The primes below `low` that come to stage `b`. -/
noncomputable def primesAt (b low : Nat) : Finset Nat :=
  (Finset.range low).filter fun q => q.Prime ∧ Sieved b q

theorem mem_primesAt {q : Nat} : q ∈ primesAt b low ↔ q < low ∧ q.Prime ∧ Sieved b q := by
  unfold primesAt
  rw [Finset.mem_filter, Finset.mem_range]

theorem LastGot.card_le (h : LastGot b (Nat.nth Nat.Prime b) low) : (primesAt b low).card ≤ 1 := by
  rw [Finset.card_le_one_iff_subset_singleton]
  refine ⟨Nat.nth Nat.Prime b, fun q hq => ?_⟩
  obtain ⟨hlow, -, hs⟩ := mem_primesAt.1 hq
  rw [Finset.mem_singleton]
  by_contra hne
  exact absurd (h.last q hs (lt_of_le_of_ne hs.nth_le (Ne.symm hne))) (not_le.2 hlow)

/-- A prime is the prime of a stage, or a stage is about to send it. -/
theorem Stages.card_le (h : Stages procs m b low ids) : (primesAt b low).card ≤ 2 * ids.length := by
  induction h with
  | @top b low e he hm hlow =>
    have hempty : primesAt b low = ∅ := by
      refine Finset.eq_empty_of_forall_notMem fun q hq => ?_
      obtain ⟨hlt, -, hs⟩ := mem_primesAt.1 hq
      exact absurd (hlow q hs) (not_le.2 hlt)
    rw [hempty]
    exact Nat.zero_le _
  | cprintf _ _ _ h | fork _ _ _ h | dead _ _ h => exact h.card_le.trans one_le_two
  | @filter b low e id p rest he hp _ ih =>
    have hsub : primesAt b low ⊆ insert (Nat.nth Nat.Prime b) (primesAt (b + 1) low) := by
      intro q hq
      obtain ⟨hlow, hprime, hs⟩ := mem_primesAt.1 hq
      rw [Finset.mem_insert]
      exact (hs.prime hprime).imp_right fun hs' => mem_primesAt.2 ⟨hlow, hprime, hs'⟩
    have hcard := (Finset.card_le_card hsub).trans (Finset.card_insert_le _ _)
    simp only [List.length_cons] at ih ⊢
    omega
  | @send b low e id p i rest he hp hi hlast _ ih =>
    have hsub : primesAt b low ⊆ insert (Nat.nth Nat.Prime b)
      (insert i.toNat (primesAt (b + 1) i.toNat)) := by
      intro q hq
      obtain ⟨hlow, hprime, hs⟩ := mem_primesAt.1 hq
      rw [Finset.mem_insert, Finset.mem_insert]
      refine (hs.prime hprime).imp_right fun hs' => ?_
      have hle : q ≤ i.toNat := by
        by_contra hlt
        exact absurd (hlast.last q hs (not_le.1 hlt)) (not_le.2 hlow)
      rcases hle.lt_or_eq with hlt | heq
      · exact .inr (mem_primesAt.2 ⟨hlt, hprime, hs'⟩)
      · exact .inl heq
    have hcard := (Finset.card_le_card hsub).trans
      ((Finset.card_insert_le _ _).trans (Nat.succ_le_succ (Finset.card_insert_le _ _)))
    simp only [List.length_cons] at ih ⊢
    omega

/-- There are more primes than the processes can hold. -/
theorem primeCounting_big : 2030 < Nat.primeCounting (2 ^ 30) := by
  have hlog : 0 < Real.log 2 := Real.log_pos one_lt_two
  have hle := Chebyshev.pi_ge (2 ^ 30)
  have hcast : ((2 ^ 30 : ℕ) : ℝ) = 2 ^ 30 := by norm_num
  have hn : Real.log ((2 : ℝ) ^ 30) = 30 * Real.log 2 := by rw [Real.log_pow]; norm_num
  have hsucc : Real.log ((2 : ℝ) ^ 30 + 1) ≤ 31 * Real.log 2 := by
    rw [show (31 : ℝ) * Real.log 2 = Real.log (2 ^ 31) by rw [Real.log_pow]; norm_num]
    exact Real.log_le_log (by positivity) (by norm_num)
  rw [hcast, hn] at hle
  have hbound : (2030 : ℝ) < (2 ^ 30 * Real.log 2 - Real.log (2 ^ 30 + 1)) / (30 * Real.log 2) := by
    rw [lt_div_iff₀ (by positivity)]
    nlinarith
  exact_mod_cast hbound.trans_le hle

theorem Stages.low_le (h : Stages procs m 0 low ids) (hlen : ids.length ≤ 1015) : low ≤ 2 ^ 30 := by
  by_contra hlt
  have hsub : Nat.primesLE (2 ^ 30) ⊆ primesAt 0 low := by
    intro q hq
    obtain ⟨hle, hprime⟩ := Nat.mem_primesLE.1 hq
    exact mem_primesAt.2 ⟨by omega, hprime, hprime.two_le, fun j hj => (Nat.not_lt_zero j hj).elim⟩
  have hcard := (Finset.card_le_card hsub).trans h.card_le
  rw [Nat.primesLE_card_eq_primeCounting] at hcard
  have := primeCounting_big
  omega

/-! ## Steps of the network -/

/-- The first `m` primes. -/
noncomputable def firstPrimes (m : Nat) : List Word :=
  (List.range m).map fun j => BitVec.ofNat 32 (Nat.nth Nat.Prime j)

theorem firstPrimes_succ (hp : p.toNat = Nat.nth Nat.Prime m) :
    firstPrimes m ++ [p] = firstPrimes (m + 1) := by
  unfold firstPrimes
  rw [List.range_succ, List.map_append, List.map_singleton, ← hp, BitVec.ofNat_toNat,
    BitVec.setWidth_eq]

variable {n n' : Net Word Word PrimesPc} {x id : Word} {s : PrimesPc}

/-- There are at most 1016 processes. -/
def Few (n : Net Word Word PrimesPc) : Prop :=
  ∀ l : List Word, l.Nodup → (∀ e ∈ l, n.procs e ≠ none) → l.length ≤ 1016

/-- Process `e` feeds the chain `ids`, next with `i`, and `m` primes have been printed. -/
structure Feeding (n : Net Word Word PrimesPc) (e id i : Word) (ids : List Word)
    (m : Nat) : Prop where
  first : n.procs e = some (.run (.feed id i))
  head : ids.head? = some id
  nodup : (e :: ids).Nodup
  only : ∀ x, n.procs x ≠ none → x ∈ e :: ids
  two_le : 2 ≤ i.toNat
  printed : n.out = firstPrimes m
  stages : Stages n.procs m 0 i.toNat ids

/-- The invariant of the network. -/
inductive Sieving (n : Net Word Word PrimesPc) : Prop
  | umain {e : Word} (he : n.procs e = some (.run .umain) ∨ n.procs e = some .dead)
      (honly : ∀ x, n.procs x ≠ none → x = e) (hprinted : n.out = [])
  | feed {e id i : Word} {ids : List Word} {m : Nat} (h : Feeding n e id i ids m)

theorem Feeding.live (h : Feeding n e id i ids m) : ∀ x ∈ e :: ids, n.procs x ≠ none := by
  intro x hx
  rcases List.mem_cons.1 hx with rfl | hx
  · rw [h.first]
    exact Option.some_ne_none _
  · exact h.stages.live x hx

theorem Feeding.length_le (h : Feeding n e id i ids m) (hfew : Few n) : ids.length ≤ 1015 := by
  have hle := hfew (e :: ids) h.nodup h.live
  rw [List.length_cons] at hle
  omega

/-- **A process in the chain.** It and those after it may change, and a new one may join them. -/
theorem Feeding.at (h : Feeding n e id i ids m) (hx : n.procs x = some (.run s))
    (hs : ∀ id i, s ≠ .feed id i) :
    ∃ (pre post : List Word) (b low : Nat), low ≤ i.toNat ∧ Stages n.procs m b low (x :: post) ∧
    (x :: post).Nodup ∧
      (∀ y ∈ e :: pre, n.procs y ≠ none ∧ ∀ z ∈ x :: post, y ≠ z) ∧
      ∀ (n' : Net Word Word PrimesPc) (m' : Nat) (new : List Word),
      (∀ y ∈ e :: pre, n'.procs y = n.procs y) →
        Stages n'.procs m' b low (x :: (post ++ new)) → n'.out = firstPrimes m' → new.Nodup →
        (∀ y ∈ new, n.procs y = none) → (∀ y, n'.procs y ≠ none → y ∈ new ∨ n.procs y ≠ none) →
        Feeding n' e id i (pre ++ x :: (post ++ new)) m' := by
  have hxe : x ≠ e := by
    rintro rfl
    rw [h.first] at hx
    cases hx
    exact hs _ _ rfl
  have hxids : x ∈ ids := by
    refine (List.mem_cons.1 (h.only x ?_)).resolve_left hxe
    rw [hx]
    exact Option.some_ne_none _
  obtain ⟨pre, post, b, low, rfl, hle, hat, hback⟩ := h.stages.split hxids
  have hnodup := h.nodup
  rw [← List.cons_append, List.nodup_append] at hnodup
  obtain ⟨hpre, hpost, hdisj⟩ := hnodup
  refine ⟨pre, post, b, low, hle, hat, hpost, fun y hy => ⟨h.live y ?_, hdisj y hy⟩,
    fun n' m' new hsame hstages hprinted hnew hfresh honly => ?_⟩
  · rw [← List.cons_append]
    exact List.mem_append_left _ hy
  have hlist : e :: (pre ++ x :: (post ++ new)) = (e :: (pre ++ x :: post)) ++ new := by simp
  refine ⟨(hsame e (List.mem_cons_self ..)).trans h.first, ?_, ?_, fun y hy => ?_,
    h.two_le, hprinted, hback n'.procs m' (post ++ new)
    (fun y hy => hsame y (List.mem_cons_of_mem _ hy)) hstages⟩
  · rw [← h.head]
    cases pre <;> rfl
  · rw [hlist, List.nodup_append]
    refine ⟨h.nodup, hnew, fun y hy z hz heq => ?_⟩
    subst heq
    exact h.live y hy (hfresh y hz)
  · rw [hlist, List.mem_append]
    exact (honly y hy).symm.imp_left (h.only y)

theorem live_set {p q : Proc PrimesPc} (hx : n.procs x ≠ none) (hy : n.procs j ≠ none) (z : Word)
    (hz : ((n.set x p).set j q).procs z ≠ none) : n.procs z ≠ none := by
  by_cases hzj : z = j
  · rw [hzj]
    exact hy
  rw [Net.set_of_ne _ hzj] at hz
  by_cases hzx : z = x
  · rw [hzx]
    exact hx
  rwa [Net.set_of_ne _ hzx] at hz

theorem live_set_one {p : Proc PrimesPc} (hx : n.procs x ≠ none) (z : Word)
    (hz : (n.set x p).procs z ≠ none) :
    n.procs z ≠ none := by
  by_cases hzx : z = x
  · rw [hzx]
    exact hx
  rwa [Net.set_of_ne _ hzx] at hz

theorem Feeding.comm_feed {t : PrimesPc} {k : Word → PrimesPc} (h : Feeding n e id i ids m)
    (hfew : Few n) (hj : n.procs id = some (.run t)) (ht : primes t = .recv k) :
    Feeding ((n.set e (.run (.feed id (i + 1#32)))).set id (.run (k i))) e id (i + 1#32) ids m := by
  obtain ⟨rest, rfl⟩ := List.head?_eq_some_iff.1 h.head
  have hlow := h.stages.low_le (h.length_le hfew)
  obtain ⟨hfirst, hrest⟩ := List.nodup_cons.1 h.nodup
  have hne : e ≠ id := fun hc => hfirst (by rw [hc]; exact List.mem_cons_self ..)
  have hsucc : (i + 1#32).toNat = i.toNat + 1 := by
    have hone : (1#32 : Word).toNat = 1 := rfl
    rw [BitVec.toNat_add, hone, Nat.mod_eq_of_lt]
    omega
  have hsieved : Sieved 0 i.toNat := ⟨h.two_le, fun j hj => (Nat.not_lt_zero j hj).elim⟩
  refine ⟨?_, rfl, h.nodup, fun x hx => h.only x (live_set ?_ ?_ x hx), ?_, h.printed, ?_⟩
  · rw [Net.set_of_ne _ hne, Net.set_self]
  · rw [h.first]
    exact Option.some_ne_none _
  · rw [hj]
    exact Option.some_ne_none _
  · have := h.two_le
    omega
  · rw [hsucc]
    refine h.stages.deliver hsieved (by omega) hj ht (Net.set_self _ _ _) fun x hx => ?_
    rw [Net.set_of_ne _ (ne_of_mem_of_not_mem hx (List.nodup_cons.1 hrest).1),
      Net.set_of_ne _ (ne_of_mem_of_not_mem (List.mem_cons_of_mem _ hx) hfirst)]

theorem Feeding.comm_send {t : PrimesPc} {k : Word → PrimesPc} {v : Word}
    (h : Feeding n e id i ids m) (hfew : Few n) (hx : n.procs x = some (.run (.send j p v)))
    (hj : n.procs j = some (.run t)) (ht : primes t = .recv k) :
    ∃ ids', Feeding ((n.set x (.run (.filter j p))).set j (.run (k v))) e id i ids' m := by
  obtain ⟨pre, post, b, low, hle, hat, hnodup, hdisj, hback⟩ := h.at hx (by simp)
  obtain ⟨rest, rfl⟩ := hat.next hx
  have hlow := h.stages.low_le (h.length_le hfew)
  obtain ⟨hxpost, hpost⟩ := List.nodup_cons.1 hnodup
  have hne : x ≠ j := fun hc => hxpost (by rw [hc]; exact List.mem_cons_self ..)
  refine ⟨_, hback _ m [] (fun y hy => ?_) ?_ h.printed List.nodup_nil (by simp) fun y hy =>
    .inr (live_set ?_ ?_ y hy)⟩
  · rw [Net.set_of_ne _ ((hdisj y hy).2 j (by simp)), Net.set_of_ne _ ((hdisj y hy).2 x (by simp))]
  · rw [List.append_nil]
    refine hat.sent (by omega) hx hj ht ?_ (Net.set_self _ _ _) fun y hy => ?_
    · rw [Net.set_of_ne _ hne, Net.set_self]
    · rw [Net.set_of_ne _ (ne_of_mem_of_not_mem hy (List.nodup_cons.1 hpost).1),
        Net.set_of_ne _ (ne_of_mem_of_not_mem (List.mem_cons_of_mem _ hy) hxpost)]
  · rw [hx]
    exact Option.some_ne_none _
  · rw [hj]
    exact Option.some_ne_none _

theorem Feeding.print (h : Feeding n e id i ids m) (hx : n.procs x = some (.run (.cprintf p))) :
    ∃ ids', Feeding ⟨(n.set x (.run (.fork p))).procs, n.out ++ [p]⟩ e id i ids' (m + 1) := by
  obtain ⟨pre, post, b, low, -, hat, -, hdisj, hback⟩ := h.at hx (by simp)
  have hstage : post = [] ∧ m = b ∧ p.toNat = Nat.nth Nat.Prime b ∧
    LastGot b (Nat.nth Nat.Prime b) low := by
    cases hat with
    | cprintf he hm hp hlast =>
      rw [hx] at he
      cases he
      exact ⟨rfl, hm, hp, hlast⟩
    | top he | fork he | dead he | filter he | send he =>
      rw [hx] at he
      cases he
  obtain ⟨rfl, hm, hp, hlast⟩ := hstage
  refine ⟨_, hback _ (m + 1) [] (fun y hy => Net.set_of_ne _ ((hdisj y hy).2 x (by simp)) _) ?_ ?_
    List.nodup_nil (by simp)
    fun y hy => .inr (live_set_one ?_ y hy)⟩
  · exact .fork (Net.set_self _ _ _) (by rw [hm]) hp hlast
  · rw [h.printed]
    exact firstPrimes_succ (by rw [hp, hm])
  · rw [hx]
    exact Option.some_ne_none _

/-- The stage that is about to fork is the last one. -/
theorem Stages.fork_last (h : Stages procs m b low (i :: rest))
    (hi : procs i = some (.run (.fork p))) :
    rest = [] ∧ m = b + 1 ∧ p.toNat = Nat.nth Nat.Prime b ∧
      LastGot b (Nat.nth Nat.Prime b) low := by
  cases h with
  | fork he hm hp hlast =>
    rw [hi] at he
    cases he
    exact ⟨rfl, hm, hp, hlast⟩
  | top he | cprintf he | dead he | filter he | send he =>
    rw [hi] at he
    cases he

theorem Feeding.fork (h : Feeding n e id i ids m) (hx : n.procs x = some (.run (.fork p)))
    (hj : n.procs j = none) :
    ∃ ids', Feeding ((n.set x (.run (.filter j p))).set j (.run .top)) e id i ids' m := by
  obtain ⟨pre, post, b, low, -, hat, -, hdisj, hback⟩ := h.at hx (by simp)
  obtain ⟨rfl, hm, hp, hlast⟩ := hat.fork_last hx
  have hxj : x ≠ j := by
    rintro rfl
    rw [hj] at hx
    cases hx
  refine ⟨_, hback _ m [j] (fun y hy => ?_) ?_ h.printed (List.nodup_singleton j)
    (by simp [hj]) fun y hy => ?_⟩
  · have hyj : y ≠ j := by
      rintro rfl
      exact (hdisj y hy).1 hj
    rw [Net.set_of_ne _ hyj, Net.set_of_ne _ ((hdisj y hy).2 x (by simp))]
  · refine .filter ?_ hp (.top (Net.set_self _ _ _) hm fun v hv => ?_)
    · rw [Net.set_of_ne _ hxj, Net.set_self]
    · obtain ⟨hv, hdvd⟩ := sieved_succ.1 hv
      refine hlast.last v hv (lt_of_le_of_ne hv.nth_le ?_)
      rintro rfl
      exact hdvd dvd_rfl
  · by_cases hyj : y = j
    · exact .inl (by simp [hyj])
    · rw [Net.set_of_ne _ hyj] at hy
      exact .inr (live_set_one (by rw [hx]; exact Option.some_ne_none _) y hy)

theorem Feeding.noFork (h : Feeding n e id i ids m) (hx : n.procs x = some (.run (.fork p))) :
    ∃ ids', Feeding (n.set x .dead) e id i ids' m := by
  obtain ⟨pre, post, b, low, -, hat, -, hdisj, hback⟩ := h.at hx (by simp)
  obtain ⟨rfl, hm, -, hlast⟩ := hat.fork_last hx
  refine ⟨_, hback _ m [] (fun y hy => Net.set_of_ne _ ((hdisj y hy).2 x (by simp)) _)
    (.dead (Net.set_self _ _ _) hm hlast) h.printed List.nodup_nil (by simp) fun y hy =>
    .inr (live_set_one ?_ y hy)⟩
  rw [hx]
  exact Option.some_ne_none _

/-- The process that feeds the chain is the only one that feeds. -/
theorem Feeding.eq_first (h : Feeding n e id i ids m) {id' i' : Word}
    (hx : n.procs x = some (.run (.feed id' i'))) :
    x = e ∧ id' = id ∧ i' = i := by
  have hxe : x = e := by
    refine (List.mem_cons.1 (h.only x ?_)).resolve_right fun hmem =>
      (h.stages.not_first hmem).1 _ _ hx
    rw [hx]
    exact Option.some_ne_none _
  subst hxe
  rw [h.first] at hx
  cases hx
  exact ⟨rfl, rfl, rfl⟩

theorem Feeding.not_umain (h : Feeding n e id i ids m) : n.procs x ≠ some (.run .umain) := by
  intro hx
  have hmem := h.only x (by rw [hx]; exact Option.some_ne_none _)
  rcases List.mem_cons.1 hmem with rfl | hmem
  · rw [h.first] at hx
    cases hx
  · exact (h.stages.not_first hmem).2 hx

theorem Feeding.receiver (h : Feeding n e id i ids m) {a : Word} {s' : PrimesPc}
    (hx : n.procs x = some (.run s)) (hs : primes s = .send j a s') : n.procs j ≠ none := by
  cases s with
  | feed id' i' =>
    cases hs
    obtain ⟨-, rfl, -⟩ := h.eq_first hx
    obtain ⟨rest, rfl⟩ := List.head?_eq_some_iff.1 h.head
    exact h.stages.live _ (List.mem_cons_self ..)
  | send id' p v =>
    cases hs
    obtain ⟨pre, post, b, low, -, hat, -⟩ := h.at hx (by simp)
    obtain ⟨rest, rfl⟩ := hat.next hx
    exact hat.live _ (by simp)
  | _ => cases hs

/-- **One step of the chain.** -/
theorem Feeding.step (h : Feeding n e id i ids m) (hfew : Few n) (hstep : Net.Step primes n n') :
    Sieving n' := by
  cases hstep with
  | @comm x j s s' t a k hx hj hs ht =>
    cases s with
    | feed id' i' =>
      cases hs
      obtain ⟨rfl, rfl, rfl⟩ := h.eq_first hx
      exact .feed (h.comm_feed hfew hj ht)
    | send id' p v =>
      cases hs
      obtain ⟨ids', h'⟩ := h.comm_send hfew hx hj ht
      exact .feed h'
    | _ => cases hs
  | @print x s s' b hx hs =>
    cases s with
    | cprintf p =>
      cases hs
      obtain ⟨ids', h'⟩ := h.print hx
      exact .feed h'
    | _ => cases hs
  | @fork x j s f g hx hs hj =>
    cases s with
    | umain => exact (h.not_umain hx).elim
    | fork p =>
      cases hs
      obtain ⟨ids', h'⟩ := h.fork hx hj
      exact .feed h'
    | _ => cases hs
  | @noFork x s f g hx hs =>
    cases s with
    | umain => exact (h.not_umain hx).elim
    | fork p =>
      obtain ⟨ids', h'⟩ := h.noFork hx
      exact .feed h'
    | _ => cases hs
  | noReceiver hx hs hj => exact (h.receiver hx hs hj).elim

/-- **One step.** -/
theorem Sieving.step (h : Sieving n) (hfew : Few n) (hstep : Net.Step primes n n') :
    Sieving n' := by
  cases h with
  | feed h => exact h.step hfew hstep
  | @umain e he honly hprinted =>
    have hpc : ∀ {x s}, n.procs x = some (.run s) → x = e ∧ s = .umain := by
      intro x s hx
      obtain rfl := honly x (by rw [hx]; exact Option.some_ne_none _)
      rcases he with he | he <;> rw [he] at hx <;> cases hx
      exact ⟨rfl, rfl⟩
    cases hstep with
    | comm hx hj hs ht =>
      obtain ⟨-, rfl⟩ := hpc hx
      cases hs
    | print hx hs =>
      obtain ⟨-, rfl⟩ := hpc hx
      cases hs
    | noReceiver hx hs =>
      obtain ⟨-, rfl⟩ := hpc hx
      cases hs
    | noFork hx hs =>
      obtain ⟨rfl, rfl⟩ := hpc hx
      refine .umain (.inr (Net.set_self _ _ _))
        (fun y hy => honly y (live_set_one ?_ y hy)) hprinted
      rw [hx]
      exact Option.some_ne_none _
    | @fork x j _ f g hx hs hj =>
      obtain ⟨rfl, rfl⟩ := hpc hx
      cases hs
      have hne : j ≠ x := by
        rintro rfl
        rw [hj] at hx
        cases hx
      have hfeed : Feeding ((n.set x (.run (.feed j 2#32))).set j (.run .top)) x j 2#32 [j] 0 := by
        refine ⟨?_, rfl, by simp [hne.symm], fun y hy => ?_, by decide, hprinted,
          .top (Net.set_self _ _ _) rfl fun v hv => hv.1⟩
        · rw [Net.set_of_ne _ hne.symm, Net.set_self]
        · by_cases hyj : y = j
          · simp [hyj]
          · rw [Net.set_of_ne _ hyj] at hy
            have hyx := honly y (live_set_one (by rw [hx]; exact Option.some_ne_none _) y hy)
            simp [hyx]
      exact .feed hfeed

/-! ## The machine -/

theorem MachineInv.idle {m : Machine} (h : MachineInv m) (c : Cpu) :
    (m.k.envs (idleEnv c)).envType = .IDLE := by
  rcases h with ⟨-, h⟩ | ⟨c', -, h⟩
  · exact (h.mid c).idle c
  · exact h.idle c

theorem SysInv.few {s : Sys PrimesPc Word} {ph : EnvIdx → Phase} (h : SysInv primes s ph) :
    Few s.net := by
  intro l hl hlive
  have hid : ∀ x ∈ l, (s.m.k.envs (ENVX x)).envId = x ∧ ∃ p, s.ctl (ENVX x) = some p := by
    intro x hx
    have hx := hlive x hx
    simp only [Sys.net, netOf] at hx
    split_ifs at hx with hid
    · refine ⟨hid, Option.ne_none_iff_exists'.1 fun hc => hx ?_⟩
      rw [hc]
      rfl
    · exact (hx rfl).elim
  have hslots : (l.map ENVX).Nodup := by
    refine hl.map_on fun x hx y hy hxy => ?_
    rw [← (hid x hx).1, hxy, (hid y hy).1]
  have hidle : ((List.finRange 8).map idleEnv).Nodup :=
    (List.nodup_finRange 8).map (Fin.castLE_injective (by decide))
  have hall : ((List.finRange 8).map idleEnv ++ l.map ENVX).Nodup := by
    refine List.nodup_append.2 ⟨hidle, hslots, fun e he e' he' heq => ?_⟩
    obtain ⟨c, -, rfl⟩ := List.mem_map.1 he
    obtain ⟨x, hx, rfl⟩ := List.mem_map.1 he'
    obtain ⟨-, p, hp⟩ := hid x hx
    apply (h.agree.slot _ p hp).type
    rw [← heq]
    exact h.machine.idle c
  have hcard := hall.length_le_card
  rw [List.length_append, List.length_map, List.length_map, List.length_finRange,
    Fintype.card_fin] at hcard
  omega

/-- The sieve is alone on the machine, and has not begun. -/
theorem sieving_boot (m : Machine) (e : EnvIdx) (hslot : SlotOk e (m.k.envs e)) :
    Sieving (Sys.boot m e PrimesPc.umain : Sys PrimesPc Word).net := by
  have hprocs : ∀ x, (Sys.boot m e PrimesPc.umain : Sys PrimesPc Word).net.procs x =
      if (m.k.envs (ENVX x)).envId = x then
        (Function.update (fun _ => none) e (some (Ctl.user PrimesPc.umain)) (ENVX x)).map
          (Ctl.proc (m.k.envs (ENVX x)))
      else none := netOf_procs _ _ _
  refine .umain (e := (m.k.envs e).envId) (.inl ?_) (fun x hx => ?_) rfl
  · rw [hprocs, hslot.idx, if_pos rfl, Function.update_self]
    rfl
  · rw [hprocs] at hx
    by_cases hid : (m.k.envs (ENVX x)).envId = x
    · rw [if_pos hid] at hx
      by_cases he : ENVX x = e
      · rw [← hid, he]
      · rw [Function.update_of_ne he] at hx
        exact (hx rfl).elim
    · rw [if_neg hid] at hx
      exact (hx rfl).elim

theorem Stages.le_length (h : Stages procs m b low ids) : m ≤ b + ids.length := by
  induction h with
  | top _ hm | cprintf _ hm | fork _ hm | dead _ hm =>
    rw [hm]
    simp
  | filter _ _ _ ih | send _ _ _ _ _ ih =>
    simp only [List.length_cons] at ih ⊢
    omega

theorem Sieving.printed (h : Sieving n) (hfew : Few n) : ∃ k ≤ 1015, n.out = firstPrimes k := by
  cases h with
  | umain he honly hprinted => exact ⟨0, by decide, hprinted⟩
  | @feed e id i ids m h =>
    have hlen := h.length_le hfew
    have hle := h.stages.le_length
    exact ⟨m, by omega, h.printed⟩

/-- `umain` on CPU 0 forks the first stage, which gets 2 on CPU 1, prints it and forks the second
stage. That one waits on CPU 2, and gets 3 through the first. -/
def primesActs : List SysAct :=
  let call (c : Cpu) (tf : Trapframe) : SysAct := .entry (.trap c tf 0 0)
  [.entry (.start 0), call 0 (callTf SYS_exofork 0 0),
    call 0 (callTf SYS_env_set_status 0x1009#32 ENV_RUNNABLE), .entry (.start 1),
    call 1 (callTf SYS_ipc_recv IPC_NO_PAGE 0), call 0 (sendTf 0x1009#32 2),
    call 1 (callTf SYS_yield 0 0), .print 1, call 1 (callTf SYS_exofork 0 0),
    call 1 (callTf SYS_env_set_status 0x100a#32 ENV_RUNNABLE), .entry (.start 2),
    call 2 (callTf SYS_ipc_recv IPC_NO_PAGE 0), call 1 (callTf SYS_ipc_recv IPC_NO_PAGE 0),
    call 0 (sendTf 0x1009#32 3), call 1 (callTf SYS_yield 0 0), call 1 (sendTf 0x100a#32 3),
    call 2 (callTf SYS_yield 0 0), .print 2]

end Jos
