import DspDispatch.Kit.MachineInt
import DspDispatch.Kit.SmoothSearch
import DspDispatch.Kit.TrialDivision
import Mathlib.Data.Rat.Defs

/-!
# Transform lengths of pocketfft (`third_party/pocketfft/pocketfft_hdronly.h`, `util`)

How pocketfft takes a length apart, what it guesses a transform of that length to cost,
and which padded length it takes for a convolution. The costs are `double`s in the source
and rationals here.
-/

namespace DspDispatch.Pocketfft

open Kit

/-! ## Prime factors -/

/-- `largest_prime_factor`. -/
def largestPrimeFactor (n : Nat) : Option Nat :=
  (divideBy (fun _ _ => 2) 2 (1, n)).bind fun s =>
    (trialDivision (fun x => mulSize x x) (fun x _ => x) s.2 3 s).map fun s =>
      if 1 < s.2 then s.2 else s.1

/-- The penalty for larger factors in `cost_guess`. -/
def lfp : ℚ := 11 / 10

/-- `(x <= 5) ? double(x) : lfp * double(x)`. -/
def factorCost (x : Nat) : ℚ := if x ≤ 5 then x else lfp * x

/-- `cost_guess`. -/
def costGuess (n : Nat) : Option ℚ :=
  (divideBy (fun _ result => result + 2) 2 (0, n)).bind fun s =>
    (trialDivision (fun x => mulSize x x) (fun x result => result + factorCost x) s.2 3 s).map
      fun s =>
      (if 1 < s.2 then s.1 + factorCost s.2 else s.1) * n

/-- The last visit is to the largest prime factor. -/
theorem largestPrimeFactor_eq {n : Nat} (positive : 0 < n) :
    largestPrimeFactor n = some (n.primeFactorsList.getLast?.getD 1) := by
  have all := factorisation_spec squares_mulSize (fun x _ => x) 1 positive
  rw [largestPrimeFactor]
  refine Eq.trans all (congrArg some ?_)
  rcases n.primeFactorsList.eq_nil_or_concat with nil | ⟨ps, p, last⟩
  · rw [nil]
    rfl
  · rw [last, List.concat_eq_append, visits_append, List.getLast?_concat]
    rfl

theorem costGuess_eq {n : Nat} (positive : 0 < n) :
    costGuess n = some ((n.primeFactorsList.map factorCost).sum * n) := by
  have two : divideBy (fun _ (result : ℚ) => result + 2) 2 =
      divideBy (fun x result => result + factorCost x) 2 := by
    have cost : factorCost 2 = 2 := by
      rw [factorCost, if_pos (by decide)]
      rfl
    unfold divideBy
    simp only [cost]
  have total : ∀ (ps : List Nat) (result : ℚ),
      visits (fun x result => result + factorCost x) ps result =
        result + (ps.map factorCost).sum := by
    intro ps
    induction ps with
    | nil => intro result; exact (add_zero result).symm
    | cons p ps ih =>
      intro result
      rw [List.map_cons, List.sum_cons, ← add_assoc, ← ih]
      rfl
  have all := factorisation_spec squares_mulSize (fun x (result : ℚ) => result + factorCost x) 0
    positive
  rw [total, zero_add] at all
  have scaled := congrArg (Option.map (· * (n : ℚ))) all
  rw [Option.map_bind, Option.map_some] at scaled
  rw [← scaled, costGuess, two]
  refine congrArg (Option.bind _) (funext fun t => ?_)
  rw [Function.comp_apply, Option.map_map]
  rfl

/-- The last prime factor is the largest. -/
theorem isGreatest_getLast {n : Nat} (large : 1 < n) :
    IsGreatest {q | q.Prime ∧ q ∣ n} (n.primeFactorsList.getLast?.getD 1) := by
  rcases n.primeFactorsList.eq_nil_or_concat with nil | ⟨ps, p, last⟩
  · rw [Nat.primeFactorsList_eq_nil] at nil
    omega
  · rw [List.concat_eq_append] at last
    have member : ∀ q, q ∈ n.primeFactorsList ↔ q.Prime ∧ q ∣ n := fun q =>
      Nat.mem_primeFactorsList (by omega)
    have sorted := (Nat.primeFactorsList_sorted n).pairwise
    rw [last, List.getLast?_concat, Option.getD_some]
    rw [last] at member sorted
    refine ⟨(member p).mp (List.mem_append_right ps (List.mem_singleton_self p)), ?_⟩
    intro q factor
    rcases List.mem_append.mp ((member q).mpr factor) with before | here
    · exact (List.pairwise_append.mp sorted).2.2 q before p (List.mem_singleton_self p)
    · exact (List.mem_singleton.mp here).le

/-- Both loops over the divisors see exactly the prime factors, each as often as it divides:
one keeps the largest, the other adds up what they cost. -/
theorem guesses_of_factors (n : Nat) (large : 1 < n) :
    (∃ p, largestPrimeFactor n = some p ∧ IsGreatest {q | q.Prime ∧ q ∣ n} p) ∧
      costGuess n = some ((n.primeFactorsList.map factorCost).sum * n) :=
  ⟨⟨_, largestPrimeFactor_eq (by omega), isGreatest_getLast large⟩, costGuess_eq (by omega)⟩

theorem guesses_of_factors_78 :
    (∃ p, largestPrimeFactor 78 = some p ∧ IsGreatest {q | q.Prime ∧ q ∣ 78} p) ∧
      costGuess 78 = some ((Nat.primeFactorsList 78 |>.map factorCost).sum * (78 : Nat)) :=
  guesses_of_factors 78 (by decide)

/-! ## Good sizes -/

/-- `good_size_cmplx_typed<size_t>`; `none` is the exception for a size that is too large. -/
def goodSizeCmplx (n : Nat) : Option Nat :=
  if n ≤ 12 then some n
  else if (2 ^ 64 - 1) / 11 / 2 < n then none
  else
    let bestfac := mulSize 2 n
    (multiples mulSize 11 (multiples mulSize 7 (multiples mulSize 5 (near mulSize n) bestfac)
      bestfac) bestfac 1 bestfac).map found

/-- `good_size_real_typed<size_t>`. -/
def goodSizeReal (n : Nat) : Option Nat :=
  if n ≤ 6 then some n
  else if (2 ^ 64 - 1) / 5 / 2 < n then none
  else
    let bestfac := mulSize 2 n
    (multiples mulSize 5 (near mulSize n) bestfac 1 bestfac).map found

theorem mulSize_exact {top : Nat} (small : top < 2 ^ 64) (x y : Nat) (le : x * y ≤ top) :
    mulSize x y = x * y := mulSize_of_lt (by omega)

/-- The complex sizes: the loops leave the least candidate, and no product of theirs wraps
around. -/
theorem goodSizeCmplx_isLeast {n : Nat} (positive : 0 < n) (small : n ≤ (2 ^ 64 - 1) / 11 / 2) :
    ∃ r, goodSizeCmplx n = some r ∧ IsLeast {m | m ∈ Nat.smoothNumbers 12 ∧ n ≤ m} r := by
  rw [goodSizeCmplx]
  split
  · rename_i few
    have smooth : n ∈ Nat.smoothNumbers 12 := by
      rw [← Nat.smoothNumbers_succ (by decide : ¬ Nat.Prime 12)]
      exact Nat.mem_smoothNumbers_of_lt positive (by omega)
    exact ⟨n, rfl, ⟨smooth, Nat.le_refl n⟩, fun m candidate => candidate.2⟩
  · rw [if_neg (by omega), mulSize_of_lt (by omega)]
    have exact := mulSize_exact (by omega : 2 ^ 64 - 1 < 2 ^ 64)
    have threes := near_covers_smooth exact (by omega : 3 * n ≤ 2 ^ 64 - 1)
    have fives := multiples_covers_smooth exact (by omega) Nat.prime_five rfl threes
    rw [← Nat.smoothNumbers_succ (by decide : ¬ Nat.Prime (5 + 1))] at fives
    have sevens := multiples_covers_smooth exact (by omega) Nat.prime_seven rfl fives
    rw [← Nat.smoothNumbers_succ (by decide : ¬ Nat.Prime (7 + 1)),
      ← Nat.smoothNumbers_succ (by decide : ¬ Nat.Prime 9),
      ← Nat.smoothNumbers_succ (by decide : ¬ Nat.Prime 10)] at sevens
    have elevens := multiples_covers_smooth exact (by omega) Nat.prime_eleven rfl sevens
    exact elevens.isLeast positive (by omega)

theorem goodSizeReal_isLeast {n : Nat} (positive : 0 < n) (small : n ≤ (2 ^ 64 - 1) / 5 / 2) :
    ∃ r, goodSizeReal n = some r ∧ IsLeast {m | m ∈ Nat.smoothNumbers 6 ∧ n ≤ m} r := by
  rw [goodSizeReal]
  split
  · rename_i few
    have smooth : n ∈ Nat.smoothNumbers 6 := by
      rw [← Nat.smoothNumbers_succ (by decide : ¬ Nat.Prime 6)]
      exact Nat.mem_smoothNumbers_of_lt positive (by omega)
    exact ⟨n, rfl, ⟨smooth, Nat.le_refl n⟩, fun m candidate => candidate.2⟩
  · rw [if_neg (by omega), mulSize_of_lt (by omega)]
    have exact := mulSize_exact (by omega : 2 ^ 64 - 1 < 2 ^ 64)
    have threes := near_covers_smooth exact (by omega : 3 * n ≤ 2 ^ 64 - 1)
    exact (multiples_covers_smooth exact (by omega) Nat.prime_five rfl threes).isLeast
      positive (by omega)

theorem goodSizeCmplx_eq_none {n : Nat} (positive : 0 < n) :
    goodSizeCmplx n = none ↔ 2 ^ 64 - 1 < 22 * n := by
  constructor
  · intro thrown
    by_contra small
    obtain ⟨r, run, -⟩ := goodSizeCmplx_isLeast positive (by omega)
    rw [run] at thrown
    cases thrown
  · intro large
    rw [goodSizeCmplx, if_neg (by omega), if_pos (by omega)]

theorem goodSizeReal_eq_none {n : Nat} (positive : 0 < n) :
    goodSizeReal n = none ↔ 2 ^ 64 - 1 < 10 * n := by
  constructor
  · intro thrown
    by_contra small
    obtain ⟨r, run, -⟩ := goodSizeReal_isLeast positive (by omega)
    rw [run] at thrown
    cases thrown
  · intro large
    rw [goodSizeReal, if_neg (by omega), if_pos (by omega)]

/-- A power of two is among the candidates, so that the size is at most doubled. -/
theorem exists_goodSizeCmplx {n : Nat} (positive : 0 < n) (small : n ≤ (2 ^ 64 - 1) / 11 / 2) :
    ∃ r, goodSizeCmplx n = some r ∧ n ≤ r ∧ r ≤ 2 * n := by
  obtain ⟨r, run, ⟨-, above⟩, least⟩ := goodSizeCmplx_isLeast positive small
  refine ⟨r, run, above, ?_⟩
  have below := Nat.pow_log_le_self 2 positive.ne'
  have next := Nat.lt_pow_succ_log_self (by decide : 1 < 2) n
  have smooth : 2 ^ (Nat.log 2 n + 1) ∈ Nat.smoothNumbers 12 := by
    refine Nat.mem_smoothNumbers'.mpr fun p prime divides => ?_
    have two := (Nat.prime_dvd_prime_iff_eq prime Nat.prime_two).mp (prime.dvd_of_dvd_pow divides)
    omega
  exact (least ⟨smooth, next.le⟩).trans (by rw [Nat.pow_succ]; omega)

/-- Both size searches, as their comments describe them: the smallest composite of 2, 3, 5
(and 7 and 11) from `n` on, or an exception exactly when the products could overflow. -/
theorem goodSizes_least (n : Nat) (positive : 0 < n) :
    (∀ r, goodSizeCmplx n = some r → IsLeast {m | m ∈ Nat.smoothNumbers 12 ∧ n ≤ m} r) ∧
    (∀ r, goodSizeReal n = some r → IsLeast {m | m ∈ Nat.smoothNumbers 6 ∧ n ≤ m} r) ∧
    (goodSizeCmplx n = none ↔ 2 ^ 64 - 1 < 22 * n) ∧
    (goodSizeReal n = none ↔ 2 ^ 64 - 1 < 10 * n) := by
  refine ⟨?_, ?_, goodSizeCmplx_eq_none positive, goodSizeReal_eq_none positive⟩
  · intro r run
    have fits := mt (goodSizeCmplx_eq_none positive).mpr (by rw [run]; exact Option.some_ne_none r)
    obtain ⟨r', run', least⟩ := goodSizeCmplx_isLeast positive (by omega)
    obtain rfl : r' = r := Option.some.inj (run'.symm.trans run)
    exact least
  · intro r run
    have fits := mt (goodSizeReal_eq_none positive).mpr (by rw [run]; exact Option.some_ne_none r)
    obtain ⟨r', run', least⟩ := goodSizeReal_isLeast positive (by omega)
    obtain rfl : r' = r := Option.some.inj (run'.symm.trans run)
    exact least

theorem goodSizes_least_thirteen :
    IsLeast {m | m ∈ Nat.smoothNumbers 12 ∧ 13 ≤ m} 14 :=
  (goodSizes_least 13 (by decide)).1 14 (by decide +kernel)

end DspDispatch.Pocketfft
