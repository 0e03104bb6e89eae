import DspDispatch.Kit.TrialDivision
import Mathlib.Algebra.BigOperators.Group.List.Basic
import Mathlib.Data.Nat.Prime.Basic
import Mathlib.Tactic.Ring

/-!
# Factorisation of a length (`cfftp::factorize`)

Factors of eight come first, then factors of four, then at most one factor of two, which
changes places with the first factor, then the odd prime factors.
-/

namespace DspDispatch.Pocketfft

open Kit

/-- `std::swap(fact[0].fct, fact.back().fct)`. -/
def swapEnds (fact : List Nat) : List Nat :=
  (fact.set 0 (fact.getLast?.getD 0)).set (fact.length - 1) (fact.headD 0)

/-- `add_factor`. -/
def addFactor (factor : Nat) (fact : List Nat) : List Nat := fact ++ [factor]

/-- `factorize`. -/
def factorize (length : Nat) : Option (List Nat) := do
  let s ← divideBy addFactor 8 ([], length)
  let s ← divideBy addFactor 4 s
  let s := if s.2 % 2 = 0 then (swapEnds (addFactor 2 s.1), s.2 / 2) else s
  let s ← trialDivision (fun x => mulSize x x) addFactor s.2 3 s
  some (if 1 < s.2 then addFactor s.2 s.1 else s.1)

/-- A factor a pass exists for: a power of two up to eight, or an odd prime. -/
def PassFactor (ip : Nat) : Prop := ip = 2 ∨ ip = 4 ∨ ip = 8 ∨ ip.Prime ∧ ¬ 2 ∣ ip

theorem PassFactor.two_le {ip : Nat} (factor : PassFactor ip) : 2 ≤ ip := by
  obtain rfl | rfl | rfl | ⟨prime, -⟩ := factor
  · decide
  · decide
  · decide
  · exact prime.two_le

theorem visits_addFactor (ps fact : List Nat) : visits addFactor ps fact = fact ++ ps := by
  induction ps generalizing fact with
  | nil => exact (List.append_nil fact).symm
  | cons p ps ih =>
    change visits addFactor ps (fact ++ [p]) = _
    rw [ih, List.append_assoc]
    rfl

theorem swapEnds_perm (fact : List Nat) :
    (swapEnds (addFactor 2 fact)).Perm (addFactor 2 fact) := by
  rcases fact with _ | ⟨a, rest⟩
  · rfl
  · have last : (addFactor 2 (a :: rest)).getLast? = some 2 := List.getLast?_concat
    have swapped : swapEnds (addFactor 2 (a :: rest)) = 2 :: (rest ++ [a]) := by
      rw [swapEnds, last]
      simp [addFactor]
    rw [swapped]
    calc 2 :: (rest ++ [a]) = (2 :: rest) ++ [a] := rfl
      List.Perm _ (a :: (2 :: rest)) := List.perm_append_singleton a _
      List.Perm _ (a :: (rest ++ [2])) :=
        List.Perm.cons a (List.perm_append_singleton 2 rest).symm

/-- The factors multiply to the length, and there is a pass for each. -/
theorem factorize_spec {length : Nat} (positive : 0 < length) :
    ∃ fact, factorize length = some fact ∧ fact.prod = length ∧ ∀ ip ∈ fact, PassFactor ip := by
  obtain ⟨k, m, eights, split, left, -⟩ :=
    divideBy_spec addFactor [] (by omega : 1 < 8) positive
  obtain ⟨k', m', fours, split', left', none⟩ :=
    divideBy_spec addFactor (visits addFactor (List.replicate k 8) [])
      (by omega : 1 < 4) left
  rw [visits_addFactor, visits_addFactor, List.nil_append] at fours
  rw [visits_addFactor, List.nil_append] at eights
  -- the factor of two, if there is one
  obtain ⟨fact, q, step, product, odd, left'', powers⟩ :
      ∃ fact q, (if m' % 2 = 0
          then (swapEnds (addFactor 2 (List.replicate k 8 ++ List.replicate k' 4)), m' / 2)
          else (List.replicate k 8 ++ List.replicate k' 4, m')) = (fact, q) ∧
        fact.prod * q = length ∧ ¬ 2 ∣ q ∧ 0 < q ∧ ∀ ip ∈ fact, PassFactor ip := by
    have powers : ∀ ip ∈ List.replicate k 8 ++ List.replicate k' 4, PassFactor ip := by
      intro ip member
      rcases List.mem_append.mp member with eight | four
      · exact .inr (.inr (.inl (List.eq_of_mem_replicate eight)))
      · exact .inr (.inl (List.eq_of_mem_replicate four))
    have product : (List.replicate k 8 ++ List.replicate k' 4).prod * m' = length := by
      rw [List.prod_append, List.prod_replicate, List.prod_replicate, split, split', Nat.mul_assoc]
    split
    · rename_i even
      have perm := swapEnds_perm (List.replicate k 8 ++ List.replicate k' 4)
      refine ⟨_, _, rfl, ?_, by omega, by omega, ?_⟩
      · rw [perm.prod_eq, addFactor, List.prod_append, List.prod_singleton, Nat.mul_assoc,
          Nat.mul_div_cancel' (Nat.dvd_of_mod_eq_zero even), product]
      · intro ip member
        rcases List.mem_append.mp (perm.mem_iff.mp member) with old | two
        · exact powers ip old
        · exact .inl (List.mem_singleton.mp two)
    · exact ⟨_, _, rfl, product, by omega, left', powers⟩
  obtain ⟨ps, r, trial, some', primes⟩ :=
    trialDivision_spec squares_mulSize addFactor fact left'' odd
  rw [visits_addFactor] at trial
  have all : (if 1 < r then addFactor r (fact ++ ps) else fact ++ ps) =
      fact ++ q.primeFactorsList := by
    rw [← primes, ← List.append_assoc]
    rcases Nat.lt_or_ge 1 r with large | small
    · rw [if_pos large, if_neg (by omega)]
      rfl
    · rw [if_neg (by omega), if_pos (by omega), List.append_nil]
  refine ⟨fact ++ q.primeFactorsList, ?_, ?_, ?_⟩
  · simp only [factorize, eights, fours, step, trial, all, Option.bind_eq_bind, Option.bind_some]
  · rw [List.prod_append, Nat.prod_primeFactorsList left''.ne', product]
  · intro ip member
    rcases List.mem_append.mp member with power | factor
    · exact powers ip power
    · have dvd := Nat.dvd_of_mem_primeFactorsList factor
      exact .inr (.inr (.inr ⟨Nat.prime_of_mem_primeFactorsList factor,
        fun even => odd (even.trans dvd)⟩))

/-! ## Sizes of tables -/

/-- The sizes of the entries of a list of factors, added up; an entry depends on the product of
the factors before it. -/
def sizeFrom (entry : Nat → Nat → Nat) (l1 : Nat) : List Nat → Nat
  | [] => 0
  | ip :: fact => entry l1 ip + sizeFrom entry (l1 * ip) fact

/-- The loop that adds up the sizes. -/
theorem foldl_sizeFrom (entry : Nat → Nat → Nat) (fact : List Nat) (size l1 : Nat) :
    (fact.foldl (fun s ip => (s.1 + entry s.2 ip, s.2 * ip)) (size, l1)).1 =
      size + sizeFrom entry l1 fact := by
  induction fact generalizing size l1 with
  | nil => rfl
  | cons ip fact ih => rw [List.foldl_cons, ih, sizeFrom, Nat.add_assoc]

/-- An entry of `(ip - 1) * (ido - 1)` elements and at most `c` times the factor takes no more
than `c` times its share, and the others no more than as much again. -/
theorem sizeFrom_le {n c : Nat} {entry : Nat → Nat → Nat} (least : 0 < c)
    (entry_le : ∀ l1 ip, entry l1 ip ≤ (ip - 1) * (n / (l1 * ip) - 1) + c * ip)
    (positive : 0 < n) (fact : List Nat) :
    ∀ l1, n = l1 * fact.prod → (∀ ip ∈ fact, 2 ≤ ip) →
      sizeFrom entry l1 fact ≤ 2 * c * fact.prod := by
  induction fact with
  | nil => exact fun _ _ _ => Nat.zero_le _
  | cons ip fact ih =>
    intro l1 factored factors
    rw [List.prod_cons, ← Nat.mul_assoc] at factored
    have later := ih (l1 * ip) factored fun p member => factors p (List.mem_cons_of_mem ip member)
    have two := factors ip List.mem_cons_self
    have before : 0 < l1 * ip := by
      rw [factored] at positive
      exact Nat.pos_of_mul_pos_right positive
    have behind : 0 < fact.prod := by
      rw [factored] at positive
      exact Nat.pos_of_mul_pos_left positive
    have narrow : n / (l1 * ip) = fact.prod := by
      rw [factored, Nat.mul_div_cancel_left _ before]
    have own := entry_le l1 ip
    rw [narrow] at own
    have share : (ip - 1) * (fact.prod - 1) + c * ip ≤ c * (ip * fact.prod) := by
      obtain ⟨r, rest⟩ := Nat.exists_eq_add_of_le' behind
      have narrower := Nat.mul_le_mul_right r (Nat.sub_le ip 1)
      have several := Nat.mul_le_mul_right (ip * r) least
      rw [rest, Nat.add_sub_cancel, Nat.mul_add, Nat.mul_one, Nat.mul_add]
      omega
    have double := Nat.mul_le_mul_left c (Nat.mul_le_mul_right fact.prod two)
    rw [sizeFrom, List.prod_cons]
    calc entry l1 ip + sizeFrom entry (l1 * ip) fact
        ≤ c * (ip * fact.prod) + 2 * c * fact.prod :=
          Nat.add_le_add (own.trans share) later
      _ = c * (ip * fact.prod) + c * (2 * fact.prod) := by ring
      _ ≤ c * (ip * fact.prod) + c * (ip * fact.prod) := Nat.add_le_add_left double _
      _ = 2 * c * (ip * fact.prod) := by ring

end DspDispatch.Pocketfft
