import DspDispatch.Pocketfft.Bluestein
import DspDispatch.Pocketfft.Choice

/-!
# Complex transforms of pocketfft (`pocketfft_c`)

A plan holds the passes of `cfftp` or Bluestein's algorithm, whichever the constructor chose.
Both compute the same.
-/

namespace DspDispatch.Pocketfft

open Kit

/-- `pocketfft_c<T0>`; one of the two plans is there. -/
structure PocketfftC (K : Type) where
  packplan : Option (Cfftp K)
  blueplan : Option (Fftblue K)
  len : Nat

namespace PocketfftC

section Model

variable {K : Type} [Field K] [DecidableEq K]

/-- The constructor; `none` is an exception. -/
def make (t : Trig K) (length : Nat) : Option (PocketfftC K) := do
  let blue ← choice length
  if blue then
    let plan ← Fftblue.make t length
    some ⟨none, some plan, length⟩
  else
    let plan ← Cfftp.make t length
    some ⟨some plan, none, length⟩

/-- `exec`. -/
def exec (t : Trig K) (plan : PocketfftC K) (c : List (Cmplx K)) (fct : K) (fwd : Bool) :
    Option (List (Cmplx K)) :=
  match plan.packplan with
  | some packplan => packplan.exec t c fct fwd
  | none => plan.blueplan.bind fun blueplan => blueplan.exec t c fct fwd

end Model

section Correct

variable {n : Nat}

/-- A plan for a length that computes its transform. -/
structure Sound (plan : PocketfftC ℝ) (n : Nat) : Prop where
  len : plan.len = n
  exec_eq : ∀ (z : Nat → ℂ) (fct : ℝ) (fwd : Bool),
    plan.exec Trig.real (Cfftp.samples n z) fct fwd =
      some (Cfftp.samples n fun k => dft fwd n z k * fct)

theorem exists_packplan (positive : 0 < n) :
    ∃ plan, Cfftp.make Trig.real n = some plan ∧ Sound ⟨some plan, none, n⟩ n := by
  obtain ⟨plan, made, rfl, sound⟩ := Cfftp.exists_make positive
  exact ⟨plan, made, rfl, sound.exec_eq⟩

theorem exists_blueplan (positive : 0 < n) (small : n * 2 - 1 ≤ (2 ^ 64 - 1) / 11 / 2) :
    ∃ plan, Fftblue.make Trig.real n = some plan ∧ Sound ⟨none, some plan, n⟩ n := by
  obtain ⟨plan, made, rfl, sound⟩ := Fftblue.exists_make positive small
  exact ⟨plan, made, rfl, sound.exec_eq⟩

/-- The constructor makes a plan that computes the transform, whichever algorithm it is. -/
theorem make_of_accepted (accepted : ¬ Refused n) :
    ∃ plan, make Trig.real n = some plan ∧ plan.Sound n := by
  have positive : 0 < n := Nat.pos_of_ne_zero fun zero => accepted (.inl zero)
  obtain ⟨blue, chosen, padded⟩ := choice_of_accepted accepted
  rw [make, chosen, Option.bind_eq_bind, Option.bind_some]
  cases blue with
  | true =>
    obtain ⟨blueplan, made, sound⟩ := exists_blueplan positive (padded rfl)
    exact ⟨_, by rw [if_pos rfl, made]; rfl, sound⟩
  | false =>
    obtain ⟨packplan, packed, sound⟩ := exists_packplan positive
    exact ⟨_, by rw [if_neg Bool.false_ne_true, packed]; rfl, sound⟩

/-- The constructor throws for the refused lengths. -/
theorem make_of_refused (fits : n < 2 ^ 63) (refused : Refused n) : make Trig.real n = none := by
  rw [make, choice_of_refused fits refused]
  rfl

/-- For every length whose arrays have an address: either it is refused, which depends on the
size of its largest prime factor, or the plan computes the transform of every signal. Which of
the two algorithms is guessed to be cheaper makes no difference. -/
theorem refuses_or_computes (n : Nat) (small : n < 2 ^ 60) :
    (Refused n ∧ make Trig.real n = none) ∨
      ¬ Refused n ∧ ∃ plan, make Trig.real n = some plan ∧ plan.len = n ∧
        ∀ (z : Nat → ℂ) (fct : ℝ) (fwd : Bool),
          plan.exec Trig.real (Cfftp.samples n z) fct fwd =
            some (Cfftp.samples n fun k => dft fwd n z k * fct) := by
  by_cases refused : Refused n
  · exact .inl ⟨refused, make_of_refused (by omega) refused⟩
  · obtain ⟨plan, made, sound⟩ := make_of_accepted refused
    exact .inr ⟨refused, plan, made, sound.len, sound.exec_eq⟩

/-- A prime length is not refused. -/
theorem refuses_or_computes_prime :
    ¬ Refused 1013 ∧ ∃ plan, make Trig.real 1013 = some plan ∧ plan.len = 1013 ∧
      ∀ (z : Nat → ℂ) (fct : ℝ) (fwd : Bool),
        plan.exec Trig.real (Cfftp.samples 1013 z) fct fwd =
          some (Cfftp.samples 1013 fun k => dft fwd 1013 z k * fct) :=
  (refuses_or_computes 1013 (by decide)).resolve_left fun refused =>
    absurd refused.1 (by decide)

end Correct

end PocketfftC

end DspDispatch.Pocketfft
