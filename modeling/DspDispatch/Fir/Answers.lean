import DspDispatch.Fir.Streaming

/-!
# The answers of a whole run

`answers` are the outcomes that a filter owes for a run of calls. A plan `Tracks` delay lines
if its state stands for them and every call filters behind them and pushes the block into
them; such a plan gives the answers it owes. Some calls may be refused: `served` are the
others, and what is owed for these is as if the refused ones had not been made.
-/

namespace DspDispatch.Fir

open Kit

variable {S T σ : Type}

/-! ## Answers -/

section Answers

variable [Zero S] [Add S] [HMul S T S] (taps : List T) (blockSize batch : Nat)

/-- What is owed for a call after others. -/
def answer (past : List (FirCall S)) : FirCall S → FirOutcome S
  | .execute mem input output =>
    .executed .ok (mem.write output
      (convolvedLanes taps blockSize batch (fun b => laneStream blockSize b past) mem input))
  | .clear => .cleared .ok

/-- What is owed for calls one after the other, after others. -/
def answers : List (FirCall S) → List (FirCall S) → List (FirOutcome S)
  | _, [] => []
  | past, call :: rest =>
    answer taps blockSize batch past call :: answers (past ++ [call]) rest

theorem length_answers (calls : List (FirCall S)) :
    ∀ past, (answers taps blockSize batch past calls).length = calls.length := by
  induction calls with
  | nil => exact fun _ => rfl
  | cons call rest ih => exact fun past => congrArg (· + 1) (ih _)

end Answers

/-! ## Plans that track delay lines -/

/-- The state of the plan stands for one delay line a lane: for zeros at first and after a
clear, and for the samples before the next block after an execute, which filters. -/
structure BackendPlan.Tracks [Zero S] [Add S] [HMul S T S] (plan : BackendPlan σ S) (taps : List T)
    (blockSize batch : Nat) (Rep : (Nat → List S) → σ → Prop) : Prop where
  start : Rep (fun _ => delayLine (taps.length - 1) []) plan.state
  execute : ∀ {h s mem input output}, Rep h s → mem.Holds input (batch * blockSize) →
    mem.Holds output (batch * blockSize) →
    Apart input (batch * blockSize) output (batch * blockSize) →
    ∃ s', plan.execute s mem input output =
        some (.ok, mem.write output (filteredLanes taps blockSize batch h mem input), s') ∧
      Rep (fun b => shiftIn (h b) (laneBlock blockSize mem input b)) s'
  clear : ∀ {h s}, Rep h s →
    ∃ s', plan.clear s = some (.ok, s') ∧ Rep (fun _ => delayLine (taps.length - 1) []) s'

section Tracks

variable [Zero S] [Add S] [HMul S T S] {plan : BackendPlan σ S} {taps : List T}
  {blockSize batch : Nat} {Rep : (Nat → List S) → σ → Prop}

/-- One call gives the answer it owes and keeps the delay lines those of the streams. -/
theorem BackendPlan.Tracks.step (tracks : plan.Tracks taps blockSize batch Rep)
    {past : List (FirCall S)} {call : FirCall S} {s : σ}
    (rep : Rep (fun b => delayLine (taps.length - 1) (laneStream blockSize b past)) s)
    (distinct : call.Distinct (batch * blockSize)) :
    ∃ s', plan.step s call = some (answer taps blockSize batch past call, s') ∧
      Rep (fun b => delayLine (taps.length - 1) (laneStream blockSize b (past ++ [call]))) s' := by
  cases call with
  | execute mem input output =>
    obtain ⟨holdsIn, holdsOut, apart⟩ := distinct
    obtain ⟨s', executed, rep'⟩ := tracks.execute rep holdsIn holdsOut apart
    rw [filteredLanes_delayLine (fun _ _ => rfl) holdsIn] at executed
    refine ⟨s', ?_, ?_⟩
    · rw [BackendPlan.step, executed]
      rfl
    · simp only [laneStream_execute, delayLine_append]
      exact rep'
  | clear =>
    obtain ⟨s', cleared, rep'⟩ := tracks.clear rep
    refine ⟨s', ?_, ?_⟩
    · rw [BackendPlan.step, cleared]
      rfl
    · simp only [laneStream_clear]
      exact rep'

/-- So do all calls of a run. -/
theorem BackendPlan.Tracks.steps (tracks : plan.Tracks taps blockSize batch Rep)
    (calls : List (FirCall S)) :
    ∀ (past : List (FirCall S)) (s : σ),
      Rep (fun b => delayLine (taps.length - 1) (laneStream blockSize b past)) s →
      (∀ call ∈ calls, call.Distinct (batch * blockSize)) →
      ∃ s', runSteps plan.step s calls = some (answers taps blockSize batch past calls, s') := by
  induction calls with
  | nil => exact fun past s _ _ => ⟨s, rfl⟩
  | cons call rest ih =>
    intro past s rep distinct
    obtain ⟨s₁, first, rep₁⟩ := tracks.step rep (distinct call (List.mem_cons_self ..))
    obtain ⟨s₂, later⟩ :=
      ih (past ++ [call]) s₁ rep₁ fun next member => distinct next (List.mem_cons_of_mem _ member)
    exact ⟨s₂, runSteps_cons_of first later⟩

theorem BackendPlan.Tracks.run_eq (tracks : plan.Tracks taps blockSize batch Rep)
    {calls : List (FirCall S)} (distinct : ∀ call ∈ calls, call.Distinct (batch * blockSize)) :
    ∃ s, plan.run calls = some (answers taps blockSize batch [] calls, s) :=
  tracks.steps calls [] plan.state tracks.start distinct

end Tracks

/-! ## Calls that were served -/

/-- `Ok`. -/
def FirOutcome.ok : FirOutcome S → Bool
  | .executed st _ => st = .ok
  | .cleared st => st = .ok

/-- The calls that were not refused, with their outcomes. -/
def served (calls : List (FirCall S)) (outcomes : List (FirOutcome S)) :
    List (FirCall S × FirOutcome S) :=
  (calls.zip outcomes).filter fun made => made.2.ok

section Served

variable {calls : List (FirCall S)} {outcomes : List (FirOutcome S)}

theorem served_of_ok (all : ∀ outcome ∈ outcomes, outcome.ok) :
    served calls outcomes = calls.zip outcomes :=
  List.filter_eq_self.mpr fun _ member => all _ (List.of_mem_zip member).2

theorem served_all (length : outcomes.length = calls.length)
    (all : ∀ outcome ∈ outcomes, outcome.ok) :
    (served calls outcomes).map Prod.fst = calls ∧
      (served calls outcomes).map Prod.snd = outcomes := by
  rw [served_of_ok all]
  exact ⟨List.map_fst_zip (Nat.le_of_eq length.symm), List.map_snd_zip (Nat.le_of_eq length)⟩

theorem answers_ok [Zero S] [Add S] [HMul S T S] (taps : List T) (blockSize batch : Nat)
    (calls : List (FirCall S)) :
    ∀ past, ∀ outcome ∈ answers taps blockSize batch past calls, outcome.ok := by
  induction calls with
  | nil => exact fun past outcome none => absurd none (List.not_mem_nil)
  | cons call rest ih =>
    intro past outcome member
    rcases List.mem_cons.mp member with rfl | later
    · cases call with
      | execute mem input output => rfl
      | clear => rfl
    · exact ih _ _ later

end Served

end DspDispatch.Fir
