import DspDispatch.Fir.CmsisRefinement
import DspDispatch.Fir.IppStreaming
import DspDispatch.Fir.LiquidStreaming
import DspDispatch.Plan.InvalidArgument

/-!
# Interchangeable FIR backends

A build selects one FIR backend. Plans of any two for one configuration cannot be told apart
by the calls they serve: what one gives for them, the other gives for them alone. Only IPP
refuses calls of a plan; a call it refuses leaves no trace in the calls after it.
-/

namespace DspDispatch.Fir

open Kit

variable {R : Type} [CommRing R]

/-- All libraries do what they document. -/
structure Libraries.Documented (libs : Libraries R) : Prop where
  liquid : ∀ t, ∃ tapsOf window, (libs.liquid t).Documented tapsOf window
  ipp : ∀ precision t k b, (libs.ipp precision t).Filters (libs.firSR t k b)
  cmsis : ∀ precision, (libs.cmsis precision).Documented

namespace Backend

/-- The plan state of a backend. -/
def State (libs : Libraries R) (t : FirType) : Backend → Type
  | .portable => Portable.PortableState (SampleOf R t) (TapOf R t)
  | .liquid => Liquid.LiquidState (libs.liquid t)
  | .ipp => Nat × Ipp.IppFirState (SampleOf R t)
  | .cmsis => Cmsis.CmsisFirState R

/-- The plan that `make_backend_plan` of a backend returns. CMSIS has plans of real
configurations only. -/
def Makes (libs : Libraries R) : (b : Backend) → (cfg : FirPlanConfig R) →
    BackendPlan (b.State libs cfg.type) (SampleOf R cfg.type) → Prop
  | .portable, cfg, plan => Portable.makeBackendPlan cfg = .ok plan
  | .liquid, cfg, plan => Liquid.makeBackendPlan libs.liquid cfg = .ok plan
  | .ipp, cfg, plan => Ipp.makeBackendPlan libs.ipp cfg (libs.firSR cfg.type) = .ok plan
  | .cmsis, ⟨.real, precision, taps, tapCount, blockSize, batch, readable⟩, plan =>
    Cmsis.makeBackendPlan libs.cmsis libs.sizeofInstance
      ⟨.real, precision, taps, tapCount, blockSize, batch, readable⟩ = some (.ok plan)
  | .cmsis, ⟨.complexRealTaps, _, _, _, _, _, _⟩, _ => False
  | .cmsis, ⟨.complex, _, _, _, _, _, _⟩, _ => False

/-- A plan of a backend for a configuration. -/
structure Plan (libs : Libraries R) (b : Backend) (cfg : FirPlanConfig R) where
  plan : BackendPlan (b.State libs cfg.type) (SampleOf R cfg.type)
  made : b.Makes libs cfg plan

end Backend

/-! ## Backends that refuse no call -/

section Tracks

variable {libs : Libraries R} {cfg : FirPlanConfig R}

theorem Portable.makeTyped_tracks {S T : Type} [Zero S] [Add S] [HMul S T S]
    (sizeofSample sizeofTap : Nat) {taps : List T} (blockSize : Nat) {batch : Nat}
    (fits : batch * (taps.length - 1) < 2 ^ 64) :
    (makeTyped sizeofSample sizeofTap taps blockSize batch : BackendPlan _ S).Tracks taps blockSize
      batch (Represents taps blockSize batch) where
  start := create_represents blockSize fits
  execute rep holdsIn holdsOut apart := portableExecute_distinct rep holdsIn holdsOut apart
  clear rep := portableClear_represents rep

theorem Cmsis.makeTyped_tracks {lib : CmsisLib R} (documented : lib.Documented)
    {sizeofReal sizeofInstance blockSize batch : Nat} {taps : List R}
    {plan : BackendPlan (CmsisFirState R) R} (positive : 0 < taps.length)
    (made : makeTyped sizeofReal sizeofInstance lib taps taps.length blockSize batch =
      some (.ok plan)) :
    plan.Tracks taps blockSize batch fun h s =>
      ∃ window, Represents taps blockSize batch h window s := by
  obtain ⟨taps_lt, block_lt, windows⟩ := makeTyped_ok positive made
  obtain ⟨s₀, made', rep₀⟩ :=
    makeTyped_represents documented sizeofReal sizeofInstance positive taps_lt block_lt windows
  rw [made] at made'
  cases made'
  refine ⟨⟨_, rep₀⟩, ?_, ?_⟩
  · rintro h s mem input output ⟨window, rep⟩ holdsIn holdsOut apart
    obtain ⟨window', s', run, rep'⟩ :=
      cmsisExecute_distinct documented rep holdsIn holdsOut (.inr apart)
    exact ⟨s', run, window', rep'⟩
  · rintro h s ⟨window, rep⟩
    obtain ⟨s', run, rep'⟩ := cmsisClear_represents rep
    exact ⟨s', run, _, rep'⟩

theorem Backend.Plan.valid {b : Backend} (p : b.Plan libs cfg) : invalidCommon cfg = false := by
  by_contra invalid
  have refused : invalidCommon cfg = true := by
    rwa [Bool.not_eq_false] at invalid
  obtain ⟨plan, made⟩ := p
  cases b with
  | portable =>
    rw [Makes, Portable.makeBackendPlan, if_pos refused] at made
    cases made
  | liquid =>
    rw [Makes, Liquid.makeBackendPlan, if_pos refused] at made
    cases made
  | ipp =>
    rw [Makes, Ipp.makeBackendPlan, if_pos refused] at made
    cases made
  | cmsis =>
    obtain ⟨type, precision, taps, tapCount, blockSize, batch, readable⟩ := cfg
    cases type with
    | real =>
      rw [Makes, Cmsis.makeBackendPlan, if_pos refused] at made
      cases made
    | complexRealTaps => exact made
    | complex => exact made

/-- A plan of another backend than IPP tracks delay lines. -/
theorem Backend.Plan.tracks (documented : libs.Documented) {b : Backend} (other : b ≠ .ipp)
    (fits : cfg.batch * (cfg.tapCount - 1) < 2 ^ 64) (p : b.Plan libs cfg) :
    ∃ Rep, p.plan.Tracks cfg.tapList cfg.blockSize cfg.batch Rep := by
  have valid := p.valid
  have accepted : ¬ invalidCommon cfg = true := by
    rw [valid]
    exact Bool.false_ne_true
  have length := cfg.length_tapList valid
  have positive := (invalidCommon_eq_false valid).2.1
  obtain ⟨plan, made⟩ := p
  cases b with
  | portable =>
    rw [Makes, Portable.makeBackendPlan, if_neg accepted] at made
    cases made
    rw [← length] at fits
    exact ⟨_, Portable.makeTyped_tracks _ _ _ fits⟩
  | liquid =>
    obtain ⟨tapsOf, window, described⟩ := documented.liquid cfg.type
    rw [Makes, Liquid.makeBackendPlan, if_neg accepted] at made
    split at made
    · cases made
    · split at made
      · cases made
      · split at made
        · cases made
        · rename_i fewTaps shortBlock
          cases made
          exact ⟨_, Liquid.backendPlan_tracks described _ length (by omega) (by omega) (by omega)⟩
  | ipp => exact absurd rfl other
  | cmsis =>
    obtain ⟨type, precision, taps, tapCount, blockSize, batch, readable⟩ := cfg
    cases type with
    | real =>
      rw [Makes, Cmsis.makeBackendPlan, if_neg accepted] at made
      have same : (taps.getD []).length = tapCount := length
      change Cmsis.makeTyped (S := R) _ _ _ (taps.getD []) tapCount blockSize batch = _ at made
      rw [← same] at made
      exact ⟨_, Cmsis.makeTyped_tracks (documented.cmsis precision) (positive.trans_eq length.symm)
        made⟩
    | complexRealTaps => exact made.elim
    | complex => exact made.elim

end Tracks

/-! ## IPP -/

section Ipp

variable {S T : Type} {blockSize b : Nat}

/-- An outcome of the kind of its call; no `clear` is refused. -/
def Proper : FirCall S × FirOutcome S → Prop
  | (.execute _ _ _, .executed _ _) => True
  | (.clear, .cleared st) => st = .ok
  | _ => False

/-- The stream of the executes that returned `Ok` is that of the calls served. -/
theorem Ipp.okStream_eq (past : List (FirCall S × FirOutcome S)) :
    (∀ made ∈ past, Proper made) →
      okStream blockSize b past =
        laneStream blockSize b ((past.filter fun made => made.2.ok).map Prod.fst) := by
  induction past using List.reverseRecOn with
  | nil => exact fun _ => rfl
  | append_singleton past made ih =>
    intro proper
    have before := ih fun other member => proper other (List.mem_append_left _ member)
    have last := proper made (List.mem_append_right _ (List.mem_singleton_self made))
    obtain ⟨call, outcome⟩ := made
    cases call with
    | execute mem input output =>
      cases outcome with
      | executed st mem' =>
        by_cases good : st = .ok
        · subst good
          rw [okStream_ok, before, List.filter_append, List.map_append]
          exact (laneStream_execute ..).symm
        · have refused : (FirOutcome.executed st mem' : FirOutcome S).ok = false :=
            decide_eq_false good
          rw [okStream_failed _ _ _ _ _ _ _ good, before, List.filter_append,
            List.filter_singleton, refused, cond_false, List.append_nil]
      | cleared st => exact last.elim
    | clear =>
      cases outcome with
      | executed st mem' => exact last.elim
      | cleared st =>
        have good : st = .ok := last
        subst good
        rw [okStream_clear, List.filter_append, List.map_append]
        exact (laneStream_clear ..).symm

variable [AddCommMonoid S] [HMul S T S] {taps : List T} {batch : Nat}

theorem Ipp.Answers.proper {past : List (FirCall S × FirOutcome S)} {call : FirCall S}
    {outcome : FirOutcome S} (owes : Ipp.Answers taps blockSize batch past call outcome) :
    Proper (call, outcome) := by
  cases call with
  | execute mem input output =>
    obtain ⟨st, written, rfl, -⟩ := owes
    trivial
  | clear =>
    obtain rfl : outcome = .cleared .ok := owes
    rfl

/-- The calls served get what is owed for them alone. -/
theorem Ipp.served_answers (rest : List (FirCall S × FirOutcome S)) :
    ∀ past : List (FirCall S × FirOutcome S), (∀ made ∈ past, Proper made) →
      (∀ k call outcome, rest[k]? = some (call, outcome) →
        Ipp.Answers taps blockSize batch (past ++ rest.take k) call outcome) →
      (rest.filter fun made => made.2.ok).map Prod.snd =
        answers taps blockSize batch ((past.filter fun made => made.2.ok).map Prod.fst)
          ((rest.filter fun made => made.2.ok).map Prod.fst) := by
  induction rest with
  | nil => exact fun _ _ _ => rfl
  | cons made rest ih =>
    intro past proper owes
    obtain ⟨call, outcome⟩ := made
    have first : Ipp.Answers taps blockSize batch past call outcome := by
      simpa using owes 0 call outcome rfl
    have later := ih (past ++ [(call, outcome)])
      (fun other member => by
        rcases List.mem_append.mp member with before | same
        · exact proper other before
        · rw [List.mem_singleton.mp same]
          exact first.proper)
      (fun k call' outcome' found => by
        have next := owes (k + 1) call' outcome' found
        rwa [List.take_succ_cons, ← List.singleton_append, ← List.append_assoc] at next)
    rw [List.filter_append, List.map_append] at later
    cases good : outcome.ok with
    | false =>
      rw [List.filter_singleton, good, cond_false, List.map_nil, List.append_nil] at later
      rw [List.filter_cons_of_neg (by rw [good]; exact Bool.false_ne_true)]
      exact later
    | true =>
      rw [List.filter_singleton, good, cond_true] at later
      have kept : ((call, outcome) :: rest).filter (fun made => made.2.ok) =
          (call, outcome) :: rest.filter fun made => made.2.ok := List.filter_cons_of_pos good
      rw [kept, List.map_cons, List.map_cons, answers]
      refine congrArg₂ List.cons ?_ later
      cases call with
      | execute mem input output =>
        obtain ⟨st, written, rfl, -, onSuccess⟩ := first
        obtain rfl : st = .ok := of_decide_eq_true good
        rw [onSuccess rfl]
        simp only [answer, Ipp.okStream_eq past proper]
      | clear => exact first

end Ipp

/-! ## All backends -/

/-- Calls of a plan give outcomes, those of the calls served what is owed for these alone.
Only IPP refuses calls. -/
theorem Backend.Plan.serves {libs : Libraries R} (documented : libs.Documented) {b : Backend}
    {cfg : FirPlanConfig R} (fits : cfg.batch * (cfg.tapCount - 1) < 2 ^ 64) (p : b.Plan libs cfg)
    {calls : List (FirCall (SampleOf R cfg.type))}
    (distinct : ∀ call ∈ calls, call.Distinct (cfg.batch * cfg.blockSize)) :
    ∃ outcomes s, p.plan.run calls = some (outcomes, s) ∧ outcomes.length = calls.length ∧
      (served calls outcomes).map Prod.snd = answers cfg.tapList cfg.blockSize cfg.batch []
        ((served calls outcomes).map Prod.fst) ∧
      (b ≠ .ipp → ∀ outcome ∈ outcomes, outcome.ok) := by
  by_cases vendor : b = .ipp
  · subst vendor
    have length := cfg.length_tapList p.valid
    have nonempty := (invalidCommon_eq_false p.valid).2.1
    obtain ⟨plan, made⟩ := p
    rw [Makes, Ipp.makeBackendPlan] at made
    split at made
    · cases made
    · split at made
      · cases made
      · rw [← length] at made fits nonempty
        obtain ⟨outcomes, s, spec, run, size, -, owes⟩ := Ipp.run_remembers made nonempty fits
          (documented.ipp cfg.precision cfg.type) calls fun call member =>
            (distinct call member).usable
        refine ⟨outcomes, s, run, size, ?_, fun other => absurd rfl other⟩
        refine Ipp.served_answers (calls.zip outcomes) [] (fun _ none => absurd none
          List.not_mem_nil) fun k call outcome found => ?_
        rw [List.getElem?_zip_eq_some] at found
        exact owes k call outcome found.1 found.2
  · obtain ⟨Rep, tracks⟩ := p.tracks documented vendor fits
    obtain ⟨s, run⟩ := tracks.run_eq distinct
    have all := answers_ok (S := SampleOf R cfg.type) cfg.tapList cfg.blockSize cfg.batch calls []
    have size := length_answers (S := SampleOf R cfg.type) cfg.tapList cfg.blockSize cfg.batch calls
      []
    obtain ⟨first, second⟩ := served_all size all
    exact ⟨_, s, run, size, by rw [first, second], fun _ => all⟩

end DspDispatch.Fir
