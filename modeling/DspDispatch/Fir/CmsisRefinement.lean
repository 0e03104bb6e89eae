import DspDispatch.Fir.Cmsis
import DspDispatch.Fir.PortableStreaming

/-!
# The CMSIS FIR backend refines the portable one

Both states stand for the same delay lines: the portable history slice of a lane
is the front of the lane's CMSIS window. `step_simulates` keeps this relation
over a call and gives equal outcomes, so the two plans cannot be told apart by
any run of calls.
-/

namespace DspDispatch.Fir.Cmsis

open Kit

section Simulation

variable {R : Type} [CommRing R] {lib : CmsisLib R} {taps : List R} {blockSize batch : Nat}

/-- Both states hold the same delay lines. -/
def Simulates (taps : List R) (blockSize batch : Nat) (s : Portable.PortableState R R)
    (t : CmsisFirState R) : Prop :=
  ∃ h window, Portable.Represents taps blockSize batch h s ∧
    Represents taps blockSize batch h window t

/-- One call gives the same outcome on both plans and keeps the relation. -/
theorem step_simulates (documented : lib.Documented)
    (sizeofSample sizeofTap sizeofReal sizeofInstance : Nat) {s : Portable.PortableState R R}
    {t t₀ : CmsisFirState R} {call : FirCall R} (related : Simulates taps blockSize batch s t)
    (distinct : call.Distinct (batch * blockSize)) :
    ∃ outcome s' t',
      (Portable.makeTyped sizeofSample sizeofTap taps blockSize batch).step s call =
        some (outcome, s') ∧
      (backendPlan sizeofReal sizeofInstance lib t₀).step t call = some (outcome, t') ∧
      Simulates taps blockSize batch s' t' := by
  obtain ⟨h, window, repPortable, repCmsis⟩ := related
  cases call with
  | execute mem input output =>
    obtain ⟨holdsIn, holdsOut, apart⟩ := distinct
    obtain ⟨s', executed, repPortable'⟩ :=
      Portable.portableExecute_distinct repPortable holdsIn holdsOut apart
    obtain ⟨window', t', executed', repCmsis'⟩ :=
      cmsisExecute_distinct documented repCmsis holdsIn holdsOut (.inr apart)
    refine ⟨.executed .ok (mem.write output (filteredLanes taps blockSize batch h mem input)),
      s', t', ?_, ?_, _, window', repPortable', repCmsis'⟩
    · simp only [BackendPlan.step, Portable.makeTyped, executed, Option.map_some]
    · simp only [BackendPlan.step, backendPlan, executed', Option.map_some]
  | clear =>
    obtain ⟨s', cleared, repPortable'⟩ := Portable.portableClear_represents repPortable
    obtain ⟨t', cleared', repCmsis'⟩ := cmsisClear_represents repCmsis
    refine ⟨.cleared .ok, s', t', ?_, ?_, _, _, repPortable', repCmsis'⟩
    · simp only [BackendPlan.step, Portable.makeTyped, cleared, Option.map_some]
    · simp only [BackendPlan.step, backendPlan, cleared', Option.map_some]

/-- The simulation over a whole run, from the states of new plans. -/
theorem run_simulates (documented : lib.Documented)
    (sizeofSample sizeofTap sizeofReal sizeofInstance : Nat) (taps_pos : 0 < taps.length)
    {cmsis : BackendPlan (CmsisFirState R) R}
    (made : makeTyped sizeofReal sizeofInstance lib taps taps.length blockSize batch =
      some (.ok cmsis))
    (calls : List (FirCall R)) (distinct : ∀ call ∈ calls, call.Distinct (batch * blockSize)) :
    ∃ outcomes s t,
      (Portable.makeTyped sizeofSample sizeofTap taps blockSize batch).run calls =
        some (outcomes, s) ∧
      cmsis.run calls = some (outcomes, t) := by
  obtain ⟨taps_lt, block_lt, windows⟩ := makeTyped_ok taps_pos made
  obtain ⟨t₀, made', repCmsis⟩ := makeTyped_represents documented sizeofReal sizeofInstance
    taps_pos taps_lt block_lt windows
  rw [made] at made'
  cases made'
  -- a window is at least as long as a history slice
  have history : batch * (taps.length - 1) < 2 ^ 64 :=
    Nat.lt_of_le_of_lt (Nat.mul_le_mul_left batch (by omega)) windows
  have simulation : ∀ s t (call : FirCall R), Simulates taps blockSize batch s t →
      call.Distinct (batch * blockSize) → ∃ outcome s' t',
        (Portable.makeTyped sizeofSample sizeofTap taps blockSize batch).step s call =
          some (outcome, s') ∧
        (backendPlan sizeofReal sizeofInstance lib t₀).step t call = some (outcome, t') ∧
        Simulates taps blockSize batch s' t' :=
    fun _ _ _ related ok =>
      step_simulates documented sizeofSample sizeofTap sizeofReal sizeofInstance related ok
  obtain ⟨outcomes, s, t, runPortable, runCmsis, -⟩ :=
    runSteps_simulation (Simulates taps blockSize batch)
      (fun call => call.Distinct (batch * blockSize)) simulation calls
      (Portable.PortableState.createSized taps blockSize batch) t₀
      ⟨_, _, Portable.create_represents blockSize history, repCmsis⟩ distinct
  exact ⟨outcomes, s, t, runPortable, runCmsis⟩

end Simulation

/-- For every real configuration that both backends accept, every run of execute
and clear calls with output distinct from input gives the same outcomes on both
plans: the same statuses and the same memory after every call. -/
theorem cmsis_refines_portable {R : Type} [CommRing R] (lib : FirPrecision → CmsisLib R)
    (documented : ∀ p, (lib p).Documented) (sizeofInstance : FirPrecision → Nat)
    (precision : FirPrecision) (taps : Option (List R)) (tapCount blockSize batch : Nat)
    (readable : ∀ ts, taps = some ts → ts.length = tapCount) :
    let cfg : FirPlanConfig R :=
      { type := .real, precision, taps, tapCount, blockSize, batch, readable }
    ∀ (portable : BackendPlan (Portable.PortableState R R) R)
      (cmsis : BackendPlan (CmsisFirState R) R),
      Portable.makeBackendPlan cfg = .ok portable →
      makeBackendPlan lib sizeofInstance cfg = some (.ok cmsis) →
      ∀ calls : List (FirCall R), (∀ call ∈ calls, call.Distinct (batch * blockSize)) →
        ∃ outcomes s t, portable.run calls = some (outcomes, s) ∧
          cmsis.run calls = some (outcomes, t) := by
  intro cfg portable cmsis madePortable madeCmsis calls distinct
  unfold Portable.makeBackendPlan at madePortable
  unfold makeBackendPlan at madeCmsis
  by_cases invalid : invalidCommon cfg = true
  · rw [if_pos invalid] at madePortable
    cases madePortable
  · rw [if_neg invalid] at madePortable madeCmsis
    cases madePortable
    have valid : invalidCommon cfg = false := by simpa using invalid
    obtain ⟨-, taps_pos, -, -⟩ := invalidCommon_eq_false valid
    have tapCount_eq : cfg.tapList.length = tapCount := cfg.length_tapList valid
    have made : makeTyped precision.sizeofReal (sizeofInstance precision) (lib precision)
        (taps.getD []) tapCount blockSize batch = some (.ok cmsis) := madeCmsis
    have tapLength : (taps.getD []).length = tapCount := tapCount_eq
    have positive : 0 < tapCount := taps_pos
    rw [← tapLength] at made positive
    exact run_simulates (documented precision) _ _ _ _ positive made calls distinct

/-! ## An instance -/

/-- The library as its documentation describes it. -/
def plainLib (R : Type) [CommRing R] : CmsisLib R where
  firInit window := List.replicate window.length 0
  fir coeffs window src :=
    let slid := overwrite window (coeffs.length - 1) src
    ((List.range src.length).map fun i => tapSum coeffs fun j => slid.getD (i + j) 0,
      overwrite slid 0 (slid.drop src.length))

theorem plainLib_documented (R : Type) [CommRing R] : (plainLib R).Documented where
  firInit_eq _ := rfl
  length_dst coeffs window src _ _ := by
    rw [plainLib, List.length_map, List.length_range]
  dst_eq coeffs window src _ _ i inBlock := by
    rw [plainLib, List.getElem?_map, List.getElem?_range inBlock, Option.map_some, tapSum_eq_sum]
    exact congrArg some (Finset.sum_congr rfl fun j _ => mul_comm _ _)
  length_window coeffs window src positive shape := by
    have fits : coeffs.length - 1 + src.length ≤ window.length := by omega
    rw [plainLib, length_overwrite, length_overwrite fits]
    rw [List.length_drop]
    omega
  window_eq coeffs window src positive shape := by
    have fits : coeffs.length - 1 + src.length ≤ window.length := by omega
    have kept : ((overwrite window (coeffs.length - 1) src).drop src.length).length =
        coeffs.length - 1 := by
      rw [List.length_drop, length_overwrite fits]
      omega
    have front := segment_overwrite (overwrite window (coeffs.length - 1) src)
      ((overwrite window (coeffs.length - 1) src).drop src.length) (k := 0)
      (by rw [List.length_drop]; omega)
    rw [kept, Kit.segment, List.drop_zero] at front
    exact front

/-- Two taps, two lanes with blocks of three samples, and a clear. -/
theorem cmsis_refines_portable_two_taps :
    let block (v : Int) : FirCall Int :=
      .execute ⟨fun _ => [v, 2, 3, 4, 5, 6]⟩ ⟨0, 0⟩ ⟨1, 0⟩
    let calls := [block 1, block 9, .clear, block 1]
    ∃ (cmsis : BackendPlan (CmsisFirState Int) Int) (outcomes : List (FirOutcome Int))
      (s : Portable.PortableState Int Int) (t : CmsisFirState Int),
      makeBackendPlan (fun _ => plainLib Int) (fun _ => 16) (realConfig [7, 8] rfl 3 2) =
        some (.ok cmsis) ∧
      (Portable.makeTyped 4 4 ([7, 8] : List Int) 3 2).run calls = some (outcomes, s) ∧
      cmsis.run calls = some (outcomes, t) := by
  intro block calls
  have windows : 2 * (([7, 8] : List Int).length + 3 - 1) < 2 ^ 64 := by decide
  obtain ⟨start, made, -⟩ := makeTyped_represents (plainLib_documented Int) 4 16
    (by decide) (by decide) (by decide) windows
  obtain ⟨outcomes, s, t, portable, cmsis⟩ := cmsis_refines_portable (fun _ => plainLib Int)
    (fun _ => plainLib_documented Int) (fun _ => 16) .f32 (some [7, 8]) 2 3 2
    (by rintro ts ⟨⟩; rfl) _ _ rfl made calls
    (by
      intro call member
      simp only [calls, List.mem_cons, List.not_mem_nil, or_false] at member
      rcases member with rfl | rfl | rfl | rfl
      · exact ⟨by decide, by decide, by decide⟩
      · exact ⟨by decide, by decide, by decide⟩
      · trivial
      · exact ⟨by decide, by decide, by decide⟩)
  exact ⟨_, outcomes, s, t, made, portable, cmsis⟩

end DspDispatch.Fir.Cmsis
