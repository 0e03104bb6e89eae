import DspDispatch.Fir.Creation

/-!
# The state vectors of the FIR backends

Every lane of a plan owns a slice of the vectors its factory makes: the portable
history and the IPP delays hold `tap_count - 1` samples a lane, the CMSIS windows
`tap_count + block_size - 1`. The element counts are products in `size_t`
arithmetic, which no factory checks.
-/

namespace DspDispatch.Fir

open Kit

variable {R : Type} [CommRing R]

/-- A vector of `count` elements has room for a slice of `width` elements for
each of `batch` lanes. -/
structure Covers (batch width count : Nat) : Prop where
  total : batch * width ≤ count
  slice : ∀ b, b < batch → (b + 1) * width ≤ count

/-- A vector whose count is computed in `size_t` arithmetic has room exactly when
the product is a `size_t` value. -/
theorem covers_mulSize {batch width : Nat} :
    Covers batch width (mulSize batch width) ↔ batch * width < 2 ^ 64 := by
  constructor
  · intro covers
    exact le_mulSize_iff.mp covers.total
  · intro small
    refine ⟨le_mulSize_iff.mpr small, fun b below => ?_⟩
    rw [mulSize_of_lt small]
    exact Nat.mul_le_mul_right width below

section Lengths

variable {S T : Type} [Zero S]

theorem Ipp.length_delays_eq {tapCount batch : Nat} (nonempty : 0 < tapCount)
    (small : tapCount < 2 ^ 64) :
    (Ipp.delays tapCount batch : List S).length = mulSize batch (tapCount - 1) := by
  rw [Ipp.length_delays, subSize_of_le small nonempty]

end Lengths

/-- For a portable, an IPP or a CMSIS configuration that passes the checks, the
state vectors have room for the slices of all lanes exactly when the number of
elements is a `size_t` value. -/
theorem state_vectors_cover (cfg : FirPlanConfig R) (sized : cfg.Sized) :
    (Portable.Admits cfg →
      (Covers cfg.batch (cfg.tapCount - 1)
          (Portable.PortableState.createSized cfg.tapList cfg.blockSize cfg.batch :
            Portable.PortableState (SampleOf R cfg.type) (TapOf R cfg.type)).history.length ↔
        cfg.batch * (cfg.tapCount - 1) < 2 ^ 64)) ∧
    (Ipp.Admits cfg →
      (Covers cfg.batch (cfg.tapCount - 1)
          (Ipp.delays cfg.tapCount cfg.batch : List (SampleOf R cfg.type)).length ↔
        cfg.batch * (cfg.tapCount - 1) < 2 ^ 64)) ∧
    (Cmsis.Admits cfg → ∀ coeffs : List R,
      (Covers cfg.batch (cfg.tapCount + cfg.blockSize - 1)
          (Cmsis.allocated coeffs cfg.tapCount cfg.blockSize cfg.batch).state.length ↔
        cfg.batch * (cfg.tapCount + cfg.blockSize - 1) < 2 ^ 64)) := by
  refine ⟨fun admits => ?_, fun admits => ?_, fun admits coeffs => ?_⟩
  · have length := FirPlanConfig.length_tapList admits
    rw [Portable.length_history_createSized, length]
    exact covers_mulSize
  · obtain ⟨-, taps_pos, -, -⟩ := invalidCommon_eq_false admits.valid
    rw [Ipp.length_delays_eq taps_pos sized.tapCount_lt]
    exact covers_mulSize
  · obtain ⟨-, taps_pos, -, -⟩ := invalidCommon_eq_false admits.valid
    have bounds : cfg.tapCount + cfg.blockSize < 2 ^ 64 := by
      have := admits.tapCount_le
      have := admits.blockSize_le
      omega
    rw [Cmsis.length_allocated, Cmsis.stateLen_eq taps_pos bounds]
    exact covers_mulSize

/-- Two taps, three lanes of four samples. -/
def threeLanes : FirPlanConfig Int := realConfig [1, 2] rfl 4 3

theorem state_vectors_cover_three_lanes :
    Covers 3 1 (Portable.PortableState.createSized threeLanes.tapList 4 3 :
      Portable.PortableState (SampleOf Int .real) (TapOf Int .real)).history.length ∧
    Covers 3 1 (Ipp.delays 2 3 : List (SampleOf Int .real)).length ∧
    Covers 3 5 (Cmsis.allocated ([2, 1] : List Int) 2 4 3).state.length := by
  have sized : threeLanes.Sized := ⟨by decide, by decide, by decide⟩
  have cover := state_vectors_cover threeLanes sized
  have ipp : Ipp.Admits threeLanes := ⟨rfl, by decide, by decide, by decide⟩
  have cmsis : Cmsis.Admits threeLanes := ⟨rfl, rfl, by decide, by decide⟩
  exact ⟨(cover.1 rfl).mpr (by decide), (cover.2.1 ipp).mpr (by decide),
    (cover.2.2 cmsis [2, 1]).mpr (by decide)⟩

/-- `2 ^ 48` lanes with windows of `2 ^ 16` samples. -/
def wrappingWindows : FirPlanConfig Int := realConfig [1] rfl (2 ^ 16) (2 ^ 48)

theorem wrapping_vectors_do_not_cover :
    (wrappingHistory.Sized ∧ Portable.Admits wrappingHistory ∧
      ¬ Covers wrappingHistory.batch (wrappingHistory.tapCount - 1)
        (Portable.PortableState.createSized wrappingHistory.tapList 1 (2 ^ 34) :
          Portable.PortableState (SampleOf Int wrappingHistory.type)
            (TapOf Int wrappingHistory.type)).history.length) ∧
    (Ipp.Admits wrappingHistory ∧
      ¬ Covers wrappingHistory.batch (wrappingHistory.tapCount - 1)
        (Ipp.delays (2 ^ 30 + 1) (2 ^ 34) : List (SampleOf Int .real)).length) ∧
    (wrappingWindows.Sized ∧ Cmsis.Admits wrappingWindows ∧
      ¬ Covers wrappingWindows.batch (wrappingWindows.tapCount + wrappingWindows.blockSize - 1)
        (Cmsis.allocated ([1] : List Int) 1 (2 ^ 16) (2 ^ 48)).state.length) := by
  have valid : invalidCommon wrappingHistory = false := rfl
  have taps : wrappingHistory.tapList.length = 2 ^ 30 + 1 := FirPlanConfig.length_tapList valid
  have history : wrappingHistory.Sized := ⟨by decide, by decide, by decide⟩
  have windows : wrappingWindows.Sized := ⟨by decide, by decide, by decide⟩
  refine ⟨⟨history, valid, fun covers => ?_⟩,
    ⟨⟨valid, by decide, by decide, by decide⟩, fun covers => ?_⟩,
    windows, ⟨rfl, rfl, by decide, by decide⟩, fun covers => ?_⟩
  · have length : (Portable.PortableState.createSized wrappingHistory.tapList 1 (2 ^ 34) :
        Portable.PortableState (SampleOf Int wrappingHistory.type)
          (TapOf Int wrappingHistory.type)).history.length = 0 := by
      rw [Portable.length_history_createSized, taps, mulSize]
      decide
    exact absurd (length ▸ covers.total) (by decide)
  · have length : (Ipp.delays (2 ^ 30 + 1) (2 ^ 34) : List (SampleOf Int .real)).length = 0 := by
      rw [Ipp.length_delays_eq (by decide) (by decide), mulSize]
      decide
    exact absurd (length ▸ covers.total) (by decide)
  · have length : (Cmsis.allocated ([1] : List Int) 1 (2 ^ 16) (2 ^ 48)).state.length = 0 := by
      rw [Cmsis.length_allocated, Cmsis.stateLen_eq (by decide) (by decide), mulSize]
      decide
    exact absurd (length ▸ covers.total) (by decide)

end DspDispatch.Fir
