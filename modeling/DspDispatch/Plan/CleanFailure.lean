import DspDispatch.Fir.StateSizes
import DspDispatch.Fir.CmsisRefinement
import DspDispatch.Fft.PocketfftCreation

/-!
# Which plan creations fail cleanly

A factory is expected to answer a failure with an error status and nothing left
behind. The factories check the sizes and the answers of the libraries, and
pocketfft's exceptions are caught, but their own allocations are unguarded: a
`new` or a vector that fails lets the exception out of `make_backend_plan`, and
after the `new` of the state it leaves the state behind.
-/

namespace DspDispatch

open Kit Kit.Throwing

/-- The factories of the pocketfft FFT and of the IPP, CMSIS and portable FIR
backends end cleanly exactly when the configuration is rejected, or when no
allocation of the factory itself fails. For IPP a failing size call comes before
all of them. For CMSIS the windows must have room in the state vector. For
pocketfft the warm-up must stay inside its buffers and the library inside its
arrays, as far as the library comes; for short transforms that is to say that all
lanes the library counts are inside the two buffers, or that it counts no samples. -/
theorem plan_creation_clean {R : Type} [CommRing R] :
    (∀ (target : Fft.Pocketfft.Target) (cached : Bool) (cfg : Fft.FftPlanConfig)
        (fails : Fft.Pocketfft.Site → Bool),
      Clean cfg.Valid ((Fft.Pocketfft.createPlan target cached cfg).run fails) ↔
        ¬ cfg.Valid ∨ Fft.Pocketfft.Reaches fails cfg ∧
          Fft.Pocketfft.WarmUpInside target cached cfg fails) ∧
    (∀ (target : Fft.Pocketfft.Target) (cached : Bool) (cfg : Fft.FftPlanConfig)
        (fails : Fft.Pocketfft.Site → Bool), Fft.Pocketfft.ShortOn target cfg →
      (∀ k, fails (.library k) = false) →
      (Fft.Pocketfft.WarmUpInside target cached cfg fails ↔
        cfg.batch * cfg.length % 2 ^ 64 = 0 ∨ Fft.Pocketfft.LanesInside cfg)) ∧
    (∀ (ipp : Fir.FirPrecision → (t : Fir.FirType) → Fir.Ipp.IppLib (Fir.TapOf R t))
        (cfg : Fir.FirPlanConfig R) (fails : Fir.Ipp.Site → Bool),
      Clean (Fir.Ipp.Admits cfg) ((Fir.Ipp.createPlan ipp cfg).run fails) ↔
        ¬ Fir.Ipp.Admits cfg ∨
          ¬ Fir.Ipp.SizesUsable (ipp cfg.precision cfg.type) cfg.tapCount ∨
          Fir.Ipp.AllMade fails (cfg.type.sizeofSample cfg.precision)
            (ipp cfg.precision cfg.type) cfg.tapCount cfg.batch) ∧
    (∀ (lib : Fir.FirPrecision → Fir.Cmsis.CmsisLib R),
      (∀ precision, (lib precision).Documented) →
      ∀ (sizeofInstance : Fir.FirPrecision → Nat) (cfg : Fir.FirPlanConfig R)
        (fails : Fir.Cmsis.Site → Bool),
      Clean (Fir.Cmsis.Admits cfg) ((Fir.Cmsis.createPlan lib sizeofInstance cfg).run fails) ↔
        ¬ Fir.Cmsis.Admits cfg ∨
          Fir.Cmsis.AllMade fails cfg.precision.sizeofReal (sizeofInstance cfg.precision)
              cfg.tapCount cfg.blockSize cfg.batch ∧
            cfg.batch * (cfg.tapCount + cfg.blockSize - 1) < 2 ^ 64) ∧
    (∀ (cfg : Fir.FirPlanConfig R) (fails : Fir.Portable.Site → Bool),
      Clean (Fir.Portable.Admits cfg) ((Fir.Portable.createPlan cfg).run fails) ↔
        ¬ Fir.Portable.Admits cfg ∨
          Fir.Portable.AllMade fails (cfg.type.sizeofSample cfg.precision)
            (cfg.type.sizeofTap cfg.precision)
            (Fir.Portable.PortableState.createSized cfg.tapList cfg.blockSize cfg.batch :
              Fir.Portable.PortableState (Fir.SampleOf R cfg.type) (Fir.TapOf R cfg.type))) := by
  refine ⟨fun target cached cfg fails => Fft.Pocketfft.createPlan_clean_iff,
    fun target cached cfg fails short nothing => ?_, fun ipp cfg fails => ?_,
    fun lib documented sizeofInstance cfg fails => ?_, fun cfg fails => ?_⟩
  · rw [← Fft.Pocketfft.prod_pair]
    exact short.warmUpInside_iff nothing
  · exact Fir.Ipp.createPlan_clean_iff ipp cfg fails
  · exact Fir.Cmsis.createPlan_clean_iff documented sizeofInstance cfg fails
  · exact Fir.Portable.createPlan_clean_iff cfg fails

/-- One tap, one lane of one sample. -/
def oneTap : Fir.FirPlanConfig Int := Fir.realConfig [3] rfl 1 1

/-- An IPP library whose specs take eight bytes. -/
def smallSpecs (_ : Fir.FirPrecision) (t : Fir.FirType) : Fir.Ipp.IppLib (Fir.TapOf Int t) where
  getSize _ := (.noErr, 8, 0)
  init _ _ buffer := (.noErr, buffer)

/-- Where nothing fails, all four factories end cleanly. -/
theorem plan_creation_clean_nothing_fails :
    Clean Fft.sixteen.Valid
      ((Fft.Pocketfft.createPlan Fft.Pocketfft.sse2 false Fft.sixteen).run fun _ => false) ∧
    Clean (Fir.Ipp.Admits oneTap) ((Fir.Ipp.createPlan smallSpecs oneTap).run fun _ => false) ∧
    Clean (Fir.Cmsis.Admits oneTap) ((Fir.Cmsis.createPlan (fun _ => Fir.Cmsis.plainLib Int)
      (fun _ => 16) oneTap).run fun _ => false) ∧
    Clean (Fir.Portable.Admits oneTap) ((Fir.Portable.createPlan oneTap).run fun _ => false) := by
  have clean := plan_creation_clean (R := Int)
  have short : Fft.Pocketfft.ShortOn Fft.Pocketfft.sse2 Fft.sixteen :=
    ⟨by decide, by decide, by decide, by decide, by decide⟩
  refine ⟨?_, ?_, ?_, ?_⟩
  · refine (clean.1 _ _ _ _).mpr (.inr ⟨?_, ?_⟩)
    · exact ⟨rfl, by decide, by decide, by decide, by decide, by decide, by decide⟩
    · exact (clean.2.1 _ _ _ _ short fun _ => rfl).mpr (.inr (by decide))
  · refine (clean.2.2.1 _ _ _).mpr (.inr (.inr ?_))
    exact ⟨rfl, by decide, by decide, by decide +kernel, by decide +kernel⟩
  · refine (clean.2.2.2.1 _ (fun _ => Fir.Cmsis.plainLib_documented Int) _ _ _).mpr (.inr ⟨?_, ?_⟩)
    · exact ⟨rfl, by decide, by decide +kernel, by decide⟩
    · decide
  · refine (clean.2.2.2.2 _ _).mpr (.inr ?_)
    exact ⟨rfl, by decide, by decide +kernel, by decide +kernel⟩

/-- A `new` that fails lets its exception out of every factory, and an IPP buffer
that fails also leaves the state behind. -/
theorem failing_new_is_not_clean :
    ¬ Clean (Fir.Portable.Admits oneTap)
        ((Fir.Portable.createPlan oneTap).run fun site => site = .object) ∧
    ¬ Clean (Fir.Cmsis.Admits oneTap) ((Fir.Cmsis.createPlan (fun _ => Fir.Cmsis.plainLib Int)
        (fun _ => 16) oneTap).run fun site => site = .object) ∧
    ¬ Clean (Fir.Ipp.Admits oneTap)
        ((Fir.Ipp.createPlan smallSpecs oneTap).run fun site => site = .object) ∧
    ((Fir.Ipp.createPlan smallSpecs oneTap).run fun site => site = .spec).2.alive = [0] :=
  ⟨id, id, id, rfl⟩

end DspDispatch
