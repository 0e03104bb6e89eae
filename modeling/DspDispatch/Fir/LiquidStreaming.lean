import DspDispatch.Fir.Answers
import DspDispatch.Fir.Liquid

/-!
# Streaming of the Liquid FIR backend

The filter objects of liquid-dsp keep the taps and the last samples. Over a run of calls the
object of a lane keeps the samples of that lane's stream.
-/

namespace DspDispatch.Fir.Liquid

open Kit

section Streaming

variable {S T : Type} [AddCommMonoid S] [HMul S T S] {lib : FirFilt S T} {taps : List T}
  {tapCount blockSize batch : Nat}

/-- What is documented of the objects, which keep taps and a window of samples. `create`
starts with zeros. `execute_block` writes for each sample the sum of the taps times the
samples up to it, and leaves the last samples in the window. `reset` sets the window to
zeros. -/
structure FirFilt.Documented (lib : FirFilt S T) (tapsOf : lib.Filter → List T)
    (window : lib.Filter → List S) : Prop where
  taps_create : ∀ ts, 0 < ts.length → ts.length < 2 ^ 32 → tapsOf (lib.create ts ts.length) = ts
  window_create : ∀ ts, 0 < ts.length → ts.length < 2 ^ 32 →
    window (lib.create ts ts.length) = List.replicate (ts.length - 1) 0
  length_written : ∀ f block, (lib.executeBlock f block).1.length = block.length
  written_eq : ∀ f block, (window f).length = (tapsOf f).length - 1 → ∀ i, i < block.length →
    (lib.executeBlock f block).1[i]? = some (∑ j : Fin (tapsOf f).length,
      (window f ++ block).getD ((tapsOf f).length - 1 + i - j) 0 * (tapsOf f).get j)
  taps_executeBlock : ∀ f block, tapsOf (lib.executeBlock f block).2 = tapsOf f
  window_executeBlock : ∀ f block,
    window (lib.executeBlock f block).2 = (window f ++ block).drop block.length
  taps_reset : ∀ f, tapsOf (lib.reset f) = tapsOf f
  window_reset : ∀ f, window (lib.reset f) = List.replicate (window f).length 0

/-- An object filters a block behind its window. -/
theorem FirFilt.Documented.written_filterBlock {tapsOf : lib.Filter → List T}
    {window : lib.Filter → List S} (documented : lib.Documented tapsOf window) {f : lib.Filter}
    (width : (window f).length = (tapsOf f).length - 1) (block : List S) :
    (lib.executeBlock f block).1 = filterBlock (tapsOf f) (window f) block := by
  apply List.ext_getElem?
  intro i
  by_cases inBlock : i < block.length
  · rw [documented.written_eq f block width i inBlock, filterBlock, List.getElem?_map,
      List.getElem?_range inBlock, Option.map_some, tapSum_eq_sum, width]
  · rw [List.getElem?_eq_none (by rw [documented.length_written]; omega),
      List.getElem?_eq_none (by rw [length_filterBlock]; omega)]

/-- A state whose object of lane `b` has the delay line `h b` in its window. -/
structure Represents (tapsOf : lib.Filter → List T) (window : lib.Filter → List S) (taps : List T)
    (blockSize batch : Nat) (h : Nat → List S) (s : LiquidState lib) : Prop where
  blockSize_eq : s.blockSize = blockSize
  blockSize_lt : blockSize < 2 ^ 32
  batch_eq : s.batch = batch
  filters : ∃ filters : Nat → lib.Filter, s.filters = (List.range batch).map filters ∧
    ∀ b, b < batch → tapsOf (filters b) = taps ∧ window (filters b) = h b ∧
      (h b).length = taps.length - 1

/-- A new plan tracks delay lines. -/
theorem backendPlan_tracks {tapsOf : lib.Filter → List T} {window : lib.Filter → List S}
    (documented : lib.Documented tapsOf window) (sizeofSample : Nat)
    (length : taps.length = tapCount) (positive : 0 < taps.length)
    (taps_lt : taps.length < 2 ^ 32) (block_lt : blockSize < 2 ^ 32) :
    (backendPlan sizeofSample lib taps tapCount blockSize batch).Tracks taps blockSize batch
      (Represents tapsOf window taps blockSize batch) where
  start := by
    refine ⟨rfl, block_lt, rfl, fun _ => lib.create taps taps.length, ?_, fun b _ => ?_⟩
    · change (List.range batch).map (fun _ => lib.create taps (toUInt32 tapCount)) = _
      rw [← length, toUInt32_of_lt taps_lt]
    · rw [delayLine_nil]
      exact ⟨documented.taps_create taps positive taps_lt,
        documented.window_create taps positive taps_lt, List.length_replicate⟩
  execute := by
    rintro h s mem input output ⟨rfl, block_lt, rfl, filters, stored, objects⟩ holdsIn holdsOut apart
    have run := liquidExecute_eq documented.length_written stored block_lt holdsIn holdsOut
      (.inr apart)
    refine ⟨{ s with filters := (List.range s.batch).map fun b =>
        (lib.executeBlock (filters b) (laneBlock s.blockSize mem input b)).2 }, run.trans ?_, rfl,
      block_lt, rfl, _, rfl, fun b below => ?_⟩
    · congr 4
      refine lanes_congr fun b below => ?_
      obtain ⟨sameTaps, sameWindow, width⟩ := objects b below
      rw [documented.written_filterBlock (by rw [sameWindow, sameTaps, width]), sameTaps, sameWindow]
    · obtain ⟨sameTaps, sameWindow, width⟩ := objects b below
      refine ⟨(documented.taps_executeBlock _ _).trans sameTaps, ?_, ?_⟩
      · rw [documented.window_executeBlock, sameWindow]
        rfl
      · rw [length_shiftIn, width]
  clear := by
    rintro h s ⟨rfl, block_lt, rfl, filters, stored, objects⟩
    refine ⟨_, rfl, rfl, block_lt, rfl, fun b => lib.reset (filters b), ?_, fun b below => ?_⟩
    · change s.filters.map lib.reset = _
      rw [stored, List.map_map]
      rfl
    · obtain ⟨sameTaps, sameWindow, width⟩ := objects b below
      rw [delayLine_nil, documented.window_reset, sameWindow, width]
      exact ⟨(documented.taps_reset _).trans sameTaps, rfl, List.length_replicate⟩

end Streaming

end DspDispatch.Fir.Liquid
