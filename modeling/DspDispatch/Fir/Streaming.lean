import DspDispatch.Fir.Plan

/-!
# What a streaming filter owes on one call

A plan's lanes are filtered independently, and each lane is a tapped delay line.
`filteredLanes` is the block a call writes when lane `b` remembers `h b`;
`convolvedLanes` is the convolution of the taps with lane `b`'s whole stream,
at the positions of the new block. They agree when `h b` is the delay line of
that stream.

`forLoop_filterLanes` is the rule for a backend's loop over its lanes.
-/

namespace DspDispatch.Fir

open Kit

variable {S T : Type} [Zero S] [Add S] [HMul S T S] {taps : List T} {blockSize batch : Nat}
  {mem : Mem S} {input : Ptr}

/-- The block filtered behind the remembered samples, lane after lane. -/
def filteredLanes (taps : List T) (blockSize batch : Nat) (h : Nat → List S) (mem : Mem S)
    (input : Ptr) : List S :=
  lanes batch fun b => filterBlock taps (h b) (laneBlock blockSize mem input b)

/-- For each lane the convolution of the taps with its stream, over the
positions of the new block. -/
def convolvedLanes (taps : List T) (blockSize batch : Nat) (stream : Nat → List S)
    (mem : Mem S) (input : Ptr) : List S :=
  lanes batch fun b => (List.range blockSize).map fun i =>
    convolveAt taps (stream b ++ laneBlock blockSize mem input b) ((stream b).length + i)

theorem length_filteredLanes {h : Nat → List S} (holds : mem.Holds input (batch * blockSize)) :
    (filteredLanes taps blockSize batch h mem input).length = batch * blockSize :=
  length_lanes fun b below => by rw [length_filterBlock, length_laneBlock holds below]

theorem length_convolvedLanes {stream : Nat → List S} :
    (convolvedLanes taps blockSize batch stream mem input).length = batch * blockSize :=
  length_lanes fun b _ => by rw [List.length_map, List.length_range]

theorem filteredLanes_delayLine {h stream : Nat → List S}
    (remembers : ∀ b, b < batch → h b = delayLine (taps.length - 1) (stream b))
    (holds : mem.Holds input (batch * blockSize)) :
    filteredLanes taps blockSize batch h mem input =
      convolvedLanes taps blockSize batch stream mem input := by
  apply lanes_congr
  intro b below
  rw [remembers b below, filterBlock_delayLine (by omega), length_laneBlock holds below]

/-- Reading one sample of a written answer. -/
theorem load_convolvedLanes (stream : Nat → List S) {output : Ptr} {b i : Nat}
    (holdsOut : mem.Holds output (batch * blockSize)) (below : b < batch)
    (inBlock : i < blockSize) :
    (mem.write output (convolvedLanes taps blockSize batch stream mem input)).load output
        (b * blockSize + i) =
      some (convolveAt taps (stream b ++ laneBlock blockSize mem input b)
        ((stream b).length + i)) := by
  have total : (convolvedLanes taps blockSize batch stream mem input).length = batch * blockSize :=
    length_convolvedLanes
  have inside := lane_end_le blockSize below
  have cell := Mem.getElem?_read
    (mem.write output (convolvedLanes taps blockSize batch stream mem input)) output
    (convolvedLanes taps blockSize batch stream mem input).length (b * blockSize + i)
  rw [if_pos (by omega), Mem.read_write (by rw [total]; exact holdsOut)] at cell
  have width : ∀ c, c < batch → ((List.range blockSize).map fun i =>
      convolveAt taps (stream c ++ laneBlock blockSize mem input c)
        ((stream c).length + i)).length = blockSize := by
    intro c _
    rw [List.length_map, List.length_range]
  rw [← cell, convolvedLanes, getElem?_lanes width below inBlock]
  simp [inBlock]

/-- The loop over the lanes of a filter. If lane `b` filters its block behind
`g b` and pushes it into `g b`, the loop filters all lanes behind `h` and pushes
each lane's block into `h`. -/
theorem forLoop_filterLanes {σ : Type} {body : Nat → Mem S × σ → Option (Mem S × σ)} {s : σ}
    {output : Ptr} {h : Nat → List S} (Rep : (Nat → List S) → σ → Prop)
    (holdsIn : mem.Holds input (batch * blockSize))
    (holdsOut : mem.Holds output (batch * blockSize))
    (overlap : input = output ∨ Apart input (batch * blockSize) output (batch * blockSize))
    (rep : Rep h s)
    (lane : ∀ b, b < batch → ∀ g m t, Rep g t →
      m.Holds (input.add (b * blockSize)) blockSize →
      m.Holds (output.add (b * blockSize)) blockSize →
      ∃ t', body b (m, t) = some (m.write (output.add (b * blockSize))
          (filterBlock taps (g b) (laneBlock blockSize m input b)), t') ∧
        Rep (Function.update g b (shiftIn (g b) (laneBlock blockSize m input b))) t') :
    ∃ s', forLoop batch body (mem, s) =
        some (mem.write output (filteredLanes taps blockSize batch h mem input), s') ∧
      Rep (fun b =>
        if b < batch then shiftIn (h b) (laneBlock blockSize mem input b) else h b) s' := by
  -- after `done` lanes their delay lines are advanced
  let remembered : Nat → Nat → List S := fun done b =>
    if b < done then shiftIn (h b) (laneBlock blockSize mem input b) else h b
  refine forLoop_lanes _
    (fun b => filterBlock taps (h b) (laneBlock blockSize mem input b))
    (fun done t => Rep (remembered done) t) holdsIn holdsOut
    (overlap.imp_left fun same => ⟨same, rfl⟩)
    (fun b below => by rw [length_filterBlock, length_laneBlock holdsIn below])
    (by simpa [remembered] using rep) ?_
  intro b below m t repB holdsLane holdsOutLane block
  have current : remembered b b = h b := if_neg (Nat.lt_irrefl b)
  obtain ⟨t', ran, repB'⟩ := lane b below (remembered b) m t repB holdsLane holdsOutLane
  rw [laneBlock, block, ← laneBlock, current] at ran repB'
  have advanced : Function.update (remembered b) b
      (shiftIn (h b) (laneBlock blockSize mem input b)) = remembered (b + 1) := by
    funext c
    by_cases same : c = b
    · subst same
      simp only [remembered, Nat.lt_succ_self, if_true, Function.update_self]
    · simp only [remembered, Function.update_of_ne same]
      by_cases earlier : c < b
      · rw [if_pos earlier, if_pos (by omega)]
      · rw [if_neg earlier, if_neg (by omega)]
  rw [advanced] at repB'
  exact ⟨t', ran, repB'⟩

end DspDispatch.Fir
