import DspDispatch.Fir.Streaming
import DspDispatch.Kit.MachineInt

/-!
# Liquid FIR backend (`src/backends/liquid/liquid_fir_backend.cpp`)

A plan holds one filter object of the library a lane. The source writes the state
and its functions three times, once a type; here they are one definition over the
filters of a type. The library is a parameter.
-/

namespace DspDispatch.Fir.Liquid

open Kit

variable {S T : Type}

/-- The `firfilt` objects of one sample and tap type: `create` with taps and their
number, `execute_block` on a block (the output and the object left behind), and
`reset`. -/
structure FirFilt (S T : Type) where
  Filter : Type
  create : List T → Nat → Filter
  executeBlock : Filter → List S → List S × Filter
  reset : Filter → Filter

/-- `LiquidRealState`, `LiquidComplexRealTapsState` and `LiquidComplexState`. -/
structure LiquidState (lib : FirFilt S T) where
  blockSize : Nat
  batch : Nat
  filters : List lib.Filter

/-- The constructor: one filter a lane. -/
def LiquidState.create (lib : FirFilt S T) (taps : List T) (tapCount blockSize batch : Nat) :
    LiquidState lib :=
  { blockSize := blockSize
    batch := batch
    filters := (List.range batch).map fun _ => lib.create taps (toUInt32 tapCount) }

/-- The body of the loop over the lanes. -/
def executeLane (lib : FirFilt S T) (input output : Ptr) (b : Nat)
    (ms : Mem S × LiquidState lib) : Option (Mem S × LiquidState lib) := do
  let (mem, s) := ms
  let filter ← s.filters[b]?
  let block ← mem.loadRange (input.add (b * s.blockSize)) (toUInt32 s.blockSize)
  let (written, filter) := lib.executeBlock filter block
  let mem ← mem.storeRange (output.add (b * s.blockSize)) written
  some (mem, { s with filters := s.filters.set b filter })

def liquidExecute (lib : FirFilt S T) (s : LiquidState lib) (mem : Mem S) (input output : Ptr) :
    Option (Status × Mem S × LiquidState lib) := do
  let (mem, s) ← forLoop s.batch (executeLane lib input output) (mem, s)
  some (.ok, mem, s)

def liquidClear (lib : FirFilt S T) (s : LiquidState lib) : Option (Status × LiquidState lib) :=
  some (.ok, { s with filters := s.filters.map lib.reset })

/-- The dispatch record of a new plan. -/
def backendPlan (sizeofSample : Nat) (lib : FirFilt S T) (taps : List T)
    (tapCount blockSize batch : Nat) : BackendPlan (LiquidState lib) S where
  state := LiquidState.create lib taps tapCount blockSize batch
  execute := liquidExecute lib
  clear := liquidClear lib
  workspaceBytes := batch * tapCount * sizeofSample
  name := "liquid"

/-- The factory. Liquid filters single precision only and takes sizes as
`unsigned int`. -/
def makeBackendPlan {R : Type} [CommRing R] (liquid : (t : FirType) → FirFilt (SampleOf R t) (TapOf R t))
    (cfg : FirPlanConfig R) :
    Result (BackendPlan (LiquidState (liquid cfg.type)) (SampleOf R cfg.type)) :=
  if invalidCommon cfg then .error .invalidArgument
  else if cfg.precision ≠ .f32 then .error .unsupportedConfig
  else if cfg.tapCount > 2 ^ 32 - 1 then .error .invalidArgument
  else if cfg.blockSize > 2 ^ 32 - 1 then .error .invalidArgument
  else .ok (backendPlan (cfg.type.sizeofSample .f32) (liquid cfg.type) cfg.tapList cfg.tapCount
    cfg.blockSize cfg.batch)

/-! ## One call -/

/-- A filter object answers every block with as many samples. -/
def FirFilt.KeepsLength (lib : FirFilt S T) : Prop :=
  ∀ filter block, (lib.executeBlock filter block).1.length = block.length

/-- The objects after the lanes below `done`. -/
def advanced (lib : FirFilt S T) (filters : Nat → lib.Filter) (block : Nat → List S) (done b : Nat) :
    lib.Filter :=
  if b < done then (lib.executeBlock (filters b) (block b)).2 else filters b

theorem set_advanced (lib : FirFilt S T) (filters : Nat → lib.Filter) (block : Nat → List S)
    {batch b : Nat} (below : b < batch) :
    ((List.range batch).map (advanced lib filters block b)).set b
        (lib.executeBlock (filters b) (block b)).2 =
      (List.range batch).map (advanced lib filters block (b + 1)) := by
  apply List.ext_getElem?
  intro c
  rw [List.getElem?_set, List.length_map, List.length_range, List.getElem?_map, List.getElem?_map]
  by_cases here : b = c
  · subst here
    rw [if_pos rfl, if_pos below, List.getElem?_range below, Option.map_some, advanced,
      if_pos (Nat.lt_succ_self b)]
  · rw [if_neg here]
    cases found : (List.range batch)[c]? with
    | none => rfl
    | some d =>
      have same : d = c := by
        rw [List.getElem?_eq_some_iff] at found
        obtain ⟨small, rfl⟩ := found
        exact List.getElem_range small
      subst same
      have other : advanced lib filters block b d = advanced lib filters block (b + 1) d := by
        unfold advanced
        by_cases earlier : d < b
        · rw [if_pos earlier, if_pos (by omega)]
        · rw [if_neg earlier, if_neg (by omega)]
      rw [Option.map_some, Option.map_some, other]

/-- Every lane of a call is filtered by its own object. -/
theorem liquidExecute_eq {lib : FirFilt S T} (keeps : lib.KeepsLength) {s : LiquidState lib}
    {filters : Nat → lib.Filter} (stored : s.filters = (List.range s.batch).map filters)
    (block_lt : s.blockSize < 2 ^ 32) {mem : Mem S} {input output : Ptr}
    (holdsIn : mem.Holds input (s.batch * s.blockSize))
    (holdsOut : mem.Holds output (s.batch * s.blockSize))
    (overlap : input = output ∨
      Apart input (s.batch * s.blockSize) output (s.batch * s.blockSize)) :
    liquidExecute lib s mem input output = some (.ok,
      mem.write output (lanes s.batch fun b =>
        (lib.executeBlock (filters b) (laneBlock s.blockSize mem input b)).1),
      { s with filters := (List.range s.batch).map fun b =>
          (lib.executeBlock (filters b) (laneBlock s.blockSize mem input b)).2 }) := by
  let block := fun b => laneBlock s.blockSize mem input b
  have start : { s with filters := (List.range s.batch).map (advanced lib filters block 0) } = s := by
    have same : advanced lib filters block 0 = filters := by
      funext b
      exact if_neg (Nat.not_lt_zero b)
    rw [same, ← stored]
  obtain ⟨s', run, rfl⟩ := forLoop_lanes (executeLane lib input output) (s := s)
    (fun b => (lib.executeBlock (filters b) (block b)).1)
    (fun done t => t = { s with
      filters := (List.range s.batch).map (advanced lib filters block done) })
    holdsIn holdsOut (overlap.imp_left fun same => ⟨same, rfl⟩)
    (fun b below => (keeps _ _).trans (length_laneBlock holdsIn below)) start.symm
    (by
      rintro b below m t rfl holdsLane holdsOutLane read
      have found : ((List.range s.batch).map (advanced lib filters block b))[b]? =
          some (filters b) := by
        rw [List.getElem?_map, List.getElem?_range below, Option.map_some, advanced,
          if_neg (Nat.lt_irrefl b)]
      have loaded : m.loadRange (input.add (b * s.blockSize)) s.blockSize = some (block b) := by
        rw [Mem.loadRange_eq holdsLane, read]
        rfl
      have length : (lib.executeBlock (filters b) (block b)).1.length = s.blockSize :=
        (keeps _ _).trans (length_laneBlock holdsIn below)
      refine ⟨_, ?_, rfl⟩
      simp only [executeLane, toUInt32_of_lt block_lt, found, loaded, Option.bind_eq_bind,
        Option.bind_some]
      rw [Mem.storeRange_eq (by rw [length]; exact holdsOutLane), Option.bind_some,
        set_advanced lib filters block below])
  have final : (List.range s.batch).map (advanced lib filters block s.batch) =
      (List.range s.batch).map fun b => (lib.executeBlock (filters b) (block b)).2 := by
    apply List.map_congr_left
    intro b member
    exact if_pos (List.mem_range.mp member)
  rw [liquidExecute, run]
  simp only [Option.bind_eq_bind, Option.bind_some, final, block]

end DspDispatch.Fir.Liquid
