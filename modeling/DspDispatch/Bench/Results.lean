import DspDispatch.Bench.Names
import DspDispatch.Kit.Dict
import DspDispatch.Kit.LastWrite
import Mathlib.Data.List.Pairwise
import Mathlib.Data.Rat.Defs

/-!
# Collated results (`load_results` of `tools/run_benchmarks.py`)

Each benchmark has one row for each aggregate. The runner collects the rows of an
operation and a size into one dictionary, which has a slot for the time of each
aggregate but one for the unit and one for the throughput: there the last row wins.
-/

namespace DspDispatch.Bench

open Kit

/-! ## The report of a benchmark -/

/-- What the runner reads of a row; a missing field is `none`. -/
structure Row where
  name : String
  label : Option String := none
  runType : Option String := none
  aggregateName : Option String := none
  realTime : Option ℚ := none
  timeUnit : Option String := none
  itemsPerSecond : Option ℚ := none
deriving DecidableEq

/-- The context of a report, with its values as texts. -/
abbrev Context : Type := Dict String String

structure Report where
  benchmarks : List Row
  context : Context := Dict.empty

/-! ## What the runner collects -/

inductive Aggregate
  | median
  | p95
  | p99
  | mean
deriving DecidableEq

def Aggregate.ofName : String → Option Aggregate
  | "median" => some .median
  | "p95" => some .p95
  | "p99" => some .p99
  | "mean" => some .mean
  | _ => none

def Aggregate.text : Aggregate → String
  | .median => "median"
  | .p95 => "p95"
  | .p99 => "p99"
  | .mean => "mean"

structure Metrics where
  time : Option ℚ := none
  median : Option ℚ := none
  p95 : Option ℚ := none
  p99 : Option ℚ := none
  mean : Option ℚ := none
  itemsPerSecond : Option ℚ := none
  unit : Option String := none
deriving DecidableEq

def Metrics.setAggregate (d : Metrics) (agg : Aggregate) (value : ℚ) : Metrics :=
  match agg with
  | .median => { d with median := some value }
  | .p95 => { d with p95 := some value }
  | .p99 => { d with p99 := some value }
  | .mean => { d with mean := some value }

/-- An operation and a size. -/
abbrev Key : Type := String × String

/-- `text or default`: the empty text counts as none. -/
def orDefault (text : Option String) (default : String) : String :=
  match text with
  | some text => if text = "" then default else text
  | none => default

variable (u : Unicode)

/-- One round of the loop of `load_results`, which updates the label and the rows;
`none` is the `KeyError` for `real_time`. -/
def storeRow (acc : String × Dict Key Metrics) (b : Row) : Option (String × Dict Key Metrics) :=
  match parseBenchName u b.name with
  | (_, none) => some acc
  | (op, some length) =>
    let label := orDefault b.label acc.1
    let d := (acc.2.get? (op, length)).getD {}
    let unit := some (b.timeUnit.getD "us")
    if op = "plan_create" then
      -- Without repetitions a single iteration row carries the time.
      if b.runType = some "iteration" then
        b.realTime.map fun time => (label, acc.2.set (op, length) { d with time := some time, unit })
      else some (label, acc.2)
    else
      match Aggregate.ofName (b.aggregateName.getD "") with
      | none => some (label, acc.2)
      | some agg => b.realTime.map fun time =>
        (label, acc.2.set (op, length)
          { d.setAggregate agg time with
            unit, itemsPerSecond := b.itemsPerSecond.or d.itemsPerSecond })

structure Loaded where
  label : String
  rows : Dict Key Metrics
  context : Context

/-- `load_results` of a report in a file with the given stem. -/
def loadResults (stem : String) (data : Report) : Option Loaded :=
  (data.benchmarks.foldlM (storeRow u) (stem, Dict.empty)).map fun acc =>
    { label := acc.1, rows := acc.2, context := data.context }

/-! ## Where a row is stored -/

/-- The slots of a dictionary of metrics that hold times. -/
inductive Slot
  | time
  | aggregate (agg : Aggregate)
deriving DecidableEq

/-- The key and the slot a row is stored at. -/
def Row.slot (b : Row) : Option (Key × Slot) :=
  match parseBenchName u b.name with
  | (_, none) => none
  | (op, some length) =>
    if op = "plan_create" then
      if b.runType = some "iteration" then some ((op, length), .time) else none
    else (Aggregate.ofName (b.aggregateName.getD "")).map fun agg => ((op, length), .aggregate agg)

/-- The metrics after a row is stored. -/
def Metrics.record (d : Metrics) (slot : Slot) (time : ℚ) (b : Row) : Metrics :=
  match slot with
  | .time => { d with time := some time, unit := some (b.timeUnit.getD "us") }
  | .aggregate agg =>
    { d.setAggregate agg time with
      unit := some (b.timeUnit.getD "us"), itemsPerSecond := b.itemsPerSecond.or d.itemsPerSecond }

variable {u}

theorem storeRow_eq (acc : String × Dict Key Metrics) (b : Row) :
    ∃ label, storeRow u acc b =
      match b.slot u with
      | none => some (label, acc.2)
      | some (key, slot) => b.realTime.map fun time =>
        (label, acc.2.set key (((acc.2.get? key).getD {}).record slot time b)) := by
  simp only [storeRow, Row.slot]
  split
  · exact ⟨acc.1, rfl⟩
  · refine ⟨orDefault b.label acc.1, ?_⟩
    split
    · split
      · rfl
      · rfl
    · cases Aggregate.ofName (b.aggregateName.getD "") with
      | none => rfl
      | some agg => rfl

theorem plan_create_of_slot_time {b : Row} {key : Key} (stored : b.slot u = some (key, .time)) :
    key.1 = "plan_create" := by
  simp only [Row.slot] at stored
  split at stored
  · cases stored
  · split at stored
    · rename_i op
      split at stored
      · cases stored
        exact op
      · cases stored
    · obtain ⟨agg, -, place⟩ := Option.map_eq_some_iff.mp stored
      cases place

theorem ofName_of_slot {b : Row} {key : Key} {agg : Aggregate}
    (stored : b.slot u = some (key, .aggregate agg)) :
    (parseBenchName u b.name).1 = key.1 ∧ (parseBenchName u b.name).2 = some key.2 ∧
      key.1 ≠ "plan_create" ∧ Aggregate.ofName (b.aggregateName.getD "") = some agg := by
  simp only [Row.slot] at stored
  split at stored
  · cases stored
  · rename_i op length parsed
    split at stored
    · split at stored <;> cases stored
    · rename_i other
      obtain ⟨agg', named, place⟩ := Option.map_eq_some_iff.mp stored
      cases place
      exact ⟨congrArg Prod.fst parsed, congrArg Prod.snd parsed, other, named⟩

/-! ## What the rows of a key leave in its metrics -/

/-- The times of the metrics. -/
def Metrics.at (d : Metrics) : Slot → Option ℚ
  | .time => d.time
  | .aggregate .median => d.median
  | .aggregate .p95 => d.p95
  | .aggregate .p99 => d.p99
  | .aggregate .mean => d.mean

/-- Something to read off the metrics of a key, with what a stored row writes to it. -/
structure Field (α : Type) where
  read : Option Metrics → Option α
  write : Slot → ℚ → Row → Option α
  read_none : read none = none
  read_record : ∀ m slot time b,
    read (some ((m.getD {}).record slot time b)) = (write slot time b).or (read m)

/-- The key has metrics. -/
def presence : Field Unit where
  read m := m.map fun _ => ()
  write _ _ _ := some ()
  read_none := rfl
  read_record := fun _ _ _ _ => rfl

def unitField : Field String where
  read m := m.bind Metrics.unit
  write _ _ b := some (b.timeUnit.getD "us")
  read_none := rfl
  read_record := by
    intro m slot time b
    cases slot <;> rfl

/-- Only aggregates write the throughput. -/
def throughputField : Field ℚ where
  read m := m.bind Metrics.itemsPerSecond
  write slot _ b := if slot = .time then none else b.itemsPerSecond
  read_none := rfl
  read_record := by
    intro m slot time b
    cases slot with
    | time => cases m <;> rfl
    | aggregate agg => cases m <;> cases agg <;> rfl

def timeField (s : Slot) : Field ℚ where
  read m := m.bind fun d => d.at s
  write slot time _ := if slot = s then some time else none
  read_none := rfl
  read_record := by
    intro m slot time b
    have empty : (m.getD {}).at s = m.bind fun d => d.at s := by
      cases m with
      | some d => rfl
      | none => rcases s with - | - | - | - | - <;> rfl
    by_cases same : slot = s
    · subst same
      rw [if_pos rfl]
      rcases slot with - | - | - | - | - <;> rfl
    · rw [if_neg same, Option.none_or, ← empty, Option.bind_some]
      rcases slot with - | - | - | - | - <;> rcases s with - | - | - | - | - <;>
        first | rfl | exact absurd rfl same

/-- Metrics are what is read off them. -/
theorem metrics_ext {m m' : Option Metrics} (present : presence.read m = presence.read m')
    (unit : unitField.read m = unitField.read m')
    (throughput : throughputField.read m = throughputField.read m')
    (times : ∀ s, (timeField s).read m = (timeField s).read m') : m = m' := by
  cases m with
  | none =>
    cases m' with
    | none => rfl
    | some d' => cases present
  | some d =>
    cases m' with
    | none => cases present
    | some d' =>
      refine congrArg some ?_
      cases d
      cases d'
      exact Metrics.mk.injEq .. |>.mpr ⟨times .time, times (.aggregate .median),
        times (.aggregate .p95), times (.aggregate .p99), times (.aggregate .mean), throughput, unit⟩

/-- What a row writes to a field of the metrics of a key. -/
def Field.writeAt {α : Type} (f : Field α) (u : Unicode) (key : Key) (b : Row) : Option α :=
  (b.slot u).bind fun place =>
    if place.1 = key then b.realTime.bind fun time => f.write place.2 time b else none

section

variable {α : Type} {f : Field α} {key : Key} {b : Row} {x : α} {slot : Slot}

theorem writeAt_eq_some_iff :
    f.writeAt u key b = some x ↔
      ∃ slot time, b.slot u = some (key, slot) ∧ b.realTime = some time ∧
        f.write slot time b = some x := by
  rw [Field.writeAt, Option.bind_eq_some_iff]
  constructor
  · intro stored
    rcases stored with ⟨⟨key', slot⟩, place, writes⟩
    dsimp only at writes
    split at writes
    · rename_i same
      obtain ⟨time, value, writes⟩ := Option.bind_eq_some_iff.mp writes
      exact ⟨slot, time, same ▸ place, value, writes⟩
    · cases writes
  · intro stored
    rcases stored with ⟨slot, time, place, value, writes⟩
    refine ⟨(key, slot), place, ?_⟩
    rw [if_pos rfl, value]
    exact writes

/-- One row: it writes what `writeAt` says. -/
theorem read_storeRow {acc acc' : String × Dict Key Metrics} (f : Field α) (key : Key)
    (stored : storeRow u acc b = some acc') :
    f.read (acc'.2.get? key) = (f.writeAt u key b).or (f.read (acc.2.get? key)) := by
  obtain ⟨label, equation⟩ := storeRow_eq (u := u) acc b
  rw [equation] at stored
  cases place : b.slot u with
  | none =>
    rw [place] at stored
    cases stored
    rw [Field.writeAt, place, Option.bind_none, Option.none_or]
  | some target =>
    obtain ⟨key', slot⟩ := target
    rw [place] at stored
    obtain ⟨time, value, rfl⟩ := Option.map_eq_some_iff.mp stored
    rw [Field.writeAt, place, Option.bind_some, value, Option.bind_some]
    by_cases same : key' = key
    · subst same
      rw [if_pos rfl, Dict.get?_set_self]
      exact f.read_record _ slot time b
    · rw [if_neg same, Option.none_or, Dict.get?_set_of_ne (Ne.symm same)]

/-- All rows: each field holds what was written to it last. -/
theorem read_storeRows {rows : List Row} {acc acc' : String × Dict Key Metrics} (f : Field α)
    (key : Key) (stored : rows.foldlM (storeRow u) acc = some acc') :
    f.read (acc'.2.get? key) =
      (lastWrite (f.writeAt u key) rows).or (f.read (acc.2.get? key)) := by
  induction rows generalizing acc with
  | nil =>
    cases stored
    rw [lastWrite, Option.none_or]
  | cons b rows ih =>
    rw [List.foldlM_cons] at stored
    obtain ⟨mid, first, later⟩ := Option.bind_eq_some_iff.mp stored
    rw [ih later, read_storeRow f key first, lastWrite, Option.or_assoc]

theorem read_loadResults {stem : String} {data : Report} {loaded : Loaded} (f : Field α)
    (key : Key) (loads : loadResults u stem data = some loaded) :
    f.read (loaded.rows.get? key) = lastWrite (f.writeAt u key) data.benchmarks := by
  obtain ⟨acc, stored, rfl⟩ := Option.map_eq_some_iff.mp loads
  rw [read_storeRows f key stored, Dict.get?_empty, f.read_none, Option.or_none]

end

/-! ## When a report is read -/

variable (u) in
/-- Every row that is stored has a time. -/
def Timed (rows : List Row) : Prop :=
  ∀ b ∈ rows, (b.slot u).isSome = true → b.realTime.isSome = true

theorem storeRow_isSome_iff (acc : String × Dict Key Metrics) {b : Row} :
    (storeRow u acc b).isSome = true ↔ ((b.slot u).isSome = true → b.realTime.isSome = true) := by
  obtain ⟨label, equation⟩ := storeRow_eq (u := u) acc b
  rw [equation]
  cases b.slot u with
  | none => simp
  | some place => simp

theorem storeRows_isSome_iff {rows : List Row} (acc : String × Dict Key Metrics) :
    (rows.foldlM (storeRow u) acc).isSome = true ↔ Timed u rows := by
  induction rows generalizing acc with
  | nil => exact ⟨fun _ b member => absurd member List.not_mem_nil, fun _ => rfl⟩
  | cons b rows ih =>
    rw [Timed, List.forall_mem_cons, ← storeRow_isSome_iff acc, List.foldlM_cons]
    cases storeRow u acc b with
    | none => simp
    | some mid =>
      simp only [Option.isSome_some, true_and]
      exact ih mid

variable (u) in
/-- What a report gives for a key: `none` when it is not read at all, `some none` when
nothing is stored for the key. -/
def metricsOf (stem : String) (data : Report) (key : Key) : Option (Option Metrics) :=
  (loadResults u stem data).map fun loaded => loaded.rows.get? key

theorem loadResults_eq_none {stem : String} {data : Report} (untimed : ¬ Timed u data.benchmarks) :
    loadResults u stem data = none := by
  have fails : (data.benchmarks.foldlM (storeRow u) (stem, Dict.empty)).isSome ≠ true :=
    fun reads => untimed ((storeRows_isSome_iff _).mp reads)
  rw [loadResults, Option.not_isSome_iff_eq_none.mp fails, Option.map_none]

theorem exists_loadResults (stem : String) (data : Report) (timed : Timed u data.benchmarks) :
    ∃ loaded, loadResults u stem data = some loaded := by
  obtain ⟨acc, stored⟩ := Option.isSome_iff_exists.mp
    ((storeRows_isSome_iff (stem, Dict.empty)).mpr timed)
  exact ⟨_, by rw [loadResults, stored, Option.map_some]⟩

/-! ## The order of the rows -/

variable (u) in
/-- The operation, the size and the aggregate of a row. -/
def Row.identity (b : Row) : Option (Key × String) :=
  match parseBenchName u b.name with
  | (_, none) => none
  | (op, some length) => b.aggregateName.map fun agg => ((op, length), agg)

variable (u) in
/-- No aggregate of an operation and a size has two rows. -/
def UniqueAggregates (rows : List Row) : Prop := (rows.filterMap (Row.identity u)).Nodup

instance (rows : List Row) : Decidable (UniqueAggregates u rows) :=
  inferInstanceAs (Decidable (List.Nodup _))

variable (u) in
/-- Every order of the rows gives the same metrics for every key. -/
def OrderFree (stem : String) (data : Report) : Prop :=
  ∀ rows, data.benchmarks.Perm rows → ∀ key,
    metricsOf u stem { data with benchmarks := rows } key = metricsOf u stem data key

variable (u) in
/-- Where the median row of an execution carries a throughput, that one is stored. -/
def KeepsMedianThroughput (stem : String) (data : Report) : Prop :=
  ∀ b ∈ data.benchmarks, ∀ length, b.slot u = some (("execute", length), .aggregate .median) →
    ∀ throughput, b.itemsPerSecond = some throughput →
      ∀ loaded, loadResults u stem data = some loaded →
        (loaded.rows.get? ("execute", length)).bind Metrics.itemsPerSecond = some throughput

variable (u) in
/-- The stored rows of a key agree on what they share: the unit, and the throughput
of the aggregates that have one; so do repeated plan creations on the time. -/
def Coherent (rows : List Row) : Prop :=
  ∀ b ∈ rows, ∀ b' ∈ rows, ∀ key slot slot', b.slot u = some (key, slot) →
    b'.slot u = some (key, slot') →
      b.timeUnit.getD "us" = b'.timeUnit.getD "us" ∧
        (key.1 = "plan_create" → b.realTime = b'.realTime) ∧
        (key.1 ≠ "plan_create" → ∀ x x', b.itemsPerSecond = some x →
          b'.itemsPerSecond = some x' → x = x')

theorem ofName_injective {name name' : String} {agg : Aggregate}
    (named : Aggregate.ofName name = some agg) (named' : Aggregate.ofName name' = some agg) :
    name = name' := by
  have spelled : ∀ text, Aggregate.ofName text = some agg → text = agg.text := by
    intro text named
    unfold Aggregate.ofName at named
    split at named <;> cases named <;> rfl
  rw [spelled name named, spelled name' named']

theorem identity_of_slot {b : Row} {key : Key} {agg : Aggregate}
    (stored : b.slot u = some (key, .aggregate agg)) :
    ∃ name, b.identity u = some (key, name) ∧ Aggregate.ofName name = some agg := by
  obtain ⟨op, length, -, named⟩ := ofName_of_slot stored
  cases name : b.aggregateName with
  | none =>
    rw [name] at named
    cases named
  | some name' =>
    rw [name] at named
    refine ⟨name', ?_, named⟩
    rw [Row.identity, ← Prod.mk.eta (p := parseBenchName u b.name), op, length, name]
    rfl

/-- The row of an aggregate is the only one. -/
theorem UniqueAggregates.eq {rows : List Row} (unique : UniqueAggregates u rows) {b b' : Row}
    (member : b ∈ rows) (member' : b' ∈ rows) {key : Key} {agg : Aggregate}
    (stored : b.slot u = some (key, .aggregate agg))
    (stored' : b'.slot u = some (key, .aggregate agg)) : b = b' := by
  obtain ⟨name, identity, named⟩ := identity_of_slot stored
  obtain ⟨name', identity', named'⟩ := identity_of_slot stored'
  have same := ofName_injective named named'
  subst same
  have distinct := List.pairwise_filterMap.mp unique
  have symmetric : Std.Symm fun b b' : Row =>
      ∀ i, b.identity u = some i → ∀ i', b'.identity u = some i' → i ≠ i' := by
    constructor
    intro b b' apart i found i' found'
    exact (apart i' found' i found).symm
  by_contra differs
  exact distinct.forall member member' differs _ identity _ identity' rfl

section

variable {rows : List Row} {key : Key}

/-- Agreement of what two stored rows of the key write. -/
theorem agree_writeAt_iff {α : Type} {f : Field α} :
    Agree (f.writeAt u key) rows ↔
      ∀ b ∈ rows, ∀ b' ∈ rows, ∀ slot slot' time time', b.slot u = some (key, slot) →
        b'.slot u = some (key, slot') → b.realTime = some time → b'.realTime = some time' →
          ∀ x x', f.write slot time b = some x → f.write slot' time' b' = some x' → x = x' := by
  constructor
  · intro agree b member b' member' slot slot' time time' place place' value value' x x' wrote wrote'
    exact agree b member b' member' x x'
      (writeAt_eq_some_iff.mpr ⟨slot, time, place, value, wrote⟩)
      (writeAt_eq_some_iff.mpr ⟨slot', time', place', value', wrote'⟩)
  · intro each b member b' member' x x' writes writes'
    obtain ⟨slot, time, place, value, wrote⟩ := writeAt_eq_some_iff.mp writes
    obtain ⟨slot', time', place', value', wrote'⟩ := writeAt_eq_some_iff.mp writes'
    exact each b member b' member' slot slot' time time' place place' value value' x x' wrote wrote'

theorem Coherent.agree_unit (coherent : Coherent u rows) : Agree (unitField.writeAt u key) rows := by
  refine agree_writeAt_iff.mpr ?_
  intro b member b' member' slot slot' time time' place place' _ _ x x' wrote wrote'
  obtain ⟨unit, -, -⟩ := coherent b member b' member' key slot slot' place place'
  rw [← Option.some.inj wrote, ← Option.some.inj wrote', unit]

theorem Coherent.agree_throughput (coherent : Coherent u rows) :
    Agree (throughputField.writeAt u key) rows := by
  refine agree_writeAt_iff.mpr ?_
  intro b member b' member' slot slot' time time' place place' _ _ x x' wrote wrote'
  obtain ⟨-, -, throughput⟩ := coherent b member b' member' key slot slot' place place'
  cases slot with
  | time => cases wrote
  | aggregate agg =>
    cases slot' with
    | time => cases wrote'
    | aggregate agg' =>
      obtain ⟨-, -, other, -⟩ := ofName_of_slot place
      exact throughput other x x' wrote wrote'

theorem Coherent.agree_time (coherent : Coherent u rows) (unique : UniqueAggregates u rows)
    (s : Slot) : Agree ((timeField s).writeAt u key) rows := by
  refine agree_writeAt_iff.mpr ?_
  intro b member b' member' slot slot' time time' place place' value value' x x' wrote wrote'
  simp only [timeField, Option.ite_none_right_eq_some, Option.some.injEq] at wrote wrote'
  obtain ⟨rfl, rfl⟩ := wrote
  obtain ⟨rfl, rfl⟩ := wrote'
  cases slot' with
  | time =>
    obtain ⟨-, same, -⟩ := coherent b member b' member' key _ _ place place'
    rw [same (plan_create_of_slot_time place), value'] at value
    exact (Option.some.inj value).symm
  | aggregate agg =>
    rw [unique.eq member member' place place', value'] at value
    exact (Option.some.inj value).symm

theorem agree_presence : Agree (presence.writeAt u key) rows := fun _ _ _ _ _ _ _ _ => rfl

/-- What is written agrees only if the rows are coherent. -/
theorem coherent_of_agree (timed : Timed u rows)
    (unit : ∀ key, Agree (unitField.writeAt u key) rows)
    (throughput : ∀ key, Agree (throughputField.writeAt u key) rows)
    (time : ∀ key, Agree ((timeField .time).writeAt u key) rows) : Coherent u rows := by
  intro b member b' member' key slot slot' place place'
  obtain ⟨t, value⟩ := Option.isSome_iff_exists.mp (timed b member (by rw [place]; rfl))
  obtain ⟨t', value'⟩ := Option.isSome_iff_exists.mp (timed b' member' (by rw [place']; rfl))
  refine ⟨?_, ?_, ?_⟩
  · exact agree_writeAt_iff.mp (unit key) b member b' member' slot slot' t t' place place' value
      value' _ _ rfl rfl
  · intro planCreate
    cases slot with
    | aggregate agg => exact absurd planCreate (ofName_of_slot place).2.2.1
    | time =>
      cases slot' with
      | aggregate agg => exact absurd planCreate (ofName_of_slot place').2.2.1
      | time =>
        rw [value, value']
        exact congrArg some (agree_writeAt_iff.mp (time key) b member b' member' .time .time t t'
          place place' value value' t t' rfl rfl)
  · intro other x x' carries carries'
    cases slot with
    | time => exact absurd (plan_create_of_slot_time place) other
    | aggregate agg =>
      cases slot' with
      | time => exact absurd (plan_create_of_slot_time place') other
      | aggregate agg' =>
        exact agree_writeAt_iff.mp (throughput key) b member b' member' _ _ t t' place place' value
          value' x x' carries carries'

theorem Timed.perm {rows' : List Row} (timed : Timed u rows) (same : rows.Perm rows') :
    Timed u rows' := fun b member => timed b (same.mem_iff.mpr member)

end

/-! ## The metrics of a report -/

section

variable {stem : String} {data : Report}

/-- Where the metrics do not depend on the order, the writes to a field agree. -/
theorem OrderFree.agree {α : Type} (free : OrderFree u stem data)
    (timed : Timed u data.benchmarks) (f : Field α) (key : Key) :
    Agree (f.writeAt u key) data.benchmarks := by
  refine agree_of_lastWrite_perm ?_
  intro rows same
  obtain ⟨loaded, loads⟩ := exists_loadResults stem data timed
  obtain ⟨loaded', loads'⟩ := exists_loadResults stem
    { data with benchmarks := rows } (timed.perm same)
  have equal := free rows same key
  rw [metricsOf, metricsOf, loads, loads', Option.map_some, Option.map_some,
    Option.some.injEq] at equal
  have read := read_loadResults f key loads
  have read' := read_loadResults f key loads'
  rw [equal, read] at read'
  exact read'.symm

theorem Coherent.orderFree (coherent : Coherent u data.benchmarks)
    (unique : UniqueAggregates u data.benchmarks) (timed : Timed u data.benchmarks) :
    OrderFree u stem data := by
  intro rows same key
  obtain ⟨loaded, loads⟩ := exists_loadResults stem data timed
  obtain ⟨loaded', loads'⟩ := exists_loadResults stem
    { data with benchmarks := rows } (timed.perm same)
  have field : ∀ {α : Type} (f : Field α), Agree (f.writeAt u key) data.benchmarks →
      f.read (loaded'.rows.get? key) = f.read (loaded.rows.get? key) := by
    intro α f agree
    rw [read_loadResults f key loads, read_loadResults f key loads', agree.lastWrite_perm same]
  rw [metricsOf, metricsOf, loads, loads']
  refine congrArg some (metrics_ext ?_ ?_ ?_ ?_)
  · exact field presence agree_presence
  · exact field unitField coherent.agree_unit
  · exact field throughputField coherent.agree_throughput
  · exact fun s => field (timeField s) (coherent.agree_time unique s)

theorem Coherent.keepsMedianThroughput (coherent : Coherent u data.benchmarks)
    (timed : Timed u data.benchmarks) : KeepsMedianThroughput u stem data := by
  intro b member length place x carries loaded loads
  obtain ⟨t, value⟩ := Option.isSome_iff_exists.mp (timed b member (by rw [place]; rfl))
  have writes : throughputField.writeAt u ("execute", length) b = some x :=
    writeAt_eq_some_iff.mpr ⟨.aggregate .median, t, place, value, carries⟩
  have read := read_loadResults throughputField ("execute", length) loads
  rw [coherent.agree_throughput.lastWrite_eq member writes] at read
  exact read

/-- Of a report without duplicate aggregates, the metrics do not depend on the order
of the rows, and the throughput is that of the median, exactly if the report is
refused in every order or its rows are coherent. -/
theorem loadResults_orderFree_iff (u : Unicode) (stem : String) (data : Report)
    (unique : UniqueAggregates u data.benchmarks) :
    (OrderFree u stem data ∧ KeepsMedianThroughput u stem data) ↔
      (¬ Timed u data.benchmarks ∨ Coherent u data.benchmarks) := by
  constructor
  · intro property
    rcases property with ⟨free, -⟩
    by_cases timed : Timed u data.benchmarks
    · exact Or.inr (coherent_of_agree timed (free.agree timed unitField)
        (free.agree timed throughputField) (free.agree timed (timeField .time)))
    · exact Or.inl timed
  · by_cases timed : Timed u data.benchmarks
    · intro condition
      rcases condition with untimed | coherent
      · exact absurd timed untimed
      · exact ⟨coherent.orderFree unique timed, coherent.keepsMedianThroughput timed⟩
    · intro _
      constructor
      · intro rows same key
        have untimed' : ¬ Timed u rows := fun timed' => timed (timed'.perm same.symm)
        rw [metricsOf, metricsOf, loadResults_eq_none timed, loadResults_eq_none untimed']
      · intro b member length place x carries loaded loads
        rw [loadResults_eq_none timed] at loads
        cases loads

end

/-! ## The rows of one transform -/

def aggregateRow (agg : Aggregate) (time : ℚ) (throughput : Option ℚ) : Row where
  name := repeated (fftName .execute 64) 15 ("_" ++ agg.text)
  runType := some "aggregate"
  aggregateName := some agg.text
  realTime := some time
  timeUnit := some "us"
  itemsPerSecond := throughput

/-- A median with a throughput and a 95th percentile without. -/
def oneThroughput : Report :=
  ⟨[aggregateRow .median 2 (some 500000), aggregateRow .p95 3 none], Dict.empty⟩

theorem loadResults_orderFree_oneThroughput :
    OrderFree .ascii "fft_pocketfft" oneThroughput ∧
      KeepsMedianThroughput .ascii "fft_pocketfft" oneThroughput := by
  have units : ∀ b ∈ oneThroughput.benchmarks, b.timeUnit = some "us" := by decide
  have throughputs : ∀ b ∈ oneThroughput.benchmarks,
      b.itemsPerSecond = none ∨ b.itemsPerSecond = some 500000 := by decide
  have executions : ∀ b ∈ oneThroughput.benchmarks,
      (b.slot .ascii).map (fun place => place.1.1) = some "execute" := by decide +kernel
  refine (loadResults_orderFree_iff .ascii "fft_pocketfft" oneThroughput (by decide +kernel)).mpr
    (Or.inr ?_)
  intro b member b' member' key slot slot' place place'
  refine ⟨?_, ?_, ?_⟩
  · rw [units b member, units b' member']
  · intro planCreate
    have execution := executions b member
    rw [place, Option.map_some, planCreate] at execution
    exact absurd execution (by decide)
  · intro _ x x' carries carries'
    have first := throughputs b member
    have second := throughputs b' member'
    simp only [carries, carries', reduceCtorEq, false_or, Option.some.injEq] at first second
    rw [first, second]

/-- A median and a 99th percentile, each with its own throughput. -/
def twoThroughputs : Report :=
  ⟨[aggregateRow .median 2 (some 500000), aggregateRow .p99 3 (some 600000)], Dict.empty⟩

/-- The throughput stored beside the median is that of the percentile, and the other
order of the rows gives another one. -/
theorem loadResults_twoThroughputs :
    UniqueAggregates .ascii twoThroughputs.benchmarks ∧
      ¬ OrderFree .ascii "fft_pocketfft" twoThroughputs ∧
      ¬ KeepsMedianThroughput .ascii "fft_pocketfft" twoThroughputs := by
  have forward : metricsOf .ascii "fft_pocketfft" twoThroughputs ("execute", "64") =
      some (some
        { median := some 2, p99 := some 3, itemsPerSecond := some 600000, unit := some "us" }) := by
    decide +kernel
  have backward : metricsOf .ascii "fft_pocketfft"
      { twoThroughputs with benchmarks := twoThroughputs.benchmarks.reverse } ("execute", "64") =
      some (some
        { median := some 2, p99 := some 3, itemsPerSecond := some 500000, unit := some "us" }) := by
    decide +kernel
  refine ⟨by decide +kernel, ?_, ?_⟩
  · intro free
    have equal := free _ (List.reverse_perm _).symm ("execute", "64")
    rw [forward, backward] at equal
    exact absurd equal (by decide +kernel)
  · intro keeps
    obtain ⟨loaded, loads, metrics⟩ := Option.map_eq_some_iff.mp forward
    have kept := keeps _ List.mem_cons_self "64" (by decide +kernel) 500000 rfl loaded loads
    rw [metrics] at kept
    exact absurd kept (by decide +kernel)

end DspDispatch.Bench
