import DspDispatch.Bench.Tables

/-!
# The data of the dashboard (`collate_arch` of `tools/build_dashboard.py`)

The dashboard collates the same results as the tables, in its own way: it turns every
time into microseconds and drops what it cannot place on an axis. A plan creation it
places only by a plain numeral, which the size of a filter is not.
-/

namespace DspDispatch.Bench

open Kit

/-! ## Microseconds -/

/-- `_TO_US`, with the default for another unit. -/
def toUs (unit : String) : ℚ :=
  match unit with
  | "ns" => 1 / 1000
  | "us" => 1
  | "ms" => 1000
  | "s" => 1000000
  | _ => 1

/-- `_us`. -/
def us (value : Option ℚ) (unit : String) : Option ℚ := value.map fun value => value * toUs unit

/-! ## The payload of an architecture -/

inductive Suite
  | fft
  | fir
deriving DecidableEq

structure ExecutePoint where
  size : String
  x : Nat
  block : Option Nat := none
  taps : Option Nat := none
  medianUs : Option ℚ
  p95Us : Option ℚ
  p99Us : Option ℚ
  throughput : Option ℚ

structure PlanPoint where
  size : String
  x : Nat
  timeUs : Option ℚ

structure BackendPoints where
  execute : List ExecutePoint
  planCreate : List PlanPoint

structure Payload where
  cpu : Option String
  arch : Option String
  host : Option String
  numCpus : Option String
  mhz : Option String
  build : Option String
  backends : Dict String BackendPoints
  taps : Option (List Nat)

variable (u : Unicode)

/-- The point of an execution. The outer `none` is a `ValueError`, the inner one a size
that is skipped. -/
def executePoint (suite : Suite) (size : String) (m : Metrics) : Option (Option ExecutePoint) :=
  let unit := m.unit.getD "us"
  let point := fun (x : Nat) (block taps : Option Nat) =>
    { size, x, block, taps, medianUs := us m.median unit, p95Us := us m.p95 unit,
      p99Us := us m.p99 unit, throughput := m.itemsPerSecond : ExecutePoint }
  match suite with
  | .fir => (splitFirSize u size).map fun parsed =>
    parsed.map fun (block, taps) => point block (some block) (some taps)
  | .fft =>
    if u.isdigit size then (u.int size).map fun n => some (point n none none) else some none

def planPoint (size : String) (m : Metrics) : Option (Option PlanPoint) :=
  if u.isdigit size then
    (u.int size).map fun n => some ⟨size, n, us m.time (m.unit.getD "us")⟩
  else some none

/-- What one file contributes, with its points sorted by their place on the axis. -/
def collateRows (suite : Suite) (rows : Dict Key Metrics) : Option BackendPoints := do
  let execute ← (rows.entries.filter fun e => e.1.1 = "execute").mapM fun e =>
    executePoint u suite e.1.2 e.2
  let planCreate ← (rows.entries.filter fun e => e.1.1 = "plan_create").mapM fun e =>
    planPoint u e.1.2 e.2
  return {
    execute := (execute.filterMap id).mergeSort fun p q =>
      toLex (p.x, p.taps.getD 0) ≤ toLex (q.x, q.taps.getD 0)
    planCreate := (planCreate.filterMap id).mergeSort fun p q => p.x ≤ q.x }

/-- `context or ctx`, over all files. -/
def firstContext (loaded : List Loaded) : Context :=
  loaded.foldl (fun context l => if context.entries = [] then l.context else context) Dict.empty

/-- The payload of the backends; `none` is an architecture without data. `scraped` is
`cpu_from_results_md`. -/
def payloadOf (suite : Suite) (context : Context) (backends : Dict String BackendPoints)
    (scraped : Option String) : Option Payload :=
  if backends.entries.isEmpty then none
  else some {
    cpu := ((context.get? "cpu_model").filter (· ≠ "")).or scraped
    arch := context.get? "cpu_arch"
    host := context.get? "host_name"
    numCpus := context.get? "num_cpus"
    mhz := context.get? "mhz_per_cpu"
    build := context.get? "library_build_type"
    backends
    taps := match suite with
      | .fft => none
      | .fir => some ((backends.entries.flatMap fun e =>
          e.2.execute.filterMap ExecutePoint.taps).dedup.mergeSort (· ≤ ·)) }

/-- `collate_arch` after the files are loaded; the outer `none` is a `ValueError`. -/
def collateLoaded (suite : Suite) (loaded : List Loaded) (scraped : Option String) :
    Option (Option Payload) := do
  let points ← loaded.mapM fun l => (collateRows u suite l.rows).map fun points => (l.label, points)
  let backends := Dict.ofList
    (points.filter fun e => ¬ (e.2.execute.isEmpty ∧ e.2.planCreate.isEmpty))
  return payloadOf suite (firstContext loaded) backends scraped

/-- `collate_arch` of files with their stems; `none` also when a file is refused. -/
def collateArch (suite : Suite) (files : List (String × Report)) (scraped : Option String) :
    Option (Option Payload) := do
  let loaded ← files.mapM fun file => loadResults u file.1 file.2
  collateLoaded u suite loaded scraped

/-- The results of the backends as `main` of the runner hands them to `build_tables`. -/
def perBackendOf (loaded : List Loaded) : PerBackend :=
  Dict.ofList (loaded.map fun l => (l.label, l.rows))

/-! ## Points -/

/-- A time that is shown for a backend, an operation and a size, in microseconds. -/
structure Point where
  backend : String
  op : String
  size : String
  value : ℚ
deriving DecidableEq

/-- The medians of executions and the times of plan creations in the CSV file. -/
def CsvRow.point (r : CsvRow) : Option Point :=
  if (r.op = "execute" ∧ r.metric = "median") ∨ (r.op = "plan_create" ∧ r.metric = "time") then
    some ⟨r.backend, r.op, r.size, r.value * toUs r.unit⟩
  else none

def reportedPoints (t : Tables) : List Point := t.csv.filterMap CsvRow.point

def ExecutePoint.point (label : String) (p : ExecutePoint) : Option Point :=
  p.medianUs.map fun value => ⟨label, "execute", p.size, value⟩

def PlanPoint.point (label : String) (p : PlanPoint) : Option Point :=
  p.timeUs.map fun value => ⟨label, "plan_create", p.size, value⟩

def emittedPoints (payload : Option Payload) : List Point :=
  match payload with
  | none => []
  | some payload => payload.backends.entries.flatMap fun e =>
    e.2.execute.filterMap (ExecutePoint.point e.1) ++
      e.2.planCreate.filterMap (PlanPoint.point e.1)

/-- The time of the metrics that is shown for an operation. -/
def Metrics.shown (m : Metrics) (op : String) : Option ℚ :=
  us (if op = "execute" then m.median else if op = "plan_create" then m.time else none)
    (m.unit.getD "us")

/-- The results have this point. -/
def Shown (perBackend : PerBackend) (p : Point) : Prop :=
  ∃ rows m, perBackend.get? p.backend = some rows ∧ rows.get? (p.op, p.size) = some m ∧
    m.shown p.op = some p.value

variable {u}

/-! ## The points of the tables -/

section

variable {perBackend : PerBackend} {baseline : Option String} {op size b : String} {p : Point}

theorem executeCsv_points (perBackend : PerBackend) (size b : String) :
    (executeCsv perBackend size b).filterMap CsvRow.point =
      (((metricsAt perBackend "execute" size b).shown "execute").map fun value =>
        (⟨b, "execute", size, value⟩ : Point)).toList := by
  rw [executeCsv, Metrics.shown, if_pos rfl]
  cases (metricsAt perBackend "execute" size b).median with
  | none => rfl
  | some med =>
    have others : ∀ (xs : List (String × Option ℚ × String)), (∀ x ∈ xs, x.1 ≠ "median") →
        (xs.filterMap fun x => x.2.1.map fun value =>
          (⟨b, "execute", size, x.1, value, x.2.2⟩ : CsvRow)).filterMap CsvRow.point = [] := by
      intro xs names
      rw [List.filterMap_eq_nil_iff]
      intro r member
      obtain ⟨x, inside, made⟩ := List.mem_filterMap.mp member
      obtain ⟨value, -, rfl⟩ := Option.map_eq_some_iff.mp made
      have name := names _ inside
      simp only [CsvRow.point, true_and, name, false_or]
      exact if_neg (by simp)
    have first : ∀ unit, CsvRow.point ⟨b, "execute", size, "median", med, unit⟩ =
        some ⟨b, "execute", size, med * toUs unit⟩ := fun _ => rfl
    refine (List.filterMap_cons_some (first _)).trans ?_
    rw [others _ (by simp)]
    rfl

/-- A speedup is no time. -/
theorem speedupCsv_points (perBackend : PerBackend) (baseline : Option String) (size : String)
    (base : ℚ) (others : List String) :
    (others.filterMap (speedupCsv perBackend baseline size base)).filterMap CsvRow.point = [] := by
  rw [List.filterMap_eq_nil_iff]
  intro r member
  obtain ⟨b, -, made⟩ := List.mem_filterMap.mp member
  obtain ⟨med, -, rfl⟩ := Option.map_eq_some_iff.mp made
  have name : "speedup_vs_" ++ baseName perBackend baseline ≠ "median" := by
    intro same
    have letters := congrArg String.toList same
    rw [String.toList_append] at letters
    exact absurd (congrArg List.head? letters) (by simp)
  simp only [CsvRow.point, name, and_false, false_or]
  exact if_neg (by simp)

theorem latencyRow_points (perBackend : PerBackend) (baseline : Option String) (size : String) :
    (latencyRow perBackend baseline size).2.filterMap CsvRow.point =
      perBackend.keys.flatMap fun b => (executeCsv perBackend size b).filterMap CsvRow.point := by
  rw [latencyRow]
  cases baseMedian perBackend baseline size with
  | none => exact List.filterMap_flatMap ..
  | some base =>
    dsimp only
    rw [List.filterMap_append, speedupCsv_points, List.append_nil, List.filterMap_flatMap]

theorem planCsv_point (perBackend : PerBackend) (size b : String) :
    (planCsv perBackend size b).bind CsvRow.point =
      ((metricsAt perBackend "plan_create" size b).shown "plan_create").map fun value =>
        (⟨b, "plan_create", size, value⟩ : Point) := by
  rw [planCsv, Metrics.shown, if_neg (by decide), if_pos rfl]
  cases (metricsAt perBackend "plan_create" size b).time with
  | none => rfl
  | some time => rfl

/-- Metrics that show something are there. -/
theorem shown_metricsAt {value : ℚ} :
    (metricsAt perBackend op size b).shown op = some value ↔
      Shown perBackend ⟨b, op, size, value⟩ := by
  constructor
  · intro shown
    cases backend : perBackend.get? b with
    | none =>
      rw [metricsAt, backend] at shown
      simp [Metrics.shown, us] at shown
    | some rows =>
      cases found : rows.get? (op, size) with
      | none =>
        rw [metricsAt, backend, Option.bind_some, found] at shown
        simp [Metrics.shown, us] at shown
      | some m =>
        rw [metricsAt, backend, Option.bind_some, found] at shown
        exact ⟨rows, m, backend, found, shown⟩
  · intro results
    rcases results with ⟨rows, m, backend, found, shown⟩
    rw [metricsAt, backend, Option.bind_some, found]
    exact shown

theorem Shown.measured (shown : Shown perBackend p) :
    Measured perBackend p.op p.size ∧ p.backend ∈ perBackend.keys := by
  obtain ⟨rows, m, backend, found, -⟩ := shown
  exact ⟨⟨p.backend, rows, m, backend, found⟩, Dict.mem_keys_iff.mpr ⟨rows, backend⟩⟩

theorem Shown.op_eq (shown : Shown perBackend p) : p.op = "execute" ∨ p.op = "plan_create" := by
  obtain ⟨rows, m, -, -, shown⟩ := shown
  by_contra other
  obtain ⟨first, second⟩ := not_or.mp other
  rw [Metrics.shown, if_neg first, if_neg second] at shown
  cases shown

/-- The tables report just the points of the results. -/
theorem mem_reportedPoints {t : Tables} (built : collectTables u perBackend baseline = some t) :
    p ∈ reportedPoints t ↔ Shown perBackend p := by
  obtain ⟨sizes, ordered, built⟩ := Option.bind_eq_some_iff.mp built
  obtain ⟨planSizes, planOrdered, built⟩ := Option.bind_eq_some_iff.mp built
  cases built
  obtain ⟨b, op, size, value⟩ := p
  simp only [reportedPoints, List.filterMap_append, List.filterMap_flatMap, latencyRow_points,
    executeCsv_points, List.filterMap_filterMap, planCsv_point, List.mem_append, List.mem_flatMap,
    List.mem_filterMap, Option.mem_toList, Option.map_eq_some_iff, Point.mk.injEq, shown_metricsAt]
  constructor
  · intro reported
    rcases reported with ⟨size', -, b', -, value', shown, rfl, rfl, rfl, rfl⟩ |
      ⟨size', -, b', -, value', shown, rfl, rfl, rfl, rfl⟩
    · exact shown
    · exact shown
  · intro shown
    obtain ⟨measured, backend⟩ := shown.measured
    rcases shown.op_eq with rfl | rfl
    · exact Or.inl ⟨size, (mem_sizesOf ordered).mpr measured, b, backend, value, shown, rfl, rfl,
        rfl, rfl⟩
    · exact Or.inr ⟨size, (mem_sizesOf planOrdered).mpr measured, b, backend, value, shown, rfl,
        rfl, rfl, rfl⟩

end

/-! ## Numeric sizes -/

variable (u) in
/-- A size the suite can place on its axis. -/
def NumericSize (suite : Suite) (size : String) : Prop :=
  match suite with
  | .fft => u.isdigit size = true ∧ ∃ n, u.int size = some n
  | .fir => ∃ block taps, splitFirSize u size = some (some (block, taps))

variable (u) in
def NumericSizes (suite : Suite) (rows : Dict Key Metrics) : Prop :=
  ∀ op size m, rows.get? (op, size) = some m → NumericSize u suite size

section

variable {suite : Suite} {size : String} {m : Metrics}

/-- A numeral has no second one. -/
theorem isdigit_of_twoNumerals {pair : String × String} (two : twoNumerals u size = some pair) :
    u.isdigit size = false := by
  have separator : 'x' ∈ size.toList := by
    by_contra absent
    rw [twoNumerals, splitOnce_of_absent absent] at two
    cases two
  exact Unicode.isdigit_eq_false separator (by decide) (by decide)

theorem twoNumerals_of_isdigit (digits : u.isdigit size = true) : twoNumerals u size = none := by
  cases two : twoNumerals u size with
  | none => rfl
  | some pair =>
    rw [isdigit_of_twoNumerals two] at digits
    cases digits

theorem twoNumerals_of_splitFirSize {parsed : Nat × Nat}
    (split : splitFirSize u size = some (some parsed)) :
    ∃ a b, twoNumerals u size = some (a, b) ∧ u.int a = some parsed.1 ∧
      u.int b = some parsed.2 := by
  rw [splitFirSize] at split
  cases two : twoNumerals u size with
  | none =>
    rw [two] at split
    cases split
  | some pair =>
    rw [two] at split
    obtain ⟨block, first, split⟩ := Option.bind_eq_some_iff.mp split
    obtain ⟨taps, second, split⟩ := Option.bind_eq_some_iff.mp split
    cases split
    exact ⟨pair.1, pair.2, rfl, first, second⟩

theorem NumericSize.sortKey (numeric : NumericSize u suite size) :
    ∃ key, sizeSortKey u size = some key := by
  cases suite with
  | fft =>
    obtain ⟨digits, n, value⟩ := numeric
    refine ⟨toLex (n, toLex (0, size)), ?_⟩
    rw [sizeSortKey, twoNumerals_of_isdigit digits]
    dsimp only
    rw [if_pos digits, value, Option.map_some]
  | fir =>
    obtain ⟨block, taps, split⟩ := numeric
    obtain ⟨a, b, two, first, second⟩ := twoNumerals_of_splitFirSize split
    refine ⟨toLex (block, toLex (taps, size)), ?_⟩
    rw [sizeSortKey, two]
    dsimp only
    rw [first, second]
    rfl

theorem NumericSize.executePoint (numeric : NumericSize u suite size) :
    ∃ q, executePoint u suite size m = some (some q) := by
  cases suite with
  | fft =>
    obtain ⟨digits, n, value⟩ := numeric
    simp only [Bench.executePoint, digits, if_true, value, Option.map_some, Option.some.injEq,
      exists_eq']
  | fir =>
    obtain ⟨block, taps, split⟩ := numeric
    simp only [Bench.executePoint, split, Option.map_some, Option.some.injEq, exists_eq']

theorem executePoint_fields {q : ExecutePoint}
    (made : executePoint u suite size m = some (some q)) :
    q.size = size ∧ q.medianUs = us m.median (m.unit.getD "us") := by
  cases suite with
  | fft =>
    simp only [executePoint] at made
    split at made
    · obtain ⟨n, -, made⟩ := Option.map_eq_some_iff.mp made
      cases made
      exact ⟨rfl, rfl⟩
    · cases made
  | fir =>
    obtain ⟨parsed, -, made⟩ := Option.map_eq_some_iff.mp made
    obtain ⟨sizes, -, rfl⟩ := Option.map_eq_some_iff.mp made
    exact ⟨rfl, rfl⟩

theorem planPoint_fft (numeric : NumericSize u .fft size) :
    ∃ q, planPoint u size m = some (some q) := by
  obtain ⟨digits, n, value⟩ := numeric
  exact ⟨_, by rw [planPoint, if_pos digits, value, Option.map_some]⟩

/-- The size of a filter is skipped. -/
theorem planPoint_fir (numeric : NumericSize u .fir size) : planPoint u size m = some none := by
  obtain ⟨block, taps, split⟩ := numeric
  obtain ⟨a, b, two, -, -⟩ := twoNumerals_of_splitFirSize split
  rw [planPoint, isdigit_of_twoNumerals two]
  rfl

theorem planPoint_fields {q : PlanPoint} (made : planPoint u size m = some (some q)) :
    q.size = size ∧ q.timeUs = us m.time (m.unit.getD "us") := by
  rw [planPoint] at made
  split at made
  · obtain ⟨n, -, made⟩ := Option.map_eq_some_iff.mp made
    cases made
    exact ⟨rfl, rfl⟩
  · cases made

end

/-! ## The points of the dashboard -/

section

variable {suite : Suite} {rows : Dict Key Metrics} {points : BackendPoints} {label size : String}
  {value : ℚ}

/-- A loop over the entries of an operation that makes a point of each one it can place. -/
theorem mem_placed {α : Type} {op : String} {f : String → Metrics → Option (Option α)}
    {made : List (Option α)} {le : α → α → Bool}
    (collected : ((rows.entries.filter fun e => e.1.1 = op).mapM fun e => f e.1.2 e.2) = some made)
    {q : α} :
    q ∈ (made.filterMap id).mergeSort le ↔
      ∃ size m, rows.get? (op, size) = some m ∧ f size m = some (some q) := by
  rw [List.mem_mergeSort, List.mem_filterMap]
  simp only [id_eq, exists_eq_right, mem_of_mapM collected]
  constructor
  · intro entries
    rcases entries with ⟨⟨⟨op', size⟩, m⟩, member, point⟩
    obtain ⟨entry, named⟩ := List.mem_filter.mp member
    obtain rfl := of_decide_eq_true named
    exact ⟨size, m, Dict.mem_entries_iff.mp entry, point⟩
  · intro results
    rcases results with ⟨size, m, found, point⟩
    refine ⟨((op, size), m), List.mem_filter.mpr ⟨Dict.mem_entries_iff.mpr found, ?_⟩, point⟩
    exact decide_eq_true rfl

theorem exists_placed {α : Type} {op : String} {f : String → Metrics → Option (Option α)}
    (each : ∀ size m, rows.get? (op, size) = some m → ∃ q, f size m = some q) :
    ∃ made, ((rows.entries.filter fun e => e.1.1 = op).mapM fun e => f e.1.2 e.2) = some made := by
  refine exists_mapM ?_
  intro e member
  obtain ⟨entry, named⟩ := List.mem_filter.mp member
  obtain rfl := of_decide_eq_true named
  exact each e.1.2 e.2 (Dict.mem_entries_iff.mp entry)

theorem exists_collateRows (numeric : NumericSizes u suite rows) :
    ∃ points, collateRows u suite rows = some points := by
  have executes : ∀ size m, rows.get? ("execute", size) = some m →
      ∃ q, executePoint u suite size m = some q := by
    intro size m found
    obtain ⟨q, made⟩ := (numeric "execute" size m found).executePoint (m := m)
    exact ⟨some q, made⟩
  have plans : ∀ size m, rows.get? ("plan_create", size) = some m →
      ∃ q, planPoint u size m = some q := by
    intro size m found
    have sized := numeric "plan_create" size m found
    cases suite with
    | fft =>
      obtain ⟨q, made⟩ := planPoint_fft (m := m) sized
      exact ⟨some q, made⟩
    | fir => exact ⟨none, planPoint_fir sized⟩
  obtain ⟨execute, collected⟩ := exists_placed executes
  obtain ⟨planCreate, collected'⟩ := exists_placed plans
  exact ⟨_, by rw [collateRows, collected, collected']; rfl⟩

/-- The executions of a file are all placed. -/
theorem mem_execute_points (numeric : NumericSizes u suite rows)
    (collated : collateRows u suite rows = some points) :
    (∃ q ∈ points.execute, q.point label = some ⟨label, "execute", size, value⟩) ↔
      ∃ m, rows.get? ("execute", size) = some m ∧ m.shown "execute" = some value := by
  obtain ⟨execute, collected, collated⟩ := Option.bind_eq_some_iff.mp collated
  obtain ⟨planCreate, -, collated⟩ := Option.bind_eq_some_iff.mp collated
  cases collated
  constructor
  · intro placed
    rcases placed with ⟨q, member, point⟩
    obtain ⟨size', m, found, made⟩ := (mem_placed collected).mp member
    obtain ⟨sized, median⟩ := executePoint_fields made
    rw [ExecutePoint.point, sized, median] at point
    obtain ⟨x, shown, point⟩ := Option.map_eq_some_iff.mp point
    cases point
    refine ⟨m, found, ?_⟩
    rw [Metrics.shown, if_pos rfl]
    exact shown
  · intro results
    rcases results with ⟨m, found, shown⟩
    obtain ⟨q, made⟩ := (numeric "execute" size m found).executePoint (m := m)
    obtain ⟨sized, median⟩ := executePoint_fields made
    refine ⟨q, (mem_placed collected).mpr ⟨size, m, found, made⟩, ?_⟩
    rw [Metrics.shown, if_pos rfl] at shown
    rw [ExecutePoint.point, sized, median, shown, Option.map_some]

/-- The plan creations of a file are placed in the suite of the transforms only. -/
theorem mem_plan_points (numeric : NumericSizes u suite rows)
    (collated : collateRows u suite rows = some points) :
    (∃ q ∈ points.planCreate, q.point label = some ⟨label, "plan_create", size, value⟩) ↔
      suite = .fft ∧
        ∃ m, rows.get? ("plan_create", size) = some m ∧ m.shown "plan_create" = some value := by
  obtain ⟨execute, -, collated⟩ := Option.bind_eq_some_iff.mp collated
  obtain ⟨planCreate, collected, collated⟩ := Option.bind_eq_some_iff.mp collated
  cases collated
  constructor
  · intro placed
    rcases placed with ⟨q, member, point⟩
    obtain ⟨size', m, found, made⟩ := (mem_placed collected).mp member
    have sized := numeric "plan_create" size' m found
    cases suite with
    | fir =>
      rw [planPoint_fir sized] at made
      cases made
    | fft =>
      obtain ⟨sized, time⟩ := planPoint_fields made
      rw [PlanPoint.point, sized, time] at point
      obtain ⟨x, shown, point⟩ := Option.map_eq_some_iff.mp point
      cases point
      refine ⟨rfl, m, found, ?_⟩
      rw [Metrics.shown, if_neg (by decide), if_pos rfl]
      exact shown
  · intro results
    rcases results with ⟨rfl, m, found, shown⟩
    obtain ⟨q, made⟩ := planPoint_fft (m := m) (numeric "plan_create" size m found)
    obtain ⟨sized, time⟩ := planPoint_fields made
    refine ⟨q, (mem_placed collected).mpr ⟨size, m, found, made⟩, ?_⟩
    rw [Metrics.shown, if_neg (by decide), if_pos rfl] at shown
    rw [PlanPoint.point, sized, time, shown, Option.map_some]

end

section

variable {suite : Suite} {loaded : List Loaded} {scraped : Option String} {p : Point}

theorem get?_perBackendOf (distinct : (loaded.map Loaded.label).Nodup) {b : String}
    {rows : Dict Key Metrics} :
    (perBackendOf loaded).get? b = some rows ↔ ∃ l ∈ loaded, l.label = b ∧ l.rows = rows := by
  have keys : ((loaded.map fun l => (l.label, l.rows)).map Prod.fst).Nodup := by
    rw [List.map_map]
    exact distinct
  rw [perBackendOf, Dict.get?_ofList keys]
  simp only [List.mem_map, Prod.mk.injEq]

theorem emittedPoints_payloadOf (suite : Suite) (context : Context)
    (backends : Dict String BackendPoints) (scraped : Option String) :
    emittedPoints (payloadOf suite context backends scraped) = backends.entries.flatMap fun e =>
      e.2.execute.filterMap (ExecutePoint.point e.1) ++
        e.2.planCreate.filterMap (PlanPoint.point e.1) := by
  cases entries : backends.entries with
  | nil => simp only [payloadOf, entries, List.isEmpty_nil, if_true, emittedPoints, List.flatMap_nil]
  | cons e es =>
    simp only [payloadOf, entries, List.isEmpty_cons, Bool.false_eq_true, if_false, emittedPoints]

/-- The points of all files. -/
theorem mem_emittedPoints_iff (distinct : (loaded.map Loaded.label).Nodup)
    {payload : Option Payload} (collated : collateLoaded u suite loaded scraped = some payload) :
    p ∈ emittedPoints payload ↔
      ∃ l ∈ loaded, ∃ points, collateRows u suite l.rows = some points ∧
        ((∃ q ∈ points.execute, q.point l.label = some p) ∨
          ∃ q ∈ points.planCreate, q.point l.label = some p) := by
  obtain ⟨points, collected, collated⟩ := Option.bind_eq_some_iff.mp collated
  have labels : points.map Prod.fst = loaded.map Loaded.label := by
    refine map_of_mapM ?_ collected
    intro l e made
    obtain ⟨_, -, rfl⟩ := Option.map_eq_some_iff.mp made
    rfl
  have keys : ((points.filter fun e =>
      ¬ (e.2.execute.isEmpty ∧ e.2.planCreate.isEmpty)).map Prod.fst).Nodup := by
    refine List.Nodup.sublist ((List.filter_sublist (l := points)).map Prod.fst) ?_
    rw [labels]
    exact distinct
  cases collated
  rw [emittedPoints_payloadOf]
  simp only [List.mem_flatMap, List.mem_append, List.mem_filterMap]
  constructor
  · intro backends
    rcases backends with ⟨⟨label, found⟩, entry, shown⟩
    have member := (Dict.get?_ofList keys).mp (Dict.mem_entries_iff.mp entry)
    obtain ⟨l, inside, made⟩ := (mem_of_mapM collected).mp (List.mem_of_mem_filter member)
    obtain ⟨found', collated', same⟩ := Option.map_eq_some_iff.mp made
    cases same
    exact ⟨l, inside, found, collated', shown⟩
  · intro files
    rcases files with ⟨l, inside, found, collated', shown⟩
    have member : (l.label, found) ∈ points :=
      (mem_of_mapM collected).mpr ⟨l, inside, by rw [collated', Option.map_some]⟩
    have nonempty : ¬ (found.execute.isEmpty ∧ found.planCreate.isEmpty) := by
      intro empty
      rcases empty with ⟨noExecute, noPlan⟩
      rw [List.isEmpty_iff.mp noExecute, List.isEmpty_iff.mp noPlan] at shown
      simp at shown
    refine ⟨(l.label, found), Dict.mem_entries_iff.mpr ((Dict.get?_ofList keys).mpr ?_), shown⟩
    exact List.mem_filter.mpr ⟨member, decide_eq_true nonempty⟩

theorem ExecutePoint.point_eq {q : ExecutePoint} {label : String}
    (shown : q.point label = some p) : p.backend = label ∧ p.op = "execute" := by
  obtain ⟨value, -, rfl⟩ := Option.map_eq_some_iff.mp shown
  exact ⟨rfl, rfl⟩

theorem PlanPoint.point_eq {q : PlanPoint} {label : String}
    (shown : q.point label = some p) : p.backend = label ∧ p.op = "plan_create" := by
  obtain ⟨value, -, rfl⟩ := Option.map_eq_some_iff.mp shown
  exact ⟨rfl, rfl⟩

/-- The dashboard has the points of the results, less the plan creations of filters. -/
theorem mem_emittedPoints (distinct : (loaded.map Loaded.label).Nodup)
    (numeric : ∀ l ∈ loaded, NumericSizes u suite l.rows) {payload : Option Payload}
    (collated : collateLoaded u suite loaded scraped = some payload) :
    p ∈ emittedPoints payload ↔
      Shown (perBackendOf loaded) p ∧ (p.op = "execute" ∨ suite = .fft) := by
  rw [mem_emittedPoints_iff distinct collated]
  obtain ⟨b, op, size, value⟩ := p
  constructor
  · intro files
    rcases files with ⟨l, inside, points, made, ⟨q, member, shown⟩ | ⟨q, member, shown⟩⟩
    · obtain ⟨rfl, rfl⟩ := ExecutePoint.point_eq shown
      obtain ⟨m, found, shown⟩ :=
        (mem_execute_points (numeric l inside) made).mp ⟨q, member, shown⟩
      have backend := (get?_perBackendOf distinct).mpr ⟨l, inside, rfl, rfl⟩
      exact ⟨⟨l.rows, m, backend, found, shown⟩, Or.inl rfl⟩
    · obtain ⟨rfl, rfl⟩ := PlanPoint.point_eq shown
      obtain ⟨transforms, m, found, shown⟩ :=
        (mem_plan_points (numeric l inside) made).mp ⟨q, member, shown⟩
      have backend := (get?_perBackendOf distinct).mpr ⟨l, inside, rfl, rfl⟩
      exact ⟨⟨l.rows, m, backend, found, shown⟩, Or.inr transforms⟩
  · intro results
    rcases results with ⟨shown, placed⟩
    have named := shown.op_eq
    obtain ⟨rows, m, backend, found, shown⟩ := shown
    obtain ⟨l, inside, rfl, rfl⟩ := (get?_perBackendOf distinct).mp backend
    obtain ⟨points, made⟩ := exists_collateRows (numeric l inside)
    refine ⟨l, inside, points, made, ?_⟩
    rcases named with rfl | rfl
    · exact Or.inl ((mem_execute_points (numeric l inside) made).mpr ⟨m, found, shown⟩)
    · rcases placed with other | transforms
      · exact absurd other (by simp)
      · exact Or.inr
          ((mem_plan_points (numeric l inside) made).mpr ⟨transforms, m, found, shown⟩)

theorem exists_collateLoaded (numeric : ∀ l ∈ loaded, NumericSizes u suite l.rows)
    (scraped : Option String) : ∃ payload, collateLoaded u suite loaded scraped = some payload := by
  have each : ∀ l ∈ loaded, ∃ points,
      (collateRows u suite l.rows).map (fun points => (l.label, points)) = some points := by
    intro l inside
    obtain ⟨points, made⟩ := exists_collateRows (numeric l inside)
    exact ⟨(l.label, points), by rw [made, Option.map_some]⟩
  obtain ⟨points, collected⟩ := exists_mapM each
  exact ⟨_, by rw [collateLoaded, collected]; rfl⟩

theorem exists_collectTables (distinct : (loaded.map Loaded.label).Nodup)
    (numeric : ∀ l ∈ loaded, NumericSizes u suite l.rows) (baseline : Option String) :
    ∃ t, collectTables u (perBackendOf loaded) baseline = some t := by
  have ordered : ∀ op, ∃ sizes, sizesOf u (perBackendOf loaded) op = some sizes := by
    intro op
    refine exists_sortedBySize ?_
    intro size member
    obtain ⟨⟨b, rows⟩, entry, member⟩ := List.mem_flatMap.mp (List.mem_dedup.mp member)
    obtain ⟨key, inDict, chosen⟩ := List.mem_filterMap.mp member
    obtain ⟨-, same⟩ := Option.ite_none_right_eq_some.mp chosen
    cases same
    obtain ⟨m, found⟩ := Dict.mem_keys_iff.mp inDict
    obtain ⟨l, inside, -, rfl⟩ := (get?_perBackendOf distinct).mp (Dict.mem_entries_iff.mp entry)
    exact (numeric l inside key.1 key.2 m found).sortKey
  obtain ⟨sizes, found⟩ := ordered "execute"
  obtain ⟨planSizes, found'⟩ := ordered "plan_create"
  exact ⟨_, by rw [collectTables, found, found']; rfl⟩

/-- Of results with distinct labels and numeric sizes, the tables and the dashboard are
made, and they have the same points exactly if the suite is that of the transforms or no
backend has a time of a plan creation. -/
theorem dashboard_shows_tables_iff (u : Unicode) (suite : Suite) (loaded : List Loaded)
    (baseline scraped : Option String) (distinct : (loaded.map Loaded.label).Nodup)
    (numeric : ∀ l ∈ loaded, NumericSizes u suite l.rows) :
    (∃ t payload, collectTables u (perBackendOf loaded) baseline = some t ∧
        collateLoaded u suite loaded scraped = some payload ∧
          ∀ p, p ∈ reportedPoints t ↔ p ∈ emittedPoints payload) ↔
      (suite = .fft ∨
        ∀ l ∈ loaded, ∀ size m, l.rows.get? ("plan_create", size) = some m → m.time = none) := by
  obtain ⟨t, built⟩ := exists_collectTables distinct numeric baseline
  obtain ⟨payload, collated⟩ := exists_collateLoaded numeric scraped
  constructor
  · intro agree
    rcases agree with ⟨t', payload', built', collated', same⟩
    rw [built] at built'
    rw [collated] at collated'
    cases built'
    cases collated'
    by_contra fails
    obtain ⟨filters, plans⟩ := not_or.mp fails
    refine plans ?_
    intro l inside size m found
    cases time : m.time with
    | none => rfl
    | some time' =>
      have backend := (get?_perBackendOf distinct).mpr ⟨l, inside, rfl, rfl⟩
      have shown : Shown (perBackendOf loaded)
          ⟨l.label, "plan_create", size, time' * toUs (m.unit.getD "us")⟩ := by
        refine ⟨l.rows, m, backend, found, ?_⟩
        rw [Metrics.shown, if_neg (by simp), if_pos rfl, time]
        rfl
      have emitted := (same _).mp ((mem_reportedPoints built).mpr shown)
      obtain ⟨-, execution | transforms⟩ := (mem_emittedPoints distinct numeric collated).mp emitted
      · exact absurd execution (by simp)
      · exact absurd transforms filters
  · intro condition
    refine ⟨t, payload, built, collated, ?_⟩
    intro p
    rw [mem_reportedPoints built, mem_emittedPoints distinct numeric collated]
    refine ⟨?_, And.left⟩
    intro shown
    refine ⟨shown, ?_⟩
    rcases condition with transforms | plans
    · exact Or.inr transforms
    · rcases shown.op_eq with execution | planCreate
      · exact Or.inl execution
      · obtain ⟨rows, m, backend, found, value⟩ := shown
        obtain ⟨l, inside, -, rfl⟩ := (get?_perBackendOf distinct).mp backend
        rw [planCreate] at found value
        rw [Metrics.shown, if_neg (by decide), if_pos rfl, plans l inside p.size m found] at value
        cases value

end

/-! ## One backend -/

/-- The results of one backend at one size: an execution in nanoseconds and a plan
creation. -/
def oneSize (size : String) : List Loaded :=
  [{ label := "portable"
     rows := (Dict.empty.set ("execute", size) { median := some 1500, unit := some "ns" }).set
       ("plan_create", size) { time := some 1, unit := some "us" }
     context := Dict.empty }]

theorem numericSizes_oneSize {suite : Suite} {size : String}
    (numeric : NumericSize .ascii suite size) :
    ∀ l ∈ oneSize size, NumericSizes .ascii suite l.rows := by
  intro l inside op size' m found
  obtain rfl := List.mem_singleton.mp inside
  by_cases first : (op, size') = ("execute", size)
  · cases first
    exact numeric
  · by_cases second : (op, size') = ("plan_create", size)
    · cases second
      exact numeric
    · rw [Dict.get?_set_of_ne second, Dict.get?_set_of_ne first] at found
      cases found

/-- A transform of the length 64 is shown alike. -/
theorem dashboard_shows_tables_oneSize :
    ∃ t payload, collectTables .ascii (perBackendOf (oneSize "64")) none = some t ∧
      collateLoaded .ascii .fft (oneSize "64") none = some payload ∧
        ∀ p, p ∈ reportedPoints t ↔ p ∈ emittedPoints payload := by
  have numeric : NumericSize .ascii .fft "64" := ⟨by decide, 64, by decide⟩
  exact (dashboard_shows_tables_iff .ascii .fft (oneSize "64") none none (by decide)
    (numericSizes_oneSize numeric)).mpr (Or.inl rfl)

/-- The plan creation of a filter of 64 samples and 32 taps is in the tables and not on
the dashboard. -/
theorem plan_create_missing :
    ((oneSize "64x32").map Loaded.label).Nodup ∧
      (∀ l ∈ oneSize "64x32", NumericSizes .ascii .fir l.rows) ∧
      ∃ t payload, collectTables .ascii (perBackendOf (oneSize "64x32")) none = some t ∧
        collateLoaded .ascii .fir (oneSize "64x32") none = some payload ∧
        (⟨"portable", "plan_create", "64x32", 1⟩ : Point) ∈ reportedPoints t ∧
        (⟨"portable", "plan_create", "64x32", 1⟩ : Point) ∉ emittedPoints payload := by
  have numeric : NumericSize .ascii .fir "64x32" := ⟨64, 32, by decide⟩
  have distinct : ((oneSize "64x32").map Loaded.label).Nodup := by decide
  have numerics := numericSizes_oneSize numeric
  obtain ⟨t, built⟩ := exists_collectTables distinct numerics none
  obtain ⟨payload, collated⟩ := exists_collateLoaded numerics none
  refine ⟨distinct, numerics, t, payload, built, collated, ?_, ?_⟩
  · refine (mem_reportedPoints built).mpr ⟨_, { time := some 1, unit := some "us" }, rfl, ?_, ?_⟩
    · decide
    · decide +kernel
  · intro emitted
    obtain ⟨-, execution | transforms⟩ := (mem_emittedPoints distinct numerics collated).mp emitted
    · exact absurd execution (by decide)
    · cases transforms

end DspDispatch.Bench
