import DspDispatch.Bench.Results
import Mathlib.Data.List.Dedup
import Mathlib.Data.Rat.Floor

/-!
# Result tables (`build_tables` of `tools/run_benchmarks.py`)

A table has a column for each backend and, for the latency, one more for each backend
that is compared with the baseline. Its rows are built cell by cell: the cells of the
comparison are appended only to the rows of sizes at which the baseline has a median.
-/

namespace DspDispatch.Bench

open Kit

/-! ## Numbers as texts -/

/-- Rounding of a number that is not negative, with ties to even. -/
def roundHalfEven (q : ℚ) : Nat :=
  let n := ⌊q⌋₊
  if q - n < 1 / 2 ∨ (q - n = 1 / 2 ∧ n % 2 = 0) then n else n + 1

def sign (q : ℚ) : String := if q < 0 then "-" else ""

/-- `f"{q:.3f}"` with three digits, and so on. -/
def fixed (digits : Nat) (q : ℚ) : String :=
  let scaled := roundHalfEven (|q| * 10 ^ digits)
  let fraction := toString (scaled % 10 ^ digits)
  sign q ++ toString (scaled / 10 ^ digits) ++ "." ++
    String.ofList (List.replicate (digits - fraction.length) '0') ++ fraction

/-- A comma after every third digit, of the digits from the last to the first. -/
def commas : List Char → List Char
  | a :: b :: c :: d :: rest => a :: b :: c :: ',' :: commas (d :: rest)
  | rest => rest

/-- `f"{q:,.0f}"`. -/
def grouped (q : ℚ) : String :=
  sign q ++ String.ofList (commas (toString (roundHalfEven |q|)).toList.reverse).reverse

/-! ## Tables -/

structure Table where
  headers : List String
  rows : List (List String)

/-- The widths of the columns after a row; `none` is an `IndexError`. -/
def widen : List Nat → List String → Option (List Nat)
  | widths, [] => some widths
  | [], _ :: _ => none
  | w :: widths, c :: cells => (widen widths cells).map (max w c.length :: ·)

/-- `c.ljust(width)`. -/
def ljust (c : String) (width : Nat) : String :=
  c ++ String.ofList (List.replicate (width - c.length) ' ')

/-- `fmt_table`. -/
def fmtTable (t : Table) : Option String := do
  let widths ← t.rows.foldlM widen (t.headers.map String.length)
  let line := fun cells => "| " ++ " | ".intercalate (List.zipWith ljust cells widths) ++ " |"
  let sep := "|" ++ "|".intercalate
    (widths.map fun w => String.ofList (List.replicate (w + 2) '-')) ++ "|"
  return "\n".intercalate ([line t.headers, sep] ++ t.rows.map line)

/-- A row of the CSV file. Its value is written with six digits. -/
structure CsvRow where
  backend : String
  op : String
  size : String
  metric : String
  value : ℚ
  unit : String
deriving DecidableEq

def CsvRow.cells (r : CsvRow) : List String :=
  [r.backend, r.op, r.size, r.metric, fixed 6 r.value, r.unit]

/-! ## Building the tables -/

/-- The results of each backend. -/
abbrev PerBackend : Type := Dict String (Dict Key Metrics)

section

variable (u : Unicode) (perBackend : PerBackend) (baseline : Option String)

/-- The baseline that is used: the requested backend, or else the first one. -/
def resolveBaseline : Option String :=
  match baseline with
  | some base => if base ∈ perBackend.keys then some base else perBackend.keys.head?
  | none => perBackend.keys.head?

/-- The sizes of an operation in the order of their sort keys. -/
def sizesOf (op : String) : Option (List String) :=
  sortedBySize u (perBackend.entries.flatMap fun e =>
    e.2.keys.filterMap fun key => if key.1 = op then some key.2 else none).dedup

/-- The metrics of a backend at a size, empty when there are none. -/
def metricsAt (op size b : String) : Metrics :=
  ((perBackend.get? b).bind fun rows => rows.get? (op, size)).getD {}

def medianAt (size b : String) : Option ℚ := (metricsAt perBackend "execute" size b).median

/-- The backends with a column of speedups. -/
def speedupBackends : List String :=
  match (resolveBaseline perBackend baseline).filter (· ≠ "") with
  | some base => perBackend.keys.filter (· ≠ base)
  | none => []

/-- `baseline and meds.get(baseline)`: the median to compare with, unless it is zero. -/
def baseMedian (size : String) : Option ℚ :=
  ((resolveBaseline perBackend baseline).filter (· ≠ "")).bind fun base =>
    (medianAt perBackend size base).filter (· ≠ 0)

def baseName : String := (resolveBaseline perBackend baseline).getD "None"

def medianCell (med : Option ℚ) : String :=
  match med with
  | some med => fixed 3 med
  | none => "-"

def speedupCell (base : ℚ) (med : Option ℚ) : String :=
  match med.filter (· ≠ 0) with
  | some med => fixed 2 (base / med) ++ "x"
  | none => "-"

/-- What a backend adds to the CSV file for a size it has a median of. -/
def executeCsv (size b : String) : List CsvRow :=
  let m := metricsAt perBackend "execute" size b
  let unit := m.unit.getD "us"
  match m.median with
  | none => []
  | some med =>
    ⟨b, "execute", size, "median", med, unit⟩ ::
      [("p95", m.p95, unit), ("p99", m.p99, unit),
        ("items_per_second", m.itemsPerSecond, "1/s")].filterMap fun (k, value, unit) =>
          value.map fun value => ⟨b, "execute", size, k, value, unit⟩

def speedupCsv (size : String) (base : ℚ) (b : String) : Option CsvRow :=
  ((medianAt perBackend size b).filter (· ≠ 0)).map fun med =>
    ⟨b, "execute", size, "speedup_vs_" ++ baseName perBackend baseline, base / med, "x"⟩

/-- The row of a size in the table of latencies, with what it adds to the CSV file. -/
def latencyRow (size : String) : List String × List CsvRow :=
  let backends := perBackend.keys
  let row := size :: backends.map fun b => medianCell (medianAt perBackend size b)
  let csv := backends.flatMap fun b => executeCsv perBackend size b
  match baseMedian perBackend baseline size with
  | some base =>
    let others := speedupBackends perBackend baseline
    (row ++ others.map fun b => speedupCell base (medianAt perBackend size b),
      csv ++ others.filterMap fun b => speedupCsv perBackend baseline size base b)
  | none => (row, csv)

def latencyHeaders : List String :=
  "size" :: perBackend.keys.map (fun b => b ++ " median (us)") ++
    (speedupBackends perBackend baseline).map fun b =>
      b ++ " vs " ++ baseName perBackend baseline

def throughputCell (m : Metrics) : String :=
  match m.itemsPerSecond.filter (· ≠ 0) with
  | some tps => grouped tps
  | none => "-"

def throughputTable (sizes : List String) : Table where
  headers := "size" :: perBackend.keys.map fun b => b ++ " items/s"
  rows := sizes.map fun size =>
    size :: perBackend.keys.map fun b => throughputCell (metricsAt perBackend "execute" size b)

def planTable (sizes : List String) : Table where
  headers := "size" :: perBackend.keys.map fun b => b ++ " plan (us)"
  rows := sizes.map fun size =>
    size :: perBackend.keys.map fun b =>
      medianCell (metricsAt perBackend "plan_create" size b).time

def planCsv (size b : String) : Option CsvRow :=
  let m := metricsAt perBackend "plan_create" size b
  m.time.map fun t => ⟨b, "plan_create", size, "time", t, m.unit.getD "us"⟩

structure Tables where
  latency : Table
  throughput : Table
  planCreation : Option Table
  csv : List CsvRow

/-- The tables of `build_tables`; `none` is the `ValueError` of a size that looks like
a numeral and is none. -/
def collectTables : Option Tables := do
  let sizes ← sizesOf u perBackend "execute"
  let planSizes ← sizesOf u perBackend "plan_create"
  return {
    latency := {
      headers := latencyHeaders perBackend baseline
      rows := sizes.map fun size => (latencyRow perBackend baseline size).1 }
    throughput := throughputTable perBackend sizes
    planCreation := if planSizes = [] then none else some (planTable perBackend planSizes)
    csv := (sizes.flatMap fun size => (latencyRow perBackend baseline size).2) ++
      planSizes.flatMap fun size => perBackend.keys.filterMap fun b => planCsv perBackend size b }

end

/-- The text of the tables; `none` is the `IndexError` of a row that is too long. -/
def Tables.markdown (t : Tables) : Option String := do
  let latency ← fmtTable t.latency
  let throughput ← fmtTable t.throughput
  let plan ← t.planCreation.mapM fmtTable
  return "\n\n".intercalate
    (["### Execution latency (lower is better)\n\n" ++ latency,
      "### Throughput (items/sec, higher is better)\n\n" ++ throughput] ++
      plan.toList.map ("### Plan creation (one-time, us)\n\n" ++ ·))

def Tables.csvRows (t : Tables) : List (List String) :=
  ["backend", "op", "size", "metric", "value", "unit"] :: t.csv.map CsvRow.cells

/-- `build_tables`. -/
def buildTables (u : Unicode) (perBackend : PerBackend) (baseline : Option String) :
    Option (String × List (List String)) := do
  let t ← collectTables u perBackend baseline
  let md ← t.markdown
  return (md, t.csvRows)

/-! ## Sizes -/

/-- A backend has metrics for the operation at the size. -/
def Measured (perBackend : PerBackend) (op size : String) : Prop :=
  ∃ b rows m, perBackend.get? b = some rows ∧ rows.get? (op, size) = some m

theorem mem_sizesOf {u : Unicode} {perBackend : PerBackend} {op size : String}
    {sizes : List String} (result : sizesOf u perBackend op = some sizes) :
    size ∈ sizes ↔ Measured perBackend op size := by
  rw [(sortedBySize_perm result).mem_iff, List.mem_dedup, List.mem_flatMap]
  constructor
  · intro listed
    rcases listed with ⟨⟨b, rows⟩, entry, member⟩
    obtain ⟨⟨op', size'⟩, key, chosen⟩ := List.mem_filterMap.mp member
    dsimp only at chosen
    obtain ⟨rfl, same⟩ := Option.ite_none_right_eq_some.mp chosen
    cases same
    obtain ⟨m, found⟩ := Dict.mem_keys_iff.mp key
    exact ⟨b, rows, m, Dict.mem_entries_iff.mp entry, found⟩
  · intro measured
    rcases measured with ⟨b, rows, m, backend, found⟩
    refine ⟨(b, rows), Dict.mem_entries_iff.mpr backend, ?_⟩
    exact List.mem_filterMap.mpr ⟨(op, size), Dict.mem_keys_iff.mpr ⟨m, found⟩, if_pos rfl⟩

/-! ## Columns -/

/-- A header and what stands under it in the row of a size. -/
structure Column where
  header : String
  cell : String → String

/-- The headers name the columns, and each row has the cell of each column under its
header. -/
structure Table.Aligned (t : Table) (columns : List Column) : Prop where
  headers : t.headers = columns.map Column.header
  rows : ∀ row ∈ t.rows, ∃ size, row = columns.map fun c => c.cell size

namespace Table.Aligned

variable {t : Table} {columns : List Column} {row : List String}

theorem length_eq (aligned : t.Aligned columns) (member : row ∈ t.rows) :
    row.length = t.headers.length := by
  obtain ⟨size, rfl⟩ := aligned.rows row member
  rw [aligned.headers, List.length_map, List.length_map]

end Table.Aligned

section

variable (perBackend : PerBackend) (baseline : Option String)

def sizeColumn : Column := ⟨"size", id⟩

def medianColumn (b : String) : Column :=
  ⟨b ++ " median (us)", fun size => medianCell (medianAt perBackend size b)⟩

/-- The speedup over the baseline, where both have a median that is not zero. -/
def speedupColumn (b : String) : Column :=
  ⟨b ++ " vs " ++ baseName perBackend baseline, fun size =>
    match baseMedian perBackend baseline size with
    | some base => speedupCell base (medianAt perBackend size b)
    | none => "-"⟩

def throughputColumn (b : String) : Column :=
  ⟨b ++ " items/s", fun size => throughputCell (metricsAt perBackend "execute" size b)⟩

def planColumn (b : String) : Column :=
  ⟨b ++ " plan (us)", fun size => medianCell (metricsAt perBackend "plan_create" size b).time⟩

/-- Every table has the columns its backends ask for, in every row. -/
structure Tables.Rectangular (t : Tables) : Prop where
  latency : t.latency.Aligned (sizeColumn :: perBackend.keys.map (medianColumn perBackend) ++
    (speedupBackends perBackend baseline).map (speedupColumn perBackend baseline))
  throughput : t.throughput.Aligned
    (sizeColumn :: perBackend.keys.map (throughputColumn perBackend))
  planCreation : ∀ p, t.planCreation = some p →
    p.Aligned (sizeColumn :: perBackend.keys.map (planColumn perBackend))

/-- At every size some backend was run at, the baseline has a median to compare with. -/
def BaselineMeasured : Prop :=
  ∀ size, Measured perBackend "execute" size →
    (baseMedian perBackend baseline size).isSome = true

end

section

variable {perBackend : PerBackend} {baseline : Option String} {size : String}

/-- A table of the sizes and one column for each backend. -/
theorem backendTable_aligned (column : String → Column) (sizes : List String) :
    Table.Aligned
      { headers := "size" :: perBackend.keys.map fun b => (column b).header
        rows := sizes.map fun size => size :: perBackend.keys.map fun b => (column b).cell size }
      (sizeColumn :: perBackend.keys.map column) := by
  constructor
  · rw [List.map_cons, List.map_map]
    rfl
  · intro row member
    obtain ⟨size, -, rfl⟩ := List.mem_map.mp member
    refine ⟨size, ?_⟩
    rw [List.map_cons, List.map_map]
    rfl

theorem throughputTable_aligned (sizes : List String) :
    (throughputTable perBackend sizes).Aligned
      (sizeColumn :: perBackend.keys.map (throughputColumn perBackend)) :=
  backendTable_aligned (throughputColumn perBackend) sizes

theorem planTable_aligned (sizes : List String) :
    (planTable perBackend sizes).Aligned
      (sizeColumn :: perBackend.keys.map (planColumn perBackend)) :=
  backendTable_aligned (planColumn perBackend) sizes

theorem latencyHeaders_eq : latencyHeaders perBackend baseline =
    (sizeColumn :: perBackend.keys.map (medianColumn perBackend) ++
      (speedupBackends perBackend baseline).map (speedupColumn perBackend baseline)).map
        Column.header := by
  rw [List.map_append, List.map_cons, List.map_map, List.map_map]
  rfl

/-- Where the baseline has a median the row has all its cells. -/
theorem latencyRow_of_some {base : ℚ} (found : baseMedian perBackend baseline size = some base) :
    (latencyRow perBackend baseline size).1 =
      (sizeColumn :: perBackend.keys.map (medianColumn perBackend) ++
        (speedupBackends perBackend baseline).map (speedupColumn perBackend baseline)).map
          fun c => c.cell size := by
  have speedups : (speedupBackends perBackend baseline).map
      (fun b => (speedupColumn perBackend baseline b).cell size) =
        (speedupBackends perBackend baseline).map
          fun b => speedupCell base (medianAt perBackend size b) := by
    refine List.map_congr_left ?_
    intro b _
    simp only [speedupColumn, found]
  rw [latencyRow, found, List.map_append, List.map_cons, List.map_map, List.map_map]
  exact congrArg (_ ++ ·) speedups.symm

/-- Where the baseline has none the row ends after the medians. -/
theorem latencyRow_of_none (missing : baseMedian perBackend baseline size = none) :
    (latencyRow perBackend baseline size).1 =
      (sizeColumn :: perBackend.keys.map (medianColumn perBackend)).map fun c => c.cell size := by
  rw [latencyRow, missing, List.map_cons, List.map_map]
  rfl

/-! ## The text of the tables -/

/-- A row that is no longer than the headers only widens columns. -/
theorem exists_widen {widths : List Nat} {cells : List String}
    (fits : cells.length ≤ widths.length) :
    ∃ widths', widen widths cells = some widths' ∧ widths'.length = widths.length := by
  induction widths generalizing cells with
  | nil =>
    obtain rfl := List.length_eq_zero_iff.mp (Nat.le_zero.mp fits)
    exact ⟨[], by rw [widen], rfl⟩
  | cons w widths ih =>
    cases cells with
    | nil => exact ⟨w :: widths, by rw [widen], rfl⟩
    | cons c cells =>
      obtain ⟨widths', widened, same⟩ := ih (Nat.le_of_succ_le_succ fits)
      refine ⟨max w c.length :: widths', ?_, congrArg Nat.succ same⟩
      rw [widen, widened, Option.map_some]

theorem exists_widen_rows {rows : List (List String)} {widths : List Nat}
    (fits : ∀ row ∈ rows, row.length ≤ widths.length) :
    ∃ widths', rows.foldlM widen widths = some widths' := by
  induction rows generalizing widths with
  | nil => exact ⟨widths, rfl⟩
  | cons row rows ih =>
    obtain ⟨widths', widened, same⟩ := exists_widen (fits row List.mem_cons_self)
    rw [List.foldlM_cons, widened]
    refine ih ?_
    intro row member
    rw [same]
    exact fits row (List.mem_cons_of_mem _ member)

theorem exists_fmtTable {t : Table} (fits : ∀ row ∈ t.rows, row.length ≤ t.headers.length) :
    ∃ text, fmtTable t = some text := by
  have fits' : ∀ row ∈ t.rows, row.length ≤ (t.headers.map String.length).length := by
    intro row member
    rw [List.length_map]
    exact fits row member
  obtain ⟨widths, widened⟩ := exists_widen_rows fits'
  exact ⟨_, by rw [fmtTable, widened]; rfl⟩

theorem Table.Aligned.exists_fmtTable {t : Table} {columns : List Column}
    (aligned : t.Aligned columns) : ∃ text, fmtTable t = some text :=
  Bench.exists_fmtTable fun _ member => (aligned.length_eq member).le

/-- A row of latencies may be short and is never too long. -/
theorem length_latencyRow_le (size : String) :
    (latencyRow perBackend baseline size).1.length ≤
      (latencyHeaders perBackend baseline).length := by
  rw [latencyHeaders_eq, List.length_map, List.length_append]
  cases found : baseMedian perBackend baseline size with
  | some base => rw [latencyRow_of_some found, List.length_map, List.length_append]
  | none =>
    rw [latencyRow_of_none found, List.length_map]
    exact Nat.le_add_right _ _

/-- `build_tables` writes the tables it has collected: no row runs over its headers. -/
theorem exists_buildTables {u : Unicode} {t : Tables}
    (built : collectTables u perBackend baseline = some t) :
    ∃ md, buildTables u perBackend baseline = some (md, t.csvRows) := by
  obtain ⟨sizes, -, collected⟩ := Option.bind_eq_some_iff.mp built
  obtain ⟨planSizes, -, collected⟩ := Option.bind_eq_some_iff.mp collected
  have latency : ∃ text, fmtTable t.latency = some text := by
    refine exists_fmtTable ?_
    cases collected
    intro row member
    obtain ⟨size, -, rfl⟩ := List.mem_map.mp member
    exact length_latencyRow_le size
  have throughput : ∃ text, fmtTable t.throughput = some text := by
    cases collected
    exact (throughputTable_aligned sizes).exists_fmtTable
  have planCreation : ∃ texts, t.planCreation.mapM fmtTable = some texts := by
    cases collected
    dsimp only
    split
    · exact ⟨none, rfl⟩
    · have aligned : (planTable perBackend planSizes).Aligned _ := planTable_aligned planSizes
      obtain ⟨text, written⟩ := aligned.exists_fmtTable
      exact ⟨some text, by rw [Option.mapM_some, written]; rfl⟩
  obtain ⟨latency, written⟩ := latency
  obtain ⟨throughput, written'⟩ := throughput
  obtain ⟨plan, written''⟩ := planCreation
  have markdown : ∃ md, t.markdown = some md :=
    ⟨_, by rw [Tables.markdown, written, written', written'']; rfl⟩
  obtain ⟨md, text⟩ := markdown
  exact ⟨md, by rw [buildTables, built, Option.bind_eq_bind, Option.bind_some, text]; rfl⟩

/-! ## Rectangular tables -/

/-- The tables of any results are rectangular exactly if nothing is compared with the
baseline or the baseline has a median, and not a zero one, at every size. -/
theorem buildTables_rectangular_iff (u : Unicode) (perBackend : PerBackend)
    (baseline : Option String) (t : Tables) (built : collectTables u perBackend baseline = some t) :
    t.Rectangular perBackend baseline ↔
      (speedupBackends perBackend baseline = [] ∨ BaselineMeasured perBackend baseline) := by
  obtain ⟨sizes, ordered, built⟩ := Option.bind_eq_some_iff.mp built
  obtain ⟨planSizes, -, built⟩ := Option.bind_eq_some_iff.mp built
  cases built
  constructor
  · intro rectangular
    rcases rectangular with ⟨aligned, -, -⟩
    refine or_iff_not_imp_left.mpr ?_
    intro compared size measured
    have row : (latencyRow perBackend baseline size).1 ∈
        sizes.map fun size => (latencyRow perBackend baseline size).1 :=
      List.mem_map.mpr ⟨size, (mem_sizesOf ordered).mpr measured, rfl⟩
    have width := aligned.length_eq row
    by_contra absent
    rw [latencyRow_of_none (Option.not_isSome_iff_eq_none.mp absent), latencyHeaders_eq,
      List.length_map, List.length_map, List.length_append, List.length_map] at width
    have others := List.length_pos_iff.mpr compared
    omega
  · intro condition
    refine ⟨⟨latencyHeaders_eq, ?_⟩, throughputTable_aligned sizes, ?_⟩
    · intro row member
      obtain ⟨size, inside, rfl⟩ := List.mem_map.mp member
      refine ⟨size, ?_⟩
      cases found : baseMedian perBackend baseline size with
      | some base => exact latencyRow_of_some found
      | none =>
        rcases condition with uncompared | measured
        · rw [latencyRow_of_none found, uncompared, List.map_nil, List.append_nil]
        · have present := measured size ((mem_sizesOf ordered).mp inside)
          rw [found] at present
          cases present
    · intro p shown
      split at shown
      · cases shown
      · cases shown
        exact planTable_aligned planSizes

end

/-! ## A length one backend does not support -/

/-- Two backends, of which only the second was run at the length 96. -/
def gaps : PerBackend :=
  (Dict.empty.set "pocketfft" (Dict.empty.set ("execute", "64") { median := some 2 })).set "kfr"
    ((Dict.empty.set ("execute", "64") { median := some 1 }).set ("execute", "96")
      { median := some 3 })

theorem sizesOf_gaps : sizesOf .ascii gaps "execute" = some ["64", "96"] := by
  have sorted : [64, 96].mergeSort (· ≤ ·) = [64, 96] := List.mergeSort_of_pairwise (by decide)
  have order := sortedBySize_fft (u := .ascii) [64, 96]
  rw [sorted] at order
  exact order

theorem collectTables_gaps (baseline : Option String) :
    ∃ t, collectTables .ascii gaps baseline = some t ∧ t.latency =
      { headers := latencyHeaders gaps baseline
        rows := ["64", "96"].map fun size => (latencyRow gaps baseline size).1 } := by
  have planSizes : sizesOf .ascii gaps "plan_create" = some [] := by
    have order := sortedBySize_fft (u := .ascii) []
    rw [List.mergeSort_nil] at order
    exact order
  rw [collectTables, sizesOf_gaps, planSizes]
  exact ⟨_, rfl, rfl⟩

/-- Compared with the second backend the tables are rectangular and written: the missing
median of the first one leaves no gap. -/
theorem buildTables_rectangular_gaps :
    ∃ t md, collectTables .ascii gaps (some "kfr") = some t ∧
      buildTables .ascii gaps (some "kfr") = some (md, t.csvRows) ∧
      t.Rectangular gaps (some "kfr") := by
  obtain ⟨t, built, -⟩ := collectTables_gaps (some "kfr")
  obtain ⟨md, written⟩ := exists_buildTables built
  refine ⟨t, md, built, written,
    (buildTables_rectangular_iff .ascii gaps (some "kfr") t built).mpr (Or.inr ?_)⟩
  intro size measured
  have member := (mem_sizesOf sizesOf_gaps).mpr measured
  simp only [List.mem_cons, List.not_mem_nil, or_false] at member
  rcases member with rfl | rfl <;> decide +kernel

/-- Compared with the first one, the row of the length 96 has three cells under four
headers. -/
theorem latency_gaps :
    ∃ t, collectTables .ascii gaps (some "pocketfft") = some t ∧
      t.latency.headers =
        ["size", "pocketfft median (us)", "kfr median (us)", "kfr vs pocketfft"] ∧
      t.latency.rows = [["64", "2.000", "1.000", "2.00x"], ["96", "-", "3.000"]] ∧
      ¬ t.Rectangular gaps (some "pocketfft") := by
  obtain ⟨t, built, latency⟩ := collectTables_gaps (some "pocketfft")
  have headers : t.latency.headers =
      ["size", "pocketfft median (us)", "kfr median (us)", "kfr vs pocketfft"] := by
    rw [latency]
    decide +kernel
  have rows : t.latency.rows = [["64", "2.000", "1.000", "2.00x"], ["96", "-", "3.000"]] := by
    rw [latency]
    decide +kernel
  refine ⟨t, built, headers, rows, ?_⟩
  intro rectangular
  have short : ["96", "-", "3.000"] ∈ t.latency.rows := by
    rw [rows]
    exact List.mem_cons_of_mem _ List.mem_cons_self
  have width := rectangular.latency.length_eq short
  rw [headers] at width
  exact absurd width (by decide)

end DspDispatch.Bench
