import FleetRunner.Js.Value
import FleetRunner.Js.TextOrder
import FleetRunner.Library.Collect
import FleetRunner.Library.Sorting

/-!
# The eval table (`api/evals.ts`)

Result rows that scored one input are an eval set. Within a set the rows are
pivoted by model and device, and the newest row of a model on a device is the
cell. A row that names no input, or no metric of its own family, is listed as
excluded.

## Implementation notes

`at` is kept as the milliseconds its text stands for. `localeCompare` and
`toISOString` belong to the engine; a comparison of texts is consistent, and
nothing else is assumed of them. An object that is read by key only is the
function that reads it: `cells` has its own properties, and beside them the
prototype that an assignment to `__proto__` sets.
-/

namespace FleetRunner.Evals

open Library

/-- What kind of evaluation a row comes from. -/
inductive Family where
  | vision
  | llm
  | speech
  | embed
  deriving DecidableEq

def Family.text : Family → String
  | .vision => "vision"
  | .llm => "llm"
  | .speech => "speech"
  | .embed => "embed"

def visionBackends : List String := ["litert", "coreml", "tflite", "vision"]

/-- The family of a workload, by its name and then by its backend. -/
def familyOf (workload : String) (backend : Option String) : Family :=
  if workload = "speech-eval" then .speech
  else if workload = "embed-eval" then .embed
  else if backend.getD "" ∈ visionBackends then .vision
  else .llm

/-- The metrics a family is compared by. -/
def namedMetrics : Family → List String
  | .vision => ["top1_pct", "top5_pct", "p50_ms", "p95_ms", "images_per_s"]
  | .llm => ["prefill_tok_s", "decode_tok_s", "ttft_ms"]
  | .speech => ["wer_pct", "rtf", "clips"]
  | .embed => ["recall_at_1", "recall_at_5", "recall_at_10", "docs_per_s", "dim"]

/-- The one metric a family is led by. -/
structure Headline where
  key : String
  label : String
  unit : String
  higherIsBetter : Bool

/-- A family's headline. -/
def headline : Family → Headline
  | .vision => ⟨"top1_pct", "Top-1", "%", true⟩
  | .llm => ⟨"decode_tok_s", "Decode", "tok/s", true⟩
  | .speech => ⟨"wer_pct", "WER", "%", false⟩
  | .embed => ⟨"recall_at_1", "Recall@1", "", true⟩

/-- `typeof o[k] === "number"`, with the number. -/
def number? (o : Fields) (k : String) : Option Rat := (Fields.get? o k).bind Json.asNum?

/-! ## Energy per unit of work -/

/-- How much was done for a joule. -/
structure PerJoule where
  value : Rat
  unit : String
  basis : String

/-- `n(v)`: a number above zero. -/
def positive? (o : Fields) (k : String) : Option Rat := (number? o k).filter fun q => decide (0 < q)

/-- The count a family stores, with its unit and where it was read. -/
def workCount (family : Family) (metrics params : Fields) : Option Rat × String × String :=
  match family with
  | .llm => (positive? params "gen_tokens", "tok/J", "params.gen_tokens")
  | .vision =>
    (((positive? params "images").or (positive? params "image_count")).or
      (positive? params "count"), "img/J", "params.images")
  | .speech => (positive? metrics "clips", "clips/J", "metrics.clips")
  | .embed => ((positive? params "docs").or (positive? params "doc_count"), "docs/J", "params.docs")

/-- The work of a row by the energy it took, where both are known. -/
def perJoule (family : Family) (metrics params : Fields) (energyWh : Option Rat) :
    Option PerJoule :=
  match energyWh with
  | none => none
  | some wh =>
    if wh ≤ 0 then none
    else
      let work := workCount family metrics params
      work.1.map fun count => ⟨count / (wh * 3600), work.2.1, work.2.2⟩

/-! ## Rows and cells -/

/-- How energy was measured. -/
inductive EnergyMethod where
  | plug
  | plugShared
  | os

/-- Where a figure for energy comes from. -/
inductive EnergySource where
  | result
  | integrated

/-- The energy of a row. -/
structure EnergyView where
  wh : Rat
  method : EnergyMethod
  includes_charging : Option Bool
  source : EnergySource
  baseline_source : Option String
  note : Option String

/-- One evaluation, by one device. -/
structure EvalRow where
  job_id : String
  device_id : String
  device_model : Option String
  simulator : Bool
  /-- `Date.parse(r.at)` -/
  at_ms : Option Int
  input_sha256 : Option String
  workload : String
  backend : Option String
  model : Option String
  quant : Option String
  accel : Option String
  metrics : Fields
  params : Fields
  energy : Option EnergyView

def EvalRow.family (r : EvalRow) : Family := familyOf r.workload r.backend

/-- What the table shows of an evaluation. -/
structure Cell where
  job_id : String
  device_id : String
  device_model : Option String
  simulator : Bool
  at_ms : Option Int
  metrics : List (String × Option Rat)
  energy : Option EnergyView
  per_joule : Option PerJoule

/-- The cell of a row, with the metrics of the family of its set. -/
def cellOf (family : Family) (r : EvalRow) : Cell where
  job_id := r.job_id
  device_id := r.device_id
  device_model := r.device_model
  simulator := r.simulator
  at_ms := r.at_ms
  metrics := (namedMetrics family).map fun k => (k, number? r.metrics k)
  energy := r.energy
  per_joule := perJoule family r.metrics r.params (r.energy.map (·.wh))

/-- `row.cells` -/
structure Cells where
  own : String → Option Cell
  proto : Option Cell

/-- No cell yet. -/
def Cells.empty : Cells := ⟨fun _ => none, none⟩

/-- What `row.cells[id]` is to the comparison of times. -/
inductive Prior where
  | absent
  | dated (at_ms : Option Int)
  /-- a text, whose `at` is a method and no time -/
  | undatable

/-- A property of a cell that is a text and not empty. -/
def Cell.hasText (c : Cell) (id : String) : Bool :=
  (id = "job_id" && c.job_id ≠ "") || (id = "device_id" && c.device_id ≠ "") ||
    (id = "device_model" && c.device_model.getD "" ≠ "") || (id = "at" && c.at_ms.isSome)

/-- What stands under an id before a row is put there. -/
def Cells.prior (cells : Cells) (id : String) : Prior :=
  match cells.own id, cells.proto with
  | some c, _ => .dated c.at_ms
  | none, none => .absent
  | none, some p =>
    if id = "__proto__" then .dated p.at_ms
    else if p.hasText id then .undatable
    else .absent

/-- `t >= priorT`, where what is undated is at minus infinity. -/
def notBefore (t prior : Option Int) : Bool :=
  match prior, t with
  | none, _ => true
  | some _, none => false
  | some p, some t => decide (p ≤ t)

/-- Does what stands there give way to a row of this time? -/
def Prior.yields (p : Prior) (t : Option Int) : Bool :=
  match p with
  | .absent => true
  | .dated prior => notBefore t prior
  | .undatable => false

/-- Puts a cell under an id; one id is a property of every object. -/
def Cells.put (cells : Cells) (id : String) (c : Cell) : Cells :=
  if id = "__proto__" then { cells with proto := some c }
  else { cells with own := fun j => if j = id then some c else cells.own j }

/-- A row of the table: a model as it was run. -/
structure ModelRow where
  key : String
  model : Option String
  quant : Option String
  backend : Option String
  accel : Option String
  cells : Cells

/-- What rows are told apart by. -/
def modelKey (r : EvalRow) : String :=
  r.model.getD "?" ++ "|" ++ r.quant.getD "" ++ "|" ++ r.backend.getD "?" ++ "|" ++
    r.accel.getD ""

def ModelRow.start (r : EvalRow) : ModelRow where
  key := modelKey r
  model := r.model
  quant := r.quant
  backend := r.backend
  accel := r.accel
  cells := .empty

/-- Newest wins. -/
def modelStep (family : Family) (o : Option ModelRow) (r : EvalRow) : ModelRow :=
  let row := o.getD (.start r)
  if (row.cells.prior r.device_id).yields r.at_ms then
    { row with cells := row.cells.put r.device_id (cellOf family r) }
  else row

/-- A column of the table. -/
structure DeviceColumn where
  device_id : String
  device_model : Option String
  simulator : Bool

def deviceStep (_ : Option DeviceColumn) (r : EvalRow) : DeviceColumn :=
  ⟨r.device_id, r.device_model, r.simulator⟩

/-! ## Filing the rows -/

/-- An evaluation left out of the table, and why. -/
structure Excluded where
  job_id : String
  device_id : String
  at_ms : Option Int
  workload : String
  backend : Option String
  input_sha256 : Option String
  reason : String
  present : List String

def noInputReason : String :=
  "no params.input_sha256 — nothing says which eval set this scored, so it cannot be compared to anything"

def noMetricReason (family : Family) : String :=
  "no named " ++ family.text ++ " metric (expected one of " ++
    ", ".intercalate (namedMetrics family) ++
    ") — this row predates the schema fields and its numbers live in slots that mean something else"

def isNull : Json → Bool
  | .null => true
  | _ => false

/-- The keys of the metrics that are there. -/
def present (metrics : Fields) : List String :=
  (metrics.filter fun p => !isNull p.2).map Prod.fst

/-- A row that is listed and not counted. -/
def excludedOf (r : EvalRow) (input_sha256 : Option String) (reason : String) : Excluded :=
  ⟨r.job_id, r.device_id, r.at_ms, r.workload, r.backend, input_sha256, reason, present r.metrics⟩

/-- The rows of one input, of which there is at least one. -/
structure Bucket where
  input_sha256 : String
  first : EvalRow
  more : List EvalRow

/-- The rows of a bucket, in the order they came. -/
def Bucket.list (b : Bucket) : List EvalRow := b.first :: b.more

/-- A row goes into the bucket of its set. -/
def bucketStep (sha : String) (o : Option Bucket) (r : EvalRow) : Bucket :=
  match o with
  | none => ⟨sha, r, []⟩
  | some b => { b with more := b.more ++ [r] }

/-- The rows by the set they scored, and those left out. -/
structure Filed where
  excluded : List Excluded
  bySet : Table Bucket.input_sha256

/-- `!r.input_sha256` is also true of an empty hash. -/
def inputSha? (r : EvalRow) : Option String := r.input_sha256.filter fun sha => decide (sha ≠ "")

/-- The metrics of its family that a row has. -/
def named (r : EvalRow) : List String :=
  (namedMetrics r.family).filter fun k => (number? r.metrics k).isSome

/-- Files one row. -/
def fileRow (s : Filed) (r : EvalRow) : Filed :=
  match inputSha? r with
  | none => { s with excluded := s.excluded ++ [excludedOf r none noInputReason] }
  | some sha =>
    if named r = [] then
      { s with excluded := s.excluded ++ [excludedOf r (some sha) (noMetricReason r.family)] }
    else { s with bySet := s.bySet.upsert (bucketStep sha (s.bySet.find? sha) r) }

/-! ## The pivot -/

/-- What the engine supplies. -/
structure Engine where
  /-- `a.localeCompare(b)` -/
  localeCompare : String → String → Ordering
  consistent : Std.TransCmp localeCompare
  /-- `new Date(ms).toISOString()` -/
  toISOString : Int → String

/-- The table of one set. -/
structure EvalSet where
  input_sha256 : String
  family : Family
  headline : Headline
  named_metrics : List String
  workloads : List String
  devices : List DeviceColumn
  models : List ModelRow
  runs : Nat
  latest_at : String
  excluded : Nat
  has_energy : Bool

/-- All tables, and what is in none. -/
structure Pivot where
  sets : List EvalSet
  excluded : List Excluded

section Pivot

variable (e : Engine)

def compareDevices (a b : DeviceColumn) : Ordering := e.localeCompare a.device_id b.device_id

/-- By the name of the model, and where the names tie by the key. -/
def compareModels (a b : ModelRow) : Ordering :=
  (e.localeCompare (a.model.getD "") (b.model.getD "")).then (e.localeCompare a.key b.key)

/-- Newest first. -/
def compareSets (a b : EvalSet) : Ordering := e.localeCompare b.latest_at a.latest_at

/-- `new Set(..)`: the first of each. -/
def addWorkload (seen : List String) (r : EvalRow) : List String :=
  if r.workload ∈ seen then seen else seen ++ [r.workload]

def workloadsOf (list : List EvalRow) : List String :=
  (list.foldl addWorkload []).insertionSort jsTextLe

def devicesOf (list : List EvalRow) : Table DeviceColumn.device_id :=
  .collect DeviceColumn.device_id EvalRow.device_id deviceStep list

def modelsOf (family : Family) (list : List EvalRow) : Table ModelRow.key :=
  .collect ModelRow.key modelKey (modelStep family) list

/-- `Math.max(..)` over the rows; an undated one counts as the epoch. -/
def Bucket.latest (b : Bucket) : Int :=
  b.more.foldl (fun t r => max t (r.at_ms.getD 0)) (b.first.at_ms.getD 0)

/-- The table of a bucket. -/
def evalSet (excluded : List Excluded) (b : Bucket) : EvalSet :=
  let family := b.first.family
  { input_sha256 := b.input_sha256
    family
    headline := headline family
    named_metrics := namedMetrics family
    workloads := workloadsOf b.list
    devices := sortBy (compareDevices e) (devicesOf b.list).rows
    models := sortBy (compareModels e) (modelsOf family b.list).rows
    runs := b.list.length
    latest_at := e.toISOString b.latest
    excluded := (excluded.filter fun x => decide (x.input_sha256 = some b.input_sha256)).length
    has_energy := b.list.any fun r => r.energy.isSome }

/-- The rows as tables, one for each set. -/
def pivotEvals (rows : List EvalRow) : Pivot :=
  let filed := rows.foldl fileRow ⟨[], .empty⟩
  { sets := sortBy (compareSets e) (filed.bySet.rows.map (evalSet e filed.excluded))
    excluded := filed.excluded }

end Pivot

end FleetRunner.Evals
