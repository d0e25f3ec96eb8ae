import Cosmonaut.Model.Files
import Mathlib.Data.Int.Log
import Mathlib.Data.Rat.Floor

/-!
# The job: its row and its model

The job's row in the database, the model a job object holds of it, and the two translations between
them (`CosmonautJob.load`, `_row`). The row has run-owned columns, which only the transitions of the
job run write, and the columns a save writes.

* `JobModel.ofRow` reads a row, filling in the keys that older rows lack.
* `JobModel.row` is what a save writes, `JobModel.columns` what a write of some fields writes.
* `Columns.inputs` are the columns a run takes its input from.
-/

namespace Cosmonaut

/-- The exceptions an operation may end in. -/
inductive Fault
  | jobNotFound
  | fileNotFound
  /-- SQLAlchemy's errors. -/
  | database
  | objectStorage
  /-- The network errors an upload task retries: no connection, a timeout, a stream that broke off,
  an in-band runtime error of Overpass. -/
  | transient
  | http (status : ℕ)
  | other (name : String)
  /-- The process is terminated: no handler of the program sees this. -/
  | killed
  deriving DecidableEq

/-- The exceptions of the app: those of the operations and those it raises itself. -/
inductive Err
  | fault (f : Fault)
  | jobNotPending
  | jobRunning
  | jobNotRunning
  | fileValidation (message : String)
  /-- Dash's `PreventUpdate`. -/
  | preventUpdate
  | value (message : String)
  | key (name : String)
  | type (message : String)
  /-- `csv.Error`. -/
  | csv (message : String)
  /-- A file that does not parse. -/
  | decode
  /-- Celery's `Retry`. -/
  | retry
  deriving DecidableEq

/-- `str(e)`, of the errors whose text is shown. -/
def Err.message : Err → String
  | .fileValidation message | .value message | .type message | .csv message => message
  | _ => ""

/-- What the code takes from packages outside the repository. -/
class External extends Networkx where
  /-- The fields of `FullPipelineConfig` and their defaults. -/
  configFields : Config
  parseMembershipFile : String → Except String DataFrame
  parsePredictorFile : String → Except String Unit
  /-- Of the predictor file and the membership file, if there is one. -/
  validateConsistency : String → Option String → Except String Unit
  /-- `csv.Sniffer().sniff`: the delimiter of a sample. -/
  sniff : String → Except String Char
  /-- `csv.Sniffer().has_header`. -/
  hasHeader : String → Except String Bool
  /-- `pd.read_csv` of a file with a delimiter and perhaps a header. -/
  readCsv : String → Char → Bool → Except String DataFrame
  /-- A pyproj transformer from one EPSG code to another, in each system's own axis order. -/
  transform : ℤ → ℤ → Point → Point
  /-- The same with `always_xy`. -/
  project : ℤ → ℤ → Point → Point
  /-- Whether a position lies in the buffered convex hull of positions, or the error of shapely's
  `Polygon`, which takes no ring of one or two positions. -/
  convexHull : List Point → Except String (Point → Bool)
  /-- `math.log2`. -/
  log2 : ℚ → ℚ

/-- Packages that accept every file, read the same table from each, and leave every position where
it is. A hull is the whole world, a logarithm is rounded down. -/
@[reducible] def External.plain : External where
  toNetworkx := .plain
  configFields := []
  parseMembershipFile := fun _ => .ok []
  parsePredictorFile := fun _ => .ok ()
  validateConsistency := fun _ _ => .ok ()
  sniff := fun _ => .ok ','
  hasHeader := fun _ => .ok true
  readCsv := fun _ _ _ => .ok [("x", .numbers [2, 3, 4, 5, 6, 7, 8, 9, 10, 11, 12]),
    ("y", .numbers [2, 3, 4, 5, 6, 7, 8, 9, 10, 11, 12])]
  transform := fun _ _ p => p
  project := fun _ _ p => p
  convexHull := fun points =>
    if points.length = 1 ∨ points.length = 2 then
      .error "A linearring requires at least 4 coordinates."
    else .ok fun _ => true
  log2 := fun x => Int.log 2 x

/-- The table that these packages read. -/
def plainTable : String := "x,y\n2,2\n3,3\n4,4\n5,5\n6,6\n7,7\n8,8\n9,9\n10,10\n11,11\n12,12\n"

/-- Predictors of its positions. -/
def plainPredictors : String :=
  "x,y,z\n2,2,1\n3,3,1\n4,4,2\n5,5,2\n6,6,3\n7,7,3\n8,8,2\n9,9,2\n10,10,1\n11,11,1\n12,12,1\n"

/-! ## The row -/

inductive Status
  | pending
  | running
  | completed
  | failed
  deriving DecidableEq

abbrev TaskId := ℕ

/-- The state of the road network's construction: done, failed, not begun, or the task at it. -/
inductive StreetProcessing
  | pending
  | completed
  | failed
  | task (id : TaskId)
  deriving DecidableEq

/-- The keys of `membership_upload` that every row has. The default value holds an EPSG code and no
bounds, an uploaded file's the other way round. The bounds and the centre of no position are NaN, a
null of the row: `none` for a centre, `some none` for bounds. -/
structure MembershipInfo where
  fileName : FileName
  len : ℕ
  epsg : Option ℤ
  center : Option Point
  zoom : ℤ
  bounds : Option (Option (Point × Point))
  deriving DecidableEq

/-- `membership_upload` as the row holds it. Older rows lack one or both of the last keys. -/
structure MembershipColumn extends MembershipInfo where
  streetProcessing : Option StreetProcessing
  downloadSha256 : Option (Option Sha256)
  deriving DecidableEq

/-- `membership_upload` as a loaded job holds it. -/
structure MembershipUpload extends MembershipInfo where
  streetProcessing : StreetProcessing
  downloadSha256 : Option Sha256
  deriving DecidableEq

structure PredictorUpload where
  fileName : FileName
  len : ℕ
  deriving DecidableEq

/-- The columns of a row that a save writes. -/
structure Columns where
  email : String
  membershipUpload : MembershipColumn
  predictorUpload : PredictorUpload
  epsg : ℤ
  config : Config
  streetEdits : Option StreetEdits
  notifiedEnd : Bool
  stage : ℕ
  version : String
  celeryTaskId : Option TaskId
  startDate : Option ℕ
  deriving DecidableEq

/-- The job's row. `heartbeat` says whether `heartbeat_at` is set. -/
structure Row where
  status : Status
  submitted : Bool
  heartbeat : Bool
  runId : Option ℕ
  columns : Columns
  deriving DecidableEq

/-! ## The model -/

/-- `JobModel`: what a job object holds of its row. -/
structure JobModel where
  email : String
  membershipUpload : MembershipUpload
  predictorUpload : PredictorUpload
  epsg : ℤ
  config : Config
  submitted : Bool
  notifiedEnd : Bool
  stage : ℕ
  status : Status
  version : String
  celeryTaskId : Option TaskId
  startDate : Option ℕ
  streetEdits : Option StreetEdits
  deriving DecidableEq

def noFileUploaded : FileName := .other "No file uploaded"

/-- The default of the field `membership_upload`. -/
def defaultMembershipUpload : MembershipUpload where
  fileName := noFileUploaded
  len := 0
  epsg := some 25832
  center := some (517 / 10, 112 / 10)
  zoom := 10
  bounds := none
  streetProcessing := .pending
  downloadSha256 := none

/-- The default of the field `predictor_upload`. -/
def defaultPredictorUpload : PredictorUpload := ⟨noFileUploaded, 0⟩

/-- The value of a loaded job: a missing state of the road network is PENDING, a missing checksum is
no checksum. -/
def MembershipColumn.backfill (c : MembershipColumn) : MembershipUpload where
  toMembershipInfo := c.toMembershipInfo
  streetProcessing := c.streetProcessing.getD .pending
  downloadSha256 := c.downloadSha256.getD none

/-- The value as a write puts it into the row. -/
def MembershipUpload.column (u : MembershipUpload) : MembershipColumn where
  toMembershipInfo := u.toMembershipInfo
  streetProcessing := some u.streetProcessing
  downloadSha256 := some u.downloadSha256

section

variable [External]

/-- `JobModel()`: the model of a new job. -/
def JobModel.blank : JobModel where
  email := ""
  membershipUpload := defaultMembershipUpload
  predictorUpload := defaultPredictorUpload
  epsg := 25832
  config := External.configFields
  submitted := false
  notifiedEnd := false
  stage := 0
  status := .pending
  version := "0.1.5"
  celeryTaskId := none
  startDate := none
  streetEdits := none

/-- `CosmonautJob.load`: the row as a model, the config's fields merged in. -/
def JobModel.ofRow (r : Row) : JobModel where
  email := r.columns.email
  membershipUpload := r.columns.membershipUpload.backfill
  predictorUpload := r.columns.predictorUpload
  epsg := r.columns.epsg
  config := External.configFields.map fun field =>
    (field.1, (r.columns.config.lookup field.1).getD field.2)
  submitted := r.submitted
  notifiedEnd := r.columns.notifiedEnd
  stage := r.columns.stage
  status := r.status
  version := r.columns.version
  celeryTaskId := r.columns.celeryTaskId
  startDate := r.columns.startDate
  streetEdits := r.columns.streetEdits

end

/-- `CosmonautJob._row`: the model as columns, config nested, without the run-owned ones. -/
def JobModel.row (m : JobModel) : Columns where
  email := m.email
  membershipUpload := m.membershipUpload.column
  predictorUpload := m.predictorUpload
  epsg := m.epsg
  config := m.config
  streetEdits := m.streetEdits
  notifiedEnd := m.notifiedEnd
  stage := m.stage
  version := m.version
  celeryTaskId := m.celeryTaskId
  startDate := m.startDate

/-- The row of a job in some state. -/
def Row.ofModel (m : JobModel) : Row := ⟨m.status, m.submitted, false, none, m.row⟩

/-! ## Writing some columns -/

/-- A column with the value to write. -/
inductive ColumnValue
  | email (v : String)
  | membershipUpload (v : MembershipColumn)
  | predictorUpload (v : PredictorUpload)
  | epsg (v : ℤ)
  | config (v : Config)
  | streetEdits (v : Option StreetEdits)
  | notifiedEnd (v : Bool)
  | stage (v : ℕ)
  | version (v : String)
  | celeryTaskId (v : Option TaskId)
  | startDate (v : Option ℕ)
  deriving DecidableEq

def Columns.put (c : Columns) : ColumnValue → Columns
  | .email v => { c with email := v }
  | .membershipUpload v => { c with membershipUpload := v }
  | .predictorUpload v => { c with predictorUpload := v }
  | .epsg v => { c with epsg := v }
  | .config v => { c with config := v }
  | .streetEdits v => { c with streetEdits := v }
  | .notifiedEnd v => { c with notifiedEnd := v }
  | .stage v => { c with stage := v }
  | .version v => { c with version := v }
  | .celeryTaskId v => { c with celeryTaskId := v }
  | .startDate v => { c with startDate := v }

def Columns.putAll (c : Columns) (vs : List ColumnValue) : Columns := vs.foldl .put c

def Row.putAll (r : Row) (vs : List ColumnValue) : Row :=
  { r with columns := r.columns.putAll vs }

/-- The names of the model's fields that are no run-owned columns. -/
inductive Field
  | email
  | membershipUpload
  | predictorUpload
  | epsg
  | streetEdits
  | notifiedEnd
  | stage
  | version
  | celeryTaskId
  | startDate
  /-- A field of `FullPipelineConfig`. -/
  | config (name : String)
  deriving DecidableEq

/-- The column a field lands in, with the model's value. A config field takes the whole config. -/
def JobModel.column (m : JobModel) : Field → ColumnValue
  | .email => .email m.row.email
  | .membershipUpload => .membershipUpload m.row.membershipUpload
  | .predictorUpload => .predictorUpload m.row.predictorUpload
  | .epsg => .epsg m.row.epsg
  | .streetEdits => .streetEdits m.row.streetEdits
  | .notifiedEnd => .notifiedEnd m.row.notifiedEnd
  | .stage => .stage m.row.stage
  | .version => .version m.row.version
  | .celeryTaskId => .celeryTaskId m.row.celeryTaskId
  | .startDate => .startDate m.row.startDate
  | .config _ => .config m.row.config

/-- `CosmonautJob._columns`. -/
def JobModel.columns (m : JobModel) (fields : List Field) : List ColumnValue :=
  fields.map m.column

/-! ## The input columns -/

/-- The columns a run takes its input from. -/
structure Inputs where
  email : String
  membershipUpload : MembershipColumn
  predictorUpload : PredictorUpload
  epsg : ℤ
  config : Config
  streetEdits : Option StreetEdits
  deriving DecidableEq

def Columns.inputs (c : Columns) : Inputs where
  email := c.email
  membershipUpload := c.membershipUpload
  predictorUpload := c.predictorUpload
  epsg := c.epsg
  config := c.config
  streetEdits := c.streetEdits

/-- Whether the column is an input of a run. -/
def ColumnValue.isInput : ColumnValue → Bool
  | .email _ | .membershipUpload _ | .predictorUpload _ | .epsg _ | .config _ | .streetEdits _ =>
    true
  | _ => false

theorem Columns.inputs_put {c : Columns} {v : ColumnValue} (h : v.isInput = false) :
    (c.put v).inputs = c.inputs := by
  cases v <;> first | rfl | cases h

theorem Columns.inputs_putAll {c : Columns} {vs : List ColumnValue}
    (h : ∀ v ∈ vs, v.isInput = false) : (c.putAll vs).inputs = c.inputs := by
  induction vs generalizing c with
  | nil => rfl
  | cons v vs ih =>
    exact (ih fun u hu => h u (by simp [hu])).trans (Columns.inputs_put (h v (by simp)))

/-- What a write of some columns leaves in a column was there or is in the write. -/
theorem putAll_cases {β : Type} {get : Columns → β} {value : β → ColumnValue}
    (hput : ∀ c v, get (c.put v) = get c ∨ v = value (get (c.put v))) (c : Columns)
    (vs : List ColumnValue) :
    get (c.putAll vs) = get c ∨ value (get (c.putAll vs)) ∈ vs := by
  induction vs generalizing c with
  | nil => exact .inl rfl
  | cons v vs ih =>
    rcases ih (c.put v) with h | h
    · rcases hput c v with hv | hv
      · exact .inl (h.trans hv)
      · refine .inr (List.mem_cons.2 (.inl ?_))
        rw [show get (c.putAll (v :: vs)) = get (c.put v) from h, ← hv]
    · exact .inr (List.mem_cons_of_mem _ h)

theorem membershipUpload_putAll (c : Columns) (vs : List ColumnValue) :
    (c.putAll vs).membershipUpload = c.membershipUpload ∨
      .membershipUpload (c.putAll vs).membershipUpload ∈ vs :=
  putAll_cases (fun c v => by cases v <;> first | exact .inl rfl | exact .inr rfl) c vs

theorem celeryTaskId_putAll (c : Columns) (vs : List ColumnValue) :
    (c.putAll vs).celeryTaskId = c.celeryTaskId ∨
      .celeryTaskId (c.putAll vs).celeryTaskId ∈ vs :=
  putAll_cases (fun c v => by cases v <;> first | exact .inl rfl | exact .inr rfl) c vs

/-- A write that names the column leaves one of its values there. -/
theorem membershipUpload_putAll_mem {c : Columns} {vs : List ColumnValue} {u : MembershipColumn}
    (h : .membershipUpload u ∈ vs) : .membershipUpload (c.putAll vs).membershipUpload ∈ vs := by
  induction vs generalizing c with
  | nil => cases h
  | cons v vs ih =>
    rcases List.mem_cons.1 h with rfl | h
    · rcases membershipUpload_putAll (c.put (.membershipUpload u)) vs with hu | hu
      · refine List.mem_cons.2 (.inl ?_)
        exact congrArg ColumnValue.membershipUpload hu
      · exact List.mem_cons_of_mem _ hu
    · exact List.mem_cons_of_mem _ (ih h)

end Cosmonaut
