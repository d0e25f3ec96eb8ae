import Cosmonaut.Interleaving.Assume
import Cosmonaut.Street.Session

/-!
# Well-formed rows

What the columns of a row hold whatever requests have written them: the uploads are the defaults or
come from files, the config has the pipeline's fields, and no road is removed twice. A request only
writes what it has loaded, with its own fields changed, so a row that is well formed stays so in any
interleaving (`rows_well_formed`).

* `ColumnsOk`, `ValueOk`: the columns of a row, and a value that is written to one.
* `Keeps`: as long as it loads well-formed rows, a program writes well-formed columns.
* `accepted_edit_left`: a restore takes the road out of the row's intent, since it is in there once.
-/

namespace Cosmonaut

open Interleaving Program

variable [External]

/-! ## Columns -/

/-- There is no table, or the value is that of a table with positions in `T`. -/
inductive InfoOk (T : List Point → Prop) : MembershipInfo → Prop
  | none : InfoOk T defaultMembershipUpload.toMembershipInfo
  | table (points : List Point) : T points →
    InfoOk T (CosmonautJob.uploadedMembership points.length (getBounds points)).toMembershipInfo

/-- There is no predictor file, or the value is that of one. -/
def PredictorOk (u : PredictorUpload) : Prop :=
  u = defaultPredictorUpload ∨ u.fileName = .predictors

/-- The config has the pipeline's fields, in their order. -/
def ConfigOk (c : Config) : Prop := c.map Prod.fst = External.configFields.map Prod.fst

/-- No road is removed twice. -/
def EditsOk (edits : Option StreetEdits) : Prop := ∀ e ∈ edits, e.removedRoads.Nodup

structure ColumnsOk (T : List Point → Prop) (c : Columns) : Prop where
  membership : InfoOk T c.membershipUpload.toMembershipInfo
  predictor : PredictorOk c.predictorUpload
  config : ConfigOk c.config
  edits : EditsOk c.streetEdits

/-- The value may be written to its column. -/
def ValueOk (T : List Point → Prop) : ColumnValue → Prop
  | .membershipUpload u => InfoOk T u.toMembershipInfo
  | .predictorUpload u => PredictorOk u
  | .config c => ConfigOk c
  | .streetEdits e => EditsOk e
  | _ => True

variable {T T' : List Point → Prop}

theorem InfoOk.mono {info : MembershipInfo} (h : InfoOk T info)
    (hT : ∀ points, T points → T' points) :
    InfoOk T' info := by
  cases h with
  | none => exact .none
  | table points hpoints => exact .table points (hT _ hpoints)

theorem ColumnsOk.mono {c : Columns} (h : ColumnsOk T c) (hT : ∀ points, T points → T' points) :
    ColumnsOk T' c :=
  { h with membership := h.membership.mono hT }

theorem ColumnsOk.put {c : Columns} {v : ColumnValue} (h : ColumnsOk T c) (hv : ValueOk T v) :
    ColumnsOk T (c.put v) := by
  cases v with
  | membershipUpload u => exact { h with membership := hv }
  | predictorUpload u => exact { h with predictor := hv }
  | config c => exact { h with config := hv }
  | streetEdits e => exact { h with edits := hv }
  | email | epsg | notifiedEnd | stage | version | celeryTaskId | startDate => exact { h with }

theorem ColumnsOk.putAll {c : Columns} {vs : List ColumnValue} (h : ColumnsOk T c)
    (hvs : ∀ v ∈ vs, ValueOk T v) : ColumnsOk T (c.putAll vs) := by
  induction vs generalizing c with
  | nil => exact h
  | cons v vs ih => exact ih (h.put (hvs v (by simp))) fun u hu => hvs u (by simp [hu])

/-! ## Jobs -/

/-- The job object holds well-formed values. -/
abbrev JobOk (T : List Point → Prop) (job : JobModel) : Prop := ColumnsOk T job.row

theorem configOk_ofRow (r : Row) : ConfigOk (JobModel.ofRow r).config := by
  simp [ConfigOk, JobModel.ofRow, Function.comp_def]

theorem jobOk_ofRow {r : Row} (h : ColumnsOk T r.columns) : JobOk T (.ofRow r) where
  membership := h.membership
  predictor := h.predictor
  config := configOk_ofRow r
  edits := h.edits

theorem JobOk.column {job : JobModel} (h : JobOk T job) (field : Field) :
    ValueOk T (job.column field) := by
  cases field with
  | membershipUpload => exact h.membership
  | predictorUpload => exact h.predictor
  | streetEdits => exact h.edits
  | config name => exact h.config
  | email | epsg | notifiedEnd | stage | version | celeryTaskId | startDate => trivial

theorem JobOk.columns {job : JobModel} (h : JobOk T job) (fields : List Field) :
    ∀ v ∈ job.columns fields, ValueOk T v := by
  intro v hv
  obtain ⟨field, -, rfl⟩ := List.mem_map.1 hv
  exact h.column field

/-- The table in an upload is as well formed with another state of its road network. -/
theorem JobOk.withStreetProcessing {job : JobModel} (h : JobOk T job) (state : StreetProcessing) :
    JobOk T (withStreetProcessing job state) :=
  { h with }

theorem JobOk.withoutMembership {job : JobModel} (h : JobOk T job) :
    JobOk T (CosmonautJob.withoutMembership job) where
  membership := .none
  predictor := .inl rfl
  config := h.config
  edits := by
    rintro e ⟨rfl⟩
    exact List.nodup_nil

theorem configOk_setFields {config : Config} (h : ConfigOk config) (values : Config) :
    ConfigOk (setFields config values) := by
  rw [ConfigOk, setFields, List.map_map]
  exact h

/-! ## Programs -/

/-- What the operation writes is well formed. -/
def Op.WritesOk (T : List Point → Prop) : Op → Prop
  | .writeRow columns => ColumnsOk T columns
  | .updateColumns vs | .updateInput vs => ∀ v ∈ vs, ValueOk T v
  | .updateMembershipUploadOfTask _ u => InfoOk T u.toMembershipInfo
  | _ => True

/-- The row that was loaded is well formed, and so is a legacy intent that was read; a membership
file that was read has positions in `T`. -/
def AnsweredOk (T : List Point → Prop) : Call sig → Prop
  | ⟨.loadRow, .ok r⟩ => ColumnsOk T r.columns
  | ⟨.readFile _ .streetEdits, .ok (.whole edits)⟩ => edits.removedRoads.Nodup
  | ⟨.readFile _ .memberships, .ok (.whole text)⟩ =>
    ∀ epsg points, transformCsv text epsg = pure points → T points
  | _ => True

/-- As long as it loads well-formed rows, the program writes well-formed columns and returns a value
with `F`. -/
abbrev Keeps (T : List Point → Prop) {α : Type} (p : App α) (F : α → Prop) : Prop :=
  p.Under (AnsweredOk T) (Op.WritesOk T) F

variable {here : Site} {α β : Type} {F : α → Prop} {G : β → Prop}

instance : Nonempty sig.Fault := ⟨Fault.killed⟩

theorem keeps_ask {o : Op} (h : o.WritesOk T) : Keeps T (ask o) fun _ => True :=
  under_call h fun _ _ => trivial

theorem writesOk_of_isLocal {o : Op} (h : o.isLocal here = true) : o.WritesOk T := by
  cases o <;> trivial

/-- What works on files only, writes no row. -/
theorem Calls.keeps {p : App α} (h : Stays here p) : Keeps T p fun _ => True :=
  Always.under (h.always.mono fun _ => writesOk_of_isLocal)

theorem keeps_decodeUpload (content : Except String String) :
    Keeps T (CosmonautJob.decodeUpload content) fun _ => True :=
  Always.under (calls_decodeUpload content).always

theorem keeps_load : Keeps T CosmonautJob.load (JobOk T) :=
  .bind (F := fun r : Row => ColumnsOk T r.columns)
    (under_call (A := (AnsweredOk T)) (o := .loadRow) trivial fun _ h => h) fun _ h => jobOk_ofRow h

section

variable {job : JobModel}

theorem JobOk.updateColumns (h : JobOk T job) (fields : List Field) :
    Keeps T (CosmonautJob.updateColumns job fields) fun _ => True :=
  keeps_ask (h.columns fields)

theorem JobOk.updateInput (h : JobOk T job) (fields : List Field) :
    Keeps T (CosmonautJob.updateInput job fields) fun _ => True :=
  keeps_ask (h.columns fields)

theorem JobOk.requireInput (h : JobOk T job) (fields : List Field) :
    Keeps T (CosmonautJob.requireInput job fields) fun _ => True :=
  .bind (h.updateInput fields) fun _ _ => under_ite (fun _ => trivial) fun _ => trivial

theorem JobOk.saveInput (h : JobOk T job) (fields : List Field) :
    Keeps T (CosmonautJob.saveInput here job fields) fun _ => True :=
  .bind (keeps_ask trivial) fun _ _ => h.requireInput fields

theorem JobOk.raiseStage (h : JobOk T job) (stage : ℕ) :
    Keeps T (CosmonautJob.raiseStage job stage) (JobOk T) :=
  .bind (keeps_ask trivial) fun _ _ => { h with }

theorem JobOk.save (h : JobOk T job) : Keeps T (CosmonautJob.save here job) fun _ => True :=
  .bind (rewriteFile_stays _ _).keeps fun _ _ => .bind (keeps_ask trivial) fun _ _ => keeps_ask h

theorem keeps_failToStart (h : JobOk T job) : Keeps T (CosmonautJob.failToStart job) (JobOk T) :=
  .bind (keeps_ask trivial) fun _ _ =>
    under_ite (fun _ => .bind (keeps_ask trivial) fun _ _ => { h with }) fun _ => h

theorem JobOk.submit (h : JobOk T job) :
    Keeps T (CosmonautJob.submit here job) fun _ => True := by
  refine .bind (keeps_ask trivial) fun _ _ => under_ite (fun _ => ?_) fun _ => trivial
  have hstart : Keeps T
      (CosmonautJob.startRun here { job with status := .running, submitted := true })
      fun started => JobOk T started.1 := by
    refine .bind (JobOk.updateColumns (by exact { h with }) _) fun _ _ =>
      .bind (keeps_ask trivial) fun _ _ => .bind (JobOk.save (by exact { h with })) fun _ _ =>
      .bind (keeps_ask trivial) fun _ _ => ?_
    exact { h with }
  refine .bind (.tryCatch hstart fun e => under_ite (fun _ => trivial) fun _ =>
    .bind (keeps_failToStart { h with }) fun _ _ => trivial) fun started hjob => ?_
  refine under_ite (fun _ => .bind (keeps_failToStart hjob) fun _ _ => trivial) fun _ => ?_
  exact .bind (JobOk.updateColumns (by exact { hjob with }) _) fun _ _ => trivial

theorem JobOk.reset (h : JobOk T job) :
    Keeps T (CosmonautJob.reset here job) fun r => JobOk T r.1 :=
  .bind (keeps_ask trivial) fun _ _ => under_ite (fun _ => .bind (keeps_ask trivial) fun _ _ =>
    .bind (keeps_ask trivial) fun _ _ => .bind (JobOk.updateColumns (by exact { h with }) _)
      fun _ _ => { h with }) fun _ => h

theorem keeps_cancel : Keeps T (CosmonautJob.cancel job) fun _ => True := by
  unfold CosmonautJob.cancel
  split
  · exact .bind (keeps_ask trivial) fun _ _ => keeps_ask trivial
  · exact keeps_ask trivial

/-! ## Uploads -/

theorem JobOk.deleteMembership (h : JobOk T job) :
    Keeps T (CosmonautJob.deleteMembership here job) (JobOk T) := by
  have hrest : Keeps T (do
      let plotFiles ← ask (.globPlots here.pod)
      ask (.deleteFiles here.pod
        (CosmonautJob.membershipFiles ++ plotFiles ++ [.membershipTif]))
      let job := CosmonautJob.withoutMembership job
      CosmonautJob.requireInput job [.membershipUpload, .predictorUpload, .streetEdits]
      return job) (JobOk T) :=
    .bind (keeps_ask trivial) fun _ _ => .bind (keeps_ask trivial) fun _ _ =>
      .bind (h.withoutMembership.requireInput _) fun _ _ => h.withoutMembership
  unfold CosmonautJob.deleteMembership
  split
  · exact .bind (keeps_ask trivial) fun _ _ => hrest
  · exact hrest

/-- The positions are those of a file that was read. -/
theorem keeps_transformMembership (epsg : ℤ) :
    Keeps T (CosmonautJob.transformMembership here epsg) T := by
  refine .bind (F := fun text => ∀ points, transformCsv text epsg = pure points → T points)
    ⟨trivial, fun r hr => ?_⟩ fun text htext => ?_
  · rcases r with f | b | text
    · trivial
    · trivial
    · exact hr epsg
  · rcases hpoints : transformCsv text epsg with points | e | ⟨o, k⟩
    · exact htext points hpoints
    · trivial
    · have hcalls := calls_transformCsv (P := fun _ => False) text epsg
      rw [hpoints] at hcalls
      exact (hcalls.always (.error .killed)).1.elim

theorem JobOk.uploadMembership (h : JobOk T job) (content : Except String String) (epsg : ℤ) :
    Keeps T (CosmonautJob.uploadMembership here job content epsg) fun r => JobOk T r.1 := by
  have hrest : Keeps T (CosmonautJob.storeMembership here job content epsg)
      fun r => JobOk T r.1 := by
    refine .bind (keeps_decodeUpload content) fun decoded _ =>
      .bind (rewriteFile_stays _ _).keeps fun _ _ =>
      .bind parseMembership_onDisk.stays.keeps fun df _ =>
      .bind (.tryCatch (keeps_transformMembership epsg) fun e => ?_) fun data hdata => ?_
    · dsimp only
      split
      · exact .bind (keeps_ask trivial) fun _ _ => trivial
      · trivial
    · have hjob : JobOk T { job with
          epsg := epsg
          membershipUpload :=
            CosmonautJob.uploadedMembership data.length (getBounds data) } :=
        { h with membership := .table data hdata }
      exact .bind (hjob.saveInput _) fun _ _ => hjob
  refine .bind (keeps_ask trivial) fun _ _ => .bind (keeps_ask trivial) fun stale _ => ?_
  exact under_ite (fun _ => .bind (keeps_ask trivial) fun _ _ => hrest) fun _ => hrest

theorem JobOk.tryUploadMembership (h : JobOk T job) (content : Except String String) (epsg : ℤ) :
    Keeps T (tryUploadMembership here job content epsg) fun r => ∀ u ∈ r, JobOk T u.1 := by
  refine .tryCatch (.bind (h.uploadMembership content epsg) fun u hu => ?_) fun e => ?_
  · rintro _ ⟨rfl⟩
    exact hu
  · split
    · rintro _ ⟨⟩
    · trivial

theorem JobOk.submitUpload (h : JobOk T job) (epsg : ℤ) :
    Keeps T (submitUpload job epsg) fun _ => True := by
  refine .bind (keeps_ask trivial) fun id _ => ?_
  have hjob := h.withStreetProcessing (.task id)
  have hend : Keeps T (endUploadFailed (Cosmonaut.withStreetProcessing job (.task id)))
      fun _ => True := (hjob.withStreetProcessing .failed).updateColumns _
  refine .bind (hjob.updateColumns _) fun _ _ => .bind (F := fun _ => True) (.tryCatch ?_
    fun e => ?_) fun r _ => under_ite (fun _ => hend) fun _ => trivial
  · exact keeps_ask trivial
  · exact under_ite (fun _ => trivial) fun _ => .bind hend fun _ _ => trivial

theorem JobOk.uploadPredictor (h : JobOk T job) (content : Except String String) :
    Keeps T (CosmonautJob.uploadPredictor here job content) (JobOk T) := by
  refine .bind (keeps_ask trivial) fun _ _ =>
    .bind (keeps_decodeUpload content) fun decoded _ =>
    .bind (rewriteFile_stays _ _).keeps fun _ _ =>
    .bind (checkPredictor_stays ?_).keeps fun _ _ =>
    .bind (checkPredictor_stays ?_).keeps fun _ _ => ?_
  · exact .bind (loadFile_stays _) fun _ => calls_ret _
  · refine .bind (loadFile_stays _) fun _ => .bind (fileExists_stays _) fun _ => ?_
    exact calls_ite (fun _ => .bind (loadFile_stays _) fun _ => calls_ret _) fun _ => calls_ret _
  · have hjob : JobOk T { job with predictorUpload := ⟨.predictors, decoded.utf8ByteSize⟩ } :=
      { h with predictor := .inr rfl }
    exact .bind (hjob.saveInput _) fun _ _ => hjob

theorem JobOk.deletePredictor (h : JobOk T job) :
    Keeps T (CosmonautJob.deletePredictor here job) (JobOk T) := by
  have hjob : JobOk T { job with predictorUpload := defaultPredictorUpload } :=
    { h with predictor := .inl rfl }
  exact .bind (keeps_ask trivial) fun _ _ => .bind (hjob.requireInput _) fun _ _ => hjob

theorem JobOk.getStreetProcessingStatus (h : JobOk T job) :
    Keeps T (CosmonautJob.getStreetProcessingStatus job) fun r => JobOk T r.1 := by
  have hend : ∀ id state, Keeps T (CosmonautJob.endStreetProcessing job id state) (JobOk T) :=
    fun _ state => .bind (keeps_ask trivial) fun _ _ => h.withStreetProcessing state
  unfold CosmonautJob.getStreetProcessingStatus
  split
  case h_4 sp =>
    refine .bind (keeps_ask trivial) fun status _ => ?_
    split
    · exact .bind (hend _ _) fun _ hjob => .bind (hjob.raiseStage _) fun _ hjob => hjob
    · exact .bind (hend _ _) fun _ hjob => hjob
    · exact .bind (hend _ _) fun _ hjob => hjob
    · exact h
    · exact h
  all_goals exact h

/-! ## The street selector -/

theorem JobOk.adoptStoredDownload (h : JobOk T job) :
    Keeps T (adoptStoredDownload here job) (JobOk T) := by
  refine under_ite (fun _ => h) fun _ => .bind (keeps_ask trivial) fun _ _ =>
    .bind (keeps_ask trivial) fun _ _ => under_ite (fun _ => ?_) fun _ => h
  refine .bind (fileSha256_stays _).keeps fun checksum _ => ?_
  have hjob : JobOk T { job with
      membershipUpload := { job.membershipUpload with downloadSha256 := some checksum } } :=
    { h with }
  exact .bind (hjob.updateColumns _) fun _ _ => hjob

/-- A legacy intent that is well formed is adopted as it is. -/
theorem JobOk.adoptLegacyEdits (h : JobOk T job) :
    Keeps T (adoptLegacyEdits here job) (JobOk T) := by
  refine under_ite (fun _ => h) fun _ => .bind (keeps_ask trivial) fun _ _ =>
    under_ite (fun _ => ?_) fun _ => h
  refine .bind (F := fun edits : LegacyEdits => edits.removedRoads.Nodup) ?_ fun edits hedits => ?_
  · refine ⟨trivial, fun r hr => ?_⟩
    rcases r with f | b | edits
    · trivial
    · trivial
    · exact hr
  · have hjob : JobOk T { job with streetEdits := some edits.intent } :=
      { h with edits := by rintro _ ⟨rfl⟩; exact hedits }
    exact .bind (hjob.updateColumns _) fun _ _ => .bind (keeps_ask trivial) fun _ _ => hjob

/-- The selector's job is well formed, and no road is removed twice in its intent. -/
def SelOk (T : List Point → Prop) (sel : StreetSelector) : Prop :=
  JobOk T sel.job ∧ sel.edits.removedRoads.Nodup

variable {sel : StreetSelector}

theorem JobOk.new (h : JobOk T job) : Keeps T (StreetSelector.new here job) (SelOk T) := by
  refine .bind h.adoptLegacyEdits fun job hjob => ⟨hjob, ?_⟩
  rcases hedits : job.streetEdits with _ | edits
  · exact List.nodup_nil
  · exact hjob.edits edits hedits

theorem SelOk.downloadSha256 (h : SelOk T sel) : Keeps T (sel.downloadSha256 here) (SelOk T) :=
  .bind h.1.adoptStoredDownload fun _ hjob => ⟨hjob, h.2⟩

omit [External] in
theorem localDownloadSha256_stays :
    Stays here (StreetSelector.localDownloadSha256 here) :=
  editMenu_local.localDownloadSha256

theorem SelOk.pullDownloadIfOther (h : SelOk T sel) :
    Keeps T (sel.pullDownloadIfOther here) fun r => SelOk T r.1 := by
  refine .bind localDownloadSha256_stays.keeps fun localSha256 _ =>
    .bind h.downloadSha256 fun sel hsel => ?_
  have hrest : Keeps T (do return (sel, ← StreetSelector.localDownloadSha256 here))
      fun r => SelOk T r.1 :=
    .bind localDownloadSha256_stays.keeps fun _ _ => hsel
  exact under_ite (fun _ => .bind (keeps_ask trivial) fun _ _ => hrest) fun _ => hrest

theorem SelOk.refresh (h : SelOk T sel) : Keeps T (sel.refresh here) fun r => SelOk T r.1 := by
  refine .bind h.downloadSha256 fun sel hsel => ?_
  dsimp only
  split
  · exact hsel
  · refine .bind (editMenu_local.isCurrent _ _).keeps fun current _ =>
      under_ite (fun _ => hsel) fun _ => .bind hsel.pullDownloadIfOther fun r hr => ?_
    obtain ⟨sel, localSha256⟩ := r
    cases localSha256 with
    | none => exact hr
    | some sha256 => exact .bind (StreetSelector.deriveFiles_stays _ _ _).keeps fun _ _ => hr

theorem SelOk.ensureProjected (h : SelOk T sel) :
    Keeps T (sel.ensureProjected here) fun _ => True := by
  refine .bind h.refresh fun r _ => under_ite (fun _ => ?_) fun _ => trivial
  refine .bind editMenu_local.records.keeps fun records _ => ?_
  split
  · trivial
  · trivial
  · refine .bind (editMenu_local.isCurrent _ _).keeps fun _ _ =>
      under_ite (fun _ => trivial) fun _ => ?_
    exact .bind (editMenu_local.cachedLoad _ _).keeps fun _ _ =>
      (editMenu_local.project _ _ _).keeps

theorem SelOk.applyEdits (h : SelOk T sel) (defer : Bool) :
    Keeps T (sel.applyEdits here defer) fun r => SelOk T r.1 := by
  have hjob : JobOk T { sel.job with streetEdits := some sel.edits } :=
    { h.1 with edits := by rintro _ ⟨rfl⟩; exact h.2 }
  refine .bind (hjob.updateInput _) fun _ _ => under_ite (fun _ => ?_) fun _ => trivial
  refine .bind (SelOk.pullDownloadIfOther ⟨hjob, h.2⟩) fun r hr => ?_
  exact .bind (StreetSelector.deriveFiles_stays _ _ _).keeps fun _ _ => hr

theorem SelOk.edit (h : SelOk T sel) {edits : StreetEdits} (hedits : edits.removedRoads.Nodup) :
    Keeps T (sel.edit here edits) (SelOk T) := by
  have hsel : SelOk T { sel with edits } := ⟨h.1, hedits⟩
  exact .bind (hsel.applyEdits true) fun _ hr => hr

theorem SelOk.apply (h : SelOk T sel) (e : Edit) : Keeps T (e.apply here sel) (SelOk T) := by
  have hnext := (next_removed h.2 e).1
  rw [apply_eq]
  rcases ha : e.applied sel.edits with _ | edits
  · exact h
  · rw [Edit.next, ha] at hnext
    exact h.edit hnext

/-! ## Tasks -/

theorem keeps_failUpload (id : TaskId) (error : Err) :
    Keeps T (failUpload id error) fun _ => True := by
  refine .bind (F := fun _ => True) (.tryCatch (.bind keeps_load fun job hjob =>
    .bind (keeps_ask (hjob.withStreetProcessing .failed).membership) fun _ _ => trivial) fun e =>
      under_ite (fun _ => trivial) fun _ => trivial) fun _ _ => ?_
  exact .bind (keeps_ask trivial) fun _ _ => trivial

theorem keeps_downloadRoads (m : Message) (epsg : ℤ) :
    Keeps T (downloadRoads here m epsg) fun _ => True := by
  refine .bind (keeps_ask trivial) fun _ _ =>
    .bind (transformMembership_onDisk epsg).stays.keeps fun data _ => ?_
  refine .bind (Always.under (calls_osmDownloader data epsg).always) fun osm _ => ?_
  have hquery : Calls (Op.WritesOk T) (runOsmQuery here osm) :=
    runOsmQuery_calls (fun o h => writesOk_of_isLocal (isLocal_of_isDisk h)) trivial osm
  refine .bind (Always.under hquery.always) fun _ _ =>
    .bind (fileSha256_stays _).keeps fun checksum _ => .bind (keeps_ask trivial) fun _ _ =>
    .bind keeps_load fun job hjob => ?_
  exact .bind (keeps_ask hjob.membership) fun _ _ => trivial

theorem keeps_processUploadTask (m : Message) (epsg : ℤ) :
    Keeps T (processUploadTask here m epsg) fun _ => True := by
  have hfail : ∀ e, Keeps T (do failUpload m.id e; (raise e : App Unit)) fun _ => True := fun e =>
    .bind (keeps_failUpload _ _) fun _ _ => trivial
  have hretry : ∀ e, Keeps T (retryOrFail m e) fun _ => True := fun e =>
    under_ite (fun _ => hfail e) fun _ => .bind (keeps_ask trivial) fun _ _ => trivial
  refine .bind keeps_load fun _ _ => .tryCatch (keeps_downloadRoads m epsg) fun e =>
    under_ite (fun _ => trivial) fun _ => ?_
  dsimp only
  split
  · exact hretry _
  · exact under_ite (fun _ => hretry _) fun _ => hfail _
  · exact hfail _

theorem keeps_createQrCodeRouting : Keeps T (CosmonautJob.createQrCodeRouting here job)
    fun _ => True :=
  Always.under (createQrCodeRouting_calls (P := Op.WritesOk T) (fun _ => writesOk_of_isLocal)
    trivial job).always

theorem keeps_computeRoute : Keeps T (computeRoute here) fun _ => True := by
  refine .bind (keeps_ask trivial) fun _ _ => .bind keeps_load fun job hjob =>
    .bind (F := fun _ => True) ?_ fun _ _ => .bind hjob.new fun sel hsel =>
    .bind hsel.ensureProjected fun _ _ => .bind (keeps_ask trivial) fun _ _ =>
    .bind (keeps_ask trivial) fun _ _ => .bind keeps_createQrCodeRouting fun _ _ =>
    keeps_ask trivial
  exact under_ite (fun _ => .bind (keeps_ask trivial) fun _ _ => trivial) fun _ => trivial

theorem keeps_notifyUser (status : Status) : Keeps T (notifyUser job status) fun _ => True := by
  refine (Always.under (notifyUser_asks (P := Op.WritesOk T) ?_ ?_ ?_ job status) : Keeps T _ _)
  all_goals intros; trivial

theorem keeps_routingWorker : Keeps T (routingWorker here) fun _ => True := by
  refine .bind (keeps_ask trivial) fun received _ => ?_
  rcases received with _ | m
  · trivial
  refine .bind (F := fun _ => True) (.bind (keeps_ask trivial) fun claimed _ => ?_)
    fun ended _ => ?_
  · rcases claimed with _ | ⟨id, n⟩
    · trivial
    refine .bind (F := fun _ => True) (.tryCatch ?_ fun e => ?_) fun status _ =>
      .bind (keeps_ask trivial) fun _ _ => trivial
    · exact .bind (keeps_ask trivial) fun _ _ => .bind keeps_computeRoute fun _ _ =>
        .bind (keeps_ask trivial) fun _ _ => trivial
    · exact under_ite (fun _ => trivial) fun _ => .bind (keeps_ask trivial) fun _ _ => trivial
  · rcases ended with _ | status
    · trivial
    refine .bind (F := fun _ => True) (.tryCatch (.bind keeps_load fun _ _ => trivial) fun e =>
      under_ite (fun _ => trivial) fun _ => trivial) fun job _ => ?_
    rcases job with _ | job
    · trivial
    · exact keeps_notifyUser status

end

/-! ## Requests -/

theorem SelOk.getRemovedRoadsInfo (sel : StreetSelector) :
    Keeps T (sel.getRemovedRoadsInfo here) fun _ => True :=
  (StreetSelector.getRemovedRoadsInfo_stays sel).keeps

/-- **Every request writes well-formed columns**, as long as it loads well-formed rows. -/
theorem Request.keeps (q : Request) : Keeps T (q.program here) fun _ => True := by
  cases q
  case goToUploadPage email =>
    refine .bind keeps_load fun job hjob => ?_
    have hjob' : JobOk T { job with email } := { hjob with }
    exact .bind (hjob'.requireInput _) fun _ _ => .bind (hjob'.raiseStage _) fun _ _ => trivial
  case uploadMembership content epsgInput =>
    refine .bind keeps_load fun job hjob => under_ite (fun _ => trivial) fun _ =>
      .bind (JobOk.deleteMembership (by exact { hjob with })) fun job hjob =>
      .bind (hjob.tryUploadMembership _ _) fun r hr => ?_
    rcases r with _ | ⟨job, bounds, df⟩
    · trivial
    exact .bind (rewriteFile_stays _ _).keeps fun _ _ => .bind (keeps_ask trivial) fun _ _ =>
      .bind (keeps_ask trivial) fun _ _ => (hr _ rfl).submitUpload _
  case uploadPredictor content =>
    refine .bind keeps_load fun job hjob => under_ite (fun _ => trivial) fun _ => .tryCatch
      (.bind (hjob.uploadPredictor _) fun _ _ => trivial) fun e => ?_
    split <;> trivial
  case deleteMembership =>
    exact .bind keeps_load fun _ hjob => under_ite (fun _ => trivial) fun _ =>
      .bind hjob.deleteMembership fun _ _ => trivial
  case deletePredictor =>
    exact .bind keeps_load fun _ hjob => under_ite (fun _ => trivial) fun _ =>
      .bind hjob.deletePredictor fun _ _ => trivial
  case pollStreetProcessing =>
    exact .bind keeps_load fun _ hjob => .bind hjob.getStreetProcessingStatus fun _ _ => trivial
  case openStreetSelection =>
    refine .bind keeps_load fun _ hjob => .bind (hjob.raiseStage _) fun _ hjob =>
      .bind hjob.adoptLegacyEdits fun _ hjob => .bind (keeps_ask trivial) fun _ _ =>
      .bind hjob.getStreetProcessingStatus fun r hr => ?_
    obtain ⟨job, status⟩ := r
    have hshow : Keeps T (showStreets here job) fun _ => True :=
      .bind (JobOk.new hr) fun _ hsel => .bind hsel.refresh fun r _ =>
        .bind (SelOk.getRemovedRoadsInfo r.1) fun _ _ => trivial
    cases status with
    | running => trivial
    | failed => trivial
    | pending => exact hshow
    | completed => exact hshow
  case editStreets e =>
    refine .bind keeps_load fun _ hjob => under_ite (fun _ => trivial) fun _ =>
      .bind hjob.new fun _ hsel => .bind (hsel.apply e) fun sel _ =>
      under_ite (fun _ => ?_) fun _ => trivial
    exact .bind (SelOk.getRemovedRoadsInfo sel) fun _ _ => trivial
  case updateViewportStreets =>
    refine .bind (F := fun job => ∀ j ∈ job, JobOk T j) (.tryCatch (.bind keeps_load
      fun job hjob => ?_) fun e => under_ite (fun _ => ?_) fun _ => trivial) fun job hjob => ?_
    · rintro _ ⟨rfl⟩
      exact hjob
    · rintro _ ⟨⟩
    · rcases job with _ | job
      · trivial
      · exact .bind (hjob job rfl).new fun _ hsel => .bind hsel.refresh fun _ _ =>
          under_ite (fun _ => StreetSelector.visibleFc_stays.keeps) fun _ => trivial
  case openStage stage =>
    exact .bind keeps_load fun _ hjob => .bind (hjob.raiseStage _) fun _ _ => trivial
  case updateRoutingParams values =>
    refine .bind keeps_load fun job hjob => under_ite (fun _ => trivial) fun _ => ?_
    have hjob' : JobOk T { job with config := setFields job.config values } :=
      { hjob with config := configOk_setFields hjob.config values }
    exact under_ite (fun _ => .bind (hjob'.requireInput _) fun _ _ =>
      .bind (hjob'.raiseStage _) fun _ _ => trivial) fun _ =>
      .bind (hjob'.raiseStage _) fun _ _ => trivial
  case startComputation =>
    exact .bind keeps_load fun _ hjob => under_ite (fun _ => .bind hjob.submit fun _ _ => trivial)
      fun _ => trivial
  case cancelComputation =>
    exact .bind keeps_load fun _ _ => under_ite (fun _ => trivial) fun _ =>
      .bind keeps_cancel fun _ _ => under_ite (fun _ => trivial) fun _ => trivial
  case restartComputation =>
    exact .bind keeps_load fun _ hjob => under_ite (fun _ => trivial) fun _ =>
      .bind hjob.reset fun r hr => under_ite (fun _ => .bind (JobOk.submit hr) fun _ _ => trivial)
        fun _ => trivial
  case resetJob =>
    exact .bind keeps_load fun _ hjob => .bind hjob.reset fun _ _ =>
      under_ite (fun _ => trivial) fun _ => trivial
  case openRouteDownload =>
    have hrest : ∀ job, Keeps T (do
        ask (.pullWorkDir here.pod)
        CosmonautJob.createQrCodeRouting here job
        ask (.uploadWorkDir here.pod)) fun _ => True := fun job =>
      .bind (keeps_ask trivial) fun _ _ => .bind keeps_createQrCodeRouting fun _ _ =>
        keeps_ask trivial
    exact .bind keeps_load fun _ hjob => under_ite (fun _ => .bind (hjob.raiseStage _) fun _ _ =>
      hrest _) fun _ => hrest _
  case toggleRouteDirection reversed =>
    refine .bind keeps_load fun job _ => .bind (keeps_ask trivial) fun _ _ =>
      .bind isRouteReversed_stays.keeps fun _ _ => under_ite (fun _ => trivial) fun _ =>
      .bind (F := fun _ => True) ?_ fun _ _ => .bind (getRoutePolyline_stays job).keeps
        fun _ _ => trivial
    exact .bind (rewriteFile_stays _ _).keeps fun _ _ => .bind (keeps_ask trivial) fun _ _ =>
      .bind keeps_createQrCodeRouting fun _ _ => keeps_ask trivial
  case downloadGpx =>
    exact .bind keeps_load fun _ _ => .bind (keeps_ask trivial) fun _ _ =>
      .bind (keeps_ask trivial) fun _ _ => trivial
  case mapLayerData =>
    have hroute : ∀ job : JobModel, Keeps T (do
        if job.status = .completed then
          ask (.pullFile here.pod .solution)
          ask (.pullFile here.pod .routeOptions)
          let _ ← CosmonautJob.getRoutePolyline here job) fun _ => True := fun job =>
      under_ite (fun _ => .bind (keeps_ask trivial) fun _ _ => .bind (keeps_ask trivial) fun _ _ =>
        .bind (getRoutePolyline_stays job).keeps fun _ _ => trivial) fun _ => trivial
    exact .bind keeps_load fun job _ => under_ite (fun _ => .bind (keeps_ask trivial) fun _ _ =>
      .bind (keeps_ask trivial) fun _ _ => hroute job) fun _ => hroute job
  case uploadWorker =>
    refine .bind (keeps_ask trivial) fun received _ => ?_
    rcases received with _ | m
    · trivial
    obtain ⟨id, task, retries⟩ := m
    cases task with
    | routing => trivial
    | upload epsgInput => exact keeps_processUploadTask _ _
  case routingWorker => exact keeps_routingWorker
  case deleteJob => exact .bind (keeps_ask trivial) fun _ _ => trivial
  case sweep => exact keeps_ask trivial

/-! ## Runs -/

/-- The row, if there is one, is well formed. -/
def RowOk (T : List Point → Prop) (w : World) : Prop := ∀ r ∈ w.row, ColumnsOk T r.columns

/-- The legacy intents that are read remove no road twice. -/
def LegacyOk (es : List (Event machine)) : Prop :=
  ∀ e ∈ es, ∀ (pod : ℕ) (edits : LegacyEdits),
    e.call = answered (.readFile pod .streetEdits) (.whole edits) → edits.removedRoads.Nodup

/-- The positions in `T`, and those of the membership files that the run has read. -/
def ReadOr (T : List Point → Prop) (es : List (Event machine)) (points : List Point) : Prop :=
  T points ∨ ∃ e ∈ es, ∃ pod text epsg,
    e.call = answered (.readFile pod .memberships) (.whole text) ∧
      transformCsv text epsg = pure points

/-- A well-formed write keeps the row well formed. -/
theorem rowOk_kept {e : Event machine} (he : e.Allowed) (hop : e.call.op.WritesOk T)
    (h : RowOk T e.before) : RowOk T e.after := by
  intro r' hr'
  rcases hr : e.before.row with _ | r
  · obtain ⟨columns, hc, rfl⟩ := row_new_of_allowed he hr hr'
    rw [hc] at hop
    exact hop
  have hrow := h r hr
  have hstep := columnsStep_of_allowed he hr hr'
  generalize e.call.op = o at hstep hop
  generalize r'.columns = columns at hstep
  cases hstep with
  | same => exact hrow
  | writeRow columns => exact hop
  | updateColumns vs => exact hrow.putAll hop
  | updateInput vs => exact hrow.putAll hop
  | setStreetProcessing id state => exact hrow.putAll (by simpa [ValueOk] using hrow.membership)
  | updateMembershipUpload id upload =>
    have hinfo : InfoOk T upload.toMembershipInfo := hop
    exact hrow.putAll (by simpa [ValueOk] using hinfo)
  | raiseStage stage => exact hrow.putAll (by simp [ValueOk])
  | markEndNotified => exact hrow.putAll (by simp [ValueOk])

/-- What a step is answered in a world with a well-formed row. -/
theorem answeredOk_of_rowOk {es : List (Event machine)} {e : Event machine} (hmem : e ∈ es)
    (he : e.Allowed) (h : RowOk (ReadOr T es) e.before)
    (hlegacy : ∀ (pod : ℕ) (edits : LegacyEdits),
      e.call = answered (.readFile pod .streetEdits) (.whole edits) → edits.removedRoads.Nodup) :
    AnsweredOk (ReadOr T es) e.call := by
  unfold AnsweredOk
  split
  · rename_i r hc
    exact h r (row_of_loaded he hc).1
  · rename_i pod edits hc
    exact hlegacy pod edits hc
  · rename_i pod text hc
    exact fun epsg points hpoints => .inr ⟨e, hmem, pod, text, epsg, hc, hpoints⟩
  · trivial

variable {w : World} {requests : List (Site × Request)} {es : List (Event machine)}
  {p' : Pool machine Err Unit}

/-- The rows before and after each event of a run are well formed, and so are its answers. -/
theorem run_rowOk (hw : RowOk T w) (hrun : Run (serving w requests) es p') (hlegacy : LegacyOk es) :
    RowOk (ReadOr T es) p'.world ∧
      ∀ e ∈ es, RowOk (ReadOr T es) e.before ∧ RowOk (ReadOr T es) e.after ∧
        AnsweredOk (ReadOr T es) e.call := by
  have hthreads : ∀ prog : App Unit, prog ∈ (serving w requests).threads →
      prog.Under (AnsweredOk (ReadOr T es)) (Op.WritesOk (ReadOr T es)) fun _ => True := by
    intro prog hprog
    obtain ⟨⟨here, q⟩, -, rfl⟩ := List.mem_map.1 hprog
    exact q.keeps
  have hstart : RowOk (ReadOr T es) w := fun r hr => (hw r hr).mono fun _ => .inl
  obtain ⟨hafter, -, hes⟩ := hrun.under hstart hthreads fun e he hal hop hI =>
    ⟨answeredOk_of_rowOk he hal hI (hlegacy e he), rowOk_kept hal hop hI⟩
  exact ⟨hafter, fun e he => ⟨(hes e he).2.1, (hes e he).2.2,
    answeredOk_of_rowOk he (hrun.allowed he) (hes e he).2.1 (hlegacy e he)⟩⟩

/-- **Rows stay well formed** in every run of requests: the table in a row is one whose file the run
has read, or one of those from before. -/
theorem rows_well_formed (hw : RowOk T w) (hrun : Run (serving w requests) es p')
    (hlegacy : LegacyOk es) : RowOk (ReadOr T es) p'.world ∧
      ∀ e ∈ es, RowOk (ReadOr T es) e.before ∧ RowOk (ReadOr T es) e.after := by
  obtain ⟨hafter, hes⟩ := run_rowOk hw hrun hlegacy
  exact ⟨hafter, fun e he => ⟨(hes e he).1, (hes e he).2.1⟩⟩

/-! ## What an edit leaves in the row -/

/-- The intent has the roads that the edit removes and none that it restores. -/
structure Edit.Left (e : Edit) (edits : StreetEdits) : Prop where
  removes : ∀ id, e.Removes id → id ∈ edits.removedRoads
  restores : ∀ id, e.Restores id → id ∉ edits.removedRoads

/-- The intents that the operation writes as a job's input are left by the edit. -/
def Op.WritesEdit (e : Edit) (o : Op) : Prop :=
  ∀ edits, o = .updateInput [.streetEdits (some edits)] → e.Left edits

omit [External] in
theorem left_of_applied {e : Edit} {edits edits' : StreetEdits} (h : edits.removedRoads.Nodup)
    (ha : e.applied edits = some edits') : e.Left edits' := by
  have hmem := (next_removed h e).2
  rw [Edit.next, ha, Option.getD_some] at hmem
  have hnever : ∀ id, e.Removes id → ¬e.Restores id := by
    intro id hremoves hrestores
    cases e <;> first | exact hremoves | exact hrestores
  refine ⟨fun id hremoves => (hmem id).2 (.inl hremoves), fun id hrestores hid => ?_⟩
  rcases (hmem id).1 hid with hremoves | ⟨-, hnot⟩
  · exact hnever id hremoves hrestores
  · exact hnot hrestores

omit [External] in
theorem writesEdit_of_adopts (e : Edit) {o : Op}
    (h : o.isLocal here = true ∨ o.isAdoption here = true) : o.WritesEdit e := by
  rintro edits rfl
  rcases h with h | h <;> cases h

/-- **What an edit callback writes** to the intent is left by its edit. -/
theorem editStreets_writesEdit (e : Edit) :
    (editStreets here e).Under (AnsweredOk T) (Op.WritesEdit e) fun _ => True := by
  have hother : ∀ {α : Type} {p : App α}, StaysOrAdopts here p →
      p.Under (AnsweredOk T) (Op.WritesEdit e) fun _ => True := fun h =>
    Always.under (h.always.mono fun _ => writesEdit_of_adopts e)
  have hload : CosmonautJob.load.Under (AnsweredOk T) (Op.WritesEdit e) (JobOk T) :=
    .bind (F := fun r : Row => ColumnsOk T r.columns)
      (under_call (A := (AnsweredOk T)) (o := .loadRow) (fun _ => nofun) fun _ h => h)
      fun _ h => jobOk_ofRow h
  refine .bind hload fun job hjob => under_ite (fun _ => trivial) fun _ =>
    .bind (F := SelOk T) ?_ fun sel hsel => .bind (F := fun _ => True) ?_ fun sel _ =>
    under_ite (fun _ => ?_) fun _ => trivial
  · exact (hjob.new.and_always (StreetSelector.new_staysOrAdopts job).always).mono_op
      fun _ ho => writesEdit_of_adopts e ho.2
  · rw [apply_eq]
    rcases ha : e.applied sel.edits with _ | edits
    · trivial
    refine .bind (F := fun _ => True) (.bind (F := fun _ => True)
      (under_call (A := (AnsweredOk T)) (o := .updateInput _) ?_ fun _ _ => trivial)
      fun _ _ => under_ite (fun _ => ?_) fun _ => trivial) fun _ _ => trivial
    · rintro written h
      have hwritten : some edits = some written := by
        simpa [JobModel.columns, JobModel.column, JobModel.row] using h
      exact left_of_applied hsel.2 (ha.trans hwritten)
    · exact .bind (hother (StreetSelector.pullDownloadIfOther_staysOrAdopts _)) fun _ _ =>
        .bind (hother (StreetSelector.deriveFiles_stays _ _ _).orAdopts) fun _ _ => trivial
  · exact .bind (hother (StreetSelector.getRemovedRoadsInfo_stays sel).orAdopts) fun _ _ => trivial

/-- **An edit that is accepted leaves in the row what it says**: a removed road is among the removed
roads, and a restored one is not, whatever else was written before. -/
theorem accepted_edit_left (hw : RowOk T w) (hrun : Run (serving w requests) es p')
    (hlegacy : LegacyOk es) {event : Event machine} (hevent : event ∈ es) {here : Site} {e : Edit}
    (hrequest : requests[event.thread]? = some (here, .editStreets e)) {edits : StreetEdits}
    (hc : event.call = answered (.updateInput [.streetEdits (some edits)]) true) :
    ∃ r, event.after.row = some r ∧ ∃ left, r.columns.streetEdits = some left ∧
      left.removedRoads.Nodup ∧ e.Left left := by
  obtain ⟨-, hes⟩ := run_rowOk hw hrun hlegacy
  have hprog : (serving w requests).threads[event.thread]? = some (editStreets here e) := by
    rw [serving, List.getElem?_map, hrequest]
    rfl
  have hleft := hrun.under_thread (fun a ha => (hes a ha).2.2) hevent hprog
    (editStreets_writesEdit e) edits (by rw [hc])
  obtain ⟨r, -, -, hafter⟩ := row_of_updateInput_true (hrun.allowed hevent) hc
  exact ⟨_, hafter, edits, rfl, (hes event hevent).2.1 _ hafter |>.edits edits rfl, hleft⟩

/-! ## A table uploaded -/

theorem columnsOk_blank : ColumnsOk T JobModel.blank.row where
  membership := .none
  predictor := .inl rfl
  config := rfl
  edits := by rintro _ ⟨⟩

theorem rowOk_fresh : RowOk T (.fresh (.ofModel .blank)) := by
  rintro _ ⟨rfl⟩
  exact columnsOk_blank

omit [External]

/-- The call reads a legacy intent. -/
def readsLegacy : Op → Bool
  | .readFile _ .streetEdits => true
  | _ => false

theorem legacyOk_of_readsNone {es : List (Event machine)}
    (h : ∀ e ∈ es, readsLegacy e.call.op = false) : LegacyOk es := by
  intro e he pod edits hc
  have hnone := h e he
  rw [hc] at hnone
  cases hnone

/-- A tab uploads a table. -/
def uploadTablePool : Pool machine Err Unit :=
  let _ := External.plain
  serving (.fresh (.ofModel .blank)) [(⟨0, 0, none⟩, .uploadMembership (.ok plainTable) 25832)]

def uploadedTable : List (Event machine) × Pool machine Err Unit :=
  uploadTablePool.play (usually (List.replicate 20 0))

theorem legacyOk_uploadedTable : LegacyOk uploadedTable.1 :=
  legacyOk_of_readsNone (by decide +kernel)

/-- The row once the table is stored: its eleven rows have been read from the file. -/
theorem rowOk_uploadedTable :
    let _ := External.plain
    (∃ r ∈ uploadedTable.2.world.row, r.columns.membershipUpload.len = 11) ∧
      RowOk (ReadOr (fun _ => False) uploadedTable.1) uploadedTable.2.world := by
  intro _
  exact ⟨by decide +kernel,
    (rows_well_formed rowOk_fresh (Run.of_play _ uploadTablePool) legacyOk_uploadedTable).1⟩

/-! ## A road removed and restored -/

/-- One tab removes a road, and another restores it. -/
def removeAndRestore : List (Site × Request) :=
  [(⟨0, 0, none⟩, .editStreets (.removeRoads [7])), (⟨1, 0, none⟩, .editStreets (.restoreRoad 7))]

def removeAndRestorePool : Pool machine Err Unit :=
  let _ := External.plain
  serving (.fresh (.ofModel JobModel.blank)) removeAndRestore

def removedAndRestored : List (Event machine) :=
  (removeAndRestorePool.play (usually [0, 0, 0, 1, 1])).1

/-- The intent that an accepted write has put into the row. -/
def writtenIntent : Call sig → Option StreetEdits
  | ⟨.updateInput [.streetEdits (some edits)], .ok true⟩ => some edits
  | _ => none

theorem writtenIntent_eq_some {c : Call sig} {edits : StreetEdits}
    (h : writtenIntent c = some edits) :
    c = answered (.updateInput [.streetEdits (some edits)]) true := by
  unfold writtenIntent at h
  split at h
  · rw [Option.some.inj h]
  · cases h

theorem legacyOk_removedAndRestored : LegacyOk removedAndRestored :=
  legacyOk_of_readsNone (by decide +kernel)

theorem restored_left : ∃ e ∈ removedAndRestored[4]?, ∃ r, e.after.row = some r ∧
    ∃ left, r.columns.streetEdits = some left ∧ left.removedRoads.Nodup ∧
      (Edit.restoreRoad 7).Left left := by
  let _ := External.plain
  obtain ⟨e, he, hthread, hc⟩ : ∃ e ∈ removedAndRestored[4]?, e.thread = 1 ∧
      writtenIntent e.call = some {} := by decide +kernel
  exact ⟨e, he, accepted_edit_left (T := fun _ => False) rowOk_fresh
    (Run.of_play _ removeAndRestorePool) legacyOk_removedAndRestored (List.mem_of_getElem? he)
    ((congrArg (removeAndRestore[·]?) hthread).trans rfl) (writtenIntent_eq_some hc)⟩

end Cosmonaut
