import Cosmonaut.Model.Footprint

/-!
# What each request can call

The operations a request can ask for, as a closure property: a predicate that holds of the
operations on a `Menu` holds of all calls of the job object's methods and of the requests
(`Request.asks`). The unguarded writes of input columns are on no menu: the requests that make some
are told apart by `Request.adopts`, `Request.saves` and `Request.names`.
-/

namespace Cosmonaut

open Interleaving Program

/-- The value names a task as the state of the road network. -/
def MembershipColumn.namesTask (u : MembershipColumn) : Bool :=
  match u.streetProcessing with
  | some (.task _) => true
  | _ => false

/-- The operation works on what the requests share, and writes neither columns of the program's
choice nor a log line, and takes no part in a run. A compare-and-set on a task names no other. -/
def Op.isShared : Op → Bool
  | .writeRow _ | .updateColumns _ | .updateInput _ | .raiseStage _ => false
  | .setStreetProcessingOfTask _ (.task _) => false
  | .updateMembershipUploadOfTask _ u => !u.namesTask
  | .appendLog .. | .claim | .finish .. | .markEndNotified | .pipeline _ => false
  | .pullWorkDir _ | .pullFile .. | .fileExists .. | .mtime .. | .readFile .. => false
  | .openFile .. | .writeFile .. | .replaceFile .. | .removeFile .. | .globPlots _ => false
  | .cachedChecksum .. | .cacheChecksum .. | .cachedFeatures .. | .cacheFeatures .. => false
  | .newFeatures .. | .getFeatures .. | .addTooltips .. => false
  | _ => true

/-- The value of `membership_upload` for a file just uploaded: it has no road network yet. -/
structure MembershipColumn.JustUploaded (u : MembershipColumn) : Prop where
  fileName : u.fileName = .memberships
  streetProcessing : u.streetProcessing = some .pending
  downloadSha256 : u.downloadSha256 = some none

/-- What a conditional write of inputs puts into the row: an upload that is gone or just made, or
other inputs. -/
structure InputValues (vs : List ColumnValue) : Prop where
  inputs : ∀ v ∈ vs, v.isInput = true
  upload : ∀ u, .membershipUpload u ∈ vs →
    u = defaultMembershipUpload.column ∨ u.JustUploaded

theorem InputValues.pending {vs : List ColumnValue} (h : InputValues vs) {u : MembershipColumn}
    (hu : .membershipUpload u ∈ vs) : u.streetProcessing = some .pending := by
  rcases h.upload u hu with rfl | hnew
  · rfl
  · exact hnew.streetProcessing

/-- All operations a request in `here` may ask for satisfy `P`, but unguarded writes of its inputs
and of its stage. -/
structure Menu (here : Site) (P : Op → Prop) : Prop where
  stays : ∀ o, o.isLocal here = true → P o
  shared : ∀ o, o.isShared = true → P o
  inputs : ∀ vs : List ColumnValue, InputValues vs → P (.updateInput vs)
  due : P (.updateColumns [.notifiedEnd false])
  task : ∀ id, P (.updateColumns [.celeryTaskId id])
  raises : ∀ stage ≤ 5, P (.raiseStage stage)
  log : ∀ text, P (.appendLog none text)

/-- All operations of the uploads and deletions of input files satisfy `P`. -/
structure InputMenu (here : Site) (P : Op → Prop) : Prop where
  disk : ∀ o, o.isDisk here = true → P o
  load : P .loadRow
  revoke : ∀ id, P (.revokeJob id)
  delete : ∀ fs, P (.deleteFiles here.pod fs)
  upload : P (.uploadWorkDir here.pod)
  inputs : ∀ vs : List ColumnValue, InputValues vs → P (.updateInput vs)

/-- The adoptions of the street selector satisfy `P`. -/
abbrev Adopts (here : Site) (P : Op → Prop) : Prop := ∀ o, o.isAdoption here = true → P o

theorem Adopts.download {here : Site} {P : Op → Prop} (h : Adopts here P) : AdoptsDownload P :=
  fun u hu => h _ (by simp [Op.isAdoption, hu])

/-- All operations of a job run's computation satisfy `P`. -/
structure RunMenu (here : Site) (P : Op → Prop) : Prop where
  stays : ∀ o, o.isLocal here = true → P o
  adopts : Adopts here P
  load : P .loadRow
  mail : ∀ email, P (.sendMail (.submitted email))
  url : P .presignedUrl
  log : ∀ text, P (.appendLog here.run text)
  pipeline : P (.pipeline here)

/-- The writes of a save satisfy `P`. -/
abbrev Saves (P : Op → Prop) : Prop :=
  ∀ columns : Columns, columns.notifiedEnd = false → P (.writeRow columns)

/-- The write of a reset. -/
abbrev resetColumns (stage : ℕ) : Op := .updateColumns [.celeryTaskId none, .stage stage]

/-- The ends of a run satisfy `P`. -/
abbrev Finishes (P : Op → Prop) : Prop := ∀ id, P (.finish id .completed) ∧ P (.finish id .failed)

variable {here : Site} {α : Type} {P : Op → Prop}

/-- Every operation the program asks for satisfies `P`. -/
abbrev Asks (P : Op → Prop) (p : App α) : Prop := p.Always fun c : Call sig => P c.op

theorem asks_ask {o : Op} (h : P o) : Asks P (ask o) := always_call fun _ => h

theorem Stays.asks {p : App α} (h : Stays here p) (hm : Menu here P) : Asks P p :=
  (h.calls hm.stays).always

theorem StaysOrAdopts.asks {p : App α} (h : StaysOrAdopts here p) (hm : Menu here P)
    (ha : Adopts here P) : Asks P p :=
  h.always.mono fun _ ho => ho.elim (hm.stays _) (ha _)

theorem inputValues_withoutMembership (job : JobModel) :
    InputValues ((CosmonautJob.withoutMembership job).columns
      [.membershipUpload, .predictorUpload, .streetEdits]) where
  inputs := by simp [JobModel.columns, JobModel.column, ColumnValue.isInput]
  upload u hu := by
    simp only [JobModel.columns, JobModel.column, List.map_cons, List.map_nil, List.mem_cons,
      ColumnValue.membershipUpload.injEq, List.not_mem_nil, or_false, reduceCtorEq] at hu
    exact .inl hu

theorem inputValues_uploaded (job : JobModel)
    (h : MembershipColumn.JustUploaded job.membershipUpload.column) :
    InputValues (job.columns [.membershipUpload, .epsg]) where
  inputs := by simp [JobModel.columns, JobModel.column, ColumnValue.isInput]
  upload u hu := by
    simp only [JobModel.columns, JobModel.column, List.map_cons, List.map_nil, List.mem_cons,
      ColumnValue.membershipUpload.injEq, List.not_mem_nil, or_false, reduceCtorEq] at hu
    exact .inr (hu ▸ h)

/-- The fields hold no upload. -/
theorem inputValues_of_none {vs : List ColumnValue} (h : ∀ v ∈ vs, v.isInput = true)
    (hnone : ∀ u, .membershipUpload u ∉ vs) : InputValues vs :=
  ⟨h, fun u hu => absurd hu (hnone u)⟩

namespace InputMenu

variable (hm : InputMenu here P)

include hm

theorem onDisk {p : App α} (h : OnDisk here p) : Asks P p := (h.mono hm.disk).always

theorem disk' {o : Op} (h : o.isDisk here = true) : Asks P (ask o) := asks_ask (hm.disk o h)

theorem requireInput {job : JobModel} {fields : List Field} (h : InputValues (job.columns fields)) :
    Asks P (CosmonautJob.requireInput job fields) :=
  .bind (asks_ask (hm.inputs _ h)) fun _ => always_ite (fun _ => trivial) fun _ => trivial

theorem deleteMembership (job : JobModel) : Asks P (CosmonautJob.deleteMembership here job) := by
  have hrest : Asks P (do
      let plotFiles ← ask (.globPlots here.pod)
      ask (.deleteFiles here.pod
        (CosmonautJob.membershipFiles ++ plotFiles ++ [.membershipTif]))
      let job := CosmonautJob.withoutMembership job
      CosmonautJob.requireInput job [.membershipUpload, .predictorUpload, .streetEdits]
      return job) :=
    .bind (hm.disk' (by simp [Op.isDisk])) fun _ => .bind (asks_ask (hm.delete _)) fun _ =>
      .bind (hm.requireInput (inputValues_withoutMembership job)) fun _ => trivial
  unfold CosmonautJob.deleteMembership
  split
  · exact .bind (asks_ask (hm.revoke _)) fun _ => hrest
  · exact hrest

variable [External]

theorem uploadMembership (job : JobModel) (content : Except String String) (epsg : ℤ) :
    Asks P (CosmonautJob.uploadMembership here job content epsg) := by
  have hrest : Asks P (CosmonautJob.storeMembership here job content epsg) := by
    refine .bind (calls_decodeUpload content).always fun decoded =>
      .bind (hm.onDisk (rewriteFile_onDisk _ _)) fun _ =>
      .bind (hm.onDisk parseMembership_onDisk) fun df => .bind ?_ fun data => ?_
    · refine .tryCatch (hm.onDisk (transformMembership_onDisk _)) fun e => ?_
      dsimp only
      split
      · exact .bind (hm.disk' (by simp [Op.isDisk])) fun _ => trivial
      · trivial
    · exact .bind (.bind (asks_ask hm.upload) fun _ =>
        hm.requireInput (inputValues_uploaded { job with
          epsg := epsg
          membershipUpload := CosmonautJob.uploadedMembership data.length (getBounds data) }
          ⟨rfl, rfl, rfl⟩)) fun _ => trivial
  refine .bind (hm.disk' (by simp [Op.isDisk])) fun _ =>
    .bind (hm.disk' (by simp [Op.isDisk])) fun stale => ?_
  exact always_ite (fun _ => .bind (asks_ask (hm.delete _)) fun _ => hrest) fun _ => hrest

theorem tryUploadMembership (job : JobModel) (content : Except String String) (epsg : ℤ) :
    Asks P (tryUploadMembership here job content epsg) := by
  refine .tryCatch (.bind (hm.uploadMembership _ _ _) fun _ => trivial) fun e => ?_
  split <;> trivial

end InputMenu

namespace Menu

variable (hm : Menu here P)

include hm

theorem local' {o : Op} (h : o.isLocal here = true) : Asks P (ask o) := asks_ask (hm.stays o h)

theorem input : InputMenu here P where
  disk o h := hm.stays o (isLocal_of_isDisk h)
  load := hm.shared _ rfl
  revoke _ := hm.shared _ rfl
  delete _ := hm.shared _ rfl
  upload := hm.shared _ rfl
  inputs := hm.inputs

theorem ask' {o : Op} (h : o.isShared = true) : Asks P (ask o) := asks_ask (hm.shared o h)

/-! ## The job object's methods -/

theorem requireInput {job : JobModel} {fields : List Field} (h : InputValues (job.columns fields)) :
    Asks P (CosmonautJob.requireInput job fields) :=
  hm.input.requireInput h

theorem saveInput {job : JobModel} {fields : List Field} (h : InputValues (job.columns fields)) :
    Asks P (CosmonautJob.saveInput here job fields) :=
  .bind (hm.ask' rfl) fun _ => hm.requireInput h

theorem raiseStage (job : JobModel) {stage : ℕ} (h : stage ≤ 5) :
    Asks P (CosmonautJob.raiseStage job stage) :=
  .bind (asks_ask (hm.raises _ h)) fun _ => trivial

theorem deleteMembership (job : JobModel) : Asks P (CosmonautJob.deleteMembership here job) :=
  hm.input.deleteMembership job

theorem deletePredictor (job : JobModel) : Asks P (CosmonautJob.deletePredictor here job) :=
  .bind (hm.ask' rfl) fun _ => .bind (hm.requireInput (inputValues_of_none
    (by simp [JobModel.columns, JobModel.column, ColumnValue.isInput])
    (by simp [JobModel.columns, JobModel.column]))) fun _ => trivial

theorem getStreetProcessingStatus (job : JobModel) :
    Asks P (CosmonautJob.getStreetProcessingStatus job) := by
  have hend : ∀ id state, (Op.setStreetProcessingOfTask id state).isShared = true →
      Asks P (CosmonautJob.endStreetProcessing job id state) :=
    fun _ _ h => .bind (hm.ask' h) fun _ => trivial
  unfold CosmonautJob.getStreetProcessingStatus
  split
  case h_4 sp =>
    refine .bind (hm.ask' rfl) fun status => ?_
    split
    · exact .bind (hend _ _ rfl) fun _ => .bind (hm.raiseStage _ (by decide)) fun _ => trivial
    · exact .bind (hend _ _ rfl) fun _ => trivial
    · exact .bind (hend _ _ rfl) fun _ => trivial
    · trivial
    · trivial
  all_goals trivial

theorem save {job : JobModel} (hs : P (.writeRow job.row)) : Asks P (CosmonautJob.save here job) :=
  .bind ((rewriteFile_stays _ _).asks hm) fun _ => .bind (hm.ask' rfl) fun _ => asks_ask hs

theorem failToStart (job : JobModel) : Asks P (CosmonautJob.failToStart job) :=
  .bind (hm.ask' rfl) fun _ =>
    always_ite (fun _ => .bind (asks_ask (hm.log _)) fun _ => trivial) fun _ => trivial

/-- A submit saves the inputs of its job object, and its stage, raised to 4. The end mail is due. -/
theorem submit {job : JobModel} (hs : ∀ columns : Columns, columns.inputs = job.row.inputs →
      columns.stage = max job.stage 4 → columns.notifiedEnd = false → P (.writeRow columns)) :
    Asks P (CosmonautJob.submit here job) := by
  refine .bind (hm.ask' rfl) fun won => always_ite (fun _ => ?_) fun _ => trivial
  refine .bind (.tryCatch ?_ fun e => ?_) fun started => ?_
  · exact .bind (asks_ask hm.due) fun _ => .bind (hm.local' (by simp [Op.isLocal]))
      fun _ => .bind (hm.save (hs _ rfl rfl rfl)) fun _ =>
      .bind (hm.ask' rfl) fun _ => trivial
  · exact always_ite (fun _ => trivial) fun _ => .bind (hm.failToStart _) fun _ => trivial
  · refine always_ite (fun _ => .bind (hm.failToStart _) fun _ => trivial) fun _ => ?_
    exact .bind (asks_ask (hm.task _)) fun _ => trivial

theorem reset {job : JobModel} (hl : P (resetColumns (min job.stage 4))) :
    Asks P (CosmonautJob.reset here job) := by
  refine .bind (hm.ask' rfl) fun _ => always_ite (fun _ => ?_) fun _ => trivial
  exact .bind (hm.ask' rfl) fun _ => .bind (hm.ask' rfl) fun _ => .bind (asks_ask hl)
    fun _ => trivial

theorem cancel (job : JobModel) : Asks P (CosmonautJob.cancel job) := by
  unfold CosmonautJob.cancel
  split
  · exact .bind (hm.ask' rfl) fun _ => hm.ask' rfl
  · exact hm.ask' rfl

variable [External]

theorem load : Asks P CosmonautJob.load := .bind (hm.ask' rfl) fun _ => trivial

theorem tryUploadMembership (job : JobModel) (content : Except String String) (epsg : ℤ) :
    Asks P (tryUploadMembership here job content epsg) :=
  hm.input.tryUploadMembership job content epsg

theorem uploadPredictor (job : JobModel) (content : Except String String) :
    Asks P (CosmonautJob.uploadPredictor here job content) := by
  refine .bind (hm.local' (by simp [Op.isLocal])) fun _ =>
    .bind (calls_decodeUpload content).always fun decoded =>
    .bind ((rewriteFile_stays _ _).asks hm) fun _ =>
    .bind ((checkPredictor_stays ?_).asks hm) fun _ =>
    .bind ((checkPredictor_stays ?_).asks hm) fun _ =>
    .bind (hm.saveInput (inputValues_of_none
      (by simp [JobModel.columns, JobModel.column, ColumnValue.isInput])
      (by simp [JobModel.columns, JobModel.column])))
      fun _ => trivial
  · exact .bind (loadFile_stays _) fun _ => calls_ret _
  · refine .bind (loadFile_stays _) fun _ => .bind (fileExists_stays _) fun _ => ?_
    exact calls_ite (fun _ => .bind (loadFile_stays _) fun _ => calls_ret _) fun _ => calls_ret _

theorem createQrCodeRouting (job : JobModel) :
    Asks P (CosmonautJob.createQrCodeRouting here job) :=
  (createQrCodeRouting_calls hm.stays (hm.shared _ rfl) job).always

theorem setRouteReversed (job : JobModel) (reversed : Bool) :
    Asks P (CosmonautJob.setRouteReversed here job reversed) :=
  .bind ((rewriteFile_stays _ _).asks hm) fun _ => .bind (hm.ask' rfl) fun _ =>
    .bind (hm.createQrCodeRouting job) fun _ => hm.ask' rfl

/-! ## The street selector -/

omit [External] in
theorem editMenu : EditMenu here P where
  pull := hm.stays _ editMenu_local.pull
  fileExists f hf := hm.stays _ (editMenu_local.fileExists f hf)
  mtime s := hm.stays _ (editMenu_local.mtime s)
  readFile f hf := hm.stays _ (editMenu_local.readFile f hf)
  cachedChecksum s := hm.stays _ (editMenu_local.cachedChecksum s)
  cacheChecksum s _ _ := hm.stays _ (editMenu_local.cacheChecksum s _ _)
  openFile f hf := hm.stays _ (editMenu_local.openFile f hf)
  writeFile f doc hf := hm.stays _ (editMenu_local.writeFile f doc hf)
  replaceFile s := hm.stays _ (editMenu_local.replaceFile s)
  removeFile s := hm.stays _ (editMenu_local.removeFile s)
  cachedFeatures s := hm.stays _ (editMenu_local.cachedFeatures s)
  cacheFeatures s _ _ := hm.stays _ (editMenu_local.cacheFeatures s _ _)
  newFeatures features := hm.stays _ (editMenu_local.newFeatures features)
  getFeatures refs := hm.stays _ (editMenu_local.getFeatures refs)
  addTooltips refs := hm.stays _ (editMenu_local.addTooltips refs)

theorem applyEdits (ha : AdoptsDownload P) (sel : StreetSelector) (defer : Bool) :
    Asks P (sel.applyEdits here defer) := by
  refine .bind (asks_ask (hm.inputs _ (inputValues_of_none
    (by simp [JobModel.columns, JobModel.column, ColumnValue.isInput])
    (by simp [JobModel.columns, JobModel.column]))))
    fun _ => always_ite (fun _ => ?_) fun _ => trivial
  refine .bind (hm.editMenu.pullDownloadIfOther ha _).always fun r => ?_
  exact .bind (hm.editMenu.deriveFiles r.1 r.2 defer).always fun _ => trivial

theorem edit (ha : AdoptsDownload P) (sel : StreetSelector) (edits : StreetEdits) :
    Asks P (sel.edit here edits) :=
  .bind (hm.applyEdits ha _ _) fun _ => trivial

theorem apply (ha : AdoptsDownload P) (sel : StreetSelector) (e : Edit) :
    Asks P (e.apply here sel) := by
  cases e with
  | keepLargest => exact .bind (hm.applyEdits ha _ _) fun _ => trivial
  | reset => exact hm.edit ha _ _
  | _ => exact always_ite (fun _ => trivial) fun _ => hm.edit ha _ _

/-! ## The tasks -/

theorem failUpload (id : TaskId) (error : Err) : Asks P (failUpload id error) := by
  refine .bind (.tryCatch (.bind hm.load fun _ => .bind (hm.ask' rfl) fun _ => trivial)
    fun _ => always_ite (fun _ => trivial) fun _ => trivial) fun _ => ?_
  exact .bind (hm.ask' rfl) fun _ => trivial

theorem downloadRoads (m : Message) (epsg : ℤ) : Asks P (downloadRoads here m epsg) :=
  .bind (hm.local' (by simp [Op.isLocal])) fun _ =>
    .bind ((transformMembership_onDisk epsg).stays.asks hm) fun data =>
    .bind (calls_osmDownloader data epsg).always fun osm =>
    .bind (runOsmQuery_calls hm.input.disk (hm.shared _ rfl) osm).always fun _ =>
    .bind ((fileSha256_stays _).asks hm) fun _ => .bind (hm.ask' rfl) fun _ =>
    .bind hm.load fun _ => .bind (hm.ask' rfl) fun _ => trivial

theorem processUploadTask (m : Message) (epsg : ℤ) : Asks P (processUploadTask here m epsg) := by
  have hfail : ∀ e, Asks P (do Cosmonaut.failUpload m.id e; (raise e : App Unit)) := fun e =>
    .bind (hm.failUpload _ _) fun _ => trivial
  have hretry : ∀ e, Asks P (retryOrFail m e) := fun e =>
    always_ite (fun _ => hfail e) fun _ => .bind (hm.ask' rfl) fun _ => trivial
  refine .bind hm.load fun _ => .tryCatch (hm.downloadRoads _ _) fun e =>
    always_ite (fun _ => trivial) fun _ => ?_
  dsimp only
  split
  · exact hretry _
  · exact always_ite (fun _ => hretry _) fun _ => hfail _
  · exact hfail _

omit [External] in
theorem run (ha : Adopts here P) (hlog : ∀ text, P (.appendLog here.run text))
    (hp : P (.pipeline here)) : RunMenu here P where
  stays := hm.stays
  adopts := ha
  load := hm.shared _ rfl
  mail _ := hm.shared _ rfl
  url := hm.shared _ rfl
  log := hlog
  pipeline := hp

end Menu

section

variable [External]

theorem RunMenu.computeRoute (hm : RunMenu here P) : Asks P (computeRoute here) := by
  have hload : Asks P CosmonautJob.load := .bind (asks_ask hm.load) fun _ => trivial
  have hadopts : ∀ {α : Type} {p : App α}, StaysOrAdopts here p → Asks P p := fun h =>
    h.always.mono fun _ ho => ho.elim (hm.stays _) (hm.adopts _)
  refine .bind (asks_ask (hm.log _)) fun _ => .bind hload fun job => .bind ?_ fun _ =>
    .bind (hadopts (StreetSelector.new_staysOrAdopts _)) fun sel =>
    .bind (hadopts (StreetSelector.ensureProjected_staysOrAdopts _)) fun _ =>
    .bind (asks_ask hm.pipeline) fun _ => .bind (asks_ask (hm.log _)) fun _ =>
    .bind (createQrCodeRouting_calls hm.stays hm.url job).always fun _ => asks_ask (hm.log _)
  exact always_ite (fun _ => .bind (asks_ask (hm.mail _)) fun _ => trivial) fun _ => trivial

end

theorem notifyUser_asks (hmail : ∀ m, P (.sendMail m)) (hurl : P .presignedUrl)
    (hnotified : P .markEndNotified) (job : JobModel) (status : Status) :
    Asks P (notifyUser job status) := by
  have hsend : Asks P (do
      if ← ask (.sendMail (.ended job.email status)) then
        Program.tryCatch
          (do let _ ← ask .markEndNotified)
          fun e => if e = .fault .jobNotFound then pure () else raise e) := by
    refine .bind (asks_ask (hmail _)) fun _ => always_ite (fun _ => ?_) fun _ => trivial
    exact .tryCatch (.bind (asks_ask hnotified) fun _ => trivial) fun e =>
      always_ite (fun _ => trivial) fun _ => trivial
  refine always_ite (fun _ => ?_) fun _ => trivial
  exact always_ite (fun _ => .bind (asks_ask hurl) fun _ => hsend) fun _ => hsend

theorem Menu.computeRoute [External] (hm : Menu here P) (ha : Adopts here P)
    (hlog : ∀ text, P (.appendLog here.run text)) (hp : P (.pipeline here)) :
    Asks P (computeRoute here) :=
  (hm.run ha hlog hp).computeRoute

theorem Menu.notifyUser (hm : Menu here P) (hn : P .markEndNotified) (job : JobModel)
    (status : Status) : Asks P (notifyUser job status) :=
  notifyUser_asks (fun _ => hm.shared _ rfl) (hm.shared _ rfl) hn job status

/-! ## The requests -/

/-- The requests that work with a street selector, which may adopt what older rows lack. -/
def Request.adopts : Request → Bool
  | .openStreetSelection | .editStreets _ | .updateViewportStreets => true
  | _ => false

/-- The requests that save the row. -/
def Request.saves : Request → Bool
  | .startComputation | .restartComputation => true
  | _ => false

/-- The requests that reset the job. -/
def Request.resets : Request → Bool
  | .restartComputation | .resetJob => true
  | _ => false

/-- The requests that name an upload task. -/
def Request.names : Request → Bool
  | .uploadMembership .. => true
  | _ => false

/-- The requests that compute a job run. -/
def Request.computes : Request → Bool
  | .routingWorker => true
  | _ => false

variable [External]

/-- **What a request of the pages or of the upload worker can call.** -/
theorem Request.asks {r : Request} (hr : r.computes = false) (hm : Menu here P)
    (ha : r.adopts = true → Adopts here P) (hs : r.saves = true → Saves P)
    (hl : r.resets = true → ∀ stage, P (resetColumns stage))
    (hn : r.names = true → ∀ u : MembershipColumn,
      u.namesTask = true ∨ u.streetProcessing = some .failed →
        P (.updateColumns [.membershipUpload u]))
    (ho : ∀ stage, r = .openStage stage → P (.raiseStage stage)) : Asks P (r.program here) := by
  cases r
  case goToUploadPage email =>
    exact .bind hm.load fun _ => .bind (hm.requireInput (inputValues_of_none
      (by simp [JobModel.columns, JobModel.column, ColumnValue.isInput])
      (by simp [JobModel.columns, JobModel.column]))) fun _ =>
      .bind (hm.raiseStage _ (by decide)) fun _ => trivial
  case uploadMembership content epsgInput =>
    have hname : ∀ (job : JobModel) (id : TaskId), Asks P (CosmonautJob.updateColumns
        (withStreetProcessing job (.task id)) [.membershipUpload]) := fun job id =>
      asks_ask (hn rfl _ (.inl rfl))
    have hfail : ∀ job : JobModel, Asks P (endUploadFailed job) := fun job =>
      asks_ask (hn rfl _ (.inr rfl))
    refine .bind hm.load fun job => always_ite (fun _ => trivial) fun _ =>
      .bind (hm.deleteMembership _) fun job => .bind (hm.tryUploadMembership _ _ _) fun r => ?_
    split
    · trivial
    refine .bind ((rewriteFile_stays _ _).asks hm) fun _ => .bind (hm.ask' rfl) fun _ =>
      .bind (hm.local' (by simp [Op.isLocal])) fun _ => .bind (hm.ask' rfl) fun id =>
      .bind (hname _ _) fun _ => .bind (.tryCatch (hm.ask' rfl) fun e => ?_) fun r => ?_
    · exact always_ite (fun _ => trivial) fun _ => .bind (hfail _) fun _ => trivial
    · exact always_ite (fun _ => hfail _) fun _ => trivial
  case uploadPredictor content =>
    refine .bind hm.load fun _ => always_ite (fun _ => trivial) fun _ => .tryCatch ?_ fun e => ?_
    · exact .bind (hm.uploadPredictor _ _) fun _ => trivial
    · split <;> trivial
  case deleteMembership =>
    exact .bind hm.load fun _ => always_ite (fun _ => trivial) fun _ =>
      .bind (hm.deleteMembership _) fun _ => trivial
  case deletePredictor =>
    exact .bind hm.load fun _ => always_ite (fun _ => trivial) fun _ =>
      .bind (hm.deletePredictor _) fun _ => trivial
  case pollStreetProcessing =>
    exact .bind hm.load fun _ => .bind (hm.getStreetProcessingStatus _) fun _ => trivial
  case openStreetSelection =>
    refine .bind hm.load fun _ => .bind (hm.raiseStage _ (by decide)) fun _ =>
      .bind ((adoptLegacyEdits_staysOrAdopts _).asks hm (ha rfl)) fun _ =>
      .bind (hm.local' (by simp [Op.isLocal])) fun _ =>
      .bind (hm.getStreetProcessingStatus _) fun r => ?_
    obtain ⟨job, status⟩ := r
    have hshow : Asks P (showStreets here job) :=
      .bind ((StreetSelector.new_staysOrAdopts _).asks hm (ha rfl)) fun sel =>
        .bind ((StreetSelector.refresh_staysOrAdopts _).asks hm (ha rfl)) fun r =>
        .bind ((StreetSelector.getRemovedRoadsInfo_stays r.1).asks hm) fun _ => trivial
    cases status with
    | running => trivial
    | failed => trivial
    | pending => exact hshow
    | completed => exact hshow
  case editStreets e =>
    refine .bind hm.load fun job => always_ite (fun _ => trivial) fun _ => ?_
    refine .bind ((StreetSelector.new_staysOrAdopts _).asks hm (ha rfl)) fun sel =>
      .bind (hm.apply (ha rfl).download _ _) fun sel => always_ite (fun _ => ?_) fun _ => trivial
    exact .bind ((StreetSelector.getRemovedRoadsInfo_stays _).asks hm) fun _ => trivial
  case updateViewportStreets =>
    refine .bind (.tryCatch (.bind hm.load fun _ => trivial) fun e =>
      always_ite (fun _ => trivial) fun _ => trivial) fun job => ?_
    split
    · trivial
    · exact .bind ((StreetSelector.new_staysOrAdopts _).asks hm (ha rfl)) fun _ =>
        (StreetSelector.viewportFc_staysOrAdopts _).asks hm (ha rfl)
  case openStage stage =>
    exact .bind hm.load fun _ => .bind (.bind (asks_ask (ho _ rfl)) fun _ => trivial)
      fun _ => trivial
  case updateRoutingParams values =>
    refine .bind hm.load fun _ => always_ite (fun _ => trivial) fun _ => ?_
    have hinput : ∀ job : JobModel,
        InputValues (job.columns (values.map fun v => .config v.1)) := by
      intro job
      refine inputValues_of_none (fun v hv => ?_) fun u hu => ?_
      · simp only [JobModel.columns, List.map_map, List.mem_map, Function.comp] at hv
        obtain ⟨field, -, rfl⟩ := hv
        rfl
      · simp [JobModel.columns, JobModel.column] at hu
    exact always_ite (fun _ => .bind (hm.requireInput (hinput _)) fun _ =>
      .bind (hm.raiseStage _ (by decide)) fun _ => trivial)
      fun _ => .bind (hm.raiseStage _ (by decide)) fun _ => trivial
  case startComputation =>
    exact .bind hm.load fun _ => always_ite (fun _ => .bind (hm.submit fun _ _ _ => hs rfl _)
      fun _ => trivial) fun _ => trivial
  case cancelComputation =>
    exact .bind hm.load fun _ => always_ite (fun _ => trivial) fun _ =>
      .bind (hm.cancel _) fun _ => always_ite (fun _ => trivial) fun _ => trivial
  case restartComputation =>
    refine .bind hm.load fun _ => always_ite (fun _ => trivial) fun _ => ?_
    refine .bind (hm.reset (hl rfl _)) fun r => always_ite (fun _ => ?_) fun _ => trivial
    exact .bind (hm.submit fun _ _ _ => hs rfl _) fun _ => trivial
  case resetJob =>
    exact .bind hm.load fun _ => .bind (hm.reset (hl rfl _)) fun _ =>
      always_ite (fun _ => trivial) fun _ => trivial
  case openRouteDownload =>
    have hrest : ∀ job, Asks P (do
        ask (.pullWorkDir here.pod)
        CosmonautJob.createQrCodeRouting here job
        ask (.uploadWorkDir here.pod)) := fun job =>
      .bind (hm.local' (by simp [Op.isLocal])) fun _ => .bind (hm.createQrCodeRouting job) fun _ =>
        hm.ask' rfl
    exact .bind hm.load fun _ => always_ite (fun _ => .bind (hm.raiseStage _ le_rfl) fun _ =>
      hrest _) fun _ => hrest _
  case toggleRouteDirection reversed =>
    refine .bind hm.load fun job => .bind (hm.local' (by simp [Op.isLocal])) fun _ =>
      .bind (isRouteReversed_stays.asks hm) fun _ => always_ite (fun _ => trivial) fun _ => ?_
    exact .bind (hm.setRouteReversed _ _) fun _ => .bind ((getRoutePolyline_stays _).asks hm)
      fun _ => trivial
  case downloadGpx =>
    exact .bind hm.load fun _ => .bind (hm.local' (by simp [Op.isLocal])) fun _ =>
      .bind (hm.local' (by simp [Op.isLocal])) fun _ => trivial
  case mapLayerData =>
    have hroute : ∀ job : JobModel, Asks P (do
        if job.status = .completed then
          ask (.pullFile here.pod .solution)
          ask (.pullFile here.pod .routeOptions)
          let _ ← CosmonautJob.getRoutePolyline here job) := fun job =>
      always_ite (fun _ => .bind (hm.local' (by simp [Op.isLocal])) fun _ =>
        .bind (hm.local' (by simp [Op.isLocal])) fun _ =>
        .bind ((getRoutePolyline_stays job).asks hm) fun _ => trivial) fun _ => trivial
    exact .bind hm.load fun job => always_ite (fun _ => .bind (hm.local' (by simp [Op.isLocal]))
      fun _ => .bind (hm.local' (by simp [Op.isLocal])) fun _ => hroute job) fun _ => hroute job
  case uploadWorker =>
    refine .bind (hm.ask' rfl) fun m => ?_
    split
    · split
      · exact hm.processUploadTask _ _
      · trivial
    · trivial
  case routingWorker => cases hr
  case deleteJob => exact .bind (hm.ask' rfl) fun _ => trivial
  case sweep => exact hm.ask' rfl

/-- **What the routing worker can call**: in its process, and in the run it computes. -/
theorem routingWorker_asks (hm : ∀ run, Menu { here with run } P)
    (ha : ∀ run, Adopts { here with run } P) (hlog : ∀ run text, P (.appendLog run text))
    (hp : ∀ run, P (.pipeline { here with run })) (hc : P .claim) (hf : Finishes P)
    (hn : P .markEndNotified) : Asks P (routingWorker here) := by
  have hm' : Menu here P := hm here.run
  refine .bind (hm'.ask' rfl) fun m => ?_
  split
  case h_2 => trivial
  refine .bind (.bind (asks_ask hc) fun claimed => ?_) fun ended => ?_
  · split
    · trivial
    · rename_i runId epoch
      refine Always.bind_returns (R := fun status => status = .completed ∨ status = .failed)
        (.tryCatch ?_ fun e => ?_) (.tryCatch ?_ fun e => ?_) fun status hstatus =>
        .bind (asks_ask ?_) fun _ => trivial
      · exact .bind ((hm (some epoch)).local' (by simp [Op.isLocal])) fun _ =>
          .bind ((hm (some epoch)).computeRoute (ha _) (hlog _) (hp _)) fun _ =>
          .bind (hm'.ask' rfl) fun _ => trivial
      · exact always_ite (fun _ => trivial) fun _ => .bind (asks_ask (hlog _ _)) fun _ => trivial
      · exact .last fun _ => .last fun _ => .last fun _ => .inl rfl
      · dsimp only
        split
        · trivial
        · exact .last fun _ => .inr rfl
      · rcases hstatus with rfl | rfl
        · exact (hf runId).1
        · exact (hf runId).2
  · split
    · trivial
    · refine .bind (.tryCatch (.bind hm'.load fun _ => trivial) fun e =>
        always_ite (fun _ => trivial) fun _ => trivial) fun job => ?_
      split
      · trivial
      · exact hm'.notifyUser hn _ _

omit [External] in
theorem savesNone_menu (here : Site) : Menu here fun o => ∀ columns, o ≠ .writeRow columns where
  stays o h := by rintro columns rfl; cases h
  shared o h := by rintro columns rfl; cases h
  inputs _ _ := by simp
  due := by simp
  task _ := by simp
  raises _ _ := by simp
  log _ := by simp

/-- Only a start saves the row. -/
theorem Request.savesNone {r : Request} (h : r.saves = false) :
    Asks (fun o => ∀ columns, o ≠ .writeRow columns) (r.program here) := by
  have hadopts : ∀ here, Adopts here fun o => ∀ columns, o ≠ .writeRow columns := by
    rintro here o ho columns rfl
    cases ho
  by_cases hr : r.computes = true
  · cases r <;> cases hr
    exact routingWorker_asks (fun _ => savesNone_menu _) (fun _ => hadopts _) (by simp) (by simp)
      (by simp) (fun _ => by simp) (by simp)
  · exact Request.asks (by simpa using hr) (savesNone_menu here) (fun _ => hadopts here)
      (fun hs => by simp [h] at hs) (by simp) (by simp) (by simp)

end Cosmonaut
