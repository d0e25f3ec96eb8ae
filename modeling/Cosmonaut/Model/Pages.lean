import Cosmonaut.Model.Tasks

/-!
# The pages' requests

The callbacks and page layouts that touch the job's row or files, each as a program, and the
requests the app serves (`Request`), tasks of the workers included.
-/

namespace Cosmonaut

open Interleaving Program

variable [External]

/-! ## Data upload -/

/-- `_end_upload_failed`: FAILED in the row's `membership_upload`, that column only. -/
def endUploadFailed (job : JobModel) : App Unit :=
  CosmonautJob.updateColumns (withStreetProcessing job .failed) [.membershipUpload]

/-- The upload of a membership file, or none if it was rejected. -/
def tryUploadMembership (here : Site) (job : JobModel) (content : Except String String)
    (epsgInput : ℤ) : App (Option (JobModel × Option (Point × Point) × DataFrame)) :=
  Program.tryCatch (some <$> CosmonautJob.uploadMembership here job content epsgInput)
    fun e => match e with
      | .fileValidation _ => return none
      | e => raise e

/-- Name a new task in the row, then send it. -/
def submitUpload (job : JobModel) (epsgInput : ℤ) : App Unit := do
  let taskId ← ask .uuid4
  let job := withStreetProcessing job (.task taskId)
  CosmonautJob.updateColumns job [.membershipUpload]
  let (_, failed) ← tryExcept (ask (.submitJob (.upload epsgInput) (some taskId))) fun e => do
    endUploadFailed job
    raise e
  if failed then
    endUploadFailed job

/-- `_handle_membership_upload`, of a file and a valid EPSG code. -/
def handleMembershipUpload (here : Site) (content : Except String String) (epsgInput : ℤ) :
    App Unit := do
  let job ← CosmonautJob.load
  if job.status ≠ .pending then
    raise .jobNotPending
  else
    let job ← CosmonautJob.deleteMembership here { job with epsg := epsgInput }
    match ← tryUploadMembership here job content epsgInput with
    | none => return
    | some (job, _, membershipDf) =>
      rewriteFile here .membershipTif ⟨membershipDf, epsgInput⟩
      ask (.uploadWorkDir here.pod)
      let _ ← ask (.fileExists here.pod .membershipTif)
      submitUpload job epsgInput

/-- `_handle_predictor_upload`. -/
def handlePredictorUpload (here : Site) (content : Except String String) : App Unit := do
  let job ← CosmonautJob.load
  if job.status ≠ .pending then
    raise .jobNotPending
  else
    Program.tryCatch
      (do let _ ← CosmonautJob.uploadPredictor here job content)
      fun e => match e with
        | .fileValidation _ => return
        | e => raise e

def deleteMembershipFile (here : Site) : App Unit := do
  let job ← CosmonautJob.load
  if job.status ≠ .pending then
    raise .preventUpdate
  else
    let _ ← CosmonautJob.deleteMembership here job

def deletePredictorFile (here : Site) : App Unit := do
  let job ← CosmonautJob.load
  if job.status ≠ .pending then
    raise .preventUpdate
  else
    let _ ← CosmonautJob.deletePredictor here job

/-- The two polls of the road network's state. -/
def pollStreetProcessing : App Unit := do
  let _ ← CosmonautJob.getStreetProcessingStatus (← CosmonautJob.load)

/-! ## Street selection -/

/-- An edit of the street selection. -/
inductive Edit
  | removeRoads (ids : List ℤ)
  | restoreRoad (id : ℤ)
  | clearRemovedRoads
  | updateTags (tags : List String)
  | updateTrackGrades (grades : List String)
  | keepLargest
  | reset
  deriving DecidableEq

/-- The selector's method of an edit. -/
def Edit.apply (here : Site) (sel : StreetSelector) : Edit → App StreetSelector
  | .removeRoads ids => sel.removeRoads here ids
  | .restoreRoad id => sel.restoreRoad here id
  | .clearRemovedRoads => sel.clearRemovedRoads here
  | .updateTags tags => sel.updateTags here tags
  | .updateTrackGrades grades => sel.updateTrackGrades here grades
  | .keepLargest => do return (← sel.keepLargest here).1
  | .reset => sel.reset here

/-- Whether the callback of the edit shows the removed roads anew. -/
def Edit.showsRemovedRoads : Edit → Bool
  | .removeRoads _ | .restoreRoad _ => true
  | _ => false

/-- The edit callbacks: only a PENDING job's edits change. -/
def editStreets (here : Site) (e : Edit) : App Unit := do
  let job ← CosmonautJob.load
  if job.status ≠ .pending then
    raise .preventUpdate
  else
    let sel ← e.apply here (← StreetSelector.new here job)
    if e.showsRemovedRoads then
      let _ ← sel.getRemovedRoadsInfo here

/-- The layout of Street Selection. -/
def openStreetSelection (here : Site) : App Unit := do
  let job ← CosmonautJob.load
  let job ← CosmonautJob.raiseStage job 2
  let job ← adoptLegacyEdits here job
  ask (.pullWorkDir here.pod)
  let (job, status) ← CosmonautJob.getStreetProcessingStatus job
  match status with
  | .running | .failed => return
  | .pending | .completed =>
    let sel ← StreetSelector.new here job
    let (sel, _) ← sel.refresh here
    let _ ← sel.getRemovedRoadsInfo here

/-- What the Street Selection page shows once the street network is there. -/
def showStreets (here : Site) (job : JobModel) : App Unit := do
  let sel ← StreetSelector.new here job
  let (sel, _) ← sel.refresh here
  let _ ← sel.getRemovedRoadsInfo here

/-- `update_viewport_streets`. -/
def updateViewportStreets (here : Site) : App Unit := do
  let job ← Program.tryCatch (some <$> CosmonautJob.load)
    fun e => if e = .fault .jobNotFound then return none else raise e
  match job with
  | none => return
  | some job => (← StreetSelector.new here job).viewportFc here

/-! ## The other steps -/

def goToUploadPage (email : String) : App Unit := do
  let job := { ← CosmonautJob.load with email }
  CosmonautJob.requireInput job [.email]
  let _ ← CosmonautJob.raiseStage job 1

/-- The config with some fields set. -/
def setFields (config : Config) (values : Config) : Config :=
  config.map fun field => (field.1, (values.lookup field.1).getD field.2)

/-- `update_routing_params` on Next, with valid values of all config fields. -/
def updateRoutingParams (values : Config) : App Unit := do
  let job ← CosmonautJob.load
  if job.status ≠ .pending then
    return
  else
    let job := { job with config := setFields job.config values }
    if values ≠ [] then
      CosmonautJob.requireInput job (values.map fun v => .config v.1)
    let _ ← CosmonautJob.raiseStage job 3

/-- The layouts that only raise the stage: Routing Parameters and Route Computation. -/
def openStage (stage : ℕ) : App Unit := do
  let _ ← CosmonautJob.raiseStage (← CosmonautJob.load) stage

def startComputation (here : Site) : App Unit := do
  let job ← CosmonautJob.load
  if job.status = .pending ∨ job.status = .failed then
    let _ ← CosmonautJob.submit here job

def cancelComputation : App Unit := do
  let job ← CosmonautJob.load
  if job.status ≠ .running then
    raise .jobNotRunning
  else if !(← CosmonautJob.cancel job) then
    raise .jobNotRunning

def restartComputation (here : Site) : App Unit := do
  let job ← CosmonautJob.load
  if job.status = .running then
    raise .jobRunning
  else
    let (job, done) ← CosmonautJob.reset here job
    if done then
      let _ ← CosmonautJob.submit here job
    else
      raise .jobRunning

def resetJob (here : Site) : App Unit := do
  let (_, done) ← CosmonautJob.reset here (← CosmonautJob.load)
  if !done then
    raise .jobRunning

/-! ## Route & Download -/

/-- The layout of Route & Download. -/
def openRouteDownload (here : Site) : App Unit := do
  let job ← CosmonautJob.load
  if job.status = .completed then
    let _ ← CosmonautJob.raiseStage job 5
  ask (.pullWorkDir here.pod)
  CosmonautJob.createQrCodeRouting here job
  ask (.uploadWorkDir here.pod)

def toggleRouteDirection (here : Site) (reversedValue : Bool) : App Unit := do
  let job ← CosmonautJob.load
  ask (.pullWorkDir here.pod)
  if (← CosmonautJob.isRouteReversed here) = reversedValue then
    raise .preventUpdate
  else
    CosmonautJob.setRouteReversed here job reversedValue
    let _ ← CosmonautJob.getRoutePolyline here job

/-- `download_gpx`. -/
def downloadGpx (here : Site) : App Unit := do
  let _ ← CosmonautJob.load
  ask (.pullFile here.pod .gpx)
  let _ ← ask (.fileExists here.pod .gpx)

/-- `map_layer_data`, on every navigation. -/
def mapLayerData (here : Site) : App Unit := do
  let job ← CosmonautJob.load
  if job.membershipUpload.fileName ≠ noFileUploaded then
    ask (.pullFile here.pod .membershipTif)
    let _ ← ask (.fileExists here.pod .membershipTif)
  if job.status = .completed then
    ask (.pullFile here.pod .solution)
    ask (.pullFile here.pod .routeOptions)
    let _ ← CosmonautJob.getRoutePolyline here job

/-! ## Requests -/

/-- What can be asked of the app for one job: the pages' callbacks and layouts, the workers'
deliveries, and the framework's maintenance. -/
inductive Request
  | goToUploadPage (email : String)
  | uploadMembership (content : Except String String) (epsgInput : ℤ)
  | uploadPredictor (content : Except String String)
  | deleteMembership
  | deletePredictor
  | pollStreetProcessing
  | openStreetSelection
  | editStreets (e : Edit)
  | updateViewportStreets
  | openStage (stage : ℕ)
  | updateRoutingParams (values : Config)
  | startComputation
  | cancelComputation
  | restartComputation
  | resetJob
  | openRouteDownload
  | toggleRouteDirection (reversedValue : Bool)
  | downloadGpx
  | mapLayerData
  | uploadWorker
  | routingWorker
  | deleteJob
  | sweep

/-- The program that serves a request in the process `here`. -/
def Request.program (here : Site) : Request → App Unit
  | .goToUploadPage email => Cosmonaut.goToUploadPage email
  | .uploadMembership content epsgInput => handleMembershipUpload here content epsgInput
  | .uploadPredictor content => handlePredictorUpload here content
  | .deleteMembership => deleteMembershipFile here
  | .deletePredictor => deletePredictorFile here
  | .pollStreetProcessing => Cosmonaut.pollStreetProcessing
  | .openStreetSelection => Cosmonaut.openStreetSelection here
  | .editStreets e => Cosmonaut.editStreets here e
  | .updateViewportStreets => Cosmonaut.updateViewportStreets here
  | .openStage stage => Cosmonaut.openStage stage
  | .updateRoutingParams values => Cosmonaut.updateRoutingParams values
  | .startComputation => Cosmonaut.startComputation here
  | .cancelComputation => Cosmonaut.cancelComputation
  | .restartComputation => Cosmonaut.restartComputation here
  | .resetJob => Cosmonaut.resetJob here
  | .openRouteDownload => Cosmonaut.openRouteDownload here
  | .toggleRouteDirection reversedValue => Cosmonaut.toggleRouteDirection here reversedValue
  | .downloadGpx => Cosmonaut.downloadGpx here
  | .mapLayerData => Cosmonaut.mapLayerData here
  | .uploadWorker => Cosmonaut.uploadWorker here
  | .routingWorker => Cosmonaut.routingWorker here
  | .deleteJob => do let _ ← ask (.deleteJob here.pod)
  | .sweep => ask .sweep

/-- A pool that serves the requests, each in its process. -/
def serving (w : World) (requests : List (Site × Request)) : Pool machine Err Unit :=
  ⟨w, requests.map fun r => r.2.program r.1⟩

theorem serving_threads {w : World} {requests : List (Site × Request)} {t : ℕ} {prog : App Unit}
    (h : (serving w requests).threads[t]? = some prog) :
    ∃ here r, requests[t]? = some (here, r) ∧ prog = r.program here := by
  rw [serving, List.getElem?_map, Option.map_eq_some_iff] at h
  obtain ⟨⟨here, r⟩, hr, rfl⟩ := h
  exact ⟨here, r, hr, rfl⟩

end Cosmonaut
