import Cosmonaut.Model.Osm

/-!
# The job object

The methods of `CosmonautJob` as programs. A job object is its model (`JobModel`); a method that
changes the model returns the new one. `here` is the process the method runs in.

* The writes of the row: `save`, `updateColumns`, `updateInput`, `requireInput`, `saveInput`.
* The input: `uploadMembership`, `uploadPredictor`, `deletePredictor`, `deleteMembership`, and the
  state of the road network, `getStreetProcessingStatus`.
* The route: `createQrCodeRouting`, `setRouteReversed`.
* The run: `submit`, `cancel`, `reset`.
-/

namespace Cosmonaut

open Interleaving Program

namespace CosmonautJob

/-! ## Writing the row -/

section

variable [External]

/-- `CosmonautJob(job_id=…)`: reads the row only. -/
def load : App JobModel := do
  return JobModel.ofRow (← ask .loadRow)

end

def dumpRoutingParams (here : Site) (job : JobModel) : App Unit :=
  rewriteFile here .parameters job.config

/-- Files first, row second. -/
def save (here : Site) (job : JobModel) : App Unit := do
  dumpRoutingParams here job
  ask (.uploadWorkDir here.pod)
  ask (.writeRow job.row)

def updateColumns (job : JobModel) (fields : List Field) : App Unit :=
  ask (.updateColumns (job.columns fields))

/-- Write the fields only while the row is PENDING; whether it was. -/
def updateInput (job : JobModel) (fields : List Field) : App Bool :=
  ask (.updateInput (job.columns fields))

def raiseStage (job : JobModel) (stage : ℕ) : App JobModel := do
  ask (.raiseStage stage)
  return { job with stage := max job.stage stage }

/-- `_require_input`. -/
def requireInput (job : JobModel) (fields : List Field) : App Unit := do
  if ← updateInput job fields then
    return
  else
    raise .jobNotPending

def saveInput (here : Site) (job : JobModel) (fields : List Field) : App Unit := do
  ask (.uploadWorkDir here.pod)
  requireInput job fields

/-! ## Uploads -/

section

variable [External]

/-- `parse_membership_file` and the handler around it: a rejected file is removed again. -/
def parseMembership (here : Site) : App DataFrame :=
  tryExcept
    (do
      match External.parseMembershipFile (← loadFile here .memberships) with
      | .ok df => return df
      | .error message => raise (.value message))
    fun e => do
      ask (.removeFile here.pod .memberships)
      raise (.fileValidation e.message)

/-- The bytes of an upload, or the error of taking them from the request. -/
def decodeUpload (content : Except String String) : App String := orRaise .value content

/-- `_transform_csv` on the membership file. -/
def transformMembership (here : Site) (epsgInput : ℤ) : App (List Point) := do
  transformCsv (← loadFile here .memberships) epsgInput

/-- The value of `membership_upload` for an uploaded table. -/
def uploadedMembership (len : ℕ) (bounds : Option (Point × Point)) : MembershipUpload where
  fileName := .memberships
  len := len
  epsg := none
  center := (mapPosition bounds).1
  zoom := (mapPosition bounds).2
  bounds := some bounds
  streetProcessing := .pending
  downloadSha256 := none

/-- `upload_membership` from the new file on. -/
def storeMembership (here : Site) (job : JobModel) (content : Except String String)
    (epsgInput : ℤ) : App (JobModel × Option (Point × Point) × DataFrame) := do
  let decoded ← decodeUpload content
  rewriteFile here .memberships decoded
  let membershipDf ← parseMembership here
  let classificationData ← tryValueError (transformMembership here epsgInput) fun message => do
    ask (.removeFile here.pod .memberships)
    raise (.fileValidation message)
  let bounds := getBounds classificationData
  let job := { job with
    epsg := epsgInput
    membershipUpload := uploadedMembership classificationData.length bounds }
  saveInput here job [.membershipUpload, .epsg]
  return (job, bounds, membershipDf)

/-- Upload and process a membership file. `content` is the decoded upload, or the error of decoding
it. -/
def uploadMembership (here : Site) (job : JobModel) (content : Except String String)
    (epsgInput : ℤ) : App (JobModel × Option (Point × Point) × DataFrame) := do
  ask (.pullWorkDir here.pod)
  let previousFile := job.membershipUpload.fileName
  if ← ask (.fileExists here.pod previousFile) then
    ask (.deleteFiles here.pod [previousFile])
  storeMembership here job content epsgInput

/-- `parse_predictor_file`, the cross-check with the membership file, and their handlers. -/
def checkPredictor (here : Site) (check : App (Except String Unit)) : App Unit :=
  tryExcept
    (do
      match ← check with
      | .ok _ => return
      | .error message => raise (.value message))
    fun e => do
      ask (.removeFile here.pod .predictors)
      raise (.fileValidation e.message)

def uploadPredictor (here : Site) (job : JobModel) (content : Except String String) :
    App JobModel := do
  ask (.pullWorkDir here.pod)
  let decoded ← decodeUpload content
  rewriteFile here .predictors decoded
  checkPredictor here do
    return External.parsePredictorFile (← loadFile here .predictors)
  checkPredictor here do
    let predictors ← loadFile here .predictors
    if ← ask (.fileExists here.pod .memberships) then
      return External.validateConsistency predictors (some (← loadFile here .memberships))
    else
      return External.validateConsistency predictors none
  let job := { job with predictorUpload := ⟨.predictors, decoded.utf8ByteSize⟩ }
  saveInput here job [.predictorUpload]
  return job

end

def deletePredictor (here : Site) (job : JobModel) : App JobModel := do
  ask (.deleteFiles here.pod [.predictors])
  let job := { job with predictorUpload := defaultPredictorUpload }
  requireInput job [.predictorUpload]
  return job

/-! ## The state of the road network -/

/-- Record the upload task's end, if it still owns the upload. -/
def endStreetProcessing (job : JobModel) (taskId : TaskId) (state : StreetProcessing) :
    App JobModel := do
  let _ ← ask (.setStreetProcessingOfTask taskId state)
  return { job with
    membershipUpload := { job.membershipUpload with streetProcessing := state } }

def getStreetProcessingStatus (job : JobModel) : App (JobModel × Status) :=
  match job.membershipUpload.streetProcessing with
  | .pending => return (job, .pending)
  | .completed => return (job, .completed)
  | .failed => return (job, .failed)
  | .task sp => do
    match ← ask (.getJobStatus sp) with
    | .success =>
      let job ← endStreetProcessing job sp .completed
      let job ← raiseStage job 2
      return (job, .completed)
    | .failure | .revoked =>
      let job ← endStreetProcessing job sp .failed
      return (job, .failed)
    | .waiting | .started => return (job, .running)

/-- The files a membership deletion names, the plots it finds on its own disk aside. -/
def membershipFiles : List FileName := [
  .memberships, .predictors, .street .download, .street .edited, .street .transformed,
  .derivedHashes, .streetEdits]

/-- The job with its uploads and its intent at their defaults. -/
def withoutMembership (job : JobModel) : JobModel :=
  { job with
    membershipUpload := defaultMembershipUpload
    predictorUpload := defaultPredictorUpload
    streetEdits := some {} }

def deleteMembership (here : Site) (job : JobModel) : App JobModel := do
  match job.membershipUpload.streetProcessing with
  | .task sp => ask (.revokeJob sp)
  | _ => pure ()
  let plotFiles ← ask (.globPlots here.pod)
  ask (.deleteFiles here.pod (membershipFiles ++ plotFiles ++ [.membershipTif]))
  let job := withoutMembership job
  requireInput job [.membershipUpload, .predictorUpload, .streetEdits]
  return job

/-! ## The route -/

/-- The persisted route direction; false when it was never chosen. -/
def isRouteReversed (here : Site) : App Bool := do
  if ← ask (.fileExists here.pod .routeOptions) then
    loadFile here .routeOptions
  else
    return false

section

variable [External]

/-- The track of a solution, in either direction. -/
def gpxOf (sourceEpsg : ℤ) (reverse : Bool) (solution : Solution) : Gpx where
  name := "Route (" ++ solution.objective ++ ")" ++ if reverse then " — reversed" else ""
  distance := solution.distance
  points := (if reverse then solution.path.reverse else solution.path).map fun p =>
    (External.project sourceEpsg 4326 p).swap

/-- `RouteCreator.create_gpx`: the GPX file unless there is one, and the QR code. -/
def createGpx (here : Site) (url : String) (sourceEpsg : ℤ) (reverse : Bool) : App Unit := do
  if !(← ask (.fileExists here.pod .gpx)) then
    let solution ← loadFile here .solution
    rewriteFile here .gpx (gpxOf sourceEpsg reverse solution)
  rewriteFile here .qrCode url

def createQrCodeRouting (here : Site) (job : JobModel) : App Unit := do
  let url ← ask .presignedUrl
  let reverse ← isRouteReversed here
  createGpx here url job.epsg reverse

/-- Persist the route direction and regenerate GPX and QR code to match. -/
def setRouteReversed (here : Site) (job : JobModel) (reversed : Bool) : App Unit := do
  rewriteFile here .routeOptions reversed
  ask (.deleteFiles here.pod [.gpx])
  createQrCodeRouting here job
  ask (.uploadWorkDir here.pod)

/-- The route as positions, latitude first, or none without a route. -/
def getRoutePolyline (here : Site) (job : JobModel) : App (Option (List Point)) := do
  if ← ask (.fileExists here.pod .solution) then
    let solution ← loadFile here .solution
    let positions := solution.path.map fun p => (External.project job.epsg 4326 p).swap
    return some (if ← isRouteReversed here then positions.reverse else positions)
  else
    return none

end

/-! ## The run -/

/-- `_fail_to_start`: end the queued run FAILED and say so in the job log. -/
def failToStart (job : JobModel) : App JobModel := do
  if ← ask .markStartFailed then
    ask (.appendLog none "Cannot start job.")
    return { job with status := .failed }
  else
    return job

/-- The steps of a submit behind the guard that may fail: the end mail is due again, pull, save,
enqueue. -/
def startRun (here : Site) (job : JobModel) : App (JobModel × Option TaskId × Bool) := do
  let job := { job with notifiedEnd := false }
  updateColumns job [.notifiedEnd]
  let job := { job with stage := max job.stage 4 }
  ask (.pullWorkDir here.pod)
  save here job
  let (celeryTaskId, failed) ← ask (.submitJob .routing none)
  return (job, celeryTaskId, failed)

/-- Submit the job; whether a run was queued and enqueued. -/
def submit (here : Site) (job : JobModel) : App (JobModel × Bool) := do
  if ← ask .markQueued then
    let job := { job with status := .running, submitted := true }
    let (job, celeryTaskId, failed) ← tryExcept (startRun here job) fun e => do
      let _ ← failToStart job
      raise e
    if failed then
      return (← failToStart job, false)
    else
      let job := { job with celeryTaskId }
      updateColumns job [.celeryTaskId]
      return (job, true)
  else
    return (job, false)

/-- Revoke the task, then end the row FAILED; whether a run was cancelled. -/
def cancel (job : JobModel) : App Bool := do
  match job.celeryTaskId with
  | some id => ask (.revokeJob id)
  | none => pure ()
  ask .markCancelled

/-- Set the row PENDING, then delete the outputs and clear the job log; whether it was reset. -/
def reset (here : Site) (job : JobModel) : App (JobModel × Bool) := do
  if ← ask .markPending then
    ask (.deleteFiles here.pod [.solution, .gpx, .qrCode])
    ask .clearLog
    let job := { job with
      status := .pending
      celeryTaskId := none
      stage := min job.stage 4 }
    updateColumns job [.celeryTaskId, .stage]
    return (job, true)
  else
    return (job, false)

end CosmonautJob

end Cosmonaut
