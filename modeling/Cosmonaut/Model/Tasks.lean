import Cosmonaut.Model.StreetSelector

/-!
# The worker's tasks

The upload task, which downloads the road network of an uploaded membership file, and the routing
task, which computes a route as a job run.

* `processUploadTask` with its retries and failure paths.
* `runJob`, the framework's job run around a computation, and `computeRoute`.
-/

namespace Cosmonaut

open Interleaving Program

variable [External]

/-! ## The upload task -/

def uploadMaxRetries : ℕ := 3

/-- `_write_if_owner`: write `membership_upload` if the task still owns the upload. -/
def writeIfOwner (job : JobModel) (taskId : TaskId) : App Bool :=
  ask (.updateMembershipUploadOfTask taskId job.membershipUpload.column)

/-- The job with the upload's end recorded. -/
def withStreetProcessing (job : JobModel) (state : StreetProcessing) : JobModel :=
  { job with membershipUpload := { job.membershipUpload with streetProcessing := state } }

/-- `_fail_upload`: persist FAILED, then tell the maintainer. -/
def failUpload (taskId : TaskId) (error : Err) : App Unit := do
  Program.tryCatch
    (do
      let job := withStreetProcessing (← CosmonautJob.load) .failed
      let _ ← writeIfOwner job taskId)
    fun e => if e = .fault .jobNotFound ∨ e = .fault .database then pure () else raise e
  let _ ← ask (.sendMail (.uploadFailed error))

/-- `_retry_or_fail`: retry, or end the upload as failed once the retries ran out. -/
def retryOrFail (m : Message) (error : Err) : App Unit := do
  if uploadMaxRetries ≤ m.retries then
    failUpload m.id error
    raise error
  else
    ask (.retry m)
    raise .retry

/-- The steps of the upload task that its handlers watch over. -/
def downloadRoads (here : Site) (m : Message) (epsgInput : ℤ) : App Unit := do
  ask (.pullWorkDir here.pod)
  let classificationData ← CosmonautJob.transformMembership here epsgInput
  let osm ← OsmDownloader.new classificationData epsgInput
  runOsmQuery here osm
  let checksum ← fileSha256 here .download
  ask (.uploadWorkDir here.pod)
  let job ← CosmonautJob.load
  let job := { job with
    membershipUpload := { job.membershipUpload with
      downloadSha256 := some checksum, streetProcessing := .completed } }
  let _ ← writeIfOwner job m.id

def processUploadTask (here : Site) (m : Message) (epsgInput : ℤ) : App Unit := do
  let _ ← CosmonautJob.load
  tryExcept (downloadRoads here m epsgInput) fun e =>
    match e with
    | .fault .transient => retryOrFail m e
    | .fault (.http status) =>
      if status ∈ [429, 502, 503, 504] then retryOrFail m e
      else do
        failUpload m.id e
        raise e
    | _ => do
      failUpload m.id e
      raise e

/-! ## The routing task -/

/-- `job_run.run`, as `background-tasks.md` and the docstrings of the routing task describe it: it
claims the queued row first, and a delivery that loses the claim writes nothing; the computation
works in the pulled work dir and fails only by raising; the work dir is uploaded before COMPLETED
is written; whatever is raised turns into FAILED and is not raised again. A failed computation
uploads nothing. -/
def runJob (here : Site) (compute : Site → App Unit) : App (Option Status) := do
  match ← ask .claim with
  -- not a queued run: a redelivery, a message of before a reset, a cancelled job
  | none => return none
  | some (runId, epoch) =>
    let here := { here with run := some epoch }
    let status ← tryExcept
      (do
        ask (.pullWorkDir here.pod)
        compute here
        ask (.uploadWorkDir here.pod)
        return Status.completed)
      fun _ => do
        ask (.appendLog here.run "The run failed.")
        return Status.failed
    let _ ← ask (.finish runId status)
    return some status

def notifySubmission (job : JobModel) : App Unit := do
  if job.email ≠ "" then
    let _ ← ask (.sendMail (.submitted job.email))

def computeRoute (here : Site) : App Unit := do
  ask (.appendLog here.run "Starting routing job computation")
  let job ← CosmonautJob.load
  notifySubmission job
  let sel ← StreetSelector.new here job
  sel.ensureProjected here
  ask (.pipeline here)
  ask (.appendLog here.run "Starting post-processing")
  CosmonautJob.createQrCodeRouting here job
  ask (.appendLog here.run "Post-processing complete. QR code generated")

/-- Send the end mail, if one is due, and flag it in the row. -/
def notifyUser (job : JobModel) (status : Status) : App Unit := do
  if job.email ≠ "" ∧ job.notifiedEnd = false then
    if status = .completed then
      let _ ← ask .presignedUrl
    if ← ask (.sendMail (.ended job.email status)) then
      Program.tryCatch
        (do let _ ← ask .markEndNotified)
        fun e => if e = .fault .jobNotFound then pure () else raise e

def processRoutingJob (here : Site) : App Unit := do
  match ← runJob here computeRoute with
  | none => return
  | some status =>
    let job ← Program.tryCatch (some <$> CosmonautJob.load)
      fun e => if e = .fault .jobNotFound then return none else raise e
    match job with
    | none => return
    | some job => notifyUser job status

/-! ## Deliveries -/

/-- A worker of the upload queue takes a message. -/
def uploadWorker (here : Site) : App Unit := do
  match ← ask (.receive false) with
  | some m =>
    match m.task with
    | .upload epsgInput => processUploadTask here m epsgInput
    | .routing => return
  | none => return

/-- A worker of the routing queue takes a message. -/
def routingWorker (here : Site) : App Unit := do
  match ← ask (.receive true) with
  | some _ => processRoutingJob here
  | none => return

end Cosmonaut
