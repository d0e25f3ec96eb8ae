import Cosmonaut.Interleaving.Pool
import Cosmonaut.Model.Job

/-!
# The world the code works in

The state all requests and tasks of one job share, and the atomic operations they are made of: row
updates in the database, the transitions of the job run, copies between a pod's work dir and object
storage, steps on local files, the caches of a process, and the calls of Celery, Overpass, the
routing pipeline and the mail service.

* `Op` and `Op.Ans` are the operations and their answers, `perform` what each one does.
* An operation may fail (`Choice.fault`). A row update that fails changes nothing; a copy or a
  deletion of several files that fails has reached some of them.
* The number of guards won so far (`World.epoch`) identifies a run: what a run writes is marked with
  the epoch of the guard that queued it (`Entry.author`).
-/

namespace Cosmonaut

open Interleaving

/-! ## The state -/

/-- Where a program runs: a process on a pod, and the run it computes, if it does. -/
structure Site where
  pod : ℕ
  proc : ℕ
  run : Option ℕ := none
  deriving DecidableEq

/-- What the module-level caches of a process hold. The feature objects live in `heap`; a cached
list holds references to them, and objects are shared between lists. -/
structure Memory where
  checksums : (s : StreetFile) → Option (Mtime (.street s) × Sha256)
  features : (s : StreetFile) → Option (Mtime (.street s) × List ℕ)
  heap : List Feature

/-- The tasks that can be sent to a worker. -/
inductive TaskName
  | routing
  | upload (epsgInput : ℤ)
  deriving DecidableEq

/-- A message on a worker's queue. -/
structure Message where
  id : TaskId
  task : TaskName
  retries : ℕ
  deriving DecidableEq

inductive CeleryStatus
  | waiting
  | started
  | success
  | failure
  | revoked
  deriving DecidableEq

structure LogLine where
  author : Option ℕ
  text : String
  deriving DecidableEq

inductive Mail
  | submitted (email : String)
  | ended (email : String) (status : Status)
  | uploadFailed (error : Err)
  deriving DecidableEq

/-- The state that the requests and tasks of one job share. -/
structure World where
  row : Option Row
  stored : Files
  disk : ℕ → Files
  memory : ℕ × ℕ → Memory
  messages : List Message
  revoked : List TaskId
  log : List LogLine
  mails : List Mail
  /-- How many guards (`mark_queued`) were won so far. -/
  epoch : ℕ
  /-- The next fresh identifier. -/
  nextId : ℕ

/-- The world of a job with the given row, in which nothing is stored and no process has run. -/
def World.fresh (row : Row) : World where
  row := some row
  stored := fun _ => none
  disk := fun _ _ => none
  memory := fun _ => ⟨fun _ => none, fun _ => none, []⟩
  messages := []
  revoked := []
  log := []
  mails := []
  epoch := 0
  nextId := 0

/-- A raw way of an Overpass answer. -/
structure Way where
  id : ℤ
  nodes : List ℤ
  geometry : List Point
  tags : List (String × String)
  deriving DecidableEq

/-- What an operation brings that is not the program's to decide. -/
structure Choice where
  /-- The exception the operation ends in. -/
  fault : Option Fault := none
  /-- The local files a failing copy or deletion got to. -/
  reached : FileName → Bool := fun _ => true
  /-- The stored files a failing deletion got to. -/
  reachedStored : FileName → Bool := fun _ => true
  /-- The modification times of the files written. -/
  time : FileName → ℕ := fun _ => 0
  /-- What Celery answers when asked for a task. -/
  celery : CeleryStatus := .waiting
  /-- Whether the enqueue reports a failure. -/
  enqueueFails : Bool := false
  /-- Whether a failing enqueue had sent the message. -/
  sent : Bool := false
  /-- Which message is delivered. -/
  delivered : ℕ := 0
  /-- Whether the delivered message stays on the queue, to be delivered again. -/
  redelivered : Bool := false
  mailSent : Bool := true
  /-- The names a `glob` comes across. -/
  plots : List String := []
  url : String := ""
  ways : List Way := []
  solution : Solution := ⟨"", 0, []⟩

/-- Nothing special happens. -/
def Choice.usual : Choice := {}

/-- The schedule in which these threads step, one after the other, and nothing special happens. -/
def usually (threads : List ℕ) : List (ℕ × Choice) := threads.map fun t => (t, .usual)

/-! ## The operations -/

/-- The operations. Those of the framework, of Celery and of the pipeline are not in the repository:
each states what the source documents of it, in the docstring named with it or in
`background-tasks.md` and `cosmonaut-job.md` of `docs/knowledge`. A row update is one statement of
the database. -/
inductive Op
  /-- `job_persistence.load_row`: reads the row only (`load`); without one it raises `JobNotFound`
  (`process_routing_job`). -/
  | loadRow
  /-- The row write of `job_persistence.save`, after its upload: of all but the run's columns, and
  a new row is PENDING, not submitted (`_row`). -/
  | writeRow (columns : Columns)
  /-- `job_persistence.update_columns`: row only (`CosmonautJob.update_columns`). -/
  | updateColumns (vs : List ColumnValue)
  /-- `job_persistence.update_input`: one update `WHERE status = 'PENDING'`, and whether it applied
  (`CosmonautJob.update_input`). -/
  | updateInput (vs : List ColumnValue)
  | setStreetProcessingOfTask (id : TaskId) (state : StreetProcessing)
  | updateMembershipUploadOfTask (id : TaskId) (upload : MembershipColumn)
  | raiseStage (stage : ℕ)
  | markEndNotified
  /-- `job_run.mark_queued`: PENDING or FAILED to RUNNING, without heartbeat and run id, submitted,
  in one conditional update (`submit`, `background-tasks.md`). -/
  | markQueued
  /-- `job_run.mark_start_failed`: FAILED, only while the row is a queued run (`_fail_to_start`). -/
  | markStartFailed
  /-- `job_run.mark_cancelled`: FAILED and a line in the job log, only while the row is RUNNING
  (`cancel`). -/
  | markCancelled
  /-- `job_run.mark_pending`: PENDING and no heartbeat in one write, unless the row is RUNNING
  (`reset`). -/
  | markPending
  /-- The claim of a job run: a RUNNING row without a heartbeat gets its first one, and a run id;
  a delivery that finds none is dropped (`background-tasks.md`). -/
  | claim
  /-- The end of a job run: COMPLETED or FAILED, while the row carries its run id: a terminated or
  lost run writes nothing (`cancel`, `background-tasks.md`). -/
  | finish (runId : ℕ) (status : Status)
  /-- `sweep_lost_runs`: a RUNNING row with a heartbeat, taken to be stale, becomes FAILED, with a
  line in the job log; queued rows are left alone (`background-tasks.md`, `submit`). -/
  | sweep
  /-- `job_persistence.delete_job`: the stored files, the pod's work dir and the row; nothing of a
  RUNNING job (`CosmonautJob.delete`). -/
  | deleteJob (pod : ℕ)
  /-- `job_persistence.work_dir`: the stored files that differ are copied to the pod, and no local
  file is deleted (`cosmonaut-job.md`). -/
  | pullWorkDir (pod : ℕ)
  /-- `job_persistence.pull_file`: the same for one file. -/
  | pullFile (pod : ℕ) (f : FileName)
  /-- The upload of `job_persistence.save`, `rclone copy --checksum`: every local file that differs
  from the stored one wins, and none is deleted (`save`). -/
  | uploadWorkDir (pod : ℕ)
  /-- `job_persistence.delete_files`: locally and remotely at once (`cosmonaut-job.md`). -/
  | deleteFiles (pod : ℕ) (fs : List FileName)
  | fileExists (pod : ℕ) (f : FileName)
  /-- `os.stat` or `os.path.getmtime`. -/
  | mtime (pod : ℕ) (f : FileName)
  | readFile (pod : ℕ) (f : FileName)
  /-- Opening a file for writing, which empties it. -/
  | openFile (site : Site) (f : FileName)
  | writeFile (site : Site) (f : FileName) (doc : f.Doc)
  /-- `os.replace` of the temporary file. -/
  | replaceFile (pod : ℕ) (s : StreetFile)
  | removeFile (pod : ℕ) (f : FileName)
  /-- `glob` for `*_output*.tif`. -/
  | globPlots (pod : ℕ)
  | cachedChecksum (site : Site) (s : StreetFile)
  | cacheChecksum (site : Site) (s : StreetFile) (mtime : Mtime (.street s)) (sha256 : Sha256)
  | cachedFeatures (site : Site) (s : StreetFile)
  | cacheFeatures (site : Site) (s : StreetFile) (mtime : Mtime (.street s)) (refs : List ℕ)
  /-- New feature objects. -/
  | newFeatures (site : Site) (features : List Feature)
  /-- What the feature objects are now. -/
  | getFeatures (site : Site) (refs : List ℕ)
  /-- `StreetSelector._add_tooltips`. -/
  | addTooltips (site : Site) (refs : List ℕ)
  | uuid4
  /-- `submit_job` of the framework's manager: sends the message under a given task id or a new one,
  and answers the id or that it failed (`submit_upload_job`). -/
  | submitJob (task : TaskName) (id : Option TaskId)
  /-- `revoke_job`: workers drop the task's message from now on. -/
  | revokeJob (id : TaskId)
  | getJobStatus (id : TaskId)
  /-- A worker takes a message of the routing or the upload queue; a message may be delivered again
  (`background-tasks.md`). -/
  | receive (routing : Bool)
  /-- `Task.retry`: Celery sends the message again under its id, with one retry more. -/
  | retry (m : Message)
  | appendLog (author : Option ℕ) (text : String)
  | clearLog
  | sendMail (m : Mail)
  | presignedUrl
  /-- The ways of an Overpass query. -/
  | streamWays
  /-- `sensor_routing_pipeline`: leaves a solution in the work dir. -/
  | pipeline (site : Site)

/-- What an operation answers. -/
@[reducible] def Op.Ans : Op → Type
  | .loadRow => Row
  | .updateInput _ | .setStreetProcessingOfTask .. | .updateMembershipUploadOfTask .. => Bool
  | .markEndNotified | .markQueued | .markStartFailed | .markCancelled | .markPending => Bool
  | .claim => Option (ℕ × ℕ)
  | .finish .. | .deleteJob _ => Bool
  | .fileExists .. => Bool
  | .mtime _ f => Mtime f
  | .readFile _ f => Bytes f.Doc
  | .globPlots _ => List FileName
  | .cachedChecksum _ s => Option (Mtime (.street s) × Sha256)
  | .cachedFeatures _ s => Option (Mtime (.street s) × List ℕ)
  | .newFeatures .. => List ℕ
  | .getFeatures .. => List Feature
  | .uuid4 => TaskId
  | .submitJob .. => Option TaskId × Bool
  | .getJobStatus _ => CeleryStatus
  | .receive _ => Option Message
  | .sendMail _ => Bool
  | .presignedUrl => String
  | .streamWays => List Way
  | .writeRow _ | .updateColumns _ | .raiseStage _ | .sweep | .pullWorkDir _ | .pullFile .. => Unit
  | .uploadWorkDir _ | .deleteFiles .. | .openFile .. | .writeFile .. | .replaceFile .. => Unit
  | .removeFile .. | .cacheChecksum .. | .cacheFeatures .. | .addTooltips .. | .revokeJob _ => Unit
  | .retry _ | .appendLog .. | .clearLog | .pipeline _ => Unit

abbrev sig : Signature := ⟨Op, Op.Ans, Fault⟩

/-- The programs of the app. -/
abbrev App := Program sig Err

/-- The call of `o` that answered `a`. -/
abbrev answered (o : Op) (a : o.Ans) : Call sig := ⟨o, .ok a⟩

/-! ## What an operation does -/

namespace World

/-- A conditional update of the row, and whether it applied. -/
def update (w : World) (cond : Row → Bool) (f : Row → Row) : Except Fault Bool × World :=
  match w.row with
  | some r => if cond r then (.ok true, { w with row := some (f r) }) else (.ok false, w)
  | none => (.ok false, w)

/-- An update of a row that must exist. -/
def require (w : World) (f : Row → Row) : Except Fault Unit × World :=
  match w.row with
  | some r => (.ok (), { w with row := some (f r) })
  | none => (.error .jobNotFound, w)

def setDisk (w : World) (pod : ℕ) (d : Files) : World :=
  { w with disk := Function.update w.disk pod d }

def setMemory (w : World) (s : Site) (m : Memory) : World :=
  { w with memory := Function.update w.memory (s.pod, s.proc) m }

def memoryOf (w : World) (s : Site) : Memory := w.memory (s.pod, s.proc)

/-- The file under its name, or the error of a missing file. -/
def file (w : World) (pod : ℕ) (f : FileName) : Except Fault (Entry f) :=
  match w.disk pod f with
  | some e => .ok e
  | none => .error .fileNotFound

/-- The effect of `uploadWorkDir`, of the files reached. -/
def uploaded (w : World) (pod : ℕ) (fs : FileName → Bool) : World :=
  { w with stored := (w.disk pod).upload w.stored fs }

/-- The effect of a pull of the files `fs`. -/
def pulled (w : World) (pod : ℕ) (fs : FileName → Bool) (time : FileName → ℕ) : World :=
  w.setDisk pod ((w.disk pod).pull w.stored fs time)

/-- The effect of `deleteFiles`, of the files reached. -/
def deleted (w : World) (pod : ℕ) (fs fsStored : FileName → Bool) : World :=
  { w.setDisk pod ((w.disk pod).delete fs) with stored := w.stored.delete fsStored }

/-- A message is put on the queue. -/
def enqueue (w : World) (task : TaskName) (id : Option TaskId) : World :=
  { w with messages := w.messages ++ [⟨id.getD w.nextId, task, 0⟩], nextId := w.nextId + 1 }

end World

/-- The tooltip of a feature: its name or its ref, where it has one that is not empty, and its road
type. -/
def Feature.tooltipText (f : Feature) : String :=
  match f.properties.name.filter (· ≠ ""), f.properties.ref.filter (· ≠ "") with
  | some name, _ => name ++ ", " ++ f.properties.highway
  | none, some ref => ref ++ ", " ++ f.properties.highway
  | none, none => f.properties.highway

/-- Set the tooltip of the objects in `refs`. -/
def addTooltipsTo (refs : List ℕ) (heap : List Feature) : List Feature :=
  heap.mapIdx fun i f => if i ∈ refs then f.withTooltip (some f.tooltipText) else f

/-- Whether the task is one of the routing queue. -/
def TaskName.isRouting : TaskName → Bool
  | .routing => true
  | .upload _ => false

/-- What an operation does when it does not fail, as the docstrings of `Op` say. -/
def perform : (o : Op) → Choice → World → Except Fault o.Ans × World
  | .loadRow, _, w =>
    match w.row with
    | some r => (.ok r, w)
    | none => (.error .jobNotFound, w)
  | .writeRow columns, _, w =>
    match w.row with
    | some r => (.ok (), { w with row := some { r with columns } })
    | none => (.ok (), { w with row := some ⟨.pending, false, false, none, columns⟩ })
  | .updateColumns vs, _, w => w.require fun r => r.putAll vs
  | .updateInput vs, _, w => w.update (fun r => r.status = .pending) fun r => r.putAll vs
  | .setStreetProcessingOfTask id state, _, w =>
    w.update (fun r => r.columns.membershipUpload.streetProcessing = some (.task id)) fun r =>
      r.putAll [.membershipUpload
        { r.columns.membershipUpload with streetProcessing := some state }]
  | .updateMembershipUploadOfTask id upload, _, w =>
    w.update (fun r => r.columns.membershipUpload.streetProcessing = some (.task id)) fun r =>
      r.putAll [.membershipUpload upload]
  | .raiseStage stage, _, w => w.require fun r => r.putAll [.stage (max r.columns.stage stage)]
  | .markEndNotified, _, w =>
    match w.row with
    | some r =>
      if r.status = .completed ∨ r.status = .failed then
        (.ok true, { w with row := some (r.putAll [.notifiedEnd true]) })
      else (.ok false, w)
    | none => (.error .jobNotFound, w)
  | .markQueued, _, w =>
    match w.row with
    | some r =>
      if r.status = .pending ∨ r.status = .failed then
        (.ok true,
          { w with
            row := some { r with status := .running, submitted := true, heartbeat := false,
                                 runId := none }
            epoch := w.epoch + 1 })
      else (.ok false, w)
    | none => (.ok false, w)
  | .markStartFailed, _, w =>
    w.update (fun r => r.status = .running ∧ r.heartbeat = false) fun r =>
      { r with status := .failed }
  | .markCancelled, _, w =>
    match w.row with
    | some r =>
      if r.status = .running then
        (.ok true, { w with row := some { r with status := .failed },
                            log := w.log ++ [⟨none, "The run was cancelled."⟩] })
      else (.ok false, w)
    | none => (.ok false, w)
  | .markPending, _, w =>
    w.update (fun r => r.status ≠ .running) fun r =>
      { r with status := .pending, heartbeat := false, runId := none }
  | .claim, _, w =>
    match w.row with
    | some r =>
      if r.status = .running ∧ r.heartbeat = false then
        (.ok (some (w.nextId, w.epoch)),
          { w with row := some { r with heartbeat := true, runId := some w.nextId },
                   nextId := w.nextId + 1 })
      else (.ok none, w)
    | none => (.ok none, w)
  | .finish runId status, _, w =>
    w.update (fun r => r.status = .running ∧ r.runId = some runId) fun r => { r with status }
  | .sweep, _, w =>
    match w.row with
    | some r =>
      if r.status = .running ∧ r.heartbeat = true then
        (.ok (), { w with row := some { r with status := .failed },
                          log := w.log ++ [⟨none, "Worker lost"⟩] })
      else (.ok (), w)
    | none => (.ok (), w)
  | .deleteJob pod, _, w =>
    match w.row with
    | some r =>
      if r.status = .running then (.ok false, w)
      else
        (.ok true, { w.deleted pod (fun _ => true) fun _ => true with row := none })
    | none => (.ok true, w)
  | .pullWorkDir pod, c, w => (.ok (), w.pulled pod (fun _ => true) c.time)
  | .pullFile pod f, c, w => (.ok (), w.pulled pod (fun g => g = f) c.time)
  | .uploadWorkDir pod, _, w => (.ok (), w.uploaded pod fun _ => true)
  | .deleteFiles pod fs, _, w => (.ok (), w.deleted pod (· ∈ fs) (· ∈ fs))
  | .fileExists pod f, _, w => (.ok (w.disk pod f).isSome, w)
  | .mtime pod f, _, w => ((w.file pod f).map Entry.mtime, w)
  | .readFile pod f, _, w => ((w.file pod f).map Entry.content, w)
  | .openFile s f, c, w =>
    (.ok (), w.setDisk s.pod ((w.disk s.pod).write f ⟨.torn, c.time f, s.run⟩))
  | .writeFile s f doc, c, w =>
    (.ok (), w.setDisk s.pod ((w.disk s.pod).write f ⟨.whole doc, c.time f, s.run⟩))
  | .replaceFile pod s, _, w =>
    match w.disk pod (.streetTmp s) with
    | some e =>
      (.ok (), w.setDisk pod
        (((w.disk pod).remove (.streetTmp s)).write (.street s) ⟨e.content, e.time, e.author⟩))
    | none => (.error .fileNotFound, w)
  | .removeFile pod f, _, w =>
    match w.disk pod f with
    | some _ => (.ok (), w.setDisk pod ((w.disk pod).remove f))
    | none => (.error .fileNotFound, w)
  | .globPlots pod, c, w =>
    (.ok ((c.plots.map .plot).filter fun f => (w.disk pod f).isSome), w)
  | .cachedChecksum s f, _, w => (.ok ((w.memoryOf s).checksums f), w)
  | .cacheChecksum s f mtime sha256, _, w =>
    (.ok (), w.setMemory s
      { w.memoryOf s with
        checksums := Function.update (w.memoryOf s).checksums f (some (mtime, sha256)) })
  | .cachedFeatures s f, _, w => (.ok ((w.memoryOf s).features f), w)
  | .cacheFeatures s f mtime refs, _, w =>
    (.ok (), w.setMemory s
      { w.memoryOf s with
        features := Function.update (w.memoryOf s).features f (some (mtime, refs)) })
  | .newFeatures s fs, _, w =>
    (.ok (List.range' (w.memoryOf s).heap.length fs.length),
      w.setMemory s { w.memoryOf s with heap := (w.memoryOf s).heap ++ fs })
  | .getFeatures s refs, _, w => (.ok (refs.filterMap ((w.memoryOf s).heap[·]?)), w)
  | .addTooltips s refs, _, w =>
    (.ok (), w.setMemory s
      { w.memoryOf s with heap := addTooltipsTo refs (w.memoryOf s).heap })
  | .uuid4, _, w => (.ok w.nextId, { w with nextId := w.nextId + 1 })
  | .submitJob task id, c, w =>
    if c.enqueueFails then (.ok (none, true), if c.sent then w.enqueue task id else w)
    else (.ok (some (id.getD w.nextId), false), w.enqueue task id)
  | .revokeJob id, _, w => (.ok (), { w with revoked := id :: w.revoked })
  | .getJobStatus _, c, w => (.ok c.celery, w)
  | .receive routing, c, w =>
    match w.messages[c.delivered]? with
    | some m =>
      if m.task.isRouting = routing then
        let w := if c.redelivered then w
          else { w with messages := w.messages.eraseIdx c.delivered }
        (.ok (if m.id ∈ w.revoked then none else some m), w)
      else (.ok none, w)
    | none => (.ok none, w)
  | .retry m, _, w =>
    (.ok (), { w with messages := w.messages ++ [{ m with retries := m.retries + 1 }] })
  | .appendLog author text, _, w => (.ok (), { w with log := w.log ++ [⟨author, text⟩] })
  | .clearLog, _, w => (.ok (), { w with log := [] })
  | .sendMail m, c, w =>
    (.ok c.mailSent, if c.mailSent then { w with mails := w.mails ++ [m] } else w)
  | .presignedUrl, c, w => (.ok c.url, w)
  | .streamWays, c, w => (.ok c.ways, w)
  | .pipeline s, c, w =>
    (.ok (), w.setDisk s.pod ((w.disk s.pod).write .solution
      ⟨.whole c.solution, c.time .solution, s.run⟩))

/-- What an operation has done when it fails: a row update nothing, a copy or deletion by rclone any
of its files; an enqueue that raises may have sent the message. -/
def interrupted : Op → Choice → World → World
  | .pullWorkDir pod, c, w => w.pulled pod c.reached c.time
  | .pullFile pod f, c, w => w.pulled pod (fun g => g = f ∧ c.reached f) c.time
  | .uploadWorkDir pod, c, w => w.uploaded pod c.reached
  | .deleteFiles pod fs, c, w =>
    w.deleted pod (fun f => f ∈ fs ∧ c.reached f) fun f => f ∈ fs ∧ c.reachedStored f
  | .submitJob task id, c, w => if c.sent then w.enqueue task id else w
  | _, _, w => w

/-- The operations that raise nothing of their own: the process may only be terminated at them. -/
def Op.quiet : Op → Bool
  | .cachedChecksum .. | .cacheChecksum .. | .cachedFeatures .. | .cacheFeatures .. => true
  | .newFeatures .. | .getFeatures .. | .addTooltips .. | .uuid4 | .sendMail _ => true
  | _ => false

/-- The exception the operation ends in, if the choice has it fail. -/
def Op.fault (o : Op) (c : Choice) : Option Fault :=
  match c.fault with
  | some .killed => some .killed
  | some f => if o.quiet then none else some f
  | none => none

def exec (o : Op) (c : Choice) (w : World) : Except Fault o.Ans × World :=
  match o.fault c with
  | some e => (.error e, interrupted o c w)
  | none => perform o c w

/-- The machine the app's programs run on. -/
abbrev machine : Machine sig where
  World := World
  Choice := Choice
  exec := exec

end Cosmonaut
