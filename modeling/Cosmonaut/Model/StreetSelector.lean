import Cosmonaut.Model.CosmonautJob

/-!
# The street selector

`StreetSelector` loads, edits and projects a job's street network. The intent lives in the row; the
edited and the projected file derive from the download and are recomputed when their record does
not vouch for them (`isCurrent`).

* `adoptStoredDownload`, `adoptLegacyEdits`: rows from before the checksum and the intent column.
* `refresh`, `ensureProjected`: make the derived files current.
* `applyEdits` and the seven edits.
* `viewportFc`: what a map move reads.
-/

namespace Cosmonaut

open Interleaving Program

/-- `file_sha256`, cached per process by modification time (and size, which the ideal modification
time determines). -/
def fileSha256 (here : Site) (s : StreetFile) : App Sha256 := do
  let stat ← ask (.mtime here.pod (.street s))
  let cached ← ask (.cachedChecksum here s)
  match cached.filter (·.1 = stat) with
  | some (_, checksum) => return checksum
  | none =>
    let checksum := s.sha256 (← ask (.readFile here.pod (.street s)))
    ask (.cacheChecksum here s stat checksum)
    return checksum

/-- Record the checksum of the stored download for a job whose row lacks it. -/
def adoptStoredDownload (here : Site) (job : JobModel) : App JobModel :=
  if job.membershipUpload.downloadSha256 ≠ none ∨
      job.membershipUpload.streetProcessing ≠ .completed then
    return job
  else do
    ask (.pullFile here.pod (.street .download))
    if ← ask (.fileExists here.pod (.street .download)) then
      let checksum ← fileSha256 here .download
      let job := { job with
        membershipUpload := { job.membershipUpload with downloadSha256 := some checksum } }
      CosmonautJob.updateColumns job [.membershipUpload]
      return job
    else
      return job

/-- The intent of a legacy file; a file without grades keeps them all. -/
def LegacyEdits.intent (edits : LegacyEdits) : StreetEdits where
  removedRoads := edits.removedRoads
  selectedRoadTags := edits.selectedRoadTags
  selectedTrackGrades := edits.selectedTrackGrades.getD (trackGrades ++ [ungradedTrackGrade])
  keepLargest := edits.keepLargest

/-- Move a job's intent from the legacy file into its row. -/
def adoptLegacyEdits (here : Site) (job : JobModel) : App JobModel :=
  if job.streetEdits ≠ none then
    return job
  else do
    if ← ask (.fileExists here.pod .streetEdits) then
      let edits ← loadFile here .streetEdits
      let job := { job with streetEdits := some edits.intent }
      CosmonautJob.updateColumns job [.streetEdits]
      ask (.deleteFiles here.pod [.streetEdits])
      return job
    else
      return job

/-- A selector: the job it belongs to and the intent it works on. -/
structure StreetSelector where
  job : JobModel
  edits : StreetEdits
  deriving DecidableEq

namespace StreetSelector

/-- The constructor: adopts a legacy intent, then copies the row's. -/
def new (here : Site) (job : JobModel) : App StreetSelector := do
  let job ← adoptLegacyEdits here job
  return ⟨job, job.streetEdits.getD {}⟩

/-! ## The download -/

/-- `_download_sha256`: the checksum the row names is then in the job. -/
def downloadSha256 (here : Site) (sel : StreetSelector) : App StreetSelector := do
  let job ← adoptStoredDownload here sel.job
  return { sel with job }

/-- `_local_download_sha256`. -/
def localDownloadSha256 (here : Site) : App (Option Sha256) := do
  if ← ask (.fileExists here.pod (.street .download)) then
    return some (← fileSha256 here .download)
  else
    return none

/-- Make this pod's download the one the row names; its checksum, if there is one at all. -/
def pullDownloadIfOther (here : Site) (sel : StreetSelector) :
    App (StreetSelector × Option Sha256) := do
  let localSha256 ← localDownloadSha256 here
  let sel ← downloadSha256 here sel
  if localSha256 ≠ sel.job.membershipUpload.downloadSha256 then
    ask (.pullFile here.pod (.street .download))
  return (sel, ← localDownloadSha256 here)

/-! ## Sources and records -/

/-- `_source`. -/
def source (sel : StreetSelector) (downloadSha256 : Option Sha256) : Source :=
  ⟨sel.edits, sel.job.epsg, downloadSha256⟩

/-- `_records`. -/
def records (here : Site) : App Records := do
  if ← ask (.fileExists here.pod .derivedHashes) then
    loadFile here .derivedHashes
  else
    return fun _ => none

def writeRecords (here : Site) (records : Records) : App Unit :=
  rewriteFile here .derivedHashes records

/-- Drop the file's record, let the caller rewrite the file, record it. -/
def rewriting (here : Site) (s : StreetFile) (source : Source) (body : App Unit) : App Unit := do
  let records ← records here
  if (records s).isSome then
    writeRecords here (Function.update records s none)
  body
  let checksum ← fileSha256 here s
  writeRecords here (Function.update records s (some (.built source checksum)))

/-- Whether the derived file exists, is built from `source`, and is the very file its record was
written for. -/
def isCurrent (here : Site) (s : StreetFile) (source : Source) : App Bool := do
  if ← ask (.fileExists here.pod (.street s)) then
    match (← records here) s with
    | some record => return decide (record = .built source (← fileSha256 here s))
    | none => return false
  else
    return false

/-! ## Feature lists -/

/-- `_cached_load`: references to the file's features, cached when fresh. -/
def cachedLoad (here : Site) (s : StreetFile) (features : s.Doc → List Feature) :
    App (List ℕ) := do
  let mtime ← ask (.mtime here.pod (.street s))
  let cached ← ask (.cachedFeatures here s)
  match cached.filter (·.1 = mtime) with
  | some (_, refs) => return refs
  | none =>
    let doc ← loadFile here (.street s)
    let refs ← ask (.newFeatures here (features doc))
    ask (.cacheFeatures here s mtime refs)
    return refs

def loadDownloadFeatures (here : Site) : App (List ℕ) := cachedLoad here .download id

def loadEditFeatures (here : Site) : App (List ℕ) := cachedLoad here .edited id

/-- `_save_edit_file`: write the features as they are now, and warm the cache. -/
def saveEditFile (here : Site) (refs : List ℕ) : App Unit := do
  ask (.openFile here (.street .edited))
  let features ← ask (.getFeatures here refs)
  ask (.writeFile here (.street .edited) features)
  let mtime ← ask (.mtime here.pod (.street .edited))
  ask (.cacheFeatures here .edited mtime refs)

section

variable [External]

/-- `project_features_to_file`. -/
def projectFeaturesToFile (here : Site) (refs : List ℕ) (srcEpsg dstEpsg : ℤ) : App Unit :=
  withWriter here .transformed do
    let features ← ask (.getFeatures here refs)
    return (⟨some dstEpsg, features.map (projectFeature srcEpsg dstEpsg)⟩, ())

/-- `_save_edit_file` of no feature under the transformed file's path. -/
def saveNoRoutingInput (here : Site) : App Unit := do
  rewriteFile here (.street .transformed) ⟨none, []⟩
  let mtime ← ask (.mtime here.pod (.street .transformed))
  ask (.cacheFeatures here .transformed mtime [])

/-- `_project`: write the features, projected to the job's EPSG, as the routing input. -/
def project (here : Site) (sel : StreetSelector) (refs : List ℕ) (source : Source) : App Unit :=
  rewriting here .transformed source <|
    if refs = [] then saveNoRoutingInput here
    else projectFeaturesToFile here refs 4326 sel.job.epsg

/-! ## Deriving -/

/-- `_derive`: write the derived files for the current intent; whether there is any road. -/
def deriveFiles (here : Site) (sel : StreetSelector) (downloadSha256 : Option Sha256)
    (deferProjection : Bool) : App Bool := do
  let source := sel.source downloadSha256
  let refs ← loadDownloadFeatures here
  let features ← ask (.getFeatures here refs)
  match deriveBy Prod.snd sel.edits (refs.zip features) with
  | none => raise (.value "max() iterable argument is empty")
  | some kept =>
    let refs := kept.map Prod.fst
    rewriting here .edited source (saveEditFile here refs)
    if !deferProjection then
      project here sel refs source
    return decide (refs ≠ [])

/-- Make the edited network current; whether there is one. -/
def refresh (here : Site) (sel : StreetSelector) : App (StreetSelector × Bool) := do
  let sel ← downloadSha256 here sel
  match sel.job.membershipUpload.downloadSha256 with
  | none => return (sel, false)
  | some sha256 =>
    if ← isCurrent here .edited (sel.source (some sha256)) then
      return (sel, true)
    else
      let (sel, localSha256) ← pullDownloadIfOther here sel
      match localSha256 with
      | none => return (sel, false)
      | some localSha256 =>
        let _ ← deriveFiles here sel (some localSha256) true
        return (sel, true)

/-- Make the edited and the projected network current with the intent. -/
def ensureProjected (here : Site) (sel : StreetSelector) : App Unit := do
  let (sel, current) ← refresh here sel
  if current then
    match (← records here) .edited with
    | none => raise (.key "osm_data_edited.geojson")
    | some (.bare _) => raise (.type "string indices must be integers")
    | some (.built source _) =>
      if ← isCurrent here .transformed source then
        return
      else
        project here sel (← loadEditFeatures here) source
  else
    return

/-- Write the intent to the row while it is PENDING, then re-derive. -/
def applyEdits (here : Site) (sel : StreetSelector) (deferProjection : Bool) :
    App (StreetSelector × Bool) := do
  let sel := { sel with job := { sel.job with streetEdits := some sel.edits } }
  if ← CosmonautJob.updateInput sel.job [.streetEdits] then
    let (sel, localSha256) ← pullDownloadIfOther here sel
    return (sel, ← deriveFiles here sel localSha256 deferProjection)
  else
    raise .jobNotPending

/-! ## Edits -/

/-- The intent with `f` applied, keep-largest off, and the network re-derived. -/
def edit (here : Site) (sel : StreetSelector) (edits : StreetEdits) : App StreetSelector := do
  return (← applyEdits here { sel with edits } true).1

/-- The ids of `roadIds` that are not removed yet, each once. -/
def newRemovals (removed roadIds : List ℤ) : List ℤ :=
  (roadIds.foldl (fun seen id => if id ∈ seen then seen else seen ++ [id]) []).filter (· ∉ removed)

def removeRoads (here : Site) (sel : StreetSelector) (roadIds : List ℤ) : App StreetSelector :=
  let uniqueNew := newRemovals sel.edits.removedRoads roadIds
  if uniqueNew = [] then return sel
  else edit here sel { sel.edits with
    removedRoads := sel.edits.removedRoads ++ uniqueNew, keepLargest := false }

def restoreRoad (here : Site) (sel : StreetSelector) (roadId : ℤ) : App StreetSelector :=
  if roadId ∉ sel.edits.removedRoads then return sel
  else edit here sel { sel.edits with
    removedRoads := sel.edits.removedRoads.erase roadId, keepLargest := false }

def clearRemovedRoads (here : Site) (sel : StreetSelector) : App StreetSelector :=
  if sel.edits.removedRoads = [] then return sel
  else edit here sel { sel.edits with removedRoads := [], keepLargest := false }

def updateTags (here : Site) (sel : StreetSelector) (tags : List String) : App StreetSelector :=
  if tags = sel.edits.selectedRoadTags then return sel
  else edit here sel { sel.edits with selectedRoadTags := tags, keepLargest := false }

def updateTrackGrades (here : Site) (sel : StreetSelector) (grades : List String) :
    App StreetSelector :=
  if grades = sel.edits.selectedTrackGrades then return sel
  else edit here sel { sel.edits with selectedTrackGrades := grades, keepLargest := false }

/-- Whether the current network has any road is the second component. -/
def keepLargest (here : Site) (sel : StreetSelector) : App (StreetSelector × Bool) :=
  applyEdits here { sel with edits := { sel.edits with keepLargest := true } } true

def reset (here : Site) (sel : StreetSelector) : App StreetSelector := edit here sel {}

/-! ## Reading -/

/-- `visible_fc`, what it does to the feature objects: tooltips. The simplified copies it returns
are not modelled. -/
def visibleFc (here : Site) : App Unit := do
  ask (.addTooltips here (← loadEditFeatures here))

/-- `viewport_fc`, likewise. -/
def viewportFc (here : Site) (sel : StreetSelector) : App Unit := do
  if (← refresh here sel).2 then
    visibleFc here

/-- `initial_fc`, likewise. -/
def initialFc (here : Site) (sel : StreetSelector) : App Unit := do
  if (← refresh here sel).2 then
    visibleFc here

/-- The text shown for a removed road. -/
def removedRoadLabel (f : Feature) : String :=
  match f.properties.name.filter (· ≠ ""), f.properties.ref.filter (· ≠ "") with
  | some name, _ => name ++ " (" ++ f.properties.highway ++ ") #" ++ toString f.id
  | none, some ref => ref ++ " (" ++ f.properties.highway ++ ") #" ++ toString f.id
  | none, none => f.properties.highway ++ " #" ++ toString f.id

def getRemovedRoadsInfo (here : Site) (sel : StreetSelector) : App (List (ℤ × String)) := do
  if sel.edits.removedRoads = [] then
    return []
  else if ← ask (.fileExists here.pod (.street .download)) then
    let features ← ask (.getFeatures here (← loadDownloadFeatures here))
    return (features.filter (·.id ∈ sel.edits.removedRoads)).map fun f => (f.id, removedRoadLabel f)
  else
    return []

end

end StreetSelector

end Cosmonaut
