import Cosmonaut.Model.RoadNetwork
import Mathlib.Data.Fintype.Pi

/-!
# The files of a job

The work dir of a job as it lies on a pod's disk or in object storage: for every file name an entry,
whose content has the type the name calls for. Checksums and modification times are ideal: a
checksum is the content it was taken of, and since two contents at one path never share a
modification time, a modification time carries its content.

* `Files.pull` copies stored files over local ones and deletes nothing.
* `Files.upload` copies every local file that differs over the stored one.
-/

namespace Cosmonaut

/-! ## Contents -/

/-- The bytes of a file: cut off by a crash between opening and writing it, or a whole document. -/
inductive Bytes (α : Type)
  | torn
  | whole (doc : α)
  deriving DecidableEq

/-- The street files of a job. The edited and the transformed file derive from the download. -/
inductive StreetFile
  | download
  | edited
  | transformed
  deriving DecidableEq

instance : Fintype StreetFile := ⟨{.download, .edited, .transformed}, by rintro ⟨⟩ <;> simp⟩

/-- What a street file holds. -/
@[reducible] def StreetFile.Doc : StreetFile → Type
  | .download | .edited => List Feature
  | .transformed => RoutingInput

instance : (s : StreetFile) → DecidableEq s.Doc
  | .download | .edited => inferInstanceAs (DecidableEq (List Feature))
  | .transformed => inferInstanceAs (DecidableEq RoutingInput)

/-- The sha256 of a street file, ideal: equal checksums are checksums of equal contents. -/
inductive Sha256
  | features (of : Bytes (List Feature))
  | routingInput (of : Bytes RoutingInput)
  deriving DecidableEq

def StreetFile.sha256 : (s : StreetFile) → Bytes s.Doc → Sha256
  | .download | .edited => .features
  | .transformed => .routingInput

theorem StreetFile.sha256_injective (s : StreetFile) : Function.Injective s.sha256 := by
  intro a b h
  cases s
  · exact Sha256.features.inj h
  · exact Sha256.features.inj h
  · exact Sha256.routingInput.inj h

/-- What a derived file is built from, hashed: the intent, the EPSG and the download's checksum. -/
structure Source where
  intent : StreetEdits
  epsg : ℤ
  downloadSha256 : Option Sha256
  deriving DecidableEq

/-- The record of a derived file: its source and the checksum of its content, or the bare string of
a record from before the download's checksum was part of it. -/
inductive Record
  | built (source : Source) (sha256 : Sha256)
  | bare (intentHash : String)
  deriving DecidableEq

/-- `street_derived_hashes.json`: the derived files' records. -/
abbrev Records := StreetFile → Option Record

/-- `street_edits.json`, the legacy intent file. Files from before the track-grade filter lack the
grades. -/
structure LegacyEdits where
  removedRoads : List ℤ
  selectedRoadTags : List String
  selectedTrackGrades : Option (List String)
  keepLargest : Bool
  deriving DecidableEq

/-- A value of a pipeline parameter. -/
inductive ConfigValue
  | int (n : ℤ)
  | num (q : ℚ)
  | text (s : String)
  | flag (b : Bool)
  | null
  deriving DecidableEq

/-- The pipeline parameters by name. -/
abbrev Config := List (String × ConfigValue)

/-- `solution.json`. -/
structure Solution where
  objective : String
  distance : ℚ
  path : List Point
  deriving DecidableEq

/-- `route.gpx`: its name, the distance its description gives with two decimals, and its track
points, latitude first. -/
structure Gpx where
  name : String
  distance : ℚ
  points : List Point
  deriving DecidableEq

/-- A table as pandas reads it: the columns, numeric or not. One without rows counts as numeric. -/
inductive ColumnData
  | numbers (xs : List ℚ)
  | texts (xs : List String)
  deriving DecidableEq

abbrev DataFrame := List (String × ColumnData)

/-- The membership raster, which is determined by what it is painted from. -/
structure Raster where
  memberships : DataFrame
  srcEpsg : ℤ
  deriving DecidableEq

/-! ## File names -/

/-- The files of a job's work dir, under their canonical names. -/
inductive FileName
  /-- `memberships.csv` -/
  | memberships
  /-- `predictors.csv` -/
  | predictors
  /-- `parameters.json` -/
  | parameters
  /-- `osm_data_download.geojson`, `osm_data_edited.geojson`, `osm_data_transformed.geojson` -/
  | street (s : StreetFile)
  /-- The same with `.tmp` appended, while the file is being written. -/
  | streetTmp (s : StreetFile)
  /-- `street_derived_hashes.json` -/
  | derivedHashes
  /-- `street_edits.json` -/
  | streetEdits
  /-- `solution.json` -/
  | solution
  /-- `route.gpx` -/
  | gpx
  /-- `qr_code.png` -/
  | qrCode
  /-- `route_options.json` -/
  | routeOptions
  /-- `membership.tif` -/
  | membershipTif
  /-- A plot of an earlier version, `*_output*.tif`. -/
  | plot (name : String)
  /-- A file under any other name. -/
  | other (name : String)
  deriving DecidableEq

/-- What a file holds. -/
@[reducible] def FileName.Doc : FileName → Type
  | .memberships | .predictors | .qrCode | .plot _ | .other _ => String
  | .parameters => Config
  | .street s | .streetTmp s => s.Doc
  | .derivedHashes => Records
  | .streetEdits => LegacyEdits
  | .solution => Solution
  | .gpx => Gpx
  | .routeOptions => Bool
  | .membershipTif => Raster

instance : (f : FileName) → DecidableEq f.Doc
  | .memberships | .predictors | .qrCode | .plot _ | .other _ =>
      inferInstanceAs (DecidableEq String)
  | .parameters => inferInstanceAs (DecidableEq Config)
  | .street s | .streetTmp s => inferInstanceAs (DecidableEq s.Doc)
  | .derivedHashes => inferInstanceAs (DecidableEq Records)
  | .streetEdits => inferInstanceAs (DecidableEq LegacyEdits)
  | .solution => inferInstanceAs (DecidableEq Solution)
  | .gpx => inferInstanceAs (DecidableEq Gpx)
  | .routeOptions => inferInstanceAs (DecidableEq Bool)
  | .membershipTif => inferInstanceAs (DecidableEq Raster)

/-- A modification time. Two contents at one path never share one. -/
structure Mtime (f : FileName) where
  time : ℕ
  content : Bytes f.Doc
  deriving DecidableEq

/-- A file. `author` is the run that wrote it, if a run did; copies keep it. -/
structure Entry (f : FileName) where
  content : Bytes f.Doc
  time : ℕ
  author : Option ℕ
  deriving DecidableEq

def Entry.mtime {f : FileName} (e : Entry f) : Mtime f := ⟨e.time, e.content⟩

/-! ## Work dirs -/

/-- A work dir, local or stored. -/
abbrev Files := (f : FileName) → Option (Entry f)

namespace Files

/-- What the file holds, if there is one. -/
def content (d : Files) (f : FileName) : Option (Bytes f.Doc) := (d f).map (·.content)

def write (d : Files) (f : FileName) (e : Entry f) : Files := Function.update d f (some e)

def remove (d : Files) (f : FileName) : Files := Function.update d f none

/-- Copy the stored files among `fs` over the local ones. -/
def pull (local' stored : Files) (fs : FileName → Bool) (time : FileName → ℕ) : Files := fun f =>
  if fs f then
    match stored f with
    | some e => some { e with time := time f }
    | none => local' f
  else local' f

/-- Copy the local files among `fs` over the stored ones, where they differ. -/
def upload (local' stored : Files) (fs : FileName → Bool) : Files := fun f =>
  if fs f ∧ local'.content f ≠ none ∧ local'.content f ≠ stored.content f then local' f
  else stored f

/-- There is no local copy of the file, or it is the stored one. -/
def Current (local' stored : Files) (f : FileName) : Prop :=
  local'.content f = none ∨ local'.content f = stored.content f

/-- Without the files of `fs`. -/
def delete (d : Files) (fs : FileName → Bool) : Files := fun f => if fs f then none else d f

variable (d d' : Files) (f g : FileName) (e : Entry f) (fs : FileName → Bool) (time : FileName → ℕ)

@[simp] theorem write_self : d.write f e f = some e := Function.update_self ..

@[simp] theorem write_other (h : g ≠ f) : d.write f e g = d g := Function.update_of_ne h ..

@[simp] theorem remove_self : d.remove f f = none := Function.update_self ..

@[simp] theorem remove_other (h : g ≠ f) : d.remove f g = d g := Function.update_of_ne h ..

/-- A pulled file is the stored copy, or the local one if none is stored or it was not asked for. -/
theorem pull_cases : d.pull d' fs time f = d f ∧ (fs f = true → d' f = none) ∨
    ∃ e, fs f = true ∧ d' f = some e ∧ d.pull d' fs time f = some { e with time := time f } := by
  unfold pull
  split
  · rcases h : d' f with _ | e
    · exact .inl ⟨rfl, fun _ => rfl⟩
    · exact .inr ⟨e, ‹_›, rfl, rfl⟩
  · exact .inl ⟨rfl, fun h => absurd h ‹_›⟩

/-- A pulled file has the content of the stored one, if it is stored. -/
theorem content_pull {d d' : Files} {f : FileName} {fs : FileName → Bool} {time : FileName → ℕ}
    (hf : fs f = true) : (d.pull d' fs time).content f = (d'.content f).or (d.content f) := by
  rcases h : d' f with _ | e <;> simp [content, pull, h, hf]

theorem upload_cases : d.upload d' fs f = d' f ∨
    fs f = true ∧ d.content f ≠ none ∧ d.content f ≠ d'.content f ∧ d.upload d' fs f = d f := by
  unfold upload
  split
  · exact .inr ⟨by simp_all, by simp_all, by simp_all, rfl⟩
  · exact .inl rfl

/-- An upload leaves a stored file alone of which there is no differing local copy. -/
theorem Current.upload {d d' : Files} {f : FileName} (h : d.Current d' f) (fs : FileName → Bool) :
    d.upload d' fs f = d' f := by
  rcases upload_cases d d' f fs with hf | ⟨-, hf, hne, -⟩
  · exact hf
  · exact absurd h (not_or.2 ⟨hf, hne⟩)

/-- An upload leaves a stored file alone exactly when there is no differing local copy. -/
theorem upload_apply_eq_iff {d d' : Files} {f : FileName} :
    d.upload d' (fun _ => true) f = d' f ↔ d.Current d' f := by
  refine ⟨fun h => ?_, fun h => h.upload _⟩
  by_contra hne
  have hne' := not_or.1 hne
  have hlocal : d f = d' f := by
    rw [← h]
    simp [upload, hne']
  exact hne'.2 (by rw [content, hlocal, content])

/-- A stored file holds what the local copy held, if there was one. -/
theorem content_upload {d d' : Files} {f : FileName} {b : Bytes f.Doc} (h : d.content f = some b) :
    (d.upload d' (fun _ => true)).content f = some b := by
  by_cases hc : d.Current d' f
  · have hstored : d'.content f = some b := by
      rcases hc with hnone | heq
      · rw [h] at hnone
        cases hnone
      · exact heq.symm.trans h
    rwa [content, hc.upload]
  · have hlocal : d.upload d' (fun _ => true) f = d f := by
      simp [upload, not_or.1 hc]
    rwa [content, hlocal]

@[simp] theorem delete_of (h : fs f = true) : d.delete fs f = none := if_pos h

@[simp] theorem delete_other (h : fs f = false) : d.delete fs f = d f := by
  simp [delete, h]

end Files

end Cosmonaut
