import Cosmonaut.Street.Reached

/-!
# Derived files are made current

After `ensure_projected` the pod's derived files are what the row calls for, whatever was recorded,
cached, copied or left behind before.

* `makeProjected_settles`: what the call leaves on the pod, from any sound world.
* `derived_files_made_current`: the files are current in every run of whole calls.
-/

namespace Cosmonaut

open Interleaving Program

/-- The checksum of the download the row names. -/
def Row.named (r : Row) : Option Sha256 := r.columns.membershipUpload.backfill.downloadSha256

/-- The row's intent; a row without one has not been edited. -/
def Row.intent (r : Row) : StreetEdits := r.columns.streetEdits.getD {}

variable [External]

/-- The pod's derived files hold what the row's intent keeps of the download, and that projected to
the row's EPSG, tooltips aside. -/
structure CurrentFor (w : World) (pod : ℕ) (r : Row) (download : List Feature) : Prop where
  edited : ∃ kept edited, derive r.intent download = some kept ∧
    (w.disk pod).content (.street .edited) = some (.whole edited) ∧
    edited.map Feature.bare = kept.map Feature.bare
  transformed : ∃ kept transformed, derive r.intent download = some kept ∧
    (w.disk pod).content (.street .transformed) = some (.whole transformed) ∧
    transformed.bare = (projectRoads r.columns.epsg kept).bare

/-- A selector is built from the row and asked to make the files current. -/
def makeProjected (here : Site) (r : Row) : App Unit := do
  let sel ← StreetSelector.new here (.ofRow r)
  sel.ensureProjected here

variable {crash : Bool} {torn : Place → Prop} {err : Prop} {w w' : World} {here : Site} {r : Row}

theorem projectRoads_bare {epsg : ℤ} {roads kept : List Feature}
    (h : roads.map Feature.bare = kept.map Feature.bare) :
    (projectRoads epsg roads).bare = (projectRoads epsg kept).bare := by
  have hempty : roads = [] ↔ kept = [] := by
    have hlength := congrArg List.length h
    rw [List.length_map, List.length_map] at hlength
    rw [← List.length_eq_zero_iff, hlength, List.length_eq_zero_iff]
  have hmap : ∀ fs : List Feature, (fs.map (projectFeature 4326 epsg)).map ProjectedFeature.bare =
      (fs.map Feature.bare).map (projectFeature 4326 epsg) := by
    intro fs
    rw [List.map_map, List.map_map]
    rfl
  unfold projectRoads
  by_cases hr : roads = []
  · rw [if_pos hr, if_pos (hempty.1 hr)]
  · rw [if_neg hr, if_neg (mt hempty.2 hr)]
    simp only [RoutingInput.bare, hmap, h]

theorem network_of_sum {source : Source} {download kept : List Feature}
    (hsum : source.downloadSha256 = some (StreetFile.sha256 .download (.whole download)))
    (h : source.Network kept) : derive source.intent download = some kept := by
  obtain ⟨download', hsum', hkept⟩ := h
  rw [hsum, Option.some.injEq] at hsum'
  obtain rfl := Bytes.whole.inj (StreetFile.sha256_injective .download hsum')
  exact hkept

/-- What is vouched for as built from the row's intent and a download is current for them. -/
theorem Sound.currentFor (hs : Sound crash Feature.bare torn w) {source : Source}
    {download : List Feature} (hintent : source.intent = r.intent)
    (hepsg : source.epsg = r.columns.epsg)
    (hsum : source.downloadSha256 = some (StreetFile.sha256 .download (.whole download)))
    (hedited : Vouched w here.pod .edited source)
    (htransformed : Vouched w here.pod .transformed source) :
    CurrentFor w here.pod r download := by
  constructor
  · obtain ⟨doc, hdoc, kept, hnetwork, hkept⟩ := hs.derived hedited
    exact ⟨kept, doc, hintent ▸ network_of_sum hsum hnetwork, hdoc, hkept⟩
  · obtain ⟨doc, hdoc, kept, roads, hnetwork, hkept, rfl⟩ := hs.derived htransformed
    exact ⟨kept, _, hintent ▸ network_of_sum hsum hnetwork, hdoc, by
      rw [hepsg, projectRoads_bare hkept]⟩

/-- What a projection from the current row leaves: current files if the row names the stored
download, and nothing new if it names none. -/
structure MadeCurrent (here : Site) (w w' : World) (r' : Row) : Prop where
  row : w'.row = some r'
  current : ∀ download,
    r'.named = some (StreetFile.sha256 .download (.whole download)) →
    w'.stored.content (.street .download) = some (.whole download) →
    CurrentFor w' here.pod r' download
  untouched : r'.named = none → ∀ f, f ≠ .streetEdits → w'.disk here.pod f = w.disk here.pod f

theorem makeProjected_settles (hs : Sound crash Feature.bare torn w) (hr : w.row = some r)
    (htorn : RecordsTorn w here.pod →
      NeedsRecords w here.pod r.columns.membershipUpload.backfill → err) :
    Settles crash Feature.bare torn err (fun _ w' => ∃ r', MadeCurrent here w w' r')
      (makeProjected here r) w := by
  refine (new_settles hs fun hno => by rw [hr] at hno; cases hno).bind ?_
  intro sel w₁ hs₁ hnew
  have hmirrors₁ := hnew.mirrors (mirrors_ofRow hr)
  refine (ensureProjected_settles sameRoad_of_bare hs₁ (fun hno => ?_) fun ht hneeds => ?_).mono
    (fun _ _ _ h => h) ?_
  · obtain ⟨r₁, hr₁, -⟩ := hmirrors₁
    rw [hr₁] at hno
    cases hno
  · exact htorn ((hnew.apart.content (by simp)).symm.trans ht) (hnew.needsRecords.1 hneeds)
  rintro - w' hs' ⟨sel', hprojected⟩
  obtain ⟨m, hadopted, hm, hcases⟩ := hprojected.adopted
  obtain ⟨r', hr', hupload, hepsg, hedits⟩ := (hadopted.mirrors hmirrors₁).of_row hm.row
  have hnamed : sel'.job.named = r'.named := by rw [JobModel.named, hupload, Row.named]
  have hintent : sel'.edits = r'.intent := by
    rw [hprojected.edits, hnew.edits, ← hadopted.edits, hedits, Row.intent]
  refine ⟨r', hr', fun download hdownload hstored => ?_, fun hnone f hf => ?_⟩
  · have hfetched : w₁.fetched here.pod = some (.whole download) := by
      rw [World.fetched, ← hadopted.apart.storedContent, ← hm.toApart.storedContent, hstored]
      rfl
    rcases hcases with ⟨-, ⟨hno, -⟩ | ⟨-, -, hno⟩⟩ | ⟨-, h, hedited, htransformed, hh⟩
    · rw [hnamed, hdownload] at hno
      cases hno
    · rw [hfetched] at hno
      cases hno
    · have hsum : h = some (StreetFile.sha256 .download (.whole download)) := by
        rcases hh with ⟨-, rfl⟩ | ⟨-, rfl⟩
        · exact hnamed.trans hdownload
        · rw [World.got]
          split
          · rename_i hlocal
            exact hlocal.trans (hnamed.trans hdownload)
          · rw [hfetched]
            rfl
      exact hs'.currentFor hintent hepsg (by rw [StreetSelector.source, hsum]) hedited htransformed
  · rw [← hnamed] at hnone
    rcases hcases with ⟨-, ⟨-, honly⟩ | ⟨hne, -⟩⟩ | ⟨hne, -⟩
    · rw [honly.disk f (by simp), hadopted.disk_of_unnamed hnone,
        hnew.apart.disk f (by simpa using hf)]
    · exact absurd hnone hne
    · exact absurd hnone hne

/-- **Derived street files are always made current**: the call returns normally, and the files are
what the row calls for, or untouched where the row names no download. -/
theorem derived_files_made_current (h : Reached false w) (hr : w.row = some r)
    {res : Except Err Unit} (hends : (makeProjected here r).Ends (steady false) w res w') :
    res = .ok () ∧ ∃ r', MadeCurrent here w w' r' := by
  have hsettles : Settles false Feature.bare (fun _ => False) False
      (fun _ w' => ∃ r', MadeCurrent here w w' r') (makeProjected here r) w :=
    makeProjected_settles h.sound_bare hr fun ht _ =>
      h.sound_bare.legible rfl (some here.pod) ht
  obtain ⟨-, hout⟩ := hsettles.ends hends
  cases res with
  | ok a => exact ⟨rfl, hout⟩
  | error e =>
    rcases hout with ⟨-, hcrash⟩ | hfalse
    · cases hcrash
    · exact hfalse.elim

omit [External]

/-! ## A first projection -/

/-- A residential road. -/
def residentialRoad : Feature where
  id := 1
  coordinates := [(0, 0), (0, 1)]
  properties := ⟨1, none, "residential", [10, 11], none, none, "no", [], none⟩
  two_nodes := by decide

/-- The row of an unedited job whose upload is complete with the download. -/
def rowNaming (download : List Feature) : Row :=
  let _ := External.plain
  .ofModel { JobModel.blank with
    membershipUpload := { defaultMembershipUpload with
      streetProcessing := .completed
      downloadSha256 := some (StreetFile.sha256 .download (.whole download)) }
    streetEdits := some {} }

/-- The download is stored and named by the row; no pod has any file. -/
def worldStoring (download : List Feature) : World :=
  { World.fresh (rowNaming download) with
    stored := (Files.write (fun _ => none) (.street .download) ⟨.whole download, 0, none⟩) }

theorem worldStoring_other (download : List Feature) (place : Place) {f : FileName}
    (hf : f ≠ .street .download) : (worldStoring download).copy place f = none := by
  cases place with
  | none => exact Files.write_other (fun _ => none) (.street .download) f _ hf
  | some pod => rfl

theorem worldStoring_origin (download : List Feature) : Origin (worldStoring download) where
  records place records h := by
    rw [Files.content, worldStoring_other download place (by simp)] at h
    cases h
  whole place f hf h := by
    by_cases hfd : f = .street .download
    · subst hfd
      cases place with
      | none =>
        have hwhole : some (Bytes.whole download) = some Bytes.torn :=
          (content_write_self (fun _ => none) _).symm.trans h
        cases hwhole
      | some pod => cases h
    · rw [Files.content, worldStoring_other download place hfd] at h
      cases h
  memory _ := ⟨fun _ => rfl, fun _ => rfl⟩

theorem derived_files_made_current_once :
    let _ := External.plain
    CurrentFor ((makeProjected ⟨0, 0, none⟩ (rowNaming [residentialRoad])).runWith (steady false)
      (steadyChoice false) [] (worldStoring [residentialRoad])).2 0 (rowNaming [residentialRoad])
      [residentialRoad] := by
  intro _
  obtain ⟨-, r', hcurrent⟩ := derived_files_made_current
    (.start (worldStoring_origin [residentialRoad])) rfl
    (ends_runWith (steadyChoice false) [] (makeProjected ⟨0, 0, none⟩ (rowNaming [residentialRoad]))
      (worldStoring [residentialRoad]))
  have hrow := hcurrent.row
  have hsame : ((makeProjected ⟨0, 0, none⟩ (rowNaming [residentialRoad])).runWith (steady false)
      (steadyChoice false) [] (worldStoring [residentialRoad])).2.row =
      some (rowNaming [residentialRoad]) := by
    decide +kernel
  obtain rfl := Option.some.inj (hsame.symm.trans hrow)
  exact hcurrent.current _ rfl (by decide +kernel)

end Cosmonaut
