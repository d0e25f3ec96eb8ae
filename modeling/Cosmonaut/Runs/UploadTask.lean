import Cosmonaut.Runs.Completes
import Cosmonaut.Street.Initial

/-!
# An undisturbed upload task ends the upload

The upload task that owns the upload of the row, with nobody interfering and no operation failing,
ends it. It is COMPLETED with the road network of the ways that Overpass answers, if positions can
be read from the membership file that the worker finds and span an area, and else FAILED.

* `Undisturbed`: the judgement, of a call that may raise something.
* `HasArea`: the positions of a table, with a downloader around them.
* `downloadRoads_found`, `downloadRoads_unreadable`: the steps of the task.
* `upload_task_ends`: the row, and the street files in the object storage.
-/

namespace Cosmonaut

open Interleaving Program

/-- The row with the upload ended. -/
def Row.endUpload (r : Row) (state : StreetProcessing) (downloadSha256 : Option Sha256) : Row :=
  r.putAll [.membershipUpload { r.columns.membershipUpload with
    streetProcessing := some state
    downloadSha256 := some downloadSha256 }]

/-- What a pod finds of a file once it has pulled the work dir. -/
def World.foundFile (w : World) (pod : ℕ) (f : FileName) : Option (Bytes f.Doc) :=
  (w.stored.content f).or ((w.disk pod).content f)

/-- The exceptions of which the upload task asks for no retry. -/
def Err.endsUpload : Err → Bool
  | .fault .killed | .fault .transient | .fault (.http _) => false
  | _ => true

variable [External]

/-- Positions can be read from a membership file with this text, and this is the downloader around
them. -/
def HasArea (text : String) (epsg : ℤ) (osm : OsmDownloader) : Prop :=
  ∃ data, transformCsv text epsg = pure data ∧ OsmDownloader.new data epsg = pure osm

/-- A pod finds a membership file with this area. -/
def FindsArea (pod : ℕ) (epsg : ℤ) (w : World) (osm : OsmDownloader) : Prop :=
  ∃ text, w.foundFile pod .memberships = some (.whole text) ∧ HasArea text epsg osm

/-- The street files hold the network of the ways in the area. -/
structure NetworkFiles (osm : OsmDownloader) (ways : List Way) (d : Files) : Prop where
  download : d.content (.street .download) = some (.whole (downloaded osm ways))
  edited : d.content (.street .edited) = some (.whole (initiallyEdited osm ways))
  transformed : d.content (.street .transformed) = some (.whole ⟨some osm.epsgOutput,
    (initiallyEdited osm ways).map (projectFeature 4326 osm.epsgOutput)⟩)

variable {α β : Type} {ways : List Way} {w w' m : World} {here : Site} {r : Row}
  {data : List Point} {osm : OsmDownloader} {epsg : ℤ} {id : TaskId}

/-! ## Calls that end -/

/-- Where nothing fails and Overpass answers the ways, the call ends with `F` of what it returns or
`E` of what it raises. -/
abbrev Undisturbed (ways : List Way) (E : Err → World → Prop) (F : α → World → Prop) (p : App α)
    (w : World) : Prop :=
  Keeping (M := answering ways) (fun _ => True) E F p w

section

variable {p : App α} {E E' : Err → World → Prop} {F : α → World → Prop} {G : β → World → Prop}

omit [External] in
theorem Completes.undisturbed (h : Completes F p w) : Undisturbed ways E F p w :=
  (Keeping.restrict h).mono (fun _ _ _ hfalse => hfalse.elim) fun _ _ _ h => h

theorem Answers.undisturbed {look : Feature → Feature} (h : Answers ways look F p w) :
    Undisturbed ways E (fun a w' => Sound false look (fun _ => False) w' ∧ F a w') p w := by
  refine wp.mono h fun res w' hres => ⟨trivial, ?_⟩
  rcases res with e | a
  · exact hres.2.elim
  · exact hres

omit [External] in
theorem undisturbed_raise {e : Err} (h : E e w) : Undisturbed ways E F (raise e) w :=
  keeping_throw trivial h

omit [External] in
theorem answering_exec (o : Op) (c : (answering ways).Choice) (w : World) :
    (answering ways).exec o c w = perform o c.1.1 w := by
  rcases steady_exec_cases o c.1 w with hc | ⟨hfalse, -⟩
  · exact hc
  · cases hfalse

omit [External] in
theorem Undisturbed.bind {f : α → App β} (h : Undisturbed ways E F p w)
    (hf : ∀ a m, F a m → Undisturbed ways E G (f a) m) : Undisturbed ways E G (p >>= f) w :=
  Keeping.bind h fun a m _ ha => hf a m ha

end

/-! ## The row -/

omit [External] in
theorem writeIfOwner_completes (hr : w.row = some r)
    (howner : r.columns.membershipUpload.streetProcessing = some (.task id)) (job : JobModel) :
    Completes (fun _ m => m = { w with
      row := some (r.putAll [.membershipUpload job.membershipUpload.column]) })
      (writeIfOwner job id) w := by
  refine completes_ask (o := .updateMembershipUploadOfTask id _) fun c => ⟨true, _, ?_, rfl⟩
  simp only [perform, World.update, hr, howner, decide_true, if_true]

/-- The failure path records the failure, and the maintainer is told unless the mail is lost. -/
theorem failUpload_completes (hr : w.row = some r)
    (howner : r.columns.membershipUpload.streetProcessing = some (.task id)) (error : Err) :
    Completes (fun _ m => ∃ mails, (mails = w.mails ∨ mails = w.mails ++ [.uploadFailed error]) ∧
      m = { w with row := some (r.endUpload .failed
                     r.columns.membershipUpload.backfill.downloadSha256)
                   mails }) (failUpload id error) w := by
  refine Completes.bind (F := fun _ m => m = { w with row := some (r.endUpload .failed
    r.columns.membershipUpload.backfill.downloadSha256) })
    (Keeping.tryCatch (E := fun _ _ => False) ?_ fun _ _ _ hfalse => hfalse.elim) ?_
  · refine Completes.bind (load_completes hr) ?_
    rintro job _ ⟨rfl, rfl⟩
    refine Completes.bind (writeIfOwner_completes hr howner _) ?_
    rintro written _ rfl
    exact completes_ret rfl
  · rintro - _ rfl
    refine Completes.bind (completes_ask (o := .sendMail _) fun c => ⟨c.mailSent, _, rfl, ?_⟩)
      fun _ m hm => completes_ret hm
    split
    · exact ⟨_, .inr rfl, rfl⟩
    · exact ⟨_, .inl rfl, rfl⟩

/-! ## The membership file -/

/-- The work dir has been pulled, and nothing else has happened since. -/
theorem pullWorkDir_completes (hs : Sound false Feature.bare (fun _ => False) w) (pod : ℕ) :
    Completes (fun _ m => Sound false Feature.bare (fun _ => False) m ∧ m.row = w.row ∧
      ∀ f, (m.disk pod).content f = w.foundFile pod f) (ask (.pullWorkDir pod)) w := by
  refine completes_ask (o := .pullWorkDir pod) fun c => ⟨(), _, rfl, ?_, rfl, fun f => ?_⟩
  · exact hs.exec_tame (o := .pullWorkDir pod) { time := c.time } rfl
  · rw [World.pulled, setDisk_disk_self, Files.content_pull rfl, World.foundFile]

theorem transformCsv_cases (text : String) (epsg : ℤ) :
    (∃ data, transformCsv text epsg = pure data) ∨
      ∃ e : Err, e.endsUpload = true ∧ transformCsv text epsg = raise e := by
  have hread : ∀ {β : Type} (error : String → Err) (result : Except String β)
      (f : β → App (List Point)), (∀ message, (error message).endsUpload = true) →
      (∀ b, (∃ data, f b = pure data) ∨ ∃ e : Err, e.endsUpload = true ∧ f b = raise e) →
      (∃ data, (orRaise error result >>= f) = pure data) ∨
        ∃ e : Err, e.endsUpload = true ∧ (orRaise error result >>= f) = raise e := by
    intro β error result f herror hf
    rcases result with message | b
    · exact .inr ⟨_, herror message, rfl⟩
    · exact hf b
  unfold transformCsv readTable
  simp only [bind_assoc, pure_bind]
  refine hread _ _ _ (fun _ => rfl) fun delimiter => hread _ _ _ (fun _ => rfl) fun hasHeader =>
    hread _ _ _ (fun _ => rfl) fun table => ?_
  generalize (if hasHeader then table else _) = df
  rcases coordColumns hasHeader df with _ | ⟨x, y⟩
  · exact .inr ⟨_, rfl, rfl⟩
  dsimp only
  rcases x.2.numbers? with _ | xs
  · exact .inr ⟨_, rfl, rfl⟩
  rcases y.2.numbers? with _ | ys
  · exact .inr ⟨_, rfl, rfl⟩
  · exact .inl ⟨_, rfl⟩

omit [External] in
theorem loadFile_completes {f : FileName} {doc : f.Doc}
    (h : (w.disk here.pod).content f = some (.whole doc)) :
    Completes (fun a m => m = w ∧ a = doc) (loadFile here f) w := by
  obtain ⟨e, he, hcontent⟩ := Option.map_eq_some_iff.1 h
  refine Completes.bind (F := fun b m => m = w ∧ b = .whole doc)
    (completes_ask (o := .readFile here.pod f) fun c => ⟨_, w, ?_, rfl, hcontent⟩) ?_
  · simp only [perform, World.file, he]
    rfl
  · rintro _ _ ⟨rfl, rfl⟩
    exact completes_ret ⟨rfl, rfl⟩

theorem transformMembership_found {text : String}
    (hfile : (w.disk here.pod).content .memberships = some (.whole text))
    (htext : transformCsv text epsg = pure data) :
    Completes (fun a m => m = w ∧ a = data) (CosmonautJob.transformMembership here epsg) w := by
  refine Completes.bind (loadFile_completes hfile) ?_
  rintro _ _ ⟨rfl, rfl⟩
  rw [htext]
  exact completes_ret ⟨rfl, rfl⟩

/-- The positions are those of the file, or whatever is wrong with it ends the upload. -/
theorem transformMembership_reads :
    Undisturbed ways (fun e m => m = w ∧ e.endsUpload = true)
      (fun data m => m = w ∧ ∃ text, (w.disk here.pod).content .memberships = some (.whole text) ∧
        transformCsv text epsg = pure data)
      (CosmonautJob.transformMembership here epsg) w := by
  have hread : Undisturbed ways (fun e m => m = w ∧ e.endsUpload = true)
      (fun b m => m = w ∧ (w.disk here.pod).content .memberships = some b)
      (ask (.readFile here.pod .memberships)) w := by
    refine keeping_call (M := answering ways) (o := .readFile here.pod .memberships)
      (fun c b m h => ⟨trivial, ?_⟩) fun c f m h => ⟨trivial, ?_⟩
    all_goals
      rw [answering_exec] at h
      obtain ⟨e, he, hr⟩ | ⟨-, hr⟩ := file_cases h
    · cases hr
      exact ⟨rfl, by rw [Files.content, he]; rfl⟩
    · cases hr
    · cases hr
    · cases hr
      exact ⟨rfl, rfl⟩
  refine Undisturbed.bind (hread.bind (G := fun text m => m = w ∧
    (w.disk here.pod).content .memberships = some (.whole text)) fun b m hb => ?_) ?_
  · obtain ⟨rfl, hb⟩ := hb
    rcases b with _ | text
    · exact undisturbed_raise ⟨rfl, rfl⟩
    · exact (completes_ret ⟨rfl, hb⟩).undisturbed
  · rintro text _ ⟨rfl, htext⟩
    obtain ⟨data, hdata⟩ | ⟨e, he, hraised⟩ := transformCsv_cases text epsg
    · rw [hdata]
      exact (completes_ret ⟨rfl, text, htext, hdata⟩).undisturbed
    · rw [hraised]
      exact undisturbed_raise ⟨rfl, he⟩

/-! ## The task -/

/-- The query writes the street files, and leaves the row alone. -/
theorem runOsmQuery_undisturbed (hs : Sound false Feature.bare (fun _ => False) w)
    (hr : w.row = some r) :
    Undisturbed ways (fun _ _ => False) (fun _ m => Sound false Feature.bare (fun _ => False) m ∧
      m.row = some r ∧ NetworkFiles osm ways (m.disk here.pod)) (runOsmQuery here osm) w := by
  have hquery : Answers ways Feature.bare _ (runOsmQuery here osm) w := runOsmQuery_answers hs
  have hcalls : Asks (fun o => o.writesRow = false) (runOsmQuery here osm) :=
    (runOsmQuery_calls (P := fun o => o.writesRow = false)
      (fun o ho => by cases o <;> first | rfl | cases ho) rfl osm).always
  have hframe := hquery.frame (J := fun m : World => m.row = some r) hcalls
    (fun c hc d (m : World) (hm : m.row = some r) => (exec_row_of_not_writesRow hc).trans hm) hr
  refine wp.mono hframe fun res m hres => ⟨trivial, ?_⟩
  rcases res with e | u
  · exact hres.2.elim
  · obtain ⟨⟨hsound, hrow⟩, hdownload, hedited, htransformed⟩ := hres
    exact ⟨hsound, hrow, hdownload, hedited, htransformed⟩

theorem NetworkFiles.upload {d d' : Files} (h : NetworkFiles osm ways d) :
    NetworkFiles osm ways (d.upload d' fun _ => true) where
  download := Files.content_upload h.download
  edited := Files.content_upload h.edited
  transformed := Files.content_upload h.transformed

/-- **The task downloads the roads**, and records the end of the upload. -/
theorem downloadRoads_found {task : Message}
    (hs : Sound false Feature.bare (fun _ => False) w) (hr : w.row = some r)
    (howner : r.columns.membershipUpload.streetProcessing = some (.task task.id))
    (hfound : FindsArea here.pod epsg w osm) :
    Undisturbed ways (fun _ _ => False) (fun _ m => NetworkFiles osm ways m.stored ∧
      m.row = some (r.endUpload .completed
        (some (StreetFile.sha256 .download (.whole (downloaded osm ways))))))
      (downloadRoads here task epsg) w := by
  obtain ⟨text, hfile, data, htext, hosm⟩ := hfound
  refine Undisturbed.bind (pullWorkDir_completes hs here.pod).undisturbed ?_
  rintro - m₁ ⟨hs₁, hrow₁, hdisk₁⟩
  refine Undisturbed.bind (transformMembership_found ((hdisk₁ _).trans hfile) htext).undisturbed ?_
  rintro _ _ ⟨rfl, rfl⟩
  rw [hosm, pure_bind]
  refine Undisturbed.bind (runOsmQuery_undisturbed hs₁ (hrow₁.trans hr)) ?_
  rintro - m₂ ⟨hs₂, hrow₂, hnetwork⟩
  have hsum : Settles false Feature.bare (fun _ => False) False _ (fileSha256 here .download) m₂ :=
    fileSha256_settles hs₂ fun hno => ne_none_of_content hnetwork.download hno
  refine Undisturbed.bind hsum.answers.undisturbed ?_
  rintro sum m₃ ⟨-, honly, b, hb, rfl⟩
  obtain rfl := Option.some.inj (hb.symm.trans hnetwork.download)
  refine Undisturbed.bind (F := fun _ m => m = m₃.uploaded here.pod fun _ => true)
    (completes_ask (o := .uploadWorkDir here.pod) fun c => ⟨(), _, rfl, rfl⟩).undisturbed ?_
  rintro - _ rfl
  have hrow₃ : (m₃.uploaded here.pod fun _ => true).row = some r := honly.row.trans hrow₂
  refine Undisturbed.bind (load_completes hrow₃).undisturbed ?_
  rintro job _ ⟨rfl, rfl⟩
  refine Undisturbed.bind (writeIfOwner_completes hrow₃ howner _).undisturbed ?_
  rintro written _ rfl
  refine (completes_ret ⟨?_, rfl⟩).undisturbed
  have hnetwork₃ : NetworkFiles osm ways (m₃.disk here.pod) :=
    { download := (honly.content (by simp)).trans hnetwork.download
      edited := (honly.content (by simp)).trans hnetwork.edited
      transformed := (honly.content (by simp)).trans hnetwork.transformed }
  exact hnetwork₃.upload

/-- No positions can be read from the membership file, or they span no area: the task raises an
exception. -/
theorem downloadRoads_unreadable {task : Message}
    (hs : Sound false Feature.bare (fun _ => False) w)
    (hno : ¬ ∃ osm, FindsArea here.pod epsg w osm) :
    Undisturbed ways (fun e m => m.row = w.row ∧ e.endsUpload = true) (fun _ _ => False)
      (downloadRoads here task epsg) w := by
  refine Undisturbed.bind (pullWorkDir_completes hs here.pod).undisturbed ?_
  rintro - m₁ ⟨-, hrow₁, hdisk₁⟩
  refine Undisturbed.bind (transformMembership_reads.mono (fun e m _ h => ?_) fun _ _ _ h => h) ?_
  · exact ⟨by rw [h.1, hrow₁], h.2⟩
  · rintro data _ ⟨rfl, text, htext, hdata⟩
    refine Undisturbed.bind (F := fun _ _ => False) ?_ fun _ _ hfalse => hfalse.elim
    rcases hhull : External.convexHull (data.map Prod.swap) with message | polygon
    · rw [OsmDownloader.new, hhull]
      exact undisturbed_raise ⟨hrow₁, rfl⟩
    · refine absurd ⟨⟨polygon, epsg⟩, text, (hdisk₁ _).symm.trans htext, data, hdata, ?_⟩ hno
      rw [OsmDownloader.new, hhull]
      rfl

theorem processUploadTask_found {task : Message}
    (hs : Sound false Feature.bare (fun _ => False) w) (hr : w.row = some r)
    (howner : r.columns.membershipUpload.streetProcessing = some (.task task.id))
    (hfound : FindsArea here.pod epsg w osm) :
    Undisturbed ways (fun _ _ => False) (fun _ m => NetworkFiles osm ways m.stored ∧
      m.row = some (r.endUpload .completed
        (some (StreetFile.sha256 .download (.whole (downloaded osm ways))))))
      (processUploadTask here task epsg) w := by
  refine Undisturbed.bind (load_completes hr).undisturbed ?_
  rintro job _ ⟨rfl, rfl⟩
  exact Keeping.tryCatch (downloadRoads_found hs hr howner hfound) fun _ _ _ hfalse => hfalse.elim

/-- **An undisturbed upload task ends the upload.** From every world that the app has led to, the
task that owns the upload of the row ends it COMPLETED, with the network of the ways in the object
storage and the checksum of its download in the row, if the worker finds a membership file of which
positions can be read that span an area, and else FAILED. -/
theorem upload_task_ends {task : Message} (h : Reached false w) (hr : w.row = some r)
    (howner : r.columns.membershipUpload.streetProcessing = some (.task task.id))
    {out : Except Err Unit}
    (hends : (processUploadTask here task epsg).Ends (answering ways) w out w') :
    (∃ osm, FindsArea here.pod epsg w osm ∧ out = .ok () ∧
      NetworkFiles osm ways w'.stored ∧ w'.row = some (r.endUpload .completed
        (some (StreetFile.sha256 .download (.whole (downloaded osm ways)))))) ∨
    (¬ ∃ osm, FindsArea here.pod epsg w osm) ∧ (∃ e, out = .error e) ∧
      w'.row = some (r.endUpload .failed
        r.columns.membershipUpload.backfill.downloadSha256) := by
  by_cases hfound : ∃ osm, FindsArea here.pod epsg w osm
  · obtain ⟨osm, hosm⟩ := hfound
    have htask : Undisturbed ways _ _ (processUploadTask here task epsg) w :=
      processUploadTask_found h.sound_bare hr howner hosm
    obtain ⟨-, hout⟩ := htask.ends hends
    rcases out with e | u
    · exact hout.elim
    · exact .inl ⟨osm, hosm, rfl, hout⟩
  · have htask : Undisturbed ways (fun _ m => m.row = some (r.endUpload .failed
        r.columns.membershipUpload.backfill.downloadSha256)) (fun _ _ => False)
          (processUploadTask here task epsg) w := by
      refine Undisturbed.bind (load_completes hr).undisturbed ?_
      rintro job _ ⟨rfl, rfl⟩
      refine Keeping.tryCatch (downloadRoads_unreadable h.sound_bare hfound) ?_
      rintro e m - ⟨hrow, he⟩
      have hfail : Undisturbed ways (fun _ m => m.row = some (r.endUpload .failed
          r.columns.membershipUpload.backfill.downloadSha256)) (fun _ _ => False)
            (do failUpload task.id e; (raise e : App Unit)) m :=
        Undisturbed.bind (failUpload_completes (hrow.trans hr) howner e).undisturbed fun _ m hm =>
          undisturbed_raise (by obtain ⟨mails, -, rfl⟩ := hm; rfl)
      split
      · rename_i hkilled
        rw [hkilled] at he
        cases he
      · dsimp only
        split
        · cases he
        · cases he
        · exact hfail
    obtain ⟨-, hout⟩ := htask.ends hends
    rcases out with e | u
    · exact .inr ⟨hfound, ⟨e, rfl⟩, hout⟩
    · exact hout.elim

omit [External]

/-! ## A task on an uploaded table -/

/-- A membership table is stored, and the task 7 owns its upload. -/
def worldUploaded : World :=
  let _ := External.plain
  { World.fresh (.ofModel (withStreetProcessing .blank (.task 7))) with
    stored := Files.write (fun _ => none) .memberships ⟨.whole plainTable, 0, none⟩ }

theorem worldUploaded_other (place : Place) {f : FileName} (hf : f ≠ .memberships) :
    worldUploaded.copy place f = none := by
  cases place with
  | none => exact Files.write_other (fun _ => none) .memberships f _ hf
  | some pod => rfl

theorem worldUploaded_origin : Origin worldUploaded where
  records place records h := by
    rw [Files.content, worldUploaded_other place (by simp)] at h
    cases h
  whole place f hf h := by
    have hother : f ≠ .memberships := by
      rintro rfl
      cases hf
    rw [Files.content, worldUploaded_other place hother] at h
    cases h
  memory _ := ⟨fun _ => rfl, fun _ => rfl⟩

def residentialWay : Way := { compositeWay with tags := [("highway", "residential")] }

/-- Overpass answers one residential road. -/
def answerResidential : (answering [residentialWay]).Choice :=
  ⟨⟨{ ways := [residentialWay] }, .inl rfl⟩, rfl⟩

/-- What the task leaves then. -/
def endedUpload : Except Err Unit × World :=
  let _ := External.plain
  (processUploadTask ⟨1, 0, none⟩ ⟨7, .upload 25832, 0⟩ 25832).runWith (answering [residentialWay])
    answerResidential [] worldUploaded

/-- The table has eleven rows, and every position lies in its area. -/
theorem endedUpload_completed :
    let _ := External.plain
    endedUpload.1 = .ok () ∧
      NetworkFiles ⟨fun _ => true, 25832⟩ [residentialWay] endedUpload.2.stored ∧
      endedUpload.2.row.map (·.columns.membershipUpload.streetProcessing) =
        some (some .completed) := by
  intro _
  have hends : (processUploadTask ⟨1, 0, none⟩ ⟨7, .upload 25832, 0⟩ 25832).Ends
    (answering [residentialWay]) worldUploaded endedUpload.1 endedUpload.2 := ends_runWith _ _ _ _
  rcases upload_task_ends (.start worldUploaded_origin) rfl rfl hends with
    ⟨osm, hfinds, hout, hnetwork, hrow⟩ | ⟨hno, -, -⟩
  · obtain ⟨text, -, data, htext, hosm⟩ := hfinds
    obtain rfl := ret.inj htext
    obtain rfl := ret.inj hosm
    exact ⟨hout, hnetwork, by rw [hrow]; rfl⟩
  · exact absurd ⟨_, plainTable, rfl, _, rfl, rfl⟩ hno

end Cosmonaut
