import Cosmonaut.Street.MadeCurrent
import Cosmonaut.Street.Sharing

/-!
# Records of a work dir that processes share

Any number of processes derive and project on one work dir at once, each for an intent of its own.

* `RecordsVouch`: a record that matches the bytes of its file names the source they are derived
  from, and the freshness test accepts nothing else.
* `records_vouch_when`: it holds in every state of a run in which no other process comes between the
  writing of a file and its checksum.
* `record_of_anothers_file`: a process takes the checksum of what another one has written, and the
  record vouches for it.
-/

namespace Cosmonaut

open Interleaving Program

variable [External]

/-! ## The processes -/

/-- What a process is at. -/
inductive StreetTask
  /-- An edit: the intent goes to the row, and the files are derived. -/
  | edit (sel : StreetSelector) (downloadSha256 : Option Sha256) (deferProjection : Bool)
  /-- `_derive`. -/
  | derive (sel : StreetSelector) (downloadSha256 : Option Sha256) (deferProjection : Bool)
  /-- `_project`. -/
  | project (sel : StreetSelector) (refs : List ℕ) (source : Source)

def StreetTask.program (here : Site) : StreetTask → App Unit
  | .edit sel downloadSha256 defer => do
    if ← CosmonautJob.updateInput sel.job [.streetEdits] then
      let _ ← sel.deriveFiles here downloadSha256 defer
    else
      raise .jobNotPending
  | .derive sel downloadSha256 defer => do
    let _ ← sel.deriveFiles here downloadSha256 defer
  | .project sel refs source => sel.project here refs source

/-- What the callers see to: the checksum is the download's, and the objects to project are roads
that the source keeps of it. -/
def StreetTask.Posed (look : Feature → Feature) (download : List Feature) (w : World)
    (here : Site) :
    StreetTask → Prop
  | .edit _ downloadSha256 _ | .derive _ downloadSha256 _ =>
    downloadSha256 = some (StreetFile.sha256 .download (.whole download))
  | .project sel refs source => source.epsg = sel.job.epsg ∧ Valid (w.memoryOf here).heap refs ∧
    ∃ kept, source.Network kept ∧ (objects (w.memoryOf here).heap refs).map look = kept.map look

/-- The tasks in their processes. -/
abbrev streetPool (w : World) (tasks : List (Site × StreetTask)) : Pool machine Err Unit :=
  ⟨w, tasks.map fun t => t.2.program t.1⟩

/-- The processes share a pod's work dir with this download, and what they are at is posed. -/
structure SharedStart (look : Feature → Feature) (pod : ℕ) (download : List Feature) (w : World)
    (tasks : List (Site × StreetTask)) : Prop where
  sound : Sound true look (fun _ => True) w
  local_download : (w.disk pod).content (.street .download) = some (.whole download)
  posed : ∀ t ∈ tasks, t.1.pod = pod ∧ t.2.Posed look download w t.1

/-! ## What the records vouch for -/

/-- A record that matches the bytes of its file names the source they are derived from, and so does
the source for which the freshness test accepts a file. -/
structure RecordsVouch (look : Feature → Feature) (pod : ℕ) (w : World) : Prop where
  vouch : ∀ s source b, (w.disk pod).content (.street s) = some b →
    w.recordsOn pod s = some (.built source (s.sha256 b)) →
    ∃ doc, b = .whole doc ∧ Derived look source s doc
  accepts : ∀ (here : Site) s source w', here.pod = pod →
    (StreetSelector.isCurrent here s source).Ends machine w (.ok true) w' →
    ∃ doc, (w.disk pod).content (.street s) = some (.whole doc) ∧ Derived look source s doc

variable {look : Feature → Feature} {download : List Feature} {w w' : World} {here : Site} {pod : ℕ}
  {s : StreetFile}

omit [External] in
theorem ask_ends {o : Op} {a : o.Ans} (h : (ask o : App o.Ans).Ends machine w (.ok a) w') :
    ∃ c, perform o c w = (.ok a, w') := by
  obtain ⟨c, hc⟩ := h.call_ok
  have hexec : exec o c w = perform o c w := exec_ok (congrArg Prod.fst hc)
  exact ⟨c, hexec.symm.trans hc⟩

omit [External] in
theorem readFile_ends {f : FileName} {b : Bytes f.Doc}
    (h : (ask (.readFile here.pod f) : App _).Ends machine w (.ok b) w') :
    w' = w ∧ (w.disk here.pod).content f = some b := by
  obtain ⟨c, hc⟩ := ask_ends h
  rcases file_cases hc with ⟨e, he, hr⟩ | ⟨-, hr⟩
  · obtain ⟨hb, rfl⟩ := Prod.mk.inj hr
    refine ⟨rfl, ?_⟩
    rw [Files.content, he, Except.ok.inj hb]
    rfl
  · cases hr

omit [External] in
theorem loadFile_ends {f : FileName} {doc : f.Doc}
    (h : (loadFile here f).Ends machine w (.ok doc) w') :
    w' = w ∧ (w.disk here.pod).content f = some (.whole doc) := by
  obtain ⟨b, m, hb, h⟩ := h.bind_ok
  obtain ⟨rfl, hcontent⟩ := readFile_ends hb
  cases b with
  | torn => cases h
  | whole doc' =>
    obtain ⟨hdoc, rfl⟩ := ends_ret.1 h
    obtain rfl := Except.ok.inj hdoc
    exact ⟨rfl, hcontent⟩

omit [External] in
theorem records_ends {records : Records}
    (h : (StreetSelector.records here).Ends machine w (.ok records) w') :
    w' = w ∧ records = w.recordsOn here.pod := by
  obtain ⟨a, m, ha, h⟩ := h.bind_ok
  obtain ⟨c, hc⟩ := ask_ends ha
  obtain ⟨hexists, rfl⟩ := Prod.mk.inj hc
  split at h
  · obtain ⟨rfl, hrecords⟩ := loadFile_ends h
    exact ⟨rfl, by rw [World.recordsOn, hrecords]⟩
  · rename_i hno
    obtain ⟨hrecords, rfl⟩ := ends_ret.1 h
    have hnone : w'.disk here.pod .derivedHashes = none := by
      rw [← Option.not_isSome_iff_eq_none, Except.ok.inj hexists]
      exact hno
    refine ⟨rfl, ?_⟩
    rw [World.recordsOn, Files.content, hnone]
    exact Except.ok.inj hrecords

/-- A checksum is that of the content, where the cache is true. -/
theorem fileSha256_ends (h : Shared look pod download w) {a : Sha256}
    (hends : (fileSha256 here s).Ends machine w (.ok a) w') :
    ∃ b, (w.disk here.pod).content (.street s) = some b ∧ a = s.sha256 b := by
  obtain ⟨stat, m, hstat, hends⟩ := hends.bind_ok
  obtain ⟨c, hc⟩ := ask_ends hstat
  rcases file_cases hc with ⟨e, he, hr⟩ | ⟨-, hr⟩
  case inr => cases hr
  obtain ⟨hmtime, rfl⟩ := Prod.mk.inj hr
  obtain rfl := Except.ok.inj hmtime
  have hcontent : (m.disk here.pod).content (.street s) = some e.content := by
    rw [Files.content, he]
    rfl
  obtain ⟨cached, m', hcached, hends⟩ := hends.bind_ok
  obtain ⟨c', hc'⟩ := ask_ends hcached
  obtain ⟨hsums, rfl⟩ := Prod.mk.inj hc'
  split at hends
  · rename_i mtime checksum hfilter
    obtain ⟨hsome, hsame⟩ := Option.filter_eq_some_iff.1 hfilter
    obtain rfl : mtime = e.mtime := of_decide_eq_true hsame
    obtain ⟨ha, -⟩ := ends_ret.1 hends
    refine ⟨e.content, hcontent, ?_⟩
    rw [Except.ok.inj ha]
    exact h.checksums _ s _ _ ((Except.ok.inj hsums).trans hsome)
  · obtain ⟨b, m'', hb, hrest⟩ := hends.bind_ok
    obtain ⟨rfl, hcontent'⟩ := readFile_ends hb
    obtain ⟨-, m₃, -, hret⟩ := hrest.bind_ok
    obtain ⟨ha, -⟩ := ends_ret.1 hret
    exact ⟨b, hcontent', Except.ok.inj ha⟩

theorem Shared.vouched (h : Shared look pod download w) {source : Source} {b : Bytes s.Doc}
    (hrecord : w.recordsOn pod s = some (.built source (s.sha256 b))) :
    ∃ doc, b = .whole doc ∧ Derived look source s doc := by
  obtain ⟨doc, hsha, hderived⟩ := h.records s source _ hrecord
  exact ⟨doc, s.sha256_injective hsha, hderived⟩

theorem Shared.accepted (h : Shared look here.pod download w) {source : Source}
    (hends : (StreetSelector.isCurrent here s source).Ends machine w (.ok true) w') :
    ∃ doc, (w.disk here.pod).content (.street s) = some (.whole doc) ∧
      Derived look source s doc := by
  obtain ⟨a, m, ha, hends⟩ := hends.bind_ok
  obtain ⟨c, hc⟩ := ask_ends ha
  obtain ⟨-, rfl⟩ := Prod.mk.inj hc
  split at hends
  case isFalse =>
    obtain ⟨hno, -⟩ := ends_ret.1 hends
    cases hno
  obtain ⟨records, m', hrecords, hends⟩ := hends.bind_ok
  obtain ⟨rfl, rfl⟩ := records_ends hrecords
  split at hends
  · rename_i record hrecord
    obtain ⟨checksum, m'', hsum, hends⟩ := hends.bind_ok
    obtain ⟨b, hb, rfl⟩ := fileSha256_ends h hsum
    obtain ⟨htrue, -⟩ := ends_ret.1 hends
    obtain rfl : record = .built source (s.sha256 b) :=
      of_decide_eq_true (Except.ok.inj htrue).symm
    obtain ⟨doc, rfl, hderived⟩ := h.vouched hrecord
    exact ⟨doc, hb, hderived⟩
  · obtain ⟨hno, -⟩ := ends_ret.1 hends
    cases hno

theorem Shared.recordsVouch (h : Shared look pod download w) : RecordsVouch look pod w := by
  constructor
  · intro s source b _ hrecord
    exact h.vouched hrecord
  · rintro here s source w' rfl hends
    exact h.accepted hends

/-! ## Runs -/

theorem SharedStart.shared {tasks : List (Site × StreetTask)}
    (h : SharedStart look pod download w tasks) : Shared look pod download w where
  download := h.local_download
  records := h.sound.truthful pod
  checksums := h.sound.checksums
  features process mtime refs hm := h.sound.features process .download mtime refs hm

theorem program_shares (hlook : ∀ f g, look f = look g → SameRoad f g) {task : StreetTask}
    (h : task.Posed look download w here) :
    SharesDir look here.pod download (fun _ _ _ => True) (task.program here) [] w := by
  cases task with
  | edit sel downloadSha256 defer =>
    refine (shares_ask (o := .updateInput (sel.job.columns [.streetEdits])) (F := fun _ _ _ => True)
      (fun _ _ => trivial) fun _ _ _ _ _ _ _ _ => trivial).bind ?_
    rintro a past w' - -
    split
    · refine (deriveFiles_shares hlook h).bind ?_
      rintro - past' w'' - -
      exact abides_ret trivial
    · exact abides_throw
  | derive sel downloadSha256 defer =>
    refine (deriveFiles_shares hlook h).bind ?_
    rintro - past' w'' - -
    exact abides_ret trivial
  | project sel refs source =>
    obtain ⟨hepsg, hrefs, kept, hnetwork, hroads⟩ := h
    exact project_shares hepsg hnetwork hrefs hroads

/-- **Records vouch for what they were built from**, however many processes share the work dir, as
long as none takes the checksum of a file it has rewritten after another one has put other content
there. -/
theorem records_vouch_when (hlook : ∀ f g, look f = look g → SameRoad f g)
    {tasks : List (Site × StreetTask)} (hstart : SharedStart look pod download w tasks)
    {es : List (Event machine)} {p' : Pool machine Err Unit} (hrun : Run (streetPool w tasks) es p')
    (hundisturbed : ∀ l e r, es = l ++ e :: r →
      undisturbed (callsOf e.thread l) e.call.op e.before = true) :
    RecordsVouch look pod p'.world := by
  refine (hrun.abides (L := sharing look pod download) hstart.shared (fun prog hprog => ?_)
    hundisturbed).1.recordsVouch
  obtain ⟨t, ht, rfl⟩ := List.mem_map.1 hprog
  obtain ⟨hpod, hposed⟩ := hstart.posed t ht
  rw [← hpod]
  exact program_shares hlook hposed

/-- Whatever the interleaving, the records vouch for what they were built from. -/
def RecordsAlwaysVouch : Prop :=
  ∀ look : Feature → Feature, (∀ f g, look f = look g → SameRoad f g) →
    ∀ pod download w (tasks : List (Site × StreetTask)), SharedStart look pod download w tasks →
    ∀ es p', Run (streetPool w tasks) es p' → RecordsVouch look pod p'.world

omit [External]

/-! ## Two edits -/

/-- The job of `rowNaming`, with an intent. -/
def selectorWith (download : List Feature) (edits : StreetEdits) : StreetSelector :=
  let _ := External.plain
  ⟨.ofRow (rowNaming download), edits⟩

/-- The process `proc` edits on the download, to this intent. -/
def editAs (proc : ℕ) (download : List Feature) (edits : StreetEdits) : Site × StreetTask :=
  (⟨0, proc, none⟩, .edit (selectorWith download edits)
    (some (StreetFile.sha256 .download (.whole download))) true)

/-- One process removes the only road, the other one keeps it. -/
def twoEdits : List (Site × StreetTask) := [
  editAs 0 [residentialRoad] { removedRoads := [1] }, editAs 1 [residentialRoad] {}]

/-- The download lies on the pod's disk. -/
def worldHolding (download : List Feature) : World :=
  { World.fresh (rowNaming download) with
    disk := fun _ => Files.write (fun _ => none) (.street .download) ⟨.whole download, 0, none⟩ }

theorem worldHolding_other (download : List Feature) (place : Place) {f : FileName}
    (hf : f ≠ .street .download) : (worldHolding download).copy place f = none := by
  cases place with
  | none => rfl
  | some pod => exact Files.write_other (fun _ => none) (.street .download) f _ hf

theorem sharedStart_twoEdits [External] (look : Feature → Feature) :
    SharedStart look 0 [residentialRoad] (worldHolding [residentialRoad]) twoEdits where
  sound :=
    { records := fun place records h => by
        rw [Files.content, worldHolding_other _ place (by simp)] at h
        cases h
      checksums := fun _ _ _ _ h => by cases h
      features := fun _ _ _ _ h => by cases h
      legible := fun _ _ _ => trivial
      whole := fun place f hf h => by
        by_cases hfd : f = .street .download
        · subst hfd
          cases place with
          | none => cases h
          | some pod =>
            have hwhole : some (Bytes.whole [residentialRoad]) = some Bytes.torn :=
              (content_write_self (fun _ => none) _).symm.trans h
            cases hwhole
        · rw [Files.content, worldHolding_other _ place hfd] at h
          cases h }
  local_download := content_write_self (fun _ => none) _
  posed := by
    intro t ht
    rcases List.mem_cons.1 ht with rfl | ht
    · exact ⟨rfl, rfl⟩
    · obtain rfl := List.mem_singleton.1 ht
      exact ⟨rfl, rfl⟩

/-- The assumption on a run, event by event. -/
theorem undisturbed_of_all {es : List (Event machine)}
    (h : ∀ i < es.length, (es[i]?.all fun e =>
      undisturbed (callsOf e.thread (es.take i)) e.call.op e.before) = true) :
    ∀ l e r, es = l ++ e :: r → undisturbed (callsOf e.thread l) e.call.op e.before = true := by
  rintro l e r rfl
  have hl := h l.length (by simp)
  simpa using hl

/-- The one edit after the other. -/
theorem records_vouch_one_by_one :
    let _ := External.plain
    RecordsVouch id 0 ((streetPool (worldHolding [residentialRoad]) twoEdits).play
      (usually (List.replicate 19 0 ++ List.replicate 22 1))).2.world := by
  intro _
  refine records_vouch_when (fun f g h => by rw [SameRoad, show f = g from h])
    (sharedStart_twoEdits id) (Run.of_play _ _)
    (undisturbed_of_all ?_)
  decide +kernel

/-- The second process saves its network before the first one takes the checksum of its own. -/
def lateChecksumSchedule : List (ℕ × Choice) :=
  usually ([1] ++ List.replicate 13 0 ++ List.replicate 10 1 ++ List.replicate 6 0)

/-- **A record vouches for another process's file**: the row and the record name the intent without
the road, and the file has the road. -/
theorem record_of_anothers_file : ¬ @RecordsAlwaysVouch External.plain := by
  intro h
  let _ := External.plain
  have hvouch := h Feature.bare sameRoad_of_bare 0 [residentialRoad] _ twoEdits
    (sharedStart_twoEdits Feature.bare) _ _
    (Run.of_play lateChecksumSchedule (streetPool (worldHolding [residentialRoad]) twoEdits))
  obtain ⟨doc, hdoc, kept, ⟨download, hdownload, hkept⟩, hlook⟩ := hvouch.vouch .edited
    ((selectorWith [residentialRoad] { removedRoads := [1] }).source
      (some (StreetFile.sha256 .download (.whole [residentialRoad]))))
    (.whole [residentialRoad]) (by decide +kernel) (by decide +kernel)
  obtain rfl := Bytes.whole.inj hdoc
  obtain rfl := Bytes.whole.inj (StreetFile.sha256_injective .download (Option.some.inj hdownload))
  have hempty : derive (selectorWith [residentialRoad] { removedRoads := [1] }).edits
    [residentialRoad] = some [] := by decide +kernel
  obtain rfl : kept = [] := Option.some.inj (hkept.symm.trans hempty)
  cases hlook

end Cosmonaut
