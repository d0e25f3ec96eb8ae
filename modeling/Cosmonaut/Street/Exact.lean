import Cosmonaut.Street.Current

/-!
# Files without tooltips

The derived files of a work dir are exact if they hold what their sources stand for, tooltips
included: none of the features has any.

* `Exact`, `Untouched`: exact contents, and a work dir whose files and records are exact.
* `Op.Spares`: the operations that keep the work dir so, and `Spares` the judgement for programs.
-/

namespace Cosmonaut

open Interleaving Program

/-- No road carries a tooltip. -/
def Plain (roads : List Feature) : Prop := ∀ f ∈ roads, f.properties.tooltip = none

theorem Plain.of_subset {roads roads' : List Feature} (h : Plain roads) (hsub : roads' ⊆ roads) :
    Plain roads' := fun f hf => h f (hsub hf)

theorem Plain.map_bare {roads : List Feature} (h : Plain roads) :
    roads.map Feature.bare = roads := by
  refine (List.map_congr_left fun f hf => ?_).trans (List.map_id roads)
  obtain ⟨id, coordinates, properties, hnodes⟩ := f
  obtain ⟨osmid, name, highway, nodes, tracktype, ref, oneway, tags, tooltip⟩ := properties
  obtain rfl : tooltip = none := h _ hf
  rfl

/-- Lists of roads without tooltips are the same if they are up to tooltips. -/
theorem Plain.eq {roads roads' : List Feature} (h : Plain roads) (h' : Plain roads')
    (hbare : roads.map Feature.bare = roads'.map Feature.bare) : roads = roads' := by
  rw [← h.map_bare, hbare, h'.map_bare]

theorem derive_subset [External] {edits : StreetEdits} {roads kept : List Feature}
    (h : derive edits roads = some kept) : kept ⊆ roads :=
  deriveBy_subset h

/-! ## Exact contents -/

variable [External] {pod : ℕ} {here : Site} {w w' : World} {c : Choice} {source : Source}
  {roads kept download : List Feature}

/-- The file holds exactly what is derived from the source, whose download has no tooltips. -/
def Exact (source : Source) (s : StreetFile) (doc : s.Doc) : Prop :=
  Derived id source s doc ∧ ∃ download,
    source.downloadSha256 = some (StreetFile.sha256 .download (.whole download)) ∧ Plain download

theorem exact_edited (hdownload : Plain download)
    (hsum : source.downloadSha256 = some (StreetFile.sha256 .download (.whole download)))
    (hkept : derive source.intent download = some kept) : Exact source .edited kept :=
  ⟨⟨kept, ⟨download, hsum, hkept⟩, rfl⟩, download, hsum, hdownload⟩

/-- Exact roads are roads of the download. -/
theorem Exact.subset (h : Exact source .edited roads) : ∃ download,
    source.downloadSha256 = some (StreetFile.sha256 .download (.whole download)) ∧
      Plain download ∧ derive source.intent download = some roads := by
  obtain ⟨⟨kept, ⟨download, hsum, hkept⟩, hroads⟩, download', hsum', hplain⟩ := h
  rw [hsum, Option.some.injEq] at hsum'
  obtain rfl := Bytes.whole.inj (StreetFile.sha256_injective .download hsum')
  rw [List.map_id, List.map_id] at hroads
  exact ⟨download, hsum, hplain, hroads ▸ hkept⟩

theorem Exact.plain (h : Exact source .edited roads) : Plain roads := by
  obtain ⟨download, -, hplain, hkept⟩ := h.subset
  exact hplain.of_subset (derive_subset hkept)

/-- The projection of exact roads is exact. -/
theorem Exact.project (h : Exact source .edited roads) :
    Exact source .transformed (projectRoads source.epsg roads) := by
  obtain ⟨⟨kept, hkept, hroads⟩, hdownload⟩ := h
  exact ⟨⟨kept, roads, hkept, hroads, rfl⟩, hdownload⟩

/-- Every record is of an exact content. -/
def ExactRecords (records : Records) : Prop :=
  ∀ s source sha256, records s = some (.built source sha256) →
    ∃ doc, sha256 = s.sha256 (.whole doc) ∧ Exact source s doc

theorem ExactRecords.drop {records : Records} (h : ExactRecords records) (s : StreetFile) :
    ExactRecords (Function.update records s none) := by
  intro t source sha256 ht
  by_cases hts : t = s
  · subst hts
    rw [Function.update_self] at ht
    cases ht
  · rw [Function.update_of_ne hts] at ht
    exact h t source sha256 ht

theorem ExactRecords.record {records : Records} (h : ExactRecords records) {s : StreetFile}
    {doc : s.Doc} (hd : Exact source s doc) : ExactRecords
      (Function.update records s (some (.built source (s.sha256 (.whole doc))))) := by
  intro t source' sha256 ht
  by_cases hts : t = s
  · subst hts
    rw [Function.update_self, Option.some.injEq, Record.built.injEq] at ht
    obtain ⟨rfl, rfl⟩ := ht
    exact ⟨doc, rfl, hd⟩
  · rw [Function.update_of_ne hts] at ht
    exact h t source' sha256 ht

/-- No view has left a trace in the pod's work dir: the downloads it can have are without tooltips,
and the derived files and their records are exact. -/
structure Untouched (pod : ℕ) (w : World) : Prop where
  stored : ∀ d, w.stored.content (.street .download) = some (.whole d) → Plain d
  download : ∀ d, (w.disk pod).content (.street .download) = some (.whole d) → Plain d
  derived : ∀ s doc, s ≠ .download → (w.disk pod).content (.street s) = some (.whole doc) →
    ∃ source, Exact source s doc
  records : ∀ records, (w.disk pod).content .derivedHashes = some (.whole records) →
    ExactRecords records

theorem Untouched.recordsOn (h : Untouched pod w) : ExactRecords (w.recordsOn pod) := by
  unfold World.recordsOn
  split
  · rename_i records hrecords
    exact h.records records hrecords
  · intro s source sha256 hrec
    cases hrec

/-- **What is vouched for is exact.** -/
theorem Untouched.vouched (h : Untouched pod w) {s : StreetFile} (hv : Vouched w pod s source) :
    ∃ doc, (w.disk pod).content (.street s) = some (.whole doc) ∧ Exact source s doc := by
  obtain ⟨doc, hdoc, hrec⟩ := hv
  obtain ⟨doc', hsha, hexact⟩ := h.recordsOn s source _ hrec
  obtain rfl : doc = doc' := Bytes.whole.inj (s.sha256_injective hsha)
  exact ⟨doc, hdoc, hexact⟩

/-! ## What keeps the files exact -/

/-- What is written to a derived file or to its record file is exact, and so is what is renamed; the
downloads come from storage. -/
def Op.Spares (w : World) : Op → Prop
  | .updateColumns _ | .updateInput _ | .fileExists .. | .mtime .. | .readFile .. => True
  | .openFile .. | .deleteFiles .. => True
  | .cachedChecksum .. | .cacheChecksum .. | .cachedFeatures .. | .cacheFeatures .. => True
  | .newFeatures .. | .getFeatures .. | .addTooltips .. => True
  | .pullFile _ f => f = .street .download
  | .writeFile _ (.street s) doc => ∃ source, Exact source s doc
  | .writeFile _ (.streetTmp _) _ => True
  | .writeFile _ .derivedHashes records => ExactRecords records
  | .replaceFile q s => ∀ doc, (w.disk q).content (.streetTmp s) = some (.whole doc) →
    ∃ source, Exact source s doc
  | _ => False

/-- Files may go, and be cut off. -/
theorem Untouched.of_contents (h : Untouched pod w)
    (hstored : ∀ d, w'.stored.content (.street .download) = some (.whole d) →
      w.stored.content (.street .download) = some (.whole d))
    (hstreet : ∀ s doc, (w'.disk pod).content (.street s) = some (.whole doc) →
      (w.disk pod).content (.street s) = some (.whole doc))
    (hrecords : ∀ records, (w'.disk pod).content .derivedHashes = some (.whole records) →
      (w.disk pod).content .derivedHashes = some (.whole records)) : Untouched pod w' :=
  ⟨fun d hd => h.stored d (hstored d hd), fun d hd => h.download d (hstreet .download d hd),
    fun s doc hs hd => h.derived s doc hs (hstreet s doc hd),
    fun records hr => h.records records (hrecords records hr)⟩

theorem Untouched.of_disk (h : Untouched pod w) (hstored : w'.stored = w.stored)
    (hdisk : w'.disk pod = w.disk pod) : Untouched pod w' :=
  h.of_contents (fun d => by rw [hstored]; exact id) (fun s doc => by rw [hdisk]; exact id)
    fun records => by rw [hdisk]; exact id

/-- A write to one of the pod's files. -/
theorem Untouched.write (h : Untouched pod w) (site : Site) {f : FileName} (e : Entry f)
    (he : ∀ doc, e.content = .whole doc → Op.Spares w (.writeFile site f doc)) :
    Untouched pod (w.setDisk site.pod ((w.disk site.pod).write f e)) := by
  generalize hsite : site.pod = q
  by_cases hq : q = pod
  case neg => exact h.of_disk rfl (setDisk_disk_of_ne hq)
  subst hq
  have hcontent : ∀ g doc, ((w.setDisk q ((w.disk q).write f e)).disk q).content g =
      some (.whole doc) → g ≠ f → (w.disk q).content g = some (.whole doc) := by
    intro g doc hg hgf
    rwa [setDisk_disk_self, Files.content, Files.write_other _ _ _ _ hgf] at hg
  have hself : ∀ doc, ((w.setDisk q ((w.disk q).write f e)).disk q).content f =
      some (.whole doc) → e.content = .whole doc := by
    intro doc hf
    rw [setDisk_disk_self, content_write_self] at hf
    exact Option.some.inj hf
  refine ⟨h.stored, fun d hd => ?_, fun s doc hs hd => ?_, fun records hr => ?_⟩
  · by_cases hf : .street .download = f
    · subst hf
      obtain ⟨source, ⟨⟩, -⟩ := he d (hself d hd)
    · exact h.download d (hcontent _ d hd hf)
  · by_cases hf : .street s = f
    · subst hf
      exact he doc (hself doc hd)
    · exact h.derived s doc hs (hcontent _ doc hd hf)
  · by_cases hf : .derivedHashes = f
    · subst hf
      exact he records (hself records hr)
    · exact h.records records (hcontent _ records hr hf)

theorem Untouched.pulled (h : Untouched pod w) {q : ℕ} {fs : FileName → Bool}
    (time : FileName → ℕ) (hfs : ∀ f, fs f = true → f = .street .download) :
    Untouched pod (w.pulled q fs time) := by
  by_cases hq : q = pod
  case neg => exact h.of_disk rfl (setDisk_disk_of_ne hq)
  subst hq
  have hother : ∀ f, f ≠ .street .download →
      ((w.pulled q fs time).disk q).content f = (w.disk q).content f := by
    intro f hf
    have hpull : fs f = false := by
      by_contra hne
      exact hf (hfs f (by simpa using hne))
    rw [World.pulled, setDisk_disk_self, Files.content, pull_other hpull, Files.content]
  refine ⟨h.stored, fun d hd => ?_, fun s doc hs hd => ?_, fun records hr => ?_⟩
  · rw [World.pulled, setDisk_disk_self] at hd
    rcases content_pull_cases (w.disk q) w.stored fs time (.street .download) with hc | hc
    · exact h.download d (hc.symm.trans hd)
    · exact h.stored d (hc.symm.trans hd)
  · refine h.derived s doc hs ((hother _ ?_).symm.trans hd)
    simpa using hs
  · exact h.records records ((hother _ (by simp)).symm.trans hr)

theorem Untouched.deleted (h : Untouched pod w) {q : ℕ} (fs fs' : FileName → Bool) :
    Untouched pod (w.deleted q fs fs') := by
  have hdisk : ∀ f (b : Bytes f.Doc), ((w.deleted q fs fs').disk pod).content f = some b →
      (w.disk pod).content f = some b := by
    intro f b hb
    by_cases hq : q = pod
    · subst hq
      exact content_delete
        ((congrArg (fun d : Files => d.content f) setDisk_disk_self).symm.trans hb)
    · exact (congrArg (fun d : Files => d.content f) (setDisk_disk_of_ne hq)).symm.trans hb
  exact h.of_contents (fun d hd => content_delete hd) (fun s doc => hdisk _ _)
    fun records => hdisk _ _

theorem Untouched.replaced (h : Untouched pod w) {q : ℕ} {s : StreetFile}
    (hs : Op.Spares w (.replaceFile q s)) : Untouched pod (perform (.replaceFile q s) c w).2 := by
  simp only [perform]
  split
  · rename_i e he
    have hremoved : Untouched pod (w.setDisk q ((w.disk q).remove (.streetTmp s))) := by
      by_cases hq : q = pod
      case neg => exact h.of_disk rfl (setDisk_disk_of_ne hq)
      subst hq
      refine h.of_contents (fun d hd => hd) (fun t doc hd => ?_) fun records hr => ?_
      · rwa [setDisk_disk_self, Files.content, Files.remove_other _ _ _ (by simp)] at hd
      · rwa [setDisk_disk_self, Files.content, Files.remove_other _ _ _ (by simp)] at hr
    have hwritten := hremoved.write ⟨q, 0, none⟩ (f := .street s)
      ⟨e.content, e.time, e.author⟩ fun doc hdoc => hs doc
      (by rw [Files.content, he]; exact congrArg some hdoc)
    rwa [setDisk_setDisk, setDisk_disk_self] at hwritten
  · exact h

theorem Op.Spares.interrupted {o : Op} (h : o.Spares w) (hw : Untouched pod w) :
    Untouched pod (interrupted o c w) := by
  cases o
  case pullFile q f =>
    apply hw.pulled _
    intro g hg
    have hgf : g = f := (by simpa using hg : _ ∧ _).1
    exact hgf.trans h
  case deleteFiles q fs => exact hw.deleted _ _
  all_goals first | exact hw | cases h

/-- **These operations keep the files exact.** -/
theorem Op.Spares.exec {o : Op} (h : o.Spares w) (hw : Untouched pod w) :
    Untouched pod (exec o c w).2 := by
  rcases hfault : o.fault c with _ | e
  case some =>
    rw [exec_of_fault hfault]
    exact h.interrupted hw
  rw [exec_of_no_fault hfault]
  cases o
  case pullFile q f => exact hw.pulled _ fun g hg => (of_decide_eq_true hg).trans h
  case deleteFiles q fs => exact hw.deleted _ _
  case openFile s f => exact hw.write _ _ nofun
  case writeFile s f doc =>
    apply hw.write _ _
    intro doc' hdoc
    obtain rfl := Bytes.whole.inj hdoc
    exact h
  case replaceFile q s => exact hw.replaced h
  case updateColumns =>
    simp only [perform, World.require]
    split <;> exact hw.of_disk rfl rfl
  case updateInput =>
    simp only [perform, World.update]
    split <;> (try split) <;> exact hw.of_disk rfl rfl
  all_goals first | exact hw.of_disk rfl rfl | cases h

end Cosmonaut
