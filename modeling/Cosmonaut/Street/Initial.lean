import Cosmonaut.Street.MadeCurrent

/-!
# The initial network

The download worker writes the edited network and the routing input of an unedited job itself. The
street selector derives them from the download with the default intent.

* `answering`: the machine on which Overpass answers with given ways.
* `runOsmQuery_answers`: what the worker writes.
* `initial_agrees_iff`: both agree exactly when the worker keeps some way, and only ways of the
  highway types that the default intent selects.
* `composite_highway_disagrees`: an answer for which they do not.
-/

namespace Cosmonaut

open Interleaving Program

/-! ## The query -/

/-- `HIGHWAY_TYPES`. -/
def highwayTypes : List String := [
  "motorway", "trunk", "primary", "secondary", "tertiary", "unclassified", "residential",
  "living_street", "track"]

/-- The highway tag of a way. -/
def Way.highway (way : Way) : String := (way.tags.lookup "highway").getD ""

/-- The way matches the query: the regex of the highway types, which is not anchored. -/
def Way.Matches (way : Way) : Prop := ∃ t ∈ highwayTypes, t.toList <:+: way.highway.toList

/-- The machine on which nothing fails and Overpass answers the ways. -/
abbrev answering (ways : List Way) : Machine sig :=
  (steady false).restrict fun c => c.1.ways = ways

instance (ways : List Way) : Nonempty (answering ways).Choice :=
  ⟨⟨⟨{ ways }, .inl rfl⟩, rfl⟩⟩

variable [External]

/-- The features of the ways. -/
def downloaded (osm : OsmDownloader) (ways : List Way) : List Feature :=
  ways.filterMap (wayToFeature osm.polygon)

/-- The features without the tracks of other grades than the default ones. -/
def initiallyEdited (osm : OsmDownloader) (ways : List Way) : List Feature :=
  (downloaded osm ways).filter fun f => trackGradeAllowed f.properties defaultTrackGrades

/-- Where Overpass answers the ways, the call ends in a sound world, with `F` of what it returns. -/
abbrev Answers {α : Type} (ways : List Way) (look : Feature → Feature) (F : α → World → Prop)
    (p : App α) (w : World) : Prop :=
  Keeping (M := answering ways) (Sound false look fun _ => False) (fun _ _ => False) F p w

variable {α : Type} {ways : List Way} {look : Feature → Feature} {w w' : World} {here : Site}
  {osm : OsmDownloader}

theorem Settles.answers {F : α → World → Prop} {p : App α}
    (h : Settles false look (fun _ => False) False F p w) : Answers ways look F p w := by
  refine (Keeping.restrict h).mono (fun e w' _ he => ?_) fun _ _ _ h => h
  rcases he with ⟨-, hfalse⟩ | hfalse
  · cases hfalse
  · exact hfalse

theorem answers_streamWays (hs : Sound false look (fun _ => False) w) :
    Answers ways look (fun a w' => w' = w ∧ a = ways) (ask .streamWays) w := by
  have hexec : ∀ c : (answering ways).Choice,
    (answering ways).exec .streamWays c w = (.ok ways, w) := by
    intro c
    have hways : c.1.1.ways = ways := c.2
    rcases steady_exec_cases .streamWays c.1 w with hc | ⟨hfalse, -⟩
    · exact hc.trans (by rw [perform, hways])
    · cases hfalse
  refine keeping_call (M := answering ways) (o := .streamWays) (fun c a w' h => ?_)
    fun c f w' h => ?_
  · rw [hexec] at h
    obtain ⟨ha, rfl⟩ := Prod.mk.inj h
    exact ⟨hs, rfl, (Except.ok.inj ha).symm⟩
  · rw [hexec] at h
    cases h

/-- What is written between opening and renaming a street file. -/
theorem withWriter_answers (hs : Sound false look (fun _ => False) w) {s : StreetFile}
    {body : App (s.Doc × α)} {F : s.Doc → α → World → Prop}
    (hbody : ∀ w₁, Sound false look (fun _ => False) w₁ →
      Answers ways look (fun r w₂ => F r.1 r.2 w₂) body w₁) :
    Answers ways look (fun a w' => ∃ doc w₂, F doc a w₂ ∧
      (∀ f, f ≠ .streetTmp s → f ≠ .street s → w'.disk here.pod f = w₂.disk here.pod f) ∧
      (w'.disk here.pod).content (.street s) = some (.whole doc)) (withWriter here s body) w := by
  refine (settles_openFile hs rfl).answers.bind ?_
  rintro - w₁ hs₁ -
  refine (Keeping.tryCatch (hbody w₁ hs₁) fun e _ _ h => h.elim).bind ?_
  rintro ⟨doc, a⟩ w₂ hs₂ hF
  refine (settles_writeFile (f := .streetTmp s) hs₂ doc rfl).answers.bind ?_
  rintro - w₃ hs₃ ⟨time, rfl⟩
  have hreplace : Settles false look (fun _ => False) False _ (ask (.replaceFile here.pod s)) _ :=
    settles_replaceFile hs₃ (by rw [setDisk_disk_self, Files.write_self]) rfl
  apply hreplace.answers.bind
  rintro - w₄ hs₄ rfl
  refine keeping_ret hs₄ ⟨doc, w₂, hF, fun f htmp hf => ?_, ?_⟩
  · rw [setDisk_disk_self, Files.write_other _ _ _ _ hf, Files.remove_other _ _ _ htmp,
      setDisk_disk_self, Files.write_other _ _ _ _ htmp]
  · rw [setDisk_disk_self]
    exact content_write_self _ _

/-- **What the worker writes** for the ways. -/
theorem runOsmQuery_answers (hs : Sound false look (fun _ => False) w) :
    Answers ways look (fun _ w' =>
      (w'.disk here.pod).content (.street .download) = some (.whole (downloaded osm ways)) ∧
      (w'.disk here.pod).content (.street .edited) = some (.whole (initiallyEdited osm ways)) ∧
      (w'.disk here.pod).content (.street .transformed) = some (.whole ⟨some osm.epsgOutput,
        (initiallyEdited osm ways).map (projectFeature 4326 osm.epsgOutput)⟩))
      (runOsmQuery here osm) w := by
  refine (withWriter_answers hs (s := .download)
    (F := fun download _ w' => download = downloaded osm ways ∧
    (w'.disk here.pod).content (.street .edited) = some (.whole (initiallyEdited osm ways)) ∧
    (w'.disk here.pod).content (.street .transformed) = some (.whole ⟨some osm.epsgOutput,
        (initiallyEdited osm ways).map (projectFeature 4326 osm.epsgOutput)⟩))
    fun w₁ hs₁ => ?_).mono (fun _ _ _ h => h) ?_
  · refine (withWriter_answers hs₁ (s := .edited)
      (F := fun edited r w' => edited = initiallyEdited osm ways ∧
      r.1 = downloaded osm ways ∧
      (w'.disk here.pod).content (.street .transformed) = some (.whole ⟨some osm.epsgOutput,
        (initiallyEdited osm ways).map (projectFeature 4326 osm.epsgOutput)⟩))
      fun w₂ hs₂ => ?_).mono (fun _ _ _ h => h) ?_
    · refine (withWriter_answers hs₂ (s := .transformed)
        (F := fun doc r _ => doc = ⟨some osm.epsgOutput,
          (initiallyEdited osm ways).map (projectFeature 4326 osm.epsgOutput)⟩ ∧
        r.1 = initiallyEdited osm ways ∧ r.2.1 = downloaded osm ways) fun w₃ hs₃ => ?_).mono
        (fun _ _ _ h => h) ?_
      · refine (answers_streamWays hs₃).bind ?_
        rintro a w₄ hs₄ ⟨rfl, rfl⟩
        exact keeping_ret hs₄ ⟨rfl, rfl, rfl⟩
      · rintro ⟨edited, download, u⟩ w' - ⟨doc, w₄, ⟨rfl, hedited, hdownload⟩, -, hdoc⟩
        exact ⟨hedited, hdownload, hdoc⟩
    · rintro ⟨download, u⟩ w' - ⟨edited, w₃, ⟨rfl, hdownload, htransformed⟩, hother, hdoc⟩
      refine ⟨hdownload, hdoc, ?_⟩
      rw [Files.content, hother _ (by simp) (by simp)]
      exact htransformed
  · rintro u w' - ⟨download, w₂, ⟨rfl, hedited, htransformed⟩, hother, hdoc⟩
    refine ⟨hdoc, ?_, ?_⟩
    · rw [Files.content, hother _ (by simp) (by simp)]
      exact hedited
    · rw [Files.content, hother _ (by simp) (by simp)]
      exact htransformed

/-! ## The two initial networks -/

/-- Two works dirs hold the same edited network and the same routing input, as far as `look` and
`lookInput` show them. -/
def SameNetwork (look : Feature → Feature) (lookInput : RoutingInput → RoutingInput)
    (d d' : Files) :
    Prop :=
  (∃ roads roads', d.content (.street .edited) = some (.whole roads) ∧
    d'.content (.street .edited) = some (.whole roads') ∧ roads'.map look = roads.map look) ∧
  ∃ doc doc', d.content (.street .transformed) = some (.whole doc) ∧
    d'.content (.street .transformed) = some (.whole doc') ∧ lookInput doc' = lookInput doc

/-- The initial networks agree for the ways: once the worker has written its files, a
derivation with the default intent writes the same ones, in any process of the pod. -/
def InitialAgrees (look : Feature → Feature) (lookInput : RoutingInput → RoutingInput) (here : Site)
    (osm : OsmDownloader) (ways : List Way) (w : World) : Prop :=
  ∀ (here' : Site) (sel : StreetSelector) (m m' : World) (any : Bool), here'.pod = here.pod →
    sel.edits = {} → sel.job.epsg = osm.epsgOutput →
    (runOsmQuery here osm).Ends (answering ways) w (.ok ()) m →
    (sel.deriveFiles here' (downloadSum ((m.disk here.pod).content (.street .download))) false).Ends
      (steady false) m (.ok any) m' →
    SameNetwork look lookInput (m.disk here.pod) (m'.disk here.pod)

/-- The worker keeps the way: some of it lies in the area, in one piece, and its grade is one of the
default ones. -/
def Way.Kept (osm : OsmDownloader) (way : Way) : Prop :=
  ∃ f, wayToFeature osm.polygon way = some f ∧
    trackGradeAllowed f.properties defaultTrackGrades = true

/-- The worker keeps some way, and only ways of the highway types of the default intent. -/
def DefaultTypesOnly (osm : OsmDownloader) (ways : List Way) : Prop :=
  (∀ way ∈ ways, way.Kept osm →
    way.highway ∈ osmHighwayTypes ({} : StreetEdits).selectedRoadTags) ∧
    ∃ way ∈ ways, way.Kept osm

omit [External] in
theorem wayToFeature_highway {inside : Point → Bool} {way : Way} {f : Feature}
    (h : wayToFeature inside way = some f) : f.properties.highway = way.highway := by
  unfold wayToFeature at h
  split at h
  · split at h
    · obtain rfl := Option.some.inj h
      rfl
    · cases h
  · cases h

omit [External] in
theorem mem_initiallyEdited {f : Feature} : f ∈ initiallyEdited osm ways ↔
    ∃ way ∈ ways, wayToFeature osm.polygon way = some f ∧
      trackGradeAllowed f.properties defaultTrackGrades = true := by
  rw [initiallyEdited, List.mem_filter, downloaded, List.mem_filterMap]
  constructor
  · rintro ⟨⟨way, hway, hf⟩, hgrade⟩
    exact ⟨way, hway, hf, hgrade⟩
  · rintro ⟨way, hway, hf, hgrade⟩
    exact ⟨⟨way, hway, hf⟩, hgrade⟩

omit [External] in
theorem defaultTypesOnly_iff : DefaultTypesOnly osm ways ↔
    (∀ f ∈ initiallyEdited osm ways,
      f.properties.highway ∈ osmHighwayTypes ({} : StreetEdits).selectedRoadTags) ∧
    initiallyEdited osm ways ≠ [] := by
  refine and_congr ⟨fun h f hf => ?_, fun h way hway hkept => ?_⟩ ⟨?_, fun h => ?_⟩
  · obtain ⟨way, hway, hfeature, hgrade⟩ := mem_initiallyEdited.1 hf
    rw [wayToFeature_highway hfeature]
    exact h way hway ⟨f, hfeature, hgrade⟩
  · obtain ⟨f, hfeature, hgrade⟩ := hkept
    rw [← wayToFeature_highway hfeature]
    exact h f (mem_initiallyEdited.2 ⟨way, hway, hfeature, hgrade⟩)
  · rintro ⟨way, hway, f, hfeature, hgrade⟩
    exact List.ne_nil_of_mem (mem_initiallyEdited.2 ⟨way, hway, hfeature, hgrade⟩)
  · obtain ⟨f, hf⟩ := List.exists_mem_of_ne_nil _ h
    obtain ⟨way, hway, hfeature, hgrade⟩ := mem_initiallyEdited.1 hf
    exact ⟨way, hway, f, hfeature, hgrade⟩

/-- What the worker keeps, of the highway types of the default intent. -/
def initiallySelected (osm : OsmDownloader) (ways : List Way) : List Feature :=
  (initiallyEdited osm ways).filter fun f =>
    f.properties.highway ∈ osmHighwayTypes ({} : StreetEdits).selectedRoadTags

theorem derive_default (osm : OsmDownloader) (ways : List Way) :
    derive {} (downloaded osm ways) = some (initiallySelected osm ways) := by
  have hkept : (downloaded osm ways).filter (fun f => ({} : StreetEdits).keeps f) =
      initiallySelected osm ways := by
    rw [initiallySelected, initiallyEdited, List.filter_filter]
    apply List.filter_congr
    intro f _
    simp [StreetEdits.keeps]
  simp only [derive, deriveBy, id, hkept]
  rfl

/-- A view of routing inputs that goes with the view of features. -/
structure Views (look : Feature → Feature) (lookInput : RoutingInput → RoutingInput) : Prop where
  sameRoad : ∀ f g, look f = look g → SameRoad f g
  projected : ∀ {epsg : ℤ} {roads kept : List Feature}, roads.map look = kept.map look →
    lookInput (projectRoads epsg roads) = lookInput (projectRoads epsg kept)
  crs : ∀ doc doc', lookInput doc = lookInput doc' → doc.crs = doc'.crs

theorem views_bare : Views Feature.bare RoutingInput.bare where
  sameRoad := sameRoad_of_bare
  projected h := projectRoads_bare h
  crs doc doc' h := by
    have hcrs : doc.bare.crs = doc'.bare.crs := congrArg RoutingInput.crs h
    exact hcrs

theorem views_id : Views id id where
  sameRoad _ _ h := congrArg Feature.bare h
  projected h := by
    rw [List.map_id, List.map_id] at h
    rw [h]
  crs _ _ h := congrArg RoutingInput.crs h

/-- What a derivation with the default intent leaves after the worker. -/
theorem deriveFiles_after_query {lookInput : RoutingInput → RoutingInput}
    (hviews : Views look lookInput) (hs : Sound false look (fun _ => False) w)
    (hdownload : (w.disk here.pod).content (.street .download) =
      some (.whole (downloaded osm ways)))
    {sel : StreetSelector} (hedits : sel.edits = {}) (hepsg : sel.job.epsg = osm.epsgOutput) :
    Settles false look (fun _ => False) False (fun _ w' =>
      (∃ roads, (w'.disk here.pod).content (.street .edited) = some (.whole roads) ∧
        roads.map look = (initiallySelected osm ways).map look) ∧
      ∃ doc, (w'.disk here.pod).content (.street .transformed) = some (.whole doc) ∧
        lookInput doc = lookInput (projectRoads osm.epsgOutput (initiallySelected osm ways)))
      (sel.deriveFiles here
        (downloadSum ((w.disk here.pod).content (.street .download))) false) w := by
  rw [hdownload]
  refine (deriveFiles_settles hviews.sameRoad hs (hs.legible rfl (some here.pod)) (fun hno => ?_)
    fun download hdownload' => ?_).mono (fun _ _ _ h => h) ?_
  · exact absurd hno (ne_none_of_content hdownload)
  · rw [← hdownload, hdownload']
    rfl
  rintro any w' hs' ⟨-, download, kept, hdownload', -, -, -, hedited, htransformed⟩
  have hnetwork : ∀ kept, (sel.source (some (StreetFile.sha256 .download
      (.whole (downloaded osm ways))))).Network kept → kept = initiallySelected osm ways := by
    intro kept hkept
    have hderive := network_of_sum rfl hkept
    rw [StreetSelector.source, hedits, derive_default, Option.some.injEq] at hderive
    exact hderive.symm
  constructor
  · obtain ⟨roads, hroads, kept, hkept, hlook⟩ := hs'.derived hedited
    exact ⟨roads, hroads, by rw [hlook, hnetwork kept hkept]⟩
  · obtain ⟨doc, hdoc, kept, roads, hkept, hlook, rfl⟩ := hs'.derived (htransformed rfl)
    refine ⟨_, hdoc, ?_⟩
    rw [← hnetwork kept hkept, ← hepsg]
    exact hviews.projected hlook

theorem initialAgrees_iff {lookInput : RoutingInput → RoutingInput} (hviews : Views look lookInput)
    (hs : Sound false look (fun _ => False) w) :
    InitialAgrees look lookInput here osm ways w ↔ DefaultTypesOnly osm ways := by
  rw [defaultTypesOnly_iff]
  have hquery : Answers ways look _ (runOsmQuery here osm) w := runOsmQuery_answers hs
  constructor
  · intro hagrees
    -- some run of the worker, and some derivation after it
    obtain ⟨res, m, hrun⟩ := exists_ends (M := answering ways) (runOsmQuery here osm) w
    obtain ⟨hm, hout⟩ := hquery.ends hrun
    rcases res with e | u
    · exact hout.elim
    obtain ⟨hdownload, hedited, htransformed⟩ := hout
    have hsettles : Settles false look _ False _ (StreetSelector.deriveFiles here
        ⟨{ JobModel.blank with epsg := osm.epsgOutput }, {}⟩ _ false) m :=
      deriveFiles_after_query hviews hm hdownload rfl rfl
    obtain ⟨res, m', hderive⟩ := exists_ends (M := steady false) (StreetSelector.deriveFiles here
      ⟨{ JobModel.blank with epsg := osm.epsgOutput }, {}⟩
      (downloadSum ((m.disk here.pod).content (.street .download))) false) m
    obtain ⟨-, hout⟩ := hsettles.ends hderive
    rcases res with e | any
    · rcases hout with ⟨-, hfalse⟩ | hfalse
      · cases hfalse
      · exact hfalse.elim
    obtain ⟨⟨roads, hroads, hlook⟩, doc, hdoc, hinput⟩ := hout
    obtain ⟨⟨e, e', he, he', hsame⟩, t, t', ht, ht', hsame'⟩ :=
      hagrees here _ m m' any rfl rfl rfl hrun hderive
    obtain rfl := Bytes.whole.inj (Option.some.inj (hedited.symm.trans he))
    obtain rfl := Bytes.whole.inj (Option.some.inj (hroads.symm.trans he'))
    obtain rfl := Bytes.whole.inj (Option.some.inj (htransformed.symm.trans ht))
    obtain rfl := Bytes.whole.inj (Option.some.inj (hdoc.symm.trans ht'))
    constructor
    · have hlength := congrArg List.length (hlook.symm.trans hsame)
      rw [List.length_map, List.length_map, initiallySelected,
        List.length_filter_eq_length_iff] at hlength
      exact fun f hf => of_decide_eq_true (hlength f hf)
    · intro hnil
      have hnone : initiallySelected osm ways = [] := by
        rw [initiallySelected, hnil, List.filter_nil]
      rw [hnone, projectRoads, if_pos rfl] at hinput
      cases hviews.crs _ _ (hinput.symm.trans hsame')
  · rintro ⟨hknown, hne⟩ here' sel m m' any hpod hedits hepsg hrun hderive
    obtain ⟨hm, hdownload, hedited, htransformed⟩ := hquery.ends hrun
    rw [← hpod] at hdownload hedited htransformed hderive ⊢
    obtain ⟨-, ⟨roads, hroads, hlook⟩, doc, hdoc, hinput⟩ :=
      (deriveFiles_after_query hviews hm hdownload hedits hepsg).ends hderive
    have hall : initiallySelected osm ways = initiallyEdited osm ways :=
      List.filter_eq_self.2 fun f hf => decide_eq_true (hknown f hf)
    rw [hall] at hlook hinput
    rw [projectRoads, if_neg hne] at hinput
    exact ⟨⟨_, roads, hedited, hroads, hlook⟩, _, doc, htransformed, hdoc, hinput⟩

/-- **The worker and the street selector agree on the initial network** exactly when the worker
keeps some way, and only ways of the highway types of the default intent. From any reached state
they agree up to tooltips, and in full where no record or cache has any. -/
theorem initial_agrees_iff (h : Reached false w) (here : Site) (osm : OsmDownloader)
    (ways : List Way) :
    (InitialAgrees Feature.bare RoutingInput.bare here osm ways w ↔
      DefaultTypesOnly osm ways) ∧
    (Sound false id (fun _ => False) w →
      (InitialAgrees id id here osm ways w ↔ DefaultTypesOnly osm ways)) :=
  ⟨initialAgrees_iff views_bare h.sound_bare, initialAgrees_iff views_id⟩

/-- The initial networks agree for every membership table and every answer to the query. -/
def InitialNetworksAgree : Prop :=
  ∀ (here : Site) (data : List Point) (epsg : ℤ) (osm : OsmDownloader) (ways : List Way)
    (w : World), OsmDownloader.new data epsg = pure osm → Reached false w →
    (∀ way ∈ ways, way.Matches) → InitialAgrees Feature.bare RoutingInput.bare here osm ways w

/-! ## A composite highway value -/

omit [External]

/-- The positions of a membership table, and a downloader around them. -/
def threePositions : List Point := [(0, 0), (0, 1), (1, 1)]

def downloaderAround : OsmDownloader := ⟨fun _ => true, 25832⟩

theorem downloaderAround_new :
    let _ := External.plain
    OsmDownloader.new threePositions 25832 = pure downloaderAround := rfl

/-- A way that is both a residential road and a track. -/
def compositeWay : Way where
  id := 1
  nodes := [10, 11]
  geometry := [(0, 0), (0, 1)]
  tags := [("highway", "residential;track")]

/-- The worker and the selector agree on a residential road. -/
theorem initial_agrees_once :
    let _ := External.plain
    OsmDownloader.new threePositions 25832 = pure downloaderAround ∧
      InitialAgrees Feature.bare RoutingInput.bare ⟨0, 0, none⟩ downloaderAround
        [{ compositeWay with tags := [("highway", "residential")] }] (worldStoring []) := by
  intro _
  refine ⟨downloaderAround_new, ((initial_agrees_iff (.start (worldStoring_origin [])) ⟨0, 0, none⟩
    downloaderAround _).1).2 ⟨fun way hway _ => ?_, _, List.mem_singleton_self _, ?_⟩⟩
  · obtain rfl := List.mem_singleton.1 hway
    decide +kernel
  · exact ⟨_, rfl, by decide +kernel⟩

/-- **A composite highway value passes the query and the worker, but not the default intent.** -/
theorem composite_highway_disagrees : ¬ @InitialNetworksAgree External.plain := by
  intro h
  let _ := External.plain
  have hagrees := h ⟨0, 0, none⟩ threePositions 25832 downloaderAround [compositeWay]
    (worldStoring []) downloaderAround_new (.start (worldStoring_origin [])) ?_
  · have hknown := (initialAgrees_iff views_bare
      (Reached.start (worldStoring_origin [])).sound_bare).1
      hagrees
    have hhighway := hknown.1 compositeWay (List.mem_singleton_self _) ⟨_, rfl, by decide +kernel⟩
    exact absurd hhighway (by decide +kernel)
  · intro way hway
    obtain rfl := List.mem_singleton.1 hway
    exact ⟨"track", by decide, by decide +kernel⟩

end Cosmonaut
