import Cosmonaut.Geometry.Window
import Cosmonaut.Street.Network
import Cosmonaut.Street.Routing
import Mathlib.Algebra.Order.Ring.Rat

/-!
# What the street map shows

A map move makes the edited network current, marks its roads with tooltips and sends those in the
viewport to the browser, simplified for the zoom level. The panel beside the map lists the removed
roads.

* `Shapely`: what the selector uses of the geometry library.
* `viewportFeatures`, `viewportStreets`: the map move with what it returns; `viewportStreets_ends`
  relates it to the map move of the requests.
* `viewport_shows_network`: the map shows the roads of the row's network that meet the viewport.
* `shown_or_removed`: a road is on the map or in the panel, and never on both.
-/

namespace Cosmonaut

open Interleaving Program Geometry

/-! ## Display -/

/-- What the selector uses of `shapely`: the `intersects` query of an `STRtree`, which answers with
the positions of the lines that meet a box, each once and in no particular order, and `simplify`. -/
structure Shapely where
  query : List (List Point) → Window ℚ → List ℕ
  simplify : ℚ → List Point → List Point
  nodup_query : ∀ lines box, (query lines box).Nodup
  mem_query : ∀ lines box i, i ∈ query lines box ↔
    ∃ line, lines[i]? = some line ∧ (polyline line ∩ box.region).Nonempty

/-- A feature as the browser gets it: `_DISPLAY_PROPERTIES` only. -/
structure DisplayFeature where
  id : ℤ
  coordinates : List Point
  highway : String
  tooltip : Option String
  deriving DecidableEq

/-- `_zoom_to_tolerance`, in degrees. -/
def zoomToTolerance (zoom : ℚ) : ℚ :=
  if 15 ≤ zoom then 1 / 100000
  else if 13 ≤ zoom then 1 / 10000
  else if 11 ≤ zoom then 5 / 10000
  else if 9 ≤ zoom then 1 / 1000
  else 5 / 1000

/-- `_simplify_for_display`, of one feature. -/
def Feature.light (G : Shapely) (tolerance : ℚ) (f : Feature) : DisplayFeature :=
  ⟨f.id, G.simplify tolerance f.coordinates, f.properties.highway, f.properties.tooltip⟩

/-- Leaflet's bounds: south and west, north and east. -/
abbrev LeafletBounds := (ℚ × ℚ) × (ℚ × ℚ)

/-- `box(west, south, east, north)`. -/
def viewportBox (bounds : LeafletBounds) : Window ℚ where
  low := (min bounds.1.2 bounds.2.2, min bounds.1.1 bounds.2.1)
  high := (max bounds.1.2 bounds.2.2, max bounds.1.1 bounds.2.1)

section

variable [External]

namespace StreetSelector

/-- `visible_fc` without its simplification: the features of the edited network, with tooltips. -/
def visibleFeatures (here : Site) : App (List Feature) := do
  let refs ← loadEditFeatures here
  ask (.addTooltips here refs)
  ask (.getFeatures here refs)

/-- `viewport_fc`. A line of one position is no shape. -/
def viewportFeatures (G : Shapely) (here : Site) (sel : StreetSelector) (bounds : LeafletBounds)
    (zoom : ℚ) : App (List DisplayFeature) := do
  if (← refresh here sel).2 then
    let features ← visibleFeatures here
    let geometries := features.map (·.coordinates)
    if ∃ line ∈ geometries, line.length = 1 then
      raise .decode
    else
      let visible := (G.query geometries (viewportBox bounds)).filterMap (features[·]?)
      return visible.map fun f => f.light G (zoomToTolerance zoom)
  else
    return []

end StreetSelector

/-- `update_viewport_streets`. A zoom level of zero or none is taken for 10. -/
def viewportStreets (G : Shapely) (here : Site) (bounds : Option LeafletBounds)
    (zoom : Option ℚ) : App (List DisplayFeature) := do
  match bounds with
  | none => return []
  | some bounds =>
    let job ← Program.tryCatch (some <$> CosmonautJob.load)
      fun e => if e = .fault .jobNotFound then return none else raise e
    match job with
    | none => return []
    | some job =>
      let sel ← StreetSelector.new here job
      sel.viewportFeatures G here bounds ((zoom.filter (· ≠ 0)).getD 10)

/-- What the Street Selection page lists as removed once the street network is there. -/
def removedRoadsPanel (here : Site) (job : JobModel) : App (List (ℤ × String)) := do
  let sel ← StreetSelector.new here job
  let (sel, _) ← sel.refresh here
  sel.getRemovedRoadsInfo here

theorem showStreets_eq (here : Site) (job : JobModel) :
    showStreets here job = (do let _ ← removedRoadsPanel here job) := by
  simp only [showStreets, removedRoadsPanel, bind_assoc]

end

/-! ## Tooltips -/

/-- The feature as the map shows it. -/
def Feature.tooltipped (f : Feature) : Feature := f.withTooltip (some f.tooltipText)

theorem map_tooltipped {fs gs : List Feature} (h : fs.map Feature.bare = gs.map Feature.bare) :
    fs.map Feature.tooltipped = gs.map Feature.tooltipped := by
  have hbare : ∀ fs : List Feature,
      fs.map Feature.tooltipped = (fs.map Feature.bare).map Feature.tooltipped := by
    intro fs
    rw [List.map_map]
    rfl
  rw [hbare fs, h, ← hbare gs]

theorem objects_addTooltipsTo (refs : List ℕ) (heap : List Feature) :
    objects (addTooltipsTo refs heap) refs = (objects heap refs).map Feature.tooltipped := by
  rw [objects, objects, List.map_filterMap]
  apply List.filterMap_congr
  intro i hi
  rw [addTooltipsTo, List.getElem?_mapIdx]
  simp only [if_pos hi]
  rfl

/-! ## The viewport -/

/-- The feature as the browser gets it. -/
def Feature.shown (G : Shapely) (zoom : ℚ) (f : Feature) : DisplayFeature :=
  f.tooltipped.light G (zoomToTolerance zoom)

/-- The roads of a network that meet the viewport, as the browser gets them. -/
def networkShown (G : Shapely) (bounds : LeafletBounds) (zoom : ℚ) (network : List Feature) :
    List DisplayFeature :=
  (network.filter fun f => (viewportBox bounds).meets f.coordinates).map fun f =>
    f.shown G zoom

/-- The query finds what a test of every feature would find. -/
theorem Shapely.query_perm (G : Shapely) (features : List Feature) (box : Window ℚ) :
    ((G.query (features.map (·.coordinates)) box).filterMap (features[·]?)).Perm
      (features.filter fun f => box.meets f.coordinates) := by
  have hmeets : ∀ i, i ∈ G.query (features.map (·.coordinates)) box ↔
      i ∈ (List.range features.length).filter
        fun i => features[i]?.any fun f => box.meets f.coordinates := by
    intro i
    simp only [G.mem_query, List.getElem?_map, Option.map_eq_some_iff, List.mem_filter,
      List.mem_range, Option.any_eq_true]
    constructor
    · rintro ⟨-, ⟨f, hf, rfl⟩, hmeets⟩
      exact ⟨(List.getElem?_eq_some_iff.1 hf).1, f, hf, Window.meets_iff.2 hmeets⟩
    · rintro ⟨-, f, hf, hmeets⟩
      exact ⟨_, ⟨f, hf, rfl⟩, Window.meets_iff.1 hmeets⟩
  have hperm := ((List.perm_ext_iff_of_nodup (G.nodup_query _ _)
    (List.nodup_range.filter _)).2 hmeets).filterMap (features[·]?)
  refine hperm.trans (.of_eq ?_)
  have hall : (List.range features.length).filterMap (features[·]?) = features := by
    rw [List.range_eq_range']
    exact objects_new [] features
  conv_rhs => rw [← hall, List.filter_filterMap]
  rw [List.filterMap_filter]
  apply List.filterMap_congr
  intro i _
  rcases features[i]? with _ | f
  · rfl
  · simp [Option.filter]

variable [External] {crash : Bool} {torn : Place → Prop} {err : Prop} {w w' : World} {here : Site}
  {r : Row} {sel : StreetSelector} {G : Shapely} {bounds : LeafletBounds} {zoom : ℚ}
  {download : List Feature}

theorem visibleFeatures_settles (hs : Sound crash Feature.bare torn w) {roads : List Feature}
    (hroads : (w.disk here.pod).content (.street .edited) = some (.whole roads)) :
    Settles crash Feature.bare torn err (fun features _ => features = roads.map Feature.tooltipped)
      (StreetSelector.visibleFeatures here) w := by
  refine (cachedLoad_settles hs rfl (fun hno => absurd hno (ne_none_of_content hroads))
    fun ht => ?_).bind ?_
  · rw [hroads] at ht
    cases ht
  rintro refs w₁ hs₁ ⟨h₁, doc, hdoc, hshows, -⟩
  obtain rfl : roads = doc := Bytes.whole.inj (Option.some.inj (hroads.symm.trans hdoc))
  refine (settles_addTooltips Feature.bare_withTooltip hs₁ refs).bind ?_
  rintro - w₂ hs₂ rfl
  refine (settles_getFeatures hs₂ refs).mono (fun _ _ _ h => h) ?_
  rintro features w₃ - ⟨rfl, rfl⟩
  rw [memoryOf_setMemory, objects_addTooltipsTo]
  exact map_tooltipped hshows.objects.2

/-- The download that the row names, once a stored one without a name is adopted, is in storage, and
its roads are lines. -/
structure HasDownload (w : World) (pod : ℕ) (r : Row) (download : List Feature) : Prop where
  named : (w.sourceOf pod r).downloadSha256 =
    some (StreetFile.sha256 .download (.whole download))
  stored : w.stored.content (.street .download) = some (.whole download)
  lines : ∀ f ∈ download, f.coordinates.length ≠ 1

/-- After a refresh the edited network is what the intent keeps of the named download. -/
theorem Refreshed.network {sel' : StreetSelector} {current : Bool}
    (h : Refreshed here sel sel' current w w') (hs' : Sound crash Feature.bare torn w')
    (hnamed : w.adopted here.pod sel.job.membershipUpload =
      some (StreetFile.sha256 .download (.whole download)))
    (hstored : w.stored.content (.street .download) = some (.whole download)) :
    current = true ∧ ∃ kept roads, derive sel.edits download = some kept ∧
      (w'.disk here.pod).content (.street .edited) = some (.whole roads) ∧
      roads.map Feature.bare = kept.map Feature.bare := by
  obtain ⟨m, hadopted, -⟩ := h.adopted
  have hnamed' : sel'.job.named = some (StreetFile.sha256 .download (.whole download)) :=
    hadopted.named.trans hnamed
  have hfetched : w.fetched here.pod = some (.whole download) := by
    rw [World.fetched, hstored]
    rfl
  have htrue : current = true := by
    by_contra hfalse
    rcases h.unnamed (by simpa using hfalse) with hno | ⟨-, hno⟩
    · rw [hnamed'] at hno
      cases hno
    · rw [hfetched] at hno
      cases hno
  obtain ⟨-, sum, hvouched, hsum⟩ := h.current htrue
  have hsum' : sum = some (StreetFile.sha256 .download (.whole download)) := by
    rcases hsum with ⟨-, rfl⟩ | ⟨-, rfl⟩
    · exact hnamed'
    · rw [World.got]
      split
      · rename_i hlocal
        exact hlocal.trans hnamed'
      · rw [hfetched]
        rfl
  obtain ⟨roads, hroads, kept, hnetwork, hkept⟩ := hs'.derived hvouched
  refine ⟨htrue, kept, roads, ?_, hroads, hkept⟩
  have hderive : derive sel'.edits download = some kept := network_of_sum hsum' hnetwork
  rwa [h.edits] at hderive

theorem viewportFeatures_settles (hs : Sound false Feature.bare (fun _ => False) w)
    (hrow : w.row ≠ none)
    (hnamed : w.adopted here.pod sel.job.membershipUpload =
      some (StreetFile.sha256 .download (.whole download)))
    (hstored : w.stored.content (.street .download) = some (.whole download))
    (hlines : ∀ f ∈ download, f.coordinates.length ≠ 1) :
    Settles false Feature.bare (fun _ => False) False
      (fun shown _ => ∃ kept, derive sel.edits download = some kept ∧
        shown.Perm (networkShown G bounds zoom kept))
      (sel.viewportFeatures G here bounds zoom) w := by
  refine (refresh_settles sameRoad_of_bare hs (fun hno => hrow hno)
    fun ht _ => hs.legible rfl (some here.pod) ht).bind ?_
  rintro ⟨sel', current⟩ w₁ hs₁ hrefreshed
  obtain ⟨rfl, kept, roads, hkept, hroads, hbare⟩ := hrefreshed.network hs₁ hnamed hstored
  refine (visibleFeatures_settles hs₁ hroads).bind ?_
  rintro features w₂ hs₂ rfl
  rw [map_tooltipped hbare]
  dsimp only
  split
  · rename_i hpoint
    obtain ⟨line, hline, hlength⟩ := hpoint
    rw [List.map_map] at hline
    obtain ⟨f, hf, rfl⟩ := List.mem_map.1 hline
    exact absurd hlength (hlines f (deriveBy_subset hkept hf))
  · refine settles_ret hs₂ ⟨kept, hkept, ?_⟩
    refine ((G.query_perm _ _).map _).trans (.of_eq ?_)
    rw [List.filter_map, List.map_map]
    rfl

theorem viewportFeatures_unnamed (hs : Sound false Feature.bare (fun _ => False) w)
    (hrow : w.row ≠ none) (hnamed : w.adopted here.pod sel.job.membershipUpload = none) :
    Settles false Feature.bare (fun _ => False) False (fun shown _ => shown = [])
      (sel.viewportFeatures G here bounds zoom) w := by
  refine (refresh_settles sameRoad_of_bare hs (fun hno => hrow hno)
    fun ht _ => hs.legible rfl (some here.pod) ht).bind ?_
  rintro ⟨sel', current⟩ w₁ hs₁ hrefreshed
  obtain ⟨m, hadopted, -⟩ := hrefreshed.adopted
  rcases current with _ | _
  · exact settles_ret hs₁ rfl
  · exact absurd (hadopted.named.trans hnamed) (hrefreshed.current rfl).1

/-! ## Map moves -/

theorem settles_tryLoad (hs : Sound crash Feature.bare torn w) (hr : w.row = some r) :
    Settles crash Feature.bare torn err (fun job w' => w' = w ∧ job = some (.ofRow r))
      (Program.tryCatch (some <$> CosmonautJob.load)
        fun e => if e = .fault .jobNotFound then return none else raise e) w := by
  have hload : Settles crash Feature.bare torn False
      (fun job w' => w' = w ∧ job = some (JobModel.ofRow r)) (some <$> CosmonautJob.load) w :=
    (settles_load hs hr).bind fun job w' hs' hjob =>
      settles_ret hs' ⟨hjob.1, congrArg some hjob.2⟩
  apply hload.tryCatch
  rintro e w' hs' he
  obtain ⟨rfl, hcrash⟩ := he.resolve_right id
  exact keeping_throw hs' (.inl ⟨rfl, hcrash⟩)

/-- The map move of a row with a download shows the roads of the row's network. -/
theorem viewportStreets_settles (hs : Sound false Feature.bare (fun _ => False) w)
    (hr : w.row = some r) (hdownload : HasDownload w here.pod r download) (zoom : Option ℚ) :
    Settles false Feature.bare (fun _ => False) False
      (fun shown _ => ∃ kept, derive (w.sourceOf here.pod r).intent download = some kept ∧
        shown.Perm (networkShown G bounds ((zoom.filter (· ≠ 0)).getD 10) kept))
      (viewportStreets G here (some bounds) zoom) w := by
  refine (settles_tryLoad hs hr).bind ?_
  rintro - w₁ - ⟨rfl, rfl⟩
  refine (new_settles hs fun hno => by rw [hr] at hno; cases hno).bind ?_
  intro sel w₂ hs₂ hnew
  have hnamed : w₂.adopted here.pod sel.job.membershipUpload =
      some (StreetFile.sha256 .download (.whole download)) := by
    rw [adopted_congr (hnew.apart.fetched (.inl (hnew.apart.content (by simp)))), hnew.upload]
    exact hdownload.named
  have hrow : w₂.row ≠ none := by
    obtain ⟨r₂, hr₂, -⟩ := hnew.mirrors (mirrors_ofRow hr)
    rw [hr₂]
    simp
  have hintent : sel.edits = (w₁.sourceOf here.pod r).intent := hnew.intent
  rw [← hintent]
  exact viewportFeatures_settles hs₂ hrow hnamed
    (hnew.apart.storedContent.trans hdownload.stored) hdownload.lines

theorem viewportStreets_unnamed (hs : Sound false Feature.bare (fun _ => False) w)
    (hr : w.row = some r) (hnamed : (w.sourceOf here.pod r).downloadSha256 = none)
    (zoom : Option ℚ) :
    Settles false Feature.bare (fun _ => False) False (fun shown _ => shown = [])
      (viewportStreets G here (some bounds) zoom) w := by
  refine (settles_tryLoad hs hr).bind ?_
  rintro - w₁ - ⟨rfl, rfl⟩
  refine (new_settles hs fun hno => by rw [hr] at hno; cases hno).bind ?_
  intro sel w₂ hs₂ hnew
  refine viewportFeatures_unnamed hs₂ (fun hno => ?_) ?_
  · obtain ⟨r₂, hr₂, -⟩ := hnew.mirrors (mirrors_ofRow hr)
    rw [hr₂] at hno
    cases hno
  · rw [adopted_congr (hnew.apart.fetched (.inl (hnew.apart.content (by simp)))), hnew.upload]
    exact hnamed

/-- What ends without an exception, if no exception can be raised. -/
theorem Settles.returns {α : Type} {F : α → World → Prop} {p : App α} {res : Except Err α}
    (h : Settles false Feature.bare torn False F p w) (hends : p.Ends (steady false) w res w') :
    ∃ a, res = .ok a ∧ F a w' := by
  obtain ⟨-, hout⟩ := h.ends hends
  cases res with
  | ok a => exact ⟨a, rfl, hout⟩
  | error e =>
    rcases hout with ⟨-, hcrash⟩ | hfalse
    · cases hcrash
    · exact hfalse.elim

/-- **The map shows the current network**: in every run of whole calls, a map move sends exactly the
roads that the row's intent keeps of the download and that meet the viewport, each with its tooltip
and simplified for the zoom level; nothing while the row names no download. -/
theorem viewport_shows_network (h : Reached false w) (hr : w.row = some r) {zoom : Option ℚ}
    {res : Except Err (List DisplayFeature)}
    (hends : (viewportStreets G here (some bounds) zoom).Ends (steady false) w res w') :
    (∀ download, HasDownload w here.pod r download →
      ∃ shown kept, res = .ok shown ∧
        derive (w.sourceOf here.pod r).intent download = some kept ∧
        shown.Perm (networkShown G bounds ((zoom.filter (· ≠ 0)).getD 10) kept)) ∧
      ((w.sourceOf here.pod r).downloadSha256 = none → res = .ok []) := by
  constructor
  · intro download hdownload
    obtain ⟨shown, hok, kept, hkept, hperm⟩ :=
      (viewportStreets_settles h.sound_bare hr hdownload zoom).returns hends
    exact ⟨shown, kept, hok, hkept, hperm⟩
  · intro hnamed
    obtain ⟨shown, hok, rfl⟩ := (viewportStreets_unnamed h.sound_bare hr hnamed zoom).returns hends
    exact hok

/-! ## What a map move does -/

omit [External] in
theorem ends_bind_ok {α β γ : Type} {M : Machine sig} {p : App α} {f : α → App β} {g : α → App γ}
    {v v' : M.World} {b : β} {c : γ} (hends : (p >>= f).Ends M v (.ok b) v')
    (h : ∀ a m, (f a).Ends M m (.ok b) v' → (g a).Ends M m (.ok c) v') :
    (p >>= g).Ends M v (.ok c) v' := by
  rcases ends_bind.1 hends with ⟨e, -, he⟩ | ⟨a, m, hp, hf⟩
  · cases he
  · exact ends_bind.2 (.inr ⟨a, m, hp, h a m hf⟩)

omit [External] in
theorem visibleFeatures_ends {features : List Feature}
    (hends : (StreetSelector.visibleFeatures here).Ends (steady crash) w (.ok features) w') :
    (StreetSelector.visibleFc here).Ends (steady crash) w (.ok ()) w' := by
  refine ends_bind_ok hends fun refs m hmarked => ?_
  rcases ends_bind.1 hmarked with ⟨e, -, he⟩ | ⟨a, m₁, hmark, hget⟩
  · cases he
  obtain ⟨c, hc, rfl⟩ := ends_call.1 hget
  rcases steady_exec_cases (.getFeatures here refs) c m₁ with hexec | ⟨-, hexec⟩
  · rw [hexec]
    exact hmark
  · rw [hexec] at hc
    cases hc

/-- **With what it returns left out, this is the map move of the requests**: it leaves the same
worlds. -/
theorem viewportStreets_ends {zoom : Option ℚ} {shown : List DisplayFeature}
    (hends : (viewportStreets G here (some bounds) zoom).Ends (steady crash) w (.ok shown) w') :
    (updateViewportStreets here).Ends (steady crash) w (.ok ()) w' := by
  refine ends_bind_ok hends fun job m hjob => ?_
  rcases job with _ | job
  · obtain ⟨-, rfl⟩ := ends_ret.1 hjob
    exact .ret () _
  refine ends_bind_ok hjob fun sel m hsel => ?_
  refine ends_bind_ok hsel fun refreshed m hshown => ?_
  obtain ⟨sel', current⟩ := refreshed
  rcases current with _ | _
  · obtain ⟨-, rfl⟩ := ends_ret.1 hshown
    exact .ret () _
  dsimp only at hshown ⊢
  rw [if_pos rfl] at hshown ⊢
  rcases ends_bind.1 hshown with ⟨e, -, he⟩ | ⟨features, m₁, hvisible, hrest⟩
  · cases he
  split at hrest
  · cases hrest
  · obtain ⟨-, rfl⟩ := ends_ret.1 hrest
    exact visibleFeatures_ends hvisible

/-! ## The panel -/

/-- The removed roads of a download, in its order. -/
def StreetEdits.removedOf (edits : StreetEdits) (download : List Feature) : List (ℤ × String) :=
  (download.filter fun f => f.id ∈ edits.removedRoads).map fun f =>
    (f.id, StreetSelector.removedRoadLabel f)

omit [External] in
theorem removedOf_congr {edits : StreetEdits} {roads download : List Feature}
    (h : roads.map Feature.bare = download.map Feature.bare) :
    edits.removedOf roads = edits.removedOf download := by
  have hbare : ∀ roads : List Feature,
      edits.removedOf roads = edits.removedOf (roads.map Feature.bare) := by
    intro roads
    simp only [StreetEdits.removedOf, List.filter_map, List.map_map]
    rfl
  rw [hbare roads, h, ← hbare download]

/-- The panel lists the removed roads of the pod's download. -/
theorem getRemovedRoadsInfo_settles (hs : Sound crash Feature.bare torn w)
    (hlocal : (w.disk here.pod).content (.street .download) = some (.whole download)) :
    Settles crash Feature.bare torn err (fun listed w' => Only here [] w w' ∧
      listed = sel.edits.removedOf download) (sel.getRemovedRoadsInfo here) w := by
  unfold StreetSelector.getRemovedRoadsInfo
  split
  · rename_i hnone
    exact settles_ret hs ⟨.refl _ _ _, by simp [StreetEdits.removedOf, hnone]⟩
  refine (settles_fileExists hs _).bind ?_
  rintro exists' w₁ - ⟨rfl, rfl⟩
  have hexists : w₁.disk here.pod (.street .download) ≠ none := ne_none_of_content hlocal
  rw [if_pos (Option.isSome_iff_ne_none.2 hexists)]
  refine (cachedLoad_settles hs rfl (fun hno => absurd hno hexists) fun ht => ?_).bind ?_
  · rw [hlocal] at ht
    cases ht
  rintro refs w₂ hs₂ ⟨h₂, doc, hdoc, hshows, -⟩
  obtain rfl : download = doc := Bytes.whole.inj (Option.some.inj (hlocal.symm.trans hdoc))
  refine (settles_getFeatures hs₂ refs).bind ?_
  rintro features w₃ hs₃ ⟨rfl, rfl⟩
  exact settles_ret hs₃ ⟨h₂, removedOf_congr hshows.objects.2⟩

omit [External] in
theorem HasDownload.of_only {pod : ℕ} (h : HasDownload w pod r download)
    (honly : Only here [] w w') : HasDownload w' pod r download := by
  have hstored : w'.stored.content (.street .download) = some (.whole download) :=
    honly.toApart.storedContent.trans h.stored
  refine ⟨?_, hstored, h.lines⟩
  have hfetched : w'.fetched pod = w.fetched pod := by
    rw [World.fetched, World.fetched, hstored, h.stored]
    rfl
  exact (adopted_congr hfetched _).trans h.named

theorem derive_selected {edits : StreetEdits} {kept : List Feature}
    (h : derive edits download = some kept) : ∀ f ∈ kept, edits.Selects f := by
  have hselected : ∀ f ∈ edits.selected download, edits.Selects f := fun f hf =>
    of_decide_eq_true (List.mem_filter.1 hf).2
  have hnetwork := derive_isNetwork h
  intro f hf
  rcases hlargest : edits.keepLargest with _ | _
  · rw [hnetwork.all hlargest] at hf
    exact hselected f hf
  · by_cases hnone : edits.selected download = []
    · rw [hnetwork.none hnone] at hf
      cases hf
    · obtain ⟨c, -, rfl⟩ := hnetwork.largest hlargest hnone
      exact hselected f (List.mem_of_mem_filter hf)

/-- **A road is on the map or in the panel, and never on both**: the panel lists the removed roads
that the download has, the map shows none of them, and without keep-largest each road of a selected
type and grade is listed or, in the viewport, shown. -/
theorem shown_or_removed {there : Site} {zoom : Option ℚ} {w₁ w₂ : World}
    {panel : Except Err (List (ℤ × String))} {map : Except Err (List DisplayFeature)}
    (h : Reached false w) (hr : w.row = some r) (hedits : r.columns.streetEdits = some sel.edits)
    (hdownload : HasDownload w there.pod r download)
    (hlocal : (w.disk here.pod).content (.street .download) = some (.whole download))
    (hpanel : (sel.getRemovedRoadsInfo here).Ends (steady false) w panel w₁)
    (hmap : (viewportStreets G there (some bounds) zoom).Ends (steady false) w₁ map w₂) :
    ∃ listed shown, panel = .ok listed ∧ map = .ok shown ∧
      (∀ id, id ∈ listed.map Prod.fst ↔
        id ∈ sel.edits.removedRoads ∧ ∃ f ∈ download, f.id = id) ∧
      (∀ road ∈ shown, road.id ∉ listed.map Prod.fst) ∧
      (sel.edits.keepLargest = false → ∀ f ∈ download,
        { sel.edits with removedRoads := [] }.Selects f →
        (viewportBox bounds).meets f.coordinates →
        f.id ∈ listed.map Prod.fst ∨ f.shown G ((zoom.filter (· ≠ 0)).getD 10) ∈ shown) := by
  obtain ⟨listed, rfl, honly, hlisted⟩ :=
    (getRemovedRoadsInfo_settles h.sound_bare hlocal).returns hpanel
  have h₁ : Reached false w₁ := .call here (.getRemovedRoadsInfo sel) h
    (ends_bind.2 (.inr ⟨listed, w₁, hpanel, ends_ret.2 ⟨rfl, rfl⟩⟩))
  obtain ⟨shown, rfl, kept, hkept, hperm⟩ := (viewportStreets_settles h₁.sound_bare
    (honly.row.trans hr) (hdownload.of_only honly) zoom).returns hmap
  have hintent : (w₁.sourceOf there.pod r).intent = sel.edits := by
    rw [World.sourceOf, hedits]
    rfl
  rw [hintent] at hkept
  have hmem : ∀ id, id ∈ listed.map Prod.fst ↔
      id ∈ sel.edits.removedRoads ∧ ∃ f ∈ download, f.id = id := by
    intro id
    rw [hlisted, StreetEdits.removedOf, List.map_map, List.mem_map]
    simp only [List.mem_filter, decide_eq_true_eq, Function.comp_apply]
    constructor
    · rintro ⟨f, ⟨hf, hremoved⟩, rfl⟩
      exact ⟨hremoved, f, hf, rfl⟩
    · rintro ⟨hremoved, f, hf, rfl⟩
      exact ⟨f, ⟨hf, hremoved⟩, rfl⟩
  refine ⟨listed, shown, rfl, rfl, hmem, fun road hroad hid => ?_,
    fun hall f hf hselects hmeets => ?_⟩
  · obtain ⟨f, hf, rfl⟩ := List.mem_map.1 (hperm.mem_iff.1 hroad)
    exact (derive_selected hkept f (List.mem_of_mem_filter hf)).kept ((hmem _).1 hid).1
  · by_cases hremoved : f.id ∈ sel.edits.removedRoads
    · exact .inl ((hmem _).2 ⟨hremoved, f, hf, rfl⟩)
    · have hkeep : f ∈ kept := by
        rw [(derive_isNetwork hkept).all hall]
        exact List.mem_filter.2 ⟨hf, decide_eq_true ⟨hselects.type, hselects.grade, hremoved⟩⟩
      exact .inr (hperm.mem_iff.2 (List.mem_map.2 ⟨f, List.mem_filter.2 ⟨hkeep, hmeets⟩, rfl⟩))

omit [External]

/-! ## A road in the viewport, and a removed one -/

/-- The query as a test of every line; lines of two positions are as simple as they get. -/
def Shapely.scan : Shapely where
  query lines box := (List.range lines.length).filter fun i => lines[i]?.any box.meets
  simplify _ line := line
  nodup_query _ _ := List.nodup_range.filter _
  mem_query lines box i := by
    simp only [List.mem_filter, List.mem_range, Option.any_eq_true, Window.meets_iff]
    constructor
    · rintro ⟨-, hline⟩
      exact hline
    · rintro ⟨line, hline, hmeets⟩
      exact ⟨(List.getElem?_eq_some_iff.1 hline).1, line, hline, hmeets⟩

/-- A lane next to the residential road. -/
def lane : Feature where
  id := 2
  coordinates := [(0, 1), (1, 1)]
  properties := ⟨2, some "Lane", "living_street", [11, 12], none, none, "no", [], none⟩
  two_nodes := by decide

/-- A residential road far away. -/
def hillRoad : Feature where
  id := 3
  coordinates := [(7, 7), (8, 8)]
  properties := ⟨3, none, "residential", [13, 14], none, none, "no", [], none⟩
  two_nodes := by decide

/-- A track of a grade that is not selected. -/
def fieldTrack : Feature where
  id := 4
  coordinates := [(1, 1), (2, 1)]
  properties := ⟨4, none, "track", [12, 15], some "grade5", none, "no", [], none⟩
  two_nodes := by decide

def villageRoads : List Feature := [residentialRoad, lane, hillRoad, fieldTrack]

theorem viewport_shows_villageRoads :
    let _ := External.plain
    ∃ shown, ((viewportStreets .scan ⟨0, 0, none⟩ (some ((-1, -1), (2, 2))) (some 16)).runWith
        (steady false) (steadyChoice false) [] (worldStoring villageRoads)).1 = .ok shown ∧
      shown.Perm [residentialRoad.shown .scan 16, lane.shown .scan 16] := by
  intro _
  obtain ⟨shown, kept, hok, hkept, hperm⟩ := (viewport_shows_network
    (.start (worldStoring_origin villageRoads)) rfl
    (ends_runWith (steadyChoice false) [] (viewportStreets .scan ⟨0, 0, none⟩
      (some ((-1, -1), (2, 2))) (some 16)) (worldStoring villageRoads))).1 villageRoads
    ⟨rfl, by decide +kernel, by decide⟩
  obtain rfl : [residentialRoad, lane, hillRoad] = kept := by
    have hderive : derive {} villageRoads = some [residentialRoad, lane, hillRoad] := by
      decide +kernel
    exact Option.some.inj (hderive.symm.trans hkept)
  have hshown : networkShown .scan ((-1, -1), (2, 2)) (((some 16).filter (· ≠ 0)).getD 10)
      [residentialRoad, lane, hillRoad] =
      [residentialRoad.shown .scan 16, lane.shown .scan 16] := by
    decide +kernel
  exact ⟨shown, hok, hshown ▸ hperm⟩

/-- The download is on pod 0 as well, and its road is removed. -/
def residentialRoadRemoved : World :=
  (exec (.updateColumns [.streetEdits (some { removedRoads := [1] })]) .usual
    (exec (.pullFile 0 (.street .download)) .usual (worldStoring [residentialRoad])).2).2

theorem residentialRoadRemoved_reached :
    let _ := External.plain
    Reached false residentialRoadRemoved :=
  let _ := External.plain
  .op _ _ (.op _ _ (.start (worldStoring_origin [residentialRoad])) rfl) rfl

theorem residentialRoad_listed :
    let _ := External.plain
    let sel : StreetSelector := ⟨.ofRow (rowNaming [residentialRoad]), { removedRoads := [1] }⟩
    let panel := (sel.getRemovedRoadsInfo ⟨0, 0, none⟩).runWith (steady false) (steadyChoice false)
      [] residentialRoadRemoved
    let map := (viewportStreets .scan ⟨1, 0, none⟩ (some ((-1, -1), (2, 2))) none).runWith
      (steady false) (steadyChoice false) [] panel.2
    ∃ listed shown, panel.1 = .ok listed ∧ map.1 = .ok shown ∧ 1 ∈ listed.map Prod.fst ∧
      ∀ road ∈ shown, road.id ∉ listed.map Prod.fst := by
  intro _ sel panel map
  have hlocal : (residentialRoadRemoved.disk 0).content (.street .download) =
      some (.whole [residentialRoad]) := by
    decide +kernel
  have hpanel := ends_runWith (steadyChoice false) [] (sel.getRemovedRoadsInfo ⟨0, 0, none⟩)
    residentialRoadRemoved
  have hmap := ends_runWith (steadyChoice false) []
    (viewportStreets .scan ⟨1, 0, none⟩ (some ((-1, -1), (2, 2))) none) panel.2
  obtain ⟨listed, shown, hlisted, hshown, hmem, hapart, -⟩ := shown_or_removed
    residentialRoadRemoved_reached rfl rfl ⟨rfl, by decide +kernel, by decide⟩ hlocal hpanel hmap
  exact ⟨listed, shown, hlisted, hshown, (hmem 1).2 ⟨by decide, residentialRoad, by simp, rfl⟩,
    hapart⟩

end Cosmonaut
