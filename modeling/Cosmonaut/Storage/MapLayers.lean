import Cosmonaut.Storage.DeliveredTrack

/-!
# The route on the map

Every navigation draws the route of a finished job on the map, from the stored solution and the
direction that the pod has after its pull; the download route serves the stored track.

* `mapLayers`, `downloadedGpx`: the map's layers and the download with what they return.
* `makes_mapLayers`, `makes_downloadedGpx`: what they return in a view of a delivered track.
* `map_shows_delivered_track`: after any sequence of whole operations that meets what it must find,
  the map of every pod shows the points of the track that any pod serves, in its order or backwards.
-/

namespace Cosmonaut

open Interleaving Program

section

variable [External]

/-- Whether there is a raster to show: only once a membership is uploaded. -/
def hasTile (here : Site) (job : JobModel) : App Bool :=
  if job.membershipUpload.fileName ≠ noFileUploaded then do
    ask (.pullFile here.pod .membershipTif)
    ask (.fileExists here.pod .membershipTif)
  else
    return false

/-- `map_layer_data`: whether there is a raster, and the route's positions. -/
def mapLayers (here : Site) : App (Bool × List Point) := do
  let job ← CosmonautJob.load
  let tile ← hasTile here job
  if job.status = .completed then
    ask (.pullFile here.pod .solution)
    ask (.pullFile here.pod .routeOptions)
    return (tile, (← CosmonautJob.getRoutePolyline here job).getD [])
  else
    return (tile, [])

/-- `download_gpx`: the track it sends, none with a 404. -/
def downloadedGpx (here : Site) : App (Option (Bytes Gpx)) := do
  let job ← Program.tryCatch (some <$> CosmonautJob.load)
    fun e => if e = .fault .jobNotFound then return none else raise e
  match job with
  | none => return none
  | some _ =>
    ask (.pullFile here.pod .gpx)
    if ← ask (.fileExists here.pod .gpx) then
      return some (← ask (.readFile here.pod .gpx))
    else
      return none

theorem mapLayerData_eq (here : Site) :
    mapLayerData here = (do let _ ← mapLayers here) := by
  simp only [mapLayerData, mapLayers, hasTile, bind_assoc]
  congr 1
  funext job
  split <;> split <;> simp [bind_assoc]

end

/-! ## Pulling one file -/

/-- One of these files, copied onto others. -/
def RouteFiles.fileOnto (a b : RouteFiles) : FileName → RouteFiles
  | .solution => { b with solution := a.solution.or b.solution }
  | .gpx => { b with gpx := a.gpx.or b.gpx }
  | .routeOptions => { b with options := a.options.or b.options }
  | _ => b

theorem route_pullFile {d d' : Files} (f : FileName) (time : FileName → ℕ) :
    (d.pull d' (fun g => g = f) time).route = d'.route.fileOnto d.route f := by
  have hself : (d.pull d' (fun g => g = f) time).content f = (d'.content f).or (d.content f) :=
    Files.content_pull (decide_eq_true rfl)
  have hother : ∀ g, g ≠ f → (d.pull d' (fun g => g = f) time).content g = d.content g := by
    intro g hg
    rw [Files.content, pull_other (decide_eq_false hg), Files.content]
  cases f <;> simp [Files.route, RouteFiles.fileOnto, hself, hother]

variable {P : Choice → Prop} {here there : Site} {pod : ℕ} {v : View} {E : View → Prop}

theorem makes_pullFile {f : FileName} {F : Unit → View → Prop} (hfail : Tolerates P E v)
    (h : F () { v with found := v.stored.fileOnto v.found f }) :
    Makes P pod v E F (ask (.pullFile pod f)) := by
  refine makes_done (o := .pullFile pod f) hfail fun c w hw _ => ⟨(), _, rfl, ?_⟩
  subst hw
  change F () (Served.view pod (w.1.setDisk pod _, w.2))
  rw [view_setDisk, route_pullFile]
  exact h

theorem makes_fileExists_any {f : FileName} (hfail : Tolerates P E v) :
    Makes P pod v E (fun _ v' => v = v') (ask (.fileExists pod f)) :=
  makes_done (o := .fileExists pod f) hfail fun _ _ hw _ => ⟨_, _, rfl, hw.symm⟩

theorem makes_readFile {f : FileName} (hf : f.ofRoute = true) {b : Bytes f.Doc}
    (hfail : Tolerates P E v) (hb : v.found.get f = some b) :
    Makes P pod v E (fun a v' => v = v' ∧ a = b) (ask (.readFile pod f)) := by
  refine makes_done (o := .readFile pod f) hfail fun c w hw _ => ⟨b, w.1, ?_, hw.symm, rfl⟩
  rw [← hw, Served.view, get_route hf] at hb
  obtain ⟨e, he, rfl⟩ := Option.map_eq_some_iff.1 hb
  simp only [perform, World.file, he, Except.map]

/-! ## The map and the download -/

variable [External] {runId : Option ℕ} {epsg : ℤ} {s : Solution}

/-- The load of a finished run, when nothing fails. -/
theorem makes_load_whole (hv : v.row = some (.completed, runId, epsg)) :
    Makes Choice.Faultless pod v (fun _ => False)
      (fun job v' => v = v' ∧ job.status = .completed ∧ job.epsg = epsg) CosmonautJob.load := by
  refine makes_load (fun h => absurd h not_mayFail) (fun row hrow => ?_) fun hnone => ?_
  · rw [hv] at hrow
    obtain ⟨hstatus, hrest⟩ := Prod.mk.inj (Option.some.inj hrow)
    exact ⟨rfl, hstatus.symm, (Prod.mk.inj hrest).2.symm⟩
  · rw [hv] at hnone
    cases hnone

/-- A whole solution and a readable direction are shown without an exception. -/
theorem makes_getRoutePolyline_whole {job : JobModel} {order : Bool}
    (hs : v.found.solution = some (.whole s)) (horder : orderOf v.found.options = some order) :
    Makes Choice.Faultless here.pod v (fun _ => False)
      (fun positions _ => positions = some (positionsOf job.epsg order s))
      (CosmonautJob.getRoutePolyline here job) := by
  refine Turns.bind (F := fun exists' v' => v = v' ∧ exists' = (v.found.get .solution).isSome)
    (makes_fileExists rfl tolerates_faultless ⟨rfl, rfl⟩) ?_
  rintro _ _ ⟨rfl, rfl⟩
  refine turns_ite (fun _ => ?_) fun hno => ?_
  · refine Turns.bind (F := fun s' v' => v = v' ∧ s' = s)
      (makes_loadFile (f := .solution) rfl tolerates_faultless (fun s' hs' => ⟨rfl, ?_⟩)
        fun hno => hno s hs) ?_
    · exact Bytes.whole.inj (Option.some.inj (hs'.symm.trans hs))
    rintro _ _ ⟨rfl, rfl⟩
    refine Turns.bind (F := fun reversed v' => v = v' ∧ reversed = order)
      (makes_isRouteReversed tolerates_faultless (fun reversed h => ⟨rfl, ?_⟩) fun hno => ?_) ?_
    · exact Option.some.inj (h.symm.trans horder)
    · rw [horder] at hno
      cases hno
    rintro _ _ ⟨rfl, rfl⟩
    exact turns_ret rfl
  · refine absurd ?_ hno
    change v.found.solution.isSome = true
    rw [hs]
    rfl

/-- **The map shows the stored solution** in the order that the pod has after its pull. -/
theorem makes_mapLayers (hv : v.row = some (.completed, runId, epsg))
    (hs : v.stored.solution = some (.whole s)) {order : Bool}
    (horder : orderOf (v.stored.options.or v.found.options) = some order) :
    Makes Choice.Faultless here.pod v (fun _ => False)
      (fun layers _ => layers.2 = positionsOf epsg order s) (mapLayers here) := by
  apply Turns.bind (makes_load_whole hv)
  rintro job _ ⟨rfl, hstatus, rfl⟩
  refine Turns.bind (F := fun _ v' => v = v') ?_ ?_
  · refine turns_ite (fun _ => ?_) fun _ => turns_ret rfl
    apply Turns.bind (makes_pullFile (F := fun _ v' => v = v') tolerates_faultless rfl)
    rintro _ _ rfl
    exact makes_fileExists_any tolerates_faultless
  rintro tile _ rfl
  rw [if_pos hstatus]
  apply Turns.bind (makes_pullFile (F := fun _ v' =>
    v' = { v with found := v.stored.fileOnto v.found .solution }) tolerates_faultless rfl)
  rintro _ _ rfl
  refine Turns.bind (F := fun _ v' => v'.found.solution = some (.whole s) ∧
    orderOf v'.found.options = some order) (makes_pullFile tolerates_faultless ⟨?_, horder⟩) ?_
  · change v.stored.solution.or v.found.solution = _
    rw [hs]
    rfl
  rintro _ v' ⟨hsolution, hoptions⟩
  apply Turns.bind (makes_getRoutePolyline_whole hsolution hoptions)
  rintro _ _ rfl
  exact turns_ret rfl

/-- **The download is the stored track.** -/
theorem makes_downloadedGpx {b : Bytes Gpx} (hv : v.row = some (.completed, runId, epsg))
    (hb : v.stored.gpx = some b) :
    Makes Choice.Faultless here.pod v (fun _ => False) (fun answer _ => answer = some b)
      (downloadedGpx here) := by
  refine Turns.bind (F := fun job v' => v = v' ∧ job.isSome) ?_ ?_
  · refine Turns.tryCatch (E := fun _ => False) ?_ fun _ _ hno => hno.elim
    apply Turns.bind (makes_load_whole hv)
    rintro job _ ⟨rfl, -⟩
    exact turns_ret ⟨rfl, rfl⟩
  rintro job _ ⟨rfl, hjob⟩
  obtain ⟨job, rfl⟩ := Option.isSome_iff_exists.1 hjob
  refine Turns.bind (F := fun _ v' => v'.found.gpx = some b)
    (makes_pullFile tolerates_faultless ?_) ?_
  · change v.stored.gpx.or v.found.gpx = _
    rw [hb]
    rfl
  rintro _ v' hfound
  refine Turns.bind (F := fun exists' v'' => v' = v'' ∧ exists' = (v'.found.get .gpx).isSome)
    (makes_fileExists rfl tolerates_faultless ⟨rfl, rfl⟩) ?_
  rintro _ _ ⟨rfl, rfl⟩
  refine turns_ite (fun _ => ?_) fun hno => ?_
  · apply Turns.bind (makes_readFile (f := .gpx) rfl tolerates_faultless hfound)
    rintro _ _ ⟨rfl, rfl⟩
    exact turns_ret rfl
  · refine absurd ?_ hno
    change v'.found.gpx.isSome = true
    rw [hfound]
    rfl

/-! ## After any sequence of requests -/

omit [External] in
/-- What ends in a view in which nothing can be raised, returns. -/
theorem Makes.returns {α : Type} {F : α → View → Prop} {p : App α} {w m : Served}
    {res : Except Err α}
    (h : Makes Choice.Faultless pod (w.view pod) (fun _ => False) F p)
    (hends : p.Ends (served Choice.Faultless) w res m) : ∃ a, res = .ok a ∧ F a (m.view pod) := by
  have hout := (Keeping.ends (h w rfl) hends).2
  cases res with
  | ok a => exact ⟨a, rfl, hout⟩
  | error e => exact hout.elim

theorem positionsOf_eq (epsg : ℤ) (order reversed : Bool) (s : Solution) :
    positionsOf epsg order s = if order = reversed then
      (CosmonautJob.gpxOf epsg reversed s).points
      else (CosmonautJob.gpxOf epsg reversed s).points.reverse := by
  cases order <;> cases reversed <;> simp [positionsOf, CosmonautJob.gpxOf]

/-- Whole operations that meet what they must find lead to delivered tracks only. -/
theorem Operations.delivered {w : Served} {ops : List Operation} (h : Operations w ops)
    (hw : Delivered w) (hmeets : ∀ e ∈ ops, e.Meets) : ∀ e ∈ ops, Delivered e.after := by
  induction h with
  | nil w => simp
  | cons hroute hends _ ih =>
    rw [List.forall_mem_cons] at hmeets ⊢
    have hm := (delivered_step hroute hends hw).2 hmeets.1
    exact ⟨hm, ih hm hmeets.2⟩

/-- **The map shows the delivered track.** After every operation of a sequence in which each finds
what it must, a navigation on any pod and a download on any pod both return while the row is
COMPLETED: the map's route is the downloaded track's points, in its order if the pod's direction is
the stored one and backwards else; and it is the stored one unless none is stored. -/
theorem map_shows_delivered_track {w : Served} {ops : List Operation} (h : Operations w ops)
    (hw : Delivered w) (hmeets : ∀ e ∈ ops, e.Meets) {e : Operation} (he : e ∈ ops) {r : Row}
    (hr : e.after.1.row = some r) (hcompleted : r.status = .completed) {order : Bool}
    (horder : orderOf (e.after.found here.pod).options = some order) {m m' : Served}
    {layers : Except Err (Bool × List Point)} {track : Except Err (Option (Bytes Gpx))}
    (hmap : (mapLayers here).Ends (served Choice.Faultless) e.after layers m)
    (hdownload : (downloadedGpx there).Ends (served Choice.Faultless) e.after track m') :
    ∃ tile gpx reversed, orderOf (e.after.1.stored.content .routeOptions) = some reversed ∧
      track = .ok (some (.whole gpx)) ∧
      layers = .ok (tile, if order = reversed then gpx.points else gpx.points.reverse) ∧
      (e.after.1.stored.content .routeOptions ≠ none → order = reversed) := by
  obtain ⟨s, reversed, -, hsolution, hreversed, hgpx⟩ :=
    h.delivered hw hmeets e he r hr hcompleted
  have hrow : ∀ pod, (e.after.view pod).row = some (.completed, r.runId, r.columns.epsg) := by
    intro pod
    rw [Served.view, hr, Option.map_some, Row.route, hcompleted]
  obtain ⟨⟨tile, positions⟩, rfl, hpositions⟩ :=
    Makes.returns (makes_mapLayers (hrow here.pod) hsolution horder) hmap
  obtain ⟨answer, rfl, rfl⟩ := Makes.returns (makes_downloadedGpx (hrow there.pod) hgpx) hdownload
  refine ⟨tile, _, reversed, hreversed, rfl, ?_, fun hstored => ?_⟩
  · dsimp only at hpositions
    rw [hpositions, positionsOf_eq _ order reversed]
  · obtain ⟨b, hb⟩ := Option.ne_none_iff_exists'.1 hstored
    have hfound : (e.after.found here.pod).options = some b := by
      change (e.after.1.stored.content .routeOptions).or _ = _
      rw [hb]
      rfl
    rw [hfound, ← hb, hreversed] at horder
    exact (Option.some.inj horder).symm

omit [External]

/-- The world after the last request of a sequence. -/
def afterFirstRun : Served :=
  let _ := External.plain
  ((serveAll firstRun uncomputed).getLast?.map Operation.after).getD uncomputed

theorem map_shows_firstRun :
    let _ := External.plain
    let layers := ((mapLayers ⟨2, 0, none⟩).runWith (served Choice.Faultless)
      ⟨.usual, rfl⟩ [] afterFirstRun).1
    let track := ((downloadedGpx ⟨3, 0, none⟩).runWith (served Choice.Faultless)
      ⟨.usual, rfl⟩ [] afterFirstRun).1
    ∃ tile gpx reversed, orderOf (afterFirstRun.1.stored.content .routeOptions) = some reversed ∧
      track = .ok (some (.whole gpx)) ∧
      layers = .ok (tile, if false = reversed then gpx.points else gpx.points.reverse) ∧
      (afterFirstRun.1.stored.content .routeOptions ≠ none → false = reversed) := by
  intro _ layers track
  have hops : Operations uncomputed (serveAll firstRun uncomputed) :=
    operations_serveAll (by decide) _
  have hmeets : ∀ e ∈ serveAll firstRun uncomputed, e.Meets := by
    intro e he
    simp only [firstRun, serveAll, List.mem_cons, List.not_mem_nil, or_false] at he
    rcases he with rfl | rfl
    · trivial
    · intro r r' _ _ _ _
      left
      decide +kernel
  obtain ⟨e, he, hafter⟩ : ∃ e ∈ serveAll firstRun uncomputed, e.after = afterFirstRun :=
    ⟨_, List.mem_cons_of_mem _ (List.mem_cons_self ..), rfl⟩
  obtain ⟨r, hr, hcompleted⟩ : ∃ r, afterFirstRun.1.row = some r ∧ r.status = .completed := by
    have hrow : afterFirstRun.1.row.map Row.status = some .completed := by decide +kernel
    exact Option.map_eq_some_iff.1 hrow
  rw [← hafter] at hr
  have hmap := ends_runWith (M := served Choice.Faultless) ⟨.usual, rfl⟩ []
    (mapLayers ⟨2, 0, none⟩) e.after
  have hdownload := ends_runWith (M := served Choice.Faultless) ⟨.usual, rfl⟩ []
    (downloadedGpx ⟨3, 0, none⟩) e.after
  have horder : orderOf (e.after.found 2).options = some false := by
    rw [hafter]
    decide +kernel
  have hshown := map_shows_delivered_track hops uncomputed_delivered hmeets he hr hcompleted horder
    hmap hdownload
  rw [hafter] at hshown
  exact hshown

end Cosmonaut
