import Cosmonaut.Storage.Route

/-!
# Healing an interrupted toggle

The direction of the route is in two files, the options and the track, which a toggle writes,
deletes and uploads one after the other. A toggle that has raised leaves them as they happen to be,
and the next visit to Route & Download should bring them together.

* `Interrupted`: a toggle that raises, and visits that raise as well.
* `Healed`: the stored files name one direction, and the map shows it.
* `SolutionView`: whatever raises, the stored solution and the row's EPSG code stay.
* `toggle_heals_iff`: the next visit that returns has healed the files exactly if, after its pull,
  it finds no track, or one in the direction of the options that it finds.
* `toggle_unhealed`: a visit that makes the disagreement permanent.
-/

namespace Cosmonaut

open Interleaving Program

section

variable [External]

/-! ## Directions -/

/-- The file is a whole track in this direction. -/
def TrackIn (reversed : Bool) (gpx : Option (Bytes Gpx)) : Prop :=
  ∃ epsg s, gpx = some (.whole (CosmonautJob.gpxOf epsg reversed s))

/-- A file is a track in one direction only. -/
theorem TrackIn.unique {a b : Bool} {gpx : Option (Bytes Gpx)} (ha : TrackIn a gpx)
    (hb : TrackIn b gpx) : a = b := by
  obtain ⟨epsg, s, rfl⟩ := ha
  obtain ⟨epsg', s', heq⟩ := hb
  exact gpxOf_direction (Bytes.whole.inj (Option.some.inj heq))

/-- Options and track name one direction. -/
def RouteFiles.NamesOneDirection (r : RouteFiles) : Prop :=
  ∃ reversed, orderOf r.options = some reversed ∧ TrackIn reversed r.gpx

/-- The stored track is that of the stored solution `s`, in the direction of the stored options. -/
def World.Consistent (s : Solution) (w : World) : Prop :=
  ∃ row reversed, w.row = some row ∧ w.stored.route.solution = some (.whole s) ∧
    orderOf w.stored.route.options = some reversed ∧
    w.stored.route.gpx = some (.whole (CosmonautJob.gpxOf row.columns.epsg reversed s))

/-- A toggle that raises, and then any number of visits to Route & Download that raise. -/
inductive Interrupted : World → World → Prop
  | toggle {here : Site} {reversed : Bool} {es : List (Event machine)} {x : Err} {w w' : World} :
      (toggleRouteDirection here reversed).Executes es (.error x) → Chain w es w' → Interrupted w w'
  | visit {here : Site} {es : List (Event machine)} {x : Err} {w m w' : World} : Interrupted w m →
      (openRouteDownload here).Executes es (.error x) → Chain m es w' → Interrupted w w'

/-- The stored files name one direction, and `get_route_polyline` shows it on the pod. -/
def Healed (here : Site) (s : Solution) (w : World) : Prop :=
  ∃ reversed, orderOf w.stored.route.options = some reversed ∧ TrackIn reversed w.stored.route.gpx ∧
    ∀ job (es : List (Event machine)) positions w',
      (CosmonautJob.getRoutePolyline here job).Executes es (.ok positions) →
      Chain w es w' → positions = some (positionsOf job.epsg reversed s)

/-- What a visit finds after its pull: no track, or one in the direction of the options. -/
def FindsOneDirection (here : Site) (w : World) : Prop :=
  let found := w.stored.route.onto (w.disk here.pod).route
  found.gpx = none ∨ found.NamesOneDirection

end

/-! ## The solution stays -/

/-- The solution in storage and on a pod. -/
@[ext] structure SolutionView where
  stored : Option (Bytes Solution)
  found : Option (Bytes Solution)

def World.solutionView (pod : ℕ) (w : World) : SolutionView :=
  ⟨w.stored.content .solution, (w.disk pod).content .solution⟩

/-- The operation leaves the view `v` as it is. -/
abbrev KeepsSolution (here : Site) (v : SolutionView) : Op → Prop :=
  Keeps (M := machine) (World.solutionView here.pod) (v = ·)

variable {here : Site} {v : SolutionView} {o : Op}

theorem keepsSolution_of (htouches : o.touches here.pod .solution = false)
    (hstored : ∀ c w, v = w.solutionView here.pod →
      (exec o c w).2.stored.content .solution = w.stored.content .solution) :
    KeepsSolution here v o := by
  intro c w hw
  have hfound : (exec o c w).2.disk here.pod .solution = w.disk here.pod .solution :=
    exec_disk_of_not_touches htouches
  rw [hw]
  ext1
  · exact (hstored c w hw).symm
  · exact congrArg (Option.map Entry.content) hfound.symm

/-- An operation that neither delivers nor touches the solution. -/
theorem keepsSolution_of_not_delivers (htouches : o.touches here.pod .solution = false)
    (hdelivers : o.delivers = false) : KeepsSolution here v o :=
  keepsSolution_of htouches fun c w _ => by rw [exec_stored_of_not_delivers hdelivers]

theorem keepsSolution_deleteGpx : KeepsSolution here v (.deleteFiles here.pod [.gpx]) := by
  apply keepsSolution_of (by simp [Op.touches])
  intro c w _
  have hstep := exec_stored_cases (.deleteFiles here.pod [.gpx]) c w
  generalize (exec (.deleteFiles here.pod [.gpx]) c w).2.stored = stored at hstep
  cases hstep with
  | same => rfl
  | delete pod names fs hfs =>
    have hsolution : fs .solution = false := by
      by_contra h
      simpa using hfs _ (Bool.of_not_eq_false h)
    rw [Files.content, Files.delete_other _ _ _ hsolution, Files.content]

/-- An upload of the solution that is stored changes nothing. -/
theorem keepsSolution_upload (hv : v.stored = v.found) :
    KeepsSolution here v (.uploadWorkDir here.pod) := by
  apply keepsSolution_of rfl
  intro c w hw
  have hcurrent : (w.disk here.pod).Current w.stored .solution := by
    subst hw
    exact .inr hv.symm
  have hstep := exec_stored_cases (.uploadWorkDir here.pod) c w
  generalize (exec (.uploadWorkDir here.pod) c w).2.stored = stored at hstep
  cases hstep with
  | same => rfl
  | upload pod fs => rw [Files.content, hcurrent.upload, Files.content]

/-- A pull that answers finds the stored solution, and no pull changes it. -/
theorem exec_pull_solution {c : Choice} {w : World} {ans : Except Fault Unit} {w' : World}
    (hex : exec (.pullWorkDir here.pod) c w = (ans, w')) :
    w'.stored = w.stored ∧ (ans = .ok () → (w'.disk here.pod).content .solution =
      (w.stored.content .solution).or ((w.disk here.pod).content .solution)) := by
  rcases hf : (Op.pullWorkDir here.pod).fault c with _ | e
  · rw [exec_of_no_fault hf] at hex
    obtain ⟨-, rfl⟩ := Prod.mk.inj hex
    refine ⟨rfl, fun _ => ?_⟩
    rw [World.pulled, setDisk_disk_self, Files.content_pull rfl]
  · rw [exec_of_fault hf] at hex
    obtain ⟨rfl, rfl⟩ := Prod.mk.inj hex
    exact ⟨rfl, fun h => by cases h⟩

theorem asks_keepsSolution {o : Op} (htouches : o.touches here.pod .solution = false)
    (hdelivers : o.delivers = false) : Asks (KeepsSolution here v) (ask o) :=
  asks_ask (keepsSolution_of_not_delivers htouches hdelivers)

theorem rewriteFile_keepsSolution {f : FileName} (doc : f.Doc) (hf : f ≠ .solution) :
    Asks (KeepsSolution here v) (rewriteFile here f doc) :=
  .bind (asks_keepsSolution (by simp [Op.touches, hf]) rfl) fun _ =>
    asks_keepsSolution (by simp [Op.touches, hf]) rfl

theorem loadFile_keepsSolution (f : FileName) : Asks (KeepsSolution here v) (loadFile here f) := by
  refine .bind (asks_keepsSolution rfl rfl) fun b => ?_
  cases b <;> trivial

theorem isRouteReversed_keepsSolution :
    Asks (KeepsSolution here v) (CosmonautJob.isRouteReversed here) :=
  .bind (asks_keepsSolution rfl rfl) fun _ => always_ite (fun _ => loadFile_keepsSolution _)
    fun _ => trivial

section

variable [External]

theorem load_keepsSolution : Asks (KeepsSolution here v) CosmonautJob.load :=
  .bind (asks_keepsSolution rfl rfl) fun _ => trivial

theorem createQrCodeRouting_keepsSolution (job : JobModel) :
    Asks (KeepsSolution here v) (CosmonautJob.createQrCodeRouting here job) := by
  have hqr : ∀ url, Asks (KeepsSolution here v) (rewriteFile here .qrCode url) :=
    fun url => rewriteFile_keepsSolution url (by simp)
  refine .bind (asks_keepsSolution rfl rfl) fun url => .bind isRouteReversed_keepsSolution
    fun reversed =>
    .bind (asks_keepsSolution rfl rfl) fun _ => always_ite (fun _ => ?_) fun _ => hqr _
  exact .bind (loadFile_keepsSolution _) fun s =>
    .bind (rewriteFile_keepsSolution _ (by simp)) fun _ => hqr _

theorem getRoutePolyline_keepsSolution (job : JobModel) :
    Asks (KeepsSolution here v) (CosmonautJob.getRoutePolyline here job) := by
  refine .bind (asks_keepsSolution rfl rfl) fun _ => always_ite (fun _ => ?_) fun _ => trivial
  exact .bind (loadFile_keepsSolution _) fun s => .bind isRouteReversed_keepsSolution
    fun _ => trivial

/-- Once a pod has the stored solution, a toggle leaves it as it is. -/
theorem setRouteReversed_keepsSolution (hv : v.stored = v.found) (job : JobModel)
    (reversed : Bool) :
    Asks (KeepsSolution here v) (CosmonautJob.setRouteReversed here job reversed) :=
  .bind (rewriteFile_keepsSolution _ (by simp))
  fun _ => .bind (asks_ask keepsSolution_deleteGpx) fun _ =>
    .bind (createQrCodeRouting_keepsSolution job) fun _ => asks_ask (keepsSolution_upload hv)

end

/-! ## After a pull -/

/-- The stored solution is `s`. -/
def StoresSolution (s : Solution) (v : SolutionView) : Prop := v.stored = some (.whole s)

/-- The rule of a single operation. -/
theorem turns_ask {V : Type} {view : World → V} {v : V} {E : V → Prop} {F : o.Ans → V → Prop}
    (hok : ∀ c w a w', view w = v → exec o c w = (.ok a, w') → F a (view w'))
    (herr : ∀ c w f w', view w = v → exec o c w = (.error f, w') → E (view w')) :
    (ask o).Turns machine view v E F :=
  turns_call hok herr

/-- A program that pulls and then leaves the solution as it is leaves the stored solution as it
is. -/
theorem turns_after_pull {α : Type} {s : Solution} {p : App α} (hv : StoresSolution s v)
    (hp : Asks (KeepsSolution here ⟨some (.whole s), some (.whole s)⟩) p) :
    Turns machine (World.solutionView here.pod) v (StoresSolution s) (fun _ => StoresSolution s) (do
      ask (.pullWorkDir here.pod)
      p) := by
  have hpull : Turns machine (World.solutionView here.pod) v (StoresSolution s)
      (fun _ v' => v' = ⟨some (.whole s), some (.whole s)⟩) (ask (.pullWorkDir here.pod)) := by
    refine turns_ask (o := .pullWorkDir here.pod) (fun c w a w' hw hex => ?_)
      fun c w f w' hw hex => ?_
    · obtain ⟨hstored, hfound⟩ := exec_pull_solution hex
      subst hw
      ext1
      · rw [World.solutionView, hstored]
        exact hv
      · change (w'.disk here.pod).content .solution = _
        rw [hfound rfl]
        change (World.solutionView here.pod w).stored.or _ = _
        rw [hv, Option.some_or]
    · obtain ⟨hstored, -⟩ := exec_pull_solution hex
      subst hw
      rw [StoresSolution, World.solutionView, hstored]
      exact hv
  apply hpull.bind
  rintro _ _ rfl
  refine (hp.turns rfl).mono ?_ ?_
  · rintro _ rfl
    rfl
  · rintro _ _ rfl
    rfl

/-- A program that leaves the solution as it is. -/
theorem turns_keep {α : Type} {s : Solution} {p : App α} (hv : StoresSolution s v)
    (hp : Asks (KeepsSolution here v) p) :
    Turns machine (World.solutionView here.pod) v (StoresSolution s) (fun _ v' => v = v') p := by
  refine (hp.turns rfl).mono ?_ fun _ _ h => h
  rintro _ rfl
  exact hv

section

variable [External]

theorem toggle_storesSolution {s : Solution} {reversed : Bool} (hv : StoresSolution s v) :
    Turns machine (World.solutionView here.pod) v (StoresSolution s) (fun _ => StoresSolution s)
      (toggleRouteDirection here reversed) := by
  apply Turns.bind (turns_keep hv load_keepsSolution)
  rintro job _ rfl
  refine turns_after_pull hv
    (.bind isRouteReversed_keepsSolution fun _ => always_ite (fun _ => trivial)
    fun _ => ?_)
  exact .bind (setRouteReversed_keepsSolution rfl job reversed) fun _ =>
    .bind (getRoutePolyline_keepsSolution job) fun _ => trivial

theorem visit_storesSolution {s : Solution} (hv : StoresSolution s v) :
    Turns machine (World.solutionView here.pod) v (StoresSolution s) (fun _ => StoresSolution s)
      (openRouteDownload here) := by
  apply Turns.bind (turns_keep hv load_keepsSolution)
  rintro job _ rfl
  have hvisit : Asks (KeepsSolution here ⟨some (.whole s), some (.whole s)⟩) (do
      CosmonautJob.createQrCodeRouting here job
      ask (.uploadWorkDir here.pod)) :=
    .bind (createQrCodeRouting_keepsSolution job) fun _ => asks_ask (keepsSolution_upload rfl)
  have hrest := turns_after_pull hv hvisit
  by_cases hcompleted : job.status = .completed
  · rw [if_pos hcompleted]
    have hstage : Asks (KeepsSolution here v) (CosmonautJob.raiseStage job 5) :=
      .bind (asks_keepsSolution rfl rfl) fun _ => trivial
    apply Turns.bind (turns_keep hv hstage)
    rintro _ _ rfl
    exact hrest
  · rw [if_neg hcompleted]
    exact hrest

/-- **Whatever raises, the stored solution stays.** -/
theorem Interrupted.solution {s : Solution} {w w' : World} (h : Interrupted w w')
    (hw : w.stored.route.solution = some (.whole s)) :
    w'.stored.route.solution = some (.whole s) := by
  induction h with
  | @toggle here reversed es x w w' hes hchain =>
    exact (toggle_storesSolution (v := w.solutionView here.pod) hw).executes hes hchain
  | @visit here es x w m w' _ hes hchain ih =>
    exact (visit_storesSolution (v := m.solutionView here.pod) (ih hw)).executes hes hchain

/-! ## The next visit -/

/-- The map shows the direction of the options. -/
theorem positions_of_polyline {w w' : World} {job : JobModel} {es : List (Event machine)}
    {positions : Option (List Point)} {s : Solution}
    (hs : (w.disk here.pod).route.solution = some (.whole s))
    (hes : (CosmonautJob.getRoutePolyline here job).Executes es (.ok positions))
    (hw : Chain w es w') :
    ∃ reversed, orderOf (w.disk here.pod).route.options = some reversed ∧
      positions = some (positionsOf job.epsg reversed s) := by
  have hmakes : Makes Choice.Faultless here.pod (Served.view here.pod (w, none)) (fun _ => True)
      (fun positions _ => ∃ reversed, orderOf (w.disk here.pod).route.options = some reversed ∧
        positions = some (positionsOf job.epsg reversed s))
        (CosmonautJob.getRoutePolyline here job) := by
    refine makes_getRoutePolyline (fun reversed s' hreversed hs' => ⟨reversed, hreversed, ?_⟩)
      (fun hnone => ?_) trivial
    · have heq : s = s' := by simpa [Served.view, hs] using hs'
      rw [heq]
    · change (w.disk here.pod).route.solution = none at hnone
      rw [hs] at hnone
      cases hnone
  obtain ⟨-, h⟩ := hmakes.returned (getRoutePolyline_unhandled job) hes hw
  exact h

/-- **What a visit that returns has made of the route's files**: the options stay as it finds them,
and so does the track, if it finds one; else it is made in the direction of the options. -/
theorem visit_files {w w' : World} {es : List (Event machine)}
    (hes : (openRouteDownload here).Executes es (.ok ())) (hw : Chain w es w') :
    let found := w.stored.route.onto (w.disk here.pod).route
    ∃ files, (found.gpx ≠ none ∧ files = found ∨ found.gpx = none ∧ files.NamesOneDirection) ∧
      files.options = found.options ∧ files.solution = found.solution ∧
      w'.stored.route = files ∧ (w'.disk here.pod).route = files := by
  intro found
  have hmakes : Makes Choice.Faultless here.pod (Served.view here.pod (w, none)) (fun _ => True)
      (fun _ v' => ∃ files,
        (found.gpx ≠ none ∧ files = found ∨ found.gpx = none ∧ files.NamesOneDirection) ∧
        files.options = found.options ∧ files.solution = found.solution ∧ v'.stored = files ∧
        v'.found = files) (openRouteDownload here) := by
    refine makes_openRouteDownload (fun _ _ hgpx => ?_)
      (fun status runId epsg reversed s _ hreversed hnone hs => ?_) fun _ _ _ _ _ => trivial
    · exact ⟨found, .inl ⟨hgpx, rfl⟩, rfl, rfl, RouteFiles.onto_onto .., rfl⟩
    · refine ⟨{ found with gpx := some (.whole (CosmonautJob.gpxOf epsg reversed s)) },
        .inr ⟨hnone, reversed, hreversed, epsg, s, rfl⟩, rfl, rfl, ?_, rfl⟩
      exact RouteFiles.onto_made ..
  obtain ⟨_, h⟩ := hmakes.returned openRouteDownload_unhandled hes hw
  exact h

/-- **When an interrupted toggle heals.** From every consistent stored state and whatever the disks
hold, whichever call of the toggle has raised, and whatever visits have raised since: the next visit
to Route & Download that returns, on any pod, leaves options and track in storage that name one
direction, which is the one that the map shows, if and only if after its pull it finds no track, or
one in the direction of the options that it finds. -/
theorem toggle_heals_iff {s : Solution} {w w₁ w₂ : World} {es : List (Event machine)}
    (hstored : w.Consistent s) (hinterrupted : Interrupted w w₁)
    (hes : (openRouteDownload here).Executes es (.ok ())) (hchain : Chain w₁ es w₂) :
    Healed here s w₂ ↔ FindsOneDirection here w₁ := by
  obtain ⟨row, reversed₀, -, hsolution, -⟩ := hstored
  obtain ⟨files, hcases, hoptions, hfiles, hstored₂, hdisk₂⟩ := visit_files hes hchain
  have hs : (w₂.disk here.pod).route.solution = some (.whole s) := by
    rw [hdisk₂, hfiles, RouteFiles.onto, hinterrupted.solution hsolution, Option.some_or]
  have hhealed : Healed here s w₂ ↔ files.NamesOneDirection := by
    constructor
    · rintro ⟨reversed, horder, htrack, -⟩
      rw [hstored₂] at horder htrack
      exact ⟨reversed, horder, htrack⟩
    · rintro ⟨reversed, horder, htrack⟩
      refine ⟨reversed, by rw [hstored₂, horder], by rwa [hstored₂],
        fun job es positions w' hpoly hw' => ?_⟩
      obtain ⟨reversed', horder', rfl⟩ := positions_of_polyline hs hpoly hw'
      rw [hdisk₂, horder] at horder'
      rw [Option.some.inj horder']
  rw [hhealed]
  rcases hcases with ⟨hgpx, rfl⟩ | ⟨hgpx, hnames⟩
  · refine ⟨fun h => .inr h, fun h => ?_⟩
    rcases h with h | h
    · exact absurd h hgpx
    · exact h
  · exact iff_of_true hnames (.inl hgpx)

end

/-! ## A toggle whose deletion fails -/

/-- A route of two points. -/
def shortRoute : Solution := ⟨"Distance", 1, [(1, 2), (3, 4)]⟩

/-- A completed job whose route was never toggled. -/
def deliveredWorld : World :=
  let _ := External.plain
  let row := { Row.ofModel .blank with status := .completed }
  let track := CosmonautJob.gpxOf row.columns.epsg false shortRoute
  let empty : Files := fun _ => none
  { World.fresh row with
    stored := (empty.write .solution ⟨.whole shortRoute, 0, none⟩).write .gpx
      ⟨.whole track, 0, none⟩ }

/-- The first toggle of its direction, on pod 0. -/
def firstToggle : Pool machine Err Unit :=
  let _ := External.plain
  ⟨deliveredWorld, [toggleRouteDirection ⟨0, 0, none⟩ true]⟩

/-- Object storage fails before the deletion has reached any copy of the track. -/
def deletionLost : List (ℕ × Choice) :=
  usually (List.replicate 5 0) ++ [(0, { Choice.usual with
    fault := some .objectStorage, reached := fun _ => false, reachedStored := fun _ => false })]

/-- The next visit to Route & Download, on a pod. -/
def nextVisit (pod : ℕ) : Pool machine Err Unit :=
  let _ := External.plain
  ⟨(firstToggle.play deletionLost).2.world, [openRouteDownload ⟨pod, 0, none⟩]⟩

theorem deliveredWorld_consistent :
    let _ := External.plain
    deliveredWorld.Consistent shortRoute :=
  ⟨_, false, rfl, rfl, rfl, rfl⟩

theorem firstToggle_interrupted :
    let _ := External.plain
    Interrupted deliveredWorld (firstToggle.play deletionLost).2.world := by
  intro _
  have hrun : Run firstToggle (firstToggle.play deletionLost).1 _ := Run.of_play _ _
  obtain ⟨hexecutes, hchain⟩ := hrun.executes_alone (r := .error (.fault .objectStorage)) rfl
  exact .toggle hexecutes hchain

/-- On the other pods the next visit heals it. -/
theorem toggle_heals_otherPod :
    let _ := External.plain
    let visit := (nextVisit 1).play (usually (List.replicate 9 0))
    visit.2.threads = [.ret ()] ∧ Healed ⟨1, 0, none⟩ shortRoute visit.2.world := by
  intro _ visit
  have hrun : Run (nextVisit 1) visit.1 visit.2 := Run.of_play _ _
  obtain ⟨hexecutes, hchain⟩ := hrun.executes_alone (r := .ok ()) rfl
  have hfinds : FindsOneDirection ⟨1, 0, none⟩ (firstToggle.play deletionLost).2.world := by
    refine .inr ⟨false, ?_, 25833, shortRoute, ?_⟩
    · decide +kernel
    · decide +kernel
  have hheals :=
    toggle_heals_iff deliveredWorld_consistent firstToggle_interrupted hexecutes hchain
  exact ⟨rfl, hheals.2 hfinds⟩

/-- **A visit that makes the disagreement permanent**: the pod of the toggle still has the new
options, which nothing in storage replaces, and the pull brings the old track, which is kept. -/
theorem toggle_unhealed :
    let _ := External.plain
    let visit := (nextVisit 0).play (usually (List.replicate 10 0))
    deliveredWorld.Consistent shortRoute ∧
    Interrupted deliveredWorld (firstToggle.play deletionLost).2.world ∧
    (openRouteDownload ⟨0, 0, none⟩).Executes visit.1 (.ok ()) ∧
    Chain (firstToggle.play deletionLost).2.world visit.1 visit.2.world ∧
    ¬Healed ⟨0, 0, none⟩ shortRoute visit.2.world := by
  intro _ visit
  have hvisit : Run (nextVisit 0) visit.1 visit.2 := Run.of_play _ _
  obtain ⟨hexecutes, hchain⟩ := hvisit.executes_alone (r := .ok ()) rfl
  refine ⟨deliveredWorld_consistent, firstToggle_interrupted, hexecutes, hchain, ?_⟩
  rintro ⟨reversed, horder, htrack, -⟩
  have hreversed : orderOf visit.2.world.stored.route.options = some true := by
    decide +kernel
  have hgpx : visit.2.world.stored.route.gpx =
      some (.whole (CosmonautJob.gpxOf 25833 false shortRoute)) := by
    decide +kernel
  obtain rfl := Option.some.inj (hreversed.symm.trans horder)
  cases htrack.unique ⟨25833, shortRoute, hgpx⟩

end Cosmonaut
