import Cosmonaut.Interleaving.View
import Cosmonaut.Model.Requests

/-!
# The files of the route

What a pod and object storage have of the route, and what the operations make of it. Some operations
may be such that nothing fails in them, others may fail at any call.

* `Served`: the world, with the solution that the pipeline has computed last.
* `RouteFiles`, `View`: the solution, the track and the direction, in storage and on one pod.
* `makes_ask` and the rules after it: what the operations make of a view.
* `Op.Aloof`: the operations that leave every view alone.
* `Makes.returned`: a program that returns although nothing in it can hide a failure.
-/

namespace Cosmonaut

open Interleaving Program

/-- The solution computed last. -/
def solutionAfter : Op → Choice → Option Solution → Option Solution
  | .pipeline _, c, last => if c.fault = none then some c.solution else last
  | _, _, last => last

/-- The machine with the solution computed last. -/
abbrev recorded : Machine sig := machine.recording solutionAfter

/-- The same, when only some things may happen. -/
abbrev served (P : Choice → Prop) : Machine sig := recorded.restrict P

/-- Nothing fails. -/
def Choice.Faultless (c : Choice) : Prop := c.fault = none

/-- A world, and the solution computed last. -/
abbrev Served := World × Option Solution

/-! ## The files of a route -/

/-- The files of a route in one place. -/
@[ext] structure RouteFiles where
  solution : Option (Bytes Solution)
  gpx : Option (Bytes Gpx)
  options : Option (Bytes Bool)

namespace RouteFiles

/-- These files, copied onto others. -/
def onto (a b : RouteFiles) : RouteFiles :=
  ⟨a.solution.or b.solution, a.gpx.or b.gpx, a.options.or b.options⟩

theorem onto_onto (a b : RouteFiles) : (a.onto b).onto a = a.onto b := by
  have hor : ∀ {α : Type} (x y : Option α), (x.or y).or x = x.or y := by
    intro α x y
    cases x <;> cases y <;> rfl
  simp only [onto, hor]

/-- A new track, copied onto what it was made from. -/
theorem onto_made (a b : RouteFiles) (g : Bytes Gpx) :
    RouteFiles.onto { a.onto b with gpx := some g } a = { a.onto b with gpx := some g } := by
  have h := onto_onto a b
  simp only [onto, RouteFiles.mk.injEq, Option.some_or] at h ⊢
  exact ⟨h.1, trivial, h.2.2⟩

/-- A file of the route under its name. -/
def get (r : RouteFiles) : (f : FileName) → Option (Bytes f.Doc)
  | .solution => r.solution
  | .gpx => r.gpx
  | .routeOptions => r.options
  | _ => none

/-- One of the files is written. -/
def put (r : RouteFiles) : (f : FileName) → Bytes f.Doc → RouteFiles
  | .solution, b => { r with solution := some b }
  | .gpx, b => { r with gpx := some b }
  | .routeOptions, b => { r with options := some b }
  | _, _ => r

theorem put_put (r : RouteFiles) (f : FileName) (b b' : Bytes f.Doc) :
    (r.put f b).put f b' = r.put f b' := by
  cases f <;> rfl

/-- Files are deleted. -/
def drop (r : RouteFiles) (fs : List FileName) : RouteFiles where
  solution := if .solution ∈ fs then none else r.solution
  gpx := if .gpx ∈ fs then none else r.gpx
  options := if .routeOptions ∈ fs then none else r.options

end RouteFiles

/-- The file belongs to the route. -/
def FileName.ofRoute : FileName → Bool
  | .solution | .gpx | .routeOptions => true
  | _ => false

def Files.route (d : Files) : RouteFiles :=
  ⟨d.content .solution, d.content .gpx, d.content .routeOptions⟩

section

variable {d d' : Files} {f : FileName}

theorem get_route (hf : f.ofRoute = true) : d.route.get f = d.content f := by
  cases f <;> first | rfl | cases hf

theorem route_congr (h : ∀ f : FileName, f.ofRoute = true → d f = d' f) : d.route = d'.route := by
  have hfile : ∀ f : FileName, f.ofRoute = true → d.content f = d'.content f := by
    intro f hf
    rw [Files.content, h f hf, Files.content]
  rw [Files.route, hfile _ rfl, hfile _ rfl, hfile _ rfl, Files.route]

theorem route_pull (time : FileName → ℕ) :
    (d.pull d' (fun _ => true) time).route = d'.route.onto d.route := by
  simp only [Files.route, RouteFiles.onto, Files.content_pull]

theorem route_upload : (d.upload d' fun _ => true).route = d.route.onto d'.route := by
  have hfile : ∀ f, (d.upload d' fun _ => true).content f = (d.content f).or (d'.content f) := by
    intro f
    cases hcontent : d.content f with
    | none => simp [Files.content, Files.upload, Option.map_eq_none_iff.1 hcontent]
    | some b => exact Files.content_upload hcontent
  simp only [Files.route, RouteFiles.onto, hfile]

theorem route_write (e : Entry f) : (d.write f e).route = d.route.put f e.content := by
  have hother : ∀ g, g ≠ f → (d.write f e).content g = d.content g := by
    intro g hg
    rw [Files.content, Files.write_other _ _ _ _ hg, Files.content]
  have hself : (d.write f e).content f = some e.content := by
    rw [Files.content, Files.write_self, Option.map_some]
  cases f <;> simp [Files.route, RouteFiles.put, hself, hother]

theorem route_delete (fs : List FileName) : (d.delete (· ∈ fs)).route = d.route.drop fs := by
  have hfile : ∀ f, (d.delete (· ∈ fs)).content f = if f ∈ fs then none else d.content f := by
    intro f
    by_cases hf : f ∈ fs <;> simp [Files.content, Files.delete, hf]
  simp only [Files.route, RouteFiles.drop, hfile]

end

/-! ## Views -/

/-- Of the row: its status, its run and the EPSG code of its coordinates. -/
abbrev RouteRow := Status × Option ℕ × ℤ

def Row.route (r : Row) : RouteRow := (r.status, r.runId, r.columns.epsg)

/-- What a pod and object storage have of the route, with the solution computed last. -/
@[ext] structure View where
  row : Option RouteRow
  stored : RouteFiles
  found : RouteFiles
  computed : Option Solution

def Served.view (pod : ℕ) (w : Served) : View where
  row := w.1.row.map Row.route
  stored := w.1.stored.route
  found := (w.1.disk pod).route
  computed := w.2

/-- From every world with the view `v` of the pod, the program ends in a world with a view of which
`F` holds, or `E` if it raises, if only what `P` allows may happen. -/
abbrev Makes (P : Choice → Prop) (pod : ℕ) (v : View) {α : Type} (E : View → Prop)
    (F : α → View → Prop)
    (p : App α) : Prop :=
  p.Turns (served P) (Served.view pod) v E F

/-- Something may fail. -/
def MayFail (P : Choice → Prop) : Prop := ∃ c, P c ∧ c.fault ≠ none

/-- If something may fail, then `E` holds whatever it leaves of the files. -/
def Tolerates (P : Choice → Prop) (E : View → Prop) (v : View) : Prop :=
  MayFail P → ∀ v' : View, v'.row = v.row → E v'

variable {P : Choice → Prop} {here : Site} {pod : ℕ} {v : View} {α β : Type} {E E' : View → Prop}
  {F F' : α → View → Prop} {G : β → View → Prop} {p : App α} {o : Op}

theorem not_mayFail : ¬MayFail Choice.Faultless := by
  rintro ⟨c, hc, hfault⟩
  exact hfault hc

theorem tolerates_faultless : Tolerates Choice.Faultless E v := fun h => absurd h not_mayFail

/-- What an operation does is a matter of the other choices. -/
theorem perform_withoutFault (o : Op) (c : Choice) (w : World) :
    perform o { c with fault := none } w = perform o c w := by
  cases o <;> rfl

theorem exec_withoutFault (o : Op) (c : Choice) (w : World) :
    exec o { c with fault := none } w = perform o c w :=
  (exec_of_no_fault rfl).trans (perform_withoutFault o c w)

/-- An operation that fails by itself changes nothing. -/
theorem perform_error {c : Choice} {w w' : World} {f : Fault} (h : perform o c w = (.error f, w')) :
    w' = w := by
  cases o <;> simp only [perform, World.require, World.update, World.file] at h <;>
    (try split at h) <;> (try split at h) <;> simp_all [Prod.mk.injEq]

theorem solutionAfter_of_error {c : Choice} {w w' : World} {f : Fault} {last : Option Solution}
    (h : perform o c w = (.error f, w')) : solutionAfter o c last = last := by
  cases o <;> first | rfl | cases (Prod.mk.inj h).1

/-- The rule of a single operation. -/
theorem makes_call {F : o.Ans → View → Prop}
    (hok : ∀ c (w : Served) a, P c → w.view pod = v → (exec o c w.1).1 = .ok a →
      F a (Served.view pod ((exec o c w.1).2, solutionAfter o c w.2)))
    (herr : ∀ c (w : Served) f, P c → w.view pod = v → (exec o c w.1).1 = .error f →
      E (Served.view pod ((exec o c w.1).2, solutionAfter o c w.2))) :
    Makes P pod v E F (ask o) := by
  refine turns_call (fun c w a w' hw h => ?_) fun c w f w' hw h => ?_
  · obtain rfl : w' = ((exec o c.1 w.1).2, solutionAfter o c.1 w.2) := (congrArg Prod.snd h).symm
    exact hok c.1 w a c.2 hw (congrArg Prod.fst h)
  · obtain rfl : w' = ((exec o c.1 w.1).2, solutionAfter o c.1 w.2) := (congrArg Prod.snd h).symm
    exact herr c.1 w f c.2 hw (congrArg Prod.fst h)

theorem fault_ne_none {c : Choice} {e : Fault} (h : o.fault c = some e) : c.fault ≠ none := by
  intro hc
  rw [Op.fault, hc] at h
  cases h

theorem fault_of_ok {c : Choice} {w : World} {a : o.Ans} (h : (exec o c w).1 = .ok a) :
    o.fault c = none := by
  by_contra hne
  obtain ⟨e, he⟩ := Option.ne_none_iff_exists'.1 hne
  rw [exec_of_fault he] at h
  cases h

/-- The rule of an operation that may change the files. -/
theorem makes_ask {F : o.Ans → View → Prop} (hfail : Tolerates P E v)
    (hok : ∀ c (w : Served) a w', w.view pod = v → perform o c w.1 = (.ok a, w') →
      o.fault c = none → F a (Served.view pod (w', solutionAfter o c w.2)))
    (herr : ∀ c (w : Served) f, w.view pod = v → (perform o c w.1).1 = .error f → E v) :
    Makes P pod v E F (ask o) := by
  refine makes_call (fun c w a _ hw hans => ?_) fun c w f hc hw hans => ?_
  · have hfault := fault_of_ok hans
    rw [exec_of_no_fault hfault] at hans ⊢
    exact hok c w a _ hw (Prod.ext hans rfl) hfault
  · rcases hfault : o.fault c with _ | e
    · rw [exec_of_no_fault hfault] at hans ⊢
      have hperform : perform o c w.1 = (.error f, (perform o c w.1).2) := Prod.ext hans rfl
      rw [perform_error hperform, solutionAfter_of_error hperform, hw]
      exact herr c w f hw hans
    · apply hfail ⟨c, hc, fault_ne_none hfault⟩ _
      change (exec o c w.1).2.row.map Row.route = _
      rw [exec_error_row hans, ← hw]
      rfl

/-- The rule of an operation on the row, which leaves everything as it was if it fails. -/
theorem makes_row {F : o.Ans → View → Prop} (hinterrupted : ∀ c w, interrupted o c w = w)
    (hcomputed : ∀ c last, solutionAfter o c last = last)
    (hok : ∀ c (w : Served) a w', w.view pod = v → perform o c w.1 = (.ok a, w') →
      F a (Served.view pod (w', w.2)))
    (herr : E v) : Makes P pod v E F (ask o) := by
  refine makes_call (fun c w a _ hw hans => ?_) fun c w f _ hw hans => ?_
  · have hexec := exec_ok hans
    rw [hexec] at hans ⊢
    rw [hcomputed]
    exact hok c w a _ hw (Prod.ext hans rfl)
  · have hsame : (exec o c w.1).2 = w.1 := by
      rcases hfault : o.fault c with _ | e
      · rw [exec_of_no_fault hfault] at hans ⊢
        exact perform_error (f := f) (Prod.ext hans rfl)
      · rw [exec_of_fault hfault, hinterrupted]
    rw [hsame, hcomputed]
    change E (Served.view pod w)
    rwa [hw]

/-! ## Operations that leave every view alone -/

/-- The operation leaves the view of the pod alone. -/
abbrev Op.Aloof (pod : ℕ) (o : Op) : Prop := Unseen (M := recorded) (Served.view pod) o

/-- The operation writes stored files, or computes a solution. -/
def Op.delivers : Op → Bool
  | .uploadWorkDir _ | .deleteFiles .. | .deleteJob _ | .pipeline _ => true
  | _ => false

theorem exec_stored_of_not_delivers {c : Choice} {w : World} (h : o.delivers = false) :
    (exec o c w).2.stored = w.stored := by
  have hstep := exec_stored_cases o c w
  generalize (exec o c w).2.stored = stored at hstep
  cases hstep with
  | same => rfl
  | upload | delete | deleteJob => cases h

theorem aloof_of_files (hrow : ∀ c w, (exec o c w).2.row.map Row.route = w.row.map Row.route)
    (hstored : ∀ c w, (exec o c w).2.stored.route = w.stored.route)
    (hcomputed : ∀ c last, solutionAfter o c last = last)
    (htouches : ∀ f : FileName, f.ofRoute = true → o.touches pod f = false) : o.Aloof pod := by
  rintro c ⟨w, last⟩
  have hfound : ((exec o c w).2.disk pod).route = (w.disk pod).route :=
    route_congr fun f hf => exec_disk_of_not_touches (htouches f hf)
  change Served.view pod ((exec o c w).2, solutionAfter o c last) = _
  rw [Served.view, Served.view, hrow, hstored, hfound, hcomputed]

theorem aloof_of (hrow : ∀ c w, (exec o c w).2.row.map Row.route = w.row.map Row.route)
    (hdelivers : o.delivers = false)
    (htouches : ∀ f : FileName, f.ofRoute = true → o.touches pod f = false) : o.Aloof pod := by
  refine aloof_of_files hrow (fun c w => ?_) (fun c last => ?_) htouches
  · rw [exec_stored_of_not_delivers hdelivers]
  · cases o <;> first | rfl | cases hdelivers

/-- An operation on no pod leaves all views alone, unless it writes the row. -/
theorem aloof_of_remote (hrow : o.writesRow = false) (hpod : o.pod? = none) : o.Aloof pod := by
  refine aloof_of (fun c w => by rw [exec_row_of_not_writesRow hrow]) ?_ fun f _ => ?_
  · cases o <;> first | rfl | cases hpod
  · cases o <;> first | rfl | cases hpod

/-- An operation of the pod leaves its view alone if it touches no file of the route. -/
theorem aloof_of_local (hlocal : o.isLocal here = true)
    (htouches : ∀ f : FileName, f.ofRoute = true → o.touches here.pod f = false) :
    o.Aloof here.pod := by
  refine aloof_of (fun c w => ?_) ?_ htouches
  · rw [exec_row_of_not_writesRow (by cases o <;> first | rfl | cases hlocal)]
  · cases o <;> first | rfl | cases hlocal

theorem aloof_updateColumns {vs : List ColumnValue}
    (h : ∀ columns : Columns, (columns.putAll vs).epsg = columns.epsg) :
    (Op.updateColumns vs).Aloof pod := by
  refine aloof_of (fun c w => ?_) rfl fun _ _ => rfl
  rcases hf : (Op.updateColumns vs).fault c with _ | e
  case some => rw [exec_of_fault hf, interrupted_row]
  rw [exec_of_no_fault hf, perform, World.require]
  cases hr : w.row with
  | none => simp [hr]
  | some r => simp [Row.route, Row.putAll, h]

theorem aloof_raiseStage (stage : ℕ) : (Op.raiseStage stage).Aloof pod := by
  refine aloof_of (fun c w => ?_) rfl fun _ _ => rfl
  rcases hf : (Op.raiseStage stage).fault c with _ | e
  case some => rw [exec_of_fault hf, interrupted_row]
  rw [exec_of_no_fault hf, perform, World.require]
  cases hr : w.row with
  | none => simp [hr]
  | some r => simp [Row.route, Row.putAll, Columns.putAll, Columns.put]

theorem aloof_markEndNotified : Op.markEndNotified.Aloof pod := by
  refine aloof_of (fun c w => ?_) rfl fun _ _ => rfl
  rcases hf : Op.markEndNotified.fault c with _ | e
  case some => rw [exec_of_fault hf, interrupted_row]
  rw [exec_of_no_fault hf, perform]
  cases hr : w.row with
  | none => simp [hr]
  | some r =>
    dsimp only
    split <;> simp [hr, Row.route, Row.putAll, Columns.putAll, Columns.put]

/-- A deletion of files that are not of the route. -/
theorem aloof_deleteFiles {names : List FileName} (h : ∀ f ∈ names, f.ofRoute = false) :
    (Op.deleteFiles pod names).Aloof pod := by
  refine aloof_of_files (fun c w => ?_) (fun c w => ?_) (fun _ _ => rfl) fun f hf => ?_
  · rw [exec_row_of_not_writesRow rfl]
  · have hstep := exec_stored_cases (.deleteFiles pod names) c w
    generalize (exec (.deleteFiles pod names) c w).2.stored = stored at hstep
    cases hstep with
    | same => rfl
    | delete pod names fs hfs =>
      refine route_congr fun f hf => Files.delete_other _ _ _ ?_
      by_contra hreached
      rw [h f (hfs f (Bool.of_not_eq_false hreached))] at hf
      cases hf
  · have hname : f ∉ names := by
      intro hmem
      rw [h f hmem] at hf
      cases hf
    simp [Op.touches, hname]

theorem ne_of_ofSelector {f g : FileName} (hf : f.ofSelector = true) (hg : g.ofRoute = true) :
    f ≠ g := by
  rintro rfl
  cases f <;> simp_all [FileName.ofSelector, FileName.ofRoute]

/-- The street selector works on no file of the route. -/
theorem editMenu_aloof : EditMenu here (Op.Aloof here.pod) where
  pull := aloof_of_local (by simp [Op.isLocal]) fun f hf => by
    cases f <;> simp_all [Op.touches, FileName.ofRoute]
  fileExists f hf := aloof_of_local (by simp [Op.isLocal]) fun g hg => rfl
  mtime s := aloof_of_local (by simp [Op.isLocal]) fun g hg => rfl
  readFile f hf := aloof_of_local (by simp [Op.isLocal]) fun g hg => rfl
  cachedChecksum s := aloof_of_local (by simp [Op.isLocal]) fun g hg => rfl
  cacheChecksum s _ _ := aloof_of_local (by simp [Op.isLocal]) fun g hg => rfl
  openFile f hf := aloof_of_local (by simp [Op.isLocal]) fun g hg => by
    simp [Op.touches, ne_of_ofSelector hf hg]
  writeFile f doc hf := aloof_of_local (by simp [Op.isLocal]) fun g hg => by
    simp [Op.touches, ne_of_ofSelector hf hg]
  replaceFile s := aloof_of_local (by simp [Op.isLocal]) fun g hg => by
    cases g <;> simp_all [Op.touches, FileName.ofRoute]
  removeFile s := aloof_of_local (by simp [Op.isLocal]) fun g hg => by
    cases g <;> simp_all [Op.touches, FileName.ofRoute]
  cachedFeatures s := aloof_of_local (by simp [Op.isLocal]) fun g hg => rfl
  cacheFeatures s _ _ := aloof_of_local (by simp [Op.isLocal]) fun g hg => rfl
  newFeatures features := aloof_of_local (by simp [Op.isLocal]) fun g hg => rfl
  getFeatures refs := aloof_of_local (by simp [Op.isLocal]) fun g hg => rfl
  addTooltips refs := aloof_of_local (by simp [Op.isLocal]) fun g hg => rfl

theorem adoptsDownload_aloof : AdoptsDownload (Op.Aloof pod) :=
  fun _ _ => aloof_updateColumns fun _ => rfl

theorem new_aloof (job : JobModel) : Asks (Op.Aloof here.pod) (StreetSelector.new here job) := by
  have hlegacy : Asks (Op.Aloof here.pod) (adoptLegacyEdits here job) := by
    refine always_ite (fun _ => trivial) fun _ =>
      .bind (asks_ask (aloof_of_local (by simp [Op.isLocal]) fun _ _ => rfl)) fun _ =>
      always_ite (fun _ => ?_) fun _ => trivial
    have hload : Asks (Op.Aloof here.pod) (loadFile here .streetEdits) := by
      refine .bind (asks_ask (aloof_of_local (by simp [Op.isLocal]) fun _ _ => rfl)) fun b => ?_
      cases b <;> trivial
    exact .bind hload fun edits => .bind (asks_ask (aloof_updateColumns fun _ => rfl)) fun _ =>
      .bind (asks_ask (aloof_deleteFiles (by simp [FileName.ofRoute]))) fun _ => trivial
  exact .bind hlegacy fun _ => trivial

theorem ensureProjected_aloof [External] (sel : StreetSelector) :
    Asks (Op.Aloof here.pod) (sel.ensureProjected here) :=
  (editMenu_aloof.ensureProjected adoptsDownload_aloof sel).always

/-! ## Single operations -/

/-- The rule of an operation that leaves the view alone, whether it fails or not. -/
theorem makes_aloof {F : o.Ans → View → Prop} (ho : o.Aloof pod) (hfail : MayFail P → E v)
    (hok : ∀ c (w : Served) a, w.view pod = v → (perform o c w.1).1 = .ok a → F a v)
    (herr : ∀ c (w : Served) f, w.view pod = v → (perform o c w.1).1 = .error f → E v) :
    Makes P pod v E F (ask o) := by
  have hview : ∀ c (w : Served), w.view pod = v →
      Served.view pod ((exec o c w.1).2, solutionAfter o c w.2) = v :=
      fun c w hw => (ho c w).trans hw
  refine makes_call (fun c w a _ hw hans => ?_) fun c w f hc hw hans => ?_
  · rw [hview c w hw]
    rw [exec_ok hans] at hans
    exact hok c w a hw hans
  · rw [hview c w hw]
    rcases hfault : o.fault c with _ | e
    · rw [exec_of_no_fault hfault] at hans
      exact herr c w f hw hans
    · exact hfail ⟨c, hc, fault_ne_none hfault⟩

/-- A program whose operations leave every view alone. -/
theorem makes_same (hp : Asks (Op.Aloof pod) p) :
    Makes P pod v (fun v' => v = v') (fun _ v' => v = v') p :=
  Always.turns (hp.mono fun _ ho => Unseen.keeps fun c w => ho c.1 w) rfl

theorem view_setDisk {w : World} {last : Option Solution} {d : Files} :
    Served.view pod (w.setDisk pod d, last) =
      { Served.view pod (w, last) with found := d.route } := by
  rw [Served.view, setDisk_disk_self]
  rfl

/-- An operation that does not fail by itself. -/
theorem makes_done {F : o.Ans → View → Prop} (hfail : Tolerates P E v)
    (hdone : ∀ c (w : Served), w.view pod = v → o.fault c = none → ∃ a w',
      perform o c w.1 = (.ok a, w') ∧ F a (Served.view pod (w', solutionAfter o c w.2))) :
    Makes P pod v E F (ask o) := by
  refine makes_ask hfail (fun c w a w' hw hperform hfault => ?_) fun c w f hw hans => ?_
  · obtain ⟨b, m, hb, hF⟩ := hdone c w hw hfault
    rw [hperform] at hb
    obtain ⟨ha, rfl⟩ := Prod.mk.inj hb
    rwa [Except.ok.inj ha]
  · have hfault : o.fault { c with fault := none } = none := rfl
    obtain ⟨b, m, hb, -⟩ := hdone { c with fault := none } w hw hfault
    rw [perform_withoutFault] at hb
    rw [hb] at hans
    cases hans

theorem makes_pull {F : Unit → View → Prop} (hfail : Tolerates P E v)
    (h : F () { v with found := v.stored.onto v.found }) :
    Makes P pod v E F (ask (.pullWorkDir pod)) := by
  refine makes_done (o := .pullWorkDir pod) hfail fun c w hw _ => ⟨(), _, rfl, ?_⟩
  subst hw
  change F () (Served.view pod (w.1.setDisk pod _, w.2))
  rw [view_setDisk, route_pull]
  exact h

theorem makes_upload {F : Unit → View → Prop} (hfail : Tolerates P E v)
    (h : F () { v with stored := v.found.onto v.stored }) :
    Makes P pod v E F (ask (.uploadWorkDir pod)) := by
  refine makes_done (o := .uploadWorkDir pod) hfail fun c w hw _ => ⟨(), _, rfl, ?_⟩
  subst hw
  change F ()
    { Served.view pod w with stored := ((w.1.disk pod).upload w.1.stored fun _ => true).route }
  rw [route_upload]
  exact h

theorem makes_delete {fs : List FileName} {F : Unit → View → Prop} (hfail : Tolerates P E v)
    (h : F () { v with stored := v.stored.drop fs, found := v.found.drop fs }) :
    Makes P pod v E F (ask (.deleteFiles pod fs)) := by
  refine makes_done (o := .deleteFiles pod fs) hfail fun c w hw _ => ⟨(), _, rfl, ?_⟩
  subst hw
  change F () { Served.view pod (w.1.setDisk pod _, w.2) with
    stored := (w.1.stored.delete (· ∈ fs)).route }
  rw [view_setDisk, route_delete, route_delete]
  exact h

theorem makes_pipeline {site : Site} {F : Unit → View → Prop} (hfail : Tolerates P E v)
    (h : ∀ s, F () { v with found := v.found.put .solution (.whole s), computed := some s }) :
    Makes P site.pod v E F (ask (.pipeline site)) := by
  refine makes_done (o := .pipeline site) hfail fun c w hw hfault => ⟨(), _, rfl, ?_⟩
  have hnone : c.fault = none := by
    by_contra hne
    obtain ⟨f, hf⟩ := Option.ne_none_iff_exists'.1 hne
    rw [Op.fault, hf] at hfault
    cases f <;> cases hfault
  subst hw
  change F () (Served.view site.pod
    (w.1.setDisk site.pod _, if c.fault = none then some c.solution else w.2))
  rw [view_setDisk, route_write, if_pos hnone]
  exact h c.solution

theorem makes_fileExists {f : FileName} (hf : f.ofRoute = true) {F : Bool → View → Prop}
    (hfail : Tolerates P E v) (h : F (v.found.get f).isSome v) :
    Makes P pod v E F (ask (.fileExists pod f)) := by
  refine makes_done (o := .fileExists pod f) hfail fun c w hw _ => ⟨_, _, rfl, ?_⟩
  subst hw
  rw [Served.view, get_route hf, Files.content, Option.isSome_map] at h
  exact h

theorem makes_open {site : Site} {f : FileName} {F : Unit → View → Prop} (hfail : Tolerates P E v)
    (h : F () { v with found := v.found.put f .torn }) :
    Makes P site.pod v E F (ask (.openFile site f)) := by
  refine makes_done (o := .openFile site f) hfail fun c w hw _ => ⟨(), _, rfl, ?_⟩
  subst hw
  change F () (Served.view site.pod (w.1.setDisk site.pod _, w.2))
  rw [view_setDisk, route_write]
  exact h

theorem makes_write {site : Site} {f : FileName} {doc : f.Doc} {F : Unit → View → Prop}
    (hfail : Tolerates P E v) (h : F () { v with found := v.found.put f (.whole doc) }) :
    Makes P site.pod v E F (ask (.writeFile site f doc)) := by
  refine makes_done (o := .writeFile site f doc) hfail fun c w hw _ => ⟨(), _, rfl, ?_⟩
  subst hw
  change F () (Served.view site.pod (w.1.setDisk site.pod _, w.2))
  rw [view_setDisk, route_write]
  exact h

theorem makes_rewriteFile {f : FileName} {doc : f.Doc} {F : Unit → View → Prop}
    (hfail : Tolerates P E v) (h : F () { v with found := v.found.put f (.whole doc) }) :
    Makes P here.pod v E F (rewriteFile here f doc) := by
  refine Turns.bind (F := fun _ v' => v' = { v with found := v.found.put f .torn })
    (makes_open hfail rfl) ?_
  rintro _ _ rfl
  exact makes_write hfail (by simpa only [RouteFiles.put_put] using h)

theorem makes_loadFile {f : FileName} (hf : f.ofRoute = true) {F : f.Doc → View → Prop}
    (hfail : Tolerates P E v) (hok : ∀ doc, v.found.get f = some (.whole doc) → F doc v)
    (herr : (∀ doc, v.found.get f ≠ some (.whole doc)) → E v) :
    Makes P here.pod v E F (loadFile here f) := by
  refine Turns.bind (F := fun b v' => v' = v ∧ v.found.get f = some b)
    (makes_ask (o := .readFile here.pod f) hfail ?_ ?_) ?_
  · rintro c w b w' rfl hperform -
    simp only [perform, World.file] at hperform
    split at hperform
    · rename_i e he
      simp only [Except.map, Prod.mk.injEq, Except.ok.injEq] at hperform
      obtain ⟨rfl, rfl⟩ := hperform
      refine ⟨rfl, ?_⟩
      rw [Served.view, get_route hf, Files.content, he]
      rfl
    · cases (Prod.mk.inj hperform).1
  · rintro c w x rfl hans
    apply herr
    intro doc hdoc
    rw [Served.view, get_route hf, Files.content] at hdoc
    obtain ⟨e, he, -⟩ := Option.map_eq_some_iff.1 hdoc
    simp [perform, World.file, he, Except.map] at hans
  · rintro b v' ⟨rfl, hb⟩
    cases b with
    | whole doc => exact turns_ret (hok doc hb)
    | torn =>
      refine turns_throw (herr fun doc hdoc => ?_)
      rw [hb] at hdoc
      cases hdoc

/-! ## The route's functions -/

/-- The order that the options say, unless they cannot be read. -/
def orderOf : Option (Bytes Bool) → Option Bool
  | none => some false
  | some (.whole reversed) => some reversed
  | some .torn => none

theorem makes_isRouteReversed {F : Bool → View → Prop} (hfail : Tolerates P E v)
    (hok : ∀ reversed, orderOf v.found.options = some reversed → F reversed v)
    (herr : orderOf v.found.options = none → E v) :
    Makes P here.pod v E F (CosmonautJob.isRouteReversed here) := by
  refine Turns.bind (F := fun exists' v' => v = v' ∧ exists' = (v.found.get .routeOptions).isSome)
    (makes_fileExists rfl hfail ⟨rfl, rfl⟩) ?_
  rintro _ _ ⟨rfl, rfl⟩
  refine turns_ite (fun hsome => makes_loadFile (f := .routeOptions) rfl hfail
    (fun doc hdoc => hok doc ?_) fun hnot => herr ?_) fun hnone => turns_ret (hok false ?_)
  · change v.found.options = _ at hdoc
    rw [hdoc]
    rfl
  · obtain ⟨b, hb⟩ := Option.isSome_iff_exists.1 hsome
    cases b with
    | whole doc => exact absurd hb (hnot doc)
    | torn =>
      change v.found.options = _ at hb
      rw [hb]
      rfl
  · change ¬v.found.options.isSome = true at hnone
    rw [Bool.not_eq_true, Option.isSome_eq_false_iff, Option.isNone_iff_eq_none] at hnone
    rw [hnone]
    rfl

section

variable [External]

/-- The name of a track ends in its direction. -/
theorem gpxOf_name_getLast (epsg : ℤ) (reversed : Bool) (s : Solution) :
    (CosmonautJob.gpxOf epsg reversed s).name.toList.getLast? =
      some (if reversed then 'd' else ')') := by
  cases reversed <;> simp [CosmonautJob.gpxOf, String.toList_append, List.getLast?_cons,
    List.getLast?_append]

/-- A track is in one direction only. -/
theorem gpxOf_direction {epsg epsg' : ℤ} {a b : Bool} {s s' : Solution}
    (h : CosmonautJob.gpxOf epsg a s = CosmonautJob.gpxOf epsg' b s') : a = b := by
  have hlast := congrArg (fun g : Gpx => g.name.toList.getLast?) h
  simp only [gpxOf_name_getLast, Option.some.injEq] at hlast
  cases a <;> cases b <;> simp_all

/-- **What `create_gpx` makes of a view**: a track that is there is kept. -/
theorem makes_createGpx {F : Unit → View → Prop} {url : String} {epsg : ℤ} {reversed : Bool}
    (hfail : Tolerates P E v) (hkeep : v.found.gpx ≠ none → F () v)
    (hmake : ∀ s, v.found.gpx = none → v.found.solution = some (.whole s) → F () { v with
      found := { v.found with gpx := some (.whole (CosmonautJob.gpxOf epsg reversed s)) } })
    (herr : v.found.gpx = none → (∀ s, v.found.solution ≠ some (.whole s)) → E v) :
    Makes P here.pod v E F (CosmonautJob.createGpx here url epsg reversed) := by
  have hqr : ∀ {v' : View}, v'.row = v.row → F () v' →
      Makes P here.pod v' E F (rewriteFile here .qrCode url) := fun hrow h =>
    makes_rewriteFile (fun hmay v'' hv'' => hfail hmay v'' (hv''.trans hrow)) h
  refine Turns.bind (F := fun exists' v' => v = v' ∧ exists' = (v.found.get .gpx).isSome)
    (makes_fileExists rfl hfail ⟨rfl, rfl⟩) ?_
  rintro _ _ ⟨rfl, rfl⟩
  change Makes P here.pod v E F (if (!v.found.gpx.isSome) = true then _ else _)
  refine turns_ite (fun hnone => ?_) fun hsome => hqr rfl (hkeep ?_)
  · simp only [Bool.not_eq_true', Option.isSome_eq_false_iff, Option.isNone_iff_eq_none] at hnone
    refine Turns.bind (F := fun s v' => v = v' ∧ v.found.solution = some (.whole s))
      (makes_loadFile (f := .solution) rfl hfail (fun s hs => ⟨rfl, hs⟩) (herr hnone)) ?_
    rintro s _ ⟨rfl, hs⟩
    refine Turns.bind (F := fun _ v' => v' = { v with
      found := { v.found with gpx := some (.whole (CosmonautJob.gpxOf epsg reversed s)) } })
      (makes_rewriteFile hfail rfl) ?_
    rintro _ _ rfl
    exact hqr rfl (hmake s hnone hs)
  · intro hnone
    rw [hnone] at hsome
    exact hsome rfl

omit [External] in
theorem aloof_presignedUrl : Op.presignedUrl.Aloof pod :=
  aloof_of_remote rfl rfl

/-- **What `create_qr_code_routing` makes of a view**: without a track, the one in the order
found. -/
theorem makes_createQrCodeRouting {F : Unit → View → Prop} {job : JobModel}
    (hfail : Tolerates P E v)
    (hkeep : ∀ reversed, orderOf v.found.options = some reversed → v.found.gpx ≠ none → F () v)
    (hmake : ∀ reversed s, orderOf v.found.options = some reversed → v.found.gpx = none →
      v.found.solution = some (.whole s) → F () { v with
        found := { v.found with gpx := some (.whole (CosmonautJob.gpxOf job.epsg reversed s)) } })
    (herr : orderOf v.found.options = none ∨
      v.found.gpx = none ∧ (∀ s, v.found.solution ≠ some (.whole s)) → E v) :
    Makes P here.pod v E F (CosmonautJob.createQrCodeRouting here job) := by
  refine Turns.bind (F := fun _ v' => v = v')
    (makes_aloof aloof_presignedUrl (fun hmay => hfail hmay v rfl) (fun _ _ _ _ _ => rfl)
      fun c w f _ h => by cases h) ?_
  rintro url _ rfl
  refine Turns.bind (F := fun reversed v' => v = v' ∧ orderOf v.found.options = some reversed)
    (makes_isRouteReversed hfail (fun reversed h => ⟨rfl, h⟩) fun h => herr (.inl h)) ?_
  rintro reversed _ ⟨rfl, hreversed⟩
  exact makes_createGpx hfail (hkeep reversed hreversed) (fun s => hmake reversed s hreversed)
    fun hnone hs => herr (.inr ⟨hnone, hs⟩)

omit [External] in
theorem aloof_loadRow : Op.loadRow.Aloof pod :=
  aloof_of_remote rfl rfl

theorem makes_load {F : JobModel → View → Prop} (hfail : MayFail P → E v)
    (hok : ∀ row, v.row = some (Row.route row) → F (JobModel.ofRow row) v)
    (herr : v.row = none → E v) :
    Makes P pod v E F CosmonautJob.load := by
  refine Turns.bind (F := fun row v' => v = v' ∧ v.row = some row.route)
    (makes_aloof (o := .loadRow) aloof_loadRow hfail ?_ ?_) ?_
  · rintro c w row rfl hans
    simp only [perform] at hans
    split at hans
    · rename_i r hr
      cases hans
      refine ⟨rfl, ?_⟩
      rw [Served.view, hr, Option.map_some]
    · cases hans
  · rintro c w f rfl hans
    apply herr
    simp only [perform] at hans
    split at hans
    · cases hans
    · rename_i hr
      rw [Served.view, hr, Option.map_none]
  · rintro row _ ⟨rfl, hrow⟩
    exact turns_ret (hok row hrow)

/-- What a pod finds of the route after a pull. -/
def View.afterPull (v : View) : RouteFiles := v.stored.onto v.found

/-- The pod has these files, and has uploaded them. -/
def View.shared (v : View) (found : RouteFiles) : View :=
  { v with found := found, stored := found.onto v.stored }

/-- **What a visit to Route & Download makes of a view**: a track that is found is kept and
uploaded. -/
theorem makes_openRouteDownload {F : Unit → View → Prop}
    (hkeep : ∀ reversed, orderOf v.afterPull.options = some reversed → v.afterPull.gpx ≠ none →
      F () (v.shared v.afterPull))
    (hmake : ∀ status runId epsg reversed s, v.row = some (status, runId, epsg) →
      orderOf v.afterPull.options = some reversed → v.afterPull.gpx = none →
      v.afterPull.solution = some (.whole s) → F () (v.shared
        { v.afterPull with gpx := some (.whole (CosmonautJob.gpxOf epsg reversed s)) }))
    (herr : v.row = none ∨ orderOf v.afterPull.options = none ∨
        v.afterPull.gpx = none ∧ (∀ s, v.afterPull.solution ≠ some (.whole s)) →
      ∀ v', v'.row = v.row → v'.stored = v.stored → v'.computed = v.computed → E v') :
    Makes Choice.Faultless here.pod v E F (openRouteDownload here) := by
  refine Turns.bind (F := fun job v' => v = v' ∧ ∃ row, v.row = some (Row.route row) ∧
    job.epsg = row.columns.epsg) (makes_load (fun h => absurd h not_mayFail)
    (fun row hrow => ⟨rfl, row, hrow, rfl⟩) fun hnone => herr (.inl hnone) v rfl rfl rfl) ?_
  rintro job _ ⟨rfl, row, hrow, hepsg⟩
  have hrest : Makes Choice.Faultless here.pod v E F (do
      ask (.pullWorkDir here.pod)
      CosmonautJob.createQrCodeRouting here job
      ask (.uploadWorkDir here.pod)) := by
    refine Turns.bind (F := fun _ v' => v' = { v with found := v.afterPull })
      (makes_pull tolerates_faultless rfl) ?_
    rintro _ _ rfl
    refine Turns.bind (F := fun _ v' => F () { v' with stored := v'.found.onto v'.stored })
      (makes_createQrCodeRouting tolerates_faultless hkeep (fun reversed s hreversed hnone hs => ?_)
        fun h => herr (.inr h) _ rfl rfl rfl) fun _ v' hv' => makes_upload tolerates_faultless hv'
    have hmade := hmake _ _ _ reversed s hrow hreversed hnone hs
    rw [← hepsg] at hmade
    exact hmade
  by_cases hcompleted : job.status = .completed
  · rw [if_pos hcompleted]
    have hstage : Makes Choice.Faultless here.pod v E (fun _ v' => v = v')
      (CosmonautJob.raiseStage job 5) := by
      refine Turns.bind (F := fun _ v' => v = v') (makes_aloof (aloof_raiseStage 5)
        (fun h => absurd h not_mayFail) (fun _ _ _ _ _ => rfl) fun c w f hw hans => ?_) ?_
      · refine herr (.inl ?_) v rfl rfl rfl
        simp only [perform, World.require] at hans
        split at hans
        · cases hans
        · rename_i hnone
          rw [← hw, Served.view, hnone, Option.map_none]
      · rintro _ _ rfl
        exact turns_ret rfl
    apply Turns.bind hstage
    rintro _ _ rfl
    exact hrest
  · rw [if_neg hcompleted]
    exact hrest

/-- The positions of a solution, in either direction. -/
def positionsOf (epsg : ℤ) (reversed : Bool) (s : Solution) : List Point :=
  let positions := s.path.map fun p => (External.project epsg 4326 p).swap
  if reversed then positions.reverse else positions

/-- **What `get_route_polyline` shows**, and it leaves the view alone. -/
theorem makes_getRoutePolyline {F : Option (List Point) → View → Prop} {job : JobModel}
    (hok : ∀ reversed s, orderOf v.found.options = some reversed →
      v.found.solution = some (.whole s) → F (some (positionsOf job.epsg reversed s)) v)
    (hnone : v.found.solution = none → F none v) (herr : E v) :
    Makes Choice.Faultless here.pod v E F (CosmonautJob.getRoutePolyline here job) := by
  refine Turns.bind (F := fun exists' v' => v = v' ∧ exists' = (v.found.get .solution).isSome)
    (makes_fileExists rfl tolerates_faultless ⟨rfl, rfl⟩) ?_
  rintro _ _ ⟨rfl, rfl⟩
  refine turns_ite (fun hsome => ?_) fun hno => turns_ret (hnone ?_)
  · refine Turns.bind (F := fun s v' => v = v' ∧ v.found.solution = some (.whole s))
      (makes_loadFile (f := .solution) rfl tolerates_faultless (fun s hs => ⟨rfl, hs⟩)
        fun _ => herr) ?_
    rintro s _ ⟨rfl, hs⟩
    refine Turns.bind (F := fun reversed v' => v = v' ∧ orderOf v.found.options = some reversed)
      (makes_isRouteReversed tolerates_faultless (fun reversed h => ⟨rfl, h⟩) fun _ => herr) ?_
    rintro reversed _ ⟨rfl, hreversed⟩
    exact turns_ret (hok reversed s hreversed hs)
  · change ¬v.found.solution.isSome = true at hno
    rwa [Bool.not_eq_true, Option.isSome_eq_false_iff, Option.isNone_iff_eq_none] at hno

end

/-! ## Executions in which every call has answered -/

/-- **An execution in which every call has answered is one in which nothing fails.** -/
theorem ends_faultless {p : App α} {es : List (Event machine)} {r : Except Err α} {w w' : World}
    (h : p.Executes es r) (hall : ∀ e ∈ es, Replied e) (hw : Chain w es w')
    (last : Option Solution) :
    ∃ last', p.Ends (served Choice.Faultless) (w, last) r (w', last') := by
  induction h generalizing w last with
  | ret a =>
    obtain rfl : w = w' := hw
    exact ⟨last, .ret a _⟩
  | throw x =>
    obtain rfl : w = w' := hw
    exact ⟨last, .throw x _⟩
  | @op o k t before after ans es r _ _ ih =>
    obtain ⟨rfl, hallowed, hrest⟩ := hw
    obtain ⟨a, ha⟩ := hall _ (List.mem_cons_self ..)
    replace ha : ans = .ok a := ha
    rw [ha] at hallowed ih
    obtain ⟨c, hperform⟩ := after_of_answered hallowed rfl
    obtain ⟨last', hends⟩ := ih (fun e he => hall e (List.mem_cons_of_mem _ he)) hrest
      (solutionAfter o { c with fault := none } last)
    let c' : (served Choice.Faultless).Choice := ⟨{ c with fault := none }, rfl⟩
    have hexec : (served Choice.Faultless).exec o c' (before, last) =
        (.ok a, after, solutionAfter o { c with fault := none } last) := by
      have hfault : o.fault { c with fault := none } = none := rfl
      change ((exec o { c with fault := none } before).1,
        (exec o { c with fault := none } before).2, _) = _
      rw [exec_of_no_fault hfault, perform_withoutFault, hperform]
    refine ⟨last', .op o k c' ?_⟩
    rw [hexec]
    exact hends

/-- **What a program that has returned has made of the view**, if its handlers cannot hide a
failure. -/
theorem Makes.returned {p : App α} {es : List (Event machine)} {a : α} {w w' : World}
    {last : Option Solution} (h : Makes Choice.Faultless pod (Served.view pod (w, last)) E F p)
    (hp : p.Unhandled machine) (hes : p.Executes es (.ok a)) (hw : Chain w es w') :
    ∃ last', F a (Served.view pod (w', last')) := by
  obtain ⟨last', hends⟩ := ends_faultless hes (hp es a hes) hw last
  exact ⟨last', (Keeping.ends (h (w, last) rfl) hends).2⟩

theorem unhandled_ask (o : Op) : (ask o).Unhandled machine := by
  have hstraight : (ask o).Straight .fault machine := straight_call _
  exact hstraight.unhandled

theorem rewriteFile_unhandled {f : FileName} (doc : f.Doc) :
    (rewriteFile here f doc).Unhandled machine :=
  .bind (unhandled_ask _) fun _ => unhandled_ask _

theorem loadFile_unhandled (f : FileName) : (loadFile here f).Unhandled machine := by
  refine .bind (unhandled_ask _) fun b => ?_
  cases b with
  | whole doc => exact unhandled_ret doc
  | torn => exact unhandled_throw _

theorem isRouteReversed_unhandled : (CosmonautJob.isRouteReversed here).Unhandled machine :=
  .bind (unhandled_ask _) fun _ => unhandled_ite (loadFile_unhandled _) (unhandled_ret _)

section

variable [External]

theorem load_unhandled : CosmonautJob.load.Unhandled machine :=
  .bind (unhandled_ask _) fun _ => unhandled_ret _

theorem createQrCodeRouting_unhandled (job : JobModel) :
    (CosmonautJob.createQrCodeRouting here job).Unhandled machine := by
  refine .bind (unhandled_ask _) fun url => .bind isRouteReversed_unhandled fun reversed =>
    .bind (unhandled_ask _) fun exists' => unhandled_ite ?_ (rewriteFile_unhandled _)
  exact .bind (loadFile_unhandled _) fun s => .bind (rewriteFile_unhandled _) fun _ =>
    rewriteFile_unhandled _

theorem openRouteDownload_unhandled : (openRouteDownload here).Unhandled machine := by
  have hrest : ∀ job, (do
      ask (.pullWorkDir here.pod)
      CosmonautJob.createQrCodeRouting here job
      ask (.uploadWorkDir here.pod)).Unhandled machine := fun job =>
    .bind (unhandled_ask _) fun _ => .bind (createQrCodeRouting_unhandled job)
      fun _ => unhandled_ask _
  refine .bind load_unhandled fun job => unhandled_ite ?_ (hrest job)
  have hstage : (CosmonautJob.raiseStage job 5).Unhandled machine :=
    .bind (unhandled_ask _) fun _ => unhandled_ret _
  exact .bind hstage fun _ => hrest job

theorem getRoutePolyline_unhandled (job : JobModel) :
    (CosmonautJob.getRoutePolyline here job).Unhandled machine := by
  refine .bind (unhandled_ask _) fun exists' => unhandled_ite ?_ (unhandled_ret _)
  exact .bind (loadFile_unhandled _) fun s => .bind isRouteReversed_unhandled
    fun _ => unhandled_ret _

end

end Cosmonaut
