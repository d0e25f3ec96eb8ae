import Cosmonaut.Model.JobRuns
import Cosmonaut.Storage.Route
import Cosmonaut.Street.MadeCurrent

/-!
# The delivered track

Requests that are served one after the other, each as a whole, on any pods: submits, worker runs,
cancels, resets, restarts, visits to Route & Download, and toggles of the direction. Each pod has
its own disk. A run may fail at any call, and so may all requests but visits and toggles.

* `Operations`: requests in sequence, with the solution that the pipeline has computed last.
* `Delivered`: if a run has ended COMPLETED, the stored track is that of its solution, in the stored
  order.
* `delivered_step`: what a request must find to keep it so.
* `delivered_always_iff`: the track is delivered in all states exactly if no run finds an older
  track, and no visit an order that was never stored.
* `older_track_delivered`: a worker that has the track of an earlier run delivers it again.
-/

namespace Cosmonaut

open Interleaving Program

/-! ## Whole operations -/

/-- The requests that lead to a route and deliver it. -/
def Request.isOfRoute : Request → Bool
  | .startComputation | .cancelComputation | .restartComputation | .resetJob => true
  | .openRouteDownload | .toggleRouteDirection _ | .routingWorker => true
  | _ => false

/-- The requests of Route & Download, which deliver a track. -/
def Request.delivers : Request → Bool
  | .openRouteDownload | .toggleRouteDirection _ => true
  | _ => false

/-- A visit or a toggle is served as a whole: nothing fails in it. The others may fail anywhere. -/
def Request.Whole : Request → Choice → Prop
  | .openRouteDownload | .toggleRouteDirection _ => Choice.Faultless
  | _ => fun _ => True

/-- A request that was served from its beginning to its end. -/
structure Operation where
  here : Site
  request : Request
  before : Served
  after : Served

section

variable [External]

/-- Requests that were served one after the other. -/
inductive Operations : Served → List Operation → Prop
  | nil (w : Served) : Operations w []
  | cons {w m : Served} {here : Site} {request : Request} {result : Except Err Unit}
      {ops : List Operation} (hroute : request.isOfRoute = true)
      (hends : (request.program here).Ends (served request.Whole) w result m)
      (hops : Operations m ops) :
      Operations w (⟨here, request, w, m⟩ :: ops)

/-- If a run has ended COMPLETED, the stored files are the solution that it has computed and the
track of this solution, in the order that the stored options say. -/
def Delivered (w : Served) : Prop :=
  ∀ r, w.1.row = some r → r.status = .completed →
    ∃ solution reversed, w.2 = some solution ∧
      w.1.stored.content .solution = some (.whole solution) ∧
      orderOf (w.1.stored.content .routeOptions) = some reversed ∧
      w.1.stored.content .gpx = some (.whole (CosmonautJob.gpxOf r.columns.epsg reversed solution))

/-- What the pod has of the route after a pull. -/
def Served.found (w : Served) (pod : ℕ) : RouteFiles := w.1.stored.route.onto (w.1.disk pod).route

/-- A run that ends COMPLETED finds no track, or the very one that it would write. -/
def FindsNoOtherTrack (here : Site) (before after : Served) : Prop :=
  ∀ r r', before.1.row = some r → r.status ≠ .completed →
    after.1.row = some r' → r'.status = .completed →
    (before.found here.pod).gpx = none ∨ ∃ solution reversed, after.2 = some solution ∧
      orderOf (before.found here.pod).options = some reversed ∧
      (before.found here.pod).gpx =
        some (.whole (CosmonautJob.gpxOf r.columns.epsg reversed solution))

/-- A visit shows a finished run on a pod that has kept no order which is not stored. -/
def FindsNoOtherOrder (here : Site) (before : Served) : Prop :=
  ∀ r, before.1.row = some r → r.status = .completed →
    before.1.stored.content .routeOptions = none →
      (before.1.disk here.pod).content .routeOptions ≠ some (.whole true)

/-- What a run and a visit to Route & Download must find. -/
def Operation.Meets (e : Operation) : Prop :=
  match e.request with
  | .routingWorker => FindsNoOtherTrack e.here e.before e.after
  | .openRouteDownload => FindsNoOtherOrder e.here e.before
  | _ => True

end

/-! ## Views of a finished run -/

/-- No run has ended COMPLETED. -/
def View.Unfinished (v : View) : Prop := ∀ runId epsg, v.row ≠ some (.completed, runId, epsg)

section

variable [External]

/-- The stored track is that of the computed solution. -/
def View.Delivered (v : View) : Prop :=
  ∀ runId epsg, v.row = some (.completed, runId, epsg) →
    ∃ solution reversed, v.computed = some solution ∧
      v.stored.solution = some (.whole solution) ∧ orderOf v.stored.options = some reversed ∧
      v.stored.gpx = some (.whole (CosmonautJob.gpxOf epsg reversed solution))

theorem delivered_iff {w : Served} (pod : ℕ) : Delivered w ↔ (w.view pod).Delivered := by
  constructor
  · intro h runId epsg hrow
    obtain ⟨r, hr, hroute⟩ := Option.map_eq_some_iff.1 hrow
    obtain ⟨hstatus, hrun⟩ := Prod.mk.inj hroute
    obtain ⟨-, rfl⟩ := Prod.mk.inj hrun
    exact h r hr hstatus
  · intro h r hr hstatus
    apply h r.runId r.columns.epsg
    change w.1.row.map Row.route = _
    rw [hr, Option.map_some, Row.route, hstatus]

theorem View.Unfinished.delivered {v : View} (h : v.Unfinished) : v.Delivered :=
  fun runId epsg hrow => absurd hrow (h runId epsg)

end

/-- The operation ends a run COMPLETED. -/
def Op.completes : Op → Bool
  | .finish _ .completed => true
  | _ => false

variable {here : Site} {pod : ℕ} {v : View} {o : Op} {P : Choice → Prop} {E : View → Prop}

theorem unfinished_iff {w : Served} :
    (w.view pod).Unfinished ↔ ∀ r, w.1.row = some r → r.status ≠ .completed := by
  constructor
  · intro h r hr hstatus
    apply h r.runId r.columns.epsg
    change w.1.row.map Row.route = _
    rw [hr, Option.map_some, Row.route, hstatus]
  · intro h runId epsg hrow
    obtain ⟨r, hr, hroute⟩ := Option.map_eq_some_iff.1 hrow
    exact h r hr (Prod.mk.inj hroute).1

/-- **Only the end of a run makes the row COMPLETED.** -/
theorem keeps_unfinished (h : o.completes = false) :
    Keeps (M := served P) (Served.view pod) View.Unfinished o := by
  intro c w hw
  rw [unfinished_iff] at hw ⊢
  intro r' hr' hstatus
  have hstep := exec_run_cases (o := o) (c := c.1) (w := w.1) hr'
  generalize hcall : (⟨o, (exec o c.1 w.1).1⟩ : Call sig) = call at hstep
  cases hstep with
  | same hr hs => exact hw _ hr (hs ▸ hstatus)
  | finished hr hs hb hend =>
    obtain rfl : o = .finish _ _ := congrArg Call.op hcall
    rw [← hend, hstatus] at h
    cases h
  | won _ hs | claimed _ hs | startFailed _ hs | cancelled _ hs | reset _ hs | swept _ hs
  | created _ hs =>
    rw [hs] at hstatus
    cases hstatus

/-- No request but a worker's delivery ends a run. -/
theorem completesNone_menu : Menu here (fun o => o.completes = false) where
  stays o ho := by cases o <;> first | rfl | cases ho
  shared o ho := by cases o <;> first | rfl | cases ho
  inputs _ _ := rfl
  due := rfl
  task _ := rfl
  raises _ _ := rfl
  log _ := rfl

theorem adopts_completesNone : Adopts here (fun o => o.completes = false) := by
  intro o ho
  cases o <;> first | rfl | cases ho

theorem makes_unfinished {α : Type} {p : App α} (hp : Asks (fun o => o.completes = false) p)
    (hv : v.Unfinished) : Makes P pod v View.Unfinished (fun _ => View.Unfinished) p :=
  Always.turns (hp.mono fun _ ho => keeps_unfinished ho) hv

/-! ## A finished run -/

/-- The view is as before, or no run has ended COMPLETED. -/
def SameOrUnfinished (v v' : View) : Prop := v = v' ∨ v'.Unfinished

theorem makes_markPending {F : Bool → View → Prop}
    (hpending : ∀ v' : View, v'.Unfinished → F true v')
    (hsame : F false v) (herr : E v) : Makes P pod v E F (ask .markPending) := by
  refine makes_row (o := .markPending) (fun _ _ => rfl) (fun _ _ => rfl)
    (fun c w a w' hw h => ?_) herr
  simp only [perform, World.update] at h
  split at h
  · split at h
    · cases h
      apply hpending _
      intro runId epsg hrow
      simp [Served.view, Row.route] at hrow
    · cases h
      rwa [← hw] at hsame
  · cases h
    rwa [← hw] at hsame

/-- A program that starts where no run has ended COMPLETED. -/
theorem makes_orUnfinished {α : Type} {p : App α} {v₀ : View}
    (hp : Asks (fun o => o.completes = false) p) (hv : v.Unfinished) :
    Makes P pod v (SameOrUnfinished v₀) (fun _ => View.Unfinished) p :=
  (makes_unfinished hp hv).mono (fun _ h => .inr h) fun _ _ h => h

theorem makes_reset (job : JobModel) : Makes P here.pod v (SameOrUnfinished v)
    (fun r (v' : View) => if r.2 = true then v'.Unfinished else v = v')
    (CosmonautJob.reset here job) := by
  refine Turns.bind (F := fun won (v' : View) => if won = true then v'.Unfinished else v = v')
    (makes_markPending (fun _ h => h) rfl (.inl rfl)) fun won v' hv' => ?_
  cases won with
  | false => exact turns_ret hv'
  | true =>
    apply Turns.bind (makes_orUnfinished (asks_ask rfl) hv')
    intro _ v' hv'
    apply Turns.bind (makes_orUnfinished (asks_ask rfl) hv')
    intro _ v' hv'
    apply Turns.bind (makes_orUnfinished (asks_ask rfl) hv')
    intro _ v' hv'
    exact turns_ret hv'

section

variable [External]

/-- While no run has ended COMPLETED, the requests of the pages leave it so. -/
theorem Request.unfinished {r : Request} (hr : r.computes = false) (hv : v.Unfinished) :
    Makes P pod v View.Unfinished (fun _ => View.Unfinished) (r.program here) :=
  makes_unfinished (Request.asks hr completesNone_menu (fun _ => adopts_completesNone)
    (fun _ _ _ => rfl)
    (fun _ _ => rfl) (fun _ _ _ => rfl) fun _ _ => rfl) hv

/-- The load of a finished run shows that it is. -/
theorem makes_load_finished {runId : Option ℕ} {epsg : ℤ}
    (hv : v.row = some (.completed, runId, epsg)) :
    Makes P pod v (SameOrUnfinished v) (fun job v' => v = v' ∧ job.status = .completed)
      CosmonautJob.load := by
  refine makes_load (fun _ => .inl rfl) (fun row hrow => ⟨rfl, ?_⟩) fun hnone => ?_
  · rw [hv] at hrow
    exact (Prod.mk.inj (Option.some.inj hrow)).1.symm
  · rw [hv] at hnone
    cases hnone

/-- **The requests that deliver no track leave a finished run alone**, or reset it. -/
theorem Request.finished {r : Request} {runId : Option ℕ} {epsg : ℤ} (hroute : r.isOfRoute = true)
    (hdelivers : r.delivers = false) (hcomputes : r.computes = false)
    (hv : v.row = some (.completed, runId, epsg)) :
    Makes P here.pod v (SameOrUnfinished v) (fun _ => SameOrUnfinished v) (r.program here) := by
  cases r
  case startComputation =>
    apply Turns.bind (makes_load_finished hv)
    rintro job _ ⟨rfl, hstatus⟩
    refine turns_ite (fun h => ?_) fun _ => turns_ret (.inl rfl)
    rw [hstatus] at h
    rcases h with h | h <;> cases h
  case cancelComputation =>
    apply Turns.bind (makes_load_finished hv)
    rintro job _ ⟨rfl, hstatus⟩
    apply turns_ite (fun _ => turns_throw (.inl rfl))
    intro h
    rw [hstatus] at h
    exact absurd (by simp) h
  case restartComputation =>
    apply Turns.bind (makes_load_finished hv)
    rintro job _ ⟨rfl, hstatus⟩
    apply turns_ite (fun _ => turns_throw (.inl rfl))
    intro _
    apply Turns.bind (makes_reset job)
    intro r v' hr
    obtain ⟨job, done⟩ := r
    cases done with
    | false => exact turns_throw (.inl hr)
    | true =>
      apply Turns.bind (makes_orUnfinished (completesNone_menu.submit fun _ _ _ _ => rfl) hr)
      exact fun _ v' hv' => turns_ret (.inr hv')
  case resetJob =>
    apply Turns.bind (makes_load_finished hv)
    rintro job _ ⟨rfl, -⟩
    apply Turns.bind (makes_reset job)
    intro r v' hr
    obtain ⟨job, done⟩ := r
    cases done with
    | false => exact turns_throw (.inl hr)
    | true => exact turns_ret (.inr hr)
  all_goals cases hroute <;> cases hdelivers <;> cases hcomputes

/-- The pod has kept no order that is not stored. -/
def View.KeepsNoOrder (v : View) : Prop :=
  v.stored.options = none → v.found.options ≠ some (.whole true)

omit [External] in
/-- The order that a pod finds is the stored one, unless it has kept another. -/
theorem order_afterPull {d reversed : Bool} (hstored : orderOf v.stored.options = some d)
    (hfound : orderOf v.afterPull.options = some reversed) : d = reversed ↔ v.KeepsNoOrder := by
  rw [View.afterPull, RouteFiles.onto] at hfound
  rw [View.KeepsNoOrder]
  rcases ho : v.stored.options with _ | b
  · rw [ho] at hstored hfound
    obtain rfl := Option.some.inj hstored
    rcases hl : v.found.options with _ | _ | kept
    · rw [hl] at hfound
      simpa [orderOf] using hfound
    · rw [hl] at hfound
      cases hfound
    · rw [hl] at hfound
      obtain rfl : kept = reversed := Option.some.inj hfound
      cases kept <;> simp
  · rw [ho] at hstored hfound
    rw [Option.some_or, hstored] at hfound
    simpa using Option.some.inj hfound

/-- **A visit to a finished run delivers its track** exactly if the pod has kept no order which is
not stored. -/
theorem makes_visit_finished {runId : Option ℕ} {epsg : ℤ}
    (hv : v.row = some (.completed, runId, epsg)) (hd : v.Delivered) :
    Makes Choice.Faultless here.pod v (fun v' => v'.Delivered ↔ v.KeepsNoOrder)
      (fun _ v' => v'.Delivered ↔ v.KeepsNoOrder) (openRouteDownload here) := by
  obtain ⟨solution, d, hcomputed, hsolution, horder, hgpx⟩ := hd runId epsg hv
  have hfound : v.afterPull.gpx = v.stored.gpx := by
    rw [View.afterPull, RouteFiles.onto, hgpx, Option.some_or]
  refine makes_openRouteDownload (fun reversed hreversed _ => ?_)
    (fun status runId epsg reversed s _ _ hnone _ => ?_) fun h v' hrow hstored hcomputed' => ?_
  · rw [← order_afterPull horder hreversed]
    have hfiles : (v.shared v.afterPull).stored = v.afterPull := RouteFiles.onto_onto ..
    constructor
    · intro h
      obtain ⟨s, d', -, -, horder', hgpx'⟩ := h runId epsg hv
      rw [hfiles] at horder' hgpx'
      rw [hfound, hgpx] at hgpx'
      rw [gpxOf_direction (Bytes.whole.inj (Option.some.inj hgpx'))]
      exact Option.some.inj (horder'.symm.trans hreversed)
    · rintro rfl
      intro runId' epsg' hv'
      obtain ⟨-, hrow⟩ := Prod.mk.inj (Option.some.inj (hv.symm.trans hv'))
      obtain ⟨rfl, rfl⟩ := Prod.mk.inj hrow
      refine ⟨solution, d, hcomputed, ?_, ?_, ?_⟩
      · rw [hfiles, View.afterPull, RouteFiles.onto, hsolution, Option.some_or]
      · rw [hfiles, hreversed]
      · rw [hfiles, hfound, hgpx]
  · rw [hfound, hgpx] at hnone
    cases hnone
  · refine iff_of_true (fun runId' epsg' hv' => ?_) fun hnone hkept => ?_
    · rw [hrow] at hv'
      rw [hstored, hcomputed']
      exact hd runId' epsg' hv'
    · rcases h with h | h | ⟨h, -⟩
      · rw [hv] at h
        cases h
      · rw [View.afterPull, RouteFiles.onto, hnone, hkept] at h
        cases h
      · rw [hfound, hgpx] at h
        cases h

/-- **A toggle of a finished run delivers its track**, in the other direction. -/
theorem makes_toggle_finished {runId : Option ℕ} {epsg : ℤ} {reversed : Bool}
    (hv : v.row = some (.completed, runId, epsg)) (hd : v.Delivered) :
    Makes Choice.Faultless here.pod v View.Delivered (fun _ => View.Delivered)
      (toggleRouteDirection here reversed) := by
  obtain ⟨solution, d, hcomputed, hsolution, horder, hgpx⟩ := hd runId epsg hv
  refine Turns.bind (F := fun job v' => v = v' ∧ job.epsg = epsg)
    (makes_load (fun h => absurd h not_mayFail) (fun row hrow => ⟨rfl, ?_⟩) fun _ => hd) ?_
  · have hroute := Option.some.inj (hv.symm.trans hrow)
    exact (Prod.mk.inj (Prod.mk.inj hroute).2).2.symm
  rintro job _ ⟨rfl, rfl⟩
  refine Turns.bind (F := fun _ v' => v' = { v with found := v.afterPull })
    (makes_pull tolerates_faultless rfl) ?_
  rintro _ _ rfl
  refine Turns.bind (F := fun _ v' => v' = { v with found := v.afterPull })
    (makes_isRouteReversed tolerates_faultless (fun _ _ => rfl) fun _ => hd) ?_
  rintro found _ rfl
  refine turns_ite (fun _ => turns_throw hd) fun _ => ?_
  refine Turns.bind (F := fun _ v' => v'.Delivered) ?_ fun _ v' hv' => ?_
  · refine Turns.bind (F := fun _ v' => v' = { v with
      found := v.afterPull.put .routeOptions (.whole reversed) })
        (makes_rewriteFile tolerates_faultless rfl) ?_
    rintro _ _ rfl
    refine Turns.bind (F := fun _ v' => v' = { v with
      stored := v.stored.drop [.gpx]
      found := (v.afterPull.put .routeOptions (.whole reversed)).drop [.gpx] })
      (makes_delete tolerates_faultless rfl) ?_
    rintro _ _ rfl
    have hkept : v.afterPull.solution = some (.whole solution) := by
      rw [View.afterPull, RouteFiles.onto, hsolution, Option.some_or]
    refine Turns.bind (F := fun _ v' => v' = { v with
      stored := v.stored.drop [.gpx]
      found := ⟨some (.whole solution),
        some (.whole (CosmonautJob.gpxOf job.epsg reversed solution)),
        some (.whole reversed)⟩ }) (makes_createQrCodeRouting tolerates_faultless
      (fun _ _ hgpx => absurd rfl hgpx) (fun reversed' s hreversed _ hs => ?_) fun h => ?_) ?_
    · change v.afterPull.solution = _ at hs
      obtain rfl : solution = s := by simpa [hkept] using hs
      obtain rfl : reversed = reversed' := Option.some.inj hreversed
      simp [RouteFiles.drop, RouteFiles.put, hkept]
    · rcases h with h | ⟨-, h⟩
      · cases h
      · exact absurd hkept (h solution)
    · rintro _ _ rfl
      apply makes_upload tolerates_faultless
      intro runId' epsg' hv'
      obtain ⟨-, hrow⟩ := Prod.mk.inj (Option.some.inj (hv.symm.trans hv'))
      obtain ⟨rfl, rfl⟩ := Prod.mk.inj hrow
      exact ⟨solution, reversed, hcomputed, rfl, rfl, rfl⟩
  · refine Turns.bind (F := fun _ v' => v'.Delivered)
      (makes_getRoutePolyline (fun _ _ _ _ => hv') (fun _ => hv') hv') fun _ v' hv' => turns_ret hv'

/-! ## A run -/

omit [External] in
theorem aloof_appendLog {author : Option ℕ} {text : String} :
    (Op.appendLog author text).Aloof pod :=
  aloof_of_remote rfl rfl

omit [External] in
theorem notifySubmission_aloof (job : JobModel) : Asks (Op.Aloof pod) (notifySubmission job) :=
  always_ite (fun _ => .bind (asks_ask (aloof_of_remote rfl rfl)) fun _ => trivial) fun _ => trivial

/-- The row of a run. -/
def View.Runs (runId : ℕ) (epsg : ℤ) (v : View) : Prop := v.row = some (.running, some runId, epsg)

omit [External] in
theorem View.Runs.unfinished {runId : ℕ} {epsg : ℤ} (h : v.Runs runId epsg) : v.Unfinished := by
  intro runId' epsg' hrow
  rw [h] at hrow
  cases (Prod.mk.inj (Option.some.inj hrow)).1

omit [External] in
/-- Whatever fails in a run, no run has ended COMPLETED. -/
theorem View.Runs.tolerates {runId : ℕ} {epsg : ℤ} (h : v.Runs runId epsg) :
    Tolerates P View.Unfinished v :=
  fun _ _ hrow => View.Runs.unfinished (hrow.trans h)

/-- What a computation makes of the files that it has pulled: a new solution, and its track unless
one is there. -/
def RouteFiles.computed (found : RouteFiles) (epsg : ℤ) (reversed : Bool) (s : Solution) :
    RouteFiles :=
  { found with
    solution := some (.whole s)
    gpx := some (found.gpx.getD (.whole (CosmonautJob.gpxOf epsg reversed s))) }

/-- A run has computed a solution, and the pod has the files that belong to it. -/
def Computes (runId : ℕ) (epsg : ℤ) (v v' : View) : Prop :=
  v'.Runs runId epsg ∧ v'.stored = v.stored ∧ ∃ s reversed, v'.computed = some s ∧
    orderOf v.found.options = some reversed ∧ v'.found = v.found.computed epsg reversed s

theorem makes_computeRoute {runId : ℕ} {epsg : ℤ} (hv : v.Runs runId epsg) :
    Makes P here.pod v View.Unfinished (fun _ => Computes runId epsg v) (computeRoute here) := by
  have hsame : ∀ {v : View} {α : Type} {p : App α}, v.Runs runId epsg → Asks (Op.Aloof here.pod) p →
      Makes P here.pod v View.Unfinished (fun _ v' => v = v') p := by
    intro v α p hv hp
    refine (makes_same hp).mono ?_ fun _ _ h => h
    rintro _ rfl
    exact hv.unfinished
  have hlog : ∀ {v : View} {text}, v.Runs runId epsg → Makes P here.pod v View.Unfinished
      (fun _ v' => v = v') (ask (.appendLog here.run text)) :=
    fun hv => hsame hv (asks_ask aloof_appendLog)
  apply Turns.bind (hlog hv)
  rintro _ _ rfl
  refine Turns.bind (F := fun job v' => v = v' ∧ job.epsg = epsg)
    (makes_load (fun _ => hv.unfinished) (fun row hrow => ⟨rfl, ?_⟩) fun _ => hv.unfinished) ?_
  · have hroute := Option.some.inj (hv.symm.trans hrow)
    exact (Prod.mk.inj (Prod.mk.inj hroute).2).2.symm
  rintro job _ ⟨rfl, rfl⟩
  apply Turns.bind (hsame hv (notifySubmission_aloof job))
  rintro _ _ rfl
  apply Turns.bind (hsame hv (new_aloof job))
  rintro sel _ rfl
  apply Turns.bind (hsame hv (ensureProjected_aloof sel))
  rintro _ _ rfl
  refine Turns.bind (F := fun _ v' => ∃ s, v' = { v with
    found := { v.found with solution := some (.whole s) }, computed := some s })
    (makes_pipeline hv.tolerates fun s => ⟨s, rfl⟩) ?_
  rintro _ _ ⟨s, rfl⟩
  refine Turns.bind (hlog hv) ?_
  rintro _ _ rfl
  refine Turns.bind (F := fun _ => Computes runId job.epsg v) (makes_createQrCodeRouting
    (View.Runs.tolerates hv) (fun reversed hreversed hgpx => ?_)
    (fun reversed s' hreversed hnone hs => ?_) fun _ => View.Runs.unfinished hv) fun _ v' hv' => ?_
  · refine ⟨hv, rfl, s, reversed, rfl, hreversed, ?_⟩
    obtain ⟨b, hb⟩ := Option.ne_none_iff_exists'.1 hgpx
    change v.found.gpx = some b at hb
    simp [RouteFiles.computed, hb]
  · obtain rfl : s = s' := by simpa using hs
    change v.found.gpx = none at hnone
    exact ⟨hv, rfl, s, reversed, rfl, hreversed, by simp [RouteFiles.computed, hnone]⟩
  · refine (hlog hv'.1).mono (fun _ h => h) ?_
    rintro _ _ rfl
    exact hv'

/-- How a worker leaves a view: no run has ended COMPLETED, or one has stored what it has
computed. -/
def RunEnds (v v' : View) : Prop :=
  v'.Unfinished ∨ ∃ id runId epsg s reversed, v.row = some (.running, id, epsg) ∧
    v'.row = some (.completed, runId, epsg) ∧ v'.computed = some s ∧
    orderOf v.afterPull.options = some reversed ∧
    v'.stored = (v.afterPull.computed epsg reversed s).onto v.stored

omit [External] in
/-- A claim makes the row of a queued run that of the run. -/
theorem makes_claim {F : Option (ℕ × ℕ) → View → Prop} (hnone : F none v)
    (hsome : ∀ id epsg runId epoch, v.row = some (.running, id, epsg) →
      F (some (runId, epoch)) { v with row := some (.running, some runId, epsg) })
    (herr : E v) : Makes P pod v E F (ask .claim) := by
  refine makes_row (o := .claim) (fun _ _ => rfl) (fun _ _ => rfl) (fun c w a w' hw h => ?_) herr
  subst hw
  simp only [perform] at h
  split at h
  · rename_i r hr
    split at h
    · rename_i hqueued
      cases h
      have hrow : (w.view pod).row = some (.running, r.runId, r.columns.epsg) := by
        rw [Served.view, hr, Option.map_some, Row.route, hqueued.1]
      have hclaimed := hsome r.runId r.columns.epsg w.1.nextId w.1.epoch hrow
      simpa [Served.view, Row.route, hqueued.1] using hclaimed
    · cases h
      exact hnone
  · cases h
    exact hnone

omit [External] in
/-- The end of a run, COMPLETED. -/
theorem makes_finish {runId : ℕ} {epsg : ℤ} {F : Bool → View → Prop} (hv : v.Runs runId epsg)
    (hcompleted : F true { v with row := some (.completed, some runId, epsg) }) (herr : E v) :
    Makes P pod v E F (ask (.finish runId .completed)) := by
  refine makes_row (o := .finish runId .completed) (fun _ _ => rfl) (fun _ _ => rfl)
    (fun c w a w' hw h => ?_) herr
  subst hw
  obtain ⟨r, hr, hroute⟩ := Option.map_eq_some_iff.1 hv
  obtain ⟨hstatus, hrest⟩ := Prod.mk.inj hroute
  obtain ⟨hrun, hepsg⟩ := Prod.mk.inj hrest
  simp only [perform, World.update, hr, hstatus, hrun, true_and, decide_true, if_true] at h
  cases h
  simpa [Served.view, Row.route, hepsg] using hcompleted

/-- The files that a run has computed, and uploaded. -/
def Uploads (runId : ℕ) (epsg : ℤ) (v v' : View) : Prop :=
  v'.Runs runId epsg ∧ ∃ s reversed, v'.computed = some s ∧
    orderOf v.afterPull.options = some reversed ∧
    v'.stored = (v.afterPull.computed epsg reversed s).onto v.stored

/-- The steps of a run between its claim and its end. -/
def runBody (here : Site) : App Status :=
  tryExcept
    (do
      ask (.pullWorkDir here.pod)
      computeRoute here
      ask (.uploadWorkDir here.pod)
      return Status.completed)
    fun _ => do
      ask (.appendLog here.run "The run failed.")
      return Status.failed

/-- A run has uploaded what it has computed, or it has failed. -/
theorem makes_runBody (here : Site) {runId : ℕ} {epsg : ℤ} (hv : v.Runs runId epsg) :
    Makes P here.pod v View.Unfinished (fun status v' =>
      status = .completed ∧ Uploads runId epsg v v' ∨ status = .failed ∧ v'.Unfinished)
        (runBody here) := by
  refine Turns.tryCatch (E := View.Unfinished) ?_ fun e v' hv' => ?_
  · refine Turns.bind (F := fun _ v' => v' = { v with found := v.afterPull })
      (makes_pull hv.tolerates rfl) ?_
    rintro _ _ rfl
    have hruns : View.Runs runId epsg { v with found := v.afterPull } := hv
    apply Turns.bind (makes_computeRoute hruns)
    rintro _ v' ⟨hruns', hstored, s, reversed, hcomputed, horder, hfound⟩
    refine Turns.bind (F := fun _ => Uploads runId epsg v)
      (makes_upload hruns'.tolerates ⟨hruns', s, reversed, hcomputed, horder, ?_⟩)
      fun _ v' hv' => turns_ret (.inl ⟨rfl, hv'⟩)
    rw [hfound, hstored]
  · apply turns_ite (fun _ => turns_throw hv')
    intro _
    exact Turns.bind (makes_unfinished (asks_ask rfl) hv')
      fun _ v' hv' => turns_ret (.inr ⟨rfl, hv'⟩)

theorem makes_runJob (hv : v.Unfinished) :
    Makes P here.pod v (RunEnds v) (fun _ => RunEnds v) (runJob here computeRoute) := by
  refine Turns.bind (F := fun claimed v' => v = v' ∧ claimed = none ∨ ∃ id epsg runId epoch,
    v.row = some (.running, id, epsg) ∧ claimed = some (runId, epoch) ∧
    v' = { v with row := some (.running, some runId, epsg) })
    (makes_claim (.inl ⟨rfl, rfl⟩) (fun id epsg runId epoch hrow =>
      .inr ⟨id, epsg, runId, epoch, hrow, rfl, rfl⟩) (.inl hv)) ?_
  rintro _ v' (⟨rfl, rfl⟩ | ⟨id, epsg, runId, epoch, hrow, rfl, rfl⟩)
  · exact turns_ret (.inl hv)
  have hruns : View.Runs runId epsg { v with row := some (.running, some runId, epsg) } := rfl
  have hbody := makes_runBody (P := P) { here with run := some epoch } hruns
  apply Turns.bind (hbody.mono (fun _ h => .inl h) fun _ _ h => h)
  rintro _ v' (⟨rfl, hruns', s, reversed, hcomputed, horder, hstored⟩ | ⟨rfl, hfailed⟩)
  · refine Turns.bind (F := fun _ => RunEnds v) (makes_finish hruns' ?_ (.inl hruns'.unfinished))
      fun _ v' hv' => turns_ret hv'
    exact .inr ⟨id, some runId, epsg, s, reversed, hrow, rfl, hcomputed, horder, hstored⟩
  · refine Turns.bind ((makes_unfinished (asks_ask rfl) hfailed).mono (fun _ h => .inl h)
      fun _ _ h => h) fun _ v' hv' => turns_ret (.inl hv')

omit [External] in
theorem notifyUser_aloof (job : JobModel) (status : Status) :
    Asks (Op.Aloof pod) (notifyUser job status) :=
  notifyUser_asks (fun _ => aloof_of_remote rfl rfl) aloof_presignedUrl aloof_markEndNotified
    job status

/-- **What a worker makes of a view** in which no run has ended COMPLETED. -/
theorem makes_routingWorker (hv : v.Unfinished) :
    Makes P here.pod v (RunEnds v) (fun _ => RunEnds v) (routingWorker here) := by
  have hsame : ∀ {v' : View} {α : Type} {p : App α}, RunEnds v v' → Asks (Op.Aloof here.pod) p →
      Makes P here.pod v' (RunEnds v) (fun _ v'' => v' = v'') p := by
    intro v' α p hv' hp
    refine (makes_same hp).mono ?_ fun _ _ h => h
    rintro _ rfl
    exact hv'
  apply Turns.bind (hsame (.inl hv) (asks_ask (aloof_of_remote rfl rfl)))
  rintro m _ rfl
  cases m with
  | none => exact turns_ret (.inl hv)
  | some m =>
    apply Turns.bind (makes_runJob hv)
    intro ended v' hv'
    cases ended with
    | none => exact turns_ret hv'
    | some status =>
      have hload : Asks (Op.Aloof here.pod) (Program.tryCatch (some <$> CosmonautJob.load)
          fun e => if e = .fault .jobNotFound then return none else raise e) :=
        .tryCatch (.bind (.bind (asks_ask aloof_loadRow) fun _ => trivial) fun _ => trivial)
          fun _ => always_ite (fun _ => trivial) fun _ => trivial
      apply Turns.bind (hsame hv' hload)
      rintro job _ rfl
      cases job with
      | none => exact turns_ret hv'
      | some job =>
        refine (hsame hv' (notifyUser_aloof job status)).mono (fun _ h => h) ?_
        rintro _ _ rfl
        exact hv'

/-- A worker leaves a finished run alone. -/
theorem makes_worker_finished {runId : Option ℕ} {epsg : ℤ}
    (hv : v.row = some (.completed, runId, epsg)) :
    Makes P here.pod v (fun v' => v = v') (fun _ v' => v = v') (routingWorker here) := by
  apply Turns.bind (makes_same (asks_ask (aloof_of_remote rfl rfl)))
  rintro m _ rfl
  cases m with
  | none => exact turns_ret rfl
  | some m =>
    refine Turns.bind (F := fun ended v' => v = v' ∧ ended = none) ?_ ?_
    · refine Turns.bind (F := fun claimed v' => v = v' ∧ claimed = none)
        (makes_claim ⟨rfl, rfl⟩ (fun id epsg' _ _ hrow => ?_) rfl) ?_
      · rw [hv] at hrow
        cases (Prod.mk.inj (Option.some.inj hrow)).1
      · rintro _ _ ⟨rfl, rfl⟩
        exact turns_ret ⟨rfl, rfl⟩
    · rintro _ _ ⟨rfl, rfl⟩
      exact turns_ret rfl

/-! ## One request -/

/-- What a run has stored is its track exactly if it found no other. -/
theorem delivered_of_run {v' : View} {runId : Option ℕ} {epsg : ℤ} {s : Solution} {reversed : Bool}
    (hrow : v'.row = some (.completed, runId, epsg)) (hcomputed : v'.computed = some s)
    (horder : orderOf v.afterPull.options = some reversed)
    (hstored : v'.stored = (v.afterPull.computed epsg reversed s).onto v.stored) :
    v'.Delivered ↔ v.afterPull.gpx = none ∨
      v.afterPull.gpx = some (.whole (CosmonautJob.gpxOf epsg reversed s)) := by
  have hoptions : v'.stored.options = v.afterPull.options := by
    have h := congrArg RouteFiles.options (RouteFiles.onto_onto v.stored v.found)
    rw [hstored]
    exact h
  have hgpx : v'.stored.gpx =
      some (v.afterPull.gpx.getD (.whole (CosmonautJob.gpxOf epsg reversed s))) := by
    rw [hstored]
    rfl
  constructor
  · intro h
    obtain ⟨s', d, hcomputed', -, horder', hgpx'⟩ := h runId epsg hrow
    obtain rfl := Option.some.inj (hcomputed.symm.trans hcomputed')
    rw [hoptions, horder] at horder'
    obtain rfl := Option.some.inj horder'
    rw [hgpx] at hgpx'
    cases hfound : v.afterPull.gpx with
    | none => exact .inl rfl
    | some b =>
      rw [hfound] at hgpx'
      exact .inr hgpx'
  · intro h runId' epsg' hrow'
    obtain ⟨-, hroute⟩ := Prod.mk.inj (Option.some.inj (hrow.symm.trans hrow'))
    obtain ⟨rfl, rfl⟩ := Prod.mk.inj hroute
    refine ⟨s, reversed, hcomputed, ?_, by rw [hoptions, horder], ?_⟩
    · rw [hstored]
      rfl
    · rw [hgpx]
      rcases h with h | h
      · rw [h, Option.getD_none]
      · rw [h, Option.getD_some]

variable {request : Request} {result : Except Err Unit} {w m : Served}

/-- A worker that starts where no run has ended COMPLETED. -/
theorem delivered_worker (hends : (routingWorker here).Ends (served P) w result m)
    (hw : (w.view here.pod).Unfinished) : Delivered m ↔ FindsNoOtherTrack here w m := by
  rw [delivered_iff here.pod]
  rcases (makes_routingWorker hw).ends hends with h |
    ⟨id, runId, epsg, s, reversed, hrow, hrow', hcomputed, horder, hstored⟩
  · exact iff_of_true h.delivered fun r r' _ _ hr' hc => absurd hc (unfinished_iff.1 h r' hr')
  rw [delivered_of_run hrow' hcomputed horder hstored]
  obtain ⟨r, hr, hroute⟩ := Option.map_eq_some_iff.1 hrow
  obtain ⟨r', hr', hroute'⟩ := Option.map_eq_some_iff.1 hrow'
  obtain ⟨hstatus, hrest⟩ := Prod.mk.inj hroute
  obtain ⟨-, rfl⟩ := Prod.mk.inj hrest
  constructor
  · intro h r₁ r₁' hr₁ _ _ _
    obtain rfl := Option.some.inj (hr.symm.trans hr₁)
    exact h.imp_right fun h => ⟨s, reversed, hcomputed, horder, h⟩
  · intro h
    have hne : r.status ≠ .completed := by
      rw [hstatus]
      simp
    rcases h r r' hr hne hr' (Prod.mk.inj hroute').1 with h | ⟨s', d, hs', hd, h⟩
    · exact .inl h
    · obtain rfl := Option.some.inj (hcomputed.symm.trans hs')
      obtain rfl := Option.some.inj (horder.symm.trans hd)
      exact .inr h

/-- A request that starts where no run has ended COMPLETED. -/
theorem delivered_step_unfinished
    (hends : (request.program here).Ends (served request.Whole) w result m)
    (hw : (w.view here.pod).Unfinished) : Delivered m ↔ (Operation.mk here request w m).Meets := by
  by_cases hcomputes : request.computes = true
  · obtain rfl : request = .routingWorker := by cases request <;> first | rfl | cases hcomputes
    exact delivered_worker hends hw
  · have hm := (Request.unfinished (Bool.not_eq_true _ ▸ hcomputes) hw).ends hends
    apply iff_of_true ((delivered_iff here.pod).2 hm.delivered)
    cases request
    case routingWorker => exact absurd rfl hcomputes
    case openRouteDownload => exact fun r hr hc => absurd hc (unfinished_iff.1 hw r hr)
    all_goals trivial

/-- A request that starts from a finished run. -/
theorem delivered_step_finished {runId : Option ℕ} {epsg : ℤ} (hroute : request.isOfRoute = true)
    (hends : (request.program here).Ends (served request.Whole) w result m)
    (hv : (w.view here.pod).row = some (.completed, runId, epsg)) (hw : Delivered w) :
    Delivered m ↔ (Operation.mk here request w m).Meets := by
  obtain ⟨r, hr, hrow⟩ := Option.map_eq_some_iff.1 hv
  have hcompleted : r.status = .completed := (Prod.mk.inj hrow).1
  rw [delivered_iff here.pod] at hw ⊢
  have hleaves : request.delivers = false → request.computes = false →
    (m.view here.pod).Delivered := by
    intro hdelivers hcomputes
    rcases (Request.finished hroute hdelivers hcomputes hv).ends hends with h | h
    · rwa [← h]
    · exact h.delivered
  cases request
  case openRouteDownload =>
    have hm : (m.view here.pod).Delivered ↔ (w.view here.pod).KeepsNoOrder :=
      (makes_visit_finished hv hw).ends hends
    rw [hm]
    constructor
    · intro h r' hr' _ hnone
      exact h hnone
    · intro h hnone
      exact h r hr hcompleted hnone
  case toggleRouteDirection reversed =>
    exact iff_of_true ((makes_toggle_finished hv hw).ends hends) trivial
  case routingWorker =>
    have hm : w.view here.pod = m.view here.pod := (makes_worker_finished hv).ends hends
    apply iff_of_true (hm ▸ hw)
    intro r' _ hr' hne
    obtain rfl := Option.some.inj (hr.symm.trans hr')
    exact absurd hcompleted hne
  case startComputation | cancelComputation | restartComputation | resetJob =>
    exact iff_of_true (hleaves rfl rfl) trivial
  all_goals cases hroute

/-- **A request that starts from a delivered track leaves one** exactly if it meets what it must
find. -/
theorem delivered_step (hroute : request.isOfRoute = true)
    (hends : (request.program here).Ends (served request.Whole) w result m) (hw : Delivered w) :
    Delivered m ↔ (Operation.mk here request w m).Meets := by
  by_cases hfinished : ∃ runId epsg, (w.view here.pod).row = some (.completed, runId, epsg)
  · obtain ⟨runId, epsg, hv⟩ := hfinished
    exact delivered_step_finished hroute hends hv hw
  · exact delivered_step_unfinished hends fun runId epsg hrow => hfinished ⟨runId, epsg, hrow⟩

/-- **The delivered track belongs to the delivered solution, if and only if no older one was
found.** From every state in which it does, and for every sequence of whole operations on any pods:
it does in all states that are reached, if and only if every run that ends COMPLETED has found no
track or the very one that it would write, and every visit to a finished run without a stored order
was on a pod that has kept none. -/
theorem delivered_always_iff {w : Served} {ops : List Operation} (h : Operations w ops)
    (hw : Delivered w) : (∀ e ∈ ops, Delivered e.after) ↔ ∀ e ∈ ops, e.Meets := by
  induction h with
  | nil w => simp
  | cons hroute hends hops ih =>
    have hstep := delivered_step hroute hends hw
    simp only [List.forall_mem_cons]
    constructor
    · rintro ⟨hm, hafter⟩
      exact ⟨hstep.1 hm, (ih hm).1 hafter⟩
    · rintro ⟨hmeets, hlater⟩
      have hm := hstep.2 hmeets
      exact ⟨hm, (ih hm).2 hlater⟩

end

/-! ## A worker that keeps a track -/

/-- Nothing fails, and the pipeline computes the solution. -/
def computing (request : Request) (solution : Solution) : (served request.Whole).Choice :=
  ⟨{ Choice.usual with solution := solution }, by cases request <;> trivial⟩

/-- The requests, served one after the other; where the pipeline runs, it computes the solution. -/
def serveAll [External] : List (Site × Request × Solution) → Served → List Operation
  | [], _ => []
  | (here, request, solution) :: later, w =>
    let m := ((request.program here).runWith (served request.Whole)
      (computing request solution) [] w).2
    ⟨here, request, w, m⟩ :: serveAll later m

theorem operations_serveAll [External] {requests : List (Site × Request × Solution)}
    (hroute : ∀ q ∈ requests, q.2.1.isOfRoute = true) (w : Served) :
    Operations w (serveAll requests w) := by
  induction requests generalizing w with
  | nil => exact .nil w
  | cons q later ih =>
    obtain ⟨here, request, solution⟩ := q
    have hlater := (List.forall_mem_cons.1 hroute).2
    exact .cons (List.forall_mem_cons.1 hroute).1 (ends_runWith _ _ _ _) (ih hlater _)

/-- A job that was never computed; its roads are stored, and no pod has any file. -/
def uncomputed : Served := (worldStoring [residentialRoad], none)

theorem uncomputed_delivered [External] : Delivered uncomputed := by
  intro r hr hstatus
  obtain rfl : rowNaming [residentialRoad] = r := Option.some.inj hr
  cases hstatus

/-- A first solution. -/
def northRoute : Solution := ⟨"Distance", 1, [(1, 2)]⟩

/-- A second solution. -/
def southRoute : Solution := ⟨"Distance", 2, [(3, 4)]⟩

/-- A submit on a web pod, and the run on a worker. -/
def firstRun : List (Site × Request × Solution) :=
  [(⟨0, 0, none⟩, .startComputation, northRoute), (⟨1, 0, none⟩, .routingWorker, northRoute)]

/-- The job is reset on the web pod, and is run again on the worker. -/
def secondRun : List (Site × Request × Solution) :=
  firstRun ++ [(⟨0, 0, none⟩, .resetJob, northRoute), (⟨0, 0, none⟩, .startComputation, southRoute),
    (⟨1, 0, none⟩, .routingWorker, southRoute)]

theorem first_run_delivers :
    let _ := External.plain
    ∀ e ∈ serveAll firstRun uncomputed, Delivered e.after := by
  intro _
  have hops : Operations uncomputed (serveAll firstRun uncomputed) :=
    operations_serveAll (by decide) _
  apply (delivered_always_iff hops uncomputed_delivered).2
  intro e he
  simp only [firstRun, serveAll, List.mem_cons, List.not_mem_nil, or_false] at he
  rcases he with rfl | rfl
  · trivial
  · intro r r' _ _ _ _
    left
    decide +kernel

/-- **A worker that delivers an older track**: the reset on the web pod leaves the worker the track
of the first run, and the second run uploads it beside the solution that it has computed. -/
theorem older_track_delivered :
    let _ := External.plain
    Operations uncomputed (serveAll secondRun uncomputed) ∧ Delivered uncomputed ∧
    ¬∀ e ∈ serveAll secondRun uncomputed, Delivered e.after := by
  intro _
  refine ⟨operations_serveAll (by decide) uncomputed, uncomputed_delivered, fun hall => ?_⟩
  obtain ⟨last, hlast⟩ : ∃ e, (serveAll secondRun uncomputed).getLast? = some e := ⟨_, rfl⟩
  have hend : (serveAll secondRun uncomputed).getLast?.map (fun e =>
      (e.after.1.row.map Row.status, e.after.2, e.after.1.stored.content .gpx)) =
      some (some .completed, some southRoute,
        some (.whole (CosmonautJob.gpxOf 25833 false northRoute))) := by
    decide +kernel
  rw [hlast, Option.map_some, Option.some.injEq, Prod.mk.injEq, Prod.mk.injEq] at hend
  obtain ⟨hcompleted, hcomputed, hgpx⟩ := hend
  obtain ⟨r, hr, hstatus⟩ := Option.map_eq_some_iff.1 hcompleted
  obtain ⟨solution, reversed, hsolution, -, -, htrack⟩ :=
    hall last (List.mem_of_getLast? hlast) r hr hstatus
  obtain rfl := Option.some.inj (hcomputed.symm.trans hsolution)
  have htracks := Bytes.whole.inj (Option.some.inj (hgpx.symm.trans htrack))
  have hdistance : northRoute.distance = southRoute.distance := congrArg Gpx.distance htracks
  revert hdistance
  decide

end Cosmonaut
