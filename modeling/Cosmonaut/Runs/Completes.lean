import Cosmonaut.Street.Routing
import Cosmonaut.Storage.DeliveredTrack

/-!
# An undisturbed run completes

A worker that takes a queued run, with nobody interfering and no operation failing, ends it
COMPLETED, whatever the street files of the pod and of the object storage are: the preparation of
the network raises nothing in a world the app has led to.

* `ends_served`: a steady call as one of the machine that records the solution.
* `computeRoute_completes`: the computation comes to its end, with a solution and a track.
* `queued_run_completes`: the row, and what the object storage has then.
-/

namespace Cosmonaut

open Interleaving Program

/-! ## The two machines -/

/-- A steady call, with the solution computed last. -/
theorem ends_served {α : Type} {p : App α} {w w' : (steady false).World} {res : Except Err α}
    (h : p.Ends (steady false) w res w') (last : Option Solution) :
    ∃ last' : Option Solution, p.Ends (served Choice.Faultless) (w, last) res (w', last') := by
  induction p generalizing w last with
  | ret a =>
    cases h
    exact ⟨last, .ret a _⟩
  | throw e =>
    cases h
    exact ⟨last, .throw e _⟩
  | op o k ih =>
    cases h with
    | op o k c h =>
      have hfault : c.1.fault = none := by
        rcases c.2 with hnone | ⟨hcrash, -⟩
        · exact hnone
        · cases hcrash
      obtain ⟨last', hends⟩ := ih _ h (solutionAfter o c.1 last)
      let c' : (served Choice.Faultless).Choice := ⟨c.1, hfault⟩
      exact ⟨last', .op o k c' hends⟩

variable {w w' m : World} {r : Row} {here : Site} {v : View} {runId : ℕ} {epsg : ℤ}
  {reversed : Bool}

variable [External]

/-! ## The computation -/

/-- The preparation of the network leaves the files of the route alone. -/
theorem makes_prepareNetwork {P : Choice → Prop} (hv : v.Runs runId epsg) :
    Makes P here.pod v (fun _ => True) (fun job v' => v = v' ∧ job.epsg = epsg)
      (prepareNetwork here) := by
  have hsame : ∀ {α : Type} {p : App α}, Asks (Op.Aloof here.pod) p →
      Makes P here.pod v (fun _ => True) (fun _ v' => v = v') p := fun hp =>
    (makes_same hp).mono (fun _ _ => trivial) fun _ _ h => h
  apply Turns.bind (hsame (asks_ask aloof_appendLog))
  rintro _ _ rfl
  refine Turns.bind (F := fun job v' => v = v' ∧ job.epsg = epsg)
    (makes_load (fun _ => trivial) (fun row hrow => ⟨rfl, ?_⟩) fun _ => trivial) ?_
  · have hroute := Option.some.inj (hv.symm.trans hrow)
    exact (Prod.mk.inj (Prod.mk.inj hroute).2).2.symm
  rintro job _ ⟨rfl, hepsg⟩
  apply Turns.bind (hsame (notifySubmission_aloof job))
  rintro _ _ rfl
  apply Turns.bind (hsame (new_aloof job))
  rintro sel _ rfl
  apply Turns.bind (hsame (ensureProjected_aloof sel))
  rintro _ _ rfl
  exact turns_ret ⟨rfl, hepsg⟩

/-- From the pipeline on nothing is raised, if the direction that was found can be read. -/
theorem makes_routeFrom {job : JobModel} (hv : v.Runs runId epsg) (hepsg : job.epsg = epsg)
    (horder : orderOf v.found.options = some reversed) :
    Makes Choice.Faultless here.pod v (fun _ => False) (fun _ v' => v'.Runs runId epsg ∧
      v'.stored = v.stored ∧ ∃ s, v'.found = v.found.computed epsg reversed s)
        (routeFrom here job) := by
  have hlog : ∀ {v : View} {text}, Makes Choice.Faultless here.pod v (fun _ => False)
      (fun _ v' => v = v') (ask (.appendLog here.run text)) := by
    intro v text
    exact makes_aloof aloof_appendLog (fun h => not_mayFail h) (fun _ _ _ _ _ => rfl)
      fun c w f _ h => by cases h
  refine Turns.bind (F := fun _ v' => ∃ s, v' = { v with
    found := { v.found with solution := some (.whole s) }, computed := some s })
    (makes_pipeline tolerates_faultless fun s => ⟨s, rfl⟩) ?_
  rintro _ _ ⟨s, rfl⟩
  apply Turns.bind hlog
  rintro _ _ rfl
  refine Turns.bind (F := fun _ v' => v'.Runs runId epsg ∧ v'.stored = v.stored ∧
    ∃ s, v'.found = v.found.computed epsg reversed s)
    (makes_createQrCodeRouting tolerates_faultless (fun d hd hgpx => ?_)
      (fun d s' hd hnone hs => ?_) fun h => ?_) fun _ v' hv' => ?_
  · obtain ⟨b, hb⟩ := Option.ne_none_iff_exists'.1 hgpx
    change v.found.gpx = some b at hb
    exact ⟨hv, rfl, s, by simp [RouteFiles.computed, hb]⟩
  · obtain rfl : s = s' := by simpa using hs
    obtain rfl : reversed = d := Option.some.inj (horder.symm.trans hd)
    change v.found.gpx = none at hnone
    exact ⟨hv, rfl, s, by simp [RouteFiles.computed, hnone, hepsg]⟩
  · rcases h with h | ⟨-, h⟩
    · cases horder.symm.trans h
    · exact h s rfl
  · refine hlog.mono (fun _ h => h) ?_
    rintro _ _ rfl
    exact hv'

/-! ## Calls that raise nothing -/

/-- Undisturbed, the call raises nothing, and returns with `F`. -/
abbrev Completes {α : Type} (F : α → World → Prop) (p : App α) (w : World) : Prop :=
  Keeping (M := steady false) (fun _ => True) (fun _ _ => False) F p w

section

omit [External]

variable {α β : Type} {p : App α} {F : α → World → Prop} {G : β → World → Prop}

theorem completes_ret {a : α} (h : F a w) : Completes F (ret a) w := keeping_ret trivial h

theorem Completes.imp {F' : α → World → Prop} (h : Completes F p w)
    (hF : ∀ a m, F a m → F' a m) : Completes F' p w :=
  Keeping.mono h (fun _ _ _ h => h) fun a m _ ha => hF a m ha

theorem Completes.bind {f : α → App β} (h : Completes F p w)
    (hf : ∀ a m, F a m → Completes G (f a) m) : Completes G (p >>= f) w :=
  Keeping.bind h fun a m _ ha => hf a m ha

theorem Completes.tryExcept {handler : Err → App α} (h : Completes F p w) :
    Completes F (tryExcept p handler) w :=
  Keeping.tryCatch h fun _ _ _ hfalse => hfalse.elim

theorem completes_ask {o : Op} {F : o.Ans → World → Prop}
    (h : ∀ c, ∃ a w', perform o c w = (.ok a, w') ∧ F a w') : Completes F (ask o) w := by
  refine keeping_call (fun c a w' hex => ⟨trivial, ?_⟩) fun c f w' hex => ?_
  all_goals
    obtain ⟨a₁, w₁, hperform, hF⟩ := h c.1
    rcases steady_exec_cases o c w with hc | ⟨hcrash, -⟩
    · rw [hc, hperform] at hex
      cases hex
      try exact hF
    · cases hcrash

end

/-- **The computation comes to its end**: the pod has a solution, and a track. -/
theorem computeRoute_completes (hs : Sound false Feature.bare (fun _ => False) w)
    (hr : w.row = some r) (hrunning : r.status = .running) (hrun : r.runId = some runId)
    (hpulled : w.fetched here.pod = (w.disk here.pod).content (.street .download))
    (horder : orderOf (w.disk here.pod).route.options = some reversed) :
    Completes (fun _ m => m.row.map Row.route = some (.running, some runId, r.columns.epsg) ∧
      m.stored.route = w.stored.route ∧ ∃ s, (m.disk here.pod).route =
        (w.disk here.pod).route.computed r.columns.epsg reversed s) (computeRoute here) w := by
  have hv : View.Runs runId r.columns.epsg (Served.view here.pod (w, none)) := by
    rw [View.Runs, Served.view, hr, Option.map_some, Row.route, hrunning, hrun]
  refine wp_iff_ends.2 fun res m hends => ⟨trivial, ?_⟩
  rw [computeRoute_eq] at hends
  rcases ends_bind.1 hends with ⟨e, hprepare, -⟩ | ⟨job, m₁, hprepare, hroute⟩
  · have hsettles : Settles _ _ _ _ _ (prepareNetwork here) _ :=
      prepareNetwork_settles hs hr hpulled
    rcases (hsettles.ends hprepare).2 with ⟨-, hcrash⟩ | hfalse
    · cases hcrash
    · exact hfalse.elim
  · obtain ⟨last₁, hprepare⟩ := ends_served hprepare none
    obtain ⟨last₂, hroute⟩ := ends_served hroute last₁
    obtain ⟨-, hsame, hepsg⟩ := Keeping.ends (makes_prepareNetwork (P := Choice.Faultless) hv _ rfl)
      hprepare
    have hmakes : Makes Choice.Faultless here.pod _ _ _ (routeFrom here job) :=
      makes_routeFrom hv hepsg horder
    obtain ⟨-, hout⟩ := Keeping.ends (hmakes _ hsame.symm) hroute
    cases res with
    | error e => exact hout
    | ok a => exact hout

/-! ## The run -/

/-- The row is COMPLETED, and the object storage has these files of the route. -/
def CompletedWith (epsg : ℤ) (files : RouteFiles) (w : World) : Prop :=
  ∃ r, w.row = some r ∧ r.status = .completed ∧ r.columns.epsg = epsg ∧ w.stored.route = files

/-- What a pod finds of the route once it has pulled the work dir. -/
def World.foundRoute (w : World) (pod : ℕ) : RouteFiles := w.stored.route.onto (w.disk pod).route

omit [External] in
theorem pulledRun_route (pod : ℕ) (time : FileName → ℕ) :
    ((w.pulledRun r pod time).disk pod).route = w.foundRoute pod := by
  rw [World.pulledRun, World.pulled, setDisk_disk_self, route_pull]
  rfl

/-- **The worker of a queued run ends it COMPLETED.** -/
theorem runJob_completes (hs : Sound false Feature.bare (fun _ => False) w) (hr : w.row = some r)
    (hrunning : r.status = .running) (hbeat : r.heartbeat = false)
    (horder : orderOf (w.foundRoute here.pod).options = some reversed) :
    Completes (fun ended m => ended = some .completed ∧ ∃ s, CompletedWith r.columns.epsg
      (((w.foundRoute here.pod).computed r.columns.epsg reversed s).onto w.stored.route) m)
      (runJob here computeRoute) w := by
  refine Completes.bind (F := fun claimed m => claimed = some (w.nextId, w.epoch) ∧
    m = w.claimed r) (completes_ask (o := .claim) fun c => ⟨_, _, ?_, rfl, rfl⟩) ?_
  · simp only [perform, hr]
    rw [if_pos ⟨hrunning, hbeat⟩, World.claimed]
  rintro _ _ ⟨rfl, rfl⟩
  let site : Site := { here with run := some w.epoch }
  refine Completes.bind (F := fun status m => status = .completed ∧ ∃ s,
    m.row.map Row.route = some (.running, some w.nextId, r.columns.epsg) ∧ m.stored.route =
      ((w.foundRoute here.pod).computed r.columns.epsg reversed s).onto w.stored.route)
    (.tryExcept ?_) ?_
  · refine Completes.bind (F := fun _ m => ∃ time, m = w.pulledRun r here.pod time)
      (completes_ask (o := .pullWorkDir here.pod) fun c => ⟨(), _, rfl, c.time, rfl⟩) ?_
    rintro _ _ ⟨time, rfl⟩
    have hpulled := pulledRun_route (w := w) (r := r) here.pod time
    have horder' : orderOf ((w.pulledRun r here.pod time).disk site.pod).route.options =
      some reversed := by rwa [hpulled]
    refine Completes.bind (computeRoute_completes
      (r := { r with heartbeat := true, runId := some w.nextId }) (hs.pulledRun here.pod time) rfl
      hrunning rfl (pulledRun_fetched here.pod time) horder') ?_
    rintro _ m ⟨hrow, hstored, s, hfound⟩
    refine Completes.bind (F := fun _ m' => m' = m.uploaded here.pod fun _ => true)
      (completes_ask (o := .uploadWorkDir here.pod) fun c => ⟨(), _, rfl, rfl⟩) ?_
    rintro _ _ rfl
    refine completes_ret ⟨rfl, s, hrow, ?_⟩
    rw [World.uploaded, route_upload, hfound, hstored, hpulled]
    rfl
  rintro _ m ⟨rfl, s, hrow, hstored⟩
  obtain ⟨r', hr', hroute⟩ := Option.map_eq_some_iff.1 hrow
  obtain ⟨hstatus, hrest⟩ := Prod.mk.inj hroute
  obtain ⟨hid, hepsg⟩ := Prod.mk.inj hrest
  refine Completes.bind (F := fun _ m' => m' = { m with
    row := some { r' with status := .completed } })
    (completes_ask (o := .finish w.nextId .completed) fun c => ⟨true, _, ?_, rfl⟩) ?_
  · simp only [perform, World.update, hr', hstatus, hid, true_and, decide_true, if_true]
  · rintro _ _ rfl
    exact completes_ret ⟨rfl, s, _, rfl, rfl, hepsg, hstored⟩

/-! ## The end mail -/

section

variable {files : RouteFiles}

theorem load_completes (hr : w.row = some r) :
    Completes (fun job m => m = w ∧ job = .ofRow r) CosmonautJob.load w := by
  refine Completes.bind (F := fun row m => m = w ∧ row = r)
    (completes_ask (o := .loadRow) fun c => ⟨r, w, ?_, rfl, rfl⟩) ?_
  · simp only [perform, hr]
  · rintro _ _ ⟨rfl, rfl⟩
    exact completes_ret ⟨rfl, rfl⟩

omit [External] in
/-- The end mail leaves a COMPLETED row COMPLETED. -/
theorem notifyUser_completes (h : CompletedWith epsg files w) (job : JobModel) (status : Status) :
    Completes (fun _ => CompletedWith epsg files) (notifyUser job status) w := by
  have hflag : ∀ {m : World}, CompletedWith epsg files m →
      Completes (fun _ => CompletedWith epsg files) (Program.tryCatch
        (do let _ ← ask .markEndNotified)
        fun e => if e = .fault .jobNotFound then pure () else raise e : App Unit) m := by
    rintro m ⟨r, hr, hstatus, hepsg, hfiles⟩
    refine Keeping.tryCatch (E := fun _ _ => False) (Completes.bind
      (F := fun _ => CompletedWith epsg files) (completes_ask (o := .markEndNotified)
        fun c => ⟨true, { m with row := some (r.putAll [.notifiedEnd true]) }, ?_, _, rfl, hstatus,
          hepsg, hfiles⟩)
      fun _ _ h => completes_ret h) fun _ _ _ hfalse => hfalse.elim
    simp only [perform, hr, hstatus, true_or, if_true]
  have hsend : ∀ {m : World}, CompletedWith epsg files m →
      Completes (fun _ => CompletedWith epsg files) (do
        if ← ask (.sendMail (.ended job.email status)) then
          Program.tryCatch
            (do let _ ← ask .markEndNotified)
            fun e => if e = .fault .jobNotFound then pure () else raise e : App Unit) m := by
    intro m hm
    refine Completes.bind (F := fun _ => CompletedWith epsg files)
      (completes_ask (o := .sendMail _) fun c => ⟨c.mailSent, _, rfl, ?_⟩) fun sent m hm => ?_
    · split
      · exact hm
      · exact hm
    · split
      · exact hflag hm
      · exact completes_ret hm
  unfold notifyUser
  split
  · split
    · exact Completes.bind (F := fun _ => CompletedWith epsg files)
        (completes_ask (o := .presignedUrl) fun c => ⟨c.url, _, rfl, h⟩) fun _ _ h => hsend h
    · exact hsend h
  · exact completes_ret h

end

theorem processRoutingJob_completes (hs : Sound false Feature.bare (fun _ => False) w)
    (hr : w.row = some r) (hrunning : r.status = .running) (hbeat : r.heartbeat = false)
    (horder : orderOf (w.foundRoute here.pod).options = some reversed) :
    Completes (fun _ m => ∃ s, CompletedWith r.columns.epsg
      (((w.foundRoute here.pod).computed r.columns.epsg reversed s).onto w.stored.route) m)
      (processRoutingJob here) w := by
  refine Completes.bind (runJob_completes hs hr hrunning hbeat horder) ?_
  rintro _ m ⟨rfl, s, hm⟩
  obtain ⟨r', hr', -⟩ := id hm
  refine Completes.bind (F := fun job m' => m' = m ∧ job = some (.ofRow r'))
    (Keeping.tryCatch (E := fun _ _ => False) ?_ fun _ _ _ hfalse => hfalse.elim) ?_
  · refine Completes.bind (load_completes hr') ?_
    rintro job _ ⟨rfl, rfl⟩
    exact completes_ret ⟨rfl, rfl⟩
  · rintro _ _ ⟨rfl, rfl⟩
    exact (notifyUser_completes hm _ _).imp fun _ _ h => ⟨s, h⟩

/-- **An undisturbed run completes.** From every world that the app has led to, the worker that
takes a queued run raises nothing and ends it COMPLETED, if the direction it finds can be read.
Then the object storage has a solution and a track: the one the worker found, or else that of the
solution. -/
theorem queued_run_completes (h : Reached false w) (hr : w.row = some r)
    (hrunning : r.status = .running) (hbeat : r.heartbeat = false)
    (horder : orderOf (w.foundRoute here.pod).options = some reversed) {out : Except Err Unit}
    (hends : (processRoutingJob here).Ends (steady false) w out w') :
    out = .ok () ∧ ∃ r' s, w'.row = some r' ∧ r'.status = .completed ∧
      w'.stored.content .solution = some (.whole s) ∧ w'.stored.content .gpx =
        some ((w.foundRoute here.pod).gpx.getD
          (.whole (CosmonautJob.gpxOf r.columns.epsg reversed s))) := by
  have hcompletes : Completes _ (processRoutingJob here) w :=
    processRoutingJob_completes h.sound_bare hr hrunning hbeat horder
  obtain ⟨-, hout⟩ := Keeping.ends hcompletes hends
  cases out with
  | error e => exact hout.elim
  | ok a =>
    obtain ⟨s, r', hr', hstatus, -, hfiles⟩ := hout
    refine ⟨rfl, r', s, hr', hstatus, ?_, ?_⟩
    · exact congrArg RouteFiles.solution hfiles
    · exact congrArg RouteFiles.gpx hfiles

omit [External]

/-- A worker on a pod with an empty disk takes the queued run. -/
def completedQueued : Except Err Unit × World :=
  let _ := External.plain
  (processRoutingJob ⟨1, 0, none⟩).runWith (steady false) (steadyChoice false) [] worldQueued

theorem completedQueued_completes :
    let _ := External.plain
    completedQueued.1 = .ok () ∧ ∃ r' s, completedQueued.2.row = some r' ∧
      r'.status = .completed ∧ completedQueued.2.stored.content .solution = some (.whole s) ∧
      completedQueued.2.stored.content .gpx = some (.whole (CosmonautJob.gpxOf 25832 false s)) := by
  intro _
  have horder : orderOf (worldQueued.foundRoute 1).options = some false := rfl
  exact queued_run_completes reached_worldQueued rfl rfl rfl horder
    (ends_runWith (steadyChoice false) [] _ _)

end Cosmonaut
