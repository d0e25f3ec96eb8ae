import Cosmonaut.Street.MadeCurrent
import Cosmonaut.Model.Requests

/-!
# Requests, one after the other

Every request of the app leads from a reached world to a reached one, if nothing interferes: it
consists of calls of the street selector, of operations that the selector's invariant does not speak
of, and of street files that are renamed into place.

* `Leads`: the judgement, by sequencing and handlers.
* `Request.leads`: all requests.
* `vouched_files_derived`: records after any sequence of requests, inside of which processes may be
  terminated.
-/

namespace Cosmonaut

open Interleaving Program

variable [External] {crash : Bool} {α β : Type} {here : Site} {w w' : World}

/-- However the call ends, it leads to a reached world. -/
def Leads (crash : Bool) (p : App α) : Prop :=
  ∀ w, Reached crash w →
    Keeping (M := steady crash) (Reached crash) (fun _ _ => True) (fun _ _ => True) p w

/-! ## The rules -/

theorem leads_ret {a : α} : Leads crash (ret a) := fun _ h => keeping_ret h trivial

theorem leads_raise {e : Err} : Leads crash (raise e : App α) := fun _ h => keeping_throw h trivial

theorem Leads.bind {p : App α} {f : α → App β} (h : Leads crash p) (hf : ∀ a, Leads crash (f a)) :
    Leads crash (p >>= f) :=
  fun w hw => (h w hw).bind fun a m hm _ => hf a m hm

theorem Leads.tryCatch {p : App α} {handler : Err → App α} (h : Leads crash p)
    (hh : ∀ e, Leads crash (handler e)) : Leads crash (p.tryCatch handler) :=
  fun w hw => (h w hw).tryCatch fun e m hm _ => hh e m hm

theorem leads_ite {c : Prop} [Decidable c] {p q : App α} (hp : Leads crash p)
    (hq : Leads crash q) : Leads crash (if c then p else q) := by
  split
  · exact hp
  · exact hq

theorem Leads.tryExcept {p : App α} {handler : Err → App α} (h : Leads crash p)
    (hh : ∀ e, Leads crash (handler e)) : Leads crash (tryExcept p handler) :=
  h.tryCatch fun e => leads_ite leads_raise (hh e)

theorem Reached.exec_steady (h : Reached crash w) {o : Op} (ho : o.tame = true)
    (c : (steady crash).Choice) : Reached crash ((steady crash).exec o c w).2 :=
  .op o c.1 h ho

/-- What the rest of the app does. -/
theorem leads_tame {p : App α} (h : Asks (fun o => o.tame = true) p) : Leads crash p := by
  induction p with
  | ret a => exact leads_ret
  | throw e => exact leads_raise
  | op o k ih =>
    intro w hw c
    obtain ⟨ho, hk⟩ := h ((steady crash).exec o c w).1
    exact ih _ hk _ (hw.exec_steady ho c)

theorem leads_tame_bind {o : Op} {f : o.Ans → App α} (h : o.tame = true)
    (hf : ∀ a, Leads crash (f a)) : Leads crash (ask o >>= f) :=
  (leads_tame (asks_ask h)).bind hf

theorem leads_program (c : StreetCall) : Leads crash (c.program here) := by
  refine fun w hw => wp_iff_ends.2 fun res w' hends => ⟨.call here c hw hends, ?_⟩
  rcases res with e | a <;> trivial

/-- A call of the street selector, of which the result is used. -/
theorem leads_call {p : App α} (c : StreetCall) (h : c.program here = do let _ ← p) :
    Leads crash p := by
  intro w hw
  refine wp_iff_ends.2 fun res w' hends => ⟨.call (r := res.map fun _ => ()) here c hw ?_, ?_⟩
  · rw [h]
    rcases res with e | a
    · exact ends_bind.2 (.inl ⟨e, hends, rfl⟩)
    · exact ends_bind.2 (.inr ⟨a, w', hends, ends_ret.2 ⟨rfl, rfl⟩⟩)
  · rcases res with e | a <;> trivial

/-- A street file is renamed into place once it is whole. -/
theorem leads_withWriter {s : StreetFile} {body : App (s.Doc × α)} (h : Leads crash body) :
    Leads crash (withWriter here s body) := by
  refine leads_tame_bind rfl fun _ => (h.tryExcept fun e => leads_tame_bind rfl fun found =>
    leads_ite (leads_tame_bind rfl fun _ => leads_raise) leads_raise).bind ?_
  rintro ⟨doc, a⟩ w hw
  have hreached : ∀ {o : Op} {c : (steady crash).Choice} {v m : World} {res},
      Reached crash v → o.tame = true → (steady crash).exec o c v = (res, m) → Reached crash m := by
    intro o c v m res hv ho hex
    have hm := hv.exec_steady ho c
    rwa [hex] at hm
  refine Keeping.bind (F := fun _ m => (m.disk here.pod).content (.streetTmp s) =
    some (.whole doc)) (keeping_call (M := steady crash) (o := .writeFile here (.streetTmp s) doc)
      (fun c _ m hex => ⟨hreached hw rfl hex, ?_⟩)
      fun c _ m hex => ⟨hreached hw rfl hex, trivial⟩) ?_
  · rcases steady_exec_cases (.writeFile here (.streetTmp s) doc) c w with hc | ⟨-, hc⟩
    · rw [hc] at hex
      cases hex
      rw [setDisk_disk_self, content_write_self]
    · rw [hc] at hex
      cases hex
  · intro _ m hm hdoc
    refine Keeping.bind (F := fun _ _ => True) (keeping_call (M := steady crash)
      (o := .replaceFile here.pod s) (fun c _ m' hex => ⟨?_, trivial⟩)
      fun c _ m' hex => ⟨?_, trivial⟩) fun _ m' hm' _ => leads_ret _ hm'
    all_goals
      have hreplaced : Reached crash ((steady crash).exec (.replaceFile here.pod s) c m).2 :=
        .replace here.pod c.1 hm hdoc
      rwa [hex] at hreplaced

/-! ## The job object -/

theorem load_leads : Leads crash CosmonautJob.load := leads_tame_bind rfl fun _ => leads_ret

theorem rewriteFile_leads {f : FileName} (hf : f.watched = false) (doc : f.Doc) :
    Leads crash (rewriteFile here f doc) :=
  leads_tame_bind (by rw [Op.tame, hf]; rfl) fun _ =>
    leads_tame (asks_ask (by rw [Op.tame, hf]; rfl))

theorem loadFile_leads (f : FileName) : Leads crash (loadFile here f) := by
  refine leads_tame_bind rfl fun b => ?_
  cases b with
  | torn => exact leads_raise
  | whole doc => exact leads_ret

theorem requireInput_leads (job : JobModel) (fields : List Field) :
    Leads crash (CosmonautJob.requireInput job fields) :=
  leads_tame_bind rfl fun _ => leads_ite leads_ret leads_raise

theorem saveInput_leads (job : JobModel) (fields : List Field) :
    Leads crash (CosmonautJob.saveInput here job fields) :=
  leads_tame_bind rfl fun _ => requireInput_leads job fields

theorem raiseStage_leads (job : JobModel) (stage : ℕ) :
    Leads crash (CosmonautJob.raiseStage job stage) := leads_tame_bind rfl fun _ => leads_ret

theorem deleteMembership_leads (job : JobModel) :
    Leads crash (CosmonautJob.deleteMembership here job) := by
  have hrest : Leads crash (do
      let plotFiles ← ask (.globPlots here.pod)
      ask (.deleteFiles here.pod
        (CosmonautJob.membershipFiles ++ plotFiles ++ [.membershipTif]))
      let job := CosmonautJob.withoutMembership job
      CosmonautJob.requireInput job [.membershipUpload, .predictorUpload, .streetEdits]
      return job) :=
    leads_tame_bind rfl fun _ => leads_tame_bind rfl fun _ =>
      (requireInput_leads _ _).bind fun _ => leads_ret
  unfold CosmonautJob.deleteMembership
  split
  · exact leads_tame_bind rfl fun _ => hrest
  · exact hrest

theorem orRaise_leads {error : String → Err} (result : Except String α) :
    Leads crash (orRaise error result) := by
  cases result with
  | error message => exact leads_raise
  | ok a => exact leads_ret

theorem decodeUpload_leads (content : Except String String) :
    Leads crash (CosmonautJob.decodeUpload content) :=
  orRaise_leads content

theorem transformCsv_leads (text : String) (epsg : ℤ) : Leads crash (transformCsv text epsg) := by
  have hread : Leads crash (readTable text) :=
    (orRaise_leads _).bind fun _ => (orRaise_leads _).bind fun _ => (orRaise_leads _).bind fun _ =>
      leads_ret
  refine hread.bind fun (hasHeader, df) => ?_
  dsimp only
  split
  · exact leads_raise
  · split
    · exact leads_ret
    · exact leads_raise

theorem storeMembership_leads (job : JobModel) (content : Except String String) (epsg : ℤ) :
    Leads crash (CosmonautJob.storeMembership here job content epsg) := by
  refine (decodeUpload_leads content).bind fun decoded => (rewriteFile_leads rfl _).bind fun _ =>
    (Leads.tryExcept ((loadFile_leads _).bind fun text => ?_) fun e =>
      leads_tame_bind rfl fun _ => leads_raise).bind fun df =>
    (Leads.tryCatch ((loadFile_leads _).bind fun text => transformCsv_leads _ _) fun e => ?_).bind
      fun data => ?_
  · split
    · exact leads_ret
    · exact leads_raise
  · dsimp only
    split
    · exact leads_tame_bind rfl fun _ => leads_raise
    · exact leads_raise
  · exact (saveInput_leads _ _).bind fun _ => leads_ret

theorem uploadMembership_leads (job : JobModel) (content : Except String String) (epsg : ℤ) :
    Leads crash (CosmonautJob.uploadMembership here job content epsg) := by
  have hstore : Leads crash (CosmonautJob.storeMembership here job content epsg) :=
    storeMembership_leads job content epsg
  exact leads_tame_bind rfl fun _ => leads_tame_bind rfl fun stale =>
    leads_ite (leads_tame_bind rfl fun _ => hstore) hstore

theorem checkPredictor_leads {check : App (Except String Unit)} (h : Leads crash check) :
    Leads crash (CosmonautJob.checkPredictor here check) := by
  refine Leads.tryExcept (h.bind fun r => ?_) fun e => leads_tame_bind rfl fun _ => leads_raise
  cases r with
  | ok _ => exact leads_ret
  | error message => exact leads_raise

theorem uploadPredictor_leads (job : JobModel) (content : Except String String) :
    Leads crash (CosmonautJob.uploadPredictor here job content) := by
  refine leads_tame_bind rfl fun _ => (decodeUpload_leads content).bind fun decoded =>
    (rewriteFile_leads rfl _).bind fun _ =>
    (checkPredictor_leads ((loadFile_leads _).bind fun _ => leads_ret)).bind fun _ =>
    (checkPredictor_leads ((loadFile_leads _).bind fun _ => leads_tame_bind rfl fun _ =>
      leads_ite ((loadFile_leads _).bind fun _ => leads_ret) leads_ret)).bind fun _ =>
    (saveInput_leads _ _).bind fun _ => leads_ret

theorem getStreetProcessingStatus_leads (job : JobModel) :
    Leads crash (CosmonautJob.getStreetProcessingStatus job) := by
  have hend : ∀ id state, Leads crash (CosmonautJob.endStreetProcessing job id state) :=
    fun _ _ => leads_tame_bind rfl fun _ => leads_ret
  unfold CosmonautJob.getStreetProcessingStatus
  split
  · exact leads_ret
  · exact leads_ret
  · exact leads_ret
  · refine leads_tame_bind rfl fun status => ?_
    split
    · exact (hend _ _).bind fun _ => (raiseStage_leads _ _).bind fun _ => leads_ret
    · exact (hend _ _).bind fun _ => leads_ret
    · exact (hend _ _).bind fun _ => leads_ret
    · exact leads_ret
    · exact leads_ret

theorem isRouteReversed_leads : Leads crash (CosmonautJob.isRouteReversed here) :=
  leads_tame_bind rfl fun _ => leads_ite (loadFile_leads _) leads_ret

theorem createQrCodeRouting_leads (job : JobModel) :
    Leads crash (CosmonautJob.createQrCodeRouting here job) := by
  refine leads_tame_bind rfl fun url => isRouteReversed_leads.bind fun reversed =>
    leads_tame_bind rfl fun found => leads_ite ?_ (rewriteFile_leads rfl _)
  exact (loadFile_leads _).bind fun s => (rewriteFile_leads rfl _).bind fun _ =>
    rewriteFile_leads rfl _

theorem getRoutePolyline_leads (job : JobModel) :
    Leads crash (CosmonautJob.getRoutePolyline here job) :=
  leads_tame_bind rfl fun _ => leads_ite ((loadFile_leads _).bind fun _ =>
    isRouteReversed_leads.bind fun _ => leads_ret) leads_ret

theorem failToStart_leads (job : JobModel) : Leads crash (CosmonautJob.failToStart job) :=
  leads_tame_bind rfl fun _ => leads_ite (leads_tame_bind rfl fun _ => leads_ret) leads_ret

theorem submit_leads (job : JobModel) : Leads crash (CosmonautJob.submit here job) := by
  refine leads_tame_bind rfl fun won => leads_ite ?_ leads_ret
  refine (Leads.tryExcept ?_ fun e => (failToStart_leads _).bind fun _ => leads_raise).bind
    fun r => leads_ite ((failToStart_leads _).bind fun _ => leads_ret)
      (leads_tame_bind rfl fun _ => leads_ret)
  exact leads_tame_bind rfl fun _ => leads_tame_bind rfl fun _ =>
    ((rewriteFile_leads rfl _).bind fun _ => leads_tame_bind rfl fun _ =>
      leads_tame (asks_ask rfl)).bind fun _ => leads_tame_bind rfl fun _ => leads_ret

theorem reset_leads (job : JobModel) : Leads crash (CosmonautJob.reset here job) :=
  leads_tame_bind rfl fun _ => leads_ite (leads_tame_bind rfl fun _ => leads_tame_bind rfl fun _ =>
    leads_tame_bind rfl fun _ => leads_ret) leads_ret

/-! ## The tasks -/

theorem failUpload_leads (id : TaskId) (error : Err) : Leads crash (failUpload id error) := by
  refine (Leads.tryCatch (load_leads.bind fun job => leads_tame_bind rfl fun _ => leads_ret)
    fun e => leads_ite leads_ret leads_raise).bind fun _ => leads_tame_bind rfl fun _ => leads_ret

theorem runOsmQuery_leads (osm : OsmDownloader) : Leads crash (runOsmQuery here osm) :=
  leads_withWriter (leads_withWriter (leads_withWriter (leads_tame_bind rfl fun _ => leads_ret)))

theorem downloadRoads_leads (m : Message) (epsg : ℤ) :
    Leads crash (downloadRoads here m epsg) :=
  leads_tame_bind rfl fun _ =>
    ((loadFile_leads _).bind fun _ => transformCsv_leads _ _).bind fun _ =>
    ((orRaise_leads _).bind fun _ => leads_ret).bind fun osm =>
    (runOsmQuery_leads osm).bind fun _ =>
    (leads_call (.fileSha256 .download) rfl).bind fun _ => leads_tame_bind rfl fun _ =>
    load_leads.bind fun _ => leads_tame_bind rfl fun _ => leads_ret

theorem processUploadTask_leads (m : Message) (epsg : ℤ) :
    Leads crash (processUploadTask here m epsg) := by
  have hfail : ∀ e, Leads crash (do failUpload m.id e; (raise e : App Unit)) := fun e =>
    (failUpload_leads _ _).bind fun _ => leads_raise
  have hretry : ∀ e, Leads crash (retryOrFail m e) := fun e =>
    leads_ite (hfail e) (leads_tame_bind rfl fun _ => leads_raise)
  refine load_leads.bind fun _ => (downloadRoads_leads m epsg).tryExcept fun e => ?_
  split
  · exact hretry _
  · exact leads_ite (hretry _) (hfail _)
  · exact hfail _

theorem computeRoute_leads : Leads crash (computeRoute here) :=
  leads_tame_bind rfl fun _ => load_leads.bind fun job =>
    (leads_ite (leads_tame_bind rfl fun _ => leads_ret) leads_ret).bind fun _ =>
    (leads_call (.new job) rfl).bind fun sel =>
    (leads_program (.ensureProjected sel)).bind fun _ => leads_tame_bind rfl fun _ =>
    leads_tame_bind rfl fun _ => (createQrCodeRouting_leads job).bind fun _ =>
    leads_tame (asks_ask rfl)

theorem notifyUser_leads (job : JobModel) (status : Status) :
    Leads crash (notifyUser job status) := by
  have hsend : Leads crash (do
      if ← ask (.sendMail (.ended job.email status)) then
        Program.tryCatch
          (do let _ ← ask .markEndNotified)
          fun e => if e = .fault .jobNotFound then pure () else raise e) :=
    leads_tame_bind rfl fun _ => leads_ite ((leads_tame_bind rfl fun _ => leads_ret).tryCatch
      fun e => leads_ite leads_ret leads_raise) leads_ret
  exact leads_ite (leads_ite (leads_tame_bind rfl fun _ => hsend) hsend) leads_ret

theorem processRoutingJob_leads : Leads crash (processRoutingJob here) := by
  refine Leads.bind (leads_tame_bind rfl fun claimed => ?_) fun ended => ?_
  · split
    · exact leads_ret
    · refine (Leads.tryExcept (leads_tame_bind rfl fun _ => computeRoute_leads.bind fun _ =>
        leads_tame_bind rfl fun _ => leads_ret) fun e => leads_tame_bind rfl fun _ =>
          leads_ret).bind fun status => leads_tame_bind rfl fun _ => leads_ret
  · split
    · exact leads_ret
    · refine Leads.bind (Leads.tryCatch (load_leads.bind fun _ => leads_ret) fun e =>
        leads_ite leads_ret leads_raise) fun job => ?_
      split
      · exact leads_ret
      · exact notifyUser_leads _ _

/-! ## The requests -/

/-- **Every request leads from a reached world to a reached one**, however it ends. -/
theorem Request.leads (q : Request) : Leads crash (q.program here) := by
  cases q
  case goToUploadPage email =>
    exact load_leads.bind fun _ => (requireInput_leads _ _).bind fun _ =>
      (raiseStage_leads _ _).bind fun _ => leads_ret
  case uploadMembership content epsgInput =>
    refine load_leads.bind fun job => leads_ite leads_raise
      ((deleteMembership_leads _).bind fun job => (Leads.tryCatch
        ((uploadMembership_leads _ _ _).bind fun _ => leads_ret) fun e => ?_).bind fun r => ?_)
    · split
      · exact leads_ret
      · exact leads_raise
    · split
      · exact leads_ret
      · refine (rewriteFile_leads rfl _).bind fun _ => leads_tame_bind rfl fun _ =>
          leads_tame_bind rfl fun _ => leads_tame_bind rfl fun id => leads_tame_bind rfl fun _ =>
          ((leads_tame (asks_ask rfl)).tryExcept fun e => leads_tame_bind rfl fun _ =>
            leads_raise).bind fun r => leads_ite (leads_tame (asks_ask rfl)) leads_ret
  case uploadPredictor content =>
    refine load_leads.bind fun _ => leads_ite leads_raise (Leads.tryCatch
      ((uploadPredictor_leads _ _).bind fun _ => leads_ret) fun e => ?_)
    split
    · exact leads_ret
    · exact leads_raise
  case deleteMembership =>
    exact load_leads.bind fun _ => leads_ite leads_raise
      ((deleteMembership_leads _).bind fun _ => leads_ret)
  case deletePredictor =>
    exact load_leads.bind fun _ => leads_ite leads_raise (Leads.bind (leads_tame_bind rfl fun _ =>
      (requireInput_leads _ _).bind fun _ => leads_ret) fun _ => leads_ret)
  case pollStreetProcessing =>
    exact load_leads.bind fun _ => (getStreetProcessingStatus_leads _).bind fun _ => leads_ret
  case openStreetSelection =>
    have hadopt : ∀ job, Leads crash (adoptLegacyEdits here job) := by
      intro job
      unfold adoptLegacyEdits
      exact leads_ite leads_ret (leads_tame_bind rfl fun _ => leads_ite
        ((loadFile_leads _).bind fun _ => leads_tame_bind rfl fun _ =>
          leads_tame_bind rfl fun _ => leads_ret) leads_ret)
    refine load_leads.bind fun job => (raiseStage_leads _ _).bind fun job =>
      (hadopt job).bind fun job => leads_tame_bind rfl fun _ =>
      (getStreetProcessingStatus_leads _).bind fun r => ?_
    obtain ⟨job, status⟩ := r
    have hshow : Leads crash (showStreets here job) :=
      (leads_call (.new job) rfl).bind fun sel => (leads_call (.refresh sel) rfl).bind fun r =>
        (leads_call (.getRemovedRoadsInfo r.1) rfl).bind fun _ => leads_ret
    cases status with
    | running => exact leads_ret
    | failed => exact leads_ret
    | pending => exact hshow
    | completed => exact hshow
  case editStreets e =>
    refine load_leads.bind fun job => leads_ite leads_raise ?_
    exact (leads_call (.new job) rfl).bind fun sel => (leads_call (.edit sel e) rfl).bind fun sel =>
      leads_ite ((leads_call (.getRemovedRoadsInfo sel) rfl).bind fun _ => leads_ret) leads_ret
  case updateViewportStreets =>
    refine (Leads.tryCatch (load_leads.bind fun _ => leads_ret) fun e =>
      leads_ite leads_ret leads_raise).bind fun job => ?_
    split
    · exact leads_ret
    · exact (leads_call (.new _) rfl).bind fun sel => leads_program (.viewportFc sel)
  case openStage stage =>
    exact load_leads.bind fun _ => (raiseStage_leads _ _).bind fun _ => leads_ret
  case updateRoutingParams values =>
    exact load_leads.bind fun _ => leads_ite leads_ret (leads_ite
      ((requireInput_leads _ _).bind fun _ => (raiseStage_leads _ _).bind fun _ => leads_ret)
      ((raiseStage_leads _ _).bind fun _ => leads_ret))
  case startComputation =>
    exact load_leads.bind fun _ => leads_ite ((submit_leads _).bind fun _ => leads_ret) leads_ret
  case cancelComputation =>
    refine load_leads.bind fun job => leads_ite leads_raise (Leads.bind ?_ fun _ =>
      leads_ite leads_raise leads_ret)
    unfold CosmonautJob.cancel
    split
    · exact leads_tame_bind rfl fun _ => leads_tame (asks_ask rfl)
    · exact leads_tame (asks_ask rfl)
  case restartComputation =>
    exact load_leads.bind fun _ => leads_ite leads_raise ((reset_leads _).bind fun r =>
      leads_ite ((submit_leads _).bind fun _ => leads_ret) leads_raise)
  case resetJob =>
    exact load_leads.bind fun _ => (reset_leads _).bind fun _ => leads_ite leads_raise leads_ret
  case openRouteDownload =>
    have hrest : ∀ job, Leads crash (do
        ask (.pullWorkDir here.pod)
        CosmonautJob.createQrCodeRouting here job
        ask (.uploadWorkDir here.pod)) := fun job =>
      leads_tame_bind rfl fun _ => (createQrCodeRouting_leads job).bind fun _ =>
        leads_tame (asks_ask rfl)
    exact load_leads.bind fun job => leads_ite ((raiseStage_leads _ _).bind fun _ => hrest job)
      (hrest job)
  case toggleRouteDirection reversed =>
    have hset : ∀ job, Leads crash (CosmonautJob.setRouteReversed here job reversed) := fun job =>
      (rewriteFile_leads rfl _).bind fun _ => leads_tame_bind rfl fun _ =>
        (createQrCodeRouting_leads job).bind fun _ => leads_tame (asks_ask rfl)
    exact load_leads.bind fun job => leads_tame_bind rfl fun _ =>
      isRouteReversed_leads.bind fun _ => leads_ite leads_raise ((hset job).bind fun _ =>
        (getRoutePolyline_leads job).bind fun _ => leads_ret)
  case downloadGpx =>
    exact load_leads.bind fun _ => leads_tame_bind rfl fun _ => leads_tame_bind rfl fun _ =>
      leads_ret
  case mapLayerData =>
    have hroute : ∀ job : JobModel, Leads crash (do
        if job.status = .completed then
          ask (.pullFile here.pod .solution)
          ask (.pullFile here.pod .routeOptions)
          let _ ← CosmonautJob.getRoutePolyline here job) := fun job =>
      leads_ite (leads_tame_bind rfl fun _ => leads_tame_bind rfl fun _ =>
        (getRoutePolyline_leads job).bind fun _ => leads_ret) leads_ret
    exact load_leads.bind fun job => leads_ite (leads_tame_bind rfl fun _ =>
      leads_tame_bind rfl fun _ => hroute job) (hroute job)
  case uploadWorker =>
    refine leads_tame_bind rfl fun m => ?_
    split
    · split
      · exact processUploadTask_leads _ _
      · exact leads_ret
    · exact leads_ret
  case routingWorker =>
    refine leads_tame_bind rfl fun m => ?_
    split
    · exact processRoutingJob_leads
    · exact leads_ret
  case deleteJob => exact leads_tame_bind rfl fun _ => leads_ret
  case sweep => exact leads_tame (asks_ask rfl)

/-! ## Sequences of requests -/

/-- The worlds that requests lead to, one after the other. With `crash` a process may be terminated
inside a request. In between, processes may start anew. -/
inductive Serial (crash : Bool) (w : World) : World → Prop
  | none : Serial crash w w
  | request {m w' : World} {out : Except Err Unit} (here : Site) (q : Request) :
    Serial crash w m → (q.program here).Ends (steady crash) m out w' → Serial crash w w'
  | restart {m : World} (here : Site) : Serial crash w m →
    Serial crash w (m.setMemory here ⟨fun _ => none, fun _ => none, []⟩)

theorem Serial.reached (h : Serial crash w w') (hw : Reached crash w) : Reached crash w' := by
  induction h with
  | none => exact hw
  | request here q _ hends ih => exact ((q.leads _ ih).ends hends).1
  | restart here _ ih => exact .restart here ih

/-- **What a record vouches for is derived from its source**, on every pod after any sequence of
requests, and no download nor legacy intent is half-written. -/
theorem vouched_files_derived (horigin : Origin w) (h : Serial crash w w') :
    (∀ pod s source, Vouched w' pod s source →
      ∃ doc, (w'.disk pod).content (.street s) = some (.whole doc) ∧
        Derived Feature.bare source s doc) ∧
      ∀ place f, f.neverTorn = true → (w'.copy place).content f ≠ some .torn := by
  have hsound := (h.reached (.start horigin)).sound_bare
  exact ⟨fun _ _ _ hv => hsound.derived hv, hsound.whole⟩

/-- The request served undisturbed. -/
def servedAlone (here : Site) (q : Request) (w : World) : World :=
  ((q.program here).runWith (steady false) (steadyChoice false) [] w).2

omit [External]

/-- A page is opened on one pod, and a road removed on another. -/
def worldEdited : World :=
  let _ := External.plain
  servedAlone ⟨1, 0, none⟩ (.editStreets (.removeRoads [1]))
    (servedAlone ⟨0, 0, none⟩ .openStreetSelection (worldStoring [residentialRoad]))

theorem vouched_files_derived_once :
    let _ := External.plain
    (worldEdited.disk 0 (.street .edited)).isSome = true ∧
      ∀ pod s source, Vouched worldEdited pod s source →
        ∃ doc, (worldEdited.disk pod).content (.street s) = some (.whole doc) ∧
          Derived Feature.bare source s doc := by
  intro _
  have hserial : Serial false (worldStoring [residentialRoad]) worldEdited :=
    .request _ _ (.request _ _ .none (ends_runWith _ _ _ _)) (ends_runWith _ _ _ _)
  exact ⟨by decide +kernel,
    (vouched_files_derived (worldStoring_origin [residentialRoad]) hserial).1⟩

end Cosmonaut
