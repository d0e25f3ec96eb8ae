import Cosmonaut.Street.MadeCurrent

/-!
# The street network of a routing run

A routing run brings the derived files up to date and calls the routing pipeline, whether or not the
projection had a download to work with.

* `UsesCurrentNetwork`: what the pipeline finds is the network the row calls for.
* `NetworkReady`: the state from which the preparation leads there.
* `uses_current_network_iff`: the pipeline finds the current network exactly from such a state.
* `pipeline_on_a_deleted_network`: a run on a network whose membership file was deleted.
-/

namespace Cosmonaut

open Interleaving Program

/-- What the derived files of a row are built from, as the row has it. -/
def Row.source (r : Row) : Source := ⟨r.intent, r.columns.epsg, r.named⟩

/-- What a routing run builds the derived files from, with the files on the pod: the intent may
still be in a legacy file, and a stored download without a name is adopted. -/
def World.sourceOf (w : World) (pod : ℕ) (r : Row) : Source where
  intent := r.columns.streetEdits.getD (w.legacyIntent pod)
  epsg := r.columns.epsg
  downloadSha256 := w.adopted pod r.columns.membershipUpload.backfill

variable [External]

/-- The routing input is the network the source stands for, projected; tooltips aside. -/
def Source.Projects (source : Source) (doc : RoutingInput) : Prop :=
  ∃ kept, source.Network kept ∧ doc.bare = (projectRoads source.epsg kept).bare

/-- The routing input in the work dir is the network the row calls for. -/
def UsesCurrentNetwork (pod : ℕ) (w : World) : Prop :=
  ∃ r doc, w.row = some r ∧ (w.disk pod).content (.street .transformed) = some (.whole doc) ∧
    r.source.Projects doc

/-- A download is named, and the edited file is vouched for as built from it; or the download the
pod has leads to the same routing input; or it has none, and a routing input is left that is the
right one. -/
def ReadyFor (pod : ℕ) (w : World) (source : Source) : Prop :=
  source.downloadSha256 ≠ none ∧
    (Vouched w pod .edited source ∨
      (∃ download kept, w.fetched pod = some (.whole download) ∧
        derive source.intent download = some kept ∧
        source.Projects (projectRoads source.epsg kept)) ∨
      w.fetched pod = none ∧ ∃ doc,
        (w.disk pod).content (.street .transformed) = some (.whole doc) ∧ source.Projects doc)

/-- The pulled work dir is ready for the row. -/
def NetworkReady (pod : ℕ) (w : World) (r : Row) : Prop := ReadyFor pod w (w.sourceOf pod r)

variable {here : Site} {w w' m : World} {r : Row}

/-! ## The preparation -/

/-- What a routing run does before it calls the pipeline. -/
def prepareNetwork (here : Site) : App JobModel := do
  ask (.appendLog here.run "Starting routing job computation")
  let job ← CosmonautJob.load
  notifySubmission job
  let sel ← StreetSelector.new here job
  sel.ensureProjected here
  return job

/-- What it does from there. -/
def routeFrom (here : Site) (job : JobModel) : App Unit := do
  ask (.pipeline here)
  ask (.appendLog here.run "Starting post-processing")
  CosmonautJob.createQrCodeRouting here job
  ask (.appendLog here.run "Post-processing complete. QR code generated")

theorem computeRoute_eq (here : Site) :
    computeRoute here = prepareNetwork here >>= routeFrom here := by
  simp only [computeRoute, prepareNetwork, routeFrom, bind_assoc, pure_bind]

omit [External] in
/-- Where the work dir was pulled, the pod works with its own download. -/
theorem got_of_pulled {pod : ℕ} (hpulled : w.fetched pod = (w.disk pod).content (.street .download))
    (named : Option Sha256) : w.got pod named = w.fetched pod := by
  unfold World.got
  split
  · exact hpulled.symm
  · rfl

theorem Source.Projects.of_bare {source : Source} {doc doc' : RoutingInput}
    (h : source.Projects doc) (hbare : doc'.bare = doc.bare) : source.Projects doc' := by
  obtain ⟨kept, hkept, hdoc⟩ := h
  exact ⟨kept, hkept, hbare.trans hdoc⟩

theorem Source.Projects.named {source : Source} {doc : RoutingInput} (h : source.Projects doc) :
    source.downloadSha256 ≠ none := by
  obtain ⟨kept, ⟨download, hsum, -⟩, -⟩ := h
  rw [hsum]
  simp

theorem Derived.projects {source : Source} {doc : RoutingInput}
    (h : Derived Feature.bare source .transformed doc) : source.Projects doc := by
  obtain ⟨kept, roads, hnetwork, hroads, rfl⟩ := h
  exact ⟨kept, hnetwork, projectRoads_bare hroads⟩

/-- A projected world holds the current network exactly if the world before was ready for it. -/
theorem Projected.current_iff {sel sel' : StreetSelector} {crash : Bool} {torn : Place → Prop}
    (h : Projected here sel sel' w w') (hs : Sound crash Feature.bare torn w')
    (hpulled : w.fetched here.pod = (w.disk here.pod).content (.street .download))
    {r' : Row} (hr' : w'.row = some r') (hsource : r'.source = sel'.source sel'.job.named) :
    UsesCurrentNetwork here.pod w' ↔ ReadyFor here.pod w r'.source := by
  obtain ⟨m, hadopted, hm, hcases⟩ := h.adopted
  have hleft : UsesCurrentNetwork here.pod w' ↔ ∃ doc,
      (w'.disk here.pod).content (.street .transformed) = some (.whole doc) ∧
        r'.source.Projects doc := by
    constructor
    · rintro ⟨r'', doc, hr'', hdoc, hprojects⟩
      obtain rfl := Option.some.inj (hr''.symm.trans hr')
      exact ⟨doc, hdoc, hprojects⟩
    · rintro ⟨doc, hdoc, hprojects⟩
      exact ⟨r', doc, hr', hdoc, hprojects⟩
  rw [hleft, ReadyFor, hsource]
  rcases hcases with ⟨honly, ⟨hnone, -⟩ | ⟨hne, hstale, hno⟩⟩ |
    ⟨hne, k, hedited, htransformed, hk⟩
  · -- no download is named
    constructor
    · rintro ⟨doc, -, hprojects⟩
      exact absurd hnone hprojects.named
    · rintro ⟨hne, -⟩
      exact absurd hnone hne
  · -- nothing is written
    have hcontent : (w'.disk here.pod).content (.street .transformed) =
        (w.disk here.pod).content (.street .transformed) :=
      (honly.content (by simp)).trans (hadopted.apart.content (by simp))
    rw [hcontent]
    constructor
    · intro hleft
      exact ⟨hne, .inr (.inr ⟨hno, hleft⟩)⟩
    · rintro ⟨-, hvouched | ⟨download, kept, hgot, -⟩ | ⟨-, hleft⟩⟩
      · exact absurd hvouched hstale
      · rw [hno] at hgot
        cases hgot
      · exact hleft
  · -- both files are derived from the download `k`
    obtain ⟨doc, hdoc, hderived⟩ := hs.derived htransformed
    obtain ⟨kept, hnetwork, hbare⟩ := Derived.projects hderived
    rcases hk with ⟨hvouched, rfl⟩ | ⟨hstale, rfl⟩
    · refine ⟨fun _ => ⟨hne, .inl hvouched⟩, fun _ => ⟨doc, hdoc, kept, hnetwork, hbare⟩⟩
    · obtain ⟨download, hsum, hkept⟩ := id hnetwork
      have hgot : w.fetched here.pod = some (.whole download) := by
        rw [got_of_pulled hpulled] at hsum
        exact downloadSum_injective hsum
      have hiff : (sel'.source sel'.job.named).Projects doc ↔
          (sel'.source sel'.job.named).Projects (projectRoads sel'.job.epsg kept) :=
        ⟨fun h => h.of_bare hbare.symm, fun h => h.of_bare hbare⟩
      constructor
      · rintro ⟨doc', hdoc', hprojects⟩
        obtain rfl := Bytes.whole.inj (Option.some.inj (hdoc.symm.trans hdoc'))
        exact ⟨hne, .inr (.inl ⟨download, kept, hgot, hkept, hiff.1 hprojects⟩)⟩
      · rintro ⟨-, hvouched | ⟨download', kept', hgot', hkept', hprojects⟩ | ⟨hno, -⟩⟩
        · exact absurd hvouched hstale
        · obtain rfl := Bytes.whole.inj (Option.some.inj (hgot.symm.trans hgot'))
          obtain rfl := Option.some.inj (hkept.symm.trans hkept')
          exact ⟨doc, hdoc, hiff.2 hprojects⟩
        · rw [hno] at hgot
          cases hgot

variable {crash : Bool} {torn : Place → Prop} {err : Prop}

theorem settles_appendLog (hs : Sound crash Feature.bare torn w) (author : Option ℕ)
    (text : String) :
    Settles crash Feature.bare torn err (fun _ w' => ∃ log, w' = { w with log })
      (ask (.appendLog author text)) w := by
  refine (settles_do (o := .appendLog author text) () (fun _ => _) hs (fun c => rfl) (fun c => rfl)
    fun c => ?_).mono (fun _ _ _ h => h) ?_
  · exact ⟨hs.records, hs.checksums, hs.features, hs.legible, hs.whole⟩
  · rintro - w' - ⟨-, c, rfl⟩
    exact ⟨_, rfl⟩

theorem settles_load (hs : Sound crash Feature.bare torn w) (hr : w.row = some r) :
    Settles crash Feature.bare torn err (fun job w' => w' = w ∧ job = .ofRow r)
      CosmonautJob.load w := by
  have hload : ∀ c, perform .loadRow c w = (.ok r, w) := by
    intro c
    simp only [perform, hr]
  refine (settles_do (o := .loadRow) r (fun _ => w) hs hload (fun c => rfl) fun c => hs).bind ?_
  rintro a w' hs' ⟨rfl, c, rfl⟩
  exact settles_ret hs' ⟨rfl, rfl⟩

theorem settles_notifySubmission (hs : Sound crash Feature.bare torn w) (job : JobModel) :
    Settles crash Feature.bare torn err (fun _ w' => ∃ mails, w' = { w with mails })
      (notifySubmission job) w := by
  have hmails : ∀ mails, Sound crash Feature.bare torn { w with mails } := fun mails =>
    ⟨hs.records, hs.checksums, hs.features, hs.legible, hs.whole⟩
  unfold notifySubmission
  split
  · refine (settles_ask (F := fun _ w' => ∃ mails, w' = { w with mails }) hs (fun c a w' h => ?_)
      (fun c f w' h => ?_) fun c => ?_).bind ?_
    · obtain ⟨-, rfl⟩ := Prod.mk.inj h
      split
      · exact ⟨hmails _, _, rfl⟩
      · exact ⟨hs, _, rfl⟩
    · cases h
    · exact hs
    · intro a w' hs' h
      exact settles_ret hs' h
  · exact settles_ret hs ⟨_, rfl⟩

theorem Apart.readyFor_iff {source : Source} (h : Apart here [.streetEdits] w w') :
    ReadyFor here.pod w' source ↔ ReadyFor here.pod w source := by
  unfold ReadyFor
  rw [h.vouched_iff (by simp) (by simp), h.fetched (.inl (h.content (by simp))),
    h.content (by simp)]

/-- **The preparation leads to the current network exactly from a state that is ready for it.** It
never fails. -/
theorem prepareNetwork_settles (hs : Sound false Feature.bare (fun _ => False) w)
    (hr : w.row = some r)
    (hpulled : w.fetched here.pod = (w.disk here.pod).content (.street .download)) :
    Settles false Feature.bare (fun _ => False) False
      (fun _ w' => UsesCurrentNetwork here.pod w' ↔ NetworkReady here.pod w r)
      (prepareNetwork here) w := by
  refine (settles_appendLog hs _ _).bind ?_
  rintro - w₁ hs₁ ⟨log, rfl⟩
  refine (settles_load (r := r) hs₁ hr).bind ?_
  rintro job w₂ hs₂ ⟨rfl, rfl⟩
  refine (settles_notifySubmission hs₂ _).bind ?_
  rintro - w₃ hs₃ ⟨mails, rfl⟩
  refine (new_settles hs₃ fun hno => ?_).bind ?_
  · rw [hr] at hno
    cases hno
  intro sel w₄ hs₄ hnew
  have hmirrors := hnew.mirrors ⟨r, hr, rfl, rfl, rfl⟩
  refine (ensureProjected_settles sameRoad_of_bare hs₄ (fun hno => ?_) fun ht _ => ?_).bind ?_
  · obtain ⟨r', hr', -⟩ := hmirrors
    rw [hr'] at hno
    cases hno
  · exact hs₄.legible rfl (some here.pod) ht
  rintro - w₅ hs₅ ⟨sel', hprojected⟩
  obtain ⟨m, hadopted, hm, -⟩ := id hprojected.adopted
  obtain ⟨r', hr', hupload, hepsg, hedits⟩ := (hadopted.mirrors hmirrors).of_row hm.row
  have hsource : r'.source = sel'.source sel'.job.named := by
    rw [Row.source, StreetSelector.source, Row.intent, Row.named, ← hupload, ← hepsg, ← hedits,
      hprojected.edits, hnew.edits, hadopted.edits]
  have hapart : Apart here [.streetEdits] w w₄ :=
    ⟨hnew.apart.stored, hnew.apart.disk, hnew.apart.heap⟩
  have hfetched : w₄.fetched here.pod = w.fetched here.pod :=
    hapart.fetched (.inl (hapart.content (by simp)))
  have hstart : w.sourceOf here.pod r = r'.source := by
    rw [hsource, StreetSelector.source, World.sourceOf, hprojected.edits, hnew.intent,
      hadopted.epsg, hnew.epsg, hadopted.named, adopted_congr hfetched, hnew.upload]
    rfl
  apply settles_ret hs₅
  rw [hprojected.current_iff hs₅
    (hfetched.trans (hpulled.trans (hapart.content (by simp)).symm)) hr'
    hsource, NetworkReady, hstart]
  exact hapart.readyFor_iff

/-! ## The run -/

omit [External] in
theorem noPipelineMenu (here : Site) : Menu here (fun o => ∀ site, o ≠ .pipeline site) where
  stays o h site ho := by cases ho; cases h
  shared o h site ho := by cases ho; cases h
  inputs _ _ _ ho := by cases ho
  due _ ho := by cases ho
  task _ _ ho := by cases ho
  raises _ _ _ ho := by cases ho
  log _ _ ho := by cases ho

section

omit [External]

variable {α β : Type} {p : App α} {f : α → App β} {site : Site}

/-- The program does not call the pipeline. -/
abbrev NoPipeline (p : App α) : Prop := Asks (fun o => ∀ site, o ≠ .pipeline site) p

theorem NoPipeline.not_reaches (h : NoPipeline p) :
    ¬p.Reaches (steady false) (.pipeline site) w m := by
  intro hr
  obtain ⟨a, hne⟩ := h.reaches hr
  exact hne site rfl

theorem appendLog_noPipeline (author : Option ℕ) (text : String) :
    NoPipeline (ask (.appendLog author text)) :=
  asks_ask fun site h => by cases h

/-- The pipeline is called by the first of two programs. -/
theorem reaches_first (h : (p >>= f).Reaches (steady false) (.pipeline site) w m)
    (hf : ∀ a, NoPipeline (f a)) :
    p.Reaches (steady false) (.pipeline site) w m := by
  rcases reaches_bind.1 h with h | ⟨a, w', -, h⟩
  · exact h
  · exact absurd h (hf a).not_reaches

/-- The pipeline is called by the second of two programs. -/
theorem reaches_second (h : (p >>= f).Reaches (steady false) (.pipeline site) w m)
    (hp : NoPipeline p) :
    ∃ a w', p.Ends (steady false) w (.ok a) w' ∧
      (f a).Reaches (steady false) (.pipeline site) w' m :=
  (reaches_bind.1 h).resolve_left hp.not_reaches

end

omit [External] in
theorem ends_ask {o : Op} {a : o.Ans} (h : (ask o).Ends (steady false) w (.ok a) w') :
    ∃ c, perform o c w = (.ok a, w') := by
  obtain ⟨c, ha, rfl⟩ := ends_call.1 h
  refine ⟨c.1, ?_⟩
  rcases steady_exec_cases o c w with hc | ⟨hfalse, -⟩
  · rw [hc] at ha ⊢
    rcases hp : perform o c.1 w with ⟨f | a', w₁⟩
    · rw [hp] at ha
      cases ha
    · rw [hp] at ha
      cases ha
      rfl
  · cases hfalse

/-- The queued run has been claimed. -/
def World.claimed (w : World) (r : Row) : World :=
  { w with
    row := some { r with heartbeat := true, runId := some w.nextId }
    nextId := w.nextId + 1 }

/-- The run's work dir has been pulled. -/
def World.pulledRun (w : World) (r : Row) (pod : ℕ) (time : FileName → ℕ) : World :=
  (w.claimed r).pulled pod (fun _ => true) time

omit [External] in
theorem claim_cases {c : Choice} {claimed : Option (ℕ × ℕ)}
    (h : perform .claim c w = (.ok claimed, w')) : claimed = none ∨
      ∃ r, w.row = some r ∧ r.status = .running ∧ r.heartbeat = false ∧
        claimed = some (w.nextId, w.epoch) ∧ w' = w.claimed r := by
  simp only [perform] at h
  split at h
  · rename_i r hr
    split at h
    · rename_i hqueued
      obtain ⟨ha, rfl⟩ := Prod.mk.inj h
      exact .inr ⟨r, hr, hqueued.1, hqueued.2, (Except.ok.inj ha).symm, rfl⟩
    · exact .inl (Except.ok.inj (Prod.mk.inj h).1).symm
  · exact .inl (Except.ok.inj (Prod.mk.inj h).1).symm

theorem prepareNetwork_noPipeline (here : Site) : NoPipeline (prepareNetwork here) := by
  have hmenu := noPipelineMenu here
  have hadopts : Adopts here (fun o => ∀ site, o ≠ .pipeline site) := by
    intro o h site ho
    cases ho
    cases h
  refine .bind (appendLog_noPipeline _ _) fun _ => .bind hmenu.load fun job => .bind ?_ fun _ =>
    .bind ((StreetSelector.new_staysOrAdopts _).asks hmenu hadopts) fun sel =>
    .bind ((StreetSelector.ensureProjected_staysOrAdopts _).asks hmenu hadopts) fun _ => trivial
  exact always_ite (fun _ => .bind (hmenu.ask' rfl) fun _ => trivial) fun _ => trivial

/-- What the routing task does after the run. -/
theorem notifyEnd_noPipeline (here : Site) (ended : Option Status) : NoPipeline (do
    match ended with
    | none => return
    | some status =>
      let job ← Program.tryCatch (some <$> CosmonautJob.load)
        fun e => if e = .fault .jobNotFound then return none else raise e
      match job with
      | none => return
      | some job => notifyUser job status) := by
  have hmenu := noPipelineMenu here
  rcases ended with _ | status
  · trivial
  refine .bind (.tryCatch (.bind hmenu.load fun _ => trivial) fun e =>
    always_ite (fun _ => trivial) fun _ => trivial) fun job => ?_
  rcases job with _ | job
  · trivial
  · exact hmenu.notifyUser (fun _ ho => by cases ho) _ _

/-- **A routing run that comes to the pipeline** has claimed the queued run, pulled its work dir and
prepared the network. -/
theorem processRoutingJob_reaches {site : Site}
    (h : (processRoutingJob here).Reaches (steady false) (.pipeline site) w m) :
    ∃ r time job, w.row = some r ∧ r.status = .running ∧ r.heartbeat = false ∧ site.pod = here.pod ∧
      (prepareNetwork { here with run := some w.epoch }).Ends (steady false)
        (w.pulledRun r here.pod time) (.ok job) m := by
  have hmenu := noPipelineMenu here
  -- the pipeline is called in the run, after the claim
  have h := reaches_first h (notifyEnd_noPipeline here)
  obtain ⟨claimed, w₁, hclaim, h⟩ := reaches_second h (always_call fun _ _ ho => by cases ho)
  obtain ⟨c, hclaim⟩ := ends_ask hclaim
  rcases claim_cases hclaim with rfl | ⟨r, hr, hrunning, hheartbeat, rfl, rfl⟩
  · cases h
  have h := reaches_first h fun status =>
    .bind (always_call fun _ _ ho => by cases ho) fun _ => trivial
  rcases reaches_tryCatch.1 h with h | ⟨e, w₂, -, h⟩
  · obtain ⟨u, w₂, hpull, h⟩ := reaches_second h (hmenu.local' (by simp [Op.isLocal]))
    obtain ⟨c, hpull⟩ := ends_ask hpull
    obtain ⟨-, rfl⟩ := Prod.mk.inj hpull
    have h := reaches_first h fun _ => .bind (hmenu.ask' rfl) fun _ => trivial
    rw [computeRoute_eq] at h
    obtain ⟨job, w₃, hends, h⟩ := reaches_second h (prepareNetwork_noPipeline _)
    rcases reaches_bind.1 h with h | ⟨u, w₄, -, h⟩
    · obtain ⟨hsite, rfl⟩ := reaches_call h
      cases hsite
      exact ⟨r, _, job, hr, hrunning, hheartbeat, rfl, hends⟩
    · refine absurd h (NoPipeline.not_reaches ?_)
      refine .bind (appendLog_noPipeline _ _) fun _ => .bind ?_ fun _ => appendLog_noPipeline _ _
      exact (noPipelineMenu _).createQrCodeRouting job
  · refine absurd h (NoPipeline.not_reaches ?_)
    exact always_ite (fun _ => trivial) fun _ => .bind (appendLog_noPipeline _ _) fun _ => trivial

/-- From a queued run, every end of the preparation comes to the pipeline. -/
theorem processRoutingJob_reaches_of {job : JobModel} (hr : w.row = some r)
    (hrunning : r.status = .running) (hheartbeat : r.heartbeat = false)
    (h : (prepareNetwork { here with run := some w.epoch }).Ends (steady false)
      (w.pulledRun r here.pod fun _ => 0) (.ok job) m) :
    (processRoutingJob here).Reaches (steady false) (.pipeline { here with run := some w.epoch })
      w m := by
  have hclaim : (ask .claim).Ends (steady false) w (.ok (some (w.nextId, w.epoch)))
    (w.claimed r) := by
    have hdo : perform .claim .usual w = (.ok (some (w.nextId, w.epoch)), w.claimed r) := by
      simp only [perform, hr]
      rw [if_pos ⟨hrunning, hheartbeat⟩, World.claimed]
    refine ends_call.2 ⟨steadyChoice false, ?_⟩
    change _ = Except.mapError _ (perform .claim .usual w).1 ∧ _ = (perform .claim .usual w).2
    rw [hdo]
    exact ⟨rfl, rfl⟩
  have hpull : (ask (.pullWorkDir here.pod)).Ends (steady false) (w.claimed r) (.ok ())
      (w.pulledRun r here.pod fun _ => 0) :=
    ends_call.2 ⟨steadyChoice false, rfl, rfl⟩
  have hroute : (computeRoute { here with run := some w.epoch }).Reaches (steady false)
      (.pipeline { here with run := some w.epoch }) (w.pulledRun r here.pod fun _ => 0) m := by
    rw [computeRoute_eq]
    exact reaches_bind.2 (.inr ⟨job, m, h, reaches_call_bind (M := steady false) m⟩)
  refine reaches_bind.2 (.inl (reaches_bind.2 (.inr ⟨_, _, hclaim, reaches_bind.2 (.inl ?_)⟩)))
  refine reaches_tryCatch.2 (.inl (reaches_bind.2 (.inr ⟨_, _, hpull, ?_⟩)))
  exact reaches_bind.2 (.inl hroute)

/-! ## The network of the run -/

theorem Sound.pulledRun (hs : Sound false Feature.bare (fun _ => False) w) (pod : ℕ)
    (time : FileName → ℕ) : Sound false Feature.bare (fun _ => False) (w.pulledRun r pod time) := by
  have hclaimed : Sound false Feature.bare (fun _ => False) (w.claimed r) :=
    ⟨hs.records, hs.checksums, hs.features, hs.legible, hs.whole⟩
  exact hclaimed.exec_tame (o := .pullWorkDir pod) { time } rfl

omit [External] in
/-- The modification times of a pull do not matter. -/
theorem pulledRun_content (pod : ℕ) (time : FileName → ℕ) (f : FileName) :
    ((w.pulledRun r pod time).disk pod).content f =
      (w.stored.content f).or ((w.disk pod).content f) := by
  rw [World.pulledRun, World.pulled, setDisk_disk_self]
  exact Files.content_pull rfl

omit [External] in
theorem pulledRun_fetched (pod : ℕ) (time : FileName → ℕ) :
    (w.pulledRun r pod time).fetched pod =
      ((w.pulledRun r pod time).disk pod).content (.street .download) := by
  have hstored : (w.pulledRun r pod time).stored = w.stored := rfl
  rw [World.fetched, pulledRun_content, hstored]
  cases w.stored.content (.street .download) <;> rfl

theorem networkReady_pulledRun {pod : ℕ} (time time' : FileName → ℕ) :
    NetworkReady pod (w.pulledRun r pod time) r ↔ NetworkReady pod (w.pulledRun r pod time') r := by
  have hcontent : ∀ f, ((w.pulledRun r pod time).disk pod).content f =
      ((w.pulledRun r pod time').disk pod).content f := by
    intro f
    rw [pulledRun_content, pulledRun_content]
  have hlegacy : (w.pulledRun r pod time).legacyIntent pod =
      (w.pulledRun r pod time').legacyIntent pod := by
    rw [World.legacyIntent, hcontent, World.legacyIntent]
  have hfetched : (w.pulledRun r pod time).fetched pod = (w.pulledRun r pod time').fetched pod := by
    rw [pulledRun_fetched, hcontent, pulledRun_fetched]
  have hrecords : (w.pulledRun r pod time).recordsOn pod =
      (w.pulledRun r pod time').recordsOn pod := by
    rw [World.recordsOn, hcontent, World.recordsOn]
  simp only [NetworkReady, ReadyFor, World.sourceOf, Vouched, World.adopted, hlegacy, hfetched,
    hrecords, hcontent]

/-- A routing run uses the current network. -/
def RunsUseCurrentNetwork : Prop :=
  ∀ (here site : Site) (w m : World), Reached false w →
    (processRoutingJob here).Reaches (steady false) (.pipeline site) w m →
    UsesCurrentNetwork site.pod m

/-- The run of a queued row prepares the network, and comes to the pipeline. -/
theorem ready_of_uses (h : Reached false w)
    (huses : ∀ site m, (processRoutingJob here).Reaches (steady false) (.pipeline site) w m →
      UsesCurrentNetwork site.pod m)
    (hr : w.row = some r) (hrunning : r.status = .running) (hheartbeat : r.heartbeat = false) :
    NetworkReady here.pod (w.pulledRun r here.pod fun _ => 0) r := by
  let site : Site := { here with run := some w.epoch }
  have hsettles : Settles _ _ _ _ _ (prepareNetwork site) _ :=
    prepareNetwork_settles (r := { r with heartbeat := true, runId := some w.nextId })
      (h.sound_bare.pulledRun here.pod fun _ => 0) rfl (pulledRun_fetched here.pod _)
  obtain ⟨res, m, hends⟩ := exists_ends (M := steady false) (prepareNetwork site)
    (w.pulledRun r here.pod fun _ => 0)
  have hout := (hsettles.ends hends).2
  rcases res with e | job
  · rcases hout with ⟨-, hfalse⟩ | hfalse
    · cases hfalse
    · exact hfalse.elim
  · exact hout.1 (huses _ m (processRoutingJob_reaches_of hr hrunning hheartbeat hends))

/-- **A routing run uses the current network exactly from a state that is ready for it**: the
pipeline is called in any case. -/
theorem uses_current_network_iff (h : Reached false w) :
    (∀ site m, (processRoutingJob here).Reaches (steady false) (.pipeline site) w m →
      UsesCurrentNetwork site.pod m) ↔
    ∀ r, w.row = some r → r.status = .running → r.heartbeat = false →
      NetworkReady here.pod (w.pulledRun r here.pod fun _ => 0) r := by
  constructor
  · intro huses r hr hrunning hheartbeat
    exact ready_of_uses h huses hr hrunning hheartbeat
  · intro hready site m hreaches
    obtain ⟨r, time, job, hr, hrunning, hheartbeat, hsite, hends⟩ :=
      processRoutingJob_reaches hreaches
    have hsettles : Settles _ _ _ _ _ (prepareNetwork { here with run := some w.epoch }) _ :=
      prepareNetwork_settles (r := { r with heartbeat := true, runId := some w.nextId })
        (h.sound_bare.pulledRun here.pod time) rfl (pulledRun_fetched here.pod _)
    rw [hsite]
    exact (hsettles.ends hends).2.2
      ((networkReady_pulledRun _ _).1 (hready r hr hrunning hheartbeat))

omit [External]

/-! ## A run on the network of a deleted membership file -/

/-- A run is queued, and its row names the stored download. -/
def worldQueued : World :=
  { worldStoring [residentialRoad] with
    row := some { rowNaming [residentialRoad] with status := .running } }

theorem reached_worldQueued : let _ := External.plain; Reached false worldQueued := by
  intro _
  have horigin := worldStoring_origin [residentialRoad]
  exact .start ⟨horigin.records, horigin.whole, horigin.memory⟩

theorem uses_current_network_once :
    let _ := External.plain
    ∀ site m, (processRoutingJob ⟨0, 0, none⟩).Reaches (steady false)
    (.pipeline site) worldQueued m →
      UsesCurrentNetwork site.pod m := by
  intro _
  refine (uses_current_network_iff reached_worldQueued).2 fun r hr _ _ => ?_
  obtain rfl := Option.some.inj hr
  refine ⟨by decide, .inr (.inl ⟨[residentialRoad], [residentialRoad], rfl, by decide +kernel, ?_⟩)⟩
  exact ⟨[residentialRoad], ⟨[residentialRoad], rfl, by decide +kernel⟩, rfl⟩

/-- A run is queued whose row names no download: the membership file was deleted. The worker still
has the routing input of an earlier run. -/
def worldDeleted : World :=
  let _ := External.plain
  { World.fresh { Row.ofModel .blank with status := .running } with
    disk := fun _ => Files.write (fun _ => none) (.street .transformed)
      ⟨.whole (projectRoads 4326 [residentialRoad]), 0, none⟩ }

theorem worldDeleted_other (place : Place) {f : FileName} (hf : f ≠ .street .transformed) :
    worldDeleted.copy place f = none := by
  cases place with
  | none => rfl
  | some pod => exact Files.write_other (fun _ => none) (.street .transformed) f _ hf

theorem worldDeleted_origin : Origin worldDeleted where
  records place records h := by
    rw [Files.content, worldDeleted_other place (by simp)] at h
    cases h
  whole place f hf h := by
    have hne : f ≠ .street .transformed := by
      rintro rfl
      cases hf
    rw [Files.content, worldDeleted_other place hne] at h
    cases h
  memory _ := ⟨fun _ => rfl, fun _ => rfl⟩

/-- **The pipeline is called on a network that was deleted.** -/
theorem pipeline_on_a_deleted_network : ¬ @RunsUseCurrentNetwork External.plain := by
  intro h
  let _ := External.plain
  let here : Site := ⟨0, 0, none⟩
  have hready : NetworkReady here.pod (worldDeleted.pulledRun _ here.pod fun _ => 0) _ :=
    ready_of_uses (.start worldDeleted_origin)
      (fun site m => h here site _ m (.start worldDeleted_origin)) rfl rfl rfl
  exact hready.1 (by decide)

end Cosmonaut
