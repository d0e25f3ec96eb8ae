import Cosmonaut.Runs.Workflow

/-!
# A job recovers

Whatever state a job was left in, a cancel, a restart and a worker bring it to its end, with nobody
interfering and nothing failing. A cancel of a job that does not run is refused, which does no harm.

* `Cleared`: what a reset leaves of the track, and a submit keeps.
* `restart_goes`: a job that does not run is queued again, without its track.
* `restart_recovers`: the three requests. The track is that of the new solution, unless the worker's
  pod has kept another one.
-/

namespace Cosmonaut

open Interleaving Program

variable {ways : List Way} {w m : World} {here : Site} {r : Row} {pod : ℕ} {o : Op}

/-! ## The track -/

/-- The object storage and the pod have no track, and the other pods have the one they had. -/
structure Cleared (pod : ℕ) (w m : World) : Prop where
  stored : m.stored.content .gpx = none
  disk : (m.disk pod).content .gpx = none
  others : ∀ other, other ≠ pod → (m.disk other).content .gpx = (w.disk other).content .gpx

/-- The operation makes no track: what it copies are the files of the pod. -/
def Op.makesNoTrack (pod : ℕ) : Op → Bool
  | .openFile s f | .writeFile s f _ => s.pod = pod ∧ f ≠ .gpx
  | .pullWorkDir q | .uploadWorkDir q => q = pod
  | .updateColumns _ | .writeRow _ | .markQueued | .markStartFailed | .markPending => true
  | .submitJob .. | .appendLog .. | .clearLog => true
  | _ => false

/-- What touches no track and no stored file. -/
theorem Cleared.of_untouched (h : Cleared pod w m) (htouches : ∀ q, o.touches q .gpx = false)
    (hdelivers : o.delivers = false) (c : Choice) : Cleared pod w (exec o c m).2 := by
  have hdisk : ∀ q, ((exec o c m).2.disk q).content .gpx = (m.disk q).content .gpx := by
    intro q
    rw [Files.content, exec_disk_of_not_touches (htouches q), Files.content]
  exact {
    stored := by rw [exec_stored_of_not_delivers hdelivers]; exact h.stored
    disk := (hdisk pod).trans h.disk
    others := fun other hother => (hdisk other).trans (h.others other hother) }

/-- **An operation that makes no track leaves none.** -/
theorem Cleared.perform (h : Cleared pod w m) (ho : o.makesNoTrack pod = true) (c : Choice) :
    Cleared pod w (perform o c m).2 := by
  have hexec := exec_withoutFault o c m
  cases o
  case pullWorkDir q =>
    obtain rfl : q = pod := of_decide_eq_true ho
    refine ⟨h.stored, ?_, fun other hother => ?_⟩
    · simp only [Cosmonaut.perform, World.pulled, setDisk_disk_self]
      rw [Files.content_pull rfl, h.stored, h.disk]
      rfl
    · simp only [Cosmonaut.perform, World.pulled, setDisk_disk_of_ne hother.symm]
      exact h.others other hother
  case uploadWorkDir q =>
    obtain rfl : q = pod := of_decide_eq_true ho
    refine ⟨(congrArg RouteFiles.gpx route_upload).trans ?_, h.disk, h.others⟩
    change ((m.disk q).content .gpx).or (m.stored.content .gpx) = none
    rw [h.stored, h.disk]
    rfl
  case openFile s f =>
    have hf : f ≠ .gpx := (of_decide_eq_true ho).2
    rw [← hexec]
    exact h.of_untouched (o := .openFile s f) (fun q => decide_eq_false fun hq => hf hq.2) rfl _
  case writeFile s f doc =>
    have hf : f ≠ .gpx := (of_decide_eq_true ho).2
    rw [← hexec]
    exact h.of_untouched (o := .writeFile s f doc) (fun q => decide_eq_false fun hq => hf hq.2)
      rfl _
  case updateColumns | writeRow | markQueued | markStartFailed | markPending | submitJob |
      appendLog | clearLog =>
    rw [← hexec]
    exact h.of_untouched (fun _ => rfl) rfl _
  all_goals cases ho

/-- The outputs of a run are deleted. -/
theorem cleared_deleteFiles (hdisk : m.disk = w.disk) (c : Choice) :
    Cleared pod w (perform (.deleteFiles pod [.solution, .gpx, .qrCode]) c m).2 := by
  have hdeleted : ∀ d : Files,
      (d.delete (· ∈ [.solution, .gpx, .qrCode])).content .gpx = none := by
    intro d
    have hnone : d.delete (· ∈ [.solution, .gpx, .qrCode]) .gpx = none :=
      Files.delete_of d _ _ (decide_eq_true (by simp))
    rw [Files.content, hnone]
    rfl
  refine ⟨hdeleted _, ?_, fun other hother => ?_⟩
  · change ((m.setDisk pod _).disk pod).content .gpx = none
    rw [setDisk_disk_self]
    exact hdeleted _
  · change ((m.setDisk pod _).disk other).content .gpx = _
    rw [setDisk_disk_of_ne hother.symm, hdisk]

theorem submit_makesNoTrack (job : JobModel) :
    Asks (fun o => o.makesNoTrack here.pod = true) (CosmonautJob.submit here job) := by
  have hask : ∀ {o : Op}, o.makesNoTrack here.pod = true →
      Asks (fun o => o.makesNoTrack here.pod = true) (ask o) := fun ho => asks_ask ho
  have hfail : ∀ job, Asks (fun o => o.makesNoTrack here.pod = true)
      (CosmonautJob.failToStart job) := fun job => .bind (hask rfl) fun _ =>
    always_ite (fun _ => .bind (hask rfl) fun _ => trivial) fun _ => trivial
  have hpod : here.pod = here.pod := rfl
  refine .bind (hask rfl) fun won => always_ite (fun _ => ?_) fun _ => trivial
  refine .bind (.tryCatch ?_ fun e => ?_) fun started => ?_
  · exact .bind (hask rfl) fun _ => .bind (hask (decide_eq_true hpod)) fun _ =>
      .bind (.bind (.bind (hask (decide_eq_true ⟨hpod, nofun⟩)) fun _ =>
        hask (decide_eq_true ⟨hpod, nofun⟩)) fun _ => .bind (hask (decide_eq_true hpod)) fun _ =>
        hask rfl) fun _ => .bind (hask rfl) fun _ => trivial
  · exact always_ite (fun _ => trivial) fun _ => .bind (hfail _) fun _ => trivial
  · exact always_ite (fun _ => .bind (hfail _) fun _ => trivial) fun _ =>
      .bind (hask rfl) fun _ => trivial

/-! ## The cancel -/

variable [External]

/-- The job does not run any more, and the files are as they were. -/
structure Stopped (r : Row) (w m : World) : Prop where
  row : ∃ r', m.row = some r' ∧ r'.status ≠ .running ∧ r'.columns.epsg = r.columns.epsg
  stored : m.stored = w.stored
  disk : m.disk = w.disk

omit [External] in
theorem cancel_completes (hr : w.row = some r) (hrunning : r.status = .running) (job : JobModel) :
    Completes (fun done m => done = true ∧ Stopped r w m) (CosmonautJob.cancel job) w := by
  have hmark : ∀ {m : World}, m.row = some r → m.stored = w.stored → m.disk = w.disk →
      Completes (fun done m => done = true ∧ Stopped r w m) (ask .markCancelled) m := by
    intro m hm hstored hdisk
    refine completes_ask (o := .markCancelled) fun c => ⟨true, { m with
      row := some { r with status := .failed }
      log := m.log ++ [⟨none, "The run was cancelled."⟩] }, ?_, rfl, ?_⟩
    · simp only [perform, hm, hrunning, if_true]
    · exact ⟨⟨_, rfl, by simp, rfl⟩, hstored, hdisk⟩
  unfold CosmonautJob.cancel
  split
  · rename_i id hid
    refine Completes.bind (F := fun _ m => m.row = some r ∧ m.stored = w.stored ∧ m.disk = w.disk)
      (completes_ask (o := .revokeJob id) fun c => ⟨(), _, rfl, hr, rfl, rfl⟩) ?_
    rintro - m ⟨hm, hstored, hdisk⟩
    exact hmark hm hstored hdisk
  · exact hmark hr rfl rfl

/-- **The job is cancelled**, or it did not run. -/
theorem cancelComputation_ends (hr : w.row = some r) {out : Except Err Unit}
    (hends : cancelComputation.Ends (flawless ways) w out m) :
    out = (if r.status = .running then .ok () else .error .jobNotRunning) ∧ Stopped r w m := by
  by_cases hrunning : r.status = .running
  · have hcancel : Goes ways (fun _ => Stopped r w) cancelComputation w := by
      refine Goes.bind (load_completes hr).goes ?_
      rintro job _ ⟨rfl, rfl⟩
      split
      · rename_i hnot
        exact absurd hrunning hnot
      refine Goes.bind (cancel_completes hr hrunning _).goes ?_
      rintro _ m ⟨rfl, hm⟩
      exact keeping_ret trivial hm
    obtain ⟨⟨⟩, rfl, hm⟩ := hcancel.ends hends
    exact ⟨by rw [if_pos hrunning], hm⟩
  · have hrefused : Keeping (M := flawless ways) (fun _ => True)
        (fun e m => e = .jobNotRunning ∧ m = w) (fun _ _ => False) cancelComputation w := by
      refine Keeping.bind ((load_completes hr).goes.mono (fun _ _ _ h => h.elim)
        fun _ _ _ h => h) ?_
      rintro job _ - ⟨rfl, rfl⟩
      split
      · exact keeping_throw trivial ⟨rfl, rfl⟩
      · rename_i hnot
        exact absurd hrunning hnot
    obtain ⟨-, hout⟩ := Keeping.ends hrefused hends
    rcases out with e | u
    · obtain ⟨rfl, rfl⟩ := hout
      exact ⟨by rw [if_neg hrunning], ⟨r, hr, hrunning, rfl⟩, rfl, rfl⟩
    · exact hout.elim

/-! ## The restart -/

omit [External] in
/-- The job can be edited, and its track is gone. -/
theorem reset_completes (hr : w.row = some r) (hstopped : r.status ≠ .running) (job : JobModel) :
    Completes (fun a m => a.2 = true ∧ a.1.epsg = job.epsg ∧
      (∃ r', m.row = some r' ∧ r'.status = .pending) ∧ Cleared here.pod w m)
      (CosmonautJob.reset here job) w := by
  refine Completes.bind (F := fun a m => a = true ∧
    (∃ r', m.row = some r' ∧ r'.status = .pending) ∧ m.disk = w.disk)
    (completes_ask (o := .markPending) fun c => ⟨true, { w with
      row := some { r with status := .pending, heartbeat := false, runId := none } }, ?_, rfl,
        ⟨_, rfl, rfl⟩, rfl⟩) ?_
  · simp only [perform, World.update, hr, hstopped, not_false_eq_true, decide_true, if_true,
      ne_eq]
  rintro _ m ⟨rfl, hm, hdisk⟩
  refine Completes.bind (F := fun _ m => (∃ r', m.row = some r' ∧ r'.status = .pending) ∧
    Cleared here.pod w m) (completes_ask (o := .deleteFiles here.pod _) fun c => ⟨(), _, rfl, hm,
      cleared_deleteFiles hdisk c⟩) ?_
  rintro - m₁ hm₁
  refine Completes.bind (F := fun _ m => (∃ r', m.row = some r' ∧ r'.status = .pending) ∧
    Cleared here.pod w m) (completes_ask (o := .clearLog) fun c => ⟨(), _, rfl, hm₁.1,
      hm₁.2.perform (o := .clearLog) rfl c⟩) ?_
  rintro - m₂ ⟨⟨r₂, hr₂, hpending⟩, hm₂⟩
  refine Completes.bind (updateColumns_completes hr₂ _ _) ?_
  rintro _ _ rfl
  exact completes_ret ⟨rfl, rfl, ⟨_, rfl, hpending⟩, hm₂.stored, hm₂.disk, hm₂.others⟩

/-- **A job that does not run is queued again**, without its track. -/
theorem restart_goes (hr : w.row = some r) (hstopped : r.status ≠ .running) :
    Goes ways (fun _ m => (RowQueued (· = r.columns.epsg) m ∧
      ∃ id, ⟨id, .routing, 0⟩ ∈ m.messages) ∧ Cleared here.pod w m)
      (restartComputation here) w := by
  refine Goes.bind (load_completes hr).goes ?_
  rintro job m ⟨rfl, rfl⟩
  split
  · rename_i hrunning
    exact absurd hrunning hstopped
  refine Goes.bind (reset_completes hr hstopped _).goes ?_
  rintro ⟨job, done⟩ m₁ ⟨hdone, hepsg, ⟨r₁, hr₁, hpending⟩, hm₁⟩
  obtain rfl : done = true := hdone
  have hsubmit : Goes ways _ (CosmonautJob.submit here job) m₁ :=
    submit_goes hr₁ (.inl hpending) job
  refine Goes.bind (hsubmit.kept (J := Cleared here.pod m) (submit_makesNoTrack job)
    (fun call hcall c m' hm' => ?_) hm₁) ?_
  · rw [flawless_exec]
    exact hm'.perform hcall _
  · rintro - m' ⟨⟨⟨r₂, hr₂, hrunning₂, hbeat₂, hepsg₂⟩, hsent⟩, hm'⟩
    exact keeping_ret trivial ⟨⟨⟨r₂, hr₂, hrunning₂, hbeat₂, hepsg₂.trans hepsg⟩, hsent⟩, hm'⟩

/-! ## The recovery -/

variable {w₁ w₂ w₃ : World} {o₁ o₂ o₃ : Except Err Unit} {here₁ here₂ : Site} {reversed : Bool}

/-- The track that the pod has, if it is not the pod of the restart. -/
def World.keptTrack (w : World) (restarted pod : ℕ) : Option (Bytes Gpx) :=
  if pod = restarted then none else (w.disk pod).content .gpx

/-- **A job recovers.** From every world that the app has led to, and whatever its state is, the job
is cancelled, restarted and computed: the cancel is refused exactly if the job does not run, and the
others return. The row is COMPLETED then, with a solution and its track in the object storage, if
the worker's pod has not kept a track of before. -/
theorem restart_recovers (h : Reached false w) (hr : w.row = some r)
    (hcancel : cancelComputation.Ends (flawless ways) w o₁ w₁)
    (hrestart : (restartComputation here₁).Ends (flawless ways) w₁ o₂ w₂)
    (horder : orderOf (w₂.foundRoute here₂.pod).options = some reversed)
    (hrun : (processRoutingJob here₂).Ends (flawless ways) w₂ o₃ w₃) :
    o₁ = (if r.status = .running then .ok () else .error .jobNotRunning) ∧
    (o₂ = .ok () ∧ ∃ id, ⟨id, .routing, 0⟩ ∈ w₂.messages) ∧
    o₃ = .ok () ∧ ∃ r₃ s, w₃.row = some r₃ ∧ r₃.status = .completed ∧
      w₃.stored.content .solution = some (.whole s) ∧ w₃.stored.content .gpx =
        some ((w.keptTrack here₁.pod here₂.pod).getD
          (.whole (CosmonautJob.gpxOf r.columns.epsg reversed s))) := by
  obtain ⟨rfl, ⟨r₁, hr₁, hstopped, hepsg₁⟩, hstored₁, hdisk₁⟩ := cancelComputation_ends hr hcancel
  have hleads₁ : Leads false (Request.program here₁ .cancelComputation) := Request.leads _
  have h₁ : Reached false w₁ := hleads₁.flawless h hcancel
  obtain ⟨⟨⟩, rfl, ⟨⟨r₂, hr₂, hrunning, hbeat, hepsg₂⟩, hsent⟩, hcleared⟩ :=
    (restart_goes hr₁ hstopped).ends hrestart
  have hleads₂ : Leads false (Request.program here₁ .restartComputation) := Request.leads _
  have h₂ : Reached false w₂ := hleads₂.flawless h₁ hrestart
  obtain ⟨⟨⟩, rfl, s, r₃, hr₃, hcompleted, -, hfiles⟩ :=
    (processRoutingJob_completes h₂.sound_bare hr₂ hrunning hbeat horder).goes.ends hrun
  have hepsg : r₂.columns.epsg = r.columns.epsg := hepsg₂.trans hepsg₁
  have hfound : (w₂.foundRoute here₂.pod).gpx = w.keptTrack here₁.pod here₂.pod := by
    change (w₂.stored.content .gpx).or ((w₂.disk here₂.pod).content .gpx) = _
    rw [hcleared.stored, Option.none_or, World.keptTrack]
    split
    · rename_i hpod
      rw [hpod, hcleared.disk]
    · rename_i hpod
      rw [hcleared.others _ hpod, hdisk₁]
  rw [hepsg] at hfiles
  refine ⟨rfl, ⟨rfl, hsent⟩, rfl, r₃, s, hr₃, hcompleted, ?_, ?_⟩
  · exact congrArg RouteFiles.solution hfiles
  · rw [← hfound]
    exact congrArg RouteFiles.gpx hfiles

omit [External]

/-! ## A run whose worker was lost -/

/-- A worker has claimed the queued run and was lost then. -/
def worldLost : World := (exec .claim .usual worldQueued).2

theorem reached_worldLost : let _ := External.plain; Reached false worldLost := by
  intro _
  exact Reached.op .claim .usual reached_worldQueued rfl

/-- The run is cancelled, and the job restarted. -/
def worldRestarted : World :=
  let _ := External.plain
  leaves (restartComputation ⟨0, 0, none⟩) (leaves cancelComputation worldLost)

/-- A worker on another pod computes it. -/
def worldRecovered : World :=
  let _ := External.plain
  leaves (processRoutingJob ⟨1, 0, none⟩) worldRestarted

theorem restart_recovers_lostRun :
    let _ := External.plain
    ∃ r s, worldRecovered.row = some r ∧ r.status = .completed ∧
      worldRecovered.stored.content .solution = some (.whole s) ∧
      worldRecovered.stored.content .gpx =
        some (.whole (CosmonautJob.gpxOf 25832 false s)) := by
  intro _
  have horder : orderOf (worldRestarted.foundRoute 1).options = some false := by decide +kernel
  obtain ⟨o₁, hcancel⟩ : ∃ o, cancelComputation.Ends (flawless [residentialWay]) worldLost o
    (leaves cancelComputation worldLost) := ends_leaves _ _
  obtain ⟨o₂, hrestart⟩ : ∃ o, (restartComputation ⟨0, 0, none⟩).Ends (flawless [residentialWay])
    (leaves cancelComputation worldLost) o worldRestarted := ends_leaves _ _
  obtain ⟨o₃, hrun⟩ : ∃ o, (processRoutingJob ⟨1, 0, none⟩).Ends (flawless [residentialWay])
    worldRestarted o worldRecovered := ends_leaves _ _
  have hrecovered := restart_recovers reached_worldLost rfl hcancel hrestart horder hrun
  obtain ⟨-, -, -, r, s, hr, hcompleted, hsolution, hgpx⟩ := hrecovered
  exact ⟨r, s, hr, hcompleted, hsolution, hgpx⟩

end Cosmonaut
