import Cosmonaut.Model.JobRuns

/-!
# The calls around a run

In which order submits, cancels, resets and routing workers make the calls that steer a run.

* `RunOrder`: what has come before each of these calls.
* `RunEnd`: what a request has called by the time it ends.
* `Request.runOrder`: every such request keeps to the order and comes to such an end.
-/

namespace Cosmonaut

open Interleaving Program

/-- The requests that start, cancel, reset or compute the job's run. -/
def Request.handlesRun : Request → Bool
  | .startComputation | .restartComputation | .cancelComputation | .resetJob | .routingWorker =>
      true
  | _ => false

def ColumnValue.isTask : ColumnValue → Bool
  | .celeryTaskId _ => true
  | _ => false

/-- The operation queues, ends or claims a run, or names its task. -/
def Op.steersRun : Op → Bool
  | .markQueued | .submitJob .. | .writeRow _ | .markStartFailed | .revokeJob _ => true
  | .markCancelled | .markPending | .claim | .receive _ => true
  | .updateColumns vs | .updateInput vs => vs.any ColumnValue.isTask
  | .appendLog none _ => true
  | _ => false

/-- The job object's task: forgotten by a reset, or the one of the row it was loaded from. -/
def LoadedTask (past : List (Call sig)) (task : Option TaskId) : Prop :=
  task = none ∨ ∃ r, answered .loadRow r ∈ past ∧ task = r.columns.celeryTaskId

/-- The parameters were written and the work dir uploaded. -/
def FilesSaved (past : List (Call sig)) : Prop :=
  ∃ here config, answered (.writeFile here .parameters config) () ∈ past ∧
    answered (.uploadWorkDir here.pod) () ∈ past

/-- What has come before a call that steers a run. -/
def RunOrder (past : List (Call sig)) (c : Call sig) : Prop :=
  match c.op with
  | .markQueued | .markPending => ∀ a ∈ past, a.op ≠ .markQueued
  | .writeRow columns => ∃ mid past₀, past = mid ++ answered .markQueued true :: past₀ ∧
    LoadedTask past₀ columns.celeryTaskId ∧ FilesSaved mid ∧
      ∀ a ∈ past, ∀ task id, a.op ≠ .submitJob task id
  | .submitJob task id => task = .routing ∧ id = none ∧ answered .markQueued true ∈ past ∧
    (∃ columns, answered (.writeRow columns) () ∈ past) ∧
      ∀ a ∈ past, ∀ task id, a.op ≠ .submitJob task id
  | .updateColumns vs => ∀ id, .celeryTaskId id ∈ vs →
    (id = none ∧ answered .markPending true ∈ past ∧ ∀ a ∈ past, a.op ≠ .markQueued) ∨
      vs = [.celeryTaskId id] ∧ answered .markQueued true ∈ past ∧
        ∃ past₀, past = answered (.submitJob .routing none) (id, false) :: past₀
  | .updateInput vs => ∀ id, .celeryTaskId id ∉ vs
  | .markStartFailed => answered .markQueued true ∈ past
  | .appendLog none _ => answered .markStartFailed true ∈ past
  | .revokeJob id => ∃ r, past = [answered .loadRow r] ∧ r.columns.celeryTaskId = some id
  | .markCancelled => ∃ r,
    (∃ id, past = [answered (.revokeJob id) (), answered .loadRow r] ∧
      r.columns.celeryTaskId = some id) ∨
    past = [answered .loadRow r] ∧ r.columns.celeryTaskId = none
  | .receive routing => routing = true ∧ past = []
  | .claim => ∃ m, past = [answered (.receive true) (some m)]
  | _ => True

/-- How a submit that has won its guard ends: it has named its task; or it has raised after the
enqueue; or it has tried to end its run; or it was terminated. -/
inductive Started (past : List (Call sig)) : Bool → Prop
  | named (id) : answered (.submitJob .routing none) (id, false) ∈ past →
    answered (.updateColumns [.celeryTaskId id]) () ∈ past → Started past true
  | unnamed (id) : answered (.submitJob .routing none) (id, false) ∈ past → Started past false
  | failed (a returned) : ⟨.markStartFailed, a⟩ ∈ past → Started past returned
  | killed (o) : ⟨o, .error .killed⟩ ∈ past → Started past false

/-- What a request has called by the time it returns, or raises. -/
structure RunEnd (past : List (Call sig)) (returned : Bool) : Prop where
  started : answered .markQueued true ∈ past → Started past returned
  cancelled : ∀ id, answered (.revokeJob id) () ∈ past → ∃ a, ⟨.markCancelled, a⟩ ∈ past

variable {past : List (Call sig)} {α : Type}

theorem runOrder_of_not_steers {c : Call sig} (h : c.op.steersRun = false) : RunOrder past c := by
  obtain ⟨o, r⟩ := c
  cases o
  case updateColumns vs | updateInput vs =>
    intro id hid
    exact absurd (List.any_eq_true.2 ⟨_, hid, rfl⟩) (by rw [show vs.any _ = false from h]; simp)
  case appendLog author text =>
    cases author with
    | none => cases h
    | some run => trivial
  all_goals trivial

/-! ## Submit -/

/-- The end of a request that has called these, for whether it returned. -/
abbrev EndsRun (past : List (Call sig)) (r : Except Err α) : Prop := RunEnd past r.isOk

/-- In the middle of a submit: the guard is won, and nothing of what comes once has come. -/
structure Guarded (past : List (Call sig)) : Prop where
  won : answered .markQueued true ∈ past
  revokes : ∀ id, answered (.revokeJob id) () ∉ past

theorem Guarded.cons (h : Guarded past) {c : Call sig} (hc : ∀ id, c.op ≠ .revokeJob id) :
    Guarded (c :: past) where
  won := List.mem_cons_of_mem _ h.won
  revokes id hmem := by
    rcases List.mem_cons.1 hmem with rfl | hmem
    · exact hc id rfl
    · exact h.revokes id hmem

theorem Guarded.ends (h : Guarded past) {returned : Bool} (hs : Started past returned) :
    RunEnd past returned :=
  ⟨fun _ => hs, fun id hmem => absurd hmem (h.revokes id)⟩

/-- The calls a request makes once. -/
def Op.isOnce : Op → Bool
  | .markQueued | .revokeJob _ | .submitJob .. => true
  | _ => false

/-- No guard was asked for, no task revoked and no message sent. -/
structure Unsubmitted (past : List (Call sig)) : Prop where
  calls : ∀ a ∈ past, a.op.isOnce = false

namespace Unsubmitted

theorem nil : Unsubmitted [] := ⟨fun a ha => by cases ha⟩

theorem cons (h : Unsubmitted past) {c : Call sig} (hc : c.op.isOnce = false) :
    Unsubmitted (c :: past) :=
  ⟨List.forall_mem_cons.2 ⟨hc, h.calls⟩⟩

theorem ne (h : Unsubmitted past) {o : Op} (ho : o.isOnce = true) : ∀ a ∈ past, a.op ≠ o := by
  rintro a ha rfl
  rw [h.calls a ha] at ho
  cases ho

/-- Nothing has to come before such a request ends. -/
theorem ends (h : Unsubmitted past) {returned : Bool} : RunEnd past returned :=
  ⟨fun hmem => absurd rfl (h.ne rfl _ hmem), fun _ hmem => absurd rfl (h.ne rfl _ hmem)⟩

end Unsubmitted

theorem failToStart_trail (job : JobModel) (h : Guarded past) :
    (CosmonautJob.failToStart job).Trail RunOrder
      (fun past _ => Guarded past ∧ ∃ a, ⟨.markStartFailed, a⟩ ∈ past) past := by
  have hfail : ∀ r, Guarded (⟨.markStartFailed, r⟩ :: past) := fun r => h.cons fun _ => by simp
  refine trail_ask (fun r => ?_) (fun b => ?_) fun e => ⟨hfail _, _, List.mem_cons_self ..⟩
  · exact h.won
  · cases b with
    | false => exact ⟨hfail _, _, List.mem_cons_self ..⟩
    | true =>
      refine trail_ask (fun _ => List.mem_cons_self ..) (fun _ => ?_) fun e => ?_
      · exact ⟨(hfail _).cons fun _ => by simp, _, List.mem_cons_of_mem _ (List.mem_cons_self ..)⟩
      · exact ⟨(hfail _).cons fun _ => by simp, _, List.mem_cons_of_mem _ (List.mem_cons_self ..)⟩

/-- The steps behind the guard come in order and end in the enqueue, or one of them fails. -/
theorem startRun_trail (here : Site) (job : JobModel) (h : Guarded past)
    (htask : ∃ mid past₀, past = mid ++ answered .markQueued true :: past₀ ∧
      LoadedTask past₀ job.celeryTaskId)
    (hno : ∀ a ∈ past, ∀ task id, a.op ≠ .submitJob task id) :
    (CosmonautJob.startRun here job).Trail RunOrder
      (fun past r => Guarded past ∧ match r with
        | .ok (_, id, failed) =>
          ∃ past₀, past = answered (.submitJob .routing none) (id, failed) :: past₀
        | .error e => ∃ o f, ⟨o, .error f⟩ ∈ past ∧ e = .fault f) past := by
  have hraise : ∀ {past : List (Call sig)} {o : Op}, Guarded past → (∀ id, o ≠ .revokeJob id) →
      ∀ e : Fault, Guarded (⟨o, .error e⟩ :: past) ∧
        ∃ o' f, ⟨o', .error f⟩ ∈ (⟨o, .error e⟩ :: past) ∧ Err.fault e = .fault f :=
    fun hg ho e => ⟨hg.cons ho, _, e, List.mem_cons_self .., rfl⟩
  simp only [CosmonautJob.startRun, CosmonautJob.updateColumns, CosmonautJob.save,
    CosmonautJob.dumpRoutingParams, rewriteFile, bind_assoc]
  refine trail_ask (fun _ => runOrder_of_not_steers rfl) (fun _ => ?_) (hraise h nofun)
  have h₁ := h.cons (c := answered (.updateColumns [.notifiedEnd false]) ()) nofun
  refine trail_ask (fun _ => runOrder_of_not_steers rfl) (fun _ => ?_) (hraise h₁ nofun)
  have h₂ := h₁.cons (c := answered (.pullWorkDir here.pod) ()) nofun
  refine trail_ask (fun _ => runOrder_of_not_steers rfl) (fun _ => ?_) (hraise h₂ nofun)
  have h₃ := h₂.cons (c := answered (.openFile here .parameters) ()) nofun
  refine trail_ask (fun _ => runOrder_of_not_steers rfl) (fun _ => ?_) (hraise h₃ nofun)
  have h₄ := h₃.cons (c := answered (.writeFile here .parameters job.config) ()) nofun
  refine trail_ask (fun _ => runOrder_of_not_steers rfl) (fun _ => ?_) (hraise h₄ nofun)
  have h₅ := h₄.cons (c := answered (.uploadWorkDir here.pod) ()) nofun
  have hno₅ : ∀ a ∈ answered (.uploadWorkDir here.pod) () ::
      answered (.writeFile here .parameters job.config) () ::
      answered (.openFile here .parameters) () :: answered (.pullWorkDir here.pod) () ::
      answered (.updateColumns [.notifiedEnd false]) () :: past, ∀ task id,
        a.op ≠ .submitJob task id := by
    simpa only [List.forall_mem_cons] using ⟨nofun, nofun, nofun, nofun, nofun, hno⟩
  obtain ⟨mid, past₀, rfl, htask⟩ := htask
  refine trail_ask (fun _ => ⟨_ :: _ :: _ :: _ :: _ :: mid, past₀, rfl, htask,
    ⟨here, job.config, by simp, by simp⟩, hno₅⟩) (fun _ => ?_) (hraise h₅ nofun)
  set columns := JobModel.row { { job with notifiedEnd := false } with stage := max job.stage 4 }
  have h₆ := h₅.cons (c := answered (.writeRow columns) ()) nofun
  refine trail_ask (fun _ => ⟨rfl, rfl, h₆.won, ⟨columns, List.mem_cons_self ..⟩, ?_⟩)
    (fun ans => ?_) (hraise h₆ nofun)
  · exact List.forall_mem_cons.2 ⟨nofun, hno₅⟩
  · exact ⟨h₆.cons nofun, _, rfl⟩

/-- **A submit makes its calls in order.** -/
theorem submit_trail (here : Site) (job : JobModel) (h : Unsubmitted past)
    (htask : LoadedTask past job.celeryTaskId) :
    (CosmonautJob.submit here job).Trail RunOrder EndsRun past := by
  have hrefused : ∀ r : Except Fault Bool, r ≠ .ok true → ∀ returned,
      RunEnd (⟨.markQueued, r⟩ :: past) returned := by
    refine fun r hr returned => ⟨fun hmem => ?_, fun id hmem => ?_⟩
    · rcases List.mem_cons.1 hmem with heq | hmem
      · cases heq
        exact absurd rfl hr
      · exact absurd rfl (h.ne rfl _ hmem)
    · rcases List.mem_cons.1 hmem with heq | hmem
      · cases heq
      · exact absurd rfl (h.ne rfl _ hmem)
  refine trail_ask (fun _ => h.ne (o := .markQueued) rfl) (fun won => ?_) fun e =>
    hrefused (.error e) nofun _
  cases won with
  | false => exact hrefused (.ok false) (by simp) _
  | true =>
    have hwon : Guarded (answered .markQueued true :: past) := by
      refine ⟨List.mem_cons_self .., fun id hmem => ?_⟩
      rcases List.mem_cons.1 hmem with heq | hmem
      · cases heq
      · exact h.ne rfl _ hmem rfl
    have hsteps := startRun_trail here { job with status := .running, submitted := true } hwon
      ⟨[], past, rfl, htask⟩ (List.forall_mem_cons.2 ⟨nofun, fun a ha _ _ => h.ne rfl a ha⟩)
    refine (trail_bind _ _).2 ((trail_tryCatch _ _).2 (hsteps.mono (fun _ _ h => h) ?_))
    intro past r hend
    cases r with
    | error e =>
      obtain ⟨hg, o, f, hmem, rfl⟩ := hend
      dsimp only
      split
      · rename_i hkilled
        cases hkilled
        exact hg.ends (.killed o hmem)
      · refine (trail_bind _ _).2 ((failToStart_trail _ hg).mono (fun _ _ h => h) ?_)
        rintro past r ⟨hg, a, ha⟩
        cases r <;> exact hg.ends (.failed a _ ha)
    | ok started =>
      obtain ⟨job', id, failed⟩ := started
      obtain ⟨hg, past₀, rfl⟩ := hend
      cases failed with
      | true =>
        refine (trail_bind _ _).2 ((failToStart_trail _ hg).mono (fun _ _ h => h) ?_)
        rintro past r ⟨hg, a, ha⟩
        cases r <;> exact hg.ends (.failed a _ ha)
      | false =>
        have hmem : answered (.submitJob .routing none) (id, false) ∈
            answered (.submitJob .routing none) (id, false) :: past₀ := List.mem_cons_self ..
        refine trail_ask (fun _ => ?_) (fun _ => ?_) fun e => ?_
        · intro id' hid'
          cases List.mem_singleton.1 hid'
          exact .inr ⟨rfl, hg.won, past₀, rfl⟩
        · exact (hg.cons fun _ => by simp).ends
            (.named id (List.mem_cons_of_mem _ hmem) (List.mem_cons_self ..))
        · exact (hg.cons fun _ => by simp).ends (.unnamed id (List.mem_cons_of_mem _ hmem))

/-! ## Reset, cancel and the worker -/

/-- A reset makes its calls in order, and its job object forgets the task. -/
theorem reset_trail (here : Site) (job : JobModel) (h : Unsubmitted past) :
    (CosmonautJob.reset here job).Trail RunOrder
      (fun past r => Unsubmitted past ∧ ∀ job' done, r = .ok (job', done) →
        done = true → job'.celeryTaskId = none) past := by
  have hraise : ∀ {past : List (Call sig)}, Unsubmitted past → ∀ {e : Err},
      Unsubmitted past ∧ ∀ job' done,
        (.error e : Except Err (JobModel × Bool)) = .ok (job', done) → done = true →
          job'.celeryTaskId = none :=
    fun h _ => ⟨h, fun _ _ heq => by cases heq⟩
  refine trail_ask (fun _ => h.ne (o := .markQueued) rfl) (fun done => ?_) fun e =>
    hraise (h.cons rfl)
  have h₁ := h.cons (c := answered .markPending done) rfl
  cases done with
  | false => exact ⟨h₁, fun _ _ heq hdone => by cases heq; cases hdone⟩
  | true =>
    refine trail_ask (fun _ => runOrder_of_not_steers rfl) (fun _ => ?_) fun e =>
      hraise (h₁.cons rfl)
    have h₂ := h₁.cons (c := answered (.deleteFiles here.pod [.solution, .gpx, .qrCode]) ())
      rfl
    refine trail_ask (fun _ => runOrder_of_not_steers rfl) (fun _ => ?_) fun e =>
      hraise (h₂.cons rfl)
    have h₃ := h₂.cons (c := answered .clearLog ()) rfl
    refine trail_ask (fun _ => ?_) (fun _ => ?_) fun e => hraise (h₃.cons rfl)
    · intro id hid
      have hnone : id = none := by simpa [JobModel.columns, JobModel.column, JobModel.row] using hid
      exact .inl ⟨hnone, by simp, h₃.ne (o := .markQueued) rfl⟩
    · refine ⟨h₃.cons rfl, fun job' done heq _ => ?_⟩
      cases heq
      rfl

/-- A cancel of a job object loaded from a row revokes the row's task, if it names one, and then
ends the run. -/
theorem cancel_trail {job : JobModel} {r : Row} (h : job.celeryTaskId = r.columns.celeryTaskId) :
    (CosmonautJob.cancel job).Trail RunOrder (fun past _ => ∀ returned, RunEnd past returned)
      [answered .loadRow r] := by
  unfold CosmonautJob.cancel
  split
  · rename_i id hid
    rw [h] at hid
    refine trail_ask (fun _ => ⟨r, rfl, hid⟩) (fun _ => ?_) fun e => ?_
    · have hcalled : ∀ a returned, RunEnd (⟨.markCancelled, a⟩ ::
          [answered (.revokeJob id) (), answered .loadRow r]) returned := by
        refine fun a returned => ⟨fun hmem => ?_, fun _ _ => ⟨a, List.mem_cons_self ..⟩⟩
        simp at hmem
      intro a
      refine ⟨⟨r, .inl ⟨id, rfl, hid⟩⟩, ?_⟩
      cases a <;> exact hcalled _
    · refine fun returned => ⟨fun hmem => ?_, fun id hmem => ?_⟩ <;> simp at hmem
  · rename_i hid
    rw [h] at hid
    have hcalled : ∀ a returned, RunEnd [⟨.markCancelled, a⟩, answered .loadRow r] returned := by
      refine fun a returned => ⟨fun hmem => ?_, fun id hmem => ?_⟩ <;> simp at hmem
    intro a
    refine ⟨⟨r, .inr ⟨rfl, hid⟩⟩, ?_⟩
    cases a <;> exact hcalled _

theorem isOnce_of_not_steers {o : Op} (h : o.steersRun = false) : o.isOnce = false := by
  cases o <;> first | rfl | cases h

/-- A program that steers no run may come anywhere. -/
theorem asks_trail {p : App α} (hp : Asks (fun o => o.steersRun = false) p)
    (h : Unsubmitted past) : p.Trail RunOrder EndsRun past := by
  induction p generalizing past with
  | ret a => exact h.ends
  | throw e => exact h.ends
  | op o k ih =>
    intro r
    refine ⟨runOrder_of_not_steers (hp r).1, ih r (hp r).2 (h.cons ?_)⟩
    exact isOnce_of_not_steers (hp r).1

theorem not_steers_of_isLocal {here : Site} {o : Op} (h : o.isLocal here = true) :
    o.steersRun = false := by
  cases o <;> first | rfl | cases h

theorem not_steers_of_isAdoption {here : Site} {o : Op} (h : o.isAdoption here = true) :
    o.steersRun = false := by
  cases o
  case updateColumns vs =>
    rcases vs with _ | ⟨v, _ | ⟨v', vs⟩⟩
    · cases h
    · cases v <;> first | rfl | cases h
    · cases v <;> cases h
  all_goals first | rfl | cases h

theorem runMenu_not_steers (here : Site) (epoch : ℕ) :
    RunMenu { here with run := some epoch } fun o => o.steersRun = false where
  stays _ h := not_steers_of_isLocal h
  adopts _ h := not_steers_of_isAdoption h
  load := rfl
  mail _ := rfl
  url := rfl
  log _ := rfl
  pipeline := rfl

variable [External]

/-- **The requests around a run make their calls in order.** -/
theorem Request.runOrder {here : Site} {q : Request} (hq : q.handlesRun = true) :
    (q.program here).Trail RunOrder EndsRun [] := by
  have hload : ∀ {f : JobModel → App Unit},
      (∀ r : Row, (f (.ofRow r)).Trail RunOrder EndsRun [answered .loadRow r]) →
        (CosmonautJob.load >>= f).Trail RunOrder EndsRun [] := by
    intro f h
    rw [CosmonautJob.load, bind_assoc]
    exact trail_ask (fun _ => runOrder_of_not_steers rfl) h fun e =>
      (Unsubmitted.nil.cons rfl).ends
  have hloaded : ∀ r, Unsubmitted [answered .loadRow r] := fun r =>
    Unsubmitted.nil.cons rfl
  have htask : ∀ r, LoadedTask [answered .loadRow r] (JobModel.ofRow r).celeryTaskId := fun r =>
    .inr ⟨r, List.mem_cons_self .., rfl⟩
  cases q
  case startComputation =>
    apply hload
    intro r
    split
    · refine (trail_bind _ _).2 ((submit_trail here _ (hloaded r) (htask r)).mono
        (fun _ _ h => h) fun past res h => ?_)
      cases res <;> exact h
    · exact (hloaded r).ends
  case restartComputation =>
    apply hload
    intro r
    dsimp only
    split
    · exact (hloaded r).ends
    refine (trail_bind _ _).2 ((reset_trail here _ (hloaded r)).mono (fun _ _ h => h) ?_)
    rintro past res ⟨hpast, hjob⟩
    rcases res with e | ⟨job, done⟩
    · exact hpast.ends
    cases done with
    | false => exact hpast.ends
    | true =>
      refine (trail_bind _ _).2 ((submit_trail here job hpast (.inl (hjob job true rfl rfl))).mono
        (fun _ _ h => h) fun past res h => ?_)
      cases res <;> exact h
  case cancelComputation =>
    apply hload
    intro r
    split
    · exact (hloaded r).ends
    · refine (trail_bind _ _).2 ((cancel_trail rfl).mono (fun _ _ h => h) fun past res h => ?_)
      rcases res with e | done
      · exact h _
      · cases done <;> exact h _
  case resetJob =>
    apply hload
    intro r
    refine (trail_bind _ _).2 ((reset_trail here _ (hloaded r)).mono (fun _ _ h => h) ?_)
    rintro past res ⟨hpast, -⟩
    rcases res with e | ⟨job, done⟩
    · exact hpast.ends
    · cases done <;> exact hpast.ends
  case routingWorker =>
    refine trail_ask (fun _ => ⟨rfl, rfl⟩) (fun received => ?_) fun e =>
      (Unsubmitted.nil.cons rfl).ends
    have h₁ := Unsubmitted.nil.cons (c := answered (.receive true) received) rfl
    rcases received with _ | m
    · exact h₁.ends
    simp only [processRoutingJob, runJob, bind_assoc]
    refine trail_ask (fun _ => ⟨m, rfl⟩) (fun claimed => ?_) fun e => (h₁.cons rfl).ends
    have h₂ := h₁.cons (c := answered .claim claimed) rfl
    rcases claimed with _ | ⟨runId, epoch⟩
    · exact h₂.ends
    refine asks_trail ?_ h₂
    have hm := runMenu_not_steers here epoch
    have hask : ∀ {o : Op}, o.steersRun = false → Asks (fun o => o.steersRun = false) (ask o) :=
      fun h => always_call fun _ => h
    refine .bind (.bind (.tryCatch ?_ fun e => ?_) fun status => .bind (hask rfl) fun _ =>
      trivial) fun ended => ?_
    · exact .bind (hask rfl) fun _ => .bind hm.computeRoute fun _ =>
        .bind (hask rfl) fun _ => trivial
    · exact always_ite (fun _ => trivial) fun _ => .bind (hask rfl) fun _ => trivial
    · rcases ended with _ | status
      · trivial
      refine .bind (.tryCatch (.bind (.bind (hask rfl) fun _ => trivial) fun _ => trivial)
        fun e => always_ite (fun _ => trivial) fun _ => trivial) fun job => ?_
      rcases job with _ | job
      · trivial
      · exact notifyUser_asks (P := fun o => o.steersRun = false) (fun _ => rfl) rfl rfl job status
  all_goals cases hq

section

variable {w : World} {requests : List (Site × Request)} {es l r : List (Event machine)}
  {e : Event machine} {p' : Pool machine Err Unit}

/-- What has come before a step, in the thread that makes it. -/
theorem event_runOrder (hrequests : ∀ q ∈ requests, q.2.handlesRun = true)
    (hrun : Run (serving w requests) (l ++ e :: r) p') : RunOrder (callsOf e.thread l) e.call := by
  obtain ⟨prog, hprog⟩ := hrun.thread_mem (e := e) (by simp)
  obtain ⟨here, q, hq, rfl⟩ := serving_threads hprog
  exact hrun.trail hprog (Request.runOrder (hrequests _ (List.mem_of_getElem? hq)))

omit [External] in
/-- A call that comes after all others of its thread so far. -/
theorem mem_after {l r : List (Event machine)} {a b : Event machine} (hb : b ∈ l ++ a :: r)
    (hthread : b.thread = a.thread) (hpast : ∀ c ∈ callsOf a.thread l, c.op ≠ b.call.op)
    (hne : a.call.op ≠ b.call.op) : b ∈ r := by
  rcases List.mem_append.1 hb with hl | hr
  · exact absurd rfl (hpast b.call (mem_callsOf.2 ⟨b, hl, hthread, rfl⟩))
  · rcases List.mem_cons.1 hr with rfl | hr
    · exact absurd rfl hne
    · exact hr

/-- What a submit only does behind its guard, comes after the guard. -/
theorem mem_behind_guard (hrequests : ∀ q ∈ requests, q.2.handlesRun = true)
    {g b : Event machine} (hrun : Run (serving w requests) (l ++ g :: r) p')
    (hg : g.call = answered .markQueued true) (hb : b ∈ l ++ g :: r) (hthread : b.thread = g.thread)
    (hguarded : ∀ past, RunOrder past b.call → answered .markQueued true ∈ past) : b ∈ r := by
  rcases List.mem_append.1 hb with hl | hr
  · obtain ⟨l₁, l₂, rfl⟩ := List.append_of_mem hl
    have horder : RunOrder (callsOf g.thread (l₁ ++ b :: l₂)) g.call :=
      event_runOrder hrequests hrun
    rw [hg] at horder
    rw [show l₁ ++ b :: l₂ ++ g :: r = l₁ ++ b :: (l₂ ++ g :: r) by simp] at hrun
    have hmem := hguarded _ (event_runOrder hrequests hrun)
    rw [hthread] at hmem
    have hold : answered .markQueued true ∈ callsOf g.thread (l₁ ++ b :: l₂) := by
      rw [callsOf_append]
      exact List.mem_append_right _ hmem
    exact absurd rfl (horder _ hold)
  · rcases List.mem_cons.1 hr with rfl | hr
    · have hnil : RunOrder [] b.call := by
        rw [hg]
        exact fun _ h => by cases h
      exact absurd (hguarded [] hnil) List.not_mem_nil
    · exact hr

/-- What a thread has called that has ended. -/
theorem runEnd_of_ended (hrequests : ∀ q ∈ requests, q.2.handlesRun = true)
    (hrun : Run (serving w requests) es p') {e : Event machine} (he : e ∈ es) {rest : App Unit}
    (hrest : p'.threads[e.thread]? = some rest) (hend : rest.Ended) :
    ∃ res, rest = .ofExcept res ∧ RunEnd (callsOf e.thread es) res.isOk := by
  obtain ⟨prog, hprog⟩ := hrun.thread_mem he
  obtain ⟨here, q, hq, rfl⟩ := serving_threads hprog
  exact hrun.ended hprog (Request.runOrder (hrequests _ (List.mem_of_getElem? hq))) hrest hend

/-! ## The run a guard has queued -/

/-- Whether the call is a guard that was won. -/
def wonGuard : Call sig → Bool
  | ⟨.markQueued, .ok true⟩ => true
  | _ => false

omit [External] in
theorem wonGuard_iff {c : Call sig} : wonGuard c = true ↔ c = answered .markQueued true := by
  constructor
  · intro h
    unfold wonGuard at h
    split at h
    · rfl
    · cases h
  · rintro rfl
    rfl

/-- The run queued by the guard `g` is the one in the row after `es`, if any: `g` is the last guard,
and the events `m` came behind it. -/
structure CurrentRun (es l : List (Event machine)) (g : Event machine) (m : List (Event machine)) :
    Prop where
  split : es = l ++ g :: m
  won : g.call = answered .markQueued true
  last : ∀ a ∈ m, a.call ≠ answered .markQueued true

namespace CurrentRun

omit [External]

variable {g : Event machine} {m : List (Event machine)}

theorem exists_of_guard (h : ∃ g ∈ es, g.call = answered .markQueued true) :
    ∃ l g m, CurrentRun es l g m := by
  obtain ⟨a, ha, hc⟩ := h
  rcases last_such (fun e : Event machine => e.call = answered .markQueued true) es with
    hno | ⟨l, g, m, hes, hg, hlast⟩
  · exact absurd hc (hno a ha)
  · exact ⟨l, g, m, hes, hg, hlast⟩

theorem mem (h : CurrentRun es l g m) : g ∈ es := by
  rw [h.split]
  simp

/-- It is the last guard that was won. -/
theorem last_guard (h : CurrentRun es l g m) :
    (es.filter fun e => wonGuard e.call).getLast? = some g := by
  have hm : m.filter (fun e => wonGuard e.call) = [] := by
    apply List.filter_eq_nil_iff.2
    intro a ha hwon
    exact h.last a ha (wonGuard_iff.1 hwon)
  have hwon : wonGuard g.call = true := wonGuard_iff.2 h.won
  simp [h.split, hwon, hm]

/-- There is one such guard. -/
theorem unique {l₁ l₂ m₁ m₂ : List (Event machine)} {g₁ g₂ : Event machine}
    (h₁ : CurrentRun es l₁ g₁ m₁) (h₂ : CurrentRun es l₂ g₂ m₂) :
    l₁ = l₂ ∧ g₁ = g₂ ∧ m₁ = m₂ := by
  rcases places (h₁.split.symm.trans h₂.split) with ⟨u, -, hm⟩ | hsame | ⟨u, -, hm⟩
  · exact absurd h₂.won (h₁.last g₂ (by rw [hm]; simp))
  · exact hsame
  · exact absurd h₁.won (h₂.last g₁ (by rw [hm]; simp))

/-- What the submit of the run only does behind its guard, it has done in the run. -/
theorem behind [External] (h : CurrentRun es l g m)
    (hrequests : ∀ q ∈ requests, q.2.handlesRun = true) (hrun : Run (serving w requests) es p')
    {c : Call sig} (hc : c ∈ callsOf g.thread es)
    (hguarded : ∀ past, RunOrder past c → answered .markQueued true ∈ past) :
    ∃ b ∈ m, b.thread = g.thread ∧ b.call = c := by
  obtain ⟨b, hb, hthread, rfl⟩ := mem_callsOf.1 hc
  rw [h.split] at hrun hb
  exact ⟨b, mem_behind_guard hrequests hrun h.won hb hthread hguarded, hthread, rfl⟩

end CurrentRun

/-! ## The ids in the row and among the revoked -/

/-- The ids in the row and among the revoked ones were drawn. -/
structure IdsDrawn (w : World) : Prop where
  revoked : ∀ id ∈ w.revoked, id < w.nextId
  named : ∀ row id, w.row = some row → row.columns.celeryTaskId = some id → id < w.nextId

omit [External] in
/-- A submit's message goes by an id that is new. -/
theorem submitJob_answered {e : Event machine} (he : e.Allowed) {task : TaskName}
    {id : Option TaskId} (hc : e.call = answered (.submitJob task none) (id, false)) :
    id = some e.before.nextId ∧ e.after.nextId = e.before.nextId + 1 ∧
      ⟨e.before.nextId, task, 0⟩ ∈ e.after.messages ∧ e.after.revoked = e.before.revoked := by
  obtain ⟨c, hafter⟩ := after_of_answered he hc
  simp only [perform] at hafter
  split at hafter
  · simp at hafter
  · simp only [Option.getD_none, Prod.mk.injEq, Except.ok.injEq, and_true] at hafter
    obtain ⟨rfl, hafter⟩ := hafter
    rw [← hafter]
    exact ⟨rfl, rfl, List.mem_append_right _ (List.mem_singleton_self _), rfl⟩

theorem nextId_le_after (hrun : Run (serving w requests) es p') {a : Event machine} (ha : a ∈ es) :
    a.after.nextId ≤ p'.world.nextId := by
  obtain ⟨l, r, rfl⟩ := List.append_of_mem ha
  exact hrun.chain.beyond.mono (f := World.nextId) fun b _ => nextId_le_of_allowed

/-- **The ids in the row and among the revoked ones are old**, throughout a run. -/
theorem run_idsDrawn (hrequests : ∀ q ∈ requests, q.2.handlesRun = true) (hw : IdsDrawn w)
    (hrun : Run (serving w requests) es p') :
    IdsDrawn p'.world ∧ ∀ e ∈ es, IdsDrawn e.before := by
  induction hrun with
  | nil => exact ⟨hw, fun e he => by cases he⟩
  | @snoc es e q q' t c hrun hst ih =>
    obtain ⟨hq, hes⟩ := ih
    have horder : RunOrder (callsOf e.thread es) e.call :=
      event_runOrder hrequests (l := es) (r := []) (Run.snoc t c hrun hst)
    have hloaded : ∀ {row : Row} {id : TaskId}, answered .loadRow row ∈ callsOf e.thread es →
        row.columns.celeryTaskId = some id → id < q.world.nextId := by
      intro row id hmem hid
      obtain ⟨a, ha, -, hc⟩ := mem_callsOf.1 hmem
      have hlt := (hes a ha).named row id ((row_of_loaded (hrun.allowed ha) hc).1) hid
      exact hlt.trans_le ((nextId_le_of_allowed (hrun.allowed ha)).trans (nextId_le_after hrun ha))
    have hsent : ∀ {id : TaskId},
        answered (.submitJob .routing none) (some id, false) ∈ callsOf e.thread es →
        id < q.world.nextId := by
      intro id hmem
      obtain ⟨a, ha, -, hc⟩ := mem_callsOf.1 hmem
      obtain ⟨hid, hnext, -⟩ := submitJob_answered (hrun.allowed ha) hc
      have hafter := nextId_le_after hrun ha
      rw [hnext] at hafter
      obtain rfl := Option.some.inj hid
      exact hafter
    obtain ⟨o, k, -, rfl, rfl⟩ := Pool.step_cases hst
    have hmono : q.world.nextId ≤ (exec o c q.world).2.nextId := exec_nextId
    refine ⟨⟨fun id hid => ?_, fun row id hrow hid => ?_⟩, fun a ha => ?_⟩
    · rcases exec_revoked hid with hid | rfl
      · exact (hq.revoked id hid).trans_le hmono
      · obtain ⟨row, hpast, hrow⟩ := horder
        exact (hloaded (by rw [hpast]; exact List.mem_singleton_self _) hrow).trans_le hmono
    · have hwritten : ∀ {vs : List ColumnValue} {r₀ : Row}, q.world.row = some r₀ →
          row.columns = r₀.columns.putAll vs → (∀ id, .celeryTaskId (some id) ∈ vs →
            id < q.world.nextId) → id < q.world.nextId := by
        intro vs r₀ hr₀ hcols hvs
        rw [hcols] at hid
        rcases celeryTaskId_putAll r₀.columns vs with h | h
        · exact hq.named r₀ id hr₀ (h ▸ hid)
        · exact hvs id (hid ▸ h)
      rcases hr₀ : q.world.row with _ | r₀
      · obtain ⟨columns, rfl, rfl⟩ := exec_row_new hr₀ hrow
        obtain ⟨mid, past₀, hpast, hnone | ⟨row, hrow, htask⟩, -⟩ := horder
        · rw [hnone] at hid
          cases hid
        · exact (hloaded (by rw [hpast]; simp [hrow]) (htask ▸ hid)).trans_le hmono
      refine lt_of_lt_of_le ?_ hmono
      have hstep := exec_columns_cases hr₀ hrow
      generalize hcols : row.columns = columns at hstep
      cases hstep with
      | same => exact hq.named r₀ id hr₀ (hcols ▸ hid)
      | writeRow columns =>
        obtain ⟨mid, past₀, hpast, hnone | ⟨row', hrow', htask⟩, -⟩ := horder
        · rw [hcols, hnone] at hid
          cases hid
        · exact hloaded (by rw [hpast]; simp [hrow']) (htask ▸ hcols ▸ hid)
      | updateColumns vs =>
        apply hwritten hr₀ hcols
        intro id hmem
        rcases horder _ hmem with ⟨hnone, -⟩ | ⟨-, -, past₀, hpast⟩
        · cases hnone
        · exact hsent (by rw [hpast]; exact List.mem_cons_self ..)
      | updateInput vs => exact hwritten hr₀ hcols fun id hmem => absurd hmem (horder _)
      | setStreetProcessing | updateMembershipUpload | raiseStage | markEndNotified =>
        exact hwritten hr₀ hcols fun id hmem => by simp at hmem
    · rcases List.mem_append.1 ha with ha | ha
      · exact hes a ha
      · rw [List.mem_singleton.1 ha]
        exact hq

end

end Cosmonaut