import Cosmonaut.Model.RunCalls

/-!
# A deleted job stays deleted

`CosmonautJob.delete` refuses a RUNNING job and removes any other with its files, while requests
that have loaded the row may still be under way. What they do then:

* `Request.rowSeen`: a request sees the row before it does anything to the job.
* `Request.savesGuarded`: it saves the row behind its own guard only.
* `deleted_stays_deleted`: what is done to a deleted job is done by requests that saw its row, and
  the row comes back only by a submit whose run was ended before the deletion.
-/

namespace Cosmonaut

open Interleaving Program

/-! ## Seeing the row -/

/-- The call has answered with the row, or with a run claimed in it. -/
def SawRow (c : Call sig) : Prop :=
  (∃ r, c = answered .loadRow r) ∨ ∃ run, c = answered .claim (some run)

/-- What a request may do before it has seen the row: look for it, or delete it, or end it in the
sweep. -/
def Op.needsNoRow : Op → Bool
  | .loadRow | .claim | .receive _ | .deleteJob _ | .sweep => true
  | _ => false

/-- What there is of the job: its row, its files in the object storage and its log. -/
def World.job (w : World) : Option Row × Files × List LogLine := (w.row, w.stored, w.log)

/-- Without a row these do nothing. -/
theorem exec_job_of_needsNoRow {o : Op} {c : Choice} {w : World} (ho : o.needsNoRow = true)
    (hw : w.row = none) : (exec o c w).2.job = w.job := by
  rcases hf : o.fault c with _ | f
  · rw [exec_of_no_fault hf]
    cases o
    case receive =>
      simp only [perform]
      split <;> (try split) <;> (try split) <;> rfl
    case loadRow | claim | deleteJob | sweep => simp only [perform, hw]
    all_goals cases ho
  · rw [exec_of_fault hf]
    cases o <;> first | rfl | cases ho

/-- The request sees the row before it does anything else. -/
def RowSeen (past : List (Call sig)) (c : Call sig) : Prop :=
  c.op.needsNoRow = true ∨ ∃ a ∈ past, SawRow a

variable {α : Type} {past : List (Call sig)}

/-- A program may do anything once the row was seen. -/
theorem rowSeen_after (p : App α) (h : ∃ a ∈ past, SawRow a) :
    p.Trail RowSeen (fun _ _ => True) past := by
  refine ((always_of_forall (A := fun _ => True) (fun _ => trivial) p).trail_keeps
    (I := fun past => ∃ a ∈ past, SawRow a) (fun _ _ hseen _ => .inr hseen) ?_ h).mono
      (fun _ _ h => h) fun _ _ _ => trivial
  rintro past c - ⟨a, ha, hsaw⟩
  exact ⟨a, List.mem_cons_of_mem _ ha, hsaw⟩

variable [External] {here : Site}

theorem load_rowSeen (f : JobModel → App α) :
    (CosmonautJob.load >>= f).Trail RowSeen (fun _ _ => True) past := by
  rw [CosmonautJob.load, bind_assoc]
  exact trail_ask (fun _ => .inl rfl)
    (fun r => rowSeen_after _ ⟨_, List.mem_cons_self .., .inl ⟨r, rfl⟩⟩)
    fun _ => trivial

theorem uploadWorker_rowSeen : (uploadWorker here).Trail RowSeen (fun _ _ => True) past := by
  refine trail_ask (fun _ => .inl rfl) (fun m => ?_) fun _ => trivial
  rcases m with _ | ⟨id, _ | epsgInput, retries⟩
  · trivial
  · trivial
  · exact load_rowSeen _

theorem routingWorker_rowSeen : (routingWorker here).Trail RowSeen (fun _ _ => True) past := by
  refine trail_ask (fun _ => .inl rfl) (fun m => ?_) fun _ => trivial
  rcases m with _ | m
  · trivial
  simp only [processRoutingJob, runJob, bind_assoc]
  refine trail_ask (fun _ => .inl rfl) (fun claimed => ?_) fun _ => trivial
  rcases claimed with _ | run
  · trivial
  · exact rowSeen_after _ ⟨_, List.mem_cons_self .., .inr ⟨run, rfl⟩⟩

/-- **A request sees the row before it does anything to the job.** -/
theorem Request.rowSeen (q : Request) : (q.program here).Trail RowSeen (fun _ _ => True) [] := by
  cases q
  case uploadWorker => exact uploadWorker_rowSeen
  case routingWorker => exact routingWorker_rowSeen
  case deleteJob => exact trail_ask (fun _ => .inl rfl) (fun _ => trivial) fun _ => trivial
  case sweep => exact fun r => ⟨.inl rfl, by cases r <;> trivial⟩
  case updateViewportStreets =>
    -- a job that is gone is no error here
    have hload : (some <$> CosmonautJob.load : App (Option JobModel)).Trail RowSeen
        (fun past r => ∀ job, r = .ok (some job) → ∃ a ∈ past, SawRow a) [] := by
      rw [CosmonautJob.load, map_eq_pure_bind, bind_assoc]
      exact trail_ask (fun _ => .inl rfl)
        (fun r _ _ => ⟨_, List.mem_cons_self .., .inl ⟨r, rfl⟩⟩) fun _ _ h => by cases h
    refine (trail_bind _ _).2 ((trail_tryCatch _ _).2 (hload.mono (fun _ _ h => h) ?_))
    rintro past (e | _ | job) hseen
    · dsimp only
      split <;> trivial
    · trivial
    · exact rowSeen_after _ (hseen job rfl)
  all_goals exact load_rowSeen _

/-! ## Saving the row -/

/-- The row is saved behind a guard that was won. -/
def SaveGuarded (past : List (Call sig)) (c : Call sig) : Prop :=
  ∀ columns, c.op = .writeRow columns → answered .markQueued true ∈ past

/-- **A request saves the row behind its own guard only.** -/
theorem Request.savesGuarded (q : Request) :
    (q.program here).Trail SaveGuarded (fun _ _ => True) [] := by
  by_cases hq : q.handlesRun = true
  · refine (q.runOrder hq).mono (fun past c horder columns hop => ?_) fun _ _ _ => trivial
    obtain ⟨o, r⟩ := c
    obtain rfl : o = .writeRow columns := hop
    obtain ⟨mid, past₀, rfl, -⟩ := horder
    simp
  · have hsaves : q.saves = false := by
      cases q <;> first | rfl | exact absurd rfl hq
    exact ((Request.savesNone hsaves).trail _).mono
      (fun _ _ hc columns hop => absurd hop (hc columns))
      fun _ _ _ => trivial

/-! ## Runs of requests -/

/-- The step ends the run in the row. -/
def Event.endsRun (e : Event machine) : Prop := e.before.running ∧ ¬e.after.running

/-- A submit puts the row of a deleted job back: it has won its guard at `i`, its run was ended at
`n`, the job was deleted at `j`, and then the submit saves the row. -/
structure PutBack (es : List (Event machine)) (j : ℕ) (e : Event machine) : Prop where
  guard : ∃ i n g m, i < n ∧ n < j ∧ es[i]? = some g ∧ es[n]? = some m ∧
    g.thread = e.thread ∧ g.call = answered .markQueued true ∧ Event.endsRun m
  save : ∃ columns, e.call = answered (.writeRow columns) () ∧
    e.after.row = some ⟨.pending, false, false, none, columns⟩

section

variable {w : World} {requests : List (Site × Request)} {es : List (Event machine)}
  {p' : Pool machine Err Unit} {j k pod : ℕ} {d e : Event machine}

omit [External] in
/-- A deletion that went through leaves no row, and met no run. -/
theorem deleted_cases (he : d.Allowed) (hc : d.call = answered (.deleteJob pod) true) :
    d.after.row = none ∧ ¬d.before.running := by
  obtain ⟨c, hafter⟩ := after_of_answered he hc
  simp only [perform] at hafter
  split at hafter
  · rename_i r hr
    split at hafter
    · simp at hafter
    · rename_i hnot
      rw [← (Prod.mk.inj hafter).2]
      exact ⟨rfl, not_running_of_status hr hnot⟩
  · rename_i hr
    rw [← (Prod.mk.inj hafter).2]
    refine ⟨hr, ?_⟩
    rintro ⟨r, hr', -⟩
    rw [hr] at hr'
    cases hr'

omit [External] in
/-- There is a row where one is seen, and where a guard is won. -/
theorem row_of_saw (he : e.Allowed) (h : SawRow e.call ∨ e.call = answered .markQueued true) :
    e.before.row ≠ none := by
  intro hnone
  rcases h with (⟨r, hc⟩ | ⟨run, hc⟩) | hc <;> obtain ⟨c, hafter⟩ := after_of_answered he hc <;>
    simp [perform, hnone] at hafter

/-- **A deleted job stays deleted.** As long as the row is gone, only requests that saw it before
the deletion do anything to the job, and the row comes back only by a submit whose run was ended
before the deletion, as a PENDING row. -/
theorem deleted_stays_deleted (hrun : Run (serving w requests) es p') (hd : es[j]? = some d)
    (hdeleted : d.call = answered (.deleteJob pod) true) (hjk : j < k) (he : es[k]? = some e)
    (hgone : ∀ m c, j < m → m < k → es[m]? = some c → c.after.row = none) :
    (e.after.job = e.before.job ∨
      ∃ i a, i < j ∧ es[i]? = some a ∧ a.thread = e.thread ∧ SawRow a.call) ∧
    (e.after.row ≠ none → PutBack es j e) := by
  have hallowed : ∀ {i : ℕ} {a : Event machine}, es[i]? = some a → a.Allowed := fun ha =>
    hrun.allowed (List.mem_of_getElem? ha)
  obtain ⟨hafter, hnotRunning⟩ := deleted_cases (hallowed hd) hdeleted
  -- from the deletion on there is no row before an event
  have hbefore : ∀ m c, j < m → m ≤ k → es[m]? = some c → c.before.row = none := by
    intro m c hjm hmk hc
    exact hrun.chain.keeps_between (I := fun v : World => v.row = none) hd hc hjm hafter
      fun n b hjn hnm hb _ _ => hgone n b hjn (by omega) hb
  -- so that whatever needs a row came before
  have hbehind : ∀ {i : ℕ} {a : Event machine}, i < k → es[i]? = some a →
      SawRow a.call ∨ a.call = answered .markQueued true → i < j := by
    intro i a hik ha hsaw
    rcases lt_trichotomy i j with hij | rfl | hji
    · exact hij
    · obtain rfl := Option.some.inj (ha.symm.trans hd)
      rw [hdeleted] at hsaw
      simp [SawRow] at hsaw
    · exact absurd (hbefore i a hji hik.le ha) (row_of_saw (hallowed ha) hsaw)
  obtain ⟨prog, hprog⟩ := hrun.thread_mem (List.mem_of_getElem? he)
  obtain ⟨here, q, -, rfl⟩ := serving_threads hprog
  constructor
  · rcases hrun.trail_getElem he hprog q.rowSeen with hnone | ⟨c, hc, hsaw⟩
    · obtain ⟨c, hexec⟩ := after_of_allowed (hallowed he)
      rw [← hexec]
      exact .inl (exec_job_of_needsNoRow hnone (hbefore k e hjk le_rfl he))
    · obtain ⟨i, a, hik, ha, hthread, rfl⟩ := mem_callsOf_take.1 hc
      exact .inr ⟨i, a, hbehind hik ha (.inl hsaw), ha, hthread, hsaw⟩
  · intro hback
    obtain ⟨r, hr⟩ := Option.ne_none_iff_exists'.1 hback
    obtain ⟨columns, hc, rfl⟩ := row_new_of_allowed (hallowed he) (hbefore k e hjk le_rfl he) hr
    have hguard := hrun.trail_getElem he hprog q.savesGuarded columns (by rw [hc])
    obtain ⟨i, g, hik, hg, hthread, hwon⟩ := mem_callsOf_take.1 hguard
    have hij := hbehind hik hg (.inr hwon)
    -- the run of the guard was ended before the deletion
    have hend : ∃ n m, i < n ∧ n < j ∧ es[n]? = some m ∧ Event.endsRun m := by
      by_contra hnone
      push Not at hnone
      refine hnotRunning (hrun.chain.keeps_between hg hd hij
        (queued_of_won (hallowed hg) hwon).running fun n m hin hnj hm _ hrunning => ?_)
      by_contra hended
      exact hnone n m hin hnj hm ⟨hrunning, hended⟩
    obtain ⟨n, m, hin, hnj, hm, hended⟩ := hend
    exact ⟨⟨i, n, g, m, hin, hnj, hg, hm, hthread, hwon, hended⟩, columns, hc, hr⟩

end

/-! ## A job deleted under its submit -/

omit [External]

/-- The call has deleted the job. -/
def deletesJob (c : Call sig) : Option ℕ :=
  match c with
  | ⟨.deleteJob pod, .ok true⟩ => some pod
  | _ => none

theorem deletesJob_eq_some {c : Call sig} {pod : ℕ} (h : deletesJob c = some pod) :
    c = answered (.deleteJob pod) true := by
  unfold deletesJob at h
  split at h
  · obtain rfl := Option.some.inj h
    rfl
  · cases h

/-- A tab starts a job, another one cancels the run and deletes the job. -/
def submitAndDeletePool : Pool machine Err Unit :=
  let _ := External.plain
  serving (.fresh (.ofModel .blank))
    [(⟨0, 0, none⟩, .startComputation), (⟨1, 0, none⟩, .cancelComputation),
      (⟨1, 0, none⟩, .deleteJob)]

/-- The submit is behind its guard when the run is cancelled and the job deleted, and then goes
on. -/
def deletedInSubmit : List (Event machine) :=
  (submitAndDeletePool.play (usually [0, 0, 0, 1, 1, 2, 0, 0, 0, 0, 0])).1

theorem putBack_deletedInSubmit : ∃ e ∈ deletedInSubmit[10]?, PutBack deletedInSubmit 5 e := by
  let _ := External.plain
  obtain ⟨d, hd, hdeleted⟩ : ∃ d ∈ deletedInSubmit[5]?, deletesJob d.call = some 1 := by
    decide +kernel
  obtain ⟨e, he, hback⟩ : ∃ e ∈ deletedInSubmit[10]?, e.after.row ≠ none := by decide +kernel
  have hgone : ∀ m < 10, 5 < m → ∀ c ∈ deletedInSubmit[m]?, c.after.row = none := by decide +kernel
  exact ⟨e, he, (deleted_stays_deleted (Run.of_play _ submitAndDeletePool) hd
    (deletesJob_eq_some hdeleted) (by decide) he
    fun m c hjm hmk hc => hgone m hmk hjm c hc).2 hback⟩

end Cosmonaut
