import Cosmonaut.Interleaving.Execution
import Cosmonaut.Model.UploadTasks

/-!
# What an upload task reports

How an execution of `process_upload_task` ends once something has raised in it, whatever happens
between its calls.

* `ReportsFailures`: a retry was scheduled, or the maintainer was mailed once, the original
  exception was raised and the row says FAILED.
* `CanReport`: the calls that must not raise for this.
* `upload_failures_reported_iff`: the former holds exactly when the latter does, and the retries of
  a task are bounded.
* `first_load_unreported`: a task whose first load raises.
-/

namespace Cosmonaut

open Interleaving Program

/-! ## What is reported -/

/-- The mail that an operation sends. -/
def Op.mail? : Op → Option Mail
  | .sendMail mail => some mail
  | _ => none

/-- The mails that an execution sends. -/
def mailsOf (es : List (Event machine)) : List Mail := es.filterMap fun e => e.call.op.mail?

/-- The row names the task. -/
def World.NamesTask (w : World) (id : TaskId) : Prop :=
  ∃ row, w.row = some row ∧ row.columns.membershipUpload.streetProcessing = some (.task id)

/-- The row says that the construction of the road network has failed. -/
def World.SaysFailed (w : World) : Prop :=
  ∃ row, w.row = some row ∧ row.columns.membershipUpload.streetProcessing = some .failed

/-- The operation reads the row or writes the task's state. -/
def Op.persists (id : TaskId) (o : Op) : Prop :=
  o = .loadRow ∨ ∃ u, o = .updateMembershipUploadOfTask id u

/-- The row says FAILED if it named the task when it was written, or it could not be read or
written. -/
def Persisted (id : TaskId) (es : List (Event machine)) : Prop :=
  (∃ e ∈ es, e.call.op.persists id ∧ ∃ f, e.call.ans = .error f) ∨
    ∃ e ∈ es, (∃ u, e.call.op = .updateMembershipUploadOfTask id u) ∧
      (e.before.NamesTask id → e.after.SaysFailed)

/-- A retry of the message was scheduled. -/
def RetryScheduled (m : Message) (es : List (Event machine)) : Prop :=
  m.retries < uploadMaxRetries ∧ ∃ e ∈ es, e.call = answered (.retry m) ()

section

variable [External]

/-- The steps that the handlers watch over have raised the error, and the events of `failure` are
what came after. -/
def FailsWith (here : Site) (m : Message) (epsgInput : ℤ) (es failure : List (Event machine))
    (err : Err) : Prop :=
  ∃ load row body, es = load :: (body ++ failure) ∧ load.call = answered .loadRow row ∧
    (downloadRoads here m epsgInput).Executes body (.error err)

/-- **What is raised is reported.** -/
def ReportsFailures (here : Site) (m : Message) (epsgInput : ℤ) (es : List (Event machine))
    (r : Except Err Unit) : Prop :=
  ∀ err, r = .error err → (err = .retry ∧ RetryScheduled m es) ∨
    ∃ failure, FailsWith here m epsgInput es failure err ∧ mailsOf es = [.uploadFailed err] ∧
      Persisted m.id failure

/-- **When it can be reported.** The first load does not raise; and after the other steps have
raised, the scheduling of a retry does not raise, and reading and writing the row end in no other
exceptions than `JobNotFound` and those of the database. -/
def CanReport (here : Site) (m : Message) (epsgInput : ℤ) (es : List (Event machine)) : Prop :=
  (∀ e ∈ es.head?, ∃ row, e.call = answered .loadRow row) ∧
    ∀ failure err, FailsWith here m epsgInput es failure err → ∀ e ∈ failure, ∀ f,
      e.call.ans = .error f → e.call.op.persists m.id ∧ (f = .jobNotFound ∨ f = .database)

/-- One after another, `n` retries are scheduled, each by an execution of the message before. -/
inductive Retried (epsgInput : ℤ) : Message → ℕ → Prop
  | none (m : Message) : Retried epsgInput m 0
  | next {here : Site} {m m' : Message} {es : List (Event machine)} {r : Except Err Unit} {n : ℕ}
      (e : Event machine) : (processUploadTask here m epsgInput).Executes es r → e ∈ es →
      (∃ m₀, e.call.op = .retry m₀) → e.after.messages = e.before.messages ++ [m'] →
      Retried epsgInput m' n → Retried epsgInput m (n + 1)

end

/-! ## Single calls -/

section

variable {e : Event machine} {id : TaskId}

theorem mailsOf_append (l l' : List (Event machine)) :
    mailsOf (l ++ l') = mailsOf l ++ mailsOf l' :=
  List.filterMap_append

theorem mailsOf_cons (e : Event machine) (l : List (Event machine)) (h : e.call.op.mail? = none) :
    mailsOf (e :: l) = mailsOf l := by
  simp [mailsOf, h]

/-- A mail is sent, or the process is terminated. -/
theorem killed_of_sendMail {mail : Mail} {f : Fault} (h : e.Allowed)
    (hc : e.call = ⟨.sendMail mail, .error f⟩) : f = .killed := by
  obtain ⟨t, call, before, after⟩ := e
  cases hc
  obtain ⟨c, hex⟩ := h
  have hans : (exec (.sendMail mail) c before).1 = .error f := congrArg Prod.fst hex
  unfold exec at hans
  split at hans
  · rename_i x hx
    cases hans
    unfold Op.fault at hx
    split at hx
    · exact (Option.some.inj hx).symm
    · simp [Op.quiet] at hx
    · cases hx
  · simp [perform] at hans

/-- The FAILED state is written into a row that names the task. -/
theorem saysFailed_of_written {u : MembershipColumn} {b : Bool} (h : e.Allowed)
    (hc : e.call = answered (.updateMembershipUploadOfTask id u) b)
    (hu : u.streetProcessing = some .failed) (hnames : e.before.NamesTask id) :
    e.after.SaysFailed := by
  obtain ⟨row, hrow, hid⟩ := hnames
  obtain ⟨c, hafter⟩ := after_of_answered h hc
  simp only [perform, World.update, hrow, hid, decide_true, if_true, Prod.mk.injEq] at hafter
  refine ⟨_, by rw [← hafter.2], ?_⟩
  simpa [Row.putAll, Columns.putAll, Columns.put] using hu

/-- What a retry puts on the queue. -/
theorem message_of_retry {m m' : Message} (h : e.Allowed) (hop : e.call.op = .retry m)
    (hafter : e.after.messages = e.before.messages ++ [m']) :
    e.call = answered (.retry m) () ∧ m' = { m with retries := m.retries + 1 } := by
  obtain ⟨t, ⟨o, ans⟩, before, after⟩ := e
  obtain rfl : o = .retry m := hop
  obtain ⟨c, hex⟩ := h
  rcases hf : (Op.retry m).fault c with _ | f
  · have hperform : exec (.retry m) c before = perform (.retry m) c before := exec_of_no_fault hf
    simp only [hperform, perform, Prod.mk.injEq] at hex
    obtain ⟨rfl, rfl⟩ := hex
    simp only [List.append_cancel_left_eq, List.cons.injEq, and_true] at hafter
    exact ⟨rfl, hafter.symm⟩
  · have hfault : exec (.retry m) c before = _ := exec_of_fault hf
    simp only [hfault, interrupted, Prod.mk.injEq] at hex
    obtain ⟨-, rfl⟩ := hex
    simp at hafter

end

/-! ## The failure path -/

section

variable [External] {here : Site} {m : Message} {epsgInput : ℤ} {es : List (Event machine)}
  {r : Except Err Unit} {err : Err}

/-- Nothing else than what `_fail_upload` expects went wrong in it. -/
def Expected (id : TaskId) (es : List (Event machine)) : Prop :=
  ∀ e ∈ es, ∀ f, e.call.ans = .error f → e.call.op.persists id ∧ (f = .jobNotFound ∨ f = .database)

/-- The failure path has done all it should. -/
structure EndedFailed (id : TaskId) (err : Err) (es : List (Event machine)) (r : Except Err Unit) :
    Prop where
  raised : r = .error err
  mailed : mailsOf es = [.uploadFailed err]
  persisted : Persisted id es
  expected : Expected id es

/-- Something raised in the failure path that it does not expect. -/
structure BrokeOff (id : TaskId) (es : List (Event machine)) (r : Except Err Unit) : Prop where
  raised : ∃ f, r = .error (.fault f)
  silent : mailsOf es = []
  unexpected : ¬Expected id es
  noRetry : ∀ e ∈ es, ∀ m, e.call ≠ answered (.retry m) ()

/-- A load, and then what the row leads to. -/
theorem executes_load_bind {α : Type} {f : JobModel → App α} {r : Except Err α}
    (h : (CosmonautJob.load >>= f).Executes es r) :
    (∃ e x, es = [e] ∧ e.call = ⟨.loadRow, .error x⟩ ∧ r = .error (.fault x)) ∨
      ∃ e es' row, es = e :: es' ∧ e.call = answered .loadRow row ∧
        (f (JobModel.ofRow row)).Executes es' r := by
  rw [CosmonautJob.load, bind_assoc] at h
  rcases executes_call_bind h with ⟨e, x, hes, -, hc, hr⟩ | ⟨e, es', row, hes, -, hc, hrest⟩
  · exact .inl ⟨e, x, hes, hc, hr⟩
  · exact .inr ⟨e, es', row, hes, hc, hrest⟩

omit [External] in
theorem mailsOf_of_persists {id : TaskId} (h : ∀ e ∈ es, e.call.op.persists id) :
    mailsOf es = [] := by
  rw [mailsOf, List.filterMap_eq_nil_iff]
  intro e he
  rcases h e he with ho | ⟨u, ho⟩
  · rw [ho]
    rfl
  · rw [ho]
    rfl

omit [External] in
theorem noRetry_of_persists {id : TaskId} (h : ∀ e ∈ es, e.call.op.persists id) :
    ∀ e ∈ es, ∀ m, e.call ≠ answered (.retry m) () := by
  intro e he m hc
  have hop := congrArg Call.op hc
  rcases h e he with ho | ⟨u, ho⟩
  · rw [ho] at hop
    cases hop
  · rw [ho] at hop
    cases hop

/-- `_fail_upload` before its handler. -/
def persistFailure (id : TaskId) : App Unit := do
  let job := withStreetProcessing (← CosmonautJob.load) .failed
  let _ ← writeIfOwner job id

theorem persistFailure_straight (id : TaskId) : (persistFailure id).Straight .fault machine :=
  .bind (.bind (straight_call _) fun _ => straight_ret _) fun _ =>
    .bind (straight_call _) fun _ => straight_ret _

theorem persistFailure_persists (id : TaskId) : Asks (Op.persists id) (persistFailure id) :=
  .bind (.bind (asks_ask (.inl rfl)) fun _ => trivial) fun _ =>
    .bind (asks_ask (.inr ⟨_, rfl⟩)) fun _ => trivial

/-- Unless something raises, the state is written. -/
theorem persistFailure_written {id : TaskId} (h : (persistFailure id).Executes es (.ok ())) :
    ∃ e ∈ es, (∃ u, e.call.op = .updateMembershipUploadOfTask id u) ∧
      (e.before.NamesTask id → e.after.SaysFailed) := by
  rcases executes_load_bind h with ⟨e, f, -, -, hr⟩ | ⟨load, es', row, rfl, -, h⟩
  · cases hr
  rcases executes_call_bind h with ⟨e, f, -, -, -, hr⟩ | ⟨e, es', b, rfl, hallowed, hc, -⟩
  · cases hr
  · exact ⟨e, by simp, ⟨_, congrArg Call.op hc⟩, saysFailed_of_written hallowed hc rfl⟩

/-- What `_fail_upload` does before the mail. -/
theorem persist_cases {id : TaskId}
    (h : Program.Executes (M := machine) (Program.tryCatch (persistFailure id) fun e =>
      if e = .fault .jobNotFound ∨ e = .fault .database then pure () else raise e) es r) :
    (r = .ok () ∧ mailsOf es = [] ∧ Persisted id es ∧ Expected id es) ∨ BrokeOff id es r := by
  rcases executes_tryCatch.1 h with ⟨⟨⟩, hbody, rfl⟩ | ⟨x, l, l', rfl, hbody, hhandler⟩
  · have hpersists : ∀ e ∈ es, e.call.op.persists id :=
      fun e => (persistFailure_persists id).executes hbody
    rcases persistFailure_straight id es _ hbody with ⟨-, hok⟩ | ⟨l, e, f, -, -, -, hr⟩
    · refine .inl ⟨rfl, mailsOf_of_persists hpersists, .inr (persistFailure_written hbody),
        fun e he f hf => ?_⟩
      obtain ⟨a, ha⟩ := hok e he
      rw [ha] at hf
      cases hf
    · cases hr
  · have hpersists : ∀ e ∈ l, e.call.op.persists id :=
      fun e => (persistFailure_persists id).executes hbody
    rcases persistFailure_straight id l _ hbody with ⟨⟨a, hr⟩, -⟩ | ⟨l, e, f, rfl, hok, hf, hr⟩
    · cases hr
    cases hr
    have hlast : ∀ a ∈ l ++ [e], ∀ g, a.call.ans = .error g → g = f := by
      intro a ha g hg
      rcases List.mem_append.1 ha with ha | ha
      · obtain ⟨x, hx⟩ := hok a ha
        rw [hx] at hg
        cases hg
      · rw [List.mem_singleton.1 ha, hf] at hg
        exact (Except.error.inj hg).symm
    have hmem : e ∈ l ++ [e] := by simp
    split at hhandler
    · rename_i hexpected
      obtain ⟨rfl, rfl⟩ := executes_ret.1 hhandler
      rw [List.append_nil]
      refine .inl ⟨rfl, mailsOf_of_persists hpersists, .inl ⟨e, hmem, hpersists e hmem, f, hf⟩, ?_⟩
      intro a ha g hg
      rw [hlast a ha g hg]
      exact ⟨hpersists a ha, by simpa using hexpected⟩
    · rename_i hunexpected
      obtain ⟨rfl, rfl⟩ := executes_throw.1 hhandler
      rw [List.append_nil]
      refine .inr ⟨⟨f, rfl⟩, mailsOf_of_persists hpersists, fun hexpected => ?_,
        noRetry_of_persists hpersists⟩
      exact hunexpected (by simpa using (hexpected e hmem f hf).2)

/-- **The failure path**: it does all it should, something raises in it that it does not expect, or
the process is terminated. -/
theorem failUpload_cases
    (h : Program.Executes (M := machine) (do failUpload m.id err; raise err) es r)
    (hkilled : r ≠ .error (.fault .killed)) :
    EndedFailed m.id err es r ∨ BrokeOff m.id es r := by
  rw [failUpload, bind_assoc] at h
  rcases executes_bind.1 h with ⟨x, hpersist, rfl⟩ | ⟨a, l, l', rfl, hpersist, hmail⟩
  · rcases persist_cases hpersist with ⟨hr, -⟩ | hbroke
    · cases hr
    · obtain ⟨f, hf⟩ := hbroke.raised
      cases hf
      exact .inr ⟨⟨f, rfl⟩, hbroke.silent, hbroke.unexpected, hbroke.noRetry⟩
  rcases persist_cases hpersist with ⟨-, hsilent, hpersisted, hexpected⟩ | hbroke
  case inr =>
    obtain ⟨f, hf⟩ := hbroke.raised
    cases hf
  simp only [bind_assoc, pure_bind] at hmail
  rcases executes_call_bind hmail with ⟨e, x, rfl, hallowed, hc, rfl⟩ | ⟨e, es', b, rfl, -, hc, h⟩
  · rw [killed_of_sendMail hallowed hc] at hkilled
    exact absurd rfl hkilled
  obtain ⟨rfl, rfl⟩ := executes_throw.1 h
  have hmem : ∀ a ∈ l, a ∈ l ++ [e] := fun a => List.mem_append_left _
  left
  constructor
  case raised => rfl
  case mailed =>
    rw [mailsOf_append, hsilent]
    simp [mailsOf, hc, Op.mail?]
  case persisted =>
    rcases hpersisted with ⟨a, ha, hpersists⟩ | ⟨a, ha, hwritten⟩
    · exact .inl ⟨a, hmem a ha, hpersists⟩
    · exact .inr ⟨a, hmem a ha, hwritten⟩
  case expected =>
    intro a ha f hf
    rcases List.mem_append.1 ha with ha | ha
    · exact hexpected a ha f hf
    · rw [List.mem_singleton.1 ha, hc] at hf
      cases hf

/-- The operation neither sends a mail nor schedules a retry. -/
def Op.reportsNothing : Op → Bool
  | .sendMail _ | .retry _ => false
  | _ => true

/-- The steps that the handlers watch over report nothing themselves. -/
theorem downloadRoads_reportsNothing :
    Asks (fun o => o.reportsNothing = true) (downloadRoads here m epsgInput) := by
  have hask : ∀ {o : Op}, o.reportsNothing = true →
    Asks (fun o => o.reportsNothing = true) (ask o) :=
    fun ho => asks_ask ho
  have hload : Asks (fun o => o.reportsNothing = true) CosmonautJob.load :=
    .bind (hask rfl) fun _ => trivial
  have hlocal : ∀ {o : Op}, o.isLocal here = true → o.reportsNothing = true := by
    intro o ho
    cases o <;> first | rfl | cases ho
  have hdisk : ∀ {o : Op}, o.isDisk here = true → o.reportsNothing = true :=
    fun ho => hlocal (isLocal_of_isDisk ho)
  exact .bind (hask rfl) fun _ =>
    .bind ((transformMembership_onDisk epsgInput).mono fun _ => hdisk).always fun data =>
    .bind (calls_osmDownloader (P := fun o => o.reportsNothing = true) data epsgInput).always
    fun osm =>
    .bind (runOsmQuery_calls (fun _ => hdisk) rfl osm).always fun _ =>
    .bind ((fileSha256_stays _).mono fun _ => hlocal).always fun _ => .bind (hask rfl) fun _ =>
    .bind hload fun _ => .bind (hask rfl) fun _ => trivial

omit [External] in
/-- A retry was scheduled, or scheduling it has raised. -/
theorem retry_cases (h : Program.Executes (M := machine) (do ask (.retry m); raise .retry) es r) :
    ∃ e, es = [e] ∧ ((e.call = answered (.retry m) () ∧ r = .error .retry) ∨
      ∃ f, e.call = ⟨.retry m, .error f⟩ ∧ r = .error (.fault f)) := by
  rcases executes_call_bind h with ⟨e, f, rfl, -, hc, rfl⟩ | ⟨e, es', a, rfl, -, hc, h⟩
  · exact ⟨e, rfl, .inr ⟨f, hc, rfl⟩⟩
  · obtain ⟨rfl, rfl⟩ := executes_throw.1 h
    exact ⟨e, rfl, .inl ⟨hc, rfl⟩⟩

/-- How the handlers of an upload task end. -/
inductive Handled (m : Message) (err : Err) (es : List (Event machine)) (r : Except Err Unit) : Prop
  | failed (h : EndedFailed m.id err es r)
  | brokeOff (h : BrokeOff m.id es r)
  | retried (e : Event machine) (hes : es = [e]) (hc : e.call = answered (.retry m) ())
      (hr : r = .error .retry) (hretries : m.retries < uploadMaxRetries)

/-- **The handlers end the upload as failed, schedule a retry while there are retries left, or raise
something else.** -/
theorem retryOrFail_cases (h : Program.Executes (M := machine) (retryOrFail m err) es r)
    (hkilled : r ≠ .error (.fault .killed)) : Handled m err es r := by
  unfold retryOrFail at h
  split at h
  · rcases failUpload_cases h hkilled with h | h
    · exact .failed h
    · exact .brokeOff h
  · rename_i hretries
    obtain ⟨e, rfl, ⟨hc, hr⟩ | ⟨f, hc, hr⟩⟩ := retry_cases h
    · exact .retried e rfl hc hr (by omega)
    · refine .brokeOff ⟨⟨f, hr⟩, by simp [mailsOf, hc, Op.mail?], fun hexpected => ?_, ?_⟩
      · have hpersists := (hexpected e (by simp) f (by rw [hc])).1
        rw [hc] at hpersists
        rcases hpersists with hop | ⟨u, hop⟩
        · cases hop
        · cases hop
      · intro a ha m' hretry
        rw [List.mem_singleton.1 ha, hc] at hretry
        cases hretry

/-- An execution of an upload task: its first load raises, all goes well, or its other steps raise
and its handlers take over. -/
theorem processUploadTask_cases (h : (processUploadTask here m epsgInput).Executes es r)
    (hkilled : r ≠ .error (.fault .killed)) :
    (∃ e f, es = [e] ∧ e.call = ⟨.loadRow, .error f⟩ ∧ r = .error (.fault f)) ∨
      ∃ load row rest, es = load :: rest ∧ load.call = answered .loadRow row ∧
        (((downloadRoads here m epsgInput).Executes rest (.ok ()) ∧ r = .ok ()) ∨
          ∃ err body failure, rest = body ++ failure ∧
            (downloadRoads here m epsgInput).Executes body (.error err) ∧
            Handled m err failure r) := by
  rcases executes_load_bind h with h | ⟨load, rest, row, rfl, hload, h⟩
  · exact .inl h
  refine .inr ⟨load, row, rest, rfl, hload, ?_⟩
  rcases executes_tryCatch.1 h with ⟨⟨⟩, hbody, hr⟩ | ⟨err, body, failure, rfl, hbody, hhandler⟩
  · exact .inl ⟨hbody, hr⟩
  refine .inr ⟨err, body, failure, rfl, hbody, ?_⟩
  have hfail : Program.Executes (M := machine) (do failUpload m.id err; raise err) failure r →
      Handled m err failure r := by
    intro hfail
    rcases failUpload_cases hfail hkilled with h | h
    · exact .failed h
    · exact .brokeOff h
  split at hhandler
  · obtain ⟨-, rfl⟩ := executes_throw.1 hhandler
    simp_all
  · dsimp only at hhandler
    split at hhandler
    · exact retryOrFail_cases hhandler hkilled
    · split at hhandler
      · exact retryOrFail_cases hhandler hkilled
      · exact hfail hhandler
    · exact hfail hhandler

/-! ## The whole task -/

/-- Where the steps that the handlers watch over have raised is determined by the events. -/
theorem FailsWith.unique {load : Event machine} {body failure failure' : List (Event machine)}
    {err' : Err}
    (h : FailsWith here m epsgInput (load :: (body ++ failure)) failure' err')
    (hbody : (downloadRoads here m epsgInput).Executes body (.error err)) :
    failure' = failure ∧ err' = err := by
  obtain ⟨load', row, body', hes, -, hbody'⟩ := h
  obtain ⟨-, hrest⟩ := List.cons.inj hes
  obtain ⟨-, hr, hfailure⟩ := hbody.unique hbody' hrest
  exact ⟨hfailure.symm, (Except.error.inj hr).symm⟩

/-- Nothing was reported before the handlers. -/
theorem mailsOf_before {load : Event machine} {row : Row} {body failure : List (Event machine)}
    {r' : Except Err Unit} (hload : load.call = answered .loadRow row)
    (hbody : (downloadRoads here m epsgInput).Executes body r') :
    mailsOf (load :: (body ++ failure)) = mailsOf failure := by
  have hsilent : mailsOf body = [] := by
    rw [mailsOf, List.filterMap_eq_nil_iff]
    intro e he
    have hnothing := downloadRoads_reportsNothing.executes hbody he
    revert hnothing
    cases e.call.op <;> simp [Op.reportsNothing, Op.mail?]
  rw [mailsOf_cons _ _ (by rw [hload]; rfl), mailsOf_append, hsilent, List.nil_append]

theorem noRetry_before {load : Event machine} {row : Row} {body failure : List (Event machine)}
    {r' : Except Err Unit} (hload : load.call = answered .loadRow row)
    (hbody : (downloadRoads here m epsgInput).Executes body r') {e : Event machine} {m' : Message}
    (he : e ∈ load :: (body ++ failure)) (hop : e.call.op = .retry m') : e ∈ failure := by
  rcases List.mem_cons.1 he with rfl | he
  · rw [hload] at hop
    cases hop
  · rcases List.mem_append.1 he with he | he
    · have hnothing := downloadRoads_reportsNothing.executes hbody he
      rw [hop] at hnothing
      cases hnothing
    · exact he

/-- A task whose handlers have taken over reports the failure exactly if nothing unexpected went
wrong in them. -/
theorem reportsFailures_of_handled {load : Event machine} {row : Row}
    {body failure : List (Event machine)} (hload : load.call = answered .loadRow row)
    (hbody : (downloadRoads here m epsgInput).Executes body (.error err))
    (h : Handled m err failure r) :
    ReportsFailures here m epsgInput (load :: (body ++ failure)) r ↔ Expected m.id failure := by
  have hfails : FailsWith here m epsgInput (load :: (body ++ failure)) failure err :=
    ⟨load, row, body, rfl, hload, hbody⟩
  cases h with
  | failed h =>
    refine iff_of_true (fun err' hr => .inr ⟨failure, ?_⟩) h.expected
    obtain rfl := Except.error.inj (h.raised.symm.trans hr)
    exact ⟨hfails, (mailsOf_before hload hbody).trans h.mailed, h.persisted⟩
  | brokeOff h =>
    refine iff_of_false (fun hreports => ?_) h.unexpected
    obtain ⟨f, hr⟩ := h.raised
    rcases hreports _ hr with ⟨-, -, e, he, hc⟩ | ⟨failure', -, hmailed, -⟩
    · exact h.noRetry e (noRetry_before hload hbody he (congrArg Call.op hc)) m hc
    · rw [mailsOf_before hload hbody, h.silent] at hmailed
      cases hmailed
  | retried e hes hc hr hretries =>
    subst hes
    refine iff_of_true (fun err' hr' => .inl ?_) fun a ha f hf => ?_
    · obtain rfl := Except.error.inj (hr.symm.trans hr')
      exact ⟨rfl, hretries, e, by simp, hc⟩
    · rw [List.mem_singleton.1 ha, hc] at hf
      cases hf

/-- A retry is of the message itself, and there are retries left. -/
def Op.retriesOwn (m : Message) (o : Op) : Prop :=
  ∀ m₀, o = .retry m₀ → m₀ = m ∧ m.retries < uploadMaxRetries

/-- A retry of the task's own message is scheduled, and only while there are retries left. -/
theorem processUploadTask_retries :
    Asks (Op.retriesOwn m) (processUploadTask here m epsgInput) := by
  have hnothing : ∀ o : Op, o.reportsNothing = true → o.retriesOwn m := by
    rintro o ho m₀ rfl
    cases ho
  have hask : ∀ {o : Op}, o.reportsNothing = true → Asks (Op.retriesOwn m) (ask o) :=
    fun ho => asks_ask (hnothing _ ho)
  have hmail : ∀ mail, Asks (Op.retriesOwn m) (ask (.sendMail mail)) :=
    fun mail => asks_ask fun m₀ h => by cases h
  have hfail : ∀ e, Asks (Op.retriesOwn m) (do failUpload m.id e; (raise e : App Unit)) := fun e =>
    .bind (.bind (.tryCatch (.bind (.bind (hask rfl) fun _ => trivial) fun job =>
      .bind (hask rfl) fun _ => trivial) fun e => always_ite (fun _ => trivial)
      fun _ => trivial) fun _ => .bind (hmail _) fun _ => trivial) fun _ => trivial
  have hretry : ∀ e, Asks (Op.retriesOwn m) (retryOrFail m e) := fun e =>
    always_ite (fun _ => hfail e) fun hlt =>
      .bind (asks_ask fun m₀ h => ⟨(Op.retry.inj h).symm, Nat.lt_of_not_le hlt⟩) fun _ => trivial
  refine .bind (.bind (hask rfl) fun _ => trivial) fun _ =>
    .tryCatch (downloadRoads_reportsNothing.mono fun c => hnothing c.op) fun e =>
      always_ite (fun _ => trivial) fun _ => ?_
  dsimp only
  split
  · exact hretry _
  · exact always_ite (fun _ => hretry _) fun _ => hfail _
  · exact hfail _

theorem retried_le {n : ℕ} (h : Retried epsgInput m n) : n ≤ uploadMaxRetries - m.retries := by
  induction h with
  | none m => omega
  | next e hexecutes he hop hafter _ ih =>
    obtain ⟨m₀, hop⟩ := hop
    obtain ⟨rfl, hlt⟩ := processUploadTask_retries.executes hexecutes he m₀ hop
    obtain ⟨-, rfl⟩ := message_of_retry (hexecutes.allowed he) hop hafter
    simp only at ih
    omega

/-- **What an upload task raises is reported exactly if it can be.** Whatever happens between the
calls of the task, and whichever of them raise: a retry is scheduled, or the maintainer is mailed
once, the original exception is raised and the row says FAILED, if and only if neither the first
load raises, nor the scheduling of a retry, nor anything unexpected in the failure path. And no task
is retried more than `UPLOAD_MAX_RETRIES` times. -/
theorem upload_failures_reported_iff (h : (processUploadTask here m epsgInput).Executes es r)
    (hkilled : r ≠ .error (.fault .killed)) :
    (ReportsFailures here m epsgInput es r ↔ CanReport here m epsgInput es) ∧
      ∀ n, Retried epsgInput m n → n ≤ uploadMaxRetries := by
  refine ⟨?_, fun n hn => (retried_le hn).trans (Nat.sub_le _ _)⟩
  rcases processUploadTask_cases h hkilled with
    ⟨e, f, rfl, hc, rfl⟩ | ⟨load, row, rest, rfl, hload, h⟩
  · refine iff_of_false (fun hreports => ?_) fun hcan => ?_
    · rcases hreports _ rfl with ⟨hretry, -⟩ | ⟨failure, ⟨load, row, body, hes, hload, -⟩, -⟩
      · cases hretry
      · obtain ⟨rfl, -⟩ := List.cons.inj hes
        rw [hc] at hload
        cases hload
    · obtain ⟨row, hload⟩ := hcan.1 e rfl
      rw [hc] at hload
      cases hload
  have hhead : ∀ e ∈ (load :: rest).head?, ∃ row, e.call = answered .loadRow row := by
    rintro e ⟨⟩
    exact ⟨row, hload⟩
  rcases h with ⟨hbody, rfl⟩ | ⟨err, body, failure, rfl, hbody, hhandled⟩
  · refine iff_of_true (fun err herr => by cases herr) ⟨hhead, ?_⟩
    rintro failure err ⟨load', row', body, hes, -, hbody'⟩
    obtain ⟨-, hrest⟩ := List.cons.inj hes
    rw [← List.append_nil rest] at hrest
    obtain ⟨-, hr, -⟩ := hbody.unique hbody' hrest
    cases hr
  · rw [reportsFailures_of_handled hload hbody hhandled]
    constructor
    · intro hexpected
      refine ⟨hhead, fun failure' err' hfails => ?_⟩
      obtain ⟨rfl, -⟩ := hfails.unique hbody
      exact hexpected
    · exact fun hcan => hcan.2 failure err ⟨load, row, body, rfl, hload, hbody⟩

end

/-! ## A task at its last retry -/

/-- The message of an upload task, delivered after its last retry. -/
def lastRetry : Message := ⟨7, .upload 25833, 3⟩

/-- An upload task in the world of a job whose row names it. -/
def lastRetryPool : Pool machine Err Unit :=
  let _ := External.plain
  let row := Row.ofModel (withStreetProcessing .blank (.task 7))
  ⟨.fresh row, [processUploadTask ⟨0, 0, none⟩ lastRetry 25833]⟩

/-- The pull times out, and all else goes well. -/
def timedOut : List (ℕ × Choice) :=
  usually [0] ++ [(0, { Choice.usual with fault := some .transient })] ++ usually [0, 0, 0]

theorem upload_failures_reported_timedOut :
    let _ := External.plain
    let es := (lastRetryPool.play timedOut).1.filter (·.thread = 0)
    ReportsFailures ⟨0, 0, none⟩ lastRetry 25833 es (.error (.fault .transient)) ∧
      mailsOf es = [.uploadFailed (.fault .transient)] := by
  intro _ es
  have hexecutes : (processUploadTask ⟨0, 0, none⟩ lastRetry 25833).Executes es
      (.error (.fault .transient)) :=
    (Run.of_play timedOut lastRetryPool).executes rfl rfl
  have hrest : (es.drop 2).all (fun e => e.call.ans.isOk) = true := by decide +kernel
  refine ⟨(upload_failures_reported_iff hexecutes (by simp)).1.2 ⟨?_, ?_⟩, by decide +kernel⟩
  · rintro e ⟨rfl⟩
    exact ⟨_, rfl⟩
  · -- only the pull raises, which is the first of the steps that the handlers watch over
    rintro failure err ⟨load, row, _ | ⟨pull, body⟩, hes, -, hbody⟩ e he f hf
    · rcases executes_bind.1 hbody with ⟨x, hx, -⟩ | ⟨a, l, l', hnil, hx, -⟩
      · cases hx
      · obtain ⟨rfl, -⟩ := List.append_eq_nil_iff.1 hnil.symm
        cases hx
    · have hmem : e ∈ es.drop 2 := by
        rw [hes]
        simp [he]
      have hok := List.all_eq_true.1 hrest e hmem
      rw [hf] at hok
      cases hok

/-- **A task whose first load raises reports nothing.** -/
theorem first_load_unreported :
    let _ := External.plain
    let es := (lastRetryPool.play [(0, { Choice.usual with fault := some .database })]).1
    (processUploadTask ⟨0, 0, none⟩ lastRetry 25833).Executes (es.filter (·.thread = 0))
        (.error (.fault .database)) ∧
      ¬ ReportsFailures ⟨0, 0, none⟩ lastRetry 25833 (es.filter (·.thread = 0))
        (.error (.fault .database)) := by
  intro _ es
  refine ⟨(Run.of_play _ lastRetryPool).executes rfl rfl, fun hreports => ?_⟩
  rcases hreports _ rfl with ⟨hretry, -⟩ | ⟨failure, -, hmailed, -⟩
  · cases hretry
  · cases hmailed

end Cosmonaut
