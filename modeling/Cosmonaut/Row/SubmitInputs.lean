import Cosmonaut.Model.Requests

/-!
# What a submit does to the inputs

A submit wins the guard by one conditional update and then saves the whole row from the copy its
job object was loaded with, however long ago.

* `submit_keeps_inputs_iff`: the input columns survive a submit exactly when the row at the guard
  still held what the submit had loaded.
* `submit_loses_an_email`: a run in which they do not survive.
-/

namespace Cosmonaut

open Interleaving Program

/-! ## What a submit saves -/

/-- The operation saves these inputs, if it saves a row. -/
def Op.SavesInputs (inputs : Inputs) (o : Op) : Prop :=
  ∀ columns, o = .writeRow columns → columns.inputs = inputs

theorem savesInputsMenu (here : Site) (inputs : Inputs) : Menu here (Op.SavesInputs inputs) where
  stays o h _ ho := by cases ho; cases h
  shared o h _ ho := by cases ho; cases h
  inputs _ _ _ ho := by cases ho
  due _ ho := by cases ho
  task _ _ ho := by cases ho
  raises _ _ _ ho := by cases ho
  log _ _ ho := by cases ho

/-- A submit saves the inputs of its job object and no other. -/
theorem submit_savesInputs {inputs : Inputs} (here : Site) {job : JobModel}
    (h : job.row.inputs = inputs) : Asks (Op.SavesInputs inputs) (CosmonautJob.submit here job) :=
  (savesInputsMenu here inputs).submit fun columns hc _ _ columns' ho => by
    cases ho
    exact hc.trans h

/-- A reset leaves the inputs of the job object alone. -/
theorem reset_returns (here : Site) (job : JobModel) :
    (CosmonautJob.reset here job).Returns fun r => r.1.row.inputs = job.row.inputs := by
  apply Returns.bind (returns_call fun _ => trivial)
  intro done _
  cases done with
  | false => exact rfl
  | true =>
    apply Returns.bind (returns_call fun _ => trivial)
    intro _ _
    apply Returns.bind (returns_call fun _ => trivial)
    intro _ _
    exact Returns.bind (returns_call fun _ => trivial) fun _ _ => rfl

theorem inputs_of_writeRow {e : Event machine} (h : e.Allowed) {columns : Columns}
    (hc : e.call = answered (.writeRow columns) ()) : e.after.inputs = some columns.inputs := by
  obtain ⟨t, call, before, after⟩ := e
  cases hc
  obtain ⟨c, hex⟩ := h
  change exec (.writeRow columns) c before = (.ok (), after) at hex
  have hok : (exec (.writeRow columns) c before).1 = .ok () := by rw [hex]
  rw [exec_ok hok] at hex
  rcases hr : before.row with _ | r <;> simp only [perform, hr] at hex <;> cases hex <;> rfl

variable [External]

/-- The request starts a run: it calls `submit` on a job object it has loaded. -/
def Submits (prog : App Unit) : Prop :=
  ∃ here, prog = startComputation here ∨ prog = restartComputation here

/-- The inputs as a job object loaded from the row saves them. -/
def Row.reencodedInputs (r : Row) : Inputs := (JobModel.ofRow r).row.inputs

omit [External] in
/-- What a program asks for after its first load may depend on the row loaded. -/
theorem trail_load {α : Type} {f : Row → App α} {A : Row → Op → Prop}
    (h : ∀ r, Asks (A r) (f r)) :
    (ask .loadRow >>= f).Trail
      (fun past c => c.op = Op.loadRow ∨
        ∃ r, past.getLast? = some (answered .loadRow r) ∧ A r c.op)
      (fun _ _ => True) [] :=
  trail_call_bind (S := sig) (o := Op.loadRow) (A := fun r c => A r c.op) h

/-- A row is saved with the inputs of the row that was loaded first. -/
def SavesLoaded (past : List (Call sig)) (c : Call sig) : Prop :=
  ∀ columns, c.op = .writeRow columns →
    ∃ r, past.getLast? = some (answered .loadRow r) ∧ columns.inputs = r.reencodedInputs

/-- Every save of the request carries the inputs of the row it loaded first. -/
theorem Submits.trail {prog : App Unit} (h : Submits prog) :
    prog.Trail SavesLoaded (fun _ _ => True) [] := by
  have hsaved : ∀ (past : List (Call sig)) (c : Call sig), (c.op = Op.loadRow ∨
      ∃ r, past.getLast? = some (answered .loadRow r) ∧ c.op.SavesInputs r.reencodedInputs) →
      SavesLoaded past c := by
    rintro past c (hop | ⟨r, hlast, hsaves⟩) columns hc
    · rw [hop] at hc
      cases hc
    · exact ⟨r, hlast, hsaves columns hc⟩
  obtain ⟨here, rfl | rfl⟩ := h
  · rw [startComputation, CosmonautJob.load, bind_assoc]
    refine Trail.mono (trail_load (A := fun r => Op.SavesInputs r.reencodedInputs) ?_) hsaved
      fun _ _ h => h
    intro r
    refine always_ite (fun _ => ?_) fun _ => trivial
    exact Always.bind (submit_savesInputs here rfl) fun _ => trivial
  · rw [restartComputation, CosmonautJob.load, bind_assoc]
    refine Trail.mono (trail_load (A := fun r => Op.SavesInputs r.reencodedInputs) ?_) hsaved
      fun _ _ h => h
    intro r
    refine always_ite (fun _ => trivial) fun _ => ?_
    refine Always.bind_returns ((savesInputsMenu here _).reset fun _ ho => by cases ho)
      (reset_returns here _)
      fun ret h => always_ite (fun _ => ?_) fun _ => trivial
    exact Always.bind (submit_savesInputs here h) fun _ => trivial

/-! ## Around the guard and the save -/

/-- In the run, thread `t` submits: at step `i` it wins the guard, at step `j` it saves the row, and
the first thing it did was to load the row `r`. -/
structure Submission (p : Pool machine Err Unit) (es : List (Event machine)) (t i j : ℕ) (r : Row)
    (guard save : Event machine) : Prop where
  program : ∃ prog, p.threads[t]? = some prog ∧ Submits prog
  loaded : (callsOf t (es.take i)).getLast? = some (answered .loadRow r)
  order : i < j
  guard_at : es[i]? = some guard
  guard_thread : guard.thread = t
  guard_won : guard.call = answered .markQueued true
  save_at : es[j]? = some save
  save_thread : save.thread = t
  saved : ∃ columns, save.call = answered (.writeRow columns) ()

/-- No accepted input is lost: right after a submit's save the input columns are those at the
instant its guard was won. -/
def SubmitKeepsInputs : Prop :=
  ∀ (p p' : Pool machine Err Unit) (es : List (Event machine)) (t i j : ℕ) (r : Row)
    (guard save : Event machine), Run p es p' → Submission p es t i j r guard save →
    save.after.inputs = guard.before.inputs

/-- **A submit keeps the accepted inputs exactly when nothing changed them since its job object was
loaded**: the input columns right after its save are those at the guard if and only if the row at
the guard holds the inputs of the loaded row, with the keys that older rows lack filled in. -/
theorem submit_keeps_inputs_iff {p p' : Pool machine Err Unit} {es : List (Event machine)}
    {t i j : ℕ} {r : Row} {guard save : Event machine} (hrun : Run p es p')
    (h : Submission p es t i j r guard save) :
    save.after.inputs = guard.before.inputs ↔ guard.before.inputs = some r.reencodedInputs := by
  obtain ⟨prog, hprog, hsub⟩ := h.program
  obtain ⟨columns, hsaved⟩ := h.saved
  have hfirst := getLast?_callsOf_take h.order.le h.loaded
  have hcols : columns.inputs = r.reencodedInputs := by
    have := hrun.trail_getElem h.save_at (by rw [h.save_thread]; exact hprog) hsub.trail
    rw [h.save_thread, hsaved] at this
    obtain ⟨r', hfirst', hinputs⟩ := this columns rfl
    obtain rfl : r = r' := by simpa using hfirst.symm.trans hfirst'
    exact hinputs
  rw [inputs_of_writeRow (hrun.allowed (List.mem_of_getElem? h.save_at)) hsaved, hcols]
  exact eq_comm

/-! ## A lost email -/

omit [External]

/-- One request starts the run of a new job, another stores an email address. -/
def lostEmailPool : Pool machine Err Unit :=
  let _ := External.plain
  ⟨.fresh (.ofModel .blank), [startComputation ⟨0, 0, none⟩, goToUploadPage "a@b.org"]⟩

/-- The email is written just in time: then the start loads the row and goes on to its save, and
only the stage is raised in between. -/
def emailInTimeSchedule : List (ℕ × Choice) := usually [1, 1, 0, 1, 0, 0, 0, 0, 0, 0, 0]

theorem submit_keeps_email_inTime :
    let _ := External.plain
    ∃ r guard save,
      Submission lostEmailPool (lostEmailPool.play emailInTimeSchedule).1 0 4 10 r guard save ∧
      r.columns.email = "a@b.org" ∧ save.after.inputs = guard.before.inputs := by
  let _ := External.plain
  have h : Submission lostEmailPool (lostEmailPool.play emailInTimeSchedule).1 0 4 10
      _ _ _ :=
    { program := ⟨_, rfl, ⟨_, .inl rfl⟩⟩
      loaded := rfl
      order := by decide
      guard_at := rfl
      guard_thread := rfl
      guard_won := rfl
      save_at := rfl
      save_thread := rfl
      saved := ⟨_, rfl⟩ }
  exact ⟨_, _, _, h, rfl, (submit_keeps_inputs_iff (Run.of_play _ _) h).2 rfl⟩

/-- The start loads the row, the email is written, then the start goes on to its save. -/
def lostEmailSchedule : List (ℕ × Choice) := usually [0, 1, 1, 0, 0, 0, 0, 0, 0, 0]

/-- **A submit loses an input the row had accepted.** -/
theorem submit_loses_an_email : ¬ @SubmitKeepsInputs External.plain := by
  intro h
  let _ := External.plain
  have hlost := h lostEmailPool _ _ 0 3 9 (.ofModel .blank) _ _
    (Run.of_play lostEmailSchedule lostEmailPool)
    { program := ⟨_, rfl, ⟨_, .inl rfl⟩⟩
      loaded := rfl
      order := by decide
      guard_at := rfl
      guard_thread := rfl
      guard_won := rfl
      save_at := rfl
      save_thread := rfl
      saved := ⟨_, rfl⟩ }
  exact absurd hlost (by decide)

end Cosmonaut
