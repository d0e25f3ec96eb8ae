import Cosmonaut.Row.Writers

/-!
# The inputs of a started run

From the guard of a submit until the row is PENDING again, the input columns should change only by
that submit's own save and by the compare-and-set writes for the upload task the row names.

* `inputs_frozen_iff`: they do exactly when the unguarded writes land in time.
* `start_input_changes`: a run in which a membership upload names its task after the start.
-/

namespace Cosmonaut

open Interleaving Program

/-- The step wins the guard of a submit. -/
def winsGuard (e : Event machine) : Bool :=
  match e.call with
  | ⟨.markQueued, .ok true⟩ => true
  | _ => false

/-- The thread that won the last guard. -/
def lastSubmit (es : List (Event machine)) : Option ℕ :=
  (es.filter winsGuard).getLast?.map Event.thread

/-- The step, at position `i`, changes the inputs of a job that is not PENDING. -/
structure ChangesStarted (es : List (Event machine)) (i : ℕ) (e : Event machine) (r r' : Row) :
    Prop where
  step : es[i]? = some e
  before : e.before.row = some r
  started : r.status ≠ .pending
  after : e.after.row = some r'
  changed : r'.columns.inputs ≠ r.columns.inputs

/-- The step is a save by the thread that won the last guard. -/
def IsOwnSave (es : List (Event machine)) (i : ℕ) (e : Event machine) : Prop :=
  lastSubmit (es.take i) = some e.thread ∧
    ∃ columns, e.call = answered (.writeRow columns) ()

/-- The step is a compare-and-set write for the upload task the row names. -/
def IsTaskWrite (e : Event machine) (r r' : Row) : Prop :=
  ∃ id, r.columns.membershipUpload.streetProcessing = some (.task id) ∧
    ((∃ state, e.call.op = .setStreetProcessingOfTask id state) ∨
      ∃ upload, e.call.op = .updateMembershipUploadOfTask id upload) ∧
    r'.columns.inputs = { r.columns.inputs with membershipUpload := r'.columns.membershipUpload }

/-- The inputs of a started run change only by its submit's save and by the named task's writes. -/
def InputsFrozen (es : List (Event machine)) : Prop :=
  ∀ i e r r', ChangesStarted es i e r r' → IsOwnSave es i e ∨ IsTaskWrite e r r'

variable [External]

/-- The inputs of started runs are frozen, whatever requests are served. -/
def InputsStayFrozen : Prop :=
  ∀ (w : World) (requests : List (Site × Request)) (es : List (Event machine))
    (p' : Pool machine Err Unit), Run (serving w requests) es p' → InputsFrozen es

/-- The unguarded writes of membership uploads, adoptions and starts land while the row is PENDING
or change nothing, a submit's save behind the last guard apart. -/
structure UnguardedInTime (requests : List (Site × Request)) (es : List (Event machine)) :
    Prop where
  columns : ∀ e here q r vs, e ∈ es → requests[e.thread]? = some (here, q) →
    q.writesUnguarded = true → e.before.row = some r → r.status ≠ .pending →
    e.call = answered (.updateColumns vs) () → (r.columns.putAll vs).inputs = r.columns.inputs
  saves : ∀ i e here q r columns, es[i]? = some e → requests[e.thread]? = some (here, q) →
    q.writesUnguarded = true → e.before.row = some r → r.status ≠ .pending →
    e.call = answered (.writeRow columns) () →
    lastSubmit (es.take i) = some e.thread ∨ columns.inputs = r.columns.inputs

variable {w : World} {requests : List (Site × Request)} {es : List (Event machine)}
  {p' : Pool machine Err Unit}

/-- A step that writes inputs unguarded belongs to a request that may. -/
theorem request_of_writesUnguarded (hrun : Run (serving w requests) es p') {e : Event machine}
    (he : e ∈ es) (hop : e.call.op.writesUnguarded = true) :
    ∃ here q, requests[e.thread]? = some (here, q) ∧ q.writesUnguarded = true := by
  obtain ⟨prog, hprog⟩ := hrun.thread_mem he
  obtain ⟨here, q, hq, rfl⟩ := serving_threads hprog
  refine ⟨here, q, hq, ?_⟩
  by_contra hguarded
  have hquiet := hrun.always he hprog (Request.guarded (by simpa using hguarded))
  simp [hop] at hquiet

theorem InputsFrozen.unguardedInTime (h : InputsFrozen es)
    (hrun : Run (serving w requests) es p') : UnguardedInTime requests es := by
  constructor
  · intro e here q r vs he hq hwrites hr hstarted hc
    obtain ⟨i, hi⟩ := List.mem_iff_getElem?.1 he
    obtain ⟨r', hr', hafter⟩ := row_of_updateColumns (hrun.allowed he) hc
    obtain rfl := Option.some.inj (hr.symm.trans hr')
    by_contra hne
    rcases h i e r (r.putAll vs) ⟨hi, hr, hstarted, hafter, hne⟩ with
      ⟨-, columns, hsave⟩ | ⟨id, -, ⟨state, hop⟩ | ⟨upload, hop⟩, -⟩
    · rw [hc] at hsave
      cases hsave
    · rw [hc] at hop
      cases hop
    · rw [hc] at hop
      cases hop
  · intro i e here q r columns hi hq hwrites hr hstarted hc
    obtain ⟨c, hafter⟩ := after_of_answered (hrun.allowed (List.mem_of_getElem? hi)) hc
    by_contra hne
    rw [not_or] at hne
    simp only [perform, hr, Prod.mk.injEq, true_and] at hafter
    rcases h i e r { r with columns } ⟨hi, hr, hstarted, hafter ▸ rfl, hne.2⟩ with
      ⟨hlast, -⟩ | ⟨id, -, ⟨state, hop⟩ | ⟨upload, hop⟩, -⟩
    · exact hne.1 hlast
    · rw [hc] at hop
      cases hop
    · rw [hc] at hop
      cases hop

theorem UnguardedInTime.inputsFrozen (h : UnguardedInTime requests es)
    (hrun : Run (serving w requests) es p') : InputsFrozen es := by
  rintro i e r r' ⟨hi, hr, hstarted, hr', hchanged⟩
  have he : e ∈ es := List.mem_of_getElem? hi
  have hne : r'.columns ≠ r.columns := fun heq => hchanged (by rw [heq])
  have hstep := columnsStep_of_allowed (hrun.allowed he) hr hr'
  have hok := ok_of_columns_ne (hrun.allowed he) hr hr' hne
  obtain ⟨t, ⟨o, _ | a⟩, before, after⟩ := e
  · obtain ⟨a, ha⟩ := hok
    cases ha
  obtain ⟨status', submitted', heartbeat', runId', cs⟩ := r'
  simp only at hr hr' hstep hchanged hne
  cases hstep with
  | same => exact absurd rfl hne
  | writeRow columns =>
    obtain ⟨here, q, hq, hwrites⟩ := request_of_writesUnguarded hrun he rfl
    rcases h.saves i _ here q r cs hi hq hwrites hr hstarted rfl with hlast | heq
    · exact .inl ⟨hlast, _, rfl⟩
    · exact absurd heq hchanged
  | updateColumns vs =>
    by_cases hinput : vs.any ColumnValue.isInput = true
    · obtain ⟨here, q, hq, hwrites⟩ := request_of_writesUnguarded hrun he hinput
      exact absurd (h.columns _ here q r vs he hq hwrites hr hstarted rfl) hchanged
    · refine absurd (Columns.inputs_putAll fun v hv => ?_) hchanged
      simpa using fun hv' => hinput (List.any_eq_true.2 ⟨v, hv, hv'⟩)
  | updateInput vs hpending => exact absurd hpending hstarted
  | setStreetProcessing id state hid =>
    refine .inr ⟨id, hid, .inl ⟨state, rfl⟩, ?_⟩
    rfl
  | updateMembershipUpload id upload hid =>
    refine .inr ⟨id, hid, .inr ⟨upload, rfl⟩, ?_⟩
    rfl
  | raiseStage stage => exact absurd rfl hchanged
  | markEndNotified => exact absurd rfl hchanged

/-- **The inputs of started runs are frozen exactly when the unguarded writes land in time.** -/
theorem inputs_frozen_iff (hrun : Run (serving w requests) es p') :
    InputsFrozen es ↔ UnguardedInTime requests es :=
  ⟨fun h => h.unguardedInTime hrun, fun h => h.inputsFrozen hrun⟩

omit [External]

/-! ## A late naming -/

/-- One request uploads a membership file, another starts the run. -/
def lateNamingRequests : List (Site × Request) :=
  [(⟨0, 0, none⟩, .uploadMembership (.ok plainTable) 25832), (⟨1, 0, none⟩, .startComputation)]

def lateNamingPool : Pool machine Err Unit :=
  let _ := External.plain
  serving (.fresh (.ofModel .blank)) lateNamingRequests

/-- The start runs alone. -/
def startAlone : List (Event machine) :=
  (lateNamingPool.play (usually [1, 1, 1, 1, 1, 1, 1, 1, 1, 1])).1

theorem inputs_frozen_alone : InputsFrozen startAlone := by
  let _ := External.plain
  refine (inputs_frozen_iff (Run.of_play _ lateNamingPool)).2 ⟨?_, ?_⟩
  · intro e here q r vs he hq hwrites hr hstarted hc
    change e ∈ [_, _, _, _, _, _, _, _, _, _] at he
    simp only [List.mem_cons, List.not_mem_nil, or_false] at he
    rcases he with rfl | rfl | rfl | rfl | rfl | rfl | rfl | rfl | rfl | rfl <;> cases hc
    all_goals cases hr; rfl
  · intro i e here q r columns hi hq hwrites hr hstarted hc
    left
    rcases i with _ | _ | _ | _ | _ | _ | _ | _ | _ | _ | i <;> cases hi <;> cases hc
    rfl

/-- The start wins the guard just before the upload names its task. -/
def lateNamingSchedule : List (ℕ × Choice) :=
  usually (List.replicate 17 0 ++ [1, 1, 0])

/-- **A membership upload changes the input of a run that has started.** -/
theorem start_input_changes : ¬ @InputsStayFrozen External.plain := by
  intro h
  let _ := External.plain
  obtain ⟨e, r, r', hchanges, hthread, hpending⟩ :
      ∃ e r r', ChangesStarted (lateNamingPool.play lateNamingSchedule).1 19 e r r' ∧
        e.thread = 0 ∧ r.columns.membershipUpload.streetProcessing = some .pending := by
    refine ⟨_, _, _, ⟨rfl, rfl, ?_, rfl, fun heq => ?_⟩, rfl, rfl⟩
    · decide
    · exact absurd (congrArg (·.membershipUpload.streetProcessing) heq) (by decide)
  rcases h _ lateNamingRequests _ _ (Run.of_play lateNamingSchedule lateNamingPool) 19 e r r'
    hchanges with ⟨hlast, -⟩ | ⟨id, hid, -⟩
  · rw [hthread] at hlast
    exact absurd hlast (by decide)
  · rw [hpending] at hid
    cases hid

end Cosmonaut
