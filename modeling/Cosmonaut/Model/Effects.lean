import Cosmonaut.Model.Pages

/-!
# What an operation can do

For each part of the world, what an operation can do to it, failures included. Everything else
about a step is derived from these.

* `exec_columns_cases`, `exec_row_new`: the row.
* `exec_stored_cases`: object storage.
* `exec_disk_of_not_touches`, `exec_checksums`: the files of a pod and the caches of a process.
-/

namespace Cosmonaut

open Interleaving Program

variable {o : Op} {c : Choice} {w : World}

theorem exec_of_fault {e : Fault} (h : o.fault c = some e) :
    exec o c w = (.error e, interrupted o c w) := by
  simp [exec, h]

theorem exec_of_no_fault (h : o.fault c = none) : exec o c w = perform o c w := by
  simp [exec, h]

/-- An operation that answers did not fail. -/
theorem exec_ok {a : o.Ans} (h : (exec o c w).1 = .ok a) : exec o c w = perform o c w := by
  rcases hf : o.fault c with _ | e
  · exact exec_of_no_fault hf
  · rw [exec_of_fault hf] at h
    cases h

@[simp] theorem interrupted_row : (interrupted o c w).row = w.row := by
  cases o <;> simp only [interrupted, World.pulled, World.uploaded, World.deleted, World.setDisk]
  split <;> rfl

/-! ## The row -/

/-- An operation that fails leaves the row alone. -/
theorem exec_error_row {f : Fault} (h : (exec o c w).1 = .error f) :
    (exec o c w).2.row = w.row := by
  rcases hf : o.fault c with _ | e
  case some => rw [exec_of_fault hf, interrupted_row]
  rw [exec_of_no_fault hf] at h ⊢
  cases o <;> simp only [perform, World.require, World.update, World.file] at h ⊢ <;>
    (try split at h) <;> (try split at h) <;> first | rfl | cases h

/-- The row's input columns, if there is a row. -/
def World.inputs (w : World) : Option Inputs := w.row.map (·.columns.inputs)

/-- An update that applied has found a row that meets the condition. -/
theorem update_true {w' : World} {cond : Row → Bool} {f : Row → Row}
    (h : w.update cond f = (.ok true, w')) :
    ∃ r, w.row = some r ∧ cond r = true ∧ w' = { w with row := some (f r) } := by
  unfold World.update at h
  split at h
  · rename_i r hr
    split at h
    · rename_i hcond
      exact ⟨r, hr, hcond, (Prod.mk.inj h).2.symm⟩
    · cases (Prod.mk.inj h).1
  · cases (Prod.mk.inj h).1

/-- An update that did not apply has found none, and has changed nothing. -/
theorem update_false {w' : World} {cond : Row → Bool} {f : Row → Row}
    (h : w.update cond f = (.ok false, w')) :
    w' = w ∧ ∀ r, w.row = some r → cond r = false := by
  unfold World.update at h
  split at h
  · rename_i r hr
    split at h
    · cases (Prod.mk.inj h).1
    · rename_i hcond
      refine ⟨(Prod.mk.inj h).2.symm, fun r' hr' => ?_⟩
      obtain rfl := Option.some.inj (hr.symm.trans hr')
      exact Bool.eq_false_iff.2 hcond
  · rename_i hr
    refine ⟨(Prod.mk.inj h).2.symm, fun r' hr' => ?_⟩
    cases hr.symm.trans hr'

/-- An update of a row that must exist has found it. -/
theorem require_ok {w' : World} {f : Row → Row} (h : w.require f = (.ok (), w')) :
    ∃ r, w.row = some r ∧ w' = { w with row := some (f r) } := by
  unfold World.require at h
  split at h
  · exact ⟨_, ‹_›, (Prod.mk.inj h).2.symm⟩
  · cases (Prod.mk.inj h).1

theorem update_row {r : Row} (h : w.row = some r) (cond : Row → Bool) (f : Row → Row) :
    (w.update cond f).2.row = some (if cond r then f r else r) := by
  simp only [World.update, h]
  by_cases hc : cond r <;> simp [hc, h]

/-- An update applies to the row that is there, or leaves it as it is. -/
theorem update_cases {r r' : Row} {cond : Row → Bool} {f : Row → Row} (h : w.row = some r)
    (h' : (w.update cond f).2.row = some r') :
    (cond r = true ∧ r' = f r ∧ (w.update cond f).1 = .ok true) ∨ r' = r := by
  rw [update_row h, Option.some.injEq] at h'
  by_cases hc : cond r = true
  · rw [if_pos hc] at h'
    exact .inl ⟨hc, h'.symm, by simp only [World.update, h, if_pos hc]⟩
  · rw [if_neg hc] at h'
    exact .inr h'.symm

/-- What an operation can do to the columns of a row that stays: nothing, or what its write says. -/
inductive ColumnsStep (r : Row) : Op → Columns → Prop
  | same (o : Op) : ColumnsStep r o r.columns
  | writeRow (columns) : ColumnsStep r (.writeRow columns) columns
  | updateColumns (vs) : ColumnsStep r (.updateColumns vs) (r.columns.putAll vs)
  | updateInput (vs) : r.status = .pending →
      ColumnsStep r (.updateInput vs) (r.columns.putAll vs)
  | setStreetProcessing (id state) :
      r.columns.membershipUpload.streetProcessing = some (.task id) →
      ColumnsStep r (.setStreetProcessingOfTask id state) (r.columns.putAll [.membershipUpload
        { r.columns.membershipUpload with streetProcessing := some state }])
  | updateMembershipUpload (id upload) :
      r.columns.membershipUpload.streetProcessing = some (.task id) →
      ColumnsStep r (.updateMembershipUploadOfTask id upload)
        (r.columns.putAll [.membershipUpload upload])
  | raiseStage (stage) :
      ColumnsStep r (.raiseStage stage) (r.columns.putAll [.stage (max r.columns.stage stage)])
  | markEndNotified : ColumnsStep r .markEndNotified (r.columns.putAll [.notifiedEnd true])

/-- **What a step can do to the columns.** -/
theorem exec_columns_cases {r r' : Row} (h : w.row = some r)
    (h' : (exec o c w).2.row = some r') : ColumnsStep r o r'.columns := by
  rcases hf : o.fault c with _ | e
  case some =>
    rw [exec_of_fault hf, interrupted_row, h] at h'
    cases h'
    exact .same _
  rw [exec_of_no_fault hf] at h'
  cases o
  case writeRow columns =>
    simp only [perform, h] at h'
    cases h'
    exact .writeRow columns
  case updateColumns vs =>
    simp only [perform, World.require, h] at h'
    cases h'
    exact .updateColumns vs
  case updateInput vs =>
    rw [perform, update_row h, Option.some.injEq] at h'
    subst h'
    split
    · rename_i hc
      exact .updateInput vs (of_decide_eq_true hc)
    · exact .same _
  case setStreetProcessingOfTask id state =>
    rw [perform, update_row h, Option.some.injEq] at h'
    subst h'
    split
    · rename_i hc
      exact .setStreetProcessing id state (of_decide_eq_true hc)
    · exact .same _
  case updateMembershipUploadOfTask id upload =>
    rw [perform, update_row h, Option.some.injEq] at h'
    subst h'
    split
    · rename_i hc
      exact .updateMembershipUpload id upload (of_decide_eq_true hc)
    · exact .same _
  case raiseStage stage =>
    simp only [perform, World.require, h] at h'
    cases h'
    exact .raiseStage stage
  case markEndNotified =>
    simp only [perform, h] at h'
    split at h' <;> simp only [h, Option.some.injEq] at h' <;> subst h'
    · exact .markEndNotified
    · exact .same _
  case markQueued | markCancelled | claim | sweep | deleteJob =>
    simp only [perform, h] at h'
    split at h' <;> simp only [h, Option.some.injEq, reduceCtorEq] at h' <;> subst h' <;>
      exact .same _
  case markStartFailed | markPending | finish =>
    rw [perform, update_row h, Option.some.injEq] at h'
    subst h'
    split <;> exact .same _
  case submitJob | receive | replaceFile | removeFile | sendMail =>
    simp only [perform, World.enqueue, World.setDisk] at h'
    split at h' <;> try split at h'
    all_goals
      simp only [h, apply_ite World.row, ite_self, Option.some.injEq] at h'
      subst h'
      exact .same _
  all_goals
    simp only [perform, World.pulled, World.uploaded, World.deleted, World.setDisk, World.setMemory,
      h, Option.some.injEq] at h'
    subst h'
    exact .same _

/-- The operation may write the row. -/
def Op.writesRow : Op → Bool
  | .writeRow _ | .updateColumns _ | .updateInput _ | .setStreetProcessingOfTask .. => true
  | .updateMembershipUploadOfTask .. | .raiseStage _ | .markEndNotified | .markQueued => true
  | .markStartFailed | .markCancelled | .markPending | .claim | .finish .. | .sweep => true
  | .deleteJob _ => true
  | _ => false

theorem exec_row_of_not_writesRow (h : o.writesRow = false) : (exec o c w).2.row = w.row := by
  rcases hf : o.fault c with _ | e
  case some => rw [exec_of_fault hf, interrupted_row]
  rw [exec_of_no_fault hf]
  cases o
  case loadRow | submitJob | receive | replaceFile | removeFile | sendMail =>
    simp only [perform, World.enqueue, World.setDisk]
    split <;> (try split) <;> (try split) <;> rfl
  all_goals first | rfl | cases h

/-- Only a save makes a row. -/
theorem exec_row_new {r' : Row} (h : w.row = none) (h' : (exec o c w).2.row = some r') :
    ∃ columns, o = .writeRow columns ∧ r' = ⟨.pending, false, false, none, columns⟩ := by
  rcases hf : o.fault c with _ | e
  case some =>
    rw [exec_of_fault hf, interrupted_row, h] at h'
    cases h'
  by_cases ho : o.writesRow = false
  · rw [exec_row_of_not_writesRow ho, h] at h'
    cases h'
  rw [exec_of_no_fault hf] at h'
  cases o
  case writeRow columns =>
    simp only [perform, h, Option.some.injEq] at h'
    exact ⟨columns, rfl, h'.symm⟩
  all_goals
    first
      | exact absurd rfl ho
      | simp [perform, World.update, World.require, h] at h'

/-- A save may make a row anew and a deletion of the job removes it. -/
theorem exec_row_isSome (hw : ∀ columns, o ≠ .writeRow columns) (hd : ∀ pod, o ≠ .deleteJob pod) :
    (exec o c w).2.row.isSome = w.row.isSome := by
  rcases hf : o.fault c with _ | e
  case some => rw [exec_of_fault hf, interrupted_row]
  rw [exec_of_no_fault hf]
  cases o
  case writeRow columns => exact absurd rfl (hw columns)
  case deleteJob pod => exact absurd rfl (hd pod)
  case updateColumns | raiseStage =>
    simp only [perform, World.require]
    split <;> simp [*]
  case updateInput | setStreetProcessingOfTask | updateMembershipUploadOfTask | markStartFailed |
      markPending | finish =>
    simp only [perform, World.update]
    split <;> (try split) <;> simp [*]
  case loadRow | markEndNotified | markQueued | markCancelled | sweep | claim | submitJob |
      receive | replaceFile | removeFile | sendMail =>
    simp only [perform, World.enqueue, World.setDisk]
    split <;> (try split) <;> (try split) <;> simp [*]
  all_goals rfl

section

variable {e : Event machine} {r r' : Row}

/-- What an allowed step has done. -/
theorem after_of_allowed (h : e.Allowed) : ∃ c, (exec e.call.op c e.before).2 = e.after :=
  h.imp fun _ hex => congrArg Prod.snd hex

theorem row_of_not_writesRow (h : e.Allowed) (hop : e.call.op.writesRow = false) :
    e.after.row = e.before.row := by
  obtain ⟨c, hafter⟩ := after_of_allowed h
  rw [← hafter]
  exact exec_row_of_not_writesRow hop

theorem columnsStep_of_allowed (h : e.Allowed) (hb : e.before.row = some r)
    (ha : e.after.row = some r') : ColumnsStep r e.call.op r'.columns := by
  obtain ⟨c, hafter⟩ := after_of_allowed h
  exact exec_columns_cases hb (hafter ▸ ha)

/-- A step that changes the columns was answered. -/
theorem ok_of_columns_ne (h : e.Allowed) (hb : e.before.row = some r)
    (ha : e.after.row = some r') (hne : r'.columns ≠ r.columns) : ∃ a, e.call.ans = .ok a := by
  obtain ⟨c, hex⟩ := h
  rcases hans : e.call.ans with f | a
  · have herr : (exec e.call.op c e.before).1 = .error f := (congrArg Prod.fst hex).trans hans
    have hrow := exec_error_row herr
    rw [congrArg Prod.snd hex, hb] at hrow
    change e.after.row = some r at hrow
    rw [ha, Option.some.injEq] at hrow
    exact absurd (congrArg Row.columns hrow) hne
  · exact ⟨a, rfl⟩

/-- A call that did not fail has answered. -/
theorem answered_of_ok {c : Call sig} {o : Op} (hop : c.op = o) (h : ∃ a, c.ans = .ok a) :
    ∃ a, c = answered o a := by
  obtain ⟨o', r⟩ := c
  obtain rfl : o' = o := hop
  obtain ⟨a, ha⟩ := h
  exact ⟨a, congrArg _ ha⟩

/-- What an answered step has done. -/
theorem after_of_answered {o : Op} {a : o.Ans} (h : e.Allowed) (hc : e.call = answered o a) :
    ∃ c, perform o c e.before = (.ok a, e.after) := by
  obtain ⟨t, call, before, after⟩ := e
  cases hc
  obtain ⟨c, hex⟩ := h
  exact ⟨c, (exec_ok (congrArg Prod.fst hex)).symm.trans hex⟩

/-- A call that fails leaves the row alone. -/
theorem row_of_error {f : Fault} (h : e.Allowed) (hf : e.call.ans = .error f) :
    e.after.row = e.before.row := by
  obtain ⟨c, hex⟩ := h
  have hafter : (exec e.call.op c e.before).2 = e.after := congrArg Prod.snd hex
  rw [← hafter]
  exact exec_error_row ((congrArg Prod.fst hex).trans hf)

/-- A step that makes a row is a save. -/
theorem row_new_of_allowed (h : e.Allowed) (hb : e.before.row = none)
    (ha : e.after.row = some r') : ∃ columns, e.call = answered (.writeRow columns) () ∧
      r' = ⟨.pending, false, false, none, columns⟩ := by
  obtain ⟨c, hafter⟩ := after_of_allowed h
  obtain ⟨columns, hop, hr'⟩ := exec_row_new hb (hafter ▸ ha)
  refine ⟨columns, ?_, hr'⟩
  rcases hans : e.call.ans with f | a
  · rw [row_of_error h hans, hb] at ha
    cases ha
  · obtain ⟨a, hc⟩ := answered_of_ok hop ⟨a, hans⟩
    exact hc

/-- A write of columns that answers has put them into the row. -/
theorem row_of_updateColumns {vs : List ColumnValue} (h : e.Allowed)
    (hc : e.call = answered (.updateColumns vs) ()) :
    ∃ row, e.before.row = some row ∧ e.after.row = some (row.putAll vs) := by
  obtain ⟨c, hafter⟩ := after_of_answered h hc
  obtain ⟨row, hrow, hw⟩ := require_ok hafter
  exact ⟨row, hrow, by rw [hw]⟩

/-- A write of the input that applies puts its columns into the row. -/
theorem row_of_updateInput_true {vs : List ColumnValue} (h : e.Allowed)
    (hc : e.call = answered (.updateInput vs) true) :
    ∃ row, e.before.row = some row ∧ row.status = .pending ∧
      e.after.row = some (row.putAll vs) := by
  obtain ⟨c, hafter⟩ := after_of_answered h hc
  obtain ⟨row, hrow, hpending, hw⟩ := update_true hafter
  exact ⟨row, hrow, of_decide_eq_true hpending, by rw [hw]⟩

/-- A write of the input that is refused leaves everything alone. -/
theorem after_of_updateInput_false {vs : List ColumnValue} (h : e.Allowed)
    (hc : e.call = answered (.updateInput vs) false) : e.after = e.before := by
  obtain ⟨c, hafter⟩ := after_of_answered h hc
  exact (update_false hafter).1

/-- A write of the input applies, or leaves the row alone. -/
theorem row_of_updateInput {vs : List ColumnValue} (h : e.Allowed)
    (hop : e.call.op = .updateInput vs) :
    (e.call = answered (.updateInput vs) true ∧
        ∃ row, e.before.row = some row ∧ e.after.row = some (row.putAll vs)) ∨
      e.call ≠ answered (.updateInput vs) true ∧ e.after.row = e.before.row := by
  obtain ⟨t, ⟨o, ans⟩, before, after⟩ := e
  obtain rfl : o = .updateInput vs := hop
  rcases ans with f | _ | _
  · exact .inr ⟨(fun hc => by cases hc), row_of_error h rfl⟩
  · exact .inr ⟨(fun hc => by cases hc), congrArg World.row (after_of_updateInput_false h rfl)⟩
  · obtain ⟨row, hrow, -, hafter⟩ := row_of_updateInput_true h rfl
    exact .inl ⟨rfl, row, hrow, hafter⟩

/-- A load shows the row. -/
theorem row_of_loaded {row : Row} (h : e.Allowed) (hc : e.call = answered .loadRow row) :
    e.before.row = some row ∧ e.after.row = some row := by
  obtain ⟨c, hafter⟩ := after_of_answered h hc
  simp only [perform] at hafter
  split at hafter
  · rename_i r hr
    simp only [Prod.mk.injEq, Except.ok.injEq] at hafter
    rw [← hafter.2, hr, hafter.1]
    exact ⟨rfl, rfl⟩
  · simp at hafter

end

/-! ## Object storage -/

/-- What an operation can do to the stored files. -/
inductive StoredStep (w : World) : Op → Files → Prop
  | same (o : Op) : StoredStep w o w.stored
  | upload (pod fs) : StoredStep w (.uploadWorkDir pod) ((w.disk pod).upload w.stored fs)
  | delete (pod names) (fs : FileName → Bool) : (∀ f, fs f = true → f ∈ names) →
      StoredStep w (.deleteFiles pod names) (w.stored.delete fs)
  | deleteJob (pod) : StoredStep w (.deleteJob pod) (w.stored.delete fun _ => true)

/-- **What a step can do to the stored files.** -/
theorem exec_stored_cases (o : Op) (c : Choice) (w : World) :
    StoredStep w o (exec o c w).2.stored := by
  rcases hf : o.fault c with _ | e
  case some =>
    rw [exec_of_fault hf]
    cases o
    case uploadWorkDir pod => exact .upload pod _
    case deleteFiles pod fs => exact .delete pod fs _ fun f hf => (by simpa using hf : _ ∧ _).1
    case submitJob =>
      simp only [interrupted]
      split <;> exact .same _
    all_goals exact .same _
  rw [exec_of_no_fault hf]
  cases o
  case uploadWorkDir pod => exact .upload pod _
  case deleteFiles pod fs => exact .delete pod fs _ fun f hf => by simpa using hf
  case deleteJob pod =>
    rcases hr : w.row with _ | r <;> simp only [perform, hr]
    · exact .same _
    · split
      · exact .same _
      · exact .deleteJob pod
  case updateColumns | raiseStage =>
    simp only [perform, World.require]
    split <;> exact .same _
  case updateInput | setStreetProcessingOfTask | updateMembershipUploadOfTask | markStartFailed |
      markPending | finish =>
    simp only [perform, World.update]
    split <;> (try split) <;> exact .same _
  case loadRow | writeRow | markEndNotified | markQueued | markCancelled | sweep | claim |
      replaceFile | removeFile | submitJob | receive | sendMail =>
    simp only [perform]
    split <;> (try split) <;> (try split) <;> exact .same _
  all_goals exact .same _

theorem stored_of_uploaded {e : Event machine} (he : e.Allowed) {pod : ℕ}
    (hc : e.call = answered (.uploadWorkDir pod) ()) (f : FileName) :
    e.after.stored f = (e.before.disk pod).upload e.before.stored (fun _ => true) f := by
  obtain ⟨c, hafter⟩ := after_of_answered he hc
  simp only [perform, Prod.mk.injEq, true_and] at hafter
  rw [← hafter]
  rfl

/-! ## Work dirs and processes -/

/-- The pod whose work dir or processes the operation works on. -/
def Op.pod? : Op → Option ℕ
  | .deleteJob pod | .pullWorkDir pod | .pullFile pod _ | .uploadWorkDir pod => some pod
  | .deleteFiles pod _ | .fileExists pod _ | .mtime pod _ | .readFile pod _ => some pod
  | .replaceFile pod _ | .removeFile pod _ | .globPlots pod => some pod
  | .openFile s _ | .writeFile s _ _ | .cachedChecksum s _ | .cacheChecksum s .. => some s.pod
  | .cachedFeatures s _ | .cacheFeatures s .. | .newFeatures s _ | .getFeatures s _ => some s.pod
  | .addTooltips s _ | .pipeline s => some s.pod
  | _ => none

@[simp] theorem setDisk_disk_of_ne {pod q : ℕ} {d : Files} (h : pod ≠ q) :
    (w.setDisk pod d).disk q = w.disk q := Function.update_of_ne h.symm _ _

@[simp] theorem setDisk_disk_self {pod : ℕ} {d : Files} : (w.setDisk pod d).disk pod = d :=
  Function.update_self ..

@[simp] theorem setMemory_memory_self {s : Site} {m : Memory} :
    (w.setMemory s m).memory (s.pod, s.proc) = m := Function.update_self ..

theorem setMemory_memory_other {s : Site} {m : Memory} {q : ℕ × ℕ} (h : q ≠ (s.pod, s.proc)) :
    (w.setMemory s m).memory q = w.memory q := Function.update_of_ne h _ _

@[simp] theorem setMemory_memory_of_ne {s : Site} {m : Memory} {q : ℕ × ℕ} (h : s.pod ≠ q.1) :
    (w.setMemory s m).memory q = w.memory q :=
  setMemory_memory_other fun hq => h (by rw [hq])

/-- The operation may change the local file `f` on the pod. -/
def Op.touches (pod : ℕ) (f : FileName) : Op → Bool
  | .deleteJob q | .pullWorkDir q => q = pod
  | .pullFile q g | .removeFile q g => q = pod ∧ g = f
  | .openFile s g | .writeFile s g _ => s.pod = pod ∧ g = f
  | .deleteFiles q fs => q = pod ∧ f ∈ fs
  | .replaceFile q s => q = pod ∧ (f = .street s ∨ f = .streetTmp s)
  | .pipeline s => s.pod = pod ∧ f = .solution
  | _ => false

theorem setDisk_disk_apply {pod q : ℕ} {d : Files} {f : FileName}
    (h : q = pod → d f = w.disk q f) : (w.setDisk q d).disk pod f = w.disk pod f := by
  by_cases hq : q = pod
  · subst hq
    rw [setDisk_disk_self, h rfl]
  · rw [setDisk_disk_of_ne hq]

/-- A pull leaves the files alone that it was not asked for. -/
theorem pull_other {d d' : Files} {fs : FileName → Bool} {time : FileName → ℕ} {f : FileName}
    (h : fs f = false) : d.pull d' fs time f = d f := by
  simp [Files.pull, h]

/-- **An operation changes no local file but those it touches.** -/
theorem exec_disk_of_not_touches {pod : ℕ} {f : FileName} (h : o.touches pod f = false) :
    (exec o c w).2.disk pod f = w.disk pod f := by
  rcases hf : o.fault c with _ | e
  case some =>
    rw [exec_of_fault hf]
    cases o
    case pullWorkDir q =>
      exact setDisk_disk_apply fun hq => absurd hq (of_decide_eq_false h)
    case pullFile q g =>
      refine setDisk_disk_apply fun hq => pull_other ?_
      have hg : f ≠ g := fun hg => of_decide_eq_false h ⟨hq, hg.symm⟩
      simp [hg]
    case deleteFiles q fs =>
      refine setDisk_disk_apply fun hq => Files.delete_other _ _ _ ?_
      have hfs : f ∉ fs := fun hfs => of_decide_eq_false h ⟨hq, hfs⟩
      simp [hfs]
    case submitJob => simp only [interrupted]; split <;> rfl
    all_goals rfl
  rw [exec_of_no_fault hf]
  cases o
  case deleteJob q =>
    simp only [perform]
    split
    · split
      · rfl
      · exact setDisk_disk_apply fun hq => absurd hq (of_decide_eq_false h)
    · rfl
  case pullWorkDir q =>
    exact setDisk_disk_apply fun hq => absurd hq (of_decide_eq_false h)
  case pullFile q g =>
    refine setDisk_disk_apply fun hq => pull_other ?_
    have hg : f ≠ g := fun hg => of_decide_eq_false h ⟨hq, hg.symm⟩
    simp [hg]
  case deleteFiles q fs =>
    refine setDisk_disk_apply fun hq => Files.delete_other _ _ _ ?_
    have hfs : f ∉ fs := fun hfs => of_decide_eq_false h ⟨hq, hfs⟩
    simp [hfs]
  case openFile s g | writeFile s g doc =>
    exact setDisk_disk_apply fun hq =>
      Files.write_other _ _ _ _ fun hg => of_decide_eq_false h ⟨hq, hg.symm⟩
  case pipeline s =>
    exact setDisk_disk_apply fun hq =>
      Files.write_other _ _ _ _ fun hg => of_decide_eq_false h ⟨hq, hg⟩
  case replaceFile q s =>
    simp only [perform]
    split
    · apply setDisk_disk_apply
      intro hq
      have hs := not_or.1 fun hs => of_decide_eq_false h ⟨hq, hs⟩
      rw [Files.write_other _ _ _ _ hs.1, Files.remove_other _ _ _ hs.2]
    · rfl
  case removeFile q g =>
    simp only [perform]
    split
    · apply setDisk_disk_apply
      intro hq
      have hg : f ≠ g := fun hg => of_decide_eq_false h ⟨hq, hg.symm⟩
      rw [Files.remove_other _ _ _ hg]
    · rfl
  case updateColumns | raiseStage =>
    simp only [perform, World.require]
    split <;> rfl
  case updateInput | setStreetProcessingOfTask | updateMembershipUploadOfTask | markStartFailed |
      markPending | finish =>
    simp only [perform, World.update]
    split <;> (try split) <;> rfl
  case loadRow | writeRow | markEndNotified | markQueued | markCancelled | sweep | claim |
      submitJob | receive | sendMail =>
    simp only [perform]
    split <;> (try split) <;> (try split) <;> rfl
  all_goals rfl

theorem disk_of_not_touches {e : Event machine} {pod : ℕ} {f : FileName} (h : e.Allowed)
    (hop : e.call.op.touches pod f = false) : e.after.disk pod f = e.before.disk pod f := by
  obtain ⟨c, hafter⟩ := after_of_allowed h
  rw [← hafter]
  exact exec_disk_of_not_touches hop

/-! ## Caches -/

/-- A checksum in a cache was there before, or the step has put it there. -/
theorem exec_checksums {process : ℕ × ℕ} {s : StreetFile} {entry : Mtime (.street s) × Sha256}
    (h : ((exec o c w).2.memory process).checksums s = some entry) :
    (w.memory process).checksums s = some entry ∨
      ∃ site, o = .cacheChecksum site s entry.1 entry.2 := by
  have hset : ∀ {site : Site} {m : Memory}, m.checksums = (w.memoryOf site).checksums →
      ((w.setMemory site m).memory process).checksums s = some entry →
      (w.memory process).checksums s = some entry := by
    intro site m hm h
    by_cases hp : process = (site.pod, site.proc)
    · subst hp
      rw [setMemory_memory_self, hm] at h
      exact h
    · rwa [setMemory_memory_other hp] at h
  rcases hf : o.fault c with _ | e
  case some =>
    rw [exec_of_fault hf] at h
    cases o
    case submitJob =>
      simp only [interrupted] at h
      split at h <;> exact .inl h
    all_goals exact .inl h
  rw [exec_of_no_fault hf] at h
  cases o
  case cacheChecksum site s' mtime sha256 =>
    by_cases hp : process = (site.pod, site.proc)
    · subst hp
      simp only [perform, setMemory_memory_self] at h
      by_cases hs : s' = s
      · subst hs
        rw [Function.update_self, Option.some.injEq] at h
        exact .inr ⟨site, by rw [← h]⟩
      · rw [Function.update_of_ne (Ne.symm hs)] at h
        exact .inl h
    · simp only [perform, setMemory_memory_other hp] at h
      exact .inl h
  case cacheFeatures site _ _ _ | newFeatures site _ | addTooltips site _ =>
    simp only [perform] at h
    refine .inl (hset ?_ h)
    rfl
  case updateColumns | raiseStage =>
    simp only [perform, World.require] at h
    split at h <;> exact .inl h
  case updateInput | setStreetProcessingOfTask | updateMembershipUploadOfTask | markStartFailed |
      markPending | finish =>
    simp only [perform, World.update] at h
    split at h <;> (try split at h) <;> exact .inl h
  case loadRow | writeRow | markEndNotified | markQueued | markCancelled | sweep | claim |
      deleteJob | submitJob | receive | replaceFile | removeFile | sendMail =>
    simp only [perform] at h
    split at h <;> (try split at h) <;> (try split at h) <;> exact .inl h
  all_goals exact .inl h

end Cosmonaut
