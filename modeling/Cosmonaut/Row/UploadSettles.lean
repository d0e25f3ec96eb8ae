import Cosmonaut.Interleaving.Execution
import Cosmonaut.Model.Requests

/-!
# A membership upload settles

How the upload of a membership file leaves the row when nothing else runs: whatever raises, it
should say that nothing is uploaded, that the construction of the road network has failed, or name a
task that was handed to the queue.

* `MembershipColumn.Settled` is what the row should say, `FailsBeforeSubmission` what must not
  happen.
* `upload_settled_iff`: the row is settled exactly if nothing raises between the write of the new
  upload and the submission of its task, provided that it was settled before or the deletion has
  reached it.
* `upload_stuck_pending`: an upload that is stuck.
-/

namespace Cosmonaut

open Interleaving Program

/-! ## What the row says -/

/-- Nothing is uploaded, or a file with a road network that has failed or is there, or with the id
of a task that was handed to the queue. -/
def MembershipColumn.Settled (handed : TaskId → Prop) (u : MembershipColumn) : Prop :=
  u.fileName = noFileUploaded ∨ u.streetProcessing = some .failed ∨
    u.streetProcessing = some .completed ∨ ∃ id, u.streetProcessing = some (.task id) ∧ handed id

def World.Settled (handed : TaskId → Prop) (w : World) : Prop :=
  ∀ row, w.row = some row → row.columns.membershipUpload.Settled handed

/-- A task was handed to the queue under the id. -/
def HandedOver (es : List (Event machine)) (id : TaskId) : Prop :=
  ∃ e ∈ es, ∃ task sent, e.call = answered (.submitJob task (some id)) (sent, false)

/-- The last call is a failing write of FAILED. -/
def FinalWriteFailed (es : List (Event machine)) : Prop :=
  ∃ l e vs u, es = l ++ [e] ∧ e.call.op = .updateColumns vs ∧ .membershipUpload u ∈ vs ∧
    u.streetProcessing = some .failed ∧ ∃ f, e.call.ans = .error f

/-- A write of the input has reached the row. -/
def InputWritten (es : List (Event machine)) : Prop :=
  ∃ e ∈ es, ∃ vs, e.call = answered (.updateInput vs) true

/-- The write of a new upload has reached the row. -/
def StoresUpload (e : Event machine) : Prop :=
  ∃ vs u, e.call = answered (.updateInput vs) true ∧ .membershipUpload u ∈ vs ∧
    u.fileName ≠ noFileUploaded

/-- The operation hands a task to the queue. -/
def Op.submits : Op → Bool
  | .submitJob .. => true
  | _ => false

/-- After the write of the new upload, the last call has raised, and no task was submitted. -/
def FailsBeforeSubmission (es : List (Event machine)) : Prop :=
  ∃ l write l' e, es = l ++ write :: (l' ++ [e]) ∧ StoresUpload write ∧
    (∃ f, e.call.ans = .error f) ∧ ∀ a ∈ l' ++ [e], a.call.op.submits = false

section

variable [External]

/-- `_handle_membership_upload` of any request: one without a file is ignored, one with an invalid
EPSG code is refused. -/
def handleMembershipRequest (here : Site) (file : Option (Except String String))
    (epsgInput : Option ℤ) : App Unit :=
  match file, epsgInput with
  | none, _ => raise .preventUpdate
  | some _, none => return
  | some content, some epsgInput => handleMembershipUpload here content epsgInput

end

/-! ## Calls that leave the row alone -/

/-- The operation neither writes the row nor submits a task. -/
def Op.prepares (o : Op) : Bool := !o.writesRow && !o.submits

/-- The call has left the row alone: it only prepares, or is a write of the input that did not
apply. -/
def Ineffective (e : Event machine) : Prop :=
  e.call.op.prepares = true ∨
    ∃ vs, e.call.op = .updateInput vs ∧ e.call ≠ answered (.updateInput vs) true

section

variable {here : Site} {e : Event machine} {es : List (Event machine)} {w w' : World}

theorem prepares_of_isDisk {o : Op} (h : o.isDisk here = true) : o.prepares = true := by
  cases o <;> first | rfl | cases h

theorem row_of_prepares (h : e.Allowed) (ho : e.call.op.prepares = true) :
    e.after.row = e.before.row := by
  simp only [Op.prepares, Bool.and_eq_true, Bool.not_eq_true'] at ho
  exact row_of_not_writesRow h ho.1

theorem ineffective_of_not_true {vs : List ColumnValue} {ans : Except Fault Bool}
    (hc : e.call = ⟨.updateInput vs, ans⟩) (hans : ans ≠ .ok true) : Ineffective e := by
  refine .inr ⟨vs, congrArg Call.op hc, fun hne => hans ?_⟩
  rw [hc] at hne
  cases hne
  rfl

theorem Ineffective.row (h : Ineffective e) (he : e.Allowed) : e.after.row = e.before.row := by
  rcases h with h | ⟨vs, hop, hne⟩
  · exact row_of_prepares he h
  · rcases row_of_updateInput he hop with ⟨hc, -⟩ | ⟨-, hrow⟩
    · exact absurd hc hne
    · exact hrow

/-- Calls that leave the row alone. -/
theorem row_of_ineffective (hw : Chain w es w') (h : ∀ e ∈ es, Ineffective e) : w'.row = w.row :=
  hw.preserves fun e he hallowed => (h e he).row hallowed

theorem Ineffective.submits (h : Ineffective e) : e.call.op.submits = false := by
  rcases h with h | ⟨vs, hop, -⟩
  · simp only [Op.prepares, Bool.and_eq_true, Bool.not_eq_true'] at h
    exact h.2
  · rw [hop]
    rfl

theorem Ineffective.not_written (h : Ineffective e) (vs : List ColumnValue) :
    e.call ≠ answered (.updateInput vs) true := by
  rcases h with h | ⟨vs', hop, hne⟩
  · intro hc
    rw [hc] at h
    cases h
  · intro hc
    have hvs : Op.updateInput vs = .updateInput vs' := (congrArg Call.op hc).symm.trans hop
    obtain rfl := Op.updateInput.inj hvs
    exact hne hc

theorem Ineffective.not_updateColumns (h : Ineffective e) (vs : List ColumnValue) :
    e.call.op ≠ .updateColumns vs := by
  intro hc
  rcases h with h | ⟨vs', hop, -⟩
  · rw [hc] at h
    cases h
  · rw [hop] at hc
    cases hc

end

/-! ## Programs that end in a write of the input -/

section

variable {α β : Type} {W : α → Event machine → Prop} {here : Site}

/-- The program returns right after a write of the input that applied, and before it, or when it
raises, it leaves the row alone. -/
def EndsIn (W : α → Event machine → Prop) (p : App α) : Prop :=
  ∀ es r, p.Executes es r →
    (∃ a l e, r = .ok a ∧ es = l ++ [e] ∧ (∀ b ∈ l, Ineffective b) ∧ W a e) ∨
      (∃ x, r = .error x) ∧ ∀ b ∈ es, Ineffective b

theorem endsIn_raise (x : Err) : EndsIn W (raise x : App α) := by
  intro es r h
  obtain ⟨rfl, rfl⟩ := executes_throw.1 h
  exact .inr ⟨⟨x, rfl⟩, by simp⟩

theorem EndsIn.after {p : App β} {f : β → App α} (hp : Asks (fun o => o.prepares = true) p)
    (hf : ∀ b, EndsIn W (f b)) : EndsIn W (p >>= f) := by
  intro es r h
  rcases executes_bind.1 h with ⟨x, hx, rfl⟩ | ⟨b, l, l', rfl, hb, hrest⟩
  · exact .inr ⟨⟨x, rfl⟩, fun e he => .inl (hp.executes hx he)⟩
  have hl : ∀ e ∈ l, Ineffective e := fun e he => .inl (hp.executes hb he)
  rcases hf b l' r hrest with ⟨a, l', e, rfl, rfl, hl', he⟩ | ⟨hr, hl'⟩
  · refine .inl ⟨a, l ++ l', e, rfl, by simp, fun e' he' => ?_, he⟩
    rcases List.mem_append.1 he' with he' | he'
    · exact hl e' he'
    · exact hl' e' he'
  · refine .inr ⟨hr, fun e he => ?_⟩
    rcases List.mem_append.1 he with he | he
    · exact hl e he
    · exact hl' e he

/-- **The write itself.** -/
theorem endsIn_requireInput (job : JobModel) (fields : List Field) (a : α)
    (hW : ∀ e, e.Allowed → e.call = answered (.updateInput (job.columns fields)) true → W a e) :
    EndsIn W (do CosmonautJob.requireInput job fields; return a) := by
  intro es r h
  rw [CosmonautJob.requireInput, CosmonautJob.updateInput, bind_assoc] at h
  rcases executes_call_bind h with ⟨e, f, rfl, hallowed, hc, rfl⟩ |
    ⟨e, es', b, rfl, hallowed, hc, h⟩
  · refine .inr ⟨⟨_, rfl⟩, fun e' he' => ?_⟩
    rw [List.mem_singleton.1 he']
    exact ineffective_of_not_true hc (by simp)
  cases b with
  | true =>
    obtain ⟨rfl, rfl⟩ := executes_ret.1 h
    exact .inl ⟨a, [], e, rfl, rfl, by simp, hW e hallowed hc⟩
  | false =>
    obtain ⟨rfl, rfl⟩ := executes_throw.1 h
    refine .inr ⟨⟨_, rfl⟩, fun e' he' => ?_⟩
    rw [List.mem_singleton.1 he']
    exact ineffective_of_not_true hc (by simp)

/-- The write of a deletion. -/
def DeletionWrites (job : JobModel) (e : Event machine) : Prop :=
  job.membershipUpload = defaultMembershipUpload ∧ e.call = answered
    (.updateInput (job.columns [.membershipUpload, .predictorUpload, .streetEdits])) true

theorem asks_prepares {o : Op} (h : o.prepares = true) :
    Asks (fun o => o.prepares = true) (ask o) :=
  asks_ask h

/-- **A deletion returns once it is in the row.** -/
theorem deleteMembership_endsIn (job : JobModel) :
    EndsIn DeletionWrites (CosmonautJob.deleteMembership here job) := by
  have hrest : EndsIn DeletionWrites (do
      let plotFiles ← ask (.globPlots here.pod)
      ask (.deleteFiles here.pod
        (CosmonautJob.membershipFiles ++ plotFiles ++ [.membershipTif]))
      let job := CosmonautJob.withoutMembership job
      CosmonautJob.requireInput job [.membershipUpload, .predictorUpload, .streetEdits]
      return job) :=
    .after (asks_prepares rfl) fun _ => .after (asks_prepares rfl) fun _ =>
      endsIn_requireInput _ _ _ fun e _ hc => ⟨rfl, hc⟩
  unfold CosmonautJob.deleteMembership
  split
  · exact .after (asks_prepares rfl) fun _ => hrest
  · exact hrest

section

variable [External]

/-- The write of a new upload. -/
def UploadWrites (a : JobModel × Option (Point × Point) × DataFrame) (e : Event machine) : Prop :=
  (∃ len bounds, a.1.membershipUpload = CosmonautJob.uploadedMembership len bounds) ∧
    e.call = answered (.updateInput (a.1.columns [.membershipUpload, .epsg])) true

/-- **An upload returns once it is in the row.** -/
theorem uploadMembership_endsIn (job : JobModel) (content : Except String String) (epsg : ℤ) :
    EndsIn UploadWrites (CosmonautJob.uploadMembership here job content epsg) := by
  have hdisk : ∀ {γ : Type} {p : App γ}, OnDisk here p → Asks (fun o => o.prepares = true) p :=
    fun h => (h.mono fun _ => prepares_of_isDisk).always
  have htransform : Asks (fun o => o.prepares = true)
      (tryValueError (CosmonautJob.transformMembership here epsg) fun message => do
        ask (.removeFile here.pod .memberships)
        raise (.fileValidation message)) := by
    refine .tryCatch (hdisk (transformMembership_onDisk epsg)) fun e => ?_
    dsimp only
    split
    · exact .bind (asks_prepares rfl) fun _ => trivial
    · trivial
  have hstore : EndsIn UploadWrites (CosmonautJob.storeMembership here job content epsg) := by
    refine .after (calls_decodeUpload (P := fun o => o.prepares = true) content).always
      fun decoded =>
      .after (hdisk (rewriteFile_onDisk _ _)) fun _ =>
      .after (hdisk parseMembership_onDisk) fun df => .after htransform fun data => ?_
    dsimp only
    rw [CosmonautJob.saveInput, bind_assoc]
    exact .after (asks_prepares rfl) fun _ =>
      endsIn_requireInput _ _ _ fun e _ hc => ⟨⟨_, _, rfl⟩, hc⟩
  refine .after (asks_prepares rfl) fun _ => .after (asks_prepares rfl) fun stale => ?_
  split
  · exact .after (asks_prepares rfl) fun _ => hstore
  · exact hstore

/-- An upload that is tried ends in its write, or is rejected or raises and leaves the row alone. -/
theorem tryUploadMembership_cases {job : JobModel} {content : Except String String} {epsg : ℤ}
    {es : List (Event machine)}
    {r : Except Err (Option (JobModel × Option (Point × Point) × DataFrame))}
    (h : (tryUploadMembership here job content epsg).Executes es r) :
    (∃ a l e, r = .ok (some a) ∧ es = l ++ [e] ∧ (∀ b ∈ l, Ineffective b) ∧ UploadWrites a e) ∨
      (r = .ok none ∨ ∃ x, r = .error x) ∧ ∀ b ∈ es, Ineffective b := by
  rcases executes_tryCatch.1 h with ⟨a, hok, rfl⟩ | ⟨x, l, l', rfl, hx, hhandler⟩
  · rw [map_eq_pure_bind] at hok
    rcases executes_bind.1 hok with ⟨x, -, hr⟩ | ⟨b, l, l', rfl, hb, hr⟩
    · cases hr
    obtain ⟨rfl, hr⟩ := executes_ret.1 hr
    cases hr
    rcases uploadMembership_endsIn _ _ _ _ _ hb with ⟨c, l, e, hc, rfl, hl, he⟩ | ⟨⟨x, hx⟩, -⟩
    · cases hc
      exact .inl ⟨_, l, e, rfl, by simp, hl, he⟩
    · cases hx
  · rw [map_eq_pure_bind] at hx
    rcases executes_bind.1 hx with ⟨y, hy, hxy⟩ | ⟨b, l, l', rfl, hb, hr⟩
    case inr =>
      obtain ⟨-, hr⟩ := executes_ret.1 hr
      cases hr
    rcases uploadMembership_endsIn _ _ _ _ _ hy with ⟨c, l, e, hc, -⟩ | ⟨-, hl⟩
    · cases hc
    split at hhandler
    · obtain ⟨rfl, rfl⟩ := executes_ret.1 hhandler
      exact .inr ⟨.inl rfl, by simpa using hl⟩
    · obtain ⟨rfl, rfl⟩ := executes_throw.1 hhandler
      exact .inr ⟨.inr ⟨_, rfl⟩, by simpa using hl⟩

end

/-! ## The submission -/

/-- `_handle_membership_upload` from the plot to the drawing of the task's id. -/
def preparePlot (here : Site) (raster : FileName.membershipTif.Doc) : App TaskId := do
  rewriteFile here .membershipTif raster
  ask (.uploadWorkDir here.pod)
  let _ ← ask (.fileExists here.pod .membershipTif)
  ask .uuid4

/-- The submission of a named task, and what its failure leads to. -/
def sendUpload (job : JobModel) (taskId : TaskId) (epsgInput : ℤ) : App Unit := do
  let (_, failed) ← tryExcept (ask (.submitJob (.upload epsgInput) (some taskId))) fun e => do
    endUploadFailed job
    raise e
  if failed then
    endUploadFailed job

theorem preparePlot_straight (raster : FileName.membershipTif.Doc) :
    (preparePlot here raster).Straight .fault machine :=
  .bind (.bind (straight_call _) fun _ => straight_call _) fun _ => .bind (straight_call _) fun _ =>
    .bind (straight_call _) fun _ => straight_call _

theorem preparePlot_prepares (raster : FileName.membershipTif.Doc) :
    Asks (fun o => o.prepares = true) (preparePlot here raster) :=
  .bind (.bind (asks_prepares rfl) fun _ => asks_prepares rfl) fun _ =>
    .bind (asks_prepares rfl) fun _ => .bind (asks_prepares rfl) fun _ => asks_prepares rfl

theorem submitUpload_eq (job : JobModel) (epsgInput : ℤ) (raster : FileName.membershipTif.Doc) :
    (do rewriteFile here .membershipTif raster
        ask (.uploadWorkDir here.pod)
        let _ ← ask (.fileExists here.pod .membershipTif)
        submitUpload job epsgInput) =
      (do let taskId ← preparePlot here raster
          let job := withStreetProcessing job (.task taskId)
          CosmonautJob.updateColumns job [.membershipUpload]
          sendUpload job taskId epsgInput) := by
  simp only [preparePlot, bind_assoc]
  rfl

/-- The write of FAILED. -/
theorem endUploadFailed_cases {job : JobModel} {es : List (Event machine)} {r : Except Err Unit}
    (h : (endUploadFailed job).Executes es r) :
    ∃ e, es = [e] ∧ e.call.op = .updateColumns
        ((withStreetProcessing job .failed).columns [.membershipUpload]) ∧
      ((∃ row, e.after.row = some row ∧
          row.columns.membershipUpload.streetProcessing = some .failed) ∨
        ∃ f, e.call.ans = .error f) := by
  obtain ⟨e, rfl, hallowed, ⟨⟨⟩, hc, -⟩ | ⟨f, hc, -⟩⟩ := executes_call h
  · obtain ⟨row, -, hafter⟩ := row_of_updateColumns hallowed hc
    exact ⟨e, rfl, congrArg Call.op hc, .inl ⟨_, hafter, rfl⟩⟩
  · exact ⟨e, rfl, congrArg Call.op hc, .inr ⟨f, by rw [hc]⟩⟩

/-- **How a submission ends**: the task is handed to the queue, or FAILED is written. -/
theorem sendUpload_cases {job : JobModel} {id : TaskId} {epsg : ℤ} {es : List (Event machine)}
    {r : Except Err Unit} (h : (sendUpload job id epsg).Executes es r)
    (hkilled : r ≠ .error (.fault .killed)) :
    ∃ e rest, es = e :: rest ∧ e.Allowed ∧ e.call.op = .submitJob (.upload epsg) (some id) ∧
      ((rest = [] ∧ ∃ sent, e.call = answered (.submitJob (.upload epsg) (some id)) (sent, false)) ∨
        ∃ r', (endUploadFailed job).Executes rest r') := by
  rcases executes_bind.1 h with ⟨x, hx, rfl⟩ | ⟨⟨sent, failed⟩, l, l', rfl, hsent, hrest⟩
  · rcases executes_tryCatch.1 hx with ⟨a, -, hr⟩ | ⟨y, l, l', rfl, hy, hhandler⟩
    · cases hr
    obtain ⟨e, rfl, hallowed, ⟨a, -, hr⟩ | ⟨f, hc, hr⟩⟩ := executes_call hy
    · cases hr
    refine ⟨e, l', rfl, hallowed, congrArg Call.op hc, .inr ?_⟩
    split at hhandler
    · rename_i hf
      obtain ⟨-, hr⟩ := executes_throw.1 hhandler
      rw [hf] at hr
      exact absurd hr (fun hr => hkilled (by cases hr; rfl))
    · rcases executes_bind.1 hhandler with ⟨z, hz, -⟩ | ⟨a, l, l', rfl, ha, hrest⟩
      · exact ⟨_, hz⟩
      · obtain ⟨rfl, -⟩ := executes_throw.1 hrest
        exact ⟨_, by simpa using ha⟩
  · rcases executes_tryCatch.1 hsent with ⟨a, ha, hr⟩ | ⟨y, l, l'', rfl, -, hhandler⟩
    · cases hr
      obtain ⟨e, rfl, hallowed, ⟨b, hc, hb⟩ | ⟨f, -, hf⟩⟩ := executes_call ha
      case inr => cases hf
      cases hb
      refine ⟨e, l', rfl, hallowed, congrArg Call.op hc, ?_⟩
      cases failed with
      | true => exact .inr ⟨_, hrest⟩
      | false =>
        obtain ⟨rfl, -⟩ := executes_ret.1 hrest
        exact .inl ⟨rfl, sent, hc⟩
    · split at hhandler
      · cases (executes_throw.1 hhandler).2
      · rcases executes_bind.1 hhandler with ⟨z, -, hr⟩ | ⟨a, l, l', rfl, -, hrest⟩
        · cases hr
        · cases (executes_throw.1 hrest).2

/-- A call that raises before the submission is no failing write of FAILED. -/
def RaisesEarly (es : List (Event machine)) : Prop :=
  (∀ a ∈ es, a.call.op.submits = false) ∧ ∃ l e, es = l ++ [e] ∧ (∃ f, e.call.ans = .error f) ∧
    ∀ vs u, e.call.op = .updateColumns vs → .membershipUpload u ∈ vs →
    u.streetProcessing ≠ some .failed

/-- The submission was reached, and nothing new was stored from there on. -/
def ReachesSubmission (es : List (Event machine)) : Prop :=
  ∃ l e rest, es = l ++ e :: rest ∧ e.call.op.submits = true ∧ ∀ a ∈ rest, ¬StoresUpload a

theorem not_storesUpload_of_updateColumns {e : Event machine} {vs : List ColumnValue}
    (h : e.call.op = .updateColumns vs) : ¬StoresUpload e := by
  rintro ⟨vs', u, hc, -⟩
  rw [hc] at h
  cases h

/-- **From the stored upload on**: a call raises before the submission and the row stays as it is,
or the submission is reached and settles the row. -/
theorem submission_cases {job : JobModel} {epsg : ℤ} {raster : FileName.membershipTif.Doc}
    {es : List (Event machine)} {r : Except Err Unit} {w w' : World}
    (h : Program.Executes (M := machine) (do
      rewriteFile here .membershipTif raster
      ask (.uploadWorkDir here.pod)
      let _ ← ask (.fileExists here.pod .membershipTif)
      submitUpload job epsg) es r) (hw : Chain w es w') (hkilled : r ≠ .error (.fault .killed)) :
    (RaisesEarly es ∧ w'.row = w.row) ∨
      ReachesSubmission es ∧ ((∃ row, w'.row = some row ∧
        row.columns.membershipUpload.Settled (HandedOver es)) ∨ FinalWriteFailed es) := by
  rw [submitUpload_eq] at h
  rcases executes_bind.1 h with ⟨x, hx, -⟩ | ⟨id, l, l', rfl, hid, hrest⟩
  · rcases preparePlot_straight _ es _ hx with ⟨⟨a, ha⟩, -⟩ | ⟨l, e, f, rfl, -, hf, -⟩
    · cases ha
    have hprepares : ∀ a ∈ l ++ [e], a.call.op.prepares = true :=
      fun a => (preparePlot_prepares _).executes hx
    refine .inl ⟨⟨fun a ha => (show Ineffective a from .inl (hprepares a ha)).submits, l, e, rfl,
      ⟨f, hf⟩, fun vs u hop _ => ?_⟩, row_of_ineffective hw fun a ha => .inl (hprepares a ha)⟩
    exact absurd hop ((show Ineffective e from .inl (hprepares e (by simp))).not_updateColumns vs)
  have hl : ∀ a ∈ l, Ineffective a := fun a ha => .inl ((preparePlot_prepares _).executes hid ha)
  obtain ⟨m, hwl, hwrest⟩ := chain_append.1 hw
  have hrow := row_of_ineffective hwl hl
  rcases executes_call_bind hrest with ⟨e, f, rfl, hallowed, hc, -⟩ |
    ⟨e, es', ⟨⟩, rfl, hallowed, hc, hsend⟩
  · have hop := congrArg Call.op hc
    obtain ⟨rfl, -, rfl⟩ := hwrest
    refine .inl ⟨⟨fun a ha => ?_, l, e, rfl, ⟨f, by rw [hc]⟩, fun vs u hvs hu => ?_⟩, ?_⟩
    · rcases List.mem_append.1 ha with ha | ha
      · exact (hl a ha).submits
      · rw [List.mem_singleton.1 ha, hop]
        rfl
    · obtain rfl := Op.updateColumns.inj (hop.symm.trans hvs)
      obtain rfl := ColumnValue.membershipUpload.inj (List.mem_singleton.1 hu)
      simp [JobModel.row, withStreetProcessing, MembershipUpload.column]
    · rw [row_of_error hallowed (f := f) (by rw [hc]), hrow]
  · obtain ⟨row, -, hnamed⟩ := row_of_updateColumns hallowed hc
    obtain ⟨s, rest, rfl, hsallowed, hsop, hsent⟩ := sendUpload_cases hsend hkilled
    obtain ⟨rfl, -, hsbefore, hs, hwrest⟩ := hwrest
    have hkept : s.after.row = e.after.row := by
      rw [← hsbefore]
      exact row_of_not_writesRow hs (by rw [hsop]; rfl)
    have heq : l ++ e :: s :: rest = (l ++ [e]) ++ s :: rest := by simp
    rcases hsent with ⟨rfl, sent, hsc⟩ | ⟨r', hfailed⟩
    · obtain rfl : s.after = w' := hwrest
      refine .inr ⟨⟨l ++ [e], s, [], heq, by rw [hsop]; rfl, by simp⟩,
        .inl ⟨_, hkept.trans hnamed, ?_⟩⟩
      exact .inr (.inr (.inr ⟨id, rfl, s, by simp, _, sent, hsc⟩))
    · obtain ⟨a, rfl, haop, hend⟩ := endUploadFailed_cases hfailed
      obtain ⟨-, -, rfl⟩ := hwrest
      refine .inr ⟨⟨l ++ [e], s, [a], heq, by rw [hsop]; rfl, ?_⟩, ?_⟩
      · simpa using not_storesUpload_of_updateColumns haop
      · rcases hend with ⟨row, hafter, hstate⟩ | hf
        · exact .inl ⟨row, hafter, .inr (.inl hstate)⟩
        · exact .inr ⟨l ++ [e, s], a, _, _, by simp, haop, List.mem_singleton.2 rfl, rfl, hf⟩

/-! ## The whole upload -/

section

variable {es pre : List (Event machine)}

theorem RaisesEarly.failsBeforeSubmission {u : Event machine} (h : RaisesEarly es)
    (hu : StoresUpload u) :
    FailsBeforeSubmission (pre ++ u :: es) := by
  obtain ⟨hsubmits, l, e, rfl, hf, -⟩ := h
  exact ⟨pre, u, l, e, rfl, hu, hf, hsubmits⟩

theorem RaisesEarly.not_finalWriteFailed (h : RaisesEarly es) : ¬FinalWriteFailed (pre ++ es) := by
  obtain ⟨-, l, e, rfl, -, hstate⟩ := h
  rintro ⟨l', e', vs, u, heq, hop, hu, hfailed, -⟩
  rw [← List.append_assoc] at heq
  obtain ⟨-, he⟩ := List.append_inj' heq rfl
  obtain rfl := List.singleton_inj.1 he
  exact hstate vs u hop hu hfailed

theorem ReachesSubmission.not_failsBefore (h : ReachesSubmission es) :
    ¬FailsBeforeSubmission (pre ++ es) := by
  obtain ⟨l, s, rest, rfl, hs, hrest⟩ := h
  rintro ⟨l₀, write, l', e, heq, hwrite, -, hsubmits⟩
  rw [← List.append_assoc] at heq
  rcases places heq with ⟨u, -, hr⟩ | ⟨-, rfl, -⟩ | ⟨u, -, hr⟩
  · exact hrest write (by rw [hr]; simp) hwrite
  · obtain ⟨vs, u, hc, -⟩ := hwrite
    rw [hc] at hs
    cases hs
  · have hno := hsubmits s (by rw [hr]; simp)
    rw [hs] at hno
    cases hno

theorem not_failsBefore_of_none (h : ∀ e ∈ es, ¬StoresUpload e) : ¬FailsBeforeSubmission es := by
  rintro ⟨l, write, l', e, rfl, hwrite, -⟩
  exact h write (by simp) hwrite

theorem Ineffective.not_storesUpload {e : Event machine} (h : Ineffective e) : ¬StoresUpload e := by
  rintro ⟨vs, u, hc, -⟩
  exact h.not_written vs hc

theorem HandedOver.append {id : TaskId} (h : HandedOver es id) : HandedOver (pre ++ es) id := by
  obtain ⟨e, he, hc⟩ := h
  exact ⟨e, List.mem_append_right _ he, hc⟩

theorem FinalWriteFailed.append (h : FinalWriteFailed es) : FinalWriteFailed (pre ++ es) := by
  obtain ⟨l, e, vs, u, rfl, h⟩ := h
  exact ⟨pre ++ l, e, vs, u, by simp, h⟩

theorem MembershipColumn.Settled.mono {handed handed' : TaskId → Prop} {u : MembershipColumn}
    (h : u.Settled handed) (hsub : ∀ id, handed id → handed' id) : u.Settled handed' := by
  rcases h with h | h | h | ⟨id, h, hid⟩
  · exact .inl h
  · exact .inr (.inl h)
  · exact .inr (.inr (.inl h))
  · exact .inr (.inr (.inr ⟨id, h, hsub id hid⟩))

end

section

variable [External] {content : Except String String} {epsg : ℤ} {es : List (Event machine)}
  {r : Except Err Unit} {w w' : World} {handed : TaskId → Prop}

/-- `_handle_membership_upload` up to the deletion of what was uploaded before. -/
def deleteBefore (here : Site) (epsgInput : ℤ) : App JobModel := do
  let job ← CosmonautJob.load
  if job.status ≠ .pending then
    raise .jobNotPending
  else
    CosmonautJob.deleteMembership here { job with epsg := epsgInput }

/-- `_handle_membership_upload` from there on. -/
def uploadNew (here : Site) (content : Except String String) (epsgInput : ℤ) (job : JobModel) :
    App Unit := do
  match ← tryUploadMembership here job content epsgInput with
  | none => return
  | some (job, _, membershipDf) =>
    rewriteFile here .membershipTif ⟨membershipDf, epsgInput⟩
    ask (.uploadWorkDir here.pod)
    let _ ← ask (.fileExists here.pod .membershipTif)
    submitUpload job epsgInput

theorem handleMembershipUpload_eq :
    handleMembershipUpload here content epsg =
      deleteBefore here epsg >>= uploadNew here content epsg := by
  rw [deleteBefore, bind_assoc]
  refine congrArg _ (funext fun job => ?_)
  split
  · rfl
  · rfl

theorem deleteBefore_endsIn : EndsIn DeletionWrites (deleteBefore here epsg) := by
  refine .after (.bind (asks_prepares rfl) fun _ => trivial) fun job => ?_
  split
  · exact endsIn_raise _
  · exact deleteMembership_endsIn _

/-- The row is settled in the end, a failure of the last write of FAILED aside, exactly if nothing
raises between a stored upload and its submission, and the row was settled before or written. -/
def SettlesExactly (handed : TaskId → Prop) (w w' : World) (es : List (Event machine)) : Prop :=
  (w'.Settled (fun id => handed id ∨ HandedOver es id) ∨ FinalWriteFailed es ↔
    ¬FailsBeforeSubmission es ∧ (w.Settled handed ∨ InputWritten es))

omit [External] in
/-- An upload that raises before it has written the row. -/
theorem settles_of_ineffective (hw : Chain w es w') (h : ∀ e ∈ es, Ineffective e) :
    SettlesExactly handed w w' es := by
  have hhanded : ∀ id, ¬HandedOver es id := by
    rintro id ⟨e, he, task, sent, hc⟩
    have hsubmits := (h e he).submits
    rw [hc] at hsubmits
    cases hsubmits
  have hfinal : ¬FinalWriteFailed es := by
    rintro ⟨l, e, vs, u, rfl, hop, -⟩
    exact (h e (by simp)).not_updateColumns vs hop
  have hinput : ¬InputWritten es := by
    rintro ⟨e, he, vs, hc⟩
    exact (h e he).not_written vs hc
  have hbefore := not_failsBefore_of_none fun e he => (h e he).not_storesUpload
  simp only [SettlesExactly, World.Settled, row_of_ineffective hw h, hhanded, hfinal, hinput,
    hbefore, or_false, not_false_eq_true, true_and]

omit [External] in
/-- What a write of the input leaves in the row. -/
theorem row_of_written {e : Event machine} {job : JobModel} {fields : List Field} (h : e.Allowed)
    (hc : e.call = answered (.updateInput (job.columns fields)) true) :
    ∃ row : Row, e.after.row = some (row.putAll (job.columns fields)) := by
  obtain ⟨row, -, -, hafter⟩ := row_of_updateInput_true h hc
  exact ⟨row, hafter⟩

omit [External] in
theorem DeletionWrites.not_storesUpload {job : JobModel} {e : Event machine}
    (h : DeletionWrites job e) : ¬StoresUpload e := by
  rintro ⟨vs, u, hc, hu, hname⟩
  have hop := congrArg Call.op (h.2.symm.trans hc)
  obtain rfl := Op.updateInput.inj hop
  have hcolumn : u = job.row.membershipUpload := by
    simpa [JobModel.columns, JobModel.column] using hu
  rw [hcolumn, JobModel.row, h.1] at hname
  exact hname rfl

omit [External] in
/-- An upload whose deletion has reached the row, and that stores nothing new. -/
theorem settles_of_deleted {l l' : List (Event machine)} {d : Event machine} {job : JobModel}
    (hw : Chain w (l ++ d :: l') w') (hl : ∀ e ∈ l, Ineffective e) (hl' : ∀ e ∈ l', Ineffective e)
    (hd : DeletionWrites job d) : SettlesExactly handed w w' (l ++ d :: l') := by
  have hbefore : ¬FailsBeforeSubmission (l ++ d :: l') := by
    apply not_failsBefore_of_none
    intro e he
    rcases List.mem_append.1 he with he | he
    · exact (hl e he).not_storesUpload
    · rcases List.mem_cons.1 he with rfl | he
      · exact hd.not_storesUpload
      · exact (hl' e he).not_storesUpload
  obtain ⟨m, -, -, hallowed, hw'⟩ := chain_append.1 hw
  obtain ⟨row, hafter⟩ := row_of_written hallowed hd.2
  refine iff_of_true (.inl fun row' hrow' => .inl ?_) ⟨hbefore, .inr ⟨d, by simp, _, hd.2⟩⟩
  rw [row_of_ineffective hw' hl', hafter] at hrow'
  obtain rfl := Option.some.inj hrow'
  change job.membershipUpload.fileName = noFileUploaded
  rw [hd.1]
  rfl

/-- An upload that has stored a new file. -/
theorem settles_of_stored {l l' : List (Event machine)} {u : Event machine}
    {a : JobModel × Option (Point × Point) × DataFrame} {raster : FileName.membershipTif.Doc}
    (hw : Chain w (l ++ u :: l') w') (hu : UploadWrites a u) (hinput : InputWritten (l ++ u :: l'))
    (h : Program.Executes (M := machine) (do
      rewriteFile here .membershipTif raster
      ask (.uploadWorkDir here.pod)
      let _ ← ask (.fileExists here.pod .membershipTif)
      submitUpload a.1 epsg) l' r) (hkilled : r ≠ .error (.fault .killed)) :
    SettlesExactly handed w w' (l ++ u :: l') := by
  obtain ⟨m, -, -, hallowed, hw'⟩ := chain_append.1 hw
  obtain ⟨⟨len, bounds, hjob⟩, hc⟩ := hu
  obtain ⟨row, hafter⟩ := row_of_written hallowed hc
  have hpre : l ++ u :: l' = (l ++ [u]) ++ l' := by simp
  rcases submission_cases h hw' hkilled with ⟨hearly, hrow⟩ | ⟨hreaches, hend⟩
  · have hstores : StoresUpload u := by
      refine ⟨_, a.1.row.membershipUpload, hc, by simp [JobModel.columns, JobModel.column], ?_⟩
      rw [JobModel.row, hjob]
      change FileName.memberships ≠ noFileUploaded
      decide
    refine iff_of_false ?_ fun hright => hright.1 (hearly.failsBeforeSubmission hstores)
    rintro (hsettled | hfinal)
    · have hpending := hsettled _ (hrow.trans hafter)
      change a.1.membershipUpload.column.Settled _ at hpending
      rw [hjob] at hpending
      rcases hpending with hname | hstate | hstate | ⟨id, hstate, -⟩
      · cases hname
      · cases hstate
      · cases hstate
      · cases hstate
    · rw [hpre] at hfinal
      exact hearly.not_finalWriteFailed hfinal
  · rw [hpre] at hinput ⊢
    refine iff_of_true ?_ ⟨hreaches.not_failsBefore, .inr hinput⟩
    rcases hend with ⟨row', hrow', hsettled⟩ | hfinal
    · refine .inl fun row'' hrow'' => ?_
      obtain rfl := Option.some.inj (hrow'.symm.trans hrow'')
      exact hsettled.mono fun id hid => .inr hid.append
    · exact .inr hfinal.append

/-- **A membership upload settles exactly if nothing raises before its submission.** For an upload
that nothing else interleaves with, whatever raises in it: in the end nothing is uploaded, or what
is uploaded has failed, is completed, or is the work of a task that was handed to the queue, or the
last write of FAILED has itself failed; if and only if no call raises between the write of the new
upload and the submission of its task, and the row was settled before or a write has reached it. -/
theorem upload_settled_iff {file : Option (Except String String)} {epsgInput : Option ℤ}
    (h : (handleMembershipRequest here file epsgInput).Executes es r) (hw : Chain w es w')
    (hkilled : r ≠ .error (.fault .killed)) :
    w'.Settled (fun id => handed id ∨ HandedOver es id) ∨ FinalWriteFailed es ↔
      ¬FailsBeforeSubmission es ∧ (w.Settled handed ∨ InputWritten es) := by
  change SettlesExactly handed w w' es
  unfold handleMembershipRequest at h
  split at h
  · obtain ⟨rfl, -⟩ := executes_throw.1 h
    exact settles_of_ineffective hw (by simp)
  · obtain ⟨rfl, -⟩ := executes_ret.1 h
    exact settles_of_ineffective hw (by simp)
  rw [handleMembershipUpload_eq] at h
  rcases executes_bind.1 h with ⟨x, hx, -⟩ | ⟨job, l, l', rfl, hjob, hnew⟩
  · rcases deleteBefore_endsIn _ _ hx with ⟨a, l, e, ha, -⟩ | ⟨-, hes⟩
    · cases ha
    · exact settles_of_ineffective hw hes
  rcases deleteBefore_endsIn _ _ hjob with ⟨a, l, d, -, rfl, hl, hd⟩ | ⟨⟨x, hx⟩, -⟩
  case inr => cases hx
  rw [List.append_assoc, List.singleton_append] at hw ⊢
  have hdeleted : InputWritten (l ++ d :: l') := ⟨d, by simp, _, hd.2⟩
  rcases executes_bind.1 hnew with ⟨x, hx, -⟩ | ⟨stored, l₁, l₂, rfl, hstored, hrest⟩
  · rcases tryUploadMembership_cases hx with ⟨a, l₁, u, ha, -⟩ | ⟨-, hl'⟩
    · cases ha
    · exact settles_of_deleted hw hl hl' hd
  rcases tryUploadMembership_cases hstored with ⟨a, l₁, u, ha, rfl, -, hu⟩ | ⟨hr, hl₁⟩
  · obtain rfl := Except.ok.inj ha
    have hsplit : l ++ d :: (l₁ ++ [u] ++ l₂) = (l ++ d :: l₁) ++ u :: l₂ := by simp
    rw [hsplit] at hw hdeleted ⊢
    exact settles_of_stored hw hu hdeleted hrest hkilled
  · rcases hr with hr | ⟨x, hx⟩
    · cases hr
      obtain ⟨rfl, -⟩ := executes_ret.1 hrest
      rw [List.append_nil] at hw ⊢
      exact settles_of_deleted hw hl hl₁ hd
    · cases hx

end

end

/-! ## An upload whose raster is not stored -/

/-- A tab of a new job uploads a membership file. -/
def newUploadPool : Pool machine Err Unit :=
  let _ := External.plain
  ⟨.fresh (.ofModel .blank),
    [handleMembershipRequest ⟨0, 0, none⟩ (some (.ok plainTable)) (some 25833)]⟩

/-- The first steps up to the plot go well. -/
def upToPlot : List (ℕ × Choice) := usually (List.replicate 14 0)

theorem upload_settled_newUpload :
    let es := (newUploadPool.play (upToPlot ++ usually (List.replicate 5 0))).1
    let w' := (newUploadPool.play (upToPlot ++ usually (List.replicate 5 0))).2.world
    w'.Settled (fun id => False ∨ HandedOver es id) ∧ w'.messages = [⟨0, .upload 25833, 0⟩] := by
  intro es w'
  let _ := External.plain
  have hrun : Run newUploadPool es _ := Run.of_play _ _
  obtain ⟨hexecutes, hchain⟩ := hrun.executes_alone (r := .ok ()) rfl
  have hlast : es.getLast?.map (fun e => e.call.ans.isOk) = some true := by decide +kernel
  have hraised : ∀ l e, es = l ++ [e] → ∀ f, e.call.ans ≠ .error f := by
    intro l e hes f hf
    rw [hes, List.getLast?_concat, Option.map_some, hf] at hlast
    cases hlast
  have hbefore : ¬FailsBeforeSubmission es := by
    rintro ⟨l, write, l', e, hes, -, ⟨f, hf⟩, -⟩
    exact hraised (l ++ write :: l') e (by rw [hes]; simp) f hf
  have hwritten : InputWritten es :=
    ⟨_, List.mem_of_getElem? (show es[3]? = some _ from rfl), _, rfl⟩
  refine ⟨((upload_settled_iff hexecutes hchain (by simp)).2
    ⟨hbefore, .inr hwritten⟩).resolve_right ?_, by decide +kernel⟩
  rintro ⟨l, e, vs, u, hes, -, -, -, f, hf⟩
  exact hraised l e hes f hf

/-- Its raster cannot be stored. -/
def rasterLost : List (ℕ × Choice) :=
  upToPlot ++ [(0, { Choice.usual with fault := some .objectStorage })]

/-- Whether the operation writes some columns. -/
def Op.updatesColumns : Op → Bool
  | .updateColumns _ => true
  | _ => false

/-- **An upload that is stuck**: it has raised, nothing was wrong with the row before, and the row
says PENDING of a file that no task will work on. -/
theorem upload_stuck_pending :
    (newUploadPool.play rasterLost).2.threads = [.throw (.fault .objectStorage)] ∧
      newUploadPool.world.Settled (fun _ => False) ∧
      ¬((newUploadPool.play rasterLost).2.world.Settled
          (fun id => False ∨ HandedOver (newUploadPool.play rasterLost).1 id) ∨
        FinalWriteFailed (newUploadPool.play rasterLost).1) := by
  refine ⟨rfl, fun row hrow => ?_, ?_⟩
  · obtain rfl := Option.some.inj hrow
    exact .inl rfl
  have hpending : (newUploadPool.play rasterLost).2.world.row.map (fun row =>
      (row.columns.membershipUpload.fileName, row.columns.membershipUpload.streetProcessing)) =
      some (.memberships, some .pending) := by
    decide +kernel
  have hlast : (newUploadPool.play rasterLost).1.getLast?.map (fun e => e.call.op.updatesColumns) =
      some false := by
    decide +kernel
  obtain ⟨row, hrow, hstate⟩ := Option.map_eq_some_iff.1 hpending
  obtain ⟨hname, hprocessing⟩ := Prod.mk.inj hstate
  rintro (hsettled | ⟨l, e, vs, u, hes, hop, -⟩)
  · rcases hsettled row hrow with h | h | h | ⟨id, h, -⟩
    · rw [hname] at h
      cases h
    · rw [hprocessing] at h
      cases h
    · rw [hprocessing] at h
      cases h
    · rw [hprocessing] at h
      cases h
  · rw [hes, List.getLast?_concat, Option.map_some, hop] at hlast
    cases hlast

end Cosmonaut
