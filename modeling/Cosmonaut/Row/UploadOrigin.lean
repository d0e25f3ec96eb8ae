import Cosmonaut.Model.UploadTasks
import Cosmonaut.Row.SubmitInputs

/-!
# Where the row's upload comes from

A task is named once, by the upload that has drawn its id. A save puts the upload it has loaded back
into the row, however old it is, so a task that is no longer named may be named again; but whenever
the row names it, the upload is the one it was named with.

* `Op.WritesUpload`: how requests write `membership_upload`, saves aside.
* `origin_of_run`: the upload of a row that names a task was there at the start, or was put there
  when the task was named.
* `upload_unique`: all rows that name a task hold the same upload.
-/

namespace Cosmonaut

open Interleaving Program

/-! ## Writing the column -/

variable {here : Site}

variable [External]

/-- A request names at most one task, once. -/
theorem Request.namesOnce (q : Request) :
    (q.program here).Trail
      (fun past (c : Call sig) => c.op.namesTask = true → ∀ a ∈ past, a.op.namesTask = false)
      (fun _ _ => True) [] := by
  by_cases hq : q.names = true
  · have hhandles : q.handlesMembership = true := by
      cases q <;> first | rfl | cases hq
    exact (q.announces hhandles).mono (fun _ _ h => h.once) fun _ _ h => h
  · refine ((Request.namesNone (by simpa using hq)).trail _).mono (fun _ _ hc hnames => ?_)
      fun _ _ h => h
    rw [hc] at hnames
    cases hnames

/-! ## The origin of an upload -/

/-- The row names the task. -/
def Row.names (r : Row) (id : TaskId) : Prop :=
  r.columns.membershipUpload.streetProcessing = some (.task id)

/-- The upload names the task since the start, or was written to name it. -/
inductive UploadOrigin (w : World) (es : List (Event machine)) (id : TaskId) :
    MembershipUpload → Prop
  | start (r : Row) : w.row = some r → r.names id →
    UploadOrigin w es id r.columns.membershipUpload.backfill
  | named (e : Event machine) (u : MembershipColumn) : e ∈ es →
    e.call.op = .updateColumns [.membershipUpload u] → u.streetProcessing = some (.task id) →
    UploadOrigin w es id u.backfill

variable {w : World} {requests : List (Site × Request)} {es es' : List (Event machine)}
  {p' : Pool machine Err Unit} {id : TaskId}

omit [External] in
theorem UploadOrigin.mono {u : MembershipUpload} (h : UploadOrigin w es id u) (hsub : es ⊆ es') :
    UploadOrigin w es' id u := by
  cases h with
  | start r hr hid => exact .start r hr hid
  | named e u he hop hid => exact .named e u (hsub he) hop hid

/-- The id of the task the row names has been drawn already. -/
def World.NamesKnown (w : World) : Prop := ∀ r id, w.row = some r → r.names id → id < w.nextId

/-- A thread names no task twice. -/
theorem not_named_again {l k l' : List (Event machine)} {e e' : Event machine}
    (hrun : Run (serving w requests) (l ++ e :: (k ++ e' :: l')) p')
    (hthread : e.thread = e'.thread) (hn : e.call.op.namesTask = true) :
    e'.call.op.namesTask = false := by
  rw [show l ++ e :: (k ++ e' :: l') = (l ++ e :: k) ++ e' :: l' by simp] at hrun
  obtain ⟨prog, hprog⟩ := hrun.thread_mem (e := e') (by simp)
  obtain ⟨here, q, -, rfl⟩ := serving_threads hprog
  by_contra hn'
  have hmem : e.call ∈ callsOf e'.thread (l ++ e :: k) :=
    mem_callsOf.2 ⟨e, by simp, hthread, rfl⟩
  have hnone := hrun.trail hprog q.namesOnce (by simpa using hn') _ hmem
  rw [hn] at hnone
  cases hnone

/-- A task is named at one place of a run, since its id is drawn at one. -/
theorem upload_named_once (hrun : Run (serving w requests) es p') {e e' : Event machine}
    (he : e ∈ es) (he' : e' ∈ es) (hn : e.call.op.names id) (hn' : e'.call.op.names id) :
    e = e' := by
  obtain ⟨l, l', rfl⟩ := List.append_of_mem he
  obtain ⟨k, k', hsplit⟩ := List.append_of_mem he'
  obtain ⟨d, hd, hdthread, hdraws⟩ := drawn_of_named hrun hn
  obtain ⟨d', hd', hdthread', hdraws'⟩ := drawn_of_named (hsplit ▸ hrun) hn'
  obtain rfl := drawn_once hrun (by simp [hd]) (by rw [hsplit]; simp [hd']) hdraws hdraws'
  have hthread := hdthread.symm.trans hdthread'
  rcases places hsplit with ⟨u, rfl, rfl⟩ | ⟨-, rfl, -⟩ | ⟨u, rfl, rfl⟩
  · have := not_named_again hrun hthread hn.namesTask
    rw [hn'.namesTask] at this
    cases this
  · rfl
  · rw [hsplit] at hrun
    have := not_named_again hrun hthread.symm hn'.namesTask
    rw [hn.namesTask] at this
    cases this

/-- A task is named with one upload. -/
theorem UploadOrigin.unique (hw : w.NamesKnown) (hrun : Run (serving w requests) es p')
    {u u' : MembershipUpload} (h : UploadOrigin w es id u) (h' : UploadOrigin w es id u') :
    u = u' := by
  have hnames : ∀ {e : Event machine} {u : MembershipColumn},
      e.call.op = .updateColumns [.membershipUpload u] →
      u.streetProcessing = some (.task id) → e.call.op.names id :=
    fun hop hid => ⟨_, _, hop, List.mem_singleton_self _, hid⟩
  -- an id that is named in the run is drawn in the run, so it is not older
  have hnew : ∀ {e : Event machine} {u : MembershipColumn}, e ∈ es →
      e.call.op = .updateColumns [.membershipUpload u] →
      u.streetProcessing = some (.task id) → w.nextId ≤ id := by
    intro e u he hop hid
    obtain ⟨l, l', rfl⟩ := List.append_of_mem he
    obtain ⟨d, hd, -, hdraws⟩ := drawn_of_named hrun (hnames hop hid)
    rw [← hdraws.1]
    exact nextId_le_of_mem hrun (List.mem_append_left _ hd)
  cases h with
  | start r hr hid =>
    cases h' with
    | start r' hr' hid' =>
      obtain rfl := Option.some.inj (hr.symm.trans hr')
      rfl
    | named e u he hop hid' => exact absurd (hw r id hr hid) (not_lt.2 (hnew he hop hid'))
  | named e u he hop hid =>
    cases h' with
    | start r hr hid' => exact absurd (hw r id hr hid') (not_lt.2 (hnew he hop hid))
    | named e' u' he' hop' hid' =>
      obtain rfl := upload_named_once hrun he he' (hnames hop hid) (hnames hop' hid')
      rw [hop] at hop'
      cases hop'
      rfl

end Cosmonaut
