import Cosmonaut.Model.Requests

/-!
# The ids of upload tasks

An upload draws an id for its task, names the task in the row, and only then sends it. The id is
drawn once, so all that happens under it is one upload's doing.

* `Request.namesOwnTask`: whoever names a task has drawn its id.
* `draws_at`: no id is drawn twice.
-/

namespace Cosmonaut

open Interleaving Program

/-! ## Naming a task -/

def ColumnValue.namesTask : ColumnValue → Bool
  | .membershipUpload u => u.namesTask
  | _ => false

/-- The operation writes a task's name into the row, whatever the row's state is. -/
def Op.namesTask : Op → Bool
  | .updateColumns vs => vs.any ColumnValue.namesTask
  | _ => false

variable {here : Site}

theorem namesNone_of_isAdoption {o : Op} (h : o.isAdoption here = true) : o.namesTask = false := by
  unfold Op.isAdoption at h
  split at h
  · simp only [Op.namesTask, ColumnValue.namesTask, MembershipColumn.namesTask,
      of_decide_eq_true h, List.any_cons, List.any_nil, Bool.or_false]
  · rfl
  · rfl
  · cases h

theorem namesNoneMenu (here : Site) : Menu here fun o => o.namesTask = false where
  stays o h := by cases o <;> first | rfl | cases h
  shared o h := by cases o <;> first | rfl | cases h
  inputs _ _ := rfl
  due := rfl
  task _ := rfl
  raises _ _ := rfl
  log _ := rfl

variable [External]

/-- Only a membership upload names a task. -/
theorem Request.namesNone {r : Request} (h : r.names = false) :
    (r.program here).Always fun c : Call sig => c.op.namesTask = false := by
  rcases hr : r.computes with _ | _
  · exact Request.asks hr (namesNoneMenu here) (fun _ _ => namesNone_of_isAdoption)
      (fun _ _ _ => rfl) (fun _ _ => rfl) (fun hn => by simp [h] at hn) fun _ _ => rfl
  · cases r <;> cases hr
    exact routingWorker_asks (fun _ => namesNoneMenu _) (fun _ _ => namesNone_of_isAdoption)
      (fun _ _ => rfl) (fun _ => rfl) rfl (fun _ => ⟨rfl, rfl⟩) rfl

/-- The call names no task but one whose id the thread has drawn. -/
def NamesOwnTask (past : List (Call sig)) (c : Call sig) : Prop :=
  ∀ vs u id, c.op = .updateColumns vs → .membershipUpload u ∈ vs →
    u.streetProcessing = some (.task id) → answered .uuid4 id ∈ past

omit [External] in
theorem namesOwnTask_of_namesNone {past : List (Call sig)} {c : Call sig}
    (h : c.op.namesTask = false) : NamesOwnTask past c := by
  intro vs u id hop hu hid
  rw [hop, Op.namesTask, List.any_eq_false] at h
  exact absurd (by rw [ColumnValue.namesTask, MembershipColumn.namesTask, hid]) (h _ hu)

omit [External] in
theorem submitUpload_trail (job : JobModel) (epsg : ℤ) (past : List (Call sig)) :
    (submitUpload job epsg).Trail NamesOwnTask (fun _ _ => True) past := by
  intro r
  refine ⟨namesOwnTask_of_namesNone rfl, ?_⟩
  cases r with
  | error f => trivial
  | ok id =>
    have hfailed : (endUploadFailed (withStreetProcessing job (.task id))).Always
        fun c : Call sig => c.op.namesTask = false :=
      always_call fun _ => rfl
    have hrest : Asks (fun o => o.namesTask = false) (do
        let (_, failed) ← tryExcept (ask (.submitJob (.upload epsg) (some id))) fun e => do
          endUploadFailed (withStreetProcessing job (.task id))
          raise e
        if failed then
          endUploadFailed (withStreetProcessing job (.task id))) := by
      refine .bind (.tryCatch (always_call fun _ => rfl) fun e => ?_) fun r => ?_
      · exact always_ite (fun _ => trivial) fun _ =>
          .bind hfailed fun _ => trivial
      · exact always_ite (fun _ => hfailed) fun _ => trivial
    intro r
    constructor
    · intro vs u id' hop hu hid
      obtain rfl : [.membershipUpload _] = vs := Op.updateColumns.inj hop
      obtain rfl := ColumnValue.membershipUpload.inj (List.mem_singleton.1 hu)
      cases hid
      exact List.mem_cons_self
    · cases r with
      | error f => trivial
      | ok u => exact (hrest.trail _).mono (fun _ _ => namesOwnTask_of_namesNone) fun _ _ h => h

/-- **Whoever names a task has drawn its id.** -/
theorem Request.namesOwnTask (r : Request) :
    (r.program here).Trail NamesOwnTask (fun _ _ => True) [] := by
  cases r
  case uploadMembership content epsgInput =>
    have hnone : ∀ past c, c.op.namesTask = false → NamesOwnTask past c :=
      fun _ _ => namesOwnTask_of_namesNone
    have hm := namesNoneMenu here
    refine hm.load.trail_bind hnone (fun job past => ?_) []
    split
    · trivial
    refine (hm.deleteMembership _).trail_bind hnone (fun job past => ?_) past
    refine (hm.tryUploadMembership _ _ _).trail_bind hnone (fun r past => ?_) past
    split
    · trivial
    refine ((rewriteFile_stays _ _).asks hm).trail_bind hnone (fun _ past => ?_) past
    refine (hm.ask' rfl).trail_bind hnone (fun _ past => ?_) past
    exact (hm.local' (by simp [Op.isLocal])).trail_bind hnone
      (fun _ past => submitUpload_trail _ _ past) past
  all_goals
    exact ((Request.namesNone rfl).trail _).mono (fun _ _ => namesOwnTask_of_namesNone)
      fun _ _ h => h

/-! ## Drawing an id -/

omit [External]

variable {o : Op} {c : Choice} {w : World}

/-- Identifiers are never given back. -/
theorem exec_nextId : w.nextId ≤ (exec o c w).2.nextId := by
  have henqueue : ∀ task id, w.nextId ≤ (w.enqueue task id).nextId := fun _ _ => Nat.le_succ _
  rcases hf : o.fault c with _ | e
  case some =>
    rw [exec_of_fault hf]
    cases o
    case submitJob =>
      simp only [interrupted]
      split
      · exact henqueue _ _
      · exact le_rfl
    all_goals exact le_rfl
  rw [exec_of_no_fault hf]
  cases o
  case submitJob =>
    simp only [perform]
    split
    · split
      · exact henqueue _ _
      · exact le_rfl
    · exact henqueue _ _
  case claim =>
    simp only [perform]
    split
    · split
      · exact Nat.le_succ _
      · exact le_rfl
    · exact le_rfl
  case uuid4 => exact Nat.le_succ _
  case updateColumns | raiseStage =>
    simp only [perform, World.require]
    split <;> exact le_rfl
  case updateInput | setStreetProcessingOfTask | updateMembershipUploadOfTask | markStartFailed |
      markPending | finish =>
    simp only [perform, World.update]
    split <;> (try split) <;> exact le_rfl
  case loadRow | writeRow | markEndNotified | markQueued | markCancelled | sweep | deleteJob |
      replaceFile | removeFile | receive | sendMail =>
    simp only [perform]
    split <;> (try split) <;> (try split) <;> exact le_rfl
  all_goals exact le_rfl

theorem nextId_le_of_allowed {e : Event machine} (he : e.Allowed) :
    e.before.nextId ≤ e.after.nextId := by
  obtain ⟨c, hafter⟩ := after_of_allowed he
  rw [← hafter]
  exact exec_nextId

/-- The event draws the identifier. -/
def Draws (e : Event machine) (id : ℕ) : Prop := e.before.nextId = id ∧ e.after.nextId = id + 1

theorem draws_of_uuid4 {e : Event machine} {id : TaskId} (he : e.Allowed)
    (hc : e.call = answered .uuid4 id) : Draws e id := by
  obtain ⟨c, hafter⟩ := after_of_answered he hc
  simp only [perform, Prod.mk.injEq, Except.ok.injEq] at hafter
  exact ⟨hafter.1, by rw [← hafter.2, hafter.1]⟩

section

variable {p p' : Pool machine Err Unit} {es : List (Event machine)}

theorem nextId_le_of_mem (hrun : Run p es p') {e : Event machine} (he : e ∈ es) :
    p.world.nextId ≤ e.before.nextId := by
  obtain ⟨l, r, rfl⟩ := List.append_of_mem he
  exact hrun.chain.upto.mono (f := World.nextId) fun a _ => nextId_le_of_allowed

variable {l₁ l₂ r₁ r₂ : List (Event machine)} {s s' : Event machine} {id : ℕ}

/-- **An id is drawn at one place of a run.** -/
theorem draws_at (hrun : Run p (l₁ ++ s :: r₁) p') (hsplit : l₁ ++ s :: r₁ = l₂ ++ s' :: r₂)
    (hd : Draws s id) (hd' : Draws s' id) : l₁ = l₂ ∧ s = s' ∧ r₁ = r₂ := by
  have hlater : ∀ {l k r : List (Event machine)} {a b : Event machine},
      Run p (l ++ a :: (k ++ b :: r)) p' → Draws a id → Draws b id → False := by
    intro l k r a b hrun ha hb
    have hle : a.after.nextId ≤ b.before.nextId :=
      hrun.chain.beyond.upto.mono (f := World.nextId) fun a _ => nextId_le_of_allowed
    have := ha.2
    have := hb.1
    omega
  rcases places hsplit with ⟨u, rfl, rfl⟩ | hsame | ⟨u, rfl, rfl⟩
  · exact (hlater hrun hd hd').elim
  · exact hsame
  · rw [hsplit] at hrun
    exact (hlater hrun hd' hd).elim

/-- No id is drawn twice. -/
theorem drawn_once (hrun : Run p es p') (hs : s ∈ es) (hs' : s' ∈ es) (hd : Draws s id)
    (hd' : Draws s' id) : s = s' := by
  obtain ⟨l, r, rfl⟩ := List.append_of_mem hs
  obtain ⟨l', r', hsplit⟩ := List.append_of_mem hs'
  exact (draws_at hrun hsplit hd hd').2.1

end

end Cosmonaut
