import Cosmonaut.Model.TaskIds

/-!
# The job's run

The run in the row: queued by a guard, claimed by a delivery, ended by a finish, a cancel or the
failure path of a submit. Between two guards the row never becomes RUNNING again, and never becomes
unclaimed again.

* `RunStep`, `runStep_of_allowed`: all that can happen to the status and the claim.
* `running_before`, `queued_before`: only a guard makes a row RUNNING, and queued.
* `message_cases`, `revoked_cases`: what a step can do to a message on the queue.
-/

namespace Cosmonaut

open Interleaving Program

/-! ## The run in the row -/

/-- The row is RUNNING. -/
def World.running (w : World) : Prop := ∃ r, w.row = some r ∧ r.status = .running

/-- The row is a queued run: RUNNING, and nobody has claimed it. -/
def World.queued (w : World) : Prop :=
  ∃ r, w.row = some r ∧ r.status = .running ∧ r.heartbeat = false

theorem World.queued.running {w : World} (h : w.queued) : w.running := by
  obtain ⟨r, hr, hstatus, -⟩ := h
  exact ⟨r, hr, hstatus⟩

/-- What a step can do to the status and the claim of the row. -/
inductive RunStep (w : World) : Call sig → Row → Prop
  | same {c r r'} : w.row = some r → r'.status = r.status → r'.heartbeat = r.heartbeat →
    RunStep w c r'
  | won {r'} : ¬w.running → r'.status = .running → r'.heartbeat = false →
    RunStep w (answered .markQueued true) r'
  | startFailed {r'} : w.queued → r'.status = .failed →
      RunStep w (answered .markStartFailed true) r'
  | cancelled {r'} : w.running → r'.status = .failed → RunStep w (answered .markCancelled true) r'
  | reset {r'} : ¬w.running → r'.status = .pending → RunStep w (answered .markPending true) r'
  | claimed {r' id} : w.queued → r'.status = .running → r'.heartbeat = true →
    RunStep w (answered .claim (some id)) r'
  | finished {r r' id status} : w.row = some r → r.status = .running →
    r'.heartbeat = r.heartbeat → r'.status = status →
    RunStep w (answered (.finish id status) true) r'
  | swept {r'} : w.running → r'.status = .failed → RunStep w (answered .sweep ()) r'
  | created {r' columns} : w.row = none → r'.status = .pending →
    RunStep w (answered (.writeRow columns) ()) r'

variable {o : Op} {c : Choice} {w : World} {r r' : Row} {e : Event machine}

theorem not_running_of_status (hr : w.row = some r) (h : r.status ≠ .running) : ¬w.running := by
  rintro ⟨r', hr', hrunning⟩
  obtain rfl := Option.some.inj (hr.symm.trans hr')
  exact h hrunning

/-- **What can happen to the run in the row.** -/
theorem exec_run_cases (h : (exec o c w).2.row = some r') : RunStep w ⟨o, (exec o c w).1⟩ r' := by
  rcases hf : o.fault c with _ | f
  case some =>
    rw [exec_of_fault hf, interrupted_row] at h
    exact .same h rfl rfl
  by_cases ho : o.writesRow = false
  · rw [exec_row_of_not_writesRow ho] at h
    exact .same h rfl rfl
  rw [exec_of_no_fault hf] at h ⊢
  rcases hw : w.row with _ | r
  · rw [← exec_of_no_fault hf] at h ⊢
    obtain ⟨columns, rfl, rfl⟩ := exec_row_new hw h
    rw [exec_of_no_fault hf]
    simp only [perform, hw]
    exact .created hw rfl
  cases o
  case writeRow columns | updateColumns vs | raiseStage stage =>
    simp only [perform, World.require, hw, Option.some.injEq] at h ⊢
    subst h
    exact .same hw rfl rfl
  case updateInput vs | setStreetProcessingOfTask id state |
    updateMembershipUploadOfTask id upload =>
    rw [perform, update_row hw, Option.some.injEq] at h
    subst h
    refine .same hw ?_ ?_ <;> split <;> rfl
  case markEndNotified =>
    simp only [perform, hw] at h ⊢
    split at h <;> simp only [hw, Option.some.injEq] at h <;> subst h <;>
      exact .same hw rfl rfl
  case markQueued =>
    simp only [perform, hw] at h ⊢
    split at h
    · rename_i hstatus
      simp only [Option.some.injEq] at h
      subst h
      rw [if_pos hstatus]
      refine .won (not_running_of_status hw ?_) rfl rfl
      rcases hstatus with hstatus | hstatus <;> simp [hstatus]
    · simp only [hw, Option.some.injEq] at h
      subst h
      exact .same hw rfl rfl
  case markStartFailed =>
    rw [perform] at h ⊢
    rcases update_cases hw h with ⟨hq, rfl, hans⟩ | rfl
    · rw [hans]
      exact .startFailed ⟨r, hw, of_decide_eq_true hq⟩ rfl
    · exact .same hw rfl rfl
  case markCancelled =>
    simp only [perform, hw] at h ⊢
    split at h
    · rename_i hstatus
      simp only [Option.some.injEq] at h
      subst h
      rw [if_pos hstatus]
      exact .cancelled ⟨r, hw, hstatus⟩ rfl
    · simp only [hw, Option.some.injEq] at h
      subst h
      exact .same hw rfl rfl
  case markPending =>
    rw [perform] at h ⊢
    rcases update_cases hw h with ⟨hstatus, rfl, hans⟩ | rfl
    · rw [hans]
      exact .reset (not_running_of_status hw (of_decide_eq_true hstatus)) rfl
    · exact .same hw rfl rfl
  case claim =>
    simp only [perform, hw] at h ⊢
    split at h
    · rename_i hq
      simp only [Option.some.injEq] at h
      subst h
      rw [if_pos hq]
      exact .claimed ⟨r, hw, hq⟩ hq.1 rfl
    · simp only [hw, Option.some.injEq] at h
      subst h
      exact .same hw rfl rfl
  case finish id status =>
    rw [perform] at h ⊢
    rcases update_cases hw h with ⟨hstatus, rfl, hans⟩ | rfl
    · rw [hans]
      exact .finished hw (of_decide_eq_true hstatus).1 rfl rfl
    · exact .same hw rfl rfl
  case sweep =>
    simp only [perform, hw] at h ⊢
    split at h
    · rename_i hlost
      simp only [Option.some.injEq] at h
      subst h
      rw [if_pos hlost]
      exact .swept ⟨r, hw, hlost.1⟩ rfl
    · rename_i hlost
      simp only [hw, Option.some.injEq] at h
      subst h
      rw [if_neg hlost]
      exact .same hw rfl rfl
  case deleteJob pod =>
    simp only [perform, hw] at h ⊢
    split at h
    · simp only [hw, Option.some.injEq] at h
      subst h
      exact .same hw rfl rfl
    · simp at h
  all_goals exact absurd rfl ho

theorem runStep_of_allowed (he : e.Allowed) (h : e.after.row = some r') :
    RunStep e.before e.call r' := by
  obtain ⟨t, ⟨o, a⟩, before, after⟩ := e
  obtain ⟨c, hex⟩ := he
  change exec o c before = (a, after) at hex
  have hrow : (exec o c before).2.row = some r' := by
    rw [hex]
    exact h
  have hstep := exec_run_cases hrow
  rwa [hex] at hstep

/-- Only a guard makes the row RUNNING. -/
theorem running_before (he : e.Allowed) (hc : e.call ≠ answered .markQueued true)
    (h : e.after.running) : e.before.running := by
  obtain ⟨r', hr', hstatus⟩ := h
  have hstep := runStep_of_allowed he hr'
  generalize e.before = w at *
  generalize e.call = call at *
  cases hstep with
  | same hr hs => exact ⟨_, hr, hs ▸ hstatus⟩
  | won => exact absurd rfl hc
  | claimed hq => exact hq.running
  | finished hr hs => exact ⟨_, hr, hs⟩
  | startFailed _ hs | cancelled _ hs | reset _ hs | swept _ hs | created _ hs =>
    rw [hs] at hstatus
    cases hstatus

/-- Only a guard makes the row a queued run. -/
theorem queued_before (he : e.Allowed) (hc : e.call ≠ answered .markQueued true)
    (h : e.after.queued) : e.before.queued := by
  obtain ⟨r', hr', hstatus, hbeat⟩ := h
  have hstep := runStep_of_allowed he hr'
  generalize e.before = w at *
  generalize e.call = call at *
  cases hstep with
  | same hr hs hb => exact ⟨_, hr, hs ▸ hstatus, hb ▸ hbeat⟩
  | won => exact absurd rfl hc
  | claimed hq => exact hq
  | finished hr hs hb => exact ⟨_, hr, hs, hb ▸ hbeat⟩
  | startFailed _ hs | cancelled _ hs | reset _ hs | swept _ hs | created _ hs =>
    rw [hs] at hstatus
    cases hstatus

section

variable {v v' : World} {es : List (Event machine)}

/-- In a stretch without a guard the row is RUNNING all the time, if it is at the end. -/
theorem running_of_end (h : Chain v es v')
    (hno : ∀ a ∈ es, a.call ≠ answered .markQueued true) (hv : v'.running) : v.running := by
  by_contra hnot
  refine h.keeps (I := fun w => ¬World.running w) hnot (fun a ha hal hb hafter => ?_) hv
  exact hb (running_before hal (hno a ha) hafter)

/-- In a stretch without a guard the row is a queued run all the time, if it is at the end. -/
theorem queued_of_end (h : Chain v es v')
    (hno : ∀ a ∈ es, a.call ≠ answered .markQueued true) (hv : v'.queued) : v.queued := by
  by_contra hnot
  refine h.keeps (I := fun w => ¬World.queued w) hnot (fun a ha hal hb hafter => ?_) hv
  exact hb (queued_before hal (hno a ha) hafter)

end

/-- A guard leaves a queued run. -/
theorem queued_of_won (he : e.Allowed) (hc : e.call = answered .markQueued true) :
    e.after.queued := by
  obtain ⟨c, hafter⟩ := after_of_answered he hc
  simp only [perform] at hafter
  split at hafter
  · split at hafter
    · rw [← (Prod.mk.inj hafter).2]
      exact ⟨_, rfl, rfl, rfl⟩
    · simp at hafter
  · simp at hafter

/-- A guard is not won while a run is in the row. -/
theorem not_running_of_won (he : e.Allowed) (hc : e.call = answered .markQueued true) :
    ¬e.before.running := by
  obtain ⟨c, hafter⟩ := after_of_answered he hc
  rintro ⟨r, hr, hstatus⟩
  simp only [perform, hr, hstatus] at hafter
  simp at hafter

/-- After a claim that went through nobody else can claim the run. -/
theorem not_queued_of_claim (he : e.Allowed) {a : Option (ℕ × ℕ)}
    (hc : e.call = answered .claim a) : ¬e.after.queued := by
  obtain ⟨c, hafter⟩ := after_of_answered he hc
  rintro ⟨r', hr', hstatus, hbeat⟩
  simp only [perform] at hafter
  split at hafter
  · split at hafter
    · rw [← (Prod.mk.inj hafter).2] at hr'
      cases Option.some.inj hr'
      cases hbeat
    · rename_i r hr hnot
      rw [← (Prod.mk.inj hafter).2, hr] at hr'
      obtain rfl := Option.some.inj hr'
      exact hnot ⟨hstatus, hbeat⟩
  · rename_i hr
    rw [← (Prod.mk.inj hafter).2, hr] at hr'
    cases hr'

/-- After a cancel no run is left. -/
theorem not_running_of_cancelled (he : e.Allowed) {b : Bool}
    (hc : e.call = answered .markCancelled b) : ¬e.after.running := by
  obtain ⟨c, hafter⟩ := after_of_answered he hc
  rintro ⟨r', hr', hstatus⟩
  simp only [perform] at hafter
  split at hafter
  · split at hafter
    · rw [← (Prod.mk.inj hafter).2] at hr'
      cases Option.some.inj hr'
      cases hstatus
    · rename_i r hr hnot
      rw [← (Prod.mk.inj hafter).2, hr] at hr'
      obtain rfl := Option.some.inj hr'
      exact hnot hstatus
  · rename_i hr
    rw [← (Prod.mk.inj hafter).2, hr] at hr'
    cases hr'

/-- The failure path of a submit ends a queued run, whichever it is, and nothing else. -/
theorem startFailed_cases (he : e.Allowed) {b : Bool}
    (hc : e.call = answered .markStartFailed b) :
    (b = true ∧ e.before.queued ∧ ¬e.after.running) ∨
      (b = false ∧ ¬e.before.queued ∧ e.after = e.before) := by
  obtain ⟨c, hafter⟩ := after_of_answered he hc
  cases b with
  | true =>
    obtain ⟨r, hr, hqueued, hw⟩ := update_true hafter
    refine .inl ⟨rfl, ⟨r, hr, of_decide_eq_true hqueued⟩, ?_⟩
    rw [hw]
    exact not_running_of_status rfl (by simp)
  | false =>
    obtain ⟨hsame, hnot⟩ := update_false hafter
    refine .inr ⟨rfl, ?_, hsame⟩
    rintro ⟨r, hr, hqueued⟩
    exact of_decide_eq_false (hnot r hr) hqueued

/-! ## Messages -/

/-- The operation may take a message from the queue. -/
def Op.receives : Op → Bool
  | .receive _ => true
  | _ => false

theorem exec_messages_of_not_receives (h : o.receives = false) {m : Message}
    (hm : m ∈ w.messages) : m ∈ (exec o c w).2.messages := by
  have henqueue : ∀ task id, m ∈ (w.enqueue task id).messages := fun _ _ =>
    List.mem_append_left _ hm
  rcases hf : o.fault c with _ | f
  case some =>
    rw [exec_of_fault hf]
    cases o
    case submitJob task id =>
      simp only [interrupted]
      split
      · exact henqueue task id
      · exact hm
    all_goals exact hm
  rw [exec_of_no_fault hf]
  cases o
  case submitJob task id =>
    simp only [perform]
    split
    · split
      · exact henqueue task id
      · exact hm
    · exact henqueue task id
  case retry m' => exact List.mem_append_left _ hm
  case receive => cases h
  case updateColumns | raiseStage =>
    simp only [perform, World.require]
    split <;> exact hm
  case updateInput | setStreetProcessingOfTask | updateMembershipUploadOfTask | markStartFailed |
      markPending | finish =>
    simp only [perform, World.update]
    split <;> (try split) <;> exact hm
  case loadRow | writeRow | markEndNotified | markQueued | markCancelled | sweep | deleteJob |
      replaceFile | removeFile | claim | sendMail =>
    simp only [perform]
    split <;> (try split) <;> exact hm
  all_goals exact hm

/-- A message stays on the queue unless it is delivered, or dropped as revoked. -/
theorem message_cases (he : e.Allowed) {m : Message} (hm : m ∈ e.before.messages) :
    m ∈ e.after.messages ∨ (∃ routing, e.call = answered (.receive routing) (some m)) ∨
      ∃ routing, e.call.op = .receive routing ∧ m.id ∈ e.before.revoked := by
  obtain ⟨t, ⟨o, a⟩, before, after⟩ := e
  obtain ⟨c, hex⟩ := he
  change exec o c before = (a, after) at hex
  cases ho : o.receives with
  | false =>
    refine .inl ?_
    have hkept := exec_messages_of_not_receives (c := c) ho hm
    rwa [hex] at hkept
  | true =>
    cases o <;> try cases ho
    rename_i routing
    rcases hf : Op.fault (.receive routing) c with _ | f
    case some =>
      rw [exec_of_fault hf] at hex
      obtain ⟨-, rfl⟩ := Prod.mk.inj hex
      exact .inl hm
    rw [exec_of_no_fault hf] at hex
    simp only [perform] at hex
    split at hex
    case h_2 =>
      obtain ⟨-, rfl⟩ := Prod.mk.inj hex
      exact .inl hm
    rename_i m' hm'
    split at hex
    case isFalse =>
      obtain ⟨-, rfl⟩ := Prod.mk.inj hex
      exact .inl hm
    obtain ⟨rfl, rfl⟩ := Prod.mk.inj hex
    dsimp only
    split
    · exact .inl hm
    -- the message taken is this one, or this one stays
    rw [List.mem_iff_getElem?] at hm
    obtain ⟨i, hi⟩ := hm
    by_cases hic : i = c.delivered
    · subst hic
      obtain rfl := Option.some.inj (hm'.symm.trans hi)
      split
      · exact .inr (.inr ⟨_, rfl, by assumption⟩)
      · exact .inr (.inl ⟨_, rfl⟩)
    · refine .inl (List.mem_eraseIdx_iff_getElem?.2 ⟨i, hic, hi⟩)

/-- Ids are revoked by nobody else. -/
theorem exec_revoked {id : TaskId} (h : id ∈ (exec o c w).2.revoked) :
    id ∈ w.revoked ∨ o = .revokeJob id := by
  rcases hf : o.fault c with _ | f
  case some =>
    rw [exec_of_fault hf] at h
    cases o
    case submitJob =>
      simp only [interrupted] at h
      split at h <;> exact .inl h
    all_goals exact .inl h
  rw [exec_of_no_fault hf] at h
  cases o
  case revokeJob id' =>
    rcases List.mem_cons.1 h with rfl | h
    · exact .inr rfl
    · exact .inl h
  case updateColumns | raiseStage =>
    simp only [perform, World.require] at h
    split at h <;> exact .inl h
  case updateInput | setStreetProcessingOfTask | updateMembershipUploadOfTask | markStartFailed |
      markPending | finish =>
    simp only [perform, World.update] at h
    split at h <;> (try split at h) <;> exact .inl h
  case loadRow | writeRow | markEndNotified | markQueued | markCancelled | sweep | deleteJob |
      replaceFile | removeFile | claim | sendMail | submitJob =>
    simp only [perform] at h
    split at h <;> (try split at h) <;> exact .inl h
  case receive =>
    simp only [perform] at h
    split at h
    · split at h
      · dsimp only at h
        split at h <;> exact .inl h
      · exact .inl h
    · exact .inl h
  all_goals exact .inl h

theorem revoked_cases (he : e.Allowed) {id : TaskId} (h : id ∈ e.after.revoked) :
    id ∈ e.before.revoked ∨ e.call = answered (.revokeJob id) () := by
  obtain ⟨t, ⟨o, a⟩, before, after⟩ := e
  obtain ⟨c, hex⟩ := he
  change exec o c before = (a, after) at hex
  have hrevoked : id ∈ (exec o c before).2.revoked := by
    rw [hex]
    exact h
  rcases exec_revoked hrevoked with hold | rfl
  · exact .inl hold
  rcases hf : Op.fault (.revokeJob id) c with _ | f
  · rw [exec_of_no_fault hf] at hex
    exact .inr (by rw [← (Prod.mk.inj hex).1])
  · rw [exec_of_fault hf] at hex
    rw [← (Prod.mk.inj hex).2] at h
    exact .inl h

end Cosmonaut
