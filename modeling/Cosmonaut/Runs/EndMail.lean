import Cosmonaut.Model.Authors
import Cosmonaut.Model.JobRuns

/-!
# The end mail of a run

A worker sends the end mail of the run it has computed and then flags the row, whatever finished run
the row holds by then.

* `FlagOrder`, `Request.flagOrder`: what a request has called before it sends an end mail or flags
  it.
* `end_mails_own_iff`: when a flagged row of a finished run means that this run's mail was sent.
* `flagged_without_mail`: a run in which it does not.
-/

namespace Cosmonaut

open Interleaving Program

/-- An end mail was sent. -/
def endMailSent : Call sig → Bool
  | ⟨.sendMail (.ended ..), .ok true⟩ => true
  | _ => false

/-- The run that the call has claimed. -/
def claimedNumber : Call sig → Option ℕ
  | ⟨.claim, .ok (some (_, n))⟩ => some n
  | _ => none

theorem claimedNumber_eq_some {c : Call sig} {n : ℕ} (h : claimedNumber c = some n) :
    ∃ id, c = answered .claim (some (id, n)) := by
  unfold claimedNumber at h
  split at h
  · exact ⟨_, by rw [Option.some.inj h]⟩
  · cases h

theorem endMailSent_eq_true {c : Call sig} (h : endMailSent c = true) :
    ∃ email status, c = answered (.sendMail (.ended email status)) true := by
  unfold endMailSent at h
  split at h
  · exact ⟨_, _, rfl⟩
  · cases h

/-! ## Before an end mail -/

/-- The operation neither claims a run nor ends it, sends no end mail in a run, and sets no flag. -/
def Op.KeepsDue : Op → Prop
  | .claim | .finish .. | .markEndNotified => False
  | .writeRow columns => columns.notifiedEnd = false
  | .updateColumns vs | .updateInput vs => .notifiedEnd true ∉ vs
  | _ => True

/-- What a thread has called before: it claims one run and ends it, then sends the end mail, and
then flags the row. -/
def FlagOrder (past : List (Call sig)) (c : Call sig) : Prop :=
  match c.op with
  | .claim => ∀ a ∈ past, a.op ≠ .claim
  | .finish id status => status ≠ .running ∧ ∃ n, answered .claim (some (id, n)) ∈ past
  | .sendMail (.ended ..) => ∀ id n, answered .claim (some (id, n)) ∈ past →
    ∃ status a, answered (.finish id status) a ∈ past
  | .markEndNotified => ∃ email status past₀,
    past = answered (.sendMail (.ended email status)) true :: past₀ ∧
      ∃ id n, answered .claim (some (id, n)) ∈ past₀
  | .writeRow columns => columns.notifiedEnd = false
  | .updateColumns vs | .updateInput vs => .notifiedEnd true ∉ vs
  | _ => True

variable {here : Site} {α : Type} {past : List (Call sig)}

/-- The operation sends an end mail. -/
def Op.isEndMail : Op → Bool
  | .sendMail (.ended ..) => true
  | _ => false

theorem flagOrder_of_keepsDue {c : Call sig} (h : c.op.KeepsDue)
    (hmail : c.op.isEndMail = true → ∀ a ∈ past, a.op ≠ .claim) : FlagOrder past c := by
  obtain ⟨o, r⟩ := c
  cases o
  case claim | finish | markEndNotified => exact h.elim
  case writeRow | updateColumns | updateInput => exact h
  case sendMail m =>
    cases m with
    | ended email status => exact fun id n hclaim => absurd rfl (hmail rfl _ hclaim)
    | submitted | uploadFailed => trivial
  all_goals trivial

theorem keepsDue_of_isLocal {o : Op} (h : o.isLocal here = true) : o.KeepsDue := by
  cases o <;> trivial

theorem keepsDue_of_isAdoption {o : Op} (h : o.isAdoption here = true) : o.KeepsDue := by
  unfold Op.isAdoption at h
  split at h
  · simp [Op.KeepsDue]
  · simp [Op.KeepsDue]
  · trivial
  · cases h

theorem keepsDue_menu (here : Site) : Menu here Op.KeepsDue where
  stays _ := keepsDue_of_isLocal
  shared o h := by cases o <;> trivial
  inputs vs h hv := by cases h.inputs _ hv
  due := by simp [Op.KeepsDue]
  task _ := by simp [Op.KeepsDue]
  raises _ _ := trivial
  log _ := trivial

/-- A program without a claim. -/
theorem Asks.flagOrder {p : App α} (h : Asks Op.KeepsDue p) (hpast : ∀ a ∈ past, a.op ≠ .claim) :
    p.Trail FlagOrder (fun past _ => ∀ a ∈ past, a.op ≠ .claim) past :=
  h.trail_keeps (I := fun past : List (Call sig) => ∀ a ∈ past, a.op ≠ .claim)
    (fun _ _ hpast hc => flagOrder_of_keepsDue hc fun _ => hpast)
    (fun past c hc hpast => List.forall_mem_cons.2 ⟨fun hop => by rw [hop] at hc; exact hc, hpast⟩)
    hpast

/-- In a run: no end mail yet. -/
abbrev Op.KeepsQuiet (o : Op) : Prop := o.KeepsDue ∧ o.isEndMail = false

theorem keepsQuiet_menu (here : Site) : RunMenu here Op.KeepsQuiet where
  stays o h := ⟨keepsDue_of_isLocal h, by cases o <;> first | rfl | cases h⟩
  adopts o h := ⟨keepsDue_of_isAdoption h, by cases o <;> first | rfl | cases h⟩
  load := ⟨trivial, rfl⟩
  mail _ := ⟨trivial, rfl⟩
  url := ⟨trivial, rfl⟩
  log _ := ⟨trivial, rfl⟩
  pipeline := ⟨trivial, rfl⟩

/-- What holds of the past of a worker that has claimed a run, and then of one that has ended it. -/
structure InRun (id n : ℕ) (past : List (Call sig)) : Prop where
  claimed : answered .claim (some (id, n)) ∈ past
  once : ∀ id' n', answered .claim (some (id', n')) ∈ past → id' = id

theorem InRun.cons {id n : ℕ} (h : InRun id n past) {c : Call sig} (hc : c.op ≠ .claim) :
    InRun id n (c :: past) where
  claimed := List.mem_cons_of_mem _ h.claimed
  once id' n' hmem := by
    rcases List.mem_cons.1 hmem with rfl | hmem
    · exact absurd rfl hc
    · exact h.once id' n' hmem

/-- Of a worker that has ended its run. -/
structure RunDone (id n : ℕ) (past : List (Call sig)) : Prop extends InRun id n past where
  finished : ∃ status a, answered (.finish id status) a ∈ past

theorem RunDone.cons {id n : ℕ} (h : RunDone id n past) {c : Call sig} (hc : c.op ≠ .claim) :
    RunDone id n (c :: past) where
  toInRun := h.toInRun.cons hc
  finished := by
    obtain ⟨status, a, hmem⟩ := h.finished
    exact ⟨status, a, List.mem_cons_of_mem _ hmem⟩

theorem Asks.quiet {p : App α} {id n : ℕ} (h : Asks Op.KeepsQuiet p) (hpast : InRun id n past) :
    p.Trail FlagOrder (fun past _ => InRun id n past) past :=
  h.trail_keeps (I := InRun id n)
    (fun _ _ _ hc => flagOrder_of_keepsDue hc.1 fun hmail => by rw [hc.2] at hmail; cases hmail)
    (fun past c hc hpast => hpast.cons fun hop => by rw [hop] at hc; exact hc.1) hpast

/-- A worker that has ended its run sends the end mail and then flags it. -/
theorem notifyUser_flagOrder {id n : ℕ} (job : JobModel) (status : Status)
    (hpast : RunDone id n past) :
    (notifyUser job status).Trail FlagOrder (fun _ _ => True) past := by
  have hsend : ∀ {past}, RunDone id n past → Trail FlagOrder (fun _ _ => True) past (do
      if ← ask (.sendMail (.ended job.email status)) then
        Program.tryCatch
          (do let _ ← ask .markEndNotified)
          fun e => if e = .fault .jobNotFound then pure () else raise e : App Unit) := by
    intro past hpast
    refine trail_ask (fun _ id' n' hclaim => ?_) (fun sent => ?_) fun _ => trivial
    · obtain rfl := hpast.once id' n' hclaim
      exact hpast.finished
    · cases sent with
      | false => trivial
      | true =>
        intro r
        refine ⟨⟨_, _, _, rfl, id, n, hpast.claimed⟩, ?_⟩
        cases r with
        | ok a => trivial
        | error e =>
          change Trail FlagOrder (fun _ _ => True) _
            (if Err.fault e = .fault .jobNotFound then pure () else raise (.fault e))
          split <;> trivial
  unfold notifyUser
  split
  · split
    · exact trail_ask (fun _ => trivial) (fun _ => hsend (hpast.cons nofun)) fun _ => trivial
    · exact hsend hpast
  · trivial

variable [External]

theorem routingWorker_flagOrder :
    (routingWorker here).Trail FlagOrder (fun _ _ => True) [] := by
  refine trail_ask (fun _ => trivial) (fun received => ?_) fun _ => trivial
  rcases received with _ | m
  · trivial
  simp only [processRoutingJob, runJob, bind_assoc]
  refine trail_ask (fun _ a ha => ?_) (fun claimed => ?_) fun _ => trivial
  · rw [List.mem_singleton.1 ha]
    simp
  rcases claimed with _ | ⟨id, n⟩
  · trivial
  have hin : InRun id n [answered .claim (some (id, n)), answered (.receive true) (some m)] :=
    ⟨List.mem_cons_self, fun id' n' h => by
      simp only [List.mem_cons, List.not_mem_nil, or_false] at h
      rcases h with h | h <;> cases h
      rfl⟩
  have hm := keepsQuiet_menu { here with run := some n }
  have hcompute : Asks Op.KeepsQuiet (tryExcept
      (do
        ask (.pullWorkDir here.pod)
        computeRoute { here with run := some n }
        ask (.uploadWorkDir here.pod)
        return Status.completed)
      fun _ => do
        ask (.appendLog (some n) "The run failed.")
        return Status.failed) := by
    refine .tryCatch ?_ fun e => ?_
    · exact .bind (always_call fun _ => ⟨trivial, rfl⟩) fun _ => .bind hm.computeRoute fun _ =>
        .bind (always_call fun _ => ⟨trivial, rfl⟩) fun _ => trivial
    · exact always_ite (fun _ => trivial) fun _ =>
        .bind (always_call fun _ => ⟨trivial, rfl⟩) fun _ => trivial
  dsimp only
  simp only [bind_assoc]
  have hreturns : (tryExcept
      (do
        ask (.pullWorkDir here.pod)
        computeRoute { here with run := some n }
        ask (.uploadWorkDir here.pod)
        return Status.completed)
      fun _ => do
        ask (.appendLog (some n) "The run failed.")
        return Status.failed).Returns fun status => status ≠ .running := by
    refine .tryCatch (.last fun _ => .last fun _ => .last fun _ => by simp [Returns]) fun e => ?_
    dsimp only
    split
    · trivial
    · exact .last fun _ => by simp [Returns]
  refine (trail_bind _ _).2 (((hcompute.quiet hin).returns hreturns).mono (fun _ _ h => h) ?_)
  rintro past (e | status) ⟨hin, hstatus⟩
  · trivial
  refine trail_ask (fun _ => ⟨hstatus status rfl, n, hin.claimed⟩) (fun a => ?_) fun _ => trivial
  have hdone : RunDone id n (answered (.finish id status) a :: past) :=
    ⟨hin.cons nofun, status, a, List.mem_cons_self⟩
  intro r
  refine ⟨trivial, ?_⟩
  cases r with
  | ok row => exact notifyUser_flagOrder (.ofRow row) status (hdone.cons nofun)
  | error e =>
    change Trail FlagOrder (fun _ _ => True) _
      ((if Err.fault e = .fault .jobNotFound then pure none else raise (.fault e)) >>= _)
    split <;> trivial

/-- **What a request has called** before it sends an end mail or flags it. -/
theorem Request.flagOrder (r : Request) :
    (r.program here).Trail FlagOrder (fun _ _ => True) [] := by
  by_cases hr : r.computes = true
  · cases r
    case routingWorker => exact routingWorker_flagOrder
    all_goals cases hr
  · refine (Asks.flagOrder (Request.asks (by simpa using hr) (keepsDue_menu here)
      (fun _ _ => keepsDue_of_isAdoption) (fun _ _ h => h) (fun _ _ => ?_) (fun _ _ _ => ?_)
      fun _ _ => trivial) fun a ha => by cases ha).mono (fun _ _ h => h) fun _ _ _ => trivial
    · simp [Op.KeepsDue]
    · simp [Op.KeepsDue]

/-! ## The flag in the row -/

/-- The row holds a finished run. -/
def World.finished (w : World) : Prop :=
  ∃ r ∈ w.row, r.status = .completed ∨ r.status = .failed

/-- The row says that the end mail was sent. -/
def World.flagged (w : World) : Prop := ∃ r ∈ w.row, r.columns.notifiedEnd = true

instance (w : World) : Decidable w.finished :=
  inferInstanceAs (Decidable (∃ r ∈ w.row, r.status = .completed ∨ r.status = .failed))

instance (w : World) : Decidable w.flagged :=
  inferInstanceAs (Decidable (∃ r ∈ w.row, r.columns.notifiedEnd = true))

section

omit [External]

variable {e : Event machine} {w : World} {o : Op} {c : Choice} {id n : ℕ}

/-- Only the flagging flags a row. -/
theorem flagged_before (he : e.Allowed) (horder : FlagOrder past e.call) (h : e.after.flagged) :
    e.before.flagged ∨ e.call = answered .markEndNotified true := by
  obtain ⟨r', hr', hflag⟩ := h
  rcases hb : e.before.row with _ | r
  · obtain ⟨columns, hc, rfl⟩ := row_new_of_allowed he hb hr'
    rw [hc] at horder
    rw [show columns.notifiedEnd = false from horder] at hflag
    cases hflag
  by_cases hold : r.columns.notifiedEnd = true
  · exact .inl ⟨r, hb, hold⟩
  right
  obtain ⟨a, ha⟩ := ok_of_columns_ne he hb hr' fun h => hold (by rw [← h, hflag])
  have hop : e.call.op = .markEndNotified := by
    have hstep := columnsStep_of_allowed he hb hr'
    have hput : ∀ {vs : List ColumnValue}, r'.columns = r.columns.putAll vs →
        .notifiedEnd true ∈ vs := by
      intro vs hvs
      rw [hvs] at hflag
      have hcases : ∀ (c : Columns) v, (c.put v).notifiedEnd = c.notifiedEnd ∨
          v = .notifiedEnd (c.put v).notifiedEnd := by
        intro c v
        cases v <;> first | exact .inl rfl | exact .inr rfl
      rcases putAll_cases hcases r.columns vs with h | h
      · rw [h] at hflag
        exact absurd hflag hold
      · rwa [hflag] at h
    generalize hcolumns : r'.columns = columns at hstep
    rw [hcolumns] at hflag hput
    unfold FlagOrder at horder
    generalize e.call.op = o at hstep horder
    cases hstep with
    | same => exact absurd hflag hold
    | writeRow columns =>
      rw [show columns.notifiedEnd = false from horder] at hflag
      cases hflag
    | updateColumns vs | updateInput vs => exact absurd (hput rfl) horder
    | setStreetProcessing | updateMembershipUpload | raiseStage =>
      have hmem := hput rfl
      simp at hmem
    | markEndNotified => rfl
  obtain ⟨b, hc⟩ := answered_of_ok hop ⟨_, ha⟩
  cases b with
  | true => exact hc
  | false =>
    obtain ⟨c, hafter⟩ := after_of_answered he hc
    simp only [perform, hb] at hafter
    split at hafter
    · cases (Prod.mk.inj hafter).1
    · rw [← (Prod.mk.inj hafter).2, hb] at hr'
      rw [Option.some.inj hr'] at hold
      exact absurd hflag hold

/-- A finished run was so before, or ends in the step. -/
theorem finished_before (he : e.Allowed) (h : e.after.finished) :
    e.before.finished ∨ e.before.running := by
  obtain ⟨r', hr', hstatus⟩ := h
  have hstep := runStep_of_allowed he hr'
  generalize e.before = w at hstep
  generalize e.call = call at hstep
  cases hstep with
  | same hr hs => exact .inl ⟨_, hr, hs ▸ hstatus⟩
  | startFailed hq => exact .inr hq.running
  | cancelled hrunning | swept hrunning => exact .inr hrunning
  | finished hr hs => exact .inr ⟨_, hr, hs⟩
  | won _ hs | claimed _ hs | reset _ hs | created _ hs =>
    rw [hs] at hstatus
    rcases hstatus with h | h <;> cases h

/-- A flagged row stays with its run. -/
theorem flags_finished (he : e.Allowed) (hc : e.call = answered .markEndNotified true) :
    e.after.finished ∧ e.after.flagged := by
  obtain ⟨c, hafter⟩ := after_of_answered he hc
  simp only [perform] at hafter
  split at hafter
  · split at hafter
    · rename_i hstatus
      rw [← (Prod.mk.inj hafter).2]
      exact ⟨⟨_, rfl, hstatus⟩, _, rfl, rfl⟩
    · cases (Prod.mk.inj hafter).1
  · cases (Prod.mk.inj hafter).1

/-! ## A run that is claimed, and over -/

/-- While the row holds run `n` and is RUNNING, it carries the run id. -/
def Claimed (id n : ℕ) (w : World) : Prop :=
  n ≤ w.epoch ∧ (w.epoch = n → ∀ r ∈ w.row, r.status = .running →
    r.heartbeat = true ∧ r.runId = some id)

/-- Run `n` does not run any more. -/
def Over (n : ℕ) (w : World) : Prop := n ≤ w.epoch ∧ (w.epoch = n → ¬w.running)

theorem over_kept (he : e.Allowed) (h : Over n e.before) : Over n e.after := by
  obtain ⟨hle, hnot⟩ := h
  rcases epoch_cases he with ⟨hc, hepoch⟩ | ⟨-, hepoch⟩
  · refine ⟨by omega, fun hn hrunning => ?_⟩
    exact hnot (by omega) (running_before he hc hrunning)
  · exact ⟨by omega, fun hn => by omega⟩

/-- A run that is claimed keeps its id. -/
theorem exec_claim_kept {r r' : Row} (hr : w.row = some r) (hstatus : r.status = .running)
    (hbeat : r.heartbeat = true) (h : (exec o c w).2.row = some r') :
    r'.heartbeat = true ∧ r'.runId = r.runId := by
  have hsame : r' = r → r'.heartbeat = true ∧ r'.runId = r.runId := by
    rintro rfl
    exact ⟨hbeat, rfl⟩
  by_cases ho : o.writesRow = false
  · rw [exec_row_of_not_writesRow ho, hr] at h
    exact hsame (Option.some.inj h).symm
  rcases hf : o.fault c with _ | f
  case some =>
    rw [exec_of_fault hf, interrupted_row, hr] at h
    exact hsame (Option.some.inj h).symm
  rw [exec_of_no_fault hf] at h
  cases o
  case writeRow | updateColumns | raiseStage =>
    simp only [perform, World.require, hr, Option.some.injEq] at h
    subst h
    exact ⟨hbeat, rfl⟩
  case updateInput | setStreetProcessingOfTask | updateMembershipUploadOfTask | markStartFailed |
      finish =>
    rw [perform, update_row hr, Option.some.injEq] at h
    subst h
    split <;> exact ⟨hbeat, rfl⟩
  case markPending =>
    rw [perform, update_row hr, if_neg (by simp [hstatus])] at h
    exact hsame (Option.some.inj h).symm
  case markQueued | claim =>
    simp only [perform, hr, hstatus, hbeat] at h
    simp only [reduceCtorEq, or_self, and_false, Bool.true_eq_false, if_false, hr] at h
    exact hsame (Option.some.inj h).symm
  case markEndNotified | markCancelled | sweep | deleteJob =>
    simp only [perform, hr] at h
    split at h <;> simp only [hr, Option.some.injEq] at h <;> subst h <;>
      exact ⟨hbeat, rfl⟩
  all_goals exact absurd rfl ho

theorem claimed_kept (he : e.Allowed) (h : Claimed id n e.before) : Claimed id n e.after := by
  obtain ⟨hle, hclaimed⟩ := h
  rcases epoch_cases he with ⟨hc, hepoch⟩ | ⟨-, hepoch⟩
  · refine ⟨by omega, fun hn r' hr' hstatus' => ?_⟩
    obtain ⟨r, hr, hstatus⟩ := running_before he hc ⟨r', hr', hstatus'⟩
    obtain ⟨hbeat, hid⟩ := hclaimed (by omega) r hr hstatus
    obtain ⟨c, hafter⟩ := after_of_allowed he
    obtain ⟨hbeat', hid'⟩ := exec_claim_kept hr hstatus hbeat (hafter ▸ hr')
    exact ⟨hbeat', hid'.trans hid⟩
  · exact ⟨by omega, fun hn => by omega⟩

theorem claimed_of_claim (he : e.Allowed) (hc : e.call = answered .claim (some (id, n))) :
    Claimed id n e.after := by
  obtain ⟨c, hafter⟩ := after_of_answered he hc
  simp only [perform] at hafter
  split at hafter
  · split at hafter
    · obtain ⟨hans, hw⟩ := Prod.mk.inj hafter
      obtain ⟨rfl, rfl⟩ := Prod.mk.inj (Option.some.inj (Except.ok.inj hans))
      rw [← hw]
      refine ⟨le_rfl, fun _ r hr _ => ?_⟩
      obtain rfl := Option.some.inj hr
      exact ⟨rfl, rfl⟩
    · cases (Prod.mk.inj hafter).1
  · cases (Prod.mk.inj hafter).1

/-- The end of a run that was claimed is its end. -/
theorem over_of_finish {status : Status} {b : Bool} (he : e.Allowed) (hstatus : status ≠ .running)
    (hc : e.call = answered (.finish id status) b) (h : Claimed id n e.before) :
    Over n e.after := by
  obtain ⟨c, hafter⟩ := after_of_answered he hc
  obtain ⟨hle, hclaimed⟩ := h
  cases b with
  | true =>
    obtain ⟨r, hr, -, hw⟩ := update_true hafter
    rw [hw]
    exact ⟨hle, fun _ => not_running_of_status rfl hstatus⟩
  | false =>
    obtain ⟨hsame, hnot⟩ := update_false hafter
    rw [hsame]
    refine ⟨hle, fun hn hrunning => ?_⟩
    obtain ⟨r, hr, hrunning⟩ := hrunning
    exact of_decide_eq_false (hnot r hr) ⟨hrunning, (hclaimed hn r hr hrunning).2⟩

/-- The end of a run leaves the flag. -/
theorem flagged_of_ended (he : e.Allowed) (hrunning : e.before.running)
    (hfinished : e.after.finished)
    (hflagged : e.before.flagged) : e.after.flagged ∧ claimedNumber e.call = none ∧
      endMailSent e.call = false ∧ e.call ≠ answered .markQueued true := by
  obtain ⟨r, hr, hflag⟩ := hflagged
  obtain ⟨r', hr', hstatus⟩ := hfinished
  have hcolumns := columnsStep_of_allowed he hr hr'
  have hstep := runStep_of_allowed he hr'
  suffices h : r'.columns = r.columns ∧ claimedNumber e.call = none ∧ endMailSent e.call = false ∧
      e.call ≠ answered .markQueued true from ⟨⟨r', hr', by rw [h.1, hflag]⟩, h.2⟩
  have hsame : r.status = .running := by
    obtain ⟨r₀, hr₀, hrunning⟩ := hrunning
    rwa [Option.some.inj (hr.symm.trans hr₀)]
  generalize e.before = w at hr hrunning hstep
  generalize e.call = call at hstep hcolumns
  generalize r'.columns = columns at hcolumns
  cases hstep with
  | same hr₀ hs =>
    rw [hs, ← Option.some.inj (hr.symm.trans hr₀), hsame] at hstatus
    rcases hstatus with h | h <;> cases h
  | startFailed | cancelled | swept =>
    cases hcolumns
    exact ⟨rfl, rfl, rfl, by simp⟩
  | finished =>
    cases hcolumns
    exact ⟨rfl, rfl, rfl, by simp⟩
  | won _ hs | claimed _ hs | reset _ hs | created _ hs =>
    rw [hs] at hstatus
    rcases hstatus with h | h <;> cases h

end

/-! ## The end mail over a run -/

/-- The end mail of run `n` was sent before the position, by a worker that had claimed the run. -/
def MailSent (es : List (Event machine)) (j n : ℕ) : Prop :=
  ∃ i < j, ∃ e ∈ es[i]?, endMailSent e.call = true ∧
    ∃ c ∈ callsOf e.thread (es.take i), claimedNumber c = some n

instance (es : List (Event machine)) (j n : ℕ) : Decidable (MailSent es j n) :=
  inferInstanceAs (Decidable (∃ i < j, ∃ e ∈ es[i]?, endMailSent e.call = true ∧
    ∃ c ∈ callsOf e.thread (es.take i), claimedNumber c = some n))

/-- Whenever the row holds a finished run and is flagged, the end mail of that run was sent. -/
def EndMailsOwn (es : List (Event machine)) : Prop :=
  ∀ j < es.length, ∀ e ∈ es[j]?, e.after.finished → e.after.flagged →
    MailSent es (j + 1) e.after.epoch

instance (es : List (Event machine)) : Decidable (EndMailsOwn es) :=
  inferInstanceAs (Decidable (∀ j < es.length, ∀ e ∈ es[j]?, e.after.finished → e.after.flagged →
    MailSent es (j + 1) e.after.epoch))

/-- The flag goes up for the run that sent its mail, and is down when a run ends. -/
structure FlagsOwn (es : List (Event machine)) : Prop where
  /-- When a worker flags the row, no guard was won since it claimed its run, or the run in the row
  has sent its end mail. -/
  own : ∀ j e n, es[j]? = some e → e.call = answered .markEndNotified true →
    (∃ c ∈ callsOf e.thread (es.take j), claimedNumber c = some n) →
    n = e.before.epoch ∨ MailSent es j e.before.epoch
  /-- A run ends in a row that is not flagged. -/
  down : ∀ e ∈ es, e.before.running → e.after.finished → ¬e.before.flagged

section

variable {w : World} {requests : List (Site × Request)} {es : List (Event machine)}
  {p' : Pool machine Err Unit} {e : Event machine} {i j n : ℕ}

omit [External] in
theorem MailSent.mono (h : MailSent es i n) (hij : i ≤ j) : MailSent es j n := by
  obtain ⟨k, hk, hmail⟩ := h
  exact ⟨k, by omega, hmail⟩

omit [External] in
theorem MailSent.before (h : MailSent es (j + 1) n) (he : es[j]? = some e)
    (hmail : endMailSent e.call = false) : MailSent es j n := by
  obtain ⟨i, hi, m, hm, hsent, hclaimed⟩ := h
  refine ⟨i, ?_, m, hm, hsent, hclaimed⟩
  by_contra hij
  obtain rfl : i = j := by omega
  obtain rfl := Option.some.inj (he.symm.trans hm)
  rw [hmail] at hsent
  cases hsent

theorem event_flagOrder (hrun : Run (serving w requests) es p') (he : es[j]? = some e) :
    FlagOrder (callsOf e.thread (es.take j)) e.call := by
  obtain ⟨prog, hprog⟩ := hrun.thread_mem (List.mem_of_getElem? he)
  obtain ⟨here, q, hq, rfl⟩ := serving_threads hprog
  exact hrun.trail_getElem he hprog q.flagOrder

/-- A thread claims once. -/
theorem claim_unique (hrun : Run (serving w requests) es p') {a b : Event machine}
    (ha : es[i]? = some a) (hb : es[j]? = some b) (hthread : a.thread = b.thread)
    (hca : a.call.op = .claim) (hcb : b.call.op = .claim) : a = b := by
  have hnot : ∀ {i j : ℕ} {a b : Event machine}, es[i]? = some a → es[j]? = some b →
      a.thread = b.thread → a.call.op = .claim → b.call.op = .claim → ¬i < j := by
    intro i j a b ha hb hthread hca hcb hij
    have horder := event_flagOrder hrun hb
    unfold FlagOrder at horder
    rw [hcb] at horder
    exact horder a.call (mem_callsOf_take.2 ⟨i, a, hij, ha, hthread, rfl⟩) hca
  obtain rfl : i = j := by
    have := hnot ha hb hthread hca hcb
    have := hnot hb ha hthread.symm hcb hca
    omega
  exact Option.some.inj (ha.symm.trans hb)

/-- **A run whose end mail was sent does not run any more.** -/
theorem over_of_mailSent (hrun : Run (serving w requests) es p') (he : es[j]? = some e)
    (hmail : MailSent es j n) : Over n e.before := by
  obtain ⟨i, hij, m, hm, hsent, c, hc, hclaimed⟩ := hmail
  obtain ⟨id, rfl⟩ := claimedNumber_eq_some hclaimed
  obtain ⟨email, status, hmail⟩ := endMailSent_eq_true hsent
  have horder := event_flagOrder hrun hm
  rw [hmail] at horder
  obtain ⟨status', b, hfinish⟩ := horder id n hc
  obtain ⟨k, f, hki, hf, hfthread, hfcall⟩ := mem_callsOf_take.1 hfinish
  have horder := event_flagOrder hrun hf
  rw [hfcall] at horder
  obtain ⟨hstatus, n', hclaim⟩ := horder
  obtain ⟨l, a, hlk, ha, hathread, hacall⟩ := mem_callsOf_take.1 hclaim
  obtain ⟨l', a', -, ha', hathread', hacall'⟩ := mem_callsOf_take.1 hc
  -- the run that was claimed is the one that was finished
  obtain rfl := claim_unique hrun ha ha' (by rw [hathread, hfthread, hathread'])
    (by rw [hacall]) (by rw [hacall'])
  rw [hacall] at hacall'
  obtain rfl : n' = n := by
    cases hacall'
    rfl
  have hclaimed : Claimed id n' f.before := hrun.chain.keeps_between ha hf hlk
    (claimed_of_claim (hrun.allowed (List.mem_of_getElem? ha)) hacall)
    fun _ _ _ _ _ hallowed => claimed_kept hallowed
  exact hrun.chain.keeps_between hf he (by omega)
    (over_of_finish (hrun.allowed (List.mem_of_getElem? hf)) hstatus hfcall hclaimed)
    fun _ _ _ _ _ hallowed => over_kept hallowed

/-- The worker that flags the row has sent the end mail of the run it has claimed. -/
theorem mailSent_of_flagging (hrun : Run (serving w requests) es p') (he : es[j]? = some e)
    (hc : e.call = answered .markEndNotified true) :
    ∃ n, (∃ c ∈ callsOf e.thread (es.take j), claimedNumber c = some n) ∧ MailSent es j n := by
  have horder := event_flagOrder hrun he
  rw [hc] at horder
  obtain ⟨email, status, past, hpast, id, n, hclaim⟩ := horder
  obtain ⟨l, m, r, hsplit, hthread, hmail, hl, -⟩ := callsOf_eq_cons hpast
  have hj : j ≤ es.length := (List.getElem?_eq_some_iff.1 he).1.le
  have hlength := congrArg List.length hsplit
  simp only [List.length_take, List.length_append, List.length_cons] at hlength
  have hlt : l.length < j := by omega
  have hm : es[l.length]? = some m := by
    rw [← List.getElem?_take_of_lt hlt, hsplit]
    simp
  have htake : es.take l.length = l := by
    rw [show l.length = min l.length j by omega, ← List.take_take, hsplit]
    simp
  refine ⟨n, ⟨answered .claim (some (id, n)), ?_, rfl⟩, l.length, hlt, m, hm,
    by rw [hmail]; rfl, answered .claim (some (id, n)), ?_, rfl⟩
  · rw [hpast]
    exact List.mem_cons_of_mem _ hclaim
  · rw [hthread, htake, hl]
    exact hclaim

/-- A flagged finished run was one before, or its mail was sent. -/
theorem FlagsOwn.mailSent_step (h : FlagsOwn es) (hrun : Run (serving w requests) es p')
    (he : es[j]? = some e) (hfinished : e.after.finished) (hflagged : e.after.flagged) :
    (e.before.finished ∧ e.before.flagged ∧ e.after.epoch = e.before.epoch) ∨
      MailSent es (j + 1) e.after.epoch := by
  have hallowed := hrun.allowed (List.mem_of_getElem? he)
  have hepoch : e.after.epoch = e.before.epoch := by
    rcases epoch_cases hallowed with ⟨-, hepoch⟩ | ⟨hwon, -⟩
    · exact hepoch
    · obtain ⟨r, hr, hrunning⟩ := (queued_of_won hallowed hwon).running
      obtain ⟨r', hr', hstatus⟩ := hfinished
      rw [Option.some.inj (hr.symm.trans hr')] at hrunning
      rw [hrunning] at hstatus
      rcases hstatus with h | h <;> cases h
  rcases flagged_before hallowed (event_flagOrder hrun he) hflagged with hbefore | hflags
  · rcases finished_before hallowed hfinished with hdone | hrunning
    · exact .inl ⟨hdone, hbefore, hepoch⟩
    · exact absurd hbefore (h.down e (List.mem_of_getElem? he) hrunning hfinished)
  · right
    obtain ⟨n, hclaimed, hsent⟩ := mailSent_of_flagging hrun he hflags
    rw [hepoch]
    rcases h.own j e n he hflags hclaimed with rfl | hown
    · exact hsent.mono (by omega)
    · exact hown.mono (by omega)

/-- In a run that flags its own, a flagged finished run has sent its end mail. -/
theorem FlagsOwn.mailSent (h : FlagsOwn es) (hw : ¬w.flagged)
    (hrun : Run (serving w requests) es p') (he : es[j]? = some e) (hfinished : e.after.finished)
    (hflagged : e.after.flagged) : MailSent es (j + 1) e.after.epoch := by
  induction j generalizing e with
  | zero =>
    rcases h.mailSent_step hrun he hfinished hflagged with ⟨-, hbefore, -⟩ | hsent
    · have hchain := hrun.chain
      rw [eq_append_of_getElem he] at hchain
      obtain ⟨-, hfirst, rfl, -⟩ := chain_append.1 hchain
      rw [← show w = e.before from hfirst] at hbefore
      exact absurd hbefore hw
    · exact hsent
  | succ j ih =>
    rcases h.mailSent_step hrun he hfinished hflagged with ⟨hdone, hbefore, hepoch⟩ | hsent
    · obtain ⟨a, ha⟩ : ∃ a, es[j]? = some a := by
        have hlt := (List.getElem?_eq_some_iff.1 he).1
        exact ⟨es[j], List.getElem?_eq_getElem (by omega)⟩
      have hsame : e.before = a.after :=
        hrun.chain.preserves_between (f := id) ha he (by omega) fun m d hjm hmj => by omega
      rw [hepoch, hsame]
      rw [hsame] at hdone hbefore
      exact (ih ha hdone hbefore).mono (by omega)
    · exact hsent

/-- **When a flagged finished run has sent its end mail**, over any run of requests. -/
theorem end_mails_own_iff (hw : ¬w.flagged) (hrun : Run (serving w requests) es p') :
    EndMailsOwn es ↔ FlagsOwn es := by
  constructor
  · intro h
    refine ⟨fun j e n he hc _ => .inr ?_, fun e hmem hrunning hfinished hflagged => ?_⟩
    · have hallowed := hrun.allowed (List.mem_of_getElem? he)
      obtain ⟨hfinished, hflagged⟩ := flags_finished hallowed hc
      have hsent := h j (List.getElem?_eq_some_iff.1 he).1 e he hfinished hflagged
      rcases epoch_cases hallowed with ⟨-, hepoch⟩ | ⟨hwon, -⟩
      · rw [hepoch] at hsent
        exact hsent.before he (by rw [hc]; rfl)
      · rw [hc] at hwon
        cases hwon
    · obtain ⟨j, he⟩ := List.mem_iff_getElem?.1 hmem
      have hallowed := hrun.allowed hmem
      obtain ⟨hflagged', -, hmail, hwon⟩ := flagged_of_ended hallowed hrunning hfinished hflagged
      have hsent := h j (List.getElem?_eq_some_iff.1 he).1 e he hfinished hflagged'
      rcases epoch_cases hallowed with ⟨-, hepoch⟩ | ⟨hc, -⟩
      · rw [hepoch] at hsent
        exact (over_of_mailSent hrun he (hsent.before he hmail)).2 rfl hrunning
      · exact hwon hc
  · intro h j _ e he
    exact h.mailSent hw hrun he

end

/-! ## A late flag -/

/-- In every run of requests, whenever the row holds a finished run and is flagged, the end mail of
that run was sent. -/
def EndMailsAlwaysOwn : Prop :=
  ∀ w requests es p', ¬w.flagged → Run (serving w requests) es p' → EndMailsOwn es

omit [External]

/-- A job with a recipient: a tab starts it and a second one restarts it, with a worker for each
run. -/
def startAndRestart : List (Site × Request) :=
  [(⟨0, 0, none⟩, .startComputation), (⟨1, 0, none⟩, .routingWorker),
    (⟨0, 1, none⟩, .restartComputation), (⟨2, 0, none⟩, .routingWorker)]

def startAndRestartPool : Pool machine Err Unit :=
  let _ := External.plain
  serving (.fresh (.ofModel { JobModel.blank with email := "user" })) startAndRestart

/-- The first worker, up to the end mail that it sends. -/
def mailSentFirst : List ℕ := List.replicate 10 0 ++ List.replicate 23 1

/-- The first worker flags its own run. -/
def flaggedInTime : List (Event machine) :=
  (startAndRestartPool.play (usually (mailSentFirst ++ [1]))).1

/-- The first worker flags the row when the second run is COMPLETED, and the second worker, which
then loads the job, sends no mail. -/
def flaggedLate : List (Event machine) :=
  (startAndRestartPool.play
    (usually (mailSentFirst ++ List.replicate 14 2 ++ List.replicate 20 3 ++ [1] ++
      List.replicate 5 3))).1

theorem flagsOwn_flaggedInTime : FlagsOwn flaggedInTime :=
  let _ := External.plain
  (end_mails_own_iff (by decide +kernel) (Run.of_play _ startAndRestartPool)).1 (by decide +kernel)

/-- **A finished run is flagged, and its end mail is never sent.** -/
theorem flagged_without_mail : ¬ @EndMailsAlwaysOwn External.plain := by
  intro h
  let _ := External.plain
  have hown := h _ startAndRestart flaggedLate _ (by decide +kernel)
    (Run.of_play _ startAndRestartPool)
  have hnot : ¬EndMailsOwn flaggedLate := by decide +kernel
  exact hnot hown

end Cosmonaut
