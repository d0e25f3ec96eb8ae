import Cosmonaut.Interleaving.Order
import Cosmonaut.Runs.EndMail

/-!
# The life of a run

However often the message of a run is delivered and however many workers take it, one worker
computes the run. It mails, computes, ends and flags it once and in this order, and the row turns
COMPLETED only by a computation that has held the row from its claim on.

* `Op.act`: what is done once in a run, and `routingWorker_ascends`: a worker keeps to the order.
* `claim_number_unique`: no run is claimed twice.
* `run_acts_in_order`: the acts of a run, over all its deliveries.
* `completed_means_computed`: what has come before a row turned COMPLETED.
-/

namespace Cosmonaut

open Interleaving Program

/-! ## The acts of a worker -/

/-- What is done once in a run. -/
inductive RunAct
  | claim
  | startMail
  | pipeline
  | finish
  | endMail
  | flag
  deriving DecidableEq

/-- The place of an act in its run. -/
def RunAct.rank : RunAct → ℕ
  | .claim => 0
  | .startMail => 1
  | .pipeline => 2
  | .finish => 3
  | .endMail => 4
  | .flag => 5

/-- The act that an operation is. -/
def Op.act : Op → Option RunAct
  | .claim => some .claim
  | .sendMail (.submitted _) => some .startMail
  | .pipeline _ => some .pipeline
  | .finish .. => some .finish
  | .sendMail (.ended ..) => some .endMail
  | .markEndNotified => some .flag
  | _ => none

def Op.actRank (o : Op) : Option ℕ := o.act.map RunAct.rank

theorem mem_actRank {o : Op} {n : ℕ} : n ∈ o.actRank ↔ ∃ a, o.act = some a ∧ a.rank = n := by
  simp [Op.actRank]

variable {here : Site} {α : Type} {lo hi : ℕ}

/-- A program without acts. -/
theorem Asks.ascends {p : App α} (h : Asks (fun o => o.act = none) p) :
    p.Ascends Op.actRank hi lo :=
  (h.mono fun c hc => by rw [Op.actRank, show c.op.act = none from hc]; rfl).ascends

theorem ascends_ask {o : Op} {a : RunAct} (ho : o.act = some a) (h : lo ≤ a.rank ∧ a.rank < hi) :
    (ask o : App o.Ans).Ascends Op.actRank hi lo :=
  ascends_call fun n hn => by
    obtain ⟨b, hb, rfl⟩ := mem_actRank.1 hn
    obtain rfl : a = b := Option.some.inj (ho.symm.trans hb)
    exact h

theorem act_of_isLocal {o : Op} (h : o.isLocal here = true) : o.act = none := by
  cases o <;> first | rfl | cases h

theorem act_of_isAdoption {o : Op} (h : o.isAdoption here = true) : o.act = none := by
  cases o <;> first | rfl | cases h

theorem notifyUser_ascends (job : JobModel) (status : Status) :
    (notifyUser job status).Ascends Op.actRank 6 4 := by
  have hsend : Ascends Op.actRank 6 4 (do
      if ← ask (.sendMail (.ended job.email status)) then
        Program.tryCatch
          (do let _ ← ask .markEndNotified)
          fun e => if e = .fault .jobNotFound then pure () else raise e : App Unit) := by
    refine .bind (m := 5) (ascends_ask (a := .endMail) rfl (by decide)) (fun sent => ?_)
      (by decide) (by decide)
    refine ascends_ite (fun _ => ?_) fun _ => trivial
    refine .tryCatch (m := 6) ?_ (fun e => ascends_ite (fun _ => trivial) fun _ => trivial)
      (by decide) le_rfl
    exact .bind (m := 6) (ascends_ask (a := .flag) rfl (by decide)) (fun _ => trivial) (by decide)
      le_rfl
  refine ascends_ite (fun _ => ascends_ite (fun _ => ?_) fun _ => hsend) fun _ => trivial
  exact .bind (m := 4) (Asks.ascends (asks_ask rfl)) (fun _ => hsend) le_rfl (by decide)

variable [External]

/-- The computation mails the start and runs the pipeline. -/
theorem computeRoute_ascends : (computeRoute here).Ascends Op.actRank 3 1 := by
  have hquiet : ∀ {α : Type} {p : App α} {lo hi : ℕ}, StaysOrAdopts here p →
      p.Ascends Op.actRank hi lo := fun h =>
    Asks.ascends (h.always.mono fun _ ho => ho.elim act_of_isLocal act_of_isAdoption)
  have hask : ∀ {o : Op} {lo hi : ℕ}, o.act = none → (ask o : App o.Ans).Ascends Op.actRank hi lo :=
    fun h => Asks.ascends (asks_ask h)
  have hlast : ∀ job, Ascends Op.actRank 3 3 (do
      ask (.appendLog here.run "Starting post-processing")
      CosmonautJob.createQrCodeRouting here job
      ask (.appendLog here.run "Post-processing complete. QR code generated")) := by
    intro job
    refine .bind (m := 3) (hask rfl) (fun _ => ?_) le_rfl le_rfl
    refine .bind (m := 3) (Asks.ascends ?_) (fun _ => hask rfl) le_rfl le_rfl
    exact (createQrCodeRouting_calls (fun _ => act_of_isLocal) rfl job).always
  have hcompute : ∀ job, Ascends Op.actRank 3 2 (do
      let sel ← StreetSelector.new here job
      sel.ensureProjected here
      ask (.pipeline here)
      ask (.appendLog here.run "Starting post-processing")
      CosmonautJob.createQrCodeRouting here job
      ask (.appendLog here.run "Post-processing complete. QR code generated")) := by
    intro job
    refine .bind (m := 2) (hquiet (StreetSelector.new_staysOrAdopts _)) (fun sel => ?_) le_rfl
      (by decide)
    refine .bind (m := 2) (hquiet (StreetSelector.ensureProjected_staysOrAdopts _)) (fun _ => ?_)
      le_rfl (by decide)
    exact .bind (m := 3) (ascends_ask (a := .pipeline) rfl (by decide)) (fun _ => hlast job)
      (by decide) le_rfl
  refine .bind (m := 1) (hask rfl) (fun _ => ?_) le_rfl (by decide)
  refine .bind (m := 1) (Asks.ascends (.bind (always_call fun _ => rfl) fun _ => trivial))
    (fun job => ?_)
    le_rfl (by decide)
  refine .bind (m := 2) ?_ (fun _ => hcompute job) (by decide) (by decide)
  refine ascends_ite (fun _ => ?_) fun _ => trivial
  exact .bind (m := 2) (ascends_ask (a := .startMail) rfl (by decide)) (fun _ => trivial)
    (by decide) le_rfl

/-- **A worker keeps to the order of the acts.** -/
theorem routingWorker_ascends : (routingWorker here).Ascends Op.actRank 6 0 := by
  have hask : ∀ {o : Op} {lo hi : ℕ}, o.act = none → (ask o : App o.Ans).Ascends Op.actRank hi lo :=
    fun h => Asks.ascends (asks_ask h)
  have hjob : (runJob here computeRoute).Ascends Op.actRank 4 0 := by
    refine .bind (m := 1) (ascends_ask (a := .claim) rfl (by decide)) (fun claimed => ?_)
      (by decide) (by decide)
    rcases claimed with _ | ⟨id, n⟩
    · trivial
    refine .bind (m := 3) (.tryCatch (m := 3) ?_ (fun e => ?_) (by decide) le_rfl)
      (fun status => ?_) (by decide) (by decide)
    · refine .bind (m := 1) (hask rfl) (fun _ => ?_) le_rfl (by decide)
      refine .bind (m := 3) computeRoute_ascends (fun _ => ?_) (by decide) le_rfl
      exact .bind (m := 3) (hask rfl) (fun _ => trivial) le_rfl le_rfl
    · refine ascends_ite (fun _ => trivial) fun _ => ?_
      exact .bind (m := 3) (hask rfl) (fun _ => trivial) le_rfl le_rfl
    · exact .bind (m := 4) (ascends_ask (a := .finish) rfl (by decide)) (fun _ => trivial)
        (by decide) le_rfl
  refine .bind (m := 0) (hask rfl) (fun received => ?_) le_rfl (by decide)
  rcases received with _ | m
  · trivial
  refine .bind (m := 4) hjob (fun ended => ?_) (by decide) (by decide)
  rcases ended with _ | status
  · trivial
  refine .bind (m := 4) (.tryCatch (m := 4) ?_ (fun e => ?_) le_rfl le_rfl) (fun job => ?_)
    le_rfl (by decide)
  · exact Asks.ascends (.bind (.bind (always_call fun _ => rfl) fun _ => trivial) fun _ => trivial)
  · exact ascends_ite (fun _ => trivial) fun _ => trivial
  · rcases job with _ | job
    · trivial
    · exact notifyUser_ascends job status

/-! ## What a worker has called before it ends its run as COMPLETED -/

/-- The calls of a computation that went through: the work dir was pulled, the pipeline has run,
and the work dir was uploaded. -/
def computedCalls (here : Site) (n : ℕ) : List (Call sig) :=
  [answered (.pullWorkDir here.pod) (), answered (.pipeline { here with run := some n }) (),
    answered (.uploadWorkDir here.pod) ()]

/-- A run is ended as COMPLETED behind its claim and its computation. -/
def FinishOrder (past : List (Call sig)) (c : Call sig) : Prop :=
  ∀ id, c.op = .finish id .completed → ∃ (here : Site) (n : ℕ),
    ((computedCalls here n).reverse ++ [answered .claim (some (id, n))]).Sublist past

theorem computeRoute_passes :
    (computeRoute here).Passes [answered (.pipeline here) ()] := by
  refine .last fun _ => .last fun job => .last fun _ => .last fun sel => .last fun _ => ?_
  exact .first (passes_call fun _ => rfl)

/-- The computation of a run, and what becomes of its failure. -/
def runStatus (here : Site) (n : ℕ) : App Status :=
  tryExcept
    (do
      ask (.pullWorkDir here.pod)
      computeRoute { here with run := some n }
      ask (.uploadWorkDir here.pod)
      return Status.completed)
    fun _ => do
      ask (.appendLog (some n) "The run failed.")
      return Status.failed

/-- A run is COMPLETED behind its computation only. -/
theorem runStatus_passes {n : ℕ} {past : List (Call sig)} :
    (runStatus here n).Trail (fun _ _ => True) (fun past' r => r = .ok .completed →
      ((computedCalls here n).reverse ++ past).Sublist past') past := by
  have hmain : Passes (computedCalls here n) (do
      ask (.pullWorkDir here.pod)
      computeRoute { here with run := some n }
      ask (.uploadWorkDir here.pod)
      return Status.completed : App Status) :=
    (passes_call fun _ => rfl).bind fun _ => computeRoute_passes.bind fun _ =>
      .first (passes_call fun _ => rfl)
  refine (trail_tryCatch _ _).2 ((hmain.trail (List.Sublist.refl past)).mono (fun _ _ h => h) ?_)
  rintro past' (e | status) h
  · have hfailed : Returns (fun status => status = .failed)
        (if e = .fault .killed then raise e else do
          ask (.appendLog (some n) "The run failed.")
          return Status.failed : App Status) := by
      split
      · trivial
      · exact .last fun _ => rfl
    refine ((always_of_forall (fun _ => trivial) _).trail past' |>.returns hfailed).mono
      (fun _ _ h => trivial) ?_
    rintro past' r ⟨-, hr⟩ hcompleted
    cases hr _ hcompleted
  · exact fun _ => h rfl

omit [External] in
theorem ne_finish_of_isLocal {o : Op} (h : o.isLocal here = true) (id : ℕ) :
    o ≠ .finish id .completed := by
  rintro rfl
  cases h

omit [External] in
theorem ne_finish_of_isAdoption {o : Op} (h : o.isAdoption here = true) (id : ℕ) :
    o ≠ .finish id .completed := by
  rintro rfl
  cases h

omit [External] in
theorem ne_finish_menu (here : Site) : RunMenu here fun o => ∀ id, o ≠ .finish id .completed where
  stays _ := ne_finish_of_isLocal
  adopts _ := ne_finish_of_isAdoption
  load := by simp
  mail := by simp
  url := by simp
  log := by simp
  pipeline := by simp

theorem routingWorker_finishOrder :
    (routingWorker here).Trail FinishOrder (fun _ _ => True) [] := by
  have hnone : ∀ {α : Type} {p : App α} {past : List (Call sig)},
      Asks (fun o => ∀ id, o ≠ .finish id .completed) p →
        p.Trail FinishOrder (fun _ _ => True) past := fun h =>
    (h.trail _).mono (fun _ _ hc id hop => absurd hop (hc id)) fun _ _ _ => trivial
  have hask : ∀ {o : Op}, (∀ id, o ≠ .finish id .completed) →
      Asks (fun o => ∀ id, o ≠ .finish id .completed) (ask o) := fun h => asks_ask h
  refine trail_ask (fun _ id h => by cases h) (fun received => ?_) fun _ => trivial
  rcases received with _ | m
  · trivial
  simp only [processRoutingJob, runJob, bind_assoc]
  refine trail_ask (fun _ id h => by cases h) (fun claimed => ?_) fun _ => trivial
  rcases claimed with _ | ⟨id, n⟩
  · trivial
  have hm := ne_finish_menu { here with run := some n }
  have hcalls : Asks (fun o => ∀ id, o ≠ .finish id .completed) (runStatus here n) := by
    refine .tryCatch ?_ fun e => ?_
    · exact .bind (hask (by simp)) fun _ => .bind hm.computeRoute fun _ =>
        .bind (hask (by simp)) fun _ => trivial
    · exact always_ite (fun _ => trivial) fun _ => .bind (hask (by simp)) fun _ => trivial
  dsimp only
  simp only [bind_assoc]
  change Trail FinishOrder (fun _ _ => True) _ (runStatus here n >>= _)
  refine (trail_bind _ _).2 (((hnone hcalls).and runStatus_passes).mono (fun _ _ h => h.1) ?_)
  rintro past (e | status) ⟨-, hpasses⟩
  · trivial
  refine trail_ask (fun r id' hop => ?_) (fun ended => ?_) fun _ => trivial
  · cases hop
    exact ⟨here, n, (List.Sublist.append_left (List.singleton_sublist.2 (by simp)) _).trans
      (hpasses rfl)⟩
  · simp only [pure_bind]
    refine hnone (.bind (.tryCatch (.bind (.bind (hask (by simp)) fun _ => trivial) fun _ =>
      trivial) fun e => always_ite (fun _ => trivial) fun _ => trivial) fun job => ?_)
    rcases job with _ | job
    · trivial
    · exact notifyUser_asks (P := fun o => ∀ id, o ≠ .finish id .completed) (by simp) (by simp)
        (by simp) job status

/-- The operation neither claims a run nor ends one. -/
def Op.KeepsRun : Op → Prop
  | .claim | .finish .. => False
  | _ => True

omit [External] in
theorem keepsRun_menu (here : Site) : Menu here Op.KeepsRun where
  stays o h := by cases o <;> trivial
  shared o h := by cases o <;> trivial
  inputs _ _ := trivial
  due := trivial
  task _ := trivial
  raises _ _ := trivial
  log _ := trivial

/-- The requests that compute no run neither claim one nor end one. -/
theorem Request.keepsRun {q : Request} (hq : q.computes = false) :
    Asks Op.KeepsRun (q.program here) :=
  Request.asks hq (keepsRun_menu here) (fun _ o h => by cases o <;> trivial)
    (fun _ _ _ => trivial) (fun _ _ => trivial) (fun _ _ _ => trivial) fun _ _ => trivial

theorem Request.finishOrder (q : Request) :
    (q.program here).Trail FinishOrder (fun _ _ => True) [] := by
  by_cases hq : q.computes = true
  · cases q
    case routingWorker => exact routingWorker_finishOrder
    all_goals cases hq
  · refine ((Request.keepsRun (by simpa using hq)).trail _).mono (fun _ c hc id hop => ?_)
      fun _ _ _ => trivial
    rw [hop] at hc
    exact hc.elim

/-! ## The run that holds the row -/

section

omit [External]

variable {w : World} {e : Event machine} {id n : ℕ}

/-- The row is RUNNING under this run id. -/
def World.holdsRun (id : ℕ) (w : World) : Prop :=
  ∃ r, w.row = some r ∧ r.status = .running ∧ r.runId = some id

/-- What a claim that went through has found and left. -/
theorem claimed_cases (he : e.Allowed) (hc : e.call = answered .claim (some (id, n))) :
    e.before.queued ∧ e.before.epoch = n ∧ e.after.epoch = n ∧ id < e.after.nextId ∧
      e.before.nextId = id := by
  obtain ⟨c, hafter⟩ := after_of_answered he hc
  simp only [perform] at hafter
  split at hafter
  · split at hafter
    · rename_i r hr hq
      obtain ⟨hans, hw⟩ := Prod.mk.inj hafter
      obtain ⟨rfl, rfl⟩ := Prod.mk.inj (Option.some.inj (Except.ok.inj hans))
      rw [← hw]
      exact ⟨⟨r, hr, hq⟩, rfl, rfl, Nat.lt_succ_self _, rfl⟩
    · cases (Prod.mk.inj hafter).1
  · cases (Prod.mk.inj hafter).1

/-- Run `n` is claimed, or over. -/
def Taken (n : ℕ) (w : World) : Prop := n ≤ w.epoch ∧ (w.epoch = n → ¬w.queued)

theorem taken_kept (he : e.Allowed) (h : Taken n e.before) : Taken n e.after := by
  obtain ⟨hle, hnot⟩ := h
  rcases epoch_cases he with ⟨hc, hepoch⟩ | ⟨-, hepoch⟩
  · exact ⟨by omega, fun hn hqueued => hnot (by omega) (queued_before he hc hqueued)⟩
  · exact ⟨by omega, fun hn => by omega⟩

theorem taken_of_claim (he : e.Allowed) (hc : e.call = answered .claim (some (id, n))) :
    Taken n e.after := by
  obtain ⟨-, -, hn, -⟩ := claimed_cases he hc
  exact ⟨hn.ge, fun _ => not_queued_of_claim he hc⟩

/-- A write of the row keeps the run id, drops it, or is the claim that sets it. -/
theorem exec_runId {o : Op} {c : Choice} {r r' : Row} (hr : w.row = some r)
    (h : (exec o c w).2.row = some r') :
    r'.runId = r.runId ∨ r'.runId = none ∨ o = .claim ∧ r'.runId = some w.nextId := by
  by_cases ho : o.writesRow = false
  · rw [exec_row_of_not_writesRow ho, hr] at h
    exact .inl (by rw [Option.some.inj h])
  rcases hf : o.fault c with _ | f
  case some =>
    rw [exec_of_fault hf, interrupted_row, hr] at h
    exact .inl (by rw [Option.some.inj h])
  rw [exec_of_no_fault hf] at h
  cases o
  case writeRow | updateColumns | raiseStage =>
    simp only [perform, World.require, hr, Option.some.injEq] at h
    subst h
    exact .inl rfl
  case updateInput | setStreetProcessingOfTask | updateMembershipUploadOfTask | markStartFailed |
      finish =>
    rw [perform, update_row hr, Option.some.injEq] at h
    subst h
    split <;> exact .inl rfl
  case markPending =>
    rw [perform, update_row hr, Option.some.injEq] at h
    subst h
    split
    · exact .inr (.inl rfl)
    · exact .inl rfl
  case claim =>
    simp only [perform, hr] at h
    split at h
    · obtain rfl := Option.some.inj h
      exact .inr (.inr ⟨rfl, rfl⟩)
    · rw [Option.some.inj (hr.symm.trans h)]
      exact .inl rfl
  case markQueued =>
    simp only [perform, hr] at h
    split at h
    · obtain rfl := Option.some.inj h
      exact .inr (.inl rfl)
    · rw [Option.some.inj (hr.symm.trans h)]
      exact .inl rfl
  case markEndNotified | markCancelled | sweep | deleteJob =>
    simp only [perform, hr] at h
    split at h <;> simp only [hr, Option.some.injEq, reduceCtorEq] at h <;> subst h <;>
      exact .inl rfl
  all_goals exact absurd rfl ho

/-- A run does not come back to the row: only the claim that drew its id puts it there. -/
theorem holdsRun_before (he : e.Allowed) (hid : id < e.before.nextId)
    (h : e.after.holdsRun id) : e.before.holdsRun id := by
  obtain ⟨r', hr', hstatus, hrun⟩ := h
  obtain ⟨c, hafter⟩ := after_of_allowed he
  rcases hr : e.before.row with _ | r
  · obtain ⟨columns, -, rfl⟩ := row_new_of_allowed he hr hr'
    cases hrun
  rcases exec_runId hr (hafter ▸ hr') with hsame | hnone | ⟨-, hnew⟩
  · refine ⟨r, hr, ?_, hsame.symm.trans hrun⟩
    rcases epoch_cases he with ⟨hc, -⟩ | ⟨hc, -⟩
    · obtain ⟨r₀, hr₀, hrunning⟩ := running_before he hc ⟨r', hr', hstatus⟩
      rwa [Option.some.inj (hr.symm.trans hr₀)]
    · obtain ⟨c, hwon⟩ := after_of_answered he hc
      simp only [perform, hr] at hwon
      split at hwon
      · rw [← (Prod.mk.inj hwon).2] at hr'
        obtain rfl := Option.some.inj hr'
        cases hrun
      · cases (Prod.mk.inj hwon).1
  · rw [hnone] at hrun
    cases hrun
  · rw [hnew] at hrun
    exact absurd (Option.some.inj hrun) hid.ne'

end

/-! ## Runs of requests -/

/-- The event at the position is this act of run `n`: its thread has claimed the run by then. -/
def ActOf (es : List (Event machine)) (n : ℕ) (act : RunAct) (i : ℕ) : Prop :=
  ∃ e ∈ es[i]?, e.call.op.act = some act ∧
    ∃ c ∈ callsOf e.thread (es.take (i + 1)), claimedNumber c = some n

instance (es : List (Event machine)) (n : ℕ) (act : RunAct) (i : ℕ) :
    Decidable (ActOf es n act i) :=
  inferInstanceAs (Decidable (∃ e ∈ es[i]?, e.call.op.act = some act ∧
    ∃ c ∈ callsOf e.thread (es.take (i + 1)), claimedNumber c = some n))

/-- A computation by thread `t`, from its claim at `i` up to `j`: run `n` under the run id `id`. -/
structure Computed (es : List (Event machine)) (t id n i j : ℕ) : Prop where
  /-- The thread has claimed the run. -/
  claim : ∃ e, es[i]? = some e ∧ e.thread = t ∧ e.call = answered .claim (some (id, n))
  /-- Since then it has pulled the work dir, run the pipeline and uploaded the work dir. -/
  calls : ∃ here k₁ k₂ k₃ e₁ e₂ e₃, i < k₁ ∧ k₁ < k₂ ∧ k₂ < k₃ ∧ k₃ < j ∧
    (es[k₁]? = some e₁ ∧ e₁.thread = t ∧ e₁.call = answered (.pullWorkDir here) ()) ∧
    (es[k₂]? = some e₂ ∧ e₂.thread = t ∧
      ∃ site : Site, site.run = some n ∧ e₂.call = answered (.pipeline site) ()) ∧
    es[k₃]? = some e₃ ∧ e₃.thread = t ∧ e₃.call = answered (.uploadWorkDir here) ()
  /-- All the time the row was RUNNING this run. -/
  held : ∀ m e, i < m → m ≤ j → es[m]? = some e → e.before.epoch = n ∧ e.before.holdsRun id

section

variable {w : World} {requests : List (Site × Request)} {es : List (Event machine)}
  {p' : Pool machine Err Unit} {i j n : ℕ} {a b : Event machine}

/-- **No run is claimed twice.** -/
theorem claim_number_unique (hrun : Run (serving w requests) es p') (ha : es[i]? = some a)
    (hb : es[j]? = some b) {id id' : ℕ} (hca : a.call = answered .claim (some (id, n)))
    (hcb : b.call = answered .claim (some (id', n))) : i = j := by
  have hnot : ∀ {i j id id' : ℕ} {a b : Event machine}, es[i]? = some a → es[j]? = some b →
      a.call = answered .claim (some (id, n)) → b.call = answered .claim (some (id', n)) →
        ¬i < j := by
    intro i j id id' a b ha hb hca hcb hij
    have htaken : Taken n b.before := hrun.chain.keeps_between ha hb hij
      (taken_of_claim (hrun.allowed (List.mem_of_getElem? ha)) hca)
      fun _ _ _ _ _ hallowed => taken_kept hallowed
    obtain ⟨hqueued, hn, -⟩ := claimed_cases (hrun.allowed (List.mem_of_getElem? hb)) hcb
    exact htaken.2 hn hqueued
  have := hnot ha hb hca hcb
  have := hnot hb ha hcb hca
  omega

/-- A thread that claims is a worker of the routing queue. -/
theorem claims_worker (hrun : Run (serving w requests) es p') {e : Event machine} (he : e ∈ es)
    (hop : e.call.op = .claim) :
    ∃ here, (serving w requests).threads[e.thread]? = some (routingWorker here) := by
  obtain ⟨prog, hprog⟩ := hrun.thread_mem he
  obtain ⟨here, q, -, rfl⟩ := serving_threads hprog
  by_cases hq : q.computes = true
  · cases q
    case routingWorker => exact ⟨here, hprog⟩
    all_goals cases hq
  · have hkeeps := hrun.always he hprog (Request.keepsRun (by simpa using hq))
    rw [hop] at hkeeps
    exact hkeeps.elim

/-- **The acts of a run happen once and in order**, over all deliveries of its message. -/
theorem run_acts_in_order (hrun : Run (serving w requests) es p') {act act' : RunAct}
    (hi : ActOf es n act i) (hj : ActOf es n act' j) :
    (i = j ↔ act = act') ∧ (i < j ↔ act.rank < act'.rank) := by
  obtain ⟨a, ha, hacta, c, hc, hclaimed⟩ := hi
  obtain ⟨b, hb, hactb, c', hc', hclaimed'⟩ := hj
  obtain ⟨id, rfl⟩ := claimedNumber_eq_some hclaimed
  obtain ⟨id', rfl⟩ := claimedNumber_eq_some hclaimed'
  obtain ⟨k, d, -, hd, hdthread, hdcall⟩ := mem_callsOf_take.1 hc
  obtain ⟨k', d', -, hd', hdthread', hdcall'⟩ := mem_callsOf_take.1 hc'
  -- the two threads have claimed the same run, so they are one
  obtain rfl := claim_number_unique hrun hd hd' hdcall hdcall'
  obtain rfl := Option.some.inj (hd.symm.trans hd')
  have hthread : a.thread = b.thread := hdthread.symm.trans hdthread'
  obtain ⟨here, hprog⟩ := claims_worker hrun (List.mem_of_getElem? hd) (by rw [hdcall])
  have hlt : i < j → act.rank < act'.rank := fun hij =>
    hrun.rank_lt (by rw [← hdthread', hprog]) routingWorker_ascends ha hb hthread hij
      (mem_actRank.2 ⟨act, hacta, rfl⟩) (mem_actRank.2 ⟨act', hactb, rfl⟩)
  have hgt : j < i → act'.rank < act.rank := fun hji =>
    hrun.rank_lt (by rw [← hdthread, hprog]) routingWorker_ascends hb ha hthread.symm hji
      (mem_actRank.2 ⟨act', hactb, rfl⟩) (mem_actRank.2 ⟨act, hacta, rfl⟩)
  have heq : i = j → act = act' := by
    rintro rfl
    obtain rfl := Option.some.inj (Option.mem_def.1 ha |>.symm.trans hb)
    exact Option.some.inj (hacta.symm.trans hactb)
  refine ⟨⟨heq, ?_⟩, hlt, ?_⟩
  · rintro rfl
    have := lt_irrefl act.rank
    omega
  · intro h
    have hne : i ≠ j := fun hij => by rw [heq hij] at h; exact lt_irrefl _ h
    omega

/-- The row is COMPLETED. -/
def World.completed (w : World) : Prop := ∃ r ∈ w.row, r.status = .completed

instance (w : World) : Decidable w.completed :=
  inferInstanceAs (Decidable (∃ r ∈ w.row, r.status = .completed))

omit [External] in
/-- Only the end of a run that holds the row turns it COMPLETED. -/
theorem completed_cases (he : a.Allowed) (hbefore : ¬a.before.completed)
    (hafter : a.after.completed) :
    ∃ id, a.call = answered (.finish id .completed) true ∧ a.before.holdsRun id := by
  obtain ⟨r', hr', hstatus⟩ := hafter
  have hstep := runStep_of_allowed he hr'
  have hheld : ∀ {id : ℕ}, a.call = answered (.finish id .completed) true →
      a.before.holdsRun id := by
    intro id hc
    obtain ⟨c, hafter⟩ := after_of_answered he hc
    obtain ⟨r, hr, hcond, -⟩ := update_true hafter
    obtain ⟨hrunning, hid⟩ := of_decide_eq_true hcond
    exact ⟨r, hr, hrunning, hid⟩
  generalize a.before = v at *
  generalize a.call = call at *
  cases hstep with
  | same hr hs => exact absurd ⟨_, hr, hs ▸ hstatus⟩ hbefore
  | finished hr hrunning hbeat hs =>
    rename_i id status
    obtain rfl : status = .completed := hs.symm.trans hstatus
    exact ⟨id, rfl, hheld rfl⟩
  | won _ hs | claimed _ hs | startFailed _ hs | cancelled _ hs | reset _ hs | swept _ hs =>
    rw [hs] at hstatus
    cases hstatus
  | created _ hs =>
    rw [hs] at hstatus
    cases hstatus

/-- **A row that turns COMPLETED was computed**: the thread that ends the run has claimed it, has
pulled, computed and uploaded since, and no other run was in the row meanwhile. -/
theorem completed_means_computed (hrun : Run (serving w requests) es p') (hb : es[j]? = some b)
    (hbefore : ¬b.before.completed) (hafter : b.after.completed) :
    ∃ id n i, i < j ∧ Computed es b.thread id n i j := by
  have hallowed : ∀ {k : ℕ} {e : Event machine}, es[k]? = some e → e.Allowed := fun he =>
    hrun.allowed (List.mem_of_getElem? he)
  obtain ⟨id, hc, hheld⟩ := completed_cases (hallowed hb) hbefore hafter
  obtain ⟨prog, hprog⟩ := hrun.thread_mem (List.mem_of_getElem? hb)
  obtain ⟨here, q, -, rfl⟩ := serving_threads hprog
  obtain ⟨site, n, hsub⟩ := hrun.trail_getElem hb hprog q.finishOrder id (by rw [hc])
  obtain ⟨k₃, e₃, hk₃, he₃, ht₃, hc₃, hsub⟩ := called_of_sublist hsub
  obtain ⟨k₂, e₂, hk₂, he₂, ht₂, hc₂, hsub⟩ := called_of_sublist hsub
  obtain ⟨k₁, e₁, hk₁, he₁, ht₁, hc₁, hsub⟩ := called_of_sublist hsub
  obtain ⟨i, e, hi, he, ht, hclaim, -⟩ := called_of_sublist hsub
  obtain ⟨-, -, hn, hnext, -⟩ := claimed_cases (hallowed he) hclaim
  have hij : i < j := by omega
  -- a run that is gone does not come back, and the run is still there at the end
  have hholds : ∀ m d, i < m → m ≤ j → es[m]? = some d → d.before.holdsRun id := by
    intro m d him hmj hd
    by_contra hgone
    have hnext' : id < d.before.nextId :=
      hrun.chain.keeps_between (I := fun w : World => id < w.nextId) he hd him hnext
        fun _ _ _ _ _ hal h => h.trans_le (nextId_le_of_allowed hal)
    rcases hmj.lt_or_eq with hmj | rfl
    · have hkept := hrun.chain.keeps_between
        (I := fun w : World => id < w.nextId ∧ ¬w.holdsRun id) hd hb hmj
        ⟨hnext'.trans_le (nextId_le_of_allowed (hallowed hd)),
          fun h => hgone (holdsRun_before (hallowed hd) hnext' h)⟩
        fun _ _ _ _ _ hal h => ⟨h.1.trans_le (nextId_le_of_allowed hal),
          fun hafter => h.2 (holdsRun_before hal h.1 hafter)⟩
      exact hkept.2 hheld
    · obtain rfl := Option.some.inj (hb.symm.trans hd)
      exact hgone hheld
  refine ⟨id, n, i, hij, ⟨⟨e, he, ht, hclaim⟩, ?_, ?_⟩⟩
  · exact ⟨site.pod, k₁, k₂, k₃, e₁, e₂, e₃, hi, hk₁, hk₂, hk₃, ⟨he₁, ht₁, hc₁⟩,
      ⟨he₂, ht₂, { site with run := some n }, rfl, hc₂⟩, he₃, ht₃, hc₃⟩
  · intro m d him hmj hd
    refine ⟨?_, hholds m d him hmj hd⟩
    have hepoch : d.before.epoch = e.after.epoch := hrun.chain.preserves_between he hd him
      fun k c hik hkm hc hal => by
        obtain ⟨r, hr, hrunning, -⟩ := hholds k c hik (by omega) hc
        rcases epoch_cases hal with ⟨-, h⟩ | ⟨hwon, -⟩
        · exact h
        · exact absurd ⟨r, hr, hrunning⟩ (not_running_of_won hal hwon)
    rw [hepoch, hn]

end

/-! ## A message delivered twice -/

omit [External]

/-- A tab starts a job with a recipient, and two workers take the message of its run. -/
def twoWorkers : List (Site × Request) :=
  [(⟨0, 0, none⟩, .startComputation), (⟨1, 0, none⟩, .routingWorker),
    (⟨2, 0, none⟩, .routingWorker)]

def twoWorkersPool : Pool machine Err Unit :=
  let _ := External.plain
  serving (.fresh (.ofModel { JobModel.blank with email := "user" })) twoWorkers

/-- The first worker's message stays on the queue, so that the second takes it too. -/
def deliveredTwice : List (Event machine) :=
  (twoWorkersPool.play (usually (List.replicate 10 0) ++
    [(1, { Choice.usual with redelivered := true })] ++
    usually ([2, 1, 2] ++ List.replicate 22 1))).1

theorem acts_deliveredTwice :
    (12 = 34 ↔ RunAct.claim = .endMail) ∧ (12 < 34 ↔ RunAct.claim.rank < RunAct.endMail.rank) :=
  let _ := External.plain
  run_acts_in_order (n := 1) (Run.of_play _ twoWorkersPool)
    (show ActOf deliveredTwice 1 .claim 12 by decide +kernel)
    (show ActOf deliveredTwice 1 .endMail 34 by decide +kernel)

theorem computed_deliveredTwice :
    ∃ id n i, i < 31 ∧ Computed deliveredTwice 1 id n i 31 := by
  let _ := External.plain
  obtain ⟨b, hb, hbefore, hafter, hthread⟩ : ∃ b ∈ deliveredTwice[31]?,
      ¬b.before.completed ∧ b.after.completed ∧ b.thread = 1 := by decide +kernel
  rw [← hthread]
  exact completed_means_computed (Run.of_play _ twoWorkersPool) hb hbefore hafter

end Cosmonaut
