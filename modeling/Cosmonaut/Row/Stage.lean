import Cosmonaut.Model.JobRuns

/-!
# The workflow stage

`raise_stage` only raises the stage. A submit and a reset write the stage of a loaded copy, and
Route & Download raises it to 5 on a loaded status.

* `StageOrigin`, `Request.stageOrigin`: where a stage that is written comes from.
* `stages_kept_iff`: when the stage falls in no step but from 5 to 4 in a reset, and no PENDING row
  has more than 4.
* `pending_at_stage_five`: a run that leaves a PENDING row at stage 5.
-/

namespace Cosmonaut

open Interleaving Program

/-- The stage in the row. -/
def World.stage (w : World) : Option ℕ := w.row.map fun r => r.columns.stage

/-- The operation writes the stage of a job object: a save, or the write of a reset. -/
def Op.copiesStage : Op → Option ℕ
  | .writeRow columns => some columns.stage
  | .updateColumns [.celeryTaskId none, .stage stage] => some stage
  | _ => none

/-- The operation is the write of a reset. -/
def Op.isReset : Op → Bool
  | .updateColumns [.celeryTaskId none, .stage _] => true
  | _ => false

/-- The pages raise the stage to their own. -/
def Request.opensPage : Request → Prop
  | .openStage stage => stage = 3 ∨ stage = 4
  | _ => True

/-! ## Where a stage comes from -/

/-- Whether the column is the stage. -/
def ColumnValue.isStage : ColumnValue → Bool
  | .stage _ => true
  | _ => false

/-- The operation writes no stage, but raises it, and ends a run COMPLETED or FAILED. -/
def Op.RaisesStage : Op → Prop
  | .writeRow _ => False
  | .updateColumns vs | .updateInput vs => ∀ v ∈ vs, v.isStage = false
  | .raiseStage stage => stage ≤ 5
  | .finish _ status => status ≠ .pending
  | _ => True

/-- A reset writes the stage of a loaded row, lowered to 4. A submit saves the stage of a loaded
row, raised to 4, or 4 after a reset. -/
def StageOrigin (past : List (Call sig)) (c : Call sig) : Prop :=
  c.op.RaisesStage ∨
    (∃ r, answered .loadRow r ∈ past ∧ c.op = resetColumns (min r.columns.stage 4)) ∨
    ∃ columns, c.op = .writeRow columns ∧
      ((∃ r, answered .loadRow r ∈ past ∧ columns.stage = max r.columns.stage 4) ∨
        columns.stage = 4 ∧ ∃ stage, answered (resetColumns stage) () ∈ past)

variable {here : Site} {α : Type} {past : List (Call sig)}

theorem raisesStage_of_isLocal {o : Op} (h : o.isLocal here = true) : o.RaisesStage := by
  cases o <;> trivial

theorem raisesStage_of_isAdoption {o : Op} (h : o.isAdoption here = true) : o.RaisesStage := by
  unfold Op.isAdoption at h
  split at h
  · simp [Op.RaisesStage, ColumnValue.isStage]
  · simp [Op.RaisesStage, ColumnValue.isStage]
  · trivial
  · cases h

theorem not_isStage_of_isInput {v : ColumnValue} (h : v.isInput = true) : v.isStage = false := by
  cases v <;> first | rfl | cases h

theorem raisesStage_menu (here : Site) : Menu here Op.RaisesStage where
  stays _ := raisesStage_of_isLocal
  shared o h := by cases o <;> trivial
  inputs vs h v hv := not_isStage_of_isInput (h.inputs v hv)
  due := by simp [Op.RaisesStage, ColumnValue.isStage]
  task _ := by simp [Op.RaisesStage, ColumnValue.isStage]
  raises _ h := h
  log _ := trivial

/-- The program's own writes of the stage are among `P`, and `P` has its origin in what has come
before. -/
theorem origin_of_asks {p : App α} {P : Op → Prop} {I : List (Call sig) → Prop}
    (h : Asks (fun o => o.RaisesStage ∨ P o) p)
    (hP : ∀ past (c : Call sig), I past → P c.op → StageOrigin past c)
    (hkeep : ∀ past c, I past → I (c :: past)) (hI : I past) :
    p.Trail StageOrigin (fun _ _ => True) past :=
  (h.trail_keeps (I := I) (fun past c hpast hc => hc.elim .inl (hP past c hpast))
    (fun past c _ hpast => hkeep past c hpast) hI).mono (fun _ _ h => h) fun _ _ _ => trivial

theorem Asks.origin {p : App α} (h : Asks Op.RaisesStage p) :
    p.Trail StageOrigin (fun _ _ => True) past :=
  (Always.trail h past).mono (fun _ _ hc => .inl hc) fun _ _ _ => trivial

/-- The menu of a submit or a reset. -/
theorem raisesStage_menu_or (here : Site) (P : Op → Prop) :
    Menu here fun o => o.RaisesStage ∨ P o where
  stays o h := .inl ((raisesStage_menu here).stays o h)
  shared o h := .inl ((raisesStage_menu here).shared o h)
  inputs vs h := .inl ((raisesStage_menu here).inputs vs h)
  due := .inl (raisesStage_menu here).due
  task id := .inl ((raisesStage_menu here).task id)
  raises stage h := .inl ((raisesStage_menu here).raises stage h)
  log text := .inl ((raisesStage_menu here).log text)

/-- A submit of a job object whose stage comes from somewhere. -/
theorem submit_origin {job : JobModel}
    (h : (∃ r, answered .loadRow r ∈ past ∧ max job.stage 4 = max r.columns.stage 4) ∨
      max job.stage 4 = 4 ∧ ∃ stage, answered (resetColumns stage) () ∈ past) :
    (CosmonautJob.submit here job).Trail StageOrigin (fun _ _ => True) past := by
  refine origin_of_asks (P := fun o => ∃ columns, o = .writeRow columns ∧
      columns.stage = max job.stage 4)
    (I := fun past => (∃ r, answered .loadRow r ∈ past ∧ max job.stage 4 = max r.columns.stage 4) ∨
      max job.stage 4 = 4 ∧ ∃ stage, answered (resetColumns stage) () ∈ past)
    ((raisesStage_menu_or here _).submit
      fun columns _ hstage _ => .inr ⟨columns, rfl, hstage⟩) ?_ ?_ h
  · rintro past c hpast ⟨columns, hop, hstage⟩
    rw [← hstage] at hpast
    exact .inr (.inr ⟨columns, hop, hpast⟩)
  · rintro past c (⟨r, hr, hstage⟩ | ⟨hstage, stage, hreset⟩)
    · exact .inl ⟨r, List.mem_cons_of_mem _ hr, hstage⟩
    · exact .inr ⟨hstage, stage, List.mem_cons_of_mem _ hreset⟩

/-- A reset of a job object whose stage is that of a loaded row; it returns one with stage at most
4. -/
theorem reset_origin {job : JobModel} {r : Row} (hr : answered .loadRow r ∈ past)
    (hstage : job.stage = r.columns.stage) :
    (CosmonautJob.reset here job).Trail StageOrigin
    (fun past res => ∀ job', res = .ok (job', true) →
      max job'.stage 4 = 4 ∧ ∃ stage, answered (resetColumns stage) () ∈ past) past := by
  refine trail_ask (fun _ => .inl trivial) (fun done => ?_) fun _ job' h => by cases h
  cases done with
  | false => exact fun job' h => by cases h
  | true =>
    refine trail_ask (fun _ => .inl trivial) (fun _ => ?_) fun _ job' h => by cases h
    refine trail_ask (fun _ => .inl trivial) (fun _ => ?_) fun _ job' h => by cases h
    refine trail_ask (fun _ => .inr (.inl ⟨r, by simp [hr], ?_⟩)) (fun _ => ?_)
      fun _ job' h => by cases h
    · rw [← hstage]
      rfl
    · rintro job' ⟨⟩
      exact ⟨by simp, min job.stage 4, List.mem_cons_self⟩

section

variable [External]

theorem load_origin {f : JobModel → App Unit}
    (hf : ∀ r past, answered .loadRow r ∈ past →
      (f (.ofRow r)).Trail StageOrigin (fun _ _ => True) past) :
    (CosmonautJob.load >>= f).Trail StageOrigin (fun _ _ => True) past := by
  simp only [CosmonautJob.load, bind_assoc]
  exact trail_ask (fun _ => .inl trivial) (fun r => hf r _ List.mem_cons_self) fun _ => trivial

theorem startComputation_origin :
    (startComputation here).Trail StageOrigin (fun _ _ => True) past := by
  apply load_origin
  intro r past hr
  split
  · exact (submit_origin (.inl ⟨r, hr, rfl⟩)).seq fun _ _ => trivial
  · trivial

theorem restartComputation_origin :
    (restartComputation here).Trail StageOrigin (fun _ _ => True) past := by
  apply load_origin
  intro r past hr
  split
  · trivial
  refine (trail_bind _ _).2 ((reset_origin hr rfl).mono (fun _ _ h => h) ?_)
  rintro past (e | ⟨job, done⟩) hjob
  · trivial
  cases done with
  | false => trivial
  | true => exact (submit_origin (.inr (hjob job rfl))).seq fun _ _ => trivial

theorem resetJob_origin : (resetJob here).Trail StageOrigin (fun _ _ => True) past := by
  apply load_origin
  intro r past hr
  refine (trail_bind _ _).2 ((reset_origin hr rfl).mono (fun _ _ h => h) ?_)
  rintro past (e | ⟨job, done⟩) -
  · trivial
  · cases done <;> trivial

/-- **Where the stages come from** that a request writes. -/
theorem Request.stageOrigin {r : Request} (hr : r.opensPage) :
    (r.program here).Trail StageOrigin (fun _ _ => True) [] := by
  by_cases hcopies : r.saves = false ∧ r.resets = false ∧ r.computes = false
  · obtain ⟨hsaves, hresets, hcomputes⟩ := hcopies
    refine Asks.origin (Request.asks hcomputes (raisesStage_menu here)
      (fun _ _ => raisesStage_of_isAdoption) (fun h => by rw [hsaves] at h; cases h)
      (fun h => by rw [hresets] at h; cases h) (fun _ u _ => ?_) fun stage h => ?_)
    · simp [Op.RaisesStage, ColumnValue.isStage]
    · subst h
      show stage ≤ 5
      rcases hr with rfl | rfl <;> decide
  · cases r
    case startComputation => exact startComputation_origin
    case restartComputation => exact restartComputation_origin
    case resetJob => exact resetJob_origin
    case routingWorker =>
      exact Asks.origin (routingWorker_asks (fun _ => raisesStage_menu _)
        (fun _ _ => raisesStage_of_isAdoption) (fun _ _ => trivial) (fun _ => trivial) trivial
        (fun _ => ⟨by simp [Op.RaisesStage], by simp [Op.RaisesStage]⟩) trivial)
    all_goals exact absurd ⟨rfl, rfl, rfl⟩ hcopies

end

/-! ## What a step does to the stage -/

variable {e : Event machine} {r r' : Row} {stage : ℕ}

theorem stage_putAll {c : Columns} {vs : List ColumnValue} (h : ∀ v ∈ vs, v.isStage = false) :
    (c.putAll vs).stage = c.stage := by
  have hput : ∀ (c : Columns) v, (c.put v).stage = c.stage ∨ v = .stage (c.put v).stage := by
    intro c v
    cases v <;> first | exact .inl rfl | exact .inr rfl
  rcases putAll_cases hput c vs with h' | h'
  · exact h'
  · cases h _ h'

/-- The step brings the stage into the row: it raises the row's to it, or copies it from a job
object. -/
def Brings (e : Event machine) (stage : ℕ) : Prop :=
  e.call.ans.isOk = true ∧ (e.call.op = .raiseStage stage ∨ e.call.op.copiesStage = some stage)

/-- **What a step does to the stage.** -/
theorem stage_cases (he : e.Allowed) (horigin : StageOrigin past e.call)
    (hb : e.before.row = some r)
    (ha : e.after.row = some r') :
    r'.columns.stage = r.columns.stage ∨
      (∃ stage, Brings e stage ∧ e.call.op = .raiseStage stage ∧
        r'.columns.stage = max r.columns.stage stage) ∨
      Brings e r'.columns.stage ∧ e.call.op.copiesStage = some r'.columns.stage := by
  by_cases hsame : r'.columns.stage = r.columns.stage
  · exact .inl hsame
  have hok : e.call.ans.isOk = true := by
    obtain ⟨a, hans⟩ := ok_of_columns_ne he hb ha fun h => hsame (by rw [h])
    rw [hans]
    rfl
  have hwrites : (∃ stage, e.call.op = .raiseStage stage ∧
        r'.columns.stage = max r.columns.stage stage) ∨
      e.call.op.copiesStage = some r'.columns.stage := by
    have hstep := columnsStep_of_allowed he hb ha
    unfold StageOrigin at horigin
    generalize r'.columns = columns at hstep hsame
    generalize e.call.op = o at hstep horigin
    have hunchanged : ∀ {vs : List ColumnValue}, columns = r.columns.putAll vs →
        ¬∀ v ∈ vs, v.isStage = false := fun h hvs => hsame (by rw [h, stage_putAll hvs])
    cases hstep with
    | same => exact absurd rfl hsame
    | writeRow columns => exact .inr rfl
    | raiseStage stage => exact .inl ⟨stage, rfl, rfl⟩
    | updateColumns vs =>
      rcases horigin with h | ⟨r₀, -, h⟩ | ⟨columns, h, -⟩
      · exact absurd h (hunchanged rfl)
      · obtain rfl := Op.updateColumns.inj h
        exact .inr rfl
      · cases h
    | updateInput vs =>
      rcases horigin with h | ⟨r₀, -, h⟩ | ⟨columns, h, -⟩
      · exact absurd h (hunchanged rfl)
      · cases h
      · cases h
    | setStreetProcessing | updateMembershipUpload | markEndNotified =>
      exact absurd (by simp [ColumnValue.isStage]) (hunchanged rfl)
  rcases hwrites with ⟨stage, hop, hstage⟩ | hcopies
  · exact .inr (.inl ⟨stage, ⟨hok, .inl hop⟩, hop, hstage⟩)
  · exact .inr (.inr ⟨⟨hok, .inr hcopies⟩, hcopies⟩)

/-- A row that is made anew brings its stage. -/
theorem brings_of_new (he : e.Allowed) (hb : e.before.row = none) (ha : e.after.row = some r') :
    Brings e r'.columns.stage ∧ e.call.op.copiesStage = some r'.columns.stage := by
  obtain ⟨columns, hc, rfl⟩ := row_new_of_allowed he hb ha
  have hcopies : e.call.op.copiesStage = some columns.stage := by rw [hc]; rfl
  exact ⟨⟨by rw [hc]; rfl, .inr hcopies⟩, hcopies⟩

/-- A row becomes PENDING only in a reset, or when a save makes it anew. -/
theorem pending_cases (he : e.Allowed) (horigin : StageOrigin past e.call)
    (ha : e.after.row = some r') (hpending : r'.status = .pending) :
    (∃ r, e.before.row = some r ∧ r.status = .pending) ∨ e.call = answered .markPending true ∨
      e.before.row = none := by
  have hstep := runStep_of_allowed he ha
  have hfinish : ∀ id a, e.call ≠ answered (.finish id .pending) a := by
    intro id a hc
    rcases horigin with h | ⟨_, -, h⟩ | ⟨_, h, -⟩ <;> rw [hc] at h
    · exact h rfl
    · cases h
    · cases h
  generalize e.before = w at hstep
  generalize e.call = call at hstep hfinish
  cases hstep with
  | same hr hs => exact .inl ⟨_, hr, hs ▸ hpending⟩
  | reset => exact .inr (.inl rfl)
  | created hnone => exact .inr (.inr hnone)
  | finished _ _ _ hs =>
    rw [← hs, hpending] at hfinish
    exact absurd rfl (hfinish _ _)
  | won _ hs | startFailed _ hs | cancelled _ hs | claimed _ hs | swept _ hs =>
    rw [hs] at hpending
    cases hpending

theorem copiesStage_cases {o : Op} (h : o.copiesStage = some stage) :
    (∃ columns, o = .writeRow columns ∧ columns.stage = stage) ∨ o = resetColumns stage := by
  unfold Op.copiesStage at h
  split at h
  · exact .inl ⟨_, rfl, Option.some.inj h⟩
  · exact .inr (by rw [Option.some.inj h])
  · cases h

/-- A stage that is brought is in the row afterwards, and the row keeps its status. A row made anew
is PENDING. -/
theorem Brings.after (h : Brings e stage) (he : e.Allowed) :
    ∃ r', e.after.row = some r' ∧ stage ≤ r'.columns.stage ∧
      (e.call.op.copiesStage = some stage → r'.columns.stage = stage) ∧
      ((∃ r, e.before.row = some r ∧ r'.status = r.status) ∨
        e.before.row = none ∧ r'.status = .pending) := by
  obtain ⟨t, ⟨o, ans⟩, before, after⟩ := e
  obtain ⟨hok, hop⟩ := h
  rcases ans with f | a
  · cases hok
  obtain ⟨c, hafter⟩ := after_of_answered he rfl
  change perform o c before = (.ok a, after) at hafter
  rcases hop with hop | hop
  · change o = _ at hop
    subst hop
    obtain ⟨r, hr, rfl⟩ := require_ok hafter
    exact ⟨_, rfl, le_max_right _ _, nofun, .inl ⟨r, hr, rfl⟩⟩
  rcases copiesStage_cases hop with ⟨columns, ho, rfl⟩ | ho
  · change o = _ at ho
    subst ho
    simp only [perform] at hafter
    split at hafter <;> rename_i hrow <;> rw [← (Prod.mk.inj hafter).2]
    · exact ⟨_, rfl, le_rfl, fun _ => rfl, .inl ⟨_, hrow, rfl⟩⟩
    · exact ⟨_, rfl, le_rfl, fun _ => rfl, .inr ⟨hrow, rfl⟩⟩
  · change o = _ at ho
    subst ho
    obtain ⟨r, hr, rfl⟩ := require_ok hafter
    exact ⟨_, rfl, le_rfl, fun _ => rfl, .inl ⟨r, hr, rfl⟩⟩

/-- A copied stage is in the row afterwards. -/
theorem stage_of_copied (he : e.Allowed) (hok : e.call.ans.isOk = true)
    (hcopies : e.call.op.copiesStage = some stage) : e.after.stage = some stage := by
  obtain ⟨r', hr', -, hstage, -⟩ := Brings.after ⟨hok, .inr hcopies⟩ he
  rw [World.stage, hr', Option.map_some, hstage hcopies]

/-- A reset leaves a PENDING row, at its stage. -/
theorem markPending_after (he : e.Allowed) (hc : e.call = answered .markPending true) :
    ∃ r r', e.before.row = some r ∧ e.after.row = some r' ∧ r'.status = .pending ∧
      r'.columns.stage = r.columns.stage := by
  obtain ⟨c, hafter⟩ := after_of_answered he hc
  obtain ⟨r, hr, -, hw⟩ := update_true hafter
  rw [hw]
  exact ⟨r, _, hr, rfl, rfl, rfl⟩

theorem copied_cases {c : Call sig} (h : StageOrigin past c) (hc : c.op.copiesStage = some stage) :
    (c.op.isReset = true ∧ ∃ r, answered .loadRow r ∈ past ∧ stage = min r.columns.stage 4) ∨
      c.op.isReset = false ∧ ((∃ r, answered .loadRow r ∈ past ∧ stage = max r.columns.stage 4) ∨
        stage = 4 ∧ ∃ stage', answered (resetColumns stage') () ∈ past) := by
  obtain ⟨o, a⟩ := c
  rcases h with h | ⟨r, hr, rfl⟩ | ⟨columns, rfl, h⟩
  · change o.copiesStage = some stage at hc
    unfold Op.copiesStage at hc
    split at hc
    · exact h.elim
    · cases h _ (List.mem_cons_of_mem _ List.mem_cons_self)
    · cases hc
  · exact .inl ⟨rfl, r, hr, (Option.some.inj hc).symm⟩
  · obtain rfl := Option.some.inj hc
    exact .inr ⟨rfl, h⟩

/-! ## The stage over a run -/

/-- The row's stage does not fall, but from 5 to 4 in a reset. -/
def StageRises (e : Event machine) : Prop :=
  ∀ s ∈ e.before.stage, ∀ s' ∈ e.after.stage,
    s ≤ s' ∨ e.call.op.isReset = true ∧ s = 5 ∧ s' = 4

instance (e : Event machine) : Decidable (StageRises e) :=
  inferInstanceAs (Decidable (∀ s ∈ e.before.stage, ∀ s' ∈ e.after.stage,
    s ≤ s' ∨ e.call.op.isReset = true ∧ s = 5 ∧ s' = 4))

/-- A PENDING row has at most stage 4. -/
def World.StageFits (w : World) : Prop :=
  ∀ r ∈ w.row, r.status = .pending → r.columns.stage ≤ 4

instance (w : World) : Decidable w.StageFits :=
  inferInstanceAs (Decidable (∀ r ∈ w.row, r.status = .pending → r.columns.stage ≤ 4))

/-- The stage only rises and fits the status. -/
structure StagesKept (es : List (Event machine)) : Prop where
  rises : ∀ e ∈ es, StageRises e
  fits : ∀ e ∈ es, e.after.StageFits

/-- The last change of the stage between two positions, if there is one, leaves one like this. -/
def StageLeft (es : List (Event machine)) (i j : ℕ) (P : ℕ → Prop) : Prop :=
  ∀ m c, i < m → m < j → es[m]? = some c → c.after.stage ≠ c.before.stage →
    (∀ n d, m < n → n < j → es[n]? = some d → d.after.stage = d.before.stage) →
    ∀ s ∈ c.after.stage, P s

/-- No step brings a stage that the row has left behind. -/
structure StagesSettled (es : List (Event machine)) : Prop where
  /-- Between the load of a job object and the write of its stage, no higher one comes into the row
  to stay; over a reset's 4 it may be 5. -/
  copies : ∀ i j l e r stage, i < j → es[i]? = some l → es[j]? = some e → l.thread = e.thread →
    l.call = answered .loadRow r → e.call.ans.isOk = true → e.call.op.copiesStage = some stage →
    StageLeft es i j fun s => s ≤ stage ∨ e.call.op.isReset = true ∧ s = 5 ∧ stage = 4
  /-- A stage above 4 is brought only into a row that is there and not PENDING. -/
  brings : ∀ e ∈ es, ∀ stage, Brings e stage → 4 < stage → ∃ r ∈ e.before.row, r.status ≠ .pending
  /-- No row above stage 4 is set PENDING. -/
  resets : ∀ e ∈ es, e.call = answered .markPending true → ∀ s ∈ e.before.stage, s ≤ 4

section

variable [External] {w : World} {requests : List (Site × Request)} {es : List (Event machine)}
  {p' : Pool machine Err Unit} {i j : ℕ}

theorem event_origin (hpages : ∀ q ∈ requests, q.2.opensPage)
    (hrun : Run (serving w requests) es p')
    (he : es[j]? = some e) : StageOrigin (callsOf e.thread (es.take j)) e.call := by
  obtain ⟨prog, hprog⟩ := hrun.thread_mem (List.mem_of_getElem? he)
  obtain ⟨here, q, hq, rfl⟩ := serving_threads hprog
  exact hrun.trail_getElem he hprog (Request.stageOrigin (hpages _ (List.mem_of_getElem? hq)))

/-- What the thread of a step has loaded before was the row then. -/
theorem loaded_before (hrun : Run (serving w requests) es p')
    (h : answered .loadRow r ∈ callsOf e.thread (es.take j)) : ∃ i l, i < j ∧ es[i]? = some l ∧
      l.thread = e.thread ∧ l.call = answered .loadRow r ∧ l.before.stage = some r.columns.stage ∧
      l.after.stage = some r.columns.stage := by
  obtain ⟨i, l, hij, hl, hthread, hcall⟩ := mem_callsOf_take.1 h
  obtain ⟨hbefore, hafter⟩ := row_of_loaded (hrun.allowed (List.mem_of_getElem? hl)) hcall
  exact ⟨i, l, hij, hl, hthread, hcall, by rw [World.stage, hbefore]; rfl,
    by rw [World.stage, hafter]; rfl⟩

/-- The stage is at most 5, throughout. -/
theorem stage_le_five (hpages : ∀ q ∈ requests, q.2.opensPage) (hw : ∀ s ∈ w.stage, s ≤ 5)
    (hrun : Run (serving w requests) es p') :
    ∀ e ∈ es, (∀ s ∈ e.before.stage, s ≤ 5) ∧ ∀ s ∈ e.after.stage, s ≤ 5 := by
  refine (hrun.chain.keeps_past (I := fun w => ∀ s ∈ World.stage w, s ≤ 5) hw ?_).1
  intro j e he hallowed hpast s hs
  have horigin := event_origin hpages hrun he
  have hcopied : e.call.op.copiesStage = some s → s ≤ 5 := by
    intro hcopies
    have hloaded : ∀ r, answered .loadRow r ∈ callsOf e.thread (es.take j) →
      r.columns.stage ≤ 5 := by
      intro r hr
      obtain ⟨i, l, hij, hl, -, -, hstage, -⟩ := loaded_before hrun hr
      exact hpast i l hij.le hl _ hstage
    rcases copied_cases horigin hcopies with ⟨-, r, hr, hs⟩ | ⟨-, ⟨r, hr, hs⟩ | ⟨hs, -⟩⟩
    · have := hloaded r hr
      omega
    · have := hloaded r hr
      omega
    · omega
  rw [World.stage, Option.mem_def, Option.map_eq_some_iff] at hs
  obtain ⟨r', hr', rfl⟩ := hs
  rcases hb : e.before.row with _ | r
  · exact hcopied (brings_of_new hallowed hb hr').2
  · have hr : r.columns.stage ≤ 5 := hpast j e le_rfl he _ (by rw [World.stage, hb]; rfl)
    rcases stage_cases hallowed horigin hb hr' with hsame | ⟨stage, -, hop, hraised⟩ | ⟨-, hcopies⟩
    · rwa [hsame]
    · have hle : stage ≤ 5 := by
        rcases horigin with h | ⟨_, -, h⟩ | ⟨_, h, -⟩
        · rw [hop] at h
          exact h
        · cases hop.symm.trans h
        · cases hop.symm.trans h
      omega
    · exact hcopied hcopies

/-- In a settled run a copied stage is at least the row's, unless a reset writes 4 over 5. -/
theorem StagesSettled.copied (h : StagesSettled es) (hpages : ∀ q ∈ requests, q.2.opensPage)
    (hw : ∀ s ∈ w.stage, s ≤ 5) (hrun : Run (serving w requests) es p') (he : es[j]? = some e)
    (hok : e.call.ans.isOk = true) (hcopies : e.call.op.copiesStage = some stage) {s : ℕ}
    (hs : e.before.stage = some s) : s ≤ stage ∨ e.call.op.isReset = true ∧ s = 5 ∧ stage = 4 := by
  have hle := (stage_le_five hpages hw hrun e (List.mem_of_getElem? he)).1 s hs
  -- either the row still has the stage that the job object was loaded with, or the last change
  -- since then decides
  have hloaded : ∀ r, answered .loadRow r ∈ callsOf e.thread (es.take j) → s = r.columns.stage ∨
      s ≤ stage ∨ e.call.op.isReset = true ∧ s = 5 ∧ stage = 4 := by
    intro r hr
    obtain ⟨i, l, hij, hl, hthread, hcall, -, hafter⟩ := loaded_before hrun hr
    rcases hrun.chain.last_change_between hl he hij World.stage with
      hsame | ⟨m, c, him, hmj, hc, hne, hlast, hsame⟩
    · exact .inl (Option.some.inj (hs.symm.trans (hsame.trans hafter)))
    · exact .inr (h.copies i j l e r stage hij hl he hthread hcall hok hcopies m c him hmj hc hne
        hlast s (hsame.symm.trans hs))
  rcases copied_cases (event_origin hpages hrun he) hcopies with
    ⟨hreset, r, hr, hstage⟩ | ⟨-, ⟨r, hr, hstage⟩ | ⟨hstage, stage', hreset⟩⟩
  · rcases hloaded r hr with hsr | hdone
    · by_cases h5 : s = 5
      · exact .inr ⟨hreset, h5, by omega⟩
      · exact .inl (by omega)
    · exact hdone
  · rcases hloaded r hr with hsr | hdone
    · exact .inl (by omega)
    · exact hdone
  · -- the job object was reset before, by a write that left at most 4
    obtain ⟨k, a, hkj, ha, hthread, hcall⟩ := mem_callsOf_take.1 hreset
    have ha' : a.call.op.copiesStage = some stage' := by rw [hcall]; rfl
    have haok : a.call.ans.isOk = true := by rw [hcall]; rfl
    obtain ⟨r, hr, hstage'⟩ : ∃ r, answered .loadRow r ∈ callsOf a.thread (es.take k) ∧
        stage' = min r.columns.stage 4 := by
      rcases copied_cases (event_origin hpages hrun ha) ha' with ⟨-, h⟩ | ⟨hfalse, -⟩
      · exact h
      · rw [hcall] at hfalse
        cases hfalse
    obtain ⟨i, l, hik, hl, hlthread, hlcall, -, -⟩ := loaded_before hrun hr
    have hafter := stage_of_copied (hrun.allowed (List.mem_of_getElem? ha)) haok ha'
    rcases last_change_between World.stage es i j with hno | ⟨m, c, him, hmj, hc, hne, hlast⟩
    · have hsame : e.before.stage = a.after.stage := hrun.chain.preserves_between ha he hkj
        fun n d hkn hnj hd _ => hno n d (by omega) hnj hd
      have hss : s = stage' := Option.some.inj (hs.symm.trans (hsame.trans hafter))
      exact .inl (by omega)
    · have hsame : e.before.stage = c.after.stage := hrun.chain.preserves_between hc he hmj
        fun n d hmn hnj hd _ => hlast n d hmn hnj hd
      exact h.copies i j l e r stage (by omega) hl he
        (hlthread.trans hthread) hlcall hok hcopies m c
        him hmj hc hne hlast s (hsame.symm.trans hs)

theorem fresh_stage_le_five : ∀ s ∈ (World.fresh (.ofModel .blank)).stage, s ≤ 5 := by
  rintro s ⟨⟩
  exact Nat.zero_le _

omit [External] in
/-- A row whose stage only rises and fits the status has settled stages. -/
theorem StagesKept.settled (h : StagesKept es) {p : Pool machine Err Unit} (hrun : Run p es p') :
    StagesSettled es where
  copies i j l e r stage hij hl he hthread hcall hok hcopies m c him hmj hc hne hlast s hs := by
    have hmem := List.mem_of_getElem? he
    have hbefore : e.before.stage = some s := (hrun.chain.preserves_between hc he hmj
      fun n d hmn hnj hd _ => hlast n d hmn hnj hd).trans hs
    exact h.rises e hmem s hbefore stage (stage_of_copied (hrun.allowed hmem) hok hcopies)
  brings e he stage hbrings hlt := by
    by_contra hnot
    obtain ⟨r', hr', hle, -, hrow⟩ := hbrings.after (hrun.allowed he)
    have hpending : r'.status = .pending := by
      rcases hrow with ⟨r, hr, hstatus⟩ | ⟨-, hstatus⟩
      · by_contra hne
        exact hnot ⟨r, hr, hstatus ▸ hne⟩
      · exact hstatus
    have := h.fits e he r' hr' hpending
    omega
  resets e he hcall s hs := by
    obtain ⟨r, r', hr, hr', hpending, hstage⟩ := markPending_after (hrun.allowed he) hcall
    have hfits := h.fits e he r' hr' hpending
    rw [World.stage, hr] at hs
    have hsr : r.columns.stage = s := Option.some.inj hs
    omega

/-- In a settled run a step leaves a stage that fits the status, if it finds one. -/
theorem StagesSettled.fits_step (h : StagesSettled es) (hpages : ∀ q ∈ requests, q.2.opensPage)
    (hrun : Run (serving w requests) es p') (he : es[j]? = some e) (hfits : e.before.StageFits) :
    e.after.StageFits := by
  intro r' hr' hpending
  have hmem := List.mem_of_getElem? he
  have hallowed := hrun.allowed hmem
  have horigin := event_origin hpages hrun he
  by_contra hlt
  rcases pending_cases hallowed horigin hr' hpending with ⟨r, hr, hstatus⟩ | hcall | hnone
  · have hle := hfits r hr hstatus
    have hnot : ∀ stage, Brings e stage → stage ≤ 4 := by
      intro stage hstage
      by_contra hlt
      obtain ⟨r₀, hr₀, hne⟩ := h.brings e hmem stage hstage (by omega)
      obtain rfl := Option.some.inj (hr.symm.trans hr₀)
      exact hne hstatus
    rcases stage_cases hallowed horigin hr hr' with hsame | ⟨stage, hstage, -, hmax⟩ | ⟨hstage, -⟩
    · omega
    · have := hnot stage hstage
      omega
    · have := hnot _ hstage
      omega
  · obtain ⟨r, r'', hr, hr'', -, hstage⟩ := markPending_after hallowed hcall
    obtain rfl := Option.some.inj (hr'.symm.trans hr'')
    have := h.resets e hmem hcall r.columns.stage (by rw [World.stage, hr]; rfl)
    omega
  · obtain ⟨r, hr, -⟩ := h.brings e hmem _ (brings_of_new hallowed hnone hr').1 (by omega)
    cases hr.symm.trans hnone

/-- In a settled run from a row whose stage fits its status, the stage only rises and fits. -/
theorem StagesSettled.kept (h : StagesSettled es) (hpages : ∀ q ∈ requests, q.2.opensPage)
    (hw : ∀ s ∈ w.stage, s ≤ 5) (hfits : w.StageFits) (hrun : Run (serving w requests) es p') :
    StagesKept es where
  rises e he s hs s' hs' := by
    obtain ⟨j, hj⟩ := List.mem_iff_getElem?.1 he
    obtain ⟨r, hr, rfl⟩ := Option.map_eq_some_iff.1 hs
    obtain ⟨r', hr', rfl⟩ := Option.map_eq_some_iff.1 hs'
    rcases stage_cases (hrun.allowed he) (event_origin hpages hrun hj) hr hr' with
      hsame | ⟨stage, -, -, hmax⟩ | ⟨⟨hok, -⟩, hcopies⟩
    · exact .inl hsame.ge
    · exact .inl (by omega)
    · exact h.copied hpages hw hrun hj hok hcopies hs
  fits e he := by
    refine ((hrun.chain.keeps_past (I := World.StageFits) hfits ?_).1 e he).2
    intro j e he _ hpast
    exact h.fits_step hpages hrun he (hpast j e le_rfl he)

/-- The stage only rises and fits the status, whatever requests are served. -/
def StagesAlwaysKept : Prop :=
  ∀ (requests : List (Site × Request)) (es : List (Event machine)) (p' : Pool machine Err Unit),
    (∀ q ∈ requests, q.2.opensPage) → Run (serving (.fresh (.ofModel .blank)) requests) es p' →
    StagesKept es

/-- **When the stage only rises and fits the status**, over any run of requests that begins with a
new job. -/
theorem stages_kept_iff (hpages : ∀ q ∈ requests, q.2.opensPage)
    (hrun : Run (serving (.fresh (.ofModel .blank)) requests) es p') :
    StagesKept es ↔ StagesSettled es := by
  have hfits : (World.fresh (.ofModel .blank)).StageFits := by
    rintro r ⟨⟩ -
    exact Nat.zero_le _
  exact ⟨fun h => h.settled hrun, fun h => h.kept hpages fresh_stage_le_five hfits hrun⟩

end

/-! ## Stage 5 on a PENDING row -/

/-- A start, a worker, a page that opens Route & Download, and a reset. -/
def openAndReset : List (Site × Request) :=
  [(⟨0, 0, none⟩, .startComputation), (⟨1, 0, none⟩, .routingWorker),
    (⟨0, 1, none⟩, .openRouteDownload), (⟨0, 2, none⟩, .resetJob)]

theorem openAndReset_opensPage : ∀ q ∈ openAndReset, q.2.opensPage := by
  simp [openAndReset, Request.opensPage]

def openAndResetPool : Pool machine Err Unit :=
  let _ := External.plain
  serving (.fresh (.ofModel .blank)) openAndReset

/-- The run is started and computed. -/
def computed : List ℕ := List.replicate 10 0 ++ List.replicate 20 1

/-- The page loads the COMPLETED job and raises its stage. -/
def openedOnly : List (Event machine) :=
  (openAndResetPool.play (usually (computed ++ List.replicate 2 2))).1

/-- The page loads the COMPLETED job, which is reset before the page raises its stage. -/
def openedAndReset : List (Event machine) :=
  (openAndResetPool.play (usually (computed ++ [2] ++ List.replicate 5 3 ++ [2]))).1

theorem stagesSettled_openedOnly : StagesSettled openedOnly :=
  let _ := External.plain
  (stages_kept_iff openAndReset_opensPage (Run.of_play _ openAndResetPool)).1
    ⟨by decide +kernel, by decide +kernel⟩

/-- **A reset job at stage 5.** -/
theorem pending_at_stage_five : ¬ @StagesAlwaysKept External.plain := by
  intro h
  let _ := External.plain
  have hkept := h openAndReset openedAndReset _ openAndReset_opensPage
    (Run.of_play _ openAndResetPool)
  have hfits : ¬∀ e ∈ openedAndReset, e.after.StageFits := by decide +kernel
  exact hfits hkept.fits

end Cosmonaut
