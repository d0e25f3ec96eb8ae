import Cosmonaut.Model.RunCalls

/-!
# The task the row names

The row's `celery_task_id` is written by the submit that drew the id, and written back by a submit
whose job object was loaded from a row that named it.

* `taskWrite_of_change`: what writes the column.
* `named_once`: an id is written by its submit once.
* `named_before`: a row that names an id was written by the id's submit.
* `task_change`: an id that comes back was loaded before the guard of the submit that saves it.
-/

namespace Cosmonaut

open Interleaving Program

/-- The task the row names. -/
def World.task (w : World) : Option TaskId := w.row.bind fun r => r.columns.celeryTaskId

/-- The call has written this task into the row. -/
inductive TaskWrite (task : Option TaskId) : Call sig → Prop
  | save (columns) : columns.celeryTaskId = task → TaskWrite task (answered (.writeRow columns) ())
  | column (vs) : .celeryTaskId task ∈ vs → TaskWrite task (answered (.updateColumns vs) ())
  | input (vs applied) : .celeryTaskId task ∈ vs →
    TaskWrite task (answered (.updateInput vs) applied)

/-- The event is a submit's write of its own id. -/
def Names (n : Event machine) (id : TaskId) : Prop :=
  n.call = answered (.updateColumns [.celeryTaskId (some id)]) ()

variable {e : Event machine} {id : TaskId}

/-- **What changes the task in the row, writes it.** -/
theorem taskWrite_of_change (he : e.Allowed) {r' : Row} (hr' : e.after.row = some r')
    (h : e.after.task ≠ e.before.task) : TaskWrite e.after.task e.call := by
  obtain ⟨t, ⟨o, a⟩, before, after⟩ := e
  obtain ⟨c, hex⟩ := he
  change exec o c before = (a, after) at hex
  simp only at hr' h ⊢
  have hrow : (exec o c before).2.row = some r' := by
    rw [hex]
    exact hr'
  have hafter : after.task = r'.columns.celeryTaskId := by rw [World.task, hr']; rfl
  -- a write that failed has changed nothing
  rcases a with f | a
  · have hsame := exec_error_row (congrArg Prod.fst hex)
    rw [hex] at hsame
    exact absurd (by rw [World.task, World.task, hsame]) h
  rw [hafter] at h ⊢
  rcases hr : before.row with _ | r
  · obtain ⟨columns, rfl, rfl⟩ := exec_row_new hr hrow
    exact .save columns rfl
  have hbefore : before.task = r.columns.celeryTaskId := by rw [World.task, hr]; rfl
  rw [hbefore] at h
  have hstep := exec_columns_cases hr hrow
  generalize r'.columns = columns at hstep h ⊢
  have hother : ∀ {vs : List ColumnValue}, (∀ task, .celeryTaskId task ∉ vs) →
      (r.columns.putAll vs).celeryTaskId = r.columns.celeryTaskId := fun hvs =>
    (celeryTaskId_putAll r.columns _).resolve_right (hvs _)
  cases hstep with
  | same => exact absurd rfl h
  | writeRow columns => exact .save columns rfl
  | updateColumns vs => exact .column vs ((celeryTaskId_putAll r.columns vs).resolve_left h)
  | updateInput vs => exact .input vs a ((celeryTaskId_putAll r.columns vs).resolve_left h)
  | setStreetProcessing | updateMembershipUpload | raiseStage | markEndNotified =>
    exact absurd (hother (by simp)) h

/-- After it the row names the id. -/
theorem Names.task (h : Names e id) (he : e.Allowed) : e.after.task = some id := by
  obtain ⟨row, -, hafter⟩ := row_of_updateColumns he h
  rw [World.task, hafter]
  rfl

/-! ## Drawing an id once -/

variable {w : World} {requests : List (Site × Request)} {es l r : List (Event machine)}
  {p' : Pool machine Err Unit} {n : Event machine}

variable [External]

/-- A submit names its task right after it has sent the message. -/
theorem Names.sent (h : Names n id) (hrequests : ∀ q ∈ requests, q.2.handlesRun = true)
    (hrun : Run (serving w requests) (l ++ n :: r) p') :
    ∃ l₀ s r₀, l = l₀ ++ s :: r₀ ∧ s.thread = n.thread ∧
      s.call = answered (.submitJob .routing none) (some id, false) ∧
        ∀ a ∈ r₀, a.thread ≠ n.thread := by
  have horder := event_runOrder hrequests hrun
  rw [h] at horder
  rcases horder (some id) (by simp) with ⟨hnone, -⟩ | ⟨-, -, past₀, hpast⟩
  · cases hnone
  · obtain ⟨l₀, s, r₀, hl, hs, hc, -, hr₀⟩ := callsOf_eq_cons hpast
    exact ⟨l₀, s, r₀, hl, hs, hc, hr₀⟩

/-- **An id is named once.** -/
theorem named_once (hrequests : ∀ q ∈ requests, q.2.handlesRun = true)
    (hrun : Run (serving w requests) (l ++ n :: r) p') (h : Names n id) {n' : Event machine}
    (hn' : n' ∈ l) : ¬Names n' id := by
  intro h'
  obtain ⟨l₀, s, r₀, rfl, hthread, hc, hr₀⟩ := h.sent hrequests hrun
  obtain ⟨l₁, l₂, hl⟩ := List.append_of_mem hn'
  have hsplit : l₀ ++ s :: (r₀ ++ n :: r) = l₁ ++ n' :: (l₂ ++ n :: r) := by
    rw [← List.cons_append, ← List.append_assoc, hl]
    simp
  have hrun₀ : Run (serving w requests) (l₀ ++ s :: (r₀ ++ n :: r)) p' := by simpa using hrun
  obtain ⟨k₀, s', k₁, rfl, hthread', hc', -⟩ := h'.sent hrequests (hsplit ▸ hrun₀)
  have hdraws : ∀ {s : Event machine}, s.Allowed →
      s.call = answered (.submitJob .routing none) (some id, false) → Draws s id := by
    intro s hs hc
    obtain ⟨hid, hnext, -⟩ := submitJob_answered hs hc
    obtain rfl := Option.some.inj hid
    exact ⟨rfl, hnext⟩
  have hsmem : s.Allowed := hrun₀.allowed (by simp)
  have hsmem' : s'.Allowed := hrun₀.allowed (by rw [hsplit]; simp)
  -- the two ids were drawn by one enqueue, which one thread follows up
  have hboth : l₀ ++ s :: (r₀ ++ n :: r) = k₀ ++ s' :: (k₁ ++ n' :: (l₂ ++ n :: r)) := by
    rw [hsplit]
    simp
  obtain ⟨rfl, rfl, -⟩ := draws_at hrun₀ hboth (hdraws hsmem hc) (hdraws hsmem' hc')
  have hr : r₀ = k₁ ++ n' :: l₂ := by simpa using hl
  exact hr₀ n' (by rw [hr]; simp) (hthread'.symm.trans hthread)

/-- A write of an id is its own submit's, or a save of a job object that was loaded, before the
submit's guard, from a row that named it. -/
theorem written_task (hrequests : ∀ q ∈ requests, q.2.handlesRun = true)
    (hrun : Run (serving w requests) (l ++ e :: r) p') (h : TaskWrite (some id) e.call) :
    Names e id ∨ ∃ l₁ d l₂ g l₃, l = l₁ ++ d :: (l₂ ++ g :: l₃) ∧ d.before.task = some id ∧
      g.call = answered .markQueued true := by
  have horder := event_runOrder hrequests hrun
  generalize hc : e.call = c at h horder
  cases h with
  | save columns hid =>
    obtain ⟨mid, past₀, hpast, htask, -⟩ := horder
    rcases htask with hnone | ⟨row, hrow, htask⟩
    · rw [hid] at hnone
      cases hnone
    obtain ⟨k, g, l₃, rfl, -, hg, hk, -⟩ := callsOf_eq_append hpast
    obtain ⟨d, hd, -, hload⟩ := mem_callsOf.1 (hk ▸ hrow)
    obtain ⟨l₁, l₂, rfl⟩ := List.append_of_mem hd
    refine .inr ⟨l₁, d, l₂, g, l₃, by simp, ?_, hg⟩
    rw [World.task, (row_of_loaded (hrun.allowed (by simp)) hload).1]
    exact (htask.symm.trans hid)
  | column vs hid =>
    rcases horder _ hid with ⟨hnone, -⟩ | ⟨rfl, -⟩
    · cases hnone
    · exact .inl hc
  | input vs applied hid => exact absurd hid (horder _)

/-- **What brings an id into the row**: its submit, or a save of a job object that was loaded,
before the submit's guard, from a row that named it. -/
theorem task_change (hrequests : ∀ q ∈ requests, q.2.handlesRun = true)
    (hrun : Run (serving w requests) (l ++ e :: r) p') (h : e.after.task = some id)
    (hne : e.before.task ≠ some id) :
    Names e id ∨ ∃ l₁ d l₂ g l₃, l = l₁ ++ d :: (l₂ ++ g :: l₃) ∧ d.before.task = some id ∧
      g.call = answered .markQueued true := by
  obtain ⟨row, hrow, -⟩ := Option.bind_eq_some_iff.1 h
  have hwrite := taskWrite_of_change (hrun.allowed (by simp)) hrow (by rw [h]; exact hne.symm)
  rw [h] at hwrite
  exact written_task hrequests hrun hwrite

/-- **A row that names a new id was written by its submit.** -/
theorem named_before (hrequests : ∀ q ∈ requests, q.2.handlesRun = true)
    (hw : w.task ≠ some id) (hrun : Run (serving w requests) es p') :
    (p'.world.task = some id → ∃ n ∈ es, Names n id) ∧
      ∀ l e r, es = l ++ e :: r → e.before.task = some id → ∃ n ∈ l, Names n id := by
  induction hrun with
  | nil => exact ⟨fun h => absurd h hw, fun l e r h => by simp at h⟩
  | @snoc es e q q' t c hrun hst ih =>
    obtain ⟨hnow, hpast⟩ := ih
    have hrun' : Run (serving w requests) (es ++ e :: []) q' := .snoc t c hrun hst
    have hworlds : e.before = q.world ∧ e.after = q'.world := by
      obtain ⟨o, k, -, rfl, rfl⟩ := Pool.step_cases hst
      exact ⟨rfl, rfl⟩
    refine ⟨fun h => ?_, fun l a r hes ha => ?_⟩
    · by_cases hbefore : q.world.task = some id
      · obtain ⟨n, hn, hnames⟩ := hnow hbefore
        exact ⟨n, by simp [hn], hnames⟩
      rw [← hworlds.2] at h
      rw [← hworlds.1] at hbefore
      rcases task_change hrequests hrun' h hbefore with hnames | ⟨l₁, d, l₂, g, l₃, rfl, hd, -⟩
      · exact ⟨e, by simp, hnames⟩
      · obtain ⟨n, hn, hnames⟩ := hpast l₁ d _ rfl hd
        exact ⟨n, by simp [hn], hnames⟩
    · rcases List.eq_nil_or_concat r with rfl | ⟨r, b, rfl⟩
      · obtain ⟨rfl, hea⟩ := List.append_inj' hes rfl
        obtain rfl := (List.cons.inj hea).1
        exact hnow (hworlds.1 ▸ ha)
      · have hsplit : es ++ [e] = (l ++ a :: r) ++ [b] := by simpa using hes
        obtain ⟨rfl, -⟩ := List.append_inj' hsplit rfl
        exact hpast l a r rfl ha

/-- **A task that the row no longer names does not come back** during its run. -/
theorem not_restored (hrequests : ∀ q ∈ requests, q.2.handlesRun = true) (hw : w.task ≠ some id)
    {u : List (Event machine)} (hrun : Run (serving w requests) (l ++ n :: (u ++ e :: r)) p')
    (hnames : Names n id) (hno : ∀ a ∈ u, a.call ≠ answered .markQueued true)
    (h : e.after.task = some id) : e.before.task = some id := by
  have hsplit : l ++ n :: (u ++ e :: r) = (l ++ n :: u) ++ e :: r := by simp
  have hrun' := hrun
  rw [hsplit] at hrun'
  by_contra hne
  rcases task_change hrequests hrun' h hne with hagain | ⟨l₁, d, l₂, g, l₃, hload, htask, hg⟩
  · exact named_once hrequests hrun' hagain (by simp : n ∈ l ++ n :: u) hnames
  -- the row named the task when the saved job was loaded, so it had been named by then
  rw [hload, List.append_assoc] at hrun'
  obtain ⟨n', hn', hnames'⟩ := (named_before hrequests hw hrun').2 l₁ d _ rfl htask
  have hplaces : l ++ n :: u = (l₁ ++ d :: l₂) ++ g :: l₃ := by simpa using hload
  rcases places hplaces with ⟨u', -, rfl⟩ | ⟨-, rfl, -⟩ | ⟨u', rfl, -⟩
  · exact hno g (by simp) hg
  · rw [Names, hg] at hnames
    cases hnames
  · exact named_once hrequests hrun hnames (by simp [hn']) hnames'

end Cosmonaut
