import Cosmonaut.Runs.RowTask

/-!
# The task of the current run

A submit names its task in the row after it has sent the message, and a reset clears the name at its
end. Neither looks at the row, so a slow one overwrites the name of a later run.

* `task_named_when`: the row names the current run's task if every submit and every reset has
  written the name before the next guard is won, and no failing submit's run was claimed.
* `slow_reset_clears_task`: a run in which a reset is too slow.
-/

namespace Cosmonaut

open Interleaving Program

/-- The operations with which submits, cancels and resets begin to change the run. -/
def Op.beginsCall : Op → Bool
  | .markQueued | .markPending | .revokeJob _ | .markCancelled => true
  | _ => false

/-- No submit, cancel or reset is in progress. -/
def CallsEnded (es : List (Event machine)) (p' : Pool machine Err Unit) : Prop :=
  ∀ e ∈ es, e.call.op.beginsCall = true →
    ∃ prog, p'.threads[e.thread]? = some prog ∧ prog.Ended

/-- A RUNNING row names the task of the submit that queued its run; if that submit has raised after
its enqueue, the row may still name the task the submit has saved. -/
def TaskNamed (es : List (Event machine)) (p' : Pool machine Err Unit) : Prop :=
  ∀ l g m, CurrentRun es l g m → p'.world.running →
    ∃ s ∈ m, s.thread = g.thread ∧ ∃ id, s.call = answered (.submitJob .routing none) (id, false) ∧
      (p'.world.task = id ∧ id ≠ none ∨
        (∃ err, p'.threads[g.thread]? = some (.throw err)) ∧
          ∃ columns, answered (.writeRow columns) () ∈ callsOf g.thread m ∧
            p'.world.task = columns.celeryTaskId)

/-- Every submit and every reset has written the row's task before the next guard is won, and every
submit that ends its run itself finds it queued. -/
structure TasksUndisturbed (es : List (Event machine)) : Prop where
  /-- If a guard was won since the writer's own, the writer is a reset that has begun since. -/
  writes : ∀ l e r task l₀ g m, es = l ++ e :: r → TaskWrite task e.call → CurrentRun l l₀ g m →
    g.thread = e.thread ∨ ∃ a ∈ m, a.thread = e.thread ∧ a.call = answered .markPending true
  /-- A failure path does not fail itself, and finds no run that was claimed. -/
  failures : ∀ b ∈ es, b.call.op = .markStartFailed →
    (∃ a, b.call.ans = .ok a) ∧ (b.before.running → b.before.queued)
  /-- No submit is terminated between its guard and its enqueue. -/
  alive : ∀ g ∈ es, g.call = answered .markQueued true → ∀ e ∈ es, e.thread = g.thread →
    e.call.ans = .error .killed →
      ∃ id, answered (.submitJob .routing none) (id, false) ∈ callsOf g.thread es

/-- A RUNNING row names its run's task, whatever submits, cancels, resets and workers do. -/
def TaskAlwaysNamed [External] : Prop :=
  ∀ (w : World) (requests : List (Site × Request)) (es : List (Event machine))
    (p' : Pool machine Err Unit), (∀ q ∈ requests, q.2.handlesRun = true) →
      Run (serving w requests) es p' → CallsEnded es p' → TaskNamed es p'

variable {w : World} {requests : List (Site × Request)} {es l m : List (Event machine)}
  {p' : Pool machine Err Unit} {e g : Event machine}

/-- A reset does not begin while a run is in the row. -/
theorem not_running_of_reset (he : e.Allowed) (hc : e.call = answered .markPending true) :
    ¬e.before.running := by
  obtain ⟨c, hafter⟩ := after_of_answered he hc
  rintro ⟨r, hr, hstatus⟩
  obtain ⟨r', hr', hnot, -⟩ := update_true hafter
  obtain rfl := Option.some.inj (hr.symm.trans hr')
  exact of_decide_eq_true hnot hstatus

/-- Where the row stays a run and nobody writes its task, the task stays. -/
theorem task_kept {v v' : World} (h : Chain v m v') (hrunning : ∀ a ∈ m, a.after.running)
    (hno : ∀ a ∈ m, ¬∃ task, TaskWrite task a.call) : v'.task = v.task := by
  apply h.preserves
  intro a ha hallowed
  obtain ⟨row, hrow, -⟩ := hrunning a ha
  by_contra hne
  exact hno a ha ⟨_, taskWrite_of_change hallowed hrow hne⟩

/-- What a save leaves in the row. -/
theorem task_of_save (he : e.Allowed) {columns : Columns}
    (hc : e.call = answered (.writeRow columns) ()) : e.after.task = columns.celeryTaskId := by
  obtain ⟨c, hafter⟩ := after_of_answered he hc
  simp only [perform] at hafter
  split at hafter <;>
  · rw [← (Prod.mk.inj hafter).2]
    rfl

variable [External]

section

variable (hrun : Run (serving w requests) es p') (h : CurrentRun es l g m)
  (hrunning : p'.world.running)

include hrun h hrunning

/-- The row is RUNNING ever since the last guard, if it is at the end. -/
theorem CurrentRun.running {m₁ m₂ : List (Event machine)} (hm : m = m₁ ++ e :: m₂) :
    e.before.running ∧ e.after.running := by
  subst hm
  have hchain := hrun.chain
  rw [h.split, show l ++ g :: (m₁ ++ e :: m₂) = (l ++ g :: m₁) ++ e :: m₂ by simp] at hchain
  have hafter : e.after.running :=
    running_of_end hchain.beyond (fun a ha => h.last a (by simp [ha])) hrunning
  exact ⟨running_before (hrun.allowed (by simp [h.split])) (h.last e (by simp)) hafter, hafter⟩

/-- While the run is in the row, only its submit writes the task. -/
theorem writer_of_current (hundisturbed : TasksUndisturbed es) {m₁ m₂ : List (Event machine)}
    (hm : m = m₁ ++ e :: m₂) {task : Option TaskId} (hwrite : TaskWrite task e.call) :
    e.thread = g.thread := by
  have hes : es = (l ++ g :: m₁) ++ e :: m₂ := by simp [h.split, hm]
  have hcurrent : CurrentRun (l ++ g :: m₁) l g m₁ :=
    ⟨rfl, h.won, fun a ha => h.last a (by simp [hm, ha])⟩
  rcases hundisturbed.writes _ e _ task l g m₁ hes hwrite hcurrent with hsame | ⟨a, ha, -, hreset⟩
  · exact hsame.symm
  -- a reset does not begin while there is a run
  · obtain ⟨k₁, k₂, rfl⟩ := List.append_of_mem ha
    have hsplit : m = k₁ ++ a :: (k₂ ++ e :: m₂) := by simp [hm]
    have hbefore := (h.running hrun hrunning hsplit).1
    exact absurd hbefore (not_running_of_reset (hrun.allowed (by simp [hes])) hreset)

/-- The submit of a run that is still in the row has sent its message, and has named it if it has
returned. -/
theorem sent_of_current (hrequests : ∀ q ∈ requests, q.2.handlesRun = true)
    (hundisturbed : TasksUndisturbed es) {returned : Bool}
    (hend : RunEnd (callsOf g.thread es) returned) :
    ∃ id, answered (.submitJob .routing none) (id, false) ∈ callsOf g.thread es ∧
      (returned = true →
        answered (.updateColumns [.celeryTaskId id]) () ∈ callsOf g.thread es) := by
  have hstarted := hend.started (mem_callsOf.2 ⟨g, h.mem, rfl, h.won⟩)
  cases hstarted with
  | named id hid hname => exact ⟨id, hid, fun _ => hname⟩
  | unnamed id hid => exact ⟨id, hid, fun h => by cases h⟩
  | failed a _ ha =>
    -- the failure path would have ended the run
    obtain ⟨b, hb, -, hc⟩ := h.behind hrequests hrun ha fun past horder => horder
    have hbes : b ∈ es := by rw [h.split]; simp [hb]
    have hop : b.call.op = .markStartFailed := by rw [hc]
    obtain ⟨hok, hqueued⟩ := hundisturbed.failures b hbes hop
    obtain ⟨ended, hans⟩ := answered_of_ok hop hok
    obtain ⟨m₁, m₂, hm⟩ := List.append_of_mem hb
    obtain ⟨hbefore, hafter⟩ := h.running hrun hrunning hm
    rcases startFailed_cases (hrun.allowed hbes) hans with ⟨-, -, hnot⟩ | ⟨-, hnot, -⟩
    · exact absurd hafter hnot
    · exact absurd (hqueued hbefore) hnot
  | killed o ho =>
    obtain ⟨e, he, hthread, hc⟩ := mem_callsOf.1 ho
    have hkilled : e.call.ans = .error .killed := by
      obtain ⟨t, ⟨o', a⟩, before, after⟩ := e
      cases hc
      rfl
    obtain ⟨id, hid⟩ := hundisturbed.alive g h.mem h.won e he hthread hkilled
    exact ⟨id, hid, fun h => by cases h⟩

end

/-- The calls of a thread come in order up to a step since the last guard. -/
theorem CurrentRun.order (h : CurrentRun es l g m)
    (hrequests : ∀ q ∈ requests, q.2.handlesRun = true) (hrun : Run (serving w requests) es p')
    {m₁ m₂ : List (Event machine)} (hm : m = m₁ ++ e :: m₂) :
    RunOrder (callsOf e.thread (l ++ g :: m₁)) e.call := by
  rw [h.split, hm, show l ++ g :: (m₁ ++ e :: m₂) = (l ++ g :: m₁) ++ e :: m₂ by simp] at hrun
  exact event_runOrder hrequests hrun

omit [External] in
theorem CurrentRun.earlier (h : CurrentRun es l g m) {m₁ m₂ : List (Event machine)}
    (hm : m = m₁ ++ e :: m₂) (t : ℕ) : callsOf t (l ++ g :: m₁) ⊆ callsOf t es := by
  rw [h.split, hm, show l ++ g :: (m₁ ++ e :: m₂) = (l ++ g :: m₁) ++ e :: m₂ by simp,
    callsOf_append _ (l ++ g :: m₁)]
  exact List.subset_append_right _ _

/-- What the submit of the run has sent, it has sent since its guard, and it goes by an id. -/
theorem CurrentRun.sent (h : CurrentRun es l g m)
    (hrequests : ∀ q ∈ requests, q.2.handlesRun = true) (hrun : Run (serving w requests) es p')
    {id : Option TaskId}
    (hid : answered (.submitJob .routing none) (id, false) ∈ callsOf g.thread es) :
    ∃ s ∈ m, s.thread = g.thread ∧
      s.call = answered (.submitJob .routing none) (id, false) ∧ id ≠ none := by
  obtain ⟨s, hs, hthread, hc⟩ := h.behind hrequests hrun hid fun past horder => horder.2.2.1
  have hsome := (submitJob_answered (hrun.allowed (by rw [h.split]; simp [hs])) hc).1
  exact ⟨s, hs, hthread, hc, by rw [hsome]; simp⟩

/-- **The task in the row is what the run's submit has written last.** -/
theorem CurrentRun.last_write (h : CurrentRun es l g m)
    (hrequests : ∀ q ∈ requests, q.2.handlesRun = true) (hrun : Run (serving w requests) es p')
    (hrunning : p'.world.running) (hundisturbed : TasksUndisturbed es) {id : Option TaskId}
    (hid : answered (.submitJob .routing none) (id, false) ∈ callsOf g.thread es) :
    ∃ m₁ e m₂ task, m = m₁ ++ e :: m₂ ∧ TaskWrite task e.call ∧ e.thread = g.thread ∧
      (∀ a ∈ m₂, ¬∃ task, TaskWrite task a.call) ∧ p'.world.task = e.after.task := by
  -- the submit has saved the row, so there is a last write of the task
  have hsome : ¬∀ e ∈ m, ¬∃ task, TaskWrite task e.call := by
    intro hno
    obtain ⟨s, hs, hthread, hsc, -⟩ := h.sent hrequests hrun hid
    obtain ⟨k₁, k₂, hm⟩ := List.append_of_mem hs
    have hordered := h.order hrequests hrun hm
    rw [hsc, hthread] at hordered
    obtain ⟨-, -, -, ⟨columns, hsaved⟩, -⟩ := hordered
    obtain ⟨b, hb, -, hbc⟩ :=
      h.behind hrequests hrun (h.earlier hm _ hsaved) fun past hpast => by
        obtain ⟨mid, past₀, rfl, -⟩ := hpast
        simp
    exact hno b hb ⟨_, by rw [hbc]; exact .save columns rfl⟩
  obtain ⟨m₁, e, m₂, hlast, ⟨task, hwrite⟩, hno⟩ :=
    (last_such (fun e : Event machine => ∃ task, TaskWrite task e.call) m).resolve_left hsome
  refine ⟨m₁, e, m₂, task, hlast, hwrite, ?_, hno, ?_⟩
  · exact writer_of_current hrun h hrunning hundisturbed hlast hwrite
  · have hchain := hrun.chain
    rw [h.split, hlast, show l ++ g :: (m₁ ++ e :: m₂) = (l ++ g :: m₁) ++ e :: m₂ by simp]
      at hchain
    refine task_kept hchain.beyond (fun a ha => ?_) hno
    obtain ⟨u₁, u₂, rfl⟩ := List.append_of_mem ha
    have hm : m = (m₁ ++ e :: u₁) ++ a :: u₂ := by simp [hlast]
    exact (h.running hrun hrunning hm).2

/-- A submit whose last write of the task is its save has not returned: it names its task behind
the save. -/
theorem CurrentRun.save_last (h : CurrentRun es l g m)
    (hrequests : ∀ q ∈ requests, q.2.handlesRun = true) (hrun : Run (serving w requests) es p')
    {m₁ m₂ : List (Event machine)} (hm : m = m₁ ++ e :: m₂) (hown : e.thread = g.thread)
    {columns : Columns} (hc : e.call = answered (.writeRow columns) ())
    (hno : ∀ a ∈ m₂, ¬∃ task, TaskWrite task a.call) {id : TaskId} :
    answered (.updateColumns [.celeryTaskId (some id)]) () ∉ callsOf g.thread es := by
  intro hname
  have hordered := h.order hrequests hrun hm
  rw [hown, hc] at hordered
  obtain ⟨-, -, -, -, -, hunsent⟩ := hordered
  obtain ⟨n, hn, hnthread, hnc⟩ := h.behind hrequests hrun hname fun past hpast => by
    rcases hpast (some id) (by simp) with ⟨hnone, -⟩ | ⟨-, hwon, -⟩
    · cases hnone
    · exact hwon
  rw [hm] at hn
  rcases List.mem_append.1 hn with hn₁ | hn₂
  · obtain ⟨u₁, u₂, rfl⟩ := List.append_of_mem hn₁
    have hsplit : m = u₁ ++ n :: (u₂ ++ e :: m₂) := by simp [hm]
    have hnordered := h.order hrequests hrun hsplit
    rw [hnc, hnthread] at hnordered
    rcases hnordered (some id) (by simp) with ⟨hnone, -⟩ | ⟨-, -, past₀, hpast⟩
    · cases hnone
    refine absurd rfl (hunsent (answered (.submitJob .routing none) (some id, false)) ?_ _ _)
    rw [show l ++ g :: (u₁ ++ n :: u₂) = (l ++ g :: u₁) ++ n :: u₂ by simp,
      callsOf_append _ (l ++ g :: u₁), hpast]
    simp
  · rcases List.mem_cons.1 hn₂ with rfl | hn₂
    · rw [hc] at hnc
      cases hnc
    · exact hno n hn₂ ⟨_, by rw [hnc]; exact .column _ (List.mem_singleton_self _)⟩

/-- **The row names the current run's task**, once no submit, cancel or reset is in progress, if
every submit and every reset has written the task before the next guard is won, and no failing
submit's run was claimed. -/
theorem task_named_when (hrequests : ∀ q ∈ requests, q.2.handlesRun = true)
    (hrun : Run (serving w requests) es p') (hended : CallsEnded es p')
    (hundisturbed : TasksUndisturbed es) : TaskNamed es p' := by
  intro l g m h hrunning
  obtain ⟨rest, hrest, hend⟩ := hended g h.mem (by rw [h.won]; rfl)
  obtain ⟨res, rfl, hcalls⟩ := runEnd_of_ended hrequests hrun h.mem hrest hend
  obtain ⟨id, hid, hreturned⟩ := sent_of_current hrun h hrunning hrequests hundisturbed hcalls
  obtain ⟨s, hs, hthread, hsc, hsome⟩ := h.sent hrequests hrun hid
  obtain ⟨m₁, e, m₂, task, hlast, hwrite, hown, hno, htask⟩ :=
    h.last_write hrequests hrun hrunning hundisturbed hid
  have hallowed : e.Allowed := hrun.allowed (by simp [h.split, hlast])
  have hordered := h.order hrequests hrun hlast
  rw [hown] at hordered
  generalize hc : e.call = c at hwrite hordered
  cases hwrite with
  | save columns hcolumns =>
    refine ⟨s, hs, hthread, id, hsc, .inr ⟨?_, columns, ?_, htask.trans (task_of_save hallowed hc)⟩⟩
    · rcases res with err | u
      · exact ⟨err, hrest⟩
      · obtain ⟨id, rfl⟩ := Option.ne_none_iff_exists'.1 hsome
        exact absurd (hreturned rfl) (h.save_last hrequests hrun hlast hown hc hno)
    · exact mem_callsOf.2 ⟨e, by simp [hlast], hown, hc⟩
  | column vs hvs =>
    rcases hordered _ hvs with ⟨-, -, hnone⟩ | ⟨rfl, -, past₀, hpast⟩
    · refine absurd rfl (hnone (answered .markQueued true) ?_)
      exact mem_callsOf.2 ⟨g, by simp, rfl, h.won⟩
    · have hmem := h.earlier hlast _ (by rw [hpast]; exact List.mem_cons_self ..)
      obtain ⟨s', hs', hthread', hsc', hsome⟩ := h.sent hrequests hrun hmem
      refine ⟨s', hs', hthread', task, hsc', .inl ⟨?_, hsome⟩⟩
      obtain ⟨id', rfl⟩ := Option.ne_none_iff_exists'.1 hsome
      have hnames : Names e id' := hc
      exact htask.trans (hnames.task hallowed)
  | input vs applied hvs => exact absurd hvs (hordered _)

omit [External]

/-! ## A slow reset -/

/-- One tab resets the job, another one submits it. -/
def resetAndSubmit : List (Site × Request) :=
  [(⟨0, 0, none⟩, .resetJob), (⟨0, 1, none⟩, .startComputation)]

def resetAndSubmitPool : Pool machine Err Unit :=
  let _ := External.plain
  serving (.fresh (.ofModel .blank)) resetAndSubmit

def Op.failsToStart : Op → Bool
  | .markStartFailed => true
  | _ => false

/-- A reset and a submit, one after the other. -/
def resetThenSubmitSchedule : List (ℕ × Choice) :=
  usually (List.replicate 5 0 ++ List.replicate 10 1)

/-- A reset and then a submit leave the row with the submit's task. -/
theorem task_named_alone :
    (resetAndSubmitPool.play resetThenSubmitSchedule).2.world.row.map (·.status) = some .running ∧
      TaskNamed (resetAndSubmitPool.play resetThenSubmitSchedule).1
        (resetAndSubmitPool.play resetThenSubmitSchedule).2 := by
  let _ := External.plain
  have hcalls : ∀ e ∈ (resetAndSubmitPool.play resetThenSubmitSchedule).1,
      e.thread < 2 ∧ e.call.ans.isOk = true ∧ e.call.op.failsToStart = false := by
    decide +kernel
  have hguards : ∀ e ∈ (resetAndSubmitPool.play resetThenSubmitSchedule).1,
      wonGuard e.call = true → e.thread = 1 := by
    decide +kernel
  have hlate : ∀ i < 15, (resetAndSubmitPool.play resetThenSubmitSchedule).1[i]?.any
      (fun e => e.thread = 0) = true → i < 5 := by
    decide +kernel
  have hearly : ∀ i < 5, (resetAndSubmitPool.play resetThenSubmitSchedule).1[i]?.any
      (fun e => wonGuard e.call) = false := by
    decide +kernel
  have hended : (resetAndSubmitPool.play resetThenSubmitSchedule).2.threads.length = 2 ∧
      ∀ prog ∈ (resetAndSubmitPool.play resetThenSubmitSchedule).2.threads, prog.Ended := by
    decide +kernel
  have hlength : (resetAndSubmitPool.play resetThenSubmitSchedule).1.length = 15 := by
    decide +kernel
  have hrun : Run (serving resetAndSubmitPool.world resetAndSubmit) _ _ :=
    Run.of_play resetThenSubmitSchedule resetAndSubmitPool
  refine ⟨by decide +kernel, task_named_when (by decide) hrun ?_ ⟨?_, ?_, ?_⟩⟩
  · intro e he _
    have hlt : e.thread < (resetAndSubmitPool.play resetThenSubmitSchedule).2.threads.length := by
      rw [hended.1]
      exact (hcalls e he).1
    exact ⟨_, List.getElem?_eq_getElem hlt, hended.2 _ (List.getElem_mem hlt)⟩
  · intro l e r task l₀ g m hes _ hcurrent
    refine .inl ?_
    have he : e ∈ (resetAndSubmitPool.play resetThenSubmitSchedule).1 := by rw [hes]; simp
    have hg : g ∈ (resetAndSubmitPool.play resetThenSubmitSchedule).1 := by
      rw [hes]
      exact List.mem_append_left _ hcurrent.mem
    rw [hguards g hg (wonGuard_iff.2 hcurrent.won)]
    -- the reset is over before the guard
    by_contra hne
    have hzero : e.thread = 0 := by
      have := (hcalls e he).1
      omega
    have hate : (resetAndSubmitPool.play resetThenSubmitSchedule).1[l.length]? = some e := by
      simp [hes]
    have hlt := (List.getElem?_eq_some_iff.1 hate).1
    have hl := hlate l.length (by omega) (by rw [hate, Option.any_some, hzero]; rfl)
    have hatg : (resetAndSubmitPool.play resetThenSubmitSchedule).1[l₀.length]? = some g := by
      simp [hes, hcurrent.split]
    have hl₀ : l₀.length < l.length := by
      have := congrArg List.length hcurrent.split
      simp only [List.length_append, List.length_cons] at this
      omega
    have hfalse := hearly l₀.length (by omega)
    rw [hatg, Option.any_some, wonGuard_iff.2 hcurrent.won] at hfalse
    cases hfalse
  · intro b hb hop
    have hfalse := (hcalls b hb).2.2
    rw [hop] at hfalse
    cases hfalse
  · intro g _ _ e he _ hkilled
    have hok := (hcalls e he).2.1
    rw [hkilled] at hok
    cases hok

/-- The reset has set the row PENDING when the other tab submits, and clears the task at its end. -/
def slowResetSchedule : List (ℕ × Choice) :=
  usually (List.replicate 2 0 ++ List.replicate 10 1 ++ List.replicate 3 0)

/-- **A slow reset clears the task of a run it did not reset.** -/
theorem slow_reset_clears_task : ¬ @TaskAlwaysNamed External.plain := by
  intro h
  let _ := External.plain
  have hthreads : ∀ e ∈ (resetAndSubmitPool.play slowResetSchedule).1, e.thread < 2 := by
    decide +kernel
  have hended : (resetAndSubmitPool.play slowResetSchedule).2.threads.length = 2 ∧
      ∀ prog ∈ (resetAndSubmitPool.play slowResetSchedule).2.threads, prog.Ended := by
    decide +kernel
  have hreturned : ∀ prog ∈ (resetAndSubmitPool.play slowResetSchedule).2.threads,
      (match prog with | .ret _ => true | _ => false) = true := by
    decide +kernel
  have hrow : (resetAndSubmitPool.play slowResetSchedule).2.world.row.map
      (fun r => (r.status, r.columns.celeryTaskId)) = some (.running, none) := by
    decide +kernel
  have hguard : (resetAndSubmitPool.play slowResetSchedule).1.any (fun e => wonGuard e.call) =
      true := by
    decide +kernel
  have hnamed := h _ resetAndSubmit _ _ (by decide)
    (Run.of_play slowResetSchedule resetAndSubmitPool) (fun e he _ => ?_)
  · obtain ⟨a, ha, hwon⟩ := List.any_eq_true.1 hguard
    obtain ⟨l, g, m, hcurrent⟩ := CurrentRun.exists_of_guard ⟨a, ha, wonGuard_iff.1 hwon⟩
    obtain ⟨row, hr, hcolumns⟩ := Option.map_eq_some_iff.1 hrow
    obtain ⟨hstatus, hnone⟩ := Prod.mk.inj hcolumns
    obtain ⟨s, -, -, id, -, ⟨htask, hid⟩ | ⟨⟨err, hthrow⟩, -⟩⟩ :=
      hnamed l g m hcurrent ⟨row, hr, hstatus⟩
    · rw [World.task, hr] at htask
      exact hid (htask.symm.trans hnone)
    · cases hreturned _ (List.mem_of_getElem? hthrow)
  · have hlt : e.thread < (resetAndSubmitPool.play slowResetSchedule).2.threads.length := by
      rw [hended.1]
      exact hthreads e he
    exact ⟨_, List.getElem?_eq_getElem hlt, hended.2 _ (List.getElem_mem hlt)⟩

end Cosmonaut
