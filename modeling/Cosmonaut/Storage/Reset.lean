import Cosmonaut.Model.Authors
import Mathlib.Tactic.IntervalCases

/-!
# Resets and the runs queued after them

A reset sets the row PENDING and then deletes the outputs and clears the log, whatever run wrote
them. Between these steps other requests can queue a new run, and a worker can compute it.

* `reset_spares_iff`: no later run loses anything exactly when none has stored an output or logged a
  line by the time the reset gets there.
* `reset_deletes_a_later_solution`: a run in which one has.
-/

namespace Cosmonaut

open Interleaving Program

/-- A reset that set the row PENDING at step `i` comes to delete the outputs, or to clear the log,
at step `j`. -/
structure ResetStep (requests : List (Site × Request)) (es : List (Event machine)) (i j : ℕ)
    (pending step : Event machine) : Prop where
  pending_at : es[i]? = some pending
  step_at : es[j]? = some step
  later : i < j
  same_thread : step.thread = pending.thread
  resets : ∃ here r, requests[pending.thread]? = some (here, r) ∧ r.resets = true
  pending : pending.call = answered .markPending true
  deletes : (∃ pod fs, step.call.op = .deleteFiles pod fs) ∨ step.call.op = .clearLog

/-- A run's guard is won at step `q`. -/
structure GuardWon (es : List (Event machine)) (q : ℕ) (won : Event machine) : Prop where
  won_at : es[q]? = some won
  won : won.call = answered .markQueued true

/-- What run `n` has produced is still there. -/
structure RunKept (n : ℕ) (w w' : World) : Prop where
  stored : ∀ f e, w.stored f = some e → e.author = some n → w'.stored f = some e
  disk : ∀ pod f e, w.disk pod f = some e → e.author = some n → w'.disk pod f = some e
  log : ∀ line ∈ w.log, line.author = some n → line ∈ w'.log

/-- Run `n` has not produced what the operation is about to delete: no file of the deleted names,
stored or on the pod, and no log line. -/
structure NothingYet (n : ℕ) (o : Op) (w : World) : Prop where
  stored : ∀ pod fs, o = .deleteFiles pod fs → ∀ f ∈ fs, ∀ e, w.stored f = some e →
    e.author ≠ some n
  disk : ∀ pod fs, o = .deleteFiles pod fs → ∀ f ∈ fs, ∀ e, w.disk pod f = some e →
    e.author ≠ some n
  log : o = .clearLog → ∀ line ∈ w.log, line.author ≠ some n

/-- The steps of a reset, those of `among`, take nothing from a run queued after the reset set the
row PENDING. -/
def SparesLaterRuns (among : Event machine → Prop) (requests : List (Site × Request))
    (es : List (Event machine)) : Prop :=
  ∀ i j pending step, ResetStep requests es i j pending step → among step →
    ∀ q won, i < q → GuardWon es q won → RunKept won.after.epoch step.before step.after

/-- A run queued between a reset's first step and one of `among` has stored no output, or logged no
line, by then. -/
def LaterRunsUnderway (among : Event machine → Prop) (requests : List (Site × Request))
    (es : List (Event machine)) : Prop :=
  ∀ i j pending step, ResetStep requests es i j pending step → among step →
    ∀ q won, i < q → q < j → GuardWon es q won →
      NothingYet won.after.epoch step.call.op step.before

/-- A reset harms no run queued after it, whatever requests are served. -/
def ResetHarmless [External] : Prop :=
  ∀ (w : World) (requests : List (Site × Request)) (es : List (Event machine))
    (p' : Pool machine Err Unit), AuthorsUpTo w → (∀ s ∈ requests, s.1.run = none) →
    Run (serving w requests) es p' → SparesLaterRuns (fun _ => True) requests es

/-! ## What a deletion takes -/

variable {n : ℕ} {o : Op} {c : Choice} {w : World}

/-- A deletion, complete or not, takes nothing but files of the names it was given. -/
theorem exec_deleteFiles (pod : ℕ) (fs : List FileName) :
    ∃ gone goneStored : FileName → Bool, (∀ f, gone f = true → f ∈ fs) ∧
      (∀ f, goneStored f = true → f ∈ fs) ∧
      (exec (.deleteFiles pod fs) c w).2 = w.deleted pod gone goneStored := by
  rcases hf : Op.fault (.deleteFiles pod fs) c with _ | e
  · rw [exec_of_no_fault hf]
    exact ⟨_, _, fun f h => by simpa using h, fun f h => by simpa using h, rfl⟩
  · rw [exec_of_fault hf]
    exact ⟨_, _, fun f h => (by simpa using h : _ ∧ _).1, fun f h => (by simpa using h : _ ∧ _).1,
      rfl⟩

/-- A deletion step leaves a run alone that has produced nothing of what it deletes. -/
theorem exec_runKept (ho : (∃ pod fs, o = .deleteFiles pod fs) ∨ o = .clearLog)
    (h : NothingYet n o w) : RunKept n w (exec o c w).2 := by
  rcases ho with ⟨pod, fs, rfl⟩ | rfl
  · obtain ⟨gone, goneStored, hgone, hgoneStored, hex⟩ :=
      exec_deleteFiles (c := c) (w := w) pod fs
    rw [hex]
    refine ⟨fun f e he hn => ?_, fun q f e he hn => ?_, fun line hl _ => hl⟩
    · have hf : goneStored f = false := by
        by_contra hf
        exact h.stored pod fs rfl f (hgoneStored f (by simpa using hf)) e he hn
      exact (Files.delete_other _ _ _ hf).trans he
    · by_cases hq : pod = q
      · subst hq
        have hf : gone f = false := by
          by_contra hf
          exact h.disk pod fs rfl f (hgone f (by simpa using hf)) e he hn
        change (w.setDisk pod _).disk pod f = some e
        rw [setDisk_disk_self, Files.delete_other _ _ _ hf, he]
      · change (w.setDisk pod _).disk q f = some e
        rw [setDisk_disk_of_ne hq, he]
  · rcases hf : Op.fault .clearLog c with _ | e
    · rw [exec_of_no_fault hf]
      exact ⟨fun _ _ he _ => he, fun _ _ _ he _ => he, fun line hl hn =>
        absurd hn (h.log rfl line hl)⟩
    · rw [exec_of_fault hf]
      exact ⟨fun _ _ he _ => he, fun _ _ _ he _ => he, fun _ hl _ => hl⟩

/-- A completed deletion step takes all there is. -/
theorem nothingYet_of_runKept {a : o.Ans} (ha : (exec o c w).1 = .ok a)
    (h : RunKept n w (exec o c w).2) : NothingYet n o w := by
  rw [exec_ok ha] at h
  refine ⟨fun pod fs ho f hf e he hn => ?_, fun pod fs ho f hf e he hn => ?_,
    fun ho line hl hn => ?_⟩
  · subst ho
    have hgone : w.stored.delete (· ∈ fs) f = none := Files.delete_of _ _ _ (by simpa using hf)
    have hkept : w.stored.delete (· ∈ fs) f = some e := h.stored f e he hn
    rw [hgone] at hkept
    cases hkept
  · subst ho
    have hgone : (w.setDisk pod ((w.disk pod).delete (· ∈ fs))).disk pod f = none := by
      rw [setDisk_disk_self, Files.delete_of _ _ _ (by simpa using hf)]
    have hkept : (w.setDisk pod ((w.disk pod).delete (· ∈ fs))).disk pod f = some e :=
      h.disk pod f e he hn
    rw [hgone] at hkept
    cases hkept
  · subst ho
    cases h.log line hl hn

/-! ## The runs of the guards won later -/

/-- A guard won adds a run. -/
theorem epoch_of_won {e : Event machine} (he : e.Allowed)
    (hc : e.call = answered .markQueued true) : e.after.epoch = e.before.epoch + 1 :=
  (epoch_cases he).elim (fun h => absurd hc h.1) fun h => h.2

/-- Nothing is there yet of a run whose guard is not won yet. -/
theorem AuthorsUpTo.nothingYet (h : AuthorsUpTo w) (hn : w.epoch < n) : NothingYet n o w where
  stored _ _ _ f _ e he ha := absurd (h.stored f e he n ha) (by omega)
  disk pod _ _ f _ e he ha := absurd (h.disk pod f e he n ha) (by omega)
  log _ line hl ha := absurd (h.log line hl n ha) (by omega)

variable [External] {requests : List (Site × Request)} {es : List (Event machine)}
  {p' : Pool machine Err Unit}

/-- The guards won before a step are behind it. -/
theorem nothingYet_of_later (hw : AuthorsUpTo w) (hsites : ∀ s ∈ requests, s.1.run = none)
    (hrun : Run (serving w requests) es p') {j q : ℕ} {step won : Event machine} (hjq : j < q)
    (hstep : es[j]? = some step) (hwon : GuardWon es q won) :
    NothingYet won.after.epoch step.call.op step.before := by
  obtain ⟨pool, c, pool', hpool, hst⟩ := hrun.at_getElem hwon.won_at
  obtain ⟨o, k, -, hev, -⟩ := Pool.step_cases hst
  have hmem : step ∈ es.take q :=
    List.mem_of_getElem? (by rw [List.getElem?_take_of_lt hjq, hstep])
  obtain ⟨hmarks, hle⟩ := (run_authorsUpTo hw hsites hpool).2 step hmem
  apply hmarks.nothingYet
  have hwon' := epoch_of_won (hrun.allowed (List.mem_of_getElem? hwon.won_at)) hwon.won
  rw [show pool.world = won.before by rw [hev]] at hle
  omega

/-- **No later run loses anything exactly when none has got that far**: over the steps that
complete, and a step that fails half-way takes nothing then either. -/
theorem reset_spares_iff (hw : AuthorsUpTo w) (hsites : ∀ s ∈ requests, s.1.run = none)
    (hrun : Run (serving w requests) es p') :
    (SparesLaterRuns (fun step => ∃ a, step.call.ans = .ok a) requests es ↔
      LaterRunsUnderway (fun step => ∃ a, step.call.ans = .ok a) requests es) ∧
    (LaterRunsUnderway (fun _ => True) requests es →
      SparesLaterRuns (fun _ => True) requests es) := by
  have hspares : ∀ {among}, LaterRunsUnderway among requests es →
      SparesLaterRuns among requests es := by
    intro among h i j pending step hreset hamong q won hiq hwon
    obtain ⟨c, hafter⟩ := after_of_allowed (hrun.allowed (List.mem_of_getElem? hreset.step_at))
    have hnothing : NothingYet won.after.epoch step.call.op step.before := by
      rcases Nat.lt_trichotomy q j with hqj | rfl | hjq
      · exact h i j pending step hreset hamong q won hiq hqj hwon
      · -- the step itself wins no guard
        obtain rfl := Option.some.inj (hwon.won_at.symm.trans hreset.step_at)
        have hop := congrArg Call.op hwon.won
        rcases hreset.deletes with ⟨pod, fs, hd⟩ | hd <;> rw [hop] at hd <;> cases hd
      · exact nothingYet_of_later hw hsites hrun hjq hreset.step_at hwon
    have hkept := exec_runKept (c := c) hreset.deletes hnothing
    rwa [hafter] at hkept
  refine ⟨⟨fun h i j pending step hreset hans q won hiq _ hwon => ?_, hspares⟩, hspares⟩
  obtain ⟨a, ha⟩ := hans
  obtain ⟨c, hex⟩ := hrun.allowed (List.mem_of_getElem? hreset.step_at)
  have hafter : (exec step.call.op c step.before).2 = step.after := congrArg Prod.snd hex
  have hkept := h i j pending step hreset ⟨a, ha⟩ q won hiq hwon
  rw [← hafter] at hkept
  exact nothingYet_of_runKept ((congrArg Prod.fst hex).trans ha) hkept

omit [External]

/-! ## A run queued in between -/

/-- A reset and a start on one pod, and a worker. -/
def resetAndStart : List (Site × Request) :=
  [(⟨0, 0, none⟩, .resetJob), (⟨0, 1, none⟩, .startComputation), (⟨1, 0, none⟩, .routingWorker)]

def resetAndStartPool : Pool machine Err Unit :=
  let _ := External.plain
  serving (.fresh (.ofModel .blank)) resetAndStart

/-- The reset sets the row PENDING, the start is served, the reset goes on to its end, and only then
the worker computes the run. -/
def resetInTime : List (Event machine) :=
  (resetAndStartPool.play (usually (List.replicate 2 0 ++ List.replicate 10 1 ++
    List.replicate 3 0 ++ List.replicate 18 2))).1

/-- The event deletes files, or clears the log. -/
def Event.deletes (e : Event machine) : Bool :=
  match e.call.op with
  | .deleteFiles .. | .clearLog => true
  | _ => false

theorem laterRunsUnderway_resetInTime :
    LaterRunsUnderway (fun _ => True) resetAndStart resetInTime := by
  intro i j pending step h _ q won _ _ _
  have hdeletes : resetInTime.map Event.deletes =
      List.replicate 12 false ++ [true, true] ++ List.replicate 19 false := by decide +kernel
  have hj : (resetInTime.map Event.deletes)[j]? = some true := by
    rw [List.getElem?_map, h.step_at, Option.map_some, Event.deletes]
    rcases h.deletes with ⟨pod, fs, hop⟩ | hop <;> rw [hop]
  rw [hdeletes] at hj
  have hlt : j < 33 := (List.getElem?_eq_some_iff.1 hj).1
  have hstep := h.step_at
  obtain rfl | rfl : j = 12 ∨ j = 13 := by
    interval_cases j <;> first | exact .inl rfl | exact .inr rfl | cases hj
  · -- the run has no output yet
    cases hstep
    refine ⟨fun pod fs ho f hf e he => ?_, fun pod fs ho f hf e he => ?_, fun ho => by cases ho⟩
    all_goals
      cases ho
      simp only [List.mem_cons, List.not_mem_nil, or_false] at hf
      rcases hf with rfl | rfl | rfl <;> cases he
  · cases hstep
    exact ⟨fun _ _ ho => (by cases ho), fun _ _ ho => (by cases ho), fun _ _ hl => by cases hl⟩

/-- A run queued during a reset loses nothing if the reset gets to its end before the worker
starts. -/
theorem reset_inTime_spares :
    let _ := External.plain
    SparesLaterRuns (fun _ => True) resetAndStart resetInTime ∧
      ∃ pending step won, ResetStep resetAndStart resetInTime 1 12 pending step ∧
        GuardWon resetInTime 3 won := by
  intro _
  exact ⟨(reset_spares_iff (authorsUpTo_fresh _) (by decide)
    (Run.of_play _ resetAndStartPool)).2 laterRunsUnderway_resetInTime,
    _, _, _, ⟨rfl, rfl, by decide, rfl, ⟨_, _, rfl, rfl⟩, rfl, .inl ⟨_, _, rfl⟩⟩, rfl, rfl⟩

/-! ## A later run harmed -/

/-- The reset sets the row PENDING, the start is served, the worker computes the run and uploads its
route, and the reset goes on to delete the outputs. -/
def lateResetSchedule : List (ℕ × Choice) :=
  usually (List.replicate 2 0 ++ List.replicate 10 1 ++ List.replicate 18 2 ++ [0])

/-- **A reset deletes the route of a run queued after it.** -/
theorem reset_deletes_a_later_solution : ¬ @ResetHarmless External.plain := by
  intro h
  let _ := External.plain
  have hspares := h _ resetAndStart _ _ (authorsUpTo_fresh _) (by decide)
    (Run.of_play lateResetSchedule resetAndStartPool)
  obtain ⟨pending, step, won, hreset, hwon, e, he, hn, hafter⟩ : ∃ pending step won,
      ResetStep resetAndStart (resetAndStartPool.play lateResetSchedule).1 1 30 pending step ∧
        GuardWon (resetAndStartPool.play lateResetSchedule).1 3 won ∧
        ∃ e, step.before.stored .solution = some e ∧ e.author = some won.after.epoch ∧
          step.after.stored .solution = none := by
    refine ⟨_, _, _, ⟨rfl, rfl, by decide, rfl, ⟨_, _, rfl, rfl⟩, rfl, .inl ⟨_, _, rfl⟩⟩,
      ⟨rfl, rfl⟩, _, rfl, rfl, rfl⟩
  have hkept := hspares _ _ _ _ hreset trivial _ _ (by decide) hwon
  rw [hkept.stored _ e he hn] at hafter
  cases hafter

end Cosmonaut
