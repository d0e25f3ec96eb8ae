import Cosmonaut.Model.RunCalls

/-!
# The failure path of a submit

A submit that fails behind its guard ends its run. It knows the run by its shape only: a queued run.
So it ends the run of a later submit, if its own was ended meanwhile and the later one is still
queued.

* `failures_own_iff`: this is the only run but its own that a failure path ends.
* `failures_own_of_kept`: it ends no other run, if nobody ends the runs of submits under way.
* `failure_ends_another_run`: such a run.
-/

namespace Cosmonaut

open Interleaving Program

/-- A submit's failure path ends the run its own guard has queued, and no other, and logs only what
it has ended. -/
structure FailuresOwn (es : List (Event machine)) : Prop where
  ended : ∀ l b r, es = l ++ b :: r → b.call = answered .markStartFailed true →
    ∃ l₀ g m, CurrentRun l l₀ g m ∧ g.thread = b.thread
  logged : ∀ l e r text, es = l ++ e :: r → e.call.op = .appendLog none text →
    ∃ b ∈ l, b.thread = e.thread ∧ b.call = answered .markStartFailed true

/-- No failure path that gets through comes upon the queued run of another submit. -/
def NoQueuedSuccessor (es : List (Event machine)) : Prop :=
  ∀ l b r l₀ g m, es = l ++ b :: r → b.call.op = .markStartFailed → (∃ a, b.call.ans = .ok a) →
    CurrentRun l l₀ g m → g.thread ≠ b.thread → ¬b.before.queued

/-- Nobody ends the run of a submit that has yet to come to its failure path. -/
def RunsKept (es : List (Event machine)) : Prop :=
  ∀ l g m b r, es = l ++ g :: (m ++ b :: r) → g.call = answered .markQueued true →
    g.thread = b.thread → b.call.op = .markStartFailed →
      ∀ e ∈ m, e.before.running → e.after.running

/-- Failure paths end their own runs only, whatever submits, cancels, resets and workers do. -/
def FailuresAlwaysOwn [External] : Prop :=
  ∀ (w : World) (requests : List (Site × Request)) (es : List (Event machine))
    (p' : Pool machine Err Unit), (∀ q ∈ requests, q.2.handlesRun = true) →
      Run (serving w requests) es p' → FailuresOwn es

variable {w : World} {requests : List (Site × Request)} {es : List (Event machine)}
  {p' : Pool machine Err Unit}

variable [External]

/-- A failure path comes behind its submit's guard. -/
theorem guard_of_failure (hrequests : ∀ q ∈ requests, q.2.handlesRun = true)
    {l r : List (Event machine)} {b : Event machine}
    (hrun : Run (serving w requests) (l ++ b :: r) p')
    (hop : b.call.op = .markStartFailed) :
    ∃ g ∈ l, g.thread = b.thread ∧ g.call = answered .markQueued true := by
  have horder := event_runOrder hrequests hrun
  obtain ⟨t, ⟨o, a⟩, before, after⟩ := b
  obtain rfl : o = .markStartFailed := hop
  exact mem_callsOf.1 horder

/-- **A failure path ends its own run only, exactly when none comes upon a later submit's queued
run.** -/
theorem failures_own_iff (hrequests : ∀ q ∈ requests, q.2.handlesRun = true)
    (hrun : Run (serving w requests) es p') : FailuresOwn es ↔ NoQueuedSuccessor es := by
  constructor
  · rintro h l b r l₀ g m rfl hop hok hcurrent hother hqueued
    have hb : b ∈ l ++ b :: r := by simp
    obtain ⟨ended, hc⟩ := answered_of_ok hop hok
    rcases startFailed_cases (hrun.allowed hb) hc with ⟨rfl, -, -⟩ | ⟨-, hnot, -⟩
    · obtain ⟨l₁, g₁, m₁, hcurrent₁, hown⟩ := h.ended l b r rfl hc
      obtain ⟨-, rfl, -⟩ := hcurrent.unique hcurrent₁
      exact hother hown
    · exact hnot hqueued
  · intro h
    constructor
    · rintro l b r rfl hc
      have hb : b ∈ l ++ b :: r := by simp
      have hop : b.call.op = .markStartFailed := by rw [hc]
      obtain ⟨g₀, hg₀, -, hwon⟩ := guard_of_failure hrequests hrun hop
      obtain ⟨l₀, g, m, hcurrent⟩ := CurrentRun.exists_of_guard ⟨g₀, hg₀, hwon⟩
      refine ⟨l₀, g, m, hcurrent, ?_⟩
      by_contra hother
      have hnot := h l b r l₀ g m rfl hop (by rw [hc]; exact ⟨true, rfl⟩) hcurrent hother
      rcases startFailed_cases (hrun.allowed hb) hc with ⟨-, hqueued, -⟩ | ⟨hfalse, -, -⟩
      · exact hnot hqueued
      · cases hfalse
    · rintro l e r text rfl hop
      have horder := event_runOrder hrequests hrun
      obtain ⟨t, ⟨o, a⟩, before, after⟩ := e
      obtain rfl : o = .appendLog none text := hop
      exact mem_callsOf.1 horder

/-- **A failure path ends its own run only, if nobody ends the runs of submits under way.** -/
theorem failures_own_of_kept (hrequests : ∀ q ∈ requests, q.2.handlesRun = true)
    (hrun : Run (serving w requests) es p') (h : RunsKept es) : FailuresOwn es := by
  refine (failures_own_iff hrequests hrun).2 ?_
  rintro l b r l₀ g m rfl hop - hcurrent hother -
  obtain ⟨g₀, hg₀, hown, hwon⟩ := guard_of_failure hrequests hrun hop
  -- the guard of the later submit comes between this one's and its failure path
  obtain rfl := hcurrent.split
  have hg₀l : g₀ ∈ l₀ := by
    rcases List.mem_append.1 hg₀ with hl | hm
    · exact hl
    · rcases List.mem_cons.1 hm with rfl | hm
      · exact absurd hown hother
      · exact absurd hwon (hcurrent.last g₀ hm)
  obtain ⟨k₁, k₂, rfl⟩ := List.append_of_mem hg₀l
  have hsplit : k₁ ++ g₀ :: k₂ ++ g :: m ++ b :: r = k₁ ++ g₀ :: ((k₂ ++ g :: m) ++ b :: r) := by
    simp
  have hchain := hrun.chain
  rw [hsplit, show k₁ ++ g₀ :: ((k₂ ++ g :: m) ++ b :: r) =
    (k₁ ++ g₀ :: k₂) ++ g :: (m ++ b :: r) by simp] at hchain
  have hstays : g.before.running := by
    refine hchain.upto.beyond.keeps (I := World.running) ?_ fun e he _ hrunning => ?_
    · exact (queued_of_won (hrun.allowed (by simp)) hwon).running
    · exact h k₁ g₀ (k₂ ++ g :: m) b r hsplit hwon hown hop e (by simp [he]) hrunning
  exact not_running_of_won (hrun.allowed (by simp)) hcurrent.won hstays

omit [External]

/-! ## A queued run mistaken -/

/-- A tab submits, a second one cancels, and a third one submits again. -/
def submitCancelSubmit : List (Site × Request) :=
  [(⟨0, 0, none⟩, .startComputation), (⟨0, 0, none⟩, .cancelComputation),
    (⟨0, 1, none⟩, .startComputation)]

def submitCancelSubmitPool : Pool machine Err Unit :=
  let _ := External.plain
  serving (.fresh (.ofModel .blank)) submitCancelSubmit

/-- The first submit is cancelled behind its guard, the second wins its guard, and then the first
one's pull fails. -/
def mistakenRunSchedule : List (ℕ × Choice) :=
  usually [0, 0, 0, 1, 1, 2, 2] ++ [(0, { Choice.usual with fault := some .objectStorage })] ++
    usually [0]

/-- Whether the call is a failure path's transition that applied. -/
def endedStart : Call sig → Bool
  | ⟨.markStartFailed, .ok true⟩ => true
  | _ => false

theorem endedStart_iff {c : Call sig} :
    endedStart c = true ↔ c = answered .markStartFailed true := by
  constructor
  · intro h
    unfold endedStart at h
    split at h
    · rfl
    · cases h
  · rintro rfl
    rfl

/-- A submit that fails alone ends its own run. -/
theorem failures_own_alone :
    let es := (submitCancelSubmitPool.play (usually [0, 0, 0] ++
      [(0, { Choice.usual with fault := some .objectStorage })] ++ usually [0])).1
    (es.any fun e => endedStart e.call) = true ∧ FailuresOwn es := by
  intro es
  let _ := External.plain
  have hthread : ∀ e ∈ es, e.thread = 0 := by decide +kernel
  have hrun : Run (serving submitCancelSubmitPool.world submitCancelSubmit) es _ :=
    Run.of_play _ submitCancelSubmitPool
  refine ⟨by decide +kernel, (failures_own_iff (by decide) hrun).2 ?_⟩
  intro l b r l₀ g m hes _ _ hcurrent hother
  have hg : g ∈ es := by
    rw [hes, hcurrent.split]
    simp
  exact absurd ((hthread g hg).trans (hthread b (by rw [hes]; simp)).symm) hother

/-- **A failure path ends another submit's run**: that run looks like its own. -/
theorem failure_ends_another_run : ¬ @FailuresAlwaysOwn External.plain := by
  intro h
  let _ := External.plain
  have hown := h _ submitCancelSubmit _ _ (by decide)
    (Run.of_play mistakenRunSchedule submitCancelSubmitPool)
  have hfailure : (submitCancelSubmitPool.play mistakenRunSchedule).1[8]?.map
      (fun e => (e.thread, endedStart e.call)) = some (0, true) := by
    decide +kernel
  have hguard : (((submitCancelSubmitPool.play mistakenRunSchedule).1.take 8).filter
      fun e => wonGuard e.call).getLast?.map (·.thread) = some 2 := by
    decide +kernel
  obtain ⟨b, hb, hthread⟩ := Option.map_eq_some_iff.1 hfailure
  obtain ⟨hthread, hended⟩ := Prod.mk.inj hthread
  obtain ⟨l₀, g, m, hcurrent, hsame⟩ :=
    hown.ended _ b _ (eq_append_of_getElem hb) (endedStart_iff.1 hended)
  rw [hcurrent.last_guard, Option.map_some, hsame, hthread] at hguard
  cases hguard

end Cosmonaut
