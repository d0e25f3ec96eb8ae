import Cosmonaut.Model.RunCalls

/-!
# What a claimed run finds stored

A submit makes its run claimable before it saves the inputs. Its own message is sent after the save,
so whoever claims too early has taken another one.

* `saved_of_sent`: when a submit's message is sent, its save is complete.
* `claims_stored_iff`: a run is claimed before its save exactly by the message of another run.
* `stale_message_claims`: such a run.
-/

namespace Cosmonaut

open Interleaving Program

/-- The thread's save is complete: parameters written, work dir uploaded, row written. -/
structure Saved (m : List (Event machine)) (t : ℕ) : Prop where
  files : FilesSaved (callsOf t m)
  row : ∃ columns, answered (.writeRow columns) () ∈ callsOf t m

/-- A run is only claimed after the save of the submit that queued it. -/
def ClaimsStored (es : List (Event machine)) : Prop :=
  ∀ l c r claimed l₀ g m, es = l ++ c :: r → c.call = answered .claim (some claimed) →
    CurrentRun l l₀ g m → Saved m g.thread

/-- The event sends the message of this id. -/
def Sends (s : Event machine) (id : TaskId) : Prop :=
  (∃ task, s.call.op = .submitJob task none) ∧ s.before.nextId = id

/-- A worker that has taken another message than that of the submit which queued the run, and tries
to claim the run, finds the submit's save complete. -/
def OtherMessagesWait (es : List (Event machine)) : Prop :=
  ∀ l c r l₀ g m msg, es = l ++ c :: r → c.call.op = .claim → (∃ a, c.call.ans = .ok a) →
    CurrentRun l l₀ g m → c.before.queued →
      answered (.receive true) (some msg) ∈ callsOf c.thread l →
        (∀ s ∈ m, s.thread = g.thread → ¬Sends s msg.id) → Saved m g.thread

/-- A run is only claimed on stored inputs, whatever submits, cancels, resets and workers do. -/
def ClaimsAlwaysStored [External] : Prop :=
  ∀ (w : World) (requests : List (Site × Request)) (es : List (Event machine))
    (p' : Pool machine Err Unit), (∀ q ∈ requests, q.2.handlesRun = true) →
      Run (serving w requests) es p' → ClaimsStored es

variable {w : World} {requests : List (Site × Request)} {es l₀ m : List (Event machine)}
  {p' : Pool machine Err Unit} {g : Event machine}

variable [External]

/-- A written row comes with the files of the same save. -/
theorem saved_of_row (hrequests : ∀ q ∈ requests, q.2.handlesRun = true)
    (hrun : Run (serving w requests) es p') (h : CurrentRun es l₀ g m) {columns : Columns}
    (hrow : answered (.writeRow columns) () ∈ callsOf g.thread m) : Saved m g.thread := by
  obtain ⟨s, hs, hthread, hc⟩ := mem_callsOf.1 hrow
  obtain ⟨m₁, m₂, rfl⟩ := List.append_of_mem hs
  have hguard : answered .markQueued true ∉ callsOf g.thread m₁ := by
    intro hmem
    obtain ⟨a, ha, -, hc⟩ := mem_callsOf.1 hmem
    exact h.last a (by simp [ha]) hc
  have hes : es = (l₀ ++ g :: m₁) ++ s :: m₂ := by simp [h.split]
  have horder : RunOrder (callsOf s.thread (l₀ ++ g :: m₁)) s.call :=
    event_runOrder hrequests (hes ▸ hrun)
  rw [hc, hthread] at horder
  obtain ⟨mid, past₀, hpast, -, hfiles, -⟩ := horder
  have hold : answered .markQueued true ∉ callsOf g.thread l₀ := by
    intro hmem
    have horder : RunOrder (callsOf g.thread l₀) g.call :=
      event_runOrder hrequests (h.split ▸ hrun)
    rw [h.won] at horder
    exact horder _ hmem rfl
  have hcalls : callsOf g.thread (l₀ ++ g :: m₁) =
      callsOf g.thread m₁ ++ answered .markQueued true :: callsOf g.thread l₀ := by
    rw [show l₀ ++ g :: m₁ = (l₀ ++ [g]) ++ m₁ by simp, callsOf_append,
      callsOf_snoc_self rfl, h.won]
  rw [hcalls] at hpast
  obtain ⟨rfl, -, rfl⟩ := (List.append_cons_inj_of_notMem hguard hold).1 hpast
  refine ⟨?_, columns, hrow⟩
  obtain ⟨here, config, hwritten, huploaded⟩ := hfiles
  have hsub : callsOf g.thread m₁ ⊆ callsOf g.thread (m₁ ++ s :: m₂) := by
    rw [callsOf_append]
    exact List.subset_append_right _ _
  exact ⟨here, config, hsub hwritten, hsub huploaded⟩

/-- **A submit's message comes after its save.** -/
theorem saved_of_sent (hrequests : ∀ q ∈ requests, q.2.handlesRun = true)
    (hrun : Run (serving w requests) es p') (h : CurrentRun es l₀ g m) {s : Event machine}
    (hs : s ∈ m) (hthread : s.thread = g.thread) {id : TaskId} (hsends : Sends s id) :
    Saved m g.thread := by
  obtain ⟨⟨task, hop⟩, -⟩ := hsends
  obtain ⟨m₁, m₂, rfl⟩ := List.append_of_mem hs
  have hes : es = (l₀ ++ g :: m₁) ++ s :: m₂ := by simp [h.split]
  have horder := event_runOrder (e := s) hrequests (hes ▸ hrun)
  rw [hthread] at horder
  obtain ⟨t, ⟨o, a⟩, before, after⟩ := s
  obtain rfl : o = .submitJob task none := hop
  obtain ⟨-, -, -, ⟨columns, hrow⟩, -⟩ := horder
  obtain ⟨b, hb, hbthread, hc⟩ := mem_callsOf.1 hrow
  obtain ⟨q, hq⟩ := (hes ▸ hrun).upto
  have hbm : b ∈ m₁ := by
    apply mem_behind_guard hrequests hq h.won hb hbthread
    intro past horder
    rw [hc] at horder
    obtain ⟨mid, past₀, rfl, -⟩ := horder
    simp
  refine saved_of_row hrequests hrun h (mem_callsOf.2 ⟨b, ?_, hbthread, hc⟩)
  simp [hbm]

omit [External] in
/-- A claim goes through exactly when it comes upon a queued run. -/
theorem claimed_iff {c : Event machine} (he : c.Allowed) {claimed : Option (ℕ × ℕ)}
    (hc : c.call = answered .claim claimed) : (∃ run, claimed = some run) ↔ c.before.queued := by
  obtain ⟨choice, hafter⟩ := after_of_answered he hc
  simp only [perform] at hafter
  split at hafter
  · rename_i r hr
    split at hafter
    · rename_i hqueued
      simp only [Prod.mk.injEq, Except.ok.injEq] at hafter
      exact ⟨fun _ => ⟨r, hr, hqueued⟩, fun _ => ⟨_, hafter.1.symm⟩⟩
    · rename_i hnot
      simp only [Prod.mk.injEq, Except.ok.injEq] at hafter
      constructor
      · rintro ⟨run, hrun⟩
        rw [← hafter.1] at hrun
        cases hrun
      · rintro ⟨r', hr', hqueued⟩
        obtain rfl := Option.some.inj (hr.symm.trans hr')
        exact absurd hqueued hnot
  · rename_i hr
    simp only [Prod.mk.injEq, Except.ok.injEq] at hafter
    constructor
    · rintro ⟨run, hrun⟩
      rw [← hafter.1] at hrun
      cases hrun
    · rintro ⟨r', hr', -⟩
      rw [hr] at hr'
      cases hr'

/-- **A run is only claimed on stored inputs, exactly when the messages of other runs come
late.** -/
theorem claims_stored_iff (hrequests : ∀ q ∈ requests, q.2.handlesRun = true)
    (hrun : Run (serving w requests) es p') : ClaimsStored es ↔ OtherMessagesWait es := by
  constructor
  · rintro h l c r l₀ g m msg rfl hop hok hcurrent hqueued - -
    obtain ⟨claimed, hc⟩ := answered_of_ok hop hok
    obtain ⟨run, rfl⟩ := (claimed_iff (hrun.allowed (by simp)) hc).2 hqueued
    exact h l c r run l₀ g m rfl hc hcurrent
  · rintro h l c r claimed l₀ g m rfl hc hcurrent
    have hop : c.call.op = .claim := by rw [hc]
    have hqueued := (claimed_iff (hrun.allowed (by simp)) hc).1 ⟨claimed, rfl⟩
    obtain ⟨msg, hpast⟩ : ∃ msg, callsOf c.thread l = [answered (.receive true) (some msg)] := by
      have horder := event_runOrder hrequests hrun
      rw [hc] at horder
      exact horder
    obtain ⟨q, hq⟩ := hrun.upto
    by_cases hown : ∃ s ∈ m, s.thread = g.thread ∧ Sends s msg.id
    · obtain ⟨s, hs, hthread, hsends⟩ := hown
      exact saved_of_sent hrequests hq hcurrent hs hthread hsends
    · push Not at hown
      refine h l c r l₀ g m msg rfl hop (by rw [hc]; exact ⟨_, rfl⟩) hcurrent hqueued ?_ hown
      rw [hpast]
      exact List.mem_singleton_self _

omit [External]

/-! ## A stale message -/

/-- A tab submits, a second one cancels, a third one submits again, and a worker takes a message. -/
def submitAgain : List (Site × Request) :=
  [(⟨0, 0, none⟩, .startComputation), (⟨0, 1, none⟩, .cancelComputation),
    (⟨0, 2, none⟩, .startComputation), (⟨1, 0, none⟩, .routingWorker)]

def submitAgainPool : Pool machine Err Unit :=
  let _ := External.plain
  serving (.fresh (.ofModel .blank)) submitAgain

/-- Whether the call is a claim that went through. -/
def claimedRun : Call sig → Option (ℕ × ℕ)
  | ⟨.claim, .ok (some run)⟩ => some run
  | _ => none

theorem claimedRun_iff {c : Call sig} {run : ℕ × ℕ} :
    claimedRun c = some run ↔ c = answered .claim (some run) := by
  constructor
  · intro h
    unfold claimedRun at h
    split at h
    · cases h
      rfl
    · cases h
  · rintro rfl
    rfl

def Op.claims : Op → Bool
  | .claim => true
  | _ => false

/-- The row a save has written. -/
def savedRow : Call sig → Option Columns
  | ⟨.writeRow columns, .ok ()⟩ => some columns
  | _ => none

theorem savedRow_iff {c : Call sig} {columns : Columns} :
    savedRow c = some columns ↔ c = answered (.writeRow columns) () := by
  constructor
  · intro h
    unfold savedRow at h
    split at h
    · cases h
      rfl
    · cases h
  · rintro rfl
    rfl

/-- The first submit, and the worker that takes its message. -/
def ownMessageSchedule : List (ℕ × Choice) := usually (List.replicate 10 0 ++ [3, 3])

/-- A worker that takes the message of the one submit. -/
theorem claims_stored_alone :
    ((submitAgainPool.play ownMessageSchedule).1.any fun e => (claimedRun e.call).isSome) = true ∧
      ClaimsStored (submitAgainPool.play ownMessageSchedule).1 := by
  let _ := External.plain
  have hrun : Run (serving submitAgainPool.world submitAgain) _ _ :=
    Run.of_play ownMessageSchedule submitAgainPool
  refine ⟨by decide +kernel, (claims_stored_iff (by decide) hrun).2 ?_⟩
  rintro l c r l₀ g m msg hes hop - hcurrent - - -
  have hclaim : ∀ i < 12, (submitAgainPool.play ownMessageSchedule).1[i]?.any
      (fun e => e.call.op.claims) = true → i = 11 := by
    decide +kernel
  have hguards : ∀ e ∈ (submitAgainPool.play ownMessageSchedule).1, wonGuard e.call = true →
      e.thread = 0 := by
    decide +kernel
  have hsave : ((submitAgainPool.play ownMessageSchedule).1[7]?.map fun e =>
      (e.thread, (savedRow e.call).isSome)) = some (0, true) := by
    decide +kernel
  have hlength : (submitAgainPool.play ownMessageSchedule).1.length = 12 := by decide +kernel
  have hat : (submitAgainPool.play ownMessageSchedule).1[l.length]? = some c := by simp [hes]
  have hl : l.length = 11 := by
    refine hclaim l.length ?_ (by simp [hat, hop, Op.claims])
    have := (List.getElem?_eq_some_iff.1 hat).1
    omega
  obtain ⟨s, hs, hsaved⟩ := Option.map_eq_some_iff.1 hsave
  obtain ⟨hthread, hrow⟩ := Prod.mk.inj hsaved
  obtain ⟨columns, hrow⟩ := Option.isSome_iff_exists.1 hrow
  have hsl : s ∈ l := by
    rw [hes, List.getElem?_append_left (by omega)] at hs
    exact List.mem_of_getElem? hs
  have hg : g.thread = 0 := by
    refine hguards g ?_ (wonGuard_iff.2 hcurrent.won)
    rw [hes]
    exact List.mem_append_left _ hcurrent.mem
  rw [hes] at hrun
  obtain ⟨q, hq⟩ := hrun.upto
  have hc := savedRow_iff.1 hrow
  refine saved_of_row (by decide) hq hcurrent (mem_callsOf.2 ⟨s, ?_, hthread.trans hg.symm, hc⟩)
  rw [hcurrent.split] at hsl hq
  apply mem_behind_guard (by decide) hq hcurrent.won hsl (hthread.trans hg.symm)
  intro past horder
  rw [hc] at horder
  obtain ⟨mid, past₀, rfl, -⟩ := horder
  simp

/-- The first submit is cancelled before it has named its task, so its message outlives its run and
is delivered right behind the second submit's guard. -/
def staleMessageSchedule : List (ℕ × Choice) :=
  usually (List.replicate 9 0 ++ [1, 1, 2, 2, 3, 3])

/-- **A stale message claims the next run** before its inputs are stored. -/
theorem stale_message_claims : ¬ @ClaimsAlwaysStored External.plain := by
  intro h
  let _ := External.plain
  have hstored := h _ submitAgain _ _ (by decide)
    (Run.of_play staleMessageSchedule submitAgainPool)
  have hclaim : (submitAgainPool.play staleMessageSchedule).1[14]?.map
      (fun e => claimedRun e.call) = some (some (1, 2)) := by
    decide +kernel
  have hguard : (((submitAgainPool.play staleMessageSchedule).1.take 14).filter
      fun e => wonGuard e.call).getLast?.map (·.thread) = some 2 := by
    decide +kernel
  have hsave : ∀ e ∈ (submitAgainPool.play staleMessageSchedule).1,
      (savedRow e.call).isSome = true → e.thread = 0 := by
    decide +kernel
  obtain ⟨c, hc, hclaimed⟩ := Option.map_eq_some_iff.1 hclaim
  obtain ⟨g, hg, hthread⟩ := Option.map_eq_some_iff.1 hguard
  obtain ⟨l₀, g, m, hcurrent⟩ : ∃ l₀ g m,
      CurrentRun ((submitAgainPool.play staleMessageSchedule).1.take 14) l₀ g m := by
    have hmem := List.mem_filter.1 (List.mem_of_getLast? hg)
    exact CurrentRun.exists_of_guard ⟨g, hmem.1, wonGuard_iff.1 hmem.2⟩
  rw [hcurrent.last_guard, Option.map_some, Option.some.injEq] at hguard
  obtain ⟨-, columns, hrow⟩ :=
    hstored _ c _ _ l₀ g m (eq_append_of_getElem hc) (claimedRun_iff.1 hclaimed) hcurrent
  obtain ⟨s, hs, hthread, hop⟩ := mem_callsOf.1 hrow
  have hmem : s ∈ (submitAgainPool.play staleMessageSchedule).1 := by
    apply List.mem_of_mem_take (i := 14)
    rw [hcurrent.split]
    simp [hs]
  have hzero := hsave s hmem (by rw [hop]; rfl)
  rw [hthread, hguard] at hzero
  cases hzero

end Cosmonaut
