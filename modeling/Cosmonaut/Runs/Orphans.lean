import Cosmonaut.Model.RunCalls

/-!
# No queued run is orphaned

A run in the row waits for a worker to claim it, so some message must be on its way as long as
nobody has. A message gets lost by a delivery, which then claims the run, or by a cancel, which then
ends it.

* `message_kept`: while a queued run stays one, its messages do.
* `no_run_orphaned`: a queued run has a message, whenever no submit, cancel or delivery is under
  way, and no submit sends one without its guard.
-/

namespace Cosmonaut

open Interleaving Program

/-- The row is a queued run, and no routing message is left that a worker would take. -/
def World.orphaned (w : World) : Prop :=
  w.queued ∧ ∀ m ∈ w.messages, m.task = .routing → m.id ∈ w.revoked

/-- No submit, cancel or delivery is in the middle of its steps. -/
structure Settled (es : List (Event machine)) (p' : Pool machine Err Unit) : Prop where
  /-- Every request that has come to a submit's guard or to a cancel's revocation has ended. -/
  ended : ∀ e ∈ es, (e.call.op = .markQueued ∨ ∃ id, e.call.op = .revokeJob id) →
    ∃ prog, p'.threads[e.thread]? = some prog ∧ prog.Ended
  /-- Every worker that has taken a message has tried to claim the run. -/
  claimed : ∀ e ∈ es, ∀ m, e.call = answered (.receive true) (some m) →
    ∃ b ∈ es, b.thread = e.thread ∧ b.call.op = .claim

/-- The framework's transitions do not fail, and no submit is terminated behind its guard. Any other
step may raise any exception. -/
structure Reliable (es : List (Event machine)) : Prop where
  transitions : ∀ e ∈ es,
    e.call.op = .markStartFailed ∨ e.call.op = .markCancelled ∨ e.call.op = .claim →
      ∃ a, e.call.ans = .ok a
  alive : ∀ g ∈ es, g.call = answered .markQueued true → ∀ e ∈ es, e.thread = g.thread →
    e.call.ans ≠ .error .killed

/-- Every message a submit sends comes after its own guard. -/
def SentBehindGuard (es : List (Event machine)) : Prop :=
  ∀ l e r task id, es = l ++ e :: r → e.call.op = .submitJob task id →
    ∃ g ∈ l, g.thread = e.thread ∧ g.call = answered .markQueued true

variable {w : World} {requests : List (Site × Request)} {es l r : List (Event machine)}
  {e : Event machine} {p' : Pool machine Err Unit}

variable [External]

/-- **While a queued run stays one, its messages do.** -/
theorem message_kept (hrequests : ∀ q ∈ requests, q.2.handlesRun = true)
    (hrun : Run (serving w requests) (l ++ r) p') (hreliable : Reliable (l ++ r))
    (hsettled : Settled (l ++ r) p') (hno : ∀ a ∈ r, a.call ≠ answered .markQueued true)
    (hqueued : p'.world.queued) {v : World} (hchain : Chain v r p'.world) {m : Message}
    (hm : m ∈ v.messages) (hrevoked : m.id ∉ v.revoked) :
    m ∈ p'.world.messages ∧ m.id ∉ p'.world.revoked := by
  -- no step of the stretch leaves the row without a queued run
  have hstays : ∀ b ∈ r, b.after.queued := by
    intro b hb
    obtain ⟨r₁, r₂, rfl⟩ := List.append_of_mem hb
    exact queued_of_end hchain.beyond (fun a ha => hno a (by simp [ha])) hqueued
  apply hchain.keeps (I := fun v : World => m ∈ v.messages ∧ m.id ∉ v.revoked) ⟨hm, hrevoked⟩
  rintro a ha hallowed ⟨hm, hrevoked⟩
  obtain ⟨r₁, r₂, rfl⟩ := List.append_of_mem ha
  have hes : l ++ (r₁ ++ a :: r₂) = (l ++ r₁) ++ a :: r₂ := by simp
  rw [hes] at hrun hsettled hreliable
  have horder := event_runOrder hrequests hrun
  have ha' : a ∈ (l ++ r₁) ++ a :: r₂ := by simp
  constructor
  · rcases message_cases hallowed hm with hkept | ⟨routing, hc⟩ | ⟨routing, -, hmem⟩
    · exact hkept
    · -- whoever takes the message claims the run
      rw [hc] at horder
      obtain ⟨rfl, hpast⟩ := horder
      obtain ⟨b, hb, hthread, hop⟩ := hsettled.claimed a ha' m hc
      have hbr : b ∈ r₂ := by
        refine mem_after hb hthread (fun c hc => ?_) (by rw [hc, hop]; simp)
        rw [hpast] at hc
        cases hc
      obtain ⟨ans, hans⟩ := answered_of_ok hop (hreliable.transitions b hb (.inr (.inr hop)))
      have hb' : b ∈ r₁ ++ a :: r₂ := by simp [hbr]
      exact absurd (hstays b hb') (not_queued_of_claim (hrun.allowed hb) hans)
    · exact absurd hmem hrevoked
  · intro hrev
    have hans := (revoked_cases hallowed hrev).resolve_left hrevoked
    have hop : a.call.op = .revokeJob m.id := by rw [hans]
    -- whoever revokes it ends the run
    rw [hans] at horder
    obtain ⟨row, hpast, -⟩ := horder
    obtain ⟨rest, hrest, hend⟩ := hsettled.ended a ha' (.inr ⟨_, hop⟩)
    obtain ⟨_, -, hend⟩ := runEnd_of_ended hrequests hrun ha' hrest hend
    obtain ⟨ans, hmem⟩ := hend.cancelled m.id (mem_callsOf.2 ⟨a, ha', rfl, hans⟩)
    obtain ⟨b, hb, hthread, hc⟩ := mem_callsOf.1 hmem
    have hbr : b ∈ r₂ := by
      refine mem_after hb hthread (fun c hc' => ?_) (by rw [hc, hans]; simp)
      rw [hpast] at hc'
      rw [List.mem_singleton.1 hc', hc]
      simp
    have hop : b.call.op = .markCancelled := by rw [hc]
    obtain ⟨ans, hans⟩ := answered_of_ok hop (hreliable.transitions b hb (.inr (.inl hop)))
    have hb' : b ∈ r₁ ++ a :: r₂ := by simp [hbr]
    exact absurd (hstays b hb').running (not_running_of_cancelled (hrun.allowed hb) hans)

/-- **Every message is sent behind the guard of the submit that sent it.** -/
theorem sent_behind_guard (hrequests : ∀ q ∈ requests, q.2.handlesRun = true)
    (hrun : Run (serving w requests) es p') : SentBehindGuard es := by
  rintro l e r task id rfl hop
  have horder := event_runOrder hrequests hrun
  obtain ⟨t, ⟨o, a⟩, before, after⟩ := e
  obtain rfl : o = .submitJob task id := hop
  obtain ⟨g, hg, hthread, hc⟩ := mem_callsOf.1 horder.2.2.1
  exact ⟨g, hg, hthread, hc⟩

/-- A message for a routing run that is not revoked. -/
def World.hasMessage (w : World) : Prop :=
  ∃ m ∈ w.messages, m.task = .routing ∧ m.id ∉ w.revoked

omit [External] in
theorem World.hasMessage_iff {w : World} (hqueued : w.queued) : w.hasMessage ↔ ¬w.orphaned := by
  constructor
  · rintro ⟨m, hm, htask, hrevoked⟩ ⟨-, hnone⟩
    exact hrevoked (hnone m hm htask)
  · intro h
    by_contra hnot
    rw [World.hasMessage] at hnot
    push Not at hnot
    exact h ⟨hqueued, hnot⟩

/-- What the submit of a run that is still queued has sent is on its way. -/
theorem message_of_submitted (hrequests : ∀ q ∈ requests, q.2.handlesRun = true)
    (hids : IdsDrawn w) {g s : Event machine} {m₁ m₂ : List (Event machine)} {id : Option TaskId}
    (hrun : Run (serving w requests) (l ++ g :: (m₁ ++ s :: m₂)) p')
    (hreliable : Reliable (l ++ g :: (m₁ ++ s :: m₂)))
    (hsettled : Settled (l ++ g :: (m₁ ++ s :: m₂)) p')
    (hno : ∀ a ∈ m₁ ++ s :: m₂, a.call ≠ answered .markQueued true) (hqueued : p'.world.queued)
    (hc : s.call = answered (.submitJob .routing none) (id, false)) : p'.world.hasMessage := by
  have hs : s ∈ l ++ g :: (m₁ ++ s :: m₂) := by simp
  obtain ⟨-, -, hm, hrevoked⟩ := submitJob_answered (hrun.allowed hs) hc
  have hfresh : s.before.nextId ∉ s.after.revoked := by
    rw [hrevoked]
    intro hmem
    exact lt_irrefl _ (((run_idsDrawn hrequests hids hrun).2 s hs).revoked _ hmem)
  have hes : l ++ g :: (m₁ ++ s :: m₂) = (l ++ g :: m₁ ++ [s]) ++ m₂ := by simp
  have hchain : Chain s.after m₂ p'.world := by
    have hchain := hrun.chain
    rw [show l ++ g :: (m₁ ++ s :: m₂) = (l ++ g :: m₁) ++ s :: m₂ by simp] at hchain
    exact hchain.beyond
  rw [hes] at hrun hreliable hsettled
  obtain ⟨hm, hrevoked⟩ := message_kept hrequests hrun hreliable hsettled
    (fun a ha => hno a (by simp [ha])) hqueued hchain hm hfresh
  exact ⟨_, hm, rfl, hrevoked⟩

/-- The submit of a run that is still queued did not take its failure path. -/
theorem not_failed_of_queued {g b : Event machine}
    (hrun : Run (serving w requests) (l ++ g :: r) p') (hreliable : Reliable (l ++ g :: r))
    (hno : ∀ a ∈ r, a.call ≠ answered .markQueued true) (hqueued : p'.world.queued) (hb : b ∈ r) :
    b.call.op ≠ .markStartFailed := by
  intro hop
  have hbmem : b ∈ l ++ g :: r := by simp [hb]
  obtain ⟨ended, hans⟩ := answered_of_ok hop (hreliable.transitions b hbmem (.inl hop))
  obtain ⟨r₁, r₂, rfl⟩ := List.append_of_mem hb
  have hchain : Chain b.after r₂ p'.world := by
    have hchain := hrun.chain
    rw [show l ++ g :: (r₁ ++ b :: r₂) = (l ++ g :: r₁) ++ b :: r₂ by simp] at hchain
    exact hchain.beyond
  have hstill : b.after.queued :=
    queued_of_end hchain (fun a ha => hno a (by simp [ha])) hqueued
  rcases startFailed_cases (hrun.allowed hbmem) hans with ⟨-, -, hnot⟩ | ⟨-, hnot, hsame⟩
  · exact hnot hstill.running
  · exact hnot (hsame ▸ hstill)

/-- **A run that was queued by the last guard has its message.** -/
theorem message_of_guard (hrequests : ∀ q ∈ requests, q.2.handlesRun = true) (hids : IdsDrawn w)
    {g : Event machine} (hrun : Run (serving w requests) (l ++ g :: r) p')
    (hreliable : Reliable (l ++ g :: r)) (hsettled : Settled (l ++ g :: r) p')
    (hg : g.call = answered .markQueued true)
    (hno : ∀ a ∈ r, a.call ≠ answered .markQueued true) (hqueued : p'.world.queued) :
    p'.world.hasMessage := by
  -- the submit of the guard has ended
  have hgmem : g ∈ l ++ g :: r := by simp
  obtain ⟨rest, hrest, hend⟩ := hsettled.ended g hgmem (.inl (by rw [hg]))
  obtain ⟨res, -, hend⟩ := runEnd_of_ended hrequests hrun hgmem hrest hend
  have hcurrent : CurrentRun (l ++ g :: r) l g r := ⟨rfl, hg, hno⟩
  have hsubmitted : ∀ id, answered (.submitJob .routing none) (id, false) ∈
      callsOf g.thread (l ++ g :: r) → p'.world.hasMessage := by
    intro id hid
    obtain ⟨s, hs, -, hc⟩ := hcurrent.behind hrequests hrun hid fun _ h => h.2.2.1
    obtain ⟨m₁, m₂, rfl⟩ := List.append_of_mem hs
    exact message_of_submitted hrequests hids hrun hreliable hsettled hno hqueued hc
  have hstarted := hend.started (mem_callsOf.2 ⟨g, hgmem, rfl, hg⟩)
  generalize res.isOk = returned at hstarted
  cases hstarted with
  | named id hid => exact hsubmitted id hid
  | unnamed id hid => exact hsubmitted id hid
  | failed a _ ha =>
    obtain ⟨b, hb, -, hc⟩ := hcurrent.behind hrequests hrun ha fun _ h => h
    exact absurd (by rw [hc]) (not_failed_of_queued hrun hreliable hno hqueued hb)
  | killed o ho =>
    obtain ⟨b, hb, hthread, hc⟩ := mem_callsOf.1 ho
    refine absurd ?_ (hreliable.alive g hgmem hg b hb hthread)
    obtain ⟨t, ⟨o', a⟩, before, after⟩ := b
    cases hc
    rfl

/-- **No queued run is orphaned.** Whatever submits, cancels, resets and workers have done, a queued
run has a message on its way once no submit and no cancel is in progress, and every message was
sent behind the guard of the submit that sent it. -/
theorem no_run_orphaned (hrequests : ∀ q ∈ requests, q.2.handlesRun = true)
    (hw : ¬w.orphaned) (hids : IdsDrawn w) (hrun : Run (serving w requests) es p')
    (hreliable : Reliable es) :
    (Settled es p' → ¬p'.world.orphaned) ∧ SentBehindGuard es := by
  refine ⟨fun hsettled horphaned => ?_, sent_behind_guard hrequests hrun⟩
  have hqueued : p'.world.queued := horphaned.1
  refine (World.hasMessage_iff hqueued).1 ?_ horphaned
  rcases last_such (fun e : Event machine => e.call = answered .markQueued true) es with
    hno | ⟨l, g, r, rfl, hg, hno⟩
  · -- the run was queued all the time
    have hqueued₀ : w.queued := queued_of_end hrun.chain hno hqueued
    obtain ⟨m, hm, htask, hrevoked⟩ := (World.hasMessage_iff hqueued₀).2 hw
    obtain ⟨hm, hrevoked⟩ := message_kept (l := []) hrequests hrun hreliable hsettled hno hqueued
      hrun.chain hm hrevoked
    exact ⟨m, hm, htask, hrevoked⟩
  · exact message_of_guard hrequests hids hrun hreliable hsettled hg hno hqueued

omit [External]

/-- One tab submits the job. -/
def oneSubmit : List (Site × Request) := [(⟨0, 0, none⟩, .startComputation)]

def oneSubmitPool : Pool machine Err Unit :=
  let _ := External.plain
  serving (.fresh (.ofModel .blank)) oneSubmit

def oneSubmitSchedule : List (ℕ × Choice) := usually (List.replicate 10 0)

/-- A submit served alone leaves a queued run, with its message. -/
theorem no_run_orphaned_alone :
    (oneSubmitPool.play oneSubmitSchedule).2.world.row.map (·.status) = some .running ∧
      ¬(oneSubmitPool.play oneSubmitSchedule).2.world.orphaned := by
  let _ := External.plain
  have hok : ∀ e ∈ (oneSubmitPool.play oneSubmitSchedule).1,
      e.thread = 0 ∧ e.call.ans.isOk = true ∧ e.call.op.receives = false := by
    decide +kernel
  have hans : ∀ e ∈ (oneSubmitPool.play oneSubmitSchedule).1, ∃ a, e.call.ans = .ok a := by
    intro e he
    rcases hc : e.call.ans with f | a
    · have hfalse := (hok e he).2.1
      rw [hc] at hfalse
      cases hfalse
    · exact ⟨a, rfl⟩
  have hended : (oneSubmitPool.play oneSubmitSchedule).2.threads.length = 1 ∧
      ∀ prog ∈ (oneSubmitPool.play oneSubmitSchedule).2.threads, prog.Ended := by
    decide +kernel
  have hrun : Run (serving oneSubmitPool.world oneSubmit) _ _ :=
    Run.of_play oneSubmitSchedule oneSubmitPool
  refine ⟨by decide +kernel, (no_run_orphaned (by decide) ?_ ⟨?_, ?_⟩ hrun ⟨?_, ?_⟩).1 ⟨?_, ?_⟩⟩
  · rintro ⟨⟨r, hr, hstatus, -⟩, -⟩
    cases hr
    cases hstatus
  · exact fun id hid => by cases hid
  · exact fun row id hrow hid => by cases hrow; cases hid
  · exact fun e he _ => hans e he
  · intro g _ _ e he _ hkilled
    obtain ⟨a, ha⟩ := hans e he
    rw [ha] at hkilled
    cases hkilled
  · intro e he _
    have hlt : 0 < (oneSubmitPool.play oneSubmitSchedule).2.threads.length := by
      rw [hended.1]
      decide
    rw [(hok e he).1]
    exact ⟨_, List.getElem?_eq_getElem hlt, hended.2 _ (List.getElem_mem hlt)⟩
  · intro e he m hc
    have hreceives := (hok e he).2.2
    rw [hc] at hreceives
    cases hreceives

end Cosmonaut
