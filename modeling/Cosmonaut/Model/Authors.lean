import Cosmonaut.Model.Requests

/-!
# Which run wrote what

Files and log lines are marked with the run that wrote them, by the epoch of the run's guard. No
mark is ahead of the guards won (`AuthorsUpTo`): a run writes under the epoch its claim answered.

* `exec_authorsUpTo`: what one step preserves.
* `Request.authored`: a request writes under the epoch it has claimed.
* `run_authorsUpTo`: what a whole run preserves.
-/

namespace Cosmonaut

open Interleaving Program

/-! ## Marks -/

/-- The run whose mark the operation puts on what it writes. -/
def Op.author : Op → Option ℕ
  | .openFile s _ | .writeFile s _ _ | .pipeline s => s.run
  | .appendLog author _ => author
  | _ => none

/-- The mark is none of a run queued after epoch `n`. -/
def UpTo (n : ℕ) (author : Option ℕ) : Prop := ∀ m, author = some m → m ≤ n

theorem upTo_none (n : ℕ) : UpTo n none := fun _ h => by cases h

theorem UpTo.mono {n m : ℕ} {author : Option ℕ} (h : UpTo n author) (hnm : n ≤ m) :
    UpTo m author := fun k hk => (h k hk).trans hnm

/-- No file is marked with a run queued after epoch `n`. -/
def Files.UpTo (n : ℕ) (d : Files) : Prop := ∀ f e, d f = some e → Cosmonaut.UpTo n e.author

namespace Files.UpTo

variable {n m : ℕ} {d d' : Files}

theorem mono (h : d.UpTo n) (hnm : n ≤ m) : d.UpTo m := fun f e he => (h f e he).mono hnm

theorem pull (h : d.UpTo n) (h' : d'.UpTo n) (fs : FileName → Bool) (time : FileName → ℕ) :
    (d.pull d' fs time).UpTo n := by
  intro f e he
  rcases pull_cases d d' f fs time with ⟨hp, -⟩ | ⟨e', -, hs, hp⟩
  · exact h f e (hp ▸ he)
  · rw [hp, Option.some.injEq] at he
    rw [← he]
    exact h' f e' hs

theorem upload (h : d.UpTo n) (h' : d'.UpTo n) (fs : FileName → Bool) :
    (d.upload d' fs).UpTo n := by
  intro f e he
  rcases upload_cases d d' f fs with hu | ⟨-, -, -, hu⟩
  · exact h' f e (hu ▸ he)
  · exact h f e (hu ▸ he)

theorem delete (h : d.UpTo n) (fs : FileName → Bool) : (d.delete fs).UpTo n := by
  intro f e he
  by_cases hf : fs f = true
  · rw [delete_of _ _ _ hf] at he
    cases he
  · rw [delete_other _ _ _ (by simpa using hf)] at he
    exact h f e he

theorem write (h : d.UpTo n) {f : FileName} {e : Entry f} (he : Cosmonaut.UpTo n e.author) :
    (d.write f e).UpTo n := by
  intro g e' he'
  by_cases hg : g = f
  · subst hg
    rw [write_self, Option.some.injEq] at he'
    exact he' ▸ he
  · rw [write_other _ _ _ _ hg] at he'
    exact h g e' he'

theorem remove (h : d.UpTo n) (f : FileName) : (d.remove f).UpTo n := by
  intro g e he
  by_cases hg : g = f
  · subst hg
    rw [remove_self] at he
    cases he
  · rw [remove_other _ _ _ hg] at he
    exact h g e he

end Files.UpTo

/-- No file and no log line is marked with a run whose guard was not won yet. -/
structure AuthorsUpTo (w : World) : Prop where
  stored : w.stored.UpTo w.epoch
  disk : ∀ pod, (w.disk pod).UpTo w.epoch
  log : ∀ line ∈ w.log, UpTo w.epoch line.author

theorem authorsUpTo_fresh (row : Row) : AuthorsUpTo (.fresh row) where
  stored _ _ h := by cases h
  disk _ _ _ h := by cases h
  log _ h := by cases h

theorem AuthorsUpTo.setDisk {w : World} (h : AuthorsUpTo w) {pod : ℕ} {d : Files}
    (hd : d.UpTo w.epoch) : AuthorsUpTo (w.setDisk pod d) where
  __ := h
  disk q := by
    by_cases hq : pod = q
    · subst hq
      rw [setDisk_disk_self]
      exact hd
    · rw [setDisk_disk_of_ne hq]
      exact h.disk q

theorem AuthorsUpTo.pulled {w : World} (h : AuthorsUpTo w) (pod : ℕ) (fs : FileName → Bool)
    (time : FileName → ℕ) : AuthorsUpTo (w.pulled pod fs time) :=
  h.setDisk ((h.disk pod).pull h.stored fs time)

theorem AuthorsUpTo.uploaded {w : World} (h : AuthorsUpTo w) (pod : ℕ) (fs : FileName → Bool) :
    AuthorsUpTo (w.uploaded pod fs) where
  __ := h
  stored := (h.disk pod).upload h.stored fs

theorem AuthorsUpTo.deleted {w : World} (h : AuthorsUpTo w) (pod : ℕ)
    (fs fsStored : FileName → Bool) : AuthorsUpTo (w.deleted pod fs fsStored) where
  __ := h.setDisk ((h.disk pod).delete fs)
  stored := h.stored.delete fsStored

theorem AuthorsUpTo.appendLog {w : World} (h : AuthorsUpTo w) {author : Option ℕ} (text : String)
    (ha : UpTo w.epoch author) : AuthorsUpTo { w with log := w.log ++ [⟨author, text⟩] } where
  __ := h
  log line hl := by
    rcases List.mem_append.1 hl with hl | hl
    · exact h.log line hl
    · rw [List.mem_singleton.1 hl]
      exact ha

/-- The part of the world the marks are in. -/
theorem AuthorsUpTo.congr {w w' : World} (h : AuthorsUpTo w) (hs : w'.stored = w.stored)
    (hd : w'.disk = w.disk) (hl : w'.log = w.log) (he : w'.epoch = w.epoch) : AuthorsUpTo w' where
  stored := by rw [hs, he]; exact h.stored
  disk := by rw [hd, he]; exact h.disk
  log := by rw [hl, he]; exact h.log

/-- **A step keeps the marks behind the guards won**, if its own mark is. -/
theorem exec_authorsUpTo {o : Op} {c : Choice} {w : World} (h : AuthorsUpTo w)
    (ho : UpTo w.epoch o.author) :
    AuthorsUpTo (exec o c w).2 ∧ w.epoch ≤ (exec o c w).2.epoch := by
  rcases hf : o.fault c with _ | e
  case some =>
    rw [exec_of_fault hf]
    cases o
    case pullWorkDir pod | pullFile pod f => exact ⟨h.pulled _ _ _, le_rfl⟩
    case uploadWorkDir pod => exact ⟨h.uploaded _ _, le_rfl⟩
    case deleteFiles pod fs => exact ⟨h.deleted _ _ _, le_rfl⟩
    case submitJob =>
      simp only [interrupted]
      split <;> exact ⟨h.congr rfl rfl rfl rfl, le_rfl⟩
    all_goals exact ⟨h, le_rfl⟩
  rw [exec_of_no_fault hf]
  cases o
  case markQueued =>
    simp only [perform]
    split
    · split
      · have hle : w.epoch ≤ w.epoch + 1 := Nat.le_succ _
        exact ⟨⟨h.stored.mono hle, fun pod => (h.disk pod).mono hle,
          fun line hl => (h.log line hl).mono hle⟩, hle⟩
      · exact ⟨h, le_rfl⟩
    · exact ⟨h, le_rfl⟩
  case markCancelled | sweep =>
    simp only [perform]
    split
    · split
      · exact ⟨(h.appendLog _ (upTo_none _)).congr rfl rfl rfl rfl, le_rfl⟩
      · exact ⟨h, le_rfl⟩
    · exact ⟨h, le_rfl⟩
  case deleteJob pod =>
    simp only [perform]
    split
    · split
      · exact ⟨h, le_rfl⟩
      · have hd := h.deleted pod (fun _ => true) fun _ => true
        exact ⟨⟨hd.stored, hd.disk, hd.log⟩, le_rfl⟩
    · exact ⟨h, le_rfl⟩
  case pullWorkDir pod | pullFile pod f => exact ⟨h.pulled _ _ _, le_rfl⟩
  case uploadWorkDir pod => exact ⟨h.uploaded _ _, le_rfl⟩
  case deleteFiles pod fs => exact ⟨h.deleted _ _ _, le_rfl⟩
  case openFile s f | writeFile s f doc => exact ⟨h.setDisk ((h.disk _).write ho), le_rfl⟩
  case pipeline s => exact ⟨h.setDisk ((h.disk _).write ho), le_rfl⟩
  case replaceFile pod s =>
    simp only [perform]
    split
    · rename_i e he
      exact ⟨h.setDisk (((h.disk pod).remove _).write (h.disk pod _ e he)), le_rfl⟩
    · exact ⟨h, le_rfl⟩
  case removeFile pod f =>
    simp only [perform]
    split
    · exact ⟨h.setDisk ((h.disk pod).remove f), le_rfl⟩
    · exact ⟨h, le_rfl⟩
  case appendLog author text => exact ⟨h.appendLog text ho, le_rfl⟩
  case clearLog => exact ⟨⟨h.stored, h.disk, fun _ hl => by cases hl⟩, le_rfl⟩
  case updateColumns | raiseStage =>
    simp only [perform, World.require]
    split <;> exact ⟨h.congr rfl rfl rfl rfl, le_rfl⟩
  case updateInput | setStreetProcessingOfTask | updateMembershipUploadOfTask | markStartFailed |
      markPending | finish =>
    simp only [perform, World.update]
    split <;> (try split) <;> exact ⟨h.congr rfl rfl rfl rfl, le_rfl⟩
  case loadRow | writeRow | markEndNotified | claim | submitJob | receive | sendMail =>
    simp only [perform]
    split <;> (try split) <;> (try split) <;> exact ⟨h.congr rfl rfl rfl rfl, le_rfl⟩
  all_goals exact ⟨h.congr rfl rfl rfl rfl, le_rfl⟩

/-! ## Who writes under which mark -/

/-- The call marks what it writes with the run of a guard that its program has claimed before. -/
def Authored (past : List (Call sig)) (c : Call sig) : Prop :=
  ∀ n, c.op.author = some n → ∃ id, answered .claim (some (id, n)) ∈ past

theorem authored_of_none {past : List (Call sig)} {c : Call sig} (h : c.op.author = none) :
    Authored past c := fun n hn => by rw [h] at hn; cases hn

theorem authored_of_claimed {past : List (Call sig)} {c : Call sig} {id n : ℕ}
    (h : c.op.author = none ∨ c.op.author = some n)
    (hpast : answered .claim (some (id, n)) ∈ past) : Authored past c := by
  intro m hm
  rcases h with h | h
  · rw [h] at hm
    cases hm
  · rw [h, Option.some.injEq] at hm
    exact ⟨id, hm ▸ hpast⟩

/-- A program that never marks what it writes. -/
theorem Asks.authored {α : Type} {p : App α} (h : Asks (fun o => o.author = none) p)
    (past : List (Call sig)) : p.Trail Authored (fun _ _ => True) past :=
  (Always.trail h past).mono (fun _ _ h => authored_of_none h) fun _ _ h => h

variable {here : Site}

/-- A process marks with its run, if it computes one. -/
theorem author_menu {P : Option ℕ → Prop} (hnone : P none) (hrun : P here.run) :
    Menu here fun o => P o.author where
  stays o ho := by
    cases o
    case openFile | writeFile =>
      obtain rfl := of_decide_eq_true ho
      exact hrun
    case pipeline => cases ho
    case appendLog => cases ho
    all_goals exact hnone
  shared o ho := by
    cases o
    case openFile | writeFile | pipeline | appendLog => cases ho
    all_goals exact hnone
  inputs _ _ := hnone
  due := hnone
  task _ := hnone
  raises _ _ := hnone
  log _ := hnone

theorem adopts_author_none {o : Op} (h : o.isAdoption here = true) : o.author = none := by
  cases o
  case openFile | writeFile | pipeline | appendLog => cases h
  all_goals rfl

variable [External]

/-- A job run writes under the run it claims. -/
theorem runJob_authored (past : List (Call sig)) :
    (runJob here computeRoute).Trail Authored (fun _ _ => True) past := by
  intro claimed
  refine ⟨authored_of_none rfl, ?_⟩
  obtain f | _ | ⟨id, n⟩ := claimed
  · trivial
  · trivial
  have hmenu : Menu { here with run := some n } fun o => o.author = none ∨ o.author = some n :=
    author_menu (P := fun a => a = none ∨ a = some n) (.inl rfl) (.inr rfl)
  have hask : ∀ {o : Op}, o.author = none →
      Asks (fun o => o.author = none ∨ o.author = some n) (ask o) := fun h => asks_ask (.inl h)
  have hlog : Asks (fun o => o.author = none ∨ o.author = some n)
      (ask (.appendLog (some n) "The run failed.")) := asks_ask (.inr rfl)
  have hrun : Asks (fun o => o.author = none ∨ o.author = some n) (do
      let status ← tryExcept
        (do
          ask (.pullWorkDir here.pod)
          computeRoute { here with run := some n }
          ask (.uploadWorkDir here.pod)
          return Status.completed)
        fun _ => do
          ask (.appendLog (some n) "The run failed.")
          return Status.failed
      let _ ← ask (.finish id status)
      return some status) := by
    refine .bind (.tryCatch ?_ fun e => ?_) fun _ => .bind (hask rfl) fun _ => trivial
    · exact .bind (hask rfl) fun _ =>
        .bind (hmenu.computeRoute (fun _ h => .inl (adopts_author_none h)) (fun _ => .inr rfl)
          (.inr rfl)) fun _ => .bind (hask rfl) fun _ => trivial
    · exact always_ite (fun _ => trivial) fun _ => .bind hlog fun _ => trivial
  have hclaimed : ∀ (past' : List (Call sig)) (c : Call sig),
      answered .claim (some (id, n)) :: past ⊆ past' →
        (c.op.author = none ∨ c.op.author = some n) → Authored past' c := fun past' c hsub hc =>
    authored_of_claimed hc (hsub List.mem_cons_self)
  exact (hrun.trail_after hclaimed (List.Subset.refl _)).mono (fun _ _ h => h)
    fun _ _ _ => trivial

/-- The routing worker writes under the run it claims. -/
theorem routingWorker_authored (hhere : here.run = none) :
    (routingWorker here).Trail Authored (fun _ _ => True) [] := by
  have hnone : Menu here fun o => o.author = none := author_menu (P := (· = none)) rfl hhere
  refine ((hnone.ask' rfl).authored []).seq fun received past => ?_
  rcases received with _ | m
  · trivial
  refine (runJob_authored past).seq fun ended past => Asks.authored ?_ past
  rcases ended with _ | status
  · trivial
  refine .bind (.tryCatch (.bind hnone.load fun _ => trivial) fun e =>
    always_ite (fun _ => trivial) fun _ => trivial) fun job => ?_
  split
  · trivial
  · exact hnone.notifyUser rfl _ _

/-- **A request writes under the epoch it has claimed.** -/
theorem Request.authored (hhere : here.run = none) (r : Request) :
    (r.program here).Trail Authored (fun _ _ => True) [] := by
  by_cases hr : r.computes = true
  · cases r
    case routingWorker => exact routingWorker_authored hhere
    all_goals cases hr
  · have hmenu : Menu here fun o => o.author = none := author_menu (P := (· = none)) rfl hhere
    have hasks : Asks (fun o => o.author = none) (r.program here) :=
      Request.asks (by simpa using hr) hmenu (fun _ _ h => adopts_author_none h) (fun _ _ _ => rfl)
        (fun _ _ => rfl) (fun _ _ _ => rfl) fun _ _ => rfl
    exact hasks.authored []

omit [External] in
theorem exec_epoch {o : Op} {c : Choice} {w : World} (ho : o ≠ .markQueued) :
    (exec o c w).2.epoch = w.epoch := by
  rcases hf : o.fault c with _ | e
  case some =>
    rw [exec_of_fault hf]
    cases o
    case submitJob =>
      simp only [interrupted]
      split <;> rfl
    all_goals rfl
  rw [exec_of_no_fault hf]
  cases o
  case markQueued => exact absurd rfl ho
  case updateColumns | raiseStage =>
    simp only [perform, World.require]
    split <;> rfl
  case updateInput | setStreetProcessingOfTask | updateMembershipUploadOfTask | markStartFailed |
      markPending | finish =>
    simp only [perform, World.update]
    split <;> (try split) <;> rfl
  case loadRow | writeRow | markEndNotified | markCancelled | sweep | claim | submitJob | receive |
      sendMail | deleteJob | replaceFile | removeFile =>
    simp only [perform]
    split <;> (try split) <;> (try split) <;> rfl
  all_goals rfl

omit [External] in
/-- Only a guard that is won begins a run. -/
theorem epoch_cases {e : Event machine} (he : e.Allowed) :
    e.call ≠ answered .markQueued true ∧ e.after.epoch = e.before.epoch ∨
      e.call = answered .markQueued true ∧ e.after.epoch = e.before.epoch + 1 := by
  obtain ⟨t, ⟨o, a⟩, before, after⟩ := e
  obtain ⟨c, hex⟩ := he
  change exec o c before = (a, after) at hex
  change _ ∧ after.epoch = before.epoch ∨ _ ∧ after.epoch = before.epoch + 1
  by_cases ho : o = .markQueued
  · subst ho
    rcases hf : Op.fault .markQueued c with _ | f
    · rw [exec_of_no_fault hf] at hex
      simp only [perform] at hex
      split at hex
      · split at hex <;> obtain ⟨rfl, rfl⟩ := Prod.mk.inj hex
        · exact .inr ⟨rfl, rfl⟩
        · exact .inl ⟨by simp, rfl⟩
      · obtain ⟨rfl, rfl⟩ := Prod.mk.inj hex
        exact .inl ⟨by simp, rfl⟩
    · rw [exec_of_fault hf] at hex
      obtain ⟨rfl, rfl⟩ := Prod.mk.inj hex
      exact .inl ⟨by simp, rfl⟩
  · have hepoch := exec_epoch (c := c) (w := before) ho
    rw [hex] at hepoch
    exact .inl ⟨fun hc => ho (congrArg Call.op hc), hepoch⟩

omit [External] in
/-- A claim answers how many guards were won. -/
theorem epoch_of_claimed {e : Event machine} {id n : ℕ} (he : e.Allowed)
    (hc : e.call = answered .claim (some (id, n))) : e.before.epoch = n := by
  obtain ⟨c, hafter⟩ := after_of_answered he hc
  simp only [perform] at hafter
  split at hafter
  · split at hafter
    · simp only [Prod.mk.injEq, Except.ok.injEq, Option.some.injEq] at hafter
      exact hafter.1.2
    · simp at hafter
  · simp at hafter

variable {w : World} {requests : List (Site × Request)} {es : List (Event machine)}
  {p' : Pool machine Err Unit}

/-- **No run writes under a guard that is not won yet**, and guards are never lost. -/
theorem run_authorsUpTo (hw : AuthorsUpTo w) (hsites : ∀ s ∈ requests, s.1.run = none)
    (hrun : Run (serving w requests) es p') :
    AuthorsUpTo p'.world ∧ ∀ e ∈ es, AuthorsUpTo e.before ∧ e.before.epoch ≤ p'.world.epoch := by
  induction hrun with
  | nil => exact ⟨hw, fun e he => by cases he⟩
  | @snoc es e q q' t c hrun hst ih =>
    obtain ⟨hq, hle⟩ := ih
    obtain ⟨o, k, hk, rfl, rfl⟩ := Pool.step_cases hst
    obtain ⟨prog, hprog⟩ : ∃ prog, (serving w requests).threads[t]? = some prog :=
      (Run.snoc t c hrun hst).thread_mem (List.mem_append_right _ (List.mem_singleton_self _))
    obtain ⟨here, r, hr, rfl⟩ := serving_threads hprog
    obtain ⟨rest, hrest, htrail⟩ := hrun.residual hprog
      (Request.authored (hsites _ (List.mem_of_getElem? hr)) r)
    obtain rfl := Option.some.inj (hk.symm.trans hrest)
    -- a mark is of a run claimed before, so its guard was won before
    have hauthor : UpTo q.world.epoch o.author := by
      intro n hn
      obtain ⟨id, hclaim⟩ := (htrail (exec o c q.world).1).1 n hn
      obtain ⟨e, he, -, hcall⟩ := mem_callsOf.1 hclaim
      rw [← epoch_of_claimed (hrun.allowed he) hcall]
      exact (hle e he).2
    obtain ⟨hmarks, hmono⟩ := exec_authorsUpTo (c := c) hq hauthor
    refine ⟨hmarks, fun e he => ?_⟩
    rcases List.mem_append.1 he with he | he
    · exact ⟨(hle e he).1, (hle e he).2.trans hmono⟩
    · rw [List.mem_singleton.1 he]
      exact ⟨hq, hmono⟩

end Cosmonaut
