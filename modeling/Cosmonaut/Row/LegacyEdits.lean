import Cosmonaut.Model.Requests

/-!
# The adoption of legacy edits

A job whose row has no intent adopts the one of a legacy file. Whether the row has one is decided on
a loaded copy; the write itself is unconditional.

* `Request.decided`: an adoption writes only after the row was loaded without an intent.
* `adoptions_spare_iff`: when no adoption changes an intent that the row has.
* `intent_overwritten`: a run in which one does.
-/

namespace Cosmonaut

open Interleaving Program

/-- The intent in the row. -/
def World.edits (w : World) : Option StreetEdits := w.row.bind fun r => r.columns.streetEdits

/-- The operation writes the intent of a legacy file to the row. -/
def Op.adoptsEdits : Op → Bool
  | .updateColumns [.streetEdits _] => true
  | _ => false

/-- An adoption comes after a load of the row without an intent. -/
abbrev Decided (past : List (Call sig)) (c : Call sig) : Prop :=
  c.op.adoptsEdits = true → ∃ r, answered .loadRow r ∈ past ∧ r.columns.streetEdits = none

/-! ## Where adoptions come from -/

variable {here : Site} {α : Type} {past : List (Call sig)}

/-- The program adopts nothing. -/
abbrev AdoptsNone (p : App α) : Prop := Asks (fun o => o.adoptsEdits = false) p

theorem adoptsNone_ask {o : Op} (h : o.adoptsEdits = false) : AdoptsNone (ask o) := asks_ask h

theorem adoptsNone_menu (here : Site) : Menu here fun o => o.adoptsEdits = false where
  stays o h := by cases o <;> first | rfl | cases h
  shared o h := by cases o <;> first | rfl | cases h
  inputs _ _ := rfl
  due := rfl
  task _ := rfl
  raises _ _ := rfl
  log _ := rfl

theorem adoptsNone_download : AdoptsDownload fun o => o.adoptsEdits = false := fun _ _ => rfl

theorem AdoptsNone.decided {p : App α} (h : AdoptsNone p) (past : List (Call sig)) :
    p.Trail Decided (fun _ _ => True) past :=
  (Always.trail h past).mono (fun _ _ hc ha => by rw [hc] at ha; cases ha) fun _ _ h => h

/-- What comes after the load of a row adopts only if the row has no intent. -/
theorem decided_of_loaded {p : App α} (r : Row)
    (hp : r.columns.streetEdits ≠ none → AdoptsNone p) :
    p.Trail Decided (fun _ _ => True) (answered .loadRow r :: past) := by
  by_cases hr : r.columns.streetEdits = none
  · refine ((always_of_forall (A := fun _ => True) (fun _ => trivial) p).trail_keeps
      (I := fun past => answered .loadRow r ∈ past) (fun past c hmem _ _ => ⟨r, hmem, hr⟩)
      (fun _ _ _ hmem => List.mem_cons_of_mem _ hmem) List.mem_cons_self).mono (fun _ _ h => h)
      fun _ _ _ => trivial
  · exact (hp hr).decided _

theorem load_decided [External] {f : JobModel → App α}
    (hf : ∀ job, job.streetEdits ≠ none → AdoptsNone (f job)) :
    (CosmonautJob.load >>= f).Trail Decided (fun _ _ => True) past := by
  simp only [CosmonautJob.load, bind_assoc]
  refine trail_ask (fun _ h => by cases h) (fun r => ?_) fun _ => trivial
  exact decided_of_loaded r fun hr => hf (.ofRow r) hr

/-- A page that shows nothing of a job that is gone. -/
theorem loadIfThere_decided [External] {f : Option JobModel → App α}
    (hf : ∀ job, job.streetEdits ≠ none → AdoptsNone (f (some job))) (hnone : AdoptsNone (f none)) :
    (Program.tryCatch (some <$> CosmonautJob.load)
      (fun e => if e = .fault .jobNotFound then return none else raise e) >>= f).Trail Decided
      (fun _ _ => True) past := by
  intro r
  refine ⟨(fun h => by cases h), ?_⟩
  cases r with
  | ok row =>
    change (f (some (.ofRow row))).Trail _ _ _
    exact decided_of_loaded row fun hr => hf (.ofRow row) hr
  | error e =>
    change Trail Decided (fun _ _ => True) _
      ((if Err.fault e = .fault .jobNotFound then pure none else raise (.fault e)) >>= f)
    split
    · exact hnone.decided _
    · trivial

section

variable [External] {job : JobModel}

omit [External] in
theorem adoptLegacyEdits_of_ne (h : job.streetEdits ≠ none) :
    adoptLegacyEdits here job = pure job :=
  if_pos h

omit [External] in
theorem new_of_ne (h : job.streetEdits ≠ none) :
    StreetSelector.new here job = pure ⟨job, job.streetEdits.getD {}⟩ := by
  rw [StreetSelector.new, adoptLegacyEdits_of_ne h]
  rfl

omit [External] in
/-- The state of the road network is looked up without touching the intent. -/
theorem getStreetProcessingStatus_returns (h : job.streetEdits ≠ none) :
    (CosmonautJob.getStreetProcessingStatus job).Returns fun r => r.1.streetEdits ≠ none := by
  unfold CosmonautJob.getStreetProcessingStatus
  split
  case h_4 sp _ =>
    refine .bind (returns_call (R := fun _ => True) fun _ => trivial) fun status _ => ?_
    have hend : ∀ state, (CosmonautJob.endStreetProcessing job sp state).Returns
        fun job => job.streetEdits ≠ none := fun state =>
      .bind (returns_call (R := fun _ => True) fun _ => trivial) fun _ _ => h
    split
    · refine .bind (hend _)
        fun job hjob => .bind (R := fun job : JobModel => job.streetEdits ≠ none)
        ?_ fun _ hjob => hjob
      exact .bind (returns_call (R := fun _ => True) fun _ => trivial) fun _ _ => hjob
    · exact .bind (hend _) fun _ hjob => hjob
    · exact .bind (hend _) fun _ hjob => hjob
    · exact h
    · exact h
  all_goals exact h

theorem openStreetSelection_decided :
    (openStreetSelection here).Trail Decided (fun _ _ => True) past := by
  apply load_decided
  intro job hjob
  have hm := adoptsNone_menu here
  simp only [CosmonautJob.raiseStage, bind_assoc]
  refine .bind (adoptsNone_ask rfl) fun _ => ?_
  rw [pure_eq, ret_bind, adoptLegacyEdits_of_ne (by exact hjob), pure_eq, ret_bind]
  refine .bind (hm.local' (by simp [Op.isLocal])) fun _ =>
    .bind_returns (hm.getStreetProcessingStatus _) (getStreetProcessingStatus_returns hjob) ?_
  rintro ⟨job, status⟩ hjob
  have hshow : AdoptsNone (showStreets here job) := by
    rw [showStreets, new_of_ne hjob, pure_eq, ret_bind]
    exact .bind (hm.editMenu.refresh adoptsNone_download _).always fun r =>
      .bind (hm.editMenu.getRemovedRoadsInfo r.1).always fun _ => trivial
  cases status with
  | running => trivial
  | failed => trivial
  | pending => exact hshow
  | completed => exact hshow

theorem editStreets_decided (e : Edit) :
    (editStreets here e).Trail Decided (fun _ _ => True) past := by
  apply load_decided
  intro job hjob
  have hm := adoptsNone_menu here
  refine always_ite (fun _ => trivial) fun _ => ?_
  rw [new_of_ne hjob, pure_eq, ret_bind]
  refine .bind (hm.apply adoptsNone_download _ _) fun sel => always_ite (fun _ => ?_)
    fun _ => trivial
  exact .bind (hm.editMenu.getRemovedRoadsInfo _).always fun _ => trivial

theorem updateViewportStreets_decided :
    (updateViewportStreets here).Trail Decided (fun _ _ => True) past := by
  refine loadIfThere_decided (fun job hjob => ?_) trivial
  change AdoptsNone (StreetSelector.new here job >>= fun sel => sel.viewportFc here)
  rw [new_of_ne hjob, pure_eq, ret_bind]
  have hm := (adoptsNone_menu here).editMenu
  exact .bind (hm.refresh adoptsNone_download _).always fun _ =>
    always_ite (fun _ => hm.visibleFc.always) fun _ => trivial

theorem computeRoute_decided : (computeRoute here).Trail Decided (fun _ _ => True) past := by
  refine trail_ask (fun _ h => by cases h) (fun _ => ?_) fun _ => trivial
  apply load_decided
  intro job hjob
  have hm := adoptsNone_menu here
  refine .bind (always_ite (fun _ => .bind (hm.ask' rfl) fun _ => trivial) fun _ => trivial)
    fun _ => ?_
  rw [new_of_ne hjob, pure_eq, ret_bind]
  exact .bind (hm.editMenu.ensureProjected adoptsNone_download _).always fun _ =>
    .bind (adoptsNone_ask rfl) fun _ => .bind (adoptsNone_ask rfl) fun _ =>
    .bind (hm.createQrCodeRouting job) fun _ => adoptsNone_ask rfl

theorem routingWorker_decided : (routingWorker here).Trail Decided (fun _ _ => True) past := by
  have hm := adoptsNone_menu here
  refine trail_ask (fun _ h => by cases h) (fun m => ?_) fun _ => trivial
  split
  case h_2 => trivial
  refine Trail.seq ?_ fun ended past => ?_
  · refine trail_ask (fun _ h => by cases h) (fun claimed => ?_) fun _ => trivial
    split
    · trivial
    rename_i runId epoch
    have hm' := adoptsNone_menu { here with run := some epoch }
    have hend : ∀ status past, (do
        let _ ← ask (.finish runId status)
        return some status : App (Option Status)).Trail Decided (fun _ _ => True) past :=
      fun status => AdoptsNone.decided (Always.bind (adoptsNone_ask rfl) fun _ => trivial)
    refine Trail.seq (Trail.handle ?_ fun e past => ?_) fun status past => hend status past
    · refine trail_ask (fun _ h => by cases h) (fun _ => ?_) fun _ => trivial
      apply computeRoute_decided.seq
      intro _ past
      refine AdoptsNone.decided ?_ past
      exact .bind (hm.ask' rfl) fun _ => trivial
    · refine AdoptsNone.decided ?_ past
      exact always_ite (fun _ => trivial) fun _ => .bind (adoptsNone_ask rfl) fun _ => trivial
  · split
    · trivial
    · refine AdoptsNone.decided ?_ past
      have hload : AdoptsNone (Program.tryCatch (some <$> CosmonautJob.load)
          fun e => if e = .fault .jobNotFound then pure none else raise e) := by
        refine .tryCatch (.bind hm.load fun _ => ?_) fun e => always_ite (fun _ => ?_) fun _ => ?_
        all_goals trivial
      apply Always.bind hload
      intro job
      split
      · trivial
      · exact hm.notifyUser rfl _ _

/-- **An adoption writes only after the row was loaded without an intent**, by any request. -/
theorem Request.decided (r : Request) :
    (r.program here).Trail Decided (fun _ _ => True) [] := by
  by_cases hadopts : r.adopts = false ∧ r.computes = false
  · exact AdoptsNone.decided (Request.asks hadopts.2 (adoptsNone_menu here)
      (fun h => by rw [hadopts.1] at h; cases h) (fun _ _ _ => rfl) (fun _ _ => rfl)
      (fun _ _ _ => rfl)
      fun _ _ => rfl) []
  · cases r
    case openStreetSelection => exact openStreetSelection_decided
    case editStreets e => exact editStreets_decided e
    case updateViewportStreets => exact updateViewportStreets_decided
    case routingWorker => exact routingWorker_decided
    all_goals exact absurd ⟨rfl, rfl⟩ hadopts

end

/-! ## Adoptions over an intent -/

/-- The step is the write of an adoption, of this intent. -/
def AdoptsIntent (e : Event machine) (edits : Option StreetEdits) : Prop :=
  e.call = answered (.updateColumns [.streetEdits edits]) ()

/-- No adoption changes the intent of a row that has one. -/
def AdoptionsSpare (es : List (Event machine)) : Prop :=
  ∀ e ∈ es, ∀ edits, AdoptsIntent e edits → e.before.edits ≠ none → e.after.edits = e.before.edits

/-- Adoptions spare intents, whatever requests are served. -/
def AdoptionsAlwaysSpare [External] : Prop :=
  ∀ (w : World) (requests : List (Site × Request)) (es : List (Event machine))
    (p' : Pool machine Err Unit), Run (serving w requests) es p' → AdoptionsSpare es

/-- The last change of the row's intent between two positions, if there is one, leaves none or this
one. -/
def LeavesNone (es : List (Event machine)) (i j : ℕ) (edits : Option StreetEdits) : Prop :=
  ∀ m c, i < m → m < j → es[m]? = some c → c.after.edits ≠ c.before.edits →
    (∀ n d, m < n → n < j → es[n]? = some d → d.after.edits = d.before.edits) →
    c.after.edits = none ∨ c.after.edits = edits

/-- Between the load that an adoption decides on and its write, no other intent comes into the row
to stay. -/
def NoneBetween (es : List (Event machine)) : Prop :=
  ∀ i j l e r edits, i < j → es[i]? = some l → es[j]? = some e → AdoptsIntent e edits →
    l.thread = e.thread → l.call = answered .loadRow r → r.columns.streetEdits = none →
    LeavesNone es i j edits

variable {w : World} {requests : List (Site × Request)} {es : List (Event machine)}
  {p' : Pool machine Err Unit} {e : Event machine} {edits : Option StreetEdits}

/-- What an adoption writes is in the row afterwards. -/
theorem AdoptsIntent.after (h : AdoptsIntent e edits) (hallowed : e.Allowed) :
    e.after.edits = edits := by
  obtain ⟨row, -, hafter⟩ := row_of_updateColumns hallowed h
  rw [World.edits, hafter]
  rfl

/-- **No adoption changes an intent that the row has** exactly if none comes into the row between
the load an adoption decides on and its write. -/
theorem adoptions_spare_iff [External] (hrun : Run (serving w requests) es p') :
    AdoptionsSpare es ↔ NoneBetween es := by
  constructor
  · intro h i j l e r edits hij hl he hadopts hthread hload hnone m c him hmj hc hne hlast
    have hbefore : e.before.edits = c.after.edits :=
      hrun.chain.preserves_between hc he hmj fun n d hmn hnj hd _ => hlast n d hmn hnj hd
    have hmem := List.mem_of_getElem? he
    by_cases hset : c.after.edits = none
    · exact .inl hset
    · right
      rw [← hbefore, ← h e hmem edits hadopts (by rwa [hbefore])]
      exact hadopts.after (hrun.allowed hmem)
  · intro h e hmem edits hadopts hset
    obtain ⟨j, he⟩ := List.mem_iff_getElem?.1 hmem
    obtain ⟨prog, hprog⟩ := hrun.thread_mem hmem
    obtain ⟨here, q, hq, rfl⟩ := serving_threads hprog
    -- the load it decides on
    obtain ⟨r, hload, hnone⟩ := hrun.trail_getElem he hprog q.decided (by rw [hadopts]; rfl)
    obtain ⟨i, l, hij, hi, hthread, hcall⟩ := mem_callsOf_take.1 hload
    have hleaves := h i j l e r edits hij hi he hadopts hthread hcall hnone
    have hloaded : l.after.edits = none := by
      rw [World.edits, (row_of_loaded (hrun.allowed (List.mem_of_getElem? hi)) hcall).2]
      exact hnone
    rcases hrun.chain.last_change_between hi he hij World.edits with
      hbefore | ⟨m, c, him, hmj, hc, hne, hlast, hbefore⟩
    · exact absurd (hbefore.trans hloaded) hset
    · rcases hleaves m c him hmj hc hne hlast with hc' | hc'
      · exact absurd (hbefore.trans hc') hset
      · rw [hadopts.after (hrun.allowed hmem), hbefore, hc']

/-! ## An adoption that comes late -/

/-- An old job without an intent in its row; pod 0 has its legacy file, with every road type
deselected. -/
def worldWithLegacy : World :=
  let _ := External.plain
  (World.fresh (.ofModel .blank)).setDisk 0
    (Files.write (fun _ => none) .streetEdits ⟨.whole ⟨[], [], none, false⟩, 0, none⟩)

/-- The intent of that file. -/
def legacyIntent : StreetEdits where
  selectedRoadTags := []
  selectedTrackGrades := trackGrades ++ [ungradedTrackGrade]

/-- The page is loaded on pod 0, and the roads are edited on pod 1. -/
def loadAndEdit : Pool machine Err Unit :=
  let _ := External.plain
  serving worldWithLegacy
    [(⟨0, 0, none⟩, .openStreetSelection), (⟨1, 0, none⟩, .editStreets .keepLargest)]

/-- The page load adopts before the edit begins. -/
def adoptedFirst : List (Event machine) := (loadAndEdit.play (usually [0, 0, 0, 0, 0, 1, 1, 1])).1

/-- The edit is written after the page load has read the legacy file. -/
def adoptedLate : List (Event machine) := (loadAndEdit.play (usually [0, 0, 0, 0, 1, 1, 1, 0])).1

theorem noneBetween_adoptedFirst : NoneBetween adoptedFirst :=
  let _ := External.plain
  (adoptions_spare_iff (Run.of_play _ loadAndEdit)).1 fun e he edits hadopts hset => by
    have hadopted : ∀ e ∈ adoptedFirst, e.call.op.adoptsEdits = true → e.before.edits = none := by
      decide +kernel
    exact absurd (hadopted e he (by rw [hadopts]; rfl)) hset

/-- **A late adoption overwrites the intent.** -/
theorem intent_overwritten : ¬ @AdoptionsAlwaysSpare External.plain := by
  intro h
  let _ := External.plain
  obtain ⟨e, he, hadopts, hbefore, hafter⟩ : ∃ e ∈ adoptedLate,
      AdoptsIntent e (some legacyIntent) ∧ e.before.edits = some { keepLargest := true } ∧
      e.after.edits ≠ e.before.edits :=
    ⟨_, List.mem_of_getElem? (i := 7) rfl, rfl, by decide +kernel, by decide +kernel⟩
  exact hafter (h _ _ _ _ (Run.of_play _ loadAndEdit) e he _ hadopts (by rw [hbefore]; simp))

end Cosmonaut
