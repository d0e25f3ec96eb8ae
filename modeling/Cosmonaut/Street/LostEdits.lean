import Cosmonaut.Interleaving.Actions
import Cosmonaut.Street.Session

/-!
# Street edits of two requests

Each request loads the row, changes its copy of the intent and writes the whole column.

* `Intents`, `Look`: the intent in the row and in legacy files, and what a request does to them.
* `Story`: what a request that returns has done.
* `editsKept_iff`: when the row holds the result of both edits.
* `Edit.Covers`, `editsKept_of_covers`: which edits are kept although the requests overlap.
* `edit_lost`: a run in which it does not.
-/

namespace Cosmonaut

open Interleaving Program

/-! ## Intents -/

/-- The intent in the row, and the legacy files that have not been adopted. -/
@[ext] structure Intents where
  row : Option StreetEdits
  legacy : ℕ → Option (Bytes LegacyEdits)

def World.intents (w : World) : Intents where
  row := w.row.bind fun r => r.columns.streetEdits
  legacy pod := (w.disk pod).content .streetEdits

namespace Intents

/-- The intent that a request on the pod starts from. -/
def seen (s : Intents) (pod : ℕ) : StreetEdits :=
  s.row.getD (match s.legacy pod with
    | some (.whole edits) => edits.intent
    | _ => {})

/-- The intent in the row after a whole request on the pod. -/
def after (s : Intents) (pod : ℕ) (e : Edit) : Option StreetEdits :=
  if s.row = none ∧ (s.legacy pod).isSome then some (e.next (s.seen pod))
  else (e.applied (s.seen pod)).or s.row

/-- The intent in the row after one whole request and then the other. -/
def serially (s : Intents) (first second : Site × Edit) : Option StreetEdits :=
  after { s with row := s.after first.1.pod first.2 } second.1.pod second.2

end Intents

/-- What a call shows of the intents, or does to them. -/
inductive Look
  | loaded (edits : Option StreetEdits)
  | legacyThere (pod : ℕ) (there : Bool)
  | legacy (pod : ℕ) (edits : Bytes LegacyEdits)
  | adopted (edits : StreetEdits)
  | dropped (pod : ℕ)
  | wrote (edits : StreetEdits)

/-- The intent that is written to the row. -/
def Look.writes : Look → Option StreetEdits
  | .adopted edits | .wrote edits => some edits
  | _ => none

def Look.Step : Look → Intents → Intents → Prop
  | .loaded edits, s, s' => s.row = edits ∧ s' = s
  | .legacyThere pod there, s, s' => (s.legacy pod).isSome = there ∧ s' = s
  | .legacy pod edits, s, s' => s.legacy pod = some edits ∧ s' = s
  | .dropped pod, s, s' => s' = { s with legacy := Function.update s.legacy pod none }
  | .adopted edits, s, s' | .wrote edits, s, s' => s' = { s with row := some edits }

/-- The look of an answered call. -/
def lookAt : Call sig → Option Look
  | ⟨.loadRow, .ok r⟩ => some (.loaded r.columns.streetEdits)
  | ⟨.fileExists pod .streetEdits, .ok there⟩ => some (.legacyThere pod there)
  | ⟨.readFile pod .streetEdits, .ok edits⟩ => some (.legacy pod edits)
  | ⟨.updateColumns [.streetEdits (some edits)], .ok _⟩ => some (.adopted edits)
  | ⟨.deleteFiles pod [.streetEdits], .ok _⟩ => some (.dropped pod)
  | ⟨.updateInput [.streetEdits (some edits)], .ok true⟩ => some (.wrote edits)
  | _ => none

/-- The operation has nothing to do with intents. -/
structure Op.Aside (o : Op) : Prop where
  disk : ∀ pod, o.touches pod .streetEdits = false
  row : o.writesRow = false ∨ ∃ u, o = .updateColumns [.membershipUpload u]
  look : ∀ r, lookAt ⟨o, r⟩ = none

/-- The operations on the intents themselves that a request makes. -/
inductive Op.OfIntent (pod : ℕ) : Op → Prop
  | loadRow : OfIntent pod .loadRow
  | fileExists : OfIntent pod (.fileExists pod .streetEdits)
  | readFile : OfIntent pod (.readFile pod .streetEdits)
  | updateColumns (edits) : OfIntent pod (.updateColumns [.streetEdits (some edits)])
  | deleteFiles : OfIntent pod (.deleteFiles pod [.streetEdits])
  | updateInput (edits) : OfIntent pod (.updateInput [.streetEdits (some edits)])

variable {e : Event machine} {w w' : World} {pod : ℕ}

theorem intents_congr (hrow : w'.row.bind (fun r => r.columns.streetEdits) =
      w.row.bind fun r => r.columns.streetEdits)
    (hdisk : ∀ pod, w'.disk pod .streetEdits = w.disk pod .streetEdits) :
    w'.intents = w.intents := by
  ext1
  · exact hrow
  · funext pod
    exact congrArg (Option.map _) (hdisk pod)

/-- **What has nothing to do with intents leaves them alone.** -/
theorem Op.Aside.exec {o : Op} (h : o.Aside) {c : Choice} : (exec o c w).2.intents = w.intents := by
  refine intents_congr ?_ fun pod => exec_disk_of_not_touches (h.disk pod)
  rcases h.row with hrow | ⟨u, rfl⟩
  · rw [exec_row_of_not_writesRow hrow]
  · rcases hr : w.row with _ | r
    · rcases hr' : (Cosmonaut.exec (.updateColumns [.membershipUpload u]) c w).2.row with _ | r'
      · rfl
      · obtain ⟨columns, hop, -⟩ := exec_row_new hr hr'
        cases hop
    · rcases hr' : (Cosmonaut.exec (.updateColumns [.membershipUpload u]) c w).2.row with _ | r'
      · have hsome := exec_row_isSome (c := c) (w := w) (o := .updateColumns [.membershipUpload u])
          (by simp) (by simp)
        rw [hr, hr'] at hsome
        cases hsome
      · have hstep := exec_columns_cases hr hr'
        change r'.columns.streetEdits = r.columns.streetEdits
        generalize r'.columns = columns at hstep ⊢
        cases hstep with
        | same => rfl
        | updateColumns vs => rfl

/-- A call that has no part in the row and the legacy files leaves the intents alone. -/
theorem intents_of_not_writes {o : Op} {c : Choice} (hrow : o.writesRow = false)
    (hdisk : ∀ pod, o.touches pod .streetEdits = false) : (exec o c w).2.intents = w.intents :=
  intents_congr (by rw [exec_row_of_not_writesRow hrow]) fun _ => exec_disk_of_not_touches (hdisk _)

/-- **What a look shows or does.** -/
theorem Look.step_of_allowed (h : e.Allowed) {a : Look} (ha : lookAt e.call = some a) :
    a.Step e.before.intents e.after.intents := by
  unfold lookAt at ha
  split at ha
  case h_1 r heq =>
    obtain rfl := Option.some.inj ha
    obtain ⟨c, hafter⟩ := after_of_answered h heq
    simp only [perform] at hafter
    split at hafter
    · rename_i hrow
      obtain ⟨hr, hw⟩ := Prod.mk.inj hafter
      obtain rfl := Except.ok.inj hr
      exact ⟨by rw [World.intents, hrow]; rfl, by rw [hw]⟩
    · cases (Prod.mk.inj hafter).1
  case h_2 pod there heq =>
    obtain rfl := Option.some.inj ha
    obtain ⟨c, hafter⟩ := after_of_answered h heq
    obtain ⟨hr, hw⟩ := Prod.mk.inj hafter
    obtain rfl := Except.ok.inj hr
    exact ⟨Option.isSome_map, by rw [hw]⟩
  case h_3 pod edits heq =>
    obtain rfl := Option.some.inj ha
    obtain ⟨c, hafter⟩ := after_of_answered h heq
    simp only [perform, World.file] at hafter
    split at hafter
    · rename_i entry hentry
      obtain ⟨hr, hw⟩ := Prod.mk.inj hafter
      obtain rfl := Except.ok.inj hr
      refine ⟨?_, by rw [hw]⟩
      change (e.before.disk pod .streetEdits).map _ = _
      rw [hentry]
      rfl
    · cases (Prod.mk.inj hafter).1
  case h_4 edits u heq =>
    obtain rfl := Option.some.inj ha
    obtain ⟨c, hafter⟩ := after_of_answered h heq
    obtain ⟨row, -, hw⟩ := require_ok hafter
    rw [hw]
    rfl
  case h_5 pod u heq =>
    obtain rfl := Option.some.inj ha
    obtain ⟨c, hafter⟩ := after_of_answered h heq
    rw [← (Prod.mk.inj hafter).2]
    refine Intents.ext rfl (funext fun q => ?_)
    change (((e.before.setDisk pod _).disk q) .streetEdits).map _ =
      Function.update e.before.intents.legacy pod none q
    by_cases hq : pod = q
    · subst hq
      rw [Function.update_self, setDisk_disk_self, Files.delete_of _ _ _ (by simp)]
      rfl
    · rw [Function.update_of_ne (Ne.symm hq), setDisk_disk_of_ne hq]
      rfl
  case h_6 edits heq =>
    obtain rfl := Option.some.inj ha
    obtain ⟨c, hafter⟩ := after_of_answered h heq
    obtain ⟨row, -, -, hw⟩ := update_true hafter
    rw [hw]
    rfl
  case h_7 => cases ha

theorem intents_of_exec {c : Choice} (hexec : exec e.call.op c e.before = (e.call.ans, e.after))
    (h : (exec e.call.op c e.before).2.intents = e.before.intents) :
    e.after.intents = e.before.intents := by
  rw [hexec] at h
  exact h

/-- A refused or failed write of the row leaves the intents alone. -/
theorem intents_of_row_eq (hallowed : e.Allowed) (hrow : e.after.row = e.before.row)
    (hdisk : ∀ pod, e.call.op.touches pod .streetEdits = false) :
    e.after.intents = e.before.intents := by
  exact intents_congr (by rw [hrow]) fun pod => disk_of_not_touches hallowed (hdisk pod)

/-- **A request's other calls leave the intents alone**, unless a deletion fails half-way. -/
theorem intents_of_idle (h : e.Allowed) (ho : e.call.op.Aside ∨ e.call.op.OfIntent pod)
    (hlook : lookAt e.call = none)
    (hdelete : ∀ f, e.call ≠ ⟨.deleteFiles pod [.streetEdits], .error f⟩) :
    e.after.intents = e.before.intents := by
  rcases ho with ho | ho
  · obtain ⟨c, hexec⟩ := h
    exact intents_of_exec hexec ho.exec
  have hallowed := h
  obtain ⟨t, ⟨o, ans⟩, before, after⟩ := e
  simp only at ho hlook hdelete
  cases ho with
  | loadRow | fileExists | readFile =>
    obtain ⟨c, hexec⟩ := h
    exact intents_of_exec hexec (intents_of_not_writes rfl fun _ => rfl)
  | updateColumns edits =>
    rcases ans with f | u
    · exact intents_of_row_eq hallowed (row_of_error hallowed rfl) fun _ => rfl
    · cases hlook
  | deleteFiles =>
    rcases ans with f | u
    · exact absurd rfl (hdelete f)
    · cases hlook
  | updateInput edits =>
    rcases ans with f | won
    · exact intents_of_row_eq hallowed (row_of_error hallowed rfl) fun _ => rfl
    · rcases won with _ | _
      · have hsame := after_of_updateInput_false hallowed rfl
        exact congrArg World.intents hsame
      · cases hlook

/-! ## What a request does -/

/-- What a request on the pod does before it has an intent to work on. -/
inductive Loads (pod : ℕ) : List Look → StreetEdits → Prop
  | named (edits) : Loads pod [.loaded (some edits)] edits
  | none : Loads pod [.loaded none, .legacyThere pod false] {}
  | legacy (edits) : Loads pod [.loaded none, .legacyThere pod true, .legacy pod (.whole edits),
      .adopted edits.intent, .dropped pod] edits.intent

/-- What a request that returns does: it gets an intent to work on, and writes what the edit makes
of it, if that is something else. -/
def Story (pod : ℕ) (e : Edit) (l : List Look) : Prop :=
  ∃ l₁ edits, Loads pod l₁ edits ∧ l = l₁ ++ (e.applied edits).toList.map .wrote

/-- The calls so far have told this much, and no deletion of a legacy file has failed. -/
structure Told (pod : ℕ) (l : List Look) (past : List (Call sig)) : Prop where
  looks : past.reverse.filterMap lookAt = l
  deleted : ∀ f, ⟨.deleteFiles pod [.streetEdits], .error f⟩ ∉ past

theorem told_nil : Told pod [] [] := ⟨rfl, fun _ h => by cases h⟩

theorem Told.look {l : List Look} {past : List (Call sig)} {o : Op} {ans : o.Ans} {a : Look}
    (h : Told pod l past) (ha : lookAt (answered o ans) = some a) :
    Told pod (l ++ [a]) (answered o ans :: past) := by
  refine ⟨?_, fun f hf => ?_⟩
  · rw [List.reverse_cons, List.filterMap_append, h.looks, List.filterMap_cons, ha]
    rfl
  · rcases List.mem_cons.1 hf with hc | hf
    · obtain ⟨rfl, hans⟩ := Call.mk.inj hc
      cases hans
    · exact h.deleted f hf

theorem Told.aside {l : List Look} {past : List (Call sig)} {c : Call sig} (h : Told pod l past)
    (hc : c.op.Aside) : Told pod l (c :: past) := by
  obtain ⟨o, r⟩ := c
  refine ⟨?_, fun f hf => ?_⟩
  · rw [List.reverse_cons, List.filterMap_append, h.looks, List.filterMap_cons, hc.look r]
    exact List.append_nil _
  · rcases List.mem_cons.1 hf with hc' | hf
    · obtain ⟨rfl, -⟩ := Call.mk.inj hc'
      have htouches := hc.disk pod
      simp [Op.touches] at htouches
    · exact h.deleted f hf

theorem aside_of {o : Op} (hdisk : ∀ pod, o.touches pod .streetEdits = false)
    (hrow : o.writesRow = false) (hlook : ∀ r, lookAt ⟨o, r⟩ = none) : o.Aside :=
  ⟨hdisk, .inl hrow, hlook⟩

theorem ne_streetEdits {f : FileName} (h : f.ofSelector = true) : f ≠ .streetEdits := by
  rintro rfl
  cases h

theorem editMenu_aside {here : Site} : EditMenu here Op.Aside where
  pull := aside_of (by simp [Op.touches]) rfl fun _ => rfl
  fileExists f hf := aside_of (fun _ => rfl) rfl fun r => by cases f <;> first | rfl | cases hf
  mtime s := aside_of (fun _ => rfl) rfl fun _ => rfl
  readFile f hf := aside_of (fun _ => rfl) rfl fun r => by cases f <;> first | rfl | cases hf
  cachedChecksum s := aside_of (fun _ => rfl) rfl fun _ => rfl
  cacheChecksum s _ _ := aside_of (fun _ => rfl) rfl fun _ => rfl
  openFile f hf := aside_of (by simp [Op.touches, ne_streetEdits hf]) rfl fun _ => rfl
  writeFile f doc hf := aside_of (by simp [Op.touches, ne_streetEdits hf]) rfl fun _ => rfl
  replaceFile s := aside_of (by simp [Op.touches]) rfl fun _ => rfl
  removeFile s := aside_of (by simp [Op.touches]) rfl fun _ => rfl
  cachedFeatures s := aside_of (fun _ => rfl) rfl fun _ => rfl
  cacheFeatures s _ _ := aside_of (fun _ => rfl) rfl fun _ => rfl
  newFeatures _ := aside_of (fun _ => rfl) rfl fun _ => rfl
  getFeatures _ := aside_of (fun _ => rfl) rfl fun _ => rfl
  addTooltips _ := aside_of (fun _ => rfl) rfl fun _ => rfl

theorem adoptsDownload_aside : AdoptsDownload Op.Aside :=
  fun u _ => ⟨fun _ => rfl, .inr ⟨u, rfl⟩, fun _ => rfl⟩

/-- What the calls of a request on the pod are. -/
abbrev IntentCall (pod : ℕ) (_ : List (Call sig)) (c : Call sig) : Prop :=
  c.op.Aside ∨ c.op.OfIntent pod

/-- Nothing is said of a request that raises. -/
theorem of_error {α : Type} {e : Err} {R : α → Prop} :
    ∀ a, (Except.error e : Except Err α) = .ok a → R a :=
  fun _ h => by cases h

/-- A request that returns has told its story. -/
abbrev Tells (pod : ℕ) (e : Edit) {α : Type} (past : List (Call sig)) (r : Except Err α) : Prop :=
  ∀ a, r = .ok a → ∃ l, Story pod e l ∧ Told pod l past

variable {here : Site} {α β : Type} {l : List Look} {past : List (Call sig)} {edit : Edit}

/-- What follows calls that have nothing to do with intents. -/
theorem trail_aside {p : App β} {f : β → App α} (hp : Calls Op.Aside p) (h : Told pod l past)
    (hf : ∀ b past, Told pod l past → (f b).Trail (IntentCall pod) (Tells pod edit) past) :
    (p >>= f).Trail (IntentCall pod) (Tells pod edit) past := by
  refine (trail_bind p f).2 ((hp.always.trail_keeps (I := Told pod l) (fun _ _ _ hc => .inl hc)
    (fun _ _ hc h => h.aside hc) h).mono (fun _ _ h => h) fun past r htold => ?_)
  cases r with
  | ok b => exact hf b past htold
  | error e => exact of_error

/-- From the load to an intent to work on. -/
theorem adoptLegacyEdits_trail (job : JobModel) (h : Told here.pod [.loaded job.streetEdits] past) :
    (adoptLegacyEdits here job).Trail (IntentCall here.pod)
      (fun past r => ∀ job', r = .ok job' →
        ∃ l, Loads here.pod l (job'.streetEdits.getD {}) ∧ Told here.pod l past) past := by
  unfold adoptLegacyEdits
  rcases hedits : job.streetEdits with _ | edits
  · rw [hedits] at h
    rw [if_neg (not_not.2 rfl)]
    refine trail_ask (fun _ => .inr .fileExists) (fun there => ?_) fun _ => of_error
    cases there with
    | false =>
      rintro _ ⟨⟩
      rw [hedits]
      exact ⟨_, .none, h.look rfl⟩
    | true =>
      simp only [if_true, loadFile, bind_assoc]
      refine trail_ask (fun _ => .inr .readFile) (fun b => ?_) fun _ => of_error
      have hthere : Told here.pod [.loaded none, .legacyThere here.pod true]
          (answered (.fileExists here.pod .streetEdits) true :: past) := h.look rfl
      have hread : Told here.pod [.loaded none, .legacyThere here.pod true, .legacy here.pod b]
          (answered (.readFile here.pod .streetEdits) b :: _) := hthere.look rfl
      cases b with
      | torn => exact of_error
      | whole edits =>
        refine trail_ask (fun _ => .inr (.updateColumns edits.intent)) (fun u => ?_)
          fun _ => of_error
        refine trail_ask (fun _ => .inr .deleteFiles) (fun u' => ?_) fun _ => of_error
        rintro _ ⟨⟩
        exact ⟨_, .legacy edits, (hread.look rfl).look rfl⟩
  · rw [if_pos (by simp)]
    rintro _ ⟨⟩
    rw [hedits] at h ⊢
    exact ⟨_, .named edits, h⟩

section

variable [External]

/-- From an intent to work on to the end of the request. -/
theorem apply_trail (sel : StreetSelector) (hl : Loads here.pod l sel.edits)
    (h : Told here.pod l past) {f : StreetSelector → App α}
    (hf : ∀ sel, Calls Op.Aside (f sel)) :
    (edit.apply here sel >>= f).Trail (IntentCall here.pod) (Tells here.pod edit) past := by
  have hend : ∀ (l : List Look) (sel : StreetSelector) (past : List (Call sig)),
      Story here.pod edit l → Told here.pod l past →
        (f sel).Trail (IntentCall here.pod) (Tells here.pod edit) past := by
    intro l sel past hstory htold
    exact ((hf sel).always.trail_keeps (I := Told here.pod l) (fun _ _ _ hc => .inl hc)
      (fun _ _ hc h => h.aside hc) htold).mono (fun _ _ h => h) fun past r h a _ => ⟨l, hstory, h⟩
  rw [apply_eq]
  rcases happlied : edit.applied sel.edits with _ | edits
  · refine hend l sel past ⟨l, sel.edits, hl, ?_⟩ h
    rw [happlied]
    exact (List.append_nil l).symm
  · have hstory : Story here.pod edit (l ++ [.wrote edits]) := by
      refine ⟨l, sel.edits, hl, ?_⟩
      rw [happlied]
      rfl
    simp only [StreetSelector.edit, StreetSelector.applyEdits, CosmonautJob.updateInput, bind_assoc]
    refine trail_ask (fun _ => .inr (.updateInput edits)) (fun won => ?_) fun _ => of_error
    cases won with
    | false => exact of_error
    | true =>
      have htold : Told here.pod (l ++ [.wrote edits])
          (answered (.updateInput [.streetEdits (some edits)]) true :: past) := h.look rfl
      simp only [if_true, bind_assoc]
      refine trail_aside (editMenu_aside.pullDownloadIfOther adoptsDownload_aside _) htold
        fun r past htold => ?_
      apply trail_aside (editMenu_aside.deriveFiles _ _ _) htold
      intro _ past htold
      exact hend _ _ past hstory htold

/-- **What a street-edit request does.** -/
theorem editStreets_trail (here : Site) (edit : Edit) :
    (editStreets here edit).Trail (IntentCall here.pod) (Tells here.pod edit) [] := by
  have hinfo : ∀ sel : StreetSelector, Calls Op.Aside (do
      if edit.showsRemovedRoads then
        let _ ← sel.getRemovedRoadsInfo here) := fun sel =>
    calls_ite (fun _ => .bind (editMenu_aside.getRemovedRoadsInfo _) fun _ => calls_ret _)
      fun _ => calls_ret _
  simp only [editStreets, CosmonautJob.load, StreetSelector.new, bind_assoc]
  refine trail_ask (fun _ => .inr .loadRow) (fun r => ?_) fun _ => of_error
  have hloaded : Told here.pod [.loaded r.columns.streetEdits] [answered .loadRow r] :=
    told_nil.look rfl
  simp only [pure_eq, ret_bind]
  split
  · exact of_error
  · have hadopt : (adoptLegacyEdits here _).Trail _ _ _ := adoptLegacyEdits_trail (.ofRow r) hloaded
    refine (trail_bind _ _).2 (hadopt.mono (fun _ _ h => h) fun past ans h => ?_)
    cases ans with
    | error e => exact of_error
    | ok job =>
      obtain ⟨l, hl, htold⟩ := h job rfl
      exact apply_trail ⟨job, job.streetEdits.getD {}⟩ hl htold hinfo

end

/-! ## What a story leads to -/

variable {s s' m : Intents} {l₁ : List Look} {edits : StreetEdits}

theorem row_of_no_writes (h : Follows Look.Step s l s') (hl : ∀ a ∈ l, a.writes = none) :
    s'.row = s.row := by
  apply h.preserves
  intro a ha s s' hstep
  have hnone := hl a ha
  cases a with
  | loaded | legacyThere | legacy => rw [hstep.2]
  | dropped => rw [show s' = _ from hstep]
  | adopted | wrote => cases hnone

/-- The row holds what was written last. -/
theorem row_of_last_write {r : List Look} {a : Look} (h : Follows Look.Step s (l ++ a :: r) s')
    (ha : a.writes = some edits) (hr : ∀ b ∈ r, b.writes = none) : s'.row = some edits := by
  obtain ⟨m, -, m', hstep, hrest⟩ := follows_append.1 h
  rw [row_of_no_writes hrest hr]
  cases a with
  | loaded | legacyThere | legacy | dropped => cases ha
  | adopted | wrote =>
    obtain rfl := Option.some.inj ha
    rw [show m' = _ from hstep]

/-- **What a whole request leaves in the row.** -/
theorem Story.after (hstory : Story pod edit l) (h : Follows Look.Step s l s') :
    s'.row = s.after pod edit ∧ (s'.row = none → s'.legacy = s.legacy) := by
  obtain ⟨l₁, edits, hloads, rfl⟩ := hstory
  obtain ⟨m, hload, hwrite⟩ := follows_append.1 h
  have hseen : s.seen pod = edits ∧ (s.row = none ∧ (s.legacy pod).isSome → m.row = some edits) ∧
      (¬(s.row = none ∧ (s.legacy pod).isSome) → m = s) := by
    cases hloads with
    | named edits =>
      obtain ⟨m', ⟨hrow, rfl⟩, rfl⟩ := hload
      exact ⟨by simp [Intents.seen, hrow], fun hnone => by simp [hrow] at hnone, fun _ => rfl⟩
    | none =>
      obtain ⟨m', ⟨hrow, rfl⟩, m'', ⟨hthere, rfl⟩, rfl⟩ := hload
      rw [Option.isSome_eq_false_iff, Option.isNone_iff_eq_none] at hthere
      exact ⟨by simp [Intents.seen, hrow, hthere], fun h => by simp [hthere] at h, fun _ => rfl⟩
    | legacy edits =>
      obtain ⟨_, ⟨hrow, rfl⟩, _, ⟨hthere, rfl⟩, _, ⟨hlegacy, rfl⟩, _, rfl, _, rfl, rfl⟩ := hload
      exact ⟨by simp [Intents.seen, hrow, hlegacy], fun _ => rfl,
        fun hno => absurd ⟨hrow, hthere⟩ hno⟩
  obtain ⟨hseen, hadopted, hsame⟩ := hseen
  unfold Intents.after
  rw [hseen]
  rcases happlied : edit.applied edits with _ | next
  · rw [happlied] at hwrite
    obtain rfl : m = s' := hwrite
    have hnext : edit.next edits = edits := by rw [Edit.next, happlied, Option.getD_none]
    split
    · rename_i hcond
      rw [hadopted hcond, hnext]
      exact ⟨rfl, fun hno => by cases hno⟩
    · rename_i hcond
      rw [hsame hcond]
      exact ⟨rfl, fun _ => rfl⟩
  · rw [happlied] at hwrite
    obtain ⟨m', rfl, rfl⟩ := hwrite
    have hnext : edit.next edits = next := by rw [Edit.next, happlied, Option.getD_some]
    split
    · rw [hnext]
      exact ⟨rfl, fun hno => by cases hno⟩
    · exact ⟨rfl, fun hno => by cases hno⟩

/-- The intents after a whole request matter only as far as the row has none. -/
theorem Intents.after_congr (hrow : s.row = m.row) (hlegacy : m.row = none → s.legacy = m.legacy)
    (pod : ℕ) (edit : Edit) : s.after pod edit = m.after pod edit := by
  obtain ⟨srow, slegacy⟩ := s
  obtain ⟨mrow, mlegacy⟩ := m
  obtain rfl : srow = mrow := hrow
  cases srow with
  | none =>
    obtain rfl : slegacy = mlegacy := hlegacy rfl
    rfl
  | some edits => simp [Intents.after, Intents.seen]

theorem Loads.unique_of_prefix {l₂ : List Look} {edits' : StreetEdits} (h : Loads pod l₁ edits)
    (h' : Loads pod l₂ edits') (hpre : l₁ <+: l₂) : edits = edits' := by
  cases h with
  | named edits =>
    cases h' with
    | named => simpa using hpre
    | none | legacy => simp [List.cons_prefix_cons] at hpre
  | none =>
    cases h' with
    | none => rfl
    | named | legacy => simp [List.cons_prefix_cons] at hpre
  | legacy edits =>
    cases h' with
    | legacy =>
      simp only [List.cons_prefix_cons] at hpre
      exact Look.adopted.inj hpre.2.2.2.1
    | named | none => simp [List.cons_prefix_cons] at hpre

/-- A request works on one intent. -/
theorem Loads.unique {l₂ : List Look} {edits' : StreetEdits} (h : Loads pod l₁ edits)
    (h' : Loads pod l₂ edits') (hpre : l₁ <+: l) (hpre' : l₂ <+: l) : edits = edits' := by
  rcases List.prefix_or_prefix_of_prefix hpre hpre' with h₁ | h₂
  · exact h.unique_of_prefix h' h₁
  · exact (h'.unique_of_prefix h h₂).symm

theorem Loads.writes (h : Loads pod l edits) {a : Look} (ha : a ∈ l) {written : StreetEdits}
    (hw : a.writes = some written) : written = edits := by
  cases h with
  | named edits =>
    obtain rfl := List.mem_singleton.1 ha
    cases hw
  | none =>
    simp only [List.mem_cons, List.not_mem_nil, or_false] at ha
    rcases ha with rfl | rfl <;> cases hw
  | legacy edits =>
    simp only [List.mem_cons, List.not_mem_nil, or_false] at ha
    rcases ha with rfl | rfl | rfl | rfl | rfl <;> cases hw
    rfl

/-- What is written last is what the edit makes of the intent the request worked on. -/
theorem Story.last_write {r : List Look} {a : Look} {written : StreetEdits}
    (hstory : Story pod edit (l ++ a :: r)) (ha : a.writes = some written)
    (hr : ∀ b ∈ r, b.writes = none) (hloads : Loads pod l₁ edits) (hpre : l₁ <+: l ++ a :: r) :
    written = edit.next edits := by
  obtain ⟨l₂, edits', hloads', heq⟩ := hstory
  obtain rfl := hloads.unique hloads' hpre ⟨_, heq.symm⟩
  rcases happlied : edit.applied edits with _ | next
  · rw [happlied, Option.toList_none, List.map_nil, List.append_nil] at heq
    rw [Edit.next, happlied, Option.getD_none]
    exact hloads'.writes (heq ▸ by simp) ha
  · rw [happlied, Option.toList_some, List.map_singleton] at heq
    rw [Edit.next, happlied, Option.getD_some]
    -- nothing is written after the edit's own write
    rcases List.eq_nil_or_concat' r with rfl | ⟨r, b, rfl⟩
    · obtain ⟨-, hlast⟩ := List.append_inj' heq rfl
      obtain rfl := List.singleton_inj.1 hlast
      exact (Option.some.inj ha).symm
    · rw [← List.cons_append, ← List.append_assoc] at heq
      obtain ⟨-, hlast⟩ := List.append_inj' heq rfl
      obtain rfl := List.singleton_inj.1 hlast
      have hnone := hr (.wrote next) (by simp)
      cases hnone

/-- The look changes nothing. -/
def Look.Reads : Look → Prop
  | .loaded _ | .legacyThere .. | .legacy .. => True
  | _ => False

theorem Look.Reads.step {a : Look} (ha : a.Reads) (h : a.Step s s') : s' = s := by
  cases a with
  | loaded | legacyThere | legacy => exact h.2
  | adopted | dropped | wrote => cases ha

/-- A request that writes nothing only reads. -/
theorem Story.reads (hstory : Story pod edit l) (hl : ∀ a ∈ l, a.writes = none) {a : Look}
    (ha : a ∈ l) : a.Reads := by
  obtain ⟨l₁, edits, hloads, rfl⟩ := hstory
  rcases happlied : edit.applied edits with _ | next
  · rw [happlied, Option.toList_none, List.map_nil, List.append_nil] at ha hl
    cases hloads with
    | named edits =>
      obtain rfl := List.mem_singleton.1 ha
      trivial
    | none =>
      simp only [List.mem_cons, List.not_mem_nil, or_false] at ha
      rcases ha with rfl | rfl <;> trivial
    | legacy edits =>
      have hnone := hl (.adopted edits.intent) (by simp)
      cases hnone
  · have hnone := hl (.wrote next) (by simp [happlied])
    cases hnone

/-- Where nothing is changed, everything is read in the state it started in. -/
theorem follows_of_reads {l' : List Look} (h : Follows Look.Step s l s') (hl : ∀ a ∈ l, a.Reads)
    (hsub : ∀ a ∈ l', a ∈ l) : Follows Look.Step s l' s := by
  have hstep : ∀ a ∈ l, a.Step s s := by
    induction l generalizing l' with
    | nil => exact fun a ha => by cases ha
    | cons b l ih =>
      obtain ⟨m, hb, hrest⟩ := h
      obtain rfl := (hl b (by simp)).step hb
      intro a ha
      rcases List.mem_cons.1 ha with rfl | ha
      · exact hb
      · have hnil : ∀ a ∈ ([] : List Look), a ∈ l := nofun
        exact ih hrest (fun a ha => hl a (by simp [ha])) hnil a ha
  induction l' with
  | nil => rfl
  | cons a l' ih => exact ⟨s, hstep a (hsub a (by simp)), ih fun b hb => hsub b (by simp [hb])⟩

/-- One whole request after the other. -/
theorem keeps_in_turn {j k : Site × Edit} {l l' : List Look} (hj : Story j.1.pod j.2 l)
    (hk : Story k.1.pod k.2 l') (h : Follows Look.Step s (l ++ l') s') :
    s'.row = s.serially j k := by
  obtain ⟨m, hl, hl'⟩ := follows_append.1 h
  obtain ⟨hrow, hlegacy⟩ := hj.after hl
  rw [(hk.after hl').1, Intents.serially]
  refine Intents.after_congr hrow (fun hnone => ?_) _ _
  exact hlegacy (hrow.trans hnone)

/-! ## Edits that absorb others -/

/-- The edit `e` of an intent makes a result of both anyway, after `e'` or before it. -/
def Edit.Absorbs (e e' : Edit) (edits : StreetEdits) : Prop :=
  e.next edits = e.next (e'.next edits) ∨ e.next edits = e'.next (e.next edits)

/-- The pairs of edits of which the first absorbs the second: it overwrites what the second sets, or
leaves it nothing to do. -/
inductive Edit.Covers : Edit → Edit → Prop
  | same (e : Edit) : Covers e e
  | reset (e : Edit) : Covers .reset e
  | keepLargest (e : Edit) : Covers e .keepLargest
  | updateTags (tags tags' : List String) : Covers (.updateTags tags) (.updateTags tags')
  | updateTrackGrades (grades grades' : List String) :
    Covers (.updateTrackGrades grades) (.updateTrackGrades grades')
  | clearRemoval (ids : List ℤ) : Covers .clearRemovedRoads (.removeRoads ids)
  | clearRestoral (id : ℤ) : Covers .clearRemovedRoads (.restoreRoad id)
  | removeRoads {ids ids' : List ℤ} : ids' ⊆ ids → Covers (.removeRoads ids) (.removeRoads ids')

/-- Roads that are removed already are not removed again. -/
theorem newRemovals_eq_nil {removed ids : List ℤ} (h : ∀ id ∈ ids, id ∈ removed) :
    StreetSelector.newRemovals removed ids = [] := by
  rw [List.eq_nil_iff_forall_not_mem]
  intro id hid
  obtain ⟨hmem, hnot⟩ := ((newRemovals_spec removed ids).2 id).1 hid
  exact hnot (h id hmem)

theorem next_removeRoads_subset {ids ids' : List ℤ} (h : ids' ⊆ ids) (edits : StreetEdits) :
    (Edit.removeRoads ids').next ((Edit.removeRoads ids).next edits) =
      (Edit.removeRoads ids).next edits := by
  have hall : ∀ id ∈ ids', id ∈ ((Edit.removeRoads ids).next edits).removedRoads := by
    intro id hid
    by_cases hold : id ∈ edits.removedRoads
    · simp only [Edit.next, Edit.applied]
      split <;> simp [hold]
    · have hnew := ((newRemovals_spec edits.removedRoads ids).2 id).2 ⟨h hid, hold⟩
      simp only [Edit.next, Edit.applied]
      split
      · rename_i hnil
        rw [hnil] at hnew
        cases hnew
      · simp [hnew]
  rw [Edit.next, Edit.applied]
  simp only [newRemovals_eq_nil hall, if_true, Option.getD_none]

/-- **Which pairs of edits absorb**, if the first changes the intent at all. -/
theorem Edit.Covers.absorbs {e e' : Edit} (h : e.Covers e') {edits : StreetEdits}
    (hnodup : edits.removedRoads.Nodup) (happlied : e.applied edits ≠ none) :
    e.Absorbs e' edits := by
  cases h with
  | same =>
    right
    cases e with
    | removeRoads ids => exact (next_removeRoads_subset (List.Subset.refl ids) edits).symm
    | restoreRoad id =>
      have hgone : id ∉ edits.removedRoads.erase id := hnodup.not_mem_erase
      by_cases hid : id ∈ edits.removedRoads <;> simp [Edit.next, Edit.applied, hid, hgone]
    | clearRemovedRoads | updateTags | updateTrackGrades =>
      simp only [Edit.next, Edit.applied]
      split <;> simp_all
    | keepLargest | reset => rfl
  | reset => exact .inl rfl
  | keepLargest =>
    left
    cases e <;> simp_all [Edit.next, Edit.applied]
  | updateTags tags tags' =>
    left
    have htags : tags ≠ edits.selectedRoadTags := by simpa [Edit.applied] using happlied
    by_cases hsame : tags' = edits.selectedRoadTags <;> by_cases heq : tags = tags' <;>
      simp_all [Edit.next, Edit.applied]
  | updateTrackGrades grades grades' =>
    left
    have hgrades : grades ≠ edits.selectedTrackGrades := by simpa [Edit.applied] using happlied
    by_cases hsame : grades' = edits.selectedTrackGrades <;> by_cases heq : grades = grades' <;>
      simp_all [Edit.next, Edit.applied]
  | clearRemoval ids =>
    left
    have hremoved : edits.removedRoads ≠ [] := by simpa [Edit.applied] using happlied
    by_cases hnew : StreetSelector.newRemovals edits.removedRoads ids = [] <;>
      simp [Edit.next, Edit.applied, hremoved, hnew]
  | clearRestoral id =>
    left
    have hremoved : edits.removedRoads ≠ [] := by simpa [Edit.applied] using happlied
    by_cases hid : id ∈ edits.removedRoads <;>
      by_cases hlast : edits.removedRoads.erase id = [] <;>
      simp [Edit.next, Edit.applied, hremoved, hid, hlast]
  | removeRoads hsub => exact .inr (next_removeRoads_subset hsub edits).symm

theorem Intents.after_of_row {s : Intents} {edits : StreetEdits} (h : s.row = some edits) (pod : ℕ)
    (e : Edit) : s.after pod e = some (e.next edits) := by
  have hseen : s.seen pod = edits := by rw [Intents.seen, h, Option.getD_some]
  rw [Intents.after, hseen, h, if_neg (by simp), Edit.next]
  cases e.applied edits <;> rfl

theorem Intents.serially_of_row {s : Intents} {edits : StreetEdits} (h : s.row = some edits)
    (j k : Site × Edit) : s.serially j k = some (k.2.next (j.2.next edits)) :=
  Intents.after_of_row (Intents.after_of_row h _ _) _ _

/-- A request that has loaded an intent and written one has changed it. -/
theorem Story.applied_ne_none {pod : ℕ} {e : Edit} {l : List Look} {edits : StreetEdits}
    (h : Story pod e l) (hload : [.loaded (some edits)] <+: l) {a : Look} (ha : a ∈ l)
    (hw : a.writes ≠ none) : e.applied edits ≠ none := by
  obtain ⟨l₁, edits', hloads, rfl⟩ := h
  obtain rfl := (Loads.named edits).unique hloads hload (List.prefix_append _ _)
  intro hnone
  rw [hnone, Option.toList_none, List.map_nil, List.append_nil] at ha hload
  cases hloads with
  | named =>
    obtain rfl := List.mem_singleton.1 ha
    exact hw rfl
  | none | legacy => simp [List.cons_prefix_cons] at hload

/-! ## Runs of two requests -/

variable [External]

/-- Two requests, each a thread of its own. -/
def concurrentEdits (w : World) (r₁ r₂ : Site × Edit) : Pool machine Err Unit :=
  serving w [(r₁.1, .editStreets r₁.2), (r₂.1, .editStreets r₂.2)]

/-- The run serves both requests, and both return. -/
structure BothReturn (w : World) (r₁ r₂ : Site × Edit) (es : List (Event machine))
    (p' : Pool machine Err Unit) : Prop where
  run : Run (concurrentEdits w r₁ r₂) es p'
  first : p'.threads[0]? = some (.ret ())
  second : p'.threads[1]? = some (.ret ())

/-- The row holds the result of both edits, one after the other. -/
def EditsKept (w : World) (r₁ r₂ : Site × Edit) (w' : World) : Prop :=
  w'.intents.row = w.intents.serially r₁ r₂ ∨ w'.intents.row = w.intents.serially r₂ r₁

/-- Thread `t` is the last to write the intent. -/
def LastWriter (es : List (Event machine)) (t : ℕ) : Prop :=
  ∃ l e r, es = l ++ e :: r ∧ e.thread = t ∧ (∃ a edits, lookAt e.call = some a ∧
    a.writes = some edits) ∧ ∀ e ∈ r, ∀ a, lookAt e.call = some a → a.writes = none

/-- The edit that is written last makes a result of both of the intent its request worked on. -/
def LastAbsorbs (w : World) (r₁ r₂ : Site × Edit) (es : List (Event machine)) : Prop :=
  ∀ t r l edits, LastWriter es t → [r₁, r₂][t]? = some r → Loads r.1.pod l edits →
    l <+: actionsOf lookAt t es →
      some (r.2.next edits) = w.intents.serially r₁ r₂ ∨
        some (r.2.next edits) = w.intents.serially r₂ r₁

variable {r₁ r₂ : Site × Edit} {es : List (Event machine)} {p' : Pool machine Err Unit}

namespace BothReturn

variable (h : BothReturn w r₁ r₂ es p')

include h

theorem thread (e : Event machine) (he : e ∈ es) : e.thread = 0 ∨ e.thread = 1 := by
  obtain ⟨prog, hprog⟩ := h.run.thread_mem he
  have hlt := (List.getElem?_eq_some_iff.1 hprog).1
  simp only [concurrentEdits, serving, List.map_cons, List.map_nil, List.length_cons,
    List.length_nil] at hlt
  omega

theorem prog {t : ℕ} {r : Site × Edit} (hr : [r₁, r₂][t]? = some r) :
    (concurrentEdits w r₁ r₂).threads[t]? = some (editStreets r.1 r.2) ∧
      p'.threads[t]? = some (.ret ()) := by
  match t with
  | 0 =>
    obtain rfl := Option.some.inj hr
    exact ⟨rfl, h.first⟩
  | 1 =>
    obtain rfl := Option.some.inj hr
    exact ⟨rfl, h.second⟩
  | t + 2 => simp at hr

/-- Each request has done what a request does. -/
theorem story {t : ℕ} {r : Site × Edit} (hr : [r₁, r₂][t]? = some r) :
    Story r.1.pod r.2 (actionsOf lookAt t es) ∧
      ∀ f, ⟨.deleteFiles r.1.pod [.streetEdits], .error f⟩ ∉ callsOf t es := by
  obtain ⟨hprog, hend⟩ := h.prog hr
  obtain ⟨ans, hans, htells⟩ := h.run.ended hprog (editStreets_trail r.1 r.2) hend trivial
  cases ans with
  | error e => cases hans
  | ok u =>
    obtain ⟨l, hstory, htold⟩ := htells u rfl
    rw [actionsOf_eq, htold.looks]
    exact ⟨hstory, htold.deleted⟩

/-- The request of a thread. -/
theorem request {e : Event machine} (he : e ∈ es) : ∃ r, [r₁, r₂][e.thread]? = some r := by
  rcases h.thread e he with ht | ht <;> rw [ht]
  · exact ⟨r₁, rfl⟩
  · exact ⟨r₂, rfl⟩

/-- What the run makes of the intents. -/
theorem follows : Follows Look.Step w.intents (actions lookAt es) p'.world.intents := by
  apply h.run.chain.follows (fun e _ hallowed a ha => Look.step_of_allowed hallowed ha)
  intro e he hallowed hlook
  obtain ⟨r, hr⟩ := h.request he
  obtain ⟨hprog, -⟩ := h.prog hr
  have hcall : e.call.op.Aside ∨ e.call.op.OfIntent r.1.pod := by
    obtain ⟨i, hi⟩ := List.mem_iff_getElem?.1 he
    exact h.run.trail_getElem hi hprog (editStreets_trail r.1 r.2)
  apply intents_of_idle hallowed hcall hlook
  intro f hf
  exact (h.story hr).2 f (mem_callsOf.2 ⟨e, he, rfl, hf⟩)

/-- What the last writer leaves in the row. -/
theorem row_of_lastWriter {t : ℕ} {r : Site × Edit} {l : List Look} {edits : StreetEdits}
    (hwriter : LastWriter es t) (hr : [r₁, r₂][t]? = some r) (hloads : Loads r.1.pod l edits)
    (hpre : l <+: actionsOf lookAt t es) : p'.world.intents.row = some (r.2.next edits) := by
  obtain ⟨l', e, r', rfl, ht, ⟨a, written, ha, hw⟩, hafter⟩ := hwriter
  have hnone : ∀ b ∈ actions lookAt r', b.writes = none := by
    intro b hb
    obtain ⟨e', he', hb⟩ := mem_actions.1 hb
    exact hafter e' he' b hb
  have hstory := (h.story hr).1
  have hfollows := h.follows
  rw [actionsOf_mid ht ha] at hstory hpre
  rw [actions_mid ha] at hfollows
  rw [row_of_last_write hfollows hw hnone]
  exact congrArg some (hstory.last_write hw (fun b hb => hnone b (mem_actions_of_mem hb)) hloads
    hpre)

/-- If nobody writes, both requests only read, in whatever order. -/
theorem kept_of_no_writes (hnone : ∀ a ∈ actions lookAt es, a.writes = none) :
    EditsKept w r₁ r₂ p'.world := by
  have hfirst := (h.story (t := 0) rfl).1
  have hsecond := (h.story (t := 1) rfl).1
  have hfollows := h.follows
  have hreads : ∀ a ∈ actions lookAt es, a.Reads := by
    intro a ha
    obtain ⟨e, he, hlook⟩ := mem_actions.1 ha
    have hthread : a ∈ actionsOf lookAt e.thread es :=
      mem_actions.2 ⟨e, List.mem_filter.2 ⟨he, by simp⟩, hlook⟩
    rcases h.thread e he with ht | ht <;> rw [ht] at hthread
    · exact hfirst.reads (fun b hb => hnone b (mem_actions_of_mem hb)) hthread
    · exact hsecond.reads (fun b hb => hnone b (mem_actions_of_mem hb)) hthread
  have hone := follows_of_reads hfollows hreads fun a => mem_actions_of_mem (t := 0)
  have htwo := follows_of_reads hfollows hreads fun a => mem_actions_of_mem (t := 1)
  left
  rw [row_of_no_writes hfollows hnone]
  exact keeps_in_turn hfirst hsecond (follows_append.2 ⟨_, hone, htwo⟩)

/-- Requests that are served one after the other keep both edits. -/
theorem kept_in_turn (hturn : InTurn lookAt es 0 1 ∨ InTurn lookAt es 1 0) :
    EditsKept w r₁ r₂ p'.world := by
  have hfirst := (h.story (t := 0) rfl).1
  have hsecond := (h.story (t := 1) rfl).1
  have hfollows := h.follows
  rcases hturn with hturn | hturn
  · rw [hturn.actions_eq h.thread] at hfollows
    exact .inl (keeps_in_turn hfirst hsecond hfollows)
  · rw [hturn.actions_eq fun e he => (h.thread e he).symm] at hfollows
    exact .inr (keeps_in_turn hsecond hfirst hfollows)

/-- If the edit written last makes a result of both, both are kept. -/
theorem kept_of_absorbs (habsorbs : LastAbsorbs w r₁ r₂ es) : EditsKept w r₁ r₂ p'.world := by
  rcases last_such (fun e : Event machine => ∃ a edits, lookAt e.call = some a ∧
    a.writes = some edits) es with hno | ⟨l, e, r, rfl, hwrite, hafter⟩
  · apply h.kept_of_no_writes
    intro a ha
    obtain ⟨e, he, ha⟩ := mem_actions.1 ha
    rcases hw : a.writes with _ | edits
    · rfl
    · exact absurd ⟨a, edits, ha, hw⟩ (hno e he)
  · obtain ⟨r', hr'⟩ := h.request (e := e) (by simp)
    obtain ⟨l₁, edits, hloads, hstory⟩ := (h.story hr').1
    have hwriter : LastWriter (l ++ e :: r) e.thread := by
      refine ⟨l, e, r, rfl, rfl, hwrite, fun e' he' a ha => ?_⟩
      rcases hw : a.writes with _ | edits
      · rfl
      · exact absurd ⟨a, edits, ha, hw⟩ (hafter e' he')
    rw [EditsKept, h.row_of_lastWriter hwriter hr' hloads ⟨_, hstory.symm⟩]
    exact habsorbs _ r' l₁ edits hwriter hr' hloads ⟨_, hstory.symm⟩

end BothReturn

/-- **Both edits are kept exactly if one request is done before the other begins, or the edit
written last makes a result of both anyway.** -/
theorem editsKept_iff (h : BothReturn w r₁ r₂ es p') :
    EditsKept w r₁ r₂ p'.world ↔
      InTurn lookAt es 0 1 ∨ InTurn lookAt es 1 0 ∨ LastAbsorbs w r₁ r₂ es := by
  constructor
  · intro hkept
    refine .inr (.inr fun t r l edits hwriter hr hloads hpre => ?_)
    rw [← h.row_of_lastWriter hwriter hr hloads hpre]
    exact hkept
  · rintro (hturn | hturn | habsorbs)
    · exact h.kept_in_turn (.inl hturn)
    · exact h.kept_in_turn (.inr hturn)
    · exact h.kept_of_absorbs habsorbs

/-- **Edits that absorb each other are kept** even if the request that writes last has loaded the
intent before the other changed it. -/
theorem editsKept_of_covers (h : BothReturn w r₁ r₂ es p') (hrow : w.intents.row = some edits)
    (hnodup : edits.removedRoads.Nodup)
    (hload : ∀ t, LastWriter es t → [.loaded (some edits)] <+: actionsOf lookAt t es)
    (hfirst : LastWriter es 0 → r₁.2.Covers r₂.2) (hsecond : LastWriter es 1 → r₂.2.Covers r₁.2) :
    EditsKept w r₁ r₂ p'.world := by
  refine h.kept_of_absorbs fun t r l edits' hwriter hr hloads hpre => ?_
  obtain rfl := (Loads.named edits).unique hloads (hload t hwriter) hpre
  have happlied : r.2.applied edits ≠ none := by
    have hstarts := hload t hwriter
    obtain ⟨l, e, l', rfl, ht, ⟨a, written, ha, hw⟩, -⟩ := hwriter
    refine (h.story hr).1.applied_ne_none hstarts (a := a) ?_ (by rw [hw]; simp)
    rw [actionsOf_mid ht ha]
    simp
  have habsorbs : ∀ {e e' : Edit}, e.Covers e' → e.applied edits ≠ none →
      some (e.next edits) = some (e.next (e'.next edits)) ∨
        some (e.next edits) = some (e'.next (e.next edits)) := fun hcovers happlied =>
    (hcovers.absorbs hnodup happlied).imp (congrArg some) (congrArg some)
  rw [Intents.serially_of_row hrow, Intents.serially_of_row hrow]
  match t with
  | 0 =>
    obtain rfl := Option.some.inj hr
    exact (habsorbs (hfirst hwriter) happlied).symm
  | 1 =>
    obtain rfl := Option.some.inj hr
    exact habsorbs (hsecond hwriter) happlied
  | t + 2 => simp at hr

/-- No edit is lost, whatever two requests edit and in whatever order they take their steps. -/
def NoEditLost : Prop :=
  ∀ (w : World) (r₁ r₂ : Site × Edit) (es : List (Event machine)) (p' : Pool machine Err Unit),
    BothReturn w r₁ r₂ es p' → EditsKept w r₁ r₂ p'.world

omit [External]

/-! ## A lost edit -/

/-- A road is removed on one pod while another pod deselects the tracks. -/
def removal : Site × Edit := (⟨0, 0, none⟩, .removeRoads [1])

def deselection : Site × Edit := (⟨1, 0, none⟩, .updateTrackGrades [])

def removalAndDeselection : Pool machine Err Unit :=
  let _ := External.plain
  concurrentEdits (worldStoring [residentialRoad]) removal deselection

/-- One request after the other. -/
def inTurnSchedule : List (ℕ × Choice) :=
  usually (List.replicate 40 0) ++ usually (List.replicate 40 1)

/-- Both load the row before either writes it. -/
def overlapSchedule : List (ℕ × Choice) :=
  usually ([0, 1] ++ List.replicate 40 0 ++ List.replicate 40 1)

theorem thread_of_mem_play {M : Machine sig} {p : Pool M Err Unit} {c : M.Choice} {n t : ℕ}
    {e : Event M} (h : e ∈ (p.play (List.replicate n (t, c))).1) : e.thread = t := by
  obtain ⟨s₁, c', s₂, hs, -, -⟩ := Pool.mem_play h
  have hmem : (e.thread, c') ∈ List.replicate n (t, c) := by
    rw [hs]
    simp
  exact (Prod.mk.inj (List.eq_of_mem_replicate hmem)).1

theorem inTurn_play :
    InTurn lookAt (removalAndDeselection.play inTurnSchedule).1 0 1 := by
  rw [inTurnSchedule, Pool.play_append]
  refine ⟨_, _, rfl, fun e he _ => ?_, fun e he _ => ?_⟩
  · rw [usually, List.map_replicate] at he
    rw [thread_of_mem_play he]
    decide
  · rw [usually, usually, List.map_replicate, List.map_replicate] at he
    rw [thread_of_mem_play he]
    decide

theorem edits_kept_in_turn :
    EditsKept (worldStoring [residentialRoad]) removal deselection
      (removalAndDeselection.play inTurnSchedule).2.world :=
  let _ := External.plain
  (editsKept_iff ⟨Run.of_play inTurnSchedule removalAndDeselection, rfl, rfl⟩).2 (.inl inTurn_play)

/-- **The removal is lost**, though both requests return. -/
theorem edit_lost : ¬ @NoEditLost External.plain := by
  intro h
  let _ := External.plain
  have hkept := h _ removal deselection _ _
    ⟨Run.of_play overlapSchedule removalAndDeselection, rfl, rfl⟩
  have hlost : (removalAndDeselection.play overlapSchedule).2.world.intents.row =
      some { selectedTrackGrades := [] } := by decide +kernel
  rw [EditsKept, hlost] at hkept
  exact absurd hkept (by decide +kernel)

end Cosmonaut
