import Cosmonaut.Street.Current

/-!
# The states a job's street files can be in

Whole calls of the street selector, on any pods and in any processes, mixed with everything else the
app does to rows and files (`Reached`), lead to sound worlds only.

* `StreetCall` are the calls; all of them keep the invariant (`StreetCall.settles`).
* `Op.tame` are the operations of the rest of the app: writes of rows and of other files, copies and
  deletions of any files.
* `Reached.sound`: the invariant holds in every reached world.
-/

namespace Cosmonaut

open Interleaving Program

variable [External]

/-! ## Calls -/

/-- A call of the street selector. -/
inductive StreetCall
  | new (job : JobModel)
  | edit (sel : StreetSelector) (e : Edit)
  | refresh (sel : StreetSelector)
  | ensureProjected (sel : StreetSelector)
  | visibleFc
  | viewportFc (sel : StreetSelector)
  | initialFc (sel : StreetSelector)
  | getRemovedRoadsInfo (sel : StreetSelector)
  | fileSha256 (s : StreetFile)

def StreetCall.program (here : Site) : StreetCall → App Unit
  | .new job => do let _ ← StreetSelector.new here job
  | .edit sel e => do let _ ← e.apply here sel
  | .refresh sel => do let _ ← sel.refresh here
  | .ensureProjected sel => sel.ensureProjected here
  | .visibleFc => StreetSelector.visibleFc here
  | .viewportFc sel => sel.viewportFc here
  | .initialFc sel => sel.initialFc here
  | .getRemovedRoadsInfo sel => do let _ ← sel.getRemovedRoadsInfo here
  | .fileSha256 s => do let _ ← Cosmonaut.fileSha256 here s

variable {crash : Bool} {look : Feature → Feature} {torn : Place → Prop} {w w' : World}
  {here : Site} {sel : StreetSelector}

/-- The call leaves a sound world behind, however it ends. -/
abbrev KeepsSound {α : Type} (crash : Bool) (look : Feature → Feature) (torn : Place → Prop)
    (p : App α) (w : World) : Prop :=
  Settles crash look torn True (fun _ _ => True) p w

theorem Settles.keepsSound {α : Type} {F : α → World → Prop} {p : App α}
    (h : Settles crash look torn True F p w) : KeepsSound crash look torn p w :=
  h.mono (fun _ _ _ h => h) fun _ _ _ _ => trivial

theorem KeepsSound.void {α : Type} {p : App α} (h : KeepsSound crash look torn p w) :
    KeepsSound crash look torn (do let _ ← p) w :=
  h.bind fun _ _ hs _ => settles_ret hs trivial

theorem applyEdits_keepsSound (hlook : ∀ f g, look f = look g → SameRoad f g)
    (hs : Sound crash look torn w) (defer : Bool) :
    KeepsSound crash look torn (sel.applyEdits here defer) w :=
  (applyEdits_settles hlook hs (fun _ => trivial) (fun _ => trivial) fun _ => trivial).keepsSound

theorem edit_keepsSound (hlook : ∀ f g, look f = look g → SameRoad f g)
    (hs : Sound crash look torn w) (edits : StreetEdits) :
    KeepsSound crash look torn (sel.edit here edits) w :=
  (applyEdits_keepsSound hlook hs true).bind fun _ _ hs' _ => settles_ret hs' trivial

theorem apply_keepsSound (hlook : ∀ f g, look f = look g → SameRoad f g)
    (hs : Sound crash look torn w) (e : Edit) :
    KeepsSound crash look torn (e.apply here sel) w := by
  cases e with
  | keepLargest =>
    exact (applyEdits_keepsSound hlook hs true).bind fun _ _ hs' _ => settles_ret hs' trivial
  | reset => exact edit_keepsSound hlook hs _
  | removeRoads ids =>
    simp only [Edit.apply, StreetSelector.removeRoads]
    split
    · exact settles_ret hs trivial
    · exact edit_keepsSound hlook hs _
  | restoreRoad id =>
    simp only [Edit.apply, StreetSelector.restoreRoad]
    split
    · exact settles_ret hs trivial
    · exact edit_keepsSound hlook hs _
  | clearRemovedRoads =>
    simp only [Edit.apply, StreetSelector.clearRemovedRoads]
    split
    · exact settles_ret hs trivial
    · exact edit_keepsSound hlook hs _
  | updateTags tags =>
    simp only [Edit.apply, StreetSelector.updateTags]
    split
    · exact settles_ret hs trivial
    · exact edit_keepsSound hlook hs _
  | updateTrackGrades grades =>
    simp only [Edit.apply, StreetSelector.updateTrackGrades]
    split
    · exact settles_ret hs trivial
    · exact edit_keepsSound hlook hs _

theorem visibleFc_keepsSound (hhide : ∀ f t, look (f.withTooltip t) = look f)
    (hs : Sound crash look torn w) : KeepsSound crash look torn (StreetSelector.visibleFc here) w :=
  (cachedLoad_settles hs rfl (fun _ => trivial) fun _ => trivial).bind fun refs _ hs' _ =>
    (settles_addTooltips hhide hs' refs).keepsSound

theorem viewportFc_keepsSound (hlook : ∀ f g, look f = look g → SameRoad f g)
    (hhide : ∀ f t, look (f.withTooltip t) = look f) (hs : Sound crash look torn w) :
    KeepsSound crash look torn (sel.viewportFc here) w := by
  refine (refresh_settles hlook hs (fun _ => trivial) fun _ _ => trivial).bind fun r w' hs' _ => ?_
  split
  · exact visibleFc_keepsSound hhide hs'
  · exact settles_ret hs' trivial

theorem getRemovedRoadsInfo_keepsSound (hs : Sound crash look torn w) :
    KeepsSound crash look torn (sel.getRemovedRoadsInfo here) w := by
  unfold StreetSelector.getRemovedRoadsInfo
  split
  · exact settles_ret hs trivial
  · refine (settles_fileExists hs _).bind ?_
    rintro exists' w' hs' -
    split
    · refine (cachedLoad_settles hs' rfl (fun _ => trivial) fun _ => trivial).bind ?_
      rintro refs w₁ hs₁ -
      refine (settles_getFeatures hs₁ refs).bind ?_
      rintro features w₂ hs₂ -
      exact settles_ret hs₂ trivial
    · exact settles_ret hs' trivial

/-- **Every call of the street selector keeps the invariant**, however it ends. -/
theorem StreetCall.settles (hlook : ∀ f g, look f = look g → SameRoad f g)
    (hhide : ∀ f t, look (f.withTooltip t) = look f) (hs : Sound crash look torn w)
    (c : StreetCall) : KeepsSound crash look torn (c.program here) w := by
  cases c with
  | new job => exact (new_settles hs fun _ => trivial).keepsSound.void
  | edit sel e => exact (apply_keepsSound hlook hs e).void
  | refresh sel =>
    exact (refresh_settles hlook hs (fun _ => trivial) fun _ _ => trivial).keepsSound.void
  | ensureProjected sel =>
    exact (ensureProjected_settles hlook hs (fun _ => trivial) fun _ _ => trivial).keepsSound
  | visibleFc => exact visibleFc_keepsSound hhide hs
  | viewportFc sel => exact viewportFc_keepsSound hlook hhide hs
  | initialFc sel => exact viewportFc_keepsSound hlook hhide hs
  | getRemovedRoadsInfo sel => exact (getRemovedRoadsInfo_keepsSound hs).void
  | fileSha256 s => exact (fileSha256_settles hs fun _ => trivial).keepsSound.void

/-! ## The rest of the app -/

/-- The operations of the app's other code: it neither writes record files or legacy intents, nor
uses the street selector's caches, and renames downloads into place (`Reached.replace`). -/
def Op.tame : Op → Bool
  | .openFile _ f | .writeFile _ f _ => !f.watched
  | .replaceFile .. => false
  | .cacheChecksum .. | .cacheFeatures .. | .newFeatures .. | .addTooltips .. => false
  | _ => true

omit [External] in
theorem content_upload_cases (d d' : Files) (fs : FileName → Bool) (f : FileName) :
    (d.upload d' fs).content f = d'.content f ∨ (d.upload d' fs).content f = d.content f := by
  rcases Files.upload_cases d d' f fs with h | ⟨-, -, -, h⟩
  · exact .inl (by rw [Files.content, h, Files.content])
  · exact .inr (by rw [Files.content, h, Files.content])

omit [External] in
/-- What a tame operation leaves of a watched file on a disk is a copy of what there was. -/
theorem exec_disk_content {o : Op} {c : Choice} (h : o.tame = true) {pod : ℕ} {f : FileName}
    (hf : f.watched = true) {b : Bytes f.Doc}
    (hb : ((exec o c w).2.disk pod).content f = some b) :
    ∃ place, (w.copy place).content f = some b := by
  have hpulled : ∀ q fs time, ((w.pulled q fs time).disk pod).content f = some b →
      ∃ place, (w.copy place).content f = some b := by
    intro q fs time hb
    by_cases hq : q = pod
    · subst hq
      rw [World.pulled, setDisk_disk_self] at hb
      rcases content_pull_cases (w.disk q) w.stored fs time f with hc | hc
      · exact ⟨some q, hc.symm.trans hb⟩
      · exact ⟨none, hc.symm.trans hb⟩
    · rw [World.pulled, setDisk_disk_of_ne hq] at hb
      exact ⟨some pod, hb⟩
  have hdeleted : ∀ q fs fs', ((w.deleted q fs fs').disk pod).content f = some b →
      ∃ place, (w.copy place).content f = some b := by
    intro q fs fs' hb
    refine ⟨some pod, ?_⟩
    by_cases hq : q = pod
    · subst hq
      exact content_delete ((congrArg
        (fun d : Files => d.content f) setDisk_disk_self).symm.trans hb)
    · exact (congrArg (fun d : Files => d.content f) (setDisk_disk_of_ne hq)).symm.trans hb
  by_cases ht : o.touches pod f = false
  · rw [Files.content, exec_disk_of_not_touches ht] at hb
    exact ⟨some pod, hb⟩
  rcases hfault : o.fault c with _ | e
  case some =>
    rw [exec_of_fault hfault] at hb
    cases o
    case pullWorkDir q => exact hpulled _ _ _ hb
    case pullFile q g => exact hpulled _ _ _ hb
    case deleteFiles q fs => exact hdeleted _ _ _ hb
    case submitJob => exact absurd rfl ht
    all_goals exact ⟨some pod, hb⟩
  rw [exec_of_no_fault hfault] at hb
  cases o
  case pullWorkDir q => exact hpulled _ _ _ hb
  case pullFile q g => exact hpulled _ _ _ hb
  case deleteFiles q fs => exact hdeleted _ _ _ hb
  case deleteJob q =>
    simp only [perform] at hb
    split at hb
    · split at hb
      · exact ⟨some pod, hb⟩
      · exact hdeleted q (fun _ => true) (fun _ => true) hb
    · exact ⟨some pod, hb⟩
  case removeFile q g =>
    simp only [perform] at hb
    split at hb
    · refine ⟨some pod, ?_⟩
      by_cases hq : q = pod
      · subst hq
        rw [setDisk_disk_self] at hb
        by_cases hfg : f = g
        · subst hfg
          rw [Files.content, Files.remove_self] at hb
          cases hb
        · rwa [Files.content, Files.remove_other _ _ _ hfg] at hb
      · rwa [setDisk_disk_of_ne hq] at hb
    · exact ⟨some pod, hb⟩
  case openFile s g | writeFile s g doc =>
    have hgf : g = f := by simp [Op.touches] at ht; exact ht.2
    subst hgf
    simp [Op.tame, hf] at h
  case pipeline s =>
    have hgf : f = .solution := by simp [Op.touches] at ht; exact ht.2
    subst hgf
    cases hf
  case replaceFile => cases h
  all_goals exact absurd rfl ht

omit [External] in
theorem exec_copy_content {o : Op} {c : Choice} (h : o.tame = true) {place : Place} {f : FileName}
    (hf : f.watched = true) {b : Bytes f.Doc}
    (hb : ((exec o c w).2.copy place).content f = some b) :
    ∃ place', (w.copy place').content f = some b := by
  cases place with
  | some pod => exact exec_disk_content h hf hb
  | none =>
    rw [World.copy_none] at hb
    have hstep := exec_stored_cases o c w
    generalize (exec o c w).2.stored = stored at hb hstep
    cases hstep with
    | same => exact ⟨none, hb⟩
    | upload pod fs =>
      rcases content_upload_cases (w.disk pod) w.stored fs f with hc | hc
      · exact ⟨none, hc.symm.trans hb⟩
      · exact ⟨some pod, hc.symm.trans hb⟩
    | delete pod names fs => exact ⟨none, content_delete hb⟩
    | deleteJob pod => exact ⟨none, content_delete hb⟩

omit [External] in
theorem exec_memory_of_tame {o : Op} {c : Choice} (h : o.tame = true) :
    (exec o c w).2.memory = w.memory := by
  rcases hfault : o.fault c with _ | e
  case some =>
    rw [exec_of_fault hfault]
    cases o
    case submitJob => simp only [interrupted]; split <;> rfl
    all_goals rfl
  rw [exec_of_no_fault hfault]
  cases o
  case cacheChecksum | cacheFeatures | newFeatures | addTooltips => cases h
  case updateColumns | raiseStage =>
    simp only [perform, World.require]
    split <;> rfl
  case updateInput | setStreetProcessingOfTask | updateMembershipUploadOfTask | markStartFailed |
      markPending | finish =>
    simp only [perform, World.update]
    split <;> (try split) <;> rfl
  case loadRow | writeRow | markEndNotified | markQueued | markCancelled | sweep | claim |
      deleteJob | submitJob | receive | replaceFile | removeFile | sendMail =>
    simp only [perform]
    split <;> (try split) <;> (try split) <;> rfl
  all_goals rfl

theorem Sound.exec_tame (hs : Sound crash look (fun _ => False) w) {o : Op} (c : Choice)
    (h : o.tame = true) : Sound crash look (fun _ => False) (exec o c w).2 where
  records place records hrec := by
    obtain ⟨place', hrec'⟩ := exec_copy_content h rfl hrec
    exact hs.records place' records hrec'
  checksums process s := by rw [exec_memory_of_tame h]; exact hs.checksums process s
  features process s := by rw [exec_memory_of_tame h]; exact hs.features process s
  legible hc place ht := by
    obtain ⟨place', ht'⟩ := exec_copy_content h rfl ht
    exact hs.legible hc place' ht'
  whole place f hf ht := by
    obtain ⟨place', ht'⟩ := exec_copy_content h (FileName.watched_of_neverTorn hf) ht
    exact hs.whole place' f hf ht'

/-! ## Reached worlds -/

/-- A world in which no call has recorded anything yet: record files are from before the checksums,
no file that must be whole is torn, and no process has cached anything. -/
structure Origin (w : World) : Prop where
  records : ∀ place records, (w.copy place).content .derivedHashes = some (.whole records) →
    ∀ s source sha256, records s ≠ some (.built source sha256)
  whole : ∀ place f, f.watched = true → (w.copy place).content f ≠ some .torn
  memory : ∀ process, (∀ s, (w.memory process).checksums s = none) ∧
    ∀ s, (w.memory process).features s = none

/-- The worlds that whole calls of the street selector lead to, on any pods and in any processes,
with anything else the app does to rows and files in between. With `crash` a process may be
terminated inside a call. -/
inductive Reached (crash : Bool) : World → Prop
  | start {w : World} : Origin w → Reached crash w
  | call {w w' : World} {r : Except Err Unit} (here : Site) (c : StreetCall) : Reached crash w →
      (c.program here).Ends (steady crash) w r w' → Reached crash w'
  | op {w : World} (o : Op) (c : Choice) : Reached crash w → o.tame = true →
      Reached crash (exec o c w).2
  /-- A download is renamed into place, or a derived file that came with it. -/
  | replace {w : World} {s : StreetFile} {doc : s.Doc} (pod : ℕ) (c : Choice) : Reached crash w →
      (w.disk pod).content (.streetTmp s) = some (.whole doc) →
      Reached crash (exec (.replaceFile pod s) c w).2
  /-- A process starts anew, with empty caches. -/
  | restart {w : World} (here : Site) : Reached crash w →
      Reached crash (w.setMemory here ⟨fun _ => none, fun _ => none, []⟩)

theorem Origin.sound (h : Origin w) : Sound crash look torn w where
  records place records hrec s source sha256 hs :=
    absurd hs (h.records place records hrec s source sha256)
  checksums process s mtime sha256 hs := by
    rw [(h.memory process).1] at hs
    cases hs
  features process s mtime refs hs := by
    rw [(h.memory process).2] at hs
    cases hs
  legible _ place ht := absurd ht (h.whole place _ rfl)
  whole place f hf := h.whole place f (FileName.watched_of_neverTorn hf)

theorem Sound.replace (hs : Sound crash look torn w) {s : StreetFile} {doc : s.Doc} {pod : ℕ}
    (htmp : (w.disk pod).content (.streetTmp s) = some (.whole doc)) (c : Choice) :
    Sound crash look torn (exec (.replaceFile pod s) c w).2 := by
  rcases hfault : Op.fault (.replaceFile pod s) c with _ | e
  case some =>
    rw [exec_of_fault hfault]
    exact hs
  rw [exec_of_no_fault hfault]
  rcases htmpe : w.disk pod (.streetTmp s) with _ | e
  · simp only [perform, htmpe]
    exact hs
  simp only [perform, htmpe]
  have hwhole : e.content = .whole doc := by
    rw [Files.content, htmpe] at htmp
    exact Option.some.inj htmp
  exact hs.replaced hwhole

/-- **The invariant holds in every reached world.** -/
theorem Reached.sound (hlook : ∀ f g, look f = look g → SameRoad f g)
    (hhide : ∀ f t, look (f.withTooltip t) = look f) (h : Reached crash w) :
    Sound crash look (fun _ => False) w := by
  induction h with
  | start h => exact h.sound
  | call here c _ hends ih => exact ((c.settles hlook hhide ih).ends hends).1
  | op o c _ ho ih => exact ih.exec_tame c ho
  | replace pod c _ htmp ih => exact ih.replace htmp c
  | restart here _ ih =>
    refine ih.setMemory (fun s mtime sha256 h => ?_) fun s mtime refs h => ?_
    · cases h
    · cases h

omit [External] in
theorem sameRoad_of_bare (f g : Feature) (h : f.bare = g.bare) : SameRoad f g := h

/-- The invariant, up to tooltips. -/
theorem Reached.sound_bare (h : Reached crash w) :
    Sound crash Feature.bare (fun _ => False) w :=
  h.sound sameRoad_of_bare Feature.bare_withTooltip

end Cosmonaut
