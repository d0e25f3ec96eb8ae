import Cosmonaut.Street.MadeCurrent
import Cosmonaut.Street.Network

/-!
# Street-selection sessions

A session is any sequence of edits that starts from the default intent.

* `Since`: something happened, and nothing undid it since.
* `Edit.applied`, `intentAfter`: the intent an edit applies, and the one a session leads to.
* `session_means`: the intent and the edited network that every session leaves.
-/

namespace Cosmonaut

open Interleaving Program

/-! ## What has happened since -/

section

variable {α : Type} {p q : List α → α → Prop} {l : List α} {a : α}

/-- `p` held of an entry of the list, and `q` of none after it. Both may look at what came
before. -/
def Since (p q : List α → α → Prop) (l : List α) : Prop :=
  ∃ l₁ a l₂, l = l₁ ++ a :: l₂ ∧ p l₁ a ∧ ∀ l₃ b l₄, l₂ = l₃ ++ b :: l₄ → ¬q (l₁ ++ a :: l₃) b

theorem not_since_nil : ¬Since p q [] := by
  rintro ⟨l₁, a, l₂, h, -⟩
  simp at h

/-- What an entry at the end changes. -/
theorem since_concat : Since p q (l ++ [a]) ↔ p l a ∨ Since p q l ∧ ¬q l a := by
  constructor
  · rintro ⟨l₁, b, l₂, h, hp, hq⟩
    rcases List.eq_nil_or_concat' l₂ with rfl | ⟨l₂, c, rfl⟩
    · obtain ⟨rfl, hab⟩ := List.append_inj' h rfl
      obtain rfl := List.singleton_inj.1 hab
      exact .inl hp
    · rw [← List.cons_append, ← List.append_assoc] at h
      obtain ⟨rfl, hac⟩ := List.append_inj' h rfl
      obtain rfl := List.singleton_inj.1 hac
      refine .inr ⟨⟨l₁, b, l₂, rfl, hp, fun l₃ c l₄ hl => hq l₃ c (l₄ ++ [a]) ?_⟩, hq l₂ a [] rfl⟩
      rw [hl]
      simp
  · rintro (hp | ⟨⟨l₁, b, l₂, rfl, hp, hq⟩, hlast⟩)
    · exact ⟨l, a, [], rfl, hp, fun l₃ b l₄ h => by simp at h⟩
    · refine ⟨l₁, b, l₂ ++ [a], by simp, hp, fun l₃ c l₄ h => ?_⟩
      rcases List.eq_nil_or_concat' l₄ with rfl | ⟨l₄, d, rfl⟩
      · obtain ⟨rfl, hac⟩ := List.append_inj' h rfl
        obtain rfl := List.singleton_inj.1 hac
        exact hlast
      · rw [← List.cons_append, ← List.append_assoc] at h
        obtain ⟨hl, -⟩ := List.append_inj' h rfl
        exact hq l₃ c l₄ hl

end

/-! ## The intent of a session -/

/-- The intent an edit applies, if it is not the one there is already. -/
def Edit.applied (edits : StreetEdits) : Edit → Option StreetEdits
  | .removeRoads ids =>
    let uniqueNew := StreetSelector.newRemovals edits.removedRoads ids
    if uniqueNew = [] then none
    else some { edits with removedRoads := edits.removedRoads ++ uniqueNew, keepLargest := false }
  | .restoreRoad id =>
    if id ∉ edits.removedRoads then none
    else some { edits with removedRoads := edits.removedRoads.erase id, keepLargest := false }
  | .clearRemovedRoads =>
    if edits.removedRoads = [] then none
    else some { edits with removedRoads := [], keepLargest := false }
  | .updateTags tags =>
    if tags = edits.selectedRoadTags then none
    else some { edits with selectedRoadTags := tags, keepLargest := false }
  | .updateTrackGrades grades =>
    if grades = edits.selectedTrackGrades then none
    else some { edits with selectedTrackGrades := grades, keepLargest := false }
  | .keepLargest => some { edits with keepLargest := true }
  | .reset => some {}

/-- The intent after an edit. -/
def Edit.next (edits : StreetEdits) (e : Edit) : StreetEdits := (e.applied edits).getD edits

/-- The intent that the edits lead to from the default. -/
def intentAfter (calls : List Edit) : StreetEdits := calls.foldl Edit.next {}

theorem intentAfter_concat (calls : List Edit) (e : Edit) :
    intentAfter (calls ++ [e]) = e.next (intentAfter calls) := by
  rw [intentAfter, List.foldl_concat, intentAfter]

/-- The edit removes the road. -/
def Edit.Removes (id : ℤ) : Edit → Prop
  | .removeRoads ids => id ∈ ids
  | _ => False

/-- The edit brings the road back, if it was removed. -/
def Edit.Restores (id : ℤ) : Edit → Prop
  | .restoreRoad id' => id' = id
  | .clearRemovedRoads | .reset => True
  | _ => False

/-- The edit resets the intent, or changes more of it than keep-largest. -/
def Edit.Changes (edits : StreetEdits) (e : Edit) : Prop :=
  e = .reset ∨ (e.next edits).removedRoads ≠ edits.removedRoads ∨
    (e.next edits).selectedRoadTags ≠ edits.selectedRoadTags ∨
    (e.next edits).selectedTrackGrades ≠ edits.selectedTrackGrades

/-- The new removals: the ids named that are not removed yet, each once. -/
theorem newRemovals_spec (removed ids : List ℤ) :
    (StreetSelector.newRemovals removed ids).Nodup ∧
      ∀ id, id ∈ StreetSelector.newRemovals removed ids ↔ id ∈ ids ∧ id ∉ removed := by
  have hfold : ∀ (ids seen : List ℤ), seen.Nodup →
      let l := ids.foldl (fun seen id => if id ∈ seen then seen else seen ++ [id]) seen
      l.Nodup ∧ ∀ id, id ∈ l ↔ id ∈ seen ∨ id ∈ ids := by
    intro ids
    induction ids with
    | nil => intro seen hseen; simpa using hseen
    | cons i ids ih =>
      intro seen hseen
      rw [List.foldl_cons]
      split
      · rename_i hi
        obtain ⟨hnodup, hmem⟩ := ih seen hseen
        refine ⟨hnodup, fun id => ?_⟩
        rw [hmem, List.mem_cons]
        constructor
        · rintro (h | h)
          · exact .inl h
          · exact .inr (.inr h)
        · rintro (h | rfl | h)
          · exact .inl h
          · exact .inl hi
          · exact .inr h
      · rename_i hi
        have hseen' : (seen ++ [i]).Nodup := by
          refine List.nodup_append.2 ⟨hseen, by simp, ?_⟩
          rintro a ha b hb rfl
          rw [List.mem_singleton] at hb
          exact hi (hb ▸ ha)
        obtain ⟨hnodup, hmem⟩ := ih _ hseen'
        refine ⟨hnodup, fun id => ?_⟩
        rw [hmem, List.mem_append, List.mem_singleton, List.mem_cons, or_assoc]
  obtain ⟨hnodup, hmem⟩ := hfold ids [] .nil
  refine ⟨hnodup.filter _, fun id => ?_⟩
  rw [StreetSelector.newRemovals, List.mem_filter, hmem, decide_eq_true_iff]
  simp

/-- What an edit does to the removed roads. -/
theorem next_removed {edits : StreetEdits} (hnodup : edits.removedRoads.Nodup) (e : Edit) :
    (e.next edits).removedRoads.Nodup ∧ ∀ id, id ∈ (e.next edits).removedRoads ↔
      e.Removes id ∨ id ∈ edits.removedRoads ∧ ¬e.Restores id := by
  cases e with
  | removeRoads ids =>
    obtain ⟨hnew, hmem⟩ := newRemovals_spec edits.removedRoads ids
    simp only [Edit.next, Edit.applied, Edit.Removes, Edit.Restores, not_false_eq_true, and_true]
    split
    · rename_i hnil
      refine ⟨hnodup, fun id => ?_⟩
      have hno : ¬(id ∈ ids ∧ id ∉ edits.removedRoads) := by
        rw [← hmem, hnil]
        simp
      change id ∈ edits.removedRoads ↔ _
      tauto
    · refine ⟨List.nodup_append.2 ⟨hnodup, hnew, ?_⟩, fun id => ?_⟩
      · rintro a ha b hb rfl
        exact ((hmem a).1 hb).2 ha
      · change id ∈ _ ++ _ ↔ _
        rw [List.mem_append, hmem]
        tauto
  | restoreRoad i =>
    simp only [Edit.next, Edit.applied, Edit.Removes, Edit.Restores, false_or]
    split
    · rename_i hi
      refine ⟨hnodup, fun id => ?_⟩
      change id ∈ edits.removedRoads ↔ _
      refine ⟨fun h => ⟨h, ?_⟩, And.left⟩
      rintro rfl
      exact hi h
    · refine ⟨hnodup.erase i, fun id => ?_⟩
      change id ∈ edits.removedRoads.erase i ↔ _
      rw [hnodup.mem_erase_iff, and_comm, ne_comm]
  | clearRemovedRoads =>
    simp only [Edit.next, Edit.applied, Edit.Removes, Edit.Restores]
    split
    · rename_i hnil
      refine ⟨hnodup, fun id => ?_⟩
      change id ∈ edits.removedRoads ↔ _
      rw [hnil]
      simp
    · exact ⟨.nil, by simp⟩
  | updateTags tags =>
    simp only [Edit.next, Edit.applied, Edit.Removes, Edit.Restores]
    split <;> exact ⟨hnodup, by simp⟩
  | updateTrackGrades grades =>
    simp only [Edit.next, Edit.applied, Edit.Removes, Edit.Restores]
    split <;> exact ⟨hnodup, by simp⟩
  | keepLargest => exact ⟨hnodup, by simp [Edit.next, Edit.applied, Edit.Removes, Edit.Restores]⟩
  | reset => exact ⟨.nil, by simp [Edit.next, Edit.applied, Edit.Removes, Edit.Restores]⟩

/-- **The removed roads are those removed and not restored, cleared or reset since**, each once. -/
theorem intentAfter_removed (calls : List Edit) :
    (intentAfter calls).removedRoads.Nodup ∧ ∀ id, id ∈ (intentAfter calls).removedRoads ↔
      Since (fun _ e => e.Removes id) (fun _ e => e.Restores id) calls := by
  induction calls using List.reverseRecOn with
  | nil =>
    refine ⟨.nil, fun id => ?_⟩
    simp [intentAfter, not_since_nil]
  | append_singleton calls e ih =>
    obtain ⟨hnodup, hmem⟩ := ih
    rw [intentAfter_concat]
    obtain ⟨hnodup', hmem'⟩ := next_removed hnodup e
    refine ⟨hnodup', fun id => ?_⟩
    rw [hmem', since_concat, hmem]

theorem next_keepLargest (edits : StreetEdits) (e : Edit) :
    (e.next edits).keepLargest = true ↔
      e = .keepLargest ∨ edits.keepLargest = true ∧ ¬e.Changes edits := by
  unfold Edit.Changes
  cases e with
  | removeRoads ids =>
    simp only [Edit.next, Edit.applied]
    split
    · simp
    · rename_i hnew
      simp [hnew]
  | restoreRoad id =>
    simp only [Edit.next, Edit.applied]
    split
    · simp
    · rename_i hid
      have hne : edits.removedRoads.erase id ≠ edits.removedRoads := by
        intro h
        have hlength := List.length_erase_of_mem (not_not.1 hid)
        have hpos := List.length_pos_of_mem (not_not.1 hid)
        rw [h] at hlength
        omega
      simp [hne]
  | clearRemovedRoads =>
    simp only [Edit.next, Edit.applied]
    split
    · simp
    · rename_i hne
      simp [Ne.symm hne]
  | updateTags tags =>
    simp only [Edit.next, Edit.applied]
    split
    · simp
    · rename_i hne
      simp [hne]
  | updateTrackGrades grades =>
    simp only [Edit.next, Edit.applied]
    split
    · simp
    · rename_i hne
      simp [hne]
  | keepLargest => simp [Edit.next, Edit.applied]
  | reset => simp [Edit.next, Edit.applied]

/-- **Keep-largest is set exactly if it was asked for after the last change of the rest.** -/
theorem intentAfter_keepLargest (calls : List Edit) : (intentAfter calls).keepLargest = true ↔
    Since (fun _ e => e = .keepLargest) (fun past e => e.Changes (intentAfter past)) calls := by
  induction calls using List.reverseRecOn with
  | nil => simp [intentAfter, not_since_nil]
  | append_singleton calls e ih => rw [intentAfter_concat, next_keepLargest, since_concat, ih]

/-- Restoring several roads, one after the other. -/
theorem foldl_restoreRoad (edits : StreetEdits) (ids : List ℤ) (h : edits.keepLargest = false) :
    (ids.map Edit.restoreRoad).foldl Edit.next edits =
      { edits with removedRoads := edits.removedRoads.diff ids } := by
  induction ids generalizing edits with
  | nil => rfl
  | cons id ids ih =>
    have hnext : Edit.next edits (.restoreRoad id) =
        { edits with removedRoads := edits.removedRoads.erase id } := by
      simp only [Edit.next, Edit.applied]
      split
      · rename_i hid
        rw [List.erase_of_not_mem hid]
        rfl
      · rw [← h]
        rfl
    rw [List.map_cons, List.foldl_cons, hnext, List.diff_cons]
    exact ih { edits with removedRoads := edits.removedRoads.erase id } h

/-- **Restoring the newly removed roads undoes the removal**, keep-largest apart. -/
theorem intentAfter_undone (before : List Edit) {ids restored : List ℤ}
    (hperm : restored.Perm
      (StreetSelector.newRemovals (intentAfter before).removedRoads ids)) (hne : restored ≠ []) :
    intentAfter (before ++ .removeRoads ids :: restored.map .restoreRoad) =
      { intentAfter before with keepLargest := false } := by
  obtain ⟨hnodup, -⟩ := intentAfter_removed before
  obtain ⟨hnew, hmem⟩ := newRemovals_spec (intentAfter before).removedRoads ids
  have hafter : intentAfter (before ++ .removeRoads ids :: restored.map .restoreRoad) =
      (restored.map Edit.restoreRoad).foldl Edit.next
        (Edit.next (intentAfter before) (.removeRoads ids)) := by
    rw [intentAfter, List.foldl_append, List.foldl_cons, intentAfter]
  have hremoved : Edit.next (intentAfter before) (.removeRoads ids) =
      { intentAfter before with
        removedRoads := (intentAfter before).removedRoads ++
          StreetSelector.newRemovals (intentAfter before).removedRoads ids
        keepLargest := false } := by
    simp only [Edit.next, Edit.applied]
    rw [if_neg fun hnil => hne (by rw [hnil] at hperm; exact hperm.eq_nil)]
    rfl
  have hall : ((intentAfter before).removedRoads ++
      StreetSelector.newRemovals (intentAfter before).removedRoads ids).Nodup := by
    refine List.nodup_append.2 ⟨hnodup, hnew, ?_⟩
    rintro a ha b hb rfl
    exact ((hmem a).1 hb).2 ha
  have hdiff : ((intentAfter before).removedRoads ++
      StreetSelector.newRemovals (intentAfter before).removedRoads ids).diff restored =
      (intentAfter before).removedRoads := by
    rw [hperm.diff_left, hall.sdiff_eq_filter, List.filter_append, List.filter_eq_self.2,
      List.filter_eq_nil_iff.2, List.append_nil]
    · intro a ha
      simpa using ha
    · intro a ha
      simpa using fun h => ((hmem a).1 h).2 ha
  rw [hafter, hremoved, foldl_restoreRoad _ _ rfl]
  dsimp only
  rw [hdiff]

/-! ## The session -/

variable [External]

/-- A selector is built from the row, and the edits are applied to it, one after the other. -/
def streetSession (here : Site) (r : Row) (calls : List Edit) : App StreetSelector := do
  let sel ← StreetSelector.new here (.ofRow r)
  calls.foldlM (fun sel e => e.apply here sel) sel

theorem apply_eq (here : Site) (sel : StreetSelector) (e : Edit) :
    e.apply here sel = match e.applied sel.edits with
      | none => ret sel
      | some edits => sel.edit here edits := by
  cases e with
  | removeRoads ids =>
    simp only [Edit.apply, StreetSelector.removeRoads, Edit.applied]
    split <;> rfl
  | restoreRoad id =>
    simp only [Edit.apply, StreetSelector.restoreRoad, Edit.applied]
    split <;> rfl
  | clearRemovedRoads =>
    simp only [Edit.apply, StreetSelector.clearRemovedRoads, Edit.applied]
    split <;> rfl
  | updateTags tags =>
    simp only [Edit.apply, StreetSelector.updateTags, Edit.applied]
    split <;> rfl
  | updateTrackGrades grades =>
    simp only [Edit.apply, StreetSelector.updateTrackGrades, Edit.applied]
    split <;> rfl
  | keepLargest => rfl
  | reset => rfl

/-- The edited file holds the network of the intent, as far as `look` shows it. -/
def HoldsNetwork (look : Feature → Feature) (w : World) (pod : ℕ) (edits : StreetEdits)
    (download : List Feature) : Prop :=
  ∃ doc kept, (w.disk pod).content (.street .edited) = some (.whole doc) ∧
    IsNetwork edits download kept ∧ doc.map look = kept.map look

/-- Some edit is not without effect. -/
def Effective (edits : StreetEdits) : List Edit → Prop
  | [] => False
  | e :: calls => e.applied edits ≠ none ∨ Effective (e.next edits) calls

/-- The job of the selector is PENDING, and the pod can get the download. -/
structure Editable (here : Site) (download : List Feature) (sel : StreetSelector) (w : World) :
    Prop where
  intent : sel.job.streetEdits.getD {} = sel.edits
  mirrors : Mirrors sel.job w
  pending : w.row.map Row.status = some .pending
  download : w.got here.pod (w.adopted here.pod sel.job.membershipUpload) = some (.whole download)

variable {here : Site} {look : Feature → Feature} {w w' : World} {sel : StreetSelector}
  {download : List Feature}

theorem edit_settles (hlook : ∀ f g, look f = look g → SameRoad f g)
    (hs : Sound false look (fun _ => False) w) (h : Editable here download sel w)
    (edits : StreetEdits) :
    Settles false look (fun _ => False) False (fun sel' w' => sel'.edits = edits ∧
      Editable here download sel' w' ∧ HoldsNetwork look w' here.pod edits download)
      (sel.edit here edits) w := by
  have hpending : (∀ r, w.row = some r → r.status ≠ .pending) → False := by
    intro hno
    obtain ⟨r, hr, hstatus⟩ := Option.map_eq_some_iff.1 h.pending
    exact hno r hr hstatus
  have hmissing : w.got here.pod (w.adopted here.pod sel.job.membershipUpload) = none → False := by
    intro hno
    cases h.download.symm.trans hno
  have hedited : Settles false look _ False _
    (StreetSelector.applyEdits here { sel with edits } true)
      w :=
    applyEdits_settles hlook hs hpending (hs.legible rfl (some here.pod)) hmissing
  apply hedited.bind
  rintro ⟨sel', any⟩ w' hs' happlied
  have hcontent : (w'.disk here.pod).content (.street .download) = some (.whole download) := by
    rw [happlied.download, happlied.named]
    exact h.download
  refine settles_ret hs' ⟨happlied.edits, ⟨?_, happlied.mirrors h.mirrors, ?_, ?_⟩, ?_⟩
  · rw [happlied.intent, happlied.edits]
    rfl
  · rw [happlied.status, h.pending]
  · rw [happlied.settled, happlied.apart.got_again happlied.download, ← happlied.download, hcontent]
  · obtain ⟨download', kept, hdownload', hkept, -, hvouched⟩ := happlied.vouched
    obtain rfl := Bytes.whole.inj (Option.some.inj (hcontent.symm.trans hdownload'))
    obtain ⟨doc, hdoc, kept', hnetwork, hbare⟩ := hs'.derived hvouched
    refine ⟨doc, kept', hdoc, derive_isNetwork ?_, hbare⟩
    have hderive := network_of_sum rfl hnetwork
    rwa [StreetSelector.source, happlied.edits] at hderive

theorem session_settles (hlook : ∀ f g, look f = look g → SameRoad f g)
    (hs : Sound false look (fun _ => False) w) (h : Editable here download sel w)
    (calls : List Edit) :
    Settles false look (fun _ => False) False (fun sel' w' =>
      sel'.edits = calls.foldl Edit.next sel.edits ∧ Editable here download sel' w' ∧
      (HoldsNetwork look w here.pod sel.edits download ∨ Effective sel.edits calls →
        HoldsNetwork look w' here.pod sel'.edits download))
      (calls.foldlM (fun sel e => e.apply here sel) sel) w := by
  induction calls generalizing sel w with
  | nil => exact settles_ret hs ⟨rfl, h, fun hor => hor.elim id False.elim⟩
  | cons e calls ih =>
    rw [List.foldlM_cons, apply_eq]
    rcases he : e.applied sel.edits with _ | edits
    · have hnext : e.next sel.edits = sel.edits := by
        rw [Edit.next, he]
        rfl
      refine (ih hs h).mono (fun _ _ _ h => h) ?_
      rintro sel' w' - ⟨hedits, heditable, hholds⟩
      refine ⟨by rw [List.foldl_cons, hnext, hedits], heditable, fun hor => hholds ?_⟩
      rcases hor with hor | hne | hor
      · exact .inl hor
      · exact absurd he hne
      · rw [hnext] at hor
        exact .inr hor
    · have hnext : e.next sel.edits = edits := by
        rw [Edit.next, he]
        rfl
      refine (edit_settles hlook hs h edits).bind ?_
      rintro sel₁ w₁ hs₁ ⟨rfl, heditable₁, hholds₁⟩
      refine (ih hs₁ heditable₁).mono (fun _ _ _ h => h) ?_
      rintro sel' w' - ⟨hedits, heditable, hholds⟩
      exact ⟨by rw [List.foldl_cons, hnext, hedits], heditable, fun _ => hholds (.inl hholds₁)⟩

/-- What a session leaves: its intent is in the row, the removed roads and keep-largest are what was
asked for last, and the edited file holds the network of the intent. -/
structure SessionMeans (here : Site) (download : List Feature) (calls : List Edit)
    (sel : StreetSelector) (w w' : World) : Prop where
  intent : sel.edits = intentAfter calls
  row : ∃ r, w'.row = some r ∧ r.intent = sel.edits
  nodup : sel.edits.removedRoads.Nodup
  removed : ∀ id, id ∈ sel.edits.removedRoads ↔
    Since (fun _ e => e.Removes id) (fun _ e => e.Restores id) calls
  keepLargest : sel.edits.keepLargest = true ↔
    Since (fun _ e => e = .keepLargest) (fun past e => e.Changes (intentAfter past)) calls
  /-- Tooltips aside; where no edit had an effect, the file is as it was. -/
  network : HoldsNetwork Feature.bare w here.pod {} download ∨ Effective {} calls →
    HoldsNetwork Feature.bare w' here.pod sel.edits download
  /-- Tooltips included, where no record or cache has any. -/
  exactNetwork : Sound false id (fun _ => False) w →
    HoldsNetwork id w here.pod {} download ∨ Effective {} calls →
    HoldsNetwork id w' here.pod sel.edits download
  undone : ∀ before ids restored, calls = before ++ .removeRoads ids :: restored.map .restoreRoad →
    restored.Perm (StreetSelector.newRemovals (intentAfter before).removedRoads ids) →
    restored ≠ [] → sel.edits = { intentAfter before with keepLargest := false }

theorem streetSession_settles (hlook : ∀ f g, look f = look g → SameRoad f g)
    (hs : Sound false look (fun _ => False) w) {r : Row} (hr : w.row = some r)
    (hpending : r.status = .pending)
    (hdefault : r.columns.streetEdits.getD (w.legacyIntent here.pod) = {})
    (hdownload : w.got here.pod (w.adopted here.pod r.columns.membershipUpload.backfill) =
      some (.whole download)) (calls : List Edit) :
    Settles false look (fun _ => False) False (fun sel w' => sel.edits = intentAfter calls ∧
      (∃ r', w'.row = some r' ∧ r'.intent = sel.edits) ∧
      (HoldsNetwork look w here.pod {} download ∨ Effective {} calls →
        HoldsNetwork look w' here.pod sel.edits download))
      (streetSession here r calls) w := by
  refine (new_settles hs fun hno => by rw [hr] at hno; cases hno).bind ?_
  intro sel w₁ hs₁ hnew
  have hedits : sel.edits = {} := hnew.intent.trans hdefault
  have hfetched : w₁.fetched here.pod = w.fetched here.pod :=
    hnew.apart.fetched (.inl (hnew.apart.content (by simp)))
  have heditable : Editable here download sel w₁ := by
    refine ⟨hnew.edits.symm, hnew.mirrors (mirrors_ofRow hr), ?_, ?_⟩
    · rw [hnew.status, hr, Option.map_some, hpending]
    · rw [hnew.upload, adopted_congr hfetched, hnew.apart.got (hnew.apart.content (by simp))]
      exact hdownload
  refine (session_settles hlook hs₁ heditable calls).mono (fun _ _ _ h => h) ?_
  rintro sel' w' - ⟨hedits', heditable', hholds⟩
  obtain ⟨r', hr', -, -, hrow⟩ := heditable'.mirrors
  rw [hedits] at hedits' hholds
  refine ⟨hedits', ⟨r', hr', ?_⟩, fun hor => hholds ?_⟩
  · rw [Row.intent, ← hrow, heditable'.intent]
  · apply hor.imp_left
    rintro ⟨doc, kept, hdoc, hkept⟩
    exact ⟨doc, kept, (hnew.apart.content (by simp)).trans hdoc, hkept⟩

/-- **A street-selection session means what it says**: any edits, applied from the default intent to
a PENDING job, return normally and leave the intent and the network they ask for. -/
theorem session_means {r : Row} {calls : List Edit} {res : Except Err StreetSelector}
    (h : Reached false w) (hr : w.row = some r) (hpending : r.status = .pending)
    (hdefault : r.columns.streetEdits.getD (w.legacyIntent here.pod) = {})
    (hdownload : w.got here.pod (w.adopted here.pod r.columns.membershipUpload.backfill) =
      some (.whole download))
    (hends : (streetSession here r calls).Ends (steady false) w res w') :
    ∃ sel, res = .ok sel ∧ SessionMeans here download calls sel w w' := by
  have hout := ((streetSession_settles sameRoad_of_bare h.sound_bare hr hpending hdefault hdownload
    calls).ends hends).2
  rcases res with e | sel
  · rcases hout with ⟨-, hfalse⟩ | hfalse
    · cases hfalse
    · exact hfalse.elim
  obtain ⟨hintent, hrow, hnetwork⟩ := hout
  obtain ⟨hnodup, hremoved⟩ := intentAfter_removed calls
  refine ⟨sel, rfl, hintent, hrow, hintent ▸ hnodup, fun id => hintent ▸ hremoved id,
    hintent ▸ intentAfter_keepLargest calls, hnetwork, fun hexact => ?_, ?_⟩
  · exact ((streetSession_settles (fun f g hfg => congrArg Feature.bare hfg) hexact hr hpending
      hdefault hdownload calls).ends hends).2.2.2
  · rintro before ids restored rfl hperm hne
    rw [hintent, intentAfter_undone before hperm hne]

omit [External]

/-- A road is removed and, after a keep-largest, restored. -/
theorem session_means_once :
    let _ := External.plain
    let run := (streetSession ⟨0, 0, none⟩ (rowNaming [residentialRoad])
      [.removeRoads [1], .keepLargest, .restoreRoad 1]).runWith (steady false)
      (steadyChoice false) []
      (worldStoring [residentialRoad])
    ∃ sel, run.1 = .ok sel ∧ SessionMeans ⟨0, 0, none⟩ [residentialRoad]
      [.removeRoads [1], .keepLargest, .restoreRoad 1] sel
      (worldStoring [residentialRoad]) run.2 := by
  intro _
  exact session_means (.start (worldStoring_origin [residentialRoad])) rfl rfl rfl rfl
    (ends_runWith (steadyChoice false) [] _ _)

end Cosmonaut
