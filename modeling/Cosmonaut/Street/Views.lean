import Cosmonaut.Street.Sparing
import Cosmonaut.Street.Session

/-!
# Looking at the map

The calls of the street selector in one process share feature objects, to which a view of the map
adds tooltips. An edit after a view writes them into the network.

* `StreetCall.Unviewed`: the call writes no object that a view has marked.
* `ProcessRun`: the worlds that the calls of one process lead to.
* `views_harmless_when`: the derived files are exact in every run of calls that are `Unviewed`.
* `edit_after_view`: an edit, a view and another edit, after which they are not.
-/

namespace Cosmonaut

open Interleaving Program

variable [External] {crash : Bool} {torn : Place → Prop} {w w' : World} {here : Site}
  {sel : StreetSelector}

/-! ## Calls -/

/-- The source that the row calls for, once a stored download without a name is adopted. -/
def StreetSelector.currentSource (sel : StreetSelector) (w : World) (pod : ℕ) : Source :=
  sel.source (w.adopted pod sel.job.membershipUpload)

/-- If a refresh derives the edited network, then from objects without tooltips. -/
def RefreshUnviewed (here : Site) (sel : StreetSelector) (w : World) : Prop :=
  w.adopted here.pod sel.job.membershipUpload ≠ none →
    ¬Vouched w here.pod .edited (sel.currentSource w here.pod) →
    DownloadUnviewed here sel.edits sel.job.membershipUpload w

/-- The call writes no object that a view of the map has marked: an edit or a refresh that derives
the network keeps none, and a projection of a current network finds none in it. -/
def StreetCall.Unviewed (here : Site) (c : StreetCall) (w : World) : Prop :=
  match c with
  | .edit sel e => ∀ edits, e.applied sel.edits = some edits →
    w.row.map Row.status = some .pending →
    DownloadUnviewed here edits sel.job.membershipUpload w
  | .refresh sel | .viewportFc sel | .initialFc sel => RefreshUnviewed here sel w
  | .ensureProjected sel => RefreshUnviewed here sel w ∧
    (Vouched w here.pod .edited (sel.currentSource w here.pod) →
      ¬Vouched w here.pod .transformed (sel.currentSource w here.pod) → EditedUnviewed here w)
  | .new _ | .visibleFc | .getRemovedRoadsInfo _ | .fileSha256 _ => True

theorem ensureProjected_spares (hs : Sound crash Feature.bare torn w) (hw : Untouched here.pod w)
    (h : StreetCall.Unviewed here (.ensureProjected sel) w) :
    Spares crash torn here (fun _ _ => True) (sel.ensureProjected here) w := by
  obtain ⟨hrefresh, hproject⟩ := h
  refine (refresh_spares hs hw hrefresh).bind ?_
  rintro ⟨sel', current⟩ w₁ ⟨hs₁, hw₁⟩ hspared
  dsimp only
  split
  · rename_i htrue
    obtain ⟨h, hvouched, hcases⟩ := hspared.current htrue
    obtain ⟨doc, hdoc, hrec⟩ := id hvouched
    refine ((records_settles hs₁
      fun _ => trivial).spares_looking lookMenu_looks.records hw₁).bind ?_
    rintro records w₂ - ⟨⟨rfl, rfl⟩, -⟩
    rw [hrec]
    dsimp only
    refine ((isCurrent_settles hs₁ _ fun _ _ => trivial).spares_looking
      (lookMenu_looks.isCurrent _ _) hw₁).bind ?_
    rintro projected w₃ ⟨hs₃, hw₃⟩ ⟨⟨h₃, hprojected⟩, hlists₃⟩
    split
    · exact spares_ret hs₃ hw₃ trivial
    rename_i hfalse
    have hunviewed : EditedUnviewed here w₃ := by
      refine EditedUnviewed.of_lists ?_ hlists₃ (h₃.content (by simp))
      rcases hcases with hderived | ⟨rfl, hbefore, hiff, hcarried⟩
      · exact hderived
      · exact hcarried (hproject hbefore fun ht => hfalse (hprojected.2 (hiff.2 ht)))
    obtain ⟨doc', hdoc', hexact⟩ :=
      hw₃.vouched (hvouched.of_apart h₃.toApart (by simp) (by simp))
    refine ((cachedLoad_settles hs₃ rfl (fun _ => trivial) fun _ => trivial).spares
      (cachedLoad_calls _ _) hw₃).bind ?_
    rintro refs w₄ ⟨hs₄, hw₄⟩ ⟨h₄, doc'', hdoc'', hshows, hobjects⟩
    obtain rfl : doc' = doc'' := Bytes.whole.inj (Option.some.inj (hdoc'.symm.trans hdoc''))
    obtain ⟨hvalid, hroads⟩ := hshows.objects
    have hplain : Plain (objects (w₄.memoryOf here).heap refs) := by
      rcases hobjects with ⟨mtime, hcached, hmtime, rfl⟩ | hnew
      · exact hunviewed mtime refs hcached (hdoc'.trans (congrArg some hmtime.symm))
      · rw [hnew]
        exact hexact.plain
    exact project_spares hs₄ hw₄ hspared.epsg.symm hvalid (hplain.eq hexact.plain hroads) hexact
  · exact spares_ret hs₁ hw₁ trivial

theorem applyEdits_spares (hs : Sound crash Feature.bare torn w) (hw : Untouched here.pod w)
    (defer : Bool) (hunviewed : w.row.map Row.status = some .pending →
      DownloadUnviewed here sel.edits sel.job.membershipUpload w) :
    Spares crash torn here (fun _ _ => True) (sel.applyEdits here defer) w := by
  refine ((settles_updateInput hs _).spares_looking (calls_ask ⟨fun _ => trivial, rfl⟩) hw).bind ?_
  rintro accepted w₁ ⟨hs₁, hw₁⟩ ⟨⟨rfl, r, hr, hstatus, rfl⟩ | ⟨rfl, rfl, -⟩, -⟩
  · refine ((pullDownloadIfOther_settles hs₁ fun _ => trivial).spares_looking
      (lookMenu_looks.pullDownloadIfOther adoptsDownload_looks _) hw₁).bind ?_
    rintro ⟨sel', localSha256⟩ w₂ ⟨hs₂, hw₂⟩ ⟨⟨hedits, m, hadopted, h₂, hlocal, hcontent⟩, hlists⟩
    dsimp only at hedits hadopted hlocal hcontent ⊢
    have hgot : (w₂.disk here.pod).content (.street .download) =
        w.got here.pod (w.adopted here.pod sel.job.membershipUpload) := by
      rw [hcontent, hadopted.named]
      rfl
    refine (deriveFiles_spares hs₂ hw₂ (fun mtime refs kept hcached hc hkept => ?_)
      fun download hdownload => ?_).bind ?_
    · obtain ⟨hfeatures, hheap⟩ := of_lists_eq hlists
      rw [hfeatures] at hcached
      rw [hheap, hedits] at hkept
      exact hunviewed (by rw [hr, Option.map_some, hstatus]) mtime refs kept hcached
        (hgot.symm.trans hc) hkept
    · rw [hlocal, hdownload]
      rfl
    · rintro any w₃ ⟨hs₃, hw₃⟩ -
      exact spares_ret hs₃ hw₃ trivial
  · exact spares_raise hs₁ hw₁

theorem visibleFc_spares (hs : Sound crash Feature.bare torn w) (hw : Untouched here.pod w) :
    Spares crash torn here (fun _ _ => True) (StreetSelector.visibleFc here) w :=
  (visibleFc_keepsSound Feature.bare_withTooltip hs).spares
    (.bind (cachedLoad_calls _ _) fun _ => calls_ask fun _ => trivial) hw

theorem viewportFc_spares (hs : Sound crash Feature.bare torn w) (hw : Untouched here.pod w)
    (h : RefreshUnviewed here sel w) :
    Spares crash torn here (fun _ _ => True) (sel.viewportFc here) w := by
  refine (refresh_spares hs hw h).bind ?_
  rintro r w₁ ⟨hs₁, hw₁⟩ -
  split
  · exact visibleFc_spares hs₁ hw₁
  · exact spares_ret hs₁ hw₁ trivial

theorem Spares.void {α : Type} {F : α → World → Prop} {p : App α}
    (h : Spares crash torn here F p w) :
    Spares crash torn here (fun _ _ => True) (do let _ ← p) w :=
  h.bind fun _ _ hI _ => spares_ret hI.1 hI.2 trivial

/-- **A call that writes no marked object keeps the files exact**, however it ends. -/
theorem StreetCall.spares (c : StreetCall) (hs : Sound crash Feature.bare torn w)
    (hw : Untouched here.pod w) (h : c.Unviewed here w) :
    Spares crash torn here (fun _ _ => True) (c.program here) w := by
  cases c with
  | new job =>
    refine ((new_settles hs fun _ => trivial).spares ?_ hw).void
    refine .bind (calls_ite (fun _ => calls_ret _) fun _ => ?_) fun _ => calls_ret _
    refine .bind (calls_ask fun _ => trivial) fun _ => calls_ite (fun _ => ?_) fun _ => calls_ret _
    refine .bind (.bind (calls_ask fun _ => trivial) fun b => calls_decode b) fun edits => ?_
    exact .bind (calls_ask fun _ => trivial) fun _ => .bind (calls_ask fun _ => trivial)
      fun _ => calls_ret _
  | edit sel e =>
    rw [StreetCall.program, apply_eq]
    rcases he : e.applied sel.edits with _ | edits
    · exact spares_ret hs hw trivial
    · have hedit : Spares crash torn here (fun _ _ => True) (sel.edit here edits) w :=
        (applyEdits_spares hs hw true (h edits he)).bind fun _ _ hI _ =>
          spares_ret hI.1 hI.2 trivial
      exact hedit.void
  | refresh sel => exact (refresh_spares hs hw h).void
  | ensureProjected sel => exact ensureProjected_spares hs hw h
  | visibleFc => exact visibleFc_spares hs hw
  | viewportFc sel => exact viewportFc_spares hs hw h
  | initialFc sel => exact viewportFc_spares hs hw h
  | getRemovedRoadsInfo sel =>
    refine ((getRemovedRoadsInfo_keepsSound hs).spares ?_ hw).void
    refine calls_ite (fun _ => calls_ret _) fun _ => .bind (calls_ask fun _ => trivial) fun _ =>
      calls_ite (fun _ => ?_) fun _ => calls_ret _
    exact .bind (cachedLoad_calls _ _) fun _ => .bind (calls_ask fun _ => trivial)
      fun _ => calls_ret _
  | fileSha256 s =>
    exact ((fileSha256_settles hs fun _ => trivial).spares
      ((lookMenu_looks.fileSha256 s).mono fun _ h => h.1) hw).void

/-! ## Runs of one process -/

/-- The worlds that calls of one process lead to, each made in a world of which `ok` holds. A call
may be cut off at any operation, so these are also the worlds in the middle of a call. -/
inductive ProcessRun (here : Site) (ok : StreetCall → World → Prop) : World → Prop
  | start {w : World} : Reached true w → Untouched here.pod w → ProcessRun here ok w
  | call {w w' : World} {r : Except Err Unit} (c : StreetCall) : ProcessRun here ok w → ok c w →
      (c.program here).Ends (steady true) w r w' → ProcessRun here ok w'

theorem ProcessRun.sound {ok : StreetCall → World → Prop} (h : ProcessRun here ok w) :
    Sound true Feature.bare (fun _ => False) w := by
  induction h with
  | start h => exact h.sound_bare
  | call c _ _ hends ih =>
    exact ((c.settles sameRoad_of_bare Feature.bare_withTooltip ih).ends hends).1

theorem ProcessRun.untouched (h : ProcessRun here (StreetCall.Unviewed here) w) :
    Untouched here.pod w := by
  induction h with
  | start _ hw => exact hw
  | call c hrun hc hends ih => exact ((c.spares hrun.sound ih hc).ends hends).1.2

omit [External]

/-! ## An edit after a view -/

end Cosmonaut
