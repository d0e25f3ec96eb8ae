import Cosmonaut.Street.MadeCurrent

/-!
# Crashes

A process may be terminated at any operation of a call of the street selector. What it leaves half
done is recomputed by a later `ensure_projected`, with one exception: a record file that was emptied
and not yet written again.

* `Recovers`: the later call returns normally and the files are current.
* `crash_recovered_iff`: a crash is recovered from exactly when the later call does not come across
  a half-written record file. A half-written derived file is never accepted.
* `torn_records_block`: a crash after which `ensure_projected` fails.
-/

namespace Cosmonaut

open Interleaving Program

variable [External]

/-- A later projection from the row returns normally, and leaves the files the row calls for. -/
def Recovers (here : Site) (w : World) (r : Row) : Prop :=
  ∀ res w', (makeProjected here r).Ends (steady false) w res w' →
    res = .ok () ∧ ∃ r', MadeCurrent here w w' r'

/-- What the freshness test accepts is a whole file with the content its source calls for. -/
def OnlyWholeAccepted (here : Site) (w : World) : Prop :=
  ∀ s source w', (StreetSelector.isCurrent here s source).Ends (steady false) w (.ok true) w' →
    ∃ doc, (w.disk here.pod).content (.street s) = some (.whole doc) ∧
      Derived Feature.bare source s doc

/-- No crash blocks a job's street files: from every state, and wherever the process is terminated
in a call. -/
def CrashesRecovered : Prop :=
  ∀ (here here' : Site) (c : StreetCall) (w₀ w : World) (r : Row), Reached true w₀ →
    (c.program here).Ends (steady true) w₀ (.error (.fault .killed)) w → here'.pod = here.pod →
    w.row = some r → Recovers here' w r ∧ OnlyWholeAccepted here' w

variable {crash : Bool} {look : Feature → Feature} {torn : Place → Prop} {w w' : World}
  {here here' : Site} {r : Row} {sel : StreetSelector}

/-! ## Half-written records -/

/-- The call does not return. -/
abbrev Fails {α : Type} (crash : Bool) (look : Feature → Feature) (torn : Place → Prop) (p : App α)
    (w : World) : Prop :=
  Settles crash look torn True (fun _ _ => False) p w

theorem Fails.bind {α β : Type} {p : App α} {f : α → App β} (h : Fails crash look torn p w) :
    Fails crash look torn (p >>= f) w :=
  Keeping.bind h fun _ _ _ hfalse => hfalse.elim

theorem records_fails (hs : Sound crash look torn w) (ht : RecordsTorn w here.pod) :
    Fails crash look torn (StreetSelector.records here) w := by
  refine (settles_fileExists hs _).bind ?_
  rintro exists' w' - ⟨rfl, rfl⟩
  have hexists : (w'.disk here.pod .derivedHashes).isSome = true := by
    rw [Option.isSome_iff_ne_none]
    exact ne_none_of_content ht
  rw [if_pos hexists]
  refine (settles_readFile hs _ fun _ => trivial).bind ?_
  rintro b w'' - ⟨rfl, hb⟩
  rw [ht, Option.some.injEq] at hb
  subst hb
  exact settles_raise hs trivial

theorem isCurrent_fails (hs : Sound crash look torn w) (ht : RecordsTorn w here.pod)
    {s : StreetFile}
    (hfile : w.disk here.pod (.street s) ≠ none) (source : Source) :
    Fails crash look torn (StreetSelector.isCurrent here s source) w := by
  refine (settles_fileExists hs _).bind ?_
  rintro exists' w' - ⟨rfl, rfl⟩
  rw [if_pos (Option.isSome_iff_ne_none.2 hfile)]
  exact (records_fails hs ht).bind

theorem deriveFiles_fails (hs : Sound crash look torn w) (ht : RecordsTorn w here.pod)
    (sha256 : Option Sha256) (defer : Bool) :
    Fails crash look torn (sel.deriveFiles here sha256 defer) w := by
  refine (cachedLoad_settles hs rfl (fun _ => trivial) fun _ => trivial).bind ?_
  rintro refs w₁ hs₁ ⟨h₁, -⟩
  refine (settles_getFeatures hs₁ refs).bind ?_
  rintro features w₂ - ⟨rfl, rfl⟩
  split
  · exact settles_raise hs₁ trivial
  · refine Fails.bind (Fails.bind (records_fails hs₁ ?_))
    exact (h₁.content (by simp)).trans ht

/-- **A half-written record file makes the refresh fail** where the refresh looks at it. -/
theorem refresh_fails (hs : Sound crash look torn w) (ht : RecordsTorn w here.pod)
    (hneeds : NeedsRecords w here.pod sel.job.membershipUpload) :
    Fails crash look torn (sel.refresh here) w := by
  refine (downloadSha256_settles hs fun _ => trivial).bind ?_
  rintro sel' m hsm ⟨hedits, hadopted⟩
  obtain ⟨hnamed, hlooks⟩ := hadopted.needsRecords.1 hneeds
  have htm : RecordsTorn m here.pod := (hadopted.apart.content (by simp)).trans ht
  split
  · rename_i hnone
    exact absurd hnone hnamed
  · rename_i k hk
    by_cases hedited : m.disk here.pod (.street .edited) = none
    · -- without an edited file the download is got, and the derivation comes across the records
      have hgot : w.fetched here.pod ≠ none := by
        refine hlooks.resolve_left fun hne => hne ?_
        rw [← hadopted.apart.disk _ (by simp), hedited]
      refine (isCurrent_settles hsm _ fun _ _ => trivial).bind ?_
      rintro current w₁ hs₁ ⟨h₁, hcurrent⟩
      split
      · rename_i htrue
        exact absurd htm (hcurrent.1 htrue).not_torn
      · refine (pullDownloadIfOther_settles hs₁ fun _ => trivial).bind ?_
        rintro ⟨sel'', localSha256⟩ w₂ hs₂ ⟨-, m₂, hadopted₂, h₂, hlocal, hcontent⟩
        dsimp only at hadopted₂ hlocal hcontent
        have ht₂ : RecordsTorn w₂ here.pod :=
          (h₂.content (by simp)).trans ((hadopted₂.apart.content (by simp)).trans
            ((h₁.content (by simp)).trans htm))
        have hgot₁ : (w₂.disk here.pod).content (.street .download) ≠ none := by
          rw [hcontent, (hadopted₂.eq_of_named hnamed).1]
          apply mt (got_eq_none hnamed).1
          rwa [h₁.toApart.fetched (.inl (h₁.content (by simp))), hadopted.fetched]
        dsimp only
        rcases localSha256 with _ | h
        · exact absurd (by simpa using hlocal.symm) hgot₁
        · exact (deriveFiles_fails hs₂ ht₂ _ _).bind
    · exact (isCurrent_fails hsm htm hedited _).bind

theorem makeProjected_fails (hs : Sound crash look torn w) (ht : RecordsTorn w here.pod)
    (hneeds : NeedsRecords w here.pod r.columns.membershipUpload.backfill) :
    Fails crash look torn (makeProjected here r) w := by
  refine (new_settles hs fun _ => trivial).bind ?_
  intro sel w₁ hs₁ hnew
  exact (refresh_fails hs₁ ((hnew.apart.content (by simp)).trans ht)
    (hnew.needsRecords.2 hneeds)).bind

/-! ## Recovery -/

/-- **A crash is recovered from exactly when the later call comes across no half-written record
file.** No half-written file is ever accepted. -/
theorem crash_recovered_iff {w₀ : World} {c : StreetCall} (h : Reached true w₀)
    (hcrash : (c.program here).Ends (steady true) w₀ (.error (.fault .killed)) w)
    (hr : w.row = some r) :
    Recovers here' w r ∧ OnlyWholeAccepted here' w ↔
      ¬(RecordsTorn w here'.pod ∧
        NeedsRecords w here'.pod r.columns.membershipUpload.backfill) := by
  have hsound : Sound true Feature.bare (fun _ => False) w := (h.call here c hcrash).sound_bare
  -- the later call runs where nothing fails, and a record file may be torn already
  have hs : Sound false Feature.bare (fun _ => True) w :=
    ⟨hsound.records, hsound.checksums, hsound.features, fun _ _ _ => trivial, hsound.whole⟩
  constructor
  · rintro ⟨hrecovers, -⟩ ⟨ht, hneeds⟩
    obtain ⟨res, w', hends⟩ := exists_ends (M := steady false) (makeProjected here' r) w
    obtain ⟨rfl, -⟩ := hrecovers res w' hends
    exact ((makeProjected_fails hs ht hneeds).ends hends).2
  · intro hclear
    refine ⟨fun res w' hends => ?_, fun s source w' hends => ?_⟩
    · have hsettles : Settles false Feature.bare (fun _ => True) False
          (fun _ w' => ∃ r', MadeCurrent here' w w' r') (makeProjected here' r) w :=
        makeProjected_settles hs hr fun ht hneeds => hclear ⟨ht, hneeds⟩
      have hout := (hsettles.ends hends).2
      cases res with
      | ok a => exact ⟨rfl, hout⟩
      | error e =>
        rcases hout with ⟨-, hfalse⟩ | hfalse
        · cases hfalse
        · exact hfalse.elim
    · have hcurrent : Settles false Feature.bare (fun _ => True) True
          (fun a w' => Only here' [] w w' ∧ (a = true ↔ Vouched w here'.pod s source))
          (StreetSelector.isCurrent here' s source) w :=
        isCurrent_settles hs source fun _ _ => trivial
      exact hs.derived ((hcurrent.ends hends).2.2.1 rfl)

omit [External]

/-! ## A crash that is not recovered from -/

/-- The first projection of a job whose row names the stored download. -/
def firstProjection : StreetCall :=
  let _ := External.plain
  .ensureProjected ⟨.ofRow (rowNaming [residentialRoad]), {}⟩

/-- The state in which the process leaves the job when it is terminated at the operation after the
first `n`. -/
def crashedAfter (n : ℕ) : Except Err Unit × World :=
  let _ := External.plain
  (firstProjection.program ⟨0, 0, none⟩).runWith (steady true) (steadyChoice true)
    (List.replicate n (steadyChoice true) ++ [⟨{ fault := some .killed }, .inr ⟨rfl, rfl⟩⟩])
    (worldStoring [residentialRoad])

theorem crashedAfter_ends {n : ℕ} (hkilled : (crashedAfter n).1 = .error (.fault .killed)) :
    let _ := External.plain
    (firstProjection.program ⟨0, 0, none⟩).Ends (steady true) (worldStoring [residentialRoad])
      (.error (.fault .killed)) (crashedAfter n).2 := by
  intro _
  rw [← hkilled]
  exact ends_runWith ..

/-- A crash between emptying and writing the edited file is recovered from. -/
theorem crash_recovered_once :
    let _ := External.plain
    Recovers ⟨0, 1, none⟩ (crashedAfter 16).2 (rowNaming [residentialRoad]) := by
  intro _
  refine ((crash_recovered_iff (.start (worldStoring_origin [residentialRoad]))
    (crashedAfter_ends (by decide +kernel)) (by decide +kernel)).2 ?_).1
  rintro ⟨ht, -⟩
  have hclear : (crashedAfter 16).2.disk 0 .derivedHashes = none := by decide +kernel
  rw [RecordsTorn, Files.content, hclear] at ht
  cases ht

/-- **A crash can block a job's street files**: the record file is left empty, and no later call can
read it. -/
theorem torn_records_block : ¬ @CrashesRecovered External.plain := by
  intro h
  let _ := External.plain
  obtain ⟨hrecovers, -⟩ := h ⟨0, 0, none⟩ ⟨0, 1, none⟩ firstProjection
    (worldStoring [residentialRoad]) (crashedAfter 25).2 (rowNaming [residentialRoad])
    (.start (worldStoring_origin [residentialRoad])) (crashedAfter_ends (by decide +kernel)) rfl
    (by decide +kernel)
  obtain ⟨hok, -⟩ := hrecovers _ _ (ends_runWith (steadyChoice false) [] _ _)
  have herr : ((makeProjected ⟨0, 1, none⟩ (rowNaming [residentialRoad])).runWith (steady false)
      (steadyChoice false) [] (crashedAfter 25).2).1 = .error .decode := by
    rfl
  rw [herr] at hok
  cases hok

end Cosmonaut
