import Cosmonaut.Street.Derive

/-!
# Making the derived files current

The functions of the street selector that also read the row or adopt something into it, when nothing
disturbs them.

* `Adopted`: what the adoption of a stored download does.
* `refresh_settles`, `ensureProjected_settles`: the derived files are vouched for afterwards.
* `applyEdits_settles`: an accepted edit is in the row and in the edited network.
-/

namespace Cosmonaut

open Interleaving Program

/-- The job is what a loaded job object holds of the row, as far as the street network goes. -/
def Mirrors (job : JobModel) (w : World) : Prop :=
  ∃ r, w.row = some r ∧ job.membershipUpload = r.columns.membershipUpload.backfill ∧
    job.epsg = r.columns.epsg ∧ job.streetEdits = r.columns.streetEdits

/-- The download on the pod once it has pulled it: the stored one, or its own if none is stored. -/
def World.fetched (w : World) (pod : ℕ) : Option (Bytes (List Feature)) :=
  (w.stored.content (.street .download)).or ((w.disk pod).content (.street .download))

/-- The checksum of the download the job names. -/
abbrev JobModel.named (job : JobModel) : Option Sha256 := job.membershipUpload.downloadSha256

/-- The checksum of what a download holds. -/
abbrev downloadSum : Option (Bytes (List Feature)) → Option Sha256 :=
  Option.map (StreetFile.sha256 .download)

/-- The download the pod works with when the job names one: its own if that is the one, and else
what it gets from storage. -/
def World.got (w : World) (pod : ℕ) (named : Option Sha256) : Option (Bytes (List Feature)) :=
  if downloadSum ((w.disk pod).content (.street .download)) = named then
    (w.disk pod).content (.street .download)
  else w.fetched pod

/-- The checksum the job names once a stored download without a name is adopted. -/
def World.adopted (w : World) (pod : ℕ) (upload : MembershipUpload) : Option Sha256 :=
  if upload.downloadSha256 ≠ none ∨ upload.streetProcessing ≠ .completed then upload.downloadSha256
  else downloadSum (w.fetched pod)

variable {here : Site} {w w' w'' : World} {job job' : JobModel} {sel : StreetSelector}

theorem adopted_congr {pod : ℕ} (h : w'.fetched pod = w.fetched pod) (upload : MembershipUpload) :
    w'.adopted pod upload = w.adopted pod upload := by
  rw [World.adopted, h, World.adopted]

theorem downloadSum_injective : Function.Injective downloadSum :=
  Option.map_injective (StreetFile.sha256_injective .download)

theorem got_eq_none {pod : ℕ} {named : Option Sha256} (hnamed : named ≠ none) :
    w.got pod named = none ↔ w.fetched pod = none := by
  unfold World.got
  split
  · rename_i hsum
    have hlocal : (w.disk pod).content (.street .download) ≠ none := by
      intro hnone
      rw [hnone] at hsum
      exact hnamed hsum.symm
    refine ⟨fun h => absurd h hlocal, fun h => ?_⟩
    exact absurd (Option.or_eq_none_iff.1 h).2 hlocal
  · rfl

theorem Mirrors.of_row (h : Mirrors job w) (hrow : w'.row = w.row) : Mirrors job w' := by
  obtain ⟨r, hr, h⟩ := h
  exact ⟨r, hrow.trans hr, h⟩

theorem mirrors_ofRow [External] {r : Row} (h : w.row = some r) : Mirrors (.ofRow r) w :=
  ⟨r, h, rfl, rfl, rfl⟩

theorem Apart.storedContent {fs : List FileName} (h : Apart here fs w w') :
    w'.stored.content (.street .download) = w.stored.content (.street .download) := by
  rw [Files.content, h.stored _ (by simp), Files.content]

/-- Pulling twice brings nothing else. -/
theorem Apart.fetched {fs : List FileName} (h : Apart here fs w w')
    (hcontent : (w'.disk here.pod).content (.street .download) =
        (w.disk here.pod).content (.street .download) ∨
      (w'.disk here.pod).content (.street .download) = w.fetched here.pod) :
    w'.fetched here.pod = w.fetched here.pod := by
  unfold World.fetched
  rw [h.storedContent]
  rcases hcontent with hc | hc
  · rw [hc]
  · rw [hc, World.fetched]
    cases w.stored.content (.street .download) <;> rfl

theorem Apart.got {fs : List FileName} (h : Apart here fs w w')
    (hcontent : (w'.disk here.pod).content (.street .download) =
      (w.disk here.pod).content (.street .download)) (named : Option Sha256) :
    w'.got here.pod named = w.got here.pod named := by
  rw [World.got, hcontent, h.fetched (.inl hcontent), World.got]

theorem content_pulled (w : World) (pod : ℕ) (fs : FileName → Bool) (time : FileName → ℕ)
    (hf : fs (.street .download) = true) :
    ((w.pulled pod fs time).disk pod).content (.street .download) = w.fetched pod := by
  rw [World.pulled, setDisk_disk_self, Files.content_pull hf, World.fetched]

variable (here) in
theorem only_pulled (w : World) (time : FileName → ℕ) :
    Only here [.street .download] w
      (w.pulled here.pod (fun g => g = .street .download) time) :=
  only_setDisk fun f hf => pull_other (by simpa using hf)

/-- What the adoption of the stored download does: nothing where the job names one or the road
network is not complete, and else it pulls the download and names it. -/
structure Adopted (here : Site) (job job' : JobModel) (w w' : World) : Prop where
  apart : Apart here [.street .download] w w'
  edits : job'.streetEdits = job.streetEdits
  epsg : job'.epsg = job.epsg
  mirrors : Mirrors job w → Mirrors job' w'
  status : w'.row.map Row.status = w.row.map Row.status
  cases : (Only here [] w w' ∧ job' = job ∧
      (job.named ≠ none ∨ job.membershipUpload.streetProcessing ≠ .completed)) ∨
    job.named = none ∧ job.membershipUpload.streetProcessing = .completed ∧
      (w'.disk here.pod).content (.street .download) = w.fetched here.pod ∧
      job'.named = downloadSum (w.fetched here.pod)

variable [External] {crash : Bool} {look : Feature → Feature} {torn : Place → Prop} {err : Prop}

theorem adoptStoredDownload_settles (hs : Sound crash look torn w) (hrow : w.row = none → err) :
    Settles crash look torn err (fun job' w' => Adopted here job job' w w')
      (adoptStoredDownload here job) w := by
  unfold adoptStoredDownload
  split
  · rename_i hnamed
    exact settles_ret hs ⟨.refl _ _ _, rfl, rfl, id, rfl, .inl ⟨.refl _ _ _, rfl, hnamed⟩⟩
  · rename_i hnamed
    have hnone : job.named = none := by simpa using (not_or.1 hnamed).1
    have hcompleted : job.membershipUpload.streetProcessing = .completed := by
      simpa using (not_or.1 hnamed).2
    refine (settles_pullDownload hs).bind ?_
    rintro - w₁ hs₁ ⟨time, rfl⟩
    have h₁ := only_pulled here w time
    have hcontent := content_pulled w here.pod (fun g => g = .street .download) time (by simp)
    generalize w.pulled here.pod _ time = w₁ at hs₁ h₁ hcontent
    refine (settles_fileExists hs₁ _).bind ?_
    rintro exists' w₂ - ⟨rfl, rfl⟩
    split
    · rename_i hexists
      refine (fileSha256_settles hs₁ fun hno => by simp [hno] at hexists).bind ?_
      rintro checksum w₃ hs₃ ⟨h₃, b, hb, rfl⟩
      have h₁₃ : Only here [.street .download] w w₃ := h₁.trans (h₃.mono (by simp))
      refine (settles_updateColumns hs₃ _ fun hno => hrow (h₁₃.row ▸ hno)).bind ?_
      rintro - w₄ hs₄ ⟨r, hr, rfl⟩
      have hfetched : w.fetched here.pod = some b := hcontent.symm.trans hb
      refine settles_ret hs₄ ⟨⟨h₁₃.stored, h₁₃.disk, h₁₃.heap⟩, rfl, rfl, ?_, ?_,
        .inr ⟨hnone, hcompleted, ?_, ?_⟩⟩
      · rintro ⟨r', hr', -, hepsg, hedits⟩
        have hrr : r' = r := Option.some.inj (hr'.symm.trans (h₁₃.row.symm.trans hr))
        subst hrr
        exact ⟨_, rfl, rfl, hepsg, hedits⟩
      · rw [← h₁₃.row, hr]
        rfl
      · exact (h₃.content (by simp)).trans hcontent
      · rw [hfetched]
        rfl
    · rename_i hexists
      have hno : w₂.disk here.pod (.street .download) = none := by simpa using hexists
      have hfetched : w.fetched here.pod = none := by
        rw [← hcontent, Files.content, hno]
        rfl
      refine settles_ret hs₁ ⟨h₁.toApart, rfl, rfl, fun h => h.of_row h₁.row, by rw [h₁.row],
        .inr ⟨hnone, hcompleted, hcontent, ?_⟩⟩
      rw [hfetched, hnone]
      rfl

theorem downloadSha256_settles (hs : Sound crash look torn w) (hrow : w.row = none → err) :
    Settles crash look torn err
      (fun sel' w' => sel'.edits = sel.edits ∧ Adopted here sel.job sel'.job w w')
      (sel.downloadSha256 here) w := by
  refine (adoptStoredDownload_settles hs hrow).bind ?_
  intro job' w' hs' h
  exact settles_ret hs' ⟨rfl, h⟩

theorem localDownloadSha256_settles (hs : Sound crash look torn w) :
    Settles crash look torn err (fun a w' => Only here [] w w' ∧
      a = downloadSum ((w.disk here.pod).content (.street .download)))
      (StreetSelector.localDownloadSha256 here) w := by
  refine (settles_fileExists hs _).bind ?_
  rintro exists' w' - ⟨rfl, rfl⟩
  split
  · rename_i hexists
    refine (fileSha256_settles hs fun hno => by simp [hno] at hexists).bind ?_
    rintro checksum w' hs' ⟨h', b, hb, rfl⟩
    exact settles_ret hs' ⟨h', by rw [hb]; rfl⟩
  · rename_i hexists
    have hno : w'.disk here.pod (.street .download) = none := by simpa using hexists
    refine settles_ret hs ⟨.refl _ _ _, ?_⟩
    rw [Files.content, hno]
    rfl

omit [External] in
theorem Adopted.fetched (h : Adopted here job job' w w') :
    w'.fetched here.pod = w.fetched here.pod := by
  apply h.apart.fetched
  rcases h.cases with ⟨honly, -⟩ | ⟨-, -, hcontent, -⟩
  · exact .inl (honly.content (by simp))
  · exact .inr hcontent

omit [External] in
theorem Apart.fetched_of_got {fs : List FileName} (h : Apart here fs w w') {named : Option Sha256}
    (hcontent : (w'.disk here.pod).content (.street .download) = w.got here.pod named) :
    w'.fetched here.pod = w.fetched here.pod := by
  apply h.fetched
  rw [hcontent, World.got]
  split
  · exact .inl rfl
  · exact .inr rfl

omit [External] in
/-- Where the pod has got its download, it gets it again. -/
theorem Apart.got_again {fs : List FileName} (h : Apart here fs w w') {named : Option Sha256}
    (hcontent : (w'.disk here.pod).content (.street .download) = w.got here.pod named) :
    w'.got here.pod named = w.got here.pod named := by
  rw [World.got, hcontent, h.fetched_of_got hcontent]
  split
  · rfl
  · rename_i hother
    rw [World.got]
    split
    · rename_i hsum
      rw [World.got, if_pos hsum] at hother
      exact absurd hsum hother
    · rfl

omit [External] in
/-- The adoption does not change which download the pod works with. -/
theorem Adopted.got (h : Adopted here job job' w w') :
    w'.got here.pod job'.named = w.got here.pod job'.named := by
  unfold World.got
  rw [h.fetched]
  rcases h.cases with ⟨honly, -⟩ | ⟨-, -, hcontent, hnamed⟩
  · rw [honly.content (by simp)]
  · rw [hcontent, hnamed, if_pos rfl]
    split
    · rename_i hsum
      exact (downloadSum_injective hsum).symm
    · rfl

/-- **The pod's download is then the one the row names, or the one it can get.** -/
theorem pullDownloadIfOther_settles (hs : Sound crash look torn w) (hrow : w.row = none → err) :
    Settles crash look torn err (fun r w' => r.1.edits = sel.edits ∧
      ∃ m, Adopted here sel.job r.1.job w m ∧ Only here [.street .download] m w' ∧
        r.2 = downloadSum ((w'.disk here.pod).content (.street .download)) ∧
        (w'.disk here.pod).content (.street .download) = w.got here.pod r.1.job.named)
      (sel.pullDownloadIfOther here) w := by
  refine (localDownloadSha256_settles hs).bind ?_
  rintro localSha256 w₁ hs₁ ⟨h₁, rfl⟩
  refine (downloadSha256_settles hs₁ fun hno => hrow (h₁.row ▸ hno)).bind ?_
  rintro sel' w₂ hs₂ ⟨hedits, h₂⟩
  have hfetched₁ : w₁.fetched here.pod = w.fetched here.pod :=
    h₁.toApart.fetched (.inl (h₁.content (by simp)))
  have hadopted : Adopted here sel.job sel'.job w w₂ := by
    refine ⟨(h₁.mono (by simp)).toApart.trans h₂.apart, h₂.edits, h₂.epsg,
      fun hm => h₂.mirrors (hm.of_row h₁.row), by rw [h₂.status, h₁.row], ?_⟩
    rcases h₂.cases with ⟨honly, h⟩ | ⟨hnone, hcompleted, hcontent, hnamed⟩
    · exact .inl ⟨h₁.trans honly, h⟩
    · exact .inr ⟨hnone, hcompleted, by rw [hcontent, hfetched₁], by rw [hnamed, hfetched₁]⟩
  split
  · rename_i hother
    refine (settles_pullDownload hs₂).bind ?_
    rintro - w₃ hs₃ ⟨time, rfl⟩
    have h₃ := only_pulled here w₂ time
    have hcontent := content_pulled w₂ here.pod (fun g => g = .street .download) time (by simp)
    generalize w₂.pulled here.pod _ time = w₃ at hs₃ h₃ hcontent
    refine (localDownloadSha256_settles hs₃).bind ?_
    rintro localSha256 w₄ hs₄ ⟨h₄, rfl⟩
    have hcontent₄ := h₄.content (f := .street .download) (by simp)
    refine settles_ret hs₄ ⟨hedits, w₂, hadopted, h₃.trans (h₄.mono (by simp)), by rw [hcontent₄],
      ?_⟩
    rw [hcontent₄, hcontent, hadopted.fetched, World.got, if_neg hother]
  · rename_i hsame
    refine (localDownloadSha256_settles hs₂).bind ?_
    rintro localSha256 w₄ hs₄ ⟨h₄, rfl⟩
    have hcontent₄ := h₄.content (f := .street .download) (by simp)
    have hsum : downloadSum ((w.disk here.pod).content (.street .download)) = sel'.job.named :=
      not_not.1 hsame
    refine settles_ret hs₄ ⟨hedits, w₂, hadopted, h₄.mono (by simp), by rw [hcontent₄], ?_⟩
    rw [hcontent₄, World.got, if_pos hsum]
    rcases hadopted.cases with ⟨honly, -⟩ | ⟨-, -, hcontent, hnamed⟩
    · exact honly.content (by simp)
    · rw [hcontent]
      exact (downloadSum_injective (hsum.trans hnamed)).symm

/-! ## Refreshing -/

omit [External] in
theorem Apart.vouched_iff {fs : List FileName} {s : StreetFile} {source : Source}
    (h : Apart here fs w w') (hs : .street s ∉ fs) (hr : .derivedHashes ∉ fs) :
    Vouched w' here.pod s source ↔ Vouched w here.pod s source := by
  unfold Vouched
  rw [h.content hs, h.recordsOn hr]

omit [External] in
theorem Vouched.of_apart {fs : List FileName} {s : StreetFile} {source : Source}
    (hv : Vouched w here.pod s source) (h : Apart here fs w w') (hs : .street s ∉ fs)
    (hr : .derivedHashes ∉ fs) : Vouched w' here.pod s source :=
  (h.vouched_iff hs hr).2 hv

omit [External] in
theorem Adopted.eq_of_named (h : Adopted here job job' w w') (hnamed : job.named ≠ none) :
    job' = job ∧ Only here [] w w' := by
  rcases h.cases with ⟨honly, hjob, -⟩ | ⟨hnone, -⟩
  · exact ⟨hjob, honly⟩
  · exact absurd hnone hnamed

omit [External] in
theorem Adopted.named (h : Adopted here job job' w w') :
    job'.named = w.adopted here.pod job.membershipUpload := by
  unfold World.adopted
  rcases h.cases with ⟨-, rfl, hstays⟩ | ⟨hnone, hcompleted, -, hsum⟩
  · rw [if_pos hstays]
  · rw [if_neg (by rw [hcompleted]; simpa using hnone), hsum]

omit [External] in
/-- A second adoption finds the name of the first. -/
theorem Adopted.settled (h : Adopted here job job' w w') :
    w'.adopted here.pod job'.membershipUpload = job'.named := by
  unfold World.adopted
  split
  · rfl
  · rename_i hnot
    have hnone : job'.named = none := by
      by_contra hne
      exact hnot (.inl hne)
    have hcompleted : job'.membershipUpload.streetProcessing = .completed := by
      by_contra hne
      exact hnot (.inr hne)
    rcases h.cases with ⟨-, rfl, hstays⟩ | ⟨-, -, -, hsum⟩
    · exact absurd hcompleted (hstays.resolve_left fun hne => hne hnone)
    · rw [h.fetched, hsum]

omit [External] in
/-- Where nothing is named after the adoption, nothing was pulled. -/
theorem Adopted.disk_of_unnamed (h : Adopted here job job' w w') (hnamed : job'.named = none)
    (f : FileName) : w'.disk here.pod f = w.disk here.pod f := by
  rcases h.cases with ⟨honly, -⟩ | ⟨-, -, hcontent, hsum⟩
  · exact honly.disk f (by simp)
  · by_cases hf : f = .street .download
    · subst hf
      have hfetched : w.fetched here.pod = none := by simpa [hnamed] using hsum.symm
      have hafter : w'.disk here.pod (.street .download) = none := by
        simpa [Files.content, hfetched] using hcontent
      have hbefore : w.disk here.pod (.street .download) = none := by
        simpa [Files.content] using (Option.or_eq_none_iff.1 hfetched).2
      rw [hafter, hbefore]
    · exact h.apart.disk f (by simpa using hf)

/-- The pod's record file is half-written. -/
def RecordsTorn (w : World) (pod : ℕ) : Prop :=
  (w.disk pod).content .derivedHashes = some .torn

/-- A refresh looks at the records: a download is named, or one can be, and the pod holds an edited
file or can get the download. -/
def NeedsRecords (w : World) (pod : ℕ) (upload : MembershipUpload) : Prop :=
  upload.downloadSha256 ≠ none ∧ w.disk pod (.street .edited) ≠ none ∨
    w.fetched pod ≠ none ∧ (upload.downloadSha256 ≠ none ∨ upload.streetProcessing = .completed)

omit [External] in
/-- After the adoption a download is named where a refresh needs the records, and only there unless
nothing can be got. -/
theorem Adopted.needsRecords (h : Adopted here job job' w w') :
    NeedsRecords w here.pod job.membershipUpload ↔ job'.named ≠ none ∧
      (w.disk here.pod (.street .edited) ≠ none ∨ w.fetched here.pod ≠ none) := by
  unfold NeedsRecords
  change job.named ≠ none ∧ _ ∨ _ ∧ (job.named ≠ none ∨ _) ↔ _
  rcases h.cases with ⟨-, rfl, hstays⟩ | ⟨hnone, hcompleted, -, hsum⟩
  · constructor
    · rintro (⟨hnamed, hedited⟩ | ⟨hgot, hnamed⟩)
      · exact ⟨hnamed, .inl hedited⟩
      · refine ⟨?_, .inr hgot⟩
        rcases hnamed with hnamed | hcompleted
        · exact hnamed
        · exact hstays.resolve_right fun hne => hne hcompleted
    · rintro ⟨hnamed, hedited | hgot⟩
      · exact .inl ⟨hnamed, hedited⟩
      · exact .inr ⟨hgot, .inl hnamed⟩
  · have hiff : job'.named ≠ none ↔ w.fetched here.pod ≠ none := by
      rw [hsum]
      simp
    rw [hiff]
    constructor
    · rintro (⟨hnamed, -⟩ | ⟨hgot, -⟩)
      · exact absurd hnone hnamed
      · exact ⟨hgot, .inr hgot⟩
    · rintro ⟨hgot, -⟩
      exact .inr ⟨hgot, .inr hcompleted⟩

/-- What a refresh does. Where there is a download, the edited network is vouched for afterwards: it
was before, as derived from the download the row names, or it is derived from the one the pod
gets. -/
structure Refreshed (here : Site) (sel sel' : StreetSelector) (current : Bool) (w w' : World) :
    Prop where
  edits : sel'.edits = sel.edits
  adopted : ∃ m, Adopted here sel.job sel'.job w m ∧
    Only here [.street .download, .derivedHashes, .street .edited] m w' ∧
    (current = false → Only here [.street .download] m w') ∧
    (sel'.job.named = none → Only here [] m w')
  unnamed : current = false → sel'.job.named = none ∨
    ¬Vouched w here.pod .edited (sel'.source sel'.job.named) ∧ w.fetched here.pod = none
  current : current = true → sel'.job.named ≠ none ∧
    ∃ h, Vouched w' here.pod .edited (sel'.source h) ∧
      (Vouched w here.pod .edited (sel'.source sel'.job.named) ∧ h = sel'.job.named ∨
        ¬Vouched w here.pod .edited (sel'.source sel'.job.named) ∧
          h = downloadSum (w.got here.pod sel'.job.named))

theorem refresh_settles (hlook : ∀ f g, look f = look g → SameRoad f g)
    (hs : Sound crash look torn w) (hrow : w.row = none → err)
    (htorn : RecordsTorn w here.pod → NeedsRecords w here.pod sel.job.membershipUpload → err) :
    Settles crash look torn err (fun r w' => Refreshed here sel r.1 r.2 w w')
      (sel.refresh here) w := by
  refine (downloadSha256_settles hs hrow).bind ?_
  rintro sel' m hsm ⟨hedits, hadopted⟩
  have hfetched := hadopted.fetched
  have hvouchedm : ∀ source, Vouched m here.pod .edited source ↔
    Vouched w here.pod .edited source :=
    fun source => hadopted.apart.vouched_iff (by simp) (by simp)
  split
  · rename_i hnone
    exact settles_ret hsm ⟨hedits, ⟨m, hadopted, .refl _ _ _, fun _ => .refl _ _ _,
      fun _ => .refl _ _ _⟩, fun _ => .inl hnone, nofun⟩
  · rename_i k hk
    have hnamed : sel'.job.named = some k := hk
    have hne : sel'.job.named ≠ none := by
      rw [hnamed]
      simp
    have htorn' : RecordsTorn m here.pod →
        w.disk here.pod (.street .edited) ≠ none ∨ w.fetched here.pod ≠ none → err := by
      intro ht hlooks
      apply htorn ((hadopted.apart.content (by simp)).symm.trans ht)
      exact hadopted.needsRecords.2 ⟨hne, hlooks⟩
    refine (isCurrent_settles hsm _ fun ht hfile => htorn' ht (.inl ?_)).bind ?_
    · rwa [hadopted.apart.disk _ (by simp)] at hfile
    rintro current w₁ hs₁ ⟨h₁, hcurrent⟩
    rw [hvouchedm, ← hnamed] at hcurrent
    split
    · rename_i htrue
      have hvouched := hcurrent.1 htrue
      refine settles_ret hs₁ ⟨hedits, ⟨m, hadopted, h₁.mono (by simp), fun _ => h₁.mono (by simp),
        fun _ => h₁⟩, nofun, fun _ => ⟨hne, _, ?_, .inl ⟨hvouched, rfl⟩⟩⟩
      exact ((hvouchedm _).2 hvouched).of_apart h₁.toApart (by simp) (by simp)
    · rename_i hfalse
      have hstale := mt hcurrent.2 hfalse
      have hrow₁ : w₁.row = none → err := by
        intro hno
        rw [h₁.row] at hno
        have hstatus := hadopted.status
        rw [hno] at hstatus
        exact hrow (by simpa using hstatus.symm)
      refine (pullDownloadIfOther_settles hs₁ hrow₁).bind ?_
      rintro ⟨sel'', localSha256⟩ w₂ hs₂ ⟨hedits₂, m₂, hadopted₂, h₂, hlocal, hcontent⟩
      dsimp only at hedits₂ hadopted₂ hlocal hcontent
      obtain ⟨hjob, hm₂⟩ := hadopted₂.eq_of_named hne
      obtain rfl : sel'' = sel' := by
        obtain ⟨job'', edits''⟩ := sel''
        obtain ⟨job', edits'⟩ := sel'
        dsimp only at hjob hedits₂
        rw [hjob, hedits₂]
      have h₁₂ : Only here [.street .download] m w₂ :=
        (h₁.mono (by simp)).trans ((hm₂.mono (by simp)).trans h₂)
      have hgot : (w₂.disk here.pod).content (.street .download) =
          w.got here.pod sel''.job.named := by
        rw [hcontent, h₁.toApart.got (h₁.content (by simp)), hadopted.got]
      rw [hgot] at hlocal
      dsimp only
      rcases localSha256 with _ | h
      · refine settles_ret hs₂ ⟨hedits, ⟨m, hadopted, h₁₂.mono (by simp), fun _ => h₁₂,
          fun hno => absurd hno hne⟩, fun _ => .inr ⟨hstale, ?_⟩, nofun⟩
        exact (got_eq_none hne).1 (by simpa using hlocal.symm)
      · refine (deriveFiles_settles hlook hs₂ (fun ht => htorn' ?_ (.inr fun hno => ?_))
          (fun hno => ?_) fun download hdownload => ?_).bind ?_
        · exact (h₁₂.content (by simp)).symm.trans ht
        · rw [(got_eq_none hne).2 hno] at hlocal
          cases hlocal
        · rw [← hgot, Files.content, hno] at hlocal
          cases hlocal
        · rw [hlocal, ← hgot, hdownload]
          rfl
        · rintro - w₃ hs₃ ⟨-, download, kept, hdownload, -, -, h₃, hvouched, -⟩
          have h₁₃ : Only here [.street .download, .derivedHashes, .street .edited] m w₃ :=
            (h₁₂.mono (by simp)).trans ((h₃ rfl).mono (by simp))
          exact settles_ret hs₃
            ⟨hedits, ⟨m, hadopted, h₁₃, nofun, fun hno => absurd hno hne⟩, nofun,
            fun _ => ⟨hne, some h, hvouched, .inr ⟨hstale, hlocal⟩⟩⟩

/-! ## Projecting -/

omit [External] in
theorem Vouched.not_torn {s : StreetFile} {source : Source} (h : Vouched w here.pod s source) :
    (w.disk here.pod).content .derivedHashes ≠ some .torn := by
  obtain ⟨doc, -, hrec⟩ := h
  intro ht
  rw [World.recordsOn, ht] at hrec
  cases hrec

/-- What a projection does: there is no download and nothing is written, or both derived files are
vouched for as built from one source, with the download the row names or the one the pod got. -/
structure Projected (here : Site) (sel sel' : StreetSelector) (w w' : World) : Prop where
  edits : sel'.edits = sel.edits
  adopted : ∃ m, Adopted here sel.job sel'.job w m ∧
    Only here (.street .download :: derivedFiles) m w' ∧
    (Only here [.street .download] m w' ∧
        (sel'.job.named = none ∧ Only here [] m w' ∨ sel'.job.named ≠ none ∧
          ¬Vouched w here.pod .edited (sel'.source sel'.job.named) ∧ w.fetched here.pod = none) ∨
      sel'.job.named ≠ none ∧ ∃ h, Vouched w' here.pod .edited (sel'.source h) ∧
        Vouched w' here.pod .transformed (sel'.source h) ∧
        (Vouched w here.pod .edited (sel'.source sel'.job.named) ∧ h = sel'.job.named ∨
          ¬Vouched w here.pod .edited (sel'.source sel'.job.named) ∧
            h = downloadSum (w.got here.pod sel'.job.named)))

/-- **After a projection the derived files are vouched for**, unless there is no download. -/
theorem ensureProjected_settles (hlook : ∀ f g, look f = look g → SameRoad f g)
    (hs : Sound crash look torn w) (hrow : w.row = none → err)
    (htorn : RecordsTorn w here.pod → NeedsRecords w here.pod sel.job.membershipUpload → err) :
    Settles crash look torn err (fun _ w' => ∃ sel', Projected here sel sel' w w')
      (sel.ensureProjected here) w := by
  refine (refresh_settles hlook hs hrow htorn).bind ?_
  rintro ⟨sel', current⟩ w₁ hs₁ hrefreshed
  obtain ⟨m, hadopted, h₁, hdownload, hunnamed⟩ := hrefreshed.adopted
  have hsub : [FileName.street .download, .derivedHashes, .street .edited] ⊆
      .street .download :: derivedFiles := by
    simp [derivedFiles]
  dsimp only
  split
  · rename_i hcurrent
    obtain ⟨hne, h, hvouched, hh⟩ := hrefreshed.current hcurrent
    obtain ⟨doc, hdoc, hrec⟩ := id hvouched
    refine (records_settles hs₁ fun ht => absurd ht hvouched.not_torn).bind ?_
    rintro records w₂ - ⟨rfl, rfl⟩
    rw [hrec]
    dsimp only
    refine (isCurrent_settles hs₁ _ fun ht _ => absurd ht hvouched.not_torn).bind ?_
    rintro projected w₃ hs₃ ⟨h₃, hprojected⟩
    have hvouched₃ := hvouched.of_apart h₃.toApart (by simp) (by simp)
    have h₃' : Only here (.street .download :: derivedFiles) m w₃ :=
      (h₁.mono hsub).trans (h₃.mono (by simp))
    split
    · rename_i htrue
      have htransformed := (hprojected.1 htrue).of_apart h₃.toApart (by simp) (by simp)
      exact settles_ret hs₃ ⟨sel', hrefreshed.edits, m, hadopted, h₃',
        .inr ⟨hne, h, hvouched₃, htransformed, hh⟩⟩
    · obtain ⟨doc', hdoc', kept, hnetwork, hkept⟩ := hs₃.derived hvouched₃
      refine (cachedLoad_settles hs₃ rfl (fun hno => ?_) fun ht => ?_).bind ?_
      · exact absurd hno (ne_none_of_content hdoc')
      · rw [hdoc'] at ht
        cases ht
      rintro refs w₄ hs₄ ⟨h₄, doc'', hdoc'', hshows, -⟩
      obtain rfl : doc' = doc'' := Bytes.whole.inj (Option.some.inj (hdoc'.symm.trans hdoc''))
      obtain ⟨hvalid, hroads⟩ := hshows.objects
      have hvouched₄ := hvouched₃.of_apart h₄.toApart (by simp) (by simp)
      refine (project_settles hs₄ (fun ht => absurd ht hvouched₄.not_torn) rfl hnetwork hvalid
        (hroads.trans hkept)).mono (fun _ _ _ h => h) ?_
      rintro - w₅ hs₅ ⟨h₅, hdoc₅, hrecords₅⟩
      have hvouched₅ : Vouched w₅ here.pod .edited (sel'.source h) := by
        obtain ⟨doc₄, hdoc₄, hrec₄⟩ := hvouched₄
        refine ⟨doc₄, (h₅.content (by simp [projectionFiles])).trans hdoc₄, ?_⟩
        rw [hrecords₅, Function.update_of_ne (by simp), hrec₄]
      exact ⟨sel', hrefreshed.edits, m, hadopted,
        h₃'.trans ((h₄.mono (by simp)).trans (h₅.mono (by simp [derivedFiles, projectionFiles]))),
        .inr ⟨hne, h, hvouched₅, ⟨_, hdoc₅, by rw [hrecords₅, Function.update_self]⟩, hh⟩⟩
  · rename_i hcurrent
    have hfalse : current = false := by simpa using hcurrent
    refine settles_ret hs₁ ⟨sel', hrefreshed.edits, m, hadopted, h₁.mono hsub,
      .inl ⟨hdownload hfalse, ?_⟩⟩
    by_cases hnamed : sel'.job.named = none
    · exact .inl ⟨hnamed, hunnamed hnamed⟩
    · exact .inr ⟨hnamed, (hrefreshed.unnamed hfalse).resolve_left hnamed⟩

/-! ## Selectors -/

/-- The intent in a legacy file on the pod; without the file, the default. -/
def World.legacyIntent (w : World) (pod : ℕ) : StreetEdits :=
  match (w.disk pod).content .streetEdits with
  | some (.whole edits) => edits.intent
  | _ => {}

/-- What the constructor of a selector does: it may move a legacy intent into the row. -/
structure Constructed (here : Site) (job : JobModel) (sel : StreetSelector) (w w' : World) : Prop
    where
  edits : sel.edits = sel.job.streetEdits.getD {}
  intent : sel.edits = job.streetEdits.getD (w.legacyIntent here.pod)
  epsg : sel.job.epsg = job.epsg
  upload : sel.job.membershipUpload = job.membershipUpload
  apart : Apart here [.streetEdits] w w'
  mirrors : Mirrors job w → Mirrors sel.job w'
  status : w'.row.map Row.status = w.row.map Row.status
  known : job.streetEdits ≠ none → sel.job = job ∧ w' = w

omit [External] in
theorem Constructed.needsRecords (h : Constructed here job sel w w') :
    NeedsRecords w' here.pod sel.job.membershipUpload ↔
      NeedsRecords w here.pod job.membershipUpload := by
  unfold NeedsRecords
  rw [h.upload, h.apart.disk _ (by simp), h.apart.fetched (.inl (h.apart.content (by simp)))]

theorem new_settles (hs : Sound crash look torn w) (hrow : w.row = none → err) :
    Settles crash look torn err (fun sel w' => Constructed here job sel w w')
      (StreetSelector.new here job) w := by
  have hadopt : Settles crash look torn err (fun job' w' => Constructed here job
      ⟨job', job'.streetEdits.getD {}⟩ w w') (adoptLegacyEdits here job) w := by
    unfold adoptLegacyEdits
    split
    · rename_i hedits
      obtain ⟨edits, hsome⟩ := Option.ne_none_iff_exists'.1 hedits
      exact settles_ret hs ⟨rfl, by rw [hsome]; rfl, rfl, rfl, .refl _ _ _, id, rfl,
        fun _ => ⟨rfl, rfl⟩⟩
    · rename_i hedits
      have hnone : job.streetEdits = none := not_not.1 hedits
      refine (settles_fileExists hs _).bind ?_
      rintro exists' w₁ - ⟨rfl, rfl⟩
      split
      · rename_i hexists
        refine (settles_loadFile hs _ (fun hno => by simp [hno] at hexists)
          fun ht => absurd ht (hs.whole (some here.pod) _ rfl)).bind ?_
        rintro edits w₂ - ⟨rfl, hedits'⟩
        refine (settles_updateColumns hs _ hrow).bind ?_
        rintro - w₃ hs₃ ⟨r, hr, rfl⟩
        refine (settles_deleteLegacyEdits hs₃).bind ?_
        rintro - w₄ hs₄ rfl
        refine settles_ret hs₄ ⟨rfl, by rw [hnone, World.legacyIntent, hedits']; rfl, rfl, rfl,
          ⟨fun f hf => ?_, fun f hf => ?_, List.prefix_rfl⟩, ?_, by rw [hr]; rfl,
          fun h => absurd hnone h⟩
        · have hother : decide (f ∈ [FileName.streetEdits]) = false := by simpa using hf
          exact Files.delete_other _ _ (fun g => g ∈ [.streetEdits]) hother
        · refine (congrFun setDisk_disk_self f).trans ?_
          exact Files.delete_other _ _ _ (by simpa using hf)
        · rintro ⟨r', hr', hupload, hepsg, -⟩
          obtain rfl := Option.some.inj (hr'.symm.trans hr)
          exact ⟨_, rfl, hupload, hepsg, rfl⟩
      · rename_i hexists
        have hno : w₁.disk here.pod .streetEdits = none := by simpa using hexists
        have hlegacy : w₁.legacyIntent here.pod = {} := by
          rw [World.legacyIntent, Files.content, hno]
          rfl
        exact settles_ret hs ⟨rfl, by rw [hnone, hlegacy], rfl, rfl, .refl _ _ _, id, rfl,
          fun h => absurd hnone h⟩
  apply hadopt.bind
  intro job' w' hs' h
  exact settles_ret hs' h

/-! ## Editing -/

/-- What an accepted edit does: the row holds the intent, and the edited network is vouched for as
derived from the pod's download with it. -/
structure Applied (here : Site) (sel sel' : StreetSelector) (any : Bool) (w w' : World) : Prop where
  edits : sel'.edits = sel.edits
  intent : sel'.job.streetEdits = some sel.edits
  epsg : sel'.job.epsg = sel.job.epsg
  pending : ∀ r, w.row = some r → r.status = .pending
  status : w'.row.map Row.status = w.row.map Row.status
  mirrors : Mirrors sel.job w → Mirrors sel'.job w'
  named : sel'.job.named = w.adopted here.pod sel.job.membershipUpload
  settled : w'.adopted here.pod sel'.job.membershipUpload = sel'.job.named
  download : (w'.disk here.pod).content (.street .download) = w.got here.pod sel'.job.named
  apart : Apart here (.street .download :: derivedFiles) w w'
  vouched : ∃ download kept,
    (w'.disk here.pod).content (.street .download) = some (.whole download) ∧
      derive sel.edits download = some kept ∧ any = decide (kept ≠ []) ∧
      Vouched w' here.pod .edited
        (sel'.source (some (StreetFile.sha256 .download (.whole download))))

theorem applyEdits_settles (hlook : ∀ f g, look f = look g → SameRoad f g)
    (hs : Sound crash look torn w) {defer : Bool}
    (hpending : (∀ r, w.row = some r → r.status ≠ .pending) → err)
    (htorn : (w.disk here.pod).content .derivedHashes = some .torn → err)
    (hmissing : w.got here.pod (w.adopted here.pod sel.job.membershipUpload) = none → err) :
    Settles crash look torn err (fun r w' => Applied here sel r.1 r.2 w w')
      (sel.applyEdits here defer) w := by
  refine (settles_updateInput hs _).bind ?_
  rintro accepted w₁ hs₁ (⟨rfl, r, hr, hstatus, rfl⟩ | ⟨rfl, rfl, hrefused⟩)
  · refine (pullDownloadIfOther_settles hs₁ fun hno => by cases hno).bind ?_
    rintro ⟨sel', localSha256⟩ w₂ hs₂ ⟨hedits, m, hadopted, h₂, hlocal, hcontent⟩
    dsimp only at hedits hadopted hlocal hcontent
    have hwithin : Apart here [.street .download] w w₂ :=
      ⟨fun f hf => (h₂.stored f hf).trans (hadopted.apart.stored f hf),
        fun f hf => (h₂.disk f hf).trans (hadopted.apart.disk f hf),
        hadopted.apart.heap.trans h₂.heap⟩
    have hnamed : sel'.job.named = w.adopted here.pod sel.job.membershipUpload := hadopted.named
    have hgot : (w₂.disk here.pod).content (.street .download) = w.got here.pod sel'.job.named :=
      hcontent
    dsimp only
    refine (deriveFiles_settles hlook hs₂ (fun ht => htorn ?_) (fun hno => ?_)
      fun download hdownload => ?_).bind ?_
    · rwa [hwithin.content (by simp)] at ht
    · have hnone : (w₂.disk here.pod).content (.street .download) = none := by
        rw [Files.content, hno]
        rfl
      apply hmissing
      rw [← hnamed, ← hgot, hnone]
    · rw [hlocal, hdownload]
      rfl
    · rintro any w₃ hs₃ ⟨h₃, download, kept, hdownload, hkept, hany, -, hvouched, -⟩
      have hcontent₃ := h₃.content (f := .street .download) (by simp [derivedFiles])
      rw [hlocal, hdownload] at hvouched
      have hapart : Apart here (.street .download :: derivedFiles) w w₃ :=
        (hwithin.mono (by simp)).trans (h₃.toApart.mono (by simp))
      have hfetched : w₃.fetched here.pod = m.fetched here.pod :=
        (hapart.fetched_of_got (hcontent₃.trans hgot)).trans hadopted.fetched.symm
      refine settles_ret hs₃ ⟨hedits, hadopted.edits, hadopted.epsg, ?_, ?_, ?_, hnamed, ?_,
        hcontent₃.trans hgot, hapart,
        ⟨download, kept, hcontent₃.trans hdownload, hedits ▸ hkept, hany, hvouched⟩⟩
      · intro r' hr'
        obtain rfl := Option.some.inj (hr'.symm.trans hr)
        exact hstatus
      · rw [h₃.row, h₂.row, hadopted.status, hr]
        rfl
      · rintro ⟨r', hr', hupload, hepsg, -⟩
        obtain rfl := Option.some.inj (hr'.symm.trans hr)
        refine ((hadopted.mirrors ⟨_, rfl, hupload, hepsg, ?_⟩).of_row h₂.row).of_row h₃.row
        rfl
      · rw [adopted_congr hfetched, hadopted.settled]
  · exact settles_raise hs₁ (hpending hrefused)

end Cosmonaut
