import Cosmonaut.Model.UploadTasks

/-!
# The row and the stored road network

An upload task stores its download and then tries to record the checksum in the row. A task that no
longer owns the upload is refused there, but its files are stored already.

* `upload_cases`, `download_cases`: what a step can do to the upload in the row, and to the stored
  download.
* `checksummed_stored`: when a task records its checksum, it has stored the file it took it of.
* `network_agrees_when`: the row names the stored download, and newer uploads keep their files, if
  uploads are undisturbed.
* `superseded_task_overwrites`: a run in which a superseded task replaces a newer network.
-/

namespace Cosmonaut

open Interleaving Program

/-- `membership_upload`, if there is a row. -/
def World.upload (w : World) : Option MembershipColumn := w.row.map (·.columns.membershipUpload)

/-- The upload is recorded as complete. -/
def MembershipColumn.completed (u : MembershipColumn) : Prop :=
  u.streetProcessing = some .completed

/-- A checksum recorded with a completed upload is that of the stored download. -/
def RowAgrees (w : World) : Prop :=
  ∀ u sha256, w.upload = some u → u.completed → u.downloadSha256 = some (some sha256) →
    ∃ content, w.stored.content (.street .download) = some content ∧
      StreetFile.sha256 .download content = sha256

/-- The cached checksums of downloads are right. -/
def CachesTrue (w : World) : Prop :=
  ∀ process mtime sha256, (w.memory process).checksums .download = some (mtime, sha256) →
    StreetFile.sha256 .download mtime.content = sha256

/-- The thread works for the upload with the id: it has drawn it, or has taken its message. -/
def WorksFor (es : List (Event machine)) (t : ℕ) (id : TaskId) : Prop :=
  ∃ e ∈ es, e.thread = t ∧ (e.call = answered .uuid4 id ∨
    ∃ m, e.call = answered (.receive false) (some m) ∧ m.id = id)

/-- A task uploads its work dir, and later its compare-and-set is refused. -/
structure RefusedUpload (es l mid r : List (Event machine)) (up cas : Event machine) (pod : ℕ)
    (id : TaskId) : Prop where
  split : es = l ++ up :: (mid ++ cas :: r)
  same_thread : cas.thread = up.thread
  uploaded : up.call = answered (.uploadWorkDir pod) ()
  refused : ∃ u, cas.call = answered (.updateMembershipUploadOfTask id u) false

/-- After the events `l` of the run, the stored file is one that an upload newer than `id` has put
there. -/
def StoredByNewer (es l : List (Event machine)) (id : TaskId) (f : FileName) : Prop :=
  ∃ l₁ e l₂ id', l = l₁ ++ e :: l₂ ∧ id < id' ∧ WorksFor es e.thread id' ∧
    e.after.stored f ≠ e.before.stored f ∧ e.after.stored f ≠ none ∧
    ∀ a ∈ l₂, a.after.stored f = a.before.stored f

/-- A task whose compare-and-set is refused leaves the files of newer uploads alone. -/
def NewerUploadsKept (es : List (Event machine)) : Prop :=
  ∀ l mid r up cas pod id f, RefusedUpload es l mid r up cas pod id → StoredByNewer es l id f →
    up.after.stored f = up.before.stored f

/-- Such a task finds no local copy of these files that differs. -/
def NewerUploadsCurrent (es : List (Event machine)) : Prop :=
  ∀ l mid r up cas pod id f, RefusedUpload es l mid r up cas pod id → StoredByNewer es l id f →
    (up.before.disk pod).Current up.before.stored f

/-- The operation is an upload that finds a local download differing from the stored one. -/
def ReplacesDownload (e : Event machine) : Prop :=
  ∃ pod, e.call.op = .uploadWorkDir pod ∧
    ¬(e.before.disk pod).Current e.before.stored (.street .download)

/-- Nothing comes between an upload and the row. -/
structure UploadsUndisturbed (es : List (Event machine)) : Prop where
  /-- No upload replaces the download of a completed upload. -/
  completed : ∀ e u, e ∈ es → e.before.upload = some u → u.completed → ¬ReplacesDownload e
  /-- No upload replaces a task's download before the task has recorded it. -/
  recorded : ∀ l mid r up cas pod id u, es = l ++ up :: (mid ++ cas :: r) →
    cas.thread = up.thread → up.call = answered (.uploadWorkDir pod) () →
    cas.call = answered (.updateMembershipUploadOfTask id u) true → u.completed →
    ∀ a ∈ mid, ¬ReplacesDownload a
  /-- No other thread touches a task's own copy between its checksum and its upload. -/
  checksummed : ∀ l mid r stat e pod mtime, es = l ++ stat :: (mid ++ e :: r) →
    stat.call = answered (.mtime pod (.street .download)) mtime → e.thread = stat.thread →
    e.call.op = .readFile pod (.street .download) ∨ e.call.op = .uploadWorkDir pod →
    ∀ a ∈ mid, a.thread ≠ stat.thread → a.call.op.touches pod (.street .download) = false
  /-- Whoever deletes the stored download resets the upload in the row afterwards. -/
  deleted : ∀ l e r pod fs, es = l ++ e :: r → e.call.op = .deleteFiles pod fs →
    .street .download ∈ fs → e.before.stored (.street .download) ≠ none →
    ∃ a ∈ r, a.thread = e.thread ∧ ∃ vs u, a.call = answered (.updateInput vs) true ∧
      .membershipUpload u ∈ vs

variable {w : World} {requests : List (Site × Request)} {es l r : List (Event machine)}
  {p' : Pool machine Err Unit} {e : Event machine}

/-! ## The upload in the row -/

/-- What a step of an upload, a deletion or a task can do to the upload in the row. -/
inductive UploadStep (e : Event machine) (u : MembershipColumn) : Prop
  /-- A write of whole columns names a task, or records that its sending failed. -/
  | named (vs) : e.call.op = .updateColumns vs → .membershipUpload u ∈ vs → ¬u.completed →
    UploadStep e u
  | input (vs) : e.call.op = .updateInput vs → u.streetProcessing = some .pending → UploadStep e u
  | task (id) : e.call = answered (.updateMembershipUploadOfTask id u) true →
    (∃ u₀, e.before.upload = some u₀ ∧ u₀.streetProcessing = some (.task id)) →
    (u.completed ∨ u.streetProcessing = some .failed) → UploadStep e u

variable [External]

theorem upload_cases (hrequests : ∀ r ∈ requests, r.2.handlesMembership = true)
    (hrun : Run (serving w requests) (l ++ e :: r) p') :
    e.after.upload = e.before.upload ∨ ∃ u, e.after.upload = some u ∧ UploadStep e u := by
  have he := hrun.allowed (e := e) (by simp)
  have hcases := op_cases hrequests hrun
  have hrow : e.after.row.isSome = e.before.row.isSome := by
    obtain ⟨c, hafter⟩ := after_of_allowed he
    rw [← hafter]
    refine exec_row_isSome (fun columns h => ?_) fun pod h => ?_ <;> rw [h] at hcases <;>
      obtain ⟨here, hop⟩ | hop | ⟨here, id, hop⟩ := hcases <;> cases hop
  rcases hb : e.before.row with _ | rb
  · have ha : e.after.row = none := by simpa [hb] using hrow
    exact .inl (by rw [World.upload, World.upload, ha, hb])
  obtain ⟨ra, ha⟩ : ∃ ra, e.after.row = some ra :=
    Option.isSome_iff_exists.1 (by rw [hrow, hb]; rfl)
  have hupload : e.after.upload = some ra.columns.membershipUpload := by rw [World.upload, ha]; rfl
  have hbefore : e.before.upload = some rb.columns.membershipUpload := by rw [World.upload, hb]; rfl
  rw [hupload, hbefore]
  by_cases hne : ra.columns.membershipUpload = rb.columns.membershipUpload
  · exact .inl (by rw [hne])
  refine .inr ⟨_, rfl, ?_⟩
  have hstep := columnsStep_of_allowed he hb ha
  have hok := ok_of_columns_ne he hb ha fun h => hne (by rw [h])
  clear hrun hrow hupload
  obtain ⟨status, submitted, heartbeat, runId, cs⟩ := ra
  obtain ⟨t, ⟨o, f | a⟩, before, after⟩ := e
  · obtain ⟨a, ha⟩ := hok
    cases ha
  simp only at hstep hcases hb hne
  cases hstep with
  | same => exact absurd rfl hne
  | writeRow => obtain ⟨here, hop⟩ | hop | ⟨here, id, hop⟩ := hcases <;> cases hop
  | updateColumns vs =>
    have hmem := (membershipUpload_putAll rb.columns vs).resolve_left hne
    obtain ⟨here, hop⟩ | hop | ⟨here, id, hop⟩ := hcases
    · exact .named vs rfl hmem (hop _ hmem)
    · cases hop
    · cases hop
  | updateInput vs =>
    have hmem := (membershipUpload_putAll rb.columns vs).resolve_left hne
    obtain ⟨here, hop⟩ | hop | ⟨here, id, hop⟩ := hcases
    · exact .input vs rfl (hop _ hmem)
    · cases hop
    · cases hop
  | setStreetProcessing => obtain ⟨here, hop⟩ | hop | ⟨here, id, hop⟩ := hcases <;> cases hop
  | updateMembershipUpload id upload hid =>
    have hbefore' : World.upload before = some rb.columns.membershipUpload := hbefore
    obtain ⟨here, hop⟩ | hop | ⟨here, id', hop⟩ := hcases
    · cases hop
    · cases hop
    · obtain rfl : a = true := by
        obtain ⟨c, hafter⟩ := after_of_answered he rfl
        simpa [perform, World.update, hb, hid] using congrArg Prod.fst hafter
      exact .task id rfl ⟨_, hbefore', hid⟩ hop.2
  | raiseStage => exact absurd rfl hne
  | markEndNotified => exact absurd rfl hne

omit [External] in
/-- An accepted conditional write has an effect on the row. -/
theorem upload_of_input {e : Event machine} (he : e.Allowed) {vs : List ColumnValue}
    {u : MembershipColumn} (hc : e.call = answered (.updateInput vs) true)
    (hu : .membershipUpload u ∈ vs) :
    ∃ u', e.after.upload = some u' ∧ .membershipUpload u' ∈ vs := by
  obtain ⟨r, -, -, hafter⟩ := row_of_updateInput_true he hc
  refine ⟨(r.putAll vs).columns.membershipUpload, ?_, membershipUpload_putAll_mem hu⟩
  rw [World.upload, hafter]
  rfl

/-- Whoever resets the upload in the row leaves it PENDING. -/
theorem pending_of_input (hrequests : ∀ r ∈ requests, r.2.handlesMembership = true)
    (hrun : Run (serving w requests) (l ++ e :: r) p') {vs : List ColumnValue}
    {u : MembershipColumn} (hc : e.call = answered (.updateInput vs) true)
    (hu : .membershipUpload u ∈ vs) :
    ∃ u', e.after.upload = some u' ∧ u'.streetProcessing = some .pending := by
  obtain ⟨u', hu', hmem⟩ := upload_of_input (hrun.allowed (by simp)) hc hu
  refine ⟨u', hu', ?_⟩
  have hcases := op_cases hrequests hrun
  rw [show e.call.op = .updateInput vs by rw [hc]] at hcases
  obtain ⟨here, hop⟩ | hop | ⟨here, id, hop⟩ := hcases
  · exact hop u' hmem
  · cases hop
  · cases hop

/-- A task that the row comes to name is named by the step. -/
theorem names_of_upload (hrequests : ∀ r ∈ requests, r.2.handlesMembership = true)
    (hrun : Run (serving w requests) (l ++ e :: r) p') {u : MembershipColumn} {id : TaskId}
    (ha : e.after.upload = some u) (hid : u.streetProcessing = some (.task id))
    (hb : e.before.upload ≠ some u) : e.call.op.names id := by
  rcases upload_cases hrequests hrun with h | ⟨u', hu', hstep⟩
  · exact absurd (h.symm.trans ha) hb
  obtain rfl := Option.some.inj (hu'.symm.trans ha)
  rcases hstep with ⟨vs, hop, hmem, -⟩ | ⟨vs, -, hp⟩ | ⟨id', -, -, hstate | hstate⟩
  · exact ⟨vs, u', hop, hmem, hid⟩
  · rw [hp] at hid
    cases hid
  · rw [MembershipColumn.completed, hid] at hstate
    cases hstate
  · rw [hid] at hstate
    cases hstate

/-! ## The stored download -/

/-- What a step of an upload, a deletion or a task can do to the stored download. -/
theorem download_cases (hrequests : ∀ r ∈ requests, r.2.handlesMembership = true)
    (hrun : Run (serving w requests) (l ++ e :: r) p') :
    e.after.stored.content (.street .download) = e.before.stored.content (.street .download) ∨
      ReplacesDownload e ∨ ∃ pod fs, e.call.op = .deleteFiles pod fs ∧ .street .download ∈ fs ∧
        e.before.stored (.street .download) ≠ none := by
  obtain ⟨c, hafter⟩ := after_of_allowed (hrun.allowed (e := e) (by simp))
  have hcases := op_cases hrequests hrun
  have hstep := exec_stored_cases e.call.op c e.before
  rw [hafter] at hstep
  generalize ho : e.call.op = o at hstep hcases
  generalize hs : e.after.stored = stored at hstep
  cases hstep with
  | same => exact .inl rfl
  | upload pod fs =>
    by_cases hcurrent : (e.before.disk pod).Current e.before.stored (.street .download)
    · exact .inl (by rw [Files.content, hcurrent.upload fs, Files.content])
    · exact .inr (.inl ⟨pod, ho, hcurrent⟩)
  | delete pod names fs hfs =>
    by_cases hgone : .street .download ∈ names ∧ e.before.stored (.street .download) ≠ none
    · exact .inr (.inr ⟨pod, names, rfl, hgone⟩)
    · refine .inl ?_
      rcases not_and_or.1 hgone with hnot | hnone
      · have hkeep : fs (.street .download) = false := by
          by_contra h
          exact hnot (hfs _ (by simpa using h))
        rw [Files.content, Files.delete_other _ _ _ hkeep, Files.content]
      · have hnone' : e.before.stored (.street .download) = none := not_not.1 hnone
        rw [Files.content, Files.content, hnone', Files.delete, hnone']
        split <;> rfl
  | deleteJob pod => obtain ⟨here, hop⟩ | hop | ⟨here, id, hop⟩ := hcases <;> cases hop

/-! ## The checksum -/

omit [External] in
theorem content_of_stat {pod : ℕ} {f : FileName} {mtime : Mtime f} (he : e.Allowed)
    (hc : e.call = answered (.mtime pod f) mtime) :
    (e.after.disk pod).content f = some mtime.content := by
  obtain ⟨c, hafter⟩ := after_of_answered he hc
  simp only [perform, World.file] at hafter
  split at hafter
  · rename_i entry hentry
    simp only [Except.map, Prod.mk.injEq, Except.ok.injEq] at hafter
    obtain ⟨rfl, hafter⟩ := hafter
    rw [← hafter, Files.content, hentry]
    rfl
  · simp [Except.map] at hafter

omit [External] in
theorem content_of_read {pod : ℕ} {f : FileName} {content : Bytes f.Doc} (he : e.Allowed)
    (hc : e.call = answered (.readFile pod f) content) :
    (e.before.disk pod).content f = some content := by
  obtain ⟨c, hafter⟩ := after_of_answered he hc
  simp only [perform, World.file] at hafter
  split at hafter
  · rename_i entry hentry
    simp only [Except.map, Prod.mk.injEq, Except.ok.injEq] at hafter
    obtain ⟨rfl, -⟩ := hafter
    rw [Files.content, hentry]
    rfl
  · simp [Except.map] at hafter

/-- A task's own copy of the download is still the one it has looked at. -/
theorem copy_kept (h : UploadsUndisturbed es) (hrun : Run (serving w requests) es p')
    (mid : List (Event machine)) {stat : Event machine} {pod : ℕ}
    {mtime : Mtime (.street .download)} (hes : es = l ++ stat :: (mid ++ e :: r))
    (hstat : stat.call = answered (.mtime pod (.street .download)) mtime)
    (hthread : e.thread = stat.thread)
    (hop : e.call.op = .readFile pod (.street .download) ∨ e.call.op = .uploadWorkDir pod)
    (hown : ∀ a ∈ mid, a.thread = stat.thread → a.call.op.touches pod (.street .download) = false) :
    (e.before.disk pod).content (.street .download) = some mtime.content := by
  have hothers := h.checksummed l mid r stat e pod mtime hes hstat hthread hop
  subst hes
  have hsame := hrun.chain.beyond.upto.preserves
    (f := fun v : World => (v.disk pod).content (.street .download)) fun a ha hallowed => by
      have huntouched : a.call.op.touches pod (.street .download) = false := by
        by_cases ht : a.thread = stat.thread
        · exact hown a ha ht
        · exact hothers a ha ht
      simp only [Files.content, disk_of_not_touches hallowed huntouched]
  exact hsame.trans (content_of_stat (hrun.allowed (by simp)) hstat)

omit [External] in
/-- A thread has not touched its copy in a stretch in which it made one call. -/
theorem untouched_append {m m' : List (Event machine)} {t pod : ℕ} {f : FileName}
    (hm : ∀ a ∈ m, a.thread ≠ t) (he : e.call.op.touches pod f = false)
    (hm' : ∀ a ∈ m', a.thread = t → a.call.op.touches pod f = false) :
    ∀ a ∈ m ++ e :: m', a.thread = t → a.call.op.touches pod f = false := by
  intro a ha hat
  rcases List.mem_append.1 ha with ha | ha
  · exact absurd hat (hm a ha)
  · rcases List.mem_cons.1 ha with rfl | ha
    · exact he
    · exact hm' a ha hat

theorem event_checksums (hrequests : ∀ r ∈ requests, r.2.handlesMembership = true)
    (hrun : Run (serving w requests) (l ++ e :: r) p') :
    ∃ here, Checksums here (callsOf e.thread l) e.call := by
  obtain ⟨prog, hprog⟩ := hrun.thread_mem (e := e) (by simp)
  obtain ⟨here, q, hq, rfl⟩ := serving_threads hprog
  refine ⟨here, ?_⟩
  have hkind := hrequests _ (List.mem_of_getElem? hq)
  have hupload : e.call.op.ofUpload here → Checksums here (callsOf e.thread l) e.call := by
    intro h
    apply checksums_of_none
    revert h
    generalize e.call.op = o
    intro h
    cases o <;> first | rfl | cases h
  cases q
  case uploadMembership content epsgInput =>
    exact hupload (hrun.always (by simp) hprog (handleMembershipUpload_asks content epsgInput))
  case deleteMembership => exact hupload (hrun.always (by simp) hprog deleteMembershipFile_asks)
  case uploadWorker => exact hrun.trail hprog uploadWorker_checksums
  all_goals cases hkind

/-- What is cached for a download is its checksum. -/
theorem cachesTrue_before (hrequests : ∀ r ∈ requests, r.2.handlesMembership = true)
    (hw : CachesTrue w) (h : UploadsUndisturbed (l ++ e :: r))
    (hrun : Run (serving w requests) (l ++ e :: r) p') : CachesTrue e.before := by
  apply hrun.chain.upto.keeps hw
  intro a ha hallowed hbefore process mtime sha256 hentry
  obtain ⟨c, hafter⟩ := after_of_allowed hallowed
  rw [← hafter] at hentry
  rcases exec_checksums hentry with hold | ⟨site, hop⟩
  · exact hbefore process mtime sha256 hold
  -- a new entry: the file has not changed between the stat and the reading
  obtain ⟨l₁, r₁, rfl⟩ := List.append_of_mem ha
  rw [List.append_assoc, List.cons_append] at hrun h
  obtain ⟨here, hsums⟩ := event_checksums hrequests hrun
  obtain ⟨content, cached, rest, hsha, rfl, hpast⟩ := hsums.cached site mtime sha256 hop
  obtain ⟨l₂, read, m₁, rfl, hreadt, hread, hpast, -⟩ := callsOf_eq_cons hpast
  obtain ⟨l₃, look, m₂, rfl, hlookt, hlook, hpast, hm₂⟩ := callsOf_eq_cons hpast
  obtain ⟨l₄, stat, m₃, rfl, hstatt, hstat, -, hm₃⟩ := callsOf_eq_cons hpast
  have hkept := copy_kept (l := l₄) (e := read) h hrun (m₃ ++ look :: m₂)
    (by simp only [List.append_assoc, List.cons_append]; rfl) hstat (hreadt.trans hstatt.symm)
    (.inl (by rw [hread])) ?_
  · rw [content_of_read (hrun.allowed (by simp)) hread, Option.some.injEq] at hkept
    rw [← hkept, hsha]
  · rw [hstatt]
    exact untouched_append hm₃ (by rw [hlook]; rfl) fun b hb hbt => absurd hbt (hm₂ b hb)

/-- At its upload a task's own copy has the checksum the task has taken. -/
theorem local_checksummed (hrequests : ∀ r ∈ requests, r.2.handlesMembership = true)
    (hw : CachesTrue w) (h : UploadsUndisturbed (l ++ e :: r))
    (hrun : Run (serving w requests) (l ++ e :: r) p') {here : Site} {sha256 : Sha256}
    (hsums : Checksummed here sha256 (callsOf e.thread l))
    (hop : e.call.op = .uploadWorkDir here.pod) :
    ∃ content, (e.before.disk here.pod).content (.street .download) = some content ∧
      StreetFile.sha256 .download content = sha256 := by
  generalize hpast : callsOf e.thread l = past at hsums
  cases hsums with
  | hit mtime rest =>
    obtain ⟨l₁, look, m₁, rfl, hlookt, hlook, hpast, hm₁⟩ := callsOf_eq_cons hpast
    obtain ⟨l₂, stat, m₂, rfl, hstatt, hstat, -, hm₂⟩ := callsOf_eq_cons hpast
    refine ⟨mtime.content, copy_kept (l := l₂) h hrun (m₂ ++ look :: m₁) (by simp; rfl)
      hstat hstatt.symm (.inr hop) ?_, ?_⟩
    · rw [hstatt]
      exact untouched_append hm₂ (by rw [hlook]; rfl) fun a ha hat => absurd hat (hm₁ a ha)
    · rw [List.append_assoc, List.cons_append] at hrun h
      obtain ⟨c, hafter⟩ := after_of_answered (hrun.allowed (by simp)) hlook
      simp only [perform, Prod.mk.injEq, Except.ok.injEq] at hafter
      exact cachesTrue_before hrequests hw h hrun _ _ _ hafter.1
  | miss mtime cached content rest hsha =>
    obtain ⟨l₁, cache, m₁, rfl, hcachet, hcache, hpast, hm₁⟩ := callsOf_eq_cons hpast
    obtain ⟨l₂, read, m₂, rfl, hreadt, hread, hpast, hm₂⟩ := callsOf_eq_cons hpast
    obtain ⟨l₃, look, m₃, rfl, hlookt, hlook, hpast, hm₃⟩ := callsOf_eq_cons hpast
    obtain ⟨l₄, stat, m₄, rfl, hstatt, hstat, -, hm₄⟩ := callsOf_eq_cons hpast
    have hlooked : ∀ a ∈ m₄ ++ look :: m₃, a.thread = e.thread →
        a.call.op.touches here.pod (.street .download) = false :=
      untouched_append hm₄ (by rw [hlook]; rfl) fun a ha hat => absurd hat (hm₃ a ha)
    have hread' := copy_kept (l := l₄) (e := read) h hrun (m₄ ++ look :: m₃)
      (by simp; rfl) hstat (hreadt.trans hstatt.symm) (.inl (by rw [hread])) (by rwa [hstatt])
    rw [content_of_read (hrun.allowed (by simp)) hread, Option.some.injEq] at hread'
    refine ⟨content, ?_, hsha⟩
    rw [hread']
    refine copy_kept (l := l₄) h hrun (m₄ ++ look :: (m₃ ++ read :: (m₂ ++ cache :: m₁)))
      (by simp; rfl) hstat hstatt.symm (.inr hop) ?_
    rw [hstatt]
    apply untouched_append hm₄ (by rw [hlook]; rfl)
    apply untouched_append hm₃ (by rw [hread]; rfl)
    exact untouched_append hm₂ (by rw [hcache]; rfl) fun a ha hat => absurd hat (hm₁ a ha)

/-- **When a task records its checksum, it has stored the file it took it of**, and has received its
message before. -/
theorem checksummed_stored (hrequests : ∀ r ∈ requests, r.2.handlesMembership = true)
    (hw : CachesTrue w) (h : UploadsUndisturbed (l ++ e :: r))
    (hrun : Run (serving w requests) (l ++ e :: r) p') {id : TaskId} {u : MembershipColumn}
    (hcas : e.call.op = .updateMembershipUploadOfTask id u) (hu : u.completed) :
    ∃ l₂ up mid pod sha256 content, l = l₂ ++ up :: mid ∧ e.thread = up.thread ∧
      up.call = answered (.uploadWorkDir pod) () ∧ u.downloadSha256 = some (some sha256) ∧
      up.after.stored.content (.street .download) = some content ∧
      StreetFile.sha256 .download content = sha256 ∧
      ∃ rec ∈ l₂, ∃ m, rec.call = answered (.receive false) (some m) ∧ m.id = id := by
  obtain ⟨here, hsums⟩ := event_checksums hrequests hrun
  obtain ⟨row, sha256, rest, hsha, hchecksummed, hpast⟩ := hsums.written id u hcas hu
  have hreceived : ∃ m, answered (.receive false) (some m) ∈ callsOf e.thread l ∧ m.id = id := by
    rcases event_cases hrequests hrun with ⟨here, hop⟩ | ⟨here, hop | ⟨m, hm, hop⟩⟩
    · rw [hcas] at hop
      cases hop
    · rw [hcas] at hop
      cases hop
    · rw [hcas] at hop
      exact ⟨m, hm, hop.1.symm⟩
  obtain ⟨m, hm, hid⟩ := hreceived
  rw [hpast] at hm
  obtain ⟨l₁, load, m₁, rfl, -, -, hpast, -⟩ := callsOf_eq_cons hpast
  obtain ⟨l₂, up, m₂, rfl, hupt, hup, hpast, -⟩ := callsOf_eq_cons hpast
  have hrec : ∃ rec ∈ l₂, ∃ m, rec.call = answered (.receive false) (some m) ∧ m.id = id := by
    rw [← hpast] at hm
    simp only [List.mem_cons, reduceCtorEq, Call.mk.injEq, false_and, false_or] at hm
    obtain ⟨rec, hrec, -, hc⟩ := mem_callsOf.1 hm
    exact ⟨rec, hrec, m, hc, hid⟩
  have hrun' : Run (serving w requests) (l₂ ++ up :: (m₂ ++ load :: (m₁ ++ e :: r))) p' := by
    simpa using hrun
  have h' : UploadsUndisturbed (l₂ ++ up :: (m₂ ++ load :: (m₁ ++ e :: r))) := by simpa using h
  obtain ⟨content, hlocal, hcontent⟩ := local_checksummed hrequests hw h' hrun'
    (by rwa [hupt, hpast]) (by rw [hup])
  refine ⟨l₂, up, m₂ ++ load :: m₁, here.pod, sha256, content, by simp, hupt.symm, hup, hsha, ?_,
    hcontent, hrec⟩
  rw [Files.content, stored_of_uploaded (hrun.allowed (by simp)) hup]
  exact Files.content_upload hlocal

/-! ## The row names the stored download -/

/-- The event resets the upload in the row. -/
def Resets (e : Event machine) : Prop :=
  ∃ vs u, e.call = answered (.updateInput vs) true ∧ .membershipUpload u ∈ vs

/-- After a reset the upload is completed only if something else is written. -/
theorem not_completed_of_resets (hrequests : ∀ r ∈ requests, r.2.handlesMembership = true)
    (hrun : Run (serving w requests) (l ++ e :: r) p') (he : Resets e)
    (hkeep : ∀ a ∈ r, a.after.upload = a.before.upload) {u : MembershipColumn}
    (hu : p'.world.upload = some u) : ¬u.completed := by
  obtain ⟨vs, v, hc, hv⟩ := he
  obtain ⟨u', hu', hpending⟩ := pending_of_input hrequests hrun hc hv
  have hsame : p'.world.upload = e.after.upload :=
    hrun.chain.beyond.preserves (f := World.upload) fun a ha _ => hkeep a ha
  obtain rfl := Option.some.inj ((hu.symm.trans hsame).trans hu')
  intro hcompleted
  rw [MembershipColumn.completed, hpending] at hcompleted
  cases hcompleted

/-- A task whose upload was reset is not named again. -/
theorem not_named_after_reset (hrequests : ∀ r ∈ requests, r.2.handlesMembership = true)
    (hids : ∀ m ∈ w.messages, m.id < w.nextId) {mid : List (Event machine)} {reset : Event machine}
    (hrun : Run (serving w requests) (l ++ reset :: (mid ++ e :: r)) p') (hreset : Resets reset)
    {id : TaskId}
    (hrec : ∃ rec ∈ l, ∃ m, rec.call = answered (.receive false) (some m) ∧ m.id = id)
    {u : MembershipColumn} (hu : e.before.upload = some u) :
    u.streetProcessing ≠ some (.task id) := by
  obtain ⟨vs, v, hc, hv⟩ := hreset
  obtain ⟨u', hu', hpending⟩ := pending_of_input hrequests hrun hc hv
  have hnot : ∀ u, e.before.upload = some u → u.streetProcessing ≠ some (.task id) := by
    refine hrun.chain.beyond.upto.keeps
      (I := fun v : World => ∀ u, v.upload = some u → u.streetProcessing ≠ some (.task id)) ?_ ?_
    · intro u hu hid
      obtain rfl := Option.some.inj (hu.symm.trans hu')
      rw [hpending] at hid
      cases hid
    · -- a step that names the task comes before its message is received
      intro a ha _ hbefore u hu hid
      obtain ⟨m₁, m₂, rfl⟩ := List.append_of_mem ha
      have hrun' : Run (serving w requests)
          ((l ++ reset :: m₁) ++ a :: (m₂ ++ e :: r)) p' := by simpa using hrun
      have hnames := names_of_upload hrequests hrun' hu hid fun h => hbefore u h hid
      obtain ⟨rec, hmem, m, hcall, hmid⟩ := hrec
      exact not_received_before_named hrequests hids hrun' hnames (List.mem_append_left _ hmem)
        hcall hmid
  exact hnot u hu

/-- A step leaves the stored download alone if it is no upload of another one, and if nobody who
deletes it can reset the upload in time. -/
theorem download_kept (hrequests : ∀ r ∈ requests, r.2.handlesMembership = true)
    (h : UploadsUndisturbed (l ++ e :: r)) (hrun : Run (serving w requests) (l ++ e :: r) p')
    (hreplaces : ¬ReplacesDownload e) (hreset : ∀ a ∈ r, ¬Resets a) :
    e.after.stored.content (.street .download) = e.before.stored.content (.street .download) := by
  rcases download_cases hrequests hrun with hsame | hrep | ⟨pod, fs, hop, hmem, hstored⟩
  · exact hsame
  · exact absurd hrep hreplaces
  · obtain ⟨a, ha, -, vs, u, hc, hu⟩ := h.deleted l e r pod fs rfl hop hmem hstored
    exact absurd ⟨vs, u, hc, hu⟩ (hreset a ha)

/-- Nobody resets an upload that stays as it is and is completed in the end. -/
theorem not_resets_of_completed (hrequests : ∀ r ∈ requests, r.2.handlesMembership = true)
    (hrun : Run (serving w requests) (l ++ r) p')
    (hconst : ∀ a ∈ r, a.after.upload = a.before.upload) {u : MembershipColumn}
    (hu : p'.world.upload = some u) (hcompleted : u.completed) : ∀ a ∈ r, ¬Resets a := by
  intro a ha hreset
  obtain ⟨r₁, r₂, rfl⟩ := List.append_of_mem ha
  have hrun' : Run (serving w requests) ((l ++ r₁) ++ a :: r₂) p' := by simpa using hrun
  exact not_completed_of_resets hrequests hrun' hreset (fun b hb => hconst b (by simp [hb])) hu
    hcompleted

/-- While a completed upload stays in the row, the stored download stays as it is. -/
theorem download_kept_of_completed (hrequests : ∀ r ∈ requests, r.2.handlesMembership = true)
    (h : UploadsUndisturbed (l ++ e :: r)) (hrun : Run (serving w requests) (l ++ e :: r) p')
    (hconst : ∀ a ∈ e :: r, a.after.upload = a.before.upload) {u : MembershipColumn}
    (hu : p'.world.upload = some u) (hcompleted : u.completed) :
    e.after.stored.content (.street .download) = e.before.stored.content (.street .download) := by
  have hafter : p'.world.upload = e.after.upload :=
    hrun.chain.beyond.preserves (f := World.upload) fun a ha _ => hconst a (by simp [ha])
  have hbefore : e.before.upload = some u := by
    rw [← hconst e (by simp), ← hafter, hu]
  have hnone := not_resets_of_completed hrequests hrun hconst hu hcompleted
  exact download_kept hrequests h hrun (h.completed e u (by simp) hbefore hcompleted)
    fun a ha => hnone a (by simp [ha])

/-- Between a task's upload of the download and its record, the stored download stays as it is, if
nobody resets the upload later. -/
theorem download_kept_until_record (hrequests : ∀ r ∈ requests, r.2.handlesMembership = true)
    (hids : ∀ m ∈ w.messages, m.id < w.nextId) {up a : Event machine}
    {m₁ m₂ : List (Event machine)} {id : TaskId} {u u₀ : MembershipColumn}
    (h : UploadsUndisturbed (l ++ up :: (m₁ ++ a :: m₂) ++ e :: r))
    (hrun : Run (serving w requests) (l ++ up :: (m₁ ++ a :: m₂) ++ e :: r) p')
    (hthread : e.thread = up.thread) {pod : ℕ} (hup : up.call = answered (.uploadWorkDir pod) ())
    (hcas : e.call = answered (.updateMembershipUploadOfTask id u) true) (hcompleted : u.completed)
    (hrec : ∃ rec ∈ l, ∃ m, rec.call = answered (.receive false) (some m) ∧ m.id = id)
    (hu₀ : e.before.upload = some u₀) (hnamed : u₀.streetProcessing = some (.task id))
    (hlate : ∀ b ∈ r, ¬Resets b) :
    a.after.stored.content (.street .download) = a.before.stored.content (.street .download) := by
  have hrep := h.recorded l (m₁ ++ a :: m₂) r up e pod id u (by simp) hthread hup hcas
    hcompleted a (by simp)
  have hsplit : l ++ up :: (m₁ ++ a :: m₂) ++ e :: r =
      (l ++ up :: m₁) ++ a :: (m₂ ++ e :: r) := by simp
  rw [hsplit] at h hrun
  apply download_kept hrequests h hrun hrep
  intro b hb hreset
  rcases List.mem_append.1 hb with hb | hb
  · obtain ⟨m₃, m₄, rfl⟩ := List.append_of_mem hb
    have hrun' : Run (serving w requests)
        ((l ++ up :: m₁ ++ a :: m₃) ++ b :: (m₄ ++ e :: r)) p' := by simpa using hrun
    obtain ⟨rec, hmem, m, hc, hid⟩ := hrec
    exact not_named_after_reset hrequests hids hrun' hreset ⟨rec, by simp [hmem], m, hc, hid⟩ hu₀
      hnamed
  · rcases List.mem_cons.1 hb with rfl | hb
    · obtain ⟨vs, v, hc, -⟩ := hreset
      rw [hcas] at hc
      cases hc
    · exact hlate b hb hreset

/-- **The row names the stored download, if uploads are undisturbed.** -/
theorem rowAgrees_of_undisturbed (hrequests : ∀ r ∈ requests, r.2.handlesMembership = true)
    (hcaches : CachesTrue w) (hids : ∀ m ∈ w.messages, m.id < w.nextId) (hw : RowAgrees w)
    (hrun : Run (serving w requests) es p') (h : UploadsUndisturbed es) : RowAgrees p'.world := by
  intro u sha256 hu hcompleted hsha
  rcases last_change World.upload es with hconst | ⟨l, e, r, rfl, hne, hconst⟩
  · -- the row has always named it, and so nothing has replaced the stored download
    have hstored : p'.world.stored.content (.street .download) =
        w.stored.content (.street .download) := by
      refine hrun.chain.preserves
        (f := fun v : World => v.stored.content (.street .download)) fun a ha _ => ?_
      obtain ⟨l, r, rfl⟩ := List.append_of_mem ha
      exact download_kept_of_completed hrequests h hrun
        (fun b hb => hconst b (List.mem_append_right _ hb)) hu hcompleted
    have hupload : p'.world.upload = w.upload :=
      hrun.chain.preserves (f := World.upload) fun a ha _ => hconst a ha
    rw [hstored]
    exact hw u sha256 (hupload ▸ hu) hcompleted hsha
  · -- a task has recorded it, and nothing has replaced the task's download since
    have hlast : p'.world.upload = e.after.upload :=
      hrun.chain.beyond.preserves (f := World.upload) fun a ha _ => hconst a ha
    obtain ⟨u', hu', hstep⟩ := (upload_cases hrequests hrun).resolve_left hne
    obtain rfl : u' = u := Option.some.inj (hu'.symm.trans (hlast.symm.trans hu))
    rcases hstep with ⟨vs, -, -, hnot⟩ | ⟨vs, -, hpending⟩ | ⟨id, hcas, ⟨u₀, hu₀, hnamed⟩, -⟩
    · exact absurd hcompleted hnot
    · rw [MembershipColumn.completed, hpending] at hcompleted
      cases hcompleted
    obtain ⟨l₂, up, mid, pod, sha', content, rfl, hthread, hup, hsha', hstored, hcontent, hrec⟩ :=
      checksummed_stored hrequests hcaches h hrun (by rw [hcas]) hcompleted
    refine ⟨content, ?_, by simpa [hsha] using hcontent.trans (by simpa [hsha] using hsha'.symm)⟩
    have hrun' : Run (serving w requests) ((l₂ ++ up :: mid ++ [e]) ++ r) p' := by simpa using hrun
    have hlate := not_resets_of_completed hrequests hrun' hconst hu hcompleted
    have hchain := hrun.chain
    rw [show l₂ ++ up :: mid ++ e :: r = l₂ ++ up :: (mid ++ e :: r) by simp] at hchain
    rw [← hstored]
    refine hchain.beyond.preserves
      (f := fun v : World => v.stored.content (.street .download)) fun a ha _ => ?_
    rcases List.mem_append.1 ha with ha | ha
    · -- between the upload and the record
      obtain ⟨m₁, m₂, rfl⟩ := List.append_of_mem ha
      exact download_kept_until_record hrequests hids h hrun hthread hup hcas hcompleted hrec hu₀
        hnamed hlate
    rcases List.mem_cons.1 ha with rfl | ha
    · -- the record itself
      refine download_kept hrequests h hrun (fun ⟨q, hop, _⟩ => ?_) hlate
      rw [hcas] at hop
      cases hop
    · -- after the record
      obtain ⟨r₁, r₂, rfl⟩ := List.append_of_mem ha
      have hsplit : l₂ ++ up :: mid ++ e :: (r₁ ++ a :: r₂) =
          (l₂ ++ up :: mid ++ e :: r₁) ++ a :: r₂ := by simp
      rw [hsplit] at h hrun
      exact download_kept_of_completed hrequests h hrun
        (fun b hb => hconst b (List.mem_append_right _ hb)) hu hcompleted

omit [External] in
/-- Newer uploads keep their files exactly when a refused task has no copies of them that differ. -/
theorem newerUploadsKept_iff {p p' : Pool machine Err Unit} (hrun : Run p es p') :
    NewerUploadsKept es ↔ NewerUploadsCurrent es := by
  have hone : ∀ {l mid r up cas pod id f}, RefusedUpload es l mid r up cas pod id →
      (up.after.stored f = up.before.stored f ↔
        (up.before.disk pod).Current up.before.stored f) := by
    intro l mid r up cas pod id f h
    have hup : up ∈ es := by rw [h.split]; simp
    rw [stored_of_uploaded (hrun.allowed hup) h.uploaded]
    exact Files.upload_apply_eq_iff
  constructor
  · intro h l mid r up cas pod id f href hnew
    exact (hone href).1 (h l mid r up cas pod id f href hnew)
  · intro h l mid r up cas pod id f href hnew
    exact (hone href).2 (h l mid r up cas pod id f href hnew)

/-- When no request or task is in the middle of its work, the row names the stored download, and
refused tasks leave newer uploads alone. -/
structure NetworkAgrees (p p' : Pool machine Err Unit) (es : List (Event machine)) : Prop where
  row : p.Idle p' → RowAgrees p'.world
  newer : NewerUploadsKept es

/-- Row and storage agree, whatever uploads, deletions and tasks are served. -/
def NetworkAlwaysAgrees : Prop :=
  ∀ (w : World) (requests : List (Site × Request)) (es : List (Event machine))
    (p' : Pool machine Err Unit), (∀ r ∈ requests, r.2.handlesMembership = true) → CachesTrue w →
    (∀ m ∈ w.messages, m.id < w.nextId) → RowAgrees w → Run (serving w requests) es p' →
    NetworkAgrees (serving w requests) p' es

/-- **Row and storage agree if uploads are undisturbed and refused tasks have no copies of newer
files**, which is also necessary for these files to be kept. -/
theorem network_agrees_when (hrequests : ∀ r ∈ requests, r.2.handlesMembership = true)
    (hcaches : CachesTrue w) (hids : ∀ m ∈ w.messages, m.id < w.nextId) (hw : RowAgrees w)
    (hrun : Run (serving w requests) es p') :
    (UploadsUndisturbed es → NewerUploadsCurrent es →
      NetworkAgrees (serving w requests) p' es) ∧
    (NetworkAgrees (serving w requests) p' es → NewerUploadsCurrent es) := by
  refine ⟨fun h hcurrent => ⟨fun _ => ?_, (newerUploadsKept_iff hrun).2 hcurrent⟩, fun h => ?_⟩
  · exact rowAgrees_of_undisturbed hrequests hcaches hids hw hrun h
  · exact (newerUploadsKept_iff hrun).1 h.newer

omit [External]

/-- The worker of one upload, whose membership file is stored and whose message is on the queue. -/
def oneTask : List (Site × Request) := [(⟨0, 0, none⟩, .uploadWorker)]

def oneTaskPool : Pool machine Err Unit :=
  let _ := External.plain
  let job := JobModel.blank
  let upload := { job.membershipUpload with streetProcessing := .task 0 }
  serving
    { World.fresh (.ofModel { job with membershipUpload := upload }) with
      stored := Function.update (fun _ => none) .memberships (some ⟨.whole plainTable, 0, none⟩)
      messages := [⟨0, .upload 25832, 0⟩]
      nextId := 1 }
    oneTask

def oneTaskSchedule : List (ℕ × Choice) := usually (List.replicate 21 0)

def Op.uploadsWorkDir : Op → Bool
  | .uploadWorkDir _ => true
  | _ => false

/-- Files are deleted, or the task is superseded. -/
def deletesOrRefused : Call sig → Bool
  | ⟨.deleteFiles .., _⟩ | ⟨.updateMembershipUploadOfTask .., .ok false⟩ => true
  | _ => false

/-- A task served alone. -/
theorem network_agrees_alone :
    NetworkAgrees oneTaskPool (oneTaskPool.play oneTaskSchedule).2
      (oneTaskPool.play oneTaskSchedule).1 := by
  let _ := External.plain
  have hthread : ∀ e ∈ (oneTaskPool.play oneTaskSchedule).1, e.thread = 0 := by decide +kernel
  have hpending : ∀ e ∈ (oneTaskPool.play oneTaskSchedule).1,
      e.before.upload.map MembershipColumn.streetProcessing = some (some (.task 0)) := by
    decide +kernel
  have hone : (oneTaskPool.play oneTaskSchedule).1.countP (·.call.op.uploadsWorkDir) = 1 := by
    decide +kernel
  have hcall : ∀ e ∈ (oneTaskPool.play oneTaskSchedule).1, deletesOrRefused e.call = false := by
    decide +kernel
  have hrun : Run (serving oneTaskPool.world oneTask) _ _ :=
    Run.of_play oneTaskSchedule oneTaskPool
  refine (network_agrees_when (by decide) (fun _ _ _ h => by cases h) (by decide +kernel)
    (fun u sha256 hu hc => by cases hu; cases hc) hrun).1 ⟨?_, ?_, ?_, ?_⟩ ?_
  · intro e u he hu hc _
    have hp := hpending e he
    rw [hu, Option.map_some, hc] at hp
    cases hp
  · rintro l mid r up cas pod id u hes - hup - - a ha ⟨q, hop, -⟩
    have hup' : up.call.op.uploadsWorkDir = true := by rw [hup]; rfl
    have hpos : 0 < mid.countP (·.call.op.uploadsWorkDir) :=
      List.countP_pos_iff.2 ⟨a, ha, by rw [hop]; rfl⟩
    rw [hes, List.countP_append, List.countP_cons, if_pos hup',
      List.countP_append] at hone
    omega
  · rintro l mid r stat e pod mtime hes - - - a ha hne
    exact absurd ((hthread a (by simp [hes, ha])).trans (hthread stat (by simp [hes])).symm) hne
  · intro l e r pod fs hes hop
    have hc := hcall e (by simp [hes])
    obtain ⟨t, ⟨o, ans⟩, before, after⟩ := e
    cases hop
    cases hc
  · intro l mid r up cas pod id f h
    obtain ⟨u, hrefused⟩ := h.refused
    have hc := hcall cas (by simp [h.split])
    rw [hrefused] at hc
    cases hc

/-! ## A superseded task -/

/-- Two membership files are uploaded, and two workers take their tasks. -/
def twoTasks : List (Site × Request) :=
  [(⟨0, 0, none⟩, .uploadMembership (.ok plainTable) 25832),
    (⟨1, 0, none⟩, .uploadMembership (.ok plainTable) 25832),
    (⟨2, 0, none⟩, .uploadWorker), (⟨3, 0, none⟩, .uploadWorker)]

def twoTasksPool : Pool machine Err Unit :=
  let _ := External.plain
  serving (.fresh (.ofModel .blank)) twoTasks

/-- Overpass answers with a road. -/
def oneWay : Choice := { Choice.usual with ways := [⟨1, [1, 2], [(0, 0), (1, 1)], []⟩] }

/-- The first task gets as far as the checksum of its empty network, the second upload and its task
are served, and then the first task uploads its work dir and is refused. -/
def supersededSchedule : List (ℕ × Choice) :=
  usually (List.replicate 19 0 ++ List.replicate 18 2 ++ List.replicate 20 1 ++
    List.replicate 7 3) ++ [(3, oneWay)] ++ usually (List.replicate 13 3 ++ List.replicate 3 2)

/-- The road of that answer. -/
def oneRoad : Feature := ⟨1, [(0, 0), (1, 1)], buildProperties 1 [1, 2] [], by decide⟩

/-- **A superseded task replaces a newer network**: the row names a download that is not stored. -/
theorem superseded_task_overwrites : ¬ @NetworkAlwaysAgrees External.plain := by
  intro h
  let _ := External.plain
  have hagrees := h _ twoTasks _ _ (by decide) (fun _ _ _ h => by cases h)
    (fun _ h => by cases h) (fun u sha256 hu hc => by cases hu; cases hc)
    (Run.of_play supersededSchedule twoTasksPool)
  have hidle : twoTasksPool.Idle (twoTasksPool.play supersededSchedule).2 := by
    have hended : ∀ prog ∈ (twoTasksPool.play supersededSchedule).2.threads, prog.Ended := by
      decide +kernel
    intro t prog ht
    exact .inr (hended prog (List.mem_of_getElem? ht))
  have hrow : (twoTasksPool.play supersededSchedule).2.world.upload.map
      (fun u => (u.streetProcessing, u.downloadSha256)) =
        some (some .completed, some (some (StreetFile.sha256 .download (.whole [oneRoad])))) := by
    decide +kernel
  have hstored : (twoTasksPool.play supersededSchedule).2.world.stored.content
      (.street .download) = some (.whole []) := by
    decide +kernel
  obtain ⟨u, hu, huc⟩ := Option.map_eq_some_iff.1 hrow
  obtain ⟨hcompleted, hsha⟩ := Prod.mk.inj huc
  obtain ⟨content, hcontent, hnamed⟩ := hagrees.row hidle u _ hu hcompleted hsha
  rw [hstored] at hcontent
  obtain rfl := Option.some.inj hcontent
  cases hnamed

end Cosmonaut
