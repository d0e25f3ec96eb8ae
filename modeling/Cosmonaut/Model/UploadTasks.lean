import Cosmonaut.Model.TaskIds

/-!
# Uploads, deletions and the upload tasks

What the requests that work on the membership file can ask for and in which order: the upload and
deletion of a membership file (`Op.ofUpload`) and the upload task (`Op.ofTask`).

* `not_received_before_named`: no worker has taken a task's message before the task is named.
* `uploadWorker_checksums`: the checksum a task writes is that of the file it has looked at last.
-/

namespace Cosmonaut

open Interleaving Program

/-- The requests that work on the membership file. -/
def Request.handlesMembership : Request → Bool
  | .uploadMembership .. | .deleteMembership | .uploadWorker => true
  | _ => false

/-! ## What they ask for -/

/-- What an upload or a deletion of a membership file may ask for. -/
def Op.ofUpload (here : Site) : Op → Prop
  | .updateInput vs => ∀ u, .membershipUpload u ∈ vs → u.streetProcessing = some .pending
  | .updateColumns vs => ∀ u, .membershipUpload u ∈ vs → u.streetProcessing ≠ some .completed
  | .submitJob _ id => id ≠ none
  | .loadRow | .revokeJob _ | .uuid4 | .deleteFiles .. | .uploadWorkDir _ => True
  | o => o.isDisk here = true

/-- What the upload task may ask for, when it was taken from the queue under the id. -/
def Op.ofTask (here : Site) (id : TaskId) : Op → Prop
  | .updateMembershipUploadOfTask id' u =>
    id' = id ∧ (u.streetProcessing = some .completed ∨ u.streetProcessing = some .failed)
  | .retry m => m.id = id
  | .loadRow | .streamWays | .sendMail _ => True
  | .uploadWorkDir pod | .mtime pod _ => pod = here.pod
  | .cachedChecksum s _ | .cacheChecksum s .. => s = here
  | o => o.isDisk here = true

variable {here : Site}

theorem ofUpload_menu (here : Site) : InputMenu here (Op.ofUpload here) where
  disk o h := by cases o <;> first | exact h | cases h
  load := trivial
  revoke _ := trivial
  delete _ := trivial
  upload := trivial
  inputs _ h _ hu := h.pending hu

theorem submitUpload_asks (job : JobModel) (epsg : ℤ) :
    Asks (Op.ofUpload here) (submitUpload job epsg) := by
  have hname : ∀ state, state ≠ .completed → Asks (Op.ofUpload here)
      (CosmonautJob.updateColumns (withStreetProcessing job state) [.membershipUpload]) := by
    intro state hstate
    apply asks_ask
    intro u hu
    obtain rfl := ColumnValue.membershipUpload.inj (List.mem_singleton.1 hu)
    simpa [JobModel.row, withStreetProcessing, MembershipUpload.column] using hstate
  refine .bind (asks_ask trivial) fun id => .bind (hname _ (by simp)) fun _ =>
    .bind (.tryCatch (asks_ask (by simp [Op.ofUpload])) fun e => ?_) fun r => ?_
  · exact always_ite (fun _ => trivial) fun _ => .bind (hname _ (by simp)) fun _ => trivial
  · exact always_ite (fun _ => hname _ (by simp)) fun _ => trivial

section

variable [External]

/-- **What an upload of a membership file can ask for.** -/
theorem handleMembershipUpload_asks (content : Except String String) (epsg : ℤ) :
    Asks (Op.ofUpload here) (handleMembershipUpload here content epsg) := by
  have hm := ofUpload_menu here
  refine .bind (.bind (asks_ask trivial) fun _ => trivial) fun job => always_ite (fun _ => trivial)
    fun _ => .bind (hm.deleteMembership _) fun job => .bind (hm.tryUploadMembership _ _ _)
    fun r => ?_
  split
  · trivial
  · exact .bind (hm.onDisk (rewriteFile_onDisk _ _)) fun _ => .bind (asks_ask trivial) fun _ =>
      .bind (hm.disk' (by simp [Op.isDisk])) fun _ => submitUpload_asks _ _

theorem deleteMembershipFile_asks :
    Asks (Op.ofUpload here) (deleteMembershipFile here) :=
  .bind (.bind (asks_ask trivial) fun _ => trivial) fun _ => always_ite (fun _ => trivial) fun _ =>
    .bind ((ofUpload_menu here).deleteMembership _) fun _ => trivial

omit [External] in
theorem ofTask_of_isDisk {id : TaskId} {o : Op} (h : o.isDisk here = true) : o.ofTask here id := by
  cases o <;> first | exact h | cases h

theorem failUpload_ofTask (id : TaskId) (error : Err) :
    Asks (Op.ofTask here id) (failUpload id error) := by
  refine .bind (.tryCatch (.bind (.bind (asks_ask trivial) fun _ => trivial) fun job =>
    .bind (asks_ask ⟨rfl, .inr rfl⟩) fun _ => trivial) fun e => ?_) fun _ => ?_
  · exact always_ite (fun _ => trivial) fun _ => trivial
  · exact .bind (asks_ask trivial) fun _ => trivial

omit [External] in
theorem fileSha256_ofTask (id : TaskId) (s : StreetFile) :
    Asks (Op.ofTask here id) (fileSha256 here s) := by
  refine .bind (asks_ask rfl) fun stat => .bind (asks_ask rfl) fun cached => ?_
  split
  · trivial
  · exact .bind (asks_ask (by simp [Op.ofTask, Op.isDisk])) fun _ => .bind (asks_ask rfl) fun _ =>
      trivial

/-- **What the upload task can ask for.** -/
theorem processUploadTask_ofTask (m : Message) (epsg : ℤ) :
    Asks (Op.ofTask here m.id) (processUploadTask here m epsg) := by
  have hload : Asks (Op.ofTask here m.id) CosmonautJob.load :=
    .bind (asks_ask trivial) fun _ => trivial
  have hdisk : ∀ {α : Type} {p : App α}, OnDisk here p → Asks (Op.ofTask here m.id) p :=
    fun h => (h.mono fun _ => ofTask_of_isDisk).always
  have hfail : ∀ e, Asks (Op.ofTask here m.id) (do failUpload m.id e; (raise e : App Unit)) :=
    fun e => .bind (failUpload_ofTask _ _) fun _ => trivial
  have hretry : ∀ e, Asks (Op.ofTask here m.id) (retryOrFail m e) := fun e =>
    always_ite (fun _ => hfail e) fun _ => .bind (asks_ask rfl) fun _ => trivial
  refine .bind hload fun _ => .tryCatch ?_ fun e => always_ite (fun _ => trivial) fun _ => ?_
  · exact .bind (hdisk (calls_ask (by simp [Op.isDisk]))) fun _ =>
      .bind (hdisk (transformMembership_onDisk _)) fun data =>
      .bind (calls_osmDownloader data epsg).always fun osm =>
      .bind (runOsmQuery_calls (fun _ => ofTask_of_isDisk) trivial osm).always fun _ =>
      .bind (fileSha256_ofTask _ _) fun _ => .bind (asks_ask rfl) fun _ => .bind hload fun _ =>
      .bind (asks_ask ⟨rfl, .inl rfl⟩) fun _ => trivial
  · dsimp only
    split
    · exact hretry _
    · exact always_ite (fun _ => hretry _) fun _ => hfail _
    · exact hfail _

/-- The call takes a message from the queue, or works on one taken before. -/
def OnReceived (here : Site) (past : List (Call sig)) (c : Call sig) : Prop :=
  c.op = .receive false ∨
    ∃ m, answered (.receive false) (some m) ∈ past ∧ c.op.ofTask here m.id

/-- **An upload worker works on the message it has received.** -/
theorem uploadWorker_onReceived :
    (uploadWorker here).Trail (OnReceived here) (fun _ _ => True) [] := by
  intro received
  refine ⟨.inl rfl, ?_⟩
  obtain f | _ | m := received
  · trivial
  · trivial
  have hon : ∀ (past : List (Call sig)) (c : Call sig),
      [answered (.receive false) (some m)] ⊆ past → c.op.ofTask here m.id →
        OnReceived here past c :=
          fun past c hsub hc => .inr ⟨m, hsub (List.mem_singleton_self _), hc⟩
  obtain ⟨id, _ | epsg, retries⟩ := m
  · trivial
  · have hask : Asks (Op.ofTask here id) _ :=
      processUploadTask_ofTask ⟨id, .upload epsg, retries⟩ epsg
    exact (hask.trail_after hon (List.Subset.refl _)).mono (fun _ _ h => h) fun _ _ _ => trivial

/-! ## Naming a task, and sending it -/

/-- A task is named once, and sent only after it is named. -/
structure Announces (past : List (Call sig)) (c : Call sig) : Prop where
  once : c.op.namesTask = true → ∀ a ∈ past, a.op.namesTask = false
  sent : ∀ task id, c.op = .submitJob task (some id) → ∃ vs u,
    answered (.updateColumns vs) () ∈ past ∧ .membershipUpload u ∈ vs ∧
      u.streetProcessing = some (.task id)

/-- The operation neither names nor sends a task. -/
def Op.announcesNone : Op → Bool
  | .submitJob .. => false
  | o => !o.namesTask

omit [External] in
theorem announces_of_none {past : List (Call sig)} {c : Call sig}
    (h : c.op.announcesNone = true) : Announces past c := by
  obtain ⟨o, r⟩ := c
  constructor
  · intro hn
    cases o <;> first | cases hn | skip
    simp only [Op.announcesNone, hn] at h
    cases h
  · rintro task id rfl
    cases h

omit [External] in
theorem namesNone_of_announcesNone {o : Op} (h : o.announcesNone = true) : o.namesTask = false := by
  cases o <;> first | rfl | cases h | skip
  simpa [Op.announcesNone] using h

omit [External] in
theorem announcesNone_of_isDisk {o : Op} (h : o.isDisk here = true) : o.announcesNone = true := by
  cases o <;> first | rfl | cases h

omit [External] in
theorem announcesNone_menu (here : Site) : InputMenu here fun o => o.announcesNone = true where
  disk _ := announcesNone_of_isDisk
  load := rfl
  revoke _ := rfl
  delete _ := rfl
  upload := rfl
  inputs _ _ := rfl

omit [External] in
theorem announcesNone_of_ofTask {id : TaskId} {o : Op} (h : o.ofTask here id) :
    o.announcesNone = true := by
  cases o <;> first | rfl | cases h

omit [External] in
theorem submitUpload_announces (job : JobModel) (epsg : ℤ) {past : List (Call sig)}
    (hpast : ∀ a ∈ past, a.op.announcesNone = true) :
    (submitUpload job epsg).Trail Announces (fun _ _ => True) past := by
  intro r
  refine ⟨announces_of_none rfl, ?_⟩
  rcases r with f | id
  · trivial
  -- the naming comes next, then the sending, and a failure names no task
  have hfailed : (endUploadFailed (withStreetProcessing job (.task id))).Always
      fun c : Call sig => c.op.announcesNone = true := always_call fun _ => rfl
  intro r
  refine ⟨⟨fun _ a ha => ?_, fun _ _ h => by cases h⟩, ?_⟩
  · rcases List.mem_cons.1 ha with rfl | ha
    · rfl
    · exact namesNone_of_announcesNone (hpast a ha)
  rcases r with f | u
  · trivial
  intro r
  refine ⟨⟨nofun, fun task id' h => ?_⟩, ?_⟩
  · cases h
    exact ⟨_, _, List.mem_cons_self, List.mem_singleton_self _, rfl⟩
  have hrest : ∀ failed : Bool, (if failed = true then
      endUploadFailed (withStreetProcessing job (.task id)) else pure ()).Always
        fun c : Call sig => c.op.announcesNone = true :=
    fun failed => always_ite (fun _ => hfailed) fun _ => trivial
  rcases r with f | ⟨a, failed⟩
  · refine (Always.trail (A := fun c : Call sig => c.op.announcesNone = true) ?_ _).mono
      (fun _ _ => announces_of_none) fun _ _ h => h
    exact Always.bind (always_ite (fun _ => trivial) fun _ => .bind hfailed fun _ => trivial)
      fun r => hrest r.2
  · exact ((hrest failed).trail _).mono (fun _ _ => announces_of_none) fun _ _ h => h

/-- **A request names a task before it sends it**, and names no other. -/
theorem Request.announces {r : Request} (hr : r.handlesMembership = true) :
    (r.program here).Trail Announces (fun _ _ => True) [] := by
  have hnone : ∀ {p : App Unit}, Asks (fun o => o.announcesNone = true) p →
      p.Trail Announces (fun _ _ => True) [] := fun h =>
    (Always.trail h []).mono (fun _ _ => announces_of_none) fun _ _ h => h
  have hm := announcesNone_menu here
  have hask : ∀ {o : Op}, o.announcesNone = true → Asks (fun o => o.announcesNone = true) (ask o) :=
    fun h => asks_ask (P := fun o : Op => o.announcesNone = true) h
  cases r
  case uploadMembership content epsgInput =>
    have hseq : ∀ {α : Type} {p : App α} {f : α → App Unit} {past : List (Call sig)},
        Asks (fun o => o.announcesNone = true) p → (∀ c ∈ past, c.op.announcesNone = true) →
        (∀ a past, (∀ c ∈ past, c.op.announcesNone = true) →
          (f a).Trail Announces (fun _ _ => True) past) →
        (p >>= f).Trail Announces (fun _ _ => True) past := fun hp hpast hf =>
      Always.trail_bind_all hp hpast (fun _ _ _ => announces_of_none) hf
    refine hseq (.bind (hask rfl) fun _ => trivial) (by simp) fun job past hpast => ?_
    split
    · trivial
    apply hseq (hm.deleteMembership _) hpast
    intro job past hpast
    apply hseq (hm.tryUploadMembership _ _ _) hpast
    intro r past hpast
    split
    · trivial
    apply hseq (hm.onDisk (rewriteFile_onDisk _ _)) hpast
    intro _ past hpast
    apply hseq (hask rfl) hpast
    intro _ past hpast
    exact hseq (hm.disk' (by simp [Op.isDisk])) hpast fun _ past hpast =>
      submitUpload_announces _ _ hpast
  case deleteMembership =>
    exact hnone (.bind (.bind (hask rfl) fun _ => trivial) fun _ =>
      always_ite (fun _ => trivial) fun _ => .bind (hm.deleteMembership _) fun _ => trivial)
  case uploadWorker =>
    refine hnone (.bind (hask rfl) fun m => ?_)
    split
    · split
      · exact (processUploadTask_ofTask _ _).mono fun _ => announcesNone_of_ofTask
      · trivial
    · trivial
  all_goals cases hr

end

/-! ## Messages -/

/-- A message on the queue was there before, or the step has sent it. -/
theorem exec_messages {o : Op} {c : Choice} {w : World} {m : Message}
    (h : m ∈ (exec o c w).2.messages) :
    m ∈ w.messages ∨ (∃ task id, o = .submitJob task id ∧ m.id = id.getD w.nextId) ∨
      ∃ m', o = .retry m' ∧ m.id = m'.id := by
  have henqueue : ∀ {task id}, m ∈ (w.enqueue task id).messages →
      m ∈ w.messages ∨ m.id = id.getD w.nextId := by
    intro task id h
    rcases List.mem_append.1 h with h | h
    · exact .inl h
    · exact .inr (by rw [List.mem_singleton.1 h])
  have hsubmit : ∀ {task id}, o = .submitJob task id → m ∈ (w.enqueue task id).messages →
      m ∈ w.messages ∨ (∃ task id, o = .submitJob task id ∧ m.id = id.getD w.nextId) ∨
        ∃ m', o = .retry m' ∧ m.id = m'.id := fun ho h =>
    (henqueue h).imp_right fun h => .inl ⟨_, _, ho, h⟩
  rcases hf : o.fault c with _ | e
  case some =>
    rw [exec_of_fault hf] at h
    cases o
    case submitJob =>
      simp only [interrupted] at h
      split at h
      · exact hsubmit rfl h
      · exact .inl h
    all_goals exact .inl h
  rw [exec_of_no_fault hf] at h
  cases o
  case submitJob =>
    simp only [perform] at h
    split at h
    · split at h
      · exact hsubmit rfl h
      · exact .inl h
    · exact hsubmit rfl h
  case retry m' =>
    rcases List.mem_append.1 h with h | h
    · exact .inl h
    · exact .inr (.inr ⟨m', rfl, by rw [List.mem_singleton.1 h]⟩)
  case receive =>
    simp only [perform] at h
    split at h
    · split at h
      · dsimp only at h
        split at h
        · exact .inl h
        · exact .inl (List.mem_of_mem_eraseIdx h)
      · exact .inl h
    · exact .inl h
  case updateColumns | raiseStage =>
    simp only [perform, World.require] at h
    split at h <;> exact .inl h
  case updateInput | setStreetProcessingOfTask | updateMembershipUploadOfTask | markStartFailed |
      markPending | finish =>
    simp only [perform, World.update] at h
    split at h <;> (try split at h) <;> exact .inl h
  case loadRow | writeRow | markEndNotified | markQueued | markCancelled | sweep | deleteJob |
      replaceFile | removeFile | claim | sendMail =>
    simp only [perform] at h
    split at h <;> (try split at h) <;> exact .inl h
  all_goals exact .inl h

/-- A message received was on the queue. -/
theorem mem_of_received {e : Event machine} (he : e.Allowed) {m : Message}
    (hc : e.call = answered (.receive false) (some m)) : m ∈ e.before.messages := by
  obtain ⟨c, hafter⟩ := after_of_answered he hc
  simp only [perform] at hafter
  split at hafter
  · rename_i m' hm'
    split at hafter
    · simp only [Prod.mk.injEq, Except.ok.injEq, Option.ite_none_left_eq_some,
        Option.some.injEq] at hafter
      obtain ⟨⟨-, rfl⟩, -⟩ := hafter
      exact List.mem_of_getElem? hm'
    · simp at hafter
  · simp at hafter

variable {w : World} {requests : List (Site × Request)} {es : List (Event machine)}
  {p' : Pool machine Err Unit}

/-- The id is older than the run, or a task was sent under it. -/
def Known (w : World) (es : List (Event machine)) (id : TaskId) : Prop :=
  id < w.nextId ∨ ∃ e ∈ es, ∃ task, e.call.op = .submitJob task (some id)

theorem Known.mono {es' : List (Event machine)} {id : TaskId} (h : Known w es id)
    (hsub : es ⊆ es') :
    Known w es' id :=
  h.imp_right fun ⟨e, he, hop⟩ => ⟨e, hsub he, hop⟩

variable [External]

/-- The two kinds of threads: uploads and deletions, and workers on a message. -/
theorem event_cases (hrequests : ∀ r ∈ requests, r.2.handlesMembership = true)
    {l r : List (Event machine)} {e : Event machine}
    (hrun : Run (serving w requests) (l ++ e :: r) p') :
    (∃ here, e.call.op.ofUpload here) ∨ ∃ here, OnReceived here (callsOf e.thread l) e.call := by
  have he : e ∈ l ++ e :: r := by simp
  obtain ⟨prog, hprog⟩ := hrun.thread_mem he
  obtain ⟨here, q, hq, rfl⟩ := serving_threads hprog
  have hkind := hrequests _ (List.mem_of_getElem? hq)
  cases q
  case uploadMembership content epsgInput =>
    exact .inl ⟨here, hrun.always he hprog (handleMembershipUpload_asks content epsgInput)⟩
  case deleteMembership => exact .inl ⟨here, hrun.always he hprog deleteMembershipFile_asks⟩
  case uploadWorker => exact .inr ⟨here, hrun.trail hprog uploadWorker_onReceived⟩
  all_goals cases hkind

/-- What any of them asks for. -/
theorem op_cases (hrequests : ∀ r ∈ requests, r.2.handlesMembership = true)
    {l r : List (Event machine)} {e : Event machine}
    (hrun : Run (serving w requests) (l ++ e :: r) p') :
    (∃ here, e.call.op.ofUpload here) ∨ e.call.op = .receive false ∨
      ∃ here id, e.call.op.ofTask here id :=
  (event_cases hrequests hrun).imp_right fun ⟨here, h⟩ =>
    h.imp_right fun ⟨m, _, hop⟩ => ⟨here, m.id, hop⟩

/-- A message on the queue goes by an id that is known. -/
theorem known_of_message (hrequests : ∀ r ∈ requests, r.2.handlesMembership = true)
    (hw : ∀ m ∈ w.messages, m.id < w.nextId) (hrun : Run (serving w requests) es p') :
    (∀ m ∈ p'.world.messages, Known w es m.id) ∧
      ∀ e ∈ es, ∀ m, e.call = answered (.receive false) (some m) → Known w es m.id := by
  induction hrun with
  | nil => exact ⟨fun m hm => .inl (hw m hm), fun e he => by cases he⟩
  | @snoc es e q q' t c hrun hst ih =>
    obtain ⟨hqueue, hreceived⟩ := ih
    have hrun' := Run.snoc t c hrun hst
    have hsub : es ⊆ es ++ [e] := List.subset_append_left _ _
    have hcases := event_cases hrequests hrun'
    obtain ⟨o, k, hk, rfl, rfl⟩ := Pool.step_cases hst
    refine ⟨fun m hm => ?_, fun a ha m hc => ?_⟩
    · rcases exec_messages hm with hm | ⟨task, id, rfl, hid⟩ | ⟨m', rfl, hid⟩
      · exact (hqueue m hm).mono hsub
      · obtain ⟨here, hop⟩ | ⟨here, hop | ⟨m', -, hop⟩⟩ := hcases
        · obtain ⟨id, rfl⟩ := Option.ne_none_iff_exists'.1 hop
          exact .inr ⟨_, List.mem_append_right _ (List.mem_singleton_self _), task,
            by rw [hid]; rfl⟩
        · cases hop
        · cases hop
      · obtain ⟨here, hop⟩ | ⟨here, hop | ⟨m₀, hm₀, hop⟩⟩ := hcases
        · cases hop
        · cases hop
        · obtain ⟨a, ha, -, hc⟩ := mem_callsOf.1 hm₀
          have hknown := (hreceived a ha m₀ hc).mono hsub
          rwa [hid, show m'.id = m₀.id from hop]
    · rcases List.mem_append.1 ha with ha | ha
      · exact (hreceived a ha m hc).mono hsub
      · have hallowed := hrun'.allowed (List.mem_append_right _ ha)
        have hm := mem_of_received hallowed hc
        rw [List.mem_singleton.1 ha] at hm
        exact (hqueue m hm).mono hsub

/-- The operation names the task. -/
def Op.names (o : Op) (id : TaskId) : Prop :=
  ∃ vs u, o = .updateColumns vs ∧ .membershipUpload u ∈ vs ∧ u.streetProcessing = some (.task id)

omit [External] in
theorem Op.names.namesTask {o : Op} {id : TaskId} (h : o.names id) : o.namesTask = true := by
  obtain ⟨vs, u, rfl, hu, hid⟩ := h
  rw [Op.namesTask, List.any_eq_true]
  exact ⟨_, hu, by rw [ColumnValue.namesTask, MembershipColumn.namesTask, hid]⟩

/-- Whoever names a task has drawn its id before. -/
theorem drawn_of_named {l r : List (Event machine)} {e : Event machine}
    (hrun : Run (serving w requests) (l ++ e :: r) p') {id : TaskId} (hn : e.call.op.names id) :
    ∃ d ∈ l, d.thread = e.thread ∧ Draws d id := by
  obtain ⟨prog, hprog⟩ := hrun.thread_mem (e := e) (by simp)
  obtain ⟨here, q, -, rfl⟩ := serving_threads hprog
  obtain ⟨vs, u, hop, hu, hid⟩ := hn
  obtain ⟨d, hd, hthread, hc⟩ := mem_callsOf.1 (hrun.trail hprog q.namesOwnTask vs u id hop hu hid)
  exact ⟨d, hd, hthread, draws_of_uuid4 (hrun.allowed (by simp [hd])) hc⟩

theorem event_announces (hrequests : ∀ r ∈ requests, r.2.handlesMembership = true)
    {l r : List (Event machine)} {e : Event machine}
    (hrun : Run (serving w requests) (l ++ e :: r) p') :
    Announces (callsOf e.thread l) e.call := by
  obtain ⟨prog, hprog⟩ := hrun.thread_mem (e := e) (by simp)
  obtain ⟨here, q, hq, rfl⟩ := serving_threads hprog
  exact hrun.trail hprog (q.announces (hrequests _ (List.mem_of_getElem? hq)))

/-- **No worker has taken a task's message before the task is named.** -/
theorem not_received_before_named (hrequests : ∀ r ∈ requests, r.2.handlesMembership = true)
    (hw : ∀ m ∈ w.messages, m.id < w.nextId) {l r : List (Event machine)} {e : Event machine}
    (hrun : Run (serving w requests) (l ++ e :: r) p') {id : TaskId} (hn : e.call.op.names id)
    {rec : Event machine} (hrec : rec ∈ l) {m : Message}
    (hc : rec.call = answered (.receive false) (some m)) : m.id ≠ id := by
  rintro rfl
  obtain ⟨d, hd, hdthread, hdraws⟩ := drawn_of_named hrun hn
  have honce := (event_announces hrequests hrun).once hn.namesTask
  -- when the message was received, its id was known
  have hknown : ∃ l₁ l₂, l = l₁ ++ rec :: l₂ ∧ Known w l₁ m.id := by
    obtain ⟨l₁, l₂, rfl⟩ := List.append_of_mem hrec
    rw [List.append_assoc, List.cons_append] at hrun
    obtain ⟨q, c, q', hq, hst⟩ := hrun.at
    obtain ⟨o, k, -, hev, -⟩ := Pool.step_cases hst
    have hm := mem_of_received (hrun.allowed (by simp)) hc
    rw [show rec.before = q.world by rw [hev]] at hm
    exact ⟨l₁, l₂, rfl, (known_of_message hrequests hw hq).1 m hm⟩
  obtain ⟨l₁, l₂, rfl, hold | ⟨s, hs, task, hsend⟩⟩ := hknown
  · -- the id is drawn in this run, so it is not older
    have hle : w.nextId ≤ d.before.nextId := nextId_le_of_mem hrun (List.mem_append_left _ hd)
    rw [hdraws.1] at hle
    exact absurd hold (not_lt.2 hle)
  · -- its sender has named the task already, and is the one who names it now
    obtain ⟨l₃, l₄, rfl⟩ := List.append_of_mem hs
    have hrun₁ : Run (serving w requests)
        (l₃ ++ s :: (l₄ ++ rec :: l₂ ++ e :: r)) p' := by simpa using hrun
    obtain ⟨vs, u, hnamed, hu, hid⟩ := (event_announces hrequests hrun₁).sent task m.id hsend
    obtain ⟨n, hnl, hnthread, hncall⟩ := mem_callsOf.1 hnamed
    have hnames : n.call.op.names m.id := ⟨vs, u, by rw [hncall], hu, hid⟩
    obtain ⟨l₅, l₆, rfl⟩ := List.append_of_mem hnl
    have hrun₂ : Run (serving w requests)
        (l₅ ++ n :: (l₆ ++ s :: (l₄ ++ rec :: l₂ ++ e :: r))) p' := by simpa using hrun
    obtain ⟨d', hd', hdthread', hdraws'⟩ := drawn_of_named hrun₂ hnames
    obtain rfl := drawn_once hrun (List.mem_append_left _ hd) (by simp [hd']) hdraws hdraws'
    have hmem : n.call ∈ callsOf e.thread (l₅ ++ n :: l₆ ++ s :: l₄ ++ rec :: l₂) :=
      mem_callsOf.2 ⟨n, by simp, by rw [← hdthread', hdthread], rfl⟩
    have hnone := honce _ hmem
    rw [hnames.namesTask] at hnone
    cases hnone

/-! ## The checksum -/

omit [External]

/-- The last calls have taken the checksum of the download: from the cache, by its modification
time, or by reading it. -/
inductive Checksummed (here : Site) (sha256 : Sha256) : List (Call sig) → Prop
  | hit (mtime) (rest : List (Call sig)) :
    Checksummed here sha256 (answered (.cachedChecksum here .download) (some (mtime, sha256)) ::
      answered (.mtime here.pod (.street .download)) mtime :: rest)
  | miss (mtime cached content) (rest : List (Call sig)) :
    StreetFile.sha256 .download content = sha256 →
    Checksummed here sha256 (answered (.cacheChecksum here .download mtime sha256) () ::
      answered (.readFile here.pod (.street .download)) content ::
      answered (.cachedChecksum here .download) cached ::
      answered (.mtime here.pod (.street .download)) mtime :: rest)

/-- A checksum is cached after the file was read, and written after the file was uploaded. -/
structure Checksums (here : Site) (past : List (Call sig)) (c : Call sig) : Prop where
  cached : ∀ site mtime sha256, c.op = .cacheChecksum site .download mtime sha256 →
    ∃ content cached rest, StreetFile.sha256 .download content = sha256 ∧ site = here ∧
      past = answered (.readFile here.pod (.street .download)) content ::
        answered (.cachedChecksum here .download) cached ::
        answered (.mtime here.pod (.street .download)) mtime :: rest
  written : ∀ id u, c.op = .updateMembershipUploadOfTask id u →
    u.streetProcessing = some .completed →
    ∃ r sha256 rest, u.downloadSha256 = some (some sha256) ∧ Checksummed here sha256 rest ∧
      past = answered .loadRow r :: answered (.uploadWorkDir here.pod) () :: rest

/-- The operation neither caches nor writes a checksum. -/
def Op.checksumsNone : Op → Bool
  | .cacheChecksum .. => false
  | .updateMembershipUploadOfTask _ u => u.streetProcessing ≠ some .completed
  | _ => true

theorem checksums_of_none {past : List (Call sig)} {c : Call sig}
    (h : c.op.checksumsNone = true) : Checksums here past c := by
  obtain ⟨o, r⟩ := c
  constructor
  · rintro site mtime sha256 rfl
    cases h
  · rintro id u rfl hu
    simp [Op.checksumsNone, hu] at h

variable [External]

omit [External] in
/-- What taking the checksum leaves in view. -/
theorem fileSha256_checksums (past : List (Call sig)) :
    (fileSha256 here .download).Trail (Checksums here)
      (fun past r => ∀ sha256, r = .ok sha256 → Checksummed here sha256 past) past := by
  have hnone : ∀ {past : List (Call sig)} {c : Call sig}, c.op.checksumsNone = true →
      Checksums here past c := checksums_of_none
  intro r
  refine ⟨hnone rfl, ?_⟩
  rcases r with f | mtime
  · exact nofun
  intro r
  refine ⟨hnone rfl, ?_⟩
  rcases r with f | cached
  · exact nofun
  dsimp only [Program.bind]
  split
  · -- the cached checksum is filed under the file's modification time
    rename_i mtime' checksum hfilter
    obtain ⟨rfl, hmtime⟩ := Option.filter_eq_some_iff.1 hfilter
    intro sha256 h
    rw [← Except.ok.inj h, ← of_decide_eq_true hmtime]
    exact .hit mtime' past
  intro r
  refine ⟨hnone rfl, ?_⟩
  rcases r with f | content
  · exact nofun
  intro r
  refine ⟨⟨fun site mtime' sha256 h => ?_, fun id u h => ?_⟩, ?_⟩
  · cases h
    exact ⟨content, cached, past, rfl, rfl, rfl⟩
  · cases h
  rcases r with f | u
  · exact nofun
  · intro sha256 h
    rw [← Except.ok.inj h]
    exact .miss mtime cached content past rfl

/-- The steps from the checksum on. -/
theorem checksum_written (m : Message) (past : List (Call sig)) :
    (do
      let checksum ← fileSha256 here .download
      ask (.uploadWorkDir here.pod)
      let job ← CosmonautJob.load
      let job := { job with
        membershipUpload := { job.membershipUpload with
          downloadSha256 := some checksum, streetProcessing := .completed } }
      let _ ← writeIfOwner job m.id : App Unit).Trail (Checksums here) (fun _ _ => True) past := by
  have hnone : ∀ {past : List (Call sig)} {c : Call sig}, c.op.checksumsNone = true →
      Checksums here past c := checksums_of_none
  refine (trail_bind (fileSha256 here .download) _).2 ((fileSha256_checksums past).mono
    (fun _ _ h => h) fun past r hr => ?_)
  rcases r with e | checksum
  · trivial
  intro r
  refine ⟨hnone rfl, ?_⟩
  rcases r with f | u
  · trivial
  intro r
  refine ⟨hnone rfl, ?_⟩
  rcases r with f | row
  · trivial
  intro r
  refine ⟨⟨nofun, fun id u h hu => ?_⟩, ?_⟩
  · cases h
    exact ⟨row, checksum, past, rfl, hr checksum rfl, rfl⟩
  · rcases r with f | written <;> trivial

omit [External] in
theorem checksumsNone_of_isDisk {o : Op} (h : o.isDisk here = true) : o.checksumsNone = true := by
  cases o <;> first | rfl | cases h

/-- **The checksum a task writes is that of the file it has looked at last**, and it has uploaded
that file before. -/
theorem uploadWorker_checksums :
    (uploadWorker here).Trail (Checksums here) (fun _ _ => True) [] := by
  have hask : ∀ {o : Op}, o.checksumsNone = true →
      Asks (fun o => o.checksumsNone = true) (ask o) := fun h => asks_ask h
  have htrail : ∀ {α : Type} {p : App α} (past : List (Call sig)),
      Asks (fun o => o.checksumsNone = true) p → p.Trail (Checksums here) (fun _ _ => True) past :=
    fun past h => (Always.trail h past).mono (fun _ _ => checksums_of_none) fun _ _ h => h
  have hdisk : ∀ {α : Type} {p : App α}, OnDisk here p → Asks (fun o => o.checksumsNone = true) p :=
    fun h => (h.mono fun _ => checksumsNone_of_isDisk).always
  have hload : Asks (fun o => o.checksumsNone = true) CosmonautJob.load :=
    .bind (hask rfl) fun _ => trivial
  have hfail : ∀ id e, Asks (fun o => o.checksumsNone = true) (failUpload id e) := by
    intro id e
    refine .bind (.tryCatch (.bind hload fun job => .bind (hask ?_) fun _ => trivial) fun e => ?_)
      fun _ => .bind (hask rfl) fun _ => trivial
    · simp [Op.checksumsNone, withStreetProcessing, MembershipUpload.column]
    · exact always_ite (fun _ => trivial) fun _ => trivial
  refine (htrail _ (hask rfl)).seq fun received past => ?_
  rcases received with _ | m
  · trivial
  dsimp only
  split
  case h_2 => trivial
  rename_i epsg _
  refine (htrail _ hload).seq fun _ past => (trail_tryCatch _ _).2 ?_
  have hdownload : (downloadRoads here m epsg).Trail (Checksums here) (fun _ _ => True) past := by
    refine (htrail _ (hdisk (calls_ask (by simp [Op.isDisk])))).seq fun _ past => ?_
    refine (htrail _ (hdisk (transformMembership_onDisk _))).seq fun data past => ?_
    refine (htrail _ (calls_osmDownloader (P := fun o => o.checksumsNone = true)
      data epsg).always).seq fun osm past => ?_
    refine (htrail _ (runOsmQuery_calls (fun _ => checksumsNone_of_isDisk) rfl osm).always).seq
      fun _ past => ?_
    exact checksum_written m past
  apply hdownload.mono (fun _ _ h => h)
  intro past r _
  rcases r with e | u
  case ok => trivial
  refine htrail _ (always_ite (fun _ => trivial) fun _ => ?_)
  have hraise : Asks (fun o => o.checksumsNone = true) (do
      failUpload m.id e
      (raise e : App Unit)) := .bind (hfail _ _) fun _ => trivial
  have hretry : ∀ e, Asks (fun o => o.checksumsNone = true) (retryOrFail m e) := fun e =>
    always_ite (fun _ => .bind (hfail _ _) fun _ => trivial) fun _ =>
      .bind (hask rfl) fun _ => trivial
  dsimp only
  split
  · exact hretry _
  · exact always_ite (fun _ => hretry _) fun _ => hraise
  · exact hraise

end Cosmonaut
