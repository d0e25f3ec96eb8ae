import Cosmonaut.Interleaving.Script
import Cosmonaut.Row.RefusedInput
import Cosmonaut.Runs.UploadTask

/-!
# An upload task outlasts the trouble of Overpass

Nobody interferes with an upload task, and nothing fails but its query of Overpass. The task is then
tried again as long as Overpass is in trouble, four times at most.

* `overpass`: the machine on which Overpass gives one answer. `Attempts` are the deliveries of the
  upload queue's messages, each with the answer that its query meets.
* `Pends.attempt`: one attempt puts the message back, with the row as it was, or ends the upload.
* `upload_attempts_end`: after any number of attempts.
-/

namespace Cosmonaut

open Interleaving Program

/-! ## Overpass -/

/-- What Overpass answers to a query. -/
inductive Answer
  | found (ways : List Way)
  /-- No connection, a timeout, a stream that broke off, an in-band runtime error. -/
  | transient
  | http (status : ℕ)
  | other (name : String)

/-- The answer as the query returns or raises it. -/
def Answer.result : Answer → Except Fault (List Way)
  | .found ways => .ok ways
  | .transient => .error .transient
  | .http status => .error (.http status)
  | .other name => .error (.other name)

/-- Overpass is in trouble for the moment. -/
def Answer.isTrouble : Answer → Bool
  | .transient => true
  | .http status => status ∈ [429, 502, 503, 504]
  | .found _ | .other _ => false

def Op.isQuery : Op → Bool
  | .streamWays => true
  | _ => false

def Answer.script (a : Answer) : (o : Op) → Option (Except Fault o.Ans)
  | .streamWays => some a.result
  | _ => none

/-- Nothing fails but the query, which meets the answer. A worker takes the oldest message off the
queue. -/
abbrev overpass (a : Answer) : Machine sig :=
  ((steady false).restrict fun c => c.1.delivered = 0 ∧ c.1.redelivered = false).scripted a.script

variable {α β : Type} {a : Answer} {ways : List Way} {w w' m : World} {here : Site} {r : Row}
  {id : TaskId} {epsg : ℤ} {n : ℕ} {text : String} {osm : OsmDownloader} {mails : List Mail}
  {queue : List Message}

theorem script_none {o : Op} (h : o.isQuery = false) : a.script o = none := by
  cases o <;> first | rfl | cases h

theorem overpass_exec {o : Op} (h : o.isQuery = false) (c : (overpass a).Choice) (w : World) :
    (overpass a).exec o c w = perform o c.1.1 w := by
  simp only [script_none h]
  rcases steady_exec_cases o c.1 w with hc | ⟨hfalse, -⟩
  · exact hc
  · cases hfalse

/-- Whatever else happens, with this answer the call ends with `F` of what it returns or `E` of what
it raises. -/
abbrev Tries (a : Answer) (E : Err → World → Prop) (F : α → World → Prop) (p : App α)
    (w : World) : Prop :=
  Keeping (M := overpass a) (fun _ => True) E F p w

section

variable {p : App α} {E : Err → World → Prop} {F : α → World → Prop} {G : β → World → Prop}

theorem Tries.bind {f : α → App β} (h : Tries a E F p w)
    (hf : ∀ b m, F b m → Tries a E G (f b) m) : Tries a E G (p >>= f) w :=
  Keeping.bind h fun b m _ hb => hf b m hb

theorem tries_raise {e : Err} (h : E e w) : Tries a E F (raise e) w := keeping_throw trivial h

theorem Completes.tries (h : Completes F p w) (hp : Asks (fun o => o.isQuery = false) p) :
    Tries a E F p w :=
  Keeping.scripted (Keeping.restrict (h.mono (fun _ _ _ hfalse => hfalse.elim) fun _ _ _ h => h))
    (hp.mono fun _ => script_none)

/-- A call to which Overpass answers the ways. -/
theorem Undisturbed.tries (h : Undisturbed ways E F p w) : Tries (.found ways) E F p w := by
  refine Keeping.of_exec (M := answering ways) h fun o c w =>
    ⟨(⟨⟨{ c.1.1 with ways }, c.1.2⟩, rfl⟩ : (answering ways).Choice), ?_⟩
  rw [answering_exec]
  by_cases ho : o.isQuery = false
  · refine Eq.trans ?_ (overpass_exec ho c w).symm
    cases o <;> first | rfl | cases ho
  · cases o <;> first | rfl | exact absurd rfl ho

/-- The query meets the answer. -/
theorem tries_streamWays {f : Fault} (ha : a.result = .error f) (h : E (.fault f) w) :
    Tries a E (fun _ _ => False) (ask .streamWays) w :=
  keeping_scripted (M := (steady false).restrict _) a.script (o := .streamWays)
    (r := a.result) rfl trivial (by rw [ha]; exact h)

theorem tries_ask {o : Op} {F : o.Ans → World → Prop} (ho : o.isQuery = false)
    (h : ∀ c : Choice, c.delivered = 0 → c.redelivered = false →
      ∃ b w', perform o c w = (.ok b, w') ∧ F b w') : Tries a E F (ask o) w := by
  refine keeping_call (M := overpass a) (fun c b w' hexec => ⟨trivial, ?_⟩) fun c f w' hexec => ?_
  all_goals
    obtain ⟨b₁, w₁, hperform, hF⟩ := h c.1.1 c.2.1 c.2.2
    rw [overpass_exec ho, hperform] at hexec
    cases hexec
  exact hF

end

/-! ## What an attempt in trouble leaves as it was -/

variable [External]

/-- The upload of the row waits for its task, and the messages are on the queue. -/
structure Pends (r : Row) (id : TaskId) (text : String) (mails : List Mail) (queue : List Message)
    (w : World) : Prop where
  reached : Reached false w
  row : w.row = some r
  messages : w.messages = queue
  revoked : id ∉ w.revoked
  file : w.stored.content .memberships = some (.whole text)
  mails : w.mails = mails

/-- The work on one pod leaves it so. -/
theorem Pends.exec_local (h : Pends r id text mails queue w) {o : Op} (ho : o.isLocal here = true)
    (ht : o.tame = true) (c : Choice) : Pends r id text mails queue (exec o c w).2 := by
  have hagree : AgreeOffPod here.pod w (exec o c w).2 := agreeOffPod_of_isLocal ho c w
  exact {
    reached := h.reached.op o c ht
    row := hagree.row.symm.trans h.row
    messages := hagree.messages.symm.trans h.messages
    revoked := by rw [← hagree.revoked]; exact h.revoked
    file := by rw [← hagree.stored]; exact h.file
    mails := hagree.mails.symm.trans h.mails }

omit [External] in
theorem isQuery_of_isLocal {o : Op} (h : o.isLocal here = true) : o.isQuery = false := by
  cases o <;> first | rfl | cases h

/-- Such an operation, if it does not fail. -/
theorem Pends.tries_local {E : Err → World → Prop} {o : Op} (h : Pends r id text mails queue w)
    (here : Site) (ho : o.isLocal here = true) (ht : o.tame = true)
    (hok : ∀ c, ∃ b w', perform o c w = (.ok b, w')) :
    Tries a E (fun b m => Pends r id text mails queue m ∧ ∃ c, perform o c w = (.ok b, m))
      (ask o) w := by
  refine tries_ask (isQuery_of_isLocal ho) fun c _ _ => ?_
  obtain ⟨b, w', hperform⟩ := hok c
  have hexec : exec o { c with fault := none } w = (.ok b, w') :=
    (exec_withoutFault o c w).trans hperform
  have hlocal := h.exec_local ho ht { c with fault := none }
  rw [hexec] at hlocal
  exact ⟨b, w', hperform, hlocal, c, hperform⟩

/-- The call raises the error, and all is as it was. -/
abbrev Raises (a : Answer) (e : Err) (H : World → Prop) (p : App α) (w : World) : Prop :=
  Tries a (fun e' m => e' = e ∧ H m) (fun _ _ => False) p w

/-- An error of the body discards the temporary file. -/
theorem withWriter_raises {s : StreetFile} {body : App (s.Doc × α)} {e : Err}
    (hbody : ∀ m, Pends r id text mails queue m →
      Raises a e (Pends r id text mails queue) body m)
    (hw : Pends r id text mails queue w) :
    Raises a e (Pends r id text mails queue) (withWriter here s body) w := by
  refine Tries.bind (hw.tries_local here (o := .openFile here (.streetTmp s))
    (by simp [Op.isLocal]) rfl fun c => ⟨(), _, rfl⟩) fun _ m hm => ?_
  refine Tries.bind (F := fun _ _ => False) (Keeping.tryCatch (hbody m hm.1) ?_)
    fun _ _ hfalse => hfalse.elim
  rintro _ m₁ - ⟨rfl, hm₁⟩
  split
  · exact tries_raise ⟨rfl, hm₁⟩
  refine Tries.bind (hm₁.tries_local here (o := .fileExists here.pod (.streetTmp s))
    (by simp [Op.isLocal]) rfl fun c => ⟨_, _, rfl⟩) ?_
  rintro found m₂ ⟨hm₂, c, hc⟩
  obtain ⟨hfound, rfl⟩ := Prod.mk.inj hc
  split
  · rename_i hthere
    obtain ⟨entry, hentry⟩ := Option.isSome_iff_exists.1 ((Except.ok.inj hfound).trans hthere)
    refine Tries.bind (hm₂.tries_local here (o := .removeFile here.pod (.streetTmp s))
      (by simp [Op.isLocal]) rfl fun c => ?_) fun _ m₃ hm₃ => tries_raise ⟨rfl, hm₃.1⟩
    simp only [perform, hentry]
    exact ⟨_, _, rfl⟩
  · exact tries_raise ⟨rfl, hm₂⟩

/-- The query raises what Overpass answers. -/
theorem runOsmQuery_raises {f : Fault} (ha : a.result = .error f)
    (hw : Pends r id text mails queue w) :
    Raises a (.fault f) (Pends r id text mails queue) (runOsmQuery here osm) w :=
  withWriter_raises (fun _ => withWriter_raises fun _ => withWriter_raises fun _ hm =>
    Tries.bind (tries_streamWays ha ⟨rfl, hm⟩) fun _ _ hfalse => hfalse.elim) hw

theorem downloadRoads_raises {f : Fault} {task : Message} (ha : a.result = .error f)
    (harea : HasArea text epsg osm) (hw : Pends r id text mails queue w) :
    Raises a (.fault f) (Pends r id text mails queue) (downloadRoads here task epsg) w := by
  obtain ⟨data, htext, hosm⟩ := harea
  refine Tries.bind (hw.tries_local here (o := .pullWorkDir here.pod)
    (by simp [Op.isLocal]) rfl fun c => ⟨(), _, rfl⟩) ?_
  rintro _ m ⟨hm, c, hc⟩
  have hfile : (m.disk here.pod).content .memberships = some (.whole text) := by
    rw [← (Prod.mk.inj hc).2, World.pulled, setDisk_disk_self, Files.content_pull rfl, hw.file]
    rfl
  have hread : Asks (fun o => o.isQuery = false) (CosmonautJob.transformMembership here epsg) :=
    ((transformMembership_onDisk epsg).mono fun _ ho =>
      isQuery_of_isLocal (isLocal_of_isDisk ho)).always
  refine Tries.bind ((transformMembership_found hfile htext).tries hread) ?_
  rintro _ _ ⟨rfl, rfl⟩
  rw [hosm, pure_bind]
  exact Tries.bind (runOsmQuery_raises ha hm) fun _ _ hfalse => hfalse.elim

/-! ## One attempt -/

/-- The upload of the row has ended with the answer: COMPLETED with the road network of the ways, or
FAILED, and the maintainer is told unless the mail is lost. -/
def Answer.Ends (a : Answer) (osm : OsmDownloader) (r : Row) (mails : List Mail) (w : World) :
    Prop :=
  match a.result with
  | .ok ways => NetworkFiles osm ways w.stored ∧ w.mails = mails ∧
      w.row = some (r.endUpload .completed
        (some (StreetFile.sha256 .download (.whole (downloaded osm ways)))))
  | .error f => (w.mails = mails ∨ w.mails = mails ++ [.uploadFailed (.fault f)]) ∧
      w.row = some (r.endUpload .failed r.columns.membershipUpload.backfill.downloadSha256)

/-- What the attempt with `n` retries before it leaves: the message with one retry more, or the
upload at its end. -/
def Answer.Leaves (a : Answer) (osm : OsmDownloader) (epsg : ℤ) (r : Row) (id : TaskId)
    (text : String) (mails : List Mail) (n : ℕ) (w : World) : Prop :=
  (a.isTrouble = true ∧ n < uploadMaxRetries ∧
    Pends r id text mails [⟨id, .upload epsg, n + 1⟩] w) ∨
  ((a.isTrouble = true → uploadMaxRetries ≤ n) ∧ w.messages = [] ∧ a.Ends osm r mails w)

omit [External] in
theorem ask_asksNone {o : Op} (h : o.isQuery = false) :
    Asks (fun o => o.isQuery = false) (ask o) := asks_ask h

theorem load_asksNone : Asks (fun o => o.isQuery = false) CosmonautJob.load :=
  .bind (ask_asksNone rfl) fun _ => trivial

theorem failUpload_asksNone (error : Err) :
    Asks (fun o => o.isQuery = false) (failUpload id error) :=
  .bind (.tryCatch (.bind load_asksNone fun _ => .bind (ask_asksNone rfl) fun _ => trivial)
    fun _ => always_ite (fun _ => trivial) fun _ => trivial) fun _ =>
      .bind (ask_asksNone rfl) fun _ => trivial

theorem Pends.fails {f : Fault} (ha : a.result = .error f)
    (howner : r.columns.membershipUpload.streetProcessing = some (.task id))
    (htrouble : a.isTrouble = true → uploadMaxRetries ≤ n) (hw : Pends r id text mails [] w) :
    Tries a (fun _ => a.Leaves osm epsg r id text mails n) (fun _ _ => False)
      (do failUpload id (.fault f); (raise (.fault f) : App Unit)) w := by
  refine Tries.bind ((failUpload_completes hw.row howner _).tries (failUpload_asksNone _)) ?_
  rintro - _ ⟨mails', hmails, rfl⟩
  refine tries_raise (.inr ⟨htrouble, hw.messages, ?_⟩)
  rw [Answer.Ends, ha]
  rw [hw.mails] at hmails
  exact ⟨hmails, rfl⟩

theorem Pends.retries {f : Fault} (ha : a.result = .error f)
    (howner : r.columns.membershipUpload.streetProcessing = some (.task id))
    (htrouble : a.isTrouble = true) (hw : Pends r id text mails [] w) :
    Tries a (fun _ => a.Leaves osm epsg r id text mails n) (fun _ _ => False)
      (retryOrFail ⟨id, .upload epsg, n⟩ (.fault f)) w := by
  unfold retryOrFail
  split
  · rename_i hlast
    exact hw.fails ha howner fun _ => hlast
  · rename_i hmore
    refine Tries.bind (F := fun _ => Pends r id text mails [⟨id, .upload epsg, n + 1⟩])
      (tries_ask (o := .retry _) rfl fun c _ _ => ⟨(), _, rfl, ?_⟩) fun _ m hm =>
        tries_raise (.inl ⟨htrouble, Nat.lt_of_not_le hmore, hm⟩)
    have hretry : Pends r id text mails [⟨id, .upload epsg, n + 1⟩]
        (exec (.retry ⟨id, .upload epsg, n⟩) .usual w).2 := {
      reached := hw.reached.op _ .usual rfl
      row := hw.row
      messages := by rw [exec_of_no_fault rfl]; simp [perform, hw.messages]
      revoked := hw.revoked
      file := hw.file
      mails := hw.mails }
    exact hretry

/-- **An attempt in trouble.** -/
theorem Pends.attempt_raises {f : Fault} (ha : a.result = .error f)
    (howner : r.columns.membershipUpload.streetProcessing = some (.task id))
    (harea : HasArea text epsg osm) (hw : Pends r id text mails [] w) :
    Tries a (fun _ => a.Leaves osm epsg r id text mails n) (fun _ _ => False)
      (processUploadTask here ⟨id, .upload epsg, n⟩ epsg) w := by
  refine Tries.bind ((load_completes hw.row).tries load_asksNone) ?_
  rintro job _ ⟨rfl, rfl⟩
  refine Keeping.tryCatch (downloadRoads_raises ha harea hw) ?_
  rintro _ m - ⟨rfl, hm⟩
  cases a with
  | found ways => cases ha
  | transient =>
    cases ha
    exact hm.retries rfl howner rfl
  | http status =>
    cases ha
    refine dite (status ∈ [429, 502, 503, 504]) (fun hstatus => ?_) fun hstatus => ?_
    all_goals simp only [if_false, hstatus, if_true]
    · exact hm.retries rfl howner (decide_eq_true hstatus)
    · exact hm.fails rfl howner fun htrouble => absurd (of_decide_eq_true htrouble) hstatus
  | other name =>
    cases ha
    exact hm.fails rfl howner fun htrouble => absurd htrouble Bool.false_ne_true

/-- The operation neither sends a mail nor takes part in the queue. -/
def Op.leavesQueue : Op → Bool
  | .sendMail _ | .submitJob .. | .receive _ | .retry _ => false
  | _ => true

omit [External] in
theorem perform_queue {o : Op} (h : o.leavesQueue = true) (c : Choice) (w : World) :
    (perform o c w).2.messages = w.messages ∧ (perform o c w).2.mails = w.mails := by
  cases o
  case sendMail | submitJob | receive | retry => cases h
  case updateColumns | raiseStage =>
    simp only [perform, World.require]
    split <;> exact ⟨rfl, rfl⟩
  case updateInput | setStreetProcessingOfTask | updateMembershipUploadOfTask | markStartFailed |
      markPending | finish =>
    simp only [perform, World.update]
    split <;> (try split) <;> exact ⟨rfl, rfl⟩
  case loadRow | writeRow | markEndNotified | markQueued | markCancelled | sweep | claim |
      deleteJob | replaceFile | removeFile =>
    simp only [perform]
    split <;> (try split) <;> exact ⟨rfl, rfl⟩
  all_goals exact ⟨rfl, rfl⟩

theorem downloadRoads_leavesQueue (task : Message) :
    Asks (fun o => o.leavesQueue = true) (downloadRoads here task epsg) := by
  have hask : ∀ {o : Op}, o.leavesQueue = true →
    Asks (fun o => o.leavesQueue = true) (ask o) :=
    fun ho => asks_ask ho
  have hlocal : ∀ {o : Op}, o.isLocal here = true → o.leavesQueue = true := by
    intro o ho
    cases o <;> first | rfl | cases ho
  have hdisk : ∀ {o : Op}, o.isDisk here = true → o.leavesQueue = true :=
    fun ho => hlocal (isLocal_of_isDisk ho)
  exact .bind (hask rfl) fun _ =>
    .bind ((transformMembership_onDisk epsg).mono fun _ => hdisk).always fun data =>
    .bind (calls_osmDownloader (P := fun o => o.leavesQueue = true) data epsg).always fun osm =>
    .bind (runOsmQuery_calls (fun _ => hdisk) rfl osm).always fun _ =>
    .bind ((fileSha256_stays _).mono fun _ => hlocal).always fun _ => .bind (hask rfl) fun _ =>
    .bind (.bind (hask rfl) fun _ => trivial) fun _ => .bind (hask rfl) fun _ => trivial

/-- **An attempt that is answered.** -/
theorem Pends.attempt_found
    (howner : r.columns.membershipUpload.streetProcessing = some (.task id))
    (harea : HasArea text epsg osm) (hw : Pends r id text mails [] w) :
    Tries (.found ways) (fun _ _ => False)
      (fun _ => (Answer.found ways).Leaves osm epsg r id text mails n)
      (processUploadTask here ⟨id, .upload epsg, n⟩ epsg) w := by
  have hfound : FindsArea here.pod epsg w osm :=
    ⟨text, by rw [World.foundFile, hw.file]; rfl, harea⟩
  have hdownload : Undisturbed ways _ _ (downloadRoads here ⟨id, .upload epsg, n⟩ epsg) w :=
    downloadRoads_found hw.reached.sound_bare hw.row howner hfound
  refine Undisturbed.tries (Undisturbed.bind (load_completes hw.row).undisturbed ?_)
  rintro job _ ⟨rfl, rfl⟩
  refine Keeping.tryCatch (E := fun _ _ => False) (Keeping.mono (hdownload.kept
    (J := fun m : World => m.messages = [] ∧ m.mails = mails) (downloadRoads_leavesQueue _)
    (fun c hc d m hm => ?_) ⟨hw.messages, hw.mails⟩) (fun _ _ _ hfalse => hfalse) ?_)
    fun _ _ _ hfalse => hfalse.elim
  · rw [answering_exec]
    obtain ⟨hmessages, hmails⟩ := perform_queue hc d.1.1 m
    exact ⟨hmessages.trans hm.1, hmails.trans hm.2⟩
  · rintro - m - ⟨hout, hmessages, hmails⟩
    exact .inr ⟨fun htrouble => absurd htrouble Bool.false_ne_true, hmessages, hout.1, hmails,
      hout.2⟩

/-- **One attempt.** -/
theorem Pends.attempt (howner : r.columns.membershipUpload.streetProcessing = some (.task id))
    (harea : HasArea text epsg osm) (hw : Pends r id text mails [] w) :
    Tries a (fun _ => a.Leaves osm epsg r id text mails n)
      (fun _ => a.Leaves osm epsg r id text mails n)
      (processUploadTask here ⟨id, .upload epsg, n⟩ epsg) w := by
  have hraises : ∀ f, a.result = .error f → Tries a (fun _ => a.Leaves osm epsg r id text mails n)
      (fun _ => a.Leaves osm epsg r id text mails n)
      (processUploadTask here ⟨id, .upload epsg, n⟩ epsg) w := fun f ha =>
    (hw.attempt_raises ha howner harea).mono (fun _ _ _ h => h) fun _ _ _ hfalse => hfalse.elim
  cases a with
  | found ways =>
    exact (hw.attempt_found howner harea).mono (fun _ _ _ hfalse => hfalse.elim) fun _ _ _ h => h
  | transient => exact hraises _ rfl
  | http status => exact hraises _ rfl
  | other name => exact hraises _ rfl

/-! ## Attempts, one after the other -/

/-- Workers of the upload queue take messages, one after the other, each on any pod, and the queries
meet the answers. -/
inductive Attempts : List Answer → World → World → Prop
  | none (w : World) : Attempts [] w w
  | next {a : Answer} {answers : List Answer} {w m w' : World} {out : Except Err Unit}
      (here : Site) : (uploadWorker here).Ends (overpass a) w out m → Attempts answers m w' →
      Attempts (a :: answers) w w'

theorem Pends.delivery (howner : r.columns.membershipUpload.streetProcessing = some (.task id))
    (harea : HasArea text epsg osm)
    (hw : Pends r id text mails [⟨id, .upload epsg, n⟩] w) {out : Except Err Unit}
    (hends : (uploadWorker here).Ends (overpass a) w out m) :
    a.Leaves osm epsg r id text mails n m := by
  have hworker : Tries a (fun _ => a.Leaves osm epsg r id text mails n)
      (fun _ => a.Leaves osm epsg r id text mails n) (uploadWorker here) w := by
    refine Tries.bind (F := fun b m => b = some ⟨id, .upload epsg, n⟩ ∧ Pends r id text mails [] m)
      (tries_ask (o := .receive false) rfl fun c hc hkept => ⟨_, { w with messages := [] }, ?_, rfl,
        ?_⟩) ?_
    · simp [perform, hc, hkept, hw.messages, hw.revoked, TaskName.isRouting]
    · have hreceived : (exec (.receive false) .usual w).2 = { w with messages := [] } := by
        rw [exec_of_no_fault rfl]
        simp [perform, Choice.usual, hw.messages, TaskName.isRouting]
      exact { hw with
        reached := hreceived ▸ hw.reached.op (.receive false) .usual rfl
        messages := rfl }
    · rintro _ m ⟨rfl, hm⟩
      exact hm.attempt howner harea
  obtain ⟨-, hout⟩ := hworker.ends hends
  rcases out with e | u <;> exact hout

/-- Without a message there is nothing to do. -/
theorem idle_worker (hqueue : w.messages = []) {out : Except Err Unit}
    (hends : (uploadWorker here).Ends (overpass a) w out m) : m = w := by
  have hworker : Tries a (fun _ m => m = w) (fun _ m => m = w) (uploadWorker here) w := by
    refine Tries.bind (F := fun b m => b = none ∧ m = w)
      (tries_ask (o := .receive false) rfl fun c hc hkept => ⟨_, w, ?_, rfl, rfl⟩) ?_
    · simp [perform, hqueue]
    · rintro _ m ⟨rfl, rfl⟩
      exact keeping_ret trivial rfl
  obtain ⟨-, hout⟩ := hworker.ends hends
  rcases out with e | u <;> exact hout

theorem Attempts.idle {answers : List Answer} (h : Attempts answers w w')
    (hqueue : w.messages = []) : w' = w := by
  induction h with
  | none w => rfl
  | next here hends _ ih =>
    obtain rfl := idle_worker hqueue hends
    exact ih hqueue

/-- What a sequence of attempts leaves, of which the first has `n` retries before it. -/
theorem Attempts.leaves {answers : List Answer} (h : Attempts answers w w')
    (howner : r.columns.membershipUpload.streetProcessing = some (.task id))
    (harea : HasArea text epsg osm)
    (hw : Pends r id text mails [⟨id, .upload epsg, n⟩] w) (hn : n ≤ uploadMaxRetries) :
    ((∀ a ∈ answers, a.isTrouble = true) ∧ n + answers.length ≤ uploadMaxRetries ∧
      Pends r id text mails [⟨id, .upload epsg, n + answers.length⟩] w') ∨
    ∃ before a after, answers = before ++ a :: after ∧ (∀ b ∈ before, b.isTrouble = true) ∧
      n + before.length ≤ uploadMaxRetries ∧
      (a.isTrouble = true → n + before.length = uploadMaxRetries) ∧
      w'.messages = [] ∧ a.Ends osm r mails w' := by
  induction h generalizing n with
  | none w => exact .inl ⟨by simp, hn, hw⟩
  | @next a answers w m w' out here hends hrest ih =>
    rcases hw.delivery howner harea hends with ⟨htrouble, hlt, hm⟩ | ⟨hlast, hqueue, hm⟩
    · rcases ih hm hlt with ⟨hall, hlength, hw'⟩ |
        ⟨before, b, after, rfl, hbefore, hlength, hb, hw'⟩
      · refine .inl ⟨?_, ?_, ?_⟩
        · simpa [htrouble] using hall
        · simp only [List.length_cons]
          omega
        · rwa [List.length_cons, Nat.add_comm answers.length, ← Nat.add_assoc]
      · refine .inr ⟨a :: before, b, after, rfl, by simpa [htrouble] using hbefore, ?_, ?_, hw'⟩
        · simp only [List.length_cons]
          omega
        · intro hb'
          have := hb hb'
          simp only [List.length_cons]
          omega
    · obtain rfl := hrest.idle hqueue
      refine .inr ⟨[], a, answers, rfl, by simp, hn, fun htrouble => ?_, hqueue, hm⟩
      exact Nat.le_antisymm hn (hlast htrouble)

omit [External]

/-! ## A trouble and an answer -/

/-- What a delivery on pod 1 leaves. -/
def delivered (a : Answer) (w : World) : World :=
  let _ := External.plain
  ((uploadWorker ⟨1, 0, none⟩).runWith (overpass a) ⟨⟨.usual, .inl rfl⟩, rfl, rfl⟩ [] w).2

end Cosmonaut
