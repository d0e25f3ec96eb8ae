import Cosmonaut.Model.Footprint

/-!
# What a refused input operation leaves behind

The operations that change a job's input write the row by one conditional update and raise
`JobNotPending` if it was refused, but some delete or upload files before they know.

* `respects_agreeOffPod`, `agreeOffPod_of_isLocal`: a pod's files and caches are its own.
* `InputCall.endsRefusable`: the calls an operation has made when it is refused.
* `refused_call_changes_nothing_iff`: when a refused operation leaves row and storage as if it had
  never been made.
* `refused_deletion_loses_a_file`: a run in which it does not.
-/

namespace Cosmonaut

open Interleaving Program

/-! ## Worlds that differ on one pod only -/

/-- The worlds differ in the work dir and the processes of pod `q` at most. -/
structure AgreeOffPod (q : ℕ) (w w' : World) : Prop where
  row : w.row = w'.row
  stored : w.stored = w'.stored
  messages : w.messages = w'.messages
  revoked : w.revoked = w'.revoked
  log : w.log = w'.log
  mails : w.mails = w'.mails
  epoch : w.epoch = w'.epoch
  nextId : w.nextId = w'.nextId
  disk : ∀ pod, pod ≠ q → w.disk pod = w'.disk pod
  memory : ∀ s : ℕ × ℕ, s.1 ≠ q → w.memory s = w'.memory s

theorem agreeOffPod_equivalence (q : ℕ) : Equivalence (AgreeOffPod q) where
  refl _ := ⟨rfl, rfl, rfl, rfl, rfl, rfl, rfl, rfl, fun _ _ => rfl, fun _ _ => rfl⟩
  symm h := ⟨h.row.symm, h.stored.symm, h.messages.symm, h.revoked.symm, h.log.symm, h.mails.symm,
    h.epoch.symm, h.nextId.symm, fun p hp => (h.disk p hp).symm, fun s hs => (h.memory s hs).symm⟩
  trans h h' := ⟨h.row.trans h'.row, h.stored.trans h'.stored, h.messages.trans h'.messages,
    h.revoked.trans h'.revoked, h.log.trans h'.log, h.mails.trans h'.mails,
    h.epoch.trans h'.epoch, h.nextId.trans h'.nextId,
    fun p hp => (h.disk p hp).trans (h'.disk p hp),
    fun s hs => (h.memory s hs).trans (h'.memory s hs)⟩

theorem AgreeOffPod.setDisk {q pod : ℕ} {w w' : World} (h : AgreeOffPod q w w') (d : Files) :
    AgreeOffPod q (w.setDisk pod d) (w'.setDisk pod d) where
  __ := h
  disk p hp := by
    by_cases hpp : pod = p
    · subst hpp
      simp
    · simp [hpp, h.disk p hp]

theorem AgreeOffPod.setMemory {q : ℕ} {s : Site} {w w' : World} (h : AgreeOffPod q w w')
    (m : Memory) : AgreeOffPod q (w.setMemory s m) (w'.setMemory s m) where
  __ := h
  memory p hp := by
    by_cases hpp : p = (s.pod, s.proc)
    · subst hpp
      simp [World.setMemory]
    · simp [World.setMemory, hpp, h.memory p hp]

/-- An operation on another pod cannot tell such worlds apart. -/
theorem respects_agreeOffPod {q : ℕ} {o : Op} (ho : o.pod? ≠ some q) :
    Respects machine (AgreeOffPod q) o := by
  intro c w w' h
  change (exec o c w).1 = (exec o c w').1 ∧ AgreeOffPod q (exec o c w).2 (exec o c w').2
  have hdisk : ∀ pod, o.pod? = some pod → w.disk pod = w'.disk pod := fun pod hp =>
    h.disk pod fun hq => ho (hq ▸ hp)
  have hmem : ∀ s : Site, o.pod? = some s.pod → w.memoryOf s = w'.memoryOf s := fun s hp =>
    h.memory _ fun hq => ho (by rw [hp, ← hq])
  rcases hf : o.fault c with _ | e
  case some =>
    rw [exec_of_fault hf, exec_of_fault hf]
    refine ⟨rfl, ?_⟩
    cases o
    case pullWorkDir pod | pullFile pod f =>
      simp only [interrupted, World.pulled, hdisk pod rfl, h.stored]
      exact h.setDisk _
    case uploadWorkDir pod =>
      simp only [interrupted, World.uploaded, hdisk pod rfl, h.stored]
      exact { h with stored := rfl }
    case deleteFiles pod fs =>
      simp only [interrupted, World.deleted, hdisk pod rfl, h.stored]
      exact { h.setDisk _ with stored := rfl }
    case submitJob task id =>
      simp only [interrupted, World.enqueue, h.messages, h.nextId]
      split
      · exact { h with messages := rfl, nextId := rfl }
      · exact h
    all_goals exact h
  rw [exec_of_no_fault hf, exec_of_no_fault hf]
  cases o
  case loadRow | markEndNotified | writeRow =>
    simp only [perform, h.row]
    split <;> (try split) <;> first | exact ⟨rfl, h⟩ | exact ⟨rfl, { h with row := rfl }⟩
  case markQueued =>
    simp only [perform, h.row]
    split <;> (try split) <;>
      first | exact ⟨rfl, h⟩ | exact ⟨rfl, { h with row := rfl, epoch := by simp only [h.epoch] }⟩
  case markCancelled | sweep =>
    simp only [perform, h.row]
    split <;> (try split) <;>
      first | exact ⟨rfl, h⟩ | exact ⟨rfl, { h with row := rfl, log := by simp only [h.log] }⟩
  case claim =>
    simp only [perform, h.row, h.nextId, h.epoch]
    split <;> (try split) <;>
      first | exact ⟨rfl, h⟩ | exact ⟨rfl, { h with row := rfl, nextId := rfl, epoch := rfl }⟩
  case updateColumns | raiseStage =>
    simp only [perform, World.require, h.row]
    split <;> first | exact ⟨rfl, h⟩ | exact ⟨rfl, { h with row := rfl }⟩
  case updateInput | setStreetProcessingOfTask | updateMembershipUploadOfTask | markStartFailed |
      markPending | finish =>
    simp only [perform, World.update, h.row]
    split <;> (try split) <;> first | exact ⟨rfl, h⟩ | exact ⟨rfl, { h with row := rfl }⟩
  case deleteJob pod =>
    simp only [perform, World.deleted, h.row, h.stored, hdisk pod rfl]
    split
    · split
      · exact ⟨rfl, h⟩
      · exact ⟨rfl, { h.setDisk _ with row := rfl, stored := rfl }⟩
    · exact ⟨rfl, h⟩
  case pullWorkDir pod | pullFile pod f =>
    simp only [perform, World.pulled, hdisk pod rfl, h.stored]
    exact ⟨trivial, h.setDisk _⟩
  case uploadWorkDir pod =>
    simp only [perform, World.uploaded, hdisk pod rfl, h.stored]
    exact ⟨trivial, { h with stored := rfl }⟩
  case deleteFiles pod fs =>
    simp only [perform, World.deleted, hdisk pod rfl, h.stored]
    exact ⟨trivial, { h.setDisk _ with stored := rfl }⟩
  case fileExists pod f | mtime pod f | readFile pod f | globPlots pod =>
    simp only [perform, World.file, hdisk pod rfl]
    exact ⟨trivial, h⟩
  case openFile s f | writeFile s f doc | pipeline s =>
    simp only [perform, hdisk s.pod rfl]
    exact ⟨trivial, h.setDisk _⟩
  case replaceFile pod s | removeFile pod f =>
    simp only [perform, hdisk pod rfl]
    split
    · exact ⟨rfl, h.setDisk _⟩
    · exact ⟨rfl, h⟩
  case cachedChecksum s f | cachedFeatures s f | getFeatures s refs =>
    simp only [perform, hmem s rfl]
    exact ⟨trivial, h⟩
  case cacheChecksum s f m x | cacheFeatures s f m x | newFeatures s x | addTooltips s x =>
    simp only [perform, hmem s rfl]
    exact ⟨trivial, h.setMemory _⟩
  case uuid4 => exact ⟨by simp only [perform, h.nextId],
    { h with nextId := by simp [perform, h.nextId] }⟩
  case submitJob task id =>
    simp only [perform, World.enqueue, h.messages, h.nextId]
    split <;> (try split) <;>
      first | exact ⟨rfl, h⟩ | exact ⟨rfl, { h with messages := rfl, nextId := rfl }⟩
  case revokeJob id =>
    simp only [perform, h.revoked]
    exact ⟨trivial, { h with revoked := rfl }⟩
  case receive routing =>
    simp only [perform, h.messages]
    split
    · split <;> [split; skip]
      · exact ⟨by simp only [h.revoked], h⟩
      · exact ⟨by simp only [h.revoked], { h with messages := rfl }⟩
      · exact ⟨rfl, h⟩
    · exact ⟨rfl, h⟩
  case retry m =>
    simp only [perform, h.messages]
    exact ⟨trivial, { h with messages := rfl }⟩
  case appendLog | clearLog =>
    simp only [perform, h.log]
    exact ⟨trivial, { h with log := rfl }⟩
  case sendMail m =>
    simp only [perform, h.mails]
    refine ⟨trivial, ?_⟩
    split
    · exact { h with mails := rfl }
    · exact h
  all_goals exact ⟨rfl, h⟩

theorem AgreeOffPod.of_setDisk (q : ℕ) (w : World) (d : Files) :
    AgreeOffPod q w (w.setDisk q d) where
  __ := (agreeOffPod_equivalence q).refl w
  disk _ hp := (setDisk_disk_of_ne (Ne.symm hp)).symm

theorem AgreeOffPod.of_setMemory (here : Site) (w : World) (m : Memory) :
    AgreeOffPod here.pod w (w.setMemory here m) where
  __ := (agreeOffPod_equivalence here.pod).refl w
  memory _ hs := (setMemory_memory_of_ne (Ne.symm hs)).symm

/-- A local operation changes its own pod at most. -/
theorem agreeOffPod_of_isLocal {here : Site} {o : Op} (ho : o.isLocal here = true) (c : Choice)
    (w : World) : AgreeOffPod here.pod w (exec o c w).2 := by
  have hrefl : ∀ w, AgreeOffPod here.pod w w := (agreeOffPod_equivalence _).refl
  rcases hf : o.fault c with _ | e
  case some =>
    rw [exec_of_fault hf]
    cases o
    case pullWorkDir | pullFile =>
      obtain rfl := of_decide_eq_true ho
      exact .of_setDisk _ _ _
    all_goals first | exact hrefl w | cases ho
  rw [exec_of_no_fault hf]
  cases o
  case pullWorkDir | pullFile =>
    obtain rfl := of_decide_eq_true ho
    exact .of_setDisk _ _ _
  case openFile s f | writeFile s f doc =>
    obtain rfl : s = here := of_decide_eq_true ho
    exact .of_setDisk _ _ _
  case replaceFile | removeFile =>
    obtain rfl := of_decide_eq_true ho
    simp only [perform]
    split
    · exact .of_setDisk _ _ _
    · exact hrefl w
  case cacheChecksum s f m x | cacheFeatures s f m x | newFeatures s fs | addTooltips s refs =>
    obtain rfl : s = here := of_decide_eq_true ho
    exact .of_setMemory _ _ _
  all_goals first | exact hrefl w | cases ho

/-! ## The calls up to a refusal -/

/-- An input operation on a job object, as the pages call them. -/
inductive InputCall
  | uploadMembership (job : JobModel) (content : Except String String) (epsgInput : ℤ)
  | uploadPredictor (job : JobModel) (content : Except String String)
  | deleteMembership (job : JobModel)
  | deletePredictor (job : JobModel)
  | applyEdits (sel : StreetSelector) (deferProjection : Bool)

section

variable [External]

def InputCall.program (here : Site) : InputCall → App Unit
  | .uploadMembership job content epsgInput => do
    let _ ← CosmonautJob.uploadMembership here job content epsgInput
  | .uploadPredictor job content => do let _ ← CosmonautJob.uploadPredictor here job content
  | .deleteMembership job => do let _ ← CosmonautJob.deleteMembership here job
  | .deletePredictor job => do let _ ← CosmonautJob.deletePredictor here job
  | .applyEdits sel deferProjection => do let _ ← sel.applyEdits here deferProjection

end

/-- The calls of an input operation up to its refusal. -/
inductive Refusable (here : Site) : Call sig → Prop
  | stays (c : Call sig) : c.op.isLocal here = true → Refusable here c
  | uploaded : Refusable here (answered (.uploadWorkDir here.pod) ())
  | deleted (fs) : Refusable here (answered (.deleteFiles here.pod fs) ())
  | revoked (id) : Refusable here (answered (.revokeJob id) ())
  | refused (vs) : Refusable here (answered (.updateInput vs) false)

/-- The program only makes such calls if it ends as `O` says. -/
def EndsRefusable (here : Site) {α : Type} (O : Except Err α → Prop) (p : App α) : Prop :=
  ∀ past, (∀ c ∈ past, Refusable here c) →
    p.Trail (fun _ _ => True) (fun past r => O r → ∀ c ∈ past, Refusable here c) past

/-- The program returned or was refused. -/
def ReturnedOrRefused {α : Type} : Except Err α → Prop
  | .ok _ => True
  | .error e => e = .jobNotPending

/-- The program was refused. -/
def Refused {α : Type} (r : Except Err α) : Prop := r = .error .jobNotPending

variable {here : Site} {α β : Type}

theorem endsRefusable_ite {O : Except Err α → Prop} {c : Prop} [Decidable c] {p q : App α}
    (hp : c → EndsRefusable here O p) (hq : ¬c → EndsRefusable here O q) :
    EndsRefusable here O (if c then p else q) := by
  split
  · exact hp ‹_›
  · exact hq ‹_›

theorem endsRefusable_ask {o : Op} (h : ∀ a, Refusable here (answered o a)) :
    EndsRefusable here ReturnedOrRefused (ask o) := by
  intro past hpast r
  refine ⟨trivial, ?_⟩
  cases r with
  | error f => exact fun hO => by cases hO
  | ok a => exact fun _ => List.forall_mem_cons.2 ⟨h a, hpast⟩

theorem Stays.endsRefusable {O : Except Err α → Prop} {p : App α} (h : Stays here p) :
    EndsRefusable here O p := by
  intro past hpast
  have hp := h.always
  clear h
  induction p generalizing past with
  | ret a => exact fun _ => hpast
  | throw e => exact fun _ => hpast
  | op o k ih =>
    exact fun r => ⟨trivial, ih r _ (List.forall_mem_cons.2 ⟨.stays _ (hp r).1, hpast⟩) (hp r).2⟩

theorem EndsRefusable.bind {O : Except Err β → Prop} (hO : ∀ e, O (.error e) → e = .jobNotPending)
    {p : App α} {f : α → App β} (hp : EndsRefusable here ReturnedOrRefused p)
    (hf : ∀ a, EndsRefusable here O (f a)) : EndsRefusable here O (p >>= f) := by
  intro past hpast
  rw [trail_bind]
  refine (hp past hpast).mono (fun _ _ h => h) fun past' r hr => ?_
  cases r with
  | ok a => exact hf a past' (hr trivial)
  | error e => exact fun he => hr (hO e he)

/-- What comes first is no refusal. -/
theorem EndsRefusable.first {p : App α} {f : α → App β}
    (hp : EndsRefusable here ReturnedOrRefused p) (hf : ∀ a, EndsRefusable here Refused (f a)) :
    EndsRefusable here Refused (p >>= f) :=
  .bind (fun _ he => by cases he; rfl) hp hf

/-- What comes after the write is no refusal. -/
theorem EndsRefusable.last {p : App α} {f : α → App β} (hp : EndsRefusable here Refused p)
    (hf : ∀ a, (f a).Raises (· ≠ .jobNotPending)) : EndsRefusable here Refused (p >>= f) := by
  intro past hpast
  rw [trail_bind]
  refine (hp past hpast).mono (fun _ _ h => h) fun past' r hr => ?_
  cases r with
  | ok a => exact ((hf a).trail past').mono (fun _ _ h => h) fun _ _ hne he => absurd rfl (hne _ he)
  | error e => exact fun he => hr (by cases he; rfl)

theorem requireInput_endsRefusable (job : JobModel) (fields : List Field) :
    EndsRefusable here Refused (CosmonautJob.requireInput job fields) := by
  intro past hpast r
  refine ⟨trivial, ?_⟩
  cases r with
  | error f => exact fun he => by cases he
  | ok accepted =>
    cases accepted with
    | true => exact fun he => by cases he
    | false => exact fun _ => List.forall_mem_cons.2 ⟨.refused _, hpast⟩

theorem saveInput_endsRefusable (job : JobModel) (fields : List Field) :
    EndsRefusable here Refused (CosmonautJob.saveInput here job fields) :=
  .first (endsRefusable_ask fun _ => .uploaded) fun _ => requireInput_endsRefusable _ _

section

variable [External]

theorem uploadMembership_endsRefusable (job : JobModel) (content : Except String String)
    (epsg : ℤ) :
    EndsRefusable here Refused (CosmonautJob.uploadMembership here job content epsg) := by
  refine .first pullWorkDir_stays.endsRefusable fun _ =>
    .first (fileExists_stays _).endsRefusable fun stale => ?_
  have hrest : EndsRefusable here Refused (CosmonautJob.storeMembership here job content epsg) := by
    refine .first (Stays.endsRefusable (calls_decodeUpload content)) fun decoded =>
      .first (rewriteFile_stays _ _).endsRefusable fun _ =>
      .first parseMembership_onDisk.stays.endsRefusable fun df =>
      .first (Stays.endsRefusable (.tryCatch (transformMembership_onDisk _).stays ?_))
        fun data => ?_
    · intro e he
      split
      · exact .bind (removeFile_stays _) fun _ => calls_raise (by simp)
      · exact calls_raise he
    · exact .last (saveInput_endsRefusable _ _) fun _ => trivial
  exact endsRefusable_ite (fun _ => .first (endsRefusable_ask fun _ => .deleted _) fun _ => hrest)
    fun _ => hrest

theorem uploadPredictor_endsRefusable (job : JobModel) (content : Except String String) :
    EndsRefusable here Refused (CosmonautJob.uploadPredictor here job content) := by
  refine .first pullWorkDir_stays.endsRefusable fun _ =>
    .first (Stays.endsRefusable (calls_decodeUpload content)) fun decoded =>
    .first (rewriteFile_stays _ _).endsRefusable fun _ =>
    .first (checkPredictor_stays ?_).endsRefusable fun _ =>
    .first (checkPredictor_stays ?_).endsRefusable fun _ =>
    .last (saveInput_endsRefusable _ _) fun _ => trivial
  · exact .bind (loadFile_stays _) fun _ => calls_ret _
  · refine .bind (loadFile_stays _) fun _ => .bind (fileExists_stays _) fun _ => ?_
    exact calls_ite (fun _ => .bind (loadFile_stays _) fun _ => calls_ret _) fun _ => calls_ret _

end

theorem deletePredictor_endsRefusable (job : JobModel) :
    EndsRefusable here Refused (CosmonautJob.deletePredictor here job) :=
  .first (endsRefusable_ask fun _ => .deleted _) fun _ =>
    .last (requireInput_endsRefusable _ _) fun _ => trivial

theorem deleteMembership_endsRefusable (job : JobModel) :
    EndsRefusable here Refused (CosmonautJob.deleteMembership here job) := by
  have hrest : EndsRefusable here Refused (do
      let plotFiles ← ask (.globPlots here.pod)
      ask (.deleteFiles here.pod
        (CosmonautJob.membershipFiles ++ plotFiles ++ [.membershipTif]))
      let job := CosmonautJob.withoutMembership job
      CosmonautJob.requireInput job [.membershipUpload, .predictorUpload, .streetEdits]
      return job) :=
    .first (Stays.endsRefusable (calls_ask (by simp [Op.isLocal]))) fun _ =>
    .first (endsRefusable_ask fun _ => .deleted _) fun _ =>
    .last (requireInput_endsRefusable _ _) fun _ => trivial
  unfold CosmonautJob.deleteMembership
  split
  · exact .first (endsRefusable_ask fun _ => .revoked _) fun _ => hrest
  · exact hrest

section

variable [External]

theorem applyEdits_endsRefusable (sel : StreetSelector) (defer : Bool) :
    EndsRefusable here Refused (sel.applyEdits here defer) := by
  intro past hpast r
  refine ⟨trivial, ?_⟩
  cases r with
  | error f => exact fun he => by cases he
  | ok accepted =>
    cases accepted with
    | false => exact fun _ => List.forall_mem_cons.2 ⟨.refused _, hpast⟩
    | true =>
      have hpull : StaysOrAdopts here (StreetSelector.pullDownloadIfOther here
          { sel with job := { sel.job with streetEdits := some sel.edits } }) :=
        StreetSelector.pullDownloadIfOther_staysOrAdopts _
      have hrest := hpull.bind fun r =>
        .bind (StreetSelector.deriveFiles_stays r.1 r.2 defer).orAdopts fun b => calls_ret (r.1, b)
      exact (hrest.raises.trail _).mono (fun _ _ h => h) fun _ _ hne he => absurd rfl (hne _ he)

/-- A refused input operation has worked on its own pod, uploaded its work dir, deleted files and
revoked tasks at most. -/
theorem InputCall.endsRefusable (call : InputCall) :
    EndsRefusable here Refused (call.program here) := by
  cases call with
  | uploadMembership job content epsg =>
    exact .last (uploadMembership_endsRefusable _ _ _) fun _ => trivial
  | uploadPredictor job content => exact .last (uploadPredictor_endsRefusable _ _) fun _ => trivial
  | deleteMembership job => exact .last (deleteMembership_endsRefusable _) fun _ => trivial
  | deletePredictor job => exact .last (deletePredictor_endsRefusable _) fun _ => trivial
  | applyEdits sel defer => exact .last (applyEdits_endsRefusable _ _) fun _ => trivial

end

/-! ## What the calls change in storage -/

/-- The step deletes no stored file, and uploads no file that differs from the stored one. -/
def Harmless (e : Event machine) : Prop :=
  match e.call.op with
  | .deleteFiles _ fs => ∀ f ∈ fs, e.before.stored f = none
  | .uploadWorkDir pod => ∀ f, (e.before.disk pod).content f ≠ none →
    (e.before.disk pod).content f = e.before.stored.content f
  | _ => True

/-- The row and the stored files are the same. -/
def SameJob (w w' : World) : Prop := w.row = w'.row ∧ w.stored = w'.stored

theorem upload_eq_iff {local' stored : Files} : local'.upload stored (fun _ => true) = stored ↔
    ∀ f, local'.content f ≠ none → local'.content f = stored.content f := by
  rw [funext_iff]
  exact forall_congr' fun f => Files.upload_apply_eq_iff.trans or_iff_not_imp_left

theorem delete_eq_iff {stored : Files} {fs : List FileName} :
    stored.delete (· ∈ fs) = stored ↔ ∀ f ∈ fs, stored f = none := by
  constructor
  · intro h f hf
    rw [← congrFun h f]
    exact Files.delete_of _ _ _ (by simpa using hf)
  · intro h
    funext f
    by_cases hf : f ∈ fs
    · rw [Files.delete_of _ _ _ (by simpa using hf), h f hf]
    · exact Files.delete_other _ _ _ (by simpa using hf)

theorem Refusable.after {e : Event machine} (hc : Refusable here e.call) (he : e.Allowed) :
    e.after.row = e.before.row ∧ (e.after.stored = e.before.stored ↔ Harmless e) ∧
      ((∀ id, e.call.op ≠ .revokeJob id) → Harmless e → AgreeOffPod here.pod e.before e.after) := by
  obtain ⟨t, call, before, after⟩ := e
  obtain ⟨c, hex⟩ := he
  simp only at hc hex
  have hafter : (exec call.op c before).2 = after := congrArg Prod.snd hex
  cases hc with
  | stays _ hlocal =>
    have h := agreeOffPod_of_isLocal hlocal c before
    rw [hafter] at h
    have hharm : Harmless ⟨t, call, before, after⟩ := by
      unfold Harmless
      split <;> simp_all [Op.isLocal]
    exact ⟨h.row.symm, ⟨fun _ => hharm, fun _ => h.stored.symm⟩, fun _ _ => h⟩
  | uploaded =>
    have hok := exec_ok (congrArg Prod.fst hex)
    simp only [hok, perform] at hafter
    subst hafter
    refine ⟨rfl, upload_eq_iff, fun _ hharm => ?_⟩
    rw [World.uploaded, upload_eq_iff.2 hharm]
    exact (agreeOffPod_equivalence _).refl _
  | deleted fs =>
    have hok := exec_ok (congrArg Prod.fst hex)
    simp only [hok, perform] at hafter
    subst hafter
    refine ⟨rfl, delete_eq_iff, fun _ hharm => ?_⟩
    rw [World.deleted, delete_eq_iff.2 hharm]
    exact .of_setDisk _ _ _
  | revoked id =>
    have hok := exec_ok (congrArg Prod.fst hex)
    simp only [hok, perform] at hafter
    subst hafter
    exact ⟨rfl, ⟨fun _ => trivial, fun _ => rfl⟩, fun hne => absurd rfl (hne id)⟩
  | refused vs =>
    have hok := exec_ok (congrArg Prod.fst hex)
    rw [hok, perform] at hex
    have hsame : before = after := by
      unfold World.update at hex
      split at hex
      · split at hex
        · cases hex
        · exact congrArg Prod.snd hex
      · exact congrArg Prod.snd hex
    subst hsame
    exact ⟨rfl, ⟨fun _ => trivial, fun _ => rfl⟩, fun _ _ => (agreeOffPod_equivalence _).refl _⟩

/-! ## Runs with and without the call -/

variable {p : Pool machine Err Unit} {s : List (ℕ × Choice)} {t : ℕ}

section

variable [External]

/-- Along the schedule, thread `t` makes the call in the process `here` and is refused. -/
structure RefusedCall (p : Pool machine Err Unit) (s : List (ℕ × Choice)) (t : ℕ)
    (call : InputCall) (here : Site) : Prop where
  started : p.threads[t]? = some (call.program here)
  refused : (p.play s).2.threads[t]? = some (.throw .jobNotPending)

/-- A refused call changes nothing: row and stored files end up as in the same run without the
call. -/
def RefusedCallChangesNothing : Prop :=
  ∀ (p : Pool machine Err Unit) (s : List (ℕ × Choice)) (t : ℕ) (call : InputCall) (here : Site),
    RefusedCall p s t call here → SameJob (p.play s).2.world (p.play (erase t s)).2.world

theorem RefusedCall.refusable {call : InputCall} (h : RefusedCall p s t call here)
    {e : Event machine} (he : e ∈ (p.play s).1) (ht : e.thread = t) : Refusable here e.call := by
  obtain ⟨rest, hrest, htrail⟩ := (Run.of_play s p).residual h.started
    (call.endsRefusable [] fun _ hc => by cases hc)
  obtain rfl := Option.some.inj (h.refused.symm.trans hrest)
  exact htrail rfl _ (mem_callsOf.2 ⟨e, he, ht, rfl⟩)

end

/-- Nobody else sees what the thread does on its pod: the others work on other pods, or it leaves
the pod's files and caches alone. -/
def Unobserved (p : Pool machine Err Unit) (s : List (ℕ × Choice)) (t : ℕ) (here : Site) : Prop :=
  (∀ i prog, i ≠ t → p.threads[i]? = some prog →
      prog.Always fun c : Call sig => c.op.pod? ≠ some here.pod) ∨
    ∀ e ∈ (p.play s).1, e.thread = t →
      e.after.disk = e.before.disk ∧ e.after.memory = e.before.memory

/-- The thread deletes no stored file, uploads no file that differs from the stored one, and
revokes no task. -/
structure LeavesNoTrace (p : Pool machine Err Unit) (s : List (ℕ × Choice)) (t : ℕ) : Prop where
  harmless : ∀ e ∈ (p.play s).1, e.thread = t → Harmless e
  noRevoke : ∀ e ∈ (p.play s).1, e.thread = t → ∀ id, e.call.op ≠ .revokeJob id

theorem AgreeOffPod.eq {q : ℕ} {w w' : World} (h : AgreeOffPod q w w') (hd : w'.disk = w.disk)
    (hm : w'.memory = w.memory) : w = w' := by
  cases w
  cases w'
  obtain ⟨hrow, hstored, hmessages, hrevoked, hlog, hmails, hepoch, hnextId, -, -⟩ := h
  simp only at *
  simp [*]

/-- What a schedule's beginning does, the whole schedule does. -/
theorem mem_play_of_prefix {s' : List (ℕ × Choice)} (hs : s' <+: s) {e : Event machine}
    (he : e ∈ (p.play s').1) : e ∈ (p.play s).1 := by
  obtain ⟨s'', rfl⟩ := hs
  rw [Pool.play_append]
  exact List.mem_append_left _ he

/-- The world with and without the thread at the end of a schedule nobody observes it in. -/
theorem sameJob_erase (hquiet : ∀ e ∈ (p.play s).1, e.thread = t →
      AgreeOffPod here.pod e.before e.after) (hobs : Unobserved p s t here) :
    SameJob (p.play s).2.world (p.play (erase t s)).2.world := by
  rcases hobs with hothers | hown
  · have h := play_erase (agreeOffPod_equivalence here.pod) s
      ⟨(agreeOffPod_equivalence here.pod).refl p.world, fun _ _ => rfl, fun i prog hi hp =>
        (hothers i prog hi hp).mono fun _ => respects_agreeOffPod⟩ hquiet
    exact ⟨h.row, h.stored⟩
  · have hsees : ∀ c : Call sig, Respects machine Eq c.op := fun c d w w' h => by
      subst h
      exact ⟨rfl, rfl⟩
    have heq : Equivalence (@Eq World) := ⟨fun _ => rfl, Eq.symm, Eq.trans⟩
    have h := play_erase heq s ⟨rfl, fun _ _ => rfl, fun i prog _ _ => always_of_forall hsees prog⟩
      fun e he ht => (hquiet e he ht).eq (hown e he ht).1 (hown e he ht).2
    exact ⟨congrArg World.row h, congrArg World.stored h⟩

variable [External]

/-- **When a refused operation changes nothing.** If nobody sees what it does on its pod, it deletes
no stored file, uploads none that differs, and revokes no task, then row and storage are at every
moment what they would be without the call. And they are so only if it deletes no stored file and
uploads none that differs. -/
theorem refused_call_changes_nothing_iff {call : InputCall} (h : RefusedCall p s t call here) :
    (Unobserved p s t here → LeavesNoTrace p s t →
      ∀ s', s' <+: s → SameJob (p.play s').2.world (p.play (erase t s')).2.world) ∧
    ((∀ s', s' <+: s → SameJob (p.play s').2.world (p.play (erase t s')).2.world) →
      ∀ e ∈ (p.play s).1, e.thread = t → Harmless e) := by
  have hallowed : ∀ e ∈ (p.play s).1, e.Allowed := fun e he => (Run.of_play s p).allowed he
  constructor
  · intro hobs htrace s' hs'
    have hsub : ∀ e ∈ (p.play s').1, e ∈ (p.play s).1 := fun e he => mem_play_of_prefix hs' he
    refine sameJob_erase (fun e he ht => ?_) (hobs.imp_right fun hown e he => hown e (hsub e he))
    exact ((h.refusable (hsub e he) ht).after (hallowed e (hsub e he))).2.2
      (htrace.noRevoke e (hsub e he) ht) (htrace.harmless e (hsub e he) ht)
  · intro hsame e he ht
    obtain ⟨s₁, c, s₂, hs, hbefore, hafter⟩ := Pool.mem_play he
    -- without the call the step is none: both worlds agree with the same one
    have herase : erase t (s₁ ++ [(e.thread, c)]) = erase t s₁ := by
      simp [erase, ht]
    have h₁ := hsame s₁ ⟨(e.thread, c) :: s₂, hs.symm⟩
    have h₂ := hsame (s₁ ++ [(e.thread, c)]) ⟨s₂, by simp [hs]⟩
    rw [herase, hafter] at h₂
    rw [hbefore] at h₁
    exact ((h.refusable he ht).after (hallowed e he)).2.1.1 (h₂.2.trans h₁.2.symm)

omit [External]

/-! ## A deletion that is refused too late -/

/-- A job object of a new job. -/
def blankJob : JobModel :=
  let _ := External.plain
  .blank

/-- A predictor file is stored; one request deletes it, another starts the run. -/
def lateDeletionPool (stored : Files) : Pool machine Err Unit :=
  let _ := External.plain
  ⟨{ World.fresh (.ofModel .blank) with stored },
    [(InputCall.deletePredictor blankJob).program ⟨0, 0, none⟩, startComputation ⟨1, 0, none⟩]⟩

def storedPredictor : Files :=
  Files.write (fun _ => none) .predictors ⟨.whole plainPredictors, 0, none⟩

/-- The run starts between the deletion of the file and the write of the row, or before both. -/
def lateDeletionSchedule : List (ℕ × Choice) := usually [0, 1, 1, 0]

theorem refused_deletion_of_no_file :
    let _ := External.plain
    let p := lateDeletionPool fun _ => none
    SameJob (p.play lateDeletionSchedule).2.world
      (p.play (erase 0 lateDeletionSchedule)).2.world := by
  intro _ p
  have h : RefusedCall p lateDeletionSchedule 0 (.deletePredictor blankJob) ⟨0, 0, none⟩ :=
    ⟨rfl, rfl⟩
  have hevents : ∀ e ∈ (p.play lateDeletionSchedule).1, e.thread = 0 →
      (e.after.disk = e.before.disk ∧ e.after.memory = e.before.memory) ∧ Harmless e ∧
        ∀ id, e.call.op ≠ .revokeJob id := by
    intro e he ht
    change e ∈ [_, _, _, _] at he
    simp only [List.mem_cons, List.not_mem_nil, or_false] at he
    rcases he with rfl | rfl | rfl | rfl
    · refine ⟨⟨?_, rfl⟩, fun f _ => rfl, nofun⟩
      -- nothing lies on the pod's disk
      funext q f
      by_cases hq : q = 0
      · subst hq
        exact ite_self none
      · exact congrFun (setDisk_disk_of_ne (Ne.symm hq)) f
    · cases ht
    · cases ht
    · exact ⟨⟨rfl, rfl⟩, trivial, nofun⟩
  exact (refused_call_changes_nothing_iff h).1 (.inr fun e he ht => (hevents e he ht).1)
    ⟨fun e he ht => (hevents e he ht).2.1, fun e he ht => (hevents e he ht).2.2⟩ _
    (List.prefix_refl _)

/-- **A refused deletion has deleted the predictor file** of the run that has started. -/
theorem refused_deletion_loses_a_file : ¬ @RefusedCallChangesNothing External.plain := by
  intro h
  let _ := External.plain
  have hsame := (h (lateDeletionPool storedPredictor) lateDeletionSchedule 0
    (.deletePredictor blankJob) ⟨0, 0, none⟩ ⟨rfl, rfl⟩).2
  have hfile := congrFun hsame .predictors
  exact absurd (congrArg Option.isSome hfile) (by decide)

end Cosmonaut
