import Cosmonaut.Model.Effects

/-!
# What each function can call

For each function of the model, the operations it can ask for. Most functions only work on the disk
and the caches of the process they run in (`Stays`); the street selector may also adopt a download's
checksum or a legacy intent into the row (`StaysOrAdopts`). None of them raises `JobNotPending`.
-/

namespace Cosmonaut

open Interleaving Program

/-- The operation works on the disk and the caches of the process `here` only. -/
def Op.isLocal (here : Site) : Op → Bool
  | .pullWorkDir pod | .pullFile pod _ | .fileExists pod _ | .mtime pod _ => pod = here.pod
  | .readFile pod _ | .replaceFile pod _ | .removeFile pod _ | .globPlots pod => pod = here.pod
  | .openFile s _ | .writeFile s _ _ | .cachedChecksum s _ | .cacheChecksum s .. => s = here
  | .cachedFeatures s _ | .cacheFeatures s .. | .newFeatures s _ | .getFeatures s _ => s = here
  | .addTooltips s _ => s = here
  | _ => false

/-- The operation works on the disk of the process `here` only. -/
def Op.isDisk (here : Site) : Op → Bool
  | .pullWorkDir pod | .pullFile pod _ | .fileExists pod _ => pod = here.pod
  | .readFile pod _ | .replaceFile pod _ | .removeFile pod _ | .globPlots pod => pod = here.pod
  | .openFile s _ | .writeFile s _ _ => s = here
  | _ => false

/-- The operation puts a download's checksum or a legacy intent into the row. -/
def Op.isAdoption (here : Site) : Op → Bool
  | .updateColumns [.membershipUpload u] => u.streetProcessing = some .completed
  | .updateColumns [.streetEdits _] => true
  | .deleteFiles pod [.streetEdits] => pod = here.pod
  | _ => false

variable {here : Site} {α β : Type} {P P' : Op → Prop}

theorem isLocal_of_isDisk {o : Op} (h : o.isDisk here = true) : o.isLocal here = true := by
  cases o <;> first | exact h | cases h

/-- The program only asks for operations of `P`, and never refuses. -/
def Calls (P : Op → Prop) (p : App α) : Prop :=
  p.Within (fun c => P c.op) (· ≠ Err.jobNotPending)

/-- The program only works where it runs. -/
abbrev Stays (here : Site) (p : App α) : Prop := Calls (fun o => o.isLocal here = true) p

/-- The program only works on the disk where it runs. -/
abbrev OnDisk (here : Site) (p : App α) : Prop := Calls (fun o => o.isDisk here = true) p

/-- The program works where it runs, or adopts what older rows lack. -/
abbrev StaysOrAdopts (here : Site) (p : App α) : Prop :=
  Calls (fun o => o.isLocal here = true ∨ o.isAdoption here = true) p

/-! ## The rules -/

theorem Calls.always {p : App α} (h : Calls P p) : p.Always fun c => P c.op := h.1

theorem Calls.raises {p : App α} (h : Calls P p) : p.Raises (· ≠ Err.jobNotPending) := h.2

theorem calls_ask {o : Op} (h : P o) : Calls P (ask o) := within_call (fun _ => h) fun _ => by simp

theorem calls_ret (a : α) : Calls P (ret a : App α) := within_ret a

theorem calls_raise {e : Err} (h : e ≠ .jobNotPending) : Calls P (raise e : App α) := within_throw h

theorem Calls.bind {p : App α} {f : α → App β} (hp : Calls P p) (hf : ∀ a, Calls P (f a)) :
    Calls P (p >>= f) :=
  Within.bind hp hf

theorem Calls.tryCatch {p : App α} {h : Err → App α} (hp : Calls P p)
    (hh : ∀ e, e ≠ .jobNotPending → Calls P (h e)) : Calls P (p.tryCatch h) :=
  Within.tryCatch hp hh

theorem Calls.tryExcept {p : App α} {h : Err → App α} (hp : Calls P p)
    (hh : ∀ e, e ≠ .jobNotPending → Calls P (h e)) : Calls P (tryExcept p h) :=
  .tryCatch hp fun e hne => within_ite (fun _ => calls_raise hne) fun _ => hh e hne

theorem calls_ite {c : Prop} [Decidable c] {p q : App α} (hp : c → Calls P p)
    (hq : ¬c → Calls P q) : Calls P (if c then p else q) :=
  within_ite hp hq

theorem Calls.mono {p : App α} (h : Calls P p) (hP : ∀ o, P o → P' o) : Calls P' p :=
  Within.mono h fun _ => hP _

theorem calls_decode (b : Bytes α) : Calls P (decode b) := by
  cases b with
  | torn => exact calls_raise (by simp)
  | whole doc => exact calls_ret doc

theorem Stays.calls {p : App α} (h : Stays here p) (hP : ∀ o, o.isLocal here = true → P o) :
    Calls P p :=
  h.mono hP

theorem OnDisk.stays {p : App α} (h : OnDisk here p) : Stays here p :=
  h.mono fun _ => isLocal_of_isDisk

theorem Stays.orAdopts {p : App α} (h : Stays here p) : StaysOrAdopts here p :=
  h.calls fun _ => .inl

/-- The rule for one operation: it comes in order, and what follows does, or it raises. -/
theorem trail_ask {P : List (Call sig) → Call sig → Prop}
    {Q : List (Call sig) → Except Err α → Prop} {past : List (Call sig)} {o : Op}
    {f : o.Ans → App α}
    (hP : ∀ r, P past ⟨o, r⟩) (hok : ∀ a, (f a).Trail P Q (answered o a :: past))
    (herr : ∀ e, Q (⟨o, .error e⟩ :: past) (.error (.fault e))) :
    (ask o >>= f).Trail P Q past := by
  intro r
  refine ⟨hP r, ?_⟩
  cases r with
  | ok a => exact hok a
  | error e => exact herr e

/-! ## Files and tables -/

theorem fileExists_stays (f : FileName) : Stays here (ask (.fileExists here.pod f)) :=
  calls_ask (by simp [Op.isLocal])

theorem pullWorkDir_stays : Stays here (ask (.pullWorkDir here.pod)) :=
  calls_ask (by simp [Op.isLocal])

theorem removeFile_stays (f : FileName) : Stays here (ask (.removeFile here.pod f)) :=
  calls_ask (by simp [Op.isLocal])

theorem rewriteFile_onDisk (f : FileName) (doc : f.Doc) : OnDisk here (rewriteFile here f doc) :=
  .bind (calls_ask (by simp [Op.isDisk])) fun _ => calls_ask (by simp [Op.isDisk])

theorem loadFile_onDisk (f : FileName) : OnDisk here (loadFile here f) :=
  .bind (calls_ask (by simp [Op.isDisk])) fun b => calls_decode b

theorem rewriteFile_stays (f : FileName) (doc : f.Doc) : Stays here (rewriteFile here f doc) :=
  (rewriteFile_onDisk f doc).stays

theorem loadFile_stays (f : FileName) : Stays here (loadFile here f) := (loadFile_onDisk f).stays

theorem calls_orRaise {error : String → Err} (h : ∀ message, error message ≠ .jobNotPending)
    (result : Except String α) : Calls P (orRaise error result) := by
  cases result with
  | ok a => exact calls_ret a
  | error message => exact calls_raise (h message)

theorem calls_decodeUpload (content : Except String String) :
    Calls P (CosmonautJob.decodeUpload content) :=
  calls_orRaise (by simp) content

section

variable [External]

theorem calls_transformCsv (text : String) (epsg : ℤ) : Calls P (transformCsv text epsg) := by
  have hread : Calls P (readTable text) :=
    .bind (calls_orRaise (by simp) _) fun _ => .bind (calls_orRaise (by simp) _) fun _ =>
      .bind (calls_orRaise (by simp) _) fun _ => calls_ret _
  refine .bind hread fun (hasHeader, df) => ?_
  dsimp only
  rcases coordColumns hasHeader df with _ | ⟨x, y⟩
  · exact calls_raise (by simp)
  dsimp only
  split
  · exact calls_ret _
  · exact calls_raise (by simp)

theorem transformMembership_onDisk (epsg : ℤ) :
    OnDisk here (CosmonautJob.transformMembership here epsg) :=
  .bind (loadFile_onDisk _) fun _ => calls_transformCsv _ _

theorem parseMembership_onDisk : OnDisk here (CosmonautJob.parseMembership here) := by
  refine .tryExcept (Calls.bind (loadFile_onDisk _) fun text => ?_) fun e _ => ?_
  · split
    · exact calls_ret _
    · exact calls_raise (by simp)
  · exact .bind (calls_ask (by simp [Op.isDisk])) fun _ => calls_raise (by simp)

omit [External] in
theorem checkPredictor_stays {check : App (Except String Unit)} (h : Stays here check) :
    Stays here (CosmonautJob.checkPredictor here check) := by
  refine .tryExcept (Calls.bind h fun r => ?_) fun e _ => ?_
  · cases r with
    | ok u => exact calls_ret _
    | error message => exact calls_raise (by simp)
  · exact .bind (removeFile_stays _) fun _ => calls_raise (by simp)

end

/-! ## The street files -/

theorem withWriter_calls (hP : ∀ o, o.isDisk here = true → P o) (s : StreetFile)
    {body : App (s.Doc × α)} (h : Calls P body) : Calls P (withWriter here s body) := by
  have hask : ∀ {o : Op}, o.isDisk here = true → Calls P (ask o) := fun ho => calls_ask (hP _ ho)
  refine .bind (hask (by simp [Op.isDisk])) fun _ => .bind (.tryExcept h fun e he => ?_)
    fun _ => ?_
  · refine .bind (hask (by simp [Op.isDisk])) fun _ =>
      calls_ite (fun _ => .bind (hask (by simp [Op.isDisk])) fun _ => ?_) fun _ => ?_
    · exact calls_raise he
    · exact calls_raise he
  · exact .bind (hask (by simp [Op.isDisk])) fun _ =>
      .bind (hask (by simp [Op.isDisk])) fun _ => calls_ret _

/-! ## The street selector -/

/-- The files that the street selector works with, legacy edits apart. -/
def FileName.ofSelector : FileName → Bool
  | .street _ | .streetTmp _ | .derivedHashes => true
  | _ => false

/-- All operations that look at the street files of `here` satisfy `P`. -/
structure LookMenu (here : Site) (P : Op → Prop) : Prop where
  pull : P (.pullFile here.pod (.street .download))
  fileExists : ∀ f, f.ofSelector = true → P (.fileExists here.pod f)
  mtime : ∀ s, P (.mtime here.pod (.street s))
  readFile : ∀ f, f.ofSelector = true → P (.readFile here.pod f)
  cachedChecksum : ∀ s, P (.cachedChecksum here s)
  cacheChecksum : ∀ s mtime sha256, P (.cacheChecksum here s mtime sha256)

/-- All operations that look at the street files of `here` or derive them satisfy `P`. -/
structure EditMenu (here : Site) (P : Op → Prop) : Prop extends LookMenu here P where
  openFile : ∀ f, f.ofSelector = true → P (.openFile here f)
  writeFile : ∀ f doc, f.ofSelector = true → P (.writeFile here f doc)
  replaceFile : ∀ s, P (.replaceFile here.pod s)
  removeFile : ∀ s, P (.removeFile here.pod (.streetTmp s))
  cachedFeatures : ∀ s, P (.cachedFeatures here s)
  cacheFeatures : ∀ s mtime refs, P (.cacheFeatures here s mtime refs)
  newFeatures : ∀ features, P (.newFeatures here features)
  getFeatures : ∀ refs, P (.getFeatures here refs)
  addTooltips : ∀ refs, P (.addTooltips here refs)

/-- The adoptions of a stored download satisfy `P`. -/
abbrev AdoptsDownload (P : Op → Prop) : Prop :=
  ∀ u : MembershipColumn, u.streetProcessing = some .completed →
  P (.updateColumns [.membershipUpload u])

theorem editMenu_local : EditMenu here fun o => o.isLocal here = true where
  pull := by simp [Op.isLocal]
  fileExists := by simp [Op.isLocal]
  mtime := by simp [Op.isLocal]
  readFile := by simp [Op.isLocal]
  cachedChecksum := by simp [Op.isLocal]
  cacheChecksum := by simp [Op.isLocal]
  openFile := by simp [Op.isLocal]
  writeFile := by simp [Op.isLocal]
  replaceFile := by simp [Op.isLocal]
  removeFile := by simp [Op.isLocal]
  cachedFeatures := by simp [Op.isLocal]
  cacheFeatures := by simp [Op.isLocal]
  newFeatures := by simp [Op.isLocal]
  getFeatures := by simp [Op.isLocal]
  addTooltips := by simp [Op.isLocal]

namespace LookMenu

variable (hm : LookMenu here P)

include hm

theorem loadFile {f : FileName} (hf : f.ofSelector = true) : Calls P (loadFile here f) :=
  .bind (calls_ask (hm.readFile f hf)) fun b => calls_decode b

theorem fileSha256 (s : StreetFile) : Calls P (fileSha256 here s) := by
  refine .bind (calls_ask (hm.mtime s)) fun stat =>
    .bind (calls_ask (hm.cachedChecksum s)) fun cached => ?_
  split
  · exact calls_ret _
  · exact .bind (calls_ask (hm.readFile _ rfl)) fun _ =>
      .bind (calls_ask (hm.cacheChecksum ..)) fun _ => calls_ret _

theorem adoptStoredDownload (ha : AdoptsDownload P) (job : JobModel) :
    Calls P (adoptStoredDownload here job) := by
  unfold Cosmonaut.adoptStoredDownload
  apply calls_ite (fun _ => calls_ret _)
  intro hjob
  refine .bind (calls_ask hm.pull) fun _ => .bind (calls_ask (hm.fileExists _ rfl)) fun _ => ?_
  refine calls_ite (fun _ => ?_) fun _ => calls_ret _
  refine .bind (hm.fileSha256 _) fun checksum => .bind (calls_ask (ha _ ?_)) fun _ => calls_ret _
  have hcompleted : job.membershipUpload.streetProcessing = .completed := by
    simpa using (not_or.1 hjob).2
  exact congrArg some hcompleted

theorem downloadSha256 (ha : AdoptsDownload P) (sel : StreetSelector) :
    Calls P (sel.downloadSha256 here) :=
  .bind (hm.adoptStoredDownload ha _) fun _ => calls_ret _

theorem localDownloadSha256 : Calls P (StreetSelector.localDownloadSha256 here) :=
  .bind (calls_ask (hm.fileExists _ rfl)) fun _ =>
    calls_ite (fun _ => .bind (hm.fileSha256 _) fun _ => calls_ret _) fun _ => calls_ret _

theorem pullDownloadIfOther (ha : AdoptsDownload P) (sel : StreetSelector) :
    Calls P (sel.pullDownloadIfOther here) := by
  refine .bind hm.localDownloadSha256 fun localSha256 =>
    .bind (hm.downloadSha256 ha sel) fun sel => ?_
  have hrest : Calls P (do return (sel, ← StreetSelector.localDownloadSha256 here)) :=
    .bind hm.localDownloadSha256 fun _ => calls_ret _
  exact calls_ite (fun _ => .bind (calls_ask hm.pull) fun _ => hrest) fun _ => hrest

theorem records : Calls P (StreetSelector.records here) :=
  .bind (calls_ask (hm.fileExists _ rfl)) fun _ =>
    calls_ite (fun _ => hm.loadFile rfl) fun _ => calls_ret _

theorem isCurrent (s : StreetFile) (source : Source) :
    Calls P (StreetSelector.isCurrent here s source) := by
  refine .bind (calls_ask (hm.fileExists _ rfl)) fun _ =>
    calls_ite (fun _ => ?_) fun _ => calls_ret _
  refine .bind hm.records fun records => ?_
  split
  · exact .bind (hm.fileSha256 _) fun _ => calls_ret _
  · exact calls_ret _

end LookMenu

namespace EditMenu

variable (hm : EditMenu here P)

include hm

theorem rewriteFile {f : FileName} (hf : f.ofSelector = true) (doc : f.Doc) :
    Calls P (rewriteFile here f doc) :=
  .bind (calls_ask (hm.openFile f hf)) fun _ => calls_ask (hm.writeFile f doc hf)

theorem rewriting (s : StreetFile) (source : Source) {body : App Unit} (h : Calls P body) :
    Calls P (StreetSelector.rewriting here s source body) := by
  refine .bind hm.records fun records => ?_
  have hrest : Calls P (do
      body
      let checksum ← Cosmonaut.fileSha256 here s
      StreetSelector.writeRecords here
        (Function.update records s (some (.built source checksum)))) :=
    .bind h fun _ => .bind (hm.fileSha256 _) fun _ => hm.rewriteFile rfl _
  exact calls_ite (fun _ => .bind (hm.rewriteFile rfl _) fun _ => hrest) fun _ => hrest

theorem cachedLoad (s : StreetFile) (features : s.Doc → List Feature) :
    Calls P (StreetSelector.cachedLoad here s features) := by
  refine .bind (calls_ask (hm.mtime s)) fun mtime =>
    .bind (calls_ask (hm.cachedFeatures s)) fun cached => ?_
  split
  · exact calls_ret _
  · exact .bind (hm.loadFile rfl) fun _ => .bind (calls_ask (hm.newFeatures _)) fun _ =>
      .bind (calls_ask (hm.cacheFeatures ..)) fun _ => calls_ret _

theorem saveEditFile (refs : List ℕ) : Calls P (StreetSelector.saveEditFile here refs) :=
  .bind (calls_ask (hm.openFile _ rfl)) fun _ => .bind (calls_ask (hm.getFeatures _)) fun _ =>
    .bind (calls_ask (hm.writeFile _ _ rfl)) fun _ => .bind (calls_ask (hm.mtime _)) fun _ =>
    calls_ask (hm.cacheFeatures ..)

theorem getRemovedRoadsInfo (sel : StreetSelector) : Calls P (sel.getRemovedRoadsInfo here) := by
  refine calls_ite (fun _ => calls_ret _) fun _ =>
    .bind (calls_ask (hm.fileExists _ rfl)) fun _ => calls_ite (fun _ => ?_) fun _ => calls_ret _
  exact .bind (hm.cachedLoad _ _) fun _ => .bind (calls_ask (hm.getFeatures _)) fun _ => calls_ret _

theorem visibleFc : Calls P (StreetSelector.visibleFc here) :=
  .bind (hm.cachedLoad _ _) fun _ => calls_ask (hm.addTooltips _)

theorem withWriter (s : StreetFile) {body : App (s.Doc × α)} (h : Calls P body) :
    Calls P (withWriter here s body) := by
  refine .bind (calls_ask (hm.openFile _ rfl)) fun _ => .bind (.tryExcept h fun e he => ?_)
    fun _ => ?_
  · refine .bind (calls_ask (hm.fileExists _ rfl)) fun _ =>
      calls_ite (fun _ => .bind (calls_ask (hm.removeFile _)) fun _ => ?_) fun _ => ?_
    · exact calls_raise he
    · exact calls_raise he
  · exact .bind (calls_ask (hm.writeFile _ _ rfl)) fun _ =>
      .bind (calls_ask (hm.replaceFile _)) fun _ => calls_ret _

variable [External]

theorem project (sel : StreetSelector) (refs : List ℕ) (source : Source) :
    Calls P (sel.project here refs source) := by
  refine hm.rewriting _ _ (calls_ite (fun _ => ?_) fun _ => ?_)
  · exact .bind (hm.rewriteFile rfl _) fun _ => .bind (calls_ask (hm.mtime _)) fun _ =>
      calls_ask (hm.cacheFeatures ..)
  · exact hm.withWriter _ (.bind (calls_ask (hm.getFeatures _)) fun _ => calls_ret _)

theorem deriveFiles (sel : StreetSelector) (downloadSha256 : Option Sha256) (defer : Bool) :
    Calls P (sel.deriveFiles here downloadSha256 defer) := by
  refine .bind (hm.cachedLoad _ _) fun refs => .bind (calls_ask (hm.getFeatures _))
    fun features => ?_
  split
  · exact calls_raise (by simp)
  · exact .bind (hm.rewriting _ _ (hm.saveEditFile _)) fun _ =>
      calls_ite (fun _ => .bind (hm.project _ _ _) fun _ => calls_ret _) fun _ => calls_ret _

theorem refresh (ha : AdoptsDownload P) (sel : StreetSelector) : Calls P (sel.refresh here) := by
  refine .bind (hm.downloadSha256 ha sel) fun sel => ?_
  split
  · exact calls_ret _
  · refine .bind (hm.isCurrent _ _) fun _ => calls_ite (fun _ => calls_ret _) fun _ => ?_
    refine .bind (hm.pullDownloadIfOther ha sel) fun r => ?_
    obtain ⟨sel, localSha256⟩ := r
    cases localSha256 with
    | none => exact calls_ret _
    | some sha256 => exact .bind (hm.deriveFiles _ _ _) fun _ => calls_ret _

theorem ensureProjected (ha : AdoptsDownload P) (sel : StreetSelector) :
    Calls P (sel.ensureProjected here) := by
  refine .bind (hm.refresh ha sel) fun r => calls_ite (fun _ => ?_) fun _ => calls_ret _
  refine .bind hm.records fun records => ?_
  split
  · exact calls_raise (by simp)
  · exact calls_raise (by simp)
  · refine .bind (hm.isCurrent _ _) fun _ => calls_ite (fun _ => calls_ret _) fun _ => ?_
    exact .bind (hm.cachedLoad _ _) fun _ => hm.project _ _ _

end EditMenu

theorem editMenu_orAdopts :
    EditMenu here fun o => o.isLocal here = true ∨ o.isAdoption here = true where
  pull := .inl editMenu_local.pull
  fileExists f hf := .inl (editMenu_local.fileExists f hf)
  mtime s := .inl (editMenu_local.mtime s)
  readFile f hf := .inl (editMenu_local.readFile f hf)
  cachedChecksum s := .inl (editMenu_local.cachedChecksum s)
  cacheChecksum s _ _ := .inl (editMenu_local.cacheChecksum s _ _)
  openFile f hf := .inl (editMenu_local.openFile f hf)
  writeFile f doc hf := .inl (editMenu_local.writeFile f doc hf)
  replaceFile s := .inl (editMenu_local.replaceFile s)
  removeFile s := .inl (editMenu_local.removeFile s)
  cachedFeatures s := .inl (editMenu_local.cachedFeatures s)
  cacheFeatures s _ _ := .inl (editMenu_local.cacheFeatures s _ _)
  newFeatures features := .inl (editMenu_local.newFeatures features)
  getFeatures refs := .inl (editMenu_local.getFeatures refs)
  addTooltips refs := .inl (editMenu_local.addTooltips refs)

theorem adoptsDownload_orAdopts :
    AdoptsDownload fun o => o.isLocal here = true ∨ o.isAdoption here = true :=
  fun u hu => .inr (by simp [Op.isAdoption, hu])

theorem fileSha256_stays (s : StreetFile) : Stays here (fileSha256 here s) :=
  editMenu_local.fileSha256 s

theorem adoptLegacyEdits_staysOrAdopts (job : JobModel) :
    StaysOrAdopts here (adoptLegacyEdits here job) := by
  refine calls_ite (fun _ => calls_ret _) fun _ => .bind (fileExists_stays _).orAdopts fun _ => ?_
  refine calls_ite (fun _ => ?_) fun _ => calls_ret _
  refine .bind (loadFile_stays _).orAdopts fun edits => .bind (calls_ask (.inr rfl)) fun _ => ?_
  exact .bind (calls_ask (.inr (by simp [Op.isAdoption]))) fun _ => calls_ret _

namespace StreetSelector

theorem new_staysOrAdopts (job : JobModel) : StaysOrAdopts here (new here job) :=
  .bind (adoptLegacyEdits_staysOrAdopts job) fun _ => calls_ret _

theorem pullDownloadIfOther_staysOrAdopts (sel : StreetSelector) :
    StaysOrAdopts here (sel.pullDownloadIfOther here) :=
  editMenu_orAdopts.pullDownloadIfOther adoptsDownload_orAdopts sel

variable [External]

theorem deriveFiles_stays (sel : StreetSelector) (downloadSha256 : Option Sha256) (defer : Bool) :
    Stays here (sel.deriveFiles here downloadSha256 defer) :=
  editMenu_local.deriveFiles sel downloadSha256 defer

theorem refresh_staysOrAdopts (sel : StreetSelector) : StaysOrAdopts here (sel.refresh here) :=
  editMenu_orAdopts.refresh adoptsDownload_orAdopts sel

theorem ensureProjected_staysOrAdopts (sel : StreetSelector) :
    StaysOrAdopts here (sel.ensureProjected here) :=
  editMenu_orAdopts.ensureProjected adoptsDownload_orAdopts sel

omit [External] in
theorem visibleFc_stays : Stays here (visibleFc here) := editMenu_local.visibleFc

theorem viewportFc_staysOrAdopts (sel : StreetSelector) :
    StaysOrAdopts here (sel.viewportFc here) :=
  .bind (refresh_staysOrAdopts sel) fun _ =>
    calls_ite (fun _ => visibleFc_stays.orAdopts) fun _ => calls_ret _

omit [External] in
theorem getRemovedRoadsInfo_stays (sel : StreetSelector) :
    Stays here (sel.getRemovedRoadsInfo here) :=
  editMenu_local.getRemovedRoadsInfo sel

end StreetSelector

/-! ## The route and the download -/

theorem isRouteReversed_stays : Stays here (CosmonautJob.isRouteReversed here) :=
  .bind (fileExists_stays _) fun _ => calls_ite (fun _ => loadFile_stays _) fun _ => calls_ret _

section

variable [External]

theorem createGpx_stays (url : String) (sourceEpsg : ℤ) (reverse : Bool) :
    Stays here (CosmonautJob.createGpx here url sourceEpsg reverse) := by
  refine .bind (fileExists_stays _) fun _ => calls_ite (fun _ => ?_) fun _ => rewriteFile_stays _ _
  exact .bind (loadFile_stays _) fun _ => .bind (rewriteFile_stays _ _) fun _ =>
    rewriteFile_stays _ _

theorem createQrCodeRouting_calls (hP : ∀ o, o.isLocal here = true → P o) (hurl : P .presignedUrl)
    (job : JobModel) : Calls P (CosmonautJob.createQrCodeRouting here job) :=
  .bind (calls_ask hurl) fun _ => .bind (isRouteReversed_stays.calls hP) fun _ =>
    (createGpx_stays _ _ _).calls hP

theorem getRoutePolyline_stays (job : JobModel) :
    Stays here (CosmonautJob.getRoutePolyline here job) := by
  refine .bind (fileExists_stays _) fun _ => calls_ite (fun _ => ?_) fun _ => calls_ret _
  exact .bind (loadFile_stays _) fun _ => .bind isRouteReversed_stays fun _ => calls_ret _

theorem calls_osmDownloader (data : List Point) (epsgOutput : ℤ) :
    Calls P (OsmDownloader.new data epsgOutput) :=
  .bind (calls_orRaise (by simp) _) fun _ => calls_ret _

theorem runOsmQuery_calls (hP : ∀ o, o.isDisk here = true → P o) (hways : P .streamWays)
    (osm : OsmDownloader) : Calls P (runOsmQuery here osm) :=
  withWriter_calls hP _ <| withWriter_calls hP _ <| withWriter_calls hP _ <|
    .bind (calls_ask hways) fun _ => calls_ret _

end

end Cosmonaut
