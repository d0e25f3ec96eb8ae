import Cosmonaut.Model.Requests

/-!
# Who writes the inputs

A request writes an input column either by a conditional update or unguarded: by a write of whole
columns (`updateColumns`) or by a save. Which requests write unguarded is said by
`Request.writesUnguarded` and proved by `Request.guarded`.
-/

namespace Cosmonaut

open Interleaving Program

/-- The operation writes an input column whatever the row's state is. -/
def Op.writesUnguarded : Op → Bool
  | .updateColumns vs => vs.any ColumnValue.isInput
  | .writeRow _ => true
  | _ => false

/-- The requests that may write an input column unguarded: a membership upload names its task, the
street selection adopts what older rows lack, also in a run, and a start saves the row. -/
def Request.writesUnguarded (r : Request) : Bool :=
  r.adopts || r.saves || r.names || r.computes

theorem guarded_of_isLocal {here : Site} {o : Op} (h : o.isLocal here = true) :
    o.writesUnguarded = false := by
  cases o <;> first | rfl | cases h

theorem guardedMenu (here : Site) : Menu here fun o => o.writesUnguarded = false where
  stays _ := guarded_of_isLocal
  shared o h := by cases o <;> first | rfl | cases h
  inputs _ _ := rfl
  due := rfl
  task _ := rfl
  raises _ _ := rfl
  log _ := rfl

/-- **The requests that write inputs conditionally only.** -/
theorem Request.guarded [External] {here : Site} {r : Request} (h : r.writesUnguarded = false) :
    (r.program here).Always fun c : Call sig => c.op.writesUnguarded = false := by
  simp only [writesUnguarded, Bool.or_eq_false_iff] at h
  obtain ⟨⟨⟨hadopts, hsaves⟩, hnames⟩, hcomputes⟩ := h
  exact Request.asks hcomputes (guardedMenu here) (fun ha => by simp [hadopts] at ha)
    (fun hs => by simp [hsaves] at hs) (fun _ _ => rfl) (fun hn => by simp [hnames] at hn)
    fun _ _ => rfl

end Cosmonaut
