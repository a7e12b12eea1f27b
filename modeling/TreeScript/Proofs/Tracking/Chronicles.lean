import TreeScript.Proofs.Scoping.Sessions
import TreeScript.Proofs.Tracking.Regimes

/-!
# Sessions with a record

* `Chronicle` — the history of a session with the record of its latest run
* `Chronicle.Reachable` — the chronicles of sessions
* `Chronicle.Leaves` — what an accepted program leaves behind, with what ending
* `Chronicle.run_cases` — a source is rejected, or an accepted program leaves a chronicle behind
* `Chronicle.Leaves.kept` — what a regime keeps from one source to the next
-/

namespace TreeScript

/-- The history of a session with the record of its latest run.  The births of all its
functions and classes are in the record, the sights only of the latest run. -/
structure Chronicle where
  history : History
  record : Record

/-- Forgets what was seen. -/
def Record.blank (record : Record) : Record :=
  { record with sights := [] }

namespace Chronicle

/-- The session. -/
def session (c : Chronicle) : Session :=
  c.history.session

/-- The machine between two runs. -/
def machine (c : Chronicle) : Machine :=
  c.session.interpreter.machine

/-- The chronicle of a fresh session. -/
def fresh (lexicon : Lexicon) (sink : Sink) (now : Float) : Chronicle :=
  { history := .fresh lexicon sink now, record := .empty }

/-- Registers a host function. -/
def register (c : Chronicle) (native : Native) : Chronicle :=
  { c with history := c.history.register native }

/-- Sets how many arguments the host functions of dynamic arity take. -/
def setDynamicArity (c : Chronicle) (count : Nat) : Chronicle :=
  { c with history := c.history.setDynamicArity count }

/-- The record after a run of one source. -/
def recordAfter (c : Chronicle) (fuel : Nat) (source : String) : Record :=
  match c.session.check source with
  | (_, .error _) => c.record.blank
  | (session, .ok program) =>
    let interpreter := session.interpreter
    (trackProgram interpreter.setting fuel program c.record.blank interpreter.machine).2

/-- Runs one source. -/
def run (c : Chronicle) (fuel : Nat) (source : String) : Chronicle × RunEnd :=
  ({ history := (c.history.run fuel source).1, record := c.recordAfter fuel source },
    (c.history.run fuel source).2)

/-- The chronicles of sessions.  Host functions use only what they are given and what the
session handed to the host. -/
inductive Reachable : Chronicle → Prop
  | fresh (lexicon : Lexicon) (sink : Sink) (now : Float) :
      Reachable (.fresh lexicon sink now)
  | register {c : Chronicle} {native : Native} :
      c.Reachable → native.Honest c.history.handed → (c.register native).Reachable
  | setDynamicArity {c : Chronicle} (count : Nat) :
      c.Reachable → (c.setDynamicArity count).Reachable
  | run {c : Chronicle} {fuel : Nat} {source : String} {report : Report} :
      c.Reachable → (c.run fuel source).2 = .reported report →
      (c.run fuel source).1.Reachable

variable {c : Chronicle}

/-- The histories of chronicles are those of sessions. -/
theorem Reachable.history (h : c.Reachable) : c.history.Reachable := by
  induction h with
  | fresh lexicon sink now => exact .fresh lexicon sink now
  | register _ hn ih => exact .register ih hn
  | setDynamicArity count _ ih => exact .setDynamicArity count ih
  | run _ hreport ih => exact .run ih hreport

/-! ## Runs -/

/-- What an accepted program leaves behind: its record; and unless the fuel ran out, the
machine in which it ended, and perhaps a value that is handed to the host. -/
structure Leaves (before after : Chronicle) (ending : RunEnd) (session : Session)
    (program : List Stmt) (result : Outcome Value × Record) : Prop where
  record : after.record = result.2
  programs : after.history.programs = program :: before.history.programs
  setting : after.session.interpreter.setting = session.interpreter.setting
  lexicon : after.session.lexicon = session.lexicon
  done : ∀ value machine, result.1 = .done value machine → after.machine = machine ∧
    ∀ v ∈ after.history.handed, v = value ∨ v ∈ before.history.handed
  failed : ∀ failure machine, result.1 = .failed failure machine → after.machine = machine ∧
    after.history.handed = before.history.handed
  outOfFuel : result.1 = .outOfFuel → ∀ report, ending ≠ .reported report

/-- A source is rejected, or it is accepted and runs. -/
theorem run_cases (c : Chronicle) (fuel : Nat) (source : String) :
    (∃ session diagnostics, c.session.check source = (session, .error diagnostics) ∧
        (c.run fuel source).1 =
          { history := { c.history with session }, record := c.record.blank }) ∨
      ∃ session program, c.session.check source = (session, .ok program) ∧
        c.Leaves (c.run fuel source).1 (c.run fuel source).2 session program
          (trackProgram session.interpreter.setting fuel program c.record.blank
            session.interpreter.machine) := by
  rcases hc : c.session.check source with ⟨session, diagnostics | program⟩
  · refine .inl ⟨session, diagnostics, rfl, ?_⟩
    have hcheck : c.history.session.check source = (session, .error diagnostics) := hc
    simp only [run, recordAfter, History.run, hc, hcheck]
  · refine .inr ⟨session, program, rfl, ?_⟩
    have hcheck : c.history.session.check source = (session, .ok program) := hc
    -- the journal and the record tell of the same run
    have hsame := (trackProgram_shadows session.interpreter.setting fuel program c.record.blank
      session.interpreter.machine).trans (watchProgram_erases session.interpreter.setting fuel
        program c.history.journal session.interpreter.machine).symm
    simp only [run, recordAfter, History.run, hc, hcheck]
    generalize trackProgram session.interpreter.setting fuel program c.record.blank
      session.interpreter.machine = result at hsame ⊢
    generalize watchProgram session.interpreter.setting fuel program c.history.journal
      session.interpreter.machine = watched at hsame ⊢
    obtain ⟨outcome, record⟩ := result
    replace hsame : outcome = watched.1 := hsame
    subst hsame
    rcases watched with ⟨⟨value, machine⟩ | ⟨diagnostic | cause, machine⟩ | _, journal⟩
    · refine ⟨rfl, rfl, rfl, rfl, ?_, nofun, nofun⟩
      rintro _ _ ⟨⟩
      refine ⟨rfl, fun v hv => ?_⟩
      rcases List.mem_append.1 hv with hv | hv
      · exact .inl (Session.eq_of_mem_reportedValue (Option.mem_toList.1 hv))
      · exact .inr hv
    · refine ⟨rfl, rfl, rfl, rfl, nofun, ?_, nofun⟩
      rintro _ _ ⟨⟩
      exact ⟨rfl, rfl⟩
    · refine ⟨rfl, rfl, rfl, rfl, nofun, ?_, nofun⟩
      rintro _ _ ⟨⟩
      exact ⟨rfl, rfl⟩
    · exact ⟨rfl, rfl, rfl, rfl, nofun, nofun, fun _ _ => nofun⟩

/-- What a regime keeps from one source to the next: what is told of the record, and if the
run is reported, that record and machine are sound and that the values that were handed to
the host are known. -/
theorem Leaves.kept {R : Regime} {before after : Chronicle} {ending : RunEnd}
    {session : Session} {program : List Stmt} {fuel : Nat}
    (h : before.Leaves after ending session program
      (trackProgram session.interpreter.setting fuel program before.record.blank
        session.interpreter.machine))
    (hR : R.Ruled session.interpreter.setting before.history.handed)
    (hs : R.upkeep.Sound before.record.blank session.interpreter.machine)
    (ha : R.Admits before.record.blank session.interpreter.machine .top
      (.statements program)) :
    R.upkeep.Told after.record ∧
      ∀ report, ending = .reported report →
        R.upkeep.Sound after.record after.machine ∧
          ∀ value ∈ after.history.handed, R.Holds after.record after.machine value := by
  have hk := Regime.keeps_trackProgram hR fuel hs ha
  change R.upkeep.Ends _ _ _ (trackProgram _ _ _ _ _) at hk
  generalize trackProgram session.interpreter.setting fuel program before.record.blank
    session.interpreter.machine = result at h hk
  rcases result with ⟨⟨value, machine⟩ | ⟨failure, machine⟩ | _, record⟩
  · obtain ⟨hmachine, hhanded⟩ := h.done value machine rfl
    obtain ⟨hsound, -, hvalue⟩ := hk
    rw [h.record, hmachine]
    refine ⟨hR.lawful.told hsound, fun _ _ => ⟨hsound, fun v hv => ?_⟩⟩
    rcases hhanded v hv with rfl | hv
    · exact hvalue
    · exact hR.handed hsound hv
  · obtain ⟨hmachine, hhanded⟩ := h.failed failure machine rfl
    obtain ⟨hsound, -⟩ := hk
    rw [h.record, hmachine, hhanded]
    exact ⟨hR.lawful.told hsound, fun _ _ => ⟨hsound, fun v hv => hR.handed hsound hv⟩⟩
  · rw [h.record]
    exact ⟨hk, fun report hr => absurd hr (h.outOfFuel rfl report)⟩

end Chronicle

end TreeScript
