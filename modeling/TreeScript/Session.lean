import TreeScript.Evaluation
import TreeScript.Parsing.Grammar
import TreeScript.Resolution
import TreeScript.Segment

/-!
# Sessions

A session runs one source text after the other.  Globals, host functions and
printed text stay from one run to the next; a source with static faults is not
executed at all.

* `Interpreter` — the state that outlives a run
* `Report` — what a run tells its caller
* `Session` — an interpreter with a lexicon and a supply of reference identities
* `Session.run` — scan, parse, resolve and execute one source
-/

namespace TreeScript

/-! ## Interpreters -/

/-- What outlives a run: what is fixed while one program runs, and what programs
change. -/
structure Interpreter where
  setting : Setting
  machine : Machine

namespace Interpreter

/-- Makes a host function known under its name, in place of any global of that
name. -/
def register (interpreter : Interpreter) (native : Native) : Interpreter :=
  let setting := interpreter.setting
  let machine := interpreter.machine
  let ref : NativeRef :=
    { identity := setting.natives.size, name := native.name, arity := native.arity }
  { setting := { setting with natives := setting.natives.push native }
    machine := { machine with
      scopes := machine.scopes.define globalScope native.name (some (.native ref)) } }

/-- A fresh interpreter that prints to `sink` and whose clock stands at `now`. -/
def create (sink : Sink) (now : Float) : Interpreter :=
  let empty : Interpreter :=
    { setting := { distances := ∅, natives := #[], dynamicArity := 0 }
      machine :=
        { scopes := (Scopes.create #[] none).2, fields := #[], identities := 0, sink } }
  empty.register (Native.clock now)

/-- Notes the distance of a reference, in place of any earlier one. -/
def note (interpreter : Interpreter) (id : ReferenceId) (distance : Nat) : Interpreter :=
  let setting := interpreter.setting
  { interpreter with
    setting := { setting with distances := setting.distances.insert id distance } }

/-- Notes distances in order. -/
def noteAll (interpreter : Interpreter) (distances : List (ReferenceId × Nat)) :
    Interpreter :=
  distances.foldl (fun i (id, distance) => i.note id distance) interpreter

/-- Sets how many arguments the host functions of dynamic arity take. -/
def setDynamicArity (interpreter : Interpreter) (count : Nat) : Interpreter :=
  { interpreter with setting := { interpreter.setting with dynamicArity := count } }

/-- Executes a program. -/
def run (interpreter : Interpreter) (fuel : Nat) (statements : List Stmt) :
    Outcome Value :=
  runProgram interpreter.setting fuel statements interpreter.machine

/-- How a trace of statements ends. -/
inductive TraceEnd where
  | finished
  | failed (failure : Failure)
  | outOfFuel

/-- Executes statements among the globals up to the first that fails, whatever flow
they end with. -/
def trace (setting : Setting) (fuel : Nat) (machine : Machine) :
    List Stmt → List Flow × TraceEnd × Machine
  | [] => ([], .finished, machine)
  | first :: rest =>
    match execute setting fuel globalScope first machine with
    | .done flow machine =>
      let (flows, ending, machine) := trace setting fuel machine rest
      (flow :: flows, ending, machine)
    | .failed failure machine => ([], .failed failure, machine)
    | .outOfFuel => ([], .outOfFuel, machine)

/-- The names of the fields of an instance, in order. -/
def fieldNames (machine : Machine) (address : InstanceRef) : List String :=
  ((machine.fields[address]?).map (fun fields => fields.keys)).getD []

end Interpreter

/-! ## Reports -/

/-- What a run tells its caller: the value of the last statement if that was an
expression and the program ran to its end, and what went wrong otherwise. -/
structure Report where
  value : Option Value
  diagnostics : List Diagnostic

namespace Report

/-- The report of a run that something stopped. -/
def failure (diagnostics : List Diagnostic) : Report :=
  { value := none, diagnostics }

/-- Whether nothing went wrong. -/
def isOk (report : Report) : Bool :=
  report.diagnostics.isEmpty

/-- Whether the program was rejected before it ran. -/
def hadStaticError (report : Report) : Bool :=
  report.diagnostics.any Diagnostic.isStatic

/-- Whether a fault of the program stopped it. -/
def hadRuntimeError (report : Report) : Bool :=
  report.diagnostics.any Diagnostic.isRuntime

/-- The exit status of a process that ran one program: 65 if it was rejected, 70 if
it was stopped, a failing print target included, and 0 otherwise. -/
def exitCode (report : Report) : Nat :=
  if report.hadStaticError then 65 else if report.isOk then 0 else 70

end Report

/-! ## Sessions -/

/-- An interpreter together with a lexicon and the first reference identity that is
still free. -/
structure Session where
  lexicon : Lexicon
  interpreter : Interpreter
  nextId : ReferenceId

/-- How a run ends.  Broken scopes end the session with it. -/
inductive RunEnd where
  | reported (report : Report)
  | broken (cause : BrokenScope)
  | outOfFuel

namespace Session

/-- A fresh session. -/
def create (lexicon : Lexicon) (sink : Sink) (now : Float) : Session :=
  { lexicon, interpreter := Interpreter.create sink now, nextId := 0 }

/-- Registers a host function. -/
def register (session : Session) (native : Native) : Session :=
  { session with interpreter := session.interpreter.register native }

/-- Sets how many arguments the host functions of dynamic arity take. -/
def setDynamicArity (session : Session) (count : Nat) : Session :=
  { session with interpreter := session.interpreter.setDynamicArity count }

/-- The text printed so far. -/
def printed (session : Session) : ByteArray :=
  session.interpreter.machine.sink.printed

/-- The program of a source text, with the faults of its text and its grammar. -/
def read (lexicon : Lexicon) (source : String) (firstId : ReferenceId) : Program :=
  let found := scan lexicon source
  let program := Program.ofTokens (tokensOf found) firstId
  { program with diagnostics := diagnosticsOf found ++ program.diagnostics }

/-- The statements of a source that has no static fault, or its faults: those of
text and grammar, or if there are none those of scoping.  Identities stay used up
and distances stay noted also when the source is rejected. -/
def check (session : Session) (source : String) :
    Session × Except (List Diagnostic) (List Stmt) :=
  let program := read session.lexicon source session.nextId
  let session := { session with nextId := program.nextId }
  if program.diagnostics.isEmpty then
    let findings := resolveProgram program.statements
    let session :=
      { session with interpreter := session.interpreter.noteAll findings.distances }
    if findings.diagnostics.isEmpty then (session, .ok program.statements)
    else (session, .error findings.diagnostics)
  else (session, .error program.diagnostics)

/-- The value that a report gives of a program: that of its last statement, if this
is an expression. -/
def reportedValue (statements : List Stmt) (value : Value) : Option Value :=
  match statements.getLast? with
  | some (.expression _) => some value
  | _ => none

/-- Replaces what programs change. -/
def withMachine (session : Session) (machine : Machine) : Session :=
  { session with interpreter := { session.interpreter with machine } }

/-- Runs one source.  Nothing is executed if there is a static fault. -/
def run (session : Session) (fuel : Nat) (source : String) : Session × RunEnd :=
  match session.check source with
  | (session, .error diagnostics) => (session, .reported (.failure diagnostics))
  | (session, .ok statements) =>
    match session.interpreter.run fuel statements with
    | .done value machine =>
      (session.withMachine machine,
        .reported { value := reportedValue statements value, diagnostics := [] })
    | .failed (.diagnosed diagnostic) machine =>
      (session.withMachine machine, .reported (.failure [diagnostic]))
    | .failed (.broken cause) machine => (session.withMachine machine, .broken cause)
    | .outOfFuel => (session, .outOfFuel)

end Session

end TreeScript
