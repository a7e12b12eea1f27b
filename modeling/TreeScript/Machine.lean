import TreeScript.Native
import TreeScript.Scope
import TreeScript.Sink

/-!
# The state of a running program

* `Machine` — scopes, fields of instances, identities given out, print target
* `Setting` — what stays fixed while a program runs
* `Run` — a step that finishes, fails, or runs out of fuel
* the primitive steps on scopes, objects and the print target

A step that fails hands the machine on as it stands, so that what was printed and
assigned before is not lost.
-/

namespace TreeScript

/-- The fields of one instance. -/
abbrev Fields := Std.TreeMap String Value

/-- What a running program changes. -/
structure Machine where
  scopes : Scopes
  fields : Array Fields
  identities : Nat
  sink : Sink

/-- What stays fixed while a program runs: the distances of references, the host
functions, and how many arguments those of dynamic arity take. -/
structure Setting where
  distances : Std.TreeMap ReferenceId Nat
  natives : Array Native
  dynamicArity : Nat

/-- How a step of a running program ends. -/
inductive Outcome (α : Type) where
  | done (value : α) (machine : Machine)
  | failed (failure : Failure) (machine : Machine)
  | outOfFuel

/-- A step of a running program. -/
def Run (α : Type) := Machine → Outcome α

/-- The address of the global scope, the first one that is made. -/
def globalScope : ScopeRef := 0

namespace Run

/-! ## Sequencing -/

/-- The step that changes nothing. -/
@[always_inline, inline]
protected def pure {α : Type} (value : α) : Run α :=
  fun machine => .done value machine

/-- One step and then another, which a failure leaves out. -/
@[always_inline, inline]
protected def bind {α β : Type} (first : Run α) (next : α → Run β) : Run β :=
  fun machine =>
    match first machine with
    | .done value machine => next value machine
    | .failed failure machine => .failed failure machine
    | .outOfFuel => .outOfFuel

@[always_inline]
instance : Monad Run where
  pure := Run.pure
  bind := Run.bind

/-- The step that has no fuel left. -/
def stuck {α : Type} : Run α :=
  fun _ => .outOfFuel

/-- The step that fails. -/
def fail {α : Type} (failure : Failure) : Run α :=
  fun machine => .failed failure machine

/-- A fault of the program at a token. -/
def fault {α : Type} (token : Token) (cause : RunFault) : Run α :=
  fail (.at token cause)

/-- Runs a step and makes a diagnostic that stops it part of its result.  Broken
scopes are not caught. -/
def attempt {α : Type} (step : Run α) : Run (Except Diagnostic α) :=
  fun machine =>
    match step machine with
    | .done value machine => .done (.ok value) machine
    | .failed (.diagnosed diagnostic) machine => .done (.error diagnostic) machine
    | .failed (.broken cause) machine => .failed (.broken cause) machine
    | .outOfFuel => .outOfFuel

/-! ## Scopes -/

/-- A new scope inside another. -/
def newScope (enclosing : ScopeRef) : Run ScopeRef :=
  fun { scopes, fields, identities, sink } =>
    let (scope, scopes) := scopes.create (some enclosing)
    .done scope { scopes, fields, identities, sink }

/-- Binds a name in a scope. -/
def define (scope : ScopeRef) (name : String) (value : Option Value) : Run Unit :=
  fun machine => .done () { machine with scopes := machine.scopes.define scope name value }

/-- The scope that holds a name: the one at its distance if it has a distance, or
else the global one. -/
def holder (distance? : Option Nat) (scope : ScopeRef) (name : Token) : Run ScopeRef :=
  fun machine =>
    let found :=
      match distance? with
      | some distance => machine.scopes.holderAt scope distance name
      | none => machine.scopes.holder globalScope name
    match found with
    | .ok holder => .done holder machine
    | .error failure => .failed failure machine

/-- Reads a name. -/
def readName (distance? : Option Nat) (scope : ScopeRef) (name : Token) : Run Value := do
  let found ← holder distance? scope name
  fun machine =>
    match machine.scopes.read found name with
    | .ok value => .done value machine
    | .error failure => .failed failure machine

/-- Overwrites a name. -/
def writeName (distance? : Option Nat) (scope : ScopeRef) (name : Token) (value : Value) :
    Run Unit := do
  define (← holder distance? scope name) name.lexeme (some value)

/-! ## Objects -/

/-- A number that no object has yet. -/
def newIdentity : Run Nat :=
  fun machine =>
    .done machine.identities { machine with identities := machine.identities + 1 }

/-- A function made in a scope. -/
def newClosure (scope : ScopeRef) (declaration : FunctionDecl) : Run Value := do
  return .function { identity := ← newIdentity, declaration, scope }

/-- A class made in a scope.  Of two methods of one name the later one counts. -/
def newClass (scope : ScopeRef) (name : String) (methods : List FunctionDecl) :
    Run Value := do
  let table := methods.foldl
    (fun (table : Std.TreeMap String FunctionDecl) method =>
      table.insert method.displayName method) ∅
  return .classObject { identity := ← newIdentity, name, methods := table, scope }

/-- A new instance of a class, without fields. -/
def newObject (ofClass : ClassObject) : Run Value :=
  fun machine =>
    .done (.object machine.fields.size ofClass)
      { machine with fields := machine.fields.push ∅ }

/-- The value of a field, if the instance has it. -/
def field? (address : InstanceRef) (name : String) : Run (Option Value) :=
  fun machine => .done (machine.fields[address]?.bind (fun fields => fields[name]?)) machine

/-- Gives a field of an instance a value. -/
def setField (address : InstanceRef) (name : String) (value : Value) : Run Unit :=
  fun machine =>
    .done () { machine with
      fields := machine.fields.modify address (fun fields => fields.insert name value) }

/-- A method bound to an instance: its scope is a new one that holds `this`. -/
def bindMethod (address : InstanceRef) (ofClass : ClassObject)
    (declaration : FunctionDecl) : Run Value := do
  let scope ← newScope ofClass.scope
  define scope "this" (some (.object address ofClass))
  newClosure scope declaration

/-- The property of an instance: a field, or else a method bound to the instance. -/
def property (address : InstanceRef) (ofClass : ClassObject) (name : Token) :
    Run Value := do
  match ← field? address name.lexeme with
  | some value => return value
  | none =>
    match ofClass.methods[name.lexeme]? with
    | some declaration => bindMethod address ofClass declaration
    | none => fault name (.undefinedProperty name.lexeme)

/-! ## The print target -/

/-- Prints a line. -/
def print (text : String) : Run Unit :=
  fun { scopes, fields, identities, sink } =>
    match sink.write (text ++ "\n") with
    | (sink, none) => .done () { scopes, fields, identities, sink }
    | (sink, some cause) =>
      .failed (.diagnosed (.output cause)) { scopes, fields, identities, sink }

/-- Flushes the print target. -/
def flush : Run Unit :=
  fun machine =>
    match machine.sink.flush with
    | none => .done () machine
    | some cause => .failed (.diagnosed (.output cause)) machine

end Run

end TreeScript
