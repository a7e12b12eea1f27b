import TreeScript.Value
import TreeScript.Diagnostic

/-!
# Scopes

The scopes of a running program live side by side and link to the scope that
encloses them, so that closures can share them.  A link always leads to an older
scope.

* `Scope` — names with their values, and the enclosing scope
* `Scopes` — all scopes, addressed in the order of creation
* `Scopes.holder`, `Scopes.holderAt` — which scope holds a name: the nearest one on
  the chain, or the one at a given distance
* `Scopes.get`, `Scopes.assign`, `Scopes.getAt`, `Scopes.assignAt` — access to it
* `BrokenScope`, `Failure` — why an access can fail
-/

namespace TreeScript

/-! ## Failures -/

/-- A distance that does not fit the scopes.  No fault of the program, but of the
distances it was given. -/
inductive BrokenScope where
  | undeclared (name : String) (distance : Nat)
  | chainEnded (hops distance : Nat)
  deriving DecidableEq, Repr

/-- The wording of a distance that does not fit. -/
def BrokenScope.message : BrokenScope → String
  | undeclared name distance =>
    "resolved '" ++ name ++ "' at distance " ++ toString distance ++
      " but the scope does not declare it"
  | chainEnded hops distance =>
    "scope chain ended after " ++ toString hops ++ " of " ++ toString distance ++ " hops"

/-- Why a running program stops early. -/
inductive Failure where
  | diagnosed (diagnostic : Diagnostic)
  | broken (cause : BrokenScope)
  deriving DecidableEq, Repr

/-- A fault of the running program at a token. -/
def Failure.at (token : Token) (fault : RunFault) : Failure :=
  .diagnosed (.run fault token.line)

/-! ## Scopes -/

/-- A scope.  A name without value is declared but not initialized, which is not
the same as a name that is absent. -/
structure Scope where
  bindings : Std.TreeMap String (Option Value)
  enclosing : Option ScopeRef

/-- All scopes, addressed in the order of creation. -/
abbrev Scopes := Array Scope

namespace Scopes

/-- Adds an empty scope and gives its address. -/
def create (scopes : Scopes) (enclosing : Option ScopeRef) : ScopeRef × Scopes :=
  (scopes.size, scopes.push { bindings := ∅, enclosing })

/-- Binds a name in a scope, in place of any earlier binding there. -/
def define (scopes : Scopes) (scope : ScopeRef) (name : String) (value : Option Value) :
    Scopes :=
  scopes.modify scope (fun s => { s with bindings := s.bindings.insert name value })

/-- The binding of a name in one scope. -/
def binding? (scopes : Scopes) (scope : ScopeRef) (name : String) : Option (Option Value) :=
  scopes[scope]?.bind (fun s => s.bindings[name]?)

/-- The scope that encloses a scope. -/
def enclosing? (scopes : Scopes) (scope : ScopeRef) : Option ScopeRef :=
  scopes[scope]?.bind Scope.enclosing

/-! ## Access along the chain -/

/-- The nearest scope that declares a name, among the first `count` of the chain
that starts at a scope. -/
def holderWithin (scopes : Scopes) (name : String) :
    (count : Nat) → (scope : ScopeRef) → Option ScopeRef
  | 0, _ => none
  | count + 1, scope =>
    if (scopes.binding? scope name).isSome then some scope
    else (scopes.enclosing? scope).bind (holderWithin scopes name count)

/-- The nearest scope that declares a name, from a scope on outward.  Links lead to
older scopes, so a chain is no longer than its first address allows. -/
def holder? (scopes : Scopes) (scope : ScopeRef) (name : String) : Option ScopeRef :=
  holderWithin scopes name (scope + 1) scope

/-- The scope that holds a name, from a scope on outward. -/
def holder (scopes : Scopes) (scope : ScopeRef) (name : Token) : Except Failure ScopeRef :=
  match scopes.holder? scope name.lexeme with
  | some found => .ok found
  | none => .error (.at name (.undefinedVariable name.lexeme))

/-! ## Access at a distance -/

/-- The scope `left` hops up, where the whole way has `distance` hops. -/
def hop (scopes : Scopes) (distance : Nat) :
    (left : Nat) → (scope : ScopeRef) → Except Failure ScopeRef
  | 0, scope => .ok scope
  | left + 1, scope =>
    match scopes.enclosing? scope with
    | some outer => hop scopes distance left outer
    | none => .error (.broken (.chainEnded (distance - (left + 1)) distance))

/-- The scope at a distance. -/
def ancestor (scopes : Scopes) (scope : ScopeRef) (distance : Nat) :
    Except Failure ScopeRef :=
  scopes.hop distance distance scope

/-- The scope at a distance, which must hold the name. -/
def holderAt (scopes : Scopes) (scope : ScopeRef) (distance : Nat) (name : Token) :
    Except Failure ScopeRef := do
  let found ← scopes.ancestor scope distance
  if (scopes.binding? found name.lexeme).isSome then .ok found
  else .error (.broken (.undeclared name.lexeme distance))

/-! ## Reading and writing -/

/-- The value that a scope holds for a name, unless the name is not initialized. -/
def read (scopes : Scopes) (holder : ScopeRef) (name : Token) : Except Failure Value :=
  match scopes.binding? holder name.lexeme with
  | some (some value) => .ok value
  | _ => .error (.at name (.uninitializedVariable name.lexeme))

/-- The value of a name, from a scope on outward. -/
def get (scopes : Scopes) (scope : ScopeRef) (name : Token) : Except Failure Value := do
  scopes.read (← scopes.holder scope name) name

/-- The value of a name in the scope at a distance. -/
def getAt (scopes : Scopes) (scope : ScopeRef) (distance : Nat) (name : Token) :
    Except Failure Value := do
  scopes.read (← scopes.holderAt scope distance name) name

/-- Overwrites the nearest binding of a name.  Never declares. -/
def assign (scopes : Scopes) (scope : ScopeRef) (name : Token) (value : Value) :
    Except Failure Scopes := do
  return scopes.define (← scopes.holder scope name) name.lexeme (some value)

/-- Overwrites the binding of a name in the scope at a distance. -/
def assignAt (scopes : Scopes) (scope : ScopeRef) (distance : Nat) (name : Token)
    (value : Value) : Except Failure Scopes := do
  return scopes.define (← scopes.holderAt scope distance name) name.lexeme (some value)

end Scopes

end TreeScript
