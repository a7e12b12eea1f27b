import TreeScript.Tree
import TreeScript.Diagnostic
import Std.Data.TreeMap

/-!
# Resolution of names

Before a program runs, every reference to a local name is given its distance: how
many scopes lie between the reference and the scope that declares the name.  A
reference that no scope declares is left to the globals.

* `StaticScope` — the names that a scope declares so far
* `Findings` — distances and faults, in the order of the walk
* `Expr.resolve`, `FunctionDecl.resolve`, `Stmt.resolve` — the walk
* `resolveProgram` — the findings of a whole program

An expression leaves the scopes as they are; a statement may declare names in the
innermost one.  At top level there is no scope, so nothing is declared.
-/

namespace TreeScript

/-! ## Scopes -/

/-- The names that a scope declares so far.  A name maps to `false` while its own
initializer is being resolved. -/
abbrev StaticScope := Std.TreeMap String Bool

namespace StaticScope

/-- Declares a name in the innermost scope, if there is one. -/
def declare (scopes : List StaticScope) (name : String) (initialized : Bool) :
    List StaticScope :=
  match scopes with
  | [] => []
  | innermost :: outer => innermost.insert name initialized :: outer

/-- How many scopes lie between a reference and the innermost scope that declares
the name. -/
def distance? (scopes : List StaticScope) (name : String) : Option Nat :=
  scopes.findIdx? (fun scope => scope.contains name)

/-- Whether a name of the innermost scope is read inside its own initializer. -/
def inOwnInitializer (scopes : List StaticScope) (name : String) : Bool :=
  match scopes with
  | [] => false
  | innermost :: _ => innermost[name]? == some false

/-- The scope of a function body before its first statement. -/
def ofParameters (parameters : List Token) : StaticScope :=
  parameters.foldl (fun scope parameter => scope.insert parameter.lexeme true) ∅

/-- The scope around the methods of a class. -/
def ofClass : StaticScope :=
  (∅ : StaticScope).insert "this" true

end StaticScope

/-! ## Findings -/

/-- What the walk finds: the distances of references, and faults. -/
structure Findings where
  distances : List (ReferenceId × Nat)
  diagnostics : List Diagnostic

namespace Findings

/-- Nothing found. -/
def none : Findings :=
  { distances := [], diagnostics := [] }

/-- One fault at a token. -/
def fault (token : Token) (fault : ScopeFault) : Findings :=
  { distances := [], diagnostics := [Diagnostic.scopeAt token fault] }

/-- The distance of a reference to a name, unless it is left to the globals. -/
def ofReference (scopes : List StaticScope) (id : ReferenceId) (name : Token) : Findings :=
  match StaticScope.distance? scopes name.lexeme with
  | some distance => { distances := [(id, distance)], diagnostics := [] }
  | Option.none => none

instance : Append Findings where
  append first second :=
    { distances := first.distances ++ second.distances
      diagnostics := first.diagnostics ++ second.diagnostics }

/-- A fault at a token if a condition holds. -/
def faultIf (condition : Bool) (token : Token) (cause : ScopeFault) : Findings :=
  if condition then fault token cause else none

end Findings

/-! ## The walk -/

/-- What kind of bodies surround a node. -/
structure Surroundings where
  inFunction : Bool
  inClass : Bool

mutual

/-- Resolves an expression. -/
def Expr.resolve (around : Surroundings) (scopes : List StaticScope) : Expr → Findings
  | .constant _ => .none
  | .grouping inner => inner.resolve around scopes
  | .unary _ operand => operand.resolve around scopes
  | .binary left _ right => left.resolve around scopes ++ right.resolve around scopes
  | .logical left _ right => left.resolve around scopes ++ right.resolve around scopes
  | .ternary condition _ whenTrue whenFalse =>
    condition.resolve around scopes ++ whenTrue.resolve around scopes ++
      whenFalse.resolve around scopes
  | .variable id name =>
    .faultIf (StaticScope.inOwnInitializer scopes name.lexeme) name .ownInitializer ++
      .ofReference scopes id name
  | .assign id name value => value.resolve around scopes ++ .ofReference scopes id name
  | .call callee _ arguments =>
    callee.resolve around scopes ++ Expr.resolveAll around scopes arguments
  | .get object _ => object.resolve around scopes
  | .set object _ value => object.resolve around scopes ++ value.resolve around scopes
  | .self id keyword =>
    if around.inClass then .ofReference scopes id keyword
    else .fault keyword .thisOutsideClass
  | .function declaration => declaration.resolve around scopes

/-- Resolves expressions from left to right. -/
def Expr.resolveAll (around : Surroundings) (scopes : List StaticScope) :
    List Expr → Findings
  | [] => .none
  | first :: rest => first.resolve around scopes ++ Expr.resolveAll around scopes rest

/-- Resolves the body of a function in a scope that holds its parameters. -/
def FunctionDecl.resolve (around : Surroundings) (scopes : List StaticScope) :
    FunctionDecl → Findings
  | { name := _, parameters, body } =>
    (Stmt.resolveAll { around with inFunction := true }
      (StaticScope.ofParameters parameters :: scopes) body).2

/-- Resolves functions one after the other. -/
def FunctionDecl.resolveAll (around : Surroundings) (scopes : List StaticScope) :
    List FunctionDecl → Findings
  | [] => .none
  | first :: rest =>
    first.resolve around scopes ++ FunctionDecl.resolveAll around scopes rest

/-- Resolves a statement; also gives the scopes with the names that it declares.  A
branch or a loop body without braces declares in the scope around it. -/
def Stmt.resolve (around : Surroundings) (scopes : List StaticScope) :
    Stmt → List StaticScope × Findings
  | .expression value => (scopes, value.resolve around scopes)
  | .print value => (scopes, value.resolve around scopes)
  | .varDecl name none => (StaticScope.declare scopes name.lexeme true, .none)
  | .varDecl name (some value) =>
    (StaticScope.declare scopes name.lexeme true,
      value.resolve around (StaticScope.declare scopes name.lexeme false))
  | .block body => (scopes, (Stmt.resolveAll around (∅ :: scopes) body).2)
  | .conditional condition whenTrue none =>
    let (after, found) := whenTrue.resolve around scopes
    (after, condition.resolve around scopes ++ found)
  | .conditional condition whenTrue (some whenFalse) =>
    let (between, found) := whenTrue.resolve around scopes
    let (after, foundElse) := whenFalse.resolve around between
    (after, condition.resolve around scopes ++ found ++ foundElse)
  | .loop condition body =>
    let (after, found) := body.resolve around scopes
    (after, condition.resolve around scopes ++ found)
  | .leave _ => (scopes, .none)
  | .function declaration =>
    let after :=
      match declaration.name with
      | some name => StaticScope.declare scopes name.lexeme true
      | none => scopes
    (after, declaration.resolve around after)
  | .giveBack keyword none =>
    (scopes, .faultIf (!around.inFunction) keyword .returnOutsideFunction)
  | .giveBack keyword (some value) =>
    (scopes,
      .faultIf (!around.inFunction) keyword .returnOutsideFunction ++
        value.resolve around scopes)
  | .classDecl name methods =>
    let after := StaticScope.declare scopes name.lexeme true
    (after,
      FunctionDecl.resolveAll { around with inClass := true }
        (StaticScope.ofClass :: after) methods)

/-- Resolves statements one after the other, each in the scopes that the ones before
leave. -/
def Stmt.resolveAll (around : Surroundings) (scopes : List StaticScope) :
    List Stmt → List StaticScope × Findings
  | [] => (scopes, .none)
  | first :: rest =>
    let (between, found) := first.resolve around scopes
    let (after, foundRest) := Stmt.resolveAll around between rest
    (after, found ++ foundRest)

end

/-- The findings of a program. -/
def resolveProgram (statements : List Stmt) : Findings :=
  (Stmt.resolveAll { inFunction := false, inClass := false } [] statements).2

end TreeScript
