import TreeScript.Tree

/-!
# The references of a tree

* `Reference` — an expression that refers to a name
* `Expr.references`, `Stmt.references` — all of them, each node before its children
-/

namespace TreeScript

/-- How an expression refers to a name. -/
inductive ReferenceKind where
  | read
  | write
  | self
  deriving DecidableEq, Repr

/-- An expression that refers to a name. -/
structure Reference where
  kind : ReferenceKind
  name : Token
  id : ReferenceId
  deriving Repr

mutual

/-- The references of an expression, each node before its children. -/
def Expr.references : Expr → List Reference
  | .constant _ => []
  | .grouping inner => inner.references
  | .unary _ operand => operand.references
  | .binary left _ right => left.references ++ right.references
  | .logical left _ right => left.references ++ right.references
  | .ternary condition _ whenTrue whenFalse =>
    condition.references ++ whenTrue.references ++ whenFalse.references
  | .variable id name => [{ kind := .read, name, id }]
  | .assign id name value => { kind := .write, name, id } :: value.references
  | .call callee _ arguments => callee.references ++ Expr.referencesOfAll arguments
  | .get object _ => object.references
  | .set object _ value => object.references ++ value.references
  | .self id keyword => [{ kind := .self, name := keyword, id }]
  | .function declaration => declaration.references

/-- The references of a list of expressions. -/
def Expr.referencesOfAll : List Expr → List Reference
  | [] => []
  | first :: rest => first.references ++ Expr.referencesOfAll rest

/-- The references of the body of a function. -/
def FunctionDecl.references : FunctionDecl → List Reference
  | { name := _, parameters := _, body } => Stmt.referencesOfAll body

/-- The references of a list of functions. -/
def FunctionDecl.referencesOfAll : List FunctionDecl → List Reference
  | [] => []
  | first :: rest => first.references ++ FunctionDecl.referencesOfAll rest

/-- The references of a statement, each node before its children. -/
def Stmt.references : Stmt → List Reference
  | .expression value => value.references
  | .print value => value.references
  | .varDecl _ none => []
  | .varDecl _ (some value) => value.references
  | .block body => Stmt.referencesOfAll body
  | .conditional condition whenTrue none => condition.references ++ whenTrue.references
  | .conditional condition whenTrue (some whenFalse) =>
    condition.references ++ whenTrue.references ++ whenFalse.references
  | .loop condition body => condition.references ++ body.references
  | .leave _ => []
  | .function declaration => declaration.references
  | .giveBack _ none => []
  | .giveBack _ (some value) => value.references
  | .classDecl _ methods => FunctionDecl.referencesOfAll methods

/-- The references of a list of statements. -/
def Stmt.referencesOfAll : List Stmt → List Reference
  | [] => []
  | first :: rest => first.references ++ Stmt.referencesOfAll rest

end

end TreeScript
