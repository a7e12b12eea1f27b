import TreeScript.Token

/-!
# Program trees

* `Expr`, `Stmt`, `FunctionDecl` — the tree of a program
* `ReferenceId` — the identity of an expression that refers to a name
* `Stmt.forLoop` — a counting loop as the `while` loop that it abbreviates

Every expression that refers to a name carries a `ReferenceId` of its own, so that
two references of the same shape in different places stay apart.
-/

namespace TreeScript

/-- The identity of an expression that refers to a name. -/
abbrev ReferenceId := Nat

/-- A constant that stands in the source. -/
inductive Constant where
  | nil
  | bool (value : Bool)
  | number (value : Float)
  | string (value : String)
  deriving Repr

/-- The constant of a token payload; a token without payload stands for `nil`. -/
def Constant.ofLiteral : Option Literal → Constant
  | some (.number value) => .number value
  | some (.string value) => .string value
  | none => .nil

mutual

/-- An expression. -/
inductive Expr where
  | constant (value : Constant)
  | grouping (inner : Expr)
  | unary (operator : Token) (operand : Expr)
  | binary (left : Expr) (operator : Token) (right : Expr)
  | logical (left : Expr) (operator : Token) (right : Expr)
  | ternary (condition : Expr) (question : Token) (whenTrue whenFalse : Expr)
  | variable (id : ReferenceId) (name : Token)
  | assign (id : ReferenceId) (name : Token) (value : Expr)
  | call (callee : Expr) (paren : Token) (arguments : List Expr)
  | get (object : Expr) (name : Token)
  | set (object : Expr) (name : Token) (value : Expr)
  | self (id : ReferenceId) (keyword : Token)
  | function (declaration : FunctionDecl)

/-- The parameters and the body that all kinds of functions share.  A function
written inline has no name. -/
structure FunctionDecl where
  name : Option Token
  parameters : List Token
  body : List Stmt

/-- A statement. -/
inductive Stmt where
  | expression (value : Expr)
  | print (value : Expr)
  | varDecl (name : Token) (initializer : Option Expr)
  | block (body : List Stmt)
  | conditional (condition : Expr) (whenTrue : Stmt) (whenFalse : Option Stmt)
  | loop (condition : Expr) (body : Stmt)
  | leave (keyword : Token)
  | function (declaration : FunctionDecl)
  | giveBack (keyword : Token) (value : Option Expr)
  | classDecl (name : Token) (methods : List FunctionDecl)

end

/-- The name under which a function of the given name, or of none, is shown. -/
def shownName : Option Token → String
  | some name => name.lexeme
  | none => "(anonymous)"

/-- The name under which a function is shown and bound. -/
def FunctionDecl.displayName (declaration : FunctionDecl) : String :=
  shownName declaration.name

/-- A counting loop: the initializer in a scope of its own, then a loop whose body
and increment share a fresh scope in every round.  A missing condition is true. -/
def Stmt.forLoop (initializer : Option Stmt) (condition increment : Option Expr)
    (body : Stmt) : Stmt :=
  let round := .block (body :: (increment.map Stmt.expression).toList)
  .block (initializer.toList ++
    [.loop (condition.getD (.constant (.bool true))) round])

end TreeScript
