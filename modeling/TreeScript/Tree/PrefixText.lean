import TreeScript.Tree

/-!
# Trees in prefix form

* `Expr.prefixText`, `Stmt.prefixText` — a tree as text, each node in parentheses
  with its operator first
-/

namespace TreeScript

/-- The text of a constant in a tree. -/
def Constant.text : Constant → String
  | .nil => "nil"
  | .bool value => if value then "true" else "false"
  | .number value => Number.text value
  | .string value => value

mutual

/-- The prefix form of an expression. -/
def Expr.prefixText : Expr → String
  | .constant value => value.text
  | .grouping inner => "(group " ++ inner.prefixText ++ ")"
  | .unary operator operand => "(" ++ operator.lexeme ++ " " ++ operand.prefixText ++ ")"
  | .binary left operator right =>
    "(" ++ operator.lexeme ++ " " ++ left.prefixText ++ " " ++ right.prefixText ++ ")"
  | .logical left operator right =>
    "(" ++ operator.lexeme ++ " " ++ left.prefixText ++ " " ++ right.prefixText ++ ")"
  | .ternary condition _ whenTrue whenFalse =>
    "(?: " ++ condition.prefixText ++ " " ++ whenTrue.prefixText ++ " " ++
      whenFalse.prefixText ++ ")"
  | .variable _ name => "(var " ++ name.lexeme ++ ")"
  | .assign _ name value => "(assign " ++ name.lexeme ++ " " ++ value.prefixText ++ ")"
  | .call callee _ arguments =>
    "(call " ++ callee.prefixText ++ Expr.spacedText arguments ++ ")"
  | .get object name => "(get " ++ object.prefixText ++ " " ++ name.lexeme ++ ")"
  | .set object name value =>
    "(set " ++ object.prefixText ++ " " ++ name.lexeme ++ " " ++ value.prefixText ++ ")"
  | .self _ _ => "this"
  | .function declaration => declaration.prefixText

/-- The prefix forms of expressions, a space before each. -/
def Expr.spacedText : List Expr → String
  | [] => ""
  | first :: rest => " " ++ first.prefixText ++ Expr.spacedText rest

/-- The prefix form of a function. -/
def FunctionDecl.prefixText : FunctionDecl → String
  | { name, parameters, body } =>
    "(fun " ++ shownName name ++ " (" ++
      ", ".intercalate (parameters.map Token.lexeme) ++ ") (block" ++
      Stmt.spacedText body ++ "))"

/-- The prefix forms of functions, a space before each. -/
def FunctionDecl.spacedText : List FunctionDecl → String
  | [] => ""
  | first :: rest => " " ++ first.prefixText ++ FunctionDecl.spacedText rest

/-- The prefix form of a statement. -/
def Stmt.prefixText : Stmt → String
  | .expression value => value.prefixText
  | .print value => "(print " ++ value.prefixText ++ ")"
  | .varDecl name none => "(decl " ++ name.lexeme ++ ")"
  | .varDecl name (some value) =>
    "(decl " ++ name.lexeme ++ " " ++ value.prefixText ++ ")"
  | .block body => "(block" ++ Stmt.spacedText body ++ ")"
  | .conditional condition whenTrue none =>
    "(if " ++ condition.prefixText ++ " " ++ whenTrue.prefixText ++ ")"
  | .conditional condition whenTrue (some whenFalse) =>
    "(if " ++ condition.prefixText ++ " " ++ whenTrue.prefixText ++ " " ++
      whenFalse.prefixText ++ ")"
  | .loop condition body =>
    "(while " ++ condition.prefixText ++ " " ++ body.prefixText ++ ")"
  | .leave _ => "(break)"
  | .function declaration => declaration.prefixText
  | .giveBack _ none => "(return)"
  | .giveBack _ (some value) => "(return " ++ value.prefixText ++ ")"
  | .classDecl name methods =>
    "(class " ++ name.lexeme ++ FunctionDecl.spacedText methods ++ ")"

/-- The prefix forms of statements, a space before each. -/
def Stmt.spacedText : List Stmt → String
  | [] => ""
  | first :: rest => " " ++ first.prefixText ++ Stmt.spacedText rest

end

end TreeScript
