import TreeScript.Tree.PrefixText

/-!
# Expressions in postfix form

* `Expr.postfixText` — an expression with each operator after its operands; what
  is not arithmetic keeps its prefix form
* `Stmt.postfixText?` — the same for an expression statement
-/

namespace TreeScript

/-- The postfix form of an expression.  Parentheses are not needed and left out. -/
def Expr.postfixText : Expr → String
  | .constant value => value.text
  | .grouping inner => inner.postfixText
  | .unary operator operand => operand.postfixText ++ " " ++ operator.lexeme
  | .binary left operator right =>
    left.postfixText ++ " " ++ right.postfixText ++ " " ++ operator.lexeme
  | .logical left operator right =>
    left.postfixText ++ " " ++ right.postfixText ++ " " ++ operator.lexeme
  | .variable _ name => name.lexeme
  | other => other.prefixText

/-- The postfix form of an expression statement; other statements have none. -/
def Stmt.postfixText? : Stmt → Option String
  | .expression value => some value.postfixText
  | _ => none

end TreeScript
