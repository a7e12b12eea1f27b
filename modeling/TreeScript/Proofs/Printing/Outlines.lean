import TreeScript.Tree.PostfixText

/-!
# What the text of a tree shows

* `Expr.outline`, `FunctionDecl.outline`, `Stmt.outline` — a tree without its identities, its
  lines and the tokens that are not printed, and with the texts of its numbers
* `Expr.ungrouped` — an expression without its parentheses
* `Stmt.prefixText_outline` — the prefix text shows no more than the outline
* `Expr.postfixText_ungrouped` — the postfix text does not show parentheses
-/

namespace TreeScript

/-! ## Outlines -/

/-- A token without its line. -/
def Token.outline (token : Token) : Token :=
  { token with line := 0 }

/-- What stands for every token that is not printed. -/
def Token.unprinted : Token :=
  Token.finish 0

/-- A number is shown by its text alone, as a string of that text would be. -/
def Constant.outline : Constant → Constant
  | .number value => .string (Number.text value)
  | other => other

mutual

/-- What the text of an expression shows of it. -/
def Expr.outline : Expr → Expr
  | .constant value => .constant value.outline
  | .grouping inner => .grouping inner.outline
  | .unary operator operand => .unary operator.outline operand.outline
  | .binary left operator right => .binary left.outline operator.outline right.outline
  | .logical left operator right => .logical left.outline operator.outline right.outline
  | .ternary condition _ whenTrue whenFalse =>
    .ternary condition.outline .unprinted whenTrue.outline whenFalse.outline
  | .variable _ name => .variable 0 name.outline
  | .assign _ name value => .assign 0 name.outline value.outline
  | .call callee _ arguments => .call callee.outline .unprinted (Expr.outlines arguments)
  | .get object name => .get object.outline name.outline
  | .set object name value => .set object.outline name.outline value.outline
  | .self _ _ => .self 0 .unprinted
  | .function declaration => .function declaration.outline

/-- What the texts of expressions show of them. -/
def Expr.outlines : List Expr → List Expr
  | [] => []
  | first :: rest => first.outline :: Expr.outlines rest

/-- What the text of a function shows of it. -/
def FunctionDecl.outline : FunctionDecl → FunctionDecl
  | { name, parameters, body } =>
    { name := name.map Token.outline
      parameters := parameters.map Token.outline
      body := Stmt.outlines body }

/-- What the texts of functions show of them. -/
def FunctionDecl.outlines : List FunctionDecl → List FunctionDecl
  | [] => []
  | first :: rest => first.outline :: FunctionDecl.outlines rest

/-- What the text of a statement shows of it. -/
def Stmt.outline : Stmt → Stmt
  | .expression value => .expression value.outline
  | .print value => .print value.outline
  | .varDecl name none => .varDecl name.outline none
  | .varDecl name (some value) => .varDecl name.outline (some value.outline)
  | .block body => .block (Stmt.outlines body)
  | .conditional condition whenTrue none =>
    .conditional condition.outline whenTrue.outline none
  | .conditional condition whenTrue (some whenFalse) =>
    .conditional condition.outline whenTrue.outline (some whenFalse.outline)
  | .loop condition body => .loop condition.outline body.outline
  | .leave _ => .leave .unprinted
  | .function declaration => .function declaration.outline
  | .giveBack _ none => .giveBack .unprinted none
  | .giveBack _ (some value) => .giveBack .unprinted (some value.outline)
  | .classDecl name methods => .classDecl name.outline (FunctionDecl.outlines methods)

/-- What the texts of statements show of them. -/
def Stmt.outlines : List Stmt → List Stmt
  | [] => []
  | first :: rest => first.outline :: Stmt.outlines rest

end

/-! ## Nothing else is printed -/

@[simp] theorem Token.lexeme_outline (token : Token) : token.outline.lexeme = token.lexeme :=
  rfl

theorem Constant.text_outline (value : Constant) : value.outline.text = value.text := by
  cases value <;> rfl

theorem shownName_outline (name : Option Token) :
    shownName (name.map Token.outline) = shownName name := by
  cases name <;> rfl

theorem lexemes_outline (tokens : List Token) :
    (tokens.map Token.outline).map Token.lexeme = tokens.map Token.lexeme := by
  rw [List.map_map]
  rfl

mutual

theorem Expr.prefixText_outline : ∀ e : Expr, e.outline.prefixText = e.prefixText
  | .constant value => by simp only [Expr.outline, Expr.prefixText, value.text_outline]
  | .grouping inner => by simp only [Expr.outline, Expr.prefixText, inner.prefixText_outline]
  | .unary _ operand => by
    simp only [Expr.outline, Expr.prefixText, Token.lexeme_outline, operand.prefixText_outline]
  | .binary left _ right | .logical left _ right => by
    simp only [Expr.outline, Expr.prefixText, Token.lexeme_outline, left.prefixText_outline,
      right.prefixText_outline]
  | .ternary condition _ whenTrue whenFalse => by
    simp only [Expr.outline, Expr.prefixText, condition.prefixText_outline,
      whenTrue.prefixText_outline, whenFalse.prefixText_outline]
  | .variable _ _ => rfl
  | .assign _ _ value => by
    simp only [Expr.outline, Expr.prefixText, Token.lexeme_outline, value.prefixText_outline]
  | .call callee _ arguments => by
    simp only [Expr.outline, Expr.prefixText, callee.prefixText_outline,
      Expr.spacedText_outlines arguments]
  | .get object _ => by
    simp only [Expr.outline, Expr.prefixText, Token.lexeme_outline, object.prefixText_outline]
  | .set object _ value => by
    simp only [Expr.outline, Expr.prefixText, Token.lexeme_outline, object.prefixText_outline,
      value.prefixText_outline]
  | .self _ _ => rfl
  | .function declaration => by
    simp only [Expr.outline, Expr.prefixText, declaration.prefixText_outline]

theorem Expr.spacedText_outlines :
    ∀ es : List Expr, Expr.spacedText (Expr.outlines es) = Expr.spacedText es
  | [] => rfl
  | e :: es => by
    simp only [Expr.outlines, Expr.spacedText, e.prefixText_outline, Expr.spacedText_outlines es]

theorem FunctionDecl.prefixText_outline :
    ∀ d : FunctionDecl, d.outline.prefixText = d.prefixText
  | { name, parameters, body } => by
    simp only [FunctionDecl.outline, FunctionDecl.prefixText, shownName_outline, lexemes_outline,
      Stmt.spacedText_outlines body]

theorem FunctionDecl.spacedText_outlines : ∀ ds : List FunctionDecl,
    FunctionDecl.spacedText (FunctionDecl.outlines ds) = FunctionDecl.spacedText ds
  | [] => rfl
  | d :: ds => by
    simp only [FunctionDecl.outlines, FunctionDecl.spacedText, d.prefixText_outline,
      FunctionDecl.spacedText_outlines ds]

/-- The prefix text of a statement shows its outline and nothing else. -/
theorem Stmt.prefixText_outline : ∀ s : Stmt, s.outline.prefixText = s.prefixText
  | .expression value | .print value | .giveBack _ (some value) => by
    simp only [Stmt.outline, Stmt.prefixText, value.prefixText_outline]
  | .varDecl _ none | .leave _ | .giveBack _ none => rfl
  | .varDecl _ (some value) => by
    simp only [Stmt.outline, Stmt.prefixText, Token.lexeme_outline, value.prefixText_outline]
  | .block body => by simp only [Stmt.outline, Stmt.prefixText, Stmt.spacedText_outlines body]
  | .conditional condition whenTrue none => by
    simp only [Stmt.outline, Stmt.prefixText, condition.prefixText_outline,
      whenTrue.prefixText_outline]
  | .conditional condition whenTrue (some whenFalse) => by
    simp only [Stmt.outline, Stmt.prefixText, condition.prefixText_outline,
      whenTrue.prefixText_outline, whenFalse.prefixText_outline]
  | .loop condition body => by
    simp only [Stmt.outline, Stmt.prefixText, condition.prefixText_outline,
      body.prefixText_outline]
  | .function declaration => by
    simp only [Stmt.outline, Stmt.prefixText, declaration.prefixText_outline]
  | .classDecl _ methods => by
    simp only [Stmt.outline, Stmt.prefixText, Token.lexeme_outline,
      FunctionDecl.spacedText_outlines methods]

theorem Stmt.spacedText_outlines :
    ∀ ss : List Stmt, Stmt.spacedText (Stmt.outlines ss) = Stmt.spacedText ss
  | [] => rfl
  | s :: ss => by
    simp only [Stmt.outlines, Stmt.spacedText, s.prefixText_outline, Stmt.spacedText_outlines ss]

end

/-! ## Parentheses -/

/-- An expression without the parentheses around its operands. -/
def Expr.ungrouped : Expr → Expr
  | .grouping inner => inner.ungrouped
  | .unary operator operand => .unary operator operand.ungrouped
  | .binary left operator right => .binary left.ungrouped operator right.ungrouped
  | .logical left operator right => .logical left.ungrouped operator right.ungrouped
  | other => other

theorem Expr.postfixText_outline (e : Expr) : e.outline.postfixText = e.postfixText := by
  fun_induction Expr.postfixText e with
  | case1 value => exact value.text_outline
  | case2 inner ih => rw [Expr.outline, Expr.postfixText, ih]
  | case3 operator operand ih => rw [Expr.outline, Expr.postfixText, ih, Token.lexeme_outline]
  | case4 left operator right ihl ihr | case5 left operator right ihl ihr =>
    rw [Expr.outline, Expr.postfixText, ihl, ihr, Token.lexeme_outline]
  | case6 => rfl
  | case7 other hconstant hgrouping hunary hbinary hlogical hvariable =>
    cases other with
    | constant => exact absurd rfl (hconstant _)
    | grouping => exact absurd rfl (hgrouping _)
    | unary => exact absurd rfl (hunary _ _)
    | binary => exact absurd rfl (hbinary _ _ _)
    | logical => exact absurd rfl (hlogical _ _ _)
    | «variable» => exact absurd rfl (hvariable _ _)
    | ternary | assign | call | get | set | self | function => exact Expr.prefixText_outline _

/-- The postfix text of an expression does not show its parentheses. -/
theorem Expr.postfixText_ungrouped (e : Expr) : e.ungrouped.postfixText = e.postfixText := by
  fun_induction Expr.ungrouped e with
  | case1 inner ih => rw [ih, Expr.postfixText]
  | case2 operator operand ih => rw [Expr.postfixText, ih, Expr.postfixText]
  | case3 left operator right ihl ihr | case4 left operator right ihl ihr =>
    rw [Expr.postfixText, ihl, ihr, Expr.postfixText]
  | case5 e => rfl

end TreeScript
