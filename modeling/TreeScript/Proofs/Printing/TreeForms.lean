import TreeScript.Tree.PrefixText
import TreeScript.Proofs.Printing.Forms

/-!
# The forms of trees

The prefix text of a tree is the text of a form: each node is a group that starts with a word of
its own, or a word alone.

* `Expr.form`, `FunctionDecl.form`, `Stmt.form` — the forms that the prefix text shows
* `parameterForms` — parameters, with a comma behind all but the last one
* `Stmt.chars_form` — the prefix text of a statement is the text of its form
-/

namespace TreeScript

/-! ## Forms of trees -/

/-- The form of the name of a function. -/
def nameForm : Option Token → Form
  | some name => .word name.lexeme
  | none => .group [.word "anonymous"]

/-- The forms of parameters: a comma belongs to the word before it. -/
def parameterForms : List Token → List Form
  | [] => []
  | [last] => [.word last.lexeme]
  | name :: rest => .word (name.lexeme ++ ",") :: parameterForms rest

mutual

/-- The form of an expression. -/
def Expr.form : Expr → Form
  | .constant value => .word value.text
  | .grouping inner => .group [.word "group", inner.form]
  | .unary operator operand => .group [.word operator.lexeme, operand.form]
  | .binary left operator right | .logical left operator right =>
    .group [.word operator.lexeme, left.form, right.form]
  | .ternary condition _ whenTrue whenFalse =>
    .group [.word "?:", condition.form, whenTrue.form, whenFalse.form]
  | .variable _ name => .group [.word "var", .word name.lexeme]
  | .assign _ name value => .group [.word "assign", .word name.lexeme, value.form]
  | .call callee _ arguments => .group (.word "call" :: callee.form :: Expr.forms arguments)
  | .get object name => .group [.word "get", object.form, .word name.lexeme]
  | .set object name value => .group [.word "set", object.form, .word name.lexeme, value.form]
  | .self _ _ => .word "this"
  | .function declaration => declaration.form

/-- The forms of expressions. -/
def Expr.forms : List Expr → List Form
  | [] => []
  | first :: rest => first.form :: Expr.forms rest

/-- The form of a function. -/
def FunctionDecl.form : FunctionDecl → Form
  | { name, parameters, body } =>
    .group [.word "fun", nameForm name, .group (parameterForms parameters),
      .group (.word "block" :: Stmt.forms body)]

/-- The forms of functions. -/
def FunctionDecl.forms : List FunctionDecl → List Form
  | [] => []
  | first :: rest => first.form :: FunctionDecl.forms rest

/-- The form of a statement. -/
def Stmt.form : Stmt → Form
  | .expression value => value.form
  | .print value => .group [.word "print", value.form]
  | .varDecl name none => .group [.word "decl", .word name.lexeme]
  | .varDecl name (some value) => .group [.word "decl", .word name.lexeme, value.form]
  | .block body => .group (.word "block" :: Stmt.forms body)
  | .conditional condition whenTrue none =>
    .group [.word "if", condition.form, whenTrue.form]
  | .conditional condition whenTrue (some whenFalse) =>
    .group [.word "if", condition.form, whenTrue.form, whenFalse.form]
  | .loop condition body => .group [.word "while", condition.form, body.form]
  | .leave _ => .group [.word "break"]
  | .function declaration => declaration.form
  | .giveBack _ none => .group [.word "return"]
  | .giveBack _ (some value) => .group [.word "return", value.form]
  | .classDecl name methods =>
    .group (.word "class" :: .word name.lexeme :: FunctionDecl.forms methods)

/-- The forms of statements. -/
def Stmt.forms : List Stmt → List Form
  | [] => []
  | first :: rest => first.form :: Stmt.forms rest

end

/-! ## The text of a tree is that of its form -/

theorem chars_nameForm (name : Option Token) : (nameForm name).chars = (shownName name).toList := by
  cases name with
  | none => decide
  | some name => rfl

theorem spaced_parameterForms (parameters : List Token) :
    (Form.spaced (parameterForms parameters)).tail =
      (", ".intercalate (parameters.map Token.lexeme)).toList := by
  have hcons : ∀ first rest, Form.spaced (parameterForms (first :: rest)) =
      ' ' :: (", ".intercalate ((first :: rest).map Token.lexeme)).toList := by
    intro first rest
    induction rest generalizing first with
    | nil => simp [parameterForms, Form.spaced, Form.chars]
    | cons second rest ih =>
      rw [parameterForms, Form.spaced, ih second]
      · simp [Form.chars, String.intercalate_cons_cons]
      · exact List.cons_ne_nil _ _
  cases parameters with
  | nil => rfl
  | cons first rest => rw [hcons, List.tail_cons]

mutual

theorem Expr.chars_form : ∀ e : Expr, e.form.chars = e.prefixText.toList
  | .constant _ => rfl
  | .grouping inner => by
    simp [Expr.form, Expr.prefixText, Form.chars, Form.spaced, inner.chars_form]
  | .unary _ operand => by
    simp [Expr.form, Expr.prefixText, Form.chars, Form.spaced, operand.chars_form]
  | .binary left _ right | .logical left _ right => by
    simp [Expr.form, Expr.prefixText, Form.chars, Form.spaced, left.chars_form, right.chars_form]
  | .ternary condition _ whenTrue whenFalse => by
    simp [Expr.form, Expr.prefixText, Form.chars, Form.spaced, condition.chars_form,
      whenTrue.chars_form, whenFalse.chars_form]
  | .variable _ _ => by simp [Expr.form, Expr.prefixText, Form.chars, Form.spaced]
  | .assign _ _ value => by
    simp [Expr.form, Expr.prefixText, Form.chars, Form.spaced, value.chars_form]
  | .call callee _ arguments => by
    simp [Expr.form, Expr.prefixText, Form.chars, Form.spaced, callee.chars_form,
      Expr.spaced_forms arguments]
  | .get object _ => by
    simp [Expr.form, Expr.prefixText, Form.chars, Form.spaced, object.chars_form]
  | .set object _ value => by
    simp [Expr.form, Expr.prefixText, Form.chars, Form.spaced, object.chars_form,
      value.chars_form]
  | .self _ _ => rfl
  | .function declaration => declaration.chars_form

theorem Expr.spaced_forms :
    ∀ es : List Expr, Form.spaced (Expr.forms es) = (Expr.spacedText es).toList
  | [] => rfl
  | e :: es => by
    simp [Expr.forms, Expr.spacedText, Form.spaced, e.chars_form, Expr.spaced_forms es]

theorem FunctionDecl.chars_form : ∀ d : FunctionDecl, d.form.chars = d.prefixText.toList
  | { name, parameters, body } => by
    simp [FunctionDecl.form, FunctionDecl.prefixText, Form.chars, Form.spaced, chars_nameForm,
      spaced_parameterForms, Stmt.spaced_forms body]

theorem FunctionDecl.spaced_forms : ∀ ds : List FunctionDecl,
    Form.spaced (FunctionDecl.forms ds) = (FunctionDecl.spacedText ds).toList
  | [] => rfl
  | d :: ds => by
    simp [FunctionDecl.forms, FunctionDecl.spacedText, Form.spaced, d.chars_form,
      FunctionDecl.spaced_forms ds]

/-- The prefix text of a statement is the text of its form. -/
theorem Stmt.chars_form : ∀ s : Stmt, s.form.chars = s.prefixText.toList
  | .expression value => value.chars_form
  | .print value | .giveBack _ (some value) => by
    simp [Stmt.form, Stmt.prefixText, Form.chars, Form.spaced, value.chars_form]
  | .varDecl _ none | .leave _ | .giveBack _ none => by
    simp [Stmt.form, Stmt.prefixText, Form.chars, Form.spaced]
  | .varDecl _ (some value) => by
    simp [Stmt.form, Stmt.prefixText, Form.chars, Form.spaced, value.chars_form]
  | .block body => by
    simp [Stmt.form, Stmt.prefixText, Form.chars, Form.spaced, Stmt.spaced_forms body]
  | .conditional condition whenTrue none => by
    simp [Stmt.form, Stmt.prefixText, Form.chars, Form.spaced, condition.chars_form,
      whenTrue.chars_form]
  | .conditional condition whenTrue (some whenFalse) => by
    simp [Stmt.form, Stmt.prefixText, Form.chars, Form.spaced, condition.chars_form,
      whenTrue.chars_form, whenFalse.chars_form]
  | .loop condition body => by
    simp [Stmt.form, Stmt.prefixText, Form.chars, Form.spaced, condition.chars_form,
      body.chars_form]
  | .function declaration => declaration.chars_form
  | .classDecl _ methods => by
    simp [Stmt.form, Stmt.prefixText, Form.chars, Form.spaced,
      FunctionDecl.spaced_forms methods]

theorem Stmt.spaced_forms :
    ∀ ss : List Stmt, Form.spaced (Stmt.forms ss) = (Stmt.spacedText ss).toList
  | [] => rfl
  | s :: ss => by
    simp [Stmt.forms, Stmt.spacedText, Form.spaced, s.chars_form, Stmt.spaced_forms ss]

end

end TreeScript
