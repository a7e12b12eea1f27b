import TreeScript.Proofs.Printing.TreeForms
import TreeScript.Proofs.Printing.Words
import Mathlib

/-!
# What prefix text tells

The prefix text of a statement determines it, up to what the text does not show: the text is
that of one form only, and the tree is read off the form.

* `Form.read` — the statement that a form shows
* `Piece.Unquoted` — a piece without strings in it
* `Form.Shows` — a form from which a statement is read
* `Stmt.shows_form` — from the form of a statement its outline is read
* `Stmt.prefixText_eq_iff` — statements of one text have one outline
-/

namespace TreeScript

/-! ## Reading forms -/

/-- The expression of a statement that is one. -/
def Stmt.value : Stmt → Expr
  | .expression value => value
  | _ => .constant .nil

/-- The function of a statement that declares one or has one as its expression. -/
def Stmt.declaration : Stmt → FunctionDecl
  | .function declaration | .expression (.function declaration) => declaration
  | _ => { name := none, parameters := [], body := [] }

/-- A function as a statement: a declaration if it has a name, and else an expression. -/
def FunctionDecl.asStatement (declaration : FunctionDecl) : Stmt :=
  match declaration.name with
  | some _ => .function declaration
  | none => .expression (.function declaration)

theorem FunctionDecl.asStatement_of_none {d : FunctionDecl} (h : d.name = none) :
    d.outline.asStatement = .expression (.function d.outline) := by
  obtain ⟨name, parameters, body⟩ := d
  obtain rfl : name = none := h
  rfl

theorem FunctionDecl.asStatement_of_some {d : FunctionDecl} (h : d.name.isSome = true) :
    d.outline.asStatement = .function d.outline := by
  obtain ⟨name, parameters, body⟩ := d
  obtain ⟨name, rfl⟩ := Option.isSome_iff_exists.1 h
  rfl

theorem FunctionDecl.declaration_asStatement (d : FunctionDecl) :
    d.asStatement.declaration = d := by
  obtain ⟨name, parameters, body⟩ := d
  cases name <;> rfl

/-- The parameters that forms show.  All words but the last one end in a comma. -/
def Form.names : List Form → List Token
  | [] => []
  | [.word last] => [.shown last]
  | .word text :: rest => .shown (String.ofList text.toList.dropLast) :: names rest
  | .group _ :: rest => names rest

mutual

/-- The statement that a form shows.  The first word of a group tells what it is, and operators
are told apart by the number of their operands. -/
def Form.read : Form → Stmt
  | .word "nil" => .expression (.constant .nil)
  | .word "true" => .expression (.constant (.bool true))
  | .word "false" => .expression (.constant (.bool false))
  | .word "this" => .expression (.self 0 .unprinted)
  | .word numeral => .expression (.constant (.string numeral))
  | .group [.word "group", inner] => .expression (.grouping inner.read.value)
  | .group [.word "?:", condition, whenTrue, whenFalse] =>
    .expression (.ternary condition.read.value .unprinted whenTrue.read.value
      whenFalse.read.value)
  | .group [.word "var", .word name] => .expression (.variable 0 (.shown name))
  | .group [.word "assign", .word name, value] =>
    .expression (.assign 0 (.shown name) value.read.value)
  | .group (.word "call" :: callee :: arguments) =>
    .expression (.call callee.read.value .unprinted ((Form.readAll arguments).map Stmt.value))
  | .group [.word "get", object, .word name] => .expression (.get object.read.value (.shown name))
  | .group [.word "set", object, .word name, value] =>
    .expression (.set object.read.value (.shown name) value.read.value)
  | .group [.word "fun", .word name, .group parameters, .group (_ :: body)] =>
    .function { name := some (.shown name), parameters := Form.names parameters,
                body := Form.readAll body }
  | .group [.word "fun", .group _, .group parameters, .group (_ :: body)] =>
    .expression (.function { name := none, parameters := Form.names parameters,
                             body := Form.readAll body })
  | .group [.word "print", value] => .print value.read.value
  | .group [.word "decl", .word name] => .varDecl (.shown name) none
  | .group [.word "decl", .word name, value] => .varDecl (.shown name) (some value.read.value)
  | .group (.word "block" :: body) => .block (Form.readAll body)
  | .group [.word "if", condition, whenTrue] =>
    .conditional condition.read.value whenTrue.read none
  | .group [.word "if", condition, whenTrue, whenFalse] =>
    .conditional condition.read.value whenTrue.read (some whenFalse.read)
  | .group [.word "while", condition, body] => .loop condition.read.value body.read
  | .group [.word "break"] => .leave .unprinted
  | .group [.word "return"] => .giveBack .unprinted none
  | .group [.word "return", value] => .giveBack .unprinted (some value.read.value)
  | .group (.word "class" :: .word name :: methods) =>
    .classDecl (.shown name) ((Form.readAll methods).map Stmt.declaration)
  | .group [.word operator, operand] => .expression (.unary (.shown operator) operand.read.value)
  | .group [.word operator, left, right] =>
    if (Token.shown operator).kind ∈ logicalKinds then
      .expression (.logical left.read.value (.shown operator) right.read.value)
    else .expression (.binary left.read.value (.shown operator) right.read.value)
  | _ => .expression (.constant .nil)

/-- The statements that forms show. -/
def Form.readAll : List Form → List Stmt
  | [] => []
  | first :: rest => first.read :: Form.readAll rest

end

/-- The words that are first in the groups of all but operators. -/
def headWords : List String :=
  ["group", "?:", "var", "assign", "call", "get", "set", "fun", "print", "decl", "block", "if",
    "while", "break", "return", "class"]

/-- No operator is a word that groups start with. -/
theorem Token.Shows.ne_headWord {token : Token} (h : token.Shows)
    (hk : token.kind ∈ prefixKinds ∨ token.kind ∈ logicalKinds ∨ token.kind ∈ binaryKinds) :
    ∀ word ∈ headWords, token.lexeme ≠ word := by
  have hheads : ∀ word ∈ headWords, ¬((Token.shown word).kind ∈ prefixKinds ∨
      (Token.shown word).kind ∈ logicalKinds ∨ (Token.shown word).kind ∈ binaryKinds) := by
    decide
  rintro word hw rfl
  exact hheads _ hw (h.kind_eq ▸ hk)

/-- A group of an operator and one operand. -/
theorem Form.read_unary {operator : String} (h : ∀ word ∈ headWords, operator ≠ word)
    (operand : Form) : (Form.group [.word operator, operand]).read =
      .expression (.unary (.shown operator) operand.read.value) := by
  rw [Form.read]
  all_goals
    first
    | exact h _ (by decide)
    | exact fun _ hword => absurd hword (h _ (by decide))

/-- A group of an operator and two operands. -/
theorem Form.read_between {operator : String} (h : ∀ word ∈ headWords, operator ≠ word)
    (left right : Form) : (Form.group [.word operator, left, right]).read =
      if (Token.shown operator).kind ∈ logicalKinds then
        .expression (.logical left.read.value (.shown operator) right.read.value)
      else .expression (.binary left.read.value (.shown operator) right.read.value) := by
  rw [Form.read]
  all_goals
    first
    | exact h _ (by decide)
    | exact fun _ hword => absurd hword (h _ (by decide))

/-! ## Strings -/

/-- No string stands in a piece. -/
def Piece.Unquoted (piece : Piece) : Prop :=
  ∀ place text, piece.at? place ≠ some (.node (.expression (.constant (.string text))))

namespace Piece.Unquoted

variable {piece : Piece}

/-- Nor in what stands in it. -/
theorem child {child : Piece} (h : piece.Unquoted) (hc : child ∈ piece.children) :
    child.Unquoted := by
  intro place text hp
  obtain ⟨i, hi⟩ := List.getElem?_of_mem hc
  refine h (i :: place) text ?_
  rw [Piece.at?, hi]
  exact hp

/-- A piece other than a string has none in it if none of what stands directly in it has. -/
theorem of_children (h : ∀ text, piece ≠ .node (.expression (.constant (.string text))))
    (hc : ∀ child ∈ piece.children, child.Unquoted) : piece.Unquoted := by
  intro place text hp
  cases place with
  | nil => exact h text (Option.some.inj hp)
  | cons i place =>
    obtain ⟨child, hi, hp⟩ := Option.bind_eq_some_iff.1 hp
    exact hc child (List.mem_of_getElem? hi) place text hp

theorem part {e : Expr} {part : Node} (h : (Piece.node (.expression e)).Unquoted)
    (hp : part ∈ e.parts) : (Piece.node part).Unquoted :=
  h.child (List.mem_map_of_mem hp)

theorem ne_string {value : Constant}
    (h : (Piece.node (.expression (.constant value))).Unquoted) (text : String) :
    value ≠ .string text := by
  rintro rfl
  exact h [] text rfl

end Piece.Unquoted

/-! ## Reading the form of a tree -/

/-- A form of solid words that shows a statement. -/
structure Form.Shows (form : Form) (s : Stmt) : Prop where
  solid : form.Solid
  read : form.read = s

/-- A constant that is no string is shown by a word of its own. -/
theorem Constant.shows_form {value : Constant} (h : ∀ text, value ≠ .string text) :
    (Form.word value.text).Shows (.expression (.constant value.outline)) := by
  cases value with
  | nil => exact ⟨show (Form.word "nil").Solid by decide, rfl⟩
  | bool value =>
    cases value with
    | false => exact ⟨show (Form.word "false").Solid by decide, rfl⟩
    | true => exact ⟨show (Form.word "true").Solid by decide, rfl⟩
  | number x =>
    have hnumeral := Number.isNumeral_text x
    refine ⟨hnumeral.solid, ?_⟩
    rw [Constant.text, Form.read]
    · rfl
    · exact hnumeral.ne_of_mem (c := 'l') (by decide) (by decide)
    · exact hnumeral.ne_of_mem (c := 't') (by decide) (by decide)
    · exact hnumeral.ne_of_mem (c := 'l') (by decide) (by decide)
    · exact hnumeral.ne_of_mem (c := 't') (by decide) (by decide)
  | string text => exact absurd rfl (h text)

theorem parameterForms_ne_nil (first : Token) (rest : List Token) :
    parameterForms (first :: rest) ≠ [] := by
  cases rest <;> exact List.cons_ne_nil _ _

/-- The parameters of a function are read from their forms. -/
theorem parameterForms_shows {parameters : List Token} (h : ∀ name ∈ parameters, name.Shows) :
    Form.SolidAll (parameterForms parameters) ∧
      Form.names (parameterForms parameters) = parameters.map Token.outline := by
  induction parameters with
  | nil => exact ⟨trivial, rfl⟩
  | cons name rest ih =>
    obtain ⟨hname, hrest⟩ := List.forall_mem_cons.1 h
    cases rest with
    | nil =>
      refine ⟨⟨hname.solid, trivial⟩, ?_⟩
      rw [parameterForms, Form.names, hname.outline]
      rfl
    | cons second rest =>
      obtain ⟨hsolid, hnames⟩ := ih hrest
      have hcomma : IsSolidWord (name.lexeme ++ ",") := by
        rw [IsSolidWord, String.toList_append, List.forall_mem_append]
        exact ⟨List.append_ne_nil_of_left_ne_nil hname.solid.1 _, hname.solid.2,
          (show IsSolidWord "," by decide).2⟩
      have hchop : String.ofList (name.lexeme ++ ",").toList.dropLast = name.lexeme := by
        simp
      refine ⟨⟨hcomma, hsolid⟩, ?_⟩
      rw [parameterForms, Form.names, hnames, hchop, hname.outline]
      · rfl
      · exact parameterForms_ne_nil second rest
      · exact List.cons_ne_nil _ _

section

variable {given : List Token}

mutual

theorem Expr.shows_form (hl : Legible given) : ∀ e : Expr, e.Formed given →
    (Piece.node (.expression e)).Unquoted → e.form.Shows (.expression e.outline)
  | .constant value, _, hu => Constant.shows_form hu.ne_string
  | .grouping inner, hf, hu => by
    have hinner := inner.shows_form hl hf (hu.part (.head _))
    refine ⟨⟨by decide, hinner.solid, trivial⟩, ?_⟩
    rw [Expr.form, Form.read, hinner.read]
    rfl
  | .unary operator operand, hf, hu => by
    have hoperator := hf.1.shows hl (by decide)
    have hoperand := operand.shows_form hl hf.2 (hu.part (.head _))
    have hne := hoperator.ne_headWord (.inl hf.1.2)
    refine ⟨⟨hoperator.solid, hoperand.solid, trivial⟩, ?_⟩
    rw [Expr.form, Form.read_unary hne, hoperand.read, hoperator.outline]
    rfl
  | .binary left operator right, hf, hu => by
    have hoperator := hf.2.1.shows hl (by decide)
    have hleft := left.shows_form hl hf.1 (hu.part (.head _))
    have hright := right.shows_form hl hf.2.2 (hu.part (.tail _ (.head _)))
    have hne := hoperator.ne_headWord (.inr (.inr hf.2.1.2))
    have hkind : (Token.shown operator.lexeme).kind ∉ logicalKinds :=
      hoperator.kind_eq ▸ not_mem_logicalKinds hf.2.1.2
    refine ⟨⟨hoperator.solid, hleft.solid, hright.solid, trivial⟩, ?_⟩
    rw [Expr.form, Form.read_between hne, if_neg hkind, hleft.read, hright.read,
      hoperator.outline]
    rfl
  | .logical left operator right, hf, hu => by
    have hoperator := hf.2.1.shows hl (by decide)
    have hleft := left.shows_form hl hf.1 (hu.part (.head _))
    have hright := right.shows_form hl hf.2.2 (hu.part (.tail _ (.head _)))
    have hne := hoperator.ne_headWord (.inr (.inl hf.2.1.2))
    have hkind : (Token.shown operator.lexeme).kind ∈ logicalKinds :=
      hoperator.kind_eq ▸ hf.2.1.2
    refine ⟨⟨hoperator.solid, hleft.solid, hright.solid, trivial⟩, ?_⟩
    rw [Expr.form, Form.read_between hne, if_pos hkind, hleft.read, hright.read,
      hoperator.outline]
    rfl
  | .ternary condition _ whenTrue whenFalse, hf, hu => by
    have hcondition := condition.shows_form hl hf.1 (hu.part (.head _))
    have htrue := whenTrue.shows_form hl hf.2.1 (hu.part (.tail _ (.head _)))
    have hfalse := whenFalse.shows_form hl hf.2.2 (hu.part (.tail _ (.tail _ (.head _))))
    refine ⟨⟨by decide, hcondition.solid, htrue.solid, hfalse.solid, trivial⟩, ?_⟩
    rw [Expr.form, Form.read, hcondition.read, htrue.read, hfalse.read]
    rfl
  | .variable _ name, hf, _ => by
    have hname : name.Shows := hf.shows hl (by decide)
    refine ⟨⟨by decide, hname.solid, trivial⟩, ?_⟩
    rw [Expr.form, Form.read, hname.outline]
    rfl
  | .assign _ name value, hf, hu => by
    have hname : name.Shows := hf.1.shows hl (by decide)
    have hvalue := value.shows_form hl hf.2 (hu.part (.head _))
    refine ⟨⟨by decide, hname.solid, hvalue.solid, trivial⟩, ?_⟩
    rw [Expr.form, Form.read, hname.outline, hvalue.read]
    rfl
  | .call callee _ arguments, hf, hu => by
    have hcallee := callee.shows_form hl hf.1 (hu.part (.head _))
    have harguments := Expr.shows_forms hl arguments hf.2 fun e he =>
      hu.part (.tail _ (List.mem_map_of_mem he))
    refine ⟨⟨by decide, hcallee.solid, harguments.1⟩, ?_⟩
    rw [Expr.form, Form.read, hcallee.read, harguments.2, List.map_map]
    exact congrArg (fun outlines => Stmt.expression (.call _ _ outlines)) (List.map_id _)
  | .get object name, hf, hu => by
    have hobject := object.shows_form hl hf.1 (hu.part (.head _))
    have hname : name.Shows := hf.2.shows hl (by decide)
    refine ⟨⟨by decide, hobject.solid, hname.solid, trivial⟩, ?_⟩
    rw [Expr.form, Form.read, hname.outline, hobject.read]
    rfl
  | .set object name value, hf, hu => by
    have hobject := object.shows_form hl hf.1 (hu.part (.head _))
    have hname : name.Shows := hf.2.1.shows hl (by decide)
    have hvalue := value.shows_form hl hf.2.2 (hu.part (.tail _ (.head _)))
    refine ⟨⟨by decide, hobject.solid, hname.solid, hvalue.solid, trivial⟩, ?_⟩
    rw [Expr.form, Form.read, hname.outline, hobject.read, hvalue.read]
    rfl
  | .self _ _, _, _ => ⟨show (Form.word "this").Solid by decide, rfl⟩
  | .function declaration, hf, hu => by
    have hdeclaration := declaration.shows_form hl hf.2 (hu.part (.head _))
    rwa [FunctionDecl.asStatement_of_none hf.1] at hdeclaration

theorem Expr.shows_forms (hl : Legible given) : ∀ es : List Expr, Expr.FormedAll given es →
    (∀ e ∈ es, (Piece.node (.expression e)).Unquoted) → Form.SolidAll (Expr.forms es) ∧
      Form.readAll (Expr.forms es) = (Expr.outlines es).map .expression
  | [], _, _ => ⟨trivial, rfl⟩
  | e :: es, hf, hu => by
    have hfirst := e.shows_form hl hf.1 (hu e List.mem_cons_self)
    have hrest := Expr.shows_forms hl es hf.2 fun e he => hu e (List.mem_cons_of_mem _ he)
    refine ⟨⟨hfirst.solid, hrest.1⟩, ?_⟩
    rw [Expr.forms, Form.readAll, hfirst.read, hrest.2]
    rfl

theorem FunctionDecl.shows_form (hl : Legible given) : ∀ d : FunctionDecl, d.Formed given →
    (Piece.node (.function d)).Unquoted → d.form.Shows d.outline.asStatement
  | { name, parameters, body }, hf, hu => by
    have hparameters := parameterForms_shows fun name hm => (hf.2.1 name hm).shows hl (by decide)
    have hbody := Stmt.shows_forms hl body hf.2.2 fun s hs =>
      hu.child (List.mem_append_right _ (List.mem_map_of_mem hs))
    cases name with
    | none =>
      refine ⟨⟨by decide, ⟨by decide, trivial⟩, hparameters.1, ⟨by decide, hbody.1⟩, trivial⟩, ?_⟩
      rw [FunctionDecl.form, nameForm, Form.read, hparameters.2, hbody.2]
      rfl
    | some name =>
      have hname : name.Shows := (hf.1 name rfl).shows hl (by decide)
      refine ⟨⟨by decide, hname.solid, hparameters.1, ⟨by decide, hbody.1⟩, trivial⟩, ?_⟩
      rw [FunctionDecl.form, nameForm, Form.read, hname.outline, hparameters.2, hbody.2]
      rfl

theorem FunctionDecl.shows_forms (hl : Legible given) : ∀ ds : List FunctionDecl,
    FunctionDecl.FormedAll given ds → (∀ d ∈ ds, (Piece.node (.function d)).Unquoted) →
    Form.SolidAll (FunctionDecl.forms ds) ∧
      Form.readAll (FunctionDecl.forms ds) =
        (FunctionDecl.outlines ds).map FunctionDecl.asStatement
  | [], _, _ => ⟨trivial, rfl⟩
  | d :: ds, hf, hu => by
    have hfirst := d.shows_form hl hf.1 (hu d List.mem_cons_self)
    have hrest := FunctionDecl.shows_forms hl ds hf.2 fun d hd => hu d (List.mem_cons_of_mem _ hd)
    refine ⟨⟨hfirst.solid, hrest.1⟩, ?_⟩
    rw [FunctionDecl.forms, Form.readAll, hfirst.read, hrest.2]
    rfl

/-- The form of a statement shows its outline. -/
theorem Stmt.shows_form (hl : Legible given) : ∀ s : Stmt, s.Formed given →
    (Piece.node (.statement s)).Unquoted → s.form.Shows s.outline
  | .expression value, hf, hu => value.shows_form hl hf (hu.child (.head _))
  | .print value, hf, hu => by
    have hvalue := value.shows_form hl hf (hu.child (.head _))
    refine ⟨⟨by decide, hvalue.solid, trivial⟩, ?_⟩
    rw [Stmt.form, Form.read, hvalue.read]
    rfl
  | .varDecl name none, hf, _ => by
    have hname : name.Shows := hf.shows hl (by decide)
    refine ⟨⟨by decide, hname.solid, trivial⟩, ?_⟩
    rw [Stmt.form, Form.read, hname.outline]
    rfl
  | .varDecl name (some value), hf, hu => by
    have hname : name.Shows := hf.1.shows hl (by decide)
    have hvalue := value.shows_form hl hf.2 (hu.child (.head _))
    refine ⟨⟨by decide, hname.solid, hvalue.solid, trivial⟩, ?_⟩
    rw [Stmt.form, Form.read, hname.outline, hvalue.read]
    rfl
  | .block body, hf, hu => by
    have hbody := Stmt.shows_forms hl body hf fun s hs => hu.child (List.mem_map_of_mem hs)
    refine ⟨⟨by decide, hbody.1⟩, ?_⟩
    rw [Stmt.form, Form.read, hbody.2]
    rfl
  | .conditional condition whenTrue none, hf, hu => by
    have hcondition := condition.shows_form hl hf.1 (hu.child (.head _))
    have htrue := whenTrue.shows_form hl hf.2 (hu.child (.tail _ (.head _)))
    refine ⟨⟨by decide, hcondition.solid, htrue.solid, trivial⟩, ?_⟩
    rw [Stmt.form, Form.read, hcondition.read, htrue.read]
    rfl
  | .conditional condition whenTrue (some whenFalse), hf, hu => by
    have hcondition := condition.shows_form hl hf.1 (hu.child (.head _))
    have htrue := whenTrue.shows_form hl hf.2.1 (hu.child (.tail _ (.head _)))
    have hfalse := whenFalse.shows_form hl hf.2.2 (hu.child (.tail _ (.tail _ (.head _))))
    refine ⟨⟨by decide, hcondition.solid, htrue.solid, hfalse.solid, trivial⟩, ?_⟩
    rw [Stmt.form, Form.read, hcondition.read, htrue.read, hfalse.read]
    rfl
  | .loop condition body, hf, hu => by
    have hcondition := condition.shows_form hl hf.1 (hu.child (.head _))
    have hbody := body.shows_form hl hf.2 (hu.child (.tail _ (.head _)))
    refine ⟨⟨by decide, hcondition.solid, hbody.solid, trivial⟩, ?_⟩
    rw [Stmt.form, Form.read, hcondition.read, hbody.read]
    rfl
  | .leave _, _, _ => ⟨⟨by decide, trivial⟩, rfl⟩
  | .function declaration, hf, hu => by
    have hdeclaration := declaration.shows_form hl hf.2 (hu.child (.head _))
    rwa [FunctionDecl.asStatement_of_some hf.1] at hdeclaration
  | .giveBack _ none, _, _ => ⟨⟨by decide, trivial⟩, rfl⟩
  | .giveBack _ (some value), hf, hu => by
    have hvalue := value.shows_form hl hf (hu.child (.head _))
    refine ⟨⟨by decide, hvalue.solid, trivial⟩, ?_⟩
    rw [Stmt.form, Form.read, hvalue.read]
    rfl
  | .classDecl name methods, hf, hu => by
    have hname : name.Shows := hf.1.shows hl (by decide)
    have hmethods := FunctionDecl.shows_forms hl methods hf.2 fun d hd =>
      hu.child (List.mem_cons_of_mem _ (List.mem_map_of_mem hd))
    refine ⟨⟨by decide, hname.solid, hmethods.1⟩, ?_⟩
    rw [Stmt.form, Form.read, hname.outline, hmethods.2, List.map_map,
      List.map_congr_left fun d _ => d.declaration_asStatement, List.map_id']
    rfl

theorem Stmt.shows_forms (hl : Legible given) : ∀ ss : List Stmt, Stmt.FormedAll given ss →
    (∀ s ∈ ss, (Piece.node (.statement s)).Unquoted) →
    Form.SolidAll (Stmt.forms ss) ∧ Form.readAll (Stmt.forms ss) = Stmt.outlines ss
  | [], _, _ => ⟨trivial, rfl⟩
  | s :: ss, hf, hu => by
    have hfirst := s.shows_form hl hf.1 (hu s List.mem_cons_self)
    have hrest := Stmt.shows_forms hl ss hf.2 fun s hs => hu s (List.mem_cons_of_mem _ hs)
    refine ⟨⟨hfirst.solid, hrest.1⟩, ?_⟩
    rw [Stmt.forms, Form.readAll, hfirst.read, hrest.2]
    rfl

end

end

/-- The text of a statement of a source determines it, if no string stands in it: statements of
one text are the same but for identities, lines, the tokens that are not printed, and numbers of
the same text.  The text shows none of these. -/
theorem Stmt.prefixText_eq_iff {s t : Stmt} (hs : (Piece.node (.statement s)).Parsed)
    (ht : (Piece.node (.statement t)).Parsed) (hus : (Piece.node (.statement s)).Unquoted)
    (hut : (Piece.node (.statement t)).Unquoted) :
    s.prefixText = t.prefixText ↔ s.outline = t.outline := by
  obtain ⟨given, hl, hf⟩ := hs.formed
  obtain ⟨given', hl', hf'⟩ := ht.formed
  have hshows : s.form.Shows s.outline := s.shows_form hl hf hus
  have hshows' : t.form.Shows t.outline := t.shows_form hl' hf' hut
  constructor
  · intro htext
    have hchars : s.form.chars = t.form.chars := by rw [s.chars_form, t.chars_form, htext]
    have hform : s.form = t.form := Form.chars_inj hshows.solid hshows'.solid hchars
    rw [← hshows.read, hform, hshows'.read]
  · intro houtline
    rw [← s.prefixText_outline, houtline, t.prefixText_outline]

/-- The tree of `while (a) print !b;` on some line, with some identities. -/
def waiting (line : Nat) (first second : ReferenceId) : Stmt :=
  .loop (.variable first ⟨.identifier, "a", none, line⟩)
    (.print (.unary ⟨.bang, "!", none, line⟩ (.variable second ⟨.identifier, "b", none, line⟩)))

theorem unquoted_waiting (line : Nat) (first second : ReferenceId) :
    (Piece.node (.statement (waiting line first second))).Unquoted := by
  have hvariable : ∀ id name, (Piece.node (.expression (.variable id name))).Unquoted :=
    fun _ _ => .of_children nofun nofun
  have hunary : ∀ operator id name,
      (Piece.node (.expression (.unary operator (.variable id name)))).Unquoted :=
    fun _ id name => .of_children nofun (List.forall_mem_singleton.2 (hvariable id name))
  refine .of_children nofun (List.forall_mem_cons.2 ⟨hvariable _ _, ?_⟩)
  exact List.forall_mem_singleton.2
    (.of_children nofun (List.forall_mem_singleton.2 (hunary _ _ _)))

theorem Stmt.prefixText_eq_iff_waiting :
    (Piece.node (.statement (waiting 1 0 1))).Parsed ∧
    (Piece.node (.statement (waiting 3 1 2))).Parsed ∧
    (Piece.node (.statement (waiting 1 0 1))).Unquoted ∧
    (Piece.node (.statement (waiting 3 1 2))).Unquoted ∧
    (waiting 1 0 1).prefixText = "(while (var a) (print (! (var b))))" ∧
    (waiting 3 1 2).prefixText = "(while (var a) (print (! (var b))))" ∧
    (waiting 1 0 1).outline = (waiting 3 1 2).outline := by
  have hparsed : (Piece.node (.statement (waiting 1 0 1))).Parsed :=
    ⟨"while (a) print !b;", 0, [0], by cbv⟩
  have hparsed' : (Piece.node (.statement (waiting 3 1 2))).Parsed :=
    ⟨"if (a)\n  \x7b\n  while(a)print!b; \x7d", 0, [0, 1, 0], by cbv⟩
  have htext : (waiting 1 0 1).prefixText = "(while (var a) (print (! (var b))))" := by decide
  have htext' : (waiting 3 1 2).prefixText = "(while (var a) (print (! (var b))))" := by decide
  have hunquoted := unquoted_waiting 1 0 1
  have hunquoted' := unquoted_waiting 3 1 2
  exact ⟨hparsed, hparsed', hunquoted, hunquoted', htext, htext',
    (Stmt.prefixText_eq_iff hparsed hparsed' hunquoted hunquoted').1
      (htext.trans htext'.symm)⟩

end TreeScript
