import TreeScript.Proofs.Printing.Words
import Mathlib

/-!
# What postfix text tells

Where every operator takes a fixed number of operands, the postfix text of an expression
determines it, though it shows neither parentheses nor precedence.

* `Expr.FixedArity` — an expression of names and operators without the minus before one operand
* `Expr.postfixWords` — the words of the postfix text
* `Expr.push` — what a word does to the expressions read so far
* `Expr.foldl_push_postfixWords` — the words of an expression put it on top of these
* `Expr.postfixText_eq_iff` — expressions of one text are the same but for parentheses,
  identities and lines
-/

namespace TreeScript

namespace Expr

variable {e : Expr} {given : List Token} {token : Token}

/-- An expression of variables, parentheses, operators between two operands and negations. -/
def FixedArity : Expr → Prop
  | .variable _ _ => True
  | .grouping inner => inner.FixedArity
  | .unary operator operand => operator.kind = .bang ∧ operand.FixedArity
  | .binary left _ right | .logical left _ right => left.FixedArity ∧ right.FixedArity
  | _ => False

/-- An expression of fixed arity in which every name and every operator shows itself. -/
inductive Telling : Expr → Prop
  | «variable» {id : ReferenceId} {name : Token} (h : name.Shows) (hk : name.kind = .identifier) :
      Telling (.variable id name)
  | grouping {inner : Expr} : inner.Telling → Telling (.grouping inner)
  | negation {operator : Token} {operand : Expr} (h : operator.Shows) (hk : operator.kind = .bang) :
      operand.Telling → Telling (.unary operator operand)
  | binary {left right : Expr} {operator : Token} (h : operator.Shows)
      (hk : operator.kind ∈ binaryKinds) :
      left.Telling → right.Telling → Telling (.binary left operator right)
  | logical {left right : Expr} {operator : Token} (h : operator.Shows)
      (hk : operator.kind ∈ logicalKinds) :
      left.Telling → right.Telling → Telling (.logical left operator right)

theorem FixedArity.telling (ha : e.FixedArity) (hl : Legible given) (hf : e.Formed given) :
    e.Telling := by
  fun_induction FixedArity e with
  | case1 id name => exact .variable (hf.shows hl (by decide)) (List.mem_singleton.1 hf.2)
  | case2 inner ih => exact .grouping (ih ha hf)
  | case3 operator operand ih =>
    exact .negation (hf.1.shows hl (by decide)) ha.1 (ih ha.2 hf.2)
  | case4 left operator right ihl ihr =>
    exact .binary (hf.2.1.shows hl (by decide)) hf.2.1.2 (ihl ha.1 hf.1) (ihr ha.2 hf.2.2)
  | case5 left operator right ihl ihr =>
    exact .logical (hf.2.1.shows hl (by decide)) hf.2.1.2 (ihl ha.1 hf.1) (ihr ha.2 hf.2.2)
  | case6 => exact ha.elim

/-! ## The words of the text -/

/-- The words of the postfix text of an expression. -/
def postfixWords : Expr → List String
  | .grouping inner => inner.postfixWords
  | .unary operator operand => operand.postfixWords ++ [operator.lexeme]
  | .binary left operator right | .logical left operator right =>
    left.postfixWords ++ right.postfixWords ++ [operator.lexeme]
  | other => [other.postfixText]

theorem postfixWords_ne_nil (e : Expr) : e.postfixWords ≠ [] := by
  fun_induction postfixWords e with
  | case1 _ ih => exact ih
  | case2 | case3 | case4 => exact List.append_ne_nil_of_right_ne_nil _ (List.cons_ne_nil _ _)
  | case5 => exact List.cons_ne_nil _ _

/-- Between the words of the text there is one space. -/
theorem intercalate_postfixWords (e : Expr) : " ".intercalate e.postfixWords = e.postfixText := by
  fun_induction postfixWords e with
  | case1 inner ih => rw [ih, postfixText]
  | case2 operator operand ih =>
    rw [String.intercalate_append_of_ne_nil operand.postfixWords_ne_nil (List.cons_ne_nil _ _), ih,
      String.intercalate_singleton, postfixText]
  | case3 left operator right ihl ihr | case4 left operator right ihl ihr =>
    rw [String.intercalate_append_of_ne_nil
        (List.append_ne_nil_of_left_ne_nil left.postfixWords_ne_nil _) (List.cons_ne_nil _ _),
      String.intercalate_append_of_ne_nil left.postfixWords_ne_nil right.postfixWords_ne_nil,
      ihl, ihr, String.intercalate_singleton, postfixText]
  | case5 => exact String.intercalate_singleton

/-- The words are solid, so that the text tells where each of them ends. -/
theorem Telling.solid_postfixWords (h : e.Telling) : ∀ word ∈ e.postfixWords, IsSolidWord word := by
  induction h with
  | «variable» h => exact List.forall_mem_singleton.2 h.solid
  | grouping _ ih => exact ih
  | negation h _ _ ih =>
    exact List.forall_mem_append.2 ⟨ih, List.forall_mem_singleton.2 h.solid⟩
  | binary h _ _ _ ihl ihr | logical h _ _ _ ihl ihr =>
    exact List.forall_mem_append.2
      ⟨List.forall_mem_append.2 ⟨ihl, ihr⟩, List.forall_mem_singleton.2 h.solid⟩

/-- Expressions of one text have the same words. -/
theorem Telling.postfixWords_eq {e' : Expr} (h : e.Telling) (h' : e'.Telling)
    (ht : e.postfixText = e'.postfixText) : e.postfixWords = e'.postfixWords := by
  have hsplit : ∀ {f : Expr}, f.Telling →
      f.postfixText.toList.splitOn ' ' = f.postfixWords.map String.toList := by
    intro f hf
    rw [← f.intercalate_postfixWords, String.toList_intercalate]
    refine List.splitOn_intercalate ' ' (List.forall_mem_map.2 fun word hw hspace => ?_)
      (mt List.map_eq_nil_iff.1 f.postfixWords_ne_nil)
    exact ((hf.solid_postfixWords word hw).2 ' ' hspace).1 rfl
  have hwords := hsplit h
  rw [ht, hsplit h'] at hwords
  exact List.map_injective_iff.2 (fun _ _ => String.toList_injective) hwords.symm

/-! ## Reading the words -/

/-- What a word does to the expressions that were read so far, the last one first: an operator
takes its operands from them, and a name is an expression of its own. -/
def push (stack : List Expr) (word : String) : List Expr :=
  let token := Token.shown word
  if token.kind = .bang then
    match stack with
    | operand :: rest => .unary token operand :: rest
    | [] => []
  else if token.kind ∈ logicalKinds then
    match stack with
    | right :: left :: rest => .logical left token right :: rest
    | _ => stack
  else if token.kind ∈ binaryKinds then
    match stack with
    | right :: left :: rest => .binary left token right :: rest
    | _ => stack
  else .variable 0 token :: stack

theorem push_name (h : token.Shows) (hk : token.kind = .identifier) (stack : List Expr) :
    push stack token.lexeme = .variable 0 token.outline :: stack := by
  rw [push.eq_def, h.outline]
  simp [Token.outline, hk, logicalKinds, binaryKinds]

theorem push_negation (h : token.Shows) (hk : token.kind = .bang) (operand : Expr)
    (stack : List Expr) :
    push (operand :: stack) token.lexeme = .unary token.outline operand :: stack := by
  rw [push.eq_def, h.outline]
  simp [Token.outline, hk]

theorem push_logical (h : token.Shows) (hk : token.kind ∈ logicalKinds) (left right : Expr)
    (stack : List Expr) :
    push (right :: left :: stack) token.lexeme = .logical left token.outline right :: stack := by
  have hbang : token.kind ≠ .bang := fun he => absurd (he ▸ hk) (by decide)
  rw [push.eq_def, h.outline]
  simp [Token.outline, hk, hbang]

theorem push_binary (h : token.Shows) (hk : token.kind ∈ binaryKinds) (left right : Expr)
    (stack : List Expr) :
    push (right :: left :: stack) token.lexeme = .binary left token.outline right :: stack := by
  have hbang : token.kind ≠ .bang := fun he => absurd (he ▸ hk) (by decide)
  rw [push.eq_def, h.outline]
  simp [Token.outline, hk, hbang, not_mem_logicalKinds hk]

/-- The words of an expression put it on top of what was read before them, whatever that is. -/
theorem Telling.foldl_push_postfixWords (h : e.Telling) (stack : List Expr) :
    e.postfixWords.foldl push stack = e.outline.ungrouped :: stack := by
  induction h generalizing stack with
  | «variable» h hk => exact push_name h hk stack
  | grouping _ ih => exact ih stack
  | negation h hk _ ih =>
    rw [postfixWords, List.foldl_append, ih]
    exact push_negation h hk _ stack
  | binary h hk _ _ ihl ihr =>
    rw [postfixWords, List.foldl_append, List.foldl_append, ihl, ihr]
    exact push_binary h hk _ _ stack
  | logical h hk _ _ ihl ihr =>
    rw [postfixWords, List.foldl_append, List.foldl_append, ihl, ihr]
    exact push_logical h hk _ _ stack

/-! ## One expression for one text -/

/-- Expressions of one text are the same but for parentheses, identities and lines, and the text
shows none of these. -/
theorem postfixText_eq_iff {e e' : Expr} (he : (Piece.node (.expression e)).Parsed)
    (he' : (Piece.node (.expression e')).Parsed) (ha : e.FixedArity) (ha' : e'.FixedArity) :
    e.postfixText = e'.postfixText ↔ e.outline.ungrouped = e'.outline.ungrouped := by
  obtain ⟨given, hl, hf⟩ := he.formed
  obtain ⟨given', hl', hf'⟩ := he'.formed
  have h : e.Telling := ha.telling hl hf
  have h' : e'.Telling := ha'.telling hl' hf'
  constructor
  · intro ht
    have hpush := h.foldl_push_postfixWords []
    rw [h.postfixWords_eq h' ht, h'.foldl_push_postfixWords []] at hpush
    exact (List.cons.inj hpush).1.symm
  · intro heq
    rw [← e.postfixText_outline, ← e.outline.postfixText_ungrouped, heq,
      e'.outline.postfixText_ungrouped, e'.postfixText_outline]

/-- The tree of `!(a + b * c)`, without parentheses around the product. -/
def negatedSum : Expr :=
  .unary ⟨.bang, "!", none, 1⟩ (.grouping
    (.binary (.variable 0 ⟨.identifier, "a", none, 1⟩) ⟨.plus, "+", none, 1⟩
      (.binary (.variable 1 ⟨.identifier, "b", none, 1⟩) ⟨.star, "*", none, 1⟩
        (.variable 2 ⟨.identifier, "c", none, 1⟩))))

/-- The tree of the same expression on the second line of a source, with parentheses. -/
def negatedSumBelow : Expr :=
  .unary ⟨.bang, "!", none, 2⟩ (.grouping
    (.binary (.variable 3 ⟨.identifier, "a", none, 2⟩) ⟨.plus, "+", none, 2⟩
      (.grouping (.binary (.variable 4 ⟨.identifier, "b", none, 2⟩) ⟨.star, "*", none, 2⟩
        (.variable 5 ⟨.identifier, "c", none, 2⟩)))))

theorem postfixText_eq_iff_negatedSum :
    (Piece.node (.expression negatedSum)).Parsed ∧
    (Piece.node (.expression negatedSumBelow)).Parsed ∧
    negatedSum.FixedArity ∧ negatedSumBelow.FixedArity ∧
    negatedSum.postfixText = "a b c * + !" ∧ negatedSumBelow.postfixText = "a b c * + !" ∧
    negatedSum.outline.ungrouped = negatedSumBelow.outline.ungrouped := by
  have hparsed : (Piece.node (.expression negatedSum)).Parsed :=
    ⟨"!(a + b * c);", 0, [0, 0], by cbv⟩
  have hparsed' : (Piece.node (.expression negatedSumBelow)).Parsed :=
    ⟨"a = b = c;\n!(a + (b * c));", 0, [1, 0], by cbv⟩
  have harity : negatedSum.FixedArity := ⟨rfl, trivial, trivial, trivial⟩
  have harity' : negatedSumBelow.FixedArity := ⟨rfl, trivial, trivial, trivial⟩
  have htext : negatedSum.postfixText = "a b c * + !" := by decide
  have htext' : negatedSumBelow.postfixText = "a b c * + !" := by decide
  exact ⟨hparsed, hparsed', harity, harity', htext, htext',
    (postfixText_eq_iff hparsed hparsed' harity harity').1 (htext.trans htext'.symm)⟩

end Expr

end TreeScript
