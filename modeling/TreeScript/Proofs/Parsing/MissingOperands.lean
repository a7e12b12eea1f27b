import TreeScript.Proofs.Parsing.Confinement

/-!
# Operators without a left operand

An operator at the start of a statement is one fault and no more.  Its right part is read at the
level of the operator, so that what is left is the semicolon, also if functions with statements
of their own stand in it.

* `RightPart` — what stands behind an operator, at the level of the operator
* `Parse.settles_primary` — the right part is read and dropped
* `Parse.Settles.declaration_of_primary` — a fault of the first primary is one of the declaration
* `Program.ofTokens_missingOperand` — one fault, no statement, and then what stands behind
-/

namespace TreeScript

/-! ## Right parts -/

/-- What stands behind an operator, from one point to a later one: at the comparisons behind an
equality, at the sums behind a comparison, at the products behind a plus, at the unary operators
behind a product, and the rest of a list or of a conditional expression. -/
inductive RightPart : TokenKind → Point → Point → Prop
  | equality {kind p value q} : kind ∈ [TokenKind.equalEqual, .bangEqual] →
      Derives .standard (.level (levels.drop 3)) p value q → RightPart kind p q
  | comparison {kind p value q} : kind ∈ [TokenKind.less, .lessEqual, .greater, .greaterEqual] →
      Derives .standard (.level (levels.drop 4)) p value q → RightPart kind p q
  | sum {p value q} :
      Derives .standard (.level (levels.drop 5)) p value q → RightPart .plus p q
  | product {kind p value q} : kind ∈ [TokenKind.slash, .star, .percent] →
      Derives .standard .unary p value q → RightPart kind p q
  | list {p value q} : Derives .standard .conditional p value q → RightPart .comma p q
  | ternary {p colon us m whenTrue whenFalse q} :
      Derives .standard .list p whenTrue ⟨colon :: us, m⟩ → colon.kind = .colon →
      Derives .standard .conditional ⟨us, m⟩ whenFalse q → RightPart .question p q

/-- What is derived as a primary stands at every level. -/
theorem derives_level_of_primary {c : Convention} {p q : Point} {value : Expr}
    (h : Derives c .primary p value q) (ls : List Level) : Derives c (.level ls) p value q := by
  induction ls with
  | nil => exact .tightest (.noOperation (.noCall h))
  | cons level tighter ih => exact .tighter ih

/-- The fault of an operator that has no left operand. -/
def Token.strayFault (operator : Token) : GrammarFault :=
  match operator.kind with
  | .comma => .missingCommaOperand
  | .question => .missingTernaryCondition
  | _ => .missingOperand operator.lexeme

/-- A right part does not look at the tokens that it leaves. -/
theorem RightPart.replace {kind : TokenKind} {ts tail : List Token} {n m : ReferenceId}
    (h : RightPart kind ⟨ts ++ tail, n⟩ ⟨tail, m⟩) (tail' : List Token) :
    RightPart kind ⟨ts ++ tail', n⟩ ⟨tail', m⟩ := by
  cases h with
  | equality hk h => exact .equality hk (derives_replace_tail h tail')
  | comparison hk h => exact .comparison hk (derives_replace_tail h tail')
  | sum h => exact .sum (derives_replace_tail h tail')
  | product hk h => exact .product hk (derives_replace_tail h tail')
  | list h => exact .list (derives_replace_tail h tail')
  | ternary h₁ hcolon h₂ =>
    obtain ⟨us, hus, h₂⟩ := derives_replace h₂ tail tail' [] rfl
    cases hus
    obtain ⟨ts', hts, h₁⟩ := derives_replace h₁ tail tail' (_ :: us) rfl
    obtain rfl := List.append_cancel_right hts
    exact .ternary h₁ hcolon h₂

/-- Neither the end nor a declaration without a fault begins with such an operator. -/
theorem RightPart.not_mem_starts {kind : TokenKind} {p q : Point} (h : RightPart kind p q) :
    kind ∉ .endOfInput :: declarationStarts := by
  cases h with
  | equality hk _ | comparison hk _ | product hk _ =>
    simp only [List.mem_cons, List.not_mem_nil, or_false] at hk
    rcases hk with rfl | rfl | rfl | rfl <;> decide
  | sum _ | list _ | ternary _ _ _ => decide

/-- The state after a fault at a token. -/
def ParseState.faulted (s : ParseState) (token : Token) (fault : GrammarFault) : ParseState :=
  { s with diagnostics := s.diagnostics ++ [Diagnostic.grammarAt token fault] }

namespace Parse

/-! ## The right part is dropped -/

section Dropped

variable {s : ParseState} {operator semicolon : Token} {ts us : List Token}
  {n m : ReferenceId} {value : Expr}

/-- A step that reads something only to drop it. -/
theorem attempt_fail {α β : Type} {step : Parse α} {t u : ParseState} {a : α}
    (h : step t = .ok a u) : (attempt step >>= fun _ => (fail : Parse β)) t = .failed u := by
  have hattempt : attempt step t = .ok () u := by rw [attempt, h]
  exact bind_eq_failed.2 (.inr ⟨(), u, hattempt, rfl⟩)

theorem semicolon_not_mem_followers {ls : List Level} (hls : ls <:+ levels) :
    TokenKind.semicolon ∉ operandFollowers ls := by
  intro hmem
  rcases List.mem_append.1 hmem with hmem | hmem
  · exact absurd hmem (by decide)
  · obtain ⟨level, hlevel, hk⟩ := List.mem_flatMap.1 hmem
    exact semicolon_not_mem_operators (hls.subset hlevel) hk

/-- A binary operator whose right part is read at tighter levels. -/
theorem settles_primary_operator {ls : List Level}
    (hlevels : operandLevels? operator.kind levels = some ls)
    (h : Derives .standard (.level ls) ⟨ts, n⟩ value ⟨semicolon :: us, m⟩)
    (hsemicolon : semicolon.kind = .semicolon) :
    Settles primary (s.moved ⟨operator :: ts, n⟩)
      (.failed ((s.faulted operator (.missingOperand operator.lexeme)).moved
        ⟨semicolon :: us, m⟩)) := by
  have hls := OrderlyAt.operandLevels?_suffix hlevels
  have hend : Point.nextKind ⟨semicolon :: us, m⟩ ∉ operandFollowers ls := by
    rw [Point.nextKind, List.headD_cons, hsemicolon]
    exact semicolon_not_mem_followers hls
  have hright := Settles.of_reads (fun _ => .binaryLevels hls) fun fuel =>
    Complete.operators (complete h) hls hend fuel
      (s.faulted operator (.missingOperand operator.lexeme))
  refine hright.step fun fuel hfuel => ?_
  rw [primary, peek_bind, ParseState.moved, List.headD_cons]
  generalize operator.kind = kind at hlevels
  split
  all_goals try cases hlevels
  rw [hlevels]
  exact attempt_fail hfuel

theorem settles_primary_comma (hkind : operator.kind = .comma)
    (h : Derives .standard .conditional ⟨ts, n⟩ value ⟨semicolon :: us, m⟩)
    (hsemicolon : semicolon.kind = .semicolon) :
    Settles primary (s.moved ⟨operator :: ts, n⟩)
      (.failed ((s.faulted operator .missingCommaOperand).moved ⟨semicolon :: us, m⟩)) := by
  have hend : Point.nextKind ⟨semicolon :: us, m⟩ ∉ conditionalFollowers := by
    rw [Point.nextKind, List.headD_cons, hsemicolon]
    decide
  have hright := Settles.of_reads (fun _ => .conditional) fun fuel =>
    complete h fuel (s.faulted operator .missingCommaOperand) hend
  refine hright.step fun fuel hfuel => ?_
  rw [primary, peek_bind, ParseState.moved, List.headD_cons, hkind]
  exact attempt_fail hfuel

theorem settles_primary_question {colon : Token} {vs : List Token} {k : ReferenceId}
    {whenFalse : Expr} (hkind : operator.kind = .question)
    (h₁ : Derives .standard .list ⟨ts, n⟩ value ⟨colon :: vs, k⟩) (hcolon : colon.kind = .colon)
    (h₂ : Derives .standard .conditional ⟨vs, k⟩ whenFalse ⟨semicolon :: us, m⟩)
    (hsemicolon : semicolon.kind = .semicolon) :
    Settles primary (s.moved ⟨operator :: ts, n⟩)
      (.failed ((s.faulted operator .missingTernaryCondition).moved ⟨semicolon :: us, m⟩)) := by
  have hend : Point.nextKind ⟨semicolon :: us, m⟩ ∉ conditionalFollowers := by
    rw [Point.nextKind, List.headD_cons, hsemicolon]
    decide
  have hread : ∀ fuel, Reads (strayTernary fuel) (s.faulted operator .missingTernaryCondition)
      ⟨ts, n⟩ whenFalse ⟨semicolon :: us, m⟩ := by
    intro fuel
    rcases fuel with _ | fuel
    · exact .inl rfl
    rw [strayTernary]
    refine .bind (Complete.endedList (complete h₁) hcolon (by decide) fuel _) ?_
    exact .bind (reads_expect hcolon) (complete h₂ fuel _ hend)
  refine (Settles.of_reads (fun _ => .strayTernary) hread).step fun fuel hfuel => ?_
  rw [primary, peek_bind, ParseState.moved, List.headD_cons, hkind]
  exact attempt_fail hfuel

/-- Behind an operator without a left operand the right part is read and dropped. -/
theorem settles_primary
    (h : RightPart operator.kind ⟨ts, n⟩ ⟨semicolon :: us, m⟩)
    (hsemicolon : semicolon.kind = .semicolon) :
    Settles primary (s.moved ⟨operator :: ts, n⟩)
      (.failed ((s.faulted operator operator.strayFault).moved ⟨semicolon :: us, m⟩)) := by
  generalize hkind : operator.kind = kind at h
  cases h with
  | equality hk h =>
    simp only [List.mem_cons, List.not_mem_nil, or_false] at hk
    rcases hk with rfl | rfl <;>
    · rw [Token.strayFault, hkind]
      exact settles_primary_operator (by rw [hkind]; rfl) h hsemicolon
  | comparison hk h =>
    simp only [List.mem_cons, List.not_mem_nil, or_false] at hk
    rcases hk with rfl | rfl | rfl | rfl <;>
    · rw [Token.strayFault, hkind]
      exact settles_primary_operator (by rw [hkind]; rfl) h hsemicolon
  | sum h =>
    rw [Token.strayFault, hkind]
    exact settles_primary_operator (by rw [hkind]; rfl) h hsemicolon
  | product hk h =>
    simp only [List.mem_cons, List.not_mem_nil, or_false] at hk
    rcases hk with rfl | rfl | rfl <;>
    · rw [Token.strayFault, hkind]
      exact settles_primary_operator (by rw [hkind]; rfl) (.tightest h) hsemicolon
  | list h =>
    rw [Token.strayFault, hkind]
    exact settles_primary_comma hkind h hsemicolon
  | ternary h₁ hcolon h₂ =>
    rw [Token.strayFault, hkind]
    exact settles_primary_question hkind h₁ hcolon h₂ hsemicolon

end Dropped

/-! ## A fault of the first primary -/

/-- Where no declaration begins, a primary that fails is a declaration that is dropped. -/
theorem Settles.declaration_of_primary {s t : ParseState} (hs : s.nextKind ∉ declarationStarts)
    (h : Settles primary s (.failed t)) :
    Settles declaration s (.ok none { t with rest := synchronize t.rest }) := by
  have hunary : Settles unary s (.failed t) := h.step fun fuel hfuel => by
    have hnone : accept? [.bang, .minus] s = .ok none s :=
      (accept?_eq _).trans (if_neg fun hk => hs (List.mem_append_right _
        (List.mem_append_right _ (List.mem_append_left _ hk))))
    rw [unary]
    exact bind_eq_failed.2 (.inr ⟨none, s, hnone, bind_eq_failed.2 (.inl hfuel)⟩)
  have hlevels : ∀ ls, Settles (binaryLevels · ls) s (.failed t) := by
    intro ls
    induction ls with
    | nil =>
      refine hunary.step fun fuel hfuel => ?_
      rw [binaryLevels, hfuel]
    | cons level tighter ih =>
      refine ih.step fun fuel hfuel => ?_
      rw [binaryLevels]
      exact bind_eq_failed.2 (.inl hfuel)
  have hassignment : Settles assignment s (.failed t) := (hlevels levels).step fun fuel hfuel => by
    rw [assignment]
    exact bind_eq_failed.2 (.inl hfuel)
  have hconditional : Settles conditional s (.failed t) := hassignment.step fun fuel hfuel => by
    rw [conditional]
    exact bind_eq_failed.2 (.inl hfuel)
  have hlist : Settles expressionList s (.failed t) := hconditional.step fun fuel hfuel => by
    rw [expressionList]
    exact bind_eq_failed.2 (.inl hfuel)
  have hexpression : Settles expressionStatement s (.failed t) :=
    hlist.step fun fuel hfuel => expressionStatement_of_failed hfuel
  have hstatement : Settles statement s (.failed t) := hexpression.step fun fuel hfuel => by
    rw [statement, peek_bind]
    have hkind : (s.rest.headD (Token.finish 1)).kind ∉ declarationStarts := hs
    generalize (s.rest.headD (Token.finish 1)).kind = kind at hkind
    split
    all_goals first | exact hfuel | exact absurd (by decide) hkind
  have hfail : Settles declarationOrFail s (.failed t) := hstatement.step fun fuel hfuel => by
    rw [declarationOrFail, peekKind_bind]
    have hkind : (s.rest.headD (Token.finish 1)).kind ∉ declarationStarts := hs
    generalize (s.rest.headD (Token.finish 1)).kind = kind at hkind
    split
    all_goals first | exact hfuel | exact absurd (by decide) hkind
  exact hfail.step fun fuel hfuel => by rw [declaration, recover, hfuel]

end Parse

/-! ## Programs -/

namespace Program

/-- An operator without its left operand, in front of an error-free right part and a semicolon,
is one fault, which stands at the operator, and no statement.  Then come the statements and the
faults of the tokens behind, with later identities. -/
theorem ofTokens_missingOperand {operator semicolon : Token} {right behind : List Token}
    {firstId nextId : ReferenceId}
    (hright : RightPart operator.kind ⟨right ++ [semicolon], firstId⟩ ⟨[semicolon], nextId⟩)
    (hsemicolon : semicolon.kind = .semicolon) :
    ofTokens (operator :: (right ++ semicolon :: behind)) firstId =
      ({ statements := [], nextId
         diagnostics := [Diagnostic.grammarAt operator operator.strayFault] } :
        Program).followedBy (ofTokens behind 0) := by
  have hstart := hright.not_mem_starts
  have hdeclaration : Parse.Settles Parse.declaration
      (.start (operator :: (right ++ semicolon :: behind)) firstId)
      (.ok none { rest := behind, nextId, loopDepth := 0,
                  diagnostics := [Diagnostic.grammarAt operator operator.strayFault] }) := by
    have hprimary := Parse.settles_primary (s := .start [] 0)
      (hright.replace (semicolon :: behind)) hsemicolon
    have hdropped := Parse.Settles.declaration_of_primary
      (s := .start (operator :: (right ++ semicolon :: behind)) firstId)
      (List.not_mem_of_not_mem_cons hstart) hprimary
    have hsync := (Enclosed.semicolon hsemicolon).synchronize behind
    rw [List.singleton_append] at hsync
    simp only [ParseState.moved, ParseState.faulted, hsync] at hdropped
    exact hdropped
  exact ofTokens_of_declaration (fun he => hstart (he ▸ List.mem_cons_self ..)) hdeclaration rfl

/-- The tokens of `fun (x) { print x; }`. -/
def printing : List Token :=
  [word .funKeyword "fun", word .leftParen "(", word .identifier "x", word .rightParen ")",
    word .leftBrace "\x7b", word .printKeyword "print", word .identifier "x",
    word .semicolon ";", word .rightBrace "\x7d"]

theorem printing_derives (us : List Token) :
    Derives .standard .primary ⟨printing ++ us, 7⟩
      (.function { name := none, parameters := [word .identifier "x"],
                   body := [.print (.variable 7 (word .identifier "x"))] }) ⟨us, 8⟩ := by
  have hx : ∀ ts, Derives .standard .list ⟨word .identifier "x" :: ts, 7⟩
      (.variable 7 (word .identifier "x")) ⟨ts, 8⟩ := fun ts =>
    .single (.unconditional (.noAssignment (derives_level_of_primary (.reference rfl) levels)))
  have hbody : Derives .standard (.declarations false) ⟨printing.drop 5 ++ us, 7⟩ _
      ⟨word .rightBrace "\x7d" :: us, 8⟩ :=
    .moreDeclarations (.plainStatement (.printStatement rfl (hx _) rfl)) .noDeclaration
  exact .function rfl (.functionWith rfl (.lastParameter rfl) (show 1 ≤ maxArguments by decide)
    rfl rfl hbody rfl)

theorem ofTokens_missingOperand_printing :
    ofTokens (word .equalEqual "==" :: (printing ++ word .semicolon ";" ::
        [word .identifier "y", word .semicolon ";", Token.finish 1])) 7 =
      { statements := [.expression (.variable 8 (word .identifier "y"))]
        nextId := 9
        diagnostics := [Diagnostic.grammarAt (word .equalEqual "==") (.missingOperand "==")] } :=
  (ofTokens_missingOperand (.equality (by decide)
    (derives_level_of_primary (printing_derives _) _)) rfl).trans rfl

end Program

end TreeScript
