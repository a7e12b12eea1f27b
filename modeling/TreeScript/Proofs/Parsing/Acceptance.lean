import TreeScript.Proofs.Parsing.Completeness

/-!
# What a parser accepts

* `intoLoop` — a statement may also stand in a loop
* `absorb` — a statement that dangles takes an `else` that follows it
* `settled` — if it is left open which branch an `else` belongs to, there is also a
  derivation in which it belongs to the nearest one
* `ofTokens_derives_iff` — a program is parsed without a fault if and only if its
  tokens derive declarations, and then to the tree of the derivation
-/

namespace TreeScript

/-! ## Every `else` finds the nearest branch -/

/-- What a derivation says of the same tokens in a loop. -/
def InLoop (c : Convention) : (symbol : Symbol) → Point → symbol.Tree → Point → Prop
  | .declarations _, p, v, q => Derives c (.declarations true) p v q
  | .declaration _, p, v, q => Derives c (.declaration true) p v q
  | .statement _ d, p, v, q => Derives c (.statement true d) p v q
  | _, _, _, _ => True

theorem intoLoop {c : Convention} {symbol : Symbol} {p q : Point} {v : symbol.Tree}
    (h : Derives c symbol p v q) : InLoop c symbol p v q := by
  induction h with
  | noDeclaration => exact .noDeclaration
  | moreDeclarations _ _ ih₁ ih₂ => exact .moreDeclarations ih₁ ih₂
  | classDeclaration hkey hname hopening h hclosing _ =>
    exact .classDeclaration hkey hname hopening h hclosing
  | functionDeclaration hkey hname h _ => exact .functionDeclaration hkey hname h
  | variableDeclaration hkey h _ => exact .variableDeclaration hkey h
  | plainStatement _ ih => exact .plainStatement ih
  | forStatement hkey hlp h₁ h₂ hfinish h₃ hrp h₄ _ _ _ _ =>
    exact .forStatement hkey hlp h₁ h₂ hfinish h₃ hrp h₄
  | branch hkey hlp h hrp _ _ ih => exact .branch hkey hlp h hrp ih
  | branches hkey hlp h hrp _ hd hother _ _ ih₂ ih₃ =>
    exact .branches hkey hlp h hrp ih₂ hd hother ih₃
  | printStatement hkey h hfinish _ => exact .printStatement hkey h hfinish
  | returnWithout hkey hfinish => exact .returnWithout hkey hfinish
  | returnWith hkey h hfinish _ => exact .returnWith hkey h hfinish
  | whileStatement hkey hlp h₁ hrp h₂ _ _ => exact .whileStatement hkey hlp h₁ hrp h₂
  | breakStatement hkey hfinish => exact .breakStatement hkey hfinish
  | block hopening _ hclosing ih => exact .block hopening ih hclosing
  | functionStatement hkey hname h _ => exact .functionStatement hkey hname h
  | expressionStatement h hfinish _ => exact .expressionStatement h hfinish
  | _ => trivial

/-- A dangling statement takes an `else` that follows it, for the nearest of its
branches that are open. -/
def Absorbs : (symbol : Symbol) → Point → symbol.Tree → Point → Prop
  | .statement l true, p, _, q => ∀ other ts n e whenFalse r, q = ⟨other :: ts, n⟩ →
    other.kind = .elseKeyword → Derives .standard (.statement l e) ⟨ts, n⟩ whenFalse r →
      ∃ d v, Derives .standard (.statement l d) p v r
  | _, _, _, _ => True

theorem absorb {symbol : Symbol} {p q : Point} {v : symbol.Tree}
    (h : Derives .standard symbol p v q) : Absorbs symbol p v q := by
  induction h with
  | @forStatement l d _ _ _ _ _ _ _ _ _ _ _ _ _ _ _ _ hkey hlp h₁ h₂ hfinish h₃ hrp _
      _ _ _ ih =>
    cases d with
    | false => trivial
    | true =>
      intro other ts n e whenFalse r hq hother hf
      obtain ⟨d, body, h₄⟩ := ih other ts n e whenFalse r hq hother (intoLoop hf)
      exact ⟨d, _, .forStatement hkey hlp h₁ h₂ hfinish h₃ hrp h₄⟩
  | @branch l d _ _ _ _ _ _ _ _ _ _ hkey hlp h hrp ht _ ih =>
    intro other ts n e whenFalse r hq hother hf
    subst hq
    cases d with
    | false => exact ⟨e, _, .branches hkey hlp h hrp ht (fun _ => rfl) hother hf⟩
    | true =>
      obtain ⟨d, whenTrue, ht⟩ := ih other ts n e whenFalse r rfl hother hf
      exact ⟨true, _, .branch hkey hlp h hrp ht⟩
  | @branches l d e _ _ _ _ _ _ _ _ _ _ _ _ _ _ hkey hlp h hrp ht hd hother _ _ _ ih =>
    cases e with
    | false => trivial
    | true =>
      intro other' ts n e whenFalse r hq hother' hf
      obtain ⟨e, whenFalse, hw⟩ := ih other' ts n e whenFalse r hq hother' hf
      exact ⟨e, _, .branches hkey hlp h hrp ht hd hother hw⟩
  | @whileStatement l d _ _ _ _ _ _ _ _ _ _ hkey hlp h hrp _ _ ih =>
    cases d with
    | false => trivial
    | true =>
      intro other ts n e whenFalse r hq hother hf
      obtain ⟨d, body, hb⟩ := ih other ts n e whenFalse r hq hother (intoLoop hf)
      exact ⟨d, _, .whileStatement hkey hlp h hrp hb⟩
  | _ => trivial

/-- What a derivation with an open `else` says of the nearest branches.  Parameters stay
as they are, and arguments as many as they are. -/
def Settled : (symbol : Symbol) → Point → symbol.Tree → Point → Prop
  | .statement l _, p, _, q => ∃ d v, Derives .standard (.statement l d) p v q
  | .parameters, p, v, q => Derives .standard .parameters p v q
  | .arguments, p, v, q => ∃ w, w.length = v.length ∧ Derives .standard .arguments p w q
  | symbol, p, _, q => ∃ v, Derives .standard symbol p v q

theorem settled {symbol : Symbol} {p q : Point} {v : symbol.Tree}
    (h : Derives .openElse symbol p v q) : Settled symbol p v q := by
  induction h with
  | noDeclaration => exact ⟨_, .noDeclaration⟩
  | moreDeclarations _ _ ih₁ ih₂ =>
    obtain ⟨first, h₁⟩ := ih₁
    obtain ⟨rest, h₂⟩ := ih₂
    exact ⟨_, .moreDeclarations h₁ h₂⟩
  | classDeclaration hkey hname hopening _ hclosing ih =>
    obtain ⟨found, h⟩ := ih
    exact ⟨_, .classDeclaration hkey hname hopening h hclosing⟩
  | functionDeclaration hkey hname _ ih =>
    obtain ⟨⟨parameters, body⟩, h⟩ := ih
    exact ⟨_, .functionDeclaration hkey hname h⟩
  | variableDeclaration hkey _ ih =>
    obtain ⟨v, h⟩ := ih
    exact ⟨_, .variableDeclaration hkey h⟩
  | plainStatement _ ih =>
    obtain ⟨d, v, h⟩ := ih
    exact ⟨_, .plainStatement h⟩
  | noMethod => exact ⟨_, .noMethod⟩
  | namedMethod _ hname _ _ ih₁ ih₂ =>
    obtain ⟨⟨parameters, body⟩, h₁⟩ := ih₁
    obtain ⟨rest, h₂⟩ := ih₂
    exact ⟨_, .namedMethod rfl hname h₁ h₂⟩
  | namelessMethod hc => cases hc
  | functionWithout hlp hrp hlb _ hrb ih =>
    obtain ⟨body, h⟩ := ih
    exact ⟨_, .functionWithout hlp hrp hlb h hrb⟩
  | functionWith hlp _ hle hrp hlb _ hrb ih₁ ih₂ =>
    obtain ⟨body, h⟩ := ih₂
    exact ⟨_, .functionWith hlp ih₁ hle hrp hlb h hrb⟩
  | lastParameter hname => exact .lastParameter hname
  | moreParameters hname hcomma _ ih => exact .moreParameters hname hcomma ih
  | variableWithout hname hfinish => exact ⟨_, .variableWithout hname hfinish⟩
  | variableWith hname hequals _ hfinish ih =>
    obtain ⟨value, h⟩ := ih
    exact ⟨_, .variableWith hname hequals h hfinish⟩
  | forStatement hkey hlp _ _ hfinish _ hrp _ ih₁ ih₂ ih₃ ih₄ =>
    obtain ⟨start, h₁⟩ := ih₁
    obtain ⟨condition, h₂⟩ := ih₂
    obtain ⟨increment, h₃⟩ := ih₃
    obtain ⟨d, body, h₄⟩ := ih₄
    exact ⟨d, _, .forStatement hkey hlp h₁ h₂ hfinish h₃ hrp h₄⟩
  | branch hkey hlp _ hrp _ ih₁ ih₂ =>
    obtain ⟨condition, h₁⟩ := ih₁
    obtain ⟨d, whenTrue, h₂⟩ := ih₂
    exact ⟨true, _, .branch hkey hlp h₁ hrp h₂⟩
  | branches hkey hlp _ hrp _ _ hother _ ih₁ ih₂ ih₃ =>
    obtain ⟨condition, h₁⟩ := ih₁
    obtain ⟨d, whenTrue, h₂⟩ := ih₂
    obtain ⟨e, whenFalse, h₃⟩ := ih₃
    cases d with
    | false => exact ⟨e, _, .branches hkey hlp h₁ hrp h₂ (fun _ => rfl) hother h₃⟩
    | true =>
      -- the `else` belongs to a branch inside, so the outer one has none
      obtain ⟨d, whenTrue, h₂⟩ := absorb h₂ _ _ _ _ _ _ rfl hother h₃
      exact ⟨true, _, .branch hkey hlp h₁ hrp h₂⟩
  | printStatement hkey _ hfinish ih =>
    obtain ⟨value, h⟩ := ih
    exact ⟨false, _, .printStatement hkey h hfinish⟩
  | returnWithout hkey hfinish => exact ⟨false, _, .returnWithout hkey hfinish⟩
  | returnWith hkey _ hfinish ih =>
    obtain ⟨value, h⟩ := ih
    exact ⟨false, _, .returnWith hkey h hfinish⟩
  | whileStatement hkey hlp _ hrp _ ih₁ ih₂ =>
    obtain ⟨condition, h₁⟩ := ih₁
    obtain ⟨d, body, h₂⟩ := ih₂
    exact ⟨d, _, .whileStatement hkey hlp h₁ hrp h₂⟩
  | breakStatement hkey hfinish => exact ⟨false, _, .breakStatement hkey hfinish⟩
  | block hopening _ hclosing ih =>
    obtain ⟨body, h⟩ := ih
    exact ⟨false, _, .block hopening h hclosing⟩
  | functionStatement hkey hname _ ih =>
    obtain ⟨⟨parameters, body⟩, h⟩ := ih
    exact ⟨false, _, .functionStatement hkey hname h⟩
  | expressionStatement _ hfinish ih =>
    obtain ⟨value, h⟩ := ih
    exact ⟨false, _, .expressionStatement h hfinish⟩
  | noInitializer hfinish => exact ⟨_, .noInitializer hfinish⟩
  | variableInitializer hkey _ ih =>
    obtain ⟨v, h⟩ := ih
    exact ⟨_, .variableInitializer hkey h⟩
  | expressionInitializer _ hfinish ih =>
    obtain ⟨value, h⟩ := ih
    exact ⟨_, .expressionInitializer h hfinish⟩
  | noList => exact ⟨_, .noList⟩
  | someList _ ih =>
    obtain ⟨value, h⟩ := ih
    exact ⟨_, .someList h⟩
  | single _ ih =>
    obtain ⟨value, h⟩ := ih
    exact ⟨_, .single h⟩
  | comma _ hoperator _ ih₁ ih₂ =>
    obtain ⟨left, h₁⟩ := ih₁
    obtain ⟨right, h₂⟩ := ih₂
    exact ⟨_, .comma h₁ hoperator h₂⟩
  | unconditional _ ih =>
    obtain ⟨value, h⟩ := ih
    exact ⟨_, .unconditional h⟩
  | ternary _ hquestion _ hcolon _ ih₁ ih₂ ih₃ =>
    obtain ⟨condition, h₁⟩ := ih₁
    obtain ⟨whenTrue, h₂⟩ := ih₂
    obtain ⟨whenFalse, h₃⟩ := ih₃
    exact ⟨_, .ternary h₁ hquestion h₂ hcolon h₃⟩
  | nameAssignment hname hequals _ ih =>
    obtain ⟨value, h⟩ := ih
    exact ⟨_, .nameAssignment hname hequals h⟩
  | propertyAssignment _ hdot hname hequals _ ih₁ ih₂ =>
    obtain ⟨object, h₁⟩ := ih₁
    obtain ⟨value, h₂⟩ := ih₂
    exact ⟨_, .propertyAssignment h₁ hdot hname hequals h₂⟩
  | noAssignment _ ih =>
    obtain ⟨value, h⟩ := ih
    exact ⟨_, .noAssignment h⟩
  | tighter _ ih =>
    obtain ⟨value, h⟩ := ih
    exact ⟨_, .tighter h⟩
  | operation _ hoperator _ ih₁ ih₂ =>
    obtain ⟨left, h₁⟩ := ih₁
    obtain ⟨right, h₂⟩ := ih₂
    exact ⟨_, .operation h₁ hoperator h₂⟩
  | tightest _ ih =>
    obtain ⟨value, h⟩ := ih
    exact ⟨_, .tightest h⟩
  | unaryOperation hoperator _ ih =>
    obtain ⟨operand, h⟩ := ih
    exact ⟨_, .unaryOperation hoperator h⟩
  | noOperation _ ih =>
    obtain ⟨value, h⟩ := ih
    exact ⟨_, .noOperation h⟩
  | noCall _ ih =>
    obtain ⟨value, h⟩ := ih
    exact ⟨_, .noCall h⟩
  | callWithout _ hlp hrp ih =>
    obtain ⟨callee, h⟩ := ih
    exact ⟨_, .callWithout h hlp hrp⟩
  | callWith _ hlp _ hle hrp ih₁ ih₂ =>
    obtain ⟨callee, h₁⟩ := ih₁
    obtain ⟨found, hlen, h₂⟩ := ih₂
    exact ⟨_, .callWith h₁ hlp h₂ (hlen ▸ hle) hrp⟩
  | property _ hdot hname ih =>
    obtain ⟨object, h⟩ := ih
    exact ⟨_, .property h hdot hname⟩
  | lastArgument _ ih =>
    obtain ⟨value, h⟩ := ih
    exact ⟨[value], rfl, .lastArgument h⟩
  | moreArguments _ hseparator _ ih₁ ih₂ =>
    obtain ⟨first, h₁⟩ := ih₁
    obtain ⟨rest, hlen, h₂⟩ := ih₂
    exact ⟨first :: rest, by rw [List.length_cons, hlen, List.length_cons],
      .moreArguments h₁ hseparator h₂⟩
  | falsity hkey => exact ⟨_, .falsity hkey⟩
  | truth hkey => exact ⟨_, .truth hkey⟩
  | absence hkey => exact ⟨_, .absence hkey⟩
  | literal htoken => exact ⟨_, .literal htoken⟩
  | reference hname => exact ⟨_, .reference hname⟩
  | self hkey => exact ⟨_, .self hkey⟩
  | function hkey _ ih =>
    obtain ⟨⟨parameters, body⟩, h⟩ := ih
    exact ⟨_, .function hkey h⟩
  | grouping hlp _ hrp ih =>
    obtain ⟨inner, h⟩ := ih
    exact ⟨_, .grouping hlp h hrp⟩

/-! ## Programs -/

/-- The state in which parsing a program begins. -/
def ParseState.start (tokens : List Token) (firstId : ReferenceId) : ParseState :=
  { rest := tokens, nextId := firstId, loopDepth := 0, diagnostics := [] }

namespace Program

variable {tokens : List Token} {firstId : ReferenceId}

/-- A program is what the rule of declarations gives. -/
theorem ofTokens_of_ok {found : List Stmt} {t : ParseState}
    (h : Parse.declarations (32 * (tokens.length + 1)) false (.start tokens firstId) =
      .ok found t) :
    Program.ofTokens tokens firstId =
      { statements := found, nextId := t.nextId, diagnostics := t.diagnostics } := by
  unfold Program.ofTokens
  rw [ParseState.start] at h
  simp only [h]

/-- A program without a fault was read to its end. -/
theorem ok_of_no_fault (h : (Program.ofTokens tokens firstId).diagnostics = []) :
    ∃ found t, Parse.declarations (32 * (tokens.length + 1)) false
      (.start tokens firstId) = .ok found t ∧ t.diagnostics = [] := by
  have hne := Parse.declarations_ne_outOfFuel (.start tokens firstId) false
  have ho := (Parse.orderly (32 * (tokens.length + 1))).declarations false
    (.start tokens firstId)
  change Parse.declarations (32 * (tokens.length + 1)) _ _ ≠ _ at hne
  cases hr : Parse.declarations (32 * (tokens.length + 1)) false (.start tokens firstId) with
  | ok found t =>
    rw [ofTokens_of_ok hr] at h
    exact ⟨found, t, rfl, h⟩
  | failed t =>
    -- a rule fails only at a new diagnostic
    rw [hr] at ho
    unfold Program.ofTokens at h
    rw [ParseState.start] at hr
    simp only [hr] at h
    have := ho.2
    rw [h] at this
    exact absurd this (Nat.not_lt_zero _)
  | outOfFuel => exact absurd hr hne

/-- An end mark that is the only one and the last token is what is left at the end. -/
theorem rest_eq_finish {words rest : List Token} {finish : Token}
    (hwords : ∀ token ∈ words, token.kind ≠ .endOfInput)
    (hrest : rest <:+ words ++ [finish]) (hmem : finish ∈ rest)
    (hend : (rest.headD (Token.finish 1)).kind = .endOfInput) : rest = [finish] := by
  obtain ⟨before, hb⟩ := hrest
  cases rest with
  | nil => cases hmem
  | cons first rest =>
    cases rest using List.reverseRecOn with
    | nil =>
      rw [List.mem_singleton.1 hmem]
    | append_singleton middle last _ =>
      -- another token follows the mark, so the mark is one of the words
      have hb' : (before ++ first :: middle) ++ [last] = words ++ [finish] := by
        rw [← hb, List.append_assoc, List.cons_append]
      have hfirst : first ∈ words := (List.append_inj' hb' rfl).1 ▸ by simp
      exact absurd hend (hwords first hfirst)

variable {words : List Token} {finish : Token}

/-- A program without a fault is derived, whichever branch an `else` may belong to. -/
theorem derives_of_no_fault {c : Convention} (hc : c.namedMethods = true)
    (hwords : ∀ token ∈ words, token.kind ≠ .endOfInput) (hfinish : finish.kind = .endOfInput)
    (h : (Program.ofTokens (words ++ [finish]) firstId).diagnostics = []) :
    Derives c (.declarations false) ⟨words ++ [finish], firstId⟩
      (Program.ofTokens (words ++ [finish]) firstId).statements
      ⟨[finish], (Program.ofTokens (words ++ [finish]) firstId).nextId⟩ := by
  obtain ⟨found, t, hok, ht⟩ := ok_of_no_fault h
  have hg := ((Parse.orderly _).declarations false).grows hok
  obtain ⟨hd, hend⟩ := Parse.declarations_sound hc hok (by simp [ParseState.Quiet, ht])
  have hrest : t.rest = [finish] :=
    rest_eq_finish hwords hg.rest (hg.marks finish (by simp [ParseState.start]) hfinish) hend
  rw [ofTokens_of_ok hok]
  rw [ParseState.point, ParseState.point, hrest] at hd
  exact hd

/-- A derivation of a program is its parse. -/
theorem ofTokens_of_derives {found : List Stmt} {nextId : ReferenceId}
    (hfinish : finish.kind = .endOfInput)
    (h : Derives .standard (.declarations false) ⟨tokens, firstId⟩ found
      ⟨[finish], nextId⟩) :
    Program.ofTokens tokens firstId =
      { statements := found, nextId, diagnostics := [] } := by
  rcases Parse.complete h (32 * (tokens.length + 1)) false (.start tokens firstId) rfl
    (.inl hfinish) with hr | hr
  · exact absurd hr (Parse.declarations_ne_outOfFuel (.start tokens firstId) false)
  · exact ofTokens_of_ok hr

/-- A program is parsed without a fault if and only if its tokens derive declarations,
and what is parsed then is the only derivation in which every `else` belongs to the
nearest open branch. -/
theorem ofTokens_derives_iff (words : List Token) (finish : Token) (firstId : ReferenceId)
    (hwords : ∀ token ∈ words, token.kind ≠ .endOfInput)
    (hfinish : finish.kind = .endOfInput) :
    ((Program.ofTokens (words ++ [finish]) firstId).diagnostics = [] ↔
      ∃ found nextId, Derives .openElse (.declarations false) ⟨words ++ [finish], firstId⟩
        found ⟨[finish], nextId⟩) ∧
    ∀ found nextId, Derives .standard (.declarations false) ⟨words ++ [finish], firstId⟩
        found ⟨[finish], nextId⟩ ↔
      Program.ofTokens (words ++ [finish]) firstId =
        { statements := found, nextId, diagnostics := [] } := by
  refine ⟨⟨fun h => ⟨_, _, derives_of_no_fault rfl hwords hfinish h⟩, ?_⟩,
    fun found nextId => ⟨ofTokens_of_derives hfinish, fun h => ?_⟩⟩
  · rintro ⟨found, nextId, hd⟩
    obtain ⟨found, hd⟩ := settled hd
    rw [ofTokens_of_derives hfinish hd]
  · have hd := derives_of_no_fault (c := .standard) rfl hwords hfinish (by rw [h])
    rw [h] at hd
    exact hd

/-- A token without a payload, on the first line. -/
def word (kind : TokenKind) (lexeme : String) : Token :=
  { kind, lexeme, literal := none, line := 1 }

/-- The tokens of `if (a) if (b) break; else print nil;` in the body of a loop. -/
def danglingElse : List Token :=
  [word .whileKeyword "while", word .leftParen "(", word .trueKeyword "true",
    word .rightParen ")", word .ifKeyword "if", word .leftParen "(", word .identifier "a",
    word .rightParen ")", word .ifKeyword "if", word .leftParen "(", word .identifier "b",
    word .rightParen ")", word .breakKeyword "break", word .semicolon ";",
    word .elseKeyword "else", word .printKeyword "print", word .nilKeyword "nil",
    word .semicolon ";"]

theorem danglingElse_derives :
    Derives .standard (.declarations false) ⟨danglingElse ++ [Token.finish 1], 0⟩
      [.loop (.constant (.bool true))
        (.conditional (.variable 0 (word .identifier "a"))
          (.conditional (.variable 1 (word .identifier "b"))
            (.leave (word .breakKeyword "break")) (some (.print (.constant .nil))))
          none)]
      ⟨[Token.finish 1], 2⟩ :=
  ((ofTokens_derives_iff danglingElse (Token.finish 1) 0 (by decide) rfl).2 _ _).2 (by cbv)

/-- The tokens of `class A { () {} }`. -/
def namelessMethod : List Token :=
  [word .classKeyword "class", word .identifier "A", word .leftBrace "\x7b",
    word .leftParen "(", word .rightParen ")", word .leftBrace "\x7b", word .rightBrace "\x7d",
    word .rightBrace "\x7d"]

/-- The printed rules derive a method without a name, but it is not accepted. -/
theorem namelessMethod_not_accepted :
    ¬ ((Program.ofTokens (namelessMethod ++ [Token.finish 1]) 0).diagnostics = [] ↔
      ∃ found nextId, Derives .printed (.declarations false)
        ⟨namelessMethod ++ [Token.finish 1], 0⟩ found ⟨[Token.finish 1], nextId⟩) := by
  intro h
  have hd : Derives .printed (.declarations false) ⟨namelessMethod ++ [Token.finish 1], 0⟩
      [.classDecl (word .identifier "A") [{ name := none, parameters := [], body := [] }]]
      ⟨[Token.finish 1], 0⟩ :=
    .moreDeclarations
      (.classDeclaration rfl rfl rfl
        (.namelessMethod rfl (.functionWithout rfl rfl rfl .noDeclaration rfl) .noMethod) rfl)
      .noDeclaration
  have hf : (Program.ofTokens (namelessMethod ++ [Token.finish 1]) 0).diagnostics.length = 1 :=
    rfl
  rw [h.2 ⟨_, _, hd⟩] at hf
  cases hf

end Program

end TreeScript
