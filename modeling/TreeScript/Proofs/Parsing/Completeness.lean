import TreeScript.Proofs.Parsing.Soundness
import Mathlib.Data.List.Infix

/-!
# What is derived is parsed

* `Symbol.Begins` — the tokens at which a symbol can begin
* `Reads` — a step gives a value between two points, unless its fuel runs out
* `Leads` — a step comes to the head of its loop with a value
* `Complete` — what the rule of a symbol does on a derivation of the symbol
* `complete` — it does so on every derivation

A rule decides by the next token, so a derivation is read only if no token follows it
that would carry it on.  A symbol that is left-recursive is read by a loop; its
derivations lead to the head of the loop.
-/

namespace TreeScript

/-- The kind of the next token at a point. -/
def Point.nextKind (p : Point) : TokenKind :=
  (p.tokens.headD (Token.finish 1)).kind

/-! ## Where a symbol begins -/

/-- The kinds of the tokens at which a call begins. -/
def callStarts : List TokenKind :=
  [.falseKeyword, .trueKeyword, .nilKeyword, .number, .string, .identifier, .thisKeyword,
    .funKeyword, .leftParen]

/-- The kinds of the tokens at which an expression begins. -/
def expressionStarts : List TokenKind :=
  [.bang, .minus] ++ callStarts

/-- The kinds of the tokens at which a statement begins. -/
def statementStarts : List TokenKind :=
  [.forKeyword, .ifKeyword, .printKeyword, .returnKeyword, .whileKeyword, .breakKeyword,
    .leftBrace] ++ expressionStarts

/-- The kinds of the tokens at which a declaration begins. -/
def declarationStarts : List TokenKind :=
  [.classKeyword, .varKeyword] ++ statementStarts

/-- A function that begins an expression has no name. -/
def Point.Inline (p : Point) : Prop :=
  p.nextKind = .funKeyword → (p.tokens.drop 1).head?.map Token.kind ≠ some .identifier

/-- The tokens at which a symbol can begin. -/
def Symbol.Begins : Symbol → Point → Prop
  | .declaration _, p => p.nextKind ∈ declarationStarts
  | .statement _ _, p => p.nextKind ∈ statementStarts
  | .function, p => p.nextKind = .leftParen
  | .parameters, p => p.nextKind = .identifier
  | .list, p | .conditional, p | .assignment, p | .level _, p | .unary, p | .arguments, p =>
    p.nextKind ∈ expressionStarts ∧ p.Inline
  | .call, p | .primary, p => p.nextKind ∈ callStarts ∧ p.Inline
  | _, _ => True

theorem Point.Inline.of_ne {p : Point} (h : p.nextKind ≠ .funKeyword) : p.Inline :=
  fun hk => absurd hk h

/-- A call begins like an expression. -/
theorem Symbol.Begins.expression {p : Point} (h : Symbol.call.Begins p) :
    Symbol.unary.Begins p :=
  ⟨List.mem_append_right _ h.1, h.2⟩

theorem begins {c : Convention} {s : Symbol} {p q : Point} {v : s.Tree}
    (h : Derives c s p v q) : s.Begins p := by
  induction h
  -- a rule that begins with a symbol
  case plainStatement ih => exact List.mem_append_right _ ih
  case expressionStatement ih => exact List.mem_append_right _ ih.1
  case single ih | unconditional ih | noAssignment ih | tighter ih | tightest ih | noCall ih
    | lastArgument ih => exact ih
  case comma ih _ | ternary ih _ _ | operation ih _ | callWithout ih | callWith ih _
    | property ih | moreArguments ih _ => exact ih
  case propertyAssignment ih _ => exact ih.expression
  case noOperation ih => exact ih.expression
  -- a rule that begins with a token
  case functionWithout hk _ _ _ _ _ => exact hk
  case functionWith hk _ _ _ _ _ _ _ _ => exact hk
  case lastParameter hk => exact hk
  case moreParameters hk _ _ _ => exact hk
  case function ts _ _ _ _ hk _ ih =>
    refine ⟨by simp [Point.nextKind, hk, callStarts], fun _ => ?_⟩
    cases ts with
    | nil => cases ih
    | cons t ts =>
      have ht : t.kind = .leftParen := ih
      simp [ht]
  case unaryOperation hk _ _ =>
    refine ⟨List.mem_append_left _ hk, .of_ne fun h => ?_⟩
    rw [Point.nextKind, List.headD_cons] at h
    simp [h] at hk
  case literal hk =>
    refine ⟨?_, .of_ne fun h => ?_⟩
    · simp only [List.mem_cons, List.not_mem_nil, or_false] at hk
      rcases hk with hk | hk <;> simp [Point.nextKind, hk, callStarts]
    · rw [Point.nextKind, List.headD_cons] at h
      simp [h] at hk
  case falsity hk | truth hk | absence hk | reference hk | self hk =>
    exact ⟨by simp [Point.nextKind, hk, callStarts], .of_ne (by simp [Point.nextKind, hk])⟩
  case grouping hk _ _ _ | nameAssignment hk _ _ _ =>
    exact ⟨by simp [Point.nextKind, hk, expressionStarts, callStarts],
      .of_ne (by simp [Point.nextKind, hk])⟩
  all_goals first
    | trivial
    | simp_all [Symbol.Begins, Point.nextKind, declarationStarts, statementStarts,
        expressionStarts, callStarts]

/-! ## What follows a symbol -/

/-- The kinds of the tokens that carry on an operand of the given levels: calls,
properties and the operators. -/
def operandFollowers (ls : List Level) : List TokenKind :=
  [.leftParen, .dot] ++ ls.flatMap Level.operators

/-- The kinds of the tokens that carry on an assignment. -/
def assignmentFollowers : List TokenKind :=
  .equal :: operandFollowers levels

/-- The kinds of the tokens that carry on a conditional expression. -/
def conditionalFollowers : List TokenKind :=
  .question :: assignmentFollowers

/-- No operator of a level carries on an operand of a tighter one. -/
theorem operator_not_mem_followers {level : Level} {tighter : List Level}
    (hs : level :: tighter <:+ levels) {k : TokenKind} (hk : k ∈ level.operators) :
    k ∉ operandFollowers tighter := by
  have h : ∀ ls ∈ levels.tails, ∀ k ∈ ls.head?.toList.flatMap Level.operators,
      k ∉ operandFollowers ls.tail := by decide
  exact h _ ((List.mem_tails ..).2 hs) k (by simpa using hk)

/-! ## Reading -/

/-- The state that stands at a point. -/
def ParseState.moved (s : ParseState) (p : Point) : ParseState :=
  { s with rest := p.tokens, nextId := p.nextId }

namespace Parse

variable {α β : Type} {s : ParseState} {p q r : Point}

/-- A step gives a value between two points, unless its fuel runs out. -/
def Reads (step : Parse α) (s : ParseState) (p : Point) (v : α) (q : Point) : Prop :=
  step (s.moved p) = .outOfFuel ∨ step (s.moved p) = .ok v (s.moved q)

/-- A step comes to the head of its loop with a value, unless its fuel runs out. -/
def Leads (step : Parse β) (loop : Nat → α → Parse β) (s : ParseState) (p : Point) (v : α)
    (q : Point) : Prop :=
  step (s.moved p) = .outOfFuel ∨ ∃ fuel, step (s.moved p) = loop fuel v (s.moved q)

theorem Reads.pure (v : α) : Reads (Pure.pure v) s p v p :=
  .inr rfl

theorem Reads.bind {first : Parse α} {next : α → Parse β} {a : α} {b : β}
    (h : Reads first s p a q) (hn : Reads (next a) s q b r) :
    Reads (first >>= next) s p b r := by
  show Parse.bind first next (s.moved p) = _ ∨ Parse.bind first next (s.moved p) = _
  unfold Parse.bind
  rcases h with h | h <;> rw [h]
  · exact .inl rfl
  · exact hn

theorem Leads.reads {step : Parse β} {loop : Nat → α → Parse β} {a : α} {b : β}
    (h : Leads step loop s p a q) (hl : ∀ fuel, Reads (loop fuel a) s q b r) :
    Reads step s p b r := by
  rcases h with h | ⟨fuel, h⟩
  · exact .inl h
  · rw [Reads, h]
    exact hl fuel

/-- A loop that goes on comes to its head again. -/
theorem Leads.loop {step : Parse β} {loop : Nat → α → Parse β} {a b : α}
    (h : Leads step loop s p a q) (h0 : ∀ a, loop 0 a = stuck)
    (hl : ∀ fuel, Leads (loop (fuel + 1) a) loop s q b r) : Leads step loop s p b r := by
  rcases h with h | ⟨fuel, h⟩
  · exact .inl h
  · rw [Leads, h]
    cases fuel with
    | zero =>
      rw [h0]
      exact .inl rfl
    | succ fuel => exact hl fuel

/-- A step at the head of its loop, after another step. -/
theorem Leads.of_bind {γ : Type} {first : Parse γ} {next : γ → Parse β}
    {loop : Nat → α → Parse β} {c : γ} {b : α} (h : Reads first s p c q)
    (hn : Leads (next c) loop s q b r) : Leads (first >>= next) loop s p b r := by
  show Parse.bind first next (s.moved p) = _ ∨ ∃ _, Parse.bind first next (s.moved p) = _
  unfold Parse.bind
  rcases h with h | h <;> rw [h]
  · exact .inl rfl
  · exact hn

theorem Leads.head {loop : Nat → α → Parse β} (fuel : Nat) (a : α) :
    Leads (loop fuel a) loop s p a p :=
  .inr ⟨fuel, rfl⟩

/-! ### Primitive steps -/

variable {t : Token} {ts : List Token} {n : ReferenceId}

theorem reads_advance : Reads advance s ⟨t :: ts, n⟩ () ⟨ts, n⟩ :=
  .inr rfl

theorem reads_newId : Reads newId s ⟨ts, n⟩ n ⟨ts, n + 1⟩ :=
  .inr rfl

theorem reads_expect {slot : Slot} (hk : t.kind = slot.kind) :
    Reads (expect slot) s ⟨t :: ts, n⟩ t ⟨ts, n⟩ := by
  refine .inr ?_
  rw [expect_eq, if_pos (show ((s.moved ⟨t :: ts, n⟩).rest.headD _).kind = _ from hk)]
  rfl

theorem reads_accept_some {kinds : List TokenKind} (hk : t.kind ∈ kinds) :
    Reads (accept? kinds) s ⟨t :: ts, n⟩ (some t) ⟨ts, n⟩ := by
  refine .inr ?_
  rw [accept?_eq, if_pos (show ((s.moved ⟨t :: ts, n⟩).rest.headD _).kind ∈ _ from hk)]
  rfl

theorem reads_accept_none {kinds : List TokenKind} (hk : p.nextKind ∉ kinds) :
    Reads (accept? kinds) s p none p := by
  refine .inr ?_
  rw [accept?_eq, if_neg (show ((s.moved p).rest.headD _).kind ∉ _ from hk)]

theorem reads_unlessNext_none {kind : TokenKind} {step : Parse α} (hk : p.nextKind = kind) :
    Reads (unlessNext kind step) s p none p := by
  refine .inr ?_
  rw [unlessNext, peekKind_bind,
    if_pos (show ((s.moved p).rest.headD _).kind = _ from hk)]
  rfl

theorem reads_unlessNext_some {kind : TokenKind} {step : Parse α} {a : α}
    (hk : p.nextKind ≠ kind) (h : Reads step s p a q) :
    Reads (unlessNext kind step) s p (some a) q := by
  rw [Reads, unlessNext, peekKind_bind,
    if_neg (show ((s.moved p).rest.headD _).kind ≠ _ from hk)]
  exact h.bind (.pure _)

theorem reads_ifNext_some {kind : TokenKind} {step : Parse α} {a : α} (hk : t.kind = kind)
    (h : Reads step s ⟨ts, n⟩ a q) : Reads (ifNext kind step) s ⟨t :: ts, n⟩ (some a) q :=
  .bind (reads_accept_some (by simp [hk])) (h.bind (.pure _))

theorem reads_ifNext_none {kind : TokenKind} {step : Parse α} (hk : p.nextKind ≠ kind) :
    Reads (ifNext kind step) s p none p :=
  .bind (reads_accept_none (by simpa using hk)) (.pure _)

theorem reads_limit {count : Nat} {fault : GrammarFault} (h : count < maxArguments) :
    Reads (limit count fault) s p () p := by
  rw [limit, if_neg (Nat.not_le.2 h)]
  exact .pure ()

theorem reads_requireLoop (h : s.inLoop = true) : Reads (requireLoop t) s p () p := by
  refine .inr ?_
  show (if s.loopDepth = 0 then _ else _ : Parse Unit) (s.moved p) = _
  rw [if_neg (by simpa [ParseState.inLoop] using h)]
  rfl

theorem reads_atLoopDepth {depth : Nat → Nat} {step : Parse α} {v : α}
    (h : Reads step { s with loopDepth := depth s.loopDepth } p v q) :
    Reads (atLoopDepth depth step) s p v q := by
  unfold Reads atLoopDepth
  rcases h with h | h
  · left
    rw [show step { s.moved p with loopDepth := depth (s.moved p).loopDepth } = _ from h]
  · right
    rw [show step { s.moved p with loopDepth := depth (s.moved p).loopDepth } = _ from h]
    rfl

theorem reads_peek {next : Token → Parse α} {v : α}
    (h : Reads (next (p.tokens.headD (Token.finish 1))) s p v q) :
    Reads (peek >>= next) s p v q :=
  h

theorem reads_peekKind {next : TokenKind → Parse α} {v : α}
    (h : Reads (next p.nextKind) s p v q) : Reads (peekKind >>= next) s p v q :=
  h

theorem leads_peekKind {next : TokenKind → Parse β} {loop : Nat → α → Parse β} {v : α}
    (h : Leads (next p.nextKind) loop s p v q) : Leads (peekKind >>= next) loop s p v q :=
  h

theorem reads_kindAfterNext? {next : Option TokenKind → Parse α} {v : α}
    (h : Reads (next ((p.tokens.drop 1).head?.map Token.kind)) s p v q) :
    Reads (kindAfterNext? >>= next) s p v q :=
  h

/-! ## What rules do on derivations -/

/-- What the rule of a symbol does on a derivation of the symbol.  What follows must
not carry the derivation on, and the loops around a statement must be those that the
symbol says. -/
def Complete : (symbol : Symbol) → Point → symbol.Tree → Point → Prop
  | .declarations l, p, v, q => ∀ fuel inBlock s, s.inLoop = l →
    (q.nextKind = .endOfInput ∨ inBlock = true ∧ q.nextKind = .rightBrace) →
      Reads (declarations fuel inBlock) s p v q
  | .declaration l, p, v, q => ∀ fuel s, s.inLoop = l → q.nextKind ≠ .elseKeyword →
    Reads (declarationOrFail fuel) s p v q
  | .methods, p, v, q => ∀ fuel s, q.nextKind = .rightBrace → Reads (methods fuel) s p v q
  | .function, p, v, q => ∀ fuel name role s,
    Reads (functionRest fuel name role) s p { name, parameters := v.1, body := v.2 } q
  | .parameters, p, v, q => ∀ fuel count s, count + v.length ≤ maxArguments →
    q.nextKind ≠ .comma → Reads (parameters fuel count) s p v q
  | .variable, p, v, q => ∀ fuel s, Reads (varDeclaration fuel) s p v q
  | .statement l d, p, v, q => ∀ fuel s, s.inLoop = l →
    (d = true → q.nextKind ≠ .elseKeyword) → Reads (statement fuel) s p v q
  | .initializer, p, v, q => ∀ fuel s, Reads (forInitializer fuel) s p v q
  | .optionalList, p, v, q => ∀ fuel s kind, q.nextKind = kind →
    kind ∈ [TokenKind.semicolon, .rightParen, .colon] →
      Reads (unlessNext kind (expressionList fuel)) s p v q
  | .list, p, v, q => ∀ fuel s, q.nextKind ∉ conditionalFollowers →
    Leads (expressionList fuel) expressionListRest s p v q
  | .conditional, p, v, q => ∀ fuel s, q.nextKind ∉ conditionalFollowers →
    Reads (conditional fuel) s p v q
  | .assignment, p, v, q => ∀ fuel s, q.nextKind ∉ assignmentFollowers →
    Reads (assignment fuel) s p v q
  | .level [], p, v, q => ∀ fuel s, q.nextKind ∉ operandFollowers [] →
    Reads (binaryLevels fuel []) s p v q
  | .level (level :: tighter), p, v, q => ∀ fuel s, level :: tighter <:+ levels →
    q.nextKind ∉ operandFollowers tighter →
      Leads (binaryLevels fuel (level :: tighter))
        (fun fuel left => binaryRest fuel level tighter left) s p v q
  | .unary, p, v, q => ∀ fuel s, q.nextKind ∉ operandFollowers [] →
    Reads (unary fuel) s p v q
  | .call, p, v, q => ∀ fuel s, Leads (primary fuel >>= callRest fuel) callRest s p v q
  | .arguments, p, v, q => ∀ fuel count s, count + v.length ≤ maxArguments →
    q.nextKind ∉ .comma :: conditionalFollowers → Reads (arguments fuel count) s p v q
  | .primary, p, v, q => ∀ fuel s, Reads (primary fuel) s p v q

namespace Complete

variable {c : Convention} {l d : Bool}

/-! ### Declarations -/

theorem noDeclaration : Complete (.declarations l) p [] p := by
  intro fuel inBlock s _ hq
  rcases fuel with _ | fuel
  · exact .inl rfl
  rw [declarations]
  refine reads_peekKind ?_
  rw [if_pos hq]
  exact .pure _

/-- A declaration that succeeds is not dropped. -/
theorem recovered {v : Stmt} (h : Complete (.declaration l) p v q)
    (hl : s.inLoop = l) (hq : q.nextKind ≠ .elseKeyword) (fuel : Nat) :
    Reads (declaration fuel) s p (some v) q := by
  rcases fuel with _ | fuel
  · exact .inl rfl
  unfold Reads declaration recover
  rcases h fuel s hl hq with h | h <;> rw [h]
  · exact .inl rfl
  · exact .inr rfl

/-- Where declarations begin or end, there is no `else`. -/
theorem moreDeclarations {first : Stmt} {rest : List Stmt}
    (hp : p.nextKind ∈ declarationStarts) (hq : q = r ∨ q.nextKind ∈ declarationStarts)
    (ih₁ : Complete (.declaration l) p first q)
    (ih₂ : Complete (.declarations l) q rest r) :
    Complete (.declarations l) p (first :: rest) r := by
  intro fuel inBlock s hl hr
  rcases fuel with _ | fuel
  · exact .inl rfl
  rw [declarations]
  refine reads_peekKind ?_
  have hstop : ¬(p.nextKind = .endOfInput ∨ inBlock = true ∧ p.nextKind = .rightBrace) := by
    rintro (h | ⟨-, h⟩) <;> rw [h] at hp <;> revert hp <;> decide
  rw [if_neg hstop]
  have helse : q.nextKind ≠ .elseKeyword := by
    rcases hq with rfl | hq
    · rcases hr with h | ⟨-, h⟩ <;> rw [h] <;> decide
    · intro h
      rw [h] at hq
      revert hq
      decide
  exact .bind (recovered ih₁ hl helse fuel) (.bind (ih₂ fuel inBlock s hl hr) (.pure _))

variable {keyword name lp rp lb rb opening closing finish : Token} {ts us vs : List Token}
  {n m k : ReferenceId}

theorem classDeclaration {found : List FunctionDecl} (hkey : keyword.kind = .classKeyword)
    (hname : name.kind = .identifier) (hopening : opening.kind = .leftBrace)
    (ih : Complete .methods ⟨ts, n⟩ found ⟨closing :: us, m⟩)
    (hclosing : closing.kind = .rightBrace) :
    Complete (.declaration l) ⟨keyword :: name :: opening :: ts, n⟩
      (.classDecl name found) ⟨us, m⟩ := by
  intro fuel s _ _
  rcases fuel with _ | fuel
  · exact .inl rfl
  rw [declarationOrFail]
  refine reads_peekKind ?_
  simp only [Point.nextKind, List.headD_cons, hkey]
  refine .bind reads_advance ?_
  rcases fuel with _ | fuel
  · exact .inl rfl
  rw [Parse.classDeclaration]
  refine .bind (reads_expect hname) ?_
  refine .bind (reads_expect hopening) ?_
  refine .bind (ih fuel s hclosing) ?_
  exact .bind (reads_expect hclosing) (.pure _)

theorem variableDeclaration {v : Stmt} (hkey : keyword.kind = .varKeyword)
    (ih : Complete .variable ⟨ts, n⟩ v q) :
    Complete (.declaration l) ⟨keyword :: ts, n⟩ v q := by
  intro fuel s _ _
  rcases fuel with _ | fuel
  · exact .inl rfl
  rw [declarationOrFail]
  refine reads_peekKind ?_
  simp only [Point.nextKind, List.headD_cons, hkey]
  exact .bind reads_advance (ih fuel s)

theorem plainStatement {v : Stmt} (hp : p.nextKind ∈ statementStarts)
    (ih : Complete (.statement l d) p v q) : Complete (.declaration l) p v q := by
  intro fuel s hl hq
  rcases fuel with _ | fuel
  · exact .inl rfl
  rw [declarationOrFail]
  refine reads_peekKind ?_
  generalize p.nextKind = kind at hp
  split
  · exact absurd hp (by decide)
  · exact absurd hp (by decide)
  · exact ih fuel s hl fun _ => hq

theorem noMethod : Complete .methods p [] p := by
  intro fuel s hq
  rcases fuel with _ | fuel
  · exact .inl rfl
  rw [methods]
  refine reads_peekKind ?_
  rw [if_pos (.inr hq)]
  exact .pure _

/-- A function with its name. -/
theorem named {parameters : List Token} {body : List Stmt}
    (hname : name.kind = .identifier) (ih : Complete .function ⟨ts, n⟩ (parameters, body) q)
    (fuel : Nat) (role : FunctionRole) (s : ParseState) :
    Reads (namedFunction fuel role) s ⟨name :: ts, n⟩
      { name := some name, parameters, body } q := by
  rcases fuel with _ | fuel
  · exact .inl rfl
  rw [namedFunction]
  exact .bind (reads_expect hname) (ih fuel (some name) role s)

theorem namedMethod {parameters : List Token} {body : List Stmt} {rest : List FunctionDecl}
    (hname : name.kind = .identifier) (ih₁ : Complete .function ⟨ts, n⟩ (parameters, body) q)
    (ih₂ : Complete .methods q rest r) :
    Complete .methods ⟨name :: ts, n⟩
      ({ name := some name, parameters, body } :: rest) r := by
  intro fuel s hr
  rcases fuel with _ | fuel
  · exact .inl rfl
  rw [methods]
  refine reads_peekKind ?_
  rw [if_neg (by simp [Point.nextKind, hname])]
  exact .bind (named hname ih₁ fuel .method s) (.bind (ih₂ fuel s hr) (.pure _))

/-- The body of a function or of a block. -/
theorem body {found : List Stmt}
    (ih : Complete (.declarations l) ⟨ts, n⟩ found ⟨rb :: us, m⟩)
    (hrb : rb.kind = .rightBrace) (fuel : Nat) (s : ParseState) (hl : s.inLoop = l) :
    Reads (blockRest fuel) s ⟨ts, n⟩ found ⟨us, m⟩ := by
  rcases fuel with _ | fuel
  · exact .inl rfl
  rw [blockRest]
  refine .bind (ih fuel true s hl (.inr ⟨rfl, hrb⟩)) ?_
  exact .bind (reads_expect hrb) (.pure _)

theorem functionWithout {found : List Stmt} (hlp : lp.kind = .leftParen)
    (hrp : rp.kind = .rightParen) (hlb : lb.kind = .leftBrace)
    (ih : Complete (.declarations false) ⟨ts, n⟩ found ⟨rb :: us, m⟩)
    (hrb : rb.kind = .rightBrace) :
    Complete .function ⟨lp :: rp :: lb :: ts, n⟩ ([], found) ⟨us, m⟩ := by
  intro fuel name role s
  rcases fuel with _ | fuel
  · exact .inl rfl
  rw [functionRest]
  refine .bind (reads_expect hlp) ?_
  refine .bind (reads_unlessNext_none hrp) ?_
  refine .bind (reads_expect hrp) ?_
  refine .bind (reads_expect hlb) ?_
  exact .bind (reads_atLoopDepth (body ih hrb fuel _ rfl)) (.pure _)

theorem functionWith {names : List Token} {found : List Stmt} (hlp : lp.kind = .leftParen)
    (hts : (⟨ts, n⟩ : Point).nextKind = .identifier)
    (ih₁ : Complete .parameters ⟨ts, n⟩ names ⟨rp :: lb :: us, m⟩)
    (hle : names.length ≤ maxArguments) (hrp : rp.kind = .rightParen)
    (hlb : lb.kind = .leftBrace)
    (ih₂ : Complete (.declarations false) ⟨us, m⟩ found ⟨rb :: vs, k⟩)
    (hrb : rb.kind = .rightBrace) :
    Complete .function ⟨lp :: ts, n⟩ (names, found) ⟨vs, k⟩ := by
  intro fuel name role s
  rcases fuel with _ | fuel
  · exact .inl rfl
  rw [functionRest]
  refine .bind (reads_expect hlp) ?_
  refine .bind (reads_unlessNext_some (by rw [hts]; decide)
    (ih₁ fuel 0 s (by omega) (by simp [Point.nextKind, hrp]))) ?_
  refine .bind (reads_expect hrp) ?_
  refine .bind (reads_expect hlb) ?_
  exact .bind (reads_atLoopDepth (body ih₂ hrb fuel _ rfl)) (.pure _)

theorem lastParameter (hname : name.kind = .identifier) :
    Complete .parameters ⟨name :: ts, n⟩ [name] ⟨ts, n⟩ := by
  intro fuel count s hle hq
  rcases fuel with _ | fuel
  · exact .inl rfl
  rw [parameters]
  refine .bind (reads_limit hle) ?_
  refine .bind (reads_expect hname) ?_
  exact .bind (reads_accept_none (by simpa using hq)) (.pure _)

theorem moreParameters {comma : Token} {names : List Token}
    (hname : name.kind = .identifier) (hcomma : comma.kind = .comma)
    (ih : Complete .parameters ⟨ts, n⟩ names q) :
    Complete .parameters ⟨name :: comma :: ts, n⟩ (name :: names) q := by
  intro fuel count s hle hq
  rw [List.length_cons] at hle
  rcases fuel with _ | fuel
  · exact .inl rfl
  rw [parameters]
  refine .bind (reads_limit (by omega)) ?_
  refine .bind (reads_expect hname) ?_
  refine .bind (reads_accept_some (by simp [hcomma])) ?_
  exact .bind (ih fuel (count + 1) s (by omega) hq) (.pure _)

theorem variableWithout (hname : name.kind = .identifier) (hfinish : finish.kind = .semicolon) :
    Complete .variable ⟨name :: finish :: ts, n⟩ (.varDecl name none) ⟨ts, n⟩ := by
  intro fuel s
  rcases fuel with _ | fuel
  · exact .inl rfl
  rw [varDeclaration]
  refine .bind (reads_expect hname) ?_
  refine .bind (reads_ifNext_none (by simp [Point.nextKind, hfinish])) ?_
  exact .bind (reads_expect hfinish) (.pure _)

theorem variableWith {equals : Token} {value : Expr} (hname : name.kind = .identifier)
    (hequals : equals.kind = .equal)
    (ih : Complete .conditional ⟨ts, n⟩ value ⟨finish :: us, m⟩)
    (hfinish : finish.kind = .semicolon) :
    Complete .variable ⟨name :: equals :: ts, n⟩ (.varDecl name (some value)) ⟨us, m⟩ := by
  intro fuel s
  rcases fuel with _ | fuel
  · exact .inl rfl
  rw [varDeclaration]
  refine .bind (reads_expect hname) ?_
  refine .bind (reads_ifNext_some hequals (ih fuel s ?_)) ?_
  · rw [Point.nextKind, List.headD_cons, hfinish]
    decide
  · exact .bind (reads_expect hfinish) (.pure _)

/-! ### Statements -/

theorem forStatement {start : Option Stmt} {condition increment : Option Expr} {body : Stmt}
    {j : ReferenceId} (hkey : keyword.kind = .forKeyword) (hlp : lp.kind = .leftParen)
    (ih₁ : Complete .initializer ⟨ts, n⟩ start p)
    (ih₂ : Complete .optionalList p condition ⟨finish :: us, k⟩)
    (hfinish : finish.kind = .semicolon)
    (ih₃ : Complete .optionalList ⟨us, k⟩ increment ⟨rp :: vs, j⟩)
    (hrp : rp.kind = .rightParen) (ih₄ : Complete (.statement true d) ⟨vs, j⟩ body q) :
    Complete (.statement l d) ⟨keyword :: lp :: ts, n⟩
      (.forLoop start condition increment body) q := by
  intro fuel s _ hq
  rcases fuel with _ | fuel
  · exact .inl rfl
  rw [statement]
  refine reads_peek ?_
  simp only [List.headD_cons, hkey]
  refine .bind reads_advance ?_
  rcases fuel with _ | fuel
  · exact .inl rfl
  rw [Parse.forStatement]
  refine .bind (reads_expect hlp) ?_
  refine .bind (ih₁ fuel s) ?_
  refine .bind (ih₂ fuel s .semicolon hfinish (by decide)) ?_
  refine .bind (reads_expect hfinish) ?_
  refine .bind (ih₃ fuel s .rightParen hrp (by decide)) ?_
  refine .bind (reads_expect hrp) ?_
  exact .bind (reads_atLoopDepth (ih₄ fuel _ (by simp [ParseState.inLoop]) hq)) (.pure _)

/-- A list that no comma follows. -/
theorem wholeList {v : Expr} (h : Complete .list p v q)
    (hq : q.nextKind ∉ .comma :: conditionalFollowers) (fuel : Nat) (s : ParseState) :
    Reads (expressionList fuel) s p v q := by
  rw [List.mem_cons, not_or] at hq
  refine (h fuel s hq.2).reads fun fuel => ?_
  rcases fuel with _ | fuel
  · exact .inl rfl
  rw [expressionListRest]
  exact .bind (reads_accept_none (by simpa using hq.1)) (.pure _)

/-- A list that one of the given tokens ends. -/
theorem endedList {v : Expr} (h : Complete .list p v ⟨finish :: us, m⟩) {kind : TokenKind}
    (hfinish : finish.kind = kind) (hkind : kind ∈ [TokenKind.semicolon, .rightParen, .colon])
    (fuel : Nat) (s : ParseState) :
    Reads (expressionList fuel) s p v ⟨finish :: us, m⟩ := by
  refine wholeList h ?_ fuel s
  rw [Point.nextKind, List.headD_cons, hfinish]
  simp only [List.mem_cons, List.not_mem_nil, or_false] at hkind
  rcases hkind with rfl | rfl | rfl <;> decide

theorem branch {condition : Expr} {whenTrue : Stmt} (hkey : keyword.kind = .ifKeyword)
    (hlp : lp.kind = .leftParen) (ih₁ : Complete .list ⟨ts, n⟩ condition ⟨rp :: us, m⟩)
    (hrp : rp.kind = .rightParen) (ih₂ : Complete (.statement l d) ⟨us, m⟩ whenTrue q) :
    Complete (.statement l true) ⟨keyword :: lp :: ts, n⟩
      (.conditional condition whenTrue none) q := by
  intro fuel s hl hq
  rcases fuel with _ | fuel
  · exact .inl rfl
  rw [statement]
  refine reads_peek ?_
  simp only [List.headD_cons, hkey]
  refine .bind reads_advance ?_
  rcases fuel with _ | fuel
  · exact .inl rfl
  rw [ifStatement]
  refine .bind (reads_expect hlp) ?_
  refine .bind (endedList ih₁ hrp (by decide) fuel s) ?_
  refine .bind (reads_expect hrp) ?_
  refine .bind (ih₂ fuel s hl fun _ => hq rfl) ?_
  exact .bind (reads_ifNext_none (hq rfl)) (.pure _)

/-- The `else` belongs to the branch, since its first statement does not dangle. -/
theorem branches {e : Bool} {other : Token} {condition : Expr} {whenTrue whenFalse : Stmt}
    (hkey : keyword.kind = .ifKeyword) (hlp : lp.kind = .leftParen)
    (ih₁ : Complete .list ⟨ts, n⟩ condition ⟨rp :: us, m⟩) (hrp : rp.kind = .rightParen)
    (ih₂ : Complete (.statement l false) ⟨us, m⟩ whenTrue ⟨other :: vs, k⟩)
    (hother : other.kind = .elseKeyword)
    (ih₃ : Complete (.statement l e) ⟨vs, k⟩ whenFalse q) :
    Complete (.statement l e) ⟨keyword :: lp :: ts, n⟩
      (.conditional condition whenTrue (some whenFalse)) q := by
  intro fuel s hl hq
  rcases fuel with _ | fuel
  · exact .inl rfl
  rw [statement]
  refine reads_peek ?_
  simp only [List.headD_cons, hkey]
  refine .bind reads_advance ?_
  rcases fuel with _ | fuel
  · exact .inl rfl
  rw [ifStatement]
  refine .bind (reads_expect hlp) ?_
  refine .bind (endedList ih₁ hrp (by decide) fuel s) ?_
  refine .bind (reads_expect hrp) ?_
  refine .bind (ih₂ fuel s hl (by simp)) ?_
  exact .bind (reads_ifNext_some hother (ih₃ fuel s hl hq)) (.pure _)

theorem printStatement {value : Expr} (hkey : keyword.kind = .printKeyword)
    (ih : Complete .list ⟨ts, n⟩ value ⟨finish :: us, m⟩) (hfinish : finish.kind = .semicolon) :
    Complete (.statement l false) ⟨keyword :: ts, n⟩ (.print value) ⟨us, m⟩ := by
  intro fuel s _ _
  rcases fuel with _ | fuel
  · exact .inl rfl
  rw [statement]
  refine reads_peek ?_
  simp only [List.headD_cons, hkey]
  refine .bind reads_advance ?_
  refine .bind (endedList ih hfinish (by decide) fuel s) ?_
  exact .bind (reads_expect hfinish) (.pure _)

theorem returnWithout (hkey : keyword.kind = .returnKeyword)
    (hfinish : finish.kind = .semicolon) :
    Complete (.statement l false) ⟨keyword :: finish :: ts, n⟩ (.giveBack keyword none)
      ⟨ts, n⟩ := by
  intro fuel s _ _
  rcases fuel with _ | fuel
  · exact .inl rfl
  rw [statement]
  refine reads_peek ?_
  simp only [List.headD_cons, hkey]
  refine .bind reads_advance ?_
  refine .bind (reads_unlessNext_none hfinish) ?_
  exact .bind (reads_expect hfinish) (.pure _)

theorem returnWith {value : Expr} (hkey : keyword.kind = .returnKeyword)
    (hts : (⟨ts, n⟩ : Point).nextKind ∈ expressionStarts)
    (ih : Complete .conditional ⟨ts, n⟩ value ⟨finish :: us, m⟩)
    (hfinish : finish.kind = .semicolon) :
    Complete (.statement l false) ⟨keyword :: ts, n⟩ (.giveBack keyword (some value))
      ⟨us, m⟩ := by
  intro fuel s _ _
  rcases fuel with _ | fuel
  · exact .inl rfl
  rw [statement]
  refine reads_peek ?_
  simp only [List.headD_cons, hkey]
  refine .bind reads_advance ?_
  refine .bind (reads_unlessNext_some (fun h => ?_) (ih fuel s ?_)) ?_
  · rw [h] at hts
    exact absurd hts (by decide)
  · rw [Point.nextKind, List.headD_cons, hfinish]
    decide
  · exact .bind (reads_expect hfinish) (.pure _)

theorem whileStatement {condition : Expr} {body : Stmt} (hkey : keyword.kind = .whileKeyword)
    (hlp : lp.kind = .leftParen) (ih₁ : Complete .list ⟨ts, n⟩ condition ⟨rp :: us, m⟩)
    (hrp : rp.kind = .rightParen) (ih₂ : Complete (.statement true d) ⟨us, m⟩ body q) :
    Complete (.statement l d) ⟨keyword :: lp :: ts, n⟩ (.loop condition body) q := by
  intro fuel s _ hq
  rcases fuel with _ | fuel
  · exact .inl rfl
  rw [statement]
  refine reads_peek ?_
  simp only [List.headD_cons, hkey]
  refine .bind reads_advance ?_
  rcases fuel with _ | fuel
  · exact .inl rfl
  rw [Parse.whileStatement]
  refine .bind (reads_expect hlp) ?_
  refine .bind (endedList ih₁ hrp (by decide) fuel s) ?_
  refine .bind (reads_expect hrp) ?_
  exact .bind (reads_atLoopDepth (ih₂ fuel _ (by simp [ParseState.inLoop]) hq)) (.pure _)

theorem breakStatement (hkey : keyword.kind = .breakKeyword)
    (hfinish : finish.kind = .semicolon) :
    Complete (.statement true false) ⟨keyword :: finish :: ts, n⟩ (.leave keyword)
      ⟨ts, n⟩ := by
  intro fuel s hl _
  rcases fuel with _ | fuel
  · exact .inl rfl
  rw [statement]
  refine reads_peek ?_
  simp only [List.headD_cons, hkey]
  refine .bind reads_advance ?_
  refine .bind (reads_requireLoop hl) ?_
  exact .bind (reads_expect hfinish) (.pure _)

theorem block {found : List Stmt} (hopening : opening.kind = .leftBrace)
    (ih : Complete (.declarations l) ⟨ts, n⟩ found ⟨closing :: us, m⟩)
    (hclosing : closing.kind = .rightBrace) :
    Complete (.statement l false) ⟨opening :: ts, n⟩ (.block found) ⟨us, m⟩ := by
  intro fuel s hl _
  rcases fuel with _ | fuel
  · exact .inl rfl
  rw [statement]
  refine reads_peek ?_
  simp only [List.headD_cons, hopening]
  refine .bind reads_advance ?_
  exact .bind (body ih hclosing fuel s hl) (.pure _)

theorem functionStatement {parameters : List Token} {body : List Stmt}
    (hkey : keyword.kind = .funKeyword) (hname : name.kind = .identifier)
    (ih : Complete .function ⟨ts, n⟩ (parameters, body) q) :
    Complete (.statement l d) ⟨keyword :: name :: ts, n⟩
      (.function { name := some name, parameters, body }) q := by
  intro fuel s _ _
  rcases fuel with _ | fuel
  · exact .inl rfl
  rw [statement]
  refine reads_peek ?_
  simp only [List.headD_cons, hkey]
  refine reads_kindAfterNext? ?_
  rw [if_pos (by simp [hname])]
  refine .bind reads_advance ?_
  exact .bind (named hname ih fuel .function s) (.pure _)

/-- Where an expression begins, a statement reads an expression. -/
theorem dispatched {v : Stmt} {fuel : Nat} (hp : p.nextKind ∈ expressionStarts ∧ p.Inline)
    (h : Reads (Parse.expressionStatement fuel) s p v q) :
    Reads (statement (fuel + 1)) s p v q := by
  rw [statement]
  refine reads_peek ?_
  obtain ⟨hk, hf⟩ := hp
  unfold Point.Inline at hf
  change p.nextKind = _ → _ at hf
  rw [show (p.tokens.headD (Token.finish 1)).kind = p.nextKind from rfl]
  generalize p.nextKind = kind at hk hf
  split
  case h_8 =>
    refine reads_kindAfterNext? ?_
    rw [if_neg (hf rfl)]
    exact h
  case h_9 => exact h
  all_goals exact absurd hk (by decide)

/-- An expression with the semicolon that ends it. -/
theorem ended {value : Expr} (ih : Complete .list p value ⟨finish :: us, m⟩)
    (hfinish : finish.kind = .semicolon) (fuel : Nat) (s : ParseState) :
    Reads (Parse.expressionStatement fuel) s p (.expression value) ⟨us, m⟩ := by
  rcases fuel with _ | fuel
  · exact .inl rfl
  rw [Parse.expressionStatement]
  refine .bind (endedList ih hfinish (by decide) fuel s) ?_
  exact .bind (reads_expect hfinish) (.pure _)

theorem expressionStatement {value : Expr} (hp : p.nextKind ∈ expressionStarts ∧ p.Inline)
    (ih : Complete .list p value ⟨finish :: us, m⟩) (hfinish : finish.kind = .semicolon) :
    Complete (.statement l false) p (.expression value) ⟨us, m⟩ := by
  intro fuel s _ _
  rcases fuel with _ | fuel
  · exact .inl rfl
  exact dispatched hp (ended ih hfinish fuel s)

theorem noInitializer (hfinish : finish.kind = .semicolon) :
    Complete .initializer ⟨finish :: ts, n⟩ none ⟨ts, n⟩ := by
  intro fuel s
  rcases fuel with _ | fuel
  · exact .inl rfl
  rw [forInitializer]
  refine reads_peekKind ?_
  simp only [Point.nextKind, List.headD_cons, hfinish]
  exact .bind reads_advance (.pure _)

theorem variableInitializer {v : Stmt} (hkey : keyword.kind = .varKeyword)
    (ih : Complete .variable ⟨ts, n⟩ v q) :
    Complete .initializer ⟨keyword :: ts, n⟩ (some v) q := by
  intro fuel s
  rcases fuel with _ | fuel
  · exact .inl rfl
  rw [forInitializer]
  refine reads_peekKind ?_
  simp only [Point.nextKind, List.headD_cons, hkey]
  refine .bind reads_advance ?_
  exact .bind (ih fuel s) (.pure _)

theorem expressionInitializer {value : Expr} (hp : p.nextKind ∈ expressionStarts)
    (ih : Complete .list p value ⟨finish :: us, m⟩) (hfinish : finish.kind = .semicolon) :
    Complete .initializer p (some (.expression value)) ⟨us, m⟩ := by
  intro fuel s
  rcases fuel with _ | fuel
  · exact .inl rfl
  rw [forInitializer]
  refine reads_peekKind ?_
  generalize p.nextKind = kind at hp
  split
  · exact absurd hp (by decide)
  · exact absurd hp (by decide)
  · exact .bind (ended ih hfinish fuel s) (.pure _)

/-! ### Expressions -/

theorem noList : Complete .optionalList p none p :=
  fun _ _ _ hk _ => reads_unlessNext_none hk

theorem someList {value : Expr} (hp : p.nextKind ∈ expressionStarts)
    (ih : Complete .list p value q) : Complete .optionalList p (some value) q := by
  intro fuel s kind hq hkind
  simp only [List.mem_cons, List.not_mem_nil, or_false] at hkind
  refine reads_unlessNext_some (fun h => ?_) (wholeList ih ?_ fuel s)
  · rw [h] at hp
    rcases hkind with rfl | rfl | rfl <;> exact absurd hp (by decide)
  · rw [hq]
    rcases hkind with rfl | rfl | rfl <;> decide

theorem single {value : Expr} (ih : Complete .conditional p value q) :
    Complete .list p value q := by
  intro fuel s hq
  rcases fuel with _ | fuel
  · exact .inl rfl
  rw [expressionList]
  exact .of_bind (ih fuel s hq) (.head fuel value)

theorem comma {operator : Token} {left right : Expr}
    (ih₁ : Complete .list p left ⟨operator :: us, m⟩) (hoperator : operator.kind = .comma)
    (ih₂ : Complete .conditional ⟨us, m⟩ right q) :
    Complete .list p (.binary left operator right) q := by
  intro fuel s hq
  refine (ih₁ fuel s ?_).loop (fun _ => rfl) fun fuel => ?_
  · rw [Point.nextKind, List.headD_cons, hoperator]
    decide
  · rw [expressionListRest]
    refine .of_bind (reads_accept_some (by simp [hoperator])) ?_
    exact .of_bind (ih₂ fuel s hq) (.head fuel _)

theorem unconditional {value : Expr} (ih : Complete .assignment p value q) :
    Complete .conditional p value q := by
  intro fuel s hq
  rcases fuel with _ | fuel
  · exact .inl rfl
  rw [conditionalFollowers, List.mem_cons, not_or] at hq
  rw [conditional]
  refine .bind (ih fuel s hq.2) ?_
  exact .bind (reads_accept_none (by simpa using hq.1)) (.pure _)

theorem ternary {question colon : Token} {condition whenFalse : Expr} {whenTrue : Option Expr}
    (ih₁ : Complete .assignment p condition ⟨question :: us, m⟩)
    (hquestion : question.kind = .question)
    (ih₂ : Complete .optionalList ⟨us, m⟩ whenTrue ⟨colon :: vs, k⟩)
    (hcolon : colon.kind = .colon) (ih₃ : Complete .conditional ⟨vs, k⟩ whenFalse q) :
    Complete .conditional p
      (.ternary condition question (whenTrue.getD (.constant .nil)) whenFalse) q := by
  intro fuel s hq
  rcases fuel with _ | fuel
  · exact .inl rfl
  rw [conditional]
  refine .bind (ih₁ fuel s ?_) ?_
  · rw [Point.nextKind, List.headD_cons, hquestion]
    decide
  refine .bind (reads_accept_some (by simp [hquestion])) ?_
  refine .bind (ih₂ fuel s .colon hcolon (by decide)) ?_
  refine .bind (reads_expect hcolon) ?_
  exact .bind (ih₃ fuel s hq) (.pure _)

/-! ### Operators -/

theorem not_mem_operandFollowers_cons {level : Level} {ls : List Level} {kind : TokenKind} :
    kind ∉ operandFollowers (level :: ls) ↔
      kind ∉ level.operators ∧ kind ∉ operandFollowers ls := by
  simp only [operandFollowers, List.flatMap_cons, List.mem_append]
  tauto

/-- Operators of the given levels, none of which follows. -/
theorem operators {ls : List Level} {v : Expr} (h : Complete (.level ls) p v q)
    (hs : ls <:+ levels) (hq : q.nextKind ∉ operandFollowers ls) (fuel : Nat)
    (s : ParseState) : Reads (binaryLevels fuel ls) s p v q := by
  cases ls with
  | nil => exact h fuel s hq
  | cons level tighter =>
    obtain ⟨hlevel, hq⟩ := not_mem_operandFollowers_cons.1 hq
    refine (h fuel s hs hq).reads fun fuel => ?_
    rcases fuel with _ | fuel
    · exact .inl rfl
    rw [binaryRest]
    exact .bind (reads_accept_none hlevel) (.pure _)

theorem tighter {level : Level} {ls : List Level} {v : Expr}
    (ih : Complete (.level ls) p v q) : Complete (.level (level :: ls)) p v q := by
  intro fuel s hs hq
  rcases fuel with _ | fuel
  · exact .inl rfl
  have ht : ls <:+ levels := (List.suffix_cons level ls).trans hs
  rw [binaryLevels]
  exact .of_bind (operators ih ht hq fuel s) (.inr ⟨fuel, rfl⟩)

theorem operation {level : Level} {ls : List Level} {operator : Token} {left right : Expr}
    (ih₁ : Complete (.level (level :: ls)) p left ⟨operator :: us, m⟩)
    (hoperator : operator.kind ∈ level.operators)
    (ih₂ : Complete (.level ls) ⟨us, m⟩ right q) :
    Complete (.level (level :: ls)) p (level.node left operator right) q := by
  intro fuel s hs hq
  have ht : ls <:+ levels := (List.suffix_cons level ls).trans hs
  refine (ih₁ fuel s hs (operator_not_mem_followers hs hoperator)).loop (fun _ => rfl)
    fun fuel => ?_
  rw [binaryRest]
  refine .of_bind (reads_accept_some hoperator) ?_
  exact .of_bind (operators ih₂ ht hq fuel s) (.inr ⟨fuel, rfl⟩)

theorem tightest {v : Expr} (ih : Complete .unary p v q) : Complete (.level []) p v q := by
  intro fuel s hq
  rcases fuel with _ | fuel
  · exact .inl rfl
  rw [binaryLevels]
  exact ih fuel s hq

theorem unaryOperation {operator : Token} {operand : Expr}
    (hoperator : operator.kind ∈ [TokenKind.bang, .minus])
    (ih : Complete .unary ⟨ts, n⟩ operand q) :
    Complete .unary ⟨operator :: ts, n⟩ (.unary operator operand) q := by
  intro fuel s hq
  rcases fuel with _ | fuel
  · exact .inl rfl
  rw [unary]
  refine .bind (reads_accept_some hoperator) ?_
  exact .bind (ih fuel s hq) (.pure _)

theorem noOperation {v : Expr} (hp : p.nextKind ∈ callStarts) (ih : Complete .call p v q) :
    Complete .unary p v q := by
  intro fuel s hq
  rcases fuel with _ | fuel
  · exact .inl rfl
  rw [unary]
  refine .bind (reads_accept_none ?_) ?_
  · intro h
    simp only [List.mem_cons, List.not_mem_nil, or_false] at h
    rcases h with h | h <;> rw [h] at hp <;> exact absurd hp (by decide)
  refine (ih fuel s).reads fun fuel => ?_
  rcases fuel with _ | fuel
  · exact .inl rfl
  rw [callRest]
  refine reads_peekKind ?_
  generalize q.nextKind = kind at hq
  split
  · exact absurd hq (by decide)
  · exact absurd hq (by decide)
  · exact .pure _

/-- A call stands at every level. -/
theorem level_of_call {v : Expr} (hp : p.nextKind ∈ callStarts) (h : Complete .call p v q)
    (ls : List Level) : Complete (.level ls) p v q := by
  induction ls with
  | nil => exact tightest (noOperation hp h)
  | cons level ls ih => exact tighter ih

/-- What is assigned to. -/
theorem target {equals : Token} {v : Expr} (hp : p.nextKind ∈ callStarts)
    (h : Complete .call p v ⟨equals :: us, m⟩) (hequals : equals.kind = .equal) (fuel : Nat)
    (s : ParseState) : Reads (binaryLevels fuel levels) s p v ⟨equals :: us, m⟩ := by
  refine operators (level_of_call hp h levels) List.suffix_rfl ?_ fuel s
  rw [Point.nextKind, List.headD_cons, hequals]
  decide

theorem noAssignment {v : Expr} (ih : Complete (.level levels) p v q) :
    Complete .assignment p v q := by
  intro fuel s hq
  rcases fuel with _ | fuel
  · exact .inl rfl
  rw [assignmentFollowers, List.mem_cons, not_or] at hq
  rw [assignment]
  refine .bind (operators ih List.suffix_rfl hq.2 fuel s) ?_
  exact .bind (reads_accept_none (by simpa using hq.1)) (.pure _)

/-! ### Calls -/

theorem noCall {v : Expr} (ih : Complete .primary p v q) : Complete .call p v q :=
  fun fuel s => .of_bind (ih fuel s) (.head fuel v)

theorem callWithout {callee : Expr} (ih : Complete .call p callee ⟨lp :: rp :: us, m⟩)
    (hlp : lp.kind = .leftParen) (hrp : rp.kind = .rightParen) :
    Complete .call p (.call callee rp []) ⟨us, m⟩ := by
  intro fuel s
  refine (ih fuel s).loop (fun _ => rfl) fun fuel => ?_
  rw [callRest]
  refine leads_peekKind ?_
  simp only [Point.nextKind, List.headD_cons, hlp]
  refine .of_bind reads_advance ?_
  refine .of_bind (reads_unlessNext_none hrp) ?_
  exact .of_bind (reads_expect hrp) (.head fuel _)

theorem callWith {callee : Expr} {found : List Expr}
    (ih₁ : Complete .call p callee ⟨lp :: us, m⟩) (hlp : lp.kind = .leftParen)
    (hus : (⟨us, m⟩ : Point).nextKind ∈ expressionStarts)
    (ih₂ : Complete .arguments ⟨us, m⟩ found ⟨rp :: vs, k⟩)
    (hle : found.length ≤ maxArguments) (hrp : rp.kind = .rightParen) :
    Complete .call p (.call callee rp found) ⟨vs, k⟩ := by
  intro fuel s
  refine (ih₁ fuel s).loop (fun _ => rfl) fun fuel => ?_
  rw [callRest]
  refine leads_peekKind ?_
  simp only [Point.nextKind, List.headD_cons, hlp]
  refine .of_bind reads_advance ?_
  refine .of_bind (reads_unlessNext_some (fun h => ?_) (ih₂ fuel 0 s (by omega) ?_)) ?_
  · rw [h] at hus
    exact absurd hus (by decide)
  · rw [Point.nextKind, List.headD_cons, hrp]
    decide
  · exact .of_bind (reads_expect hrp) (.head fuel _)

theorem property {dot : Token} {object : Expr}
    (ih : Complete .call p object ⟨dot :: name :: us, m⟩) (hdot : dot.kind = .dot)
    (hname : name.kind = .identifier) :
    Complete .call p (.get object name) ⟨us, m⟩ := by
  intro fuel s
  refine (ih fuel s).loop (fun _ => rfl) fun fuel => ?_
  rw [callRest]
  refine leads_peekKind ?_
  simp only [Point.nextKind, List.headD_cons, hdot]
  refine .of_bind reads_advance ?_
  exact .of_bind (reads_expect hname) (.head fuel _)

theorem lastArgument {value : Expr} (ih : Complete .conditional p value q) :
    Complete .arguments p [value] q := by
  intro fuel count s hle hq
  rcases fuel with _ | fuel
  · exact .inl rfl
  rw [List.mem_cons, not_or] at hq
  rw [arguments]
  refine .bind (reads_limit hle) ?_
  refine .bind (ih fuel s hq.2) ?_
  exact .bind (reads_accept_none (by simpa using hq.1)) (.pure _)

theorem moreArguments {separator : Token} {first : Expr} {rest : List Expr}
    (ih₁ : Complete .conditional p first ⟨separator :: us, m⟩)
    (hseparator : separator.kind = .comma) (ih₂ : Complete .arguments ⟨us, m⟩ rest q) :
    Complete .arguments p (first :: rest) q := by
  intro fuel count s hle hq
  rcases fuel with _ | fuel
  · exact .inl rfl
  rw [List.length_cons] at hle
  rw [arguments]
  refine .bind (reads_limit (by omega)) ?_
  refine .bind (ih₁ fuel s ?_) ?_
  · rw [Point.nextKind, List.headD_cons, hseparator]
    decide
  refine .bind (reads_accept_some (by simp [hseparator])) ?_
  exact .bind (ih₂ fuel (count + 1) s (by omega) hq) (.pure _)

/-! ### Operands -/

/-- A constant of one token. -/
theorem literal {token : Token}
    (htoken : token.kind ∈ [TokenKind.number, .string]) :
    Complete .primary ⟨token :: ts, n⟩ (.constant (Constant.ofLiteral token.literal))
      ⟨ts, n⟩ := by
  intro fuel s
  rcases fuel with _ | fuel
  · exact .inl rfl
  simp only [List.mem_cons, List.not_mem_nil, or_false] at htoken
  rw [primary]
  refine reads_peek ?_
  rcases htoken with hk | hk <;> simp only [List.headD_cons, hk] <;>
    exact .bind reads_advance (.pure _)

theorem falsity (hkey : keyword.kind = .falseKeyword) :
    Complete .primary ⟨keyword :: ts, n⟩ (.constant (.bool false)) ⟨ts, n⟩ := by
  intro fuel s
  rcases fuel with _ | fuel
  · exact .inl rfl
  rw [primary]
  refine reads_peek ?_
  simp only [List.headD_cons, hkey]
  exact .bind reads_advance (.pure _)

theorem truth (hkey : keyword.kind = .trueKeyword) :
    Complete .primary ⟨keyword :: ts, n⟩ (.constant (.bool true)) ⟨ts, n⟩ := by
  intro fuel s
  rcases fuel with _ | fuel
  · exact .inl rfl
  rw [primary]
  refine reads_peek ?_
  simp only [List.headD_cons, hkey]
  exact .bind reads_advance (.pure _)

theorem absence (hkey : keyword.kind = .nilKeyword) :
    Complete .primary ⟨keyword :: ts, n⟩ (.constant .nil) ⟨ts, n⟩ := by
  intro fuel s
  rcases fuel with _ | fuel
  · exact .inl rfl
  rw [primary]
  refine reads_peek ?_
  simp only [List.headD_cons, hkey]
  exact .bind reads_advance (.pure _)

theorem reference (hname : name.kind = .identifier) :
    Complete .primary ⟨name :: ts, n⟩ (.variable n name) ⟨ts, n + 1⟩ := by
  intro fuel s
  rcases fuel with _ | fuel
  · exact .inl rfl
  rw [primary]
  refine reads_peek ?_
  simp only [List.headD_cons, hname]
  refine .bind reads_advance ?_
  exact .bind reads_newId (.pure _)

theorem self (hkey : keyword.kind = .thisKeyword) :
    Complete .primary ⟨keyword :: ts, n⟩ (.self n keyword) ⟨ts, n + 1⟩ := by
  intro fuel s
  rcases fuel with _ | fuel
  · exact .inl rfl
  rw [primary]
  refine reads_peek ?_
  simp only [List.headD_cons, hkey]
  refine .bind reads_advance ?_
  exact .bind reads_newId (.pure _)

theorem function {parameters : List Token} {body : List Stmt}
    (hkey : keyword.kind = .funKeyword)
    (ih : Complete .function ⟨ts, n⟩ (parameters, body) q) :
    Complete .primary ⟨keyword :: ts, n⟩ (.function { name := none, parameters, body })
      q := by
  intro fuel s
  rcases fuel with _ | fuel
  · exact .inl rfl
  rw [primary]
  refine reads_peek ?_
  simp only [List.headD_cons, hkey]
  refine .bind reads_advance ?_
  exact .bind (ih fuel none .inlineFunction s) (.pure _)

theorem grouping {inner : Expr} (hlp : lp.kind = .leftParen)
    (ih : Complete .list ⟨ts, n⟩ inner ⟨rp :: us, m⟩) (hrp : rp.kind = .rightParen) :
    Complete .primary ⟨lp :: ts, n⟩ (.grouping inner) ⟨us, m⟩ := by
  intro fuel s
  rcases fuel with _ | fuel
  · exact .inl rfl
  rw [primary]
  refine reads_peek ?_
  simp only [List.headD_cons, hlp]
  refine .bind reads_advance ?_
  refine .bind (endedList ih hrp (by decide) fuel s) ?_
  exact .bind (reads_expect hrp) (.pure _)

/-! ### Assignments -/

theorem nameAssignment {equals : Token} {value : Expr} (hname : name.kind = .identifier)
    (hequals : equals.kind = .equal) (ih : Complete .assignment ⟨ts, n + 1⟩ value q) :
    Complete .assignment ⟨name :: equals :: ts, n⟩ (.assign n name value) q := by
  intro fuel s hq
  rcases fuel with _ | fuel
  · exact .inl rfl
  rw [assignment]
  have hp : (⟨name :: equals :: ts, n⟩ : Point).nextKind ∈ callStarts := by
    rw [Point.nextKind, List.headD_cons, hname]
    decide
  refine .bind (target hp (noCall (reference hname)) hequals fuel s) ?_
  refine .bind (reads_accept_some (by simp [hequals])) ?_
  exact .bind (ih fuel s hq) (.pure _)

theorem propertyAssignment {dot equals : Token} {object value : Expr}
    (hp : p.nextKind ∈ callStarts)
    (ih₁ : Complete .call p object ⟨dot :: name :: equals :: ts, m⟩) (hdot : dot.kind = .dot)
    (hname : name.kind = .identifier) (hequals : equals.kind = .equal)
    (ih₂ : Complete .assignment ⟨ts, m⟩ value q) :
    Complete .assignment p (.set object name value) q := by
  intro fuel s hq
  rcases fuel with _ | fuel
  · exact .inl rfl
  rw [assignment]
  refine .bind (target hp (property ih₁ hdot hname) hequals fuel s) ?_
  refine .bind (reads_accept_some (by simp [hequals])) ?_
  exact .bind (ih₂ fuel s hq) (.pure _)

end Complete

/-- Where declarations begin or end. -/
theorem declarations_begin {c : Convention} {l : Bool} {found : List Stmt}
    (h : Derives c (.declarations l) p found q) : p = q ∨ p.nextKind ∈ declarationStarts := by
  cases h with
  | noDeclaration => exact .inl rfl
  | moreDeclarations h _ => exact .inr (begins h)

/-- The rule of a symbol reads every derivation of the symbol. -/
theorem complete {symbol : Symbol} {v : symbol.Tree}
    (h : Derives .standard symbol p v q) : Complete symbol p v q := by
  induction h with
  | noDeclaration => exact .noDeclaration
  | moreDeclarations h₁ h₂ ih₁ ih₂ =>
    exact .moreDeclarations (begins h₁) (declarations_begin h₂) ih₁ ih₂
  | classDeclaration hkey hname hopening _ hclosing ih =>
    exact .classDeclaration hkey hname hopening ih hclosing
  | functionDeclaration hkey hname _ ih =>
    refine .plainStatement ?_ (.functionStatement (d := false) hkey hname ih)
    rw [Point.nextKind, List.headD_cons, hkey]
    decide
  | variableDeclaration hkey _ ih => exact .variableDeclaration hkey ih
  | plainStatement h ih => exact .plainStatement (begins h) ih
  | noMethod => exact .noMethod
  | namedMethod _ hname _ _ ih₁ ih₂ => exact .namedMethod hname ih₁ ih₂
  | namelessMethod hc => cases hc
  | functionWithout hlp hrp hlb _ hrb ih => exact .functionWithout hlp hrp hlb ih hrb
  | functionWith hlp h hle hrp hlb _ hrb ih₁ ih₂ =>
    exact .functionWith hlp (begins h) ih₁ hle hrp hlb ih₂ hrb
  | lastParameter hname => exact .lastParameter hname
  | moreParameters hname hcomma _ ih => exact .moreParameters hname hcomma ih
  | variableWithout hname hfinish => exact .variableWithout hname hfinish
  | variableWith hname hequals _ hfinish ih => exact .variableWith hname hequals ih hfinish
  | forStatement hkey hlp _ _ hfinish _ hrp _ ih₁ ih₂ ih₃ ih₄ =>
    exact .forStatement hkey hlp ih₁ ih₂ hfinish ih₃ hrp ih₄
  | branch hkey hlp _ hrp _ ih₁ ih₂ => exact .branch hkey hlp ih₁ hrp ih₂
  | branches hkey hlp _ hrp _ hd hother _ ih₁ ih₂ ih₃ =>
    cases hd rfl
    exact .branches hkey hlp ih₁ hrp ih₂ hother ih₃
  | printStatement hkey _ hfinish ih => exact .printStatement hkey ih hfinish
  | returnWithout hkey hfinish => exact .returnWithout hkey hfinish
  | returnWith hkey h hfinish ih => exact .returnWith hkey (begins h).1 ih hfinish
  | whileStatement hkey hlp _ hrp _ ih₁ ih₂ => exact .whileStatement hkey hlp ih₁ hrp ih₂
  | breakStatement hkey hfinish => exact .breakStatement hkey hfinish
  | block hopening _ hclosing ih => exact .block hopening ih hclosing
  | functionStatement hkey hname _ ih => exact .functionStatement hkey hname ih
  | expressionStatement h hfinish ih => exact .expressionStatement (begins h) ih hfinish
  | noInitializer hfinish => exact .noInitializer hfinish
  | variableInitializer hkey _ ih => exact .variableInitializer hkey ih
  | expressionInitializer h hfinish ih => exact .expressionInitializer (begins h).1 ih hfinish
  | noList => exact .noList
  | someList h ih => exact .someList (begins h).1 ih
  | single _ ih => exact .single ih
  | comma _ hoperator _ ih₁ ih₂ => exact .comma ih₁ hoperator ih₂
  | unconditional _ ih => exact .unconditional ih
  | ternary _ hquestion _ hcolon _ ih₁ ih₂ ih₃ =>
    exact .ternary ih₁ hquestion ih₂ hcolon ih₃
  | nameAssignment hname hequals _ ih => exact .nameAssignment hname hequals ih
  | propertyAssignment h hdot hname hequals _ ih₁ ih₂ =>
    exact .propertyAssignment (begins h).1 ih₁ hdot hname hequals ih₂
  | noAssignment _ ih => exact .noAssignment ih
  | tighter _ ih => exact .tighter ih
  | operation _ hoperator _ ih₁ ih₂ => exact .operation ih₁ hoperator ih₂
  | tightest _ ih => exact .tightest ih
  | unaryOperation hoperator _ ih => exact .unaryOperation hoperator ih
  | noOperation h ih => exact .noOperation (begins h).1 ih
  | noCall _ ih => exact .noCall ih
  | callWithout _ hlp hrp ih => exact .callWithout ih hlp hrp
  | callWith _ hlp h hle hrp ih₁ ih₂ => exact .callWith ih₁ hlp (begins h).1 ih₂ hle hrp
  | property _ hdot hname ih => exact .property ih hdot hname
  | lastArgument _ ih => exact .lastArgument ih
  | moreArguments _ hseparator _ ih₁ ih₂ => exact .moreArguments ih₁ hseparator ih₂
  | falsity hkey => exact .falsity hkey
  | truth hkey => exact .truth hkey
  | absence hkey => exact .absence hkey
  | literal htoken => exact .literal htoken
  | reference hname => exact .reference hname
  | self hkey => exact .self hkey
  | function hkey _ ih => exact .function hkey ih
  | grouping hlp _ hrp ih => exact .grouping hlp ih hrp

end Parse

end TreeScript
