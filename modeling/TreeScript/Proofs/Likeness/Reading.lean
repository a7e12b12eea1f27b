import TreeScript.Proofs.Likeness.Trees
import TreeScript.Proofs.Parsing.Progress

/-!
# Parsing alike tokens

* `Diagnostic.Alike` — the same fault at alike tokens
* `Feed` — which tokens may be read in place of which, under a likeness
* `Parse.Alike` — two steps that do the same on alike states
* `alike` — every rule of the grammar reads alike trees from alike tokens
* `Program.ofTokens_alike` — and so does a whole program, with a fault or without
-/

namespace TreeScript

/-! ## Alike diagnostics -/

/-- The same fault, at alike tokens if it has a place in the tokens. -/
inductive Diagnostic.Alike (token : Token → Token → Prop) : Diagnostic → Diagnostic → Prop
  | lex (fault : LexFault) (line : Nat) : Alike token (.lex fault line) (.lex fault line)
  | grammar {t u} (fault : GrammarFault) : token t u →
      Alike token (.grammarAt t fault) (.grammarAt u fault)
  | scope {t u} (fault : ScopeFault) : token t u →
      Alike token (.scopeAt t fault) (.scopeAt u fault)
  | run {t u : Token} (fault : RunFault) : token t u →
      Alike token (.run fault t.line) (.run fault u.line)
  | output (fault : OutputFault) : Alike token (.output fault) (.output fault)

namespace Diagnostic.Alike

variable {token : Token → Token → Prop} {d e : Diagnostic}

theorem message (h : d.Alike token e) : e.message = d.message := by
  cases h <;> rfl

theorem isStatic (h : d.Alike token e) : e.isStatic = d.isStatic := by
  cases h <;> rfl

theorem isRuntime (h : d.Alike token e) : e.isRuntime = d.isRuntime := by
  cases h <;> rfl

theorem eq (h : d.Alike token e) (ht : ∀ t u, token t u → u = t) : e = d := by
  cases h with
  | lex | output => rfl
  | grammar _ h | scope _ h | run _ h => rw [ht _ _ h]

theorem imp {place : Token → Token → Prop} (h : d.Alike token e)
    (ht : ∀ t u, token t u → place t u) : d.Alike place e := by
  cases h with
  | lex fault line => exact .lex fault line
  | grammar fault h => exact .grammar fault (ht _ _ h)
  | scope fault h => exact .scope fault (ht _ _ h)
  | run fault h => exact .run fault (ht _ _ h)
  | output fault => exact .output fault

end Diagnostic.Alike

/-! ## Readings -/

/-- The reserved words, the text of which nothing looks at.  `this` is looked up by its
text. -/
def TokenKind.isTextless : TokenKind → Bool
  | .andKeyword | .breakKeyword | .classKeyword | .elseKeyword | .falseKeyword
  | .funKeyword | .forKeyword | .ifKeyword | .nilKeyword | .orKeyword | .printKeyword
  | .returnKeyword | .superKeyword | .trueKeyword | .varKeyword | .whileKeyword => true
  | _ => false

/-- Which tokens may be read in place of which, and which identities may be handed out in
place of which, so that the trees are alike. -/
structure Feed (L : Likeness) where
  read : Token → Token → Prop
  supply : ReferenceId → ReferenceId → Prop
  finish : read (Token.finish 1) (Token.finish 1)
  kind : ∀ {t u}, read t u → u.kind = t.kind
  literal : ∀ {t u}, read t u → u.literal = t.literal
  lexeme : ∀ {t u}, read t u → t.kind.isTextless = false → u.lexeme = t.lexeme
  token : ∀ {t u}, read t u → t.kind ≠ .endOfInput → L.token t u
  id : ∀ {i j}, supply i j → L.id i j
  next : ∀ {i j}, supply i j → supply (i + 1) (j + 1)
  function : ∀ d, L.function d

namespace Feed

variable {L : Likeness} (R : Feed L) {t u : Token} {kind : TokenKind}

/-- A token of a kind that is not the end mark. -/
theorem token_of (h : R.read t u) (hk : t.kind = kind) (he : kind ≠ .endOfInput) :
    L.token t u :=
  R.token h (hk ▸ he)

theorem name_of (h : R.read t u) (hk : t.kind = kind) (he : kind ≠ .endOfInput)
    (ht : kind.isTextless = false) : L.Name t u :=
  ⟨R.token_of h hk he, R.lexeme h (hk ▸ ht)⟩

theorem operator_of (h : R.read t u) (he : t.kind ≠ .endOfInput) : L.Operator t u :=
  ⟨R.token h he, R.kind h⟩

/-- The next tokens; past the end there is an end mark. -/
theorem head {ts us : List Token} (h : List.Forall₂ R.read ts us) :
    R.read (ts.headD (Token.finish 1)) (us.headD (Token.finish 1)) := by
  cases h with
  | nil => exact R.finish
  | cons h _ => exact h

theorem kindOfHead? {ts us : List Token} (h : List.Forall₂ R.read ts us) :
    us.head?.map Token.kind = ts.head?.map Token.kind := by
  cases h with
  | nil => rfl
  | cons h _ => exact congrArg some (R.kind h)

end Feed

/-- States in which the same is left to parse, up to a reading. -/
structure ParseState.Alike {L : Likeness} (R : Feed L) (s t : ParseState) : Prop where
  rest : List.Forall₂ R.read s.rest t.rest
  nextId : R.supply s.nextId t.nextId
  loopDepth : t.loopDepth = s.loopDepth
  diagnostics : List.Forall₂ (Diagnostic.Alike R.read) s.diagnostics t.diagnostics

/-- Steps that end in the same way, with alike results in alike states. -/
def Reply.Alike {L : Likeness} (R : Feed L) {α β : Type} (P : α → β → Prop) :
    Reply α → Reply β → Prop
  | .ok a s, .ok b t => P a b ∧ s.Alike R t
  | .failed s, .failed t => s.Alike R t
  | .outOfFuel, .outOfFuel => True
  | _, _ => False

/-- Steps that do the same on alike states. -/
def Parse.Alike {L : Likeness} (R : Feed L) {α β : Type} (P : α → β → Prop)
    (p : Parse α) (q : Parse β) : Prop :=
  ∀ ⦃s t : ParseState⦄, s.Alike R t → (p s).Alike R P (q t)

namespace ParseState.Alike

variable {L : Likeness} {R : Feed L} {s t : ParseState}

theorem drop (h : s.Alike R t) :
    ParseState.Alike R { s with rest := s.rest.drop 1 } { t with rest := t.rest.drop 1 } :=
  { h with rest := List.forall₂_drop 1 h.rest }

theorem report (h : s.Alike R t) {d e : Diagnostic} (hd : d.Alike R.read e) :
    ParseState.Alike R { s with diagnostics := s.diagnostics ++ [d] }
      { t with diagnostics := t.diagnostics ++ [e] } :=
  { h with diagnostics := List.rel_append h.diagnostics (.cons hd .nil) }

end ParseState.Alike

namespace Parse

section Steps

variable {L : Likeness} {R : Feed L} {α β γ δ : Type} {P : α → β → Prop}
  {Q : γ → δ → Prop}

/-! ## Sequencing -/

theorem Alike.pure {a : α} {b : β} (h : P a b) :
    Parse.Alike R P (Pure.pure a : Parse α) (Pure.pure b) :=
  fun _ _ hs => ⟨h, hs⟩

theorem Alike.bind {p : Parse α} {q : Parse β} {f : α → Parse γ} {g : β → Parse δ}
    (h : p.Alike R P q) (hn : ∀ a b, P a b → (f a).Alike R Q (g b)) :
    Parse.Alike R Q (p >>= f) (q >>= g) := by
  intro s t hs
  show Reply.Alike R Q (Parse.bind p f s) (Parse.bind q g t)
  unfold Parse.bind
  have hr := h hs
  cases hp : p s <;> cases hq : q t <;> rw [hp, hq] at hr
  case ok.ok a s b t => exact hn a b hr.1 hr.2
  case failed.failed => exact hr
  case outOfFuel.outOfFuel => trivial
  all_goals exact hr.elim

theorem alike_stuck : Parse.Alike R P stuck stuck :=
  fun _ _ _ => trivial

theorem alike_fail : Parse.Alike R P fail fail :=
  fun _ _ hs => hs

theorem alike_attempt {p : Parse α} {q : Parse β} (h : p.Alike R P q) :
    Parse.Alike R (fun _ _ => True) (attempt p) (attempt q) := by
  intro s t hs
  unfold attempt
  have hr := h hs
  cases hp : p s <;> cases hq : q t <;> rw [hp, hq] at hr
  case ok.ok => exact ⟨trivial, hr.2⟩
  case failed.failed => exact ⟨trivial, hr⟩
  case outOfFuel.outOfFuel => trivial
  all_goals exact hr.elim

/-! ## Tokens -/

theorem alike_peek : Parse.Alike R R.read peek peek :=
  fun _ _ hs => ⟨R.head hs.rest, hs⟩

theorem alike_peekKind : Parse.Alike R (fun k k' => k' = k) peekKind peekKind :=
  .bind alike_peek fun _ _ h => .pure (R.kind h)

theorem alike_kindAfterNext? :
    Parse.Alike R (fun k k' => k' = k) kindAfterNext? kindAfterNext? :=
  fun _ _ hs => ⟨R.kindOfHead? (List.forall₂_drop 1 hs.rest), hs⟩

theorem alike_advance : Parse.Alike R (fun _ _ => True) advance advance :=
  fun _ _ hs => ⟨trivial, hs.drop⟩

theorem alike_accept? (kinds : List TokenKind) :
    Parse.Alike R (Option.Rel fun t u => R.read t u ∧ t.kind ∈ kinds) (accept? kinds)
      (accept? kinds) := by
  refine .bind alike_peek fun t u h => ?_
  rw [R.kind h]
  split
  · rename_i hk
    exact .bind alike_advance fun _ _ _ => .pure (.some ⟨h, hk⟩)
  · exact .pure .none

theorem alike_newId : Parse.Alike R R.supply newId newId :=
  fun _ _ hs => ⟨hs.nextId, { hs with nextId := R.next hs.nextId }⟩

/-! ## Faults -/

theorem alike_report {t u : Token} (h : R.read t u) (fault : GrammarFault) :
    Parse.Alike R (fun _ _ => True) (report t fault) (report u fault) :=
  fun _ _ hs => ⟨trivial, hs.report (.grammar fault h)⟩

theorem alike_reject {t u : Token} (h : R.read t u) (fault : GrammarFault) :
    Parse.Alike R P (reject t fault) (reject u fault) :=
  .bind (alike_report h fault) fun _ _ _ => alike_fail

theorem alike_expect (slot : Slot) :
    Parse.Alike R (fun t u => R.read t u ∧ t.kind = slot.kind) (expect slot)
      (expect slot) := by
  refine .bind alike_peek fun t u h => ?_
  rw [R.kind h]
  split
  · rename_i hk
    exact .bind alike_advance fun _ _ _ => .pure ⟨h, hk⟩
  · exact alike_reject h _

/-- A token that a slot requires, and a name. -/
theorem alike_expectName (slot : Slot) (hk : slot.kind = .identifier) :
    Parse.Alike R L.Name (expect slot) (expect slot) := by
  intro s t hs
  have hr := alike_expect (R := R) slot hs
  cases hp : expect slot s <;> cases hq : expect slot t <;> rw [hp, hq] at hr
  case ok.ok => exact ⟨R.name_of hr.1.1 (hr.1.2.trans hk) (by decide) rfl, hr.2⟩
  case failed.failed => exact hr
  case outOfFuel.outOfFuel => trivial
  all_goals exact hr.elim

/-! ## Optional parts, loops and recovery -/

theorem alike_unlessNext (kind : TokenKind) {p : Parse α} {q : Parse β}
    (h : p.Alike R P q) :
    Parse.Alike R (Option.Rel P) (unlessNext kind p) (unlessNext kind q) := by
  refine .bind alike_peekKind fun k k' hk => ?_
  subst hk
  split
  · exact .pure .none
  · exact .bind h fun _ _ ha => .pure (.some ha)

theorem alike_ifNext (kind : TokenKind) {p : Parse α} {q : Parse β} (h : p.Alike R P q) :
    Parse.Alike R (Option.Rel P) (ifNext kind p) (ifNext kind q) := by
  refine .bind (alike_accept? [kind]) fun o o' ho => ?_
  cases ho with
  | some _ => exact .bind h fun _ _ ha => .pure (.some ha)
  | none => exact .pure .none

theorem alike_atLoopDepth (depth : Nat → Nat) {p : Parse α} {q : Parse β}
    (h : p.Alike R P q) : Parse.Alike R P (atLoopDepth depth p) (atLoopDepth depth q) := by
  intro s t hs
  unfold atLoopDepth
  have hr := h (s := { s with loopDepth := depth s.loopDepth })
    (t := { t with loopDepth := depth t.loopDepth })
    { hs with loopDepth := congrArg depth hs.loopDepth }
  split <;> rename_i hp <;> split <;> rename_i hq <;> rw [hp, hq] at hr
  · exact ⟨hr.1, { hr.2 with loopDepth := hs.loopDepth }⟩
  · exact hr.elim
  · exact hr.elim
  · exact hr.elim
  · exact { hr with loopDepth := hs.loopDepth }
  · exact hr.elim
  · exact hr.elim
  · exact hr.elim
  · trivial

theorem alike_loopDepth : Parse.Alike R (fun n n' => n' = n) loopDepth loopDepth :=
  fun _ _ hs => ⟨hs.loopDepth, hs⟩

theorem skipToBoundary_alike {ts us : List Token} (h : List.Forall₂ R.read ts us)
    (last : TokenKind) :
    List.Forall₂ R.read (skipToBoundary last ts) (skipToBoundary last us) := by
  induction h generalizing last with
  | nil => exact .nil
  | cons h hs ih =>
    rw [skipToBoundary, skipToBoundary, R.kind h]
    split
    · exact .cons h hs
    · exact ih _

theorem synchronize_alike {ts us : List Token} (h : List.Forall₂ R.read ts us) :
    List.Forall₂ R.read (synchronize ts) (synchronize us) := by
  cases h with
  | nil => exact .nil
  | cons h hs =>
    rw [synchronize, synchronize, R.kind h]
    split
    · exact .cons h hs
    · exact skipToBoundary_alike hs _

theorem alike_recover {p : Parse α} {q : Parse β} (h : p.Alike R P q) :
    Parse.Alike R (Option.Rel P) (recover p) (recover q) := by
  intro s t hs
  unfold recover
  have hr := h hs
  cases hp : p s <;> cases hq : q t <;> rw [hp, hq] at hr
  case ok.ok => exact ⟨.some hr.1, hr.2⟩
  case failed.failed => exact ⟨.none, { hr with rest := synchronize_alike hr.rest }⟩
  case outOfFuel.outOfFuel => trivial
  all_goals exact hr.elim

theorem alike_limit (count : Nat) (fault : GrammarFault) :
    Parse.Alike R (fun _ _ => True) (limit count fault) (limit count fault) := by
  unfold limit
  split
  · exact .bind alike_peek fun _ _ h => alike_report h fault
  · exact .pure trivial

theorem alike_requireLoop {t u : Token} (h : R.read t u) :
    Parse.Alike R (fun _ _ => True) (requireLoop t) (requireLoop u) := by
  refine .bind alike_loopDepth fun n n' hn => ?_
  subst hn
  split
  · exact alike_report h _
  · exact .pure trivial

end Steps

/-! ## Rules -/

/-- All rules read alike trees, at one amount of fuel. -/
structure AlikeAt {L : Likeness} (R : Feed L) (fuel : Nat) : Prop where
  parameters : ∀ count,
    Parse.Alike R (List.Forall₂ L.Name) (parameters fuel count) (parameters fuel count)
  declaration :
    Parse.Alike R (Option.Rel (Stmt.Alike L)) (declaration fuel) (declaration fuel)
  declarationOrFail :
    Parse.Alike R (Stmt.Alike L) (declarationOrFail fuel) (declarationOrFail fuel)
  declarations : ∀ inBlock, Parse.Alike R (List.Forall₂ (Stmt.Alike L))
    (declarations fuel inBlock) (declarations fuel inBlock)
  classDeclaration :
    Parse.Alike R (Stmt.Alike L) (classDeclaration fuel) (classDeclaration fuel)
  methods : Parse.Alike R (List.Forall₂ (FunctionDecl.Alike L)) (methods fuel) (methods fuel)
  namedFunction : ∀ role, Parse.Alike R (FunctionDecl.Alike L) (namedFunction fuel role)
    (namedFunction fuel role)
  functionRest : ∀ {name name'} role, Option.Rel L.Name name name' →
    Parse.Alike R (FunctionDecl.Alike L) (functionRest fuel name role)
      (functionRest fuel name' role)
  varDeclaration :
    Parse.Alike R (Stmt.Alike L) (varDeclaration fuel) (varDeclaration fuel)
  statement : Parse.Alike R (Stmt.Alike L) (statement fuel) (statement fuel)
  forStatement : Parse.Alike R (Stmt.Alike L) (forStatement fuel) (forStatement fuel)
  forInitializer : Parse.Alike R (Option.Rel (Stmt.Alike L)) (forInitializer fuel)
    (forInitializer fuel)
  ifStatement : Parse.Alike R (Stmt.Alike L) (ifStatement fuel) (ifStatement fuel)
  whileStatement : Parse.Alike R (Stmt.Alike L) (whileStatement fuel) (whileStatement fuel)
  blockRest : Parse.Alike R (List.Forall₂ (Stmt.Alike L)) (blockRest fuel) (blockRest fuel)
  expressionStatement :
    Parse.Alike R (Stmt.Alike L) (expressionStatement fuel) (expressionStatement fuel)
  expressionList : Parse.Alike R (Expr.Alike L) (expressionList fuel) (expressionList fuel)
  expressionListRest : ∀ {e e'}, e.Alike L e' → Parse.Alike R (Expr.Alike L)
    (expressionListRest fuel e) (expressionListRest fuel e')
  conditional : Parse.Alike R (Expr.Alike L) (conditional fuel) (conditional fuel)
  assignment : Parse.Alike R (Expr.Alike L) (assignment fuel) (assignment fuel)
  binaryLevels : ∀ ls, ls <:+ levels →
    Parse.Alike R (Expr.Alike L) (binaryLevels fuel ls) (binaryLevels fuel ls)
  binaryRest : ∀ level tighter {e e'}, level :: tighter <:+ levels → e.Alike L e' →
    Parse.Alike R (Expr.Alike L) (binaryRest fuel level tighter e)
      (binaryRest fuel level tighter e')
  unary : Parse.Alike R (Expr.Alike L) (unary fuel) (unary fuel)
  callRest : ∀ {e e'}, e.Alike L e' →
    Parse.Alike R (Expr.Alike L) (callRest fuel e) (callRest fuel e')
  arguments : ∀ count, Parse.Alike R (List.Forall₂ (Expr.Alike L)) (arguments fuel count)
    (arguments fuel count)
  primary : Parse.Alike R (Expr.Alike L) (primary fuel) (primary fuel)
  strayTernary : Parse.Alike R (Expr.Alike L) (strayTernary fuel) (strayTernary fuel)

namespace AlikeAt

variable {L : Likeness} {R : Feed L} {fuel : Nat}

theorem zero : AlikeAt R 0 := by
  constructor <;> intros
  · rw [Parse.parameters]; exact alike_stuck
  · rw [Parse.declaration]; exact alike_stuck
  · rw [Parse.declarationOrFail]; exact alike_stuck
  · rw [Parse.declarations]; exact alike_stuck
  · rw [Parse.classDeclaration]; exact alike_stuck
  · rw [Parse.methods]; exact alike_stuck
  · rw [Parse.namedFunction]; exact alike_stuck
  · rw [Parse.functionRest, Parse.functionRest]; exact alike_stuck
  · rw [Parse.varDeclaration]; exact alike_stuck
  · rw [Parse.statement]; exact alike_stuck
  · rw [Parse.forStatement]; exact alike_stuck
  · rw [Parse.forInitializer]; exact alike_stuck
  · rw [Parse.ifStatement]; exact alike_stuck
  · rw [Parse.whileStatement]; exact alike_stuck
  · rw [Parse.blockRest]; exact alike_stuck
  · rw [Parse.expressionStatement]; exact alike_stuck
  · rw [Parse.expressionList]; exact alike_stuck
  · rw [Parse.expressionListRest, Parse.expressionListRest]; exact alike_stuck
  · rw [Parse.conditional]; exact alike_stuck
  · rw [Parse.assignment]; exact alike_stuck
  · rw [Parse.binaryLevels]; exact alike_stuck
  · rw [Parse.binaryRest, Parse.binaryRest]; exact alike_stuck
  · rw [Parse.unary]; exact alike_stuck
  · rw [Parse.callRest, Parse.callRest]; exact alike_stuck
  · rw [Parse.arguments]; exact alike_stuck
  · rw [Parse.primary]; exact alike_stuck
  · rw [Parse.strayTernary]; exact alike_stuck

/-! ### Declarations -/

theorem parameters_step (ih : AlikeAt R fuel) (count : Nat) :
    Parse.Alike R (List.Forall₂ L.Name) (Parse.parameters (fuel + 1) count)
      (Parse.parameters (fuel + 1) count) := by
  rw [Parse.parameters]
  refine .bind (alike_limit count _) fun _ _ _ => ?_
  refine .bind (alike_expectName .parameterName rfl) fun t u ht => ?_
  refine .bind (alike_accept? _) fun o o' ho => ?_
  cases ho with
  | some _ => exact .bind (ih.parameters _) fun _ _ hts => .pure (.cons ht hts)
  | none => exact .pure (.cons ht .nil)

theorem declaration_step (ih : AlikeAt R fuel) :
    Parse.Alike R (Option.Rel (Stmt.Alike L)) (Parse.declaration (fuel + 1))
      (Parse.declaration (fuel + 1)) := by
  rw [Parse.declaration]
  exact alike_recover ih.declarationOrFail

theorem declarationOrFail_step (ih : AlikeAt R fuel) :
    Parse.Alike R (Stmt.Alike L) (Parse.declarationOrFail (fuel + 1))
      (Parse.declarationOrFail (fuel + 1)) := by
  rw [Parse.declarationOrFail]
  refine .bind alike_peekKind fun k k' hk => ?_
  subst hk
  split
  · exact .bind alike_advance fun _ _ _ => ih.classDeclaration
  · exact .bind alike_advance fun _ _ _ => ih.varDeclaration
  · exact ih.statement

theorem declarations_step (ih : AlikeAt R fuel) (inBlock : Bool) :
    Parse.Alike R (List.Forall₂ (Stmt.Alike L)) (Parse.declarations (fuel + 1) inBlock)
      (Parse.declarations (fuel + 1) inBlock) := by
  rw [Parse.declarations]
  refine .bind alike_peekKind fun k k' hk => ?_
  subst hk
  split
  · exact .pure .nil
  · refine .bind ih.declaration fun o o' ho => ?_
    refine .bind (ih.declarations inBlock) fun ss ss' hss => .pure ?_
    cases ho with
    | some hs => exact .cons hs hss
    | none => exact hss

theorem classDeclaration_step (ih : AlikeAt R fuel) :
    Parse.Alike R (Stmt.Alike L) (Parse.classDeclaration (fuel + 1))
      (Parse.classDeclaration (fuel + 1)) := by
  rw [Parse.classDeclaration]
  refine .bind (alike_expectName .className rfl) fun t u ht => ?_
  refine .bind (alike_expect _) fun _ _ _ => ?_
  refine .bind ih.methods fun ds ds' hds => ?_
  exact .bind (alike_expect _) fun _ _ _ => .pure (.classDecl ht hds)

theorem methods_step (ih : AlikeAt R fuel) :
    Parse.Alike R (List.Forall₂ (FunctionDecl.Alike L)) (Parse.methods (fuel + 1))
      (Parse.methods (fuel + 1)) := by
  rw [Parse.methods]
  refine .bind alike_peekKind fun k k' hk => ?_
  subst hk
  split
  · exact .pure .nil
  · refine .bind (ih.namedFunction _) fun d d' hd => ?_
    exact .bind ih.methods fun _ _ hds => .pure (.cons hd hds)

theorem namedFunction_step (ih : AlikeAt R fuel) (role : FunctionRole) :
    Parse.Alike R (FunctionDecl.Alike L) (Parse.namedFunction (fuel + 1) role)
      (Parse.namedFunction (fuel + 1) role) := by
  rw [Parse.namedFunction]
  exact .bind (alike_expectName (.functionName role) rfl) fun _ _ ht =>
    ih.functionRest role (.some ht)

theorem functionRest_step (ih : AlikeAt R fuel) {name name' : Option Token}
    (role : FunctionRole) (hn : Option.Rel L.Name name name') :
    Parse.Alike R (FunctionDecl.Alike L) (Parse.functionRest (fuel + 1) name role)
      (Parse.functionRest (fuel + 1) name' role) := by
  rw [Parse.functionRest, Parse.functionRest]
  refine .bind (alike_expect _) fun _ _ _ => ?_
  refine .bind (alike_unlessNext _ (ih.parameters 0)) fun ts ts' hts => ?_
  refine .bind (alike_expect _) fun _ _ _ => ?_
  refine .bind (alike_expect _) fun _ _ _ => ?_
  refine .bind (alike_atLoopDepth _ ih.blockRest) fun ss ss' hss => .pure ?_
  refine .mk (R.function _) hn ?_ hss
  cases hts with
  | some hts => exact hts
  | none => exact .nil

theorem varDeclaration_step (ih : AlikeAt R fuel) :
    Parse.Alike R (Stmt.Alike L) (Parse.varDeclaration (fuel + 1))
      (Parse.varDeclaration (fuel + 1)) := by
  rw [Parse.varDeclaration]
  refine .bind (alike_expectName .variableName rfl) fun t u ht => ?_
  refine .bind (alike_ifNext _ ih.conditional) fun o o' ho => ?_
  exact .bind (alike_expect _) fun _ _ _ => .pure (.varDecl ht ho)

/-! ### Statements -/

theorem statement_step (ih : AlikeAt R fuel) :
    Parse.Alike R (Stmt.Alike L) (Parse.statement (fuel + 1))
      (Parse.statement (fuel + 1)) := by
  rw [Parse.statement]
  refine .bind alike_peek fun t u ht => ?_
  rw [R.kind ht]
  generalize hk : t.kind = kind
  split
  · exact .bind alike_advance fun _ _ _ => ih.forStatement
  · exact .bind alike_advance fun _ _ _ => ih.ifStatement
  · refine .bind alike_advance fun _ _ _ => ?_
    refine .bind ih.expressionList fun _ _ he => ?_
    exact .bind (alike_expect _) fun _ _ _ => .pure (.print he)
  · refine .bind alike_advance fun _ _ _ => ?_
    refine .bind (alike_unlessNext _ ih.conditional) fun _ _ he => ?_
    refine .bind (alike_expect _) fun _ _ _ => .pure ?_
    exact .giveBack (R.token_of ht hk (by decide)) he
  · exact .bind alike_advance fun _ _ _ => ih.whileStatement
  · refine .bind alike_advance fun _ _ _ => ?_
    refine .bind (alike_requireLoop ht) fun _ _ _ => ?_
    refine .bind (alike_expect _) fun _ _ _ => .pure ?_
    exact .leave (R.token_of ht hk (by decide))
  · refine .bind alike_advance fun _ _ _ => ?_
    exact .bind ih.blockRest fun _ _ hs => .pure (.block hs)
  · refine .bind alike_kindAfterNext? fun k k' hk' => ?_
    subst hk'
    split
    · refine .bind alike_advance fun _ _ _ => ?_
      exact .bind (ih.namedFunction _) fun _ _ hd => .pure (.function hd)
    · exact ih.expressionStatement
  · exact ih.expressionStatement

theorem forStatement_step (ih : AlikeAt R fuel) :
    Parse.Alike R (Stmt.Alike L) (Parse.forStatement (fuel + 1))
      (Parse.forStatement (fuel + 1)) := by
  rw [Parse.forStatement]
  refine .bind (alike_expect _) fun _ _ _ => ?_
  refine .bind ih.forInitializer fun _ _ hs => ?_
  refine .bind (alike_unlessNext _ ih.expressionList) fun _ _ hc => ?_
  refine .bind (alike_expect _) fun _ _ _ => ?_
  refine .bind (alike_unlessNext _ ih.expressionList) fun _ _ hi => ?_
  refine .bind (alike_expect _) fun _ _ _ => ?_
  exact .bind (alike_atLoopDepth _ ih.statement) fun _ _ hb =>
    .pure (Stmt.forLoop_alike hs hc hi hb)

theorem forInitializer_step (ih : AlikeAt R fuel) :
    Parse.Alike R (Option.Rel (Stmt.Alike L)) (Parse.forInitializer (fuel + 1))
      (Parse.forInitializer (fuel + 1)) := by
  rw [Parse.forInitializer]
  refine .bind alike_peekKind fun k k' hk => ?_
  subst hk
  split
  · exact .bind alike_advance fun _ _ _ => .pure .none
  · refine .bind alike_advance fun _ _ _ => ?_
    exact .bind ih.varDeclaration fun _ _ hs => .pure (.some hs)
  · exact .bind ih.expressionStatement fun _ _ hs => .pure (.some hs)

theorem ifStatement_step (ih : AlikeAt R fuel) :
    Parse.Alike R (Stmt.Alike L) (Parse.ifStatement (fuel + 1))
      (Parse.ifStatement (fuel + 1)) := by
  rw [Parse.ifStatement]
  refine .bind (alike_expect _) fun _ _ _ => ?_
  refine .bind ih.expressionList fun _ _ he => ?_
  refine .bind (alike_expect _) fun _ _ _ => ?_
  refine .bind ih.statement fun _ _ hs => ?_
  exact .bind (alike_ifNext _ ih.statement) fun _ _ ho => .pure (.conditional he hs ho)

theorem whileStatement_step (ih : AlikeAt R fuel) :
    Parse.Alike R (Stmt.Alike L) (Parse.whileStatement (fuel + 1))
      (Parse.whileStatement (fuel + 1)) := by
  rw [Parse.whileStatement]
  refine .bind (alike_expect _) fun _ _ _ => ?_
  refine .bind ih.expressionList fun _ _ he => ?_
  refine .bind (alike_expect _) fun _ _ _ => ?_
  exact .bind (alike_atLoopDepth _ ih.statement) fun _ _ hs => .pure (.loop he hs)

theorem blockRest_step (ih : AlikeAt R fuel) :
    Parse.Alike R (List.Forall₂ (Stmt.Alike L)) (Parse.blockRest (fuel + 1))
      (Parse.blockRest (fuel + 1)) := by
  rw [Parse.blockRest]
  refine .bind (ih.declarations true) fun _ _ hs => ?_
  exact .bind (alike_expect _) fun _ _ _ => .pure hs

theorem expressionStatement_step (ih : AlikeAt R fuel) :
    Parse.Alike R (Stmt.Alike L) (Parse.expressionStatement (fuel + 1))
      (Parse.expressionStatement (fuel + 1)) := by
  rw [Parse.expressionStatement]
  refine .bind ih.expressionList fun _ _ he => ?_
  exact .bind (alike_expect _) fun _ _ _ => .pure (.expression he)

/-! ### Expressions -/

theorem expressionList_step (ih : AlikeAt R fuel) :
    Parse.Alike R (Expr.Alike L) (Parse.expressionList (fuel + 1))
      (Parse.expressionList (fuel + 1)) := by
  rw [Parse.expressionList]
  exact .bind ih.conditional fun _ _ he => ih.expressionListRest he

/-- An operator that is accepted is not the end mark. -/
theorem operator {kinds : List TokenKind} (hk : TokenKind.endOfInput ∉ kinds) {t u : Token}
    (h : R.read t u ∧ t.kind ∈ kinds) : L.Operator t u :=
  R.operator_of h.1 fun he => hk (he ▸ h.2)

theorem expressionListRest_step (ih : AlikeAt R fuel) {e e' : Expr} (he : e.Alike L e') :
    Parse.Alike R (Expr.Alike L) (Parse.expressionListRest (fuel + 1) e)
      (Parse.expressionListRest (fuel + 1) e') := by
  rw [Parse.expressionListRest, Parse.expressionListRest]
  refine .bind (alike_accept? _) fun o o' ho => ?_
  cases ho with
  | some ht =>
    exact .bind ih.conditional fun _ _ hr =>
      ih.expressionListRest (.binary he (operator (by decide) ht) hr)
  | none => exact .pure he

theorem conditional_step (ih : AlikeAt R fuel) :
    Parse.Alike R (Expr.Alike L) (Parse.conditional (fuel + 1))
      (Parse.conditional (fuel + 1)) := by
  rw [Parse.conditional]
  refine .bind ih.assignment fun _ _ hc => ?_
  refine .bind (alike_accept? _) fun o o' ho => ?_
  cases ho with
  | some ht =>
    refine .bind (alike_unlessNext _ ih.expressionList) fun _ _ ha => ?_
    refine .bind (alike_expect _) fun _ _ _ => ?_
    exact .bind ih.conditional fun _ _ hb =>
      .pure (.ternary hc (operator (by decide) ht).1 (Expr.Alike.getD ha .nil) hb)
  | none => exact .pure hc

theorem assignment_step (ih : AlikeAt R fuel) :
    Parse.Alike R (Expr.Alike L) (Parse.assignment (fuel + 1))
      (Parse.assignment (fuel + 1)) := by
  rw [Parse.assignment]
  refine .bind (ih.binaryLevels levels List.suffix_rfl) fun e e' he => ?_
  refine .bind (alike_accept? _) fun o o' ho => ?_
  cases ho with
  | some ht =>
    refine .bind ih.assignment fun v v' hv => ?_
    -- only a name or a property is assigned to
    cases he with
    | «variable» hi hn => exact .pure (.assign hi hn hv)
    | get ho hn => exact .pure (.set ho hn hv)
    | constant value => exact .bind (alike_report ht.1 _) fun _ _ _ => .pure (.constant value)
    | grouping h => exact .bind (alike_report ht.1 _) fun _ _ _ => .pure (.grouping h)
    | unary ho h => exact .bind (alike_report ht.1 _) fun _ _ _ => .pure (.unary ho h)
    | binary ha ho hb => exact .bind (alike_report ht.1 _) fun _ _ _ => .pure (.binary ha ho hb)
    | logical ha ho hb => exact .bind (alike_report ht.1 _) fun _ _ _ => .pure (.logical ha ho hb)
    | ternary hc hq ha hb =>
      exact .bind (alike_report ht.1 _) fun _ _ _ => .pure (.ternary hc hq ha hb)
    | assign hi hn h => exact .bind (alike_report ht.1 _) fun _ _ _ => .pure (.assign hi hn h)
    | call h hp hs => exact .bind (alike_report ht.1 _) fun _ _ _ => .pure (.call h hp hs)
    | set ha hn hb => exact .bind (alike_report ht.1 _) fun _ _ _ => .pure (.set ha hn hb)
    | self hi hn => exact .bind (alike_report ht.1 _) fun _ _ _ => .pure (.self hi hn)
    | function hd => exact .bind (alike_report ht.1 _) fun _ _ _ => .pure (.function hd)
  | none => exact .pure he

theorem binaryLevels_step (ih : AlikeAt R fuel) (ls : List Level) (hs : ls <:+ levels) :
    Parse.Alike R (Expr.Alike L) (Parse.binaryLevels (fuel + 1) ls)
      (Parse.binaryLevels (fuel + 1) ls) := by
  cases ls with
  | nil =>
    rw [Parse.binaryLevels]
    exact ih.unary
  | cons level tighter =>
    rw [Parse.binaryLevels]
    have ht : tighter <:+ levels := (List.suffix_cons level tighter).trans hs
    exact .bind (ih.binaryLevels tighter ht) fun _ _ he => ih.binaryRest level tighter hs he

theorem binaryRest_step (ih : AlikeAt R fuel) (level : Level) (tighter : List Level)
    {e e' : Expr} (hs : level :: tighter <:+ levels) (he : e.Alike L e') :
    Parse.Alike R (Expr.Alike L) (Parse.binaryRest (fuel + 1) level tighter e)
      (Parse.binaryRest (fuel + 1) level tighter e') := by
  rw [Parse.binaryRest, Parse.binaryRest]
  have hm : level ∈ levels := hs.subset (List.mem_cons_self ..)
  have ht : tighter <:+ levels := (List.suffix_cons level tighter).trans hs
  refine .bind (alike_accept? _) fun o o' ho => ?_
  cases ho with
  | some hop =>
    refine .bind (ih.binaryLevels tighter ht) fun _ _ hr => ?_
    exact ih.binaryRest level tighter hs
      (level.node_alike he (operator (OrderlyAt.endOfInput_not_mem_operators hm) hop) hr)
  | none => exact .pure he

theorem unary_step (ih : AlikeAt R fuel) :
    Parse.Alike R (Expr.Alike L) (Parse.unary (fuel + 1)) (Parse.unary (fuel + 1)) := by
  rw [Parse.unary]
  refine .bind (alike_accept? _) fun o o' ho => ?_
  cases ho with
  | some ht =>
    exact .bind ih.unary fun _ _ he => .pure (.unary (operator (by decide) ht) he)
  | none => exact .bind ih.primary fun _ _ he => ih.callRest he

theorem callRest_step (ih : AlikeAt R fuel) {e e' : Expr} (he : e.Alike L e') :
    Parse.Alike R (Expr.Alike L) (Parse.callRest (fuel + 1) e)
      (Parse.callRest (fuel + 1) e') := by
  rw [Parse.callRest, Parse.callRest]
  refine .bind alike_peekKind fun k k' hk => ?_
  subst hk
  split
  · refine .bind alike_advance fun _ _ _ => ?_
    refine .bind (alike_unlessNext _ (ih.arguments 0)) fun _ _ hes => ?_
    refine .bind (alike_expect _) fun _ _ ht => ?_
    refine ih.callRest (.call he (R.token_of ht.1 ht.2 (by decide)) ?_)
    cases hes with
    | some hes => exact hes
    | none => exact .nil
  · refine .bind alike_advance fun _ _ _ => ?_
    exact .bind (alike_expectName .propertyName rfl) fun _ _ ht => ih.callRest (.get he ht)
  · exact .pure he

theorem arguments_step (ih : AlikeAt R fuel) (count : Nat) :
    Parse.Alike R (List.Forall₂ (Expr.Alike L)) (Parse.arguments (fuel + 1) count)
      (Parse.arguments (fuel + 1) count) := by
  rw [Parse.arguments]
  refine .bind (alike_limit count _) fun _ _ _ => ?_
  refine .bind ih.conditional fun _ _ he => ?_
  refine .bind (alike_accept? _) fun o o' ho => ?_
  cases ho with
  | some _ => exact .bind (ih.arguments _) fun _ _ hes => .pure (.cons he hes)
  | none => exact .pure (.cons he .nil)

/-- What is read behind a reported fault is dropped. -/
theorem attempt_fail {p q : Parse Expr} (h : p.Alike R (Expr.Alike L) q) :
    Parse.Alike R (Expr.Alike L) (attempt p >>= fun _ => fail)
      (attempt q >>= fun _ => fail) :=
  .bind (alike_attempt h) fun _ _ _ => alike_fail

/-- The operators of which the right operand has a level are no words. -/
theorem isTextless_of_operandLevels? {kind : TokenKind} {tighter : List Level}
    (h : operandLevels? kind levels = some tighter) : kind.isTextless = false := by
  cases kind <;> first | rfl | cases h

theorem primary_step (ih : AlikeAt R fuel) :
    Parse.Alike R (Expr.Alike L) (Parse.primary (fuel + 1)) (Parse.primary (fuel + 1)) := by
  rw [Parse.primary]
  refine .bind alike_peek fun t u ht => ?_
  rw [R.kind ht]
  generalize hk : t.kind = kind
  split
  · exact .bind alike_advance fun _ _ _ => .pure (.constant _)
  · exact .bind alike_advance fun _ _ _ => .pure (.constant _)
  · exact .bind alike_advance fun _ _ _ => .pure (.constant _)
  · rw [R.literal ht]
    exact .bind alike_advance fun _ _ _ => .pure (.constant _)
  · rw [R.literal ht]
    exact .bind alike_advance fun _ _ _ => .pure (.constant _)
  · refine .bind alike_advance fun _ _ _ => .bind alike_newId fun _ _ hi => .pure ?_
    exact .variable (R.id hi) (R.name_of ht hk (by decide) rfl)
  · refine .bind alike_advance fun _ _ _ => .bind alike_newId fun _ _ hi => .pure ?_
    exact .self (R.id hi) (R.name_of ht hk (by decide) rfl)
  · refine .bind alike_advance fun _ _ _ => ?_
    exact .bind (ih.functionRest _ .none) fun _ _ hd => .pure (.function hd)
  · refine .bind alike_advance fun _ _ _ => .bind ih.expressionList fun _ _ he => ?_
    exact .bind (alike_expect _) fun _ _ _ => .pure (.grouping he)
  · exact .bind alike_advance fun _ _ _ => alike_reject ht _
  · refine .bind alike_advance fun _ _ _ => .bind (alike_report ht _) fun _ _ _ => ?_
    exact attempt_fail ih.conditional
  · refine .bind alike_advance fun _ _ _ => .bind (alike_report ht _) fun _ _ _ => ?_
    exact attempt_fail ih.strayTernary
  · cases ho : operandLevels? kind levels with
    | none => exact alike_reject ht _
    | some tighter =>
      simp only
      rw [R.lexeme ht (hk ▸ isTextless_of_operandLevels? ho)]
      refine .bind alike_advance fun _ _ _ => .bind (alike_report ht _) fun _ _ _ => ?_
      exact attempt_fail (ih.binaryLevels tighter (OrderlyAt.operandLevels?_suffix ho))

theorem strayTernary_step (ih : AlikeAt R fuel) :
    Parse.Alike R (Expr.Alike L) (Parse.strayTernary (fuel + 1))
      (Parse.strayTernary (fuel + 1)) := by
  rw [Parse.strayTernary]
  refine .bind ih.expressionList fun _ _ _ => ?_
  exact .bind (alike_expect _) fun _ _ _ => ih.conditional

end AlikeAt

/-- Every rule reads alike trees from alike tokens, whatever its fuel. -/
theorem alike {L : Likeness} (R : Feed L) (fuel : Nat) : AlikeAt R fuel := by
  induction fuel with
  | zero => exact .zero
  | succ fuel ih =>
    exact {
      parameters := ih.parameters_step
      declaration := ih.declaration_step
      declarationOrFail := ih.declarationOrFail_step
      declarations := ih.declarations_step
      classDeclaration := ih.classDeclaration_step
      methods := ih.methods_step
      namedFunction := ih.namedFunction_step
      functionRest := ih.functionRest_step
      varDeclaration := ih.varDeclaration_step
      statement := ih.statement_step
      forStatement := ih.forStatement_step
      forInitializer := ih.forInitializer_step
      ifStatement := ih.ifStatement_step
      whileStatement := ih.whileStatement_step
      blockRest := ih.blockRest_step
      expressionStatement := ih.expressionStatement_step
      expressionList := ih.expressionList_step
      expressionListRest := ih.expressionListRest_step
      conditional := ih.conditional_step
      assignment := ih.assignment_step
      binaryLevels := ih.binaryLevels_step
      binaryRest := ih.binaryRest_step
      unary := ih.unary_step
      callRest := ih.callRest_step
      arguments := ih.arguments_step
      primary := ih.primary_step
      strayTernary := ih.strayTernary_step }

end Parse

/-! ## Programs -/

/-- Programs with alike statements and faults, after which alike identities are free. -/
structure Program.Alike {L : Likeness} (R : Feed L) (p q : Program) : Prop where
  statements : List.Forall₂ (Stmt.Alike L) p.statements q.statements
  nextId : R.supply p.nextId q.nextId
  diagnostics : List.Forall₂ (Diagnostic.Alike R.read) p.diagnostics q.diagnostics

/-- Alike tokens are parsed to alike programs, whether they have a fault or not. -/
theorem Program.ofTokens_alike {L : Likeness} (R : Feed L) {ts us : List Token}
    {i j : ReferenceId} (h : List.Forall₂ R.read ts us) (hi : R.supply i j) :
    (Program.ofTokens ts i).Alike R (Program.ofTokens us j) := by
  unfold Program.ofTokens
  rw [← h.length_eq]
  have hr := (Parse.alike R (32 * (ts.length + 1))).declarations false
    (s := { rest := ts, nextId := i, loopDepth := 0, diagnostics := [] })
    (t := { rest := us, nextId := j, loopDepth := 0, diagnostics := [] })
    ⟨h, hi, rfl, .nil⟩
  simp only
  split <;> rename_i hp <;> split <;> rename_i hq <;> rw [hp, hq] at hr
  · exact ⟨hr.1, hr.2.nextId, hr.2.diagnostics⟩
  · exact hr.elim
  · exact hr.elim
  · exact hr.elim
  · exact ⟨.nil, hr.nextId, hr.diagnostics⟩
  · exact hr.elim
  · exact hr.elim
  · exact hr.elim
  · exact ⟨.nil, hi, .nil⟩

end TreeScript
