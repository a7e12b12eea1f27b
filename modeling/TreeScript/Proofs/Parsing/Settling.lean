import TreeScript.Proofs.Likeness.Shifting
import TreeScript.Proofs.Parsing.Totality

/-!
# What a rule comes to

The reply of a rule does not hang on its fuel, if that is enough, nor on the diagnostics that
were reported before.

* `Parse.Below` — a step that ends as another one does, unless it runs out of fuel, and also
  behind further diagnostics
* `Parse.below` — every rule ends as it does with more fuel
* `Parse.Settles` — the reply that a rule gives with enough fuel
* `Parse.Settles.declarations_cons`, `Parse.Settles.declarations_append` — declarations, and what
  comes behind them
* `Program.ofTokens_of_settles` — the program of tokens is what the rule of declarations comes to
-/

namespace TreeScript

/-! ## Further diagnostics -/

/-- The state with further diagnostics in front. -/
def ParseState.behind (s : ParseState) (earlier : List Diagnostic) : ParseState :=
  { s with diagnostics := earlier ++ s.diagnostics }

/-- The reply with another state. -/
def Reply.onState {α : Type} (change : ParseState → ParseState) : Reply α → Reply α
  | .ok a s => .ok a (change s)
  | .failed s => .failed (change s)
  | .outOfFuel => .outOfFuel

namespace Parse

/-- A step that ends as another one does, unless it runs out of fuel, and also behind further
diagnostics. -/
def Below {α : Type} (p q : Parse α) : Prop :=
  ∀ s earlier, p s ≠ .outOfFuel → q (s.behind earlier) = (p s).onState (·.behind earlier)

namespace Below

variable {α β : Type} {p q : Parse α}

/-! ### Sequencing -/

theorem stuck (q : Parse α) : Below Parse.stuck q :=
  fun _ _ h => absurd rfl h

theorem pure (a : α) : Below (Pure.pure a) (Pure.pure a) :=
  fun _ _ _ => rfl

theorem fail : Below (Parse.fail : Parse α) Parse.fail :=
  fun _ _ _ => rfl

theorem bind {f g : α → Parse β} (h : p.Below q) (hn : ∀ a, (f a).Below (g a)) :
    Below (p >>= f) (q >>= g) := by
  intro s earlier hs
  show Parse.bind q g (s.behind earlier) = (Parse.bind p f s).onState (·.behind earlier)
  replace hs : Parse.bind p f s ≠ .outOfFuel := hs
  unfold Parse.bind at hs ⊢
  have hq := h s earlier
  cases hp : p s with
  | ok a t =>
    rw [hp] at hs hq
    rw [hq nofun]
    exact hn a t earlier hs
  | failed t =>
    rw [hp] at hq
    rw [hq nofun]
    rfl
  | outOfFuel =>
    rw [hp] at hs
    exact absurd rfl hs

theorem attempt (h : p.Below q) : Below (Parse.attempt p) (Parse.attempt q) := by
  intro s earlier hs
  unfold Parse.attempt at hs ⊢
  have hq := h s earlier
  cases hp : p s with
  | outOfFuel =>
    rw [hp] at hs
    exact absurd rfl hs
  | ok _ _ | failed _ =>
    rw [hp] at hq
    rw [hq nofun]
    rfl

theorem atLoopDepth {depth : Nat → Nat} (h : p.Below q) :
    Below (Parse.atLoopDepth depth p) (Parse.atLoopDepth depth q) := by
  intro s earlier hs
  have hq := h { s with loopDepth := depth s.loopDepth } earlier
  have hbehind : ({ s with loopDepth := depth s.loopDepth } : ParseState).behind earlier =
      { s.behind earlier with loopDepth := depth (s.behind earlier).loopDepth } := rfl
  rw [hbehind] at hq
  unfold Parse.atLoopDepth at hs ⊢
  cases hp : p { s with loopDepth := depth s.loopDepth } with
  | outOfFuel =>
    simp only [hp] at hs
    exact absurd rfl hs
  | ok _ _ | failed _ =>
    rw [hp] at hq
    rw [hq nofun]
    rfl

theorem recover (h : p.Below q) : Below (Parse.recover p) (Parse.recover q) := by
  intro s earlier hs
  unfold Parse.recover at hs ⊢
  have hq := h s earlier
  cases hp : p s with
  | outOfFuel =>
    rw [hp] at hs
    exact absurd rfl hs
  | ok _ _ | failed _ =>
    rw [hp] at hq
    rw [hq nofun]
    rfl

/-! ### Primitive steps -/

theorem peek : Below Parse.peek Parse.peek :=
  fun _ _ _ => rfl

theorem peekKind : Below Parse.peekKind Parse.peekKind :=
  fun _ _ _ => rfl

theorem kindAfterNext? : Below Parse.kindAfterNext? Parse.kindAfterNext? :=
  fun _ _ _ => rfl

theorem advance : Below Parse.advance Parse.advance :=
  fun _ _ _ => rfl

theorem newId : Below Parse.newId Parse.newId :=
  fun _ _ _ => rfl

theorem loopDepth : Below Parse.loopDepth Parse.loopDepth :=
  fun _ _ _ => rfl

theorem report (token : Token) (fault : GrammarFault) :
    Below (Parse.report token fault) (Parse.report token fault) := by
  intro s earlier _
  simp [Parse.report, Reply.onState, ParseState.behind]

theorem reject (token : Token) (fault : GrammarFault) :
    Below (Parse.reject token fault : Parse α) (Parse.reject token fault) :=
  .bind (.report token fault) fun _ => .fail

theorem accept? (kinds : List TokenKind) : Below (Parse.accept? kinds) (Parse.accept? kinds) := by
  refine .bind .peek fun token => ?_
  split
  · exact .bind .advance fun _ => .pure _
  · exact .pure _

theorem expect (slot : Slot) : Below (Parse.expect slot) (Parse.expect slot) := by
  refine .bind .peek fun token => ?_
  split
  · exact .bind .advance fun _ => .pure _
  · exact .reject _ _

theorem unlessNext {kind : TokenKind} (h : p.Below q) :
    Below (Parse.unlessNext kind p) (Parse.unlessNext kind q) := by
  refine .bind .peekKind fun next => ?_
  split
  · exact .pure _
  · exact .bind h fun _ => .pure _

theorem ifNext {kind : TokenKind} (h : p.Below q) :
    Below (Parse.ifNext kind p) (Parse.ifNext kind q) := by
  refine .bind (.accept? _) fun found => ?_
  cases found with
  | some _ => exact .bind h fun _ => .pure _
  | none => exact .pure _

theorem limit (count : Nat) (fault : GrammarFault) :
    Below (Parse.limit count fault) (Parse.limit count fault) := by
  unfold Parse.limit
  split
  · exact .bind .peek fun _ => .report _ _
  · exact .pure _

theorem requireLoop (token : Token) :
    Below (Parse.requireLoop token) (Parse.requireLoop token) := by
  refine .bind .loopDepth fun depth => ?_
  split
  · exact .report _ _
  · exact .pure _

end Below

/-! ## Rules -/

/-- Every rule with some fuel ends as it does with another amount. -/
structure BelowAt (fuel more : Nat) : Prop where
  parameters : ∀ count, Below (parameters fuel count) (parameters more count)
  declaration : Below (declaration fuel) (declaration more)
  declarationOrFail : Below (declarationOrFail fuel) (declarationOrFail more)
  declarations : ∀ inBlock, Below (declarations fuel inBlock) (declarations more inBlock)
  classDeclaration : Below (classDeclaration fuel) (classDeclaration more)
  methods : Below (methods fuel) (methods more)
  namedFunction : ∀ role, Below (namedFunction fuel role) (namedFunction more role)
  functionRest : ∀ name role, Below (functionRest fuel name role) (functionRest more name role)
  varDeclaration : Below (varDeclaration fuel) (varDeclaration more)
  statement : Below (statement fuel) (statement more)
  forStatement : Below (forStatement fuel) (forStatement more)
  forInitializer : Below (forInitializer fuel) (forInitializer more)
  ifStatement : Below (ifStatement fuel) (ifStatement more)
  whileStatement : Below (whileStatement fuel) (whileStatement more)
  blockRest : Below (blockRest fuel) (blockRest more)
  expressionStatement : Below (expressionStatement fuel) (expressionStatement more)
  expressionList : Below (expressionList fuel) (expressionList more)
  expressionListRest : ∀ left,
    Below (expressionListRest fuel left) (expressionListRest more left)
  conditional : Below (conditional fuel) (conditional more)
  assignment : Below (assignment fuel) (assignment more)
  binaryLevels : ∀ ls, Below (binaryLevels fuel ls) (binaryLevels more ls)
  binaryRest : ∀ level tighter left,
    Below (binaryRest fuel level tighter left) (binaryRest more level tighter left)
  unary : Below (unary fuel) (unary more)
  callRest : ∀ callee, Below (callRest fuel callee) (callRest more callee)
  arguments : ∀ count, Below (arguments fuel count) (arguments more count)
  primary : Below (primary fuel) (primary more)
  strayTernary : Below (strayTernary fuel) (strayTernary more)

namespace BelowAt

variable {fuel more : Nat}

theorem zero (more : Nat) : BelowAt 0 more where
  parameters _ := by rw [Parse.parameters]; exact .stuck _
  declaration := by rw [Parse.declaration]; exact .stuck _
  declarationOrFail := by rw [Parse.declarationOrFail]; exact .stuck _
  declarations _ := by rw [Parse.declarations]; exact .stuck _
  classDeclaration := by rw [Parse.classDeclaration]; exact .stuck _
  methods := by rw [Parse.methods]; exact .stuck _
  namedFunction _ := by rw [Parse.namedFunction]; exact .stuck _
  functionRest _ _ := by rw [Parse.functionRest]; exact .stuck _
  varDeclaration := by rw [Parse.varDeclaration]; exact .stuck _
  statement := by rw [Parse.statement]; exact .stuck _
  forStatement := by rw [Parse.forStatement]; exact .stuck _
  forInitializer := by rw [Parse.forInitializer]; exact .stuck _
  ifStatement := by rw [Parse.ifStatement]; exact .stuck _
  whileStatement := by rw [Parse.whileStatement]; exact .stuck _
  blockRest := by rw [Parse.blockRest]; exact .stuck _
  expressionStatement := by rw [Parse.expressionStatement]; exact .stuck _
  expressionList := by rw [Parse.expressionList]; exact .stuck _
  expressionListRest _ := by rw [Parse.expressionListRest]; exact .stuck _
  conditional := by rw [Parse.conditional]; exact .stuck _
  assignment := by rw [Parse.assignment]; exact .stuck _
  binaryLevels _ := by rw [Parse.binaryLevels]; exact .stuck _
  binaryRest _ _ _ := by rw [Parse.binaryRest]; exact .stuck _
  unary := by rw [Parse.unary]; exact .stuck _
  callRest _ := by rw [Parse.callRest]; exact .stuck _
  arguments _ := by rw [Parse.arguments]; exact .stuck _
  primary := by rw [Parse.primary]; exact .stuck _
  strayTernary := by rw [Parse.strayTernary]; exact .stuck _

section Steps

variable (ih : BelowAt fuel more)
include ih

/-! ### Declarations -/

theorem parameters_step (count : Nat) :
    Below (Parse.parameters (fuel + 1) count) (Parse.parameters (more + 1) count) := by
  rw [Parse.parameters, Parse.parameters]
  refine .bind (.limit _ _) fun _ => .bind (.expect _) fun name => ?_
  refine .bind (.accept? _) fun comma => ?_
  cases comma with
  | some _ => exact .bind (ih.parameters _) fun _ => .pure _
  | none => exact .pure _

theorem declaration_step :
    Below (Parse.declaration (fuel + 1)) (Parse.declaration (more + 1)) := by
  rw [Parse.declaration, Parse.declaration]
  exact .recover ih.declarationOrFail

theorem declarationOrFail_step :
    Below (Parse.declarationOrFail (fuel + 1)) (Parse.declarationOrFail (more + 1)) := by
  rw [Parse.declarationOrFail, Parse.declarationOrFail]
  refine .bind .peekKind fun kind => ?_
  split
  · exact .bind .advance fun _ => ih.classDeclaration
  · exact .bind .advance fun _ => ih.varDeclaration
  · exact ih.statement

theorem declarations_step (inBlock : Bool) :
    Below (Parse.declarations (fuel + 1) inBlock) (Parse.declarations (more + 1) inBlock) := by
  rw [Parse.declarations, Parse.declarations]
  refine .bind .peekKind fun kind => ?_
  split
  · exact .pure _
  · exact .bind ih.declaration fun _ => .bind (ih.declarations _) fun _ => .pure _

theorem classDeclaration_step :
    Below (Parse.classDeclaration (fuel + 1)) (Parse.classDeclaration (more + 1)) := by
  rw [Parse.classDeclaration, Parse.classDeclaration]
  refine .bind (.expect _) fun name => .bind (.expect _) fun _ => ?_
  exact .bind ih.methods fun _ => .bind (.expect _) fun _ => .pure _

theorem methods_step : Below (Parse.methods (fuel + 1)) (Parse.methods (more + 1)) := by
  rw [Parse.methods, Parse.methods]
  refine .bind .peekKind fun kind => ?_
  split
  · exact .pure _
  · exact .bind (ih.namedFunction _) fun _ => .bind ih.methods fun _ => .pure _

theorem namedFunction_step (role : FunctionRole) :
    Below (Parse.namedFunction (fuel + 1) role) (Parse.namedFunction (more + 1) role) := by
  rw [Parse.namedFunction, Parse.namedFunction]
  exact .bind (.expect _) fun _ => ih.functionRest _ _

theorem functionRest_step (name : Option Token) (role : FunctionRole) :
    Below (Parse.functionRest (fuel + 1) name role)
      (Parse.functionRest (more + 1) name role) := by
  rw [Parse.functionRest, Parse.functionRest]
  refine .bind (.expect _) fun _ => .bind (.unlessNext (ih.parameters 0)) fun names => ?_
  refine .bind (.expect _) fun _ => .bind (.expect _) fun _ => ?_
  exact .bind (.atLoopDepth ih.blockRest) fun _ => .pure _

theorem varDeclaration_step :
    Below (Parse.varDeclaration (fuel + 1)) (Parse.varDeclaration (more + 1)) := by
  rw [Parse.varDeclaration, Parse.varDeclaration]
  refine .bind (.expect _) fun name => .bind (.ifNext ih.conditional) fun initializer => ?_
  exact .bind (.expect _) fun _ => .pure _

/-! ### Statements -/

theorem statement_step : Below (Parse.statement (fuel + 1)) (Parse.statement (more + 1)) := by
  rw [Parse.statement, Parse.statement]
  refine .bind .peek fun token => ?_
  split
  · exact .bind .advance fun _ => ih.forStatement
  · exact .bind .advance fun _ => ih.ifStatement
  · refine .bind .advance fun _ => .bind ih.expressionList fun value => ?_
    exact .bind (.expect _) fun _ => .pure _
  · refine .bind .advance fun _ => .bind (.unlessNext ih.conditional) fun value => ?_
    exact .bind (.expect _) fun _ => .pure _
  · exact .bind .advance fun _ => ih.whileStatement
  · refine .bind .advance fun _ => .bind (.requireLoop _) fun _ => ?_
    exact .bind (.expect _) fun _ => .pure _
  · exact .bind .advance fun _ => .bind ih.blockRest fun _ => .pure _
  · refine .bind .kindAfterNext? fun kind => ?_
    split
    · exact .bind .advance fun _ => .bind (ih.namedFunction _) fun _ => .pure _
    · exact ih.expressionStatement
  · exact ih.expressionStatement

theorem forStatement_step :
    Below (Parse.forStatement (fuel + 1)) (Parse.forStatement (more + 1)) := by
  rw [Parse.forStatement, Parse.forStatement]
  refine .bind (.expect _) fun _ => .bind ih.forInitializer fun initializer => ?_
  refine .bind (.unlessNext ih.expressionList) fun condition => .bind (.expect _) fun _ => ?_
  refine .bind (.unlessNext ih.expressionList) fun increment => .bind (.expect _) fun _ => ?_
  exact .bind (.atLoopDepth ih.statement) fun _ => .pure _

theorem forInitializer_step :
    Below (Parse.forInitializer (fuel + 1)) (Parse.forInitializer (more + 1)) := by
  rw [Parse.forInitializer, Parse.forInitializer]
  refine .bind .peekKind fun kind => ?_
  split
  · exact .bind .advance fun _ => .pure _
  · exact .bind .advance fun _ => .bind ih.varDeclaration fun _ => .pure _
  · exact .bind ih.expressionStatement fun _ => .pure _

theorem ifStatement_step :
    Below (Parse.ifStatement (fuel + 1)) (Parse.ifStatement (more + 1)) := by
  rw [Parse.ifStatement, Parse.ifStatement]
  refine .bind (.expect _) fun _ => .bind ih.expressionList fun condition => ?_
  refine .bind (.expect _) fun _ => .bind ih.statement fun whenTrue => ?_
  exact .bind (.ifNext ih.statement) fun _ => .pure _

theorem whileStatement_step :
    Below (Parse.whileStatement (fuel + 1)) (Parse.whileStatement (more + 1)) := by
  rw [Parse.whileStatement, Parse.whileStatement]
  refine .bind (.expect _) fun _ => .bind ih.expressionList fun condition => ?_
  exact .bind (.expect _) fun _ => .bind (.atLoopDepth ih.statement) fun _ => .pure _

theorem blockRest_step : Below (Parse.blockRest (fuel + 1)) (Parse.blockRest (more + 1)) := by
  rw [Parse.blockRest, Parse.blockRest]
  exact .bind (ih.declarations _) fun _ => .bind (.expect _) fun _ => .pure _

theorem expressionStatement_step :
    Below (Parse.expressionStatement (fuel + 1)) (Parse.expressionStatement (more + 1)) := by
  rw [Parse.expressionStatement, Parse.expressionStatement]
  exact .bind ih.expressionList fun _ => .bind (.expect _) fun _ => .pure _

/-! ### Expressions -/

theorem expressionList_step :
    Below (Parse.expressionList (fuel + 1)) (Parse.expressionList (more + 1)) := by
  rw [Parse.expressionList, Parse.expressionList]
  exact .bind ih.conditional fun _ => ih.expressionListRest _

theorem expressionListRest_step (left : Expr) :
    Below (Parse.expressionListRest (fuel + 1) left)
      (Parse.expressionListRest (more + 1) left) := by
  rw [Parse.expressionListRest, Parse.expressionListRest]
  refine .bind (.accept? _) fun operator => ?_
  cases operator with
  | some _ => exact .bind ih.conditional fun _ => ih.expressionListRest _
  | none => exact .pure _

theorem conditional_step :
    Below (Parse.conditional (fuel + 1)) (Parse.conditional (more + 1)) := by
  rw [Parse.conditional, Parse.conditional]
  refine .bind ih.assignment fun condition => .bind (.accept? _) fun question => ?_
  cases question with
  | some _ =>
    refine .bind (.unlessNext ih.expressionList) fun whenTrue => .bind (.expect _) fun _ => ?_
    exact .bind ih.conditional fun _ => .pure _
  | none => exact .pure _

theorem assignment_step :
    Below (Parse.assignment (fuel + 1)) (Parse.assignment (more + 1)) := by
  rw [Parse.assignment, Parse.assignment]
  refine .bind (ih.binaryLevels _) fun target => .bind (.accept? _) fun equals => ?_
  cases equals with
  | some _ =>
    refine .bind ih.assignment fun value => ?_
    split
    · exact .pure _
    · exact .pure _
    · exact .bind (.report _ _) fun _ => .pure _
  | none => exact .pure _

theorem binaryLevels_step (ls : List Level) :
    Below (Parse.binaryLevels (fuel + 1) ls) (Parse.binaryLevels (more + 1) ls) := by
  cases ls with
  | nil =>
    rw [Parse.binaryLevels, Parse.binaryLevels]
    exact ih.unary
  | cons level tighter =>
    rw [Parse.binaryLevels, Parse.binaryLevels]
    exact .bind (ih.binaryLevels _) fun _ => ih.binaryRest _ _ _

theorem binaryRest_step (level : Level) (tighter : List Level) (left : Expr) :
    Below (Parse.binaryRest (fuel + 1) level tighter left)
      (Parse.binaryRest (more + 1) level tighter left) := by
  rw [Parse.binaryRest, Parse.binaryRest]
  refine .bind (.accept? _) fun operator => ?_
  cases operator with
  | some _ => exact .bind (ih.binaryLevels _) fun _ => ih.binaryRest _ _ _
  | none => exact .pure _

theorem unary_step : Below (Parse.unary (fuel + 1)) (Parse.unary (more + 1)) := by
  rw [Parse.unary, Parse.unary]
  refine .bind (.accept? _) fun operator => ?_
  cases operator with
  | some _ => exact .bind ih.unary fun _ => .pure _
  | none => exact .bind ih.primary fun _ => ih.callRest _

theorem callRest_step (callee : Expr) :
    Below (Parse.callRest (fuel + 1) callee) (Parse.callRest (more + 1) callee) := by
  rw [Parse.callRest, Parse.callRest]
  refine .bind .peekKind fun kind => ?_
  split
  · refine .bind .advance fun _ => .bind (.unlessNext (ih.arguments 0)) fun found => ?_
    exact .bind (.expect _) fun _ => ih.callRest _
  · exact .bind .advance fun _ => .bind (.expect _) fun _ => ih.callRest _
  · exact .pure _

theorem arguments_step (count : Nat) :
    Below (Parse.arguments (fuel + 1) count) (Parse.arguments (more + 1) count) := by
  rw [Parse.arguments, Parse.arguments]
  refine .bind (.limit _ _) fun _ => .bind ih.conditional fun first => ?_
  refine .bind (.accept? _) fun comma => ?_
  cases comma with
  | some _ => exact .bind (ih.arguments _) fun _ => .pure _
  | none => exact .pure _

theorem primary_step : Below (Parse.primary (fuel + 1)) (Parse.primary (more + 1)) := by
  rw [Parse.primary, Parse.primary]
  refine .bind .peek fun token => ?_
  split
  · exact .bind .advance fun _ => .pure _
  · exact .bind .advance fun _ => .pure _
  · exact .bind .advance fun _ => .pure _
  · exact .bind .advance fun _ => .pure _
  · exact .bind .advance fun _ => .pure _
  · exact .bind .advance fun _ => .bind .newId fun _ => .pure _
  · exact .bind .advance fun _ => .bind .newId fun _ => .pure _
  · exact .bind .advance fun _ => .bind (ih.functionRest _ _) fun _ => .pure _
  · refine .bind .advance fun _ => .bind ih.expressionList fun inner => ?_
    exact .bind (.expect _) fun _ => .pure _
  · exact .bind .advance fun _ => .reject _ _
  · refine .bind .advance fun _ => .bind (.report _ _) fun _ => ?_
    exact .bind (.attempt ih.conditional) fun _ => .fail
  · refine .bind .advance fun _ => .bind (.report _ _) fun _ => ?_
    exact .bind (.attempt ih.strayTernary) fun _ => .fail
  · split
    · refine .bind .advance fun _ => .bind (.report _ _) fun _ => ?_
      exact .bind (.attempt (ih.binaryLevels _)) fun _ => .fail
    · exact .reject _ _

theorem strayTernary_step :
    Below (Parse.strayTernary (fuel + 1)) (Parse.strayTernary (more + 1)) := by
  rw [Parse.strayTernary, Parse.strayTernary]
  exact .bind ih.expressionList fun _ => .bind (.expect _) fun _ => ih.conditional

end Steps

end BelowAt

/-- Every rule ends as it does with more fuel. -/
theorem below {fuel more : Nat} (h : fuel ≤ more) : BelowAt fuel more := by
  induction fuel generalizing more with
  | zero => exact .zero more
  | succ fuel ih =>
    obtain ⟨more, rfl⟩ := Nat.exists_eq_succ_of_ne_zero (Nat.ne_of_gt (Nat.lt_of_lt_of_le
      (Nat.succ_pos fuel) h))
    replace ih := ih (Nat.le_of_succ_le_succ h)
    exact {
      parameters := ih.parameters_step
      declaration := ih.declaration_step
      declarationOrFail := ih.declarationOrFail_step
      declarations := ih.declarations_step
      classDeclaration := ih.classDeclaration_step
      methods := ih.methods_step
      namedFunction := ih.namedFunction_step
      functionRest := ih.functionRest_step
      varDeclaration := ih.varDeclaration_step
      statement := ih.statement_step
      forStatement := ih.forStatement_step
      forInitializer := ih.forInitializer_step
      ifStatement := ih.ifStatement_step
      whileStatement := ih.whileStatement_step
      blockRest := ih.blockRest_step
      expressionStatement := ih.expressionStatement_step
      expressionList := ih.expressionList_step
      expressionListRest := ih.expressionListRest_step
      conditional := ih.conditional_step
      assignment := ih.assignment_step
      binaryLevels := ih.binaryLevels_step
      binaryRest := ih.binaryRest_step
      unary := ih.unary_step
      callRest := ih.callRest_step
      arguments := ih.arguments_step
      primary := ih.primary_step
      strayTernary := ih.strayTernary_step }

/-! ## The reply with enough fuel -/

/-- The reply that a rule gives with enough fuel. -/
def Settles {α : Type} (rule : Nat → Parse α) (s : ParseState) (r : Reply α) : Prop :=
  ∃ enough, ∀ fuel, enough ≤ fuel → rule fuel s = r

namespace Settles

variable {α β : Type} {s t u : ParseState} {r r' : Reply α}

theorem unique {rule : Nat → Parse α} (h : Settles rule s r) (h' : Settles rule s r') :
    r = r' := by
  obtain ⟨enough, h⟩ := h
  obtain ⟨enough', h'⟩ := h'
  exact (h _ (Nat.le_max_left ..)).symm.trans (h' _ (Nat.le_max_right ..))

/-- A rule settles on what it gives, if it has fuel. -/
theorem of_below {rule : Nat → Parse α} {fuel : Nat}
    (hrule : ∀ more, fuel ≤ more → (rule fuel).Below (rule more)) (h : rule fuel s = r)
    (hr : r ≠ .outOfFuel) : Settles rule s r := by
  refine ⟨fuel, fun more hmore => ?_⟩
  have hb := hrule more hmore s [] (h ▸ hr)
  rw [h] at hb
  cases r with
  | outOfFuel => exact absurd rfl hr
  | ok _ _ | failed _ => exact hb

/-- A rule that takes a step to run another one. -/
theorem step {first : Nat → Parse α} {rule : Nat → Parse β} {r' : Reply β}
    (h : Settles first t r) (hrule : ∀ fuel, first fuel t = r → rule (fuel + 1) s = r') :
    Settles rule s r' := by
  obtain ⟨enough, h⟩ := h
  refine ⟨enough + 1, fun fuel hfuel => ?_⟩
  obtain ⟨fuel, rfl⟩ := Nat.exists_eq_add_of_le' (Nat.le_of_add_left_le hfuel)
  exact hrule fuel (h fuel (Nat.le_of_succ_le_succ hfuel))

/-- What a rule settles on that reads something, unless its fuel runs out. -/
theorem of_reads {rule : Nat → Parse α} {p q : Point} {v : α}
    (hrule : ∀ fuel, Rule fuel (rule fuel)) (h : ∀ fuel, Reads (rule fuel) s p v q) :
    Settles rule (s.moved p) (.ok v (s.moved q)) :=
  ⟨32 * (p.tokens.length + 1), fun fuel hfuel =>
    (h fuel).resolve_left ((hrule fuel).ne_outOfFuel (s.moved p) hfuel)⟩

/-! ### Declarations -/

/-- Behind further diagnostics declarations settle on the same. -/
theorem behind {inBlock : Bool} {found : List Stmt}
    (h : Settles (declarations · inBlock) s (.ok found t)) (earlier : List Diagnostic) :
    Settles (declarations · inBlock) (s.behind earlier) (.ok found (t.behind earlier)) := by
  obtain ⟨enough, h⟩ := h
  refine ⟨enough, fun fuel hfuel => ?_⟩
  have hs : declarations fuel inBlock s = .ok found t := h fuel hfuel
  have hb := (below (Nat.le_refl fuel)).declarations inBlock s earlier (by rw [hs]; nofun)
  rw [hs] at hb
  exact hb

/-- A declaration and those behind it. -/
theorem declarations_cons {first : Option Stmt} {rest : List Stmt}
    (hs : s.nextKind ≠ .endOfInput) (h₁ : Settles declaration s (.ok first t))
    (h₂ : Settles (declarations · false) t (.ok rest u)) :
    Settles (declarations · false) s (.ok (first.toList ++ rest) u) := by
  obtain ⟨enough₁, h₁⟩ := h₁
  obtain ⟨enough₂, h₂⟩ := h₂
  refine ⟨max enough₁ enough₂ + 1, fun fuel hfuel => ?_⟩
  obtain ⟨fuel, rfl⟩ := Nat.exists_eq_add_of_le' (Nat.le_of_add_left_le hfuel)
  show declarations (fuel + 1) false s = _
  rw [declarations, peekKind_bind, if_neg (by simpa [ParseState.nextKind] using hs)]
  exact bind_eq_ok.2 ⟨first, t, h₁ fuel (by omega),
    bind_eq_ok.2 ⟨rest, u, h₂ fuel (by omega), rfl⟩⟩

/-- Declarations that are derived, and those behind them. -/
theorem declarations_append {p q : Point} {found rest : List Stmt}
    (h : Derives .standard (.declarations false) p found q) (hs : s.inLoop = false)
    (hq : q.nextKind ≠ .elseKeyword)
    (hrest : Settles (declarations · false) (s.moved q) (.ok rest t)) :
    Settles (declarations · false) (s.moved p) (.ok (found ++ rest) t) := by
  induction found generalizing p with
  | nil =>
    cases h
    exact hrest
  | cons first found ih =>
    cases h with
    | @moreDeclarations _ _ m _ _ _ h₁ h₂ =>
      have hm : m.nextKind ≠ .elseKeyword := by
        rcases declarations_begin h₂ with rfl | hm
        · exact hq
        · exact fun he => absurd (he ▸ hm) (by decide)
      have hp : (s.moved p).nextKind ≠ .endOfInput :=
        fun he => absurd (show TokenKind.endOfInput ∈ declarationStarts from he ▸ begins h₁)
          (by decide)
      exact declarations_cons hp
        (of_reads (fun _ => .declaration) fun fuel => Complete.recovered (complete h₁) hs hm fuel)
        (ih h₂)

end Settles

end Parse

/-! ## Programs -/

namespace Program

open Parse (declarations declaration)

variable {tokens : List Token} {firstId : ReferenceId} {s t : ParseState}

/-- The rule of declarations settles on the program of the tokens. -/
theorem settles_ofTokens (tokens : List Token) (firstId : ReferenceId) :
    ∃ t, Parse.Settles (declarations · false) (.start tokens firstId)
        (.ok (ofTokens tokens firstId).statements t) ∧
      t.nextId = (ofTokens tokens firstId).nextId ∧
      t.diagnostics = (ofTokens tokens firstId).diagnostics := by
  have hne := Parse.declarations_ne_outOfFuel (.start tokens firstId) false
  change declarations (32 * (tokens.length + 1)) false (.start tokens firstId) ≠ _ at hne
  cases hr : declarations (32 * (tokens.length + 1)) false (.start tokens firstId) with
  | ok found t =>
    rw [ofTokens_of_ok hr]
    exact ⟨t, .of_below (fun _ h => (Parse.below h).declarations false) hr nofun, rfl, rfl⟩
  | failed t => exact absurd hr (Parse.declarations_ne_failed _ _ _ t)
  | outOfFuel => exact absurd hr hne

/-- What the rule of declarations settles on is the program of the tokens. -/
theorem ofTokens_of_settles {found : List Stmt}
    (h : Parse.Settles (declarations · false) (.start tokens firstId) (.ok found t)) :
    ofTokens tokens firstId =
      { statements := found, nextId := t.nextId, diagnostics := t.diagnostics } := by
  obtain ⟨u, hu, hid, hds⟩ := settles_ofTokens tokens firstId
  cases h.unique hu
  rw [hid, hds]

/-- The rule of declarations goes on from any state outside of loops with the program of the
tokens that are left, whose identities are later. -/
theorem settles_rest (hs : s.loopDepth = 0) :
    ∃ t, Parse.Settles (declarations · false) s
        (.ok (Stmt.shiftAll s.nextId (ofTokens s.rest 0).statements) t) ∧
      t.nextId = (ofTokens s.rest 0).nextId + s.nextId ∧
      t.diagnostics = s.diagnostics ++ (ofTokens s.rest 0).diagnostics := by
  obtain ⟨t, ht, hid, hds⟩ := settles_ofTokens s.rest s.nextId
  have hstart : (ParseState.start s.rest s.nextId).behind s.diagnostics = s := by
    obtain ⟨rest, nextId, loopDepth, diagnostics⟩ := s
    cases hs
    simp [ParseState.start, ParseState.behind]
  have hshift := ofTokens_shift s.rest 0 s.nextId
  rw [Nat.zero_add] at hshift
  have hb := ht.behind s.diagnostics
  rw [hstart, hshift] at hb
  exact ⟨t.behind s.diagnostics, hb, by rw [ParseState.behind, hid, hshift, shift],
    by rw [ParseState.behind, hds, hshift, shift]⟩

/-- The program of nothing but an end mark. -/
theorem ofTokens_finish {finish : Token} (hfinish : finish.kind = .endOfInput) :
    ofTokens [finish] firstId = { statements := [], nextId := firstId, diagnostics := [] } :=
  ofTokens_of_derives hfinish .noDeclaration

/-- A program that begins with a declaration, which may have been dropped. -/
theorem ofTokens_of_declaration {first : Option Stmt}
    (hs : (ParseState.start tokens firstId).nextKind ≠ .endOfInput)
    (h : Parse.Settles declaration (.start tokens firstId) (.ok first t)) (ht : t.loopDepth = 0) :
    ofTokens tokens firstId =
      ({ statements := first.toList, nextId := t.nextId, diagnostics := t.diagnostics } :
        Program).followedBy (ofTokens t.rest 0) := by
  obtain ⟨u, hu, hid, hds⟩ := settles_rest ht
  rw [ofTokens_of_settles (.declarations_cons hs h hu), hid, hds]
  rfl

/-- A program that begins with declarations without a fault. -/
theorem ofTokens_of_declarations {p : Point} {found : List Stmt}
    (h : Derives .standard (.declarations false) ⟨tokens, firstId⟩ found p)
    (hp : p.nextKind ≠ .elseKeyword) :
    ofTokens tokens firstId =
      ({ statements := found, nextId := p.nextId, diagnostics := [] } : Program).followedBy
        (ofTokens p.tokens 0) := by
  obtain ⟨u, hu, hid, hds⟩ :=
    settles_rest (s := (ParseState.start tokens firstId).moved p) rfl
  have hsettles := Parse.Settles.declarations_append (s := .start tokens firstId) h rfl hp hu
  rw [ofTokens_of_settles hsettles, hid, hds]
  rfl

end Program

end TreeScript
