import TreeScript.Proofs.Parsing.Progress

/-!
# What trees are made of

Trees hold only tokens that were given to the parser, each of a kind that belongs at its
place.  This is so behind a fault too.

* `Token.Among` — a token of one of some kinds, among those that were given
* `Expr.Formed`, `FunctionDecl.Formed`, `Stmt.Formed` — trees made of such tokens
* `Parse.Tames` — a step whose result has a property, and that reports faults of the grammar
  only
* `Parse.formsAt` — the trees that a rule reads are formed
* `Program.formed` — so are the statements of a program
-/

namespace TreeScript

/-! ## Tokens -/

/-- A token of one of some kinds, among those that were given. -/
def Token.Among (given : List Token) (kinds : List TokenKind) (token : Token) : Prop :=
  token ∈ given ∧ token.kind ∈ kinds

theorem Token.Among.mono {given : List Token} {kinds kinds' : List TokenKind} {token : Token}
    (h : token.Among given kinds) (hk : kinds ⊆ kinds') : token.Among given kinds' :=
  ⟨h.1, hk h.2⟩

/-- The kinds of operators that stand before their operand. -/
def prefixKinds : List TokenKind :=
  [.bang, .minus]

/-- The kinds of operators between their operands that decide from the left one. -/
def logicalKinds : List TokenKind :=
  [.orKeyword, .andKeyword]

/-- The kinds of all other operators between their operands. -/
def binaryKinds : List TokenKind :=
  [.comma, .bangEqual, .equalEqual, .greater, .greaterEqual, .less, .lessEqual, .minus, .plus,
    .slash, .star, .percent]

/-! ## Trees -/

mutual

/-- Every operator and every name in an expression is a given token of its kind, and a
function that is an expression has no name. -/
def Expr.Formed (given : List Token) : Expr → Prop
  | .constant _ | .self _ _ => True
  | .grouping inner => inner.Formed given
  | .unary operator operand => operator.Among given prefixKinds ∧ operand.Formed given
  | .binary left operator right =>
    left.Formed given ∧ operator.Among given binaryKinds ∧ right.Formed given
  | .logical left operator right =>
    left.Formed given ∧ operator.Among given logicalKinds ∧ right.Formed given
  | .ternary condition _ whenTrue whenFalse =>
    condition.Formed given ∧ whenTrue.Formed given ∧ whenFalse.Formed given
  | .variable _ name => name.Among given [.identifier]
  | .assign _ name value => name.Among given [.identifier] ∧ value.Formed given
  | .call callee _ arguments => callee.Formed given ∧ Expr.FormedAll given arguments
  | .get object name => object.Formed given ∧ name.Among given [.identifier]
  | .set object name value =>
    object.Formed given ∧ name.Among given [.identifier] ∧ value.Formed given
  | .function declaration => declaration.name = none ∧ declaration.Formed given

/-- All expressions of a list are formed. -/
def Expr.FormedAll (given : List Token) : List Expr → Prop
  | [] => True
  | first :: rest => first.Formed given ∧ Expr.FormedAll given rest

/-- The names of a function are given identifiers, and its body is formed. -/
def FunctionDecl.Formed (given : List Token) : FunctionDecl → Prop
  | { name, parameters, body } =>
    (∀ token ∈ name, token.Among given [.identifier]) ∧
      (∀ token ∈ parameters, token.Among given [.identifier]) ∧ Stmt.FormedAll given body

/-- All functions of a list are formed. -/
def FunctionDecl.FormedAll (given : List Token) : List FunctionDecl → Prop
  | [] => True
  | first :: rest => first.Formed given ∧ FunctionDecl.FormedAll given rest

/-- Every name in a statement is a given identifier, its expressions are formed, and a
function that is declared has a name. -/
def Stmt.Formed (given : List Token) : Stmt → Prop
  | .expression value | .print value | .giveBack _ (some value) => value.Formed given
  | .varDecl name none => name.Among given [.identifier]
  | .varDecl name (some value) => name.Among given [.identifier] ∧ value.Formed given
  | .block body => Stmt.FormedAll given body
  | .conditional condition whenTrue none => condition.Formed given ∧ whenTrue.Formed given
  | .conditional condition whenTrue (some whenFalse) =>
    condition.Formed given ∧ whenTrue.Formed given ∧ whenFalse.Formed given
  | .loop condition body => condition.Formed given ∧ body.Formed given
  | .leave _ | .giveBack _ none => True
  | .function declaration => declaration.name.isSome = true ∧ declaration.Formed given
  | .classDecl name methods =>
    name.Among given [.identifier] ∧ FunctionDecl.FormedAll given methods

/-- All statements of a list are formed. -/
def Stmt.FormedAll (given : List Token) : List Stmt → Prop
  | [] => True
  | first :: rest => first.Formed given ∧ Stmt.FormedAll given rest

end

section Lists

variable {given : List Token}

theorem Expr.formedAll_iff {es : List Expr} :
    Expr.FormedAll given es ↔ ∀ e ∈ es, e.Formed given := by
  induction es with
  | nil => simp [Expr.FormedAll]
  | cons e es ih => simp [Expr.FormedAll, ih]

theorem FunctionDecl.formedAll_iff {ds : List FunctionDecl} :
    FunctionDecl.FormedAll given ds ↔ ∀ d ∈ ds, d.Formed given := by
  induction ds with
  | nil => simp [FunctionDecl.FormedAll]
  | cons d ds ih => simp [FunctionDecl.FormedAll, ih]

theorem Stmt.formedAll_iff {ss : List Stmt} :
    Stmt.FormedAll given ss ↔ ∀ s ∈ ss, s.Formed given := by
  induction ss with
  | nil => simp [Stmt.FormedAll]
  | cons s ss ih => simp [Stmt.FormedAll, ih]

end Lists

/-- The node of an operator of a level is formed if the operator is of that level. -/
theorem Level.formed_node {given : List Token} {level : Level} (hl : level ∈ levels)
    {left right : Expr} {operator : Token} (hleft : left.Formed given)
    (ho : operator.Among given level.operators) (hright : right.Formed given) :
    (level.node left operator right).Formed given := by
  simp only [levels, List.mem_cons, List.not_mem_nil, or_false] at hl
  rcases hl with rfl | rfl | rfl | rfl | rfl | rfl <;>
    exact ⟨hleft, ho.mono (by decide), hright⟩

/-- A counting loop is made of its clauses and its body. -/
theorem Stmt.formed_forLoop {given : List Token} {start : Option Stmt}
    {condition increment : Option Expr} {body : Stmt} (hs : ∀ s ∈ start, s.Formed given)
    (hc : ∀ e ∈ condition, e.Formed given) (hi : ∀ e ∈ increment, e.Formed given)
    (hb : body.Formed given) : (Stmt.forLoop start condition increment body).Formed given := by
  have hround : Stmt.FormedAll given (body :: (increment.map Stmt.expression).toList) := by
    cases increment with
    | none => exact ⟨hb, trivial⟩
    | some e => exact ⟨hb, hi e rfl, trivial⟩
  have hcondition : (condition.getD (.constant (.bool true))).Formed given := by
    cases condition with
    | none => trivial
    | some e => exact hc e rfl
  cases start with
  | none => exact ⟨⟨hcondition, hround⟩, trivial⟩
  | some s => exact ⟨hs s rfl, ⟨hcondition, hround⟩, trivial⟩

/-! ## Steps -/

/-- A fault of the grammar. -/
def Diagnostic.IsGrammar (d : Diagnostic) : Prop :=
  ∃ fault site line, d = .grammar fault site line

/-- Only given tokens are left, and only faults of the grammar were reported. -/
structure ParseState.Tame (given : List Token) (s : ParseState) : Prop where
  rest : s.rest ⊆ given
  faults : ∀ d ∈ s.diagnostics, d.IsGrammar

/-- A reply with a tame state, and with a result that has a property. -/
def Reply.Tames {α : Type} (given : List Token) (ok : α → Prop) : Reply α → Prop
  | .ok value after => ok value ∧ after.Tame given
  | .failed after => after.Tame given
  | .outOfFuel => True

namespace Parse

variable {given : List Token} {α β : Type} {ok : α → Prop} {ok' : β → Prop}

/-- A step that keeps states tame and whose result has a property. -/
def Tames (given : List Token) (ok : α → Prop) (step : Parse α) : Prop :=
  ∀ s : ParseState, s.Tame given → (step s).Tames given ok

namespace Tames

/-! ### Sequencing -/

theorem pure {a : α} (h : ok a) : Tames given ok (Pure.pure a) :=
  fun _ hs => ⟨h, hs⟩

theorem bind {first : Parse α} {next : α → Parse β} (h : Tames given ok first)
    (hn : ∀ a, ok a → Tames given ok' (next a)) : Tames given ok' (first >>= next) := by
  intro s hs
  have hfirst := h s hs
  show Reply.Tames given ok' (Parse.bind first next s)
  unfold Parse.bind
  cases hr : first s with
  | ok a t =>
    rw [hr] at hfirst
    exact hn a hfirst.1 t hfirst.2
  | failed t =>
    rw [hr] at hfirst
    exact hfirst
  | outOfFuel => trivial

theorem imp {step : Parse α} {ok' : α → Prop} (h : Tames given ok step)
    (hi : ∀ a, ok a → ok' a) : Tames given ok' step := by
  intro s hs
  have hstep := h s hs
  cases hr : step s with
  | ok a t =>
    rw [hr] at hstep
    exact ⟨hi a hstep.1, hstep.2⟩
  | failed t =>
    rw [hr] at hstep
    exact hstep
  | outOfFuel => trivial

/-- A step whose result does not matter. -/
theorem skip {first : Parse α} {next : α → Parse β} (h : Tames given ok first)
    (hn : ∀ a, Tames given ok' (next a)) : Tames given ok' (first >>= next) :=
  h.bind fun a _ => hn a

theorem stuck : Tames given ok stuck :=
  fun _ _ => trivial

theorem fail : Tames given ok fail :=
  fun _ hs => hs

theorem attempt {step : Parse α} (h : Tames given ok step) :
    Tames given (fun _ => True) (attempt step) := by
  intro s hs
  have hstep := h s hs
  unfold Parse.attempt
  cases hr : step s with
  | ok a t =>
    rw [hr] at hstep
    exact ⟨trivial, hstep.2⟩
  | failed t =>
    rw [hr] at hstep
    exact ⟨trivial, hstep⟩
  | outOfFuel => trivial

/-! ### Tokens -/

theorem peek :
    Tames given (fun token => token.kind ≠ .endOfInput → token ∈ given) peek := by
  intro s hs
  refine ⟨fun hk => hs.rest ?_, hs⟩
  cases hr : s.rest with
  | nil =>
    rw [hr] at hk
    exact absurd rfl hk
  | cons t ts => exact List.mem_cons_self

theorem peekKind : Tames given (fun _ => True) peekKind :=
  peek.skip fun _ => pure trivial

theorem kindAfterNext? : Tames given (fun _ => True) kindAfterNext? :=
  fun _ hs => ⟨trivial, hs⟩

theorem advance : Tames given (fun _ => True) advance :=
  fun _ hs => ⟨trivial, fun _ ht => hs.rest (List.mem_of_mem_drop ht), hs.faults⟩

theorem accept? {kinds : List TokenKind} (hk : TokenKind.endOfInput ∉ kinds) :
    Tames given (fun found => ∀ token ∈ found, token.Among given kinds) (accept? kinds) := by
  refine peek.bind fun token ht => ?_
  split
  · rename_i hkind
    refine advance.skip fun _ => pure ?_
    rintro _ ⟨⟩
    exact ⟨ht fun he => hk (he ▸ hkind), hkind⟩
  · exact pure nofun

theorem newId : Tames given (fun _ => True) newId :=
  fun _ hs => ⟨trivial, hs.rest, hs.faults⟩

/-! ### Faults -/

theorem report (token : Token) (fault : GrammarFault) :
    Tames given (fun _ => True) (report token fault) := by
  refine fun s hs => ⟨trivial, hs.rest, fun d hd => ?_⟩
  rcases List.mem_append.1 hd with hd | hd
  · exact hs.faults d hd
  · rw [List.mem_singleton.1 hd]
    exact ⟨_, _, _, rfl⟩

theorem reject {ok : α → Prop} (token : Token) (fault : GrammarFault) :
    Tames given ok (reject token fault) :=
  (report token fault).skip fun _ => fail

theorem expect (slot : Slot) :
    Tames given (fun token => token.Among given [slot.kind]) (expect slot) := by
  refine peek.bind fun token ht => ?_
  split
  · rename_i hkind
    refine advance.skip fun _ => pure ⟨ht fun he => ?_, by simpa using hkind⟩
    exact slot.kind_ne_endOfInput (hkind.symm.trans he)
  · exact reject _ _

theorem limit (count : Nat) (fault : GrammarFault) :
    Tames given (fun _ => True) (limit count fault) := by
  unfold Parse.limit
  split
  · exact peek.skip fun _ => report _ _
  · exact pure trivial

theorem requireLoop (token : Token) : Tames given (fun _ => True) (requireLoop token) := by
  have hdepth : Tames given (fun _ => True) loopDepth := fun _ hs => ⟨trivial, hs⟩
  refine hdepth.skip fun depth => ?_
  split
  · exact report _ _
  · exact pure trivial

/-! ### Optional parts, loops and recovery -/

theorem unlessNext {kind : TokenKind} {step : Parse α} (h : Tames given ok step) :
    Tames given (fun found => ∀ a ∈ found, ok a) (unlessNext kind step) := by
  refine peekKind.skip fun next => ?_
  split
  · exact pure nofun
  · refine h.bind fun a ha => pure ?_
    rintro _ ⟨⟩
    exact ha

theorem ifNext {kind : TokenKind} (hk : kind ≠ .endOfInput) {step : Parse α}
    (h : Tames given ok step) :
    Tames given (fun found => ∀ a ∈ found, ok a) (ifNext kind step) := by
  refine (accept? (by simpa using hk.symm)).bind fun found _ => ?_
  cases found with
  | none => exact pure nofun
  | some token =>
    refine h.bind fun a ha => pure ?_
    rintro _ ⟨⟩
    exact ha

theorem atLoopDepth {depth : Nat → Nat} {step : Parse α} (h : Tames given ok step) :
    Tames given ok (atLoopDepth depth step) := by
  intro s hs
  have hstep := h { s with loopDepth := depth s.loopDepth } ⟨hs.rest, hs.faults⟩
  unfold Parse.atLoopDepth
  split <;> rename_i hr <;> rw [hr] at hstep
  · exact ⟨hstep.1, hstep.2.rest, hstep.2.faults⟩
  · exact ⟨hstep.rest, hstep.faults⟩
  · trivial

theorem recover {step : Parse α} (h : Tames given ok step) :
    Tames given (fun found => ∀ a ∈ found, ok a) (recover step) := by
  intro s hs
  have hstep := h s hs
  unfold Parse.recover
  split <;> rename_i hr <;> rw [hr] at hstep
  · refine ⟨?_, hstep.2⟩
    rintro _ ⟨⟩
    exact hstep.1
  · exact ⟨nofun, fun t ht => hstep.rest ((synchronize_suffix _).subset ht), hstep.faults⟩
  · trivial

end Tames

/-! ## Rules -/

/-- The trees of all rules are formed, at one amount of fuel. -/
structure FormsAt (given : List Token) (fuel : Nat) : Prop where
  parameters : ∀ count, Tames given (fun names => ∀ token ∈ names, token.Among given [.identifier])
    (parameters fuel count)
  declaration : Tames given (fun found => ∀ s ∈ found, s.Formed given) (declaration fuel)
  declarationOrFail : Tames given (Stmt.Formed given) (declarationOrFail fuel)
  declarations : ∀ inBlock, Tames given (Stmt.FormedAll given) (declarations fuel inBlock)
  classDeclaration : Tames given (Stmt.Formed given) (classDeclaration fuel)
  methods : Tames given (FunctionDecl.FormedAll given) (methods fuel)
  namedFunction : ∀ role, Tames given (fun d => d.name.isSome = true ∧ d.Formed given)
    (namedFunction fuel role)
  functionRest : ∀ name role, (∀ token ∈ name, token.Among given [.identifier]) →
    Tames given (fun d => d.name = name ∧ d.Formed given) (functionRest fuel name role)
  varDeclaration : Tames given (Stmt.Formed given) (varDeclaration fuel)
  statement : Tames given (Stmt.Formed given) (statement fuel)
  forStatement : Tames given (Stmt.Formed given) (forStatement fuel)
  forInitializer : Tames given (fun found => ∀ s ∈ found, s.Formed given) (forInitializer fuel)
  ifStatement : Tames given (Stmt.Formed given) (ifStatement fuel)
  whileStatement : Tames given (Stmt.Formed given) (whileStatement fuel)
  blockRest : Tames given (Stmt.FormedAll given) (blockRest fuel)
  expressionStatement : Tames given (Stmt.Formed given) (expressionStatement fuel)
  expressionList : Tames given (Expr.Formed given) (expressionList fuel)
  expressionListRest : ∀ left, left.Formed given →
    Tames given (Expr.Formed given) (expressionListRest fuel left)
  conditional : Tames given (Expr.Formed given) (conditional fuel)
  assignment : Tames given (Expr.Formed given) (assignment fuel)
  binaryLevels : ∀ ls, ls ⊆ levels → Tames given (Expr.Formed given) (binaryLevels fuel ls)
  binaryRest : ∀ level tighter left, level :: tighter ⊆ levels → left.Formed given →
    Tames given (Expr.Formed given) (binaryRest fuel level tighter left)
  unary : Tames given (Expr.Formed given) (unary fuel)
  callRest : ∀ callee, callee.Formed given →
    Tames given (Expr.Formed given) (callRest fuel callee)
  arguments : ∀ count, Tames given (Expr.FormedAll given) (arguments fuel count)
  primary : Tames given (Expr.Formed given) (primary fuel)
  strayTernary : Tames given (Expr.Formed given) (strayTernary fuel)

theorem formsAt_zero (given : List Token) : FormsAt given 0 where
  parameters _ := by rw [parameters]; exact .stuck
  declaration := by rw [declaration]; exact .stuck
  declarationOrFail := by rw [declarationOrFail]; exact .stuck
  declarations _ := by rw [declarations]; exact .stuck
  classDeclaration := by rw [classDeclaration]; exact .stuck
  methods := by rw [methods]; exact .stuck
  namedFunction _ := by rw [namedFunction]; exact .stuck
  functionRest _ _ _ := by rw [functionRest]; exact .stuck
  varDeclaration := by rw [varDeclaration]; exact .stuck
  statement := by rw [statement]; exact .stuck
  forStatement := by rw [forStatement]; exact .stuck
  forInitializer := by rw [forInitializer]; exact .stuck
  ifStatement := by rw [ifStatement]; exact .stuck
  whileStatement := by rw [whileStatement]; exact .stuck
  blockRest := by rw [blockRest]; exact .stuck
  expressionStatement := by rw [expressionStatement]; exact .stuck
  expressionList := by rw [expressionList]; exact .stuck
  expressionListRest _ _ := by rw [expressionListRest]; exact .stuck
  conditional := by rw [conditional]; exact .stuck
  assignment := by rw [assignment]; exact .stuck
  binaryLevels _ _ := by rw [binaryLevels]; exact .stuck
  binaryRest _ _ _ _ _ := by rw [binaryRest]; exact .stuck
  unary := by rw [unary]; exact .stuck
  callRest _ _ := by rw [callRest]; exact .stuck
  arguments _ := by rw [arguments]; exact .stuck
  primary := by rw [primary]; exact .stuck
  strayTernary := by rw [strayTernary]; exact .stuck

namespace FormsAt

variable {fuel : Nat}

/-! ### Declarations -/

theorem parameters_step (ih : FormsAt given fuel) (count : Nat) :
    Tames given (fun names => ∀ token ∈ names, token.Among given [.identifier])
      (Parse.parameters (fuel + 1) count) := by
  rw [Parse.parameters]
  refine (Tames.limit _ _).skip fun _ => (Tames.expect _).bind fun name hname => ?_
  refine (Tames.accept? (by decide)).skip fun comma => ?_
  cases comma with
  | none => exact .pure (List.forall_mem_singleton.2 hname)
  | some _ =>
    exact (ih.parameters (count + 1)).bind fun names hnames =>
      .pure (List.forall_mem_cons.2 ⟨hname, hnames⟩)

theorem declarationOrFail_step (ih : FormsAt given fuel) :
    Tames given (Stmt.Formed given) (Parse.declarationOrFail (fuel + 1)) := by
  rw [Parse.declarationOrFail]
  refine Tames.peekKind.skip fun kind => ?_
  split
  · exact Tames.advance.skip fun _ => ih.classDeclaration
  · exact Tames.advance.skip fun _ => ih.varDeclaration
  · exact ih.statement

theorem declarations_step (ih : FormsAt given fuel) (inBlock : Bool) :
    Tames given (Stmt.FormedAll given) (Parse.declarations (fuel + 1) inBlock) := by
  rw [Parse.declarations]
  refine Tames.peekKind.skip fun kind => ?_
  split
  · exact .pure trivial
  · refine ih.declaration.bind fun first hfirst => ?_
    refine (ih.declarations inBlock).bind fun rest hrest => .pure ?_
    cases first with
    | none => exact hrest
    | some s => exact ⟨hfirst s rfl, hrest⟩

theorem classDeclaration_step (ih : FormsAt given fuel) :
    Tames given (Stmt.Formed given) (Parse.classDeclaration (fuel + 1)) := by
  rw [Parse.classDeclaration]
  refine (Tames.expect _).bind fun name hname => (Tames.expect _).skip fun _ => ?_
  refine ih.methods.bind fun found hfound => ?_
  exact (Tames.expect _).skip fun _ => .pure ⟨hname, hfound⟩

theorem methods_step (ih : FormsAt given fuel) :
    Tames given (FunctionDecl.FormedAll given) (Parse.methods (fuel + 1)) := by
  rw [Parse.methods]
  refine Tames.peekKind.skip fun kind => ?_
  split
  · exact .pure trivial
  · exact (ih.namedFunction .method).bind fun first hfirst =>
      ih.methods.bind fun rest hrest => .pure ⟨hfirst.2, hrest⟩

theorem namedFunction_step (ih : FormsAt given fuel) (role : FunctionRole) :
    Tames given (fun d => d.name.isSome = true ∧ d.Formed given)
      (Parse.namedFunction (fuel + 1) role) := by
  rw [Parse.namedFunction]
  refine (Tames.expect _).bind fun name hname => ?_
  refine (ih.functionRest (some name) role ?_).imp fun d hd => ⟨by rw [hd.1]; rfl, hd.2⟩
  rintro _ ⟨⟩
  exact hname

theorem functionRest_step (ih : FormsAt given fuel) (name : Option Token)
    (role : FunctionRole) (hname : ∀ token ∈ name, token.Among given [.identifier]) :
    Tames given (fun d => d.name = name ∧ d.Formed given)
      (Parse.functionRest (fuel + 1) name role) := by
  rw [Parse.functionRest]
  refine (Tames.expect _).skip fun _ => ?_
  refine (Tames.unlessNext (ih.parameters 0)).bind fun names hnames => ?_
  refine (Tames.expect _).skip fun _ => (Tames.expect _).skip fun _ => ?_
  refine (Tames.atLoopDepth ih.blockRest).bind fun body hbody => .pure ⟨rfl, hname, ?_, hbody⟩
  cases names with
  | none => exact List.forall_mem_nil _
  | some names => exact hnames names rfl

theorem varDeclaration_step (ih : FormsAt given fuel) :
    Tames given (Stmt.Formed given) (Parse.varDeclaration (fuel + 1)) := by
  rw [Parse.varDeclaration]
  refine (Tames.expect _).bind fun name hname => ?_
  refine (Tames.ifNext (by decide) ih.conditional).bind fun initializer hinit => ?_
  refine (Tames.expect _).skip fun _ => .pure ?_
  cases initializer with
  | none => exact hname
  | some value => exact ⟨hname, hinit value rfl⟩

/-! ### Statements -/

theorem statement_step (ih : FormsAt given fuel) :
    Tames given (Stmt.Formed given) (Parse.statement (fuel + 1)) := by
  rw [Parse.statement]
  refine Tames.peek.skip fun token => ?_
  split
  · exact Tames.advance.skip fun _ => ih.forStatement
  · exact Tames.advance.skip fun _ => ih.ifStatement
  · exact Tames.advance.skip fun _ => ih.expressionList.bind fun value hvalue =>
      (Tames.expect _).skip fun _ => .pure hvalue
  · refine Tames.advance.skip fun _ => ?_
    refine (Tames.unlessNext ih.conditional).bind fun value hvalue => ?_
    refine (Tames.expect _).skip fun _ => .pure ?_
    cases value with
    | none => trivial
    | some e => exact hvalue e rfl
  · exact Tames.advance.skip fun _ => ih.whileStatement
  · exact Tames.advance.skip fun _ => (Tames.requireLoop _).skip fun _ =>
      (Tames.expect _).skip fun _ => .pure trivial
  · exact Tames.advance.skip fun _ => ih.blockRest.bind fun body hbody => .pure hbody
  · refine Tames.kindAfterNext?.skip fun next => ?_
    split
    · exact Tames.advance.skip fun _ => (ih.namedFunction .function).bind fun d hd => .pure hd
    · exact ih.expressionStatement
  · exact ih.expressionStatement

theorem forStatement_step (ih : FormsAt given fuel) :
    Tames given (Stmt.Formed given) (Parse.forStatement (fuel + 1)) := by
  rw [Parse.forStatement]
  refine (Tames.expect _).skip fun _ => ih.forInitializer.bind fun start hstart => ?_
  refine (Tames.unlessNext ih.expressionList).bind fun condition hcondition => ?_
  refine (Tames.expect _).skip fun _ => ?_
  refine (Tames.unlessNext ih.expressionList).bind fun increment hincrement => ?_
  refine (Tames.expect _).skip fun _ => (Tames.atLoopDepth ih.statement).bind fun body hbody => ?_
  exact .pure (Stmt.formed_forLoop hstart hcondition hincrement hbody)

theorem forInitializer_step (ih : FormsAt given fuel) :
    Tames given (fun found => ∀ s ∈ found, s.Formed given)
      (Parse.forInitializer (fuel + 1)) := by
  rw [Parse.forInitializer]
  refine Tames.peekKind.skip fun kind => ?_
  split
  · exact Tames.advance.skip fun _ => .pure (by rintro _ ⟨⟩)
  · exact Tames.advance.skip fun _ => ih.varDeclaration.bind fun s hs => .pure (by simpa using hs)
  · exact ih.expressionStatement.bind fun s hs => .pure (by simpa using hs)

theorem ifStatement_step (ih : FormsAt given fuel) :
    Tames given (Stmt.Formed given) (Parse.ifStatement (fuel + 1)) := by
  rw [Parse.ifStatement]
  refine (Tames.expect _).skip fun _ => ih.expressionList.bind fun condition hcondition => ?_
  refine (Tames.expect _).skip fun _ => ih.statement.bind fun whenTrue htrue => ?_
  refine (Tames.ifNext (by decide) ih.statement).bind fun whenFalse hfalse => .pure ?_
  cases whenFalse with
  | none => exact ⟨hcondition, htrue⟩
  | some s => exact ⟨hcondition, htrue, hfalse s rfl⟩

theorem whileStatement_step (ih : FormsAt given fuel) :
    Tames given (Stmt.Formed given) (Parse.whileStatement (fuel + 1)) := by
  rw [Parse.whileStatement]
  refine (Tames.expect _).skip fun _ => ih.expressionList.bind fun condition hcondition => ?_
  refine (Tames.expect _).skip fun _ => ?_
  exact (Tames.atLoopDepth ih.statement).bind fun body hbody => .pure ⟨hcondition, hbody⟩

theorem blockRest_step (ih : FormsAt given fuel) :
    Tames given (Stmt.FormedAll given) (Parse.blockRest (fuel + 1)) := by
  rw [Parse.blockRest]
  exact (ih.declarations true).bind fun body hbody => (Tames.expect _).skip fun _ => .pure hbody

theorem expressionStatement_step (ih : FormsAt given fuel) :
    Tames given (Stmt.Formed given) (Parse.expressionStatement (fuel + 1)) := by
  rw [Parse.expressionStatement]
  exact ih.expressionList.bind fun value hvalue => (Tames.expect _).skip fun _ => .pure hvalue

/-! ### Expressions -/

theorem expressionList_step (ih : FormsAt given fuel) :
    Tames given (Expr.Formed given) (Parse.expressionList (fuel + 1)) := by
  rw [Parse.expressionList]
  exact ih.conditional.bind fun left hleft => ih.expressionListRest left hleft

theorem expressionListRest_step (ih : FormsAt given fuel) (left : Expr)
    (hleft : left.Formed given) :
    Tames given (Expr.Formed given) (Parse.expressionListRest (fuel + 1) left) := by
  rw [Parse.expressionListRest]
  refine (Tames.accept? (by decide)).bind fun comma hcomma => ?_
  cases comma with
  | none => exact .pure hleft
  | some operator =>
    refine ih.conditional.bind fun right hright => ih.expressionListRest _ ⟨hleft, ?_, hright⟩
    exact (hcomma operator rfl).mono (by decide)

theorem conditional_step (ih : FormsAt given fuel) :
    Tames given (Expr.Formed given) (Parse.conditional (fuel + 1)) := by
  rw [Parse.conditional]
  refine ih.assignment.bind fun condition hcondition => ?_
  refine (Tames.accept? (by decide)).skip fun question => ?_
  cases question with
  | none => exact .pure hcondition
  | some question =>
    refine (Tames.unlessNext ih.expressionList).bind fun whenTrue htrue => ?_
    refine (Tames.expect _).skip fun _ => ih.conditional.bind fun whenFalse hfalse => ?_
    refine .pure ⟨hcondition, ?_, hfalse⟩
    cases whenTrue with
    | none => trivial
    | some e => exact htrue e rfl

theorem assignment_step (ih : FormsAt given fuel) :
    Tames given (Expr.Formed given) (Parse.assignment (fuel + 1)) := by
  rw [Parse.assignment]
  refine (ih.binaryLevels levels (List.Subset.refl _)).bind fun target htarget => ?_
  refine (Tames.accept? (by decide)).skip fun equals => ?_
  cases equals with
  | none => exact .pure htarget
  | some equals =>
    refine ih.assignment.bind fun value hvalue => ?_
    split
    · exact .pure ⟨htarget, hvalue⟩
    · exact .pure ⟨htarget.1, htarget.2, hvalue⟩
    · exact (Tames.report _ _).skip fun _ => .pure htarget

theorem binaryLevels_step (ih : FormsAt given fuel) (ls : List Level) (hs : ls ⊆ levels) :
    Tames given (Expr.Formed given) (Parse.binaryLevels (fuel + 1) ls) := by
  cases ls with
  | nil =>
    rw [Parse.binaryLevels]
    exact ih.unary
  | cons level tighter =>
    rw [Parse.binaryLevels]
    exact (ih.binaryLevels tighter (List.Subset.trans (List.subset_cons_self ..) hs)).bind
      fun left hleft => ih.binaryRest level tighter left hs hleft

theorem binaryRest_step (ih : FormsAt given fuel) (level : Level) (tighter : List Level)
    (left : Expr) (hs : level :: tighter ⊆ levels) (hleft : left.Formed given) :
    Tames given (Expr.Formed given) (Parse.binaryRest (fuel + 1) level tighter left) := by
  have hlevel : level ∈ levels := hs List.mem_cons_self
  have htighter : tighter ⊆ levels := List.Subset.trans (List.subset_cons_self ..) hs
  rw [Parse.binaryRest]
  refine (Tames.accept? (OrderlyAt.endOfInput_not_mem_operators hlevel)).bind
    fun operator hoperator => ?_
  cases operator with
  | none => exact .pure hleft
  | some operator =>
    refine (ih.binaryLevels tighter htighter).bind fun right hright => ?_
    exact ih.binaryRest level tighter _ hs
      (Level.formed_node hlevel hleft (hoperator operator rfl) hright)

theorem unary_step (ih : FormsAt given fuel) :
    Tames given (Expr.Formed given) (Parse.unary (fuel + 1)) := by
  rw [Parse.unary]
  refine (Tames.accept? (by decide)).bind fun operator hoperator => ?_
  cases operator with
  | some operator =>
    exact ih.unary.bind fun operand hoperand => .pure ⟨hoperator operator rfl, hoperand⟩
  | none => exact ih.primary.bind fun callee hcallee => ih.callRest callee hcallee

theorem callRest_step (ih : FormsAt given fuel) (callee : Expr) (hcallee : callee.Formed given) :
    Tames given (Expr.Formed given) (Parse.callRest (fuel + 1) callee) := by
  rw [Parse.callRest]
  refine Tames.peekKind.skip fun kind => ?_
  split
  · refine Tames.advance.skip fun _ => ?_
    refine (Tames.unlessNext (ih.arguments 0)).bind fun found hfound => ?_
    refine (Tames.expect _).skip fun paren => ih.callRest _ ⟨hcallee, ?_⟩
    cases found with
    | none => trivial
    | some es => exact hfound es rfl
  · exact Tames.advance.skip fun _ => (Tames.expect _).bind fun name hname =>
      ih.callRest _ ⟨hcallee, hname⟩
  · exact .pure hcallee

theorem arguments_step (ih : FormsAt given fuel) (count : Nat) :
    Tames given (Expr.FormedAll given) (Parse.arguments (fuel + 1) count) := by
  rw [Parse.arguments]
  refine (Tames.limit _ _).skip fun _ => ih.conditional.bind fun first hfirst => ?_
  refine (Tames.accept? (by decide)).skip fun comma => ?_
  cases comma with
  | none => exact .pure ⟨hfirst, trivial⟩
  | some _ => exact (ih.arguments (count + 1)).bind fun rest hrest => .pure ⟨hfirst, hrest⟩

/-- What a step reads that is run behind a fault is dropped. -/
theorem dropped {ok : α → Prop} {step : Parse β} {ok' : β → Prop} (token : Token)
    (fault : GrammarFault) (h : Tames given ok' step) :
    Tames given ok (do Parse.report token fault; Parse.attempt step; Parse.fail) :=
  (Tames.report token fault).skip fun _ => h.attempt.skip fun _ => .fail

theorem primary_step (ih : FormsAt given fuel) :
    Tames given (Expr.Formed given) (Parse.primary (fuel + 1)) := by
  rw [Parse.primary]
  refine Tames.peek.bind fun token htoken => ?_
  generalize hk : token.kind = kind
  split
  · exact Tames.advance.skip fun _ => .pure trivial
  · exact Tames.advance.skip fun _ => .pure trivial
  · exact Tames.advance.skip fun _ => .pure trivial
  · exact Tames.advance.skip fun _ => .pure trivial
  · exact Tames.advance.skip fun _ => .pure trivial
  · exact Tames.advance.skip fun _ => Tames.newId.skip fun _ =>
      .pure ⟨htoken (by rw [hk]; decide), by simp [hk]⟩
  · exact Tames.advance.skip fun _ => Tames.newId.skip fun _ => .pure trivial
  · exact Tames.advance.skip fun _ =>
      (ih.functionRest none .inlineFunction (by rintro _ ⟨⟩)).bind fun d hd => .pure hd
  · exact Tames.advance.skip fun _ => ih.expressionList.bind fun inner hinner =>
      (Tames.expect _).skip fun _ => .pure hinner
  · exact Tames.advance.skip fun _ => .reject _ _
  · exact Tames.advance.skip fun _ => dropped _ _ ih.conditional
  · exact Tames.advance.skip fun _ => dropped _ _ ih.strayTernary
  · cases ho : operandLevels? kind levels with
    | none => exact .reject _ _
    | some tighter =>
      exact Tames.advance.skip fun _ =>
        dropped _ _ (ih.binaryLevels tighter (OrderlyAt.operandLevels?_suffix ho).subset)

theorem strayTernary_step (ih : FormsAt given fuel) :
    Tames given (Expr.Formed given) (Parse.strayTernary (fuel + 1)) := by
  rw [Parse.strayTernary]
  exact ih.expressionList.skip fun _ => (Tames.expect _).skip fun _ => ih.conditional

end FormsAt

/-- The trees of every rule are formed, whatever its fuel. -/
theorem formsAt (given : List Token) (fuel : Nat) : FormsAt given fuel := by
  induction fuel with
  | zero => exact formsAt_zero given
  | succ fuel ih =>
    exact {
      parameters := ih.parameters_step
      declaration := by
        rw [declaration]
        exact ih.declarationOrFail.recover
      declarationOrFail := ih.declarationOrFail_step
      declarations := ih.declarations_step
      classDeclaration := ih.classDeclaration_step
      methods := ih.methods_step
      namedFunction := ih.namedFunction_step
      functionRest := ih.functionRest_step
      varDeclaration := ih.varDeclaration_step
      statement := ih.statement_step
      forStatement := ih.forStatement_step
      forInitializer := ih.forInitializer_step
      ifStatement := ih.ifStatement_step
      whileStatement := ih.whileStatement_step
      blockRest := ih.blockRest_step
      expressionStatement := ih.expressionStatement_step
      expressionList := ih.expressionList_step
      expressionListRest := ih.expressionListRest_step
      conditional := ih.conditional_step
      assignment := ih.assignment_step
      binaryLevels := ih.binaryLevels_step
      binaryRest := ih.binaryRest_step
      unary := ih.unary_step
      callRest := ih.callRest_step
      arguments := ih.arguments_step
      primary := ih.primary_step
      strayTernary := ih.strayTernary_step }

end Parse

/-! ## Programs -/

/-- The statements of a program are made of the given tokens, and its faults are faults of
the grammar, whatever the tokens are. -/
theorem Program.formed (tokens : List Token) (firstId : ReferenceId) :
    Stmt.FormedAll tokens (ofTokens tokens firstId).statements ∧
      ∀ d ∈ (ofTokens tokens firstId).diagnostics, d.IsGrammar := by
  have hstart : ParseState.Tame tokens
      { rest := tokens, nextId := firstId, loopDepth := 0, diagnostics := [] } :=
    ⟨List.Subset.refl _, nofun⟩
  have htames := (Parse.formsAt tokens (32 * (tokens.length + 1))).declarations false _ hstart
  simp only [ofTokens]
  generalize Parse.declarations _ false _ = reply at htames ⊢
  cases reply with
  | ok found after => exact ⟨htames.1, htames.2.faults⟩
  | failed after => exact ⟨trivial, htames.faults⟩
  | outOfFuel => exact ⟨trivial, nofun⟩

end TreeScript
