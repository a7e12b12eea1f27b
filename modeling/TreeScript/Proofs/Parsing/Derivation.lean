import TreeScript.Parsing.Grammar

/-!
# Derivations

The grammar as a relation, without any order of trying: which tokens derive which
tree.

* `Point` — the tokens that are left and the first free reference identity
* `Symbol` — the nonterminals, each with the type of its trees
* `Derives` — a symbol derives a tree from one point to a later one
* `Convention` — the two places where the printed grammar can be read in two ways

Reference identities are handed out in the order of the tokens, so a derivation
fixes them as well.
-/

namespace TreeScript

/-! ## Points and symbols -/

/-- What is left to derive from, and the first reference identity that is free. -/
structure Point where
  tokens : List Token
  nextId : ReferenceId

/-- The point at which a parsing step stands. -/
def ParseState.point (state : ParseState) : Point :=
  { tokens := state.rest, nextId := state.nextId }

/-- How the printed grammar is read.  An `else` belongs to the nearest open branch,
or to any open one; the methods of a class have names, or start at their
parameters. -/
structure Convention where
  nearestElse : Bool
  namedMethods : Bool

/-- The reading that a parser implements: an `else` belongs to the nearest open branch,
and methods have names. -/
def Convention.standard : Convention :=
  { nearestElse := true, namedMethods := true }

/-- The reading that leaves open which branch an `else` belongs to. -/
def Convention.openElse : Convention :=
  { nearestElse := false, namedMethods := true }

/-- The printed rules as they stand: a method starts at its parameters. -/
def Convention.printed : Convention :=
  { nearestElse := false, namedMethods := false }

/-- The nonterminals.  Statements know whether they stand in a loop of their
function; a `dangling` one ends in a branch that an `else` could still follow. -/
inductive Symbol where
  | declarations (inLoop : Bool)
  | declaration (inLoop : Bool)
  | methods
  | function
  | parameters
  | variable
  | statement (inLoop dangling : Bool)
  | initializer
  | optionalList
  | list
  | conditional
  | assignment
  | level (levels : List Level)
  | unary
  | call
  | arguments
  | primary

/-- The type of the trees that a symbol derives. -/
@[reducible]
def Symbol.Tree : Symbol → Type
  | .declarations _ => List Stmt
  | .declaration _ | .variable | .statement _ _ => Stmt
  | .methods => List FunctionDecl
  | .function => List Token × List Stmt
  | .parameters => List Token
  | .initializer => Option Stmt
  | .optionalList => Option Expr
  | .arguments => List Expr
  | .list | .conditional | .assignment | .level _ | .unary | .call | .primary => Expr

/-! ## The grammar -/

/-- A symbol derives a tree from one point to a later one. -/
inductive Derives (c : Convention) : (s : Symbol) → Point → s.Tree → Point → Prop
  | noDeclaration {l p} : Derives c (.declarations l) p [] p
  | moreDeclarations {l p q r first rest} :
      Derives c (.declaration l) p first q → Derives c (.declarations l) q rest r →
      Derives c (.declarations l) p (first :: rest) r
  | classDeclaration {l keyword name opening closing ts us n m found} :
      keyword.kind = .classKeyword → name.kind = .identifier → opening.kind = .leftBrace →
      Derives c .methods ⟨ts, n⟩ found ⟨closing :: us, m⟩ → closing.kind = .rightBrace →
      Derives c (.declaration l) ⟨keyword :: name :: opening :: ts, n⟩
        (.classDecl name found) ⟨us, m⟩
  | functionDeclaration {l keyword name ts n parameters body q} :
      keyword.kind = .funKeyword → name.kind = .identifier →
      Derives c .function ⟨ts, n⟩ (parameters, body) q →
      Derives c (.declaration l) ⟨keyword :: name :: ts, n⟩
        (.function { name := some name, parameters, body }) q
  | variableDeclaration {l keyword ts n s q} :
      keyword.kind = .varKeyword → Derives c .variable ⟨ts, n⟩ s q →
      Derives c (.declaration l) ⟨keyword :: ts, n⟩ s q
  | plainStatement {l d p s q} :
      Derives c (.statement l d) p s q → Derives c (.declaration l) p s q
  | noMethod {p} : Derives c .methods p [] p
  | namedMethod {name ts n parameters body q rest r} :
      c.namedMethods = true → name.kind = .identifier →
      Derives c .function ⟨ts, n⟩ (parameters, body) q → Derives c .methods q rest r →
      Derives c .methods ⟨name :: ts, n⟩ ({ name := some name, parameters, body } :: rest) r
  | namelessMethod {p parameters body q rest r} :
      c.namedMethods = false →
      Derives c .function p (parameters, body) q → Derives c .methods q rest r →
      Derives c .methods p ({ name := none, parameters, body } :: rest) r
  | functionWithout {lp rp lb rb ts us n m body} :
      lp.kind = .leftParen → rp.kind = .rightParen → lb.kind = .leftBrace →
      Derives c (.declarations false) ⟨ts, n⟩ body ⟨rb :: us, m⟩ → rb.kind = .rightBrace →
      Derives c .function ⟨lp :: rp :: lb :: ts, n⟩ ([], body) ⟨us, m⟩
  | functionWith {lp rp lb rb ts us vs n m k names body} :
      lp.kind = .leftParen → Derives c .parameters ⟨ts, n⟩ names ⟨rp :: lb :: us, m⟩ →
      names.length ≤ maxArguments → rp.kind = .rightParen → lb.kind = .leftBrace →
      Derives c (.declarations false) ⟨us, m⟩ body ⟨rb :: vs, k⟩ → rb.kind = .rightBrace →
      Derives c .function ⟨lp :: ts, n⟩ (names, body) ⟨vs, k⟩
  | lastParameter {name ts n} :
      name.kind = .identifier → Derives c .parameters ⟨name :: ts, n⟩ [name] ⟨ts, n⟩
  | moreParameters {name comma ts n names q} :
      name.kind = .identifier → comma.kind = .comma →
      Derives c .parameters ⟨ts, n⟩ names q →
      Derives c .parameters ⟨name :: comma :: ts, n⟩ (name :: names) q
  | variableWithout {name finish ts n} :
      name.kind = .identifier → finish.kind = .semicolon →
      Derives c .variable ⟨name :: finish :: ts, n⟩ (.varDecl name none) ⟨ts, n⟩
  | variableWith {name equals finish ts us n m value} :
      name.kind = .identifier → equals.kind = .equal →
      Derives c .conditional ⟨ts, n⟩ value ⟨finish :: us, m⟩ → finish.kind = .semicolon →
      Derives c .variable ⟨name :: equals :: ts, n⟩ (.varDecl name (some value)) ⟨us, m⟩
  | forStatement {l d keyword lp finish rp ts us vs n m k j start condition increment body q} :
      keyword.kind = .forKeyword → lp.kind = .leftParen →
      Derives c .initializer ⟨ts, n⟩ start m →
      Derives c .optionalList m condition ⟨finish :: us, k⟩ → finish.kind = .semicolon →
      Derives c .optionalList ⟨us, k⟩ increment ⟨rp :: vs, j⟩ → rp.kind = .rightParen →
      Derives c (.statement true d) ⟨vs, j⟩ body q →
      Derives c (.statement l d) ⟨keyword :: lp :: ts, n⟩
        (.forLoop start condition increment body) q
  | branch {l d keyword lp rp ts us n m condition whenTrue q} :
      keyword.kind = .ifKeyword → lp.kind = .leftParen →
      Derives c .list ⟨ts, n⟩ condition ⟨rp :: us, m⟩ → rp.kind = .rightParen →
      Derives c (.statement l d) ⟨us, m⟩ whenTrue q →
      Derives c (.statement l true) ⟨keyword :: lp :: ts, n⟩
        (.conditional condition whenTrue none) q
  | branches {l d e keyword lp rp other ts us vs n m k condition whenTrue whenFalse q} :
      keyword.kind = .ifKeyword → lp.kind = .leftParen →
      Derives c .list ⟨ts, n⟩ condition ⟨rp :: us, m⟩ → rp.kind = .rightParen →
      Derives c (.statement l d) ⟨us, m⟩ whenTrue ⟨other :: vs, k⟩ →
      (c.nearestElse = true → d = false) → other.kind = .elseKeyword →
      Derives c (.statement l e) ⟨vs, k⟩ whenFalse q →
      Derives c (.statement l e) ⟨keyword :: lp :: ts, n⟩
        (.conditional condition whenTrue (some whenFalse)) q
  | printStatement {l keyword finish ts us n m value} :
      keyword.kind = .printKeyword → Derives c .list ⟨ts, n⟩ value ⟨finish :: us, m⟩ →
      finish.kind = .semicolon →
      Derives c (.statement l false) ⟨keyword :: ts, n⟩ (.print value) ⟨us, m⟩
  | returnWithout {l keyword finish ts n} :
      keyword.kind = .returnKeyword → finish.kind = .semicolon →
      Derives c (.statement l false) ⟨keyword :: finish :: ts, n⟩ (.giveBack keyword none) ⟨ts, n⟩
  | returnWith {l keyword finish ts us n m value} :
      keyword.kind = .returnKeyword → Derives c .conditional ⟨ts, n⟩ value ⟨finish :: us, m⟩ →
      finish.kind = .semicolon →
      Derives c (.statement l false) ⟨keyword :: ts, n⟩ (.giveBack keyword (some value)) ⟨us, m⟩
  | whileStatement {l d keyword lp rp ts us n m condition body q} :
      keyword.kind = .whileKeyword → lp.kind = .leftParen →
      Derives c .list ⟨ts, n⟩ condition ⟨rp :: us, m⟩ → rp.kind = .rightParen →
      Derives c (.statement true d) ⟨us, m⟩ body q →
      Derives c (.statement l d) ⟨keyword :: lp :: ts, n⟩ (.loop condition body) q
  | breakStatement {keyword finish ts n} :
      keyword.kind = .breakKeyword → finish.kind = .semicolon →
      Derives c (.statement true false) ⟨keyword :: finish :: ts, n⟩ (.leave keyword) ⟨ts, n⟩
  | block {l opening closing ts us n m body} :
      opening.kind = .leftBrace →
      Derives c (.declarations l) ⟨ts, n⟩ body ⟨closing :: us, m⟩ → closing.kind = .rightBrace →
      Derives c (.statement l false) ⟨opening :: ts, n⟩ (.block body) ⟨us, m⟩
  | functionStatement {l keyword name ts n parameters body q} :
      keyword.kind = .funKeyword → name.kind = .identifier →
      Derives c .function ⟨ts, n⟩ (parameters, body) q →
      Derives c (.statement l false) ⟨keyword :: name :: ts, n⟩
        (.function { name := some name, parameters, body }) q
  | expressionStatement {l finish p us m value} :
      Derives c .list p value ⟨finish :: us, m⟩ → finish.kind = .semicolon →
      Derives c (.statement l false) p (.expression value) ⟨us, m⟩
  | noInitializer {finish ts n} :
      finish.kind = .semicolon → Derives c .initializer ⟨finish :: ts, n⟩ none ⟨ts, n⟩
  | variableInitializer {keyword ts n s q} :
      keyword.kind = .varKeyword → Derives c .variable ⟨ts, n⟩ s q →
      Derives c .initializer ⟨keyword :: ts, n⟩ (some s) q
  | expressionInitializer {finish p us m value} :
      Derives c .list p value ⟨finish :: us, m⟩ → finish.kind = .semicolon →
      Derives c .initializer p (some (.expression value)) ⟨us, m⟩
  | noList {p} : Derives c .optionalList p none p
  | someList {p value q} : Derives c .list p value q → Derives c .optionalList p (some value) q
  | single {p value q} : Derives c .conditional p value q → Derives c .list p value q
  | comma {p operator us m left right q} :
      Derives c .list p left ⟨operator :: us, m⟩ → operator.kind = .comma →
      Derives c .conditional ⟨us, m⟩ right q →
      Derives c .list p (.binary left operator right) q
  | unconditional {p value q} :
      Derives c .assignment p value q → Derives c .conditional p value q
  | ternary {p question colon us vs m k condition whenTrue whenFalse q} :
      Derives c .assignment p condition ⟨question :: us, m⟩ → question.kind = .question →
      Derives c .optionalList ⟨us, m⟩ whenTrue ⟨colon :: vs, k⟩ → colon.kind = .colon →
      Derives c .conditional ⟨vs, k⟩ whenFalse q →
      Derives c .conditional p
        (.ternary condition question (whenTrue.getD (.constant .nil)) whenFalse) q
  | nameAssignment {name equals ts n value q} :
      name.kind = .identifier → equals.kind = .equal →
      Derives c .assignment ⟨ts, n + 1⟩ value q →
      Derives c .assignment ⟨name :: equals :: ts, n⟩ (.assign n name value) q
  | propertyAssignment {p dot name equals ts m object value q} :
      Derives c .call p object ⟨dot :: name :: equals :: ts, m⟩ → dot.kind = .dot →
      name.kind = .identifier → equals.kind = .equal →
      Derives c .assignment ⟨ts, m⟩ value q →
      Derives c .assignment p (.set object name value) q
  | noAssignment {p value q} :
      Derives c (.level levels) p value q → Derives c .assignment p value q
  | tighter {level tighter p value q} :
      Derives c (.level tighter) p value q → Derives c (.level (level :: tighter)) p value q
  | operation {level tighter p operator us m left right q} :
      Derives c (.level (level :: tighter)) p left ⟨operator :: us, m⟩ →
      operator.kind ∈ level.operators → Derives c (.level tighter) ⟨us, m⟩ right q →
      Derives c (.level (level :: tighter)) p (level.node left operator right) q
  | tightest {p value q} : Derives c .unary p value q → Derives c (.level []) p value q
  | unaryOperation {operator ts n operand q} :
      operator.kind ∈ [TokenKind.bang, .minus] → Derives c .unary ⟨ts, n⟩ operand q →
      Derives c .unary ⟨operator :: ts, n⟩ (.unary operator operand) q
  | noOperation {p value q} : Derives c .call p value q → Derives c .unary p value q
  | noCall {p value q} : Derives c .primary p value q → Derives c .call p value q
  | callWithout {p lp rp us m callee} :
      Derives c .call p callee ⟨lp :: rp :: us, m⟩ → lp.kind = .leftParen →
      rp.kind = .rightParen → Derives c .call p (.call callee rp []) ⟨us, m⟩
  | callWith {p lp rp us vs m k callee found} :
      Derives c .call p callee ⟨lp :: us, m⟩ → lp.kind = .leftParen →
      Derives c .arguments ⟨us, m⟩ found ⟨rp :: vs, k⟩ → found.length ≤ maxArguments →
      rp.kind = .rightParen → Derives c .call p (.call callee rp found) ⟨vs, k⟩
  | property {p dot name us m object} :
      Derives c .call p object ⟨dot :: name :: us, m⟩ → dot.kind = .dot →
      name.kind = .identifier → Derives c .call p (.get object name) ⟨us, m⟩
  | lastArgument {p value q} : Derives c .conditional p value q → Derives c .arguments p [value] q
  | moreArguments {p comma us m first rest q} :
      Derives c .conditional p first ⟨comma :: us, m⟩ → comma.kind = .comma →
      Derives c .arguments ⟨us, m⟩ rest q → Derives c .arguments p (first :: rest) q
  | falsity {token ts n} :
      token.kind = .falseKeyword →
      Derives c .primary ⟨token :: ts, n⟩ (.constant (.bool false)) ⟨ts, n⟩
  | truth {token ts n} :
      token.kind = .trueKeyword →
      Derives c .primary ⟨token :: ts, n⟩ (.constant (.bool true)) ⟨ts, n⟩
  | absence {token ts n} :
      token.kind = .nilKeyword → Derives c .primary ⟨token :: ts, n⟩ (.constant .nil) ⟨ts, n⟩
  | literal {token ts n} :
      token.kind ∈ [TokenKind.number, .string] →
      Derives c .primary ⟨token :: ts, n⟩ (.constant (Constant.ofLiteral token.literal)) ⟨ts, n⟩
  | reference {token ts n} :
      token.kind = .identifier →
      Derives c .primary ⟨token :: ts, n⟩ (.variable n token) ⟨ts, n + 1⟩
  | self {token ts n} :
      token.kind = .thisKeyword → Derives c .primary ⟨token :: ts, n⟩ (.self n token) ⟨ts, n + 1⟩
  | function {keyword ts n parameters body q} :
      keyword.kind = .funKeyword → Derives c .function ⟨ts, n⟩ (parameters, body) q →
      Derives c .primary ⟨keyword :: ts, n⟩ (.function { name := none, parameters, body }) q
  | grouping {lp rp ts us n m inner} :
      lp.kind = .leftParen → Derives c .list ⟨ts, n⟩ inner ⟨rp :: us, m⟩ →
      rp.kind = .rightParen →
      Derives c .primary ⟨lp :: ts, n⟩ (.grouping inner) ⟨us, m⟩

end TreeScript
