import TreeScript.Parsing.State

/-!
# The grammar

Recursive descent over the tokens, one step per rule.  The binary operators are
data: a list of levels from the loosest to the tightest.  Every step takes fuel,
which bounds its depth; `Program.ofTokens` gives enough of it.

```text
declaration  → class | "fun" NAME function | var | statement
statement    → for | if | print | return | while | break | block
             | "fun" NAME function | list ";"
list         → conditional ("," conditional)*
conditional  → assignment ("?" list? ":" conditional)?
assignment   → (call ".")? NAME "=" assignment | level
level        → tighter (operator tighter)*
unary        → ("!" | "-") unary | call
call         → primary ("(" arguments? ")" | "." NAME)*
```

A binary operator without a left operand is a fault of its own: the right operand
is read at the level of the operator and dropped, so that parsing goes on behind it.
-/

namespace TreeScript

/-- The greatest number of parameters and of arguments. -/
def maxArguments : Nat := 255

/-! ## Levels of binary operators -/

/-- Operators of one precedence, all of them grouping to the left.  The logical ones
decide from the left operand whether the right one is evaluated. -/
structure Level where
  operators : List TokenKind
  logical : Bool

/-- The node of a binary operator. -/
def Level.node (level : Level) (left : Expr) (operator : Token) (right : Expr) : Expr :=
  if level.logical then .logical left operator right else .binary left operator right

/-- The levels of binary operators, from the loosest to the tightest. -/
def levels : List Level :=
  [{ operators := [.orKeyword], logical := true },
   { operators := [.andKeyword], logical := true },
   { operators := [.bangEqual, .equalEqual], logical := false },
   { operators := [.greater, .greaterEqual, .less, .lessEqual], logical := false },
   { operators := [.minus, .plus], logical := false },
   { operators := [.slash, .star, .percent], logical := false }]

/-- The levels at which the right operand of an operator that is not logical is
read: those tighter than its own. -/
def operandLevels? (kind : TokenKind) : List Level → Option (List Level)
  | [] => none
  | level :: tighter =>
    if !level.logical && level.operators.contains kind then some tighter
    else operandLevels? kind tighter

namespace Parse

/-! ## Parameters -/

/-- Reports a fault at the next token if as many members as allowed came before. -/
def limit (count : Nat) (fault : GrammarFault) : Parse Unit := do
  if maxArguments ≤ count then report (← peek) fault else pure ()

/-- Parameter names up to the first that no comma follows.  `count` of them came
before. -/
def parameters : (fuel : Nat) → (count : Nat) → Parse (List Token)
  | 0, _ => stuck
  | fuel + 1, count => do
    limit count .tooManyParameters
    let name ← expect .parameterName
    match ← accept? [.comma] with
    | some _ => return name :: (← parameters fuel (count + 1))
    | none => return [name]

/-- Reports a token that leaves a loop where there is none. -/
def requireLoop (token : Token) : Parse Unit := do
  if (← loopDepth) = 0 then report token .breakOutsideLoop else pure ()

/-! ## Statements and expressions -/

mutual

/-- A declaration, or nothing after a fault. -/
def declaration : (fuel : Nat) → Parse (Option Stmt)
  | 0 => stuck
  | fuel + 1 => recover (declarationOrFail fuel)

/-- A declaration. -/
def declarationOrFail : (fuel : Nat) → Parse Stmt
  | 0 => stuck
  | fuel + 1 => do
    match ← peekKind with
    | .classKeyword =>
      advance
      classDeclaration fuel
    | .varKeyword =>
      advance
      varDeclaration fuel
    | _ => statement fuel

/-- Declarations up to the end of the tokens or, in a block, up to its closing
brace. -/
def declarations : (fuel : Nat) → (inBlock : Bool) → Parse (List Stmt)
  | 0, _ => stuck
  | fuel + 1, inBlock => do
    let kind ← peekKind
    if kind = .endOfInput ∨ (inBlock ∧ kind = .rightBrace) then return []
    let first ← declaration fuel
    let rest ← declarations fuel inBlock
    return first.toList ++ rest

/-- A class, after its keyword. -/
def classDeclaration : (fuel : Nat) → Parse Stmt
  | 0 => stuck
  | fuel + 1 => do
    let name ← expect .className
    let _ ← expect .classOpen
    let found ← methods fuel
    let _ ← expect .classClose
    return .classDecl name found

/-- Methods up to the closing brace of their class. -/
def methods : (fuel : Nat) → Parse (List FunctionDecl)
  | 0 => stuck
  | fuel + 1 => do
    let kind ← peekKind
    if kind = .endOfInput ∨ kind = .rightBrace then return []
    let first ← namedFunction fuel .method
    return first :: (← methods fuel)

/-- A function with its name. -/
def namedFunction : (fuel : Nat) → FunctionRole → Parse FunctionDecl
  | 0, _ => stuck
  | fuel + 1, role => do
    let name ← expect (.functionName role)
    functionRest fuel (some name) role

/-- The parameters and the body of a function.  No loop outside surrounds the
body. -/
def functionRest : (fuel : Nat) → Option Token → FunctionRole → Parse FunctionDecl
  | 0, _, _ => stuck
  | fuel + 1, name, role => do
    let _ ← expect (.parameterOpen role)
    let names ← unlessNext .rightParen (parameters fuel 0)
    let _ ← expect .parameterClose
    let _ ← expect (.bodyOpen role)
    let body ← atLoopDepth (fun _ => 0) (blockRest fuel)
    return { name, parameters := names.getD [], body }

/-- A variable, after its keyword. -/
def varDeclaration : (fuel : Nat) → Parse Stmt
  | 0 => stuck
  | fuel + 1 => do
    let name ← expect .variableName
    let initializer ← ifNext .equal (conditional fuel)
    let _ ← expect .variableEnd
    return .varDecl name initializer

/-- A statement. -/
def statement : (fuel : Nat) → Parse Stmt
  | 0 => stuck
  | fuel + 1 => do
    let token ← peek
    match token.kind with
    | .forKeyword =>
      advance
      forStatement fuel
    | .ifKeyword =>
      advance
      ifStatement fuel
    | .printKeyword =>
      advance
      let value ← expressionList fuel
      let _ ← expect .printEnd
      return .print value
    | .returnKeyword =>
      advance
      let value ← unlessNext .semicolon (conditional fuel)
      let _ ← expect .returnEnd
      return .giveBack token value
    | .whileKeyword =>
      advance
      whileStatement fuel
    | .breakKeyword =>
      advance
      requireLoop token
      let _ ← expect .breakEnd
      return .leave token
    | .leftBrace =>
      advance
      return .block (← blockRest fuel)
    | .funKeyword =>
      if (← kindAfterNext?) = some .identifier then
        advance
        return .function (← namedFunction fuel .function)
      else expressionStatement fuel
    | _ => expressionStatement fuel

/-- A counting loop, after its keyword. -/
def forStatement : (fuel : Nat) → Parse Stmt
  | 0 => stuck
  | fuel + 1 => do
    let _ ← expect .forOpen
    let initializer ← forInitializer fuel
    let condition ← unlessNext .semicolon (expressionList fuel)
    let _ ← expect .forConditionEnd
    let increment ← unlessNext .rightParen (expressionList fuel)
    let _ ← expect .forClose
    let body ← atLoopDepth (· + 1) (statement fuel)
    return .forLoop initializer condition increment body

/-- The initializer of a counting loop with the semicolon that ends it. -/
def forInitializer : (fuel : Nat) → Parse (Option Stmt)
  | 0 => stuck
  | fuel + 1 => do
    match ← peekKind with
    | .semicolon =>
      advance
      return none
    | .varKeyword =>
      advance
      return some (← varDeclaration fuel)
    | _ => return some (← expressionStatement fuel)

/-- A branch, after its keyword.  An `else` belongs to the nearest open branch. -/
def ifStatement : (fuel : Nat) → Parse Stmt
  | 0 => stuck
  | fuel + 1 => do
    let _ ← expect .ifOpen
    let condition ← expressionList fuel
    let _ ← expect .ifClose
    let whenTrue ← statement fuel
    let whenFalse ← ifNext .elseKeyword (statement fuel)
    return .conditional condition whenTrue whenFalse

/-- A loop, after its keyword. -/
def whileStatement : (fuel : Nat) → Parse Stmt
  | 0 => stuck
  | fuel + 1 => do
    let _ ← expect .whileOpen
    let condition ← expressionList fuel
    let _ ← expect .whileClose
    let body ← atLoopDepth (· + 1) (statement fuel)
    return .loop condition body

/-- The statements of a block, after its opening brace. -/
def blockRest : (fuel : Nat) → Parse (List Stmt)
  | 0 => stuck
  | fuel + 1 => do
    let body ← declarations fuel true
    let _ ← expect .blockClose
    return body

/-- An expression statement. -/
def expressionStatement : (fuel : Nat) → Parse Stmt
  | 0 => stuck
  | fuel + 1 => do
    let value ← expressionList fuel
    let _ ← expect .expressionEnd
    return .expression value

/-- Expressions joined by commas. -/
def expressionList : (fuel : Nat) → Parse Expr
  | 0 => stuck
  | fuel + 1 => do
    expressionListRest fuel (← conditional fuel)

/-- What follows the first expressions of a comma list. -/
def expressionListRest : (fuel : Nat) → Expr → Parse Expr
  | 0, _ => stuck
  | fuel + 1, left => do
    match ← accept? [.comma] with
    | some operator =>
      let right ← conditional fuel
      expressionListRest fuel (.binary left operator right)
    | none => return left

/-- A conditional expression.  A missing middle part is `nil`; the last part may be
conditional again. -/
def conditional : (fuel : Nat) → Parse Expr
  | 0 => stuck
  | fuel + 1 => do
    let condition ← assignment fuel
    match ← accept? [.question] with
    | some question =>
      let whenTrue ← unlessNext .colon (expressionList fuel)
      let _ ← expect .ternaryColon
      let whenFalse ← conditional fuel
      return .ternary condition question (whenTrue.getD (.constant .nil)) whenFalse
    | none => return condition

/-- An assignment.  Only a name or a property can be assigned to; anything else is
reported and stands alone. -/
def assignment : (fuel : Nat) → Parse Expr
  | 0 => stuck
  | fuel + 1 => do
    let target ← binaryLevels fuel levels
    match ← accept? [.equal] with
    | some equals =>
      let value ← assignment fuel
      match target with
      | .variable id name => return .assign id name value
      | .get object name => return .set object name value
      | other =>
        report equals .invalidAssignmentTarget
        return other
    | none => return target

/-- Binary operators of the given levels. -/
def binaryLevels : (fuel : Nat) → List Level → Parse Expr
  | 0, _ => stuck
  | fuel + 1, [] => unary fuel
  | fuel + 1, level :: tighter => do
    binaryRest fuel level tighter (← binaryLevels fuel tighter)

/-- What follows the first operands of one level. -/
def binaryRest : (fuel : Nat) → Level → List Level → Expr → Parse Expr
  | 0, _, _, _ => stuck
  | fuel + 1, level, tighter, left => do
    match ← accept? level.operators with
    | some operator =>
      let right ← binaryLevels fuel tighter
      binaryRest fuel level tighter (level.node left operator right)
    | none => return left

/-- Operators that stand before their operand. -/
def unary : (fuel : Nat) → Parse Expr
  | 0 => stuck
  | fuel + 1 => do
    match ← accept? [.bang, .minus] with
    | some operator => return .unary operator (← unary fuel)
    | none => callRest fuel (← primary fuel)

/-- Calls and properties that follow an expression. -/
def callRest : (fuel : Nat) → Expr → Parse Expr
  | 0, _ => stuck
  | fuel + 1, callee => do
    match ← peekKind with
    | .leftParen =>
      advance
      let found ← unlessNext .rightParen (arguments fuel 0)
      let paren ← expect .argumentClose
      callRest fuel (.call callee paren (found.getD []))
    | .dot =>
      advance
      let name ← expect .propertyName
      callRest fuel (.get callee name)
    | _ => return callee

/-- Arguments up to the first that no comma follows.  `count` of them came before. -/
def arguments : (fuel : Nat) → (count : Nat) → Parse (List Expr)
  | 0, _ => stuck
  | fuel + 1, count => do
    limit count .tooManyArguments
    let first ← conditional fuel
    match ← accept? [.comma] with
    | some _ => return first :: (← arguments fuel (count + 1))
    | none => return [first]

/-- An expression without operators, or the fault that none stands here. -/
def primary : (fuel : Nat) → Parse Expr
  | 0 => stuck
  | fuel + 1 => do
    let token ← peek
    match token.kind with
    | .falseKeyword =>
      advance
      return .constant (.bool false)
    | .trueKeyword =>
      advance
      return .constant (.bool true)
    | .nilKeyword =>
      advance
      return .constant .nil
    | .number | .string =>
      advance
      return .constant (Constant.ofLiteral token.literal)
    | .identifier =>
      advance
      return .variable (← newId) token
    | .thisKeyword =>
      advance
      return .self (← newId) token
    | .funKeyword =>
      advance
      return .function (← functionRest fuel none .inlineFunction)
    | .leftParen =>
      advance
      let inner ← expressionList fuel
      let _ ← expect .groupingClose
      return .grouping inner
    | .breakKeyword =>
      advance
      reject token .breakAsExpression
    | .comma =>
      advance
      report token .missingCommaOperand
      attempt (conditional fuel)
      fail
    | .question =>
      advance
      report token .missingTernaryCondition
      attempt (strayTernary fuel)
      fail
    | kind =>
      match operandLevels? kind levels with
      | some tighter =>
        advance
        report token (.missingOperand token.lexeme)
        attempt (binaryLevels fuel tighter)
        fail
      | none => reject token .missingExpression

/-- What follows a question mark without a condition. -/
def strayTernary : (fuel : Nat) → Parse Expr
  | 0 => stuck
  | fuel + 1 => do
    let _ ← expressionList fuel
    let _ ← expect .strayTernaryColon
    conditional fuel

end

end Parse

/-! ## Programs -/

/-- What the tokens of a source were parsed to: the statements that have no fault,
the first identity that is still free, and the faults. -/
structure Program where
  statements : List Stmt
  nextId : ReferenceId
  diagnostics : List Diagnostic

/-- Parses tokens up to the first end mark, with reference identities from
`firstId` on.  Between two tokens that are consumed no more than 32 steps nest, so
the fuel is never used up. -/
def Program.ofTokens (tokens : List Token) (firstId : ReferenceId) : Program :=
  let fuel := 32 * (tokens.length + 1)
  let start : ParseState :=
    { rest := tokens, nextId := firstId, loopDepth := 0, diagnostics := [] }
  match Parse.declarations fuel false start with
  | .ok statements state =>
    { statements, nextId := state.nextId, diagnostics := state.diagnostics }
  | .failed state =>
    { statements := [], nextId := state.nextId, diagnostics := state.diagnostics }
  | .outOfFuel => { statements := [], nextId := firstId, diagnostics := [] }

end TreeScript
