import TreeScript.Token

/-!
# Diagnostics

Everything that can be wrong with a program, as causes.  The wording of each cause
is written once, in its `message`.

* `LexFault`, `GrammarFault`, `ScopeFault` — what a program can be rejected for
* `RunFault`, `OutputFault` — what can stop a running program
* `Diagnostic` — a cause together with where it arose
* `Diagnostic.message`, `Diagnostic.text` — without and with the place
-/

namespace TreeScript

/-! ## Faults of the text -/

/-- What can be wrong with a piece of source text. -/
inductive LexFault where
  | unexpectedCharacter (c : Char)
  | unterminatedComment
  | unterminatedString
  deriving DecidableEq, Repr

/-- The wording of a fault of the text. -/
def LexFault.message : LexFault → String
  | unexpectedCharacter c => "Unexpected character: " ++ c.toString
  | unterminatedComment => "Unterminated block comment."
  | unterminatedString => "Unterminated string."

/-! ## Faults of the grammar -/

/-- What a function is declared as. -/
inductive FunctionRole where
  | function
  | method
  | inlineFunction
  deriving DecidableEq, Repr

/-- The word for a role. -/
def FunctionRole.word : FunctionRole → String
  | function => "function"
  | method => "method"
  | inlineFunction => "inline function"

/-- A place of the grammar where one particular kind of token must stand. -/
inductive Slot where
  | className | classOpen | classClose
  | functionName (role : FunctionRole) | parameterOpen (role : FunctionRole)
  | parameterName | parameterClose | bodyOpen (role : FunctionRole)
  | variableName | variableEnd
  | forOpen | forConditionEnd | forClose
  | ifOpen | ifClose
  | whileOpen | whileClose
  | printEnd | returnEnd | breakEnd | expressionEnd
  | blockClose
  | ternaryColon | strayTernaryColon
  | propertyName | argumentClose | groupingClose
  deriving DecidableEq, Repr

namespace Slot

/-- The kind of token that a slot requires. -/
def kind : Slot → TokenKind
  | className | functionName _ | parameterName | variableName | propertyName => .identifier
  | parameterOpen _ | forOpen | ifOpen | whileOpen => .leftParen
  | parameterClose | forClose | ifClose | whileClose | argumentClose | groupingClose =>
    .rightParen
  | classOpen | bodyOpen _ => .leftBrace
  | classClose | blockClose => .rightBrace
  | variableEnd | forConditionEnd | printEnd | returnEnd | breakEnd | expressionEnd =>
    .semicolon
  | ternaryColon | strayTernaryColon => .colon

/-- The wording when the token of a slot is missing. -/
def message : Slot → String
  | className => "Expect class name."
  | classOpen => "Expect '\x7b' before class body."
  | classClose => "Expect '\x7d' after class body."
  | functionName role => "Expect " ++ role.word ++ " name."
  | parameterOpen role => "Expect '(' after " ++ role.word ++ " name."
  | parameterName => "Expect parameter name."
  | parameterClose => "Expect ')' after parameters."
  | bodyOpen role => "Expect '\x7b' before " ++ role.word ++ " body."
  | variableName => "Expect variable name."
  | variableEnd => "Expect ';' after variable declaration."
  | forOpen => "Expect '(' after 'for'."
  | forConditionEnd => "Expect ';' after loop condition."
  | forClose => "Expect ')' after for clauses."
  | ifOpen => "Expect '(' after 'if'."
  | ifClose => "Expect ')' after if condition."
  | whileOpen => "Expect '(' after 'while'."
  | whileClose => "Expect ')' after condition."
  | printEnd => "Expect ';' after value."
  | returnEnd => "Expect ';' after return value."
  | breakEnd => "Expect ';' after 'break'."
  | expressionEnd => "Expect ';' after expression."
  | blockClose => "Expect '\x7d' after block."
  | ternaryColon => "Expect ':' after expression: incomplete ternary operator."
  | strayTernaryColon => "Expect ':' after '?' (ternary operator)."
  | propertyName => "Expect property name after '.'."
  | argumentClose => "Expect ')' after arguments."
  | groupingClose => "Expect ')' after expression."

end Slot

/-- What can be wrong with a sequence of tokens. -/
inductive GrammarFault where
  | missing (slot : Slot)
  | missingExpression
  | missingOperand (operator : String)
  | missingCommaOperand
  | missingTernaryCondition
  | breakAsExpression
  | breakOutsideLoop
  | invalidAssignmentTarget
  | tooManyParameters
  | tooManyArguments
  deriving DecidableEq, Repr

/-- The wording of a fault of the grammar. -/
def GrammarFault.message : GrammarFault → String
  | missing slot => slot.message
  | missingExpression => "Expect expression."
  | missingOperand operator => "Expect value before '" ++ operator ++ "'."
  | missingCommaOperand => "Expect expression before ',' operator."
  | missingTernaryCondition => "Expect expression before ternary operator."
  | breakAsExpression => "Can't use 'break' as an expression."
  | breakOutsideLoop => "Invalid 'break' not in loop."
  | invalidAssignmentTarget => "Invalid assignment target."
  | tooManyParameters => "Can't have more than 255 parameters."
  | tooManyArguments => "Can't have more than 255 arguments."

/-! ## Faults of scoping -/

/-- What can be wrong with the scoping of a well-formed program. -/
inductive ScopeFault where
  | ownInitializer
  | returnOutsideFunction
  | thisOutsideClass
  deriving DecidableEq, Repr

/-- The wording of a fault of scoping. -/
def ScopeFault.message : ScopeFault → String
  | ownInitializer => "Can't read local variable in its own initializer."
  | returnOutsideFunction => "Can't return from top-level code."
  | thisOutsideClass => "Can't use 'this' outside of a class."

/-! ## Faults of a running program -/

/-- What can go wrong while a program runs.  A host function may fail with any
text. -/
inductive RunFault where
  | undefinedVariable (name : String)
  | uninitializedVariable (name : String)
  | operandNotNumber
  | operandsNotAddable
  | unknownUnaryOperator
  | unknownBinaryOperator
  | divisionByZero
  | notCallable
  | wrongArgumentCount (expected actual : Nat)
  | propertyOfNonInstance
  | fieldOfNonInstance
  | undefinedProperty (name : String)
  | hostFailure (message : String)
  deriving DecidableEq, Repr

/-- The wording of a fault of a running program. -/
def RunFault.message : RunFault → String
  | undefinedVariable name => "Undefined variable '" ++ name ++ "'."
  | uninitializedVariable name => "Declared variable not initialized: '" ++ name ++ "'."
  | operandNotNumber => "Operand must be a number."
  | operandsNotAddable => "Operands must be two numbers or two strings."
  | unknownUnaryOperator => "Invalid unary operator."
  | unknownBinaryOperator => "Invalid binary operator."
  | divisionByZero => "Cannot divide by zero."
  | notCallable => "Can only call functions and classes."
  | wrongArgumentCount expected actual =>
    "Expected " ++ toString expected ++ " arguments but got " ++ toString actual ++ "."
  | propertyOfNonInstance => "Only instances have properties."
  | fieldOfNonInstance => "Only instances have fields."
  | undefinedProperty name => "Undefined property '" ++ name ++ "'."
  | hostFailure message => message

/-- What can go wrong with the target of printed text. -/
inductive OutputFault where
  | closed
  | flushFailed
  deriving DecidableEq, Repr

/-- The wording of a fault of the print target. -/
def OutputFault.message : OutputFault → String
  | closed => "closed"
  | flushFailed => "flush failed"

/-! ## Diagnostics -/

/-- Where in the token sequence a fault of grammar or scoping lies. -/
inductive Site where
  | lexeme (text : String)
  | finish
  deriving DecidableEq, Repr

namespace Site

/-- The site of a token. -/
def of (token : Token) : Site :=
  if token.kind = .endOfInput then finish else lexeme token.lexeme

/-- How a site is written after the word "Error". -/
def text : Site → String
  | lexeme text => " at '" ++ text ++ "'"
  | finish => " at end"

end Site

/-- A fault together with where it arose. -/
inductive Diagnostic where
  | lex (fault : LexFault) (line : Nat)
  | grammar (fault : GrammarFault) (site : Site) (line : Nat)
  | scope (fault : ScopeFault) (site : Site) (line : Nat)
  | run (fault : RunFault) (line : Nat)
  | output (fault : OutputFault)
  deriving DecidableEq, Repr

namespace Diagnostic

/-- A fault of grammar at a token. -/
def grammarAt (token : Token) (fault : GrammarFault) : Diagnostic :=
  .grammar fault (Site.of token) token.line

/-- A fault of scoping at a token. -/
def scopeAt (token : Token) (fault : ScopeFault) : Diagnostic :=
  .scope fault (Site.of token) token.line

/-- The wording without the place. -/
def message : Diagnostic → String
  | lex fault _ => fault.message
  | grammar fault _ _ => fault.message
  | scope fault _ _ => fault.message
  | run fault _ => fault.message
  | output fault => fault.message

/-- The wording with the place. -/
def text : Diagnostic → String
  | lex fault line => "[line " ++ toString line ++ "] Error: " ++ fault.message
  | grammar fault site line =>
    "[line " ++ toString line ++ "] Error" ++ site.text ++ ": " ++ fault.message
  | scope fault site line =>
    "[line " ++ toString line ++ "] Error" ++ site.text ++ ": " ++ fault.message
  | run fault line => fault.message ++ "\n[line " ++ toString line ++ "]"
  | output fault => fault.message

/-- Whether a diagnostic rejects a program before it runs. -/
def isStatic : Diagnostic → Bool
  | lex _ _ | grammar _ _ _ | scope _ _ _ => true
  | run _ _ | output _ => false

/-- Whether a diagnostic is a fault of the running program itself. -/
def isRuntime : Diagnostic → Bool
  | run _ _ => true
  | lex _ _ | grammar _ _ _ | scope _ _ _ | output _ => false

end Diagnostic

end TreeScript
