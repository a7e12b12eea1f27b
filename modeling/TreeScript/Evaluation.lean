import TreeScript.Machine

/-!
# Evaluation

* `Flow` — how a statement ends
* `unaryResult`, `binaryResult` — the operators on values
* `evaluate`, `execute` — expressions and statements in a scope
* `callValue` — calls, without a look at the number of arguments
* `runProgram` — the statements of a program among the globals

Every step takes fuel, which bounds how deep steps nest and how often a loop goes
round.  More fuel changes no answer but `outOfFuel`.
-/

namespace TreeScript

/-- How a statement ends: it falls through with a value, gives a value back to the
caller of the function, or leaves the nearest loop. -/
inductive Flow where
  | normal (value : Value)
  | giveBack (value : Value)
  | leave

/-! ## Operators -/

/-- The result of an operator that stands before its operand. -/
def unaryResult (kind : TokenKind) (operand : Value) : Except RunFault Value :=
  match kind with
  | .minus =>
    match operand with
    | .number a => .ok (.number (-a))
    | _ => .error .operandNotNumber
  | .bang => .ok (.bool (!operand.isTruthy))
  | _ => .error .unknownUnaryOperator

/-- An operator on two numbers. -/
def onNumbers (operation : Float → Float → Value) (left right : Value) :
    Except RunFault Value :=
  match left, right with
  | .number a, .number b => .ok (operation a b)
  | _, _ => .error .operandNotNumber

/-- The sum of two numbers, or two strings one after the other. -/
def sumResult (left right : Value) : Except RunFault Value :=
  match left, right with
  | .number a, .number b => .ok (.number (a + b))
  | .string a, .string b => .ok (.string (a ++ b))
  | _, _ => .error .operandsNotAddable

/-- The result of an operator between its operands.  Division looks for a zero
before it looks at the left operand. -/
def binaryResult (kind : TokenKind) (left right : Value) : Except RunFault Value :=
  match kind with
  | .comma => .ok right
  | .plus => sumResult left right
  | .slash =>
    if right.same (.number 0) then .error .divisionByZero
    else onNumbers (fun a b => .number (a / b)) left right
  | .minus => onNumbers (fun a b => .number (a - b)) left right
  | .star => onNumbers (fun a b => .number (a * b)) left right
  | .percent => onNumbers (fun a b => .number (Binary64.remainder a b)) left right
  | .greater => onNumbers (fun a b => .bool (decide (b < a))) left right
  | .greaterEqual => onNumbers (fun a b => .bool (decide (b ≤ a))) left right
  | .less => onNumbers (fun a b => .bool (decide (a < b))) left right
  | .lessEqual => onNumbers (fun a b => .bool (decide (a ≤ b))) left right
  | .equalEqual => .ok (.bool (left.same right))
  | .bangEqual => .ok (.bool (!left.same right))
  | _ => .error .unknownBinaryOperator

/-- Whether the left operand of a logical operator decides the result. -/
def decidedByLeft (kind : TokenKind) (left : Value) : Bool :=
  if kind = .orKeyword then left.isTruthy else !left.isTruthy

/-- The result of an operator at its token. -/
def Run.ofOperator (operator : Token) : Except RunFault Value → Run Value
  | .ok value => pure value
  | .error cause => Run.fault operator cause

/-- How many arguments a value takes, if it can be called. -/
def Value.arity? (setting : Setting) : Value → Option Nat
  | .function closure => some closure.declaration.parameters.length
  | .native host =>
    match host.arity with
    | .fixed count => some count
    | .dynamic => some setting.dynamicArity
  | .classObject _ => some 0
  | _ => none

/-- Binds parameters to arguments in a scope, as far as both go. -/
def Run.defineAll (scope : ScopeRef) : List Token → List Value → Run Unit
  | parameter :: parameters, argument :: arguments => do
    Run.define scope parameter.lexeme (some argument)
    Run.defineAll scope parameters arguments
  | _, _ => pure ()

/-! ## Expressions, statements and calls -/

mutual

/-- Evaluates an expression in a scope. -/
def evaluate (setting : Setting) : (fuel : Nat) → ScopeRef → Expr → Run Value
  | 0, _, _ => .stuck
  | fuel + 1, scope, expr =>
    match expr with
    | .constant value => pure (Value.ofConstant value)
    | .grouping inner => evaluate setting fuel scope inner
    | .unary operator operand => do
      let value ← evaluate setting fuel scope operand
      Run.ofOperator operator (unaryResult operator.kind value)
    | .binary left operator right => do
      let a ← evaluate setting fuel scope left
      let b ← evaluate setting fuel scope right
      Run.ofOperator operator (binaryResult operator.kind a b)
    | .logical left operator right => do
      let a ← evaluate setting fuel scope left
      if decidedByLeft operator.kind a then return a
      else evaluate setting fuel scope right
    | .ternary condition _ whenTrue whenFalse => do
      let decision ← evaluate setting fuel scope condition
      if decision.isTruthy then evaluate setting fuel scope whenTrue
      else evaluate setting fuel scope whenFalse
    | .variable id name => Run.readName setting.distances[id]? scope name
    | .assign id name value => do
      let v ← evaluate setting fuel scope value
      Run.writeName setting.distances[id]? scope name v
      return v
    | .call callee paren arguments => do
      let f ← evaluate setting fuel scope callee
      let values ← evaluateAll setting fuel scope arguments
      match f.arity? setting with
      | none => Run.fault paren .notCallable
      | some arity =>
        if values.length = arity then callValue setting fuel paren f values
        else Run.fault paren (.wrongArgumentCount arity values.length)
    | .get object name => do
      match ← evaluate setting fuel scope object with
      | .object address ofClass => Run.property address ofClass name
      | _ => Run.fault name .propertyOfNonInstance
    | .set object name value => do
      match ← evaluate setting fuel scope object with
      | .object address _ =>
        let v ← evaluate setting fuel scope value
        Run.setField address name.lexeme v
        return v
      | _ => Run.fault name .fieldOfNonInstance
    | .self id keyword => Run.readName setting.distances[id]? scope keyword
    | .function declaration => Run.newClosure scope declaration

/-- Evaluates expressions from left to right. -/
def evaluateAll (setting : Setting) : (fuel : Nat) → ScopeRef → List Expr → Run (List Value)
  | 0, _, _ => .stuck
  | _ + 1, _, [] => pure []
  | fuel + 1, scope, first :: rest => do
    let value ← evaluate setting fuel scope first
    let values ← evaluateAll setting fuel scope rest
    return value :: values

/-- Executes a statement in a scope. -/
def execute (setting : Setting) : (fuel : Nat) → ScopeRef → Stmt → Run Flow
  | 0, _, _ => .stuck
  | fuel + 1, scope, stmt =>
    match stmt with
    | .expression value => do
      return .normal (← evaluate setting fuel scope value)
    | .print value => do
      let v ← evaluate setting fuel scope value
      Run.print v.text
      return .normal .nil
    | .varDecl name none => do
      Run.define scope name.lexeme none
      return .normal .nil
    | .varDecl name (some value) => do
      let v ← evaluate setting fuel scope value
      Run.define scope name.lexeme (some v)
      return .normal .nil
    | .block body => do
      let inner ← Run.newScope scope
      executeAll setting fuel inner body
    | .conditional condition whenTrue whenFalse => do
      let decision ← evaluate setting fuel scope condition
      if decision.isTruthy then execute setting fuel scope whenTrue
      else
        match whenFalse with
        | some branch => execute setting fuel scope branch
        | none => return .normal .nil
    | .loop condition body => repeatWhile setting fuel scope condition body
    | .leave _ => return .leave
    | .function declaration => do
      let f ← Run.newClosure scope declaration
      Run.define scope declaration.displayName (some f)
      return .normal .nil
    | .giveBack _ none => return .giveBack .nil
    | .giveBack _ (some value) => do
      return .giveBack (← evaluate setting fuel scope value)
    | .classDecl name methods => do
      let c ← Run.newClass scope name.lexeme methods
      Run.define scope name.lexeme (some c)
      return .normal .nil

/-- Repeats a body as long as a condition holds.  Leaving the loop ends it
normally; giving a value back goes on outward. -/
def repeatWhile (setting : Setting) : (fuel : Nat) → ScopeRef → Expr → Stmt → Run Flow
  | 0, _, _, _ => .stuck
  | fuel + 1, scope, condition, body => do
    let decision ← evaluate setting fuel scope condition
    if decision.isTruthy then
      match ← execute setting fuel scope body with
      | .normal _ => repeatWhile setting fuel scope condition body
      | .leave => return .normal .nil
      | .giveBack value => return .giveBack value
    else return .normal .nil

/-- Executes statements in order up to the first that does not fall through. -/
def executeAll (setting : Setting) : (fuel : Nat) → ScopeRef → List Stmt → Run Flow
  | 0, _, _ => .stuck
  | _ + 1, _, [] => pure (.normal .nil)
  | fuel + 1, scope, first :: rest => do
    match ← execute setting fuel scope first with
    | .normal _ => executeAll setting fuel scope rest
    | flow => return flow

/-- Calls a value.  Arguments beyond the parameters are dropped, parameters beyond
the arguments stay undeclared.  A host function fails at the parenthesis that ends
the call. -/
def callValue (setting : Setting) : (fuel : Nat) → Token → Value → List Value → Run Value
  | 0, _, _, _ => .stuck
  | fuel + 1, paren, callee, arguments =>
    match callee with
    | .function closure => do
      let frame ← Run.newScope closure.scope
      Run.defineAll frame closure.declaration.parameters arguments
      match ← executeAll setting fuel frame closure.declaration.body with
      | .giveBack value => return value
      | _ => return .nil
    | .classObject object => Run.newObject object
    | .native host =>
      match setting.natives[host.identity]? with
      | some found => runScript setting fuel paren (found.body arguments)
      | none => pure .nil
    | _ => Run.fault paren .notCallable

/-- Does what a host function does. -/
def runScript (setting : Setting) : (fuel : Nat) → Token → Script → Run Value
  | 0, _, _ => .stuck
  | _ + 1, _, .answer value => pure value
  | _ + 1, paren, .fail message => Run.fault paren (.hostFailure message)
  | fuel + 1, paren, .call callee arguments next => do
    match ← Run.attempt (callValue setting fuel paren callee arguments) with
    | .ok value => runScript setting fuel paren (next (.ok value))
    | .error diagnostic => runScript setting fuel paren (next (.error diagnostic.message))

end

/-! ## Programs -/

/-- The value that a program has after a statement: the one that the statement fell
through with, and otherwise none. -/
def Flow.value : Flow → Value
  | .normal value => value
  | .giveBack _ | .leave => .nil

/-- Executes statements among the globals; the value is that of the last one. -/
def runStatements (setting : Setting) (fuel : Nat) (last : Value) :
    List Stmt → Run Value
  | [] => pure last
  | first :: rest => do
    let flow ← execute setting fuel globalScope first
    runStatements setting fuel flow.value rest

/-- Runs a program among the globals and flushes what it printed. -/
def runProgram (setting : Setting) (fuel : Nat) (statements : List Stmt) : Run Value := do
  let value ← runStatements setting fuel .nil statements
  Run.flush
  return value

end TreeScript
