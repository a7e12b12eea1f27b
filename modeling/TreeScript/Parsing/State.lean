import TreeScript.Tree
import TreeScript.Diagnostic

/-!
# Parsing steps

* `ParseState` — what is left to parse and what was found so far
* `Parse` — a step that succeeds, fails at a diagnostic already reported, or runs
  out of fuel
* the primitive steps: look at a token, accept it, require it, report a fault
* `Parse.recover` — turns a failed declaration into none, at the next boundary
-/

namespace TreeScript

/-- What is left to parse and what was found so far.  The tokens end at the first
end mark. -/
structure ParseState where
  rest : List Token
  nextId : ReferenceId
  loopDepth : Nat
  diagnostics : List Diagnostic

/-- How a parsing step ends. -/
inductive Reply (α : Type) where
  | ok (value : α) (state : ParseState)
  | failed (state : ParseState)
  | outOfFuel

/-- A parsing step.  One that fails has reported why. -/
def Parse (α : Type) := ParseState → Reply α

namespace Parse

/-! ## Sequencing -/

/-- The step that changes nothing. -/
@[always_inline, inline]
protected def pure {α : Type} (value : α) : Parse α :=
  fun state => .ok value state

/-- One step and then another, which a failure leaves out. -/
@[always_inline, inline]
protected def bind {α β : Type} (first : Parse α) (next : α → Parse β) : Parse β :=
  fun state =>
    match first state with
    | .ok value state => next value state
    | .failed state => .failed state
    | .outOfFuel => .outOfFuel

@[always_inline]
instance : Monad Parse where
  pure := Parse.pure
  bind := Parse.bind

/-- The step that has no fuel left. -/
def stuck {α : Type} : Parse α :=
  fun _ => .outOfFuel

/-- The step that fails. -/
def fail {α : Type} : Parse α :=
  fun state => .failed state

/-- Runs a step and forgets how it ended. -/
def attempt {α : Type} (step : Parse α) : Parse Unit :=
  fun state =>
    match step state with
    | .ok _ state => .ok () state
    | .failed state => .ok () state
    | .outOfFuel => .outOfFuel

/-! ## Tokens -/

/-- The next token.  Past the end there is an end mark. -/
def peek : Parse Token :=
  fun state => .ok (state.rest.headD (Token.finish 1)) state

/-- The kind of the next token. -/
def peekKind : Parse TokenKind := do
  return (← peek).kind

/-- The kind of the token after the next one, if there is one. -/
def kindAfterNext? : Parse (Option TokenKind) :=
  fun state => .ok ((state.rest.drop 1).head?.map Token.kind) state

/-- Consumes the next token. -/
def advance : Parse Unit :=
  fun state => .ok () { state with rest := state.rest.drop 1 }

/-- Consumes the next token if it is of one of the given kinds. -/
def accept? (kinds : List TokenKind) : Parse (Option Token) := do
  let token ← peek
  if token.kind ∈ kinds then
    advance
    return some token
  else return none

/-- A fresh reference identity. -/
def newId : Parse ReferenceId :=
  fun state => .ok state.nextId { state with nextId := state.nextId + 1 }

/-! ## Faults -/

/-- Reports a fault at a token; the step goes on. -/
def report (token : Token) (fault : GrammarFault) : Parse Unit :=
  fun state =>
    .ok () { state with
      diagnostics := state.diagnostics ++ [Diagnostic.grammarAt token fault] }

/-- Reports a fault at a token and fails. -/
def reject {α : Type} (token : Token) (fault : GrammarFault) : Parse α := do
  report token fault
  fail

/-- Consumes the token that a slot requires, or fails at the token that stands
there instead. -/
def expect (slot : Slot) : Parse Token := do
  let token ← peek
  if token.kind = slot.kind then
    advance
    return token
  else reject token (.missing slot)

/-! ## Optional parts -/

/-- Runs a step unless a token of the given kind stands next. -/
def unlessNext {α : Type} (kind : TokenKind) (step : Parse α) : Parse (Option α) := do
  if (← peekKind) = kind then return none
  else return some (← step)

/-- Runs a step if a token of the given kind stands next, behind that token. -/
def ifNext {α : Type} (kind : TokenKind) (step : Parse α) : Parse (Option α) := do
  match ← accept? [kind] with
  | some _ => return some (← step)
  | none => return none

/-! ## Loops -/

/-- Runs a step at a loop depth computed from the present one, and restores that
depth however the step ends. -/
def atLoopDepth {α : Type} (depth : Nat → Nat) (step : Parse α) : Parse α :=
  fun state =>
    match step { state with loopDepth := depth state.loopDepth } with
    | .ok value after => .ok value { after with loopDepth := state.loopDepth }
    | .failed after => .failed { after with loopDepth := state.loopDepth }
    | .outOfFuel => .outOfFuel

/-- How many loops of the present function surround the next token. -/
def loopDepth : Parse Nat :=
  fun state => .ok state.loopDepth state

/-! ## Recovery -/

/-- Whether a kind of token starts a statement. -/
def startsStatement (kind : TokenKind) : Bool :=
  match kind with
  | .classKeyword | .funKeyword | .varKeyword | .forKeyword | .ifKeyword
  | .whileKeyword | .printKeyword | .returnKeyword | .breakKeyword => true
  | _ => false

/-- Drops tokens up to the next statement boundary: the end, the token after a
semicolon, or a token that starts a statement.  `last` is the kind of the token
dropped before. -/
def skipToBoundary (last : TokenKind) : List Token → List Token
  | [] => []
  | token :: rest =>
    if token.kind = .endOfInput ∨ last = .semicolon ∨ startsStatement token.kind then
      token :: rest
    else skipToBoundary token.kind rest

/-- Drops the next token, unless it is the end mark, and goes on to the next
statement boundary. -/
def synchronize : List Token → List Token
  | [] => []
  | token :: rest =>
    if token.kind = .endOfInput then token :: rest else skipToBoundary token.kind rest

/-- Runs a step; if it fails, there is no result and parsing goes on at the next
statement boundary. -/
def recover {α : Type} (step : Parse α) : Parse (Option α) :=
  fun state =>
    match step state with
    | .ok value after => .ok (some value) after
    | .failed after => .ok none { after with rest := synchronize after.rest }
    | .outOfFuel => .outOfFuel

end Parse

end TreeScript
