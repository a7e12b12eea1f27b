import TreeScript.Session
import TreeScript.Proofs.Scoping.Visits
import TreeScript.Proofs.Tracking.Noting

/-!
# Evaluation with a record

* `Situation` — where a node is executed: its spot in the walk of the resolver, the scope
  at hand, the instance that the surrounding method was taken from, and whether a host
  function is behind the call
* `Sight` — a node or a print statement is about to be executed by a machine, or a method
  is about to be taken from an instance
* `Record` — what is recorded while a program runs: where functions and classes were made,
  and the sights
* `trackEvaluate`, `trackExecute`, `trackProgram` — evaluation with a record
* `trackProgram_shadows` — the record has no influence on the program

A function that is made in a method belongs to the instance that the method was taken
from; a method belongs to the instance whose property it is.
-/

namespace TreeScript

/-! ## Records -/

/-- The instance that a method was taken from. -/
structure Receiver where
  address : InstanceRef
  ofClass : ClassObject

/-- The instance as a value. -/
def Receiver.value (receiver : Receiver) : Value :=
  .object receiver.address receiver.ofClass

/-- Where a node is executed. -/
structure Situation where
  spot : Spot
  scope : ScopeRef
  receiver : Option Receiver
  hosted : Bool

/-- The situation of the statements of a program. -/
def Situation.top : Situation :=
  { spot := .top, scope := globalScope, receiver := none, hosted := false }

/-- Where a function or a class was made: the spot of its declaration, and the instance
that it belongs to. -/
structure Birth where
  spot : Spot
  receiver : Option Receiver

instance : Inhabited Birth := ⟨{ spot := .top, receiver := none }⟩

/-- A node or a print statement is about to be executed by a machine, or a method is about
to be taken from an instance. -/
inductive Sight where
  | node (situation : Situation) (node : Node) (machine : Machine)
  | print (situation : Situation) (text : String) (machine : Machine)
  | taken (receiver : Receiver) (method : FunctionDecl) (machine : Machine)

/-- What is recorded while a program runs: the births of functions and classes by the
numbers that these carry, and the sights, the latest first. -/
structure Record where
  births : Array Birth
  sights : List Sight

namespace Record

/-- The record in which nothing is written. -/
def empty : Record :=
  { births := #[], sights := [] }

/-- Adds a sight. -/
def see (record : Record) (sight : Sight) : Record :=
  { record with sights := sight :: record.sights }

/-- Adds the birth of the function or the class that is made next. -/
def bear (record : Record) (birth : Birth) : Record :=
  { record with births := record.births.push birth }

/-- Records that a node is executed. -/
def enter (situation : Situation) (node : Node) : Noting Record Unit :=
  Noting.note fun record machine => record.see (.node situation node machine)

/-- The birth of a function or a class. -/
def birthOf (identity : Nat) : Noting Record Birth :=
  Noting.look fun record => record.births.getD identity default

/-- A step that makes a function or a class. -/
def making {α : Type} (birth : Birth) (step : Run α) : Noting Record α :=
  fun record machine => (step machine, record.bear birth)

/-- Prints a line and records it. -/
def print (situation : Situation) (text : String) : Noting Record Unit := do
  Noting.note fun record machine => record.see (.print situation text machine)
  Noting.lift (Run.print text)

/-- Takes a method from an instance, which it then belongs to. -/
def take (receiver : Receiver) (method : FunctionDecl) : Noting Record Value := do
  Noting.note fun record machine => record.see (.taken receiver method machine)
  let { spot, .. } ← birthOf receiver.ofClass.identity
  making { spot, receiver := some receiver }
    (Run.bindMethod receiver.address receiver.ofClass method)

/-- The property of an instance: a field, or else a method that is taken from it. -/
def property (address : InstanceRef) (ofClass : ClassObject) (name : Token) :
    Noting Record Value := do
  match ← Noting.lift (Run.field? address name.lexeme) with
  | some value => return value
  | none =>
    match ofClass.methods[name.lexeme]? with
    | some method => take { address, ofClass } method
    | none => Noting.lift (Run.fault name (.undefinedProperty name.lexeme))

end Record

/-! ## Evaluation with a record -/

mutual

/-- Evaluates an expression in a situation. -/
def trackEvaluate (setting : Setting) :
    (fuel : Nat) → Situation → Expr → Noting Record Value
  | 0, _, _ => Noting.lift .stuck
  | fuel + 1, situation, expr => do
    Record.enter situation (.expression expr)
    match expr with
    | .constant value => return Value.ofConstant value
    | .grouping inner => trackEvaluate setting fuel situation inner
    | .unary operator operand => do
      let value ← trackEvaluate setting fuel situation operand
      Noting.lift (Run.ofOperator operator (unaryResult operator.kind value))
    | .binary left operator right => do
      let a ← trackEvaluate setting fuel situation left
      let b ← trackEvaluate setting fuel situation right
      Noting.lift (Run.ofOperator operator (binaryResult operator.kind a b))
    | .logical left operator right => do
      let a ← trackEvaluate setting fuel situation left
      if decidedByLeft operator.kind a then return a
      else trackEvaluate setting fuel situation right
    | .ternary condition _ whenTrue whenFalse => do
      let decision ← trackEvaluate setting fuel situation condition
      if decision.isTruthy then trackEvaluate setting fuel situation whenTrue
      else trackEvaluate setting fuel situation whenFalse
    | .variable id name =>
      Noting.lift (Run.readName setting.distances[id]? situation.scope name)
    | .assign id name value => do
      let v ← trackEvaluate setting fuel situation value
      Noting.lift (Run.writeName setting.distances[id]? situation.scope name v)
      return v
    | .call callee paren arguments => do
      let f ← trackEvaluate setting fuel situation callee
      let values ← trackEvaluateAll setting fuel situation arguments
      match f.arity? setting with
      | none => Noting.lift (Run.fault paren .notCallable)
      | some arity =>
        if values.length = arity then trackCall setting fuel situation.hosted paren f values
        else Noting.lift (Run.fault paren (.wrongArgumentCount arity values.length))
    | .get object name => do
      match ← trackEvaluate setting fuel situation object with
      | .object address ofClass => Record.property address ofClass name
      | _ => Noting.lift (Run.fault name .propertyOfNonInstance)
    | .set object name value => do
      match ← trackEvaluate setting fuel situation object with
      | .object address _ => do
        let v ← trackEvaluate setting fuel situation value
        Noting.lift (Run.setField address name.lexeme v)
        return v
      | _ => Noting.lift (Run.fault name .fieldOfNonInstance)
    | .self id keyword =>
      Noting.lift (Run.readName setting.distances[id]? situation.scope keyword)
    | .function declaration =>
      Record.making { spot := situation.spot, receiver := situation.receiver }
        (Run.newClosure situation.scope declaration)

/-- Evaluates expressions from left to right. -/
def trackEvaluateAll (setting : Setting) :
    (fuel : Nat) → Situation → List Expr → Noting Record (List Value)
  | 0, _, _ => Noting.lift .stuck
  | _ + 1, _, [] => return []
  | fuel + 1, situation, first :: rest => do
    let value ← trackEvaluate setting fuel situation first
    let values ← trackEvaluateAll setting fuel situation rest
    return value :: values

/-- Executes a statement in a situation. -/
def trackExecute (setting : Setting) :
    (fuel : Nat) → Situation → Stmt → Noting Record Flow
  | 0, _, _ => Noting.lift .stuck
  | fuel + 1, situation, stmt => do
    Record.enter situation (.statement stmt)
    match stmt with
    | .expression value => do
      return .normal (← trackEvaluate setting fuel situation value)
    | .print value => do
      let v ← trackEvaluate setting fuel situation value
      Record.print situation v.text
      return .normal .nil
    | .varDecl name none => do
      Noting.lift (Run.define situation.scope name.lexeme none)
      return .normal .nil
    | .varDecl name (some value) => do
      let initializer := { situation with spot := situation.spot.declare name.lexeme false }
      let v ← trackEvaluate setting fuel initializer value
      Noting.lift (Run.define situation.scope name.lexeme (some v))
      return .normal .nil
    | .block body => do
      let inner ← Noting.lift (Run.newScope situation.scope)
      trackExecuteAll setting fuel
        { situation with spot := situation.spot.inBlock, scope := inner } body
    | .conditional condition whenTrue whenFalse => do
      let decision ← trackEvaluate setting fuel situation condition
      if decision.isTruthy then trackExecute setting fuel situation whenTrue
      else
        match whenFalse with
        | some branch =>
          trackExecute setting fuel { situation with spot := situation.spot.after whenTrue }
            branch
        | none => return .normal .nil
    | .loop condition body => trackRepeat setting fuel situation condition body
    | .leave _ => return .leave
    | .function declaration => do
      let birth :=
        { spot := situation.spot.after (.function declaration)
          receiver := situation.receiver }
      let f ← Record.making birth (Run.newClosure situation.scope declaration)
      Noting.lift (Run.define situation.scope declaration.displayName (some f))
      return .normal .nil
    | .giveBack _ none => return .giveBack .nil
    | .giveBack _ (some value) => do
      return .giveBack (← trackEvaluate setting fuel situation value)
    | .classDecl name methods => do
      let birth :=
        { spot := (situation.spot.declare name.lexeme true).inClass
          receiver := situation.receiver }
      let c ← Record.making birth (Run.newClass situation.scope name.lexeme methods)
      Noting.lift (Run.define situation.scope name.lexeme (some c))
      return .normal .nil

/-- Repeats a body as long as a condition holds. -/
def trackRepeat (setting : Setting) :
    (fuel : Nat) → Situation → Expr → Stmt → Noting Record Flow
  | 0, _, _, _ => Noting.lift .stuck
  | fuel + 1, situation, condition, body => do
    let decision ← trackEvaluate setting fuel situation condition
    if decision.isTruthy then
      match ← trackExecute setting fuel situation body with
      | .normal _ => trackRepeat setting fuel situation condition body
      | .leave => return .normal .nil
      | .giveBack value => return .giveBack value
    else return .normal .nil

/-- Executes statements in order up to the first that does not fall through. -/
def trackExecuteAll (setting : Setting) :
    (fuel : Nat) → Situation → List Stmt → Noting Record Flow
  | 0, _, _ => Noting.lift .stuck
  | _ + 1, _, [] => return .normal .nil
  | fuel + 1, situation, first :: rest => do
    match ← trackExecute setting fuel situation first with
    | .normal _ =>
      trackExecuteAll setting fuel { situation with spot := situation.spot.after first } rest
    | flow => return flow

/-- Calls a value, for a host function or not. -/
def trackCall (setting : Setting) :
    (fuel : Nat) → (hosted : Bool) → Token → Value → List Value → Noting Record Value
  | 0, _, _, _, _ => Noting.lift .stuck
  | fuel + 1, hosted, paren, callee, arguments =>
    match callee with
    | .function closure => do
      let birth ← Record.birthOf closure.identity
      let scope ← Noting.lift (Run.newScope closure.scope)
      Noting.lift (Run.defineAll scope closure.declaration.parameters arguments)
      let situation : Situation :=
        { spot := birth.spot.inBody closure.declaration.parameters, scope
          receiver := birth.receiver, hosted }
      match ← trackExecuteAll setting fuel situation closure.declaration.body with
      | .giveBack value => return value
      | _ => return .nil
    | .classObject object => Noting.lift (Run.newObject object)
    | .native host =>
      match setting.natives[host.identity]? with
      | some found => trackScript setting fuel paren (found.body arguments)
      | none => return .nil
    | _ => Noting.lift (Run.fault paren .notCallable)

/-- Does what a host function does. -/
def trackScript (setting : Setting) : (fuel : Nat) → Token → Script → Noting Record Value
  | 0, _, _ => Noting.lift .stuck
  | _ + 1, _, .answer value => return value
  | _ + 1, paren, .fail message => Noting.lift (Run.fault paren (.hostFailure message))
  | fuel + 1, paren, .call callee arguments next => do
    match ← Noting.attempt (trackCall setting fuel true paren callee arguments) with
    | .ok value => trackScript setting fuel paren (next (.ok value))
    | .error diagnostic => trackScript setting fuel paren (next (.error diagnostic.message))

end

/-- Executes statements among the globals. -/
def trackStatements (setting : Setting) (fuel : Nat) (situation : Situation) (last : Value) :
    List Stmt → Noting Record Value
  | [] => return last
  | first :: rest => do
    let flow ← trackExecute setting fuel situation first
    trackStatements setting fuel { situation with spot := situation.spot.after first }
      flow.value rest

/-- Runs a program with a record. -/
def trackProgram (setting : Setting) (fuel : Nat) (statements : List Stmt) :
    Noting Record Value := do
  let value ← trackStatements setting fuel .top .nil statements
  Noting.lift Run.flush
  return value

/-! ## Without the record -/

open Noting (Shadows)

namespace Record

theorem enter_shadows {β : Type} {situation : Situation} {node : Node}
    {next : Noting Record β} {rest : Run β} (h : Shadows next rest) :
    Shadows (enter situation node >>= fun _ => next) rest :=
  .noted h

theorem making_shadows {α : Type} (birth : Birth) (step : Run α) :
    Shadows (making birth step) step :=
  fun _ _ => rfl

theorem print_shadows (situation : Situation) (text : String) :
    Shadows (print situation text) (Run.print text) :=
  .noted (.lift _)

theorem property_shadows (address : InstanceRef) (ofClass : ClassObject) (name : Token) :
    Shadows (property address ofClass name) (Run.property address ofClass name) := by
  refine .bind (.lift _) fun found => ?_
  cases found with
  | some value => exact .pure value
  | none =>
    simp only
    cases ofClass.methods[name.lexeme]? with
    | some method => exact .noted (.looked fun _ => making_shadows _ _)
    | none => exact .lift _

end Record

/-- All steps do the same without a record, at one amount of fuel. -/
structure UnrecordedAt (setting : Setting) (fuel : Nat) : Prop where
  evaluate : ∀ situation e, Shadows (trackEvaluate setting fuel situation e)
    (evaluate setting fuel situation.scope e)
  evaluateAll : ∀ situation es, Shadows (trackEvaluateAll setting fuel situation es)
    (evaluateAll setting fuel situation.scope es)
  execute : ∀ situation s, Shadows (trackExecute setting fuel situation s)
    (execute setting fuel situation.scope s)
  repeatWhile : ∀ situation condition body,
    Shadows (trackRepeat setting fuel situation condition body)
      (repeatWhile setting fuel situation.scope condition body)
  executeAll : ∀ situation ss, Shadows (trackExecuteAll setting fuel situation ss)
    (executeAll setting fuel situation.scope ss)
  call : ∀ hosted paren callee arguments,
    Shadows (trackCall setting fuel hosted paren callee arguments)
      (callValue setting fuel paren callee arguments)
  script : ∀ paren script, Shadows (trackScript setting fuel paren script)
    (runScript setting fuel paren script)

namespace UnrecordedAt

variable {setting : Setting} {fuel : Nat}

theorem evaluate_step (ih : UnrecordedAt setting fuel) (situation : Situation) (e : Expr) :
    Shadows (trackEvaluate setting (fuel + 1) situation e)
      (TreeScript.evaluate setting (fuel + 1) situation.scope e) := by
  cases e
  all_goals
    rw [trackEvaluate, TreeScript.evaluate]
    refine Record.enter_shadows ?_
  case constant value => exact .pure _
  case grouping inner => exact ih.evaluate situation inner
  case unary operator operand =>
    exact .bind (ih.evaluate situation operand) fun _ => .lift _
  case binary left operator right =>
    exact .bind (ih.evaluate situation left) fun _ =>
      .bind (ih.evaluate situation right) fun _ => .lift _
  case logical left operator right =>
    refine .bind (ih.evaluate situation left) fun a => ?_
    split
    · exact .pure a
    · exact ih.evaluate situation right
  case ternary condition question whenTrue whenFalse =>
    refine .bind (ih.evaluate situation condition) fun decision => ?_
    split
    · exact ih.evaluate situation whenTrue
    · exact ih.evaluate situation whenFalse
  case «variable» id name => exact .lift _
  case assign id name value =>
    exact .bind (ih.evaluate situation value) fun _ => .bind (.lift _) fun _ => .pure _
  case call callee paren arguments =>
    refine .bind (ih.evaluate situation callee) fun f => ?_
    refine .bind (ih.evaluateAll situation arguments) fun values => ?_
    cases f.arity? setting with
    | none => exact .lift _
    | some arity =>
      simp only
      split
      · exact ih.call _ paren f values
      · exact .lift _
  case get object name =>
    refine .bind (ih.evaluate situation object) fun value => ?_
    cases value with
    | object address ofClass => exact Record.property_shadows address ofClass name
    | _ => exact .lift _
  case set object name value =>
    refine .bind (ih.evaluate situation object) fun target => ?_
    cases target with
    | object address ofClass =>
      exact .bind (ih.evaluate situation value) fun _ => .bind (.lift _) fun _ => .pure _
    | _ => exact .lift _
  case self id keyword => exact .lift _
  case function declaration => exact Record.making_shadows _ _

theorem evaluateAll_step (ih : UnrecordedAt setting fuel) (situation : Situation)
    (es : List Expr) :
    Shadows (trackEvaluateAll setting (fuel + 1) situation es)
      (TreeScript.evaluateAll setting (fuel + 1) situation.scope es) := by
  cases es with
  | nil =>
    rw [trackEvaluateAll, TreeScript.evaluateAll]
    exact .pure _
  | cons first rest =>
    rw [trackEvaluateAll, TreeScript.evaluateAll]
    exact .bind (ih.evaluate situation first) fun _ =>
      .bind (ih.evaluateAll situation rest) fun _ => .pure _

theorem execute_step (ih : UnrecordedAt setting fuel) (situation : Situation) (s : Stmt) :
    Shadows (trackExecute setting (fuel + 1) situation s)
      (TreeScript.execute setting (fuel + 1) situation.scope s) := by
  match s with
  | .expression value | .giveBack _ (some value) =>
    rw [trackExecute, TreeScript.execute]
    refine Record.enter_shadows ?_
    exact .bind (ih.evaluate situation value) fun _ => .pure _
  | .print value =>
    rw [trackExecute, TreeScript.execute]
    refine Record.enter_shadows (.bind (ih.evaluate situation value) fun v => ?_)
    exact .bind (Record.print_shadows situation v.text) fun _ => .pure _
  | .varDecl name none =>
    rw [trackExecute, TreeScript.execute]
    refine Record.enter_shadows ?_
    exact .bind (.lift _) fun _ => .pure _
  | .varDecl name (some value) =>
    rw [trackExecute, TreeScript.execute]
    refine Record.enter_shadows (.bind (ih.evaluate _ value) fun v => ?_)
    exact .bind (.lift _) fun _ => .pure _
  | .block body =>
    rw [trackExecute, TreeScript.execute]
    refine Record.enter_shadows ?_
    exact .bind (.lift _) fun inner => ih.executeAll _ body
  | .conditional condition whenTrue none =>
    rw [trackExecute, TreeScript.execute]
    refine Record.enter_shadows (.bind (ih.evaluate situation condition) fun decision => ?_)
    split
    · exact ih.execute situation whenTrue
    · exact .pure _
  | .conditional condition whenTrue (some whenFalse) =>
    rw [trackExecute, TreeScript.execute]
    refine Record.enter_shadows (.bind (ih.evaluate situation condition) fun decision => ?_)
    split
    · exact ih.execute situation whenTrue
    · exact ih.execute { situation with spot := situation.spot.after whenTrue } whenFalse
  | .loop condition body =>
    rw [trackExecute, TreeScript.execute]
    exact Record.enter_shadows (ih.repeatWhile situation condition body)
  | .leave _ | .giveBack _ none =>
    rw [trackExecute, TreeScript.execute]
    exact Record.enter_shadows (.pure _)
  | .function declaration =>
    rw [trackExecute, TreeScript.execute]
    refine Record.enter_shadows (.bind (Record.making_shadows _ _) fun f => ?_)
    exact .bind (.lift _) fun _ => .pure _
  | .classDecl name methods =>
    rw [trackExecute, TreeScript.execute]
    refine Record.enter_shadows (.bind (Record.making_shadows _ _) fun c => ?_)
    exact .bind (.lift _) fun _ => .pure _

theorem repeatWhile_step (ih : UnrecordedAt setting fuel) (situation : Situation)
    (condition : Expr) (body : Stmt) :
    Shadows (trackRepeat setting (fuel + 1) situation condition body)
      (TreeScript.repeatWhile setting (fuel + 1) situation.scope condition body) := by
  rw [trackRepeat, TreeScript.repeatWhile]
  refine .bind (ih.evaluate situation condition) fun decision => ?_
  split
  · refine .bind (ih.execute situation body) fun flow => ?_
    cases flow with
    | normal value => exact ih.repeatWhile situation condition body
    | giveBack value => exact .pure _
    | leave => exact .pure _
  · exact .pure _

theorem executeAll_step (ih : UnrecordedAt setting fuel) (situation : Situation)
    (ss : List Stmt) :
    Shadows (trackExecuteAll setting (fuel + 1) situation ss)
      (TreeScript.executeAll setting (fuel + 1) situation.scope ss) := by
  cases ss with
  | nil =>
    rw [trackExecuteAll, TreeScript.executeAll]
    exact .pure _
  | cons first rest =>
    rw [trackExecuteAll, TreeScript.executeAll]
    refine .bind (ih.execute situation first) fun flow => ?_
    cases flow with
    | normal value => exact ih.executeAll _ rest
    | giveBack value => exact .pure _
    | leave => exact .pure _

theorem call_step (ih : UnrecordedAt setting fuel) (hosted : Bool) (paren : Token)
    (callee : Value) (arguments : List Value) :
    Shadows (trackCall setting (fuel + 1) hosted paren callee arguments)
      (callValue setting (fuel + 1) paren callee arguments) := by
  cases callee with
  | function closure =>
    rw [trackCall, callValue]
    refine .looked fun birth => .bind (.lift _) fun scope => .bind (.lift _) fun _ => ?_
    refine .bind (ih.executeAll _ _) fun flow => ?_
    cases flow <;> exact .pure _
  | classObject object =>
    rw [trackCall, callValue]
    exact .lift _
  | native host =>
    rw [trackCall, callValue]
    cases setting.natives[host.identity]? with
    | some found => exact ih.script _ _
    | none => exact .pure _
  | nil | bool _ | number _ | string _ | object _ _ =>
    rw [trackCall, callValue] <;> first | exact .lift _ | simp

theorem script_step (ih : UnrecordedAt setting fuel) (paren : Token) (script : Script) :
    Shadows (trackScript setting (fuel + 1) paren script)
      (runScript setting (fuel + 1) paren script) := by
  cases script with
  | answer value =>
    rw [trackScript, runScript]
    exact .pure _
  | fail message =>
    rw [trackScript, runScript]
    exact .lift _
  | call callee arguments next =>
    rw [trackScript, runScript]
    refine .bind (.attempt (ih.call true paren callee arguments)) fun result => ?_
    cases result <;> exact ih.script _ _

end UnrecordedAt

theorem unrecordedAt (setting : Setting) (fuel : Nat) : UnrecordedAt setting fuel := by
  induction fuel with
  | zero =>
    constructor <;> intros
    · rw [trackEvaluate, evaluate]
      exact .lift _
    · rw [trackEvaluateAll, evaluateAll]
      exact .lift _
    · rw [trackExecute, execute]
      exact .lift _
    · rw [trackRepeat, repeatWhile]
      exact .lift _
    · rw [trackExecuteAll, executeAll]
      exact .lift _
    · rw [trackCall, callValue]
      exact .lift _
    · rw [trackScript, runScript]
      exact .lift _
  | succ fuel ih =>
    exact {
      evaluate := ih.evaluate_step
      evaluateAll := ih.evaluateAll_step
      execute := ih.execute_step
      repeatWhile := ih.repeatWhile_step
      executeAll := ih.executeAll_step
      call := ih.call_step
      script := ih.script_step }

theorem trackStatements_shadows (setting : Setting) (fuel : Nat) (ss : List Stmt)
    (situation : Situation) (hs : situation.scope = globalScope) (last : Value) :
    Shadows (trackStatements setting fuel situation last ss)
      (runStatements setting fuel last ss) := by
  induction ss generalizing situation last with
  | nil => exact .pure last
  | cons first rest ih =>
    refine .bind ?_ fun flow =>
      ih { situation with spot := situation.spot.after first } hs flow.value
    rw [← hs]
    exact (unrecordedAt setting fuel).execute situation first

/-- The record has no influence on the program. -/
theorem trackProgram_shadows (setting : Setting) (fuel : Nat) (ss : List Stmt) :
    Shadows (trackProgram setting fuel ss) (runProgram setting fuel ss) :=
  .bind (trackStatements_shadows setting fuel ss .top rfl .nil) fun _ =>
    .bind (.lift _) fun _ => .pure _

end TreeScript
