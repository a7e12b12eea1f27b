import TreeScript.Session
import TreeScript.Proofs.Scoping.Visits

/-!
# Watching a running program

* `Frame` — where a node is executed: its spot in the walk of the resolver, the scope
  at hand, and the local variables whose initializers are being evaluated
* `Moment` — the execution of a node in a frame
* `Journal` — what is written down while a program runs
* `watchEvaluate`, `watchExecute`, `watchProgram` — evaluation with a journal
* `watchProgram_erases` — the journal has no influence on the program

Functions and classes carry a number of their own, under which the journal keeps the
spot of their declaration.
-/

namespace TreeScript

/-! ## Journals -/

/-- A local variable whose initializer is being evaluated.  It is `known` if the static
scope held its name before. -/
structure Pending where
  scope : ScopeRef
  name : String
  known : Bool

/-- Where a node is executed. -/
structure Frame where
  spot : Spot
  scope : ScopeRef
  pending : List Pending

/-- The frame of the statements of a program. -/
def Frame.top : Frame :=
  { spot := .top, scope := globalScope, pending := [] }

/-- The frame of the initializer of a variable.  Globals are not resolved. -/
def Frame.initializing (frame : Frame) (name : String) : Frame :=
  { frame with
    spot := frame.spot.declare name false
    pending :=
      match frame.spot.scopes with
      | [] => frame.pending
      | innermost :: _ =>
        { scope := frame.scope, name, known := innermost.contains name } :: frame.pending }

/-- The execution of a node, with the scopes as they are then. -/
structure Moment where
  frame : Frame
  node : Node
  scopes : Scopes

/-- The visit of the resolver that belongs to a moment. -/
def Moment.visit (moment : Moment) : Visit :=
  { spot := moment.frame.spot, node := moment.node }

/-- A call by a host function. -/
structure HostCall where
  callee : Value
  arguments : List Value

/-- What is written down while a program runs: the spots of declarations by the
numbers of what they made, the moments, and the calls by host functions. -/
structure Journal where
  origins : Array Spot
  moments : List Moment
  hostCalls : List HostCall

namespace Journal

/-- The journal in which nothing is written. -/
def empty : Journal :=
  { origins := #[], moments := [], hostCalls := [] }

end Journal

/-- A step of a running program that writes a journal. -/
def Watched (α : Type) := Journal → Machine → Outcome α × Journal

namespace Watched

variable {α β : Type}

/-- The step that changes nothing. -/
protected def pure (value : α) : Watched α :=
  fun journal machine => (.done value machine, journal)

/-- One step and then another, which a failure leaves out. -/
protected def bind (first : Watched α) (next : α → Watched β) : Watched β :=
  fun journal machine =>
    match first journal machine with
    | (.done value machine, journal) => next value journal machine
    | (.failed failure machine, journal) => (.failed failure machine, journal)
    | (.outOfFuel, journal) => (.outOfFuel, journal)

instance : Monad Watched where
  pure := Watched.pure
  bind := Watched.bind

/-- A step that writes nothing. -/
def lift (step : Run α) : Watched α :=
  fun journal machine => (step machine, journal)

/-- Writes down that a node is executed. -/
def enter (frame : Frame) (node : Node) : Watched Unit :=
  fun journal machine =>
    (.done () machine,
      { journal with
        moments := { frame, node, scopes := machine.scopes } :: journal.moments })

/-- Writes down a call by a host function. -/
def noteHostCall (callee : Value) (arguments : List Value) : Watched Unit :=
  fun journal machine =>
    (.done () machine,
      { journal with hostCalls := { callee, arguments } :: journal.hostCalls })

/-- The spot of the declaration that made a function or a class. -/
def origin (identity : Nat) : Watched Spot :=
  fun journal machine => (.done (journal.origins.getD identity .top) machine, journal)

/-- A step that makes a function or a class, from a declaration at a spot. -/
def making (spot : Spot) (step : Run α) : Watched α :=
  fun journal machine =>
    (step machine, { journal with origins := journal.origins.push spot })

/-- Runs a step and makes a diagnostic that stops it part of its result. -/
def attempt (step : Watched α) : Watched (Except Diagnostic α) :=
  fun journal machine =>
    match step journal machine with
    | (.done value machine, journal) => (.done (.ok value) machine, journal)
    | (.failed (.diagnosed diagnostic) machine, journal) =>
      (.done (.error diagnostic) machine, journal)
    | (.failed (.broken cause) machine, journal) => (.failed (.broken cause) machine, journal)
    | (.outOfFuel, journal) => (.outOfFuel, journal)

/-- The property of an instance: a field, or else a method bound to the instance. -/
def property (address : InstanceRef) (ofClass : ClassObject) (name : Token) :
    Watched Value := do
  match ← lift (Run.field? address name.lexeme) with
  | some value => return value
  | none =>
    match ofClass.methods[name.lexeme]? with
    | some declaration => do
      let spot ← origin ofClass.identity
      making spot (Run.bindMethod address ofClass declaration)
    | none => lift (Run.fault name (.undefinedProperty name.lexeme))

end Watched

/-! ## Evaluation with a journal -/

mutual

/-- Evaluates an expression in a frame. -/
def watchEvaluate (setting : Setting) : (fuel : Nat) → Frame → Expr → Watched Value
  | 0, _, _ => Watched.lift .stuck
  | fuel + 1, frame, expr => do
    Watched.enter frame (.expression expr)
    match expr with
    | .constant value => return Value.ofConstant value
    | .grouping inner => watchEvaluate setting fuel frame inner
    | .unary operator operand => do
      let value ← watchEvaluate setting fuel frame operand
      Watched.lift (Run.ofOperator operator (unaryResult operator.kind value))
    | .binary left operator right => do
      let a ← watchEvaluate setting fuel frame left
      let b ← watchEvaluate setting fuel frame right
      Watched.lift (Run.ofOperator operator (binaryResult operator.kind a b))
    | .logical left operator right => do
      let a ← watchEvaluate setting fuel frame left
      if decidedByLeft operator.kind a then return a
      else watchEvaluate setting fuel frame right
    | .ternary condition _ whenTrue whenFalse => do
      let decision ← watchEvaluate setting fuel frame condition
      if decision.isTruthy then watchEvaluate setting fuel frame whenTrue
      else watchEvaluate setting fuel frame whenFalse
    | .variable id name =>
      Watched.lift (Run.readName setting.distances[id]? frame.scope name)
    | .assign id name value => do
      let v ← watchEvaluate setting fuel frame value
      Watched.lift (Run.writeName setting.distances[id]? frame.scope name v)
      return v
    | .call callee paren arguments => do
      let f ← watchEvaluate setting fuel frame callee
      let values ← watchEvaluateAll setting fuel frame arguments
      match f.arity? setting with
      | none => Watched.lift (Run.fault paren .notCallable)
      | some arity =>
        if values.length = arity then watchCall setting fuel frame.pending paren f values
        else Watched.lift (Run.fault paren (.wrongArgumentCount arity values.length))
    | .get object name => do
      match ← watchEvaluate setting fuel frame object with
      | .object address ofClass => Watched.property address ofClass name
      | _ => Watched.lift (Run.fault name .propertyOfNonInstance)
    | .set object name value => do
      match ← watchEvaluate setting fuel frame object with
      | .object address _ => do
        let v ← watchEvaluate setting fuel frame value
        Watched.lift (Run.setField address name.lexeme v)
        return v
      | _ => Watched.lift (Run.fault name .fieldOfNonInstance)
    | .self id keyword =>
      Watched.lift (Run.readName setting.distances[id]? frame.scope keyword)
    | .function declaration =>
      Watched.making frame.spot (Run.newClosure frame.scope declaration)

/-- Evaluates expressions from left to right. -/
def watchEvaluateAll (setting : Setting) :
    (fuel : Nat) → Frame → List Expr → Watched (List Value)
  | 0, _, _ => Watched.lift .stuck
  | _ + 1, _, [] => return []
  | fuel + 1, frame, first :: rest => do
    let value ← watchEvaluate setting fuel frame first
    let values ← watchEvaluateAll setting fuel frame rest
    return value :: values

/-- Executes a statement in a frame. -/
def watchExecute (setting : Setting) : (fuel : Nat) → Frame → Stmt → Watched Flow
  | 0, _, _ => Watched.lift .stuck
  | fuel + 1, frame, stmt => do
    Watched.enter frame (.statement stmt)
    match stmt with
    | .expression value => do
      return .normal (← watchEvaluate setting fuel frame value)
    | .print value => do
      let v ← watchEvaluate setting fuel frame value
      Watched.lift (Run.print v.text)
      return .normal .nil
    | .varDecl name none => do
      Watched.lift (Run.define frame.scope name.lexeme none)
      return .normal .nil
    | .varDecl name (some value) => do
      let v ← watchEvaluate setting fuel (frame.initializing name.lexeme) value
      Watched.lift (Run.define frame.scope name.lexeme (some v))
      return .normal .nil
    | .block body => do
      let inner ← Watched.lift (Run.newScope frame.scope)
      watchExecuteAll setting fuel { frame with spot := frame.spot.inBlock, scope := inner }
        body
    | .conditional condition whenTrue whenFalse => do
      let decision ← watchEvaluate setting fuel frame condition
      if decision.isTruthy then watchExecute setting fuel frame whenTrue
      else
        match whenFalse with
        | some branch =>
          watchExecute setting fuel { frame with spot := frame.spot.after whenTrue } branch
        | none => return .normal .nil
    | .loop condition body => watchRepeat setting fuel frame condition body
    | .leave _ => return .leave
    | .function declaration => do
      let f ← Watched.making (frame.spot.after (.function declaration))
        (Run.newClosure frame.scope declaration)
      Watched.lift (Run.define frame.scope declaration.displayName (some f))
      return .normal .nil
    | .giveBack _ none => return .giveBack .nil
    | .giveBack _ (some value) => do
      return .giveBack (← watchEvaluate setting fuel frame value)
    | .classDecl name methods => do
      let c ← Watched.making (frame.spot.declare name.lexeme true).inClass
        (Run.newClass frame.scope name.lexeme methods)
      Watched.lift (Run.define frame.scope name.lexeme (some c))
      return .normal .nil

/-- Repeats a body as long as a condition holds. -/
def watchRepeat (setting : Setting) : (fuel : Nat) → Frame → Expr → Stmt → Watched Flow
  | 0, _, _, _ => Watched.lift .stuck
  | fuel + 1, frame, condition, body => do
    let decision ← watchEvaluate setting fuel frame condition
    if decision.isTruthy then
      match ← watchExecute setting fuel frame body with
      | .normal _ => watchRepeat setting fuel frame condition body
      | .leave => return .normal .nil
      | .giveBack value => return .giveBack value
    else return .normal .nil

/-- Executes statements in order up to the first that does not fall through. -/
def watchExecuteAll (setting : Setting) : (fuel : Nat) → Frame → List Stmt → Watched Flow
  | 0, _, _ => Watched.lift .stuck
  | _ + 1, _, [] => return .normal .nil
  | fuel + 1, frame, first :: rest => do
    match ← watchExecute setting fuel frame first with
    | .normal _ =>
      watchExecuteAll setting fuel { frame with spot := frame.spot.after first } rest
    | flow => return flow

/-- Calls a value, while the given initializers are being evaluated. -/
def watchCall (setting : Setting) :
    (fuel : Nat) → List Pending → Token → Value → List Value → Watched Value
  | 0, _, _, _, _ => Watched.lift .stuck
  | fuel + 1, pending, paren, callee, arguments =>
    match callee with
    | .function closure => do
      let spot ← Watched.origin closure.identity
      let scope ← Watched.lift (Run.newScope closure.scope)
      Watched.lift (Run.defineAll scope closure.declaration.parameters arguments)
      let frame : Frame :=
        { spot := spot.inBody closure.declaration.parameters, scope, pending }
      match ← watchExecuteAll setting fuel frame closure.declaration.body with
      | .giveBack value => return value
      | _ => return .nil
    | .classObject object => Watched.lift (Run.newObject object)
    | .native host =>
      match setting.natives[host.identity]? with
      | some found => watchScript setting fuel pending paren (found.body arguments)
      | none => return .nil
    | _ => Watched.lift (Run.fault paren .notCallable)

/-- Does what a host function does. -/
def watchScript (setting : Setting) :
    (fuel : Nat) → List Pending → Token → Script → Watched Value
  | 0, _, _, _ => Watched.lift .stuck
  | _ + 1, _, _, .answer value => return value
  | _ + 1, _, paren, .fail message => Watched.lift (Run.fault paren (.hostFailure message))
  | fuel + 1, pending, paren, .call callee arguments next => do
    Watched.noteHostCall callee arguments
    match ← Watched.attempt (watchCall setting fuel pending paren callee arguments) with
    | .ok value => watchScript setting fuel pending paren (next (.ok value))
    | .error diagnostic =>
      watchScript setting fuel pending paren (next (.error diagnostic.message))

end

/-- Executes statements among the globals. -/
def watchStatements (setting : Setting) (fuel : Nat) (frame : Frame) (last : Value) :
    List Stmt → Watched Value
  | [] => return last
  | first :: rest => do
    let flow ← watchExecute setting fuel frame first
    watchStatements setting fuel { frame with spot := frame.spot.after first } flow.value rest

/-- Runs a program with a journal. -/
def watchProgram (setting : Setting) (fuel : Nat) (statements : List Stmt) :
    Watched Value := do
  let value ← watchStatements setting fuel .top .nil statements
  Watched.lift Run.flush
  return value

/-! ## Without the journal -/

/-- A step that does the same as another one, apart from the journal. -/
def Erases {α : Type} (watched : Watched α) (step : Run α) : Prop :=
  ∀ journal machine, (watched journal machine).1 = step machine

namespace Erases

variable {α β : Type}

theorem pure (a : α) : Erases (Pure.pure a) (Pure.pure a) :=
  fun _ _ => rfl

theorem lift (step : Run α) : Erases (Watched.lift step) step :=
  fun _ _ => rfl

theorem making (spot : Spot) (step : Run α) : Erases (Watched.making spot step) step :=
  fun _ _ => rfl

theorem bind {first : Watched α} {step : Run α} {next : α → Watched β} {rest : α → Run β}
    (h : Erases first step) (hn : ∀ a, Erases (next a) (rest a)) :
    Erases (first >>= next) (step >>= rest) := by
  intro journal machine
  show (Watched.bind first next journal machine).1 = Run.bind step rest machine
  have hs := h journal machine
  unfold Watched.bind Run.bind
  rw [← hs]
  rcases first journal machine with ⟨_ | _ | _, journal⟩
  · exact hn _ _ _
  · rfl
  · rfl

theorem enter {frame : Frame} {node : Node} {next : Watched β} {rest : Run β}
    (h : Erases next rest) : Erases (Watched.enter frame node >>= fun _ => next) rest :=
  fun _ machine => h _ machine

theorem origin {identity : Nat} {next : Spot → Watched β} {rest : Run β}
    (h : ∀ spot, Erases (next spot) rest) :
    Erases (Watched.origin identity >>= next) rest :=
  fun _ machine => h _ _ machine

theorem attempt {watched : Watched α} {step : Run α} (h : Erases watched step) :
    Erases (Watched.attempt watched) (Run.attempt step) := by
  intro journal machine
  have hs := h journal machine
  unfold Watched.attempt Run.attempt
  rw [← hs]
  rcases watched journal machine with ⟨_ | ⟨_ | _, _⟩ | _, journal⟩ <;> rfl

theorem property (address : InstanceRef) (ofClass : ClassObject) (name : Token) :
    Erases (Watched.property address ofClass name) (Run.property address ofClass name) := by
  refine .bind (.lift _) fun found => ?_
  cases found with
  | some value => exact .pure value
  | none =>
    simp only
    cases ofClass.methods[name.lexeme]? with
    | some declaration => exact .origin fun spot => .making spot _
    | none => exact .lift _

end Erases

/-- All steps do the same without a journal, at one amount of fuel. -/
structure ErasesAt (setting : Setting) (fuel : Nat) : Prop where
  evaluate : ∀ frame e,
    Erases (watchEvaluate setting fuel frame e) (evaluate setting fuel frame.scope e)
  evaluateAll : ∀ frame es,
    Erases (watchEvaluateAll setting fuel frame es) (evaluateAll setting fuel frame.scope es)
  execute : ∀ frame s,
    Erases (watchExecute setting fuel frame s) (execute setting fuel frame.scope s)
  repeatWhile : ∀ frame condition body,
    Erases (watchRepeat setting fuel frame condition body)
      (repeatWhile setting fuel frame.scope condition body)
  executeAll : ∀ frame ss,
    Erases (watchExecuteAll setting fuel frame ss) (executeAll setting fuel frame.scope ss)
  call : ∀ pending paren callee arguments,
    Erases (watchCall setting fuel pending paren callee arguments)
      (callValue setting fuel paren callee arguments)
  script : ∀ pending paren script,
    Erases (watchScript setting fuel pending paren script)
      (runScript setting fuel paren script)

namespace ErasesAt

variable {setting : Setting} {fuel : Nat}

theorem evaluate_step (ih : ErasesAt setting fuel) (frame : Frame) (e : Expr) :
    Erases (watchEvaluate setting (fuel + 1) frame e)
      (TreeScript.evaluate setting (fuel + 1) frame.scope e) := by
  cases e
  all_goals
    rw [watchEvaluate, TreeScript.evaluate]
    refine .enter ?_
  case constant value => exact .pure _
  case grouping inner => exact ih.evaluate frame inner
  case unary operator operand =>
    exact .bind (ih.evaluate frame operand) fun _ => .lift _
  case binary left operator right =>
    exact .bind (ih.evaluate frame left) fun _ =>
      .bind (ih.evaluate frame right) fun _ => .lift _
  case logical left operator right =>
    refine .bind (ih.evaluate frame left) fun a => ?_
    split
    · exact .pure a
    · exact ih.evaluate frame right
  case ternary condition question whenTrue whenFalse =>
    refine .bind (ih.evaluate frame condition) fun decision => ?_
    split
    · exact ih.evaluate frame whenTrue
    · exact ih.evaluate frame whenFalse
  case «variable» id name => exact .lift _
  case assign id name value =>
    exact .bind (ih.evaluate frame value) fun _ => .bind (.lift _) fun _ => .pure _
  case call callee paren arguments =>
    refine .bind (ih.evaluate frame callee) fun f => ?_
    refine .bind (ih.evaluateAll frame arguments) fun values => ?_
    cases f.arity? setting with
    | none => exact .lift _
    | some arity =>
      simp only
      split
      · exact ih.call _ paren f values
      · exact .lift _
  case get object name =>
    refine .bind (ih.evaluate frame object) fun value => ?_
    cases value with
    | object address ofClass => exact .property address ofClass name
    | _ => exact .lift _
  case set object name value =>
    refine .bind (ih.evaluate frame object) fun target => ?_
    cases target with
    | object address ofClass =>
      exact .bind (ih.evaluate frame value) fun _ => .bind (.lift _) fun _ => .pure _
    | _ => exact .lift _
  case self id keyword => exact .lift _
  case function declaration => exact .making _ _

theorem evaluateAll_step (ih : ErasesAt setting fuel) (frame : Frame) (es : List Expr) :
    Erases (watchEvaluateAll setting (fuel + 1) frame es)
      (TreeScript.evaluateAll setting (fuel + 1) frame.scope es) := by
  cases es with
  | nil =>
    rw [watchEvaluateAll, TreeScript.evaluateAll]
    exact .pure _
  | cons first rest =>
    rw [watchEvaluateAll, TreeScript.evaluateAll]
    exact .bind (ih.evaluate frame first) fun _ =>
      .bind (ih.evaluateAll frame rest) fun _ => .pure _

theorem execute_step (ih : ErasesAt setting fuel) (frame : Frame) (s : Stmt) :
    Erases (watchExecute setting (fuel + 1) frame s)
      (TreeScript.execute setting (fuel + 1) frame.scope s) := by
  match s with
  | .expression value =>
    rw [watchExecute, TreeScript.execute]
    refine .enter ?_
    exact .bind (ih.evaluate frame value) fun _ => .pure _
  | .print value =>
    rw [watchExecute, TreeScript.execute]
    refine .enter ?_
    exact .bind (ih.evaluate frame value) fun _ => .bind (.lift _) fun _ => .pure _
  | .varDecl name none =>
    rw [watchExecute, TreeScript.execute]
    refine .enter ?_
    exact .bind (.lift _) fun _ => .pure _
  | .varDecl name (some value) =>
    rw [watchExecute, TreeScript.execute]
    refine .enter ?_
    exact .bind (ih.evaluate (frame.initializing name.lexeme) value) fun _ =>
      .bind (.lift _) fun _ => .pure _
  | .block body =>
    rw [watchExecute, TreeScript.execute]
    refine .enter ?_
    exact .bind (.lift _) fun inner => ih.executeAll _ body
  | .conditional condition whenTrue none =>
    rw [watchExecute, TreeScript.execute]
    refine .enter (.bind (ih.evaluate frame condition) fun decision => ?_)
    split
    · exact ih.execute frame whenTrue
    · exact .pure _
  | .conditional condition whenTrue (some whenFalse) =>
    rw [watchExecute, TreeScript.execute]
    refine .enter (.bind (ih.evaluate frame condition) fun decision => ?_)
    split
    · exact ih.execute frame whenTrue
    · exact ih.execute { frame with spot := frame.spot.after whenTrue } whenFalse
  | .loop condition body =>
    rw [watchExecute, TreeScript.execute]
    refine .enter ?_
    exact ih.repeatWhile frame condition body
  | .leave _ =>
    rw [watchExecute, TreeScript.execute]
    refine .enter ?_
    exact .pure _
  | .function declaration =>
    rw [watchExecute, TreeScript.execute]
    refine .enter ?_
    exact .bind (.making _ _) fun _ => .bind (.lift _) fun _ => .pure _
  | .giveBack _ none =>
    rw [watchExecute, TreeScript.execute]
    refine .enter ?_
    exact .pure _
  | .giveBack _ (some value) =>
    rw [watchExecute, TreeScript.execute]
    refine .enter ?_
    exact .bind (ih.evaluate frame value) fun _ => .pure _
  | .classDecl name methods =>
    rw [watchExecute, TreeScript.execute]
    refine .enter ?_
    exact .bind (.making _ _) fun _ => .bind (.lift _) fun _ => .pure _

theorem repeatWhile_step (ih : ErasesAt setting fuel) (frame : Frame) (condition : Expr)
    (body : Stmt) :
    Erases (watchRepeat setting (fuel + 1) frame condition body)
      (TreeScript.repeatWhile setting (fuel + 1) frame.scope condition body) := by
  rw [watchRepeat, TreeScript.repeatWhile]
  refine .bind (ih.evaluate frame condition) fun decision => ?_
  split
  · refine .bind (ih.execute frame body) fun flow => ?_
    cases flow with
    | normal value => exact ih.repeatWhile frame condition body
    | giveBack value => exact .pure _
    | leave => exact .pure _
  · exact .pure _

theorem executeAll_step (ih : ErasesAt setting fuel) (frame : Frame) (ss : List Stmt) :
    Erases (watchExecuteAll setting (fuel + 1) frame ss)
      (TreeScript.executeAll setting (fuel + 1) frame.scope ss) := by
  cases ss with
  | nil =>
    rw [watchExecuteAll, TreeScript.executeAll]
    exact .pure _
  | cons first rest =>
    rw [watchExecuteAll, TreeScript.executeAll]
    refine .bind (ih.execute frame first) fun flow => ?_
    cases flow with
    | normal value => exact ih.executeAll _ rest
    | giveBack value => exact .pure _
    | leave => exact .pure _

theorem call_step (ih : ErasesAt setting fuel) (pending : List Pending) (paren : Token)
    (callee : Value) (arguments : List Value) :
    Erases (watchCall setting (fuel + 1) pending paren callee arguments)
      (callValue setting (fuel + 1) paren callee arguments) := by
  cases callee with
  | function closure =>
    rw [watchCall, callValue]
    refine .origin fun spot => .bind (.lift _) fun scope => .bind (.lift _) fun _ => ?_
    refine .bind (ih.executeAll _ _) fun flow => ?_
    cases flow <;> exact .pure _
  | classObject object =>
    rw [watchCall, callValue]
    exact .lift _
  | native host =>
    rw [watchCall, callValue]
    cases setting.natives[host.identity]? with
    | some found => exact ih.script _ _ _
    | none => exact .pure _
  | nil | bool _ | number _ | string _ | object _ _ =>
    rw [watchCall, callValue] <;> first | exact .lift _ | simp

theorem script_step (ih : ErasesAt setting fuel) (pending : List Pending) (paren : Token)
    (script : Script) :
    Erases (watchScript setting (fuel + 1) pending paren script)
      (runScript setting (fuel + 1) paren script) := by
  cases script with
  | answer value =>
    rw [watchScript, runScript]
    exact .pure _
  | fail message =>
    rw [watchScript, runScript]
    exact .lift _
  | call callee arguments next =>
    rw [watchScript, runScript]
    intro journal machine
    refine Erases.bind (.attempt (ih.call pending paren callee arguments))
      (fun result => ?_) _ machine
    cases result <;> exact ih.script _ _ _

end ErasesAt

theorem erasesAt (setting : Setting) (fuel : Nat) : ErasesAt setting fuel := by
  induction fuel with
  | zero =>
    constructor <;> intros
    · rw [watchEvaluate, evaluate]
      exact .lift _
    · rw [watchEvaluateAll, evaluateAll]
      exact .lift _
    · rw [watchExecute, execute]
      exact .lift _
    · rw [watchRepeat, repeatWhile]
      exact .lift _
    · rw [watchExecuteAll, executeAll]
      exact .lift _
    · rw [watchCall, callValue]
      exact .lift _
    · rw [watchScript, runScript]
      exact .lift _
  | succ fuel ih =>
    exact {
      evaluate := ih.evaluate_step
      evaluateAll := ih.evaluateAll_step
      execute := ih.execute_step
      repeatWhile := ih.repeatWhile_step
      executeAll := ih.executeAll_step
      call := ih.call_step
      script := ih.script_step }

theorem watchStatements_erases (setting : Setting) (fuel : Nat) (ss : List Stmt)
    (frame : Frame) (hs : frame.scope = globalScope) (last : Value) :
    Erases (watchStatements setting fuel frame last ss) (runStatements setting fuel last ss) := by
  induction ss generalizing frame last with
  | nil => exact .pure last
  | cons first rest ih =>
    refine .bind ?_ fun flow => ih { frame with spot := frame.spot.after first } hs flow.value
    rw [← hs]
    exact (erasesAt setting fuel).execute frame first

/-- The journal has no influence on the program. -/
theorem watchProgram_erases (setting : Setting) (fuel : Nat) (ss : List Stmt) :
    Erases (watchProgram setting fuel ss) (runProgram setting fuel ss) :=
  .bind (watchStatements_erases setting fuel ss .top rfl .nil) fun _ =>
    .bind (.lift _) fun _ => .pure _

end TreeScript
