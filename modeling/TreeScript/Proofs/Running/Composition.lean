import TreeScript.Evaluation
import Mathlib.Tactic.Common

/-!
# Properties of runs

What all primitive steps have and sequencing keeps, every evaluation has.

* `Run.bind_eq_iff` — how one step and then another end
* `Run.Compositional` — a property of steps that goes over to what is made of them
* `Run.HoldsAt` — a property of evaluation at one amount of fuel
* `Run.Compositional.holdsAt` — evaluation is made of primitive steps
* `Run.Compositional.runProgram` — and so is the run of a program
-/

namespace TreeScript

namespace Run

/-- One step and then another: the first one fails, or it is done and the second one ends. -/
theorem bind_eq_iff {α β : Type} {p : Run α} {f : α → Run β} {m : Machine} {r : Outcome β}
    (hr : r ≠ .outOfFuel) :
    (p >>= f) m = r ↔ (∃ failure m', p m = .failed failure m' ∧ r = .failed failure m') ∨
      ∃ a m', p m = .done a m' ∧ f a m' = r := by
  show Run.bind p f m = r ↔ _
  unfold Run.bind
  cases p m with
  | done a m' => simp
  | failed failure m' => simp [eq_comm]
  | outOfFuel => simp [hr.symm]

/-- A property that the primitive steps have and that sequencing keeps. -/
structure Compositional (P : ∀ {α : Type}, Run α → Prop) : Prop where
  pure : ∀ {α : Type} (a : α), P (Pure.pure a : Run α)
  fault : ∀ {α : Type} (token : Token) (cause : RunFault), P (Run.fault token cause : Run α)
  stuck : ∀ {α : Type}, P (Run.stuck : Run α)
  bind : ∀ {α β : Type} {p : Run α} {f : α → Run β}, P p → (∀ a, P (f a)) → P (p >>= f)
  attempt : ∀ {α : Type} {p : Run α}, P p → P (Run.attempt p)
  newScope : ∀ enclosing, P (Run.newScope enclosing)
  define : ∀ scope name value, P (Run.define scope name value)
  holder : ∀ distance? scope name, P (Run.holder distance? scope name)
  readName : ∀ distance? scope name, P (Run.readName distance? scope name)
  newIdentity : P Run.newIdentity
  newObject : ∀ ofClass, P (Run.newObject ofClass)
  field? : ∀ address name, P (Run.field? address name)
  setField : ∀ address name value, P (Run.setField address name value)
  print : ∀ text, P (Run.print text)
  flush : P Run.flush

namespace Compositional

variable {P : ∀ {α : Type}, Run α → Prop} (h : Compositional P)

include h

/-! ## Steps made of primitive ones -/

theorem writeName (distance? : Option Nat) (scope : ScopeRef) (name : Token) (value : Value) :
    P (Run.writeName distance? scope name value) :=
  h.bind (h.holder distance? scope name) fun _ => h.define ..

theorem defineAll (scope : ScopeRef) (parameters : List Token) (arguments : List Value) :
    P (Run.defineAll scope parameters arguments) := by
  induction parameters generalizing arguments with
  | nil => exact h.pure ()
  | cons parameter parameters ih =>
    cases arguments with
    | nil => exact h.pure ()
    | cons argument arguments => exact h.bind (h.define ..) fun _ => ih arguments

theorem newClosure (scope : ScopeRef) (declaration : FunctionDecl) :
    P (Run.newClosure scope declaration) :=
  h.bind h.newIdentity fun _ => h.pure _

theorem newClass (scope : ScopeRef) (name : String) (methods : List FunctionDecl) :
    P (Run.newClass scope name methods) :=
  h.bind h.newIdentity fun _ => h.pure _

theorem bindMethod (address : InstanceRef) (ofClass : ClassObject)
    (declaration : FunctionDecl) : P (Run.bindMethod address ofClass declaration) :=
  h.bind (h.newScope _) fun _ => h.bind (h.define ..) fun _ => h.newClosure ..

theorem property (address : InstanceRef) (ofClass : ClassObject) (name : Token) :
    P (Run.property address ofClass name) := by
  refine h.bind (h.field? address name.lexeme) fun value => ?_
  split
  · exact h.pure _
  · split
    · exact h.bindMethod ..
    · exact h.fault ..

theorem ofOperator (operator : Token) (result : Except RunFault Value) :
    P (Run.ofOperator operator result) := by
  cases result with
  | ok value => exact h.pure value
  | error cause => exact h.fault operator cause

end Compositional

/-! ## Evaluation -/

/-- A property of evaluation at one amount of fuel. -/
structure HoldsAt (P : ∀ {α : Type}, Run α → Prop) (setting : Setting) (fuel : Nat) : Prop where
  evaluate : ∀ scope e, P (evaluate setting fuel scope e)
  evaluateAll : ∀ scope es, P (evaluateAll setting fuel scope es)
  execute : ∀ scope s, P (execute setting fuel scope s)
  repeatWhile : ∀ scope e s, P (repeatWhile setting fuel scope e s)
  executeAll : ∀ scope ss, P (executeAll setting fuel scope ss)
  callValue : ∀ paren f vs, P (callValue setting fuel paren f vs)
  runScript : ∀ paren script, P (runScript setting fuel paren script)

namespace HoldsAt

variable {P : ∀ {α : Type}, Run α → Prop} {setting : Setting} {fuel : Nat}

theorem zero (h : Compositional P) : HoldsAt P setting 0 where
  evaluate _ _ := by rw [TreeScript.evaluate]; exact h.stuck
  evaluateAll _ _ := by rw [TreeScript.evaluateAll]; exact h.stuck
  execute _ _ := by rw [TreeScript.execute]; exact h.stuck
  repeatWhile _ _ _ := by rw [TreeScript.repeatWhile]; exact h.stuck
  executeAll _ _ := by rw [TreeScript.executeAll]; exact h.stuck
  callValue _ _ _ := by rw [TreeScript.callValue]; exact h.stuck
  runScript _ _ := by rw [TreeScript.runScript]; exact h.stuck

theorem evaluate_step (h : Compositional P) (ih : HoldsAt P setting fuel) (scope : ScopeRef)
    (e : Expr) : P (TreeScript.evaluate setting (fuel + 1) scope e) := by
  cases e
  all_goals rw [TreeScript.evaluate]
  case constant value => exact h.pure _
  case grouping inner => exact ih.evaluate scope inner
  case unary operator operand =>
    exact h.bind (ih.evaluate scope operand) fun _ => h.ofOperator ..
  case binary left operator right =>
    exact h.bind (ih.evaluate scope left) fun _ =>
      h.bind (ih.evaluate scope right) fun _ => h.ofOperator ..
  case logical left operator right =>
    refine h.bind (ih.evaluate scope left) fun a => ?_
    split
    · exact h.pure a
    · exact ih.evaluate scope right
  case ternary condition question whenTrue whenFalse =>
    refine h.bind (ih.evaluate scope condition) fun decision => ?_
    split
    · exact ih.evaluate scope whenTrue
    · exact ih.evaluate scope whenFalse
  case «variable» id name => exact h.readName ..
  case assign id name value =>
    exact h.bind (ih.evaluate scope value) fun v =>
      h.bind (h.writeName ..) fun _ => h.pure v
  case call callee paren arguments =>
    refine h.bind (ih.evaluate scope callee) fun f => ?_
    refine h.bind (ih.evaluateAll scope arguments) fun values => ?_
    split
    · exact h.fault ..
    · split
      · exact ih.callValue paren f values
      · exact h.fault ..
  case get object name =>
    refine h.bind (ih.evaluate scope object) fun target => ?_
    split
    · exact h.property ..
    · exact h.fault ..
  case set object name value =>
    refine h.bind (ih.evaluate scope object) fun target => ?_
    split
    · exact h.bind (ih.evaluate scope value) fun v =>
        h.bind (h.setField ..) fun _ => h.pure v
    · exact h.fault ..
  case self id keyword => exact h.readName ..
  case function declaration => exact h.newClosure ..

theorem evaluateAll_step (h : Compositional P) (ih : HoldsAt P setting fuel)
    (scope : ScopeRef) (es : List Expr) :
    P (TreeScript.evaluateAll setting (fuel + 1) scope es) := by
  cases es with
  | nil =>
    rw [TreeScript.evaluateAll]
    exact h.pure _
  | cons first rest =>
    rw [TreeScript.evaluateAll]
    exact h.bind (ih.evaluate scope first) fun _ =>
      h.bind (ih.evaluateAll scope rest) fun _ => h.pure _

theorem execute_step (h : Compositional P) (ih : HoldsAt P setting fuel) (scope : ScopeRef)
    (s : Stmt) : P (TreeScript.execute setting (fuel + 1) scope s) := by
  match s with
  | .expression value | .giveBack _ (some value) =>
    rw [TreeScript.execute]
    exact h.bind (ih.evaluate scope value) fun _ => h.pure _
  | .print value =>
    rw [TreeScript.execute]
    exact h.bind (ih.evaluate scope value) fun _ => h.bind (h.print _) fun _ => h.pure _
  | .varDecl name none =>
    rw [TreeScript.execute]
    exact h.bind (h.define ..) fun _ => h.pure _
  | .varDecl name (some value) =>
    rw [TreeScript.execute]
    exact h.bind (ih.evaluate scope value) fun _ => h.bind (h.define ..) fun _ => h.pure _
  | .block body =>
    rw [TreeScript.execute]
    exact h.bind (h.newScope scope) fun inner => ih.executeAll inner body
  | .conditional condition whenTrue none =>
    rw [TreeScript.execute]
    refine h.bind (ih.evaluate scope condition) fun decision => ?_
    split
    · exact ih.execute scope whenTrue
    · exact h.pure _
  | .conditional condition whenTrue (some whenFalse) =>
    rw [TreeScript.execute]
    refine h.bind (ih.evaluate scope condition) fun decision => ?_
    split
    · exact ih.execute scope whenTrue
    · exact ih.execute scope whenFalse
  | .loop condition body =>
    rw [TreeScript.execute]
    exact ih.repeatWhile scope condition body
  | .leave _ | .giveBack _ none =>
    rw [TreeScript.execute]
    exact h.pure _
  | .function declaration =>
    rw [TreeScript.execute]
    exact h.bind (h.newClosure ..) fun _ => h.bind (h.define ..) fun _ => h.pure _
  | .classDecl name methods =>
    rw [TreeScript.execute]
    exact h.bind (h.newClass ..) fun _ => h.bind (h.define ..) fun _ => h.pure _

theorem repeatWhile_step (h : Compositional P) (ih : HoldsAt P setting fuel)
    (scope : ScopeRef) (condition : Expr) (body : Stmt) :
    P (TreeScript.repeatWhile setting (fuel + 1) scope condition body) := by
  rw [TreeScript.repeatWhile]
  refine h.bind (ih.evaluate scope condition) fun decision => ?_
  split
  · refine h.bind (ih.execute scope body) fun flow => ?_
    split
    · exact ih.repeatWhile scope condition body
    · exact h.pure _
    · exact h.pure _
  · exact h.pure _

theorem executeAll_step (h : Compositional P) (ih : HoldsAt P setting fuel)
    (scope : ScopeRef) (ss : List Stmt) :
    P (TreeScript.executeAll setting (fuel + 1) scope ss) := by
  cases ss with
  | nil =>
    rw [TreeScript.executeAll]
    exact h.pure _
  | cons first rest =>
    rw [TreeScript.executeAll]
    refine h.bind (ih.execute scope first) fun flow => ?_
    split
    · exact ih.executeAll scope rest
    · exact h.pure _

theorem callValue_step (h : Compositional P) (ih : HoldsAt P setting fuel) (paren : Token)
    (f : Value) (vs : List Value) :
    P (TreeScript.callValue setting (fuel + 1) paren f vs) := by
  cases f
  all_goals simp only [TreeScript.callValue]
  case function closure =>
    refine h.bind (h.newScope _) fun frame => h.bind (h.defineAll ..) fun _ => ?_
    refine h.bind (ih.executeAll frame _) fun flow => ?_
    split <;> exact h.pure _
  case classObject object => exact h.newObject object
  case native host =>
    split
    · exact ih.runScript paren _
    · exact h.pure _
  all_goals exact h.fault ..

theorem runScript_step (h : Compositional P) (ih : HoldsAt P setting fuel) (paren : Token)
    (script : Script) : P (TreeScript.runScript setting (fuel + 1) paren script) := by
  cases script
  all_goals rw [TreeScript.runScript]
  case answer value => exact h.pure value
  case fail message => exact h.fault ..
  case call callee arguments next =>
    refine h.bind (h.attempt (ih.callValue paren callee arguments)) fun result => ?_
    split
    · exact ih.runScript paren _
    · exact ih.runScript paren _

end HoldsAt

namespace Compositional

variable {P : ∀ {α : Type}, Run α → Prop} (h : Compositional P) (setting : Setting)
  (fuel : Nat)

include h

/-- Every evaluation has the property. -/
theorem holdsAt : HoldsAt P setting fuel := by
  induction fuel with
  | zero => exact .zero h
  | succ fuel ih =>
    exact {
      evaluate := ih.evaluate_step h
      evaluateAll := ih.evaluateAll_step h
      execute := ih.execute_step h
      repeatWhile := ih.repeatWhile_step h
      executeAll := ih.executeAll_step h
      callValue := ih.callValue_step h
      runScript := ih.runScript_step h }

theorem runStatements (last : Value) (statements : List Stmt) :
    P (runStatements setting fuel last statements) := by
  induction statements generalizing last with
  | nil => exact h.pure last
  | cons first rest ih => exact h.bind ((h.holdsAt setting fuel).execute _ first) fun _ => ih _

/-- The run of every program has the property. -/
theorem runProgram (statements : List Stmt) : P (runProgram setting fuel statements) :=
  h.bind (h.runStatements setting fuel .nil statements) fun _ =>
    h.bind h.flush fun _ => h.pure _

end Compositional

end Run

end TreeScript
