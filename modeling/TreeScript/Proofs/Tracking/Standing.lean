import TreeScript.Session
import TreeScript.Proofs.Tracking.Noting

/-!
# An interpreter that keeps its environment itself

Evaluation takes the scope at hand as an argument.  Here it is part of the state: a block or
a call replaces it, and puts it back afterwards.

* `Standing` — where an interpreter stands: the current environment, the globals, and what
  is fixed
* `Standing.within` — a step in another environment, which is put back afterwards
* `Standing.evaluate`, `Standing.execute`, … — evaluation from where the interpreter stands
* `Standing.Returns` — a step that does the same as another one, and comes back to where it
  stood unless the scopes are broken
* `Standing.returnsAt` — evaluation does
-/

namespace TreeScript

/-- Where an interpreter stands: the current environment, the globals, and what is fixed. -/
structure Standing where
  environment : ScopeRef
  globals : ScopeRef
  setting : Setting

namespace Standing

variable {α β : Type}

/-! ## Steps -/

/-- Where the interpreter stands. -/
def here : Noting Standing Standing :=
  Noting.look id

/-- A step in another environment.  Whatever the outcome, the current environment is put
back; only broken scopes, which end the session, leave it. -/
def within (scope : ScopeRef) (step : Noting Standing α) : Noting Standing α :=
  fun standing machine =>
    match step { standing with environment := scope } machine with
    | (.done value machine, left) =>
      (.done value machine, { left with environment := standing.environment })
    | (.failed (.diagnosed diagnostic) machine, left) =>
      (.failed (.diagnosed diagnostic) machine, { left with environment := standing.environment })
    | (.failed (.broken cause) machine, left) => (.failed (.broken cause) machine, left)
    | (.outOfFuel, left) => (.outOfFuel, left)

/-- The value of a name: at its distance from the current environment, or else among the
globals. -/
def lookUp (id : ReferenceId) (name : Token) : Noting Standing Value := do
  let standing ← here
  Noting.lift fun machine =>
    let found :=
      match standing.setting.distances[id]? with
      | some distance => machine.scopes.getAt standing.environment distance name
      | none => machine.scopes.get standing.globals name
    match found with
    | .ok value => .done value machine
    | .error failure => .failed failure machine

/-- Overwrites a name: at its distance from the current environment, or else among the
globals. -/
def overwrite (id : ReferenceId) (name : Token) (value : Value) : Noting Standing Unit := do
  let standing ← here
  Noting.lift fun machine =>
    let written :=
      match standing.setting.distances[id]? with
      | some distance => machine.scopes.assignAt standing.environment distance name value
      | none => machine.scopes.assign standing.globals name value
    match written with
    | .ok scopes => .done () { machine with scopes }
    | .error failure => .failed failure machine

/-- Binds a name in the current environment. -/
def define (name : String) (value : Option Value) : Noting Standing Unit := do
  let standing ← here
  Noting.lift (Run.define standing.environment name value)

/-! ## Evaluation -/

mutual

/-- Evaluates an expression. -/
def evaluate : (fuel : Nat) → Expr → Noting Standing Value
  | 0, _ => Noting.lift .stuck
  | fuel + 1, expr =>
    match expr with
    | .constant value => return Value.ofConstant value
    | .grouping inner => evaluate fuel inner
    | .unary operator operand => do
      let value ← evaluate fuel operand
      Noting.lift (Run.ofOperator operator (unaryResult operator.kind value))
    | .binary left operator right => do
      let a ← evaluate fuel left
      let b ← evaluate fuel right
      Noting.lift (Run.ofOperator operator (binaryResult operator.kind a b))
    | .logical left operator right => do
      let a ← evaluate fuel left
      if decidedByLeft operator.kind a then return a else evaluate fuel right
    | .ternary condition _ whenTrue whenFalse => do
      let decision ← evaluate fuel condition
      if decision.isTruthy then evaluate fuel whenTrue else evaluate fuel whenFalse
    | .variable id name => lookUp id name
    | .assign id name value => do
      let v ← evaluate fuel value
      overwrite id name v
      return v
    | .call callee paren arguments => do
      let f ← evaluate fuel callee
      let values ← evaluateAll fuel arguments
      let standing ← here
      match f.arity? standing.setting with
      | none => Noting.lift (Run.fault paren .notCallable)
      | some arity =>
        if values.length = arity then callValue fuel paren f values
        else Noting.lift (Run.fault paren (.wrongArgumentCount arity values.length))
    | .get object name => do
      match ← evaluate fuel object with
      | .object address ofClass => Noting.lift (Run.property address ofClass name)
      | _ => Noting.lift (Run.fault name .propertyOfNonInstance)
    | .set object name value => do
      match ← evaluate fuel object with
      | .object address _ => do
        let v ← evaluate fuel value
        Noting.lift (Run.setField address name.lexeme v)
        return v
      | _ => Noting.lift (Run.fault name .fieldOfNonInstance)
    | .self id keyword => lookUp id keyword
    | .function declaration => do
      let standing ← here
      Noting.lift (Run.newClosure standing.environment declaration)

/-- Evaluates expressions from left to right. -/
def evaluateAll : (fuel : Nat) → List Expr → Noting Standing (List Value)
  | 0, _ => Noting.lift .stuck
  | _ + 1, [] => return []
  | fuel + 1, first :: rest => do
    let value ← evaluate fuel first
    let values ← evaluateAll fuel rest
    return value :: values

/-- Executes a statement. -/
def execute : (fuel : Nat) → Stmt → Noting Standing Flow
  | 0, _ => Noting.lift .stuck
  | fuel + 1, stmt =>
    match stmt with
    | .expression value => do
      return .normal (← evaluate fuel value)
    | .print value => do
      let v ← evaluate fuel value
      Noting.lift (Run.print v.text)
      return .normal .nil
    | .varDecl name none => do
      define name.lexeme none
      return .normal .nil
    | .varDecl name (some value) => do
      let v ← evaluate fuel value
      define name.lexeme (some v)
      return .normal .nil
    | .block body => do
      let standing ← here
      let inner ← Noting.lift (Run.newScope standing.environment)
      within inner (executeAll fuel body)
    | .conditional condition whenTrue whenFalse => do
      let decision ← evaluate fuel condition
      if decision.isTruthy then execute fuel whenTrue
      else
        match whenFalse with
        | some branch => execute fuel branch
        | none => return .normal .nil
    | .loop condition body => repeatWhile fuel condition body
    | .leave _ => return .leave
    | .function declaration => do
      let standing ← here
      let f ← Noting.lift (Run.newClosure standing.environment declaration)
      define declaration.displayName (some f)
      return .normal .nil
    | .giveBack _ none => return .giveBack .nil
    | .giveBack _ (some value) => do
      return .giveBack (← evaluate fuel value)
    | .classDecl name methods => do
      let standing ← here
      let c ← Noting.lift (Run.newClass standing.environment name.lexeme methods)
      define name.lexeme (some c)
      return .normal .nil

/-- Repeats a body as long as a condition holds. -/
def repeatWhile : (fuel : Nat) → Expr → Stmt → Noting Standing Flow
  | 0, _, _ => Noting.lift .stuck
  | fuel + 1, condition, body => do
    let decision ← evaluate fuel condition
    if decision.isTruthy then
      match ← execute fuel body with
      | .normal _ => repeatWhile fuel condition body
      | .leave => return .normal .nil
      | .giveBack value => return .giveBack value
    else return .normal .nil

/-- Executes statements in order up to the first that does not fall through. -/
def executeAll : (fuel : Nat) → List Stmt → Noting Standing Flow
  | 0, _ => Noting.lift .stuck
  | _ + 1, [] => return .normal .nil
  | fuel + 1, first :: rest => do
    match ← execute fuel first with
    | .normal _ => executeAll fuel rest
    | flow => return flow

/-- Calls a value. -/
def callValue : (fuel : Nat) → Token → Value → List Value → Noting Standing Value
  | 0, _, _, _ => Noting.lift .stuck
  | fuel + 1, paren, callee, arguments =>
    match callee with
    | .function closure => do
      let frame ← Noting.lift (Run.newScope closure.scope)
      Noting.lift (Run.defineAll frame closure.declaration.parameters arguments)
      match ← within frame (executeAll fuel closure.declaration.body) with
      | .giveBack value => return value
      | _ => return .nil
    | .classObject object => Noting.lift (Run.newObject object)
    | .native host => do
      let standing ← here
      match standing.setting.natives[host.identity]? with
      | some found => runScript fuel paren (found.body arguments)
      | none => return .nil
    | _ => Noting.lift (Run.fault paren .notCallable)

/-- Does what a host function does. -/
def runScript : (fuel : Nat) → Token → Script → Noting Standing Value
  | 0, _, _ => Noting.lift .stuck
  | _ + 1, _, .answer value => return value
  | _ + 1, paren, .fail message => Noting.lift (Run.fault paren (.hostFailure message))
  | fuel + 1, paren, .call callee arguments next => do
    match ← Noting.attempt (callValue fuel paren callee arguments) with
    | .ok value => runScript fuel paren (next (.ok value))
    | .error diagnostic => runScript fuel paren (next (.error diagnostic.message))

end

/-! ## Coming back -/

/-- A step ends with a value or with a diagnostic: it neither finds broken scopes nor runs
out of fuel. -/
def Settles {N : Type} : Outcome α × N → N → Machine → Prop
  | (.done _ machine, notes), notes', machine' => notes = notes' ∧ machine = machine'
  | (.failed (.diagnosed _) machine, notes), notes', machine' =>
    notes = notes' ∧ machine = machine'
  | _, _, _ => False

/-- From where the interpreter stands a step does the same as another one, and if it settles
it comes back to where it stood. -/
structure Returns (standing : Standing) (step : Noting Standing α) (run : Run α) : Prop where
  same : ∀ machine, (step standing machine).1 = run machine
  back : ∀ machine standing' machine', Settles (step standing machine) standing' machine' →
    standing' = standing

namespace Returns

variable {standing : Standing}

theorem lift (run : Run α) : Returns standing (Noting.lift run) run where
  same _ := rfl
  back machine standing' machine' hs := by
    unfold Noting.lift at hs
    generalize run machine = outcome at hs
    rcases outcome with _ | ⟨_ | _, _⟩ | _
    · exact hs.1.symm
    · exact hs.1.symm
    · exact hs.elim
    · exact hs.elim

theorem pure (a : α) : Returns standing (Pure.pure a) (Pure.pure a) where
  same _ := rfl
  back _ _ _ hs := hs.1.symm

theorem look {next : Standing → Noting Standing β} {rest : Run β}
    (h : Returns standing (next standing) rest) : Returns standing (here >>= next) rest where
  same := h.same
  back := h.back

theorem bind {step : Noting Standing α} {run : Run α} {next : α → Noting Standing β}
    {rest : α → Run β} (h : Returns standing step run)
    (hn : ∀ a, Returns standing (next a) (rest a)) :
    Returns standing (step >>= next) (run >>= rest) where
  same machine := by
    show (Noting.bind step next standing machine).1 = Run.bind run rest machine
    have hsame := h.same machine
    have hback := h.back machine
    unfold Noting.bind Run.bind
    rw [← hsame]
    generalize step standing machine = result at hback ⊢
    rcases result with ⟨⟨a, m⟩ | _ | _, left⟩
    · rw [hback left m ⟨rfl, rfl⟩]
      exact (hn a).same m
    · rfl
    · rfl
  back machine standing' machine' hs := by
    change Settles (Noting.bind step next standing machine) standing' machine' at hs
    have hback := h.back machine
    unfold Noting.bind at hs
    generalize step standing machine = result at hback hs
    rcases result with ⟨⟨a, m⟩ | ⟨_ | _, m⟩ | _, left⟩
    · rw [hback left m ⟨rfl, rfl⟩] at hs
      exact (hn a).back m standing' machine' hs
    · exact hback standing' machine' hs
    · exact hs.elim
    · exact hs.elim

/-- What is done in another environment comes back to the current one. -/
theorem within {scope : ScopeRef} {step : Noting Standing α} {run : Run α}
    (h : Returns { standing with environment := scope } step run) :
    Returns standing (Standing.within scope step) run where
  same machine := by
    rw [← h.same machine]
    unfold Standing.within
    rcases step { standing with environment := scope } machine with
      ⟨_ | ⟨_ | _, _⟩ | _, left⟩ <;> rfl
  back machine standing' machine' hs := by
    have hback := h.back machine
    unfold Standing.within at hs
    generalize step { standing with environment := scope } machine = result at hback hs
    rcases result with ⟨⟨a, m⟩ | ⟨_ | _, m⟩ | _, left⟩
    · rw [← hs.1, hback left m ⟨rfl, rfl⟩]
    · rw [← hs.1, hback left m ⟨rfl, rfl⟩]
    · exact hs.elim
    · exact hs.elim

theorem attempt {step : Noting Standing α} {run : Run α} (h : Returns standing step run) :
    Returns standing (Noting.attempt step) (Run.attempt run) where
  same machine := by
    have hsame := h.same machine
    unfold Noting.attempt Run.attempt
    rw [← hsame]
    rcases step standing machine with ⟨_ | ⟨_ | _, _⟩ | _, left⟩ <;> rfl
  back machine standing' machine' hs := by
    have hback := h.back machine
    unfold Noting.attempt at hs
    generalize step standing machine = result at hback hs
    rcases result with ⟨⟨a, m⟩ | ⟨_ | _, m⟩ | _, left⟩
    · exact hback standing' machine' hs
    · exact hback standing' machine' hs
    · exact hs.elim
    · exact hs.elim

/-- Steps that are the same are done in the same way. -/
theorem of_eq {step : Noting Standing α} {run run' : Run α} (h : Returns standing step run)
    (he : ∀ machine, run machine = run' machine) : Returns standing step run' where
  same machine := (h.same machine).trans (he machine)
  back := h.back

theorem lookUp (hg : standing.globals = globalScope) (id : ReferenceId) (name : Token) :
    Returns standing (Standing.lookUp id name)
      (Run.readName standing.setting.distances[id]? standing.environment name) := by
  refine .look (of_eq (.lift _) fun machine => ?_)
  show _ = Run.bind _ _ machine
  unfold Run.bind Run.holder
  rw [hg]
  cases standing.setting.distances[id]? with
  | none =>
    simp only [Scopes.get]
    cases machine.scopes.holder globalScope name <;> rfl
  | some distance =>
    simp only [Scopes.getAt]
    cases machine.scopes.holderAt standing.environment distance name <;> rfl

theorem overwrite (hg : standing.globals = globalScope) (id : ReferenceId) (name : Token)
    (value : Value) :
    Returns standing (Standing.overwrite id name value)
      (Run.writeName standing.setting.distances[id]? standing.environment name value) := by
  refine .look (of_eq (.lift _) fun machine => ?_)
  show _ = Run.bind _ _ machine
  unfold Run.bind Run.holder
  rw [hg]
  cases standing.setting.distances[id]? with
  | none =>
    simp only [Scopes.assign]
    cases machine.scopes.holder globalScope name <;> rfl
  | some distance =>
    simp only [Scopes.assignAt]
    cases machine.scopes.holderAt standing.environment distance name <;> rfl

theorem define (name : String) (value : Option Value) :
    Returns standing (Standing.define name value)
      (Run.define standing.environment name value) :=
  .look (.lift _)

end Returns

/-- All steps come back to where the interpreter stands, at one amount of fuel. -/
structure ReturnsAt (standing : Standing) (fuel : Nat) : Prop where
  evaluate : ∀ e, Returns standing (evaluate fuel e)
    (TreeScript.evaluate standing.setting fuel standing.environment e)
  evaluateAll : ∀ es, Returns standing (evaluateAll fuel es)
    (TreeScript.evaluateAll standing.setting fuel standing.environment es)
  execute : ∀ s, Returns standing (execute fuel s)
    (TreeScript.execute standing.setting fuel standing.environment s)
  repeatWhile : ∀ condition body, Returns standing (repeatWhile fuel condition body)
    (TreeScript.repeatWhile standing.setting fuel standing.environment condition body)
  executeAll : ∀ ss, Returns standing (executeAll fuel ss)
    (TreeScript.executeAll standing.setting fuel standing.environment ss)
  call : ∀ paren callee arguments, Returns standing (callValue fuel paren callee arguments)
    (TreeScript.callValue standing.setting fuel paren callee arguments)
  script : ∀ paren script, Returns standing (runScript fuel paren script)
    (TreeScript.runScript standing.setting fuel paren script)

namespace ReturnsAt

variable {standing : Standing} {fuel : Nat}

theorem evaluate_step (ih : ReturnsAt standing fuel) (hg : standing.globals = globalScope)
    (e : Expr) :
    Returns standing (Standing.evaluate (fuel + 1) e)
      (TreeScript.evaluate standing.setting (fuel + 1) standing.environment e) := by
  cases e
  all_goals rw [Standing.evaluate, TreeScript.evaluate]
  case constant value => exact .pure _
  case grouping inner => exact ih.evaluate inner
  case unary operator operand => exact .bind (ih.evaluate operand) fun _ => .lift _
  case binary left operator right =>
    exact .bind (ih.evaluate left) fun _ => .bind (ih.evaluate right) fun _ => .lift _
  case logical left operator right =>
    refine .bind (ih.evaluate left) fun a => ?_
    split
    · exact .pure a
    · exact ih.evaluate right
  case ternary condition question whenTrue whenFalse =>
    refine .bind (ih.evaluate condition) fun decision => ?_
    split
    · exact ih.evaluate whenTrue
    · exact ih.evaluate whenFalse
  case «variable» id name => exact .lookUp hg id name
  case assign id name value =>
    exact .bind (ih.evaluate value) fun v => .bind (.overwrite hg id name v) fun _ => .pure _
  case call callee paren arguments =>
    refine .bind (ih.evaluate callee) fun f => ?_
    refine .bind (ih.evaluateAll arguments) fun values => .look ?_
    cases f.arity? standing.setting with
    | none => exact .lift _
    | some arity =>
      simp only
      split
      · exact ih.call paren f values
      · exact .lift _
  case get object name =>
    refine .bind (ih.evaluate object) fun value => ?_
    cases value <;> exact .lift _
  case set object name value =>
    refine .bind (ih.evaluate object) fun target => ?_
    cases target with
    | object address ofClass =>
      exact .bind (ih.evaluate value) fun _ => .bind (.lift _) fun _ => .pure _
    | _ => exact .lift _
  case self id keyword => exact .lookUp hg id keyword
  case function declaration => exact .look (.lift _)

theorem evaluateAll_step (ih : ReturnsAt standing fuel) (es : List Expr) :
    Returns standing (Standing.evaluateAll (fuel + 1) es)
      (TreeScript.evaluateAll standing.setting (fuel + 1) standing.environment es) := by
  cases es with
  | nil =>
    rw [Standing.evaluateAll, TreeScript.evaluateAll]
    exact .pure _
  | cons first rest =>
    rw [Standing.evaluateAll, TreeScript.evaluateAll]
    exact .bind (ih.evaluate first) fun _ => .bind (ih.evaluateAll rest) fun _ => .pure _

/-- A block is executed in an environment of its own, the other statements in the current
one. -/
theorem execute_step (ih : ReturnsAt standing fuel)
    (inner : ∀ environment, ReturnsAt { standing with environment } fuel) (s : Stmt) :
    Returns standing (Standing.execute (fuel + 1) s)
      (TreeScript.execute standing.setting (fuel + 1) standing.environment s) := by
  match s with
  | .expression value | .giveBack _ (some value) =>
    rw [Standing.execute, TreeScript.execute]
    exact .bind (ih.evaluate value) fun _ => .pure _
  | .print value =>
    rw [Standing.execute, TreeScript.execute]
    exact .bind (ih.evaluate value) fun v => .bind (.lift _) fun _ => .pure _
  | .varDecl name none =>
    rw [Standing.execute, TreeScript.execute]
    exact .bind (.define _ _) fun _ => .pure _
  | .varDecl name (some value) =>
    rw [Standing.execute, TreeScript.execute]
    exact .bind (ih.evaluate value) fun v => .bind (.define _ _) fun _ => .pure _
  | .block body =>
    rw [Standing.execute, TreeScript.execute]
    exact .look (.bind (.lift _) fun scope => .within ((inner scope).executeAll body))
  | .conditional condition whenTrue none =>
    rw [Standing.execute, TreeScript.execute]
    refine .bind (ih.evaluate condition) fun decision => ?_
    split
    · exact ih.execute whenTrue
    · exact .pure _
  | .conditional condition whenTrue (some whenFalse) =>
    rw [Standing.execute, TreeScript.execute]
    refine .bind (ih.evaluate condition) fun decision => ?_
    split
    · exact ih.execute whenTrue
    · exact ih.execute whenFalse
  | .loop condition body =>
    rw [Standing.execute, TreeScript.execute]
    exact ih.repeatWhile condition body
  | .leave _ | .giveBack _ none =>
    rw [Standing.execute, TreeScript.execute]
    exact .pure _
  | .function declaration =>
    rw [Standing.execute, TreeScript.execute]
    exact .look (.bind (.lift _) fun f => .bind (.define _ _) fun _ => .pure _)
  | .classDecl name methods =>
    rw [Standing.execute, TreeScript.execute]
    exact .look (.bind (.lift _) fun c => .bind (.define _ _) fun _ => .pure _)

theorem repeatWhile_step (ih : ReturnsAt standing fuel) (condition : Expr) (body : Stmt) :
    Returns standing (Standing.repeatWhile (fuel + 1) condition body)
      (TreeScript.repeatWhile standing.setting (fuel + 1) standing.environment condition
        body) := by
  rw [Standing.repeatWhile, TreeScript.repeatWhile]
  refine .bind (ih.evaluate condition) fun decision => ?_
  split
  · refine .bind (ih.execute body) fun flow => ?_
    cases flow with
    | normal value => exact ih.repeatWhile condition body
    | giveBack value => exact .pure _
    | leave => exact .pure _
  · exact .pure _

theorem executeAll_step (ih : ReturnsAt standing fuel) (ss : List Stmt) :
    Returns standing (Standing.executeAll (fuel + 1) ss)
      (TreeScript.executeAll standing.setting (fuel + 1) standing.environment ss) := by
  cases ss with
  | nil =>
    rw [Standing.executeAll, TreeScript.executeAll]
    exact .pure _
  | cons first rest =>
    rw [Standing.executeAll, TreeScript.executeAll]
    refine .bind (ih.execute first) fun flow => ?_
    cases flow with
    | normal value => exact ih.executeAll rest
    | giveBack value => exact .pure _
    | leave => exact .pure _

/-- The body of a function is executed in an environment of its own. -/
theorem call_step (ih : ReturnsAt standing fuel)
    (inner : ∀ environment, ReturnsAt { standing with environment } fuel) (paren : Token)
    (callee : Value) (arguments : List Value) :
    Returns standing (Standing.callValue (fuel + 1) paren callee arguments)
      (TreeScript.callValue standing.setting (fuel + 1) paren callee arguments) := by
  cases callee with
  | function closure =>
    rw [Standing.callValue, TreeScript.callValue]
    refine .bind (.lift _) fun frame => .bind (.lift _) fun _ => ?_
    refine .bind (.within ((inner frame).executeAll _)) fun flow => ?_
    cases flow <;> exact .pure _
  | classObject object =>
    rw [Standing.callValue, TreeScript.callValue]
    exact .lift _
  | native host =>
    rw [Standing.callValue, TreeScript.callValue]
    refine .look ?_
    cases standing.setting.natives[host.identity]? with
    | some found => exact ih.script _ _
    | none => exact .pure _
  | nil | bool _ | number _ | string _ | object _ _ =>
    rw [Standing.callValue, TreeScript.callValue] <;> first | exact .lift _ | simp

theorem script_step (ih : ReturnsAt standing fuel) (paren : Token) (script : Script) :
    Returns standing (Standing.runScript (fuel + 1) paren script)
      (TreeScript.runScript standing.setting (fuel + 1) paren script) := by
  cases script with
  | answer value =>
    rw [Standing.runScript, TreeScript.runScript]
    exact .pure _
  | fail message =>
    rw [Standing.runScript, TreeScript.runScript]
    exact .lift _
  | call callee arguments next =>
    rw [Standing.runScript, TreeScript.runScript]
    refine .bind (.attempt (ih.call paren callee arguments)) fun result => ?_
    cases result <;> exact ih.script _ _

end ReturnsAt

/-- Evaluation comes back to where the interpreter stood. -/
theorem returnsAt (fuel : Nat) (standing : Standing) (hg : standing.globals = globalScope) :
    ReturnsAt standing fuel := by
  induction fuel generalizing standing with
  | zero =>
    constructor <;> intros
    · rw [evaluate, TreeScript.evaluate]
      exact .lift _
    · rw [evaluateAll, TreeScript.evaluateAll]
      exact .lift _
    · rw [execute, TreeScript.execute]
      exact .lift _
    · rw [repeatWhile, TreeScript.repeatWhile]
      exact .lift _
    · rw [executeAll, TreeScript.executeAll]
      exact .lift _
    · rw [callValue, TreeScript.callValue]
      exact .lift _
    · rw [runScript, TreeScript.runScript]
      exact .lift _
  | succ fuel ih =>
    have inner := fun environment => ih { standing with environment } hg
    exact {
      evaluate := (ih standing hg).evaluate_step hg
      evaluateAll := (ih standing hg).evaluateAll_step
      execute := (ih standing hg).execute_step inner
      repeatWhile := (ih standing hg).repeatWhile_step
      executeAll := (ih standing hg).executeAll_step
      call := (ih standing hg).call_step inner
      script := (ih standing hg).script_step }

end Standing

end TreeScript
