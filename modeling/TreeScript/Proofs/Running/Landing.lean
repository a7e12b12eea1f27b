import TreeScript.Proofs.Likeness.Running
import TreeScript.Proofs.Running.Flows

/-!
# Where flows land

A statement ends in a flow, and there are two places in which a flow lands: the call of
the function around the statement, and the program.

* `Landing` — what is made of the flows there
* `Landing.evaluate`, `Landing.execute`, … — evaluation with a landing
* `Landing.standardAt` — with the landing of the language this is evaluation
* `Landing.Expected` — a landing that is free in what it makes of flows that never land
* `Landing.tiedAt` — where no function has a stray `break`, every such landing does the same
-/

namespace TreeScript

/-- What a call makes of the flow in which the body of the function ends, and what a
program makes of the flow in which one of its statements ends. -/
structure Landing where
  call : Flow → Run Value
  top : Flow → Run Value

namespace Landing

/-- A call answers what is given back, and otherwise `nil`; a program has the value of a
statement that falls through, and otherwise none. -/
def standard : Landing where
  call
    | .giveBack value => pure value
    | _ => pure .nil
  top flow := pure flow.value

/-! ## Evaluation with a landing -/

mutual

/-- Evaluates an expression. -/
def evaluate (landing : Landing) (setting : Setting) :
    (fuel : Nat) → ScopeRef → Expr → Run Value
  | 0, _, _ => .stuck
  | fuel + 1, scope, expr =>
    match expr with
    | .constant value => pure (Value.ofConstant value)
    | .grouping inner => landing.evaluate setting fuel scope inner
    | .unary operator operand => do
      let value ← landing.evaluate setting fuel scope operand
      Run.ofOperator operator (unaryResult operator.kind value)
    | .binary left operator right => do
      let a ← landing.evaluate setting fuel scope left
      let b ← landing.evaluate setting fuel scope right
      Run.ofOperator operator (binaryResult operator.kind a b)
    | .logical left operator right => do
      let a ← landing.evaluate setting fuel scope left
      if decidedByLeft operator.kind a then return a
      else landing.evaluate setting fuel scope right
    | .ternary condition _ whenTrue whenFalse => do
      let decision ← landing.evaluate setting fuel scope condition
      if decision.isTruthy then landing.evaluate setting fuel scope whenTrue
      else landing.evaluate setting fuel scope whenFalse
    | .variable id name => Run.readName setting.distances[id]? scope name
    | .assign id name value => do
      let v ← landing.evaluate setting fuel scope value
      Run.writeName setting.distances[id]? scope name v
      return v
    | .call callee paren arguments => do
      let f ← landing.evaluate setting fuel scope callee
      let values ← landing.evaluateAll setting fuel scope arguments
      match f.arity? setting with
      | none => Run.fault paren .notCallable
      | some arity =>
        if values.length = arity then landing.callValue setting fuel paren f values
        else Run.fault paren (.wrongArgumentCount arity values.length)
    | .get object name => do
      match ← landing.evaluate setting fuel scope object with
      | .object address ofClass => Run.property address ofClass name
      | _ => Run.fault name .propertyOfNonInstance
    | .set object name value => do
      match ← landing.evaluate setting fuel scope object with
      | .object address _ =>
        let v ← landing.evaluate setting fuel scope value
        Run.setField address name.lexeme v
        return v
      | _ => Run.fault name .fieldOfNonInstance
    | .self id keyword => Run.readName setting.distances[id]? scope keyword
    | .function declaration => Run.newClosure scope declaration

/-- Evaluates expressions from left to right. -/
def evaluateAll (landing : Landing) (setting : Setting) :
    (fuel : Nat) → ScopeRef → List Expr → Run (List Value)
  | 0, _, _ => .stuck
  | _ + 1, _, [] => pure []
  | fuel + 1, scope, first :: rest => do
    let value ← landing.evaluate setting fuel scope first
    let values ← landing.evaluateAll setting fuel scope rest
    return value :: values

/-- Executes a statement. -/
def execute (landing : Landing) (setting : Setting) :
    (fuel : Nat) → ScopeRef → Stmt → Run Flow
  | 0, _, _ => .stuck
  | fuel + 1, scope, stmt =>
    match stmt with
    | .expression value => do
      return .normal (← landing.evaluate setting fuel scope value)
    | .print value => do
      let v ← landing.evaluate setting fuel scope value
      Run.print v.text
      return .normal .nil
    | .varDecl name none => do
      Run.define scope name.lexeme none
      return .normal .nil
    | .varDecl name (some value) => do
      let v ← landing.evaluate setting fuel scope value
      Run.define scope name.lexeme (some v)
      return .normal .nil
    | .block body => do
      let inner ← Run.newScope scope
      landing.executeAll setting fuel inner body
    | .conditional condition whenTrue whenFalse => do
      let decision ← landing.evaluate setting fuel scope condition
      if decision.isTruthy then landing.execute setting fuel scope whenTrue
      else
        match whenFalse with
        | some branch => landing.execute setting fuel scope branch
        | none => return .normal .nil
    | .loop condition body => landing.repeatWhile setting fuel scope condition body
    | .leave _ => return .leave
    | .function declaration => do
      let f ← Run.newClosure scope declaration
      Run.define scope declaration.displayName (some f)
      return .normal .nil
    | .giveBack _ none => return .giveBack .nil
    | .giveBack _ (some value) => do
      return .giveBack (← landing.evaluate setting fuel scope value)
    | .classDecl name methods => do
      let c ← Run.newClass scope name.lexeme methods
      Run.define scope name.lexeme (some c)
      return .normal .nil

/-- Repeats a body as long as a condition holds. -/
def repeatWhile (landing : Landing) (setting : Setting) :
    (fuel : Nat) → ScopeRef → Expr → Stmt → Run Flow
  | 0, _, _, _ => .stuck
  | fuel + 1, scope, condition, body => do
    let decision ← landing.evaluate setting fuel scope condition
    if decision.isTruthy then
      match ← landing.execute setting fuel scope body with
      | .normal _ => landing.repeatWhile setting fuel scope condition body
      | .leave => return .normal .nil
      | .giveBack value => return .giveBack value
    else return .normal .nil

/-- Executes statements in order up to the first that does not fall through. -/
def executeAll (landing : Landing) (setting : Setting) :
    (fuel : Nat) → ScopeRef → List Stmt → Run Flow
  | 0, _, _ => .stuck
  | _ + 1, _, [] => pure (.normal .nil)
  | fuel + 1, scope, first :: rest => do
    match ← landing.execute setting fuel scope first with
    | .normal _ => landing.executeAll setting fuel scope rest
    | flow => return flow

/-- Calls a value.  The flow of a body lands here. -/
def callValue (landing : Landing) (setting : Setting) :
    (fuel : Nat) → Token → Value → List Value → Run Value
  | 0, _, _, _ => .stuck
  | fuel + 1, paren, callee, arguments =>
    match callee with
    | .function closure => do
      let frame ← Run.newScope closure.scope
      Run.defineAll frame closure.declaration.parameters arguments
      landing.call (← landing.executeAll setting fuel frame closure.declaration.body)
    | .classObject object => Run.newObject object
    | .native host =>
      match setting.natives[host.identity]? with
      | some found => landing.runScript setting fuel paren (found.body arguments)
      | none => pure .nil
    | _ => Run.fault paren .notCallable

/-- Does what a host function does. -/
def runScript (landing : Landing) (setting : Setting) :
    (fuel : Nat) → Token → Script → Run Value
  | 0, _, _ => .stuck
  | _ + 1, _, .answer value => pure value
  | _ + 1, paren, .fail message => Run.fault paren (.hostFailure message)
  | fuel + 1, paren, .call callee arguments next => do
    match ← Run.attempt (landing.callValue setting fuel paren callee arguments) with
    | .ok value => landing.runScript setting fuel paren (next (.ok value))
    | .error diagnostic =>
      landing.runScript setting fuel paren (next (.error diagnostic.message))

end

/-- Executes statements among the globals.  The flow of each lands here. -/
def runStatements (landing : Landing) (setting : Setting) (fuel : Nat) (last : Value) :
    List Stmt → Run Value
  | [] => pure last
  | first :: rest => do
    let flow ← landing.execute setting fuel globalScope first
    let value ← landing.top flow
    landing.runStatements setting fuel value rest

/-- Runs a program among the globals and flushes what it printed. -/
def runProgram (landing : Landing) (setting : Setting) (fuel : Nat) (statements : List Stmt) :
    Run Value := do
  let value ← landing.runStatements setting fuel .nil statements
  Run.flush
  return value

/-! ## The landing of the language -/

/-- With the landing of the language all is as it is, at one amount of fuel. -/
structure StandardAt (setting : Setting) (fuel : Nat) : Prop where
  evaluate : standard.evaluate setting fuel = TreeScript.evaluate setting fuel
  evaluateAll : standard.evaluateAll setting fuel = TreeScript.evaluateAll setting fuel
  execute : standard.execute setting fuel = TreeScript.execute setting fuel
  repeatWhile : standard.repeatWhile setting fuel = TreeScript.repeatWhile setting fuel
  executeAll : standard.executeAll setting fuel = TreeScript.executeAll setting fuel
  callValue : standard.callValue setting fuel = TreeScript.callValue setting fuel
  runScript : standard.runScript setting fuel = TreeScript.runScript setting fuel

theorem standardAt (setting : Setting) (fuel : Nat) : StandardAt setting fuel := by
  induction fuel with
  | zero =>
    constructor
    · funext scope e
      rw [evaluate, TreeScript.evaluate]
    · funext scope es
      rw [evaluateAll, TreeScript.evaluateAll]
    · funext scope s
      rw [execute, TreeScript.execute]
    · funext scope e s
      rw [repeatWhile, TreeScript.repeatWhile]
    · funext scope ss
      rw [executeAll, TreeScript.executeAll]
    · funext paren f vs
      rw [callValue, TreeScript.callValue]
    · funext paren script
      rw [runScript, TreeScript.runScript]
  | succ fuel ih =>
    constructor
    · funext scope e
      cases e
      all_goals
        simp only [evaluate, TreeScript.evaluate, ih.evaluate, ih.evaluateAll, ih.callValue]
      -- the same matches are left on both sides, each compiled with its own definition
      all_goals rfl
    · funext scope es
      cases es <;> simp only [evaluateAll, TreeScript.evaluateAll, ih.evaluate, ih.evaluateAll]
    · funext scope s
      cases s
      case varDecl name value | giveBack name value =>
        cases value <;> simp only [execute, TreeScript.execute, ih.evaluate]
      case conditional condition whenTrue whenFalse =>
        cases whenFalse <;> simp only [execute, TreeScript.execute, ih.evaluate, ih.execute]
      all_goals
        simp only [execute, TreeScript.execute, ih.evaluate, ih.executeAll, ih.repeatWhile]
    · funext scope e s
      simp only [repeatWhile, TreeScript.repeatWhile, ih.evaluate, ih.execute, ih.repeatWhile]
      all_goals rfl
    · funext scope ss
      cases ss
      all_goals simp only [executeAll, TreeScript.executeAll, ih.execute, ih.executeAll]
      all_goals rfl
    · funext paren f vs
      cases f
      all_goals simp only [callValue, TreeScript.callValue, ih.executeAll, ih.runScript]
      all_goals rfl
    · funext paren script
      cases script
      all_goals simp only [runScript, TreeScript.runScript, ih.callValue, ih.runScript]
      all_goals rfl

theorem standard_runStatements (setting : Setting) (fuel : Nat) (last : Value)
    (statements : List Stmt) :
    standard.runStatements setting fuel last statements =
      TreeScript.runStatements setting fuel last statements := by
  induction statements generalizing last with
  | nil => rfl
  | cons first rest ih =>
    rw [runStatements, TreeScript.runStatements, (standardAt setting fuel).execute]
    simp only [ih]
    rfl

theorem standard_runProgram (setting : Setting) (fuel : Nat) (statements : List Stmt) :
    standard.runProgram setting fuel statements =
      TreeScript.runProgram setting fuel statements := by
  rw [runProgram, TreeScript.runProgram, standard_runStatements]

end Landing

/-! ## Ties -/

/-- Steps that do the same on a machine that is alike itself. -/
def Run.Tied (L : Likeness) {α : Type} (p q : Run α) : Prop :=
  ∀ ⦃m : Machine⦄, m.Alike L m → p m = q m

namespace Run.Tied

variable {L : Likeness} {α β : Type} {P : α → α → Prop}

theorem refl (p : Run α) : p.Tied L p :=
  fun _ _ => rfl

/-- What follows need be tied only for results that are alike themselves. -/
theorem bind {p q : Run α} {f g : α → Run β} (h : p.Tied L q) (hq : q.Alike L P q)
    (hn : ∀ a, P a a → (f a).Tied L (g a)) : Run.Tied L (p >>= f) (q >>= g) := by
  intro m hm
  show Run.bind p f m = Run.bind q g m
  unfold Run.bind
  rw [h hm]
  have hr := hq hm
  generalize q m = r at hr
  cases hr with
  | done ha hm => exact hn _ ha hm
  | failed _ _ => rfl
  | outOfFuel => rfl

/-- After one and the same step. -/
theorem after {q : Run α} {f g : α → Run β} (hq : q.Alike L P q)
    (hn : ∀ a, P a a → (f a).Tied L (g a)) : Run.Tied L (q >>= f) (q >>= g) :=
  bind (refl q) hq hn

theorem attempt {p q : Run α} (h : p.Tied L q) : Run.Tied L (Run.attempt p) (Run.attempt q) := by
  intro m hm
  unfold Run.attempt
  rw [h hm]

end Run.Tied

/-- Results that are known of have what is ensured. -/
theorem Run.Alike.ensured {L : Likeness} {α : Type} {P : α → α → Prop} {E : α → Prop} {p : Run α}
    (h : p.Alike L P p) (he : p.Ensures E) : p.Alike L (fun a b => P a b ∧ E a) p := by
  intro m m' hm
  have hr := h hm
  generalize hp : p m = r at hr
  generalize p m' = r' at hr
  cases hr with
  | done ha hm => exact .done ⟨ha, he _ _ _ hp⟩ hm
  | failed hf hm => exact .failed hf hm
  | outOfFuel => exact .outOfFuel

/-! ## Unexpected flows -/

/-- A landing that makes of a `return`, and of the end of a body or a statement, what the
language makes of them.  What it makes of other flows is free. -/
structure Landing.Expected (landing : Landing) : Prop where
  giveBack : ∀ value, landing.call (.giveBack value) = pure value
  normal : ∀ value, landing.call (.normal value) = pure .nil
  top : ∀ value, landing.top (.normal value) = pure value

namespace Landing

variable {L : Likeness} {landing : Landing} {s : Setting}

/-- Everything does what it does in the language, at one amount of fuel. -/
structure TiedAt (L : Likeness) (landing : Landing) (s : Setting) (fuel : Nat) : Prop where
  evaluate : ∀ scope {e}, e.Alike L e → Run.Tied L (landing.evaluate s fuel scope e)
    (TreeScript.evaluate s fuel scope e)
  evaluateAll : ∀ scope {es}, List.Forall₂ (Expr.Alike L) es es → Run.Tied L
    (landing.evaluateAll s fuel scope es)
    (TreeScript.evaluateAll s fuel scope es)
  execute : ∀ scope {t}, t.Alike L t → Run.Tied L (landing.execute s fuel scope t)
    (TreeScript.execute s fuel scope t)
  repeatWhile : ∀ scope {e t}, e.Alike L e → t.Alike L t → Run.Tied L
    (landing.repeatWhile s fuel scope e t)
    (TreeScript.repeatWhile s fuel scope e t)
  executeAll : ∀ scope {ts}, List.Forall₂ (Stmt.Alike L) ts ts → Run.Tied L
    (landing.executeAll s fuel scope ts)
    (TreeScript.executeAll s fuel scope ts)
  callValue : ∀ {paren f vs}, L.token paren paren → f.Alike L f →
    List.Forall₂ (Value.Alike L) vs vs → Run.Tied L (landing.callValue s fuel paren f vs)
      (TreeScript.callValue s fuel paren f vs)
  runScript : ∀ {paren script}, L.token paren paren → script.Alike L script → Run.Tied L
    (landing.runScript s fuel paren script)
    (TreeScript.runScript s fuel paren script)

namespace TiedAt

variable {fuel : Nat}

theorem zero : TiedAt L landing s 0 := by
  constructor <;> intros
  · rw [Landing.evaluate, TreeScript.evaluate]; exact .refl _
  · rw [Landing.evaluateAll, TreeScript.evaluateAll]; exact .refl _
  · rw [Landing.execute, TreeScript.execute]; exact .refl _
  · rw [Landing.repeatWhile, TreeScript.repeatWhile]; exact .refl _
  · rw [Landing.executeAll, TreeScript.executeAll]; exact .refl _
  · rw [Landing.callValue, TreeScript.callValue]; exact .refl _
  · rw [Landing.runScript, TreeScript.runScript]; exact .refl _

variable (hs : s.Alike L s) (ih : TiedAt L landing s fuel)
include hs ih

theorem evaluate_step (scope : ScopeRef) {e : Expr} (he : e.Alike L e) :
    Run.Tied L (landing.evaluate s (fuel + 1) scope e)
      (TreeScript.evaluate s (fuel + 1) scope e) := by
  have hq {e : Expr} (he : e.Alike L e) := (Run.alikeAt hs fuel).evaluate scope he
  cases he
  all_goals rw [Landing.evaluate, TreeScript.evaluate]
  case grouping he => exact ih.evaluate scope he
  case unary ht he => exact .bind (ih.evaluate scope he) (hq he) fun v _ => .refl _
  case binary ha ht hb =>
    exact .bind (ih.evaluate scope ha) (hq ha) fun v _ =>
      .bind (ih.evaluate scope hb) (hq hb) fun w _ => .refl _
  case logical ha ht hb =>
    refine .bind (ih.evaluate scope ha) (hq ha) fun v _ => ?_
    split
    · exact .refl _
    · exact ih.evaluate scope hb
  case ternary hc ht ha hb =>
    refine .bind (ih.evaluate scope hc) (hq hc) fun v _ => ?_
    split
    · exact ih.evaluate scope ha
    · exact ih.evaluate scope hb
  case assign hi ht he => exact .bind (ih.evaluate scope he) (hq he) fun v _ => .refl _
  case call he ht hes =>
    refine .bind (ih.evaluate scope he) (hq he) fun f hf => ?_
    refine .bind (ih.evaluateAll scope hes) ((Run.alikeAt hs fuel).evaluateAll scope hes)
      fun vs hvs => ?_
    cases f.arity? s with
    | none => exact .refl _
    | some arity =>
      show Run.Tied L (if _ then _ else _) (if _ then _ else _)
      split
      · exact ih.callValue ht hf hvs
      · exact .refl _
  case get he ht => exact .bind (ih.evaluate scope he) (hq he) fun v _ => .refl _
  case set ha ht hb =>
    refine .bind (ih.evaluate scope ha) (hq ha) fun v _ => ?_
    cases v with
    | object address _ => exact .bind (ih.evaluate scope hb) (hq hb) fun w _ => .refl _
    | _ => exact .refl _
  all_goals exact .refl _

theorem evaluateAll_step (scope : ScopeRef) {es : List Expr}
    (hes : List.Forall₂ (Expr.Alike L) es es) :
    Run.Tied L (landing.evaluateAll s (fuel + 1) scope es)
      (TreeScript.evaluateAll s (fuel + 1) scope es) := by
  cases hes with
  | nil =>
    rw [Landing.evaluateAll, TreeScript.evaluateAll]
    exact .refl _
  | cons he hes =>
    rw [Landing.evaluateAll, TreeScript.evaluateAll]
    exact .bind (ih.evaluate scope he) ((Run.alikeAt hs fuel).evaluate scope he) fun v _ =>
      .bind (ih.evaluateAll scope hes) ((Run.alikeAt hs fuel).evaluateAll scope hes)
        fun vs _ => .refl _

theorem execute_step (scope : ScopeRef) {t : Stmt} (ht : t.Alike L t) :
    Run.Tied L (landing.execute s (fuel + 1) scope t)
      (TreeScript.execute s (fuel + 1) scope t) := by
  have hq {e : Expr} (he : e.Alike L e) := (Run.alikeAt hs fuel).evaluate scope he
  cases ht with
  | expression he | print he =>
    rw [Landing.execute, TreeScript.execute]
    exact .bind (ih.evaluate scope he) (hq he) fun v _ => .refl _
  | varDecl ht he | giveBack ht he =>
    cases he with
    | none =>
      rw [Landing.execute, TreeScript.execute]
      exact .refl _
    | some he =>
      rw [Landing.execute, TreeScript.execute]
      exact .bind (ih.evaluate scope he) (hq he) fun v _ => .refl _
  | block hss =>
    rw [Landing.execute, TreeScript.execute]
    exact .after (Run.alike_newScope scope) fun inner _ => ih.executeAll inner hss
  | conditional he hs ho =>
    cases ho with
    | none =>
      rw [Landing.execute, TreeScript.execute]
      refine .bind (ih.evaluate scope he) (hq he) fun v _ => ?_
      split
      · exact ih.execute scope hs
      · exact .refl _
    | some ho =>
      rw [Landing.execute, TreeScript.execute]
      refine .bind (ih.evaluate scope he) (hq he) fun v _ => ?_
      split
      · exact ih.execute scope hs
      · exact ih.execute scope ho
  | loop he hs =>
    rw [Landing.execute, TreeScript.execute]
    exact ih.repeatWhile scope he hs
  | leave _ | function _ | classDecl _ _ =>
    rw [Landing.execute, TreeScript.execute]
    exact .refl _

theorem repeatWhile_step (scope : ScopeRef) {e : Expr} {t : Stmt} (he : e.Alike L e)
    (ht : t.Alike L t) :
    Run.Tied L (landing.repeatWhile s (fuel + 1) scope e t)
      (TreeScript.repeatWhile s (fuel + 1) scope e t) := by
  rw [Landing.repeatWhile, TreeScript.repeatWhile]
  refine .bind (ih.evaluate scope he) ((Run.alikeAt hs fuel).evaluate scope he) fun v _ => ?_
  split
  · refine .bind (ih.execute scope ht) ((Run.alikeAt hs fuel).execute scope ht) fun flow _ => ?_
    cases flow with
    | normal _ => exact ih.repeatWhile scope he ht
    | leave | giveBack _ => exact .refl _
  · exact .refl _

theorem executeAll_step (scope : ScopeRef) {ts : List Stmt}
    (hts : List.Forall₂ (Stmt.Alike L) ts ts) :
    Run.Tied L (landing.executeAll s (fuel + 1) scope ts)
      (TreeScript.executeAll s (fuel + 1) scope ts) := by
  cases hts with
  | nil =>
    rw [Landing.executeAll, TreeScript.executeAll]
    exact .refl _
  | cons ht hts =>
    rw [Landing.executeAll, TreeScript.executeAll]
    refine .bind (ih.execute scope ht) ((Run.alikeAt hs fuel).execute scope ht) fun flow _ => ?_
    cases flow with
    | normal _ => exact ih.executeAll scope hts
    | leave | giveBack _ => exact .refl _

/-- The body of a function without a stray `break` ends in an expected flow. -/
theorem callValue_step (hl : landing.Expected)
    (hf : ∀ d, L.function d → ¬(Node.statements d.body).Leaves) {paren : Token} {f : Value}
    {vs : List Value} (ht : L.token paren paren) (hv : f.Alike L f)
    (hvs : List.Forall₂ (Value.Alike L) vs vs) :
    Run.Tied L (landing.callValue s (fuel + 1) paren f vs)
      (TreeScript.callValue s (fuel + 1) paren f vs) := by
  cases hv
  all_goals simp only [Landing.callValue, TreeScript.callValue]
  case function d identity scope hd =>
    refine .after (Run.alike_newScope scope) fun frame _ => ?_
    refine .after (Run.alike_defineAll frame hd.parameters hvs) fun _ _ => ?_
    have hbody := ((Run.alikeAt hs fuel).executeAll frame hd.body).ensured
      ((Run.ensuresAt s fuel).executeAll frame d.body)
    refine .bind (ih.executeAll frame hd.body) hbody fun flow hflow => ?_
    cases flow with
    | giveBack value => rw [hl.giveBack]; exact .refl _
    | normal value => rw [hl.normal]; exact .refl _
    | leave => exact absurd hflow.2 (hf d hd.function)
  case native host =>
    have hn := hs.natives host.identity
    generalize s.natives[host.identity]? = n at hn
    cases hn with
    | some hn => exact ih.runScript ht (hn.body vs vs hvs)
    | none => exact .refl _
  all_goals exact .refl _

theorem runScript_step {paren : Token} {script : Script} (ht : L.token paren paren)
    (h : script.Alike L script) :
    Run.Tied L (landing.runScript s (fuel + 1) paren script)
      (TreeScript.runScript s (fuel + 1) paren script) := by
  cases h with
  | answer _ | fail _ =>
    rw [Landing.runScript, TreeScript.runScript]
    exact .refl _
  | call hf hvs hok herror =>
    rw [Landing.runScript, TreeScript.runScript]
    refine .bind (.attempt (ih.callValue ht hf hvs))
      (Run.alike_attempt ((Run.alikeAt hs fuel).callValue ht hf hvs)) fun r hr => ?_
    cases hr with
    | ok hv => exact ih.runScript ht (hok _ _ hv)
    | error hd => exact ih.runScript ht (herror _)

end TiedAt

/-- Where no function has a stray `break`, everything does what it does in the language,
whatever is made of unexpected flows. -/
theorem tiedAt (hl : landing.Expected) (hs : s.Alike L s)
    (hf : ∀ d, L.function d → ¬(Node.statements d.body).Leaves) (fuel : Nat) :
    TiedAt L landing s fuel := by
  induction fuel with
  | zero => exact .zero
  | succ fuel ih =>
    exact {
      evaluate := ih.evaluate_step hs
      evaluateAll := ih.evaluateAll_step hs
      execute := ih.execute_step hs
      repeatWhile := ih.repeatWhile_step hs
      executeAll := ih.executeAll_step hs
      callValue := ih.callValue_step hs hl hf
      runScript := ih.runScript_step hs }

/-- So does a program that exposes no `break` and no `return`. -/
theorem runProgram_tied (hl : landing.Expected) (hs : s.Alike L s)
    (hf : ∀ d, L.function d → ¬(Node.statements d.body).Leaves) (fuel : Nat) {ts : List Stmt}
    (hts : List.Forall₂ (Stmt.Alike L) ts ts) (hleave : ¬(Node.statements ts).Leaves)
    (hgive : ¬(Node.statements ts).GivesBack) :
    Run.Tied L (landing.runProgram s fuel ts) (TreeScript.runProgram s fuel ts) := by
  have hrun : ∀ {ts : List Stmt} {last : Value}, List.Forall₂ (Stmt.Alike L) ts ts →
      ¬(Node.statements ts).Leaves → ¬(Node.statements ts).GivesBack → last.Alike L last →
      Run.Tied L (landing.runStatements s fuel last ts)
        (TreeScript.runStatements s fuel last ts) := by
    intro ts
    induction ts with
    | nil => exact fun _ _ _ _ => .refl _
    | cons first rest ih =>
      rintro last (_ | ⟨hfirst, hrest⟩) hleave hgive _
      have hparts : Node.statement first ∈ (Node.statements (first :: rest)).parts ∧
          Node.statements rest ∈ (Node.statements (first :: rest)).parts :=
        ⟨List.mem_cons_self, List.mem_cons_of_mem _ List.mem_cons_self⟩
      rw [Landing.runStatements, TreeScript.runStatements]
      have hflow := ((Run.alikeAt hs fuel).execute globalScope hfirst).ensured
        ((Run.ensuresAt s fuel).execute globalScope first)
      refine .bind ((tiedAt hl hs hf fuel).execute globalScope hfirst) hflow fun flow h => ?_
      cases flow with
      | normal value =>
        rw [hl.top]
        exact ih hrest (fun h => hleave (h.part hparts.2 rfl))
          (fun h => hgive (h.part hparts.2 rfl)) h.1.value
      | giveBack value => exact absurd (Node.GivesBack.part hparts.1 h.2 rfl) hgive
      | leave => exact absurd (Node.Leaves.part hparts.1 h.2 rfl) hleave
  exact .bind (hrun hts hleave hgive .nil) (runStatements_alike hs fuel hts .nil)
    fun _ _ => .refl _

end Landing

end TreeScript
