import TreeScript.Session
import Mathlib.Tactic.Common

/-!
# Fuel

* `Run.Below` — a step that ends as another one does, unless it runs out of fuel
* `Run.belowAt` — more fuel changes no answer but that there is no fuel
* `Session.run_of_le` — a run that ends in time ends in the same way with more fuel
-/

namespace TreeScript

/-! ## Steps -/

/-- A step that ends as another one does, unless it runs out of fuel. -/
def Run.Below {α : Type} (p q : Run α) : Prop :=
  ∀ m, p m ≠ .outOfFuel → q m = p m

namespace Run.Below

variable {α β : Type}

theorem refl (p : Run α) : p.Below p :=
  fun _ _ => rfl

theorem stuck (p : Run α) : Run.stuck.Below p :=
  fun _ h => absurd rfl h

theorem bind {p q : Run α} {f g : α → Run β} (h : p.Below q) (hn : ∀ a, (f a).Below (g a)) :
    Run.Below (p >>= f) (q >>= g) := by
  intro m hm
  show Run.bind q g m = Run.bind p f m
  replace hm : Run.bind p f m ≠ .outOfFuel := hm
  unfold Run.bind at hm ⊢
  have hq := h m
  cases hp : p m with
  | done a m' =>
    rw [hp] at hm hq
    rw [hq nofun]
    exact hn a m' hm
  | failed f m' =>
    rw [hp] at hq
    rw [hq nofun]
  | outOfFuel =>
    rw [hp] at hm
    exact absurd rfl hm

theorem attempt {p q : Run α} (h : p.Below q) : Run.Below (attempt p) (attempt q) := by
  intro m hm
  unfold Run.attempt at hm ⊢
  have hq := h m
  cases hp : p m with
  | outOfFuel =>
    rw [hp] at hm
    exact absurd rfl hm
  | done _ _ | failed _ _ =>
    rw [hp] at hq
    rw [hq nofun]

end Run.Below

namespace Run

variable {setting : Setting}

/-- Everything at one amount of fuel ends as it does with another one. -/
structure BelowAt (setting : Setting) (fuel more : Nat) : Prop where
  evaluate : ∀ scope e, Run.Below (evaluate setting fuel scope e)
    (evaluate setting more scope e)
  evaluateAll : ∀ scope es, Run.Below (evaluateAll setting fuel scope es)
    (evaluateAll setting more scope es)
  execute : ∀ scope s, Run.Below (execute setting fuel scope s)
    (execute setting more scope s)
  repeatWhile : ∀ scope e s, Run.Below (repeatWhile setting fuel scope e s)
    (repeatWhile setting more scope e s)
  executeAll : ∀ scope ss, Run.Below (executeAll setting fuel scope ss)
    (executeAll setting more scope ss)
  callValue : ∀ paren f vs, Run.Below (callValue setting fuel paren f vs)
    (callValue setting more paren f vs)
  runScript : ∀ paren script, Run.Below (runScript setting fuel paren script)
    (runScript setting more paren script)

namespace BelowAt

variable {fuel more : Nat}

theorem zero (setting : Setting) (more : Nat) :
    BelowAt setting 0 more where
  evaluate _ _ := by rw [TreeScript.evaluate]; exact .stuck _
  evaluateAll _ _ := by rw [TreeScript.evaluateAll]; exact .stuck _
  execute _ _ := by rw [TreeScript.execute]; exact .stuck _
  repeatWhile _ _ _ := by rw [TreeScript.repeatWhile]; exact .stuck _
  executeAll _ _ := by rw [TreeScript.executeAll]; exact .stuck _
  callValue _ _ _ := by rw [TreeScript.callValue]; exact .stuck _
  runScript _ _ := by rw [TreeScript.runScript]; exact .stuck _

theorem evaluate_step (ih : BelowAt setting fuel more) (scope : ScopeRef) (e : Expr) :
    Run.Below (TreeScript.evaluate setting (fuel + 1) scope e)
      (TreeScript.evaluate setting (more + 1) scope e) := by
  cases e
  all_goals rw [TreeScript.evaluate, TreeScript.evaluate]
  case constant value => exact .refl _
  case grouping inner => exact ih.evaluate scope inner
  case unary operator operand => exact .bind (ih.evaluate scope operand) fun _ => .refl _
  case binary left operator right =>
    exact .bind (ih.evaluate scope left) fun _ => .bind (ih.evaluate scope right) fun _ => .refl _
  case logical left operator right =>
    refine .bind (ih.evaluate scope left) fun a => ?_
    split
    · exact .refl _
    · exact ih.evaluate scope right
  case ternary condition question whenTrue whenFalse =>
    refine .bind (ih.evaluate scope condition) fun decision => ?_
    split
    · exact ih.evaluate scope whenTrue
    · exact ih.evaluate scope whenFalse
  case «variable» id name => exact .refl _
  case assign id name value => exact .bind (ih.evaluate scope value) fun _ => .refl _
  case call callee paren arguments =>
    refine .bind (ih.evaluate scope callee) fun f => ?_
    refine .bind (ih.evaluateAll scope arguments) fun values => ?_
    split
    · exact .refl _
    · split
      · exact ih.callValue paren f values
      · exact .refl _
  case get object name => exact .bind (ih.evaluate scope object) fun _ => .refl _
  case set object name value =>
    refine .bind (ih.evaluate scope object) fun target => ?_
    split
    · exact .bind (ih.evaluate scope value) fun _ => .refl _
    · exact .refl _
  case self id keyword => exact .refl _
  case function declaration => exact .refl _

theorem evaluateAll_step (ih : BelowAt setting fuel more) (scope : ScopeRef)
    (es : List Expr) :
    Run.Below (TreeScript.evaluateAll setting (fuel + 1) scope es)
      (TreeScript.evaluateAll setting (more + 1) scope es) := by
  cases es with
  | nil =>
    rw [TreeScript.evaluateAll, TreeScript.evaluateAll]
    exact .refl _
  | cons first rest =>
    rw [TreeScript.evaluateAll, TreeScript.evaluateAll]
    exact .bind (ih.evaluate scope first) fun _ =>
      .bind (ih.evaluateAll scope rest) fun _ => .refl _

theorem execute_step (ih : BelowAt setting fuel more) (scope : ScopeRef) (s : Stmt) :
    Run.Below (TreeScript.execute setting (fuel + 1) scope s)
      (TreeScript.execute setting (more + 1) scope s) := by
  match s with
  | .expression value | .print value | .varDecl _ (some value) | .giveBack _ (some value) =>
    rw [TreeScript.execute, TreeScript.execute]
    exact .bind (ih.evaluate scope value) fun _ => .refl _
  | .varDecl _ none | .leave _ | .function _ | .giveBack _ none | .classDecl _ _ =>
    rw [TreeScript.execute, TreeScript.execute]
    exact .refl _
  | .block body =>
    rw [TreeScript.execute, TreeScript.execute]
    exact .bind (.refl _) fun inner => ih.executeAll inner body
  | .conditional condition whenTrue none =>
    rw [TreeScript.execute, TreeScript.execute]
    refine .bind (ih.evaluate scope condition) fun decision => ?_
    split
    · exact ih.execute scope whenTrue
    · exact .refl _
  | .conditional condition whenTrue (some whenFalse) =>
    rw [TreeScript.execute, TreeScript.execute]
    refine .bind (ih.evaluate scope condition) fun decision => ?_
    split
    · exact ih.execute scope whenTrue
    · exact ih.execute scope whenFalse
  | .loop condition body =>
    rw [TreeScript.execute, TreeScript.execute]
    exact ih.repeatWhile scope condition body

theorem repeatWhile_step (ih : BelowAt setting fuel more) (scope : ScopeRef)
    (condition : Expr) (body : Stmt) :
    Run.Below (TreeScript.repeatWhile setting (fuel + 1) scope condition body)
      (TreeScript.repeatWhile setting (more + 1) scope condition body) := by
  rw [TreeScript.repeatWhile, TreeScript.repeatWhile]
  refine .bind (ih.evaluate scope condition) fun decision => ?_
  split
  · refine .bind (ih.execute scope body) fun flow => ?_
    split
    · exact ih.repeatWhile scope condition body
    · exact .refl _
    · exact .refl _
  · exact .refl _

theorem executeAll_step (ih : BelowAt setting fuel more) (scope : ScopeRef)
    (ss : List Stmt) :
    Run.Below (TreeScript.executeAll setting (fuel + 1) scope ss)
      (TreeScript.executeAll setting (more + 1) scope ss) := by
  cases ss with
  | nil =>
    rw [TreeScript.executeAll, TreeScript.executeAll]
    exact .refl _
  | cons first rest =>
    rw [TreeScript.executeAll, TreeScript.executeAll]
    refine .bind (ih.execute scope first) fun flow => ?_
    split
    · exact ih.executeAll scope rest
    · exact .refl _

theorem callValue_step (ih : BelowAt setting fuel more) (paren : Token) (f : Value)
    (vs : List Value) :
    Run.Below (TreeScript.callValue setting (fuel + 1) paren f vs)
      (TreeScript.callValue setting (more + 1) paren f vs) := by
  cases f
  all_goals simp only [TreeScript.callValue]
  case function closure =>
    exact .bind (.refl _) fun frame => .bind (.refl _) fun _ =>
      .bind (ih.executeAll frame _) fun _ => .refl _
  case native host =>
    split
    · exact ih.runScript paren _
    · exact .refl _
  all_goals exact .refl _

theorem runScript_step (ih : BelowAt setting fuel more) (paren : Token)
    (script : Script) :
    Run.Below (TreeScript.runScript setting (fuel + 1) paren script)
      (TreeScript.runScript setting (more + 1) paren script) := by
  cases script
  all_goals rw [TreeScript.runScript, TreeScript.runScript]
  case call callee arguments next =>
    refine .bind (ih.callValue paren callee arguments).attempt fun result => ?_
    split
    · exact ih.runScript paren _
    · exact ih.runScript paren _
  all_goals exact .refl _

end BelowAt

/-- More fuel changes no answer but that there is no fuel. -/
theorem belowAt (setting : Setting) {fuel more : Nat} (h : fuel ≤ more) :
    BelowAt setting fuel more := by
  induction fuel generalizing more with
  | zero => exact .zero setting more
  | succ fuel ih =>
    obtain ⟨more, rfl⟩ : ∃ n, more = n + 1 := ⟨more - 1, by omega⟩
    have ih := ih (Nat.le_of_succ_le_succ h)
    exact {
      evaluate := ih.evaluate_step
      evaluateAll := ih.evaluateAll_step
      execute := ih.execute_step
      repeatWhile := ih.repeatWhile_step
      executeAll := ih.executeAll_step
      callValue := ih.callValue_step
      runScript := ih.runScript_step }

end Run

/-! ## Programs -/

theorem runStatements_below (setting : Setting) {fuel more : Nat}
    (h : fuel ≤ more) (last : Value) (statements : List Stmt) :
    Run.Below (runStatements setting fuel last statements)
      (runStatements setting more last statements) := by
  induction statements generalizing last with
  | nil => exact .refl _
  | cons first rest ih =>
    exact .bind ((Run.belowAt setting h).execute _ first) fun _ => ih _

theorem runProgram_below (setting : Setting) {fuel more : Nat}
    (h : fuel ≤ more) (statements : List Stmt) :
    Run.Below (runProgram setting fuel statements)
      (runProgram setting more statements) :=
  .bind (runStatements_below setting h .nil statements) fun _ => .refl _

theorem Interpreter.run_of_le (interpreter : Interpreter) {fuel more : Nat} (h : fuel ≤ more)
    {statements : List Stmt} (ht : interpreter.run fuel statements ≠ .outOfFuel) :
    interpreter.run more statements = interpreter.run fuel statements :=
  runProgram_below interpreter.setting h statements interpreter.machine ht

/-- A run that ends in time ends in the same way with more fuel. -/
theorem Session.run_of_le (session : Session) {fuel more : Nat} (h : fuel ≤ more)
    (source : String) (ht : (session.run fuel source).2 ≠ .outOfFuel) :
    session.run more source = session.run fuel source := by
  unfold Session.run at ht ⊢
  generalize session.check source = result at ht ⊢
  rcases result with ⟨session, diagnostics | statements⟩
  · rfl
  · simp only at ht ⊢
    rw [session.interpreter.run_of_le h]
    intro ho
    rw [ho] at ht
    exact ht rfl

end TreeScript
