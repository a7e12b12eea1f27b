import TreeScript.Proofs.Hosting.Dialogues
import TreeScript.Proofs.Running.Landing
import Mathlib

/-!
# Every flow lands where it is expected

A `break` ends the nearest loop and a `return` the current call: no function body ends in a
`break`, and no statement of a program ends in a `break` or a `return`.

* `Landing.run` — runs of a session with a landing
* `Node.Contains`, `Node.Guarded` — where each `break` of a tree stands in a loop of its
  function
* `Program.guarded` — what parses without fault is guarded
* `Run.Interrupts` — what a `break` and a `return` end
* `Reachable.flows_land` — in no run a flow lands where it is not expected
-/

namespace TreeScript

/-! ## Runs with a landing -/

namespace Landing

/-- Runs one source in a session, with a landing. -/
def run (landing : Landing) (session : Session) (fuel : Nat) (source : String) :
    Session × RunEnd :=
  match session.check source with
  | (session, .error diagnostics) => (session, .reported (.failure diagnostics))
  | (session, .ok statements) =>
    let interpreter := session.interpreter
    match landing.runProgram interpreter.setting fuel statements interpreter.machine with
    | .done value machine =>
      (session.withMachine machine,
        .reported { value := Session.reportedValue statements value, diagnostics := [] })
    | .failed (.diagnosed diagnostic) machine =>
      (session.withMachine machine, .reported (.failure [diagnostic]))
    | .failed (.broken cause) machine => (session.withMachine machine, .broken cause)
    | .outOfFuel => (session, .outOfFuel)

/-- Programs that do the same make the same runs. -/
theorem run_eq {landing : Landing} {session : Session} {fuel : Nat} {source : String}
    (h : ∀ program, (session.check source).2 = .ok program →
      let interpreter := (session.check source).1.interpreter
      landing.runProgram interpreter.setting fuel program interpreter.machine =
        TreeScript.runProgram interpreter.setting fuel program interpreter.machine) :
    landing.run session fuel source = session.run fuel source := by
  unfold run Session.run
  generalize session.check source = result at h
  obtain ⟨s, diagnostics | program⟩ := result
  · rfl
  · simp only [h program rfl, Interpreter.run]
    all_goals rfl

/-- With the landing of the language these are the runs of the session. -/
theorem run_standard (session : Session) (fuel : Nat) (source : String) :
    standard.run session fuel source = session.run fuel source :=
  run_eq fun program _ => congrFun (standard_runProgram _ fuel program) _

end Landing

/-! ## Guarded trees -/

/-- A node stands somewhere in another one. -/
def Node.Contains (node inner : Node) : Prop :=
  node.Exposes (fun _ => false) inner

/-- Each `break` in a node stands in a loop, with no function between them. -/
structure Node.Guarded (node : Node) : Prop where
  here : ¬node.Leaves
  functions : ∀ f, node.Contains (.function f) → ¬(Node.statements f.body).Leaves

/-- A node that is alike itself. -/
inductive Node.Known (L : Likeness) : Node → Prop
  | expression {e : Expr} : e.Alike L e → Node.Known L (.expression e)
  | statement {s : Stmt} : s.Alike L s → Node.Known L (.statement s)
  | statements {ss : List Stmt} : List.Forall₂ (Stmt.Alike L) ss ss →
      Node.Known L (.statements ss)
  | function {d : FunctionDecl} : d.Alike L d → Node.Known L (.function d)

namespace Node.Known

variable {L : Likeness} {node inner p : Node}

theorem expression_part {e : Expr} (h : e.Alike L e) (hp : p ∈ e.parts) : p.Known L := by
  cases h
  all_goals
    simp only [Expr.parts, List.mem_cons, List.mem_map, List.not_mem_nil, or_false] at hp
  case grouping h | unary h | assign h | get h _ =>
    subst hp
    exact .expression h
  case binary ha _ hb | logical ha _ hb | set ha _ hb =>
    rcases hp with rfl | rfl
    · exact .expression ha
    · exact .expression hb
  case ternary hc _ ha hb =>
    rcases hp with rfl | rfl | rfl
    · exact .expression hc
    · exact .expression ha
    · exact .expression hb
  case call he _ hes =>
    rcases hp with rfl | ⟨e, hm, rfl⟩
    · exact .expression he
    · exact .expression (List.forall₂_same.1 hes e hm)
  case function h =>
    subst hp
    exact .function h

theorem statement_part {s : Stmt} (h : s.Alike L s) (hp : p ∈ (Node.statement s).parts) :
    p.Known L := by
  cases h with
  | varDecl _ ho | giveBack _ ho =>
    cases ho with
    | none => cases hp
    | some h =>
      obtain rfl := List.mem_singleton.1 hp
      exact .expression h
  | expression h | print h =>
    obtain rfl := List.mem_singleton.1 hp
    exact .expression h
  | block h =>
    obtain rfl := List.mem_singleton.1 hp
    exact .statements h
  | conditional hc ht ho =>
    cases ho with
    | none =>
      rcases List.mem_pair.1 hp with rfl | rfl
      · exact .expression hc
      · exact .statement ht
    | some hf =>
      rcases List.mem_cons.1 hp with rfl | hp
      · exact .expression hc
      · rcases List.mem_pair.1 hp with rfl | rfl
        · exact .statement ht
        · exact .statement hf
  | loop hc hs =>
    rcases List.mem_pair.1 hp with rfl | rfl
    · exact .expression hc
    · exact .statement hs
  | leave _ => cases hp
  | function h =>
    obtain rfl := List.mem_singleton.1 hp
    exact .function h
  | classDecl _ hds =>
    rw [Node.parts, Visit.children, Stmt.visits, List.map_map] at hp
    obtain ⟨d, hd, rfl⟩ := List.mem_map.1 hp
    exact .function (List.forall₂_same.1 hds d hd)

theorem part (h : node.Known L) (hp : p ∈ node.parts) : p.Known L := by
  cases h with
  | expression h =>
    rw [Node.parts, Visit.children, Tidy.parts_map] at hp
    exact expression_part h hp
  | statement h => exact statement_part h hp
  | statements h =>
    cases h with
    | nil => cases hp
    | cons hs hss =>
      rcases List.mem_pair.1 hp with rfl | rfl
      · exact .statement hs
      · exact .statements hss
  | function h =>
    cases h with
    | mk _ _ _ hb =>
      obtain rfl := List.mem_singleton.1 hp
      exact .statements hb

theorem contains (h : node.Known L) (hi : node.Contains inner) : inner.Known L := by
  induction hi with
  | here => exact h
  | part _ hp _ ih => exact ih (h.part hp)

end Node.Known

/-- What parses without fault is guarded. -/
theorem Program.guarded {tokens : List Token} {firstId : ReferenceId}
    (h : (Program.ofTokens tokens firstId).diagnostics = []) :
    (Node.statements (Program.ofTokens tokens firstId).statements).Guarded := by
  obtain ⟨rest, hd⟩ := Program.derives_of_diagnostics h
  let L : Likeness :=
    { token := fun _ _ => True, id := fun _ _ => True
      function := fun f => ¬(Node.statements f.body).Leaves }
  have hknown : List.Forall₂ (Stmt.Alike L) _ _ :=
    derives_alike not_leaves_of_derives hd ⟨fun _ _ => trivial, fun _ _ _ => trivial⟩
  refine ⟨still_of_derives hd rfl _ (List.mem_singleton.2 rfl), fun f hf => ?_⟩
  cases (Node.Known.statements hknown).contains hf with
  | function hf => exact hf.function

/-- What is resolved without fault has each `return` in a function. -/
theorem resolveProgram_givesBack {program : List Stmt}
    (h : (resolveProgram program).diagnostics = []) : ¬(Node.statements program).GivesBack :=
  fun hg => Visit.fault_of_givesBack (v := Visit.root program) hg rfl h

/-! ## What a flow ends -/

/-- What a `break` and a `return` end.  A sequence is left where a statement does not fall
through; a loop ends with the `break` of its body, and is left with a `return`; a call
answers what is given back. -/
structure Run.Interrupts (setting : Setting) : Prop where
  sequence : ∀ {fuel scope first rest m flow m'}, (∀ value, flow ≠ .normal value) →
    execute setting fuel scope first m = .done flow m' →
    executeAll setting (fuel + 1) scope (first :: rest) m = .done flow m'
  leave : ∀ {fuel scope condition body m decision m₁ m₂},
    evaluate setting fuel scope condition m = .done decision m₁ → decision.isTruthy = true →
    execute setting fuel scope body m₁ = .done .leave m₂ →
    execute setting (fuel + 2) scope (.loop condition body) m = .done (.normal .nil) m₂
  giveBack : ∀ {fuel scope condition body m decision m₁ value m₂},
    evaluate setting fuel scope condition m = .done decision m₁ → decision.isTruthy = true →
    execute setting fuel scope body m₁ = .done (.giveBack value) m₂ →
    execute setting (fuel + 2) scope (.loop condition body) m = .done (.giveBack value) m₂
  call : ∀ {fuel paren closure arguments m frame m₁ m₂ value m₃},
    Run.newScope closure.scope m = .done frame m₁ →
    Run.defineAll frame closure.declaration.parameters arguments m₁ = .done () m₂ →
    executeAll setting fuel frame closure.declaration.body m₂ = .done (.giveBack value) m₃ →
    callValue setting (fuel + 1) paren (.function closure) arguments m = .done value m₃

theorem Run.bind_done {α β : Type} {p : Run α} {f : α → Run β} {m m' : Machine} {a : α}
    (h : p m = .done a m') : (p >>= f) m = f a m' := by
  show Run.bind p f m = f a m'
  unfold Run.bind
  rw [h]

theorem Run.interrupts (setting : Setting) : Run.Interrupts setting where
  sequence {fuel scope first rest m flow m'} hflow h := by
    rw [executeAll, Run.bind_done h]
    cases flow with
    | normal value => exact absurd rfl (hflow value)
    | leave | giveBack _ => rfl
  leave hc ht hb := by
    rw [execute, repeatWhile, Run.bind_done hc, if_pos ht, Run.bind_done hb]
    rfl
  giveBack hc ht hb := by
    rw [execute, repeatWhile, Run.bind_done hc, if_pos ht, Run.bind_done hb]
    rfl
  call hs hd hb := by
    rw [callValue, Run.bind_done hs, Run.bind_done hd, Run.bind_done hb]
    rfl

/-! ## Landings in dialogues -/

namespace Dialogue

variable {d : Dialogue}

/-- Every flow lands where it is expected.  Whatever a landing makes of a `break` that a
function body ends in, and of a `break` or a `return` that a statement of a program ends in,
all runs are the same; for each `break` of a program that parses stands in a loop of its
function, each `return` of a program that is resolved stands in a function, statements end in
flows that come from what they expose, and these end the nearest loop and the call. -/
theorem Reachable.flows_land (h : d.Reachable) (fuel : Nat) (source : String) :
    (∀ session : Session, Landing.standard.run session fuel source = session.run fuel source) ∧
    (∀ landing : Landing, landing.Expected →
      landing.run d.session fuel source = d.session.run fuel source) ∧
    (∀ tokens firstId, (Program.ofTokens tokens firstId).diagnostics = [] →
      (Node.statements (Program.ofTokens tokens firstId).statements).Guarded) ∧
    (∀ program, (resolveProgram program).diagnostics = [] →
      ¬(Node.statements program).GivesBack) ∧
    ∀ setting, Run.Interrupts setting ∧ ∀ fuel scope s,
      (execute setting fuel scope s).Ensures (Flow.From (.statement s)) := by
  refine ⟨fun session => Landing.run_standard session fuel source, fun landing hl => ?_,
    fun _ _ => Program.guarded, fun _ => resolveProgram_givesBack,
    fun setting => ⟨Run.interrupts setting, fun fuel => (Run.ensuresAt setting fuel).execute⟩⟩
  refine Landing.run_eq fun program hc => ?_
  have haccepted := Session.accepted_of_check hc
  obtain ⟨rest, hd⟩ := haccepted.derives
  have hchecked := h.settled.checked source
  exact Landing.runProgram_tied hl (hchecked.setting And.left hchecked.handed) (fun _ hf => hf)
    fuel (known_program hc) (still_of_derives hd rfl _ (List.mem_singleton.2 rfl))
    (resolveProgram_givesBack haccepted.resolved) hchecked.machine

/-- The landing that raises an alarm where a flow is not expected. -/
def alarm : Landing where
  call
    | .giveBack value => pure value
    | .normal _ => pure .nil
    | .leave => .fail (.broken (.undeclared "break" 0))
  top
    | .normal value => pure value
    | .giveBack _ => .fail (.broken (.undeclared "return" 0))
    | .leave => .fail (.broken (.undeclared "break" 0))

/-- A loop that is left in a function. -/
def leftLoop : String :=
  "fun f() \x7b while (true) break; return true; \x7d f();"

theorem flows_land_leftLoop :
    (Dialogue.fresh .standard .unlimited 0).Reachable ∧ alarm.Expected ∧
    alarm.run (Session.create .standard .unlimited 0) 12 leftLoop =
      (Session.create .standard .unlimited 0).run 12 leftLoop ∧
    ((Session.create .standard .unlimited 0).run 12 leftLoop).2 =
      .reported { value := some (.bool true), diagnostics := [] } := by
  have hexpected : alarm.Expected := ⟨fun _ => rfl, fun _ => rfl, fun _ => rfl⟩
  refine ⟨.fresh .standard .unlimited 0, hexpected, ?_, by cbv⟩
  exact (Reachable.flows_land (.fresh .standard .unlimited 0) 12 leftLoop).2.1 alarm hexpected

end Dialogue

end TreeScript
