import TreeScript.Session
import TreeScript.Proofs.Scoping.Parsed

/-!
# Where flows come from

* `Node.Exposes` — a node stands in another one, with nothing on the way that stops a flow
* `Node.Leaves`, `Node.GivesBack` — a `break` is exposed by loops and functions only, a
  `return` by functions only
* `Flow.From` — a flow in which a node can end
* `Run.ensuresAt` — every node ends in such a flow
* `still_of_derives` — outside of the loops of its function, what parses exposes no `break`
* `Visit.fault_of_givesBack` — outside of all functions, a `return` is a fault of scoping
-/

namespace TreeScript

/-! ## What stands in a node -/

/-- Whether a node is a loop. -/
def Node.isLoop : Node → Bool
  | .statement (.loop ..) => true
  | _ => false

/-- Whether a node is a function. -/
def Node.isFunction : Node → Bool
  | .function _ => true
  | _ => false

/-- Whether a node ends the flow of a `break`. -/
def Node.holdsLeave (node : Node) : Bool :=
  node.isLoop || node.isFunction

/-- A node stands in another one, with no stop on the way. -/
inductive Node.Exposes (stop : Node → Bool) : Node → Node → Prop
  | here (node : Node) : Node.Exposes stop node node
  | part {node part inner : Node} : stop node = false → part ∈ node.parts →
      part.Exposes stop inner → Node.Exposes stop node inner

/-- A `break` stands in a node, with no loop and no function around it there. -/
def Node.Leaves (node : Node) : Prop :=
  ∃ keyword, node.Exposes Node.holdsLeave (.statement (.leave keyword))

/-- A `return` stands in a node, with no function around it there. -/
def Node.GivesBack (node : Node) : Prop :=
  ∃ keyword value, node.Exposes Node.isFunction (.statement (.giveBack keyword value))

theorem Node.Leaves.part {node part : Node} (hp : part ∈ node.parts) (h : part.Leaves)
    (hn : node.holdsLeave = false) : node.Leaves := by
  obtain ⟨keyword, h⟩ := h
  exact ⟨keyword, .part hn hp h⟩

theorem Node.GivesBack.part {node part : Node} (hp : part ∈ node.parts) (h : part.GivesBack)
    (hn : node.isFunction = false) : node.GivesBack := by
  obtain ⟨keyword, value, h⟩ := h
  exact ⟨keyword, value, .part hn hp h⟩

/-! ## Flows of nodes -/

/-- A flow in which a node can end: a `break` or a `return` that the node exposes. -/
def Flow.From (node : Node) : Flow → Prop
  | .normal _ => True
  | .giveBack _ => node.GivesBack
  | .leave => node.Leaves

theorem Flow.From.part {node part : Node} {flow : Flow} (hp : part ∈ node.parts)
    (h : flow.From part) (hn : node.holdsLeave = false) : flow.From node := by
  cases flow with
  | normal _ => trivial
  | giveBack _ => exact Node.GivesBack.part hp h (Bool.or_eq_false_iff.1 hn).2
  | leave => exact Node.Leaves.part hp h hn

/-- A step of which every result has a property. -/
def Run.Ensures {α : Type} (p : Run α) (P : α → Prop) : Prop :=
  ∀ m a m', p m = .done a m' → P a

namespace Run.Ensures

variable {α β : Type} {P : α → Prop} {Q : β → Prop}

theorem pure {a : α} (h : P a) : Run.Ensures (Pure.pure a) P := by
  rintro m _ _ ⟨⟩
  exact h

theorem stuck : Run.Ensures (Run.stuck : Run α) P :=
  nofun

theorem bind {p : Run α} {f : α → Run β} (h : p.Ensures P)
    (hn : ∀ a, P a → (f a).Ensures Q) : Run.Ensures (p >>= f) Q := by
  intro m b m' hb
  replace hb : Run.bind p f m = .done b m' := hb
  unfold Run.bind at hb
  cases hp : p m with
  | done a m₁ =>
    rw [hp] at hb
    exact hn a (h m a m₁ hp) m₁ b m' hb
  | failed _ _ | outOfFuel =>
    rw [hp] at hb
    cases hb

theorem imp {p : Run α} {P' : α → Prop} (h : p.Ensures P) (hP : ∀ a, P a → P' a) :
    p.Ensures P' :=
  fun m a m' ha => hP a (h m a m' ha)

/-- Nothing need be known of the first step. -/
theorem after {p : Run α} {f : α → Run β} (hn : ∀ a, (f a).Ensures Q) :
    Run.Ensures (p >>= f) Q :=
  bind (P := fun _ => True) (fun _ _ _ _ => trivial) fun a _ => hn a

end Run.Ensures

namespace Run

/-- Statements end in flows that come from them, at one amount of fuel. -/
structure EnsuresAt (setting : Setting) (fuel : Nat) : Prop where
  execute : ∀ scope s, (execute setting fuel scope s).Ensures (Flow.From (.statement s))
  repeatWhile : ∀ scope e s, (repeatWhile setting fuel scope e s).Ensures
    (Flow.From (.statement (.loop e s)))
  executeAll : ∀ scope ss, (executeAll setting fuel scope ss).Ensures
    (Flow.From (.statements ss))

namespace EnsuresAt

variable {setting : Setting} {fuel : Nat}

theorem zero (setting : Setting) : EnsuresAt setting 0 where
  execute _ _ := by rw [TreeScript.execute]; exact .stuck
  repeatWhile _ _ _ := by rw [TreeScript.repeatWhile]; exact .stuck
  executeAll _ _ := by rw [TreeScript.executeAll]; exact .stuck

theorem execute_step (ih : EnsuresAt setting fuel) (scope : ScopeRef) (s : Stmt) :
    (TreeScript.execute setting (fuel + 1) scope s).Ensures (Flow.From (.statement s)) := by
  match s with
  | .expression _ | .varDecl _ none =>
    rw [TreeScript.execute]
    exact .after fun _ => .pure trivial
  | .print _ | .varDecl _ (some _) | .function _ | .classDecl _ _ =>
    rw [TreeScript.execute]
    exact .after fun _ => .after fun _ => .pure trivial
  | .block body =>
    rw [TreeScript.execute]
    exact .after fun inner => (ih.executeAll inner body).imp fun flow h =>
      h.part List.mem_cons_self rfl
  | .conditional condition whenTrue none =>
    rw [TreeScript.execute]
    refine .after fun decision => ?_
    split
    · exact (ih.execute scope whenTrue).imp fun flow h =>
        h.part (List.mem_cons_of_mem _ List.mem_cons_self) rfl
    · exact .pure trivial
  | .conditional condition whenTrue (some whenFalse) =>
    rw [TreeScript.execute]
    refine .after fun decision => ?_
    split
    · exact (ih.execute scope whenTrue).imp fun flow h =>
        h.part (List.mem_cons_of_mem _ List.mem_cons_self) rfl
    · exact (ih.execute scope whenFalse).imp fun flow h =>
        h.part (List.mem_cons_of_mem _ (List.mem_cons_of_mem _ List.mem_cons_self)) rfl
  | .loop condition body =>
    rw [TreeScript.execute]
    exact ih.repeatWhile scope condition body
  | .leave keyword =>
    rw [TreeScript.execute]
    exact .pure ⟨keyword, .here _⟩
  | .giveBack keyword none =>
    rw [TreeScript.execute]
    exact .pure ⟨keyword, none, .here _⟩
  | .giveBack keyword (some value) =>
    rw [TreeScript.execute]
    exact .after fun _ => .pure ⟨keyword, some value, .here _⟩

/-- A loop takes the `break` of its body and hands on its `return`. -/
theorem repeatWhile_step (ih : EnsuresAt setting fuel) (scope : ScopeRef)
    (condition : Expr) (body : Stmt) :
    (TreeScript.repeatWhile setting (fuel + 1) scope condition body).Ensures
      (Flow.From (.statement (.loop condition body))) := by
  rw [TreeScript.repeatWhile]
  refine .after fun decision => ?_
  split
  · refine .bind (ih.execute scope body) fun flow h => ?_
    cases flow with
    | normal _ => exact ih.repeatWhile scope condition body
    | leave => exact .pure trivial
    | giveBack value =>
      exact .pure (Node.GivesBack.part (List.mem_cons_of_mem _ List.mem_cons_self) h rfl)
  · exact .pure trivial

theorem executeAll_step (ih : EnsuresAt setting fuel) (scope : ScopeRef)
    (ss : List Stmt) :
    (TreeScript.executeAll setting (fuel + 1) scope ss).Ensures (Flow.From (.statements ss)) := by
  cases ss with
  | nil =>
    rw [TreeScript.executeAll]
    exact .pure trivial
  | cons first rest =>
    rw [TreeScript.executeAll]
    refine .bind (ih.execute scope first) fun flow h => ?_
    have hfirst : flow.From (.statements (first :: rest)) := h.part List.mem_cons_self rfl
    cases flow with
    | normal _ =>
      exact (ih.executeAll scope rest).imp fun flow h =>
        h.part (List.mem_cons_of_mem _ List.mem_cons_self) rfl
    | leave | giveBack _ => exact .pure hfirst

end EnsuresAt

/-- Statements end in flows that come from them. -/
theorem ensuresAt (setting : Setting) (fuel : Nat) :
    EnsuresAt setting fuel := by
  induction fuel with
  | zero => exact .zero setting
  | succ fuel ih =>
    exact {
      execute := ih.execute_step
      repeatWhile := ih.repeatWhile_step
      executeAll := ih.executeAll_step }

end Run

/-! ## What parses -/

/-- Whether a node is a statement, or several. -/
def Node.isStatement : Node → Bool
  | .statement _ | .statements _ => true
  | _ => false

theorem Expr.isStatement_parts {e : Expr} {part : Node} (h : part ∈ e.parts) :
    part.isStatement = false := by
  fun_cases Expr.parts e <;>
    simp only [Expr.parts, List.mem_cons, List.mem_map, List.not_mem_nil, or_false] at h
  case case10 callee paren arguments =>
    rcases h with rfl | ⟨e, -, rfl⟩ <;> rfl
  all_goals rcases h with rfl | rfl | rfl <;> rfl

/-- An expression exposes no statement. -/
theorem Node.Exposes.isStatement {stop : Node → Bool}
    (hstop : ∀ node : Node, node.isFunction = true → stop node = true) {node inner : Node}
    (h : node.Exposes stop inner) (hn : node.isStatement = false) :
    inner.isStatement = false := by
  induction h with
  | here => exact hn
  | @part node part _ hs hp _ ih =>
    refine ih ?_
    cases node with
    | expression e =>
      rw [Node.parts, Visit.children, Tidy.parts_map] at hp
      exact Expr.isStatement_parts hp
    | function d =>
      rw [hstop _ rfl] at hs
      cases hs
    | statement _ | statements _ => cases hn

theorem Node.not_leaves_of_isStatement {node : Node} (hn : node.isStatement = false) :
    ¬node.Leaves := by
  rintro ⟨keyword, h⟩
  have := h.isStatement (fun node hf => by rw [Node.holdsLeave, hf, Bool.or_true]) hn
  cases this

/-- Whether a node is a `break`. -/
def Node.isLeave : Node → Bool
  | .statement (.leave _) => true
  | _ => false

/-- Whether a symbol stands in a loop of its function. -/
def Symbol.inLoop : Symbol → Bool
  | .declarations inLoop | .declaration inLoop | .statement inLoop _ => inLoop
  | _ => false

/-- None of the nodes exposes a `break`. -/
def Still (nodes : List Node) : Prop :=
  ∀ node ∈ nodes, ¬node.Leaves

namespace Still

variable {xs ys : List Node} {node : Node}

theorem nil : Still [] :=
  nofun

theorem append (hx : Still xs) (hy : Still ys) : Still (xs ++ ys) := by
  intro node hn
  rcases List.mem_append.1 hn with hn | hn
  · exact hx node hn
  · exact hy node hn

/-- Nodes that are no statements. -/
theorem of_isStatement (h : ∀ node ∈ xs, node.isStatement = false) : Still xs :=
  fun node hn => Node.not_leaves_of_isStatement (h node hn)

theorem expression {e : Expr} : Still [.expression e] :=
  of_isStatement (by simp [Node.isStatement])

/-- Nodes that stand in a node that is no `break`. -/
theorem wrap (h : Still node.parts) (hn : node.isLeave = false) : Still [node] := by
  intro x hx
  rw [List.mem_singleton] at hx
  subst hx
  rintro ⟨keyword, hl⟩
  cases hl with
  | here => cases hn
  | part _ hp hl => exact h _ hp ⟨keyword, hl⟩

/-- A loop holds the `break` of its body. -/
theorem loop (condition : Expr) (body : Stmt) :
    Still [.statement (.loop condition body)] := by
  intro x hx
  rw [List.mem_singleton] at hx
  subst hx
  rintro ⟨keyword, hl⟩
  cases hl with
  | part hs _ _ => cases hs

theorem statements {s : Stmt} {ss : List Stmt} (hs : Still [.statement s])
    (hss : Still [.statements ss]) : Still [.statements (s :: ss)] :=
  .wrap (hs.append hss) rfl

theorem noStatements : Still [.statements []] :=
  .wrap .nil rfl

theorem ofParameters (parameters : List Token) : Still (Node.ofParameters parameters) := by
  intro node hn
  obtain ⟨name, -, rfl⟩ := List.mem_map.1 hn
  have hname : Still [.statement (.varDecl name none)] := .wrap .nil rfl
  exact hname _ (List.mem_singleton.2 rfl)

end Still

theorem Still.forLoop {start : Option Stmt} (hs : Still (start.toList.map .statement))
    (condition increment : Option Expr) (body : Stmt) :
    Still [.statement (.forLoop start condition increment body)] := by
  have hrest := Still.statements (.loop (condition.getD (.constant (.bool true)))
    (.block (body :: (increment.map Stmt.expression).toList))) .noStatements
  cases start with
  | none => exact .wrap hrest rfl
  | some s => exact .wrap (.statements hs hrest) rfl

/-- Outside of the loops of its function, what parses exposes no `break`. -/
theorem still_of_derives {c : Convention} {symbol : Symbol} {p q : Point} {v : symbol.Tree}
    (h : Derives c symbol p v q) (hl : symbol.inLoop = false) : Still (symbol.nodes v) := by
  induction h with
  | noDeclaration => exact .noStatements
  | moreDeclarations _ _ ih₁ ih₂ => exact .statements (ih₁ hl) (ih₂ hl)
  | variableDeclaration _ _ ih | variableInitializer _ _ ih => exact ih rfl
  | plainStatement _ ih => exact ih hl
  | functionWithout _ _ _ _ _ ih => exact ih rfl
  | functionWith _ _ _ _ _ _ _ _ ih => exact .append (.ofParameters _) (ih rfl)
  | lastParameter | moreParameters => exact .ofParameters _
  | forStatement _ _ _ _ _ _ _ _ ih => exact (ih rfl).forLoop _ _ _
  | branch _ _ _ _ _ _ ih =>
    exact .wrap (.append .expression
      (ih hl)) rfl
  | branches _ _ _ _ _ _ _ _ _ ih₁ ih₂ =>
    exact .wrap (.append .expression
      (.append (ih₁ hl) (ih₂ hl))) rfl
  | whileStatement => exact .loop _ _
  | breakStatement => cases hl
  | block _ _ _ ih => exact .wrap (ih hl) rfl
  | classDeclaration | functionDeclaration | functionStatement | variableWithout | variableWith
  | printStatement | returnWithout | returnWith | expressionStatement
  | expressionInitializer =>
    -- what stands in these are expressions and functions
    refine .wrap (.of_isStatement ?_) rfl
    simp [Node.parts, Visit.children, Stmt.visits, Node.isStatement]
  | _ => exact .of_isStatement (by simp [Symbol.nodes, Node.isStatement])

/-- No body of a function exposes a `break`. -/
theorem not_leaves_of_derives {c : Convention} {p q : Point} {parameters : List Token}
    {body : List Stmt} (h : Derives c .function p (parameters, body) q) :
    ¬(Node.statements body).Leaves :=
  still_of_derives h rfl _ (List.mem_append_right _ (List.mem_singleton.2 rfl))

/-! ## What is resolved -/

/-- Only a function puts what stands in it into a function. -/
theorem Visit.inFunction_child {v c : Visit} (hc : c ∈ v.children)
    (hn : v.node.isFunction = false) :
    c.spot.around.inFunction = v.spot.around.inFunction := by
  obtain ⟨spot, node⟩ := v
  cases node with
  | expression e =>
    obtain ⟨part, -, rfl⟩ := List.mem_map.1 hc
    rfl
  | statement s =>
    replace hc : c ∈ s.visits spot := hc
    fun_cases Stmt.visits spot s <;>
      simp only [Stmt.visits, List.mem_cons, List.mem_map, List.not_mem_nil, or_false] at hc
    case case13 name methods =>
      obtain ⟨method, -, rfl⟩ := hc
      rfl
    all_goals rcases hc with rfl | rfl | rfl <;> rfl
  | statements ss =>
    cases ss with
    | nil => cases hc
    | cons first rest =>
      simp only [children, List.mem_cons, List.not_mem_nil, or_false] at hc
      rcases hc with rfl | rfl <;> rfl
  | function d => cases hn

/-- A `return` that is exposed outside of all functions is a fault. -/
theorem Visit.fault_of_givesBack {v : Visit} (h : v.node.GivesBack)
    (hv : v.spot.around.inFunction = false) : v.findings.diagnostics ≠ [] := by
  obtain ⟨keyword, value, h⟩ := h
  suffices ∀ node inner, Node.Exposes Node.isFunction node inner →
      inner = .statement (.giveBack keyword value) → ∀ v : Visit, v.node = node →
      v.spot.around.inFunction = false →
      ∃ d, d ∈ v.findings.diagnostics by
    obtain ⟨d, hd⟩ := this _ _ h rfl v rfl hv
    exact List.ne_nil_of_mem hd
  intro node inner h
  induction h with
  | here =>
    rintro rfl ⟨spot, _⟩ rfl hv
    refine ⟨.scopeAt keyword .returnOutsideFunction,
      (mem_findings_iff Findings.additive_diagnostics _ _).2 (.inl ?_)⟩
    replace hv : spot.around.inFunction = false := hv
    simp [own, Findings.faultIf, hv, Findings.fault]
  | @part node part inner hs hp _ ih =>
    rintro hi v rfl hv
    rw [← v.children_node] at hp
    obtain ⟨c, hc, hpart⟩ := List.mem_map.1 hp
    obtain ⟨d, hd⟩ := ih hi c hpart ((inFunction_child hc hs).trans hv)
    exact ⟨d, (mem_findings_iff Findings.additive_diagnostics _ _).2 (.inr ⟨c, hc, hd⟩)⟩

end TreeScript
