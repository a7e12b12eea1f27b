import TreeScript.Proofs.Parsing.Acceptance
import TreeScript.Proofs.Parsing.Identities
import TreeScript.Proofs.Scoping.Spelling
import TreeScript.Proofs.Scoping.Visits
import Mathlib.Data.List.Flatten

/-!
# What parsing guarantees to the resolving walk

* `Node.Shaped` — no branch and no loop body declares a variable or a class, and every
  function that is declared has a name
* `Node.Worded` — names have the spelling of identifiers, and `this` has not
* `Tidy` — nodes between two points, whose references have different identities
* `derives_tidy` — the trees of the grammar are tidy
* `Program.tidy` — and so are programs without a fault
-/

namespace TreeScript

/-! ## Shapes -/

/-- The nodes that stand directly in a node. -/
def Node.parts (node : Node) : List Node :=
  (Visit.mk .top node).children.map Visit.node

/-- The spot of a visit has no say in which nodes it visits. -/
theorem Visit.children_node (v : Visit) : v.children.map Visit.node = v.node.parts := by
  obtain ⟨spot, node⟩ := v
  unfold Node.parts
  cases node with
  | expression e => simp [children, Function.comp_def]
  | statement s =>
    show (s.visits spot).map Visit.node = (s.visits .top).map Visit.node
    fun_cases Stmt.visits spot s <;> simp [Stmt.visits]
  | statements ss => cases ss <;> rfl
  | function d => rfl

/-- Whether a statement declares a variable or a class. -/
def Stmt.declaresValue : Stmt → Bool
  | .varDecl .. | .classDecl .. => true
  | _ => false

/-- Branches and loop bodies declare no variable and no class, and a function that is
declared has a name. -/
def Node.Shaped : Node → Prop
  | .statement (.conditional _ whenTrue whenFalse) =>
    whenTrue.declaresValue = false ∧ ∀ s ∈ whenFalse, s.declaresValue = false
  | .statement (.loop _ body) => body.declaresValue = false
  | .statement (.function declaration) => declaration.name.isSome = true
  | _ => True

/-- A name that is declared or assigned is an identifier, as it is spelled. -/
def Token.IsName (lexicon : Lexicon) (name : Token) : Prop :=
  name.kind = .identifier ∧ name.Spelled lexicon

/-- The names that a node itself declares or assigns are identifiers and `this` is reserved,
as they are spelled. -/
def Node.Worded (lexicon : Lexicon) : Node → Prop
  | .statement (.varDecl name _) | .statement (.classDecl name _)
  | .expression (.assign _ name _) => name.IsName lexicon
  | .statement (.function declaration) => ∀ name ∈ declaration.name, name.IsName lexicon
  | .function declaration => ∀ name ∈ declaration.parameters, name.IsName lexicon
  | .expression (.self _ keyword) => keyword.kind = .thisKeyword ∧ keyword.Spelled lexicon
  | _ => True

/-- A node that is shaped and worded, with all the nodes in it. -/
inductive Node.Grown (lexicon : Lexicon) : Node → Prop
  | mk {node : Node} : node.Shaped → node.Worded lexicon →
      (∀ part ∈ node.parts, part.Grown lexicon) → node.Grown lexicon

section

variable {lexicon : Lexicon}

theorem Node.Grown.shaped {node : Node} (h : node.Grown lexicon) : node.Shaped := by
  cases h with
  | mk h _ _ => exact h

theorem Node.Grown.worded {node : Node} (h : node.Grown lexicon) : node.Worded lexicon := by
  cases h with
  | mk _ h _ => exact h

theorem Node.Grown.part {node part : Node} (h : node.Grown lexicon) (hp : part ∈ node.parts) :
    part.Grown lexicon := by
  cases h with
  | mk _ _ h => exact h part hp

theorem Visit.grown_of_leads {v w : Visit} (h : v.node.Grown lexicon) (hw : v.Leads w) :
    w.node.Grown lexicon := by
  induction hw with
  | refl => exact h
  | @tail u c _ hc ih =>
    refine ih.part ?_
    rw [← u.children_node]
    exact List.mem_map_of_mem hc

end

/-- Parameters as nodes: they declare names without value. -/
def Node.ofParameters (parameters : List Token) : List Node :=
  parameters.map fun name => .statement (.varDecl name none)

theorem Node.ids_ofParameters (parameters : List Token) :
    (Node.ofParameters parameters).flatMap Node.ids = [] := by
  induction parameters with
  | nil => rfl
  | cons name rest ih => simp [ofParameters, Node.ids, Stmt.references]

/-! ## Nodes between two points -/

/-- Nodes that are read between two points.  Their references have different identities,
from the range between the two points. -/
structure Tidy (lexicon : Lexicon) (p q : Point) (nodes : List Node) : Prop
    extends Drawn p.nextId q.nextId (nodes.flatMap Node.ids) where
  tokens : q.tokens ⊆ p.tokens
  grown : (∀ token ∈ p.tokens, token.Spelled lexicon) → ∀ node ∈ nodes, node.Grown lexicon

namespace Tidy

variable {lexicon : Lexicon} {p q r : Point} {t : Token} {ts : List Token} {n : ReferenceId}
  {xs ys : List Node} {node : Node}

theorem nil : Tidy lexicon p p [] :=
  ⟨.nil (Nat.le_refl _), List.Subset.refl _, nofun⟩

/-- A token in front of the nodes. -/
theorem drop (h : Tidy lexicon ⟨ts, n⟩ q xs) : Tidy lexicon ⟨t :: ts, n⟩ q xs where
  toDrawn := h.toDrawn
  tokens := List.subset_cons_of_subset t h.tokens
  grown hs := h.grown fun token ht => hs token (List.mem_cons_of_mem t ht)

/-- A token behind the nodes. -/
theorem take (h : Tidy lexicon p ⟨t :: ts, n⟩ xs) : Tidy lexicon p ⟨ts, n⟩ xs where
  toDrawn := h.toDrawn
  tokens := List.Subset.trans (List.subset_cons_self t ts) h.tokens
  grown := h.grown

theorem append (h₁ : Tidy lexicon p q xs) (h₂ : Tidy lexicon q r ys) :
    Tidy lexicon p r (xs ++ ys) where
  toDrawn := by
    rw [List.flatMap_append]
    exact h₁.toDrawn.append h₂.toDrawn
  tokens := List.Subset.trans h₂.tokens h₁.tokens
  grown := by
    intro hs x hx
    rcases List.mem_append.1 hx with hx | hx
    · exact h₁.grown hs x hx
    · exact h₂.grown (fun token ht => hs token (h₁.tokens ht)) x hx

theorem perm (h : Tidy lexicon p q xs) (hp : xs.Perm ys) : Tidy lexicon p q ys where
  toDrawn := h.toDrawn.subperm (hp.symm.flatMap_right Node.ids).subperm
  tokens := h.tokens
  grown hs x hx := h.grown hs x (hp.mem_iff.2 hx)

/-- Nodes that stand in a node that is no reference. -/
theorem wrap (h : Tidy lexicon p q node.parts)
    (hr : (Visit.mk .top node).reference? = none) (hn : node.Shaped)
    (hw : (∀ token ∈ p.tokens, token.Spelled lexicon) → node.Worded lexicon) :
    Tidy lexicon p q [node] := by
  have hids : [node].flatMap Node.ids = node.parts.flatMap Node.ids := by
    rw [List.flatMap_cons, List.flatMap_nil, List.append_nil, Node.parts, List.flatMap_map]
    have := (Visit.mk .top node).ids_eq
    rw [hr] at this
    exact this
  refine ⟨by rw [hids]; exact h.toDrawn, h.tokens, ?_⟩
  intro hs x hx
  rw [List.mem_singleton] at hx
  subst hx
  exact .mk hn (hw hs) (h.grown hs)

/-- A reference whose name is read before its parts. -/
theorem reference {name : Token} (h : Tidy lexicon ⟨ts, n + 1⟩ q node.parts)
    (hr : (Visit.mk .top node).reference? = some (n, name)) (hn : node.Shaped)
    (hw : (∀ token ∈ ts, token.Spelled lexicon) → node.Worded lexicon) :
    Tidy lexicon ⟨ts, n⟩ q [node] := by
  have hids : [node].flatMap Node.ids = n :: node.parts.flatMap Node.ids := by
    rw [List.flatMap_cons, List.flatMap_nil, List.append_nil, Node.parts, List.flatMap_map]
    have := (Visit.mk .top node).ids_eq
    rw [hr] at this
    exact this
  refine ⟨?_, h.tokens, fun hs x hx => ?_⟩
  · rw [hids]
    exact (Drawn.one n).append h.toDrawn
  · rw [List.mem_singleton] at hx
    subst hx
    exact .mk hn (hw hs) (h.grown hs)

/-- The parameters of a function are names without value. -/
theorem function {name : Option Token} {parameters : List Token} {body : List Stmt}
    (h : Tidy lexicon p q (Node.ofParameters parameters ++ [.statements body])) :
    Tidy lexicon p q [.function { name, parameters, body }] := by
  have hids : (Node.ofParameters parameters ++ [Node.statements body]).flatMap Node.ids =
      [Node.function { name, parameters, body }].flatMap Node.ids := by
    rw [List.flatMap_append, Node.ids_ofParameters]
    simp [Node.ids, FunctionDecl.references]
  refine ⟨hids ▸ h.toDrawn, h.tokens, fun hs x hx => ?_⟩
  rw [List.mem_singleton] at hx
  subst hx
  have hgrown := h.grown hs
  refine .mk trivial (fun parameter hp => ?_) fun part hpart => ?_
  · have hm := List.mem_map_of_mem (f := fun t => Node.statement (.varDecl t none)) hp
    exact (hgrown _ (List.mem_append_left _ hm)).worded
  · exact hgrown part (List.mem_append_right _ hpart)

theorem constant {value : Constant} (h : Tidy lexicon p q []) :
    Tidy lexicon p q [.expression (.constant value)] :=
  .wrap h rfl trivial fun _ => trivial

theorem statements {s : Stmt} {ss : List Stmt}
    (h : Tidy lexicon p q [.statement s, .statements ss]) :
    Tidy lexicon p q [.statements (s :: ss)] :=
  .wrap h rfl trivial fun _ => trivial

theorem noStatements (h : Tidy lexicon p q []) : Tidy lexicon p q [.statements []] :=
  .wrap h rfl trivial fun _ => trivial

theorem parts_map (nodes : List Node) :
    (nodes.map (Visit.mk .top)).map Visit.node = nodes := by
  simp [Function.comp_def]

end Tidy

/-! ## Trees of the grammar -/

/-- The nodes of a tree of the grammar. -/
def Symbol.nodes : (symbol : Symbol) → symbol.Tree → List Node
  | .declarations _, ss => [.statements ss]
  | .declaration _, s | .variable, s | .statement _ _, s => [.statement s]
  | .methods, ds => ds.map .function
  | .function, (names, body) => Node.ofParameters names ++ [.statements body]
  | .parameters, names => Node.ofParameters names
  | .initializer, s => s.toList.map .statement
  | .optionalList, e => e.toList.map .expression
  | .arguments, es => es.map .expression
  | .list, e | .conditional, e | .assignment, e | .level _, e | .unary, e | .call, e
  | .primary, e => [.expression e]

/-- A statement that the grammar calls so declares no variable and no class. -/
theorem declaresValue_of_derives {c : Convention} {l d : Bool} {p q : Point} {s : Stmt}
    (h : Derives c (.statement l d) p s q) : s.declaresValue = false := by
  cases h <;> rfl

/-- In a counting loop the increment is read before the body. -/
theorem Tidy.forLoop {lexicon : Lexicon} {n m k i j : Point} {start : Option Stmt}
    {condition increment : Option Expr} {body : Stmt}
    (h₁ : Tidy lexicon n m (Symbol.initializer.nodes start))
    (h₂ : Tidy lexicon m k (Symbol.optionalList.nodes condition))
    (h₃ : Tidy lexicon k i (Symbol.optionalList.nodes increment))
    (h₄ : Tidy lexicon i j [.statement body]) :
    Tidy lexicon n j [.statement (.forLoop start condition increment body)] := by
  have hcondition :
      Tidy lexicon m k [.expression (condition.getD (.constant (.bool true)))] := by
    cases condition with
    | none => exact .constant h₂
    | some value => exact h₂
  have hincrement :
      Tidy lexicon k i [.statements (increment.map Stmt.expression).toList] := by
    cases increment with
    | none => exact .noStatements h₃
    | some value =>
      have hvalue : Tidy lexicon k i [.statement (.expression value)] :=
        .wrap h₃ rfl trivial fun _ => trivial
      exact .statements (hvalue.append (.noStatements .nil))
  have hround : Tidy lexicon k j
      [.statement (.block (body :: (increment.map Stmt.expression).toList))] :=
    .wrap (.statements ((hincrement.append h₄).perm (.swap ..))) rfl trivial fun _ => trivial
  have hloop : Tidy lexicon m j [.statement (.loop (condition.getD (.constant (.bool true)))
      (.block (body :: (increment.map Stmt.expression).toList)))] :=
    .wrap (hcondition.append hround) rfl rfl fun _ => trivial
  have hrest := Tidy.statements (hloop.append (.noStatements .nil))
  cases start with
  | none => exact .wrap (Tidy.append h₁ hrest) rfl trivial fun _ => trivial
  | some s => exact .wrap (.statements (Tidy.append h₁ hrest)) rfl trivial fun _ => trivial

theorem derives_tidy {lexicon : Lexicon} {c : Convention} {symbol : Symbol} {p q : Point}
    {v : symbol.Tree} (h : Derives c symbol p v q) : Tidy lexicon p q (symbol.nodes v) := by
  induction h with
  | noDeclaration => exact .noStatements .nil
  | moreDeclarations _ _ ih₁ ih₂ => exact .statements (ih₁.append ih₂)
  | classDeclaration _ hname _ _ _ ih =>
    refine .wrap ?_ rfl trivial fun hs => ⟨hname, hs _ (by simp)⟩
    rw [Node.parts, Visit.children, Stmt.visits, List.map_map]
    exact ih.take.drop.drop.drop
  | functionDeclaration _ hname _ ih =>
    refine .wrap ih.function.drop.drop rfl rfl fun hs => ?_
    rintro _ ⟨⟩
    exact ⟨hname, hs _ (by simp)⟩
  | variableDeclaration _ _ ih => exact ih.drop
  | plainStatement _ ih => exact ih
  | noMethod => exact .nil
  | namedMethod _ _ _ _ ih₁ ih₂ => exact ih₁.function.drop.append ih₂
  | namelessMethod _ _ _ ih₁ ih₂ => exact ih₁.function.append ih₂
  | functionWithout _ _ _ _ _ ih => exact ih.take.drop.drop.drop
  | functionWith _ _ _ _ _ _ _ ih₁ ih₂ => exact ih₁.take.take.drop.append ih₂.take
  | lastParameter hname =>
    exact .wrap (.take .nil) rfl trivial fun hs => ⟨hname, hs _ List.mem_cons_self⟩
  | @moreParameters name comma ts n _ _ hname _ _ ih =>
    have hfirst : Tidy lexicon ⟨name :: comma :: ts, n⟩ ⟨ts, n⟩
        [.statement (.varDecl name none)] :=
      .wrap (.take (.take .nil)) rfl trivial fun hs => ⟨hname, hs _ List.mem_cons_self⟩
    exact hfirst.append ih
  | variableWithout hname _ =>
    exact .wrap (.take (.take .nil)) rfl trivial fun hs => ⟨hname, hs _ List.mem_cons_self⟩
  | variableWith hname _ _ _ ih =>
    exact .wrap ih.take.drop.drop rfl trivial fun hs => ⟨hname, hs _ List.mem_cons_self⟩
  | forStatement _ _ _ _ _ _ _ _ ih₁ ih₂ ih₃ ih₄ =>
    exact ih₁.drop.drop.forLoop ih₂.take ih₃.take ih₄
  | branch _ _ _ _ h ih₁ ih₂ =>
    exact .wrap (ih₁.take.drop.drop.append ih₂) rfl ⟨declaresValue_of_derives h, by simp⟩
      fun _ => trivial
  | branches _ _ _ _ h₂ _ _ h₃ ih₁ ih₂ ih₃ =>
    refine .wrap (ih₁.take.drop.drop.append (ih₂.take.append ih₃)) rfl
      ⟨declaresValue_of_derives h₂, ?_⟩ fun _ => trivial
    rintro s ⟨⟩
    exact declaresValue_of_derives h₃
  | printStatement _ _ _ ih => exact .wrap ih.take.drop rfl trivial fun _ => trivial
  | returnWithout => exact .wrap (.take (.take .nil)) rfl trivial fun _ => trivial
  | returnWith _ _ _ ih => exact .wrap ih.take.drop rfl trivial fun _ => trivial
  | whileStatement _ _ _ _ h ih₁ ih₂ =>
    exact .wrap (ih₁.take.drop.drop.append ih₂) rfl (declaresValue_of_derives h)
      fun _ => trivial
  | breakStatement => exact .wrap (.take (.take .nil)) rfl trivial fun _ => trivial
  | block _ _ _ ih => exact .wrap ih.take.drop rfl trivial fun _ => trivial
  | functionStatement _ hname _ ih =>
    refine .wrap ih.function.drop.drop rfl rfl fun hs => ?_
    rintro _ ⟨⟩
    exact ⟨hname, hs _ (by simp)⟩
  | expressionStatement _ _ ih => exact .wrap ih.take rfl trivial fun _ => trivial
  | noInitializer => exact .take .nil
  | variableInitializer _ _ ih => exact ih.drop
  | expressionInitializer _ _ ih => exact .wrap ih.take rfl trivial fun _ => trivial
  | noList => exact .nil
  | someList _ ih => exact ih
  | single _ ih => exact ih
  | comma _ _ _ ih₁ ih₂ => exact .wrap (ih₁.take.append ih₂) rfl trivial fun _ => trivial
  | unconditional _ ih => exact ih
  | @ternary _ _ _ _ _ _ _ _ whenTrue _ _ _ _ _ _ _ ih₁ ih₂ ih₃ =>
    cases whenTrue with
    | none =>
      exact .wrap (ih₁.take.append (Tidy.append (.constant ih₂.take) ih₃)) rfl trivial
        fun _ => trivial
    | some value =>
      exact .wrap (ih₁.take.append (ih₂.take.append ih₃)) rfl trivial fun _ => trivial
  | nameAssignment hname _ _ ih =>
    exact .reference ih.drop.drop rfl trivial fun hs => ⟨hname, hs _ List.mem_cons_self⟩
  | propertyAssignment _ _ _ _ _ ih₁ ih₂ =>
    exact .wrap (ih₁.take.take.take.append ih₂) rfl trivial fun _ => trivial
  | noAssignment _ ih => exact ih
  | tighter _ ih => exact ih
  | operation _ _ _ ih₁ ih₂ =>
    rw [Level.node]
    split <;> exact .wrap (ih₁.take.append ih₂) rfl trivial fun _ => trivial
  | tightest _ ih => exact ih
  | unaryOperation _ _ ih => exact .wrap ih.drop rfl trivial fun _ => trivial
  | noOperation _ ih => exact ih
  | noCall _ ih => exact ih
  | callWithout _ _ _ ih => exact .wrap ih.take.take rfl trivial fun _ => trivial
  | callWith _ _ _ _ _ ih₁ ih₂ =>
    refine .wrap ?_ rfl trivial fun _ => trivial
    rw [Node.parts, Visit.children, Tidy.parts_map]
    exact ih₁.take.append ih₂.take
  | property _ _ _ ih => exact .wrap ih.take.take rfl trivial fun _ => trivial
  | lastArgument _ ih => exact ih
  | moreArguments _ _ _ ih₁ ih₂ => exact ih₁.take.append ih₂
  | falsity => exact .constant (.take .nil)
  | truth => exact .constant (.take .nil)
  | absence => exact .constant (.take .nil)
  | literal => exact .constant (.take .nil)
  | reference => exact .reference (.take .nil) rfl trivial fun _ => trivial
  | self hkind =>
    exact .reference (.take .nil) rfl trivial fun hs => ⟨hkind, hs _ List.mem_cons_self⟩
  | function _ _ ih => exact .wrap ih.function.drop rfl trivial fun _ => trivial
  | grouping _ _ _ ih => exact .wrap ih.take.drop rfl trivial fun _ => trivial

/-! ## Programs -/

namespace Program

/-- Programs without a fault are derived from their tokens. -/
theorem derives_of_diagnostics {tokens : List Token} {firstId : ReferenceId}
    (h : (Program.ofTokens tokens firstId).diagnostics = []) :
    ∃ rest, Derives .standard (.declarations false) ⟨tokens, firstId⟩
      (Program.ofTokens tokens firstId).statements
      ⟨rest, (Program.ofTokens tokens firstId).nextId⟩ := by
  obtain ⟨found, t, hok, ht⟩ := ok_of_no_fault h
  have hquiet : (ParseState.start tokens firstId).Quiet t := by
    rw [ParseState.Quiet, ht]
    rfl
  rw [ofTokens_of_ok hok]
  exact ⟨t.rest, (Parse.declarations_sound (c := .standard) rfl hok hquiet).1⟩

/-- Programs without a fault are tidy. -/
theorem tidy (lexicon : Lexicon) {tokens : List Token} {firstId : ReferenceId}
    (h : (Program.ofTokens tokens firstId).diagnostics = []) :
    ∃ rest, Tidy lexicon ⟨tokens, firstId⟩ ⟨rest, (Program.ofTokens tokens firstId).nextId⟩
      [.statements (Program.ofTokens tokens firstId).statements] := by
  obtain ⟨rest, hd⟩ := derives_of_diagnostics h
  exact ⟨rest, derives_tidy hd⟩

end Program

end TreeScript
