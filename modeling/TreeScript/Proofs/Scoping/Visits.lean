import TreeScript.Resolution
import TreeScript.Tree.References
import Mathlib.Data.List.Nodup
import Mathlib.Data.List.Pairwise
import Mathlib.Data.List.Perm.Subperm
import Mathlib.Logic.Relation

/-!
# The visits of the resolving walk

* `Spot` — what the walk knows when it comes to a node: the bodies around the node
  and the static scopes
* `Visit` — a node together with the spot at which it is visited
* `Visit.children` — the visits that a visit makes
* `Visit.Leads` — a visit makes another one, directly or not
* `Visit.mem_findings_iff` — what a visit finds is what it and the visits that it makes
  find themselves
* `Visit.Clean` — a visit without a fault, whose references have different identities
* `Visit.Clean.distance_iff` — the distance of a reference is the one that its own visit
  notes
* `Visit.Clean.eq_of_reference` — no reference is visited twice
-/

namespace TreeScript

/-! ## Spots -/

/-- What the walk knows when it comes to a node. -/
structure Spot where
  around : Surroundings
  scopes : List StaticScope

namespace Spot

/-- The spot of a program. -/
def top : Spot :=
  { around := { inFunction := false, inClass := false }, scopes := [] }

instance : Inhabited Spot := ⟨top⟩

/-- The spot behind the declaration of a name. -/
def declare (spot : Spot) (name : String) (initialized : Bool) : Spot :=
  { spot with scopes := StaticScope.declare spot.scopes name initialized }

/-- The spot inside a block. -/
def inBlock (spot : Spot) : Spot :=
  { spot with scopes := ∅ :: spot.scopes }

/-- The spot inside the body of a function. -/
def inBody (spot : Spot) (parameters : List Token) : Spot :=
  { around := { spot.around with inFunction := true }
    scopes := StaticScope.ofParameters parameters :: spot.scopes }

/-- The spot of the methods of a class. -/
def inClass (spot : Spot) : Spot :=
  { around := { spot.around with inClass := true }
    scopes := StaticScope.ofClass :: spot.scopes }

/-- The spot behind a statement. -/
def after (spot : Spot) (s : Stmt) : Spot :=
  { spot with scopes := (s.resolve spot.around spot.scopes).1 }

end Spot

/-! ## Visits -/

/-- What the walk can visit. -/
inductive Node where
  | expression (e : Expr)
  | statement (s : Stmt)
  | statements (ss : List Stmt)
  | function (d : FunctionDecl)

/-- A node and the spot at which it is visited. -/
structure Visit where
  spot : Spot
  node : Node

/-- The expressions and functions that stand directly in an expression. -/
def Expr.parts : Expr → List Node
  | .constant _ | .variable .. | .self .. => []
  | .grouping inner => [.expression inner]
  | .unary _ operand => [.expression operand]
  | .binary left _ right | .logical left _ right => [.expression left, .expression right]
  | .ternary condition _ whenTrue whenFalse =>
    [.expression condition, .expression whenTrue, .expression whenFalse]
  | .assign _ _ value => [.expression value]
  | .call callee _ arguments => .expression callee :: arguments.map .expression
  | .get object _ => [.expression object]
  | .set object _ value => [.expression object, .expression value]
  | .function declaration => [.function declaration]

/-- What a statement visits directly. -/
def Stmt.visits (spot : Spot) : Stmt → List Visit
  | .expression value | .print value | .giveBack _ (some value) =>
    [⟨spot, .expression value⟩]
  | .varDecl name (some value) => [⟨spot.declare name.lexeme false, .expression value⟩]
  | .varDecl _ none | .giveBack _ none | .leave _ => []
  | .block body => [⟨spot.inBlock, .statements body⟩]
  | .conditional condition whenTrue none =>
    [⟨spot, .expression condition⟩, ⟨spot, .statement whenTrue⟩]
  | .conditional condition whenTrue (some whenFalse) =>
    [⟨spot, .expression condition⟩, ⟨spot, .statement whenTrue⟩,
      ⟨spot.after whenTrue, .statement whenFalse⟩]
  | .loop condition body => [⟨spot, .expression condition⟩, ⟨spot, .statement body⟩]
  | .function declaration => [⟨spot.after (.function declaration), .function declaration⟩]
  | .classDecl name methods =>
    methods.map fun method => ⟨(spot.declare name.lexeme true).inClass, .function method⟩

namespace Visit

/-- The visits that a visit makes directly. -/
def children : Visit → List Visit
  | ⟨spot, .expression e⟩ => e.parts.map (Visit.mk spot)
  | ⟨spot, .statement s⟩ => s.visits spot
  | ⟨_, .statements []⟩ => []
  | ⟨spot, .statements (first :: rest)⟩ =>
    [⟨spot, .statement first⟩, ⟨spot.after first, .statements rest⟩]
  | ⟨spot, .function declaration⟩ =>
    [⟨spot.inBody declaration.parameters, .statements declaration.body⟩]

/-- What a visit and the visits that it makes find. -/
def findings : Visit → Findings
  | ⟨spot, .expression e⟩ => e.resolve spot.around spot.scopes
  | ⟨spot, .statement s⟩ => (s.resolve spot.around spot.scopes).2
  | ⟨spot, .statements ss⟩ => (Stmt.resolveAll spot.around spot.scopes ss).2
  | ⟨spot, .function declaration⟩ => declaration.resolve spot.around spot.scopes

/-- What a visit finds by itself. -/
def own : Visit → Findings
  | ⟨spot, .expression (.variable id name)⟩ =>
    .faultIf (StaticScope.inOwnInitializer spot.scopes name.lexeme) name .ownInitializer ++
      .ofReference spot.scopes id name
  | ⟨spot, .expression (.assign id name _)⟩ => .ofReference spot.scopes id name
  | ⟨spot, .expression (.self id keyword)⟩ =>
    if spot.around.inClass then .ofReference spot.scopes id keyword
    else .fault keyword .thisOutsideClass
  | ⟨spot, .statement (.giveBack keyword _)⟩ =>
    .faultIf (!spot.around.inFunction) keyword .returnOutsideFunction
  | _ => .none

/-- The reference that a visited node is, with its name. -/
def reference? : Visit → Option (ReferenceId × Token)
  | ⟨_, .expression (.variable id name)⟩ | ⟨_, .expression (.assign id name _)⟩
  | ⟨_, .expression (.self id name)⟩ => some (id, name)
  | _ => none

/-- A visit makes another one, directly or not. -/
def Leads : Visit → Visit → Prop :=
  Relation.ReflTransGen fun visit child => child ∈ visit.children

/-- The visit of a whole program. -/
def root (program : List Stmt) : Visit :=
  ⟨.top, .statements program⟩

end Visit

/-- The identities of the references in a node. -/
def Node.ids : Node → List ReferenceId
  | .expression e => e.references.map Reference.id
  | .statement s => s.references.map Reference.id
  | .statements ss => (Stmt.referencesOfAll ss).map Reference.id
  | .function d => d.references.map Reference.id

/-! ## Findings of visits -/

/-- A part of the findings that goes through concatenation. -/
structure Findings.Additive {β : Type} (f : Findings → List β) : Prop where
  append : ∀ a b, f (a ++ b) = f a ++ f b
  none : f .none = []

theorem Findings.additive_distances : Findings.Additive Findings.distances :=
  ⟨fun _ _ => rfl, rfl⟩

theorem Findings.additive_diagnostics : Findings.Additive Findings.diagnostics :=
  ⟨fun _ _ => rfl, rfl⟩

section Additive

variable {β : Type} {f : Findings → List β} (hf : Findings.Additive f)
include hf

theorem Expr.flatMap_resolve (around : Surroundings) (scopes : List StaticScope)
    (es : List Expr) :
    f (Expr.resolveAll around scopes es) = es.flatMap fun e => f (e.resolve around scopes) := by
  induction es with
  | nil => simp [Expr.resolveAll, hf.none]
  | cons e es ih => simp [Expr.resolveAll, hf.append, ih]

theorem FunctionDecl.flatMap_resolve (around : Surroundings) (scopes : List StaticScope)
    (ds : List FunctionDecl) :
    f (FunctionDecl.resolveAll around scopes ds) =
      ds.flatMap fun d => f (d.resolve around scopes) := by
  induction ds with
  | nil => simp [FunctionDecl.resolveAll, hf.none]
  | cons d ds ih => simp [FunctionDecl.resolveAll, hf.append, ih]

/-- What a visit finds is what it finds itself and what the visits find that it makes.  Only
an assignment finds something itself behind its parts. -/
theorem Visit.findings_perm (v : Visit) :
    (f v.findings).Perm (f v.own ++ v.children.flatMap fun c => f c.findings) := by
  obtain ⟨spot, node⟩ := v
  cases node with
  | expression e =>
    cases e with
    | assign id name value =>
      simp only [findings, own, children, Expr.parts, Expr.resolve, hf.append, List.map_cons,
        List.map_nil, List.flatMap_cons, List.flatMap_nil, List.append_nil]
      exact List.perm_append_comm
    | _ =>
      refine .of_eq ?_
      simp [findings, own, children, Expr.parts, Expr.resolve, hf.append, hf.none,
        Expr.flatMap_resolve hf, List.flatMap_map]
  | statement s =>
    refine .of_eq ?_
    match s with
    | .expression _ | .print _ | .varDecl _ none | .varDecl _ (some _) | .block _
    | .conditional _ _ none | .loop _ _ | .leave _ | .function _ | .giveBack _ none
    | .giveBack _ (some _) =>
      simp [findings, own, children, Stmt.visits, Stmt.resolve, hf.append, hf.none,
        Spot.declare, Spot.inBlock, Spot.after]
    | .conditional _ _ (some _) =>
      simp [findings, own, children, Stmt.visits, Stmt.resolve, hf.append, hf.none,
        Spot.after]
    | .classDecl _ _ =>
      simp [findings, own, children, Stmt.visits, Stmt.resolve, hf.none,
        FunctionDecl.flatMap_resolve hf, List.flatMap_map, Spot.declare, Spot.inClass]
  | statements ss =>
    refine .of_eq ?_
    cases ss <;>
      simp [findings, own, children, Stmt.resolveAll, hf.append, hf.none, Spot.after]
  | function d =>
    refine .of_eq ?_
    obtain ⟨_, parameters, body⟩ := d
    simp [findings, own, children, FunctionDecl.resolve, hf.none, Spot.inBody]

/-- What is found is found by a visit itself or by a visit that it makes. -/
theorem Visit.mem_findings_iff (v : Visit) (x : β) :
    x ∈ f v.findings ↔ x ∈ f v.own ∨ ∃ c ∈ v.children, x ∈ f c.findings := by
  rw [(v.findings_perm hf).mem_iff, List.mem_append, List.mem_flatMap]

end Additive

/-! ## Identities of visits -/

theorem Expr.ids_referencesOfAll (es : List Expr) :
    (Expr.referencesOfAll es).map Reference.id =
      (es.map Node.expression).flatMap Node.ids := by
  induction es with
  | nil => rfl
  | cons e es ih =>
    simp [Expr.referencesOfAll, ih, Node.ids]

theorem FunctionDecl.ids_referencesOfAll (ds : List FunctionDecl) :
    (FunctionDecl.referencesOfAll ds).map Reference.id =
      (ds.map Node.function).flatMap Node.ids := by
  induction ds with
  | nil => rfl
  | cons d ds ih =>
    simp [FunctionDecl.referencesOfAll, ih, Node.ids]

namespace Visit

/-- The identities in a node are its own and those of the visits that it makes. -/
theorem ids_eq (v : Visit) :
    v.node.ids = (v.reference?.map Prod.fst).toList ++ v.children.flatMap (·.node.ids) := by
  obtain ⟨spot, node⟩ := v
  cases node with
  | expression e =>
    cases e <;>
      simp [reference?, children, Expr.parts, Node.ids, Expr.references,
        Expr.ids_referencesOfAll, List.flatMap_map]
  | statement s =>
    match s with
    | .expression _ | .print _ | .varDecl _ none | .varDecl _ (some _) | .block _
    | .conditional _ _ none | .conditional _ _ (some _) | .loop _ _ | .leave _
    | .function _ | .giveBack _ none | .giveBack _ (some _) =>
      simp [reference?, children, Stmt.visits, Node.ids, Stmt.references]
    | .classDecl _ _ =>
      simp [reference?, children, Stmt.visits, Node.ids, Stmt.references,
        FunctionDecl.ids_referencesOfAll, List.flatMap_map]
  | statements ss =>
    cases ss <;> simp [reference?, children, Node.ids, Stmt.referencesOfAll]
  | function d =>
    obtain ⟨_, parameters, body⟩ := d
    simp [reference?, children, Node.ids, FunctionDecl.references]

theorem sizeOf_parts {e : Expr} {part : Node} (h : part ∈ e.parts) :
    sizeOf part < 1 + sizeOf e := by
  fun_cases Expr.parts e <;>
    simp only [Expr.parts, List.mem_cons, List.mem_map, List.not_mem_nil, or_false] at h
  case case10 callee paren arguments =>
    rw [Expr.call.sizeOf_spec]
    rcases h with rfl | ⟨e, he, rfl⟩
    · rw [Node.expression.sizeOf_spec]
      omega
    · have := List.sizeOf_lt_of_mem he
      rw [Node.expression.sizeOf_spec]
      omega
  all_goals rcases h with rfl | rfl | rfl <;> simp <;> omega

theorem sizeOf_visits {spot : Spot} {s : Stmt} {c : Visit} (h : c ∈ s.visits spot) :
    sizeOf c.node < 1 + sizeOf s := by
  fun_cases Stmt.visits spot s <;>
    simp only [Stmt.visits, List.mem_cons, List.mem_map, List.not_mem_nil, or_false] at h
  case case13 name methods =>
    obtain ⟨method, hm, rfl⟩ := h
    have := List.sizeOf_lt_of_mem hm
    rw [Node.function.sizeOf_spec, Stmt.classDecl.sizeOf_spec]
    omega
  all_goals rcases h with rfl | rfl | rfl <;> simp <;> omega

/-- A visit visits only parts of its node. -/
theorem sizeOf_child {v c : Visit} (h : c ∈ v.children) : sizeOf c.node < sizeOf v.node := by
  obtain ⟨spot, node⟩ := v
  cases node with
  | expression e =>
    obtain ⟨part, hp, rfl⟩ := List.mem_map.1 h
    exact sizeOf_parts hp
  | statement s => exact sizeOf_visits h
  | statements ss =>
    cases ss with
    | nil => cases h
    | cons first rest =>
      simp only [children, List.mem_cons, List.not_mem_nil, or_false] at h
      rcases h with rfl | rfl
      all_goals
        simp only [Node.statement.sizeOf_spec, Node.statements.sizeOf_spec,
          List.cons.sizeOf_spec]
        omega
  | function d =>
    obtain ⟨_, parameters, body⟩ := d
    simp only [children, List.mem_cons, List.not_mem_nil, or_false] at h
    subst h
    rw [Node.statements.sizeOf_spec, Node.function.sizeOf_spec, FunctionDecl.mk.sizeOf_spec]
    omega

/-- Induction along the visits that a visit makes. -/
theorem induction {motive : Visit → Prop}
    (step : ∀ v, (∀ c ∈ v.children, motive c) → motive v) (v : Visit) : motive v :=
  step v fun c hc =>
    have := sizeOf_child hc
    induction step c
termination_by sizeOf v.node

/-! ## Distances -/

theorem distances_faultIf (condition : Bool) (token : Token) (cause : ScopeFault) :
    (Findings.faultIf condition token cause).distances = [] := by
  unfold Findings.faultIf
  split <;> rfl

theorem mem_distances_ofReference {scopes : List StaticScope} {id id' : ReferenceId}
    {name : Token} {d : Nat} :
    (id, d) ∈ (Findings.ofReference scopes id' name).distances ↔
      id = id' ∧ StaticScope.distance? scopes name.lexeme = some d := by
  unfold Findings.ofReference
  cases StaticScope.distance? scopes name.lexeme with
  | none => simp [Findings.none]
  | some found => simp [eq_comm]

theorem mem_own_distances {v : Visit} {id : ReferenceId} {d : Nat}
    (h : (id, d) ∈ v.own.distances) :
    ∃ name, v.reference? = some (id, name) ∧
      StaticScope.distance? v.spot.scopes name.lexeme = some d := by
  unfold own at h
  split at h
  · rw [Findings.additive_distances.append, distances_faultIf, List.nil_append,
      mem_distances_ofReference] at h
    obtain ⟨rfl, hd⟩ := h
    exact ⟨_, rfl, hd⟩
  · obtain ⟨rfl, hd⟩ := mem_distances_ofReference.1 h
    exact ⟨_, rfl, hd⟩
  · split at h
    · obtain ⟨rfl, hd⟩ := mem_distances_ofReference.1 h
      exact ⟨_, rfl, hd⟩
    · cases h
  · rw [distances_faultIf] at h
    cases h
  · cases h

/-- A reference that is no fault notes its distance. -/
theorem own_distances_of_reference {v : Visit} {id : ReferenceId} {name : Token} {d : Nat}
    (hv : v.own.diagnostics = []) (hr : v.reference? = some (id, name))
    (hd : StaticScope.distance? v.spot.scopes name.lexeme = some d) :
    (id, d) ∈ v.own.distances := by
  unfold reference? at hr
  split at hr
  · cases hr
    rw [own, Findings.additive_distances.append, List.mem_append]
    exact .inr (mem_distances_ofReference.2 ⟨rfl, hd⟩)
  · cases hr
    exact mem_distances_ofReference.2 ⟨rfl, hd⟩
  · cases hr
    rw [own] at hv ⊢
    split
    · exact mem_distances_ofReference.2 ⟨rfl, hd⟩
    · rename_i hc
      rw [if_neg hc] at hv
      cases hv
  · cases hr

/-- A reference notes at most its own distance. -/
theorem own_distances_subperm (v : Visit) :
    (v.own.distances.map Prod.fst).Subperm (v.reference?.map Prod.fst).toList := by
  have hof : ∀ (scopes : List StaticScope) (id : ReferenceId) (name : Token),
      ((Findings.ofReference scopes id name).distances.map Prod.fst).Subperm [id] := by
    intro scopes id name
    unfold Findings.ofReference
    cases StaticScope.distance? scopes name.lexeme with
    | none => exact List.nil_subperm
    | some d => exact .refl _
  unfold own
  split
  · rw [Findings.additive_distances.append, distances_faultIf, List.nil_append]
    exact hof _ _ _
  · exact hof _ _ _
  · split
    · exact hof _ _ _
    · exact List.nil_subperm
  · rw [distances_faultIf]
    exact List.nil_subperm
  · exact List.nil_subperm

/-- A distance is noted at most once for every reference of the node. -/
theorem distances_subperm (v : Visit) :
    (v.findings.distances.map Prod.fst).Subperm v.node.ids := by
  induction v using Visit.induction with
  | step v ih =>
    have hperm := (v.findings_perm Findings.additive_distances).map Prod.fst
    rw [List.map_append, List.map_flatMap] at hperm
    rw [ids_eq]
    refine hperm.subperm.trans (v.own_distances_subperm.append ?_)
    generalize v.children = children at ih
    induction children with
    | nil => exact .refl _
    | cons c rest ihrest =>
      rw [List.flatMap_cons, List.flatMap_cons]
      exact (ih c List.mem_cons_self).append
        (ihrest fun c hc => ih c (List.mem_cons_of_mem _ hc))

/-- A distance is found only for a reference of the node. -/
theorem mem_ids_of_mem_distances {id : ReferenceId} {d : Nat} (v : Visit)
    (h : (id, d) ∈ v.findings.distances) : id ∈ v.node.ids :=
  v.distances_subperm.subset (List.mem_map_of_mem h)

/-- What a visit keeps for the visits that it makes: no two references have the same
identity, and nothing is at fault. -/
structure Clean (v : Visit) : Prop where
  ids : v.node.ids.Nodup
  diagnostics : v.findings.diagnostics = []

theorem Clean.own {v : Visit} (h : v.Clean) : v.own.diagnostics = [] :=
  List.eq_nil_iff_forall_not_mem.2 fun x hx => by
    have := (mem_findings_iff Findings.additive_diagnostics v x).2 (.inl hx)
    rw [h.diagnostics] at this
    cases this

theorem Clean.child {v c : Visit} (h : v.Clean) (hc : c ∈ v.children) : c.Clean where
  ids := by
    have := h.ids
    rw [ids_eq, List.nodup_append] at this
    exact (List.nodup_flatMap.1 this.2.1).1 c hc
  diagnostics := List.eq_nil_iff_forall_not_mem.2 fun x hx => by
    have := (mem_findings_iff Findings.additive_diagnostics v x).2 (.inr ⟨c, hc, hx⟩)
    rw [h.diagnostics] at this
    cases this

theorem Clean.leads {v w : Visit} (h : v.Clean) (hw : v.Leads w) : w.Clean := by
  induction hw with
  | refl => exact h
  | tail _ hc ih => exact ih.child hc

theorem ids_subset_of_leads {v w : Visit} (h : v.Leads w) : w.node.ids ⊆ v.node.ids := by
  induction h with
  | refl => exact fun _ hi => hi
  | @tail u c _ hc ih =>
    intro i hi
    refine ih ?_
    rw [ids_eq u, List.mem_append]
    exact .inr (List.mem_flatMap.2 ⟨c, hc, hi⟩)

theorem mem_ids_of_reference {v u : Visit} (hu : v.Leads u) {id : ReferenceId} {token : Token}
    (hr : u.reference? = some (id, token)) : id ∈ v.node.ids := by
  refine ids_subset_of_leads hu ?_
  rw [ids_eq, hr]
  exact List.mem_append_left _ (by simp)

/-- The identity of a reference does not occur below the reference. -/
theorem Clean.not_mem_child {v c : Visit} (h : v.Clean) {id : ReferenceId} {name : Token}
    (hr : v.reference? = some (id, name)) (hc : c ∈ v.children) : id ∉ c.node.ids := by
  have hnodup := h.ids
  rw [ids_eq, hr, List.nodup_append] at hnodup
  exact fun hid => hnodup.2.2 id (by simp) id (List.mem_flatMap.2 ⟨c, hc, hid⟩) rfl

/-- Two different parts have no identity in common. -/
theorem Clean.child_eq {v c c' : Visit} (h : v.Clean) (hc : c ∈ v.children)
    (hc' : c' ∈ v.children) {id : ReferenceId} (hid : id ∈ c.node.ids)
    (hid' : id ∈ c'.node.ids) : c = c' := by
  by_contra he
  have hnodup := h.ids
  rw [ids_eq, List.nodup_append] at hnodup
  have : Std.Symm (Function.onFun List.Disjoint fun x : Visit => x.node.ids) :=
    ⟨fun _ _ hab _ hi hj => hab hj hi⟩
  exact (List.nodup_flatMap.1 hnodup.2.1).2.forall hc hc' he hid hid'

/-- The distance of an identity in a part is found by the visit of that part. -/
theorem Clean.distances_child {v c : Visit} (h : v.Clean) (hc : c ∈ v.children)
    {id : ReferenceId} (hid : id ∈ c.node.ids) (d : Nat) :
    (id, d) ∈ v.findings.distances ↔ (id, d) ∈ c.findings.distances := by
  rw [mem_findings_iff Findings.additive_distances]
  constructor
  · rintro (hd | ⟨c', hc', hd⟩)
    · obtain ⟨name, hr, -⟩ := mem_own_distances hd
      exact absurd hid (h.not_mem_child hr hc)
    · rw [h.child_eq hc hc' hid (mem_ids_of_mem_distances c' hd)]
      exact hd
  · exact fun hd => .inr ⟨c, hc, hd⟩

theorem Clean.distances_leads {v w : Visit} (h : v.Clean) (hw : v.Leads w)
    {id : ReferenceId} (hid : id ∈ w.node.ids) (d : Nat) :
    (id, d) ∈ v.findings.distances ↔ (id, d) ∈ w.findings.distances := by
  induction hw with
  | refl => exact Iff.rfl
  | @tail u c hu hc ih =>
    have hsub := ids_subset_of_leads (.single hc : u.Leads c) hid
    exact (ih hsub).trans ((h.leads hu).distances_child hc hid d)

/-- The distances that are found for a reference are those that its visit notes. -/
theorem Clean.distance_iff {v w : Visit} (h : v.Clean) (hw : v.Leads w) {id : ReferenceId}
    {name : Token} (hr : w.reference? = some (id, name)) (d : Nat) :
    (id, d) ∈ v.findings.distances ↔
      StaticScope.distance? w.spot.scopes name.lexeme = some d := by
  have hw' := h.leads hw
  rw [h.distances_leads hw (mem_ids_of_reference .refl hr),
    mem_findings_iff Findings.additive_distances]
  constructor
  · rintro (hd | ⟨c, hc, hd⟩)
    · obtain ⟨name', hr', hd⟩ := mem_own_distances hd
      rw [hr] at hr'
      cases hr'
      exact hd
    · exact absurd (mem_ids_of_mem_distances c hd) (hw'.not_mem_child hr hc)
  · exact fun hd => .inl (own_distances_of_reference hw'.own hr hd)

/-- No reference is visited twice. -/
theorem Clean.eq_of_reference {v u u' : Visit} (h : v.Clean) (hu : v.Leads u)
    (hu' : v.Leads u') {id : ReferenceId} {token token' : Token}
    (hr : u.reference? = some (id, token)) (hr' : u'.reference? = some (id, token')) :
    u = u' := by
  induction v using Visit.induction with
  | step v ih =>
    rcases Relation.ReflTransGen.cases_head hu with rfl | ⟨c, hc, hcu⟩ <;>
      rcases Relation.ReflTransGen.cases_head hu' with rfl | ⟨c', hc', hcu'⟩
    · rfl
    · exact absurd (mem_ids_of_reference hcu' hr') (h.not_mem_child hr hc')
    · exact absurd (mem_ids_of_reference hcu hr) (h.not_mem_child hr' hc)
    · have he := h.child_eq hc hc' (mem_ids_of_reference hcu hr) (mem_ids_of_reference hcu' hr')
      subst he
      exact ih c hc (h.child hc) hcu hcu'

end Visit

end TreeScript
