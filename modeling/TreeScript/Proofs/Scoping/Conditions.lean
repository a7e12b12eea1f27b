import TreeScript.Proofs.Scoping.Promises

/-!
# Checking programs for names that are resolved too early

* `Visit.all` — all visits that a visit leads to
* `Visit.premature` — the names in the initializer of a visited declaration that are
  resolved to its variable
* `strict_iff`, `premature_iff` — whether the programs of a session are strict, and which
  names are resolved too early, is found by going through all visits
-/

namespace TreeScript

/-! ## All visits -/

namespace Visit

/-- All visits that a visit leads to, itself included. -/
def all (v : Visit) : List Visit :=
  v :: v.children.attach.flatMap fun c => c.1.all
termination_by sizeOf v.node
decreasing_by exact sizeOf_child c.2

theorem all_eq (v : Visit) : v.all = v :: v.children.flatMap Visit.all := by
  rw [all, List.flatMap_subtype (g := Visit.all) (by simp), List.unattach_attach]

theorem mem_all_iff {v u : Visit} : u ∈ v.all ↔ v.Leads u := by
  induction v using Visit.induction with
  | step v ih =>
    rw [all_eq, List.mem_cons, List.mem_flatMap]
    constructor
    · rintro (rfl | ⟨c, hc, hu⟩)
      · exact .refl
      · exact .head hc ((ih c hc).1 hu)
    · intro hu
      rcases Relation.ReflTransGen.cases_head hu with rfl | ⟨c, hc, hcu⟩
      · exact .inl rfl
      · exact .inr ⟨c, hc, (ih c hc).2 hcu⟩

end Visit

/-- All visits of the walks over the programs of a session. -/
def visitsOf (programs : List (List Stmt)) : List Visit :=
  programs.flatMap fun program => (Visit.root program).all

theorem mem_visitsOf {programs : List (List Stmt)} {v : Visit} :
    v ∈ visitsOf programs ↔ Walked programs v := by
  simp [visitsOf, Walked, Visit.mem_all_iff]

/-! ## Strict programs -/

instance (node : Node) : Decidable node.Braced :=
  match node with
  | .statement (.conditional _ whenTrue none) =>
    decidable_of_iff (whenTrue.declaresFunction = false) (by simp [Node.Braced])
  | .statement (.conditional _ whenTrue (some whenFalse)) =>
    decidable_of_iff
      (whenTrue.declaresFunction = false ∧ whenFalse.declaresFunction = false)
      (by simp [Node.Braced])
  | .statement (.loop _ body) =>
    inferInstanceAs (Decidable (body.declaresFunction = false))
  | .statement (.expression _) | .statement (.print _) | .statement (.varDecl _ _)
  | .statement (.block _) | .statement (.leave _) | .statement (.function _)
  | .statement (.giveBack _ _) | .statement (.classDecl _ _) | .expression _
  | .statements _ | .function _ => .isTrue trivial

namespace Visit

/-- Whether a visited reference is resolved to a name of a scope on a level. -/
def hits (v : Visit) (level : Nat) (name : String) : Bool :=
  match v.reference? with
  | none => false
  | some (_, token) =>
    token.lexeme == name &&
      (StaticScope.distance? v.spot.scopes name).any
        fun distance => level + distance + 1 == v.spot.scopes.length

theorem hits_iff {v : Visit} {level : Nat} {name : String} :
    v.hits level name = true ↔ v.Targets level name := by
  unfold hits Targets
  cases v.reference? with
  | none => simp
  | some reference =>
    obtain ⟨id, token⟩ := reference
    simp only [Bool.and_eq_true, beq_iff_eq, Option.any_eq_true, Option.some.injEq,
      Prod.mk.injEq]
    constructor
    · rintro ⟨hname, distance, hd, hl⟩
      exact ⟨id, token, distance, ⟨rfl, rfl⟩, hname, hd, hl⟩
    · rintro ⟨_, _, distance, ⟨rfl, rfl⟩, hname, hd, hl⟩
      exact ⟨hname, distance, hd, hl⟩

/-- The names in the initializer of a visited declaration that are resolved to its
variable, unless the initializer is just a function written inline. -/
def premature : Visit → List Visit
  | ⟨spot, .statement (.varDecl name (some value))⟩ =>
    if spot.scopes.isEmpty || value.isInline then []
    else
      (Visit.mk (spot.declare name.lexeme false) (.expression value)).all.filter
        fun u => u.hits (spot.scopes.length - 1) name.lexeme && u.node.isName
  | _ => []

end Visit

theorem premature_iff {programs : List (List Stmt)} {u : Visit} :
    Premature programs u ↔ u ∈ (visitsOf programs).flatMap Visit.premature := by
  simp only [List.mem_flatMap, mem_visitsOf]
  constructor
  · rintro ⟨spot, name, value, hw, hs, hi, hu, ht, hn⟩
    refine ⟨_, hw, ?_⟩
    simp [Visit.premature, hs, hi, Visit.mem_all_iff, hu, Visit.hits_iff, ht, hn]
  · rintro ⟨v, hw, hu⟩
    unfold Visit.premature at hu
    split at hu
    · rename_i spot name value
      split at hu
      · cases hu
      · rename_i hc
        rw [Bool.or_eq_true, not_or, List.isEmpty_iff, Bool.not_eq_true] at hc
        simp only [List.mem_filter, Visit.mem_all_iff, Bool.and_eq_true, Visit.hits_iff] at hu
        exact ⟨spot, name, value, hw, hc.1, hc.2, hu.1, hu.2.1, hu.2.2⟩
    · cases hu

theorem not_premature {programs : List (List Stmt)}
    (h : (visitsOf programs).flatMap Visit.premature = []) (u : Visit) :
    ¬Premature programs u := by
  rw [premature_iff, h]
  exact List.not_mem_nil

end TreeScript
