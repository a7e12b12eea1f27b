import TreeScript.Proofs.Scoping.Places
import TreeScript.Proofs.Scoping.Promises
import Mathlib.Data.List.Forall2

/-!
# The resolving walk scopes lexically

* `Piece.entered`, `Piece.left` — what a piece does to the scopes before and behind what
  stands in it
* `Piece.findings_eq`, `Piece.after_eq` — the walk as one rule for all pieces
* `Piece.Fits` — the spot of the walk tells what the places of the tree tell
* `Piece.Fits.entered`, `Piece.Fits.left` — it fits again inside of a piece and behind it
* `Piece.Lists` — findings that are listed in the order of the visits
* `Piece.lists_findings` — a walk lists what is marked below the place where it starts
-/

namespace TreeScript

namespace Piece

/-! ## The walk over pieces -/

/-- The spot behind a piece. -/
def after (spot : Spot) : Piece → Spot
  | .node (.statement s) => spot.after s
  | .node (.statements ss) =>
    { spot with scopes := (Stmt.resolveAll spot.around spot.scopes ss).1 }
  | .node (.expression _) | .node (.function _) => spot
  | .parameter name => spot.declare name.lexeme true
  | .receiver => spot.declare "this" true

/-- What the walk over a piece finds. -/
def findings (spot : Spot) : Piece → Findings
  | .node n => Visit.findings ⟨spot, n⟩
  | .parameter _ | .receiver => .none

/-- What a piece finds by itself. -/
def own (spot : Spot) : Piece → Findings
  | .node n => Visit.own ⟨spot, n⟩
  | .parameter _ | .receiver => .none

/-- What the walk over pieces finds, each at the spot that the ones before leave. -/
def findingsAll (spot : Spot) : List Piece → Findings
  | [] => .none
  | first :: rest => first.findings spot ++ findingsAll (first.after spot) rest

/-- Whether a piece is an expression or a function, which declare nothing around them. -/
def isPlain : Piece → Bool
  | .node (.expression _) | .node (.function _) => true
  | _ => false

theorem isPlain_parts {e : Expr} {c : Piece} (h : c ∈ e.parts.map Piece.node) :
    c.isPlain = true := by
  obtain ⟨part, hpart, rfl⟩ := List.mem_map.1 h
  match e with
  | .constant _ | .variable .. | .self .. => cases hpart
  | .call _ _ _ =>
    rw [Expr.parts, List.mem_cons, List.mem_map] at hpart
    obtain rfl | ⟨e, -, rfl⟩ := hpart <;> rfl
  | .grouping _ | .unary .. | .binary .. | .logical .. | .ternary .. | .assign .. | .get ..
  | .set .. | .function _ =>
    simp only [Expr.parts, List.mem_cons, List.not_mem_nil, or_false] at hpart
    rcases hpart with rfl | rfl | rfl <;> rfl

/-- The spot inside of a piece.  A variable stays uninitialized in its own initializer. -/
def entered (spot : Spot) (piece : Piece) : Spot :=
  let scopes :=
    match piece.declares? with
    | some name => StaticScope.declare spot.scopes name piece.initializes?.isNone
    | none => spot.scopes
  { around :=
      { inFunction := spot.around.inFunction || piece.isFunction
        inClass := spot.around.inClass || piece.isClass }
    scopes := if piece.isConstruct then ∅ :: scopes else scopes }

/-- The spot behind a piece, from the spots before it and behind what stands in it. -/
def left (spot inside : Spot) (piece : Piece) : Spot :=
  { spot with
    scopes :=
      match piece.initializes? with
      | some name => StaticScope.declare spot.scopes name true
      | none => if piece.isConstruct then inside.scopes.tail else inside.scopes }

/-! ### Lists of pieces -/

section Lists

variable {β : Type} {f : Findings → List β} (hf : Findings.Additive f)

/-- Expressions and functions leave the scopes as they are. -/
theorem after_plain {spot : Spot} {pieces : List Piece} (h : ∀ c ∈ pieces, c.isPlain = true) :
    pieces.foldl after spot = spot := by
  induction pieces with
  | nil => rfl
  | cons c pieces ih =>
    have hc : c.after spot = spot := by
      have hp := h c List.mem_cons_self
      unfold isPlain at hp
      split at hp
      · rfl
      · rfl
      · cases hp
    rw [List.foldl_cons, hc, ih fun c hc => h c (List.mem_cons_of_mem _ hc)]

theorem after_statements (spot : Spot) (ss : List Stmt) :
    (ss.map fun s => Piece.node (.statement s)).foldl after spot =
      { spot with scopes := (Stmt.resolveAll spot.around spot.scopes ss).1 } := by
  induction ss generalizing spot with
  | nil => simp [Stmt.resolveAll]
  | cons s ss ih => simp [ih, after, Spot.after, Stmt.resolveAll]

/-- The parameters of a function are declared one after the other. -/
theorem after_parameters (around : Surroundings) (names : StaticScope)
    (outer : List StaticScope) (parameters : List Token) :
    (parameters.map Piece.parameter).foldl after ⟨around, names :: outer⟩ =
      ⟨around, parameters.foldl (fun scope p => scope.insert p.lexeme true) names :: outer⟩ := by
  induction parameters generalizing names with
  | nil => rfl
  | cons p parameters ih => exact ih _

include hf

theorem findingsAll_append (spot : Spot) (first rest : List Piece) :
    f (findingsAll spot (first ++ rest)) =
      f (findingsAll spot first) ++ f (findingsAll (first.foldl after spot) rest) := by
  induction first generalizing spot with
  | nil => simp [findingsAll, hf.none]
  | cons c first ih => simp [findingsAll, hf.append, ih]

theorem findingsAll_expressions (spot : Spot) (es : List Expr) :
    f (findingsAll spot (es.map fun e => .node (.expression e))) =
      f (Expr.resolveAll spot.around spot.scopes es) := by
  induction es with
  | nil => rfl
  | cons e es ih =>
    simp only [List.map_cons, findingsAll, Expr.resolveAll, hf.append]
    rw [after, ih]
    rfl

theorem findingsAll_functions (spot : Spot) (ds : List FunctionDecl) :
    f (findingsAll spot (ds.map fun d => .node (.function d))) =
      f (FunctionDecl.resolveAll spot.around spot.scopes ds) := by
  induction ds with
  | nil => rfl
  | cons d ds ih =>
    simp only [List.map_cons, findingsAll, FunctionDecl.resolveAll, hf.append]
    rw [after, ih]
    rfl

theorem findingsAll_statements (spot : Spot) (ss : List Stmt) :
    f (findingsAll spot (ss.map fun s => .node (.statement s))) =
      f (Stmt.resolveAll spot.around spot.scopes ss).2 := by
  induction ss generalizing spot with
  | nil => rfl
  | cons s ss ih =>
    simp only [List.map_cons, findingsAll, Stmt.resolveAll, hf.append]
    rw [after, ih]
    rfl

theorem findingsAll_parameters (spot : Spot) (parameters : List Token) :
    f (findingsAll spot (parameters.map .parameter)) = [] := by
  induction parameters generalizing spot with
  | nil => exact hf.none
  | cons p parameters ih =>
    rw [List.map_cons, findingsAll, hf.append, ih]
    simp [findings, hf.none]

end Lists

/-! ### One rule for all pieces -/

theorem tail_resolveAll (around : Surroundings) (names : StaticScope)
    (outer : List StaticScope) (ss : List Stmt) :
    (Stmt.resolveAll around (names :: outer) ss).1.tail = outer := by
  induction ss generalizing names with
  | nil => simp [Stmt.resolveAll]
  | cons s ss ih =>
    have h := s.unfolds around (names :: outer)
    simp only [Stmt.resolveAll]
    revert h
    generalize (s.resolve around (names :: outer)).1 = between
    rintro (_ | _)
    exact ih _

/-- The spot behind a piece comes from the one behind what stands in it. -/
theorem after_eq (spot : Spot) (piece : Piece) :
    piece.after spot = left spot (piece.children.foldl after (piece.entered spot)) piece := by
  match piece with
  | .node (.expression e) =>
    rw [children, after_plain fun c => isPlain_parts]
    rfl
  | .parameter _ | .receiver =>
    simp [after, left, entered, children, declares?, initializes?, isConstruct, Spot.declare]
  | .node (.statements ss) =>
    simp [after, left, entered, children, declares?, initializes?, isConstruct, isFunction,
      isClass, after_statements]
  | .node (.function ⟨_, parameters, body⟩) =>
    simp [after, left, entered, children, declares?, initializes?, isConstruct, isFunction,
      isClass, after_parameters, after_statements, tail_resolveAll]
  | .node (.statement (.classDecl name methods)) =>
    have hplain : ∀ c ∈ methods.map fun d => Piece.node (.function d), c.isPlain = true := by
      simp [isPlain]
    simp [after, Spot.after, left, entered, children, Stmt.pieces, Stmt.resolve, declares?,
      initializes?, isConstruct, isFunction, isClass, after_plain hplain, Spot.declare,
      StaticScope.declare]
  | .node (.statement (.expression _)) | .node (.statement (.print _))
  | .node (.statement (.varDecl _ none)) | .node (.statement (.varDecl _ (some _)))
  | .node (.statement (.block _)) | .node (.statement (.conditional _ _ none))
  | .node (.statement (.conditional _ _ (some _))) | .node (.statement (.loop _ _))
  | .node (.statement (.leave _)) | .node (.statement (.function ⟨none, _, _⟩))
  | .node (.statement (.function ⟨some _, _, _⟩)) | .node (.statement (.giveBack _ none))
  | .node (.statement (.giveBack _ (some _))) =>
    simp [after, Spot.after, left, entered, children, Stmt.pieces, Stmt.resolve, declares?,
      initializes?, isConstruct, isFunction, isClass, after_statements, tail_resolveAll]

section Findings

variable {β : Type} {f : Findings → List β} (hf : Findings.Additive f)
include hf

/-- A piece finds what it finds itself and what stands in it finds, an assignment the other
way round. -/
theorem findings_eq (spot : Spot) (piece : Piece) :
    f (piece.findings spot) =
      if piece.isAssignment then
        f (findingsAll (piece.entered spot) piece.children) ++ f (piece.own spot)
      else f (piece.own spot) ++ f (findingsAll (piece.entered spot) piece.children) := by
  match piece with
  | .node (.expression e) =>
    cases e <;>
      simp [findings, own, entered, children, isAssignment, isFunction, isClass, isConstruct,
        declares?, Expr.parts, Expr.resolve, Visit.findings, Visit.own, hf.append, hf.none,
        findingsAll, findingsAll_expressions hf, after, Function.comp_def]
  | .parameter _ | .receiver =>
    simp [findings, own, children, isAssignment, findingsAll, hf.none]
  | .node (.statements ss) =>
    simp [findings, own, entered, children, isAssignment, isFunction, isClass, isConstruct,
      declares?, Visit.findings, Visit.own, hf.none, findingsAll_statements hf]
  | .node (.function ⟨_, parameters, body⟩) =>
    simp [findings, own, entered, children, isAssignment, isFunction, isClass, isConstruct,
      declares?, Visit.findings, Visit.own, hf.none, findingsAll_append hf,
      findingsAll_parameters hf, findingsAll_statements hf, after_parameters,
      FunctionDecl.resolve, StaticScope.ofParameters]
  | .node (.statement (.classDecl name methods)) =>
    simp [findings, own, entered, children, isAssignment, isFunction, isClass, isConstruct,
      initializes?, declares?, Stmt.pieces, Stmt.resolve, Visit.findings, Visit.own, hf.append,
      hf.none, findingsAll, findingsAll_functions hf, after, Spot.declare,
      StaticScope.declare, StaticScope.ofClass]
  | .node (.statement (.expression _)) | .node (.statement (.print _))
  | .node (.statement (.varDecl _ none)) | .node (.statement (.varDecl _ (some _)))
  | .node (.statement (.block _)) | .node (.statement (.conditional _ _ none))
  | .node (.statement (.conditional _ _ (some _))) | .node (.statement (.loop _ _))
  | .node (.statement (.leave _)) | .node (.statement (.function ⟨none, _, _⟩))
  | .node (.statement (.function ⟨some _, _, _⟩)) | .node (.statement (.giveBack _ none))
  | .node (.statement (.giveBack _ (some _))) =>
    simp [findings, own, entered, children, isAssignment, isFunction, isClass, isConstruct,
      initializes?, declares?, Stmt.pieces, Stmt.resolve, Visit.findings, Visit.own, hf.append,
      hf.none, findingsAll, findingsAll_statements hf, after, Spot.after]

end Findings

/-! ## Places inside of a piece -/

variable {root piece : Piece} {c d p q s : Place} {i j : Nat} {name : String}

theorem declares_iff (hp : root.at? p = some piece) :
    root.Declares p name ↔ piece.declares? = some name := by
  rw [Declares, hp, Option.bind_some]

theorem initializes_iff (hp : root.at? p = some piece) :
    root.Initializes p name ↔ piece.initializes? = some name := by
  rw [Initializes, hp, Option.bind_some]

theorem Initializes.declares (h : root.Initializes p name) : root.Declares p name := by
  obtain ⟨piece, hp, hi⟩ := Option.bind_eq_some_iff.1 h
  exact (declares_iff hp).2 (declares?_of_initializes? hi)

theorem not_isPlain_of_declares? (h : piece.declares? = some name) : piece.isPlain = false := by
  unfold isPlain
  split
  · cases h
  · cases h
  · rfl

/-- Only the branches of a piece lead to something. -/
theorem lt_of_branch (hp : root.at? p = some piece) (hd : (root.at? d).isSome)
    (h : p ++ [i] <+: d) : i < piece.children.length := by
  obtain ⟨rest, rfl⟩ := h
  by_contra hi
  have hnone : root.at? (p ++ [i]) = none := by
    rw [at?_concat, hp, Option.bind_some, List.getElem?_eq_none (Nat.le_of_not_lt hi)]
  rw [at?_append, hnone] at hd
  cases hd

/-- What stands before the place behind all branches of a piece. -/
theorem lt_concat_length (hp : root.at? p = some piece) (hd : (root.at? d).isSome) :
    d < p ++ [piece.children.length] ↔ d < p ∨ p <+: d := by
  rw [Place.lt_concat]
  constructor
  · rintro (h | rfl | ⟨i, _, h⟩)
    · exact .inl h
    · exact .inr List.prefix_rfl
    · exact .inr ((List.prefix_append _ _).trans h)
  · rintro (h | h)
    · exact .inl h
    · by_cases hpd : p = d
      · exact .inr (.inl hpd.symm)
      · obtain ⟨i, hi⟩ := Place.Above.exists_branch ⟨h, hpd⟩
        exact .inr (.inr ⟨i, lt_of_branch hp hd hi, hi⟩)

/-- What stands in the initializer of a variable, but in no construct there, is an
expression or a function. -/
theorem isPlain_of_initializes (hs : root.Initializes s name) (hsd : s.Above d)
    (hd : root.at? d = some piece) (hc : (root.enclosing d).head? = some c) (hcs : c.Above s) :
    piece.isPlain = true := by
  induction d using List.reverseRecOn generalizing piece with
  | nil => exact absurd (List.prefix_nil.1 hsd.1) hsd.2
  | append_singleton d i ih =>
    rw [at?_concat] at hd
    obtain ⟨above, ha, hi⟩ := Option.bind_eq_some_iff.1 hd
    obtain hsd | rfl := Place.above_concat.1 hsd
    · rw [enclosing_concat] at hc
      split at hc
      · obtain rfl : d = c := by simpa using hc
        exact absurd hsd.1 hcs.not_isPrefix
      · rename_i hopen
        have hplain := ih hsd ha hc
        unfold isPlain at hplain
        split at hplain
        · exact isPlain_parts (List.mem_of_getElem? hi)
        · exact absurd (by rw [opensScope, ha]; rfl) hopen
        · cases hplain
    · have hinit := (initializes_iff ha).1 hs
      unfold initializes? at hinit
      split at hinit
      · cases i with
        | zero =>
          obtain rfl : Piece.node (.expression _) = piece := by
            simpa [children, Stmt.pieces] using hi
          rfl
        | succ i => simp [children, Stmt.pieces] at hi
      · cases hinit

/-! ## What the scopes tell -/

/-- A scope as the walk has it when it comes to a place: it holds the names that belong to a
construct and are declared earlier.  Those of the variables in whose initializers the place
lies are not initialized yet. -/
structure Shows (root : Piece) (p c : Place) (names : StaticScope) : Prop where
  declared : ∀ x : String,
    x ∈ names ↔ ∃ d < p, root.Declares d x ∧ (root.enclosing d).head? = some c
  uninitialized : ∀ x : String,
    names[x]? = some false ↔
      ∃ s : Place, s.Above p ∧ root.Initializes s x ∧ (root.enclosing s).head? = some c

/-- What the walk knows when it comes to a place is what the places of the tree tell. -/
structure Fits (root : Piece) (p : Place) (spot : Spot) : Prop where
  inFunction : spot.around.inFunction = true ↔ root.Within isFunction p
  inClass : spot.around.inClass = true ↔ root.Within isClass p
  scopes : List.Forall₂ (root.Shows p) (root.enclosing p) spot.scopes

variable {names : StaticScope} {scopes : List StaticScope} {b : Bool}

theorem Shows.congr (h : root.Shows p c names)
    (hseen : ∀ (d : Place) (x : String), root.Declares d x →
      (root.enclosing d).head? = some c → (d < q ↔ d < p))
    (hopen : ∀ (s : Place) (x : String), root.Initializes s x →
      (root.enclosing s).head? = some c → (s.Above q ↔ s.Above p)) :
    root.Shows q c names where
  declared x := by
    rw [h.declared x]
    constructor
    · rintro ⟨d, hd, hx, hc⟩
      exact ⟨d, (hseen d x hx hc).2 hd, hx, hc⟩
    · rintro ⟨d, hd, hx, hc⟩
      exact ⟨d, (hseen d x hx hc).1 hd, hx, hc⟩
  uninitialized x := by
    rw [h.uninitialized x]
    constructor
    · rintro ⟨s, hs, hx, hc⟩
      exact ⟨s, (hopen s x hx hc).2 hs, hx, hc⟩
    · rintro ⟨s, hs, hx, hc⟩
      exact ⟨s, (hopen s x hx hc).1 hs, hx, hc⟩

/-- A declaration adds one name to the scope of its construct. -/
theorem Shows.insert (h : root.Shows p c names) (hp : root.Declares p name)
    (hpc : (root.enclosing p).head? = some c)
    (hseen : ∀ (d : Place) (x : String), root.Declares d x →
      (root.enclosing d).head? = some c → (d < q ↔ d < p ∨ d = p))
    (hopen : ∀ (s : Place) (x : String), x ≠ name → root.Initializes s x →
      (root.enclosing s).head? = some c → (s.Above q ↔ s.Above p))
    (hb : b = false ↔ ∃ s : Place,
      s.Above q ∧ root.Initializes s name ∧ (root.enclosing s).head? = some c) :
    root.Shows q c (names.insert name b) where
  declared x := by
    rw [Std.TreeMap.mem_insert, Std.LawfulEqCmp.compare_eq_iff_eq, h.declared x]
    constructor
    · rintro (rfl | ⟨d, hd, hx, hc⟩)
      · exact ⟨p, (hseen p name hp hpc).2 (.inr rfl), hp, hpc⟩
      · exact ⟨d, (hseen d x hx hc).2 (.inl hd), hx, hc⟩
    · rintro ⟨d, hd, hx, hc⟩
      obtain hd | rfl := (hseen d x hx hc).1 hd
      · exact .inr ⟨d, hd, hx, hc⟩
      · exact .inl (Option.some.inj (hp.symm.trans hx))
  uninitialized x := by
    rw [StaticScope.getElem?_insert]
    split
    · subst x
      rw [Option.some.injEq, hb]
    · rename_i hx
      rw [h.uninitialized x]
      constructor
      · rintro ⟨s, hs, hi, hc⟩
        exact ⟨s, (hopen s x (Ne.symm hx) hi hc).2 hs, hi, hc⟩
      · rintro ⟨s, hs, hi, hc⟩
        exact ⟨s, (hopen s x (Ne.symm hx) hi hc).1 hs, hi, hc⟩

/-- A declaration touches the innermost scope only. -/
theorem shows_declare (hs : List.Forall₂ (root.Shows p) (root.enclosing p) scopes)
    (hp : root.Declares p name)
    (hseen : ∀ (d c : Place) (x : String), root.Declares d x →
      (root.enclosing d).head? = some c → c ∈ root.enclosing p → (d < q ↔ d < p ∨ d = p))
    (hopen : ∀ s : Place, s ≠ p → (s.Above q ↔ s.Above p))
    (hb : b = false ↔ p.Above q ∧ root.Initializes p name) :
    List.Forall₂ (root.Shows q) (root.enclosing p) (StaticScope.declare scopes name b) := by
  have hchain : (root.enclosing p).Pairwise fun e c => c.Above e := pairwise_enclosing
  generalize hcs : root.enclosing p = cs at hs hseen hchain
  cases hs with
  | nil => exact .nil
  | @cons c names cs outer hc houter =>
    have hpc : (root.enclosing p).head? = some c := by rw [hcs, List.head?_cons]
    refine .cons (hc.insert hp hpc (fun d x hx hd => hseen d c x hx hd List.mem_cons_self)
      (fun s x hne hi _ => hopen s ?_) ?_) ?_
    · rintro rfl
      exact hne (Option.some.inj (hi.declares.symm.trans hp))
    · rw [hb]
      constructor
      · rintro ⟨hpq, hi⟩
        exact ⟨p, hpq, hi, hpc⟩
      · rintro ⟨s, hsq, hi, hsc⟩
        by_cases hsp : s = p
        · subst s
          exact ⟨hsq, hi⟩
        -- a variable whose initializer contains a declaration of the same construct
        obtain ⟨piece, hpiece, hdecl⟩ := Option.bind_eq_some_iff.1 hp
        have hplain := isPlain_of_initializes hi ((hopen s hsp).1 hsq) hpiece hpc
          (above_of_innermost hsc)
        rw [not_isPlain_of_declares? hdecl] at hplain
        cases hplain
    -- the constructs further out are others than the one that `p` belongs to
    · have hother : ∀ c' ∈ cs, c' ≠ c := by
        rintro c' hc' rfl
        exact Place.not_above_self (List.rel_of_pairwise_cons hchain hc')
      have hne : ∀ c' ∈ cs, ∀ d, (root.enclosing d).head? = some c' → d ≠ p := by
        rintro c' hc' d hd rfl
        exact hother c' hc' (Option.some.inj (hd.symm.trans hpc))
      refine ((List.forall₂_and_left _ _).2 ⟨fun c' hc' => hc', houter⟩).imp ?_
      rintro c' names' ⟨hc', hnames⟩
      refine hnames.congr (fun d x hx hd => ?_) fun s x _ hs => hopen s (hne c' hc' s hs)
      rw [hseen d c' x hx hd (List.mem_cons_of_mem c hc'), or_iff_left (hne c' hc' d hd)]

/-- What a place inside of a piece has in sight. -/
theorem Fits.entered {spot : Spot} (h : root.Fits p spot) (hp : root.at? p = some piece) :
    root.Fits (p ++ [0]) (piece.entered spot) where
  inFunction := by
    rw [within_concat, hp, Option.any_some, ← h.inFunction, Piece.entered, Bool.or_eq_true]
  inClass := by
    rw [within_concat, hp, Option.any_some, ← h.inClass, Piece.entered, Bool.or_eq_true]
  scopes := by
    have hscopes : List.Forall₂ (root.Shows (p ++ [0])) (root.enclosing p)
        (match piece.declares? with
          | some name => StaticScope.declare spot.scopes name piece.initializes?.isNone
          | none => spot.scopes) := by
      cases hdecl : piece.declares? with
      | some name =>
        have hdp := (declares_iff hp).2 hdecl
        refine shows_declare h.scopes hdp (fun d _ _ _ _ _ => Place.lt_concat_zero)
          (fun s hs => Place.above_concat.trans (or_iff_left hs)) ?_
        rw [and_iff_right (Place.above_concat.2 (.inr rfl)), initializes_iff hp]
        cases hi : piece.initializes? with
        | none => simp
        | some x =>
          obtain rfl := Option.some.inj ((declares?_of_initializes? hi).symm.trans hdecl)
          simp
      | none =>
        have hnot : ∀ x, ¬ root.Declares p x := fun x hx => by
          rw [declares_iff hp, hdecl] at hx
          cases hx
        refine h.scopes.imp fun c names hc => hc.congr (fun d x hx _ => ?_) fun s x hx _ => ?_
        · rw [Place.lt_concat_zero, or_iff_left]
          rintro rfl
          exact hnot x hx
        · rw [Place.above_concat, or_iff_left]
          rintro rfl
          exact hnot x hx.declares
    have hopen : root.opensScope p = piece.isConstruct := by
      rw [opensScope, hp, Option.any_some]
    rw [enclosing_concat, hopen, Piece.entered]
    split
    -- nothing belongs to the construct before its first branch
    · refine .cons ⟨fun x => ?_, fun x => ?_⟩ hscopes
      · refine iff_of_false (by simp) ?_
        rintro ⟨d, hd, -, hpd⟩
        exact (above_of_innermost hpd).not_lt_concat_zero hd
      · refine iff_of_false (by simp) ?_
        rintro ⟨s, hs, -, hps⟩
        obtain hs | rfl := Place.above_concat.1 hs
        · exact (above_of_innermost hps).not_isPrefix hs.1
        · exact Place.not_above_self (above_of_innermost hps)
    · exact hscopes

/-- What the place behind a piece has in sight. -/
theorem Fits.left {spot inside : Spot} (h : root.Fits (q ++ [j]) spot)
    (hp : root.at? (q ++ [j]) = some piece)
    (hin : root.Fits (q ++ [j] ++ [piece.children.length]) inside) :
    root.Fits (q ++ [j + 1]) (piece.left spot inside) where
  inFunction := by rw [within_concat, ← within_concat, Piece.left, h.inFunction]
  inClass := by rw [within_concat, ← within_concat, Piece.left, h.inClass]
  scopes := by
    have habove : ∀ s : Place, s.Above (q ++ [j + 1]) ↔ s.Above (q ++ [j]) := fun s =>
      Place.above_concat.trans Place.above_concat.symm
    have henclosing : root.enclosing (q ++ [j + 1]) = root.enclosing (q ++ [j]) :=
      enclosing_concat.trans enclosing_concat.symm
    rw [henclosing, Piece.left]
    cases hi : piece.initializes? with
    | some name =>
      have hip := (initializes_iff hp).2 hi
      refine shows_declare h.scopes hip.declares (fun d c x hx hd hc => ?_)
        (fun s _ => habove s) ?_
      · rw [Place.lt_concat_succ]
        refine or_congr_right ⟨fun hpd => ?_, fun hpd => hpd ▸ List.prefix_rfl⟩
        by_contra hne
        -- what is declared in the initializer belongs to a construct in there
        obtain ⟨piece', hpiece, hdecl⟩ := Option.bind_eq_some_iff.1 hx
        have hplain := isPlain_of_initializes hip ⟨hpd, Ne.symm hne⟩ hpiece hd
          (mem_enclosing.1 hc).1
        rw [not_isPlain_of_declares? hdecl] at hplain
        cases hplain
      · rw [habove]
        simp [Place.not_above_self]
    | none =>
      have hscopes : List.Forall₂ (root.Shows (q ++ [j] ++ [piece.children.length]))
          (root.enclosing (q ++ [j]))
          (if piece.isConstruct then inside.scopes.tail else inside.scopes) := by
        have hopen : root.opensScope (q ++ [j]) = piece.isConstruct := by
          rw [opensScope, hp, Option.any_some]
        have hins := hin.scopes
        rw [enclosing_concat, hopen] at hins
        split at hins
        · rename_i hc
          rw [if_pos hc]
          obtain ⟨names, outer, -, houter, heq⟩ := List.forall₂_cons_left_iff.1 hins
          rwa [heq]
        · rename_i hc
          rwa [if_neg hc]
      refine hscopes.imp fun c names hc => hc.congr (fun d x hx _ => ?_) fun s x hx _ => ?_
      · obtain ⟨piece', hpiece, -⟩ := Option.bind_eq_some_iff.1 hx
        rw [Place.lt_concat_succ, lt_concat_length hp (by rw [hpiece]; rfl)]
      · rw [habove, Place.above_concat (p := q ++ [j]), or_iff_left]
        rintro rfl
        rw [initializes_iff hp, hi] at hx
        cases hx

end Piece

end TreeScript
