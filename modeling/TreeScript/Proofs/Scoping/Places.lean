import TreeScript.Proofs.Scoping.Visits
import Mathlib.Data.List.Infix
import Mathlib.Data.List.Pairwise

/-!
# The places of a program

What lexical scoping says of a program, told by the places of its tree alone: no walk and
no stack of scopes is mentioned here.

* `Piece` — what can stand at a place of the tree of a program
* `Piece.Place` — a place of the tree; `p < q` says that `p` comes earlier in the order of the tree
* `Piece.enclosing` — the places of the constructs around a place that open a scope
* `Piece.Visible` — a construct around a place that has an earlier declaration of a name
* `Piece.Distance` — how many constructs lie between a place and the innermost visible one
* `Piece.Refers` — what refers to a name
* `Piece.Faulty` — what is at fault
* `Piece.Precedes` — the order in which the places are visited
* `Piece.exists_distance_iff` — a name has a distance just where it is visible
-/

namespace TreeScript

/-! ## Pieces -/

/-- What can stand at a place of the tree of a program: a node, a parameter of a function, or
the object that the methods of a class are called on. -/
inductive Piece where
  | node (n : Node)
  | parameter (name : Token)
  | receiver

/-- What stands directly in a statement, from left to right. -/
def Stmt.pieces : Stmt → List Piece
  | .expression value | .print value | .varDecl _ (some value) | .giveBack _ (some value) =>
    [.node (.expression value)]
  | .varDecl _ none | .giveBack _ none | .leave _ => []
  | .block body => body.map fun s => .node (.statement s)
  | .conditional condition whenTrue none =>
    [.node (.expression condition), .node (.statement whenTrue)]
  | .conditional condition whenTrue (some whenFalse) =>
    [.node (.expression condition), .node (.statement whenTrue), .node (.statement whenFalse)]
  | .loop condition body => [.node (.expression condition), .node (.statement body)]
  | .function declaration => [.node (.function declaration)]
  | .classDecl _ methods => .receiver :: methods.map fun method => .node (.function method)

namespace Piece

/-- What stands directly in a piece, from left to right. -/
def children : Piece → List Piece
  | .node (.expression e) => e.parts.map .node
  | .node (.statement s) => s.pieces
  | .node (.statements ss) => ss.map fun s => .node (.statement s)
  | .node (.function declaration) =>
    declaration.parameters.map .parameter ++
      declaration.body.map fun s => .node (.statement s)
  | .parameter _ | .receiver => []

/-- The constructs that open a scope: a block, a class, and a function with its parameters. -/
def isConstruct : Piece → Bool
  | .node (.statement (.block _)) | .node (.statement (.classDecl ..))
  | .node (.function _) => true
  | _ => false

/-- The name that a piece declares. -/
def declares? : Piece → Option String
  | .node (.statement (.varDecl name _)) | .node (.statement (.classDecl name _))
  | .parameter name => some name.lexeme
  | .node (.statement (.function declaration)) => declaration.name.map Token.lexeme
  | .receiver => some "this"
  | _ => none

/-- The name of a variable that is declared with an initializer. -/
def initializes? : Piece → Option String
  | .node (.statement (.varDecl name (some _))) => some name.lexeme
  | _ => none

/-- Whether a piece is a function with its parameters. -/
def isFunction : Piece → Bool
  | .node (.function _) => true
  | _ => false

/-- Whether a piece is a class. -/
def isClass : Piece → Bool
  | .node (.statement (.classDecl ..)) => true
  | _ => false

/-- Whether a piece is an assignment. -/
def isAssignment : Piece → Bool
  | .node (.expression (.assign ..)) => true
  | _ => false

/-- The piece that a whole program is. -/
def program (statements : List Stmt) : Piece :=
  .node (.statements statements)

theorem declares?_of_initializes? {piece : Piece} {name : String}
    (h : piece.initializes? = some name) : piece.declares? = some name := by
  unfold initializes? at h
  split at h
  · exact h
  · cases h

end Piece

/-! ## Places -/

/-- A place of a tree: which branch to take at each node on the way from the root. -/
abbrev Piece.Place := List Nat

namespace Piece.Place

/-- A place lies on the way from the root to another one. -/
def Above (c p : Place) : Prop :=
  c <+: p ∧ c ≠ p

instance (c p : Place) : Decidable (c.Above p) :=
  inferInstanceAs (Decidable (_ ∧ _))

variable {c d p q : Place} {i j : Nat}

theorem not_concat_isPrefix : ¬ p ++ [i] <+: p := by
  intro h
  have hlen := h.length_le
  rw [List.length_append] at hlen
  exact Nat.not_succ_le_self _ hlen

/-- Above a branch of a place are the place and what is above it. -/
theorem above_concat : c.Above (p ++ [i]) ↔ c.Above p ∨ c = p := by
  constructor
  · rintro ⟨h, hne⟩
    obtain h | h := List.prefix_concat_iff.1 h
    · exact absurd h hne
    · by_cases hc : c = p
      · exact .inr hc
      · exact .inl ⟨h, hc⟩
  · rintro (⟨h, -⟩ | rfl)
    · refine ⟨h.trans (List.prefix_append p [i]), ?_⟩
      rintro rfl
      exact not_concat_isPrefix h
    · exact ⟨List.prefix_append c [i], by simp⟩

theorem not_above_self : ¬ c.Above c := fun h => h.2 rfl

theorem Above.not_isPrefix (h : c.Above d) : ¬ d <+: c := fun h' => h.2 (antisymm h.1 h')

theorem above_of_branch (h : p ++ [i] <+: q) : p.Above q :=
  ⟨(List.prefix_append p [i]).trans h, by
    rintro rfl
    exact not_concat_isPrefix h⟩

/-- What lies below a place lies below one of its branches. -/
theorem Above.exists_branch (h : p.Above d) : ∃ i, p ++ [i] <+: d := by
  obtain ⟨⟨rest, rfl⟩, hne⟩ := h
  cases rest with
  | nil => simp at hne
  | cons i rest => exact ⟨i, rest, by simp⟩

theorem branch_unique (hi : p ++ [i] <+: d) (hj : p ++ [j] <+: d) : i = j := by
  have heq : p ++ [i] = p ++ [j] :=
    (List.prefix_of_prefix_length_le hi hj (by simp)).eq_of_length (by simp)
  simpa using heq

/-! ### The order of the tree -/

/-- Nothing comes between a place and its first branch. -/
theorem lt_concat_zero : d < p ++ [0] ↔ d < p ∨ d = p := by
  induction p generalizing d with
  | nil =>
    cases d with
    | nil => simp
    | cons j d => simp [List.cons_lt_cons_iff]
  | cons i p ih =>
    cases d with
    | nil => simp
    | cons j d =>
      rw [List.cons_append, List.cons_lt_cons_iff, List.cons_lt_cons_iff, ih, List.cons.injEq]
      tauto

/-- Between a branch and the next one comes what lies below the branch. -/
theorem lt_concat_succ : d < p ++ [j + 1] ↔ d < p ++ [j] ∨ p ++ [j] <+: d := by
  induction p generalizing d with
  | nil =>
    cases d with
    | nil => simp
    | cons k d =>
      simp only [List.nil_append, List.cons_lt_cons_iff, List.not_lt_nil, and_false, or_false,
        List.cons_prefix_cons, List.nil_prefix, and_true]
      omega
  | cons i p ih =>
    cases d with
    | nil => simp
    | cons k d =>
      rw [List.cons_append, List.cons_append, List.cons_lt_cons_iff, List.cons_lt_cons_iff, ih,
        List.cons_prefix_cons]
      constructor
      · rintro (h | ⟨rfl, h | h⟩)
        · exact .inl (.inl h)
        · exact .inl (.inr ⟨rfl, h⟩)
        · exact .inr ⟨rfl, h⟩
      · rintro ((h | ⟨rfl, h⟩) | ⟨rfl, h⟩)
        · exact .inl h
        · exact .inr ⟨rfl, .inl h⟩
        · exact .inr ⟨rfl, .inr h⟩

/-- What comes before a later branch comes before the place, is the place, or lies below
an earlier branch. -/
theorem lt_concat {n : Nat} :
    d < p ++ [n] ↔ d < p ∨ d = p ∨ ∃ i < n, p ++ [i] <+: d := by
  induction n with
  | zero => simp [lt_concat_zero]
  | succ n ih =>
    rw [lt_concat_succ, ih]
    constructor
    · rintro ((h | h | ⟨i, hi, h⟩) | h)
      · exact .inl h
      · exact .inr (.inl h)
      · exact .inr (.inr ⟨i, hi.trans n.lt_succ_self, h⟩)
      · exact .inr (.inr ⟨n, n.lt_succ_self, h⟩)
    · rintro (h | h | ⟨i, hi, h⟩)
      · exact .inl (.inl h)
      · exact .inl (.inr (.inl h))
      · obtain hi | rfl := Nat.lt_succ_iff_lt_or_eq.1 hi
        · exact .inl (.inr (.inr ⟨i, hi, h⟩))
        · exact .inr h

/-- What lies below a branch comes before what lies below a later branch. -/
theorem lt_of_branches (hij : i < j) (hc : p ++ [i] <+: c) (hd : p ++ [j] <+: d) : c < d := by
  obtain ⟨a, rfl⟩ := hc
  obtain ⟨b, rfl⟩ := hd
  induction p with
  | nil => exact List.cons_lt_cons_iff.2 (.inl hij)
  | cons k p ih => simpa [List.cons_lt_cons_iff] using ih

/-- A place comes before what lies below it. -/
theorem Above.lt (h : c.Above p) : c < p := by
  obtain ⟨⟨a, rfl⟩, hne⟩ := h
  induction c with
  | nil =>
    cases a with
    | nil => exact absurd rfl hne
    | cons i a => exact List.nil_lt_cons i a
  | cons k c ih => exact List.cons_lt_cons_iff.2 (.inr ⟨rfl, ih (by simpa using hne)⟩)

/-- What lies below a place does not come before its first branch. -/
theorem Above.not_lt_concat_zero (h : p.Above d) : ¬ d < p ++ [0] := by
  rw [lt_concat_zero]
  rintro (hlt | rfl)
  · exact List.lt_irrefl d (List.lt_trans hlt h.lt)
  · exact not_above_self h

end Piece.Place

namespace Piece

/-! ## What stands where -/

/-- What stands at a place. -/
def at? : Piece → Place → Option Piece
  | root, [] => some root
  | root, i :: p => root.children[i]?.bind fun child => child.at? p

variable (root : Piece)

theorem at?_append (p q : Place) :
    root.at? (p ++ q) = (root.at? p).bind fun piece => piece.at? q := by
  induction p generalizing root with
  | nil => rfl
  | cons i p ih =>
    rw [List.cons_append, at?, at?, Option.bind_assoc]
    congr
    funext child
    exact ih child

theorem at?_concat (p : Place) (i : Nat) :
    root.at? (p ++ [i]) = (root.at? p).bind fun piece => piece.children[i]? := by
  rw [at?_append]
  congr
  funext piece
  simp [at?]

/-- What stands at a place declares a name. -/
def Declares (p : Place) (name : String) : Prop :=
  (root.at? p).bind declares? = some name

/-- What stands at a place declares a variable with an initializer. -/
def Initializes (p : Place) (name : String) : Prop :=
  (root.at? p).bind initializes? = some name

/-- What stands at a place opens a scope. -/
def opensScope (p : Place) : Bool :=
  (root.at? p).any isConstruct

/-- A piece of some kind stands above a place. -/
def Within (kind : Piece → Bool) (p : Place) : Prop :=
  ∃ c : Place, c.Above p ∧ (root.at? c).any kind = true

/-! ## Lexical scoping -/

/-- The constructs around a place that open a scope, the innermost one first. -/
def enclosing (p : Place) : List Place :=
  ((List.range p.length).reverse.map p.take).filter root.opensScope

/-- A construct around a place has an earlier declaration of a name that belongs directly to
it. -/
def Visible (p : Place) (name : String) (c : Place) : Prop :=
  c ∈ root.enclosing p ∧
    ∃ d < p, root.Declares d name ∧ (root.enclosing d).head? = some c

/-- The number of constructs around a place that lie strictly inside the innermost visible
construct of a name. -/
def Distance (p : Place) (name : String) (n : Nat) : Prop :=
  ∃ c, root.Visible p name c ∧ (∀ c', root.Visible p name c' → c' <+: c) ∧
    n = ((root.enclosing p).filter fun e => c.Above e).length

/-- The expression at a place refers to a name of the scopes around it.  Outside of classes
there is nothing that `this` could refer to. -/
inductive Refers (p : Place) : ReferenceId → String → Prop
  | read {id : ReferenceId} {name : Token} :
    root.at? p = some (.node (.expression (.variable id name))) → Refers p id name.lexeme
  | write {id : ReferenceId} {name : Token} {value : Expr} :
    root.at? p = some (.node (.expression (.assign id name value))) → Refers p id name.lexeme
  | self {id : ReferenceId} {keyword : Token} :
    root.at? p = some (.node (.expression (.self id keyword))) → root.Within isClass p →
    Refers p id keyword.lexeme

/-- What stands at a place is at fault.  A variable is read in its own initializer if it is
declared in the same scope, by a statement above the place; the globals belong to no scope. -/
inductive Faulty (p : Place) : Diagnostic → Prop
  | returnOutsideFunction {keyword : Token} {value : Option Expr} :
    root.at? p = some (.node (.statement (.giveBack keyword value))) →
    ¬ root.Within isFunction p → Faulty p (.scopeAt keyword .returnOutsideFunction)
  | thisOutsideClass {id : ReferenceId} {keyword : Token} :
    root.at? p = some (.node (.expression (.self id keyword))) → ¬ root.Within isClass p →
    Faulty p (.scopeAt keyword .thisOutsideClass)
  | ownInitializer {id : ReferenceId} {name : Token} {s c : Place} :
    root.at? p = some (.node (.expression (.variable id name))) →
    s.Above p → root.Initializes s name.lexeme → (root.enclosing s).head? = some c →
    (root.enclosing p).head? = some c → Faulty p (.scopeAt name .ownInitializer)

/-- What stands at a place is visited before what stands at another one: in the order of the
tree, but an assignment comes behind its value. -/
def Precedes (p q : Place) : Prop :=
  p < q ∧ ¬ (p.Above q ∧ (root.at? p).any isAssignment = true) ∨
    q.Above p ∧ (root.at? q).any isAssignment = true

/-! ## Constructs around a place -/

variable {root} {c d p q : Place} {i : Nat} {name : String}

theorem within_concat {kind : Piece → Bool} :
    root.Within kind (p ++ [i]) ↔ root.Within kind p ∨ (root.at? p).any kind = true := by
  constructor
  · rintro ⟨c, hc, hk⟩
    obtain hc | rfl := Place.above_concat.1 hc
    · exact .inl ⟨c, hc, hk⟩
    · exact .inr hk
  · rintro (⟨c, hc, hk⟩ | hk)
    · exact ⟨c, Place.above_concat.2 (.inl hc), hk⟩
    · exact ⟨p, Place.above_concat.2 (.inr rfl), hk⟩

theorem enclosing_concat :
    root.enclosing (p ++ [i]) =
      if root.opensScope p then p :: root.enclosing p else root.enclosing p := by
  have hmap : (List.range p.length).reverse.map (p ++ [i]).take =
      (List.range p.length).reverse.map p.take := by
    refine List.map_congr_left fun k hk => ?_
    rw [List.mem_reverse, List.mem_range] at hk
    exact List.take_append_of_le_length hk.le
  rw [enclosing, List.length_append, List.length_singleton, List.range_succ,
    List.reverse_append, List.reverse_singleton, List.singleton_append, List.map_cons, hmap,
    List.take_left, List.filter_cons, enclosing]

theorem mem_enclosing : c ∈ root.enclosing p ↔ c.Above p ∧ root.opensScope c = true := by
  induction p using List.reverseRecOn with
  | nil =>
    constructor
    · intro h
      cases h
    · rintro ⟨⟨h, hne⟩, -⟩
      exact absurd (List.prefix_nil.1 h) hne
  | append_singleton p i ih =>
    rw [enclosing_concat, Place.above_concat]
    split
    · rw [List.mem_cons, ih]
      constructor
      · rintro (rfl | ⟨h, hc⟩)
        · exact ⟨.inr rfl, ‹_›⟩
        · exact ⟨.inl h, hc⟩
      · rintro ⟨h | rfl, hc⟩
        · exact .inr ⟨h, hc⟩
        · exact .inl rfl
    · rw [ih]
      constructor
      · rintro ⟨h, hc⟩
        exact ⟨.inl h, hc⟩
      · rintro ⟨h | rfl, hc⟩
        · exact ⟨h, hc⟩
        · contradiction

/-- The constructs around a place are nested. -/
theorem pairwise_enclosing : (root.enclosing p).Pairwise fun e c => c.Above e := by
  induction p using List.reverseRecOn with
  | nil => exact .nil
  | append_singleton p i ih =>
    rw [enclosing_concat]
    split
    · exact .cons (fun c hc => (mem_enclosing.1 hc).1) ih
    · exact ih

theorem above_of_innermost (h : (root.enclosing d).head? = some c) : c.Above d :=
  (mem_enclosing.1 (List.mem_of_mem_head? h)).1

/-! ## Distances -/

/-- The index of a construct tells how many constructs lie inside of it. -/
theorem length_filter_enclosing {n : Nat} (h : (root.enclosing p)[n]? = some c) :
    ((root.enclosing p).filter fun e => c.Above e).length = n := by
  have hp : (root.enclosing p).Pairwise fun e c => c.Above e := pairwise_enclosing
  generalize root.enclosing p = cs at h hp
  induction hp generalizing n with
  | nil => cases h
  | @cons e cs he _ ih =>
    cases n with
    | zero =>
      obtain rfl : e = c := by simpa using h
      rw [List.filter_cons_of_neg (by simpa using Place.not_above_self), List.length_eq_zero_iff,
        List.filter_eq_nil_iff]
      intro c hc
      simpa using fun hec => (he c hc).not_isPrefix hec.1
    | succ n =>
      have h : cs[n]? = some c := by simpa using h
      rw [List.filter_cons_of_pos (by simpa using he c (List.mem_of_getElem? h)),
        List.length_cons, ih h]

open Classical in
/-- The distance of a name is the index of the first construct in which it is visible. -/
theorem findIdx?_visible {n : Nat} :
    (root.enclosing p).findIdx? (fun c => decide (root.Visible p name c)) = some n ↔
      root.Distance p name n := by
  rw [List.findIdx?_eq_some_iff_getElem]
  constructor
  · rintro ⟨hn, hv, hfirst⟩
    refine ⟨_, of_decide_eq_true hv, fun c' hc' => ?_,
      (length_filter_enclosing (List.getElem?_eq_getElem hn)).symm⟩
    obtain ⟨m, hm, rfl⟩ := List.mem_iff_getElem.1 hc'.1
    have hnm : n ≤ m := by
      by_contra hlt
      exact hfirst m (Nat.lt_of_not_le hlt) (decide_eq_true hc')
    obtain rfl | hlt := hnm.eq_or_lt
    · exact List.prefix_rfl
    · exact (List.pairwise_iff_getElem.1 pairwise_enclosing n m hn hm hlt).1
  · rintro ⟨c, hc, hinner, rfl⟩
    obtain ⟨n, hn, rfl⟩ := List.mem_iff_getElem.1 hc.1
    rw [length_filter_enclosing (List.getElem?_eq_getElem hn)]
    refine ⟨hn, decide_eq_true hc, fun m hm hv => ?_⟩
    have hchain : (root.enclosing p).Pairwise fun e c => c.Above e := pairwise_enclosing
    have habove := List.pairwise_iff_getElem.1 hchain m n (hm.trans hn) hn hm
    exact habove.not_isPrefix (hinner _ (of_decide_eq_true hv))

/-- A name has a distance just where it is visible. -/
theorem exists_distance_iff : (∃ n, root.Distance p name n) ↔ ∃ c, root.Visible p name c := by
  classical
  simp only [← findIdx?_visible, ← Option.isSome_iff_exists, List.findIdx?_isSome,
    List.any_eq_true, decide_eq_true_eq]
  exact ⟨fun ⟨c, _, hc⟩ => ⟨c, hc⟩, fun ⟨c, hc⟩ => ⟨c, hc.1, hc⟩⟩

/-! ## The order of the visits -/

theorem precedes_of_branches {j : Nat} (hij : i < j) (hc : p ++ [i] <+: c)
    (hd : p ++ [j] <+: d) : root.Precedes c d := by
  refine .inl ⟨Place.lt_of_branches hij hc hd, fun ⟨h, _⟩ => ?_⟩
  exact hij.ne (Place.branch_unique (hc.trans h.1) hd)

theorem precedes_of_above (h : p.Above q) (hp : (root.at? p).any isAssignment = false) :
    root.Precedes p q :=
  .inl ⟨h.lt, fun ⟨_, ha⟩ => by rw [hp] at ha; cases ha⟩

theorem precedes_assignment (h : q.Above p) (hq : (root.at? q).any isAssignment = true) :
    root.Precedes p q :=
  .inr ⟨h, hq⟩

end Piece

end TreeScript
