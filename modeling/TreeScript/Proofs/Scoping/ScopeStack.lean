import TreeScript.Proofs.Running.Sequence
import TreeScript.Proofs.Scoping.Listings

/-!
# A walk with a stack of scopes

The walk once more as a machine that keeps one stack of scopes and two modes, and changes
them in place: it declares a name before it defines it, and it has to restore what it
changes.  Is anything left behind when a program is done?

* `Resolver` — the stack, the modes, and what is found so far
* `Expr.walk`, `FunctionDecl.walk`, `Stmt.walk` — the walk of the machine
* `Resolver.Follows` — the machine knows what the spot of the functional walk tells
* `Expr.walks`, `Stmt.walks` — the machine finds the same, and follows on
* `Resolver.run_lexical` — the machine scopes lexically and leaves nothing behind
-/

namespace TreeScript

/-! ## The machine -/

/-- The kind of body that the machine is in. -/
inductive BodyMode where
  | outside
  | function
  | method
  deriving DecidableEq

/-- Whether the machine is in a class. -/
inductive ClassMode where
  | outside
  | inside
  deriving DecidableEq

/-- The state of the machine.  The innermost scope comes first. -/
structure Resolver where
  scopes : List StaticScope
  body : BodyMode
  around : ClassMode
  found : Findings

namespace Resolver

/-- The machine before a program. -/
def fresh : Resolver :=
  { scopes := [], body := .outside, around := .outside, found := .none }

/-- Opens a scope. -/
def openScope (r : Resolver) : Resolver :=
  { r with scopes := ∅ :: r.scopes }

/-- Closes the innermost scope. -/
def closeScope (r : Resolver) : Resolver :=
  { r with scopes := r.scopes.tail }

/-- Enters a name into the innermost scope, uninitialized. -/
def declare (r : Resolver) (name : String) : Resolver :=
  { r with scopes := StaticScope.declare r.scopes name false }

/-- Marks a name of the innermost scope as initialized. -/
def define (r : Resolver) (name : String) : Resolver :=
  { r with scopes := StaticScope.declare r.scopes name true }

/-- Declares a name and defines it at once. -/
def introduce (r : Resolver) (name : String) : Resolver :=
  (r.declare name).define name

/-- Notes what is found. -/
def note (r : Resolver) (found : Findings) : Resolver :=
  { r with found := r.found ++ found }

/-- Looks a reference up, the innermost scope first. -/
def refer (r : Resolver) (id : ReferenceId) (name : Token) : Resolver :=
  r.note (.ofReference r.scopes id name)

/-- Reports a fault at a token if a condition holds. -/
def reportIf (r : Resolver) (condition : Bool) (token : Token) (cause : ScopeFault) : Resolver :=
  r.note (.faultIf condition token cause)

end Resolver

mutual

/-- Walks over an expression. -/
def Expr.walk (r : Resolver) : Expr → Resolver
  | .constant _ => r
  | .grouping inner => inner.walk r
  | .unary _ operand => operand.walk r
  | .binary left _ right => right.walk (left.walk r)
  | .logical left _ right => right.walk (left.walk r)
  | .ternary condition _ whenTrue whenFalse =>
    whenFalse.walk (whenTrue.walk (condition.walk r))
  | .variable id name =>
    (r.reportIf (StaticScope.inOwnInitializer r.scopes name.lexeme) name .ownInitializer).refer
      id name
  | .assign id name value => (value.walk r).refer id name
  | .call callee _ arguments => Expr.walkAll (callee.walk r) arguments
  | .get object _ => object.walk r
  | .set object _ value => value.walk (object.walk r)
  | .self id keyword =>
    if r.around = .outside then r.reportIf true keyword .thisOutsideClass
    else r.refer id keyword
  | .function declaration => declaration.walk .function r

/-- Walks over expressions from left to right. -/
def Expr.walkAll (r : Resolver) : List Expr → Resolver
  | [] => r
  | first :: rest => Expr.walkAll (first.walk r) rest

/-- Walks over a function of some kind, and restores the mode. -/
def FunctionDecl.walk (mode : BodyMode) (r : Resolver) : FunctionDecl → Resolver
  | { name := _, parameters, body } =>
    let inside := parameters.foldl (fun r p => r.introduce p.lexeme)
      { r with body := mode }.openScope
    { (Stmt.walkAll inside body).closeScope with body := r.body }

/-- Walks over the methods of a class. -/
def FunctionDecl.walkAll (r : Resolver) : List FunctionDecl → Resolver
  | [] => r
  | first :: rest => FunctionDecl.walkAll (first.walk .method r) rest

/-- Walks over a statement. -/
def Stmt.walk (r : Resolver) : Stmt → Resolver
  | .expression value => value.walk r
  | .print value => value.walk r
  | .varDecl name none => r.introduce name.lexeme
  | .varDecl name (some value) => (value.walk (r.declare name.lexeme)).define name.lexeme
  | .block body => (Stmt.walkAll r.openScope body).closeScope
  | .conditional condition whenTrue none => whenTrue.walk (condition.walk r)
  | .conditional condition whenTrue (some whenFalse) =>
    whenFalse.walk (whenTrue.walk (condition.walk r))
  | .loop condition body => body.walk (condition.walk r)
  | .leave _ => r
  | .function declaration =>
    declaration.walk .function
      (match declaration.name with
        | some name => r.introduce name.lexeme
        | none => r)
  | .giveBack keyword none => r.reportIf (r.body = .outside) keyword .returnOutsideFunction
  | .giveBack keyword (some value) =>
    value.walk (r.reportIf (r.body = .outside) keyword .returnOutsideFunction)
  | .classDecl name methods =>
    let named := r.introduce name.lexeme
    let inside := { named with around := .inside }.openScope.define "this"
    { (FunctionDecl.walkAll inside methods).closeScope with around := named.around }

/-- Walks over statements one after the other. -/
def Stmt.walkAll (r : Resolver) : List Stmt → Resolver
  | [] => r
  | first :: rest => Stmt.walkAll (first.walk r) rest

end

theorem Findings.append_none (found : Findings) : found ++ Findings.none = found := by
  obtain ⟨distances, diagnostics⟩ := found
  exact congrArg₂ Findings.mk (List.append_nil distances) (List.append_nil diagnostics)

namespace Resolver

/-- The machine behind a program. -/
def run (statements : List Stmt) : Resolver :=
  Stmt.walkAll .fresh statements

/-! ## Following the walk -/

/-- Two scopes tell the same of every name. -/
def Same (names names' : StaticScope) : Prop :=
  ∀ x : String, names[x]? = names'[x]?

/-- The machine knows what a spot tells. -/
structure Follows (r : Resolver) (spot : Spot) : Prop where
  body : r.body = .outside ↔ spot.around.inFunction = false
  around : r.around = .outside ↔ spot.around.inClass = false
  scopes : List.Forall₂ Same r.scopes spot.scopes

/-- The machine gets from one state to another that follows a spot, and notes findings. -/
structure Gets (r r' : Resolver) (spot : Spot) (found : Findings) : Prop where
  follows : r'.Follows spot
  found : r'.found = r.found ++ found

variable {r r' r'' : Resolver} {spot spot' : Spot} {found found' : Findings} {name : String}

theorem Gets.refl (h : r.Follows spot) : Gets r r spot .none :=
  ⟨h, (Findings.append_none r.found).symm⟩

theorem Gets.trans (h : Gets r r' spot found) (h' : Gets r' r'' spot' found') :
    Gets r r'' spot' (found ++ found') :=
  ⟨h'.follows, by rw [h'.found, h.found, Findings.append_assoc]⟩

/-- One step after the other. -/
theorem Gets.andThen (h : Gets r r' spot found)
    (h' : r'.Follows spot → Gets r' r'' spot' found') : Gets r r'' spot' (found ++ found') :=
  h.trans (h' h.follows)

theorem Follows.note (h : r.Follows spot) (found : Findings) : Gets r (r.note found) spot found :=
  ⟨⟨h.body, h.around, h.scopes⟩, rfl⟩

/-! ### Scopes -/

theorem same_declare {scopes scopes' : List StaticScope} (h : List.Forall₂ Same scopes scopes')
    (name : String) (b : Bool) :
    List.Forall₂ Same (StaticScope.declare scopes name b)
      (StaticScope.declare scopes' name b) := by
  cases h with
  | nil => exact .nil
  | cons hnames houter =>
    refine .cons (fun x => ?_) houter
    rw [StaticScope.getElem?_insert, StaticScope.getElem?_insert, hnames x]

/-- Of two declarations of a name only the last one counts. -/
theorem same_declare_declare {scopes scopes' : List StaticScope} {b b' : Bool}
    (h : List.Forall₂ Same scopes (StaticScope.declare scopes' name b)) :
    List.Forall₂ Same (StaticScope.declare scopes name b')
      (StaticScope.declare scopes' name b') := by
  cases scopes' with
  | nil =>
    cases h
    exact .nil
  | cons names' outer' =>
    obtain ⟨names, outer, hnames, houter, rfl⟩ := List.forall₂_cons_right_iff.1 h
    refine .cons (fun x => ?_) houter
    have hx := hnames x
    rw [StaticScope.getElem?_insert] at hx
    rw [StaticScope.getElem?_insert, StaticScope.getElem?_insert, hx]
    split <;> rfl

theorem Follows.openScope (h : r.Follows spot) : r.openScope.Follows spot.inBlock :=
  ⟨h.body, h.around, .cons (fun _ => rfl) h.scopes⟩

theorem Follows.declare (h : r.Follows spot) (name : String) :
    (r.declare name).Follows (spot.declare name false) :=
  ⟨h.body, h.around, same_declare h.scopes name false⟩

/-- The object of the methods is never declared without being defined. -/
theorem Follows.defineFresh (h : r.Follows spot) (name : String) :
    (r.define name).Follows (spot.declare name true) :=
  ⟨h.body, h.around, same_declare h.scopes name true⟩

/-- Definition comes behind declaration. -/
theorem Follows.define (h : r.Follows (spot.declare name false)) :
    (r.define name).Follows (spot.declare name true) :=
  ⟨h.body, h.around, same_declare_declare h.scopes⟩

theorem Follows.introduce (h : r.Follows spot) (name : String) :
    (r.introduce name).Follows (spot.declare name true) :=
  (h.declare name).define

theorem Follows.parameters {around : Surroundings} {names : StaticScope}
    {outer : List StaticScope} (h : r.Follows ⟨around, names :: outer⟩)
    (parameters : List Token) :
    (parameters.foldl (fun r p => r.introduce p.lexeme) r).Follows
      ⟨around, parameters.foldl (fun scope p => scope.insert p.lexeme true) names :: outer⟩ := by
  induction parameters generalizing r names with
  | nil => exact h
  | cons p parameters ih => exact ih (h.introduce p.lexeme)

theorem found_parameters (r : Resolver) (parameters : List Token) :
    (parameters.foldl (fun r p => r.introduce p.lexeme) r).found = r.found := by
  induction parameters generalizing r with
  | nil => rfl
  | cons p parameters ih => exact ih _

/-! ### References -/

theorem Follows.distance?_eq (h : r.Follows spot) (name : String) :
    StaticScope.distance? r.scopes name = StaticScope.distance? spot.scopes name := by
  refine findIdx?_eq_of_forall₂ h.scopes fun names _ names' hnames => ?_
  rw [Std.TreeMap.contains_eq_isSome_getElem?, Std.TreeMap.contains_eq_isSome_getElem?, hnames]

theorem Follows.inOwnInitializer_eq (h : r.Follows spot) (name : String) :
    StaticScope.inOwnInitializer r.scopes name =
      StaticScope.inOwnInitializer spot.scopes name := by
  obtain ⟨around, scopes⟩ := spot
  obtain ⟨_, _, _, _⟩ := r
  cases h.scopes with
  | nil => rfl
  | cons hnames _ => rw [StaticScope.inOwnInitializer, StaticScope.inOwnInitializer, hnames]

theorem Follows.refer (h : r.Follows spot) (id : ReferenceId) (name : Token) :
    Gets r (r.refer id name) spot (.ofReference spot.scopes id name) := by
  rw [Resolver.refer, Findings.ofReference, h.distance?_eq, ← Findings.ofReference]
  exact h.note _

theorem Follows.reportIf (h : r.Follows spot) {b b' : Bool} (hb : b = b') (token : Token)
    (cause : ScopeFault) :
    Gets r (r.reportIf b token cause) spot (.faultIf b' token cause) :=
  hb ▸ h.note _

theorem Follows.outside_eq (h : r.Follows spot) :
    decide (r.body = .outside) = !spot.around.inFunction := by
  rw [Bool.eq_iff_iff, decide_eq_true_eq, h.body, Bool.not_eq_true']

/-- Behind the scope of a block, a class or a function the scopes are as before. -/
theorem Gets.closeScope {around : Surroundings} {scopes outer : List StaticScope}
    (h : Gets r r' ⟨around, scopes⟩ found)
    (hscopes : scopes.tail = outer) : List.Forall₂ Same r'.closeScope.scopes outer := by
  subst hscopes
  obtain ⟨_, _, _, _⟩ := r'
  cases h.follows.scopes with
  | nil => exact .nil
  | cons _ houter => exact houter

end Resolver

/-- Behind a program there is no scope, as there was none before it. -/
theorem Stmt.resolveAll_globals (around : Surroundings) (ss : List Stmt) :
    (Stmt.resolveAll around [] ss).1 = [] := by
  induction ss with
  | nil => rw [Stmt.resolveAll]
  | cons s ss ih =>
    simp only [Stmt.resolveAll, Stmt.resolve_globals, ih]

/-! ## The machine finds the same -/

mutual

theorem Expr.walks {r : Resolver} {spot : Spot} (h : r.Follows spot) (e : Expr) :
    r.Gets (e.walk r) spot (e.resolve spot.around spot.scopes) := by
  match e with
  | .constant _ =>
    rw [Expr.walk, Expr.resolve]
    exact .refl h
  | .grouping inner | .unary _ inner | .get inner _ =>
    rw [Expr.walk, Expr.resolve]
    exact inner.walks h
  | .binary left _ right | .logical left _ right | .set left _ right =>
    rw [Expr.walk, Expr.resolve]
    exact (left.walks h).andThen fun h => right.walks h
  | .ternary condition _ whenTrue whenFalse =>
    rw [Expr.walk, Expr.resolve]
    exact ((condition.walks h).andThen fun h => whenTrue.walks h).andThen fun h =>
      whenFalse.walks h
  | .variable id name =>
    rw [Expr.walk, Expr.resolve]
    exact (h.reportIf (h.inOwnInitializer_eq name.lexeme) _ _).andThen fun h => h.refer id name
  | .assign id name value =>
    rw [Expr.walk, Expr.resolve]
    exact (value.walks h).andThen fun h => h.refer id name
  | .call callee _ arguments =>
    rw [Expr.walk, Expr.resolve]
    exact (callee.walks h).andThen fun h => Expr.walksAll h arguments
  | .self id keyword =>
    rw [Expr.walk, Expr.resolve]
    cases hc : spot.around.inClass with
    | false =>
      rw [if_pos (h.around.2 hc), if_neg Bool.false_ne_true]
      exact h.reportIf rfl keyword .thisOutsideClass
    | true =>
      have hin : r.around ≠ .outside := fun ho => by
        rw [h.around.1 ho] at hc
        cases hc
      rw [if_neg hin, if_pos rfl]
      exact h.refer id keyword
  | .function declaration =>
    rw [Expr.walk, Expr.resolve]
    exact declaration.walks h (by decide)

theorem Expr.walksAll {r : Resolver} {spot : Spot} (h : r.Follows spot) (es : List Expr) :
    r.Gets (Expr.walkAll r es) spot (Expr.resolveAll spot.around spot.scopes es) := by
  match es with
  | [] =>
    rw [Expr.walkAll, Expr.resolveAll]
    exact .refl h
  | first :: rest =>
    rw [Expr.walkAll, Expr.resolveAll]
    exact (first.walks h).andThen fun h => Expr.walksAll h rest

theorem FunctionDecl.walks {r : Resolver} {spot : Spot} {mode : BodyMode} (h : r.Follows spot)
    (hmode : mode ≠ .outside) (d : FunctionDecl) :
    r.Gets (d.walk mode r) spot (d.resolve spot.around spot.scopes) := by
  match d with
  | ⟨_, parameters, body⟩ =>
    rw [FunctionDecl.walk, FunctionDecl.resolve]
    have hopened : { r with body := mode }.openScope.Follows
        ⟨{ spot.around with inFunction := true }, ∅ :: spot.scopes⟩ :=
      ⟨iff_of_false hmode (by simp), h.around, .cons (fun _ => rfl) h.scopes⟩
    have hbody := Stmt.walksAll (hopened.parameters parameters) body
    refine ⟨⟨h.body, hbody.follows.around, hbody.closeScope (Piece.tail_resolveAll ..)⟩, ?_⟩
    exact hbody.found.trans (congrArg (· ++ _) (Resolver.found_parameters _ parameters))

theorem FunctionDecl.walksAll {r : Resolver} {spot : Spot} (h : r.Follows spot)
    (ds : List FunctionDecl) :
    r.Gets (FunctionDecl.walkAll r ds) spot
      (FunctionDecl.resolveAll spot.around spot.scopes ds) := by
  match ds with
  | [] =>
    rw [FunctionDecl.walkAll, FunctionDecl.resolveAll]
    exact .refl h
  | first :: rest =>
    rw [FunctionDecl.walkAll, FunctionDecl.resolveAll]
    exact (first.walks h (by decide)).andThen fun h => FunctionDecl.walksAll h rest

theorem Stmt.walks {r : Resolver} {spot : Spot} (h : r.Follows spot) (s : Stmt) :
    r.Gets (s.walk r) (spot.after s) (s.resolve spot.around spot.scopes).2 := by
  match s with
  | .expression value | .print value =>
    rw [Stmt.walk, Spot.after, Stmt.resolve]
    exact value.walks h
  | .varDecl name none =>
    rw [Stmt.walk, Spot.after, Stmt.resolve]
    exact ⟨h.introduce name.lexeme, (Findings.append_none r.found).symm⟩
  | .varDecl name (some value) =>
    rw [Stmt.walk, Spot.after, Stmt.resolve]
    have hvalue := value.walks (h.declare name.lexeme)
    exact ⟨hvalue.follows.define, hvalue.found⟩
  | .block body =>
    rw [Stmt.walk, Spot.after, Stmt.resolve]
    have hbody := Stmt.walksAll h.openScope body
    exact ⟨⟨hbody.follows.body, hbody.follows.around,
      hbody.closeScope (Piece.tail_resolveAll ..)⟩, hbody.found⟩
  | .conditional condition whenTrue none =>
    rw [Stmt.walk, Spot.after, Stmt.resolve]
    exact (condition.walks h).andThen fun h => whenTrue.walks h
  | .conditional condition whenTrue (some whenFalse) =>
    rw [Stmt.walk, Spot.after, Stmt.resolve]
    exact ((condition.walks h).andThen fun h => whenTrue.walks h).andThen fun h =>
      whenFalse.walks h
  | .loop condition body =>
    rw [Stmt.walk, Spot.after, Stmt.resolve]
    exact (condition.walks h).andThen fun h => body.walks h
  | .leave _ =>
    rw [Stmt.walk, Spot.after, Stmt.resolve]
    exact .refl h
  | .function ⟨none, parameters, body⟩ =>
    rw [Stmt.walk, Spot.after, Stmt.resolve]
    exact FunctionDecl.walks h (by decide) ⟨none, parameters, body⟩
  | .function ⟨some name, parameters, body⟩ =>
    rw [Stmt.walk, Spot.after, Stmt.resolve]
    have hmode : BodyMode.function ≠ .outside := by decide
    have hdecl := FunctionDecl.walks (h.introduce name.lexeme) hmode ⟨some name, parameters, body⟩
    exact ⟨hdecl.follows, hdecl.found⟩
  | .giveBack keyword none =>
    rw [Stmt.walk, Spot.after, Stmt.resolve]
    exact h.reportIf h.outside_eq keyword .returnOutsideFunction
  | .giveBack keyword (some value) =>
    rw [Stmt.walk, Spot.after, Stmt.resolve]
    exact (h.reportIf h.outside_eq keyword .returnOutsideFunction).andThen fun h => value.walks h
  | .classDecl name methods =>
    rw [Stmt.walk, Spot.after, Stmt.resolve]
    have hnamed := h.introduce name.lexeme
    have hinside : ClassMode.inside ≠ .outside := by decide
    have hopened : { r.introduce name.lexeme with around := .inside }.openScope.Follows
        ⟨{ spot.around with inClass := true }, ∅ :: (spot.declare name.lexeme true).scopes⟩ :=
      ⟨hnamed.body, iff_of_false hinside (by simp), .cons (fun _ => rfl) hnamed.scopes⟩
    have hmethods := FunctionDecl.walksAll (hopened.defineFresh "this") methods
    exact ⟨⟨hmethods.follows.body, hnamed.around, hmethods.closeScope rfl⟩, hmethods.found⟩

theorem Stmt.walksAll {r : Resolver} {spot : Spot} (h : r.Follows spot) (ss : List Stmt) :
    r.Gets (Stmt.walkAll r ss)
      { spot with scopes := (Stmt.resolveAll spot.around spot.scopes ss).1 }
      (Stmt.resolveAll spot.around spot.scopes ss).2 := by
  match ss with
  | [] =>
    rw [Stmt.walkAll, Stmt.resolveAll]
    exact .refl h
  | first :: rest =>
    rw [Stmt.walkAll, Stmt.resolveAll]
    exact (first.walks h).andThen fun h => Stmt.walksAll h rest

end

namespace Resolver

/-- A program is resolved lexically.  The machine finds what the functional walk finds, and
behind the program its stack and its modes are as before.  The distances are those of the
references whose name is visible in a construct around them, counted to the innermost such
construct; the faults are exactly those of the places at fault; both are in the order of the
visits. -/
theorem run_lexical (statements : List Stmt) :
    let done := run statements
    let root := Piece.program statements
    done.scopes = [] ∧ done.body = .outside ∧ done.around = .outside ∧
      done.found = resolveProgram statements ∧
      root.Lists (fun p (id, n) => ∃ name, root.Refers p id name ∧ root.Distance p name n)
        done.found.distances ∧
      (∀ p name, (∃ n, root.Distance p name n) ↔ ∃ c, root.Visible p name c) ∧
      root.Lists root.Faulty done.found.diagnostics := by
  have hfresh : fresh.Follows .top := ⟨iff_of_true rfl rfl, iff_of_true rfl rfl, .nil⟩
  have hrun := Stmt.walksAll hfresh statements
  have hfound : (run statements).found = resolveProgram statements := hrun.found
  have hscopes : (run statements).scopes = [] := by
    have hs := hrun.follows.scopes
    rw [show Spot.top.scopes = [] from rfl, Stmt.resolveAll_globals] at hs
    exact List.forall₂_nil_right_iff.1 hs
  refine ⟨hscopes, hrun.follows.body.2 rfl, hrun.follows.around.2 rfl, hfound, ?_,
    fun p name => Piece.exists_distance_iff, ?_⟩
  · rw [hfound]
    exact Piece.lists_distances statements
  · rw [hfound]
    exact Piece.lists_diagnostics statements

/-- In `{ var a; var a = a; }` the name is declared again, and so uninitialized again. -/
example :
    let a : Token := { kind := .identifier, lexeme := "a", literal := none, line := 1 }
    (run [.block [.varDecl a none, .varDecl a (some (.variable 0 a))]]).found =
      { distances := [(0, 0)], diagnostics := [Diagnostic.scopeAt a .ownInitializer] } := by
  cbv

end Resolver

end TreeScript
