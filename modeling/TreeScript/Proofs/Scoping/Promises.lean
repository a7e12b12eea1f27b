import TreeScript.Proofs.Scoping.Parsed
import TreeScript.Proofs.Scoping.Watching

/-!
# What the resolving walk promises

* `StaticScope.Unfolds` — what a statement does to the static scopes
* `Walked` — the visits of the walks over the programs of a session
* `Premature` — a name that is resolved to a variable from within its initializer
* `Strict` — programs without functions as bare branches, and host functions that give
  every function as many arguments as it has parameters
* `Native.Honest` — a host function that makes up no function, class or instance
* `Prepared` — what is prepared before a program runs
* `Stmt.quiet` — bare branches declare nothing in strict programs
-/

namespace TreeScript

/-! ## Static scopes -/

namespace StaticScope

/-- A static scope after more declarations. -/
structure Extends (before after : StaticScope) : Prop where
  initialized : ∀ x : String, before[x]? = some true → after[x]? = some true
  uninitialized : ∀ x : String, after[x]? = some false → before[x]? = some false
  holds : ∀ x : String, x ∈ before → x ∈ after

theorem Extends.refl (names : StaticScope) : names.Extends names :=
  ⟨fun _ h => h, fun _ h => h, fun _ h => h⟩

theorem Extends.trans {a b c : StaticScope} (h₁ : a.Extends b) (h₂ : b.Extends c) :
    a.Extends c where
  initialized x h := h₂.initialized x (h₁.initialized x h)
  uninitialized x h := h₁.uninitialized x (h₂.uninitialized x h)
  holds x h := h₂.holds x (h₁.holds x h)

theorem getElem?_insert (names : StaticScope) (name : String) (initialized : Bool)
    (x : String) :
    (names.insert name initialized)[x]? = if name = x then some initialized else names[x]? := by
  simp [Std.TreeMap.getElem?_insert]

theorem Extends.insert (names : StaticScope) (name : String) :
    names.Extends (names.insert name true) where
  initialized x h := by
    rw [getElem?_insert, h]
    split <;> rfl
  uninitialized x h := by
    rw [getElem?_insert] at h
    split at h
    · cases h
    · exact h
  holds x h := by
    rw [Std.TreeMap.mem_insert]
    exact .inr h

/-- The scope of a function body holds its parameters. -/
theorem getElem?_ofParameters (parameters : List Token) (x : String) :
    (ofParameters parameters)[x]? =
      if ∃ p ∈ parameters, p.lexeme = x then some true else none := by
  suffices ∀ names : StaticScope,
      (parameters.foldl (fun scope p => scope.insert p.lexeme true) names)[x]? =
        if ∃ p ∈ parameters, p.lexeme = x then some true else names[x]? by
    rw [ofParameters, this]
    simp
  induction parameters with
  | nil => simp
  | cons parameter parameters ih =>
    intro names
    rw [List.foldl_cons, ih, getElem?_insert]
    by_cases hx : parameter.lexeme = x <;> simp [hx]

/-- The scope around the methods of a class holds nothing but `this`. -/
theorem getElem?_ofClass (x : String) :
    ofClass[x]? = if "this" = x then some true else none := by
  simp [ofClass, Std.TreeMap.getElem?_insert]

/-- Static scopes after more declarations in the innermost one. -/
inductive Unfolds : List StaticScope → List StaticScope → Prop
  | globals : Unfolds [] []
  | innermost {before after : StaticScope} {outer : List StaticScope} :
      before.Extends after → Unfolds (before :: outer) (after :: outer)

namespace Unfolds

theorem refl (scopes : List StaticScope) : Unfolds scopes scopes := by
  cases scopes with
  | nil => exact .globals
  | cons names outer => exact .innermost (.refl names)

theorem trans {a b c : List StaticScope} (h₁ : Unfolds a b) (h₂ : Unfolds b c) :
    Unfolds a c := by
  cases h₁ with
  | globals => exact h₂
  | innermost h =>
    cases h₂ with
    | innermost h' => exact .innermost (h.trans h')

theorem eq_nil {before after : List StaticScope} (h : Unfolds before after)
    (hb : before = []) : after = [] := by
  cases h with
  | globals => rfl
  | innermost _ => cases hb

theorem declare (scopes : List StaticScope) (name : String) :
    Unfolds scopes (StaticScope.declare scopes name true) := by
  cases scopes with
  | nil => exact .globals
  | cons names outer => exact .innermost (.insert names name)

end Unfolds

/-- The scope at a distance holds the name. -/
theorem of_distance? {scopes : List StaticScope} {name : String} {distance : Nat}
    (h : distance? scopes name = some distance) :
    ∃ names, scopes[distance]? = some names ∧ name ∈ names := by
  obtain ⟨hlt, hp, -⟩ := List.findIdx?_eq_some_iff_getElem.1 h
  exact ⟨scopes[distance], List.getElem?_eq_getElem hlt, Std.TreeMap.contains_iff_mem.1 hp⟩

/-- A name that a scope holds is initialized or not. -/
theorem true_or_false {names : StaticScope} {name : String} (h : name ∈ names) :
    names[name]? = some true ∨ names[name]? = some false := by
  rw [Std.TreeMap.getElem?_eq_some_getElem h]
  cases names[name] <;> simp

end StaticScope

/-- A statement only adds to the innermost scope. -/
theorem Stmt.unfolds (around : Surroundings) (scopes : List StaticScope) (s : Stmt) :
    StaticScope.Unfolds scopes (s.resolve around scopes).1 := by
  match s with
  | .expression _ | .print _ | .block _ | .leave _ | .giveBack _ none
  | .giveBack _ (some _) =>
    rw [Stmt.resolve]
    exact .refl scopes
  | .varDecl _ none | .varDecl _ (some _) | .classDecl _ _ =>
    rw [Stmt.resolve]
    exact .declare scopes _
  | .function ⟨none, _, _⟩ =>
    rw [Stmt.resolve]
    exact .refl scopes
  | .function ⟨some _, _, _⟩ =>
    rw [Stmt.resolve]
    exact .declare scopes _
  | .conditional _ whenTrue none =>
    rw [Stmt.resolve]
    exact whenTrue.unfolds around scopes
  | .conditional _ whenTrue (some whenFalse) =>
    rw [Stmt.resolve]
    exact (whenTrue.unfolds around scopes).trans (whenFalse.unfolds around _)
  | .loop _ body =>
    rw [Stmt.resolve]
    exact body.unfolds around scopes

/-! ## The programs of a session -/

/-- A visit of the walk over one of the programs. -/
def Walked (programs : List (List Stmt)) (v : Visit) : Prop :=
  ∃ program ∈ programs, (Visit.root program).Leads v

theorem Walked.leads {programs : List (List Stmt)} {v u : Visit} (h : Walked programs v)
    (hu : v.Leads u) : Walked programs u := by
  obtain ⟨program, hp, hv⟩ := h
  exact ⟨program, hp, hv.trans hu⟩

theorem Walked.child {programs : List (List Stmt)} {v c : Visit} (h : Walked programs v)
    (hc : c ∈ v.children) : Walked programs c :=
  h.leads (.single hc)

theorem Walked.mono {programs more : List (List Stmt)} (hs : ∀ p ∈ programs, p ∈ more)
    {v : Visit} (h : Walked programs v) : Walked more v := by
  obtain ⟨program, hp, hv⟩ := h
  exact ⟨program, hs program hp, hv⟩

/-! ## Names that are resolved too early -/

/-- Whether an expression is a function written inline, with or without parentheses. -/
def Expr.isInline : Expr → Bool
  | .function _ => true
  | .grouping inner => inner.isInline
  | _ => false

/-- Whether a node reads or assigns a name. -/
def Node.isName : Node → Bool
  | .expression (.variable ..) | .expression (.assign ..) => true
  | _ => false

/-- A visited reference is resolved to a name of a scope, whose level counts from the
outermost scope. -/
def Visit.Targets (v : Visit) (level : Nat) (name : String) : Prop :=
  ∃ id token distance, v.reference? = some (id, token) ∧ token.lexeme = name ∧
    StaticScope.distance? v.spot.scopes name = some distance ∧
    level + distance + 1 = v.spot.scopes.length

/-- A name in the initializer of a local variable that is resolved to this variable,
unless the initializer is just a function written inline. -/
def Premature (programs : List (List Stmt)) (u : Visit) : Prop :=
  ∃ spot name value, Walked programs ⟨spot, .statement (.varDecl name (some value))⟩ ∧
    spot.scopes ≠ [] ∧ value.isInline = false ∧
    (Visit.mk (spot.declare name.lexeme false) (.expression value)).Leads u ∧
    u.Targets (spot.scopes.length - 1) name.lexeme ∧ u.node.isName = true

theorem Premature.mono {programs more : List (List Stmt)} (hs : ∀ p ∈ programs, p ∈ more)
    {u : Visit} (h : Premature programs u) : Premature more u := by
  obtain ⟨spot, name, value, hw, hrest⟩ := h
  exact ⟨spot, name, value, hw.mono hs, hrest⟩

theorem Premature.walked {programs : List (List Stmt)} {u : Visit}
    (h : Premature programs u) : Walked programs u := by
  obtain ⟨spot, name, value, hw, -, -, hu, -⟩ := h
  exact (hw.child (List.mem_singleton.2 rfl)).leads hu

/-! ## Strict sessions -/

/-- Whether a statement declares a function. -/
def Stmt.declaresFunction : Stmt → Bool
  | .function _ => true
  | _ => false

/-- No branch and no loop body is the declaration of a function. -/
def Node.Braced : Node → Prop
  | .statement (.conditional _ whenTrue whenFalse) =>
    whenTrue.declaresFunction = false ∧ ∀ s ∈ whenFalse, s.declaresFunction = false
  | .statement (.loop _ body) => body.declaresFunction = false
  | _ => True

/-- A call gives a function as many arguments as it has parameters. -/
def HostCall.Fits (call : HostCall) : Prop :=
  ∀ closure, call.callee = .function closure →
    call.arguments.length = closure.declaration.parameters.length

/-- Programs without functions as bare branches or loop bodies, and calls by host
functions that fit. -/
structure Strict (programs : List (List Stmt)) (calls : List HostCall) : Prop where
  braced : ∀ v, Walked programs v → v.node.Braced
  fits : ∀ call ∈ calls, call.Fits

theorem Strict.anti {programs more : List (List Stmt)} {calls others : List HostCall}
    (hs : ∀ p ∈ programs, p ∈ more) (hc : ∀ c ∈ calls, c ∈ others)
    (h : Strict more others) : Strict programs calls where
  braced v hv := h.braced v (hv.mono hs)
  fits call hcall := h.fits call (hc call hcall)

/-- A bare branch that declares neither a value nor a function declares nothing. -/
theorem Stmt.quiet (spot : Spot) (s : Stmt)
    (h : ∀ u, (Visit.mk spot (.statement s)).Leads u → u.node.Shaped ∧ u.node.Braced)
    (hv : s.declaresValue = false) (hf : s.declaresFunction = false) :
    (s.resolve spot.around spot.scopes).1 = spot.scopes := by
  match s with
  | .expression _ | .print _ | .block _ | .leave _ | .giveBack _ none
  | .giveBack _ (some _) =>
    rw [Stmt.resolve]
  | .varDecl .. | .classDecl .. => cases hv
  | .function _ => cases hf
  | .conditional condition whenTrue none =>
    have here := h _ .refl
    rw [Stmt.resolve]
    exact whenTrue.quiet spot
      (fun u hu => h u (.head (by simp [Visit.children, Stmt.visits]) hu)) here.1.1 here.2.1
  | .conditional condition whenTrue (some whenFalse) =>
    have here := h _ .refl
    have first := whenTrue.quiet spot
      (fun u hu => h u (.head (by simp [Visit.children, Stmt.visits]) hu)) here.1.1 here.2.1
    have second := whenFalse.quiet (spot.after whenTrue)
      (fun u hu => h u (.head (by simp [Visit.children, Stmt.visits]) hu))
      (here.1.2 _ rfl) (here.2.2 _ rfl)
    rw [Stmt.resolve]
    exact second.trans first
  | .loop condition body =>
    have here := h _ .refl
    rw [Stmt.resolve]
    exact body.quiet spot
      (fun u hu => h u (.head (by simp [Visit.children, Stmt.visits]) hu)) here.1 here.2

/-! ## Host functions -/

/-- Whether a value carries no scope. -/
def Value.isPlain : Value → Bool
  | .function _ | .classObject _ | .object .. => false
  | _ => true

/-- A host function makes up no function, class or instance: it answers, calls and passes
on only plain values and values that it holds, which are those it was given and the
results of its calls. -/
inductive Script.Uses : List Value → Script → Prop
  | answer {held : List Value} {value : Value} :
      value.isPlain = true ∨ value ∈ held → Script.Uses held (.answer value)
  | fail {held : List Value} {message : String} : Script.Uses held (.fail message)
  | call {held arguments : List Value} {callee : Value} {next : Except String Value → Script} :
      callee.isPlain = true ∨ callee ∈ held →
      (∀ argument ∈ arguments, argument.isPlain = true ∨ argument ∈ held) →
      (∀ value, Script.Uses (value :: held) (next (.ok value))) →
      (∀ message, Script.Uses held (next (.error message))) →
      Script.Uses held (.call callee arguments next)

theorem Script.Uses.mono {held : List Value} {script : Script} (h : script.Uses held)
    {more : List Value} (hm : ∀ value ∈ held, value ∈ more) : script.Uses more := by
  induction h generalizing more with
  | answer hv => exact .answer (hv.imp_right (hm _))
  | fail => exact .fail
  | call hc ha _ _ ih ihFail =>
    refine .call (hc.imp_right (hm _)) (fun a hmem => (ha a hmem).imp_right (hm _))
      (fun value => ih value ?_) (fun message => ihFail message hm)
    exact fun v hv => (List.mem_cons.1 hv).elim (fun h => h ▸ List.mem_cons_self)
      fun h => List.mem_cons_of_mem _ (hm v h)

/-- A host function that uses only its arguments and what was handed to the host. -/
def Native.Honest (handed : List Value) (native : Native) : Prop :=
  ∀ arguments, Script.Uses (arguments ++ handed) (native.body arguments)

theorem Native.Honest.mono {handed more : List Value} {native : Native}
    (h : native.Honest handed) (hm : ∀ value ∈ handed, value ∈ more) : native.Honest more := by
  intro arguments
  refine (h arguments).mono fun value hv => ?_
  rw [List.mem_append] at hv ⊢
  exact hv.imp_right (hm value)

theorem Script.Uses.ofResult {held : List Value} :
    (∀ value, Script.Uses (value :: held) (.ofResult (.ok value))) ∧
      ∀ message, Script.Uses held (.ofResult (.error message)) :=
  ⟨fun _ => .answer (.inr List.mem_cons_self), fun _ => .fail⟩

/-- The clock makes up nothing. -/
theorem Native.honest_clock (handed : List Value) (now : Float) :
    (Native.clock now).Honest handed :=
  fun _ => .answer (.inl rfl)

/-- The host functions that come with the library make up nothing. -/
theorem Native.honest_standard (handed : List Value) :
    ∀ native ∈ Native.standard, native.Honest handed := by
  intro native hn arguments
  simp only [standard, List.mem_cons, List.not_mem_nil, or_false] at hn
  rcases hn with rfl | rfl | rfl | rfl | rfl
  · simp only [add]
    split
    · exact .answer (.inl rfl)
    · exact .fail
  · exact .answer (.inl rfl)
  · exact .fail
  · cases arguments with
    | nil => exact .answer (.inl rfl)
    | cons first rest => exact .answer (.inr List.mem_cons_self)
  · cases arguments with
    | nil => exact .fail
    | cons callee rest =>
      simp only [apply]
      split
      · refine .call (.inr List.mem_cons_self) (fun a ha => .inr ?_) Script.Uses.ofResult.1
          Script.Uses.ofResult.2
        exact List.mem_cons_of_mem _ (List.mem_append_left _ (List.mem_of_mem_take ha))
      · exact .fail

/-- What is prepared before a program runs: the distances of the references, and that the
host functions are honest. -/
structure Prepared (programs : List (List Stmt)) (setting : Setting) (handed : List Value) :
    Prop where
  shaped : ∀ v, Walked programs v → v.node.Shaped
  distances : ∀ v (id : ReferenceId) token, Walked programs v →
    v.reference? = some (id, token) →
    setting.distances[id]? = StaticScope.distance? v.spot.scopes token.lexeme
  keywords : ∀ spot name value spot' id keyword,
    Walked programs ⟨spot, .statement (.varDecl name value)⟩ →
    Walked programs ⟨spot', .expression (.self id keyword)⟩ →
    keyword.lexeme ≠ name.lexeme
  honest : ∀ native ∈ setting.natives, native.Honest handed

end TreeScript
