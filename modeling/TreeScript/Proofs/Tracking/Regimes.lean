import TreeScript.Proofs.Scoping.Primitives
import TreeScript.Proofs.Tracking.Tracking

/-!
# What is kept while programs run

* `Regime` — what is kept of records and machines, what is known of values, which names may
  be bound in a scope and which nodes may be executed in a situation
* `Regime.Ruled` — what the primitive steps keep
* `Regime.keptAt`, `Regime.keeps_trackProgram` — then evaluation and whole programs keep it

A regime is proved of the primitive steps only; evaluation is walked through once, here.
-/

namespace TreeScript

/-! ## Regimes -/

/-- Whether the parts of a node are executed in another scope than the node, or are not
executed with it. -/
def Node.opensScope : Node → Bool
  | .statement (.block _) | .statement (.classDecl ..) | .function _ => true
  | _ => false

/-- The name that a statement itself declares. -/
def Stmt.ownName? : Stmt → Option String
  | .varDecl name _ | .classDecl name _ => some name.lexeme
  | .function declaration => some declaration.displayName
  | _ => none

/-- What is kept while programs run. -/
structure Regime where
  upkeep : Upkeep Record
  Holds : Record → Machine → Value → Prop
  Binds : Record → Machine → ScopeRef → String → Prop
  Admits : Record → Machine → Situation → Node → Prop

/-- Looking for the scope that holds a name changes nothing. -/
theorem Run.holder_cases (distance? : Option Nat) (scope : ScopeRef) (name : Token)
    (m : Machine) :
    (∃ found, Run.holder distance? scope name m = .done found m ∧
        m.scopes.Declares found name.lexeme) ∨
      ∃ failure, Run.holder distance? scope name m = .failed failure m := by
  unfold Run.holder
  cases distance? with
  | none =>
    simp only [Scopes.holder]
    cases hh : m.scopes.holder? globalScope name.lexeme with
    | none => exact .inr ⟨_, rfl⟩
    | some found => exact .inl ⟨found, rfl, Scopes.declares_of_holderWithin hh⟩
  | some distance =>
    simp only [Scopes.holderAt]
    cases m.scopes.ancestor scope distance with
    | error failure => exact .inr ⟨failure, rfl⟩
    | ok found =>
      simp only [bind, Except.bind]
      by_cases hb : (m.scopes.binding? found name.lexeme).isSome
      · rw [if_pos hb]
        exact .inl ⟨found, rfl, hb⟩
      · rw [if_neg hb]
        exact .inr ⟨_, rfl⟩

namespace Regime

/-- A step leads to a sound record and a sound machine. -/
def Passes (R : Regime) (r : Record) (m : Machine) (r' : Record) (m' : Machine) : Prop :=
  R.upkeep.Sound r' m' ∧ R.upkeep.Grows r m r' m'

/-- What the primitive steps keep.  Host functions use only what they are given and what was
handed to the host. -/
structure Ruled (R : Regime) (setting : Setting) (handed : List Value) : Prop where
  lawful : R.upkeep.Lawful
  honest : ∀ native ∈ setting.natives, native.Honest handed
  -- what grows keeps what is known
  holds_mono : ∀ {r m r' m' value}, R.upkeep.Grows r m r' m' → R.Holds r m value →
    R.Holds r' m' value
  binds_mono : ∀ {r m r' m' scope name}, R.upkeep.Grows r m r' m' → R.Binds r m scope name →
    R.Binds r' m' scope name
  admits_mono : ∀ {r m r' m' situation node}, R.upkeep.Grows r m r' m' →
    R.Admits r m situation node → R.Admits r' m' situation node
  -- values that are known
  plain : ∀ {r m value}, value.isPlain = true → R.Holds r m value
  handed : ∀ {r m value}, R.upkeep.Sound r m → value ∈ handed → R.Holds r m value
  bindings : ∀ {r m scope name value}, R.upkeep.Sound r m →
    m.scopes.binding? scope name = some (some value) → R.Holds r m value
  fields : ∀ {r m} {address : InstanceRef} {fields : Fields} {name : String} {value},
    R.upkeep.Sound r m → m.fields[address]? = some fields → fields[name]? = some value →
    R.Holds r m value
  -- nodes that may be executed
  child : ∀ {r m situation node c}, R.Admits r m situation node → node.opensScope = false →
    c ∈ (Visit.mk situation.spot node).children →
    R.Admits r m { situation with spot := c.spot } c.node
  binds : ∀ {r m situation s name}, R.Admits r m situation (.statement s) →
    s.ownName? = some name → R.Binds r m situation.scope name
  -- what is recorded
  enter : ∀ {r m situation node}, R.upkeep.Sound r m → R.Admits r m situation node →
    R.Passes r m (r.see (.node situation node m)) m
  print : ∀ {r m} situation text sink, R.upkeep.Sound r m →
    R.Passes r m (r.see (.print situation text m)) { m with sink }
  -- scopes
  define : ∀ {r m scope name} {value : Option Value}, R.upkeep.Sound r m →
    R.Binds r m scope name → (∀ v ∈ value, R.Holds r m v) →
    R.Passes r m r { m with scopes := m.scopes.define scope name value }
  assign : ∀ {r m situation id name} {e : Expr} {scope value}, R.upkeep.Sound r m →
    R.Admits r m situation (.expression (.assign id name e)) →
    m.scopes.Declares scope name.lexeme → R.Holds r m value →
    R.Passes r m r { m with scopes := m.scopes.define scope name.lexeme (some value) }
  block : ∀ {r m situation body}, R.upkeep.Sound r m →
    R.Admits r m situation (.statement (.block body)) →
    let m' := { m with scopes := (m.scopes.create (some situation.scope)).2 }
    R.Passes r m r m' ∧
      R.Admits r m' { situation with spot := situation.spot.inBlock, scope := m.scopes.size }
        (.statements body)
  call : ∀ {r m closure} hosted, R.upkeep.Sound r m → R.Holds r m (.function closure) →
    let m' := { m with scopes := (m.scopes.create (some closure.scope)).2 }
    let birth := r.births.getD closure.identity default
    let parameters := closure.declaration.parameters
    R.Passes r m r m' ∧
      (∀ parameter ∈ parameters, R.Binds r m' m.scopes.size parameter.lexeme) ∧
      R.Admits r m'
        { spot := birth.spot.inBody parameters, scope := m.scopes.size
          receiver := birth.receiver, hosted }
        (.statements closure.declaration.body)
  -- objects
  closure : ∀ {r m situation declaration}, R.upkeep.Sound r m →
    R.Admits r m situation (.function declaration) →
    let r' := r.bear { spot := situation.spot, receiver := situation.receiver }
    let m' := { m with identities := m.identities + 1 }
    R.Passes r m r' m' ∧
      R.Holds r' m'
        (.function { identity := m.identities, declaration, scope := situation.scope })
  classObject : ∀ {r m situation name methods} {object : ClassObject}, R.upkeep.Sound r m →
    R.Admits r m situation (.statement (.classDecl name methods)) →
    object.identity = m.identities → object.scope = situation.scope →
    (∀ (x : String) d, object.methods[x]? = some d → d ∈ methods) →
    let r' := r.bear
      { spot := (situation.spot.declare name.lexeme true).inClass
        receiver := situation.receiver }
    let m' := { m with identities := m.identities + 1 }
    R.Passes r m r' m' ∧ R.Holds r' m' (.classObject object)
  newObject : ∀ {r m object}, R.upkeep.Sound r m → R.Holds r m (.classObject object) →
    let m' := { m with fields := m.fields.push ∅ }
    R.Passes r m r m' ∧ R.Holds r m' (.object m.fields.size object)
  setField : ∀ {r m} {address : InstanceRef} {name value}, R.upkeep.Sound r m →
    R.Holds r m value →
    R.Passes r m r { m with
      fields := m.fields.modify address fun fields => fields.insert name value }
  method : ∀ {r m address} {ofClass : ClassObject} {name : String} {declaration},
    R.upkeep.Sound r m →
    R.Holds r m (.object address ofClass) → ofClass.methods[name]? = some declaration →
    let receiver : Receiver := { address, ofClass }
    let birth := r.births.getD ofClass.identity default
    let r' := (r.see (.taken receiver declaration m)).bear
      { spot := birth.spot, receiver := some receiver }
    let scopes := (m.scopes.create (some ofClass.scope)).2.define m.scopes.size "this"
      (some (.object address ofClass))
    let m' := { m with scopes, identities := m.identities + 1 }
    R.Passes r m r' m' ∧
      R.Holds r' m'
        (.function { identity := m.identities, declaration, scope := m.scopes.size })

/-- A step keeps the regime. -/
abbrev Keeps {α : Type} (R : Regime) (r : Record) (m : Machine) (step : Noting Record α)
    (post : α → Record → Machine → Prop) : Prop :=
  R.upkeep.Keeps r m step post

/-- The result is known. -/
def Known (R : Regime) (value : Value) (r : Record) (m : Machine) : Prop :=
  R.Holds r m value

/-- The results are known. -/
def AllKnown (R : Regime) (values : List Value) (r : Record) (m : Machine) : Prop :=
  ∀ value ∈ values, R.Holds r m value

/-- The value that a flow carries is known. -/
def FlowKnown (R : Regime) : Flow → Record → Machine → Prop
  | .normal value, r, m | .giveBack value, r, m => R.Holds r m value
  | .leave, _, _ => True

namespace Ruled

variable {R : Regime} {setting : Setting} {handed : List Value}
  (h : R.Ruled setting handed) {r : Record} {m : Machine}

include h

/-! ## Sequencing -/

theorem pure {α : Type} {a : α} {post : α → Record → Machine → Prop}
    (hs : R.upkeep.Sound r m) (hp : post a r m) : R.Keeps r m (Pure.pure a) post :=
  .pure h.lawful hs hp

theorem fault {α : Type} {post : α → Record → Machine → Prop} (hs : R.upkeep.Sound r m)
    (token : Token) (cause : RunFault) : R.Keeps r m (Noting.lift (Run.fault token cause)) post :=
  .fault h.lawful hs token cause

theorem bind {α β : Type} {first : Noting Record α} {next : α → Noting Record β}
    {middle : α → Record → Machine → Prop} {post : β → Record → Machine → Prop}
    (hf : R.Keeps r m first middle)
    (hn : ∀ a r' m', R.upkeep.Sound r' m' → R.upkeep.Grows r m r' m' → middle a r' m' →
      R.Keeps r' m' (next a) post) : R.Keeps r m (first >>= next) post :=
  Upkeep.Keeps.bind h.lawful hf hn

/-! ## Primitive steps -/

/-- A sound node is executed after it is recorded. -/
theorem entered {α : Type} {situation : Situation} {node : Node} {next : Noting Record α}
    {post : α → Record → Machine → Prop} (hs : R.upkeep.Sound r m)
    (ha : R.Admits r m situation node)
    (hn : ∀ r', R.upkeep.Sound r' m → R.Admits r' m situation node →
      R.Keeps r' m next post) :
    R.Keeps r m (Record.enter situation node >>= fun _ => next) post := by
  obtain ⟨hs', hg⟩ := h.enter hs ha
  exact Upkeep.Ends.after h.lawful (hn _ hs' (h.admits_mono hg ha)) hg

theorem defined {scope : ScopeRef} {name : String} {value : Option Value}
    (hs : R.upkeep.Sound r m) (hb : R.Binds r m scope name)
    (hv : ∀ v ∈ value, R.Holds r m v) :
    R.Keeps r m (Noting.lift (Run.define scope name value)) fun _ _ _ => True := by
  obtain ⟨hs', hg⟩ := h.define hs hb hv
  exact .of_done rfl hs' hg trivial

theorem allDefined {scope : ScopeRef} {parameters : List Token} {arguments : List Value}
    (hs : R.upkeep.Sound r m)
    (hb : ∀ parameter ∈ parameters, R.Binds r m scope parameter.lexeme)
    (hv : ∀ argument ∈ arguments, R.Holds r m argument) :
    R.Keeps r m (Noting.lift (Run.defineAll scope parameters arguments))
      fun _ _ _ => True := by
  induction parameters generalizing m arguments with
  | nil => exact h.pure hs trivial
  | cons parameter parameters ih =>
    cases arguments with
    | nil => exact h.pure hs trivial
    | cons argument arguments =>
      rw [List.forall_mem_cons] at hb hv
      have hargument : ∀ v ∈ some argument, R.Holds r m v := by simpa using hv.1
      obtain ⟨hs', hg⟩ := h.define hs hb.1 hargument
      have hrest := ih hs' (fun p hp => h.binds_mono hg (hb.2 p hp))
        fun a ha => h.holds_mono hg (hv.2 a ha)
      exact Upkeep.Ends.after h.lawful hrest hg

theorem held (hs : R.upkeep.Sound r m) (distance? : Option Nat) (scope : ScopeRef)
    (name : Token) :
    R.Keeps r m (Noting.lift (Run.holder distance? scope name)) fun found r' m' =>
      r = r' ∧ m = m' ∧ m.scopes.Declares found name.lexeme := by
  have hrefl := h.lawful.refl r m
  rcases Run.holder_cases distance? scope name m with ⟨found, hh, hd⟩ | ⟨failure, hh⟩
  · exact .of_done (Prod.ext hh rfl) hs hrefl ⟨rfl, rfl, hd⟩
  · exact .of_failed (Prod.ext hh rfl) hs hrefl

/-- What a name is read as is the value of a binding. -/
theorem readName (hs : R.upkeep.Sound r m) (distance? : Option Nat) (scope : ScopeRef)
    (name : Token) :
    R.Keeps r m (Noting.lift (Run.readName distance? scope name)) R.Known := by
  refine .lift_bind h.lawful (h.held hs distance? scope name) ?_
  rintro found _ _ - - ⟨rfl, rfl, -⟩
  rcases m.scopes.read_cases found name with ⟨value, hread, hb⟩ | ⟨cause, hread⟩
  · refine .of_done (?_ : _ = (Outcome.done value m, r)) hs (h.lawful.refl r m)
      (h.bindings hs hb)
    simp only [Noting.lift, hread]
  · refine .of_failed (?_ : _ = (Outcome.failed (.at name cause) m, r)) hs
      (h.lawful.refl r m)
    simp only [Noting.lift, hread]

theorem writeName {situation : Situation} {id : ReferenceId} {name : Token} {e : Expr}
    {value : Value} (hs : R.upkeep.Sound r m)
    (ha : R.Admits r m situation (.expression (.assign id name e)))
    (hv : R.Holds r m value) (distance? : Option Nat) :
    R.Keeps r m (Noting.lift (Run.writeName distance? situation.scope name value))
      fun _ _ _ => True := by
  refine .lift_bind h.lawful (h.held hs distance? situation.scope name) ?_
  rintro found _ _ - - ⟨rfl, rfl, hd⟩
  obtain ⟨hs', hg⟩ := h.assign hs ha hd hv
  exact .of_done rfl hs' hg trivial

theorem ofOperator (hs : R.upkeep.Sound r m) (operator : Token)
    {result : Except RunFault Value} (hv : ∀ value, result = .ok value → R.Holds r m value) :
    R.Keeps r m (Noting.lift (Run.ofOperator operator result)) R.Known := by
  cases result with
  | ok value => exact h.pure hs (hv value rfl)
  | error cause => exact h.fault hs operator cause

/-- A property is the value of a field, or a method that is bound to the instance. -/
theorem property {address : InstanceRef} {ofClass : ClassObject} (hs : R.upkeep.Sound r m)
    (ho : R.Holds r m (.object address ofClass)) (name : Token) :
    R.Keeps r m (Record.property address ofClass name) R.Known := by
  have hfield : R.Keeps r m (Noting.lift (Run.field? address name.lexeme))
      fun found r' m' => r = r' ∧ m = m' ∧ ∀ value, found = some value → R.Holds r m value := by
    refine .of_done rfl hs (h.lawful.refl r m) ⟨rfl, rfl, fun value hv => ?_⟩
    obtain ⟨fields, hf, hx⟩ := Option.bind_eq_some_iff.1 hv
    exact h.fields hs hf hx
  refine h.bind hfield ?_
  rintro found _ _ - - ⟨rfl, rfl, hfound⟩
  cases found with
  | some value => exact h.pure hs (hfound value rfl)
  | none =>
    simp only
    cases hm : ofClass.methods[name.lexeme]? with
    | none => exact h.fault hs name _
    | some declaration =>
      obtain ⟨⟨hs', hg⟩, hv⟩ := h.method hs ho hm
      exact .of_done rfl hs' hg hv

theorem printed (hs : R.upkeep.Sound r m) (situation : Situation) (text : String) :
    R.Keeps r m (Record.print situation text) fun _ _ _ => True := by
  obtain ⟨scopes, fields, identities, sink⟩ := m
  obtain ⟨hs', hg⟩ := h.print situation text (sink.write (text ++ "\n")).1 hs
  show R.upkeep.Ends r _ _ (Run.print text _, r.see (.print situation text _))
  rcases hw : sink.write (text ++ "\n") with ⟨sink', _ | cause⟩
  · rw [hw] at hs' hg
    simp only [Run.print, hw]
    exact ⟨hs', hg, trivial⟩
  · rw [hw] at hs' hg
    simp only [Run.print, hw]
    exact ⟨hs', hg⟩

theorem flushed (hs : R.upkeep.Sound r m) :
    R.Keeps r m (Noting.lift Run.flush) fun _ _ _ => True := by
  show R.upkeep.Ends r m _ (Run.flush m, r)
  cases hf : m.sink.flush with
  | none =>
    simp only [Run.flush, hf]
    exact ⟨hs, h.lawful.refl r m, trivial⟩
  | some cause =>
    simp only [Run.flush, hf]
    exact ⟨hs, h.lawful.refl r m⟩

end Ruled

/-! ## Evaluation -/

/-- Evaluation keeps the regime, at one amount of fuel. -/
structure KeptAt (R : Regime) (setting : Setting) (fuel : Nat) : Prop where
  evaluate : ∀ {r m situation e}, R.upkeep.Sound r m →
    R.Admits r m situation (.expression e) →
    R.Keeps r m (trackEvaluate setting fuel situation e) R.Known
  evaluateAll : ∀ {r m situation es}, R.upkeep.Sound r m →
    (∀ e ∈ es, R.Admits r m situation (.expression e)) →
    R.Keeps r m (trackEvaluateAll setting fuel situation es) R.AllKnown
  execute : ∀ {r m situation s}, R.upkeep.Sound r m →
    R.Admits r m situation (.statement s) →
    R.Keeps r m (trackExecute setting fuel situation s) R.FlowKnown
  repeatWhile : ∀ {r m situation condition body}, R.upkeep.Sound r m →
    R.Admits r m situation (.expression condition) →
    R.Admits r m situation (.statement body) →
    R.Keeps r m (trackRepeat setting fuel situation condition body) R.FlowKnown
  executeAll : ∀ {r m situation ss}, R.upkeep.Sound r m →
    R.Admits r m situation (.statements ss) →
    R.Keeps r m (trackExecuteAll setting fuel situation ss) R.FlowKnown
  call : ∀ {r m callee arguments} hosted paren, R.upkeep.Sound r m →
    R.Holds r m callee → (∀ argument ∈ arguments, R.Holds r m argument) →
    R.Keeps r m (trackCall setting fuel hosted paren callee arguments) R.Known
  script : ∀ {r m} {script : Script} {held} paren, R.upkeep.Sound r m →
    (∀ value ∈ held, R.Holds r m value) → script.Uses held →
    R.Keeps r m (trackScript setting fuel paren script) R.Known

namespace KeptAt

variable {R : Regime} {setting : Setting} {handed : List Value} {fuel : Nat}
  {r : Record} {m : Machine} {situation : Situation}

theorem zero (h : R.Ruled setting handed) : KeptAt R setting 0 where
  evaluate hs _ := by rw [trackEvaluate]; exact .stuck h.lawful hs
  evaluateAll hs _ := by rw [trackEvaluateAll]; exact .stuck h.lawful hs
  execute hs _ := by rw [trackExecute]; exact .stuck h.lawful hs
  repeatWhile hs _ _ := by rw [trackRepeat]; exact .stuck h.lawful hs
  executeAll hs _ := by rw [trackExecuteAll]; exact .stuck h.lawful hs
  call _ _ hs _ _ := by rw [trackCall]; exact .stuck h.lawful hs
  script _ hs _ _ := by rw [trackScript]; exact .stuck h.lawful hs

theorem evaluate_step (ih : KeptAt R setting fuel) (h : R.Ruled setting handed) {e : Expr}
    (hsound : R.upkeep.Sound r m) (hadmits : R.Admits r m situation (.expression e)) :
    R.Keeps r m (trackEvaluate setting (fuel + 1) situation e) R.Known := by
  have parts : ∀ {r}, R.Admits r m situation (.expression e) → ∀ p ∈ e.parts,
      R.Admits r m situation p := fun ha p hp =>
    h.child (c := ⟨situation.spot, p⟩) ha rfl (List.mem_map.2 ⟨p, hp, rfl⟩)
  cases e
  all_goals
    rw [trackEvaluate]
    refine h.entered hsound hadmits fun r hs ha => ?_
    have part := parts ha
  case constant value => cases value <;> exact h.pure hs (h.plain rfl)
  case grouping inner => exact ih.evaluate hs (part _ (by simp [Expr.parts]))
  case unary operator operand =>
    refine h.bind (ih.evaluate hs (part _ (by simp [Expr.parts]))) ?_
    intro value r' m' hs' _ _
    exact h.ofOperator hs' operator fun v hv => h.plain (unaryResult_isPlain hv)
  case binary left operator right =>
    refine h.bind (ih.evaluate hs (part _ (List.mem_cons_self ..))) ?_
    intro a r' m' hs' hg _
    have hright := h.admits_mono hg (part (.expression right) (by simp [Expr.parts]))
    refine h.bind (ih.evaluate hs' hright) ?_
    intro b r'' m'' hs'' _ hb
    refine h.ofOperator hs'' operator fun v hv => ?_
    rcases binaryResult_isPlain hv with rfl | hplain
    · exact hb
    · exact h.plain hplain
  case logical left operator right =>
    refine h.bind (ih.evaluate hs (part _ (List.mem_cons_self ..))) ?_
    intro a r' m' hs' hg hv
    have hright := h.admits_mono hg (part (.expression right) (by simp [Expr.parts]))
    split
    · exact h.pure hs' hv
    · exact ih.evaluate hs' hright
  case ternary condition question whenTrue whenFalse =>
    refine h.bind (ih.evaluate hs (part _ (List.mem_cons_self ..))) ?_
    intro decision r' m' hs' hg _
    have htrue := h.admits_mono hg (part (.expression whenTrue) (by simp [Expr.parts]))
    have hfalse := h.admits_mono hg (part (.expression whenFalse) (by simp [Expr.parts]))
    split
    · exact ih.evaluate hs' htrue
    · exact ih.evaluate hs' hfalse
  case «variable» id name => exact h.readName hs _ _ name
  case assign id name value =>
    refine h.bind (ih.evaluate hs (part _ (by simp [Expr.parts]))) ?_
    intro v r' m' hs' hg hv
    refine h.bind (Upkeep.Keeps.imp (h.writeName hs' (h.admits_mono hg ha) hv _) ?_)
      fun _ r'' m'' hs'' _ hv' => h.pure hs'' hv'
    exact fun _ _ _ _ hg' _ => h.holds_mono hg' hv
  case call callee paren arguments =>
    refine h.bind (ih.evaluate hs (part _ (List.mem_cons_self ..))) ?_
    intro f r' m' hs' hg hf
    have harguments : ∀ e ∈ arguments, R.Admits r' m' situation (.expression e) :=
      fun e he => h.admits_mono hg
        (part _ (List.mem_cons_of_mem _ (List.mem_map.2 ⟨e, he, rfl⟩)))
    refine h.bind (ih.evaluateAll hs' harguments) ?_
    intro values r'' m'' hs'' hg' hvalues
    cases f.arity? setting with
    | none => exact h.fault hs'' paren _
    | some arity =>
      simp only
      split
      · exact ih.call _ paren hs'' (h.holds_mono hg' hf) hvalues
      · exact h.fault hs'' paren _
  case get object name =>
    refine h.bind (ih.evaluate hs (part _ (by simp [Expr.parts]))) ?_
    intro target r' m' hs' _ ht
    cases target with
    | object address ofClass => exact h.property hs' ht name
    | _ => exact h.fault hs' name _
  case set object name value =>
    refine h.bind (ih.evaluate hs (part _ (List.mem_cons_self ..))) ?_
    intro target r' m' hs' hg _
    have hvalue := h.admits_mono hg (part (.expression value) (by simp [Expr.parts]))
    cases target with
    | object address ofClass =>
      refine h.bind (ih.evaluate hs' hvalue) ?_
      intro v r'' m'' hs'' _ hv
      obtain ⟨hset, hg'⟩ : R.Passes r'' m'' r'' { m'' with
          fields := m''.fields.modify address fun fields => fields.insert name.lexeme v } :=
        h.setField hs'' hv
      refine h.bind (.of_done rfl hset hg' (h.holds_mono hg' hv))
        fun _ r₃ m₃ hs₃ _ hv₃ => h.pure hs₃ hv₃
    | _ => exact h.fault hs' name _
  case self id keyword => exact h.readName hs _ _ keyword
  case function declaration =>
    obtain ⟨⟨hs', hg⟩, hv⟩ := h.closure hs (part (.function declaration) (by simp [Expr.parts]))
    exact .of_done rfl hs' hg hv

theorem evaluateAll_step (ih : KeptAt R setting fuel) (h : R.Ruled setting handed)
    {es : List Expr} (hs : R.upkeep.Sound r m)
    (ha : ∀ e ∈ es, R.Admits r m situation (.expression e)) :
    R.Keeps r m (trackEvaluateAll setting (fuel + 1) situation es) R.AllKnown := by
  cases es with
  | nil =>
    rw [trackEvaluateAll]
    exact h.pure hs fun _ hv => absurd hv List.not_mem_nil
  | cons first rest =>
    rw [trackEvaluateAll]
    rw [List.forall_mem_cons] at ha
    refine h.bind (ih.evaluate hs ha.1) ?_
    intro value r' m' hs' hg hv
    refine h.bind (ih.evaluateAll hs' fun e he => h.admits_mono hg (ha.2 e he)) ?_
    intro values r'' m'' hs'' hg' hvs
    exact h.pure hs'' (List.forall_mem_cons.2 ⟨h.holds_mono hg' hv, hvs⟩)

/-- A name is bound at the end of a statement. -/
theorem declared (h : R.Ruled setting handed) {s : Stmt} {name : String}
    {value : Option Value} (hs : R.upkeep.Sound r m)
    (ha : R.Admits r m situation (.statement s)) (hn : s.ownName? = some name)
    (hv : ∀ v ∈ value, R.Holds r m v) :
    R.Keeps r m
      (do Noting.lift (Run.define situation.scope name value)
          return Flow.normal .nil) R.FlowKnown := by
  refine h.bind (h.defined hs (h.binds ha hn) hv) ?_
  intro _ r' m' hs' _ _
  exact h.pure hs' (h.plain rfl)

theorem execute_step (ih : KeptAt R setting fuel) (h : R.Ruled setting handed) {s : Stmt}
    (hs : R.upkeep.Sound r m) (ha : R.Admits r m situation (.statement s)) :
    R.Keeps r m (trackExecute setting (fuel + 1) situation s) R.FlowKnown := by
  match s with
  | .expression value | .giveBack _ (some value) =>
    rw [trackExecute]
    refine h.entered hs ha fun r hs ha => ?_
    have hvalue := h.child ha rfl (List.mem_singleton.2 rfl)
    exact h.bind (ih.evaluate hs hvalue) fun v r' m' hs' _ hv => h.pure hs' hv
  | .print value =>
    rw [trackExecute]
    refine h.entered hs ha fun r hs ha => ?_
    have hvalue := h.child ha rfl (List.mem_singleton.2 rfl)
    refine h.bind (ih.evaluate hs hvalue) fun v r' m' hs' _ _ => ?_
    exact h.bind (h.printed hs' situation v.text) fun _ r'' m'' hs'' _ _ =>
      h.pure hs'' (h.plain rfl)
  | .varDecl name none =>
    rw [trackExecute]
    refine h.entered hs ha fun r hs ha => ?_
    exact declared h hs ha rfl (by simp)
  | .varDecl name (some value) =>
    rw [trackExecute]
    refine h.entered hs ha fun r hs ha => ?_
    have hvalue := h.child ha rfl (List.mem_singleton.2 rfl)
    refine h.bind (ih.evaluate hs hvalue) fun v r' m' hs' hg hv => ?_
    exact declared h hs' (h.admits_mono hg ha) rfl (by simpa [Known] using hv)
  | .block body =>
    rw [trackExecute]
    refine h.entered hs ha fun r hs ha => ?_
    obtain ⟨⟨hs', hg⟩, hbody⟩ := h.block hs ha
    exact Upkeep.Ends.after h.lawful (ih.executeAll hs' hbody) hg
  | .conditional condition whenTrue none =>
    rw [trackExecute]
    refine h.entered hs ha fun r hs ha => ?_
    have hcondition := h.child ha rfl (List.mem_cons_self ..)
    have htrue := h.child ha rfl (List.mem_cons_of_mem _ (List.mem_singleton.2 rfl))
    refine h.bind (ih.evaluate hs hcondition) fun decision r' m' hs' hg _ => ?_
    split
    · exact ih.execute hs' (h.admits_mono hg htrue)
    · exact h.pure hs' (h.plain rfl)
  | .conditional condition whenTrue (some whenFalse) =>
    rw [trackExecute]
    refine h.entered hs ha fun r hs ha => ?_
    have hcondition := h.child ha rfl (List.mem_cons_self ..)
    have htrue := h.child ha rfl (List.mem_cons_of_mem _ (List.mem_cons_self ..))
    have hfalse := h.child ha rfl
      (List.mem_cons_of_mem _ (List.mem_cons_of_mem _ (List.mem_singleton.2 rfl)))
    refine h.bind (ih.evaluate hs hcondition) fun decision r' m' hs' hg _ => ?_
    split
    · exact ih.execute hs' (h.admits_mono hg htrue)
    · exact ih.execute hs' (h.admits_mono hg hfalse)
  | .loop condition body =>
    rw [trackExecute]
    refine h.entered hs ha fun r hs ha => ?_
    have hcondition := h.child ha rfl (List.mem_cons_self ..)
    have hbody := h.child ha rfl (List.mem_cons_of_mem _ (List.mem_singleton.2 rfl))
    exact ih.repeatWhile hs hcondition hbody
  | .leave _ =>
    rw [trackExecute]
    exact h.entered hs ha fun r hs _ => h.pure hs trivial
  | .giveBack _ none =>
    rw [trackExecute]
    exact h.entered hs ha fun r hs _ => h.pure hs (h.plain rfl)
  | .function declaration =>
    rw [trackExecute]
    refine h.entered hs ha fun r hs ha => ?_
    have hfunction := h.child ha rfl (List.mem_singleton.2 rfl)
    obtain ⟨⟨hs', hg⟩, hv⟩ := h.closure hs hfunction
    refine Upkeep.Ends.after h.lawful ?_ hg
    exact declared h hs' (h.admits_mono hg ha) rfl (by simpa using hv)
  | .classDecl name methods =>
    rw [trackExecute]
    refine h.entered hs ha fun r hs ha => ?_
    let table := methods.foldl
      (fun (table : Std.TreeMap String FunctionDecl) method =>
        table.insert method.displayName method) ∅
    let object : ClassObject :=
      { identity := m.identities, name := name.lexeme, methods := table
        scope := situation.scope }
    have hmethods : ∀ (x : String) d, object.methods[x]? = some d → d ∈ methods :=
      fun x d hd => (mem_of_getElem?_insertAll hd).resolve_right (by simp)
    have hidentity : object.identity = m.identities := rfl
    obtain ⟨⟨hs', hg⟩, hv⟩ := h.classObject hs ha hidentity rfl hmethods
    refine Upkeep.Ends.after h.lawful ?_ hg
    exact declared h hs' (h.admits_mono hg ha) rfl (by simpa using hv)

theorem repeatWhile_step (ih : KeptAt R setting fuel) (h : R.Ruled setting handed)
    {condition : Expr} {body : Stmt} (hs : R.upkeep.Sound r m)
    (hc : R.Admits r m situation (.expression condition))
    (hb : R.Admits r m situation (.statement body)) :
    R.Keeps r m (trackRepeat setting (fuel + 1) situation condition body) R.FlowKnown := by
  rw [trackRepeat]
  refine h.bind (ih.evaluate hs hc) fun decision r' m' hs' hg _ => ?_
  split
  · refine h.bind (ih.execute hs' (h.admits_mono hg hb)) fun flow r'' m'' hs'' hg' hflow => ?_
    have hg'' := h.lawful.trans hg hg'
    cases flow with
    | normal value =>
      exact ih.repeatWhile hs'' (h.admits_mono hg'' hc) (h.admits_mono hg'' hb)
    | leave => exact h.pure hs'' (h.plain rfl)
    | giveBack value => exact h.pure hs'' hflow
  · exact h.pure hs' (h.plain rfl)

theorem executeAll_step (ih : KeptAt R setting fuel) (h : R.Ruled setting handed)
    {ss : List Stmt} (hs : R.upkeep.Sound r m) (ha : R.Admits r m situation (.statements ss)) :
    R.Keeps r m (trackExecuteAll setting (fuel + 1) situation ss) R.FlowKnown := by
  cases ss with
  | nil =>
    rw [trackExecuteAll]
    exact h.pure hs (h.plain rfl)
  | cons first rest =>
    rw [trackExecuteAll]
    have hfirst := h.child ha rfl (List.mem_cons_self ..)
    have hrest := h.child ha rfl (List.mem_cons_of_mem _ (List.mem_singleton.2 rfl))
    refine h.bind (ih.execute hs hfirst) fun flow r' m' hs' hg hflow => ?_
    cases flow with
    | normal value => exact ih.executeAll hs' (h.admits_mono hg hrest)
    | giveBack value => exact h.pure hs' hflow
    | leave => exact h.pure hs' trivial

theorem call_step (ih : KeptAt R setting fuel) (h : R.Ruled setting handed) {callee : Value}
    {arguments : List Value} (hosted : Bool) (paren : Token) (hs : R.upkeep.Sound r m)
    (hc : R.Holds r m callee) (hv : ∀ argument ∈ arguments, R.Holds r m argument) :
    R.Keeps r m (trackCall setting (fuel + 1) hosted paren callee arguments) R.Known := by
  cases callee with
  | function closure =>
    rw [trackCall]
    obtain ⟨⟨hs', hg⟩, hparameters, hbody⟩ := h.call hosted hs hc
    -- the scope of the call is new
    refine Upkeep.Ends.after h.lawful ?_ hg
    refine h.bind (h.allDefined hs' hparameters fun a ha => h.holds_mono hg (hv a ha)) ?_
    intro _ r' m' hs'' hg' _
    refine h.bind (ih.executeAll hs'' (h.admits_mono hg' hbody)) ?_
    intro flow r₃ m₃ hs₃ _ hflow
    cases flow with
    | giveBack value => exact h.pure hs₃ hflow
    | normal _ | leave => exact h.pure hs₃ (h.plain rfl)
  | classObject object =>
    rw [trackCall]
    obtain ⟨⟨hs', hg⟩, hobject⟩ := h.newObject hs hc
    exact .of_done rfl hs' hg hobject
  | native host =>
    rw [trackCall]
    cases hh : setting.natives[host.identity]? with
    | none => exact h.pure hs (h.plain rfl)
    | some found =>
      refine ih.script paren hs (fun value hm => ?_)
        (h.honest found (Array.mem_of_getElem? hh) arguments)
      rcases List.mem_append.1 hm with hm | hm
      · exact hv value hm
      · exact h.handed hs hm
  | nil | bool _ | number _ | string _ | object _ _ =>
    rw [trackCall] <;> first | exact h.fault hs paren _ | simp

theorem script_step (ih : KeptAt R setting fuel) (h : R.Ruled setting handed)
    {script : Script} {held : List Value} (paren : Token) (hs : R.upkeep.Sound r m)
    (hh : ∀ value ∈ held, R.Holds r m value) (hu : script.Uses held) :
    R.Keeps r m (trackScript setting (fuel + 1) paren script) R.Known := by
  have hknown : ∀ {value}, value.isPlain = true ∨ value ∈ held → R.Holds r m value :=
    fun hv => hv.elim h.plain (hh _)
  cases hu with
  | answer hv =>
    rw [trackScript]
    exact h.pure hs (hknown hv)
  | fail =>
    rw [trackScript]
    exact h.fault hs paren _
  | @call _ arguments callee next hcallee harguments hok herror =>
    rw [trackScript]
    have hcall := ih.call true paren hs (hknown hcallee) fun a ha => hknown (harguments a ha)
    refine h.bind (Upkeep.Keeps.attempt hcall) fun result r' m' hs' hg hresult => ?_
    have hheld : ∀ value ∈ held, R.Holds r' m' value := fun v hv => h.holds_mono hg (hh v hv)
    cases result with
    | ok value =>
      exact ih.script paren hs' (List.forall_mem_cons.2 ⟨hresult value rfl, hheld⟩) (hok value)
    | error diagnostic => exact ih.script paren hs' hheld (herror diagnostic.message)

end KeptAt

variable {R : Regime} {setting : Setting} {handed : List Value}

/-- What the primitive steps keep, evaluation keeps. -/
theorem keptAt (h : R.Ruled setting handed) (fuel : Nat) : KeptAt R setting fuel := by
  induction fuel with
  | zero => exact .zero h
  | succ fuel ih =>
    exact {
      evaluate := ih.evaluate_step h
      evaluateAll := ih.evaluateAll_step h
      execute := ih.execute_step h
      repeatWhile := ih.repeatWhile_step h
      executeAll := ih.executeAll_step h
      call := ih.call_step h
      script := ih.script_step h }

theorem keeps_trackStatements (h : R.Ruled setting handed) (fuel : Nat) {ss : List Stmt}
    {r : Record} {m : Machine} {situation : Situation} {last : Value}
    (hs : R.upkeep.Sound r m) (ha : R.Admits r m situation (.statements ss))
    (hl : R.Holds r m last) :
    R.Keeps r m (trackStatements setting fuel situation last ss) R.Known := by
  induction ss generalizing r m situation last with
  | nil => exact h.pure hs hl
  | cons first rest ih =>
    have hfirst := h.child ha rfl (List.mem_cons_self ..)
    have hrest := h.child ha rfl (List.mem_cons_of_mem _ (List.mem_singleton.2 rfl))
    refine h.bind ((keptAt h fuel).execute hs hfirst) fun flow r' m' hs' hg hflow => ?_
    refine ih hs' (h.admits_mono hg hrest) ?_
    cases flow with
    | normal value => exact hflow
    | giveBack _ | leave => exact h.plain rfl

/-- What the primitive steps keep, programs keep. -/
theorem keeps_trackProgram (h : R.Ruled setting handed) (fuel : Nat) {ss : List Stmt}
    {r : Record} {m : Machine} (hs : R.upkeep.Sound r m)
    (ha : R.Admits r m .top (.statements ss)) :
    R.Keeps r m (trackProgram setting fuel ss) R.Known := by
  refine h.bind (keeps_trackStatements h fuel hs ha (h.plain rfl)) fun v r' m' hs' _ hv => ?_
  refine h.bind (Upkeep.Keeps.imp (h.flushed hs') ?_) fun _ r'' m'' hs'' _ hv' => h.pure hs'' hv'
  exact fun _ _ _ _ hg _ => h.holds_mono hg hv

end Regime

end TreeScript
