import TreeScript.Proofs.Scoping.Chains
import TreeScript.Proofs.Scoping.Promises

/-!
# Worlds

* `World` — a machine, its journal, and the names that the resolving walk holds as
  defined in each scope
* `World.Mirrors` — a chain of scopes stands for the static scopes of a visit
* `World.Knows` — the scopes of a function or a class mirror those of its declaration
* `World.Sound` — what every step of a program keeps
* `World.Grows` — what a step leaves as it is
* `Moment.Good` — what is claimed of the execution of a node
-/

namespace TreeScript

/-! ## Worlds -/

/-- A machine and its journal, with the programs of the session.  A name is `defined`
in a scope as soon as the walk over the statements of the scope holds it as true, also
if a branch with its declaration was left out. -/
structure World where
  programs : List (List Stmt)
  machine : Machine
  journal : Journal
  defined : ScopeRef → String → Prop

namespace World

/-- The scopes of a world. -/
abbrev scopes (w : World) : Scopes :=
  w.machine.scopes

/-- The programs and the host calls so far are strict. -/
def Strict (w : World) : Prop :=
  TreeScript.Strict w.programs w.journal.hostCalls

/-- A scope stands for a static scope on a level, for all that a visit leads to.  A name
that is not initialized there is defined, or resolved to only too early. -/
structure Models (w : World) (v : Visit) (scope : ScopeRef) (level : Nat)
    (names : StaticScope) : Prop where
  initialized : ∀ x : String, names[x]? = some true → w.defined scope x
  uninitialized : ∀ x : String, names[x]? = some false →
    ∀ u, v.Leads u → u.Targets level x → w.defined scope x ∨ Premature w.programs u

/-- The chain that starts at a scope stands for static scopes, and ends among the
globals. -/
def Mirrors (w : World) (v : Visit) : ScopeRef → List StaticScope → Prop
  | scope, [] => scope = globalScope
  | scope, names :: outer =>
    w.Models v scope outer.length names ∧
      ∃ enclosing, w.scopes.enclosing? scope = some enclosing ∧ w.Mirrors v enclosing outer

/-- The scope of a function stands for the static scopes at its declaration. -/
structure KnowsFunction (w : World) (identity : Nat) (scope : ScopeRef)
    (declaration : FunctionDecl) (spot : Spot) : Prop where
  origin : w.journal.origins[identity]? = some spot
  walked : Walked w.programs ⟨spot, .function declaration⟩
  mirrors : w.Mirrors ⟨spot, .function declaration⟩ scope spot.scopes

/-- The scope of a class stands for the static scopes around the one of its methods. -/
structure KnowsClass (w : World) (object : ClassObject) (spot : Spot)
    (outer : List StaticScope) : Prop where
  origin : w.journal.origins[object.identity]? = some spot
  scopes : spot.scopes = StaticScope.ofClass :: outer
  walked : ∀ (name : String) declaration, object.methods[name]? = some declaration →
    Walked w.programs ⟨spot, .function declaration⟩
  mirrors : ∀ (name : String) declaration, object.methods[name]? = some declaration →
    w.Mirrors ⟨spot, .function declaration⟩ object.scope outer

/-- What a world knows of a value: the scopes of functions and classes stand for the
static scopes at their declarations. -/
def Knows (w : World) : Value → Prop
  | .function closure =>
    ∃ spot, w.KnowsFunction closure.identity closure.scope closure.declaration spot
  | .classObject object | .object _ object => ∃ spot outer, w.KnowsClass object spot outer
  | _ => True

/-- Initializers are being evaluated in scopes that exist, and a name that is not known
yet is not defined. -/
def Awaits (w : World) (pending : List Pending) : Prop :=
  ∀ p ∈ pending, p.scope < w.scopes.size ∧ (p.known = false → ¬w.defined p.scope p.name)

end World

/-- A node may be executed in a frame. -/
structure Frame.Fits (w : World) (frame : Frame) (node : Node) : Prop where
  walked : Walked w.programs ⟨frame.spot, node⟩
  mirrors : w.Mirrors ⟨frame.spot, node⟩ frame.scope frame.spot.scopes
  awaits : w.Awaits frame.pending

/-- What is claimed of the execution of a node.  The node is visited by the walk; as many
links lead to the globals as there are static scopes; in strict sessions every scope
declares what the walk holds as defined; and a reference is resolved to a name that the
scope does not declare, or that is being initialized, only if it is too early. -/
structure Moment.Good (programs : List (List Stmt)) (calls : List HostCall)
    (moment : Moment) : Prop where
  walked : Walked programs moment.visit
  links : moment.scopes.Links moment.frame.scope moment.frame.spot.scopes.length
  names : ∀ (i : Nat) names, moment.frame.spot.scopes[i]? = some names →
    ∃ scope, moment.scopes.ancestor moment.frame.scope i = .ok scope ∧
      scope ≠ globalScope ∧
      (Strict programs calls → ∀ x : String, names[x]? = some true →
        moment.scopes.Declares scope x)
  reference : ∀ id token distance, moment.visit.reference? = some (id, token) →
    StaticScope.distance? moment.frame.spot.scopes token.lexeme = some distance →
    ∀ scope, moment.scopes.ancestor moment.frame.scope distance = .ok scope →
      (Strict programs calls →
        moment.scopes.Declares scope token.lexeme ∨ Premature programs moment.visit) ∧
      ∀ p ∈ moment.frame.pending, p.scope = scope → p.name = token.lexeme →
        p.known = false → Premature programs moment.visit

namespace World

/-- What every step of a program keeps. -/
structure Sound (w : World) : Prop where
  globals : w.scopes.enclosing? globalScope = none
  inhabited : globalScope < w.scopes.size
  bindings : ∀ scope name value, w.scopes.binding? scope name = some (some value) →
    w.Knows value
  fields : ∀ (address : InstanceRef) fields (name : String) value,
    w.machine.fields[address]? = some fields → fields[name]? = some value → w.Knows value
  origins : w.journal.origins.size = w.machine.identities
  exist : ∀ scope name, w.defined scope name → scope < w.scopes.size
  declared : w.Strict → ∀ scope name, w.defined scope name → w.scopes.Declares scope name
  moments : ∀ moment ∈ w.journal.moments,
    moment.Good w.programs w.journal.hostCalls

/-- What a step leaves as it is.  In scopes that exist, names become defined only where
the step is at. -/
structure Grows (touched : List ScopeRef) (w w' : World) : Prop where
  programs : ∀ p ∈ w.programs, p ∈ w'.programs
  size : w.scopes.size ≤ w'.scopes.size
  enclosing : ∀ scope, scope < w.scopes.size →
    w'.scopes.enclosing? scope = w.scopes.enclosing? scope
  defined : ∀ scope name, w.defined scope name → w'.defined scope name
  untouched : ∀ scope name, scope < w.scopes.size → scope ∉ touched →
    w'.defined scope name → w.defined scope name
  origins : ∀ (identity : Nat) spot, w.journal.origins[identity]? = some spot →
    w'.journal.origins[identity]? = some spot
  calls : ∀ call ∈ w.journal.hostCalls, call ∈ w'.journal.hostCalls

/-! ## Growing worlds -/

variable {t t' : List ScopeRef} {w w' w'' : World}

namespace Grows

theorem refl (w : World) : w.Grows t w :=
  ⟨fun _ h => h, Nat.le_refl _, fun _ _ => rfl, fun _ _ h => h, fun _ _ _ _ h => h,
    fun _ _ h => h, fun _ h => h⟩

theorem trans (h₁ : w.Grows t w') (h₂ : w'.Grows t w'') : w.Grows t w'' where
  programs p hp := h₂.programs p (h₁.programs p hp)
  size := Nat.le_trans h₁.size h₂.size
  enclosing s hs := by
    rw [h₂.enclosing s (Nat.lt_of_lt_of_le hs h₁.size), h₁.enclosing s hs]
  defined s x hx := h₂.defined s x (h₁.defined s x hx)
  untouched s x hs hn hx :=
    h₁.untouched s x hs hn (h₂.untouched s x (Nat.lt_of_lt_of_le hs h₁.size) hn hx)
  origins i spot hi := h₂.origins i spot (h₁.origins i spot hi)
  calls c hc := h₂.calls c (h₁.calls c hc)

/-- Scopes that do not exist yet are touched by no step. -/
theorem weaken (h : w.Grows t w') (ht : ∀ s ∈ t, s < w.scopes.size → s ∈ t') :
    w.Grows t' w' :=
  { h with untouched := fun s x hs hn hx => h.untouched s x hs (fun hm => hn (ht s hm hs)) hx }

end Grows

theorem Strict.anti (h : w.Grows t w') (hs : w'.Strict) : w.Strict :=
  TreeScript.Strict.anti h.programs h.calls hs

theorem Models.mono {v : Visit} {scope : ScopeRef} {level : Nat} {names : StaticScope}
    (hm : w.Models v scope level names) (h : w.Grows t w') :
    w'.Models v scope level names where
  initialized x hx := h.defined scope x (hm.initialized x hx)
  uninitialized x hx u hu ht :=
    (hm.uninitialized x hx u hu ht).imp (h.defined scope x) (Premature.mono h.programs)

theorem Mirrors.mono {v : Visit} {scope : ScopeRef} {statics : List StaticScope}
    (hm : w.Mirrors v scope statics) (h : w.Grows t w') : w'.Mirrors v scope statics := by
  induction statics generalizing scope with
  | nil => exact hm
  | cons names outer ih =>
    obtain ⟨hmodels, enclosing, he, houter⟩ := hm
    refine ⟨hmodels.mono h, enclosing, ?_, ih houter⟩
    rw [h.enclosing scope (Scopes.lt_size_of_enclosing? he)]
    exact he

theorem Knows.mono {value : Value} (hk : w.Knows value) (h : w.Grows t w') :
    w'.Knows value := by
  cases value with
  | function closure =>
    obtain ⟨spot, hk⟩ := hk
    exact ⟨spot, h.origins _ _ hk.origin, hk.walked.mono h.programs, hk.mirrors.mono h⟩
  | classObject object | object address object =>
    obtain ⟨spot, outer, hk⟩ := hk
    exact ⟨spot, outer, h.origins _ _ hk.origin, hk.scopes,
      fun name d hd => (hk.walked name d hd).mono h.programs,
      fun name d hd => (hk.mirrors name d hd).mono h⟩
  | _ => trivial

theorem Awaits.mono {pending : List Pending} (ha : w.Awaits pending) (h : w.Grows t w')
    (hp : ∀ p ∈ pending, p.scope ∉ t) : w'.Awaits pending := by
  intro p hm
  obtain ⟨hs, hn⟩ := ha p hm
  refine ⟨Nat.lt_of_lt_of_le hs h.size, fun hk hd => hn hk ?_⟩
  exact h.untouched p.scope p.name hs (hp p hm) hd

end World

theorem Moment.Good.mono {programs more : List (List Stmt)} {calls others : List HostCall}
    {moment : Moment} (h : moment.Good programs calls) (hp : ∀ p ∈ programs, p ∈ more)
    (hc : ∀ c ∈ calls, c ∈ others) : moment.Good more others where
  walked := h.walked.mono hp
  links := h.links
  names i names hi := by
    obtain ⟨scope, ha, hg, hd⟩ := h.names i names hi
    exact ⟨scope, ha, hg, fun hs => hd (hs.anti hp hc)⟩
  reference id token distance hr hd scope ha := by
    obtain ⟨h₁, h₂⟩ := h.reference id token distance hr hd scope ha
    refine ⟨fun hs => (h₁ (hs.anti hp hc)).imp_right (.mono hp), ?_⟩
    exact fun p hm hs hn hk => (h₂ p hm hs hn hk).mono hp

/-! ## Mirrored chains -/

namespace World

variable {w : World} {v u : Visit} {scope : ScopeRef} {statics : List StaticScope}

theorem Models.leads {level : Nat} {names : StaticScope}
    (h : w.Models v scope level names) (hu : v.Leads u) : w.Models u scope level names where
  initialized := h.initialized
  uninitialized x hx u' hu' := h.uninitialized x hx u' (hu.trans hu')

theorem Mirrors.leads (h : w.Mirrors v scope statics) (hu : v.Leads u) :
    w.Mirrors u scope statics := by
  induction statics generalizing scope with
  | nil => exact h
  | cons names outer ih =>
    obtain ⟨hmodels, enclosing, he, houter⟩ := h
    exact ⟨hmodels.leads hu, enclosing, he, ih houter⟩

theorem Mirrors.lt_size (hw : w.Sound) (h : w.Mirrors v scope statics) :
    scope < w.scopes.size := by
  cases statics with
  | nil =>
    have hg : scope = globalScope := h
    rw [hg]
    exact hw.inhabited
  | cons names outer =>
    obtain ⟨-, enclosing, he, -⟩ := h
    exact Scopes.lt_size_of_enclosing? he

theorem Mirrors.links (hw : w.Sound) (h : w.Mirrors v scope statics) :
    w.scopes.Links scope statics.length := by
  induction statics generalizing scope with
  | nil =>
    have hg : scope = globalScope := h
    rw [hg]
    exact .here hw.globals
  | cons names outer ih =>
    obtain ⟨-, enclosing, he, houter⟩ := h
    exact .link he (ih houter)

/-- The scope that stands for a static scope is found so many hops up. -/
theorem Mirrors.hop (hw : w.Sound) (h : w.Mirrors v scope statics) {i : Nat}
    {names : StaticScope} (hi : statics[i]? = some names) (distance : Nat) :
    ∃ found, w.scopes.hop distance i scope = .ok found ∧ found ≠ globalScope ∧
      w.Models v found (statics.length - 1 - i) names := by
  induction statics generalizing scope i with
  | nil => cases hi
  | cons first outer ih =>
    obtain ⟨hmodels, enclosing, he, houter⟩ := h
    cases i with
    | zero =>
      cases hi
      refine ⟨scope, rfl, ?_, ?_⟩
      · intro hg
        rw [hg, hw.globals] at he
        cases he
      · simpa using hmodels
    | succ i =>
      obtain ⟨found, hf, hg, hm⟩ := ih houter hi
      refine ⟨found, ?_, hg, ?_⟩
      · rw [Scopes.hop_succ distance i he]
        exact hf
      · have : (first :: outer).length - 1 - (i + 1) = outer.length - 1 - i := by
          simp
          omega
        rw [this]
        exact hm

/-- The innermost scope may hold more names once they are defined. -/
theorem Mirrors.unfold {after : List StaticScope} (h : w.Mirrors v scope statics)
    (hu : StaticScope.Unfolds statics after)
    (hd : ∀ names ∈ after.head?, ∀ x : String, names[x]? = some true → w.defined scope x) :
    w.Mirrors v scope after := by
  cases hu with
  | globals => exact h
  | innermost he =>
    obtain ⟨hmodels, rest⟩ := h
    exact ⟨⟨hd _ rfl, fun x hx => hmodels.uninitialized x (he.uninitialized x hx)⟩, rest⟩

end World

/-! ## Frames -/

namespace Frame.Fits

variable {w w' : World} {t : List ScopeRef} {frame : Frame} {node : Node}

theorem mono (h : frame.Fits w node) (hg : w.Grows t w')
    (hp : ∀ p ∈ frame.pending, p.scope ∉ t) : frame.Fits w' node where
  walked := h.walked.mono hg.programs
  mirrors := h.mirrors.mono hg
  awaits := h.awaits.mono hg hp

/-- A node that is visited at the same spot. -/
theorem child {inner : Node} (h : frame.Fits w node)
    (hc : Visit.mk frame.spot inner ∈ (Visit.mk frame.spot node).children) :
    frame.Fits w inner where
  walked := h.walked.child hc
  mirrors := h.mirrors.leads (.single hc)
  awaits := h.awaits

/-- What is claimed of a reference in a frame that fits. -/
theorem reference (h : frame.Fits w node) (hw : w.Sound) {id : ReferenceId} {token : Token}
    {distance : Nat} (hr : (Visit.mk frame.spot node).reference? = some (id, token))
    (hd : StaticScope.distance? frame.spot.scopes token.lexeme = some distance)
    {scope : ScopeRef} (ha : w.scopes.ancestor frame.scope distance = .ok scope) :
    (w.Strict → w.scopes.Declares scope token.lexeme ∨
        Premature w.programs (Visit.mk frame.spot node)) ∧
      ∀ p ∈ frame.pending, p.scope = scope → p.name = token.lexeme → p.known = false →
        Premature w.programs (Visit.mk frame.spot node) := by
  obtain ⟨names, hi, hmem⟩ := StaticScope.of_distance? hd
  obtain ⟨found, hf, -, hm⟩ := h.mirrors.hop hw hi distance
  have hfound : found = scope := Except.ok.inj (hf.symm.trans ha)
  subst hfound
  have htargets : (Visit.mk frame.spot node).Targets
      (frame.spot.scopes.length - 1 - distance) token.lexeme := by
    have hlt : distance < frame.spot.scopes.length := (List.getElem?_eq_some_iff.1 hi).1
    refine ⟨id, token, distance, hr, rfl, hd, ?_⟩
    show _ = frame.spot.scopes.length
    omega
  have hdefined : w.defined found token.lexeme ∨
      Premature w.programs (Visit.mk frame.spot node) := by
    rcases StaticScope.true_or_false hmem with ht | hfalse
    · exact .inl (hm.initialized _ ht)
    · exact hm.uninitialized _ hfalse _ .refl htargets
  refine ⟨fun hs => hdefined.imp_left (hw.declared hs found _), ?_⟩
  intro p hp hscope hname hknown
  refine hdefined.resolve_left fun hd => (h.awaits p hp).2 hknown ?_
  rw [hscope, hname]
  exact hd

end Frame.Fits

/-- What is claimed of a node that is no reference, in a frame whose scopes mirror the
static scopes for whatever visit. -/
theorem World.Mirrors.good {w : World} {v : Visit} {frame : Frame} {node : Node}
    (h : w.Mirrors v frame.scope frame.spot.scopes) (hw : w.Sound)
    (hwalked : Walked w.programs ⟨frame.spot, node⟩)
    (hr : (Visit.mk frame.spot node).reference? = none) :
    Moment.Good w.programs w.journal.hostCalls { frame, node, scopes := w.scopes } where
  walked := hwalked
  links := h.links hw
  names i names hi := by
    obtain ⟨found, hf, hg, hm⟩ := h.hop hw hi i
    exact ⟨found, hf, hg, fun hs x hx => hw.declared hs found x (hm.initialized x hx)⟩
  reference id token distance hr' := by
    rw [Moment.visit, hr] at hr'
    cases hr'

/-- The execution of a node in a frame that fits is as claimed. -/
theorem Frame.Fits.good {w : World} {frame : Frame} {node : Node} (h : frame.Fits w node)
    (hw : w.Sound) :
    Moment.Good w.programs w.journal.hostCalls { frame, node, scopes := w.scopes } where
  walked := h.walked
  links := h.mirrors.links hw
  names i names hi := by
    obtain ⟨found, hf, hg, hm⟩ := h.mirrors.hop hw hi i
    exact ⟨found, hf, hg, fun hs x hx => hw.declared hs found x (hm.initialized x hx)⟩
  reference _ _ _ hr hd _ ha := h.reference hw hr hd ha

end TreeScript
