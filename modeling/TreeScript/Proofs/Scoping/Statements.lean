import TreeScript.Proofs.Scoping.Primitives

/-!
# What statements leave behind

* `World.Runs` — a sound world in which a program may run
* `Leaves` — after a statement its scope holds the names that the walk holds as defined
* `Leaves.declare` — a declaration binds its name
* `Keeps.settle` — a branch that was left out declares nothing in strict sessions, and
  otherwise its names become defined nevertheless
-/

namespace TreeScript

/-! ## Worlds in which a program runs -/

/-- A sound world in which a program may run. -/
structure World.Runs (w : World) (setting : Setting) (handed : List Value) : Prop where
  sound : w.Sound
  prepared : Prepared w.programs setting handed
  handed : ∀ value ∈ handed, w.Knows value

/-- Functions are called while other initializers are evaluated than those of the scope
at hand. -/
def Frame.Apart (frame : Frame) : Prop :=
  ∀ p ∈ frame.pending, p.scope ≠ frame.scope

/-- The innermost static scope holds all names that are defined in a scope. -/
def World.Bounds (w : World) (scope : ScopeRef) (statics : List StaticScope) : Prop :=
  ∀ names ∈ statics.head?, ∀ x, w.defined scope x → x ∈ names

/-- What a flow hands on is known. -/
def Flow.Known (w : World) : Flow → Prop
  | .normal value | .giveBack value => w.Knows value
  | .leave => True

section

variable {w w' : World} {t : List ScopeRef} {setting : Setting} {handed : List Value}
  {frame : Frame} {node : Node}

theorem World.Runs.step (h : w.Runs setting handed) (hp : w'.programs = w.programs)
    (hg : w.Grows t w') (hs : w'.Sound) : w'.Runs setting handed where
  sound := hs
  prepared := by
    rw [hp]
    exact h.prepared
  handed value hv := (h.handed value hv).mono hg

theorem Frame.Fits.next (h : frame.Fits w node) (hg : w.Grows [] w') : frame.Fits w' node :=
  h.mono hg (by simp)

theorem World.Awaits.ne_size {pending : List Pending} (h : w.Awaits pending) :
    ∀ p ∈ pending, p.scope ≠ w.scopes.size :=
  fun p hp => Nat.ne_of_lt (h p hp).1

theorem Frame.Apart.not_mem (h : frame.Apart) : ∀ p ∈ frame.pending, p.scope ∉ [frame.scope] :=
  fun p hp hs => h p hp (List.mem_singleton.1 hs)

theorem Frame.Fits.beyond (h : frame.Fits w node) (ha : frame.Apart)
    (hg : w.Grows [frame.scope] w') : frame.Fits w' node :=
  h.mono hg ha.not_mem

theorem World.Bounds.next {scope : ScopeRef} {statics : List StaticScope}
    (h : w.Bounds scope statics) (hs : scope < w.scopes.size) (hg : w.Grows [] w') :
    w'.Bounds scope statics :=
  fun names hn x hx => h names hn x (hg.untouched scope x hs (by simp) hx)

theorem Flow.Known.mono {flow : Flow} (h : flow.Known w) (hg : w.Grows t w') :
    flow.Known w' := by
  cases flow with
  | normal value | giveBack value => exact World.Knows.mono h hg
  | leave => trivial

end

/-! ## After a statement -/

/-- Only names that the innermost static scope holds become defined by a statement. -/
def Adds (w : World) (scope : ScopeRef) (after : List StaticScope) (w' : World) : Prop :=
  ∀ names ∈ after.head?, ∀ x, w'.defined scope x → w.defined scope x ∨ x ∈ names

/-- All names that the innermost static scope holds as initialized are defined. -/
def Defines (w : World) (scope : ScopeRef) (statics : List StaticScope) : Prop :=
  ∀ names ∈ statics.head?, ∀ x : String, names[x]? = some true → w.defined scope x

/-- What a statement leaves behind in its scope. -/
structure Leaves (w : World) (frame : Frame) (s : Stmt) (flow : Flow) (w' : World) :
    Prop where
  known : flow.Known w'
  adds : Adds w frame.scope (frame.spot.after s).scopes w'
  defines : (∃ value, flow = .normal value) →
    Defines w' frame.scope (frame.spot.after s).scopes

section

variable {w w' w'' : World} {t : List ScopeRef} {scope : ScopeRef} {frame : Frame}
  {s : Stmt} {v : Visit} {statics after : List StaticScope}

/-! The walk holds no names of the globals. -/

theorem World.Bounds.globals : w.Bounds scope [] := nofun

theorem Adds.globals : Adds w scope [] w' := nofun

theorem Defines.globals : Defines w scope [] := nofun

theorem Adds.of_grows (hs : scope < w.scopes.size) (hg : w.Grows [] w') :
    Adds w scope after w' :=
  fun _ _ x hx => .inl (hg.untouched scope x hs (by simp) hx)

theorem Adds.trans (h₁ : Adds w scope after w') (h₂ : Adds w' scope after w'') :
    Adds w scope after w'' :=
  fun names hn x hx => (h₂ names hn x hx).elim (h₁ names hn x) .inr

/-- Later declarations keep the names of earlier ones. -/
theorem Adds.unfold {later : List StaticScope} (h : Adds w scope after w')
    (hu : StaticScope.Unfolds after later) : Adds w scope later w' := by
  cases hu with
  | globals => exact h
  | innermost he =>
    rintro _ ⟨⟩ x hx
    exact (h _ rfl x hx).imp_right (he.holds x)

theorem World.Mirrors.defines (h : w.Mirrors v scope statics) : Defines w scope statics := by
  cases statics with
  | nil => exact .globals
  | cons names outer =>
    rintro _ ⟨⟩
    exact h.1.initialized

/-- The next statement may be executed. -/
theorem Frame.Fits.later {node inner : Node} {spot : Spot} (h : frame.Fits w node)
    (hc : Visit.mk spot inner ∈ (Visit.mk frame.spot node).children)
    (hu : StaticScope.Unfolds frame.spot.scopes spot.scopes)
    (hd : Defines w frame.scope spot.scopes) :
    Frame.Fits w { frame with spot } inner where
  walked := h.walked.child hc
  mirrors := (h.mirrors.unfold hu hd).leads (.single hc)
  awaits := h.awaits

theorem World.Bounds.later (h : w.Bounds scope statics) (hu : StaticScope.Unfolds statics after)
    (ha : Adds w scope after w') : w'.Bounds scope after := by
  cases hu with
  | globals => exact .globals
  | innermost he =>
    rintro _ ⟨⟩ x hx
    exact (ha _ rfl x hx).elim (fun hd => he.holds x (h _ rfl x hd)) id

/-- A statement that declares nothing leaves its scope as it is. -/
theorem Leaves.of_grows {flow : Flow} (hm : w.Mirrors v frame.scope frame.spot.scopes)
    (hw : w.Sound) (ha : (frame.spot.after s).scopes = frame.spot.scopes)
    (hg : w.Grows [] w') (hk : flow.Known w') : Leaves w frame s flow w' where
  known := hk
  adds := .of_grows (hm.lt_size hw) hg
  defines _ := by
    rw [ha]
    exact (hm.mono hg).defines

theorem Leaves.before {flow : Flow} (h : Leaves w' frame s flow w'')
    (hs : frame.scope < w.scopes.size) (hg : w.Grows [] w') : Leaves w frame s flow w'' where
  known := h.known
  adds names hn x hx := (h.adds names hn x hx).imp_left (hg.untouched _ x hs (by simp))
  defines := h.defines

/-- The declaration of a name, for what is left behind. -/
theorem Leaves.declare {flow : Flow} {name : String} {value : Option Value}
    (hm : w.Mirrors v frame.scope frame.spot.scopes) (hw : w.Sound)
    (ha : (frame.spot.after s).scopes = StaticScope.declare frame.spot.scopes name true)
    (hg : w.Grows [] w') (hk : flow.Known (w'.define frame.scope name value True)) :
    Leaves w frame s flow (w'.define frame.scope name value True) where
  known := hk
  adds := by
    rw [ha]
    have hs := hm.lt_size hw
    cases hst : frame.spot.scopes with
    | nil => exact .globals
    | cons names outer =>
      rintro _ ⟨⟩ x (hx | ⟨-, -, rfl⟩)
      · exact .inl (hg.untouched _ x hs (by simp) hx)
      · exact .inr (by simp)
  defines _ := by
    rw [ha]
    have hd := hm.defines
    cases hst : frame.spot.scopes with
    | nil => exact .globals
    | cons names outer =>
      rw [hst] at hd
      rintro _ ⟨⟩ x hx
      rw [StaticScope.getElem?_insert] at hx
      split at hx
      · subst x
        exact .inr ⟨trivial, rfl, rfl⟩
      · exact .inl (hg.defined _ x (hd names rfl x hx))

end

/-! ## Declared names in mirrored chains -/

/-- Once a name is defined, the static scopes may hold it, initialized or not. -/
theorem World.Mirrors.declare {w : World} {v : Visit} {scope : ScopeRef}
    {statics : List StaticScope} {name : String} (h : w.Mirrors v scope statics)
    (hd : w.defined scope name) (initialized : Bool) :
    w.Mirrors v scope (StaticScope.declare statics name initialized) := by
  cases statics with
  | nil => exact h
  | cons names outer =>
    obtain ⟨hmodels, rest⟩ := h
    refine ⟨⟨fun x hx => ?_, fun x hx u hu ht => ?_⟩, rest⟩
    · rw [StaticScope.getElem?_insert] at hx
      split at hx
      · subst x
        exact hd
      · exact hmodels.initialized x hx
    · rw [StaticScope.getElem?_insert] at hx
      split at hx
      · subst x
        exact .inl hd
      · exact hmodels.uninitialized x hx u hu ht

/-- A reference that is resolved to a variable is no keyword. -/
theorem World.Runs.isName_of_targets {w : World} {setting : Setting} {handed : List Value}
    (hw : w.Runs setting handed) {spot : Spot} {name : Token} {value : Option Expr}
    (hwalked : Walked w.programs ⟨spot, .statement (.varDecl name value)⟩) {u : Visit}
    (hu : Visit.Leads ⟨spot, .statement (.varDecl name value)⟩ u) {level : Nat}
    (ht : u.Targets level name.lexeme) : u.node.isName = true := by
  obtain ⟨id, token, distance, hr, hname, -, -⟩ := ht
  unfold Visit.reference? at hr
  split at hr
  · rfl
  · rfl
  · cases hr
    exact absurd hname (hw.prepared.keywords spot name value _ id token hwalked (hwalked.leads hu))
  · cases hr

/-- While the initializer of a variable is resolved, everything in it that is resolved to
the variable is too early. -/
theorem World.Mirrors.initializer {w : World} {setting : Setting} {handed : List Value}
    {spot : Spot} {scope : ScopeRef} {name : Token} {value : Expr}
    (hw : w.Runs setting handed)
    (hwalked : Walked w.programs ⟨spot, .statement (.varDecl name (some value))⟩)
    (h : w.Mirrors ⟨spot, .statement (.varDecl name (some value))⟩ scope spot.scopes)
    (hi : value.isInline = false) :
    w.Mirrors ⟨spot.declare name.lexeme false, .expression value⟩ scope
      (spot.declare name.lexeme false).scopes := by
  have hchild : Visit.mk (spot.declare name.lexeme false) (.expression value) ∈
      (Visit.mk spot (.statement (.varDecl name (some value)))).children :=
    List.mem_singleton.2 rfl
  unfold Spot.declare at hchild ⊢
  cases hst : spot.scopes with
  | nil =>
    rw [hst] at h
    exact h
  | cons names outer =>
    rw [hst] at h hchild
    obtain ⟨hmodels, enclosing, he, houter⟩ := h
    refine ⟨⟨fun x hx => ?_, fun x hx u hu ht => ?_⟩, enclosing, he, houter.leads (.single hchild)⟩
    · rw [StaticScope.getElem?_insert] at hx
      split at hx
      · cases hx
      · exact hmodels.initialized x hx
    · rw [StaticScope.getElem?_insert] at hx
      split at hx
      · subst x
        refine .inr ⟨spot, name, value, hwalked, by simp [hst], hi, ?_, ?_, ?_⟩
        · unfold Spot.declare
          rw [hst]
          exact hu
        · rw [hst]
          exact ht
        · exact hw.isName_of_targets hwalked (.head hchild hu) ht
      · exact hmodels.uninitialized x hx u (.head hchild hu) ht

/-- A visit that leads to nothing. -/
def Visit.idle : Visit :=
  { spot := .top, node := .statements [] }

theorem Visit.not_targets_of_idle {u : Visit} (h : Visit.idle.Leads u) {level : Nat}
    {name : String} : ¬u.Targets level name := by
  rintro ⟨id, token, distance, hr, -⟩
  rcases Relation.ReflTransGen.cases_head h with rfl | ⟨c, hc, -⟩
  · cases hr
  · cases hc

/-- The static scopes may also hold names that are not initialized, as long as no
reference is asked for. -/
theorem World.Mirrors.idle {w : World} {v : Visit} {scope : ScopeRef}
    {statics : List StaticScope} (h : w.Mirrors v scope statics) :
    w.Mirrors .idle scope statics := by
  induction statics generalizing scope with
  | nil => exact h
  | cons names outer ih =>
    obtain ⟨hmodels, enclosing, he, houter⟩ := h
    exact ⟨⟨hmodels.initialized, fun x _ u hu ht => absurd ht (Visit.not_targets_of_idle hu)⟩,
      enclosing, he, ih houter⟩

theorem World.Mirrors.idle_declare {w : World} {v : Visit} {scope : ScopeRef}
    {statics : List StaticScope} (h : w.Mirrors v scope statics) (name : String) :
    w.Mirrors .idle scope (StaticScope.declare statics name false) := by
  replace h := h.idle
  cases statics with
  | nil => exact h
  | cons names outer =>
    obtain ⟨hmodels, rest⟩ := h
    refine ⟨⟨fun x hx => ?_, fun x _ u hu ht => absurd ht (Visit.not_targets_of_idle hu)⟩, rest⟩
    rw [StaticScope.getElem?_insert] at hx
    split at hx
    · cases hx
    · exact hmodels.initialized x hx

/-- While an initializer is evaluated, its variable is not defined unless it was known
before. -/
theorem World.Awaits.initializing {w : World} {frame : Frame} (h : w.Awaits frame.pending)
    (hlt : frame.scope < w.scopes.size) (hb : w.Bounds frame.scope frame.spot.scopes)
    (name : String) : w.Awaits (frame.initializing name).pending := by
  unfold Frame.initializing
  cases hst : frame.spot.scopes with
  | nil => exact h
  | cons names outer =>
    rw [hst] at hb
    refine List.forall_mem_cons.2 ⟨⟨hlt, fun hk hd => ?_⟩, h⟩
    have hmem : name ∈ names := hb names rfl name hd
    rw [← Std.TreeMap.contains_iff_mem] at hmem
    rw [hmem] at hk
    cases hk

/-! ## Branches that are left out -/

/-- Branches and loop bodies declare nothing in strict sessions. -/
theorem World.Runs.after_eq {w : World} {setting : Setting} {handed : List Value}
    (hw : w.Runs setting handed) {spot : Spot} {s : Stmt}
    (hwalked : Walked w.programs ⟨spot, .statement s⟩) (hv : s.declaresValue = false)
    (hf : w.Strict → s.declaresFunction = false) (hs : w.Strict) :
    (spot.after s).scopes = spot.scopes :=
  s.quiet spot
    (fun u hu => ⟨hw.prepared.shaped u (hwalked.leads hu), hs.braced u (hwalked.leads hu)⟩)
    hv (hf hs)

/-- The world in which the names of a static scope are defined. -/
def World.settle (w : World) (scope : ScopeRef) (statics : List StaticScope) : World :=
  w.mark scope fun x => ∃ names ∈ statics.head?, names[x]? = some true

section

variable {w : World} {v : Visit} {scope : ScopeRef} {statics after : List StaticScope}

theorem World.Sound.settle (hw : w.Sound) (hm : w.Mirrors v scope statics)
    (hq : w.Strict → after = statics) : (w.settle scope after).Sound := by
  refine hw.mark (hm.lt_size hw) ?_
  rintro hs x ⟨names, hn, hx⟩
  rw [hq hs] at hn
  exact hw.declared hs scope x (hm.defines names hn x hx)

theorem World.settle_defines : Defines (w.settle scope after) scope after :=
  fun names hn _ hx => .inr ⟨rfl, names, hn, hx⟩

theorem World.settle_adds : Adds w scope after (w.settle scope after) := by
  rintro names hn x (hx | ⟨-, names', hn', hx⟩)
  · exact .inl hx
  · cases hn.symm.trans hn'
    exact .inr (Std.TreeMap.mem_iff_isSome_getElem?.2 (by rw [hx]; rfl))

end

/-- A statement of which branches may have been left out leaves its names behind. -/
theorem Keeps.settle {w : World} {frame : Frame} {s : Stmt} {step : Watched Flow}
    (hm : w.Mirrors ⟨frame.spot, .statement s⟩ frame.scope frame.spot.scopes)
    (hq : w.Strict → (frame.spot.after s).scopes = frame.spot.scopes)
    (h : Keeps [frame.scope] w step fun flow w' =>
      flow.Known w' ∧ Adds w frame.scope (frame.spot.after s).scopes w') :
    Keeps [frame.scope] w step (Leaves w frame s) := by
  unfold Keeps at h ⊢
  generalize step w.journal w.machine = result at h
  rcases result with ⟨⟨flow, machine⟩ | ⟨failure, machine⟩ | _, journal⟩
  · obtain ⟨w', hp, rfl, rfl, hg, hs, hknown, hadds⟩ := h
    have hsettle : w'.Grows [frame.scope] (w'.settle frame.scope (frame.spot.after s).scopes) :=
      w'.grows_mark _ (by simp)
    refine ⟨w'.settle frame.scope (frame.spot.after s).scopes, hp, rfl, rfl, hg.trans hsettle,
      hs.settle (hm.mono hg) fun hstrict => hq (hstrict.anti hg), ?_⟩
    exact ⟨hknown.mono hsettle, hadds.trans World.settle_adds, fun _ => World.settle_defines⟩
  · exact h
  · exact h

end TreeScript
