import TreeScript.Proofs.Tracking.Contents
import TreeScript.Proofs.Tracking.Regimes

/-!
# Scopes keep their links and their names

* `Stmt.declaredNames` — the names that a statement declares in the scope at hand
* `Machine.Rooted` — links lead to older scopes and end at the globals, and all values carry
  scopes that exist
* `Scopes.Framed` — scopes keep their links and, apart from the allowed ones, their names
* `framing` — the regime that keeps both, seen from scopes that exist at the beginning
* `ruled_framing` — the primitive steps keep it
-/

namespace TreeScript

/-! ## Declared names -/

/-- The names that a statement declares in the scope at hand: those of variables, functions
and classes that stand neither in a block nor in the body of a function. -/
def Stmt.declaredNames : Stmt → List String
  | .varDecl name _ | .classDecl name _ => [name.lexeme]
  | .function declaration => [declaration.displayName]
  | .conditional _ whenTrue none => whenTrue.declaredNames
  | .conditional _ whenTrue (some whenFalse) =>
    whenTrue.declaredNames ++ whenFalse.declaredNames
  | .loop _ body => body.declaredNames
  | .expression _ | .print _ | .block _ | .leave _ | .giveBack .. => []

/-- The names that a node declares in the scope at hand. -/
def Node.declaredNames : Node → List String
  | .expression _ | .function _ => []
  | .statement s => s.declaredNames
  | .statements ss => ss.flatMap Stmt.declaredNames

theorem Stmt.mem_declaredNames_of_ownName? {s : Stmt} {name : String}
    (h : s.ownName? = some name) : name ∈ s.declaredNames := by
  cases s <;> cases h <;> exact List.mem_singleton.2 rfl

/-- A part that is executed in the same scope declares no other names. -/
theorem Visit.declaredNames_child {spot : Spot} {node : Node} {c : Visit}
    (hn : node.opensScope = false) (hc : c ∈ (Visit.mk spot node).children) :
    c.node.declaredNames ⊆ node.declaredNames := by
  cases node with
  | expression e =>
    obtain ⟨p, hp, rfl⟩ := List.mem_map.1 hc
    have hnone : p.declaredNames = [] := by
      fun_cases Expr.parts e <;>
        simp only [Expr.parts, List.mem_cons, List.mem_map, List.not_mem_nil, or_false] at hp
      case case10 callee paren arguments =>
        rcases hp with rfl | ⟨_, -, rfl⟩ <;> rfl
      all_goals rcases hp with rfl | rfl | rfl <;> rfl
    exact hnone ▸ List.nil_subset _
  | statement s =>
    change c ∈ s.visits spot at hc
    fun_cases Stmt.visits spot s <;>
      simp only [Stmt.visits, List.mem_cons, List.not_mem_nil, or_false] at hc
    case case8 | case13 => cases hn
    all_goals
      rcases hc with rfl | rfl | rfl <;> simp [Node.declaredNames, Stmt.declaredNames]
  | statements ss =>
    cases ss with
    | nil => cases hc
    | cons first rest =>
      simp only [Visit.children, List.mem_cons, List.not_mem_nil, or_false] at hc
      rcases hc with rfl | rfl <;> simp [Node.declaredNames]
  | function d => cases hn

/-! ## Rooted machines -/

/-- The scope that a value carries exists. -/
def Value.Housed (size : Nat) : Value → Prop
  | .function closure => closure.scope < size
  | .classObject cls | .object _ cls => cls.scope < size
  | _ => True

theorem Value.Housed.mono {value : Value} {size size' : Nat} (h : value.Housed size)
    (hle : size ≤ size') : value.Housed size' := by
  cases value with
  | function _ | classObject _ | object _ _ => exact Nat.lt_of_lt_of_le h hle
  | _ => trivial

theorem Value.housed_of_isPlain {value : Value} {size : Nat} (h : value.isPlain = true) :
    value.Housed size := by
  cases value with
  | function _ | classObject _ | object _ _ => cases h
  | _ => trivial

/-- Every scope but the globals links to an older one. -/
structure Scopes.Rooted (scopes : Scopes) : Prop where
  globals : scopes.enclosing? globalScope = none
  inhabited : globalScope < scopes.size
  links : ∀ s, s < scopes.size → s ≠ globalScope →
    ∃ outer, scopes.enclosing? s = some outer ∧ outer < s

namespace Scopes.Rooted

variable {scopes : Scopes}

theorem create (h : scopes.Rooted) {outer : ScopeRef} (ho : outer < scopes.size) :
    (scopes.create (some outer)).2.Rooted where
  globals := by
    rw [enclosing?_create_old _ h.inhabited]
    exact h.globals
  inhabited := Nat.lt_trans h.inhabited (lt_size_create _)
  links s hs hne := by
    rw [size_create] at hs
    rcases Nat.lt_succ_iff_lt_or_eq.1 hs with hs | rfl
    · rw [enclosing?_create_old _ hs]
      exact h.links s hs hne
    · exact ⟨outer, enclosing?_create_new _, ho⟩

theorem define (h : scopes.Rooted) (scope : ScopeRef) (name : String)
    (value : Option Value) : (scopes.define scope name value).Rooted where
  globals := by
    rw [enclosing?_define]
    exact h.globals
  inhabited := by
    rw [size_define]
    exact h.inhabited
  links s hs hne := by
    rw [size_define] at hs
    rw [enclosing?_define]
    exact h.links s hs hne

/-- Every chain of links ends at the globals. -/
theorem exists_links (h : scopes.Rooted) (s : ScopeRef) (hs : s < scopes.size) :
    ∃ count, scopes.Links s count := by
  induction s using Nat.strongRecOn with
  | ind s ih =>
    by_cases hg : s = globalScope
    · subst hg
      exact ⟨0, .here h.globals⟩
    · obtain ⟨outer, hlink, hlt⟩ := h.links s hs hg
      obtain ⟨count, hcount⟩ := ih outer hlt (Nat.lt_trans hlt hs)
      exact ⟨count + 1, .link hlink hcount⟩

end Scopes.Rooted

/-- Links lead to older scopes and end at the globals, and all values carry scopes that
exist, those that were handed to the host included. -/
structure Machine.Rooted (handed : List Value) (m : Machine) : Prop where
  scopes : m.scopes.Rooted
  every : m.Every (Value.Housed m.scopes.size)
  handed : ∀ value ∈ handed, value.Housed m.scopes.size

namespace Machine.Rooted

variable {handed : List Value} {m : Machine}

theorem create (h : m.Rooted handed) {outer : ScopeRef} (ho : outer < m.scopes.size) :
    { m with scopes := (m.scopes.create (some outer)).2 }.Rooted handed where
  scopes := h.scopes.create ho
  every := (h.every.imp fun _ hv => hv.mono (Nat.le_of_lt (Scopes.lt_size_create _))).create _
  handed value hv := (h.handed value hv).mono (Nat.le_of_lt (Scopes.lt_size_create _))

theorem define (h : m.Rooted handed) (scope : ScopeRef) (name : String)
    {value : Option Value} (hv : ∀ v ∈ value, v.Housed m.scopes.size) :
    { m with scopes := m.scopes.define scope name value }.Rooted handed where
  scopes := h.scopes.define scope name value
  every := by
    show Machine.Every _ (Value.Housed (m.scopes.define scope name value).size)
    rw [Scopes.size_define]
    exact h.every.define scope name hv
  handed v hm := by
    show v.Housed (m.scopes.define scope name value).size
    rw [Scopes.size_define]
    exact h.handed v hm

end Machine.Rooted

/-! ## Scopes afterwards -/

/-- Scopes keep their links.  They keep all their names, and get no other names than the
allowed ones.  The values of other names are left as they are, or are replaced by values. -/
structure Scopes.Framed (allowed : ScopeRef → String → Prop) (before after : Scopes) :
    Prop where
  size : before.size ≤ after.size
  enclosing : ∀ s, s < before.size → after.enclosing? s = before.enclosing? s
  kept : ∀ s name, before.Declares s name → after.Declares s name
  declared : ∀ s name, s < before.size → after.Declares s name →
    before.Declares s name ∨ allowed s name
  values : ∀ s name, s < before.size → ¬allowed s name →
    after.binding? s name = before.binding? s name ∨
      ∃ value, after.binding? s name = some (some value)

namespace Scopes.Framed

variable {allowed : ScopeRef → String → Prop} {base scopes : Scopes}

theorem refl (allowed : ScopeRef → String → Prop) (scopes : Scopes) :
    Framed allowed scopes scopes where
  size := Nat.le_refl _
  enclosing _ _ := rfl
  kept _ _ hd := hd
  declared _ _ _ hd := .inl hd
  values _ _ _ _ := .inl rfl

theorem create (h : Framed allowed base scopes) (outer : ScopeRef) :
    Framed allowed base (scopes.create (some outer)).2 where
  size := Nat.le_trans h.size (Nat.le_of_lt (lt_size_create _))
  enclosing s hs := by
    rw [enclosing?_create_old _ (Nat.lt_of_lt_of_le hs h.size)]
    exact h.enclosing s hs
  kept s name hd := by
    rw [Declares, binding?_create]
    exact h.kept s name hd
  declared s name hs hd := by
    rw [Declares, binding?_create] at hd
    exact h.declared s name hs hd
  values s name hs hn := by
    rw [binding?_create]
    exact h.values s name hs hn

/-- A name is bound that is allowed, or one that is declared, to a value. -/
theorem define (h : Framed allowed base scopes) {scope : ScopeRef} {name : String}
    {value : Option Value} (hs : scope < scopes.size)
    (hn : scope < base.size → allowed scope name ∨
      scopes.Declares scope name ∧ value.isSome = true) :
    Framed allowed base (scopes.define scope name value) where
  size := by
    rw [size_define]
    exact h.size
  enclosing s hlt := by
    rw [enclosing?_define]
    exact h.enclosing s hlt
  kept s x hd := by
    rw [Declares, binding?_define hs]
    split
    · rfl
    · exact h.kept s x hd
  declared s x hlt hd := by
    rw [Declares, binding?_define hs] at hd
    split at hd
    · rename_i he
      obtain ⟨rfl, rfl⟩ := he
      rcases hn hlt with ha | ⟨hd', -⟩
      · exact .inr ha
      · exact h.declared scope name hlt hd'
    · exact h.declared s x hlt hd
  values s x hlt hx := by
    rw [binding?_define hs]
    split
    · rename_i he
      obtain ⟨rfl, rfl⟩ := he
      rcases hn hlt with ha | ⟨-, hv⟩
      · exact absurd ha hx
      · obtain ⟨v, rfl⟩ := Option.isSome_iff_exists.1 hv
        exact .inr ⟨v, rfl⟩
    · exact h.values s x hlt hx

end Scopes.Framed

/-! ## The regime -/

/-- The machines at which nodes were seen are rooted, in scopes that exist. -/
def Record.Rooted (handed : List Value) (r : Record) : Prop :=
  ∀ situation node m, .node situation node m ∈ r.sights →
    m.Rooted handed ∧ situation.scope < m.scopes.size

theorem Record.Rooted.see {handed : List Value} {r : Record} (h : r.Rooted handed)
    {sight : Sight} (hs : ∀ situation node m, sight = .node situation node m →
      m.Rooted handed ∧ situation.scope < m.scopes.size) : (r.see sight).Rooted handed := by
  intro situation node m hm
  rcases List.mem_cons.1 hm with he | hm
  · exact hs situation node m he.symm
  · exact h situation node m hm

/-- Machines are rooted, and the scopes that exist at the beginning keep their links and,
apart from the allowed ones, their names. -/
def framing (handed : List Value) (allowed : ScopeRef → String → Prop) (base : Scopes) :
    Regime where
  upkeep :=
    { Sound := fun r m =>
        m.Rooted handed ∧ base.Framed allowed m.scopes ∧ r.Rooted handed
      Grows := fun _ m _ m' => m.scopes.size ≤ m'.scopes.size
      Told := fun r => r.Rooted handed }
  Holds := fun _ m value => value.Housed m.scopes.size
  Binds := fun _ m scope name =>
    scope < m.scopes.size ∧ (scope < base.size → allowed scope name)
  Admits := fun _ m situation node =>
    situation.scope < m.scopes.size ∧
      (situation.scope < base.size → ∀ name ∈ node.declaredNames, allowed situation.scope name)

namespace Framing

variable {handed : List Value} {allowed : ScopeRef → String → Prop} {base : Scopes}
  {r : Record} {m : Machine}

theorem passes_create (hs : (framing handed allowed base).upkeep.Sound r m)
    {outer : ScopeRef} (ho : outer < m.scopes.size) :
    (framing handed allowed base).Passes r m r
      { m with scopes := (m.scopes.create (some outer)).2 } :=
  ⟨⟨hs.1.create ho, hs.2.1.create outer, hs.2.2⟩, Nat.le_of_lt (Scopes.lt_size_create _)⟩

theorem passes_define (hs : (framing handed allowed base).upkeep.Sound r m)
    {scope : ScopeRef} {name : String} {value : Option Value} (hlt : scope < m.scopes.size)
    (hn : scope < base.size → allowed scope name ∨
      m.scopes.Declares scope name ∧ value.isSome = true)
    (hv : ∀ v ∈ value, v.Housed m.scopes.size) :
    (framing handed allowed base).Passes r m r
      { m with scopes := m.scopes.define scope name value } :=
  ⟨⟨hs.1.define scope name hv, hs.2.1.define hlt hn, hs.2.2⟩,
    Nat.le_of_eq Scopes.size_define.symm⟩

/-- A new scope is not one of those that exist at the beginning. -/
theorem not_lt_base (hs : (framing handed allowed base).upkeep.Sound r m) :
    ¬m.scopes.size < base.size :=
  Nat.not_lt.2 hs.2.1.size

end Framing

open Framing in
/-- The primitive steps keep machines rooted and scopes framed. -/
theorem ruled_framing {setting : Setting} {handed : List Value}
    (honest : ∀ native ∈ setting.natives, native.Honest handed)
    (allowed : ScopeRef → String → Prop) (base : Scopes) :
    (framing handed allowed base).Ruled setting handed where
  lawful := ⟨fun h => h.2.2, fun _ _ => Nat.le_refl _, Nat.le_trans⟩
  honest := honest
  holds_mono hg h := h.mono hg
  binds_mono hg h := ⟨Nat.lt_of_lt_of_le h.1 hg, h.2⟩
  admits_mono hg h := ⟨Nat.lt_of_lt_of_le h.1 hg, h.2⟩
  plain := Value.housed_of_isPlain
  handed hs hv := hs.1.handed _ hv
  bindings hs hb := hs.1.every.bindings _ _ _ hb
  fields hs hf hx := hs.1.every.fields _ _ _ _ hf hx
  child ha hn hc := ⟨ha.1, fun hlt name hm => ha.2 hlt name (Visit.declaredNames_child hn hc hm)⟩
  binds ha hn := ⟨ha.1, fun hlt => ha.2 hlt _ (Stmt.mem_declaredNames_of_ownName? hn)⟩
  enter hs ha := by
    refine ⟨⟨hs.1, hs.2.1, hs.2.2.see ?_⟩, Nat.le_refl _⟩
    rintro _ _ _ ⟨⟩
    exact ⟨hs.1, ha.1⟩
  print situation text sink hs :=
    ⟨⟨⟨hs.1.scopes, hs.1.every.sink sink, hs.1.handed⟩, hs.2.1, hs.2.2.see nofun⟩,
      Nat.le_refl _⟩
  define hs hb hv := passes_define hs hb.1 (fun hlt => .inl (hb.2 hlt)) hv
  assign hs _ hd hv :=
    passes_define hs (Scopes.lt_size_of_declares hd) (fun _ => .inr ⟨hd, rfl⟩)
      fun _ he => Option.some.inj he ▸ hv
  block hs ha :=
    ⟨passes_create hs ha.1, Scopes.lt_size_create _, fun hlt => absurd hlt (not_lt_base hs)⟩
  call _ hs hc :=
    ⟨passes_create hs hc, fun _ _ => ⟨Scopes.lt_size_create _, fun hlt =>
      absurd hlt (not_lt_base hs)⟩, Scopes.lt_size_create _, fun hlt =>
      absurd hlt (not_lt_base hs)⟩
  closure hs ha :=
    ⟨⟨⟨⟨hs.1.scopes, hs.1.every.identities _, hs.1.handed⟩, hs.2⟩, Nat.le_refl _⟩, ha.1⟩
  classObject hs ha _ hscope _ := by
    refine ⟨⟨⟨⟨hs.1.scopes, hs.1.every.identities _, hs.1.handed⟩, hs.2⟩, Nat.le_refl _⟩, ?_⟩
    exact Nat.lt_of_le_of_lt (Nat.le_of_eq hscope) ha.1
  newObject hs hk :=
    ⟨⟨⟨⟨hs.1.scopes, hs.1.every.newObject, hs.1.handed⟩, hs.2⟩, Nat.le_refl _⟩, hk⟩
  setField hs hv :=
    ⟨⟨⟨hs.1.scopes, hs.1.every.setField _ _ hv, hs.1.handed⟩, hs.2⟩, Nat.le_refl _⟩
  method {r m address ofClass name declaration} hs ho _ := by
    obtain ⟨hcreated, hg⟩ := passes_create hs ho
    have hnew : m.scopes.size < (m.scopes.create (some ofClass.scope)).2.size :=
      Scopes.lt_size_create _
    have hobject : ∀ v ∈ some (Value.object address ofClass),
        v.Housed (m.scopes.create (some ofClass.scope)).2.size := by
      rintro _ ⟨⟩
      exact Nat.lt_trans ho hnew
    have hfresh : m.scopes.size < base.size → allowed m.scopes.size "this" ∨
        (m.scopes.create (some ofClass.scope)).2.Declares m.scopes.size "this" ∧
          (some (Value.object address ofClass)).isSome = true :=
      fun hlt => absurd hlt (not_lt_base hs)
    obtain ⟨hdefined, hg'⟩ := passes_define hcreated hnew hfresh hobject
    refine ⟨⟨⟨⟨hdefined.1.scopes, hdefined.1.every.identities _, hdefined.1.handed⟩,
      hdefined.2.1, hs.2.2.see nofun⟩, Nat.le_trans hg hg'⟩, ?_⟩
    exact Nat.lt_of_lt_of_le hnew hg'

end TreeScript
