import TreeScript.Proofs.Scoping.Chains

/-!
# The values that a machine holds

* `Machine.Every` — all values of variables and fields are of one kind
* `Machine.Every.define`, `Machine.Every.setField`, … — the steps of a machine keep it
-/

namespace TreeScript

/-- All values of variables and fields are of one kind. -/
structure Machine.Every (m : Machine) (P : Value → Prop) : Prop where
  bindings : ∀ scope name value, m.scopes.binding? scope name = some (some value) → P value
  fields : ∀ (address : InstanceRef) (fields : Fields) (name : String) value,
    m.fields[address]? = some fields → fields[name]? = some value → P value

namespace Machine.Every

variable {m : Machine} {P Q : Value → Prop}

/-- A machine without names and instances holds no value. -/
theorem bare (sink : Sink) (P : Value → Prop) :
    ({ scopes := (Scopes.create #[] none).2, fields := #[], identities := 0, sink } :
      Machine).Every P where
  bindings scope name value hb := by
    replace hb : (Scopes.create #[] none).2.binding? scope name = some (some value) := hb
    rw [Scopes.binding?_create] at hb
    cases hb
  fields := nofun

theorem imp (h : m.Every P) (hpq : ∀ value, P value → Q value) : m.Every Q where
  bindings scope name value hb := hpq value (h.bindings scope name value hb)
  fields address fields name value hf hx := hpq value (h.fields address fields name value hf hx)

theorem identities (h : m.Every P) (count : Nat) : { m with identities := count }.Every P :=
  ⟨h.bindings, h.fields⟩

theorem sink (h : m.Every P) (sink : Sink) : { m with sink }.Every P :=
  ⟨h.bindings, h.fields⟩

theorem create (h : m.Every P) (enclosing : Option ScopeRef) :
    { m with scopes := (m.scopes.create enclosing).2 }.Every P where
  bindings scope name value hb := by
    rw [Scopes.binding?_create] at hb
    exact h.bindings scope name value hb
  fields := h.fields

theorem define (h : m.Every P) (scope : ScopeRef) (name : String) {value : Option Value}
    (hv : ∀ v ∈ value, P v) : { m with scopes := m.scopes.define scope name value }.Every P where
  bindings s x v hb := by
    by_cases hs : scope < m.scopes.size
    · rw [Scopes.binding?_define hs] at hb
      split at hb
      · exact hv v (Option.some.inj hb)
      · exact h.bindings s x v hb
    · rw [Scopes.binding?_define_missing hs] at hb
      exact h.bindings s x v hb
  fields := h.fields

theorem newObject (h : m.Every P) : { m with fields := m.fields.push ∅ }.Every P where
  bindings := h.bindings
  fields address fields name value hf hx := by
    rw [Array.getElem?_push] at hf
    split at hf
    · cases hf
      simp at hx
    · exact h.fields address fields name value hf hx

theorem setField (h : m.Every P) (address : InstanceRef) (name : String) {value : Value}
    (hv : P value) :
    { m with
      fields := m.fields.modify address fun fields => fields.insert name value }.Every P where
  bindings := h.bindings
  fields a fields x v hf hx := by
    rw [Array.getElem?_modify] at hf
    split at hf
    · obtain ⟨old, hold, rfl⟩ := Option.map_eq_some_iff.1 hf
      rw [Std.TreeMap.getElem?_insert] at hx
      split at hx
      · cases hx
        exact hv
      · exact h.fields a old x v hold hx
    · exact h.fields a fields x v hf hx

end Machine.Every

end TreeScript
