import TreeScript.Machine
import Mathlib.Tactic.Common

/-!
# Chains of scopes

* `Scopes.Declares` — a scope holds a name
* `Scopes.Links` — how many links lead from a scope to the globals
* what creating a scope and defining a name do to them
-/

namespace TreeScript

namespace Scopes

variable {scopes : Scopes} {scope s : ScopeRef} {name x : String} {value : Option Value}

/-- A scope holds a name, with a value or not. -/
def Declares (scopes : Scopes) (scope : ScopeRef) (name : String) : Prop :=
  (scopes.binding? scope name).isSome = true

/-- So many links lead from a scope to the globals, which have no enclosing scope. -/
inductive Links (scopes : Scopes) : ScopeRef → Nat → Prop
  | here : scopes.enclosing? globalScope = none → Links scopes globalScope 0
  | link {scope outer : ScopeRef} {count : Nat} :
      scopes.enclosing? scope = some outer → Links scopes outer count →
      Links scopes scope (count + 1)

/-! ## Defining a name -/

theorem size_define : (scopes.define scope name value).size = scopes.size :=
  Array.size_modify

theorem enclosing?_define :
    (scopes.define scope name value).enclosing? s = scopes.enclosing? s := by
  unfold enclosing? define
  rw [Array.getElem?_modify]
  split
  · cases scopes[s]? <;> rfl
  · rfl

theorem binding?_define (h : scope < scopes.size) :
    (scopes.define scope name value).binding? s x =
      if scope = s ∧ name = x then some value else scopes.binding? s x := by
  unfold binding? define
  rw [Array.getElem?_modify]
  by_cases hs : scope = s
  · subst hs
    rw [if_pos rfl, Array.getElem?_eq_getElem h]
    by_cases hx : name = x
    · subst hx
      simp
    · simp [hx, Std.TreeMap.getElem?_insert]
  · simp [hs]

/-- In a scope that does not exist nothing is defined. -/
theorem binding?_define_missing (h : ¬scope < scopes.size) :
    (scopes.define scope name value).binding? s x = scopes.binding? s x := by
  unfold binding? define
  rw [Array.getElem?_modify]
  split
  · rename_i hs
    subst hs
    rw [Array.getElem?_eq_none (Nat.le_of_not_lt h)]
    rfl
  · rfl

/-! ## Creating a scope -/

theorem size_create (enclosing : Option ScopeRef) :
    (scopes.create enclosing).2.size = scopes.size + 1 :=
  Array.size_push ..

theorem lt_size_create (enclosing : Option ScopeRef) :
    scopes.size < (scopes.create enclosing).2.size :=
  Nat.lt_of_lt_of_eq (Nat.lt_succ_self _) (size_create enclosing).symm

theorem enclosing?_create_old (enclosing : Option ScopeRef) (h : s < scopes.size) :
    (scopes.create enclosing).2.enclosing? s = scopes.enclosing? s := by
  unfold enclosing? create
  rw [Array.getElem?_push_lt h, Array.getElem?_eq_getElem h]

theorem enclosing?_create_new (enclosing : Option ScopeRef) :
    (scopes.create enclosing).2.enclosing? scopes.size = enclosing := by
  simp [enclosing?, create]

theorem enclosing?_create (enclosing : Option ScopeRef) :
    (scopes.create enclosing).2.enclosing? s =
      if s = scopes.size then enclosing else scopes.enclosing? s := by
  unfold enclosing? create
  rw [Array.getElem?_push]
  split <;> rfl

theorem binding?_create (enclosing : Option ScopeRef) :
    (scopes.create enclosing).2.binding? s x = scopes.binding? s x := by
  unfold binding? create
  rcases Nat.lt_trichotomy s scopes.size with h | h | h
  · rw [Array.getElem?_push_lt h, Array.getElem?_eq_getElem h]
  · subst h
    simp
  · rw [Array.getElem?_eq_none (by simp; omega), Array.getElem?_eq_none (by omega)]

/-! ## Going up -/

theorem hop_succ (distance left : Nat) {outer : ScopeRef}
    (h : scopes.enclosing? scope = some outer) :
    scopes.hop distance (left + 1) scope = scopes.hop distance left outer := by
  rw [hop, h]

theorem lt_size_of_enclosing? {outer : ScopeRef} (h : scopes.enclosing? scope = some outer) :
    scope < scopes.size := by
  by_contra hn
  rw [enclosing?, Array.getElem?_eq_none (Nat.le_of_not_lt hn)] at h
  cases h

end Scopes

end TreeScript
