import TreeScript.Proofs.Running.Composition
import Mathlib.Logic.Relation

/-!
# Machines along a run

* `Machine.Step` — what a primitive step can do to a machine
* `Machine.Reaches` — steps in a row
* `Run.Moves` — a step that leaves every machine at one that it reaches, however it ends
* `Run.Moves.compositional` — evaluation goes on in such steps
* `Machine.Reaches.printed` — what was printed stays, and more may follow
-/

namespace TreeScript

/-! ## Steps of machines -/

/-- What a primitive step can do to a machine. -/
inductive Machine.Step : Machine → Machine → Prop
  | newScope (m : Machine) (enclosing : Option ScopeRef) :
      Machine.Step m { m with scopes := (m.scopes.create enclosing).2 }
  | define (m : Machine) (scope : ScopeRef) (name : String) (value : Option Value) :
      Machine.Step m { m with scopes := m.scopes.define scope name value }
  | newIdentity (m : Machine) : Machine.Step m { m with identities := m.identities + 1 }
  | newObject (m : Machine) : Machine.Step m { m with fields := m.fields.push ∅ }
  | setField (m : Machine) (address : InstanceRef) (name : String) (value : Value) :
      Machine.Step m { m with
        fields := m.fields.modify address fun fields => fields.insert name value }
  | print (m : Machine) (text : String) : Machine.Step m { m with sink := (m.sink.write text).1 }

/-- Steps in a row. -/
abbrev Machine.Reaches : Machine → Machine → Prop :=
  Relation.ReflTransGen Machine.Step

theorem Machine.Step.reaches {m m' : Machine} (h : m.Step m') : m.Reaches m' :=
  .single h

/-- The machine that a step hands on, if there is fuel. -/
def Outcome.machine? {α : Type} : Outcome α → Option Machine
  | .done _ machine | .failed _ machine => some machine
  | .outOfFuel => none

/-- A step that leaves every machine at one that it reaches, however the step ends. -/
structure Run.Moves {α : Type} (p : Run α) : Prop where
  reaches : ∀ m, ∀ m' ∈ (p m).machine?, m.Reaches m'

namespace Run.Moves

variable {α β : Type}

/-! ## Sequencing -/

theorem pure (a : α) : Run.Moves (Pure.pure a : Run α) where
  reaches := by
    rintro m _ ⟨⟩
    exact .refl

theorem fail (failure : Failure) : Run.Moves (Run.fail failure : Run α) where
  reaches := by
    rintro m _ ⟨⟩
    exact .refl

theorem fault (token : Token) (cause : RunFault) : Run.Moves (Run.fault token cause : Run α) :=
  fail _

theorem stuck : Run.Moves (Run.stuck : Run α) where
  reaches := nofun

theorem bind {p : Run α} {f : α → Run β} (h : p.Moves) (hn : ∀ a, (f a).Moves) :
    Run.Moves (p >>= f) where
  reaches := by
    intro m m' hm
    replace hm : m' ∈ (Run.bind p f m).machine? := hm
    have hp := h.reaches m
    unfold Run.bind at hm
    generalize p m = r at hm hp
    cases r with
    | done a m₁ => exact (hp m₁ rfl).trans ((hn a).reaches m₁ m' hm)
    | failed _ _ => exact hp m' hm
    | outOfFuel => cases hm

theorem attempt {p : Run α} (h : p.Moves) : Run.Moves (Run.attempt p) where
  reaches := by
    intro m m' hm
    have hp := h.reaches m
    unfold Run.attempt at hm
    generalize p m = r at hm hp
    cases r with
    | done _ _ => exact hp m' hm
    | failed failure _ => cases failure <;> exact hp m' hm
    | outOfFuel => cases hm

/-! ## Primitive steps -/

theorem newScope (enclosing : ScopeRef) : (Run.newScope enclosing).Moves where
  reaches := by
    rintro m _ ⟨⟩
    exact (Machine.Step.newScope m (some enclosing)).reaches

theorem define (scope : ScopeRef) (name : String) (value : Option Value) :
    (Run.define scope name value).Moves where
  reaches := by
    rintro m _ ⟨⟩
    exact (Machine.Step.define m scope name value).reaches

theorem holder (distance? : Option Nat) (scope : ScopeRef) (name : Token) :
    (Run.holder distance? scope name).Moves where
  reaches := by
    intro m m' hm
    simp only [Run.holder] at hm
    split at hm <;> cases hm <;> exact .refl

theorem readName (distance? : Option Nat) (scope : ScopeRef) (name : Token) :
    (Run.readName distance? scope name).Moves := by
  refine (holder distance? scope name).bind fun found => ⟨fun m m' hm => ?_⟩
  split at hm <;> cases hm <;> exact .refl

theorem newIdentity : Run.newIdentity.Moves where
  reaches := by
    rintro m _ ⟨⟩
    exact (Machine.Step.newIdentity m).reaches

theorem newObject (ofClass : ClassObject) : (Run.newObject ofClass).Moves where
  reaches := by
    rintro m _ ⟨⟩
    exact (Machine.Step.newObject m).reaches

theorem field? (address : InstanceRef) (name : String) : (Run.field? address name).Moves where
  reaches := by
    rintro m _ ⟨⟩
    exact .refl

theorem setField (address : InstanceRef) (name : String) (value : Value) :
    (Run.setField address name value).Moves where
  reaches := by
    rintro m _ ⟨⟩
    exact (Machine.Step.setField m address name value).reaches

theorem print (text : String) : (Run.print text).Moves where
  reaches := by
    rintro ⟨scopes, fields, identities, sink⟩ m' hm
    have hstep := Machine.Step.print ⟨scopes, fields, identities, sink⟩ (text ++ "\n")
    simp only [Run.print] at hm
    split at hm <;> rename_i hw <;> rw [hw] at hstep <;> cases hm <;> exact hstep.reaches

theorem flush : Run.flush.Moves where
  reaches := by
    intro m m' hm
    simp only [Run.flush] at hm
    split at hm <;> cases hm <;> exact .refl

/-- Evaluation goes on in steps of the machine. -/
theorem compositional : Compositional Moves where
  pure := pure
  fault := fault
  stuck := stuck
  bind := bind
  attempt := attempt
  newScope := newScope
  define := define
  holder := holder
  readName := readName
  newIdentity := newIdentity
  newObject := newObject
  field? := field?
  setField := setField
  print := print
  flush := flush

end Run.Moves

/-! ## Output -/

/-- What was printed stays, and more may follow. -/
theorem Machine.Reaches.printed {m m' : Machine} (h : m.Reaches m') :
    ∃ more, m'.sink.printed = m.sink.printed ++ more := by
  induction h with
  | refl => exact ⟨.empty, ByteArray.append_empty.symm⟩
  | @tail m₁ _ _ hs ih =>
    obtain ⟨more, hm⟩ := ih
    cases hs with
    | print text =>
      obtain ⟨written, hw⟩ : ∃ written,
          (m₁.sink.write text).1.printed = m₁.sink.printed ++ written := by
        unfold Sink.write Sink.writeBytes
        split
        · exact ⟨_, rfl⟩
        · split
          · exact ⟨_, rfl⟩
          · exact ⟨_, rfl⟩
      exact ⟨more ++ written, by rw [hw, hm, ByteArray.append_assoc]⟩
    | _ => exact ⟨more, hm⟩

end TreeScript
