import TreeScript.Proofs.Scoping.Primitives
import Mathlib.Data.Set.Basic
import Mathlib.Order.Bounds.Defs

/-!
# Two ways to a name

A name is found by search along the chain, or by counting links.

* `ScopeStep`, `Scopes.Reachable` — how scopes come to be
* `Scopes.up?`, `Scopes.hops` — the scopes along a chain, and how many links lead to
  those that hold a name
* `Scopes.holder_of_isLeast`, `Scopes.holderAt_eq` — what either way finds
* `Scopes.Overwritten` — one slot has a new value, and nothing else changed
* `Scopes.Reachable.access_agrees` — both ways agree, and how each of them fails
-/

namespace TreeScript

/-! ## How scopes come to be -/

/-- A step that makes a scope or writes to one. -/
inductive ScopeStep where
  | create (enclosing : Option ScopeRef)
  | define (scope : ScopeRef) (name : String) (value : Option Value)
  | assign (scope : ScopeRef) (name : Token) (value : Value)
  | assignAt (scope : ScopeRef) (distance : Nat) (name : Token) (value : Value)

namespace ScopeStep

/-- The scope that a step starts from. -/
def scope? : ScopeStep → Option ScopeRef
  | .create enclosing => enclosing
  | .define scope _ _ | .assign scope _ _ | .assignAt scope _ _ _ => some scope

/-- What a step makes of the scopes, if it does not fail. -/
def perform (scopes : Scopes) : ScopeStep → Except Failure Scopes
  | .create enclosing => .ok (scopes.create enclosing).2
  | .define scope name value => .ok (scopes.define scope name value)
  | .assign scope name value => scopes.assign scope name value
  | .assignAt scope distance name value => scopes.assignAt scope distance name value

/-- The scopes after a step.  A step that fails leaves them as they are. -/
def after (scopes : Scopes) (step : ScopeStep) : Scopes :=
  match step.perform scopes with
  | .ok changed => changed
  | .error _ => scopes

end ScopeStep

namespace Scopes

variable {scopes after : Scopes} {scope s outer found : ScopeRef} {name x : String}
  {d k : Nat} {token : Token} {value : Value}

/-- Scopes that come from nothing by steps that start from scopes that exist. -/
inductive Reachable : Scopes → Prop
  | start : Reachable #[]
  | step {scopes : Scopes} (step : ScopeStep) :
      Reachable scopes → (∀ s ∈ step.scope?, s < scopes.size) → Reachable (step.after scopes)

/-- Every link leads to an older scope. -/
def Aged (scopes : Scopes) : Prop :=
  ∀ s outer, scopes.enclosing? s = some outer → outer < s

theorem Aged.create (h : scopes.Aged) {enclosing : Option ScopeRef}
    (he : ∀ s ∈ enclosing, s < scopes.size) : (scopes.create enclosing).2.Aged := by
  intro s outer hlink
  rw [enclosing?_create] at hlink
  split at hlink
  · subst s
    exact he outer hlink
  · exact h s outer hlink

theorem Aged.define (h : scopes.Aged) (scope : ScopeRef) (name : String)
    (value : Option Value) : (scopes.define scope name value).Aged := by
  intro s outer hlink
  rw [enclosing?_define] at hlink
  exact h s outer hlink

/-- Whatever scope is found, the assignment binds the name there. -/
theorem assign_eq_ok (h : scopes.assign scope token value = .ok after) :
    ∃ found, scopes.holder scope token = .ok found ∧
      after = scopes.define found token.lexeme (some value) := by
  unfold assign at h
  cases hf : scopes.holder scope token with
  | error failure => simp [hf, bind, Except.bind] at h
  | ok found => simpa [hf, bind, Except.bind, pure, Except.pure, eq_comm] using h

theorem assignAt_eq_ok (h : scopes.assignAt scope d token value = .ok after) :
    ∃ found, scopes.holderAt scope d token = .ok found ∧
      after = scopes.define found token.lexeme (some value) := by
  unfold assignAt at h
  cases hf : scopes.holderAt scope d token with
  | error failure => simp [hf, bind, Except.bind] at h
  | ok found => simpa [hf, bind, Except.bind, pure, Except.pure, eq_comm] using h

theorem Aged.step (h : scopes.Aged) (step : ScopeStep)
    (hs : ∀ s ∈ step.scope?, s < scopes.size) : (step.after scopes).Aged := by
  unfold ScopeStep.after
  cases hp : step.perform scopes with
  | error failure => exact h
  | ok changed =>
    cases step with
    | create enclosing =>
      cases hp
      exact h.create hs
    | define scope name value =>
      cases hp
      exact h.define scope name value
    | assign scope name value =>
      obtain ⟨found, -, rfl⟩ := assign_eq_ok hp
      exact h.define found _ _
    | assignAt scope distance name value =>
      obtain ⟨found, -, rfl⟩ := assignAt_eq_ok hp
      exact h.define found _ _

theorem Reachable.aged (h : scopes.Reachable) : scopes.Aged := by
  induction h with
  | start =>
    intro s outer hlink
    cases hlink
  | step step _ hs ih => exact ih.step step hs

/-! ## Along the chain -/

/-- The scope so many links up. -/
def up? (scopes : Scopes) : (distance : Nat) → (scope : ScopeRef) → Option ScopeRef
  | 0, scope => some scope
  | distance + 1, scope => (scopes.enclosing? scope).bind (up? scopes distance)

/-- The numbers of links that lead from a scope to one that holds a name. -/
def hops (scopes : Scopes) (scope : ScopeRef) (name : String) : Set Nat :=
  {d | ∃ found, scopes.up? d scope = some found ∧ scopes.Declares found name}

theorem up?_succ (h : scopes.enclosing? scope = some outer) :
    scopes.up? (d + 1) scope = scopes.up? d outer := by
  rw [up?, h]
  rfl

theorem mem_hops_succ (h : scopes.enclosing? scope = some outer) :
    d + 1 ∈ scopes.hops scope name ↔ d ∈ scopes.hops outer name := by
  simp only [hops, Set.mem_ofPred_eq, up?_succ h]

theorem zero_mem_hops : 0 ∈ scopes.hops scope name ↔ scopes.Declares scope name := by
  simp [hops, up?]

/-- With every link a chain gets older. -/
theorem Aged.le_of_up? (h : scopes.Aged) (hu : scopes.up? d scope = some outer) :
    outer + d ≤ scope := by
  induction d generalizing scope with
  | zero =>
    cases hu
    exact Nat.le_refl _
  | succ d ih =>
    obtain ⟨next, hlink, hu⟩ := Option.bind_eq_some_iff.1 hu
    calc outer + (d + 1)
      _ = outer + d + 1 := (Nat.add_assoc ..).symm
      _ ≤ next + 1 := Nat.succ_le_succ (ih hu)
      _ ≤ scope := h scope next hlink

theorem up?_congr (h : ∀ s, after.enclosing? s = scopes.enclosing? s) :
    after.up? d scope = scopes.up? d scope := by
  induction d generalizing scope with
  | zero => rfl
  | succ d ih =>
    simp only [up?, h]
    cases scopes.enclosing? scope with
    | none => rfl
    | some outer => exact ih

/-! ## By search -/

theorem holderWithin_of_missing {count : Nat} (h : ¬scopes.Declares scope name) :
    scopes.holderWithin name (count + 1) scope =
      (scopes.enclosing? scope).bind (scopes.holderWithin name count) :=
  if_neg h

/-- A search that may look at one scope more than it needs finds the nearest holder. -/
theorem holderWithin_of_isLeast {count : Nat} (hd : IsLeast (scopes.hops scope name) d)
    (hc : d < count) : scopes.holderWithin name count scope = scopes.up? d scope := by
  induction count generalizing scope d with
  | zero => cases hc
  | succ count ih =>
    obtain ⟨hmem, hleast⟩ := hd
    by_cases hb : scopes.Declares scope name
    · obtain rfl : d = 0 := Nat.le_zero.1 (hleast (zero_mem_hops.2 hb))
      exact if_pos hb
    · rw [holderWithin_of_missing hb]
      cases d with
      | zero => exact absurd (zero_mem_hops.1 hmem) hb
      | succ d =>
        obtain ⟨found, hup, -⟩ := id hmem
        obtain ⟨outer, hlink, -⟩ := Option.bind_eq_some_iff.1 hup
        rw [hlink, up?_succ hlink, Option.bind_some]
        refine ih ⟨(mem_hops_succ hlink).1 hmem, fun k hk => ?_⟩ (Nat.lt_of_succ_lt_succ hc)
        exact Nat.le_of_succ_le_succ (hleast ((mem_hops_succ hlink).2 hk))

theorem holderWithin_of_hops_empty {count : Nat} (h : scopes.hops scope name = ∅) :
    scopes.holderWithin name count scope = none := by
  induction count generalizing scope with
  | zero => rfl
  | succ count ih =>
    have hnone := Set.eq_empty_iff_forall_notMem.1 h
    rw [holderWithin_of_missing fun hb => hnone 0 (zero_mem_hops.2 hb)]
    cases hlink : scopes.enclosing? scope with
    | none => rfl
    | some outer =>
      refine ih (Set.eq_empty_iff_forall_notMem.2 fun d hd => ?_)
      exact hnone (d + 1) ((mem_hops_succ hlink).2 hd)

/-- Search finds the scope that the fewest links lead to. -/
theorem Aged.holder_of_isLeast (h : scopes.Aged)
    (hd : IsLeast (scopes.hops scope token.lexeme) d) (hf : scopes.up? d scope = some found) :
    scopes.holder scope token = .ok found := by
  have hlt : d < scope + 1 := Nat.lt_succ_of_le (Nat.le_of_add_left_le (h.le_of_up? hf))
  rw [holder, holder?, holderWithin_of_isLeast hd hlt, hf]

theorem holder_of_hops_empty (h : scopes.hops scope token.lexeme = ∅) :
    scopes.holder scope token = .error (.at token (.undefinedVariable token.lexeme)) := by
  rw [holder, holder?, holderWithin_of_hops_empty h]

/-! ## By counting -/

theorem hop_of_up? {distance : Nat} (h : scopes.up? d scope = some outer) :
    scopes.hop distance d scope = .ok outer := by
  induction d generalizing scope with
  | zero =>
    cases h
    rfl
  | succ d ih =>
    obtain ⟨next, hlink, h⟩ := Option.bind_eq_some_iff.1 h
    rw [hop_succ _ _ hlink]
    exact ih h

theorem hop_of_up?_none (distance : Nat) (h : scopes.up? d scope = none) :
    ∃ count, scopes.hop distance d scope = .error (.broken (.chainEnded count distance)) := by
  induction d generalizing scope with
  | zero => cases h
  | succ d ih =>
    cases hlink : scopes.enclosing? scope with
    | none => exact ⟨distance - (d + 1), by rw [hop, hlink]⟩
    | some outer =>
      rw [up?_succ hlink] at h
      rw [hop_succ _ _ hlink]
      exact ih h

theorem holderAt_of_declares (hf : scopes.up? d scope = some found)
    (hd : scopes.Declares found token.lexeme) : scopes.holderAt scope d token = .ok found := by
  simp only [holderAt, ancestor, hop_of_up? hf, bind, Except.bind]
  exact if_pos hd

/-- Where no holder is so many links away, the scopes are broken. -/
theorem holderAt_of_notMem (h : d ∉ scopes.hops scope token.lexeme) :
    ∃ cause, scopes.holderAt scope d token = .error (.broken cause) := by
  simp only [holderAt, ancestor, bind, Except.bind]
  cases hu : scopes.up? d scope with
  | none =>
    obtain ⟨count, hcount⟩ := hop_of_up?_none d hu
    exact ⟨_, by rw [hcount]⟩
  | some found =>
    rw [hop_of_up? hu]
    exact ⟨_, if_neg fun hd => h ⟨found, hu, hd⟩⟩

/-! ## One slot changes -/

/-- One slot has a value, and whatever else there was is as before. -/
structure Overwritten (scopes : Scopes) (found : ScopeRef) (name : String) (value : Value)
    (after : Scopes) : Prop where
  size : after.size = scopes.size
  links : ∀ s, after.enclosing? s = scopes.enclosing? s
  slot : after.binding? found name = some (some value)
  others : ∀ s x, ¬(s = found ∧ x = name) → after.binding? s x = scopes.binding? s x

theorem overwritten_define (h : found < scopes.size) :
    scopes.Overwritten found name value (scopes.define found name (some value)) where
  size := size_define
  links _ := enclosing?_define
  slot := by rw [binding?_define h, if_pos ⟨rfl, rfl⟩]
  others s x hne := by rw [binding?_define h, if_neg fun he => hne ⟨he.1.symm, he.2.symm⟩]

namespace Overwritten

theorem declares_iff (h : scopes.Overwritten found name value after)
    (hd : scopes.Declares found name) : after.Declares s x ↔ scopes.Declares s x := by
  by_cases hs : s = found ∧ x = name
  · obtain ⟨rfl, rfl⟩ := hs
    exact iff_of_true (by rw [Declares, h.slot]; rfl) hd
  · rw [Declares, Declares, h.others s x hs]

theorem hops_eq (h : scopes.Overwritten found name value after)
    (hd : scopes.Declares found name) : after.hops s x = scopes.hops s x := by
  simp only [hops, up?_congr h.links, h.declares_iff hd]

theorem read_eq (h : scopes.Overwritten found token.lexeme value after) :
    after.read found token = .ok value := by
  rw [read, h.slot]

end Overwritten

theorem get_of_holder (h : scopes.holder scope token = .ok found) :
    scopes.get scope token = scopes.read found token := by
  rw [get, h]
  rfl

theorem getAt_of_holderAt (h : scopes.holderAt scope d token = .ok found) :
    scopes.getAt scope d token = scopes.read found token := by
  rw [getAt, h]
  rfl

theorem assign_of_holder (h : scopes.holder scope token = .ok found) :
    scopes.assign scope token value =
      .ok (scopes.define found token.lexeme (some value)) := by
  rw [assign, h]
  rfl

theorem assignAt_of_holderAt (h : scopes.holderAt scope d token = .ok found) :
    scopes.assignAt scope d token value =
      .ok (scopes.define found token.lexeme (some value)) := by
  rw [assignAt, h]
  rfl

/-- Every chain that leads to the slot shows the new value. -/
theorem Aged.seen (h : scopes.Aged) (ho : scopes.Overwritten found token.lexeme value after)
    (hd : scopes.Declares found token.lexeme) (hk : scopes.up? k s = some found) :
    after.getAt s k token = .ok value ∧
      (IsLeast (scopes.hops s token.lexeme) k → after.get s token = .ok value) := by
  have hup : after.up? k s = some found := by rw [up?_congr ho.links, hk]
  have haged : after.Aged := fun s outer hlink => h s outer (by rwa [ho.links] at hlink)
  refine ⟨?_, fun hl => ?_⟩
  · rw [getAt_of_holderAt (holderAt_of_declares hup ((ho.declares_iff hd).2 hd))]
    exact ho.read_eq
  · rw [← ho.hops_eq hd] at hl
    rw [get_of_holder (haged.holder_of_isLeast hl hup)]
    exact ho.read_eq

/-- An assignment that succeeds binds no name that was not bound there before. -/
theorem declares_iff_of_assigned (hd : scopes.Declares found token.lexeme) :
    (scopes.define found token.lexeme (some value)).Declares s x ↔ scopes.Declares s x :=
  (overwritten_define (lt_size_of_declares hd)).declares_iff hd

/-- What counting finds holds the name. -/
theorem declares_of_holderAt (h : scopes.holderAt scope d token = .ok found) :
    scopes.Declares found token.lexeme := by
  by_cases hd : d ∈ scopes.hops scope token.lexeme
  · obtain ⟨other, hu, hother⟩ := hd
    rw [holderAt_of_declares hu hother] at h
    cases h
    exact hother
  · obtain ⟨cause, hc⟩ := holderAt_of_notMem hd
    rw [hc] at h
    cases h

theorem declares_of_holder (h : scopes.holder scope token = .ok found) :
    scopes.Declares found token.lexeme := by
  unfold holder at h
  split at h
  · cases h
    exact declares_of_holderWithin ‹_›
  · cases h

/-! ## Distances that do not fit -/

/-- The chain ends before so many links, or the scope there lacks the name. -/
def Strays (scopes : Scopes) (scope : ScopeRef) (d : Nat) (name : String) : Prop :=
  scopes.up? d scope = none ∨
    ∃ outer, scopes.up? d scope = some outer ∧ ¬scopes.Declares outer name

theorem notMem_hops_iff : d ∉ scopes.hops scope name ↔ scopes.Strays scope d name := by
  simp only [hops, Set.mem_ofPred_eq, Strays]
  cases scopes.up? d scope <;> simp

theorem getAt_broken_iff :
    (∃ cause, scopes.getAt scope d token = .error (.broken cause)) ↔
      scopes.Strays scope d token.lexeme := by
  rw [← notMem_hops_iff]
  constructor
  · rintro ⟨cause, hc⟩ ⟨found, hu, hd⟩
    rw [getAt_of_holderAt (holderAt_of_declares hu hd)] at hc
    rcases scopes.read_cases found token with ⟨current, hread, -⟩ | ⟨fault, hread⟩ <;>
      · rw [hread] at hc
        cases hc
  · intro h
    obtain ⟨cause, hc⟩ := holderAt_of_notMem h
    exact ⟨cause, by rw [getAt, hc]; rfl⟩

theorem assignAt_broken_iff :
    (∃ cause, scopes.assignAt scope d token value = .error (.broken cause)) ↔
      scopes.Strays scope d token.lexeme := by
  rw [← notMem_hops_iff]
  constructor
  · rintro ⟨cause, hc⟩ ⟨found, hu, hd⟩
    rw [assignAt_of_holderAt (holderAt_of_declares hu hd)] at hc
    cases hc
  · intro h
    obtain ⟨cause, hc⟩ := holderAt_of_notMem h
    exact ⟨cause, by rw [assignAt, hc]; rfl⟩

/-! ## Agreement -/

/-- Search along the chain and counting of links agree.

* Where `d` is the least number of links to a scope with the name, both read the same
  value, or both report that the name is not initialized.  Both write to that one slot,
  which all chains that lead there share.
* Where no scope on the chain has the name, search reports that, and changes nothing.
* No assignment binds a name in a scope that lacked it.
* Counting is broken exactly where the chain is too short or the scope lacks the name. -/
theorem Reachable.access_agrees (h : scopes.Reachable) (scope : ScopeRef) (token : Token)
    (value : Value) :
    (∀ d, IsLeast (scopes.hops scope token.lexeme) d →
      scopes.get scope token = scopes.getAt scope d token ∧
      ((∃ current, scopes.get scope token = .ok current) ∨
        scopes.get scope token = .error (.at token (.uninitializedVariable token.lexeme))) ∧
      ∃ found after,
        scopes.up? d scope = some found ∧
        scopes.assign scope token value = .ok after ∧
        scopes.assignAt scope d token value = .ok after ∧
        scopes.Overwritten found token.lexeme value after ∧
        after.get scope token = .ok value ∧
        ∀ s k, scopes.up? k s = some found →
          after.getAt s k token = .ok value ∧
          (IsLeast (scopes.hops s token.lexeme) k → after.get s token = .ok value)) ∧
    (scopes.hops scope token.lexeme = ∅ →
      scopes.get scope token = .error (.at token (.undefinedVariable token.lexeme)) ∧
      scopes.assign scope token value =
        .error (.at token (.undefinedVariable token.lexeme)) ∧
      (ScopeStep.assign scope token value).after scopes = scopes) ∧
    (∀ after, (scopes.assign scope token value = .ok after ∨
        ∃ d, scopes.assignAt scope d token value = .ok after) →
      ∀ s x, after.Declares s x ↔ scopes.Declares s x) ∧
    (∀ d,
      ((∃ cause, scopes.getAt scope d token = .error (.broken cause)) ↔
        scopes.Strays scope d token.lexeme) ∧
      ((∃ cause, scopes.assignAt scope d token value = .error (.broken cause)) ↔
        scopes.Strays scope d token.lexeme)) := by
  have haged : scopes.Aged := h.aged
  refine ⟨fun d hleast => ?agreement, fun hnone => ?missing, ?kept, fun d => ?strays⟩
  case agreement =>
    obtain ⟨found, hup, hd⟩ := hleast.1
    have hsearch : scopes.holder scope token = .ok found := haged.holder_of_isLeast hleast hup
    have hcount : scopes.holderAt scope d token = .ok found := holderAt_of_declares hup hd
    let after := scopes.define found token.lexeme (some value)
    have hover : scopes.Overwritten found token.lexeme value after :=
      overwritten_define (lt_size_of_declares hd)
    have hseen := fun s k => haged.seen (s := s) (k := k) hover hd
    refine ⟨?_, ?_, found, after, hup, assign_of_holder hsearch, assignAt_of_holderAt hcount,
      hover, (hseen scope d hup).2 hleast, hseen⟩
    · rw [get_of_holder hsearch, getAt_of_holderAt hcount]
    · rw [get_of_holder hsearch, read]
      split
      · exact .inl ⟨_, rfl⟩
      · exact .inr rfl
  case missing =>
    have hsearch := holder_of_hops_empty hnone
    have hassign : scopes.assign scope token value =
        .error (.at token (.undefinedVariable token.lexeme)) := by
      rw [assign, hsearch]
      rfl
    refine ⟨?_, hassign, ?_⟩
    · rw [get, hsearch]
      rfl
    · simp only [ScopeStep.after, ScopeStep.perform, hassign]
  case kept =>
    rintro after (hassign | ⟨d, hassign⟩) s x
    · obtain ⟨found, hf, rfl⟩ := assign_eq_ok hassign
      exact declares_iff_of_assigned (declares_of_holder hf)
    · obtain ⟨found, hf, rfl⟩ := assignAt_eq_ok hassign
      exact declares_iff_of_assigned (declares_of_holderAt hf)
  case strays => exact ⟨getAt_broken_iff, assignAt_broken_iff⟩

/-- Two scopes inside the globals, which hold the name. -/
def twoInGlobals : Scopes :=
  let globals := (ScopeStep.define 0 "a" none).after ((ScopeStep.create none).after #[])
  (ScopeStep.create (some 0)).after ((ScopeStep.create (some 0)).after globals)

/-- What one of two sibling scopes writes, by search or by counting, the other reads. -/
theorem access_agrees_siblings :
    ∃ after : Scopes,
      twoInGlobals.assign 1 ⟨.identifier, "a", none, 1⟩ (.bool true) = .ok after ∧
      twoInGlobals.assignAt 1 1 ⟨.identifier, "a", none, 1⟩ (.bool true) = .ok after ∧
      after.getAt 2 1 ⟨.identifier, "a", none, 1⟩ = .ok (.bool true) := by
  have hreachable : twoInGlobals.Reachable := by
    refine .step (.create (some 0)) (.step (.create (some 0)) (.step (.define 0 "a" none)
      (.step (.create none) .start ?_) ?_) ?_) ?_ <;> decide
  have hleast : IsLeast (twoInGlobals.hops 1 "a") 1 := by
    refine ⟨⟨0, rfl, rfl⟩, fun k hk => Nat.one_le_iff_ne_zero.2 ?_⟩
    rintro rfl
    cases zero_mem_hops.1 hk
  obtain ⟨-, -, found, after, hup, hassign, hassignAt, -, -, hseen⟩ :=
    (hreachable.access_agrees 1 ⟨.identifier, "a", none, 1⟩ (.bool true)).1 1 hleast
  obtain rfl : 0 = found := Option.some.inj hup
  exact ⟨after, hassign, hassignAt, (hseen 2 1 rfl).1⟩

end Scopes

end TreeScript
