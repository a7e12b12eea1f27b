import TreeScript.Proofs.Likeness.Resolving
import TreeScript.Proofs.Likeness.Values
import TreeScript.Proofs.Scoping.Chains

/-!
# Alike machines

* `Machine.Alike` — machines that hold alike values in the same places and printed the same
* `Setting.Alike` — the same distances for alike references, and alike host functions
* `Run.Alike` — two steps that do the same on alike machines
* one lemma for each primitive step
-/

namespace TreeScript

variable {L M : Likeness}

/-! ## Scopes -/

/-- Scopes with the same links, which hold alike values under the same names. -/
structure Scopes.Alike (L : Likeness) (s s' : Scopes) : Prop where
  size : s'.size = s.size
  enclosing? : ∀ scope, s'.enclosing? scope = s.enclosing? scope
  binding? : ∀ scope name,
    Option.Rel (Option.Rel (Value.Alike L)) (s.binding? scope name) (s'.binding? scope name)

/-- What stops a program, at alike tokens if it is a fault of the program.  No static fault
stops a program. -/
inductive Failure.Alike (L : Likeness) : Failure → Failure → Prop
  | diagnosed {d d' : Diagnostic} : d.Alike L.token d' → d.isStatic = false →
      Failure.Alike L (.diagnosed d) (.diagnosed d')
  | broken (cause : BrokenScope) : Failure.Alike L (.broken cause) (.broken cause)

theorem Failure.at_alike {t t' : Token} (h : L.token t t') (cause : RunFault) :
    (Failure.at t cause).Alike L (.at t' cause) :=
  .diagnosed (.run cause h) rfl

/-- An access that succeeds on both sides, or fails on both in the same way. -/
inductive AccessAlike (L : Likeness) {α : Type} (P : α → α → Prop) :
    Except Failure α → Except Failure α → Prop
  | ok {a a' : α} : P a a' → AccessAlike L P (.ok a) (.ok a')
  | error {f f' : Failure} : f.Alike L f' → AccessAlike L P (.error f) (.error f')

namespace Scopes.Alike

variable {s s' : Scopes} {t t' : Token}

theorem mono (hw : L.Within M) (h : s.Alike L s') : s.Alike M s' :=
  { h with
    binding? := fun scope name =>
      rel_imp (h.binding? scope name) fun _ _ ho => rel_imp ho fun _ _ hv => hv.mono hw }

theorem define (h : s.Alike L s') (scope : ScopeRef) (name : String) {v v' : Option Value}
    (hv : Option.Rel (Value.Alike L) v v') :
    Scopes.Alike L (s.define scope name v) (s'.define scope name v') where
  size := by rw [size_define, size_define, h.size]
  enclosing? x := by rw [enclosing?_define, enclosing?_define, h.enclosing?]
  binding? x y := by
    by_cases hs : scope < s.size
    · rw [binding?_define hs, binding?_define (h.size ▸ hs)]
      split
      · exact .some hv
      · exact h.binding? x y
    · rw [binding?_define_missing hs, binding?_define_missing (h.size ▸ hs)]
      exact h.binding? x y

theorem create (h : s.Alike L s') (enclosing : Option ScopeRef) :
    Scopes.Alike L (s.create enclosing).2 (s'.create enclosing).2 where
  size := by rw [size_create, size_create, h.size]
  enclosing? x := by
    rw [enclosing?_create, enclosing?_create, h.size, h.enclosing?]
  binding? x y := by
    rw [binding?_create, binding?_create]
    exact h.binding? x y

theorem holder? (h : s.Alike L s') (scope : ScopeRef) (name : String) :
    s'.holder? scope name = s.holder? scope name := by
  have hwithin : ∀ count scope, s'.holderWithin name count scope =
      s.holderWithin name count scope := by
    intro count
    induction count with
    | zero => intro; rfl
    | succ count ih =>
      intro scope
      rw [holderWithin, holderWithin, isSome_of_rel (h.binding? scope name), h.enclosing?]
      split
      · rfl
      · cases s.enclosing? scope with
        | none => rfl
        | some outer => exact ih outer
  exact hwithin _ _

theorem holder (h : s.Alike L s') (scope : ScopeRef) (ht : L.Name t t') :
    AccessAlike L Eq (s.holder scope t) (s'.holder scope t') := by
  unfold Scopes.holder
  rw [ht.2, h.holder?]
  split
  · exact .ok rfl
  · exact .error (Failure.at_alike ht.1 _)

/-- On the way up only broken scopes can be found, which tell nothing of tokens. -/
theorem hop (h : s.Alike L s') (distance left : Nat) (scope : ScopeRef) :
    AccessAlike L Eq (s.hop distance left scope) (s'.hop distance left scope) := by
  induction left generalizing scope with
  | zero => exact .ok rfl
  | succ left ih =>
    rw [Scopes.hop, Scopes.hop, h.enclosing?]
    split
    · exact ih _
    · exact .error (.broken _)

theorem holderAt (h : s.Alike L s') (scope : ScopeRef) (distance : Nat) (ht : L.Name t t') :
    AccessAlike L Eq (s.holderAt scope distance t) (s'.holderAt scope distance t') := by
  unfold Scopes.holderAt Scopes.ancestor
  have hh := h.hop distance distance scope
  generalize s.hop distance distance scope = found at hh
  generalize s'.hop distance distance scope = found' at hh
  cases hh with
  | error hf => exact .error hf
  | @ok a _ he =>
    subst he
    show AccessAlike L Eq (if _ then _ else _) (if _ then _ else _)
    rw [ht.2, isSome_of_rel (h.binding? a _)]
    split
    · exact .ok rfl
    · exact .error (.broken _)

theorem read (h : s.Alike L s') (scope : ScopeRef) (ht : L.Name t t') :
    AccessAlike L (Value.Alike L) (s.read scope t) (s'.read scope t') := by
  unfold Scopes.read
  rw [ht.2]
  have hb := h.binding? scope t.lexeme
  generalize s.binding? scope t.lexeme = b at hb
  generalize s'.binding? scope t.lexeme = b' at hb
  cases hb with
  | none => exact .error (Failure.at_alike ht.1 _)
  | some ho =>
    cases ho with
    | none => exact .error (Failure.at_alike ht.1 _)
    | some hv => exact .ok hv

end Scopes.Alike

/-! ## Machines and settings -/

/-- Machines that hold alike values in the same places, gave out as many identities and
printed the same. -/
structure Machine.Alike (L : Likeness) (m m' : Machine) : Prop where
  scopes : m.scopes.Alike L m'.scopes
  objects : m'.fields.size = m.fields.size
  fields : ∀ (address : InstanceRef) (name : String), Option.Rel (Value.Alike L)
    (m.fields[address]?.bind fun fields => fields[name]?)
    (m'.fields[address]?.bind fun fields => fields[name]?)
  identities : m'.identities = m.identities
  sink : m'.sink = m.sink

theorem Machine.Alike.mono (hw : L.Within M) {m m' : Machine} (h : m.Alike L m') :
    m.Alike M m' :=
  { h with
    scopes := h.scopes.mono hw
    fields := fun address name => rel_imp (h.fields address name) fun _ _ hv => hv.mono hw }

/-- Settings in which alike references have the same distances, and alike host functions
stand in the same places. -/
structure Setting.Alike (L : Likeness) (s s' : Setting) : Prop where
  distances : L.Distances s s'
  natives : ∀ i : Nat, Option.Rel (Native.Alike L) s.natives[i]? s'.natives[i]?
  dynamicArity : s'.dynamicArity = s.dynamicArity

/-! ## Steps -/

/-- Steps that end in the same way, with alike results on alike machines. -/
inductive Outcome.Alike (L : Likeness) {α β : Type} (P : α → β → Prop) :
    Outcome α → Outcome β → Prop
  | done {a b m m'} : P a b → m.Alike L m' → Outcome.Alike L P (.done a m) (.done b m')
  | failed {f f' m m'} : f.Alike L f' → m.Alike L m' →
      Outcome.Alike L P (.failed f m) (.failed f' m')
  | outOfFuel : Outcome.Alike L P .outOfFuel .outOfFuel

/-- Steps that do the same on alike machines. -/
def Run.Alike (L : Likeness) {α β : Type} (P : α → β → Prop) (p : Run α) (q : Run β) :
    Prop :=
  ∀ ⦃m m' : Machine⦄, m.Alike L m' → (p m).Alike L P (q m')

namespace Run

section Steps

variable {α β γ δ : Type} {P : α → β → Prop} {Q : γ → δ → Prop}

/-! ## Sequencing -/

theorem Alike.pure {a : α} {b : β} (h : P a b) :
    Run.Alike L P (Pure.pure a : Run α) (Pure.pure b) :=
  fun _ _ hm => .done h hm

theorem Alike.bind {p : Run α} {q : Run β} {f : α → Run γ} {g : β → Run δ}
    (h : p.Alike L P q) (hn : ∀ a b, P a b → (f a).Alike L Q (g b)) :
    Run.Alike L Q (p >>= f) (q >>= g) := by
  intro m m' hm
  show Outcome.Alike L Q (Run.bind p f m) (Run.bind q g m')
  unfold Run.bind
  have hr := h hm
  generalize p m = r at hr
  generalize q m' = r' at hr
  cases hr with
  | done ha hm => exact hn _ _ ha hm
  | failed hf hm => exact .failed hf hm
  | outOfFuel => exact .outOfFuel

theorem Alike.imp {P' : α → β → Prop} {p : Run α} {q : Run β} (h : p.Alike L P q)
    (hP : ∀ a b, P a b → P' a b) : p.Alike L P' q := by
  intro m m' hm
  have hr := h hm
  generalize p m = r at hr ⊢
  generalize q m' = r' at hr ⊢
  cases hr with
  | done ha hm => exact .done (hP _ _ ha) hm
  | failed hf hm => exact .failed hf hm
  | outOfFuel => exact .outOfFuel

theorem alike_stuck : Run.Alike L P stuck stuck :=
  fun _ _ _ => .outOfFuel

theorem alike_fail {f f' : Failure} (h : f.Alike L f') : Run.Alike L P (fail f) (fail f') :=
  fun _ _ hm => .failed h hm

theorem alike_fault {t t' : Token} (h : L.token t t') (cause : RunFault) :
    Run.Alike L P (fault t cause) (fault t' cause) :=
  alike_fail (Failure.at_alike h cause)

/-- The result of a step or the diagnostic that stopped it. -/
inductive AttemptAlike (L : Likeness) (P : α → β → Prop) :
    Except Diagnostic α → Except Diagnostic β → Prop
  | ok {a b} : P a b → AttemptAlike L P (.ok a) (.ok b)
  | error {d d' : Diagnostic} : d.Alike L.token d' → AttemptAlike L P (.error d) (.error d')

theorem alike_attempt {p : Run α} {q : Run β} (h : p.Alike L P q) :
    Run.Alike L (AttemptAlike L P) (attempt p) (attempt q) := by
  intro m m' hm
  unfold attempt
  have hr := h hm
  generalize p m = r at hr
  generalize q m' = r' at hr
  cases hr with
  | done ha hm => exact .done (.ok ha) hm
  | failed hf hm =>
    cases hf with
    | diagnosed hd => exact .done (.error hd) hm
    | broken cause => exact .failed (.broken cause) hm
  | outOfFuel => exact .outOfFuel

end Steps

/-! ## Scopes -/

theorem alike_newScope (enclosing : ScopeRef) :
    Run.Alike L Eq (newScope enclosing) (newScope enclosing) := by
  intro m m' hm
  exact .done hm.scopes.size.symm { hm with scopes := hm.scopes.create _ }

theorem alike_define (scope : ScopeRef) (name : String) {v v' : Option Value}
    (hv : Option.Rel (Value.Alike L) v v') :
    Run.Alike L (fun _ _ => True) (define scope name v) (define scope name v') :=
  fun _ _ hm => .done trivial { hm with scopes := hm.scopes.define scope name hv }

section Names

variable {t t' : Token} (ht : L.Name t t') (distance? : Option Nat) (scope : ScopeRef)
include ht

theorem alike_holder :
    Run.Alike L Eq (holder distance? scope t) (holder distance? scope t') := by
  intro m m' hm
  unfold holder
  cases distance? with
  | some distance =>
    have found := hm.scopes.holderAt scope distance ht
    simp only
    generalize m.scopes.holderAt scope distance t = r at found ⊢
    generalize m'.scopes.holderAt scope distance t' = r' at found ⊢
    cases found with
    | ok h => exact .done h hm
    | error hf => exact .failed hf hm
  | none =>
    have found := hm.scopes.holder globalScope ht
    simp only
    generalize m.scopes.holder globalScope t = r at found ⊢
    generalize m'.scopes.holder globalScope t' = r' at found ⊢
    cases found with
    | ok h => exact .done h hm
    | error hf => exact .failed hf hm

theorem alike_readName :
    Run.Alike L (Value.Alike L) (readName distance? scope t) (readName distance? scope t') := by
  refine .bind (alike_holder ht distance? scope) fun found _ hf m m' hm => ?_
  subst hf
  have hr := hm.scopes.read found ht
  generalize m.scopes.read found t = r at hr
  generalize m'.scopes.read found t' = r' at hr
  cases hr with
  | ok hv => exact .done hv hm
  | error hf => exact .failed hf hm

theorem alike_writeName {v v' : Value} (hv : v.Alike L v') :
    Run.Alike L (fun _ _ => True) (writeName distance? scope t v)
      (writeName distance? scope t' v') := by
  refine .bind (alike_holder ht distance? scope) fun found _ hf => ?_
  subst hf
  rw [ht.2]
  exact alike_define _ _ (.some hv)

end Names

theorem alike_defineAll (scope : ScopeRef) {ts ts' : List Token} {vs vs' : List Value}
    (ht : List.Forall₂ L.Name ts ts') (hv : List.Forall₂ (Value.Alike L) vs vs') :
    Run.Alike L (fun _ _ => True) (defineAll scope ts vs) (defineAll scope ts' vs') := by
  induction ht generalizing vs vs' with
  | nil => exact .pure trivial
  | cons ht _ ih =>
    cases hv with
    | nil => exact .pure trivial
    | cons hv hvs =>
      rw [defineAll, defineAll, ht.2]
      exact .bind (alike_define _ _ (.some hv)) fun _ _ _ => ih hvs

/-! ## Objects -/

theorem alike_newIdentity : Run.Alike L Eq newIdentity newIdentity :=
  fun _ _ hm =>
    .done hm.identities.symm { hm with identities := congrArg (· + 1) hm.identities }

theorem alike_newClosure (scope : ScopeRef) {d d' : FunctionDecl} (hd : d.Alike L d') :
    Run.Alike L (Value.Alike L) (newClosure scope d) (newClosure scope d') := by
  refine .bind alike_newIdentity fun identity _ h => .pure ?_
  subst h
  exact .function identity scope hd

/-- The tables of alike methods hold alike methods under the same names. -/
theorem methods_alike {ds ds' : List FunctionDecl}
    (h : List.Forall₂ (FunctionDecl.Alike L) ds ds')
    {table table' : Std.TreeMap String FunctionDecl}
    (ht : ∀ x : String, Option.Rel (FunctionDecl.Alike L) table[x]? table'[x]?) (x : String) :
    Option.Rel (FunctionDecl.Alike L)
      (ds.foldl (fun table method => table.insert method.displayName method) table)[x]?
      (ds'.foldl (fun table method => table.insert method.displayName method) table')[x]? := by
  induction h generalizing table table' with
  | nil => exact ht x
  | cons hd _ ih =>
    refine ih fun y => ?_
    rw [Std.TreeMap.getElem?_insert, Std.TreeMap.getElem?_insert, hd.displayName]
    split
    · exact .some hd
    · exact ht y

theorem alike_newClass (scope : ScopeRef) (name : String) {ds ds' : List FunctionDecl}
    (h : List.Forall₂ (FunctionDecl.Alike L) ds ds') :
    Run.Alike L (Value.Alike L) (newClass scope name ds) (newClass scope name ds') := by
  refine .bind alike_newIdentity fun identity _ hi => .pure ?_
  subst hi
  refine .classObject ⟨rfl, rfl, rfl, methods_alike h fun x => ?_⟩
  simp only [Std.TreeMap.getElem?_emptyc]
  exact .none

theorem alike_newObject {c c' : ClassObject} (hc : c.Alike L c') :
    Run.Alike L (Value.Alike L) (newObject c) (newObject c') := by
  intro m m' hm
  unfold newObject
  rw [hm.objects]
  refine .done (.object _ hc)
    { hm with
      objects := by simp only [Array.size_push, hm.objects]
      fields := fun address name => ?_ }
  rw [Array.getElem?_push, Array.getElem?_push, hm.objects]
  split
  · exact .none
  · exact hm.fields address name

theorem alike_field? (address : InstanceRef) (name : String) :
    Run.Alike L (Option.Rel (Value.Alike L)) (field? address name) (field? address name) :=
  fun _ _ hm => .done (hm.fields address name) hm

theorem alike_setField (address : InstanceRef) (name : String) {v v' : Value}
    (hv : v.Alike L v') :
    Run.Alike L (fun _ _ => True) (setField address name v) (setField address name v') := by
  intro m m' hm
  refine .done trivial
    { hm with
      objects := by simp only [Array.size_modify, hm.objects]
      fields := fun a x => ?_ }
  rw [Array.getElem?_modify, Array.getElem?_modify]
  split
  · -- the instance exists on both sides or on none
    have hf := hm.fields a
    by_cases ha : a < m.fields.size
    · have ha' : a < m'.fields.size := hm.objects ▸ ha
      simp only [Array.getElem?_eq_getElem ha, Array.getElem?_eq_getElem ha',
        Option.bind_some, Option.map_some, Std.TreeMap.getElem?_insert] at hf ⊢
      split
      · exact .some hv
      · exact hf x
    · have ha' : ¬a < m'.fields.size := hm.objects ▸ ha
      rw [Array.getElem?_eq_none (Nat.le_of_not_lt ha),
        Array.getElem?_eq_none (Nat.le_of_not_lt ha')]
      exact .none
  · exact hm.fields a x

theorem alike_bindMethod (address : InstanceRef) {c c' : ClassObject} (hc : c.Alike L c')
    {d d' : FunctionDecl} (hd : d.Alike L d') :
    Run.Alike L (Value.Alike L) (bindMethod address c d) (bindMethod address c' d') := by
  unfold bindMethod
  rw [hc.scope]
  refine .bind (alike_newScope _) fun scope _ hs => ?_
  subst hs
  exact .bind (alike_define _ _ (.some (.object _ hc))) fun _ _ _ => alike_newClosure _ hd

theorem alike_property (address : InstanceRef) {c c' : ClassObject} (hc : c.Alike L c')
    {t t' : Token} (ht : L.Name t t') :
    Run.Alike L (Value.Alike L) (property address c t) (property address c' t') := by
  unfold property
  rw [ht.2]
  refine .bind (alike_field? _ _) fun v v' hv => ?_
  cases hv with
  | some hv => exact .pure hv
  | none =>
    have hm := hc.methods t.lexeme
    generalize c.methods[t.lexeme]? = d at hm
    generalize c'.methods[t.lexeme]? = d' at hm
    cases hm with
    | some hd => exact alike_bindMethod address hc hd
    | none => exact alike_fault ht.1 _

/-! ## The print target -/

theorem alike_print (text : String) :
    Run.Alike L (fun _ _ => True) (print text) (print text) := by
  intro ⟨_, _, _, sink⟩ ⟨_, _, _, _⟩ hm
  obtain rfl := hm.sink
  unfold print
  simp only
  split
  · exact .done trivial { hm with sink := rfl }
  · exact .failed (.diagnosed (.output _) rfl) { hm with sink := rfl }

theorem alike_flush : Run.Alike L (fun _ _ => True) flush flush := by
  intro m m' hm
  unfold flush
  rw [hm.sink]
  cases m.sink.flush with
  | none => exact .done trivial hm
  | some cause => exact .failed (.diagnosed (.output cause) rfl) hm

theorem alike_ofOperator {t t' : Token} (ht : L.token t t') {r r' : Except RunFault Value}
    (h : ResultAlike L r r') :
    Run.Alike L (Value.Alike L) (ofOperator t r) (ofOperator t' r') := by
  cases h with
  | ok hv => exact .pure hv
  | error cause => exact alike_fault ht cause

end Run

end TreeScript
