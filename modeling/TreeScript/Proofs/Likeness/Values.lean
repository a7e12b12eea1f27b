import TreeScript.Proofs.Likeness.Trees
import TreeScript.Evaluation

/-!
# Alike values

* `Value.Alike` — values that differ at most in the trees of functions and methods
* what cannot tell alike values apart: truth, equality, text, operators, calls
* `Script.Alike`, `Native.Alike` — host functions that do the same with alike values
* `Native.Uniform` — a host function that sees functions and classes from outside only
-/

namespace TreeScript

variable {L M : Likeness}

/-! ## Options -/

section

variable {α β : Type} {P Q : α → β → Prop} {a : Option α} {b : Option β}

theorem rel_imp (h : Option.Rel P a b) (hPQ : ∀ x y, P x y → Q x y) : Option.Rel Q a b := by
  cases h with
  | some h => exact .some (hPQ _ _ h)
  | none => exact .none

theorem isSome_of_rel (h : Option.Rel P a b) : b.isSome = a.isSome := by
  cases h <;> rfl

end

/-! ## Values -/

/-- Classes that differ at most in the trees of their methods. -/
structure ClassObject.Alike (L : Likeness) (c c' : ClassObject) : Prop where
  identity : c'.identity = c.identity
  name : c'.name = c.name
  scope : c'.scope = c.scope
  methods : ∀ x : String, Option.Rel (FunctionDecl.Alike L) c.methods[x]? c'.methods[x]?

/-- Values that differ at most in the trees of functions and methods. -/
inductive Value.Alike (L : Likeness) : Value → Value → Prop
  | nil : Value.Alike L .nil .nil
  | bool (value : Bool) : Value.Alike L (.bool value) (.bool value)
  | number (value : Float) : Value.Alike L (.number value) (.number value)
  | string (value : String) : Value.Alike L (.string value) (.string value)
  | function {d d' : FunctionDecl} (identity : Nat) (scope : ScopeRef) : d.Alike L d' →
      Value.Alike L (.function { identity, declaration := d, scope })
        (.function { identity, declaration := d', scope })
  | native (host : NativeRef) : Value.Alike L (.native host) (.native host)
  | classObject {c c' : ClassObject} : c.Alike L c' →
      Value.Alike L (.classObject c) (.classObject c')
  | object {c c' : ClassObject} (address : InstanceRef) : c.Alike L c' →
      Value.Alike L (.object address c) (.object address c')

theorem ClassObject.Alike.mono (h : L.Within M) {c c' : ClassObject} (hc : c.Alike L c') :
    c.Alike M c' :=
  { hc with methods := fun x => rel_imp (hc.methods x) fun _ _ hd => hd.mono h }

theorem Value.Alike.mono (h : L.Within M) {v v' : Value} (hv : v.Alike L v') :
    v.Alike M v' := by
  cases hv with
  | nil => exact .nil
  | bool value => exact .bool value
  | number value => exact .number value
  | string value => exact .string value
  | function identity scope hd => exact .function identity scope (hd.mono h)
  | native host => exact .native host
  | classObject hc => exact .classObject (hc.mono h)
  | object address hc => exact .object address (hc.mono h)

namespace Value.Alike

variable {v v' w w' : Value}

theorem ofConstant (constant : Constant) :
    (Value.ofConstant constant).Alike L (Value.ofConstant constant) := by
  cases constant with
  | nil => exact .nil
  | bool value => exact .bool value
  | number value => exact .number value
  | string value => exact .string value

/-! ## What cannot tell them apart -/

theorem isTruthy (h : v.Alike L v') : v'.isTruthy = v.isTruthy := by
  cases h <;> rfl

theorem isCallable (h : v.Alike L v') : v'.isCallable = v.isCallable := by
  cases h <;> rfl

theorem same (h : v.Alike L v') (hw : w.Alike L w') : v'.same w' = v.same w := by
  cases h with
  | classObject hc =>
    cases hw with
    | classObject hc' => simp only [Value.same, hc.identity, hc'.identity]
    | _ => rfl
  | _ => cases hw <;> rfl

/-- Alike values are printed in the same way. -/
theorem text (h : v.Alike L v') : v'.text = v.text := by
  cases h with
  | function _ _ hd => simp only [Value.text, hd.displayName]
  | classObject hc | object _ hc => simp only [Value.text, hc.name]
  | _ => rfl

/-- The names in a table are known from where it holds something. -/
theorem keys_eq {β γ : Type} {t : Std.TreeMap String β} {u : Std.TreeMap String γ}
    (h : ∀ x : String, (u[x]?).isSome = (t[x]?).isSome) : u.keys = t.keys := by
  have hmem : ∀ x : String, x ∈ u.keys ↔ x ∈ t.keys := by
    intro x
    rw [Std.TreeMap.mem_keys, Std.TreeMap.mem_keys, Std.TreeMap.mem_iff_isSome_getElem?,
      Std.TreeMap.mem_iff_isSome_getElem?, h]
  have hperm : u.keys.Perm t.keys :=
    (List.perm_ext_iff_of_nodup Std.TreeMap.nodup_keys Std.TreeMap.nodup_keys).2 hmem
  refine hperm.eq_of_pairwise ?_ Std.TreeMap.ordered_keys Std.TreeMap.ordered_keys
  intro x y _ _ hxy hyx
  exact absurd (Std.TransCmp.lt_trans hxy hyx) (by simp)

/-- Alike values are shown with the same members, if their instances have the same
fields. -/
theorem inspect? (h : v.Alike L v') {fields fields' : InstanceRef → List String}
    (hf : fields' = fields) : v'.inspect? fields' = v.inspect? fields := by
  subst hf
  cases h with
  | function _ _ hd => simp only [Value.inspect?, hd.displayName]
  | classObject hc =>
    simp only [Value.inspect?, hc.name, keys_eq fun x => isSome_of_rel (hc.methods x)]
  | object _ hc => simp only [Value.inspect?, hc.name]
  | _ => rfl

/-- Alike values take the same number of arguments. -/
theorem arity? (h : v.Alike L v') {s s' : Setting} (hd : s'.dynamicArity = s.dynamicArity) :
    v'.arity? s' = v.arity? s := by
  cases h with
  | function _ _ hf => simp only [Value.arity?, hf.parameters.length_eq]
  | native host => simp only [Value.arity?, hd]
  | _ => rfl

end Value.Alike

/-! ## Operators -/

/-- Results of operators that are alike, or the same fault. -/
inductive ResultAlike (L : Likeness) : Except RunFault Value → Except RunFault Value → Prop
  | ok {v v' : Value} : v.Alike L v' → ResultAlike L (.ok v) (.ok v')
  | error (cause : RunFault) : ResultAlike L (.error cause) (.error cause)

section Operators

variable {a a' b b' : Value}

theorem unaryResult_alike (kind : TokenKind) (h : a.Alike L a') :
    ResultAlike L (unaryResult kind a) (unaryResult kind a') := by
  unfold unaryResult
  split
  · cases h with
    | number value => exact .ok (.number _)
    | _ => exact .error _
  · rw [h.isTruthy]
    exact .ok (.bool _)
  · exact .error _

theorem onNumbers_alike {operation : Float → Float → Value}
    (ho : ∀ x y, (operation x y).Alike L (operation x y)) (ha : a.Alike L a')
    (hb : b.Alike L b') :
    ResultAlike L (onNumbers operation a b) (onNumbers operation a' b') := by
  cases ha with
  | number x =>
    cases hb with
    | number y => exact .ok (ho x y)
    | _ => exact .error _
  | _ => exact .error _

theorem sumResult_alike (ha : a.Alike L a') (hb : b.Alike L b') :
    ResultAlike L (sumResult a b) (sumResult a' b') := by
  cases ha with
  | number x =>
    cases hb with
    | number y => exact .ok (.number _)
    | _ => exact .error _
  | string x =>
    cases hb with
    | string y => exact .ok (.string _)
    | _ => exact .error _
  | _ => exact .error _

theorem binaryResult_alike (kind : TokenKind) (ha : a.Alike L a') (hb : b.Alike L b') :
    ResultAlike L (binaryResult kind a b) (binaryResult kind a' b') := by
  unfold binaryResult
  split
  · exact .ok hb
  · exact sumResult_alike ha hb
  · rw [hb.same (.number 0)]
    split
    · exact .error _
    · exact onNumbers_alike (fun _ _ => .number _) ha hb
  · exact onNumbers_alike (fun _ _ => .number _) ha hb
  · exact onNumbers_alike (fun _ _ => .number _) ha hb
  · exact onNumbers_alike (fun _ _ => .number _) ha hb
  · exact onNumbers_alike (fun _ _ => .bool _) ha hb
  · exact onNumbers_alike (fun _ _ => .bool _) ha hb
  · exact onNumbers_alike (fun _ _ => .bool _) ha hb
  · exact onNumbers_alike (fun _ _ => .bool _) ha hb
  · rw [ha.same hb]
    exact .ok (.bool _)
  · rw [ha.same hb]
    exact .ok (.bool _)
  · exact .error _

theorem decidedByLeft_alike (kind : TokenKind) (h : a.Alike L a') :
    decidedByLeft kind a' = decidedByLeft kind a := by
  unfold decidedByLeft
  rw [h.isTruthy]

end Operators

/-! ## Host functions -/

/-- Host functions that answer and call alike values, and go on with alike results. -/
inductive Script.Alike (L : Likeness) : Script → Script → Prop
  | answer {v v' : Value} : v.Alike L v' → Script.Alike L (.answer v) (.answer v')
  | fail (message : String) : Script.Alike L (.fail message) (.fail message)
  | call {f f' : Value} {vs vs' : List Value} {next next' : Except String Value → Script} :
      f.Alike L f' → List.Forall₂ (Value.Alike L) vs vs' →
      (∀ v v', v.Alike L v' → Script.Alike L (next (.ok v)) (next' (.ok v'))) →
      (∀ message, Script.Alike L (next (.error message)) (next' (.error message))) →
      Script.Alike L (.call f vs next) (.call f' vs' next')

/-- Host functions that do the same with alike arguments. -/
structure Native.Alike (L : Likeness) (n n' : Native) : Prop where
  name : n'.name = n.name
  arity : n'.arity = n.arity
  body : ∀ vs vs', List.Forall₂ (Value.Alike L) vs vs' → (n.body vs).Alike L (n'.body vs')

/-- A host function, made from the values that the host holds, that sees functions and
classes from outside only: it does the same with alike values, whatever they may differ
in. -/
def Native.Uniform (make : List Value → Native) : Prop :=
  ∀ (L : Likeness) vs vs', List.Forall₂ (Value.Alike L) vs vs' → (make vs).Alike L (make vs')

theorem Script.Alike.ofResult :
    (∀ v v' : Value, v.Alike L v' →
      Script.Alike L (.ofResult (.ok v)) (.ofResult (.ok v'))) ∧
      ∀ message, Script.Alike L (.ofResult (.error message)) (.ofResult (.error message)) :=
  ⟨fun _ _ h => .answer h, fun message => .fail message⟩

/-- The clock looks at nothing. -/
theorem Native.uniform_clock (now : Float) : Native.Uniform fun _ => Native.clock now :=
  fun _ _ _ _ => ⟨rfl, rfl, fun _ _ _ => .answer (.number now)⟩

end TreeScript
