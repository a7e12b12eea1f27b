import TreeScript.Proofs.Scoping.Keeping

/-!
# Primitive steps

Every primitive step keeps worlds sound, and each lemma says what it does to the world:

* `keeps_newScope`, `keeps_define`, `keeps_defineAll` — scopes and names
* `keeps_readName`, `keeps_writeName` — references; only here scopes can be broken
* `keeps_newClosure`, `keeps_newClass`, `keeps_property` — what is made knows its spot
-/

namespace TreeScript

variable {α β : Type} {w : World} {t : List ScopeRef}

/-! ## Scopes -/

theorem keeps_newScope (hw : w.Sound) (enclosing : ScopeRef) :
    Keeps t w (Watched.lift (Run.newScope enclosing)) fun scope w' =>
      scope = w.scopes.size ∧ w' = w.create enclosing :=
  .of_done (w.create enclosing) rfl rfl (w.grows_create enclosing) (hw.create enclosing) ⟨rfl, rfl⟩

/-- Binding a name in a scope makes it defined.  The value may depend on that. -/
theorem keeps_define (hw : w.Sound) {scope : ScopeRef} {name : String}
    {value : Option Value} (hs : scope < w.scopes.size) (ht : scope ∈ t)
    (hv : ∀ v ∈ value, (w.define scope name value True).Knows v) :
    Keeps t w (Watched.lift (Run.define scope name value)) fun _ w' =>
      w' = w.define scope name value True :=
  .of_done (w.define scope name value True) rfl rfl
    (w.grows_define scope name value fun _ => ht) (hw.define hs hv) rfl

/-- Binding parameters makes them all defined; in strict sessions there are arguments for
all of them. -/
theorem keeps_defineAll (hw : w.Sound) {scope : ScopeRef} {parameters : List Token}
    {arguments : List Value} (hs : scope < w.scopes.size) (ht : scope ∈ t)
    (hn : w.Strict → arguments.length = parameters.length)
    (hv : ∀ argument ∈ arguments, w.Knows argument) :
    Keeps t w (Watched.lift (Run.defineAll scope parameters arguments)) fun _ w' =>
      ∀ x, w'.defined scope x ↔ w.defined scope x ∨ ∃ p ∈ parameters, p.lexeme = x := by
  induction parameters generalizing w arguments with
  | nil => exact .pure hw (by simp)
  | cons parameter parameters ih =>
    cases arguments with
    | nil =>
      -- the arguments have run out, which strict sessions exclude
      let names := fun x => ∃ p ∈ parameter :: parameters, p.lexeme = x
      have hmark : (w.mark scope names).Sound := hw.mark hs fun h => by simpa using hn h
      exact .of_done (w.mark scope names) rfl rfl (w.grows_mark names ht) hmark
        (by simp [World.mark, names])
    | cons argument arguments =>
      rw [List.forall_mem_cons] at hv
      have hg : w.Grows t (w.define scope parameter.lexeme (some argument) True) :=
        w.grows_define scope parameter.lexeme (some argument) fun _ => ht
      have hdefine : Keeps t w
          (Watched.lift (Run.define scope parameter.lexeme (some argument))) fun _ w' =>
            w' = w.define scope parameter.lexeme (some argument) True :=
        keeps_define hw hs ht (by simpa using hv.1.mono hg)
      refine .lift_bind hdefine ?_
      rintro _ w' - - hw' rfl
      refine (ih hw' (Nat.lt_of_lt_of_le hs hg.size) ?_ fun a ha => (hv.2 a ha).mono hg).imp ?_
      · intro h
        simpa using hn (World.Strict.anti hg h)
      · intro _ w'' _ _ _ hd x
        rw [hd]
        simp only [World.define, List.exists_mem_cons_iff]
        grind

/-! ## References -/

theorem Scopes.declares_of_holderWithin {scopes : Scopes} {name : String} {count : Nat}
    {scope found : ScopeRef} (h : scopes.holderWithin name count scope = some found) :
    scopes.Declares found name := by
  induction count generalizing scope with
  | zero => cases h
  | succ count ih =>
    rw [holderWithin] at h
    split at h
    · cases h
      assumption
    · obtain ⟨outer, -, h⟩ := Option.bind_eq_some_iff.1 h
      exact ih h

theorem Scopes.lt_size_of_declares {scopes : Scopes} {scope : ScopeRef} {name : String}
    (h : scopes.Declares scope name) : scope < scopes.size := by
  by_contra hn
  rw [Declares, binding?, Array.getElem?_eq_none (Nat.le_of_not_lt hn)] at h
  cases h

/-- Reading gives the value of a binding, or is a fault of the program. -/
theorem Scopes.read_cases (scopes : Scopes) (holder : ScopeRef) (name : Token) :
    (∃ value, scopes.read holder name = .ok value ∧
        scopes.binding? holder name.lexeme = some (some value)) ∨
      ∃ fault, scopes.read holder name = .error (.at name fault) := by
  unfold read
  split
  · exact .inl ⟨_, rfl, ‹_›⟩
  · exact .inr ⟨_, rfl⟩

/-- The scope that holds a reference is found, or its failure is excused. -/
theorem holder_found {frame : Frame} {node : Node} {id : ReferenceId} {token : Token}
    {setting : Setting} {handed : List Value} (hset : Prepared w.programs setting handed)
    (hw : w.Sound) (hf : frame.Fits w node)
    (hr : (Visit.mk frame.spot node).reference? = some (id, token)) :
    (∃ scope, Run.holder setting.distances[id]? frame.scope token w.machine =
        .done scope w.machine ∧ w.scopes.Declares scope token.lexeme) ∨
      ∃ failure, Run.holder setting.distances[id]? frame.scope token w.machine =
        .failed failure w.machine ∧ w.Excuses failure := by
  rw [hset.distances _ _ _ hf.walked hr]
  unfold Run.holder
  cases hd : StaticScope.distance? frame.spot.scopes token.lexeme with
  | none =>
    simp only [Scopes.holder]
    cases hh : w.scopes.holder? globalScope token.lexeme with
    | none => exact .inr ⟨_, rfl, by intro cause h; cases h⟩
    | some found => exact .inl ⟨found, rfl, Scopes.declares_of_holderWithin hh⟩
  | some distance =>
    have hgood := hf.good hw
    obtain ⟨names, hi, -⟩ := StaticScope.of_distance? hd
    obtain ⟨scope, ha, -, -⟩ := hgood.names distance names hi
    replace ha : w.scopes.ancestor frame.scope distance = .ok scope := ha
    obtain ⟨hearly, -⟩ := hgood.reference id token distance hr hd scope ha
    simp only [Scopes.holderAt, ha, bind, Except.bind]
    by_cases hb : (w.scopes.binding? scope token.lexeme).isSome
    · rw [if_pos hb]
      exact .inl ⟨scope, rfl, hb⟩
    · rw [if_neg hb]
      refine .inr ⟨_, rfl, ?_⟩
      rintro cause ⟨⟩
      refine ⟨⟨_, _, rfl⟩, fun hs => ⟨_, (hearly hs).resolve_left hb⟩⟩

section References

variable {frame : Frame} {node : Node} {id : ReferenceId} {token : Token}
  {setting : Setting} {handed : List Value} (hset : Prepared w.programs setting handed)
  (hw : w.Sound) (hf : frame.Fits w node)
  (hr : (Visit.mk frame.spot node).reference? = some (id, token))

include hset hw hf hr

theorem keeps_holder :
    Keeps t w (Watched.lift (Run.holder setting.distances[id]? frame.scope token))
      fun scope w' => w = w' ∧ w.scopes.Declares scope token.lexeme := by
  rcases holder_found hset hw hf hr with ⟨scope, hh, hd⟩ | ⟨failure, hh, he⟩
  · exact .of_done w (Prod.ext hh rfl) rfl (.refl w) hw ⟨rfl, hd⟩
  · exact .of_failed w (Prod.ext hh rfl) rfl (.refl w) hw he

theorem keeps_readName :
    Keeps t w (Watched.lift (Run.readName setting.distances[id]? frame.scope token))
      fun value w' => w'.Knows value := by
  refine .lift_bind (keeps_holder hset hw hf hr) ?_
  rintro scope _ - - - ⟨rfl, -⟩
  rcases w.scopes.read_cases scope token with ⟨value, hread, hb⟩ | ⟨fault, hread⟩
  · simp only [Keeps, Watched.lift, hread]
    exact ⟨w, rfl, rfl, rfl, .refl w, hw, hw.bindings scope _ _ hb⟩
  · simp only [Keeps, Watched.lift, hread]
    exact ⟨w, rfl, rfl, rfl, .refl w, hw, by intro cause h; cases h⟩

/-- An assignment makes no name defined. -/
theorem keeps_writeName {value : Value} (hv : w.Knows value) :
    Keeps t w (Watched.lift (Run.writeName setting.distances[id]? frame.scope token value))
      fun _ w' => w'.Knows value := by
  refine .lift_bind (keeps_holder hset hw hf hr) ?_
  rintro scope _ - - - ⟨rfl, hd⟩
  have hg : w.Grows t (w.define scope token.lexeme (some value) False) :=
    w.grows_define scope token.lexeme (some value) False.elim
  have hs : (w.define scope token.lexeme (some value) False).Sound :=
    hw.define (Scopes.lt_size_of_declares hd) (by simpa using hv.mono hg)
  exact .of_done (w.define scope token.lexeme (some value) False) rfl rfl hg hs (hv.mono hg)

end References

/-! ## Operators -/

theorem World.knows_of_isPlain {value : Value} (h : value.isPlain = true) : w.Knows value := by
  cases value with
  | function _ | classObject _ | object _ _ => cases h
  | _ => trivial

theorem unaryResult_isPlain {kind : TokenKind} {operand value : Value}
    (h : unaryResult kind operand = .ok value) : value.isPlain = true := by
  unfold unaryResult at h
  split at h
  · split at h <;> cases h
    rfl
  · cases h
    rfl
  · cases h

theorem onNumbers_isPlain {operation : Float → Float → Value} {left right value : Value}
    (ho : ∀ a b, (operation a b).isPlain = true)
    (h : onNumbers operation left right = .ok value) : value.isPlain = true := by
  unfold onNumbers at h
  split at h
  · cases h
    exact ho _ _
  · cases h

/-- Only the comma gives one of its operands. -/
theorem binaryResult_isPlain {kind : TokenKind} {left right value : Value}
    (h : binaryResult kind left right = .ok value) : value = right ∨ value.isPlain = true := by
  unfold binaryResult at h
  split at h
  · cases h
    exact .inl rfl
  · unfold sumResult at h
    split at h <;> cases h <;> exact .inr rfl
  · split at h
    · cases h
    · exact .inr (onNumbers_isPlain (fun _ _ => rfl) h)
  all_goals first
    | exact .inr (onNumbers_isPlain (fun _ _ => rfl) h)
    | (cases h; exact .inr rfl)
    | cases h

theorem keeps_ofOperator (hw : w.Sound) (operator : Token) {result : Except RunFault Value}
    (hr : ∀ value, result = .ok value → w.Knows value) :
    Keeps t w (Watched.lift (Run.ofOperator operator result)) fun value w' =>
      w'.Knows value := by
  cases result with
  | ok value => exact .of_done w rfl rfl (.refl w) hw (hr value rfl)
  | error cause => exact .fault hw operator cause

/-! ## Objects -/

theorem keeps_newClosure (hw : w.Sound) (spot : Spot) (scope : ScopeRef)
    (declaration : FunctionDecl) :
    Keeps t w (Watched.making spot (Run.newClosure scope declaration)) fun value w' =>
      value = .function { identity := w.machine.identities, declaration, scope } ∧
        w' = w.make spot :=
  .of_done (w.make spot) rfl rfl (w.grows_make spot) (hw.make spot) ⟨rfl, rfl⟩

theorem mem_of_getElem?_insertAll {methods : List FunctionDecl}
    {table : Std.TreeMap String FunctionDecl} {name : String} {declaration : FunctionDecl}
    (h : (methods.foldl (fun table method => table.insert method.displayName method)
      table)[name]? = some declaration) :
    declaration ∈ methods ∨ table[name]? = some declaration := by
  induction methods generalizing table with
  | nil => exact .inr h
  | cons method methods ih =>
    rcases ih h with hm | ht
    · exact .inl (List.mem_cons_of_mem _ hm)
    · rw [Std.TreeMap.getElem?_insert] at ht
      split at ht
      · cases ht
        exact .inl List.mem_cons_self
      · exact .inr ht

theorem keeps_newClass (hw : w.Sound) (spot : Spot) (scope : ScopeRef) (name : String)
    (methods : List FunctionDecl) :
    Keeps t w (Watched.making spot (Run.newClass scope name methods)) fun value w' =>
      ∃ object, value = .classObject object ∧ w' = w.make spot ∧
        object.identity = w.machine.identities ∧ object.scope = scope ∧
        ∀ (x : String) d, object.methods[x]? = some d → d ∈ methods := by
  refine .of_done (w.make spot) rfl rfl (w.grows_make spot) (hw.make spot)
    ⟨_, rfl, rfl, rfl, rfl, fun x d hd => ?_⟩
  exact (mem_of_getElem?_insertAll hd).resolve_right (by simp)

theorem keeps_newObject (hw : w.Sound) {object : ClassObject}
    (hk : w.Knows (.classObject object)) :
    Keeps t w (Watched.lift (Run.newObject object)) fun value w' => w'.Knows value :=
  .of_done w.addObject rfl rfl w.grows_addObject hw.addObject
    (World.Knows.mono hk (w.grows_addObject (t := [])))

theorem keeps_setField (hw : w.Sound) (address : InstanceRef) (name : String) {value : Value}
    (hv : w.Knows value) :
    Keeps t w (Watched.lift (Run.setField address name value)) fun _ w' => w'.Knows value :=
  .of_done (w.setField address name value) rfl rfl (w.grows_setField address name value)
    (hw.setField address name hv)
    (hv.mono (w.grows_setField (t := []) address name value))

theorem keeps_origin (hw : w.Sound) {identity : Nat} {spot : Spot}
    (h : w.journal.origins[identity]? = some spot) :
    Keeps t w (Watched.origin identity) fun found w' => found = spot ∧ w = w' := by
  refine .of_done w rfl rfl (.refl w) hw ⟨?_, rfl⟩
  rw [Array.getD_eq_getD_getElem?, h]
  rfl

theorem keeps_field? (hw : w.Sound) (address : InstanceRef) (name : String) :
    Keeps t w (Watched.lift (Run.field? address name)) fun found w' =>
      w = w' ∧ ∀ value ∈ found, w.Knows value := by
  refine .of_done w rfl rfl (.refl w) hw ⟨rfl, fun value hv => ?_⟩
  obtain ⟨fields, hf, hx⟩ := Option.bind_eq_some_iff.1 hv
  exact hw.fields address fields name value hf hx

theorem keeps_bindMethod (hw : w.Sound) {address : InstanceRef} {object : ClassObject}
    {spot : Spot} {outer : List StaticScope} {name : String} {declaration : FunctionDecl}
    (hk : w.KnowsClass object spot outer) (hm : object.methods[name]? = some declaration) :
    Keeps t w (Watched.making spot (Run.bindMethod address object declaration))
      fun value w' => w'.Knows value := by
  let created := w.create object.scope
  let bound := created.define w.scopes.size "this" (some (.object address object)) True
  have hcreated : created.Sound := hw.create object.scope
  have hsize : w.scopes.size < created.scopes.size := Scopes.lt_size_create _
  have hgrows : created.Grows [w.scopes.size] bound := created.grows_define _ _ _ (by simp)
  have hknown : bound.Knows (.object address object) :=
    World.Knows.mono ⟨spot, outer, hk⟩ ((w.grows_create object.scope).trans hgrows)
  have hbound : bound.Sound := hcreated.define hsize (by simpa using hknown)
  have hall : w.Grows [w.scopes.size] (bound.make spot) :=
    ((w.grows_create object.scope).trans hgrows).trans (bound.grows_make spot)
  refine .of_done (bound.make spot) rfl rfl ?_ (hbound.make spot) ?_
  · -- the scope of the method did not exist before
    exact hall.weaken (by simp)
  · refine ⟨spot, hbound.origin_make spot, (hk.walked name declaration hm).mono hall.programs, ?_⟩
    rw [hk.scopes]
    refine (hk.mirrors name declaration hm).inner .refl
      (hgrows.trans (bound.grows_make spot)) fun x hx => ?_
    rw [Std.TreeMap.mem_iff_isSome_getElem?, StaticScope.getElem?_ofClass] at hx
    split at hx
    · subst x
      exact ⟨by simp [StaticScope.getElem?_ofClass], .inr ⟨trivial, rfl, rfl⟩⟩
    · cases hx

theorem keeps_property (hw : w.Sound) {address : InstanceRef} {object : ClassObject}
    (hk : w.Knows (.object address object)) (name : Token) :
    Keeps t w (Watched.property address object name) fun value w' => w'.Knows value := by
  refine .bind (keeps_field? hw address name.lexeme) ?_
  rintro found w' - - - ⟨rfl, hfound⟩
  cases found with
  | some value => exact .pure hw (hfound value rfl)
  | none =>
    obtain ⟨spot, outer, hk⟩ := hk
    simp only
    cases hm : object.methods[name.lexeme]? with
    | none => exact .fault hw name _
    | some declaration =>
      refine .bind (keeps_origin hw hk.origin) ?_
      rintro found w'' - - - ⟨rfl, rfl⟩
      exact keeps_bindMethod hw hk hm

/-! ## Journal and print target -/

theorem keeps_enter (hw : w.Sound) {frame : Frame} {node : Node}
    (hm : Moment.Good w.programs w.journal.hostCalls { frame, node, scopes := w.scopes }) :
    Keeps t w (Watched.enter frame node) fun _ w' => w' = w.enter frame node :=
  .of_done (w.enter frame node) rfl rfl (w.grows_enter frame node) (hw.enter hm) rfl

theorem keeps_noteHostCall (hw : w.Sound) (callee : Value) (arguments : List Value) :
    Keeps t w (Watched.noteHostCall callee arguments) fun _ w' =>
      w' = w.note { callee, arguments } :=
  .of_done (w.note { callee, arguments }) rfl rfl (w.grows_note _) (hw.note _) rfl

theorem keeps_print (hw : w.Sound) (text : String) :
    Keeps t w (Watched.lift (Run.print text)) fun _ _ => True := by
  unfold Keeps Watched.lift Run.print
  rcases hwrite : w.machine.sink.write (text ++ "\n") with ⟨sink, _ | cause⟩
  · simp only [hwrite]
    exact ⟨w.print sink, rfl, rfl, rfl, w.grows_print sink, hw.print sink, trivial⟩
  · simp only [hwrite]
    exact ⟨w.print sink, rfl, rfl, rfl, w.grows_print sink, hw.print sink,
      by intro cause h; cases h⟩

theorem keeps_flush (hw : w.Sound) : Keeps t w (Watched.lift Run.flush) fun _ w' => w = w' := by
  unfold Keeps Watched.lift Run.flush
  cases w.machine.sink.flush with
  | none => exact ⟨w, rfl, rfl, rfl, .refl w, hw, rfl⟩
  | some cause => exact ⟨w, rfl, rfl, rfl, .refl w, hw, by intro cause h; cases h⟩

end TreeScript
