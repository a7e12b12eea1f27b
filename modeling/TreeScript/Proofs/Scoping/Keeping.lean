import TreeScript.Proofs.Scoping.World

/-!
# Steps that keep worlds sound

* `World.create`, `World.define`, `World.mark`, … — what primitive steps do to a world
* `World.Sound.grow` — what has to be shown of a step
* `Keeps` — a step ends in a sound world that has grown, in a failure that is excused, or
  without fuel
* `Keeps.bind`, `Keeps.attempt` — steps one after the other
-/

namespace TreeScript

namespace World

variable {w w' : World} {t : List ScopeRef}

/-! ## What has to be shown of a step -/

theorem Sound.grow (hw : w.Sound) (hg : w.Grows t w')
    (hbindings : ∀ scope name value, w'.scopes.binding? scope name = some (some value) →
      w.scopes.binding? scope name = some (some value) ∨ w'.Knows value)
    (hfields : ∀ (address : InstanceRef) fields (name : String) value,
      w'.machine.fields[address]? = some fields → fields[name]? = some value →
      (∃ old, w.machine.fields[address]? = some old ∧ old[name]? = some value) ∨
        w'.Knows value)
    (horigins : w'.journal.origins.size = w'.machine.identities)
    (hexist : ∀ scope name, w'.defined scope name → scope < w'.scopes.size)
    (hdeclared : w'.Strict → ∀ scope name, w'.defined scope name →
      w'.scopes.Declares scope name)
    (hmoments : ∀ moment ∈ w'.journal.moments, moment ∈ w.journal.moments ∨
      moment.Good w'.programs w'.journal.hostCalls) : w'.Sound where
  globals := by
    rw [hg.enclosing globalScope hw.inhabited]
    exact hw.globals
  inhabited := Nat.lt_of_lt_of_le hw.inhabited hg.size
  bindings s x v hb :=
    (hbindings s x v hb).elim (fun h => (hw.bindings s x v h).mono hg) id
  fields a fs x v hf hx := by
    rcases hfields a fs x v hf hx with ⟨old, hold, hv⟩ | hv
    · exact (hw.fields a old x v hold hv).mono hg
    · exact hv
  origins := horigins
  exist := hexist
  declared := hdeclared
  moments m hm :=
    (hmoments m hm).elim (fun h => (hw.moments m h).mono hg.programs hg.calls) id

/-! ## Scopes -/

/-- A new scope inside another. -/
def create (w : World) (enclosing : ScopeRef) : World :=
  { w with machine := { w.machine with scopes := (w.scopes.create (some enclosing)).2 } }

theorem grows_create (w : World) (enclosing : ScopeRef) :
    w.Grows t (w.create enclosing) :=
  { Grows.refl (t := t) w with
    size := Nat.le_of_lt (Scopes.lt_size_create _)
    enclosing := fun _ hs => Scopes.enclosing?_create_old _ hs }

theorem Sound.create (hw : w.Sound) (enclosing : ScopeRef) : (w.create enclosing).Sound := by
  have hg : w.Grows [] (w.create enclosing) := grows_create w enclosing
  refine hw.grow hg ?_ (fun _ fs _ _ hf hx => .inl ⟨fs, hf, hx⟩) hw.origins ?_ ?_
    (fun _ hm => .inl hm)
  · intro s x v hb
    refine .inl ?_
    rw [← Scopes.binding?_create (some enclosing)]
    exact hb
  · exact fun s x hd => Nat.lt_of_lt_of_le (hw.exist s x hd) hg.size
  · intro hs s x hd
    have := hw.declared hs s x hd
    unfold Scopes.Declares at this ⊢
    show ((w.scopes.create _).2.binding? s x).isSome = true
    rw [Scopes.binding?_create]
    exact this

/-- A new scope stands for a new static scope, once its names are defined. -/
theorem Mirrors.inner {v c : Visit} {scope : ScopeRef} {statics : List StaticScope}
    {names : StaticScope} (hm : w.Mirrors v scope statics) (hc : v.Leads c)
    (hg : (w.create scope).Grows [w.scopes.size] w')
    (hn : ∀ x : String, x ∈ names → names[x]? = some true ∧ w'.defined w.scopes.size x) :
    w'.Mirrors c w.scopes.size (names :: statics) := by
  have hall : w.Grows [w.scopes.size] w' := (w.grows_create scope).trans hg
  refine ⟨⟨fun x hx => ?_, fun x hx => ?_⟩, scope, ?_, (hm.mono hall).leads hc⟩
  · exact (hn x (Std.TreeMap.mem_iff_isSome_getElem?.2 (by rw [hx]; rfl))).2
  · have := (hn x (Std.TreeMap.mem_iff_isSome_getElem?.2 (by rw [hx]; rfl))).1
    rw [hx] at this
    cases this
  · rw [hg.enclosing]
    · exact Scopes.enclosing?_create_new _
    · exact Scopes.lt_size_create _

/-- A scope binds a name.  It may thereby become defined. -/
def define (w : World) (scope : ScopeRef) (name : String) (value : Option Value)
    (declares : Prop) : World :=
  { w with
    machine := { w.machine with scopes := w.scopes.define scope name value }
    defined := fun s x => w.defined s x ∨ declares ∧ s = scope ∧ x = name }

theorem grows_define (w : World) (scope : ScopeRef) (name : String) (value : Option Value)
    {declares : Prop} (ht : declares → scope ∈ t) :
    w.Grows t (w.define scope name value declares) :=
  { Grows.refl (t := t) w with
    size := Nat.le_of_eq Scopes.size_define.symm
    enclosing := fun _ _ => Scopes.enclosing?_define
    defined := fun _ _ hd => .inl hd
    untouched := by
      rintro s x hs hn (hd | ⟨hp, rfl, rfl⟩)
      · exact hd
      · exact absurd (ht hp) hn }

theorem Sound.define (hw : w.Sound) {scope : ScopeRef} {name : String} {value : Option Value}
    {declares : Prop} (hs : scope < w.scopes.size)
    (hv : ∀ v ∈ value, (w.define scope name value declares).Knows v) :
    (w.define scope name value declares).Sound := by
  have hg : w.Grows [scope] (w.define scope name value declares) :=
    grows_define w scope name value (by simp)
  refine hw.grow hg ?_ (fun _ fs _ _ hf hx => .inl ⟨fs, hf, hx⟩) hw.origins ?_ ?_
    (fun _ hm => .inl hm)
  · intro s x v hb
    replace hb : (w.scopes.define scope name value).binding? s x = some (some v) := hb
    rw [Scopes.binding?_define hs] at hb
    split at hb
    · exact .inr (hv v (Option.some.inj hb))
    · exact .inl hb
  · rintro s x (hd | ⟨-, rfl, rfl⟩)
    · exact Nat.lt_of_lt_of_le (hw.exist s x hd) hg.size
    · exact Nat.lt_of_lt_of_le hs hg.size
  · intro hstrict s x hd
    show ((w.scopes.define scope name value).binding? s x).isSome = true
    rw [Scopes.binding?_define hs]
    rcases hd with hd | ⟨-, rfl, rfl⟩
    · split
      · rfl
      · exact hw.declared hstrict s x hd
    · simp

/-- Names of a scope become defined without being bound, as the walk has it that leaves
no branch out. -/
def mark (w : World) (scope : ScopeRef) (names : String → Prop) : World :=
  { w with defined := fun s x => w.defined s x ∨ s = scope ∧ names x }

theorem grows_mark (w : World) {scope : ScopeRef} (names : String → Prop) (ht : scope ∈ t) :
    w.Grows t (w.mark scope names) :=
  { Grows.refl (t := t) w with
    defined := fun _ _ hd => .inl hd
    untouched := by
      rintro s x hs hn (hd | ⟨rfl, -⟩)
      · exact hd
      · exact absurd ht hn }

theorem Sound.mark (hw : w.Sound) {scope : ScopeRef} {names : String → Prop}
    (hs : scope < w.scopes.size)
    (hn : w.Strict → ∀ x, names x → w.scopes.Declares scope x) :
    (w.mark scope names).Sound := by
  have hg : w.Grows [scope] (w.mark scope names) := grows_mark w names (by simp)
  refine hw.grow hg (fun _ _ _ hb => .inl hb) (fun _ fs _ _ hf hx => .inl ⟨fs, hf, hx⟩)
    hw.origins ?_ ?_ (fun _ hm => .inl hm)
  · rintro s x (hd | ⟨rfl, -⟩)
    · exact hw.exist s x hd
    · exact hs
  · rintro hstrict s x (hd | ⟨rfl, hx⟩)
    · exact hw.declared hstrict s x hd
    · exact hn hstrict x hx

/-! ## Objects -/

/-- A function or a class is made from a declaration at a spot. -/
def make (w : World) (spot : Spot) : World :=
  { w with
    machine := { w.machine with identities := w.machine.identities + 1 }
    journal := { w.journal with origins := w.journal.origins.push spot } }

theorem grows_make (w : World) (spot : Spot) : w.Grows t (w.make spot) :=
  { Grows.refl (t := t) w with
    origins := by
      intro i s hi
      show (w.journal.origins.push spot)[i]? = some s
      rw [Array.getElem?_push_lt (Array.getElem?_eq_some_iff.1 hi).1,
        ← Array.getElem?_eq_getElem]
      exact hi }

theorem Sound.make (hw : w.Sound) (spot : Spot) : (w.make spot).Sound := by
  refine hw.grow (grows_make (t := []) w spot) (fun _ _ _ hb => .inl hb)
    (fun _ fs _ _ hf hx => .inl ⟨fs, hf, hx⟩) ?_ hw.exist hw.declared (fun _ hm => .inl hm)
  show (w.journal.origins.push spot).size = w.machine.identities + 1
  rw [Array.size_push, hw.origins]

theorem Sound.origin_make (hw : w.Sound) (spot : Spot) :
    (w.make spot).journal.origins[w.machine.identities]? = some spot := by
  rw [← hw.origins]
  exact Array.getElem?_push_size

/-- An instance without fields. -/
def addObject (w : World) : World :=
  { w with machine := { w.machine with fields := w.machine.fields.push ∅ } }

theorem grows_addObject (w : World) : w.Grows t w.addObject :=
  { Grows.refl (t := t) w with }

theorem Sound.addObject (hw : w.Sound) : w.addObject.Sound := by
  refine hw.grow (grows_addObject (t := []) w) (fun _ _ _ hb => .inl hb) ?_ hw.origins hw.exist
    hw.declared (fun _ hm => .inl hm)
  intro a fs x v hf hx
  replace hf : (w.machine.fields.push ∅)[a]? = some fs := hf
  rw [Array.getElem?_push] at hf
  split at hf
  · cases hf
    simp at hx
  · exact .inl ⟨fs, hf, hx⟩

/-- A field of an instance has a value. -/
def setField (w : World) (address : InstanceRef) (name : String) (value : Value) : World :=
  { w with machine := { w.machine with
      fields := w.machine.fields.modify address (fun fields => fields.insert name value) } }

theorem grows_setField (w : World) (address : InstanceRef) (name : String) (value : Value) :
    w.Grows t (w.setField address name value) :=
  { Grows.refl (t := t) w with }

theorem Sound.setField (hw : w.Sound) (address : InstanceRef) (name : String) {value : Value}
    (hv : w.Knows value) : (w.setField address name value).Sound := by
  have hg : w.Grows [] (w.setField address name value) := grows_setField w address name value
  refine hw.grow hg (fun _ _ _ hb => .inl hb) ?_ hw.origins hw.exist
    hw.declared (fun _ hm => .inl hm)
  intro a fs x v hf hx
  replace hf : (w.machine.fields.modify address _)[a]? = some fs := hf
  rw [Array.getElem?_modify] at hf
  split at hf
  · obtain ⟨old, hold, rfl⟩ := Option.map_eq_some_iff.1 hf
    rw [Std.TreeMap.getElem?_insert] at hx
    split at hx
    · cases hx
      exact .inr (hv.mono hg)
    · exact .inl ⟨old, hold, hx⟩
  · exact .inl ⟨fs, hf, hx⟩

/-! ## Journal and print target -/

/-- A node is executed in a frame. -/
def enter (w : World) (frame : Frame) (node : Node) : World :=
  { w with
    journal := { w.journal with
      moments := { frame, node, scopes := w.scopes } :: w.journal.moments } }

theorem grows_enter (w : World) (frame : Frame) (node : Node) :
    w.Grows t (w.enter frame node) :=
  { Grows.refl (t := t) w with }

theorem Sound.enter (hw : w.Sound) {frame : Frame} {node : Node}
    (hm : Moment.Good w.programs w.journal.hostCalls { frame, node, scopes := w.scopes }) :
    (w.enter frame node).Sound := by
  refine hw.grow (grows_enter (t := []) w frame node) (fun _ _ _ hb => .inl hb)
    (fun _ fs _ _ hf hx => .inl ⟨fs, hf, hx⟩) hw.origins hw.exist hw.declared ?_
  intro m hmem
  rcases List.mem_cons.1 hmem with rfl | hmem
  · exact .inr hm
  · exact .inl hmem

/-- A host function calls a value. -/
def note (w : World) (call : HostCall) : World :=
  { w with journal := { w.journal with hostCalls := call :: w.journal.hostCalls } }

theorem grows_note (w : World) (call : HostCall) : w.Grows t (w.note call) :=
  { Grows.refl (t := t) w with calls := fun _ hc => List.mem_cons_of_mem _ hc }

theorem Sound.note (hw : w.Sound) (call : HostCall) : (w.note call).Sound := by
  have hg : w.Grows [] (w.note call) := grows_note w call
  exact hw.grow hg (fun _ _ _ hb => .inl hb) (fun _ fs _ _ hf hx => .inl ⟨fs, hf, hx⟩)
    hw.origins hw.exist (fun hs => hw.declared (Strict.anti hg hs)) (fun _ hm => .inl hm)

/-- The print target changes. -/
def print (w : World) (sink : Sink) : World :=
  { w with machine := { w.machine with sink } }

theorem grows_print (w : World) (sink : Sink) : w.Grows t (w.print sink) :=
  { Grows.refl (t := t) w with }

theorem Sound.print (hw : w.Sound) (sink : Sink) : (w.print sink).Sound :=
  hw.grow (grows_print (t := []) w sink) (fun _ _ _ hb => .inl hb)
    (fun _ fs _ _ hf hx => .inl ⟨fs, hf, hx⟩) hw.origins hw.exist hw.declared
    (fun _ hm => .inl hm)

/-! ## Steps -/

/-- Broken scopes are excused if they come from a name that the scope at its distance
does not declare, and in strict sessions only if there is a name that is resolved too
early. -/
def Excuses (w : World) (failure : Failure) : Prop :=
  ∀ cause, failure = .broken cause →
    (∃ name distance, cause = .undeclared name distance) ∧
      (w.Strict → ∃ u, Premature w.programs u)

/-- A machine and a journal belong to a sound world that has grown out of `w`. -/
def Reaches (w : World) (t : List ScopeRef) (machine : Machine) (journal : Journal)
    (post : World → Prop) : Prop :=
  ∃ w' : World, w'.programs = w.programs ∧ w'.machine = machine ∧ w'.journal = journal ∧
    w.Grows t w' ∧ w'.Sound ∧ post w'

end World

/-- A step from a world ends in a sound world that has grown, with a result as told, or
in an excused failure, or runs out of fuel; in any case the moments are good. -/
def Ends {α : Type} (t : List ScopeRef) (w : World) (post : α → World → Prop) :
    Outcome α × Journal → Prop
  | (.done value machine, journal) => w.Reaches t machine journal (post value)
  | (.failed failure machine, journal) =>
    w.Reaches t machine journal (fun w' => w'.Excuses failure)
  | (.outOfFuel, journal) =>
    ∀ moment ∈ journal.moments, moment.Good w.programs journal.hostCalls

/-- A step keeps a world sound. -/
def Keeps {α : Type} (t : List ScopeRef) (w : World) (step : Watched α)
    (post : α → World → Prop) : Prop :=
  Ends t w post (step w.journal w.machine)

namespace World.Reaches

variable {w w' : World} {t t' : List ScopeRef} {machine : Machine} {journal : Journal}
  {post post' : World → Prop}

theorem imp (h : w.Reaches t machine journal post)
    (hp : ∀ w', w'.programs = w.programs → w.Grows t w' → w'.Sound → post w' → post' w') :
    w.Reaches t machine journal post' := by
  obtain ⟨w', hprograms, hm, hj, hg, hs, hpost⟩ := h
  exact ⟨w', hprograms, hm, hj, hg, hs, hp w' hprograms hg hs hpost⟩

theorem weaken (h : w.Reaches t machine journal post)
    (ht : ∀ s ∈ t, s < w.scopes.size → s ∈ t') : w.Reaches t' machine journal post := by
  obtain ⟨w', hprograms, hm, hj, hg, hs, hpost⟩ := h
  exact ⟨w', hprograms, hm, hj, hg.weaken ht, hs, hpost⟩

theorem after (h : w'.Reaches t machine journal post) (hp : w'.programs = w.programs)
    (hg : w.Grows t w') : w.Reaches t machine journal post := by
  obtain ⟨w'', hprograms, hm, hj, hg', hs, hpost⟩ := h
  exact ⟨w'', hprograms.trans hp, hm, hj, hg.trans hg', hs, hpost⟩

end World.Reaches

namespace Ends

variable {α : Type} {w w' : World} {t t' : List ScopeRef} {post post' : α → World → Prop}
  {result : Outcome α × Journal}

theorem imp (h : Ends t w post result)
    (hp : ∀ value w', w'.programs = w.programs → w.Grows t w' → w'.Sound → post value w' →
      post' value w') : Ends t w post' result := by
  rcases result with ⟨⟨value, machine⟩ | ⟨failure, machine⟩ | _, journal⟩
  · exact World.Reaches.imp h (hp value)
  · exact h
  · exact h

theorem weaken (h : Ends t w post result) (ht : ∀ s ∈ t, s < w.scopes.size → s ∈ t') :
    Ends t' w post result := by
  rcases result with ⟨⟨value, machine⟩ | ⟨failure, machine⟩ | _, journal⟩
  · exact World.Reaches.weaken h ht
  · exact World.Reaches.weaken h ht
  · exact h

theorem after (h : Ends t w' post result) (hp : w'.programs = w.programs)
    (hg : w.Grows t w') : Ends t w post result := by
  rcases result with ⟨⟨value, machine⟩ | ⟨failure, machine⟩ | _, journal⟩
  · exact World.Reaches.after h hp hg
  · exact World.Reaches.after h hp hg
  · rw [Ends, ← hp]
    exact h

end Ends

namespace Keeps

variable {α β : Type} {w w' : World} {t t' : List ScopeRef}

theorem of_done (w' : World) {step : Watched α} {post : α → World → Prop} {value : α}
    (h : step w.journal w.machine = (.done value w'.machine, w'.journal))
    (hp : w'.programs = w.programs) (hg : w.Grows t w') (hs : w'.Sound)
    (hpost : post value w') : Keeps t w step post := by
  rw [Keeps, h]
  exact ⟨w', hp, rfl, rfl, hg, hs, hpost⟩

theorem of_failed (w' : World) {step : Watched α} {post : α → World → Prop} {failure : Failure}
    (h : step w.journal w.machine = (.failed failure w'.machine, w'.journal))
    (hp : w'.programs = w.programs) (hg : w.Grows t w') (hs : w'.Sound)
    (he : w'.Excuses failure) : Keeps t w step post := by
  rw [Keeps, h]
  exact ⟨w', hp, rfl, rfl, hg, hs, he⟩

theorem pure {post : α → World → Prop} {value : α} (hw : w.Sound) (hpost : post value w) :
    Keeps t w (Pure.pure value) post :=
  of_done w rfl rfl (.refl w) hw hpost

theorem stuck {post : α → World → Prop} (hw : w.Sound) :
    Keeps t w (Watched.lift .stuck) post :=
  hw.moments

theorem fault {post : α → World → Prop} (hw : w.Sound) (token : Token) (cause : RunFault) :
    Keeps t w (Watched.lift (Run.fault token cause)) post :=
  of_failed w rfl rfl (.refl w) hw (by intro cause h; cases h)

theorem imp {step : Watched α} {post post' : α → World → Prop} (h : Keeps t w step post)
    (hp : ∀ value w', w'.programs = w.programs → w.Grows t w' → w'.Sound → post value w' →
      post' value w') : Keeps t w step post' :=
  Ends.imp h hp

theorem weaken {step : Watched α} {post : α → World → Prop} (h : Keeps t w step post)
    (ht : ∀ s ∈ t, s < w.scopes.size → s ∈ t') : Keeps t' w step post :=
  Ends.weaken h ht

/-- A step that touches nothing may stand where a scope may be touched. -/
theorem of_nil {step : Watched α} {post : α → World → Prop} (h : Keeps [] w step post) :
    Keeps t w step fun value w' => w.Grows [] w' ∧ post value w' :=
  (h.imp fun _ _ _ hg _ hpost => ⟨hg, hpost⟩).weaken (by simp)

/-- A step from a world that differs in what is defined only. -/
theorem after {step : Watched α} {post : α → World → Prop} (h : Keeps t w' step post)
    (hp : w'.programs = w.programs) (hm : w'.machine = w.machine)
    (hj : w'.journal = w.journal) (hg : w.Grows t w') : Keeps t w step post := by
  unfold Keeps at h ⊢
  rw [hm, hj] at h
  exact h.after hp hg

theorem bind {first : Watched α} {next : α → Watched β} {middle : α → World → Prop}
    {post : β → World → Prop} (h : Keeps t w first middle)
    (hn : ∀ value w', w'.programs = w.programs → w.Grows t w' → w'.Sound →
      middle value w' → Keeps t w' (next value) post) :
    Keeps t w (first >>= next) post := by
  show Ends t w post (Watched.bind first next w.journal w.machine)
  unfold Keeps at h
  unfold Watched.bind
  generalize first w.journal w.machine = result at h
  rcases result with ⟨⟨value, machine⟩ | ⟨failure, machine⟩ | _, journal⟩
  · obtain ⟨w', hp, rfl, rfl, hg, hs, hm⟩ := h
    exact Ends.after (hn value w' hp hg hs hm) hp hg
  · exact h
  · exact h

theorem lift_bind {first : Run α} {next : α → Run β} {middle : α → World → Prop}
    {post : β → World → Prop} (h : Keeps t w (Watched.lift first) middle)
    (hn : ∀ value w', w'.programs = w.programs → w.Grows t w' → w'.Sound →
      middle value w' → Keeps t w' (Watched.lift (next value)) post) :
    Keeps t w (Watched.lift (first >>= next)) post := by
  have hb := h.bind hn
  show Ends t w post (Run.bind first next w.machine, w.journal)
  replace hb : Ends t w post
    (Watched.bind (Watched.lift first) (fun a => Watched.lift (next a)) w.journal w.machine) := hb
  unfold Watched.bind Watched.lift at hb
  unfold Run.bind
  cases h : first w.machine <;> simpa only [h] using hb

/-- A diagnostic that is caught leaves a sound world behind, like any result. -/
theorem attempt {step : Watched α} {post : α → World → Prop} (h : Keeps t w step post) :
    Keeps t w (Watched.attempt step) fun result w' =>
      ∀ value, result = .ok value → post value w' := by
  unfold Keeps at h ⊢
  unfold Watched.attempt
  generalize step w.journal w.machine = result at h
  rcases result with ⟨⟨value, machine⟩ | ⟨diagnostic | cause, machine⟩ | _, journal⟩
  · refine World.Reaches.imp h fun w' _ _ _ hp value' hv => ?_
    cases hv
    exact hp
  · refine World.Reaches.imp h fun w' _ _ _ _ value' hv => ?_
    cases hv
  · exact h
  · exact h

end Keeps

end TreeScript
