import TreeScript.Proofs.Running.Steps
import TreeScript.Proofs.Tracking.Tracking

/-!
# Print targets with a limit

One run prints to a target that accepts everything, another one to a target that accepts
bytes up to a limit.

* `Machine.limited` — a machine whose target accepts bytes up to a limit
* `Machine.filled` — a machine whose target a line did not fit into
* `Sight.Crosses` — a print statement whose line begins within the limit and ends beyond
* `Run.Quiet` — a step that takes no notice of the target
* `Curbed` — what a step with a record tells about the same step with a limit: both do the
  same if no line crosses the limit; if one does, nothing is printed behind it, and unless a
  host function is behind the print statement the step fails there
* `curbedAt`, `trackProgram_curbed` — evaluation and programs are curbed
-/

namespace TreeScript

open Run.Moves (compositional)

/-! ## Machines with a limit -/

namespace Machine

/-- Replaces the print target. -/
def printingTo (machine : Machine) (sink : Sink) : Machine :=
  { machine with sink }

/-- The machine whose print target accepts bytes up to a limit, those already printed
included. -/
def limited (limit : Nat) (machine : Machine) : Machine :=
  machine.printingTo
    { machine.sink with room := some (limit - machine.sink.printed.size) }

/-- The machine whose print target was filled up to a limit by a line that did not fit. -/
def filled (limit : Nat) (text : String) (machine : Machine) : Machine :=
  machine.printingTo
    { machine.sink with
      printed := machine.sink.printed ++
        (text ++ "\n").toUTF8.extract 0 (limit - machine.sink.printed.size)
      room := some 0 }

end Machine

/-- Replaces the machine that a step hands on. -/
def Outcome.onMachine {α : Type} (change : Machine → Machine) : Outcome α → Outcome α
  | .done value machine => .done value (change machine)
  | .failed failure machine => .failed failure (change machine)
  | .outOfFuel => .outOfFuel

/-- The line of a print statement begins within a limit and ends beyond. -/
def Sight.Crosses (limit : Nat) : Sight → Prop
  | .node .. | .taken .. => False
  | .print _ text machine =>
    machine.sink.printed.size ≤ limit ∧
      limit < machine.sink.printed.size + (text ++ "\n").toUTF8.size

/-! ## Steps that take no notice of the target -/

/-- A step that takes no notice of the print target. -/
structure Run.Quiet {α : Type} (step : Run α) : Prop where
  eq : ∀ machine sink, step (machine.printingTo sink) =
    (step machine).onMachine (·.printingTo sink)

namespace Run.Quiet

variable {α β : Type}

theorem pure (a : α) : Run.Quiet (Pure.pure a : Run α) where
  eq _ _ := rfl

theorem stuck : Run.Quiet (Run.stuck : Run α) where
  eq _ _ := rfl

theorem fault (token : Token) (cause : RunFault) :
    Run.Quiet (Run.fault token cause : Run α) where
  eq _ _ := rfl

theorem bind {p : Run α} {f : α → Run β} (h : p.Quiet) (hn : ∀ a, (f a).Quiet) :
    Run.Quiet (p >>= f) where
  eq machine sink := by
    show Run.bind p f (machine.printingTo sink) = (Run.bind p f machine).onMachine _
    unfold Run.bind
    rw [h.eq machine sink]
    cases p machine with
    | done a m => exact (hn a).eq m sink
    | failed _ _ => rfl
    | outOfFuel => rfl

theorem newScope (enclosing : ScopeRef) : (Run.newScope enclosing).Quiet where
  eq _ _ := rfl

theorem define (scope : ScopeRef) (name : String) (value : Option Value) :
    (Run.define scope name value).Quiet where
  eq _ _ := rfl

theorem holder (distance? : Option Nat) (scope : ScopeRef) (name : Token) :
    (Run.holder distance? scope name).Quiet where
  eq machine sink := by
    simp only [Run.holder, Machine.printingTo]
    split <;> rfl

theorem readName (distance? : Option Nat) (scope : ScopeRef) (name : Token) :
    (Run.readName distance? scope name).Quiet := by
  refine (holder distance? scope name).bind fun found => ⟨fun machine sink => ?_⟩
  simp only [Machine.printingTo]
  split <;> rfl

theorem writeName (distance? : Option Nat) (scope : ScopeRef) (name : Token) (value : Value) :
    (Run.writeName distance? scope name value).Quiet :=
  (holder distance? scope name).bind fun _ => define ..

theorem defineAll (scope : ScopeRef) (parameters : List Token) (arguments : List Value) :
    (Run.defineAll scope parameters arguments).Quiet := by
  induction parameters generalizing arguments with
  | nil => exact pure ()
  | cons parameter parameters ih =>
    cases arguments with
    | nil => exact pure ()
    | cons argument arguments => exact (define ..).bind fun _ => ih arguments

theorem newIdentity : Run.newIdentity.Quiet where
  eq _ _ := rfl

theorem newClosure (scope : ScopeRef) (declaration : FunctionDecl) :
    (Run.newClosure scope declaration).Quiet :=
  newIdentity.bind fun _ => pure _

theorem newClass (scope : ScopeRef) (name : String) (methods : List FunctionDecl) :
    (Run.newClass scope name methods).Quiet :=
  newIdentity.bind fun _ => pure _

theorem newObject (ofClass : ClassObject) : (Run.newObject ofClass).Quiet where
  eq _ _ := rfl

theorem field? (address : InstanceRef) (name : String) : (Run.field? address name).Quiet where
  eq _ _ := rfl

theorem setField (address : InstanceRef) (name : String) (value : Value) :
    (Run.setField address name value).Quiet where
  eq _ _ := rfl

theorem bindMethod (address : InstanceRef) (ofClass : ClassObject)
    (declaration : FunctionDecl) : (Run.bindMethod address ofClass declaration).Quiet :=
  (newScope _).bind fun _ => (define ..).bind fun _ => newClosure ..

theorem ofOperator (operator : Token) (result : Except RunFault Value) :
    (Run.ofOperator operator result).Quiet := by
  cases result with
  | ok value => exact pure value
  | error cause => exact fault operator cause

/-- The target is the same afterwards. -/
theorem sink_eq {p : Run α} (h : p.Quiet) {machine m : Machine}
    (hm : m ∈ (p machine).machine?) : m.sink = machine.sink := by
  have hp := h.eq machine machine.sink
  change p machine = _ at hp
  cases hr : p machine with
  | outOfFuel =>
    rw [hr] at hm
    cases hm
  | done a m' =>
    rw [hr] at hp hm
    cases hm
    injection hp with _ hp
    rw [hp]
    rfl
  | failed f m' =>
    rw [hr] at hp hm
    cases hm
    injection hp with _ hp
    rw [hp]
    rfl

/-- The step does the same with a limit. -/
theorem limited {p : Run α} (h : p.Quiet) (limit : Nat) (machine : Machine) :
    p (machine.limited limit) = (p machine).onMachine (Machine.limited limit) := by
  have hs : ∀ m ∈ (p machine).machine?, m.sink = machine.sink := fun _ => h.sink_eq
  rw [Machine.limited, h.eq]
  cases hr : p machine with
  | outOfFuel => rfl
  | done a m' | failed f m' =>
    have hm := hs m' (by rw [hr]; rfl)
    simp only [Outcome.onMachine, Machine.limited, hm]

end Run.Quiet

/-! ## Full targets -/

/-- Nothing more is printed to a full target. -/
theorem Machine.Reaches.sink_of_full {m m' : Machine} (h : m.Reaches m')
    (hm : m.sink.room = some 0) : m'.sink = m.sink := by
  induction h with
  | refl => rfl
  | @tail m₁ m₂ _ hs ih =>
    cases hs with
    | print text =>
      have hroom : m₁.sink.room = some 0 := by rw [ih, hm]
      rw [← ih]
      simp only [Sink.write, Sink.writeBytes, hroom]
      split
      · rename_i hsize
        have hnone : text.toUTF8 = .empty := by
          rw [← ByteArray.size_eq_zero_iff]
          exact Nat.le_zero.1 hsize
        rw [hnone, ByteArray.append_empty]
        simp [← hroom]
      · simp [← hroom]
    | _ => exact ih

theorem Machine.Reaches.printed_le {m m' : Machine} (h : m.Reaches m') :
    m.sink.printed.size ≤ m'.sink.printed.size := by
  obtain ⟨more, hm⟩ := h.printed
  rw [hm, ByteArray.size_append]
  exact Nat.le_add_right ..

/-! ## A step and the same step with a limit -/

section

variable {α β : Type}

/-- No line crosses the limit: with the limit the step does the same. -/
structure Fits (limit : Nat) (record : Record) (result : Outcome α × Record)
    (curbed : Outcome α) : Prop where
  same : curbed = result.1.onMachine (Machine.limited limit)
  roomy : ∀ m ∈ result.1.machine?, m.sink.room = none ∧ m.sink.printed.size ≤ limit
  sights : ∀ sight ∈ result.2.sights, sight.Crosses limit → sight ∈ record.sights

/-- The line of a print statement crosses the limit.  With the limit nothing is printed
behind it, and unless a host function is behind the print statement the step fails there. -/
structure Overflows (limit : Nat) (hosted : Bool) (record : Record)
    (result : Outcome α × Record) (curbed : Outcome α) (situation : Situation) (text : String)
    (machine : Machine) : Prop where
  crosses : (Sight.print situation text machine).Crosses limit
  seen : .print situation text machine ∈ result.2.sights
  only : ∀ sight ∈ result.2.sights, sight.Crosses limit →
    sight ∈ record.sights ∨ sight = .print situation text machine
  hosted : hosted = true → situation.hosted = true
  printed : ∀ m ∈ result.1.machine?, ∃ more,
    m.sink.printed = machine.sink.printed ++ (text ++ "\n").toUTF8 ++ more
  sink : ∀ m ∈ curbed.machine?, m.sink = (machine.filled limit text).sink
  stops : situation.hosted = false →
    curbed = .failed (.diagnosed (.output .closed)) (machine.filled limit text)

/-- What a step with a record tells about the same step with a limit.  If it is `hosted`, a
host function is behind all its print statements. -/
structure Curbed (limit : Nat) (hosted : Bool) (noting : Noting Record α) (step : Run α) :
    Prop where
  shadows : Noting.Shadows noting step
  moves : step.Moves
  grows : ∀ record machine, record.sights ⊆ (noting record machine).2.sights
  late : ∀ record machine, limit < machine.sink.printed.size →
    ∀ sight ∈ (noting record machine).2.sights, sight.Crosses limit → sight ∈ record.sights
  early : ∀ record machine, machine.sink.room = none → machine.sink.printed.size ≤ limit →
    Fits limit record (noting record machine) (step (machine.limited limit)) ∨
      ∃ situation text place, Overflows limit hosted record (noting record machine)
        (step (machine.limited limit)) situation text place

/-- A step that follows finds a full target, and leaves it so. -/
theorem keeps_full {step : Run α} {rest : α → Run β} {machine : Machine} {sink : Sink}
    (hfull : sink.room = some 0) (h : ∀ m ∈ (step machine).machine?, m.sink = sink)
    (hrest : ∀ a, (rest a).Moves) :
    ∀ m ∈ ((step >>= rest) machine).machine?, m.sink = sink := by
  intro m hm
  change m ∈ (Run.bind step rest machine).machine? at hm
  unfold Run.bind at hm
  cases hr : step machine with
  | done a m' =>
    rw [hr] at hm h
    have hsink := h m' rfl
    rw [((hrest a).reaches m' m hm).sink_of_full (by rw [hsink, hfull]), hsink]
  | failed failure m' =>
    rw [hr] at hm h
    exact h m hm
  | outOfFuel =>
    rw [hr] at hm
    cases hm

theorem fails_bind {step : Run α} {machine m : Machine} {failure : Failure}
    (h : step machine = .failed failure m) (rest : α → Run β) :
    (step >>= rest) machine = .failed failure m := by
  show Run.bind step rest machine = _
  unfold Run.bind
  rw [h]

theorem record_attempt (noting : Noting Record α) (record : Record) (machine : Machine) :
    (Noting.attempt noting record machine).2 = (noting record machine).2 := by
  unfold Noting.attempt
  rcases noting record machine with ⟨_ | ⟨_ | _, _⟩ | _, record'⟩ <;> rfl

theorem Run.machine?_attempt (step : Run α) (machine : Machine) :
    (Run.attempt step machine).machine? = (step machine).machine? := by
  unfold Run.attempt
  rcases step machine with _ | ⟨_ | _, _⟩ | _ <;> rfl

theorem machine?_attempt (noting : Noting Record α) (record : Record) (machine : Machine) :
    (Noting.attempt noting record machine).1.machine? = (noting record machine).1.machine? := by
  unfold Noting.attempt
  rcases noting record machine with ⟨_ | ⟨_ | _, _⟩ | _, record'⟩ <;> rfl

/-! ## Printing -/

/-- A target without limit accepts every line. -/
theorem print_unlimited (text : String) {machine : Machine}
    (hroom : machine.sink.room = none) :
    Run.print text machine = .done () (machine.printingTo
      { machine.sink with printed := machine.sink.printed ++ (text ++ "\n").toUTF8 }) := by
  obtain ⟨scopes, fields, identities, printed, room, flushFails⟩ := machine
  cases hroom
  rfl

/-- A line that ends within the limit is accepted. -/
theorem print_limited (text : String) {limit : Nat} {machine : Machine}
    (hfit : machine.sink.printed.size + (text ++ "\n").toUTF8.size ≤ limit) :
    Run.print text (machine.limited limit) = .done () ((machine.printingTo
      { machine.sink with
        printed := machine.sink.printed ++ (text ++ "\n").toUTF8 }).limited limit) := by
  have hle : (text ++ "\n").toUTF8.size ≤ limit - machine.sink.printed.size := by omega
  have hroom : limit - machine.sink.printed.size - (text ++ "\n").toUTF8.size =
      limit - (machine.sink.printed ++ (text ++ "\n").toUTF8).size := by
    rw [ByteArray.size_append]
    omega
  simp only [Run.print, Sink.write, Sink.writeBytes, Machine.limited, Machine.printingTo,
    if_pos hle, hroom]

/-- A line that does not end within the limit fills the target. -/
theorem print_filled (text : String) {limit : Nat} {machine : Machine}
    (hsize : machine.sink.printed.size ≤ limit)
    (hcross : limit < machine.sink.printed.size + (text ++ "\n").toUTF8.size) :
    Run.print text (machine.limited limit) =
      .failed (.diagnosed (.output .closed)) (machine.filled limit text) := by
  have hlt : ¬(text ++ "\n").toUTF8.size ≤ limit - machine.sink.printed.size := by omega
  simp only [Run.print, Sink.write, Sink.writeBytes, Machine.limited, Machine.filled,
    Machine.printingTo, if_neg hlt]

namespace Curbed

variable {limit : Nat} {hosted : Bool}

theorem of_quiet {noting : Noting Record α} {step : Run α} (hs : Noting.Shadows noting step)
    (hm : step.Moves) (hq : step.Quiet)
    (hsights : ∀ record machine, (noting record machine).2.sights = record.sights) :
    Curbed limit hosted noting step where
  shadows := hs
  moves := hm
  grows record machine := by rw [hsights]; exact fun _ h => h
  late record machine _ sight h _ := by rwa [hsights] at h
  early record machine hroom hsize := by
    refine .inl ⟨?_, fun m hmem => ?_, fun sight h _ => by rwa [hsights] at h⟩
    · rw [hs record machine, hq.limited]
    · rw [hs record machine] at hmem
      rw [hq.sink_eq hmem]
      exact ⟨hroom, hsize⟩

theorem lift {step : Run α} (hm : step.Moves) (hq : step.Quiet) :
    Curbed limit hosted (Noting.lift step) step :=
  .of_quiet (.lift step) hm hq fun _ _ => rfl

theorem making {step : Run α} (birth : Birth) (hm : step.Moves) (hq : step.Quiet) :
    Curbed limit hosted (Record.making birth step) step :=
  .of_quiet (Record.making_shadows birth step) hm hq fun _ _ => rfl

theorem pure (a : α) : Curbed limit hosted (Pure.pure a) (Pure.pure a) :=
  .of_quiet (.pure a) (.pure a) (.pure a) fun _ _ => rfl

/-- What happens in the calls of host functions happens. -/
theorem weaken {noting : Noting Record α} {step : Run α} (h : Curbed limit true noting step) :
    Curbed limit hosted noting step where
  shadows := h.shadows
  moves := h.moves
  grows := h.grows
  late := h.late
  early record machine hroom hsize := by
    refine (h.early record machine hroom hsize).imp id ?_
    rintro ⟨situation, text, place, ho⟩
    exact ⟨situation, text, place, { ho with hosted := fun _ => ho.hosted rfl }⟩

/-- A sight that is no line. -/
theorem seen {sight : Machine → Sight} (hn : ∀ machine, ¬(sight machine).Crosses limit)
    {next : Noting Record β} {rest : Run β} (h : Curbed limit hosted next rest) :
    Curbed limit hosted
      (Noting.note (fun record machine => record.see (sight machine)) >>= fun _ => next) rest where
  shadows := .noted h.shadows
  moves := h.moves
  grows record machine := fun _ hs =>
    h.grows (record.see (sight machine)) machine (List.mem_cons_of_mem _ hs)
  late record machine hsize other hs hc := by
    have hmem := h.late (record.see (sight machine)) machine hsize other hs hc
    rcases List.mem_cons.1 hmem with rfl | hmem
    · exact absurd hc (hn machine)
    · exact hmem
  early record machine hroom hsize := by
    have hold : ∀ other : Sight, other.Crosses limit →
        other ∈ (record.see (sight machine)).sights → other ∈ record.sights := by
      intro other hc hmem
      rcases List.mem_cons.1 hmem with rfl | hmem
      · exact absurd hc (hn machine)
      · exact hmem
    rcases h.early (record.see (sight machine)) machine hroom hsize with
      hf | ⟨situation, text, place, ho⟩
    · exact .inl ⟨hf.same, hf.roomy, fun other hs hc => hold other hc (hf.sights other hs hc)⟩
    · exact .inr ⟨situation, text, place,
        { ho with only := fun other hs hc => (ho.only other hs hc).imp_left (hold other hc) }⟩

theorem enter {situation : Situation} {node : Node} {next : Noting Record β} {rest : Run β}
    (h : Curbed limit hosted next rest) :
    Curbed limit hosted (Record.enter situation node >>= fun _ => next) rest :=
  .seen (fun _ => id) h

theorem look {find : Record → α} {next : α → Noting Record β} {rest : Run β}
    (h : ∀ a, Curbed limit hosted (next a) rest) :
    Curbed limit hosted (Noting.look find >>= next) rest where
  shadows := .looked fun a => (h a).shadows
  moves := (h (find .empty)).moves
  grows record machine := (h (find record)).grows record machine
  late record machine := (h (find record)).late record machine
  early record machine := (h (find record)).early record machine

theorem bind {noting : Noting Record α} {step : Run α} {next : α → Noting Record β}
    {rest : α → Run β} (h : Curbed limit hosted noting step)
    (hn : ∀ a, Curbed limit hosted (next a) (rest a)) :
    Curbed limit hosted (noting >>= next) (step >>= rest) where
  shadows := h.shadows.bind fun a => (hn a).shadows
  moves := h.moves.bind fun a => (hn a).moves
  grows record machine := by
    have hp := h.grows record machine
    show record.sights ⊆ (Noting.bind noting next record machine).2.sights
    unfold Noting.bind
    generalize noting record machine = result at hp ⊢
    rcases result with ⟨⟨a, m⟩ | _ | _, record'⟩
    · exact List.Subset.trans hp ((hn a).grows record' m)
    · exact hp
    · exact hp
  late record machine hsize := by
    have hp := h.late record machine hsize
    have hreach := h.moves.reaches machine
    rw [← h.shadows record machine] at hreach
    show ∀ sight ∈ (Noting.bind noting next record machine).2.sights, _
    unfold Noting.bind
    generalize noting record machine = result at hp hreach ⊢
    rcases result with ⟨⟨a, m⟩ | _ | _, record'⟩
    · have hm : limit < m.sink.printed.size :=
        Nat.lt_of_lt_of_le hsize (hreach m rfl).printed_le
      exact fun sight hs hc => hp sight ((hn a).late record' m hm sight hs hc) hc
    · exact hp
    · exact hp
  early record machine hroom hsize := by
    show Fits limit record (Noting.bind noting next record machine)
        (Run.bind step rest (machine.limited limit)) ∨
      ∃ situation text place, Overflows limit hosted record
        (Noting.bind noting next record machine)
        (Run.bind step rest (machine.limited limit)) situation text place
    rcases h.early record machine hroom hsize with hf | ⟨situation, text, place, ho⟩
    · obtain ⟨hsame, hroomy, hsights⟩ := hf
      unfold Noting.bind Run.bind
      rw [hsame]
      generalize noting record machine = result at hroomy hsights ⊢
      rcases result with ⟨⟨a, m⟩ | ⟨f, m⟩ | _, record'⟩
      · obtain ⟨hroom', hsize'⟩ := hroomy m rfl
        rcases (hn a).early record' m hroom' hsize' with hf | ⟨situation, text, place, ho⟩
        · exact .inl ⟨hf.same, hf.roomy, fun sight hs hc =>
            hsights sight (hf.sights sight hs hc) hc⟩
        · exact .inr ⟨situation, text, place, { ho with
            only := fun sight hs hc =>
              (ho.only sight hs hc).imp_left fun hmem => hsights sight hmem hc }⟩
      · exact .inl ⟨rfl, hroomy, hsights⟩
      · exact .inl ⟨rfl, hroomy, hsights⟩
    · -- nothing crosses the limit a second time, and nothing is printed behind it
      have hsink := keeps_full rfl ho.sink fun a => (hn a).moves
      have hstops := fun hhosted => fails_bind (ho.stops hhosted) rest
      refine .inr ⟨situation, text, place, ?_⟩
      obtain ⟨hcrosses, hseen, honly, hhosted, hprinted, -, -⟩ := ho
      unfold Noting.bind
      generalize noting record machine = result at hseen honly hprinted ⊢
      rcases result with ⟨⟨a, m⟩ | ⟨f, m⟩ | _, record'⟩
      · obtain ⟨more, hmore⟩ := hprinted m rfl
        have hlt : limit < m.sink.printed.size := by
          rw [hmore, ByteArray.size_append, ByteArray.size_append]
          exact Nat.lt_of_lt_of_le hcrosses.2 (Nat.le_add_right ..)
        refine ⟨hcrosses, (hn a).grows record' m hseen, fun sight hs hc =>
          honly sight ((hn a).late record' m hlt sight hs hc) hc, hhosted, ?_, hsink, hstops⟩
        intro m' hm'
        simp only [(hn a).shadows record' m] at hm'
        obtain ⟨more', hmore'⟩ := ((hn a).moves.reaches m m' hm').printed
        exact ⟨more ++ more', by rw [hmore', hmore, ByteArray.append_assoc]⟩
      · exact ⟨hcrosses, hseen, honly, hhosted, hprinted, hsink, hstops⟩
      · exact ⟨hcrosses, hseen, honly, hhosted, hprinted, hsink, hstops⟩

/-- Only a host function catches what stops a call. -/
theorem attempt {noting : Noting Record α} {step : Run α}
    (h : Curbed limit true noting step) :
    Curbed limit true (Noting.attempt noting) (Run.attempt step) where
  shadows := h.shadows.attempt
  moves := h.moves.attempt
  grows record machine := by
    rw [record_attempt]
    exact h.grows record machine
  late record machine hsize := by
    rw [record_attempt]
    exact h.late record machine hsize
  early record machine hroom hsize := by
    rcases h.early record machine hroom hsize with hf | ⟨situation, text, place, ho⟩
    · refine .inl ⟨?_, ?_, ?_⟩
      · unfold Noting.attempt Run.attempt
        rw [hf.same]
        rcases noting record machine with ⟨_ | ⟨_ | _, _⟩ | _, record'⟩ <;> rfl
      · rw [machine?_attempt]
        exact hf.roomy
      · rw [record_attempt]
        exact hf.sights
    · refine .inr ⟨situation, text, place, ho.crosses, ?_, ?_, ho.hosted, ?_, ?_, ?_⟩
      · rw [record_attempt]
        exact ho.seen
      · rw [record_attempt]
        exact ho.only
      · rw [machine?_attempt]
        exact ho.printed
      · rw [Run.machine?_attempt]
        exact ho.sink
      · intro hhosted
        rw [ho.hosted rfl] at hhosted
        cases hhosted

/-- A line is printed. -/
theorem print (situation : Situation) (text : String)
    (hh : hosted = true → situation.hosted = true) :
    Curbed limit hosted (Record.print situation text) (Run.print text) where
  shadows := Record.print_shadows situation text
  moves := .print text
  grows _ _ := List.subset_cons_self ..
  late record machine hsize sight hs hc := by
    rcases List.mem_cons.1 hs with rfl | hs
    · exact absurd hc.1 (Nat.not_le.2 hsize)
    · exact hs
  early record machine hroom hsize := by
    have hseen : Sight.print situation text machine ∈
        (Record.print situation text record machine).2.sights := List.mem_cons_self
    have hrecord : ∀ sight ∈ (Record.print situation text record machine).2.sights,
        sight = .print situation text machine ∨ sight ∈ record.sights :=
      fun sight hs => List.mem_cons.1 hs
    have hopen := print_unlimited text hroom
    by_cases hfit : machine.sink.printed.size + (text ++ "\n").toUTF8.size ≤ limit
    · refine .inl ⟨?_, ?_, ?_⟩
      · rw [Record.print_shadows, hopen]
        exact print_limited text hfit
      · intro m hm
        rw [Record.print_shadows, hopen] at hm
        cases hm
        exact ⟨hroom, by simpa [Machine.printingTo] using hfit⟩
      · intro sight hs hc
        refine (hrecord sight hs).resolve_left ?_
        rintro rfl
        exact absurd hc.2 (Nat.not_lt.2 hfit)
    · have hclosed := print_filled text hsize (Nat.lt_of_not_le hfit)
      refine .inr ⟨situation, text, machine, ⟨hsize, Nat.lt_of_not_le hfit⟩, hseen, ?_, hh,
        ?_, ?_, fun _ => hclosed⟩
      · exact fun sight hs _ => (hrecord sight hs).symm
      · intro m hm
        rw [Record.print_shadows, hopen] at hm
        cases hm
        exact ⟨.empty, by simp [Machine.printingTo]⟩
      · intro m hm
        rw [hclosed] at hm
        cases hm
        rfl

/-- The target is flushed. -/
theorem flush : Curbed limit hosted (Noting.lift Run.flush) Run.flush where
  shadows := .lift _
  moves := .flush
  grows _ _ := fun _ h => h
  late _ _ _ _ hs _ := hs
  early record machine hroom hsize := by
    refine .inl ⟨?_, ?_, fun _ hs _ => hs⟩
    · show Run.flush (machine.limited limit) = (Run.flush machine).onMachine _
      have hflush : (machine.limited limit).sink.flush = machine.sink.flush := rfl
      simp only [Run.flush, hflush]
      cases machine.sink.flush <;> rfl
    · show ∀ m ∈ (Run.flush machine).machine?, _
      simp only [Run.flush]
      split <;> rintro m ⟨⟩ <;> exact ⟨hroom, hsize⟩

/-- The property of an instance. -/
theorem property (address : InstanceRef) (ofClass : ClassObject) (name : Token) :
    Curbed limit hosted (Record.property address ofClass name)
      (Run.property address ofClass name) := by
  refine .bind (.lift (.field? ..) (.field? ..)) fun found => ?_
  cases found with
  | some value => exact .pure value
  | none =>
    simp only
    cases ofClass.methods[name.lexeme]? with
    | some method =>
      exact .seen (fun _ => id) (.look fun birth => .making _ (compositional.bindMethod ..)
        (.bindMethod ..))
    | none => exact .lift (.fault ..) (.fault ..)

end Curbed

end

/-! ## Evaluation -/

/-- Evaluation is curbed, at one amount of fuel. -/
structure CurbedAt (limit : Nat) (setting : Setting) (fuel : Nat) : Prop where
  evaluate : ∀ situation e, Curbed limit situation.hosted
    (trackEvaluate setting fuel situation e) (evaluate setting fuel situation.scope e)
  evaluateAll : ∀ situation es, Curbed limit situation.hosted
    (trackEvaluateAll setting fuel situation es) (evaluateAll setting fuel situation.scope es)
  execute : ∀ situation s, Curbed limit situation.hosted
    (trackExecute setting fuel situation s) (execute setting fuel situation.scope s)
  repeatWhile : ∀ situation condition body, Curbed limit situation.hosted
    (trackRepeat setting fuel situation condition body)
    (repeatWhile setting fuel situation.scope condition body)
  executeAll : ∀ situation ss, Curbed limit situation.hosted
    (trackExecuteAll setting fuel situation ss) (executeAll setting fuel situation.scope ss)
  call : ∀ hosted paren callee arguments, Curbed limit hosted
    (trackCall setting fuel hosted paren callee arguments)
    (callValue setting fuel paren callee arguments)
  script : ∀ paren script, Curbed limit true (trackScript setting fuel paren script)
    (runScript setting fuel paren script)

namespace CurbedAt

variable {limit : Nat} {setting : Setting} {fuel : Nat}

theorem zero (limit : Nat) (setting : Setting) : CurbedAt limit setting 0 where
  evaluate _ _ := by rw [trackEvaluate, TreeScript.evaluate]; exact .lift .stuck .stuck
  evaluateAll _ _ := by rw [trackEvaluateAll, TreeScript.evaluateAll]; exact .lift .stuck .stuck
  execute _ _ := by rw [trackExecute, TreeScript.execute]; exact .lift .stuck .stuck
  repeatWhile _ _ _ := by rw [trackRepeat, TreeScript.repeatWhile]; exact .lift .stuck .stuck
  executeAll _ _ := by rw [trackExecuteAll, TreeScript.executeAll]; exact .lift .stuck .stuck
  call _ _ _ _ := by rw [trackCall, callValue]; exact .lift .stuck .stuck
  script _ _ := by rw [trackScript, runScript]; exact .lift .stuck .stuck

theorem evaluate_step (ih : CurbedAt limit setting fuel) (situation : Situation) (e : Expr) :
    Curbed limit situation.hosted (trackEvaluate setting (fuel + 1) situation e)
      (TreeScript.evaluate setting (fuel + 1) situation.scope e) := by
  cases e
  all_goals
    rw [trackEvaluate, TreeScript.evaluate]
    refine .enter ?_
  case constant value => exact .pure _
  case grouping inner => exact ih.evaluate situation inner
  case unary operator operand =>
    exact (ih.evaluate situation operand).bind fun _ =>
      .lift (compositional.ofOperator ..) (.ofOperator ..)
  case binary left operator right =>
    exact (ih.evaluate situation left).bind fun _ =>
      (ih.evaluate situation right).bind fun _ =>
        .lift (compositional.ofOperator ..) (.ofOperator ..)
  case logical left operator right =>
    refine (ih.evaluate situation left).bind fun a => ?_
    split
    · exact .pure a
    · exact ih.evaluate situation right
  case ternary condition question whenTrue whenFalse =>
    refine (ih.evaluate situation condition).bind fun decision => ?_
    split
    · exact ih.evaluate situation whenTrue
    · exact ih.evaluate situation whenFalse
  case «variable» id name | self id name => exact .lift (.readName ..) (.readName ..)
  case assign id name value =>
    exact (ih.evaluate situation value).bind fun v =>
      .bind (.lift (compositional.writeName ..) (.writeName ..)) fun _ => .pure v
  case call callee paren arguments =>
    refine (ih.evaluate situation callee).bind fun f => ?_
    refine (ih.evaluateAll situation arguments).bind fun values => ?_
    cases f.arity? setting with
    | none => exact .lift (.fault ..) (.fault ..)
    | some arity =>
      simp only
      split
      · exact ih.call _ paren f values
      · exact .lift (.fault ..) (.fault ..)
  case get object name =>
    refine (ih.evaluate situation object).bind fun target => ?_
    cases target with
    | object address ofClass => exact .property address ofClass name
    | _ => exact .lift (.fault ..) (.fault ..)
  case set object name value =>
    refine (ih.evaluate situation object).bind fun target => ?_
    cases target with
    | object address ofClass =>
      exact (ih.evaluate situation value).bind fun v =>
        .bind (.lift (.setField ..) (.setField ..)) fun _ => .pure v
    | _ => exact .lift (.fault ..) (.fault ..)
  case function declaration => exact .making _ (compositional.newClosure ..) (.newClosure ..)

theorem evaluateAll_step (ih : CurbedAt limit setting fuel) (situation : Situation)
    (es : List Expr) :
    Curbed limit situation.hosted (trackEvaluateAll setting (fuel + 1) situation es)
      (TreeScript.evaluateAll setting (fuel + 1) situation.scope es) := by
  cases es with
  | nil =>
    rw [trackEvaluateAll, TreeScript.evaluateAll]
    exact .pure _
  | cons first rest =>
    rw [trackEvaluateAll, TreeScript.evaluateAll]
    exact (ih.evaluate situation first).bind fun _ =>
      (ih.evaluateAll situation rest).bind fun _ => .pure _

theorem execute_step (ih : CurbedAt limit setting fuel) (situation : Situation) (s : Stmt) :
    Curbed limit situation.hosted (trackExecute setting (fuel + 1) situation s)
      (TreeScript.execute setting (fuel + 1) situation.scope s) := by
  match s with
  | .expression value | .giveBack _ (some value) =>
    rw [trackExecute, TreeScript.execute]
    exact .enter ((ih.evaluate situation value).bind fun _ => .pure _)
  | .print value =>
    rw [trackExecute, TreeScript.execute]
    refine .enter ((ih.evaluate situation value).bind fun v => ?_)
    exact .bind (.print situation v.text id) fun _ => .pure _
  | .varDecl name none =>
    rw [trackExecute, TreeScript.execute]
    exact .enter (.bind (.lift (.define ..) (.define ..)) fun _ => .pure _)
  | .varDecl name (some value) =>
    rw [trackExecute, TreeScript.execute]
    have hv := ih.evaluate
      { situation with spot := situation.spot.declare name.lexeme false } value
    exact .enter (hv.bind fun v => .bind (.lift (.define ..) (.define ..)) fun _ => .pure _)
  | .block body =>
    rw [trackExecute, TreeScript.execute]
    refine .enter (.bind (.lift (.newScope _) (.newScope _)) fun inner => ?_)
    exact ih.executeAll { situation with spot := situation.spot.inBlock, scope := inner } body
  | .conditional condition whenTrue none =>
    rw [trackExecute, TreeScript.execute]
    refine .enter ((ih.evaluate situation condition).bind fun decision => ?_)
    split
    · exact ih.execute situation whenTrue
    · exact .pure _
  | .conditional condition whenTrue (some whenFalse) =>
    rw [trackExecute, TreeScript.execute]
    refine .enter ((ih.evaluate situation condition).bind fun decision => ?_)
    split
    · exact ih.execute situation whenTrue
    · exact ih.execute { situation with spot := situation.spot.after whenTrue } whenFalse
  | .loop condition body =>
    rw [trackExecute, TreeScript.execute]
    exact .enter (ih.repeatWhile situation condition body)
  | .leave _ | .giveBack _ none =>
    rw [trackExecute, TreeScript.execute]
    exact .enter (.pure _)
  | .function declaration =>
    rw [trackExecute, TreeScript.execute]
    refine .enter (.bind (.making _ (compositional.newClosure ..) (.newClosure ..)) fun f => ?_)
    exact .bind (.lift (.define ..) (.define ..)) fun _ => .pure _
  | .classDecl name methods =>
    rw [trackExecute, TreeScript.execute]
    refine .enter (.bind (.making _ (compositional.newClass ..) (.newClass ..)) fun c => ?_)
    exact .bind (.lift (.define ..) (.define ..)) fun _ => .pure _

theorem repeatWhile_step (ih : CurbedAt limit setting fuel) (situation : Situation)
    (condition : Expr) (body : Stmt) :
    Curbed limit situation.hosted (trackRepeat setting (fuel + 1) situation condition body)
      (TreeScript.repeatWhile setting (fuel + 1) situation.scope condition body) := by
  rw [trackRepeat, TreeScript.repeatWhile]
  refine (ih.evaluate situation condition).bind fun decision => ?_
  split
  · refine (ih.execute situation body).bind fun flow => ?_
    cases flow with
    | normal value => exact ih.repeatWhile situation condition body
    | giveBack value => exact .pure _
    | leave => exact .pure _
  · exact .pure _

theorem executeAll_step (ih : CurbedAt limit setting fuel) (situation : Situation)
    (ss : List Stmt) :
    Curbed limit situation.hosted (trackExecuteAll setting (fuel + 1) situation ss)
      (TreeScript.executeAll setting (fuel + 1) situation.scope ss) := by
  cases ss with
  | nil =>
    rw [trackExecuteAll, TreeScript.executeAll]
    exact .pure _
  | cons first rest =>
    rw [trackExecuteAll, TreeScript.executeAll]
    refine (ih.execute situation first).bind fun flow => ?_
    cases flow with
    | normal value =>
      exact ih.executeAll { situation with spot := situation.spot.after first } rest
    | giveBack value => exact .pure _
    | leave => exact .pure _

theorem call_step (ih : CurbedAt limit setting fuel) (hosted : Bool) (paren : Token)
    (callee : Value) (arguments : List Value) :
    Curbed limit hosted (trackCall setting (fuel + 1) hosted paren callee arguments)
      (callValue setting (fuel + 1) paren callee arguments) := by
  cases callee with
  | function closure =>
    rw [trackCall, callValue]
    refine .look fun birth => ?_
    refine .bind (.lift (.newScope _) (.newScope _)) fun scope => ?_
    refine .bind (.lift (compositional.defineAll ..) (.defineAll ..)) fun _ => ?_
    refine .bind (ih.executeAll { spot := _, scope, receiver := _, hosted } _) fun flow => ?_
    cases flow <;> exact .pure _
  | classObject object =>
    rw [trackCall, callValue]
    exact .lift (.newObject object) (.newObject object)
  | native host =>
    rw [trackCall, callValue]
    cases setting.natives[host.identity]? with
    | some found => exact (ih.script paren _).weaken
    | none => exact .pure _
  | nil | bool _ | number _ | string _ | object _ _ =>
    rw [trackCall, callValue] <;> first | exact .lift (.fault ..) (.fault ..) | simp

theorem script_step (ih : CurbedAt limit setting fuel) (paren : Token) (script : Script) :
    Curbed limit true (trackScript setting (fuel + 1) paren script)
      (runScript setting (fuel + 1) paren script) := by
  cases script with
  | answer value =>
    rw [trackScript, runScript]
    exact .pure _
  | fail message =>
    rw [trackScript, runScript]
    exact .lift (.fault ..) (.fault ..)
  | call callee arguments next =>
    rw [trackScript, runScript]
    refine .bind (ih.call true paren callee arguments).attempt fun result => ?_
    cases result <;> exact ih.script _ _

end CurbedAt

end TreeScript
