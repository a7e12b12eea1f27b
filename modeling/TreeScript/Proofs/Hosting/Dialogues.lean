import TreeScript.Proofs.Likeness.Derived
import TreeScript.Proofs.Likeness.Sessions
import TreeScript.Proofs.Running.Flows

/-!
# Dialogues

A host runs sources in a session, registers functions, and sets how many arguments those
of dynamic arity take.

* `HostStep`, `Entry` — what a host does, and what it is told
* `Dialogue` — a session with the values that it handed to its host
* `Dialogue.converse` — the entries of steps in a row
* `Dialogue.Reachable` — the dialogues with hosts that see functions from outside only
* `Dialogue.Settled` — what a session holds comes from the sources that it was given
* `Dialogue.Alike.converse` — alike dialogues go on in the same way
-/

namespace TreeScript

/-! ## Steps and entries -/

/-- What a host does with a session.  A function of the host may be made from the values
that the session handed to the host. -/
inductive HostStep where
  | run (fuel : Nat) (source : String)
  | register (make : List Value → Native)
  | setDynamicArity (count : Nat)

/-- A host registers functions that see functions and classes from outside only. -/
def HostStep.Uniform : HostStep → Prop
  | .register make => Native.Uniform make
  | .run .. | .setDynamicArity _ => True

/-- The sorts of values. -/
inductive ValueSort where
  | nil | bool | number | string | function | native | classObject | object
  deriving DecidableEq

/-- The sort of a value. -/
def Value.sort : Value → ValueSort
  | .nil => .nil
  | .bool _ => .bool
  | .number _ => .number
  | .string _ => .string
  | .function _ => .function
  | .native _ => .native
  | .classObject _ => .classObject
  | .object .. => .object

/-- What is told of a value: its sort, its text, and for an object its members. -/
structure ValueReport where
  sort : ValueSort
  text : String
  members : Option String
  deriving DecidableEq

/-- What is told of a value whose instances have their fields in a machine. -/
def Value.report (machine : Machine) (value : Value) : ValueReport :=
  { sort := value.sort
    text := value.text
    members := value.inspect? (Interpreter.fieldNames machine) }

/-- What a host is told of a step: what was printed, and the value and the diagnostics of
the report or why the session broke.  Flags and exit status of a report are those of its
diagnostics. -/
inductive Entry where
  | silent
  | reported (printed : ByteArray) (value : Option ValueReport) (diagnostics : List Diagnostic)
  | broken (printed : ByteArray) (cause : BrokenScope)
  | outOfFuel

/-- Whether a session goes on after a step. -/
def Entry.goesOn : Entry → Bool
  | .silent | .reported .. => true
  | .broken .. | .outOfFuel => false

/-- What was printed between two states of a session. -/
def Session.printedSince (before after : Session) : ByteArray :=
  after.printed.extract before.printed.size after.printed.size

/-- What a host is told of a run. -/
def RunEnd.entry (before after : Session) : RunEnd → Entry
  | .reported report =>
    .reported (before.printedSince after)
      (report.value.map (Value.report after.interpreter.machine)) report.diagnostics
  | .broken cause => .broken (before.printedSince after) cause
  | .outOfFuel => .outOfFuel

/-- The values that a run hands to the host. -/
def RunEnd.handed : RunEnd → List Value
  | .reported report => report.value.toList
  | .broken _ | .outOfFuel => []

/-! ## Dialogues -/

/-- A session, with the values that it handed to its host and the tokens of the sources
that it was given, the latest first. -/
structure Dialogue where
  session : Session
  handed : List Value
  tokens : List Token

namespace Dialogue

/-- The dialogue with a fresh session. -/
def fresh (lexicon : Lexicon) (sink : Sink) (now : Float) : Dialogue :=
  { session := .create lexicon sink now, handed := [], tokens := [] }

/-- Runs one source. -/
def run (d : Dialogue) (fuel : Nat) (source : String) : Dialogue × RunEnd :=
  let (session, ending) := d.session.run fuel source
  ({ session
     handed := ending.handed ++ d.handed
     tokens := tokensOf (scan d.session.lexicon source) ++ d.tokens }, ending)

/-- The dialogue after a source was checked, before it is executed. -/
def checked (d : Dialogue) (source : String) : Dialogue :=
  { d with
    session := (d.session.check source).1
    tokens := tokensOf (scan d.session.lexicon source) ++ d.tokens }

/-- Registers a function that the host makes from the values that it was handed. -/
def register (d : Dialogue) (make : List Value → Native) : Dialogue :=
  { d with session := d.session.register (make d.handed) }

/-- Sets how many arguments the host functions of dynamic arity take. -/
def setDynamicArity (d : Dialogue) (count : Nat) : Dialogue :=
  { d with session := d.session.setDynamicArity count }

/-- One step, and what the host is told of it. -/
def perform (d : Dialogue) : HostStep → Dialogue × Entry
  | .run fuel source =>
    let (after, ending) := d.run fuel source
    (after, ending.entry d.session after.session)
  | .register make => (d.register make, .silent)
  | .setDynamicArity count => (d.setDynamicArity count, .silent)

/-- What the host is told of steps in a row, as far as the session goes on. -/
def converse (d : Dialogue) : List HostStep → List Entry
  | [] => []
  | step :: rest =>
    let (after, entry) := d.perform step
    entry :: if entry.goesOn then after.converse rest else []

/-- The dialogues with hosts that see functions and classes from outside only. -/
inductive Reachable : Dialogue → Prop
  | fresh (lexicon : Lexicon) (sink : Sink) (now : Float) : Reachable (.fresh lexicon sink now)
  | step {d : Dialogue} (step : HostStep) : d.Reachable → step.Uniform →
      (d.perform step).2.goesOn = true → (d.perform step).1.Reachable

/-! ## What a session holds -/

/-- The machine of the session. -/
def machine (d : Dialogue) : Machine :=
  d.session.interpreter.machine

/-- What stays fixed while a program runs. -/
def setting (d : Dialogue) : Setting :=
  d.session.interpreter.setting

/-- The tokens and identities that a dialogue used up, and the functions that do not leave
a loop around them. -/
def known (d : Dialogue) : Likeness where
  token t u := u = t ∧ t ∈ d.tokens
  id i j := j = i ∧ i < d.session.nextId
  function f := ¬(Node.statements f.body).Leaves

/-- What a session holds comes from the sources that it was given, and so does what it
handed to its host; the functions of the host see the rest from outside only. -/
structure Settled (d : Dialogue) : Prop where
  machine : d.machine.Alike d.known d.machine
  handed : ∀ v ∈ d.handed, v.Alike d.known v
  natives : ∀ L : Likeness, (∀ v ∈ d.handed, v.Alike L v) →
    ∀ native ∈ d.setting.natives, native.Alike L native
  noted : ∀ (id : ReferenceId) distance, d.setting.distances[id]? = some distance →
    id < d.session.nextId

end Dialogue

/-! ## Accepted programs -/

/-- What is known of a source that was accepted as a program. -/
structure Session.Accepted (s : Session) (source : String) (s' : Session)
    (program : List Stmt) : Prop where
  derives : ∃ rest, Derives .standard (.declarations false)
    ⟨tokensOf (scan s.lexicon source), s.nextId⟩ program ⟨rest, s'.nextId⟩
  resolved : (resolveProgram program).diagnostics = []
  interpreter : s'.interpreter = s.interpreter.noteAll (resolveProgram program).distances
  lexicon : s'.lexicon = s.lexicon

namespace Session

variable {s s' : Session} {source : String} {program : List Stmt}

/-- A source is accepted if its text, its grammar and its names are without a fault. -/
theorem check_eq_ok_iff :
    s.check source = (s', .ok program) ↔
      diagnosticsOf (scan s.lexicon source) = [] ∧
      Program.ofTokens (tokensOf (scan s.lexicon source)) s.nextId =
        { statements := program, nextId := s'.nextId, diagnostics := [] } ∧
      (resolveProgram program).diagnostics = [] ∧
      s' = { s with
        interpreter := s.interpreter.noteAll (resolveProgram program).distances
        nextId := s'.nextId } := by
  constructor
  · intro hc
    unfold check at hc
    simp only [read, List.isEmpty_iff] at hc
    split at hc
    · rename_i hparse
      obtain ⟨hscan, hgrammar⟩ := List.append_eq_nil_iff.1 hparse
      split at hc
      · rename_i hnames
        cases hc
        exact ⟨hscan, by rw [← hgrammar], hnames, rfl⟩
      · cases hc
    · cases hc
  · rintro ⟨hscan, hprogram, hnames, hs'⟩
    unfold check
    simp only [read, hscan, hprogram, hnames, List.append_nil, List.isEmpty_nil, if_true]
    rw [← hs']

/-- Checking does not look at what programs change. -/
theorem check_withMachine (s : Session) (m : Machine) (source : String) :
    (s.withMachine m).check source =
      ((s.check source).1.withMachine m, (s.check source).2) := by
  have hnote : ∀ (interpreter : Interpreter) noted,
      Interpreter.noteAll { interpreter with machine := m } noted =
        { interpreter.noteAll noted with machine := m } := by
    intro interpreter noted
    induction noted generalizing interpreter with
    | nil => rfl
    | cons first rest ih => exact ih (interpreter.note first.1 first.2)
  unfold check
  simp only [withMachine, hnote]
  split
  · split <;> rfl
  · rfl

end Session

theorem Session.accepted_of_check {s : Session} {source : String} {program : List Stmt}
    (h : (s.check source).2 = .ok program) :
    s.Accepted source (s.check source).1 program := by
  have hc : s.check source = ((s.check source).1, .ok program) := by rw [← h]
  obtain ⟨-, hprogram, hnames, hs'⟩ := check_eq_ok_iff.1 hc
  have hderives := Program.derives_of_diagnostics (congrArg Program.diagnostics hprogram)
  rw [hprogram] at hderives
  exact ⟨hderives, hnames, by rw [hs'], by rw [hs']⟩

theorem Session.lexicon_run (s : Session) (fuel : Nat) (source : String) :
    (s.run fuel source).1.lexicon = s.lexicon := by
  obtain ⟨noted, hc, -⟩ := s.check_spec source
  have hl := hc.lexicon
  unfold Session.run
  generalize s.check source = result at hl ⊢
  rcases result with ⟨s₁, diagnostics | program⟩
  · exact hl
  · simp only
    split <;> exact hl

/-- An accepted program is alike itself, if its tokens and identities are. -/
theorem Session.Accepted.alike {L : Likeness} {s s' : Session} {source : String}
    {program : List Stmt} (ha : s.Accepted source s' program)
    (ht : ∀ t ∈ tokensOf (scan s.lexicon source), L.token t t)
    (hi : ∀ i : ReferenceId, s.nextId ≤ i → i < s'.nextId → L.id i i)
    (hf : ∀ f : FunctionDecl, ¬(Node.statements f.body).Leaves → L.function f) :
    List.Forall₂ (Stmt.Alike L) program program := by
  obtain ⟨rest, hd⟩ := ha.derives
  exact derives_alike (fun h => hf _ (not_leaves_of_derives h)) hd ⟨ht, hi⟩

/-! ## Alike sessions -/

section

variable {L : Likeness} {R : Feed L}

/-- One source is read alike on both sides, if every token may be read in place of
itself. -/
theorem Feed.items_self (R : Feed L) (hr : ∀ t, R.read t t) (line : Nat)
    (found : List Segment) : List.Forall₂ R.Item (items line found) (items line found) := by
  induction found generalizing line with
  | nil => exact .cons (.token (hr _)) .nil
  | cons segment rest ih =>
    rw [items]
    refine List.rel_append ?_ (ih _)
    unfold Segment.item?
    cases segment.cls with
    | blank => exact .nil
    | token kind literal => exact .cons (.token (hr _)) .nil
    | fault fault => exact .cons (.fault fault _) .nil

theorem Setting.Alike.size_natives {s s' : Setting} (h : s.Alike L s') :
    s'.natives.size = s.natives.size := by
  have hlt : ∀ i : Nat, i < s'.natives.size ↔ i < s.natives.size := fun i => by
    simpa using Bool.eq_iff_iff.1 (isSome_of_rel (h.natives i))
  exact Nat.le_antisymm (Nat.not_lt.1 fun hs => Nat.lt_irrefl _ ((hlt _).1 hs))
    (Nat.not_lt.1 fun hs => Nat.lt_irrefl _ ((hlt _).2 hs))

theorem Session.Alike.register {s s' : Session} (h : s.Alike R s') {n n' : Native}
    (hn : n.Alike L n') : (s.register n).Alike R (s'.register n') := by
  have hsize := h.setting.size_natives
  refine ⟨{ h.machine with scopes := ?_ }, { h.setting with natives := fun i => ?_ }, h.nextId⟩
  · simp only [Session.register, Interpreter.register, hn.name, hn.arity, hsize]
    exact h.machine.scopes.define _ _ (.some (.native _))
  · simp only [Session.register, Interpreter.register, Array.getElem?_push, hsize]
    split
    · exact .some hn
    · exact h.setting.natives i

theorem Session.Alike.setDynamicArity {s s' : Session} (h : s.Alike R s') (count : Nat) :
    (s.setDynamicArity count).Alike R (s'.setDynamicArity count) :=
  ⟨h.machine, { h.setting with dynamicArity := rfl }, h.nextId⟩

/-- Instances in the same place have the same fields on alike machines. -/
theorem Machine.Alike.fieldNames {m m' : Machine} (h : m.Alike L m') :
    Interpreter.fieldNames m' = Interpreter.fieldNames m := by
  funext address
  unfold Interpreter.fieldNames
  have hf := h.fields address
  by_cases ha : address < m.fields.size
  · have ha' : address < m'.fields.size := h.objects ▸ ha
    simp only [Array.getElem?_eq_getElem ha, Array.getElem?_eq_getElem ha', Option.bind_some]
      at hf ⊢
    exact Value.Alike.keys_eq fun name => isSome_of_rel (hf name)
  · have ha' : ¬address < m'.fields.size := h.objects ▸ ha
    rw [Array.getElem?_eq_none (Nat.le_of_not_lt ha),
      Array.getElem?_eq_none (Nat.le_of_not_lt ha')]

theorem Value.Alike.sort {v v' : Value} (h : v.Alike L v') : v'.sort = v.sort := by
  cases h <;> rfl

/-- The same is told of alike values. -/
theorem Value.Alike.report {v v' : Value} (h : v.Alike L v') {m m' : Machine}
    (hm : m.Alike L m') : v'.report m' = v.report m := by
  simp only [Value.report, h.sort, h.text, h.inspect? hm.fieldNames]

/-- The same is told of alike values that may be missing. -/
theorem Value.Alike.map_report {v v' : Option Value} (h : Option.Rel (Value.Alike L) v v')
    {m m' : Machine} (hm : m.Alike L m') :
    v'.map (Value.report m') = v.map (Value.report m) := by
  cases h with
  | none => rfl
  | some h => rw [Option.map_some, Option.map_some, h.report hm]

theorem RunEnd.Alike.handed {place : Token → Token → Prop} {e e' : RunEnd}
    (h : e.Alike L place e') : List.Forall₂ (Value.Alike L) e.handed e'.handed := by
  cases h with
  | reported hv _ =>
    simp only [RunEnd.handed]
    generalize Report.value _ = v at hv
    generalize Report.value _ = v' at hv
    cases hv with
    | none => exact .nil
    | some hv => exact .cons hv .nil
  | broken | outOfFuel => exact .nil

/-- The same is told of runs that end in the same way, if the places of their diagnostics
are the same. -/
theorem RunEnd.Alike.entry {place : Token → Token → Prop} {e e' : RunEnd}
    (h : e.Alike L place e') (hp : ∀ t u, place t u → u = t)
    {before before' after after' : Session}
    (hb : before'.interpreter.machine.sink = before.interpreter.machine.sink)
    (ha : after.interpreter.machine.Alike L after'.interpreter.machine) :
    e'.entry before' after' = e.entry before after := by
  have hprinted : before'.printedSince after' = before.printedSince after := by
    simp only [Session.printedSince, Session.printed, hb, ha.sink]
  cases h with
  | @reported r r' hv hd =>
    have hvalue : r'.value.map (Value.report after'.interpreter.machine) =
        r.value.map (Value.report after.interpreter.machine) := Value.Alike.map_report hv ha
    have hdiagnostics : r'.diagnostics = r.diagnostics :=
      (List.forall₂_eq_eq_eq ▸ hd.imp fun _ _ h => (h.eq hp).symm : _ = _).symm
    simp only [RunEnd.entry, hprinted, hvalue, hdiagnostics]
  | broken cause => simp only [RunEnd.entry, hprinted]
  | outOfFuel => rfl

end

/-! ## Steps of settled dialogues -/

namespace Dialogue

variable {d : Dialogue}

/-- What a dialogue knows only grows. -/
theorem known_within {session : Session} {handed : List Value}
    (h : d.session.nextId ≤ session.nextId) (tokens : List Token) :
    d.known.Within (Dialogue.known ⟨session, handed, tokens ++ d.tokens⟩) where
  token ht := ⟨ht.1, List.mem_append_right _ ht.2⟩
  id hi := ⟨hi.1, Nat.lt_of_lt_of_le hi.2 h⟩
  function hf := hf

namespace Settled

/-- Each host function is alike itself under a likeness that knows all values of the
host. -/
theorem natives_alike {L : Likeness} (h : d.Settled) (hh : ∀ v ∈ d.handed, v.Alike L v)
    (i : Nat) :
    Option.Rel (Native.Alike L) d.setting.natives[i]? d.setting.natives[i]? := by
  cases hn : d.setting.natives[i]? with
  | none => exact .none
  | some native => exact .some (h.natives L hh native (Array.mem_of_getElem? hn))

theorem setting {L : Likeness} (h : d.Settled) (hid : ∀ {i j}, L.id i j → j = i)
    (hh : ∀ v ∈ d.handed, v.Alike L v) : d.setting.Alike L d.setting where
  distances i j hij := by rw [hid hij]
  natives := h.natives_alike hh
  dynamicArity := rfl

theorem unnoted (h : d.Settled) {id : ReferenceId} (hid : d.session.nextId ≤ id) :
    d.setting.distances[id]? = none := by
  by_contra hn
  obtain ⟨distance, hd⟩ := Option.ne_none_iff_exists'.1 hn
  exact Nat.not_lt.2 hid (h.noted id distance hd)

theorem hand (h : d.Settled) {values : List Value} (hv : ∀ v ∈ values, v.Alike d.known v) :
    Settled { d with handed := values ++ d.handed } where
  machine := h.machine
  handed v hm := (List.mem_append.1 hm).elim (hv v) (h.handed v)
  natives L hL := h.natives L fun v hm => hL v (List.mem_append_right _ hm)
  noted := h.noted

theorem leave (h : d.Settled) {m : Machine} (hm : m.Alike d.known m) :
    Settled { d with session := d.session.withMachine m } where
  machine := hm
  handed := h.handed
  natives := h.natives
  noted := h.noted

theorem setDynamicArity (h : d.Settled) (count : Nat) : (d.setDynamicArity count).Settled where
  machine := h.machine
  handed := h.handed
  natives := h.natives
  noted := h.noted

theorem register (h : d.Settled) {make : List Value → Native} (hu : Native.Uniform make) :
    (d.register make).Settled where
  machine := { h.machine with scopes := h.machine.scopes.define _ _ (.some (.native _)) }
  handed := h.handed
  natives L hL native hn := by
    rcases Array.mem_push.1 hn with hn | rfl
    · exact h.natives L hL native hn
    · exact hu L _ _ (List.forall₂_same.2 hL)
  noted := h.noted

/-- A source was checked, whether it is accepted or not. -/
theorem checked (h : d.Settled) (source : String) : (d.checked source).Settled := by
  obtain ⟨noted, hc, -⟩ := d.session.check_spec source
  have hw : d.known.Within (d.checked source).known := d.known_within hc.nextId _
  refine ⟨?_, fun v hv => (h.handed v hv).mono hw, fun L hL native hn => ?_, ?_⟩
  · simp only [Dialogue.machine, Dialogue.checked, hc.interpreter, Interpreter.machine_noteAll]
    exact h.machine.mono hw
  · refine h.natives L hL native ?_
    simpa only [Dialogue.setting, Dialogue.checked, hc.interpreter, Interpreter.natives_noteAll]
      using hn
  · intro id distance hd
    simp only [Dialogue.setting, Dialogue.checked, hc.interpreter] at hd
    rcases d.session.interpreter.getElem?_noteAll noted id with ⟨d', hd', -⟩ | ⟨-, hget⟩
    · exact (hc.fresh id d' hd').2
    · rw [hget] at hd
      exact Nat.lt_of_lt_of_le (h.noted id distance hd) hc.nextId

end Settled

/-- What was accepted is known from then on. -/
theorem known_program {source : String} {program : List Stmt}
    (hc : (d.session.check source).2 = .ok program) :
    List.Forall₂ (Stmt.Alike (d.checked source).known) program program :=
  (Session.accepted_of_check hc).alike (fun _ ht => ⟨rfl, List.mem_append_left _ ht⟩)
    (fun _ _ hi => ⟨rfl, hi⟩) fun _ hf => hf

namespace Settled

/-- A program that was accepted does the same on the settled machine and on itself. -/
theorem outcome (h : d.Settled) (source : String) (program : List Stmt)
    (hc : (d.session.check source).2 = .ok program) (fuel : Nat) :
    Outcome.Alike (d.checked source).known (Value.Alike (d.checked source).known)
      ((d.checked source).session.interpreter.run fuel program)
      ((d.checked source).session.interpreter.run fuel program) :=
  runProgram_alike ((h.checked source).setting And.left (h.checked source).handed) fuel
    (known_program hc) (h.checked source).machine

theorem run (h : d.Settled) {fuel : Nat} {source : String} {report : Report}
    (hr : (d.run fuel source).2 = .reported report) : (d.run fuel source).1.Settled := by
  have hchecked := h.checked source
  have houtcome := h.outcome source
  unfold Dialogue.run Session.run at hr ⊢
  unfold Dialogue.checked at hchecked houtcome
  generalize d.session.check source = result at hr hchecked houtcome ⊢
  obtain ⟨s, diagnostics | program⟩ := result
  · exact hchecked.hand nofun
  · have houtcome := houtcome program rfl fuel
    simp only at hr houtcome ⊢
    generalize s.interpreter.run fuel program = outcome at hr houtcome ⊢
    cases houtcome with
    | @done v _ m _ hv hm =>
      refine (hchecked.leave hm).hand fun w hw => ?_
      obtain rfl : w = v := Session.eq_of_mem_reportedValue (Option.mem_toList.1 hw)
      exact hv
    | @failed failure _ m _ hf hm =>
      cases hf with
      | diagnosed _ _ => exact (hchecked.leave hm).hand nofun
      | broken cause => cases hr
    | outOfFuel => cases hr

/-- A session that holds nothing yet. -/
theorem empty (lexicon : Lexicon) (sink : Sink) :
    Settled
      { session :=
          { lexicon
            interpreter :=
              { setting := { distances := ∅, natives := #[], dynamicArity := 0 }
                machine :=
                  { scopes := (Scopes.create #[] none).2, fields := #[], identities := 0
                    sink } }
            nextId := 0 }
        handed := [], tokens := [] } where
  machine :=
    { scopes := .create ⟨rfl, fun _ => rfl, fun _ _ => .none⟩ none
      objects := rfl
      fields := fun _ _ => .none
      identities := rfl
      sink := rfl }
  handed := nofun
  natives _ _ _ hn := absurd hn (Array.not_mem_empty _)
  noted id distance hd := by
    simp only [Dialogue.setting, Std.TreeMap.getElem?_emptyc, reduceCtorEq] at hd

theorem fresh (lexicon : Lexicon) (sink : Sink) (now : Float) :
    (Dialogue.fresh lexicon sink now).Settled :=
  (empty lexicon sink).register (Native.uniform_clock now)

theorem perform (h : d.Settled) {step : HostStep} (hu : step.Uniform)
    (hg : (d.perform step).2.goesOn = true) : (d.perform step).1.Settled := by
  cases step with
  | run fuel source =>
    simp only [Dialogue.perform] at hg ⊢
    cases hr : (d.run fuel source).2 with
    | reported report => exact h.run hr
    | broken cause =>
      rw [hr] at hg
      cases hg
    | outOfFuel =>
      rw [hr] at hg
      cases hg
  | register make => exact h.register hu
  | setDynamicArity count => exact h.setDynamicArity count

end Settled

theorem Reachable.settled (h : d.Reachable) : d.Settled := by
  induction h with
  | fresh lexicon sink now => exact .fresh lexicon sink now
  | step step _ hu hg ih => exact ih.perform hu hg

end Dialogue

/-- Fresh sessions are alike, whatever their lexicons. -/
theorem Session.Alike.create {L : Likeness} {R : Feed L} (lexicon lexicon' : Lexicon)
    (sink : Sink) (now : Float) (hid : ∀ {i j}, L.id i j → j = i) (h : R.supply 0 0) :
    Session.Alike R (.create lexicon sink now) (.create lexicon' sink now) := by
  have hsettled := Dialogue.Settled.fresh lexicon sink now
  have hwithin : (Dialogue.fresh lexicon sink now).known.Within L :=
    { token := fun ht => absurd ht.2 List.not_mem_nil
      id := fun hi => absurd hi.2 (Nat.not_lt_zero _)
      function := fun _ => R.function _ }
  exact ⟨hsettled.machine.mono hwithin,
    hsettled.setting hid fun _ hv => absurd hv List.not_mem_nil, h⟩

namespace Dialogue

variable {d : Dialogue}

/-! ## Alike dialogues -/

/-- Dialogues with alike sessions, over one lexicon, that handed alike values out. -/
structure Alike {L : Likeness} (R : Feed L) (d d' : Dialogue) : Prop where
  session : d.session.Alike R d'.session
  lexicon : d'.session.lexicon = d.session.lexicon
  handed : List.Forall₂ (Value.Alike L) d.handed d'.handed

namespace Alike

variable {L : Likeness} {R : Feed L} {d' : Dialogue}

theorem perform (hu : L.Biunique) (hr : ∀ t, R.read t t) (hp : ∀ t u, R.Place t u → u = t)
    (h : d.Alike R d') {step : HostStep} (hs : step.Uniform) :
    (d.perform step).1.Alike R (d'.perform step).1 ∧
      (d'.perform step).2 = (d.perform step).2 := by
  cases step with
  | run fuel source =>
    have hitems : List.Forall₂ R.Item (scan d.session.lexicon source)
        (scan d'.session.lexicon source) := h.lexicon ▸ R.items_self hr 1 _
    obtain ⟨hsession, hend⟩ := h.session.run hu hitems fuel
    refine ⟨⟨hsession, ?_, List.rel_append hend.handed h.handed⟩, ?_⟩
    · exact (Session.lexicon_run ..).trans (h.lexicon.trans (Session.lexicon_run ..).symm)
    · exact hend.entry hp h.session.machine.sink hsession.machine
  | register make =>
    exact ⟨⟨h.session.register (hs L _ _ h.handed), h.lexicon, h.handed⟩, rfl⟩
  | setDynamicArity count =>
    exact ⟨⟨h.session.setDynamicArity count, h.lexicon, h.handed⟩, rfl⟩

/-- Hosts cannot tell alike dialogues apart, if diagnostics cannot. -/
theorem converse (hu : L.Biunique) (hr : ∀ t, R.read t t) (hp : ∀ t u, R.Place t u → u = t)
    (h : d.Alike R d') {steps : List HostStep} (hs : ∀ step ∈ steps, step.Uniform) :
    d'.converse steps = d.converse steps := by
  induction steps generalizing d d' with
  | nil => rfl
  | cons step rest ih =>
    obtain ⟨hafter, hentry⟩ := h.perform hu hr hp (hs step List.mem_cons_self)
    have hrest := ih hafter fun next hn => hs next (List.mem_cons_of_mem _ hn)
    simp only [Dialogue.converse, hentry, hrest]

end Alike

end Dialogue

end TreeScript
