import TreeScript.Proofs.Scoping.Execution

/-!
# Sessions with a journal

* `History` — a session with the journal of its runs, the programs that it accepted and
  the values that it handed to the host
* `History.run` — runs one more source; `History.run_session` says that the session takes
  no notice of the rest
* `History.Reachable` — the histories of sessions
* `History.Regular` — what checking and running a source keeps
* `History.Observed` — what is known of a run, however it ends
-/

namespace TreeScript

/-! ## Histories -/

/-- A session with the journal of its runs, the programs that it accepted, the latest
first, and the values that it handed to the host. -/
structure History where
  session : Session
  journal : Journal
  programs : List (List Stmt)
  handed : List Value

namespace History

/-- The history of a fresh session. -/
def fresh (lexicon : Lexicon) (sink : Sink) (now : Float) : History :=
  { session := .create lexicon sink now, journal := .empty, programs := [], handed := [] }

/-- Registers a host function. -/
def register (h : History) (native : Native) : History :=
  { h with session := h.session.register native }

/-- Sets how many arguments the host functions of dynamic arity take. -/
def setDynamicArity (h : History) (count : Nat) : History :=
  { h with session := h.session.setDynamicArity count }

/-- A program is accepted. -/
def accept (h : History) (program : List Stmt) : History :=
  { h with programs := program :: h.programs }

/-- A run leaves a machine and a journal behind. -/
def leave (h : History) (machine : Machine) (journal : Journal) : History :=
  { h with session := h.session.withMachine machine, journal }

/-- A value is handed to the host. -/
def hand (h : History) (value? : Option Value) : History :=
  { h with handed := value?.toList ++ h.handed }

/-- Runs one source with a journal. -/
def run (h : History) (fuel : Nat) (source : String) : History × RunEnd :=
  match h.session.check source with
  | (session, .error diagnostics) =>
    ({ h with session }, .reported (.failure diagnostics))
  | (session, .ok program) =>
    let checked := { h with session }.accept program
    match watchProgram session.interpreter.setting fuel program h.journal
      session.interpreter.machine with
    | (.done value machine, journal) =>
      let value? := Session.reportedValue program value
      ((checked.leave machine journal).hand value?,
        .reported { value := value?, diagnostics := [] })
    | (.failed (.diagnosed diagnostic) machine, journal) =>
      (checked.leave machine journal, .reported (.failure [diagnostic]))
    | (.failed (.broken cause) machine, journal) =>
      (checked.leave machine journal, .broken cause)
    | (.outOfFuel, journal) => ({ checked with journal }, .outOfFuel)

/-- The histories of sessions.  Host functions use only what they are given and what the
session handed to the host; broken scopes end a session, and so does a lack of fuel. -/
inductive Reachable : History → Prop
  | fresh (lexicon : Lexicon) (sink : Sink) (now : Float) :
      Reachable (.fresh lexicon sink now)
  | register {h : History} {native : Native} :
      h.Reachable → native.Honest h.handed → (h.register native).Reachable
  | setDynamicArity {h : History} (count : Nat) :
      h.Reachable → (h.setDynamicArity count).Reachable
  | run {h : History} {fuel : Nat} {source : String} {report : Report} :
      h.Reachable → (h.run fuel source).2 = .reported report →
      (h.run fuel source).1.Reachable

end History

/-! ## Noted distances -/

namespace Interpreter

theorem machine_noteAll (interpreter : Interpreter) (noted : List (ReferenceId × Nat)) :
    (interpreter.noteAll noted).machine = interpreter.machine := by
  induction noted generalizing interpreter with
  | nil => rfl
  | cons first rest ih => exact ih _

theorem natives_noteAll (interpreter : Interpreter) (noted : List (ReferenceId × Nat)) :
    (interpreter.noteAll noted).setting.natives = interpreter.setting.natives := by
  induction noted generalizing interpreter with
  | nil => rfl
  | cons first rest ih => exact ih _

/-- A distance is one that was noted last, or else one of before. -/
theorem getElem?_noteAll (interpreter : Interpreter) (noted : List (ReferenceId × Nat))
    (id : ReferenceId) :
    (∃ d, (id, d) ∈ noted ∧ (interpreter.noteAll noted).setting.distances[id]? = some d) ∨
      ((∀ d, (id, d) ∉ noted) ∧
        (interpreter.noteAll noted).setting.distances[id]? =
          interpreter.setting.distances[id]?) := by
  induction noted generalizing interpreter with
  | nil => exact .inr ⟨by simp, rfl⟩
  | cons first rest ih =>
    obtain ⟨id', d'⟩ := first
    rcases ih (interpreter.note id' d') with ⟨d, hd, hget⟩ | ⟨hnone, hget⟩
    · exact .inl ⟨d, List.mem_cons_of_mem _ hd, hget⟩
    · have hnote : (interpreter.note id' d').setting.distances[id]? =
          if id' = id then some d' else interpreter.setting.distances[id]? := by
        simp [note, Std.TreeMap.getElem?_insert]
      rw [hnote] at hget
      by_cases hid : id' = id
      · subst hid
        rw [if_pos rfl] at hget
        exact .inl ⟨d', List.mem_cons_self, hget⟩
      · rw [if_neg hid] at hget
        refine .inr ⟨fun d hd => ?_, hget⟩
        rcases List.mem_cons.1 hd with h | h
        · cases h
          exact hid rfl
        · exact hnone d h

end Interpreter

/-! ## Checking a source -/

namespace Session

theorem firstId_le_read (lexicon : Lexicon) (source : String) (firstId : ReferenceId) :
    firstId ≤ (read lexicon source firstId).nextId :=
  (Program.drawn _ firstId).1.le

/-- A source without a fault of text or grammar is a tidy program. -/
theorem tidy_read {lexicon : Lexicon} {source : String} {firstId : ReferenceId}
    (h : (read lexicon source firstId).diagnostics = []) :
    ∃ rest, Tidy lexicon ⟨tokensOf (scan lexicon source), firstId⟩
      ⟨rest, (read lexicon source firstId).nextId⟩
      [.statements (read lexicon source firstId).statements] :=
  Program.tidy lexicon (List.append_eq_nil_iff.1 h).2

/-- What checking a source does to a session. -/
structure Checks (s s' : Session) (noted : List (ReferenceId × Nat)) : Prop where
  interpreter : s'.interpreter = s.interpreter.noteAll noted
  lexicon : s'.lexicon = s.lexicon
  nextId : s.nextId ≤ s'.nextId
  fresh : ∀ (id : ReferenceId) d, (id, d) ∈ noted → s.nextId ≤ id ∧ id < s'.nextId

/-- What checking finds out about a program that it accepts. -/
structure Accepts (s s' : Session) (noted : List (ReferenceId × Nat)) (program : List Stmt) :
    Prop where
  clean : (Visit.root program).Clean
  grown : (Node.statements program).Grown s.lexicon
  ids : ∀ id : ReferenceId, id ∈ (Node.statements program).ids → s.nextId ≤ id ∧ id < s'.nextId
  noted : noted = (Visit.root program).findings.distances

theorem check_spec (s : Session) (source : String) :
    ∃ noted, s.Checks (s.check source).1 noted ∧
      ∀ program, (s.check source).2 = .ok program →
        s.Accepts (s.check source).1 noted program := by
  have hle := firstId_le_read s.lexicon source s.nextId
  unfold check
  by_cases hparse : (read s.lexicon source s.nextId).diagnostics = []
  · obtain ⟨rest, htidy⟩ := tidy_read hparse
    have hids : ∀ id : ReferenceId,
        id ∈ (Node.statements (read s.lexicon source s.nextId).statements).ids →
          s.nextId ≤ id ∧ id < (read s.lexicon source s.nextId).nextId :=
      fun id hid => htidy.within id (by simpa using hid)
    have hfresh := fun id d hd =>
      hids id ((Visit.root _).mem_ids_of_mem_distances (d := d) hd)
    simp only [hparse, List.isEmpty_nil, if_true]
    refine ⟨(resolveProgram (read s.lexicon source s.nextId).statements).distances, ?_⟩
    cases hresolve : (resolveProgram (read s.lexicon source s.nextId).statements).diagnostics with
    | nil =>
      refine ⟨⟨rfl, rfl, hle, hfresh⟩, ?_⟩
      rintro program ⟨⟩
      have hnodup : (Node.statements (read s.lexicon source s.nextId).statements).ids.Nodup := by
        simpa using htidy.nodup
      exact ⟨⟨hnodup, hresolve⟩,
        htidy.grown (scan_spelled s.lexicon source) _ (List.mem_singleton.2 rfl), hids, rfl⟩
    | cons first rest => exact ⟨⟨rfl, rfl, hle, hfresh⟩, by simp⟩
  · have hempty : (read s.lexicon source s.nextId).diagnostics.isEmpty = false := by
      rw [List.isEmpty_eq_false_iff]
      exact hparse
    simp only [hempty]
    exact ⟨[], ⟨rfl, rfl, hle, by simp⟩, by simp⟩

theorem machine_check (s : Session) (source : String) :
    (s.check source).1.interpreter.machine = s.interpreter.machine := by
  obtain ⟨noted, hc, -⟩ := s.check_spec source
  rw [hc.interpreter, Interpreter.machine_noteAll]

theorem natives_check (s : Session) (source : String) :
    (s.check source).1.interpreter.setting.natives = s.interpreter.setting.natives := by
  obtain ⟨noted, hc, -⟩ := s.check_spec source
  rw [hc.interpreter, Interpreter.natives_noteAll]

end Session

/-! ## Programs of a session -/

namespace Session

/-- A session after more sources.  Distances of identities that were used up stay. -/
structure Follows (s s' : Session) : Prop where
  lexicon : s'.lexicon = s.lexicon
  nextId : s.nextId ≤ s'.nextId
  distances : ∀ id : ReferenceId, id < s.nextId →
    s'.interpreter.setting.distances[id]? = s.interpreter.setting.distances[id]?

/-- What a session knows of a program that it accepted: its shape, and the distances of its
references. -/
structure Covers (s : Session) (program : List Stmt) : Prop where
  clean : (Visit.root program).Clean
  grown : (Node.statements program).Grown s.lexicon
  used : ∀ id : ReferenceId, id ∈ (Node.statements program).ids → id < s.nextId
  distances : ∀ v id token, (Visit.root program).Leads v → v.reference? = some (id, token) →
    s.interpreter.setting.distances[id]? = StaticScope.distance? v.spot.scopes token.lexeme

variable {s s' : Session} {noted : List (ReferenceId × Nat)} {program : List Stmt}

theorem Checks.follows (h : s.Checks s' noted) : s.Follows s' where
  lexicon := h.lexicon
  nextId := h.nextId
  distances id hid := by
    rw [h.interpreter]
    rcases s.interpreter.getElem?_noteAll noted id with ⟨d, hd, -⟩ | ⟨-, hget⟩
    · exact absurd hid (Nat.not_lt.2 (h.fresh id d hd).1)
    · exact hget

theorem Covers.follow (h : s.Covers program) (hs : s.Follows s') : s'.Covers program where
  clean := h.clean
  grown := by
    rw [hs.lexicon]
    exact h.grown
  used id hid := Nat.lt_of_lt_of_le (h.used id hid) hs.nextId
  distances v id token hv hr := by
    rw [hs.distances id (h.used id (Visit.mem_ids_of_reference hv hr))]
    exact h.distances v id token hv hr

/-- The distances of a program that was just accepted are those that the walk noted. -/
theorem Accepts.covers (ha : s.Accepts s' noted program) (hc : s.Checks s' noted)
    (hold : ∀ (id : ReferenceId) d, s.interpreter.setting.distances[id]? = some d →
      id < s.nextId) : s'.Covers program where
  clean := ha.clean
  grown := by
    rw [hc.lexicon]
    exact ha.grown
  used id hid := (ha.ids id hid).2
  distances v id token hv hr := by
    have hiff := ha.clean.distance_iff hv hr
    rw [← ha.noted] at hiff
    rw [hc.interpreter]
    rcases s.interpreter.getElem?_noteAll noted id with ⟨d, hd, hget⟩ | ⟨hnone, hget⟩
    · rw [hget, (hiff d).1 hd]
    · have hbefore : s.interpreter.setting.distances[id]? = none := by
        refine Option.eq_none_iff_forall_ne_some.2 fun d hd => ?_
        have := (ha.ids id (Visit.mem_ids_of_reference hv hr)).1
        exact Nat.lt_irrefl id (Nat.lt_of_lt_of_le (hold id d hd) this)
      rw [hget, hbefore]
      refine (Option.eq_none_iff_forall_ne_some.2 fun d hd => hnone d ?_).symm
      exact (hiff d).2 hd

end Session

/-! ## Regular histories -/

namespace World

variable {w : World} {t : List ScopeRef}

/-- A program is added to a world. -/
def accept (w : World) (program : List Stmt) : World :=
  { w with programs := program :: w.programs }

theorem grows_accept (w : World) (program : List Stmt) : w.Grows t (w.accept program) :=
  { Grows.refl (t := t) w with programs := fun _ hp => List.mem_cons_of_mem _ hp }

theorem Sound.accept (hw : w.Sound) (program : List Stmt) : (w.accept program).Sound := by
  have hg : w.Grows [] (w.accept program) := grows_accept w program
  exact hw.grow hg (fun _ _ _ hb => .inl hb) (fun _ fs _ _ hf hx => .inl ⟨fs, hf, hx⟩)
    hw.origins hw.exist (fun hs => hw.declared (Strict.anti hg hs)) (fun _ hm => .inl hm)

end World

namespace History

/-- A sound world is that of a history. -/
structure Shows (h : History) (w : World) : Prop where
  programs : w.programs = h.programs
  machine : w.machine = h.session.interpreter.machine
  journal : w.journal = h.journal
  sound : w.Sound
  handed : ∀ value ∈ h.handed, w.Knows value

/-- What a session keeps from one source to the next. -/
structure Regular (h : History) : Prop where
  covers : ∀ program ∈ h.programs, h.session.Covers program
  apart : h.programs.Pairwise fun p q =>
    List.Disjoint (Node.statements p).ids (Node.statements q).ids
  noted : ∀ (id : ReferenceId) d, h.session.interpreter.setting.distances[id]? = some d →
    id < h.session.nextId
  honest : ∀ native ∈ h.session.interpreter.setting.natives, native.Honest h.handed
  world : ∃ w : World, h.Shows w

/-- The history of a session without any host function. -/
def bare (lexicon : Lexicon) (sink : Sink) : History :=
  { session :=
      { lexicon
        interpreter :=
          { setting := { distances := ∅, natives := #[], dynamicArity := 0 }
            machine :=
              { scopes := (Scopes.create #[] none).2, fields := #[], identities := 0, sink } }
        nextId := 0 }
    journal := .empty
    programs := []
    handed := [] }

/-- The world of a session without any host function. -/
def bareWorld (sink : Sink) : World :=
  { programs := []
    machine := { scopes := (Scopes.create #[] none).2, fields := #[], identities := 0, sink }
    journal := .empty
    defined := fun _ _ => False }

theorem sound_bareWorld (sink : Sink) : (bareWorld sink).Sound where
  globals := rfl
  inhabited := Nat.zero_lt_one
  bindings scope name value hb := by
    replace hb : (Scopes.create #[] none).2.binding? scope name = some (some value) := hb
    rw [Scopes.binding?_create] at hb
    cases hb
  fields _ _ _ _ hf := by cases hf
  origins := rfl
  exist := nofun
  declared _ := nofun
  moments := nofun

namespace Regular

variable {h : History}

/-- What is prepared before a program of a regular history runs. -/
theorem prepared (hr : h.Regular) :
    Prepared h.programs h.session.interpreter.setting h.handed where
  shaped := by
    rintro v ⟨program, hp, hv⟩
    exact (Visit.grown_of_leads (hr.covers program hp).grown hv).shaped
  distances := by
    rintro v id token ⟨program, hp, hv⟩ href
    exact (hr.covers program hp).distances v id token hv href
  keywords := by
    rintro spot name value spot' id keyword ⟨program, hp, hv⟩ ⟨program', hp', hv'⟩ heq
    obtain ⟨hkind, hspelled⟩ := (Visit.grown_of_leads (hr.covers program hp).grown hv).worded
    obtain ⟨hkind', hspelled'⟩ := (Visit.grown_of_leads (hr.covers program' hp').grown hv').worded
    -- the same text would have two kinds
    rw [Token.Spelled, hkind] at hspelled
    rw [Token.Spelled, hkind', heq, ← hspelled] at hspelled'
    cases hspelled'
  honest := hr.honest

/-- No reference of a session is visited twice. -/
theorem unique (hr : h.Regular) {u v : Visit} {id : ReferenceId} {token token' : Token}
    (hu : Walked h.programs u) (hv : Walked h.programs v)
    (hru : u.reference? = some (id, token)) (hrv : v.reference? = some (id, token')) :
    u = v := by
  obtain ⟨p, hp, hu⟩ := hu
  obtain ⟨q, hq, hv⟩ := hv
  by_cases he : p = q
  · subst he
    exact (hr.covers p hp).clean.eq_of_reference hu hv hru hrv
  · have : Std.Symm fun p q : List Stmt =>
        List.Disjoint (Node.statements p).ids (Node.statements q).ids :=
      ⟨fun _ _ hpq _ hi hj => hpq hj hi⟩
    have hdisjoint := hr.apart.forall hp hq he
    exact absurd (Visit.mem_ids_of_reference hv hrv)
      (hdisjoint (Visit.mem_ids_of_reference hu hru))

/-- The world of a regular history, in which a program may run. -/
theorem runs (hr : h.Regular) :
    ∃ w : World, h.Shows w ∧ w.Runs h.session.interpreter.setting h.handed := by
  obtain ⟨w, hw⟩ := hr.world
  refine ⟨w, hw, hw.sound, ?_, hw.handed⟩
  rw [hw.programs]
  exact hr.prepared

theorem bare (lexicon : Lexicon) (sink : Sink) : (History.bare lexicon sink).Regular where
  covers := nofun
  apart := .nil
  noted _ _ hd := by simp [History.bare] at hd
  honest := by simp [History.bare]
  world := ⟨bareWorld sink, rfl, rfl, rfl, sound_bareWorld sink, nofun⟩

theorem register (hr : h.Regular) {native : Native} (hn : native.Honest h.handed) :
    (h.register native).Regular where
  covers program hp := (hr.covers program hp).follow ⟨rfl, Nat.le_refl _, fun _ _ => rfl⟩
  apart := hr.apart
  noted := hr.noted
  honest other ho := by
    rcases Array.mem_push.1 ho with ho | rfl
    · exact hr.honest other ho
    · exact hn
  world := by
    obtain ⟨w, hw⟩ := hr.world
    let ref : NativeRef :=
      { identity := h.session.interpreter.setting.natives.size, name := native.name
        arity := native.arity }
    have hg : w.Grows [] (w.define globalScope native.name (some (.native ref)) False) :=
      w.grows_define _ _ _ False.elim
    refine ⟨w.define globalScope native.name (some (.native ref)) False, hw.programs, ?_,
      hw.journal, hw.sound.define hw.sound.inhabited ?_,
      fun value hv => (hw.handed value hv).mono hg⟩
    · rw [World.define, World.scopes, hw.machine]
      rfl
    · rintro _ ⟨⟩
      trivial

theorem setDynamicArity (hr : h.Regular) (count : Nat) : (h.setDynamicArity count).Regular where
  covers program hp := (hr.covers program hp).follow ⟨rfl, Nat.le_refl _, fun _ _ => rfl⟩
  apart := hr.apart
  noted := hr.noted
  honest := hr.honest
  world := by
    obtain ⟨w, hw⟩ := hr.world
    exact ⟨w, { hw with }⟩

/-- A source was checked, whether it is accepted or not. -/
theorem checked (hr : h.Regular) {session : Session} {noted : List (ReferenceId × Nat)}
    (hc : h.session.Checks session noted) : ({ h with session } : History).Regular where
  covers program hp := (hr.covers program hp).follow hc.follows
  apart := hr.apart
  noted id d hd := by
    replace hd : session.interpreter.setting.distances[id]? = some d := hd
    rw [hc.interpreter] at hd
    rcases h.session.interpreter.getElem?_noteAll noted id with ⟨d', hd', -⟩ | ⟨-, hget⟩
    · exact (hc.fresh id d' hd').2
    · rw [hget] at hd
      exact Nat.lt_of_lt_of_le (hr.noted id d hd) hc.nextId
  honest native hn := by
    replace hn : native ∈ session.interpreter.setting.natives := hn
    rw [hc.interpreter, Interpreter.natives_noteAll] at hn
    exact hr.honest native hn
  world := by
    obtain ⟨w, hw⟩ := hr.world
    refine ⟨w, { hw with machine := ?_ }⟩
    show w.machine = session.interpreter.machine
    rw [hw.machine, hc.interpreter, Interpreter.machine_noteAll]

/-- A program that was accepted is one of the programs of the session. -/
theorem accept (hr : h.Regular) {session : Session} {noted : List (ReferenceId × Nat)}
    {program : List Stmt} (hc : h.session.Checks session noted)
    (ha : h.session.Accepts session noted program) :
    (({ h with session } : History).accept program).Regular where
  covers := List.forall_mem_cons.2 ⟨ha.covers hc hr.noted, (hr.checked hc).covers⟩
  apart := by
    refine List.pairwise_cons.2 ⟨fun q hq id hid hid' => ?_, hr.apart⟩
    exact Nat.lt_irrefl id (Nat.lt_of_lt_of_le ((hr.covers q hq).used id hid') (ha.ids id hid).1)
  noted := (hr.checked hc).noted
  honest := (hr.checked hc).honest
  world := by
    obtain ⟨w, hw⟩ := (hr.checked hc).world
    have hg := w.grows_accept (t := []) program
    refine ⟨w.accept program, ?_, hw.machine, hw.journal, hw.sound.accept program,
      fun value hv => (hw.handed value hv).mono hg⟩
    rw [World.accept, hw.programs]
    rfl

/-- Where a run comes to is the world of a history again. -/
theorem leave (hr : h.Regular) {w : World} (hw : h.Shows w) {t : List ScopeRef}
    {machine : Machine} {journal : Journal} {post : World → Prop}
    (hreaches : w.Reaches t machine journal post) :
    (h.leave machine journal).Regular ∧
      ∃ w', (h.leave machine journal).Shows w' ∧ post w' := by
  obtain ⟨w', hp, hm, hj, hg, hs, hpost⟩ := hreaches
  have hshows : (h.leave machine journal).Shows w' :=
    ⟨hp.trans hw.programs, hm, hj, hs, fun value hv => (hw.handed value hv).mono hg⟩
  refine ⟨⟨fun program hprogram => ?_, hr.apart, hr.noted, hr.honest, w', hshows⟩,
    w', hshows, hpost⟩
  exact (hr.covers program hprogram).follow ⟨rfl, Nat.le_refl _, fun _ _ => rfl⟩

/-- A value that is known may be handed to the host. -/
theorem hand (hr : h.Regular) {w : World} (hw : h.Shows w) {value? : Option Value}
    (hv : ∀ value ∈ value?, w.Knows value) : (h.hand value?).Regular where
  covers := hr.covers
  apart := hr.apart
  noted := hr.noted
  honest native hn := (hr.honest native hn).mono fun _ hm => List.mem_append_right _ hm
  world := by
    refine ⟨w, { hw with handed := fun value hm => ?_ }⟩
    rcases List.mem_append.1 hm with hm | hm
    · exact hv value (Option.mem_toList.1 hm)
    · exact hw.handed value hm

end Regular

end History

/-! ## Runs -/

theorem Session.eq_of_mem_reportedValue {statements : List Stmt} {value v : Value}
    (h : v ∈ Session.reportedValue statements value) : v = value := by
  unfold Session.reportedValue at h
  split at h
  · exact (Option.some.inj h).symm
  · cases h

namespace History

/-- What is known of a run, however it ends. -/
structure Observed (h : History) (ending : RunEnd) : Prop where
  unique : ∀ u v id token token', Walked h.programs u → Walked h.programs v →
    u.reference? = some (id, token) → v.reference? = some (id, token') → u = v
  moments : ∀ moment ∈ h.journal.moments, moment.Good h.programs h.journal.hostCalls
  distances : ∀ v id token, Walked h.programs v → v.reference? = some (id, token) →
    h.session.interpreter.setting.distances[id]? =
      StaticScope.distance? v.spot.scopes token.lexeme
  broken : ∀ cause, ending = .broken cause →
    (∃ name distance, cause = .undeclared name distance) ∧
      (Strict h.programs h.journal.hostCalls → ∃ u, Premature h.programs u)

variable {h : History}

theorem Regular.observed (hr : h.Regular) {ending : RunEnd}
    (hb : ∀ cause, ending = .broken cause →
      (∃ name distance, cause = .undeclared name distance) ∧
        (Strict h.programs h.journal.hostCalls → ∃ u, Premature h.programs u)) :
    h.Observed ending where
  unique _ _ _ _ _ := hr.unique
  moments := by
    obtain ⟨w, hw⟩ := hr.world
    rw [← hw.programs, ← hw.journal]
    exact hw.sound.moments
  distances := hr.prepared.distances
  broken := hb

theorem Regular.observed_report (hr : h.Regular) (report : Report) :
    h.Observed (.reported report) :=
  hr.observed nofun

theorem Regular.run (hr : h.Regular) (fuel : Nat) (source : String) :
    (h.run fuel source).1.Observed (h.run fuel source).2 ∧
      ∀ report, (h.run fuel source).2 = .reported report → (h.run fuel source).1.Regular := by
  obtain ⟨noted, hc, ha⟩ := h.session.check_spec source
  unfold History.run
  generalize h.session.check source = result at hc ha
  rcases result with ⟨session, diagnostics | program⟩
  · exact ⟨(hr.checked hc).observed_report _, fun _ _ => hr.checked hc⟩
  · have hchecked := hr.accept hc (ha program rfl)
    obtain ⟨w, hw, hruns⟩ := hchecked.runs
    have hk : Keeps [globalScope] w
        (watchProgram session.interpreter.setting fuel program) fun value w' => w'.Knows value :=
      watchProgram_keeps fuel hruns (by rw [hw.programs]; exact List.mem_cons_self)
    unfold Keeps at hk
    rw [hw.journal, hw.machine] at hk
    change Ends _ _ _ (watchProgram session.interpreter.setting fuel program h.journal
      session.interpreter.machine) at hk
    simp only
    generalize watchProgram session.interpreter.setting fuel program h.journal
      session.interpreter.machine = result at hk ⊢
    rcases result with ⟨⟨value, machine⟩ | ⟨diagnostic | cause, machine⟩ | _, journal⟩
    · obtain ⟨hleave, w', hw', hknown⟩ := hchecked.leave hw hk
      have hvalue : ∀ v ∈ Session.reportedValue program value, w'.Knows v := by
        intro v hv
        rw [Session.eq_of_mem_reportedValue hv]
        exact hknown
      have hhand := hleave.hand hw' hvalue
      exact ⟨hhand.observed_report _, fun _ _ => hhand⟩
    · obtain ⟨hleave, -⟩ := hchecked.leave hw hk
      exact ⟨hleave.observed_report _, fun _ _ => hleave⟩
    · obtain ⟨hleave, w', hw', hexcuses⟩ := hchecked.leave hw hk
      refine ⟨hleave.observed ?_, by simp⟩
      rintro _ ⟨⟩
      obtain ⟨hundeclared, hpremature⟩ := hexcuses cause rfl
      unfold World.Strict at hpremature
      rw [hw'.programs, hw'.journal] at hpremature
      exact ⟨hundeclared, hpremature⟩
    · rw [Ends, hw.programs] at hk
      exact ⟨⟨fun _ _ _ _ _ => hchecked.unique, hk, hchecked.prepared.distances, by simp⟩,
        by simp⟩

/-- Sessions are regular. -/
theorem Reachable.regular (hr : h.Reachable) : h.Regular := by
  induction hr with
  | fresh lexicon sink now =>
    exact (Regular.bare lexicon sink).register (Native.honest_clock [] now)
  | register _ hn ih => exact ih.register hn
  | setDynamicArity count _ ih => exact ih.setDynamicArity count
  | @run h fuel source report _ hreport ih => exact (ih.run fuel source).2 report hreport

end History

end TreeScript
