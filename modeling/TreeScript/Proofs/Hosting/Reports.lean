import TreeScript.Proofs.Hosting.Dialogues
import TreeScript.Proofs.Parsing.Formation
import TreeScript.Proofs.Running.Composition
import TreeScript.Proofs.Scoping.Access
import TreeScript.Proofs.Scoping.Listings
import Mathlib

/-!
# The shapes of reports

A run is rejected for its text and its grammar, rejected for its names, stopped, or finished.
A report shows which one it is, whatever the session knows and whatever its host functions do.

* `ReportShape` — the four shapes, with their exit status
* `Machine.Through`, `Machine.StopsAt` — statements that are executed one after the other, to
  the end or up to a fault
* `Session.Misread`, `Session.Misscoped`, `Session.Stopped`, `Session.Finished` — what each
  shape says
* `Run.Dynamic` — only faults of a running program stop an evaluation
* `Session.run_shape` — every report is of exactly one shape
-/

namespace TreeScript

/-! ## Kinds of diagnostics -/

/-- A fault of scoping. -/
def Diagnostic.IsScope (d : Diagnostic) : Prop :=
  ∃ fault site line, d = .scope fault site line

/-- A fault of a running program or of its print target. -/
def Diagnostic.IsDynamic (d : Diagnostic) : Prop :=
  (∃ fault line, d = .run fault line) ∨ ∃ fault, d = .output fault

/-- The fault that a segment is, if it is one. -/
def Segment.fault? (segment : Segment) : Option LexFault :=
  match segment.cls with
  | .fault cause => some cause
  | _ => none

/-- The faults of a text that is cut into segments stand in the order of the segments, and so in
the order of their lines. -/
theorem exists_diagnosticsOf_items (line : Nat) (found : List Segment) :
    ∃ faults : List (LexFault × Nat),
      diagnosticsOf (items line found) = faults.map (fun (fault, last) => .lex fault last) ∧
      faults.map Prod.fst = found.filterMap Segment.fault? ∧
      (faults.map Prod.snd).Pairwise (· ≤ ·) ∧ ∀ fault ∈ faults, line ≤ fault.2 := by
  induction found generalizing line with
  | nil => exact ⟨[], rfl, rfl, .nil, nofun⟩
  | cons segment rest ih =>
    obtain ⟨faults, hfaults, horder, hsorted, hle⟩ := ih (line + segment.text.count '\n')
    have hall : ∀ fault ∈ faults, line ≤ fault.2 := fun fault hf =>
      Nat.le_trans (Nat.le_add_right _ _) (hle fault hf)
    have hitems : diagnosticsOf (items line (segment :: rest)) =
        diagnosticsOf (segment.item? (line + segment.text.count '\n')).toList ++
          diagnosticsOf (items (line + segment.text.count '\n') rest) :=
      List.filterMap_append ..
    rw [hitems, hfaults, List.filterMap_cons, Segment.fault?]
    cases hcls : segment.cls with
    | blank =>
      exact ⟨faults, by simp [Segment.item?, hcls, diagnosticsOf], horder, hsorted, hall⟩
    | token kind literal =>
      exact ⟨faults, by simp [Segment.item?, hcls, diagnosticsOf], horder, hsorted, hall⟩
    | fault cause =>
      refine ⟨(cause, line + segment.text.count '\n') :: faults, ?_, ?_, ?_, ?_⟩
      · simp [Segment.item?, hcls, diagnosticsOf]
      · exact congrArg (cause :: ·) horder
      · refine List.pairwise_cons.2 ⟨fun last hm => ?_, hsorted⟩
        obtain ⟨fault, hf, rfl⟩ := List.mem_map.1 hm
        exact hle fault hf
      · exact List.forall_mem_cons.2 ⟨Nat.le_add_right _ _, hall⟩

/-- The faults of names are faults of scoping. -/
theorem isScope_of_mem_resolveProgram {statements : List Stmt} {d : Diagnostic}
    (h : d ∈ (resolveProgram statements).diagnostics) : d.IsScope := by
  obtain ⟨entries, hentries, -, hmarks⟩ := Piece.lists_diagnostics statements
  rw [← hentries, List.mem_map] at h
  obtain ⟨⟨place, d⟩, hmem, rfl⟩ := h
  cases (hmarks place d).1 hmem <;> exact ⟨_, _, _, rfl⟩

/-! ## What stops an evaluation -/

/-- A step that only faults of a running program stop, unless the scopes are broken. -/
structure Run.Dynamic {α : Type} (p : Run α) : Prop where
  dynamic : ∀ m d m', p m = .failed (.diagnosed d) m' → d.IsDynamic

namespace Run.Dynamic

variable {α β : Type}

theorem fault (token : Token) (cause : RunFault) :
    (Run.fault token cause : Run α).Dynamic where
  dynamic := by
    rintro m _ _ ⟨⟩
    exact .inl ⟨_, _, rfl⟩

theorem bind {p : Run α} {f : α → Run β} (h : p.Dynamic) (hn : ∀ a, (f a).Dynamic) :
    Run.Dynamic (p >>= f) where
  dynamic := by
    intro m d m' hr
    rcases (Run.bind_eq_iff (by simp)).1 hr with ⟨failure, m₁, hp, he⟩ | ⟨a, m₁, -, hf⟩
    · cases he
      exact h.dynamic m d m' hp
    · exact (hn a).dynamic m₁ d m' hf

theorem attempt (p : Run α) : (Run.attempt p).Dynamic where
  dynamic := by
    intro m d m' hr
    unfold Run.attempt at hr
    split at hr <;> cases hr

theorem holder (distance? : Option Nat) (scope : ScopeRef) (name : Token) :
    (Run.holder distance? scope name).Dynamic where
  dynamic := by
    intro m d m' hr
    simp only [Run.holder] at hr
    split at hr
    · cases hr
    · rename_i failure hfound
      cases hr
      cases distance? with
      | none =>
        simp only [Scopes.holder] at hfound
        split at hfound
        · cases hfound
        · cases hfound
          exact .inl ⟨_, _, rfl⟩
      | some distance =>
        -- a distance that does not fit is no diagnostic
        simp only at hfound
        by_cases hd : distance ∈ m.scopes.hops scope name.lexeme
        · obtain ⟨found, hup, hdeclares⟩ := hd
          rw [Scopes.holderAt_of_declares hup hdeclares] at hfound
          cases hfound
        · obtain ⟨cause, hcause⟩ := Scopes.holderAt_of_notMem hd
          rw [hcause] at hfound
          cases hfound

theorem readName (distance? : Option Nat) (scope : ScopeRef) (name : Token) :
    (Run.readName distance? scope name).Dynamic := by
  refine (holder distance? scope name).bind fun found => ⟨fun m d m' hr => ?_⟩
  rcases m.scopes.read_cases found name with ⟨value, hread, -⟩ | ⟨fault, hread⟩
  · rw [hread] at hr
    cases hr
  · rw [hread] at hr
    cases hr
    exact .inl ⟨_, _, rfl⟩

theorem print (text : String) : (Run.print text).Dynamic where
  dynamic := by
    intro m d m' hr
    simp only [Run.print] at hr
    split at hr
    · cases hr
    · cases hr
      exact .inr ⟨_, rfl⟩

theorem flush : Run.flush.Dynamic where
  dynamic := by
    intro m d m' hr
    simp only [Run.flush] at hr
    split at hr
    · cases hr
    · cases hr
      exact .inr ⟨_, rfl⟩

/-- Only faults of a running program stop an evaluation, whatever host functions do. -/
theorem compositional : Compositional Dynamic where
  pure _ := ⟨by rintro _ _ _ ⟨⟩⟩
  fault := fault
  stuck := ⟨by rintro _ _ _ ⟨⟩⟩
  bind := bind
  attempt _ := attempt _
  newScope _ := ⟨by rintro _ _ _ ⟨⟩⟩
  define _ _ _ := ⟨by rintro _ _ _ ⟨⟩⟩
  holder := holder
  readName := readName
  newIdentity := ⟨by rintro _ _ _ ⟨⟩⟩
  newObject _ := ⟨by rintro _ _ _ ⟨⟩⟩
  field? _ _ := ⟨by rintro _ _ _ ⟨⟩⟩
  setField _ _ _ := ⟨by rintro _ _ _ ⟨⟩⟩
  print := print
  flush := flush

end Run.Dynamic

/-! ## Statements in a row -/

section Execution

variable {setting : Setting} {fuel : Nat} {statements : List Stmt} {m m' : Machine}
  {last v : Value}

/-- Statements are executed among the globals, one after the other, whatever flow they end
with. -/
inductive Machine.Through (setting : Setting) (fuel : Nat) :
    Machine → List Stmt → Machine → Prop
  | nil (m : Machine) : Machine.Through setting fuel m [] m
  | cons {m m₁ m₂ : Machine} {s : Stmt} {rest : List Stmt} {flow : Flow} :
      execute setting fuel globalScope s m = .done flow m₁ →
      Machine.Through setting fuel m₁ rest m₂ → Machine.Through setting fuel m (s :: rest) m₂

/-- A program is executed up to a fault: one of its statements, or the flush of the print
target behind the last one. -/
inductive Machine.StopsAt (setting : Setting) (fuel : Nat) (m : Machine)
    (statements : List Stmt) (d : Diagnostic) (m' : Machine) : Prop
  | statement {before rest : List Stmt} {s : Stmt} {m₁ : Machine} :
      statements = before ++ s :: rest → Machine.Through setting fuel m before m₁ →
      execute setting fuel globalScope s m₁ = .failed (.diagnosed d) m' →
      Machine.StopsAt setting fuel m statements d m'
  | flush {cause : OutputFault} :
      Machine.Through setting fuel m statements m' → m'.sink.flush = some cause →
      d = .output cause → Machine.StopsAt setting fuel m statements d m'

theorem through_of_done (h : runStatements setting fuel last statements m = .done v m') :
    Machine.Through setting fuel m statements m' := by
  induction statements generalizing last m with
  | nil =>
    cases h
    exact .nil _
  | cons s rest ih =>
    rcases (Run.bind_eq_iff (by simp)).1 h with ⟨_, _, -, he⟩ | ⟨flow, m₁, hs, hrest⟩
    · cases he
    · exact .cons hs (ih hrest)

/-- The statement that fails, and those before it. -/
theorem exists_of_failed {failure : Failure}
    (h : runStatements setting fuel last statements m = .failed failure m') :
    ∃ before s rest m₁, statements = before ++ s :: rest ∧
      Machine.Through setting fuel m before m₁ ∧
      execute setting fuel globalScope s m₁ = .failed failure m' := by
  induction statements generalizing last m with
  | nil => cases h
  | cons s rest ih =>
    rcases (Run.bind_eq_iff (by simp)).1 h with ⟨_, _, hs, he⟩ | ⟨flow, m₁, hs, hrest⟩
    · cases he
      exact ⟨[], s, rest, m, rfl, .nil m, hs⟩
    · obtain ⟨before, s', rest', m₂, rfl, hthrough, hfailed⟩ := ih hrest
      exact ⟨s :: before, s', rest', m₂, rfl, .cons hs hthrough, hfailed⟩

/-- The value of a program is that of its last statement. -/
theorem value_of_concat {before : List Stmt} {s : Stmt}
    (h : runStatements setting fuel last (before ++ [s]) m = .done v m') :
    ∃ m₁ flow, Machine.Through setting fuel m before m₁ ∧
      execute setting fuel globalScope s m₁ = .done flow m' ∧ v = flow.value := by
  induction before generalizing last m with
  | nil =>
    rcases (Run.bind_eq_iff (by simp)).1 h with ⟨_, _, -, he⟩ | ⟨flow, m₁, hs, hrest⟩
    · cases he
    · cases hrest
      exact ⟨m, flow, .nil m, hs, rfl⟩
  | cons first rest ih =>
    rcases (Run.bind_eq_iff (by simp)).1 h with ⟨_, _, -, he⟩ | ⟨flow, m₁, hfirst, hrest⟩
    · cases he
    · obtain ⟨m₂, flow', hthrough, hs, hv⟩ := ih hrest
      exact ⟨m₂, flow', .cons hfirst hthrough, hs, hv⟩

/-- An expression statement ends with what its expression evaluates to. -/
theorem evaluate_of_execute {e : Expr} {flow : Flow}
    (h : execute setting fuel globalScope (.expression e) m = .done flow m') :
    ∃ less v, fuel = less + 1 ∧ evaluate setting less globalScope e m = .done v m' ∧
      flow = .normal v := by
  cases fuel with
  | zero =>
    rw [execute] at h
    cases h
  | succ less =>
    rw [execute] at h
    rcases (Run.bind_eq_iff (by simp)).1 h with ⟨_, _, -, he⟩ | ⟨v, m₁, hv, hpure⟩
    · cases he
    · cases hpure
      exact ⟨less, v, rfl, hv, rfl⟩

/-- A program that ends went through all its statements and could flush its target. -/
theorem runProgram_eq_done (h : runProgram setting fuel statements m = .done v m') :
    runStatements setting fuel .nil statements m = .done v m' ∧ m'.sink.flush = none := by
  rcases (Run.bind_eq_iff (by simp)).1 h with ⟨_, _, -, he⟩ | ⟨w, m₁, hrun, hrest⟩
  · cases he
  · rcases (Run.bind_eq_iff (by simp)).1 hrest with ⟨_, _, -, he⟩ | ⟨_, m₂, hflush, hpure⟩
    · cases he
    · cases hpure
      simp only [Run.flush] at hflush
      split at hflush
      · rename_i hnone
        cases hflush
        exact ⟨hrun, hnone⟩
      · cases hflush

theorem stopsAt_of_failed {d : Diagnostic}
    (h : runProgram setting fuel statements m = .failed (.diagnosed d) m') :
    Machine.StopsAt setting fuel m statements d m' := by
  rcases (Run.bind_eq_iff (by simp)).1 h with ⟨_, _, hrun, he⟩ | ⟨w, m₁, hrun, hrest⟩
  · cases he
    obtain ⟨before, s, rest, m₁, hstatements, hthrough, hs⟩ := exists_of_failed hrun
    exact .statement hstatements hthrough hs
  · rcases (Run.bind_eq_iff (by simp)).1 hrest with ⟨_, _, hflush, he⟩ | ⟨_, m₂, -, hpure⟩
    · cases he
      simp only [Run.flush] at hflush
      split at hflush
      · cases hflush
      · rename_i cause hcause
        cases hflush
        exact .flush (through_of_done hrun) hcause rfl
    · cases hpure

end Execution

/-! ## Shapes -/

/-- What a run came to: its text or its grammar was at fault, or its names were, or it was
stopped, or it went to its end. -/
inductive ReportShape where
  | misread
  | misscoped
  | stopped
  | finished
  deriving DecidableEq, Repr

/-- The exit status that belongs to a shape. -/
def ReportShape.exitCode : ReportShape → Nat
  | misread | misscoped => 65
  | stopped => 70
  | finished => 0

namespace Session

variable {session after : Session} {fuel : Nat} {source : String} {report : Report}

/-- The text or the grammar is at fault: first the faults of the text, in the order of the
source, then those of the grammar.  Nothing was resolved, executed or printed. -/
structure Misread (session after : Session) (source : String) (report : Report) : Prop where
  some : report.diagnostics ≠ []
  parts : report.diagnostics = diagnosticsOf (scan session.lexicon source) ++
    (Program.ofTokens (tokensOf (scan session.lexicon source)) session.nextId).diagnostics
  lexical : ∃ faults : List (LexFault × Nat),
    diagnosticsOf (scan session.lexicon source) =
      faults.map (fun (fault, line) => .lex fault line) ∧
    faults.map Prod.fst = (segments session.lexicon source.toList).filterMap Segment.fault? ∧
    (faults.map Prod.snd).Pairwise (· ≤ ·)
  grammatical : ∀ d ∈ (Program.ofTokens (tokensOf (scan session.lexicon source))
    session.nextId).diagnostics, d.IsGrammar
  idle : after.interpreter = session.interpreter

/-- Only names are at fault.  Nothing was executed or printed. -/
structure Misscoped (session after : Session) (source : String) (report : Report) :
    Prop where
  some : report.diagnostics ≠ []
  readable : (read session.lexicon source session.nextId).diagnostics = []
  scoping : ∀ d ∈ report.diagnostics, d.IsScope
  idle : after.interpreter.machine = session.interpreter.machine

/-- One fault of the running program or of its print target, up to which the program was
executed. -/
structure Stopped (session after : Session) (fuel : Nat) (source : String)
    (report : Report) : Prop where
  stop : ∃ d checked statements, report.diagnostics = [d] ∧ d.IsDynamic ∧
    session.check source = (checked, .ok statements) ∧
    Machine.StopsAt checked.interpreter.setting fuel session.interpreter.machine statements d
      after.interpreter.machine

/-- No fault: the program was executed to its end, and its print target was flushed. -/
structure Finished (session after : Session) (fuel : Nat) (source : String)
    (report : Report) : Prop where
  none : report.diagnostics = []
  through : ∃ checked statements, session.check source = (checked, .ok statements) ∧
    Machine.Through checked.interpreter.setting fuel session.interpreter.machine statements
      after.interpreter.machine
  flushed : after.interpreter.machine.sink.flush = Option.none

/-! ### What a shape says of the diagnostics -/

theorem Misread.isStatic (h : session.Misread after source report) :
    ∀ d ∈ report.diagnostics, (∃ fault line, d = .lex fault line) ∨ d.IsGrammar := by
  obtain ⟨faults, hfaults, -⟩ := h.lexical
  intro d hd
  rw [h.parts, List.mem_append] at hd
  rcases hd with hd | hd
  · rw [hfaults] at hd
    obtain ⟨⟨fault, line⟩, -, rfl⟩ := List.mem_map.1 hd
    exact .inl ⟨fault, line, rfl⟩
  · exact .inr (h.grammatical d hd)

/-- A run and its report are of a shape. -/
def Shows (session : Session) (fuel : Nat) (source : String) (after : Session)
    (report : Report) : ReportShape → Prop
  | .misread => session.Misread after source report
  | .misscoped => session.Misscoped after source report
  | .stopped => session.Stopped after fuel source report
  | .finished => session.Finished after fuel source report

/-- A source is accepted, and its last statement is an expression. -/
def EndsInExpression (session : Session) (source : String) : Prop :=
  ∃ checked before e, session.check source = (checked, .ok (before ++ [.expression e]))

/-- The expression that is the last statement of a source evaluates to a value, behind the
statements before it. -/
def Gives (session : Session) (fuel : Nat) (source : String) (after : Session)
    (v : Value) : Prop :=
  ∃ checked before e m less,
    session.check source = (checked, .ok (before ++ [.expression e])) ∧
    Machine.Through checked.interpreter.setting fuel session.interpreter.machine before m ∧
    fuel = less + 1 ∧
    evaluate checked.interpreter.setting less globalScope e m = .done v after.interpreter.machine

end Session

/-- The shape of a report, as its first diagnostic shows it. -/
def Report.shape (report : Report) : ReportShape :=
  match report.diagnostics with
  | [] => .finished
  | .lex _ _ :: _ | .grammar _ _ _ :: _ => .misread
  | .scope _ _ _ :: _ => .misscoped
  | .run _ _ :: _ | .output _ :: _ => .stopped

namespace Session

variable {session after checked : Session} {fuel : Nat} {source : String} {report : Report}

/-- A report of static faults alone has no runtime error. -/
theorem not_hadRuntimeError (h : ∀ d ∈ report.diagnostics, d.isRuntime = false) :
    ¬report.hadRuntimeError = true := by
  simpa [Report.hadRuntimeError] using h

/-- A report shows no other shape than its own, with the exit status of that shape.  It has
a runtime error just if a fault of the program itself stopped it. -/
theorem Shows.report_eq {shape : ReportShape}
    (h : session.Shows fuel source after report shape) :
    report.shape = shape ∧ report.exitCode = shape.exitCode ∧
      (report.hadRuntimeError = true ↔
        shape = .stopped ∧ ∃ fault line, report.diagnostics = [.run fault line]) := by
  obtain ⟨value, diagnostics⟩ := report
  cases shape with
  | misread =>
    have hall := Misread.isStatic h
    have hnot : ¬Report.hadRuntimeError ⟨value, diagnostics⟩ = true :=
      not_hadRuntimeError fun d hd => by
        rcases hall d hd with ⟨_, _, rfl⟩ | ⟨_, _, _, rfl⟩ <;> rfl
    cases diagnostics with
    | nil => exact absurd rfl h.some
    | cons d rest =>
      refine ⟨?_, ?_, iff_of_false hnot fun hs => nomatch hs.1⟩ <;>
        rcases hall d List.mem_cons_self with ⟨_, _, rfl⟩ | ⟨_, _, _, rfl⟩ <;> rfl
  | misscoped =>
    have hall := Misscoped.scoping h
    have hnot : ¬Report.hadRuntimeError ⟨value, diagnostics⟩ = true :=
      not_hadRuntimeError fun d hd => by
        obtain ⟨_, _, _, rfl⟩ := hall d hd
        rfl
    cases diagnostics with
    | nil => exact absurd rfl h.some
    | cons d rest =>
      obtain ⟨_, _, _, rfl⟩ := hall d List.mem_cons_self
      exact ⟨rfl, rfl, iff_of_false hnot fun hs => nomatch hs.1⟩
  | stopped =>
    obtain ⟨d, -, -, hd, hdynamic, -⟩ := h.stop
    obtain rfl : diagnostics = [d] := hd
    rcases hdynamic with ⟨fault, line, rfl⟩ | ⟨fault, rfl⟩
    · exact ⟨rfl, rfl, iff_of_true rfl ⟨rfl, fault, line, rfl⟩⟩
    · refine ⟨rfl, rfl, iff_of_false (by simp [Report.hadRuntimeError, Diagnostic.isRuntime]) ?_⟩
      rintro ⟨-, _, _, he⟩
      cases he
  | finished =>
    obtain rfl : diagnostics = [] := h.none
    refine ⟨rfl, rfl, iff_of_false (by simp [Report.hadRuntimeError]) ?_⟩
    rintro ⟨he, -⟩
    cases he

/-! ### Every run is of a shape -/

/-- A source that is rejected has faults of its text and grammar, or else of its names. -/
theorem shows_of_rejected {diagnostics : List Diagnostic}
    (h : session.check source = (checked, .error diagnostics)) :
    session.Misread checked source (.failure diagnostics) ∨
      session.Misscoped checked source (.failure diagnostics) := by
  have hgrammar := (Program.formed (tokensOf (scan session.lexicon source)) session.nextId).2
  obtain ⟨faults, hfaults, horder, hsorted, -⟩ :=
    exists_diagnosticsOf_items 1 (segments session.lexicon source.toList)
  unfold check at h
  simp only [List.isEmpty_iff] at h
  split at h
  · rename_i hreadable
    split at h
    · cases h
    · rename_i hnames
      cases h
      refine .inr ⟨hnames, hreadable, fun d => isScope_of_mem_resolveProgram, ?_⟩
      exact Interpreter.machine_noteAll _ _
  · rename_i hfaulty
    cases h
    exact .inl ⟨hfaulty, rfl, ⟨faults, hfaults, horder, hsorted⟩, hgrammar, rfl⟩

theorem reportedValue_concat (before : List Stmt) (s : Stmt) (v : Value) :
    reportedValue (before ++ [s]) v =
      match s with
      | .expression _ => some v
      | _ => none := by
  rw [reportedValue, List.getLast?_concat]
  cases s <;> rfl

/-- A run that reports nothing went to its end, and its value is that of an expression that
is its last statement. -/
theorem finished_of_done {statements : List Stmt} {v : Value} {m : Machine}
    (hc : session.check source = (checked, .ok statements))
    (hr : checked.interpreter.run fuel statements = .done v m) :
    session.Finished (checked.withMachine m) fuel source
        { value := reportedValue statements v, diagnostics := [] } ∧
      ((reportedValue statements v).isSome = true ↔ session.EndsInExpression source) ∧
      ∀ w, reportedValue statements v = some w →
        session.Gives fuel source (checked.withMachine m) w := by
  have hmachine : checked.interpreter.machine = session.interpreter.machine := by
    rw [← session.machine_check source, hc]
  obtain ⟨hrun, hflushed⟩ := runProgram_eq_done hr
  rw [hmachine] at hrun
  refine ⟨⟨rfl, ⟨checked, statements, hc, through_of_done hrun⟩, hflushed⟩, ?_⟩
  rcases List.eq_nil_or_concat statements with rfl | ⟨before, s, rfl⟩
  · refine ⟨iff_of_false (by simp [reportedValue]) ?_, by simp [reportedValue]⟩
    rintro ⟨_, before, e, he⟩
    rw [hc] at he
    simp at he
  · rw [List.concat_eq_append] at hc hrun ⊢
    rw [reportedValue_concat]
    by_cases hs : ∃ e, s = .expression e
    · obtain ⟨e, rfl⟩ := hs
      refine ⟨iff_of_true rfl ⟨checked, before, e, hc⟩, ?_⟩
      rintro w ⟨⟩
      obtain ⟨m₁, flow, hthrough, hexecute, hvalue⟩ := value_of_concat hrun
      obtain ⟨less, u, hfuel, hevaluate, rfl⟩ := evaluate_of_execute hexecute
      obtain rfl : v = u := hvalue
      exact ⟨checked, before, e, m₁, less, hc, hthrough, hfuel, hevaluate⟩
    · have hnone : (match s with
          | .expression _ => some v
          | _ => none) = none := by
        cases s with
        | expression e => exact absurd ⟨e, rfl⟩ hs
        | _ => rfl
      rw [hnone]
      refine ⟨iff_of_false (by simp) ?_, nofun⟩
      rintro ⟨_, before', e, he⟩
      rw [hc] at he
      have hlast : before ++ [s] = before' ++ [.expression e] := by simpa using congrArg Prod.snd he
      exact hs ⟨e, (List.append_inj' hlast rfl).2 |> List.singleton_inj.1⟩

/-- A run that a diagnostic stops was executed up to it. -/
theorem stopped_of_failed {statements : List Stmt} {d : Diagnostic} {m : Machine}
    (hc : session.check source = (checked, .ok statements))
    (hr : checked.interpreter.run fuel statements = .failed (.diagnosed d) m) :
    session.Stopped (checked.withMachine m) fuel source (.failure [d]) := by
  have hmachine : checked.interpreter.machine = session.interpreter.machine := by
    rw [← session.machine_check source, hc]
  have hdynamic : d.IsDynamic :=
    (Run.Dynamic.compositional.runProgram _ fuel statements).dynamic _ d m hr
  have hstops := stopsAt_of_failed hr
  rw [hmachine] at hstops
  exact ⟨d, checked, statements, rfl, hdynamic, hc, hstops⟩

/-- Every report is of exactly one of the four shapes, which shows in its exit status, its
flags and its value: whatever state the session is in, whatever words it knows, and whatever
its host functions do, if the run ends and its scopes are not broken. -/
theorem run_shape (h : session.run fuel source = (after, .reported report)) :
    (∃! shape, session.Shows fuel source after report shape) ∧
    ∀ shape, session.Shows fuel source after report shape →
      report.exitCode = shape.exitCode ∧
      (report.hadRuntimeError = true ↔
        shape = .stopped ∧ ∃ fault line, report.diagnostics = [.run fault line]) ∧
      (report.value.isSome = true ↔
        shape = .finished ∧ session.EndsInExpression source) ∧
      ∀ v, report.value = some v → session.Gives fuel source after v := by
  obtain ⟨shape, hshape, hvalue, hgives⟩ : ∃ shape,
      session.Shows fuel source after report shape ∧
      (report.value.isSome = true ↔ shape = .finished ∧ session.EndsInExpression source) ∧
      ∀ v, report.value = some v → session.Gives fuel source after v := by
    unfold run at h
    split at h
    · rename_i checked diagnostics hc
      cases h
      rcases shows_of_rejected hc with hmisread | hmisscoped
      · exact ⟨.misread, hmisread, by simp [Report.failure], by rintro _ ⟨⟩⟩
      · exact ⟨.misscoped, hmisscoped, by simp [Report.failure], by rintro _ ⟨⟩⟩
    · rename_i checked statements hc
      split at h
      · rename_i v m hr
        cases h
        obtain ⟨hfinished, hends, hgives⟩ := finished_of_done hc hr
        exact ⟨.finished, hfinished, by simpa using hends, hgives⟩
      · rename_i d m hr
        cases h
        exact ⟨.stopped, stopped_of_failed hc hr, by simp [Report.failure], by rintro _ ⟨⟩⟩
      · cases h
      · cases h
  have hunique : ∀ other, session.Shows fuel source after report other → other = shape :=
    fun other hother => hother.report_eq.1.symm.trans hshape.report_eq.1
  refine ⟨⟨shape, hshape, hunique⟩, fun other hother => ?_⟩
  obtain rfl := hunique other hother
  exact ⟨hshape.report_eq.2.1, hshape.report_eq.2.2, hvalue, hgives⟩

/-- A fresh session. -/
def unused : Session :=
  .create .standard .unlimited 0

/-- A source that ends in an expression. -/
def doubling : String :=
  "var word = \"ab\";\nprint word;\nword + word;"

theorem run_shape_doubling :
    ∃ after, unused.run 9 doubling =
        (after, .reported { value := some (.string "abab"), diagnostics := [] }) ∧
      unused.Finished after 9 doubling
        { value := some (.string "abab"), diagnostics := [] } ∧
      unused.Gives 9 doubling after (.string "abab") := by
  have hreported : (unused.run 9 doubling).2 =
      .reported { value := some (.string "abab"), diagnostics := [] } := by
    cbv
  have hrun : unused.run 9 doubling = ((unused.run 9 doubling).1,
      .reported { value := some (.string "abab"), diagnostics := [] }) :=
    Prod.ext rfl hreported
  obtain ⟨⟨shape, hshape, -⟩, hsays⟩ := run_shape hrun
  obtain ⟨-, -, hvalue, hgives⟩ := hsays shape hshape
  obtain ⟨rfl, -⟩ := hvalue.1 rfl
  exact ⟨_, hrun, hshape, hgives _ rfl⟩

end Session

end TreeScript
