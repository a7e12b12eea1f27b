import TreeScript.Proofs.Likeness.Running
import TreeScript.Proofs.Scoping.Sessions

/-!
# Alike sessions

* `Session.Alike` — sessions that are alike but for their lexicons
* `RunEnd.Alike` — runs that end in the same way
* `Session.run_alike` — alike sessions run alike sources in the same way
-/

namespace TreeScript

variable {L : Likeness} {R : Feed L}

/-! ## Sources -/

/-- Alike tokens, or the same fault of the text. -/
inductive Feed.Item (R : Feed L) :
    Except Diagnostic Token → Except Diagnostic Token → Prop
  | token {t u : Token} : R.read t u → R.Item (.ok t) (.ok u)
  | fault (fault : LexFault) (line : Nat) :
      R.Item (.error (.lex fault line)) (.error (.lex fault line))

/-- Tokens that may stand in place of each other in diagnostics. -/
def Feed.Place (R : Feed L) (t u : Token) : Prop :=
  R.read t u ∨ L.token t u

theorem Feed.tokensOf {found found' : List (Except Diagnostic Token)}
    (h : List.Forall₂ R.Item found found') :
    List.Forall₂ R.read (tokensOf found) (tokensOf found') := by
  induction h with
  | nil => exact .nil
  | cons h _ ih =>
    cases h with
    | token h => exact .cons h ih
    | fault _ _ => exact ih

theorem Feed.diagnosticsOf {found found' : List (Except Diagnostic Token)}
    (h : List.Forall₂ R.Item found found') :
    List.Forall₂ (Diagnostic.Alike R.Place) (diagnosticsOf found) (diagnosticsOf found') := by
  induction h with
  | nil => exact .nil
  | cons h _ ih =>
    cases h with
    | token _ => exact ih
    | fault fault line => exact .cons (.lex fault line) ih

/-! ## Sessions -/

/-- Sessions that are alike but for their lexicons. -/
structure Session.Alike (R : Feed L) (s s' : Session) : Prop where
  machine : s.interpreter.machine.Alike L s'.interpreter.machine
  setting : s.interpreter.setting.Alike L s'.interpreter.setting
  nextId : R.supply s.nextId s'.nextId

/-- Results of checking that accept alike programs, or report alike faults. -/
inductive CheckAlike (R : Feed L) :
    Except (List Diagnostic) (List Stmt) → Except (List Diagnostic) (List Stmt) → Prop
  | ok {ss ss'} : List.Forall₂ (Stmt.Alike L) ss ss' → CheckAlike R (.ok ss) (.ok ss')
  | error {ds ds'} : List.Forall₂ (Diagnostic.Alike R.Place) ds ds' →
      CheckAlike R (.error ds) (.error ds')

/-- Runs that end in the same way, with alike values and faults. -/
inductive RunEnd.Alike (L : Likeness) (place : Token → Token → Prop) : RunEnd → RunEnd → Prop
  | reported {r r' : Report} : Option.Rel (Value.Alike L) r.value r'.value →
      List.Forall₂ (Diagnostic.Alike place) r.diagnostics r'.diagnostics →
      RunEnd.Alike L place (.reported r) (.reported r')
  | broken (cause : BrokenScope) : RunEnd.Alike L place (.broken cause) (.broken cause)
  | outOfFuel : RunEnd.Alike L place .outOfFuel .outOfFuel

theorem isEmpty_of_forall₂ {α β : Type} {P : α → β → Prop} {xs : List α} {ys : List β}
    (h : List.Forall₂ P xs ys) : ys.isEmpty = xs.isEmpty := by
  cases h <;> rfl

theorem Interpreter.dynamicArity_noteAll (interpreter : Interpreter)
    (noted : List (ReferenceId × Nat)) :
    (interpreter.noteAll noted).setting.dynamicArity = interpreter.setting.dynamicArity := by
  induction noted generalizing interpreter with
  | nil => rfl
  | cons first rest ih => exact ih _

namespace Session.Alike

variable {s s' : Session} {source source' : String}

/-- Alike findings are noted. -/
theorem noteAll (hu : L.Biunique) (hs : s.Alike R s') {found found' : Findings}
    (hf : found.Alike L found') :
    Session.Alike R { s with interpreter := s.interpreter.noteAll found.distances }
      { s' with interpreter := s'.interpreter.noteAll found'.distances } where
  machine := by
    simp only [Interpreter.machine_noteAll]
    exact hs.machine
  setting :=
    { distances := hs.setting.distances.noteAll hu hf.distances
      natives := fun i => by
        simp only [Interpreter.natives_noteAll]
        exact hs.setting.natives i
      dynamicArity := by
        simp only [Interpreter.dynamicArity_noteAll]
        exact hs.setting.dynamicArity }
  nextId := hs.nextId

/-- Alike sources are read as alike programs. -/
theorem read (hs : s.Alike R s')
    (h : List.Forall₂ R.Item (scan s.lexicon source) (scan s'.lexicon source')) :
    let p := Session.read s.lexicon source s.nextId
    let p' := Session.read s'.lexicon source' s'.nextId
    List.Forall₂ (Stmt.Alike L) p.statements p'.statements ∧ R.supply p.nextId p'.nextId ∧
      List.Forall₂ (Diagnostic.Alike R.Place) p.diagnostics p'.diagnostics := by
  have hp := Program.ofTokens_alike R (R.tokensOf h) hs.nextId
  refine ⟨hp.statements, hp.nextId, List.rel_append (R.diagnosticsOf h) ?_⟩
  exact hp.diagnostics.imp fun _ _ hd => hd.imp fun _ _ => .inl

/-- Alike sources are accepted as alike programs, or rejected for alike faults. -/
theorem check (hu : L.Biunique) (hs : s.Alike R s')
    (h : List.Forall₂ R.Item (scan s.lexicon source) (scan s'.lexicon source')) :
    (s.check source).1.Alike R (s'.check source').1 ∧
      CheckAlike R (s.check source).2 (s'.check source').2 := by
  obtain ⟨hss, hid, hd⟩ := hs.read h
  have hread : Session.Alike R
      { s with nextId := (Session.read s.lexicon source s.nextId).nextId }
      { s' with nextId := (Session.read s'.lexicon source' s'.nextId).nextId } :=
    ⟨hs.machine, hs.setting, hid⟩
  have hfound := resolveProgram_alike hss
  unfold Session.check
  simp only [isEmpty_of_forall₂ hd, isEmpty_of_forall₂ hfound.diagnostics]
  split
  · split
    · exact ⟨hread.noteAll hu hfound, .ok hss⟩
    · refine ⟨hread.noteAll hu hfound, .error ?_⟩
      exact hfound.diagnostics.imp fun _ _ hd => hd.imp fun _ _ => .inr
  · exact ⟨hread, .error hd⟩

/-- A run leaves alike machines behind. -/
theorem withMachine (hs : s.Alike R s') {m m' : Machine} (hm : m.Alike L m') :
    (s.withMachine m).Alike R (s'.withMachine m') :=
  ⟨hm, hs.setting, hs.nextId⟩

/-- Alike programs have alike values. -/
theorem reportedValue {ss ss' : List Stmt} (hss : List.Forall₂ (Stmt.Alike L) ss ss')
    {v v' : Value} (hv : v.Alike L v') :
    Option.Rel (Value.Alike L) (Session.reportedValue ss v) (Session.reportedValue ss' v') := by
  have hlast : Option.Rel (Stmt.Alike L) ss.getLast? ss'.getLast? := by
    have hr : List.Forall₂ (Stmt.Alike L) ss.reverse ss'.reverse := List.rel_reverse hss
    rw [← List.head?_reverse, ← List.head?_reverse]
    generalize ss.reverse = last at hr
    generalize ss'.reverse = last' at hr
    cases hr with
    | nil => exact .none
    | cons h _ => exact .some h
  unfold Session.reportedValue
  generalize ss.getLast? = last at hlast
  generalize ss'.getLast? = last' at hlast
  cases hlast with
  | none => exact .none
  | some h =>
    cases h with
    | expression _ => exact .some hv
    | _ => exact .none

/-- Alike sessions run alike sources in the same way. -/
theorem run (hu : L.Biunique) (hs : s.Alike R s')
    (h : List.Forall₂ R.Item (scan s.lexicon source) (scan s'.lexicon source')) (fuel : Nat) :
    (s.run fuel source).1.Alike R (s'.run fuel source').1 ∧
      (s.run fuel source).2.Alike L R.Place (s'.run fuel source').2 := by
  obtain ⟨hchecked, hresult⟩ := hs.check hu h
  unfold Session.run
  generalize s.check source = checked at hchecked hresult
  generalize s'.check source' = checked' at hchecked hresult
  obtain ⟨s, result⟩ := checked
  obtain ⟨s', result'⟩ := checked'
  cases hresult with
  | error hd => exact ⟨hchecked, .reported .none hd⟩
  | @ok ss ss' hss =>
    have hr := runProgram_alike hchecked.setting fuel hss hchecked.machine
    simp only [Interpreter.run]
    generalize runProgram s.interpreter.setting fuel ss s.interpreter.machine = r at hr
    generalize runProgram s'.interpreter.setting fuel ss' s'.interpreter.machine = r' at hr
    cases hr with
    | done hv hm => exact ⟨hchecked.withMachine hm, .reported (reportedValue hss hv) .nil⟩
    | failed hf hm =>
      cases hf with
      | diagnosed hd _ =>
        exact ⟨hchecked.withMachine hm, .reported .none (.cons (hd.imp fun _ _ => .inr) .nil)⟩
      | broken cause => exact ⟨hchecked.withMachine hm, .broken cause⟩
    | outOfFuel => exact ⟨hchecked, .outOfFuel⟩

end Session.Alike

end TreeScript
