import TreeScript.Proofs.Likeness.Running
import TreeScript.Proofs.Running.Fuel

/-!
# One program after the other

* `resolveProgram_append` — the findings of two programs, neither of which declares a name for
  the other
* `runProgram_append` — a program that goes on where another one ended
* `runProgram_sequel` — it does the same as a program that is run on its own there
-/

namespace TreeScript

/-! ## Scoping -/

namespace Findings

theorem none_append (f : Findings) : Findings.none ++ f = f :=
  rfl

theorem append_assoc (f g h : Findings) : f ++ g ++ h = f ++ (g ++ h) := by
  obtain ⟨_, _⟩ := f
  obtain ⟨_, _⟩ := g
  obtain ⟨_, _⟩ := h
  exact congrArg₂ Findings.mk (List.append_assoc ..) (List.append_assoc ..)

end Findings

/-- Among the globals nothing is declared. -/
theorem Stmt.resolve_globals (around : Surroundings) :
    ∀ s : Stmt, (s.resolve around []).1 = []
  | .expression _ | .print _ | .varDecl _ none | .varDecl _ (some _) | .block _ | .leave _
  | .giveBack _ none | .giveBack _ (some _) | .classDecl _ _ => rfl
  | .function declaration => by
    rw [Stmt.resolve]
    cases declaration.name <;> rfl
  | .conditional _ whenTrue none => resolve_globals around whenTrue
  | .conditional _ whenTrue (some whenFalse) => by
    have h := resolve_globals around whenTrue
    rw [Stmt.resolve]
    generalize whenTrue.resolve around [] = r at h ⊢
    obtain ⟨_, found⟩ := r
    obtain rfl : _ = [] := h
    exact resolve_globals around whenFalse
  | .loop _ body => resolve_globals around body

theorem resolveProgram_append (first second : List Stmt) :
    resolveProgram (first ++ second) = resolveProgram first ++ resolveProgram second := by
  unfold resolveProgram
  induction first with
  | nil => exact (Findings.none_append _).symm
  | cons s rest ih =>
    have h := s.resolve_globals { inFunction := false, inClass := false }
    rw [List.cons_append, Stmt.resolveAll, Stmt.resolveAll]
    generalize s.resolve _ [] = r at h ⊢
    obtain ⟨_, found⟩ := r
    obtain rfl : _ = [] := h
    exact (congrArg (found ++ ·) ih).trans (Findings.append_assoc ..).symm

/-! ## Running -/

variable {setting : Setting} {fuel : Nat} {first : List Stmt} {m m' : Machine} {v : Value}

/-- The statements of a program, after others of which the last one had a value. -/
def runSequel (setting : Setting) (fuel : Nat) (last : Value) (statements : List Stmt) :
    Run Value := do
  let value ← runStatements setting fuel last statements
  Run.flush
  return value

theorem runStatements_append (h : runStatements setting fuel v first m = .done v' m')
    (second : List Stmt) :
    runStatements setting fuel v (first ++ second) m =
      runStatements setting fuel v' second m' := by
  induction first generalizing v m with
  | nil =>
    cases h
    rfl
  | cons s rest ih =>
    rw [List.cons_append, runStatements]
    rw [runStatements] at h
    show Run.bind _ _ m = _
    replace h : Run.bind _ _ m = _ := h
    unfold Run.bind at h ⊢
    generalize execute setting fuel globalScope s m = r at h ⊢
    cases r with
    | done flow m₁ => exact ih h
    | failed _ _ | outOfFuel => cases h

/-- A program goes on where another one ended. -/
theorem runProgram_append (h : runProgram setting fuel first m = .done v m')
    (second : List Stmt) :
    runProgram setting fuel (first ++ second) m = runSequel setting fuel v second m' := by
  have hfirst : runStatements setting fuel .nil first m = .done v m' := by
    replace h : Run.bind (runStatements setting fuel .nil first) _ m = _ := h
    unfold Run.bind at h
    generalize runStatements setting fuel .nil first m = r at h ⊢
    cases r with
    | done w m₁ =>
      replace h : Run.bind Run.flush _ m₁ = _ := h
      unfold Run.bind Run.flush at h
      cases hf : m₁.sink.flush with
      | none =>
        rw [hf] at h
        cases h
        rfl
      | some cause =>
        rw [hf] at h
        cases h
    | failed _ _ | outOfFuel => cases h
  show Run.bind _ _ m = Run.bind _ _ m'
  unfold Run.bind
  rw [runStatements_append hfirst]

variable {K L : Likeness} {s s' : Setting}

/-- The value before does not matter to statements of which there are any. -/
theorem runSequel_alike (hs : s.Alike L s') (fuel : Nat) {ts ts' : List Stmt}
    (hts : List.Forall₂ (Stmt.Alike L) ts ts') (v v' : Value) :
    Run.Alike L (fun w w' => ts ≠ [] → w.Alike L w') (runSequel s fuel v ts)
      (runSequel s' fuel v' ts') := by
  refine .bind (P := fun w w' => ts ≠ [] → w.Alike L w') ?_ fun w w' hw =>
    .bind Run.alike_flush fun _ _ _ => .pure hw
  cases hts with
  | nil => exact .pure fun h => absurd rfl h
  | cons ht hts =>
    rw [runStatements, runStatements]
    exact .bind ((Run.alikeAt hs fuel).execute _ ht) fun _ _ hflow =>
      (runStatements_alike hs fuel hts hflow.value).imp fun _ _ hw _ => hw

/-- A program does the same on its own, after another one, as together with the other one.  The
first one knows less: it is run on its own before the references of the second one have
distances. -/
theorem runProgram_sequel (hw : K.Within L) (hs : s.Alike K s') (hs' : s'.Alike L s')
    {first second second' : List Stmt} (hfirst : List.Forall₂ (Stmt.Alike K) first first)
    (hsecond : List.Forall₂ (Stmt.Alike L) second second') (hm : m.Alike K m)
    (h : runProgram s fuel first m = .done v m') :
    Outcome.Alike L (fun w w' => second ≠ [] → w.Alike L w') (runProgram s' fuel second m')
      (runProgram s' fuel (first ++ second') m) := by
  have hrun := runProgram_alike hs fuel hfirst hm
  rw [h] at hrun
  generalize hr : runProgram s' fuel first m = r at hrun
  cases hrun with
  | done hv hm' =>
    rw [runProgram_append hr]
    exact runSequel_alike hs' fuel hsecond .nil _ (hm'.mono hw)

end TreeScript
