import TreeScript.Proofs.Likeness.Machines

/-!
# Running alike programs

* `Flow.Alike` — flows that carry alike values
* `Run.alikeAt` — evaluation does the same with alike trees on alike machines
* `runProgram_alike` — and so do programs
-/

namespace TreeScript

variable {L : Likeness}

/-! ## Flows -/

/-- Flows that carry alike values. -/
inductive Flow.Alike (L : Likeness) : Flow → Flow → Prop
  | normal {v v' : Value} : v.Alike L v' → Flow.Alike L (.normal v) (.normal v')
  | giveBack {v v' : Value} : v.Alike L v' → Flow.Alike L (.giveBack v) (.giveBack v')
  | leave : Flow.Alike L .leave .leave

theorem Flow.Alike.value {flow flow' : Flow} (h : flow.Alike L flow') :
    flow.value.Alike L flow'.value := by
  cases h with
  | normal h => exact h
  | giveBack _ | leave => exact .nil

namespace Run

/-! ## Expressions, statements and calls -/

variable {s s' : Setting}

/-- Everything does the same on alike trees and machines, at one amount of fuel. -/
structure AlikeAt (L : Likeness) (s s' : Setting) (fuel : Nat) : Prop where
  evaluate : ∀ scope {e e'}, e.Alike L e' → Run.Alike L (Value.Alike L)
    (evaluate s fuel scope e) (evaluate s' fuel scope e')
  evaluateAll : ∀ scope {es es'}, List.Forall₂ (Expr.Alike L) es es' →
    Run.Alike L (List.Forall₂ (Value.Alike L)) (evaluateAll s fuel scope es)
      (evaluateAll s' fuel scope es')
  execute : ∀ scope {t t'}, t.Alike L t' → Run.Alike L (Flow.Alike L)
    (execute s fuel scope t) (execute s' fuel scope t')
  repeatWhile : ∀ scope {e e' t t'}, e.Alike L e' → t.Alike L t' →
    Run.Alike L (Flow.Alike L) (repeatWhile s fuel scope e t)
      (repeatWhile s' fuel scope e' t')
  executeAll : ∀ scope {ts ts'}, List.Forall₂ (Stmt.Alike L) ts ts' →
    Run.Alike L (Flow.Alike L) (executeAll s fuel scope ts) (executeAll s' fuel scope ts')
  callValue : ∀ {paren paren' f f' vs vs'}, L.token paren paren' → f.Alike L f' →
    List.Forall₂ (Value.Alike L) vs vs' → Run.Alike L (Value.Alike L)
      (callValue s fuel paren f vs) (callValue s' fuel paren' f' vs')
  runScript : ∀ {paren paren' script script'}, L.token paren paren' →
    script.Alike L script' → Run.Alike L (Value.Alike L)
      (runScript s fuel paren script) (runScript s' fuel paren' script')

namespace AlikeAt

variable {fuel : Nat}

theorem zero : AlikeAt L s s' 0 := by
  constructor <;> intros
  · rw [TreeScript.evaluate, TreeScript.evaluate]; exact Run.alike_stuck
  · rw [TreeScript.evaluateAll, TreeScript.evaluateAll]; exact Run.alike_stuck
  · rw [TreeScript.execute, TreeScript.execute]; exact Run.alike_stuck
  · rw [TreeScript.repeatWhile, TreeScript.repeatWhile]; exact Run.alike_stuck
  · rw [TreeScript.executeAll, TreeScript.executeAll]; exact Run.alike_stuck
  · rw [TreeScript.callValue, TreeScript.callValue]; exact Run.alike_stuck
  · rw [TreeScript.runScript, TreeScript.runScript]; exact Run.alike_stuck

theorem evaluate_step (hs : s.Alike L s') (ih : AlikeAt L s s' fuel) (scope : ScopeRef)
    {e e' : Expr} (he : e.Alike L e') :
    Run.Alike L (Value.Alike L) (TreeScript.evaluate s (fuel + 1) scope e)
      (TreeScript.evaluate s' (fuel + 1) scope e') := by
  cases he
  all_goals rw [TreeScript.evaluate, TreeScript.evaluate]
  case constant value => exact .pure (.ofConstant value)
  case grouping he => exact ih.evaluate scope he
  case unary t t' e e' ht he =>
    refine .bind (ih.evaluate scope he) fun a a' ha => ?_
    rw [ht.2]
    exact Run.alike_ofOperator ht.1 (unaryResult_alike t.kind ha)
  case binary a a' t t' b b' ha ht hb =>
    refine .bind (ih.evaluate scope ha) fun v v' hv => ?_
    refine .bind (ih.evaluate scope hb) fun w w' hw => ?_
    rw [ht.2]
    exact Run.alike_ofOperator ht.1 (binaryResult_alike t.kind hv hw)
  case logical a a' t t' b b' ha ht hb =>
    refine .bind (ih.evaluate scope ha) fun v v' hv => ?_
    rw [ht.2, decidedByLeft_alike t.kind hv]
    split
    · exact .pure hv
    · exact ih.evaluate scope hb
  case ternary hc ht ha hb =>
    refine .bind (ih.evaluate scope hc) fun v v' hv => ?_
    rw [hv.isTruthy]
    split
    · exact ih.evaluate scope ha
    · exact ih.evaluate scope hb
  case «variable» hi ht | self hi ht =>
    rw [hs.distances _ _ hi]
    exact Run.alike_readName ht _ scope
  case assign hi ht he =>
    refine .bind (ih.evaluate scope he) fun v v' hv => ?_
    rw [hs.distances _ _ hi]
    exact .bind (Run.alike_writeName ht _ scope hv) fun _ _ _ => .pure hv
  case call he ht hes =>
    refine .bind (ih.evaluate scope he) fun f f' hf => ?_
    refine .bind (ih.evaluateAll scope hes) fun vs vs' hvs => ?_
    rw [hf.arity? hs.dynamicArity, ← hvs.length_eq]
    split
    · exact Run.alike_fault ht _
    · split
      · exact ih.callValue ht hf hvs
      · exact Run.alike_fault ht _
  case get he ht =>
    refine .bind (ih.evaluate scope he) fun v v' hv => ?_
    cases hv with
    | object address hc => exact Run.alike_property address hc ht
    | _ => exact Run.alike_fault ht.1 _
  case set ha ht hb =>
    refine .bind (ih.evaluate scope ha) fun v v' hv => ?_
    cases hv with
    | object address hc =>
      refine .bind (ih.evaluate scope hb) fun w w' hw => ?_
      rw [ht.2]
      exact .bind (Run.alike_setField address _ hw) fun _ _ _ => .pure hw
    | _ => exact Run.alike_fault ht.1 _
  case function hd => exact Run.alike_newClosure scope hd

theorem evaluateAll_step (ih : AlikeAt L s s' fuel) (scope : ScopeRef)
    {es es' : List Expr} (hes : List.Forall₂ (Expr.Alike L) es es') :
    Run.Alike L (List.Forall₂ (Value.Alike L)) (TreeScript.evaluateAll s (fuel + 1) scope es)
      (TreeScript.evaluateAll s' (fuel + 1) scope es') := by
  cases hes with
  | nil =>
    rw [TreeScript.evaluateAll, TreeScript.evaluateAll]
    exact .pure .nil
  | cons he hes =>
    rw [TreeScript.evaluateAll, TreeScript.evaluateAll]
    exact .bind (ih.evaluate scope he) fun _ _ hv =>
      .bind (ih.evaluateAll scope hes) fun _ _ hvs => .pure (.cons hv hvs)

theorem execute_step (ih : AlikeAt L s s' fuel) (scope : ScopeRef) {t t' : Stmt}
    (ht : t.Alike L t') :
    Run.Alike L (Flow.Alike L) (TreeScript.execute s (fuel + 1) scope t)
      (TreeScript.execute s' (fuel + 1) scope t') := by
  cases ht with
  | expression he =>
    rw [TreeScript.execute, TreeScript.execute]
    exact .bind (ih.evaluate scope he) fun _ _ hv => .pure (.normal hv)
  | print he =>
    rw [TreeScript.execute, TreeScript.execute]
    refine .bind (ih.evaluate scope he) fun v v' hv => ?_
    rw [hv.text]
    exact .bind (Run.alike_print _) fun _ _ _ => .pure (.normal .nil)
  | varDecl ht he =>
    cases he with
    | none =>
      rw [TreeScript.execute, TreeScript.execute, ht.2]
      exact .bind (Run.alike_define scope _ .none) fun _ _ _ => .pure (.normal .nil)
    | some he =>
      rw [TreeScript.execute, TreeScript.execute, ht.2]
      refine .bind (ih.evaluate scope he) fun v v' hv => ?_
      exact .bind (Run.alike_define scope _ (.some hv)) fun _ _ _ => .pure (.normal .nil)
  | block hss =>
    rw [TreeScript.execute, TreeScript.execute]
    refine .bind (Run.alike_newScope scope) fun inner _ hi => ?_
    subst hi
    exact ih.executeAll inner hss
  | conditional he hs ho =>
    cases ho with
    | none =>
      rw [TreeScript.execute, TreeScript.execute]
      refine .bind (ih.evaluate scope he) fun v v' hv => ?_
      rw [hv.isTruthy]
      split
      · exact ih.execute scope hs
      · exact .pure (.normal .nil)
    | some ho =>
      rw [TreeScript.execute, TreeScript.execute]
      refine .bind (ih.evaluate scope he) fun v v' hv => ?_
      rw [hv.isTruthy]
      split
      · exact ih.execute scope hs
      · exact ih.execute scope ho
  | loop he hs =>
    rw [TreeScript.execute, TreeScript.execute]
    exact ih.repeatWhile scope he hs
  | leave _ =>
    rw [TreeScript.execute, TreeScript.execute]
    exact .pure .leave
  | function hd =>
    rw [TreeScript.execute, TreeScript.execute, hd.displayName]
    refine .bind (Run.alike_newClosure scope hd) fun v v' hv => ?_
    exact .bind (Run.alike_define scope _ (.some hv)) fun _ _ _ => .pure (.normal .nil)
  | giveBack _ he =>
    cases he with
    | none =>
      rw [TreeScript.execute, TreeScript.execute]
      exact .pure (.giveBack .nil)
    | some he =>
      rw [TreeScript.execute, TreeScript.execute]
      exact .bind (ih.evaluate scope he) fun _ _ hv => .pure (.giveBack hv)
  | classDecl ht hds =>
    rw [TreeScript.execute, TreeScript.execute, ht.2]
    refine .bind (Run.alike_newClass scope _ hds) fun v v' hv => ?_
    exact .bind (Run.alike_define scope _ (.some hv)) fun _ _ _ => .pure (.normal .nil)

theorem repeatWhile_step (ih : AlikeAt L s s' fuel) (scope : ScopeRef) {e e' : Expr}
    {t t' : Stmt} (he : e.Alike L e') (ht : t.Alike L t') :
    Run.Alike L (Flow.Alike L) (TreeScript.repeatWhile s (fuel + 1) scope e t)
      (TreeScript.repeatWhile s' (fuel + 1) scope e' t') := by
  rw [TreeScript.repeatWhile, TreeScript.repeatWhile]
  refine .bind (ih.evaluate scope he) fun v v' hv => ?_
  rw [hv.isTruthy]
  split
  · refine .bind (ih.execute scope ht) fun flow flow' hf => ?_
    cases hf with
    | normal _ => exact ih.repeatWhile scope he ht
    | leave => exact .pure (.normal .nil)
    | giveBack hv => exact .pure (.giveBack hv)
  · exact .pure (.normal .nil)

theorem executeAll_step (ih : AlikeAt L s s' fuel) (scope : ScopeRef)
    {ts ts' : List Stmt} (hts : List.Forall₂ (Stmt.Alike L) ts ts') :
    Run.Alike L (Flow.Alike L) (TreeScript.executeAll s (fuel + 1) scope ts)
      (TreeScript.executeAll s' (fuel + 1) scope ts') := by
  cases hts with
  | nil =>
    rw [TreeScript.executeAll, TreeScript.executeAll]
    exact .pure (.normal .nil)
  | cons ht hts =>
    rw [TreeScript.executeAll, TreeScript.executeAll]
    refine .bind (ih.execute scope ht) fun flow flow' hf => ?_
    cases hf with
    | normal _ => exact ih.executeAll scope hts
    | leave => exact .pure .leave
    | giveBack hv => exact .pure (.giveBack hv)

theorem callValue_step (hs : s.Alike L s')
    (ih : AlikeAt L s s' fuel) {paren paren' : Token} {f f' : Value} {vs vs' : List Value}
    (ht : L.token paren paren') (hf : f.Alike L f')
    (hvs : List.Forall₂ (Value.Alike L) vs vs') :
    Run.Alike L (Value.Alike L) (TreeScript.callValue s (fuel + 1) paren f vs)
      (TreeScript.callValue s' (fuel + 1) paren' f' vs') := by
  cases hf
  all_goals simp only [TreeScript.callValue]
  case function d d' identity scope hd =>
    refine .bind (Run.alike_newScope scope) fun frame _ h => ?_
    subst h
    refine .bind (Run.alike_defineAll frame hd.parameters hvs) fun _ _ _ => ?_
    refine .bind (ih.executeAll frame hd.body) fun flow flow' hflow => ?_
    cases hflow with
    | giveBack hv => exact .pure hv
    | normal _ | leave => exact .pure .nil
  case native host =>
    have hn := hs.natives host.identity
    generalize s.natives[host.identity]? = n at hn
    generalize s'.natives[host.identity]? = n' at hn
    cases hn with
    | some hn => exact ih.runScript ht (hn.body vs vs' hvs)
    | none => exact .pure .nil
  case classObject hc => exact Run.alike_newObject hc
  all_goals exact Run.alike_fault ht _

theorem runScript_step (ih : AlikeAt L s s' fuel) {paren paren' : Token}
    {script script' : Script} (ht : L.token paren paren') (h : script.Alike L script') :
    Run.Alike L (Value.Alike L) (TreeScript.runScript s (fuel + 1) paren script)
      (TreeScript.runScript s' (fuel + 1) paren' script') := by
  cases h with
  | answer hv =>
    rw [TreeScript.runScript, TreeScript.runScript]
    exact .pure hv
  | fail message =>
    rw [TreeScript.runScript, TreeScript.runScript]
    exact Run.alike_fault ht _
  | call hf hvs hok herror =>
    rw [TreeScript.runScript, TreeScript.runScript]
    refine .bind (Run.alike_attempt (ih.callValue ht hf hvs)) fun r r' hr => ?_
    cases hr with
    | ok hv => exact ih.runScript ht (hok _ _ hv)
    | error hd =>
      simp only [hd.message]
      exact ih.runScript ht (herror _)

end AlikeAt

/-- Everything does the same on alike trees and machines. -/
theorem alikeAt (hs : s.Alike L s') (fuel : Nat) :
    AlikeAt L s s' fuel := by
  induction fuel with
  | zero => exact .zero
  | succ fuel ih =>
    exact {
      evaluate := ih.evaluate_step hs
      evaluateAll := ih.evaluateAll_step
      execute := ih.execute_step
      repeatWhile := ih.repeatWhile_step
      executeAll := ih.executeAll_step
      callValue := ih.callValue_step hs
      runScript := ih.runScript_step }

end Run

/-! ## Programs -/

variable {s s' : Setting}

theorem runStatements_alike (hs : s.Alike L s') (fuel : Nat) {ts ts' : List Stmt}
    (hts : List.Forall₂ (Stmt.Alike L) ts ts') {v v' : Value} (hv : v.Alike L v') :
    Run.Alike L (Value.Alike L) (runStatements s fuel v ts) (runStatements s' fuel v' ts') := by
  induction hts generalizing v v' with
  | nil => exact .pure hv
  | cons ht _ ih =>
    rw [runStatements, runStatements]
    exact .bind ((Run.alikeAt hs fuel).execute _ ht) fun _ _ hflow => ih hflow.value

/-- Alike programs do the same on alike machines. -/
theorem runProgram_alike (hs : s.Alike L s') (fuel : Nat) {ts ts' : List Stmt}
    (hts : List.Forall₂ (Stmt.Alike L) ts ts') :
    Run.Alike L (Value.Alike L) (runProgram s fuel ts) (runProgram s' fuel ts') :=
  .bind (runStatements_alike hs fuel hts .nil) fun _ _ hv =>
    .bind Run.alike_flush fun _ _ _ => .pure hv

end TreeScript
