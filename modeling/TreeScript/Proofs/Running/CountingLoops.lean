import TreeScript.Proofs.Parsing.Acceptance
import TreeScript.Proofs.Running.Composition
import TreeScript.Proofs.Running.Fuel

/-!
# Counting loops

A counting loop is parsed to the `while` loop that it abbreviates.  What that loop does is what
the clauses of the counting loop say, told without blocks and without fuel.

* `Run.Ends` — how a step ends that has enough fuel
* `CountingLoop` — the clauses of a counting loop in order, by the four ways in which it is left
* `ends_forLoop` — the loop that a counting loop abbreviates ends as its clauses say
* `ForClauses` — the tokens of a counting loop and its clauses
* `Parse.forStatement_runs` — so it is for every counting loop that is parsed
-/

namespace TreeScript

/-! ## Ends -/

namespace Run

variable {α β : Type}

/-- How a step ends that has enough fuel. -/
def Ends (p : Nat → Run α) (m : Machine) (r : Outcome α) : Prop :=
  r ≠ .outOfFuel ∧ ∃ fuel, p fuel m = r

/-- A step that ends with more fuel as it does with less. -/
def Fueled (p : Nat → Run α) : Prop :=
  ∀ fuel more, fuel ≤ more → (p fuel).Below (p more)

namespace Ends

variable {p q : Nat → Run α} {f : Nat → α → Run β} {m m' : Machine}

theorem of_done {fuel : Nat} {a : α} (h : p fuel m = .done a m') : Ends p m (.done a m') :=
  ⟨by rintro ⟨⟩, fuel, h⟩

theorem of_failed {fuel : Nat} {failure : Failure} (h : p fuel m = .failed failure m') :
    Ends p m (.failed failure m') :=
  ⟨by rintro ⟨⟩, fuel, h⟩

theorem pure_iff {a : α} {r : Outcome α} :
    Ends (fun _ => Pure.pure a) m r ↔ r = .done a m := by
  constructor
  · rintro ⟨-, fuel, h⟩
    exact h.symm
  · rintro rfl
    exact ⟨by rintro ⟨⟩, 0, rfl⟩

/-- A step that only spends a unit of fuel before it does what another one does. -/
theorem step_iff (h0 : p 0 = stuck) (hstep : ∀ fuel, p (fuel + 1) = q fuel) {r : Outcome α} :
    Ends p m r ↔ Ends q m r := by
  constructor
  · rintro ⟨hr, fuel, h⟩
    cases fuel with
    | zero =>
      rw [h0] at h
      exact absurd h.symm hr
    | succ fuel => exact ⟨hr, fuel, by rw [← hstep, h]⟩
  · rintro ⟨hr, fuel, h⟩
    exact ⟨hr, fuel + 1, by rw [hstep, h]⟩

/-- One step and then another, each of which ends with fuel of its own. -/
theorem bind_iff (hp : Fueled p) (hf : ∀ a, Fueled (f · a)) {r : Outcome β} :
    Ends (fun fuel => p fuel >>= f fuel) m r ↔
      (∃ failure m', Ends p m (.failed failure m') ∧ r = .failed failure m') ∨
      ∃ a m', Ends p m (.done a m') ∧ Ends (f · a) m' r := by
  constructor
  · rintro ⟨hr, fuel, h⟩
    replace h : (p fuel >>= f fuel) m = r := h
    rcases (bind_eq_iff hr).1 h with ⟨failure, m', hfirst, rfl⟩ | ⟨a, m', hfirst, hsecond⟩
    · exact .inl ⟨failure, m', of_failed hfirst, rfl⟩
    · exact .inr ⟨a, m', of_done hfirst, hr, fuel, hsecond⟩
  · rintro (⟨failure, m', ⟨-, fuel, h⟩, rfl⟩ | ⟨a, m', ⟨-, fuel, h⟩, hr, fuel', h'⟩)
    · have hfailed : (p fuel >>= f fuel) m = .failed failure m' :=
        (bind_eq_iff (r := .failed failure m') fun he => by cases he).2
          (.inl ⟨failure, m', h, rfl⟩)
      exact of_failed hfailed
    · -- the larger amount of fuel does for both
      have hfirst : p (max fuel fuel') m = .done a m' :=
        (hp _ _ (Nat.le_max_left ..) m fun he => by rw [h] at he; cases he).trans h
      have hsecond : f (max fuel fuel') a m' = r :=
        (hf a _ _ (Nat.le_max_right ..) m' (by rw [h']; exact hr)).trans h'
      have hdone : (p _ >>= f _) m = r := (bind_eq_iff hr).2 (.inr ⟨a, m', hfirst, hsecond⟩)
      exact ⟨hr, _, hdone⟩

/-- A step that spends a unit of fuel before it does one step and then another. -/
theorem step_bind_iff {whole : Nat → Run β} (h0 : whole 0 = stuck)
    (hstep : ∀ fuel, whole (fuel + 1) = p fuel >>= f fuel) (hp : Fueled p)
    (hf : ∀ a, Fueled (f · a)) {r : Outcome β} :
    Ends whole m r ↔
      (∃ failure m', Ends p m (.failed failure m') ∧ r = .failed failure m') ∨
      ∃ a m', Ends p m (.done a m') ∧ Ends (f · a) m' r :=
  (step_iff h0 hstep).trans (bind_iff hp hf)

end Ends

/-! ### Steps that have fuel -/

theorem Fueled.const (p : Run α) : Fueled fun _ => p :=
  fun _ _ _ => .refl p

theorem Fueled.bind {p : Nat → Run α} {f : Nat → α → Run β} (hp : Fueled p)
    (hf : ∀ a, Fueled (f · a)) : Fueled fun fuel => p fuel >>= f fuel :=
  fun fuel more h => .bind (hp fuel more h) fun a => hf a fuel more h

variable (setting : Setting) (scope : ScopeRef)

theorem fueled_evaluate (e : Expr) : Fueled (evaluate setting · scope e) :=
  fun _ _ h => (belowAt setting h).evaluate scope e

theorem fueled_execute (s : Stmt) : Fueled (execute setting · scope s) :=
  fun _ _ h => (belowAt setting h).execute scope s

theorem fueled_executeAll (ss : List Stmt) : Fueled (executeAll setting · scope ss) :=
  fun _ _ h => (belowAt setting h).executeAll scope ss

theorem fueled_repeatWhile (condition : Expr) (body : Stmt) :
    Fueled (repeatWhile setting · scope condition body) :=
  fun _ _ h => (belowAt setting h).repeatWhile scope condition body

end Run

open Run (Ends Fueled)

variable {setting : Setting} {scope : ScopeRef} {m : Machine} {r : Outcome Flow}

/-! ### Statements -/

theorem ends_block {body : List Stmt} :
    Ends (execute setting · scope (.block body)) m r ↔
      ∃ inner m', Run.newScope scope m = .done inner m' ∧
        Ends (executeAll setting · inner body) m' r := by
  rw [Ends.step_bind_iff (by rw [execute]) (fun _ => by rw [execute]) (.const _)
    (Run.fueled_executeAll setting · body)]
  constructor
  · rintro (⟨failure, m', ⟨-, fuel, h⟩, -⟩ | ⟨inner, m', ⟨-, fuel, h⟩, h'⟩)
    · cases h
    · exact ⟨inner, m', h, h'⟩
  · rintro ⟨inner, m', h, h'⟩
    exact .inr ⟨inner, m', ⟨by rintro ⟨⟩, 0, h⟩, h'⟩

theorem ends_loop {condition : Expr} {body : Stmt} :
    Ends (execute setting · scope (.loop condition body)) m r ↔
      Ends (repeatWhile setting · scope condition body) m r :=
  Ends.step_iff (by rw [execute]) fun _ => by rw [execute]

theorem ends_expression {e : Expr} :
    Ends (execute setting · scope (.expression e)) m r ↔
      (∃ failure m', Ends (evaluate setting · scope e) m (.failed failure m') ∧
        r = .failed failure m') ∨
      ∃ value m', Ends (evaluate setting · scope e) m (.done value m') ∧
        r = .done (.normal value) m' := by
  rw [Ends.step_bind_iff (f := fun _ value => Pure.pure (.normal value)) (by rw [execute])
    (fun _ => by rw [execute]) (Run.fueled_evaluate setting scope e) fun _ => .const _]
  simp only [Ends.pure_iff]

theorem ends_nil :
    Ends (executeAll setting · scope []) m r ↔ r = .done (.normal .nil) m := by
  rw [Ends.step_iff (by rw [executeAll]) fun _ => by rw [executeAll], Ends.pure_iff]

/-- Whether a flow falls through. -/
def Flow.isNormal : Flow → Bool
  | .normal _ => true
  | .giveBack _ | .leave => false

theorem ends_cons {first : Stmt} {rest : List Stmt} :
    Ends (executeAll setting · scope (first :: rest)) m r ↔
      (∃ failure m', Ends (execute setting · scope first) m (.failed failure m') ∧
        r = .failed failure m') ∨
      (∃ flow m', Ends (execute setting · scope first) m (.done flow m') ∧
        flow.isNormal = false ∧ r = .done flow m') ∨
      ∃ value m', Ends (execute setting · scope first) m (.done (.normal value) m') ∧
        Ends (executeAll setting · scope rest) m' r := by
  rw [Ends.step_bind_iff (by rw [executeAll]) (fun _ => by rw [executeAll])
    (Run.fueled_execute setting scope first) fun flow => ?_]
  · refine or_congr_right ⟨?_, ?_⟩
    · rintro ⟨flow, m', hfirst, h⟩
      cases flow with
      | normal value => exact .inr ⟨value, m', hfirst, h⟩
      | giveBack _ | leave => exact .inl ⟨_, m', hfirst, rfl, Ends.pure_iff.1 h⟩
    · rintro (⟨flow, m', hfirst, hflow, rfl⟩ | ⟨value, m', hfirst, h⟩)
      · cases flow with
        | normal _ => cases hflow
        | giveBack _ | leave => exact ⟨_, m', hfirst, Ends.pure_iff.2 rfl⟩
      · exact ⟨_, m', hfirst, h⟩
  · cases flow with
    | normal _ => exact Run.fueled_executeAll setting scope rest
    | giveBack _ | leave => exact .const _

/-! ## Rounds of a loop -/

/-- The rounds of a loop, by what its condition and its body come to.  A condition that does not
hold ends the loop, and so does a `break`; a value that is given back goes on outward, as do
failures; after a round that falls through the condition is looked at again. -/
inductive Rounds (decides : Machine → Outcome Value → Prop)
    (round : Machine → Outcome Flow → Prop) : Machine → Outcome Flow → Prop
  | undecided {m m₁ failure} : decides m (.failed failure m₁) →
      Rounds decides round m (.failed failure m₁)
  | finished {m m₁ decision} : decides m (.done decision m₁) → decision.isTruthy = false →
      Rounds decides round m (.done (.normal .nil) m₁)
  | fails {m m₁ m₂ decision failure} : decides m (.done decision m₁) →
      decision.isTruthy = true → round m₁ (.failed failure m₂) →
      Rounds decides round m (.failed failure m₂)
  | leaves {m m₁ m₂ decision} : decides m (.done decision m₁) → decision.isTruthy = true →
      round m₁ (.done .leave m₂) → Rounds decides round m (.done (.normal .nil) m₂)
  | givesBack {m m₁ m₂ decision value} : decides m (.done decision m₁) →
      decision.isTruthy = true → round m₁ (.done (.giveBack value) m₂) →
      Rounds decides round m (.done (.giveBack value) m₂)
  | again {m m₁ m₂ decision value r} : decides m (.done decision m₁) →
      decision.isTruthy = true → round m₁ (.done (.normal value) m₂) →
      Rounds decides round m₂ r → Rounds decides round m r

section Rounds

variable {condition : Expr} {body : Stmt}

/-- One round of a loop. -/
theorem ends_repeatWhile_iff :
    Ends (repeatWhile setting · scope condition body) m r ↔
      (∃ failure m', Ends (evaluate setting · scope condition) m (.failed failure m') ∧
        r = .failed failure m') ∨
      ∃ decision m', Ends (evaluate setting · scope condition) m (.done decision m') ∧
        if decision.isTruthy then
          (∃ failure m'', Ends (execute setting · scope body) m' (.failed failure m'') ∧
            r = .failed failure m'') ∨
          ∃ flow m'', Ends (execute setting · scope body) m' (.done flow m'') ∧
            match flow with
            | .normal _ => Ends (repeatWhile setting · scope condition body) m'' r
            | .leave => r = .done (.normal .nil) m''
            | .giveBack value => r = .done (.giveBack value) m''
        else r = .done (.normal .nil) m' := by
  have hflow : ∀ flow : Flow, Fueled fun fuel => (match flow with
      | .normal _ => repeatWhile setting fuel scope condition body
      | .leave => Pure.pure (.normal .nil)
      | .giveBack value => Pure.pure (.giveBack value) : Run Flow) := by
    intro flow
    cases flow with
    | normal _ => exact Run.fueled_repeatWhile setting scope condition body
    | leave | giveBack _ => exact .const _
  rw [Ends.step_bind_iff (by rw [repeatWhile]) (fun _ => by rw [repeatWhile])
    (Run.fueled_evaluate setting scope condition) fun decision => ?_]
  · refine or_congr_right (exists_congr fun decision => exists_congr fun m' =>
      and_congr_right fun _ => ?_)
    split
    · refine (Ends.bind_iff (Run.fueled_execute setting scope body) hflow).trans ?_
      refine or_congr_right (exists_congr fun flow => exists_congr fun m'' =>
        and_congr_right fun _ => ?_)
      cases flow with
      | normal _ => exact Iff.rfl
      | leave | giveBack _ => exact Ends.pure_iff
    · exact Ends.pure_iff
  · split
    · exact .bind (Run.fueled_execute setting scope body) hflow
    · exact .const _

/-- What a loop does in its rounds. -/
theorem ends_repeatWhile :
    Ends (repeatWhile setting · scope condition body) m r ↔
      Rounds (Ends (evaluate setting · scope condition)) (Ends (execute setting · scope body))
        m r := by
  constructor
  · rintro ⟨hr, fuel, h⟩
    replace h : repeatWhile setting fuel scope condition body m = r := h
    induction fuel generalizing m with
    | zero =>
      rw [repeatWhile] at h
      exact absurd h.symm hr
    | succ fuel ih =>
      rw [repeatWhile] at h
      rcases (Run.bind_eq_iff hr).1 h with ⟨failure, m₁, hd, rfl⟩ | ⟨decision, m₁, hd, hround⟩
      · exact .undecided (Ends.of_failed hd)
      have hdecides : Ends (evaluate setting · scope condition) m (.done decision m₁) :=
        Ends.of_done hd
      by_cases ht : decision.isTruthy
      · rw [if_pos ht] at hround
        rcases (Run.bind_eq_iff hr).1 hround with ⟨failure, m₂, hb, rfl⟩ | ⟨flow, m₂, hb, hrest⟩
        · exact .fails hdecides ht (Ends.of_failed hb)
        have hbody : Ends (execute setting · scope body) m₁ (.done flow m₂) :=
          Ends.of_done hb
        cases flow with
        | normal value => exact .again hdecides ht hbody (ih hrest)
        | leave =>
          obtain rfl : Outcome.done (.normal .nil) m₂ = r := hrest
          exact .leaves hdecides ht hbody
        | giveBack value =>
          obtain rfl : Outcome.done (.giveBack value) m₂ = r := hrest
          exact .givesBack hdecides ht hbody
      · rw [if_neg ht] at hround
        obtain rfl : Outcome.done (.normal .nil) m₁ = r := hround
        exact .finished hdecides (by simpa using ht)
  · intro h
    induction h with
    | undecided hd => exact ends_repeatWhile_iff.2 (.inl ⟨_, _, hd, rfl⟩)
    | finished hd ht =>
      refine ends_repeatWhile_iff.2 (.inr ⟨_, _, hd, ?_⟩)
      rw [ht]
      rfl
    | fails hd ht hb =>
      refine ends_repeatWhile_iff.2 (.inr ⟨_, _, hd, ?_⟩)
      rw [if_pos ht]
      exact .inl ⟨_, _, hb, rfl⟩
    | leaves hd ht hb | givesBack hd ht hb =>
      refine ends_repeatWhile_iff.2 (.inr ⟨_, _, hd, ?_⟩)
      rw [if_pos ht]
      exact .inr ⟨_, _, hb, rfl⟩
    | again hd ht hb _ ih =>
      refine ends_repeatWhile_iff.2 (.inr ⟨_, _, hd, ?_⟩)
      rw [if_pos ht]
      exact .inr ⟨_, _, hb, ih⟩

end Rounds

theorem Rounds.ne_outOfFuel {decides : Machine → Outcome Value → Prop}
    {round : Machine → Outcome Flow → Prop} (h : Rounds decides round m r) : r ≠ .outOfFuel := by
  induction h with
  | again _ _ _ _ ih => exact ih
  | undecided _ | finished _ _ | fails _ _ _ | leaves _ _ _ | givesBack _ _ _ =>
    exact fun he => by cases he

/-- A loop that is left normally falls through with nothing. -/
theorem Rounds.normal_eq_nil {decides : Machine → Outcome Value → Prop}
    {round : Machine → Outcome Flow → Prop} {m' : Machine} {value : Value}
    (h : Rounds decides round m (.done (.normal value) m')) : value = .nil := by
  generalize hr : Outcome.done (Flow.normal value) m' = r at h
  induction h with
  | undecided _ | fails _ _ _ | givesBack _ _ _ => cases hr
  | finished _ _ | leaves _ _ _ =>
    cases hr
    rfl
  | again _ _ _ _ ih => exact ih hr

/-! ## The clauses of a counting loop -/

/-- What the initializer of a counting loop comes to.  A missing one does nothing. -/
def Initializes (setting : Setting) (scope : ScopeRef) :
    Option Stmt → Machine → Outcome Flow → Prop
  | some initializer => Ends (execute setting · scope initializer)
  | none => fun m r => r = .done (.normal .nil) m

/-- What the condition of a counting loop comes to.  A missing one is true. -/
def Decides (setting : Setting) (scope : ScopeRef) :
    Option Expr → Machine → Outcome Value → Prop
  | some condition => Ends (evaluate setting · scope condition)
  | none => fun m r => r = .done (.bool true) m

/-- What the increment of a counting loop comes to.  A missing one does nothing. -/
def Increments (setting : Setting) (scope : ScopeRef) :
    Option Expr → Machine → Outcome Value → Prop
  | some increment => Ends (evaluate setting · scope increment)
  | none => fun m r => r = .done .nil m

/-- One round of a counting loop: the body in a fresh scope and then, only if the body falls
through, the increment in the same scope. -/
inductive CountingRound (setting : Setting) (scope : ScopeRef) (increment : Option Expr)
    (body : Stmt) : Machine → Outcome Flow → Prop
  | fails {m m₁ m₂ inner failure} : Run.newScope scope m = .done inner m₁ →
      Ends (execute setting · inner body) m₁ (.failed failure m₂) →
      CountingRound setting scope increment body m (.failed failure m₂)
  | stops {m m₁ m₂ inner flow} : Run.newScope scope m = .done inner m₁ →
      Ends (execute setting · inner body) m₁ (.done flow m₂) → flow.isNormal = false →
      CountingRound setting scope increment body m (.done flow m₂)
  | incrementFails {m m₁ m₂ m₃ inner value failure} : Run.newScope scope m = .done inner m₁ →
      Ends (execute setting · inner body) m₁ (.done (.normal value) m₂) →
      Increments setting inner increment m₂ (.failed failure m₃) →
      CountingRound setting scope increment body m (.failed failure m₃)
  | goesOn {m m₁ m₂ m₃ inner value counted} : Run.newScope scope m = .done inner m₁ →
      Ends (execute setting · inner body) m₁ (.done (.normal value) m₂) →
      Increments setting inner increment m₂ (.done counted m₃) →
      CountingRound setting scope increment body m (.done (.normal .nil) m₃)

/-- A counting loop: the initializer once in a fresh scope, and then rounds in that scope. -/
inductive CountingLoop (setting : Setting) (scope : ScopeRef) (initializer : Option Stmt)
    (condition increment : Option Expr) (body : Stmt) : Machine → Outcome Flow → Prop
  | fails {m m₁ m₂ outer failure} : Run.newScope scope m = .done outer m₁ →
      Initializes setting outer initializer m₁ (.failed failure m₂) →
      CountingLoop setting scope initializer condition increment body m (.failed failure m₂)
  | runs {m m₁ m₂ outer flow r} : Run.newScope scope m = .done outer m₁ →
      Initializes setting outer initializer m₁ (.done flow m₂) →
      Rounds (Decides setting outer condition) (CountingRound setting outer increment body) m₂ r →
      CountingLoop setting scope initializer condition increment body m r

/-! ### What the abbreviated loop does -/

theorem ends_condition {condition : Option Expr} :
    Ends (evaluate setting · scope (condition.getD (.constant (.bool true)))) =
      Decides setting scope condition := by
  funext m r
  cases condition with
  | some condition => rfl
  | none =>
    refine propext ((Ends.step_iff (q := fun _ => Pure.pure (.bool true)) ?_ fun _ => ?_).trans
      Ends.pure_iff)
    · rw [evaluate]
    · rw [Option.getD_none, evaluate]
      rfl

theorem ends_increment {increment : Option Expr} :
    Ends (executeAll setting · scope (increment.map Stmt.expression).toList) m r ↔
      (∃ failure m', Increments setting scope increment m (.failed failure m') ∧
        r = .failed failure m') ∨
      ∃ counted m', Increments setting scope increment m (.done counted m') ∧
        r = .done (.normal .nil) m' := by
  cases increment with
  | none =>
    refine ends_nil.trans ⟨fun h => .inr ⟨.nil, m, rfl, h⟩, ?_⟩
    rintro (⟨failure, m', h, -⟩ | ⟨counted, m', h, rfl⟩)
    · cases h
    · cases h
      rfl
  | some increment =>
    refine ends_cons.trans ⟨?_, ?_⟩
    · rintro (⟨failure, m', h, rfl⟩ | ⟨flow, m', h, hflow, rfl⟩ | ⟨value, m', h, hr⟩)
      all_goals rcases ends_expression.1 h with ⟨failure', m₁, h, he⟩ | ⟨value', m₁, h, he⟩
      all_goals cases he
      · exact .inl ⟨_, _, h, rfl⟩
      · cases hflow
      · exact .inr ⟨_, _, h, ends_nil.1 hr⟩
    · rintro (⟨failure, m', h, rfl⟩ | ⟨counted, m', h, rfl⟩)
      · exact .inl ⟨_, _, ends_expression.2 (.inl ⟨_, _, h, rfl⟩), rfl⟩
      · exact .inr (.inr ⟨_, _, ends_expression.2 (.inr ⟨_, _, h, rfl⟩), ends_nil.2 rfl⟩)

theorem ends_countingRound {increment : Option Expr} {body : Stmt} :
    Ends (execute setting · scope (.block (body :: (increment.map Stmt.expression).toList))) =
      CountingRound setting scope increment body := by
  funext m r
  refine propext (ends_block.trans ⟨?_, ?_⟩)
  · rintro ⟨inner, m₁, hscope, h⟩
    rcases ends_cons.1 h with ⟨failure, m₂, hbody, rfl⟩ | ⟨flow, m₂, hbody, hflow, rfl⟩ |
      ⟨value, m₂, hbody, hrest⟩
    · exact .fails hscope hbody
    · exact .stops hscope hbody hflow
    · rcases ends_increment.1 hrest with ⟨failure, m₃, hcount, rfl⟩ | ⟨counted, m₃, hcount, rfl⟩
      · exact .incrementFails hscope hbody hcount
      · exact .goesOn hscope hbody hcount
  · intro h
    cases h with
    | fails hscope hbody => exact ⟨_, _, hscope, ends_cons.2 (.inl ⟨_, _, hbody, rfl⟩)⟩
    | stops hscope hbody hflow =>
      exact ⟨_, _, hscope, ends_cons.2 (.inr (.inl ⟨_, _, hbody, hflow, rfl⟩))⟩
    | incrementFails hscope hbody hcount =>
      have hrest := ends_increment.2 (.inl ⟨_, _, hcount, rfl⟩)
      exact ⟨_, _, hscope, ends_cons.2 (.inr (.inr ⟨_, _, hbody, hrest⟩))⟩
    | goesOn hscope hbody hcount =>
      have hrest := ends_increment.2 (.inr ⟨_, _, hcount, rfl⟩)
      exact ⟨_, _, hscope, ends_cons.2 (.inr (.inr ⟨_, _, hbody, hrest⟩))⟩

/-- The rounds of the loop that a counting loop abbreviates, as the last statement of its
block. -/
theorem ends_countingRounds {condition increment : Option Expr} {body : Stmt} :
    Ends (executeAll setting · scope [.loop (condition.getD (.constant (.bool true)))
        (.block (body :: (increment.map Stmt.expression).toList))]) m r ↔
      Rounds (Decides setting scope condition) (CountingRound setting scope increment body)
        m r := by
  have hloop : ∀ r, Ends (execute setting · scope (.loop (condition.getD (.constant (.bool true)))
      (.block (body :: (increment.map Stmt.expression).toList)))) m r ↔
      Rounds (Decides setting scope condition) (CountingRound setting scope increment body) m r :=
    fun r => by rw [ends_loop, ends_repeatWhile, ends_condition, ends_countingRound]
  rw [ends_cons]
  simp only [hloop, ends_nil]
  constructor
  · rintro (⟨failure, m', h, rfl⟩ | ⟨flow, m', h, -, rfl⟩ | ⟨value, m', h, rfl⟩)
    · exact h
    · exact h
    · exact h.normal_eq_nil ▸ h
  · intro h
    cases r with
    | failed failure m' => exact .inl ⟨_, _, h, rfl⟩
    | done flow m' =>
      cases hflow : flow.isNormal with
      | false => exact .inr (.inl ⟨_, _, h, hflow, rfl⟩)
      | true =>
        cases flow with
        | normal value =>
          obtain rfl := h.normal_eq_nil
          exact .inr (.inr ⟨_, _, h, rfl⟩)
        | giveBack _ | leave => cases hflow
    | outOfFuel => exact absurd rfl h.ne_outOfFuel

/-- What the parser takes as an initializer. -/
def Stmt.isInitializer : Stmt → Bool
  | .varDecl .. | .expression _ => true
  | _ => false

/-- An initializer falls through, if it does not fail. -/
theorem isNormal_of_initializer {s : Stmt} (hs : s.isInitializer = true) {flow : Flow}
    {m' : Machine} (h : Ends (execute setting · scope s) m (.done flow m')) :
    flow.isNormal = true := by
  match s with
  | .expression e =>
    rcases ends_expression.1 h with ⟨failure, m₁, -, he⟩ | ⟨value, m₁, -, he⟩ <;> cases he
    rfl
  | .varDecl name none =>
    obtain ⟨-, fuel, h⟩ := (Ends.step_iff (by rw [execute]) fun _ => by rw [execute]).1 h
    cases h
    rfl
  | .varDecl name (some e) =>
    let f := fun (_ : Nat) (v : Value) => do
      Run.define scope name.lexeme (some v)
      return Flow.normal .nil
    rcases (Ends.step_bind_iff (f := f) (by rw [execute]) (fun _ => by rw [execute])
      (Run.fueled_evaluate setting scope e) fun _ => .const _).1 h with
      ⟨failure, m₁, -, he⟩ | ⟨value, m₁, -, -, fuel, he⟩ <;> cases he
    rfl

/-- The loop that a counting loop abbreviates does what the clauses of the counting loop say. -/
theorem ends_forLoop {initializer : Option Stmt} {condition increment : Option Expr} {body : Stmt}
    (hinitializer : ∀ s ∈ initializer, s.isInitializer = true) :
    Ends (execute setting · scope (.forLoop initializer condition increment body)) m r ↔
      CountingLoop setting scope initializer condition increment body m r := by
  rw [Stmt.forLoop, ends_block]
  cases initializer with
  | none =>
    constructor
    · rintro ⟨outer, m₁, hscope, h⟩
      exact .runs hscope rfl (ends_countingRounds.1 h)
    · intro h
      cases h with
      | fails hscope h => cases h
      | runs hscope h hrounds =>
        cases h
        exact ⟨_, _, hscope, ends_countingRounds.2 hrounds⟩
  | some s =>
    constructor
    · rintro ⟨outer, m₁, hscope, h⟩
      rcases ends_cons.1 h with ⟨failure, m₂, hs, rfl⟩ | ⟨flow, m₂, hs, hflow, rfl⟩ |
        ⟨value, m₂, hs, hrounds⟩
      · exact .fails hscope hs
      · rw [isNormal_of_initializer (hinitializer s rfl) hs] at hflow
        cases hflow
      · exact .runs hscope hs (ends_countingRounds.1 hrounds)
    · intro h
      cases h with
      | fails hscope h => exact ⟨_, _, hscope, ends_cons.2 (.inl ⟨_, _, h, rfl⟩)⟩
      | @runs _ m₂ outer flow _ hscope h hrounds =>
        have hflow := isNormal_of_initializer (hinitializer s rfl) h
        cases flow with
        | normal value =>
          exact ⟨_, _, hscope, ends_cons.2 (.inr (.inr ⟨_, _, h, ends_countingRounds.2 hrounds⟩))⟩
        | giveBack _ | leave => cases hflow

/-! ## Counting loops that are parsed -/

/-- The tokens of a counting loop and its clauses, as the grammar has them. -/
inductive ForClauses : Point → Option Stmt → Option Expr → Option Expr → Stmt → Point → Prop
  | clauses {keyword lp finish rp ts us vs n m k j initializer condition increment d body q} :
      keyword.kind = .forKeyword → lp.kind = .leftParen →
      Derives .standard .initializer ⟨ts, n⟩ initializer m →
      Derives .standard .optionalList m condition ⟨finish :: us, k⟩ → finish.kind = .semicolon →
      Derives .standard .optionalList ⟨us, k⟩ increment ⟨rp :: vs, j⟩ → rp.kind = .rightParen →
      Derives .standard (.statement true d) ⟨vs, j⟩ body q →
      ForClauses ⟨keyword :: lp :: ts, n⟩ initializer condition increment body q

theorem isInitializer_of_derives {p q : Point} {initializer : Option Stmt}
    (h : Derives .standard .initializer p initializer q) :
    ∀ s ∈ initializer, s.isInitializer = true := by
  cases h with
  | noInitializer _ => nofun
  | variableInitializer _ h =>
    rintro s ⟨⟩
    cases h <;> rfl
  | expressionInitializer _ _ =>
    rintro s ⟨⟩
    rfl

theorem ForClauses.isInitializer {p q : Point} {initializer : Option Stmt}
    {condition increment : Option Expr} {body : Stmt}
    (h : ForClauses p initializer condition increment body q) :
    ∀ s ∈ initializer, s.isInitializer = true := by
  cases h with
  | clauses _ _ h => exact isInitializer_of_derives h

/-- A statement that begins with `for` is derived from its clauses. -/
theorem forClauses_of_derives {inLoop dangling : Bool} {p q : Point} {s : Stmt}
    (h : Derives .standard (.statement inLoop dangling) p s q)
    (hfor : p.nextKind = .forKeyword) :
    ∃ initializer condition increment body,
      s = .forLoop initializer condition increment body ∧
      ForClauses p initializer condition increment body q := by
  cases h with
  | forStatement hkey hlp h₁ h₂ hfinish h₃ hrp h₄ =>
    exact ⟨_, _, _, _, rfl, .clauses hkey hlp h₁ h₂ hfinish h₃ hrp h₄⟩
  | expressionStatement h _ =>
    exact absurd (begins h).1 (by rw [hfor]; decide)
  | branch hkey | branches hkey | printStatement hkey | returnWithout hkey | returnWith hkey
    | whileStatement hkey | breakStatement hkey | block hkey | functionStatement hkey =>
    rw [Point.nextKind, List.headD_cons, hkey] at hfor
    cases hfor

/-- Whatever stands in its clauses, a counting loop that is parsed without a fault does, in every
scope and on every machine, what its clauses say, and the statements behind it go on in the scope
in which the loop was entered. -/
theorem Parse.forStatement_runs {fuel : Nat} {s t : ParseState} {tree : Stmt}
    (hfor : s.nextKind = .forKeyword) (h : Parse.statement fuel s = .ok tree t)
    (hquiet : t.diagnostics = s.diagnostics) :
    ∃ initializer condition increment body,
      ForClauses s.point initializer condition increment body t.point ∧
      ∀ (setting : Setting) (scope : ScopeRef) (m : Machine) (r : Outcome Flow),
        (Ends (execute setting · scope tree) m r ↔
          CountingLoop setting scope initializer condition increment body m r) ∧
        ∀ rest : List Stmt, Ends (executeAll setting · scope (tree :: rest)) m r ↔
          (∃ failure m', CountingLoop setting scope initializer condition increment body m
            (.failed failure m') ∧ r = .failed failure m') ∨
          (∃ flow m', CountingLoop setting scope initializer condition increment body m
            (.done flow m') ∧ flow.isNormal = false ∧ r = .done flow m') ∨
          ∃ value m', CountingLoop setting scope initializer condition increment body m
            (.done (.normal value) m') ∧ Ends (executeAll setting · scope rest) m' r := by
  obtain ⟨d, hderived, -⟩ := (Parse.sound (c := .standard) rfl fuel).statement s t tree h
    (by rw [ParseState.Quiet, hquiet])
  obtain ⟨initializer, condition, increment, body, rfl, hclauses⟩ :=
    forClauses_of_derives hderived hfor
  have hinitializer := hclauses.isInitializer
  refine ⟨initializer, condition, increment, body, hclauses, fun setting scope m r =>
    ⟨ends_forLoop hinitializer, fun rest => ?_⟩⟩
  simp only [ends_cons, ends_forLoop hinitializer]

/-- The tokens of `for (var i = 0; i; i = 0) break;`. -/
def breakingLoop : List Token :=
  [Program.word .forKeyword "for", Program.word .leftParen "(", Program.word .varKeyword "var",
    Program.word .identifier "i", Program.word .equal "=", Program.word .number "0",
    Program.word .semicolon ";", Program.word .identifier "i", Program.word .semicolon ";",
    Program.word .identifier "i", Program.word .equal "=", Program.word .number "0",
    Program.word .rightParen ")", Program.word .breakKeyword "break",
    Program.word .semicolon ";", Token.finish 1]

/-- What these tokens are parsed to. -/
def breakingTree : Stmt :=
  .forLoop (some (.varDecl (Program.word .identifier "i") (some (.constant .nil))))
    (some (.variable 0 (Program.word .identifier "i")))
    (some (.assign 1 (Program.word .identifier "i") (.constant .nil)))
    (.leave (Program.word .breakKeyword "break"))

theorem Parse.forStatement_runs_breakingLoop :
    ∃ initializer condition increment body,
      ForClauses ⟨breakingLoop, 0⟩ initializer condition increment body ⟨[Token.finish 1], 2⟩ ∧
      ∀ (setting : Setting) (scope : ScopeRef) (m : Machine) (r : Outcome Flow),
        Ends (execute setting · scope breakingTree) m r ↔
          CountingLoop setting scope initializer condition increment body m r := by
  have hparsed : Parse.statement 20 (.start breakingLoop 0) = .ok breakingTree
      { rest := [Token.finish 1], nextId := 2, loopDepth := 0, diagnostics := [] } := by cbv
  obtain ⟨initializer, condition, increment, body, hclauses, hruns⟩ :=
    Parse.forStatement_runs rfl hparsed rfl
  exact ⟨initializer, condition, increment, body, hclauses,
    fun setting scope m r => (hruns setting scope m r).1⟩

end TreeScript
