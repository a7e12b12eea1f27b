import TreeScript.Proofs.Tracking.Chronicles
import TreeScript.Proofs.Tracking.Framing
import TreeScript.Proofs.Tracking.Standing

/-!
# What evaluation leaves as it was

* `Chronicle.Reachable.rooted` — between two runs all links end at the globals
* `Standing.Reachable` — where interpreters stand, between two runs and within them
* `Standing.Framed` — what an expression or a statement leaves as it was
* `Standing.frame_law` — evaluation does
-/

namespace TreeScript

/-! ## Between two runs -/

/-- The machine of a session without any host function. -/
theorem Machine.rooted_bare (sink : Sink) :
    ({ scopes := (Scopes.create #[] none).2, fields := #[], identities := 0, sink } :
      Machine).Rooted [] where
  scopes :=
    { globals := rfl
      inhabited := Nat.zero_lt_one
      links := fun _ hs hne => absurd (Nat.lt_one_iff.1 hs) hne }
  every := .bare sink _
  handed := nofun

/-- A host function is a plain value among the globals. -/
theorem Machine.Rooted.register {handed : List Value} {m : Machine} (h : m.Rooted handed)
    (name : String) (ref : NativeRef) :
    { m with scopes := m.scopes.define globalScope name (some (.native ref)) }.Rooted handed :=
  h.define globalScope name (by rintro _ ⟨⟩; trivial)

namespace Chronicle

variable {c : Chronicle}

/-- What is known before a program runs, whatever names are allowed. -/
theorem sound_framing {session : Session} (h : c.machine.Rooted c.history.handed)
    (hm : session.interpreter.machine = c.machine) :
    (framing c.history.handed (fun _ _ => True) c.machine.scopes).upkeep.Sound c.record.blank
      session.interpreter.machine := by
  rw [hm]
  exact ⟨h, .refl _ _, nofun⟩

theorem Reachable.honest (h : c.Reachable) (source : String) :
    ∀ native ∈ (c.session.check source).1.interpreter.setting.natives,
      native.Honest c.history.handed := by
  rw [Session.natives_check]
  exact h.history.regular.honest

/-- A source leaves a rooted machine behind, and its nodes were seen at rooted machines. -/
theorem Reachable.rooted_run (h : c.Reachable) (hrooted : c.machine.Rooted c.history.handed)
    (fuel : Nat) (source : String) :
    (c.run fuel source).1.record.Rooted c.history.handed ∧
      ∀ report, (c.run fuel source).2 = .reported report →
        (c.run fuel source).1.machine.Rooted (c.run fuel source).1.history.handed := by
  have hhonest := h.honest source
  have hmachine : (c.session.check source).1.interpreter.machine = c.machine :=
    c.session.machine_check source
  rcases c.run_cases fuel source with ⟨session, _, hc, hrun⟩ | ⟨session, program, hc, hl⟩
  · rw [hc] at hmachine
    rw [hrun]
    refine ⟨nofun, fun _ _ => ?_⟩
    show session.interpreter.machine.Rooted c.history.handed
    rw [hmachine]
    exact hrooted
  · rw [hc] at hmachine hhonest
    have hsound := sound_framing hrooted hmachine
    have hglobal : globalScope < session.interpreter.machine.scopes.size := by
      rw [hmachine]
      exact hrooted.scopes.inhabited
    obtain ⟨htold, hreported⟩ := hl.kept (ruled_framing hhonest _ _) hsound
      ⟨hglobal, fun _ _ _ => trivial⟩
    refine ⟨htold, fun report hr => ?_⟩
    obtain ⟨⟨hafter, -, -⟩, hhanded⟩ := hreported report hr
    exact ⟨hafter.scopes, hafter.every, hhanded⟩

/-- Between two runs all links end at the globals, and all values carry scopes that exist. -/
theorem Reachable.rooted (h : c.Reachable) : c.machine.Rooted c.history.handed := by
  induction h with
  | fresh lexicon sink now => exact (Machine.rooted_bare sink).register _ _
  | register _ _ ih => exact ih.register _ _
  | setDynamicArity count _ ih => exact ih
  | run h hreport ih => exact (h.rooted_run ih _ _).2 _ hreport

end Chronicle

/-! ## Where interpreters stand -/

namespace Standing

variable {standing after : Standing} {machine machine' : Machine}

/-- Where interpreters stand: among the globals between two runs, within a run wherever an
expression or a statement is executed, and after any more of them. -/
inductive Reachable : Standing → Machine → Prop
  | between {c : Chronicle} : c.Reachable →
      Reachable
        { environment := globalScope, globals := globalScope
          setting := c.session.interpreter.setting }
        c.machine
  | within {c : Chronicle} {fuel : Nat} {source : String} {situation : Situation} {node : Node}
      {machine : Machine} : c.Reachable →
      .node situation node machine ∈ (c.run fuel source).1.record.sights →
      Reachable
        { environment := situation.scope, globals := globalScope
          setting := (c.session.check source).1.interpreter.setting }
        machine
  | evaluate {standing after : Standing} {machine machine' : Machine} (fuel : Nat) (e : Expr) :
      Reachable standing machine → Settles (evaluate fuel e standing machine) after machine' →
      Reachable after machine'
  | execute {standing after : Standing} {machine machine' : Machine} (fuel : Nat) (s : Stmt) :
      Reachable standing machine → Settles (execute fuel s standing machine) after machine' →
      Reachable after machine'

/-- What is known of an interpreter: its machine is rooted, and it stands in a scope that
exists. -/
structure Sound (handed : List Value) (standing : Standing) (machine : Machine) : Prop where
  globals : standing.globals = globalScope
  environment : standing.environment < machine.scopes.size
  rooted : machine.Rooted handed
  honest : ∀ native ∈ standing.setting.natives, native.Honest handed

/-! ## What is left as it was -/

/-- What is left as it was when a step has come from one standing and machine to others: the
environment, the globals and what is fixed; the links of scopes; and their names and values,
apart from the allowed ones and from values that are replaced by values.  All chains of
links still end at the globals. -/
structure Framed (allowed : ScopeRef → String → Prop) (before : Standing) (machine : Machine)
    (after : Standing) (machine' : Machine) : Prop where
  same : after = before
  scopes : machine.scopes.Framed allowed machine'.scopes
  chains : ∀ s, s < machine'.scopes.size → ∃ count, machine'.scopes.Links s count

/-- The names that a statement may declare or bind anew, and the scope in which it may. -/
def MayDeclare (environment : ScopeRef) (s : Stmt) (scope : ScopeRef) (name : String) : Prop :=
  scope = environment ∧ name ∈ s.declaredNames

/-- The situation of an interpreter about which nothing else is known. -/
def situation (standing : Standing) : Situation :=
  { spot := .top, scope := standing.environment, receiver := none, hosted := false }

variable {α : Type} {handed : List Value} {allowed : ScopeRef → String → Prop}

theorem Sound.sound_framing (h : Sound handed standing machine)
    (allowed : ScopeRef → String → Prop) :
    (framing handed allowed machine.scopes).upkeep.Sound .empty machine :=
  ⟨h.rooted, .refl _ _, nofun⟩

/-- What the framing regime keeps of a step with a record is framed for the interpreter. -/
theorem Sound.settled (h : Sound handed standing machine) {step : Noting Standing α}
    {tracked : Noting Record α} {run : Run α} {post : α → Record → Machine → Prop}
    (hr : Returns standing step run) (ht : Noting.Shadows tracked run)
    (hk : (framing handed allowed machine.scopes).Keeps .empty machine tracked post)
    (hs : Settles (step standing machine) after machine') :
    Framed allowed standing machine after machine' ∧ Sound handed after machine' := by
  have hback := hr.back machine after machine' hs
  have hsame := (hr.same machine).trans (ht .empty machine).symm
  change Upkeep.Ends _ _ _ _ (tracked .empty machine) at hk
  suffices hm : machine'.Rooted handed ∧ machine.scopes.Framed allowed machine'.scopes by
    obtain ⟨hrooted, hscopes⟩ := hm
    refine ⟨⟨hback, hscopes, hrooted.scopes.exists_links⟩, ?_⟩
    rw [hback]
    exact ⟨h.globals, Nat.lt_of_lt_of_le h.environment hscopes.size, hrooted, h.honest⟩
  generalize tracked .empty machine = result at hk hsame
  generalize step standing machine = reached at hs hsame
  obtain ⟨outcome, left⟩ := reached
  replace hsame : outcome = result.1 := hsame
  subst hsame
  rcases result with ⟨⟨value, m⟩ | ⟨diagnostic | cause, m⟩ | _, record⟩
  · obtain ⟨-, rfl⟩ := hs
    exact ⟨hk.1.1, hk.1.2.1⟩
  · obtain ⟨-, rfl⟩ := hs
    exact ⟨hk.1.1, hk.1.2.1⟩
  · exact hs.elim
  · exact hs.elim

theorem Sound.evaluate (h : Sound handed standing machine) (fuel : Nat) (e : Expr)
    (hs : Settles (evaluate fuel e standing machine) after machine') :
    Framed (fun _ _ => False) standing machine after machine' ∧ Sound handed after machine' :=
  h.settled ((returnsAt fuel standing h.globals).evaluate e)
    ((unrecordedAt standing.setting fuel).evaluate standing.situation e)
    ((Regime.keptAt (ruled_framing h.honest _ _) fuel).evaluate (h.sound_framing _)
      ⟨h.environment, fun _ => nofun⟩) hs

theorem Sound.execute (h : Sound handed standing machine) (fuel : Nat) (s : Stmt)
    (hs : Settles (execute fuel s standing machine) after machine') :
    Framed (MayDeclare standing.environment s) standing machine after machine' ∧
      Sound handed after machine' :=
  h.settled ((returnsAt fuel standing h.globals).execute s)
    ((unrecordedAt standing.setting fuel).execute standing.situation s)
    ((Regime.keptAt (ruled_framing h.honest _ _) fuel).execute (h.sound_framing _)
      ⟨h.environment, fun _ _ hn => ⟨rfl, hn⟩⟩) hs

theorem Reachable.sound (h : Reachable standing machine) :
    ∃ handed, Sound handed standing machine := by
  induction h with
  | between hc =>
    exact ⟨_, rfl, hc.rooted.scopes.inhabited, hc.rooted, hc.history.regular.honest⟩
  | within hc hs =>
    obtain ⟨hrooted, hscope⟩ := (hc.rooted_run hc.rooted _ _).1 _ _ _ hs
    exact ⟨_, rfl, hscope, hrooted, hc.honest _⟩
  | evaluate fuel e _ hs ih =>
    obtain ⟨handed, hsound⟩ := ih
    exact ⟨handed, (hsound.evaluate fuel e hs).2⟩
  | execute fuel s _ hs ih =>
    obtain ⟨handed, hsound⟩ := ih
    exact ⟨handed, (hsound.execute fuel s hs).2⟩

/-- The frame law.  Wherever an interpreter stands, an expression that comes to a value or
to a diagnostic leaves it where it stood, and leaves scopes with their links and just their
names, whose values may be replaced by values.  A statement does so too, except that it may
declare or bind anew, in the current environment, the names that it declares itself.  It is
evaluation in the scope at hand that keeps the environment in this way. -/
theorem frame_law (h : Reachable standing machine) (fuel : Nat) :
    (∀ e,
      (evaluate fuel e standing machine).1 =
        TreeScript.evaluate standing.setting fuel standing.environment e machine ∧
      ∀ after machine', Settles (evaluate fuel e standing machine) after machine' →
        Framed (fun _ _ => False) standing machine after machine') ∧
    ∀ s,
      (execute fuel s standing machine).1 =
        TreeScript.execute standing.setting fuel standing.environment s machine ∧
      ∀ after machine', Settles (execute fuel s standing machine) after machine' →
        Framed (MayDeclare standing.environment s) standing machine after machine' := by
  obtain ⟨handed, hsound⟩ := h.sound
  have hr := returnsAt fuel standing hsound.globals
  exact ⟨fun e => ⟨(hr.evaluate e).same machine, fun _ _ hs => (hsound.evaluate fuel e hs).1⟩,
    fun s => ⟨(hr.execute s).same machine, fun _ _ hs => (hsound.execute fuel s hs).1⟩⟩

/-- The chronicle of a fresh session. -/
def freshChronicle : Chronicle :=
  .fresh .standard .unlimited 0

/-- Where the interpreter of a fresh session stands. -/
def ofFresh : Standing :=
  { environment := globalScope, globals := globalScope
    setting := freshChronicle.session.interpreter.setting }

/-- A block that declares a variable. -/
def declaringBlock : Stmt :=
  .block [.varDecl { kind := .identifier, lexeme := "a", literal := none, line := 1 } none]

theorem frame_law_declaringBlock :
    declaringBlock.declaredNames = [] ∧
      ∃ machine', Settles (execute 4 declaringBlock ofFresh freshChronicle.machine) ofFresh
          machine' ∧
        Framed (MayDeclare globalScope declaringBlock) ofFresh freshChronicle.machine ofFresh
          machine' := by
  have hreachable : Reachable ofFresh freshChronicle.machine := .between (.fresh _ _ _)
  exact ⟨rfl, _, ⟨rfl, rfl⟩, ((frame_law hreachable 4).2 declaringBlock).2 _ _ ⟨rfl, rfl⟩⟩

end Standing

end TreeScript
