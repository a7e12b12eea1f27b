import TreeScript.Proofs.Tracking.FrameLaw
import TreeScript.Proofs.Tracking.Receivers
import Mathlib

/-!
# `this` stays the instance that the method was taken from

* `Chronicle.Vouched` — between two runs functions carry the receivers that they were born
  with
* `Chronicle.Reachable.this_stays` — whenever a method that was taken from an instance runs,
  `this` is that instance
-/

namespace TreeScript

/-- Nothing was seen yet. -/
theorem Record.Faithful.blank (setting : Setting) (r : Record) : r.blank.Faithful setting r where
  births _ _ hb := hb
  taken _ _ _ hm := absurd hm List.not_mem_nil
  self _ _ _ _ hm := absurd hm List.not_mem_nil

namespace Chronicle

variable {c : Chronicle}

/-- Functions carry the receivers that they were born with. -/
structure Vouched (c : Chronicle) : Prop where
  size : c.record.births.size = c.machine.identities
  every : c.machine.Every (c.record.Vouches c.history.programs c.machine.scopes)
  handed : ∀ value ∈ c.history.handed,
    c.record.Vouches c.history.programs c.machine.scopes value

theorem Vouched.fresh (lexicon : Lexicon) (sink : Sink) (now : Float) :
    (Chronicle.fresh lexicon sink now).Vouched where
  size := rfl
  every := (Machine.Every.bare sink _).define globalScope _ (by rintro _ ⟨⟩; trivial)
  handed := nofun

theorem Vouched.register (hv : c.Vouched) (hrooted : c.machine.Rooted c.history.handed)
    (native : Native) : (c.register native).Vouched := by
  -- the globals hold no `this` of a method
  have hf : c.record.Follows c.machine.scopes c.record (c.register native).machine.scopes :=
    ⟨fun _ _ hb => hb, .define c.machine.scopes (.inr hrooted.scopes.globals) _⟩
  refine ⟨hv.size, ?_, fun value hm => (hv.handed value hm).mono hf⟩
  exact (hv.every.imp fun _ h => h.mono hf).define globalScope _ (by rintro _ ⟨⟩; trivial)

/-- What is known before an accepted program runs. -/
theorem Vouched.sound (hv : c.Vouched) {session : Session} (program : List Stmt)
    (hm : session.interpreter.machine = c.machine) (setting : Setting) :
    c.record.blank.Sound (program :: c.history.programs) setting c.history.handed c.record
      session.interpreter.machine := by
  rw [hm]
  exact ⟨hv.size, hv.every.imp fun _ h => h.accept program,
    fun value hm => (hv.handed value hm).accept program, .blank setting c.record⟩

theorem Reachable.run_faithful (h : c.Reachable) (hl : c.session.lexicon = .standard)
    (hv : c.Vouched) (fuel : Nat) (source : String) :
    (c.run fuel source).1.record.Faithful (c.session.check source).1.interpreter.setting
        c.record ∧
      ∀ report, (c.run fuel source).2 = .reported report → (c.run fuel source).1.Vouched := by
  have hhonest := h.honest source
  have hmachine : (c.session.check source).1.interpreter.machine = c.machine :=
    c.session.machine_check source
  obtain ⟨noted, hchecks, haccepts⟩ := c.session.check_spec source
  rcases c.run_cases fuel source with ⟨session, _, hc, hrun⟩ | ⟨session, program, hc, hleaves⟩
  · rw [hc] at hmachine
    rw [hrun]
    refine ⟨.blank _ c.record, fun _ _ => ?_⟩
    have hsame : c.machine = session.interpreter.machine := hmachine.symm
    have hsize := hv.size
    have hevery := hv.every
    have hhanded := hv.handed
    rw [hsame] at hsize hevery hhanded
    exact ⟨hsize, hevery, hhanded⟩
  · rw [hc] at hmachine hhonest hchecks haccepts ⊢
    have hregular := h.history.regular.accept hchecks (haccepts program rfl)
    have hversed := hregular.versed (hchecks.lexicon.trans hl)
    have hsound := hv.sound program hmachine session.interpreter.setting
    have hwalked : Walked (program :: c.history.programs) (.root program) :=
      ⟨program, List.mem_cons_self, .refl⟩
    obtain ⟨htold, hreported⟩ := hleaves.kept (ruled_receiving hhonest hversed c.record) hsound
      ⟨hwalked, .globals⟩
    refine ⟨htold, fun report hr => ?_⟩
    obtain ⟨hafter, hhanded⟩ := hreported report hr
    have hprograms := hleaves.programs
    refine ⟨hafter.size, ?_, ?_⟩
    · rw [hprograms]
      exact hafter.every
    · rw [hprograms]
      exact hhanded

theorem lexicon_run (c : Chronicle) (fuel : Nat) (source : String) :
    (c.run fuel source).1.session.lexicon = c.session.lexicon := by
  obtain ⟨noted, hchecks, -⟩ := c.session.check_spec source
  rcases c.run_cases fuel source with ⟨session, _, hc, hrun⟩ | ⟨session, program, hc, hleaves⟩
  · rw [hc] at hchecks
    rw [hrun]
    exact hchecks.lexicon
  · rw [hc] at hchecks
    exact hleaves.lexicon.trans hchecks.lexicon

theorem Reachable.vouched (h : c.Reachable) (hl : c.session.lexicon = .standard) :
    c.Vouched := by
  induction h with
  | fresh lexicon sink now => exact .fresh lexicon sink now
  | register h _ ih => exact (ih hl).register h.rooted _
  | setDynamicArity count _ ih => exact ⟨(ih hl).size, (ih hl).every, (ih hl).handed⟩
  | @run c fuel source report h hreport ih =>
    rw [lexicon_run] at hl
    exact (h.run_faithful hl (ih hl) fuel source).2 report hreport

/-- Whatever a session with the standard lexicon did before: what belonged to an instance
still does after one more source, also if this fails or goes on for too long; every method
that is taken from an instance belongs to it; and wherever `this` is evaluated, it is the
instance that the surrounding method was taken from. -/
theorem Reachable.this_stays (h : c.Reachable) (hl : c.session.lexicon = .standard)
    (fuel : Nat) (source : String) :
    (c.run fuel source).1.record.Faithful (c.session.check source).1.interpreter.setting
      c.record :=
  (h.run_faithful hl (h.vouched hl) fuel source).1

/-- Whether a sight is one of `this`. -/
def isSelf : Sight → Bool
  | .node _ (.expression (.self ..)) _ => true
  | _ => false

/-- A source that takes a method from an instance and calls it later.  The method answers a
function, in which `this` stands. -/
def laterSelf : String :=
  "class A \x7b m() \x7b return fun() \x7b return this; \x7d; \x7d \x7d var f = A().m; f()();"

theorem this_stays_laterSelf :
    let c := Chronicle.fresh .standard .unlimited 0
    ∃ situation id keyword machine receiver,
      .node situation (.expression (.self id keyword)) machine ∈
          (c.run 20 laterSelf).1.record.sights ∧
        situation.receiver = some receiver ∧
        evaluate (c.session.check laterSelf).1.interpreter.setting 1 situation.scope
          (.self id keyword) machine = .done receiver.value machine := by
  intro c
  have hseen : (c.run 20 laterSelf).1.record.sights.any isSelf = true := by cbv
  obtain ⟨sight, hm, hself⟩ := List.any_eq_true.1 hseen
  obtain ⟨situation, id, keyword, machine, rfl⟩ : ∃ situation id keyword machine,
      sight = .node situation (.expression (.self id keyword)) machine := by
    unfold isSelf at hself
    split at hself
    · exact ⟨_, _, _, _, rfl⟩
    · cases hself
  have hfaithful := Reachable.this_stays (.fresh .standard .unlimited 0) rfl 20 laterSelf
  obtain ⟨receiver, hreceiver, hvalue⟩ := hfaithful.self situation id keyword machine hm
  exact ⟨situation, id, keyword, machine, receiver, hm, hreceiver, hvalue 0⟩

end Chronicle

end TreeScript
