import TreeScript.Proofs.Likeness.Reading
import TreeScript.Session

/-!
# Resolving alike trees

* `Findings.Alike` — the same distances for alike references, and alike faults
* `Expr.Alike.resolve`, `Stmt.Alike.resolve`, … — the walk finds the same in alike trees and
  declares the same names
* `resolveProgram_alike` — and so it does in whole programs
* `Likeness.Distances` — two tables that hold the same distances for alike references, also
  after alike findings are noted
-/

namespace TreeScript

variable {L : Likeness}

/-! ## Findings -/

/-- The same distances for alike references, and the same faults at alike tokens. -/
structure Findings.Alike (L : Likeness) (f g : Findings) : Prop where
  distances : List.Forall₂ (fun (i j : ReferenceId × Nat) => L.id i.1 j.1 ∧ j.2 = i.2)
    f.distances g.distances
  diagnostics : List.Forall₂ (Diagnostic.Alike L.token) f.diagnostics g.diagnostics

namespace Findings.Alike

theorem none : Findings.none.Alike L Findings.none :=
  ⟨.nil, .nil⟩

theorem append {f f' g g' : Findings} (hf : f.Alike L f') (hg : g.Alike L g') :
    (f ++ g).Alike L (f' ++ g') :=
  ⟨List.rel_append hf.distances hg.distances, List.rel_append hf.diagnostics hg.diagnostics⟩

theorem fault {t u : Token} (h : L.token t u) (cause : ScopeFault) :
    (Findings.fault t cause).Alike L (Findings.fault u cause) :=
  ⟨.nil, .cons (.scope cause h) .nil⟩

theorem faultIf {t u : Token} (h : L.token t u) (condition : Bool) (cause : ScopeFault) :
    (Findings.faultIf condition t cause).Alike L (Findings.faultIf condition u cause) := by
  unfold Findings.faultIf
  split
  · exact fault h cause
  · exact none

theorem ofReference {t u : Token} {i j : ReferenceId} (hi : L.id i j) (h : L.Name t u)
    (scopes : List StaticScope) :
    (Findings.ofReference scopes i t).Alike L (Findings.ofReference scopes j u) := by
  unfold Findings.ofReference
  rw [h.2]
  split
  · exact ⟨.cons ⟨hi, rfl⟩ .nil, .nil⟩
  · exact none

end Findings.Alike

/-- Parameters of the same names make the same scope. -/
theorem StaticScope.ofParameters_alike {ts us : List Token} (h : List.Forall₂ L.Name ts us) :
    StaticScope.ofParameters us = StaticScope.ofParameters ts := by
  unfold StaticScope.ofParameters
  generalize (∅ : StaticScope) = scope
  induction h generalizing scope with
  | nil => rfl
  | cons h _ ih =>
    rw [List.foldl_cons, List.foldl_cons, h.2]
    exact ih _

/-! ## The walk -/

mutual

/-- The walk finds the same in alike expressions. -/
theorem Expr.Alike.resolve (around : Surroundings) (scopes : List StaticScope) :
    ∀ {e e' : Expr}, e.Alike L e' →
      (e.resolve around scopes).Alike L (e'.resolve around scopes)
  | _, _, .constant _ => .none
  | _, _, .grouping he | _, _, .unary _ he | _, _, .get he _ => he.resolve around scopes
  | _, _, .binary ha _ hb | _, _, .logical ha _ hb | _, _, .set ha _ hb =>
    (ha.resolve around scopes).append (hb.resolve around scopes)
  | _, _, .ternary hc _ ha hb =>
    ((hc.resolve around scopes).append (ha.resolve around scopes)).append
      (hb.resolve around scopes)
  | _, _, .variable hi ht => by
    rw [Expr.resolve, Expr.resolve, ht.2]
    exact (Findings.Alike.faultIf ht.1 _ _).append (.ofReference hi ht scopes)
  | _, _, .assign hi ht he => (he.resolve around scopes).append (.ofReference hi ht scopes)
  | _, _, .call he _ hes =>
    (he.resolve around scopes).append (Expr.Alike.resolveAll around scopes hes)
  | _, _, .self hi ht => by
    rw [Expr.resolve, Expr.resolve]
    split
    · exact .ofReference hi ht scopes
    · exact .fault ht.1 _
  | _, _, .function hd => hd.resolve around scopes

theorem Expr.Alike.resolveAll (around : Surroundings) (scopes : List StaticScope) :
    ∀ {es es' : List Expr}, List.Forall₂ (Expr.Alike L) es es' →
      (Expr.resolveAll around scopes es).Alike L (Expr.resolveAll around scopes es')
  | _, _, .nil => .none
  | _, _, .cons he hes =>
    (he.resolve around scopes).append (Expr.Alike.resolveAll around scopes hes)

/-- The walk finds the same in alike functions. -/
theorem FunctionDecl.Alike.resolve (around : Surroundings) (scopes : List StaticScope) :
    ∀ {d d' : FunctionDecl}, d.Alike L d' →
      (d.resolve around scopes).Alike L (d'.resolve around scopes)
  | _, _, .mk _ _ hp hb => by
    rw [FunctionDecl.resolve, FunctionDecl.resolve, StaticScope.ofParameters_alike hp]
    exact (Stmt.Alike.resolveAll _ _ hb).2

theorem FunctionDecl.Alike.resolveAll (around : Surroundings) (scopes : List StaticScope) :
    ∀ {ds ds' : List FunctionDecl}, List.Forall₂ (FunctionDecl.Alike L) ds ds' →
      (FunctionDecl.resolveAll around scopes ds).Alike L
        (FunctionDecl.resolveAll around scopes ds')
  | _, _, .nil => .none
  | _, _, .cons hd hds =>
    (hd.resolve around scopes).append (FunctionDecl.Alike.resolveAll around scopes hds)

/-- The walk declares the same names in alike statements, and finds the same. -/
theorem Stmt.Alike.resolve (around : Surroundings) (scopes : List StaticScope) :
    ∀ {s s' : Stmt}, s.Alike L s' →
      (s'.resolve around scopes).1 = (s.resolve around scopes).1 ∧
        (s.resolve around scopes).2.Alike L (s'.resolve around scopes).2
  | _, _, .expression he | _, _, .print he => ⟨rfl, he.resolve around scopes⟩
  | _, _, .varDecl ht .none => by
    rw [Stmt.resolve, Stmt.resolve, ht.2]
    exact ⟨rfl, .none⟩
  | _, _, .varDecl ht (.some he) => by
    rw [Stmt.resolve, Stmt.resolve, ht.2]
    exact ⟨rfl, he.resolve around _⟩
  | _, _, .block hs => ⟨rfl, (Stmt.Alike.resolveAll around _ hs).2⟩
  | _, _, .conditional he hs .none =>
    have ⟨h₁, h₂⟩ := hs.resolve around scopes
    ⟨h₁, (he.resolve around scopes).append h₂⟩
  | _, _, .conditional he hs (.some ho) => by
    have h := hs.resolve around scopes
    rw [Stmt.resolve, Stmt.resolve]
    generalize Stmt.resolve around scopes _ = r at h ⊢
    generalize Stmt.resolve around scopes _ = r' at h ⊢
    obtain ⟨between, found⟩ := r
    obtain ⟨_, found'⟩ := r'
    obtain ⟨rfl, h₂⟩ := h
    have ⟨h₃, h₄⟩ := ho.resolve around between
    exact ⟨h₃, ((he.resolve around scopes).append h₂).append h₄⟩
  | _, _, .loop he hs =>
    have ⟨h₁, h₂⟩ := hs.resolve around scopes
    ⟨h₁, (he.resolve around scopes).append h₂⟩
  | _, _, .leave _ => ⟨rfl, .none⟩
  | _, _, .function (.mk hd .none hp hb) =>
    ⟨rfl, (FunctionDecl.Alike.mk hd .none hp hb).resolve around _⟩
  | _, _, .function (.mk hd (.some hn) hp hb) => by
    rw [Stmt.resolve, Stmt.resolve]
    simp only [hn.2]
    exact ⟨trivial, (FunctionDecl.Alike.mk hd (.some hn) hp hb).resolve around _⟩
  | _, _, .giveBack ht .none => ⟨rfl, .faultIf ht _ _⟩
  | _, _, .giveBack ht (.some he) =>
    ⟨rfl, (Findings.Alike.faultIf ht _ _).append (he.resolve around scopes)⟩
  | _, _, .classDecl ht hds => by
    rw [Stmt.resolve, Stmt.resolve, ht.2]
    exact ⟨rfl, FunctionDecl.Alike.resolveAll _ _ hds⟩

theorem Stmt.Alike.resolveAll (around : Surroundings) (scopes : List StaticScope) :
    ∀ {ss ss' : List Stmt}, List.Forall₂ (Stmt.Alike L) ss ss' →
      (Stmt.resolveAll around scopes ss').1 = (Stmt.resolveAll around scopes ss).1 ∧
        (Stmt.resolveAll around scopes ss).2.Alike L (Stmt.resolveAll around scopes ss').2
  | _, _, .nil => ⟨rfl, .none⟩
  | _, _, .cons hs hss => by
    have h := hs.resolve around scopes
    rw [Stmt.resolveAll, Stmt.resolveAll]
    generalize Stmt.resolve around scopes _ = r at h ⊢
    generalize Stmt.resolve around scopes _ = r' at h ⊢
    obtain ⟨between, found⟩ := r
    obtain ⟨_, found'⟩ := r'
    obtain ⟨rfl, h₂⟩ := h
    have ⟨h₃, h₄⟩ := Stmt.Alike.resolveAll around between hss
    exact ⟨h₃, h₂.append h₄⟩

end

/-- The walk finds the same in alike programs. -/
theorem resolveProgram_alike {ss ss' : List Stmt} (h : List.Forall₂ (Stmt.Alike L) ss ss') :
    (resolveProgram ss).Alike L (resolveProgram ss') :=
  (Stmt.Alike.resolveAll _ _ h).2

/-! ## Distances -/

/-- Two tables that hold the same distances for alike references. -/
def Likeness.Distances (L : Likeness) (s s' : Setting) : Prop :=
  ∀ i i' : ReferenceId, L.id i i' → s'.distances[i']? = s.distances[i]?

/-- Of two alike references, neither is like another one. -/
def Likeness.Biunique (L : Likeness) : Prop :=
  ∀ {i i' j j' : ReferenceId}, L.id i i' → L.id j j' → (i = j ↔ i' = j')

theorem Likeness.Distances.note {i i' : Interpreter} (hu : L.Biunique)
    (h : L.Distances i.setting i'.setting) {id id' : ReferenceId} (hid : L.id id id')
    (distance : Nat) :
    L.Distances (i.note id distance).setting (i'.note id' distance).setting := by
  intro j j' hj
  simp only [Interpreter.note, Std.TreeMap.getElem?_insert, compare_eq_iff_eq, hu hid hj]
  split
  · rfl
  · exact h j j' hj

/-- Alike findings are noted. -/
theorem Likeness.Distances.noteAll (hu : L.Biunique) {found found' : List (ReferenceId × Nat)}
    (hf : List.Forall₂ (fun i j => L.id i.1 j.1 ∧ j.2 = i.2) found found')
    {i i' : Interpreter} (h : L.Distances i.setting i'.setting) :
    L.Distances (i.noteAll found).setting (i'.noteAll found').setting := by
  unfold Interpreter.noteAll
  induction hf generalizing i i' with
  | nil => exact h
  | @cons j j' _ _ hj _ ih =>
    obtain ⟨id, distance⟩ := j
    obtain ⟨id', _⟩ := j'
    obtain ⟨hid, rfl⟩ := hj
    exact ih (h.note hu hid _)

end TreeScript
