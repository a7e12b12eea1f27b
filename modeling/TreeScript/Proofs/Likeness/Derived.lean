import TreeScript.Proofs.Likeness.Trees

/-!
# Derived trees are alike themselves

* `Symbol.Alike` — alike trees of the grammar
* `Likeness.Covers` — a likeness under which the tokens and the identities between two
  points are alike themselves
* `derives_alike` — what is derived between these points is alike itself
-/

namespace TreeScript

variable {L : Likeness} {c : Convention} {s : Symbol} {p q r : Point}

/-- Alike trees of the grammar. -/
def Symbol.Alike (L : Likeness) : (s : Symbol) → s.Tree → s.Tree → Prop
  | .declarations _ => List.Forall₂ (Stmt.Alike L)
  | .declaration _ | .variable | .statement _ _ => Stmt.Alike L
  | .methods => List.Forall₂ (FunctionDecl.Alike L)
  | .function => fun f f' =>
    List.Forall₂ L.Name f.1 f'.1 ∧ List.Forall₂ (Stmt.Alike L) f.2 f'.2
  | .parameters => List.Forall₂ L.Name
  | .initializer => Option.Rel (Stmt.Alike L)
  | .optionalList => Option.Rel (Expr.Alike L)
  | .arguments => List.Forall₂ (Expr.Alike L)
  | .list | .conditional | .assignment | .level _ | .unary | .call | .primary => Expr.Alike L

section

variable {v : s.Tree}

theorem Derives.nextId_le (hd : Derives c s p v q) : p.nextId ≤ q.nextId := by
  have ht : Tidy .standard p q (s.nodes v) := derives_tidy hd
  exact ht.le

theorem Derives.tokens_subset (hd : Derives c s p v q) : q.tokens ⊆ p.tokens := by
  have ht : Tidy .standard p q (s.nodes v) := derives_tidy hd
  exact ht.tokens

end

/-- The tokens from a point on, and the identities that are handed out up to another one,
are alike themselves. -/
structure Likeness.Covers (L : Likeness) (p q : Point) : Prop where
  token : ∀ t ∈ p.tokens, L.token t t
  id : ∀ i : ReferenceId, p.nextId ≤ i → i < q.nextId → L.id i i

namespace Likeness.Covers

variable {t : Token} {ts us : List Token} {n : ReferenceId} {v : s.Tree}

/-- Up to where a part ends, which another part follows. -/
theorem first (h : L.Covers p r) (hd : Derives c s q v r) : L.Covers p q where
  token := h.token
  id i hp hq := h.id i hp (Nat.lt_of_lt_of_le hq hd.nextId_le)

/-- From where a part ends. -/
theorem second (h : L.Covers p r) (hd : Derives c s p v q) : L.Covers q r where
  token t ht := h.token t (hd.tokens_subset ht)
  id i hq hr := h.id i (Nat.le_trans hd.nextId_le hq) hr

theorem drop (h : L.Covers ⟨t :: ts, n⟩ q) : L.Covers ⟨ts, n⟩ q where
  token t ht := h.token t (List.mem_cons_of_mem _ ht)
  id := h.id

theorem take (h : L.Covers p ⟨us, n⟩) : L.Covers p ⟨ts, n⟩ where
  token := h.token
  id := h.id

theorem name (h : L.Covers ⟨t :: ts, n⟩ q) : L.Name t t :=
  ⟨h.token t List.mem_cons_self, rfl⟩

theorem operator (h : L.Covers ⟨t :: ts, n⟩ q) : L.Operator t t :=
  ⟨h.token t List.mem_cons_self, rfl⟩

end Likeness.Covers

/-- What is derived is alike itself, if its tokens, its identities and its functions are. -/
theorem derives_alike
    (hf : ∀ {name p q parameters body}, Derives c .function p (parameters, body) q →
      L.function { name, parameters, body })
    {v : s.Tree} (h : Derives c s p v q) (hc : L.Covers p q) : s.Alike L v v := by
  induction h with
  | noDeclaration | noMethod => exact .nil
  | moreDeclarations h₁ h₂ ih₁ ih₂ => exact .cons (ih₁ (hc.first h₂)) (ih₂ (hc.second h₁))
  | classDeclaration _ _ _ _ _ ih =>
    exact .classDecl hc.drop.name (ih hc.drop.drop.drop.take)
  | functionDeclaration _ _ h ih | functionStatement _ _ h ih =>
    have ih := ih hc.drop.drop
    exact .function (.mk (hf h) (.some hc.drop.name) ih.1 ih.2)
  | variableDeclaration _ _ ih => exact ih hc.drop
  | plainStatement _ ih | single _ ih | unconditional _ ih | noAssignment _ ih | tighter _ ih
  | tightest _ ih | noOperation _ ih | noCall _ ih => exact ih hc
  | namedMethod _ _ h₁ h₂ ih₁ ih₂ =>
    have ih := ih₁ (hc.drop.first h₂)
    exact .cons (.mk (hf h₁) (.some hc.name) ih.1 ih.2) (ih₂ (hc.drop.second h₁))
  | namelessMethod _ h₁ h₂ ih₁ ih₂ =>
    have ih := ih₁ (hc.first h₂)
    exact .cons (.mk (hf h₁) .none ih.1 ih.2) (ih₂ (hc.second h₁))
  | functionWithout _ _ _ _ _ ih => exact ⟨.nil, ih hc.drop.drop.drop.take⟩
  | functionWith _ h₁ _ _ _ h₂ _ ih₁ ih₂ =>
    exact ⟨ih₁ (hc.drop.take.first h₂).take, ih₂ (hc.drop.second h₁).drop.drop.take⟩
  | lastParameter => exact .cons hc.name .nil
  | moreParameters _ _ _ ih => exact .cons hc.name (ih hc.drop.drop)
  | variableWithout => exact .varDecl hc.name .none
  | variableWith _ _ _ _ ih => exact .varDecl hc.name (.some (ih hc.drop.drop.take))
  | forStatement _ _ h₁ h₂ _ h₃ _ h₄ ih₁ ih₂ ih₃ ih₄ =>
    have h := hc.drop.drop
    have hcondition := h.second h₁
    have hincrement := (hcondition.second h₂).drop
    refine Stmt.forLoop_alike (ih₁ ?_) (ih₂ ?_) (ih₃ (hincrement.first h₄).take)
      (ih₄ (hincrement.second h₃).drop)
    · exact ((h.first h₄).take.first h₃).take.first h₂
    · exact ((hcondition.first h₄).take.first h₃).take
  | branch _ _ h₁ _ h₂ ih₁ ih₂ =>
    have h := hc.drop.drop
    exact .conditional (ih₁ (h.first h₂).take) (ih₂ (h.second h₁).drop) .none
  | branches _ _ h₁ _ h₂ _ _ h₃ ih₁ ih₂ ih₃ =>
    have h := hc.drop.drop
    have hrest := (h.second h₁).drop
    refine .conditional (ih₁ ?_) (ih₂ (hrest.first h₃).take) (.some (ih₃ (hrest.second h₂).drop))
    exact ((h.first h₃).take.first h₂).take
  | printStatement _ _ _ ih => exact .print (ih hc.drop.take)
  | returnWithout => exact .giveBack hc.name.1 .none
  | returnWith _ _ _ ih => exact .giveBack hc.name.1 (.some (ih hc.drop.take))
  | whileStatement _ _ h₁ _ h₂ ih₁ ih₂ =>
    have h := hc.drop.drop
    exact .loop (ih₁ (h.first h₂).take) (ih₂ (h.second h₁).drop)
  | breakStatement => exact .leave hc.name.1
  | block _ _ _ ih => exact .block (ih hc.drop.take)
  | expressionStatement _ _ ih => exact .expression (ih hc.take)
  | noInitializer | noList => exact .none
  | variableInitializer _ _ ih => exact .some (ih hc.drop)
  | expressionInitializer _ _ ih => exact .some (.expression (ih hc.take))
  | someList _ ih => exact .some (ih hc)
  | comma h₁ _ h₂ ih₁ ih₂ =>
    have h := hc.second h₁
    exact .binary (ih₁ (hc.first h₂).take) h.operator (ih₂ h.drop)
  | ternary h₁ _ h₂ _ h₃ ih₁ ih₂ ih₃ =>
    have h := hc.second h₁
    refine .ternary (ih₁ ?_) h.name.1 (Expr.Alike.getD (ih₂ (h.drop.first h₃).take) .nil)
      (ih₃ (h.drop.second h₂).drop)
    exact ((hc.first h₃).take.first h₂).take
  | nameAssignment _ _ h ih =>
    have hle := h.nextId_le
    refine .assign (hc.id _ (Nat.le_refl _) hle) hc.name (ih ⟨hc.drop.drop.token, ?_⟩)
    exact fun i hi => hc.id i (Nat.le_of_succ_le hi)
  | propertyAssignment h₁ _ _ _ h₂ ih₁ ih₂ =>
    have h := (hc.second h₁).drop
    exact .set (ih₁ (hc.first h₂).take) h.name (ih₂ h.drop.drop)
  | @operation level _ _ _ _ _ _ _ _ h₁ _ h₂ ih₁ ih₂ =>
    have h := hc.second h₁
    exact level.node_alike (ih₁ (hc.first h₂).take) h.operator (ih₂ h.drop)
  | unaryOperation _ _ ih => exact .unary hc.operator (ih hc.drop)
  | callWithout h _ _ ih =>
    exact .call (ih hc.take) (hc.second h).drop.name.1 .nil
  | callWith h₁ _ h₂ _ _ ih₁ ih₂ =>
    have h := (hc.second h₁).drop
    exact .call (ih₁ (hc.take.first h₂).take) (h.second h₂).name.1 (ih₂ h.take)
  | property h _ _ ih => exact .get (ih hc.take) (hc.second h).drop.name
  | lastArgument _ ih => exact .cons (ih hc) .nil
  | moreArguments h₁ _ h₂ ih₁ ih₂ =>
    exact .cons (ih₁ (hc.first h₂).take) (ih₂ (hc.second h₁).drop)
  | falsity | truth | absence | literal => exact .constant _
  | reference => exact .variable (hc.id _ (Nat.le_refl _) (Nat.lt_succ_self _)) hc.name
  | self => exact .self (hc.id _ (Nat.le_refl _) (Nat.lt_succ_self _)) hc.name
  | function _ h ih =>
    have ih := ih hc.drop
    exact .function (.mk (hf h) .none ih.1 ih.2)
  | grouping _ _ _ ih => exact .grouping (ih hc.drop.take)

end TreeScript
