import TreeScript.Proofs.Likeness.Reading

/-!
# Trees with later identities

The identities of a program are handed out from a first one on.  With a later first one the
program is the same, and each of its identities is as much later.

* `Expr.shift`, `FunctionDecl.shift`, `Stmt.shift` — a tree with later identities
* `Likeness.shifted` — trees whose later identities are shifted
* `Program.shift`, `Program.followedBy` — programs with later identities, one after the other
* `Program.ofTokens_shift` — what is parsed with a later first identity
-/

namespace TreeScript

/-! ## Trees -/

mutual

/-- An expression with identities that are later by `count`. -/
def Expr.shift (count : Nat) : Expr → Expr
  | .constant value => .constant value
  | .grouping inner => .grouping (inner.shift count)
  | .unary operator operand => .unary operator (operand.shift count)
  | .binary left operator right => .binary (left.shift count) operator (right.shift count)
  | .logical left operator right => .logical (left.shift count) operator (right.shift count)
  | .ternary condition question whenTrue whenFalse =>
    .ternary (condition.shift count) question (whenTrue.shift count) (whenFalse.shift count)
  | .variable id name => .variable (id + count) name
  | .assign id name value => .assign (id + count) name (value.shift count)
  | .call callee paren arguments =>
    .call (callee.shift count) paren (Expr.shiftAll count arguments)
  | .get object name => .get (object.shift count) name
  | .set object name value => .set (object.shift count) name (value.shift count)
  | .self id keyword => .self (id + count) keyword
  | .function declaration => .function (declaration.shift count)

/-- Expressions with identities that are later by `count`. -/
def Expr.shiftAll (count : Nat) : List Expr → List Expr
  | [] => []
  | first :: rest => first.shift count :: Expr.shiftAll count rest

/-- A function with identities that are later by `count`. -/
def FunctionDecl.shift (count : Nat) : FunctionDecl → FunctionDecl
  | { name, parameters, body } => { name, parameters, body := Stmt.shiftAll count body }

/-- Functions with identities that are later by `count`. -/
def FunctionDecl.shiftAll (count : Nat) : List FunctionDecl → List FunctionDecl
  | [] => []
  | first :: rest => first.shift count :: FunctionDecl.shiftAll count rest

/-- A statement with identities that are later by `count`. -/
def Stmt.shift (count : Nat) : Stmt → Stmt
  | .expression value => .expression (value.shift count)
  | .print value => .print (value.shift count)
  | .varDecl name none => .varDecl name none
  | .varDecl name (some value) => .varDecl name (some (value.shift count))
  | .block body => .block (Stmt.shiftAll count body)
  | .conditional condition whenTrue none =>
    .conditional (condition.shift count) (whenTrue.shift count) none
  | .conditional condition whenTrue (some whenFalse) =>
    .conditional (condition.shift count) (whenTrue.shift count)
      (some (whenFalse.shift count))
  | .loop condition body => .loop (condition.shift count) (body.shift count)
  | .leave keyword => .leave keyword
  | .function declaration => .function (declaration.shift count)
  | .giveBack keyword none => .giveBack keyword none
  | .giveBack keyword (some value) => .giveBack keyword (some (value.shift count))
  | .classDecl name methods => .classDecl name (FunctionDecl.shiftAll count methods)

/-- Statements with identities that are later by `count`. -/
def Stmt.shiftAll (count : Nat) : List Stmt → List Stmt
  | [] => []
  | first :: rest => first.shift count :: Stmt.shiftAll count rest

end

/-! ## The likeness of shifted trees -/

/-- The same trees, except that the identities from `start` on are shifted by `count`. -/
def Likeness.shifted (start count : Nat) : Likeness where
  token t u := u = t
  id := fun (i j : Nat) => (i < start ∧ j = i) ∨ (start ≤ i ∧ j = i + count)
  function _ := True

section

variable {count : Nat}

theorem Likeness.token_eq {t u : Token} (h : (Likeness.shifted 0 count).token t u) : u = t :=
  h

theorem Likeness.id_eq {i j : ReferenceId} (h : (Likeness.shifted 0 count).id i j) :
    j = i + count :=
  h.elim (fun h => absurd h.1 (Nat.not_lt_zero i)) And.right

theorem Likeness.Name.eq {t u : Token} (h : (Likeness.shifted 0 count).Name t u) : u = t :=
  h.1

theorem Likeness.Operator.eq {t u : Token} (h : (Likeness.shifted 0 count).Operator t u) : u = t :=
  h.1

theorem Likeness.names_eq {ts us : List Token}
    (h : List.Forall₂ (Likeness.shifted 0 count).Name ts us) : us = ts := by
  induction h with
  | nil => rfl
  | cons h _ ih => rw [h.eq, ih]

theorem Likeness.name?_eq {t u : Option Token}
    (h : Option.Rel (Likeness.shifted 0 count).Name t u) : u = t := by
  cases h with
  | none => rfl
  | some h => rw [h.eq]

mutual

theorem Expr.Alike.eq_shift : ∀ {e e' : Expr}, e.Alike (.shifted 0 count) e' → e' = e.shift count
  | _, _, .constant value => rfl
  | _, _, .grouping he => by rw [Expr.shift, he.eq_shift]
  | _, _, .unary ht he => by rw [Expr.shift, ht.eq, he.eq_shift]
  | _, _, .binary ha ht hb => by rw [Expr.shift, ht.eq, ha.eq_shift, hb.eq_shift]
  | _, _, .logical ha ht hb => by rw [Expr.shift, ht.eq, ha.eq_shift, hb.eq_shift]
  | _, _, .ternary hc ht ha hb => by
    rw [Expr.shift, Likeness.token_eq ht, hc.eq_shift, ha.eq_shift, hb.eq_shift]
  | _, _, .variable hi ht => by rw [Expr.shift, ht.eq, Likeness.id_eq hi]
  | _, _, .assign hi ht he => by rw [Expr.shift, ht.eq, Likeness.id_eq hi, he.eq_shift]
  | _, _, .call he ht hes => by
    rw [Expr.shift, Likeness.token_eq ht, he.eq_shift, Expr.Alike.eq_shiftAll hes]
  | _, _, .get he ht => by rw [Expr.shift, ht.eq, he.eq_shift]
  | _, _, .set ha ht hb => by rw [Expr.shift, ht.eq, ha.eq_shift, hb.eq_shift]
  | _, _, .self hi ht => by rw [Expr.shift, ht.eq, Likeness.id_eq hi]
  | _, _, .function hd => by rw [Expr.shift, hd.eq_shift]

theorem Expr.Alike.eq_shiftAll : ∀ {es es' : List Expr},
    List.Forall₂ (Expr.Alike (.shifted 0 count)) es es' → es' = Expr.shiftAll count es
  | _, _, .nil => rfl
  | _, _, .cons he hes => by rw [Expr.shiftAll, he.eq_shift, Expr.Alike.eq_shiftAll hes]

theorem FunctionDecl.Alike.eq_shift :
    ∀ {d d' : FunctionDecl}, d.Alike (.shifted 0 count) d' → d' = d.shift count
  | _, _, .mk _ hn hp hb => by
    rw [FunctionDecl.shift, Likeness.name?_eq hn, Likeness.names_eq hp,
      Stmt.Alike.eq_shiftAll hb]

theorem FunctionDecl.Alike.eq_shiftAll : ∀ {ds ds' : List FunctionDecl},
    List.Forall₂ (FunctionDecl.Alike (.shifted 0 count)) ds ds' →
      ds' = FunctionDecl.shiftAll count ds
  | _, _, .nil => rfl
  | _, _, .cons hd hds => by
    rw [FunctionDecl.shiftAll, hd.eq_shift, FunctionDecl.Alike.eq_shiftAll hds]

theorem Stmt.Alike.eq_shift : ∀ {s s' : Stmt}, s.Alike (.shifted 0 count) s' → s' = s.shift count
  | _, _, .expression he => by rw [Stmt.shift, he.eq_shift]
  | _, _, .print he => by rw [Stmt.shift, he.eq_shift]
  | _, _, .varDecl ht .none => by rw [Stmt.shift, ht.eq]
  | _, _, .varDecl ht (.some he) => by rw [Stmt.shift, ht.eq, he.eq_shift]
  | _, _, .block hs => by rw [Stmt.shift, Stmt.Alike.eq_shiftAll hs]
  | _, _, .conditional he hs .none => by rw [Stmt.shift, he.eq_shift, hs.eq_shift]
  | _, _, .conditional he hs (.some ho) => by
    rw [Stmt.shift, he.eq_shift, hs.eq_shift, ho.eq_shift]
  | _, _, .loop he hs => by rw [Stmt.shift, he.eq_shift, hs.eq_shift]
  | _, _, .leave ht => by rw [Stmt.shift, Likeness.token_eq ht]
  | _, _, .function hd => by rw [Stmt.shift, hd.eq_shift]
  | _, _, .giveBack ht .none => by rw [Stmt.shift, Likeness.token_eq ht]
  | _, _, .giveBack ht (.some he) => by rw [Stmt.shift, Likeness.token_eq ht, he.eq_shift]
  | _, _, .classDecl ht hd => by rw [Stmt.shift, ht.eq, FunctionDecl.Alike.eq_shiftAll hd]

theorem Stmt.Alike.eq_shiftAll : ∀ {ss ss' : List Stmt},
    List.Forall₂ (Stmt.Alike (.shifted 0 count)) ss ss' → ss' = Stmt.shiftAll count ss
  | _, _, .nil => rfl
  | _, _, .cons hs hss => by rw [Stmt.shiftAll, hs.eq_shift, Stmt.Alike.eq_shiftAll hss]

end

end

/-- The same tokens, with new identities that are shifted. -/
def Feed.shifted (start count : Nat) : Feed (.shifted start count) where
  read t u := u = t
  supply := fun (i j : Nat) => start ≤ i ∧ j = i + count
  finish := rfl
  kind h := by rw [h]
  literal h := by rw [h]
  lexeme h _ := by rw [h]
  token h _ := h
  id := .inr
  next h := ⟨Nat.le_succ_of_le h.1, by rw [h.2, Nat.add_right_comm]⟩
  function _ := trivial

/-! ## Programs -/

namespace Program

/-- A program with identities that are later by `count`. -/
def shift (count : Nat) (program : Program) : Program :=
  { statements := Stmt.shiftAll count program.statements
    nextId := program.nextId + count
    diagnostics := program.diagnostics }

/-- A program and behind it another one that was parsed on its own, whose identities follow
those of the first one. -/
def followedBy (first second : Program) : Program :=
  let later := second.shift first.nextId
  { statements := first.statements ++ later.statements
    nextId := later.nextId
    diagnostics := first.diagnostics ++ later.diagnostics }

theorem followedBy_nothing (program : Program) :
    program.followedBy { statements := [], nextId := 0, diagnostics := [] } = program := by
  simp [followedBy, shift, Stmt.shiftAll]

/-- With a later first identity the same program is parsed, with identities as much later. -/
theorem ofTokens_shift (tokens : List Token) (firstId count : Nat) :
    ofTokens tokens (firstId + count) = (ofTokens tokens firstId).shift count := by
  have h := ofTokens_alike (Feed.shifted 0 count) (i := firstId) (j := firstId + count)
    (List.forall₂_same.2 fun t (_ : t ∈ tokens) => rfl) ⟨firstId.zero_le, rfl⟩
  have hdiagnostics : (ofTokens tokens (firstId + count)).diagnostics =
      (ofTokens tokens firstId).diagnostics :=
    (List.forall₂_eq_eq_eq ▸
      h.diagnostics.imp fun _ _ hd => (hd.eq fun _ _ ht => ht).symm :
        (ofTokens tokens firstId).diagnostics = _).symm
  rw [shift, ← Stmt.Alike.eq_shiftAll h.statements, ← h.nextId.2, ← hdiagnostics]

end Program

end TreeScript
