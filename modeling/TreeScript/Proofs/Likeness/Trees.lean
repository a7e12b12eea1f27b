import TreeScript.Parsing.Grammar
import TreeScript.Proofs.Scoping.Parsed
import Mathlib.Data.List.Forall2

/-!
# Alike trees

Two trees are alike if they have the same shape and may differ only in what a likeness
leaves open.

* `Likeness` — in what tokens and identities may differ, and what is asked of functions
* `Expr.Alike`, `FunctionDecl.Alike`, `Stmt.Alike` — trees of the same shape
* `Likeness.Within` — a likeness that leaves less open than another
* `Symbol.Alike` — alike trees of the grammar
* `derives_alike` — what is derived is alike itself, if its tokens, identities and
  functions are
-/

namespace TreeScript

/-! ## Likenesses -/

/-- In what the tokens and the identities of alike trees may differ, and what is asked of
the functions in them. -/
structure Likeness where
  token : Token → Token → Prop
  id : ReferenceId → ReferenceId → Prop
  function : FunctionDecl → Prop

namespace Likeness

/-- Tokens of names, which have the same text. -/
def Name (L : Likeness) (t u : Token) : Prop :=
  L.token t u ∧ u.lexeme = t.lexeme

/-- Tokens of operators, which have the same kind. -/
def Operator (L : Likeness) (t u : Token) : Prop :=
  L.token t u ∧ u.kind = t.kind

/-- A likeness that leaves less open than another, and asks for more. -/
structure Within (L M : Likeness) : Prop where
  token : ∀ {t u}, L.token t u → M.token t u
  id : ∀ {i j}, L.id i j → M.id i j
  function : ∀ {d}, L.function d → M.function d

theorem Within.name {L M : Likeness} (h : L.Within M) {t u : Token} (ht : L.Name t u) :
    M.Name t u :=
  ⟨h.token ht.1, ht.2⟩

theorem Within.operator {L M : Likeness} (h : L.Within M) {t u : Token}
    (ht : L.Operator t u) : M.Operator t u :=
  ⟨h.token ht.1, ht.2⟩

end Likeness

/-! ## Trees -/

mutual

/-- Expressions of the same shape. -/
inductive Expr.Alike (L : Likeness) : Expr → Expr → Prop
  | constant (value : Constant) : Expr.Alike L (.constant value) (.constant value)
  | grouping {e e'} : Expr.Alike L e e' → Expr.Alike L (.grouping e) (.grouping e')
  | unary {t t' e e'} : L.Operator t t' → Expr.Alike L e e' →
      Expr.Alike L (.unary t e) (.unary t' e')
  | binary {a a' t t' b b'} : Expr.Alike L a a' → L.Operator t t' → Expr.Alike L b b' →
      Expr.Alike L (.binary a t b) (.binary a' t' b')
  | logical {a a' t t' b b'} : Expr.Alike L a a' → L.Operator t t' → Expr.Alike L b b' →
      Expr.Alike L (.logical a t b) (.logical a' t' b')
  | ternary {c c' t t' a a' b b'} : Expr.Alike L c c' → L.token t t' → Expr.Alike L a a' →
      Expr.Alike L b b' → Expr.Alike L (.ternary c t a b) (.ternary c' t' a' b')
  | variable {i i' t t'} : L.id i i' → L.Name t t' →
      Expr.Alike L (.variable i t) (.variable i' t')
  | assign {i i' t t' e e'} : L.id i i' → L.Name t t' → Expr.Alike L e e' →
      Expr.Alike L (.assign i t e) (.assign i' t' e')
  | call {e e' t t' es es'} : Expr.Alike L e e' → L.token t t' →
      List.Forall₂ (Expr.Alike L) es es' → Expr.Alike L (.call e t es) (.call e' t' es')
  | get {e e' t t'} : Expr.Alike L e e' → L.Name t t' →
      Expr.Alike L (.get e t) (.get e' t')
  | set {a a' t t' b b'} : Expr.Alike L a a' → L.Name t t' → Expr.Alike L b b' →
      Expr.Alike L (.set a t b) (.set a' t' b')
  | self {i i' t t'} : L.id i i' → L.Name t t' → Expr.Alike L (.self i t) (.self i' t')
  | function {d d'} : FunctionDecl.Alike L d d' →
      Expr.Alike L (.function d) (.function d')

/-- Functions of the same shape, the first of which is as asked. -/
inductive FunctionDecl.Alike (L : Likeness) : FunctionDecl → FunctionDecl → Prop
  | mk {name name' parameters parameters' body body'} :
      L.function { name, parameters, body } → Option.Rel L.Name name name' →
      List.Forall₂ L.Name parameters parameters' →
      List.Forall₂ (Stmt.Alike L) body body' →
      FunctionDecl.Alike L { name, parameters, body }
        { name := name', parameters := parameters', body := body' }

/-- Statements of the same shape. -/
inductive Stmt.Alike (L : Likeness) : Stmt → Stmt → Prop
  | expression {e e'} : Expr.Alike L e e' → Stmt.Alike L (.expression e) (.expression e')
  | print {e e'} : Expr.Alike L e e' → Stmt.Alike L (.print e) (.print e')
  | varDecl {t t' e e'} : L.Name t t' → Option.Rel (Expr.Alike L) e e' →
      Stmt.Alike L (.varDecl t e) (.varDecl t' e')
  | block {ss ss'} : List.Forall₂ (Stmt.Alike L) ss ss' →
      Stmt.Alike L (.block ss) (.block ss')
  | conditional {e e' s s' o o'} : Expr.Alike L e e' → Stmt.Alike L s s' →
      Option.Rel (Stmt.Alike L) o o' →
      Stmt.Alike L (.conditional e s o) (.conditional e' s' o')
  | loop {e e' s s'} : Expr.Alike L e e' → Stmt.Alike L s s' →
      Stmt.Alike L (.loop e s) (.loop e' s')
  | leave {t t'} : L.token t t' → Stmt.Alike L (.leave t) (.leave t')
  | function {d d'} : FunctionDecl.Alike L d d' →
      Stmt.Alike L (.function d) (.function d')
  | giveBack {t t' e e'} : L.token t t' → Option.Rel (Expr.Alike L) e e' →
      Stmt.Alike L (.giveBack t e) (.giveBack t' e')
  | classDecl {t t' ds ds'} : L.Name t t' → List.Forall₂ (FunctionDecl.Alike L) ds ds' →
      Stmt.Alike L (.classDecl t ds) (.classDecl t' ds')

end

namespace FunctionDecl.Alike

variable {L : Likeness} {d d' : FunctionDecl}

theorem function (h : d.Alike L d') : L.function d := by
  obtain ⟨h, -, -, -⟩ := h
  exact h

theorem parameters (h : d.Alike L d') : List.Forall₂ L.Name d.parameters d'.parameters := by
  obtain ⟨-, -, h, -⟩ := h
  exact h

theorem body (h : d.Alike L d') : List.Forall₂ (Stmt.Alike L) d.body d'.body := by
  obtain ⟨-, -, -, h⟩ := h
  exact h

theorem name (h : d.Alike L d') : Option.Rel L.Name d.name d'.name := by
  obtain ⟨-, h, -, -⟩ := h
  exact h

/-- Alike functions are shown under the same name. -/
theorem displayName (h : d.Alike L d') : d'.displayName = d.displayName := by
  have hn := h.name
  unfold FunctionDecl.displayName
  generalize d.name = name at hn
  generalize d'.name = name' at hn
  cases hn with
  | some hn => exact hn.2
  | none => rfl

end FunctionDecl.Alike

/-! ## Leaving more open -/

section Mono

variable {L M : Likeness}

theorem Likeness.Within.names (h : L.Within M) {ts ts' : List Token}
    (hts : List.Forall₂ L.Name ts ts') : List.Forall₂ M.Name ts ts' :=
  hts.imp fun _ _ => h.name

mutual

theorem Expr.Alike.mono (h : L.Within M) : ∀ {e e' : Expr}, e.Alike L e' → e.Alike M e'
  | _, _, .constant value => .constant value
  | _, _, .grouping he => .grouping (he.mono h)
  | _, _, .unary ht he => .unary (h.operator ht) (he.mono h)
  | _, _, .binary ha ht hb => .binary (ha.mono h) (h.operator ht) (hb.mono h)
  | _, _, .logical ha ht hb => .logical (ha.mono h) (h.operator ht) (hb.mono h)
  | _, _, .ternary hc ht ha hb => .ternary (hc.mono h) (h.token ht) (ha.mono h) (hb.mono h)
  | _, _, .variable hi ht => .variable (h.id hi) (h.name ht)
  | _, _, .assign hi ht he => .assign (h.id hi) (h.name ht) (he.mono h)
  | _, _, .call he ht hes => .call (he.mono h) (h.token ht) (Expr.Alike.monoAll h hes)
  | _, _, .get he ht => .get (he.mono h) (h.name ht)
  | _, _, .set ha ht hb => .set (ha.mono h) (h.name ht) (hb.mono h)
  | _, _, .self hi ht => .self (h.id hi) (h.name ht)
  | _, _, .function hd => .function (hd.mono h)

theorem Expr.Alike.monoAll (h : L.Within M) : ∀ {es es' : List Expr},
    List.Forall₂ (Expr.Alike L) es es' → List.Forall₂ (Expr.Alike M) es es'
  | _, _, .nil => .nil
  | _, _, .cons he hes => .cons (he.mono h) (Expr.Alike.monoAll h hes)

theorem Expr.Alike.mono? (h : L.Within M) : ∀ {e e' : Option Expr},
    Option.Rel (Expr.Alike L) e e' → Option.Rel (Expr.Alike M) e e'
  | _, _, .none => .none
  | _, _, .some he => .some (he.mono h)

theorem FunctionDecl.Alike.mono (h : L.Within M) :
    ∀ {d d' : FunctionDecl}, d.Alike L d' → d.Alike M d'
  | _, _, .mk hd (.some hn) hp hb =>
    .mk (h.function hd) (.some (h.name hn)) (h.names hp) (Stmt.Alike.monoAll h hb)
  | _, _, .mk hd .none hp hb =>
    .mk (h.function hd) .none (h.names hp) (Stmt.Alike.monoAll h hb)

theorem FunctionDecl.Alike.monoAll (h : L.Within M) : ∀ {ds ds' : List FunctionDecl},
    List.Forall₂ (FunctionDecl.Alike L) ds ds' → List.Forall₂ (FunctionDecl.Alike M) ds ds'
  | _, _, .nil => .nil
  | _, _, .cons hd hds => .cons (hd.mono h) (FunctionDecl.Alike.monoAll h hds)

theorem Stmt.Alike.mono (h : L.Within M) : ∀ {s s' : Stmt}, s.Alike L s' → s.Alike M s'
  | _, _, .expression he => .expression (he.mono h)
  | _, _, .print he => .print (he.mono h)
  | _, _, .varDecl ht he => .varDecl (h.name ht) (Expr.Alike.mono? h he)
  | _, _, .block hs => .block (Stmt.Alike.monoAll h hs)
  | _, _, .conditional he hs ho =>
    .conditional (he.mono h) (hs.mono h) (Stmt.Alike.mono? h ho)
  | _, _, .loop he hs => .loop (he.mono h) (hs.mono h)
  | _, _, .leave ht => .leave (h.token ht)
  | _, _, .function hd => .function (hd.mono h)
  | _, _, .giveBack ht he => .giveBack (h.token ht) (Expr.Alike.mono? h he)
  | _, _, .classDecl ht hd => .classDecl (h.name ht) (FunctionDecl.Alike.monoAll h hd)

theorem Stmt.Alike.monoAll (h : L.Within M) : ∀ {ss ss' : List Stmt},
    List.Forall₂ (Stmt.Alike L) ss ss' → List.Forall₂ (Stmt.Alike M) ss ss'
  | _, _, .nil => .nil
  | _, _, .cons hs hss => .cons (hs.mono h) (Stmt.Alike.monoAll h hss)

theorem Stmt.Alike.mono? (h : L.Within M) : ∀ {s s' : Option Stmt},
    Option.Rel (Stmt.Alike L) s s' → Option.Rel (Stmt.Alike M) s s'
  | _, _, .none => .none
  | _, _, .some hs => .some (hs.mono h)

end

end Mono

/-! ## Composed trees -/

section

variable {L : Likeness}

/-- A binary operator of a level. -/
theorem Level.node_alike (level : Level) {a a' b b' : Expr} {t t' : Token}
    (ha : a.Alike L a') (ht : L.Operator t t') (hb : b.Alike L b') :
    (level.node a t b).Alike L (level.node a' t' b') := by
  unfold Level.node
  split
  · exact .logical ha ht hb
  · exact .binary ha ht hb

/-- A part that may be missing, in place of which a constant stands. -/
theorem Expr.Alike.getD {e e' : Option Expr} (h : Option.Rel (Expr.Alike L) e e')
    (value : Constant) : (e.getD (.constant value)).Alike L (e'.getD (.constant value)) := by
  cases h with
  | some h => exact h
  | none => exact .constant value

/-- A counting loop. -/
theorem Stmt.forLoop_alike {start start' : Option Stmt} {c c' i i' : Option Expr}
    {body body' : Stmt} (hs : Option.Rel (Stmt.Alike L) start start')
    (hc : Option.Rel (Expr.Alike L) c c') (hi : Option.Rel (Expr.Alike L) i i')
    (hb : body.Alike L body') :
    (Stmt.forLoop start c i body).Alike L (Stmt.forLoop start' c' i' body') := by
  have hround : List.Forall₂ (Stmt.Alike L) (body :: (i.map Stmt.expression).toList)
      (body' :: (i'.map Stmt.expression).toList) := by
    refine .cons hb ?_
    cases hi with
    | some hi => exact .cons (.expression hi) .nil
    | none => exact .nil
  have hloop := Stmt.Alike.loop (Expr.Alike.getD hc (.bool true)) (.block hround)
  refine .block ?_
  cases hs with
  | some hs => exact .cons hs (.cons hloop .nil)
  | none => exact .cons hloop .nil

end

end TreeScript
