import TreeScript.Proofs.Parsing.Progress
import TreeScript.Tree.References
import Mathlib.Data.List.Nodup
import Mathlib.Data.List.Perm.Subperm

/-!
# Reference identities

* `Drawn` — different identities from a range
* `Expr.ids`, `Stmt.ids`, … — the identities of the references in a tree
* `ParseState.Draws` — between two states identities were drawn, each of them for a token
* `draws` — the trees that a rule reads hold identities that were drawn for it, also behind
  a fault
* `Program.drawn` — so no two references of a program have the same identity, and it uses up
  no more identities than it has tokens

What a rule drops, after a fault or as the value of a target that nothing can be assigned
to, leaves a gap in the range.
-/

namespace TreeScript

/-! ## Ranges of identities -/

/-- Different identities from a range, `n` included and `m` excluded. -/
structure Drawn (n m : ReferenceId) (ids : List ReferenceId) : Prop where
  le : n ≤ m
  nodup : ids.Nodup
  within : ∀ id : Nat, id ∈ ids → n ≤ id ∧ id < m

namespace Drawn

variable {n m k : ReferenceId} {xs ys : List ReferenceId}

theorem nil (h : n ≤ m) : Drawn n m [] :=
  ⟨h, List.nodup_nil, fun _ hm => absurd hm List.not_mem_nil⟩

theorem one (n : Nat) : Drawn n (n + 1) [n] where
  le := Nat.le_succ n
  nodup := List.nodup_singleton n
  within id hid := by
    rw [List.mem_singleton] at hid
    subst hid
    exact ⟨Nat.le_refl _, Nat.lt_succ_self _⟩

/-- Two ranges in a row. -/
theorem append (h₁ : Drawn n m xs) (h₂ : Drawn m k ys) : Drawn n k (xs ++ ys) where
  le := Nat.le_trans h₁.le h₂.le
  nodup := by
    rw [List.nodup_append]
    refine ⟨h₁.nodup, h₂.nodup, fun (i : Nat) hi (j : Nat) hj hij => ?_⟩
    subst hij
    exact Nat.lt_irrefl i (Nat.lt_of_lt_of_le (h₁.within i hi).2 (h₂.within i hj).1)
  within id hid := by
    rcases List.mem_append.1 hid with hid | hid
    · have := h₁.within id hid
      exact ⟨this.1, Nat.lt_of_lt_of_le this.2 h₂.le⟩
    · have := h₂.within id hid
      exact ⟨Nat.le_trans h₁.le this.1, this.2⟩

/-- Identities may be dropped and put into another order. -/
theorem subperm (h : Drawn n m xs) (hs : ys.Subperm xs) : Drawn n m ys where
  le := h.le
  nodup := by
    obtain ⟨zs, hp, hs⟩ := hs
    exact hp.nodup_iff.1 (h.nodup.sublist hs)
  within id hid := h.within id (hs.subset hid)

end Drawn

/-! ## The identities in a tree -/

/-- The identities of the references in an expression. -/
def Expr.ids (e : Expr) : List ReferenceId :=
  e.references.map Reference.id

/-- The identities of the references in a list of expressions. -/
def Expr.idsOfAll (es : List Expr) : List ReferenceId :=
  (Expr.referencesOfAll es).map Reference.id

/-- The identities of the references in a function. -/
def FunctionDecl.ids (d : FunctionDecl) : List ReferenceId :=
  d.references.map Reference.id

/-- The identities of the references in a list of functions. -/
def FunctionDecl.idsOfAll (ds : List FunctionDecl) : List ReferenceId :=
  (FunctionDecl.referencesOfAll ds).map Reference.id

/-- The identities of the references in a statement. -/
def Stmt.ids (s : Stmt) : List ReferenceId :=
  s.references.map Reference.id

/-- The identities of the references in a list of statements. -/
def Stmt.idsOfAll (ss : List Stmt) : List ReferenceId :=
  (Stmt.referencesOfAll ss).map Reference.id

@[simp]
theorem Expr.ids_node (level : Level) (left : Expr) (operator : Token) (right : Expr) :
    (level.node left operator right).ids = left.ids ++ right.ids := by
  unfold Level.node
  split <;> simp [Expr.ids, Expr.references]

/-- In a counting loop the increment is read before the body, but stands behind it. -/
theorem Stmt.ids_forLoop (start : Option Stmt) (condition increment : Option Expr)
    (body : Stmt) :
    (Stmt.forLoop start condition increment body).ids.Perm
      (start.elim [] Stmt.ids ++ condition.elim [] Expr.ids ++ increment.elim [] Expr.ids ++
        body.ids) := by
  have hids : (Stmt.forLoop start condition increment body).ids =
      start.elim [] Stmt.ids ++ condition.elim [] Expr.ids ++
        (body.ids ++ increment.elim [] Expr.ids) := by
    cases start <;> cases condition <;> cases increment <;>
      simp [Stmt.forLoop, Stmt.ids, Expr.ids, Stmt.references, Expr.references,
        Stmt.referencesOfAll]
  rw [hids, List.append_assoc _ (increment.elim [] Expr.ids)]
  exact List.perm_append_comm.append_left _

/-! ## States -/

/-- Between two states the given identities were drawn, and perhaps others, each of them
for a token. -/
structure ParseState.Draws (before : ParseState) (ids : List ReferenceId)
    (after : ParseState) : Prop extends Drawn before.nextId after.nextId ids where
  paid : after.nextId + after.rest.length ≤ before.nextId + before.rest.length

namespace ParseState.Draws

variable {s t u : ParseState} {xs ys : List ReferenceId}

theorem refl (s : ParseState) : s.Draws [] s :=
  ⟨.nil (Nat.le_refl _), Nat.le_refl _⟩

theorem append (h₁ : s.Draws xs t) (h₂ : t.Draws ys u) : s.Draws (xs ++ ys) u :=
  ⟨h₁.toDrawn.append h₂.toDrawn, Nat.le_trans h₂.paid h₁.paid⟩

theorem subperm (h : s.Draws xs t) (hs : ys.Subperm xs) : s.Draws ys t :=
  ⟨h.toDrawn.subperm hs, h.paid⟩

/-- What was drawn is forgotten. -/
theorem forget (h : s.Draws xs t) : s.Draws [] t :=
  h.subperm xs.nil_subperm

theorem drop_one (s : ParseState) : s.Draws [] { s with rest := s.rest.drop 1 } :=
  ⟨.nil (Nat.le_refl _), by simp⟩

theorem report (s : ParseState) (found : List Diagnostic) :
    s.Draws [] { s with diagnostics := s.diagnostics ++ found } :=
  ⟨.nil (Nat.le_refl _), Nat.le_refl _⟩

/-- A token that is there pays for an identity. -/
theorem pay (h : (s.rest.headD (Token.finish 1)).kind ≠ .endOfInput) :
    s.Draws [s.nextId] { s with rest := s.rest.drop 1, nextId := s.nextId + 1 } := by
  refine ⟨.one s.nextId, ?_⟩
  have hused : 1 + (s.rest.drop 1).length ≤ s.rest.length := by
    have := (ParseState.Ahead.drop_one h).used
    simp only at this
    omega
  rw [Nat.add_assoc]
  exact Nat.add_le_add_left hused _

end ParseState.Draws

/-! ## Replies -/

/-- A reply whose value holds identities that were drawn for it. -/
def Reply.Draws {α : Type} (before : ParseState) (ids : α → List ReferenceId) :
    Reply α → Prop
  | .ok value after => before.Draws (ids value) after
  | .failed after => before.Draws [] after
  | .outOfFuel => True

namespace Reply.Draws

variable {α β : Type} {s t : ParseState} {held : List ReferenceId} {ids : α → List ReferenceId}
  {ids' : β → List ReferenceId}

/-- A reply seen from an earlier state. -/
theorem since {r : Reply α} (hs : s.Draws [] t) (h : r.Draws t ids) : r.Draws s ids := by
  cases r with
  | ok a u => exact hs.append h
  | failed u => exact hs.append h
  | outOfFuel => exact h

/-- One step and then another, which knows what was drawn so far. -/
theorem bind {first : Parse α} {next : α → Parse β} (hs : s.Draws held t)
    (h : (first t).Draws t ids)
    (hn : ∀ a u, s.Draws (held ++ ids a) u → (next a u).Draws s ids') :
    ((first >>= next) t).Draws s ids' := by
  show Reply.Draws s ids' (Parse.bind first next t)
  unfold Parse.bind
  cases hr : first t with
  | ok a u =>
    rw [hr] at h
    exact hn a u (hs.append h)
  | failed u =>
    rw [hr] at h
    exact hs.forget.append h
  | outOfFuel => trivial

/-- A step whose value holds no reference. -/
theorem skip {first : Parse α} {next : α → Parse β} (hs : s.Draws held t)
    (h : (first t).Draws t fun _ => [])
    (hn : ∀ a u, s.Draws held u → (next a u).Draws s ids') :
    ((first >>= next) t).Draws s ids' :=
  bind hs h fun a u hu => hn a u (by simpa using hu)

theorem pure (hs : s.Draws held t) {a : α} (ha : ids a = held) :
    Reply.Draws s ids ((Pure.pure a : Parse α) t) := by
  subst ha
  exact hs

end Reply.Draws

namespace Parse

variable {α β : Type} {s t : ParseState} {held : List ReferenceId} {ids : α → List ReferenceId}

/-! ## Primitive steps -/

theorem draws_reject (hs : s.Draws held t) (token : Token) (fault : GrammarFault) :
    ((reject token fault : Parse α) t).Draws s ids :=
  hs.forget.append (.report t _)

theorem draws_expect (slot : Slot) : (expect slot s).Draws s fun _ => [] := by
  rw [expect_eq]
  split
  · exact .drop_one s
  · exact .report s _

theorem draws_accept? (kinds : List TokenKind) :
    (accept? kinds s).Draws s fun _ => [] := by
  rw [accept?_eq]
  split
  · exact .drop_one s
  · exact .refl s

theorem draws_limit (count : Nat) (fault : GrammarFault) :
    (limit count fault s).Draws s fun _ => [] := by
  unfold limit
  split
  · exact .report s _
  · exact .refl s

theorem draws_requireLoop (token : Token) : (requireLoop token s).Draws s fun _ => [] := by
  show Reply.Draws s _ ((if s.loopDepth = 0 then _ else _ : Parse Unit) s)
  split
  · exact .report s _
  · exact .refl s

theorem draws_unlessNext (kind : TokenKind) {step : Parse α} (h : (step s).Draws s ids) :
    (unlessNext kind step s).Draws s fun found => found.elim [] ids := by
  rw [unlessNext, peekKind_bind]
  split
  · exact .refl s
  · exact .bind (.refl s) h fun _ _ ha => .pure ha rfl

theorem draws_ifNext (kind : TokenKind) {step : Parse α} (h : ∀ t, (step t).Draws t ids) :
    (ifNext kind step s).Draws s fun found => found.elim [] ids := by
  unfold ifNext
  refine .skip (.refl s) (draws_accept? _) fun found t ht => ?_
  cases found with
  | none => exact .pure ht rfl
  | some token => exact .bind ht (h t) fun _ _ ha => .pure ha rfl

theorem draws_atLoopDepth {depth : Nat → Nat} {step : Parse α}
    (h : ∀ t, (step t).Draws t ids) : (atLoopDepth depth step s).Draws s ids := by
  have hstep := h { s with loopDepth := depth s.loopDepth }
  unfold atLoopDepth
  split <;> rename_i hr <;> rw [hr] at hstep
  · exact ⟨hstep.toDrawn, hstep.paid⟩
  · exact ⟨hstep.toDrawn, hstep.paid⟩
  · trivial

theorem draws_recover {step : Parse α} (h : (step s).Draws s ids) :
    (recover step s).Draws s fun found => found.elim [] ids := by
  unfold recover
  split <;> rename_i hr <;> rw [hr] at h
  · exact h
  · rename_i after
    have := (synchronize_suffix after.rest).length_le
    exact ⟨h.toDrawn, Nat.le_trans (Nat.add_le_add_left this _) h.paid⟩
  · trivial

/-- What a step reads that is run behind a fault is dropped. -/
theorem draws_attempt_fail {step : Parse β} {ids' : β → List ReferenceId}
    (hs : s.Draws held t) (h : (step t).Draws t ids') :
    ((attempt step >>= fun _ => (fail : Parse α)) t).Draws s ids := by
  show Reply.Draws s ids (Parse.bind (attempt step) (fun _ => fail) t)
  unfold Parse.bind attempt
  cases hr : step t with
  | ok b u =>
    rw [hr] at h
    exact hs.forget.append h.forget
  | failed u =>
    rw [hr] at h
    exact hs.forget.append h
  | outOfFuel => trivial

/-! ## Rules -/

/-- A rule whose trees hold identities that were drawn for them. -/
def Draws (step : Parse α) (ids : α → List ReferenceId) : Prop :=
  ∀ s : ParseState, (step s).Draws s ids

/-- A rule that goes on from a tree, and whose trees hold identities that were drawn since
that tree was begun. -/
def Extends (step : Expr → Parse Expr) : Prop :=
  ∀ (left : Expr) (s t : ParseState), s.Draws left.ids t → (step left t).Draws s Expr.ids

/-- The identities of all rules at one amount of fuel. -/
structure DrawsAt (fuel : Nat) : Prop where
  parameters : ∀ count, Draws (parameters fuel count) fun _ => []
  declaration : Draws (declaration fuel) fun found => found.elim [] Stmt.ids
  declarationOrFail : Draws (declarationOrFail fuel) Stmt.ids
  declarations : ∀ inBlock, Draws (declarations fuel inBlock) Stmt.idsOfAll
  classDeclaration : Draws (classDeclaration fuel) Stmt.ids
  methods : Draws (methods fuel) FunctionDecl.idsOfAll
  namedFunction : ∀ role, Draws (namedFunction fuel role) FunctionDecl.ids
  functionRest : ∀ name role, Draws (functionRest fuel name role) FunctionDecl.ids
  varDeclaration : Draws (varDeclaration fuel) Stmt.ids
  statement : Draws (statement fuel) Stmt.ids
  forStatement : Draws (forStatement fuel) Stmt.ids
  forInitializer : Draws (forInitializer fuel) fun found => found.elim [] Stmt.ids
  ifStatement : Draws (ifStatement fuel) Stmt.ids
  whileStatement : Draws (whileStatement fuel) Stmt.ids
  blockRest : Draws (blockRest fuel) Stmt.idsOfAll
  expressionStatement : Draws (expressionStatement fuel) Stmt.ids
  expressionList : Draws (expressionList fuel) Expr.ids
  expressionListRest : Extends (expressionListRest fuel)
  conditional : Draws (conditional fuel) Expr.ids
  assignment : Draws (assignment fuel) Expr.ids
  binaryLevels : ∀ ls, Draws (binaryLevels fuel ls) Expr.ids
  binaryRest : ∀ level tighter, Extends (binaryRest fuel level tighter)
  unary : Draws (unary fuel) Expr.ids
  callRest : Extends (callRest fuel)
  arguments : ∀ count, Draws (arguments fuel count) Expr.idsOfAll
  primary : Draws (primary fuel) Expr.ids
  strayTernary : Draws (strayTernary fuel) Expr.ids

theorem drawsAt_zero : DrawsAt 0 where
  parameters _ _ := by rw [parameters]; trivial
  declaration _ := by rw [declaration]; trivial
  declarationOrFail _ := by rw [declarationOrFail]; trivial
  declarations _ _ := by rw [declarations]; trivial
  classDeclaration _ := by rw [classDeclaration]; trivial
  methods _ := by rw [methods]; trivial
  namedFunction _ _ := by rw [namedFunction]; trivial
  functionRest _ _ _ := by rw [functionRest]; trivial
  varDeclaration _ := by rw [varDeclaration]; trivial
  statement _ := by rw [statement]; trivial
  forStatement _ := by rw [forStatement]; trivial
  forInitializer _ := by rw [forInitializer]; trivial
  ifStatement _ := by rw [ifStatement]; trivial
  whileStatement _ := by rw [whileStatement]; trivial
  blockRest _ := by rw [blockRest]; trivial
  expressionStatement _ := by rw [expressionStatement]; trivial
  expressionList _ := by rw [expressionList]; trivial
  expressionListRest _ _ _ _ := by rw [expressionListRest]; trivial
  conditional _ := by rw [conditional]; trivial
  assignment _ := by rw [assignment]; trivial
  binaryLevels _ _ := by rw [binaryLevels]; trivial
  binaryRest _ _ _ _ _ _ := by rw [binaryRest]; trivial
  unary _ := by rw [unary]; trivial
  callRest _ _ _ _ := by rw [callRest]; trivial
  arguments _ _ := by rw [arguments]; trivial
  primary _ := by rw [primary]; trivial
  strayTernary _ := by rw [strayTernary]; trivial

namespace DrawsAt

variable {fuel : Nat}

/-! ### Declarations -/

theorem parameters_step (ih : DrawsAt fuel) (count : Nat) :
    Draws (Parse.parameters (fuel + 1) count) fun _ => [] := by
  intro s
  rw [Parse.parameters]
  refine .skip (.refl s) (draws_limit _ _) fun _ t ha => ?_
  refine .skip ha (draws_expect _) fun name t hb => ?_
  refine .skip hb (draws_accept? _) fun comma t hc => ?_
  cases comma with
  | none => exact .pure hc rfl
  | some _ => exact .skip hc (ih.parameters (count + 1) t) fun _ _ hd => .pure hd rfl

theorem declaration_step (ih : DrawsAt fuel) :
    Draws (Parse.declaration (fuel + 1)) fun found => found.elim [] Stmt.ids := by
  intro s
  rw [Parse.declaration]
  exact draws_recover (ih.declarationOrFail s)

theorem declarationOrFail_step (ih : DrawsAt fuel) :
    Draws (Parse.declarationOrFail (fuel + 1)) Stmt.ids := by
  intro s
  rw [Parse.declarationOrFail, peekKind_bind]
  generalize (s.rest.headD (Token.finish 1)).kind = kind
  split
  · rw [advance_bind]
    exact (ih.classDeclaration _).since (.drop_one s)
  · rw [advance_bind]
    exact (ih.varDeclaration _).since (.drop_one s)
  · exact ih.statement s

theorem declarations_step (ih : DrawsAt fuel) (inBlock : Bool) :
    Draws (Parse.declarations (fuel + 1) inBlock) Stmt.idsOfAll := by
  intro s
  rw [Parse.declarations, peekKind_bind]
  split
  · exact .refl s
  · refine .bind (.refl s) (ih.declaration s) fun first t ha => ?_
    refine .bind ha (ih.declarations inBlock t) fun rest _ hb => .pure hb ?_
    cases first <;> simp [Stmt.idsOfAll, Stmt.ids, Stmt.referencesOfAll]

theorem classDeclaration_step (ih : DrawsAt fuel) :
    Draws (Parse.classDeclaration (fuel + 1)) Stmt.ids := by
  intro s
  rw [Parse.classDeclaration]
  refine .skip (.refl s) (draws_expect _) fun name t ha => ?_
  refine .skip ha (draws_expect _) fun _ t hb => ?_
  refine .bind hb (ih.methods t) fun _ t hc => ?_
  exact .skip hc (draws_expect _) fun _ _ hd => .pure hd rfl

theorem methods_step (ih : DrawsAt fuel) :
    Draws (Parse.methods (fuel + 1)) FunctionDecl.idsOfAll := by
  intro s
  rw [Parse.methods, peekKind_bind]
  split
  · exact .refl s
  · refine .bind (.refl s) (ih.namedFunction .method s) fun _ t ha => ?_
    refine .bind ha (ih.methods t) fun _ _ hb => .pure hb ?_
    simp [FunctionDecl.idsOfAll, FunctionDecl.ids, FunctionDecl.referencesOfAll]

theorem namedFunction_step (ih : DrawsAt fuel) (role : FunctionRole) :
    Draws (Parse.namedFunction (fuel + 1) role) FunctionDecl.ids := by
  intro s
  rw [Parse.namedFunction]
  refine .skip (.refl s) (draws_expect _) fun name t ha => ?_
  exact (ih.functionRest (some name) role t).since ha

theorem functionRest_step (ih : DrawsAt fuel) (name : Option Token) (role : FunctionRole) :
    Draws (Parse.functionRest (fuel + 1) name role) FunctionDecl.ids := by
  intro s
  rw [Parse.functionRest]
  refine .skip (.refl s) (draws_expect _) fun _ t ha => ?_
  refine .bind ha (draws_unlessNext _ (ih.parameters 0 t)) fun names t hb => ?_
  refine .skip hb (draws_expect _) fun _ t hc => ?_
  refine .skip hc (draws_expect _) fun _ t hd => ?_
  refine .bind hd (draws_atLoopDepth ih.blockRest) fun body _ he => .pure he ?_
  cases names <;> rfl

theorem varDeclaration_step (ih : DrawsAt fuel) :
    Draws (Parse.varDeclaration (fuel + 1)) Stmt.ids := by
  intro s
  rw [Parse.varDeclaration]
  refine .skip (.refl s) (draws_expect _) fun _ t ha => ?_
  refine .bind ha (draws_ifNext _ ih.conditional) fun initializer t hb => ?_
  refine .skip hb (draws_expect _) fun _ _ hc => .pure hc ?_
  cases initializer <;> rfl

/-! ### Statements -/

theorem statement_step (ih : DrawsAt fuel) :
    Draws (Parse.statement (fuel + 1)) Stmt.ids := by
  intro s
  rw [Parse.statement, peek_bind]
  generalize (s.rest.headD (Token.finish 1)).kind = kind
  have ha := ParseState.Draws.drop_one s
  split
  all_goals try rw [advance_bind]
  · exact (ih.forStatement _).since ha
  · exact (ih.ifStatement _).since ha
  · refine .bind ha (ih.expressionList _) fun _ t hb => ?_
    exact .skip hb (draws_expect _) fun _ _ hc => .pure hc rfl
  · refine .bind ha (draws_unlessNext _ (ih.conditional _)) fun value t hb => ?_
    refine .skip hb (draws_expect _) fun _ _ hc => .pure hc ?_
    cases value <;> rfl
  · exact (ih.whileStatement _).since ha
  · refine .skip ha (draws_requireLoop _) fun _ t hb => ?_
    exact .skip hb (draws_expect _) fun _ _ hc => .pure hc rfl
  · exact .bind ha (ih.blockRest _) fun _ _ hb => .pure hb rfl
  · rw [kindAfterNext?_bind]
    split
    · rw [advance_bind]
      exact .bind ha (ih.namedFunction .function _) fun _ _ hb => .pure hb rfl
    · exact ih.expressionStatement s
  · exact ih.expressionStatement s

theorem forStatement_step (ih : DrawsAt fuel) :
    Draws (Parse.forStatement (fuel + 1)) Stmt.ids := by
  intro s
  rw [Parse.forStatement]
  refine .skip (.refl s) (draws_expect _) fun _ t ha => ?_
  refine .bind ha (ih.forInitializer t) fun start t hb => ?_
  refine .bind hb (draws_unlessNext _ (ih.expressionList t)) fun condition t hc => ?_
  refine .skip hc (draws_expect _) fun _ t hd => ?_
  refine .bind hd (draws_unlessNext _ (ih.expressionList t)) fun increment t he => ?_
  refine .skip he (draws_expect _) fun _ t hf => ?_
  refine .bind hf (draws_atLoopDepth ih.statement) fun body u hg => ?_
  exact hg.subperm (Stmt.ids_forLoop start condition increment body).subperm

theorem forInitializer_step (ih : DrawsAt fuel) :
    Draws (Parse.forInitializer (fuel + 1)) fun found => found.elim [] Stmt.ids := by
  intro s
  rw [Parse.forInitializer, peekKind_bind]
  generalize (s.rest.headD (Token.finish 1)).kind = kind
  split
  · exact .drop_one s
  · rw [advance_bind]
    exact .bind (.drop_one s) (ih.varDeclaration _) fun _ _ hb => .pure hb rfl
  · exact .bind (.refl s) (ih.expressionStatement s) fun _ _ ha => .pure ha rfl

theorem ifStatement_step (ih : DrawsAt fuel) :
    Draws (Parse.ifStatement (fuel + 1)) Stmt.ids := by
  intro s
  rw [Parse.ifStatement]
  refine .skip (.refl s) (draws_expect _) fun _ t ha => ?_
  refine .bind ha (ih.expressionList t) fun condition t hb => ?_
  refine .skip hb (draws_expect _) fun _ t hc => ?_
  refine .bind hc (ih.statement t) fun whenTrue t hd => ?_
  refine .bind hd (draws_ifNext _ ih.statement) fun whenFalse _ he => .pure he ?_
  cases whenFalse <;> simp [Stmt.ids, Expr.ids, Stmt.references]

theorem whileStatement_step (ih : DrawsAt fuel) :
    Draws (Parse.whileStatement (fuel + 1)) Stmt.ids := by
  intro s
  rw [Parse.whileStatement]
  refine .skip (.refl s) (draws_expect _) fun _ t ha => ?_
  refine .bind ha (ih.expressionList t) fun condition t hb => ?_
  refine .skip hb (draws_expect _) fun _ t hc => ?_
  refine .bind hc (draws_atLoopDepth ih.statement) fun body _ hd => .pure hd ?_
  simp [Stmt.ids, Expr.ids, Stmt.references]

theorem blockRest_step (ih : DrawsAt fuel) :
    Draws (Parse.blockRest (fuel + 1)) Stmt.idsOfAll := by
  intro s
  rw [Parse.blockRest]
  refine .bind (.refl s) (ih.declarations true s) fun _ t ha => ?_
  exact .skip ha (draws_expect _) fun _ _ hb => .pure hb rfl

theorem expressionStatement_step (ih : DrawsAt fuel) :
    Draws (Parse.expressionStatement (fuel + 1)) Stmt.ids := by
  intro s
  rw [Parse.expressionStatement]
  refine .bind (.refl s) (ih.expressionList s) fun _ t ha => ?_
  exact .skip ha (draws_expect _) fun _ _ hb => .pure hb rfl

/-! ### Expressions -/

theorem expressionList_step (ih : DrawsAt fuel) :
    Draws (Parse.expressionList (fuel + 1)) Expr.ids := by
  intro s
  rw [Parse.expressionList]
  exact .bind (.refl s) (ih.conditional s) fun left t ha => ih.expressionListRest left s t ha

theorem expressionListRest_step (ih : DrawsAt fuel) :
    Extends (Parse.expressionListRest (fuel + 1)) := by
  intro left s t hs
  rw [Parse.expressionListRest]
  refine .skip hs (draws_accept? _) fun comma t ha => ?_
  cases comma with
  | none => exact .pure ha rfl
  | some operator =>
    refine .bind ha (ih.conditional t) fun right u hb => ih.expressionListRest _ s u ?_
    simpa [Expr.ids, Expr.references] using hb

theorem conditional_step (ih : DrawsAt fuel) :
    Draws (Parse.conditional (fuel + 1)) Expr.ids := by
  intro s
  rw [Parse.conditional]
  refine .bind (.refl s) (ih.assignment s) fun condition t ha => ?_
  refine .skip ha (draws_accept? _) fun question t hb => ?_
  cases question with
  | none => exact .pure hb rfl
  | some question =>
    refine .bind hb (draws_unlessNext _ (ih.expressionList t)) fun whenTrue t hc => ?_
    refine .skip hc (draws_expect _) fun _ t hd => ?_
    refine .bind hd (ih.conditional t) fun whenFalse _ he => .pure he ?_
    cases whenTrue <;> simp [Expr.ids, Expr.references]

theorem assignment_step (ih : DrawsAt fuel) :
    Draws (Parse.assignment (fuel + 1)) Expr.ids := by
  intro s
  rw [Parse.assignment]
  refine .bind (.refl s) (ih.binaryLevels levels s) fun target t ha => ?_
  refine .skip ha (draws_accept? _) fun equals t hb => ?_
  cases equals with
  | none => exact .pure hb rfl
  | some equals =>
    refine .bind hb (ih.assignment t) fun value t hc => ?_
    -- a name gives its identity away to the assignment
    split
    · exact .pure hc (by simp [Expr.ids, Expr.references])
    · exact .pure hc (by simp [Expr.ids, Expr.references])
    · rw [report_bind]
      have hd : s.Draws target.ids t := hc.subperm (List.sublist_append_left _ _).subperm
      exact .pure (hd.append (.report t _)) (by simp)

theorem binaryLevels_step (ih : DrawsAt fuel) (ls : List Level) :
    Draws (Parse.binaryLevels (fuel + 1) ls) Expr.ids := by
  intro s
  cases ls with
  | nil =>
    rw [Parse.binaryLevels]
    exact ih.unary s
  | cons level tighter =>
    rw [Parse.binaryLevels]
    exact .bind (.refl s) (ih.binaryLevels tighter s) fun left t ha =>
      ih.binaryRest level tighter left s t ha

theorem binaryRest_step (ih : DrawsAt fuel) (level : Level) (tighter : List Level) :
    Extends (Parse.binaryRest (fuel + 1) level tighter) := by
  intro left s t hs
  rw [Parse.binaryRest]
  refine .skip hs (draws_accept? _) fun operator t ha => ?_
  cases operator with
  | none => exact .pure ha rfl
  | some operator =>
    refine .bind ha (ih.binaryLevels tighter t) fun right u hb => ?_
    exact ih.binaryRest level tighter _ s u (by simpa using hb)

theorem unary_step (ih : DrawsAt fuel) : Draws (Parse.unary (fuel + 1)) Expr.ids := by
  intro s
  rw [Parse.unary]
  refine .skip (.refl s) (draws_accept? _) fun operator t ha => ?_
  cases operator with
  | some operator => exact .bind ha (ih.unary t) fun _ _ hb => .pure hb rfl
  | none => exact .bind ha (ih.primary t) fun callee u hb => ih.callRest callee s u hb

theorem callRest_step (ih : DrawsAt fuel) : Extends (Parse.callRest (fuel + 1)) := by
  intro callee s t hs
  rw [Parse.callRest, peekKind_bind]
  generalize (t.rest.headD (Token.finish 1)).kind = kind
  have ha : s.Draws callee.ids { t with rest := t.rest.drop 1 } := by
    simpa using hs.append (.drop_one t)
  split
  · rw [advance_bind]
    refine .bind ha (draws_unlessNext _ (ih.arguments 0 _)) fun found t hb => ?_
    refine .skip hb (draws_expect _) fun paren t hc => ih.callRest _ s t ?_
    cases found <;>
      simpa [Expr.ids, Expr.references, Expr.idsOfAll, Expr.referencesOfAll] using hc
  · rw [advance_bind]
    exact .skip ha (draws_expect _) fun name t hb => ih.callRest _ s t hb
  · exact .pure hs rfl

theorem arguments_step (ih : DrawsAt fuel) (count : Nat) :
    Draws (Parse.arguments (fuel + 1) count) Expr.idsOfAll := by
  intro s
  rw [Parse.arguments]
  refine .skip (.refl s) (draws_limit _ _) fun _ t ha => ?_
  refine .bind ha (ih.conditional t) fun first t hb => ?_
  refine .skip hb (draws_accept? _) fun comma t hc => ?_
  cases comma with
  | none => exact .pure hc (by simp [Expr.idsOfAll, Expr.ids, Expr.referencesOfAll])
  | some _ =>
    refine .bind hc (ih.arguments (count + 1) t) fun _ _ hd => .pure hd ?_
    simp [Expr.idsOfAll, Expr.ids, Expr.referencesOfAll]

theorem primary_step (ih : DrawsAt fuel) : Draws (Parse.primary (fuel + 1)) Expr.ids := by
  intro s
  rw [Parse.primary, peek_bind]
  generalize hk : (s.rest.headD (Token.finish 1)).kind = kind
  have ha := ParseState.Draws.drop_one s
  split
  all_goals try rw [advance_bind]
  · exact ha
  · exact ha
  · exact ha
  · exact ha
  · exact ha
  · exact .pay (by rw [hk]; decide)
  · exact .pay (by rw [hk]; decide)
  · exact .bind ha (ih.functionRest none .inlineFunction _) fun _ _ hb => .pure hb rfl
  · refine .bind ha (ih.expressionList _) fun _ t hb => ?_
    exact .skip hb (draws_expect _) fun _ _ hc => .pure hc rfl
  · exact draws_reject ha _ _
  · rw [report_bind]
    exact draws_attempt_fail (ha.append (.report _ _)) (ih.conditional _)
  · rw [report_bind]
    exact draws_attempt_fail (ha.append (.report _ _)) (ih.strayTernary _)
  · cases operandLevels? kind levels with
    | none => exact draws_reject (.refl s) _ _
    | some tighter =>
      simp only [advance_bind, report_bind]
      exact draws_attempt_fail (ha.append (.report _ _)) (ih.binaryLevels tighter _)

theorem strayTernary_step (ih : DrawsAt fuel) :
    Draws (Parse.strayTernary (fuel + 1)) Expr.ids := by
  intro s
  rw [Parse.strayTernary]
  refine .bind (.refl s) (ih.expressionList s) fun _ t ha => ?_
  refine .skip ha.forget (draws_expect _) fun _ t hb => ?_
  exact (ih.conditional t).since hb

end DrawsAt

/-- The trees of every rule hold identities that were drawn for them, whatever its fuel. -/
theorem draws (fuel : Nat) : DrawsAt fuel := by
  induction fuel with
  | zero => exact drawsAt_zero
  | succ fuel ih =>
    exact {
      parameters := ih.parameters_step
      declaration := ih.declaration_step
      declarationOrFail := ih.declarationOrFail_step
      declarations := ih.declarations_step
      classDeclaration := ih.classDeclaration_step
      methods := ih.methods_step
      namedFunction := ih.namedFunction_step
      functionRest := ih.functionRest_step
      varDeclaration := ih.varDeclaration_step
      statement := ih.statement_step
      forStatement := ih.forStatement_step
      forInitializer := ih.forInitializer_step
      ifStatement := ih.ifStatement_step
      whileStatement := ih.whileStatement_step
      blockRest := ih.blockRest_step
      expressionStatement := ih.expressionStatement_step
      expressionList := ih.expressionList_step
      expressionListRest := ih.expressionListRest_step
      conditional := ih.conditional_step
      assignment := ih.assignment_step
      binaryLevels := ih.binaryLevels_step
      binaryRest := ih.binaryRest_step
      unary := ih.unary_step
      callRest := ih.callRest_step
      arguments := ih.arguments_step
      primary := ih.primary_step
      strayTernary := ih.strayTernary_step }

end Parse

/-! ## Programs -/

namespace Program

/-- No two references of a program have the same identity, and no more identities are used
up than there are tokens.  The tokens are any, and so is what was dropped. -/
theorem drawn (tokens : List Token) (firstId : ReferenceId) :
    Drawn firstId (ofTokens tokens firstId).nextId
        (Stmt.idsOfAll (ofTokens tokens firstId).statements) ∧
      (ofTokens tokens firstId).nextId ≤ firstId + tokens.length := by
  have hdraws := (Parse.draws (32 * (tokens.length + 1))).declarations false
    { rest := tokens, nextId := firstId, loopDepth := 0, diagnostics := [] }
  simp only [ofTokens]
  generalize Parse.declarations _ false _ = reply at hdraws ⊢
  cases reply with
  | ok found t => exact ⟨hdraws.toDrawn, Nat.le_trans (Nat.le_add_right _ _) hdraws.paid⟩
  | failed t => exact ⟨hdraws.toDrawn, Nat.le_trans (Nat.le_add_right _ _) hdraws.paid⟩
  | outOfFuel => exact ⟨.nil (Nat.le_refl _), Nat.le_add_right _ _⟩

end Program

end TreeScript
