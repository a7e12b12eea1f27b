import TreeScript.Proofs.Parsing.Sequence
import TreeScript.Proofs.Parsing.Settling

/-!
# Faults stay inside of their statement

What stands before a semicolon, without a brace and without a token that starts a statement, is
an expression statement or faulty.  Where in it the first fault arises does not matter: whatever
was consumed then, parsing goes on right behind the semicolon.

* `Enclosed` — tokens up to a semicolon that ends them
* `Parse.Stays` — a step that stays in front of the semicolon and does not look behind it
* `Parse.stays` — the rules of expressions stay
* `Parse.settles_enclosed` — a declaration ends right behind the semicolon
* `Program.ofTokens_confined` — what comes before and behind is parsed as if it stood alone
-/

namespace TreeScript

/-! ## Tokens up to a semicolon -/

/-- A kind of token that neither ends a statement nor starts one nor opens a block. -/
def TokenKind.IsPlain (kind : TokenKind) : Prop :=
  kind ≠ .semicolon ∧ kind ≠ .leftBrace ∧ kind ≠ .elseKeyword ∧ kind ≠ .endOfInput ∧
    Parse.startsStatement kind = false

instance (kind : TokenKind) : Decidable kind.IsPlain :=
  inferInstanceAs (Decidable (_ ∧ _))

/-- Plain tokens up to a semicolon. -/
inductive Enclosed : List Token → Prop
  | semicolon {token : Token} : token.kind = .semicolon → Enclosed [token]
  | plain {token : Token} {rest : List Token} :
      token.kind.IsPlain → Enclosed rest → Enclosed (token :: rest)

namespace Enclosed

theorem of_plain {words : List Token} {semicolon : Token}
    (hwords : ∀ token ∈ words, token.kind.IsPlain) (hs : semicolon.kind = .semicolon) :
    Enclosed (words ++ [semicolon]) := by
  induction words with
  | nil => exact .semicolon hs
  | cons token words ih =>
    exact .plain (hwords token (List.mem_cons_self ..))
      (ih fun t ht => hwords t (List.mem_cons_of_mem _ ht))

/-- The first of the tokens, which is there. -/
theorem head {tokens : List Token} (h : Enclosed tokens) (default : Token) :
    ((tokens.headD default).kind = .semicolon ∨ (tokens.headD default).kind.IsPlain) ∧
      ∀ more, (tokens ++ more).headD default = tokens.headD default := by
  cases h with
  | semicolon hs => exact ⟨.inl hs, fun _ => rfl⟩
  | plain hp _ => exact ⟨.inr hp, fun _ => rfl⟩

theorem head_ne {tokens : List Token} (h : Enclosed tokens) (default : Token) :
    (tokens.headD default).kind ≠ .endOfInput ∧ (tokens.headD default).kind ≠ .elseKeyword := by
  rcases (h.head default).1 with hk | ⟨-, -, helse, hend, -⟩
  · rw [hk]
    exact ⟨nofun, nofun⟩
  · exact ⟨hend, helse⟩

/-- Without their first token, if that is not the semicolon. -/
theorem drop_one {tokens : List Token} {default : Token} (h : Enclosed tokens)
    (hne : (tokens.headD default).kind ≠ .semicolon) :
    Enclosed (tokens.drop 1) ∧ ∀ more, (tokens ++ more).drop 1 = tokens.drop 1 ++ more := by
  cases h with
  | semicolon hs => exact absurd hs hne
  | plain _ hrest => exact ⟨hrest, fun _ => rfl⟩

/-- A token that ends a statement is the semicolon behind all the others. -/
theorem drop_semicolon {tokens : List Token} {default : Token} (h : Enclosed tokens)
    (hk : (tokens.headD default).kind = .semicolon) (more : List Token) :
    (tokens ++ more).drop 1 = more := by
  cases h with
  | semicolon _ => rfl
  | plain hp _ => exact absurd hk hp.1

/-- From inside of the tokens, synchronizing goes on right behind the semicolon. -/
theorem skipToBoundary {tokens : List Token} (h : Enclosed tokens) {last : TokenKind}
    (hlast : last ≠ .semicolon) (more : List Token) :
    Parse.skipToBoundary last (tokens ++ more) = more := by
  induction h generalizing last with
  | @semicolon token hs =>
    rw [List.singleton_append, Parse.skipToBoundary, if_neg (by simp [hs, hlast,
      Parse.startsStatement]), hs]
    cases more with
    | nil => rfl
    | cons first more => rw [Parse.skipToBoundary, if_pos (.inr (.inl rfl))]
  | @plain token rest hp _ ih =>
    obtain ⟨hs, -, -, he, hn⟩ := hp
    rw [List.cons_append, Parse.skipToBoundary, if_neg (by simp [he, hlast, hn]), ih hs]

theorem synchronize {tokens : List Token} (h : Enclosed tokens) (more : List Token) :
    Parse.synchronize (tokens ++ more) = more := by
  cases h with
  | @semicolon token hs =>
    rw [List.singleton_append, Parse.synchronize, if_neg (by simp [hs]), hs]
    cases more with
    | nil => rfl
    | cons first more => rw [Parse.skipToBoundary, if_pos (.inr (.inl rfl))]
  | @plain token rest hp hrest =>
    obtain ⟨hs, -, -, he, -⟩ := hp
    rw [List.cons_append, Parse.synchronize, if_neg he, hrest.skipToBoundary hs]

end Enclosed

/-- The state with more tokens behind those that are left. -/
def ParseState.followedBy (s : ParseState) (more : List Token) : ParseState :=
  { s with rest := s.rest ++ more }

namespace Parse

/-! ## Steps in front of the semicolon -/

/-- A step that stays in front of the semicolon and does not look behind it. -/
structure Stays {α : Type} (step : Parse α) (s : ParseState) : Prop where
  inside : ∀ t, (step s).state? = some t → Enclosed t.rest
  same : ∀ more, step (s.followedBy more) = (step s).onState (·.followedBy more)

namespace Stays

variable {α β : Type} {s : ParseState}

/-! ### Sequencing -/

theorem bind {first : Parse α} {next : α → Parse β} (h : Stays first s)
    (hn : ∀ a t, Enclosed t.rest → Stays (next a) t) : Stays (first >>= next) s := by
  have hsame : ∀ more, (first >>= next) (s.followedBy more) =
      ((first >>= next) s).onState (·.followedBy more) ∧
      ∀ t, ((first >>= next) s).state? = some t → Enclosed t.rest := by
    intro more
    show Parse.bind first next _ = (Parse.bind first next s).onState _ ∧
      ∀ t, (Parse.bind first next s).state? = some t → _
    unfold Parse.bind
    have hi := h.inside
    rw [h.same more]
    cases hr : first s with
    | ok a t =>
      have ht := hn a t (hi t (by rw [hr]; rfl))
      exact ⟨ht.same more, ht.inside⟩
    | failed t =>
      rw [hr] at hi
      exact ⟨rfl, hi⟩
    | outOfFuel => exact ⟨rfl, nofun⟩
  exact ⟨(hsame []).2, fun more => (hsame more).1⟩

theorem attempt {step : Parse α} (h : Stays step s) : Stays (Parse.attempt step) s := by
  have hi := h.inside
  refine ⟨fun t ht => ?_, fun more => ?_⟩
  · unfold Parse.attempt at ht
    cases hr : step s <;> simp only [hr] at hi ht <;> exact hi t ht
  · unfold Parse.attempt
    rw [h.same more]
    cases step s <;> rfl

theorem stuck : Stays (Parse.stuck : Parse α) s :=
  ⟨nofun, fun _ => rfl⟩

section Inside

variable (hs : Enclosed s.rest)
include hs

theorem pure (a : α) : Stays (Pure.pure a : Parse α) s :=
  ⟨fun _ ht => Option.some.inj ht ▸ hs, fun _ => rfl⟩

theorem fail : Stays (Parse.fail : Parse α) s :=
  ⟨fun _ ht => Option.some.inj ht ▸ hs, fun _ => rfl⟩

/-! ### Tokens -/

theorem peek_bind {next : Token → Parse β}
    (h : Stays (next (s.rest.headD (Token.finish 1))) s) : Stays (peek >>= next) s := by
  refine ⟨h.inside, fun more => ?_⟩
  rw [Parse.peek_bind, Parse.peek_bind, ← h.same more, ParseState.followedBy]
  simp only [(hs.head _).2]

theorem peekKind_bind {next : TokenKind → Parse β}
    (h : Stays (next s.nextKind) s) : Stays (peekKind >>= next) s := by
  show Stays (peek >>= fun token => next token.kind) s
  exact peek_bind hs h

theorem advance (hne : s.nextKind ≠ .semicolon) : Stays Parse.advance s := by
  obtain ⟨hdrop, hmore⟩ := hs.drop_one hne
  refine ⟨fun t ht => Option.some.inj ht ▸ hdrop, fun more => ?_⟩
  simp only [Parse.advance, ParseState.followedBy, hmore, Reply.onState]

theorem accept? {kinds : List TokenKind} (hk : TokenKind.semicolon ∉ kinds) :
    Stays (Parse.accept? kinds) s := by
  refine peek_bind hs ?_
  split
  · rename_i hmem
    refine .bind (advance hs fun he => hk (he ▸ hmem)) fun _ t ht => ?_
    exact pure ht _
  · exact pure hs _

theorem report (token : Token) (fault : GrammarFault) : Stays (Parse.report token fault) s :=
  ⟨fun _ ht => Option.some.inj ht ▸ hs, fun _ => rfl⟩

theorem reject (token : Token) (fault : GrammarFault) :
    Stays (Parse.reject token fault : Parse α) s :=
  .bind (report hs token fault) fun _ _ ht => fail ht

theorem expect {slot : Slot} (hk : slot.kind ≠ .semicolon) : Stays (Parse.expect slot) s := by
  refine peek_bind hs ?_
  split
  · rename_i hslot
    refine .bind (advance hs fun he => hk (hslot ▸ he)) fun _ t ht => ?_
    exact pure ht _
  · exact reject hs _ _

theorem newId : Stays Parse.newId s :=
  ⟨fun _ ht => Option.some.inj ht ▸ hs, fun _ => rfl⟩

theorem limit (count : Nat) (fault : GrammarFault) : Stays (Parse.limit count fault) s := by
  unfold Parse.limit
  split
  · exact peek_bind hs (report hs _ _)
  · exact pure hs _

theorem unlessNext {kind : TokenKind} {step : Parse α} (h : Stays step s) :
    Stays (Parse.unlessNext kind step) s := by
  refine peekKind_bind hs ?_
  split
  · exact pure hs _
  · exact .bind h fun _ _ ht => pure ht _

end Inside

end Stays

/-! ## Rules -/

/-- The rules of expressions stay in front of the semicolon. -/
structure StaysAt (fuel : Nat) : Prop where
  expressionList : ∀ s, Enclosed s.rest → Stays (expressionList fuel) s
  expressionListRest : ∀ left s, Enclosed s.rest → Stays (expressionListRest fuel left) s
  conditional : ∀ s, Enclosed s.rest → Stays (conditional fuel) s
  assignment : ∀ s, Enclosed s.rest → Stays (assignment fuel) s
  binaryLevels : ∀ ls, ls <:+ levels → ∀ s, Enclosed s.rest → Stays (binaryLevels fuel ls) s
  binaryRest : ∀ level tighter left, level :: tighter <:+ levels →
    ∀ s, Enclosed s.rest → Stays (binaryRest fuel level tighter left) s
  unary : ∀ s, Enclosed s.rest → Stays (unary fuel) s
  callRest : ∀ callee s, Enclosed s.rest → Stays (callRest fuel callee) s
  arguments : ∀ count s, Enclosed s.rest → Stays (arguments fuel count) s
  primary : ∀ s, Enclosed s.rest → Stays (primary fuel) s
  strayTernary : ∀ s, Enclosed s.rest → Stays (strayTernary fuel) s

theorem semicolon_not_mem_operators {level : Level} (h : level ∈ levels) :
    TokenKind.semicolon ∉ level.operators := by
  simp only [levels, List.mem_cons, List.not_mem_nil, or_false] at h
  rcases h with rfl | rfl | rfl | rfl | rfl | rfl <;> decide

theorem operandLevels?_semicolon : operandLevels? .semicolon levels = none := by
  decide

namespace StaysAt

theorem zero : StaysAt 0 where
  expressionList _ _ := by rw [Parse.expressionList]; exact .stuck
  expressionListRest _ _ _ := by rw [Parse.expressionListRest]; exact .stuck
  conditional _ _ := by rw [Parse.conditional]; exact .stuck
  assignment _ _ := by rw [Parse.assignment]; exact .stuck
  binaryLevels _ _ _ _ := by rw [Parse.binaryLevels]; exact .stuck
  binaryRest _ _ _ _ _ _ := by rw [Parse.binaryRest]; exact .stuck
  unary _ _ := by rw [Parse.unary]; exact .stuck
  callRest _ _ _ := by rw [Parse.callRest]; exact .stuck
  arguments _ _ _ := by rw [Parse.arguments]; exact .stuck
  primary _ _ := by rw [Parse.primary]; exact .stuck
  strayTernary _ _ := by rw [Parse.strayTernary]; exact .stuck

variable {fuel : Nat} (ih : StaysAt fuel) (s : ParseState) (hs : Enclosed s.rest)
include ih hs

theorem expressionList_step : Stays (Parse.expressionList (fuel + 1)) s := by
  rw [Parse.expressionList]
  exact .bind (ih.conditional s hs) fun _ t ht => ih.expressionListRest _ t ht

theorem expressionListRest_step (left : Expr) :
    Stays (Parse.expressionListRest (fuel + 1) left) s := by
  rw [Parse.expressionListRest]
  refine .bind (.accept? hs (by decide)) fun operator t ht => ?_
  cases operator with
  | some _ =>
    exact .bind (ih.conditional t ht) fun _ t ht => ih.expressionListRest _ t ht
  | none => exact .pure ht _

theorem conditional_step : Stays (Parse.conditional (fuel + 1)) s := by
  rw [Parse.conditional]
  refine .bind (ih.assignment s hs) fun condition t ht => ?_
  refine .bind (.accept? ht (by decide)) fun question t ht => ?_
  cases question with
  | some _ =>
    refine .bind (.unlessNext ht (ih.expressionList t ht)) fun whenTrue t ht => ?_
    refine .bind (.expect ht (by decide)) fun _ t ht => ?_
    exact .bind (ih.conditional t ht) fun _ t ht => .pure ht _
  | none => exact .pure ht _

theorem assignment_step : Stays (Parse.assignment (fuel + 1)) s := by
  rw [Parse.assignment]
  refine .bind (ih.binaryLevels levels List.suffix_rfl s hs) fun target t ht => ?_
  refine .bind (.accept? ht (by decide)) fun equals t ht => ?_
  cases equals with
  | some _ =>
    refine .bind (ih.assignment t ht) fun value t ht => ?_
    split
    · exact .pure ht _
    · exact .pure ht _
    · exact .bind (.report ht _ _) fun _ t ht => .pure ht _
  | none => exact .pure ht _

theorem binaryLevels_step (ls : List Level) (hl : ls <:+ levels) :
    Stays (Parse.binaryLevels (fuel + 1) ls) s := by
  cases ls with
  | nil =>
    rw [Parse.binaryLevels]
    exact ih.unary s hs
  | cons level tighter =>
    rw [Parse.binaryLevels]
    have htighter : tighter <:+ levels := (List.suffix_cons level tighter).trans hl
    exact .bind (ih.binaryLevels tighter htighter s hs) fun _ t ht =>
      ih.binaryRest level tighter _ hl t ht

theorem binaryRest_step (level : Level) (tighter : List Level) (left : Expr)
    (hl : level :: tighter <:+ levels) :
    Stays (Parse.binaryRest (fuel + 1) level tighter left) s := by
  rw [Parse.binaryRest]
  have htighter : tighter <:+ levels := (List.suffix_cons level tighter).trans hl
  have hoperators := semicolon_not_mem_operators (hl.subset (List.mem_cons_self ..))
  refine .bind (.accept? hs hoperators) fun operator t ht => ?_
  cases operator with
  | some _ =>
    exact .bind (ih.binaryLevels tighter htighter t ht) fun _ t ht =>
      ih.binaryRest level tighter _ hl t ht
  | none => exact .pure ht _

theorem unary_step : Stays (Parse.unary (fuel + 1)) s := by
  rw [Parse.unary]
  refine .bind (.accept? hs (by decide)) fun operator t ht => ?_
  cases operator with
  | some _ => exact .bind (ih.unary t ht) fun _ t ht => .pure ht _
  | none => exact .bind (ih.primary t ht) fun _ t ht => ih.callRest _ t ht

theorem callRest_step (callee : Expr) : Stays (Parse.callRest (fuel + 1) callee) s := by
  rw [Parse.callRest]
  refine .peekKind_bind hs ?_
  generalize hk : s.nextKind = kind
  split
  · refine .bind (.advance hs (by rw [hk]; decide)) fun _ t ht => ?_
    refine .bind (.unlessNext ht (ih.arguments 0 t ht)) fun found t ht => ?_
    exact .bind (.expect ht (by decide)) fun _ t ht => ih.callRest _ t ht
  · refine .bind (.advance hs (by rw [hk]; decide)) fun _ t ht => ?_
    exact .bind (.expect ht (by decide)) fun _ t ht => ih.callRest _ t ht
  · exact .pure hs _

theorem arguments_step (count : Nat) : Stays (Parse.arguments (fuel + 1) count) s := by
  rw [Parse.arguments]
  refine .bind (.limit hs _ _) fun _ t ht => ?_
  refine .bind (ih.conditional t ht) fun first t ht => ?_
  refine .bind (.accept? ht (by decide)) fun comma t ht => ?_
  cases comma with
  | some _ => exact .bind (ih.arguments _ t ht) fun _ t ht => .pure ht _
  | none => exact .pure ht _

theorem primary_step : Stays (Parse.primary (fuel + 1)) s := by
  rw [Parse.primary]
  refine .peek_bind hs ?_
  have hnext := (hs.head (Token.finish 1)).1
  generalize hk : (s.rest.headD (Token.finish 1)).kind = kind at hnext
  split
  -- neither a function nor a jump stands in front of the semicolon
  all_goals try exact absurd hnext (by decide)
  all_goals try
    refine .bind (.advance hs (by rw [ParseState.nextKind, hk]; decide)) fun _ t ht => ?_
  · exact .pure ht _
  · exact .pure ht _
  · exact .pure ht _
  · exact .pure ht _
  · exact .pure ht _
  · exact .bind (.newId ht) fun _ t ht => .pure ht _
  · exact .bind (.newId ht) fun _ t ht => .pure ht _
  · refine .bind (ih.expressionList t ht) fun inner t ht => ?_
    exact .bind (.expect ht (by decide)) fun _ t ht => .pure ht _
  · refine .bind (.report ht _ _) fun _ t ht => ?_
    exact .bind (.attempt (ih.conditional t ht)) fun _ t ht => .fail ht
  · refine .bind (.report ht _ _) fun _ t ht => ?_
    exact .bind (.attempt (ih.strayTernary t ht)) fun _ t ht => .fail ht
  · cases ho : operandLevels? kind levels with
    | none => exact .reject hs _ _
    | some tighter =>
      have hne : s.nextKind ≠ .semicolon := fun he => by
        rw [← hk, ← ParseState.nextKind, he, operandLevels?_semicolon] at ho
        cases ho
      refine .bind (.advance hs hne) fun _ t ht => .bind (.report ht _ _) fun _ t ht => ?_
      exact .bind (.attempt (ih.binaryLevels tighter (OrderlyAt.operandLevels?_suffix ho) t ht))
        fun _ t ht => .fail ht

theorem strayTernary_step : Stays (Parse.strayTernary (fuel + 1)) s := by
  rw [Parse.strayTernary]
  refine .bind (ih.expressionList s hs) fun _ t ht => ?_
  exact .bind (.expect ht (by decide)) fun _ t ht => ih.conditional t ht

end StaysAt

/-- The rules of expressions stay in front of the semicolon, whatever stands there. -/
theorem stays (fuel : Nat) : StaysAt fuel := by
  induction fuel with
  | zero => exact .zero
  | succ fuel ih =>
    exact {
      expressionList := ih.expressionList_step
      expressionListRest := fun left s hs => ih.expressionListRest_step s hs left
      conditional := ih.conditional_step
      assignment := ih.assignment_step
      binaryLevels := fun ls hl s hs => ih.binaryLevels_step s hs ls hl
      binaryRest := fun level tighter left hl s hs =>
        ih.binaryRest_step s hs level tighter left hl
      unary := ih.unary_step
      callRest := fun callee s hs => ih.callRest_step s hs callee
      arguments := fun count s hs => ih.arguments_step s hs count
      primary := ih.primary_step
      strayTernary := ih.strayTernary_step }

/-! ## Statements -/

/-- In front of the semicolon a declaration is an expression statement. -/
theorem declarationOrFail_enclosed {s : ParseState} (hs : Enclosed s.rest) (fuel : Nat)
    (more : List Token) :
    declarationOrFail (fuel + 2) (s.followedBy more) =
      expressionStatement fuel (s.followedBy more) := by
  obtain ⟨hnext, hmore⟩ := hs.head (Token.finish 1)
  have hk : ((s.followedBy more).rest.headD (Token.finish 1)).kind =
      (s.rest.headD (Token.finish 1)).kind := by rw [ParseState.followedBy, hmore]
  rw [declarationOrFail, peekKind_bind, hk]
  generalize (s.rest.headD (Token.finish 1)).kind = kind at hnext hk
  split
  · exact absurd hnext (by decide)
  · exact absurd hnext (by decide)
  · rw [statement, peek_bind, hk]
    split
    all_goals first | rfl | exact absurd hnext (by decide)

section ExpressionStatement

variable {fuel : Nat} {s t : ParseState} {value : Expr}

theorem expressionStatement_of_ok (h : expressionList fuel s = .ok value t)
    (ht : t.nextKind = .semicolon) :
    expressionStatement (fuel + 1) s =
      .ok (.expression value) { t with rest := t.rest.drop 1 } := by
  rw [expressionStatement]
  have hend : expect .expressionEnd t = _ := (expect_eq _).trans (if_pos ht)
  exact bind_eq_ok.2 ⟨_, _, h, bind_eq_ok.2 ⟨_, _, hend, rfl⟩⟩

theorem expressionStatement_of_no_end (h : expressionList fuel s = .ok value t)
    (ht : t.nextKind ≠ .semicolon) :
    expressionStatement (fuel + 1) s = .failed { t with
      diagnostics := t.diagnostics ++
        [Diagnostic.grammarAt (t.rest.headD (Token.finish 1)) (.missing .expressionEnd)] } := by
  rw [expressionStatement]
  have hend : expect .expressionEnd t = _ := (expect_eq _).trans (if_neg ht)
  exact bind_eq_failed.2 (.inr ⟨_, _, h, bind_eq_failed.2 (.inl hend)⟩)

theorem expressionStatement_of_failed (h : expressionList fuel s = .failed t) :
    expressionStatement (fuel + 1) s = .failed t := by
  rw [expressionStatement]
  exact bind_eq_failed.2 (.inl h)

/-- A declaration that has failed inside of the tokens goes on right behind the semicolon. -/
theorem recover_enclosed {α : Type} {step : Parse α} {more : List Token}
    (h : step s = .failed (t.followedBy more)) (ht : Enclosed t.rest) :
    recover step s = .ok none ({ t with rest := [] }.followedBy more) := by
  rw [recover, h]
  simp only [ParseState.followedBy, ht.synchronize, List.nil_append]

end ExpressionStatement

/-- In front of the semicolon a declaration ends right behind it, whatever follows there.  It is
dropped only if it has a fault. -/
theorem settles_enclosed {s : ParseState} (hs : Enclosed s.rest) :
    ∃ (found : Option Stmt) (t : ParseState), t.rest = [] ∧ t.loopDepth = s.loopDepth ∧
      (found = none → s.diagnostics.length < t.diagnostics.length) ∧
      ∀ more, Settles declaration (s.followedBy more) (.ok found (t.followedBy more)) := by
  let fuel := 32 * (s.rest.length + 1)
  have hne := (Rule.expressionList : Rule fuel _).ne_outOfFuel s (Nat.le_refl _)
  have ho := (orderly fuel).expressionList s
  have hstays := (stays fuel).expressionList s hs
  suffices h : ∃ (found : Option Stmt) (t : ParseState), t.rest = [] ∧
      t.loopDepth = s.loopDepth ∧ (found = none → s.diagnostics.length < t.diagnostics.length) ∧
      ∀ more, recover (expressionStatement (fuel + 1)) (s.followedBy more) =
        .ok found (t.followedBy more) by
    obtain ⟨found, t, hrest, hloops, hfaults, h⟩ := h
    refine ⟨found, t, hrest, hloops, hfaults, fun more => ?_⟩
    have hdeclaration : declaration (fuel + 4) (s.followedBy more) =
        .ok found (t.followedBy more) := by
      rw [declaration, ← h more, recover, declarationOrFail_enclosed hs, recover]
    exact .of_below (fun _ hle => (below hle).declaration) hdeclaration
      fun he => by cases he
  have hinside := hstays.inside
  cases hr : expressionList fuel s with
  | ok value t =>
    rw [hr] at ho hinside
    have hmore : ∀ more, expressionList fuel (s.followedBy more) = .ok value (t.followedBy more) :=
      fun more => by rw [hstays.same, hr]; rfl
    have hgrows := ho.grows
    have ht := hinside t rfl
    have hhead := (ht.head (Token.finish 1)).2
    have hnextKind : ∀ more, (t.followedBy more).nextKind = t.nextKind := fun more => by
      rw [ParseState.nextKind, ParseState.followedBy, hhead, ParseState.nextKind]
    by_cases hk : t.nextKind = .semicolon
    · refine ⟨some (.expression value), { t with rest := [] }, rfl, hgrows.loops,
        by rintro ⟨⟩, fun more => ?_⟩
      rw [recover, expressionStatement_of_ok (hmore more) ((hnextKind more).trans hk)]
      simp only [ParseState.followedBy, ht.drop_semicolon hk, List.nil_append]
    · let fault := Diagnostic.grammarAt (t.rest.headD (Token.finish 1)) (.missing .expressionEnd)
      refine ⟨none, { t with rest := [], diagnostics := t.diagnostics ++ [fault] }, rfl,
        hgrows.loops, fun _ => ?_, fun more => ?_⟩
      · have := hgrows.faults_le
        simp only [List.length_append, List.length_singleton]
        omega
      · have hfailed := expressionStatement_of_no_end (hmore more)
          (fun he => hk ((hnextKind more).symm.trans he))
        rw [show (t.followedBy more).rest.headD _ = _ from hhead more] at hfailed
        exact recover_enclosed (t := { t with diagnostics := t.diagnostics ++ [fault] }) hfailed ht
  | failed t =>
    rw [hr] at ho hinside
    have hmore : ∀ more, expressionList fuel (s.followedBy more) = .failed (t.followedBy more) :=
      fun more => by rw [hstays.same, hr]; rfl
    exact ⟨none, { t with rest := [] }, rfl, ho.1.loops, fun _ => ho.2, fun more =>
      recover_enclosed (expressionStatement_of_failed (hmore more)) (hinside t rfl)⟩
  | outOfFuel => exact absurd hr hne

end Parse

/-! ## Programs -/

namespace Program

/-- A fault stays inside of its statement.  Behind a program without a fault, plain tokens and a
semicolon give one statement at most, which is dropped only for a fault in it, and then comes the
program of the tokens behind the semicolon: statements and faults are the same as if the three
parts were parsed each on its own, with the identities one after the other. -/
theorem ofTokens_confined {before words behind : List Token} {finish finish' semicolon : Token}
    {firstId : ReferenceId} (hbefore : ∀ token ∈ before, token.kind ≠ .endOfInput)
    (hfinish : finish.kind = .endOfInput) (hfinish' : finish'.kind = .endOfInput)
    (hparsed : (ofTokens (before ++ [finish]) firstId).diagnostics = [])
    (hwords : ∀ token ∈ words, token.kind.IsPlain) (hsemicolon : semicolon.kind = .semicolon) :
    let first := ofTokens (before ++ [finish]) firstId
    let second := ofTokens (words ++ [semicolon, finish']) 0
    ofTokens (before ++ (words ++ semicolon :: behind)) firstId =
        first.followedBy (second.followedBy (ofTokens behind 0)) ∧
      second.statements.length ≤ 1 ∧ (second.statements = [] → second.diagnostics ≠ []) := by
  intro first second
  have hs := Enclosed.of_plain hwords hsemicolon
  obtain ⟨found, t, hrest, hloops, hfaults, h⟩ :=
    Parse.settles_enclosed (s := .start (words ++ [semicolon]) 0) hs
  let alone : Program :=
    { statements := found.toList, nextId := t.nextId, diagnostics := t.diagnostics }
  -- the statement in front of any tokens, and so also in front of the end mark alone
  have hprogram : ∀ more, ofTokens (words ++ semicolon :: more) 0 =
      alone.followedBy (ofTokens more 0) := by
    intro more
    have hnext : (ParseState.start (words ++ [semicolon] ++ more) 0).nextKind ≠ .endOfInput := by
      rw [ParseState.nextKind, ParseState.start, (hs.head _).2]
      exact (hs.head_ne _).1
    have hdeclared := ofTokens_of_declaration hnext (h more) hloops
    rw [ParseState.followedBy, hrest, List.nil_append] at hdeclared
    rw [List.append_cons, hdeclared]
  have hsecond : second = alone := by
    show ofTokens (words ++ semicolon :: [finish']) 0 = alone
    rw [hprogram, ofTokens_finish hfinish', followedBy_nothing]
  refine ⟨?_, ?_, ?_⟩
  · have hderived := derives_of_no_fault (c := .standard) rfl hbefore hfinish hparsed
    have hreplaced := derives_replace_tail hderived (words ++ semicolon :: behind)
    have helse : Point.nextKind ⟨words ++ semicolon :: behind, first.nextId⟩ ≠ .elseKeyword := by
      rw [Point.nextKind, List.append_cons, (hs.head _).2]
      exact (hs.head_ne _).2
    have hfirst : first = { first with diagnostics := [] } := by rw [← hparsed]
    rw [hsecond, ← hprogram behind, hfirst]
    exact ofTokens_of_declarations hreplaced helse
  · rw [hsecond]
    cases found <;> simp [alone]
  · rw [hsecond]
    cases found with
    | none => exact fun _ => List.ne_nil_of_length_pos (hfaults rfl)
    | some s => exact fun he => absurd he (List.cons_ne_nil s [])

/-- The tokens of `a; b + * c) d; e;`. -/
def faultBetween : List Token :=
  [word .identifier "a", word .semicolon ";", word .identifier "b", word .plus "+",
    word .star "*", word .identifier "c", word .rightParen ")", word .identifier "d",
    word .semicolon ";", word .identifier "e", word .semicolon ";", Token.finish 1]

theorem ofTokens_confined_faultBetween : ofTokens faultBetween 7 =
    { statements := [.expression (.variable 7 (word .identifier "a")),
        .expression (.variable 10 (word .identifier "e"))]
      nextId := 11
      diagnostics := [Diagnostic.grammarAt (word .star "*") (.missingOperand "*")] } :=
  (@ofTokens_confined (faultBetween.take 2) ((faultBetween.drop 2).take 6) (faultBetween.drop 9)
    (Token.finish 1) (Token.finish 1) (word .semicolon ";") 7 (by decide) rfl rfl rfl (by decide)
    rfl).1.trans rfl

end Program

end TreeScript
