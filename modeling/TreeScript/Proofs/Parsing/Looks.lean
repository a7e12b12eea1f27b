import TreeScript.Proofs.Parsing.Progress

/-!
# Where parsing looks

A parser looks at the next token time and again.  There must be one: past the last token
nothing can be looked at.  There is one as long as an end mark is left, and no step goes past
an end mark, whatever the tokens are.

* `Onward` — tokens that are left behind some that are no end marks
* `Parse.Looks` — what is left of the tokens at each look of a step, none of them past the end
* `Parse.Journey` — what is kept from before a step until after it, and at each look
* `Parse.Guarded` — a step that looks only at tokens that are there, if an end mark is left
* `Parse.Rule` — the rules of the grammar
* `Parse.Rule.guarded` — every rule is guarded
* `Parse.Rule.journey` — and keeps what a journey keeps, also when it fails
-/

namespace TreeScript

/-! ## Tokens up to an end mark -/

/-- An end mark is left. -/
def Marked (tokens : List Token) : Prop :=
  ∃ e ∈ tokens, e.kind = .endOfInput

/-- The tokens that are left when some are consumed, none of them an end mark. -/
def Onward (before after : List Token) : Prop :=
  ∃ used, before = used ++ after ∧ ∀ t ∈ used, t.kind ≠ .endOfInput

namespace Onward

variable {a b c : List Token}

theorem refl (a : List Token) : Onward a a :=
  ⟨[], rfl, nofun⟩

theorem trans (h₁ : Onward a b) (h₂ : Onward b c) : Onward a c := by
  obtain ⟨used, rfl, hused⟩ := h₁
  obtain ⟨more, rfl, hmore⟩ := h₂
  exact ⟨used ++ more, by rw [List.append_assoc], List.forall_mem_append.2 ⟨hused, hmore⟩⟩

theorem cons {token : Token} (h : token.kind ≠ .endOfInput) (rest : List Token) :
    Onward (token :: rest) rest :=
  ⟨[token], rfl, List.forall_mem_singleton.2 h⟩

theorem suffix (h : Onward a b) : b <:+ a := by
  obtain ⟨used, rfl, -⟩ := h
  exact List.suffix_append used b

theorem marked (h : Onward a b) (ha : Marked a) : Marked b := by
  obtain ⟨used, rfl, hused⟩ := h
  obtain ⟨e, he, hend⟩ := ha
  rcases List.mem_append.1 he with he | he
  · exact absurd hend (hused e he)
  · exact ⟨e, he, hend⟩

end Onward

theorem Marked.exists_cons {tokens : List Token} (h : Marked tokens) :
    ∃ token rest, tokens = token :: rest := by
  obtain ⟨e, he, -⟩ := h
  exact List.exists_cons_of_ne_nil (List.ne_nil_of_mem he)

/-- The state that a step leaves, whether it succeeds or fails. -/
def Reply.state? {α : Type} : Reply α → Option ParseState
  | .ok _ state => some state
  | .failed state => some state
  | .outOfFuel => none

namespace Parse

/-! ## Looking at tokens -/

/-- How tokens are dropped up to a boundary, with what is left at each look. -/
inductive Skips : TokenKind → List Token → List (List Token) → List Token → Prop where
  | stop {last token rest}
      (h : token.kind = .endOfInput ∨ last = .semicolon ∨ startsStatement token.kind) :
      Skips last (token :: rest) [token :: rest] (token :: rest)
  | drop {last token rest seen stop}
      (h : ¬(token.kind = .endOfInput ∨ last = .semicolon ∨ startsStatement token.kind))
      (hrest : Skips token.kind rest seen stop) :
      Skips last (token :: rest) ((token :: rest) :: seen) stop

/-- How a failed step goes on at the next boundary, with what is left at each look. -/
inductive Synchronizes : List Token → List (List Token) → List Token → Prop where
  | atEnd {token rest} (h : token.kind = .endOfInput) :
      Synchronizes (token :: rest) [token :: rest] (token :: rest)
  | drop {token rest seen stop} (h : token.kind ≠ .endOfInput)
      (hrest : Skips token.kind rest seen stop) :
      Synchronizes (token :: rest) ((token :: rest) :: seen) stop

/-- What is left of the tokens at each look of a step.  Each is a look at a token that is
there, and a token is consumed only if it is no end mark: a step that would look past the end
of the tokens, or go past an end mark, has no looks at all, and neither has one without
fuel. -/
inductive Looks : {α : Type} → Parse α → ParseState → List (List Token) → Prop where
  | pure {α} (a : α) (s) : Looks (Pure.pure a) s []
  | fail {α} (s) : Looks (fail : Parse α) s []
  | peek {s token rest} (h : s.rest = token :: rest) : Looks peek s [token :: rest]
  | kindAfterNext? (s) : Looks kindAfterNext? s []
  | advance {s token rest} (h : s.rest = token :: rest) (hk : token.kind ≠ .endOfInput) :
      Looks advance s [token :: rest]
  | newId (s) : Looks newId s []
  | report (token fault s) : Looks (report token fault) s []
  | loopDepth (s) : Looks loopDepth s []
  | bind {α β} {first : Parse α} {next : α → Parse β} {s a t seen more}
      (h : Looks first s seen) (ha : first s = .ok a t) (hn : Looks (next a) t more) :
      Looks (first >>= next) s (seen ++ more)
  | bindFailed {α β} {first : Parse α} {next : α → Parse β} {s t seen}
      (h : Looks first s seen) (hf : first s = .failed t) : Looks (first >>= next) s seen
  | attempt {α} {step : Parse α} {s seen} (h : Looks step s seen) : Looks (attempt step) s seen
  | atLoopDepth {α} {depth : Nat → Nat} {step : Parse α} {s seen}
      (h : Looks step { s with loopDepth := depth s.loopDepth } seen) :
      Looks (atLoopDepth depth step) s seen
  | recover {α} {step : Parse α} {s a t seen} (h : Looks step s seen) (ha : step s = .ok a t) :
      Looks (recover step) s seen
  | recoverFailed {α} {step : Parse α} {s t seen more stop} (h : Looks step s seen)
      (hf : step s = .failed t) (hs : Synchronizes t.rest more stop) :
      Looks (recover step) s (seen ++ more)

/-! ## What is kept -/

/-- What is kept from one state until a later one, with what was left of the tokens at each
look in between. -/
structure Journey (before : ParseState) (seen : List (List Token)) (after : ParseState) :
    Prop where
  tokens : Onward before.rest after.rest
  ids : before.nextId ≤ after.nextId
  loops : after.loopDepth = before.loopDepth
  looks : ∀ left ∈ seen, Onward before.rest left ∧ Onward left after.rest
  order : seen.Pairwise Onward

namespace Journey

variable {s t r : ParseState} {seen more : List (List Token)}

theorem refl (s : ParseState) : Journey s [] s :=
  ⟨.refl _, Nat.le_refl _, rfl, nofun, .nil⟩

theorem trans (h₁ : Journey s seen t) (h₂ : Journey t more r) : Journey s (seen ++ more) r where
  tokens := h₁.tokens.trans h₂.tokens
  ids := Nat.le_trans h₁.ids h₂.ids
  loops := h₂.loops.trans h₁.loops
  looks := List.forall_mem_append.2
    ⟨fun left h => ⟨(h₁.looks left h).1, (h₁.looks left h).2.trans h₂.tokens⟩,
      fun left h => ⟨h₁.tokens.trans (h₂.looks left h).1, (h₂.looks left h).2⟩⟩
  order := List.pairwise_append.2 ⟨h₁.order, h₂.order, fun earlier he later hl =>
    (h₁.looks earlier he).2.trans (h₂.looks later hl).1⟩

/-- One look at what is left, and then some of it is consumed. -/
theorem look {left : List Token} (h : Onward left t.rest) (hs : s.rest = left)
    (hi : s.nextId ≤ t.nextId) (hl : t.loopDepth = s.loopDepth) : Journey s [left] t where
  tokens := hs ▸ h
  ids := hi
  loops := hl
  looks := List.forall_mem_singleton.2 ⟨hs ▸ .refl _, h⟩
  order := List.pairwise_singleton _ _

end Journey

/-! ## Recovering at a boundary -/

theorem Skips.eq {last : TokenKind} {tokens stop : List Token} {seen : List (List Token)}
    (h : Skips last tokens seen stop) : skipToBoundary last tokens = stop := by
  induction h with
  | stop h => rw [skipToBoundary, if_pos h]
  | drop h _ ih => rw [skipToBoundary, if_neg h, ih]

theorem Skips.journey {last : TokenKind} {tokens stop : List Token} {seen : List (List Token)}
    (h : Skips last tokens seen stop) (s : ParseState) (hs : s.rest = tokens) :
    Journey s seen { s with rest := stop } := by
  induction h generalizing s with
  | stop => exact .look (.refl _) hs (Nat.le_refl _) rfl
  | @drop last token rest seen stop h _ ih =>
    have hdrop : Journey s [token :: rest] { s with rest } :=
      .look (.cons (fun hk => h (.inl hk)) rest) hs (Nat.le_refl _) rfl
    exact hdrop.trans (ih { s with rest } rfl)

theorem Skips.exists (last : TokenKind) {tokens : List Token} (h : Marked tokens) :
    ∃ seen stop, Skips last tokens seen stop := by
  induction tokens generalizing last with
  | nil =>
    obtain ⟨e, he, -⟩ := h
    cases he
  | cons token rest ih =>
    by_cases hb : token.kind = .endOfInput ∨ last = .semicolon ∨ startsStatement token.kind
    · exact ⟨_, _, .stop hb⟩
    · obtain ⟨seen, stop, hs⟩ :=
        ih token.kind ((Onward.cons (fun hk => hb (.inl hk)) rest).marked h)
      exact ⟨_, _, .drop hb hs⟩

theorem Synchronizes.eq {tokens stop : List Token} {seen : List (List Token)}
    (h : Synchronizes tokens seen stop) : synchronize tokens = stop := by
  cases h with
  | atEnd h => rw [synchronize, if_pos h]
  | drop h hrest => rw [synchronize, if_neg h, hrest.eq]

theorem Synchronizes.journey {s : ParseState} {stop : List Token} {seen : List (List Token)}
    (h : Synchronizes s.rest seen stop) : Journey s seen { s with rest := stop } := by
  generalize hs : s.rest = tokens at h
  cases h with
  | atEnd => exact .look (.refl _) hs (Nat.le_refl _) rfl
  | @drop token rest _ _ hk hrest =>
    have hdrop : Journey s [token :: rest] { s with rest } :=
      .look (.cons hk rest) hs (Nat.le_refl _) rfl
    exact hdrop.trans (hrest.journey { s with rest } rfl)

theorem Synchronizes.exists {tokens : List Token} (h : Marked tokens) :
    ∃ seen stop, Synchronizes tokens seen stop := by
  obtain ⟨token, rest, rfl⟩ := h.exists_cons
  by_cases hk : token.kind = .endOfInput
  · exact ⟨_, _, .atEnd hk⟩
  · obtain ⟨seen, stop, hs⟩ := Skips.exists token.kind ((Onward.cons hk rest).marked h)
    exact ⟨_, _, .drop hk hs⟩

/-! ## Steps that look at tokens -/

/-- A step with looks has fuel, and keeps what a journey keeps, also when it fails. -/
theorem Looks.journey {α : Type} {step : Parse α} {s : ParseState} {seen : List (List Token)}
    (h : Looks step s seen) : ∃ t, (step s).state? = some t ∧ Journey s seen t := by
  induction h with
  | pure a s => exact ⟨s, rfl, .refl s⟩
  | fail s => exact ⟨s, rfl, .refl s⟩
  | @peek s token rest hs => exact ⟨s, rfl, .look (hs ▸ .refl _) hs (Nat.le_refl _) rfl⟩
  | kindAfterNext? s => exact ⟨s, rfl, .refl s⟩
  | @advance s token rest hs hk =>
    refine ⟨{ s with rest := s.rest.drop 1 }, rfl, .look ?_ hs (Nat.le_refl _) rfl⟩
    rw [hs]
    exact .cons hk rest
  | newId s => exact ⟨_, rfl, ⟨.refl _, Nat.le_succ _, rfl, nofun, .nil⟩⟩
  | report token fault s => exact ⟨_, rfl, ⟨.refl _, Nat.le_refl _, rfl, nofun, .nil⟩⟩
  | loopDepth s => exact ⟨s, rfl, .refl s⟩
  | @bind _ _ first next s a t _ _ _ ha _ ih₁ ih₂ =>
    obtain ⟨_, ht, h₁⟩ := ih₁
    obtain ⟨r, hr, h₂⟩ := ih₂
    rw [ha] at ht
    cases ht
    refine ⟨r, ?_, h₁.trans h₂⟩
    show (Parse.bind first next s).state? = some r
    rw [Parse.bind, ha]
    exact hr
  | @bindFailed _ _ first next s t _ _ hf ih =>
    obtain ⟨_, ht, h₁⟩ := ih
    rw [hf] at ht
    cases ht
    refine ⟨t, ?_, h₁⟩
    show (Parse.bind first next s).state? = some t
    rw [Parse.bind, hf]
    rfl
  | @attempt _ step s _ _ ih =>
    obtain ⟨t, ht, h₁⟩ := ih
    refine ⟨t, ?_, h₁⟩
    unfold Parse.attempt
    cases hr : step s <;> rw [hr] at ht <;> exact ht
  | @atLoopDepth _ depth step s _ _ ih =>
    obtain ⟨t, ht, h₁⟩ := ih
    refine ⟨{ t with loopDepth := s.loopDepth }, ?_,
      ⟨h₁.tokens, h₁.ids, rfl, h₁.looks, h₁.order⟩⟩
    unfold Parse.atLoopDepth
    split <;> rename_i hr <;> rw [hr] at ht <;> cases ht <;> rfl
  | @recover _ step s a t _ _ ha ih =>
    obtain ⟨_, ht, h₁⟩ := ih
    rw [ha] at ht
    cases ht
    refine ⟨t, ?_, h₁⟩
    unfold Parse.recover
    rw [ha]
    rfl
  | @recoverFailed _ step s t _ _ stop _ hf hsync ih =>
    obtain ⟨_, ht, h₁⟩ := ih
    rw [hf] at ht
    cases ht
    refine ⟨{ t with rest := stop }, ?_, h₁.trans hsync.journey⟩
    unfold Parse.recover
    rw [hf, ← hsync.eq]
    rfl

/-! ## Guarded steps -/

/-- A step that looks only at tokens that are there, if it has fuel and an end mark is left. -/
def Guarded {α : Type} (step : Parse α) (s : ParseState) : Prop :=
  Marked s.rest → step s ≠ .outOfFuel → ∃ seen, Looks step s seen

namespace Guarded

variable {α β : Type} {s : ParseState}

theorem pure (a : α) (s : ParseState) : Guarded (Pure.pure a : Parse α) s :=
  fun _ _ => ⟨[], .pure a s⟩

theorem fail (s : ParseState) : Guarded (Parse.fail : Parse α) s :=
  fun _ _ => ⟨[], .fail s⟩

theorem stuck (s : ParseState) : Guarded (Parse.stuck : Parse α) s :=
  fun _ hf => absurd rfl hf

/-- One step and then another: the first leaves an end mark for the second. -/
theorem bind {first : Parse α} {next : α → Parse β} (h : Guarded first s)
    (hn : ∀ a t, Guarded (next a) t) : Guarded (first >>= next) s := by
  intro hm hf
  replace hf : Parse.bind first next s ≠ .outOfFuel := hf
  unfold Parse.bind at hf
  have hfirst : first s ≠ .outOfFuel := fun he => by rw [he] at hf; exact hf rfl
  obtain ⟨seen, hl⟩ := h hm hfirst
  obtain ⟨t, ht, hj⟩ := hl.journey
  cases hr : first s with
  | ok a r =>
    rw [hr] at ht hf
    cases ht
    obtain ⟨more, hmore⟩ := hn a _ (hj.tokens.marked hm) hf
    exact ⟨seen ++ more, .bind hl hr hmore⟩
  | failed r => exact ⟨seen, .bindFailed hl hr⟩
  | outOfFuel => exact absurd hr hfirst

theorem peek_bind {next : Token → Parse β}
    (hn : ∀ token rest, s.rest = token :: rest → Guarded (next token) s) :
    Guarded (peek >>= next) s := by
  intro hm hf
  obtain ⟨token, rest, hs⟩ := hm.exists_cons
  rw [Parse.peek_bind, hs] at hf
  obtain ⟨more, hl⟩ := hn token rest hs hm hf
  have hpeek : peek s = .ok token s := by rw [peek, hs]; rfl
  exact ⟨_, .bind (.peek hs) hpeek hl⟩

theorem peekKind_bind {next : TokenKind → Parse β}
    (hn : ∀ token rest, s.rest = token :: rest → Guarded (next token.kind) s) :
    Guarded (peekKind >>= next) s :=
  peek_bind hn

theorem advance_bind {next : Unit → Parse β} {token : Token} {rest : List Token}
    (hs : s.rest = token :: rest) (hk : token.kind ≠ .endOfInput)
    (hn : Guarded (next ()) { s with rest := s.rest.drop 1 }) :
    Guarded (advance >>= next) s := by
  intro hm hf
  have hm' : Marked (s.rest.drop 1) := by
    rw [hs] at hm ⊢
    exact (Onward.cons hk rest).marked hm
  obtain ⟨more, hl⟩ := hn hm' hf
  exact ⟨_, .bind (.advance hs hk) rfl hl⟩

theorem kindAfterNext?_bind {next : Option TokenKind → Parse β}
    (hn : ∀ kind, Guarded (next kind) s) : Guarded (kindAfterNext? >>= next) s := by
  intro hm hf
  obtain ⟨more, hl⟩ := hn _ hm hf
  exact ⟨_, .bind (.kindAfterNext? s) rfl hl⟩

theorem newId (s : ParseState) : Guarded newId s :=
  fun _ _ => ⟨[], .newId s⟩

theorem report (token : Token) (fault : GrammarFault) (s : ParseState) :
    Guarded (report token fault) s :=
  fun _ _ => ⟨[], .report token fault s⟩

theorem reject (token : Token) (fault : GrammarFault) (s : ParseState) :
    Guarded (reject token fault : Parse α) s :=
  .bind (.report token fault s) fun _ => .fail

theorem expect (slot : Slot) (s : ParseState) : Guarded (expect slot) s := by
  refine peek_bind fun token rest hs => ?_
  split
  · rename_i hk
    exact advance_bind hs (hk ▸ slot.kind_ne_endOfInput) (.pure _ _)
  · exact .reject _ _ _

theorem accept? {kinds : List TokenKind} (hk : .endOfInput ∉ kinds) (s : ParseState) :
    Guarded (accept? kinds) s := by
  refine peek_bind fun token rest hs => ?_
  split
  · rename_i hmem
    exact advance_bind hs (fun he => hk (he ▸ hmem)) (.pure _ _)
  · exact .pure _ _

theorem limit (count : Nat) (fault : GrammarFault) (s : ParseState) :
    Guarded (limit count fault) s := by
  unfold Parse.limit
  split
  · exact peek_bind fun token _ _ => .report token fault s
  · exact .pure _ _

theorem requireLoop (token : Token) (s : ParseState) : Guarded (requireLoop token) s := by
  have hdepth : Guarded loopDepth s := fun _ _ => ⟨[], .loopDepth s⟩
  refine .bind hdepth fun depth t => ?_
  split
  · exact .report _ _ _
  · exact .pure _ _

theorem unlessNext {kind : TokenKind} {step : Parse α} (h : Guarded step s) :
    Guarded (unlessNext kind step) s := by
  refine peekKind_bind fun token _ _ => ?_
  split
  · exact .pure _ _
  · exact .bind h fun _ => .pure _

theorem ifNext {kind : TokenKind} (hk : kind ≠ .endOfInput) {step : Parse α}
    (h : ∀ t, Guarded step t) : Guarded (ifNext kind step) s := by
  refine .bind (.accept? (by simpa using hk.symm) s) fun found t => ?_
  cases found with
  | some _ => exact .bind (h t) fun _ => .pure _
  | none => exact .pure _ _

theorem attempt {step : Parse α} (h : Guarded step s) : Guarded (attempt step) s := by
  intro hm hf
  obtain ⟨seen, hl⟩ := h hm fun he => hf (by rw [Parse.attempt, he])
  exact ⟨seen, .attempt hl⟩

theorem atLoopDepth {depth : Nat → Nat} {step : Parse α}
    (h : Guarded step { s with loopDepth := depth s.loopDepth }) :
    Guarded (atLoopDepth depth step) s := by
  intro hm hf
  obtain ⟨seen, hl⟩ := h hm fun he => hf (by rw [Parse.atLoopDepth, he])
  exact ⟨seen, .atLoopDepth hl⟩

/-- A step that is recovered looks for the next boundary, and finds one before the end. -/
theorem recover {step : Parse α} (h : Guarded step s) : Guarded (recover step) s := by
  intro hm hf
  have hstep : step s ≠ .outOfFuel := fun he => hf (by rw [Parse.recover, he])
  obtain ⟨seen, hl⟩ := h hm hstep
  cases hr : step s with
  | ok a t => exact ⟨seen, .recover hl hr⟩
  | failed t =>
    obtain ⟨_, ht, hj⟩ := hl.journey
    rw [hr] at ht
    cases ht
    obtain ⟨more, stop, hsync⟩ := Synchronizes.exists (hj.tokens.marked hm)
    exact ⟨seen ++ more, .recoverFailed hl hr hsync⟩
  | outOfFuel => exact absurd hr hstep

end Guarded

/-! ## Rules -/

/-- The rules of the grammar with some fuel, and what they read single tokens with. -/
inductive Rule (fuel : Nat) : {α : Type} → Parse α → Prop where
  | expect (slot) : Rule fuel (expect slot)
  | accept? {kinds} (h : .endOfInput ∉ kinds) : Rule fuel (accept? kinds)
  | parameters (count) : Rule fuel (parameters fuel count)
  | declaration : Rule fuel (declaration fuel)
  | declarationOrFail : Rule fuel (declarationOrFail fuel)
  | declarations (inBlock) : Rule fuel (declarations fuel inBlock)
  | classDeclaration : Rule fuel (classDeclaration fuel)
  | methods : Rule fuel (methods fuel)
  | namedFunction (role) : Rule fuel (namedFunction fuel role)
  | functionRest (name role) : Rule fuel (functionRest fuel name role)
  | varDeclaration : Rule fuel (varDeclaration fuel)
  | statement : Rule fuel (statement fuel)
  | forStatement : Rule fuel (forStatement fuel)
  | forInitializer : Rule fuel (forInitializer fuel)
  | ifStatement : Rule fuel (ifStatement fuel)
  | whileStatement : Rule fuel (whileStatement fuel)
  | blockRest : Rule fuel (blockRest fuel)
  | expressionStatement : Rule fuel (expressionStatement fuel)
  | expressionList : Rule fuel (expressionList fuel)
  | expressionListRest (left) : Rule fuel (expressionListRest fuel left)
  | conditional : Rule fuel (conditional fuel)
  | assignment : Rule fuel (assignment fuel)
  | binaryLevels {ls} (h : ls <:+ levels) : Rule fuel (binaryLevels fuel ls)
  | binaryRest {level tighter} (h : level :: tighter <:+ levels) (left) :
      Rule fuel (binaryRest fuel level tighter left)
  | unary : Rule fuel (unary fuel)
  | callRest (callee) : Rule fuel (callRest fuel callee)
  | arguments (count) : Rule fuel (arguments fuel count)
  | primary : Rule fuel (primary fuel)
  | strayTernary : Rule fuel (strayTernary fuel)

namespace Rule

variable {α : Type} {fuel : Nat} {step : Parse α}

/-- Without fuel a rule reads single tokens or is stuck. -/
theorem guarded_zero (h : Rule 0 step) (s : ParseState) : Guarded step s := by
  cases h with
  | expect slot => exact .expect slot s
  | accept? hk => exact .accept? hk s
  | parameters => rw [Parse.parameters]; exact .stuck s
  | declaration => rw [Parse.declaration]; exact .stuck s
  | declarationOrFail => rw [Parse.declarationOrFail]; exact .stuck s
  | declarations => rw [Parse.declarations]; exact .stuck s
  | classDeclaration => rw [Parse.classDeclaration]; exact .stuck s
  | methods => rw [Parse.methods]; exact .stuck s
  | namedFunction => rw [Parse.namedFunction]; exact .stuck s
  | functionRest => rw [Parse.functionRest]; exact .stuck s
  | varDeclaration => rw [Parse.varDeclaration]; exact .stuck s
  | statement => rw [Parse.statement]; exact .stuck s
  | forStatement => rw [Parse.forStatement]; exact .stuck s
  | forInitializer => rw [Parse.forInitializer]; exact .stuck s
  | ifStatement => rw [Parse.ifStatement]; exact .stuck s
  | whileStatement => rw [Parse.whileStatement]; exact .stuck s
  | blockRest => rw [Parse.blockRest]; exact .stuck s
  | expressionStatement => rw [Parse.expressionStatement]; exact .stuck s
  | expressionList => rw [Parse.expressionList]; exact .stuck s
  | expressionListRest => rw [Parse.expressionListRest]; exact .stuck s
  | conditional => rw [Parse.conditional]; exact .stuck s
  | assignment => rw [Parse.assignment]; exact .stuck s
  | binaryLevels => rw [Parse.binaryLevels]; exact .stuck s
  | binaryRest => rw [Parse.binaryRest]; exact .stuck s
  | unary => rw [Parse.unary]; exact .stuck s
  | callRest => rw [Parse.callRest]; exact .stuck s
  | arguments => rw [Parse.arguments]; exact .stuck s
  | primary => rw [Parse.primary]; exact .stuck s
  | strayTernary => rw [Parse.strayTernary]; exact .stuck s

section Steps

variable (ih : ∀ {α : Type} {step : Parse α}, Rule fuel step → ∀ s, Guarded step s)
  (s : ParseState)

include ih

/-! ### Declarations -/

theorem parameters_step (count : Nat) : Guarded (Parse.parameters (fuel + 1) count) s := by
  rw [Parse.parameters]
  refine .bind (.limit _ _ s) fun _ t => .bind (.expect _ t) fun name t => ?_
  refine .bind (.accept? (by decide) t) fun comma t => ?_
  cases comma with
  | some _ => exact .bind (ih (.parameters _) t) fun _ => .pure _
  | none => exact .pure _ t

theorem declaration_step : Guarded (Parse.declaration (fuel + 1)) s := by
  rw [Parse.declaration]
  exact .recover (ih .declarationOrFail s)

theorem declarationOrFail_step : Guarded (Parse.declarationOrFail (fuel + 1)) s := by
  rw [Parse.declarationOrFail]
  refine .peekKind_bind fun token rest hs => ?_
  generalize hk : token.kind = kind
  split
  · exact .advance_bind hs (by rw [hk]; decide) (ih .classDeclaration _)
  · exact .advance_bind hs (by rw [hk]; decide) (ih .varDeclaration _)
  · exact ih .statement s

theorem declarations_step (inBlock : Bool) :
    Guarded (Parse.declarations (fuel + 1) inBlock) s := by
  rw [Parse.declarations]
  refine .peekKind_bind fun token rest hs => ?_
  split
  · exact .pure _ s
  · refine .bind (ih .declaration s) fun first t => ?_
    exact .bind (ih (.declarations inBlock) t) fun _ => .pure _

theorem classDeclaration_step : Guarded (Parse.classDeclaration (fuel + 1)) s := by
  rw [Parse.classDeclaration]
  refine .bind (.expect _ s) fun name t => .bind (.expect _ t) fun _ t => ?_
  exact .bind (ih .methods t) fun found t => .bind (.expect _ t) fun _ => .pure _

theorem methods_step : Guarded (Parse.methods (fuel + 1)) s := by
  rw [Parse.methods]
  refine .peekKind_bind fun token rest hs => ?_
  split
  · exact .pure _ s
  · refine .bind (ih (.namedFunction _) s) fun first t => ?_
    exact .bind (ih .methods t) fun _ => .pure _

theorem namedFunction_step (role : FunctionRole) :
    Guarded (Parse.namedFunction (fuel + 1) role) s := by
  rw [Parse.namedFunction]
  exact .bind (.expect _ s) fun name => ih (.functionRest _ role)

theorem functionRest_step (name : Option Token) (role : FunctionRole) :
    Guarded (Parse.functionRest (fuel + 1) name role) s := by
  rw [Parse.functionRest]
  refine .bind (.expect _ s) fun _ t => ?_
  refine .bind (.unlessNext (ih (.parameters 0) t)) fun names t => ?_
  refine .bind (.expect _ t) fun _ t => .bind (.expect _ t) fun _ t => ?_
  exact .bind (.atLoopDepth (ih .blockRest _)) fun body => .pure _

theorem varDeclaration_step : Guarded (Parse.varDeclaration (fuel + 1)) s := by
  rw [Parse.varDeclaration]
  refine .bind (.expect _ s) fun name t => ?_
  refine .bind (.ifNext (by decide) (ih .conditional)) fun initializer t => ?_
  exact .bind (.expect _ t) fun _ => .pure _

/-! ### Statements -/

theorem statement_step : Guarded (Parse.statement (fuel + 1)) s := by
  rw [Parse.statement]
  refine .peek_bind fun token rest hs => ?_
  generalize hk : token.kind = kind
  -- every keyword is a token that is there and no end mark
  split
  · exact .advance_bind hs (by rw [hk]; decide) (ih .forStatement _)
  · exact .advance_bind hs (by rw [hk]; decide) (ih .ifStatement _)
  · refine .advance_bind hs (by rw [hk]; decide) ?_
    exact .bind (ih .expressionList _) fun _ t => .bind (.expect _ t) fun _ => .pure _
  · refine .advance_bind hs (by rw [hk]; decide) ?_
    refine .bind (.unlessNext (ih .conditional _)) fun _ t => ?_
    exact .bind (.expect _ t) fun _ => .pure _
  · exact .advance_bind hs (by rw [hk]; decide) (ih .whileStatement _)
  · refine .advance_bind hs (by rw [hk]; decide) ?_
    exact .bind (.requireLoop _ _) fun _ t => .bind (.expect _ t) fun _ => .pure _
  · refine .advance_bind hs (by rw [hk]; decide) ?_
    exact .bind (ih .blockRest _) fun _ => .pure _
  · refine .kindAfterNext?_bind fun after => ?_
    split
    · refine .advance_bind hs (by rw [hk]; decide) ?_
      exact .bind (ih (.namedFunction _) _) fun _ => .pure _
    · exact ih .expressionStatement s
  · exact ih .expressionStatement s

theorem forStatement_step : Guarded (Parse.forStatement (fuel + 1)) s := by
  rw [Parse.forStatement]
  refine .bind (.expect _ s) fun _ t => .bind (ih .forInitializer t) fun initializer t => ?_
  refine .bind (.unlessNext (ih .expressionList t)) fun condition t => ?_
  refine .bind (.expect _ t) fun _ t => ?_
  refine .bind (.unlessNext (ih .expressionList t)) fun increment t => ?_
  refine .bind (.expect _ t) fun _ t => ?_
  exact .bind (.atLoopDepth (ih .statement _)) fun body => .pure _

theorem forInitializer_step : Guarded (Parse.forInitializer (fuel + 1)) s := by
  rw [Parse.forInitializer]
  refine .peekKind_bind fun token rest hs => ?_
  generalize hk : token.kind = kind
  split
  · exact .advance_bind hs (by rw [hk]; decide) (.pure _ _)
  · refine .advance_bind hs (by rw [hk]; decide) ?_
    exact .bind (ih .varDeclaration _) fun _ => .pure _
  · exact .bind (ih .expressionStatement s) fun _ => .pure _

theorem ifStatement_step : Guarded (Parse.ifStatement (fuel + 1)) s := by
  rw [Parse.ifStatement]
  refine .bind (.expect _ s) fun _ t => .bind (ih .expressionList t) fun condition t => ?_
  refine .bind (.expect _ t) fun _ t => .bind (ih .statement t) fun whenTrue t => ?_
  exact .bind (.ifNext (by decide) (ih .statement)) fun whenFalse => .pure _

theorem whileStatement_step : Guarded (Parse.whileStatement (fuel + 1)) s := by
  rw [Parse.whileStatement]
  refine .bind (.expect _ s) fun _ t => .bind (ih .expressionList t) fun condition t => ?_
  refine .bind (.expect _ t) fun _ t => ?_
  exact .bind (.atLoopDepth (ih .statement _)) fun body => .pure _

theorem blockRest_step : Guarded (Parse.blockRest (fuel + 1)) s := by
  rw [Parse.blockRest]
  exact .bind (ih (.declarations true) s) fun _ t => .bind (.expect _ t) fun _ => .pure _

theorem expressionStatement_step : Guarded (Parse.expressionStatement (fuel + 1)) s := by
  rw [Parse.expressionStatement]
  exact .bind (ih .expressionList s) fun _ t => .bind (.expect _ t) fun _ => .pure _

/-! ### Expressions -/

theorem expressionList_step : Guarded (Parse.expressionList (fuel + 1)) s := by
  rw [Parse.expressionList]
  exact .bind (ih .conditional s) fun left => ih (.expressionListRest left)

theorem expressionListRest_step (left : Expr) :
    Guarded (Parse.expressionListRest (fuel + 1) left) s := by
  rw [Parse.expressionListRest]
  refine .bind (.accept? (by decide) s) fun operator t => ?_
  cases operator with
  | some operator =>
    exact .bind (ih .conditional t) fun right => ih (.expressionListRest _)
  | none => exact .pure _ t

theorem conditional_step : Guarded (Parse.conditional (fuel + 1)) s := by
  rw [Parse.conditional]
  refine .bind (ih .assignment s) fun condition t => ?_
  refine .bind (.accept? (by decide) t) fun question t => ?_
  cases question with
  | some question =>
    refine .bind (.unlessNext (ih .expressionList t)) fun whenTrue t => ?_
    refine .bind (.expect _ t) fun _ t => ?_
    exact .bind (ih .conditional t) fun whenFalse => .pure _
  | none => exact .pure _ t

theorem assignment_step : Guarded (Parse.assignment (fuel + 1)) s := by
  rw [Parse.assignment]
  refine .bind (ih (.binaryLevels List.suffix_rfl) s) fun target t => ?_
  refine .bind (.accept? (by decide) t) fun equals t => ?_
  cases equals with
  | some equals =>
    refine .bind (ih .assignment t) fun value t => ?_
    split
    · exact .pure _ t
    · exact .pure _ t
    · exact .bind (.report _ _ t) fun _ => .pure _
  | none => exact .pure _ t

theorem binaryLevels_step {ls : List Level} (h : ls <:+ levels) :
    Guarded (Parse.binaryLevels (fuel + 1) ls) s := by
  cases ls with
  | nil =>
    rw [Parse.binaryLevels]
    exact ih .unary s
  | cons level tighter =>
    rw [Parse.binaryLevels]
    have ht : tighter <:+ levels := (List.suffix_cons level tighter).trans h
    exact .bind (ih (.binaryLevels ht) s) fun left => ih (.binaryRest h left)

theorem binaryRest_step {level : Level} {tighter : List Level}
    (h : level :: tighter <:+ levels) (left : Expr) :
    Guarded (Parse.binaryRest (fuel + 1) level tighter left) s := by
  rw [Parse.binaryRest]
  have hm : level ∈ levels := h.subset (List.mem_cons_self ..)
  have ht : tighter <:+ levels := (List.suffix_cons level tighter).trans h
  refine .bind (.accept? (OrderlyAt.endOfInput_not_mem_operators hm) s) fun operator t => ?_
  cases operator with
  | some operator =>
    exact .bind (ih (.binaryLevels ht) t) fun right => ih (.binaryRest h _)
  | none => exact .pure _ t

theorem unary_step : Guarded (Parse.unary (fuel + 1)) s := by
  rw [Parse.unary]
  refine .bind (.accept? (by decide) s) fun operator t => ?_
  cases operator with
  | some operator => exact .bind (ih .unary t) fun _ => .pure _
  | none => exact .bind (ih .primary t) fun callee => ih (.callRest callee)

theorem callRest_step (callee : Expr) : Guarded (Parse.callRest (fuel + 1) callee) s := by
  rw [Parse.callRest]
  refine .peekKind_bind fun token rest hs => ?_
  generalize hk : token.kind = kind
  split
  · refine .advance_bind hs (by rw [hk]; decide) ?_
    refine .bind (.unlessNext (ih (.arguments 0) _)) fun found t => ?_
    exact .bind (.expect _ t) fun paren => ih (.callRest _)
  · refine .advance_bind hs (by rw [hk]; decide) ?_
    exact .bind (.expect _ _) fun name => ih (.callRest _)
  · exact .pure _ s

theorem arguments_step (count : Nat) : Guarded (Parse.arguments (fuel + 1) count) s := by
  rw [Parse.arguments]
  refine .bind (.limit _ _ s) fun _ t => .bind (ih .conditional t) fun first t => ?_
  refine .bind (.accept? (by decide) t) fun comma t => ?_
  cases comma with
  | some _ => exact .bind (ih (.arguments _) t) fun _ => .pure _
  | none => exact .pure _ t

theorem primary_step : Guarded (Parse.primary (fuel + 1)) s := by
  rw [Parse.primary]
  refine .peek_bind fun token rest hs => ?_
  generalize hk : token.kind = kind
  split
  · exact .advance_bind hs (by rw [hk]; decide) (.pure _ _)
  · exact .advance_bind hs (by rw [hk]; decide) (.pure _ _)
  · exact .advance_bind hs (by rw [hk]; decide) (.pure _ _)
  · exact .advance_bind hs (by rw [hk]; decide) (.pure _ _)
  · exact .advance_bind hs (by rw [hk]; decide) (.pure _ _)
  · exact .advance_bind hs (by rw [hk]; decide) (.bind (.newId _) fun _ => .pure _)
  · exact .advance_bind hs (by rw [hk]; decide) (.bind (.newId _) fun _ => .pure _)
  · refine .advance_bind hs (by rw [hk]; decide) ?_
    exact .bind (ih (.functionRest _ _) _) fun _ => .pure _
  · refine .advance_bind hs (by rw [hk]; decide) ?_
    exact .bind (ih .expressionList _) fun inner t => .bind (.expect _ t) fun _ => .pure _
  · exact .advance_bind hs (by rw [hk]; decide) (.reject _ _ _)
  · refine .advance_bind hs (by rw [hk]; decide) (.bind (.report _ _ _) fun _ t => ?_)
    exact .bind (.attempt (ih .conditional t)) fun _ => .fail
  · refine .advance_bind hs (by rw [hk]; decide) (.bind (.report _ _ _) fun _ t => ?_)
    exact .bind (.attempt (ih .strayTernary t)) fun _ => .fail
  · cases ho : operandLevels? kind levels with
    | none => exact .reject _ _ _
    | some tighter =>
      -- an operator is not the end of the input
      have hne : token.kind ≠ .endOfInput := fun he => by
        rw [← hk, he, OrderlyAt.operandLevels?_endOfInput] at ho
        cases ho
      refine .advance_bind hs hne (.bind (.report _ _ _) fun _ t => ?_)
      have ht := OrderlyAt.operandLevels?_suffix ho
      exact .bind (.attempt (ih (.binaryLevels ht) t)) fun _ => .fail

theorem strayTernary_step : Guarded (Parse.strayTernary (fuel + 1)) s := by
  rw [Parse.strayTernary]
  refine .bind (ih .expressionList s) fun _ t => ?_
  exact .bind (.expect _ t) fun _ => ih .conditional

end Steps

/-- Every rule is guarded, whatever its fuel. -/
theorem guarded (h : Rule fuel step) (s : ParseState) : Guarded step s := by
  induction fuel generalizing α s with
  | zero => exact h.guarded_zero s
  | succ fuel ih =>
    cases h with
    | expect slot => exact .expect slot s
    | accept? hk => exact .accept? hk s
    | parameters count => exact parameters_step ih s count
    | declaration => exact declaration_step ih s
    | declarationOrFail => exact declarationOrFail_step ih s
    | declarations inBlock => exact declarations_step ih s inBlock
    | classDeclaration => exact classDeclaration_step ih s
    | methods => exact methods_step ih s
    | namedFunction role => exact namedFunction_step ih s role
    | functionRest name role => exact functionRest_step ih s name role
    | varDeclaration => exact varDeclaration_step ih s
    | statement => exact statement_step ih s
    | forStatement => exact forStatement_step ih s
    | forInitializer => exact forInitializer_step ih s
    | ifStatement => exact ifStatement_step ih s
    | whileStatement => exact whileStatement_step ih s
    | blockRest => exact blockRest_step ih s
    | expressionStatement => exact expressionStatement_step ih s
    | expressionList => exact expressionList_step ih s
    | expressionListRest left => exact expressionListRest_step ih s left
    | conditional => exact conditional_step ih s
    | assignment => exact assignment_step ih s
    | binaryLevels hl => exact binaryLevels_step ih s hl
    | binaryRest hl left => exact binaryRest_step ih s hl left
    | unary => exact unary_step ih s
    | callRest callee => exact callRest_step ih s callee
    | arguments count => exact arguments_step ih s count
    | primary => exact primary_step ih s
    | strayTernary => exact strayTernary_step ih s

/-- A rule that has fuel looks only at tokens that are there, and keeps what a journey keeps,
also when it fails. -/
theorem journey (h : Rule fuel step) {s : ParseState} (hm : Marked s.rest)
    (hf : step s ≠ .outOfFuel) :
    ∃ seen t, Looks step s seen ∧ (step s).state? = some t ∧ Journey s seen t := by
  obtain ⟨seen, hl⟩ := h.guarded s hm hf
  obtain ⟨t, ht, hj⟩ := hl.journey
  exact ⟨seen, t, hl, ht, hj⟩

end Rule

end Parse

end TreeScript
