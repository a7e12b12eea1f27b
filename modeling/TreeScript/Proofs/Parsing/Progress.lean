import TreeScript.Parsing.Grammar
import Mathlib.Tactic.Common

/-!
# How far parsing steps go

* `ParseState.Grows` — what every step keeps: it goes forward in the tokens, but not
  past an end mark, takes identities from the supply, adds to the diagnostics and
  restores the loop depth
* `Reply.Orderly` — a reply that grows its state, fails only with a new diagnostic,
  and runs out of fuel only if there is not enough of it
* `orderly` — every rule of the grammar is orderly
* `declarations_ne_outOfFuel` — the fuel of a program is enough, whatever its tokens

Enough fuel is 32 for every token that is left and a rank below 32: a rule calls
another one on the same token only if that one has a lower rank.
-/

namespace TreeScript

/-! ## Growing states -/

/-- What every step keeps of a state. -/
structure ParseState.Grows (before after : ParseState) : Prop where
  rest : after.rest <:+ before.rest
  ids : before.nextId ≤ after.nextId
  loops : after.loopDepth = before.loopDepth
  faults : before.diagnostics <+: after.diagnostics
  marks : ∀ e ∈ before.rest, e.kind = .endOfInput → e ∈ after.rest

namespace ParseState.Grows

variable {s t u : ParseState}

theorem refl (s : ParseState) : s.Grows s :=
  ⟨List.suffix_rfl, Nat.le_refl _, rfl, List.prefix_rfl, fun _ he _ => he⟩

theorem trans (h₁ : s.Grows t) (h₂ : t.Grows u) : s.Grows u :=
  ⟨h₂.rest.trans h₁.rest, Nat.le_trans h₁.ids h₂.ids, h₂.loops.trans h₁.loops,
    h₁.faults.trans h₂.faults, fun e he hk => h₂.marks e (h₁.marks e he hk) hk⟩

theorem length_le (h : s.Grows t) : t.rest.length ≤ s.rest.length :=
  h.rest.length_le

theorem faults_le (h : s.Grows t) : s.diagnostics.length ≤ t.diagnostics.length :=
  h.faults.length_le

theorem report (s : ParseState) (found : List Diagnostic) :
    s.Grows { s with diagnostics := s.diagnostics ++ found } :=
  ⟨List.suffix_rfl, Nat.le_refl _, rfl, List.prefix_append _ _, fun _ he _ => he⟩

end ParseState.Grows

/-- A state that grew and consumed at least `used` tokens. -/
structure ParseState.Ahead (before : ParseState) (used : Nat) (after : ParseState) :
    Prop where
  grows : before.Grows after
  used : after.rest.length + used ≤ before.rest.length

namespace ParseState.Ahead

variable {s t r : ParseState} {u v : Nat}

theorem refl (s : ParseState) : s.Ahead 0 s :=
  ⟨.refl s, Nat.le_refl _⟩

theorem trans (h₁ : s.Ahead u t) (h₂ : t.Ahead v r) : s.Ahead (u + v) r :=
  ⟨h₁.grows.trans h₂.grows, by have := h₁.used; have := h₂.used; omega⟩

theorem weaken (h : s.Ahead u t) (hv : v ≤ u) : s.Ahead v t :=
  ⟨h.grows, by have := h.used; omega⟩

/-- Dropping a token that is there. -/
theorem drop_one (h : (s.rest.headD (Token.finish 1)).kind ≠ .endOfInput) :
    s.Ahead 1 { s with rest := s.rest.drop 1 } := by
  cases hr : s.rest with
  | nil => rw [hr] at h; exact absurd rfl h
  | cons t ts =>
    rw [hr, List.headD_cons] at h
    refine ⟨⟨?_, Nat.le_refl _, rfl, List.prefix_rfl, fun e he hk => ?_⟩, by simp [hr]⟩
    · simp [hr]
    · rw [hr, List.mem_cons] at he
      rcases he with rfl | he
      · exact absurd hk h
      · exact he

theorem report (s : ParseState) (found : List Diagnostic) :
    s.Ahead 0 { s with diagnostics := s.diagnostics ++ found } :=
  ⟨.report s found, Nat.le_refl _⟩

/-- Taking an identity from the supply. -/
theorem newId (s : ParseState) : s.Ahead 0 { s with nextId := s.nextId + 1 } :=
  ⟨⟨List.suffix_rfl, Nat.le_succ _, rfl, List.prefix_rfl, fun _ he _ => he⟩, Nat.le_refl _⟩

end ParseState.Ahead

/-! ## Orderly replies -/

/-- A reply that grows its state, consumes at least `used` tokens if it succeeds,
fails only with a new diagnostic, and has fuel if there is enough. -/
def Reply.Orderly {α : Type} (before : ParseState) (enough : Prop) (used : Nat) :
    Reply α → Prop
  | .ok _ after => before.Ahead used after
  | .failed after =>
    before.Grows after ∧ before.diagnostics.length < after.diagnostics.length
  | .outOfFuel => ¬ enough

namespace Reply.Orderly

variable {α β : Type} {s t : ParseState} {enough enough' : Prop} {u v w : Nat}

theorem weaken {r : Reply α} (h : r.Orderly s enough u) (hv : v ≤ u)
    (he : enough' → enough) : r.Orderly s enough' v := by
  cases r with
  | ok a after => exact ParseState.Ahead.weaken h hv
  | failed after => exact h
  | outOfFuel => exact fun h' => h (he h')

/-- A reply seen from an earlier state. -/
theorem since {r : Reply α} (ha : s.Ahead u t) (h : r.Orderly t enough v) :
    r.Orderly s enough (u + v) := by
  cases r with
  | ok a after => exact ha.trans h
  | failed after =>
    exact ⟨ha.grows.trans h.1, Nat.lt_of_le_of_lt ha.grows.faults_le h.2⟩
  | outOfFuel => exact h

/-- One step and then another, both seen from the state where the rule began. -/
theorem bind {first : Parse α} {next : α → Parse β} (ha : s.Ahead u t)
    (h : (first t).Orderly t enough v)
    (hn : ∀ a r, s.Ahead (u + v) r → (next a r).Orderly s enough w) :
    ((first >>= next) t).Orderly s enough w := by
  show Reply.Orderly s enough w (Parse.bind first next t)
  unfold Parse.bind
  cases hr : first t with
  | ok a r =>
    rw [hr] at h
    exact hn a r (ha.trans h)
  | failed r =>
    rw [hr] at h
    exact ⟨ha.grows.trans h.1, Nat.lt_of_le_of_lt ha.grows.faults_le h.2⟩
  | outOfFuel =>
    rw [hr] at h
    exact h

theorem pure (ha : s.Ahead u t) (hv : v ≤ u) (a : α) :
    Reply.Orderly s enough v ((Pure.pure a : Parse α) t) :=
  ParseState.Ahead.weaken ha hv

end Reply.Orderly

/-- No slot stands for the end of the input. -/
theorem Slot.kind_ne_endOfInput (slot : Slot) : slot.kind ≠ .endOfInput := by
  cases slot <;> simp [Slot.kind]

namespace Parse

variable {α β : Type} {s t : ParseState} {enough : Prop} {u w : Nat}

/-! ## Primitive steps -/

theorem peek_bind (next : Token → Parse β) :
    (peek >>= next) s = next (s.rest.headD (Token.finish 1)) s := rfl

theorem peekKind_bind (next : TokenKind → Parse β) :
    (peekKind >>= next) s = next (s.rest.headD (Token.finish 1)).kind s := rfl

theorem kindAfterNext?_bind (next : Option TokenKind → Parse β) :
    (kindAfterNext? >>= next) s = next ((s.rest.drop 1).head?.map Token.kind) s := rfl

theorem advance_bind (next : Unit → Parse β) :
    (advance >>= next) s = next () { s with rest := s.rest.drop 1 } := rfl

theorem report_bind (token : Token) (fault : GrammarFault) (next : Unit → Parse β) :
    (report token fault >>= next) s =
      next () { s with diagnostics := s.diagnostics ++ [Diagnostic.grammarAt token fault] } :=
  rfl

theorem reject_eq (token : Token) (fault : GrammarFault) :
    (reject token fault : Parse α) s =
      .failed { s with
        diagnostics := s.diagnostics ++ [Diagnostic.grammarAt token fault] } := rfl

theorem expect_eq (slot : Slot) :
    expect slot s =
      if (s.rest.headD (Token.finish 1)).kind = slot.kind then
        .ok (s.rest.headD (Token.finish 1)) { s with rest := s.rest.drop 1 }
      else
        .failed { s with diagnostics := s.diagnostics ++
          [Diagnostic.grammarAt (s.rest.headD (Token.finish 1)) (.missing slot)] } := by
  rw [expect, peek_bind]
  split <;> rfl

theorem accept?_eq (kinds : List TokenKind) :
    accept? kinds s =
      if (s.rest.headD (Token.finish 1)).kind ∈ kinds then
        .ok (some (s.rest.headD (Token.finish 1))) { s with rest := s.rest.drop 1 }
      else .ok none s := by
  rw [accept?, peek_bind]
  split <;> rfl

theorem orderly_reject (ha : s.Ahead u t) (token : Token) (fault : GrammarFault) :
    ((reject token fault : Parse α) t).Orderly s enough w := by
  refine ⟨ha.grows.trans (.report t _), ?_⟩
  have := ha.grows.faults_le
  simp only [List.length_append, List.length_singleton]
  omega

theorem orderly_expect (slot : Slot) : (expect slot s).Orderly s enough 1 := by
  rw [expect_eq]
  split
  · rename_i h
    exact .drop_one (h ▸ slot.kind_ne_endOfInput)
  · exact ⟨.report s _, by simp⟩

theorem orderly_accept? {kinds : List TokenKind} {next : Option Token → Parse β}
    (hk : TokenKind.endOfInput ∉ kinds) (ha : s.Ahead u t)
    (hsome : ∀ token r, s.Ahead (u + 1) r → (next (some token) r).Orderly s enough w)
    (hnone : (next none t).Orderly s enough w) :
    ((accept? kinds >>= next) t).Orderly s enough w := by
  show Reply.Orderly s enough w (Parse.bind (accept? kinds) next t)
  rw [Parse.bind, accept?_eq]
  by_cases h : (t.rest.headD (Token.finish 1)).kind ∈ kinds
  · rw [if_pos h]
    exact hsome _ _ (ha.trans (.drop_one fun he => hk (he ▸ h)))
  · rw [if_neg h]
    exact hnone

theorem orderly_limit (count : Nat) (fault : GrammarFault) :
    (limit count fault s).Orderly s enough 0 := by
  unfold limit
  split
  · exact ⟨.report s _, Nat.le_refl _⟩
  · exact .refl s

theorem orderly_requireLoop (token : Token) :
    (requireLoop token s).Orderly s enough 0 := by
  show Reply.Orderly s enough 0 ((if s.loopDepth = 0 then _ else _ : Parse Unit) s)
  split
  · exact ⟨.report s _, Nat.le_refl _⟩
  · exact .refl s

theorem orderly_unlessNext (kind : TokenKind) {step : Parse α}
    (h : (step s).Orderly s enough 0) : (unlessNext kind step s).Orderly s enough 0 := by
  rw [unlessNext, peekKind_bind]
  split
  · exact .refl s
  · exact .bind (.refl s) h fun _ _ ha => .pure ha (Nat.zero_le _) _

theorem orderly_ifNext {kind : TokenKind} (hk : kind ≠ .endOfInput) {step : Parse α}
    (h : ∀ t, s.Ahead 1 t → (step t).Orderly t enough 0) :
    (ifNext kind step s).Orderly s enough 0 := by
  unfold ifNext
  refine orderly_accept? (by simpa using hk.symm) (.refl s) (fun _ t ha => ?_) ?_
  · exact .bind ha (h t (ha.weaken (by omega))) fun _ _ hb => .pure hb (Nat.zero_le _) _
  · exact .refl s

theorem orderly_atLoopDepth {depth : Nat → Nat} {step : Parse α}
    (h : (step { s with loopDepth := depth s.loopDepth }).Orderly
      { s with loopDepth := depth s.loopDepth } enough u) :
    (atLoopDepth depth step s).Orderly s enough u := by
  unfold atLoopDepth
  split <;> rename_i hr <;> rw [hr] at h
  · exact ⟨⟨h.grows.rest, h.grows.ids, rfl, h.grows.faults, h.grows.marks⟩, h.used⟩
  · exact ⟨⟨h.1.rest, h.1.ids, rfl, h.1.faults, h.1.marks⟩, h.2⟩
  · exact h

/-- A step that is run only to drop what it reads, after a fault was reported. -/
theorem orderly_attempt_fail {step : Parse β} (ha : s.Ahead u t)
    (hf : s.diagnostics.length < t.diagnostics.length) (h : (step t).Orderly t enough 0) :
    ((attempt step >>= fun _ => (fail : Parse α)) t).Orderly s enough w := by
  show Reply.Orderly s enough w (Parse.bind (attempt step) (fun _ => fail) t)
  unfold Parse.bind attempt
  cases hr : step t with
  | ok b r =>
    rw [hr] at h
    exact ⟨ha.grows.trans h.grows, Nat.lt_of_lt_of_le hf h.grows.faults_le⟩
  | failed r =>
    rw [hr] at h
    exact ⟨ha.grows.trans h.1, Nat.lt_of_lt_of_le hf h.1.faults_le⟩
  | outOfFuel =>
    rw [hr] at h
    exact h

/-! ## Recovery -/

theorem skipToBoundary_suffix (last : TokenKind) (ts : List Token) :
    skipToBoundary last ts <:+ ts := by
  induction ts generalizing last with
  | nil => exact List.suffix_rfl
  | cons t ts ih =>
    rw [skipToBoundary]
    split
    · exact List.suffix_rfl
    · exact (ih t.kind).trans (List.suffix_cons t ts)

/-- No end mark is skipped. -/
theorem mem_skipToBoundary {e : Token} (he : e.kind = .endOfInput) (last : TokenKind)
    (ts : List Token) (h : e ∈ ts) : e ∈ skipToBoundary last ts := by
  induction ts generalizing last with
  | nil => exact h
  | cons t ts ih =>
    rw [skipToBoundary]
    split
    · exact h
    · rename_i ht
      rcases List.mem_cons.1 h with rfl | h
      · exact absurd (.inl he) ht
      · exact ih t.kind h

theorem synchronize_suffix (ts : List Token) : synchronize ts <:+ ts := by
  cases ts with
  | nil => exact List.suffix_rfl
  | cons t ts =>
    rw [synchronize]
    split
    · exact List.suffix_rfl
    · exact (skipToBoundary_suffix t.kind ts).trans (List.suffix_cons t ts)

theorem mem_synchronize {e : Token} (he : e.kind = .endOfInput) {ts : List Token}
    (h : e ∈ ts) : e ∈ synchronize ts := by
  cases ts with
  | nil => exact h
  | cons t ts =>
    rw [synchronize]
    split
    · exact h
    · rename_i ht
      rcases List.mem_cons.1 h with rfl | h
      · exact absurd he ht
      · exact mem_skipToBoundary he t.kind ts h

/-- Synchronizing drops a token unless it stands at the end. -/
theorem synchronize_length {ts : List Token}
    (h : (ts.headD (Token.finish 1)).kind ≠ .endOfInput) :
    (synchronize ts).length + 1 ≤ ts.length := by
  cases ts with
  | nil => exact absurd rfl h
  | cons t ts =>
    rw [synchronize, if_neg (show t.kind ≠ .endOfInput from h)]
    exact Nat.succ_le_succ (skipToBoundary_suffix t.kind ts).length_le

/-- A recovered step always succeeds, and goes on unless it stands at the end. -/
theorem orderly_recover {step : Parse α} (h : (step s).Orderly s enough 1)
    (hk : (s.rest.headD (Token.finish 1)).kind ≠ .endOfInput) :
    (recover step s).Orderly s enough 1 := by
  unfold recover
  split <;> rename_i hr <;> rw [hr] at h
  · exact h
  · rename_i after
    refine ⟨h.1.trans ⟨synchronize_suffix after.rest, Nat.le_refl _, rfl,
      List.prefix_rfl, fun e he hk => mem_synchronize hk he⟩, ?_⟩
    -- if the failed step consumed nothing, synchronizing starts at the same token
    rcases Nat.lt_or_eq_of_le h.1.length_le with hl | hl
    · have := (synchronize_suffix after.rest).length_le
      simp only
      omega
    · have he : after.rest = s.rest := h.1.rest.eq_of_length hl
      simp only [he]
      exact synchronize_length hk
  · exact h

/-! ## Rules -/

/-- A step that has enough fuel if there are 32 for every token and a rank more. -/
def Ranked {α : Type} (fuel rank used : Nat) (step : Parse α) : Prop :=
  ∀ s : ParseState, (step s).Orderly s (32 * s.rest.length + rank ≤ fuel) used

/-- A rule that another one calls, seen from the state where that one began. -/
theorem Ranked.at {fuel rank rank' used : Nat} {step : Parse α}
    (h : Ranked fuel rank used step) (ha : s.Ahead u t) (hr : rank + 1 ≤ 32 * u + rank') :
    (step t).Orderly t (32 * s.rest.length + rank' ≤ fuel + 1) used :=
  (h t).weaken (Nat.le_refl _) (by have := ha.used; omega)

/-- All rules are orderly at one amount of fuel. -/
structure OrderlyAt (fuel : Nat) : Prop where
  parameters : ∀ count, Ranked fuel 1 1 (parameters fuel count)
  declaration : ∀ s : ParseState, (s.rest.headD (Token.finish 1)).kind ≠ .endOfInput →
    (declaration fuel s).Orderly s (32 * s.rest.length + 16 ≤ fuel) 1
  declarationOrFail : Ranked fuel 15 1 (declarationOrFail fuel)
  declarations : ∀ inBlock, Ranked fuel 17 0 (declarations fuel inBlock)
  classDeclaration : Ranked fuel 1 1 (classDeclaration fuel)
  methods : Ranked fuel 2 0 (methods fuel)
  namedFunction : ∀ role, Ranked fuel 1 1 (namedFunction fuel role)
  functionRest : ∀ name role, Ranked fuel 1 1 (functionRest fuel name role)
  varDeclaration : Ranked fuel 1 1 (varDeclaration fuel)
  statement : Ranked fuel 14 1 (statement fuel)
  forStatement : Ranked fuel 1 1 (forStatement fuel)
  forInitializer : Ranked fuel 14 1 (forInitializer fuel)
  ifStatement : Ranked fuel 1 1 (ifStatement fuel)
  whileStatement : Ranked fuel 1 1 (whileStatement fuel)
  blockRest : Ranked fuel 18 1 (blockRest fuel)
  expressionStatement : Ranked fuel 13 1 (expressionStatement fuel)
  expressionList : Ranked fuel 12 1 (expressionList fuel)
  expressionListRest : ∀ left, Ranked fuel 1 0 (expressionListRest fuel left)
  conditional : Ranked fuel 11 1 (conditional fuel)
  assignment : Ranked fuel 10 1 (assignment fuel)
  binaryLevels : ∀ ls, ls <:+ levels → Ranked fuel (3 + ls.length) 1 (binaryLevels fuel ls)
  binaryRest : ∀ level tighter left, level :: tighter <:+ levels →
    Ranked fuel 1 0 (binaryRest fuel level tighter left)
  unary : Ranked fuel 2 1 (unary fuel)
  callRest : ∀ callee, Ranked fuel 1 0 (callRest fuel callee)
  arguments : ∀ count, Ranked fuel 12 1 (arguments fuel count)
  primary : Ranked fuel 1 1 (primary fuel)
  strayTernary : Ranked fuel 13 1 (strayTernary fuel)

theorem ranked_stuck {rank used : Nat} (hr : 0 < rank) :
    Ranked 0 rank used (stuck : Parse α) :=
  fun _ h => by omega

theorem orderlyAt_zero : OrderlyAt 0 where
  parameters _ := by rw [parameters]; exact ranked_stuck (by omega)
  declaration _ _ := by rw [declaration]; exact ranked_stuck (by omega) _
  declarationOrFail := by rw [declarationOrFail]; exact ranked_stuck (by omega)
  declarations _ := by rw [declarations]; exact ranked_stuck (by omega)
  classDeclaration := by rw [classDeclaration]; exact ranked_stuck (by omega)
  methods := by rw [methods]; exact ranked_stuck (by omega)
  namedFunction _ := by rw [namedFunction]; exact ranked_stuck (by omega)
  functionRest _ _ := by rw [functionRest]; exact ranked_stuck (by omega)
  varDeclaration := by rw [varDeclaration]; exact ranked_stuck (by omega)
  statement := by rw [statement]; exact ranked_stuck (by omega)
  forStatement := by rw [forStatement]; exact ranked_stuck (by omega)
  forInitializer := by rw [forInitializer]; exact ranked_stuck (by omega)
  ifStatement := by rw [ifStatement]; exact ranked_stuck (by omega)
  whileStatement := by rw [whileStatement]; exact ranked_stuck (by omega)
  blockRest := by rw [blockRest]; exact ranked_stuck (by omega)
  expressionStatement := by rw [expressionStatement]; exact ranked_stuck (by omega)
  expressionList := by rw [expressionList]; exact ranked_stuck (by omega)
  expressionListRest _ := by rw [expressionListRest]; exact ranked_stuck (by omega)
  conditional := by rw [conditional]; exact ranked_stuck (by omega)
  assignment := by rw [assignment]; exact ranked_stuck (by omega)
  binaryLevels _ _ := by rw [binaryLevels]; exact ranked_stuck (by omega)
  binaryRest _ _ _ _ := by rw [binaryRest]; exact ranked_stuck (by omega)
  unary := by rw [unary]; exact ranked_stuck (by omega)
  callRest _ := by rw [callRest]; exact ranked_stuck (by omega)
  arguments _ := by rw [arguments]; exact ranked_stuck (by omega)
  primary := by rw [primary]; exact ranked_stuck (by omega)
  strayTernary := by rw [strayTernary]; exact ranked_stuck (by omega)

namespace OrderlyAt

variable {fuel : Nat}

/-! ### Declarations -/

theorem parameters_step (ih : OrderlyAt fuel) (count : Nat) :
    Ranked (fuel + 1) 1 1 (Parse.parameters (fuel + 1) count) := by
  intro s
  rw [Parse.parameters]
  refine .bind (.refl s) (orderly_limit _ _) fun _ t ha => ?_
  refine .bind ha (orderly_expect _) fun name t hb => ?_
  refine orderly_accept? (by decide) hb (fun _ t hc => ?_) (.pure hb (by omega) _)
  exact .bind hc ((ih.parameters (count + 1)).at hc (by omega))
    fun _ _ hd => .pure hd (by omega) _

theorem declaration_step (ih : OrderlyAt fuel) (s : ParseState)
    (hk : (s.rest.headD (Token.finish 1)).kind ≠ .endOfInput) :
    (Parse.declaration (fuel + 1) s).Orderly s
      (32 * s.rest.length + 16 ≤ fuel + 1) 1 := by
  rw [Parse.declaration]
  exact orderly_recover (ih.declarationOrFail.at (.refl s) (by omega)) hk

theorem declarationOrFail_step (ih : OrderlyAt fuel) :
    Ranked (fuel + 1) 15 1 (Parse.declarationOrFail (fuel + 1)) := by
  intro s
  rw [Parse.declarationOrFail, peekKind_bind]
  generalize hk : (s.rest.headD (Token.finish 1)).kind = kind
  split
  · have ha := ParseState.Ahead.drop_one (s := s) (by rw [hk]; decide)
    rw [advance_bind]
    exact (ih.classDeclaration.at ha (by omega)).since ha |>.weaken (by omega) id
  · have ha := ParseState.Ahead.drop_one (s := s) (by rw [hk]; decide)
    rw [advance_bind]
    exact (ih.varDeclaration.at ha (by omega)).since ha |>.weaken (by omega) id
  · exact ih.statement.at (.refl s) (by omega)

theorem declarations_step (ih : OrderlyAt fuel) (inBlock : Bool) :
    Ranked (fuel + 1) 17 0 (Parse.declarations (fuel + 1) inBlock) := by
  intro s
  rw [Parse.declarations, peekKind_bind]
  split
  · exact .refl s
  · rename_i hk
    have he : (s.rest.headD (Token.finish 1)).kind ≠ .endOfInput := fun h => hk (.inl h)
    refine .bind (.refl s) ((ih.declaration s he).weaken (Nat.le_refl _) fun h => by omega)
      fun _ t ha => ?_
    exact .bind ha ((ih.declarations inBlock).at ha (by omega))
      fun _ _ hb => .pure hb (by omega) _

theorem classDeclaration_step (ih : OrderlyAt fuel) :
    Ranked (fuel + 1) 1 1 (Parse.classDeclaration (fuel + 1)) := by
  intro s
  rw [Parse.classDeclaration]
  refine .bind (.refl s) (orderly_expect _) fun _ t ha => ?_
  refine .bind ha (orderly_expect _) fun _ t hb => ?_
  refine .bind hb (ih.methods.at hb (by omega)) fun _ t hc => ?_
  exact .bind hc (orderly_expect _) fun _ _ hd => .pure hd (by omega) _

theorem methods_step (ih : OrderlyAt fuel) :
    Ranked (fuel + 1) 2 0 (Parse.methods (fuel + 1)) := by
  intro s
  rw [Parse.methods, peekKind_bind]
  split
  · exact .refl s
  · refine .bind (.refl s) ((ih.namedFunction .method).at (.refl s) (by omega))
      fun _ t ha => ?_
    exact .bind ha (ih.methods.at ha (by omega)) fun _ _ hb => .pure hb (by omega) _

theorem namedFunction_step (ih : OrderlyAt fuel) (role : FunctionRole) :
    Ranked (fuel + 1) 1 1 (Parse.namedFunction (fuel + 1) role) := by
  intro s
  rw [Parse.namedFunction]
  refine .bind (.refl s) (orderly_expect _) fun name t ha => ?_
  exact ((ih.functionRest (some name) role).at ha (by omega)).since ha
    |>.weaken (by omega) id

theorem functionRest_step (ih : OrderlyAt fuel) (name : Option Token) (role : FunctionRole) :
    Ranked (fuel + 1) 1 1 (Parse.functionRest (fuel + 1) name role) := by
  intro s
  rw [Parse.functionRest]
  refine .bind (.refl s) (orderly_expect _) fun _ t ha => ?_
  refine .bind ha (orderly_unlessNext _
    (((ih.parameters 0).at ha (by omega)).weaken (by omega) id)) fun _ t hb => ?_
  refine .bind hb (orderly_expect _) fun _ t hc => ?_
  refine .bind hc (orderly_expect _) fun _ t hd => ?_
  refine .bind hd (orderly_atLoopDepth (u := 1) ?_) fun _ _ he => .pure he (by omega) _
  exact (ih.blockRest _).weaken (Nat.le_refl _) (by have := hd.used; simp only; omega)

theorem varDeclaration_step (ih : OrderlyAt fuel) :
    Ranked (fuel + 1) 1 1 (Parse.varDeclaration (fuel + 1)) := by
  intro s
  rw [Parse.varDeclaration]
  refine .bind (.refl s) (orderly_expect _) fun _ t ha => ?_
  refine .bind ha (orderly_ifNext (by decide) fun r hr => ?_) fun _ t hb => ?_
  · exact (ih.conditional.at (ha.trans hr) (by omega)).weaken (by omega) id
  · exact .bind hb (orderly_expect _) fun _ _ hc => .pure hc (by omega) _

/-! ### Statements -/

theorem statement_step (ih : OrderlyAt fuel) :
    Ranked (fuel + 1) 14 1 (Parse.statement (fuel + 1)) := by
  intro s
  rw [Parse.statement, peek_bind]
  generalize hk : (s.rest.headD (Token.finish 1)).kind = kind
  -- every keyword is a token that is there, so dropping it goes ahead
  split
  all_goals try
    have ha := ParseState.Ahead.drop_one (s := s) (by rw [hk]; decide)
    rw [advance_bind]
  · exact (ih.forStatement.at ha (by omega)).since ha |>.weaken (by omega) id
  · exact (ih.ifStatement.at ha (by omega)).since ha |>.weaken (by omega) id
  · refine .bind ha (ih.expressionList.at ha (by omega)) fun _ t hb => ?_
    exact .bind hb (orderly_expect _) fun _ _ hc => .pure hc (by omega) _
  · refine .bind ha (orderly_unlessNext _
      ((ih.conditional.at ha (by omega)).weaken (by omega) id)) fun _ t hb => ?_
    exact .bind hb (orderly_expect _) fun _ _ hc => .pure hc (by omega) _
  · exact (ih.whileStatement.at ha (by omega)).since ha |>.weaken (by omega) id
  · refine .bind ha (orderly_requireLoop _) fun _ t hb => ?_
    exact .bind hb (orderly_expect _) fun _ _ hc => .pure hc (by omega) _
  · exact .bind ha (ih.blockRest.at ha (by omega)) fun _ _ hb => .pure hb (by omega) _
  · rw [kindAfterNext?_bind]
    split
    · have ha := ParseState.Ahead.drop_one (s := s) (by rw [hk]; decide)
      rw [advance_bind]
      exact .bind ha ((ih.namedFunction .function).at ha (by omega))
        fun _ _ hb => .pure hb (by omega) _
    · exact ih.expressionStatement.at (.refl s) (by omega)
  · exact ih.expressionStatement.at (.refl s) (by omega)

theorem forStatement_step (ih : OrderlyAt fuel) :
    Ranked (fuel + 1) 1 1 (Parse.forStatement (fuel + 1)) := by
  intro s
  rw [Parse.forStatement]
  refine .bind (.refl s) (orderly_expect _) fun _ t ha => ?_
  refine .bind ha (ih.forInitializer.at ha (by omega)) fun _ t hb => ?_
  refine .bind hb (orderly_unlessNext _
    ((ih.expressionList.at hb (by omega)).weaken (by omega) id)) fun _ t hc => ?_
  refine .bind hc (orderly_expect _) fun _ t hd => ?_
  refine .bind hd (orderly_unlessNext _
    ((ih.expressionList.at hd (by omega)).weaken (by omega) id)) fun _ t he => ?_
  refine .bind he (orderly_expect _) fun _ t hf => ?_
  refine .bind hf (orderly_atLoopDepth (u := 1) ?_) fun _ _ hg => .pure hg (by omega) _
  exact (ih.statement _).weaken (Nat.le_refl _) (by have := hf.used; simp only; omega)

theorem forInitializer_step (ih : OrderlyAt fuel) :
    Ranked (fuel + 1) 14 1 (Parse.forInitializer (fuel + 1)) := by
  intro s
  rw [Parse.forInitializer, peekKind_bind]
  generalize hk : (s.rest.headD (Token.finish 1)).kind = kind
  split
  · exact .drop_one (by rw [hk]; decide)
  · have ha := ParseState.Ahead.drop_one (s := s) (by rw [hk]; decide)
    rw [advance_bind]
    exact .bind ha (ih.varDeclaration.at ha (by omega)) fun _ _ hb => .pure hb (by omega) _
  · exact .bind (.refl s) (ih.expressionStatement.at (.refl s) (by omega))
      fun _ _ ha => .pure ha (by omega) _

theorem ifStatement_step (ih : OrderlyAt fuel) :
    Ranked (fuel + 1) 1 1 (Parse.ifStatement (fuel + 1)) := by
  intro s
  rw [Parse.ifStatement]
  refine .bind (.refl s) (orderly_expect _) fun _ t ha => ?_
  refine .bind ha (ih.expressionList.at ha (by omega)) fun _ t hb => ?_
  refine .bind hb (orderly_expect _) fun _ t hc => ?_
  refine .bind hc (ih.statement.at hc (by omega)) fun _ t hd => ?_
  refine .bind hd (orderly_ifNext (by decide) fun r hr => ?_)
    fun _ _ he => .pure he (by omega) _
  exact (ih.statement.at (hd.trans hr) (by omega)).weaken (by omega) id

theorem whileStatement_step (ih : OrderlyAt fuel) :
    Ranked (fuel + 1) 1 1 (Parse.whileStatement (fuel + 1)) := by
  intro s
  rw [Parse.whileStatement]
  refine .bind (.refl s) (orderly_expect _) fun _ t ha => ?_
  refine .bind ha (ih.expressionList.at ha (by omega)) fun _ t hb => ?_
  refine .bind hb (orderly_expect _) fun _ t hc => ?_
  refine .bind hc (orderly_atLoopDepth (u := 1) ?_) fun _ _ hd => .pure hd (by omega) _
  exact (ih.statement _).weaken (Nat.le_refl _) (by have := hc.used; simp only; omega)

theorem blockRest_step (ih : OrderlyAt fuel) :
    Ranked (fuel + 1) 18 1 (Parse.blockRest (fuel + 1)) := by
  intro s
  rw [Parse.blockRest]
  refine .bind (.refl s) ((ih.declarations true).at (.refl s) (by omega)) fun _ t ha => ?_
  exact .bind ha (orderly_expect _) fun _ _ hb => .pure hb (by omega) _

theorem expressionStatement_step (ih : OrderlyAt fuel) :
    Ranked (fuel + 1) 13 1 (Parse.expressionStatement (fuel + 1)) := by
  intro s
  rw [Parse.expressionStatement]
  refine .bind (.refl s) (ih.expressionList.at (.refl s) (by omega)) fun _ t ha => ?_
  exact .bind ha (orderly_expect _) fun _ _ hb => .pure hb (by omega) _

/-! ### Expressions -/

theorem expressionList_step (ih : OrderlyAt fuel) :
    Ranked (fuel + 1) 12 1 (Parse.expressionList (fuel + 1)) := by
  intro s
  rw [Parse.expressionList]
  refine .bind (.refl s) (ih.conditional.at (.refl s) (by omega)) fun left t ha => ?_
  exact ((ih.expressionListRest left).at ha (by omega)).since ha |>.weaken (by omega) id

theorem expressionListRest_step (ih : OrderlyAt fuel) (left : Expr) :
    Ranked (fuel + 1) 1 0 (Parse.expressionListRest (fuel + 1) left) := by
  intro s
  rw [Parse.expressionListRest]
  refine orderly_accept? (by decide) (.refl s) (fun operator t ha => ?_) (.refl s)
  refine .bind ha (ih.conditional.at ha (by omega)) fun right t hb => ?_
  exact ((ih.expressionListRest _).at hb (by omega)).since hb |>.weaken (by omega) id

theorem conditional_step (ih : OrderlyAt fuel) :
    Ranked (fuel + 1) 11 1 (Parse.conditional (fuel + 1)) := by
  intro s
  rw [Parse.conditional]
  refine .bind (.refl s) (ih.assignment.at (.refl s) (by omega)) fun _ t ha => ?_
  refine orderly_accept? (by decide) ha (fun _ t hb => ?_) (.pure ha (by omega) _)
  refine .bind hb (orderly_unlessNext _
    ((ih.expressionList.at hb (by omega)).weaken (by omega) id)) fun _ t hc => ?_
  refine .bind hc (orderly_expect _) fun _ t hd => ?_
  exact .bind hd (ih.conditional.at hd (by omega)) fun _ _ he => .pure he (by omega) _

theorem assignment_step (ih : OrderlyAt fuel) :
    Ranked (fuel + 1) 10 1 (Parse.assignment (fuel + 1)) := by
  intro s
  rw [Parse.assignment]
  refine .bind (.refl s) ((ih.binaryLevels levels List.suffix_rfl).at (.refl s)
    (by simp [levels])) fun target t ha => ?_
  refine orderly_accept? (by decide) ha (fun equals t hb => ?_) (.pure ha (by omega) _)
  refine .bind hb (ih.assignment.at hb (by omega)) fun value t hc => ?_
  split
  · exact .pure hc (by omega) _
  · exact .pure hc (by omega) _
  · rw [report_bind]
    exact .pure (hc.trans (.report t _)) (by omega) _

theorem endOfInput_not_mem_operators {level : Level} (h : level ∈ levels) :
    TokenKind.endOfInput ∉ level.operators := by
  simp only [levels, List.mem_cons, List.not_mem_nil, or_false] at h
  rcases h with rfl | rfl | rfl | rfl | rfl | rfl <;> decide

theorem binaryLevels_step (ih : OrderlyAt fuel) (ls : List Level) (hs : ls <:+ levels) :
    Ranked (fuel + 1) (3 + ls.length) 1 (Parse.binaryLevels (fuel + 1) ls) := by
  intro s
  cases ls with
  | nil =>
    rw [Parse.binaryLevels]
    exact ih.unary.at (.refl s) (by simp)
  | cons level tighter =>
    rw [Parse.binaryLevels]
    have ht : tighter <:+ levels := (List.suffix_cons level tighter).trans hs
    refine .bind (.refl s) ((ih.binaryLevels tighter ht).at (.refl s)
      (by simp only [List.length_cons]; omega)) fun left t ha => ?_
    exact ((ih.binaryRest level tighter left hs).at ha (by omega)).since ha
      |>.weaken (by omega) id

theorem binaryRest_step (ih : OrderlyAt fuel) (level : Level) (tighter : List Level)
    (left : Expr) (hs : level :: tighter <:+ levels) :
    Ranked (fuel + 1) 1 0 (Parse.binaryRest (fuel + 1) level tighter left) := by
  intro s
  rw [Parse.binaryRest]
  have hm : level ∈ levels := hs.subset (List.mem_cons_self ..)
  have ht : tighter <:+ levels := (List.suffix_cons level tighter).trans hs
  have hl : tighter.length ≤ 6 := ht.length_le
  refine orderly_accept? (endOfInput_not_mem_operators hm) (.refl s)
    (fun operator t ha => ?_) (.refl s)
  refine .bind ha ((ih.binaryLevels tighter ht).at ha (by omega)) fun right t hb => ?_
  exact ((ih.binaryRest level tighter _ hs).at hb (by omega)).since hb
    |>.weaken (by omega) id

theorem unary_step (ih : OrderlyAt fuel) : Ranked (fuel + 1) 2 1 (Parse.unary (fuel + 1)) := by
  intro s
  rw [Parse.unary]
  refine orderly_accept? (by decide) (.refl s) (fun operator t ha => ?_) ?_
  · exact .bind ha (ih.unary.at ha (by omega)) fun _ _ hb => .pure hb (by omega) _
  · refine .bind (.refl s) (ih.primary.at (.refl s) (by omega)) fun callee t ha => ?_
    exact ((ih.callRest callee).at ha (by omega)).since ha |>.weaken (by omega) id

theorem callRest_step (ih : OrderlyAt fuel) (callee : Expr) :
    Ranked (fuel + 1) 1 0 (Parse.callRest (fuel + 1) callee) := by
  intro s
  rw [Parse.callRest, peekKind_bind]
  generalize hk : (s.rest.headD (Token.finish 1)).kind = kind
  split
  · have ha := ParseState.Ahead.drop_one (s := s) (by rw [hk]; decide)
    rw [advance_bind]
    refine .bind ha (orderly_unlessNext _
      (((ih.arguments 0).at ha (by omega)).weaken (by omega) id)) fun _ t hb => ?_
    refine .bind hb (orderly_expect _) fun paren t hc => ?_
    exact ((ih.callRest _).at hc (by omega)).since hc |>.weaken (by omega) id
  · have ha := ParseState.Ahead.drop_one (s := s) (by rw [hk]; decide)
    rw [advance_bind]
    refine .bind ha (orderly_expect _) fun name t hb => ?_
    exact ((ih.callRest _).at hb (by omega)).since hb |>.weaken (by omega) id
  · exact .refl s

theorem arguments_step (ih : OrderlyAt fuel) (count : Nat) :
    Ranked (fuel + 1) 12 1 (Parse.arguments (fuel + 1) count) := by
  intro s
  rw [Parse.arguments]
  refine .bind (.refl s) (orderly_limit _ _) fun _ t ha => ?_
  refine .bind ha (ih.conditional.at ha (by omega)) fun first t hb => ?_
  refine orderly_accept? (by decide) hb (fun _ t hc => ?_) (.pure hb (by omega) _)
  exact .bind hc ((ih.arguments (count + 1)).at hc (by omega))
    fun _ _ hd => .pure hd (by omega) _

theorem operandLevels?_suffix {kind : TokenKind} {ls tighter : List Level}
    (h : operandLevels? kind ls = some tighter) : tighter <:+ ls := by
  induction ls with
  | nil => cases h
  | cons level ls ih =>
    rw [operandLevels?] at h
    split at h
    · cases h
      exact List.suffix_cons level _
    · exact (ih h).trans (List.suffix_cons level ls)

theorem operandLevels?_endOfInput : operandLevels? .endOfInput levels = none := by
  decide

theorem primary_step (ih : OrderlyAt fuel) :
    Ranked (fuel + 1) 1 1 (Parse.primary (fuel + 1)) := by
  intro s
  rw [Parse.primary, peek_bind]
  generalize hk : (s.rest.headD (Token.finish 1)).kind = kind
  split
  all_goals try
    have ha := ParseState.Ahead.drop_one (s := s) (by rw [hk]; decide)
    rw [advance_bind]
  · exact ha
  · exact ha
  · exact ha
  · exact ha
  · exact ha
  · exact .pure (ha.trans (.newId _)) (by omega) _
  · exact .pure (ha.trans (.newId _)) (by omega) _
  · exact .bind ha ((ih.functionRest none .inlineFunction).at ha (by omega))
      fun _ _ hb => .pure hb (by omega) _
  · refine .bind ha (ih.expressionList.at ha (by omega)) fun _ t hb => ?_
    exact .bind hb (orderly_expect _) fun _ _ hc => .pure hc (by omega) _
  · exact orderly_reject ha _ _
  · rw [report_bind]
    refine orderly_attempt_fail (ha.trans (.report _ _)) (by simp) ?_
    exact (ih.conditional.at (ha.trans (.report _ _)) (by omega)).weaken (by omega) id
  · rw [report_bind]
    refine orderly_attempt_fail (ha.trans (.report _ _)) (by simp) ?_
    exact (ih.strayTernary.at (ha.trans (.report _ _)) (by omega)).weaken (by omega) id
  · cases ho : operandLevels? kind levels with
    | none => exact orderly_reject (.refl s) _ _
    | some tighter =>
      have hs := operandLevels?_suffix ho
      have hl : tighter.length ≤ 6 := hs.length_le
      -- an operator is not the end of the input
      have ha := ParseState.Ahead.drop_one (s := s) fun he => by
        rw [← hk, he, operandLevels?_endOfInput] at ho
        cases ho
      simp only [advance_bind, report_bind]
      refine orderly_attempt_fail (ha.trans (.report _ _)) (by simp) ?_
      exact ((ih.binaryLevels tighter hs).at (ha.trans (.report _ _)) (by omega)).weaken
        (by omega) id

theorem strayTernary_step (ih : OrderlyAt fuel) :
    Ranked (fuel + 1) 13 1 (Parse.strayTernary (fuel + 1)) := by
  intro s
  rw [Parse.strayTernary]
  refine .bind (.refl s) (ih.expressionList.at (.refl s) (by omega)) fun _ t ha => ?_
  refine .bind ha (orderly_expect _) fun _ t hb => ?_
  exact (ih.conditional.at hb (by omega)).since hb |>.weaken (by omega) id

end OrderlyAt

/-- Every rule is orderly, whatever its fuel. -/
theorem orderly (fuel : Nat) : OrderlyAt fuel := by
  induction fuel with
  | zero => exact orderlyAt_zero
  | succ fuel ih =>
    exact {
      parameters := ih.parameters_step
      declaration := ih.declaration_step
      declarationOrFail := ih.declarationOrFail_step
      declarations := ih.declarations_step
      classDeclaration := ih.classDeclaration_step
      methods := ih.methods_step
      namedFunction := ih.namedFunction_step
      functionRest := ih.functionRest_step
      varDeclaration := ih.varDeclaration_step
      statement := ih.statement_step
      forStatement := ih.forStatement_step
      forInitializer := ih.forInitializer_step
      ifStatement := ih.ifStatement_step
      whileStatement := ih.whileStatement_step
      blockRest := ih.blockRest_step
      expressionStatement := ih.expressionStatement_step
      expressionList := ih.expressionList_step
      expressionListRest := ih.expressionListRest_step
      conditional := ih.conditional_step
      assignment := ih.assignment_step
      binaryLevels := ih.binaryLevels_step
      binaryRest := ih.binaryRest_step
      unary := ih.unary_step
      callRest := ih.callRest_step
      arguments := ih.arguments_step
      primary := ih.primary_step
      strayTernary := ih.strayTernary_step }

/-- A program has enough fuel, whatever its tokens. -/
theorem declarations_ne_outOfFuel (s : ParseState) (inBlock : Bool) :
    declarations (32 * (s.rest.length + 1)) inBlock s ≠ .outOfFuel := by
  intro h
  have ho := (orderly (32 * (s.rest.length + 1))).declarations inBlock s
  rw [h] at ho
  exact ho (by omega)

end Parse

end TreeScript
