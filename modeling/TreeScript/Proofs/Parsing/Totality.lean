import TreeScript.Proofs.Parsing.Acceptance
import TreeScript.Proofs.Parsing.Looks

/-!
# Parsing whatever the tokens are

* `Parse.Rule.ne_outOfFuel` — how much fuel is enough for any rule
* `Parse.declaration_goes_on` — a declaration that fails consumes a token as well
* `Program.Pass` — a pass over the tokens of a program, from the first one to the first end mark
* `Program.ofTokens_total` — every token list that ends with an end mark is passed through
-/

namespace TreeScript

namespace Parse

/-! ## Fuel -/

/-- A step has fuel if there is as much as its rank needs. -/
theorem Ranked.ne_outOfFuel {α : Type} {fuel rank used : Nat} {step : Parse α}
    (h : Ranked fuel rank used step) (s : ParseState)
    (hf : 32 * s.rest.length + rank ≤ fuel) : step s ≠ .outOfFuel := by
  intro he
  have ho := h s
  rw [he] at ho
  exact ho hf

/-- A rule has fuel if there are 32 for every token that is left, and 32 more. -/
theorem Rule.ne_outOfFuel {α : Type} {fuel : Nat} {step : Parse α} (h : Rule fuel step)
    (s : ParseState) (hf : 32 * (s.rest.length + 1) ≤ fuel) : step s ≠ .outOfFuel := by
  have ho := orderly fuel
  cases h with
  | expect slot => rw [expect_eq]; split <;> nofun
  | accept? => rw [accept?_eq]; split <;> nofun
  | parameters count => exact (ho.parameters count).ne_outOfFuel s (by omega)
  | declaration =>
    -- also at the end, where nothing is declared
    cases fuel with
    | zero => omega
    | succ fuel =>
      have hd := (orderly fuel).declarationOrFail.ne_outOfFuel s (by omega)
      intro he
      rw [Parse.declaration] at he
      unfold Parse.recover at he
      cases hr : Parse.declarationOrFail fuel s with
      | ok a t => rw [hr] at he; cases he
      | failed t => rw [hr] at he; cases he
      | outOfFuel => exact hd hr
  | declarationOrFail => exact ho.declarationOrFail.ne_outOfFuel s (by omega)
  | declarations inBlock => exact (ho.declarations inBlock).ne_outOfFuel s (by omega)
  | classDeclaration => exact ho.classDeclaration.ne_outOfFuel s (by omega)
  | methods => exact ho.methods.ne_outOfFuel s (by omega)
  | namedFunction role => exact (ho.namedFunction role).ne_outOfFuel s (by omega)
  | functionRest name role => exact (ho.functionRest name role).ne_outOfFuel s (by omega)
  | varDeclaration => exact ho.varDeclaration.ne_outOfFuel s (by omega)
  | statement => exact ho.statement.ne_outOfFuel s (by omega)
  | forStatement => exact ho.forStatement.ne_outOfFuel s (by omega)
  | forInitializer => exact ho.forInitializer.ne_outOfFuel s (by omega)
  | ifStatement => exact ho.ifStatement.ne_outOfFuel s (by omega)
  | whileStatement => exact ho.whileStatement.ne_outOfFuel s (by omega)
  | blockRest => exact ho.blockRest.ne_outOfFuel s (by omega)
  | expressionStatement => exact ho.expressionStatement.ne_outOfFuel s (by omega)
  | expressionList => exact ho.expressionList.ne_outOfFuel s (by omega)
  | expressionListRest left => exact (ho.expressionListRest left).ne_outOfFuel s (by omega)
  | conditional => exact ho.conditional.ne_outOfFuel s (by omega)
  | assignment => exact ho.assignment.ne_outOfFuel s (by omega)
  | @binaryLevels ls hl =>
    have hlen : ls.length ≤ 6 := hl.length_le
    exact (ho.binaryLevels ls hl).ne_outOfFuel s (by omega)
  | binaryRest hl left => exact (ho.binaryRest _ _ left hl).ne_outOfFuel s (by omega)
  | unary => exact ho.unary.ne_outOfFuel s (by omega)
  | callRest callee => exact (ho.callRest callee).ne_outOfFuel s (by omega)
  | arguments count => exact (ho.arguments count).ne_outOfFuel s (by omega)
  | primary => exact ho.primary.ne_outOfFuel s (by omega)
  | strayTernary => exact ho.strayTernary.ne_outOfFuel s (by omega)

/-! ## Declarations -/

theorem bind_eq_failed {α β : Type} {first : Parse α} {next : α → Parse β}
    {s t : ParseState} : (first >>= next) s = .failed t ↔
      first s = .failed t ∨ ∃ a r, first s = .ok a r ∧ next a r = .failed t := by
  show Parse.bind first next s = .failed t ↔ _
  unfold Parse.bind
  cases first s <;> simp

/-- A declaration never fails: it is recovered. -/
theorem declaration_ne_failed (fuel : Nat) (s t : ParseState) :
    declaration fuel s ≠ .failed t := by
  intro h
  cases fuel with
  | zero =>
    rw [declaration] at h
    cases h
  | succ fuel =>
    rw [declaration, recover] at h
    split at h <;> cases h

/-- A declaration that is not at the end consumes a token, whether it succeeds or not. -/
theorem declaration_goes_on {fuel : Nat} {s : ParseState}
    (hk : s.nextKind ≠ .endOfInput) (hf : declaration fuel s ≠ .outOfFuel) :
    ∃ found t, declaration fuel s = .ok found t ∧ t.rest.length < s.rest.length := by
  have ho := (orderly fuel).declaration s hk
  cases hr : declaration fuel s with
  | ok found t =>
    rw [hr] at ho
    have := ho.used
    exact ⟨found, t, rfl, by omega⟩
  | failed t => exact absurd hr (declaration_ne_failed fuel s t)
  | outOfFuel => exact absurd hr hf

/-- Declarations never fail, as none of them does. -/
theorem declarations_ne_failed (fuel : Nat) (inBlock : Bool) (s t : ParseState) :
    declarations fuel inBlock s ≠ .failed t := by
  induction fuel generalizing s t with
  | zero =>
    intro h
    rw [declarations] at h
    cases h
  | succ fuel ih =>
    intro h
    rw [declarations, peekKind_bind] at h
    split at h
    · cases h
    · rcases bind_eq_failed.1 h with h | ⟨first, r, -, h⟩
      · exact declaration_ne_failed fuel s t h
      · rcases bind_eq_failed.1 h with h | ⟨rest, r', -, h⟩
        · exact ih r t h
        · cases h

/-- The declarations of a program stop only at the end. -/
theorem declarations_at_end {fuel : Nat} {s t : ParseState} {found : List Stmt}
    (h : declarations fuel false s = .ok found t) : t.nextKind = .endOfInput := by
  induction fuel generalizing s found with
  | zero => rw [declarations] at h; cases h
  | succ fuel ih =>
    rw [declarations, peekKind_bind] at h
    split at h
    · rename_i hk
      obtain ⟨-, rfl⟩ := pure_eq_ok.1 h
      rcases hk with hk | ⟨hb, -⟩
      · exact hk
      · cases hb
    · obtain ⟨first, r, -, h⟩ := bind_eq_ok.1 h
      obtain ⟨rest, r', hrest, h⟩ := bind_eq_ok.1 h
      obtain ⟨-, rfl⟩ := pure_eq_ok.1 h
      exact ih hrest

end Parse

/-! ## Programs -/

/-- Where the first end mark stands. -/
def firstEnd (tokens : List Token) : Nat :=
  tokens.findIdx fun token => token.kind = .endOfInput

theorem Marked.firstEnd_lt {tokens : List Token} (h : Marked tokens) :
    firstEnd tokens < tokens.length := by
  obtain ⟨e, he, hend⟩ := h
  exact List.findIdx_lt_length_of_exists ⟨e, he, by simpa using hend⟩

theorem firstEnd_append {used : List Token} (h : ∀ t ∈ used, t.kind ≠ .endOfInput)
    (rest : List Token) : firstEnd (used ++ rest) = used.length + firstEnd rest := by
  have hnone : firstEnd used = used.length :=
    List.findIdx_eq_length.2 fun t ht => by simpa using h t ht
  rw [firstEnd] at hnone ⊢
  rw [List.findIdx_append, if_neg (by omega), Nat.add_comm, firstEnd]

theorem firstEnd_cons_of_end {token : Token} (h : token.kind = .endOfInput)
    (rest : List Token) : firstEnd (token :: rest) = 0 := by
  rw [firstEnd, List.findIdx_cons, decide_eq_true h]
  rfl

namespace Onward

variable {before after : List Token}

/-- What is left without going past an end mark starts no later than the first one. -/
theorem eq_drop (h : Onward before after) :
    after = before.drop (before.length - after.length) ∧
      before.length - after.length ≤ firstEnd before := by
  obtain ⟨used, rfl, hused⟩ := h
  rw [List.length_append, Nat.add_sub_cancel, firstEnd_append hused]
  exact ⟨by rw [List.drop_left], Nat.le_add_right _ _⟩

/-- What is left at an end mark, without having gone past one, starts at the first one. -/
theorem eq_drop_firstEnd (h : Onward before after) (hm : Marked before)
    (hend : (after.headD (Token.finish 1)).kind = .endOfInput) :
    after = before.drop (firstEnd before) := by
  obtain ⟨token, rest, rfl⟩ := (h.marked hm).exists_cons
  obtain ⟨used, rfl, hused⟩ := h
  have hfirst : firstEnd (token :: rest) = 0 := firstEnd_cons_of_end hend rest
  rw [firstEnd_append hused, hfirst, Nat.add_zero, List.drop_left]

end Onward

/-- A pass over the tokens of a program: the statements that are parsed, the places where it
looks at a token, one after the other, and the state in which it stops. -/
structure Program.Pass (tokens : List Token) (firstId : ReferenceId) (found : List Stmt)
    (places : List Nat) (after : ParseState) : Prop where
  finishes : Parse.declarations (32 * (tokens.length + 1)) false (.start tokens firstId) =
    .ok found after
  result : Program.ofTokens tokens firstId =
    { statements := found, nextId := after.nextId, diagnostics := after.diagnostics }
  looks : Parse.Looks (Parse.declarations (32 * (tokens.length + 1)) false)
    (.start tokens firstId) (places.map fun place => tokens.drop place)
  forward : places.Pairwise (· ≤ ·)
  upToEnd : ∀ place ∈ places, place ≤ firstEnd tokens
  stops : after.rest = tokens.drop (firstEnd tokens)

/-- The places of looks along a journey. -/
theorem Parse.Journey.places {s t : ParseState} {seen : List (List Token)}
    (h : Journey s seen t) :
    ∃ places : List Nat, places.map (fun place => s.rest.drop place) = seen ∧
      places.Pairwise (· ≤ ·) ∧ ∀ place ∈ places, place ≤ firstEnd s.rest := by
  refine ⟨seen.map fun left => s.rest.length - left.length, ?_, ?_, ?_⟩
  · rw [List.map_map]
    refine (List.map_congr_left fun left hleft => ?_).trans (List.map_id seen)
    exact (h.looks left hleft).1.eq_drop.1.symm
  · refine List.pairwise_map.2 (h.order.imp fun hab => ?_)
    exact Nat.sub_le_sub_left hab.suffix.length_le _
  · intro place hplace
    obtain ⟨left, hleft, rfl⟩ := List.mem_map.1 hplace
    exact (h.looks left hleft).1.eq_drop.2

/-- Tokens that have an end mark are passed through. -/
theorem Program.exists_pass {tokens : List Token} (hm : Marked tokens) (firstId : ReferenceId) :
    ∃ found places after, Pass tokens firstId found places after := by
  have hf := Parse.declarations_ne_outOfFuel (.start tokens firstId) false
  obtain ⟨seen, t, hl, ht, hj⟩ := (Parse.Rule.declarations false).journey hm hf
  change (Parse.declarations (32 * (tokens.length + 1)) false _).state? = some t at ht
  cases hr : Parse.declarations (32 * (tokens.length + 1)) false (.start tokens firstId) with
  | ok found after =>
    rw [hr] at ht
    obtain rfl : after = t := Option.some.inj ht
    obtain ⟨places, rfl, hforward, hupto⟩ := hj.places
    exact ⟨found, places, after, {
      finishes := hr
      result := ofTokens_of_ok hr
      looks := hl
      forward := hforward
      upToEnd := hupto
      stops := hj.tokens.eq_drop_firstEnd hm (Parse.declarations_at_end hr) }⟩
  | failed t => exact absurd hr (Parse.declarations_ne_failed _ _ _ t)
  | outOfFuel => exact absurd hr hf

/-- Every list of tokens that ends with an end mark is parsed, well-formed or not, and also
if there are end marks before the last one.  The parser looks only at tokens that are there,
never goes back and never goes past the first end mark.  A declaration before the end goes
on by a token at least, whether it succeeds or is recovered, and every rule, on success and
on failure alike, goes forward up to the first end mark at most, gives back the loop depth
and takes identities only from the supply. -/
theorem Program.ofTokens_total {tokens : List Token} {last : Token}
    (hlast : tokens.getLast? = some last) (hend : last.kind = .endOfInput)
    (firstId : ReferenceId) :
    firstEnd tokens < tokens.length ∧
    (∃ found places after, Pass tokens firstId found places after) ∧
    (∀ fuel (s : ParseState), s.nextKind ≠ .endOfInput →
      Parse.declaration fuel s ≠ .outOfFuel →
      ∃ found t, Parse.declaration fuel s = .ok found t ∧ t.rest.length < s.rest.length) ∧
    ∀ {α : Type} {fuel : Nat} {step : Parse α}, Parse.Rule fuel step →
      ∀ s : ParseState, Marked s.rest →
      (32 * (s.rest.length + 1) ≤ fuel → step s ≠ .outOfFuel) ∧
      (step s ≠ .outOfFuel → ∃ seen t, Parse.Looks step s seen ∧ (step s).state? = some t ∧
        Onward s.rest t.rest ∧ t.loopDepth = s.loopDepth ∧ s.nextId ≤ t.nextId) := by
  have hm : Marked tokens := ⟨last, List.mem_of_getLast? hlast, hend⟩
  refine ⟨hm.firstEnd_lt, exists_pass hm firstId,
    fun fuel s hk hf => Parse.declaration_goes_on hk hf, fun hrule s hs => ⟨?_, ?_⟩⟩
  · exact hrule.ne_outOfFuel s
  · intro hf
    obtain ⟨seen, t, hl, ht, hj⟩ := hrule.journey hs hf
    exact ⟨seen, t, hl, ht, hj.tokens, hj.loops, hj.ids⟩

namespace Program

/-- The tokens of `) fun (`, two end marks and `var` between them. -/
def endedEarly : List Token :=
  [word .rightParen ")", word .funKeyword "fun", word .leftParen "(", Token.finish 1,
    word .varKeyword "var", Token.finish 1]

theorem ofTokens_total_endedEarly : firstEnd endedEarly = 3 ∧
    ∃ found places after, Pass endedEarly 7 found places after ∧ ∀ place ∈ places, place ≤ 3 := by
  have hfirst : firstEnd endedEarly = 3 := by decide
  obtain ⟨-, ⟨found, places, after, hpass⟩, -⟩ :=
    ofTokens_total (show endedEarly.getLast? = some (Token.finish 1) from rfl) rfl 7
  exact ⟨hfirst, found, places, after, hpass, hfirst ▸ hpass.upToEnd⟩

end Program

end TreeScript
