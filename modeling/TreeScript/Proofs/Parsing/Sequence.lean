import TreeScript.Proofs.Parsing.Acceptance

/-!
# One program after the other

* `derives_replace` — a derivation looks at the tokens only that it consumes
* `derives_append` — declarations one after the other
* `Program.ofTokens_append` — the programs of two rows of words, of which only the second one
  is closed by an end mark
-/

namespace TreeScript

variable {c : Convention}

/-- A derivation does not look at the tokens that it leaves, which may be replaced. -/
theorem derives_replace {symbol : Symbol} {p q : Point} {v : symbol.Tree}
    (h : Derives c symbol p v q) (tail tail' us : List Token)
    (hq : q.tokens = us ++ tail) :
    ∃ ts, p.tokens = ts ++ tail ∧
      Derives c symbol ⟨ts ++ tail', p.nextId⟩ v ⟨us ++ tail', q.nextId⟩ := by
  induction h generalizing us with
  | noDeclaration => exact ⟨us, hq, .noDeclaration⟩
  | noMethod => exact ⟨us, hq, .noMethod⟩
  | noList => exact ⟨us, hq, .noList⟩
  | moreDeclarations _ _ ih₁ ih₂ =>
    obtain ⟨ms, hm, h₂⟩ := ih₂ us hq
    obtain ⟨ts, ht, h₁⟩ := ih₁ ms hm
    exact ⟨ts, ht, .moreDeclarations h₁ h₂⟩
  | classDeclaration hkey hname hopening _ hclosing ih =>
    cases hq
    obtain ⟨ts, ht, h⟩ := ih (_ :: us) rfl
    cases ht
    exact ⟨_ :: _ :: _ :: ts, rfl, .classDeclaration hkey hname hopening h hclosing⟩
  | functionDeclaration hkey hname _ ih =>
    obtain ⟨ts, ht, h⟩ := ih us hq
    cases ht
    exact ⟨_ :: _ :: ts, rfl, .functionDeclaration hkey hname h⟩
  | variableDeclaration hkey _ ih =>
    obtain ⟨ts, ht, h⟩ := ih us hq
    cases ht
    exact ⟨_ :: ts, rfl, .variableDeclaration hkey h⟩
  | plainStatement _ ih =>
    obtain ⟨ts, ht, h⟩ := ih us hq
    exact ⟨ts, ht, .plainStatement h⟩
  | namedMethod hc hname _ _ ih₁ ih₂ =>
    obtain ⟨ms, hm, h₂⟩ := ih₂ us hq
    obtain ⟨ts, ht, h₁⟩ := ih₁ ms hm
    cases ht
    exact ⟨_ :: ts, rfl, .namedMethod hc hname h₁ h₂⟩
  | namelessMethod hc _ _ ih₁ ih₂ =>
    obtain ⟨ms, hm, h₂⟩ := ih₂ us hq
    obtain ⟨ts, ht, h₁⟩ := ih₁ ms hm
    exact ⟨ts, ht, .namelessMethod hc h₁ h₂⟩
  | functionWithout hlp hrp hlb _ hrb ih =>
    cases hq
    obtain ⟨ts, ht, h⟩ := ih (_ :: us) rfl
    cases ht
    exact ⟨_ :: _ :: _ :: ts, rfl, .functionWithout hlp hrp hlb h hrb⟩
  | functionWith hlp _ hlimit hrp hlb _ hrb ih₁ ih₂ =>
    cases hq
    obtain ⟨ms, hm, h₂⟩ := ih₂ (_ :: us) rfl
    cases hm
    obtain ⟨ts, ht, h₁⟩ := ih₁ (_ :: _ :: ms) rfl
    cases ht
    exact ⟨_ :: ts, rfl, .functionWith hlp h₁ hlimit hrp hlb h₂ hrb⟩
  | lastParameter hname =>
    cases hq
    exact ⟨_ :: us, rfl, .lastParameter hname⟩
  | moreParameters hname hcomma _ ih =>
    obtain ⟨ts, ht, h⟩ := ih us hq
    cases ht
    exact ⟨_ :: _ :: ts, rfl, .moreParameters hname hcomma h⟩
  | variableWithout hname hfinish =>
    cases hq
    exact ⟨_ :: _ :: us, rfl, .variableWithout hname hfinish⟩
  | variableWith hname hequals _ hfinish ih =>
    cases hq
    obtain ⟨ts, ht, h⟩ := ih (_ :: us) rfl
    cases ht
    exact ⟨_ :: _ :: ts, rfl, .variableWith hname hequals h hfinish⟩
  | forStatement hkey hlp _ _ hfinish _ hrp _ ih₁ ih₂ ih₃ ih₄ =>
    obtain ⟨ks, hk, h₄⟩ := ih₄ us hq
    cases hk
    obtain ⟨js, hj, h₃⟩ := ih₃ (_ :: ks) rfl
    cases hj
    obtain ⟨ms, hm, h₂⟩ := ih₂ (_ :: js) rfl
    obtain ⟨ts, ht, h₁⟩ := ih₁ ms hm
    cases ht
    exact ⟨_ :: _ :: ts, rfl, .forStatement hkey hlp h₁ h₂ hfinish h₃ hrp h₄⟩
  | branch hkey hlp _ hrp _ ih₁ ih₂ =>
    obtain ⟨ms, hm, h₂⟩ := ih₂ us hq
    cases hm
    obtain ⟨ts, ht, h₁⟩ := ih₁ (_ :: ms) rfl
    cases ht
    exact ⟨_ :: _ :: ts, rfl, .branch hkey hlp h₁ hrp h₂⟩
  | branches hkey hlp _ hrp _ hd hother _ ih₁ ih₂ ih₃ =>
    obtain ⟨ks, hk, h₃⟩ := ih₃ us hq
    cases hk
    obtain ⟨ms, hm, h₂⟩ := ih₂ (_ :: ks) rfl
    cases hm
    obtain ⟨ts, ht, h₁⟩ := ih₁ (_ :: ms) rfl
    cases ht
    exact ⟨_ :: _ :: ts, rfl, .branches hkey hlp h₁ hrp h₂ hd hother h₃⟩
  | printStatement hkey _ hfinish ih =>
    cases hq
    obtain ⟨ts, ht, h⟩ := ih (_ :: us) rfl
    cases ht
    exact ⟨_ :: ts, rfl, .printStatement hkey h hfinish⟩
  | returnWithout hkey hfinish =>
    cases hq
    exact ⟨_ :: _ :: us, rfl, .returnWithout hkey hfinish⟩
  | returnWith hkey _ hfinish ih =>
    cases hq
    obtain ⟨ts, ht, h⟩ := ih (_ :: us) rfl
    cases ht
    exact ⟨_ :: ts, rfl, .returnWith hkey h hfinish⟩
  | whileStatement hkey hlp _ hrp _ ih₁ ih₂ =>
    obtain ⟨ms, hm, h₂⟩ := ih₂ us hq
    cases hm
    obtain ⟨ts, ht, h₁⟩ := ih₁ (_ :: ms) rfl
    cases ht
    exact ⟨_ :: _ :: ts, rfl, .whileStatement hkey hlp h₁ hrp h₂⟩
  | breakStatement hkey hfinish =>
    cases hq
    exact ⟨_ :: _ :: us, rfl, .breakStatement hkey hfinish⟩
  | block hopening _ hclosing ih =>
    cases hq
    obtain ⟨ts, ht, h⟩ := ih (_ :: us) rfl
    cases ht
    exact ⟨_ :: ts, rfl, .block hopening h hclosing⟩
  | functionStatement hkey hname _ ih =>
    obtain ⟨ts, ht, h⟩ := ih us hq
    cases ht
    exact ⟨_ :: _ :: ts, rfl, .functionStatement hkey hname h⟩
  | expressionStatement _ hfinish ih =>
    cases hq
    obtain ⟨ts, ht, h⟩ := ih (_ :: us) rfl
    exact ⟨ts, ht, .expressionStatement h hfinish⟩
  | noInitializer hfinish =>
    cases hq
    exact ⟨_ :: us, rfl, .noInitializer hfinish⟩
  | variableInitializer hkey _ ih =>
    obtain ⟨ts, ht, h⟩ := ih us hq
    cases ht
    exact ⟨_ :: ts, rfl, .variableInitializer hkey h⟩
  | expressionInitializer _ hfinish ih =>
    cases hq
    obtain ⟨ts, ht, h⟩ := ih (_ :: us) rfl
    exact ⟨ts, ht, .expressionInitializer h hfinish⟩
  | someList _ ih =>
    obtain ⟨ts, ht, h⟩ := ih us hq
    exact ⟨ts, ht, .someList h⟩
  | single _ ih =>
    obtain ⟨ts, ht, h⟩ := ih us hq
    exact ⟨ts, ht, .single h⟩
  | comma _ hop _ ih₁ ih₂ =>
    obtain ⟨ms, hm, h₂⟩ := ih₂ us hq
    cases hm
    obtain ⟨ts, ht, h₁⟩ := ih₁ (_ :: ms) rfl
    exact ⟨ts, ht, .comma h₁ hop h₂⟩
  | unconditional _ ih =>
    obtain ⟨ts, ht, h⟩ := ih us hq
    exact ⟨ts, ht, .unconditional h⟩
  | ternary _ hquestion _ hcolon _ ih₁ ih₂ ih₃ =>
    obtain ⟨ks, hk, h₃⟩ := ih₃ us hq
    cases hk
    obtain ⟨ms, hm, h₂⟩ := ih₂ (_ :: ks) rfl
    cases hm
    obtain ⟨ts, ht, h₁⟩ := ih₁ (_ :: ms) rfl
    exact ⟨ts, ht, .ternary h₁ hquestion h₂ hcolon h₃⟩
  | nameAssignment hname hequals _ ih =>
    obtain ⟨ts, ht, h⟩ := ih us hq
    cases ht
    exact ⟨_ :: _ :: ts, rfl, .nameAssignment hname hequals h⟩
  | propertyAssignment _ hdot hname hequals _ ih₁ ih₂ =>
    obtain ⟨ms, hm, h₂⟩ := ih₂ us hq
    cases hm
    obtain ⟨ts, ht, h₁⟩ := ih₁ (_ :: _ :: _ :: ms) rfl
    exact ⟨ts, ht, .propertyAssignment h₁ hdot hname hequals h₂⟩
  | noAssignment _ ih =>
    obtain ⟨ts, ht, h⟩ := ih us hq
    exact ⟨ts, ht, .noAssignment h⟩
  | tighter _ ih =>
    obtain ⟨ts, ht, h⟩ := ih us hq
    exact ⟨ts, ht, .tighter h⟩
  | operation _ hop _ ih₁ ih₂ =>
    obtain ⟨ms, hm, h₂⟩ := ih₂ us hq
    cases hm
    obtain ⟨ts, ht, h₁⟩ := ih₁ (_ :: ms) rfl
    exact ⟨ts, ht, .operation h₁ hop h₂⟩
  | tightest _ ih =>
    obtain ⟨ts, ht, h⟩ := ih us hq
    exact ⟨ts, ht, .tightest h⟩
  | unaryOperation hop _ ih =>
    obtain ⟨ts, ht, h⟩ := ih us hq
    cases ht
    exact ⟨_ :: ts, rfl, .unaryOperation hop h⟩
  | noOperation _ ih =>
    obtain ⟨ts, ht, h⟩ := ih us hq
    exact ⟨ts, ht, .noOperation h⟩
  | noCall _ ih =>
    obtain ⟨ts, ht, h⟩ := ih us hq
    exact ⟨ts, ht, .noCall h⟩
  | callWithout _ hlp hrp ih =>
    cases hq
    obtain ⟨ts, ht, h⟩ := ih (_ :: _ :: us) rfl
    exact ⟨ts, ht, .callWithout h hlp hrp⟩
  | callWith _ hlp _ hlimit hrp ih₁ ih₂ =>
    cases hq
    obtain ⟨ms, hm, h₂⟩ := ih₂ (_ :: us) rfl
    cases hm
    obtain ⟨ts, ht, h₁⟩ := ih₁ (_ :: ms) rfl
    exact ⟨ts, ht, .callWith h₁ hlp h₂ hlimit hrp⟩
  | property _ hdot hname ih =>
    cases hq
    obtain ⟨ts, ht, h⟩ := ih (_ :: _ :: us) rfl
    exact ⟨ts, ht, .property h hdot hname⟩
  | lastArgument _ ih =>
    obtain ⟨ts, ht, h⟩ := ih us hq
    exact ⟨ts, ht, .lastArgument h⟩
  | moreArguments _ hcomma _ ih₁ ih₂ =>
    obtain ⟨ms, hm, h₂⟩ := ih₂ us hq
    cases hm
    obtain ⟨ts, ht, h₁⟩ := ih₁ (_ :: ms) rfl
    exact ⟨ts, ht, .moreArguments h₁ hcomma h₂⟩
  | falsity hkey =>
    cases hq
    exact ⟨_ :: us, rfl, .falsity hkey⟩
  | truth hkey =>
    cases hq
    exact ⟨_ :: us, rfl, .truth hkey⟩
  | absence hkey =>
    cases hq
    exact ⟨_ :: us, rfl, .absence hkey⟩
  | literal htoken =>
    cases hq
    exact ⟨_ :: us, rfl, .literal htoken⟩
  | reference hname =>
    cases hq
    exact ⟨_ :: us, rfl, .reference hname⟩
  | self hkey =>
    cases hq
    exact ⟨_ :: us, rfl, .self hkey⟩
  | function hkey _ ih =>
    obtain ⟨ts, ht, h⟩ := ih us hq
    cases ht
    exact ⟨_ :: ts, rfl, .function hkey h⟩
  | grouping hlp _ hrp ih =>
    cases hq
    obtain ⟨ts, ht, h⟩ := ih (_ :: us) rfl
    cases ht
    exact ⟨_ :: ts, rfl, .grouping hlp h hrp⟩

/-- The tokens that a derivation leaves may be replaced by others. -/
theorem derives_replace_tail {symbol : Symbol} {v : symbol.Tree} {ts tail : List Token}
    {n m : ReferenceId} (h : Derives c symbol ⟨ts ++ tail, n⟩ v ⟨tail, m⟩) (tail' : List Token) :
    Derives c symbol ⟨ts ++ tail', n⟩ v ⟨tail', m⟩ := by
  obtain ⟨ts', ht, h⟩ := derives_replace h tail tail' [] rfl
  obtain rfl := List.append_cancel_right ht
  exact h

/-- Declarations one after the other. -/
theorem derives_append {inLoop : Bool} {p q r : Point} {first second : List Stmt}
    (h₁ : Derives c (.declarations inLoop) p first q)
    (h₂ : Derives c (.declarations inLoop) q second r) :
    Derives c (.declarations inLoop) p (first ++ second) r := by
  induction first generalizing p with
  | nil =>
    cases h₁
    exact h₂
  | cons s rest ih =>
    cases h₁ with
    | moreDeclarations h h₁ => exact .moreDeclarations h (ih h₁)

/-- Two rows of words, each of which is a program if an end mark follows, are the programs one
after the other. -/
theorem Program.ofTokens_append {words words' : List Token} {finish finish' : Token}
    {firstId nextId lastId : ReferenceId} {found found' : List Stmt}
    (hfinish : finish'.kind = .endOfInput)
    (h₁ : Derives .standard (.declarations false) ⟨words ++ [finish], firstId⟩ found
      ⟨[finish], nextId⟩)
    (h₂ : Derives .standard (.declarations false) ⟨words' ++ [finish'], nextId⟩ found'
      ⟨[finish'], lastId⟩) :
    Program.ofTokens (words ++ (words' ++ [finish'])) firstId =
      { statements := found ++ found', nextId := lastId, diagnostics := [] } := by
  exact ofTokens_of_derives hfinish
    (derives_append (derives_replace_tail h₁ (words' ++ [finish'])) h₂)

end TreeScript
