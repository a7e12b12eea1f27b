import TreeScript.Proofs.Parsing.Derivation
import TreeScript.Proofs.Parsing.Progress

/-!
# What is parsed without a fault is derived

* `ParseState.Quiet` — no diagnostic was added
* `SoundAt` — what each rule of the grammar derives if it succeeds quietly
* `sound` — all rules are sound, whichever branch an `else` may belong to
* `declarations_sound` — so are the declarations of a program

Diagnostics only grow, so a rule that was quiet as a whole was quiet in each of its
steps.
-/

namespace TreeScript

namespace ParseState

/-- No diagnostic was added between two states. -/
@[reducible]
def Quiet (before after : ParseState) : Prop :=
  after.diagnostics.length ≤ before.diagnostics.length

/-- Whether a loop of the present function surrounds the next token. -/
def inLoop (s : ParseState) : Bool :=
  s.loopDepth != 0

/-- The kind of the next token. -/
def nextKind (s : ParseState) : TokenKind :=
  (s.rest.headD (Token.finish 1)).kind

/-- The second state is the first one behind a token. -/
structure Takes (before : ParseState) (token : Token) (after : ParseState) : Prop where
  rest : before.rest = token :: after.rest
  ids : after.nextId = before.nextId
  loops : after.loopDepth = before.loopDepth
  faults : after.diagnostics = before.diagnostics

namespace Takes

variable {s t : ParseState} {token : Token}

theorem point (h : s.Takes token t) : s.point = ⟨token :: t.rest, t.nextId⟩ := by
  rw [ParseState.point, h.rest, h.ids]

theorem inLoop (h : s.Takes token t) : t.inLoop = s.inLoop := by
  rw [ParseState.inLoop, ParseState.inLoop, h.loops]

theorem faults_eq (h : s.Takes token t) :
    t.diagnostics.length = s.diagnostics.length := by
  rw [h.faults]

theorem next_eq (h : s.Takes token t) : s.nextKind = token.kind := by
  rw [ParseState.nextKind, h.rest, List.headD_cons]

theorem drop_one (h : s.nextKind ≠ .endOfInput) :
    s.Takes (s.rest.headD (Token.finish 1)) { s with rest := s.rest.drop 1 } := by
  refine ⟨?_, rfl, rfl, rfl⟩
  cases hr : s.rest with
  | nil => rw [nextKind, hr] at h; exact absurd rfl h
  | cons t ts => rfl

end Takes

end ParseState

/-- Whether an expression is made by an operator. -/
def Expr.isOperation : Expr → Bool
  | .unary .. | .binary .. | .logical .. => true
  | _ => false

namespace Parse

variable {α β : Type} {s t r : ParseState}

/-! ## What a success says about its steps -/

theorem bind_eq_ok {first : Parse α} {next : α → Parse β} {b : β} :
    (first >>= next) s = .ok b t ↔ ∃ a r, first s = .ok a r ∧ next a r = .ok b t := by
  show Parse.bind first next s = .ok b t ↔ _
  unfold Parse.bind
  cases first s with
  | ok a r =>
    constructor
    · intro h
      exact ⟨a, r, rfl, h⟩
    · rintro ⟨a', r', h, h'⟩
      cases h
      exact h'
  | failed r => simp
  | outOfFuel => simp

theorem pure_eq_ok {a b : α} : (Pure.pure a : Parse α) s = .ok b t ↔ a = b ∧ s = t := by
  show Reply.ok a s = .ok b t ↔ _
  simp

theorem expect_ok {slot : Slot} {token : Token} (h : expect slot s = .ok token t) :
    s.Takes token t ∧ token.kind = slot.kind := by
  rw [expect_eq] at h
  split at h
  · rename_i hk
    cases h
    exact ⟨.drop_one (by rw [ParseState.nextKind, hk]; exact slot.kind_ne_endOfInput), hk⟩
  · cases h

theorem accept?_ok {kinds : List TokenKind} (hk : .endOfInput ∉ kinds)
    {found : Option Token} (h : accept? kinds s = .ok found t) :
    (∃ token, found = some token ∧ s.Takes token t ∧ token.kind ∈ kinds) ∨
      found = none ∧ t = s ∧ s.nextKind ∉ kinds := by
  rw [accept?_eq] at h
  split at h
  · rename_i hm
    cases h
    exact .inl ⟨_, rfl, .drop_one fun he => hk (he ▸ hm), hm⟩
  · rename_i hm
    cases h
    exact .inr ⟨rfl, rfl, hm⟩

theorem unlessNext_ok {kind : TokenKind} {step : Parse α} {found : Option α}
    (h : unlessNext kind step s = .ok found t) :
    (∃ a, found = some a ∧ step s = .ok a t) ∨ found = none ∧ t = s ∧ s.nextKind = kind := by
  rw [unlessNext, peekKind_bind] at h
  split at h
  · rename_i hk
    obtain ⟨rfl, rfl⟩ := pure_eq_ok.1 h
    exact .inr ⟨rfl, rfl, hk⟩
  · obtain ⟨a, r, hs, he⟩ := bind_eq_ok.1 h
    obtain ⟨rfl, rfl⟩ := pure_eq_ok.1 he
    exact .inl ⟨a, rfl, hs⟩

theorem ifNext_ok {kind : TokenKind} (hk : kind ≠ .endOfInput) {step : Parse α}
    {found : Option α} (h : ifNext kind step s = .ok found t) :
    (∃ token r a, s.Takes token r ∧ token.kind = kind ∧ found = some a ∧ step r = .ok a t) ∨
      found = none ∧ t = s ∧ s.nextKind ≠ kind := by
  rw [ifNext] at h
  obtain ⟨o, r, ho, hn⟩ := bind_eq_ok.1 h
  rcases accept?_ok (by simpa using hk.symm) ho with ⟨token, rfl, ht, hm⟩ | ⟨rfl, rfl, hm⟩
  · obtain ⟨a, u, hs, he⟩ := bind_eq_ok.1 hn
    obtain ⟨rfl, rfl⟩ := pure_eq_ok.1 he
    exact .inl ⟨token, r, a, ht, by simpa using hm, rfl, hs⟩
  · obtain ⟨rfl, rfl⟩ := pure_eq_ok.1 hn
    exact .inr ⟨rfl, rfl, by simpa using hm⟩

theorem limit_ok {count : Nat} {fault : GrammarFault} {a : Unit}
    (h : limit count fault s = .ok a t) (hq : s.Quiet t) : t = s ∧ count < maxArguments := by
  unfold limit at h
  split at h
  · cases h
    exact absurd hq (by simp [ParseState.Quiet])
  · rename_i hc
    obtain ⟨-, rfl⟩ := pure_eq_ok.1 h
    exact ⟨rfl, Nat.lt_of_not_le hc⟩

theorem requireLoop_ok {token : Token} {a : Unit} (h : requireLoop token s = .ok a t)
    (hq : s.Quiet t) : t = s ∧ s.inLoop = true := by
  change ((if s.loopDepth = 0 then _ else _ : Parse Unit) s) = _ at h
  split at h
  · cases h
    exact absurd hq (by simp [ParseState.Quiet])
  · rename_i hl
    obtain ⟨-, rfl⟩ := pure_eq_ok.1 h
    exact ⟨rfl, by simpa [ParseState.inLoop] using hl⟩

theorem atLoopDepth_ok {depth : Nat → Nat} {step : Parse α} {a : α}
    (h : atLoopDepth depth step s = .ok a t) :
    ∃ r, step { s with loopDepth := depth s.loopDepth } = .ok a r ∧
      r.rest = t.rest ∧ r.nextId = t.nextId ∧ r.diagnostics = t.diagnostics := by
  unfold atLoopDepth at h
  split at h
  · rename_i r hr
    cases h
    exact ⟨r, hr, rfl, rfl, rfl⟩
  · cases h
  · cases h

/-- A rule that succeeds grows its state. -/
theorem Ranked.grows {fuel rank used : Nat} {step : Parse α} (h : Ranked fuel rank used step)
    {a : α} (hs : step s = .ok a t) : s.Grows t := by
  have := h s
  rw [hs] at this
  exact this.grows

theorem Ranked.grows_unlessNext {fuel rank used : Nat} {step : Parse α}
    (h : Ranked fuel rank used step) {kind : TokenKind} {found : Option α}
    (hs : unlessNext kind step s = .ok found t) : s.Grows t := by
  rcases unlessNext_ok hs with ⟨a, -, ha⟩ | ⟨-, rfl, -⟩
  · exact h.grows ha
  · exact .refl t

/-! ## Rules -/

/-- What a step says about its value if it succeeds without a fault. -/
def Yields (step : Parse α) (said : ParseState → α → ParseState → Prop) : Prop :=
  ∀ s t v, step s = .ok v t → s.Quiet t → said s v t

/-- A statement is derived, and dangles only if no `else` follows. -/
def Stands (c : Convention) (inLoop : Bool) (p : Point) (v : Stmt) (t : ParseState) : Prop :=
  ∃ d, Derives c (.statement inLoop d) p v t.point ∧
    (d = true → t.nextKind ≠ .elseKeyword)

/-- All rules are sound at one amount of fuel.  A rule that runs behind a keyword
derives a tree that starts at the keyword; one that runs behind an operand extends
the derivation of the operand. -/
structure SoundAt (c : Convention) (fuel : Nat) : Prop where
  parameters : ∀ count, Yields (parameters fuel count) fun s v t =>
    Derives c .parameters s.point v t.point ∧ count + v.length ≤ maxArguments
  declaration : Yields (declaration fuel) fun s v t =>
    ∃ d, v = some d ∧ Derives c (.declaration s.inLoop) s.point d t.point
  declarationOrFail : Yields (declarationOrFail fuel) fun s v t =>
    Derives c (.declaration s.inLoop) s.point v t.point
  declarations : ∀ inBlock, Yields (declarations fuel inBlock) fun s v t =>
    Derives c (.declarations s.inLoop) s.point v t.point ∧
      (inBlock = false → t.nextKind = .endOfInput)
  classDeclaration : Yields (classDeclaration fuel) fun s v t =>
    ∀ l keyword, keyword.kind = .classKeyword →
      Derives c (.declaration l) ⟨keyword :: s.rest, s.nextId⟩ v t.point
  methods : Yields (methods fuel) fun s v t =>
    Derives c .methods s.point v t.point
  namedFunction : ∀ role, Yields (namedFunction fuel role) fun s v t =>
    ∃ name ts, s.rest = name :: ts ∧ name.kind = .identifier ∧ v.name = some name ∧
      Derives c .function ⟨ts, s.nextId⟩ (v.parameters, v.body) t.point
  functionRest : ∀ name role, Yields (functionRest fuel name role) fun s v t =>
    v.name = name ∧ Derives c .function s.point (v.parameters, v.body) t.point
  varDeclaration : Yields (varDeclaration fuel) fun s v t =>
    Derives c .variable s.point v t.point
  statement : Yields (statement fuel) fun s v t => Stands c s.inLoop s.point v t
  forStatement : Yields (forStatement fuel) fun s v t =>
    ∀ keyword, keyword.kind = .forKeyword →
      Stands c s.inLoop ⟨keyword :: s.rest, s.nextId⟩ v t
  forInitializer : Yields (forInitializer fuel) fun s v t =>
    Derives c .initializer s.point v t.point
  ifStatement : Yields (ifStatement fuel) fun s v t =>
    ∀ keyword, keyword.kind = .ifKeyword →
      Stands c s.inLoop ⟨keyword :: s.rest, s.nextId⟩ v t
  whileStatement : Yields (whileStatement fuel) fun s v t =>
    ∀ keyword, keyword.kind = .whileKeyword →
      Stands c s.inLoop ⟨keyword :: s.rest, s.nextId⟩ v t
  blockRest : Yields (blockRest fuel) fun s v t =>
    ∃ closing, closing.kind = .rightBrace ∧
      Derives c (.declarations s.inLoop) s.point v ⟨closing :: t.rest, t.nextId⟩
  expressionStatement : Yields (expressionStatement fuel) fun s v t =>
    ∃ value finish, v = .expression value ∧ finish.kind = .semicolon ∧
      Derives c .list s.point value ⟨finish :: t.rest, t.nextId⟩
  expressionList : Yields (expressionList fuel) fun s v t =>
    Derives c .list s.point v t.point
  expressionListRest : ∀ left, Yields (expressionListRest fuel left) fun s v t =>
    ∀ p, Derives c .list p left s.point → Derives c .list p v t.point
  conditional : Yields (conditional fuel) fun s v t =>
    Derives c .conditional s.point v t.point
  assignment : Yields (assignment fuel) fun s v t =>
    Derives c .assignment s.point v t.point
  binaryLevels : ∀ ls, ls <:+ levels → Yields (binaryLevels fuel ls) fun s v t =>
    Derives c (.level ls) s.point v t.point
  binaryRest : ∀ level tighter left, level :: tighter <:+ levels →
    Yields (binaryRest fuel level tighter left) fun s v t =>
      ∀ p, Derives c (.level (level :: tighter)) p left s.point →
        Derives c (.level (level :: tighter)) p v t.point
  unary : Yields (unary fuel) fun s v t => Derives c .unary s.point v t.point
  callRest : ∀ callee, Yields (callRest fuel callee) fun s v t =>
    ∀ p, Derives c .call p callee s.point → Derives c .call p v t.point
  arguments : ∀ count, Yields (arguments fuel count) fun s v t =>
    Derives c .arguments s.point v t.point ∧ count + v.length ≤ maxArguments
  primary : Yields (primary fuel) fun s v t =>
    Derives c .primary s.point v t.point

/-- Without fuel no step succeeds. -/
theorem yields_stuck {said : ParseState → α → ParseState → Prop} :
    Yields (stuck : Parse α) said :=
  fun _ _ _ h => by cases h

theorem soundAt_zero {c : Convention} : SoundAt c 0 where
  parameters _ := by rw [parameters]; exact yields_stuck
  declaration := by rw [declaration]; exact yields_stuck
  declarationOrFail := by rw [declarationOrFail]; exact yields_stuck
  declarations _ := by rw [declarations]; exact yields_stuck
  classDeclaration := by rw [classDeclaration]; exact yields_stuck
  methods := by rw [methods]; exact yields_stuck
  namedFunction _ := by rw [namedFunction]; exact yields_stuck
  functionRest _ _ := by rw [functionRest]; exact yields_stuck
  varDeclaration := by rw [varDeclaration]; exact yields_stuck
  statement := by rw [statement]; exact yields_stuck
  forStatement := by rw [forStatement]; exact yields_stuck
  forInitializer := by rw [forInitializer]; exact yields_stuck
  ifStatement := by rw [ifStatement]; exact yields_stuck
  whileStatement := by rw [whileStatement]; exact yields_stuck
  blockRest := by rw [blockRest]; exact yields_stuck
  expressionStatement := by rw [expressionStatement]; exact yields_stuck
  expressionList := by rw [expressionList]; exact yields_stuck
  expressionListRest _ := by rw [expressionListRest]; exact yields_stuck
  conditional := by rw [conditional]; exact yields_stuck
  assignment := by rw [assignment]; exact yields_stuck
  binaryLevels _ _ := by rw [binaryLevels]; exact yields_stuck
  binaryRest _ _ _ _ := by rw [binaryRest]; exact yields_stuck
  unary := by rw [unary]; exact yields_stuck
  callRest _ := by rw [callRest]; exact yields_stuck
  arguments _ := by rw [arguments]; exact yields_stuck
  primary := by rw [primary]; exact yields_stuck

namespace SoundAt

variable {c : Convention} {fuel : Nat}

/-! ### Declarations -/

theorem parameters_step (ih : SoundAt c fuel) (count : Nat) :
    Yields (Parse.parameters (fuel + 1) count) fun s v t =>
      Derives c .parameters s.point v t.point ∧ count + v.length ≤ maxArguments := by
  intro s t v h hq
  rw [Parse.parameters] at h
  simp only [bind_eq_ok] at h
  obtain ⟨_, r, hl, name, u, hn, o, w, hc, h⟩ := h
  obtain ⟨hu, hk⟩ := expect_ok hn
  have fu := hu.faults_eq
  rcases accept?_ok (by decide) hc with ⟨comma, rfl, hw, hm⟩ | ⟨rfl, rfl, -⟩
  · simp only [bind_eq_ok, pure_eq_ok] at h
    obtain ⟨names, x, hx, rfl, rfl⟩ := h
    have fx := (((orderly fuel).parameters (count + 1)).grows hx).faults_le
    have fw := hw.faults_eq
    obtain ⟨rfl, hlt⟩ := limit_ok hl (by omega)
    obtain ⟨hd, hle⟩ := ih.parameters (count + 1) _ _ _ hx (by omega)
    refine ⟨?_, by rw [List.length_cons]; omega⟩
    rw [hu.point, hw.rest, ← hw.ids]
    exact .moreParameters hk (by simpa using hm) hd
  · obtain ⟨rfl, rfl⟩ := pure_eq_ok.1 h
    obtain ⟨rfl, hlt⟩ := limit_ok hl (by omega)
    refine ⟨?_, hlt⟩
    rw [hu.point]
    exact .lastParameter hk

theorem declaration_step (ih : SoundAt c fuel) :
    Yields (Parse.declaration (fuel + 1)) fun s v t =>
      ∃ d, v = some d ∧ Derives c (.declaration s.inLoop) s.point d t.point := by
  intro s t v h hq
  rw [Parse.declaration, recover] at h
  split at h <;> rename_i hd
  · cases h
    exact ⟨_, rfl, ih.declarationOrFail _ _ _ hd hq⟩
  · -- a rule fails only at a new diagnostic
    have ho := (orderly fuel).declarationOrFail s
    rw [hd] at ho
    cases h
    exact absurd ho.2 (Nat.not_lt.2 hq)
  · cases h

theorem declarationOrFail_step (ih : SoundAt c fuel) :
    Yields (Parse.declarationOrFail (fuel + 1)) fun s v t =>
      Derives c (.declaration s.inLoop) s.point v t.point := by
  intro s t v h hq
  rw [Parse.declarationOrFail, peekKind_bind] at h
  generalize hk : (s.rest.headD (Token.finish 1)).kind = kind at h
  split at h
  · have hu := ParseState.Takes.drop_one (s := s) (by rw [ParseState.nextKind, hk]; decide)
    rw [hu.point]
    exact ih.classDeclaration _ _ _ h hq _ _ hk
  · have hu := ParseState.Takes.drop_one (s := s) (by rw [ParseState.nextKind, hk]; decide)
    rw [hu.point]
    exact .variableDeclaration hk (ih.varDeclaration _ _ _ h hq)
  · obtain ⟨d, hd, -⟩ := ih.statement _ _ _ h hq
    exact .plainStatement hd

theorem declarations_step (ih : SoundAt c fuel) (inBlock : Bool) :
    Yields (Parse.declarations (fuel + 1) inBlock) fun s v t =>
      Derives c (.declarations s.inLoop) s.point v t.point ∧
        (inBlock = false → t.nextKind = .endOfInput) := by
  intro s t v h hq
  rw [Parse.declarations, peekKind_bind] at h
  split at h
  · rename_i hk
    obtain ⟨rfl, rfl⟩ := pure_eq_ok.1 h
    refine ⟨.noDeclaration, fun hb => ?_⟩
    rcases hk with hk | ⟨hb', -⟩
    · exact hk
    · rw [hb] at hb'
      cases hb'
  · rename_i hk
    simp only [bind_eq_ok, pure_eq_ok] at h
    obtain ⟨o, r, ho, rest, u, hr, rfl, rfl⟩ := h
    have gu := ((orderly fuel).declarations inBlock).grows hr
    have gr : s.Grows r := by
      have := (orderly fuel).declaration s fun he => hk (.inl he)
      rw [ho] at this
      exact this.grows
    have fu := gu.faults_le
    have fr := gr.faults_le
    obtain ⟨d, rfl, hd⟩ := ih.declaration _ _ _ ho (by omega)
    obtain ⟨hs, he⟩ := ih.declarations inBlock _ _ _ hr (by omega)
    rw [ParseState.inLoop, gr.loops] at hs
    exact ⟨.moreDeclarations hd hs, he⟩

theorem classDeclaration_step (ih : SoundAt c fuel) :
    Yields (Parse.classDeclaration (fuel + 1)) fun s v t =>
      ∀ l keyword, keyword.kind = .classKeyword →
        Derives c (.declaration l) ⟨keyword :: s.rest, s.nextId⟩ v t.point := by
  intro s t v h hq l keyword hkey
  rw [Parse.classDeclaration] at h
  simp only [bind_eq_ok, pure_eq_ok] at h
  obtain ⟨name, r, hn, opening, u, ho, found, w, hf, closing, x, hc, rfl, rfl⟩ := h
  obtain ⟨hr, hnk⟩ := expect_ok hn
  obtain ⟨hu, hok⟩ := expect_ok ho
  obtain ⟨hx, hck⟩ := expect_ok hc
  have fr := hr.faults_eq
  have fu := hu.faults_eq
  have fx := hx.faults_eq
  have hd := ih.methods _ _ _ hf (by omega)
  simp only [hx.point] at hd
  rw [hr.rest, ← hr.ids, hu.rest, ← hu.ids]
  exact .classDeclaration hkey hnk hok hd hck

theorem methods_step (hc : c.namedMethods = true) (ih : SoundAt c fuel) :
    Yields (Parse.methods (fuel + 1)) fun s v t =>
      Derives c .methods s.point v t.point := by
  intro s t v h hq
  rw [Parse.methods, peekKind_bind] at h
  split at h
  · obtain ⟨rfl, rfl⟩ := pure_eq_ok.1 h
    exact .noMethod
  · simp only [bind_eq_ok, pure_eq_ok] at h
    obtain ⟨first, r, hf, rest, u, hr, rfl, rfl⟩ := h
    have ff := (((orderly fuel).namedFunction .method).grows hf).faults_le
    have fr := ((orderly fuel).methods.grows hr).faults_le
    obtain ⟨name, ts, hts, hk, hn, hd⟩ := ih.namedFunction .method _ _ _ hf (by omega)
    have hm := ih.methods _ _ _ hr (by omega)
    obtain ⟨_, parameters, body⟩ := first
    cases hn
    rw [ParseState.point, hts]
    exact .namedMethod hc hk hd hm

theorem namedFunction_step (ih : SoundAt c fuel) (role : FunctionRole) :
    Yields (Parse.namedFunction (fuel + 1) role) fun s v t =>
      ∃ name ts, s.rest = name :: ts ∧ name.kind = .identifier ∧ v.name = some name ∧
        Derives c .function ⟨ts, s.nextId⟩ (v.parameters, v.body) t.point := by
  intro s t v h hq
  rw [Parse.namedFunction] at h
  simp only [bind_eq_ok] at h
  obtain ⟨name, r, hn, h⟩ := h
  obtain ⟨hr, hk⟩ := expect_ok hn
  have fr := hr.faults_eq
  obtain ⟨hname, hd⟩ := ih.functionRest _ _ _ _ _ h (by omega)
  rw [← hr.ids]
  exact ⟨name, r.rest, hr.rest, hk, hname, hd⟩

theorem functionRest_step (ih : SoundAt c fuel) (name : Option Token) (role : FunctionRole) :
    Yields (Parse.functionRest (fuel + 1) name role) fun s v t =>
      v.name = name ∧
        Derives c .function s.point (v.parameters, v.body) t.point := by
  intro s t v h hq
  rw [Parse.functionRest] at h
  simp only [bind_eq_ok, pure_eq_ok] at h
  obtain ⟨lp, r, hlp, names, u, hn, rp, w, hrp, lb, x, hlb, body, y, hb, rfl, rfl⟩ := h
  refine ⟨rfl, ?_⟩
  obtain ⟨hr, hlpk⟩ := expect_ok hlp
  obtain ⟨hw, hrpk⟩ := expect_ok hrp
  obtain ⟨hx, hlbk⟩ := expect_ok hlb
  obtain ⟨z, hz, hzr, hzi, hzd⟩ := atLoopDepth_ok hb
  have fr := hr.faults_eq
  have fw := hw.faults_eq
  have fx := hx.faults_eq
  have fu := (((orderly fuel).parameters 0).grows_unlessNext hn).faults_le
  have fz := ((orderly fuel).blockRest.grows hz).faults_le
  rw [hzd] at fz
  simp only at fz
  obtain ⟨rb, hrbk, hbody⟩ := ih.blockRest _ _ _ hz
    (by rw [ParseState.Quiet, hzd]; simp only; omega)
  rw [hzr, hzi] at hbody
  rcases unlessNext_ok hn with ⟨ns, rfl, hns⟩ | ⟨rfl, rfl, -⟩
  · obtain ⟨hd, hle⟩ := ih.parameters 0 _ _ _ hns (by omega)
    rw [hw.point, hx.rest, ← hx.ids] at hd
    simp only [Nat.zero_add] at hle
    rw [hr.point]
    exact .functionWith hlpk hd hle hrpk hlbk hbody hrbk
  · rw [hr.point, hw.rest, ← hw.ids, hx.rest, ← hx.ids]
    exact .functionWithout hlpk hrpk hlbk hbody hrbk

theorem varDeclaration_step (ih : SoundAt c fuel) :
    Yields (Parse.varDeclaration (fuel + 1)) fun s v t =>
      Derives c .variable s.point v t.point := by
  intro s t v h hq
  rw [Parse.varDeclaration] at h
  simp only [bind_eq_ok, pure_eq_ok] at h
  obtain ⟨name, r, hn, value, u, hv, finish, w, hf, rfl, rfl⟩ := h
  obtain ⟨hr, hnk⟩ := expect_ok hn
  obtain ⟨hw, hfk⟩ := expect_ok hf
  have fr := hr.faults_eq
  have fw := hw.faults_eq
  rw [hr.point]
  rcases ifNext_ok (by decide) hv with ⟨equals, x, e, hx, hek, rfl, he⟩ | ⟨rfl, rfl, -⟩
  · have fx := hx.faults_eq
    have hd := ih.conditional _ _ _ he (by omega)
    simp only [hw.point] at hd
    rw [hx.rest, ← hx.ids]
    exact .variableWith hnk hek hd hfk
  · rw [hw.rest, ← hw.ids]
    exact .variableWithout hnk hfk

/-! ### Statements -/

theorem statement_step (ih : SoundAt c fuel) :
    Yields (Parse.statement (fuel + 1)) fun s v t => Stands c s.inLoop s.point v t := by
  intro s t v h hq
  rw [Parse.statement, peek_bind] at h
  generalize hn : s.rest.headD (Token.finish 1) = token at h
  generalize hk : token.kind = kind at h
  have hnext : s.nextKind = kind := by rw [ParseState.nextKind, hn, hk]
  -- every keyword is a token that is there
  have hu : kind ≠ .endOfInput → s.Takes token { s with rest := s.rest.drop 1 } :=
    fun he => hn ▸ .drop_one (hnext ▸ he)
  split at h
  all_goals try
    replace hu := hu (by decide)
    have fu := hu.faults_eq
    rw [advance_bind] at h
    rw [hu.point]
  · exact ih.forStatement _ _ _ h hq _ hk
  · exact ih.ifStatement _ _ _ h hq _ hk
  · simp only [bind_eq_ok, pure_eq_ok] at h
    obtain ⟨value, r, hv, finish, w, hf, rfl, rfl⟩ := h
    obtain ⟨hw, hfk⟩ := expect_ok hf
    have fw := hw.faults_eq
    have hd := ih.expressionList _ _ _ hv (by omega)
    simp only [hw.point] at hd
    exact ⟨false, .printStatement hk hd hfk, by simp⟩
  · simp only [bind_eq_ok, pure_eq_ok] at h
    obtain ⟨value, r, hv, finish, w, hf, rfl, rfl⟩ := h
    obtain ⟨hw, hfk⟩ := expect_ok hf
    have fw := hw.faults_eq
    rcases unlessNext_ok hv with ⟨e, rfl, he⟩ | ⟨rfl, rfl, -⟩
    · have hd := ih.conditional _ _ _ he (by omega)
      simp only [hw.point] at hd
      exact ⟨false, .returnWith hk hd hfk, by simp⟩
    · rw [hw.rest, ← hw.ids]
      exact ⟨false, .returnWithout hk hfk, by simp⟩
  · exact ih.whileStatement _ _ _ h hq _ hk
  · simp only [bind_eq_ok, pure_eq_ok] at h
    obtain ⟨_, r, hl, finish, w, hf, rfl, rfl⟩ := h
    obtain ⟨hw, hfk⟩ := expect_ok hf
    have fw := hw.faults_eq
    obtain ⟨rfl, hin⟩ := requireLoop_ok hl (by omega)
    rw [show s.inLoop = true from hin, hw.rest, ← hw.ids]
    exact ⟨false, .breakStatement hk hfk, by simp⟩
  · simp only [bind_eq_ok, pure_eq_ok] at h
    obtain ⟨body, r, hb, rfl, rfl⟩ := h
    obtain ⟨closing, hck, hd⟩ := ih.blockRest _ _ _ hb hq
    exact ⟨false, .block hk hd hck, by simp⟩
  · rw [kindAfterNext?_bind] at h
    split at h
    · replace hu := hu (by decide)
      simp only [advance_bind, bind_eq_ok, pure_eq_ok] at h
      obtain ⟨decl, r, hd, rfl, rfl⟩ := h
      obtain ⟨name, ts, hts, hnk, hname, hf⟩ := ih.namedFunction _ _ _ _ hd hq
      obtain ⟨_, parameters, body⟩ := decl
      cases hname
      rw [hu.point, hts]
      exact ⟨false, .functionStatement hk hnk hf, by simp⟩
    · obtain ⟨value, finish, rfl, hfk, hd⟩ := ih.expressionStatement _ _ _ h hq
      exact ⟨false, .expressionStatement hd hfk, by simp⟩
  · obtain ⟨value, finish, rfl, hfk, hd⟩ := ih.expressionStatement _ _ _ h hq
    exact ⟨false, .expressionStatement hd hfk, by simp⟩

/-- An optional list is derived, and grows its state. -/
theorem optionalList (ih : SoundAt c fuel) {kind : TokenKind} {s t : ParseState}
    {found : Option Expr} (h : unlessNext kind (Parse.expressionList fuel) s = .ok found t)
    (hq : s.Quiet t) : Derives c .optionalList s.point found t.point := by
  rcases unlessNext_ok h with ⟨e, rfl, he⟩ | ⟨rfl, rfl, -⟩
  · exact .someList (ih.expressionList _ _ _ he hq)
  · exact .noList

/-- The body of a loop is derived as the body of a loop. -/
theorem loopBody (ih : SoundAt c fuel) {s t : ParseState} {body : Stmt}
    (h : atLoopDepth (· + 1) (Parse.statement fuel) s = .ok body t) :
    s.diagnostics.length ≤ t.diagnostics.length ∧
      (s.Quiet t → Stands c true s.point body t) := by
  obtain ⟨r, hr, hrest, hids, hfaults⟩ := atLoopDepth_ok h
  have fr := ((orderly fuel).statement.grows hr).faults_le
  rw [hfaults] at fr
  refine ⟨fr, fun hq => ?_⟩
  obtain ⟨d, hd, he⟩ := ih.statement _ _ _ hr (by rw [ParseState.Quiet, hfaults]; exact hq)
  have hp : r.point = t.point := by
    rw [ParseState.point, hrest, hids]
    rfl
  rw [hp] at hd
  rw [ParseState.nextKind, hrest] at he
  exact ⟨d, hd, he⟩

theorem forStatement_step (ih : SoundAt c fuel) :
    Yields (Parse.forStatement (fuel + 1)) fun s v t =>
      ∀ keyword, keyword.kind = .forKeyword →
        Stands c s.inLoop ⟨keyword :: s.rest, s.nextId⟩ v t := by
  intro s t v h hq keyword hkey
  simp only [Parse.forStatement, bind_eq_ok, pure_eq_ok] at h
  obtain ⟨lp, r, hlp, start, u, hs, condition, w, hc, finish, x, hf, increment, y, hi,
    rp, z, hrp, body, a, hb, rfl, rfl⟩ := h
  obtain ⟨hr, hlpk⟩ := expect_ok hlp
  obtain ⟨hx, hfk⟩ := expect_ok hf
  obtain ⟨hz, hrpk⟩ := expect_ok hrp
  obtain ⟨fb, hbody⟩ := ih.loopBody hb
  have fr := hr.faults_eq
  have fu := ((orderly fuel).forInitializer.grows hs).faults_le
  have fw := ((orderly fuel).expressionList.grows_unlessNext hc).faults_le
  have fx := hx.faults_eq
  have fy := ((orderly fuel).expressionList.grows_unlessNext hi).faults_le
  have fz := hz.faults_eq
  have hstart := ih.forInitializer _ _ _ hs (by omega)
  have hcondition := ih.optionalList hc (by omega)
  have hincrement := ih.optionalList hi (by omega)
  obtain ⟨d, hd, he⟩ := hbody (by omega)
  rw [hx.point] at hcondition
  rw [hz.point] at hincrement
  rw [hr.rest, ← hr.ids]
  exact ⟨d, .forStatement hkey hlpk hstart hcondition hfk hincrement hrpk hd, he⟩

theorem forInitializer_step (ih : SoundAt c fuel) :
    Yields (Parse.forInitializer (fuel + 1)) fun s v t =>
      Derives c .initializer s.point v t.point := by
  intro s t v h hq
  rw [Parse.forInitializer, peekKind_bind] at h
  generalize hk : (s.rest.headD (Token.finish 1)).kind = kind at h
  split at h
  · have hu := ParseState.Takes.drop_one (s := s) (by rw [ParseState.nextKind, hk]; decide)
    rw [advance_bind] at h
    obtain ⟨rfl, rfl⟩ := pure_eq_ok.1 h
    rw [hu.point]
    exact .noInitializer hk
  · have hu := ParseState.Takes.drop_one (s := s) (by rw [ParseState.nextKind, hk]; decide)
    simp only [advance_bind, bind_eq_ok, pure_eq_ok] at h
    obtain ⟨d, r, hd, rfl, rfl⟩ := h
    rw [hu.point]
    exact .variableInitializer hk (ih.varDeclaration _ _ _ hd hq)
  · simp only [bind_eq_ok, pure_eq_ok] at h
    obtain ⟨d, r, hd, rfl, rfl⟩ := h
    obtain ⟨value, finish, rfl, hfk, hl⟩ := ih.expressionStatement _ _ _ hd hq
    exact .expressionInitializer hl hfk

theorem ifStatement_step (ih : SoundAt c fuel) :
    Yields (Parse.ifStatement (fuel + 1)) fun s v t =>
      ∀ keyword, keyword.kind = .ifKeyword →
        Stands c s.inLoop ⟨keyword :: s.rest, s.nextId⟩ v t := by
  intro s t v h hq keyword hkey
  simp only [Parse.ifStatement, bind_eq_ok, pure_eq_ok] at h
  obtain ⟨lp, r, hlp, condition, u, hc, rp, w, hrp, whenTrue, x, ht, other, y, ho,
    rfl, rfl⟩ := h
  obtain ⟨hr, hlpk⟩ := expect_ok hlp
  obtain ⟨hw, hrpk⟩ := expect_ok hrp
  have gu := (orderly fuel).expressionList.grows hc
  have gx := (orderly fuel).statement.grows ht
  have fr := hr.faults_eq
  have fu := gu.faults_le
  have fw := hw.faults_eq
  have fx := gx.faults_le
  have hloop : w.inLoop = s.inLoop := by
    rw [hw.inLoop, ParseState.inLoop, gu.loops]
    exact hr.inLoop
  rw [hr.rest, ← hr.ids]
  rcases ifNext_ok (by decide) ho with ⟨token, z, e, hz, hek, rfl, he⟩ | ⟨rfl, rfl, hne⟩
  · have fz := hz.faults_eq
    have fy := ((orderly fuel).statement.grows he).faults_le
    have hcond := ih.expressionList _ _ _ hc (by omega)
    obtain ⟨d, hd, hne⟩ := ih.statement _ _ _ ht (by omega)
    obtain ⟨d', hd', hne'⟩ := ih.statement _ _ _ he (by omega)
    rw [hz.inLoop, ParseState.inLoop, gx.loops] at hd'
    change Derives _ (.statement w.inLoop d') _ _ _ at hd'
    simp only [hw.point] at hcond
    rw [hz.point, hloop] at hd
    rw [hloop] at hd'
    refine ⟨d', .branches hkey hlpk hcond hrpk hd (fun _ => ?_) hek hd', hne'⟩
    -- the `else` that follows is the one of this branch
    cases d with
    | false => rfl
    | true => exact absurd (hz.next_eq.trans hek) (hne rfl)
  · have hcond := ih.expressionList _ _ _ hc (by omega)
    obtain ⟨d, hd, -⟩ := ih.statement _ _ _ ht (by omega)
    simp only [hw.point] at hcond
    rw [hloop] at hd
    exact ⟨true, .branch hkey hlpk hcond hrpk hd, fun _ => hne⟩

theorem whileStatement_step (ih : SoundAt c fuel) :
    Yields (Parse.whileStatement (fuel + 1)) fun s v t =>
      ∀ keyword, keyword.kind = .whileKeyword →
        Stands c s.inLoop ⟨keyword :: s.rest, s.nextId⟩ v t := by
  intro s t v h hq keyword hkey
  simp only [Parse.whileStatement, bind_eq_ok, pure_eq_ok] at h
  obtain ⟨lp, r, hlp, condition, u, hc, rp, w, hrp, body, x, hb, rfl, rfl⟩ := h
  obtain ⟨hr, hlpk⟩ := expect_ok hlp
  obtain ⟨hw, hrpk⟩ := expect_ok hrp
  obtain ⟨fb, hbody⟩ := ih.loopBody hb
  have fr := hr.faults_eq
  have fu := ((orderly fuel).expressionList.grows hc).faults_le
  have fw := hw.faults_eq
  have hcond := ih.expressionList _ _ _ hc (by omega)
  obtain ⟨d, hd, he⟩ := hbody (by omega)
  simp only [hw.point] at hcond
  rw [hr.rest, ← hr.ids]
  exact ⟨d, .whileStatement hkey hlpk hcond hrpk hd, he⟩

theorem blockRest_step (ih : SoundAt c fuel) :
    Yields (Parse.blockRest (fuel + 1)) fun s v t =>
      ∃ closing, closing.kind = .rightBrace ∧
        Derives c (.declarations s.inLoop) s.point v
          ⟨closing :: t.rest, t.nextId⟩ := by
  intro s t v h hq
  simp only [Parse.blockRest, bind_eq_ok, pure_eq_ok] at h
  obtain ⟨body, r, hb, closing, u, hc, rfl, rfl⟩ := h
  obtain ⟨hu, hck⟩ := expect_ok hc
  have fu := hu.faults_eq
  obtain ⟨hd, -⟩ := ih.declarations true _ _ _ hb (by omega)
  rw [hu.point] at hd
  exact ⟨closing, hck, hd⟩

theorem expressionStatement_step (ih : SoundAt c fuel) :
    Yields (Parse.expressionStatement (fuel + 1)) fun s v t =>
      ∃ value finish, v = .expression value ∧ finish.kind = .semicolon ∧
        Derives c .list s.point value ⟨finish :: t.rest, t.nextId⟩ := by
  intro s t v h hq
  simp only [Parse.expressionStatement, bind_eq_ok, pure_eq_ok] at h
  obtain ⟨value, r, hv, finish, u, hf, rfl, rfl⟩ := h
  obtain ⟨hu, hfk⟩ := expect_ok hf
  have fu := hu.faults_eq
  have hd := ih.expressionList _ _ _ hv (by omega)
  simp only [hu.point] at hd
  exact ⟨value, finish, rfl, hfk, hd⟩

/-! ### Expressions -/

theorem expressionList_step (ih : SoundAt c fuel) :
    Yields (Parse.expressionList (fuel + 1)) fun s v t =>
      Derives c .list s.point v t.point := by
  intro s t v h hq
  simp only [Parse.expressionList, bind_eq_ok] at h
  obtain ⟨left, r, hl, hr⟩ := h
  have fr := ((orderly fuel).conditional.grows hl).faults_le
  have ft := (((orderly fuel).expressionListRest left).grows hr).faults_le
  have hd := ih.conditional _ _ _ hl (by omega)
  exact ih.expressionListRest _ _ _ _ hr (by omega) _ (.single hd)

theorem expressionListRest_step (ih : SoundAt c fuel) (left : Expr) :
    Yields (Parse.expressionListRest (fuel + 1) left) fun s v t =>
      ∀ p, Derives c .list p left s.point → Derives c .list p v t.point := by
  intro s t v h hq p hp
  rw [Parse.expressionListRest, bind_eq_ok] at h
  obtain ⟨o, r, ho, h⟩ := h
  rcases accept?_ok (by decide) ho with ⟨operator, rfl, hr, hk⟩ | ⟨rfl, rfl, -⟩
  · simp only [bind_eq_ok] at h
    obtain ⟨right, u, hu, ht⟩ := h
    have fr := hr.faults_eq
    have fu := ((orderly fuel).conditional.grows hu).faults_le
    have ft := (((orderly fuel).expressionListRest _).grows ht).faults_le
    have hd := ih.conditional _ _ _ hu (by omega)
    rw [hr.point] at hp
    exact ih.expressionListRest _ _ _ _ ht (by omega) _ (.comma hp (by simpa using hk) hd)
  · simp only [pure_eq_ok] at h
    obtain ⟨rfl, rfl⟩ := h
    exact hp

theorem conditional_step (ih : SoundAt c fuel) :
    Yields (Parse.conditional (fuel + 1)) fun s v t =>
      Derives c .conditional s.point v t.point := by
  intro s t v h hq
  simp only [Parse.conditional, bind_eq_ok] at h
  obtain ⟨condition, r, hc, o, u, ho, h⟩ := h
  have fr := ((orderly fuel).assignment.grows hc).faults_le
  rcases accept?_ok (by decide) ho with ⟨question, rfl, hu, hqk⟩ | ⟨rfl, rfl, -⟩
  · simp only [bind_eq_ok, pure_eq_ok] at h
    obtain ⟨whenTrue, w, hw, colon, x, hx, whenFalse, y, hy, rfl, rfl⟩ := h
    obtain ⟨hcolon, hck⟩ := expect_ok hx
    have fu := hu.faults_eq
    have fw := ((orderly fuel).expressionList.grows_unlessNext hw).faults_le
    have fx := hcolon.faults_eq
    have fy := ((orderly fuel).conditional.grows hy).faults_le
    have hcond := ih.assignment _ _ _ hc (by omega)
    have htrue := ih.optionalList hw (by omega)
    have hfalse := ih.conditional _ _ _ hy (by omega)
    simp only [hu.point] at hcond
    rw [hcolon.point] at htrue
    exact .ternary hcond (by simpa using hqk) htrue hck hfalse
  · simp only [pure_eq_ok] at h
    obtain ⟨rfl, rfl⟩ := h
    exact .unconditional (ih.assignment _ _ _ hc hq)

/-- What stands at the level of calls, or is an operation. -/
theorem call_or_isOperation {ls : List Level} {p q : Point} {v : Expr}
    (h : Derives c (.level ls) p v q) : Derives c .call p v q ∨ v.isOperation = true := by
  induction ls with
  | nil =>
    cases h with
    | tightest h =>
      cases h with
      | unaryOperation hk h => exact .inr rfl
      | noOperation h => exact .inl h
  | cons level tighter ih =>
    cases h with
    | tighter h => exact ih h
    | operation hl hk hr =>
      right
      rw [Level.node]
      split <;> rfl

theorem level_variable {ls : List Level} {p q : Point} {id : ReferenceId}
    {name : Token} (h : Derives c (.level ls) p (.variable id name) q) :
    name.kind = .identifier ∧ p = ⟨name :: q.tokens, id⟩ ∧ q.nextId = id + 1 := by
  rcases call_or_isOperation h with h | h
  · cases h with
    | noCall h =>
      cases h with
      | reference hk => exact ⟨hk, rfl, rfl⟩
  · cases h

theorem level_get {ls : List Level} {p q : Point} {object : Expr}
    {name : Token} (h : Derives c (.level ls) p (.get object name) q) :
    ∃ dot, dot.kind = .dot ∧ name.kind = .identifier ∧
      Derives c .call p object ⟨dot :: name :: q.tokens, q.nextId⟩ := by
  rcases call_or_isOperation h with h | h
  · cases h with
    | noCall hc => cases hc
    | property hc hd hn => exact ⟨_, hd, hn, hc⟩
  · cases h

theorem assignment_step (ih : SoundAt c fuel) :
    Yields (Parse.assignment (fuel + 1)) fun s v t =>
      Derives c .assignment s.point v t.point := by
  intro s t v h hq
  simp only [Parse.assignment, bind_eq_ok] at h
  obtain ⟨target, r, hr, o, u, ho, h⟩ := h
  have fr := (((orderly fuel).binaryLevels levels List.suffix_rfl).grows hr).faults_le
  rcases accept?_ok (by decide) ho with ⟨equals, rfl, hu, hk⟩ | ⟨rfl, rfl, -⟩
  · simp only [bind_eq_ok] at h
    obtain ⟨value, w, hw, h⟩ := h
    have fu := hu.faults_eq
    have fw := ((orderly fuel).assignment.grows hw).faults_le
    replace hk : equals.kind = .equal := by simpa using hk
    split at h
    · obtain ⟨rfl, rfl⟩ := pure_eq_ok.1 h
      obtain ⟨hn, hp, hi⟩ :=
        level_variable (ih.binaryLevels levels List.suffix_rfl _ _ _ hr (by omega))
      have hrest : r.point.tokens = equals :: u.rest := hu.rest
      have hid : u.point = ⟨u.rest, _⟩ := congrArg (Point.mk u.rest) (hu.ids.trans hi)
      have hv := ih.assignment _ _ _ hw (by omega)
      simp only [hid] at hv
      rw [hp, hrest]
      exact .nameAssignment hn hk hv
    · obtain ⟨rfl, rfl⟩ := pure_eq_ok.1 h
      obtain ⟨dot, hd, hn, ho⟩ :=
        level_get (ih.binaryLevels levels List.suffix_rfl _ _ _ hr (by omega))
      have hv := ih.assignment _ _ _ hw (by omega)
      rw [hu.point] at ho
      exact .propertyAssignment ho hd hn hk hv
    · -- a target that cannot be assigned to is a fault
      rw [report_bind] at h
      obtain ⟨rfl, rfl⟩ := pure_eq_ok.1 h
      simp only [ParseState.Quiet, List.length_append, List.length_singleton] at hq
      omega
  · obtain ⟨rfl, rfl⟩ := pure_eq_ok.1 h
    exact .noAssignment (ih.binaryLevels levels List.suffix_rfl _ _ _ hr hq)

theorem binaryLevels_step (ih : SoundAt c fuel) (ls : List Level) (hs : ls <:+ levels) :
    Yields (Parse.binaryLevels (fuel + 1) ls) fun s v t =>
      Derives c (.level ls) s.point v t.point := by
  intro s t v h hq
  cases ls with
  | nil =>
    rw [Parse.binaryLevels] at h
    exact .tightest (ih.unary _ _ _ h hq)
  | cons level tighter =>
    simp only [Parse.binaryLevels, bind_eq_ok] at h
    obtain ⟨left, r, hl, hr⟩ := h
    have ht : tighter <:+ levels := (List.suffix_cons level tighter).trans hs
    have fr := (((orderly fuel).binaryLevels tighter ht).grows hl).faults_le
    have ft := (((orderly fuel).binaryRest level tighter left hs).grows hr).faults_le
    have hd := ih.binaryLevels tighter ht _ _ _ hl (by omega)
    exact ih.binaryRest level tighter left hs _ _ _ hr (by omega) _ (.tighter hd)

theorem binaryRest_step (ih : SoundAt c fuel) (level : Level) (tighter : List Level)
    (left : Expr) (hs : level :: tighter <:+ levels) :
    Yields (Parse.binaryRest (fuel + 1) level tighter left) fun s v t =>
      ∀ p, Derives c (.level (level :: tighter)) p left s.point →
        Derives c (.level (level :: tighter)) p v t.point := by
  intro s t v h hq p hp
  have hm : level ∈ levels := hs.subset (List.mem_cons_self ..)
  have ht : tighter <:+ levels := (List.suffix_cons level tighter).trans hs
  rw [Parse.binaryRest, bind_eq_ok] at h
  obtain ⟨o, r, ho, h⟩ := h
  rcases accept?_ok (OrderlyAt.endOfInput_not_mem_operators hm) ho with
    ⟨operator, rfl, hr, hk⟩ | ⟨rfl, rfl, -⟩
  · simp only [bind_eq_ok] at h
    obtain ⟨right, u, hu, h⟩ := h
    have fr := hr.faults_eq
    have fu := (((orderly fuel).binaryLevels tighter ht).grows hu).faults_le
    have ft := (((orderly fuel).binaryRest level tighter _ hs).grows h).faults_le
    have hd := ih.binaryLevels tighter ht _ _ _ hu (by omega)
    rw [hr.point] at hp
    exact ih.binaryRest level tighter _ hs _ _ _ h (by omega) _ (.operation hp hk hd)
  · obtain ⟨rfl, rfl⟩ := pure_eq_ok.1 h
    exact hp

theorem unary_step (ih : SoundAt c fuel) :
    Yields (Parse.unary (fuel + 1)) fun s v t =>
      Derives c .unary s.point v t.point := by
  intro s t v h hq
  rw [Parse.unary, bind_eq_ok] at h
  obtain ⟨o, r, ho, h⟩ := h
  rcases accept?_ok (by decide) ho with ⟨operator, rfl, hr, hk⟩ | ⟨rfl, rfl, -⟩
  · simp only [bind_eq_ok, pure_eq_ok] at h
    obtain ⟨operand, u, hu, rfl, rfl⟩ := h
    have fr := hr.faults_eq
    have hd := ih.unary _ _ _ hu (by omega)
    rw [hr.point]
    exact .unaryOperation hk hd
  · simp only [bind_eq_ok] at h
    obtain ⟨callee, u, hu, h⟩ := h
    have fu := ((orderly fuel).primary.grows hu).faults_le
    have ft := (((orderly fuel).callRest callee).grows h).faults_le
    have hd := ih.primary _ _ _ hu (by omega)
    exact .noOperation (ih.callRest _ _ _ _ h (by omega) _ (.noCall hd))

theorem callRest_step (ih : SoundAt c fuel) (callee : Expr) :
    Yields (Parse.callRest (fuel + 1) callee) fun s v t =>
      ∀ p, Derives c .call p callee s.point → Derives c .call p v t.point := by
  intro s t v h hq p hp
  rw [Parse.callRest, peekKind_bind] at h
  generalize hk : (s.rest.headD (Token.finish 1)).kind = kind at h
  split at h
  · have hu := ParseState.Takes.drop_one (s := s) (by rw [ParseState.nextKind, hk]; decide)
    simp only [advance_bind, bind_eq_ok] at h
    obtain ⟨found, r, hf, rp, w, hrp, h⟩ := h
    obtain ⟨hw, hrpk⟩ := expect_ok hrp
    have fu := hu.faults_eq
    have fr := (((orderly fuel).arguments 0).grows_unlessNext hf).faults_le
    have fw := hw.faults_eq
    have ft := (((orderly fuel).callRest _).grows h).faults_le
    rw [hu.point] at hp
    refine ih.callRest _ _ _ _ h (by omega) _ ?_
    rcases unlessNext_ok hf with ⟨es, rfl, hes⟩ | ⟨rfl, rfl, -⟩
    · obtain ⟨hd, hle⟩ := ih.arguments 0 _ _ _ hes (by omega)
      rw [hw.point] at hd
      simp only [Nat.zero_add] at hle
      exact .callWith hp hk hd hle hrpk
    · rw [hw.rest, ← hw.ids] at hp
      exact .callWithout hp hk hrpk
  · have hu := ParseState.Takes.drop_one (s := s) (by rw [ParseState.nextKind, hk]; decide)
    simp only [advance_bind, bind_eq_ok] at h
    obtain ⟨name, r, hn, h⟩ := h
    obtain ⟨hr, hnk⟩ := expect_ok hn
    have fu := hu.faults_eq
    have fr := hr.faults_eq
    rw [hu.point, hr.rest, ← hr.ids] at hp
    exact ih.callRest _ _ _ _ h (by omega) _ (.property hp hk hnk)
  · obtain ⟨rfl, rfl⟩ := pure_eq_ok.1 h
    exact hp

theorem arguments_step (ih : SoundAt c fuel) (count : Nat) :
    Yields (Parse.arguments (fuel + 1) count) fun s v t =>
      Derives c .arguments s.point v t.point ∧ count + v.length ≤ maxArguments := by
  intro s t v h hq
  simp only [Parse.arguments, bind_eq_ok] at h
  obtain ⟨_, r, hl, first, u, hf, o, w, hc, h⟩ := h
  have fu := ((orderly fuel).conditional.grows hf).faults_le
  rcases accept?_ok (by decide) hc with ⟨comma, rfl, hw, hm⟩ | ⟨rfl, rfl, -⟩
  · simp only [bind_eq_ok, pure_eq_ok] at h
    obtain ⟨rest, x, hx, rfl, rfl⟩ := h
    have fw := hw.faults_eq
    have fx := (((orderly fuel).arguments (count + 1)).grows hx).faults_le
    obtain ⟨rfl, hlt⟩ := limit_ok hl (by omega)
    have hd := ih.conditional _ _ _ hf (by omega)
    obtain ⟨hds, hle⟩ := ih.arguments (count + 1) _ _ _ hx (by omega)
    simp only [hw.point] at hd
    refine ⟨.moreArguments hd (by simpa using hm) hds, ?_⟩
    rw [List.length_cons]
    omega
  · obtain ⟨rfl, rfl⟩ := pure_eq_ok.1 h
    obtain ⟨rfl, hlt⟩ := limit_ok hl (by omega)
    exact ⟨.lastArgument (ih.conditional _ _ _ hf (by omega)), hlt⟩

theorem primary_step (ih : SoundAt c fuel) :
    Yields (Parse.primary (fuel + 1)) fun s v t =>
      Derives c .primary s.point v t.point := by
  intro s t v h hq
  rw [Parse.primary, peek_bind] at h
  generalize hn : s.rest.headD (Token.finish 1) = token at h
  generalize hk : token.kind = kind at h
  have hnext : s.nextKind = kind := by rw [ParseState.nextKind, hn, hk]
  have hu : kind ≠ .endOfInput → s.Takes token { s with rest := s.rest.drop 1 } :=
    fun he => hn ▸ .drop_one (hnext ▸ he)
  split at h
  all_goals try
    replace hu := hu (by decide)
    have fu := hu.faults_eq
    rw [advance_bind] at h
    rw [hu.point]
  · obtain ⟨rfl, rfl⟩ := pure_eq_ok.1 h
    exact .falsity hk
  · obtain ⟨rfl, rfl⟩ := pure_eq_ok.1 h
    exact .truth hk
  · obtain ⟨rfl, rfl⟩ := pure_eq_ok.1 h
    exact .absence hk
  · obtain ⟨rfl, rfl⟩ := pure_eq_ok.1 h
    exact .literal (by simp [hk])
  · obtain ⟨rfl, rfl⟩ := pure_eq_ok.1 h
    exact .literal (by simp [hk])
  · obtain ⟨rfl, rfl⟩ := pure_eq_ok.1 h
    exact .reference hk
  · obtain ⟨rfl, rfl⟩ := pure_eq_ok.1 h
    exact .self hk
  · simp only [bind_eq_ok, pure_eq_ok] at h
    obtain ⟨⟨_, parameters, body⟩, r, hd, rfl, rfl⟩ := h
    obtain ⟨rfl, hf⟩ := ih.functionRest _ _ _ _ _ hd hq
    exact .function hk hf
  · simp only [bind_eq_ok, pure_eq_ok] at h
    obtain ⟨inner, r, hi, rp, w, hrp, rfl, rfl⟩ := h
    obtain ⟨hw, hrpk⟩ := expect_ok hrp
    have fw := hw.faults_eq
    have hd := ih.expressionList _ _ _ hi (by omega)
    simp only [hw.point] at hd
    exact .grouping hk hd hrpk
  · rw [reject_eq] at h
    cases h
  · simp only [bind_eq_ok] at h
    obtain ⟨_, _, -, _, _, -, h⟩ := h
    cases h
  · simp only [bind_eq_ok] at h
    obtain ⟨_, _, -, _, _, -, h⟩ := h
    cases h
  · cases ho : operandLevels? kind levels with
    | none =>
      rw [ho] at h
      cases h
    | some tighter =>
      simp only [ho, bind_eq_ok] at h
      obtain ⟨_, _, -, _, _, -, _, _, -, h⟩ := h
      cases h

end SoundAt

/-- Every rule is sound, whatever its fuel. -/
theorem sound {c : Convention} (hc : c.namedMethods = true) (fuel : Nat) :
    SoundAt c fuel := by
  induction fuel with
  | zero => exact soundAt_zero
  | succ fuel ih =>
    exact {
      parameters := ih.parameters_step
      declaration := ih.declaration_step
      declarationOrFail := ih.declarationOrFail_step
      declarations := ih.declarations_step
      classDeclaration := ih.classDeclaration_step
      methods := ih.methods_step hc
      namedFunction := ih.namedFunction_step
      functionRest := ih.functionRest_step
      varDeclaration := ih.varDeclaration_step
      statement := ih.statement_step
      forStatement := ih.forStatement_step
      forInitializer := ih.forInitializer_step
      ifStatement := ih.ifStatement_step
      whileStatement := ih.whileStatement_step
      blockRest := ih.blockRest_step
      expressionStatement := ih.expressionStatement_step
      expressionList := ih.expressionList_step
      expressionListRest := ih.expressionListRest_step
      conditional := ih.conditional_step
      assignment := ih.assignment_step
      binaryLevels := ih.binaryLevels_step
      binaryRest := ih.binaryRest_step
      unary := ih.unary_step
      callRest := ih.callRest_step
      arguments := ih.arguments_step
      primary := ih.primary_step }

/-- What is parsed from a whole program without a fault is derived, up to an end
mark. -/
theorem declarations_sound {c : Convention} (hc : c.namedMethods = true) {fuel : Nat} {s t : ParseState} {found : List Stmt}
    (h : declarations fuel false s = .ok found t) (hq : s.Quiet t) :
    Derives c (.declarations s.inLoop) s.point found t.point ∧
      t.nextKind = .endOfInput := by
  obtain ⟨hd, he⟩ := (sound hc fuel).declarations false _ _ _ h hq
  exact ⟨hd, he rfl⟩

end Parse

end TreeScript
