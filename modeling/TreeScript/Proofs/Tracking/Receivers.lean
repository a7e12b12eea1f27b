import TreeScript.Proofs.Scanning.Rewriting
import TreeScript.Proofs.Scoping.Sessions
import TreeScript.Proofs.Tracking.Contents
import TreeScript.Proofs.Tracking.Regimes
import Mathlib

/-!
# Whose `this` it is

* `StaticScope.flags` — which static scopes hold `this`
* `Stmt.flags_resolve` — no statement declares `this`
* `Versed` — what is known of the programs of a session with the standard lexicon
* `Scopes.Carries` — the scopes bind `this` where the static scopes hold it, the innermost
  one to a given receiver
* `receiving` — the regime in which functions carry the receivers that they were born with
* `ruled_receiving` — the primitive steps keep it
-/

namespace TreeScript

/-! ## The word -/

theorem Lexicon.kindOf_this : standard.kindOf "this".toList = .thisKeyword := by
  cbv

/-- No other word has the kind of `this`. -/
theorem Lexicon.eq_this_of_kindOf {text : String}
    (h : standard.kindOf text.toList = .thisKeyword) : text = "this" := by
  have hwords : ∀ p ∈ standardKeywords, p.2 = .thisKeyword → p.1 = "this" := by decide
  have hmarks : ∀ p ∈ standardMarks, p.2 ≠ .thisKeyword := by decide
  unfold kindOf at h
  split at h
  · cases h
  rename_i c rest htext
  split at h
  all_goals try (split at h <;> cases h)
  · cases h
  · cases h
  split at h
  · cases h
  split at h
  · rw [← htext, String.ofList_toList, wordKind] at h
    cases hk : standard.keyword? text with
    | none => rw [hk] at h; cases h
    | some kind =>
      rw [hk] at h
      exact hwords _ (mem_of_getElem?_ofList nodup_reserved hk) h
  · cases hm : standard.mark? c with
    | none => rw [hm] at h; cases h
    | some kind =>
      rw [hm] at h
      exact absurd h (hmarks _ (mem_of_getElem?_ofList (by decide) hm))

/-- No name is spelled like `this`. -/
theorem Token.IsName.lexeme_ne {name : Token} (h : name.IsName .standard) :
    name.lexeme ≠ "this" := by
  intro he
  obtain ⟨hkind, hspelled⟩ := h
  rw [Token.Spelled, hkind, he, Lexicon.kindOf_this] at hspelled
  cases hspelled

theorem Stmt.ownName?_ne {s : Stmt} {name : String}
    (hw : (Node.statement s).Worded .standard) (hn : s.ownName? = some name) :
    name ≠ "this" := by
  cases s with
  | varDecl _ _ | classDecl _ _ =>
    cases hn
    exact Token.IsName.lexeme_ne hw
  | function declaration =>
    obtain ⟨found | found, parameters, body⟩ := declaration
    · cases hn
      show "(anonymous)" ≠ "this"
      decide
    · cases hn
      exact Token.IsName.lexeme_ne (hw found rfl)
  | expression _ | print _ | block _ | conditional _ _ _ | loop _ _ | leave _ | giveBack _ _ =>
    cases hn

/-! ## Static scopes -/

/-- Which static scopes hold `this`. -/
def StaticScope.flags (scopes : List StaticScope) : List Bool :=
  scopes.map fun scope => scope.contains "this"

open StaticScope (flags)

theorem StaticScope.flags_declare (scopes : List StaticScope) {name : String}
    (h : name ≠ "this") (initialized : Bool) :
    flags (declare scopes name initialized) = flags scopes := by
  cases scopes with
  | nil => rfl
  | cons innermost outer =>
    simp [flags, declare, Std.TreeMap.contains_insert, h]

theorem Spot.flags_inBody (spot : Spot) {parameters : List Token}
    (h : ∀ parameter ∈ parameters, parameter.IsName .standard) :
    flags (spot.inBody parameters).scopes = false :: flags spot.scopes := by
  have hnot : (StaticScope.ofParameters parameters)["this"]? = none := by
    rw [StaticScope.getElem?_ofParameters, if_neg]
    rintro ⟨parameter, hp, he⟩
    exact (h parameter hp).lexeme_ne he
  simp only [flags, Spot.inBody, List.map_cons, List.cons.injEq, and_true]
  rw [Std.TreeMap.contains_eq_isSome_getElem?, hnot]
  rfl

theorem Spot.flags_inClass (spot : Spot) {name : String} (h : name ≠ "this") :
    flags (spot.declare name true).inClass.scopes = true :: flags spot.scopes := by
  have hthis : (StaticScope.ofClass).contains "this" = true := by
    simp [StaticScope.ofClass]
  show (StaticScope.ofClass).contains "this" :: flags (StaticScope.declare spot.scopes name true) = _
  rw [hthis, StaticScope.flags_declare _ h]

/-- A statement and all that it visits have the words of the standard lexicon. -/
def Visit.Wordy (v : Visit) : Prop :=
  ∀ u, v.Leads u → u.node.Worded .standard

theorem Visit.Wordy.child {v c : Visit} (h : v.Wordy) (hc : c ∈ v.children) : c.Wordy :=
  fun u hu => h u (.head hc hu)

/-- No statement declares `this`. -/
theorem Stmt.flags_resolve (spot : Spot) (s : Stmt)
    (h : (Visit.mk spot (.statement s)).Wordy) : flags (spot.after s).scopes = flags spot.scopes := by
  have here := h _ .refl
  match s with
  | .expression _ | .print _ | .block _ | .leave _ | .giveBack _ none
  | .giveBack _ (some _) =>
    rw [Spot.after, Stmt.resolve]
  | .varDecl _ none | .varDecl _ (some _) | .classDecl _ _ =>
    rw [Spot.after, Stmt.resolve]
    exact StaticScope.flags_declare _ (Token.IsName.lexeme_ne here) _
  | .function ⟨none, _, _⟩ =>
    rw [Spot.after, Stmt.resolve]
  | .function ⟨some name, _, _⟩ =>
    rw [Spot.after, Stmt.resolve]
    exact StaticScope.flags_declare _ (Token.IsName.lexeme_ne (here name rfl)) _
  | .conditional condition whenTrue none =>
    rw [Spot.after, Stmt.resolve]
    exact whenTrue.flags_resolve spot (h.child (by simp [Visit.children, Stmt.visits]))
  | .conditional condition whenTrue (some whenFalse) =>
    rw [Spot.after, Stmt.resolve]
    exact (whenFalse.flags_resolve (spot.after whenTrue)
      (h.child (by simp [Visit.children, Stmt.visits]))).trans
        (whenTrue.flags_resolve spot (h.child (by simp [Visit.children, Stmt.visits])))
  | .loop condition body =>
    rw [Spot.after, Stmt.resolve]
    exact body.flags_resolve spot (h.child (by simp [Visit.children, Stmt.visits]))

namespace Visit

/-- What is executed in the same scope is visited where the same scopes hold `this`. -/
theorem Wordy.same_child {v c : Visit} (h : v.Wordy) (hn : v.node.opensScope = false)
    (hc : c ∈ v.children) :
    c.spot.around = v.spot.around ∧ flags c.spot.scopes = flags v.spot.scopes := by
  have here := h v .refl
  obtain ⟨spot, node⟩ := v
  cases node with
  | expression e =>
    obtain ⟨p, -, rfl⟩ := List.mem_map.1 hc
    exact ⟨rfl, rfl⟩
  | statement s =>
    change c ∈ s.visits spot at hc
    fun_cases Stmt.visits spot s <;>
      simp only [Stmt.visits, List.mem_cons, List.not_mem_nil, or_false] at hc
    case case8 | case13 => cases hn
    case case4 name value =>
      subst hc
      exact ⟨rfl, StaticScope.flags_declare _ (Token.IsName.lexeme_ne here) _⟩
    case case10 condition whenTrue whenFalse =>
      rcases hc with rfl | rfl | rfl
      · exact ⟨rfl, rfl⟩
      · exact ⟨rfl, rfl⟩
      · exact ⟨rfl, whenTrue.flags_resolve spot (h.child (by simp [children, Stmt.visits]))⟩
    case case12 declaration =>
      subst hc
      exact ⟨rfl, Stmt.flags_resolve spot _ h⟩
    all_goals rcases hc with rfl | rfl <;> exact ⟨rfl, rfl⟩
  | statements ss =>
    cases ss with
    | nil => cases hc
    | cons first rest =>
      have hfirst := first.flags_resolve spot (h.child List.mem_cons_self)
      simp only [children, List.mem_cons, List.not_mem_nil, or_false] at hc
      rcases hc with rfl | rfl
      · exact ⟨rfl, rfl⟩
      · exact ⟨rfl, hfirst⟩
  | function d => cases hn

/-- In a class some scope holds `this`. -/
def Placed (v : Visit) : Prop :=
  v.spot.around.inClass = true → true ∈ flags v.spot.scopes

theorem Wordy.placed_child {v c : Visit} (h : v.Wordy) (hp : v.Placed) (hc : c ∈ v.children) :
    c.Placed := by
  by_cases hn : v.node.opensScope = false
  · obtain ⟨haround, hflags⟩ := h.same_child hn hc
    rw [Placed, haround, hflags]
    exact hp
  have here := h v .refl
  obtain ⟨spot, node⟩ := v
  match node with
  | .statement (.block body) =>
    rw [List.mem_singleton.1 hc]
    exact fun hin => List.mem_cons_of_mem _ (hp hin)
  | .statement (.classDecl name methods) =>
    obtain ⟨method, -, rfl⟩ := List.mem_map.1 hc
    intro _
    rw [Spot.flags_inClass spot (Token.IsName.lexeme_ne here)]
    exact List.mem_cons_self
  | .function declaration =>
    rw [List.mem_singleton.1 hc]
    intro hin
    rw [Spot.flags_inBody spot here]
    exact List.mem_cons_of_mem _ (hp hin)
  | .expression _ | .statements _ | .statement (.expression _) | .statement (.print _)
  | .statement (.varDecl ..) | .statement (.conditional ..) | .statement (.loop ..)
  | .statement (.leave _) | .statement (.function _) | .statement (.giveBack ..) =>
    exact absurd rfl hn

theorem Wordy.placed_leads {v u : Visit} (h : v.Wordy) (hp : v.Placed) (hu : v.Leads u) :
    u.Placed := by
  induction hu with
  | refl => exact hp
  | tail hu hc ih => exact Wordy.placed_child (fun w hw => h w (hu.trans hw)) ih hc

end Visit

/-! ## Programs -/

/-- What is known of the programs of a session with the standard lexicon: their words, the
distances of their references, and that every `this` stands in a class. -/
structure Versed (programs : List (List Stmt)) (setting : Setting) : Prop where
  worded : ∀ v, Walked programs v → v.node.Worded .standard
  distances : ∀ v (id : ReferenceId) token, Walked programs v →
    v.reference? = some (id, token) →
    setting.distances[id]? = StaticScope.distance? v.spot.scopes token.lexeme
  placed : ∀ spot id keyword, Walked programs ⟨spot, .expression (.self id keyword)⟩ →
    true ∈ flags spot.scopes

theorem Versed.wordy {programs : List (List Stmt)} {setting : Setting}
    (h : Versed programs setting) {v : Visit} (hv : Walked programs v) : v.Wordy :=
  fun u hu => h.worded u (hv.leads hu)

theorem History.Regular.versed {h : History} (hr : h.Regular)
    (hl : h.session.lexicon = .standard) :
    Versed h.programs h.session.interpreter.setting where
  worded := by
    rintro v ⟨program, hp, hv⟩
    have hgrown := Visit.grown_of_leads (hr.covers program hp).grown hv
    rw [hl] at hgrown
    exact hgrown.worded
  distances := hr.prepared.distances
  placed := by
    rintro spot id keyword ⟨program, hp, hv⟩
    have hgrown := (hr.covers program hp).grown
    rw [hl] at hgrown
    have hwordy : (Visit.root program).Wordy := fun u hu =>
      (Visit.grown_of_leads hgrown hu).worded
    have hplaced := hwordy.placed_leads nofun hv
    refine hplaced ?_
    -- otherwise the walk would have found a fault
    have hclean := ((hr.covers program hp).clean.leads hv).own
    by_contra hout
    rw [Visit.own, if_neg hout] at hclean
    cases hclean

/-! ## Scopes that bind `this` -/

namespace Scopes

variable {scopes before after later : Scopes} {scope enclosing : ScopeRef}

/-- The scopes bind `this` where the static scopes hold it, the innermost one to the
receiver. -/
inductive Carries (scopes : Scopes) : ScopeRef → List Bool → Option Receiver → Prop
  | globals {scope : ScopeRef} {receiver : Option Receiver} : Carries scopes scope [] receiver
  | pass {scope enclosing : ScopeRef} {outer : List Bool} {receiver : Option Receiver} :
      scopes.enclosing? scope = some enclosing → Carries scopes enclosing outer receiver →
      Carries scopes scope (false :: outer) receiver
  | bound {scope enclosing : ScopeRef} {outer : List Bool} {receiver : Receiver}
      {other : Option Receiver} :
      scopes.enclosing? scope = some enclosing →
      scopes.binding? scope "this" = some (some receiver.value) →
      Carries scopes enclosing outer other → Carries scopes scope (true :: outer) (some receiver)

/-- Scopes that link to others keep their link and their `this`. -/
structure KeepsThis (before after : Scopes) : Prop where
  enclosing : ∀ s outer, before.enclosing? s = some outer → after.enclosing? s = some outer
  binding : ∀ s outer, before.enclosing? s = some outer →
    after.binding? s "this" = before.binding? s "this"

theorem KeepsThis.refl (scopes : Scopes) : KeepsThis scopes scopes :=
  ⟨fun _ _ h => h, fun _ _ _ => rfl⟩

theorem KeepsThis.trans (h₁ : KeepsThis before after) (h₂ : KeepsThis after later) :
    KeepsThis before later where
  enclosing s outer h := h₂.enclosing s outer (h₁.enclosing s outer h)
  binding s outer h :=
    (h₂.binding s outer (h₁.enclosing s outer h)).trans (h₁.binding s outer h)

theorem KeepsThis.create (scopes : Scopes) (outer : Option ScopeRef) :
    KeepsThis scopes (scopes.create outer).2 where
  enclosing s _ h := by rwa [enclosing?_create_old _ (lt_size_of_enclosing? h)]
  binding s _ _ := binding?_create _

/-- A name is bound that is not `this`, or in a scope that does not link to another one. -/
theorem KeepsThis.define (scopes : Scopes) {scope : ScopeRef} {name : String}
    (h : name ≠ "this" ∨ scopes.enclosing? scope = none) (value : Option Value) :
    KeepsThis scopes (scopes.define scope name value) where
  enclosing s outer hs := by rwa [enclosing?_define]
  binding s outer hs := by
    by_cases hlt : scope < scopes.size
    · rw [binding?_define hlt, if_neg]
      rintro ⟨rfl, rfl⟩
      rcases h with h | h
      · exact h rfl
      · rw [h] at hs
        cases hs
    · exact binding?_define_missing hlt

/-- A new scope may bind anything. -/
theorem KeepsThis.create_define (scopes : Scopes) (outer : Option ScopeRef) (name : String)
    (value : Option Value) :
    KeepsThis scopes ((scopes.create outer).2.define scopes.size name value) where
  enclosing s _ h := by rwa [enclosing?_define, enclosing?_create_old _ (lt_size_of_enclosing? h)]
  binding s _ h := by
    rw [binding?_define (lt_size_create _), if_neg, binding?_create]
    rintro ⟨rfl, -⟩
    exact Nat.lt_irrefl _ (lt_size_of_enclosing? h)

theorem Carries.mono {flags : List Bool} {receiver : Option Receiver}
    (h : before.Carries scope flags receiver) (hk : KeepsThis before after) :
    after.Carries scope flags receiver := by
  induction h with
  | globals => exact .globals
  | pass he _ ih => exact .pass (hk.enclosing _ _ he) ih
  | bound he hb _ ih => exact .bound (hk.enclosing _ _ he) ((hk.binding _ _ he).trans hb) ih

/-- A new scope inside. -/
theorem Carries.create {flags : List Bool} {receiver : Option Receiver}
    (h : scopes.Carries scope flags receiver) :
    (scopes.create (some scope)).2.Carries scopes.size (false :: flags) receiver :=
  .pass (enclosing?_create_new _) (h.mono (.create scopes _))

/-- The innermost `this` is that of the receiver. -/
theorem Carries.hop {flags : List Bool} {receiver : Option Receiver}
    (h : scopes.Carries scope flags receiver) {i : Nat} (hi : flags.findIdx? id = some i)
    (distance : Nat) :
    ∃ found r, scopes.hop distance i scope = .ok found ∧ receiver = some r ∧
      scopes.binding? found "this" = some (some r.value) := by
  induction h generalizing i with
  | globals => cases hi
  | pass he _ ih =>
    rw [List.findIdx?_cons] at hi
    obtain ⟨j, hj, rfl⟩ := Option.map_eq_some_iff.1 hi
    obtain ⟨found, r, hfound, hr⟩ := ih hj
    exact ⟨found, r, (hop_succ _ _ he).trans hfound, hr⟩
  | bound he hb =>
    rw [List.findIdx?_cons] at hi
    cases hi
    exact ⟨_, _, rfl, rfl, hb⟩

/-- The innermost static scope that holds `this` stands for the scope that binds it to the
receiver. -/
theorem Carries.ancestor {statics : List StaticScope} {receiver : Option Receiver}
    (h : scopes.Carries scope (flags statics) receiver) (ht : true ∈ flags statics) :
    ∃ distance found r, StaticScope.distance? statics "this" = some distance ∧
      scopes.ancestor scope distance = .ok found ∧ receiver = some r ∧
      scopes.binding? found "this" = some (some r.value) := by
  have hsome : ((flags statics).findIdx? id).isSome = true := by
    rw [List.findIdx?_isSome]
    exact List.any_eq_true.2 ⟨true, ht, rfl⟩
  obtain ⟨distance, hi⟩ := Option.isSome_iff_exists.1 hsome
  obtain ⟨found, r, hfound, hr, hb⟩ := h.hop hi distance
  refine ⟨distance, found, r, ?_, hfound, hr, hb⟩
  rw [flags, List.findIdx?_map] at hi
  exact hi

end Scopes

/-- What `this` yields where the scopes carry a receiver. -/
theorem Versed.evaluate_self {programs : List (List Stmt)} {setting : Setting}
    (h : Versed programs setting) {situation : Situation} {id : ReferenceId} {keyword : Token}
    {m : Machine} (hw : Walked programs ⟨situation.spot, .expression (.self id keyword)⟩)
    (hc : m.scopes.Carries situation.scope (flags situation.spot.scopes) situation.receiver) :
    ∃ receiver, situation.receiver = some receiver ∧
      ∀ fuel, evaluate setting (fuel + 1) situation.scope (.self id keyword) m =
        .done receiver.value m := by
  have hthis : keyword.lexeme = "this" := by
    obtain ⟨hkind, hspelled⟩ := h.worded _ hw
    rw [Token.Spelled, hkind] at hspelled
    exact Lexicon.eq_this_of_kindOf hspelled.symm
  obtain ⟨distance, found, receiver, hd, hfound, hr, hb⟩ := hc.ancestor (h.placed _ _ _ hw)
  refine ⟨receiver, hr, fun fuel => ?_⟩
  have hdistance := h.distances _ id keyword hw rfl
  rw [hthis, hd] at hdistance
  have hholder : m.scopes.holderAt situation.scope distance keyword = .ok found := by
    rw [Scopes.holderAt, hfound, hthis]
    simp only [bind, Except.bind, hb, Option.isSome_some, if_true]
  have hread : m.scopes.read found keyword = .ok receiver.value := by
    rw [Scopes.read, hthis, hb]
  rw [evaluate, hdistance, Run.readName]
  simp only [bind, Run.bind, Run.holder, hholder, hread]

/-! ## What functions carry -/

/-- A function belongs to an instance: it is a method that was taken from it, or was made in
one. -/
def Record.Belongs (r : Record) (value : Value) (receiver : Receiver) : Prop :=
  ∃ closure birth, value = .function closure ∧ r.births[closure.identity]? = some birth ∧
    birth.receiver = some receiver

/-- A record is faithful to an older one: births stay, methods belong to the instances that
they were taken from, and `this` is the instance that the surrounding method was taken
from. -/
structure Record.Faithful (setting : Setting) (r older : Record) : Prop where
  births : ∀ (i : Nat) birth, older.births[i]? = some birth → r.births[i]? = some birth
  taken : ∀ receiver method m, .taken receiver method m ∈ r.sights →
    ∃ value m', Run.bindMethod receiver.address receiver.ofClass method m = .done value m' ∧
      r.Belongs value receiver
  self : ∀ situation id keyword m,
    .node situation (.expression (.self id keyword)) m ∈ r.sights →
    ∃ receiver, situation.receiver = some receiver ∧
      ∀ fuel, evaluate setting (fuel + 1) situation.scope (.self id keyword) m =
        .done receiver.value m

/-- A function was born where it is declared, and its scopes carry the receiver that it was
born with.  The methods of a class were born in the class. -/
def Record.Vouches (programs : List (List Stmt)) (r : Record) (scopes : Scopes) : Value → Prop
  | .function closure =>
    ∃ birth, r.births[closure.identity]? = some birth ∧
      Walked programs ⟨birth.spot, .function closure.declaration⟩ ∧
      scopes.Carries closure.scope (flags birth.spot.scopes) birth.receiver
  | .classObject cls | .object _ cls =>
    ∃ birth outer other, r.births[cls.identity]? = some birth ∧
      flags birth.spot.scopes = true :: outer ∧ scopes.Carries cls.scope outer other ∧
      ∀ (x : String) d, cls.methods[x]? = some d → Walked programs ⟨birth.spot, .function d⟩
  | _ => True

/-- More births, and scopes that keep their `this`. -/
structure Record.Follows (before : Record) (scopes : Scopes) (after : Record)
    (scopes' : Scopes) : Prop where
  births : ∀ (i : Nat) birth, before.births[i]? = some birth → after.births[i]? = some birth
  scopes : scopes.KeepsThis scopes'

namespace Record

variable {programs : List (List Stmt)} {setting : Setting} {older r r' : Record}
  {scopes scopes' : Scopes}

theorem Follows.refl (r : Record) (scopes : Scopes) : r.Follows scopes r scopes :=
  ⟨fun _ _ h => h, .refl scopes⟩

theorem Follows.trans {r'' : Record} {scopes'' : Scopes} (h₁ : r.Follows scopes r' scopes')
    (h₂ : r'.Follows scopes' r'' scopes'') : r.Follows scopes r'' scopes'' :=
  ⟨fun i birth hb => h₂.births i birth (h₁.births i birth hb), h₁.scopes.trans h₂.scopes⟩

theorem getElem?_bear (r : Record) (birth : Birth) (i : Nat) (known : Birth)
    (h : r.births[i]? = some known) : (r.bear birth).births[i]? = some known := by
  have hlt := (Array.getElem?_eq_some_iff.1 h).1
  rw [bear, Array.getElem?_push_lt hlt, ← h, Array.getElem?_eq_getElem hlt]

theorem Vouches.mono {value : Value} (h : r.Vouches programs scopes value)
    (hf : r.Follows scopes r' scopes') : r'.Vouches programs scopes' value := by
  cases value with
  | function closure =>
    obtain ⟨birth, hb, hw, hc⟩ := h
    exact ⟨birth, hf.births _ _ hb, hw, hc.mono hf.scopes⟩
  | classObject cls | object _ cls =>
    obtain ⟨birth, outer, other, hb, hflags, hc, hm⟩ := h
    exact ⟨birth, outer, other, hf.births _ _ hb, hflags, hc.mono hf.scopes, hm⟩
  | nil | bool _ | number _ | string _ | native _ => trivial

theorem vouches_of_isPlain {value : Value} (h : value.isPlain = true) :
    r.Vouches programs scopes value := by
  cases value with
  | function _ | classObject _ | object _ _ => cases h
  | nil | bool _ | number _ | string _ | native _ => trivial

theorem Vouches.accept {value : Value} (h : r.Vouches programs scopes value)
    (program : List Stmt) : r.Vouches (program :: programs) scopes value := by
  have hs : ∀ p ∈ programs, p ∈ program :: programs := fun _ => List.mem_cons_of_mem _
  cases value with
  | function closure =>
    obtain ⟨birth, hb, hw, hc⟩ := h
    exact ⟨birth, hb, hw.mono hs, hc⟩
  | classObject cls | object _ cls =>
    obtain ⟨birth, outer, other, hb, hflags, hc, hm⟩ := h
    exact ⟨birth, outer, other, hb, hflags, hc, fun x d hd => (hm x d hd).mono hs⟩
  | nil | bool _ | number _ | string _ | native _ => trivial

theorem Belongs.mono {value : Value} {receiver : Receiver} (h : r.Belongs value receiver)
    (hb : ∀ (i : Nat) birth, r.births[i]? = some birth → r'.births[i]? = some birth) :
    r'.Belongs value receiver := by
  obtain ⟨closure, birth, rfl, hbirth, hr⟩ := h
  exact ⟨closure, birth, rfl, hb _ _ hbirth, hr⟩

theorem Faithful.bear (h : r.Faithful setting older) (birth : Birth) :
    (r.bear birth).Faithful setting older where
  births i known hb := r.getElem?_bear birth i known (h.births i known hb)
  taken receiver method m hm := by
    obtain ⟨value, m', hbind, hbelongs⟩ := h.taken receiver method m hm
    exact ⟨value, m', hbind, hbelongs.mono (r.getElem?_bear birth)⟩
  self := h.self

theorem Faithful.see (h : r.Faithful setting older) {sight : Sight}
    (ht : ∀ receiver method m, sight = .taken receiver method m →
      ∃ value m', Run.bindMethod receiver.address receiver.ofClass method m = .done value m' ∧
        r.Belongs value receiver)
    (hs : ∀ situation id keyword m, sight = .node situation (.expression (.self id keyword)) m →
      ∃ receiver, situation.receiver = some receiver ∧
        ∀ fuel, evaluate setting (fuel + 1) situation.scope (.self id keyword) m =
          .done receiver.value m) : (r.see sight).Faithful setting older where
  births := h.births
  taken receiver method m hm := by
    rcases List.mem_cons.1 hm with he | hm
    · exact ht receiver method m he.symm
    · exact h.taken receiver method m hm
  self situation id keyword m hm := by
    rcases List.mem_cons.1 hm with he | hm
    · exact hs situation id keyword m he.symm
    · exact h.self situation id keyword m hm

end Record

/-! ## The regime -/

/-- Functions carry the receivers that they were born with, also those that were handed to
the host. -/
structure Record.Sound (programs : List (List Stmt)) (setting : Setting) (handed : List Value)
    (r older : Record) (m : Machine) : Prop where
  size : r.births.size = m.identities
  every : m.Every (r.Vouches programs m.scopes)
  handed : ∀ value ∈ handed, r.Vouches programs m.scopes value
  faithful : r.Faithful setting older

namespace Record.Sound

variable {programs : List (List Stmt)} {setting : Setting} {handed : List Value}
  {older r r' : Record} {m m' : Machine}

/-- The number of the function or the class that is born next. -/
theorem getElem?_bear (h : r.Sound programs setting handed older m) (birth : Birth) :
    (r.bear birth).births[m.identities]? = some birth := by
  rw [Record.bear, ← h.size]
  exact Array.getElem?_push_size

/-- What is known stays known where births and scopes only grow. -/
theorem move (h : r.Sound programs setting handed older m)
    (hf : r.Follows m.scopes r' m'.scopes) (hsize : r'.births.size = m'.identities)
    (hevery : m.Every (r'.Vouches programs m'.scopes) → m'.Every (r'.Vouches programs m'.scopes))
    (hfaithful : r'.Faithful setting older) : r'.Sound programs setting handed older m' where
  size := hsize
  every := hevery (h.every.imp fun _ hv => hv.mono hf)
  handed value hv := (h.handed value hv).mono hf
  faithful := hfaithful

end Record.Sound

/-- Functions carry the receivers that they were born with. -/
def receiving (programs : List (List Stmt)) (setting : Setting) (handed : List Value)
    (older : Record) : Regime where
  upkeep :=
    { Sound := fun r m => r.Sound programs setting handed older m
      Grows := fun r m r' m' => r.Follows m.scopes r' m'.scopes
      Told := fun r => r.Faithful setting older }
  Holds := fun r m value => r.Vouches programs m.scopes value
  Binds := fun _ _ _ name => name ≠ "this"
  Admits := fun _ m situation node =>
    Walked programs ⟨situation.spot, node⟩ ∧
      m.scopes.Carries situation.scope (flags situation.spot.scopes) situation.receiver

namespace Receiving

variable {programs : List (List Stmt)} {setting : Setting} {handed : List Value}
  {older r : Record} {m : Machine}

theorem passes_see (hs : r.Sound programs setting handed older m) {sight : Sight}
    (hf : (r.see sight).Faithful setting older) (sink : Sink) :
    (receiving programs setting handed older).Passes r m (r.see sight) { m with sink } :=
  have hfollows : r.Follows m.scopes (r.see sight) m.scopes := ⟨fun _ _ hb => hb, .refl m.scopes⟩
  ⟨hs.move hfollows hs.size (fun he => he.sink sink) hf, hfollows⟩

theorem passes_create (hs : r.Sound programs setting handed older m) (outer : ScopeRef) :
    (receiving programs setting handed older).Passes r m r
      { m with scopes := (m.scopes.create (some outer)).2 } :=
  have hf : r.Follows m.scopes r (m.scopes.create (some outer)).2 :=
    ⟨fun _ _ hb => hb, .create m.scopes _⟩
  ⟨hs.move hf hs.size (fun he => he.create _) hs.faithful, hf⟩

theorem passes_define (hs : r.Sound programs setting handed older m) {scope : ScopeRef}
    {name : String} {value : Option Value} (hn : name ≠ "this")
    (hv : ∀ v ∈ value, r.Vouches programs m.scopes v) :
    (receiving programs setting handed older).Passes r m r
      { m with scopes := m.scopes.define scope name value } :=
  have hf : r.Follows m.scopes r (m.scopes.define scope name value) :=
    ⟨fun _ _ hb => hb, .define m.scopes (.inl hn) value⟩
  ⟨hs.move hf hs.size (fun he => he.define scope name fun v hm => (hv v hm).mono hf)
    hs.faithful, hf⟩

theorem passes_bear (hs : r.Sound programs setting handed older m) (birth : Birth) :
    (receiving programs setting handed older).Passes r m (r.bear birth)
      { m with identities := m.identities + 1 } :=
  have hf : r.Follows m.scopes (r.bear birth) m.scopes :=
    ⟨r.getElem?_bear birth, .refl m.scopes⟩
  ⟨hs.move hf ((Array.size_push ..).trans (congrArg (· + 1) hs.size))
    (fun he => he.identities _) (hs.faithful.bear birth), hf⟩

end Receiving

open Receiving in
/-- The primitive steps keep the receivers of functions. -/
theorem ruled_receiving {programs : List (List Stmt)} {setting : Setting}
    {handed : List Value} (honest : ∀ native ∈ setting.natives, native.Honest handed)
    (versed : Versed programs setting) (older : Record) :
    (receiving programs setting handed older).Ruled setting handed where
  lawful := ⟨fun h => h.faithful, fun r m => .refl r m.scopes, .trans⟩
  honest := honest
  holds_mono hg h := h.mono hg
  binds_mono _ h := h
  admits_mono hg h := ⟨h.1, h.2.mono hg.scopes⟩
  plain := Record.vouches_of_isPlain
  handed hs hv := hs.handed _ hv
  bindings hs hb := hs.every.bindings _ _ _ hb
  fields hs hf hx := hs.every.fields _ _ _ _ hf hx
  child ha hn hc := by
    obtain ⟨-, hflags⟩ := (versed.wordy ha.1).same_child hn hc
    exact ⟨ha.1.child hc, hflags ▸ ha.2⟩
  binds ha hn := Stmt.ownName?_ne (versed.worded _ ha.1) hn
  enter {r m situation node} hs ha := by
    refine passes_see hs (Record.Faithful.see hs.faithful ?_ ?_) m.sink
    · rintro _ _ _ ⟨⟩
    · rintro _ id keyword _ ⟨⟩
      exact versed.evaluate_self ha.1 ha.2
  print situation text sink hs := by
    refine passes_see hs (Record.Faithful.see hs.faithful ?_ ?_) sink
    · rintro _ _ _ ⟨⟩
    · rintro _ _ _ _ ⟨⟩
  define hs hb hv := passes_define hs hb hv
  assign {r m situation id name e scope value} hs ha _ hv := by
    have hname : name.IsName .standard := versed.worded _ ha.1
    refine passes_define hs hname.lexeme_ne ?_
    rintro _ ⟨⟩
    exact hv
  block hs ha :=
    ⟨passes_create hs _, ha.1.child (List.mem_singleton.2 rfl), ha.2.create⟩
  call {r m closure} hosted hs hc := by
    obtain ⟨birth, hbirth, hwalked, hcarries⟩ := hc
    have hget : r.births.getD closure.identity default = birth := by
      rw [Array.getD_eq_getD_getElem?, hbirth, Option.getD_some]
    have hnames : ∀ parameter ∈ closure.declaration.parameters, parameter.IsName .standard :=
      versed.worded _ hwalked
    simp only [hget]
    refine ⟨passes_create hs _, fun parameter hp => (hnames parameter hp).lexeme_ne,
      hwalked.child (List.mem_singleton.2 rfl), ?_⟩
    rw [Spot.flags_inBody _ hnames]
    exact hcarries.create
  closure hs ha :=
    ⟨passes_bear hs _, _, hs.getElem?_bear _, ha.1, ha.2⟩
  classObject {r m situation name methods object} hs ha hidentity hscope hmethods := by
    have hname : name.IsName .standard := versed.worded _ ha.1
    let birth : Birth :=
      { spot := (situation.spot.declare name.lexeme true).inClass
        receiver := situation.receiver }
    refine ⟨passes_bear hs birth, birth, flags situation.spot.scopes, situation.receiver, ?_,
      Spot.flags_inClass _ hname.lexeme_ne, ?_, fun x d hd => ?_⟩
    · rw [hidentity]
      exact hs.getElem?_bear birth
    · rw [hscope]
      exact ha.2
    · exact ha.1.child (List.mem_map.2 ⟨d, hmethods x d hd, rfl⟩)
  newObject hs hk :=
    ⟨⟨hs.move (.refl ..) hs.size (fun he => he.newObject) hs.faithful, .refl ..⟩, hk⟩
  setField hs hv :=
    ⟨hs.move (.refl ..) hs.size (fun he => he.setField _ _ hv) hs.faithful, .refl ..⟩
  method {r m address ofClass name declaration} hs ho hm := by
    intro receiver birth r' scopes m'
    have hf : r.Follows m.scopes r' scopes :=
      ⟨r.getElem?_bear _, .create_define m.scopes _ _ _⟩
    replace ho : r.Vouches programs m.scopes (.object address ofClass) := ho
    have hobject := ho.mono hf
    obtain ⟨known, outer, other, hknown, hflags, hcarries, hwalked⟩ := ho
    have hbirth : birth = known := by
      simp only [birth, Array.getD_eq_getD_getElem?, hknown, Option.getD_some]
    have hborn : r'.births[m.identities]? = some { spot := birth.spot, receiver := some receiver } :=
      hs.getElem?_bear _
    refine ⟨⟨hs.move hf ((Array.size_push ..).trans (congrArg (· + 1) hs.size)) (fun he => ?_) ?_,
      hf⟩, _, hborn, ?_, ?_⟩
    · refine ((he.create _).define _ _ ?_).identities _
      rintro _ ⟨⟩
      exact hobject
    · refine Record.Faithful.see (hs.faithful.bear _) ?_ ?_
      · rintro _ _ _ ⟨⟩
        exact ⟨_, _, rfl, _, _, rfl, hborn, rfl⟩
      · rintro _ _ _ _ ⟨⟩
    · rw [hbirth]
      exact hwalked name declaration hm
    · rw [hbirth, hflags]
      refine .bound ?_ ?_ (hcarries.mono hf.scopes)
      · rw [Scopes.enclosing?_define]
        exact Scopes.enclosing?_create_new _
      · rw [Scopes.binding?_define (Scopes.lt_size_create _), if_pos ⟨rfl, rfl⟩]
        rfl

end TreeScript
