import TreeScript.Proofs.Parsing.Formation
import TreeScript.Proofs.Printing.Forms
import TreeScript.Proofs.Printing.Outlines
import TreeScript.Proofs.Scanning.Rewriting
import TreeScript.Proofs.Scoping.Places
import TreeScript.Proofs.Scoping.Spelling
import TreeScript.Session

/-!
# The words of printed trees

* `IsNumeral` — a text of the characters that numbers are written with
* `Number.isNumeral_text` — the text of every number is one
* `Token.shown` — the token that a printed word stands for
* `Token.Shows` — a token whose text is a solid word and tells all but its line
* `Token.shows_of_mem` — so do the names and the operators of a source
* `Piece.Parsed` — what stands somewhere in the tree of a source
* `Piece.Parsed.formed` — it is formed of tokens that show themselves
-/

namespace TreeScript

/-! ## Numbers -/

/-- The characters that numbers are written with. -/
def IsNumeralChar (c : Char) : Prop :=
  c.isDigit = true ∨ c ∈ ['-', '.', 'N', 'a', 'i', 'n', 'f']

instance (c : Char) : Decidable (IsNumeralChar c) :=
  inferInstanceAs (Decidable (_ ∨ _))

/-- A text that a number may have. -/
def IsNumeral (text : String) : Prop :=
  text.toList ≠ [] ∧ ∀ c ∈ text.toList, IsNumeralChar c

instance (text : String) : Decidable (IsNumeral text) :=
  haveI : Decidable (∀ c ∈ text.toList, IsNumeralChar c) := List.decidableBAll _ _
  inferInstanceAs (Decidable (_ ∧ _))

namespace IsNumeral

variable {text : String}

theorem solid (h : IsNumeral text) : IsSolidWord text := by
  refine ⟨h.1, fun c hc => ?_⟩
  have hn := h.2 c hc
  refine ⟨?_, ?_, ?_⟩ <;> rintro rfl <;> exact absurd hn (by decide)

/-- A text with another character in it is no numeral. -/
theorem ne_of_mem (h : IsNumeral text) {word : String} {c : Char} (hc : c ∈ word.toList)
    (hn : ¬IsNumeralChar c) : text ≠ word := by
  rintro rfl
  exact hn (h.2 c hc)

theorem sign_append (negative : Bool) (h : IsNumeral text) :
    IsNumeral (Number.sign negative ++ text) := by
  have hminus : IsNumeral "-" := by decide
  have hsign : ∀ c ∈ (Number.sign negative).toList, IsNumeralChar c := by
    cases negative with
    | false => simp [Number.sign]
    | true => exact hminus.2
  rw [IsNumeral, String.toList_append, List.forall_mem_append]
  exact ⟨List.append_ne_nil_of_right_ne_nil _ h.1, hsign, h.2⟩

theorem digits (n : Nat) : IsNumeral (String.ofList (Nat.toDigits 10 n)) := by
  rw [IsNumeral, String.toList_ofList]
  exact ⟨Nat.toDigits_ne_nil, fun c hc =>
    .inl (Nat.isDigit_of_mem_toDigits (by decide) (by decide) hc)⟩

end IsNumeral

theorem Decimal.isNumeral_text (d : Decimal) : IsNumeral d.text := by
  have hdigits : ∀ c ∈ Nat.toDigits 10 d.digits, IsNumeralChar c := fun c hc =>
    .inl (Nat.isDigit_of_mem_toDigits (by decide) (by decide) hc)
  have hzeros : ∀ {n : Nat}, ∀ c ∈ List.replicate n '0', IsNumeralChar c := fun c hc => by
    rw [List.eq_of_mem_replicate hc]
    decide
  rw [IsNumeral, Decimal.text, String.toList_ofList, Decimal.chars]
  split
  · refine ⟨List.append_ne_nil_of_right_ne_nil _ (List.cons_ne_nil _ _), fun c hc => ?_⟩
    rcases List.mem_append.1 hc with hc | hc
    · rcases List.mem_append.1 (List.mem_of_mem_take hc) with hc | hc
      · exact hzeros c hc
      · exact hdigits c hc
    · rcases List.mem_cons.1 hc with rfl | hc
      · decide
      · rcases List.mem_append.1 (List.mem_of_mem_drop hc) with hc | hc
        · exact hzeros c hc
        · exact hdigits c hc
  · refine ⟨List.append_ne_nil_of_left_ne_nil Nat.toDigits_ne_nil _, fun c hc => ?_⟩
    rcases List.mem_append.1 hc with hc | hc
    · exact hdigits c hc
    · exact hzeros c hc

/-- The text of every number is a numeral. -/
theorem Number.isNumeral_text (x : Float) : IsNumeral (Number.text x) := by
  unfold Number.text
  split
  · exact (IsNumeral.digits _).sign_append _
  · unfold Number.plainText
    split
    · decide
    · exact .sign_append _ (by decide)
    · refine .sign_append _ ?_
      split
      · decide
      · exact Decimal.isNumeral_text _

/-! ## Tokens -/

/-- The token that a printed word stands for. -/
def Token.shown (text : String) : Token :=
  { kind := Lexicon.standard.kindOf text.toList, lexeme := text, literal := none, line := 0 }

/-- The text of a token is a solid word and tells all of the token but its line. -/
structure Token.Shows (token : Token) : Prop where
  solid : IsSolidWord token.lexeme
  outline : Token.shown token.lexeme = token.outline

theorem Token.Shows.kind_eq {token : Token} (h : token.Shows) :
    (Token.shown token.lexeme).kind = token.kind := by
  rw [h.outline]
  rfl

/-- The kinds whose tokens are not printed as words. -/
def hiddenKinds : List TokenKind :=
  [.leftParen, .rightParen, .string, .number, .endOfInput]

section

variable {lexicon : Lexicon}

/-- A token of a source is the end mark, or one of its segments. -/
theorem exists_segment_of_mem {found : List Segment} {line : Nat} {token : Token}
    (h : token ∈ tokensOf (items line found)) :
    token.kind = .endOfInput ∨
      ∃ s ∈ found, s.cls = .token token.kind token.literal ∧ token.lexeme.toList = s.text := by
  induction found generalizing line with
  | nil =>
    obtain rfl : token = Token.finish line := by
      simpa [items, tokensOf, Except.toOption] using h
    exact .inl rfl
  | cons s rest ih =>
    rw [items, tokensOf, List.filterMap_append, List.mem_append] at h
    rcases h with h | h
    · unfold Segment.item? at h
      cases hc : s.cls with
      | blank => simp [hc] at h
      | fault _ => simp [hc, Except.toOption] at h
      | token kind literal =>
        simp only [hc] at h
        obtain rfl := List.mem_singleton.1 h
        exact .inr ⟨s, List.mem_cons_self, hc, String.toList_ofList⟩
    · refine (ih h).imp_right fun hsegment => ?_
      obtain ⟨s, hs, hcls⟩ := hsegment
      exact ⟨s, List.mem_cons_of_mem _ hs, hcls⟩

theorem Lexes.exists_lexeme {text : List Char} {found : List Segment}
    (h : Lexes lexicon text found) {s : Segment} (hs : s ∈ found) :
    ∃ after, Lexeme lexicon s.text s.cls after := by
  induction h with
  | nil => cases hs
  | cons hlexeme _ ih =>
    rcases List.mem_cons.1 hs with rfl | hs
    · exact ⟨_, hlexeme⟩
    · exact ih hs

/-- A token of a source is the end mark, or its text is a piece of the grammar. -/
theorem exists_lexeme_of_mem {source : String} {token : Token}
    (h : token ∈ tokensOf (scan lexicon source)) :
    token.kind = .endOfInput ∨
      ∃ after, Lexeme lexicon token.lexeme.toList (.token token.kind token.literal) after := by
  refine (exists_segment_of_mem h).imp_right fun ⟨s, hs, hcls, htext⟩ => ?_
  rw [← hcls, htext]
  exact ((lexes_iff lexicon _ _).2 rfl).exists_lexeme hs

end

theorem solid_of_word {c : Char} (h : Letter c ∨ Digit c) : IsSolid c := by
  rw [← isWordChar_iff] at h
  refine ⟨?_, ?_, ?_⟩ <;> rintro rfl <;> exact absurd h (by decide)

theorem solid_of_comparison {c : Char} {alone withEqual : TokenKind}
    (h : (c, alone, withEqual) ∈ comparisons) : IsSolid c := by
  have hall : ∀ entry ∈ comparisons, IsSolid entry.1 := by decide
  exact hall _ h

theorem solid_of_mark {c : Char} {kind : TokenKind} (h : Lexicon.standard.mark? c = some kind)
    (hk : kind ∉ hiddenKinds) : IsSolid c := by
  have hall : ∀ entry ∈ Lexicon.standardMarks, entry.2 ∉ hiddenKinds → IsSolid entry.1 := by
    decide
  exact hall _ (mem_of_getElem?_ofList (by decide) h) hk

/-- A piece that is neither a parenthesis nor a constant is a solid word without a payload. -/
theorem Lexeme.solid {text after : List Char} {kind : TokenKind} {literal : Option Literal}
    (h : Lexeme .standard text (.token kind literal) after) (hk : kind ∉ hiddenKinds) :
    literal = none ∧ text ≠ [] ∧ ∀ c ∈ text, IsSolid c := by
  cases h with
  | slash => exact ⟨rfl, List.cons_ne_nil _ _, List.forall_mem_singleton.2 (by decide)⟩
  | comparison hc =>
    exact ⟨rfl, List.cons_ne_nil _ _, List.forall_mem_singleton.2 (solid_of_comparison hc)⟩
  | comparisonEqual hc =>
    exact ⟨rfl, List.cons_ne_nil _ _, List.forall_mem_cons.2
      ⟨solid_of_comparison hc, List.forall_mem_singleton.2 (by decide)⟩⟩
  | string | number | fraction => exact absurd (by decide) hk
  | word hc h =>
    exact ⟨rfl, List.cons_ne_nil _ _,
      List.forall_mem_cons.2 ⟨solid_of_word (.inl hc), fun c hc => solid_of_word (h c hc)⟩⟩
  | mark _ h => exact ⟨rfl, List.cons_ne_nil _ _, List.forall_mem_singleton.2 (solid_of_mark h hk)⟩

/-- The names and the operators of a source are shown by their texts. -/
theorem Token.shows_of_mem {source : String} {token : Token}
    (h : token ∈ tokensOf (scan .standard source)) (hk : token.kind ∉ hiddenKinds) :
    token.Shows := by
  have hspelled : token.kind = _ := scan_spelled .standard source token h
  rcases exists_lexeme_of_mem h with he | ⟨after, hlexeme⟩
  · rw [he] at hk
    exact absurd (by decide) hk
  · obtain ⟨hliteral, hplain⟩ := hlexeme.solid hk
    refine ⟨hplain, ?_⟩
    cases token
    simp only at hliteral
    rw [Token.shown, ← hspelled, Token.outline, hliteral]

theorem not_mem_logicalKinds {kind : TokenKind} (h : kind ∈ binaryKinds) :
    kind ∉ logicalKinds := by
  have hall : ∀ kind ∈ binaryKinds, kind ∉ logicalKinds := by decide
  exact hall kind h

/-! ## Pieces of programs -/

/-- The names and the operators among some tokens are shown by their texts. -/
def Legible (given : List Token) : Prop :=
  ∀ token ∈ given, token.kind ∉ hiddenKinds → token.Shows

theorem Token.Among.shows {given : List Token} {kinds : List TokenKind} {token : Token}
    (h : token.Among given kinds) (hl : Legible given) (hk : ∀ kind ∈ kinds, kind ∉ hiddenKinds) :
    token.Shows :=
  hl token h.1 (hk _ h.2)

namespace Piece

/-- A piece that is formed of given tokens. -/
def Formed (given : List Token) : Piece → Prop
  | .node (.expression e) => e.Formed given
  | .node (.statement s) => s.Formed given
  | .node (.statements ss) => Stmt.FormedAll given ss
  | .node (.function declaration) => declaration.Formed given
  | .parameter _ | .receiver => True

/-- What stands somewhere in the tree that is read from some source.  There may be faults
elsewhere in the source. -/
def Parsed (piece : Piece) : Prop :=
  ∃ source firstId place,
    (program (Session.read .standard source firstId).statements).at? place = some piece

variable {given : List Token} {root piece : Piece}

theorem formed_part {e : Expr} (h : e.Formed given) :
    ∀ part ∈ e.parts, (Piece.node part).Formed given := by
  cases e with
  | constant | «variable» | self => exact nofun
  | grouping => exact List.forall_mem_singleton.2 h
  | unary | assign | function => exact List.forall_mem_singleton.2 h.2
  | get => exact List.forall_mem_singleton.2 h.1
  | binary | logical | set =>
    exact List.forall_mem_cons.2 ⟨h.1, List.forall_mem_singleton.2 h.2.2⟩
  | ternary =>
    exact List.forall_mem_cons.2
      ⟨h.1, List.forall_mem_cons.2 ⟨h.2.1, List.forall_mem_singleton.2 h.2.2⟩⟩
  | call =>
    exact List.forall_mem_cons.2 ⟨h.1, List.forall_mem_map.2 (Expr.formedAll_iff.1 h.2)⟩

theorem formed_piece {s : Stmt} (h : s.Formed given) :
    ∀ part ∈ s.pieces, part.Formed given := by
  cases s with
  | expression | print => exact List.forall_mem_singleton.2 h
  | function => exact List.forall_mem_singleton.2 h.2
  | leave => exact nofun
  | varDecl _ initializer =>
    cases initializer with
    | none => exact nofun
    | some => exact List.forall_mem_singleton.2 h.2
  | giveBack _ value =>
    cases value with
    | none => exact nofun
    | some => exact List.forall_mem_singleton.2 h
  | block => exact List.forall_mem_map.2 (Stmt.formedAll_iff.1 h)
  | conditional _ _ whenFalse =>
    cases whenFalse with
    | none => exact List.forall_mem_cons.2 ⟨h.1, List.forall_mem_singleton.2 h.2⟩
    | some =>
      exact List.forall_mem_cons.2
        ⟨h.1, List.forall_mem_cons.2 ⟨h.2.1, List.forall_mem_singleton.2 h.2.2⟩⟩
  | loop => exact List.forall_mem_cons.2 ⟨h.1, List.forall_mem_singleton.2 h.2⟩
  | classDecl =>
    exact List.forall_mem_cons.2
      ⟨trivial, List.forall_mem_map.2 (FunctionDecl.formedAll_iff.1 h.2)⟩

theorem Formed.child (h : piece.Formed given) :
    ∀ child ∈ piece.children, child.Formed given := by
  match piece with
  | .node (.expression _) => exact List.forall_mem_map.2 (formed_part h)
  | .node (.statement _) => exact formed_piece h
  | .node (.statements _) => exact List.forall_mem_map.2 (Stmt.formedAll_iff.1 h)
  | .node (.function ⟨_, _, _⟩) =>
    refine List.forall_mem_append.2 ⟨List.forall_mem_map.2 fun _ _ => trivial, ?_⟩
    exact List.forall_mem_map.2 (Stmt.formedAll_iff.1 h.2.2)
  | .parameter _ | .receiver => exact nofun

theorem Formed.at? {place : Place} (h : root.Formed given) (hp : root.at? place = some piece) :
    piece.Formed given := by
  induction place generalizing root with
  | nil =>
    cases hp
    exact h
  | cons i place ih =>
    obtain ⟨child, hc, hp⟩ := Option.bind_eq_some_iff.1 hp
    exact ih (h.child child (List.mem_of_getElem? hc)) hp

/-- A piece of a source is formed of tokens that show themselves. -/
theorem Parsed.formed (h : piece.Parsed) : ∃ given, Legible given ∧ piece.Formed given := by
  obtain ⟨source, firstId, place, hp⟩ := h
  refine ⟨tokensOf (scan .standard source), fun _ ht => Token.shows_of_mem ht, ?_⟩
  have hroot : (program (Session.read .standard source firstId).statements).Formed
      (tokensOf (scan .standard source)) := (Program.formed _ firstId).1
  exact hroot.at? hp

end Piece

end TreeScript
