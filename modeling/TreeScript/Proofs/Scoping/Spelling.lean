import TreeScript.Segment
import Mathlib.Tactic.Common

/-!
# The spelling of tokens

* `Lexicon.kindOf` — the kind of a token with a given text
* `Token.Spelled` — a token has the kind of its text
* `scan_spelled` — all tokens of a source have the kinds of their texts, so that no
  identifier is spelled like a reserved word
-/

namespace TreeScript

/-- The kind of a token with a given text; no text belongs to the end mark. -/
def Lexicon.kindOf (lexicon : Lexicon) : (text : List Char) → TokenKind
  | [] => .endOfInput
  | c :: rest =>
    match c with
    | '!' => if rest = [] then .bang else .bangEqual
    | '=' => if rest = [] then .equal else .equalEqual
    | '<' => if rest = [] then .less else .lessEqual
    | '>' => if rest = [] then .greater else .greaterEqual
    | '/' => .slash
    | '"' => .string
    | c =>
      if c.isDigit then .number
      else if isWordStart c then lexicon.wordKind (String.ofList (c :: rest))
      else (lexicon.mark? c).getD .endOfInput

/-- A token has the kind of its text. -/
def Token.Spelled (lexicon : Lexicon) (token : Token) : Prop :=
  token.kind = lexicon.kindOf token.lexeme.toList

theorem cutComparison_spelled {withEqual alone kind : TokenKind} {rest : List Char}
    {literal : Option Literal} {extent : Nat}
    (h : Segment.cutComparison withEqual alone rest = (.token kind literal, extent)) :
    kind = if rest.take extent = [] then alone else withEqual := by
  unfold Segment.cutComparison at h
  split at h <;> rename_i hr
  · obtain ⟨tail, rfl⟩ := List.head?_eq_some_iff.1 hr
    cases h
    rfl
  · cases h
    rfl

/-- The text of the first segment determines its kind. -/
theorem cut_spelled {lexicon : Lexicon} {c : Char} {rest : List Char} {kind : TokenKind}
    {literal : Option Literal} {extent : Nat}
    (h : Segment.cut lexicon c rest = (.token kind literal, extent)) :
    kind = lexicon.kindOf (c :: rest.take extent) := by
  unfold Segment.cut at h
  unfold Lexicon.kindOf
  split at h
  · exact cutComparison_spelled h
  · exact cutComparison_spelled h
  · exact cutComparison_spelled h
  · exact cutComparison_spelled h
  · cases h
  · cases h
  · cases h
  · cases h
  · unfold Segment.cutSlash at h
    split at h
    · cases h
    · split at h <;> cases h
    · cases h
      rfl
  · unfold Segment.cutString at h
    simp only at h
    split at h <;> cases h
    rfl
  · -- no character with a meaning of its own
    simp only
    by_cases hdigit : c.isDigit = true
    · rw [if_pos hdigit] at h ⊢
      cases h
      rfl
    rw [if_neg hdigit] at h ⊢
    by_cases hword : isWordStart c = true
    · rw [if_pos hword] at h ⊢
      cases h
      rw [← List.prefix_iff_eq_take.1 (List.takeWhile_prefix isWordChar)]
    rw [if_neg hword] at h ⊢
    unfold Segment.cutMark at h
    split at h
    · rename_i hmark
      cases h
      rw [hmark]
      rfl
    · cases h

theorem segments_spelled {lexicon : Lexicon} {text : List Char} {segment : Segment}
    (hs : segment ∈ segments lexicon text) {kind : TokenKind} {literal : Option Literal}
    (hc : segment.cls = .token kind literal) : kind = lexicon.kindOf segment.text := by
  induction text using segments.induct lexicon with
  | case1 => simp [segments] at hs
  | case2 c rest cls extent hcut ih =>
    rw [segments, hcut] at hs
    rcases List.mem_cons.1 hs with rfl | hs
    · rw [show cls = _ from hc] at hcut
      exact cut_spelled hcut
    · exact ih hs

theorem items_spelled {lexicon : Lexicon} {found : List Segment} (line : Nat)
    (h : ∀ segment ∈ found, ∀ kind literal, segment.cls = .token kind literal →
      kind = lexicon.kindOf segment.text) :
    ∀ token ∈ tokensOf (items line found), token.Spelled lexicon := by
  induction found generalizing line with
  | nil =>
    intro token ht
    have ht : token = Token.finish line := by simpa [items, tokensOf, Except.toOption] using ht
    rw [ht]
    rfl
  | cons segment rest ih =>
    rw [List.forall_mem_cons] at h
    intro token ht
    rw [items, tokensOf, List.filterMap_append, List.mem_append] at ht
    rcases ht with ht | ht
    · unfold Segment.item? at ht
      cases hc : segment.cls with
      | blank => simp [hc] at ht
      | fault _ => simp [hc, Except.toOption] at ht
      | token kind literal =>
        have hk := h.1 kind literal hc
        simp only [hc] at ht
        have ht := List.mem_singleton.1 ht
        rw [ht, Token.Spelled, hk, String.toList_ofList]
    · exact ih _ h.2 token ht

/-- All tokens of a source have the kinds of their texts. -/
theorem scan_spelled (lexicon : Lexicon) (source : String) :
    ∀ token ∈ tokensOf (scan lexicon source), token.Spelled lexicon :=
  items_spelled 1 fun _ hs _ _ hc => segments_spelled hs hc

end TreeScript
