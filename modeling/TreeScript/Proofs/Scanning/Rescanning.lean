import TreeScript.Proofs.Scanning.Concatenation
import TreeScript.Proofs.Scanning.Lexemes

/-!
# Lexemes outside their context

A lexeme owes nothing to the text around it but that it ends there, and a space behind it
ends it as well.  So the tokens of a source can be written down one after the other with a
space between them, and are read again.

* `Token.face` — a token without its line
* `Lexeme.parted` — a lexeme stays one where a space follows, or nothing
* `lexes_intersperse` — such lexemes with a space between any two of them
* `scan_rejoined` — the lexemes of a source are scanned again as the tokens they are of
-/

namespace TreeScript

variable {lexicon : Lexicon}

/-! ## Tokens without their lines -/

/-- A token without its line. -/
def Token.face (t : Token) : TokenKind × String × Option Literal :=
  (t.kind, t.lexeme, t.literal)

/-- The token that a segment is, without its line. -/
def Segment.face? (s : Segment) : Option (TokenKind × String × Option Literal) :=
  match s.cls with
  | .token kind literal => some (kind, String.ofList s.text, literal)
  | _ => none

/-- The tokens in front of the end mark are those of the segments. -/
theorem faces_items (line : Nat) (found : List Segment) :
    ∃ front last, items line found = front ++ [.ok (Token.finish last)] ∧
      (tokensOf front).map Token.face = found.filterMap Segment.face? := by
  induction found generalizing line with
  | nil => exact ⟨[], line, rfl, rfl⟩
  | cons s rest ih =>
    obtain ⟨front, last, hfront, hfaces⟩ := ih (line + s.text.count '\n')
    refine ⟨(s.item? (line + s.text.count '\n')).toList ++ front, last, ?_, ?_⟩
    · rw [items, hfront, List.append_assoc]
    · rw [List.filterMap_cons, ← hfaces, Segment.item?, Segment.face?]
      cases s.cls <;> rfl

/-- A segment with a face is an item with that face. -/
theorem items_cons_of_face? {s : Segment} {face : TokenKind × String × Option Literal}
    (h : s.face? = some face) (line : Nat) (rest : List Segment) :
    ∃ t : Token, t.face = face ∧
      items line (s :: rest) = .ok t :: items (line + s.text.count '\n') rest := by
  unfold Segment.face? at h
  split at h
  · rename_i kind literal hc
    cases h
    refine ⟨{ kind, lexeme := String.ofList s.text, literal, line := line + s.text.count '\n' },
      rfl, ?_⟩
    rw [items, Segment.item?, hc]
    rfl
  · cases h

/-- The segments that are tokens. -/
def tokenSegments (found : List Segment) : List Segment :=
  found.filter fun s => s.face?.isSome

theorem filterMap_tokenSegments (found : List Segment) :
    (tokenSegments found).filterMap Segment.face? = found.filterMap Segment.face? := by
  induction found with
  | nil => rfl
  | cons s rest ih =>
    rw [tokenSegments, List.filter_cons, List.filterMap_cons]
    cases hs : s.face? with
    | none => exact ih
    | some face =>
      rw [Option.isSome_some, if_pos rfl, List.filterMap_cons, hs]
      exact congrArg (face :: ·) ih

/-- The lexemes of tokens are the texts of their segments. -/
theorem lexemes_tokenSegments (found : List Segment) :
    (found.filterMap Segment.face?).map (fun face => face.2.1.toList) =
      (tokenSegments found).map Segment.text := by
  induction found with
  | nil => rfl
  | cons s rest ih =>
    rw [tokenSegments, List.filter_cons, List.filterMap_cons]
    cases hs : s.face? with
    | none => exact ih
    | some face =>
      have htext : face.2.1.toList = s.text := by
        unfold Segment.face? at hs
        split at hs <;> cases hs
        exact String.toList_ofList
      rw [Option.isSome_some, if_pos rfl, List.map_cons, List.map_cons, htext]
      exact congrArg (s.text :: ·) ih

/-! ## Lexemes apart -/

/-- Nothing follows, or a space. -/
def Parted (after : List Char) : Prop :=
  ∀ c ∈ after.head?, c = ' '

theorem Parted.without {p : Char → Prop} (hp : ¬p ' ') {after : List Char} (h : Parted after) :
    Without p after :=
  fun c hc => h c hc ▸ hp

/-- A token stays what it is where a space follows, or nothing. -/
theorem Lexeme.parted {text after tail : List Char} {kind : TokenKind} {literal : Option Literal}
    (h : Lexeme lexicon text (.token kind literal) after) (ht : Parted tail) :
    Lexeme lexicon text (.token kind literal) tail := by
  cases h with
  | slash _ _ => exact .slash (ht.without (by decide)) (ht.without (by decide))
  | comparison h _ => exact .comparison h (ht.without (by decide))
  | comparisonEqual h => exact .comparisonEqual h
  | string h => exact .string h
  | number hne h _ _ hvalue =>
    have hpoint : ∀ rest, tail = '.' :: rest → Without Digit rest := by
      rintro rest rfl
      cases ht '.' rfl
    exact .number hne h (ht.without (by unfold Digit; decide)) hpoint hvalue
  | fraction hne hne' h _ hvalue =>
    exact .fraction hne hne' h (ht.without (by unfold Digit; decide)) hvalue
  | word hc h _ => exact .word hc h (ht.without (by unfold Letter Digit; decide))
  | mark hc h => exact .mark hc h

theorem Lexes.lexeme {text : List Char} {found : List Segment} (h : Lexes lexicon text found) :
    ∀ s ∈ found, ∃ after, Lexeme lexicon s.text s.cls after := by
  induction h with
  | nil => nofun
  | @cons s after _ hs _ ih => exact List.forall_mem_cons.2 ⟨⟨after, hs⟩, ih⟩

/-- The tokens of a text stay what they are where a space follows, or nothing. -/
theorem Lexes.parted {text : List Char} {found : List Segment} (h : Lexes lexicon text found) :
    ∀ s ∈ tokenSegments found, ∀ tail, Parted tail → Lexeme lexicon s.text s.cls tail := by
  intro s hs tail htail
  obtain ⟨after, hafter⟩ := h.lexeme s (List.mem_filter.1 hs).1
  have hface := (List.mem_filter.1 hs).2
  unfold Segment.face? at hface
  split at hface
  · rename_i hcls
    rw [hcls] at hafter ⊢
    exact hafter.parted htail
  · cases hface

/-! ## Tokens with a space between them -/

/-- A space between two tokens. -/
def Segment.space : Segment :=
  { text := [' '], cls := .blank }

/-- Lexemes that end where a space follows, with a space between any two of them. -/
theorem lexes_intersperse {found : List Segment}
    (h : ∀ s ∈ found, ∀ tail, Parted tail → Lexeme lexicon s.text s.cls tail) :
    Lexes lexicon ([' '].intercalate (found.map Segment.text)) (found.intersperse .space) := by
  induction found with
  | nil => exact .nil
  | cons s rest ih =>
    rw [List.forall_mem_cons] at h
    cases rest with
    | nil =>
      have hone := Lexes.cons (h.1 [] nofun) .nil
      rw [List.append_nil] at hone
      rw [List.map_singleton, List.intercalate_singleton]
      exact hone
    | cons next rest =>
      have hspace := Lexes.cons (s := .space) (.space List.mem_cons_self) (ih h.2)
      have hcons := Lexes.cons (h.1 _ fun c hc => (Option.mem_some.1 hc).symm) hspace
      rw [List.map_cons, List.map_cons, List.intercalate_cons_cons, List.append_assoc]
      exact hcons

theorem items_intersperse (line : Nat) {found : List Segment}
    (h : ∀ s ∈ found, s.face?.isSome = true) :
    ∃ (again : List Token) (last : Nat),
      items line (found.intersperse .space) = again.map .ok ++ [.ok (Token.finish last)] ∧
        again.map Token.face = found.filterMap Segment.face? := by
  induction found generalizing line with
  | nil => exact ⟨[], line, rfl, rfl⟩
  | cons s rest ih =>
    rw [List.forall_mem_cons] at h
    obtain ⟨face, hface⟩ := Option.isSome_iff_exists.1 h.1
    rw [List.filterMap_cons, hface]
    cases rest with
    | nil =>
      obtain ⟨t, ht, hitems⟩ := items_cons_of_face? hface line []
      exact ⟨[t], line + s.text.count '\n', hitems, congrArg (· :: []) ht⟩
    | cons next rest =>
      obtain ⟨t, ht, hitems⟩ := items_cons_of_face? hface line
        (.space :: (next :: rest).intersperse .space)
      obtain ⟨again, last, hagain, hfaces⟩ := ih (line + s.text.count '\n') h.2
      refine ⟨t :: again, last, ?_, congr (congrArg _ ht) hfaces⟩
      rw [List.intersperse_cons_cons, hitems]
      exact congrArg (Except.ok t :: ·) hagain

/-- The lexemes of the tokens of a source, with a space between any two of them, are scanned
again as these tokens, without a fault. -/
theorem scan_rejoined (lexicon : Lexicon) (source : String) :
    ∃ (front : List (Except Diagnostic Token)) (again : List Token) (last last' : Nat),
      scan lexicon source = front ++ [.ok (Token.finish last)] ∧
        scan lexicon (" ".intercalate ((tokensOf front).map Token.lexeme)) =
          again.map .ok ++ [.ok (Token.finish last')] ∧
        again.map Token.face = (tokensOf front).map Token.face := by
  obtain ⟨front, last, hfront, hfaces⟩ := faces_items 1 (segments lexicon source.toList)
  have hlexes := (lexes_iff lexicon source.toList _).2 rfl
  generalize segments lexicon source.toList = found at hfaces hlexes
  have hsome : ∀ s ∈ tokenSegments found, s.face?.isSome = true :=
    fun s hs => (List.mem_filter.1 hs).2
  have htext : (" ".intercalate ((tokensOf front).map Token.lexeme)).toList =
      [' '].intercalate ((tokenSegments found).map Segment.text) := by
    rw [String.toList_intercalate, ← lexemes_tokenSegments, ← hfaces, List.map_map, List.map_map]
    rfl
  obtain ⟨again, last', hagain, hfaces'⟩ := items_intersperse 1 hsome
  refine ⟨front, again, last, last', hfront, ?_, ?_⟩
  · rw [scan, htext, (lexes_iff ..).1 (lexes_intersperse hlexes.parted), hagain]
  · rw [hfaces', hfaces, filterMap_tokenSegments]

end TreeScript
