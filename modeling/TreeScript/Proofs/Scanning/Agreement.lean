import TreeScript.Proofs.Scanning.Lexemes
import Std.Data.TreeMap.Lemmas

/-!
# What a lexicon decides

Of all that a lexicon says, a scan asks for the kinds of words and for the marks that no rule
of the grammar claims.  Each such answer shows in the items of some source, and nothing else
that the lexicon says shows in any.

* `Lexicon.Shaped` — the texts whose kind is asked for
* `Lexicon.Agrees` — two lexicons that give the same answers
* `Lexicon.withWord`, `Lexicon.withMark` — a lexicon with one entry changed
* `scan_eq_iff_agrees` — lexicons scan alike if and only if they agree
-/

namespace TreeScript

namespace Lexicon

/-- A text in the shape of a word. -/
def Shaped (word : String) : Prop :=
  ∃ c rest, word = String.ofList (c :: rest) ∧ Letter c ∧ ∀ x ∈ rest, Letter x ∨ Digit x

/-- Two lexicons that give every word the same kind, a word without an entry being an
identifier, and every character that no rule claims the same entry or none. -/
structure Agrees (lexicon other : Lexicon) : Prop where
  words : ∀ word, Shaped word → lexicon.wordKind word = other.wordKind word
  marks : ∀ c, ¬Structural c → lexicon.mark? c = other.mark? c

/-- A lexicon with another entry for a word, or with none. -/
def withWord (lexicon : Lexicon) (word : String) (entry : Option TokenKind) : Lexicon :=
  { lexicon with keywords := lexicon.keywords.alter word fun _ => entry }

/-- A lexicon with another entry for a character, or with none. -/
def withMark (lexicon : Lexicon) (c : Char) (entry : Option TokenKind) : Lexicon :=
  { lexicon with marks := lexicon.marks.alter c fun _ => entry }

variable {lexicon other : Lexicon}

/-- An entry for a text that is no word is never asked for. -/
theorem agrees_withWord {word : String} (h : ¬Shaped word) (entry : Option TokenKind) :
    (lexicon.withWord word entry).Agrees lexicon := by
  refine ⟨fun other hother => ?_, fun _ _ => rfl⟩
  have hne : compare word other ≠ .eq :=
    fun he => h (Std.LawfulEqCmp.eq_of_compare he ▸ hother)
  rw [wordKind, wordKind, keyword?, keyword?, withWord, Std.TreeMap.getElem?_alter, if_neg hne]

/-- An entry for a character that a rule claims is never asked for. -/
theorem agrees_withMark {c : Char} (h : Structural c) (entry : Option TokenKind) :
    (lexicon.withMark c entry).Agrees lexicon := by
  refine ⟨fun _ _ => rfl, fun other hother => ?_⟩
  have hne : compare c other ≠ .eq :=
    fun he => hother (Std.LawfulEqCmp.eq_of_compare he ▸ h)
  rw [mark?, mark?, withMark, Std.TreeMap.getElem?_alter, if_neg hne]

end Lexicon

variable {lexicon other : Lexicon}

/-! ## Lexicons that agree -/

/-- A rule of the grammar asks a lexicon for nothing but words and marks. -/
theorem Lexeme.of_agrees {text after : List Char} {cls : SegmentClass}
    (hagree : lexicon.Agrees other) (h : Lexeme lexicon text cls after) :
    Lexeme other text cls after := by
  cases h with
  | space h => exact .space h
  | lineComment h hafter => exact .lineComment h hafter
  | blockComment h => exact .blockComment h
  | openComment h => exact .openComment h
  | slash hslash hstar => exact .slash hslash hstar
  | comparison h hafter => exact .comparison h hafter
  | comparisonEqual h => exact .comparisonEqual h
  | string h => exact .string h
  | openString h => exact .openString h
  | number hne h hafter hpoint hvalue => exact .number hne h hafter hpoint hvalue
  | fraction hne hne' h hafter hvalue => exact .fraction hne hne' h hafter hvalue
  | @word c rest _ hc h hafter =>
    have hkind : lexicon.wordKind (String.ofList (c :: rest)) =
        other.wordKind (String.ofList (c :: rest)) := hagree.words _ ⟨c, rest, rfl, hc, h⟩
    rw [Lexicon.wordKind] at hkind
    rw [hkind]
    exact .word hc h hafter
  | mark hc h => exact .mark hc (hagree.marks _ hc ▸ h)
  | unexpected hc h => exact .unexpected hc (hagree.marks _ hc ▸ h)

theorem Lexes.of_agrees {text : List Char} {found : List Segment}
    (hagree : lexicon.Agrees other) (h : Lexes lexicon text found) : Lexes other text found := by
  induction h with
  | nil => exact .nil
  | cons hs _ ih => exact .cons (hs.of_agrees hagree) ih

/-- Lexicons that agree cut every text alike. -/
theorem segments_of_agrees (hagree : lexicon.Agrees other) (text : List Char) :
    segments other text = segments lexicon text :=
  (lexes_iff ..).1 (((lexes_iff ..).2 rfl : Lexes lexicon text _).of_agrees hagree)

/-! ## Lexicons that scan alike -/

/-- A source of one piece has the item of that piece. -/
theorem scan_of_lexeme {text : List Char} {cls : SegmentClass} (h : Lexeme lexicon text cls []) :
    scan lexicon (String.ofList text) =
      ((Segment.mk text cls).item? (1 + text.count '\n')).toList ++
        [.ok (Token.finish (1 + text.count '\n'))] := by
  have hlexes := Lexes.cons (s := { text, cls }) h .nil
  rw [List.append_nil] at hlexes
  rw [scan, String.toList_ofList, (lexes_iff ..).1 hlexes]
  rfl

/-- The kind of a word shows where the word is the source. -/
theorem wordKind_eq_of_scan {word : String} (hword : Lexicon.Shaped word)
    (h : scan lexicon word = scan other word) :
    lexicon.wordKind word = other.wordKind word := by
  obtain ⟨c, rest, rfl, hc, hrest⟩ := hword
  rw [scan_of_lexeme (.word hc hrest nofun), scan_of_lexeme (.word hc hrest nofun)] at h
  exact congrArg Token.kind (Except.ok.inj (List.cons.inj h).1)

/-- The entry of a mark shows where the mark is the source. -/
theorem mark?_eq_of_scan {c : Char} (hc : ¬Structural c)
    (h : scan lexicon (String.ofList [c]) = scan other (String.ofList [c])) :
    lexicon.mark? c = other.mark? c := by
  cases hm : lexicon.mark? c with
  | none =>
    cases hm' : other.mark? c with
    | none => rfl
    | some kind =>
      rw [scan_of_lexeme (.unexpected hc hm), scan_of_lexeme (.mark hc hm')] at h
      cases (List.cons.inj h).1
  | some kind =>
    rw [scan_of_lexeme (.mark hc hm)] at h
    cases hm' : other.mark? c with
    | none =>
      rw [scan_of_lexeme (.unexpected hc hm')] at h
      cases (List.cons.inj h).1
    | some kind' =>
      rw [scan_of_lexeme (.mark hc hm')] at h
      exact congrArg some (congrArg Token.kind (Except.ok.inj (List.cons.inj h).1))

/-- Two lexicons find the same items in every source if and only if they agree on the kinds of
all words and on the entries of all characters that no rule claims.  So an entry for any other
text or character changes nothing. -/
theorem scan_eq_iff_agrees :
    (∀ lexicon other : Lexicon,
      (∀ source, scan lexicon source = scan other source) ↔ lexicon.Agrees other) ∧
    ∀ (lexicon : Lexicon) (entry : Option TokenKind) (source : String),
      (∀ word, ¬Lexicon.Shaped word →
        scan (lexicon.withWord word entry) source = scan lexicon source) ∧
      ∀ c, Structural c → scan (lexicon.withMark c entry) source = scan lexicon source := by
  have halike : ∀ {lexicon other : Lexicon}, lexicon.Agrees other →
      ∀ source, scan lexicon source = scan other source := fun hagree source => by
    rw [scan, scan, segments_of_agrees hagree]
  refine ⟨fun lexicon other => ⟨fun h => ?_, halike⟩, fun lexicon entry source => ⟨?_, ?_⟩⟩
  · exact ⟨fun word hword => wordKind_eq_of_scan hword (h word),
      fun c hc => mark?_eq_of_scan hc (h _)⟩
  · exact fun word hword => halike (Lexicon.agrees_withWord hword entry) source
  · exact fun c hc => halike (Lexicon.agrees_withMark hc entry) source

/-- A word does not start with a digit, and a quote is no mark. -/
theorem scan_eq_iff_agrees_digit :
    (¬Lexicon.Shaped "1st" ∧
      scan (Lexicon.standard.withWord "1st" (some .varKeyword)) "1st" = scan .standard "1st") ∧
    Structural '"' ∧
      scan (Lexicon.standard.withMark '"' (some .comma)) "\"" = scan .standard "\"" := by
  have hshape : ¬Lexicon.Shaped "1st" := by
    rintro ⟨c, rest, hword, hc, -⟩
    obtain rfl : c = '1' := (List.cons.inj (String.ofList_injective hword)).1.symm
    exact absurd hc (by unfold Letter; decide)
  have hquote : Structural '"' := .inl (by decide)
  have hword := (scan_eq_iff_agrees.2 .standard (some .varKeyword) "1st").1 _ hshape
  have hmark := (scan_eq_iff_agrees.2 .standard (some .comma) "\"").2 _ hquote
  exact ⟨⟨hshape, hword⟩, hquote, hmark⟩

end TreeScript
