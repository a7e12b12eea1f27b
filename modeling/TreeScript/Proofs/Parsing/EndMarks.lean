import TreeScript.Lexicon.Json
import TreeScript.Proofs.Scanning.Agreement
import TreeScript.Proofs.Scanning.Concatenation
import TreeScript.Proofs.Parsing.Totality
import Mathlib

/-!
# Where a source ends

The items of a source end with an end mark, and parsing stops at the first one.  If that is
the only one, every token of the source is parsed.  A lexicon can make end marks of words and
of characters: then a source may end early, and what follows is passed over without a fault.

* `EndsOnce` — items with an end mark behind them, and no other
* `Lexicon.Ends` — the texts that a lexicon makes end marks
* `ends_iff_of_mem_segments` — they are read as end marks, and no other text is
* `scan_endsOnce_iff` — a source ends once if and only if it is parsed up to its last token,
  and all sources do if and only if the lexicon makes no end marks
-/

namespace TreeScript

variable {lexicon : Lexicon}

/-! ## Items with one end mark -/

/-- Items of which the last one is an end mark, and no other. -/
def EndsOnce (found : List (Except Diagnostic Token)) : Prop :=
  ∃ front last, found = front ++ [.ok last] ∧ last.kind = .endOfInput ∧
    ∀ t, .ok t ∈ front → t.kind ≠ .endOfInput

/-- Behind further items, those end once in which no end mark is added. -/
theorem endsOnce_append_iff {front found : List (Except Diagnostic Token)} (hne : found ≠ []) :
    EndsOnce (front ++ found) ↔
      (∀ t, .ok t ∈ front → t.kind ≠ .endOfInput) ∧ EndsOnce found := by
  constructor
  · rintro ⟨all, last, heq, hlast, hall⟩
    rw [← List.dropLast_append_getLast hne, ← List.append_assoc] at heq
    obtain ⟨rfl, hlast'⟩ := List.append_inj' heq rfl
    refine ⟨fun t ht => hall t (List.mem_append_left _ ht), found.dropLast, last, ?_, hlast,
      fun t ht => hall t (List.mem_append_right _ ht)⟩
    rw [← hlast', List.dropLast_append_getLast hne]
  · rintro ⟨hfront, more, last, rfl, hlast, hmore⟩
    refine ⟨front ++ more, last, (List.append_assoc ..).symm, hlast, fun t ht => ?_⟩
    rcases List.mem_append.1 ht with ht | ht
    · exact hfront t ht
    · exact hmore t ht

theorem endsOnce_singleton {last : Token} (h : last.kind = .endOfInput) :
    EndsOnce [.ok last] :=
  ⟨[], last, rfl, h, nofun⟩

/-- The items of segments end once if no segment is an end mark. -/
theorem endsOnce_items_iff {line : Nat} {found : List Segment} :
    EndsOnce (items line found) ↔
      ∀ piece ∈ found, ∀ literal, piece.cls ≠ .token .endOfInput literal := by
  induction found generalizing line with
  | nil => exact iff_of_true (endsOnce_singleton rfl) nofun
  | cons piece rest ih =>
    rw [items, endsOnce_append_iff (items_ne_nil _ _), ih, List.forall_mem_cons]
    refine and_congr_left fun _ => ?_
    unfold Segment.item?
    cases piece.cls with
    | blank => simp
    | token kind literal => simp
    | fault fault => simp

theorem mem_tokensOf_iff {t : Token} {found : List (Except Diagnostic Token)} :
    t ∈ tokensOf found ↔ .ok t ∈ found := by
  rw [tokensOf, List.mem_filterMap]
  constructor
  · rintro ⟨item, hitem, ht⟩
    cases item with
    | ok t' => exact Option.some.inj ht ▸ hitem
    | error d => cases ht
  · exact fun h => ⟨_, h, rfl⟩

theorem tokensOf_append_ok (front : List (Except Diagnostic Token)) (last : Token) :
    tokensOf (front ++ [.ok last]) = tokensOf front ++ [last] :=
  List.filterMap_append

/-- Items end once if the first end mark among their tokens stands at the last place. -/
theorem endsOnce_iff_firstEnd {front : List (Except Diagnostic Token)} {last : Token}
    (h : last.kind = .endOfInput) :
    EndsOnce (front ++ [.ok last]) ↔
      firstEnd (tokensOf (front ++ [.ok last])) = (tokensOf front).length := by
  rw [endsOnce_append_iff (List.cons_ne_nil _ _), and_iff_left (endsOnce_singleton h),
    tokensOf_append_ok]
  constructor
  · intro hfront
    rw [firstEnd_append fun t ht => hfront t (mem_tokensOf_iff.1 ht),
      firstEnd_cons_of_end h, Nat.add_zero]
  · intro heq t ht hend
    have hlt : firstEnd (tokensOf front) < (tokensOf front).length :=
      Marked.firstEnd_lt ⟨t, mem_tokensOf_iff.2 ht, hend⟩
    rw [firstEnd] at hlt heq
    rw [List.findIdx_append, if_pos hlt] at heq
    exact Nat.ne_of_lt hlt heq

/-! ## Texts that are end marks -/

/-- The texts that a lexicon makes end marks: words, and characters that no rule claims. -/
inductive Lexicon.Ends (lexicon : Lexicon) : List Char → Prop where
  | word {word} (h : Shaped word) (hkind : lexicon.wordKind word = .endOfInput) :
      Ends lexicon word.toList
  | mark {c} (hc : ¬Structural c) (h : lexicon.mark? c = some .endOfInput) : Ends lexicon [c]

/-- No other text is read as an end mark. -/
theorem Lexeme.ends {text after : List Char} {literal : Option Literal}
    (h : Lexeme lexicon text (.token .endOfInput literal) after) : lexicon.Ends text := by
  generalize hcls : SegmentClass.token .endOfInput literal = cls at h
  cases h with
  | comparison h =>
    cases hcls
    simp [comparisons] at h
  | comparisonEqual h =>
    cases hcls
    simp [comparisons] at h
  | @word c rest _ hc h _ =>
    have hkind : lexicon.wordKind (String.ofList (c :: rest)) = .endOfInput :=
      (SegmentClass.token.inj hcls).1.symm
    have hword := Lexicon.Ends.word ⟨c, rest, rfl, hc, h⟩ hkind
    rwa [String.toList_ofList] at hword
  | mark hc h =>
    cases hcls
    exact .mark hc h
  | _ => cases hcls

theorem Segment.cut_letter {c : Char} (hc : Letter c) (rest : List Char) :
    Segment.cut lexicon c rest = Segment.cutWord lexicon c rest := by
  have hstart : isWordStart c = true := isWordStart_iff.2 hc
  have hruled : c ∉ ruledCharacters := fun hmem => by
    simp only [ruledCharacters, List.mem_cons, List.not_mem_nil, or_false] at hmem
    rcases hmem with rfl | rfl | rfl | rfl | rfl | rfl | rfl | rfl | rfl | rfl <;> cases hstart
  have hdigit : ¬c.isDigit = true := fun hd => by
    rw [isWordStart_of_isDigit hd] at hstart
    cases hstart
  rw [Segment.cut_of_not_mem hruled, if_neg hdigit, if_pos hstart]

/-- Wherever such a text is a piece of a source, it is read as an end mark. -/
theorem Lexeme.cls_of_ends {text after : List Char} {cls : SegmentClass}
    (h : Lexeme lexicon text cls after) (hends : lexicon.Ends text) :
    cls = .token .endOfInput none := by
  obtain ⟨c, piece, rfl, hcut⟩ := h.cut_eq
  generalize htext : c :: piece = text at hends
  cases hends with
  | word hword hkind =>
    obtain ⟨first, rest, rfl, hfirst, -⟩ := hword
    rw [String.toList_ofList] at htext
    obtain ⟨rfl, rfl⟩ := List.cons.inj htext
    rw [Segment.cut_letter hfirst, Segment.cutWord] at hcut
    obtain ⟨hcls, hlength⟩ := Prod.mk.inj hcut
    -- what is cut is as long as the word, so it is the word
    have htail : (piece ++ after).takeWhile isWordChar = piece :=
      (List.prefix_of_prefix_length_le (List.takeWhile_prefix _) (List.prefix_append _ _)
        hlength.le).eq_of_length hlength
    rw [htail, hkind] at hcls
    exact hcls.symm
  | mark hc hmark =>
    obtain ⟨rfl, rfl⟩ := List.cons.inj htext
    rw [Segment.cut_mark hc, Segment.cutMark, hmark] at hcut
    exact (Prod.mk.inj hcut).1.symm

/-- A text that is made an end mark, as a source, is followed by another one. -/
theorem Lexicon.Ends.not_endsOnce {text : List Char} (h : lexicon.Ends text) :
    ¬EndsOnce (scan lexicon (String.ofList text)) := by
  have hpiece : Lexeme lexicon text (.token .endOfInput none) [] := by
    cases h with
    | word hword hkind =>
      obtain ⟨c, rest, rfl, hc, hrest⟩ := hword
      rw [String.toList_ofList, ← hkind]
      exact .word hc hrest nofun
    | mark hc h => exact .mark hc h
  rw [scan_of_lexeme hpiece, endsOnce_append_iff (List.cons_ne_nil _ _)]
  exact fun hends => hends.1 _ (List.mem_singleton.2 rfl) rfl

/-- The segments that are end marks are those whose texts the lexicon makes end marks. -/
theorem ends_iff_of_mem_segments {text : List Char} {piece : Segment}
    (h : piece ∈ segments lexicon text) :
    lexicon.Ends piece.text ↔ ∃ literal, piece.cls = .token .endOfInput literal := by
  have hlexes : Lexes lexicon text (segments lexicon text) := (lexes_iff ..).2 rfl
  generalize segments lexicon text = found at h hlexes
  induction hlexes with
  | nil => cases h
  | cons hs _ ih =>
    rcases List.mem_cons.1 h with rfl | h
    · exact ⟨fun hends => ⟨none, hs.cls_of_ends hends⟩, fun ⟨_, hcls⟩ => Lexeme.ends (hcls ▸ hs)⟩
    · exact ih h

/-! ## Sources that end once -/

/-- All sources end once if and only if the lexicon makes no end marks.  One source ends once
if and only if none of its segments is a text that the lexicon makes an end mark, and just then
parsing stops at its last token, with none that is passed over. -/
theorem scan_endsOnce_iff (lexicon : Lexicon) :
    ((∀ source, EndsOnce (scan lexicon source)) ↔ ∀ text, ¬lexicon.Ends text) ∧
    ∀ source,
      (EndsOnce (scan lexicon source) ↔
        ∀ piece ∈ segments lexicon source.toList, ¬lexicon.Ends piece.text) ∧
      ∀ firstId, ∃ found places after,
        Program.Pass (tokensOf (scan lexicon source)) firstId found places after ∧
        (EndsOnce (scan lexicon source) ↔ after.rest.length = 1) := by
  have hpieces : ∀ source, EndsOnce (scan lexicon source) ↔
      ∀ piece ∈ segments lexicon source.toList, ¬lexicon.Ends piece.text := fun source => by
    refine endsOnce_items_iff.trans (forall₂_congr fun piece hpiece => ?_)
    rw [ends_iff_of_mem_segments hpiece, not_exists]
  refine ⟨⟨fun h text hends => hends.not_endsOnce (h _), fun h source => ?_⟩,
    fun source => ⟨hpieces source, fun firstId => ?_⟩⟩
  · exact (hpieces source).2 fun piece _ => h piece.text
  · rw [scan, items_eq_dropLast_append]
    generalize (items 1 (segments lexicon source.toList)).dropLast = front
    generalize hlast : Token.finish _ = last
    have hend : last.kind = .endOfInput := hlast ▸ rfl
    have hm : Marked (tokensOf (front ++ [.ok last])) :=
      ⟨last, mem_tokensOf_iff.2 (List.mem_append_right _ (List.mem_singleton.2 rfl)), hend⟩
    obtain ⟨found, places, after, hpass⟩ := Program.exists_pass hm firstId
    refine ⟨found, places, after, hpass, ?_⟩
    have hlt := hm.firstEnd_lt
    rw [endsOnce_iff_firstEnd hend, hpass.stops, List.length_drop]
    rw [tokensOf_append_ok, List.length_append, List.length_singleton] at hlt ⊢
    omega

/-- A text for a lexicon in which the word `end` is an end mark. -/
def endWordText : String :=
  "\x7b\"keywords\": \x7b\"end\": \"EOF\"\x7d\x7d"

/-- The lexicon in which `end` is the only word with an entry. -/
def endWord : Lexicon :=
  { Lexicon.standard with keywords := (∅ : Std.TreeMap String TokenKind).insert "end" .endOfInput }

/-- A lexicon that is given as a text can make a source end before its last token, and what
follows is then passed over without a fault. -/
theorem endWord_passes_over :
    (¬∀ blob lexicon, Lexicon.ofJson blob = .ok lexicon →
      ∀ source, EndsOnce (scan lexicon source)) ∧
    ¬∀ blob lexicon, Lexicon.ofJson blob = .ok lexicon → ∀ source,
      diagnosticsOf (scan lexicon source) = [] →
      (Program.ofTokens (tokensOf (scan lexicon source)) 0).diagnostics = [] →
      ∀ found places after,
        Program.Pass (tokensOf (scan lexicon source)) 0 found places after →
        after.rest.length = 1 := by
  have hread : Lexicon.ofJson endWordText = .ok endWord := by cbv
  have hscan : scan endWord "end )" =
      [.ok (Program.word .endOfInput "end"), .ok (Program.word .rightParen ")")] ++
        [.ok (Token.finish 1)] := by
    cbv
  refine ⟨fun h => ?_, fun h => ?_⟩
  · have hends := h endWordText endWord hread "end )"
    rw [hscan, endsOnce_append_iff (List.cons_ne_nil _ _)] at hends
    exact hends.1 _ List.mem_cons_self rfl
  · have hlast := h endWordText endWord hread "end )"
    rw [hscan] at hlast
    have hm : Marked [Program.word .endOfInput "end", Program.word .rightParen ")",
        Token.finish 1] := ⟨_, List.mem_cons_self, rfl⟩
    obtain ⟨found, places, after, hpass⟩ := Program.exists_pass hm 0
    have hone := hlast rfl rfl found places after hpass
    rw [hpass.stops] at hone
    cases hone

end TreeScript
