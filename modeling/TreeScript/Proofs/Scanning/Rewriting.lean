import TreeScript.Proofs.Scanning.Boundaries
import TreeScript.Lexicon
import Std.Data.TreeMap.Lemmas
import Mathlib.Data.List.Nodup

/-!
# Rewriting the reserved words of a source

* `Renaming` — new words for the reserved words
* `Renaming.lexicon` — the lexicon with the new words
* `Renaming.rewrite` — a source in which exactly the reserved words are replaced
* `Renaming.segments_rewrite` — the new lexicon cuts the new source as the standard lexicon
  cuts the old one
-/

namespace TreeScript

/-! ## Words -/

/-- The reserved words of the language as it comes. -/
def Lexicon.reserved : List String :=
  standardKeywords.map Prod.fst

/-- Whether a text is shaped like an identifier. -/
def isWord (text : String) : Bool :=
  match text.toList with
  | [] => false
  | c :: rest => isWordStart c && rest.all isWordChar

/-- New words for the reserved words, different ones for different words. -/
structure Renaming where
  word : String → String
  shaped : ∀ w ∈ Lexicon.reserved, isWord (word w) = true
  injective : ∀ v ∈ Lexicon.reserved, ∀ w ∈ Lexicon.reserved, word v = word w → v = w

namespace Renaming

/-- The standard lexicon with the new words in place of the reserved ones. -/
def lexicon (r : Renaming) : Lexicon :=
  { keywords := Std.TreeMap.ofList
      (Lexicon.standardKeywords.map fun (w, kind) => (r.word w, kind))
    marks := Lexicon.standard.marks }

/-- A text in place of which its new word stands if it is a reserved word. -/
def text (r : Renaming) (text : List Char) : List Char :=
  if String.ofList text ∈ Lexicon.reserved then (r.word (String.ofList text)).toList else text

/-- A segment in which a reserved word is replaced. -/
def segment (r : Renaming) (s : Segment) : Segment :=
  { s with text := r.text s.text }

/-- The source in which exactly the reserved words are replaced. -/
def rewrite (r : Renaming) (source : String) : String :=
  String.ofList ((segments .standard source.toList).flatMap fun s => r.text s.text)

end Renaming

/-! ## Kinds of words -/

section

variable {α : Type} [Ord α] [Std.TransOrd α] [Std.LawfulEqOrd α]
variable {table : List (α × TokenKind)} {w : α} {kind : TokenKind}

theorem getElem?_ofList_of_mem (hn : (table.map Prod.fst).Nodup) (h : (w, kind) ∈ table) :
    (Std.TreeMap.ofList table)[w]? = some kind := by
  refine Std.TreeMap.getElem?_ofList_of_mem Std.ReflCmp.compare_self ?_ h
  exact (List.pairwise_map.1 hn).imp fun hne he => hne (Std.LawfulEqCmp.eq_of_compare he)

theorem getElem?_ofList_of_not_mem (h : w ∉ table.map Prod.fst) :
    (Std.TreeMap.ofList table)[w]? = none := by
  classical
  refine Std.TreeMap.getElem?_ofList_of_contains_eq_false ?_
  simpa using h

theorem mem_of_getElem?_ofList (hn : (table.map Prod.fst).Nodup)
    (h : (Std.TreeMap.ofList table)[w]? = some kind) : (w, kind) ∈ table := by
  by_cases hw : w ∈ table.map Prod.fst
  · obtain ⟨⟨w, found⟩, hp, rfl⟩ := List.mem_map.1 hw
    rw [getElem?_ofList_of_mem hn hp] at h
    cases h
    exact hp
  · rw [getElem?_ofList_of_not_mem hw] at h
    cases h

end

theorem Lexicon.nodup_reserved : reserved.Nodup := by
  decide

theorem Lexicon.isWord_of_reserved {w : String} (h : w ∈ reserved) : isWord w = true := by
  revert w
  decide

theorem Lexicon.wordKind_reserved {w : String} {kind : TokenKind}
    (h : (w, kind) ∈ standardKeywords) : standard.wordKind w = kind := by
  rw [wordKind, keyword?, standard, getElem?_ofList_of_mem nodup_reserved h, Option.getD_some]

theorem Lexicon.wordKind_of_not_reserved {w : String} (h : w ∉ reserved) :
    standard.wordKind w = .identifier := by
  rw [wordKind, keyword?, standard, getElem?_ofList_of_not_mem h, Option.getD_none]

namespace Renaming

variable (r : Renaming)

theorem map_fst : (Lexicon.standardKeywords.map fun p => (r.word p.1, p.2)).map Prod.fst =
    Lexicon.reserved.map r.word := by
  rw [Lexicon.reserved, List.map_map, List.map_map]
  rfl

/-- A new word is of the kind of its old one. -/
theorem wordKind_word {w : String} (hw : w ∈ Lexicon.reserved) :
    r.lexicon.wordKind (r.word w) = Lexicon.standard.wordKind w := by
  obtain ⟨⟨w, kind⟩, hp, rfl⟩ := List.mem_map.1 hw
  have hn : ((Lexicon.standardKeywords.map fun p => (r.word p.1, p.2)).map Prod.fst).Nodup := by
    rw [r.map_fst]
    exact List.Nodup.map_on r.injective Lexicon.nodup_reserved
  rw [Lexicon.wordKind_reserved hp, Lexicon.wordKind, Lexicon.keyword?, lexicon,
    getElem?_ofList_of_mem hn (List.mem_map.2 ⟨_, hp, rfl⟩), Option.getD_some]

/-- A word that is no new one is an identifier. -/
theorem wordKind_of_not_word {x : String} (h : ∀ w ∈ Lexicon.reserved, r.word w ≠ x) :
    r.lexicon.wordKind x = .identifier := by
  have hx : x ∉ (Lexicon.standardKeywords.map fun p => (r.word p.1, p.2)).map Prod.fst := by
    rw [r.map_fst]
    rintro hm
    obtain ⟨w, hw, rfl⟩ := List.mem_map.1 hm
    exact h w hw rfl
  rw [Lexicon.wordKind, Lexicon.keyword?, lexicon, getElem?_ofList_of_not_mem hx,
    Option.getD_none]

theorem mark?_lexicon (c : Char) : r.lexicon.mark? c = Lexicon.standard.mark? c := by
  rw [Lexicon.mark?, Lexicon.mark?, lexicon]

/-! ## Segments of the new source -/

/-- The text of segments in which the reserved words are replaced. -/
def texts (found : List Segment) : List Char :=
  found.flatMap fun s => r.text s.text

/-- A new word starts with a letter, which no other character follows than those of words. -/
theorem text_reserved {cs : List Char} (h : String.ofList cs ∈ Lexicon.reserved) :
    ∃ c rest, r.text cs = c :: rest ∧ isWordStart c = true ∧
      ∀ x ∈ rest, isWordChar x = true := by
  have hshape := r.shaped _ h
  rw [text, if_pos h]
  unfold isWord at hshape
  split at hshape
  · cases hshape
  · rename_i c rest hword
    simp only [Bool.and_eq_true, List.all_eq_true] at hshape
    exact ⟨c, rest, hword, hshape.1, hshape.2⟩

theorem isWordStart_of_reserved {c : Char} {rest : List Char}
    (h : String.ofList (c :: rest) ∈ Lexicon.reserved) : isWordStart c = true := by
  have hshape := Lexicon.isWord_of_reserved h
  rw [isWord, String.toList_ofList] at hshape
  exact (Bool.and_eq_true _ _ ▸ hshape).1

/-- The new text looks like the old one. -/
theorem sight_texts (cs : List Char) :
    sight (r.texts (segments .standard cs)) = sight cs := by
  have hstart : ∀ {c : Char} {rest : List Char}, isWordStart c = true →
      sight (c :: rest) = ('_', false) := by
    intro c rest hc
    have hpoint : (c == '.') = false := by
      rw [beq_eq_false_iff_ne]
      rintro rfl
      cases hc
    rw [sight, glimpse, if_pos hc, hpoint, Bool.false_and]
  induction cs using segments.induct .standard with
  | case1 => simp [segments, texts]
  | case2 c rest cls extent hcut ih =>
    rw [segments, hcut]
    simp only [texts, List.flatMap_cons]
    by_cases hm : String.ofList (c :: rest.take extent) ∈ Lexicon.reserved
    · obtain ⟨c', rest', htext, hc', -⟩ := r.text_reserved hm
      rw [htext, List.cons_append, hstart hc', hstart (isWordStart_of_reserved hm)]
    · rw [text, if_neg hm, List.cons_append]
      by_cases hc : c = '.'
      · -- a point is a segment of its own
        subst hc
        have hextent : extent = 0 := by
          have hmark : Segment.cut .standard '.' rest = Segment.cutMark .standard '.' := rfl
          rw [hmark, Segment.cutMark] at hcut
          split at hcut <;> cases hcut <;> rfl
        subst hextent
        rw [sight, sight, List.take_zero, List.nil_append]
        exact congrArg (fun b => (glimpse '.', '.' == '.' && b))
          (any_head?_of_sight ih glimpse_isDigit (by decide))
      · have hpoint : (c == '.') = false := beq_eq_false_iff_ne.2 hc
        rw [sight, sight, hpoint, Bool.false_and, Bool.false_and]

/-- The new lexicon cuts the new text as the standard lexicon cuts the old one, if no
identifier is one of the new words. -/
theorem segments_texts (cs : List Char)
    (hnew : ∀ s ∈ segments .standard cs, s.cls = .token .identifier none →
      ∀ w ∈ Lexicon.reserved, r.word w ≠ String.ofList s.text) :
    segments r.lexicon (r.texts (segments .standard cs)) =
      (segments .standard cs).map r.segment := by
  induction cs using segments.induct .standard with
  | case1 => simp [segments, texts]
  | case2 c rest cls extent hcut ih =>
    have hsight := r.sight_texts (rest.drop extent)
    rw [segments, hcut] at hnew ⊢
    rw [List.forall_mem_cons] at hnew
    replace ih := ih hnew.2
    have hnew := hnew.1
    have hopen : cls.isOpen = true → r.texts (segments .standard (rest.drop extent)) = [] := by
      intro ho
      rw [Segment.drop_of_isOpen hcut ho]
      simp [segments, texts]
    simp only [texts, List.flatMap_cons, List.map_cons] at ih hsight hopen ⊢
    generalize (segments .standard (rest.drop extent)).flatMap (fun s => r.text s.text) = tail
      at ih hsight hopen ⊢
    rw [← ih, segment]
    cases hc : isWordStart c with
    | false =>
      have htext : r.text (c :: rest.take extent) = c :: rest.take extent :=
        if_neg fun hm => by
          rw [isWordStart_of_reserved hm] at hc
          cases hc
      rw [htext, List.cons_append]
      refine segments_cons_append _ ?_
      rw [List.length_take_of_le (Segment.extent_le hcut)]
      exact Segment.cut_congr hc (r.mark?_lexicon c) hcut hsight hopen
    | true =>
      have hword : ∀ x ∈ rest.takeWhile isWordChar, isWordChar x = true :=
        fun _ hx => List.mem_takeWhile_imp hx
      have hcutWord := Segment.cut_word .standard hc hword (any_head?_dropWhile isWordChar rest)
      rw [List.takeWhile_append_dropWhile, hcut] at hcutWord
      obtain ⟨rfl, rfl⟩ := Prod.mk.inj hcutWord
      rw [drop_length_takeWhile] at hsight
      rw [take_length_takeWhile] at hnew ⊢
      have htail : tail.head?.any isWordChar = false :=
        (any_head?_of_sight hsight glimpse_isWordChar (by decide)).trans (any_head?_dropWhile ..)
      by_cases hm : String.ofList (c :: rest.takeWhile isWordChar) ∈ Lexicon.reserved
      · obtain ⟨c', rest', htext, hc', hrest⟩ := r.text_reserved hm
        have hkind : r.lexicon.wordKind (String.ofList (c' :: rest')) =
            Lexicon.standard.wordKind (String.ofList (c :: rest.takeWhile isWordChar)) := by
          rw [← htext, text, if_pos hm, String.ofList_toList, r.wordKind_word hm]
        rw [htext, ← hkind, List.cons_append]
        exact segments_cons_append _ (Segment.cut_word _ hc' hrest htail)
      · have hkind : r.lexicon.wordKind (String.ofList (c :: rest.takeWhile isWordChar)) =
            Lexicon.standard.wordKind (String.ofList (c :: rest.takeWhile isWordChar)) := by
          have hidentifier := Lexicon.wordKind_of_not_reserved hm
          rw [hidentifier, r.wordKind_of_not_word (hnew (by rw [hidentifier]))]
        rw [text, if_neg hm, ← hkind, List.cons_append]
        exact segments_cons_append _ (Segment.cut_word _ hc hword htail)

end Renaming

end TreeScript
