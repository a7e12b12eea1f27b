import TreeScript.Proofs.Numbers.Rounding
import TreeScript.Proofs.Scanning.Boundaries

/-!
# The lexical grammar

What a piece of text is, said by what it looks like and by what may follow it.  No rule
depends on another one being tried before it.

* `Letter`, `Digit`, `Structural` — classes of characters
* `Closes` — a text that closes open block comments and ends right there
* `Lexeme` — the rules of the grammar: a piece of text and what follows it
* `Lexes` — pieces of text one after the other
* `lexes_iff` — a text is cut into the pieces of the grammar, and in no other way
* `scan_by_grammar` — the items of a source are those of its one reading
-/

namespace TreeScript

/-! ## Characters -/

/-- The characters that a word may start with. -/
def Letter (c : Char) : Prop :=
  ('A' ≤ c ∧ c ≤ 'Z') ∨ ('a' ≤ c ∧ c ≤ 'z') ∨ c = '_'

/-- The characters of numbers. -/
def Digit (c : Char) : Prop :=
  '0' ≤ c ∧ c ≤ '9'

/-- The characters with a rule of their own. -/
def ruledCharacters : List Char :=
  ['!', '=', '<', '>', '/', '"', ' ', '\t', '\r', '\n']

/-- The characters that are no marks, whatever the lexicon says. -/
def Structural (c : Char) : Prop :=
  c ∈ ruledCharacters ∨ Digit c ∨ Letter c

/-- No character of a class stands at the front of a text. -/
def Without (p : Char → Prop) (after : List Char) : Prop :=
  ∀ c ∈ after.head?, ¬p c

theorem isDigit_iff {c : Char} : c.isDigit = true ↔ Digit c := by
  simp [Char.isDigit, Digit, Char.le_def]

theorem isWordStart_iff {c : Char} : isWordStart c = true ↔ Letter c := by
  unfold isWordStart Char.isAlpha Char.isUpper Char.isLower
  simp [Letter, Char.le_def, or_assoc]

theorem isWordChar_iff {c : Char} : isWordChar c = true ↔ Letter c ∨ Digit c := by
  rw [isWordChar_eq, Bool.or_eq_true, isWordStart_iff, isDigit_iff]

theorem without_iff {p : Char → Prop} {q : Char → Bool} (h : ∀ c, q c = true ↔ p c)
    {after : List Char} : Without p after ↔ after.head?.any q = false := by
  cases after with
  | nil => simp [Without]
  | cons c rest => simp [Without, ← h]

theorem Without.head?_ne {c : Char} {after : List Char} (h : Without (· = c) after) :
    after.head? ≠ some c :=
  fun hc => h c hc rfl

/-! ## The rules -/

/-- A text that closes `depth` open block comments and ends with the mark that closes the last
of them.  Marks are read from left to right and do not overlap. -/
inductive Closes : Nat → List Char → Prop where
  | last : Closes 1 ['*', '/']
  | closer {depth text} (h : Closes depth text) : Closes (depth + 1) ('*' :: '/' :: text)
  | opener {depth text} (h : Closes (depth + 2) text) :
      Closes (depth + 1) ('/' :: '*' :: text)
  | other {depth c text} (hopen : ¬['/', '*'] <+: c :: text) (hclose : ¬['*', '/'] <+: c :: text)
      (h : Closes depth text) : Closes depth (c :: text)

/-- The marks of comparisons, alone and with an equals sign behind them. -/
def comparisons : List (Char × TokenKind × TokenKind) :=
  [('!', .bang, .bangEqual), ('=', .equal, .equalEqual), ('<', .less, .lessEqual),
    ('>', .greater, .greaterEqual)]

/-- A piece of text in front of the text that follows it, and what it is. -/
inductive Lexeme (lexicon : Lexicon) : List Char → SegmentClass → List Char → Prop where
  | space {c after} (h : c ∈ [' ', '\t', '\r', '\n']) : Lexeme lexicon [c] .blank after
  | lineComment {body after} (h : '\n' ∉ body) (hafter : Without (· ≠ '\n') after) :
      Lexeme lexicon ('/' :: '/' :: body) .blank after
  | blockComment {body after} (h : Closes 1 body) :
      Lexeme lexicon ('/' :: '*' :: body) .blank after
  | openComment {body} (h : ∀ part, part <+: body → ¬Closes 1 part) :
      Lexeme lexicon ('/' :: '*' :: body) (.fault .unterminatedComment) []
  | slash {after} (hslash : Without (· = '/') after) (hstar : Without (· = '*') after) :
      Lexeme lexicon ['/'] (.token .slash none) after
  | comparison {c alone withEqual after} (h : (c, alone, withEqual) ∈ comparisons)
      (hafter : Without (· = '=') after) : Lexeme lexicon [c] (.token alone none) after
  | comparisonEqual {c alone withEqual after} (h : (c, alone, withEqual) ∈ comparisons) :
      Lexeme lexicon [c, '='] (.token withEqual none) after
  | string {body after} (h : '"' ∉ body) :
      Lexeme lexicon ('"' :: (body ++ ['"']))
        (.token .string (some (.string (String.ofList body)))) after
  | openString {body} (h : '"' ∉ body) :
      Lexeme lexicon ('"' :: body) (.fault .unterminatedString) []
  | number {whole after value} (hne : whole ≠ []) (h : ∀ c ∈ whole, Digit c)
      (hafter : Without Digit after) (hpoint : ∀ tail, after = '.' :: tail → Without Digit tail)
      (hvalue : Number.Denotes whole [] value) :
      Lexeme lexicon whole (.token .number (some (.number value))) after
  | fraction {whole fraction after value} (hne : whole ≠ []) (hne' : fraction ≠ [])
      (h : ∀ c ∈ whole ++ fraction, Digit c) (hafter : Without Digit after)
      (hvalue : Number.Denotes whole fraction value) :
      Lexeme lexicon (whole ++ '.' :: fraction) (.token .number (some (.number value))) after
  | word {c rest after} (hc : Letter c) (h : ∀ x ∈ rest, Letter x ∨ Digit x)
      (hafter : Without (fun x => Letter x ∨ Digit x) after) :
      Lexeme lexicon (c :: rest)
        (.token ((lexicon.keyword? (String.ofList (c :: rest))).getD .identifier) none) after
  | mark {c kind after} (hc : ¬Structural c) (h : lexicon.mark? c = some kind) :
      Lexeme lexicon [c] (.token kind none) after
  | unexpected {c after} (hc : ¬Structural c) (h : lexicon.mark? c = none) :
      Lexeme lexicon [c] (.fault (.unexpectedCharacter c)) after

/-- Pieces of text one after the other, each in front of all the text that follows it. -/
inductive Lexes (lexicon : Lexicon) : List Char → List Segment → Prop where
  | nil : Lexes lexicon [] []
  | cons {s after found} (h : Lexeme lexicon s.text s.cls after) (hrest : Lexes lexicon after found) :
      Lexes lexicon (s.text ++ after) (s :: found)

/-! ## Block comments -/

theorem Closes.pos {depth : Nat} {text : List Char} (h : Closes depth text) : 0 < depth := by
  induction h with
  | other _ _ _ ih => exact ih
  | _ => exact Nat.succ_pos _

theorem Closes.ne_nil {depth : Nat} {text : List Char} (h : Closes depth text) : text ≠ [] := by
  cases h <;> exact List.cons_ne_nil _ _

/-- The marks of comments are two characters that a text starts with. -/
theorem pair_prefix_iff {a b c : Char} {text : List Char} :
    [a, b] <+: c :: text ↔ c = a ∧ text.head? = some b := by
  rw [List.cons_prefix_cons, List.head?_eq_some_iff, eq_comm]
  exact and_congr_right fun _ => ⟨fun ⟨rest, h⟩ => ⟨rest, h.symm⟩, fun ⟨rest, h⟩ => ⟨rest, h.symm⟩⟩

/-- A text that is not two given characters and a rest does not start with them. -/
theorem not_pair_start {a b c : Char} {text : List Char}
    (h : ∀ rest, c = a → text = b :: rest → False) : ¬[a, b] <+: c :: text := by
  rw [pair_prefix_iff, List.head?_eq_some_iff]
  rintro ⟨hc, rest, htext⟩
  exact h rest hc htext

/-- A character that opens and closes no comment is passed over. -/
theorem commentExtent_other {depth : Nat} {c : Char} {text : List Char}
    (hopen : ¬['/', '*'] <+: c :: text) (hclose : ¬['*', '/'] <+: c :: text) :
    commentExtent depth (c :: text) = (commentExtent depth text).map (· + 1) := by
  rw [commentExtent]
  · rintro rest rfl rfl
    exact hopen ⟨rest, rfl⟩
  · rintro rest rfl rfl
    exact hclose ⟨rest, rfl⟩

/-- A comment that is closed ends there, whatever follows. -/
theorem Closes.commentExtent {depth : Nat} {text : List Char} (h : Closes depth text)
    (tail : List Char) : commentExtent depth (text ++ tail) = some text.length := by
  induction h with
  | last => rfl
  | @closer depth text h ih =>
    have hdepth : ¬depth + 1 ≤ 1 := Nat.not_le.2 (Nat.succ_lt_succ h.pos)
    rw [List.cons_append, List.cons_append, TreeScript.commentExtent, if_neg hdepth]
    exact congrArg (Option.map (· + 2)) ih
  | opener _ ih =>
    rw [List.cons_append, List.cons_append, TreeScript.commentExtent, ih]
    rfl
  | @other depth c text hopen hclose h ih =>
    have hhead : (text ++ tail).head? = text.head? := List.head?_append_of_ne_nil _ h.ne_nil
    rw [pair_prefix_iff] at hopen hclose
    rw [List.cons_append, commentExtent_other, ih]
    · rfl
    · rwa [pair_prefix_iff, hhead]
    · rwa [pair_prefix_iff, hhead]

theorem closes_of_commentExtent {depth extent : Nat} {text : List Char} (hdepth : 0 < depth)
    (h : commentExtent depth text = some extent) : Closes depth (text.take extent) := by
  fun_induction commentExtent depth text generalizing extent with
  | case1 depth rest ih =>
    obtain ⟨inner, hi, rfl⟩ := Option.map_eq_some_iff.1 h
    obtain ⟨depth, rfl⟩ := Nat.exists_eq_succ_of_ne_zero hdepth.ne'
    exact .opener (ih (Nat.succ_pos _) hi)
  | case2 depth rest hd =>
    cases h
    obtain rfl : depth = 1 := Nat.le_antisymm hd hdepth
    exact .last
  | case3 depth rest hd ih =>
    obtain ⟨inner, hi, rfl⟩ := Option.map_eq_some_iff.1 h
    obtain ⟨depth, rfl⟩ := Nat.exists_eq_succ_of_ne_zero hdepth.ne'
    exact .closer (ih (Nat.lt_of_succ_lt_succ (Nat.not_le.1 hd)) hi)
  | case4 depth c rest hopen hclose ih =>
    obtain ⟨inner, hi, rfl⟩ := Option.map_eq_some_iff.1 h
    have htake : (c :: rest).take (inner + 1) <+: c :: rest := List.take_prefix ..
    exact .other (fun hpair => not_pair_start hopen (hpair.trans htake))
      (fun hpair => not_pair_start hclose (hpair.trans htake)) (ih hdepth hi)
  | case5 => cases h

/-- A comment is left open if it is closed nowhere. -/
theorem commentExtent_eq_none_iff {text : List Char} :
    commentExtent 1 text = none ↔ ∀ part, part <+: text → ¬Closes 1 part := by
  constructor
  · rintro h part ⟨tail, rfl⟩ hpart
    rw [hpart.commentExtent] at h
    cases h
  · intro h
    cases hextent : commentExtent 1 text with
    | none => rfl
    | some extent =>
      exact absurd (closes_of_commentExtent Nat.one_pos hextent)
        (h _ (List.take_prefix extent text))

/-! ## From the rules to the cut -/

/-- No digit follows, not even behind a point. -/
theorem sight_snd_iff {after : List Char} :
    (sight after).2 = false ↔ ∀ tail, after = '.' :: tail → Without Digit tail := by
  simp only [without_iff fun _ => isDigit_iff]
  cases after with
  | nil => simp [sight]
  | cons c rest =>
    rw [sight, Bool.and_eq_false_imp, beq_iff_eq]
    constructor
    · rintro h tail htail
      cases htail
      exact h rfl
    · rintro h rfl
      exact h rest rfl

namespace Segment

variable {lexicon : Lexicon} {c : Char} {rest after : List Char}

/-- A character without a rule of its own starts a number or a word, or is a mark. -/
theorem cut_of_not_mem (h : c ∉ ruledCharacters) :
    cut lexicon c rest =
      if c.isDigit then cutNumber c rest
      else if isWordStart c then cutWord lexicon c rest
      else cutMark lexicon c := by
  unfold cut
  split
  case h_11 => rfl
  all_goals exact absurd (by decide) h

theorem cut_digit (h : Digit c) : cut lexicon c rest = cutNumber c rest := by
  have hruled : c ∉ ruledCharacters := fun hc => by
    simp only [ruledCharacters, List.mem_cons, List.not_mem_nil, or_false] at hc
    unfold Digit at h
    rcases hc with rfl | rfl | rfl | rfl | rfl | rfl | rfl | rfl | rfl | rfl <;>
      exact absurd h (by decide)
  rw [cut_of_not_mem hruled, if_pos (isDigit_iff.2 h)]

theorem cut_mark (h : ¬Structural c) : cut lexicon c rest = cutMark lexicon c := by
  rw [Structural, ← isDigit_iff, ← isWordStart_iff, not_or, not_or] at h
  rw [cut_of_not_mem h.1, if_neg h.2.1, if_neg h.2.2]

theorem cut_comparison {alone withEqual : TokenKind} (h : (c, alone, withEqual) ∈ comparisons) :
    cut lexicon c rest = cutComparison withEqual alone rest := by
  simp only [comparisons, List.mem_cons, Prod.mk.injEq, List.not_mem_nil, or_false] at h
  rcases h with ⟨rfl, rfl, rfl⟩ | ⟨rfl, rfl, rfl⟩ | ⟨rfl, rfl, rfl⟩ | ⟨rfl, rfl, rfl⟩ <;> rfl

theorem cutSlash_alone (hslash : Without (· = '/') after) (hstar : Without (· = '*') after) :
    cutSlash after = (.token .slash none, 0) := by
  rw [cutSlash]
  · rintro rest rfl
    exact hslash.head?_ne rfl
  · rintro rest rfl
    exact hstar.head?_ne rfl

theorem cutString_open (h : '"' ∉ rest) :
    cutString rest = (.fault .unterminatedString, rest.length) := by
  have hall : rest.takeWhile (· != '"') = rest :=
    List.takeWhile_eq_self_iff.2 fun x hx => bne_iff_ne.2 fun he => h (he ▸ hx)
  simp only [cutString, hall, Nat.lt_irrefl, if_false]

end Segment

/-- A piece of the grammar is what is cut from its text. -/
theorem Lexeme.cut_eq {lexicon : Lexicon} {text after : List Char} {cls : SegmentClass}
    (h : Lexeme lexicon text cls after) : ∃ c piece, text = c :: piece ∧
      Segment.cut lexicon c (piece ++ after) = (cls, piece.length) := by
  cases h with
  | @space c _ h =>
    refine ⟨c, [], rfl, ?_⟩
    simp only [List.mem_cons, List.not_mem_nil, or_false] at h
    rcases h with rfl | rfl | rfl | rfl <;> rfl
  | @lineComment body after h hafter =>
    have hbody : ∀ x ∈ body, (x != '\n') = true := fun x hx => bne_iff_ne.2 fun he => h (he ▸ hx)
    have htake : (body ++ after).takeWhile (· != '\n') = body :=
      takeWhile_append hbody ((without_iff fun _ => bne_iff_ne).1 hafter)
    refine ⟨_, _, rfl, ?_⟩
    rw [List.cons_append, List.length_cons, Nat.add_comm]
    exact congrArg (fun taken => (SegmentClass.blank, 1 + List.length taken)) htake
  | @blockComment body after h =>
    have hextent := Closes.commentExtent h after
    refine ⟨_, _, rfl, ?_⟩
    rw [List.cons_append, List.length_cons, Nat.add_comm]
    change Segment.cutSlash ('*' :: (body ++ after)) = _
    simp only [Segment.cutSlash, hextent]
  | @openComment body h =>
    have hextent := commentExtent_eq_none_iff.2 h
    refine ⟨_, _, rfl, ?_⟩
    rw [List.append_nil, List.length_cons, Nat.add_comm]
    change Segment.cutSlash ('*' :: body) = _
    simp only [Segment.cutSlash, hextent]
  | slash hslash hstar => exact ⟨_, _, rfl, Segment.cutSlash_alone hslash hstar⟩
  | comparison h hafter =>
    refine ⟨_, _, rfl, ?_⟩
    rw [Segment.cut_comparison h, Segment.cutComparison, List.nil_append, if_neg hafter.head?_ne]
    rfl
  | comparisonEqual h =>
    refine ⟨_, _, rfl, ?_⟩
    rw [Segment.cut_comparison h]
    rfl
  | @string body after h =>
    refine ⟨_, _, rfl, ?_⟩
    rw [List.append_assoc, List.length_append]
    exact Segment.cutString_closed fun x hx => bne_iff_ne.2 fun he => h (he ▸ hx)
  | openString h =>
    refine ⟨_, _, rfl, ?_⟩
    rw [List.append_nil]
    exact Segment.cutString_open h
  | number hne h hafter hpoint hvalue =>
    obtain ⟨first, more, rfl⟩ := List.exists_cons_of_ne_nil hne
    rw [List.forall_mem_cons] at h
    refine ⟨_, _, rfl, ?_⟩
    rw [Segment.cut_digit h.1, Number.denotes_iff.1 hvalue]
    exact Segment.cutNumber_whole (fun x hx => isDigit_iff.2 (h.2 x hx))
      ((without_iff fun _ => isDigit_iff).1 hafter) (sight_snd_iff.2 hpoint)
  | @fraction whole fraction after value hne hne' h hafter hvalue =>
    obtain ⟨first, more, rfl⟩ := List.exists_cons_of_ne_nil hne
    obtain ⟨d, fraction, rfl⟩ := List.exists_cons_of_ne_nil hne'
    rw [List.cons_append, List.forall_mem_cons, List.forall_mem_append] at h
    refine ⟨first, more ++ '.' :: d :: fraction, rfl, ?_⟩
    rw [Segment.cut_digit h.1, Number.denotes_iff.1 hvalue, Segment.length_fraction,
      List.append_assoc]
    exact Segment.cutNumber_fraction (fun x hx => isDigit_iff.2 (h.2.1 x hx))
      (fun x hx => isDigit_iff.2 (h.2.2 x hx)) ((without_iff fun _ => isDigit_iff).1 hafter)
  | word hc h hafter =>
    exact ⟨_, _, rfl, Segment.cut_word lexicon (isWordStart_iff.2 hc)
      (fun x hx => isWordChar_iff.2 (h x hx)) ((without_iff fun _ => isWordChar_iff).1 hafter)⟩
  | mark hc h =>
    refine ⟨_, _, rfl, ?_⟩
    rw [Segment.cut_mark hc, Segment.cutMark, h]
    rfl
  | unexpected hc h =>
    refine ⟨_, _, rfl, ?_⟩
    rw [Segment.cut_mark hc, Segment.cutMark, h]
    rfl

/-! ## From the cut to the rules -/

section

variable {lexicon : Lexicon} {c : Char} {rest : List Char} {cls : SegmentClass} {extent : Nat}

theorem lexeme_of_cutComparison {alone withEqual : TokenKind}
    (hc : (c, alone, withEqual) ∈ comparisons)
    (h : Segment.cutComparison withEqual alone rest = (cls, extent)) :
    Lexeme lexicon (c :: rest.take extent) cls (rest.drop extent) := by
  unfold Segment.cutComparison at h
  split at h <;> rename_i hr <;> cases h
  · obtain ⟨after, rfl⟩ := List.head?_eq_some_iff.1 hr
    exact .comparisonEqual hc
  · exact .comparison hc fun x hx he => hr (he ▸ hx)

theorem lexeme_of_cutSlash (h : Segment.cutSlash rest = (cls, extent)) :
    Lexeme lexicon ('/' :: rest.take extent) cls (rest.drop extent) := by
  unfold Segment.cutSlash at h
  split at h
  · rename_i rest
    cases h
    rw [Nat.add_comm, List.take_succ_cons, List.drop_succ_cons, take_length_takeWhile,
      drop_length_takeWhile]
    refine .lineComment (fun hm => ?_) ((without_iff fun _ => bne_iff_ne).2
      (any_head?_dropWhile ..))
    simpa using List.mem_takeWhile_imp hm
  · rename_i rest
    split at h <;> rename_i hextent <;> cases h
    · rw [Nat.add_comm, List.take_succ_cons, List.drop_succ_cons]
      exact .blockComment (closes_of_commentExtent Nat.one_pos hextent)
    · rw [Nat.add_comm, List.take_succ_cons, List.drop_succ_cons, List.take_length,
        List.drop_length]
      exact .openComment (commentExtent_eq_none_iff.1 hextent)
  · rename_i hslash hstar
    cases h
    refine .slash (fun x hx he => ?_) fun x hx he => ?_
    · obtain ⟨after, hafter⟩ := List.head?_eq_some_iff.1 hx
      exact hslash after (he ▸ hafter)
    · obtain ⟨after, hafter⟩ := List.head?_eq_some_iff.1 hx
      exact hstar after (he ▸ hafter)

theorem lexeme_of_cutString (h : Segment.cutString rest = (cls, extent)) :
    Lexeme lexicon ('"' :: rest.take extent) cls (rest.drop extent) := by
  by_cases hq : '"' ∈ rest
  · obtain ⟨body, after, rfl, hbody⟩ := List.eq_append_cons_of_mem hq
    rw [Segment.cutString_closed fun x hx => bne_iff_ne.2 fun he => hbody (he ▸ hx)] at h
    cases h
    rw [List.append_cons, List.take_left' (by simp), List.drop_left' (by simp)]
    exact .string hbody
  · rw [Segment.cutString_open hq] at h
    cases h
    rw [List.take_length, List.drop_length]
    exact .openString hq

theorem lexeme_of_cutNumber (hc : Digit c) (h : Segment.cutNumber c rest = (cls, extent)) :
    Lexeme lexicon (c :: rest.take extent) cls (rest.drop extent) := by
  have hafter : ∀ {after : List Char}, after.head?.any Char.isDigit = false →
      Without Digit after := (without_iff fun _ => isDigit_iff).2
  rcases Segment.digits_cases rest with ⟨whole, after, rfl, hw, ha, hf⟩ |
    ⟨whole, d, fraction, after, rfl, hw, hf, ha⟩
  · rw [Segment.cutNumber_whole hw ha hf] at h
    cases h
    rw [List.take_left, List.drop_left]
    exact .number (List.cons_ne_nil _ _)
      (List.forall_mem_cons.2 ⟨hc, fun x hx => isDigit_iff.1 (hw x hx)⟩) (hafter ha)
      (sight_snd_iff.1 hf) (Number.denotes_iff.2 rfl)
  · rw [Segment.cutNumber_fraction hw hf ha] at h
    cases h
    have htext : whole ++ '.' :: (d :: fraction ++ after) =
        (whole ++ '.' :: d :: fraction) ++ after := by simp
    have hdigits : ∀ x ∈ (c :: whole) ++ d :: fraction, Digit x := by
      rw [List.cons_append, List.forall_mem_cons, List.forall_mem_append]
      exact ⟨hc, fun x hx => isDigit_iff.1 (hw x hx), fun x hx => isDigit_iff.1 (hf x hx)⟩
    rw [htext, ← Segment.length_fraction, List.take_left, List.drop_left]
    exact .fraction (List.cons_ne_nil _ _) (List.cons_ne_nil _ _) hdigits (hafter ha)
      (Number.denotes_iff.2 rfl)

/-- What is cut from a text is a piece of the grammar. -/
theorem lexeme_of_cut (h : Segment.cut lexicon c rest = (cls, extent)) :
    Lexeme lexicon (c :: rest.take extent) cls (rest.drop extent) := by
  by_cases hc : c ∈ ruledCharacters
  · simp only [ruledCharacters, List.mem_cons, List.not_mem_nil, or_false] at hc
    rcases hc with rfl | rfl | rfl | rfl | rfl | rfl | rfl | rfl | rfl | rfl
    · exact lexeme_of_cutComparison (by simp [comparisons]) h
    · exact lexeme_of_cutComparison (by simp [comparisons]) h
    · exact lexeme_of_cutComparison (by simp [comparisons]) h
    · exact lexeme_of_cutComparison (by simp [comparisons]) h
    · exact lexeme_of_cutSlash h
    · exact lexeme_of_cutString h
    all_goals
      cases h
      exact .space (by decide)
  · rw [Segment.cut_of_not_mem hc] at h
    split at h
    · rename_i hd
      exact lexeme_of_cutNumber (isDigit_iff.1 hd) h
    · rename_i hd
      split at h
      · rename_i hw
        cases h
        rw [take_length_takeWhile, drop_length_takeWhile]
        exact .word (isWordStart_iff.1 hw)
          (fun x hx => isWordChar_iff.1 (List.mem_takeWhile_imp hx))
          ((without_iff fun _ => isWordChar_iff).2 (any_head?_dropWhile ..))
      · rename_i hw
        have hplain : ¬Structural c := by
          rw [Structural, ← isDigit_iff, ← isWordStart_iff]
          exact fun hs => hs.elim hc fun hs => hs.elim hd hw
        unfold Segment.cutMark at h
        split at h <;> rename_i hm <;> cases h
        · exact .mark hplain hm
        · exact .unexpected hplain hm

end

/-! ## Whole texts -/

/-- A text is cut into the pieces of the grammar: they cover it from left to right, and no
other pieces do. -/
theorem lexes_iff (lexicon : Lexicon) (text : List Char) (found : List Segment) :
    Lexes lexicon text found ↔ segments lexicon text = found := by
  constructor
  · intro h
    induction h with
    | nil => rw [segments]
    | @cons s after found hs _ ih =>
      obtain ⟨c, piece, htext, hcut⟩ := hs.cut_eq
      rw [htext, List.cons_append, segments_cons_append piece hcut, ih, ← htext]
  · rintro rfl
    induction text using segments.induct lexicon with
    | case1 =>
      rw [segments]
      exact .nil
    | case2 c rest cls extent hcut ih =>
      rw [segments, hcut]
      have hcons := Lexes.cons (s := { text := c :: rest.take extent, cls }) (lexeme_of_cut hcut) ih
      rwa [List.cons_append, List.take_append_drop] at hcons

/-- Every source has one reading by the grammar and no other.  Its segments are the pieces of
that reading, and its items are what they stand for. -/
theorem scan_by_grammar (lexicon : Lexicon) (source : String) :
    ∃ found, (∀ other, Lexes lexicon source.toList other ↔ other = found) ∧
      segments lexicon source.toList = found ∧ scan lexicon source = items 1 found :=
  ⟨segments lexicon source.toList, fun other => (lexes_iff lexicon _ other).trans eq_comm, rfl, rfl⟩

end TreeScript
