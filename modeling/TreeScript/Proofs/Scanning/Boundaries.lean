import TreeScript.Segment
import Mathlib.Data.List.TakeWhile
import Mathlib.Tactic.Common

/-!
# Boundaries of segments

The cut of a segment sees of the text after it the first character, and whether a point
there starts a fraction; letters look alike to it, and the end of the text looks like the
end of a line.

* `sight` — what the cut of a segment sees of the text after it
* `SegmentClass.isOpen` — a fault that goes on up to the end of the text
* `cut_congr` — a segment is cut in the same way before texts that look alike
* `cut_word` — a word is cut where no character follows that continues it
* `cut_of_sight` — with one lexicon this is so for words as well
-/

namespace TreeScript

/-! ## What a cut can see -/

/-- Letters look alike. -/
def glimpse (c : Char) : Char :=
  if isWordStart c then '_' else c

/-- What the cut of a segment sees of the text after it. -/
def sight : List Char → Char × Bool
  | [] => ('\n', false)
  | c :: rest => (glimpse c, c == '.' && rest.head?.any Char.isDigit)

/-- A fault that goes on up to the end of the text. -/
def SegmentClass.isOpen : SegmentClass → Bool
  | .fault .unterminatedComment | .fault .unterminatedString => true
  | _ => false

theorem isWordStart_of_isDigit {c : Char} (h : c.isDigit = true) : isWordStart c = false := by
  rw [← Bool.not_eq_true]
  intro hw
  unfold Char.isDigit at h
  unfold isWordStart Char.isAlpha Char.isUpper Char.isLower at hw
  simp only [ge_iff_le, Bool.and_eq_true, Bool.or_eq_true, decide_eq_true_eq,
    beq_iff_eq] at h hw
  rcases hw with (hw | hw) | rfl
  · exact absurd (UInt32.le_trans hw.1 h.2) (by decide)
  · exact absurd (UInt32.le_trans hw.1 h.2) (by decide)
  · exact absurd h.2 (by decide)

theorem isWordChar_eq (c : Char) : isWordChar c = (isWordStart c || c.isDigit) := by
  unfold isWordChar isWordStart Char.isAlphanum
  cases c.isAlpha <;> cases c.isDigit <;> cases c == '_' <;> rfl

theorem glimpse_isDigit (c : Char) : (glimpse c).isDigit = c.isDigit := by
  unfold glimpse
  split
  · rename_i hc
    cases hd : c.isDigit with
    | false => rfl
    | true =>
      rw [isWordStart_of_isDigit hd] at hc
      cases hc
  · rfl

theorem glimpse_isWordChar (c : Char) : isWordChar (glimpse c) = isWordChar c := by
  unfold glimpse
  split
  · rename_i hc
    rw [isWordChar_eq c, hc]
    rfl
  · rfl

theorem glimpse_eq_iff {c x : Char} (hx : isWordStart x = false) : glimpse c = x ↔ c = x := by
  unfold glimpse
  split
  · rename_i hc
    constructor <;> rintro rfl
    · cases hx
    · rw [hx] at hc
      cases hc
  · rfl

section

variable {text text' : List Char} (h : sight text' = sight text)
include h

/-- A character that is no letter and ends no line is seen. -/
theorem head?_eq_iff_of_sight {x : Char} (hx : isWordStart x = false) (hn : x ≠ '\n') :
    text'.head? = some x ↔ text.head? = some x := by
  have hs : ∀ text : List Char, (sight text).1 = x ↔ text.head? = some x := by
    intro text
    cases text with
    | nil => simp [sight, hn.symm]
    | cons c rest => simp [sight, glimpse_eq_iff hx]
  rw [← hs, ← hs, h]

/-- What holds of all letters or of none, and not of the end of a line, is seen. -/
theorem any_head?_of_sight {p : Char → Bool} (hp : ∀ c, p (glimpse c) = p c)
    (hn : p '\n' = false) : text'.head?.any p = text.head?.any p := by
  have hs : ∀ text : List Char, p (sight text).1 = text.head?.any p := by
    intro text
    cases text with
    | nil => exact hn
    | cons c _ => exact hp c
  rw [← hs, ← hs, h]

end

/-- The end of a line looks like the end of the text. -/
theorem sight_fst_eq_newline_iff {text : List Char} :
    (sight text).1 = '\n' ↔ text.head?.any (· != '\n') = false := by
  cases text with
  | nil => simp [sight]
  | cons c _ => simp [sight, glimpse_eq_iff (x := '\n') (by decide)]

/-! ## Texts that are taken -/

section

variable {p : Char → Bool} {text tail : List Char}

theorem take_length_takeWhile : text.take (text.takeWhile p).length = text.takeWhile p :=
  (List.prefix_iff_eq_take.1 (List.takeWhile_prefix p)).symm

theorem drop_length_takeWhile : text.drop (text.takeWhile p).length = text.dropWhile p := by
  induction text with
  | nil => rfl
  | cons c rest ih =>
    rw [List.takeWhile_cons, List.dropWhile_cons]
    split
    · exact ih
    · rfl

theorem any_head?_dropWhile (p : Char → Bool) (text : List Char) :
    (text.dropWhile p).head?.any p = false := by
  induction text with
  | nil => rfl
  | cons c rest ih =>
    rw [List.dropWhile_cons]
    split
    · exact ih
    · rename_i hc
      exact Bool.not_eq_true _ ▸ hc

theorem takeWhile_append (hall : ∀ c ∈ text, p c = true) (h : tail.head?.any p = false) :
    (text ++ tail).takeWhile p = text := by
  rw [List.takeWhile_append_of_pos hall]
  cases tail with
  | nil => simp
  | cons c _ =>
    have hc : p c = false := h
    simp [hc]

end

/-! ## Cuts -/

namespace Segment

variable {rest tail : List Char} {cls : SegmentClass} {extent : Nat}

theorem cutComparison_congr {withEqual alone : TokenKind}
    (hc : cutComparison withEqual alone rest = (cls, extent))
    (hs : sight tail = sight (rest.drop extent)) :
    cutComparison withEqual alone (rest.take extent ++ tail) = (cls, extent) := by
  unfold cutComparison at hc ⊢
  split at hc <;> rename_i hr <;> cases hc
  · obtain ⟨after, rfl⟩ := List.head?_eq_some_iff.1 hr
    rfl
  · rw [List.take_zero, List.nil_append, if_neg]
    rwa [head?_eq_iff_of_sight hs (by decide) (by decide)]

theorem commentExtent_pos {depth extent : Nat} (h : commentExtent depth rest = some extent) :
    0 < extent := by
  fun_cases commentExtent depth rest with
  | case1 | case4 =>
    simp only [commentExtent] at h
    obtain ⟨inner, -, rfl⟩ := Option.map_eq_some_iff.1 h
    exact Nat.succ_pos _
  | case2 _ hd =>
    simp only [commentExtent, if_pos hd] at h
    cases h
    exact Nat.succ_pos _
  | case3 _ hd =>
    simp only [commentExtent, if_neg hd] at h
    obtain ⟨inner, -, rfl⟩ := Option.map_eq_some_iff.1 h
    exact Nat.succ_pos _
  | case5 => cases h

/-- A block comment ends where it ends, whatever follows. -/
theorem commentExtent_take {depth extent : Nat} (h : commentExtent depth rest = some extent) :
    commentExtent depth (rest.take extent ++ tail) = some extent := by
  fun_induction commentExtent depth rest generalizing extent with
  | case1 depth rest ih =>
    obtain ⟨inner, hi, rfl⟩ := Option.map_eq_some_iff.1 h
    simp only [List.take_succ_cons, List.cons_append, commentExtent, ih hi, Option.map_some]
  | case2 depth rest hd =>
    cases h
    simp only [List.take_succ_cons, List.take_zero, List.cons_append, commentExtent, if_pos hd]
  | case3 depth rest hd ih =>
    obtain ⟨inner, hi, rfl⟩ := Option.map_eq_some_iff.1 h
    simp only [List.take_succ_cons, List.cons_append, commentExtent, if_neg hd, ih hi,
      Option.map_some]
  | case4 depth c rest hopen hclose ih =>
    obtain ⟨inner, hi, rfl⟩ := Option.map_eq_some_iff.1 h
    -- the comment goes on, so that the next character is the same
    obtain ⟨left, rfl⟩ := Nat.exists_eq_succ_of_ne_zero (commentExtent_pos hi).ne'
    cases rest with
    | nil => cases hi
    | cons x rest =>
      have hrest := ih hi
      rw [List.take_succ_cons, List.cons_append] at hrest
      rw [List.take_succ_cons, List.take_succ_cons, List.cons_append, List.cons_append,
        commentExtent, hrest]
      · rfl
      · rintro r rfl hr
        cases hr
        exact hopen _ rfl rfl
      · rintro r rfl hr
        cases hr
        exact hclose _ rfl rfl
  | case5 => cases h

theorem cutSlash_congr (hc : cutSlash rest = (cls, extent))
    (hs : sight tail = sight (rest.drop extent)) (ho : cls.isOpen = true → tail = []) :
    cutSlash (rest.take extent ++ tail) = (cls, extent) := by
  unfold cutSlash at hc
  split at hc
  · rename_i rest
    cases hc
    rw [Nat.add_comm, List.drop_succ_cons, drop_length_takeWhile] at hs
    rw [Nat.add_comm 1, List.take_succ_cons, take_length_takeWhile, List.cons_append]
    have htail : tail.head?.any (· != '\n') = false :=
      sight_fst_eq_newline_iff.1 (hs ▸ sight_fst_eq_newline_iff.2 (any_head?_dropWhile ..))
    rw [cutSlash, takeWhile_append (fun _ hc => List.mem_takeWhile_imp hc) htail, Nat.add_comm]
  · rename_i rest
    split at hc
    · rename_i inner hi
      cases hc
      rw [Nat.add_comm, List.take_succ_cons, List.cons_append, cutSlash, commentExtent_take hi]
      exact Prod.ext rfl (Nat.add_comm 1 inner)
    · cases hc
      obtain rfl := ho rfl
      rename_i hi
      rw [List.append_nil, Nat.add_comm, List.take_succ_cons, List.take_length, cutSlash, hi,
        Nat.add_comm]
  · rename_i hslash hstar
    cases hc
    rw [List.take_zero, List.nil_append]
    rw [cutSlash]
    · rintro after rfl
      obtain ⟨_, hr⟩ := List.head?_eq_some_iff.1
        ((head?_eq_iff_of_sight hs (x := '/') (by decide) (by decide)).1 rfl)
      exact hslash _ hr
    · rintro after rfl
      obtain ⟨_, hr⟩ := List.head?_eq_some_iff.1
        ((head?_eq_iff_of_sight hs (x := '*') (by decide) (by decide)).1 rfl)
      exact hstar _ hr

theorem cutString_closed {body : List Char} (hb : ∀ c ∈ body, (c != '"') = true) :
    cutString (body ++ '"' :: tail) =
      (.token .string (some (.string (String.ofList body))), body.length + 1) := by
  have htake : (body ++ '"' :: tail).takeWhile (· != '"') = body := takeWhile_append hb rfl
  have hlt : body.length < (body ++ '"' :: tail).length := by simp
  simp only [cutString, htake, if_pos hlt]

theorem cutString_congr (hc : cutString rest = (cls, extent))
    (ho : cls.isOpen = true → tail = []) :
    cutString (rest.take extent ++ tail) = (cls, extent) := by
  by_cases hq : rest.dropWhile (· != '"') = []
  · have hall : rest.takeWhile (· != '"') = rest :=
      List.takeWhile_eq_self_iff.2 (List.dropWhile_eq_nil_iff.1 hq)
    have hopen := hc
    simp only [cutString, hall, Nat.lt_irrefl, if_false] at hopen
    cases hopen
    obtain rfl := ho rfl
    rw [List.take_length, List.append_nil, hc]
  · obtain ⟨q, after, hafter⟩ := List.exists_cons_of_ne_nil hq
    have hhead : ((rest.dropWhile (· != '"')).head?.any (· != '"')) = false :=
      any_head?_dropWhile ..
    rw [hafter] at hhead
    obtain rfl : q = '"' := by simpa using hhead
    have hbody : ∀ c ∈ rest.takeWhile (· != '"'), (c != '"') = true :=
      fun _ h => List.mem_takeWhile_imp (p := (· != '"')) h
    have hrest := List.takeWhile_append_dropWhile (p := (· != '"')) (l := rest)
    rw [hafter] at hrest
    generalize rest.takeWhile (· != '"') = body at hbody hrest
    subst hrest
    rw [cutString_closed hbody] at hc
    cases hc
    rw [List.append_cons, List.take_left' (by simp), List.append_assoc]
    exact cutString_closed hbody

/-- A number without a fraction. -/
theorem cutNumber_whole {first : Char} {whole : List Char}
    (hw : ∀ c ∈ whole, c.isDigit = true) (hd : tail.head?.any Char.isDigit = false)
    (hf : (sight tail).2 = false) :
    cutNumber first (whole ++ tail) =
      (.token .number (some (.number (Number.ofDigits (first :: whole) []))), whole.length) := by
  simp only [cutNumber, takeWhile_append hw hd, List.drop_left]
  split
  · rename_i after
    have hnone : after.takeWhile Char.isDigit = [] := by
      cases after with
      | nil => rfl
      | cons c _ =>
        have hc : c.isDigit = false := by simpa [sight] using hf
        simp [hc]
    simp only [hnone, if_true, Nat.add_zero]
  · simp only [if_true, Nat.add_zero]

/-- A number with a fraction. -/
theorem cutNumber_fraction {first d : Char} {whole fraction : List Char}
    (hw : ∀ c ∈ whole, c.isDigit = true) (hf : ∀ c ∈ d :: fraction, c.isDigit = true)
    (ht : tail.head?.any Char.isDigit = false) :
    cutNumber first (whole ++ '.' :: (d :: fraction ++ tail)) =
      (.token .number (some (.number (Number.ofDigits (first :: whole) (d :: fraction)))),
        whole.length + (1 + (d :: fraction).length)) := by
  have hpoint : ('.' :: (d :: fraction ++ tail)).head?.any Char.isDigit = false := rfl
  simp only [cutNumber, takeWhile_append hw hpoint, List.drop_left, takeWhile_append hf ht,
    List.cons_ne_nil, if_false]

/-- A text starts with digits, and perhaps a fraction. -/
theorem digits_cases (rest : List Char) :
    (∃ whole after, rest = whole ++ after ∧ (∀ c ∈ whole, c.isDigit = true) ∧
      after.head?.any Char.isDigit = false ∧ (sight after).2 = false) ∨
    ∃ whole d fraction after, rest = whole ++ '.' :: (d :: fraction ++ after) ∧
      (∀ c ∈ whole, c.isDigit = true) ∧ (∀ c ∈ d :: fraction, c.isDigit = true) ∧
      after.head?.any Char.isDigit = false := by
  have hrest := List.takeWhile_append_dropWhile (p := Char.isDigit) (l := rest)
  have hwhole : ∀ c ∈ rest.takeWhile Char.isDigit, c.isDigit = true :=
    fun _ h => List.mem_takeWhile_imp h
  have hafter : (rest.dropWhile Char.isDigit).head?.any Char.isDigit = false :=
    any_head?_dropWhile ..
  generalize rest.takeWhile Char.isDigit = whole at hrest hwhole
  generalize rest.dropWhile Char.isDigit = after at hrest hafter
  subst hrest
  cases hf : (sight after).2 with
  | false => exact .inl ⟨whole, after, rfl, hwhole, hafter, hf⟩
  | true =>
    obtain ⟨d, more, hd, rfl⟩ : ∃ d more, d.isDigit = true ∧ after = '.' :: d :: more := by
      match after, hf with
      | [], hf => cases hf
      | [c], hf => simp [sight] at hf
      | c :: d :: more, hf =>
        simp only [sight, List.head?_cons, Option.any_some, Bool.and_eq_true, beq_iff_eq] at hf
        exact ⟨d, more, hf.2, by rw [hf.1]⟩
    refine .inr ⟨whole, d, more.takeWhile Char.isDigit, more.dropWhile Char.isDigit, ?_, hwhole,
      List.forall_mem_cons.2 ⟨hd, fun _ h => List.mem_takeWhile_imp h⟩, any_head?_dropWhile _ _⟩
    rw [List.cons_append, List.takeWhile_append_dropWhile]

/-- The length of a number with a fraction. -/
theorem length_fraction (whole : List Char) (d : Char) (fraction : List Char) :
    (whole ++ '.' :: d :: fraction).length = whole.length + (1 + (d :: fraction).length) := by
  simp only [List.length_append, List.length_cons]
  omega

theorem cutNumber_congr {first : Char} (hc : cutNumber first rest = (cls, extent))
    (hs : sight tail = sight (rest.drop extent)) :
    cutNumber first (rest.take extent ++ tail) = (cls, extent) := by
  have hdigit : ∀ {text : List Char}, sight tail = sight text →
      text.head?.any Char.isDigit = false → tail.head?.any Char.isDigit = false :=
    fun hs ht => (any_head?_of_sight hs glimpse_isDigit (by decide)).trans ht
  rcases digits_cases rest with ⟨whole, after, rfl, hw, ha, hf⟩ |
    ⟨whole, d, fraction, after, rfl, hw, hf, ha⟩
  · rw [cutNumber_whole hw ha hf] at hc
    cases hc
    rw [List.drop_left] at hs
    rw [List.take_left]
    exact cutNumber_whole hw (hdigit hs ha) (hs ▸ hf)
  · rw [cutNumber_fraction hw hf ha] at hc
    cases hc
    have htext : whole ++ '.' :: (d :: fraction ++ after) =
        (whole ++ '.' :: d :: fraction) ++ after := by simp
    rw [htext, ← length_fraction, List.drop_left] at hs
    rw [htext, ← length_fraction, List.take_left, length_fraction, List.append_assoc]
    exact cutNumber_fraction hw hf (hdigit hs ha)

theorem cutNumber_le {first : Char} (h : cutNumber first rest = (cls, extent)) :
    extent ≤ rest.length := by
  rcases digits_cases rest with ⟨whole, after, rfl, hw, ha, hf⟩ |
    ⟨whole, d, fraction, after, rfl, hw, hf, ha⟩
  · rw [cutNumber_whole hw ha hf] at h
    cases h
    rw [List.length_append]
    exact Nat.le_add_right _ _
  · rw [cutNumber_fraction hw hf ha] at h
    cases h
    rw [← length_fraction, ← List.cons_append, ← List.append_assoc]
    exact (List.prefix_append _ after).length_le

/-- A segment that is no word is cut in the same way before texts that look alike, unless it
goes on up to the end of the text. -/
theorem cut_congr {lexicon lexicon' : Lexicon} {c : Char} (hw : isWordStart c = false)
    (hm : lexicon'.mark? c = lexicon.mark? c) (hc : cut lexicon c rest = (cls, extent))
    (hs : sight tail = sight (rest.drop extent)) (ho : cls.isOpen = true → tail = []) :
    cut lexicon' c (rest.take extent ++ tail) = (cls, extent) := by
  unfold cut at hc ⊢
  split at hc
  · exact cutComparison_congr hc hs
  · exact cutComparison_congr hc hs
  · exact cutComparison_congr hc hs
  · exact cutComparison_congr hc hs
  · exact hc
  · exact hc
  · exact hc
  · exact hc
  · exact cutSlash_congr hc hs ho
  · exact cutString_congr hc ho
  · by_cases hd : c.isDigit = true
    · rw [if_pos hd] at hc ⊢
      exact cutNumber_congr hc hs
    · rw [if_neg hd, if_neg (by rw [hw]; exact Bool.false_ne_true)] at hc ⊢
      rw [cutMark] at hc ⊢
      rwa [hm]

/-- A word is cut where no character follows that continues it. -/
theorem cut_word (lexicon : Lexicon) {c : Char} {word : List Char} (hc : isWordStart c = true)
    (hw : ∀ x ∈ word, isWordChar x = true) (ht : tail.head?.any isWordChar = false) :
    cut lexicon c (word ++ tail) =
      (.token (lexicon.wordKind (String.ofList (c :: word))) none, word.length) := by
  have hd : ¬c.isDigit = true := fun hd => by
    rw [isWordStart_of_isDigit hd] at hc
    cases hc
  unfold cut
  split
  case h_11 => rw [if_neg hd, if_pos hc, cutWord, takeWhile_append hw ht]
  all_goals cases hc

/-- With one lexicon, every segment is cut in the same way before texts that look alike, unless
it goes on up to the end of the text. -/
theorem cut_of_sight {lexicon : Lexicon} {c : Char} (hc : cut lexicon c rest = (cls, extent))
    (hs : sight tail = sight (rest.drop extent)) (ho : cls.isOpen = true → tail = []) :
    cut lexicon c (rest.take extent ++ tail) = (cls, extent) := by
  cases hw : isWordStart c with
  | false => exact cut_congr hw rfl hc hs ho
  | true =>
    have hword : ∀ x ∈ rest.takeWhile isWordChar, isWordChar x = true :=
      fun _ hx => List.mem_takeWhile_imp hx
    have hcutWord := cut_word lexicon hw hword (any_head?_dropWhile isWordChar rest)
    rw [List.takeWhile_append_dropWhile, hc] at hcutWord
    obtain ⟨rfl, rfl⟩ := Prod.mk.inj hcutWord
    rw [drop_length_takeWhile] at hs
    rw [take_length_takeWhile]
    exact cut_word lexicon hw hword
      ((any_head?_of_sight hs glimpse_isWordChar (by decide)).trans (any_head?_dropWhile ..))

theorem commentExtent_le {depth : Nat} (h : commentExtent depth rest = some extent) :
    extent ≤ rest.length := by
  fun_induction commentExtent depth rest generalizing extent with
  | case1 depth rest ih | case3 depth rest hd ih =>
    obtain ⟨inner, hi, rfl⟩ := Option.map_eq_some_iff.1 h
    exact Nat.succ_le_succ (Nat.succ_le_succ (ih hi))
  | case2 depth rest hd =>
    cases h
    exact Nat.succ_le_succ (Nat.succ_le_succ (Nat.zero_le _))
  | case4 depth c rest _ _ ih =>
    obtain ⟨inner, hi, rfl⟩ := Option.map_eq_some_iff.1 h
    exact Nat.succ_le_succ (ih hi)
  | case5 => cases h

theorem cutSlash_le (h : cutSlash rest = (cls, extent)) : extent ≤ rest.length := by
  unfold cutSlash at h
  split at h
  · cases h
    rw [Nat.add_comm]
    exact Nat.succ_le_succ (List.takeWhile_prefix _).length_le
  · split at h <;> cases h
    · rename_i hi
      rw [Nat.add_comm]
      exact Nat.succ_le_succ (commentExtent_le hi)
    · rw [Nat.add_comm, List.length_cons]
  · cases h
    exact Nat.zero_le _

/-- A segment lies within its text. -/
theorem extent_le {lexicon : Lexicon} {c : Char} (h : cut lexicon c rest = (cls, extent)) :
    extent ≤ rest.length := by
  have hcomparison : ∀ {withEqual alone : TokenKind},
      cutComparison withEqual alone rest = (cls, extent) → extent ≤ rest.length := by
    intro withEqual alone h
    unfold cutComparison at h
    split at h <;> rename_i hr <;> cases h
    · obtain ⟨after, rfl⟩ := List.head?_eq_some_iff.1 hr
      exact Nat.succ_le_succ (Nat.zero_le _)
    · exact Nat.zero_le _
  unfold cut at h
  split at h
  · exact hcomparison h
  · exact hcomparison h
  · exact hcomparison h
  · exact hcomparison h
  · cases h
    exact Nat.zero_le _
  · cases h
    exact Nat.zero_le _
  · cases h
    exact Nat.zero_le _
  · cases h
    exact Nat.zero_le _
  · exact cutSlash_le h
  · simp only [cutString] at h
    split at h <;> cases h
    · assumption
    · exact Nat.le_refl _
  · split at h
    · exact cutNumber_le h
    · split at h
      · cases h
        exact (List.takeWhile_prefix _).length_le
      · unfold cutMark at h
        split at h <;> cases h <;> exact Nat.zero_le _

/-- Nothing follows a segment that goes on up to the end of the text. -/
theorem drop_of_isOpen {lexicon : Lexicon} {c : Char} (h : cut lexicon c rest = (cls, extent))
    (ho : cls.isOpen = true) : rest.drop extent = [] := by
  have hcomparison : ∀ {withEqual alone : TokenKind},
      cutComparison withEqual alone rest = (cls, extent) → rest.drop extent = [] := by
    intro withEqual alone h
    unfold cutComparison at h
    split at h <;> cases h <;> cases ho
  unfold cut at h
  split at h
  · exact hcomparison h
  · exact hcomparison h
  · exact hcomparison h
  · exact hcomparison h
  · cases h
    cases ho
  · cases h
    cases ho
  · cases h
    cases ho
  · cases h
    cases ho
  · unfold cutSlash at h
    split at h
    · cases h
      cases ho
    · split at h <;> cases h
      · cases ho
      · rw [Nat.add_comm, List.drop_succ_cons, List.drop_length]
    · cases h
      cases ho
  · simp only [cutString] at h
    split at h <;> cases h
    · cases ho
    · exact List.drop_length
  · split at h
    · simp only [cutNumber] at h
      cases h
      cases ho
    · split at h
      · cases h
        cases ho
      · unfold cutMark at h
        split at h <;> cases h <;> cases ho

end Segment

/-- What follows the first segment is cut on its own. -/
theorem segments_cons_append {lexicon : Lexicon} {c : Char} (piece : List Char) {tail : List Char}
    {cls : SegmentClass}
    (h : Segment.cut lexicon c (piece ++ tail) = (cls, piece.length)) :
    segments lexicon (c :: (piece ++ tail)) =
      { text := c :: piece, cls } :: segments lexicon tail := by
  rw [segments, h]
  simp only [List.take_left, List.drop_left]

end TreeScript
