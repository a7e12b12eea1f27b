import TreeScript.Proofs.Scanning.Lexemes

/-!
# Words in parentheses

A form is a word or a group of forms, and its text is read in only one way.

* `Form` — a word, or what stands in one pair of parentheses
* `Form.chars` — the text of a form: the forms of a group with a space between two of them
* `Form.Solid` — no word is empty or has a space or a parenthesis in it
* `Form.chars_append_inj` — a text starts with one form only, and so the text of a form
  determines it
-/

namespace TreeScript

/-- A word, or what stands in one pair of parentheses. -/
inductive Form where
  | word (text : String)
  | group (forms : List Form)

/-- The characters that words are made of. -/
def IsSolid (c : Char) : Prop :=
  c ≠ ' ' ∧ c ≠ '(' ∧ c ≠ ')'

instance (c : Char) : Decidable (IsSolid c) :=
  inferInstanceAs (Decidable (_ ∧ _))

/-- A word without spaces and parentheses that has some character. -/
def IsSolidWord (text : String) : Prop :=
  text.toList ≠ [] ∧ ∀ c ∈ text.toList, IsSolid c

instance (text : String) : Decidable (IsSolidWord text) :=
  haveI : Decidable (∀ c ∈ text.toList, IsSolid c) := List.decidableBAll _ _
  inferInstanceAs (Decidable (_ ∧ _))

namespace Form

mutual

/-- The text of a form. -/
def chars : Form → List Char
  | .word text => text.toList
  | .group forms => '(' :: ((spaced forms).tail ++ [')'])

/-- The texts of forms, a space before each. -/
def spaced : List Form → List Char
  | [] => []
  | first :: rest => ' ' :: (first.chars ++ spaced rest)

end

mutual

/-- All words of a form are solid. -/
def Solid : Form → Prop
  | .word text => IsSolidWord text
  | .group forms => SolidAll forms

/-- All words of some forms are solid. -/
def SolidAll : List Form → Prop
  | [] => True
  | first :: rest => first.Solid ∧ SolidAll rest

end

instance (text : String) : Decidable (word text).Solid :=
  inferInstanceAs (Decidable (IsSolidWord text))

/-! ## Where a form ends -/

theorem without_close (after : List Char) : Without IsSolid (')' :: after) := by
  rintro _ ⟨⟩
  decide

theorem without_spaced (forms : List Form) (after : List Char) :
    Without IsSolid (spaced forms ++ ')' :: after) := by
  cases forms with
  | nil => exact without_close after
  | cons first rest =>
    rintro _ ⟨⟩
    decide

/-- A word ends where the first other character stands. -/
theorem word_append_inj {text text' : String} {after after' : List Char}
    (ht : IsSolidWord text) (ht' : IsSolidWord text') (ha : Without IsSolid after)
    (ha' : Without IsSolid after') (h : text.toList ++ after = text'.toList ++ after') :
    text = text' ∧ after = after' := by
  have htake : ∀ {word : String} {tail : List Char}, IsSolidWord word → Without IsSolid tail →
      (word.toList ++ tail).takeWhile (fun c => decide (IsSolid c)) = word.toList :=
    fun hword htail => takeWhile_append (fun c hc => decide_eq_true (hword.2 c hc))
      ((without_iff fun _ => decide_eq_true_iff).1 htail)
  have htext : text.toList = text'.toList := by rw [← htake ht ha, h, htake ht' ha']
  rw [htext] at h
  exact ⟨String.toList_injective htext, List.append_cancel_left h⟩

/-- A form does not start with the end of a group. -/
theorem close_ne_chars {f : Form} (hf : f.Solid) (after after' : List Char) :
    ')' :: after ≠ f.chars ++ after' := by
  cases f with
  | word text =>
    obtain ⟨c, rest, htext⟩ := List.exists_cons_of_ne_nil hf.1
    have hc : IsSolid c := hf.2 c (htext ▸ List.mem_cons_self)
    rw [chars, htext]
    exact fun h => hc.2.2 (List.cons.inj h).1.symm
  | group forms =>
    rw [chars]
    exact fun h => absurd (List.cons.inj h).1 (by decide)

/-- A word does not start like a group. -/
theorem word_ne_group {text : String} (ht : IsSolidWord text) (forms : List Form)
    (after after' : List Char) : (word text).chars ++ after ≠ (group forms).chars ++ after' := by
  obtain ⟨c, rest, htext⟩ := List.exists_cons_of_ne_nil ht.1
  have hc : IsSolid c := ht.2 c (htext ▸ List.mem_cons_self)
  rw [chars, chars, htext]
  exact fun h => hc.2.1 (List.cons.inj h).1

/-- Between the parentheses of a group the first space is left out. -/
theorem spaced_of_tail {fs gs : List Form} (hf : SolidAll fs) (hg : SolidAll gs)
    {after after' : List Char}
    (h : (spaced fs).tail ++ ')' :: after = (spaced gs).tail ++ ')' :: after') :
    spaced fs ++ ')' :: after = spaced gs ++ ')' :: after' := by
  cases fs with
  | nil =>
    cases gs with
    | nil => exact h
    | cons g gs =>
      simp only [spaced, List.tail_nil, List.nil_append, List.tail_cons, List.append_assoc] at h
      exact absurd h (close_ne_chars hg.1 _ _)
  | cons f fs =>
    cases gs with
    | nil =>
      simp only [spaced, List.tail_nil, List.nil_append, List.tail_cons, List.append_assoc] at h
      exact absurd h.symm (close_ne_chars hf.1 _ _)
    | cons g gs => exact congrArg (' ' :: ·) h

/-! ## One reading -/

mutual

/-- No two forms stand at the front of one text. -/
theorem chars_append_inj : ∀ {f g : Form} {after after' : List Char}, f.Solid → g.Solid →
    Without IsSolid after → Without IsSolid after' →
    f.chars ++ after = g.chars ++ after' → f = g ∧ after = after'
  | .word _, .word _, _, _, hf, hg, ha, ha', h => by
    obtain ⟨rfl, hafter⟩ := word_append_inj hf hg ha ha' h
    exact ⟨rfl, hafter⟩
  | .word _, .group _, _, _, hf, _, _, _, h => absurd h (word_ne_group hf _ _ _)
  | .group _, .word _, _, _, _, hg, _, _, h => absurd h.symm (word_ne_group hg _ _ _)
  | .group fs, .group gs, after, after', hf, hg, _, _, h => by
    have hinner : (spaced fs).tail ++ ')' :: after = (spaced gs).tail ++ ')' :: after' := by
      simpa [chars] using h
    obtain ⟨rfl, hafter⟩ := spaced_append_inj hf hg (spaced_of_tail hf hg hinner)
    exact ⟨rfl, hafter⟩

/-- Nor do two lists of forms stand before the end of a group. -/
theorem spaced_append_inj : ∀ {fs gs : List Form} {after after' : List Char},
    SolidAll fs → SolidAll gs →
    spaced fs ++ ')' :: after = spaced gs ++ ')' :: after' → fs = gs ∧ after = after'
  | [], [], _, _, _, _, h => ⟨rfl, (List.cons.inj h).2⟩
  | [], _ :: _, _, _, _, _, h => absurd (List.cons.inj h).1 (by decide)
  | _ :: _, [], _, _, _, _, h => absurd (List.cons.inj h).1 (by decide)
  | f :: fs, g :: gs, after, after', hf, hg, h => by
    have hrest : f.chars ++ (spaced fs ++ ')' :: after) =
        g.chars ++ (spaced gs ++ ')' :: after') := by
      simpa [spaced] using h
    obtain ⟨rfl, hspaced⟩ :=
      chars_append_inj hf.1 hg.1 (without_spaced fs after) (without_spaced gs after') hrest
    obtain ⟨rfl, hafter⟩ := spaced_append_inj hf.2 hg.2 hspaced
    exact ⟨rfl, hafter⟩

end

/-- The text of a form determines it. -/
theorem chars_inj {f g : Form} (hf : f.Solid) (hg : g.Solid) (h : f.chars = g.chars) : f = g :=
  (@chars_append_inj f g [] [] hf hg nofun nofun (congrArg (· ++ []) h)).1

end Form

end TreeScript
