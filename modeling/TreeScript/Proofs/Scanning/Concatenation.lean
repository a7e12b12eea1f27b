import TreeScript.Proofs.Scanning.Boundaries
import Mathlib

/-!
# One source after the other

The end of a line looks like the end of the text, so that nothing but an open comment or
string reaches over it.

* `segments_append` — what looks like the end of the text is cut on its own
* `items_append` — the items of segments one after the other
* `Token.down`, `Diagnostic.down`, `lowered` — items and sources that stand further down
* `scan_append_line` — the items of two sources on lines of their own
* `scan_append_of_closed` — the same, said of the faults that the first source is scanned to
* `scan_lowered` — the items of a source with empty lines in front of it
* `Lexicon.Endless` — a lexicon without end marks, with which only a source ends
-/

namespace TreeScript

variable {lexicon : Lexicon}

/-! ## Segments -/

theorem sight_append {text tail : List Char} (h : sight tail = sight []) :
    sight (text ++ tail) = sight text := by
  match text with
  | [] => exact h
  | [c] =>
    have hd : tail.head?.any Char.isDigit = false :=
      any_head?_of_sight h glimpse_isDigit (by decide)
    simp only [List.cons_append, List.nil_append, sight, hd, List.head?_nil, Option.any_none]
  | _ :: _ :: _ => rfl

/-- Where a text looks as if it ended there, what follows is cut on its own, unless a comment
or a string goes on. -/
theorem segments_append {text tail : List Char} (hs : sight tail = sight [])
    (ho : ∀ s ∈ segments lexicon text, s.cls.isOpen = false) :
    segments lexicon (text ++ tail) = segments lexicon text ++ segments lexicon tail := by
  induction text using segments.induct lexicon with
  | case1 => simp [segments]
  | case2 c rest cls extent hcut ih =>
    have hsight : sight (rest.drop extent ++ tail) = sight (rest.drop extent) := sight_append hs
    rw [segments, hcut] at ho ⊢
    rw [List.forall_mem_cons] at ho
    replace ih := ih ho.2
    have hcut' := Segment.cut_of_sight hcut hsight fun hopen => by
      rw [ho.1] at hopen
      cases hopen
    simp only [List.cons_append]
    rw [← ih]
    conv_lhs => rw [← List.take_append_drop extent rest, List.append_assoc]
    refine segments_cons_append _ ?_
    rw [List.length_take_of_le (Segment.extent_le hcut)]
    exact hcut'

/-- The end of a line is a segment of its own. -/
theorem segments_newline (rest : List Char) :
    segments lexicon ('\n' :: rest) = { text := ['\n'], cls := .blank } :: segments lexicon rest :=
  segments_cons_append [] rfl

/-- The segments of a text tile it. -/
theorem flatMap_segments (text : List Char) :
    (segments lexicon text).flatMap Segment.text = text := by
  induction text using segments.induct lexicon with
  | case1 => simp [segments]
  | case2 c rest cls extent hcut ih =>
    rw [segments, hcut]
    simp only [List.flatMap_cons, ih, List.cons_append, List.take_append_drop]

/-! ## Items -/

theorem items_ne_nil (line : Nat) (found : List Segment) : items line found ≠ [] := by
  cases found with
  | nil => exact List.cons_ne_nil _ _
  | cons _ _ => exact List.append_ne_nil_of_right_ne_nil _ (items_ne_nil _ _)

/-- The end mark stands after the last segment only. -/
theorem items_append (line : Nat) (found more : List Segment) :
    items line (found ++ more) =
      (items line found).dropLast ++
        items (line + (found.flatMap Segment.text).count '\n') more := by
  induction found generalizing line with
  | nil => rfl
  | cons s rest ih =>
    simp only [List.cons_append, items, ih, List.flatMap_cons, List.count_append,
      List.dropLast_append_of_ne_nil (items_ne_nil _ _), List.append_assoc, Nat.add_assoc]

/-- Without a fault in it a text has no segment that goes on up to its end. -/
theorem isOpen_of_diagnosticsOf {line : Nat} {found : List Segment}
    (h : diagnosticsOf (items line found) = []) : ∀ s ∈ found, s.cls.isOpen = false := by
  induction found generalizing line with
  | nil => nofun
  | cons s rest ih =>
    rw [items, diagnosticsOf, List.filterMap_append, List.append_eq_nil_iff] at h
    rw [List.forall_mem_cons]
    refine ⟨?_, ih h.2⟩
    cases hc : s.cls with
    | fault fault => simp [Segment.item?, hc] at h
    | _ => rfl

/-- A fault is an item. -/
theorem mem_items_of_fault {fault : LexFault} {found : List Segment} {s : Segment} (hs : s ∈ found)
    (hc : s.cls = .fault fault) (line : Nat) :
    ∃ last, Except.error (.lex fault last) ∈ items line found := by
  induction found generalizing line with
  | nil => cases hs
  | cons first rest ih =>
    rw [items]
    rcases List.mem_cons.1 hs with rfl | hs
    · refine ⟨line + s.text.count '\n', List.mem_append_left _ ?_⟩
      rw [Segment.item?, hc]
      exact List.mem_singleton_self _
    · obtain ⟨last, hlast⟩ := ih hs (line + first.text.count '\n')
      exact ⟨last, List.mem_append_right _ hlast⟩

/-- A segment that goes on up to the end of the text is an item: an open string or comment. -/
theorem exists_item_of_isOpen {found : List Segment} {s : Segment} (hs : s ∈ found)
    (ho : s.cls.isOpen = true) (line : Nat) :
    ∃ last, Except.error (.lex .unterminatedString last) ∈ items line found ∨
      Except.error (.lex .unterminatedComment last) ∈ items line found := by
  unfold SegmentClass.isOpen at ho
  split at ho
  · rename_i hc
    exact (mem_items_of_fault hs hc line).imp fun _ => .inr
  · rename_i hc
    exact (mem_items_of_fault hs hc line).imp fun _ => .inl
  · cases ho

/-- The last item is the end mark. -/
theorem items_eq_dropLast_append (line : Nat) (found : List Segment) :
    items line found = (items line found).dropLast ++
      [.ok (Token.finish (line + (found.flatMap Segment.text).count '\n'))] := by
  have happend := items_append line found []
  rwa [List.append_nil] at happend

/-! ## Further down -/

/-- A token that stands further down. -/
def Token.down (count : Nat) (t : Token) : Token :=
  { t with line := t.line + count }

/-- A diagnostic of a place that is further down. -/
def Diagnostic.down (count : Nat) : Diagnostic → Diagnostic
  | .lex fault line => .lex fault (line + count)
  | .grammar fault site line => .grammar fault site (line + count)
  | .scope fault site line => .scope fault site (line + count)
  | .run fault line => .run fault (line + count)
  | .output fault => .output fault

/-- A source with empty lines in front of it. -/
def lowered (count : Nat) (source : String) : String :=
  String.ofList (List.replicate count '\n') ++ source

/-- A token or a fault that stands further down. -/
def itemDown (count : Nat) : Except Diagnostic Token → Except Diagnostic Token
  | .ok t => .ok (t.down count)
  | .error d => .error (d.down count)

theorem items_down (line count : Nat) (found : List Segment) :
    items (line + count) found = (items line found).map (itemDown count) := by
  induction found generalizing line with
  | nil => rfl
  | cons s rest ih =>
    have hline : line + count + s.text.count '\n' = line + s.text.count '\n' + count :=
      Nat.add_right_comm ..
    have hitem : (s.item? (line + s.text.count '\n' + count)).toList =
        (s.item? (line + s.text.count '\n')).toList.map (itemDown count) := by
      unfold Segment.item?
      cases s.cls <;> rfl
    rw [items, items, List.map_append, hline, ih, hitem]

theorem tokensOf_map_down (count : Nat) (found : List (Except Diagnostic Token)) :
    tokensOf (found.map (itemDown count)) = (tokensOf found).map (Token.down count) := by
  unfold tokensOf
  rw [List.filterMap_map, List.map_filterMap]
  exact congrFun (congrArg List.filterMap (funext fun item => by cases item <;> rfl)) found

theorem diagnosticsOf_map_down (count : Nat) (found : List (Except Diagnostic Token)) :
    diagnosticsOf (found.map (itemDown count)) =
      (diagnosticsOf found).map (Diagnostic.down count) := by
  unfold diagnosticsOf
  rw [List.filterMap_map, List.map_filterMap]
  exact congrFun (congrArg List.filterMap (funext fun item => by cases item <;> rfl)) found

/-! ## Sources -/

/-- Two sources on lines of their own are scanned one after the other, if no comment and no
string of the first one is left open. -/
theorem scan_append_line {first : String} (second : String)
    (ho : ∀ s ∈ segments lexicon first.toList, s.cls.isOpen = false) :
    scan lexicon (first ++ "\n" ++ second) =
      (scan lexicon first).dropLast ++
        (scan lexicon second).map (itemDown (1 + first.toList.count '\n')) := by
  have htext : (first ++ "\n" ++ second).toList = first.toList ++ '\n' :: second.toList := by
    simp
  have hsight : sight ('\n' :: second.toList) = sight [] := rfl
  have hsegments := segments_append hsight ho
  rw [scan, scan, scan, htext, hsegments, items_append, flatMap_segments, segments_newline,
    ← items_down]
  simp only [items, Segment.item?, Option.toList_none, List.nil_append]
  have hline : 1 + first.toList.count '\n' + ['\n'].count '\n' =
      1 + (1 + first.toList.count '\n') := by
    rw [Nat.add_assoc, Nat.add_comm (first.toList.count '\n')]
    rfl
  rw [hline]

/-- Two sources on lines of their own, of which the first one leaves no string and no comment
open, whatever other faults it has: first come its items, without its end mark, and then all
the items of the second one, as many lines further down as the first one has. -/
theorem scan_append_of_closed {first : String} (second : String)
    (hstring : ∀ line, .error (.lex .unterminatedString line) ∉ scan lexicon first)
    (hcomment : ∀ line, .error (.lex .unterminatedComment line) ∉ scan lexicon first) :
    ∃ found, scan lexicon first = found ++ [.ok (Token.finish (1 + first.toList.count '\n'))] ∧
      scan lexicon (first ++ "\n" ++ second) =
        found ++ (scan lexicon second).map (itemDown (1 + first.toList.count '\n')) := by
  have hclosed : ∀ s ∈ segments lexicon first.toList, s.cls.isOpen = false := by
    intro s hs
    refine Bool.eq_false_iff.2 fun ho => ?_
    obtain ⟨last, hmem | hmem⟩ := exists_item_of_isOpen hs ho 1
    · exact hstring last hmem
    · exact hcomment last hmem
  have hlast := items_eq_dropLast_append 1 (segments lexicon first.toList)
  rw [flatMap_segments] at hlast
  exact ⟨_, hlast, scan_append_line second hclosed⟩

/-- The first source has a fault and a comment up to its end, the second one an open string. -/
theorem scan_append_strayMark :
    (∀ line, .error (.lex .unterminatedString line) ∉ scan .standard "a @ // \"") ∧
    (∀ line, .error (.lex .unterminatedComment line) ∉ scan .standard "a @ // \"") ∧
    scan .standard ("a @ // \"" ++ "\n" ++ "a\n\"b") =
      [.ok { kind := .identifier, lexeme := "a", literal := none, line := 1 },
        .error (.lex (.unexpectedCharacter '@') 1),
        .ok { kind := .identifier, lexeme := "a", literal := none, line := 2 },
        .error (.lex .unterminatedString 3), .ok (Token.finish 3)] := by
  have hfirst : scan .standard "a @ // \"" =
      [.ok { kind := .identifier, lexeme := "a", literal := none, line := 1 },
        .error (.lex (.unexpectedCharacter '@') 1)] ++ [.ok (Token.finish 1)] := by
    cbv
  have hsecond : scan .standard "a\n\"b" =
      [.ok { kind := .identifier, lexeme := "a", literal := none, line := 1 },
        .error (.lex .unterminatedString 2), .ok (Token.finish 2)] := by
    cbv
  have hstring : ∀ line, .error (.lex .unterminatedString line) ∉ scan .standard "a @ // \"" := by
    simp [hfirst]
  have hcomment : ∀ line,
      .error (.lex .unterminatedComment line) ∉ scan .standard "a @ // \"" := by
    simp [hfirst]
  obtain ⟨found, hfound, happend⟩ := scan_append_of_closed "a\n\"b" hstring hcomment
  have hcount : "a @ // \"".toList.count '\n' = 0 := by decide
  rw [hcount] at hfound happend
  have hlist := List.append_cancel_right (hfound.symm.trans hfirst)
  refine ⟨hstring, hcomment, ?_⟩
  rw [happend, hsecond, hlist]
  rfl

/-- Empty lines in front of a source only lower it. -/
theorem scan_lowered (count : Nat) (source : String) :
    scan lexicon (lowered count source) = (scan lexicon source).map (itemDown count) := by
  have htext : (lowered count source).toList =
      List.replicate count '\n' ++ source.toList := by
    simp [lowered]
  rw [scan, scan, htext, ← items_down]
  generalize 1 = line
  induction count generalizing line with
  | zero => rfl
  | succ count ih =>
    rw [List.replicate_succ, List.cons_append, segments_newline, Nat.add_comm count,
      ← Nat.add_assoc, ← ih]
    · rfl
    · simp [lowered]

/-! ## End marks -/

/-- A lexicon without end marks. -/
structure Lexicon.Endless (lexicon : Lexicon) : Prop where
  keyword : ∀ word, lexicon.keyword? word ≠ some .endOfInput
  mark : ∀ c, lexicon.mark? c ≠ some .endOfInput

theorem Segment.kind_ne_endOfInput (h : lexicon.Endless) {c : Char} {rest : List Char}
    {kind : TokenKind} {literal : Option Literal} {extent : Nat}
    (hc : cut lexicon c rest = (.token kind literal, extent)) : kind ≠ .endOfInput := by
  have hcomparison : ∀ {withEqual alone : TokenKind}, withEqual ≠ .endOfInput →
      alone ≠ .endOfInput → cutComparison withEqual alone rest = (.token kind literal, extent) →
      kind ≠ .endOfInput := by
    intro withEqual alone hw ha hc
    unfold cutComparison at hc
    split at hc <;> cases hc
    · exact hw
    · exact ha
  unfold cut at hc
  split at hc
  · exact hcomparison (by decide) (by decide) hc
  · exact hcomparison (by decide) (by decide) hc
  · exact hcomparison (by decide) (by decide) hc
  · exact hcomparison (by decide) (by decide) hc
  · cases hc
  · cases hc
  · cases hc
  · cases hc
  · unfold cutSlash at hc
    split at hc
    · cases hc
    · split at hc <;> cases hc
    · cases hc
      decide
  · simp only [cutString] at hc
    split at hc <;> cases hc
    decide
  · split at hc
    · cases hc
      decide
    · split at hc
      · cases hc
        unfold Lexicon.wordKind
        cases hk : lexicon.keyword? _ with
        | none => decide
        | some kind => exact fun he => h.keyword _ (hk.trans (congrArg some he))
      · unfold cutMark at hc
        split at hc <;> cases hc
        rename_i hm
        exact fun he => h.mark _ (hm.trans (congrArg some he))

theorem segments_kind_ne_endOfInput (h : lexicon.Endless) (text : List Char) (s : Segment)
    (hs : s ∈ segments lexicon text) (kind : TokenKind) (literal : Option Literal)
    (hc : s.cls = .token kind literal) : kind ≠ .endOfInput := by
  induction text using segments.induct lexicon with
  | case1 => simp [segments] at hs
  | case2 c rest cls extent hcut ih =>
    rw [segments, hcut] at hs
    rcases List.mem_cons.1 hs with rfl | hs
    · rw [show cls = _ from hc] at hcut
      exact Segment.kind_ne_endOfInput h hcut
    · exact ih hs

/-- The tokens of a source are words, and an end mark after them. -/
theorem tokensOf_scan (h : lexicon.Endless) (source : String) :
    ∃ words line, tokensOf (scan lexicon source) = words ++ [Token.finish line] ∧
      tokensOf (scan lexicon source).dropLast = words ∧
      ∀ t ∈ words, t.kind ≠ .endOfInput := by
  have hkind := segments_kind_ne_endOfInput h source.toList
  rw [scan]
  generalize segments lexicon source.toList = found at hkind
  generalize 1 = line
  induction found generalizing line with
  | nil => exact ⟨[], line, rfl, rfl, nofun⟩
  | cons s rest ih =>
    rw [List.forall_mem_cons] at hkind
    obtain ⟨words, last, hwords, hdrop, hne⟩ := ih hkind.2 (line + s.text.count '\n')
    rw [items, List.dropLast_append_of_ne_nil (items_ne_nil _ _)]
    refine ⟨tokensOf (s.item? (line + s.text.count '\n')).toList ++ words, last, ?_, ?_, ?_⟩
    · rw [List.append_assoc, ← hwords]
      exact List.filterMap_append
    · rw [← hdrop]
      exact List.filterMap_append
    · intro t ht
      rcases List.mem_append.1 ht with ht | ht
      · unfold Segment.item? at ht
        cases hc : s.cls with
        | token kind literal =>
          simp only [hc] at ht
          rw [List.mem_singleton.1 ht]
          exact hkind.1 kind literal hc
        | _ =>
          simp only [hc] at ht
          cases ht
      · exact hne t ht

end TreeScript
