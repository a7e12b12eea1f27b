import TreeScript.Proofs.Hosting.Dialogues
import TreeScript.Proofs.Scanning.Rewriting
import Mathlib

/-!
# Other words for the reserved words

A host may choose other words for the reserved words of the language.

* `Feed.respelled` — tokens of the same kind, the reserved words of which may be spelled
  in another way, except for `this`
* `Verdict` — what a run comes to, apart from the words of its diagnostics
* `Renaming.run_rewrite` — a source comes to the same with other reserved words, if `this`
  keeps its spelling
* `Renaming.verdict_self` — with another word for `this` it does not
-/

namespace TreeScript

/-! ## Tokens that are spelled in another way -/

/-- Trees whose tokens stand on the same lines. -/
def Likeness.respelled : Likeness where
  token t u := u.line = t.line
  id i j := j = i
  function _ := True

/-- Tokens of the same kind on the same line, which have the same text unless nothing looks
at it. -/
def Feed.respelled : Feed .respelled where
  read t u := u.kind = t.kind ∧ u.literal = t.literal ∧ u.line = t.line ∧
    (t.kind.isTextless = false → u.lexeme = t.lexeme)
  supply i j := j = i
  finish := ⟨rfl, rfl, rfl, fun _ => rfl⟩
  kind h := h.1
  literal h := h.2.1
  lexeme h := h.2.2.2
  token h _ := h.2.2.1
  id h := h
  next h := congrArg Nat.succ h
  function _ := trivial

/-! ## Rewritten sources -/

theorem Lexicon.kindOf_word {lexicon : Lexicon} {c : Char} {rest : List Char}
    (hc : isWordStart c = true) :
    lexicon.kindOf (c :: rest) = lexicon.wordKind (String.ofList (c :: rest)) := by
  have hd : ¬c.isDigit = true := fun hd => by
    rw [isWordStart_of_isDigit hd] at hc
    cases hc
  simp only [kindOf]
  split
  case h_7 => rw [if_neg hd, if_pos hc]
  all_goals cases hc

/-- A segment that is a token gives a token. -/
theorem exists_mem_tokensOf {found : List Segment} {s : Segment} (hs : s ∈ found)
    {kind : TokenKind} {literal : Option Literal} (hc : s.cls = .token kind literal)
    (line : Nat) :
    ∃ last, { kind, lexeme := String.ofList s.text, literal, line := last } ∈
      tokensOf (items line found) := by
  induction found generalizing line with
  | nil => cases hs
  | cons first rest ih =>
    rw [items, tokensOf, List.filterMap_append]
    rcases List.mem_cons.1 hs with rfl | hs
    · refine ⟨line + s.text.count '\n', List.mem_append_left _ ?_⟩
      simp [Segment.item?, hc, Except.toOption]
    · obtain ⟨last, hm⟩ := ih hs (line + first.text.count '\n')
      exact ⟨last, List.mem_append_right _ hm⟩

theorem newline_not_mem_of_isWord {text : String} (h : isWord text = true) :
    '\n' ∉ text.toList := by
  unfold isWord at h
  split at h
  · cases h
  · rename_i c rest hword
    simp only [Bool.and_eq_true, List.all_eq_true] at h
    rw [hword, List.mem_cons]
    rintro (rfl | hm)
    · exact absurd h.1 (by decide)
    · exact absurd (h.2 _ hm) (by decide)

namespace Renaming

variable (r : Renaming) {source : String}

/-- No identifier of the source is one of the new words. -/
def Fresh (source : String) : Prop :=
  ∀ t ∈ tokensOf (scan .standard source), t.kind = .identifier →
    ∀ w ∈ Lexicon.reserved, r.word w ≠ t.lexeme

theorem fresh_of_all
    (h : ((tokensOf (scan .standard source)).all fun t =>
      t.kind != .identifier || Lexicon.reserved.all fun w => r.word w != t.lexeme) = true) :
    r.Fresh source := by
  intro t ht hk w hw
  have hall := List.all_eq_true.1 h t ht
  rw [hk] at hall
  exact bne_iff_ne.1 (List.all_eq_true.1 hall w hw)

/-- The word `this` keeps its spelling, or the source does without it. -/
def KeepsThis (source : String) : Prop :=
  r.word "this" = "this" ∨ ∀ t ∈ tokensOf (scan .standard source), t.kind ≠ .thisKeyword

/-- New words have as many lines as old ones. -/
theorem count_text (cs : List Char) : (r.text cs).count '\n' = cs.count '\n' := by
  by_cases hm : String.ofList cs ∈ Lexicon.reserved
  · have hold : '\n' ∉ cs := by
      simpa only [String.toList_ofList] using
        newline_not_mem_of_isWord (Lexicon.isWord_of_reserved hm)
    rw [text, if_pos hm, List.count_eq_zero_of_not_mem hold,
      List.count_eq_zero_of_not_mem (newline_not_mem_of_isWord (r.shaped _ hm))]
  · rw [text, if_neg hm]

/-- Of the words the text of which is looked at, only `this` is replaced. -/
theorem text_of_not_isTextless {cs : List Char}
    (ht : (Lexicon.standard.kindOf cs).isTextless = false)
    (hthis : r.word "this" = "this" ∨ Lexicon.standard.kindOf cs ≠ .thisKeyword) :
    r.text cs = cs := by
  have honly : ∀ p ∈ Lexicon.standardKeywords, p.2.isTextless = false →
      p = ("this", .thisKeyword) := by
    decide
  by_cases hm : String.ofList cs ∈ Lexicon.reserved
  · have hkind : Lexicon.standard.kindOf cs = Lexicon.standard.wordKind (String.ofList cs) := by
      cases cs with
      | nil => exact absurd (Lexicon.isWord_of_reserved hm) (by decide)
      | cons c rest => exact Lexicon.kindOf_word (isWordStart_of_reserved hm)
    obtain ⟨⟨w, kind⟩, hp, hw⟩ := List.mem_map.1 hm
    obtain rfl : w = String.ofList cs := hw
    rw [hkind, Lexicon.wordKind_reserved hp] at ht hthis
    obtain ⟨hword, rfl⟩ := Prod.mk.inj (honly _ hp ht)
    rw [text, if_pos hm, hword, hthis.resolve_right fun h => h rfl, ← hword,
      String.toList_ofList]
  · rw [text, if_neg hm]

theorem items_rewrite {found : List Segment}
    (hs : ∀ s ∈ found, ∀ kind literal, s.cls = .token kind literal →
      kind = Lexicon.standard.kindOf s.text)
    (hthis : r.word "this" = "this" ∨
      ∀ s ∈ found, ∀ kind literal, s.cls = .token kind literal → kind ≠ .thisKeyword)
    (line : Nat) :
    List.Forall₂ Feed.respelled.Item (items line found)
      (items line (found.map r.segment)) := by
  induction found generalizing line with
  | nil => exact .cons (.token ⟨rfl, rfl, rfl, fun _ => rfl⟩) .nil
  | cons s rest ih =>
    rw [List.forall_mem_cons] at hs
    rw [List.forall_mem_cons, or_and_left] at hthis
    have hcount : (r.segment s).text.count '\n' = s.text.count '\n' := r.count_text _
    rw [List.map_cons, items, items, hcount]
    refine List.rel_append ?_ (ih hs.2 hthis.2 _)
    cases hc : s.cls with
    | blank =>
      simp only [Segment.item?, segment, hc]
      exact .nil
    | fault fault =>
      simp only [Segment.item?, segment, hc]
      exact .cons (.fault fault _) .nil
    | token kind literal =>
      simp only [Segment.item?, segment, hc]
      refine .cons (.token ⟨rfl, rfl, rfl, fun ht => ?_⟩) .nil
      have hkind := hs.1 kind literal hc
      rw [r.text_of_not_isTextless (hkind ▸ ht)
        (hthis.1.imp_right fun h => hkind ▸ h kind literal hc)]

theorem scan_rewrite (hnew : r.Fresh source) (hthis : r.KeepsThis source) :
    List.Forall₂ Feed.respelled.Item (scan .standard source)
      (scan r.lexicon (r.rewrite source)) := by
  have hsegments := r.segments_texts source.toList fun s hs hc w hw => by
    obtain ⟨last, hm⟩ := exists_mem_tokensOf hs hc 1
    exact hnew _ hm rfl w hw
  rw [scan, scan, rewrite, String.toList_ofList, ← texts, hsegments]
  refine r.items_rewrite (fun s hs _ _ hc => segments_spelled hs hc) ?_ 1
  refine hthis.imp_right fun h s hs kind literal hc => ?_
  obtain ⟨last, hm⟩ := exists_mem_tokensOf hs hc 1
  exact h _ hm

end Renaming

/-! ## Verdicts -/

/-- What a run comes to, apart from the words and the places of its diagnostics. -/
inductive Verdict where
  | reported (value : Option ValueReport) (isOk hadStaticError hadRuntimeError : Bool)
      (exitCode : Nat)
  | broken (cause : BrokenScope)
  | outOfFuel
  deriving DecidableEq

/-- What a run came to, after which the session stands as given. -/
def RunEnd.verdict (after : Session) : RunEnd → Verdict
  | .reported report =>
    .reported (report.value.map (Value.report after.interpreter.machine)) report.isOk
      report.hadStaticError report.hadRuntimeError report.exitCode
  | .broken cause => .broken cause
  | .outOfFuel => .outOfFuel

section

variable {L : Likeness} {place : Token → Token → Prop}

/-- Alike diagnostics are of the same kinds. -/
theorem any_of_alike {p : Diagnostic → Bool} (hp : ∀ d e : Diagnostic, d.Alike place e → p e = p d)
    {ds es : List Diagnostic} (h : List.Forall₂ (Diagnostic.Alike place) ds es) :
    es.any p = ds.any p := by
  induction h with
  | nil => rfl
  | cons hd _ ih => rw [List.any_cons, List.any_cons, hp _ _ hd, ih]

theorem RunEnd.Alike.verdict {e e' : RunEnd} (h : e.Alike L place e') {after after' : Session}
    (hm : after.interpreter.machine.Alike L after'.interpreter.machine) :
    e'.verdict after' = e.verdict after := by
  cases h with
  | @reported r r' hv hd =>
    have hvalue : r'.value.map (Value.report after'.interpreter.machine) =
        r.value.map (Value.report after.interpreter.machine) := Value.Alike.map_report hv hm
    have hok : r'.isOk = r.isOk := isEmpty_of_forall₂ hd
    have hstatic : r'.hadStaticError = r.hadStaticError :=
      any_of_alike (fun _ _ h => h.isStatic) hd
    have hruntime : r'.hadRuntimeError = r.hadRuntimeError :=
      any_of_alike (fun _ _ h => h.isRuntime) hd
    simp only [RunEnd.verdict, Report.exitCode, hvalue, hok, hstatic, hruntime]
  | broken _ => rfl
  | outOfFuel => rfl

end

namespace Renaming

variable (r : Renaming) {source : String}

/-- A source comes to the same with other words for the reserved ones, if `this` keeps its
spelling or is not used: the same is printed, and the run ends with the same value, or in the
same sort of fault. -/
theorem run_rewrite (hnew : r.Fresh source) (hthis : r.KeepsThis source) (sink : Sink)
    (now : Float) (fuel : Nat) :
    let before := (Session.create .standard sink now).run fuel source
    let after := (Session.create r.lexicon sink now).run fuel (r.rewrite source)
    after.1.printed = before.1.printed ∧ after.2.verdict after.1 = before.2.verdict before.1 := by
  have halike : Session.Alike Feed.respelled (.create .standard sink now)
      (.create r.lexicon sink now) :=
    .create .standard r.lexicon sink now (fun h => h) rfl
  have hu : Likeness.respelled.Biunique := by
    rintro i _ j _ rfl rfl
    exact Iff.rfl
  obtain ⟨hsession, hend⟩ := halike.run hu (r.scan_rewrite hnew hthis) fuel
  exact ⟨congrArg Sink.printed hsession.machine.sink, hend.verdict hsession.machine⟩

/-- One new word. -/
def single (old new : String) : String → String :=
  fun w => if w = old then new else w

/-- The word `show` in place of `print`. -/
def showWord : Renaming where
  word := single "print" "show"
  shaped := by decide
  injective := by decide

/-- A source in which `print2` is a name. -/
def printSource : String :=
  "var print2; print print2;"

theorem run_rewrite_showWord :
    showWord.Fresh printSource ∧ showWord.KeepsThis printSource ∧
    showWord.rewrite printSource = "var print2; show print2;" ∧
    let before := (Session.create .standard .unlimited 0).run 9 printSource
    let after := (Session.create showWord.lexicon .unlimited 0).run 9 "var print2; show print2;"
    after.1.printed = before.1.printed ∧
      after.2.verdict after.1 = before.2.verdict before.1 := by
  have hnew : showWord.Fresh printSource := fresh_of_all _ (by cbv)
  have hrewrite : showWord.rewrite printSource = "var print2; show print2;" := by cbv
  have h := run_rewrite showWord hnew (.inl rfl) .unlimited 0 9
  rw [hrewrite] at h
  exact ⟨hnew, .inl rfl, hrewrite, h⟩

/-! ## Another word for `this` -/

/-- The word `self` in place of `this`. -/
def selfWord : Renaming where
  word := single "this" "self"
  shaped := by decide
  injective := by decide

/-- A method that evaluates `this`. -/
def thisSource : String :=
  "class A \x7b m() \x7b this; \x7d \x7d A().m();"

/-- With another word for `this` the method fails, since its instance is bound under the old
word and the new one is looked up. -/
theorem verdict_selfWord :
    ¬∀ (r : Renaming) (source : String), r.Fresh source → ∀ sink now fuel,
      let before := (Session.create .standard sink now).run fuel source
      let after := (Session.create r.lexicon sink now).run fuel (r.rewrite source)
      after.1.printed = before.1.printed ∧
        after.2.verdict after.1 = before.2.verdict before.1 := by
  intro h
  have hnew : selfWord.Fresh thisSource := fresh_of_all _ (by cbv)
  have hverdict := (h selfWord thisSource hnew .unlimited 0 20).2
  have hverdicts :
      (((Session.create .standard .unlimited 0).run 20 thisSource).2.verdict
          ((Session.create .standard .unlimited 0).run 20 thisSource).1,
        ((Session.create selfWord.lexicon .unlimited 0).run 20
            (selfWord.rewrite thisSource)).2.verdict
          ((Session.create selfWord.lexicon .unlimited 0).run 20
            (selfWord.rewrite thisSource)).1) =
      (.reported (some ⟨.nil, "nil", none⟩) true false false 0,
        .reported none false false true 70) := by
    cbv
  obtain ⟨hbefore, hafter⟩ := Prod.mk.inj hverdicts
  rw [hbefore, hafter] at hverdict
  cases hverdict

end Renaming

end TreeScript
