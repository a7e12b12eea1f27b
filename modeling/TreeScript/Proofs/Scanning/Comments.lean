import TreeScript.Proofs.Scanning.Reading

/-!
# Comments inside comments

A block comment may hold other ones.  It ends where as many comments have been closed as were
opened, and nowhere before that.

* `CommentBody`, `NestedComment` — comments by their grammar, with no stray slash or star
* `commentMarks` — the openers and closers of a text, read from left to right
* `BalancedComment` — a text that opens a comment and closes it with its last mark
* `closes_iff` — what is skipped after an opener, counted by its marks
* `nested_comments_skipped` — what a nested comment and each of its parts are read as, and
  which texts are skipped as comments
-/

namespace TreeScript

/-! ## Nested comments -/

/-- What may stand in a comment by the grammar: characters that are no part of a mark, and
comments. -/
inductive CommentBody : List Char → Prop where
  | nil : CommentBody []
  | plain {c rest} (hslash : c ≠ '/') (hstar : c ≠ '*') (h : CommentBody rest) :
      CommentBody (c :: rest)
  | comment {inner rest} (hinner : CommentBody inner) (h : CommentBody rest) :
      CommentBody ('/' :: '*' :: (inner ++ '*' :: '/' :: rest))

/-- A comment by the grammar. -/
def NestedComment (text : List Char) : Prop :=
  ∃ body, CommentBody body ∧ text = '/' :: '*' :: (body ++ ['*', '/'])

/-! ## Counting marks -/

/-- The marks of comments. -/
inductive CommentMark where
  | opener
  | closer
  deriving DecidableEq, Repr

/-- The marks of a text, each the leftmost one behind the mark before it. -/
def commentMarks : List Char → List CommentMark
  | '/' :: '*' :: rest => .opener :: commentMarks rest
  | '*' :: '/' :: rest => .closer :: commentMarks rest
  | _ :: rest => commentMarks rest
  | [] => []

/-- How many comments a text opens. -/
def openers (text : List Char) : Nat :=
  (commentMarks text).count .opener

/-- How many comments a text closes. -/
def closers (text : List Char) : Nat :=
  (commentMarks text).count .closer

/-- A text that opens a comment, closes as many as it opens, and not before its end. -/
structure BalancedComment (text : List Char) : Prop where
  opened : ['/', '*'] <+: text
  even : openers text = closers text
  inside : ∀ part, part <+: text → part ≠ text → 2 ≤ part.length → closers part < openers part

/-- A text that closes all of `depth` open comments and those it opens, and not before its
end. -/
structure Settles (depth : Nat) (text : List Char) : Prop where
  even : depth + openers text = closers text
  inside : ∀ part, part <+: text → part ≠ text → closers part < depth + openers part

section

variable {depth : Nat} {c : Char} {text rest : List Char}

theorem commentMarks_other (hopen : ¬['/', '*'] <+: c :: rest)
    (hclose : ¬['*', '/'] <+: c :: rest) : commentMarks (c :: rest) = commentMarks rest := by
  rw [commentMarks]
  · rintro tail rfl rfl
    exact hopen ⟨tail, rfl⟩
  · rintro tail rfl rfl
    exact hclose ⟨tail, rfl⟩

theorem commentMarks_singleton (c : Char) : commentMarks [c] = [] := by
  rw [commentMarks_other, commentMarks]
  · exact fun h => nomatch (pair_prefix_iff.1 h).2
  · exact fun h => nomatch (pair_prefix_iff.1 h).2

theorem openers_opener (rest : List Char) : openers ('/' :: '*' :: rest) = openers rest + 1 := by
  rw [openers, commentMarks, List.count_cons_self, openers]

theorem closers_opener (rest : List Char) : closers ('/' :: '*' :: rest) = closers rest := by
  rw [closers, commentMarks, List.count_cons_of_ne (by decide), closers]

theorem openers_closer (rest : List Char) : openers ('*' :: '/' :: rest) = openers rest := by
  rw [openers, commentMarks, List.count_cons_of_ne (by decide), openers]

theorem closers_closer (rest : List Char) : closers ('*' :: '/' :: rest) = closers rest + 1 := by
  rw [closers, commentMarks, List.count_cons_self, closers]

theorem openers_singleton (c : Char) : openers [c] = 0 := by
  rw [openers, commentMarks_singleton]
  rfl

theorem closers_singleton (c : Char) : closers [c] = 0 := by
  rw [closers, commentMarks_singleton]
  rfl

/-! ## Parts of a text -/

/-- The parts that a text starts with are none of it, and its first character with a part of
the rest. -/
theorem forall_part_cons {P : List Char → Prop} :
    (∀ part, part <+: c :: rest → part ≠ c :: rest → P part) ↔
      P [] ∧ ∀ part, part <+: rest → part ≠ rest → P (c :: part) := by
  constructor
  · intro h
    refine ⟨h [] List.nil_prefix (List.cons_ne_nil _ _).symm, fun part hpart hne => ?_⟩
    exact h _ (List.cons_prefix_cons.2 ⟨rfl, hpart⟩) fun he => hne (List.tail_eq_of_cons_eq he)
  · rintro ⟨hnil, hcons⟩ part hpart hne
    rcases List.prefix_cons_iff.1 hpart with rfl | ⟨piece, rfl, hpiece⟩
    · exact hnil
    · exact hcons piece hpiece fun he => hne (congrArg (c :: ·) he)

theorem settles_opener_iff (hdepth : 0 < depth) :
    Settles depth ('/' :: '*' :: rest) ↔ Settles (depth + 1) rest := by
  have hsum : ∀ part, depth + (openers part + 1) = depth + 1 + openers part := fun _ => by omega
  constructor
  · rintro ⟨heven, hinside⟩
    simp only [forall_part_cons, openers_opener, closers_opener, hsum] at heven hinside
    exact ⟨heven, hinside.2.2⟩
  · rintro ⟨heven, hinside⟩
    constructor
    · rwa [openers_opener, closers_opener, hsum]
    · simp only [forall_part_cons, openers_opener, closers_opener, hsum]
      refine ⟨?_, ?_, hinside⟩
      · exact Nat.lt_of_lt_of_le hdepth (Nat.le_add_right _ _)
      · rw [openers_singleton, closers_singleton]
        exact hdepth

theorem settles_closer_iff :
    Settles (depth + 1) ('*' :: '/' :: rest) ↔ Settles depth rest := by
  have hsum : ∀ part, closers part + 1 < depth + 1 + openers part ↔
      closers part < depth + openers part := fun _ => by omega
  constructor
  · rintro ⟨heven, hinside⟩
    simp only [forall_part_cons, openers_closer, closers_closer, hsum] at heven hinside
    exact ⟨by omega, hinside.2.2⟩
  · rintro ⟨heven, hinside⟩
    constructor
    · rw [openers_closer, closers_closer]
      omega
    · simp only [forall_part_cons, openers_closer, closers_closer, hsum]
      refine ⟨?_, ?_, hinside⟩
      · exact Nat.lt_of_lt_of_le (Nat.succ_pos depth) (Nat.le_add_right _ _)
      · rw [openers_singleton, closers_singleton]
        exact Nat.succ_pos depth

theorem settles_other_iff (hdepth : 0 < depth) (hopen : ¬['/', '*'] <+: c :: rest)
    (hclose : ¬['*', '/'] <+: c :: rest) : Settles depth (c :: rest) ↔ Settles depth rest := by
  -- a part of the text has no mark in front either
  have hmarks : ∀ part, part <+: rest → commentMarks (c :: part) = commentMarks part :=
    fun part hpart => commentMarks_other
      (fun h => hopen (h.trans (List.cons_prefix_cons.2 ⟨rfl, hpart⟩)))
      fun h => hclose (h.trans (List.cons_prefix_cons.2 ⟨rfl, hpart⟩))
  have hopeners : ∀ part, part <+: rest → openers (c :: part) = openers part :=
    fun part hpart => by rw [openers, hmarks part hpart, openers]
  have hclosers : ∀ part, part <+: rest → closers (c :: part) = closers part :=
    fun part hpart => by rw [closers, hmarks part hpart, closers]
  constructor
  · rintro ⟨heven, hinside⟩
    rw [hopeners rest List.prefix_rfl, hclosers rest List.prefix_rfl] at heven
    refine ⟨heven, fun part hpart hne => ?_⟩
    rw [← hopeners part hpart, ← hclosers part hpart]
    exact (forall_part_cons.1 hinside).2 part hpart hne
  · rintro ⟨heven, hinside⟩
    refine ⟨by rwa [hopeners rest List.prefix_rfl, hclosers rest List.prefix_rfl], ?_⟩
    refine forall_part_cons.2 ⟨?_, fun part hpart hne => ?_⟩
    · exact Nat.lt_of_lt_of_le hdepth (Nat.le_add_right _ _)
    · rw [hopeners part hpart, hclosers part hpart]
      exact hinside part hpart hne

theorem settles_nil (hdepth : 0 < depth) : ¬Settles depth [] := by
  rintro ⟨heven, -⟩
  have hsum : depth + 0 = 0 := heven
  omega

/-- After openers a comment is skipped up to where its marks are even, and no further. -/
theorem closes_iff (hdepth : 0 < depth) : Closes depth text ↔ Settles depth text := by
  constructor
  · intro h
    clear hdepth
    induction h with
    | last =>
      refine ⟨rfl, ?_⟩
      simp only [forall_part_cons, closers_singleton, openers_singleton]
      refine ⟨Nat.one_pos, Nat.one_pos, fun part hpart hne => ?_⟩
      exact absurd (List.prefix_nil.1 hpart) hne
    | closer h ih => exact settles_closer_iff.2 ih
    | opener h ih => exact (settles_opener_iff (Nat.succ_pos _)).2 ih
    | other hopen hclose h ih => exact (settles_other_iff h.pos hopen hclose).2 ih
  · intro h
    fun_induction commentMarks text generalizing depth with
    | case1 rest ih =>
      obtain ⟨depth, rfl⟩ := Nat.exists_eq_succ_of_ne_zero hdepth.ne'
      exact .opener (ih (Nat.succ_pos _) ((settles_opener_iff hdepth).1 h))
    | case2 rest ih =>
      obtain ⟨depth, rfl⟩ := Nat.exists_eq_succ_of_ne_zero hdepth.ne'
      rcases Nat.eq_zero_or_pos depth with rfl | hpos
      · -- the last comment is closed, so that nothing may follow
        cases rest with
        | nil => exact .last
        | cons c rest =>
          have hearly := h.inside ['*', '/'] ⟨c :: rest, rfl⟩ nofun
          exact absurd hearly (by decide)
      · exact .closer (ih hpos (settles_closer_iff.1 h))
    | case3 c rest hopen hclose ih =>
      have hopen' : ¬['/', '*'] <+: c :: rest := not_pair_start hopen
      have hclose' : ¬['*', '/'] <+: c :: rest := not_pair_start hclose
      exact .other hopen' hclose' (ih hdepth ((settles_other_iff hdepth hopen' hclose').1 h))
    | case4 => exact absurd h (settles_nil hdepth)

/-- A comment is balanced if what follows its opener closes it. -/
theorem balancedComment_iff : BalancedComment ('/' :: '*' :: rest) ↔ Closes 1 rest := by
  rw [closes_iff Nat.one_pos]
  constructor
  · rintro ⟨-, heven, hinside⟩
    rw [openers_opener, closers_opener, Nat.add_comm] at heven
    refine ⟨heven, fun part hpart hne => ?_⟩
    have hlt := hinside ('/' :: '*' :: part) (by simpa using hpart) (by simpa using hne) (by simp)
    rwa [openers_opener, closers_opener, Nat.add_comm] at hlt
  · rintro ⟨heven, hinside⟩
    refine ⟨⟨rest, rfl⟩, by rwa [openers_opener, closers_opener, Nat.add_comm], ?_⟩
    intro part hpart hne hlength
    obtain ⟨piece, rfl⟩ : ['/', '*'] <+: part :=
      List.prefix_of_prefix_length_le ⟨rest, rfl⟩ hpart hlength
    rw [List.cons_append, List.cons_append, List.nil_append] at hpart hne ⊢
    rw [openers_opener, closers_opener, Nat.add_comm]
    exact hinside piece (by simpa using hpart) (by simpa using hne)

end

/-! ## Comments by the grammar -/

/-- The body of a comment changes nothing about what is open. -/
theorem CommentBody.closes_append {depth : Nat} {body tail : List Char} (h : CommentBody body)
    (ht : Closes depth tail) : Closes depth (body ++ tail) := by
  induction h generalizing depth tail with
  | nil => exact ht
  | plain hslash hstar h ih =>
    refine .other (fun hpair => hslash ?_) (fun hpair => hstar ?_) (ih ht)
    · exact (pair_prefix_iff.1 hpair).1
    · exact (pair_prefix_iff.1 hpair).1
  | @comment inner rest hinner h ihinner ih =>
    obtain ⟨depth, rfl⟩ := Nat.exists_eq_succ_of_ne_zero ht.pos.ne'
    rw [List.cons_append, List.cons_append, List.append_assoc]
    exact .opener (ihinner (.closer (ih ht)))

theorem NestedComment.balanced {text : List Char} (h : NestedComment text) :
    BalancedComment text := by
  obtain ⟨body, hbody, rfl⟩ := h
  exact balancedComment_iff.2 (hbody.closes_append .last)

/-! ## Comments in a source -/

/-- A text that opens a comment is an opener and the rest. -/
theorem BalancedComment.exists_closes {text : List Char} (h : BalancedComment text) :
    ∃ body, text = '/' :: '*' :: body ∧ Closes 1 body := by
  obtain ⟨body, rfl⟩ := h.opened
  exact ⟨body, rfl, balancedComment_iff.1 h⟩

theorem cut_opener (lexicon : Lexicon) (rest : List Char) :
    Segment.cut lexicon '/' ('*' :: rest) =
      match commentExtent 1 rest with
      | some extent => (.blank, 1 + extent)
      | none => (.fault .unterminatedComment, 1 + rest.length) :=
  rfl

/-- A closed comment is cut where it ends, whatever follows. -/
theorem cut_comment {lexicon : Lexicon} {body : List Char} (h : Closes 1 body)
    (after : List Char) :
    Segment.cut lexicon '/' ('*' :: body ++ after) = (.blank, ('*' :: body).length) := by
  rw [List.cons_append, cut_opener, h.commentExtent, List.length_cons]
  exact congrArg (Prod.mk _) (Nat.add_comm _ _)

/-- A text is skipped as a comment, whatever follows, if and only if its marks are even at its
end and not before. -/
theorem segments_comment_iff {lexicon : Lexicon} {text after : List Char}
    (hopen : ['/', '*'] <+: text) :
    segments lexicon (text ++ after) = { text, cls := .blank } :: segments lexicon after ↔
      BalancedComment text := by
  obtain ⟨body, rfl⟩ := hopen
  change segments lexicon ('/' :: '*' :: (body ++ after)) =
    { text := '/' :: '*' :: body, cls := .blank } :: segments lexicon after ↔
      BalancedComment ('/' :: '*' :: body)
  rw [balancedComment_iff]
  constructor
  · intro h
    rw [segments, cut_opener] at h
    cases hextent : commentExtent 1 (body ++ after) with
    | none =>
      rw [hextent] at h
      cases congrArg Segment.cls (List.cons.inj h).1
    | some extent =>
      rw [hextent] at h
      have htext : '*' :: body = ('*' :: (body ++ after)).take (1 + extent) :=
        (List.cons.inj (congrArg Segment.text (List.cons.inj h).1)).2.symm
      rw [Nat.add_comm, List.take_succ_cons] at htext
      rw [(List.cons.inj htext).2]
      exact closes_of_commentExtent Nat.one_pos hextent
  · intro h
    exact segments_cons_append ('*' :: body) (cut_comment h after)

/-- A part of a comment, cut off behind its opener, is left open. -/
theorem scan_part {lexicon : Lexicon} {text part : List Char} (h : BalancedComment text)
    (hpart : part <+: text) (hne : part ≠ text) (hlength : 2 ≤ part.length) :
    ¬BalancedComment part ∧ scan lexicon (String.ofList part) =
      [.error (.lex .unterminatedComment (1 + part.count '\n')),
        .ok (Token.finish (1 + part.count '\n'))] := by
  have hnot : ∀ piece, piece <+: part → ¬BalancedComment piece := fun piece hpiece hb => by
    have hlt := h.inside piece (hpiece.trans hpart) (fun he => ?_) hb.opened.length_le
    · rw [hb.even] at hlt
      exact Nat.lt_irrefl _ hlt
    · exact hne (hpart.eq_of_length_le (he ▸ hpiece.length_le))
  obtain ⟨body, rfl⟩ : ['/', '*'] <+: part :=
    List.prefix_of_prefix_length_le h.opened hpart hlength
  have hopen : ∀ piece, piece <+: body → ¬Closes 1 piece := fun piece hpiece hc =>
    hnot ('/' :: '*' :: piece) (by simpa using hpiece) (balancedComment_iff.2 hc)
  let piece : Segment := { text := '/' :: '*' :: body, cls := .fault .unterminatedComment }
  have hlexes : Lexes lexicon (piece.text ++ []) [piece] := .cons (.openComment hopen) .nil
  rw [List.append_nil] at hlexes
  refine ⟨hnot _ List.prefix_rfl, ?_⟩
  rw [scan, String.toList_ofList]
  exact congrArg (items 1) ((lexes_iff ..).1 hlexes)

/-- What is read without a fault from where a comment opens is balanced. -/
theorem balanced_of_read {lexicon : Lexicon} {source : String} {cursor next : Cursor}
    {before rest : List Char} (h : Stands source cursor.position before ('/' :: '*' :: rest))
    (hread : Cursor.read lexicon source cursor = .ok (.blank, next)) :
    ∃ text after, '/' :: '*' :: rest = text ++ after ∧ BalancedComment text ∧
      next = cursor.behind text := by
  have hcut := cut_opener lexicon rest
  cases hextent : commentExtent 1 rest with
  | none =>
    rw [hextent] at hcut
    rw [Cursor.read_eq h hcut] at hread
    cases hread
  | some extent =>
    rw [hextent] at hcut
    rw [Cursor.read_eq h hcut, Nat.add_comm, List.take_succ_cons] at hread
    cases hread
    refine ⟨_, rest.drop extent, ?_, ?_, rfl⟩
    · rw [List.cons_append, List.cons_append, List.take_append_drop]
    · exact balancedComment_iff.2 (closes_of_commentExtent Nat.one_pos hextent)

/-- A balanced comment is read as a whole, and the cursor stands behind it. -/
theorem read_comment {lexicon : Lexicon} {source : String} {cursor : Cursor}
    {before text after : List Char} (h : BalancedComment text)
    (hstands : Stands source cursor.position before (text ++ after)) :
    Cursor.read lexicon source cursor = .ok (.blank, cursor.behind text) := by
  obtain ⟨body, rfl, hbody⟩ := h.exists_closes
  have htake : ('*' :: body ++ after).take ('*' :: body).length = '*' :: body := List.take_left
  rw [Cursor.read_eq hstands (cut_comment hbody after)]
  exact congrArg (fun taken => Except.ok (SegmentClass.blank, cursor.behind ('/' :: taken))) htake

/-- A nested comment is skipped without a fault and without a token, whatever follows it, and
the cursor stands behind it; each part of it behind the opener is one fault of its own.  And
whatever is skipped where a comment opens is balanced, as every balanced text is skipped. -/
theorem nested_comments_skipped (lexicon : Lexicon) :
    (∀ text, NestedComment text →
      (∀ after, segments lexicon (text ++ after) =
        { text, cls := .blank } :: segments lexicon after) ∧
      (∀ source cursor before after, Stands source cursor.position before (text ++ after) →
        Cursor.read lexicon source cursor = .ok (.blank, cursor.behind text)) ∧
      ∀ part, part <+: text → part ≠ text → 2 ≤ part.length →
        ¬BalancedComment part ∧ scan lexicon (String.ofList part) =
          [.error (.lex .unterminatedComment (1 + part.count '\n')),
            .ok (Token.finish (1 + part.count '\n'))]) ∧
    (∀ source cursor next before rest,
      Stands source cursor.position before ('/' :: '*' :: rest) →
      Cursor.read lexicon source cursor = .ok (.blank, next) →
      ∃ text after, '/' :: '*' :: rest = text ++ after ∧ BalancedComment text ∧
        next = cursor.behind text) ∧
    ∀ text after, ['/', '*'] <+: text →
      (segments lexicon (text ++ after) = { text, cls := .blank } :: segments lexicon after ↔
        BalancedComment text) := by
  refine ⟨fun text h => ⟨fun after => ?_, fun source cursor before after hstands => ?_, ?_⟩,
    fun source cursor next before rest => balanced_of_read, fun text after => segments_comment_iff⟩
  · exact (segments_comment_iff h.balanced.opened).2 h.balanced
  · exact read_comment h.balanced hstands
  · exact fun part hpart hne hlength => scan_part h.balanced hpart hne hlength

/-- A comment that holds another one, over two lines. -/
def innerComment : List Char :=
  ['/', '*', 'a', '/', '*', '\n', '*', '/', '*', '/']

theorem nested_comments_skipped_inner :
    NestedComment innerComment ∧
    Stands "x/*a/*\n*/*/y" 1 ['x'] (innerComment ++ ['y']) ∧
    Cursor.read .standard "x/*a/*\n*/*/y" ⟨1, 1⟩ = .ok (.blank, ⟨11, 2⟩) ∧
    (∃ text after, innerComment ++ ['y'] = text ++ after ∧ BalancedComment text ∧
      (⟨11, 2⟩ : Cursor) = Cursor.behind ⟨1, 1⟩ text) ∧
    scan .standard "/*a/*\n*/" =
      [.error (.lex .unterminatedComment 2), .ok (Token.finish 2)] ∧
    BalancedComment innerComment := by
  obtain ⟨hnested, hread, hskipped⟩ := nested_comments_skipped .standard
  have hbody : CommentBody ['a', '/', '*', '\n', '*', '/'] :=
    .plain (by decide) (by decide) (.comment (.plain (by decide) (by decide) .nil) .nil)
  have hinner : NestedComment innerComment := ⟨_, hbody, rfl⟩
  have hstands : Stands "x/*a/*\n*/*/y" 1 ['x'] (innerComment ++ ['y']) :=
    (Stands.start "x/*a/*\n*/*/y").ahead ['x']
  obtain ⟨hsegments, hcursor, hparts⟩ := hnested innerComment hinner
  have hblank := hcursor _ ⟨1, 1⟩ _ _ hstands
  refine ⟨hinner, hstands, hblank, hread _ ⟨1, 1⟩ _ _ _ hstands hblank, ?_, ?_⟩
  · exact (hparts _ ⟨['*', '/'], rfl⟩ (by decide) (by decide)).2
  · exact (hskipped _ [] ⟨_, rfl⟩).1 (hsegments [])

end TreeScript
