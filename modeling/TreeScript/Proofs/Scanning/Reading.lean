import TreeScript.Proofs.Scanning.Cursor

/-!
# The segments that are read

What is read from the bytes of a source is what is cut from its text, and the cursor stands
behind that text: each reader is taken through the cut that it stands for.

* `skipComment_eq`, `readString_eq`, `readNumber_eq` and the like — one reader each
* `read_eq` — the segment that is read is the segment that is cut
-/

namespace TreeScript.Cursor

variable {source : String} {cursor : Cursor} {before text after rest : List Char}

/-! ## Comparisons and comments -/

theorem readComparison_eq {withEqual alone : TokenKind} {cls : SegmentClass} {extent : Nat}
    (h : Stands source cursor.position before rest)
    (hc : Segment.cutComparison withEqual alone rest = (cls, extent)) :
    readComparison source withEqual alone cursor = (cls, cursor.behind (rest.take extent)) := by
  rw [readComparison, h.follows (by decide)]
  unfold Segment.cutComparison at hc
  split at hc <;> rename_i hr <;> cases hc
  · obtain ⟨after, rfl⟩ := List.head?_eq_some_iff.1 hr
    exact congrArg (Prod.mk _) (ahead_one (by decide) (by decide))
  · have hnone : rest.head?.any (· == '=') = false := by
      cases rest with
      | nil => rfl
      | cons c rest => exact beq_eq_false_iff_ne.2 fun he => hr (congrArg some he)
    rw [hnone]
    rfl

/-- Bytes of no mark are passed one by one. -/
theorem skipComment_octets {bytes rest : List UInt8} {depth : Nat} (hd : 0 < depth)
    (hbytes : bytesFrom source cursor.position = bytes ++ rest)
    (hall : ∀ b ∈ bytes, ¬IsAscii (Char.ofUInt8 b)) :
    skipComment source depth cursor = skipComment source depth (cursor.ahead bytes.length) := by
  induction bytes generalizing cursor with
  | nil => rfl
  | cons b bytes ih =>
    rw [List.forall_mem_cons] at hall
    have hbyte := byte?_of_bytesFrom hbytes
    have hpeek := peek_of_byte? hbyte
    have hne : ∀ {x : Char}, IsAscii x → Char.ofUInt8 b ≠ x := fun hx he => hall.1 (he ▸ hx)
    have hpast : cursor.past (Char.ofUInt8 b) = cursor.ahead 1 := by
      rw [past, if_neg (hne (by decide))]
      rfl
    rw [skipComment, if_neg hd.ne', dif_neg (Nat.not_le.2 (lt_of_byte? hbyte)), hpeek,
      if_neg fun hpair => hne (by decide) hpair.1, if_neg fun hpair => hne (by decide) hpair.1,
      hpast, ih (bytesFrom_cons hbytes) hall.2, List.length_cons, ahead, ahead, ahead,
      Nat.add_assoc, Nat.add_comm 1]

/-- A character that opens and closes no comment is passed. -/
theorem skipComment_other {c : Char} {depth : Nat} (hd : 0 < depth)
    (h : Stands source cursor.position before (c :: rest))
    (hopen : ¬['/', '*'] <+: c :: rest) (hclose : ¬['*', '/'] <+: c :: rest) :
    skipComment source depth cursor = skipComment source depth (cursor.behind [c]) := by
  by_cases hc : IsAscii c
  · have hpeek : peek source cursor.position = c := by
      rw [peek, byte?_eq_head?, h.bytesFrom, octets_cons, utf8EncodeChar_of_isAscii hc]
      exact ofUInt8_toUInt8 hc
    have hend : ¬source.utf8ByteSize ≤ cursor.position :=
      h.atEnd_iff.not.2 (List.cons_ne_nil _ _)
    conv_lhs => rw [skipComment]
    rw [if_neg hd.ne', dif_neg hend, if_neg (h.peek_opener.not.2 hopen),
      if_neg (h.peek_closer.not.2 hclose), hpeek, past_eq_behind hc]
  · have hline : c ≠ '\n' := fun he => hc (he ▸ by decide)
    have hbytes := h.bytesFrom
    rw [octets_cons] at hbytes
    rw [skipComment_octets hd hbytes fun b hb => not_isAscii_of_mem hc hb, behind,
      List.count_singleton, if_neg (beq_iff_eq.not.2 hline), octets_cons, octets,
      List.flatMap_nil, List.append_nil]
    rfl

theorem skipComment_opener {depth : Nat} (hd : 0 < depth)
    (h : Stands source cursor.position before ('/' :: '*' :: rest)) :
    skipComment source depth cursor = skipComment source (depth + 1) (cursor.behind ['/', '*']) := by
  have hend : ¬source.utf8ByteSize ≤ cursor.position := h.atEnd_iff.not.2 (List.cons_ne_nil _ _)
  conv_lhs => rw [skipComment]
  rw [if_neg hd.ne', dif_neg hend, if_pos (h.peek_opener.2 ⟨rest, rfl⟩)]
  rfl

theorem skipComment_closer {depth : Nat} (hd : 0 < depth)
    (h : Stands source cursor.position before ('*' :: '/' :: rest)) :
    skipComment source depth cursor = skipComment source (depth - 1) (cursor.behind ['*', '/']) := by
  have hend : ¬source.utf8ByteSize ≤ cursor.position := h.atEnd_iff.not.2 (List.cons_ne_nil _ _)
  have hno : ¬['/', '*'] <+: '*' :: '/' :: rest := fun hp => by cases (pair_prefix_iff.1 hp).1
  conv_lhs => rw [skipComment]
  rw [if_neg hd.ne', dif_neg hend, if_neg (h.peek_opener.not.2 hno),
    if_pos (h.peek_closer.2 ⟨rest, rfl⟩)]
  rfl

/-- A block comment is read up to its end, or up to the end of the source. -/
theorem skipComment_eq {depth : Nat} (hd : 0 < depth)
    (h : Stands source cursor.position before rest) :
    skipComment source depth cursor =
      (commentExtent depth rest).elim (.fault .unterminatedComment, cursor.behind rest)
        fun extent => (.blank, cursor.behind (rest.take extent)) := by
  fun_induction commentExtent depth rest generalizing cursor before with
  | case1 depth rest ih =>
    rw [skipComment_opener hd h, ih (Nat.succ_pos _) (stands_behind ['/', '*'] h),
      Option.elim_map]
    simp only [← behind_append]
    rfl
  | case2 depth rest hle =>
    obtain rfl : depth = 1 := Nat.le_antisymm hle hd
    rw [skipComment_closer hd h, skipComment, if_pos rfl]
    rfl
  | case3 depth rest hle ih =>
    have hd' : 0 < depth - 1 := Nat.sub_pos_of_lt (Nat.not_le.1 hle)
    rw [skipComment_closer hd h, ih hd' (stands_behind ['*', '/'] h), Option.elim_map]
    simp only [← behind_append]
    rfl
  | case4 depth c rest hopen hclose ih =>
    rw [skipComment_other hd h (not_pair_start hopen) (not_pair_start hclose),
      ih hd (stands_behind [c] h), Option.elim_map]
    simp only [← behind_append]
    rfl
  | case5 depth =>
    rw [skipComment, if_neg hd.ne', dif_pos (h.atEnd_iff.2 rfl)]
    rfl

theorem skipLine_eq (h : Stands source cursor.position before rest) :
    skipLine source cursor = .ok (cursor.behind (rest.takeWhile (· != '\n'))) := by
  have hline : (rest.takeWhile (· != '\n')).count '\n' = 0 :=
    List.count_eq_zero.2 fun hm => by simpa using List.mem_takeWhile_imp hm
  have hpast : cursor.position ≤ source.utf8ByteSize := h.utf8ByteSize ▸ Nat.le_add_right _ _
  rw [skipLine, if_pos hpast, behind, hline, h.bytesFrom]
  have htake := takeWhile_octets (uniform_bne (x := '\n') (by decide)) rest
  rw [← htake]
  rfl

theorem readSlash_eq {cls : SegmentClass} {extent : Nat}
    (h : Stands source cursor.position before rest)
    (hc : Segment.cutSlash rest = (cls, extent)) :
    readSlash source cursor = .ok (cls, cursor.behind (rest.take extent)) := by
  rw [readSlash, h.follows (by decide), h.follows (by decide)]
  unfold Segment.cutSlash at hc
  split at hc
  · rename_i rest
    cases hc
    rw [Nat.add_comm, List.take_succ_cons, take_length_takeWhile, behind_cons]
    have hslash : cursor.ahead 1 = cursor.behind ['/'] := rfl
    rw [hslash, skipLine_eq (stands_behind ['/'] h)]
    rfl
  · rename_i rest
    have hstar : cursor.ahead 1 = cursor.behind ['*'] := rfl
    have hskip := skipComment_eq Nat.one_pos (stands_behind ['*'] h)
    rw [hstar, hskip]
    split at hc
    · rename_i extent hextent
      cases hc
      rw [Nat.add_comm, List.take_succ_cons, behind_cons cursor '*' (rest.take extent), hextent]
      rfl
    · rename_i hextent
      cases hc
      rw [Nat.add_comm, List.take_succ_cons, List.take_length, behind_cons cursor '*' rest, hextent]
      rfl
  · rename_i hslash hstar
    cases hc
    have hnone : ∀ {x : Char}, (∀ after, rest = x :: after → False) →
        rest.head?.any (· == x) = false := by
      intro x hx
      cases rest with
      | nil => rfl
      | cons c rest => exact beq_eq_false_iff_ne.2 fun he => hx _ (congrArg (· :: rest) he)
    rw [hnone hslash, hnone hstar]
    rfl

/-! ## Strings -/

theorem seekQuote_octets (source : String) (cursor : Cursor) :
    seekQuote source cursor =
      let seen := (bytesFrom source cursor.position).takeWhile (Char.ofUInt8 · != '"')
      .ok { position := cursor.position + seen.length
            line := cursor.line + seen.countP (Char.ofUInt8 · == '\n') } := by
  induction hbytes : bytesFrom source cursor.position generalizing cursor with
  | nil =>
    have hend : source.utf8ByteSize ≤ cursor.position := by
      rw [bytesFrom, List.drop_eq_nil_iff] at hbytes
      exact hbytes
    rw [seekQuote, dif_neg fun hgo => Nat.not_le.2 hgo.1 hend]
    rfl
  | cons b rest ih =>
    have hbyte := byte?_of_bytesFrom hbytes
    have hpeek := peek_of_byte? hbyte
    have hfetch : fetch source cursor.position = .ok (Char.ofUInt8 b) := by rw [fetch, hbyte]
    rw [seekQuote, hpeek, hfetch, List.takeWhile_cons]
    by_cases hb : Char.ofUInt8 b = '"'
    · rw [dif_neg fun hgo => hgo.2 hb, hb]
      rfl
    · rw [dif_pos ⟨lt_of_byte? hbyte, hb⟩, if_pos (bne_iff_ne.2 hb)]
      refine (ih (cursor.past (Char.ofUInt8 b)) (bytesFrom_cons hbytes)).trans ?_
      simp only [past, beq_iff_eq, List.length_cons, List.countP_cons]
      split <;> simp only [Nat.add_assoc, Nat.add_comm 1, Nat.add_zero]

theorem seekQuote_eq (h : Stands source cursor.position before rest) :
    seekQuote source cursor = .ok (cursor.behind (rest.takeWhile (· != '"'))) := by
  have htake := takeWhile_octets (uniform_bne (x := '"') (by decide)) rest
  have hcount := count_octets (x := '\n') (by decide) (rest.takeWhile (· != '"'))
  rw [seekQuote_octets, h.bytesFrom, behind, ← hcount, ← htake]
  rfl

theorem readString_eq {start : Nat} {cls : SegmentClass} {extent : Nat}
    (h : Stands source start before ('"' :: rest)) (hcursor : cursor.position = start + 1)
    (hc : Segment.cutString rest = (cls, extent)) :
    readString source start cursor = .ok (cls, cursor.behind (rest.take extent)) := by
  have hnext : Stands source cursor.position (before ++ ['"']) rest :=
    hcursor ▸ h.next (by decide)
  rw [readString, seekQuote_eq hnext]
  by_cases hq : '"' ∈ rest
  · obtain ⟨body, after, rfl, hbody⟩ := List.eq_append_cons_of_mem hq
    have hall : ∀ c ∈ body, (c != '"') = true := fun x hx => bne_iff_ne.2 fun he => hbody (he ▸ hx)
    rw [Segment.cutString_closed hall] at hc
    cases hc
    have hquote : Stands source (cursor.behind body).position (before ++ ['"'] ++ body)
        ('"' :: after) := stands_behind _ hnext
    have hend : ¬source.utf8ByteSize ≤ (cursor.behind body).position :=
      hquote.atEnd_iff.not.2 (List.cons_ne_nil _ _)
    have hslice : slice source (start + 1) (((cursor.behind body).ahead 1).position - 1) =
        .ok (String.ofList body) := hcursor ▸ hnext.slice _ _
    have htake : (body ++ '"' :: after).takeWhile (· != '"') = body := takeWhile_append hall rfl
    rw [htake]
    simp only [bind, Except.bind]
    rw [if_neg hend, hquote.fetch_ascii (by decide), hslice, List.append_cons,
      List.take_left' (by simp), behind_append]
    rfl
  · rw [Segment.cutString_open hq] at hc
    cases hc
    have hall : rest.takeWhile (· != '"') = rest :=
      List.takeWhile_eq_self_iff.2 fun x hx => bne_iff_ne.2 fun he => hq (he ▸ hx)
    rw [hall, List.take_length]
    exact if_pos ((stands_behind _ (by rwa [List.append_nil])).atEnd_iff.2 rfl)

/-! ## Numbers, words and marks -/

/-- A text behind its first character, which is one byte, is sliced with it. -/
theorem slice_from (text after : List Char) {start : Nat} {c : Char}
    (h : Stands source start before (c :: (text ++ after)))
    (hc : IsAscii c) (hcursor : cursor.position = start + 1) :
    slice source start (cursor.position + (octets text).length) =
      .ok (String.ofList (c :: text)) := by
  have hlength : (octets (c :: text)).length = 1 + (octets text).length := by
    rw [octets_cons, utf8EncodeChar_of_isAscii hc, List.length_append]
    rfl
  rw [hcursor, Nat.add_assoc, ← hlength]
  exact h.slice (c :: text) after

/-- No line ends in a text without line ends. -/
theorem behind_of_not_mem (h : '\n' ∉ text) :
    cursor.behind text = { cursor with position := cursor.position + (octets text).length } := by
  rw [behind, List.count_eq_zero.2 h]
  rfl

theorem numberOf_append (after : List Char) (hw : ∀ c ∈ text, c.isDigit = true)
    (ha : after.head?.any Char.isDigit = false) :
    numberOf (String.ofList (text ++ after)) = Number.ofDigits text (after.drop 1) := by
  simp only [numberOf, String.toList_ofList, takeWhile_append hw ha, List.drop_left]

theorem newline_not_mem {p : Char → Bool} (hp : p '\n' = false) (h : ∀ c ∈ text, p c = true) :
    '\n' ∉ text :=
  fun hm => Bool.false_ne_true (hp.symm.trans (h _ hm))

section

variable {start : Nat} {c d : Char} {whole fraction : List Char}

theorem readNumber_whole (h : Stands source start before (c :: (whole ++ after)))
    (hcursor : cursor.position = start + 1) (hw : ∀ x ∈ c :: whole, x.isDigit = true)
    (ha : after.head?.any Char.isDigit = false) (hf : (sight after).2 = false) :
    readNumber source start cursor =
      .ok (.token .number (some (.number (Number.ofDigits (c :: whole) []))),
        cursor.behind whole) := by
  have hw' := (List.forall_mem_cons.1 hw).2
  have hascii : IsAscii c := isAscii_of_isDigit (hw c List.mem_cons_self)
  have hnext : Stands source cursor.position (before ++ [c]) (whole ++ after) :=
    hcursor ▸ h.next hascii
  have hread := hnext.readWhile uniform_isDigit (by decide)
  rw [takeWhile_append hw' ha] at hread
  have hpoint := (hnext.ahead _).peek_next (x := '.') (by decide) (by decide) uniform_isDigit
    (by decide)
  have hno : ¬∃ tail, after = '.' :: tail ∧ tail.head?.any Char.isDigit = true := by
    rintro ⟨tail, rfl, htail⟩
    rw [sight, htail] at hf
    cases hf
  have hvalue := numberOf_append [] hw rfl
  rw [List.append_nil, List.drop_nil] at hvalue
  rw [readNumber, hread]
  simp only [bind, Except.bind, pure, Except.pure, if_neg (hpoint.not.2 hno)]
  rw [slice_from _ _ h hascii hcursor, behind_of_not_mem (newline_not_mem rfl hw')]
  simp only [hvalue]

theorem readNumber_fraction
    (h : Stands source start before (c :: ((whole ++ '.' :: d :: fraction) ++ after)))
    (hcursor : cursor.position = start + 1) (hw : ∀ x ∈ c :: whole, x.isDigit = true)
    (hf : ∀ x ∈ d :: fraction, x.isDigit = true) (ha : after.head?.any Char.isDigit = false) :
    readNumber source start cursor =
      .ok (.token .number (some (.number (Number.ofDigits (c :: whole) (d :: fraction)))),
        cursor.behind (whole ++ '.' :: d :: fraction)) := by
  have hw' := (List.forall_mem_cons.1 hw).2
  have hascii : IsAscii c := isAscii_of_isDigit (hw c List.mem_cons_self)
  have hnext : Stands source cursor.position (before ++ [c])
      (whole ++ '.' :: (d :: fraction ++ after)) := by
    have htail := h.next hascii
    rw [List.append_assoc] at htail
    exact hcursor ▸ htail
  have hread := hnext.readWhile uniform_isDigit (by decide)
  rw [takeWhile_append hw' rfl] at hread
  have hpoint := (hnext.ahead _).peek_next (x := '.') (by decide) (by decide) uniform_isDigit
    (by decide)
  have hyes : ∃ tail, '.' :: (d :: fraction ++ after) = '.' :: tail ∧
      tail.head?.any Char.isDigit = true := ⟨_, rfl, hf _ List.mem_cons_self⟩
  have hmore := ((hnext.ahead _).next (c := '.') (by decide)).readWhile uniform_isDigit (by decide)
  rw [takeWhile_append hf ha] at hmore
  have hstop : cursor.position + (octets whole).length + 1 + (octets (d :: fraction)).length =
      cursor.position + (octets (whole ++ '.' :: d :: fraction)).length := by
    rw [octets_append, octets_cons '.', List.length_append, List.length_append, Nat.add_assoc,
      Nat.add_assoc]
    rfl
  have hline : '\n' ∉ whole ++ '.' :: d :: fraction :=
    List.not_mem_append (newline_not_mem rfl hw')
      (List.not_mem_cons_of_ne_of_not_mem (by decide) (newline_not_mem rfl hf))
  have hvalue := numberOf_append ('.' :: d :: fraction) hw rfl
  rw [readNumber, hread]
  simp only [bind, Except.bind, pure, Except.pure, if_pos (hpoint.2 hyes),
    (hnext.ahead _).fetch_ascii (show IsAscii '.' by decide), hmore]
  rw [hstop, slice_from _ _ h hascii hcursor, behind_of_not_mem hline]
  simp only [← List.cons_append, hvalue]
  rfl

/-- A number is read. -/
theorem readNumber_eq {rest : List Char} {extent : Nat} {cls : SegmentClass}
    (h : Stands source start before (c :: rest)) (hdigit : c.isDigit = true)
    (hcursor : cursor.position = start + 1) (hc : Segment.cutNumber c rest = (cls, extent)) :
    readNumber source start cursor = .ok (cls, cursor.behind (rest.take extent)) := by
  rcases Segment.digits_cases rest with ⟨whole, after, rfl, hw, ha, hf⟩ |
    ⟨whole, d, fraction, after, rfl, hw, hf, ha⟩
  · rw [Segment.cutNumber_whole hw ha hf] at hc
    cases hc
    rw [readNumber_whole h hcursor (List.forall_mem_cons.2 ⟨hdigit, hw⟩) ha hf, List.take_left]
  · rw [Segment.cutNumber_fraction hw hf ha] at hc
    cases hc
    have htext : whole ++ '.' :: (d :: fraction ++ after) =
        (whole ++ '.' :: d :: fraction) ++ after := by simp
    rw [htext] at h
    rw [readNumber_fraction h hcursor (List.forall_mem_cons.2 ⟨hdigit, hw⟩) hf ha, htext,
      ← Segment.length_fraction, List.take_left]

end

/-- A word is read. -/
theorem readWord_eq {lexicon : Lexicon} {start extent : Nat} {c : Char} {cls : SegmentClass}
    (h : Stands source start before (c :: rest)) (hword : isWordStart c = true)
    (hcursor : cursor.position = start + 1)
    (hc : Segment.cutWord lexicon c rest = (cls, extent)) :
    readWord lexicon source start cursor = .ok (cls, cursor.behind (rest.take extent)) := by
  have hascii : IsAscii c := isAscii_of_isWordStart hword
  have hnext : Stands source cursor.position (before ++ [c]) rest := hcursor ▸ h.next hascii
  cases hc
  have hread := hnext.readWhile uniform_isWordChar (by decide)
  have hline : '\n' ∉ rest.takeWhile isWordChar :=
    newline_not_mem (by decide) fun _ hm => List.mem_takeWhile_imp hm
  rw [readWord, hread]
  simp only [bind, Except.bind]
  rw [slice_from _ (rest.dropWhile isWordChar) (by rwa [List.takeWhile_append_dropWhile])
    hascii hcursor, take_length_takeWhile, behind_of_not_mem hline]
  rfl

/-- A character of no other segment is read, all its bytes. -/
theorem readMark_eq {lexicon : Lexicon} {extent : Nat} {c : Char} {cls : SegmentClass}
    (h : Stands source cursor.position before (c :: rest)) (hline : c ≠ '\n')
    (hc : Segment.cutMark lexicon c = (cls, extent)) :
    readMark lexicon source cursor = .ok (cls, cursor.behind (c :: rest.take extent)) := by
  have hextent : extent = 0 := by
    unfold Segment.cutMark at hc
    split at hc <;> cases hc <;> rfl
  have hslice : slice source cursor.position source.utf8ByteSize =
      .ok (String.ofList (c :: rest)) :=
    h.utf8ByteSize ▸ Stands.slice _ [] (by rwa [List.append_nil])
  have hbehind : cursor.ahead c.utf8Size = cursor.behind [c] := by
    rw [behind_of_not_mem (List.mem_singleton.not.2 hline.symm), octets_cons, octets,
      List.flatMap_nil, List.append_nil, String.length_utf8EncodeChar]
    rfl
  rw [readMark, hslice]
  simp only [bind, Except.bind, String.toList_ofList]
  rw [List.head?_cons, Option.getD_some, hc, hbehind, hextent]
  rfl

/-! ## One segment -/

theorem readFrom_of_not_mem {lexicon : Lexicon} {c : Char} (h : c ∉ ruledCharacters) :
    readFrom lexicon source cursor c =
      if c.isDigit then readNumber source cursor.position (cursor.ahead 1)
      else if isWordStart c then readWord lexicon source cursor.position (cursor.ahead 1)
      else readMark lexicon source cursor := by
  unfold readFrom
  split
  case h_11 => rfl
  all_goals exact absurd (by decide) h

/-- A byte is dispatched as its character is. -/
theorem readFrom_octet {lexicon : Lexicon} {c : Char} {b : UInt8} (hc : c ∉ ruledCharacters)
    (hb : b ∈ String.utf8EncodeChar c) :
    readFrom lexicon source cursor (Char.ofUInt8 b) = readFrom lexicon source cursor c := by
  have hb' : Char.ofUInt8 b ∉ ruledCharacters := by
    by_cases hascii : IsAscii c
    · rw [utf8EncodeChar_of_isAscii hascii, List.mem_singleton] at hb
      rwa [hb, ofUInt8_toUInt8 hascii]
    · exact fun hm => not_isAscii_of_mem hascii hb (isAscii_of_ruled hm)
  rw [readFrom_of_not_mem hc, readFrom_of_not_mem hb', uniform_isDigit.octet hb,
    uniform_isWordStart.octet hb]

/-- The segment that is cut from the text is read from its bytes. -/
theorem read_eq {lexicon : Lexicon} {c : Char} {cls : SegmentClass} {extent : Nat}
    (h : Stands source cursor.position before (c :: rest))
    (hc : Segment.cut lexicon c rest = (cls, extent)) :
    read lexicon source cursor = .ok (cls, cursor.behind (c :: rest.take extent)) := by
  by_cases hruled : c ∈ ruledCharacters
  · have hascii := isAscii_of_ruled hruled
    have hnext := h.next hascii
    rw [read, h.fetch_ascii hascii, behind_cons]
    simp only [ruledCharacters, List.mem_cons, List.not_mem_nil, or_false] at hruled
    rcases hruled with rfl | rfl | rfl | rfl | rfl | rfl | rfl | rfl | rfl | rfl
    · exact congrArg Except.ok (readComparison_eq hnext hc)
    · exact congrArg Except.ok (readComparison_eq hnext hc)
    · exact congrArg Except.ok (readComparison_eq hnext hc)
    · exact congrArg Except.ok (readComparison_eq hnext hc)
    · exact readSlash_eq hnext hc
    · exact readString_eq h rfl hc
    all_goals
      cases hc
      rfl
  · obtain ⟨b, hb, hfetch⟩ := h.fetch
    have hline : c ≠ '\n' := fun he => hruled (he ▸ by decide)
    rw [Segment.cut_of_not_mem hruled] at hc
    have hread : read lexicon source cursor = readFrom lexicon source cursor (Char.ofUInt8 b) := by
      rw [read, hfetch]
      rfl
    have hbehind : IsAscii c → ∀ piece, (cursor.ahead 1).behind piece = cursor.behind (c :: piece) :=
      fun hascii piece => by rw [behind_cons, ahead_one hascii hline]
    rw [hread, readFrom_octet hruled hb, readFrom_of_not_mem hruled]
    by_cases hdigit : c.isDigit = true
    · have hascii : IsAscii c := isAscii_of_isDigit hdigit
      rw [if_pos hdigit] at hc ⊢
      rw [readNumber_eq h hdigit rfl hc, hbehind hascii]
    rw [if_neg hdigit] at hc ⊢
    by_cases hword : isWordStart c = true
    · have hascii : IsAscii c := isAscii_of_isWordStart hword
      rw [if_pos hword] at hc ⊢
      rw [readWord_eq h hword rfl hc, hbehind hascii]
    · rw [if_neg hword] at hc ⊢
      exact readMark_eq h hline hc

end TreeScript.Cursor
