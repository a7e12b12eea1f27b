import TreeScript.Proofs.Scanning.Octets

/-!
# Reading a source byte by byte

A source can be scanned without decoding it: a cursor counts bytes and lines, looks at most
two bytes ahead, and takes slices where a text is needed.  Each look and each slice may go
wrong; none does.

* `Misread` — what can go wrong
* `peek`, `fetch`, `slice` — what is looked at and what is taken
* `Cursor` — a position and a line
* `Cursor.read` — reads one segment
* `Stands.slice`, `Stands.readWhile` — between characters a slice is the text there, and
  reading on stops between characters again
* `Cursor.behind` — a cursor behind a text
-/

namespace TreeScript

/-- What can go wrong when a source is read byte by byte: a byte is taken beyond its end, a
slice starts or ends inside a character, or reading goes on for too long. -/
inductive Misread where
  | beyondEnd (position : Nat)
  | insideCharacter (start stop : Nat)
  | outOfFuel
  deriving DecidableEq, Repr

/-- The byte at a position as the character of its code, or the character 0 past the end. -/
def peek (source : String) (position : Nat) : Char :=
  Char.ofUInt8 ((byte? source position).getD 0)

/-- The byte at a position as the character of its code. -/
def fetch (source : String) (position : Nat) : Except Misread Char :=
  match byte? source position with
  | some b => .ok (Char.ofUInt8 b)
  | none => .error (.beyondEnd position)

/-- Whether there is a byte at a position and it is a given character. -/
def follows (source : String) (c : Char) (position : Nat) : Bool :=
  (byte? source position).any (Char.ofUInt8 · == c)

/-- The text between two positions, both of which must stand between characters. -/
def slice (source : String) (start stop : Nat) : Except Misread String :=
  if h : start ≤ stop ∧ String.Pos.Raw.IsValid source ⟨start⟩ ∧ String.Pos.Raw.IsValid source ⟨stop⟩
  then .ok (String.extract (s := source) ⟨⟨start⟩, h.2.1⟩ ⟨⟨stop⟩, h.2.2⟩)
  else .error (.insideCharacter start stop)

/-- The position of the first byte from a position on that is not of a class. -/
def readWhile (source : String) (p : Char → Bool) (position : Nat) : Except Misread Nat :=
  if p (peek source position) then
    match h : byte? source position with
    | some _ => readWhile source p (position + 1)
    | none => .error (.beyondEnd position)
  else .ok position
termination_by source.utf8ByteSize - position
decreasing_by
  have := lt_of_byte? h
  omega

/-- How far a source has been read, and the line there. -/
structure Cursor where
  position : Nat
  line : Nat
  deriving DecidableEq, Repr

namespace Cursor

/-- A cursor further on in the same line. -/
def ahead (cursor : Cursor) (count : Nat) : Cursor :=
  { cursor with position := cursor.position + count }

/-- A cursor behind one more byte. -/
def past (cursor : Cursor) (c : Char) : Cursor :=
  { position := cursor.position + 1
    line := if c = '\n' then cursor.line + 1 else cursor.line }

/-! ## Reading one segment -/

/-- A comparison, the first character of which has been read. -/
def readComparison (source : String) (withEqual alone : TokenKind) (cursor : Cursor) :
    SegmentClass × Cursor :=
  if follows source '=' cursor.position then (.token withEqual none, cursor.ahead 1)
  else (.token alone none, cursor)

/-- Reads up to the end of a block comment, of which `depth` openers have been read. -/
def skipComment (source : String) (depth : Nat) (cursor : Cursor) : SegmentClass × Cursor :=
  if depth = 0 then (.blank, cursor)
  else if _ : source.utf8ByteSize ≤ cursor.position then (.fault .unterminatedComment, cursor)
  else if peek source cursor.position = '/' ∧ peek source (cursor.position + 1) = '*' then
    skipComment source (depth + 1) (cursor.ahead 2)
  else if peek source cursor.position = '*' ∧ peek source (cursor.position + 1) = '/' then
    skipComment source (depth - 1) (cursor.ahead 2)
  else skipComment source depth (cursor.past (peek source cursor.position))
termination_by source.utf8ByteSize - cursor.position
decreasing_by
  all_goals
    simp only [ahead, past]
    omega

/-- Reads up to the end of the line. -/
def skipLine (source : String) (cursor : Cursor) : Except Misread Cursor :=
  if cursor.position ≤ source.utf8ByteSize then
    .ok (cursor.ahead
      ((bytesFrom source cursor.position).takeWhile (Char.ofUInt8 · != '\n')).length)
  else .error (.beyondEnd cursor.position)

/-- What a slash starts, which has been read. -/
def readSlash (source : String) (cursor : Cursor) : Except Misread (SegmentClass × Cursor) :=
  if follows source '/' cursor.position then do
    let stop ← skipLine source (cursor.ahead 1)
    return (.blank, stop)
  else if follows source '*' cursor.position then
    return skipComment source 1 (cursor.ahead 1)
  else return (.token .slash none, cursor)

/-- Reads up to the next quote. -/
def seekQuote (source : String) (cursor : Cursor) : Except Misread Cursor :=
  if _ : cursor.position < source.utf8ByteSize ∧ peek source cursor.position ≠ '"' then do
    let c ← fetch source cursor.position
    seekQuote source (cursor.past c)
  else .ok cursor
termination_by source.utf8ByteSize - cursor.position
decreasing_by
  simp only [past]
  omega

/-- A string from `start` on, the opening quote of which has been read. -/
def readString (source : String) (start : Nat) (cursor : Cursor) :
    Except Misread (SegmentClass × Cursor) := do
  let stop ← seekQuote source cursor
  if source.utf8ByteSize ≤ stop.position then return (.fault .unterminatedString, stop)
  let _ ← fetch source stop.position
  let next := stop.ahead 1
  let body ← slice source (start + 1) (next.position - 1)
  return (.token .string (some (.string body)), next)

/-- The number that a text of digits denotes, which may have a point. -/
def numberOf (text : String) : Float :=
  let whole := text.toList.takeWhile Char.isDigit
  Number.ofDigits whole ((text.toList.drop whole.length).drop 1)

/-- A number from `start` on, the first digit of which has been read. -/
def readNumber (source : String) (start : Nat) (cursor : Cursor) :
    Except Misread (SegmentClass × Cursor) := do
  let whole ← readWhile source Char.isDigit cursor.position
  let stop ←
    if peek source whole = '.' ∧ (peek source (whole + 1)).isDigit then do
      let _ ← fetch source whole
      readWhile source Char.isDigit (whole + 1)
    else pure whole
  let text ← slice source start stop
  return (.token .number (some (.number (numberOf text))), { cursor with position := stop })

/-- A word from `start` on, the first letter of which has been read. -/
def readWord (lexicon : Lexicon) (source : String) (start : Nat) (cursor : Cursor) :
    Except Misread (SegmentClass × Cursor) := do
  let stop ← readWhile source isWordChar cursor.position
  let text ← slice source start stop
  return (.token (lexicon.wordKind text) none, { cursor with position := stop })

/-- Any other character, the bytes of which are read once more as a whole. -/
def readMark (lexicon : Lexicon) (source : String) (cursor : Cursor) :
    Except Misread (SegmentClass × Cursor) := do
  let text ← slice source cursor.position source.utf8ByteSize
  let c := text.toList.head?.getD '\x00'
  return ((Segment.cutMark lexicon c).1, cursor.ahead c.utf8Size)

/-- Reads the segment that starts at a cursor with a byte. -/
def readFrom (lexicon : Lexicon) (source : String) (cursor : Cursor) (first : Char) :
    Except Misread (SegmentClass × Cursor) :=
  let next := cursor.ahead 1
  match first with
  | '!' => .ok (readComparison source .bangEqual .bang next)
  | '=' => .ok (readComparison source .equalEqual .equal next)
  | '<' => .ok (readComparison source .lessEqual .less next)
  | '>' => .ok (readComparison source .greaterEqual .greater next)
  | ' ' | '\r' | '\t' => .ok (.blank, next)
  | '\n' => .ok (.blank, { next with line := next.line + 1 })
  | '/' => readSlash source next
  | '"' => readString source cursor.position next
  | first =>
    if first.isDigit then readNumber source cursor.position next
    else if isWordStart first then readWord lexicon source cursor.position next
    else readMark lexicon source cursor

/-- Reads one segment. -/
def read (lexicon : Lexicon) (source : String) (cursor : Cursor) :
    Except Misread (SegmentClass × Cursor) := do
  readFrom lexicon source cursor (← fetch source cursor.position)

end Cursor

/-! ## What is seen -/

section

variable {source : String} {position : Nat} {before text after : List Char}

theorem byte?_eq_head? (source : String) (position : Nat) :
    byte? source position = (bytesFrom source position).head? := by
  rw [bytesFrom, List.head?_drop, Array.getElem?_toList, byte?]

theorem byte?_of_bytesFrom {b : UInt8} {rest : List UInt8}
    (h : bytesFrom source position = b :: rest) : byte? source position = some b := by
  rw [byte?_eq_head?, h]
  rfl

theorem peek_of_byte? {b : UInt8} (h : byte? source position = some b) :
    peek source position = Char.ofUInt8 b := by
  rw [peek, h]
  rfl

/-- Past the end a class sees the character 0. -/
theorem peek_eq {p : Char → Bool} (h0 : p '\x00' = false) (source : String) (position : Nat) :
    p (peek source position) = (bytesFrom source position).head?.any (p ∘ Char.ofUInt8) := by
  rw [peek, byte?_eq_head?]
  cases bytesFrom source position with
  | nil => exact h0
  | cons b rest => rfl

theorem Stands.peek (h : Stands source position before after) {p : Char → Bool} (hp : Uniform p)
    (h0 : p '\x00' = false) : p (peek source position) = after.head?.any p := by
  rw [peek_eq h0, h.bytesFrom, head?_octets hp]

theorem Stands.follows (h : Stands source position before after) {x : Char} (hx : IsAscii x) :
    follows source x position = after.head?.any (· == x) := by
  rw [TreeScript.follows, byte?_eq_head?, h.bytesFrom]
  exact head?_octets (uniform_beq hx) after

theorem Stands.fetch {c : Char} (h : Stands source position before (c :: after)) :
    ∃ b ∈ String.utf8EncodeChar c, fetch source position = .ok (Char.ofUInt8 b) := by
  obtain ⟨b, tail, hb⟩ := List.exists_cons_of_ne_nil (String.utf8EncodeChar_ne_nil (c := c))
  refine ⟨b, hb ▸ List.mem_cons_self, ?_⟩
  rw [TreeScript.fetch, byte?_eq_head?, h.bytesFrom, octets_cons, hb]
  rfl

theorem Stands.fetch_ascii {c : Char} (h : Stands source position before (c :: after))
    (hc : IsAscii c) : TreeScript.fetch source position = .ok c := by
  obtain ⟨b, hb, hfetch⟩ := h.fetch
  rw [utf8EncodeChar_of_isAscii hc, List.mem_singleton] at hb
  rw [hfetch, hb, ofUInt8_toUInt8 hc]

theorem Stands.next {c : Char} (h : Stands source position before (c :: after))
    (hc : IsAscii c) : Stands source (position + 1) (before ++ [c]) after := by
  have hahead := h.ahead [c]
  rwa [octets_cons, utf8EncodeChar_of_isAscii hc] at hahead

theorem Stands.atEnd_iff (h : Stands source position before after) :
    source.utf8ByteSize ≤ position ↔ after = [] := by
  rw [h.utf8ByteSize]
  cases after with
  | nil => exact iff_of_true (Nat.le_refl _) rfl
  | cons c rest =>
    have hlead := List.length_pos_iff.2 (String.utf8EncodeChar_ne_nil (c := c))
    rw [octets_cons, List.length_append]
    exact iff_of_false (by omega) (List.cons_ne_nil _ _)

theorem Stands.peek_eq_iff (h : Stands source position before after) {x : Char} (hx : IsAscii x)
    (hx0 : x ≠ '\x00') : TreeScript.peek source position = x ↔ after.head? = some x := by
  have hpeek := h.peek (uniform_beq hx) (beq_eq_false_iff_ne.2 hx0.symm)
  rw [← beq_iff_eq, hpeek]
  cases after <;> simp

/-- A character is seen, and one of a class behind it. -/
theorem Stands.peek_next (h : Stands source position before after) {x : Char} (hx : IsAscii x)
    (hx0 : x ≠ '\x00') {p : Char → Bool} (hp : Uniform p) (h0 : p '\x00' = false) :
    (TreeScript.peek source position = x ∧ p (TreeScript.peek source (position + 1)) = true) ↔
      ∃ rest, after = x :: rest ∧ rest.head?.any p = true := by
  rw [h.peek_eq_iff hx hx0, List.head?_eq_some_iff, ← exists_and_right]
  refine exists_congr fun rest => and_congr_right ?_
  rintro rfl
  exact Bool.eq_iff_iff.1 ((h.next hx).peek hp h0)

/-- Two characters are seen in a row. -/
theorem Stands.peek_pair (h : Stands source position before after) {a b : Char}
    (ha : IsAscii a) (ha0 : a ≠ '\x00') (hb : IsAscii b) (hb0 : b ≠ '\x00') :
    (TreeScript.peek source position = a ∧ TreeScript.peek source (position + 1) = b) ↔
      [a, b] <+: after := by
  have hnext := h.peek_next ha ha0 (uniform_beq hb) (beq_eq_false_iff_ne.2 hb0.symm)
  rw [beq_iff_eq] at hnext
  rw [hnext]
  constructor
  · rintro ⟨rest, rfl, hrest⟩
    cases rest with
    | nil => cases hrest
    | cons c rest => exact pair_prefix_iff.2 ⟨rfl, congrArg some (beq_iff_eq.1 hrest)⟩
  · rintro ⟨tail, rfl⟩
    exact ⟨b :: tail, rfl, beq_self_eq_true b⟩

theorem Stands.peek_opener (h : Stands source position before after) :
    (TreeScript.peek source position = '/' ∧ TreeScript.peek source (position + 1) = '*') ↔
      ['/', '*'] <+: after :=
  h.peek_pair (by decide) (by decide) (by decide) (by decide)

theorem Stands.peek_closer (h : Stands source position before after) :
    (TreeScript.peek source position = '*' ∧ TreeScript.peek source (position + 1) = '/') ↔
      ['*', '/'] <+: after :=
  h.peek_pair (by decide) (by decide) (by decide) (by decide)

/-- A slice between characters is the text there. -/
theorem Stands.slice (text after : List Char) (h : Stands source position before (text ++ after)) :
    slice source position (position + (octets text).length) = .ok (String.ofList text) := by
  have hstart : String.Pos.Raw.IsValid source ⟨position⟩ := by
    refine String.Pos.Raw.isValid_iff_exists_append.2
      ⟨String.ofList before, String.ofList (text ++ after), ?_, ?_⟩
    · rw [h.source_eq, String.ofList_append]
    · rw [String.rawEndPos, utf8ByteSize_ofList, h.position_eq]
  have hstop : String.Pos.Raw.IsValid source ⟨position + (octets text).length⟩ := by
    refine String.Pos.Raw.isValid_iff_exists_append.2
      ⟨String.ofList (before ++ text), String.ofList after, ?_, ?_⟩
    · rw [h.source_eq, ← String.ofList_append, List.append_assoc]
    · rw [String.rawEndPos, utf8ByteSize_ofList, octets_append, List.length_append, h.position_eq]
  rw [TreeScript.slice, dif_pos ⟨Nat.le_add_right _ _, hstart, hstop⟩]
  refine congrArg Except.ok (String.toByteArray_inj.1 (ByteArray.ext (Array.toList_inj.1 ?_)))
  rw [String.toByteArray_extract, ByteArray.data_extract, Array.toList_extract,
    List.extract_eq_take_drop, data_toByteArray (String.ofList text), String.toList_ofList]
  change List.take (position + (octets text).length - position)
    (TreeScript.bytesFrom source position) = _
  rw [h.bytesFrom, octets_append, Nat.add_sub_cancel_left, List.take_left]

theorem readWhile_eq {p : Char → Bool} (h0 : p '\x00' = false) (source : String) (position : Nat) :
    readWhile source p position =
      .ok (position + ((bytesFrom source position).takeWhile (p ∘ Char.ofUInt8)).length) := by
  induction hbytes : bytesFrom source position generalizing position with
  | nil =>
    rw [readWhile, peek_eq h0, hbytes]
    rfl
  | cons b rest ih =>
    have hbyte : byte? source position = some b := byte?_of_bytesFrom hbytes
    rw [readWhile, peek_eq h0, hbytes, List.takeWhile_cons]
    cases hb : (p ∘ Char.ofUInt8) b with
    | false =>
      rw [List.head?_cons, Option.any_some, hb]
      rfl
    | true =>
      rw [List.head?_cons, Option.any_some, hb, if_pos rfl, if_pos rfl, List.length_cons]
      split
      · rw [ih _ (bytesFrom_cons hbytes), Nat.add_assoc, Nat.add_comm 1]
      · rename_i hnone
        rw [hbyte] at hnone
        cases hnone

/-- Reading on stops between characters. -/
theorem Stands.readWhile (h : Stands source position before after) {p : Char → Bool}
    (hp : Uniform p) (h0 : p '\x00' = false) :
    readWhile source p position = .ok (position + (octets (after.takeWhile p)).length) := by
  rw [readWhile_eq h0, h.bytesFrom, takeWhile_octets hp]

end

namespace Cursor

variable {source : String} {cursor : Cursor} {before text after rest : List Char}

/-- A cursor behind a text. -/
def behind (cursor : Cursor) (text : List Char) : Cursor :=
  { position := cursor.position + (octets text).length
    line := cursor.line + text.count '\n' }

theorem behind_append (cursor : Cursor) (text rest : List Char) :
    cursor.behind (text ++ rest) = (cursor.behind text).behind rest := by
  simp only [behind, octets_append, List.length_append, List.count_append, Nat.add_assoc]

theorem behind_cons (cursor : Cursor) (c : Char) (rest : List Char) :
    cursor.behind (c :: rest) = (cursor.behind [c]).behind rest :=
  behind_append cursor [c] rest

theorem stands_behind (text : List Char)
    (h : Stands source cursor.position before (text ++ after)) :
    Stands source (cursor.behind text).position (before ++ text) after :=
  h.ahead text

theorem ahead_one {c : Char} (hc : IsAscii c) (hline : c ≠ '\n') :
    cursor.ahead 1 = cursor.behind [c] := by
  rw [behind, octets_cons, utf8EncodeChar_of_isAscii hc, List.count_singleton,
    if_neg (beq_iff_eq.not.2 hline)]
  rfl

theorem past_eq_behind {c : Char} (hc : IsAscii c) : cursor.past c = cursor.behind [c] := by
  rw [behind, octets_cons, utf8EncodeChar_of_isAscii hc, List.count_singleton, past]
  simp only [beq_iff_eq]
  split <;> rfl

end Cursor

end TreeScript
