import TreeScript.Lexicon
import TreeScript.Diagnostic

/-!
# Segments of a source text

A source text is cut from left to right into segments that tile it: each segment
is blank, one token, or one fault.  The class and the extent of a segment depend
only on the text from its first character on.

* `Segment` — a piece of text and what it is
* `Segment.cut` — the lexical grammar: class and extent of the first segment
* `segments` — the tiling of a text
* `items` — tokens and faults with their lines, closed by the end mark
* `scan` — the items of a source
-/

namespace TreeScript

/-! ## The lexical grammar -/

/-- What a segment is: skipped text, one token, or one fault. -/
inductive SegmentClass where
  | blank
  | token (kind : TokenKind) (literal : Option Literal)
  | fault (fault : LexFault)
  deriving Repr

/-- A piece of source text and what it is. -/
structure Segment where
  text : List Char
  cls : SegmentClass
  deriving Repr

/-- The characters that start an identifier-shaped word: ASCII letters and `_`. -/
def isWordStart (c : Char) : Bool :=
  c.isAlpha || c == '_'

/-- The characters that continue an identifier-shaped word. -/
def isWordChar (c : Char) : Bool :=
  c.isAlphanum || c == '_'

/-- The number of characters up to the end of a block comment of which `depth`
openers are still to be closed, if it is closed at all.  Openers and closers are
read from left to right and do not overlap. -/
def commentExtent (depth : Nat) : List Char → Option Nat
  | '/' :: '*' :: rest => (commentExtent (depth + 1) rest).map (· + 2)
  | '*' :: '/' :: rest =>
    if depth ≤ 1 then some 2 else (commentExtent (depth - 1) rest).map (· + 2)
  | _ :: rest => (commentExtent depth rest).map (· + 1)
  | [] => none

namespace Segment

/-- The mark `alone`, or `withEqual` when an equals sign follows. -/
def cutComparison (withEqual alone : TokenKind) (rest : List Char) : SegmentClass × Nat :=
  if rest.head? = some '=' then (.token withEqual none, 1) else (.token alone none, 0)

/-- After a slash: a line comment up to the end of the line, a block comment, or a
slash of its own. -/
def cutSlash : List Char → SegmentClass × Nat
  | '/' :: rest => (.blank, 1 + (rest.takeWhile (· != '\n')).length)
  | '*' :: rest =>
    match commentExtent 1 rest with
    | some extent => (.blank, 1 + extent)
    | none => (.fault .unterminatedComment, 1 + rest.length)
  | _ => (.token .slash none, 0)

/-- After a quote: a string up to the next quote. -/
def cutString (rest : List Char) : SegmentClass × Nat :=
  let body := rest.takeWhile (· != '"')
  if body.length < rest.length then
    (.token .string (some (.string (String.ofList body))), body.length + 1)
  else (.fault .unterminatedString, rest.length)

/-- From a digit on: digits, then a point and digits if a digit follows the point. -/
def cutNumber (first : Char) (rest : List Char) : SegmentClass × Nat :=
  let whole := rest.takeWhile Char.isDigit
  let fraction :=
    match rest.drop whole.length with
    | '.' :: tail => tail.takeWhile Char.isDigit
    | _ => []
  let extent := whole.length + if fraction = [] then 0 else 1 + fraction.length
  (.token .number (some (.number (Number.ofDigits (first :: whole) fraction))), extent)

/-- From a letter or `_` on: the longest identifier-shaped word. -/
def cutWord (lexicon : Lexicon) (first : Char) (rest : List Char) : SegmentClass × Nat :=
  let tail := rest.takeWhile isWordChar
  (.token (lexicon.wordKind (String.ofList (first :: tail))) none, tail.length)

/-- Any other character is one mark, or one fault. -/
def cutMark (lexicon : Lexicon) (c : Char) : SegmentClass × Nat :=
  match lexicon.mark? c with
  | some kind => (.token kind none, 0)
  | none => (.fault (.unexpectedCharacter c), 0)

/-- The lexical grammar: the class of the segment that starts with `c`, and how
many of the characters that follow belong to it. -/
def cut (lexicon : Lexicon) (c : Char) (rest : List Char) : SegmentClass × Nat :=
  match c with
  | '!' => cutComparison .bangEqual .bang rest
  | '=' => cutComparison .equalEqual .equal rest
  | '<' => cutComparison .lessEqual .less rest
  | '>' => cutComparison .greaterEqual .greater rest
  | ' ' | '\r' | '\t' | '\n' => (.blank, 0)
  | '/' => cutSlash rest
  | '"' => cutString rest
  | c =>
    if c.isDigit then cutNumber c rest
    else if isWordStart c then cutWord lexicon c rest
    else cutMark lexicon c

end Segment

/-! ## Tiling a text -/

/-- The segments of a text, from left to right. -/
def segments (lexicon : Lexicon) : List Char → List Segment
  | [] => []
  | c :: rest =>
    let (cls, extent) := Segment.cut lexicon c rest
    { text := c :: rest.take extent, cls } :: segments lexicon (rest.drop extent)
termination_by text => text.length
decreasing_by
  simp only [List.length_drop, List.length_cons]
  omega

/-! ## Items -/

/-- What a segment contributes to the token sequence, given the line on which it
ends. -/
def Segment.item? (segment : Segment) (line : Nat) : Option (Except Diagnostic Token) :=
  match segment.cls with
  | .blank => none
  | .token kind literal =>
    some (.ok { kind, lexeme := String.ofList segment.text, literal, line })
  | .fault fault => some (.error (.lex fault line))

/-- The tokens and faults of a sequence of segments that starts on `line`, closed
by the end mark.  Each stands on the line on which its segment ends. -/
def items (line : Nat) : List Segment → List (Except Diagnostic Token)
  | [] => [.ok (Token.finish line)]
  | segment :: rest =>
    let last := line + segment.text.count '\n'
    (segment.item? last).toList ++ items last rest

/-- The tokens and faults of a source, in order. -/
def scan (lexicon : Lexicon) (source : String) : List (Except Diagnostic Token) :=
  items 1 (segments lexicon source.toList)

/-- The tokens among the items of a source. -/
def tokensOf (found : List (Except Diagnostic Token)) : List Token :=
  found.filterMap Except.toOption

/-- The diagnostics among the items of a source. -/
def diagnosticsOf (found : List (Except Diagnostic Token)) : List Diagnostic :=
  found.filterMap (fun item =>
    match item with
    | .ok _ => none
    | .error diagnostic => some diagnostic)

end TreeScript
