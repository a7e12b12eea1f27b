import TreeScript.Lexicon

/-!
# Lexicons written as JSON

A host configures a lexicon by a JSON text: an object with the fields `keywords`
and `single_char_tokens`, or an array of up to two tables in that order.  A table
maps words or single characters to names of token kinds.  A table that is present
replaces the standard one wholesale, a missing one leaves it.

The text is read as a stream, so the first fault met decides.

* `BlobFault` — the three ways in which a text can be refused
* `Reading` — a reader that consumes characters
* `Lexicon.ofJson` — the lexicon that a text describes
-/

namespace TreeScript

/-- The ways in which a lexicon text can be refused: it is not JSON, it ends
early, or it is JSON of the wrong shape. -/
inductive BlobFault where
  | malformed
  | truncated
  | mistyped
  deriving DecidableEq, Repr

/-- A reader of JSON text: it consumes characters or stops at a fault. -/
abbrev Reading := StateT (List Char) (Except BlobFault)

namespace Reading

/-! ## Characters -/

/-- The four blank characters of JSON. -/
def isBlank (c : Char) : Bool :=
  c == ' ' || c == '\n' || c == '\t' || c == '\r'

/-- The next character, not consumed. -/
def here : Reading (Option Char) :=
  return (← get).head?

/-- The next character that is not blank, not consumed. -/
def peek : Reading (Option Char) := do
  modify (·.dropWhile isBlank)
  here

/-- Consumes one character. -/
def advance : Reading Unit :=
  modify (·.drop 1)

/-- Consumes the next character, which must exist. -/
def take : Reading Char := do
  match ← get with
  | [] => throw .truncated
  | c :: rest =>
    set rest
    return c

/-- Consumes exactly the given characters. -/
def word : List Char → Reading Unit
  | [] => return
  | c :: rest => do
    if (← take) = c then word rest else throw .malformed

/-- Consumes one given character after blanks. -/
def expect (c : Char) : Reading Unit := do
  match ← peek with
  | some d => if d = c then advance else throw .malformed
  | none => throw .truncated

/-! ## Numbers -/

/-- Consumes digits. -/
def digits : Reading (List Char) := do
  let found := (← get).takeWhile Char.isDigit
  modify (·.drop found.length)
  return found

/-- Consumes digits, at least one; `atEnd` is the fault when the text ends first. -/
def someDigits (atEnd : BlobFault) : Reading (List Char) := do
  match ← here with
  | none => throw atEnd
  | some c => if c.isDigit then digits else throw .malformed

/-- The integer part of a number: a zero that no digit follows, or digits. -/
def wholePart (atEnd : BlobFault) : Reading (List Char) := do
  let found ← someDigits atEnd
  if found.head? = some '0' ∧ found.length ≠ 1 then throw .malformed else return found

/-- The fraction of a number, if there is one. -/
def fractionPart (atEnd : BlobFault) : Reading (List Char) := do
  if (← here) = some '.' then
    advance
    someDigits atEnd
  else return []

/-- The number that digits denote. -/
def natOf (digits : List Char) : Nat :=
  digits.foldl (fun n c => 10 * n + (c.toNat - '0'.toNat)) 0

/-- The exponent of a number, 0 if there is none. -/
def exponentPart (atEnd : BlobFault) : Reading Int := do
  match ← here with
  | some 'e' | some 'E' =>
    advance
    let mark ← here
    if mark = some '+' ∨ mark = some '-' then advance
    let magnitude := natOf (← someDigits atEnd)
    return if mark = some '-' then -(magnitude : Int) else magnitude
  | _ => return 0

/-- The parts of a number: digits before and after the point, and the exponent. -/
structure NumberParts where
  whole : List Char
  fraction : List Char
  exponent : Int

/-- Consumes a number. -/
def number (atEnd : BlobFault) : Reading NumberParts := do
  if (← here) = some '-' then advance
  let whole ← wholePart atEnd
  let fraction ← fractionPart atEnd
  let exponent ← exponentPart atEnd
  return { whole, fraction, exponent }

/-- Appends a digit to a significand unless that would exceed 64 bits. -/
def appendDigit? (significand : Nat) (c : Char) : Option Nat :=
  let next := 10 * significand + (c.toNat - '0'.toNat)
  if next < powerOfTwo 64 then some next else none

/-- The 64-bit significand that the leading digits fill, and how many digits are
left over. -/
def fill (significand : Nat) : List Char → Nat × List Char
  | [] => (significand, [])
  | c :: rest =>
    match appendDigit? significand c with
    | some next => fill next rest
    | none => (significand, c :: rest)

/-- Whether the magnitude of a number stays below infinity, as judged by its
64-bit significand times a power of ten. -/
def NumberParts.inRange (parts : NumberParts) : Bool :=
  let (whole, dropped) := fill 0 parts.whole
  let (significand, ignored) := fill whole parts.fraction
  let exponent : Int :=
    dropped.length - (parts.fraction.length - ignored.length : Nat) + parts.exponent
  if exponent < 0 then true
  else if 308 < exponent then significand == 0
  else
    let power := Binary64.nearest false (powerOfTen exponent.toNat) 1
    !(Binary64.nearest false significand 1 * power).isInf

/-! ## Strings -/

/-- The value of a hexadecimal digit. -/
def hexValue? (c : Char) : Option Nat :=
  if c.isDigit then some (c.toNat - '0'.toNat)
  else if 'a' ≤ c ∧ c ≤ 'f' then some (c.toNat - 'a'.toNat + 10)
  else if 'A' ≤ c ∧ c ≤ 'F' then some (c.toNat - 'A'.toNat + 10)
  else none

/-- The value of hexadecimal digits. -/
def hexOf? (digits : List Char) : Option Nat :=
  digits.foldlM (fun n c => (hexValue? c).map (16 * n + ·)) 0

/-- Consumes four hexadecimal digits.  A text with less than four bytes left has
ended early, whatever these bytes are. -/
def hexUnit : Reading Nat := do
  let text ← get
  if (String.ofList text).utf8ByteSize < 4 then throw .truncated
  match hexOf? (text.take 4) with
  | some unit =>
    modify (·.drop 4)
    return unit
  | none => throw .malformed

/-- Whether a UTF-16 unit is the first of a pair. -/
def isLeading (unit : Nat) : Bool :=
  decide (0xD800 ≤ unit ∧ unit < 0xDC00)

/-- Whether a UTF-16 unit is the second of a pair. -/
def isTrailing (unit : Nat) : Bool :=
  decide (0xDC00 ≤ unit ∧ unit < 0xE000)

/-- The character of a numeric escape; the units of a pair must come together. -/
def unicodeEscape : Reading Char := do
  let unit ← hexUnit
  if isTrailing unit then throw .malformed
  else if isLeading unit then
    word ['\\', 'u']
    let second ← hexUnit
    if isTrailing second then
      return Char.ofNat (0x10000 + (unit - 0xD800) * 0x400 + (second - 0xDC00))
    else throw .malformed
  else return Char.ofNat unit

/-- The character of an escape with one letter. -/
def shortEscape? : Char → Option Char
  | '"' => some '"'
  | '\\' => some '\\'
  | '/' => some '/'
  | 'b' => some '\x08'
  | 'f' => some '\x0c'
  | 'n' => some '\n'
  | 'r' => some '\r'
  | 't' => some '\t'
  | _ => none

/-- The character of an escape. -/
def escape : Reading Char := do
  let c ← take
  if c = 'u' then unicodeEscape
  else
    match shortEscape? c with
    | some d => return d
    | none => throw .malformed

/-- Consumes an escape without looking at what it stands for. -/
def skipEscape : Reading Unit := do
  let c ← take
  if c = 'u' then discard hexUnit
  else if (shortEscape? c).isNone then throw .malformed

/-- Consumes a string after its opening quote.  The fuel bounds its length. -/
def stringRest : (fuel : Nat) → (found : List Char) → Reading String
  | 0, _ => throw .truncated
  | fuel + 1, found => do
    let c ← take
    if c = '"' then return String.ofList found.reverse
    else if c = '\\' then stringRest fuel ((← escape) :: found)
    else if c.toNat < 0x20 then throw .malformed
    else stringRest fuel (c :: found)

/-- Consumes a string after its opening quote. -/
def string : Reading String := do
  stringRest ((← get).length + 1) []

/-- Consumes a string that is not needed, after its opening quote. -/
def skipStringRest : (fuel : Nat) → Reading Unit
  | 0 => throw .truncated
  | fuel + 1 => do
    let c ← take
    if c = '"' then return
    else if c = '\\' then
      skipEscape
      skipStringRest fuel
    else if c.toNat < 0x20 then throw .malformed
    else skipStringRest fuel

/-! ## Values that are not needed -/

/-- What is said when a comma or the end of an array or object must follow. -/
def afterMember (close : Char) : Reading Bool := do
  match ← peek with
  | some c =>
    if c = ',' then
      advance
      return true
    else if c = close then
      advance
      return false
    else throw .malformed
  | none => throw .truncated

mutual

/-- Consumes one value of any kind, checking only that it is well-formed.  An
opening bracket costs two units of fuel, and nothing costs more per character. -/
def skipValue : (fuel : Nat) → Reading Unit
  | 0 => throw .truncated
  | fuel + 1 => do
    match ← peek with
    | none => throw .truncated
    | some 'n' => word ['n', 'u', 'l', 'l']
    | some 't' => word ['t', 'r', 'u', 'e']
    | some 'f' => word ['f', 'a', 'l', 's', 'e']
    | some '"' =>
      advance
      skipStringRest fuel
    | some '[' =>
      advance
      if (← peek) = some ']' then advance else skipElements fuel
    | some '\x7b' =>
      advance
      if (← peek) = some '\x7d' then advance else skipMembers fuel
    | some c =>
      if c = '-' || c.isDigit then discard (number .malformed) else throw .malformed

/-- Consumes the elements of an array up to its end. -/
def skipElements : (fuel : Nat) → Reading Unit
  | 0 => throw .truncated
  | fuel + 1 => do
    skipValue fuel
    if ← afterMember ']' then skipElements fuel

/-- Consumes the members of an object up to its end. -/
def skipMembers : (fuel : Nat) → Reading Unit
  | 0 => throw .truncated
  | fuel + 1 => do
    expect '"'
    skipStringRest fuel
    expect ':'
    skipValue fuel
    if ← afterMember '\x7d' then skipMembers fuel

end

/-! ## Values of the wrong type -/

/-- Refuses the value that starts with `first`: a scalar must still be well-formed
to be refused for its type. -/
def refuse {α : Type} (first : Char) : Reading α := do
  match first with
  | 'n' => word ['n', 'u', 'l', 'l']
  | 't' => word ['t', 'r', 'u', 'e']
  | 'f' => word ['f', 'a', 'l', 's', 'e']
  | '"' =>
    advance
    discard string
  | '[' | '\x7b' => pure ()
  | c =>
    if c = '-' || c.isDigit then
      let parts ← number .truncated
      if !parts.inRange then throw .malformed
    else throw .malformed
  throw .mistyped

/-- Consumes what must start with `first`; `first` itself is consumed. -/
def openWith (first : Char) : Reading Unit := do
  match ← peek with
  | none => throw .truncated
  | some c => if c = first then advance else refuse c

/-! ## Objects and tables -/

/-- The next key of an object, or nothing at its end, which is consumed.  A comma
stands before every key but the first. -/
def nextKey? (isFirst : Bool) : Reading (Option String) := do
  match ← peek with
  | none => throw .truncated
  | some '\x7d' =>
    advance
    return none
  | some c =>
    if !isFirst then
      if c = ',' then advance else throw .malformed
    expect '"'
    return some (← string)

/-- Reads the members of an object up to its end, each by `member`. -/
def members {σ : Type} (member : String → σ → Reading σ) :
    (fuel : Nat) → (isFirst : Bool) → σ → Reading σ
  | 0, _, _ => throw .truncated
  | fuel + 1, isFirst, found => do
    match ← nextKey? isFirst with
    | none => return found
    | some key => members member fuel false (← member key found)

/-- The token kind of a given name. -/
def kindNamed (name : String) : Reading TokenKind :=
  match TokenKind.ofName? name with
  | some kind => return kind
  | none => throw .mistyped

/-- A token kind: its name, or an object that maps its name to null. -/
def kind : Reading TokenKind := do
  match ← peek with
  | none => throw .truncated
  | some '"' =>
    advance
    kindNamed (← string)
  | some '\x7b' =>
    advance
    expect '"'
    let found ← kindNamed (← string)
    expect ':'
    match ← peek with
    | none => throw .truncated
    | some 'n' => word ['n', 'u', 'l', 'l']
    | some c => refuse c
    expect '\x7d'
    return found
  | some _ => throw .malformed

/-- A table from keys to token kinds.  A key that comes again replaces the entry. -/
def table {κ : Type} [Ord κ] (key : String → Reading κ) :
    Reading (Std.TreeMap κ TokenKind) := do
  openWith '\x7b'
  let fuel := (← get).length + 1
  members
    (fun text found => do
      let k ← key text
      expect ':'
      return found.insert k (← kind))
    fuel true ∅

/-- The table of reserved words. -/
def keywordTable : Reading (Std.TreeMap String TokenKind) :=
  table pure

/-- A key that must be one character. -/
def singleChar (key : String) : Reading Char :=
  match key.toList with
  | [c] => return c
  | _ => throw .mistyped

/-- The table of marks. -/
def markTable : Reading (Std.TreeMap Char TokenKind) :=
  table singleChar

/-! ## Lexicons -/

/-- The tables that a text has given so far. -/
structure Tables where
  keywords : Option (Std.TreeMap String TokenKind)
  marks : Option (Std.TreeMap Char TokenKind)

/-- One field of a lexicon object.  A table must not be given twice; a field of
another name is passed over. -/
def field (name : String) (found : Tables) : Reading Tables := do
  if name = "keywords" then
    if found.keywords.isSome then throw .mistyped
    expect ':'
    return { found with keywords := some (← keywordTable) }
  else if name = "single_char_tokens" then
    if found.marks.isSome then throw .mistyped
    expect ':'
    return { found with marks := some (← markTable) }
  else
    expect ':'
    skipValue (2 * (← get).length + 2)
    return found

/-- Whether an array has another element.  A comma stands before every element but
the first; the end is not consumed. -/
def hasElement (isFirst : Bool) : Reading Bool := do
  match ← peek with
  | none => throw .truncated
  | some ']' => return false
  | some c =>
    if isFirst then return true
    if c = ',' then
      advance
      match ← peek with
      | none => throw .truncated
      | some d => if d = ']' then throw .malformed else return true
    else throw .malformed

/-- The tables of a lexicon array, whose opening bracket was consumed. -/
def positional : Reading Tables := do
  if ← hasElement true then
    let keywords ← keywordTable
    if ← hasElement false then
      let marks ← markTable
      expect ']'
      return { keywords := some keywords, marks := some marks }
    expect ']'
    return { keywords := some keywords, marks := none }
  expect ']'
  return { keywords := none, marks := none }

/-- The tables of a lexicon, up to the end of the text. -/
def tables : Reading Tables := do
  let found ←
    if (← peek) = some '[' then
      advance
      positional
    else
      openWith '\x7b'
      let fuel := (← get).length + 1
      members field fuel true { keywords := none, marks := none }
  if (← peek).isSome then throw .malformed
  return found

end Reading

/-- The lexicon that a JSON text describes. -/
def Lexicon.ofJson (text : String) : Except BlobFault Lexicon := do
  let (found, _) ← Reading.tables.run text.toList
  return { keywords := found.keywords.getD Lexicon.standard.keywords
           marks := found.marks.getD Lexicon.standard.marks }

end TreeScript
