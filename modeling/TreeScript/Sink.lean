import TreeScript.Diagnostic

/-!
# Print targets

* `Sink` — what was printed so far, and how much more is accepted
* `Sink.write` — keeps the bytes that fit
* `Sink.flush` — the end of a successful run
* `decodeLossy` — bytes as text
-/

namespace TreeScript

/-- A print target: the bytes printed so far, how many more it accepts (none is no
limit), and whether flushing it fails. -/
structure Sink where
  printed : ByteArray
  room : Option Nat
  flushFails : Bool

namespace Sink

/-- The target that accepts everything. -/
def unlimited : Sink :=
  { printed := .empty, room := none, flushFails := false }

/-- Prints bytes.  Those that fit are kept; if some do not fit, the target is
closed. -/
def writeBytes (sink : Sink) (bytes : ByteArray) : Sink × Option OutputFault :=
  match sink.room with
  | none => ({ sink with printed := sink.printed ++ bytes }, none)
  | some room =>
    if bytes.size ≤ room then
      ({ sink with printed := sink.printed ++ bytes, room := some (room - bytes.size) },
        none)
    else
      ({ sink with printed := sink.printed ++ bytes.extract 0 room, room := some 0 },
        some .closed)

/-- Prints a text. -/
def write (sink : Sink) (text : String) : Sink × Option OutputFault :=
  sink.writeBytes text.toUTF8

/-- Flushes the target. -/
def flush (sink : Sink) : Option OutputFault :=
  if sink.flushFails then some .flushFailed else none

end Sink

/-- The longest text that a prefix of at least `size` of the given bytes spells,
where up to `slack` bytes at the end may be cut off from a character. -/
def decodePrefix (bytes : ByteArray) : (slack : Nat) → String
  | 0 => ""
  | slack + 1 =>
    match String.fromUTF8? (bytes.extract 0 (bytes.size - (3 - slack))) with
    | some text => if slack = 3 then text else text ++ "\uFFFD"
    | none => decodePrefix bytes slack

/-- Bytes that spell a text except that its last character may be cut; a cut
character is shown as U+FFFD. -/
def decodeLossy (bytes : ByteArray) : String :=
  decodePrefix bytes 4

end TreeScript
