import TreeScript.Text.Combining
import TreeScript.Text.Unassigned

/-!
# Characters that do not show

Some characters cannot be told apart, or cannot be seen at all, when they stand alone
between quotes.

* `invisible` — control and format characters, blanks other than the space, private use
* `fillers` — letters that hold a place and are drawn as nothing
* `isUnseen` — whether a character is invisible, a filler, combining or unassigned
-/

namespace TreeScript

/-- Control and format characters, blanks other than the space, and private use in
Unicode 17: first and last of each range, in ascending order. -/
def invisible : List (Nat × Nat) :=
  [(0x0000, 0x001f), (0x007f, 0x00a0), (0x00ad, 0x00ad), (0x0600, 0x0605),
   (0x061c, 0x061c), (0x06dd, 0x06dd), (0x070f, 0x070f), (0x0890, 0x0891),
   (0x08e2, 0x08e2), (0x1680, 0x1680), (0x180e, 0x180e), (0x2000, 0x200f),
   (0x2028, 0x202f), (0x205f, 0x2064), (0x2066, 0x206f), (0x3000, 0x3000),
   (0xe000, 0xf8ff), (0xfeff, 0xfeff), (0xfff9, 0xfffb), (0x110bd, 0x110bd),
   (0x110cd, 0x110cd), (0x13430, 0x1343f), (0x1bca0, 0x1bca3), (0x1d173, 0x1d17a),
   (0xe0001, 0xe0001), (0xe0020, 0xe007f), (0xf0000, 0xffffd), (0x100000, 0x10fffd)]

/-- The letters of Unicode 17 that are drawn as nothing: the fillers that take the place of
a missing Hangul letter. Every other character that may be left undrawn is invisible,
combining or unassigned. -/
def fillers : List (Nat × Nat) :=
  [(0x115f, 0x1160), (0x3164, 0x3164), (0xffa0, 0xffa0)]

/-- Whether a character lies in one of the given ranges. -/
def inRanges (ranges : List (Nat × Nat)) (c : Char) : Bool :=
  ranges.any (fun (first, last) => decide (first ≤ c.toNat ∧ c.toNat ≤ last))

/-- Whether a character does not show when it stands alone. -/
def isUnseen (c : Char) : Bool :=
  inRanges invisible c || inRanges fillers c || inRanges combining c || inRanges unassigned c

end TreeScript
