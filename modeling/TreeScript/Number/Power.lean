/-!
# Powers of the two bases

* `powerOfTwo` — the base in which numbers are stored
* `powerOfTen` — the base in which they are written
-/

namespace TreeScript

/-- The power `2 ^ n`. -/
abbrev powerOfTwo (n : Nat) : Nat := Nat.pow 2 n

/-- The power `10 ^ n`. -/
abbrev powerOfTen (n : Nat) : Nat := Nat.pow 10 n

end TreeScript
