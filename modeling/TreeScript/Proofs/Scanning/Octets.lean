import TreeScript.Proofs.Scanning.Lexemes

/-!
# The bytes of a text

A text is stored as UTF-8.  A character below 128 is one byte, its code; every byte of any
other character is 128 or more, so that what is looked for among the bytes below 128 is
found at a character.

* `octets` — the bytes of a text
* `Uniform` — a class of characters in which those from 128 on are alike
* `takeWhile_octets` — such a class ends at the same place among bytes and among characters
* `Stands` — a position in a source at which a character starts, or the source ends
-/

namespace TreeScript

/-- The bytes of a text. -/
def octets (text : List Char) : List UInt8 :=
  text.flatMap String.utf8EncodeChar

theorem octets_cons (c : Char) (rest : List Char) :
    octets (c :: rest) = String.utf8EncodeChar c ++ octets rest :=
  rfl

theorem octets_append (text rest : List Char) :
    octets (text ++ rest) = octets text ++ octets rest :=
  List.flatMap_append

theorem utf8ByteSize_ofList (text : List Char) :
    (String.ofList text).utf8ByteSize = (octets text).length := by
  rw [String.utf8ByteSize, String.toByteArray_ofList, List.utf8Encode, List.size_toByteArray,
    octets]

theorem data_toByteArray (source : String) :
    source.toByteArray.data.toList = octets source.toList := by
  rw [← String.utf8Encode_toList, List.utf8Encode, List.toList_data_toByteArray, octets]

/-! ## Characters and bytes -/

/-- A character that is one byte. -/
abbrev IsAscii (c : Char) : Prop :=
  c.toNat < 128

theorem utf8EncodeChar_of_isAscii {c : Char} (h : IsAscii c) :
    String.utf8EncodeChar c = [c.toUInt8] :=
  String.utf8EncodeChar_eq_singleton
    (Char.utf8Size_eq_one_iff.2 (UInt32.le_iff_toNat_le.2 (Nat.le_of_lt_succ h)))

theorem ofUInt8_toUInt8 {c : Char} (h : IsAscii c) : Char.ofUInt8 c.toUInt8 = c := by
  have hcode : c.toNat % 256 = c.toNat := Nat.mod_eq_of_lt (Nat.lt_trans h (by decide))
  exact Char.ext (UInt32.toNat_inj.1 hcode)

theorem not_isAscii_of_mem {c : Char} (h : ¬IsAscii c) {b : UInt8}
    (hb : b ∈ String.utf8EncodeChar c) : ¬IsAscii (Char.ofUInt8 b) := by
  have hcode : ∀ n, 128 ≤ n → n < 256 → ¬IsAscii (Char.ofUInt8 (UInt8.ofNat n)) := by
    intro n hlow hhigh
    have hn : (Char.ofUInt8 (UInt8.ofNat n)).toNat = n := Nat.mod_eq_of_lt hhigh
    rw [IsAscii, hn]
    exact Nat.not_lt.2 hlow
  have hv : ¬c.val.toNat ≤ 127 := fun hle => h (Nat.lt_succ_of_le hle)
  unfold String.utf8EncodeChar at hb
  simp only [if_neg hv] at hb
  split_ifs at hb
  all_goals simp only [List.mem_cons, List.not_mem_nil, or_false] at hb
  · rcases hb with rfl | rfl <;> exact hcode _ (by omega) (by omega)
  · rcases hb with rfl | rfl | rfl <;> exact hcode _ (by omega) (by omega)
  · rcases hb with rfl | rfl | rfl | rfl <;> exact hcode _ (by omega) (by omega)

theorem isAscii_of_ruled {c : Char} (h : c ∈ ruledCharacters) : IsAscii c := by
  simp only [ruledCharacters, List.mem_cons, List.not_mem_nil, or_false] at h
  rcases h with rfl | rfl | rfl | rfl | rfl | rfl | rfl | rfl | rfl | rfl <;> decide

/-- A class of characters in which those of several bytes are alike. -/
def Uniform (p : Char → Bool) : Prop :=
  ∀ c d, ¬IsAscii c → ¬IsAscii d → p c = p d

theorem isAscii_of_isWordChar {c : Char} (h : isWordChar c = true) : IsAscii c := by
  have hle : ∀ {x : Char}, c ≤ x → IsAscii x → IsAscii c :=
    fun hc hx => Nat.lt_of_le_of_lt (UInt32.le_iff_toNat_le.1 hc) hx
  rcases isWordChar_iff.1 h with (⟨-, h⟩ | ⟨-, h⟩ | rfl) | ⟨-, h⟩
  · exact hle h (by decide)
  · exact hle h (by decide)
  · decide
  · exact hle h (by decide)

theorem isAscii_of_isWordStart {c : Char} (h : isWordStart c = true) : IsAscii c :=
  isAscii_of_isWordChar (by rw [isWordChar_eq, h, Bool.true_or])

theorem isAscii_of_isDigit {c : Char} (h : c.isDigit = true) : IsAscii c :=
  isAscii_of_isWordChar (by rw [isWordChar_eq, h, Bool.or_true])

/-- A class of characters that are one byte is uniform. -/
theorem uniform_of_isAscii {p : Char → Bool} (h : ∀ {c}, p c = true → IsAscii c) : Uniform p := by
  have hnot : ∀ c, ¬IsAscii c → p c = false := fun c hc => Bool.eq_false_iff.2 fun hp => hc (h hp)
  exact fun c d hc hd => (hnot c hc).trans (hnot d hd).symm

theorem uniform_beq {x : Char} (hx : IsAscii x) : Uniform (· == x) :=
  uniform_of_isAscii fun hc => beq_iff_eq.1 hc ▸ hx

theorem uniform_bne {x : Char} (hx : IsAscii x) : Uniform (· != x) :=
  fun c d hc hd => congrArg (!·) (uniform_beq hx c d hc hd)

theorem uniform_isWordChar : Uniform isWordChar :=
  uniform_of_isAscii isAscii_of_isWordChar

theorem uniform_isWordStart : Uniform isWordStart :=
  uniform_of_isAscii isAscii_of_isWordStart

theorem uniform_isDigit : Uniform Char.isDigit :=
  uniform_of_isAscii isAscii_of_isDigit

/-- A uniform class tells of a byte what it tells of its character. -/
theorem Uniform.octet {p : Char → Bool} (hp : Uniform p) {c : Char} {b : UInt8}
    (hb : b ∈ String.utf8EncodeChar c) : p (Char.ofUInt8 b) = p c := by
  by_cases hc : IsAscii c
  · rw [utf8EncodeChar_of_isAscii hc, List.mem_singleton] at hb
    rw [hb, ofUInt8_toUInt8 hc]
  · exact hp _ _ (not_isAscii_of_mem hc hb) hc

theorem takeWhile_octets {p : Char → Bool} (hp : Uniform p) (text : List Char) :
    (octets text).takeWhile (p ∘ Char.ofUInt8) = octets (text.takeWhile p) := by
  induction text with
  | nil => rfl
  | cons c rest ih =>
    rw [octets_cons, List.takeWhile_cons]
    cases hc : p c with
    | true =>
      have hall : ∀ b ∈ String.utf8EncodeChar c, (p ∘ Char.ofUInt8) b = true :=
        fun b hb => (hp.octet hb).trans hc
      rw [List.takeWhile_append_of_pos hall, ih]
      rfl
    | false =>
      obtain ⟨b, tail, hb⟩ := List.exists_cons_of_ne_nil (String.utf8EncodeChar_ne_nil (c := c))
      have hlead : p (Char.ofUInt8 b) = false :=
        (hp.octet (hb ▸ List.mem_cons_self)).trans hc
      rw [hb, List.cons_append, List.takeWhile_cons, Function.comp_apply, hlead]
      rfl

/-- A text and its bytes start alike. -/
theorem head?_octets {p : Char → Bool} (hp : Uniform p) (text : List Char) :
    (octets text).head?.any (p ∘ Char.ofUInt8) = text.head?.any p := by
  cases text with
  | nil => rfl
  | cons c rest =>
    obtain ⟨b, tail, hb⟩ := List.exists_cons_of_ne_nil (String.utf8EncodeChar_ne_nil (c := c))
    rw [octets_cons, hb]
    exact hp.octet (hb ▸ List.mem_cons_self)

theorem count_octets {x : Char} (hx : IsAscii x) (text : List Char) :
    (octets text).countP (Char.ofUInt8 · == x) = text.count x := by
  induction text with
  | nil => rfl
  | cons c rest ih =>
    rw [octets_cons, List.countP_append, ih, List.count_cons, Nat.add_comm]
    refine congrArg (rest.count x + ·) ?_
    by_cases hc : IsAscii c
    · rw [utf8EncodeChar_of_isAscii hc, List.countP_singleton, ofUInt8_toUInt8 hc]
    · have hne : ∀ b ∈ String.utf8EncodeChar c, ¬(Char.ofUInt8 b == x) = true := fun b hb he =>
        not_isAscii_of_mem hc hb (beq_iff_eq.1 he ▸ hx)
      have hne' : ¬(c == x) = true := fun he => hc (beq_iff_eq.1 he ▸ hx)
      rw [List.countP_eq_zero.2 hne, if_neg hne']

/-! ## Positions -/

/-- The byte at a position of a source. -/
def byte? (source : String) (position : Nat) : Option UInt8 :=
  source.toByteArray.data[position]?

/-- The bytes of a source from a position on. -/
def bytesFrom (source : String) (position : Nat) : List UInt8 :=
  source.toByteArray.data.toList.drop position

theorem lt_of_byte? {source : String} {position : Nat} {b : UInt8}
    (h : byte? source position = some b) : position < source.utf8ByteSize :=
  (Array.getElem?_eq_some_iff.1 h).1

theorem bytesFrom_cons {source : String} {position : Nat} {b : UInt8} {rest : List UInt8}
    (h : bytesFrom source position = b :: rest) : bytesFrom source (position + 1) = rest := by
  rw [bytesFrom, ← List.drop_drop]
  exact congrArg (List.drop 1) h

/-- A position in a source between the characters `before` and `after` it. -/
structure Stands (source : String) (position : Nat) (before after : List Char) : Prop where
  source_eq : source = String.ofList (before ++ after)
  position_eq : position = (octets before).length

namespace Stands

variable {source : String} {position : Nat} {before after : List Char}

theorem start (source : String) : Stands source 0 [] source.toList :=
  ⟨by rw [List.nil_append, String.ofList_toList], rfl⟩

theorem ahead (text : List Char) (h : Stands source position before (text ++ after)) :
    Stands source (position + (octets text).length) (before ++ text) after :=
  ⟨by rw [h.source_eq, List.append_assoc],
    by rw [h.position_eq, octets_append, List.length_append]⟩

theorem bytesFrom (h : Stands source position before after) :
    bytesFrom source position = octets after := by
  rw [TreeScript.bytesFrom, data_toByteArray, h.source_eq, String.toList_ofList, octets_append,
    h.position_eq, List.drop_left]

theorem utf8ByteSize (h : Stands source position before after) :
    source.utf8ByteSize = position + (octets after).length := by
  rw [h.source_eq, utf8ByteSize_ofList, octets_append, List.length_append, h.position_eq]

end Stands

end TreeScript
