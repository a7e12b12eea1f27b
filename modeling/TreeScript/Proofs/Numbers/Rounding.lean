import TreeScript.Number.Text
import Mathlib.Algebra.Order.Field.Power
import Mathlib.Algebra.Order.Floor.Semifield
import Mathlib.Data.Nat.Digits.Defs
import Mathlib.Data.Rat.Floor
import Mathlib.Tactic.FieldSimp
import Mathlib.Tactic.Linarith
import Mathlib.Tactic.NormNum
import Mathlib.Tactic.Positivity
import Mathlib.Tactic.Ring

/-!
# The nearest binary64 number

The number that a decimal denotes is the binary64 number nearest to it, and of two equally
near ones the one with the even significand.

* `magnitude` — the rational number that a word stands for
* `Nearest` — the word whose magnitude is nearest to a number, ties to even
* `nearest_iff` — `nearestWord` is the only such word
* `Number.Denotes` — the number that digits before and after a point denote
* `Number.denotes_iff` — `Number.ofDigits` is that number
-/

namespace TreeScript.Binary64

/-! ## Magnitudes -/

/-- The word of infinity. -/
def overflowWord : Nat :=
  2047 * powerOfTwo 52

/-- The number that a word without a sign stands for.  Infinity takes the place of `2 ^ 1024`,
the first number that is out of range. -/
def magnitude (word : Nat) : ℚ :=
  match Datum.ofWord word with
  | .finite _ significand exponent => significand * 2 ^ exponent
  | _ => 2 ^ (1024 : Int)

/-- The least significand with a hidden bit, as a number of which only little is known. -/
theorem exists_hidden :
    ∃ hidden, 0 < hidden ∧ Even hidden ∧ powerOfTwo 52 = hidden ∧ powerOfTwo 53 = 2 * hidden ∧
      (hidden : ℚ) = 2 ^ (52 : Int) :=
  ⟨powerOfTwo 52, Nat.pow_pos (by decide), ⟨powerOfTwo 51, rfl⟩, rfl, rfl, by norm_num⟩

theorem magnitude_of_lt {word : Nat} (h : word < powerOfTwo 52) :
    magnitude word = word * 2 ^ (-1074 : Int) := by
  simp only [magnitude, Datum.ofWord, Nat.div_eq_of_lt h, Nat.mod_eq_of_lt h, Nat.zero_mod,
    if_true]
  rfl

theorem magnitude_of_hidden {scale fraction : Nat} (hf : fraction < powerOfTwo 52)
    (hle : (scale + 1) * powerOfTwo 52 + fraction ≤ overflowWord) :
    magnitude ((scale + 1) * powerOfTwo 52 + fraction) =
      (powerOfTwo 52 + fraction : Nat) * 2 ^ ((scale : Int) - 1074) := by
  obtain ⟨hidden, hpos, -, h52, -, hpow⟩ := exists_hidden
  have h11 : powerOfTwo 11 = 2048 := rfl
  rw [overflowWord, h52] at hle
  rw [h52] at hf ⊢
  have hscale : scale + 1 ≤ 2047 :=
    Nat.le_of_mul_le_mul_right (Nat.le_of_add_right_le hle) hpos
  have hdiv : ((scale + 1) * hidden + fraction) / hidden % 2048 = scale + 1 := by
    rw [mul_comm, Nat.mul_add_div hpos, Nat.div_eq_of_lt hf]
    omega
  have hmod : ((scale + 1) * hidden + fraction) % hidden = fraction := by
    rw [Nat.mul_add_mod_self_right, Nat.mod_eq_of_lt hf]
  simp only [magnitude, Datum.ofWord, h52, h11, hdiv, hmod]
  rcases hscale.eq_or_lt with htop | hfinite
  · obtain rfl : scale = 2046 := Nat.succ_injective htop
    obtain rfl : fraction = 0 := by omega
    have hone : (2 : ℚ) ^ (1024 : Int) = 2 ^ (52 : Int) * 2 ^ ((2046 : Int) - 1074) := by
      rw [← zpow_add₀ two_ne_zero]
      rfl
    rw [if_pos rfl, if_pos rfl, add_zero hidden, hpow]
    exact hone
  · rw [if_neg hfinite.ne, if_neg (Nat.succ_ne_zero scale)]
    refine congrArg (((hidden + fraction : Nat) : ℚ) * 2 ^ ·) ?_
    push_cast
    ring

theorem magnitude_overflow : magnitude overflowWord = 2 ^ (1024 : Int) := by
  obtain ⟨hidden, hpos, -, h52, -, hpow⟩ := exists_hidden
  have hword : overflowWord = (2046 + 1) * powerOfTwo 52 + 0 := rfl
  rw [hword, magnitude_of_hidden (Nat.pow_pos (by decide)) hword.ge, h52, add_zero hidden, hpow,
    ← zpow_add₀ two_ne_zero]
  rfl

/-- The words of one exponent, and the first of the next, stand for multiples of one unit. -/
theorem magnitude_eq {scale significand : Nat} (hlow : scale = 0 ∨ powerOfTwo 52 ≤ significand)
    (hhigh : significand ≤ powerOfTwo 53)
    (hle : scale * powerOfTwo 52 + significand ≤ overflowWord) :
    magnitude (scale * powerOfTwo 52 + significand) =
      significand * 2 ^ ((scale : Int) - 1074) := by
  obtain ⟨hidden, -, -, h52, h53, -⟩ := exists_hidden
  rcases Nat.lt_or_ge significand (powerOfTwo 52) with hs | hs
  · obtain rfl : scale = 0 := hlow.resolve_right (Nat.not_le.2 hs)
    rw [Nat.zero_mul, Nat.zero_add, magnitude_of_lt hs]
    rfl
  · obtain ⟨fraction, rfl⟩ := Nat.exists_eq_add_of_le hs
    have hword : scale * powerOfTwo 52 + (powerOfTwo 52 + fraction) =
        (scale + 1) * powerOfTwo 52 + fraction := by ring
    rw [hword] at hle ⊢
    rcases Nat.lt_or_ge fraction (powerOfTwo 52) with hf | hf
    · exact magnitude_of_hidden hf hle
    · -- the first word of the next exponent
      obtain rfl : fraction = powerOfTwo 52 := by
        rw [h52, h53] at *
        omega
      have hnext : (scale + 1) * powerOfTwo 52 + powerOfTwo 52 =
          (scale + 1 + 1) * powerOfTwo 52 + 0 := by ring
      have hunit : ((scale + 1 : Nat) : Int) - 1074 = scale - 1074 + 1 := by
        push_cast
        ring
      rw [hnext] at hle ⊢
      rw [magnitude_of_hidden (Nat.pow_pos (by decide)) hle, hunit, zpow_add_one₀ two_ne_zero,
        h52]
      push_cast
      ring

/-- Every word is one of the words of its exponent. -/
theorem exists_scale (word : Nat) : ∃ scale significand,
    word = scale * powerOfTwo 52 + significand ∧ (scale = 0 ∨ powerOfTwo 52 ≤ significand) ∧
      significand < powerOfTwo 53 := by
  obtain ⟨hidden, hpos, -, h52, h53, -⟩ := exists_hidden
  rw [h52, h53]
  rcases Nat.lt_or_ge word hidden with hw | hw
  · exact ⟨0, word, by omega, .inl rfl, by omega⟩
  · have hdiv : 0 < word / hidden := Nat.div_pos hw hpos
    obtain ⟨scale, hscale⟩ := Nat.exists_eq_succ_of_ne_zero hdiv.ne'
    have hword := Nat.div_add_mod word hidden
    have hmod := Nat.mod_lt word hpos
    rw [hscale, Nat.mul_succ, mul_comm] at hword
    exact ⟨scale, hidden + word % hidden, by omega, .inr (Nat.le_add_right ..), by omega⟩

theorem magnitude_lt_succ {word : Nat} (h : word < overflowWord) :
    magnitude word < magnitude (word + 1) := by
  obtain ⟨scale, significand, rfl, hlow, hhigh⟩ := exists_scale word
  rw [magnitude_eq hlow hhigh.le h.le, Nat.add_assoc,
    magnitude_eq (hlow.imp_right fun h => h.trans (Nat.le_succ _)) hhigh h]
  exact mul_lt_mul_of_pos_right (by exact_mod_cast Nat.lt_succ_self _) (zpow_pos two_pos _)

theorem magnitude_lt {word other : Nat} (h : word < other) (hle : other ≤ overflowWord) :
    magnitude word < magnitude other := by
  induction other, h using Nat.le_induction with
  | base => exact magnitude_lt_succ hle
  | succ other hlt ih => exact (ih (Nat.le_of_succ_le hle)).trans (magnitude_lt_succ hle)

theorem magnitude_le {word other : Nat} (h : word ≤ other) (hle : other ≤ overflowWord) :
    magnitude word ≤ magnitude other := by
  rcases h.eq_or_lt with rfl | hlt
  · exact le_rfl
  · exact (magnitude_lt hlt hle).le

/-- A word is even when its significand is. -/
theorem even_word {scale significand : Nat} (h : Even significand) :
    Even (scale * powerOfTwo 52 + significand) := by
  obtain ⟨hidden, -, heven, h52, -, -⟩ := exists_hidden
  rw [h52]
  exact (heven.mul_left scale).add h

/-! ## The nearest word -/

/-- The word whose magnitude is nearest to a number, and of two equally near ones the even
one. -/
structure Nearest (x : ℚ) (word : Nat) : Prop where
  le : word ≤ overflowWord
  closest : ∀ other ≤ overflowWord, other ≠ word →
    |x - magnitude word| < |x - magnitude other| ∨
      |x - magnitude word| = |x - magnitude other| ∧ Even word

section

variable {x a b : ℚ} (h : a < b)
include h

theorem right_le_left_iff : |x - b| ≤ |x - a| ↔ a + b ≤ 2 * x := by
  have hsq : (x - a) ^ 2 - (x - b) ^ 2 = (b - a) * (2 * x - (a + b)) := by ring
  rw [← sq_le_sq, ← sub_nonneg, hsq, mul_nonneg_iff_of_pos_left (sub_pos.2 h), sub_nonneg]

theorem left_le_right_iff : |x - a| ≤ |x - b| ↔ 2 * x ≤ a + b := by
  have hsq : (x - b) ^ 2 - (x - a) ^ 2 = (b - a) * (a + b - 2 * x) := by ring
  rw [← sq_le_sq, ← sub_nonneg, hsq, mul_nonneg_iff_of_pos_left (sub_pos.2 h), sub_nonneg]

end

namespace Nearest

variable {x : ℚ} {word other : Nat}

/-- A word is nearest if the number lies between the midpoints to its neighbours. -/
theorem of_midpoints (hle : word ≤ overflowWord)
    (hlow : ∀ below, word = below + 1 → magnitude below + magnitude word < 2 * x ∨
      magnitude below + magnitude word = 2 * x ∧ Even word)
    (hhigh : word < overflowWord → 2 * x < magnitude word + magnitude (word + 1) ∨
      2 * x = magnitude word + magnitude (word + 1) ∧ Even word) : Nearest x word := by
  refine ⟨hle, fun other ho hne => ?_⟩
  rcases hne.lt_or_gt with hlt | hgt
  · obtain ⟨below, rfl⟩ := Nat.exists_eq_succ_of_ne_zero (Nat.ne_zero_of_lt hlt)
    have hmono := magnitude_le (Nat.le_of_lt_succ hlt) (Nat.le_of_succ_le hle)
    have hmag := magnitude_lt hlt hle
    rcases hlow below rfl with hstrict | ⟨htie, heven⟩
    · refine .inl (lt_of_not_ge fun hge => ?_)
      linarith [(left_le_right_iff hmag).1 hge]
    · have hnear := (right_le_left_iff (x := x) hmag).2 (by linarith)
      exact hnear.lt_or_eq.imp_right fun h => ⟨h, heven⟩
  · have hmono := magnitude_le (Nat.succ_le_of_lt hgt) ho
    have hmag := magnitude_lt hgt ho
    rcases hhigh (hgt.trans_le ho) with hstrict | ⟨htie, heven⟩
    · refine .inl (lt_of_not_ge fun hge => ?_)
      linarith [(right_le_left_iff hmag).1 hge]
    · have hnear := (left_le_right_iff (x := x) hmag).2 (by linarith)
      exact hnear.lt_or_eq.imp_right fun h => ⟨h, heven⟩

theorem not_lt (hw : Nearest x word) (ho : Nearest x other) : ¬word < other := by
  intro hlt
  have hmag := magnitude_lt hlt ho.le
  rcases hw.closest other ho.le hlt.ne' with hw' | ⟨heq, heven⟩
  · rcases ho.closest word hw.le hlt.ne with ho' | ⟨heq, -⟩
    · exact absurd hw' ho'.not_gt
    · exact absurd heq hw'.ne'
  · have heven' : Even other :=
      (ho.closest word hw.le hlt.ne).elim (fun h => absurd heq h.ne') (·.2)
    -- between two even words there is a word that is nearer
    have hnext : word + 1 < other := by
      refine lt_of_le_of_ne hlt ?_
      rintro rfl
      exact Nat.not_even_iff_odd.2 heven.add_one heven'
    have hle : |x - magnitude word| ≤ |x - magnitude (word + 1)| :=
      (hw.closest _ (hnext.le.trans ho.le) (Nat.succ_ne_self _)).elim le_of_lt fun h => h.1.le
    have hlow := (left_le_right_iff (magnitude_lt_succ (hlt.trans_le ho.le))).1 hle
    have hmid := (right_le_left_iff hmag).1 heq.ge
    linarith [magnitude_lt hnext ho.le]

theorem unique (hw : Nearest x word) (ho : Nearest x other) : word = other :=
  le_antisymm (Nat.not_lt.1 (ho.not_lt hw)) (Nat.not_lt.1 (hw.not_lt ho))

theorem of_overflow (h : magnitude overflowWord ≤ x) : Nearest x overflowWord := by
  refine of_midpoints le_rfl (fun below hbelow => .inl ?_) fun h => absurd h (lt_irrefl _)
  have hlt := magnitude_lt (Nat.lt_of_succ_le hbelow.ge) le_rfl
  linarith

/-- The word of a rounded significand is nearest, or infinity if it is out of range. -/
theorem of_rounded {t unit : ℚ} {scale significand rounded : Nat}
    (hunit : unit = 2 ^ ((scale : Int) - 1074))
    (hlow : scale = 0 ∨ powerOfTwo 52 ≤ significand) (hhigh : significand < powerOfTwo 53)
    (hfloor : significand ≤ t) (hceil : t < significand + 1)
    (hround : (rounded = significand ∧
        (2 * t < 2 * significand + 1 ∨ 2 * t = 2 * significand + 1 ∧ Even significand)) ∨
      (rounded = significand + 1 ∧
        (2 * significand + 1 < 2 * t ∨ 2 * significand + 1 = 2 * t ∧ Even (significand + 1)))) :
    Nearest (t * unit) (min (scale * powerOfTwo 52 + rounded) overflowWord) := by
  have hpos : 0 < unit := hunit ▸ zpow_pos two_pos _
  replace hfloor : significand * unit ≤ t * unit := mul_le_mul_of_nonneg_right hfloor hpos.le
  replace hceil : t * unit < (significand + 1) * unit := mul_lt_mul_of_pos_right hceil hpos
  rcases Nat.lt_or_ge (scale * powerOfTwo 52 + significand) overflowWord with hw | hw
  · obtain ⟨word, hword⟩ : ∃ word, word = scale * powerOfTwo 52 + significand := ⟨_, rfl⟩
    have hmag : magnitude word = significand * unit := by
      rw [hword, magnitude_eq hlow hhigh.le hw.le, hunit]
    have hnext : magnitude (word + 1) = (significand + 1) * unit := by
      rw [hword, Nat.add_assoc,
        magnitude_eq (hlow.imp_right fun h => h.trans (Nat.le_succ _)) hhigh hw, hunit]
      push_cast
      rfl
    have hsum : magnitude word + magnitude (word + 1) = (2 * significand + 1) * unit := by
      rw [hmag, hnext]
      ring
    rw [← hword] at hw
    rcases hround with ⟨rfl, hround⟩ | ⟨rfl, hround⟩
    · rw [← hword, min_eq_left hw.le]
      refine of_midpoints hw.le (fun below hbelow => .inl ?_) fun _ => ?_
      · have hlt := magnitude_lt (Nat.lt_of_succ_le hbelow.ge) hw.le
        linarith
      · rw [hsum, ← mul_assoc]
        refine hround.imp (fun h => mul_lt_mul_of_pos_right h hpos) fun h => ⟨by rw [h.1], ?_⟩
        exact hword ▸ even_word h.2
    · rw [← Nat.add_assoc, ← hword, min_eq_left hw]
      refine of_midpoints hw (fun below hbelow => ?_) fun hlt => .inl ?_
      · obtain rfl := Nat.succ_injective hbelow
        rw [hsum, ← mul_assoc]
        refine hround.imp (fun h => mul_lt_mul_of_pos_right h hpos) fun h => ⟨by rw [h.1], ?_⟩
        rw [hword, Nat.add_assoc]
        exact even_word h.2
      · have hmono := magnitude_lt_succ hlt
        linarith
  · -- the number is out of range
    have hrounded : significand ≤ rounded := by omega
    rw [min_eq_right (hw.trans (Nat.add_le_add_left hrounded _))]
    refine of_overflow (le_trans ?_ hfloor)
    obtain ⟨hidden, -, -, h52, h53, hpow⟩ := exists_hidden
    rw [overflowWord, h52] at hw
    rw [h52] at hlow
    rw [h53] at hhigh
    have hscale : 2046 ≤ scale := by
      by_contra hlt
      have : scale * hidden ≤ 2045 * hidden := Nat.mul_le_mul_right _ (by omega)
      omega
    have hsignificand : (2 : ℚ) ^ (52 : Int) ≤ significand := by
      rw [← hpow]
      exact_mod_cast hlow.resolve_left (by omega)
    calc magnitude overflowWord = 2 ^ (52 : Int) * 2 ^ (972 : Int) := by
          rw [magnitude_overflow, ← zpow_add₀ two_ne_zero]
          rfl
      _ ≤ significand * unit :=
          mul_le_mul hsignificand (hunit ▸ zpow_le_zpow_right₀ one_le_two (by omega))
            (zpow_pos two_pos _).le (Nat.cast_nonneg _)

end Nearest

/-! ## Rounding a fraction -/

section

variable (num : Nat) {den : Nat} (exponent : Int)

theorem scaleDown_pos (hden : 0 < den) : 0 < (scaleDown num den exponent).2 := by
  unfold scaleDown
  split
  · exact hden
  · exact Nat.mul_pos hden (Nat.pow_pos (by decide))

theorem scaleDown_div (hden : 0 < den) :
    ((scaleDown num den exponent).1 : ℚ) / (scaleDown num den exponent).2 =
      num / den / 2 ^ exponent := by
  have hne : (den : ℚ) ≠ 0 := by exact_mod_cast hden.ne'
  unfold scaleDown
  split
  · rename_i h
    obtain ⟨n, rfl⟩ := Int.exists_eq_neg_ofNat h.le
    simp only [powerOfTwo, Nat.pow_eq, neg_neg, Int.toNat_natCast, zpow_neg, zpow_natCast]
    push_cast
    field_simp
  · rename_i h
    obtain ⟨n, rfl⟩ := Int.eq_ofNat_of_zero_le (not_lt.1 h)
    simp only [powerOfTwo, Nat.pow_eq, Int.toNat_natCast, zpow_natCast]
    push_cast
    field_simp

theorem scaleDown_floor (hden : 0 < den) :
    (scaleDown num den exponent).1 / (scaleDown num den exponent).2 =
      ⌊(num : ℚ) / den / 2 ^ exponent⌋₊ := by
  rw [← scaleDown_div num exponent hden, Nat.floor_div_eq_div]

theorem div_lt_zpow (hden : 0 < den) :
    (num : ℚ) / den < 2 ^ ((num.log2 : Int) - den.log2 + 1) := by
  have hnum : (num : ℚ) < 2 ^ ((num.log2 : Int) + 1) := by exact_mod_cast Nat.lt_log2_self
  have hlog : (2 : ℚ) ^ (den.log2 : Int) ≤ den := by exact_mod_cast Nat.log2_self_le hden.ne'
  rw [sub_add_eq_add_sub, zpow_sub₀ two_ne_zero]
  exact div_lt_div₀ hnum hlog (zpow_pos two_pos _).le (zpow_pos two_pos _)

variable {num}

theorem zpow_lt_div (hnum : 0 < num) (hden : 0 < den) :
    2 ^ ((num.log2 : Int) - den.log2 - 1) < (num : ℚ) / den := by
  have hlog : (2 : ℚ) ^ (num.log2 : Int) ≤ num := by exact_mod_cast Nat.log2_self_le hnum.ne'
  have hlt : (den : ℚ) < 2 ^ ((den.log2 : Int) + 1) := by exact_mod_cast Nat.lt_log2_self
  rw [sub_sub, zpow_sub₀ two_ne_zero]
  exact div_lt_div₀' hlog hlt (by exact_mod_cast hnum) (by exact_mod_cast hden)

/-- The exponent leaves fifty-three bits in front of the point, or fewer where it is the
least. -/
theorem exponentOf_spec (hnum : 0 < num) (hden : 0 < den) :
    ∃ scale : Nat, exponentOf num den = scale - 1074 ∧
      (num : ℚ) / den / 2 ^ exponentOf num den < 2 ^ (53 : Int) ∧
      (scale = 0 ∨ 2 ^ (52 : Int) ≤ (num : ℚ) / den / 2 ^ exponentOf num den) := by
  have hpow : ∀ e : Int, (0 : ℚ) < 2 ^ e := zpow_pos two_pos
  have hhigh := div_lt_zpow num hden
  have hlow := zpow_lt_div hnum hden
  generalize hx : (num : ℚ) / den = x at hhigh hlow
  obtain ⟨guess, hguess⟩ : ∃ guess, guess = max ((num.log2 : Int) - den.log2 - 53) (-1074) :=
    ⟨_, rfl⟩
  have hfloor : powerOfTwo 53 ≤ (scaleDown num den guess).1 / (scaleDown num den guess).2 ↔
      2 ^ (53 : Int) ≤ x / 2 ^ guess := by
    rw [scaleDown_floor num guess hden, hx, Nat.le_floor_iff (div_nonneg (hx ▸ by positivity) (hpow _).le)]
    norm_num
  have hexponent : exponentOf num den =
      if 2 ^ (53 : Int) ≤ x / 2 ^ guess then guess + 1 else guess := by
    simp only [exponentOf, ← hguess, hfloor]
  have hbound : x / 2 ^ guess < 2 ^ (54 : Int) := by
    rw [div_lt_iff₀ (hpow _), ← zpow_add₀ two_ne_zero]
    exact hhigh.trans_le (zpow_le_zpow_right₀ one_le_two (by omega))
  rw [hexponent]
  split_ifs with hcarry
  · have hhalf : x / 2 ^ (guess + 1) = x / 2 ^ guess / 2 := by
      rw [zpow_add_one₀ two_ne_zero, div_mul_eq_div_div]
    have hleast : -1074 ≤ guess := hguess ▸ le_max_right _ _
    refine ⟨(guess + 1 + 1074).toNat, by omega, ?_, .inr ?_⟩
    · rw [hhalf, div_lt_iff₀ two_pos, ← zpow_add_one₀ two_ne_zero]
      exact hbound
    · rw [hhalf, le_div_iff₀ two_pos, ← zpow_add_one₀ two_ne_zero]
      exact hcarry
  · refine ⟨(guess + 1074).toNat, by omega, not_le.1 hcarry, ?_⟩
    rcases max_choice ((num.log2 : Int) - den.log2 - 53) (-1074) with hmax | hmax
    · right
      have hsum : (52 : Int) + (num.log2 - den.log2 - 53) = num.log2 - den.log2 - 1 := by ring
      rw [le_div_iff₀ (hpow _), ← zpow_add₀ two_ne_zero, hguess, hmax, hsum]
      exact hlow.le
    · left
      omega

/-- The rounded quotient is the quotient or the next integer, whichever is nearer. -/
theorem roundDiv_spec (num : Nat) (hden : 0 < den) :
    (roundDiv num den = num / den ∧
      (2 * ((num : ℚ) / den) < 2 * (num / den : Nat) + 1 ∨
        2 * ((num : ℚ) / den) = 2 * (num / den : Nat) + 1 ∧ Even (num / den))) ∨
    (roundDiv num den = num / den + 1 ∧
      (2 * (num / den : Nat) + 1 < 2 * ((num : ℚ) / den) ∨
        2 * (num / den : Nat) + 1 = 2 * ((num : ℚ) / den) ∧ Even (num / den + 1))) := by
  have hpos : (0 : ℚ) < den := by exact_mod_cast hden
  have hdiv : (num : ℚ) = den * (num / den : Nat) + (num % den : Nat) := by
    exact_mod_cast (Nat.div_add_mod num den).symm
  have htwice : 2 * ((num : ℚ) / den) =
      2 * (num / den : Nat) + (2 * (num % den) : Nat) / den := by
    rw [eq_comm, ← sub_eq_zero]
    field_simp
    push_cast
    linarith
  rw [htwice]
  simp only [roundDiv]
  rcases Nat.lt_trichotomy (2 * (num % den)) den with hlt | heq | hgt
  · refine .inl ⟨by rw [if_neg hlt.not_gt, if_neg hlt.ne], .inl ?_⟩
    have : ((2 * (num % den) : Nat) : ℚ) / den < 1 := (div_lt_one hpos).2 (by exact_mod_cast hlt)
    linarith
  · have hone : ((2 * (num % den) : Nat) : ℚ) / den = 1 := by
      rw [div_eq_one_iff_eq hpos.ne']
      exact_mod_cast heq
    rw [hone, if_neg heq.not_gt, if_pos heq]
    rcases Nat.even_or_odd (num / den) with heven | hodd
    · exact .inl ⟨by rw [Nat.even_iff.1 heven, Nat.add_zero], .inr ⟨rfl, heven⟩⟩
    · exact .inr ⟨by rw [Nat.odd_iff.1 hodd], .inr ⟨rfl, hodd.add_one⟩⟩
  · refine .inr ⟨by rw [if_pos hgt], .inl ?_⟩
    have : 1 < ((2 * (num % den) : Nat) : ℚ) / den := (one_lt_div hpos).2 (by exact_mod_cast hgt)
    linarith

theorem nearest_nearestWord (num : Nat) (hden : 0 < den) :
    Nearest ((num : ℚ) / den) (nearestWord num den) := by
  rcases Nat.eq_zero_or_pos num with rfl | hnum
  · have hzero : magnitude 0 = 0 := by
      rw [magnitude_of_lt (Nat.pow_pos (by decide)), Nat.cast_zero, zero_mul]
    rw [nearestWord, if_pos rfl, Nat.cast_zero, zero_div]
    refine .of_midpoints (Nat.zero_le _) nofun fun h => .inl ?_
    rw [mul_zero, hzero, zero_add]
    exact hzero ▸ magnitude_lt_succ h
  · obtain ⟨scale, hscale, hhigh, hlow⟩ := exponentOf_spec hnum hden
    have hunit : (0 : ℚ) < 2 ^ exponentOf num den := zpow_pos two_pos _
    have hto : (exponentOf num den + 1074).toNat = scale := by omega
    have hround := roundDiv_spec (scaleDown num den (exponentOf num den)).1
      (scaleDown_pos num (exponentOf num den) hden)
    rw [scaleDown_div _ _ hden, scaleDown_floor _ _ hden] at hround
    rw [nearestWord, if_neg hnum.ne', ← div_mul_cancel₀ ((num : ℚ) / den) hunit.ne']
    simp only [hto]
    have hpos : (0 : ℚ) ≤ num / den / 2 ^ exponentOf num den := by positivity
    generalize (num : ℚ) / den / 2 ^ exponentOf num den = t at *
    refine .of_rounded (by rw [hscale]) (hlow.imp_right fun h => ?_) ?_ (Nat.floor_le hpos)
      (Nat.lt_floor_add_one t) hround
    · exact Nat.le_floor (le_of_eq_of_le (by norm_num) h)
    · exact (Nat.floor_lt hpos).2 (lt_of_lt_of_eq hhigh (by norm_num))

/-- There is exactly one nearest word. -/
theorem nearest_iff {word : Nat} (hden : 0 < den) :
    Nearest ((num : ℚ) / den) word ↔ word = nearestWord num den :=
  ⟨fun h => h.unique (nearest_nearestWord num hden), fun h => h ▸ nearest_nearestWord num hden⟩

end

end TreeScript.Binary64

/-! ## Decimals -/

namespace TreeScript.Number

/-- The number that a row of decimal digits denotes. -/
def numeral (digits : List Char) : Nat :=
  Nat.ofDigits 10 (digits.reverse.map fun c => c.toNat - '0'.toNat)

/-- The rational number that digits before and after a point denote. -/
def decimal (whole fraction : List Char) : ℚ :=
  numeral whole + numeral fraction / 10 ^ fraction.length

/-- The binary64 number that digits before and after a point denote. -/
def Denotes (whole fraction : List Char) (value : Float) : Prop :=
  ∃ word, Binary64.Nearest (decimal whole fraction) word ∧
    value = Float.ofBits (UInt64.ofNat word)

theorem numeral_eq_foldl (digits : List Char) :
    numeral digits = digits.foldl (fun n c => 10 * n + (c.toNat - '0'.toNat)) 0 := by
  rw [numeral, Nat.ofDigits_eq_foldr, List.foldr_map, List.foldr_reverse]
  exact congrArg (fun f => List.foldl f 0 digits) (funext₂ fun n c => Nat.add_comm ..)

theorem numeral_append (whole fraction : List Char) :
    numeral (whole ++ fraction) =
      numeral whole * 10 ^ fraction.length + numeral fraction := by
  rw [numeral, List.reverse_append, List.map_append, Nat.ofDigits_append, List.length_map,
    List.length_reverse, Nat.add_comm, Nat.mul_comm]
  rfl

theorem decimal_eq (whole fraction : List Char) :
    decimal whole fraction =
      (numeral (whole ++ fraction) : ℚ) / (powerOfTen fraction.length : Nat) := by
  rw [numeral_append, decimal, powerOfTen, Nat.pow_eq]
  push_cast
  field_simp

/-- The digits of a number denote the number that is read from them, and no other. -/
theorem denotes_iff {whole fraction : List Char} {value : Float} :
    Denotes whole fraction value ↔ value = ofDigits whole fraction := by
  have hten : 0 < powerOfTen fraction.length := Nat.pow_pos (by decide)
  simp only [Denotes, decimal_eq, Binary64.nearest_iff hten, exists_eq_left, ofDigits,
    Binary64.nearest, numeral_eq_foldl, Bool.false_eq_true, if_false]

end TreeScript.Number
