import CilSsa.Numeric.Binary64
import Mathlib.Algebra.Order.Field.Power
import Mathlib.Data.Int.Log
import Mathlib.Data.Rat.Floor
import Mathlib.Tactic.FieldSimp
import Mathlib.Tactic.Linarith
import Mathlib.Tactic.NormNum
import Mathlib.Tactic.Ring

/-!
Rounding to a floating-point format.

The number that a fraction is rounded to depends on the value of the fraction alone, and a value
that the format has is left as it is.  A decimal is rounded as a fraction of its value: what is out
of range is infinite or zero by rounding as well.
-/

namespace CilSsa.Numeric

section Fractions

variable {num den : Nat}

theorem scaleDown_den_pos (num : Nat) (positive : 0 < den) (exponent : Int) :
    0 < (scaleDown num den exponent).2 := by
  unfold scaleDown
  split
  · exact Nat.mul_pos positive (Nat.pow_pos (by decide))
  · exact positive

/-- Scaling divides the value by a power of two. -/
theorem scaleDown_value (num den : Nat) (exponent : Int) :
    ((scaleDown num den exponent).1 : ℚ) / (scaleDown num den exponent).2
      = (num : ℚ) / den / 2 ^ exponent := by
  unfold scaleDown
  split
  · rename_i nonneg
    obtain ⟨k, rfl⟩ := Int.eq_ofNat_of_zero_le nonneg
    simp [div_div]
  · rename_i negative
    obtain ⟨k, hk⟩ := Int.eq_ofNat_of_zero_le (show 0 ≤ -exponent by omega)
    obtain rfl : exponent = -(k : Int) := by omega
    simp
    ring

theorem scaleDown_mul (k num den : Nat) (exponent : Int) :
    scaleDown (k * num) (k * den) exponent
      = (k * (scaleDown num den exponent).1, k * (scaleDown num den exponent).2) := by
  unfold scaleDown
  split <;> simp [Nat.mul_assoc]

theorem roundDivEven_mul {k : Nat} (positive : 0 < k) (num den : Nat) :
    roundDivEven (k * num) (k * den) = roundDivEven num den := by
  have twice : 2 * (k * num % (k * den)) = k * (2 * (num % den)) := by
    rw [Nat.mul_mod_mul_left, Nat.mul_left_comm]
  simp only [roundDivEven, twice, Nat.mul_div_mul_left _ _ positive,
    Nat.mul_lt_mul_left positive]

/-- A whole number is the integer nearest to itself. -/
theorem roundDivEven_whole (positive : 0 < den) (k : Nat) : roundDivEven (k * den) den = k := by
  simp [roundDivEven, positive]

theorem roundDivEven_le {bound : Nat} (h : num < den * bound) : roundDivEven num den ≤ bound := by
  have below : num / den < bound := Nat.div_lt_of_lt_mul h
  unfold roundDivEven
  dsimp only
  split
  · omega
  · split
    · omega
    · split <;> omega

end Fractions

section LastPlace

variable {num den : Nat}

/-- The sizes of a numerator and a denominator in bits give the value up to a factor of two. -/
theorem value_of_bits (hn : num ≠ 0) (hd : den ≠ 0) :
    (2 : ℚ) ^ ((num.log2 : Int) - den.log2 - 1) < (num : ℚ) / den
      ∧ (num : ℚ) / den < 2 ^ ((num.log2 : Int) - den.log2 + 1) := by
  have n₁ : (2 : ℚ) ^ num.log2 ≤ num := by exact_mod_cast Nat.log2_self_le hn
  have n₂ : (num : ℚ) < 2 ^ (num.log2 + 1) := by exact_mod_cast Nat.lt_log2_self
  have d₁ : (2 : ℚ) ^ den.log2 ≤ den := by exact_mod_cast Nat.log2_self_le hd
  have d₂ : (den : ℚ) < 2 ^ (den.log2 + 1) := by exact_mod_cast Nat.lt_log2_self
  have positive : (0 : ℚ) < den := by positivity
  constructor
  · rw [lt_div_iff₀ positive]
    calc (2 : ℚ) ^ ((num.log2 : Int) - den.log2 - 1) * den
        < 2 ^ ((num.log2 : Int) - den.log2 - 1) * 2 ^ (den.log2 + 1) := by gcongr
      _ = 2 ^ num.log2 := by
          rw [← zpow_natCast, ← zpow_natCast, ← zpow_add₀ two_ne_zero]
          congr 1
          push_cast
          ring
      _ ≤ num := n₁
  · rw [div_lt_iff₀ positive]
    calc (num : ℚ) < 2 ^ (num.log2 + 1) := n₂
      _ = 2 ^ ((num.log2 : Int) - den.log2 + 1) * 2 ^ den.log2 := by
          rw [← zpow_natCast, ← zpow_natCast, ← zpow_add₀ two_ne_zero]
          congr 1
          push_cast
          ring
      _ ≤ 2 ^ ((num.log2 : Int) - den.log2 + 1) * den := by gcongr

/-- The logarithm of two with the power as a power of the rational two. -/
theorem log_lt_iff {r : ℚ} (positive : 0 < r) (x : Int) : Int.log 2 r < x ↔ r < 2 ^ x := by
  simpa using (Int.lt_zpow_iff_log_lt (b := 2) (x := x) (by decide) positive).symm

/-- A scaled fraction has at most `bits` bits before the point if the value is small enough. -/
theorem scaleDown_lt_iff (num : Nat) (hd : den ≠ 0) (exponent : Int) (bits : Nat) :
    (scaleDown num den exponent).1 < (scaleDown num den exponent).2 * Nat.pow 2 bits
      ↔ (num : ℚ) / den < 2 ^ (exponent + bits) := by
  have room : (0 : ℚ) < (scaleDown num den exponent).2 := by
    exact_mod_cast scaleDown_den_pos num (Nat.pos_of_ne_zero hd) exponent
  have unit : (0 : ℚ) < 2 ^ exponent := by positivity
  rw [zpow_add₀ two_ne_zero, ← div_lt_iff₀' unit, ← scaleDown_value, div_lt_iff₀' room,
    zpow_natCast]
  exact_mod_cast Iff.rfl

theorem BinaryFormat.lastPlace_eq (f : BinaryFormat) (hn : num ≠ 0) (hd : den ≠ 0) :
    f.lastPlace num den
      = max f.minExponent (Int.log 2 ((num : ℚ) / den) + 1 - f.precision) := by
  have positive : (0 : ℚ) < (num : ℚ) / den := by positivity
  obtain ⟨above, below⟩ := value_of_bits hn hd
  have lower := (log_lt_iff positive ((num.log2 : Int) - den.log2 - 1)).not.2 above.le.not_gt
  have upper := (log_lt_iff positive _).2 below
  have fits := scaleDown_lt_iff num hd
    ((num.log2 : Int) - den.log2 - f.precision) f.precision
  rw [sub_add_cancel, ← log_lt_iff positive] at fits
  unfold BinaryFormat.lastPlace
  dsimp only
  congr 1
  split <;> omega

end LastPlace

namespace Binary64

/-- The form of every number that is built: as many bits as the 64-bit format keeps. -/
def IsCanonical : Binary64 → Prop
  | .finite _ mantissa exponent =>
      mantissa < 2 ^ 53 ∧ -1074 ≤ exponent ∧ exponent ≤ 971
        ∧ (2 ^ 52 ≤ mantissa ∨ exponent = -1074)
  | _ => True

variable {negative : Bool} {mantissa : Nat} {exponent : Int}

theorem canonical_zero : canonical negative 0 exponent = zero negative := by simp [canonical]

theorem canonical_eq (some : mantissa ≠ 0) :
    canonical negative mantissa exponent
      = .finite negative
          (mantissa * 2 ^ min (52 - mantissa.log2) (exponent + 1074).toNat)
          (exponent - (min (52 - mantissa.log2) (exponent + 1074).toNat : Nat)) := by
  rw [canonical, if_neg some]
  rfl

/-- The canonical form stands for the same value. -/
theorem exists_canonical (negative : Bool) (mantissa : Nat) (exponent : Int) :
    ∃ (m : Nat) (e : Int), canonical negative mantissa exponent = .finite negative m e
      ∧ (m : ℚ) * 2 ^ e = mantissa * 2 ^ exponent := by
  by_cases none : mantissa = 0
  · exact ⟨0, -1074, by rw [none, canonical_zero]; rfl, by simp [none]⟩
  · refine ⟨_, _, canonical_eq none, ?_⟩
    rw [zpow_sub₀ two_ne_zero, zpow_natCast]
    push_cast
    field_simp

/-- What the bits of a mantissa can be shifted by without loss makes no difference. -/
theorem canonical_shift {shift : Nat} (fits : mantissa * 2 ^ shift < 2 ^ 53)
    (low : -1074 ≤ exponent - shift) :
    canonical negative (mantissa * 2 ^ shift) (exponent - shift)
      = canonical negative mantissa exponent := by
  by_cases none : mantissa = 0
  · simp only [none, Nat.zero_mul, canonical_zero]
  have log : (mantissa * 2 ^ shift).log2 = mantissa.log2 + shift := by
    rw [Nat.log2_eq_iff (by positivity), Nat.pow_add, Nat.add_right_comm, Nat.pow_add]
    exact ⟨Nat.mul_le_mul_right _ (Nat.log2_self_le none),
      Nat.mul_lt_mul_of_pos_right Nat.lt_log2_self (by positivity)⟩
  have room : mantissa.log2 + shift < 53 := by
    rwa [← log, Nat.log2_lt (by positivity)]
  have split : min (52 - mantissa.log2) (exponent + 1074).toNat
      = shift + min (52 - (mantissa.log2 + shift)) (exponent - shift + 1074).toNat := by omega
  rw [canonical_eq none, canonical_eq (by positivity), log, split, Nat.mul_assoc, ← Nat.pow_add]
  congr 1
  omega

/-- A canonical number is its own canonical form. -/
theorem canonical_self (h : IsCanonical (.finite negative mantissa exponent)) :
    canonical negative mantissa exponent = .finite negative mantissa exponent := by
  obtain ⟨-, low, -, full⟩ := h
  by_cases none : mantissa = 0
  · have last : exponent = -1074 := by omega
    rw [none, last, canonical_zero]
    rfl
  · have still : min (52 - mantissa.log2) (exponent + 1074).toNat = 0 := by
      rcases full with full | last
      · have := (Nat.le_log2 none).2 full
        omega
      · omega
    rw [canonical_eq none, still]
    simp

theorem isCanonical_canonical (fits : mantissa < 2 ^ 53) (low : -1074 ≤ exponent)
    (high : exponent ≤ 971) : (canonical negative mantissa exponent).IsCanonical := by
  by_cases none : mantissa = 0
  · rw [none, canonical_zero]
    exact ⟨by decide, by decide, by decide, .inr rfl⟩
  have room : mantissa.log2 < 53 := (Nat.log2_lt none).2 fits
  obtain ⟨shift, hshift⟩ : ∃ shift, shift = min (52 - mantissa.log2) (exponent + 1074).toNat :=
    ⟨_, rfl⟩
  rw [canonical_eq none, ← hshift]
  refine ⟨?_, by omega, by omega, ?_⟩
  · calc mantissa * 2 ^ shift < 2 ^ (mantissa.log2 + 1) * 2 ^ shift :=
          Nat.mul_lt_mul_of_pos_right Nat.lt_log2_self (by positivity)
      _ = 2 ^ (mantissa.log2 + 1 + shift) := (Nat.pow_add ..).symm
      _ ≤ 2 ^ 53 := Nat.pow_le_pow_right (by decide) (by omega)
  · by_cases last : exponent - shift = -1074
    · exact .inr last
    · refine .inl ?_
      calc 2 ^ 52 = 2 ^ mantissa.log2 * 2 ^ shift := by
            rw [← Nat.pow_add]
            congr 1
            omega
        _ ≤ mantissa * 2 ^ shift := Nat.mul_le_mul_right _ (Nat.log2_self_le none)

end Binary64

namespace BinaryFormat

/-- A format whose numbers are numbers of the 64-bit format. -/
structure Narrow (f : BinaryFormat) : Prop where
  some_bits : 0 < f.precision
  bits : f.precision ≤ 53
  low : -1074 ≤ f.minExponent
  places : f.minExponent ≤ f.maxExponent
  high : f.maxExponent ≤ 971

theorem narrow_double : double.Narrow := ⟨by decide, by decide, by decide, by decide, by decide⟩

theorem narrow_single : single.Narrow := ⟨by decide, by decide, by decide, by decide, by decide⟩

variable {f : BinaryFormat} {negative : Bool} {num den : Nat}

/-- The mantissa of a fraction on the last place of the format. -/
def mantissaOf (f : BinaryFormat) (num den : Nat) : Nat :=
  roundDivEven (scaleDown num den (f.lastPlace num den)).1
    (scaleDown num den (f.lastPlace num den)).2

theorem round_zero : f.round negative 0 den = Binary64.zero negative := by simp [round]

/-- Rounding unless the last bit carries over into one more than there are. -/
theorem round_eq (hn : num ≠ 0) (h : f.mantissaOf num den ≠ 2 ^ f.precision) :
    f.round negative num den =
      if f.maxExponent < f.lastPlace num den then .infinite negative
      else .canonical negative (f.mantissaOf num den) (f.lastPlace num den) := by
  unfold mantissaOf at h ⊢
  simp only [round, if_neg hn, Nat.pow_eq, if_neg h]

/-- Rounding if the last bit carries over. -/
theorem round_eq_of_carry (hn : num ≠ 0) (h : f.mantissaOf num den = 2 ^ f.precision) :
    f.round negative num den =
      if f.maxExponent < f.lastPlace num den + 1 then .infinite negative
      else .canonical negative (2 ^ (f.precision - 1)) (f.lastPlace num den + 1) := by
  unfold mantissaOf at h
  simp only [round, if_neg hn, Nat.pow_eq, if_pos h]

theorem minExponent_le_lastPlace (f : BinaryFormat) (num den : Nat) :
    f.minExponent ≤ f.lastPlace num den := le_max_left ..

/-- Before the last place a fraction has no more bits than the format. -/
theorem lt_lastPlace (f : BinaryFormat) (hn : num ≠ 0) (hd : den ≠ 0) :
    (num : ℚ) / den < 2 ^ (f.lastPlace num den + f.precision) := by
  rw [← log_lt_iff (by positivity), lastPlace_eq f hn hd]
  omega

theorem mantissaOf_le (f : BinaryFormat) (hn : num ≠ 0) (hd : den ≠ 0) :
    f.mantissaOf num den ≤ 2 ^ f.precision :=
  roundDivEven_le ((scaleDown_lt_iff num hd _ _).2 (f.lt_lastPlace hn hd))

/-- Rounding depends on the value alone. -/
theorem round_congr {num' den' : Nat} (hd : den ≠ 0) (hd' : den' ≠ 0)
    (value : (num : ℚ) / den = num' / den') :
    f.round negative num den = f.round negative num' den' := by
  have widened {n d k : Nat} (hd : d ≠ 0) (hk : k ≠ 0) :
      f.round negative (k * n) (k * d) = f.round negative n d := by
    by_cases hn : n = 0
    · simp [hn, round_zero]
    have place : f.lastPlace (k * n) (k * d) = f.lastPlace n d := by
      rw [lastPlace_eq f (by positivity) (by positivity), lastPlace_eq f hn hd]
      push_cast
      rw [mul_div_mul_left _ _ (by positivity)]
    simp only [round, if_neg hn, if_neg (Nat.mul_ne_zero hk hn), place, scaleDown_mul,
      roundDivEven_mul (Nat.pos_of_ne_zero hk)]
  have crossed : den' * num = den * num' := by
    rw [div_eq_div_iff (by positivity) (by positivity)] at value
    rw [mul_comm, mul_comm den]
    exact_mod_cast value
  calc f.round negative num den
      = f.round negative (den' * num) (den' * den) := (widened hd hd').symm
    _ = f.round negative (den * num') (den * den') := by rw [crossed, Nat.mul_comm den']
    _ = f.round negative num' den' := widened hd' hd

/-- A value beyond the format is rounded to infinity. -/
theorem round_eq_infinite (hn : num ≠ 0) (hd : den ≠ 0)
    (large : (2 : ℚ) ^ (f.maxExponent + f.precision) ≤ num / den) :
    f.round negative num den = .infinite negative := by
  have place : f.maxExponent < f.lastPlace num den := by
    have log := (log_lt_iff (by positivity) _).not.2 large.not_gt
    rw [lastPlace_eq f hn hd]
    omega
  by_cases carry : f.mantissaOf num den = 2 ^ f.precision
  · rw [round_eq_of_carry hn carry, if_pos (by omega)]
  · rw [round_eq hn carry, if_pos place]

/-- A value that is less than half of the last place of the format is rounded to zero. -/
theorem round_eq_zero (narrow : f.Narrow) (hd : den ≠ 0)
    (small : (num : ℚ) / den < 2 ^ (f.minExponent - 1)) :
    f.round negative num den = .zero negative := by
  by_cases hn : num = 0
  · rw [hn, round_zero]
  have place : f.lastPlace num den = f.minExponent := by
    have := narrow.some_bits
    rw [← log_lt_iff (by positivity)] at small
    rw [lastPlace_eq f hn hd]
    omega
  have room := scaleDown_den_pos num (Nat.pos_of_ne_zero hd) f.minExponent
  have half : 2 * (scaleDown num den f.minExponent).1 < (scaleDown num den f.minExponent).2 := by
    have scaled := scaleDown_value num den f.minExponent
    rw [zpow_sub_one₀ two_ne_zero, ← div_lt_iff₀' (by positivity), ← scaled,
      div_lt_iff₀ (by positivity)] at small
    rw [← Nat.cast_lt (α := ℚ)]
    push_cast
    linarith
  have none : f.mantissaOf num den = 0 := by
    rw [mantissaOf, place, roundDivEven, Nat.div_eq_of_lt (by omega), Nat.mod_eq_of_lt (by omega)]
    exact if_pos half
  rw [round_eq hn (by rw [none]; positivity), if_neg (by have := narrow.places; omega), none,
    Binary64.canonical_zero]

/-- Rounding gives infinity or a number of the format. -/
theorem round_cases (narrow : f.Narrow) (negative : Bool) (num : Nat) (hd : den ≠ 0) :
    f.round negative num den = .infinite negative
      ∨ ∃ mantissa exponent, f.round negative num den = .canonical negative mantissa exponent
        ∧ mantissa < 2 ^ f.precision ∧ f.minExponent ≤ exponent ∧ exponent ≤ f.maxExponent := by
  by_cases hn : num = 0
  · refine .inr ⟨0, f.minExponent, ?_, by positivity, le_rfl, narrow.places⟩
    rw [hn, round_zero, Binary64.canonical_zero]
  have low := f.minExponent_le_lastPlace num den
  by_cases carry : f.mantissaOf num den = 2 ^ f.precision
  · rw [round_eq_of_carry hn carry]
    split
    · exact .inl rfl
    · have := narrow.some_bits
      exact .inr ⟨_, _, rfl, Nat.pow_lt_pow_right (by decide) (by omega), by omega, by omega⟩
  · rw [round_eq hn carry]
    split
    · exact .inl rfl
    · have := f.mantissaOf_le hn hd
      exact .inr ⟨_, _, rfl, by omega, low, by omega⟩

theorem isCanonical_round (narrow : f.Narrow) (hd : den ≠ 0) :
    (f.round negative num den).IsCanonical := by
  obtain infinite | ⟨mantissa, exponent, eq, fits, low, high⟩ :=
    round_cases narrow negative num hd
  · rw [infinite]
    trivial
  · rw [eq]
    exact Binary64.isCanonical_canonical
      (fits.trans_le (Nat.pow_le_pow_right (by decide) narrow.bits))
      (narrow.low.trans low) (high.trans narrow.high)

/-- Rounding a value that the format has gives the number with that value. -/
theorem round_exact (narrow : f.Narrow) (hd : den ≠ 0) {mantissa : Nat} {exponent : Int}
    (value : (num : ℚ) / den = mantissa * 2 ^ exponent) (fits : mantissa < 2 ^ f.precision)
    (low : f.minExponent ≤ exponent) (high : exponent ≤ f.maxExponent) :
    f.round negative num den = .canonical negative mantissa exponent := by
  by_cases none : mantissa = 0
  · have hn : num = 0 := by simpa [none, hd] using value
    rw [hn, none, round_zero, Binary64.canonical_zero]
  have hn : num ≠ 0 := by
    rintro rfl
    have : (mantissa : ℚ) * 2 ^ exponent ≠ 0 := by positivity
    simp [← value] at this
  have positive : (0 : ℚ) < (num : ℚ) / den := by positivity
  have place : f.lastPlace num den ≤ exponent := by
    have small : (num : ℚ) / den < 2 ^ (exponent + f.precision) := by
      rw [value, zpow_add₀ two_ne_zero, mul_comm, zpow_natCast]
      have : (mantissa : ℚ) < 2 ^ f.precision := by exact_mod_cast fits
      gcongr
    rw [← log_lt_iff positive] at small
    rw [lastPlace_eq f hn hd]
    omega
  obtain ⟨shift, hshift⟩ := Int.eq_ofNat_of_zero_le (sub_nonneg.2 place)
  have scaled : (num : ℚ) / den / 2 ^ f.lastPlace num den = (mantissa * 2 ^ shift : Nat) := by
    rw [value, mul_div_assoc, ← zpow_sub₀ two_ne_zero, hshift, zpow_natCast]
    push_cast
    rfl
  have whole : f.mantissaOf num den = mantissa * 2 ^ shift := by
    have room := scaleDown_den_pos num (Nat.pos_of_ne_zero hd) (f.lastPlace num den)
    rw [← scaleDown_value, div_eq_iff (by positivity)] at scaled
    rw [mantissaOf, show (scaleDown num den (f.lastPlace num den)).1
      = mantissa * 2 ^ shift * (scaleDown num den (f.lastPlace num den)).2 from by
        exact_mod_cast scaled, roundDivEven_whole room]
  have below : mantissa * 2 ^ shift < 2 ^ f.precision := by
    have := f.lt_lastPlace hn hd
    rw [zpow_add₀ two_ne_zero, ← div_lt_iff₀' (by positivity), scaled, zpow_natCast] at this
    exact_mod_cast this
  have shifted : f.lastPlace num den = exponent - shift := by omega
  rw [round_eq hn (by omega), if_neg (by omega), whole, shifted]
  have := narrow.low.trans (f.minExponent_le_lastPlace num den)
  exact Binary64.canonical_shift
    (below.trans_le (Nat.pow_le_pow_right (by decide) narrow.bits)) (by omega)

/-- Digits are below a power of ten that a third of their bits gives. -/
theorem digits_lt (digits : Nat) : digits < 10 ^ (digits.log2 / 3 + 1) :=
  calc digits < 2 ^ (digits.log2 + 1) := Nat.lt_log2_self
    _ ≤ 2 ^ (3 * (digits.log2 / 3 + 1)) := Nat.pow_le_pow_right (by decide) (by omega)
    _ = 8 ^ (digits.log2 / 3 + 1) := by rw [Nat.pow_mul]
    _ ≤ 10 ^ (digits.log2 / 3 + 1) := Nat.pow_le_pow_left (by decide) _

theorem two_zpow_le (k : Nat) : (2 : ℚ) ^ (3 * (k : Int)) ≤ 10 ^ (k : Int) := by
  rw [zpow_mul, zpow_natCast, zpow_natCast]
  gcongr
  norm_num

/-- A decimal is rounded as any fraction of its value: what is cut off as too large or too small is
infinite or zero by rounding as well. -/
theorem ofDecimal_eq_round (narrow : f.Narrow) (hd : den ≠ 0) {digits : Nat} {exponent : Int}
    (value : (num : ℚ) / den = digits * 10 ^ exponent) :
    f.ofDecimal negative digits exponent = f.round negative num den := by
  have := narrow.bits
  have := narrow.low
  have := narrow.high
  have range : decimalRange = 400 := rfl
  unfold ofDecimal
  split_ifs with none large small whole
  · have hn : num = 0 := by simpa [none, hd] using value
    rw [hn, round_zero]
  · have hn : num ≠ 0 := by
      rintro rfl
      have : (digits : ℚ) * 10 ^ exponent ≠ 0 := by positivity
      simp [← value] at this
    refine (round_eq_infinite hn hd ?_).symm
    calc (2 : ℚ) ^ (f.maxExponent + f.precision) ≤ 2 ^ (3 * (decimalRange : Int)) :=
          zpow_le_zpow_right₀ (by norm_num) (by omega)
      _ ≤ 10 ^ (decimalRange : Int) := two_zpow_le _
      _ ≤ 10 ^ exponent := zpow_le_zpow_right₀ (by norm_num) (by omega)
      _ ≤ digits * 10 ^ exponent :=
          le_mul_of_one_le_left (by positivity) (by exact_mod_cast Nat.pos_of_ne_zero none)
      _ = num / den := value.symm
  · refine (round_eq_zero narrow hd ?_).symm
    calc (num : ℚ) / den = digits * 10 ^ exponent := value
      _ < 10 ^ (digits.log2 / 3 + 1) * 10 ^ exponent := by
          have : (digits : ℚ) < 10 ^ (digits.log2 / 3 + 1) := by exact_mod_cast digits_lt digits
          gcongr
      _ = 10 ^ ((digits.log2 / 3 + 1 : Nat) + exponent) := by
          rw [zpow_add₀ (by norm_num), zpow_natCast]
      _ ≤ 10 ^ (-(decimalRange : Int)) := zpow_le_zpow_right₀ (by norm_num) (by omega)
      _ ≤ 2 ^ (-(3 * (decimalRange : Int))) := by
          rw [zpow_neg, zpow_neg]
          exact inv_anti₀ (by positivity) (two_zpow_le _)
      _ ≤ 2 ^ (f.minExponent - 1) := zpow_le_zpow_right₀ (by norm_num) (by omega)
  · obtain ⟨k, rfl⟩ := Int.eq_ofNat_of_zero_le whole
    refine round_congr one_ne_zero hd ?_
    rw [value]
    simp
  · obtain ⟨k, hk⟩ := Int.eq_ofNat_of_zero_le (show 0 ≤ -exponent by omega)
    obtain rfl : exponent = -(k : Int) := by omega
    refine round_congr (by simp) hd ?_
    rw [value]
    simp [div_eq_mul_inv]

end BinaryFormat

namespace Binary64

/-- The same number with the given sign. -/
def withSign (negative : Bool) : Binary64 → Binary64
  | .nan => .nan
  | .infinite _ => .infinite negative
  | .finite _ mantissa exponent => .finite negative mantissa exponent

theorem withSign_canonical (negative other : Bool) (mantissa : Nat) (exponent : Int) :
    (canonical other mantissa exponent).withSign negative
      = canonical negative mantissa exponent := by
  unfold canonical
  split <;> rfl

end Binary64

namespace BinaryFormat

variable (f : BinaryFormat) (negative other : Bool)

/-- The sign takes no part in rounding. -/
theorem withSign_round (num den : Nat) :
    (f.round other num den).withSign negative = f.round negative num den := by
  simp only [round]
  split_ifs <;> first | rfl | exact Binary64.withSign_canonical ..

theorem withSign_ofDecimal (digits : Nat) (exponent : Int) :
    (f.ofDecimal other digits exponent).withSign negative
      = f.ofDecimal negative digits exponent := by
  unfold ofDecimal
  split_ifs <;> first | rfl | exact withSign_round ..

end BinaryFormat

namespace Binary64

/-- A finite number is rounded to the 32-bit format as a fraction of its value. -/
theorem exists_toSingle (negative : Bool) (mantissa : Nat) (exponent : Int) :
    ∃ num den : Nat, den ≠ 0 ∧ (num : ℚ) / den = mantissa * 2 ^ exponent
      ∧ (finite negative mantissa exponent).toSingle
        = BinaryFormat.single.round negative num den := by
  by_cases whole : 0 ≤ exponent
  · obtain ⟨k, rfl⟩ := Int.eq_ofNat_of_zero_le whole
    exact ⟨mantissa * 2 ^ k, 1, one_ne_zero, by simp, by simp [toSingle]⟩
  · obtain ⟨k, hk⟩ := Int.eq_ofNat_of_zero_le (show 0 ≤ -exponent by omega)
    obtain rfl : exponent = -(k : Int) := by omega
    exact ⟨mantissa, 2 ^ k, by positivity, by simp [div_eq_mul_inv], by
      rw [toSingle, if_neg whole, hk]
      rfl⟩

/-- A number of the 32-bit format is its own nearest number of that format. -/
theorem toSingle_canonical {negative : Bool} {mantissa : Nat} {exponent : Int}
    (fits : mantissa < 2 ^ 24) (low : -149 ≤ exponent) (high : exponent ≤ 104) :
    (canonical negative mantissa exponent).toSingle = canonical negative mantissa exponent := by
  obtain ⟨m, e, eq, same⟩ := exists_canonical negative mantissa exponent
  obtain ⟨num, den, hd, value, rounded⟩ := exists_toSingle negative m e
  rw [eq, rounded, ← eq]
  exact BinaryFormat.round_exact BinaryFormat.narrow_single hd (value.trans same) fits low high

/-- Rounding to the 32-bit format gives numbers of that format. -/
theorem toSingle_round {negative : Bool} {num den : Nat} (hd : den ≠ 0) :
    (BinaryFormat.single.round negative num den).toSingle
      = BinaryFormat.single.round negative num den := by
  obtain infinite | ⟨mantissa, exponent, eq, fits, low, high⟩ :=
    BinaryFormat.round_cases BinaryFormat.narrow_single negative num hd
  · rw [infinite]
    rfl
  · rw [eq]
    exact toSingle_canonical fits low high

theorem toSingle_toSingle (x : Binary64) : x.toSingle.toSingle = x.toSingle := by
  rcases x with _ | _ | ⟨negative, mantissa, exponent⟩
  · rfl
  · rfl
  · obtain ⟨num, den, hd, -, rounded⟩ := exists_toSingle negative mantissa exponent
    rw [rounded, toSingle_round hd]

/-- The numbers of the 32-bit format are canonical. -/
theorem isCanonical_toSingle (x : Binary64) : x.toSingle.IsCanonical := by
  rcases x with _ | _ | ⟨negative, mantissa, exponent⟩
  · trivial
  · trivial
  · obtain ⟨num, den, hd, -, rounded⟩ := exists_toSingle negative mantissa exponent
    rw [rounded]
    exact BinaryFormat.isCanonical_round BinaryFormat.narrow_single hd

end Binary64

end CilSsa.Numeric
