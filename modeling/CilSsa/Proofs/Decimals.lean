import CilSsa.Json.Decoder
import CilSsa.Proofs.Rounding

/-!
Floating-point numbers as documents.

What a decimal reads back as depends on its value alone.  Every grid point that the search for the
shortest decimal stops at reads back, the exact expansion does too, and dropping zeros keeps the
value.  So a finite number is decoded from the document that it is encoded as.
-/

namespace CilSsa.Numeric

/-- A scaled number is a fraction. -/
theorem exists_fraction (base digits : Nat) (exponent : Int) (positive : base ≠ 0) :
    ∃ num den : Nat, den ≠ 0 ∧ (num : ℚ) / den = digits * (base : ℚ) ^ exponent := by
  rcases Int.le_total 0 exponent with whole | negative
  · obtain ⟨k, rfl⟩ := Int.eq_ofNat_of_zero_le whole
    exact ⟨digits * base ^ k, 1, one_ne_zero, by simp⟩
  · obtain ⟨k, hk⟩ := Int.eq_ofNat_of_zero_le (Int.neg_nonneg_of_nonpos negative)
    obtain rfl : exponent = -(k : Int) := by omega
    exact ⟨digits, base ^ k, by positivity, by simp [div_eq_mul_inv]⟩

theorem BinaryFormat.isCanonical_ofDecimal {f : BinaryFormat} (narrow : f.Narrow)
    (negative : Bool) (digits : Nat) (exponent : Int) :
    (f.ofDecimal negative digits exponent).IsCanonical := by
  obtain ⟨num, den, hd, value⟩ := exists_fraction 10 digits exponent (by decide)
  rw [ofDecimal_eq_round narrow hd (by exact_mod_cast value)]
  exact isCanonical_round narrow hd

namespace Decimal

def value (d : Decimal) : ℚ := d.digits * 10 ^ d.exponent

variable {mantissa : Nat} {exponent : Int}

theorem readsAs_iff {d : Decimal} {num den : Nat} (hd : den ≠ 0) (h : (num : ℚ) / den = d.value) :
    d.readsAs mantissa exponent
      ↔ BinaryFormat.double.round false num den = .finite false mantissa exponent := by
  rw [readsAs, BinaryFormat.ofDecimal_eq_round BinaryFormat.narrow_double hd h, decide_eq_true_iff]

theorem readsAs_congr {d d' : Decimal} (h : d.value = d'.value) :
    d.readsAs mantissa exponent ↔ d'.readsAs mantissa exponent := by
  obtain ⟨num, den, hd, value⟩ := exists_fraction 10 d.digits d.exponent (by decide)
  have value : (num : ℚ) / den = d.value := by exact_mod_cast value
  rw [readsAs_iff hd value, readsAs_iff hd (value.trans h)]

theorem trimWith_value (fuel : Nat) (d : Decimal) : (trimWith fuel d).value = d.value := by
  induction fuel generalizing d with
  | zero => rfl
  | succ fuel ih =>
    unfold trimWith
    split
    · rename_i round
      rw [ih]
      obtain ⟨q, hq⟩ := Nat.dvd_of_mod_eq_zero round.2
      simp only [value, hq, Nat.mul_div_cancel_left q (show 0 < 10 by decide)]
      rw [zpow_add_one₀ (by norm_num)]
      push_cast
      ring
    · rfl

/-- The exact expansion has the value of the number. -/
theorem exact_value (mantissa : Nat) (exponent : Int) :
    (exact mantissa exponent).value = mantissa * 2 ^ exponent := by
  unfold exact
  split
  · rename_i whole
    obtain ⟨k, rfl⟩ := Int.eq_ofNat_of_zero_le whole
    simp [value]
  · obtain ⟨k, hk⟩ := Int.eq_ofNat_of_zero_le (show 0 ≤ -exponent by omega)
    obtain rfl : exponent = -(k : Int) := by omega
    have ten : (10 : ℚ) ^ k = 2 ^ k * 5 ^ k := by rw [← mul_pow]; norm_num
    simp only [value, hk, Int.toNat_natCast, Nat.pow_eq, zpow_neg, zpow_natCast, ten]
    push_cast
    field_simp

variable (canonical : Binary64.IsCanonical (.finite false mantissa exponent))
include canonical

theorem readsAs_exact : (exact mantissa exponent).readsAs mantissa exponent := by
  obtain ⟨num, den, hd, value⟩ := exists_fraction 2 mantissa exponent (by decide)
  have value : (num : ℚ) / den = mantissa * 2 ^ exponent := by exact_mod_cast value
  obtain ⟨fits, low, high, -⟩ := id canonical
  rw [readsAs_iff hd (value.trans (exact_value ..).symm),
    BinaryFormat.round_exact BinaryFormat.narrow_double hd value fits low high,
    Binary64.canonical_self canonical]

omit canonical in
/-- A grid point stands for the number only if it reads back. -/
theorem readsAs_of_onGrid {num den : Nat} {place : Int} {d : Decimal}
    (h : onGrid? mantissa exponent num den place = some d) : d.readsAs mantissa exponent := by
  unfold onGrid? at h
  dsimp only at h
  split at h <;> rename_i below above
  · cases h
    split
    · exact below
    · exact above
  · cases h
    exact below
  · cases h
    exact above
  · cases h

theorem readsAs_search (num den fuel : Nat) (place : Int) :
    (search mantissa exponent num den fuel place).readsAs mantissa exponent := by
  induction fuel generalizing place with
  | zero => exact readsAs_exact canonical
  | succ fuel ih =>
    unfold search
    split
    · rename_i hit
      exact readsAs_of_onGrid hit
    · exact ih _

/-- The shortest decimal of a number reads back as the number. -/
theorem readsAs_shortest : (shortest mantissa exponent).readsAs mantissa exponent := by
  unfold shortest
  split
  · rename_i none
    obtain ⟨-, -, -, full⟩ := canonical
    have last : exponent = -1074 := by omega
    rw [none, last]
    rfl
  · exact (readsAs_congr (trimWith_value _ _)).2 (readsAs_search canonical _ _ _ _)

end Decimal

end CilSsa.Numeric

namespace CilSsa.Json.Decoder

open CilSsa.Numeric

variable {levels : Nat} {x : Binary64}

theorem finite_eq_some_iff {y : Binary64} : finite? y = some x ↔ y = x ∧ x.isFinite := by
  unfold finite?
  split <;> grind

/-- A number of the 64-bit format is decoded from the document that it is encoded as. -/
theorem double_float (levels : Nat) (finite : x.isFinite) (canonical : x.IsCanonical) :
    double levels (Document.float x) = some x := by
  rcases x with _ | _ | ⟨negative, mantissa, exponent⟩
  · cases finite
  · cases finite
  · have reads : (Decimal.shortest mantissa exponent).readsAs mantissa exponent :=
      Decimal.readsAs_shortest canonical
    rw [Decimal.readsAs, decide_eq_true_iff] at reads
    change finite? _ = _
    rw [finite_eq_some_iff, ← BinaryFormat.withSign_ofDecimal _ negative false, reads]
    exact ⟨rfl, rfl⟩

/-- A number of the 32-bit format is decoded from the document that it is encoded as. -/
theorem single_float (levels : Nat) (finite : x.isFinite) (narrow : x.toSingle = x) :
    single levels (Document.float x) = some x := by
  have wide := double_float levels finite (narrow ▸ Binary64.isCanonical_toSingle x)
  rcases x with _ | _ | ⟨negative, mantissa, exponent⟩
  · cases finite
  · cases finite
  · have by_way_of_double : single levels (Document.float (.finite negative mantissa exponent))
        = (double levels (Document.float (.finite negative mantissa exponent))).map
          Binary64.toSingle := rfl
    rw [by_way_of_double, wide, Option.map_some, narrow]

/-- What is decoded as a number of the 64-bit format is one. -/
theorem isCanonical_of_double {doc : Document} (h : double levels doc = some x) :
    x.isFinite ∧ x.IsCanonical := by
  unfold double at h
  split at h
  · obtain ⟨rfl, finite⟩ := finite_eq_some_iff.1 h
    exact ⟨finite, BinaryFormat.isCanonical_ofDecimal BinaryFormat.narrow_double _ _ _⟩
  · obtain ⟨rfl, finite⟩ := finite_eq_some_iff.1 h
    exact ⟨finite, BinaryFormat.isCanonical_ofDecimal BinaryFormat.narrow_double _ _ _⟩
  · cases h

/-- What is decoded as a number of the 32-bit format is one. -/
theorem toSingle_of_single {doc : Document} (h : single levels doc = some x) : x.toSingle = x := by
  have by_way_of_double {doc : Document}
      (h : (double levels doc).map Binary64.toSingle = some x) : x.toSingle = x := by
    obtain ⟨y, -, rfl⟩ := Option.map_eq_some_iff.1 h
    exact y.toSingle_toSingle
  unfold single at h
  split at h
  · split at h
    · cases h
      exact Binary64.toSingle_round one_ne_zero
    · exact by_way_of_double h
  · exact by_way_of_double h

end CilSsa.Json.Decoder
