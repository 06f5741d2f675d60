import Funlet.Number.Decimal
import Funlet.Number.Numeral
import Funlet.Proofs.Number.Literal
import Mathlib.Algebra.Field.Rat
import Mathlib.Algebra.GroupWithZero.Units.Basic
import Mathlib.Tactic.Ring

/-!
# Rounding and reading back

Rounding depends on a quotient only by its value, and a size of the format is the nearest to itself.
So the shortest decimal of a size is read back as that size, whichever way it is written.  Quotients
far beyond the format have no size or the size zero, which bounds the exponent of that decimal.
Written without an exponent a decimal keeps its exact value.
-/

set_option autoImplicit false

namespace Funlet

theorem power_zero (base : Nat) : power base 0 = 1 := rfl

theorem mul_power (first second exponent : Nat) :
    power (first * second) exponent = power first exponent * power second exponent :=
  Nat.mul_pow first second exponent

namespace Magnitude

theorem evenQuotient_mul_right (dividend divisor : Nat) {factor : Nat} (positive : 0 < factor) :
    evenQuotient (dividend * factor) (divisor * factor) = evenQuotient dividend divisor := by
  have quotient : dividend * factor / (divisor * factor) = dividend / divisor :=
    Nat.mul_div_mul_right dividend divisor positive
  have remainder : 2 * (dividend * factor % (divisor * factor)) =
      2 * (dividend % divisor) * factor := by
    rw [Nat.mul_mod_mul_right, Nat.mul_assoc]
  have above : divisor * factor < 2 * (dividend % divisor) * factor ↔
      divisor < 2 * (dividend % divisor) := Nat.mul_lt_mul_right positive
  have tie : 2 * (dividend % divisor) * factor = divisor * factor ↔
      2 * (dividend % divisor) = divisor := Nat.mul_left_inj positive.ne'
  simp only [evenQuotient, quotient, remainder, gt_iff_lt, above, tie]

theorem nearest_mul_right (dividend divisor : Nat) {factor : Nat} (positive : 0 < factor) :
    nearest (dividend * factor) (divisor * factor) = nearest dividend divisor := by
  have scaled : dividend * factor * power 2 1074 = dividend * power 2 1074 * factor := by ring
  have quotient : dividend * power 2 1074 * factor / (divisor * factor) =
      dividend * power 2 1074 / divisor := Nat.mul_div_mul_right _ _ positive
  have shifted (shift : Nat) :
      evenQuotient (dividend * power 2 1074 * factor) (divisor * factor * power 2 shift) =
        evenQuotient (dividend * power 2 1074) (divisor * power 2 shift) := by
    rw [show divisor * factor * power 2 shift = divisor * power 2 shift * factor by ring,
      evenQuotient_mul_right _ _ positive]
  simp only [nearest, scaled, quotient, shifted]

theorem nearest_congr {dividend divisor dividend' divisor' : Nat} (positive : 0 < divisor)
    (positive' : 0 < divisor') (same : dividend * divisor' = dividend' * divisor) :
    nearest dividend divisor = nearest dividend' divisor' := by
  rw [← nearest_mul_right dividend divisor positive',
    ← nearest_mul_right dividend' divisor' positive, same, Nat.mul_comm divisor divisor']

theorem evenQuotient_mul_self (quotient : Nat) {divisor : Nat} (positive : 0 < divisor) :
    evenQuotient (quotient * divisor) divisor = quotient := by
  simp [evenQuotient, Nat.mul_div_cancel quotient positive]
  omega

theorem excess_dvd_units (size : Magnitude) : power 2 (excessBits size.units) ∣ size.units := by
  obtain ⟨significand, shift, short, exact⟩ := size.significant
  by_cases enough : excessBits size.units ≤ shift
  · rw [exact] at enough ⊢
    exact Dvd.dvd.mul_left (Nat.pow_dvd_pow 2 enough) significand
  · have excess : excessBits size.units = size.units.log2 - 52 := rfl
    have positive : size.units ≠ 0 := by
      intro zero
      rw [excess, zero, Nat.log2_zero] at enough
      omega
    have lower : power 2 size.units.log2 ≤ size.units := Nat.log2_self_le positive
    have upper : size.units < power 2 (53 + shift) := by
      rw [exact, power_add]
      exact Nat.mul_lt_mul_of_pos_right short (power_pos (by decide) shift)
    have reaches : power 2 (53 + shift) ≤ power 2 size.units.log2 :=
      power_le_power (by decide) (by omega)
    omega

theorem nearest_eq_some {dividend divisor : Nat} (size : Magnitude)
    (exact : evenQuotient (dividend * power 2 1074)
        (divisor * power 2 (excessBits (dividend * power 2 1074 / divisor))) *
      power 2 (excessBits (dividend * power 2 1074 / divisor)) = size.units) :
    nearest dividend divisor = some size := by
  obtain ⟨units, below, significant⟩ := size
  simp only at exact
  subst exact
  simp only [nearest, dif_pos below]

/-- A size of the format is the nearest to itself. -/
theorem nearest_units (size : Magnitude) : nearest size.units (power 2 1074) = some size := by
  have positive : 0 < power 2 1074 := power_pos (by decide) 1074
  have excessPositive : 0 < power 2 (excessBits size.units) := power_pos (by decide) _
  have whole : size.units / power 2 (excessBits size.units) * power 2 (excessBits size.units) =
      size.units := Nat.div_mul_cancel size.excess_dvd_units
  have rounded : evenQuotient size.units (power 2 (excessBits size.units)) =
      size.units / power 2 (excessBits size.units) := by
    have self := evenQuotient_mul_self (size.units / power 2 (excessBits size.units)) excessPositive
    rwa [whole] at self
  apply nearest_eq_some
  rw [Nat.mul_div_cancel size.units positive, Nat.mul_comm (power 2 1074),
    evenQuotient_mul_right _ _ positive, rounded, whole]

theorem whole_mul_power {size : Magnitude} (isWhole : size.isWhole = true) :
    size.whole * power 2 1074 = size.units := by
  apply Nat.div_mul_cancel
  exact Nat.dvd_of_mod_eq_zero (by simpa [Magnitude.isWhole] using isWhole)

theorem nearest_whole {size : Magnitude} (isWhole : size.isWhole = true) :
    nearest size.whole 1 = some size := by
  have positive : 0 < power 2 1074 := power_pos (by decide) 1074
  rw [← size.nearest_units]
  exact nearest_congr Nat.one_pos positive (by rw [whole_mul_power isWhole, Nat.mul_one])

theorem nearest_natural {size : Magnitude} (isWhole : size.isWhole = true) :
    Decimal.nearest ⟨size.whole, 0⟩ = some size := by
  rw [← nearest_whole isWhole]
  simp [Decimal.nearest, power_zero]

theorem nearest_literal_whole {size : Magnitude} (isWhole : size.isWhole = true) :
    (literalDecimal (Digits.ofNat 10 size.whole) []).nearest = some size := by
  rw [← nearest_natural isWhole]
  simp [literalDecimal, Digits.value_ofNat]

theorem le_evenQuotient (dividend divisor : Nat) :
    dividend / divisor ≤ evenQuotient dividend divisor := by
  unfold evenQuotient
  simp only
  split <;> omega

/-- A rounded quotient is not below a power of two that the quotient has reached, if that power is
large enough to keep all its bits. -/
theorem power_le_rounded {dividend divisor bits : Nat} (many : 52 ≤ bits)
    (large : power 2 bits ≤ dividend / divisor) :
    power 2 bits ≤ evenQuotient dividend (divisor * power 2 (excessBits (dividend / divisor))) *
      power 2 (excessBits (dividend / divisor)) := by
  have nonzero : dividend / divisor ≠ 0 := by
    have := power_pos (by decide : 0 < 2) bits
    omega
  have reached : bits ≤ (dividend / divisor).log2 := (Nat.le_log2 nonzero).mpr large
  have excess : 52 + excessBits (dividend / divisor) = (dividend / divisor).log2 := by
    unfold excessBits
    omega
  have significand : power 2 52 ≤
      evenQuotient dividend (divisor * power 2 (excessBits (dividend / divisor))) := by
    refine Nat.le_trans ?_ (le_evenQuotient _ _)
    rw [← Nat.div_div_eq_div_mul, Nat.le_div_iff_mul_le (power_pos (by decide) _), ← power_add,
      excess]
    exact Nat.log2_self_le nonzero
  calc power 2 bits ≤ power 2 (52 + excessBits (dividend / divisor)) :=
        power_le_power (by decide) (by omega)
    _ = power 2 52 * power 2 (excessBits (dividend / divisor)) := power_add _ _ _
    _ ≤ _ := Nat.mul_le_mul_right _ significand

theorem nearest_eq_none {dividend divisor : Nat} (positive : 0 < divisor)
    (large : power 2 1024 * divisor ≤ dividend) : nearest dividend divisor = none := by
  have reached : power 2 (1024 + 1074) ≤ dividend * power 2 1074 / divisor := by
    rw [Nat.le_div_iff_mul_le positive, power_add]
    calc power 2 1024 * power 2 1074 * divisor
        = power 2 1024 * divisor * power 2 1074 := by ring
      _ ≤ dividend * power 2 1074 := Nat.mul_le_mul_right _ large
  have above := Nat.not_lt.mpr (power_le_rounded (by decide) reached)
  simp only [nearest]
  exact dif_neg above

theorem nearest_eq_zero {dividend divisor : Nat}
    (small : 2 * (dividend * power 2 1074) < divisor) : nearest dividend divisor = some zero := by
  have below : dividend * power 2 1074 < divisor := by omega
  have noBits : excessBits 0 = 0 := by
    simp [excessBits, Nat.log2_zero]
  apply nearest_eq_some
  rw [Nat.div_eq_of_lt below, noBits, power_zero, Nat.mul_one, Nat.mul_one, evenQuotient]
  simp only [Nat.div_eq_of_lt below, Nat.mod_eq_of_lt below]
  exact if_neg (by omega)

end Magnitude

namespace Decimal

theorem nearest_congr {d e : Decimal}
    (same : d.coefficient * power 10 d.exponent.toNat * power 10 (-e.exponent).toNat =
      e.coefficient * power 10 e.exponent.toNat * power 10 (-d.exponent).toNat) :
    d.nearest = e.nearest :=
  Magnitude.nearest_congr (power_pos (by decide) _) (power_pos (by decide) _) same

def value (d : Decimal) : ℚ := d.coefficient * 10 ^ d.exponent

theorem value_eq_div (d : Decimal) :
    d.value = (d.coefficient * power 10 d.exponent.toNat : Nat) /
      (power 10 (-d.exponent).toNat : Nat) := by
  have ten (n : Nat) : ((power 10 n : Nat) : ℚ) = 10 ^ n := by simp [power]
  rw [value, Nat.cast_mul, ten, ten]
  rcases Int.le_total 0 d.exponent with whole | broken
  · rw [show (-d.exponent).toNat = 0 by omega, pow_zero, div_one, ← zpow_natCast,
      Int.toNat_of_nonneg whole]
  · rw [show d.exponent.toNat = 0 by omega, pow_zero, mul_one, ← zpow_natCast,
      Int.toNat_of_nonneg (by omega), zpow_neg, div_inv_eq_mul]

/-- Decimals that denote the same number are rounded to the same size. -/
theorem nearest_of_value {d e : Decimal} (same : d.value = e.value) : d.nearest = e.nearest := by
  have positive (n : Nat) : ((power 10 n : Nat) : ℚ) ≠ 0 :=
    Nat.cast_ne_zero.mpr (power_pos (by decide) n).ne'
  rw [value_eq_div, value_eq_div, div_eq_div_iff (positive _) (positive _)] at same
  exact nearest_congr (by exact_mod_cast same)

theorem value_shift (coefficient : Nat) (exponent : Int) :
    value ⟨coefficient * 10, exponent⟩ = value ⟨coefficient, exponent + 1⟩ := by
  simp only [value]
  rw [zpow_add_one₀ (by norm_num), Nat.cast_mul]
  ring

theorem value_zeros (coefficient count : Nat) :
    value ⟨coefficient * 10 ^ count, 0⟩ = value ⟨coefficient, count⟩ := by
  simp [value]

theorem nearest_shift (coefficient : Nat) (exponent : Int) :
    nearest ⟨coefficient * 10, exponent⟩ = nearest ⟨coefficient, exponent + 1⟩ :=
  nearest_of_value (value_shift coefficient exponent)

theorem nearest_trim (d : Decimal) : d.trim.nearest = d.nearest := by
  fun_induction trim d with
  | case1 d zero ih =>
    have same : (⟨d.coefficient / 10 * 10, d.exponent⟩ : Decimal) = d := by
      obtain ⟨coefficient, exponent⟩ := d
      simp only [Decimal.mk.injEq, and_true]
      simp only at zero
      omega
    rw [ih, ← nearest_shift, same]
  | case2 d nonzero => rfl

end Decimal

namespace Magnitude

/-- The decimal that is found for a size is read back as the size. -/
theorem nearest_shortest (size : Magnitude) : size.shortest.nearest = some size := by
  rw [shortest, Decimal.nearest_trim]
  cases found : (List.range 17).findSome? fun fewer => size.withDigits (fewer + 1) with
  | some d =>
    obtain ⟨fewer, _, hit⟩ := List.exists_of_findSome?_eq_some found
    simpa using List.find?_some hit
  | none =>
    rw [← size.nearest_units]
    apply nearest_congr (power_pos (by decide) _) (power_pos (by decide) _)
    simp only [exact, Option.getD_none]
    have zero : (-1074 : Int).toNat = 0 := rfl
    have places : (-(-1074) : Int).toNat = 1074 := rfl
    have ten : power 10 1074 = power 5 1074 * power 2 1074 := mul_power 5 2 1074
    rw [zero, places, ten, power_zero]
    ring

def value (size : Magnitude) : ℚ := size.units / power 2 1074

/-- The decimal that is written for a size without an exponent: the size itself if it is whole, and
else the shortest decimal that is read back as it. -/
def written (size : Magnitude) : Decimal :=
  if size.isWhole then ⟨size.whole, 0⟩ else size.shortest

theorem value_written {size : Magnitude} (isWhole : size.isWhole = true) :
    size.written.value = size.value := by
  have positive : ((power 2 1074 : Nat) : ℚ) ≠ 0 :=
    Nat.cast_ne_zero.mpr (power_pos (by decide) 1074).ne'
  rw [Magnitude.value, eq_div_iff positive, ← whole_mul_power isWhole, Nat.cast_mul, written,
    if_pos isWhole, Decimal.value, zpow_zero, mul_one]

/-- What is written for a size is read back as it. -/
theorem nearest_written (size : Magnitude) : size.written.nearest = some size := by
  unfold written
  split
  · rename_i isWhole
    exact nearest_natural isWhole
  · exact size.nearest_shortest

end Magnitude

/-! ## Written decimals -/

/-- A text is a literal that denotes the same number as the decimal. -/
def Decimal.SpellsExactly (d : Decimal) (text : List Char) : Prop :=
  ∃ before after : List Char, text = literalText before after ∧ before ≠ [] ∧
    (∀ c ∈ before, c.isDigit = true) ∧ (∀ c ∈ after, c.isDigit = true) ∧
    (literalDecimal before after).value = d.value

def Decimal.Spells (d : Decimal) (text : List Char) : Prop :=
  ∃ before after : List Char, text = literalText before after ∧ before ≠ [] ∧
    (∀ c ∈ before, c.isDigit = true) ∧ (∀ c ∈ after, c.isDigit = true) ∧
    (literalDecimal before after).nearest = d.nearest

namespace Decimal

def digits (d : Decimal) : List Char := Digits.ofNat 10 d.coefficient

theorem isDigit_of_mem_digits {d : Decimal} {c : Char} (member : c ∈ d.digits) :
    c.isDigit = true :=
  Digits.isDigit_of_mem_ofNat member

theorem isDigit_of_mem_zeros {count : Nat} {c : Char} (member : c ∈ List.replicate count '0') :
    c.isDigit = true := by
  rw [List.eq_of_mem_replicate member]
  rfl

theorem digits_length_pos (d : Decimal) : 0 < d.digits.length :=
  List.length_pos_iff.mpr (Digits.ofNat_ne_nil 10 d.coefficient)

/-! The three shapes of a decimal without an exponent. -/

theorem positional_of_small {d : Decimal} (small : d.digits.length + d.exponent ≤ 0) :
    d.positional = '0' :: '.' ::
      List.replicate (-(d.digits.length + d.exponent)).toNat '0' ++ d.digits :=
  if_pos small

theorem positional_of_whole {d : Decimal} (whole : 0 ≤ d.exponent) :
    d.positional = d.digits ++ List.replicate d.exponent.toNat '0' := by
  have filled := d.digits_length_pos
  have large : ¬ d.digits.length + d.exponent ≤ 0 := by omega
  have long : d.digits.length ≤ (d.digits.length + d.exponent).toNat := by omega
  have places : (d.digits.length + d.exponent).toNat - d.digits.length = d.exponent.toNat := by
    omega
  rw [← places]
  exact (if_neg large).trans (if_pos long)

theorem positional_natural (n : Nat) : positional ⟨n, 0⟩ = Digits.ofNat 10 n :=
  (positional_of_whole (Int.le_refl 0)).trans (List.append_nil _)

theorem positional_of_point {d : Decimal} (large : 0 < d.digits.length + d.exponent)
    (broken : d.exponent < 0) :
    d.positional = d.digits.take (d.digits.length + d.exponent).toNat ++
      '.' :: d.digits.drop (d.digits.length + d.exponent).toNat := by
  have notSmall : ¬ d.digits.length + d.exponent ≤ 0 := by omega
  have short : ¬ d.digits.length ≤ (d.digits.length + d.exponent).toNat := by omega
  exact (if_neg notSmall).trans (if_neg short)

theorem spellsExactly_leading_zeros {d : Decimal} (small : d.digits.length + d.exponent ≤ 0) :
    d.SpellsExactly ('0' :: '.' ::
      List.replicate (-(d.digits.length + d.exponent)).toNat '0' ++ d.digits) := by
  refine ⟨['0'], List.replicate (-(d.digits.length + d.exponent)).toNat '0' ++ d.digits,
    ?_, by simp, by simp, ?_, ?_⟩
  · simp [literalText, digits, Digits.ofNat_ne_nil]
  · intro c member
    rcases List.mem_append.mp member with zero | digit
    · exact isDigit_of_mem_zeros zero
    · exact isDigit_of_mem_digits digit
  · congr 1
    obtain ⟨coefficient, exponent⟩ := d
    simp only [literalDecimal, Decimal.mk.injEq]
    constructor
    · rw [Digits.value_append, Digits.value_append, Digits.value_replicate_zero, digits,
        Digits.value_ofNat]
      simp [Digits.value]
    · simp only [List.length_append, List.length_replicate]
      simp only at small
      omega

theorem spellsExactly_trailing_zeros {d : Decimal} (whole : 0 ≤ d.exponent) :
    d.SpellsExactly (d.digits ++ List.replicate d.exponent.toNat '0') := by
  refine ⟨d.digits ++ List.replicate d.exponent.toNat '0', [], ?_, ?_, ?_, by simp, ?_⟩
  · simp [literalText]
  · simp [digits, Digits.ofNat_ne_nil]
  · intro c member
    rcases List.mem_append.mp member with digit | zero
    · exact isDigit_of_mem_digits digit
    · exact isDigit_of_mem_zeros zero
  · have filled := value_zeros d.coefficient d.exponent.toNat
    rw [Int.toNat_of_nonneg whole] at filled
    rw [← filled]
    simp [literalDecimal, Digits.value_append, digits, Digits.value_ofNat,
      Digits.value_replicate_zero]

theorem spellsExactly_point {d : Decimal} (large : 0 < d.digits.length + d.exponent)
    (broken : d.exponent < 0) :
    d.SpellsExactly (d.digits.take (d.digits.length + d.exponent).toNat ++
      '.' :: d.digits.drop (d.digits.length + d.exponent).toNat) := by
  refine ⟨d.digits.take (d.digits.length + d.exponent).toNat,
    d.digits.drop (d.digits.length + d.exponent).toNat, ?_, ?_, ?_, ?_, ?_⟩
  · rw [literalText, if_neg]
    intro empty
    have := congrArg List.length empty
    simp only [List.length_drop, List.length_nil] at this
    omega
  · intro empty
    have := congrArg List.length empty
    simp only [List.length_take, List.length_nil] at this
    omega
  · exact fun c member => isDigit_of_mem_digits (List.mem_of_mem_take member)
  · exact fun c member => isDigit_of_mem_digits (List.mem_of_mem_drop member)
  · congr 1
    obtain ⟨coefficient, exponent⟩ := d
    simp only [literalDecimal, List.take_append_drop, List.length_drop, Decimal.mk.injEq]
    simp only at broken large
    exact ⟨Digits.value_ofNat coefficient, by omega⟩

theorem spellsExactly_positional (d : Decimal) : d.SpellsExactly d.positional := by
  by_cases small : d.digits.length + d.exponent ≤ 0
  · rw [positional_of_small small]
    exact spellsExactly_leading_zeros small
  · by_cases whole : 0 ≤ d.exponent
    · rw [positional_of_whole whole]
      exact spellsExactly_trailing_zeros whole
    · rw [positional_of_point (by omega) (by omega)]
      exact spellsExactly_point (by omega) (by omega)

/-- A decimal without an exponent is a literal that is read back as the decimal. -/
theorem spells_positional (d : Decimal) : d.Spells d.positional := by
  obtain ⟨before, after, shape, filled, beforeDigits, afterDigits, value⟩ :=
    d.spellsExactly_positional
  exact ⟨before, after, shape, filled, beforeDigits, afterDigits, nearest_of_value value⟩

/-! ## Bounds of the decimals of a size -/

section Bounds

variable {d : Decimal} {size : Magnitude} (rounded : d.nearest = some size)

include rounded

theorem coefficient_pos (positive : 0 < size.units) : 0 < d.coefficient := by
  rcases Nat.eq_zero_or_pos d.coefficient with zero | more
  · have small : 2 * (d.coefficient * power 10 d.exponent.toNat * power 2 1074) <
        power 10 (-d.exponent).toNat := by
      rw [zero, Nat.zero_mul, Nat.zero_mul]
      exact power_pos (by decide) _
    obtain rfl := Option.some.inj ((Magnitude.nearest_eq_zero small).symm.trans rounded)
    exact absurd positive (Nat.lt_irrefl 0)
  · exact more

theorem exponent_le (positive : 0 < size.units) : d.exponent ≤ 400 := by
  by_contra above
  have filled := coefficient_pos rounded positive
  have large : power 2 1024 * power 10 (-d.exponent).toNat ≤
      d.coefficient * power 10 d.exponent.toNat := by
    rw [show (-d.exponent).toNat = 0 by omega, power_zero, Nat.mul_one]
    calc power 2 1024 ≤ power 10 400 := by decide +kernel
      _ ≤ power 10 d.exponent.toNat := power_le_power (by decide) (by omega)
      _ ≤ _ := Nat.le_mul_of_pos_left _ filled
  have none := Magnitude.nearest_eq_none (power_pos (by decide) _) large
  rw [nearest, none] at rounded
  simp at rounded

theorem le_exponent (positive : 0 < size.units) : -400 ≤ d.exponent + d.digits.length := by
  by_contra below
  have short : d.coefficient < power 10 d.digits.length :=
    Digits.lt_power_length_ofNat (by decide) _
  have small : 2 * (d.coefficient * power 10 d.exponent.toNat * power 2 1074) <
      power 10 (-d.exponent).toNat := by
    rw [show d.exponent.toNat = 0 by omega, power_zero, Nat.mul_one]
    calc 2 * (d.coefficient * power 2 1074) = d.coefficient * (2 * power 2 1074) := by ring
      _ < power 10 d.digits.length * power 10 400 := by
        refine Nat.mul_lt_mul_of_lt_of_le short (by decide +kernel) (power_pos (by decide) _)
      _ = power 10 (d.digits.length + 400) := (power_add _ _ _).symm
      _ ≤ power 10 (-d.exponent).toNat := power_le_power (by decide) (by omega)
  obtain rfl := Option.some.inj ((Magnitude.nearest_eq_zero small).symm.trans rounded)
  exact absurd positive (Nat.lt_irrefl 0)

end Bounds

end Decimal

end Funlet
