import Mathlib.Algebra.Order.Field.Power
import Mathlib.Data.Rat.Lemmas
import Mathlib.Tactic
import StringReport.Number.Binary64

/-!
# The nearest number

Which number of 64 bits is nearest to a given one is said here without a word about how it is found:
no other finite number is nearer, and of two that are as near it is the one of the even significand.
From half way between the largest number and the next power of two on there is none.

There is at most one such number, and a rounded quotient is it.
-/
namespace StringReport.Binary64

/-- The magnitude of a finite number. -/
def magnitude (x : Binary64) : ℚ := x.significand * 2 ^ x.scale

/-- The least magnitude that is too large for a finite number. -/
def overflowBound : ℚ := 2 ^ 1024 - 2 ^ 970

/-- A finite number without a sign is nearest to a magnitude. -/
structure IsNearest (q : ℚ) (x : Binary64) : Prop where
  inRange : q < overflowBound
  finite : x.isFinite
  nonneg : x.isNegative = false
  nearest : ∀ y : Binary64, y.isFinite → |x.magnitude - q| ≤ |y.magnitude - q|
  even : ∀ y : Binary64, y.isFinite → y.magnitude ≠ x.magnitude →
    |y.magnitude - q| = |x.magnitude - q| → x.significand % 2 = 0

/-! ## Magnitudes in the order of their bits -/

/-- The least magnitude above zero. -/
def least : ℚ := 2 ^ (-1074 : ℤ)

theorem least_pos : 0 < least := by
  unfold least
  positivity

/-- The magnitude of the number of some bits, in units of the least one. -/
def units (b : ℕ) : ℕ := if b < 2 ^ 52 then b else (b % 2 ^ 52 + 2 ^ 52) * 2 ^ (b / 2 ^ 52 - 1)

/-- The unit that the next magnitude is larger by. -/
theorem units_succ (b : ℕ) : units (b + 1) = units b + 2 ^ (b / 2 ^ 52 - 1) := by
  unfold units
  by_cases hlow : b + 1 < 2 ^ 52
  · rw [if_pos hlow, if_pos (by omega), Nat.div_eq_of_lt (by omega)]
  by_cases hfirst : b + 1 = 2 ^ 52
  · obtain rfl : b = 2 ^ 52 - 1 := by omega
    rfl
  rw [if_neg hlow, if_neg (by omega)]
  obtain ⟨k, hk⟩ : ∃ k, b / 2 ^ 52 = k + 1 := ⟨b / 2 ^ 52 - 1, by omega⟩
  by_cases hcarry : b % 2 ^ 52 + 1 < 2 ^ 52
  · have hmod : (b + 1) % 2 ^ 52 = b % 2 ^ 52 + 1 := by omega
    have hdiv : (b + 1) / 2 ^ 52 = b / 2 ^ 52 := by omega
    rw [hmod, hdiv]
    ring
  · have hmod : (b + 1) % 2 ^ 52 = 0 := by omega
    have hlast : b % 2 ^ 52 = 2 ^ 52 - 1 := by omega
    have hdiv : (b + 1) / 2 ^ 52 = k + 2 := by omega
    rw [hmod, hlast, hdiv, hk, Nat.add_sub_cancel, show k + 2 - 1 = k + 1 from rfl, pow_succ 2 k]
    omega

theorem strictMono_units : StrictMono units := strictMono_nat_of_lt_succ fun b => by
  rw [units_succ]
  exact Nat.lt_add_of_pos_right (Nat.two_pow_pos _)

theorem magnitude_eq_units (x : Binary64) :
    x.magnitude = units (x.bits.toNat % 2 ^ 63) * least := by
  have hfield : x.bits.toNat % 2 ^ 63 / 2 ^ 52 = x.exponentField := by
    unfold exponentField
    omega
  have hfraction : x.bits.toNat % 2 ^ 63 % 2 ^ 52 = x.fractionField := by
    unfold fractionField
    omega
  rw [magnitude, significand, scale, units, hfield, hfraction]
  by_cases hzero : x.exponentField = 0
  · have hlow : x.bits.toNat % 2 ^ 63 = x.fractionField := by omega
    rw [if_pos hzero, if_pos (by omega), hzero, hlow]
    rfl
  · obtain ⟨k, hk⟩ := Nat.exists_eq_succ_of_ne_zero hzero
    have hscale : ((max x.exponentField 1 : ℕ) : ℤ) - 1075 = k + (-1074) := by omega
    rw [if_neg hzero, if_neg (by omega), hscale, hk, zpow_add₀ two_ne_zero, zpow_natCast, ← least]
    push_cast
    rw [mul_assoc]

/-- A finite number without a sign by its bits. -/
theorem bits_lt {x : Binary64} (hfinite : x.isFinite) (hnonneg : x.isNegative = false) :
    x.bits.toNat < 2047 * 2 ^ 52 := by
  unfold isFinite exponentField at hfinite
  unfold isNegative at hnonneg
  simp only [decide_eq_true_eq, decide_eq_false_iff_not, not_le, ne_eq] at hfinite hnonneg
  omega

theorem significand_mod_two (x : Binary64) : x.significand % 2 = x.bits.toNat % 2 := by
  unfold significand fractionField
  split <;> omega

/-- The number of given bits. -/
theorem ofBits_spec {b : ℕ} (h : b < 2047 * 2 ^ 52) :
    (⟨b.toUInt64⟩ : Binary64).isFinite ∧ (⟨b.toUInt64⟩ : Binary64).isNegative = false ∧
      (⟨b.toUInt64⟩ : Binary64).magnitude = units b * least ∧
      (⟨b.toUInt64⟩ : Binary64).significand % 2 = b % 2 := by
  have hbits : b.toUInt64.toNat = b := by
    simp only [Nat.toUInt64_eq, UInt64.toNat_ofNat']
    omega
  refine ⟨?_, ?_, ?_, ?_⟩
  · unfold isFinite exponentField
    simp only [hbits, decide_eq_true_eq, ne_eq]
    omega
  · unfold isNegative
    simp only [hbits, decide_eq_false_iff_not]
    omega
  · rw [magnitude_eq_units, hbits, Nat.mod_eq_of_lt (by omega)]
  · rw [significand_mod_two, hbits]

/-- No two numbers are nearest. -/
theorem IsNearest.unique {q : ℚ} {x y : Binary64} (hx : IsNearest q x) (hy : IsNearest q y) :
    x = y := by
  wlog hle : x.bits.toNat ≤ y.bits.toNat generalizing x y
  · exact (this hy hx (by omega)).symm
  have hxb := bits_lt hx.finite hx.nonneg
  have hyb := bits_lt hy.finite hy.nonneg
  have hxm := x.magnitude_eq_units
  have hym := y.magnitude_eq_units
  rw [Nat.mod_eq_of_lt (by omega)] at hxm hym
  obtain heq | hlt := hle.eq_or_lt
  · cases x
    cases y
    exact congrArg Binary64.mk (UInt64.toNat_inj.1 heq)
  exfalso
  have hdistance := le_antisymm (hx.nearest y hy.finite) (hy.nearest x hx.finite)
  have hmagnitude : x.magnitude < y.magnitude := by
    rw [hxm, hym]
    exact mul_lt_mul_of_pos_right (by exact_mod_cast strictMono_units hlt) least_pos
  -- the given magnitude lies half way between the two
  have hmiddle : q - x.magnitude = y.magnitude - q := by
    rcases abs_eq_abs.1 hdistance with h | h <;> linarith
  by_cases hnext : x.bits.toNat + 1 = y.bits.toNat
  · have hxeven := hx.even y hy.finite hmagnitude.ne' hdistance.symm
    have hyeven := hy.even x hx.finite hmagnitude.ne hdistance
    rw [significand_mod_two] at hxeven hyeven
    omega
  · -- so a third one between them would be nearer
    obtain ⟨hfinite, -, hthird, -⟩ := ofBits_spec (show x.bits.toNat + 1 < 2047 * 2 ^ 52 by omega)
    have hnearest := hx.nearest _ hfinite
    have hlow : x.magnitude < units (x.bits.toNat + 1) * least := by
      rw [hxm]
      exact mul_lt_mul_of_pos_right (by exact_mod_cast strictMono_units (Nat.lt_succ_self _))
        least_pos
    have hhigh : units (x.bits.toNat + 1) * least < y.magnitude := by
      rw [hym]
      exact mul_lt_mul_of_pos_right (by exact_mod_cast strictMono_units (by omega)) least_pos
    rw [hthird, abs_of_nonpos (by linarith)] at hnearest
    rcases abs_cases ((units (x.bits.toNat + 1) : ℚ) * least - q) with ⟨h, -⟩ | ⟨h, -⟩ <;>
      rw [h] at hnearest <;> linarith

end StringReport.Binary64

namespace StringReport

/-! ## Whole numbers -/

namespace Rounding

variable {num den : ℕ} (hden : 0 < den)

include hden

theorem abs_halfEven_sub_le : |(halfEven num den : ℚ) - num / den| ≤ 1 / 2 := by
  have hd : (0 : ℚ) < den := by exact_mod_cast hden
  obtain ⟨hlow, hhigh⟩ := halfEven_near num den hden
  have hlow' : (2 : ℚ) * num ≤ (2 * halfEven num den + 1) * den := by exact_mod_cast hlow
  have hhigh' : 2 * halfEven num den * den ≤ (2 : ℚ) * num + den := by exact_mod_cast hhigh
  have hmul : (num : ℚ) / den * den = num := div_mul_cancel₀ _ hd.ne'
  rw [abs_le]
  constructor
  · nlinarith
  · nlinarith

/-- Half way between two numbers the even one is taken. -/
theorem halfEven_mod_two (h : |(halfEven num den : ℚ) - num / den| = 1 / 2) :
    halfEven num den % 2 = 0 := by
  have hd : (0 : ℚ) < den := by exact_mod_cast hden
  have hmul : (num : ℚ) / den * den = num := div_mul_cancel₀ _ hd.ne'
  have htie : 2 * halfEven num den * den = 2 * num + den ∨
      2 * halfEven num den * den + den = 2 * num := by
    rcases (abs_eq (by norm_num)).1 h with h | h
    · have habove : (2 : ℚ) * halfEven num den * den = 2 * num + den := by
        linear_combination 2 * den * h + 2 * hmul
      exact Or.inl (by exact_mod_cast habove)
    · have hbelow : (2 : ℚ) * halfEven num den * den + den = 2 * num := by
        linear_combination 2 * den * h + 2 * hmul
      exact Or.inr (by exact_mod_cast hbelow)
  have hsplit := Nat.div_add_mod num den
  have hrest := Nat.mod_lt num hden
  unfold halfEven at htie ⊢
  simp only at htie ⊢
  split at htie
  · have hdouble : 2 * (num / den) * den = 2 * (den * (num / den)) := by ring
    omega
  · next hbelow =>
    split at htie
    · have hdouble : 2 * (num / den + 1) * den = 2 * (den * (num / den)) + 2 * den := by ring
      omega
    · next habove =>
      rw [if_neg hbelow, if_neg habove]
      omega

omit hden

/-- What is at most half a unit away is nearest, and as near as another only if it is half a unit
away. -/
theorem nearest_of_half {m : ℕ} {r : ℚ} (hhalf : |(m : ℚ) - r| ≤ 1 / 2) (k : ℤ) :
    |(m : ℚ) - r| ≤ |(k : ℚ) - r| ∧
      (k ≠ m → |(k : ℚ) - r| = |(m : ℚ) - r| → |(m : ℚ) - r| = 1 / 2) := by
  by_cases hk : k = m
  · rw [hk, Int.cast_natCast]
    exact ⟨le_rfl, fun hne => absurd rfl hne⟩
  have hapart : (1 : ℚ) ≤ |(k : ℚ) - m| := by
    have hint : 1 ≤ |k - m| := Int.one_le_abs (sub_ne_zero.2 hk)
    exact_mod_cast hint
  have htriangle := abs_sub_le (k : ℚ) r m
  rw [abs_sub_comm r] at htriangle
  exact ⟨by linarith, fun _ heq => by linarith⟩

end Rounding

/-! ## Quotients -/

namespace Binary64

theorem two_pow_toNat (e : ℤ) : (2 : ℚ) ^ e.toNat = 2 ^ e * 2 ^ (-e).toNat := by
  rw [← zpow_natCast, ← zpow_natCast, ← zpow_add₀ two_ne_zero]
  congr 1
  omega

theorem magnitude_eq_div (x : Binary64) : x.magnitude = x.numerator / x.denominator := by
  have hpos : (0 : ℚ) < x.denominator := by exact_mod_cast x.denominator_pos
  rw [eq_div_iff hpos.ne', magnitude, numerator, denominator]
  push_cast
  rw [two_pow_toNat x.scale, mul_assoc]

theorem significand_lt (x : Binary64) : x.significand < 2 ^ 53 := by
  unfold significand fractionField
  split <;> omega

theorem le_scale (x : Binary64) : -1074 ≤ x.scale := by
  unfold scale
  omega

/-- A quotient lies within the powers of two that the lengths of its parts give. -/
theorem quotient_bounds {num den : ℕ} (hnum : 0 < num) (hden : 0 < den) :
    (2 : ℚ) ^ ((num.log2 : ℤ) - den.log2 - 1) < num / den ∧
      (num / den : ℚ) < 2 ^ ((num.log2 : ℤ) - den.log2 + 1) := by
  have hbounds {n : ℕ} (hn : 0 < n) :
      (2 : ℚ) ^ (n.log2 : ℤ) ≤ n ∧ (n : ℚ) < 2 ^ ((n.log2 : ℤ) + 1) := by
    have hlow := Nat.log2_self_le hn.ne'
    have hhigh := Nat.lt_log2_self (n := n)
    rw [zpow_natCast, zpow_add_one₀ two_ne_zero, zpow_natCast, ← pow_succ]
    exact ⟨by exact_mod_cast hlow, by exact_mod_cast hhigh⟩
  obtain ⟨hnlow, hnhigh⟩ := hbounds hnum
  obtain ⟨hdlow, hdhigh⟩ := hbounds hden
  have hd : (0 : ℚ) < den := by exact_mod_cast hden
  have hlow := zpow_pos (two_pos (α := ℚ)) ((num.log2 : ℤ) - den.log2 - 1)
  have hhigh := zpow_pos (two_pos (α := ℚ)) ((num.log2 : ℤ) - den.log2 + 1)
  constructor
  · rw [lt_div_iff₀ hd]
    calc (2 : ℚ) ^ ((num.log2 : ℤ) - den.log2 - 1) * den
        < 2 ^ ((num.log2 : ℤ) - den.log2 - 1) * 2 ^ ((den.log2 : ℤ) + 1) :=
          mul_lt_mul_of_pos_left hdhigh hlow
      _ = 2 ^ (num.log2 : ℤ) := by
          rw [← zpow_add₀ two_ne_zero]
          congr 1
          omega
      _ ≤ num := hnlow
  · rw [div_lt_iff₀ hd]
    calc (num : ℚ) < 2 ^ ((num.log2 : ℤ) + 1) := hnhigh
      _ = 2 ^ ((num.log2 : ℤ) - den.log2 + 1) * 2 ^ (den.log2 : ℤ) := by
          rw [← zpow_add₀ two_ne_zero]
          congr 1
          omega
      _ ≤ 2 ^ ((num.log2 : ℤ) - den.log2 + 1) * den := mul_le_mul_of_nonneg_left hdlow hhigh.le

/-- The test of the rounding exponent compares with a power of two. -/
theorem fits_iff {num den : ℕ} (hden : 0 < den) (e : ℤ) :
    den * 2 ^ e.toNat * 2 ^ 52 ≤ num * 2 ^ (-e).toNat ↔ (2 : ℚ) ^ (e + 52) ≤ num / den := by
  have hd : (0 : ℚ) < den := by exact_mod_cast hden
  have hpower : (0 : ℚ) < 2 ^ (-e).toNat := by positivity
  have hcast : (den * 2 ^ e.toNat * 2 ^ 52 ≤ num * 2 ^ (-e).toNat) ↔
      (den : ℚ) * 2 ^ e.toNat * 2 ^ 52 ≤ num * 2 ^ (-e).toNat := by
    exact_mod_cast Iff.rfl
  have hleft : (den : ℚ) * 2 ^ e.toNat * 2 ^ 52 = 2 ^ (e + 52) * den * 2 ^ (-e).toNat := by
    rw [two_pow_toNat, zpow_add₀ two_ne_zero, show (2 : ℚ) ^ (52 : ℤ) = 2 ^ 52 from rfl]
    ring
  rw [hcast, hleft, mul_le_mul_iff_of_pos_right hpower, le_div_iff₀ hd]

/-- A quotient has 53 bits in units of its rounding exponent, or fewer if that is the least. -/
theorem roundingExponent_spec {num den : ℕ} (hnum : 0 < num) (hden : 0 < den) :
    -1074 ≤ roundingExponent num den ∧
      (num / den : ℚ) < 2 ^ (roundingExponent num den + 53) ∧
      (roundingExponent num den = -1074 ∨
        2 ^ (roundingExponent num den + 52) ≤ (num / den : ℚ)) := by
  obtain ⟨hlow, hhigh⟩ := quotient_bounds hnum hden
  have hmono {a b : ℤ} (h : a ≤ b) : (2 : ℚ) ^ a ≤ 2 ^ b :=
    zpow_le_zpow_right₀ one_le_two h
  unfold roundingExponent
  simp only [fits_iff hden]
  split
  · next hfits =>
    refine ⟨le_max_left _ _, hhigh.trans_le (hmono (by omega)), ?_⟩
    rcases max_choice (-1074) ((num.log2 : ℤ) - den.log2 - 52) with h | h
    · exact Or.inl h
    · exact Or.inr (by rwa [h])
  · next hfits =>
    refine ⟨le_max_left _ _, (not_le.1 hfits).trans_le (hmono (by omega)), ?_⟩
    rcases max_choice (-1074) ((num.log2 : ℤ) - den.log2 - 52 - 1) with h | h
    · exact Or.inl h
    · refine Or.inr ?_
      rw [h]
      exact (hmono (by omega)).trans hlow.le

/-- A magnitude in units of `2 ^ (k - 1074)` is rounded to a significand: half a unit away at most,
and if it is as much, to an even one. The magnitude has 53 bits, or the unit is the least. -/
structure Rounds (q : ℚ) (k m : ℕ) : Prop where
  half : |(m : ℚ) - q / 2 ^ ((k : ℤ) - 1074)| ≤ 1 / 2
  tie : |(m : ℚ) - q / 2 ^ ((k : ℤ) - 1074)| = 1 / 2 → m % 2 = 0
  below : q < 2 ^ ((k : ℤ) - 1074 + 53)
  full : k = 0 ∨ 2 ^ ((k : ℤ) - 1074 + 52) ≤ q

/-- A quotient is rounded so, and the significand is put behind the exponent. -/
theorem exists_rounds {num den : ℕ} (hnum : 0 < num) (hden : 0 < den) :
    ∃ k m, Rounds (num / den) k m ∧
      ofQuotient num den = ⟨(min (k * 2 ^ 52 + m) infinityBits).toUInt64⟩ := by
  obtain ⟨hleast, hbelow, hfull⟩ := roundingExponent_spec hnum hden
  have hexponent : (((roundingExponent num den + 1074).toNat : ℕ) : ℤ) - 1074 =
      roundingExponent num den := by omega
  have hpos : 0 < den * 2 ^ (roundingExponent num den).toNat :=
    Nat.mul_pos hden (Nat.two_pow_pos _)
  have hscaled : ((num * 2 ^ (-roundingExponent num den).toNat : ℕ) : ℚ) /
      ((den * 2 ^ (roundingExponent num den).toNat : ℕ) : ℚ) =
      num / den / 2 ^ roundingExponent num den := by
    have hd : (den : ℚ) ≠ 0 := by exact_mod_cast hden.ne'
    push_cast
    rw [two_pow_toNat (roundingExponent num den)]
    field_simp
  refine ⟨(roundingExponent num den + 1074).toNat, Rounding.halfEven
    (num * 2 ^ (-roundingExponent num den).toNat) (den * 2 ^ (roundingExponent num den).toNat),
    ⟨?_, ?_, ?_, ?_⟩, ?_⟩
  · rw [hexponent, ← hscaled]
    exact Rounding.abs_halfEven_sub_le hpos
  · rw [hexponent, ← hscaled]
    exact Rounding.halfEven_mod_two hpos
  · rwa [hexponent]
  · rw [hexponent]
    exact hfull.imp_left fun h => by rw [h]; rfl
  · rw [ofQuotient, if_neg hnum.ne']

/-- A carry into the exponent field keeps the magnitude of a significand. -/
theorem units_add {k m : ℕ} (hm : m ≤ 2 ^ 53) (hk : k = 0 ∨ 2 ^ 52 ≤ m) :
    units (k * 2 ^ 52 + m) = m * 2 ^ k := by
  unfold units
  by_cases hlow : m < 2 ^ 52
  · obtain rfl : k = 0 := by omega
    rw [if_pos (by omega)]
    simp
  rw [if_neg (by omega)]
  by_cases hfull : m = 2 ^ 53
  · have hmod : (k * 2 ^ 52 + m) % 2 ^ 52 = 0 := by omega
    have hdiv : (k * 2 ^ 52 + m) / 2 ^ 52 = k + 2 := by omega
    rw [hmod, hdiv, hfull, show k + 2 - 1 = k + 1 from rfl, pow_succ 2 k]
    omega
  · have hmod : (k * 2 ^ 52 + m) % 2 ^ 52 + 2 ^ 52 = m := by omega
    have hdiv : (k * 2 ^ 52 + m) / 2 ^ 52 = k + 1 := by omega
    rw [hmod, hdiv, Nat.add_sub_cancel]

/-- The bound in units of the largest numbers: half a unit above the largest significand. -/
theorem overflowBound_eq : overflowBound = (2 ^ 53 - 1 / 2) * 2 ^ (971 : ℤ) := by
  have hcast : (2 : ℚ) ^ (971 : ℤ) = 2 ^ (970 + 1) := zpow_natCast 2 (970 + 1)
  have hhalf : (2 : ℚ) ^ (970 + 1) = 2 * 2 ^ 970 := pow_succ' 2 970
  rw [overflowBound, hcast, show (1024 : ℕ) = 53 + (970 + 1) from rfl, pow_add, sub_mul, hhalf,
    one_div, inv_mul_cancel_left₀ two_ne_zero]

theorem pow_le_overflowBound : 2 ^ (1023 : ℤ) ≤ overflowBound := by
  rw [overflowBound_eq, show (1023 : ℤ) = 52 + 971 from rfl, zpow_add₀ two_ne_zero]
  exact mul_le_mul_of_nonneg_right (by norm_num) (zpow_pos two_pos 971).le

theorem overflowBound_lt_pow : overflowBound < 2 ^ (1024 : ℤ) := by
  rw [overflowBound_eq, show (1024 : ℤ) = 53 + 971 from rfl, zpow_add₀ two_ne_zero]
  exact mul_lt_mul_of_pos_right (by norm_num) (zpow_pos two_pos 971)

namespace Rounds

variable {q : ℚ} {k m : ℕ} (h : Rounds q k m)

include h

theorem significand_bounds : m ≤ 2 ^ 53 ∧ (k = 0 ∨ 2 ^ 52 ≤ m) := by
  have hunit := zpow_pos (two_pos (α := ℚ)) ((k : ℤ) - 1074)
  obtain ⟨hlow, hhigh⟩ := abs_le.1 h.half
  constructor
  · have hbelow := h.below
    rw [zpow_add₀ two_ne_zero, mul_comm, ← div_lt_iff₀ hunit] at hbelow
    have hlt : (m : ℚ) < ((2 ^ 53 + 1 : ℕ) : ℚ) := by
      have hpower : (2 : ℚ) ^ (53 : ℤ) = 2 ^ 53 := rfl
      push_cast
      linarith
    exact Nat.lt_succ_iff.1 (by exact_mod_cast hlt)
  · refine h.full.imp_right fun hfull => ?_
    rw [zpow_add₀ two_ne_zero, mul_comm, ← le_div_iff₀ hunit] at hfull
    have hlt : ((2 ^ 52 : ℕ) : ℚ) < ((m + 1 : ℕ) : ℚ) := by
      have hpower : (2 : ℚ) ^ (52 : ℤ) = 2 ^ 52 := rfl
      push_cast
      linarith
    exact Nat.lt_succ_iff.1 (by exact_mod_cast hlt)

omit h in
/-- In the unit of the largest numbers, what is out of range is carried to the next power. -/
theorem lt_overflowBound_iff_of_top (h : Rounds q 2045 m) : q < overflowBound ↔ m < 2 ^ 53 := by
  have hunit := zpow_pos (two_pos (α := ℚ)) 971
  have hexponent : ((2045 : ℕ) : ℤ) - 1074 = 971 := rfl
  have hm := h.significand_bounds.1
  obtain ⟨hhalf, htie, -, -⟩ := h
  rw [hexponent] at hhalf htie
  rw [overflowBound_eq, ← div_lt_iff₀ hunit]
  generalize q / 2 ^ (971 : ℤ) = r at hhalf htie
  obtain ⟨hlow, hhigh⟩ := abs_le.1 hhalf
  constructor
  · intro hr
    by_contra hlarge
    obtain rfl : m = 2 ^ 53 := by omega
    push_cast at hhigh
    linarith
  · intro hbits
    by_contra hr
    rw [not_lt] at hr
    -- the largest significand is odd, and so it is left by what is half a unit above it
    have hlast : (m : ℚ) ≤ 2 ^ 53 - 1 := by
      have hcast : ((m + 1 : ℕ) : ℚ) ≤ ((2 ^ 53 : ℕ) : ℚ) := by exact_mod_cast hbits
      push_cast at hcast
      linarith
    have heven := htie (by rw [abs_of_nonpos] <;> linarith)
    have heq : (m : ℚ) = ((2 ^ 53 - 1 : ℕ) : ℚ) := by
      push_cast
      linarith
    have hodd : m = 2 ^ 53 - 1 := by exact_mod_cast heq
    omega

/-- The bits of a rounded magnitude are those of a finite number just if it is in range. -/
theorem lt_overflowBound_iff : q < overflowBound ↔ k * 2 ^ 52 + m < 2047 * 2 ^ 52 := by
  obtain ⟨hm, hm'⟩ := h.significand_bounds
  have hmono {a b : ℤ} (h : a ≤ b) : (2 : ℚ) ^ a ≤ 2 ^ b := zpow_le_zpow_right₀ one_le_two h
  rcases lt_trichotomy k 2045 with hk | rfl | hk
  · have hpower := hmono (show (k : ℤ) - 1074 + 53 ≤ 1023 by omega)
    exact iff_of_true (h.below.trans_le (hpower.trans pow_le_overflowBound)) (by omega)
  · rw [h.lt_overflowBound_iff_of_top]
    omega
  · have hpower := hmono (show (1024 : ℤ) ≤ (k : ℤ) - 1074 + 52 by omega)
    have hfull := h.full.resolve_left (by omega)
    exact iff_of_false (not_lt.2 (overflowBound_lt_pow.le.trans (hpower.trans hfull))) (by omega)

omit h in
theorem abs_sub_eq (r : ℚ) :
    |r * 2 ^ ((k : ℤ) - 1074) - q| = |r - q / 2 ^ ((k : ℤ) - 1074)| * 2 ^ ((k : ℤ) - 1074) := by
  have hunit := zpow_pos (two_pos (α := ℚ)) ((k : ℤ) - 1074)
  rw [← abs_of_pos hunit, ← abs_mul, abs_of_pos hunit, sub_mul, div_mul_cancel₀ _ hunit.ne']

omit h in
/-- A number whose own unit is no smaller is a whole number of units. -/
theorem exists_units_of_le_scale {y : Binary64} (hcoarse : (k : ℤ) - 1074 ≤ y.scale) :
    ∃ j : ℤ, y.magnitude = j * 2 ^ ((k : ℤ) - 1074) := by
  refine ⟨y.significand * 2 ^ (y.scale - ((k : ℤ) - 1074)).toNat, ?_⟩
  have hsplit : (2 : ℚ) ^ y.scale =
      2 ^ (y.scale - ((k : ℤ) - 1074)).toNat * 2 ^ ((k : ℤ) - 1074) := by
    rw [← zpow_natCast, ← zpow_add₀ two_ne_zero]
    congr 1
    omega
  rw [magnitude, hsplit]
  push_cast
  rw [mul_assoc]

/-- A number whose unit is smaller lies below all magnitudes of 53 bits, and so it is not as
near. -/
theorem abs_sub_lt_of_scale_lt {y : Binary64} (hfine : y.scale < (k : ℤ) - 1074) :
    |m * 2 ^ ((k : ℤ) - 1074) - q| < |y.magnitude - q| := by
  have hunit := zpow_pos (two_pos (α := ℚ)) ((k : ℤ) - 1074)
  have hscaled := abs_sub_eq (q := q) (k := k)
  have hscale := y.le_scale
  have hfull := h.full.resolve_left (by omega)
  have hbelow : y.magnitude < 2 ^ ((k : ℤ) - 1074 + 52) := by
    have hsignificand : (y.significand : ℚ) < 2 ^ (53 : ℤ) := by
      exact_mod_cast y.significand_lt
    calc y.magnitude < 2 ^ (53 : ℤ) * 2 ^ y.scale :=
          mul_lt_mul_of_pos_right hsignificand (zpow_pos two_pos _)
      _ = 2 ^ (53 + y.scale) := (zpow_add₀ two_ne_zero _ _).symm
      _ ≤ 2 ^ ((k : ℤ) - 1074 + 52) := zpow_le_zpow_right₀ one_le_two (by omega)
  have hpower : (2 : ℚ) ^ ((k : ℤ) - 1074 + 52) = (2 ^ 52 : ℤ) * 2 ^ ((k : ℤ) - 1074) := by
    rw [zpow_add₀ two_ne_zero, mul_comm]
    rfl
  have hle := mul_le_mul_of_nonneg_right (Rounding.nearest_of_half h.half (2 ^ 52)).1 hunit.le
  rw [← hscaled, ← hscaled, ← hpower, abs_of_nonpos (sub_nonpos.2 hfull)] at hle
  rw [abs_of_neg (by linarith : y.magnitude - q < 0)]
  linarith

/-- No number is nearer than the rounded magnitude, and none is as near but to an even one. -/
theorem nearest (y : Binary64) :
    |m * 2 ^ ((k : ℤ) - 1074) - q| ≤ |y.magnitude - q| ∧
      (y.magnitude ≠ m * 2 ^ ((k : ℤ) - 1074) →
        |y.magnitude - q| = |m * 2 ^ ((k : ℤ) - 1074) - q| → m % 2 = 0) := by
  rcases le_or_gt ((k : ℤ) - 1074) y.scale with hcoarse | hfine
  · have hunit := zpow_pos (two_pos (α := ℚ)) ((k : ℤ) - 1074)
    obtain ⟨j, hj⟩ := exists_units_of_le_scale hcoarse
    obtain ⟨hle, hhalf⟩ := Rounding.nearest_of_half h.half j
    rw [hj, abs_sub_eq, abs_sub_eq]
    refine ⟨mul_le_mul_of_nonneg_right hle hunit.le, fun hne heq => h.tie (hhalf ?_ ?_)⟩
    · rintro rfl
      exact hne (by push_cast; rfl)
    · exact mul_right_cancel₀ hunit.ne' heq
  · have hlt := h.abs_sub_lt_of_scale_lt hfine
    exact ⟨hlt.le, fun _ heq => absurd heq hlt.ne'⟩

/-- Rounding changes a magnitude by a part of `2 ^ 53` at most, or by half of the least one. -/
theorem abs_sub_le : |m * 2 ^ ((k : ℤ) - 1074) - q| ≤ max (q / 2 ^ 53) (least / 2) := by
  have hunit := zpow_pos (two_pos (α := ℚ)) ((k : ℤ) - 1074)
  have hhalf := mul_le_mul_of_nonneg_right h.half hunit.le
  rw [abs_sub_eq]
  rcases h.full with hk | hfull
  · rw [hk, show ((0 : ℕ) : ℤ) - 1074 = -1074 from rfl, ← least] at hhalf ⊢
    exact le_max_of_le_right (by linarith)
  · have hpower : (2 : ℚ) ^ (52 : ℤ) = 2 ^ 52 := rfl
    rw [zpow_add₀ two_ne_zero, hpower] at hfull
    generalize (2 : ℚ) ^ ((k : ℤ) - 1074) = u at hhalf hfull ⊢
    exact le_max_of_le_left (by linarith)

end Rounds

theorem magnitude_zero : magnitude zero = 0 := by
  rw [magnitude, show zero.significand = 0 from rfl, Nat.cast_zero, zero_mul]

theorem overflowBound_pos : 0 < overflowBound := by
  rw [overflowBound_eq]
  exact mul_pos (by norm_num) (zpow_pos two_pos _)

theorem magnitude_nonneg (x : Binary64) : 0 ≤ x.magnitude :=
  mul_nonneg (Nat.cast_nonneg _) (zpow_pos two_pos _).le

/-- A quotient is rounded to the number nearest to it, and to infinity if it is too large. -/
theorem ofQuotient_spec (num : ℕ) {den : ℕ} (hden : 0 < den) :
    if (num / den : ℚ) < overflowBound then
      IsNearest (num / den) (ofQuotient num den) ∧
        |(ofQuotient num den).magnitude - num / den| ≤ max ((num / den : ℚ) / 2 ^ 53) (least / 2)
    else ofQuotient num den = infinity := by
  obtain rfl | hnum := Nat.eq_zero_or_pos num
  · have hzero : ofQuotient 0 den = zero := rfl
    rw [hzero, Nat.cast_zero, zero_div, if_pos overflowBound_pos, magnitude_zero]
    refine ⟨⟨overflowBound_pos, rfl, rfl, fun y _ => ?_, fun _ _ _ _ => rfl⟩, ?_⟩
    · rw [magnitude_zero, sub_self, abs_zero]
      exact abs_nonneg _
    · rw [sub_self, abs_zero]
      exact le_max_of_le_right (half_pos least_pos).le
  obtain ⟨k, m, h, hvalue⟩ := exists_rounds hnum hden
  obtain ⟨hm, hfull⟩ := h.significand_bounds
  split
  · next hrange =>
    have hbits := h.lt_overflowBound_iff.1 hrange
    rw [Nat.min_eq_left (by unfold infinityBits; omega)] at hvalue
    obtain ⟨hfinite, hnonneg, hmagnitude, heven⟩ := ofBits_spec hbits
    have hunits : (units (k * 2 ^ 52 + m) : ℚ) * least = m * 2 ^ ((k : ℤ) - 1074) := by
      rw [units_add hm hfull, sub_eq_add_neg, zpow_add₀ two_ne_zero, zpow_natCast, ← least]
      push_cast
      ring
    rw [hunits] at hmagnitude
    rw [hvalue, hmagnitude]
    refine ⟨⟨hrange, hfinite, hnonneg, fun y _ => ?_, fun y _ hne hdistance => ?_⟩,
      h.abs_sub_le⟩
    · rw [hmagnitude]
      exact (h.nearest y).1
    · rw [hmagnitude] at hne hdistance
      have hmeven := (h.nearest y).2 hne hdistance
      omega
  · next hrange =>
    have hbits := mt h.lt_overflowBound_iff.2 hrange
    rw [hvalue, Nat.min_eq_right (by unfold infinityBits; omega)]
    rfl

/-! ## Nearest numbers -/

theorem isNearest_div_iff {num den : ℕ} (hden : 0 < den) {x : Binary64} :
    IsNearest (num / den) x ↔ (num / den : ℚ) < overflowBound ∧ ofQuotient num den = x := by
  have hspec := ofQuotient_spec num hden
  constructor
  · intro h
    rw [if_pos h.inRange] at hspec
    exact ⟨h.inRange, hspec.1.unique h⟩
  · rintro ⟨hrange, rfl⟩
    rw [if_pos hrange] at hspec
    exact hspec.1

theorem isInfinite_ofQuotient_iff {num den : ℕ} (hden : 0 < den) :
    (ofQuotient num den).isInfinite = true ↔ overflowBound ≤ (num / den : ℚ) := by
  have hspec := ofQuotient_spec num hden
  split at hspec
  · next hrange =>
    have hfinite := hspec.1.finite
    simp only [isFinite, isInfinite, decide_eq_true_eq] at hfinite ⊢
    exact ⟨fun h => absurd h.1 hfinite, fun h => absurd hrange (not_lt.2 h)⟩
  · next hrange =>
    rw [hspec]
    exact iff_of_true rfl (not_lt.1 hrange)

/-- A magnitude from zero up is a quotient. -/
theorem eq_natCast_div {q : ℚ} (hq : 0 ≤ q) : q = (q.num.toNat : ℚ) / (q.den : ℚ) := by
  have hnum : ((q.num.toNat : ℤ) : ℚ) = q.num := by rw [Int.toNat_of_nonneg (Rat.num_nonneg.2 hq)]
  rw [← Int.cast_natCast q.num.toNat, hnum, Rat.num_div_den]

theorem IsNearest.abs_sub_le {q : ℚ} {x : Binary64} (h : IsNearest q x) (hq : 0 ≤ q) :
    |x.magnitude - q| ≤ max (q / 2 ^ 53) (least / 2) := by
  have hspec := ofQuotient_spec q.num.toNat q.den_pos
  rw [← eq_natCast_div hq, if_pos h.inRange] at hspec
  rw [h.unique hspec.1]
  exact hspec.2

/-- Each magnitude of 53 bits is that of a number. -/
theorem exists_magnitude_eq {a j : ℕ} (ha : a < 2 ^ 53) (hj : j ≤ 900) :
    ∃ y : Binary64, y.isFinite ∧ y.magnitude = a * 2 ^ j := by
  obtain rfl | hpos := Nat.eq_zero_or_pos a
  · exact ⟨zero, rfl, by rw [magnitude_zero, Nat.cast_zero, zero_mul]⟩
  have hlog : a.log2 ≤ 52 := by
    have hlt : 2 ^ a.log2 < 2 ^ 53 := (Nat.log2_self_le hpos.ne').trans_lt ha
    exact Nat.lt_succ_iff.1 ((Nat.pow_lt_pow_iff_right (by decide)).1 hlt)
  obtain ⟨s, hs⟩ : ∃ s, a.log2 + s = 52 := ⟨52 - a.log2, by omega⟩
  have hfull : 2 ^ 52 ≤ a * 2 ^ s := by
    rw [← hs, pow_add]
    exact Nat.mul_le_mul_right _ (Nat.log2_self_le hpos.ne')
  have hfits : a * 2 ^ s < 2 ^ 53 := by
    rw [show 53 = a.log2 + 1 + s by omega, pow_add]
    exact Nat.mul_lt_mul_of_pos_right Nat.lt_log2_self (Nat.two_pow_pos s)
  obtain ⟨hfinite, -, hmagnitude, -⟩ :=
    ofBits_spec (show (j + 1074 - s) * 2 ^ 52 + a * 2 ^ s < 2047 * 2 ^ 52 by omega)
  refine ⟨_, hfinite, ?_⟩
  have hunit : (2 : ℚ) ^ (j + 1074) * least = 2 ^ j := by
    rw [pow_add, mul_assoc, least, ← zpow_natCast 2 1074, ← zpow_add₀ two_ne_zero]
    exact mul_one _
  rw [hmagnitude, units_add hfits.le (Or.inr hfull), mul_assoc, ← pow_add,
    show s + (j + 1074 - s) = j + 1074 by omega]
  push_cast
  rw [mul_assoc, hunit]

/-- A magnitude of 53 bits is kept. -/
theorem IsNearest.magnitude_eq {a j : ℕ} {x : Binary64} (ha : a < 2 ^ 53) (hj : j ≤ 900)
    (h : IsNearest (a * 2 ^ j) x) : x.magnitude = a * 2 ^ j := by
  obtain ⟨y, hfinite, hy⟩ := exists_magnitude_eq ha hj
  have hnearest := h.nearest y hfinite
  rw [hy, sub_self, abs_zero] at hnearest
  exact sub_eq_zero.1 (abs_nonpos_iff.1 hnearest)

theorem magnitude_lt_overflowBound {x : Binary64} (h : x.isFinite) :
    x.magnitude < overflowBound := by
  have hscale : x.scale ≤ 971 := by
    unfold isFinite at h
    unfold scale
    have hfield : x.exponentField < 2 ^ 11 := Nat.mod_lt _ (by decide)
    simp only [decide_eq_true_eq] at h
    omega
  have hsignificand : (x.significand : ℚ) ≤ 2 ^ 53 - 1 := by
    have hnat : x.significand + 1 ≤ 2 ^ 53 := x.significand_lt
    have hcast : ((x.significand + 1 : ℕ) : ℚ) ≤ ((2 ^ 53 : ℕ) : ℚ) := by exact_mod_cast hnat
    push_cast at hcast
    linarith
  have hunit := zpow_pos (two_pos (α := ℚ)) 971
  rw [overflowBound_eq, magnitude]
  calc (x.significand : ℚ) * 2 ^ x.scale ≤ (2 ^ 53 - 1) * 2 ^ (971 : ℤ) :=
        mul_le_mul hsignificand (zpow_le_zpow_right₀ one_le_two hscale) (zpow_pos two_pos _).le
          (by norm_num)
    _ < (2 ^ 53 - 1 / 2) * 2 ^ (971 : ℤ) := mul_lt_mul_of_pos_right (by norm_num) hunit

/-- A number is nearest to itself. -/
theorem isNearest_magnitude {x : Binary64} (hfinite : x.isFinite) (hnonneg : x.isNegative = false) :
    IsNearest x.magnitude x where
  inRange := magnitude_lt_overflowBound hfinite
  finite := hfinite
  nonneg := hnonneg
  nearest y _ := by
    rw [sub_self, abs_zero]
    exact abs_nonneg _
  even y _ hne heq := by
    rw [sub_self, abs_zero, abs_eq_zero, sub_eq_zero] at heq
    exact absurd heq hne

theorem magnitude_mul (x y : Binary64) : x.magnitude * y.magnitude =
    ((x.numerator * y.numerator : ℕ) : ℚ) / ((x.denominator * y.denominator : ℕ) : ℚ) := by
  rw [magnitude_eq_div, magnitude_eq_div, div_mul_div_comm]
  push_cast
  rfl

/-- Products and quotients of numbers are rounded to the nearest. -/
theorem isNearest_times_iff {x y z : Binary64} :
    IsNearest (x.magnitude * y.magnitude) z ↔
      x.magnitude * y.magnitude < overflowBound ∧ x.times y = z := by
  rw [magnitude_mul, times,
    isNearest_div_iff (Nat.mul_pos x.denominator_pos y.denominator_pos)]

theorem isInfinite_times_iff {x y : Binary64} :
    (x.times y).isInfinite = true ↔ overflowBound ≤ x.magnitude * y.magnitude := by
  rw [magnitude_mul, times,
    isInfinite_ofQuotient_iff (Nat.mul_pos x.denominator_pos y.denominator_pos)]

theorem isNearest_dividedBy_iff {x y z : Binary64} (hy : 0 < y.magnitude) :
    IsNearest (x.magnitude / y.magnitude) z ↔
      x.magnitude / y.magnitude < overflowBound ∧ x.dividedBy y = z := by
  have hnumerator : 0 < y.numerator := by
    rw [magnitude_eq_div] at hy
    refine Nat.pos_of_ne_zero fun hzero => ?_
    rw [hzero, Nat.cast_zero, zero_div] at hy
    exact lt_irrefl _ hy
  have hdiv : x.magnitude / y.magnitude = ((x.numerator * y.denominator : ℕ) : ℚ) /
      ((x.denominator * y.numerator : ℕ) : ℚ) := by
    rw [magnitude_eq_div, magnitude_eq_div, div_div_div_eq]
    push_cast
    rfl
  rw [hdiv, isNearest_div_iff (Nat.mul_pos x.denominator_pos hnumerator)]
  rfl

end Binary64
end StringReport
