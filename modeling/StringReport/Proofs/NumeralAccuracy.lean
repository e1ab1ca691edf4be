import StringReport.Proofs.DecimalNumerals
import StringReport.Proofs.JsonGrammar
import StringReport.Proofs.TimestampText

/-!
# How near a numeral is read

What a numeral writes is a decimal fraction, and what it stands for is a number of 64 bits. Each
digit that is left out and each rounding changes a magnitude by a part of `2 ^ 53` at most, so the
two differ by a part of `2 ^ 50`, and by three times the least magnitude where there are no nearer
numbers. A numeral that stands for nothing is too large. If it is short, and its power of ten is
small, it stands for the number nearest to what it writes.
-/
namespace StringReport

open Binary64 (IsNearest least least_pos)

/-! ## Nearness -/

/-- What a rounded magnitude keeps at least of what was rounded. -/
def kept : ℚ := 1 - 1 / 2 ^ 53

theorem kept_pow_pos (k : ℕ) : 0 < kept ^ k := pow_pos (by norm_num [kept]) k

theorem kept_pow_le_one (k : ℕ) : kept ^ k ≤ 1 :=
  pow_le_one₀ (by norm_num [kept]) (by norm_num [kept])

/-- A magnitude is at most another one, but for some steps of rounding and some times the least
magnitude. -/
def AtMost (steps rests : ℕ) (a b : ℚ) : Prop := a * kept ^ steps ≤ b + rests * least

theorem rests_nonneg (i : ℕ) : (0 : ℚ) ≤ i * least := mul_nonneg (Nat.cast_nonneg i) least_pos.le

namespace AtMost

variable {k l i j : ℕ} {a b c d : ℚ}

theorem of_le (h : a ≤ b) : AtMost 0 0 a b := by
  rwa [AtMost, pow_zero, mul_one, Nat.cast_zero, zero_mul, add_zero]

theorem iff_of_exact : AtMost k 0 a b ↔ a * kept ^ k ≤ b := by
  rw [AtMost, Nat.cast_zero, zero_mul, add_zero]

theorem mono (h : AtMost k i a b) (ha : 0 ≤ a) (hk : k ≤ l) (hi : i ≤ j) : AtMost l j a b := by
  have hpower : kept ^ l ≤ kept ^ k :=
    pow_le_pow_of_le_one (by norm_num [kept]) (by norm_num [kept]) hk
  have hrests : (i : ℚ) * least ≤ j * least :=
    mul_le_mul_of_nonneg_right (by exact_mod_cast hi) least_pos.le
  calc a * kept ^ l ≤ a * kept ^ k := mul_le_mul_of_nonneg_left hpower ha
    _ ≤ b + i * least := h
    _ ≤ b + j * least := by linarith

theorem trans (h : AtMost k i a b) (h' : AtMost l j b c) : AtMost (k + l) (i + j) a c := by
  have hpower := (kept_pow_pos l).le
  calc a * kept ^ (k + l) = a * kept ^ k * kept ^ l := by rw [pow_add, mul_assoc]
    _ ≤ (b + i * least) * kept ^ l := mul_le_mul_of_nonneg_right h hpower
    _ = b * kept ^ l + i * least * kept ^ l := add_mul _ _ _
    _ ≤ c + j * least + i * least :=
        add_le_add h' (mul_le_of_le_one_right (rests_nonneg i) (kept_pow_le_one l))
    _ = c + (i + j : ℕ) * least := by
        push_cast
        ring

theorem mul (h : AtMost k 0 a b) (h' : AtMost l 0 c d) (hb : 0 ≤ b) (hc : 0 ≤ c) :
    AtMost (k + l) 0 (a * c) (b * d) := by
  rw [iff_of_exact] at h h' ⊢
  rw [pow_add, mul_mul_mul_comm]
  exact mul_le_mul h h' (mul_nonneg hc (kept_pow_pos l).le) hb

theorem div (h : AtMost k i a b) (h' : AtMost l 0 d c) (ha : 0 ≤ a) (hc : 0 < c) (hd : 1 ≤ d) :
    AtMost (k + l) i (a / c) (b / d) := by
  have hd' : 0 < d := by linarith
  rw [iff_of_exact] at h'
  have hpower : kept ^ l / c ≤ 1 / d := by
    rw [div_le_div_iff₀ hc hd', one_mul, mul_comm]
    exact h'
  calc a / c * kept ^ (k + l) = a * kept ^ k * (kept ^ l / c) := by
        rw [pow_add]
        ring
    _ ≤ a * kept ^ k * (1 / d) :=
        mul_le_mul_of_nonneg_left hpower (mul_nonneg ha (kept_pow_pos k).le)
    _ = a * kept ^ k / d := mul_one_div _ _
    _ ≤ (b + i * least) / d := div_le_div_of_nonneg_right h hd'.le
    _ = b / d + i * least / d := add_div _ _ _
    _ ≤ b / d + i * least := by
        have hrest := div_le_self (rests_nonneg i) hd
        linarith

end AtMost

/-- Two magnitudes are as near as some steps of rounding leave them. -/
structure Near (steps rests : ℕ) (a b : ℚ) : Prop where
  below : AtMost steps rests a b
  above : AtMost steps rests b a

namespace Near

variable {k l i j : ℕ} {a b c d : ℚ}

theorem refl (a : ℚ) : Near 0 0 a a := ⟨.of_le le_rfl, .of_le le_rfl⟩

theorem mono (h : Near k i a b) (ha : 0 ≤ a) (hb : 0 ≤ b) (hk : k ≤ l) (hi : i ≤ j) :
    Near l j a b :=
  ⟨h.below.mono ha hk hi, h.above.mono hb hk hi⟩

theorem trans (h : Near k i a b) (h' : Near l j b c) : Near (k + l) (i + j) a c :=
  ⟨h.below.trans h'.below, by
    rw [add_comm k, add_comm i]
    exact h'.above.trans h.above⟩

theorem mul (h : Near k 0 a b) (h' : Near l 0 c d) (ha : 0 ≤ a) (hb : 0 ≤ b) (hc : 0 ≤ c)
    (hd : 0 ≤ d) : Near (k + l) 0 (a * c) (b * d) :=
  ⟨h.below.mul h'.below hb hc, h.above.mul h'.above ha hd⟩

theorem div (h : Near k i a b) (h' : Near l 0 c d) (ha : 0 ≤ a) (hb : 0 ≤ b) (hc : 1 ≤ c)
    (hd : 1 ≤ d) : Near (k + l) i (a / c) (b / d) :=
  ⟨h.below.div h'.above ha (by linarith) hd, h.above.div h'.below hb (by linarith) hc⟩

/-- Magnitudes in the same unit, if there are enough units before it, differ by one step. -/
theorem of_floor {m : ℕ} (hm : 2 ^ 53 ≤ m) (hd : 0 ≤ d) (ha : m * d ≤ a ∧ a ≤ (m + 1) * d)
    (hb : m * d ≤ b ∧ b ≤ (m + 1) * d) : Near 1 0 a b := by
  have hkept : (m + 1 : ℚ) * kept ≤ m := by
    have hcast : ((2 ^ 53 : ℕ) : ℚ) ≤ m := by exact_mod_cast hm
    push_cast at hcast
    unfold kept
    linarith
  have hhalf {a b : ℚ} (ha : a ≤ (m + 1) * d) (hb : m * d ≤ b) : AtMost 1 0 a b := by
    rw [AtMost.iff_of_exact, pow_one]
    calc a * kept ≤ (m + 1) * d * kept :=
          mul_le_mul_of_nonneg_right ha (by norm_num [kept])
      _ = (m + 1) * kept * d := by ring
      _ ≤ m * d := mul_le_mul_of_nonneg_right hkept hd
      _ ≤ b := hb
  exact ⟨hhalf ha.2 hb.1, hhalf hb.2 ha.1⟩

/-- Magnitudes that are hardly any are near. -/
theorem of_le_least (ha : 0 ≤ a) (hb : 0 ≤ b) (ha' : a ≤ least) (hb' : b ≤ least) :
    Near 0 1 a b := by
  constructor <;> rw [AtMost, pow_zero, mul_one, Nat.cast_one, one_mul] <;> linarith

/-- A few steps change a magnitude by a part of `2 ^ 50`. -/
theorem abs_sub_le (h : Near 6 2 a b) (ha : 0 ≤ a) (hb : 0 ≤ b) :
    |a - b| ≤ b / 2 ^ 50 + 3 * least := by
  obtain ⟨hbelow, habove⟩ := h
  have hleast := least_pos
  have hpower : 1 - 7 / 2 ^ 53 ≤ kept ^ 6 := by norm_num [kept]
  have hinverse : 1 ≤ kept ^ 6 * (1 + 7 / 2 ^ 53) := by norm_num [kept]
  unfold AtMost at hbelow habove
  push_cast at hbelow habove
  rw [abs_le]
  constructor
  · have hlow := mul_le_mul_of_nonneg_left hpower hb
    linarith
  · have hhigh : a * 1 ≤ a * (kept ^ 6 * (1 + 7 / 2 ^ 53)) :=
      mul_le_mul_of_nonneg_left hinverse ha
    linarith

end Near

/-! ## Rounded numbers -/

namespace Binary64

section Nearest

variable {q : ℚ} {x : Binary64} (h : IsNearest q x)

include h

theorem IsNearest.near (hq : 0 ≤ q) : Near 1 1 x.magnitude q := by
  have hleast := least_pos
  have hpart : 0 ≤ q / 2 ^ 53 := by positivity
  have hle : |x.magnitude - q| ≤ q / 2 ^ 53 + least / 2 :=
    (h.abs_sub_le hq).trans (max_le (by linarith) (by linarith))
  obtain ⟨hlow, hhigh⟩ := abs_le.1 hle
  constructor <;> rw [AtMost, pow_one, kept, Nat.cast_one, one_mul] <;> linarith

theorem IsNearest.near_of_one_le (hq : 1 ≤ q) : Near 1 0 x.magnitude q := by
  have hsmall : least / 2 ≤ q / 2 ^ 53 := by
    have hpower : least ≤ 2 ^ (-53 : ℤ) := zpow_le_zpow_right₀ one_le_two (by decide)
    have hpart : (2 : ℚ) ^ (-53 : ℤ) = 1 / 2 ^ 53 := by norm_num
    rw [hpart] at hpower
    linarith [least_pos]
  have hle := h.abs_sub_le (by linarith)
  rw [max_eq_left hsmall] at hle
  obtain ⟨hlow, hhigh⟩ := abs_le.1 hle
  constructor <;> rw [AtMost.iff_of_exact, pow_one, kept] <;> linarith

theorem IsNearest.le_two_mul (hq : 0 ≤ q) : x.magnitude ≤ 2 * q := by
  have hnearest := h.nearest zero rfl
  rw [magnitude_zero, zero_sub, abs_neg, abs_of_nonneg hq] at hnearest
  linarith [(abs_le.1 hnearest).2]

end Nearest

theorem IsNearest.near_natCast {n : ℕ} {x : Binary64} (h : IsNearest n x) :
    Near 1 0 x.magnitude n := by
  obtain rfl | hn := Nat.eq_zero_or_pos n
  · rw [Nat.cast_zero] at h ⊢
    rw [h.unique isNearest_zero, magnitude_zero]
    exact (Near.refl 0).mono le_rfl le_rfl (Nat.zero_le 1) le_rfl
  · exact h.near_of_one_le (by exact_mod_cast hn)

end Binary64

theorem Binary64.toNat_negate (x : Binary64) : x.negate.bits.toNat = x.bits.toNat ^^^ 2 ^ 63 :=
  UInt64.toNat_xor _ _

/-- A minus leaves the magnitude as it is. -/
theorem Binary64.magnitude_negate (x : Binary64) : x.negate.magnitude = x.magnitude := by
  rw [magnitude_eq_units, magnitude_eq_units, toNat_negate, Nat.xor_mod_two_pow, Nat.mod_self,
    Nat.xor_zero]

theorem Binary64.isFinite_negate (x : Binary64) : x.negate.isFinite = x.isFinite := by
  have hfield : x.negate.exponentField = x.exponentField := by
    rw [exponentField, toNat_negate, Nat.xor_div_two_pow, Nat.xor_mod_two_pow]
    exact Nat.xor_zero _
  rw [isFinite, hfield, isFinite]

theorem Binary64.isNegative_negate {x : Binary64} (h : x.isNegative = false) :
    x.negate.isNegative = true := by
  unfold isNegative at h ⊢
  simp only [decide_eq_false_iff_not, not_le, decide_eq_true_eq] at h ⊢
  have hsign : x.negate.bits.toNat / 2 ^ 63 = 1 := by
    rw [toNat_negate, Nat.xor_div_two_pow, Nat.div_eq_of_lt h, Nat.div_self (Nat.two_pow_pos _)]
    rfl
  omega

namespace Numeral

open Binary64 hiding magnitude

theorem least_eq : least = 1 / (2 ^ 250 * 2 ^ 250 * 2 ^ 250 * 2 ^ 250 * 2 ^ 74) := by
  rw [least, zpow_neg, one_div, ← pow_add, ← pow_add, ← pow_add, ← pow_add]
  rfl

theorem one_le_ten_pow (k : ℕ) : (1 : ℚ) ≤ 10 ^ k := one_le_pow₀ (by norm_num)

theorem near_ten_pow {k : ℕ} {p : Binary64} (h : IsNearest (10 ^ k) p) :
    Near 1 0 p.magnitude (10 ^ k) :=
  h.near_of_one_le (one_le_ten_pow k)

/-- One step of a division is as near as three of rounding. -/
theorem near_div {x p y : Binary64} {q : ℚ} {i j k : ℕ} (h : Near i j x.magnitude q) (hq : 0 ≤ q)
    (hp : IsNearest (10 ^ k) p) (hy : IsNearest (x.magnitude / p.magnitude) y) :
    Near (i + 2) (j + 1) y.magnitude (q / 10 ^ k) := by
  have hone := hp.one_le_magnitude (one_le_ten_pow k)
  have hquotient := h.div (near_ten_pow hp) x.magnitude_nonneg hq hone (one_le_ten_pow k)
  have hnear := (hy.near (div_nonneg x.magnitude_nonneg p.magnitude_nonneg)).trans hquotient
  rwa [show 1 + (i + 1) = i + 2 by omega, add_comm 1 j] at hnear

/-- Next to nothing is left of a number that is divided by the largest power. -/
theorem magnitude_le_of_step {x p y : Binary64} (hp : IsNearest (10 ^ 308) p)
    (hy : IsNearest (x.magnitude / p.magnitude) y) : y.magnitude ≤ x.magnitude / 8 ^ 250 := by
  have hpower : (2 : ℚ) * 8 ^ 250 ≤ p.magnitude := by
    have habove := (near_ten_pow hp).above
    rw [AtMost.iff_of_exact, pow_one] at habove
    calc (2 : ℚ) * 8 ^ 250 ≤ 10 ^ 251 * kept := by norm_num [kept]
      _ ≤ 10 ^ 308 * kept := mul_le_mul_of_nonneg_right
          (pow_le_pow_right₀ (by norm_num) (by decide)) (by norm_num [kept])
      _ ≤ p.magnitude := habove
  calc y.magnitude ≤ 2 * (x.magnitude / p.magnitude) :=
        hy.le_two_mul (div_nonneg x.magnitude_nonneg p.magnitude_nonneg)
    _ ≤ 2 * (x.magnitude / (2 * 8 ^ 250)) := mul_le_mul_of_nonneg_left
        (div_le_div_of_nonneg_left x.magnitude_nonneg (by positivity) hpower) zero_le_two
    _ = x.magnitude / 8 ^ 250 := by rw [← mul_div_assoc, mul_div_mul_left _ _ two_ne_zero]

/-- What is left of a number does not grow by a division, but for its rounding. -/
theorem Divided.le_two_mul {x y : Binary64} {places : ℕ} (h : Divided x places y) :
    y.magnitude ≤ 2 * x.magnitude := by
  induction h with
  | @last x p y _ _ hp hy =>
    have hone := hp.one_le_magnitude (one_le_ten_pow _)
    have hle := div_le_self x.magnitude_nonneg hone
    linarith [hy.le_two_mul (div_nonneg x.magnitude_nonneg p.magnitude_nonneg)]
  | @step x p y _ _ _ hp hy _ ih =>
    have hle := div_le_self x.magnitude_nonneg (one_le_pow₀ (by norm_num) : (1 : ℚ) ≤ 8 ^ 250)
    linarith [magnitude_le_of_step hp hy]

/-- A division is as near as five steps of rounding, since after two of its own nothing is left. -/
theorem Divided.near {x y : Binary64} {n places : ℕ} (hn : n < 2 ^ 64)
    (hx : Near 1 0 x.magnitude n) (h : Divided x places y) :
    Near 5 2 y.magnitude (n / 10 ^ places) := by
  have hn' : (0 : ℚ) ≤ n := Nat.cast_nonneg n
  have hquotient : (0 : ℚ) ≤ n / 10 ^ places := by positivity
  cases h with
  | last _ hp hy =>
    exact (near_div hx hn' hp hy).mono y.magnitude_nonneg hquotient (by decide) (by decide)
  | @step _ _ z _ _ hplaces hp hz h =>
    have hnear := near_div hx hn' hp hz
    cases h with
    | last _ hp' hy =>
      have hlast := near_div hnear (by positivity) hp' hy
      rwa [div_div, ← pow_add, show 308 + (places - 308) = places by omega] at hlast
    | @step _ _ w _ _ hplaces' hp' hw h =>
      have hn'' : (n : ℚ) ≤ 2 ^ 64 := by exact_mod_cast hn.le
      have hx' : x.magnitude ≤ 2 ^ 65 := by
        have hbelow := hx.below
        rw [AtMost.iff_of_exact, pow_one, kept] at hbelow
        linarith
      have hsmall : (2 : ℚ) ^ 66 / (8 ^ 250 * 8 ^ 250) ≤ least := by
        rw [least_eq]
        norm_num
      refine (Near.of_le_least y.magnitude_nonneg hquotient ?_ ?_).mono y.magnitude_nonneg
        hquotient (by decide) (by decide)
      · calc y.magnitude ≤ 2 * w.magnitude := h.le_two_mul
          _ ≤ 2 * (z.magnitude / 8 ^ 250) := by linarith [magnitude_le_of_step hp' hw]
          _ ≤ 2 * (x.magnitude / 8 ^ 250 / 8 ^ 250) := mul_le_mul_of_nonneg_left
              (div_le_div_of_nonneg_right (magnitude_le_of_step hp hz) (by positivity)) zero_le_two
          _ = 2 * x.magnitude / (8 ^ 250 * 8 ^ 250) := by rw [div_div, mul_div_assoc]
          _ ≤ 2 ^ 66 / (8 ^ 250 * 8 ^ 250) :=
              div_le_div_of_nonneg_right (by linarith) (by positivity)
          _ ≤ least := hsmall
      · have hpower : (8 : ℚ) ^ 250 * 8 ^ 250 ≤ 10 ^ places := by
          rw [← pow_add]
          exact (pow_le_pow_left₀ (by norm_num) (by norm_num) _).trans
            (pow_le_pow_right₀ (by norm_num) (by omega))
        calc (n : ℚ) / 10 ^ places ≤ 2 ^ 66 / (8 ^ 250 * 8 ^ 250) :=
              div_le_div₀ (by positivity) (by linarith) (by positivity) hpower
          _ ≤ least := hsmall

/-- A number taken times a power of ten is so as well. -/
theorem Scaled.near {significand : ℕ} {power : ℤ} {x : Binary64} (hfits : significand < 2 ^ 64)
    (h : Scaled significand power x) : Near 5 2 x.magnitude (significand * 10 ^ power) := by
  have hproduct : (0 : ℚ) ≤ significand * 10 ^ power := by positivity
  cases h with
  | zero hzero _ =>
    rw [hzero, Nat.cast_zero, zero_mul, magnitude_zero]
    exact (Near.refl 0).mono le_rfl le_rfl (Nat.zero_le 5) (Nat.zero_le 2)
  | @times f p _ hpower _ hf hp hx =>
    obtain ⟨k, rfl⟩ := Int.eq_ofNat_of_zero_le hpower
    rw [zpow_natCast] at hp hproduct ⊢
    have hfactors := hf.near_natCast.mul (near_ten_pow hp) f.magnitude_nonneg (Nat.cast_nonneg _)
      p.magnitude_nonneg (by positivity)
    have hnear := (hx.near (mul_nonneg f.magnitude_nonneg p.magnitude_nonneg)).trans hfactors
    exact hnear.mono x.magnitude_nonneg hproduct (by decide) (by decide)
  | divided hpower hf hx =>
    have hnear := hx.near hfits hf.near_natCast
    have hinverse : (10 : ℚ) ^ power = (10 ^ (-power).toNat)⁻¹ := by
      rw [← zpow_natCast, ← zpow_neg, Int.toNat_of_nonneg (by omega), neg_neg]
    rwa [hinverse, ← div_eq_mul_inv]

/-! ## What a numeral writes -/

/-- The magnitude that a numeral writes. -/
def magnitude (n : Numeral) : ℚ :=
  Nat.ofDigitChars 10 (n.whole ++ n.fraction.getD []) 0 *
    10 ^ (n.power - (n.fraction.getD []).length)

theorem magnitude_nonneg (n : Numeral) : 0 ≤ n.magnitude := by
  unfold magnitude
  positivity

/-- A numeral of digits only. -/
def OfDigits (n : Numeral) : Prop := ∀ c ∈ n.whole ++ n.fraction.getD [], c.isDigit

theorem Text.ofDigits {n : Numeral} {text : List Char} (h : n.Text text) : n.OfDigits := by
  have hfraction {fraction : Option (List Char)} {text : List Char}
      (h : FractionText fraction text) : ∀ c ∈ fraction.getD [], c.isDigit := by
    cases h with
    | none => nofun
    | some hdigits => exact hdigits.2
  intro c hc
  cases h with
  | positive hwhole hpart _ => exact (List.mem_append.1 hc).elim (hwhole.1.2 c) (hfraction hpart c)
  | negative hwhole hpart _ => exact (List.mem_append.1 hc).elim (hwhole.1.2 c) (hfraction hpart c)

/-- Digits that follow others count less than a unit of the last one before them. -/
theorem ofDigitChars_append_bounds (taken : List Char) {left : List Char}
    (h : ∀ c ∈ left, c.isDigit) {j k : ℤ} (hk : k = left.length + j) :
    (Nat.ofDigitChars 10 taken 0 : ℚ) * 10 ^ k ≤
        Nat.ofDigitChars 10 (taken ++ left) 0 * 10 ^ j ∧
      (Nat.ofDigitChars 10 (taken ++ left) 0 : ℚ) * 10 ^ j ≤
        (Nat.ofDigitChars 10 taken 0 + 1) * 10 ^ k := by
  have hunit : (0 : ℚ) ≤ 10 ^ j := by positivity
  have hleft : Nat.ofDigitChars 10 left 0 ≤ 10 ^ left.length := (Timestamp.ofDigitChars_lt h).le
  have hsplit : Nat.ofDigitChars 10 (taken ++ left) 0 =
      10 ^ left.length * Nat.ofDigitChars 10 taken 0 + Nat.ofDigitChars 10 left 0 := by
    rw [Nat.ofDigitChars_append]
    exact Nat.ofDigitChars_eq_ofDigitChars_zero
  rw [hk, zpow_add₀ (by norm_num), zpow_natCast, ← mul_assoc, ← mul_assoc]
  constructor
  · refine mul_le_mul_of_nonneg_right ?_ hunit
    have hle : Nat.ofDigitChars 10 taken 0 * 10 ^ left.length ≤
        Nat.ofDigitChars 10 (taken ++ left) 0 := by
      rw [hsplit, mul_comm]
      exact Nat.le_add_right _ _
    exact_mod_cast hle
  · refine mul_le_mul_of_nonneg_right ?_ hunit
    have hle : Nat.ofDigitChars 10 (taken ++ left) 0 ≤
        (Nat.ofDigitChars 10 taken 0 + 1) * 10 ^ left.length := by
      rw [hsplit, add_mul, one_mul, mul_comm]
      exact Nat.add_le_add_left hleft _
    exact_mod_cast hle

/-- Digits are left out only of a number that is large. -/
theorem Taken.le {before digits left : List Char} {c : Char} (h : Taken before digits (c :: left))
    (hc : c.isDigit) : 2 ^ 53 ≤ Nat.ofDigitChars 10 (before ++ digits) 0 := by
  have hfull := h.full c rfl
  have hdigit : Nat.ofDigitChars 10 [c] 0 < 10 ^ 1 :=
    Timestamp.ofDigitChars_lt (List.forall_mem_singleton.2 hc)
  rw [← List.append_assoc, Nat.ofDigitChars_append, Nat.ofDigitChars_eq_ofDigitChars_zero,
    List.length_singleton] at hfull
  omega

/-- The leading digits are near to all of them. -/
theorem Leading.near {n : Numeral} {significand : ℕ} {power : ℤ} (hdigits : n.OfDigits)
    (h : n.Leading significand power) :
    Near 1 0 ((significand : ℚ) * 10 ^ power) n.magnitude := by
  obtain ⟨whole, left, fraction, unused, hwhole, hfraction, htaken, htaken', rfl, rfl⟩ := h
  unfold OfDigits at hdigits
  unfold magnitude
  rw [hwhole, hfraction] at hdigits ⊢
  simp only [List.mem_append] at hdigits
  have hunit (j : ℤ) : (0 : ℚ) ≤ 10 ^ j := by positivity
  cases left with
  | cons c left =>
    -- the digits of the fraction come after the last one taken before the point
    refine Near.of_floor (htaken.le (hdigits c (by simp))) (hunit (n.power + (c :: left).length))
      (ofDigitChars_append_bounds whole (fun d hd => hdigits d (by simp [hd])) (by omega)) ?_
    rw [List.append_assoc]
    refine ofDigitChars_append_bounds whole (fun d hd => hdigits d ?_) ?_
    · simpa [or_assoc] using Or.inr hd
    · simp only [List.length_append]
      omega
  | nil =>
    rw [List.append_nil, ← List.append_assoc]
    cases unused with
    | nil =>
      rw [List.append_nil, List.append_nil, List.length_nil, Nat.cast_zero, add_zero]
      exact (Near.refl _).mono (by positivity) (by positivity) (Nat.zero_le 1) le_rfl
    | cons c unused =>
      refine Near.of_floor (htaken'.le (hdigits c (by simp))) (hunit (n.power - fraction.length)) ?_
        (ofDigitChars_append_bounds (whole ++ fraction) (fun d hd => hdigits d (by simp [hd])) ?_)
      · have hbounds := ofDigitChars_append_bounds (whole ++ fraction)
          (fun d (hd : d ∈ []) => absurd hd List.not_mem_nil)
          (show n.power - fraction.length =
            ([] : List Char).length + (n.power - fraction.length) by simp)
        simpa using hbounds
      · simp only [List.length_append]
        omega

/-! ## How near a numeral is read -/

/-- A finite number near to what a numeral writes, of the same sign. -/
structure Approximates (n : Numeral) (x : Binary64) : Prop where
  finite : x.isFinite
  sign : x.isNegative = n.negative
  near : |x.magnitude - n.magnitude| ≤ n.magnitude / 2 ^ 50 + 3 * least

theorem Divided.finite {x y : Binary64} {places : ℕ} (h : Divided x places y) :
    y.isFinite ∧ y.isNegative = false := by
  induction h with
  | last _ _ hy => exact ⟨hy.finite, hy.nonneg⟩
  | step _ _ _ _ ih => exact ih

theorem Scaled.finite {significand : ℕ} {power : ℤ} {x : Binary64}
    (h : Scaled significand power x) : x.isFinite ∧ x.isNegative = false := by
  cases h with
  | zero => exact ⟨rfl, rfl⟩
  | times _ _ _ _ hx => exact ⟨hx.finite, hx.nonneg⟩
  | divided _ _ hx => exact hx.finite

/-- A magnitude is the one of the leading digits, and has the sign of the numeral. -/
theorem Reads.near {n : Numeral} {x : Binary64} (hdigits : n.OfDigits) (h : n.Reads x) :
    x.isFinite ∧ x.isNegative = n.negative ∧ Near 6 2 x.magnitude n.magnitude := by
  obtain ⟨significand, power, m, hleading, hscaled, rfl⟩ := h
  obtain ⟨hfinite, hnonneg⟩ := hscaled.finite
  have hnear := (hscaled.near hleading.lt).trans (hleading.near hdigits)
  cases n.negative with
  | false => exact ⟨hfinite, hnonneg, hnear⟩
  | true =>
    rw [if_pos rfl, isFinite_negate, magnitude_negate]
    exact ⟨hfinite, isNegative_negate hnonneg, hnear⟩

/-- What a numeral stands for is near to what it writes. -/
theorem Reads.approximates {n : Numeral} {x : Binary64} (hdigits : n.OfDigits) (h : n.Reads x) :
    n.Approximates x := by
  obtain ⟨hfinite, hsign, hnear⟩ := h.near hdigits
  exact ⟨hfinite, hsign, hnear.abs_sub_le x.magnitude_nonneg n.magnitude_nonneg⟩

/-- A numeral stands for nothing if it is too large. -/
theorem not_reads {n : Numeral} (hdigits : n.OfDigits)
    (h : (1 + 1 / 2 ^ 50) * overflowBound ≤ n.magnitude) (x : Binary64) : ¬ n.Reads x := by
  intro hreads
  obtain ⟨hfinite, -, hnear⟩ := hreads.near hdigits
  have habove : n.magnitude * kept ^ 6 ≤ x.magnitude + (2 : ℕ) * least := hnear.above
  have hrange := magnitude_lt_overflowBound hfinite
  have hfactor : 1 + 1 / 2 ^ 53 ≤ (1 + 1 / 2 ^ 50) * kept ^ 6 := by norm_num [kept]
  have hlarge : (1 + 1 / 2 ^ 53) * overflowBound ≤ n.magnitude * kept ^ 6 := by
    calc (1 + 1 / 2 ^ 53) * overflowBound ≤ (1 + 1 / 2 ^ 50) * kept ^ 6 * overflowBound :=
          mul_le_mul_of_nonneg_right hfactor overflowBound_pos.le
      _ = (1 + 1 / 2 ^ 50) * overflowBound * kept ^ 6 := mul_right_comm _ _ _
      _ ≤ n.magnitude * kept ^ 6 := mul_le_mul_of_nonneg_right h (kept_pow_pos 6).le
  have hleast : 2 * least < 1 / 2 ^ 53 * overflowBound := by
    have hone : (10 : ℚ) ^ 20 < overflowBound := ten_pow_lt_overflowBound (by decide)
    have hsmall : least ≤ 1 := zpow_le_one_of_nonpos₀ one_le_two (by decide)
    linarith
  push_cast at habove
  linarith

theorem overflowBound_lt_ten_pow : overflowBound < 10 ^ 309 * kept := by
  have hlimit : (2 : ℚ) ^ (256 + 256 + 256 + 256) < 10 ^ (103 + 103 + 103) * kept := by
    simp only [pow_add, kept]
    norm_num
  exact (sub_lt_self _ (pow_pos two_pos 970)).trans hlimit

/-- Three steps of rounding do not make a magnitude too large that is `2 ^ -50` below the bound. -/
theorem lt_overflowBound_of_atMost {a b : ℚ} (h : AtMost 3 0 a b)
    (hb : b ≤ (1 - 1 / 2 ^ 50) * overflowBound) : a < overflowBound := by
  have hfactor : 1 - 1 / 2 ^ 50 < kept ^ 3 := by norm_num [kept]
  refine lt_of_mul_lt_mul_right ?_ (kept_pow_pos 3).le
  calc a * kept ^ 3 ≤ b := AtMost.iff_of_exact.1 h
    _ ≤ (1 - 1 / 2 ^ 50) * overflowBound := hb
    _ < kept ^ 3 * overflowBound := mul_lt_mul_of_pos_right hfactor overflowBound_pos
    _ = overflowBound * kept ^ 3 := mul_comm _ _

/-- A numeral stands for a number unless it is too large. -/
theorem exists_reads {n : Numeral} (hdigits : n.OfDigits)
    (h : n.magnitude ≤ (1 - 1 / 2 ^ 50) * overflowBound) : ∃ x, n.Reads x := by
  obtain ⟨significand, power, hleading⟩ := n.exists_leading
  suffices hscaled : ∃ m, Scaled significand power m by
    obtain ⟨m, hm⟩ := hscaled
    exact ⟨_, significand, power, m, hleading, hm, rfl⟩
  have hf := isNearest_ofNat hleading.lt
  have hbelow := (hleading.near hdigits).below
  rcases lt_or_ge power 0 with hnegative | hpositive
  · exact ⟨_, .divided hnegative hf (divided_shrink hf.finite hf.nonneg _)⟩
  obtain ⟨k, rfl⟩ := Int.eq_ofNat_of_zero_le hpositive
  rw [zpow_natCast] at hbelow
  rcases Nat.lt_or_ge 308 k with hlarge | hsmall
  · obtain rfl : significand = 0 := by
      by_contra hne
      have hone : (1 : ℚ) ≤ significand := by exact_mod_cast Nat.pos_of_ne_zero hne
      have hpower : (10 : ℚ) ^ 309 ≤ 10 ^ k := pow_le_pow_right₀ (by norm_num) hlarge
      have hlimit : overflowBound < n.magnitude := by
        calc overflowBound < 10 ^ 309 * kept := overflowBound_lt_ten_pow
          _ ≤ significand * 10 ^ k * kept := mul_le_mul_of_nonneg_right
              (hpower.trans (le_mul_of_one_le_left (by positivity) hone)) (by norm_num [kept])
          _ ≤ n.magnitude := by rwa [AtMost.iff_of_exact, pow_one] at hbelow
      have hle := mul_le_of_le_one_left overflowBound_pos.le
        (by norm_num : (1 - 1 / 2 ^ 50 : ℚ) ≤ 1)
      exact absurd (h.trans hle) (not_le.2 hlimit)
    exact ⟨_, .zero rfl (by exact_mod_cast hlarge)⟩
  · have hp := isNearest_ten_pow hsmall
    have hfactors := (hf.near_natCast.mul (near_ten_pow hp) (Binary64.magnitude_nonneg _)
      (Nat.cast_nonneg _) (Binary64.magnitude_nonneg _) (by positivity)).below
    have hnear := hfactors.trans hbelow
    have hrange := lt_overflowBound_of_atMost hnear h
    have hproduct := isNearest_times_iff.2 ⟨hrange, rfl⟩
    exact ⟨_, (scaled_iff_of_le hsmall).2 ⟨_, _, hf, hp, hproduct⟩⟩

/-! ## Short numerals -/

theorem divided_iff_of_le {x p y : Binary64} {k : ℕ} (hk : k ≤ 308) (hp : IsNearest (10 ^ k) p) :
    Divided x k y ↔ IsNearest (x.magnitude / p.magnitude) y := by
  constructor
  · intro h
    cases h with
    | last _ hp' hy =>
      obtain rfl := hp.unique hp'
      exact hy
    | step hlarge => omega
  · exact .last hk hp

/-- A power of ten of 22 places at most is kept. -/
theorem magnitude_ten_pow {k : ℕ} {p : Binary64} (hk : k ≤ 22) (hp : IsNearest (10 ^ k) p) :
    p.magnitude = 10 ^ k := by
  have hsplit : (10 : ℚ) ^ k = (5 ^ k : ℕ) * 2 ^ k := by
    rw [show (10 : ℚ) = 5 * 2 by norm_num, mul_pow]
    push_cast
    rfl
  have hfive : 5 ^ k < 2 ^ 53 := (Nat.pow_le_pow_right (by decide) hk).trans_lt (by decide)
  rw [hsplit] at hp ⊢
  exact hp.magnitude_eq hfive (by omega)

theorem scaled_iff_of_short {significand : ℕ} {power : ℤ} {x : Binary64}
    (hfits : significand < 2 ^ 53) (hpower : |power| ≤ 22) :
    Scaled significand power x ↔ IsNearest (significand * 10 ^ power) x := by
  have hf := isNearest_ofNat (hfits.trans (by decide : 2 ^ 53 < 2 ^ 64))
  have hkeeps : (Binary64.ofNat significand).magnitude = significand := by
    have h := IsNearest.magnitude_eq (j := 0) hfits (Nat.zero_le _) (x := .ofNat significand)
    rw [pow_zero, mul_one] at h
    exact h hf
  obtain ⟨hlow, hhigh⟩ := abs_le.1 hpower
  rcases lt_or_ge power 0 with hnegative | hpositive
  · obtain ⟨k, rfl⟩ : ∃ k : ℕ, power = -k := ⟨(-power).toNat, by omega⟩
    have hp := isNearest_ten_pow (show k ≤ 308 by omega)
    rw [scaled_iff_of_neg hnegative, neg_neg, Int.toNat_natCast, zpow_neg, zpow_natCast,
      ← div_eq_mul_inv, ← magnitude_ten_pow (by omega) hp]
    nth_rewrite 2 [← hkeeps]
    constructor
    · rintro ⟨f, hf', hx⟩
      obtain rfl := hf'.unique hf
      exact (divided_iff_of_le (by omega) hp).1 hx
    · exact fun hx => ⟨_, hf, (divided_iff_of_le (by omega) hp).2 hx⟩
  · obtain ⟨k, rfl⟩ := Int.eq_ofNat_of_zero_le hpositive
    have hk : k ≤ 308 := by omega
    have hp := isNearest_ten_pow hk
    rw [scaled_iff_of_le hk, zpow_natCast, ← magnitude_ten_pow (by omega) hp]
    nth_rewrite 2 [← hkeeps]
    constructor
    · rintro ⟨f, p, hf', hp', hx⟩
      obtain rfl := hf'.unique hf
      rw [magnitude_ten_pow (by omega) hp] at hp'
      obtain rfl := hp'.unique hp
      exact hx
    · intro hx
      refine ⟨_, _, hf, ?_, hx⟩
      rwa [magnitude_ten_pow (by omega) hp]

/-- A numeral of up to 53 bits, with a power of ten of up to 22 places, stands for the number
nearest to what it writes. -/
theorem reads_iff_of_short {n : Numeral} {x : Binary64}
    (hfits : Nat.ofDigitChars 10 (n.whole ++ n.fraction.getD []) 0 < 2 ^ 53)
    (hpower : |n.power - (n.fraction.getD []).length| ≤ 22) :
    n.Reads x ↔ ∃ m, IsNearest n.magnitude m ∧ x = if n.negative then m.negate else m := by
  have hle : Nat.ofDigitChars 10 n.whole 0 ≤
      Nat.ofDigitChars 10 (n.whole ++ n.fraction.getD []) 0 := by
    rw [Nat.ofDigitChars_append]
    exact le_ofDigitChars _ _
  have hleading : n.Leading (Nat.ofDigitChars 10 (n.whole ++ n.fraction.getD []) 0)
      (n.power - (n.fraction.getD []).length) :=
    ⟨n.whole, [], n.fraction.getD [], [], (List.append_nil _).symm, (List.append_nil _).symm,
      ⟨by rw [List.nil_append]; omega, nofun⟩, ⟨by omega, nofun⟩, rfl, by simp⟩
  constructor
  · rintro ⟨_, _, m, hleading', hscaled, hx⟩
    obtain ⟨rfl, rfl⟩ := hleading.unique hleading'
    exact ⟨m, (scaled_iff_of_short hfits hpower).1 hscaled, hx⟩
  · rintro ⟨m, hm, hx⟩
    exact ⟨_, _, m, hleading, (scaled_iff_of_short hfits hpower).2 hm, hx⟩

end Numeral
end StringReport
