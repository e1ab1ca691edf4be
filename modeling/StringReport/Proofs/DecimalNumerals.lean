import StringReport.Json.Decoder
import StringReport.Proofs.NearestNumbers

/-!
# The number of 64 bits that a numeral stands for

The leading digits of a numeral, as many as fit 64 bits, are one number and the power of ten they
are taken times is another. Both are rounded to the nearest number of 64 bits, and so is their
product; a power with a minus is divided by, in steps if it is large. Nothing here says how the
digits are read: the rounding is the one to the nearest number, and the digits are counted by what
they write. The value of a numeral is found to be this number.
-/
namespace StringReport

open Binary64 (IsNearest)

namespace Numeral

/-! ## Declarations -/

/-- The exponent as a number. -/
def power (n : Numeral) : ℤ :=
  match n.exponent with
  | none => 0
  | some (true, digits) => -Nat.ofDigitChars 10 digits 0
  | some (false, digits) => Nat.ofDigitChars 10 digits 0

/-- Digits are taken, after those before them, for as long as they write a number of 64 bits. -/
structure Taken (before digits left : List Char) : Prop where
  fits : Nat.ofDigitChars 10 (before ++ digits) 0 < 2 ^ 64
  full : ∀ c ∈ left.head?, 2 ^ 64 ≤ Nat.ofDigitChars 10 (before ++ (digits ++ [c])) 0

/-- The number that the leading digits write, and the power of ten it is taken times. A digit of
the fraction may be taken where one before the point is not. -/
def Leading (n : Numeral) (significand : ℕ) (power : ℤ) : Prop :=
  ∃ whole wholeLeft fraction fractionLeft,
    n.whole = whole ++ wholeLeft ∧ n.fraction.getD [] = fraction ++ fractionLeft ∧
      Taken [] whole wholeLeft ∧ Taken whole fraction fractionLeft ∧
      significand = Nat.ofDigitChars 10 (whole ++ fraction) 0 ∧
      power = n.power + wholeLeft.length - fraction.length

/-- A number divided by a power of ten, of 308 places at a time, each step rounded. -/
inductive Divided : Binary64 → ℕ → Binary64 → Prop
  | last {x p y : Binary64} {places : ℕ} :
    places ≤ 308 → IsNearest (10 ^ places) p → IsNearest (x.magnitude / p.magnitude) y →
      Divided x places y
  | step {x p y z : Binary64} {places : ℕ} :
    308 < places → IsNearest (10 ^ 308) p → IsNearest (x.magnitude / p.magnitude) y →
      Divided y (places - 308) z → Divided x places z

/-- A number taken times a power of ten, each step rounded. -/
inductive Scaled (significand : ℕ) (power : ℤ) : Binary64 → Prop
  | zero : significand = 0 → 308 < power → Scaled significand power .zero
  | times {f p x : Binary64} :
    0 ≤ power → power ≤ 308 → IsNearest significand f → IsNearest (10 ^ power) p →
      IsNearest (f.magnitude * p.magnitude) x → Scaled significand power x
  | divided {f x : Binary64} :
    power < 0 → IsNearest significand f → Divided f (-power).toNat x → Scaled significand power x

/-- The number that a numeral stands for, which has its sign. -/
def Reads (n : Numeral) (x : Binary64) : Prop :=
  ∃ significand power m, n.Leading significand power ∧ Scaled significand power m ∧
    x = if n.negative then m.negate else m

/-! ## The digits that are taken -/

theorem le_ofDigitChars (digits : List Char) (n : ℕ) : n ≤ Nat.ofDigitChars 10 digits n := by
  rw [Nat.ofDigitChars_eq_ofDigitChars_zero]
  exact Nat.le_add_right_of_le (Nat.le_mul_of_pos_left n (Nat.pow_pos (by decide)))

/-- Digits are gathered for as long as their number fits. -/
theorem gather_eq_iff {digits left : List Char} {n m : ℕ} (hn : n ≤ wordLimit) :
    gather n digits = (m, left) ↔
      ∃ taken, digits = taken ++ left ∧ Nat.ofDigitChars 10 taken n = m ∧ m ≤ wordLimit ∧
        ∀ c ∈ left.head?, wordLimit < Nat.ofDigitChars 10 (taken ++ [c]) n := by
  induction digits generalizing n with
  | nil =>
    rw [gather, Prod.mk.injEq]
    constructor
    · rintro ⟨rfl, rfl⟩
      exact ⟨[], rfl, Nat.ofDigitChars_nil, hn, nofun⟩
    · rintro ⟨taken, hdigits, hvalue, -⟩
      obtain ⟨rfl, rfl⟩ := List.append_eq_nil_iff.1 hdigits.symm
      exact ⟨hvalue, rfl⟩
  | cons c digits ih =>
    rw [gather]
    split
    · next hnext =>
      rw [ih hnext]
      constructor
      · rintro ⟨taken, rfl, hvalue, hm, hfull⟩
        exact ⟨c :: taken, rfl, hvalue, hm, hfull⟩
      · rintro ⟨taken, hdigits, hvalue, hm, hfull⟩
        cases taken with
        | nil =>
          obtain rfl : c :: digits = left := hdigits
          exact absurd (hfull c rfl) (not_lt.2 hnext)
        | cons d taken =>
          obtain ⟨rfl, rfl⟩ := List.cons_eq_cons.1 hdigits
          exact ⟨taken, rfl, hvalue, hm, hfull⟩
    · next hnext =>
      rw [Prod.mk.injEq]
      constructor
      · rintro ⟨rfl, rfl⟩
        refine ⟨[], rfl, Nat.ofDigitChars_nil, hn, ?_⟩
        rintro d ⟨⟩
        exact not_le.1 hnext
      · rintro ⟨taken, hdigits, hvalue, hm, -⟩
        cases taken with
        | nil => exact ⟨hvalue, hdigits⟩
        | cons d taken =>
          obtain ⟨rfl, -⟩ := List.cons_eq_cons.1 hdigits
          rw [Nat.ofDigitChars_cons] at hvalue
          exact absurd ((le_ofDigitChars taken _).trans (hvalue.trans_le hm)) hnext

/-- Digits are gathered to the last just if their number fits. -/
theorem gather_eq_nil_iff {digits : List Char} {m : ℕ} :
    gather 0 digits = (m, []) ↔ Nat.ofDigitChars 10 digits 0 = m ∧ m ≤ wordLimit := by
  rw [gather_eq_iff (Nat.zero_le _)]
  constructor
  · rintro ⟨taken, rfl, hvalue, hm, -⟩
    rw [List.append_nil]
    exact ⟨hvalue, hm⟩
  · rintro ⟨hvalue, hm⟩
    exact ⟨digits, (List.append_nil _).symm, hvalue, hm, nofun⟩

theorem writtenExponent_eq (n : Numeral) : n.writtenExponent = n.power := by
  obtain ⟨_, _, _, _ | ⟨_ | _, _⟩⟩ := n <;> rfl

/-- The leading digits are those that are gathered. -/
theorem leading_iff {n : Numeral} {significand : ℕ} {power : ℤ} :
    n.Leading significand power ↔
      ∃ leading left unused, gather 0 n.whole = (leading, left) ∧
        gather leading (n.fraction.getD []) = (significand, unused) ∧
        power = left.length - (((n.fraction.getD []).length : ℤ) - unused.length) +
          n.writtenExponent := by
  have hfits {k : ℕ} : k < 2 ^ 64 ↔ k ≤ wordLimit := by
    rw [wordLimit]
    omega
  have hfull {k : ℕ} : 2 ^ 64 ≤ k ↔ wordLimit < k := by
    rw [wordLimit]
    omega
  rw [writtenExponent_eq]
  constructor
  · rintro ⟨whole, left, fraction, unused, hwhole, hfraction, htaken, htaken', rfl, rfl⟩
    have hleading := hfits.1 htaken.fits
    refine ⟨_, left, unused, (gather_eq_iff (Nat.zero_le _)).2
      ⟨whole, hwhole, rfl, hleading, fun c hc => hfull.1 (htaken.full c hc)⟩,
      (gather_eq_iff hleading).2
        ⟨fraction, hfraction, ?_, hfits.1 htaken'.fits, fun c hc => ?_⟩, ?_⟩
    · rw [List.nil_append, Nat.ofDigitChars_append]
    · have hlarge := hfull.1 (htaken'.full c hc)
      rwa [Nat.ofDigitChars_append] at hlarge
    · rw [hfraction, List.length_append]
      push_cast
      ring
  · rintro ⟨leading, left, unused, hgather, hgather', rfl⟩
    obtain ⟨whole, hwhole, rfl, hleading, hlast⟩ := (gather_eq_iff (Nat.zero_le _)).1 hgather
    obtain ⟨fraction, hfraction, rfl, hm, hlast'⟩ := (gather_eq_iff hleading).1 hgather'
    refine ⟨whole, left, fraction, unused, hwhole, hfraction,
      ⟨hfits.2 hleading, fun c hc => hfull.2 (hlast c hc)⟩, ⟨?_, fun c hc => hfull.2 ?_⟩, ?_, ?_⟩
    · rw [Nat.ofDigitChars_append]
      exact hfits.2 hm
    · rw [Nat.ofDigitChars_append]
      exact hlast' c hc
    · rw [Nat.ofDigitChars_append]
    · rw [hfraction, List.length_append]
      push_cast
      ring

/-! ## The number that is made of them -/

end Numeral

namespace Binary64

theorem magnitude_ofNat_one : (ofNat 1).magnitude = 1 := by
  have hone : ofNat 1 = ⟨0x3ff0000000000000⟩ := by decide +kernel
  have hsignificand : significand ⟨0x3ff0000000000000⟩ = 2 ^ 52 := by decide
  have hscale : scale ⟨0x3ff0000000000000⟩ = -52 := by decide
  rw [hone, magnitude, hsignificand, hscale]
  norm_num

theorem isNearest_natCast_iff {n : ℕ} {x : Binary64} :
    IsNearest n x ↔ (n : ℚ) < overflowBound ∧ ofNat n = x := by
  have h : IsNearest (n / (1 : ℕ)) x ↔ (n / (1 : ℕ) : ℚ) < overflowBound ∧ ofQuotient n 1 = x :=
    isNearest_div_iff Nat.one_pos
  rwa [Nat.cast_one, div_one] at h

/-- What is at least one is rounded to a number that is. -/
theorem IsNearest.one_le_magnitude {q : ℚ} {x : Binary64} (h : IsNearest q x) (hq : 1 ≤ q) :
    1 ≤ x.magnitude := by
  by_contra hlt
  rw [not_le] at hlt
  have hnearest := h.nearest (ofNat 1) (by decide +kernel)
  rw [magnitude_ofNat_one, abs_of_neg (by linarith), abs_of_nonpos (by linarith)] at hnearest
  linarith

theorem ten_pow_lt_overflowBound {k : ℕ} (hk : k ≤ 308) : (10 : ℚ) ^ k < overflowBound := by
  have hgreatest : (10 : ℚ) ^ (154 + 154) + 2 ^ (242 + 242 + 243 + 243) <
      2 ^ (256 + 256 + 256 + 256) := by
    simp only [pow_add]
    norm_num
  calc (10 : ℚ) ^ k ≤ 10 ^ 308 := pow_le_pow_right₀ (by norm_num) hk
    _ < overflowBound := lt_sub_iff_add_lt.2 hgreatest

/-- A power of ten that is finite as a number is rounded to the nearest one. -/
theorem isNearest_ten_pow {k : ℕ} (hk : k ≤ 308) : IsNearest (10 ^ k) (ofNat (10 ^ k)) := by
  have hrange := ten_pow_lt_overflowBound hk
  have h := isNearest_natCast_iff (n := 10 ^ k) (x := ofNat (10 ^ k))
  push_cast at h
  exact h.2 ⟨hrange, rfl⟩

/-- A number may be divided by what is nearest to a power of ten. -/
theorem isNearest_dividedBy {x p : Binary64} {k : ℕ} (hx : x.isFinite)
    (hp : IsNearest (10 ^ k) p) : IsNearest (x.magnitude / p.magnitude) (x.dividedBy p) := by
  have hone := hp.one_le_magnitude (one_le_pow₀ (by norm_num))
  refine (isNearest_dividedBy_iff (by linarith)).2 ⟨?_, rfl⟩
  exact (div_le_self x.magnitude_nonneg hone).trans_lt (magnitude_lt_overflowBound hx)

theorem eq_zero_of_isZero {x : Binary64} (hzero : x.isZero) (hnonneg : x.isNegative = false) :
    x = zero := by
  have hbits : x.bits.toNat = 0 := by
    unfold isZero exponentField fractionField at hzero
    unfold isNegative at hnonneg
    simp only [decide_eq_true_eq, decide_eq_false_iff_not, not_le] at hzero hnonneg
    omega
  cases x
  exact congrArg Binary64.mk (UInt64.toNat_inj.1 hbits)

theorem isNearest_zero : IsNearest 0 zero := by
  have h := isNearest_magnitude (x := zero) rfl rfl
  rwa [magnitude_zero] at h

end Binary64

namespace Numeral

open Binary64

theorem Divided.unique {x y z : Binary64} {places : ℕ} (hy : Divided x places y)
    (hz : Divided x places z) : y = z := by
  induction hy with
  | last hplaces hp hy =>
    cases hz with
    | last _ hp' hz =>
      obtain rfl := hp.unique hp'
      exact hy.unique hz
    | step hplaces' _ _ _ => omega
  | step hplaces hp hy _ ih =>
    cases hz with
    | last hplaces' _ _ => omega
    | step _ hp' hy' hz =>
      obtain rfl := hp.unique hp'
      obtain rfl := hy.unique hy'
      exact ih hz

/-- Nothing is left of zero. -/
theorem divided_zero (places : ℕ) : Divided .zero places .zero := by
  induction places using Nat.strong_induction_on with
  | _ places ih =>
    have hquotient (p : Binary64) : IsNearest (magnitude .zero / p.magnitude) .zero := by
      rw [magnitude_zero, zero_div]
      exact isNearest_zero
    by_cases hplaces : places ≤ 308
    · exact .last hplaces (isNearest_ten_pow hplaces) (hquotient _)
    · exact .step (not_le.1 hplaces) (isNearest_ten_pow le_rfl) (hquotient _)
        (ih _ (by omega))

theorem divided_shrink {x : Binary64} (hfinite : x.isFinite) (hnonneg : x.isNegative = false)
    (places : ℕ) : Divided x places (shrink x places) := by
  fun_induction shrink x places with
  | case1 x places hplaces =>
    have hp := isNearest_ten_pow hplaces
    exact .last hplaces hp (isNearest_dividedBy hfinite hp)
  | case2 x places hplaces hzero =>
    rw [eq_zero_of_isZero hzero hnonneg]
    exact divided_zero places
  | case3 x places hplaces hzero ih =>
    have hp := isNearest_ten_pow (le_refl greatestPower)
    have hy := isNearest_dividedBy hfinite hp
    exact .step (not_le.1 hplaces) hp hy (ih hy.finite hy.nonneg)

/-! ## The value of a numeral -/

section Scaled

variable {significand : ℕ} {power : ℤ} {x : Binary64}

theorem scaled_iff_of_neg (h : power < 0) :
    Scaled significand power x ↔ ∃ f, IsNearest significand f ∧ Divided f (-power).toNat x := by
  constructor
  · intro hscaled
    cases hscaled with
    | zero _ hlarge => omega
    | times hpositive => omega
    | divided _ hf hx => exact ⟨_, hf, hx⟩
  · rintro ⟨f, hf, hx⟩
    exact .divided h hf hx

theorem scaled_iff_of_le {k : ℕ} (h : k ≤ 308) :
    Scaled significand k x ↔ ∃ f p, IsNearest significand f ∧ IsNearest (10 ^ k) p ∧
      IsNearest (f.magnitude * p.magnitude) x := by
  have hle : (k : ℤ) ≤ 308 := by exact_mod_cast h
  constructor
  · intro hscaled
    cases hscaled with
    | zero _ hlarge => omega
    | times _ _ hf hp hx =>
      rw [zpow_natCast] at hp
      exact ⟨_, _, hf, hp, hx⟩
    | divided hnegative => omega
  · rintro ⟨f, p, hf, hp, hx⟩
    rw [← zpow_natCast] at hp
    exact .times (Int.natCast_nonneg k) hle hf hp hx

theorem scaled_iff_of_lt (h : 308 < power) :
    Scaled significand power x ↔ significand = 0 ∧ x = .zero := by
  constructor
  · intro hscaled
    cases hscaled with
    | zero hzero => exact ⟨hzero, rfl⟩
    | times _ hsmall => omega
    | divided hnegative => omega
  · rintro ⟨hzero, rfl⟩
    exact .zero hzero h

end Scaled

/-- A number of 64 bits is in range. -/
theorem isNearest_ofNat {n : ℕ} (h : n < 2 ^ 64) : IsNearest n (ofNat n) := by
  refine isNearest_natCast_iff.2 ⟨?_, rfl⟩
  calc (n : ℚ) < ((2 ^ 64 : ℕ) : ℚ) := by exact_mod_cast h
    _ ≤ 10 ^ 20 := by norm_num
    _ < overflowBound := ten_pow_lt_overflowBound (by decide)

/-- A magnitude is found just if there is one for the number and the power. -/
theorem magnitude?_eq_some {significand : ℕ} {power : ℤ} {x : Binary64}
    (hfits : significand < 2 ^ 64) :
    magnitude? significand power = some x ↔ Scaled significand power x := by
  have hsignificand := isNearest_ofNat hfits
  unfold magnitude?
  split
  · next hnegative =>
    have hdivided := divided_shrink hsignificand.finite hsignificand.nonneg (-power).toNat
    rw [scaled_iff_of_neg hnegative, Option.some.injEq]
    constructor
    · rintro rfl
      exact ⟨_, hsignificand, hdivided⟩
    · rintro ⟨f, hf, hx⟩
      obtain rfl := hf.unique hsignificand
      exact hdivided.unique hx
  · next hpositive =>
    obtain ⟨k, rfl⟩ := Int.eq_ofNat_of_zero_le (not_lt.1 hpositive)
    rw [Int.toNat_natCast]
    split
    · next hk =>
      have hp := isNearest_ten_pow hk
      have hinfinite := isInfinite_times_iff (x := ofNat significand) (y := ofNat (10 ^ k))
      rw [scaled_iff_of_le hk]
      simp only
      constructor
      · intro h
        split at h
        · cases h
        · next hrange =>
          exact ⟨_, _, hsignificand, hp,
            isNearest_times_iff.2 ⟨not_le.1 (mt hinfinite.2 hrange), Option.some.inj h⟩⟩
      · rintro ⟨f, p, hf, hp', hx⟩
        obtain rfl := hf.unique hsignificand
        obtain rfl := hp'.unique hp
        obtain ⟨hrange, rfl⟩ := isNearest_times_iff.1 hx
        rw [if_neg (mt hinfinite.1 (not_le.2 hrange))]
    · next hk =>
      rw [scaled_iff_of_lt (by exact_mod_cast not_le.1 hk)]
      split
      · next hzero => rw [Option.some.injEq, eq_comm, and_iff_right hzero]
      · next hzero => exact iff_of_false nofun fun h => hzero h.1

theorem Leading.lt {n : Numeral} {significand : ℕ} {power : ℤ}
    (h : n.Leading significand power) : significand < 2 ^ 64 := by
  obtain ⟨_, _, _, _, -, -, -, htaken, rfl, -⟩ := h
  exact htaken.fits

theorem Leading.unique {n : Numeral} {significand significand' : ℕ} {power power' : ℤ}
    (h : n.Leading significand power) (h' : n.Leading significand' power') :
    significand = significand' ∧ power = power' := by
  obtain ⟨_, _, _, hwhole, hfraction, rfl⟩ := leading_iff.1 h
  obtain ⟨_, _, _, hwhole', hfraction', rfl⟩ := leading_iff.1 h'
  obtain ⟨rfl, rfl⟩ := Prod.mk.inj (hwhole.symm.trans hwhole')
  obtain ⟨rfl, rfl⟩ := Prod.mk.inj (hfraction.symm.trans hfraction')
  exact ⟨rfl, rfl⟩

theorem exists_leading (n : Numeral) : ∃ significand power, n.Leading significand power :=
  ⟨_, _, leading_iff.2 ⟨_, _, _, rfl, rfl, rfl⟩⟩

/-- A numeral is read as the number it stands for. -/
theorem realValue_eq_real {n : Numeral} {x : Binary64} : n.realValue = .real x ↔ n.Reads x := by
  obtain ⟨leading, left, hwhole⟩ : ∃ leading left, gather 0 n.whole = (leading, left) :=
    ⟨_, _, rfl⟩
  obtain ⟨significand, unused, hfraction⟩ :
      ∃ significand unused, gather leading (n.fraction.getD []) = (significand, unused) :=
    ⟨_, _, rfl⟩
  have hleading := leading_iff.2 ⟨_, _, _, hwhole, hfraction, rfl⟩
  unfold realValue
  simp only [hwhole, hfraction]
  constructor
  · intro h
    split at h
    · cases h
    · next m hm =>
      exact ⟨_, _, m, hleading, (magnitude?_eq_some hleading.lt).1 hm, (Value.real.inj h).symm⟩
  · rintro ⟨_, _, m, hleading', hscaled, rfl⟩
    obtain ⟨rfl, rfl⟩ := hleading.unique hleading'
    rw [(magnitude?_eq_some hleading.lt).2 hscaled]

theorem realValue_ne_integer (n : Numeral) (i : ℤ) : n.realValue ≠ .integer i := by
  unfold realValue
  simp only
  split <;> nofun

/-- A whole number stands for the number nearest to it. -/
theorem magnitude?_ofNat {n : ℕ} (h : n < 2 ^ 64) : magnitude? n 0 = some (ofNat n) := by
  have hn := isNearest_ofNat h
  have hpower : IsNearest (10 ^ 0) (ofNat (10 ^ 0)) := isNearest_ten_pow (Nat.zero_le _)
  refine (magnitude?_eq_some h).2 (.times le_rfl (by decide) hn hpower ?_)
  rw [pow_zero, magnitude_ofNat_one, mul_one]
  exact isNearest_magnitude hn.finite hn.nonneg

/-- An integer read off a numeral is nearest to the number that the numeral stands for. -/
theorem reads_of_value_eq_integer {n : Numeral} {i : ℤ} (h : n.value = .integer i) :
    n.Reads (Json.realOfInt i) := by
  unfold value at h
  split at h
  · next m hfraction hexponent hgather =>
    have hm := (gather_eq_nil_iff.1 hgather).2
    have hmagnitude : magnitude? m 0 = some (ofNat m) := by
      refine magnitude?_ofNat ?_
      rw [wordLimit] at hm
      omega
    have hreal : n.realValue = .real (if n.negative then (ofNat m).negate else ofNat m) := by
      have hpower : n.writtenExponent = 0 := by
        rw [writtenExponent, hexponent]
      unfold realValue
      simp only [hgather, hfraction, Option.getD_none, gather, hpower, List.length_nil]
      rw [show ((0 : ℕ) : ℤ) - (((0 : ℕ) : ℤ) - ((0 : ℕ) : ℤ)) + 0 = 0 from rfl, hmagnitude]
    rw [← realValue_eq_real, hreal]
    split at h
    · next hnegative =>
      split at h
      · exact absurd h (realValue_ne_integer n i)
      · next hsmall =>
        obtain rfl := Value.integer.inj h
        rw [if_pos hnegative, Json.realOfInt, if_pos (by omega), Int.natAbs_neg, Int.natAbs_natCast]
    · next hpositive =>
      obtain rfl := Value.integer.inj h
      rw [if_neg hpositive, Json.realOfInt, if_neg (by omega), Int.natAbs_natCast]
  · exact absurd h (realValue_ne_integer n i)

/-- A value is an integer or the number that the numeral stands for. -/
theorem value_eq_integer_or (n : Numeral) :
    (∃ i, n.value = .integer i) ∨ n.value = n.realValue := by
  unfold value
  split
  · split
    · split
      · exact Or.inr rfl
      · exact Or.inl ⟨_, rfl⟩
    · exact Or.inl ⟨_, rfl⟩
  · exact Or.inr rfl

/-- No two numbers are what a numeral stands for. -/
theorem Reads.unique {n : Numeral} {x y : Binary64} (hx : n.Reads x) (hy : n.Reads y) : x = y :=
  Value.real.inj ((realValue_eq_real.2 hx).symm.trans (realValue_eq_real.2 hy))

end Numeral
end StringReport
