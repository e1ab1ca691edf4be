import StringReport.Number.Natural

/-!
# Rounding a quotient

A quotient is rounded to the nearest whole number. What happens half way between two
of them is what tells the rules apart.
-/
namespace StringReport.Rounding

/-- The nearest whole number, and half way between two the even one. -/
def halfEven (num den : Nat) : Nat :=
  let quotient := num / den
  let remainder := num % den
  if 2 * remainder < den then quotient
  else if den < 2 * remainder then quotient + 1
  else quotient + quotient % 2

/-- The nearest whole number, and half way between two the larger one. -/
def halfUp (num den : Nat) : Nat := (2 * num + den) / (2 * den)

/-- The rounded quotient is at most half a unit away. -/
theorem halfEven_near (num den : Nat) (hden : 0 < den) :
    2 * num ≤ (2 * halfEven num den + 1) * den ∧
      (2 * halfEven num den) * den ≤ 2 * num + den := by
  have h := Nat.div_add_mod num den
  have hr := Nat.mod_lt num hden
  generalize hq : num / den = q at h
  generalize hm : num % den = r at h hr
  have e : den * q = q * den := Nat.mul_comm _ _
  simp only [halfEven, hq, hm]
  have expand : ∀ k : Nat, (2 * k + 1) * den = 2 * (k * den) + den := fun k => by
    rw [Nat.add_mul, Nat.mul_assoc, Nat.one_mul]
  have expand' : ∀ k : Nat, (2 * k) * den = 2 * (k * den) := fun k => Nat.mul_assoc _ _ _
  have succ : (q + 1) * den = q * den + den := by rw [Nat.add_mul, Nat.one_mul]
  split
  · rw [expand, expand']; omega
  · split
    · rw [expand, expand', succ]; omega
    · rcases Nat.mod_two_eq_zero_or_one q with h2 | h2
      · simp only [h2, Nat.add_zero, expand, expand']; omega
      · simp only [h2, expand, expand', succ]; omega

end StringReport.Rounding
