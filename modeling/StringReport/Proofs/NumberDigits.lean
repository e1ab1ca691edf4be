import Mathlib.Data.List.Basic
import StringReport.Number.Hex
import StringReport.Number.Natural

/-!
# Digits that are read back

The digits of a number are those of its quotient by the base, followed by that of its remainder.
Of an address the digits are written in one of both cases, of an offset as many as its column
has, with zeros before them. They are read back digit by digit. How many digits there are is
told by the powers of sixteen: a larger number never has fewer.
-/
namespace StringReport

/-- Every character of the digits of a number is the character of a digit. -/
theorem exists_digit_of_mem_toDigits {base : Nat} (hbase : 1 < base) (n : Nat) {c : Char}
    (h : c ∈ Nat.toDigits base n) : ∃ d < base, c = Nat.digitChar d := by
  induction n using Nat.strongRecOn with
  | ind n ih =>
    rw [Nat.toDigits_eq_if hbase] at h
    split at h
    · next hn => exact ⟨n, hn, by simpa using h⟩
    · next hn =>
      rcases List.mem_append.1 h with h | h
      · exact ih (n / base) (Nat.div_lt_self (by omega) hbase) h
      · exact ⟨n % base, Nat.mod_lt n (by omega), by simpa using h⟩

/-- A number starts with a zero only if it is zero. -/
theorem head?_toDigits {base : Nat} (hbase : 1 < base) (n : Nat)
    (h : (Nat.toDigits base n).head? = some '0') : n = 0 := by
  induction n using Nat.strongRecOn with
  | ind n ih =>
    rw [Nat.toDigits_eq_if hbase] at h
    split at h
    · exact Nat.digitChar_eq_zero.1 (by simpa using h)
    · next hn =>
      rw [List.head?_append_of_ne_nil _ Nat.toDigits_ne_nil] at h
      have hzero := ih (n / base) (Nat.div_lt_self (by omega) hbase) h
      have hpos := Nat.div_pos (Nat.le_of_not_lt hn) (by omega)
      omega

namespace Hex

/-! ## Reading -/

theorem digitValue?_digitChar : ∀ d < 16, digitValue? (Nat.digitChar d) = some d := by decide

theorem digitValue?_toUpper_digitChar :
    ∀ d < 16, digitValue? (Nat.digitChar d).toUpper = some d := by decide

theorem value?_concat (cs : List Char) (c : Char) :
    value? (cs ++ [c]) = (value? cs).bind fun n => (digitValue? c).map (16 * n + ·) := by
  rw [value?, List.foldlM_append, ← value?]
  simp

/-- Digits are read back in every form in which each of them is. -/
theorem value?_map_digits {form : Char → Char}
    (hform : ∀ d < 16, digitValue? (form (Nat.digitChar d)) = some d) (n : Nat) :
    value? ((digits n).map form) = some n := by
  induction n using Nat.strongRecOn with
  | ind n ih =>
    rw [digits, Nat.toDigits_eq_if (by decide)]
    split
    · next hn => simp [value?, hform n hn]
    · next hn =>
      have hinit := ih (n / 16) (Nat.div_lt_self (by omega) (by decide))
      have hlast := hform (n % 16) (Nat.mod_lt n (by decide))
      rw [List.map_append, List.map_singleton, value?_concat, ← digits, hinit, hlast]
      exact congrArg some (Nat.div_add_mod n 16)

theorem value?_digits (n : Nat) : value? (digits n) = some n := by
  have hread : value? ((digits n).map id) = some n := value?_map_digits digitValue?_digitChar n
  rwa [List.map_id] at hread

theorem value?_upper_digits (n : Nat) : value? ((digits n).map Char.toUpper) = some n :=
  value?_map_digits digitValue?_toUpper_digitChar n

/-- Zeros before the digits do not count. -/
theorem value?_padded (width n : Nat) : value? (padded width n) = some n := by
  have hzeros (k : Nat) (cs : List Char) : value? (List.replicate k '0' ++ cs) = value? cs := by
    induction k with
    | zero => rfl
    | succ k ih => exact ih
  rw [padded, List.leftpad, hzeros, value?_digits]

/-! ## Addresses -/

/-- The value that `0x` and some digits write. -/
def address? (text : String) : Option UInt64 :=
  match text.toList with
  | '0' :: 'x' :: cs => (value? cs).map UInt64.ofNat
  | _ => none

theorem address?_upper (value : UInt64) : address? (upper value) = some value := by
  have htext : (upper value).toList = '0' :: 'x' :: (digits value.toNat).map Char.toUpper := by
    simp [upper]
  rw [address?, htext]
  simp [value?_upper_digits]

/-! ## Digits in lower case -/

/-- The digits in lower case. -/
def lowerDigits : List Char := "0123456789abcdef".toList

theorem mem_lowerDigits_of_mem_digits {n : Nat} {c : Char} (h : c ∈ digits n) :
    c ∈ lowerDigits := by
  have hdigit : ∀ d < 16, Nat.digitChar d ∈ lowerDigits := by decide
  obtain ⟨d, hd, rfl⟩ := exists_digit_of_mem_toDigits (by decide) n h
  exact hdigit d hd

theorem mem_lowerDigits_of_mem_padded {width n : Nat} {c : Char} (h : c ∈ padded width n) :
    c ∈ lowerDigits := by
  rcases List.mem_append.1 h with h | h
  · rw [List.eq_of_mem_replicate h]
    decide
  · exact mem_lowerDigits_of_mem_digits h

/-! ## How many digits there are -/

theorem length_digits_le_iff {n k : Nat} (hk : 0 < k) : (digits n).length ≤ k ↔ n < 16 ^ k :=
  Nat.length_toDigits_le_iff (by decide) hk

theorem length_digits_mono {m n : Nat} (h : m ≤ n) : (digits m).length ≤ (digits n).length := by
  have hpos : 0 < (digits n).length := Nat.length_toDigits_pos
  rw [length_digits_le_iff hpos]
  exact Nat.lt_of_le_of_lt h ((length_digits_le_iff hpos).1 (Nat.le_refl _))

/-- A number of more than one digit has no zero before its others. -/
theorem head?_digits_ne {n : Nat} (h : (digits n).length ≠ 1) : (digits n).head? ≠ some '0' := by
  intro hhead
  rw [head?_toDigits (by decide) n hhead] at h
  exact h rfl

/-- A text that is the address of a value: `0x` and digits in lower case that are read back as the
value, with no zero before them. -/
def IsAddress (value : UInt64) (text : String) : Prop :=
  ∃ cs : List Char, text = "0x" ++ String.ofList cs ∧ cs ≠ [] ∧ (∀ c ∈ cs, c ∈ lowerDigits) ∧
    value? cs = some value.toNat ∧ (cs.length ≠ 1 → cs.head? ≠ some '0')

theorem isAddress_address (value : UInt64) : IsAddress value (address value) :=
  ⟨digits value.toNat, rfl, digits_ne_nil _, fun _ hc => mem_lowerDigits_of_mem_digits hc,
    value?_digits _, head?_digits_ne⟩

end Hex
end StringReport
