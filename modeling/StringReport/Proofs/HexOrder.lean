import Mathlib.Data.Finset.Insert
import Mathlib.Order.Bounds.Defs
import StringReport.Proofs.NumberDigits

/-!
# The order of addresses

How many digits a value takes is told by the powers of sixteen, so zeros before the digits of a
smaller value make its text as long as that of a larger one. Texts of one length stand in the order
of their values: each but the last digit is that of the quotient by sixteen, and where the
quotients are the same the last digit decides.
-/
namespace StringReport.Hex

/-- The digits in upper case. -/
def upperDigits : List Char := "0123456789ABCDEF".toList

theorem mem_upperDigits_of_mem_digits {n : Nat} {c : Char}
    (h : c ∈ (digits n).map Char.toUpper) : c ∈ upperDigits := by
  have hdigit : ∀ d < 16, (Nat.digitChar d).toUpper ∈ upperDigits := by decide
  obtain ⟨digit, hmem, rfl⟩ := List.mem_map.1 h
  obtain ⟨d, hd, rfl⟩ := exists_digit_of_mem_toDigits (by decide) n hmem
  exact hdigit d hd

/-! ## How many digits a value takes -/

/-- A value takes as few digits as there can be. -/
theorem isLeast_width (value : UInt64) :
    IsLeast {k | 1 ≤ k ∧ value.toNat < 16 ^ k} (width value) := by
  refine ⟨⟨width_pos value, ?_⟩, fun k ⟨hk, hlt⟩ => ?_⟩
  · exact (length_digits_le_iff (width_pos value)).1 (Nat.le_refl _)
  · exact (length_digits_le_iff hk).2 hlt

theorem width_mono {value larger : UInt64} (h : value ≤ larger) : width value ≤ width larger :=
  length_digits_mono (UInt64.le_iff_toNat_le.1 h)

theorem toNat_lt_of_le {value larger : UInt64} (h : value ≤ larger) :
    value.toNat < 16 ^ width larger :=
  Nat.lt_of_le_of_lt (UInt64.le_iff_toNat_le.1 h) (isLeast_width larger).1.2

/-! ## Texts of one length -/

/-- What follows texts of one length does not change their order. -/
theorem append_lt_append {text text' : List Char} (hlength : text.length = text'.length)
    (h : text < text') (rest rest' : List Char) : text ++ rest < text' ++ rest' := by
  induction text generalizing text' with
  | nil =>
    rw [List.length_eq_zero_iff.1 hlength.symm] at h
    exact absurd h (List.lt_irrefl [])
  | cons c text ih =>
    cases text' with
    | nil => cases hlength
    | cons d text' =>
      rw [List.cons_append, List.cons_append, List.cons_lt_cons_iff]
      rcases List.cons_lt_cons_iff.1 h with hc | ⟨hc, htext⟩
      · exact Or.inl hc
      · exact Or.inr ⟨hc, ih (Nat.succ.inj hlength) htext⟩

/-- The last of padded digits is that of the remainder, the others are those of the quotient. -/
theorem padded_succ {w : Nat} (hw : 0 < w) (n : Nat) :
    padded (w + 1) n = padded w (n / 16) ++ [Nat.digitChar (n % 16)] := by
  have hdigits : digits n = if n < 16 then [Nat.digitChar n]
      else digits (n / 16) ++ [Nat.digitChar (n % 16)] := Nat.toDigits_eq_if (by decide)
  rw [padded, hdigits]
  split
  · next hn =>
    -- the quotient is zero, whose one digit is a zero like those before it
    have hzeros : padded w 0 = List.replicate w '0' := by
      obtain ⟨k, rfl⟩ := Nat.exists_eq_succ_of_ne_zero hw.ne'
      exact (List.replicate_succ' ..).symm
    rw [Nat.div_eq_of_lt hn, Nat.mod_eq_of_lt hn, hzeros]
    simp [List.leftpad]
  · simp [padded, List.leftpad]

/-- Padded digits stand in the order of the numbers. -/
theorem padded_lt_padded {w a b : Nat} (hw : 0 < w) (hb : b < 16 ^ w) (h : a < b) :
    padded w a < padded w b := by
  have hdigit : ∀ c < 16, ∀ d < 16, c < d → Nat.digitChar c < Nat.digitChar d := by decide
  induction w, hw using Nat.le_induction generalizing a b with
  | base =>
    have hone {n : Nat} (hn : n < 16) : padded 1 n = [Nat.digitChar n] := by
      rw [padded, digits, Nat.toDigits_of_lt_base hn]
      rfl
    rw [hone hb, hone (h.trans hb)]
    exact List.cons_lt_cons_iff.2 (Or.inl (hdigit a (h.trans hb) b hb h))
  | succ w hw ih =>
    have hquotient : b / 16 < 16 ^ w := Nat.div_lt_of_lt_mul (by rwa [← Nat.pow_succ'])
    rw [padded_succ hw, padded_succ hw]
    rcases Nat.lt_or_eq_of_le (Nat.div_le_div_right (c := 16) h.le) with hlt | heq
    · have hlength {n : Nat} (hn : n < 16 ^ w) : (padded w n).length = w := by
        rw [length_padded, Nat.max_eq_left ((length_digits_le_iff hw).2 hn)]
      exact append_lt_append
        ((hlength (hlt.trans hquotient)).trans (hlength hquotient).symm) (ih hquotient hlt) _ _
    · have hlast : a % 16 < b % 16 := by omega
      rw [heq]
      refine List.append_left_lt (List.cons_lt_cons_iff.2 (Or.inl ?_))
      exact hdigit _ (Nat.mod_lt _ (by decide)) _ (Nat.mod_lt _ (by decide)) hlast

/-! ## Offsets of one listing -/

theorem offset_inj {a b : UInt64} {w : Nat} (h : offset a w = offset b w) : a = b := by
  have hcs : padded w a.toNat = padded w b.toNat :=
    String.ofList_injective (String.append_right_inj _ |>.1 h)
  have hread := congrArg value? hcs
  rw [value?_padded, value?_padded] at hread
  exact UInt64.toNat_inj.1 (Option.some.inj hread)

theorem offset_lt_offset {a b largest : UInt64} (hb : b ≤ largest) (h : a < b) :
    offset a (width largest) < offset b (width largest) := by
  have hcs := padded_lt_padded (width_pos largest) (toNat_lt_of_le hb)
    (UInt64.lt_iff_toNat_lt.1 h)
  simp only [offset, String.lt_iff, String.toList_append, String.toList_ofList]
  exact List.append_left_lt hcs

/-- Addresses are written exactly. A value takes the fewest digits that there can be, and no
more than a larger one; its text is read back as the value, be it padded to a width, in lower
case, or without padding, in upper case. Among offsets that are padded to the width of the largest,
texts are the same just where the offsets are, and stand in the order of the offsets. -/
theorem addresses_exact :
    (∀ value : UInt64, IsLeast {k | 1 ≤ k ∧ value.toNat < 16 ^ k} (width value)) ∧
    (∀ value larger : UInt64, value ≤ larger → width value ≤ width larger) ∧
    (∀ (value : UInt64) (w : Nat), ∃ cs : List Char, offset value w = "0x" ++ String.ofList cs ∧
      cs.length = max w (width value) ∧ (∀ c ∈ cs, c ∈ lowerDigits) ∧
      value? cs = some value.toNat) ∧
    (∀ value : UInt64, ∃ cs : List Char, upper value = "0x" ++ String.ofList cs ∧
      cs.length = width value ∧ (∀ c ∈ cs, c ∈ upperDigits) ∧ value? cs = some value.toNat) ∧
    ∀ (offsets : Finset UInt64) (largest : UInt64), largest ∈ offsets →
      (∀ a ∈ offsets, a ≤ largest) → ∀ a ∈ offsets, ∀ b ∈ offsets,
        (offset a (width largest) = offset b (width largest) ↔ a = b) ∧
        (offset a (width largest) < offset b (width largest) ↔ a < b) := by
  refine ⟨isLeast_width, fun _ _ => width_mono, fun value w => ?_, fun value => ?_, ?_⟩
  · exact ⟨padded w value.toNat, rfl, length_padded w _,
      fun c => mem_lowerDigits_of_mem_padded, value?_padded w _⟩
  · exact ⟨(digits value.toNat).map Char.toUpper, rfl, List.length_map _,
      fun c => mem_upperDigits_of_mem_digits, value?_upper_digits _⟩
  · intro offsets largest _ hlargest a ha b hb
    refine ⟨⟨offset_inj, fun h => h ▸ rfl⟩, fun hlt => ?_, offset_lt_offset (hlargest b hb)⟩
    -- another order of the offsets would be another order of the texts
    by_contra hnot
    rcases UInt64.lt_or_eq_of_le (UInt64.not_lt.1 hnot) with hless | rfl
    · exact absurd (offset_lt_offset (hlargest a ha) hless) (String.lt_asymm hlt)
    · exact absurd hlt (String.lt_irrefl _)

theorem addresses_exact_sample :
    offset 0xff (width 0x100) = "0x0ff" ∧ offset 0x100 (width 0x100) = "0x100" ∧
    offset 0xff (width 0x100) < offset 0x100 (width 0x100) := by
  have htexts := addresses_exact.2.2.2.2 {0x0, 0xff, 0x100} 0x100 (by simp) (by simp)
  exact ⟨by decide, by decide, (htexts 0xff (by simp) 0x100 (by simp)).2.2 (by decide)⟩

end StringReport.Hex
