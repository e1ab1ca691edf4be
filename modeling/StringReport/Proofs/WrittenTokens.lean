import Mathlib.Data.List.TakeWhile
import StringReport.Json.RawString
import StringReport.Json.Value
import StringReport.Proofs.NumberDigits

/-!
# The tokens of a written text

A numeral is scanned to its end as long as nothing follows that it could go on with, and a
written string up to its closing quote, since every quote inside is escaped. So each token
that is written is read back whole, whatever text comes after it.
-/
namespace StringReport

/-! ## Numerals -/

namespace Numeral

/-- A text that no numeral goes on with. -/
def Ends (rest : List Char) : Prop :=
  ∀ c ∈ rest.head?, c.isDigit = false ∧ c ≠ '.' ∧ c ≠ 'e' ∧ c ≠ 'E'

theorem ends_cons {c : Char} {rest : List Char}
    (h : c.isDigit = false ∧ c ≠ '.' ∧ c ≠ 'e' ∧ c ≠ 'E') : Ends (c :: rest) := by
  rintro d ⟨⟩
  exact h

variable {rest : List Char} {m n : Numeral}

theorem takeWhile_append_ends (text : List Char) (hrest : Ends rest) :
    (text ++ rest).takeWhile Char.isDigit = text.takeWhile Char.isDigit := by
  induction text with
  | nil =>
    cases rest with
    | nil => rfl
    | cons c rest => simp [(hrest c rfl).1]
  | cons c text ih =>
    by_cases hc : c.isDigit
    · simp [hc, ih]
    · simp [hc]

theorem dropWhile_append_ends (text : List Char) (hrest : Ends rest) :
    (text ++ rest).dropWhile Char.isDigit = text.dropWhile Char.isDigit ++ rest := by
  induction text with
  | nil =>
    cases rest with
    | nil => rfl
    | cons c rest => simp [(hrest c rfl).1]
  | cons c text ih =>
    by_cases hc : c.isDigit
    · simp [hc, ih]
    · simp [hc]

theorem scanDigits_append {next : List Char → List Char → Scan} {text : List Char}
    (hrest : Ends rest)
    (hnext : ∀ digits text, next digits text = .complete n [] →
      next digits (text ++ rest) = .complete n rest)
    (h : scanDigits next text = .complete n []) :
    scanDigits next (text ++ rest) = .complete n rest := by
  unfold scanDigits at h ⊢
  rw [takeWhile_append_ends text hrest, dropWhile_append_ends text hrest]
  split at h
  · split at h <;> cases h
  · exact hnext _ _ h

theorem scanExponent_ends (hrest : Ends rest) : scanExponent m rest = .complete m rest := by
  cases rest with
  | nil => rfl
  | cons c rest =>
    obtain ⟨-, -, he, hE⟩ := hrest c rfl
    simp [scanExponent, he, hE]

theorem scanExponent_append {text : List Char} (hrest : Ends rest)
    (h : scanExponent m text = .complete n []) :
    scanExponent m (text ++ rest) = .complete n rest := by
  cases text with
  | nil =>
    obtain ⟨rfl⟩ : m = n := by simpa [scanExponent] using h
    exact scanExponent_ends hrest
  | cons c text =>
    have hdigits {negative : Bool} {text : List Char}
        (h : scanDigits (fun digits => .complete { m with exponent := some (negative, digits) })
          text = .complete n []) :
        scanDigits (fun digits => .complete { m with exponent := some (negative, digits) })
          (text ++ rest) = .complete n rest := by
      refine scanDigits_append hrest (fun digits text h => ?_) h
      obtain ⟨hn, rfl⟩ := Scan.complete.inj h
      rw [hn, List.nil_append]
    simp only [List.cons_append, scanExponent] at h ⊢
    split
    · next hc =>
      rw [if_pos hc] at h
      cases text with
      | nil => simp [scanDigits] at h
      | cons sign text =>
        simp only [List.cons_append] at h ⊢
        split at h
        · next heq =>
          obtain ⟨rfl, rfl⟩ := List.cons.inj heq
          exact hdigits h
        · next heq =>
          obtain ⟨rfl, rfl⟩ := List.cons.inj heq
          exact hdigits h
        · next hminus hplus =>
          split
          · next heq =>
            obtain ⟨rfl, -⟩ := List.cons.inj heq
            exact absurd rfl (hminus text)
          · next heq =>
            obtain ⟨rfl, -⟩ := List.cons.inj heq
            exact absurd rfl (hplus text)
          · exact hdigits h
    · next hc =>
      rw [if_neg hc] at h
      cases h

theorem scanFraction_of_ne {c : Char} (h : c ≠ '.') (text : List Char) :
    scanFraction m (c :: text) = scanExponent m (c :: text) := by
  unfold scanFraction
  split
  · next heq =>
    obtain ⟨rfl, -⟩ := List.cons.inj heq
    exact absurd rfl h
  · rfl

theorem scanFraction_ends (hrest : Ends rest) : scanFraction m rest = .complete m rest := by
  cases rest with
  | nil => rfl
  | cons c rest =>
    rw [scanFraction_of_ne (hrest c rfl).2.1]
    exact scanExponent_ends hrest

theorem scanFraction_append {text : List Char} (hrest : Ends rest)
    (h : scanFraction m text = .complete n []) :
    scanFraction m (text ++ rest) = .complete n rest := by
  unfold scanFraction at h
  split at h
  · exact scanDigits_append hrest (fun _ _ h => scanExponent_append hrest h) h
  · next hpoint =>
    cases text with
    | nil =>
      obtain ⟨rfl⟩ : m = n := by simpa [scanExponent] using h
      exact scanFraction_ends hrest
    | cons c text =>
      have hc : c ≠ '.' := by
        rintro rfl
        exact hpoint text rfl
      rw [List.cons_append, scanFraction_of_ne hc]
      exact scanExponent_append hrest h

theorem scanWhole_append {negative : Bool} {text : List Char} (hrest : Ends rest)
    (h : scanWhole negative text = .complete n []) :
    scanWhole negative (text ++ rest) = .complete n rest := by
  unfold scanWhole at h
  split at h
  · cases h
  · next tail =>
    split at h
    · next c tail =>
      split at h
      · cases h
      · next hc =>
        simp only [List.cons_append, scanWhole, hc]
        exact scanFraction_append hrest h
    · obtain ⟨rfl⟩ := Scan.complete.inj h
      cases rest with
      | nil => rfl
      | cons c rest =>
        simp only [List.cons_append, List.nil_append, scanWhole, (hrest c rfl).1]
        exact scanFraction_ends hrest
  · next hempty hzero =>
    split at h
    · cases h
    · next hdigits =>
      obtain ⟨c, tail, rfl⟩ := List.exists_cons_of_ne_nil hempty
      rw [List.cons_append, scanWhole]
      · rw [← List.cons_append, takeWhile_append_ends _ hrest, dropWhile_append_ends _ hrest]
        split
        · next hnone => exact absurd hnone hdigits
        · exact scanFraction_append hrest h
      · exact List.cons_ne_nil _ _
      · intro tail' heq
        obtain ⟨rfl, -⟩ := List.cons.inj heq
        exact hzero tail rfl

/-- What follows a numeral is left alone, if the numeral cannot go on with it. -/
theorem scan_append {text : List Char} (hrest : Ends rest) (h : scan text = .complete n []) :
    scan (text ++ rest) = .complete n rest := by
  unfold scan at h
  split at h
  · exact scanWhole_append hrest h
  · next hminus =>
    cases text with
    | nil => cases h
    | cons c text =>
      rw [List.cons_append, scan]
      · exact scanWhole_append hrest h
      · intro tail heq
        obtain ⟨rfl, -⟩ := List.cons.inj heq
        exact hminus text rfl

theorem head_of_scan {text : List Char} (h : scan text = .complete n rest) :
    ∃ c tail, text = c :: tail ∧ (c = '-' ∨ c.isDigit) := by
  unfold scan at h
  split at h
  · exact ⟨_, _, rfl, Or.inl rfl⟩
  · unfold scanWhole at h
    split at h
    · cases h
    · exact ⟨_, _, rfl, Or.inr (by decide)⟩
    · next hempty _ =>
      obtain ⟨c, tail, rfl⟩ := List.exists_cons_of_ne_nil hempty
      refine ⟨c, tail, rfl, Or.inr ?_⟩
      by_cases hc : c.isDigit
      · exact hc
      · simp [hc] at h

/-! ### Whole numbers -/

theorem isDigit_of_mem_digits {n : Nat} {c : Char} (h : c ∈ Nat.toDigits 10 n) : c.isDigit :=
  Nat.isDigit_of_mem_toDigits (by decide) (by decide) h

/-- The numeral of a natural number. -/
def ofNat (n : Nat) : Numeral := ⟨false, Nat.toDigits 10 n, none, none⟩

theorem scan_toDigits (n : Nat) : scan (Nat.toDigits 10 n) = .complete (ofNat n) [] := by
  by_cases hn : n = 0
  · rw [hn]
    rfl
  · have hdigits : ∀ c ∈ Nat.toDigits 10 n, c.isDigit := fun c hc => isDigit_of_mem_digits hc
    have hzero : (Nat.toDigits 10 n).head? ≠ some '0' := fun h =>
      hn (head?_toDigits (by decide) n h)
    have htake : (Nat.toDigits 10 n).takeWhile Char.isDigit = Nat.toDigits 10 n :=
      List.takeWhile_eq_self_iff.2 hdigits
    have hdrop : (Nat.toDigits 10 n).dropWhile Char.isDigit = [] :=
      List.dropWhile_eq_nil_iff.2 hdigits
    rw [ofNat]
    obtain ⟨c, tail, htext⟩ :=
      List.exists_cons_of_ne_nil (Nat.toDigits_ne_nil : Nat.toDigits 10 n ≠ [])
    rw [htext] at hdigits hzero htake hdrop ⊢
    rw [scan, scanWhole, htake, hdrop]
    · rfl
    · exact List.cons_ne_nil _ _
    · intro tail' heq
      obtain ⟨rfl, -⟩ := List.cons.inj heq
      exact hzero rfl
    · intro tail' heq
      obtain ⟨rfl, -⟩ := List.cons.inj heq
      exact absurd (hdigits '-' List.mem_cons_self) (by decide)

end Numeral

namespace Json

/-! ## Strings -/

/-- A character is written as an escape of one letter, as one with digits, or as itself. -/
theorem writtenChar_cases (c : Char) :
    (∃ letter, writtenChar c = ['\\', letter] ∧ escaped? letter = some c) ∨
    (c.toNat < 0x20 ∧ writtenChar c =
      ['\\', 'u', '0', '0', Nat.digitChar (c.toNat / 16), Nat.digitChar (c.toNat % 16)]) ∨
    (c ≠ '"' ∧ c ≠ '\\' ∧ 0x20 ≤ c.toNat ∧ writtenChar c = [c]) := by
  unfold writtenChar
  split
  · next h => exact Or.inl ⟨'"', rfl, by rw [h]; rfl⟩
  next hquote =>
  split
  · next h => exact Or.inl ⟨'\\', rfl, by rw [h]; rfl⟩
  next hbackslash =>
  split
  · next h => exact Or.inl ⟨'b', rfl, by rw [h]; rfl⟩
  split
  · next h => exact Or.inl ⟨'f', rfl, by rw [h]; rfl⟩
  split
  · next h => exact Or.inl ⟨'n', rfl, by rw [h]; rfl⟩
  split
  · next h => exact Or.inl ⟨'r', rfl, by rw [h]; rfl⟩
  split
  · next h => exact Or.inl ⟨'t', rfl, by rw [h]; rfl⟩
  split
  · next h => exact Or.inr (Or.inl ⟨h, rfl⟩)
  · next h => exact Or.inr (Or.inr ⟨hquote, hbackslash, Nat.le_of_not_lt h, rfl⟩)

theorem splitString_of_ne {c : Char} (hquote : c ≠ '"') (hbackslash : c ≠ '\\')
    (text : List Char) :
    splitString (c :: text) = (c :: (splitString text).1, (splitString text).2) := by
  rw [splitString]
  · exact hquote
  · intro d rest heq _
    exact hbackslash heq

/-- No digit is a quote or a backslash. -/
theorem digitChar_ne (d : Nat) : Nat.digitChar d ≠ '"' ∧ Nat.digitChar d ≠ '\\' := by
  by_cases h : d < 16
  · have hall : ∀ e < 16, Nat.digitChar e ≠ '"' ∧ Nat.digitChar e ≠ '\\' := by decide
    exact hall d h
  · rw [Nat.digitChar_eq_star.2 (Nat.le_of_not_lt h)]
    decide

/-- A written character stands inside of its string. -/
theorem splitString_writtenChar (c : Char) (text : List Char) :
    splitString (writtenChar c ++ text) =
      (writtenChar c ++ (splitString text).1, (splitString text).2) := by
  rcases writtenChar_cases c with ⟨letter, hwritten, -⟩ | ⟨-, hwritten⟩ |
    ⟨hquote, hbackslash, -, hwritten⟩
  · rw [hwritten]
    rfl
  · obtain ⟨hhighq, hhighb⟩ := digitChar_ne (c.toNat / 16)
    obtain ⟨hlowq, hlowb⟩ := digitChar_ne (c.toNat % 16)
    rw [hwritten]
    simp only [List.cons_append, List.nil_append]
    rw [splitString, splitString_of_ne (by decide) (by decide),
      splitString_of_ne (by decide) (by decide), splitString_of_ne hhighq hhighb,
      splitString_of_ne hlowq hlowb]
  · rw [hwritten]
    exact splitString_of_ne hquote hbackslash text

/-- The characters of a string are split off at its closing quote. -/
theorem splitString_written (text rest : List Char) :
    splitString (text.flatMap writtenChar ++ '"' :: rest) =
      (text.flatMap writtenChar, '"' :: rest) := by
  induction text with
  | nil => rfl
  | cons c text ih =>
    rw [List.flatMap_cons, List.append_assoc, splitString_writtenChar, ih]

/-- A string as it is read back: its characters as written, and so many bytes beyond. -/
def RawString.written (s : String) (beyond : Nat) : RawString :=
  ⟨s.toList.flatMap writtenChar, true, beyond⟩

/-! ## Tokens -/

theorem tokens_space {c : Char} (h : isSpace c) (rest : List Char) :
    tokens (c :: rest) = tokens rest := by
  rw [tokens, if_pos h]

theorem tokens_newLine (depth : Nat) (rest : List Char) :
    tokens (newLine depth ++ rest) = tokens rest := by
  have hspaces (n : Nat) : tokens (List.replicate n ' ' ++ rest) = tokens rest := by
    induction n with
    | zero => rfl
    | succ n ih => rw [List.replicate_succ, List.cons_append, tokens_space (by decide), ih]
  rw [newLine, List.cons_append, tokens_space (by decide), hspaces]

theorem tokens_punctuation {c : Char} {token : Token} (h : punctuation? c = some token)
    (hspace : isSpace c = false) (rest : List Char) :
    tokens (c :: rest) = token :: tokens rest := by
  rw [tokens, hspace]
  simp only [Bool.false_eq_true, if_false, nextToken, h]

/-- A written string is one token. -/
theorem tokens_writtenString (s : String) (rest : List Char) :
    tokens (writtenString s ++ rest) =
      .string (.written s (leadingBytes ('"' :: rest))) :: tokens rest := by
  have hnext : nextToken '"' (s.toList.flatMap writtenChar ++ '"' :: rest) =
      (.string (.written s (leadingBytes ('"' :: rest))), rest) := by
    show stringToken _ = _
    rw [stringToken, splitString_written]
    rfl
  rw [writtenString, List.cons_append, List.cons_append, List.append_assoc, List.singleton_append,
    tokens, if_neg (by decide), hnext]

/-- What opens a numeral opens no other token. -/
theorem token_of_numeral {c : Char} (h : c = '-' ∨ c.isDigit) :
    punctuation? c = none ∧ c ≠ '"' ∧ isSpace c = false := by
  have hother (d : Char) (hd : ¬ (d = '-' ∨ d.isDigit)) : c ≠ d := by
    rintro rfl
    exact hd h
  refine ⟨?_, hother '"' (by decide), ?_⟩
  · unfold punctuation?
    split
    · exact absurd rfl (hother '[' (by decide))
    · exact absurd rfl (hother ']' (by decide))
    · exact absurd rfl (hother '{' (by decide))
    · exact absurd rfl (hother '}' (by decide))
    · exact absurd rfl (hother ',' (by decide))
    · exact absurd rfl (hother ':' (by decide))
    · rfl
  · simp only [isSpace, Bool.or_eq_false_iff, decide_eq_false_iff_not]
    exact ⟨⟨⟨hother ' ' (by decide), hother '\t' (by decide)⟩, hother '\n' (by decide)⟩,
      hother '\r' (by decide)⟩

theorem tokens_of_nextToken {c : Char} (hspace : isSpace c = false) {text rest : List Char}
    {token : Token} (h : nextToken c text = (token, rest)) :
    tokens (c :: text) = token :: tokens rest := by
  rw [tokens, hspace, h]
  rfl

/-- A numeral that cannot go on is one token. -/
theorem tokens_numeral {text rest : List Char} {n : Numeral}
    (h : Numeral.scan text = .complete n []) (hrest : Numeral.Ends rest) :
    tokens (text ++ rest) = .number n :: tokens rest := by
  obtain ⟨c, tail, rfl, hc⟩ := Numeral.head_of_scan h
  obtain ⟨hpunctuation, hquote, hspace⟩ := token_of_numeral hc
  have hscan := Numeral.scan_append hrest h
  have hnext : nextToken c (tail ++ rest) = (.number n, rest) := by
    simp only [nextToken, hpunctuation, if_neg hquote, if_pos hc, numberToken]
    rw [← List.cons_append, hscan]
  exact tokens_of_nextToken hspace hnext

theorem spell_append (word rest : List Char) : spell word (word ++ rest) = .complete rest := by
  induction word with
  | nil => cases rest <;> rfl
  | cons w word ih => rw [List.cons_append, spell, if_pos rfl, ih]

/-- A literal is one token, whatever follows. -/
theorem tokens_literal {c : Char} {l : Literal} {word : List Char}
    (h : literal? c = some (l, word)) (rest : List Char) :
    tokens (c :: word ++ rest) = .literal l :: tokens rest := by
  have hliteral : literalToken l word (word ++ rest) = (.literal l, rest) := by
    rw [literalToken, spell_append]
  have hletter : c = 'n' ∨ c = 't' ∨ c = 'f' := by
    unfold literal? at h
    split at h
    · exact Or.inl rfl
    · exact Or.inr (Or.inl rfl)
    · exact Or.inr (Or.inr rfl)
    · cases h
  have hother : punctuation? c = none ∧ c ≠ '"' ∧ ¬ (c = '-' ∨ c.isDigit) ∧ isSpace c = false := by
    rcases hletter with rfl | rfl | rfl <;> decide
  obtain ⟨hpunctuation, hquote, hnumeral, hspace⟩ := hother
  refine tokens_of_nextToken hspace ?_
  simp only [nextToken, hpunctuation, if_neg hquote, if_neg hnumeral, h]
  exact hliteral

end Json
end StringReport
