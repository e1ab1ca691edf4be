import StringReport.Proofs.WrittenTokens

/-!
# The grammar of JSON

What a JSON text is, rule by rule as in RFC 8259 and without a word about how one is read. A
tree keeps the tokens of its text unconverted: a number by the digits of its parts, a string by
the characters between its quotes.

The scanner agrees with the rules for single tokens. A numeral is scanned to its end if nothing
follows that could go on with it, and what was scanned is a numeral; a string is split off at
its closing quote, since the rules leave no quote bare in it.
-/
namespace StringReport

/-! ## Numbers -/

namespace Numeral

/-- At least one digit. -/
def IsDigits (text : List Char) : Prop := text ≠ [] ∧ ∀ c ∈ text, c.isDigit

/-- Digits that start with a zero only if that is all of them. -/
def IsWhole (text : List Char) : Prop := IsDigits text ∧ (text.head? = some '0' → text = ['0'])

/-- How a fraction is written. -/
inductive FractionText : Option (List Char) → List Char → Prop
  | none : FractionText none []
  | some {digits : List Char} : IsDigits digits → FractionText (some digits) ('.' :: digits)

/-- How the sign of an exponent is written: a plus may be left out. -/
inductive SignText : Bool → List Char → Prop
  | minus : SignText true ['-']
  | plus : SignText false ['+']
  | bare : SignText false []

/-- How an exponent is written. -/
inductive ExponentText : Option (Bool × List Char) → List Char → Prop
  | none : ExponentText none []
  | some {e : Char} {negative : Bool} {sign digits : List Char} :
    e = 'e' ∨ e = 'E' → SignText negative sign → IsDigits digits →
      ExponentText (some (negative, digits)) (e :: (sign ++ digits))

/-- How a number is written. -/
inductive Text : Numeral → List Char → Prop
  | positive {whole fractionText exponentText : List Char} {fraction : Option (List Char)}
    {exponent : Option (Bool × List Char)} :
    IsWhole whole → FractionText fraction fractionText → ExponentText exponent exponentText →
      Text ⟨false, whole, fraction, exponent⟩ (whole ++ (fractionText ++ exponentText))
  | negative {whole fractionText exponentText : List Char} {fraction : Option (List Char)}
    {exponent : Option (Bool × List Char)} :
    IsWhole whole → FractionText fraction fractionText → ExponentText exponent exponentText →
      Text ⟨true, whole, fraction, exponent⟩ ('-' :: (whole ++ (fractionText ++ exponentText)))

end Numeral

namespace Json

/-! ## Strings -/

/-- The characters that may stand between the quotes of a string. -/
inductive StringText : List Char → Prop
  | nil : StringText []
  | plain {c : Char} {text : List Char} :
    c ≠ '"' → c ≠ '\\' → 0x20 ≤ c.toNat → StringText text → StringText (c :: text)
  | letter {c : Char} {text : List Char} :
    (escaped? c).isSome → StringText text → StringText ('\\' :: c :: text)
  | number {a b c d : Char} {text : List Char} :
    (Hex.value? [a, b, c, d]).isSome → StringText text →
      StringText ('\\' :: 'u' :: a :: b :: c :: d :: text)

/-! ## Values -/

/-- A JSON value, its tokens as written. -/
inductive Tree where
  | null
  | boolean (value : Bool)
  | number (n : Numeral)
  | string (body : List Char)
  | list (items : List Tree)
  | object (members : List (List Char × Tree))

/-- Nothing but blanks. -/
def IsBlank (text : List Char) : Prop := ∀ c ∈ text, isSpace c

mutual

/-- How a value is written, from its first character to its last. -/
inductive Tree.Text : Tree → List Char → Prop
  | null : Tree.Text .null "null".toList
  | true : Tree.Text (.boolean true) "true".toList
  | false : Tree.Text (.boolean false) "false".toList
  | number {n : Numeral} {text : List Char} : n.Text text → Tree.Text (.number n) text
  | string {body : List Char} :
    StringText body → Tree.Text (.string body) ('"' :: (body ++ ['"']))
  | emptyList {blanks : List Char} :
    IsBlank blanks → Tree.Text (.list []) ('[' :: (blanks ++ [']']))
  | list {items : List Tree} {text : List Char} :
    ItemsText items text → Tree.Text (.list items) ('[' :: (text ++ [']']))
  | emptyObject {blanks : List Char} :
    IsBlank blanks → Tree.Text (.object []) ('{' :: (blanks ++ ['}']))
  | object {members : List (List Char × Tree)} {text : List Char} :
    MembersText members text → Tree.Text (.object members) ('{' :: (text ++ ['}']))

/-- How the items of a list are written, one at least. -/
inductive ItemsText : List Tree → List Char → Prop
  | last {before text after : List Char} {item : Tree} :
    IsBlank before → item.Text text → IsBlank after →
      ItemsText [item] (before ++ (text ++ after))
  | next {before text after later : List Char} {item : Tree} {items : List Tree} :
    IsBlank before → item.Text text → IsBlank after → ItemsText items later →
      ItemsText (item :: items) (before ++ (text ++ (after ++ ',' :: later)))

/-- How the members of an object are written, one at least. -/
inductive MembersText : List (List Char × Tree) → List Char → Prop
  | last {before key between middle text after : List Char} {value : Tree} :
    IsBlank before → StringText key → IsBlank between → IsBlank middle → value.Text text →
      IsBlank after →
      MembersText [(key, value)]
        (before ++ '"' :: (key ++ '"' :: (between ++ ':' :: (middle ++ (text ++ after)))))
  | next {before key between middle text after later : List Char} {value : Tree}
    {members : List (List Char × Tree)} :
    IsBlank before → StringText key → IsBlank between → IsBlank middle → value.Text text →
      IsBlank after → MembersText members later →
      MembersText ((key, value) :: members)
        (before ++ '"' :: (key ++ '"' :: (between ++ ':' :: (middle ++ (text ++
          (after ++ ',' :: later))))))

end

/-- A text that holds one value, and nothing else but blanks. -/
inductive IsText : Tree → List Char → Prop
  | mk {before text after : List Char} {tree : Tree} :
    IsBlank before → tree.Text text → IsBlank after → IsText tree (before ++ (text ++ after))

end Json

/-! ## Numbers are scanned by the grammar -/

namespace Numeral

theorem scanDigits_of_isDigits (next : List Char → List Char → Scan) {digits tail : List Char}
    (hdigits : IsDigits digits) (htail : ∀ c ∈ tail.head?, c.isDigit = false) :
    scanDigits next (digits ++ tail) = next digits tail := by
  have htake : (digits ++ tail).takeWhile Char.isDigit = digits := by
    rw [List.takeWhile_append_of_pos hdigits.2]
    cases tail with
    | nil => simp
    | cons c tail => simp [htail c rfl]
  have hdrop : (digits ++ tail).dropWhile Char.isDigit = tail := by
    rw [List.dropWhile_append_of_pos hdigits.2]
    cases tail with
    | nil => rfl
    | cons c tail => simp [htail c rfl]
  rw [scanDigits, htake, hdrop]
  cases digits with
  | nil => exact absurd rfl hdigits.1
  | cons c digits => rfl

theorem exists_of_scanDigits {next : List Char → List Char → Scan} {text rest : List Char}
    {n : Numeral} (h : scanDigits next text = .complete n rest) :
    ∃ digits tail, IsDigits digits ∧ text = digits ++ tail ∧
      next digits tail = .complete n rest := by
  unfold scanDigits at h
  split at h
  · split at h <;> cases h
  · next hne =>
    exact ⟨_, _, ⟨hne, fun c hc => List.mem_takeWhile_imp hc⟩,
      List.takeWhile_append_dropWhile.symm, h⟩

/-- No digit goes on where a fraction or an exponent may stand. -/
theorem FractionText.head_ne {fraction : Option (List Char)}
    {exponent : Option (Bool × List Char)} {text later : List Char}
    (h : FractionText fraction text) (hlater : ExponentText exponent later) :
    ∀ c ∈ (text ++ later).head?, c.isDigit = false := by
  cases h with
  | some hdigits =>
    rintro c ⟨⟩
    rfl
  | none =>
    cases hlater with
    | none =>
      rintro c ⟨⟩
    | some he hsign hdigits =>
      rintro c ⟨⟩
      rcases he with rfl | rfl <;> rfl

theorem scanExponent_of_text (negative : Bool) (whole : List Char)
    (fraction : Option (List Char)) {exponent : Option (Bool × List Char)} {text : List Char}
    (h : ExponentText exponent text) :
    scanExponent ⟨negative, whole, fraction, none⟩ text =
      .complete ⟨negative, whole, fraction, exponent⟩ [] := by
  cases h with
  | none => rfl
  | @some e minus sign digits he hsign hdigits =>
    have hscan (next : List Char → List Char → Scan) : scanDigits next digits = next digits [] := by
      rw [← List.append_nil digits, scanDigits_of_isDigits next hdigits (by simp),
        List.append_nil]
    simp only [scanExponent, if_pos he]
    cases hsign with
    | minus => exact hscan _
    | plus => exact hscan _
    | bare =>
      obtain ⟨c, digits, rfl⟩ := List.exists_cons_of_ne_nil hdigits.1
      have hc := hdigits.2 c List.mem_cons_self
      rw [List.nil_append]
      split
      · next heq =>
        obtain ⟨rfl, -⟩ := List.cons.inj heq
        exact absurd hc (by decide)
      · next heq =>
        obtain ⟨rfl, -⟩ := List.cons.inj heq
        exact absurd hc (by decide)
      · exact hscan _

theorem scanFraction_of_text (negative : Bool) (whole : List Char)
    {fraction : Option (List Char)} {exponent : Option (Bool × List Char)}
    {text later : List Char} (h : FractionText fraction text)
    (hlater : ExponentText exponent later) :
    scanFraction ⟨negative, whole, none, none⟩ (text ++ later) =
      .complete ⟨negative, whole, fraction, exponent⟩ [] := by
  cases h with
  | some hdigits =>
    have hhead : ∀ c ∈ later.head?, c.isDigit = false := FractionText.none.head_ne hlater
    rw [List.cons_append, scanFraction, scanDigits_of_isDigits _ hdigits hhead]
    exact scanExponent_of_text negative whole _ hlater
  | none =>
    have hexponent := scanExponent_of_text negative whole none hlater
    cases hlater with
    | none => exact hexponent
    | some he hsign hdigits =>
      rw [List.nil_append, scanFraction_of_ne]
      · exact hexponent
      · rintro rfl
        exact absurd he (by decide)

theorem scanWhole_of_text (negative : Bool) {whole text : List Char}
    {fraction : Option (List Char)} {exponent : Option (Bool × List Char)}
    (hwhole : IsWhole whole) (htext : ∀ c ∈ text.head?, c.isDigit = false)
    (hfraction : scanFraction ⟨negative, whole, none, none⟩ text =
      .complete ⟨negative, whole, fraction, exponent⟩ []) :
    scanWhole negative (whole ++ text) = .complete ⟨negative, whole, fraction, exponent⟩ [] := by
  obtain ⟨hdigits, hzero⟩ := hwhole
  obtain ⟨c, digits, rfl⟩ := List.exists_cons_of_ne_nil hdigits.1
  by_cases hc : c = '0'
  · obtain ⟨rfl, rfl⟩ := List.cons.inj (hzero (congrArg some hc))
    cases text with
    | nil => exact hfraction
    | cons d text =>
      show (if d.isDigit then Scan.malformed else _) = _
      rw [htext d rfl]
      exact hfraction
  · rw [List.cons_append, scanWhole]
    · rw [← List.cons_append]
      exact hfraction ▸ scanDigits_of_isDigits
        (fun digits text => scanFraction ⟨negative, digits, none, none⟩ text) hdigits htext
    · exact List.cons_ne_nil _ _
    · intro tail heq
      exact hc (List.cons.inj heq).1

/-- A written number is scanned to its end. -/
theorem scan_of_text {n : Numeral} {text : List Char} (h : n.Text text) :
    scan text = .complete n [] := by
  cases h with
  | negative hwhole hfraction hexponent =>
    exact scanWhole_of_text true hwhole (hfraction.head_ne hexponent)
      (scanFraction_of_text true _ hfraction hexponent)
  | @positive whole fractionText exponentText fraction exponent hwhole hfraction hexponent =>
    have hscan := scanWhole_of_text false hwhole (hfraction.head_ne hexponent)
      (scanFraction_of_text false _ hfraction hexponent)
    obtain ⟨c, digits, rfl⟩ := List.exists_cons_of_ne_nil hwhole.1.1
    rw [List.cons_append, scan]
    · exact hscan
    · intro tail heq
      obtain ⟨rfl, -⟩ := List.cons.inj heq
      exact absurd (hwhole.1.2 '-' List.mem_cons_self) (by decide)

/-! ### What was scanned is written as a number -/

variable {m n : Numeral} {text rest : List Char}

theorem exists_of_scanExponent (hm : m.exponent = none)
    (h : scanExponent m text = .complete n rest) :
    ∃ exponent used, n = { m with exponent := exponent } ∧ ExponentText exponent used ∧
      text = used ++ rest := by
  have hdigits {negative : Bool} {text : List Char}
      (h : scanDigits (fun digits => .complete { m with exponent := some (negative, digits) })
        text = .complete n rest) :
      ∃ digits, IsDigits digits ∧ text = digits ++ rest ∧
        n = { m with exponent := some (negative, digits) } := by
    obtain ⟨digits, tail, hdigits, htext, hnext⟩ := exists_of_scanDigits h
    obtain ⟨rfl, rfl⟩ := Scan.complete.inj hnext
    exact ⟨digits, hdigits, htext, rfl⟩
  cases text with
  | nil =>
    obtain ⟨rfl, rfl⟩ := Scan.complete.inj h
    exact ⟨none, [], by rw [← hm], .none, rfl⟩
  | cons c text =>
    simp only [scanExponent] at h
    split at h
    · next hc =>
      split at h
      · obtain ⟨digits, hall, rfl, rfl⟩ := hdigits h
        exact ⟨_, c :: '-' :: digits, rfl, .some hc .minus hall, rfl⟩
      · obtain ⟨digits, hall, rfl, rfl⟩ := hdigits h
        exact ⟨_, c :: '+' :: digits, rfl, .some hc .plus hall, rfl⟩
      · obtain ⟨digits, hall, rfl, rfl⟩ := hdigits h
        exact ⟨_, c :: digits, rfl, .some hc .bare hall, rfl⟩
    · obtain ⟨rfl, rfl⟩ := Scan.complete.inj h
      exact ⟨none, [], by rw [← hm], .none, rfl⟩

theorem exists_of_scanFraction (hfraction : m.fraction = none) (hexponent : m.exponent = none)
    (h : scanFraction m text = .complete n rest) :
    ∃ fraction exponent used used', n = ⟨m.negative, m.whole, fraction, exponent⟩ ∧
      FractionText fraction used ∧ ExponentText exponent used' ∧
        text = used ++ (used' ++ rest) := by
  unfold scanFraction at h
  split at h
  · obtain ⟨digits, tail, hdigits, rfl, hnext⟩ := exists_of_scanDigits h
    obtain ⟨exponent, used, rfl, hused, rfl⟩ :=
      exists_of_scanExponent (m := { m with fraction := some digits }) hexponent hnext
    exact ⟨some digits, exponent, '.' :: digits, used, rfl, .some hdigits, hused, rfl⟩
  · obtain ⟨exponent, used, rfl, hused, rfl⟩ := exists_of_scanExponent hexponent h
    exact ⟨none, exponent, [], used, by rw [hfraction], .none, hused, rfl⟩

theorem exists_of_scanWhole {negative : Bool} (h : scanWhole negative text = .complete n rest) :
    ∃ whole fraction exponent used used', n = ⟨negative, whole, fraction, exponent⟩ ∧
      IsWhole whole ∧ FractionText fraction used ∧ ExponentText exponent used' ∧
        text = whole ++ (used ++ (used' ++ rest)) := by
  have hzero : IsWhole ['0'] := ⟨⟨List.cons_ne_nil _ _, by simp⟩, fun _ => rfl⟩
  unfold scanWhole at h
  split at h
  · cases h
  · split at h
    · split at h
      · cases h
      · obtain ⟨fraction, exponent, used, used', rfl, hused, hused', htext⟩ :=
          exists_of_scanFraction rfl rfl h
        rw [htext]
        exact ⟨['0'], fraction, exponent, used, used', rfl, hzero, hused, hused', rfl⟩
    · obtain ⟨rfl, rfl⟩ := Scan.complete.inj h
      exact ⟨['0'], none, none, [], [], rfl, hzero, .none, .none, rfl⟩
  · next hempty hfirst =>
    split at h
    · cases h
    · next hne =>
      obtain ⟨fraction, exponent, used, used', rfl, hused, hused', htext⟩ :=
        exists_of_scanFraction rfl rfl h
      refine ⟨_, fraction, exponent, used, used', rfl,
        ⟨⟨hne, fun c hc => List.mem_takeWhile_imp hc⟩, fun hhead => ?_⟩, hused, hused', ?_⟩
      · obtain ⟨c, tail, rfl⟩ := List.exists_cons_of_ne_nil hempty
        by_cases hc : c.isDigit
        · rw [List.takeWhile_cons_of_pos hc, List.head?_cons] at hhead
          exact absurd (Option.some.inj hhead) fun heq => hfirst tail (heq ▸ rfl)
        · exact absurd (List.takeWhile_cons_of_neg hc) hne
      · rw [← htext, List.takeWhile_append_dropWhile]

/-- What was scanned is written as the number found. -/
theorem exists_of_scan (h : scan text = .complete n rest) :
    ∃ used, n.Text used ∧ text = used ++ rest := by
  unfold scan at h
  split at h
  · obtain ⟨whole, fraction, exponent, used, used', rfl, hwhole, hused, hused', rfl⟩ :=
      exists_of_scanWhole h
    exact ⟨_, .negative hwhole hused hused', by simp⟩
  · obtain ⟨whole, fraction, exponent, used, used', rfl, hwhole, hused, hused', rfl⟩ :=
      exists_of_scanWhole h
    exact ⟨_, .positive hwhole hused hused', by simp⟩

end Numeral

/-! ## Strings are split off by the grammar -/

namespace Json

/-- The characters of hexadecimal digits are neither quotes nor backslashes. -/
theorem ne_of_hexValue {cs : List Char} (h : (Hex.value? cs).isSome) :
    ∀ c ∈ cs, c ≠ '"' ∧ c ≠ '\\' := by
  have hfold (cs : List Char) (n : Nat)
      (h : (cs.foldlM (fun n c => (Hex.digitValue? c).map (16 * n + ·)) n).isSome) :
      ∀ c ∈ cs, (Hex.digitValue? c).isSome := by
    induction cs generalizing n with
    | nil => simp
    | cons c cs ih =>
      rw [List.foldlM_cons] at h
      cases hc : Hex.digitValue? c with
      | none =>
        rw [hc] at h
        cases h
      | some d =>
        rw [hc] at h
        rw [List.forall_mem_cons]
        exact ⟨by rw [hc]; rfl, ih _ h⟩
  intro c hc
  have hdigit := hfold cs 0 h c hc
  constructor
  · rintro rfl
    exact absurd hdigit (by decide)
  · rintro rfl
    exact absurd hdigit (by decide)

/-- A string is split off at the quote that closes it. -/
theorem StringText.splitString {body : List Char} (h : StringText body) (rest : List Char) :
    splitString (body ++ '"' :: rest) = (body, '"' :: rest) := by
  induction h with
  | nil => rfl
  | plain hquote hbackslash _ _ ih =>
    rw [List.cons_append, splitString_of_ne hquote hbackslash, ih]
  | letter _ _ ih =>
    rw [List.cons_append, List.cons_append, Json.splitString, ih]
  | @number a b c d text hvalue _ ih =>
    have hdigits := ne_of_hexValue hvalue
    simp only [List.forall_mem_cons] at hdigits
    obtain ⟨ha, hb, hc, hd, -⟩ := hdigits
    simp only [List.cons_append]
    rw [Json.splitString, splitString_of_ne ha.1 ha.2, splitString_of_ne hb.1 hb.2,
      splitString_of_ne hc.1 hc.2, splitString_of_ne hd.1 hd.2, ih]

/-- Every quote in a text has a backslash before it. -/
def Unbroken (text : List Char) : Prop := splitString text = (text, [])

/-- What is split off holds no quote that could have ended it. -/
theorem unbroken_splitString (text : List Char) : Unbroken (splitString text).1 := by
  unfold Unbroken
  fun_induction splitString text with
  | case1 => rfl
  | case2 => rfl
  | case3 c rest body after h ih =>
    rw [h] at ih
    rw [splitString, ih]
  | case4 c rest hquote hescape body after h ih =>
    rw [h] at ih
    by_cases hbackslash : c = '\\'
    · cases rest with
      | nil =>
        obtain ⟨rfl, -⟩ := Prod.mk.inj h
        rw [hbackslash]
        rfl
      | cons d rest => exact absurd rfl (hescape d rest hbackslash)
    · rw [splitString_of_ne hquote hbackslash, ih]

theorem StringText.unbroken {body : List Char} (h : StringText body) : Unbroken body := by
  have hsplit := unbroken_splitString (body ++ ['"'])
  rwa [h.splitString] at hsplit

theorem Unbroken.of_cons {c : Char} {text : List Char} (hquote : c ≠ '"') (hbackslash : c ≠ '\\')
    (h : Unbroken (c :: text)) : Unbroken text := by
  rw [Unbroken, splitString_of_ne hquote hbackslash] at h
  exact Prod.ext (List.cons.inj (Prod.mk.inj h).1).2 (Prod.mk.inj h).2

theorem Unbroken.of_escape {c : Char} {text : List Char} (h : Unbroken ('\\' :: c :: text)) :
    Unbroken text := by
  rw [Unbroken, splitString] at h
  obtain ⟨hbody, hafter⟩ := Prod.mk.inj h
  exact Prod.ext (List.cons.inj (List.cons.inj hbody).2).2 hafter

end Json
end StringReport
