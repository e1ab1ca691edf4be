import StringReport.Proofs.Inert

/-!
# Sanitized texts

A text that has nothing in it to escape is left as it is, and what the sanitizer for terminals
writes is such a text. So to sanitize a text twice is to sanitize it once, in the stricter of both
modes: the form in which a character is escaped does not depend on the mode, only whether it is.

If the text has no backslash of its own, each backslash that is written opens an escape. How many
characters belong to an escape is told by its letter, and behind a brace by the closing one. A
text is so read back from what is shown for it, without being told the mode.
-/
namespace StringReport.Sanitizer

/-! ## Safe texts -/

/-- A text that can be shown as it is: a terminal obeys nothing in it, and if only ASCII is asked
for, there is nothing else. -/
def Safe (asciiOnly : Bool) (text : String) : Prop :=
  ∀ c ∈ text.toList, Character.isControl c = false ∧ Character.isBidiControl c = false ∧
    (asciiOnly = true → Character.isAscii c = true)

theorem mustEscape_eq_false_iff {asciiOnly : Bool} {c : Char} :
    mustEscape asciiOnly c = false ↔
      Character.isControl c = false ∧ Character.isBidiControl c = false ∧
        (asciiOnly = true → Character.isAscii c = true) := by
  simp only [mustEscape, Bool.or_eq_false_iff, Bool.and_eq_false_imp, Bool.not_eq_false', and_assoc]

theorem safe_iff {asciiOnly : Bool} {text : String} :
    Safe asciiOnly text ↔ ∀ c ∈ text.toList, mustEscape asciiOnly c = false := by
  simp only [Safe, mustEscape_eq_false_iff]

/-! ## Escapes -/

/-- The escape of a character, which is the same in both modes. -/
def escapeOf (c : Char) : List Char :=
  if c = '\n' then ['\\', 'n']
  else if c = '\r' then ['\\', 'r']
  else if c = '\t' then ['\\', 't']
  else numbered c

theorem shown_eq (asciiOnly : Bool) (c : Char) :
    shown asciiOnly c = if mustEscape asciiOnly c then escapeOf c else [c] := by
  cases hescape : mustEscape asciiOnly c with
  | true => rw [shown, hescape, if_pos rfl, if_pos rfl, escapeOf]
  | false => rw [shown_of_not_mustEscape hescape, if_neg Bool.false_ne_true]

theorem isAscii_numbered (c : Char) : ∀ d ∈ numbered c, Character.isAscii d := by
  have hpadded (width : Nat) : ∀ d ∈ Hex.padded width c.toNat, Character.isAscii d := by
    have hlower : Hex.lowerDigits.all Character.isAscii = true := by decide
    exact fun d hd => List.all_eq_true.1 hlower d (Hex.mem_lowerDigits_of_mem_padded hd)
  unfold numbered
  split
  · exact List.forall_mem_cons.2 ⟨by decide, List.forall_mem_cons.2 ⟨by decide, hpadded 2⟩⟩
  · refine List.forall_mem_cons.2 ⟨by decide, List.forall_mem_cons.2 ⟨by decide,
      List.forall_mem_cons.2 ⟨by decide, List.forall_mem_append.2 ⟨hpadded 4, ?_⟩⟩⟩⟩
    exact List.forall_mem_singleton.2 (by decide)

/-- An escape has nothing in it to escape, in either mode. -/
theorem mustEscape_of_mem_escapeOf {c d : Char} (h : d ∈ escapeOf c) (asciiOnly : Bool) :
    mustEscape asciiOnly d = false := by
  have hpair {letter : Char} (hletter : mustEscape asciiOnly letter = false)
      (h : d ∈ ['\\', letter]) : mustEscape asciiOnly d = false := by
    rcases List.mem_pair.1 h with rfl | rfl
    · cases asciiOnly <;> decide
    · exact hletter
  unfold escapeOf at h
  split at h
  · exact hpair (by cases asciiOnly <;> decide) h
  split at h
  · exact hpair (by cases asciiOnly <;> decide) h
  split at h
  · exact hpair (by cases asciiOnly <;> decide) h
  · have hobeyed := inert_numbered c d h
    rw [Character.isObeyed, Bool.or_eq_false_iff] at hobeyed
    exact mustEscape_eq_false_iff.2 ⟨hobeyed.1, hobeyed.2, fun _ => isAscii_numbered c d h⟩

theorem mustEscape_of_mem_shown {asciiOnly : Bool} {c d : Char} (h : d ∈ shown asciiOnly c) :
    mustEscape asciiOnly d = false := by
  rw [shown_eq] at h
  split at h
  · exact mustEscape_of_mem_escapeOf h asciiOnly
  · next hsafe =>
    rw [List.mem_singleton.1 h]
    exact eq_false_of_ne_true hsafe

/-! ## Sanitizing twice -/

theorem flatMap_shown_of_safe {asciiOnly : Bool} {text : List Char}
    (h : ∀ c ∈ text, mustEscape asciiOnly c = false) : text.flatMap (shown asciiOnly) = text := by
  rw [List.flatMap_congr fun c hc => shown_of_not_mustEscape (h c hc)]
  exact List.flatMap_singleton' text

theorem mustEscape_or (first second : Bool) (c : Char) :
    mustEscape (first || second) c = (mustEscape first c || mustEscape second c) := by
  cases first <;> cases second <;> simp [mustEscape, Bool.or_comm, Bool.or_left_comm]

/-- What is shown for a character in one mode is shown in another as the character is in the
stricter of both. -/
theorem flatMap_shown_shown (first second : Bool) (c : Char) :
    (shown first c).flatMap (shown second) = shown (first || second) c := by
  rw [shown_eq first, shown_eq (first || second), mustEscape_or]
  cases mustEscape first c with
  | true => exact flatMap_shown_of_safe fun d hd => mustEscape_of_mem_escapeOf hd second
  | false => exact (List.flatMap_singleton ..).trans (shown_eq second c)

/-- What the sanitizer for terminals writes is safe, a text is left as it is just if it is safe
already, and to sanitize a text in one mode and then in another is to sanitize it in the stricter
of both. -/
theorem terminal_safe_fixed_composed (value : String) (first second : Bool) :
    Safe first (terminal value first) ∧
    (terminal value first = value ↔ Safe first value) ∧
    terminal (terminal value first) second = terminal value (first || second) := by
  have hsafe : Safe first (terminal value first) := by
    rw [safe_iff, toList_terminal]
    intro d hd
    obtain ⟨c, -, hd⟩ := List.mem_flatMap.1 hd
    exact mustEscape_of_mem_shown hd
  refine ⟨hsafe, ⟨fun heq => heq ▸ hsafe, fun h => ?_⟩, ?_⟩
  · rw [terminal, flatMap_shown_of_safe (safe_iff.1 h), String.ofList_toList]
  · rw [terminal, toList_terminal, List.flatMap_assoc]
    simp only [flatMap_shown_shown]
    rfl

example : terminal (terminal "\x85é\n" false) true = "\\x85\\xe9\\n" := by decide +kernel

/-! ## Reading an escape -/

/-- The character of an escape, and the text after it, given the text from its letter on. -/
def escape? : List Char → Option (Char × List Char)
  | 'n' :: rest => some ('\n', rest)
  | 'r' :: rest => some ('\r', rest)
  | 't' :: rest => some ('\t', rest)
  | 'x' :: high :: low :: rest =>
    (Hex.value? [high, low]).map fun n => (Char.ofNat n, rest)
  | 'u' :: '{' :: rest =>
    (Hex.value? (rest.takeWhile (· ≠ '}'))).map fun n =>
      (Char.ofNat n, (rest.dropWhile (· ≠ '}')).drop 1)
  | _ => none

/-- The character that a text begins with, that of the escape if it opens one, and the text after
it. -/
def nextChar (c : Char) (text : List Char) : Char × List Char :=
  if c = '\\' then (escape? text).getD (c, text) else (c, text)

theorem length_le_of_escape? {text rest : List Char} {c : Char}
    (h : escape? text = some (c, rest)) : rest.length ≤ text.length := by
  unfold escape? at h
  split at h
  · cases h
    simp
  · cases h
    simp
  · cases h
    simp
  · obtain ⟨n, -, heq⟩ := Option.map_eq_some_iff.1 h
    cases heq
    simp only [List.length_cons]
    omega
  · next text =>
    obtain ⟨n, -, heq⟩ := Option.map_eq_some_iff.1 h
    cases heq
    have hdrop := (List.dropWhile_sublist (· ≠ '}') (l := text)).length_le
    simp only [List.length_drop, List.length_cons]
    omega
  · cases h

theorem length_nextChar_le (c : Char) (text : List Char) :
    (nextChar c text).2.length ≤ text.length := by
  unfold nextChar
  split
  · cases hescape : escape? text with
    | none => exact Nat.le_refl _
    | some next => exact length_le_of_escape? hescape
  · exact Nat.le_refl _

/-- A text with its escapes replaced by their characters. A backslash that opens none stays. -/
def restored : List Char → List Char
  | [] => []
  | c :: text => (nextChar c text).1 :: restored (nextChar c text).2
termination_by text => text.length
decreasing_by exact Nat.lt_succ_of_le (length_nextChar_le c text)

/-- The text that is read back from what is shown for it. -/
def restore (shown : String) : String := String.ofList (restored shown.toList)

theorem restored_escape {text rest : List Char} {c : Char} (h : escape? text = some (c, rest)) :
    restored ('\\' :: text) = c :: restored rest := by
  rw [restored, nextChar, if_pos rfl, h, Option.getD_some]

theorem restored_cons {c : Char} (hc : c ≠ '\\') (text : List Char) :
    restored (c :: text) = c :: restored text := by
  rw [restored, nextChar, if_neg hc]

/-! ## Reading back -/

/-- A character is read back from its number, whatever follows. -/
theorem restored_numbered (c : Char) (rest : List Char) :
    restored (numbered c ++ rest) = c :: restored rest := by
  unfold numbered
  split
  · next hsmall =>
    have hlength : (Hex.padded 2 c.toNat).length = 2 := by
      rw [Hex.length_padded, Nat.max_eq_left]
      exact (Hex.length_digits_le_iff (by decide)).2 (Nat.lt_succ_of_le hsmall)
    obtain ⟨high, low, hdigits⟩ := List.length_eq_two.1 hlength
    have hvalue := Hex.value?_padded 2 c.toNat
    rw [hdigits] at hvalue ⊢
    have hescape : escape? ('x' :: high :: low :: rest) = some (c, rest) := by
      simp only [escape?, hvalue, Option.map_some, Char.ofNat_toNat]
    exact restored_escape hescape
  · have hbrace : ∀ d ∈ Hex.padded 4 c.toNat, decide (d ≠ '}') = true := by
      have hlower : Hex.lowerDigits.all (· ≠ '}') = true := by decide
      exact fun d hd => List.all_eq_true.1 hlower d (Hex.mem_lowerDigits_of_mem_padded hd)
    -- the brace closes the escape, for none of the digits is one
    have htake : (Hex.padded 4 c.toNat ++ '}' :: rest).takeWhile (· ≠ '}') =
        Hex.padded 4 c.toNat := by
      rw [List.takeWhile_append_of_pos hbrace]
      simp
    have hdrop : (Hex.padded 4 c.toNat ++ '}' :: rest).dropWhile (· ≠ '}') = '}' :: rest := by
      rw [List.dropWhile_append_of_pos hbrace]
      simp
    have hescape : escape? ('u' :: '{' :: (Hex.padded 4 c.toNat ++ '}' :: rest)) =
        some (c, rest) := by
      simp only [escape?, htake, hdrop, Hex.value?_padded, Option.map_some, Char.ofNat_toNat,
        List.drop_succ_cons, List.drop_zero]
    rw [List.append_assoc]
    exact restored_escape hescape

theorem restored_escapeOf (c : Char) (rest : List Char) :
    restored (escapeOf c ++ rest) = c :: restored rest := by
  unfold escapeOf
  split
  · next hn => rw [hn]; exact restored_escape rfl
  split
  · next hr => rw [hr]; exact restored_escape rfl
  split
  · next ht => rw [ht]; exact restored_escape rfl
  · exact restored_numbered c rest

/-- A character other than a backslash is read back from what is shown for it in either mode. -/
theorem restored_shown {c : Char} (hc : c ≠ '\\') (asciiOnly : Bool) (rest : List Char) :
    restored (shown asciiOnly c ++ rest) = c :: restored rest := by
  rw [shown_eq]
  split
  · exact restored_escapeOf c rest
  · exact restored_cons hc rest

theorem restored_flatMap_shown {text : List Char} (h : '\\' ∉ text) (asciiOnly : Bool) :
    restored (text.flatMap (shown asciiOnly)) = text := by
  induction text with
  | nil => rw [List.flatMap_nil, restored]
  | cons c text ih =>
    rw [List.mem_cons, not_or] at h
    rw [List.flatMap_cons, restored_shown (Ne.symm h.1), ih h.2]

/-- A text without a backslash is read back from what the sanitizer for terminals shows for it, by
one function for both modes. So no other such text is shown alike, in whichever mode. -/
theorem restore_terminal {value : String} (hvalue : '\\' ∉ value.toList) (asciiOnly : Bool) :
    restore (terminal value asciiOnly) = value ∧
    ∀ (other : String) (mode : Bool), '\\' ∉ other.toList →
      terminal other mode = terminal value asciiOnly → other = value := by
  have hread {text : String} (htext : '\\' ∉ text.toList) (mode : Bool) :
      restore (terminal text mode) = text := by
    rw [restore, toList_terminal, restored_flatMap_shown htext, String.ofList_toList]
  refine ⟨hread hvalue asciiOnly, fun other mode hother heq => ?_⟩
  rw [← hread hother mode, heq, hread hvalue asciiOnly]

/-- A text in which digits, a letter and a brace follow on what is escaped. -/
def mixedSample : String := "\x1b1\u202ef\x7d\tn€9"

/-- The sample is read back, and it is not shown like the same text with a soft hyphen at its
end. -/
theorem restore_terminal_mixedSample :
    '\\' ∉ mixedSample.toList ∧
    terminal mixedSample true = "\\x1b1\\u\x7b202e\x7df\x7d\\tn\\u\x7b20ac\x7d9" ∧
    restore "\\x1b1\\u\x7b202e\x7df\x7d\\tn\\u\x7b20ac\x7d9" = mixedSample ∧
    terminal (mixedSample ++ "\u00ad") false ≠ terminal mixedSample true := by
  have hsample : '\\' ∉ mixedSample.toList := by decide
  have hother : '\\' ∉ (mixedSample ++ "\u00ad").toList := by decide
  have hshown : terminal mixedSample true =
      "\\x1b1\\u\x7b202e\x7df\x7d\\tn\\u\x7b20ac\x7d9" := by decide +kernel
  obtain ⟨hread, hinjective⟩ := restore_terminal hsample true
  refine ⟨hsample, hshown, hshown ▸ hread, fun heq => ?_⟩
  exact absurd (hinjective _ false hother heq) (by decide)

end StringReport.Sanitizer
