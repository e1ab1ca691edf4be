import StringReport.Proofs.JsonGrammar

/-!
# Written values are grammatical

Whatever value is written, the grammar makes a tree of the text, and the tree shows the value: its
lists item by item, its objects member by member, its strings as they are escaped. This needs of
real numbers that their shortest texts are numbers of the grammar, which have no zero before
other digits. No digits are superfluous there because the shortest decimal of a number other
than zero is not zero.
-/
namespace StringReport

/-! ## Numbers -/

namespace Numeral

theorem isWhole_toDigits (n : Nat) : IsWhole (Nat.toDigits 10 n) := by
  refine ⟨⟨Nat.toDigits_ne_nil, fun c hc => isDigit_of_mem_digits hc⟩, fun hhead => ?_⟩
  rw [head?_toDigits (by decide) n hhead]
  rfl

/-- How a number is written that has no sign. -/
inductive Unsigned : List Char → Prop
  | mk {whole fractionText exponentText : List Char} {fraction : Option (List Char)}
    {exponent : Option (Bool × List Char)} :
    IsWhole whole → FractionText fraction fractionText → ExponentText exponent exponentText →
      Unsigned (whole ++ (fractionText ++ exponentText))

theorem Unsigned.exists_text {text : List Char} (h : Unsigned text) (negative : Bool) :
    ∃ n, Text n (if negative then '-' :: text else text) := by
  obtain ⟨hwhole, hfraction, hexponent⟩ := h
  cases negative with
  | true => exact ⟨_, .negative hwhole hfraction hexponent⟩
  | false => exact ⟨_, .positive hwhole hfraction hexponent⟩

end Numeral

namespace Decimal

open Numeral

theorem isDigits_append {digits more : List Char} (h : IsDigits digits)
    (hmore : ∀ c ∈ more, c.isDigit) : IsDigits (digits ++ more) := by
  refine ⟨List.append_ne_nil_of_left_ne_nil h.1 more, fun c hc => ?_⟩
  rcases List.mem_append.1 hc with hc | hc
  · exact h.2 c hc
  · exact hmore c hc

theorem isDigit_of_mem_zeros {count : Nat} {c : Char} (h : c ∈ List.replicate count '0') :
    c.isDigit := by
  rw [List.eq_of_mem_replicate h]
  decide

/-- Leading digits of a whole number are one. -/
theorem isWhole_take {digits : List Char} (h : IsWhole digits) (count : Nat) :
    IsWhole (digits.take (count + 1)) := by
  obtain ⟨⟨hne, hdigits⟩, hzero⟩ := h
  obtain ⟨c, later, rfl⟩ := List.exists_cons_of_ne_nil hne
  refine ⟨⟨List.cons_ne_nil _ _, fun d hd => hdigits d (List.mem_of_mem_take hd)⟩, fun hhead => ?_⟩
  obtain ⟨rfl, rfl⟩ := List.cons.inj (hzero hhead)
  rw [List.take_succ_cons, List.take_nil]

/-- Zeros after the digits of a whole number other than zero make a whole number. -/
theorem isWhole_append_zeros {digits : List Char} (h : IsWhole digits) {count : Nat}
    (hcount : digits.head? = some '0' → count = 0) :
    IsWhole (digits ++ List.replicate count '0') := by
  refine ⟨isDigits_append h.1 fun c hc => isDigit_of_mem_zeros hc, fun hhead => ?_⟩
  rw [List.head?_append_of_ne_nil _ h.1.1] at hhead
  rw [hcount hhead, List.replicate_zero, List.append_nil]
  exact h.2 hhead

/-- The point may stand anywhere among the digits of a whole number. -/
theorem unsigned_split {digits : List Char} (h : IsWhole digits) {count : Nat}
    (hcount : count + 1 < digits.length) {exponent : Option (Bool × List Char)}
    {text : List Char} (hexponent : ExponentText exponent text) :
    Unsigned (digits.take (count + 1) ++ ('.' :: digits.drop (count + 1) ++ text)) := by
  have hfraction : IsDigits (digits.drop (count + 1)) := by
    refine ⟨?_, fun c hc => h.1.2 c (List.mem_of_mem_drop hc)⟩
    rw [ne_eq, List.drop_eq_nil_iff]
    omega
  exact .mk (isWhole_take h count) (.some hfraction) hexponent

/-- A decimal is written as a number, if zero is written without further places. -/
theorem unsigned_text {d : Decimal} (h : d.digits = 0 → d.exponent = 0) : Unsigned d.text := by
  have hwhole : IsWhole (digitsOf d.digits) := isWhole_toDigits d.digits
  have hpoint : FractionText (some ['0']) ['.', '0'] := .some (isWhole_toDigits 0).1
  unfold text
  simp only
  split
  · split
    · -- the digits, and zeros up to the point
      have hzeros : (digitsOf d.digits).head? = some '0' → d.exponent.toNat = 0 := fun hhead => by
        rw [h (head?_toDigits (by decide) d.digits hhead)]
        rfl
      exact .mk (isWhole_append_zeros hwhole hzeros) hpoint .none
    split
    · -- the point stands among the digits
      next hexponent hplace =>
      have hshort : (d.exponent + (digitsOf d.digits).length - 1).toNat + 1 <
          (digitsOf d.digits).length := by omega
      have hunsigned := unsigned_split hwhole hshort .none
      rwa [List.append_nil] at hunsigned
    · -- zeros between the point and the digits
      have hdigits (count : Nat) : IsDigits (List.replicate count '0' ++ digitsOf d.digits) := by
        refine ⟨List.append_ne_nil_of_right_ne_nil _ hwhole.1.1, fun c hc => ?_⟩
        rcases List.mem_append.1 hc with hc | hc
        · exact isDigit_of_mem_zeros hc
        · exact hwhole.1.2 c hc
      have hunsigned (count : Nat) :
          Unsigned ('0' :: '.' :: (List.replicate count '0' ++ digitsOf d.digits)) := by
        have hfraction := Unsigned.mk (isWhole_toDigits 0) (.some (hdigits count)) .none
        rwa [List.append_nil] at hfraction
      exact hunsigned _
  · -- one digit before the point, and an exponent
    have hfirst := isWhole_take hwhole 0
    have hexponent (negative : Bool) (sign : Char) (hsign : SignText negative [sign]) (n : Nat) :
        ExponentText (some (negative, digitsOf n)) ('e' :: sign :: digitsOf n) :=
      .some (Or.inl rfl) hsign (isWhole_toDigits n).1
    rw [List.append_assoc]
    split
    · split
      · exact .mk hfirst .none (hexponent _ _ .minus _)
      · exact .mk hfirst .none (hexponent _ _ .plus _)
    · next hlength =>
      split
      · exact unsigned_split hwhole (Nat.lt_of_not_le hlength) (hexponent _ _ .minus _)
      · exact unsigned_split hwhole (Nat.lt_of_not_le hlength) (hexponent _ _ .plus _)

theorem digits_trim_ne {d : Decimal} (h : d.digits ≠ 0) (fuel : Nat) :
    (trim fuel d).digits ≠ 0 := by
  induction fuel generalizing d with
  | zero => exact h
  | succ fuel ih =>
    rw [trim]
    split
    · next htenth =>
      refine ih ?_
      show d.digits / 10 ≠ 0
      omega
    · exact h

end Decimal

namespace Binary64

theorem significand_pos {x : Binary64} (h : x.isZero = false) : 0 < x.significand := by
  simp only [isZero, decide_eq_false_iff_not, not_and] at h
  unfold significand
  split
  · next hexponent => exact Nat.pos_of_ne_zero (h hexponent)
  · omega

/-- Zero does not read back as another number. -/
theorem digits_gridPoint?_ne {x : Binary64} (h : x.isZero = false) {exponent : Int} {d : Decimal}
    (hd : x.gridPoint? exponent = some d) : d.digits ≠ 0 := by
  have hpos := significand_pos h
  have hinside {low high unit step point : Nat} (hlow : 0 < low) (hunit : 0 < unit)
      (h : (if x.significand % 2 = 0 then
          decide (low * unit ≤ point * step) && decide (point * step ≤ high * unit)
        else decide (low * unit < point * step) && decide (point * step < high * unit)) = true) :
      point ≠ 0 := by
    rintro rfl
    have hproduct := Nat.mul_pos hlow hunit
    rw [Nat.zero_mul] at h
    split at h
    · simp only [Bool.and_eq_true, decide_eq_true_eq] at h
      omega
    · simp only [Bool.and_eq_true, decide_eq_true_eq] at h
      omega
  unfold gridPoint? at hd
  simp only at hd
  have hlow : 0 < (if x.fractionField = 0 ∧ 1 < x.exponentField then 4 * x.significand - 1
      else 4 * x.significand - 2) := by
    split <;> omega
  split at hd
  · next hbelow _ =>
    have hne := hinside hlow (Nat.mul_pos (Nat.two_pow_pos _) (Nat.pow_pos (by decide))) hbelow
    split at hd
    · obtain rfl := Option.some.inj hd
      exact hne
    · obtain rfl := Option.some.inj hd
      exact Nat.succ_ne_zero _
  · next hbelow _ =>
    have hne := hinside hlow (Nat.mul_pos (Nat.two_pow_pos _) (Nat.pow_pos (by decide))) hbelow
    obtain rfl := Option.some.inj hd
    exact hne
  · obtain rfl := Option.some.inj hd
    exact Nat.succ_ne_zero _
  · cases hd

theorem exists_text (x : Binary64) : ∃ n, Numeral.Text n x.text.toList := by
  have hmagnitude : Numeral.Unsigned (if x.isZero then ['0', '.', '0'] else x.shortest.text) := by
    split
    · exact .mk (Numeral.isWhole_toDigits 0) (.some (Numeral.isWhole_toDigits 0).1) .none
    · next hzero =>
      refine Decimal.unsigned_text ?_
      unfold shortest
      simp only
      cases hfound : (List.range 17).findSome? fun (more : Nat) =>
          x.gridPoint? (leadingPlace x.numerator x.denominator - more) with
      | none =>
        intro _
        rfl
      | some d =>
        obtain ⟨more, -, hd⟩ := List.exists_of_findSome?_eq_some hfound
        have hne := digits_gridPoint?_ne (eq_false_of_ne_true hzero) hd
        exact fun h => absurd h (Decimal.digits_trim_ne hne 17)
  rw [text, String.toList_ofList]
  exact hmagnitude.exists_text x.isNegative

end Binary64

namespace Json

/-! ## Strings -/

theorem stringText_written (text : List Char) : StringText (text.flatMap writtenChar) := by
  induction text with
  | nil => exact .nil
  | cons c text ih =>
    rw [List.flatMap_cons]
    rcases writtenChar_cases c with ⟨letter, hwritten, hescaped⟩ | ⟨hcontrol, hwritten⟩ |
      ⟨hquote, hbackslash, hplain, hwritten⟩
    · rw [hwritten]
      exact .letter (Option.isSome_of_eq_some hescaped) ih
    · have hvalue : ∀ m < 0x20,
          (Hex.value? ['0', '0', Nat.digitChar (m / 16), Nat.digitChar (m % 16)]).isSome := by
        decide
      rw [hwritten]
      exact .number (hvalue c.toNat hcontrol) ih
    · rw [hwritten]
      exact .plain hquote hbackslash hplain ih

/-! ## Values -/

/-- The number that a real number is written as, if it is finite. -/
def realTree (x : Binary64) : Tree :=
  match x.isFinite, Numeral.scan x.text.toList with
  | true, .complete n _ => .number n
  | _, _ => .null

mutual

/-- The tree of a value that is written. -/
def Value.tree : Value → Tree
  | .null => .null
  | .boolean b => .boolean b
  | .natural n => .number (.ofNat n)
  | .real x => realTree x
  | .string s => .string (s.toList.flatMap writtenChar)
  | .list items => .list (itemTrees items)
  | .object members => .object (memberTrees members)

def itemTrees : List Value → List Tree
  | [] => []
  | item :: items => item.tree :: itemTrees items

def memberTrees : List (String × Value) → List (List Char × Tree)
  | [] => []
  | (key, value) :: members =>
    (key.toList.flatMap writtenChar, value.tree) :: memberTrees members

end

theorem memberTrees_eq_map (members : List (String × Value)) :
    memberTrees members =
      members.map fun member => (member.1.toList.flatMap writtenChar, member.2.tree) := by
  induction members with
  | nil => rfl
  | cons member members ih => rw [memberTrees, ih, List.map_cons]

theorem text_realTree (x : Binary64) : (realTree x).Text (writtenReal x) := by
  obtain ⟨n, hn⟩ := x.exists_text
  rw [realTree, writtenReal, Numeral.scan_of_text hn]
  cases x.isFinite with
  | true => exact .number hn
  | false => exact .null

theorem isBlank_newLine (depth : Nat) : IsBlank (newLine depth) := by
  intro c hc
  rcases List.mem_cons.1 hc with rfl | hc
  · decide
  · rw [List.eq_of_mem_replicate hc]
    decide

theorem isBlank_nil : IsBlank [] := nofun

mutual

/-- A value is written as the grammar has it. -/
theorem text_written (value : Value) (depth : Nat) : value.tree.Text (value.written depth) := by
  cases value with
  | null => exact .null
  | boolean b =>
    cases b with
    | true => exact .true
    | false => exact .false
  | natural n =>
    have htext := Numeral.Text.positive (Numeral.isWhole_toDigits n) .none .none
    rw [List.append_nil, List.append_nil] at htext
    exact .number htext
  | real x => exact text_realTree x
  | string s => exact .string (stringText_written s.toList)
  | list items =>
    cases items with
    | nil => exact .emptyList isBlank_nil
    | cons item items =>
      have hitem := text_written item (depth + 1)
      have htext := itemsText_written items (depth + 1) (isBlank_newLine (depth + 1)) hitem
        (isBlank_newLine depth)
      rw [Value.tree, itemTrees, Value.written]
      simpa only [List.cons_append, List.append_assoc] using Tree.Text.list htext
  | object members =>
    cases members with
    | nil => exact .emptyObject isBlank_nil
    | cons member members =>
      obtain ⟨key, value⟩ := member
      have hvalue := text_written value (depth + 1)
      have htext := membersText_written members (depth + 1) key (isBlank_newLine (depth + 1)) hvalue
        (isBlank_newLine depth)
      rw [Value.tree, memberTrees, Value.written]
      simpa only [List.cons_append, List.append_assoc] using Tree.Text.object htext

/-- Items are written after a first one, and all of them between blanks. -/
theorem itemsText_written (items : List Value) (depth : Nat) {item : Tree}
    {before text after : List Char} (hbefore : IsBlank before) (hitem : item.Text text)
    (hafter : IsBlank after) :
    ItemsText (item :: itemTrees items)
      (before ++ (text ++ (writtenItems depth items ++ after))) := by
  cases items with
  | nil => exact .last hbefore hitem hafter
  | cons next items =>
    have hnext := text_written next depth
    have hlater := itemsText_written items depth (isBlank_newLine depth) hnext hafter
    rw [itemTrees, writtenItems]
    simpa only [List.cons_append, List.append_assoc, List.nil_append] using
      ItemsText.next hbefore hitem isBlank_nil hlater

/-- Members are written after a first one, and all of them between blanks. -/
theorem membersText_written (members : List (String × Value)) (depth : Nat) (key : String)
    {value : Tree} {before text after : List Char} (hbefore : IsBlank before)
    (hvalue : value.Text text) (hafter : IsBlank after) :
    MembersText ((key.toList.flatMap writtenChar, value) :: memberTrees members)
      (before ++ (writtenString key ++
        ':' :: ' ' :: (text ++ (writtenMembers depth members ++ after)))) := by
  have hkey := stringText_written key.toList
  have hspace : IsBlank [' '] := List.forall_mem_singleton.2 rfl
  rw [writtenString]
  cases members with
  | nil =>
    rw [memberTrees, writtenMembers]
    simpa only [List.cons_append, List.append_assoc, List.nil_append] using
      MembersText.last hbefore hkey isBlank_nil hspace hvalue hafter
  | cons next members =>
    obtain ⟨name, next⟩ := next
    have hnext := text_written next depth
    have hlater := membersText_written members depth name (isBlank_newLine depth) hnext hafter
    rw [memberTrees, writtenMembers]
    simpa only [List.cons_append, List.append_assoc, List.nil_append] using
      MembersText.next hbefore hkey isBlank_nil hspace hvalue isBlank_nil hlater

end

/-- The text of a value holds the tree of the value. -/
theorem isText_text (value : Value) : IsText value.tree value.text.toList := by
  have htext := IsText.mk isBlank_nil (text_written value 0) isBlank_nil
  rw [List.append_nil] at htext
  rwa [Value.text, String.toList_ofList]

end Json
end StringReport
