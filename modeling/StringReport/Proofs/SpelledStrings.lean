import StringReport.Json.Decoder
import StringReport.Proofs.GrammarOutline

/-!
# What strings spell

The text of a string spells its characters: an escape stands for one, and surrogates come in
pairs. A string is decoded to what it spells, and passed over if it is well formed, whichever
bytes lie beyond it; so a value is passed over just if it is whole, down to its strings.
-/
namespace StringReport
namespace Json

/-- The characters that the text of a string stands for. Surrogates come in pairs. -/
inductive Spells : List Char → List Char → Prop
  | nil : Spells [] []
  | plain {c : Char} {text cs : List Char} :
    c ≠ '\\' → 0x20 ≤ c.toNat → Spells text cs → Spells (c :: text) (c :: cs)
  | letter {letter c : Char} {text cs : List Char} :
    escaped? letter = some c → Spells text cs → Spells ('\\' :: letter :: text) (c :: cs)
  | number {a b c d : Char} {n : Nat} {text cs : List Char} :
    Hex.value? [a, b, c, d] = some n → isHighSurrogate n = false → isLowSurrogate n = false →
      Spells text cs → Spells ('\\' :: 'u' :: a :: b :: c :: d :: text) (Char.ofNat n :: cs)
  | pair {a b c d a' b' c' d' : Char} {high low : Nat} {text cs : List Char} :
    Hex.value? [a, b, c, d] = some high → isHighSurrogate high →
      Hex.value? [a', b', c', d'] = some low → isLowSurrogate low → Spells text cs →
        Spells ('\\' :: 'u' :: a :: b :: c :: d :: '\\' :: 'u' :: a' :: b' :: c' :: d' :: text)
          (joinSurrogates high low :: cs)

/-! ## Decoding -/

/-- Four digits are read wherever they stand: the bytes beyond only tell how a text that lacks
them is refused. -/
theorem fourDigits_eq_ok {beyond n : Nat} {text rest : List Char} :
    fourDigits beyond text = .ok (n, rest) ↔
      ∃ a b c d, text = a :: b :: c :: d :: rest ∧ Hex.value? [a, b, c, d] = some n := by
  constructor
  · intro h
    unfold fourDigits at h
    split at h
    · cases h
    · split at h
      · split at h
        · next hvalue =>
          obtain ⟨rfl, rfl⟩ := Prod.mk.inj (Except.ok.inj h)
          exact ⟨_, _, _, _, rfl, hvalue⟩
        · cases h
      · cases h
  · rintro ⟨a, b, c, d, rfl, hvalue⟩
    have hbytes : ¬ leadingBytes (a :: b :: c :: d :: rest) + beyond < 4 := by
      have ha := a.utf8Size_pos
      have hb := b.utf8Size_pos
      have hc := c.utf8Size_pos
      have hd := d.utf8Size_pos
      simp only [leadingBytes, List.take_succ_cons, List.take_zero, List.map_cons, List.map_nil,
        List.sum_cons, List.sum_nil]
      omega
    simp only [fourDigits, if_neg hbytes, hvalue]

theorem lowSurrogate_eq_ok {closing : Closing} {beyond n : Nat} {text rest : List Char} :
    lowSurrogate closing beyond text = .ok (n, rest) ↔
      ∃ a b c d, text = '\\' :: 'u' :: a :: b :: c :: d :: rest ∧
        Hex.value? [a, b, c, d] = some n ∧ isLowSurrogate n := by
  constructor
  · intro h
    unfold lowSurrogate at h
    split at h
    · cases h
    · cases h
    · obtain ⟨⟨low, after⟩, hdigits, hpair⟩ := exists_of_bind_eq_ok h
      obtain ⟨a, b, c, d, rfl, hvalue⟩ := fourDigits_eq_ok.1 hdigits
      simp only at hpair
      split at hpair
      · next hlow =>
        obtain ⟨rfl, rfl⟩ := Prod.mk.inj (Except.ok.inj hpair)
        exact ⟨a, b, c, d, rfl, hvalue, hlow⟩
      · cases hpair
    · cases h
  · rintro ⟨a, b, c, d, rfl, hvalue, hlow⟩
    have hdigits : fourDigits beyond (a :: b :: c :: d :: rest) = .ok (n, rest) :=
      fourDigits_eq_ok.2 ⟨a, b, c, d, rfl, hvalue⟩
    simp only [lowSurrogate, hdigits, bind, Except.bind, hlow, if_true]

theorem numberedChar_eq_ok {closing : Closing} {beyond : Nat} {text rest : List Char} {c : Char} :
    numberedChar closing beyond text = .ok (c, rest) ↔
      (∃ d₁ d₂ d₃ d₄ n, text = d₁ :: d₂ :: d₃ :: d₄ :: rest ∧ Hex.value? [d₁, d₂, d₃, d₄] = some n ∧
        isHighSurrogate n = false ∧ isLowSurrogate n = false ∧ c = Char.ofNat n) ∨
      ∃ d₁ d₂ d₃ d₄ e₁ e₂ e₃ e₄ high low,
        text = d₁ :: d₂ :: d₃ :: d₄ :: '\\' :: 'u' :: e₁ :: e₂ :: e₃ :: e₄ :: rest ∧
        Hex.value? [d₁, d₂, d₃, d₄] = some high ∧ isHighSurrogate high ∧
        Hex.value? [e₁, e₂, e₃, e₄] = some low ∧ isLowSurrogate low ∧
          c = joinSurrogates high low := by
  constructor
  · intro h
    obtain ⟨⟨n, after⟩, hdigits, hchar⟩ := exists_of_bind_eq_ok h
    obtain ⟨d₁, d₂, d₃, d₄, rfl, hvalue⟩ := fourDigits_eq_ok.1 hdigits
    simp only at hchar
    split at hchar
    · cases hchar
    next hlow =>
    split at hchar
    · next hhigh =>
      obtain ⟨⟨low, after'⟩, hpair, hjoin⟩ := exists_of_bind_eq_ok hchar
      obtain ⟨e₁, e₂, e₃, e₄, rfl, hvalue', hlow'⟩ := lowSurrogate_eq_ok.1 hpair
      obtain ⟨rfl, rfl⟩ := Prod.mk.inj (Except.ok.inj hjoin)
      exact Or.inr ⟨d₁, d₂, d₃, d₄, e₁, e₂, e₃, e₄, n, low, rfl, hvalue, hhigh, hvalue', hlow', rfl⟩
    · next hhigh =>
      obtain ⟨rfl, rfl⟩ := Prod.mk.inj (Except.ok.inj hchar)
      exact Or.inl ⟨d₁, d₂, d₃, d₄, n, rfl, hvalue, eq_false_of_ne_true hhigh,
        eq_false_of_ne_true hlow, rfl⟩
  · rintro (⟨d₁, d₂, d₃, d₄, n, rfl, hvalue, hhigh, hlow, rfl⟩ |
      ⟨d₁, d₂, d₃, d₄, e₁, e₂, e₃, e₄, high, low, rfl, hvalue, hhigh, hvalue', hlow', hc⟩)
    · have hdigits : fourDigits beyond (d₁ :: d₂ :: d₃ :: d₄ :: rest) = .ok (n, rest) :=
        fourDigits_eq_ok.2 ⟨d₁, d₂, d₃, d₄, rfl, hvalue⟩
      simp only [numberedChar, hdigits, bind, Except.bind, hhigh, hlow, Bool.false_eq_true,
        if_false]
    · have hpair : lowSurrogate closing beyond ('\\' :: 'u' :: e₁ :: e₂ :: e₃ :: e₄ :: rest) =
          .ok (low, rest) := lowSurrogate_eq_ok.2 ⟨e₁, e₂, e₃, e₄, rfl, hvalue', hlow'⟩
      have hdigits : fourDigits beyond (d₁ :: d₂ :: d₃ :: d₄ :: '\\' :: 'u' :: e₁ :: e₂ :: e₃ ::
          e₄ :: rest) = .ok (high, '\\' :: 'u' :: e₁ :: e₂ :: e₃ :: e₄ :: rest) :=
        fourDigits_eq_ok.2 ⟨d₁, d₂, d₃, d₄, rfl, hvalue⟩
      have hlow : isLowSurrogate high = false := by
        simp only [isHighSurrogate, isLowSurrogate, Bool.and_eq_true, Bool.and_eq_false_iff,
          decide_eq_true_eq, decide_eq_false_iff_not] at hhigh ⊢
        omega
      rw [numberedChar, hdigits]
      simp only [bind, Except.bind, hlow, hhigh, Bool.false_eq_true, if_false, if_true]
      rw [hpair, hc]

/-- An escape with digits spells the character that it is read as. -/
theorem spells_numbered (closing : Closing) (beyond : Nat) {text cs : List Char} :
    Spells ('\\' :: 'u' :: text) cs ↔
      ∃ c rest later, numberedChar closing beyond text = .ok (c, rest) ∧ Spells rest later ∧
        cs = c :: later := by
  constructor
  · intro h
    cases h with
    | plain hne _ _ => exact absurd rfl hne
    | letter hletter _ => cases hletter
    | number hvalue hhigh hlow hlater =>
      exact ⟨_, _, _, numberedChar_eq_ok.2 (Or.inl ⟨_, _, _, _, _, rfl, hvalue, hhigh, hlow, rfl⟩),
        hlater, rfl⟩
    | pair hvalue hhigh hvalue' hlow hlater =>
      exact ⟨_, _, _, numberedChar_eq_ok.2
        (Or.inr ⟨_, _, _, _, _, _, _, _, _, _, rfl, hvalue, hhigh, hvalue', hlow, rfl⟩),
        hlater, rfl⟩
  · rintro ⟨c, rest, later, hnumbered, hlater, rfl⟩
    rcases numberedChar_eq_ok.1 hnumbered with ⟨d₁, d₂, d₃, d₄, n, rfl, hvalue, hhigh, hlow, rfl⟩ |
      ⟨d₁, d₂, d₃, d₄, e₁, e₂, e₃, e₄, high, low, rfl, hvalue, hhigh, hvalue', hlow', hc⟩
    · exact .number hvalue hhigh hlow hlater
    · rw [hc]
      exact .pair hvalue hhigh hvalue' hlow' hlater

theorem spells_letter {letter : Char} (hletter : letter ≠ 'u') {text cs : List Char} :
    Spells ('\\' :: letter :: text) cs ↔
      ∃ c later, escaped? letter = some c ∧ Spells text later ∧ cs = c :: later := by
  constructor
  · intro h
    cases h with
    | plain hne _ _ => exact absurd rfl hne
    | letter hescaped hlater => exact ⟨_, _, hescaped, hlater, rfl⟩
    | number _ _ _ _ => exact absurd rfl hletter
    | pair _ _ _ _ _ => exact absurd rfl hletter
  · rintro ⟨c, later, hescaped, hlater, rfl⟩
    exact .letter hescaped hlater

theorem spells_plain {c : Char} (hc : c ≠ '\\') {text cs : List Char} :
    Spells (c :: text) cs ↔ 0x20 ≤ c.toNat ∧ ∃ later, Spells text later ∧ cs = c :: later := by
  constructor
  · intro h
    cases h with
    | plain _ hcontrol hlater => exact ⟨hcontrol, _, hlater, rfl⟩
    | letter _ _ => exact absurd rfl hc
    | number _ _ _ _ => exact absurd rfl hc
    | pair _ _ _ _ _ => exact absurd rfl hc
  · rintro ⟨hcontrol, later, hlater, rfl⟩
    exact .plain hc hcontrol hlater

theorem ne_backslash {c : Char} {rest : List Char} (hend : c = '\\' → rest = [] → False)
    (hescape : ∀ d text, c = '\\' → rest = d :: text → False) : c ≠ '\\' := by
  rintro rfl
  cases rest with
  | nil => exact hend rfl rfl
  | cons d text => exact hescape d text rfl rfl

/-- A string is decoded to what it spells, if it was closed. -/
theorem unescape_eq_ok {closing : Closing} {beyond : Nat} {text cs : List Char} :
    unescape closing beyond text = .ok cs ↔ closing = .quote ∧ Spells text cs := by
  fun_induction unescape closing beyond text generalizing cs with
  | case1 hclosing =>
    constructor
    · intro h
      cases h
      exact ⟨hclosing, .nil⟩
    · rintro ⟨-, ⟨⟩⟩
      rfl
  | case2 hclosing => simp [hclosing]
  | case3 =>
    refine ⟨nofun, ?_⟩
    rintro ⟨-, hspells⟩
    cases hspells with
    | plain hne _ _ => exact absurd rfl hne
  | case4 rest fault h =>
    refine ⟨nofun, ?_⟩
    rintro ⟨-, hspells⟩
    obtain ⟨c, after, later, hnumbered, -, -⟩ := (spells_numbered closing beyond).1 hspells
    rw [h] at hnumbered
    cases hnumbered
  | case5 rest c after h hlength ih =>
    rw [map_eq_ok, spells_numbered closing beyond]
    constructor
    · rintro ⟨later, hlater, rfl⟩
      obtain ⟨hclosing, hspells⟩ := ih.1 hlater
      exact ⟨hclosing, c, after, later, h, hspells, rfl⟩
    · rintro ⟨hclosing, c', after', later, hnumbered, hspells, rfl⟩
      obtain ⟨rfl, rfl⟩ := Prod.mk.inj (Except.ok.inj (h.symm.trans hnumbered))
      exact ⟨later, ih.2 ⟨hclosing, hspells⟩, rfl⟩
  | case6 letter rest hletter c hescaped ih =>
    rw [map_eq_ok, spells_letter hletter]
    constructor
    · rintro ⟨later, hlater, rfl⟩
      obtain ⟨hclosing, hspells⟩ := ih.1 hlater
      exact ⟨hclosing, c, later, hescaped, hspells, rfl⟩
    · rintro ⟨hclosing, c', later, hescaped', hspells, rfl⟩
      obtain rfl := Option.some.inj (hescaped.symm.trans hescaped')
      exact ⟨later, ih.2 ⟨hclosing, hspells⟩, rfl⟩
  | case7 letter rest hletter hescaped =>
    refine ⟨nofun, ?_⟩
    rw [spells_letter hletter]
    rintro ⟨-, c, later, hescaped', -, -⟩
    rw [hescaped] at hescaped'
    cases hescaped'
  | case8 c rest hend hescape hcontrol =>
    refine ⟨nofun, ?_⟩
    rw [spells_plain (ne_backslash hend hescape)]
    rintro ⟨-, hplain, -⟩
    exact absurd hcontrol (Nat.not_lt.2 hplain)
  | case9 c rest hend hescape hcontrol ih =>
    rw [map_eq_ok, spells_plain (ne_backslash hend hescape)]
    constructor
    · rintro ⟨later, hlater, rfl⟩
      obtain ⟨hclosing, hspells⟩ := ih.1 hlater
      exact ⟨hclosing, Nat.not_lt.1 hcontrol, later, hspells, rfl⟩
    · rintro ⟨hclosing, -, later, hspells, rfl⟩
      exact ⟨later, ih.2 ⟨hclosing, hspells⟩, rfl⟩

/-! ## Well-formed strings -/

theorem Unbroken.head_ne {c : Char} {text : List Char} (h : Unbroken (c :: text)) : c ≠ '"' := by
  rintro rfl
  cases (Prod.mk.inj h).1

theorem Unbroken.of_number {a b c d : Char} {text : List Char}
    (h : Unbroken ('\\' :: 'u' :: a :: b :: c :: d :: text))
    (hvalue : (Hex.value? [a, b, c, d]).isSome) : Unbroken text := by
  have hdigits := ne_of_hexValue hvalue
  simp only [List.forall_mem_cons] at hdigits
  obtain ⟨ha, hb, hc, hd, -⟩ := hdigits
  exact (((h.of_escape.of_cons ha.1 ha.2).of_cons hb.1 hb.2).of_cons hc.1 hc.2).of_cons hd.1 hd.2

/-- What spells something is well formed. -/
theorem Spells.stringText {text cs : List Char} (h : Spells text cs) (hunbroken : Unbroken text) :
    StringText text := by
  induction h with
  | nil => exact .nil
  | plain hbackslash hplain _ ih =>
    have hquote := hunbroken.head_ne
    exact .plain hquote hbackslash hplain (ih (hunbroken.of_cons hquote hbackslash))
  | letter hletter _ ih =>
    exact .letter (Option.isSome_of_eq_some hletter) (ih hunbroken.of_escape)
  | number hvalue _ _ _ ih =>
    have hsome := Option.isSome_of_eq_some hvalue
    exact .number hsome (ih (hunbroken.of_number hsome))
  | pair hhigh _ hlow _ _ ih =>
    have hsome := Option.isSome_of_eq_some hhigh
    have hsome' := Option.isSome_of_eq_some hlow
    exact .number hsome (.number hsome' (ih ((hunbroken.of_number hsome).of_number hsome')))

/-- What is written of characters spells them. -/
theorem spells_written (text : List Char) : Spells (text.flatMap writtenChar) text := by
  induction text with
  | nil => exact .nil
  | cons c text ih =>
    rw [List.flatMap_cons]
    rcases writtenChar_cases c with ⟨letter, hwritten, hescaped⟩ | ⟨hcontrol, hwritten⟩ |
      ⟨-, hbackslash, hplain, hwritten⟩
    · rw [hwritten]
      exact .letter hescaped ih
    · have hvalue : ∀ m < 0x20,
          Hex.value? ['0', '0', Nat.digitChar (m / 16), Nat.digitChar (m % 16)] = some m := by
        decide
      have hhigh : isHighSurrogate c.toNat = false := by
        simp only [isHighSurrogate, Bool.and_eq_false_iff, decide_eq_false_iff_not]
        omega
      have hlow : isLowSurrogate c.toNat = false := by
        simp only [isLowSurrogate, Bool.and_eq_false_iff, decide_eq_false_iff_not]
        omega
      have hspells := Spells.number (hvalue c.toNat hcontrol) hhigh hlow ih
      rw [Char.ofNat_toNat] at hspells
      rw [hwritten]
      exact hspells
    · rw [hwritten]
      exact .plain hbackslash hplain ih

theorem stringText_numbered (beyond : Nat) {text : List Char} :
    StringText ('\\' :: 'u' :: text) ↔
      ∃ n rest, fourDigits beyond text = .ok (n, rest) ∧ StringText rest := by
  constructor
  · intro h
    cases h with
    | plain _ hne _ _ => exact absurd rfl hne
    | letter hletter _ => cases hletter
    | number hvalue htext =>
      obtain ⟨n, hn⟩ := Option.isSome_iff_exists.1 hvalue
      exact ⟨n, _, fourDigits_eq_ok.2 ⟨_, _, _, _, rfl, hn⟩, htext⟩
  · rintro ⟨n, rest, hdigits, htext⟩
    obtain ⟨a, b, c, d, rfl, hvalue⟩ := fourDigits_eq_ok.1 hdigits
    exact .number (Option.isSome_of_eq_some hvalue) htext

theorem stringText_letter {letter : Char} (hletter : letter ≠ 'u') {text : List Char} :
    StringText ('\\' :: letter :: text) ↔ (escaped? letter).isSome ∧ StringText text := by
  constructor
  · intro h
    cases h with
    | plain _ hne _ _ => exact absurd rfl hne
    | letter hescaped htext => exact ⟨hescaped, htext⟩
    | number _ _ => exact absurd rfl hletter
  · exact fun h => .letter h.1 h.2

theorem stringText_plain {c : Char} (hquote : c ≠ '"') (hbackslash : c ≠ '\\')
    {text : List Char} : StringText (c :: text) ↔ 0x20 ≤ c.toNat ∧ StringText text := by
  constructor
  · intro h
    cases h with
    | plain _ _ hplain htext => exact ⟨hplain, htext⟩
    | letter _ _ => exact absurd rfl hbackslash
    | number _ _ => exact absurd rfl hbackslash
  · exact fun h => .plain hquote hbackslash h.1 h.2

/-- A string is passed over if it is well formed and was closed. -/
theorem checkString_eq_ok {closing : Closing} {beyond : Nat} {text : List Char}
    (hunbroken : Unbroken text) :
    checkString closing beyond text = .ok () ↔ closing = .quote ∧ StringText text := by
  fun_induction checkString closing beyond text with
  | case1 hclosing => exact ⟨fun _ => ⟨hclosing, .nil⟩, fun _ => rfl⟩
  | case2 hclosing => simp [hclosing]
  | case3 =>
    refine ⟨nofun, ?_⟩
    rintro ⟨-, htext⟩
    cases htext with
    | plain _ hne _ _ => exact absurd rfl hne
  | case4 rest fault h =>
    refine ⟨nofun, ?_⟩
    rintro ⟨-, htext⟩
    obtain ⟨n, after, hdigits, -⟩ := (stringText_numbered beyond).1 htext
    rw [h] at hdigits
    cases hdigits
  | case5 rest n after h hlength ih =>
    have hafter : Unbroken after := by
      obtain ⟨a, b, c, d, rfl, hvalue⟩ := fourDigits_eq_ok.1 h
      exact hunbroken.of_number (Option.isSome_of_eq_some hvalue)
    rw [ih hafter, stringText_numbered beyond, h]
    simp only [Except.ok.injEq, Prod.mk.injEq, and_assoc, exists_and_left, exists_eq_left']
  | case6 letter rest hletter hescaped ih =>
    rw [ih hunbroken.of_escape, stringText_letter hletter]
    simp [hescaped]
  | case7 letter rest hletter hescaped =>
    rw [stringText_letter hletter]
    simp [hescaped]
  | case8 c rest hend hescape hcontrol =>
    rw [stringText_plain hunbroken.head_ne (ne_backslash hend hescape)]
    simp [Nat.not_le.2 hcontrol]
  | case9 c rest hend hescape hcontrol ih =>
    have hbackslash := ne_backslash hend hescape
    rw [ih (hunbroken.of_cons hunbroken.head_ne hbackslash),
      stringText_plain hunbroken.head_ne hbackslash]
    simp [Nat.not_lt.1 hcontrol]

namespace RawString

variable {s : RawString}

theorem closing_eq_quote : s.closing = .quote ↔ s.closed := by
  unfold closing
  split <;> simp_all

theorem decode_eq_ok {text : String} :
    s.decode = .ok text ↔ s.closed ∧ Spells s.body text.toList := by
  rw [← closing_eq_quote, ← unescape_eq_ok, decode, map_eq_ok]
  constructor
  · rintro ⟨cs, hcs, rfl⟩
    rw [hcs, String.toList_ofList]
  · exact fun h => ⟨_, h, String.ofList_toList⟩

/-- A written string is read back as itself. -/
@[simp] theorem decode_written (text : String) (beyond : Nat) :
    (written text beyond).decode = .ok text :=
  decode_eq_ok.2 ⟨rfl, spells_written text.toList⟩

theorem skip_eq_ok (hunbroken : Unbroken s.body) :
    s.skip = .ok () ↔ s.closed ∧ StringText s.body := by
  rw [← closing_eq_quote, skip, checkString_eq_ok hunbroken]

end RawString

/-! ## Passing over a value -/

theorem ListEnd.skip_eq_ok {ending : ListEnd} : ending.skip = .ok () ↔ ending = .closed := by
  cases ending <;> simp [ListEnd.skip]

theorem ObjectEnd.skip_eq_ok {ending : ObjectEnd} : ending.skip = .ok () ↔ ending = .closed := by
  cases ending with
  | colonMissing key => simp [ObjectEnd.skip, bind_eq_ok_unit]
  | cutAfterKey key => simp [ObjectEnd.skip, bind_eq_ok_unit]
  | _ => simp [ObjectEnd.skip]

mutual

/-- A value is passed over if it is whole. -/
theorem Node.skip_eq_ok {node : Node} (hunbroken : node.Unbroken) :
    node.skip = .ok () ↔ ∃ tree, Shows node tree := by
  cases node with
  | missing => exact ⟨nofun, by rintro ⟨tree, ⟨⟩⟩⟩
  | stray => exact ⟨nofun, by rintro ⟨tree, ⟨⟩⟩⟩
  | literal l =>
    cases l with
    | null => exact ⟨fun _ => ⟨_, .null⟩, fun _ => rfl⟩
    | boolean b => exact ⟨fun _ => ⟨_, .boolean⟩, fun _ => rfl⟩
  | badLiteral cut => exact ⟨nofun, by rintro ⟨tree, ⟨⟩⟩⟩
  | number n => exact ⟨fun _ => ⟨_, .number⟩, fun _ => rfl⟩
  | badNumber cut => exact ⟨nofun, by rintro ⟨tree, ⟨⟩⟩⟩
  | string s =>
    rw [Node.skip, RawString.skip_eq_ok hunbroken]
    obtain ⟨body, closed, beyond⟩ := s
    constructor
    · rintro ⟨rfl, hbody⟩
      exact ⟨_, .string hbody⟩
    · rintro ⟨tree, ⟨⟩⟩
      next hbody => exact ⟨rfl, hbody⟩
  | list items ending =>
    rw [Node.skip, bind_eq_ok_unit, ListEnd.skip_eq_ok, skipItems_eq_ok hunbroken]
    constructor
    · rintro ⟨⟨trees, htrees⟩, rfl⟩
      exact ⟨_, .list htrees⟩
    · rintro ⟨tree, ⟨⟩⟩
      next htrees => exact ⟨⟨_, htrees⟩, rfl⟩
  | object members ending =>
    rw [Node.skip, bind_eq_ok_unit, ObjectEnd.skip_eq_ok, skipMembers_eq_ok hunbroken]
    constructor
    · rintro ⟨⟨trees, htrees⟩, rfl⟩
      exact ⟨_, .object htrees⟩
    · rintro ⟨tree, ⟨⟩⟩
      next htrees => exact ⟨⟨_, htrees⟩, rfl⟩

theorem skipItems_eq_ok {items : List Node} (hunbroken : UnbrokenItems items) :
    skipItems items = .ok () ↔ ∃ trees, ShowsItems items trees := by
  cases items with
  | nil => exact ⟨fun _ => ⟨_, .nil⟩, fun _ => rfl⟩
  | cons item items =>
    rw [skipItems, bind_eq_ok_unit, Node.skip_eq_ok hunbroken.1, skipItems_eq_ok hunbroken.2]
    constructor
    · rintro ⟨⟨tree, htree⟩, trees, htrees⟩
      exact ⟨_, .cons htree htrees⟩
    · rintro ⟨trees, ⟨⟩⟩
      next htree htrees => exact ⟨⟨_, htree⟩, _, htrees⟩

theorem skipMembers_eq_ok {members : List (RawString × Node)}
    (hunbroken : UnbrokenMembers members) :
    skipMembers members = .ok () ↔ ∃ trees, ShowsMembers members trees := by
  cases members with
  | nil => exact ⟨fun _ => ⟨_, .nil⟩, fun _ => rfl⟩
  | cons member members =>
    obtain ⟨key, value⟩ := member
    rw [skipMembers, bind_eq_ok_unit, bind_eq_ok_unit, RawString.skip_eq_ok hunbroken.1,
      Node.skip_eq_ok hunbroken.2.1, skipMembers_eq_ok hunbroken.2.2]
    obtain ⟨body, closed, beyond⟩ := key
    constructor
    · rintro ⟨⟨rfl, hkey⟩, ⟨tree, htree⟩, trees, htrees⟩
      exact ⟨_, .cons hkey htree htrees⟩
    · rintro ⟨trees, ⟨⟩⟩
      next hkey htree htrees => exact ⟨⟨rfl, hkey⟩, ⟨_, htree⟩, _, htrees⟩

end

mutual

/-- The value that a node outlines, if it outlines one. -/
def Node.tree : Node → Tree
  | .literal .null => .null
  | .literal (.boolean b) => .boolean b
  | .number n => .number n
  | .string s => .string s.body
  | .list items _ => .list (treesOfItems items)
  | .object members _ => .object (treesOfMembers members)
  | .missing | .stray | .badLiteral _ | .badNumber _ => .null

def treesOfItems : List Node → List Tree
  | [] => []
  | item :: items => item.tree :: treesOfItems items

def treesOfMembers : List (RawString × Node) → List (List Char × Tree)
  | [] => []
  | (key, value) :: members => (key.body, value.tree) :: treesOfMembers members

end

mutual

theorem Shows.tree_eq {node : Node} {tree : Tree} (h : Shows node tree) : node.tree = tree := by
  cases h with
  | list hitems => rw [Node.tree, hitems.trees_eq]
  | object hmembers => rw [Node.tree, hmembers.trees_eq]
  | _ => rfl

theorem ShowsItems.trees_eq {nodes : List Node} {items : List Tree} (h : ShowsItems nodes items) :
    treesOfItems nodes = items := by
  cases h with
  | nil => rfl
  | cons hnode hnodes => rw [treesOfItems, hnode.tree_eq, hnodes.trees_eq]

theorem ShowsMembers.trees_eq {nodes : List (RawString × Node)}
    {members : List (List Char × Tree)} (h : ShowsMembers nodes members) :
    treesOfMembers nodes = members := by
  cases h with
  | nil => rfl
  | cons _ hnode hnodes => rw [treesOfMembers, hnode.tree_eq, hnodes.trees_eq]

end

theorem Shows.unique {node : Node} {tree tree' : Tree} (h : Shows node tree)
    (h' : Shows node tree') : tree = tree' := by
  rw [← h.tree_eq, h'.tree_eq]

/-- Whether a text holds a value, and which, is found out by running the reader. -/
theorem isText_iff_tree {tree : Tree} {text : List Char} :
    IsText tree text ↔ (outline text).trailing = false ∧ (outline text).root.skip = .ok () ∧
      (outline text).root.tree = tree := by
  rw [isText_iff, Node.skip_eq_ok (unbroken_outline text)]
  constructor
  · rintro ⟨node, houtline, hnode⟩
    rw [houtline]
    exact ⟨rfl, ⟨tree, hnode⟩, hnode.tree_eq⟩
  · rintro ⟨htrailing, ⟨other, hother⟩, rfl⟩
    rw [hother.tree_eq]
    exact ⟨_, congrArg (Outline.mk _) htrailing, hother⟩

/-- A text holds one value at most. -/
theorem IsText.unique {tree tree' : Tree} {text : List Char} (h : IsText tree text)
    (h' : IsText tree' text) : tree = tree' :=
  (isText_iff_tree.1 h).2.2.symm.trans (isText_iff_tree.1 h').2.2

end Json
end StringReport
