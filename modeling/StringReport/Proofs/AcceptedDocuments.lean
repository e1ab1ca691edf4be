import StringReport.Proofs.DeclaredDocuments
import StringReport.Proofs.NumeralAccuracy

/-!
# Which texts hold a document

A document is read from just the texts of which the grammar makes a tree that stands for it.
The tree comes first, with its tokens unconverted, and what it stands for second; neither step
says how a text is read. What the declarations have in common so holds of every document that
is accepted: its date is one that has a text.
-/
namespace StringReport

open Json

/-- A text is accepted if its outline is decoded and nothing trails behind. -/
theorem Document.ofText_eq_ok_iff_decode {text : String} {d : Document} :
    Document.ofText text = .ok d ↔
      Document.schema.decode (outline text.toList).root = .ok d ∧
        (outline text.toList).trailing = false := by
  constructor
  · intro h
    obtain ⟨doc, hdoc, hrest⟩ := exists_of_bind_eq_ok h
    split at hrest
    · cases hrest
    · next hnone =>
      obtain rfl := Except.ok.inj hrest
      exact ⟨hdoc, eq_false_of_ne_true hnone⟩
  · rintro ⟨hdoc, hnone⟩
    simp only [Document.ofText, hdoc, hnone, bind, Except.bind, Bool.false_eq_true, if_false]

/-- A document is read from just the texts of which the grammar makes a tree that stands for
it. What a number of the tree stands for is near to the decimal fraction that it writes, and if it
is short, nothing is nearer; from the least magnitude that is too large on it stands for nothing,
but for the rounding on the way. -/
theorem Document.ofText_eq_ok (text : String) (d : Document) :
    (Document.ofText text = .ok d ↔
        ∃ tree, IsText tree text.toList ∧ Document.Means tree d) ∧
      ∀ (n : Numeral) (token : List Char), n.Text token →
        (∀ x, n.Reads x → n.Approximates x) ∧
        (n.magnitude ≤ (1 - 1 / 2 ^ 50) * Binary64.overflowBound → ∃ x, n.Reads x) ∧
        ((1 + 1 / 2 ^ 50) * Binary64.overflowBound ≤ n.magnitude → ∀ x, ¬ n.Reads x) ∧
        (Nat.ofDigitChars 10 (n.whole ++ n.fraction.getD []) 0 < 2 ^ 53 →
          |n.power - (n.fraction.getD []).length| ≤ 22 →
          ∀ x, n.Reads x ↔
            ∃ m, Binary64.IsNearest n.magnitude m ∧ x = if n.negative then m.negate else m) := by
  constructor
  · have hroot := unbroken_outline text.toList
    rw [ofText_eq_ok_iff_decode]
    constructor
    · rintro ⟨hdoc, hnone⟩
      obtain ⟨tree, htree, hmeans⟩ := (Document.decodes _ hroot d).1 hdoc
      exact ⟨tree, isText_iff.2 ⟨_, by rw [← hnone], htree⟩, hmeans⟩
    · rintro ⟨tree, htext, hmeans⟩
      obtain ⟨node, hnode, htree⟩ := isText_iff.1 htext
      rw [hnode] at hroot ⊢
      exact ⟨(Document.decodes.iff_of_shows hroot htree).2 hmeans, rfl⟩
  · intro n token htoken
    have hdigits := htoken.ofDigits
    exact ⟨fun x hx => hx.approximates hdigits, Numeral.exists_reads hdigits,
      Numeral.not_reads hdigits, fun hfits hpower x => Numeral.reads_iff_of_short hfits hpower⟩

/-- So `1.5` stands for the number nearest to three halves, and `1e999` for none. -/
theorem Document.numbers_sample :
    Numeral.Text ⟨false, ['1'], some ['5'], none⟩ "1.5".toList ∧
      (∃ x, Numeral.Reads ⟨false, ['1'], some ['5'], none⟩ x) ∧
      (∀ x, Numeral.Reads ⟨false, ['1'], some ['5'], none⟩ x ↔ Binary64.IsNearest (3 / 2) x) ∧
      Numeral.Text ⟨false, ['1'], none, some (false, ['9', '9', '9'])⟩ "1e999".toList ∧
      ∀ x, ¬ Numeral.Reads ⟨false, ['1'], none, some (false, ['9', '9', '9'])⟩ x := by
  have hone : Numeral.IsWhole ['1'] := ⟨⟨by simp, by simp⟩, by simp⟩
  have hshort : Numeral.Text ⟨false, ['1'], some ['5'], none⟩ "1.5".toList :=
    .positive hone (.some ⟨by simp, by simp⟩) .none
  have hlarge : Numeral.Text ⟨false, ['1'], none, some (false, ['9', '9', '9'])⟩ "1e999".toList :=
    .positive hone .none (.some (Or.inl rfl) .bare ⟨by simp, by simp⟩)
  have hmagnitude : Numeral.magnitude ⟨false, ['1'], some ['5'], none⟩ = 3 / 2 := by
    have hdigits : Nat.ofDigitChars 10 ['1', '5'] 0 = 15 := rfl
    norm_num [Numeral.magnitude, Numeral.power, hdigits]
  obtain ⟨-, hnumbers⟩ := Document.ofText_eq_ok "" default
  obtain ⟨-, hexists, -, hnearest⟩ := hnumbers _ _ hshort
  obtain ⟨-, -, hnone, -⟩ := hnumbers _ _ hlarge
  refine ⟨hshort, hexists ?_, fun x => ?_, hlarge, hnone ?_⟩
  · rw [hmagnitude]
    have hrange := Binary64.ten_pow_lt_overflowBound (show 20 ≤ 308 by decide)
    linarith
  · rw [hnearest (by decide) (by decide), hmagnitude]
    exact ⟨fun ⟨m, hm, hx⟩ => hx ▸ hm, fun hx => ⟨x, hx, rfl⟩⟩
  · have hlimit : Binary64.overflowBound ≤ 10 ^ 309 := Numeral.overflowBound_lt_ten_pow.le.trans
      (mul_le_of_le_one_right (pow_pos (by norm_num) 309).le (by norm_num [kept]))
    calc (1 + 1 / 2 ^ 50) * Binary64.overflowBound ≤ 10 * Binary64.overflowBound :=
          mul_le_mul_of_nonneg_right (by norm_num) Binary64.overflowBound_pos.le
      _ ≤ 10 * 10 ^ 309 := mul_le_mul_of_nonneg_left hlimit (by norm_num)
      _ = 10 ^ 310 := (pow_succ' 10 309).symm
      _ ≤ 10 ^ 999 := pow_le_pow_right₀ (by norm_num) (by decide)
      _ = Numeral.magnitude ⟨false, ['1'], none, some (false, ['9', '9', '9'])⟩ := by
          have hdigits : Nat.ofDigitChars 10 ['1'] 0 = 1 := rfl
          have hpower : Nat.ofDigitChars 10 ['9', '9', '9'] 0 = 999 := rfl
          simp only [Numeral.magnitude, Numeral.power, Option.getD_none, List.append_nil, hdigits,
            hpower, List.length_nil, Nat.cast_one, one_mul, Nat.cast_zero, sub_zero, zpow_natCast]

/-- An accepted text holds a value of the grammar. -/
theorem Document.exists_isText {text : String} {d : Document} (h : Document.ofText text = .ok d) :
    ∃ tree, IsText tree text.toList := by
  obtain ⟨hdoc, hnone⟩ := ofText_eq_ok_iff_decode.1 h
  obtain ⟨tree, htree, -⟩ := (Document.decodes _ (unbroken_outline _) d).1 hdoc
  exact ⟨tree, isText_iff.2 ⟨_, by rw [← hnone], htree⟩⟩

/-- A text that holds a value is accepted as what the value stands for. -/
theorem Document.ofText_eq_ok_of_isText {tree : Tree} {text : String}
    (h : IsText tree text.toList) {d : Document} :
    Document.ofText text = .ok d ↔ Document.Means tree d := by
  have hroot := unbroken_outline text.toList
  obtain ⟨node, hnode, htree⟩ := isText_iff.1 h
  rw [ofText_eq_ok_iff_decode]
  rw [hnode] at hroot ⊢
  rw [Document.decodes.iff_of_shows hroot htree, and_iff_left rfl]

/-! ## The date of a document -/

theorem Timestamp.writable_epoch : Timestamp.epoch.Writable :=
  ⟨by decide, by decide, by decide⟩

theorem Timings.Means.writable {tree : Tree} {t : Timings} (h : Timings.Means tree t) :
    t.startDate.Writable := by
  obtain ⟨part, ⟨date, -, text, -, hwritten⟩ | ⟨-, hepoch⟩⟩ := h.exists_holds 0 (by decide)
  · exact Timestamp.writable_of_read (Timestamp.read_eq_ok.2 hwritten)
  · exact hepoch ▸ Timestamp.writable_epoch

theorem Metadata.Means.writable {tree : Tree} {m : Metadata} (h : Metadata.Means tree m) :
    m.timings.startDate.Writable := by
  obtain ⟨part, ⟨timings, -, hmeans⟩ | ⟨-, hdefault⟩⟩ := h.exists_holds 4 (by decide)
  · exact Timings.Means.writable hmeans
  · have htimings : {} = m.timings := hdefault
    rw [← htimings]
    exact Timestamp.writable_epoch

/-- The date of an accepted document has a text. -/
theorem Document.writable_of_ofText {text : String} {d : Document}
    (h : Document.ofText text = .ok d) : d.metadata.timings.startDate.Writable := by
  obtain ⟨hdoc, -⟩ := ofText_eq_ok_iff_decode.1 h
  obtain ⟨tree, -, hmeans⟩ := (Document.decodes _ (unbroken_outline _) d).1 hdoc
  obtain ⟨part, metadata, -, hmetadata⟩ := hmeans.exists_holds 0 (by decide)
  exact Metadata.Means.writable hmetadata

end StringReport
