import StringReport.Document.Printer
import StringReport.Proofs.FilledRecords

/-!
# Reading written values back

A decoder reads a value back if it takes every node that the value's text can be outlined by
to one result. Single values are read back as they are, lists and records as soon as their
parts are. For a record it matters that its fields have different names: each member then
stands for the one field of its name, and no field is without one.
-/
namespace StringReport

/-! ## Numbers -/

namespace Numeral

theorem value_ofNat {n : Nat} (h : n ≤ wordLimit) : (ofNat n).value = .integer n := by
  have hdigits : ofDigits (Nat.toDigits 10 n) = n :=
    Nat.ofDigitChars_toDigits (by decide) (by decide)
  exact (value_eq_integer (Int.natCast_nonneg n)).2
    ⟨rfl, congrArg Nat.cast hdigits, hdigits.trans_le h⟩

end Numeral

/-- A finite number that is read from its text as itself. -/
structure Binary64.ReadsBack (x : Binary64) : Prop where
  finite : x.isFinite
  reads : ∃ n, Numeral.scan x.text.toList = .complete n [] ∧ Json.real (.number n) = .ok x

theorem Binary64.ReadsBack.legible {x : Binary64} (h : x.ReadsBack) : x.Legible := by
  obtain ⟨n, hscan, -⟩ := h.reads
  exact ⟨h.finite, n, hscan⟩

namespace Json

/-- A decoder that reads a written value as the given one. -/
def Reads {α : Type} (decode : Decoder α) (value : Value) (a : α) : Prop :=
  ∀ node, Outlines node value → decode node = .ok a

/-! ## Single values -/

theorem reads_text (s : String) : Reads text (.string s) s := by
  rintro node ⟨⟩
  exact RawString.decode_written s _

theorem reads_flag (b : Bool) : Reads flag (.boolean b) b := by
  rintro node ⟨⟩
  rfl

theorem wholeBelow_ofNat {n limit : Nat} (hlimit : n < limit) (hword : n ≤ Numeral.wordLimit)
    (shape : Shape) : wholeBelow limit shape (.number (.ofNat n)) = .ok n := by
  have hrange : (0 : Int) ≤ n ∧ (n : Int) < limit := by omega
  simp only [wholeBelow, Numeral.value_ofNat hword, if_pos hrange, Int.toNat_natCast]

theorem reads_word64 (n : UInt64) : Reads word64 (.word64 n) n := by
  have hlt := n.toNat_lt
  rintro node ⟨⟩
  rw [word64, wholeBelow_ofNat hlt (by rw [Numeral.wordLimit]; omega)]
  exact congrArg Except.ok (UInt64.ofNat_toNat)

theorem reads_word32 (n : UInt32) : Reads word32 (.word32 n) n := by
  have hlt := n.toNat_lt
  rintro node ⟨⟩
  rw [word32, wholeBelow_ofNat hlt (by rw [Numeral.wordLimit]; omega)]
  exact congrArg Except.ok (UInt32.ofNat_toNat)

theorem reads_word64? (n : Option UInt64) : Reads (optional word64) (.word64? n) n := by
  cases n with
  | none =>
    rintro node ⟨⟩
    rfl
  | some n =>
    intro node hnode
    have hword := reads_word64 n node hnode
    rcases hnode with ⟨⟩
    show (word64 _).map some = _
    rw [hword]
    rfl

theorem reads_real {x : Binary64} (h : x.ReadsBack) : Reads real (.real x) x := by
  obtain ⟨n, hscan, hreal⟩ := h.reads
  intro node hnode
  cases hnode with
  | real hscan' =>
    rw [hscan] at hscan'
    rw [← (Numeral.Scan.complete.inj hscan').1]
    exact hreal

theorem reads_variant {α : Type} {known : List (String × α)} {name : String} {a : α}
    (h : known.find? (·.1 = name) = some (name, a)) : Reads (variant known) (.string name) a := by
  rintro node ⟨⟩
  show variantNamed known _ = _
  simp only [variantNamed, RawString.decode_written, bind, Except.bind, h]

/-! ## Lists -/

theorem mapM_of_outlinesItems {α : Type} {decode : Decoder α} {encode : α → Value} {xs : List α}
    (h : ∀ x ∈ xs, Reads decode (encode x) x) {nodes : List Node}
    (hnodes : OutlinesItems nodes (xs.map encode)) : nodes.mapM decode = .ok xs := by
  induction xs generalizing nodes with
  | nil =>
    rcases hnodes with ⟨⟩
    rfl
  | cons x xs ih =>
    rcases hnodes with ⟨⟩ | ⟨hnode, hlater⟩
    rw [List.mapM_cons, h x List.mem_cons_self _ hnode,
      ih (fun y hy => h y (List.mem_cons_of_mem _ hy)) hlater]
    rfl

/-- A list is read back if its items are. -/
theorem reads_list {α : Type} {decode : Decoder α} {encode : α → Value} (xs : List α)
    (h : ∀ x ∈ xs, Reads decode (encode x) x) :
    Reads (list decode) (.list (xs.map encode)) xs := by
  intro node hnode
  rcases hnode with ⟨⟩ | ⟨⟩ | ⟨⟩ | ⟨⟩ | ⟨⟩ | ⟨hitems⟩ | ⟨⟩
  rw [list, mapM_of_outlinesItems h hitems]
  rfl

/-! ## Records -/

namespace Fields

variable {fields : List Field}

/-- Members that are read as the values of fields, one for each in their order. -/
inductive ReadsAll : (fields : List Field) → List (String × Value) → Values fields → Prop
  | nil : ReadsAll [] [] Values.nil
  | cons {field : Field} {fields : List Field} {value : Value} {members : List (String × Value)}
    {a : field.Value} {values : Values fields} :
    Reads field.decode value a → ReadsAll fields members values →
      ReadsAll (field :: fields) ((field.name, value) :: members) (values.cons a)

/-- Members that are read stand for the fields in their order. -/
theorem ReadsAll.exists_named {members : List (String × Value)} {values : Values fields}
    (h : ReadsAll fields members values) {nodes : List (RawString × Node)}
    (hnodes : OutlinesMembers nodes members) :
    ∃ named, Named nodes named ∧ named.map Prod.fst = fields.map Field.name ∧
      ∀ i : Fin fields.length, ∃ node, ((fields.get i).name, node) ∈ named ∧
        (fields.get i).decode node = .ok (values i) := by
  induction h generalizing nodes with
  | nil =>
    rcases hnodes with ⟨⟩
    exact ⟨[], .nil, rfl, fun i => i.elim0⟩
  | @cons field fields _ _ _ _ hreads _ ih =>
    rcases hnodes with ⟨⟩ | ⟨hnode, hlater⟩
    next node nodes =>
    obtain ⟨named, hnamed, hnames, hvalues⟩ := ih hlater
    refine ⟨(field.name, node) :: named, .cons ⟨RawString.decode_written _ _, rfl⟩ hnamed,
      congrArg (field.name :: ·) hnames, fun i => ?_⟩
    obtain ⟨i, hlt⟩ := i
    cases i with
    | zero => exact ⟨node, List.mem_cons_self, hreads node hnode⟩
    | succ i =>
      obtain ⟨other, hmem, hvalue⟩ := hvalues ⟨i, Nat.lt_of_succ_lt_succ hlt⟩
      exact ⟨other, List.mem_cons_of_mem _ hmem, hvalue⟩

/-- Fields with different names are read from the members that stand for them. -/
theorem ReadsAll.readObject (hdistinct : (fields.map Field.name).Nodup)
    {members : List (String × Value)} {values : Values fields}
    (h : ReadsAll fields members values) {nodes : List (RawString × Node)}
    (hnodes : OutlinesMembers nodes members) : readObject nodes .closed = .ok values := by
  obtain ⟨named, hnamed, hnames, hvalues⟩ := h.exists_named hnodes
  have honce (name : String) : (named.map Prod.fst).count name ≤ 1 := by
    rw [hnames]
    exact List.nodup_iff_count_le_one.1 hdistinct name
  refine (Fields.readObject_eq_ok hdistinct).2
    ⟨rfl, named, hnamed, fun field _ => honce field.name, fun entry hentry hunknown => ?_,
      fun i => ?_⟩
  · rw [← hnames] at hunknown
    exact absurd (List.mem_map_of_mem hentry) hunknown
  · obtain ⟨node, hmem, hvalue⟩ := hvalues i
    have hpart : namedPart named i = some node := lookup_of_count_le_one (honce _) hmem
    rw [hpart]
    exact hvalue

end Fields

/-- A record is read back from its members, if its fields have different names. -/
theorem reads_record {α : Type} (schema : Schema α)
    (hnames : (schema.fields.map Field.name).Nodup) {members : List (String × Value)}
    {values : Fields.Values schema.fields} (h : Fields.ReadsAll schema.fields members values) :
    Reads schema.decode (.object members) (schema.build values) := by
  intro node hnode
  rcases hnode with ⟨⟩ | ⟨⟩ | ⟨⟩ | ⟨⟩ | ⟨⟩ | ⟨⟩ | ⟨hmembers⟩
  rw [Schema.decode, h.readObject hnames hmembers]
  rfl

end Json
end StringReport
