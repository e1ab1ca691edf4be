import Mathlib.Data.List.Forall2
import StringReport.Proofs.DecimalNumerals
import StringReport.Proofs.SpelledStrings

/-!
# What single values stand for

A meaning relates the trees of a declared type to its values, without a word about reading. A
decoder has a meaning if it accepts just the nodes that show a tree which stands for something,
and gives what the tree stands for.
-/
namespace StringReport

/-! ## Whole numbers -/

namespace Numeral

/-- An integer from zero up is written without a sign, a fraction or an exponent. -/
theorem value_eq_integer {n : Numeral} {i : Int} (hi : 0 ≤ i) :
    n.value = .integer i ↔
      n = ⟨false, n.whole, none, none⟩ ∧ Nat.ofDigitChars 10 n.whole 0 = i ∧
        Nat.ofDigitChars 10 n.whole 0 ≤ wordLimit := by
  obtain ⟨negative, whole, fraction, exponent⟩ := n
  constructor
  · intro h
    unfold value at h
    split at h
    · next m hfraction hexponent hgather =>
      obtain ⟨rfl, hm⟩ := gather_eq_nil_iff.1 hgather
      split at h
      · split at h
        · exact absurd h (realValue_ne_integer _ i)
        · next hm' =>
          obtain rfl := Value.integer.inj h
          omega
      · next hnegative =>
        simp only at hfraction hexponent hnegative
        rw [hfraction, hexponent, eq_false_of_ne_true hnegative]
        exact ⟨rfl, Value.integer.inj h, hm⟩
    · exact absurd h (realValue_ne_integer _ i)
  · rintro ⟨hn, hi, hm⟩
    rw [hn]
    simp only at hi hm
    simp only [value, gather_eq_nil_iff.2 ⟨rfl, hm⟩, Bool.false_eq_true, if_false, hi]

end Numeral

namespace Json

/-! ## Meanings -/

namespace Tree

/-- A string, its escapes replaced. -/
def MeansText (tree : Tree) (s : String) : Prop :=
  ∃ body, tree = .string body ∧ Spells body s.toList

def MeansFlag (tree : Tree) (b : Bool) : Prop := tree = .boolean b

/-- A number below a limit, written as digits and nothing else. -/
def MeansNatural (limit : Nat) (tree : Tree) (n : Nat) : Prop :=
  ∃ digits, tree = .number ⟨false, digits, none, none⟩ ∧ Nat.ofDigitChars 10 digits 0 = n ∧
    n < limit

def MeansWord64 (tree : Tree) (n : UInt64) : Prop := tree.MeansNatural (2 ^ 64) n.toNat

def MeansWord32 (tree : Tree) (n : UInt32) : Prop := tree.MeansNatural (2 ^ 32) n.toNat

/-- Any number but one that is too large. -/
def MeansReal (tree : Tree) (x : Binary64) : Prop :=
  ∃ n : Numeral, tree = .number n ∧ n.Reads x

/-- A value that may be null. -/
def MeansOptional {α : Type} (Means : Tree → α → Prop) (tree : Tree) : Option α → Prop
  | none => tree = .null
  | some a => Means tree a

def MeansList {α : Type} (Means : Tree → α → Prop) (tree : Tree) (as : List α) : Prop :=
  ∃ items, tree = .list items ∧ List.Forall₂ Means items as

/-- One of several names: as a string, or as the key of an object with null for its only
value. -/
def MeansVariant {α : Type} (label : α → String) (tree : Tree) (a : α) : Prop :=
  ∃ body, Spells body (label a).toList ∧ (tree = .string body ∨ tree = .object [(body, .null)])

end Tree

/-- A decoder that accepts the nodes of trees that stand for something, and gives what they
stand for. -/
def Decodes {α : Type} (decode : Decoder α) (Means : Tree → α → Prop) : Prop :=
  ∀ node, node.Unbroken → ∀ a, decode node = .ok a ↔ ∃ tree, Shows node tree ∧ Means tree a

/-- A decoder with a meaning gives what the tree of its node stands for. -/
theorem Decodes.iff_of_shows {α : Type} {decode : Decoder α} {Means : Tree → α → Prop}
    (h : Decodes decode Means) {node : Node} (hunbroken : node.Unbroken) {tree : Tree}
    (htree : Shows node tree) {a : α} : decode node = .ok a ↔ Means tree a := by
  rw [h node hunbroken a]
  constructor
  · rintro ⟨tree', htree', hmeans⟩
    rwa [htree.unique htree']
  · exact fun hmeans => ⟨tree, htree, hmeans⟩

/-! ## Single values -/

theorem decodes_flag : Decodes flag Tree.MeansFlag := by
  intro node _ b
  constructor
  · intro h
    unfold flag at h
    split at h
    · exact ⟨_, .boolean, congrArg Tree.boolean (Except.ok.inj h)⟩
    · cases h
  · rintro ⟨tree, htree, rfl⟩
    cases htree
    rfl

theorem decodes_text : Decodes text Tree.MeansText := by
  intro node hunbroken s
  constructor
  · intro h
    unfold text at h
    split at h
    · next raw =>
      obtain ⟨hclosed, hspells⟩ := RawString.decode_eq_ok.1 h
      obtain ⟨body, closed, beyond⟩ := raw
      obtain rfl : closed = true := hclosed
      exact ⟨_, .string (hspells.stringText hunbroken), body, rfl, hspells⟩
    · cases h
  · rintro ⟨tree, htree, body, rfl, hspells⟩
    cases htree
    exact RawString.decode_eq_ok.2 ⟨rfl, hspells⟩

theorem wholeBelow_eq_ok {limit k : Nat} (hlimit : limit ≤ 2 ^ 64) (shape : Shape) (n : Numeral) :
    wholeBelow limit shape (.number n) = .ok k ↔ (Tree.number n).MeansNatural limit k := by
  constructor
  · intro h
    simp only [wholeBelow] at h
    split at h
    · next i hvalue =>
      split at h
      · next hi =>
        obtain ⟨hn, hi', -⟩ := (Numeral.value_eq_integer hi.1).1 hvalue
        obtain rfl := Except.ok.inj h
        exact ⟨n.whole, congrArg Tree.number hn, by omega, by omega⟩
      · cases h
    · cases h
    · cases h
  · rintro ⟨digits, hn, rfl, hk⟩
    obtain rfl := Tree.number.inj hn
    generalize hdigits : Nat.ofDigitChars 10 digits 0 = k at hk
    have hword : k ≤ Numeral.wordLimit := by
      rw [Numeral.wordLimit]
      omega
    have hvalue : Numeral.value ⟨false, digits, none, none⟩ = .integer k :=
      (Numeral.value_eq_integer (Int.natCast_nonneg k)).2
        ⟨rfl, congrArg Nat.cast hdigits, hdigits.trans_le hword⟩
    have hrange : (0 : Int) ≤ k ∧ (k : Int) < limit := by omega
    simp only [wholeBelow, hvalue, if_pos hrange, Int.toNat_natCast]

theorem decodes_wholeBelow {limit : Nat} (hlimit : limit ≤ 2 ^ 64) (shape : Shape) :
    Decodes (wholeBelow limit shape) (Tree.MeansNatural limit) := by
  intro node _ k
  constructor
  · intro h
    cases node with
    | number n => exact ⟨_, .number, (wholeBelow_eq_ok hlimit shape n).1 h⟩
    | _ => cases h
  · rintro ⟨tree, htree, hmeans⟩
    obtain ⟨digits, rfl, -⟩ := id hmeans
    cases htree
    exact (wholeBelow_eq_ok hlimit shape _).2 hmeans

/-- Decoded values may be taken over to another type one to one. -/
theorem Decodes.map {α β : Type} {decode : Decoder α} {Means : Tree → α → Prop}
    (h : Decodes decode Means) {f : α → β} {g : β → α}
    (hleft : ∀ tree a, Means tree a → g (f a) = a) (hright : ∀ b, f (g b) = b) :
    Decodes (fun node => (decode node).map f) fun tree b => Means tree (g b) := by
  intro node hunbroken b
  rw [map_eq_ok]
  constructor
  · rintro ⟨a, ha, rfl⟩
    obtain ⟨tree, htree, hmeans⟩ := (h node hunbroken a).1 ha
    have hback : Means tree (g (f a)) := by
      rwa [hleft tree a hmeans]
    exact ⟨tree, htree, hback⟩
  · rintro ⟨tree, htree, hmeans⟩
    exact ⟨g b, (h.iff_of_shows hunbroken htree).2 hmeans, hright b⟩

theorem decodes_word64 : Decodes word64 Tree.MeansWord64 :=
  (decodes_wholeBelow (Nat.le_refl _) .word64).map
    (fun _ _ ⟨_, _, _, hk⟩ => UInt64.toNat_ofNat_of_lt' hk) fun _ => UInt64.ofNat_toNat

theorem decodes_word32 : Decodes word32 Tree.MeansWord32 :=
  (decodes_wholeBelow (by decide) .word32).map
    (fun _ _ ⟨_, _, _, hk⟩ => UInt32.toNat_ofNat_of_lt' hk) fun _ => UInt32.ofNat_toNat

theorem real_eq_ok (n : Numeral) {x : Binary64} : real (.number n) = .ok x ↔ n.Reads x := by
  simp only [real]
  rcases n.value_eq_integer_or with ⟨i, hvalue⟩ | hvalue
  · have hreads := Numeral.reads_of_value_eq_integer hvalue
    rw [hvalue, Except.ok.injEq]
    constructor
    · rintro rfl
      exact hreads
    · exact hreads.unique
  · rw [hvalue, ← Numeral.realValue_eq_real]
    cases hreal : n.realValue with
    | integer i => exact absurd hreal (n.realValue_ne_integer i)
    | real y => rw [Except.ok.injEq, Numeral.Value.real.injEq]
    | outOfRange => exact iff_of_false nofun nofun

theorem decodes_real : Decodes real Tree.MeansReal := by
  intro node _ x
  constructor
  · intro h
    cases node with
    | number n => exact ⟨_, .number, n, rfl, (real_eq_ok n).1 h⟩
    | _ => cases h
  · rintro ⟨tree, htree, n, rfl, hreads⟩
    cases htree
    exact (real_eq_ok n).2 hreads

/-- A value that may be null is read where null stands for nothing else. -/
theorem decodes_optional {α : Type} {decode : Decoder α} {Means : Tree → α → Prop}
    (h : Decodes decode Means) (hnull : ∀ a, ¬ Means .null a) :
    Decodes (optional decode) (Tree.MeansOptional Means) := by
  intro node hunbroken o
  by_cases hnode : node = .literal .null
  · subst hnode
    constructor
    · intro hok
      obtain rfl := Except.ok.inj hok
      exact ⟨_, .null, rfl⟩
    · rintro ⟨tree, htree, hmeans⟩
      cases htree
      cases o with
      | none => rfl
      | some a => exact absurd hmeans (hnull a)
  · have hoptional : optional decode node = (decode node).map some := by
      unfold optional
      split
      · exact absurd rfl hnode
      · rfl
    rw [hoptional, map_eq_ok]
    constructor
    · rintro ⟨a, ha, rfl⟩
      exact (h node hunbroken a).1 ha
    · rintro ⟨tree, htree, hmeans⟩
      cases o with
      | none =>
        obtain rfl : tree = .null := hmeans
        cases htree
        exact absurd rfl hnode
      | some a => exact ⟨a, (h.iff_of_shows hunbroken htree).2 hmeans, rfl⟩

/-! ## Lists -/

theorem ListEnd.check_eq_ok {ending : ListEnd} : ending.check = .ok () ↔ ending = .closed := by
  cases ending <;> simp [ListEnd.check]

theorem ObjectEnd.check_eq_ok {check : RawString → Except Fault Unit} {ending : ObjectEnd} :
    ending.check check = .ok () ↔ ending = .closed := by
  cases ending with
  | colonMissing key => simp [ObjectEnd.check, bind_eq_ok_unit]
  | cutAfterKey key => simp [ObjectEnd.check, bind_eq_ok_unit]
  | _ => simp [ObjectEnd.check]

theorem mapM_eq_ok {α : Type} {decode : Decoder α} {Means : Tree → α → Prop}
    (h : Decodes decode Means) {nodes : List Node} (hunbroken : UnbrokenItems nodes)
    {as : List α} :
    nodes.mapM decode = .ok as ↔
      ∃ items, ShowsItems nodes items ∧ List.Forall₂ Means items as := by
  induction nodes generalizing as with
  | nil =>
    constructor
    · intro hok
      obtain rfl := Except.ok.inj hok
      exact ⟨[], .nil, .nil⟩
    · rintro ⟨items, ⟨⟩, ⟨⟩⟩
      rfl
  | cons node nodes ih =>
    rw [List.mapM_cons]
    constructor
    · intro hok
      obtain ⟨a, ha, hlater⟩ := exists_of_bind_eq_ok hok
      obtain ⟨as', has, hcons⟩ := exists_of_bind_eq_ok hlater
      obtain rfl := Except.ok.inj hcons
      obtain ⟨item, hitem, hmeans⟩ := (h node hunbroken.1 a).1 ha
      obtain ⟨items, hitems, hall⟩ := (ih hunbroken.2).1 has
      exact ⟨item :: items, .cons hitem hitems, .cons hmeans hall⟩
    · rintro ⟨items, hitems, hall⟩
      cases hitems with
      | cons hitem hitems =>
        cases hall with
        | cons hmeans hall =>
          rw [(h.iff_of_shows hunbroken.1 hitem).2 hmeans, (ih hunbroken.2).2 ⟨_, hitems, hall⟩]
          rfl

theorem decodes_list {α : Type} {decode : Decoder α} {Means : Tree → α → Prop}
    (h : Decodes decode Means) : Decodes (list decode) (Tree.MeansList Means) := by
  intro node hunbroken as
  constructor
  · intro hok
    cases node with
    | list nodes ending =>
      obtain ⟨as', has, hrest⟩ := exists_of_bind_eq_ok hok
      obtain ⟨hending, hvalues⟩ := bind_eq_ok_unit.1 hrest
      obtain rfl := Except.ok.inj hvalues
      obtain ⟨items, hitems, hall⟩ := (mapM_eq_ok h hunbroken).1 has
      obtain rfl := ListEnd.check_eq_ok.1 hending
      exact ⟨.list items, .list hitems, items, rfl, hall⟩
    | _ => cases hok
  · rintro ⟨tree, htree, items, rfl, hall⟩
    cases htree with
    | list hitems =>
      rw [list, (mapM_eq_ok h hunbroken).2 ⟨items, hitems, hall⟩]
      rfl

/-! ## Variants -/

theorem unit_eq_ok {node : Node} : unit node = .ok () ↔ node = .literal .null := by
  unfold unit
  split
  · simp
  · next hnode =>
    simp only [reduceCtorEq, false_iff]
    exact hnode

section Variants

variable {α : Type} {label : α → String} {all : List α}

/-- A variant is found by its label, if no other has the same. -/
theorem variantNamed_eq_ok (hall : ∀ a, a ∈ all) (hlabel : Function.Injective label)
    {s : RawString} {a : α} :
    variantNamed (all.map fun a => (label a, a)) s = .ok a ↔ s.decode = .ok (label a) := by
  have hfind (name : String) :
      (∃ found, (all.map fun a => (label a, a)).find? (·.1 = name) = some (found, a)) ↔
        name = label a := by
    constructor
    · rintro ⟨found, hfound⟩
      have hname : found = name := by simpa using List.find?_some hfound
      obtain ⟨a', -, heq⟩ := List.mem_map.1 (List.mem_of_find?_eq_some hfound)
      obtain ⟨rfl, rfl⟩ := Prod.mk.inj heq
      exact hname.symm
    · rintro rfl
      cases hfound : (all.map fun a => (label a, a)).find? (·.1 = label a) with
      | none =>
        have hnone := List.find?_eq_none.1 hfound (label a, a) (List.mem_map.2 ⟨a, hall a, rfl⟩)
        simp at hnone
      | some entry =>
        have hname : entry.1 = label a := by simpa using List.find?_some hfound
        obtain ⟨a', -, rfl⟩ := List.mem_map.1 (List.mem_of_find?_eq_some hfound)
        rw [hlabel hname]
        exact ⟨_, rfl⟩
  constructor
  · intro h
    obtain ⟨name, hdecode, hnamed⟩ := exists_of_bind_eq_ok h
    split at hnamed
    · next found value hfound =>
      obtain rfl := Except.ok.inj hnamed
      rw [hdecode, (hfind name).1 ⟨found, hfound⟩]
    · cases hnamed
  · intro hdecode
    obtain ⟨found, hfound⟩ := (hfind (label a)).2 rfl
    simp only [variantNamed, hdecode, bind, Except.bind, hfound]

theorem variantNamed_eq_ok_iff_spells (hall : ∀ a, a ∈ all) (hlabel : Function.Injective label)
    {s : RawString} {a : α} :
    variantNamed (all.map fun a => (label a, a)) s = .ok a ↔
      s.closed ∧ Spells s.body (label a).toList := by
  rw [variantNamed_eq_ok hall hlabel, RawString.decode_eq_ok]

/-- A variant is read off its name, or off an object with one member of that name. -/
theorem exists_means_of_variant (hall : ∀ a, a ∈ all) (hlabel : Function.Injective label)
    {node : Node} (hunbroken : node.Unbroken) {a : α}
    (h : variant (all.map fun a => (label a, a)) node = .ok a) :
    ∃ tree, Shows node tree ∧ Tree.MeansVariant label tree a := by
  unfold variant at h
  split at h
  · next s =>
    obtain ⟨hclosed, hspells⟩ := (variantNamed_eq_ok_iff_spells hall hlabel).1 h
    obtain ⟨body, closed, beyond⟩ := s
    obtain rfl : closed = true := hclosed
    exact ⟨_, .string (hspells.stringText hunbroken), body, hspells, Or.inl rfl⟩
  · next key value rest ending =>
    obtain ⟨a', ha', hrest⟩ := exists_of_bind_eq_ok h
    obtain ⟨hunit, hend⟩ := bind_eq_ok_unit.1 hrest
    obtain rfl := unit_eq_ok.1 hunit
    split at hend
    · obtain rfl := Except.ok.inj hend
      obtain ⟨hclosed, hspells⟩ := (variantNamed_eq_ok_iff_spells hall hlabel).1 ha'
      obtain ⟨body, closed, beyond⟩ := key
      obtain rfl : closed = true := hclosed
      exact ⟨_, .object (.cons (hspells.stringText hunbroken.1) .null .nil), body, hspells,
        Or.inr rfl⟩
    · cases hend
    · cases hend
  · cases h
  · cases h
  · obtain ⟨_, -, hrest⟩ := exists_of_bind_eq_ok h
    cases hrest
  · obtain ⟨_, -, hrest⟩ := exists_of_bind_eq_ok h
    cases hrest
  · cases h
  · cases h

theorem decodes_variant (hall : ∀ a, a ∈ all) (hlabel : Function.Injective label) :
    Decodes (variant (all.map fun a => (label a, a))) (Tree.MeansVariant label) := by
  refine fun node hunbroken a => ⟨exists_means_of_variant hall hlabel hunbroken, ?_⟩
  have hnamed {body : List Char} {beyond : Nat} (hspells : Spells body (label a).toList) :
      variantNamed (all.map fun a => (label a, a)) ⟨body, true, beyond⟩ = .ok a :=
    (variantNamed_eq_ok_iff_spells hall hlabel).2 ⟨rfl, hspells⟩
  rintro ⟨tree, htree, body, hspells, rfl | rfl⟩
  · cases htree
    exact hnamed hspells
  · cases htree with
    | object hmembers =>
      cases hmembers with
      | cons _ hnull hlater =>
        cases hnull
        cases hlater
        show (do let value ← variantNamed _ _; _) = _
        rw [hnamed hspells]
        rfl

end Variants

end Json
end StringReport
