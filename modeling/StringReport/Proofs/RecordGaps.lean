import Mathlib.Data.List.Perm.Basic
import StringReport.Proofs.DeclaredRecords
import StringReport.Proofs.DeclaredTables

/-!
# Records with a gap

A record with a gap is a tree that lacks the part which stands for one of its columns: the value
of a member, or the item of a list. What the filled record stands for is told by the part and by
what is around the gap, each for itself, so another part may take the place of the first. Gaps go
inside of each other, and the same holds of a place as deep in a record as one likes.

That the members around a gap do not matter to it needs two things: they may change places, and
none of them is for the same column, since a key spells one name at most.
-/
namespace StringReport
namespace Json

/-! ## Members of a record -/

/-- A key names one thing at most. -/
theorem name_eq_of_spells {key : List Char} {name name' : String} (h : Spells key name.toList)
    (h' : Spells key name'.toList) : name = name' := by
  have hdecode : (⟨key, true, 0⟩ : RawString).decode = .ok name := RawString.decode_eq_ok.2 ⟨rfl, h⟩
  have hdecode' : (⟨key, true, 0⟩ : RawString).decode = .ok name' :=
    RawString.decode_eq_ok.2 ⟨rfl, h'⟩
  exact Except.ok.inj (hdecode.symm.trans hdecode')

/-- The place of an entry does not matter where no other has its name. -/
theorem lookup_eq_of_perm {β : Type} {entries entries' : List (String × β)}
    (hperm : entries.Perm entries') {name : String}
    (honce : (entries.map Prod.fst).count name ≤ 1) :
    entries'.lookup name = entries.lookup name := by
  have honce' : (entries'.map Prod.fst).count name ≤ 1 := by
    rwa [← (hperm.map Prod.fst).count_eq]
  cases hfound : entries.lookup name with
  | none =>
    rw [List.lookup_eq_none_iff] at hfound ⊢
    exact fun entry hentry => hfound entry (hperm.mem_iff.2 hentry)
  | some b =>
    obtain ⟨before, after, rfl, -⟩ := List.lookup_eq_some_iff.1 hfound
    exact Fields.lookup_of_count_le_one honce'
      (hperm.mem_iff.1 (List.mem_append_right _ List.mem_cons_self))

section Members

variable {α : Type} {columns : List (Column α)} {members members' : List (List Char × Tree)}
  {a : α}

theorem Tree.MeansRecord.of_perm (hperm : members.Perm members')
    (h : (Tree.object members).MeansRecord columns a) :
    (Tree.object members').MeansRecord columns a := by
  cases h with
  | @object _ named _ hspelled honce hholds =>
    obtain ⟨named', hspelled', hnamed⟩ :=
      List.perm_comp_forall₂ hperm.symm hspelled
    refine .object hspelled' (fun column hcolumn => ?_) fun column hcolumn => ?_
    · rw [(hnamed.map Prod.fst).count_eq]
      exact honce column hcolumn
    · rw [lookup_eq_of_perm hnamed.symm (honce column hcolumn)]
      exact hholds column hcolumn

/-- What stands for the columns besides one, none of it under the name of that one. -/
def Others (columns : List (Column α)) (column : Column α) (members : List (List Char × Tree))
    (a : α) : Prop :=
  ∃ named, Spelled members named ∧ (named.map Prod.fst).count column.name = 0 ∧
    ∀ other ∈ columns, other.name ≠ column.name →
      (named.map Prod.fst).count other.name ≤ 1 ∧ other.Holds (named.lookup other.name) a

/-- An object is told apart into the member that stands for a column and the others. -/
theorem Tree.meansRecord_cons_iff (hdistinct : (columns.map Column.name).Nodup)
    {column : Column α} (hcolumn : column ∈ columns) {key : List Char}
    (hkey : Spells key column.name.toList) (value : Tree) :
    (Tree.object ((key, value) :: members)).MeansRecord columns a ↔
      column.Holds (some value) a ∧ Others columns column members a := by
  constructor
  · intro h
    cases h with
    | object hspelled honce hholds =>
      cases hspelled with
      | @cons _ entry _ named hentry hspelled =>
        obtain ⟨name, value'⟩ := entry
        obtain ⟨hname, rfl⟩ : Spells key name.toList ∧ value = value' := hentry
        obtain rfl := name_eq_of_spells hkey hname
        have hself := hholds column hcolumn
        have hcount := honce column hcolumn
        rw [List.lookup_cons_self] at hself
        rw [List.map_cons, List.count_cons_self] at hcount
        refine ⟨hself, named, hspelled, by omega, fun other hother hne => ⟨?_, ?_⟩⟩
        · have hother' := honce other hother
          rwa [List.map_cons, List.count_cons_of_ne hne.symm] at hother'
        · have hother' := hholds other hother
          rwa [List.lookup_cons, beq_false_of_ne hne] at hother'
  · rintro ⟨hself, named, hspelled, hcount, hothers⟩
    refine .object (.cons ⟨hkey, rfl⟩ hspelled : Spelled _ ((column.name, value) :: named))
      (fun other hother => ?_) fun other hother => ?_
    · by_cases hne : other.name = column.name
      · rw [hne, List.map_cons, List.count_cons_self, hcount]
      · rw [List.map_cons, List.count_cons_of_ne (Ne.symm hne)]
        exact (hothers other hother hne).1
    · by_cases hne : other.name = column.name
      · obtain rfl := List.inj_on_of_nodup_map hdistinct hother hcolumn hne
        rw [List.lookup_cons_self]
        exact hself
      · rw [List.lookup_cons, beq_false_of_ne hne]
        exact (hothers other hother hne).2

end Members

/-- Items in other places stay where one is replaced. -/
theorem getElem?_replace_of_ne {before after : List Tree} {i : Nat} (h : i ≠ before.length)
    (item item' : Tree) : (before ++ item :: after)[i]? = (before ++ item' :: after)[i]? := by
  rw [List.getElem?_append, List.getElem?_append]
  split
  · rfl
  · obtain ⟨k, hk⟩ : ∃ k, i - before.length = k + 1 := ⟨i - before.length - 1, by omega⟩
    rw [hk, List.getElem?_cons_succ, List.getElem?_cons_succ]

/-! ## Gaps -/

/-- What a filled context stands for is told by the part that fills it and by what is around. -/
def Opens {α β : Type} (Means : Tree → α → Prop) (PartMeans : Tree → β → Prop) (get : α → β)
    (fill : Tree → Tree) : Prop :=
  ∃ Around : α → Prop, ∀ part a, Means (fill part) a ↔ PartMeans part (get a) ∧ Around a

section Opens

variable {α β γ : Type} {Means : Tree → α → Prop} {PartMeans : Tree → β → Prop} {get : α → β}
  {fill : Tree → Tree}

theorem Opens.part (h : Opens Means PartMeans get fill) {part : Tree} {a : α}
    (hmeans : Means (fill part) a) : PartMeans part (get a) := by
  obtain ⟨Around, hiff⟩ := h
  exact ((hiff part a).1 hmeans).1

/-- Another part that stands for the same may fill the gap. -/
theorem Opens.refill (h : Opens Means PartMeans get fill) {part part' : Tree} {a : α}
    (hmeans : Means (fill part) a) (hpart : PartMeans part' (get a)) : Means (fill part') a := by
  obtain ⟨Around, hiff⟩ := h
  exact (hiff part' a).2 ⟨hpart, ((hiff part a).1 hmeans).2⟩

theorem Opens.comp {InnerMeans : Tree → γ → Prop} {get' : β → γ} {fill' : Tree → Tree}
    (h : Opens Means PartMeans get fill) (h' : Opens PartMeans InnerMeans get' fill') :
    Opens Means InnerMeans (fun a => get' (get a)) fun part => fill (fill' part) := by
  obtain ⟨Around, hiff⟩ := h
  obtain ⟨Around', hiff'⟩ := h'
  refine ⟨fun a => Around' (get a) ∧ Around a, fun part a => ?_⟩
  rw [hiff, hiff', and_assoc]

end Opens

/-- A record that lacks the part for the column of a name. -/
inductive GapIn {α : Type} (columns : List (Column α)) (name : String) : (Tree → Tree) → Prop
  | member {before after : List (List Char × Tree)} {key : List Char} :
    Spells key name.toList → GapIn columns name fun part => .object (before ++ (key, part) :: after)
  | item {before after : List Tree} (hplace : before.length < columns.length) :
    columns[before.length].name = name →
      GapIn columns name fun part => .list (before ++ part :: after)

section Records

variable {α β : Type} {columns : List (Column α)}

/-- Where the filled record is an object, the part is the value of one of its members. -/
theorem GapIn.exists_mem {name : String} {fill : Tree → Tree} (h : GapIn columns name fill)
    {part : Tree} {members : List (List Char × Tree)} (hobject : fill part = .object members) :
    ∃ key, Spells key name.toList ∧ (key, part) ∈ members := by
  cases h with
  | member hkey =>
    obtain rfl := Tree.object.inj hobject
    exact ⟨_, hkey, List.mem_append_right _ List.mem_cons_self⟩
  | item _ _ => cases hobject

/-- The part in a gap stands for its column, whatever is around. -/
theorem GapIn.opens_holds (hdistinct : (columns.map Column.name).Nodup) {column : Column α}
    (hcolumn : column ∈ columns) {fill : Tree → Tree} (h : GapIn columns column.name fill) :
    Opens (Tree.MeansRecord columns) (fun part => column.Holds (some part)) id fill := by
  cases h with
  | @member before after key hkey =>
    refine ⟨Others columns column (before ++ after), fun part a => ?_⟩
    rw [id, ← Tree.meansRecord_cons_iff hdistinct hcolumn hkey part]
    exact ⟨.of_perm List.perm_middle, .of_perm List.perm_middle.symm⟩
  | @item before after hplace hname =>
    obtain rfl := List.inj_on_of_nodup_map hdistinct hcolumn (List.getElem_mem hplace) hname.symm
    refine ⟨fun a => before.length + (after.length + 1) ≤ columns.length ∧
      ∀ (i : Nat) (hi : i < columns.length), i ≠ before.length →
        columns[i].Holds (before ++ .null :: after)[i]? a, fun part a => ?_⟩
    have hpart : (before ++ part :: after)[before.length]? = some part := by
      rw [List.getElem?_append_right (Nat.le_refl _), Nat.sub_self, List.getElem?_cons_zero]
    constructor
    · intro hmeans
      cases hmeans with
      | list hlength hholds =>
        have hself := hholds before.length hplace
        rw [hpart] at hself
        refine ⟨hself, by simpa using hlength, fun i hi hne => ?_⟩
        rw [getElem?_replace_of_ne hne .null part]
        exact hholds i hi
    · rintro ⟨hself, hlength, hothers⟩
      refine .list (by simpa using hlength) fun i hi => ?_
      by_cases hi' : i = before.length
      · subst hi'
        rwa [hpart]
      · rw [getElem?_replace_of_ne hi' part .null]
        exact hothers i hi hi'

/-- Another part may fill the gap if its column holds it as it held the first. -/
theorem GapIn.refill (hdistinct : (columns.map Column.name).Nodup) {column : Column α}
    (hcolumn : column ∈ columns) {fill : Tree → Tree} (h : GapIn columns column.name fill)
    {part part' : Tree} {a : α} (hmeans : (fill part).MeansRecord columns a)
    (hpart : column.Holds (some part) a → column.Holds (some part') a) :
    (fill part').MeansRecord columns a := by
  have hopens := h.opens_holds hdistinct hcolumn
  exact hopens.refill hmeans (hpart (hopens.part hmeans))

variable {Means : Tree → β → Prop} {get : α → β} {name : String} {fill : Tree → Tree}

theorem GapIn.opens_required (hdistinct : (columns.map Column.name).Nodup)
    (hcolumn : Column.required name Means get ∈ columns) (h : GapIn columns name fill) :
    Opens (Tree.MeansRecord columns) Means get fill := by
  obtain ⟨Around, hiff⟩ := GapIn.opens_holds hdistinct hcolumn h
  refine ⟨Around, fun part a => (hiff part a).trans (and_congr_left fun _ => ?_)⟩
  simp [Column.required]

theorem GapIn.opens_optional (hdistinct : (columns.map Column.name).Nodup) {fallback : β}
    (hcolumn : Column.optional name Means get fallback ∈ columns) (h : GapIn columns name fill) :
    Opens (Tree.MeansRecord columns) Means get fill := by
  obtain ⟨Around, hiff⟩ := GapIn.opens_holds hdistinct hcolumn h
  refine ⟨Around, fun part a => (hiff part a).trans (and_congr_left fun _ => ?_)⟩
  simp [Column.optional]

end Records
end Json
end StringReport
