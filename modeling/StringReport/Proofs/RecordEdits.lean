import StringReport.Proofs.RecordGaps

/-!
# Edits that leave a record as it is

A record stands for the same if the members of its object change places, if a member comes to it
whose key names no column, and if a member goes that holds what its column falls back on. The
same edits may be made inside of a value that is itself declared as a record, or as a list or a
table of records.

An edit is proved harmless by what it does to the part that stands for each column. That a member
may go needs one thing more: a tree stands for one value at most, which is so because there is a
node that shows it and a decoder that reads the node.
-/
namespace StringReport
namespace Json

/-! ## Trees that a text can hold -/

/-- A tree that some outline shows. -/
def Tree.IsShown (tree : Tree) : Prop := ∃ node : Node, node.Unbroken ∧ Shows node tree

theorem isShown_of_isText {tree : Tree} {text : List Char} (h : IsText tree text) :
    tree.IsShown := by
  obtain ⟨node, houtline, hnode⟩ := isText_iff.1 h
  have hroot := unbroken_outline text
  rw [houtline] at hroot
  exact ⟨node, hroot, hnode⟩

theorem ShowsItems.exists_of_mem {nodes : List Node} {items : List Tree}
    (h : ShowsItems nodes items) {item : Tree} (hitem : item ∈ items) :
    ∃ node ∈ nodes, Shows node item := by
  induction nodes generalizing items with
  | nil =>
    cases h
    cases hitem
  | cons node nodes ih =>
    cases h with
    | cons hnode hnodes =>
      rcases List.mem_cons.1 hitem with rfl | hlater
      · exact ⟨node, List.mem_cons_self, hnode⟩
      · obtain ⟨other, hother, hshows⟩ := ih hnodes hlater
        exact ⟨other, List.mem_cons_of_mem _ hother, hshows⟩

theorem ShowsMembers.exists_of_mem {nodes : List (RawString × Node)}
    {members : List (List Char × Tree)} (h : ShowsMembers nodes members)
    {member : List Char × Tree} (hmember : member ∈ members) :
    ∃ node ∈ nodes, Shows node.2 member.2 := by
  induction nodes generalizing members with
  | nil =>
    cases h
    cases hmember
  | cons node nodes ih =>
    cases h with
    | cons _ hnode hnodes =>
      rcases List.mem_cons.1 hmember with rfl | hlater
      · exact ⟨_, List.mem_cons_self, hnode⟩
      · obtain ⟨other, hother, hshows⟩ := ih hnodes hlater
        exact ⟨other, List.mem_cons_of_mem _ hother, hshows⟩

theorem Tree.IsShown.item {items : List Tree} (h : (Tree.list items).IsShown) {item : Tree}
    (hitem : item ∈ items) : item.IsShown := by
  obtain ⟨node, hunbroken, hnode⟩ := h
  cases hnode with
  | list hitems =>
    obtain ⟨other, hother, hshows⟩ := hitems.exists_of_mem hitem
    exact ⟨other, unbrokenItems_iff.1 hunbroken other hother, hshows⟩

theorem Tree.IsShown.member {members : List (List Char × Tree)}
    (h : (Tree.object members).IsShown) {member : List Char × Tree} (hmember : member ∈ members) :
    member.2.IsShown := by
  obtain ⟨node, hunbroken, hnode⟩ := h
  cases hnode with
  | object hmembers =>
    obtain ⟨other, hother, hshows⟩ := hmembers.exists_of_mem hmember
    exact ⟨other.2, (unbrokenMembers_iff.1 hunbroken other hother).2, hshows⟩

/-! ## Edits -/

/-- A value that a column holds as if nothing stood for it. -/
def Column.Spares {α : Type} (column : Column α) (value : Tree) : Prop :=
  ∃ a, column.Holds (some value) a ∧ column.Holds none a

/-- A column that may be left out spares just the values that stand for what it falls back on. -/
theorem Column.spares_optional_iff {α β : Type} {name : String} {Means : Tree → β → Prop}
    {get : α → β} {fallback : β} (hget : ∃ a, get a = fallback) {value : Tree} :
    (Column.optional name Means get fallback).Spares value ↔ Means value fallback := by
  constructor
  · rintro ⟨a, ⟨tree, htree, hmeans⟩ | ⟨hnone, -⟩, ⟨_, hnone, -⟩ | ⟨-, hfallback⟩⟩
    · cases hnone
    · rw [hfallback, Option.some.inj htree]
      exact hmeans
    · cases hnone
    · cases hnone
  · intro hmeans
    obtain ⟨a, rfl⟩ := hget
    exact ⟨a, Or.inl ⟨value, rfl, hmeans⟩, Or.inr ⟨rfl, rfl⟩⟩

/-- An edit of a record, for the edits that may be made inside of its columns. -/
inductive RecordEdit {α : Type} (columns : List (Column α))
    (nested : List (String × (Tree → Tree → Prop))) : Tree → Tree → Prop
  /-- Members change places. -/
  | permute {members members' : List (List Char × Tree)} :
    members.Perm members' → RecordEdit columns nested (.object members) (.object members')
  /-- A member comes in whose key names no column. -/
  | insert {before after : List (List Char × Tree)} {key : List Char} {value : Tree}
    {name : String} :
    Spells key name.toList → name ∉ columns.map Column.name →
      RecordEdit columns nested (.object (before ++ after))
        (.object (before ++ (key, value) :: after))
  /-- A member goes that its column spares. -/
  | delete {before after : List (List Char × Tree)} {key : List Char} {value : Tree}
    {column : Column α} :
    column ∈ columns → Spells key column.name.toList → column.Spares value →
      RecordEdit columns nested (.object (before ++ (key, value) :: after))
        (.object (before ++ after))
  /-- The value of a member is edited. -/
  | member {before after : List (List Char × Tree)} {key : List Char} {value value' : Tree}
    {part : String × (Tree → Tree → Prop)} :
    part ∈ nested → Spells key part.1.toList → part.2 value value' →
      RecordEdit columns nested (.object (before ++ (key, value) :: after))
        (.object (before ++ (key, value') :: after))
  /-- The item in the place of a column is edited. -/
  | item {before after : List Tree} {value value' : Tree}
    {part : String × (Tree → Tree → Prop)} (hplace : before.length < columns.length) :
    part ∈ nested → columns[before.length].name = part.1 → part.2 value value' →
      RecordEdit columns nested (.list (before ++ value :: after))
        (.list (before ++ value' :: after))

/-- An edit of one item of a list. -/
inductive ItemEdit (Edit : Tree → Tree → Prop) : Tree → Tree → Prop
  | mk {before after : List Tree} {item item' : Tree} :
    Edit item item' →
      ItemEdit Edit (.list (before ++ item :: after)) (.list (before ++ item' :: after))

/-- An edit of one value of a table. -/
inductive EntryEdit (Edit : Tree → Tree → Prop) : Tree → Tree → Prop
  | mk {before after : List (List Char × Tree)} {key : List Char} {value value' : Tree} :
    Edit value value' →
      EntryEdit Edit (.object (before ++ (key, value) :: after))
        (.object (before ++ (key, value') :: after))

/-- Edits leave what a tree stands for as it is. -/
def Keeps {α : Type} (Means : Tree → α → Prop) (Edit : Tree → Tree → Prop) : Prop :=
  ∀ tree tree', tree.IsShown → Edit tree tree' → ∀ a, Means tree a → Means tree' a

theorem Keeps.required {α β : Type} {Means : Tree → β → Prop} {Edit : Tree → Tree → Prop}
    (h : Keeps Means Edit) (name : String) (get : α → β) :
    Keeps (fun tree => (Column.required name Means get).Holds (some tree)) Edit := by
  rintro tree tree' hshown hedit a ⟨_, ⟨rfl⟩, hmeans⟩
  exact ⟨tree', rfl, h _ _ hshown hedit _ hmeans⟩

theorem Keeps.optional {α β : Type} {Means : Tree → β → Prop} {Edit : Tree → Tree → Prop}
    (h : Keeps Means Edit) (name : String) (get : α → β) (fallback : β) :
    Keeps (fun tree => (Column.optional name Means get fallback).Holds (some tree)) Edit := by
  rintro tree tree' hshown hedit a (⟨_, ⟨rfl⟩, hmeans⟩ | ⟨hnone, -⟩)
  · exact Or.inl ⟨tree', rfl, h _ _ hshown hedit _ hmeans⟩
  · cases hnone

/-! ## Lists and tables -/

theorem forall₂_replace {α β : Type} {R : α → β → Prop} {before after : List α} {x x' : α}
    {ys : List β} (h : List.Forall₂ R (before ++ x :: after) ys) (hx : ∀ y, R x y → R x' y) :
    List.Forall₂ R (before ++ x' :: after) ys := by
  induction before generalizing ys with
  | nil =>
    cases h with
    | cons hhead htail => exact .cons (hx _ hhead) htail
  | cons first before ih =>
    cases h with
    | cons hhead htail => exact .cons hhead (ih htail)

theorem Keeps.list {α : Type} {Means : Tree → α → Prop} {Edit : Tree → Tree → Prop}
    (h : Keeps Means Edit) : Keeps (Tree.MeansList Means) (ItemEdit Edit) := by
  rintro _ _ hshown ⟨hedit⟩ as ⟨items, hitems, hall⟩
  obtain rfl := Tree.list.inj hitems
  have hitem := hshown.item (List.mem_append_right _ List.mem_cons_self)
  exact ⟨_, rfl, forall₂_replace hall (h _ _ hitem hedit)⟩

theorem Keeps.entries {α : Type} {Means : Tree → α → Prop} {Edit : Tree → Tree → Prop}
    (h : Keeps Means Edit) :
    Keeps (fun tree entries => tree.MeansEntries Means entries) (EntryEdit Edit) := by
  rintro _ _ hshown ⟨hedit⟩ entries ⟨members, hmembers, hall⟩
  obtain rfl := Tree.object.inj hmembers
  have hmember := hshown.member (List.mem_append_right _ List.mem_cons_self)
  refine ⟨_, rfl, forall₂_replace hall fun entry hentry => ⟨hentry.1, ?_⟩⟩
  exact h _ _ hmember hedit _ hentry.2

/-! ## Records -/

section Records

variable {α : Type} {columns : List (Column α)} {members members' : List (List Char × Tree)}
  {a : α}

/-- A member whose key names no column may come in. -/
theorem Tree.MeansRecord.of_insert {key : List Char} {name : String}
    (hkey : Spells key name.toList) (hunknown : name ∉ columns.map Column.name) (value : Tree)
    (h : (Tree.object members).MeansRecord columns a) :
    (Tree.object ((key, value) :: members)).MeansRecord columns a := by
  have hne (column : Column α) (hcolumn : column ∈ columns) : name ≠ column.name := by
    rintro rfl
    exact hunknown (List.mem_map_of_mem hcolumn)
  cases h with
  | @object _ named _ hspelled honce hholds =>
    refine .object (.cons ⟨hkey, rfl⟩ hspelled : Spelled _ ((name, value) :: named))
      (fun column hcolumn => ?_) fun column hcolumn => ?_
    · rw [List.map_cons, List.count_cons_of_ne (hne column hcolumn)]
      exact honce column hcolumn
    · rw [List.lookup_cons, beq_false_of_ne (hne column hcolumn).symm]
      exact hholds column hcolumn

/-- Without a member for a column, the column holds what it falls back on. -/
theorem Others.meansRecord (hdistinct : (columns.map Column.name).Nodup) {column : Column α}
    (hcolumn : column ∈ columns) (h : Others columns column members a)
    (hnone : column.Holds none a) : (Tree.object members).MeansRecord columns a := by
  obtain ⟨named, hspelled, hcount, hothers⟩ := h
  refine .object hspelled (fun other hother => ?_) fun other hother => ?_
  · by_cases hne : other.name = column.name
    · rw [hne]
      omega
    · exact (hothers other hother hne).1
  · by_cases hne : other.name = column.name
    · obtain rfl := List.inj_on_of_nodup_map hdistinct hother hcolumn hne
      have hlookup : named.lookup other.name = none := by
        rw [List.lookup_eq_none_iff]
        intro entry hentry
        have hname : entry.1 ≠ other.name := by
          rintro heq
          exact List.count_eq_zero.1 hcount (heq ▸ List.mem_map_of_mem hentry)
        simpa using hname.symm
      rwa [hlookup]
    · exact (hothers other hother hne).2

/-- A column that holds a tree in two records holds nothing in both or in neither. -/
theorem Column.Fits.holds_none {fields : List Field} {build : Fields.Values fields → α}
    {column : Column α} {field : Field} {value : Fields.Values fields → field.Value}
    (h : column.Fits build field value) (honto : Function.Surjective build) {tree : Tree}
    (hshown : tree.IsShown) {b : α} (ha : column.Holds (some tree) a)
    (hb : column.Holds (some tree) b) (hnone : column.Holds none b) : column.Holds none a := by
  obtain ⟨node, hunbroken, hnode⟩ := hshown
  obtain ⟨values, rfl⟩ := honto a
  obtain ⟨values', rfl⟩ := honto b
  have hread := (h.decode node hunbroken values).2 ⟨tree, hnode, ha⟩
  have hread' := (h.decode node hunbroken values').2 ⟨tree, hnode, hb⟩
  have hsame : value values = value values' := Except.ok.inj (hread.symm.trans hread')
  rw [← h.fallback] at hnone ⊢
  rw [hsame]
  exact hnone

/-- The edits of a record leave it as it is, if those inside of its columns do. -/
theorem Schema.Declares.keeps {schema : Schema α} (h : schema.Declares columns)
    {nested : List (String × (Tree → Tree → Prop))}
    (hnested : ∀ part ∈ nested, ∃ column ∈ columns, column.name = part.1 ∧
      Keeps (fun tree => column.Holds (some tree)) part.2) :
    Keeps (Tree.MeansRecord columns) (RecordEdit columns nested) := by
  intro tree tree' hshown hedit a hmeans
  cases hedit with
  | permute hperm => exact hmeans.of_perm hperm
  | insert hkey hunknown =>
    exact (hmeans.of_insert hkey hunknown _).of_perm List.perm_middle.symm
  | @delete _ _ _ value column hcolumn hkey hspares =>
    have hvalue := hshown.member (List.mem_append_right _ List.mem_cons_self)
    obtain ⟨hself, hothers⟩ :=
      (Tree.meansRecord_cons_iff h.distinct hcolumn hkey value).1 (hmeans.of_perm List.perm_middle)
    obtain ⟨b, hb, hnone⟩ := hspares
    obtain ⟨i, hi, rfl⟩ := List.getElem_of_mem hcolumn
    have hfits := h.describes.fits ⟨i, h.describes.length_eq ▸ hi⟩ hi
    exact hothers.meansRecord h.distinct hcolumn (hfits.holds_none h.onto hvalue hself hb hnone)
  | @member _ _ _ value value' part hpart hkey hinner =>
    have hvalue := hshown.member (List.mem_append_right _ List.mem_cons_self)
    obtain ⟨column, hcolumn, hname, hkeeps⟩ := hnested part hpart
    rw [← hname] at hkey
    exact (GapIn.member hkey).refill h.distinct hcolumn hmeans (hkeeps _ _ hvalue hinner a)
  | item hplace hpart hname hinner =>
    have hvalue := hshown.item (List.mem_append_right _ List.mem_cons_self)
    obtain ⟨column, hcolumn, hcolumnName, hkeeps⟩ := hnested _ hpart
    exact (GapIn.item hplace (hname.trans hcolumnName.symm)).refill h.distinct hcolumn hmeans
      (hkeeps _ _ hvalue hinner a)

end Records
end Json
end StringReport
