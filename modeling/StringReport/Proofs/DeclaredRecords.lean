import Mathlib.Data.List.Forall2
import StringReport.Proofs.FilledRecords

/-!
# What records stand for

A record is declared by its columns, each with a name, with what may stand for it, and perhaps
with a value to fall back on. An object stands for a record if its keys spell no column's name
twice and each column holds what stands under its name; a list, if it has no more items than
there are columns and each column holds what stands in its place. The members of an object that
no column names may be anything.

A schema with such columns accepts just the nodes that show a record of them.
-/
namespace StringReport
namespace Json

/-! ## Declarations -/

/-- A column of a record: its name in objects, and what a record may hold in it, given the tree
that stands for it, or that none does. -/
structure Column (α : Type) where
  name : String
  Holds : Option Tree → α → Prop

/-- A column that something has to stand for. -/
def Column.required {α β : Type} (name : String) (Means : Tree → β → Prop) (get : α → β) :
    Column α where
  name := name
  Holds part a := ∃ tree, part = some tree ∧ Means tree (get a)

/-- A column that may be left out, and then holds a given value. -/
def Column.optional {α β : Type} (name : String) (Means : Tree → β → Prop) (get : α → β)
    (fallback : β) : Column α where
  name := name
  Holds part a := (∃ tree, part = some tree ∧ Means tree (get a)) ∨ part = none ∧ fallback = get a

/-- Members by the names that their keys spell. -/
def Spelled (members : List (List Char × Tree)) (named : List (String × Tree)) : Prop :=
  List.Forall₂ (fun member entry => Spells member.1 entry.1.toList ∧ member.2 = entry.2)
    members named

/-- What stands for a record: an object, by the names of its members, or a list, by the places
of its items. -/
inductive Tree.MeansRecord {α : Type} (columns : List (Column α)) : Tree → α → Prop
  | object {members : List (List Char × Tree)} {named : List (String × Tree)} {a : α} :
    Spelled members named →
      (∀ column ∈ columns, (named.map Prod.fst).count column.name ≤ 1) →
      (∀ column ∈ columns, column.Holds (named.lookup column.name) a) →
      MeansRecord columns (.object members) a
  | list {items : List Tree} {a : α} :
    items.length ≤ columns.length →
      (∀ (i : Nat) (hi : i < columns.length), columns[i].Holds items[i]? a) →
      MeansRecord columns (.list items) a

/-- Each column holds something in a record, whatever the record was read from. -/
theorem Tree.MeansRecord.exists_holds {α : Type} {columns : List (Column α)} {tree : Tree}
    {a : α} (h : tree.MeansRecord columns a) (i : Nat) (hi : i < columns.length) :
    ∃ part, columns[i].Holds part a := by
  cases h with
  | object _ _ hholds => exact ⟨_, hholds _ (List.getElem_mem hi)⟩
  | list _ hholds => exact ⟨_, hholds i hi⟩

/-! ## Schemas and their columns -/

/-- A field is read as a column says, where `value` is what the field holds in the record that
is built. -/
structure Column.Fits {α : Type} {fields : List Field} (column : Column α)
    (build : Fields.Values fields → α) (field : Field)
    (value : Fields.Values fields → field.Value) : Prop where
  name : field.name = column.name
  decode : ∀ node, node.Unbroken → ∀ values,
    field.decode node = .ok (value values) ↔
      ∃ tree, Shows node tree ∧ column.Holds (some tree) (build values)
  fallback : ∀ values, field.fallback = some (value values) ↔ column.Holds none (build values)

section Fits

variable {α β : Type} {fields : List Field} {name : String} {decode : Decoder β}
  {Means : Tree → β → Prop} {get : α → β} {build : Fields.Values fields → α}
  {value : Fields.Values fields → β}

theorem Column.fits_required (hdecode : Decodes decode Means)
    (hget : ∀ values, get (build values) = value values) :
    (Column.required name Means get).Fits build (.required name decode) value where
  name := rfl
  decode node hunbroken values := by
    show decode node = .ok (value values) ↔
      ∃ tree, Shows node tree ∧ ∃ tree', some tree = some tree' ∧ Means tree' (get (build values))
    simp only [hdecode node hunbroken, hget, Option.some.injEq, exists_eq_left']
  fallback values := by simp [Column.required, Field.required]

theorem Column.fits_optional {fallback : β} (hdecode : Decodes decode Means)
    (hget : ∀ values, get (build values) = value values) :
    (Column.optional name Means get fallback).Fits build (.optional name decode fallback)
      value where
  name := rfl
  decode node hunbroken values := by
    show decode node = .ok (value values) ↔ ∃ tree, Shows node tree ∧
      ((∃ tree', some tree = some tree' ∧ Means tree' (get (build values))) ∨
        some tree = none ∧ fallback = get (build values))
    simp only [hdecode node hunbroken, hget, Option.some.injEq, exists_eq_left', reduceCtorEq,
      false_and, or_false]
  fallback values := by
    show some fallback = some (value values) ↔
      (∃ tree, none = some tree ∧ Means tree (get (build values))) ∨
        none = none ∧ fallback = get (build values)
    simp [hget]

variable {field : Field} {column : Column α} {value : Fields.Values fields → field.Value}

/-- A column holds a tree if its field holds the node that shows it. -/
theorem Column.Fits.holds_iff (h : column.Fits build field value) {part : Option Node}
    {part' : Option Tree} (hunbroken : ∀ node ∈ part, node.Unbroken)
    (hpart : Option.Rel Shows part part') (values : Fields.Values fields) :
    Fields.Holds field part (value values) ↔ column.Holds part' (build values) := by
  cases hpart with
  | none => exact h.fallback values
  | @some node tree htree =>
    show field.decode node = .ok (value values) ↔ _
    rw [h.decode node (hunbroken node rfl)]
    constructor
    · rintro ⟨tree', htree', hholds⟩
      rwa [htree.unique htree']
    · exact fun hholds => ⟨tree, htree, hholds⟩

end Fits

/-- Columns describe fields one by one, where `pick` gives the values of the fields. -/
inductive Describes {α : Type} {fields : List Field} (build : Fields.Values fields → α) :
    (later : List Field) → (Fields.Values fields → Fields.Values later) → List (Column α) → Prop
  | nil {pick : Fields.Values fields → Fields.Values []} : Describes build [] pick []
  | cons {field : Field} {later : List Field} {column : Column α} {columns : List (Column α)}
    {pick : Fields.Values fields → Fields.Values (field :: later)} :
    column.Fits build field (fun values => pick values ⟨0, Nat.succ_pos _⟩) →
      Describes build later (fun values i => pick values i.succ) columns →
      Describes build (field :: later) pick (column :: columns)

section Describes

variable {α : Type} {fields later : List Field} {build : Fields.Values fields → α}
  {pick : Fields.Values fields → Fields.Values later} {columns : List (Column α)}

theorem Describes.names (h : Describes build later pick columns) :
    later.map Field.name = columns.map Column.name := by
  induction h with
  | nil => rfl
  | cons hfits _ ih => rw [List.map_cons, List.map_cons, hfits.name, ih]

theorem Describes.length_eq (h : Describes build later pick columns) :
    later.length = columns.length := by
  have hnames := congrArg List.length h.names
  rwa [List.length_map, List.length_map] at hnames

theorem Describes.fits (h : Describes build later pick columns) (i : Fin later.length)
    (hi : i.val < columns.length) :
    columns[i.val].Fits build (later.get i) fun values => pick values i := by
  induction h with
  | nil => exact i.elim0
  | cons hfits _ ih =>
    obtain ⟨i, hlt⟩ := i
    cases i with
    | zero => exact hfits
    | succ i => exact ih ⟨i, Nat.lt_of_succ_lt_succ hlt⟩ (Nat.lt_of_succ_lt_succ hi)

/-- The columns hold what the fields hold, if what stands for the one shows what stands for the
other. -/
theorem Describes.holds_iff (h : Describes build later pick columns)
    {part : Fin later.length → Option Node}
    (hunbroken : ∀ i, ∀ node ∈ part i, node.Unbroken)
    {part' : (i : Nat) → i < columns.length → Option Tree}
    (hpart : ∀ (i : Fin later.length) (hi : i.val < columns.length),
      Option.Rel Shows (part i) (part' i hi))
    (values : Fields.Values fields) :
    (∀ i, Fields.Holds (later.get i) (part i) (pick values i)) ↔
      ∀ (i : Nat) (hi : i < columns.length), columns[i].Holds (part' i hi) (build values) := by
  constructor
  · intro hholds i hi
    have hlt : i < later.length := h.length_eq ▸ hi
    exact ((h.fits ⟨i, hlt⟩ hi).holds_iff (hunbroken _) (hpart ⟨i, hlt⟩ hi) values).1
      (hholds ⟨i, hlt⟩)
  · intro hholds i
    have hi : i.val < columns.length := h.length_eq ▸ i.isLt
    exact ((h.fits i hi).holds_iff (hunbroken i) (hpart i hi) values).2 (hholds i hi)

/-- What a field holds is shown by its node. -/
theorem Describes.exists_shows (h : Describes build later pick columns) {i : Fin later.length}
    {node : Node} (hunbroken : node.Unbroken) {values : Fields.Values fields}
    (hholds : Fields.Holds (later.get i) (some node) (pick values i)) :
    ∃ tree, Shows node tree := by
  have hi : i.val < columns.length := h.length_eq ▸ i.isLt
  obtain ⟨tree, htree, -⟩ := ((h.fits i hi).decode node hunbroken values).1 hholds
  exact ⟨tree, htree⟩

end Describes

/-! ## Trees of the nodes in a list or an object -/

theorem exists_showsItems {nodes : List Node} (h : ∀ node ∈ nodes, ∃ tree, Shows node tree) :
    ∃ items, ShowsItems nodes items := by
  induction nodes with
  | nil => exact ⟨[], .nil⟩
  | cons node nodes ih =>
    obtain ⟨⟨item, hitem⟩, hlater⟩ := List.forall_mem_cons.1 h
    obtain ⟨items, hitems⟩ := ih hlater
    exact ⟨item :: items, .cons hitem hitems⟩

theorem ShowsItems.length_eq {nodes : List Node} {items : List Tree} (h : ShowsItems nodes items) :
    nodes.length = items.length := by
  induction nodes generalizing items with
  | nil =>
    cases h
    rfl
  | cons node nodes ih =>
    cases h with
    | cons hitem hitems => rw [List.length_cons, List.length_cons, ih hitems]

theorem ShowsItems.rel_getElem? {nodes : List Node} {items : List Tree}
    (h : ShowsItems nodes items) (i : Nat) : Option.Rel Shows nodes[i]? items[i]? := by
  induction nodes generalizing items i with
  | nil =>
    cases h
    exact .none
  | cons node nodes ih =>
    cases h with
    | cons hitem hitems =>
      cases i with
      | zero => exact .some hitem
      | succ i => exact ih hitems i

/-- Entries of nodes and of the trees that these show, under the same names. -/
def ShowsNamed (named : List (String × Node)) (trees : List (String × Tree)) : Prop :=
  List.Forall₂ (fun entry tree => entry.1 = tree.1 ∧ Shows entry.2 tree.2) named trees

theorem ShowsNamed.map_fst {named : List (String × Node)} {trees : List (String × Tree)}
    (h : ShowsNamed named trees) : named.map Prod.fst = trees.map Prod.fst := by
  induction h with
  | nil => rfl
  | cons hentry _ ih => rw [List.map_cons, List.map_cons, hentry.1, ih]

theorem ShowsNamed.rel_lookup {named : List (String × Node)} {trees : List (String × Tree)}
    (h : ShowsNamed named trees) (name : String) :
    Option.Rel Shows (named.lookup name) (trees.lookup name) := by
  induction h with
  | nil => exact .none
  | @cons entry tree _ _ hentry _ ih =>
    rw [List.lookup_cons, List.lookup_cons, hentry.1]
    split
    · exact .some hentry.2
    · exact ih

open Fields (Named)

/-- Named members show an object whose keys spell their names. -/
theorem exists_showsMembers {nodes : List (RawString × Node)} {named : List (String × Node)}
    (hnamed : Named nodes named) (hunbroken : UnbrokenMembers nodes)
    (hshows : ∀ entry ∈ named, ∃ tree, Shows entry.2 tree) :
    ∃ members trees, ShowsMembers nodes members ∧ Spelled members trees ∧
      ShowsNamed named trees := by
  induction hnamed with
  | nil => exact ⟨[], [], .nil, .nil, .nil⟩
  | @cons node entry _ _ hentry _ ih =>
    obtain ⟨⟨tree, htree⟩, hlater⟩ := List.forall_mem_cons.1 hshows
    obtain ⟨⟨body, closed, beyond⟩, node⟩ := node
    obtain ⟨name, node'⟩ := entry
    obtain ⟨hkey, rfl⟩ : RawString.decode _ = .ok name ∧ node = node' := hentry
    obtain ⟨rfl, hspells⟩ := RawString.decode_eq_ok.1 hkey
    obtain ⟨members, trees, hmembers, hspelled, htrees⟩ := ih hunbroken.2.2 hlater
    exact ⟨(body, tree) :: members, (name, tree) :: trees,
      .cons (hspells.stringText hunbroken.1) htree hmembers, .cons ⟨hspells, rfl⟩ hspelled,
      .cons ⟨rfl, htree⟩ htrees⟩

/-- The members of an object are named by what its keys spell. -/
theorem ShowsMembers.exists_named {nodes : List (RawString × Node)}
    {members : List (List Char × Tree)} (h : ShowsMembers nodes members)
    {trees : List (String × Tree)} (hspelled : Spelled members trees) :
    ∃ named, Named nodes named ∧ ShowsNamed named trees := by
  induction nodes generalizing members trees with
  | nil =>
    cases h
    cases hspelled
    exact ⟨[], .nil, .nil⟩
  | cons node nodes ih =>
    cases h with
    | @cons key beyond node value _ _ _ htree hmembers =>
      cases hspelled with
      | @cons _ tree _ _ hentry hspelled =>
        obtain ⟨hspells, rfl⟩ := hentry
        obtain ⟨named, hnamed, htrees⟩ := ih hmembers hspelled
        exact ⟨(tree.1, node) :: named, .cons ⟨RawString.decode_eq_ok.2 ⟨rfl, hspells⟩, rfl⟩ hnamed,
          .cons ⟨rfl, htree⟩ htrees⟩

theorem ShowsNamed.exists_shows {named : List (String × Node)} {trees : List (String × Tree)}
    (h : ShowsNamed named trees) : ∀ entry ∈ named, ∃ tree, Shows entry.2 tree := by
  induction h with
  | nil => simp
  | cons hentry _ ih => exact List.forall_mem_cons.2 ⟨⟨_, hentry.2⟩, ih⟩

theorem unbroken_of_named {nodes : List (RawString × Node)} {named : List (String × Node)}
    (hnamed : Named nodes named) (hunbroken : UnbrokenMembers nodes) :
    ∀ entry ∈ named, entry.2.Unbroken := by
  induction hnamed with
  | nil => simp
  | cons hentry _ ih =>
    exact List.forall_mem_cons.2 ⟨hentry.2 ▸ hunbroken.2.1, ih hunbroken.2.2⟩

/-! ## Reading a record -/

section Records

variable {α : Type} {fields : List Field} {build : Fields.Values fields → α}
  {columns : List (Column α)}

/-- The columns hold what stands under their names, if the fields do. -/
theorem Describes.holds_named_iff (h : Describes build fields (fun values => values) columns)
    {named : List (String × Node)} (hunbroken : ∀ entry ∈ named, entry.2.Unbroken)
    {trees : List (String × Tree)} (htrees : ShowsNamed named trees)
    (values : Fields.Values fields) :
    (∀ i, Fields.Holds (fields.get i) (Fields.namedPart named i) (values i)) ↔
      ∀ column ∈ columns, column.Holds (trees.lookup column.name) (build values) := by
  have hpart (i : Fin fields.length) (hi : i.val < columns.length) :
      Option.Rel Shows (Fields.namedPart named i) (trees.lookup columns[i.val].name) := by
    rw [← (h.fits i hi).name]
    exact htrees.rel_lookup _
  have hnodes (i : Fin fields.length) : ∀ node ∈ Fields.namedPart named i, node.Unbroken := by
    intro node hnode
    obtain ⟨_, _, rfl, -⟩ := List.lookup_eq_some_iff.1 hnode
    exact hunbroken _ (List.mem_append_right _ List.mem_cons_self)
  rw [List.forall_mem_iff_getElem]
  exact h.holds_iff hnodes hpart values

/-- No column's name occurs twice, if no field's does. -/
theorem Describes.count_le_one_iff (h : Describes build fields (fun values => values) columns)
    {named : List (String × Node)} {trees : List (String × Tree)}
    (htrees : ShowsNamed named trees) :
    (∀ field ∈ fields, (named.map Prod.fst).count field.name ≤ 1) ↔
      ∀ column ∈ columns, (trees.map Prod.fst).count column.name ≤ 1 := by
  have hnames : (∀ name ∈ fields.map Field.name, (trees.map Prod.fst).count name ≤ 1) ↔
      ∀ name ∈ columns.map Column.name, (trees.map Prod.fst).count name ≤ 1 := by
    rw [h.names]
  rw [List.forall_mem_map, List.forall_mem_map] at hnames
  rw [htrees.map_fst]
  exact hnames

/-- An object is read as the record that it stands for. -/
theorem Describes.readObject_eq_ok (h : Describes build fields (fun values => values) columns)
    (hnames : (columns.map Column.name).Nodup) {nodes : List (RawString × Node)}
    {ending : ObjectEnd} (hunbroken : UnbrokenMembers nodes) {values : Fields.Values fields} :
    Fields.readObject nodes ending = .ok values ↔
      ∃ tree, Shows (.object nodes ending) tree ∧ tree.MeansRecord columns (build values) := by
  rw [Fields.readObject_eq_ok (h.names ▸ hnames)]
  constructor
  · rintro ⟨rfl, named, hnamed, honce, hskipped, hholds⟩
    have hnodes := unbroken_of_named hnamed hunbroken
    have hshows : ∀ entry ∈ named, ∃ tree, Shows entry.2 tree := by
      rintro ⟨name, node⟩ hentry
      by_cases hknown : name ∈ fields.map Field.name
      · obtain ⟨field, hfield, rfl⟩ := List.mem_map.1 hknown
        obtain ⟨i, rfl⟩ := List.get_of_mem hfield
        have hpart : Fields.namedPart named i = some node :=
          Fields.lookup_of_count_le_one (honce _ hfield) hentry
        exact h.exists_shows (hnodes _ hentry) (hpart ▸ hholds i)
      · exact (Node.skip_eq_ok (hnodes _ hentry)).1 (hskipped _ hentry hknown)
    obtain ⟨members, trees, hmembers, hspelled, htrees⟩ :=
      exists_showsMembers hnamed hunbroken hshows
    exact ⟨.object members, .object hmembers, .object hspelled
      ((h.count_le_one_iff htrees).1 honce) ((h.holds_named_iff hnodes htrees values).1 hholds)⟩
  · rintro ⟨tree, hshows, hmeans⟩
    cases hshows with
    | object hmembers =>
      cases hmeans with
      | object hspelled honce hholds =>
        obtain ⟨named, hnamed, htrees⟩ := hmembers.exists_named hspelled
        have hnodes := unbroken_of_named hnamed hunbroken
        exact ⟨rfl, named, hnamed, (h.count_le_one_iff htrees).2 honce,
          fun entry hentry _ =>
            (Node.skip_eq_ok (hnodes entry hentry)).2 (htrees.exists_shows entry hentry),
          (h.holds_named_iff hnodes htrees values).2 hholds⟩

/-- A list is read as the record that it stands for. -/
theorem Describes.readList_eq_ok (h : Describes build fields (fun values => values) columns)
    {title : String} {nodes : List Node} {ending : ListEnd} (hunbroken : UnbrokenItems nodes)
    {values : Fields.Values fields} :
    Fields.readList title nodes ending = .ok values ↔
      ∃ tree, Shows (.list nodes ending) tree ∧ tree.MeansRecord columns (build values) := by
  rw [unbrokenItems_iff] at hunbroken
  have hpart (i : Nat) : ∀ node ∈ nodes[i]?, node.Unbroken := fun node hnode =>
    hunbroken node (List.mem_of_getElem? hnode)
  have hholds_iff {items : List Tree} (hitems : ShowsItems nodes items) :
      (∀ i, Fields.Holds (fields.get i) nodes[i.val]? (values i)) ↔
        ∀ (i : Nat) (hi : i < columns.length), columns[i].Holds items[i]? (build values) :=
    h.holds_iff (fun i => hpart i) (fun i _ => hitems.rel_getElem? i) values
  rw [Fields.readList_eq_ok]
  constructor
  · rintro ⟨rfl, hlength, hholds⟩
    have hshows : ∀ node ∈ nodes, ∃ tree, Shows node tree := by
      intro node hnode
      obtain ⟨i, hi, rfl⟩ := List.getElem_of_mem hnode
      have hfield := hholds ⟨i, Nat.lt_of_lt_of_le hi hlength⟩
      rw [List.getElem?_eq_getElem hi] at hfield
      exact h.exists_shows (hunbroken _ hnode) hfield
    obtain ⟨items, hitems⟩ := exists_showsItems hshows
    exact ⟨.list items, .list hitems, .list (hitems.length_eq ▸ h.length_eq ▸ hlength)
      ((hholds_iff hitems).1 hholds)⟩
  · rintro ⟨tree, hshows, hmeans⟩
    cases hshows with
    | list hitems =>
      cases hmeans with
      | list hlength hholds =>
        exact ⟨rfl, hitems.length_eq ▸ h.length_eq ▸ hlength, (hholds_iff hitems).2 hholds⟩

end Records

/-- Columns declare the records of a schema: they describe its fields, no two have one name, and
every record is built from some values. -/
structure Schema.Declares {α : Type} (schema : Schema α) (columns : List (Column α)) : Prop where
  describes : Describes schema.build schema.fields (fun values => values) columns
  distinct : (columns.map Column.name).Nodup
  onto : Function.Surjective schema.build

/-- A schema accepts the records that its columns declare. -/
theorem Schema.Declares.decodes {α : Type} {schema : Schema α} {columns : List (Column α)}
    (h : schema.Declares columns) : Decodes schema.decode (Tree.MeansRecord columns) := by
  have hmap {result : Except Fault (Fields.Values schema.fields)} (P : α → Prop)
      (hresult : ∀ values, result = .ok values ↔ P (schema.build values)) (a : α) :
      result.map schema.build = .ok a ↔ P a := by
    rw [map_eq_ok]
    constructor
    · rintro ⟨values, hvalues, rfl⟩
      exact (hresult values).1 hvalues
    · intro ha
      obtain ⟨values, rfl⟩ := h.onto a
      exact ⟨values, (hresult values).2 ha, rfl⟩
  intro node hunbroken a
  cases node with
  | object members ending =>
    exact hmap (fun a => ∃ tree, Shows (.object members ending) tree ∧ tree.MeansRecord columns a)
      (fun _ => h.describes.readObject_eq_ok h.distinct hunbroken) a
  | list items ending =>
    exact hmap (fun a => ∃ tree, Shows (.list items ending) tree ∧ tree.MeansRecord columns a)
      (fun _ => h.describes.readList_eq_ok hunbroken) a
  | _ =>
    refine ⟨nofun, ?_⟩
    rintro ⟨tree, ⟨⟩, ⟨⟩⟩

end Json
end StringReport
