import Mathlib.Data.List.FinRange
import Mathlib.Data.List.Nodup
import StringReport.Json.Record
import StringReport.Proofs.DeclaredValues

/-!
# Records are filled from the parts that stand for their fields

A record is read in one pass that keeps a slot for each field. What the pass makes of the slots
depends on nothing but which part stands for which field: in an object the one whose key spells
the field's name, in a list the one in the field's place. A part fills the slot of its field,
which has to be open; where no part is, the slot stays as it was.
-/
namespace StringReport.Json.Fields

variable {fields : List Field}

/-- The values of no fields. -/
def Values.nil : Values [] := fun i => i.elim0

/-- The value of a field and those of the fields after it. -/
def Values.cons {field : Field} (value : field.Value) (values : Values fields) :
    Values (field :: fields) :=
  fun i => match i with
    | ⟨0, _⟩ => value
    | ⟨i + 1, h⟩ => values ⟨i, Nat.lt_of_succ_lt_succ h⟩

/-! ## Slots -/

theorem Slots.complete_eq_ok {slots : Slots fields} {absent : Fin fields.length → Fault}
    {values : Values fields} :
    slots.complete absent = .ok values ↔ ∀ i, slots.value? i = some (values i) := by
  constructor
  · intro h i
    unfold Slots.complete at h
    split at h
    · cases h
    · rw [← Except.ok.inj h, Option.some_get]
  · intro h
    unfold Slots.complete
    split
    · next i hfind =>
      have hmissing := List.find?_some hfind
      rw [h i] at hmissing
      cases hmissing
    · refine congrArg Except.ok (funext fun i => ?_)
      simp only [h i, Option.get_some]

/-- What a field holds, given the node that stands for it, or that none does. -/
def Holds (field : Field) (part : Option Node) (value : field.Value) : Prop :=
  match part with
  | some node => field.decode node = .ok value
  | none => field.fallback = some value

/-- What becomes of a slot: if a node stands for its field, it was open and is filled, and
otherwise it stays as it was. -/
def Fill (field : Field) (part : Option Node) (old new : Option field.Value) : Prop :=
  match part with
  | some node => old = none ∧ ∃ value, field.decode node = .ok value ∧ new = some value
  | none => new = old

/-- Slots have been filled from the nodes that stand for their fields. -/
def Slots.Filled (slots slots' : Slots fields) (part : Fin fields.length → Option Node) : Prop :=
  ∀ i, Fill (fields.get i) (part i) (slots i) (slots' i)

/-- A slot that has been filled is not filled again. -/
theorem Slots.filled_set_iff {slots slots' : Slots fields} {i : Fin fields.length}
    {value : (fields.get i).Value} {part : Fin fields.length → Option Node} :
    (slots.set i value).Filled slots' part ↔
      (part i = none ∧ slots' i = some value) ∧
        ∀ j, j ≠ i → Fill (fields.get j) (part j) (slots j) (slots' j) := by
  have hother (j : Fin fields.length) (hj : j ≠ i) : slots.set i value j = slots j :=
    Slots.set_of_ne slots hj.symm value
  constructor
  · intro h
    have hi := h i
    rw [Slots.set_self] at hi
    refine ⟨?_, fun j hj => hother j hj ▸ h j⟩
    unfold Fill at hi
    split at hi
    · cases hi.1
    · next hpart => exact ⟨hpart, hi⟩
  · rintro ⟨⟨hpart, hvalue⟩, hrest⟩ j
    by_cases hj : j = i
    · subst hj
      rw [Slots.set_self, hpart, hvalue]
      rfl
    · rw [hother j hj]
      exact hrest j hj

/-- A record is complete if each field holds a value. -/
theorem exists_filled_iff {part : Fin fields.length → Option Node}
    {absent : Fin fields.length → Fault} {values : Values fields} :
    (∃ slots : Slots fields, Slots.empty.Filled slots part ∧ slots.complete absent = .ok values) ↔
      ∀ i, Holds (fields.get i) (part i) (values i) := by
  constructor
  · rintro ⟨slots, hfilled, hcomplete⟩ i
    have hvalue := Slots.complete_eq_ok.1 hcomplete i
    have hi := hfilled i
    rw [Slots.value?] at hvalue
    unfold Fill at hi
    unfold Holds
    split at hi
    · obtain ⟨-, value, hdecode, hslot⟩ := hi
      rw [hslot, Option.some_or] at hvalue
      rw [← Option.some.inj hvalue]
      exact hdecode
    · rw [hi] at hvalue
      exact hvalue
  · intro h
    refine ⟨fun i => if (part i).isSome then some (values i) else none, fun i => ?_,
      Slots.complete_eq_ok.2 fun i => ?_⟩
    · have hi := h i
      unfold Holds at hi
      unfold Fill
      split at hi
      · next hpart => exact ⟨rfl, values i, hi, by simp [hpart]⟩
      · next hpart => simp [Slots.empty, hpart]
    · have hi := h i
      unfold Holds at hi
      rw [Slots.value?]
      split at hi
      · next hpart => simp [hpart]
      · next hpart => simpa [hpart] using hi

/-! ## Objects -/

/-- A field is found by its name, if no other has the same. -/
theorem find?_name (hnames : (fields.map Field.name).Nodup) (i : Fin fields.length) :
    find? fields (fields.get i).name = some i := by
  cases hfind : find? fields (fields.get i).name with
  | none =>
    have hnone := List.find?_eq_none.1 hfind i (List.mem_finRange i)
    simp at hnone
  | some j =>
    have hname : (fields.get j).name = (fields.get i).name := by
      simpa using List.find?_some hfind
    have hfield : fields.get j = fields.get i :=
      List.inj_on_of_nodup_map hnames (List.get_mem _ _) (List.get_mem _ _) hname
    rw [(List.Nodup.of_map _ hnames).injective_get hfield]

theorem find?_eq_some_iff (hnames : (fields.map Field.name).Nodup) {name : String}
    {i : Fin fields.length} : find? fields name = some i ↔ name = (fields.get i).name := by
  constructor
  · intro h
    have hname := List.find?_some h
    exact (of_decide_eq_true hname).symm
  · rintro rfl
    exact find?_name hnames i

theorem readMember_eq_ok (hnames : (fields.map Field.name).Nodup) {slots next : Slots fields}
    {key : RawString} {node : Node} :
    readMember slots (key, node) = .ok next ↔
      ∃ name, key.decode = .ok name ∧
        ((∃ i, name = (fields.get i).name ∧ slots i = none ∧
            ∃ value, (fields.get i).decode node = .ok value ∧ next = slots.set i value) ∨
          (∀ i, name ≠ (fields.get i).name) ∧ node.skip = .ok () ∧ next = slots) := by
  constructor
  · intro h
    obtain ⟨found, hkey, hread⟩ := exists_of_bind_eq_ok h
    obtain ⟨name, hname, hfound⟩ := exists_of_bind_eq_ok hkey
    refine ⟨name, hname, ?_⟩
    cases hfind : find? fields name with
    | some i =>
      left
      rw [hfind] at hfound
      simp only at hfound
      split at hfound
      · cases hfound
      · next hopen =>
        obtain rfl := Except.ok.inj hfound
        obtain ⟨value, hvalue, hset⟩ := exists_of_bind_eq_ok hread
        exact ⟨i, (find?_eq_some_iff hnames).1 hfind, by simpa using hopen, value, hvalue,
          (Except.ok.inj hset).symm⟩
    | none =>
      right
      rw [hfind] at hfound
      obtain rfl := Except.ok.inj hfound
      obtain ⟨hskip, hnext⟩ := bind_eq_ok_unit.1 hread
      refine ⟨fun i hi => ?_, hskip, (Except.ok.inj hnext).symm⟩
      rw [(find?_eq_some_iff hnames).2 hi] at hfind
      cases hfind
  · rintro ⟨name, hname, ⟨i, hi, hopen, value, hvalue, rfl⟩ | ⟨hunknown, hskip, rfl⟩⟩
    · have hfind := (find?_eq_some_iff hnames).2 hi
      simp only [readMember, readKey, hname, hfind, hopen, bind, Except.bind, Option.isSome_none,
        Bool.false_eq_true, if_false, hvalue]
    · have hfind : find? fields name = none := by
        cases hfind : find? fields name with
        | none => rfl
        | some i => exact absurd ((find?_eq_some_iff hnames).1 hfind) (hunknown i)
      simp only [readMember, readKey, hname, hfind, bind, Except.bind, hskip]

/-- Members by the names that their keys spell. -/
def Named (nodes : List (RawString × Node)) (named : List (String × Node)) : Prop :=
  List.Forall₂ (fun node entry => node.1.decode = .ok entry.1 ∧ node.2 = entry.2) nodes named

/-- Under a name that occurs once, its entry is found. -/
theorem lookup_of_count_le_one {β : Type} {entries : List (String × β)} {name : String} {b : β}
    (honce : (entries.map Prod.fst).count name ≤ 1) (hentry : (name, b) ∈ entries) :
    entries.lookup name = some b := by
  induction entries with
  | nil => cases hentry
  | cons entry entries ih =>
    rw [List.map_cons, List.count_cons] at honce
    by_cases hname : entry.1 = name
    · have hlater : name ∉ entries.map Prod.fst := by
        rw [if_pos (beq_iff_eq.2 hname)] at honce
        exact List.count_eq_zero.1 (by omega)
      rcases List.mem_cons.1 hentry with rfl | hmem
      · exact List.lookup_cons_self
      · exact absurd (List.mem_map_of_mem hmem) hlater
    · rcases List.mem_cons.1 hentry with rfl | hmem
      · exact absurd rfl hname
      · rw [List.lookup_cons, beq_false_of_ne (Ne.symm hname)]
        exact ih (Nat.le_trans (Nat.le_add_right _ _) honce) hmem

/-- The node that stands for a field among members with names. -/
def namedPart (named : List (String × Node)) (i : Fin fields.length) : Option Node :=
  named.lookup (fields.get i).name

theorem namedPart_cons_self (i : Fin fields.length) (node : Node) (named : List (String × Node)) :
    namedPart (((fields.get i).name, node) :: named) i = some node :=
  List.lookup_cons_self

theorem namedPart_cons_of_ne {i : Fin fields.length} {name : String}
    (h : name ≠ (fields.get i).name) (node : Node) (named : List (String × Node)) :
    namedPart ((name, node) :: named) i = namedPart named i := by
  rw [namedPart, List.lookup_cons, beq_false_of_ne h.symm]
  rfl

theorem namedPart_eq_none_iff {named : List (String × Node)} {i : Fin fields.length} :
    namedPart named i = none ↔ (named.map Prod.fst).count (fields.get i).name = 0 := by
  rw [namedPart, List.count_eq_zero, List.lookup_eq_none_iff, List.mem_map]
  constructor
  · rintro h ⟨entry, hentry, heq⟩
    exact absurd heq.symm (by simpa using h entry hentry)
  · intro h entry hentry
    have hne : (fields.get i).name ≠ entry.1 := fun heq => h ⟨entry, hentry, heq.symm⟩
    simpa using hne

theorem name_ne (hnames : (fields.map Field.name).Nodup) {i j : Fin fields.length} (h : j ≠ i) :
    (fields.get i).name ≠ (fields.get j).name := by
  intro heq
  have hfind := (find?_eq_some_iff hnames).2 heq
  rw [find?_name hnames i] at hfind
  exact h (Option.some.inj hfind).symm

/-- What reading members with names makes of slots: each known name occurs once at most and
fills its slot, and the values of unknown names are passed over. -/
structure Slots.Reads (slots slots' : Slots fields) (named : List (String × Node)) : Prop where
  once : ∀ field ∈ fields, (named.map Prod.fst).count field.name ≤ 1
  skipped : ∀ entry ∈ named, entry.1 ∉ fields.map Field.name → entry.2.skip = .ok ()
  filled : slots.Filled slots' (namedPart named)

theorem Slots.reads_nil {slots slots' : Slots fields} : slots.Reads slots' [] ↔ slots = slots' :=
  ⟨fun h => funext fun i => (h.filled i).symm, fun h => ⟨by simp, by simp, fun _ => h ▸ rfl⟩⟩

/-- A known name fills its slot. -/
theorem Slots.reads_cons_known (hnames : (fields.map Field.name).Nodup)
    {slots slots' : Slots fields} {i : Fin fields.length} {node : Node}
    {named : List (String × Node)} :
    slots.Reads slots' (((fields.get i).name, node) :: named) ↔
      slots i = none ∧ ∃ value, (fields.get i).decode node = .ok value ∧
        (slots.set i value).Reads slots' named := by
  constructor
  · intro h
    have hi := h.filled i
    rw [namedPart_cons_self] at hi
    obtain ⟨hopen, value, hvalue, hslot⟩ := hi
    have hnone : namedPart named i = none := by
      have honce := h.once _ (List.get_mem fields i)
      rw [List.map_cons, List.count_cons_self] at honce
      exact namedPart_eq_none_iff.2 (by omega)
    refine ⟨hopen, value, hvalue, fun field hfield => ?_,
      (List.forall_mem_cons.1 h.skipped).2,
      Slots.filled_set_iff.2 ⟨⟨hnone, hslot⟩, fun j hj => ?_⟩⟩
    · exact Nat.le_trans List.count_le_count_cons (h.once field hfield)
    · rw [← namedPart_cons_of_ne (name_ne hnames hj) node]
      exact h.filled j
  · rintro ⟨hopen, value, hvalue, h⟩
    obtain ⟨⟨hnone, hslot⟩, hothers⟩ := Slots.filled_set_iff.1 h.filled
    refine ⟨fun field hfield => ?_, List.forall_mem_cons.2 ⟨fun hunknown => ?_, h.skipped⟩,
      fun j => ?_⟩
    · rw [List.map_cons, List.count_cons]
      split
      · next hsame => rw [← eq_of_beq hsame, namedPart_eq_none_iff.1 hnone]
      · exact h.once field hfield
    · exact absurd (List.mem_map_of_mem (List.get_mem fields i)) hunknown
    · by_cases hj : j = i
      · subst hj
        rw [namedPart_cons_self]
        exact ⟨hopen, value, hvalue, hslot⟩
      · rw [namedPart_cons_of_ne (name_ne hnames hj)]
        exact hothers j hj

/-- The value of an unknown name is passed over. -/
theorem Slots.reads_cons_unknown {slots slots' : Slots fields} {name : String}
    (hunknown : ∀ i, name ≠ (fields.get i).name) {node : Node} {named : List (String × Node)} :
    slots.Reads slots' ((name, node) :: named) ↔
      node.skip = .ok () ∧ slots.Reads slots' named := by
  have hname (field : Field) (hfield : field ∈ fields) : name ≠ field.name := by
    obtain ⟨i, rfl⟩ := List.get_of_mem hfield
    exact hunknown i
  have hnotMem : name ∉ fields.map Field.name := by
    intro hmem
    obtain ⟨field, hfield, heq⟩ := List.mem_map.1 hmem
    exact hname field hfield heq.symm
  have hcount (field : Field) (hfield : field ∈ fields) :
      (((name, node) :: named).map Prod.fst).count field.name =
        (named.map Prod.fst).count field.name := by
    rw [List.map_cons, List.count_cons_of_ne (hname field hfield)]
  have hpart : namedPart ((name, node) :: named) = (namedPart named : Fin fields.length → _) :=
    funext fun i => namedPart_cons_of_ne (hunknown i) node named
  constructor
  · rintro ⟨honce, hskipped, hfilled⟩
    obtain ⟨hskip, hlater⟩ := List.forall_mem_cons.1 hskipped
    exact ⟨hskip hnotMem, fun field hfield => hcount field hfield ▸ honce field hfield, hlater,
      hpart ▸ hfilled⟩
  · rintro ⟨hskip, honce, hskipped, hfilled⟩
    exact ⟨fun field hfield => (hcount field hfield).symm ▸ honce field hfield,
      List.forall_mem_cons.2 ⟨fun _ => hskip, hskipped⟩, hpart.symm ▸ hfilled⟩

/-- The members of an object are read one after the other, by the names that their keys spell. -/
theorem foldlM_readMember_eq_ok (hnames : (fields.map Field.name).Nodup)
    {nodes : List (RawString × Node)} {slots slots' : Slots fields} :
    nodes.foldlM readMember slots = .ok slots' ↔
      ∃ named, Named nodes named ∧ slots.Reads slots' named := by
  induction nodes generalizing slots with
  | nil =>
    constructor
    · intro h
      exact ⟨[], .nil, Slots.reads_nil.2 (Except.ok.inj h)⟩
    · rintro ⟨named, hnamed, hreads⟩
      cases hnamed
      exact congrArg Except.ok (Slots.reads_nil.1 hreads)
  | cons node nodes ih =>
    obtain ⟨key, node⟩ := node
    rw [List.foldlM_cons]
    constructor
    · intro h
      obtain ⟨next, hnext, hrest⟩ := exists_of_bind_eq_ok h
      obtain ⟨named, hnamed, hreads⟩ := ih.1 hrest
      obtain ⟨name, hname, hcase⟩ := (readMember_eq_ok hnames).1 hnext
      refine ⟨(name, node) :: named, .cons ⟨hname, rfl⟩ hnamed, ?_⟩
      rcases hcase with ⟨i, rfl, hopen, value, hvalue, rfl⟩ | ⟨hunknown, hskip, rfl⟩
      · exact (Slots.reads_cons_known hnames).2 ⟨hopen, value, hvalue, hreads⟩
      · exact (Slots.reads_cons_unknown hunknown).2 ⟨hskip, hreads⟩
    · rintro ⟨_, ⟨⟩ | ⟨⟨hname, hnode⟩, hnamed⟩, hreads⟩
      next entry named =>
      obtain ⟨name, node'⟩ := entry
      obtain rfl : node = node' := hnode
      by_cases hknown : ∃ i, name = (fields.get i).name
      · obtain ⟨i, rfl⟩ := hknown
        obtain ⟨hopen, value, hvalue, hlater⟩ := (Slots.reads_cons_known hnames).1 hreads
        rw [(readMember_eq_ok hnames).2 ⟨_, hname, Or.inl ⟨i, rfl, hopen, value, hvalue, rfl⟩⟩]
        exact ih.2 ⟨named, hnamed, hlater⟩
      · have hunknown (i : Fin fields.length) : name ≠ (fields.get i).name :=
          fun heq => hknown ⟨i, heq⟩
        obtain ⟨hskip, hlater⟩ := (Slots.reads_cons_unknown hunknown).1 hreads
        rw [(readMember_eq_ok hnames).2 ⟨name, hname, Or.inr ⟨hunknown, hskip, rfl⟩⟩]
        exact ih.2 ⟨named, hnamed, hlater⟩

/-- An object is read as a record if it is closed, its keys spell each known name once at most,
the values of unknown names are well formed, and each field holds its value. -/
theorem readObject_eq_ok (hnames : (fields.map Field.name).Nodup)
    {nodes : List (RawString × Node)} {ending : ObjectEnd} {values : Values fields} :
    readObject nodes ending = .ok values ↔
      ending = .closed ∧ ∃ named, Named nodes named ∧
        (∀ field ∈ fields, (named.map Prod.fst).count field.name ≤ 1) ∧
        (∀ entry ∈ named, entry.1 ∉ fields.map Field.name → entry.2.skip = .ok ()) ∧
        ∀ i, Holds (fields.get i) (namedPart named i) (values i) := by
  constructor
  · intro h
    obtain ⟨slots, hslots, hrest⟩ := exists_of_bind_eq_ok h
    obtain ⟨hending, hcomplete⟩ := bind_eq_ok_unit.1 hrest
    obtain ⟨named, hnamed, hreads⟩ := (foldlM_readMember_eq_ok hnames).1 hslots
    exact ⟨ObjectEnd.check_eq_ok.1 hending, named, hnamed, hreads.once, hreads.skipped,
      exists_filled_iff.1 ⟨slots, hreads.filled, hcomplete⟩⟩
  · rintro ⟨rfl, named, hnamed, honce, hskipped, hholds⟩
    obtain ⟨slots, hfilled, hcomplete⟩ := exists_filled_iff.2 hholds
    have hslots := (foldlM_readMember_eq_ok hnames).2
      ⟨named, hnamed, (⟨honce, hskipped, hfilled⟩ : Slots.empty.Reads slots named)⟩
    rw [readObject, hslots]
    exact hcomplete

/-! ## Lists -/

theorem checkEnd_eq_ok {ending : ListEnd} : checkEnd ending = .ok () ↔ ending = .closed := by
  cases ending <;> simp [checkEnd]

/-- The node that stands for a field among items, if these are for the given fields in turn. -/
def listedPart (indices : List (Fin fields.length)) (items : List Node)
    (i : Fin fields.length) : Option Node :=
  items[indices.idxOf i]?

theorem listedPart_cons_self (i : Fin fields.length) (indices : List (Fin fields.length))
    (item : Node) (items : List Node) :
    listedPart (i :: indices) (item :: items) i = some item := by
  rw [listedPart, List.idxOf_cons_self]
  rfl

theorem listedPart_cons_of_ne {i j : Fin fields.length} (h : j ≠ i)
    (indices : List (Fin fields.length)) (item : Node) (items : List Node) :
    listedPart (i :: indices) (item :: items) j = listedPart indices items j := by
  rw [listedPart, List.idxOf_cons_ne indices h.symm]
  rfl

/-- Where there is no item, no slot is filled. -/
theorem Slots.filled_nil_iff {slots slots' : Slots fields} {indices : List (Fin fields.length)} :
    slots.Filled slots' (listedPart indices []) ↔ slots = slots' := by
  constructor
  · exact fun h => funext fun i => (h i).symm
  · rintro rfl i
    exact rfl

/-- Items are read one after the other, as the fields whose turn it is. -/
theorem readItems_eq_ok {ending : ListEnd} {indices : List (Fin fields.length)}
    {items : List Node} {slots slots' : Slots fields} (hindices : indices.Nodup)
    (hopen : ∀ i ∈ indices, slots i = none) :
    readItems ending indices items slots = .ok slots' ↔
      ending = .closed ∧ items.length ≤ indices.length ∧
        slots.Filled slots' (listedPart indices items) := by
  induction indices generalizing items slots with
  | nil =>
    cases items with
    | nil =>
      rw [readItems, bind_eq_ok_unit, checkEnd_eq_ok, Slots.filled_nil_iff]
      simp
    | cons item items => simp [readItems]
  | cons i indices ih =>
    cases items with
    | nil =>
      rw [readItems, bind_eq_ok_unit, ListEnd.check_eq_ok, Slots.filled_nil_iff]
      simp
    | cons item items =>
      obtain ⟨hi, hindices⟩ := List.nodup_cons.1 hindices
      obtain ⟨hslot, hopen⟩ := List.forall_mem_cons.1 hopen
      have hnext (value : (fields.get i).Value) (j : Fin fields.length) (hj : j ∈ indices) :
          slots.set i value j = none := by
        have hne : i ≠ j := fun heq => hi (heq ▸ hj)
        rw [Slots.set_of_ne slots hne, hopen j hj]
      constructor
      · intro h
        obtain ⟨value, hvalue, hrest⟩ := exists_of_bind_eq_ok h
        obtain ⟨hending, hlength, hfilled⟩ := (ih hindices (hnext value)).1 hrest
        obtain ⟨⟨-, hset⟩, hothers⟩ := Slots.filled_set_iff.1 hfilled
        refine ⟨hending, Nat.succ_le_succ hlength, fun j => ?_⟩
        by_cases hj : j = i
        · subst hj
          rw [listedPart_cons_self]
          exact ⟨hslot, value, hvalue, hset⟩
        · rw [listedPart_cons_of_ne hj]
          exact hothers j hj
      · rintro ⟨hending, hlength, hfilled⟩
        have hfield := hfilled i
        rw [listedPart_cons_self] at hfield
        obtain ⟨-, value, hvalue, hset⟩ := hfield
        have hnone : listedPart indices items i = none := by
          rw [listedPart, List.idxOf_eq_length hi]
          exact List.getElem?_eq_none (Nat.le_of_succ_le_succ hlength)
        have hrest : (slots.set i value).Filled slots' (listedPart indices items) := by
          refine Slots.filled_set_iff.2 ⟨⟨hnone, hset⟩, fun j hj => ?_⟩
          rw [← listedPart_cons_of_ne hj indices item items]
          exact hfilled j
        rw [readItems, hvalue]
        exact (ih hindices (hnext value)).2 ⟨hending, Nat.le_of_succ_le_succ hlength, hrest⟩

/-- A list is read as a record if it is closed, has no more items than there are fields, and
each field holds its value. -/
theorem readList_eq_ok {title : String} {items : List Node} {ending : ListEnd}
    {values : Values fields} :
    readList title items ending = .ok values ↔
      ending = .closed ∧ items.length ≤ fields.length ∧
        ∀ i, Holds (fields.get i) items[i.val]? (values i) := by
  have hitems (slots : Slots fields) :
      readItems ending (List.finRange fields.length) items Slots.empty = .ok slots ↔
        ending = .closed ∧ items.length ≤ fields.length ∧
          Slots.empty.Filled slots fun i => items[i.val]? := by
    have hpart : listedPart (List.finRange fields.length) items = fun i => items[i.val]? :=
      funext fun i => by rw [listedPart, List.idxOf_finRange]
    have hopen : ∀ i ∈ List.finRange fields.length, (Slots.empty : Slots fields) i = none :=
      fun _ _ => rfl
    rw [readItems_eq_ok (List.nodup_finRange _) hopen, List.length_finRange, hpart]
  constructor
  · intro h
    obtain ⟨slots, hslots, hcomplete⟩ := exists_of_bind_eq_ok h
    obtain ⟨hending, hlength, hfilled⟩ := (hitems slots).1 hslots
    exact ⟨hending, hlength, exists_filled_iff.1 ⟨slots, hfilled, hcomplete⟩⟩
  · rintro ⟨hending, hlength, hholds⟩
    obtain ⟨slots, hfilled, hcomplete⟩ := exists_filled_iff.2 hholds
    rw [readList, (hitems slots).2 ⟨hending, hlength, hfilled⟩]
    exact hcomplete

end StringReport.Json.Fields
