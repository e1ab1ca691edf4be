import StringReport.Json.Decoder

/-!
# Reading records

A record is described by its fields in order, each with a name, a decoder and perhaps a
value to fall back on. It is read from an object, where members may come in any order and
unknown ones are passed over, or from a list of its fields in order. What has been read so
far is one optional value for each field.
-/
namespace StringReport.Json

/-- A field of a record. -/
structure Field where
  Value : Type
  name : String
  decode : Decoder Value
  fallback : Option Value

/-- A field that has to be there. -/
def Field.required {α : Type} (name : String) (decode : Decoder α) : Field :=
  ⟨α, name, decode, none⟩

/-- A field that may be left out. -/
def Field.optional {α : Type} (name : String) (decode : Decoder α) (fallback : α) : Field :=
  ⟨α, name, decode, some fallback⟩

/-- A value for each field. -/
abbrev Fields.Values (fields : List Field) : Type :=
  (i : Fin fields.length) → (fields.get i).Value

/-- The values read so far. -/
abbrev Fields.Slots (fields : List Field) : Type :=
  (i : Fin fields.length) → Option (fields.get i).Value

/-- A record: its title, its fields, and how it is made from their values. -/
structure Schema (α : Type) where
  title : String
  fields : List Field
  build : Fields.Values fields → α

namespace Fields

variable {fields : List Field}

/-- Nothing has been read. -/
def Slots.empty : Slots fields := fun _ => none

/-- One more value has been read. -/
def Slots.set (slots : Slots fields) (i : Fin fields.length) (value : (fields.get i).Value) :
    Slots fields :=
  fun j => if h : i = j then some (h ▸ value) else slots j

@[simp] theorem Slots.set_self (slots : Slots fields) (i : Fin fields.length)
    (value : (fields.get i).Value) : slots.set i value i = some value := by
  simp [Slots.set]

@[simp] theorem Slots.set_of_ne (slots : Slots fields) {i j : Fin fields.length} (h : i ≠ j)
    (value : (fields.get i).Value) : slots.set i value j = slots j := by
  simp [Slots.set, h]

/-- The field of a name. -/
def find? (fields : List Field) (name : String) : Option (Fin fields.length) :=
  (List.finRange fields.length).find? fun i => (fields.get i).name = name

/-- The value of a field: the one read, or the one to fall back on. -/
def Slots.value? (slots : Slots fields) (i : Fin fields.length) : Option (fields.get i).Value :=
  (slots i).or (fields.get i).fallback

/-- All values, or the fault of the first field that has none. -/
def Slots.complete (slots : Slots fields) (absent : Fin fields.length → Fault) :
    Except Fault (Values fields) :=
  match h : (List.finRange fields.length).find? fun i => (slots.value? i).isNone with
  | some i => .error (absent i)
  | none => .ok fun i => (slots.value? i).get (by
      have hi := List.find?_eq_none.1 h i (List.mem_finRange i)
      simpa [Option.isSome_iff_ne_none] using hi)

/-- Read the key of a member: a known field must not have been read before. -/
def readKey (slots : Slots fields) (key : RawString) :
    Except Fault (Option (Fin fields.length)) := do
  let name ← key.decode
  match find? fields name with
  | some i => if (slots i).isSome then .error (.duplicateField name) else .ok (some i)
  | none => .ok none

/-- Read a member. -/
def readMember (slots : Slots fields) (member : RawString × Node) :
    Except Fault (Slots fields) := do
  match ← readKey slots member.1 with
  | some i =>
    let value ← (fields.get i).decode member.2
    .ok (slots.set i value)
  | none =>
    member.2.skip
    .ok slots

/-- Read the members of an object. -/
def readObject (members : List (RawString × Node)) (ending : ObjectEnd) :
    Except Fault (Values fields) := do
  let slots ← members.foldlM readMember Slots.empty
  ending.check fun key => do let _ ← readKey slots key; .ok ()
  slots.complete fun i => .missingField (fields.get i).name

/-- The fault of a list that has all fields of a record. -/
def checkEnd : ListEnd → Except Fault Unit
  | .closed => .ok ()
  | .cut => .error .endInList
  | .commaMissing => .error .trailing
  | .danglingComma => .error .danglingComma

/-- Read fields from the items of a list, one after the other. -/
def readItems (ending : ListEnd) :
    List (Fin fields.length) → List Node → Slots fields → Except Fault (Slots fields)
  | [], [], slots => do checkEnd ending; .ok slots
  | [], _ :: _, _ => .error .trailing
  | _ :: _, [], slots => do ending.check; .ok slots
  | i :: indices, item :: items, slots => do
    let value ← (fields.get i).decode item
    readItems ending indices items (slots.set i value)

/-- Read the items of a list. -/
def readList (title : String) (items : List Node) (ending : ListEnd) :
    Except Fault (Values fields) := do
  let slots ← readItems ending (List.finRange fields.length) items Slots.empty
  slots.complete fun i => .wrongLength i title fields.length

end Fields

/-- The reading of a record. -/
def Schema.decode {α : Type} (schema : Schema α) : Decoder α
  | .object members ending => (Fields.readObject members ending).map schema.build
  | .list items ending => (Fields.readList schema.title items ending).map schema.build
  | node => .error (node.mismatch (.record schema.title))

end StringReport.Json
