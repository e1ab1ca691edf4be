import StringReport.Report.Listing

/-!
# Decoded strings by routine

Verbose reports group decoded strings by the routine that produced them. Routines stand in
the order in which they first occur, and the strings of a routine in theirs.
-/
namespace StringReport

/-- Groups of strings in the order in which they were opened, and for each routine met so far
the position of its group. -/
structure RoutineGroups where
  groups : Array (UInt64 × List DecodedString)
  positions : List (UInt64 × Nat)

namespace RoutineGroups

/-- No group yet. -/
def empty : RoutineGroups := ⟨#[], []⟩

/-- Put a string at the end of the group at a position. -/
def join (g : RoutineGroups) (position : Nat) (h : position < g.groups.size)
    (s : DecodedString) : RoutineGroups :=
  let (routine, members) := g.groups[position]
  { g with groups := g.groups.set position (routine, members ++ [s]) }

/-- Open a group for the routine of a string, after the other groups. -/
def openFor (g : RoutineGroups) (s : DecodedString) : RoutineGroups :=
  ⟨g.groups.push (s.routine, [s]), (s.routine, g.groups.size) :: g.positions⟩

/-- Put a string with the others of its routine, or open a group for it. Nothing comes of a
position that lies outside of the groups. -/
def add? (g : RoutineGroups) (s : DecodedString) : Option RoutineGroups :=
  match g.positions.lookup s.routine with
  | some position => if h : position < g.groups.size then some (g.join position h s) else none
  | none => some (g.openFor s)

variable {g g' : RoutineGroups} {s : DecodedString}

theorem add?_eq_some (h : g.add? s = some g') :
    (∃ (position : Nat) (hp : position < g.groups.size),
      g.positions.lookup s.routine = some position ∧ g' = g.join position hp s) ∨
    (g.positions.lookup s.routine = none ∧ g' = g.openFor s) := by
  unfold add? at h
  split at h
  · next position hposition =>
    split at h
    · next hp => exact .inl ⟨position, hp, hposition, (Option.some.inj h).symm⟩
    · cases h
  · next hnone => exact .inr ⟨hnone, (Option.some.inj h).symm⟩

/-- Every position is that of a group. -/
def InRange (g : RoutineGroups) : Prop :=
  ∀ routine position, g.positions.lookup routine = some position → position < g.groups.size

theorem inRange_empty : InRange empty := nofun

/-- As long as every position is that of a group, a string finds its place. -/
theorem InRange.exists_add? (h : g.InRange) (s : DecodedString) : ∃ g', g.add? s = some g' := by
  unfold add?
  split
  · next position hposition => exact ⟨_, dif_pos (h _ _ hposition)⟩
  · exact ⟨_, rfl⟩

theorem InRange.add? (h : g.InRange) (hadd : g.add? s = some g') : g'.InRange := by
  intro routine position hposition
  obtain ⟨i, hi, -, rfl⟩ | ⟨-, rfl⟩ := add?_eq_some hadd
  · rw [join, Array.size_set]
    exact h routine position hposition
  · rw [openFor, List.lookup_cons] at hposition
    rw [openFor, Array.size_push]
    split at hposition
    · cases hposition
      exact Nat.lt_succ_self _
    · exact Nat.lt_succ_of_lt (h routine position hposition)

/-- So no string is met that finds no place. -/
theorem InRange.isSome_foldlM (h : g.InRange) (strings : List DecodedString) :
    (strings.foldlM RoutineGroups.add? g).isSome := by
  induction strings generalizing g with
  | nil => rfl
  | cons s strings ih =>
    obtain ⟨g', hadd⟩ := h.exists_add? s
    rw [List.foldlM_cons, hadd]
    exact ih (h.add? hadd)

end RoutineGroups

namespace DecodedString

/-- Strings put into the groups of their routines one by one, if each of them finds its
place. -/
def groupByRoutine? (strings : List DecodedString) : Option (List (UInt64 × List DecodedString)) :=
  (strings.foldlM RoutineGroups.add? .empty).map (·.groups.toList)

theorem isSome_groupByRoutine? (strings : List DecodedString) :
    (groupByRoutine? strings).isSome := by
  rw [groupByRoutine?, Option.isSome_map]
  exact RoutineGroups.inRange_empty.isSome_foldlM strings

/-- Strings grouped by routine. -/
def groupByRoutine (strings : List DecodedString) : List (UInt64 × List DecodedString) :=
  (groupByRoutine? strings).get (isSome_groupByRoutine? strings)

/-- Where a string was found: a region, or an address. -/
def location (s : DecodedString) : String :=
  match s.region with
  | .stack => "[stack]"
  | .heap => "[heap]"
  | .global => Hex.address (s.address.getD 0)

end DecodedString

/-- The cells of a decoded string, for the string as it is shown. -/
def decodedCells (s : DecodedString) (value : String) : List StyledText :=
  [.plain s.location, .plain (Hex.address s.decodedAt), .value value]

/-- A row of the table of decoded strings. -/
def decodedRow (sanitizer : Sanitizer) (s : DecodedString) : Traced (Vector StyledText 3) := do
  let value ← sanitizer.display s.string false
  return ⟨(decodedCells s value).toArray, rfl⟩

/-- The table of decoded strings. -/
def decodedGrid (policy : Policy) (rows : List (Vector StyledText 3)) : Grid 3 where
  columns := #v["Offset", "Called At", "String"]
  rows := rows
  showHeader := policy.headers
  border := .inner

/-- The strings of one routine under its address. -/
def routineBlocks (policy : Policy) (sanitizer : Sanitizer)
    (group : UInt64 × List DecodedString) : Traced (List Block) := do
  let rows ← Traced.each group.2 (decodedRow sanitizer)
  return [.subHeading ((StyledText.plain " FUNCTION at ").push (Hex.address group.1) .accent)
      group.2.length,
    .grid (decodedGrid policy rows), .blank]

/-- The section for decoded strings. -/
def decodedBlocks (policy : Policy) (sanitizer : Sanitizer) (strings : List DecodedString) :
    Traced (List Block) := do
  let heading := sectionHeading policy "DECODED" strings.length
  if policy.isVerbose then
    let groups := DecodedString.groupByRoutine strings
    let blocks ← Traced.each groups (routineBlocks policy sanitizer)
    Traced.tell (.decodedRendered strings.length groups.length)
    return heading :: blocks.flatten
  else
    let lines ← plainLines sanitizer (strings.map (·.string))
    return heading :: lines

end StringReport
