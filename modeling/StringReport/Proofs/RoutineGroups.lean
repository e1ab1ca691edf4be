import StringReport.Proofs.RecordOrder

/-!
# Grouping by routine

Strings are grouped in one pass, with a note of the position at which the group of each routine
stands. At any time the noted positions and the groups tell the same: the group at the position
of a routine is of that routine, and it holds the strings of it that were met. So a position
never lies outside of the groups, and what comes out are the routines as they first occur, each
with its strings.
-/
namespace StringReport

/-! ## Positions of distinct keys -/

section Keys

variable {keys : List UInt64} {key : UInt64}

/-- A new value at the position of one key is a new value for that key alone. -/
theorem set_map_of_nodup {β : Type} (hkeys : keys.Nodup) {position : Nat}
    (hat : keys[position]? = some key) {f f' : UInt64 → β} (hother : ∀ k ≠ key, f' k = f k) :
    (keys.map f).set position (f' key) = keys.map f' := by
  have hlt : position < keys.length := (List.getElem?_eq_some_iff.1 hat).1
  refine List.ext_getElem? fun i => ?_
  rw [List.getElem?_set, List.getElem?_map, List.getElem?_map, List.length_map, if_pos hlt]
  split
  · next heq => rw [← heq, hat, Option.map_some]
  · next hne =>
    cases hi : keys[i]? with
    | none => rfl
    | some k =>
      have hk : k ≠ key := by
        rintro rfl
        exact hne ((List.getElem?_inj hlt hkeys).1 (hat.trans hi.symm))
      rw [Option.map_some, Option.map_some, hother k hk]

/-- One more key stands after the others. -/
theorem getElem?_concat_eq_some_iff (h : key ∉ keys) {position : Nat} {k : UInt64} :
    (keys ++ [key])[position]? = some k ↔
      if k = key then position = keys.length else keys[position]? = some k := by
  have hkey (i : Nat) : keys[i]? ≠ some key := fun hi => h (List.mem_of_getElem? hi)
  rcases Nat.lt_trichotomy position keys.length with hlt | rfl | hgt
  · rw [List.getElem?_append_left hlt]
    split
    · next heq => simp [heq, hkey, Nat.ne_of_lt hlt]
    · rfl
  · rw [List.getElem?_concat_length]
    split
    · next heq => simp [heq]
    · next hne => simp [Ne.symm hne]
  · have hnone : (keys ++ [key])[position]? = none :=
      List.getElem?_eq_none (by simpa using Nat.succ_le_of_lt hgt)
    rw [hnone]
    split
    · simp [Nat.ne_of_gt hgt]
    · simp [List.getElem?_eq_none (Nat.le_of_lt hgt)]

end Keys

/-! ## The pass over the strings -/

namespace RoutineGroups

open DecodedString (routines ofRoutine routines_concat ofRoutine_concat nodup_routines mem_routines)

/-- The groups of some strings: one for each of their routines, in the order in which these first
occur, with its strings as they came, and at the position that is known for it. -/
structure Hold (g : RoutineGroups) (strings : List DecodedString) : Prop where
  groups : g.groups.toList =
    (routines strings).map fun routine => (routine, ofRoutine routine strings)
  positions : ∀ (routine : UInt64) (position : Nat),
    g.positions.lookup routine = some position ↔ (routines strings)[position]? = some routine

variable {g g' : RoutineGroups} {strings : List DecodedString} {s : DecodedString}

theorem hold_empty : empty.Hold [] := ⟨rfl, by simp [empty, routines]⟩

theorem Hold.size_groups (h : g.Hold strings) : g.groups.size = (routines strings).length := by
  rw [← Array.length_toList, h.groups, List.length_map]

/-- A routine without a position is one that has not occurred. -/
theorem Hold.lookup_eq_none_iff (h : g.Hold strings) {routine : UInt64} :
    g.positions.lookup routine = none ↔ routine ∉ routines strings := by
  rw [List.mem_iff_getElem?, Option.eq_none_iff_forall_ne_some, not_exists]
  exact forall_congr' fun position => not_congr (h.positions routine position)

theorem Hold.join (h : g.Hold strings) {position : Nat}
    (hposition : g.positions.lookup s.routine = some position) (hp : position < g.groups.size) :
    (g.join position hp s).Hold (strings ++ [s]) := by
  have hat : (routines strings)[position]? = some s.routine := (h.positions _ _).1 hposition
  have hroutines : routines (strings ++ [s]) = routines strings := by
    rw [routines_concat, if_pos (List.mem_of_getElem? hat), List.append_nil]
  have hgroup : g.groups[position] = (s.routine, ofRoutine s.routine strings) := by
    have hget : g.groups.toList[position]? = some (s.routine, ofRoutine s.routine strings) := by
      rw [h.groups, List.getElem?_map, hat, Option.map_some]
    rw [Array.getElem?_toList] at hget
    exact (Array.getElem?_eq_some_iff.1 hget).2
  refine ⟨?_, fun routine i => ?_⟩
  · -- the group at the position gets the string, and no other group is of its routine
    have hothers : ∀ routine ≠ s.routine, (routine, ofRoutine routine (strings ++ [s])) =
        (routine, ofRoutine routine strings) := fun routine hne => by
      rw [ofRoutine_concat, if_neg hne.symm]
    have hset := set_map_of_nodup (nodup_routines strings) hat hothers
    rw [ofRoutine_concat, if_pos rfl] at hset
    rw [RoutineGroups.join, hgroup, Array.toList_set, h.groups, hroutines]
    exact hset
  · rw [hroutines]
    exact h.positions routine i

theorem Hold.openFor (h : g.Hold strings) (hnone : g.positions.lookup s.routine = none) :
    (g.openFor s).Hold (strings ++ [s]) := by
  have hnew : s.routine ∉ routines strings := h.lookup_eq_none_iff.1 hnone
  have hroutines : routines (strings ++ [s]) = routines strings ++ [s.routine] := by
    rw [routines_concat, if_neg hnew]
  refine ⟨?_, fun routine position => ?_⟩
  · have hfirst : ofRoutine s.routine strings = [] := by
      refine List.filter_eq_nil_iff.2 fun other hother => ?_
      rw [decide_eq_true_eq]
      exact fun heq => hnew (mem_routines.2 (heq ▸ List.mem_map_of_mem hother))
    rw [RoutineGroups.openFor, Array.toList_push, h.groups, hroutines, List.map_append,
      List.map_singleton, ofRoutine_concat, if_pos rfl, hfirst, List.nil_append]
    congr 1
    refine List.map_congr_left fun routine hroutine => ?_
    rw [ofRoutine_concat, if_neg (by rintro rfl; exact hnew hroutine)]
  · rw [RoutineGroups.openFor, List.lookup_cons, hroutines, getElem?_concat_eq_some_iff hnew,
      h.size_groups]
    by_cases heq : routine = s.routine
    · rw [beq_iff_eq.2 heq, if_pos heq]
      exact Option.some_inj.trans eq_comm
    · rw [beq_eq_false_iff_ne.2 heq, if_neg heq]
      exact h.positions routine position

/-- What holds of the groups holds after one more string. -/
theorem Hold.add? (h : g.Hold strings) (hadd : g.add? s = some g') :
    g'.Hold (strings ++ [s]) := by
  obtain ⟨position, hp, hposition, rfl⟩ | ⟨hnone, rfl⟩ := add?_eq_some hadd
  · exact h.join hposition hp
  · exact h.openFor hnone

/-- And so it holds after any number of strings. -/
theorem Hold.foldlM (h : g.Hold strings) {more : List DecodedString}
    (hmore : more.foldlM RoutineGroups.add? g = some g') : g'.Hold (strings ++ more) := by
  induction more generalizing g strings with
  | nil =>
    cases hmore
    rwa [List.append_nil]
  | cons s more ih =>
    rw [List.foldlM_cons, Option.bind_eq_bind, Option.bind_eq_some_iff] at hmore
    obtain ⟨next, hadd, hmore⟩ := hmore
    rw [List.append_cons]
    exact ih (h.add? hadd) hmore

end RoutineGroups

namespace DecodedString

/-- The groups are the routines as they first occur, each with its strings as they came. Every
string finds the group of its routine at the position that is known for it. -/
theorem groupByRoutine?_eq (strings : List DecodedString) :
    groupByRoutine? strings =
      some ((routines strings).map fun routine => (routine, ofRoutine routine strings)) := by
  obtain ⟨g, hg⟩ := Option.isSome_iff_exists.1
    (RoutineGroups.inRange_empty.isSome_foldlM strings)
  have hold := RoutineGroups.hold_empty.foldlM hg
  rw [groupByRoutine?, hg, Option.map_some, hold.groups, List.nil_append]

theorem groupByRoutine_eq (strings : List DecodedString) :
    groupByRoutine strings =
      (routines strings).map fun routine => (routine, ofRoutine routine strings) := by
  rw [groupByRoutine, Option.get_of_eq_some _ (groupByRoutine?_eq strings)]

/-! ## Grouping again -/

theorem ofRoutine_append (routine : UInt64) (a b : List DecodedString) :
    ofRoutine routine (a ++ b) = ofRoutine routine a ++ ofRoutine routine b :=
  List.filter_append _ _

theorem ofRoutine_eq_nil {routine : UInt64} {strings : List DecodedString}
    (h : ∀ s ∈ strings, s.routine ≠ routine) : ofRoutine routine strings = [] :=
  List.filter_eq_nil_iff.2 fun s hs => by simpa using h s hs

theorem ofRoutine_eq_self {routine : UInt64} {strings : List DecodedString}
    (h : ∀ s ∈ strings, s.routine = routine) : ofRoutine routine strings = strings :=
  List.filter_eq_self.2 fun s hs => by simpa using h s hs

theorem routine_of_mem_ofRoutine {routine : UInt64} {strings : List DecodedString}
    {s : DecodedString} (h : s ∈ ofRoutine routine strings) : s.routine = routine := by
  simpa using (List.mem_filter.1 h).2

/-- A string that stands below one of some routines is of that routine. -/
theorem routine_mem_of_mem_flatMap {keys : List UInt64} {strings : List DecodedString}
    {s : DecodedString} (h : s ∈ keys.flatMap fun routine => ofRoutine routine strings) :
    s.routine ∈ keys := by
  obtain ⟨routine, hroutine, hs⟩ := List.mem_flatMap.1 h
  rwa [routine_of_mem_ofRoutine hs]

/-- Strings put together routine by routine still have those of one routine in their order. -/
theorem ofRoutine_flatMap {keys : List UInt64} (hkeys : keys.Nodup) {routine : UInt64}
    (h : routine ∈ keys) (strings : List DecodedString) :
    ofRoutine routine (keys.flatMap fun key => ofRoutine key strings) =
      ofRoutine routine strings := by
  induction keys with
  | nil => cases h
  | cons key keys ih =>
    obtain ⟨hkey, hkeys⟩ := List.nodup_cons.1 hkeys
    rw [List.flatMap_cons, ofRoutine_append]
    rcases List.mem_cons.1 h with rfl | hlater
    · have hothers : ∀ s ∈ keys.flatMap fun key => ofRoutine key strings, s.routine ≠ routine := by
        rintro s hs rfl
        exact hkey (routine_mem_of_mem_flatMap hs)
      rw [ofRoutine_eq_self fun s hs => routine_of_mem_ofRoutine hs, ofRoutine_eq_nil hothers,
        List.append_nil]
    · have hfirst : ∀ s ∈ ofRoutine key strings, s.routine ≠ routine := by
        rintro s hs rfl
        exact hkey (routine_of_mem_ofRoutine hs ▸ hlater)
      rw [ofRoutine_eq_nil hfirst, List.nil_append, ih hkeys hlater]

theorem routines_cons (s : DecodedString) (strings : List DecodedString) :
    routines (s :: strings) =
      s.routine :: routines (strings.filter fun t => !t.routine == s.routine) := by
  rw [routines, List.map_cons, List.eraseDups_cons, List.filter_map]
  rfl

/-- The strings of one routine, before those of others, tell of that routine first. -/
theorem routines_append_of_forall {routine : UInt64} {members later : List DecodedString}
    (hne : members ≠ []) (hmembers : ∀ s ∈ members, s.routine = routine)
    (hlater : ∀ s ∈ later, s.routine ≠ routine) :
    routines (members ++ later) = routine :: routines later := by
  cases members with
  | nil => exact absurd rfl hne
  | cons s members =>
    have hs : s.routine = routine := hmembers s List.mem_cons_self
    have hgone : members.filter (fun t => !t.routine == s.routine) = [] :=
      List.filter_eq_nil_iff.2 fun t ht => by
        simp [hs, hmembers t (List.mem_cons_of_mem _ ht)]
    have hkept : later.filter (fun t => !t.routine == s.routine) = later :=
      List.filter_eq_self.2 fun t ht => by simpa [hs] using hlater t ht
    rw [List.cons_append, routines_cons, List.filter_append, hgone, hkept, hs, List.nil_append]

/-- Strings put together routine by routine have the routines in that order. -/
theorem routines_flatMap {keys : List UInt64} (hkeys : keys.Nodup) {strings : List DecodedString}
    (h : ∀ key ∈ keys, ofRoutine key strings ≠ []) :
    routines (keys.flatMap fun key => ofRoutine key strings) = keys := by
  induction keys with
  | nil => rfl
  | cons key keys ih =>
    obtain ⟨hkey, hkeys⟩ := List.nodup_cons.1 hkeys
    have hlater : ∀ s ∈ keys.flatMap fun key => ofRoutine key strings, s.routine ≠ key := by
      rintro s hs rfl
      exact hkey (routine_mem_of_mem_flatMap hs)
    rw [List.flatMap_cons, routines_append_of_forall (h key List.mem_cons_self)
      (fun s hs => routine_of_mem_ofRoutine hs) hlater,
      ih hkeys fun other hother => h other (List.mem_cons_of_mem _ hother)]

theorem ofRoutine_ne_nil {routine : UInt64} {strings : List DecodedString}
    (h : routine ∈ routines strings) : ofRoutine routine strings ≠ [] := by
  obtain ⟨s, hs, rfl⟩ := List.mem_map.1 (mem_routines.1 h)
  exact List.ne_nil_of_mem (List.mem_filter.2 ⟨hs, by simp⟩)

/-- The strings of all groups, put together, are in the same groups again. -/
theorem groupByRoutine_flatMap (strings : List DecodedString) :
    groupByRoutine ((routines strings).flatMap fun routine => ofRoutine routine strings) =
      groupByRoutine strings := by
  rw [groupByRoutine_eq, groupByRoutine_eq,
    routines_flatMap (nodup_routines strings) fun _ h => ofRoutine_ne_nil h]
  refine List.map_congr_left fun routine hroutine => ?_
  rw [ofRoutine_flatMap (nodup_routines strings) hroutine]

/-- The pass over the strings comes to its end without a position outside of the groups. Its
groups are the routines as they first occur, each with all strings of it as they came. So no
routine has two groups and no group is empty, no string is lost or added, and the strings of all
groups in a row are grouped in the same way. -/
theorem exists_firstOccurrences_groupByRoutine (strings : List DecodedString) :
    ∃ keys, FirstOccurrences (strings.map (·.routine)) keys ∧
      groupByRoutine? strings = some (groupByRoutine strings) ∧
      groupByRoutine strings =
        keys.map (fun routine => (routine, strings.filter (·.routine = routine))) ∧
      ((groupByRoutine strings).map (·.1)).Nodup ∧
      (∀ group ∈ groupByRoutine strings, group.2 ≠ []) ∧
      ((groupByRoutine strings).flatMap (·.2)).Perm strings ∧
      groupByRoutine ((groupByRoutine strings).flatMap (·.2)) = groupByRoutine strings := by
  have heq := groupByRoutine_eq strings
  have hmembers : (groupByRoutine strings).flatMap (·.2) =
      (routines strings).flatMap fun routine => ofRoutine routine strings := by
    rw [heq, List.flatMap_map]
  refine ⟨routines strings, firstOccurrences_routines strings, ?_, heq, ?_, ?_, ?_, ?_⟩
  · rw [groupByRoutine?_eq, heq]
  · have hkeys : (groupByRoutine strings).map (·.1) = routines strings := by
      rw [heq, List.map_map]
      exact List.map_id _
    rw [hkeys]
    exact nodup_routines strings
  · rw [heq]
    rintro _ hgroup
    obtain ⟨routine, hroutine, rfl⟩ := List.mem_map.1 hgroup
    exact ofRoutine_ne_nil hroutine
  · rw [hmembers]
    exact perm_flatMap_ofRoutine strings
  · rw [hmembers]
    exact groupByRoutine_flatMap strings

end DecodedString
end StringReport
