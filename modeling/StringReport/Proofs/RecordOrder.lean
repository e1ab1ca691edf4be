import Mathlib.Data.List.Induction
import Mathlib.Data.List.Nodup
import StringReport.Report.Routines

/-!
# The order of records

Two sections do not list their records as the document has them. Strings of a language runtime
stand by ascending offset, those of one offset as they came. Decoded strings stand routine by
routine in verbose reports: the routines as they first occur, and under each one its strings as
they came. Both orders are described here without the way in which they are brought about.
-/
namespace StringReport

/-! ## Ascending offsets -/

/-- The given records in ascending order of their offsets, those of one offset as they came. -/
structure InOrder {α : Type} (offset : α → UInt64) (records ordered : List α) : Prop where
  perm : ordered.Perm records
  ascending : ordered.Pairwise fun a b => offset a ≤ offset b
  stable : ∀ value : UInt64,
    ordered.filter (offset · = value) = records.filter (offset · = value)

section InOrder

variable {α : Type} {offset : α → UInt64}

theorem inOrder_mergeSort (records : List α) :
    InOrder offset records (records.mergeSort fun a b => offset a ≤ offset b) := by
  have htrans (a b c : α) (hab : decide (offset a ≤ offset b) = true)
      (hbc : decide (offset b ≤ offset c) = true) : decide (offset a ≤ offset c) = true := by
    rw [decide_eq_true_eq] at *
    exact UInt64.le_trans hab hbc
  have htotal (a b : α) :
      (decide (offset a ≤ offset b) || decide (offset b ≤ offset a)) = true := by
    simpa using UInt64.le_total (offset a) (offset b)
  have hperm := List.mergeSort_perm records fun a b => decide (offset a ≤ offset b)
  refine ⟨hperm, ?_, fun value => ?_⟩
  · exact (List.pairwise_mergeSort htrans htotal records).imp fun h => by simpa using h
  · -- the records of one offset are sorted as they are, so sorting keeps their order
    have hsorted : (records.filter (offset · = value)).Pairwise fun a b =>
        decide (offset a ≤ offset b) = true := by
      refine List.pairwise_of_forall_mem_list fun a ha b hb => ?_
      simp only [List.mem_filter, decide_eq_true_eq] at ha hb ⊢
      rw [ha.2, hb.2]
      exact UInt64.le_refl value
    have hkept := (List.sublist_mergeSort htrans htotal hsorted List.filter_sublist).filter
      fun record => decide (offset record = value)
    simp only [List.filter_filter, Bool.and_self] at hkept
    exact (hkept.eq_of_length (hperm.filter _).length_eq.symm).symm

/-- Lists in ascending order are the same if they have the same records of each offset in the
same order. -/
theorem eq_of_ascending {a b : List α} (hperm : a.Perm b)
    (ha : a.Pairwise fun s t => offset s ≤ offset t)
    (hb : b.Pairwise fun s t => offset s ≤ offset t)
    (hstable : ∀ value : UInt64,
      a.filter (offset · = value) = b.filter (offset · = value)) : a = b := by
  induction a generalizing b with
  | nil => exact hperm.nil_eq
  | cons x a ih =>
    cases b with
    | nil => exact absurd hperm.symm.nil_eq (List.cons_ne_nil _ _).symm
    | cons y b =>
      obtain ⟨hx, hatail⟩ := List.pairwise_cons.1 ha
      obtain ⟨hy, hbtail⟩ := List.pairwise_cons.1 hb
      -- both heads have the least offset, and they are the first to have it
      have hxy : offset x ≤ offset y := by
        rcases List.mem_cons.1 (hperm.symm.subset List.mem_cons_self) with h | h
        · exact h ▸ UInt64.le_refl _
        · exact hx y h
      have hyx : offset y ≤ offset x := by
        rcases List.mem_cons.1 (hperm.subset List.mem_cons_self) with h | h
        · exact h ▸ UInt64.le_refl _
        · exact hy x h
      have hoffset : offset y = offset x := UInt64.le_antisymm hyx hxy
      have hhead := hstable (offset x)
      rw [List.filter_cons_of_pos (by simp), List.filter_cons_of_pos (by simp [hoffset])] at hhead
      obtain rfl : x = y := (List.cons.inj hhead).1
      refine congrArg (x :: ·) (ih hperm.cons_inv hatail hbtail fun value => ?_)
      have h := hstable value
      simp only [List.filter_cons] at h
      split at h
      · exact (List.cons.inj h).2
      · exact h

/-- There is one such order. -/
theorem InOrder.unique {records a b : List α} (ha : InOrder offset records a)
    (hb : InOrder offset records b) : a = b :=
  eq_of_ascending (ha.perm.trans hb.perm.symm) ha.ascending hb.ascending fun value =>
    (ha.stable value).trans (hb.stable value).symm

end InOrder

theorem LanguageString.inOrder_sortByOffset (strings : List LanguageString) :
    InOrder (·.offset) strings (sortByOffset strings) :=
  inOrder_mergeSort strings

/-! ## Routines -/

namespace DecodedString

/-- The routines of some strings, each once, as they first occur. -/
def routines (strings : List DecodedString) : List UInt64 := (strings.map (·.routine)).eraseDups

/-- The strings of one routine, as they came. -/
def ofRoutine (routine : UInt64) (strings : List DecodedString) : List DecodedString :=
  strings.filter (·.routine = routine)

theorem mem_routines {routine : UInt64} {strings : List DecodedString} :
    routine ∈ routines strings ↔ routine ∈ strings.map (·.routine) :=
  List.mem_eraseDups

theorem routines_concat (strings : List DecodedString) (s : DecodedString) :
    routines (strings ++ [s]) =
      routines strings ++ if s.routine ∈ routines strings then [] else [s.routine] := by
  have hseen : ([s.routine].removeAll (strings.map (·.routine))) =
      if s.routine ∈ routines strings then [] else [s.routine] := by
    by_cases h : s.routine ∈ strings.map (·.routine)
    · rw [if_pos (mem_routines.2 h)]
      simpa [List.removeAll] using h
    · rw [if_neg fun h' => h (mem_routines.1 h')]
      simpa [List.removeAll] using h
  rw [routines, List.map_append, List.eraseDups_append, List.map_singleton, hseen, ← routines]
  split <;> rfl

theorem nodup_routines (strings : List DecodedString) : (routines strings).Nodup := by
  induction strings using List.reverseRecOn with
  | nil => exact List.nodup_nil
  | append_singleton strings s ih =>
    rw [routines_concat]
    split
    · rwa [List.append_nil]
    · next h => exact List.Nodup.append ih (List.nodup_singleton _) (by simpa using h)

/-- The given numbers, each once, as they first occur. -/
structure FirstOccurrences (numbers keys : List UInt64) : Prop where
  nodup : keys.Nodup
  mem_iff : ∀ key, key ∈ keys ↔ key ∈ numbers
  ordered : keys.Pairwise fun a b => numbers.idxOf a < numbers.idxOf b

theorem firstOccurrences_routines (strings : List DecodedString) :
    FirstOccurrences (strings.map (·.routine)) (routines strings) where
  nodup := nodup_routines strings
  mem_iff _ := mem_routines
  ordered := by
    induction strings using List.reverseRecOn with
    | nil => exact .nil
    | append_singleton strings s ih =>
      -- a routine that occurred before first occurs where it did
      have hkept : ∀ routine ∈ routines strings,
          ((strings ++ [s]).map (·.routine)).idxOf routine =
            (strings.map (·.routine)).idxOf routine := by
        intro routine hroutine
        rw [List.map_append, List.idxOf_append_of_mem (mem_routines.1 hroutine)]
      have hpairs := ih.imp_of_mem fun ha hb hlt => by rwa [← hkept _ ha, ← hkept _ hb] at hlt
      rw [routines_concat]
      split
      · rwa [List.append_nil]
      · next hnew =>
        refine List.pairwise_append.2 ⟨hpairs, List.pairwise_singleton _ _, ?_⟩
        intro routine hroutine last hlast
        rw [List.mem_singleton.1 hlast, hkept routine hroutine, List.map_append,
          List.idxOf_append_of_notMem fun h => hnew (mem_routines.2 h)]
        exact Nat.lt_add_right _ (List.idxOf_lt_length_of_mem (mem_routines.1 hroutine))

theorem ofRoutine_concat (routine : UInt64) (strings : List DecodedString) (s : DecodedString) :
    ofRoutine routine (strings ++ [s]) =
      if s.routine = routine then ofRoutine routine strings ++ [s]
      else ofRoutine routine strings := by
  rw [ofRoutine, List.filter_append, ← ofRoutine]
  split
  · next h => simp [h]
  · next h => simp [h]

/-- The strings of different routines, put together, are all strings if these are all
routines. -/
theorem perm_flatMap_of_forall_mem {keys : List UInt64} (hkeys : keys.Nodup)
    {strings : List DecodedString} (h : ∀ s ∈ strings, s.routine ∈ keys) :
    (keys.flatMap fun routine => ofRoutine routine strings).Perm strings := by
  induction keys generalizing strings with
  | nil =>
    cases strings with
    | nil => exact .refl _
    | cons s strings => exact absurd (h s List.mem_cons_self) List.not_mem_nil
  | cons key keys ih =>
    obtain ⟨hkey, hkeys⟩ := List.nodup_cons.1 hkeys
    have hothers : ∀ s ∈ strings.filter fun s => !decide (s.routine = key), s.routine ∈ keys := by
      intro s hs
      simp only [List.mem_filter, Bool.not_eq_true', decide_eq_false_iff_not] at hs
      exact (List.mem_cons.1 (h s hs.1)).resolve_left hs.2
    have hsame : ∀ routine ∈ keys, ofRoutine routine strings =
        ofRoutine routine (strings.filter fun s => !decide (s.routine = key)) := by
      intro routine hroutine
      rw [ofRoutine, ofRoutine, List.filter_filter]
      refine List.filter_congr fun s _ => ?_
      by_cases hs : s.routine = routine
      · have hne : routine ≠ key := by
          rintro rfl
          exact hkey hroutine
        simp [hs, hne]
      · simp [hs]
    rw [List.flatMap_cons, List.flatMap_congr hsame]
    exact ((ih hkeys hothers).append_left _).trans (List.filter_append_perm _ strings)

/-- Grouping loses no string and adds none. -/
theorem perm_flatMap_ofRoutine (strings : List DecodedString) :
    ((routines strings).flatMap fun routine => ofRoutine routine strings).Perm strings :=
  perm_flatMap_of_forall_mem (nodup_routines strings) fun _ hs =>
    mem_routines.2 (List.mem_map_of_mem hs)

end DecodedString
end StringReport
