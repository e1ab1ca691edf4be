import StringReport.Proofs.PlainSections
import StringReport.Proofs.ReadableTables

/-!
# Decoded strings under their routines

A verbose report has a table for each routine that decodes strings, in the order in which the
routines first occur, below a label that tells the address of the routine and how many strings
are its. A line of a table tells where a string was found, where it was decoded, and the string as
it is shown. No string is left out or told twice, and each one stands below its own routine.
-/
namespace StringReport

/-! ## Lines -/

namespace DecodedString

/-- The text for the place of a string: the name of a region, or else an address, which is zero
where none is known. -/
inductive Located (s : DecodedString) : String → Prop
  | stack (h : s.region = .stack) : Located s "[stack]"
  | heap (h : s.region = .heap) : Located s "[heap]"
  | address {place : String} (h : s.region = .global)
      (haddress : Hex.IsAddress (s.address.getD 0) place) : Located s place

theorem located_location (s : DecodedString) : s.Located s.location := by
  cases hregion : s.region with
  | stack =>
    simp only [location, hregion]
    exact .stack hregion
  | heap =>
    simp only [location, hregion]
    exact .heap hregion
  | global =>
    simp only [location, hregion]
    exact .address hregion (Hex.isAddress_address _)

theorem isCell_location (s : DecodedString) : IsCell s.location.toList := by
  cases hregion : s.region with
  | stack =>
    simp only [location, hregion]
    decide
  | heap =>
    simp only [location, hregion]
    decide
  | global =>
    simp only [location, hregion]
    exact isCell_address _

/-- The cells of a line that tells a string. -/
structure Told (s : DecodedString) (row : List String × String) : Prop where
  cells : ∃ place calledAt, row.1 = [place, calledAt] ∧ s.Located place ∧
    Hex.IsAddress s.decodedAt calledAt
  shown : row.2 = s.shown

/-- The cells of the line for a string. -/
def row (s : DecodedString) : List String × String :=
  ([s.location, Hex.address s.decodedAt], s.shown)

theorem told_row (s : DecodedString) : s.Told s.row where
  cells := ⟨_, _, rfl, located_location s, Hex.isAddress_address _⟩
  shown := rfl

end DecodedString

/-! ## Tables -/

namespace Report

variable (policy : Policy)

/-- The lines of a routine and its strings: a label with its address and their number, a table
that has a line for each of them in their order, and an empty line. -/
def RoutineTable (routine : UInt64) (members : List DecodedString) (lines : List String) : Prop :=
  ∃ (address : String) (table : List String) (rows : List (List String × String)),
    Hex.IsAddress routine address ∧
    lines = labelLines policy (" FUNCTION at " ++ address) members.length ++ table ++ [""] ∧
    TableOf policy.headers 2 (["Offset", "Called At"], "String") rows table ∧
    List.Forall₂ DecodedString.Told members rows

/-- The lines that a routine and its strings leave. -/
def routineLines (routine : UInt64) (members : List DecodedString) : List String :=
  (routineBlocks policy .terminal (routine, members)).value.flatMap (canvas policy).blockLines

variable {policy}

theorem blockLines_routineLabel (hcolors : policy.colorsEnabled = false) (routine : UInt64)
    (count : Nat) :
    (canvas policy).blockLines (.subHeading
        ((StyledText.plain " FUNCTION at ").push (Hex.address routine) .accent) count) =
      labelLines policy (" FUNCTION at " ++ Hex.address routine) count := by
  have hlabel : ((StyledText.plain " FUNCTION at ").push (Hex.address routine) .accent).toPlain =
      " FUNCTION at " ++ Hex.address routine := by
    rw [StyledText.toPlain_push, StyledText.toPlain_plain]
  have hprintable : Printable (" FUNCTION at " ++ Hex.address routine).toList := by
    rw [String.toList_append]
    exact printable_append.2 ⟨by decide, printable_address routine⟩
  rw [← hlabel] at hprintable ⊢
  exact blockLines_label hcolors hprintable count

/-- The table of a routine has a line for each of its strings. -/
theorem tableOf_decodedGrid (hcolors : policy.colorsEnabled = false)
    (members : List DecodedString) :
    TableOf policy.headers 2 (["Offset", "Called At"], "String") (members.map DecodedString.row)
      ((canvas policy).gridLines
        (decodedGrid policy (members.map fun s => (decodedRow .terminal s).value))) := by
  have hnames : ∀ name ∈ ["Offset", "Called At"], IsCell name.toList := by decide
  have hcells : ∀ s : DecodedString, ∀ text ∈ s.row.1, IsCell text.toList := by
    intro s
    simp only [DecodedString.row, List.forall_mem_cons]
    exact ⟨s.isCell_location, isCell_address _, nofun⟩
  exact Canvas.tableOf_records hcolors (open_decodedGrid policy members) rfl (fun _ => rfl)
    (back_decodedRow .terminal) hnames hcells

theorem routineTable_routineLines (hcolors : policy.colorsEnabled = false) (routine : UInt64)
    (members : List DecodedString) :
    RoutineTable policy routine members (routineLines policy routine members) := by
  refine ⟨Hex.address routine, _, _, Hex.isAddress_address routine, ?_,
    tableOf_decodedGrid hcolors members, ?_⟩
  · rw [← blockLines_routineLabel hcolors, List.append_assoc]
    rfl
  · rw [List.forall₂_map_right_iff, List.forall₂_same]
    exact fun s _ => s.told_row

theorem draw_decodedBlocks (hverbose : policy.isVerbose = true) (strings : List DecodedString) :
    (canvas policy).draw (decodedBlocks policy .terminal strings).value =
      headingText policy "DECODED" strings.length ++
        endedLines ((DecodedString.routines strings).map fun routine =>
          routineLines policy routine (DecodedString.ofRoutine routine strings)).flatten := by
  simp only [decodedBlocks, hverbose, if_true, Traced.value_bind, Traced.value_each,
    Traced.value_pure]
  rw [draw_heading_cons, DecodedString.groupByRoutine_eq, List.map_map, ← List.flatMap_def,
    List.flatMap_assoc, List.flatMap_def]
  rfl

/-- The section for decoded strings is never refused. Below its heading stand the routines, each
once and in the order in which they first occur, with their strings as they came. These are all
strings, and no string is told twice. -/
theorem exists_routineTables_fillDecoded (hverbose : policy.isVerbose = true)
    (hcolors : policy.colorsEnabled = false) (strings : List DecodedString) :
    ∃ blocks parts, (fillDecoded policy .terminal strings).outcome = .ok blocks ∧
      (canvas policy).draw blocks.value =
        headingText policy "DECODED" strings.length ++ endedLines parts.flatten ∧
      List.Forall₂ (fun routine lines =>
          RoutineTable policy routine (DecodedString.ofRoutine routine strings) lines)
        (DecodedString.routines strings) parts ∧
      (DecodedString.routines strings).Nodup ∧
      ((DecodedString.routines strings).flatMap fun routine =>
        DecodedString.ofRoutine routine strings).Perm strings := by
  refine ⟨_, _, ?_, draw_decodedBlocks hverbose strings, ?_, DecodedString.nodup_routines strings,
    DecodedString.perm_flatMap_ofRoutine strings⟩
  · rw [fillDecoded_eq_sure, Filling.outcome_sure]
  · rw [List.forall₂_map_right_iff, List.forall₂_same]
    exact fun routine _ => routineTable_routineLines hcolors routine _

/-- Strings of two routines in turn: one with bars and spaces, one of a region, and one whose
address is not known. -/
def interleavedSample : List DecodedString :=
  [{ address := none, region := .global, string := " a | b  ", decodedAt := 0x1f,
      routine := 0x402000 },
    { address := none, region := .stack, string := "\x1b", decodedAt := 0, routine := 0x401000 },
    { address := some 0xffffffffffffffff, region := .global, string := "", decodedAt := 0x2f,
      routine := 0x402000 }]

theorem exists_routineTables_fillDecoded_interleavedSample :
    let policy : Policy := ⟨.verbose, true, .never, false⟩
    policy.isVerbose = true ∧ policy.colorsEnabled = false ∧
    ∃ blocks first second, (fillDecoded policy .terminal interleavedSample).outcome = .ok blocks ∧
      (canvas policy).draw blocks.value =
        headingText policy "DECODED" 3 ++ endedLines (first ++ second) ∧
      RoutineTable policy 0x402000 [interleavedSample[0], interleavedSample[2]] first ∧
      RoutineTable policy 0x401000 [interleavedSample[1]] second := by
  intro policy
  have hverbose : policy.isVerbose = true := rfl
  have hcolors : policy.colorsEnabled = false := rfl
  obtain ⟨blocks, parts, hblocks, hdrawn, hparts, -, -⟩ :=
    exists_routineTables_fillDecoded hverbose hcolors interleavedSample
  have hroutines : DecodedString.routines interleavedSample = [0x402000, 0x401000] := by decide
  rw [hroutines] at hparts
  cases hparts with
  | cons hfirst hparts =>
    cases hparts with
    | cons hsecond hparts =>
      cases hparts with
      | nil =>
        rw [List.flatten_cons, List.flatten_singleton] at hdrawn
        exact ⟨hverbose, hcolors, blocks, _, _, hblocks, hdrawn, hfirst, hsecond⟩

end Report
end StringReport
