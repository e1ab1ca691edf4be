import StringReport.Proofs.PlainSections
import StringReport.Proofs.ReadableTables

/-!
# Tables of frame strings

A verbose report tells of each frame string the function, the place in it, the place on the frame
and the string as it is shown. The table holds no less: they are read back from it, in the order
of the strings, whether or not the names of the columns are shown, and whatever bars and spaces the
strings hold. So strings of which a report tells different things never share a table.
-/
namespace StringReport

/-! ## Reading -/

/-- What a table tells of a frame string. -/
structure FrameEntry where
  function : UInt64
  programCounter : UInt64
  frameOffset : UInt64
  shown : String
  deriving DecidableEq, Repr

/-- What is to be told of a frame string. -/
def FrameString.entry (s : FrameString) : FrameEntry :=
  ⟨s.function, s.programCounter, s.frameOffset, s.shown⟩

/-- The cells of a line that tells an entry. -/
def FrameEntry.row (entry : FrameEntry) : List String × String :=
  ([Hex.upper entry.function, Hex.upper entry.programCounter, Hex.upper entry.frameOffset],
    entry.shown)

namespace FrameEntry

/-- The entry that the cells of a line tell: three addresses and a text. -/
def ofRow? : List String × String → Option FrameEntry
  | ([function, programCounter, frameOffset], shown) =>
    (Hex.address? function).bind fun function =>
      (Hex.address? programCounter).bind fun programCounter =>
        (Hex.address? frameOffset).map fun frameOffset =>
          ⟨function, programCounter, frameOffset, shown⟩
  | _ => none

/-- The entries that a text tells: those of its lines that tell one. -/
def readAll (text : String) : List FrameEntry :=
  (linesOf text).filterMap fun line => (readRow 3 line.toList).bind ofRow?

theorem readAll_empty : readAll "" = [] := by decide

theorem ofRow?_row (entry : FrameEntry) : ofRow? entry.row = some entry := by
  simp only [row, ofRow?, Hex.address?_upper, Option.bind_some, Option.map_some]

end FrameEntry

/-! ## Drawing -/

namespace Report

/-- A text that stands below the heading of the section for some strings. -/
def DrawsFrames (policy : Policy) (label : String) (strings : List FrameString) (table : String) :
    Prop :=
  ∃ blocks, (fillFrames policy .terminal label strings).outcome = .ok blocks ∧
    (canvas policy).draw blocks.value = headingText policy label strings.length ++ table

/-- The lines of the table for some strings; without strings there are none. -/
def frameLines (policy : Policy) (strings : List FrameString) : List String :=
  if strings.isEmpty then []
  else (canvas policy).gridLines
    (frameGrid policy (strings.map fun s => (frameRow .terminal s).value))

variable {policy : Policy} {label : String} {strings : List FrameString}

theorem drawsFrames_iff (hverbose : policy.isVerbose = true) {table : String} :
    DrawsFrames policy label strings table ↔ table = endedLines (frameLines policy strings) := by
  have hdrawn : (canvas policy).draw (frameBlocks policy .terminal label strings).value =
      headingText policy label strings.length ++ endedLines (frameLines policy strings) := by
    simp only [frameBlocks, hverbose, if_true, Traced.value_bind, Traced.value_each,
      Traced.value_pure]
    rw [draw_heading_cons, frameLines]
    cases strings with
    | nil => rfl
    | cons s strings => exact congrArg _ (congrArg endedLines (List.flatMap_singleton _ _))
  rw [DrawsFrames, fillFrames_eq_sure, Filling.outcome_sure]
  constructor
  · rintro ⟨blocks, hblocks, htable⟩
    obtain rfl := Except.ok.inj hblocks
    exact (String.append_right_inj _).1 (htable.symm.trans hdrawn)
  · rintro rfl
    exact ⟨_, rfl, hdrawn⟩

/-- The table has a line for each of its strings. -/
theorem tableOf_frameLines (hcolors : policy.colorsEnabled = false) (hne : strings ≠ []) :
    TableOf policy.headers 3 (["Function", "Function Offset", "Frame Offset"], "String")
      (strings.map fun s => s.entry.row) (frameLines policy strings) := by
  have hnames : ∀ name ∈ ["Function", "Function Offset", "Frame Offset"], IsCell name.toList := by
    decide
  have hcells : ∀ s : FrameString, ∀ text ∈ s.entry.row.1, IsCell text.toList := by
    intro s
    simp only [FrameEntry.row, List.forall_mem_cons]
    exact ⟨isCell_upper _, isCell_upper _, isCell_upper _, nofun⟩
  rw [frameLines, if_neg (by simpa using hne)]
  exact Canvas.tableOf_records hcolors (open_frameGrid policy strings) rfl (fun _ => rfl)
    (back_frameRow .terminal) hnames hcells

/-- The table tells the entries of its strings. -/
theorem readAll_of_drawsFrames (hverbose : policy.isVerbose = true)
    (hcolors : policy.colorsEnabled = false) {table : String}
    (h : DrawsFrames policy label strings table) :
    FrameEntry.readAll table = strings.map FrameString.entry := by
  obtain rfl := (drawsFrames_iff hverbose).1 h
  cases hstrings : strings with
  | nil => exact FrameEntry.readAll_empty
  | cons s others =>
    have hne : strings ≠ [] := by simp [hstrings]
    have htable := tableOf_frameLines hcolors hne
    have hread : (frameLines policy strings).filterMap
        (fun line => (readRow 3 line.toList).bind FrameEntry.ofRow?) =
          strings.map FrameString.entry := by
      have hrow : FrameEntry.ofRow? ∘ (fun s : FrameString => s.entry.row) =
          some ∘ FrameString.entry := funext fun s => FrameEntry.ofRow?_row s.entry
      rw [htable.filterMap_readRow (by decide), List.filterMap_map, hrow, List.filterMap_eq_map]
    rw [← hstrings, FrameEntry.readAll, linesOf_endedLines htable.newline_notMem,
      List.filterMap_append, hread]
    exact List.append_nil _

/-- The table of frame strings is read back: function, place in it, place on the frame and the
string as it is shown, of each string in their order. Where there are no strings there is no
table, and strings that have a table in common, whatever the labels and with or without the names
of the columns, agree in all that is told of them. -/
theorem exists_table_readAll (hverbose : policy.isVerbose = true)
    (hcolors : policy.colorsEnabled = false) (label : String) (strings : List FrameString) :
    ∃ table, DrawsFrames policy label strings table ∧
      FrameEntry.readAll table = strings.map FrameString.entry ∧ (table = "" ↔ strings = []) ∧
      ∀ (policy' : Policy) (label' : String) (strings' : List FrameString),
        policy'.isVerbose = true → policy'.colorsEnabled = false →
        DrawsFrames policy' label' strings' table →
        strings'.map FrameString.entry = strings.map FrameString.entry := by
  have hdraws : DrawsFrames policy label strings (endedLines (frameLines policy strings)) :=
    (drawsFrames_iff hverbose).2 rfl
  have hread := readAll_of_drawsFrames hverbose hcolors hdraws
  refine ⟨_, hdraws, hread, ⟨fun hempty => ?_, fun hnone => ?_⟩, ?_⟩
  · rw [hempty, FrameEntry.readAll_empty] at hread
    exact List.map_eq_nil_iff.1 hread.symm
  · rw [hnone]
    rfl
  · intro policy' label' strings' hverbose' hcolors' hdraws'
    exact (readAll_of_drawsFrames hverbose' hcolors' hdraws').symm.trans hread

/-- Two strings, one with bars and spaces in and around the given text, and one empty. -/
def barredSample (text : String) (stackPointer : UInt64) : List FrameString :=
  [⟨0xab, " a | b" ++ text ++ " ", 0x40100f, stackPointer, 0, 0, 0⟩,
    ⟨0xffffffff, "", 0, stackPointer, 0, 0, 0x1c⟩]

/-- Strings that differ in what is not told of them: a line feed is shown as its escape is. -/
theorem exists_table_readAll_barredSample :
    let policy : Policy := ⟨.verbose, true, .never, false⟩
    let lines := [
      " Function   | Function Offset | Frame Offset | String",
      "------------+-----------------+--------------+-----------",
      " 0xAB       | 0x40100F        | 0x0          |  a | b\\n ",
      " 0xFFFFFFFF | 0x0             | 0x1C         | "]
    policy.isVerbose = true ∧ policy.colorsEnabled = false ∧
    DrawsFrames policy "STACK" (barredSample "\n" 0) (endedLines lines) ∧
    FrameEntry.readAll (endedLines lines) =
      [⟨0xab, 0x40100f, 0, " a | b\\n "⟩, ⟨0xffffffff, 0, 0x1c, ""⟩] ∧
    DrawsFrames policy "TIGHT" (barredSample "\\n" 0x10) (endedLines lines) ∧
    (barredSample "\\n" 0x10).map FrameString.entry =
      (barredSample "\n" 0).map FrameString.entry := by
  intro policy lines
  have hverbose : policy.isVerbose = true := rfl
  have hcolors : policy.colorsEnabled = false := rfl
  obtain ⟨table, hdraws, hread, -, hsame⟩ :=
    exists_table_readAll hverbose hcolors "STACK" (barredSample "\n" 0)
  have hlines : frameLines policy (barredSample "\n" 0) = lines := by decide +kernel
  obtain rfl : table = endedLines lines := hlines ▸ (drawsFrames_iff hverbose).1 hdraws
  have hrows : ((barredSample "\\n" 0x10).map fun s => (frameRow .terminal s).value) =
      (barredSample "\n" 0).map fun s => (frameRow .terminal s).value := by decide
  have hlines' : frameLines policy (barredSample "\\n" 0x10) = lines :=
    (congrArg (fun rows => (canvas policy).gridLines (frameGrid policy rows)) hrows).trans hlines
  have hdraws' : DrawsFrames policy "TIGHT" (barredSample "\\n" 0x10) (endedLines lines) :=
    (drawsFrames_iff hverbose).2 (congrArg endedLines hlines'.symm)
  have hentries : (barredSample "\n" 0).map FrameString.entry =
      [⟨0xab, 0x40100f, 0, " a | b\\n "⟩, ⟨0xffffffff, 0, 0x1c, ""⟩] := by decide
  exact ⟨hverbose, hcolors, hdraws, hread.trans hentries, hdraws',
    hsame policy "TIGHT" _ hverbose hcolors hdraws'⟩

end Report
end StringReport
