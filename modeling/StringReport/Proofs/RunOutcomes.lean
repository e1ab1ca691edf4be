import StringReport.CommandLine.Run
import StringReport.Proofs.AcceptedDocuments
import StringReport.Proofs.DocumentText
import StringReport.Proofs.FilledTables

/-!
# What a run leaves behind

A run is all or nothing, whatever the files are that it reads and writes. What can be wrong is
looked at in a fixed order: the color preference, the reading of the input, its text, and last the
writing of the output. The first thing that is wrong is what the run fails with, and if that is not
the writing itself, nothing has been written anywhere. If nothing is wrong, the whole payload has
been written once, or else stands on the standard output.

In a directory the writing is all or nothing too: the payload goes to one sink and nothing to any
other.
-/
namespace StringReport.CommandLine

/-! ## Writing in a directory -/

namespace Directory

/-- Writing a file leaves all others as they are. -/
theorem get?_put_of_ne (directory : Directory) {file other : FileName} (h : other ≠ file)
    (content : ByteArray) : (directory.put file content).get? other = directory.get? other := by
  have hhead : ((file, content).1 = other) = False := by simpa using Ne.symm h
  simp only [put, get?, List.find?_cons, hhead, decide_false, List.find?_filter]
  -- dropping the entry of the file loses none of the other names
  congr 2
  funext entry
  by_cases hentry : entry.1 = other
  · simp [hentry, h]
  · simp [hentry]

end Directory

/-- Where a payload goes. -/
inductive Sink where
  | stdout
  | file (file : FileName)
  /-- A device that keeps nothing for the run to find. -/
  | nowhere
  /-- A device without room. -/
  | full
  deriving DecidableEq

namespace Sink

/-- What stands behind a name. -/
def ofFile (file : FileName) : Sink :=
  match file.device? with
  | none => .file file
  | some .stdout => stdout
  | some .full => full
  | some _ => nowhere

/-- Whether there is room for a payload. -/
def Takes (sink : Sink) (payload : String) : Prop := sink = full → payload = ""

/-- What writing a payload to a sink comes to. -/
def receive (directory : Directory) (payload : String) : Sink → Written Directory
  | .stdout => .done payload directory
  | .file name => .done "" (directory.put name payload.toUTF8)
  | .nowhere => .done "" directory
  | .full => if payload = "" then .done "" directory else .failed .noSpace directory

theorem writeTo_eq_receive (directory : Directory) (file : FileName) (payload : String) :
    directory.writeTo file payload = (ofFile file).receive directory payload := by
  cases hdevice : file.device? with
  | none => simp only [Directory.writeTo, ofFile, hdevice, receive]
  | some device => cases device <;> simp only [Directory.writeTo, ofFile, hdevice, receive]

/-- A payload has gone to a sink: the whole of it is there, and everything else is as it was. -/
def Holds (sink : Sink) (payload : String) (directory : Directory) (written : Written Directory) :
    Prop :=
  ∃ stdout after, written = .done stdout after ∧
    stdout = (if sink = .stdout then payload else "") ∧
    ∀ file, after.get? file =
      if sink = .file file then some payload.toUTF8 else directory.get? file

theorem holds_receive {sink : Sink} {payload : String} (htakes : sink.Takes payload)
    (directory : Directory) : sink.Holds payload directory (sink.receive directory payload) := by
  cases sink with
  | stdout => exact ⟨_, _, rfl, rfl, fun _ => rfl⟩
  | nowhere => exact ⟨_, _, rfl, rfl, fun _ => rfl⟩
  | file file =>
    refine ⟨_, _, rfl, rfl, fun other => ?_⟩
    by_cases hother : file = other
    · simp [hother]
    · simp [hother, directory.get?_put_of_ne (Ne.symm hother)]
  | full =>
    rw [receive, if_pos (htakes rfl)]
    exact ⟨_, _, rfl, rfl, fun _ => rfl⟩

/-- A sink without room takes no part of a payload. -/
theorem receive_of_not_takes {sink : Sink} {payload : String} (h : ¬sink.Takes payload)
    (directory : Directory) : sink.receive directory payload = .failed .noSpace directory := by
  obtain ⟨rfl, hpayload⟩ : sink = .full ∧ payload ≠ "" := by
    simpa [Takes] using h
  exact if_neg hpayload

end Sink

/-- Writing to a path is all or nothing: where it leads to a name, the payload goes to the sink
of that name if there is room, and else nothing is changed. -/
structure Directory.WritesWhole (directory : Directory) (path payload : String) : Prop where
  unwritable {fault} : directory.writable path = .error fault →
    FileSystem.write directory path payload = .failed fault directory
  sent {file} : directory.writable path = .ok file → (Sink.ofFile file).Takes payload →
    (Sink.ofFile file).Holds payload directory (FileSystem.write directory path payload)
  full {file} : directory.writable path = .ok file → ¬(Sink.ofFile file).Takes payload →
    FileSystem.write directory path payload = .failed .noSpace directory

theorem Directory.writesWhole (directory : Directory) (path payload : String) :
    directory.WritesWhole path payload := by
  have hreceive {file : FileName} (hpath : directory.writable path = .ok file) :
      FileSystem.write directory path payload =
        (Sink.ofFile file).receive directory payload := by
    rw [← Sink.writeTo_eq_receive]
    simp only [FileSystem.write, write, hpath]
  refine ⟨fun hpath => ?_, fun hpath htakes => ?_, fun hpath hfull => ?_⟩
  · simp only [FileSystem.write, write, hpath]
  · rw [hreceive hpath]
    exact Sink.holds_receive htakes directory
  · rw [hreceive hpath]
    exact Sink.receive_of_not_takes hfull directory

/-! ## Files that hold a document -/

section Runs

variable {σ : Type} [FileSystem σ]

/-- A file with the text of a document: it can be read, it is UTF-8, and its text is accepted. -/
def Holds (directory : σ) (path : String) (doc : Document) : Prop :=
  ∃ bytes text, FileSystem.read directory path = .ok bytes ∧ String.fromUTF8? bytes = some text ∧
    Document.ofText text = .ok doc

theorem fromUTF8?_toUTF8 (text : String) : String.fromUTF8? text.toUTF8 = some text := by
  rw [String.fromUTF8?, String.toUTF8_eq_toByteArray, dif_pos text.isValidUTF8]
  rfl

/-- Every text that is accepted can stand in a file. -/
theorem holds_of_read {directory : σ} {path text : String} {doc : Document}
    (hread : FileSystem.read directory path = .ok text.toUTF8)
    (hdoc : Document.ofText text = .ok doc) : Holds directory path doc :=
  ⟨text.toUTF8, text, hread, fromUTF8?_toUTF8 text, hdoc⟩

theorem load_of_holds {directory : σ} {path : String} {doc : Document}
    (h : Holds directory path doc) :
    Document.load path (FileSystem.read directory path) = .ok doc := by
  obtain ⟨bytes, text, hread, htext, hdoc⟩ := h
  simp only [Document.load, hread, htext, hdoc]

/-- A payload has gone to one place as a whole: to the standard output, or where a path leads. -/
def Outcome.Sent (outcome : Outcome σ) (out : Option String) (payload : String) (directory : σ) :
    Prop :=
  match out with
  | none => outcome.stdout = payload ∧ outcome.directory = directory
  | some path =>
    FileSystem.write directory path payload = .done outcome.stdout outcome.directory

/-- What a run comes to that has sent its payload. -/
structure Outcome.Delivered (outcome : Outcome σ) (out : Option String) (payload : String)
    (directory : σ) : Prop where
  code : outcome.code = 0
  error : outcome.error = none
  sent : outcome.Sent out payload directory

/-! ## What is right and what is wrong -/

namespace Invocation

/-- The color preference is one of those that are known. -/
def ColorKnown (invocation : Invocation) : Prop :=
  invocation.color = "always" ∨ invocation.color = "auto" ∨ invocation.color = "never"

theorem ColorKnown.exists_mode {invocation : Invocation} (h : invocation.ColorKnown) :
    ∃ mode, ColorMode.ofPreference? invocation.options.color = some mode := by
  rcases h with h | h | h
  · exact ⟨.always, by simp [options, ColorMode.ofPreference?, h]⟩
  · exact ⟨.auto, by simp [options, ColorMode.ofPreference?, h]⟩
  · exact ⟨.never, by simp [options, ColorMode.ofPreference?, h]⟩

theorem policy_of_not_colorKnown {invocation : Invocation} (h : ¬invocation.ColorKnown)
    (terminal : Bool) :
    invocation.policy terminal = .error (.options (.invalidColor invocation.color)) := by
  simp only [ColorKnown, not_or] at h
  simp [policy, Policy.ofOptions, options, ColorMode.ofPreference?, h, Except.mapError]

/-- What an invocation is to write for a document: the document and a line feed, or else the
report on it. -/
def Writes (invocation : Invocation) (terminal : Bool) (doc : Document) (payload : String) :
    Prop :=
  match invocation.format with
  | .json => payload = doc.text ++ "\n"
  | .text =>
    (Report.render invocation.options terminal .terminal doc).map Traced.value = .ok payload

/-- There is something to write for every document. -/
theorem exists_writes {invocation : Invocation} (hcolor : invocation.ColorKnown)
    (terminal : Bool) (doc : Document) : ∃ payload, invocation.Writes terminal doc payload := by
  obtain ⟨mode, hmode⟩ := hcolor.exists_mode
  simp only [Writes, Report.render_of_color hmode]
  cases invocation.format with
  | json => exact ⟨_, rfl⟩
  | text => exact ⟨_, rfl⟩

/-- What makes an invocation fail, in the order in which it is looked at: each fault is one
only if there is none before it. -/
inductive Fails (invocation : Invocation) (terminal : Bool) (directory : σ) : RunFault → Prop
  | color (hcolor : ¬invocation.ColorKnown) :
      Fails invocation terminal directory (.options (.invalidColor invocation.color))
  | unreadable {fault : FileFault} (hcolor : invocation.ColorKnown)
      (hread : FileSystem.read directory invocation.path = .error fault) :
      Fails invocation terminal directory (.load (.unreadable invocation.path fault))
  | notText {bytes : ByteArray} (hcolor : invocation.ColorKnown)
      (hread : FileSystem.read directory invocation.path = .ok bytes)
      (htext : String.fromUTF8? bytes = none) :
      Fails invocation terminal directory (.load (.notText invocation.path))
  | invalid {bytes : ByteArray} {text : String} {fault : Json.Fault}
      (hcolor : invocation.ColorKnown)
      (hread : FileSystem.read directory invocation.path = .ok bytes)
      (htext : String.fromUTF8? bytes = some text) (hfault : Document.ofText text = .error fault) :
      Fails invocation terminal directory (.load (.invalid invocation.path fault))
  | unwritten {doc : Document} {payload path : String} {fault : FileFault} {after : σ}
      (hcolor : invocation.ColorKnown) (hdoc : Holds directory invocation.path doc)
      (hwrites : invocation.Writes terminal doc payload) (hout : invocation.out = some path)
      (hwrite : FileSystem.write directory path payload = .failed fault after) :
      Fails invocation terminal directory (.output fault)

/-- Nothing is wrong with an invocation: it writes a payload for a document. -/
structure Succeeds (invocation : Invocation) (terminal : Bool) (directory : σ) (doc : Document)
    (payload : String) : Prop where
  color : invocation.ColorKnown
  holds : Holds directory invocation.path doc
  writes : invocation.Writes terminal doc payload
  output : ∀ path, invocation.out = some path →
    ∃ stdout after, FileSystem.write directory path payload = .done stdout after

/-- There is something wrong with an invocation, or nothing. -/
theorem fails_or_succeeds (invocation : Invocation) (terminal : Bool) (directory : σ) :
    (∃ fault, invocation.Fails terminal directory fault) ∨
      ∃ doc payload, invocation.Succeeds terminal directory doc payload := by
  -- the cases follow the run, which stops at the first fault
  by_cases hcolor : invocation.ColorKnown
  case neg => exact .inl ⟨_, .color hcolor⟩
  cases hread : FileSystem.read directory invocation.path with
  | error fault => exact .inl ⟨_, .unreadable hcolor hread⟩
  | ok bytes =>
    cases htext : String.fromUTF8? bytes with
    | none => exact .inl ⟨_, .notText hcolor hread htext⟩
    | some text =>
      cases hdoc : Document.ofText text with
      | error fault => exact .inl ⟨_, .invalid hcolor hread htext hdoc⟩
      | ok doc =>
        have hholds : Holds directory invocation.path doc := ⟨bytes, text, hread, htext, hdoc⟩
        obtain ⟨payload, hwrites⟩ := exists_writes hcolor terminal doc
        cases hout : invocation.out with
        | none =>
          exact .inr ⟨doc, payload, hcolor, hholds, hwrites, by simp [hout]⟩
        | some path =>
          cases hwrite : FileSystem.write directory path payload with
          | failed fault after => exact .inl ⟨_, .unwritten hcolor hholds hwrites hout hwrite⟩
          | done stdout after =>
            refine .inr ⟨doc, payload, hcolor, hholds, hwrites, fun other hother => ?_⟩
            obtain rfl := Option.some.inj (hout.symm.trans hother)
            exact ⟨stdout, after, hwrite⟩

/-! ## Runs -/

/-- With a known color preference, there is no payload only if there is no document. -/
theorem payload_of_load_error {invocation : Invocation} (hcolor : invocation.ColorKnown)
    (terminal : Bool) {contents : Except FileFault ByteArray} {fault : LoadFault}
    (hload : Document.load invocation.path contents = .error fault) :
    invocation.payload terminal contents = .error (.load fault) := by
  obtain ⟨mode, hmode⟩ := hcolor.exists_mode
  simp [payload, policy, Policy.ofOptions_of_color hmode, hload, Except.mapError, bind,
    Except.bind]

/-- The payload for a document that was loaded is what there is to write for it. -/
theorem payload_of_writes {invocation : Invocation} (hcolor : invocation.ColorKnown)
    {terminal : Bool} {contents : Except FileFault ByteArray} {doc : Document}
    (hload : Document.load invocation.path contents = .ok doc) {payload : String}
    (hwrites : invocation.Writes terminal doc payload) :
    invocation.payload terminal contents = .ok payload := by
  obtain ⟨mode, hmode⟩ := hcolor.exists_mode
  simp only [Writes, Report.render_of_color hmode] at hwrites
  simp only [Invocation.payload, policy, Policy.ofOptions_of_color hmode, hload, Except.mapError,
    Report.assemble_eq_sure, Filling.outcome_sure, bind, Except.bind]
  cases hformat : invocation.format with
  | json =>
    simp only [hformat] at hwrites
    rw [hwrites]
    rfl
  | text =>
    simp only [hformat] at hwrites
    -- the faults of a report and of a run are of different types
    rw [← Except.ok.inj hwrites]
    rfl

/-- A run that has nothing wrong delivers its payload. -/
theorem Succeeds.delivered {invocation : Invocation} {terminal : Bool} {directory : σ}
    {doc : Document} {payload : String}
    (h : invocation.Succeeds terminal directory doc payload) :
    (invocation.run terminal directory).Delivered invocation.out payload directory := by
  have hpayload := payload_of_writes h.color (load_of_holds h.holds) h.writes
  have hrun : invocation.run terminal directory = deliver directory invocation.out payload := by
    rw [run, hpayload]
  rw [hrun]
  cases hout : invocation.out with
  | none => exact ⟨rfl, rfl, rfl, rfl⟩
  | some path =>
    obtain ⟨stdout, after, hwrite⟩ := h.output path hout
    rw [deliver, hwrite]
    exact ⟨rfl, rfl, hwrite⟩

/-- What a run that fails leaves of the files: they are as they were, unless it was the writing
that failed. -/
def Leaves (invocation : Invocation) (terminal : Bool) (directory after : σ) (fault : RunFault) :
    Prop :=
  match fault with
  | .output fault => ∃ doc payload path, Holds directory invocation.path doc ∧
      invocation.Writes terminal doc payload ∧ invocation.out = some path ∧
      FileSystem.write directory path payload = .failed fault after
  | _ => after = directory

/-- A run that has something wrong tells what it is, and shows nothing. -/
theorem Fails.exists_run_eq {invocation : Invocation} {terminal : Bool} {directory : σ}
    {fault : RunFault} (h : invocation.Fails terminal directory fault) :
    ∃ after, invocation.run terminal directory = ⟨1, "", some fault, after⟩ ∧
      invocation.Leaves terminal directory after fault := by
  cases h with
  | color hcolor =>
    refine ⟨directory, ?_, rfl⟩
    simp only [run, payload, policy_of_not_colorKnown hcolor, bind, Except.bind]
  | unreadable hcolor hread =>
    refine ⟨directory, ?_, rfl⟩
    rw [run, payload_of_load_error hcolor terminal (by rw [hread]; rfl)]
  | notText hcolor hread htext =>
    refine ⟨directory, ?_, rfl⟩
    rw [run, payload_of_load_error hcolor terminal
      (by simp only [Document.load, hread, htext]; rfl)]
  | invalid hcolor hread htext hfault =>
    refine ⟨directory, ?_, rfl⟩
    rw [run, payload_of_load_error hcolor terminal
      (by simp only [Document.load, hread, htext, hfault]; rfl)]
  | @unwritten doc payload path _ after hcolor hdoc hwrites hout hwrite =>
    refine ⟨after, ?_, doc, payload, path, hdoc, hwrites, hout, hwrite⟩
    simp only [run, payload_of_writes hcolor (load_of_holds hdoc) hwrites, deliver, hout, hwrite]

/-- Two invocations that write the same document, as it is, to the same place. They may differ
in what only a report follows. -/
structure SameDocument (invocation other : Invocation) : Prop where
  path : other.path = invocation.path
  out : other.out = invocation.out
  format : invocation.format = .json
  otherFormat : other.format = .json
  color : invocation.ColorKnown
  otherColor : other.ColorKnown

theorem SameDocument.run_eq {invocation other : Invocation} (h : invocation.SameDocument other)
    (terminal otherTerminal : Bool) (directory : σ) :
    other.run otherTerminal directory = invocation.run terminal directory := by
  have hpayload : other.payload otherTerminal (FileSystem.read directory other.path) =
      invocation.payload terminal (FileSystem.read directory invocation.path) := by
    have hsame : Document.load other.path (FileSystem.read directory other.path) =
        Document.load invocation.path (FileSystem.read directory invocation.path) := by rw [h.path]
    cases hload : Document.load invocation.path (FileSystem.read directory invocation.path) with
    | error fault =>
      rw [payload_of_load_error h.color terminal hload,
        payload_of_load_error h.otherColor otherTerminal (hsame.trans hload)]
    | ok doc =>
      have hwrites : invocation.Writes terminal doc (doc.text ++ "\n") := by
        simp [Writes, h.format]
      have hotherWrites : other.Writes otherTerminal doc (doc.text ++ "\n") := by
        simp [Writes, h.otherFormat]
      rw [payload_of_writes h.color hload hwrites,
        payload_of_writes h.otherColor (hsame.trans hload) hotherWrites]
  rw [run, run, hpayload, h.out]

end Invocation

/-- What a run comes to is all or nothing. -/
structure Outcome.AllOrNothing (outcome : Outcome σ) (invocation : Invocation) (terminal : Bool)
    (directory : σ) : Prop where
  /-- The run is a success just if nothing is wrong. -/
  success : outcome.code = 0 ↔ ∃ doc payload, invocation.Succeeds terminal directory doc payload
  /-- Then its whole payload has gone to one place, and nothing to any other. -/
  delivered {doc payload} : invocation.Succeeds terminal directory doc payload →
    outcome.Delivered invocation.out payload directory
  /-- With a known color preference, there is something to write for every document that was
  read: it has a report, and its date has a text. -/
  writes {doc} : invocation.ColorKnown → Holds directory invocation.path doc →
    doc.metadata.timings.startDate.Writable ∧ ∃ payload, invocation.Writes terminal doc payload
  /-- What the run fails with is the first thing that is wrong. -/
  error {fault} : outcome.error = some fault ↔ invocation.Fails terminal directory fault
  /-- A run that is no success shows nothing, and has written nothing if it did not fail while
  writing. -/
  nothing : outcome.code ≠ 0 → outcome.code = 1 ∧ outcome.stdout = "" ∧
    ∃ fault, outcome.error = some fault ∧
      invocation.Leaves terminal directory outcome.directory fault

theorem Invocation.allOrNothing_outcome (invocation : Invocation) (terminal : Bool)
    (directory : σ) :
    (invocation.run terminal directory).AllOrNothing invocation terminal directory := by
  have hcases := invocation.fails_or_succeeds terminal directory
  constructor
  case success =>
    constructor
    · intro hcode
      refine hcases.resolve_left ?_
      rintro ⟨fault, hfails⟩
      obtain ⟨after, hrun, -⟩ := hfails.exists_run_eq
      rw [hrun] at hcode
      exact absurd hcode Nat.one_ne_zero
    · rintro ⟨doc, payload, hsucceeds⟩
      exact hsucceeds.delivered.code
  case delivered => exact Succeeds.delivered
  case writes =>
    intro doc hcolor hholds
    obtain ⟨bytes, text, -, -, hdoc⟩ := hholds
    exact ⟨Document.writable_of_ofText hdoc, exists_writes hcolor terminal doc⟩
  case error =>
    intro fault
    constructor
    · intro herror
      rcases hcases with ⟨reason, hfails⟩ | ⟨doc, payload, hsucceeds⟩
      · obtain ⟨after, hrun, -⟩ := hfails.exists_run_eq
        rw [hrun] at herror
        exact Option.some.inj herror ▸ hfails
      · rw [hsucceeds.delivered.error] at herror
        cases herror
    · intro hfails
      obtain ⟨after, hrun, -⟩ := hfails.exists_run_eq
      rw [hrun]
  case nothing =>
    intro hcode
    rcases hcases with ⟨fault, hfails⟩ | ⟨doc, payload, hsucceeds⟩
    · obtain ⟨after, hrun, hleaves⟩ := hfails.exists_run_eq
      rw [hrun]
      exact ⟨rfl, rfl, fault, rfl, hleaves⟩
    · exact absurd hsucceeds.delivered.code hcode

end Runs

/-- Arguments that ask for a run are carried out as a whole or not at all, whatever the files are
that paths lead to, and where a document is to be written as it is, the options for reports make no
difference. In a directory the writing is all or nothing as well. -/
theorem allOrNothing_run {arguments : List String} {invocation : Invocation}
    (hparse : Request.ofArguments arguments = .ok (.run invocation)) (terminal : Bool) :
    (∀ {σ : Type} [FileSystem σ] (directory : σ),
      (run arguments terminal directory).AllOrNothing invocation terminal directory ∧
      ∀ otherArguments other otherTerminal,
        Request.ofArguments otherArguments = .ok (.run other) → invocation.SameDocument other →
        run otherArguments otherTerminal directory = run arguments terminal directory) ∧
    ∀ (directory : Directory) (path payload : String), directory.WritesWhole path payload := by
  refine ⟨?_, Directory.writesWhole⟩
  intro σ _ directory
  simp only [run, hparse]
  refine ⟨invocation.allOrNothing_outcome terminal directory, ?_⟩
  intro otherArguments other otherTerminal hother hsame
  rw [hother]
  exact hsame.run_eq terminal otherTerminal directory

/-- A document with one string. -/
def storedSample : Document where
  findings := { static := [⟨"kernel32.dll", 64, .ascii⟩] }

/-- A directory with that document in a file. -/
def storingSample : Directory :=
  Directory.empty.put ⟨.working, "doc.json"⟩ storedSample.text.toUTF8

theorem holds_storingSample : Holds storingSample "doc.json" storedSample := by
  have hdate : storedSample.metadata.timings.startDate.Writable := Timestamp.writable_epoch
  have hreals : ∀ x ∈ storedSample.reals, x.ReadsBack := by
    have hzero : ∀ x ∈ storedSample.reals, x = .zero := by decide
    intro x hx
    rw [hzero x hx]
    exact Binary64.readsBack_zero
  have hdoc : Document.ofText (storedSample.text ++ "") = .ok storedSample :=
    Document.ofText_text hdate hreals (by simp)
  rw [String.append_empty] at hdoc
  have hread (bytes : ByteArray) :
      (Directory.empty.put ⟨.working, "doc.json"⟩ bytes).read "doc.json" = .ok bytes := rfl
  exact holds_of_read (hread _) hdoc

/-- The document is written as it is, whether for a verbose report or not, to the standard output
or to a file, and is not looked for with a color preference that is unknown. -/
theorem allOrNothing_run_storingSample :
    let arguments := ["doc.json", "--format", "json"]
    let loud := ["doc.json", "--format", "json", "--color", "loud"]
    let stored := ["doc.json", "--format", "json", "--out", "copy.json"]
    Request.ofArguments arguments = .ok (.run { path := "doc.json", format := .json }) ∧
    Request.ofArguments loud =
      .ok (.run { path := "doc.json", format := .json, color := "loud" }) ∧
    (run arguments false storingSample).Delivered none (storedSample.text ++ "\n")
      storingSample ∧
    run (arguments ++ ["-v"]) true storingSample = run arguments false storingSample ∧
    (run loud false Directory.empty).error = some (.options (.invalidColor "loud")) ∧
    (run stored false storingSample).directory.get? ⟨.working, "copy.json"⟩ =
      some (storedSample.text ++ "\n").toUTF8 := by
  have hparse : Request.ofArguments ["doc.json", "--format", "json"] =
      .ok (.run { path := "doc.json", format := .json }) := by decide
  have hloud : Request.ofArguments ["doc.json", "--format", "json", "--color", "loud"] =
      .ok (.run { path := "doc.json", format := .json, color := "loud" }) := by decide
  have hverbose : Request.ofArguments ["doc.json", "--format", "json", "-v"] =
      .ok (.run { path := "doc.json", verbose := true, format := .json }) := by decide
  have hstored : Request.ofArguments ["doc.json", "--format", "json", "--out", "copy.json"] =
      .ok (.run { path := "doc.json", format := .json, out := some "copy.json" }) := by decide
  have hknown : "auto" = "always" ∨ "auto" = "auto" ∨ "auto" = "never" := by decide
  obtain ⟨hall, hsame⟩ := (allOrNothing_run hparse false).1 storingSample
  refine ⟨hparse, hloud, ?_, ?_, ?_, ?_⟩
  · exact hall.delivered ⟨hknown, holds_storingSample, rfl, nofun⟩
  · exact hsame _ _ true hverbose ⟨rfl, rfl, rfl, rfl, hknown, hknown⟩
  · exact ((allOrNothing_run hloud false).1 Directory.empty).1.error.2
      (.color (by simp [Invocation.ColorKnown]))
  · obtain ⟨hall, hwhole⟩ := allOrNothing_run hstored false
    have hname : storingSample.writable "copy.json" = .ok ⟨.working, "copy.json"⟩ := rfl
    obtain ⟨stdout, after, hwrite, -, hfiles⟩ :=
      (hwhole storingSample "copy.json" (storedSample.text ++ "\n")).sent hname nofun
    have hdelivered := (hall storingSample).1.delivered ⟨hknown, holds_storingSample, rfl, by
      rintro _ ⟨⟩
      exact ⟨stdout, after, hwrite⟩⟩
    obtain ⟨-, rfl⟩ := Written.done.inj (hdelivered.sent.symm.trans hwrite)
    exact hfiles ⟨.working, "copy.json"⟩

end StringReport.CommandLine
