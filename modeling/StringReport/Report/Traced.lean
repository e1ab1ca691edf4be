import StringReport.Document.Basic
import StringReport.Report.Policy
import StringReport.Text.Sanitizer

/-!
# Rendering with a trace

While a report is rendered, it is noted which values went through the sanitizer and which
parts were finished. A traced value is the value together with its notes, in order.
-/
namespace StringReport

/-- Something worth telling about the work. -/
inductive Event where
  | policyResolved (color : ColorMode) (verbosity : Verbosity)
  | documentLoaded (staticCount stackCount tightCount decodedCount : Nat)
  | metadataRendered (rows : Nat)
  | staticRendered (ascii utf16 : Nat)
  | languageRendered (language : Language) (count : Nat)
  | frameRendered (label : String) (count : Nat)
  | decodedRendered (count routines : Nat)
  deriving DecidableEq, Repr

namespace Event

def colorName : ColorMode → String
  | .always => "Always"
  | .auto => "Auto"
  | .never => "Never"

def verbosityName : Verbosity → String
  | .brief => "Default"
  | .verbose => "Verbose"

def languageName : Language → String
  | .go => "Go"
  | .rust => "Rust"

/-- A named number of an event. -/
def count (name : String) (n : Nat) : String := " " ++ name ++ "=" ++ toString n

/-- The line of a log that tells an event. -/
def line (event : Event) : String :=
  "DEBUG " ++ match event with
    | policyResolved color verbosity =>
      "resolved render policy color=" ++ colorName color ++ " verbosity=" ++
        verbosityName verbosity
    | documentLoaded statics stack tight decoded =>
      "loaded results document" ++ count "static_strings" statics ++
        count "stack_strings" stack ++ count "tight_strings" tight ++
        count "decoded_strings" decoded
    | metadataRendered rows => "rendered metadata" ++ count "rows" rows
    | staticRendered ascii utf16 =>
      "rendered static strings" ++ count "ascii" ascii ++ count "utf16" utf16
    | languageRendered language n =>
      "rendered language strings language=" ++ languageName language ++ count "count" n
    | frameRendered label n =>
      "rendered stack strings label=" ++ quoted label ++ count "count" n
    | decodedRendered n routines =>
      "rendered decoded strings" ++ count "count" n ++ count "routines" routines

/-- The loading of a document. -/
def loaded (doc : Document) : Event :=
  .documentLoaded doc.findings.static.length doc.findings.stack.length
    doc.findings.tight.length doc.findings.decoded.length

end Event

/-- A value given to the sanitizer, or an event. -/
inductive Note where
  | sanitized (value : String) (asciiOnly : Bool)
  | event (event : Event)
  deriving DecidableEq, Repr

/-- The value given to the sanitizer, and its flag. -/
def Note.call? : Note → Option (String × Bool)
  | sanitized value asciiOnly => some (value, asciiOnly)
  | event _ => none

def Note.event? : Note → Option Event
  | sanitized .. => none
  | event e => some e

/-- A value with the notes of its making. -/
@[ext] structure Traced (α : Type) where
  value : α
  notes : List Note

namespace Traced

def pure {α : Type} (a : α) : Traced α := ⟨a, []⟩

/-- Go on with a value; notes follow one another. -/
def bind {α β : Type} (x : Traced α) (f : α → Traced β) : Traced β :=
  ⟨(f x.value).value, x.notes ++ (f x.value).notes⟩

instance : Monad Traced where
  pure := pure
  bind := bind

/-- Make a value for each element in order. -/
def each {α β : Type} (xs : List α) (f : α → Traced β) : Traced (List β) :=
  ⟨xs.map fun x => (f x).value, xs.flatMap fun x => (f x).notes⟩

/-- Note an event. -/
def tell (e : Event) : Traced Unit := ⟨(), [.event e]⟩

/-- What the sanitizer was given, in order. -/
def calls {α : Type} (x : Traced α) : List (String × Bool) := x.notes.filterMap Note.call?

def events {α : Type} (x : Traced α) : List Event := x.notes.filterMap Note.event?

variable {α β : Type}

@[simp] theorem value_pure (a : α) : (Pure.pure a : Traced α).value = a := rfl

@[simp] theorem notes_pure (a : α) : (Pure.pure a : Traced α).notes = [] := rfl

@[simp] theorem value_bind (x : Traced α) (f : α → Traced β) :
    (x >>= f).value = (f x.value).value := rfl

@[simp] theorem notes_bind (x : Traced α) (f : α → Traced β) :
    (x >>= f).notes = x.notes ++ (f x.value).notes := rfl

@[simp] theorem value_map (f : α → β) (x : Traced α) : (f <$> x).value = f x.value := rfl

@[simp] theorem notes_map (f : α → β) (x : Traced α) : (f <$> x).notes = x.notes :=
  List.append_nil x.notes

@[simp] theorem value_each (xs : List α) (f : α → Traced β) :
    (each xs f).value = xs.map fun x => (f x).value := rfl

@[simp] theorem notes_each (xs : List α) (f : α → Traced β) :
    (each xs f).notes = xs.flatMap fun x => (f x).notes := rfl

instance : LawfulMonad Traced := LawfulMonad.mk' Traced
  (fun x => by cases x; simp [Functor.map, bind, pure])
  (fun a f => by simp [Bind.bind, Pure.pure, bind, pure])
  (fun x f g => by simp [Bind.bind, bind])

/-- What a loop puts together may be made first, in the same order. -/
theorem foldlM_eq_map_each {σ : Type} (step : σ → β → σ) (f : α → Traced β) (xs : List α) (s : σ) :
    xs.foldlM (fun s x => return step s (← f x)) s = (List.foldl step s) <$> each xs f := by
  induction xs generalizing s with
  | nil => rfl
  | cons x xs ih =>
    have hlater := ih (step s (f x).value)
    have hvalue := congrArg value hlater
    have hnotes := congrArg (fun later => (f x).notes ++ later.notes) hlater
    refine Traced.ext hvalue ?_
    rw [List.foldlM_cons, notes_bind, notes_bind, notes_pure, List.append_nil]
    refine hnotes.trans ?_
    rw [notes_map, notes_map, notes_each, notes_each, List.flatMap_cons]

end Traced

/-- A value as the sanitizer shows it, with a note of it. -/
def Sanitizer.display (s : Sanitizer) (value : String) (asciiOnly : Bool) : Traced String :=
  ⟨s value asciiOnly, [.sanitized value asciiOnly]⟩

end StringReport
