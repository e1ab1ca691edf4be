import StringReport.Report.Fault

/-!
# How a report is rendered

Options come from the caller, with the color preference as a text. They are checked once,
before anything is rendered; what follows from them is the policy.
-/
namespace StringReport

/-- How much a report tells. -/
inductive Verbosity where
  /-- Strings alone. -/
  | brief
  /-- Addresses, offsets, groups, colors and more about the run. -/
  | verbose
  deriving DecidableEq, Repr, Inhabited

inductive ColorMode where
  | always
  /-- Colors if the output is a terminal that has them. -/
  | auto
  | never
  deriving DecidableEq, Repr, Inhabited

namespace ColorMode

/-- The mode that a preference names. -/
def ofPreference? (preference : String) : Option ColorMode :=
  if preference = "always" then some always
  else if preference = "auto" then some auto
  else if preference = "never" then some never
  else none

def preference : ColorMode → String
  | always => "always"
  | auto => "auto"
  | never => "never"

/-- Whether styles are written, on a terminal or elsewhere. -/
def stylesEnabled (mode : ColorMode) (terminal : Bool) : Bool :=
  match mode with
  | always => true
  | auto => terminal
  | never => false

@[simp] theorem ofPreference?_preference (mode : ColorMode) :
    ofPreference? mode.preference = some mode := by
  cases mode <;> decide

end ColorMode

/-- What a caller asks for. -/
structure Options where
  verbosity : Verbosity := .brief
  disableHeaders : Bool := false
  color : String := "auto"
  deriving DecidableEq, Repr, Inhabited

/-- What the options come to on a given output. -/
structure Policy where
  verbosity : Verbosity
  headers : Bool
  color : ColorMode
  styled : Bool
  deriving DecidableEq, Repr, Inhabited

namespace Policy

/-- A policy for an output that is a terminal with colors or is not. -/
def make (verbosity : Verbosity) (headers : Bool) (color : ColorMode) (terminal : Bool) :
    Policy :=
  ⟨verbosity, headers, color, color.stylesEnabled terminal⟩

/-- The policy that options come to, if their color preference is one. -/
def ofOptions (options : Options) (terminal : Bool) : Except RenderFault Policy :=
  match ColorMode.ofPreference? options.color with
  | some color => .ok (make options.verbosity (!options.disableHeaders) color terminal)
  | none => .error (.invalidColor options.color)

theorem ofOptions_of_color {options : Options} {mode : ColorMode}
    (h : ColorMode.ofPreference? options.color = some mode) (terminal : Bool) :
    ofOptions options terminal =
      .ok (make options.verbosity (!options.disableHeaders) mode terminal) := by
  simp [ofOptions, h]

def isVerbose (policy : Policy) : Bool := policy.verbosity = .verbose

/-- Colors are shown in verbose reports only. -/
def colorsEnabled (policy : Policy) : Bool := policy.styled && policy.isVerbose

end Policy
end StringReport
