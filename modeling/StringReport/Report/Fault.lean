import StringReport.Layout.Grid
import StringReport.Text.Quoted

/-!
# Why rendering fails

Two things can be wrong: the color preference is none of the known ones, or a row does not
fit its grid.
-/
namespace StringReport

/-- Why a report could not be rendered, or a row not be put into a grid. -/
inductive RenderFault where
  | invalidColor (preference : String)
  | badRow (mismatch : ArityMismatch)
  deriving DecidableEq, Repr

namespace RenderFault

def message : RenderFault → String
  | invalidColor preference =>
    "unexpected color preference: " ++ quoted preference ++ " (expected always, auto or never)"
  | badRow mismatch =>
    "table has " ++ toString mismatch.expected ++ " columns but row has " ++
      toString mismatch.found ++ " cells"

/-- Whether the fault lies in the options, and so is known before there is any output. -/
def isConfiguration : RenderFault → Bool
  | invalidColor _ => true
  | badRow _ => false

end RenderFault

end StringReport
