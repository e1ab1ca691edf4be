/-!
# Texts cut at a mark
-/
namespace StringReport

/-- Split at a mark: the part before the first, and the parts after each. -/
def splitOn (mark : Char) : List Char → List Char × List (List Char)
  | [] => ([], [])
  | c :: rest =>
    let (first, later) := splitOn mark rest
    if c = mark then ([], first :: later) else (c :: first, later)

/-- The parts of a text between its marks, at least one. -/
def partsOn (mark : Char) (text : List Char) : List (List Char) :=
  let (first, later) := splitOn mark text
  first :: later

end StringReport
