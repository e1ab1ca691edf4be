import StringReport.Number.Binary64

/-!
# Candidate decoding routines

Candidates are kept by address in ascending order, each address once. Putting an address
that is already there replaces its score.
-/
namespace StringReport

/-- How likely a function is a decoding routine, and how often it is referred to. -/
structure Score where
  score : Binary64
  references : UInt64
  deriving DecidableEq, Repr

/-- Scores by address. -/
structure ScoreTable where
  entries : List (UInt64 × Score)
  ascending : entries.Pairwise fun a b => a.1 < b.1
  deriving DecidableEq, Repr

namespace ScoreTable

/-- Put a score into an ascending list. -/
def insertEntry (address : UInt64) (score : Score) :
    List (UInt64 × Score) → List (UInt64 × Score)
  | [] => [(address, score)]
  | entry :: rest =>
    if address < entry.1 then (address, score) :: entry :: rest
    else if address = entry.1 then (address, score) :: rest
    else entry :: insertEntry address score rest

theorem mem_insertEntry {address : UInt64} {score : Score} {entries : List (UInt64 × Score)}
    {entry : UInt64 × Score} (h : entry ∈ insertEntry address score entries) :
    entry = (address, score) ∨ entry ∈ entries := by
  induction entries with
  | nil => simpa [insertEntry] using h
  | cons first rest ih =>
    simp only [insertEntry] at h
    split at h
    · simpa using h
    · split at h
      · rcases List.mem_cons.1 h with h | h
        · exact Or.inl h
        · exact Or.inr (List.mem_cons_of_mem _ h)
      · rcases List.mem_cons.1 h with h | h
        · exact Or.inr (h ▸ List.mem_cons_self)
        · exact (ih h).imp_right (List.mem_cons_of_mem _)

theorem ascending_insertEntry (address : UInt64) (score : Score)
    {entries : List (UInt64 × Score)} (h : entries.Pairwise fun a b => a.1 < b.1) :
    (insertEntry address score entries).Pairwise fun a b => a.1 < b.1 := by
  induction entries with
  | nil => simp [insertEntry]
  | cons first rest ih =>
    have hfirst := (List.pairwise_cons.1 h).1
    have hrest := (List.pairwise_cons.1 h).2
    simp only [insertEntry]
    split
    · next hlt =>
      refine List.pairwise_cons.2 ⟨fun entry hentry => ?_, h⟩
      rcases List.mem_cons.1 hentry with rfl | hentry
      · exact hlt
      · exact UInt64.lt_trans hlt (hfirst entry hentry)
    · next hnlt =>
      split
      · next heq =>
        exact List.pairwise_cons.2 ⟨fun entry hentry => heq ▸ hfirst entry hentry, hrest⟩
      · next hne =>
        refine List.pairwise_cons.2 ⟨fun entry hentry => ?_, ih hrest⟩
        rcases mem_insertEntry hentry with rfl | hentry
        · exact UInt64.lt_of_le_of_ne (UInt64.not_lt.1 hnlt) (Ne.symm hne)
        · exact hfirst entry hentry

/-- No candidate. -/
def empty : ScoreTable := ⟨[], .nil⟩

instance : Inhabited ScoreTable := ⟨empty⟩

/-- Put a score under an address. -/
def insert (table : ScoreTable) (address : UInt64) (score : Score) : ScoreTable :=
  ⟨insertEntry address score table.entries, ascending_insertEntry address score table.ascending⟩

/-- Whether there is no candidate. -/
def isEmpty (table : ScoreTable) : Bool := table.entries.isEmpty

end ScoreTable
end StringReport
