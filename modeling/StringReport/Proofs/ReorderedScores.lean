import Mathlib
import StringReport.Proofs.DocumentPlaces
import StringReport.Proofs.DocumentText
import StringReport.Report.Basic

/-!
# Scores in any order

The scores of a document are given in the members of an object, by address. The table that is
read from them lists the addresses by their numbers, whatever the order of the members, and of
several members for one address it keeps the last. So two members that stand next to each other
may change places if they are for different addresses, and any number of such exchanges leaves
the document as it is. When the document is written, its table is written in its own order.
-/
namespace StringReport

open Json Relation

/-! ## What a table collects -/

namespace ScoreTable

/-- A table that lists every address for which a score was given, once and in ascending order,
with the score that was given for it last. -/
structure Collects (table : ScoreTable) (given : List (UInt64 × Score)) : Prop where
  ascending : (table.entries.map fun entry => entry.1.toNat).Pairwise (· < ·)
  addresses : ∀ address, address ∈ table.entries.map Prod.fst ↔ address ∈ given.map Prod.fst
  last : ∀ before after address score, given = before ++ (address, score) :: after →
    address ∉ after.map Prod.fst → (address, score) ∈ table.entries

theorem ascending_addresses (table : ScoreTable) :
    (table.entries.map fun entry => entry.1.toNat).Pairwise (· < ·) :=
  List.pairwise_map.2 (table.ascending.imp UInt64.lt_iff_toNat_lt.1)

theorem collects_of_lookup {table : ScoreTable} {given : List (UInt64 × Score)}
    (h : ∀ address score,
      (address, score) ∈ table.entries ↔ given.reverse.lookup address = some score) :
    table.Collects given where
  ascending := table.ascending_addresses
  addresses address := by
    constructor
    · intro hmem
      obtain ⟨⟨key, score⟩, hentry, rfl⟩ := List.mem_map.1 hmem
      obtain ⟨before, after, hgiven, -⟩ := List.lookup_eq_some_iff.1 ((h key score).1 hentry)
      have hreverse : (key, score) ∈ given.reverse := by
        rw [hgiven]
        exact List.mem_append_right _ List.mem_cons_self
      exact List.mem_map_of_mem (List.mem_reverse.1 hreverse)
    · intro hmem
      obtain ⟨⟨key, score⟩, hentry, rfl⟩ := List.mem_map.1 hmem
      cases hfound : given.reverse.lookup key with
      | none =>
        have hne := List.lookup_eq_none_iff.1 hfound _ (List.mem_reverse.2 hentry)
        simp at hne
      | some last => exact List.mem_map.2 ⟨_, (h key last).2 hfound, rfl⟩
  last before after address score hgiven hlast := by
    refine (h address score).2 (List.lookup_eq_some_iff.2 ⟨after.reverse, before.reverse, ?_, ?_⟩)
    · rw [hgiven]
      simp
    · intro entry hentry
      have hne : address ≠ entry.1 := by
        rintro rfl
        exact hlast (List.mem_map_of_mem (List.mem_reverse.1 hentry))
      simpa using hne

/-! ## Exchanges -/

/-- Two members next to each other, for different addresses, change places. -/
inductive Exchange : List (List Char × Tree) → List (List Char × Tree) → Prop
  | mk {before after : List (List Char × Tree)} {member member' : List Char × Tree} :
    Numeral.ofDigits member.1 ≠ Numeral.ofDigits member'.1 →
      Exchange (before ++ member :: member' :: after) (before ++ member' :: member :: after)

theorem exists_forall₂_swap {α β : Type} {R : α → β → Prop} {before after : List α} {x x' : α}
    {ys : List β} (h : List.Forall₂ R (before ++ x :: x' :: after) ys) :
    ∃ left y y' right, ys = left ++ y :: y' :: right ∧ R x y ∧ R x' y' ∧
      List.Forall₂ R (before ++ x' :: x :: after) (left ++ y' :: y :: right) := by
  induction before generalizing ys with
  | nil =>
    obtain ⟨y, later, hy, hlater, rfl⟩ := List.forall₂_cons_left_iff.1 h
    obtain ⟨y', right, hy', hright, rfl⟩ := List.forall₂_cons_left_iff.1 hlater
    exact ⟨[], y, y', right, rfl, hy, hy', .cons hy' (.cons hy hright)⟩
  | cons first before ih =>
    obtain ⟨z, later, hz, hlater, rfl⟩ := List.forall₂_cons_left_iff.1 h
    obtain ⟨left, y, y', right, rfl, hy, hy', hswap⟩ := ih hlater
    exact ⟨z :: left, y, y', right, rfl, hy, hy', .cons hz hswap⟩

/-- What is looked up does not depend on the order of two entries under different keys. -/
theorem lookup_swap {α β : Type} [BEq α] [LawfulBEq α] {entry entry' : α × β}
    (hne : entry.1 ≠ entry'.1) (before after : List (α × β)) (key : α) :
    (before ++ entry :: entry' :: after).lookup key =
      (before ++ entry' :: entry :: after).lookup key := by
  rw [List.lookup_append, List.lookup_append, List.lookup_cons, List.lookup_cons, List.lookup_cons,
    List.lookup_cons]
  by_cases hkey : key = entry.1
  · have hother : (key == entry'.1) = false := beq_false_of_ne (hkey ▸ hne)
    simp [hother]
  · have hthis : (key == entry.1) = false := beq_false_of_ne hkey
    simp [hthis]

/-- An exchange leaves what an object of scores stands for as it is. -/
theorem Means.exchange {members members' : List (List Char × Tree)}
    (h : Exchange members members') {table : ScoreTable}
    (hmeans : ScoreTable.Means (.object members) table) :
    ScoreTable.Means (.object members') table := by
  obtain ⟨hne⟩ := h
  obtain ⟨entries, ⟨_, ⟨rfl⟩, hentries⟩, htable⟩ := hmeans
  obtain ⟨left, entry, entry', right, rfl, hentry, hentry', hswap⟩ := exists_forall₂_swap hentries
  refine ⟨_, ⟨_, rfl, hswap⟩, fun address score => ?_⟩
  have haddress : entry'.1 ≠ entry.1 := fun heq =>
    hne (hentry.1.2.trans ((congrArg UInt64.toNat heq).symm.trans hentry'.1.2.symm))
  rw [htable]
  simp only [List.reverse_append, List.reverse_cons, List.append_assoc, List.cons_append,
    List.nil_append]
  rw [lookup_swap haddress]

theorem Means.exchanges {members members' : List (List Char × Tree)}
    (h : ReflTransGen Exchange members members') {table : ScoreTable}
    (hmeans : ScoreTable.Means (.object members) table) :
    ScoreTable.Means (.object members') table := by
  induction h with
  | refl => exact hmeans
  | tail _ hlast ih => exact ih.exchange hlast

theorem Exchange.cons {members members' : List (List Char × Tree)} (h : Exchange members members')
    (member : List Char × Tree) : Exchange (member :: members) (member :: members') := by
  obtain @⟨before, after, first, second, hne⟩ := h
  have hstep : Exchange ((member :: before) ++ first :: second :: after)
      ((member :: before) ++ second :: first :: after) := .mk hne
  exact hstep

/-- Members that are all for different addresses are put into any order by exchanges. -/
theorem exchanges_of_perm {members members' : List (List Char × Tree)}
    (h : members.Perm members')
    (hdistinct : (members.map fun member => Numeral.ofDigits member.1).Nodup) :
    ReflTransGen Exchange members members' := by
  induction h with
  | nil => exact .refl
  | cons member _ ih =>
    rw [List.map_cons, List.nodup_cons] at hdistinct
    exact (ih hdistinct.2).lift _ fun _ _ hstep => hstep.cons member
  | swap member member' members =>
    rw [List.map_cons, List.map_cons, List.nodup_cons, List.mem_cons, not_or] at hdistinct
    have hstep : Exchange ([] ++ member' :: member :: members)
        ([] ++ member :: member' :: members) := .mk hdistinct.1.1
    exact .single hstep
  | trans hfirst _ ih ih' =>
    exact (ih hdistinct).trans (ih' ((hfirst.map _).nodup_iff.1 hdistinct))

end ScoreTable

/-! ## The table as it is written -/

/-- What a key of a written record spells is the name of one of its members. -/
theorem Json.exists_value_of_spells {members : List (String × Value)} {key : List Char}
    {part : Tree} (hmember : (key, part) ∈ memberTrees members) {name : String}
    (hkey : Spells key name.toList) : ∃ value, (name, value) ∈ members ∧ part = value.tree := by
  rw [memberTrees_eq_map] at hmember
  obtain ⟨⟨name', value⟩, hvalue, heq⟩ := List.mem_map.1 hmember
  obtain ⟨rfl, rfl⟩ := Prod.mk.inj heq
  obtain rfl := name_eq_of_spells hkey (spells_written name'.toList)
  exact ⟨value, hvalue, rfl⟩

theorem Json.gapIn_written {α : Type} {columns : List (Column α)} (name : String)
    (before after : List (String × Value)) :
    GapIn columns name fun part => .object
      (memberTrees before ++ (name.toList.flatMap writtenChar, part) :: memberTrees after) :=
  .member (spells_written name.toList)

/-- The members of a table as it is written: its addresses in digits, in the order of the table. -/
def ScoreTable.printed (table : ScoreTable) : List (List Char × Tree) :=
  table.entries.map fun entry => (Nat.toDigits 10 entry.1.toNat, entry.2.toJson.tree)

theorem ScoreTable.tree_toJson (table : ScoreTable) :
    table.toJson.tree = .object table.printed := by
  rw [toJson, Value.tree, memberTrees_eq_map, List.map_map, printed]
  refine congrArg Tree.object (List.map_congr_left fun entry _ => ?_)
  exact congrArg (·, entry.2.toJson.tree) (flatMap_writtenChar_toString entry.1.toNat)

theorem ScoreTable.ofDigits_printed (table : ScoreTable) :
    (table.printed.map fun member => Numeral.ofDigits member.1) =
      table.entries.map fun entry => entry.1.toNat := by
  rw [printed, List.map_map]
  exact List.map_congr_left fun entry _ => (meansAddress_toDigits entry.1).2

namespace Document

/-- A written document has the members of its table in the place of its scores. -/
theorem exists_scoresGap_text (d : Document) :
    ∃ fill, ScoresGap fill ∧
      IsText (fill (.object d.analysis.functions.candidates.printed)) d.text.toList := by
  let a := d.analysis
  let f := a.functions
  have houter : GapIn columns "analysis" _ :=
    gapIn_written _ [("metadata", d.metadata.toJson)] [("strings", d.findings.toJson)]
  have hmiddle : GapIn Analysis.columns "functions" _ := gapIn_written _
    [("enable_static_strings", .boolean a.staticEnabled),
      ("enable_stack_strings", .boolean a.stackEnabled),
      ("enable_tight_strings", .boolean a.tightEnabled),
      ("enable_decoded_strings", .boolean a.decodedEnabled),
      ("enable_language_strings", .boolean a.languageEnabled)] []
  have hinner : GapIn FunctionCounts.columns "decoding_function_scores" _ := gapIn_written _
    [("discovered", .word64 f.discovered), ("library", .word64 f.library),
      ("analyzed_stack_strings", .word64 f.analyzedForStack),
      ("analyzed_tight_strings", .word64 f.analyzedForTight),
      ("analyzed_decoded_strings", .word64 f.analyzedForDecoded)] []
  have htext := isText_text d.toJson
  refine ⟨_, .mk houter hmiddle hinner, ?_⟩
  rw [← ScoreTable.tree_toJson]
  exact htext

/-- Nothing else stands in the place of the scores of a written document. -/
theorem ScoresGap.eq_of_text {d : Document} {fill : Tree → Tree} (hfill : ScoresGap fill)
    {part : Tree} (h : IsText (fill part) d.text.toList) :
    part = .object d.analysis.functions.candidates.printed := by
  obtain ⟨houter, hmiddle, hinner⟩ := hfill
  have htree := h.unique (isText_text d.toJson)
  obtain ⟨key, hkey, hmember⟩ := houter.exists_mem htree
  obtain ⟨value, hvalue, hanalysis⟩ := exists_value_of_spells hmember hkey
  obtain rfl : value = d.analysis.toJson := by simpa using hvalue
  obtain ⟨key, hkey, hmember⟩ := hmiddle.exists_mem hanalysis
  obtain ⟨value, hvalue, hfunctions⟩ := exists_value_of_spells hmember hkey
  obtain rfl : value = d.analysis.functions.toJson := by simpa using hvalue
  obtain ⟨key, hkey, hmember⟩ := hinner.exists_mem hfunctions
  obtain ⟨value, hvalue, hscores⟩ := exists_value_of_spells hmember hkey
  obtain rfl : value = d.analysis.functions.candidates.toJson := by simpa using hvalue
  rw [hscores, ScoreTable.tree_toJson]

variable {text : String} {d : Document} {fill : Tree → Tree}
  {members members' : List (List Char × Tree)}

/-- The members of the scores may be exchanged in the text of a document. -/
theorem ofText_eq_ok_of_exchanges (hread : ofText text = .ok d) (hfill : ScoresGap fill)
    (htext : IsText (fill (.object members)) text.toList)
    (hexchanges : ReflTransGen ScoreTable.Exchange members members') {text' : String}
    (htext' : IsText (fill (.object members')) text'.toList) : ofText text' = .ok d := by
  rw [ofText_eq_ok_of_isText htext] at hread
  have hscores := hfill.opens.part hread
  rw [ofText_eq_ok_of_isText htext']
  exact hfill.opens.refill hread (hscores.exchanges hexchanges)

/-- The scores of an accepted text are what its members give for their addresses, each address
once and in ascending order, the last member before others for one address. So exchanges of
members change nothing about the document, how it is written and how it is reported; among
them are all orders of members for different addresses. What is written has the members of the
table in its order again. -/
theorem scores_of_members (hread : ofText text = .ok d) (hfill : ScoresGap fill)
    (htext : IsText (fill (.object members)) text.toList) :
    (∃ given, (Tree.object members).MeansEntries Score.Means given ∧
      d.analysis.functions.candidates.Collects given) ∧
    (∀ (members' : List (List Char × Tree)) (text' : String),
      ReflTransGen ScoreTable.Exchange members members' →
      IsText (fill (.object members')) text'.toList →
        ∃ d', ofText text' = .ok d' ∧ d' = d ∧ d'.text = d.text ∧
          ∀ options terminal sanitizer, Report.render options terminal sanitizer d' =
            Report.render options terminal sanitizer d) ∧
    (∀ members' : List (List Char × Tree), members.Perm members' →
      (members.map fun member => Numeral.ofDigits member.1).Nodup →
        ReflTransGen ScoreTable.Exchange members members') ∧
    (∃ fill' part, ScoresGap fill' ∧ IsText (fill' part) d.text.toList) ∧
    ∀ fill' part, ScoresGap fill' → IsText (fill' part) d.text.toList →
      ∃ printed, part = .object printed ∧
        (printed.map fun member => Numeral.ofDigits member.1) =
          d.analysis.functions.candidates.entries.map (fun entry => entry.1.toNat) ∧
        (printed.map fun member => Numeral.ofDigits member.1).Pairwise (· < ·) := by
  refine ⟨?_, fun members' text' hexchanges htext' => ?_,
    fun members' => ScoreTable.exchanges_of_perm, ?_, fun fill' part hfill' hprinted => ?_⟩
  · have hmeans := hread
    rw [ofText_eq_ok_of_isText htext] at hmeans
    obtain ⟨given, hgiven, htable⟩ := hfill.opens.part hmeans
    exact ⟨given, hgiven, ScoreTable.collects_of_lookup htable⟩
  · exact ⟨d, ofText_eq_ok_of_exchanges hread hfill htext hexchanges htext', rfl, rfl,
      fun _ _ _ => rfl⟩
  · obtain ⟨fill', hfill', hprinted⟩ := exists_scoresGap_text d
    exact ⟨fill', _, hfill', hprinted⟩
  · have haddresses := d.analysis.functions.candidates.ofDigits_printed
    refine ⟨_, hfill'.eq_of_text hprinted, haddresses, ?_⟩
    rw [haddresses]
    exact ScoreTable.ascending_addresses _

/-- A document whose scores are still to be given. -/
def scoredTree (scores : Tree) : Tree :=
  .list ([.list [.string ['a']]] ++
    .object ([] ++ ("functions".toList,
      .object ([] ++ ("decoding_function_scores".toList, scores) :: [])) :: []) :: [.list []])

/-- A score of zero that is referred to so many times. -/
def scoreMember (address references : List Char) : List Char × Tree :=
  (address, .list [.number ⟨false, ['0'], none, none⟩, .number ⟨false, references, none, none⟩])

/-- Scores for 10, 9 and 10 again. -/
def scoredText : String :=
  "[[\"a\"],\x7b\"functions\":\x7b\"decoding_function_scores\":" ++
    "\x7b\"10\":[0,1],\"9\":[0,2],\"10\":[0,3]\x7d\x7d\x7d,[]]"

/-- The same scores for 9, 10 and 10. -/
def rescoredText : String :=
  "[[\"a\"],\x7b\"functions\":\x7b\"decoding_function_scores\":" ++
    "\x7b\"9\":[0,2],\"10\":[0,1],\"10\":[0,3]\x7d\x7d\x7d,[]]"

/-- What both texts hold. -/
def scored : Document where
  metadata := { filePath := "a", minLength := 0 }
  analysis := { functions := {
    candidates := (ScoreTable.empty.insert 9 ⟨.zero, 2⟩).insert 10 ⟨.zero, 3⟩ } }

/-- The scores for 10 and for 9 change places, those for 10 stay in their order. -/
theorem scores_of_members_scored :
    ofText scoredText = .ok scored ∧ ScoresGap scoredTree ∧
    IsText (scoredTree (.object [scoreMember ['1', '0'] ['1'], scoreMember ['9'] ['2'],
      scoreMember ['1', '0'] ['3']])) scoredText.toList ∧
    ofText rescoredText = .ok scored := by
  have hread : ofText scoredText = .ok scored := by cbv
  have hspells (name : String) (h : (⟨name.toList, true, 0⟩ : RawString).decode = .ok name) :
      Spells name.toList name.toList := (RawString.decode_eq_ok.1 h).2
  have hanalysis : GapIn columns "analysis"
      fun part => .list ([.list [.string ['a']]] ++ part :: [.list []]) :=
    .item (by decide : 1 < columns.length) rfl
  have hfunctions : GapIn Analysis.columns "functions"
      fun part => .object ([] ++ ("functions".toList, part) :: []) :=
    .member (hspells "functions" (by cbv))
  have hscores : GapIn FunctionCounts.columns "decoding_function_scores"
      fun part => .object ([] ++ ("decoding_function_scores".toList, part) :: []) :=
    .member (hspells "decoding_function_scores" (by cbv))
  have hgap : ScoresGap scoredTree := .mk hanalysis hfunctions hscores
  have htext : IsText (scoredTree (.object ([] ++ scoreMember ['1', '0'] ['1'] ::
      scoreMember ['9'] ['2'] :: [scoreMember ['1', '0'] ['3']]))) scoredText.toList := by
    rw [isText_iff_tree]
    cbv
  have htext' : IsText (scoredTree (.object ([] ++ scoreMember ['9'] ['2'] ::
      scoreMember ['1', '0'] ['1'] :: [scoreMember ['1', '0'] ['3']]))) rescoredText.toList := by
    rw [isText_iff_tree]
    cbv
  have hne : Numeral.ofDigits ['1', '0'] ≠ Numeral.ofDigits ['9'] := by decide
  obtain ⟨-, hexchanges, -⟩ := scores_of_members hread hgap htext
  obtain ⟨_, hsame, rfl, -⟩ := hexchanges _ rescoredText (.single (.mk hne)) htext'
  exact ⟨hread, hgap, htext, hsame⟩

end Document
end StringReport
