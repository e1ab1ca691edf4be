import Mathlib.Data.List.Induction
import Mathlib.Data.List.Perm.Lattice
import StringReport.Document.ScoreTable
import StringReport.Proofs.DeclaredValues

/-!
# What tables stand for

The keys of a table are addresses in digits, taken as they are written. Its entries are put in
one after the other, so that of several for one address the last is kept; and since a table
keeps its entries in ascending order, that alone says which table it is.
-/
namespace StringReport
namespace Json

namespace Tree

/-- A number of 64 bits between the quotes of a key, in digits without a superfluous zero. -/
def MeansAddress (key : List Char) (n : UInt64) : Prop :=
  Numeral.IsWhole key ∧ Nat.ofDigitChars 10 key 0 = n.toNat

/-- Entries by address, in the order in which they stand. -/
def MeansEntries {α : Type} (Means : Tree → α → Prop) (tree : Tree)
    (entries : List (UInt64 × α)) : Prop :=
  ∃ members, tree = .object members ∧
    List.Forall₂ (fun member entry => MeansAddress member.1 entry.1 ∧ Means member.2 entry.2)
      members entries

end Tree

theorem ne_of_isDigit {c d : Char} (hc : c.isDigit) (hd : ¬ d.isDigit) : c ≠ d := by
  rintro rfl
  exact hd hc

theorem le_toNat_of_isDigit {c : Char} (h : c.isDigit) : 0x20 ≤ c.toNat := by
  simp only [Char.isDigit, Bool.and_eq_true, decide_eq_true_eq] at h
  have hle : '0'.toNat ≤ c.toNat := h.1
  have hzero : '0'.toNat = 48 := rfl
  omega

theorem stringText_of_isDigits {digits : List Char} (h : ∀ c ∈ digits, c.isDigit) :
    StringText digits := by
  induction digits with
  | nil => exact .nil
  | cons c digits ih =>
    obtain ⟨hc, hdigits⟩ := List.forall_mem_cons.1 h
    exact .plain (ne_of_isDigit hc (by decide)) (ne_of_isDigit hc (by decide))
      (le_toNat_of_isDigit hc) (ih hdigits)

/-- A number without a fraction or an exponent is written by its digits. -/
theorem text_whole_iff {digits text : List Char} :
    Numeral.Text ⟨false, digits, none, none⟩ text ↔ text = digits ∧ Numeral.IsWhole digits := by
  constructor
  · intro h
    cases h with
    | positive hwhole hfraction hexponent =>
      cases hfraction
      cases hexponent
      exact ⟨by simp, hwhole⟩
  · rintro ⟨rfl, hwhole⟩
    have htext := Numeral.Text.positive hwhole .none .none
    rwa [List.append_nil, List.append_nil] at htext

theorem word64_number_eq_ok {m : Numeral} {n : UInt64} :
    word64 (.number m) = .ok n ↔
      m = ⟨false, m.whole, none, none⟩ ∧ Nat.ofDigitChars 10 m.whole 0 = n.toNat := by
  have hlt := n.toNat_lt
  have hunbroken : (Node.number m).Unbroken := trivial
  rw [decodes_word64.iff_of_shows hunbroken .number]
  constructor
  · rintro ⟨digits, hm, hdigits, -⟩
    obtain rfl := Tree.number.inj hm
    exact ⟨rfl, hdigits⟩
  · rintro ⟨hm, hdigits⟩
    exact ⟨m.whole, congrArg Tree.number hm, hdigits, hlt⟩

/-- Digits up to a quote use up the body of a string, and the quote is the one that closes it. -/
theorem eq_body_of_append {body digits more : List Char} {closed : Bool}
    (hunbroken : Unbroken body) (hdigits : ∀ c ∈ digits, c.isDigit)
    (htext : body ++ (if closed then ['"'] else []) = digits ++ '"' :: more) :
    closed ∧ body = digits := by
  have hbare (more : List Char) : body ≠ digits ++ '"' :: more := by
    rintro rfl
    rw [Unbroken, (stringText_of_isDigits hdigits).splitString] at hunbroken
    cases (Prod.mk.inj hunbroken).2
  cases closed with
  | false =>
    rw [if_neg (by simp), List.append_nil] at htext
    exact absurd htext (hbare more)
  | true =>
    rw [if_pos rfl] at htext
    rcases more.eq_nil_or_concat with rfl | ⟨more, c, rfl⟩
    · exact ⟨rfl, List.append_cancel_right htext⟩
    · rw [List.concat_eq_append, ← List.cons_append, ← List.append_assoc] at htext
      exact absurd (List.append_inj_left' htext rfl) (hbare more)

/-- A key of an address is its digits, up to the quote that closes it. -/
theorem numericKey_eq_ok {key : RawString} (hunbroken : Unbroken key.body) {n : UInt64} :
    numericKey key = .ok n ↔ key.closed ∧ Tree.MeansAddress key.body n := by
  obtain ⟨body, closed, beyond⟩ := key
  constructor
  · intro h
    unfold numericKey at h
    simp only at h
    split at h
    · cases h
    split at h
    swap
    · cases h
    split at h
    · cases h
    · cases h
    next m rest hscan =>
    obtain ⟨value, hword, hquote⟩ := exists_of_bind_eq_ok h
    split at hquote
    swap
    · cases hquote
    next hhead =>
    obtain rfl := Except.ok.inj hquote
    obtain ⟨hm, hvalue⟩ := word64_number_eq_ok.1 hword
    obtain ⟨used, hused, htext⟩ := Numeral.exists_of_scan hscan
    rw [hm] at hused
    obtain ⟨rfl, hwhole⟩ := text_whole_iff.1 hused
    obtain ⟨more, rfl⟩ := List.head?_eq_some_iff.1 hhead
    obtain ⟨hclosed, hbody⟩ := eq_body_of_append hunbroken hwhole.1.2 htext
    simp only at hbody
    rw [hbody]
    exact ⟨hclosed, hwhole, hvalue⟩
  · rintro ⟨hclosed, hwhole, hvalue⟩
    obtain rfl : closed = true := hclosed
    have hends : Numeral.Ends ['"'] := Numeral.ends_cons (by decide)
    have hscan := Numeral.scan_append hends (Numeral.scan_of_text (text_whole_iff.2 ⟨rfl, hwhole⟩))
    have hword : word64 (.number ⟨false, body, none, none⟩) = .ok n :=
      word64_number_eq_ok.2 ⟨rfl, hvalue⟩
    obtain ⟨c, tail, htext, hc⟩ := Numeral.head_of_scan hscan
    simp only at htext hscan
    simp only [numericKey, if_true]
    rw [htext] at hscan ⊢
    simp only [if_pos hc, hscan, hword, bind, Except.bind, List.head?_cons, if_true]

theorem foldlM_entries {α β : Type} {value : Decoder α} {Means : Tree → α → Prop}
    (h : Decodes value Means) (put : β → UInt64 → α → β) {nodes : List (RawString × Node)}
    (hunbroken : UnbrokenMembers nodes) (start built : β) :
    nodes.foldlM (fun built (member : RawString × Node) => do
        let address ← numericKey member.1
        let v ← value member.2
        .ok (put built address v)) start = .ok built ↔
      ∃ members entries, ShowsMembers nodes members ∧
        List.Forall₂ (fun member (entry : UInt64 × α) =>
          Tree.MeansAddress member.1 entry.1 ∧ Means member.2 entry.2) members entries ∧
        entries.foldl (fun built entry => put built entry.1 entry.2) start = built := by
  induction nodes generalizing start with
  | nil =>
    constructor
    · intro hok
      obtain rfl := Except.ok.inj hok
      exact ⟨[], [], .nil, .nil, rfl⟩
    · rintro ⟨members, entries, ⟨⟩, ⟨⟩, rfl⟩
      rfl
  | cons node nodes ih =>
    obtain ⟨⟨body, closed, beyond⟩, node⟩ := node
    obtain ⟨hkey, hnode, hlater⟩ := hunbroken
    rw [List.foldlM_cons]
    constructor
    · intro hok
      obtain ⟨next, hnext, hrest⟩ := exists_of_bind_eq_ok hok
      obtain ⟨address, haddress, hnext⟩ := exists_of_bind_eq_ok hnext
      obtain ⟨v, hv, hnext⟩ := exists_of_bind_eq_ok hnext
      obtain rfl := Except.ok.inj hnext
      obtain ⟨hclosed, hmeans⟩ := (numericKey_eq_ok hkey).1 haddress
      obtain rfl : closed = true := hclosed
      obtain ⟨tree, htree, hvalue⟩ := (h node hnode v).1 hv
      obtain ⟨members, entries, hmembers, hall, hbuilt⟩ := (ih hlater _).1 hrest
      exact ⟨(body, tree) :: members, (address, v) :: entries,
        .cons (stringText_of_isDigits hmeans.1.1.2) htree hmembers, .cons ⟨hmeans, hvalue⟩ hall,
        hbuilt⟩
    · rintro ⟨members, entries, hmembers, hall, hbuilt⟩
      cases hmembers with
      | cons hbody htree hmembers =>
        cases hall with
        | @cons _ entry _ entries hentry hall =>
          have haddress : numericKey ⟨body, true, beyond⟩ = .ok entry.1 :=
            (numericKey_eq_ok hkey).2 ⟨rfl, hentry.1⟩
          have hv := (h.iff_of_shows hnode htree).2 hentry.2
          have hrest := (ih hlater (put start entry.1 entry.2)).2
            ⟨_, entries, hmembers, hall, hbuilt⟩
          simp only [haddress, hv, bind, Except.bind]
          exact hrest

/-- A table is made by putting its entries in one after the other. -/
theorem decodes_table {α β : Type} {value : Decoder α} {Means : Tree → α → Prop}
    (h : Decodes value Means) (empty : β) (put : β → UInt64 → α → β) :
    Decodes (table value empty put) fun tree built =>
      ∃ entries, tree.MeansEntries Means entries ∧
        entries.foldl (fun built entry => put built entry.1 entry.2) empty = built := by
  intro node hunbroken built
  constructor
  · intro hok
    cases node with
    | object nodes ending =>
      obtain ⟨built', hfold, hrest⟩ := exists_of_bind_eq_ok hok
      obtain ⟨hending, hbuilt⟩ := bind_eq_ok_unit.1 hrest
      obtain rfl := Except.ok.inj hbuilt
      obtain rfl := ObjectEnd.check_eq_ok.1 hending
      obtain ⟨members, entries, hmembers, hall, hentries⟩ :=
        (foldlM_entries h put hunbroken empty built').1 hfold
      exact ⟨.object members, .object hmembers, entries, ⟨members, rfl, hall⟩, hentries⟩
    | _ => cases hok
  · rintro ⟨tree, htree, entries, ⟨members, rfl, hall⟩, hentries⟩
    cases htree with
    | object hmembers =>
      rw [table, (foldlM_entries h put hunbroken empty built).2
        ⟨members, entries, hmembers, hall, hentries⟩]
      rfl

end Json

/-! ## The table of scores -/

namespace ScoreTable

theorem mem_insertEntry_iff {address : UInt64} {score : Score} {entries : List (UInt64 × Score)}
    (h : entries.Pairwise fun a b => a.1 < b.1) {entry : UInt64 × Score} :
    entry ∈ insertEntry address score entries ↔
      entry = (address, score) ∨ entry.1 ≠ address ∧ entry ∈ entries := by
  induction entries with
  | nil => simp [insertEntry]
  | cons first rest ih =>
    obtain ⟨hfirst, hrest⟩ := List.pairwise_cons.1 h
    simp only [insertEntry]
    split
    · next hlt =>
      have hne : ∀ other ∈ first :: rest, other.1 ≠ address := by
        refine List.forall_mem_cons.2 ⟨(UInt64.ne_of_lt hlt).symm, fun other hother => ?_⟩
        exact (UInt64.ne_of_lt (UInt64.lt_trans hlt (hfirst other hother))).symm
      rw [List.mem_cons]
      exact or_congr_right ⟨fun hentry => ⟨hne entry hentry, hentry⟩, And.right⟩
    split
    · next heq =>
      rw [List.mem_cons, List.mem_cons]
      refine or_congr_right ⟨fun hentry => ⟨?_, Or.inr hentry⟩, ?_⟩
      · rw [heq]
        exact (UInt64.ne_of_lt (hfirst entry hentry)).symm
      · rintro ⟨hne, rfl | hentry⟩
        · exact absurd heq.symm hne
        · exact hentry
    · next heq =>
      rw [List.mem_cons, ih hrest, List.mem_cons]
      constructor
      · rintro (rfl | hentry | ⟨hne, hentry⟩)
        · exact Or.inr ⟨fun hsame => heq hsame.symm, Or.inl rfl⟩
        · exact Or.inl hentry
        · exact Or.inr ⟨hne, Or.inr hentry⟩
      · rintro (hentry | ⟨hne, rfl | hentry⟩)
        · exact Or.inr (Or.inl hentry)
        · exact Or.inl rfl
        · exact Or.inr (Or.inr ⟨hne, hentry⟩)

/-- Of the entries put in for an address, the last is kept. -/
theorem mem_foldl_insert (entries : List (UInt64 × Score)) {address : UInt64} {score : Score} :
    (address, score) ∈
        (entries.foldl (fun built entry => built.insert entry.1 entry.2) empty).entries ↔
      entries.reverse.lookup address = some score := by
  induction entries using List.reverseRecOn with
  | nil => simp [empty]
  | append_singleton entries last ih =>
    obtain ⟨key, value⟩ := last
    rw [List.foldl_append, List.reverse_append, List.foldl_cons, List.foldl_nil, insert,
      mem_insertEntry_iff (ascending _), ih, List.reverse_singleton, List.singleton_append,
      List.lookup_cons]
    by_cases hkey : address = key
    · subst hkey
      simp [eq_comm]
    · have hbeq : (address == key) = false := beq_false_of_ne hkey
      simp [hkey, hbeq]

/-- A table is known by its entries. -/
theorem eq_of_mem_iff {table table' : ScoreTable}
    (h : ∀ entry, entry ∈ table.entries ↔ entry ∈ table'.entries) : table = table' := by
  have hnodup (table : ScoreTable) : table.entries.Nodup := by
    refine table.ascending.imp ?_
    rintro a _ hlt rfl
    exact UInt64.lt_irrefl _ hlt
  have hperm := (List.perm_ext_iff_of_nodup (hnodup table) (hnodup table')).2 h
  have hentries : table.entries = table'.entries :=
    hperm.eq_of_pairwise (fun _ _ _ _ hlt hlt' => absurd hlt' (UInt64.lt_asymm hlt))
      table.ascending table'.ascending
  cases table
  cases table'
  exact (ScoreTable.mk.injEq ..).mpr hentries

end ScoreTable
end StringReport
