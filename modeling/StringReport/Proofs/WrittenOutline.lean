import StringReport.Json.Node
import StringReport.Proofs.WrittenTokens

/-!
# The outline of a written value

Written values are read back in the shape they have. What carries the induction is that a
value is read in whatever containers are open around it, and that whatever follows it is left
to be read, if only no numeral could go on with it: a comma, a line feed or the end.
-/
namespace StringReport

/-- A real number that is written as a numeral. -/
def Binary64.Legible (x : Binary64) : Prop :=
  x.isFinite ∧ ∃ n, Numeral.scan x.text.toList = .complete n []

namespace Json

mutual

/-- The real numbers in a value. -/
def Value.reals : Value → List Binary64
  | .null | .boolean _ | .natural _ | .string _ => []
  | .real x => [x]
  | .list items => realsOfItems items
  | .object members => realsOfMembers members

def realsOfItems : List Value → List Binary64
  | [] => []
  | item :: items => item.reals ++ realsOfItems items

def realsOfMembers : List (String × Value) → List Binary64
  | [] => []
  | (_, value) :: members => value.reals ++ realsOfMembers members

end

mutual

/-- A node that is outlined by the text of a value. -/
inductive Outlines : Node → Value → Prop
  | null : Outlines (.literal .null) .null
  | boolean {b : Bool} : Outlines (.literal (.boolean b)) (.boolean b)
  | natural {n : Nat} : Outlines (.number (.ofNat n)) (.natural n)
  | real {x : Binary64} {n : Numeral} :
    Numeral.scan x.text.toList = .complete n [] → Outlines (.number n) (.real x)
  | string {s : String} {beyond : Nat} : Outlines (.string (.written s beyond)) (.string s)
  | list {nodes : List Node} {items : List Value} :
    OutlinesItems nodes items → Outlines (.list nodes .closed) (.list items)
  | object {nodes : List (RawString × Node)} {members : List (String × Value)} :
    OutlinesMembers nodes members → Outlines (.object nodes .closed) (.object members)

inductive OutlinesItems : List Node → List Value → Prop
  | nil : OutlinesItems [] []
  | cons {node : Node} {item : Value} {nodes : List Node} {items : List Value} :
    Outlines node item → OutlinesItems nodes items →
      OutlinesItems (node :: nodes) (item :: items)

inductive OutlinesMembers : List (RawString × Node) → List (String × Value) → Prop
  | nil : OutlinesMembers [] []
  | cons {key : String} {beyond : Nat} {node : Node} {value : Value}
    {nodes : List (RawString × Node)} {members : List (String × Value)} :
    Outlines node value → OutlinesMembers nodes members →
      OutlinesMembers ((.written key beyond, node) :: nodes) ((key, value) :: members)

end

/-! ## Single tokens -/

/-- Take all tokens of a text. -/
def State.read (state : State) (text : List Char) : State := (tokens text).foldl State.step state

variable {frames : List Frame} {rest : List Char}

theorem State.read_of_tokens {text : List Char} {token : Token}
    (h : tokens text = token :: tokens rest) (state : State) :
    state.read text = (state.step token).read rest := by
  rw [read, h, List.foldl_cons, read]

theorem State.read_newLine (state : State) (depth : Nat) (text : List Char) :
    state.read (newLine depth ++ text) = state.read text := by
  rw [read, tokens_newLine, read]

theorem State.read_space (state : State) (text : List Char) :
    state.read (' ' :: text) = state.read text := by
  rw [read, tokens_space (by decide), read]

theorem State.read_punctuation {c : Char} {token : Token} (h : punctuation? c = some token)
    (hspace : isSpace c = false) (state : State) (text : List Char) :
    state.read (c :: text) = (state.step token).read text :=
  read_of_tokens (tokens_punctuation h hspace text) state

theorem State.read_writtenString (state : State) (s : String) (text : List Char) :
    state.read (writtenString s ++ text) =
      (state.step (.string (.written s (leadingBytes ('"' :: text))))).read text :=
  read_of_tokens (tokens_writtenString s text) state

theorem ends_newLine (depth : Nat) (text : List Char) : Numeral.Ends (newLine depth ++ text) :=
  Numeral.ends_cons (by decide)

theorem ends_writtenItems (depth : Nat) (items : List Value) (hrest : Numeral.Ends rest) :
    Numeral.Ends (writtenItems depth items ++ rest) := by
  cases items with
  | nil => exact hrest
  | cons item items => exact Numeral.ends_cons (by decide)

theorem ends_writtenMembers (depth : Nat) (members : List (String × Value))
    (hrest : Numeral.Ends rest) : Numeral.Ends (writtenMembers depth members ++ rest) := by
  cases members with
  | nil => exact hrest
  | cons member members => exact Numeral.ends_cons (by decide)

/-- The tokens of a written value start with one that closes no list. -/
theorem exists_tokens_written (value : Value) (hreals : ∀ x ∈ value.reals, x.Legible)
    (depth : Nat) (hrest : Numeral.Ends rest) :
    ∃ token later, tokens (value.written depth ++ rest) = token :: later ∧
      token ≠ .closeBracket := by
  cases value with
  | null => exact ⟨_, _, tokens_literal rfl rest, by decide⟩
  | boolean b =>
    cases b with
    | true => exact ⟨_, _, tokens_literal rfl rest, by simp⟩
    | false => exact ⟨_, _, tokens_literal rfl rest, by simp⟩
  | natural n => exact ⟨_, _, tokens_numeral (Numeral.scan_toDigits n) hrest, by simp⟩
  | real x =>
    obtain ⟨hfinite, n, hscan⟩ := hreals x List.mem_cons_self
    rw [Value.written, writtenReal, if_pos hfinite]
    exact ⟨_, _, tokens_numeral hscan hrest, by simp⟩
  | string s => exact ⟨_, _, tokens_writtenString s rest, by simp⟩
  | list items =>
    cases items with
    | nil => exact ⟨_, _, tokens_punctuation rfl rfl _, by decide⟩
    | cons item items => exact ⟨_, _, tokens_punctuation rfl rfl _, by decide⟩
  | object members =>
    cases members with
    | nil => exact ⟨_, _, tokens_punctuation rfl rfl _, by decide⟩
    | cons member members => exact ⟨_, _, tokens_punctuation rfl rfl _, by decide⟩

/-- Where the first item of a list is due, only the end of the list is taken in another way. -/
theorem State.step_firstItem {token : Token} (h : token ≠ .closeBracket) (frames : List Frame) :
    State.step (.firstItem frames) token = State.step (.value (.list [] :: frames)) token := by
  cases token <;> first | rfl | exact absurd rfl h

/-- The first item of a list is read like any other. -/
theorem State.read_firstItem (value : Value) (hreals : ∀ x ∈ value.reals, x.Legible)
    (depth : Nat) (hrest : Numeral.Ends rest) :
    (State.firstItem frames).read (value.written depth ++ rest) =
      (State.value (.list [] :: frames)).read (value.written depth ++ rest) := by
  obtain ⟨token, later, htokens, htoken⟩ := exists_tokens_written value hreals depth hrest
  rw [read, read, htokens, List.foldl_cons, List.foldl_cons, step_firstItem htoken]

/-! ## Values -/

/-- The key of a member is read where a key is due. -/
theorem State.read_key (state : State) (frames : List Frame) (acc : List (RawString × Node))
    (hstate : ∀ key, state.step (.string key) = .colon frames acc key) (key : String)
    (text : List Char) :
    ∃ beyond, state.read (writtenString key ++ ':' :: ' ' :: text) =
      (State.value (.object acc (.written key beyond) :: frames)).read text := by
  refine ⟨leadingBytes ('"' :: ':' :: ' ' :: text), ?_⟩
  rw [read_writtenString, hstate, read_punctuation rfl rfl, read_space]
  rfl

namespace State

/-- In these containers a written value is read, up to what follows it. -/
def Reads (frames : List Frame) (value : Value) (depth : Nat) (rest : List Char) : Prop :=
  ∃ node, Outlines node value ∧
    (State.value frames).read (value.written depth ++ rest) = (State.after frames node).read rest

/-- After one item, written items are read into the list that is open. -/
def ReadsItems (frames : List Frame) (acc : List Node) (node : Node) (items : List Value)
    (depth : Nat) (rest : List Char) : Prop :=
  ∃ nodes last acc', OutlinesItems nodes items ∧ last :: acc' = nodes.reverse ++ node :: acc ∧
    (State.after (.list acc :: frames) node).read (writtenItems depth items ++ rest) =
      (State.after (.list acc' :: frames) last).read rest

/-- After one member, written members are read into the object that is open. -/
def ReadsMembers (frames : List Frame) (acc : List (RawString × Node)) (first : RawString × Node)
    (members : List (String × Value)) (depth : Nat) (rest : List Char) : Prop :=
  ∃ nodes last acc', OutlinesMembers nodes members ∧ last :: acc' = nodes.reverse ++ first :: acc ∧
    (State.after (.object acc first.1 :: frames) first.2).read
        (writtenMembers depth members ++ rest) =
      (State.after (.object acc' last.1 :: frames) last.2).read rest

theorem reads_real {x : Binary64} (h : x.Legible) (frames : List Frame) (depth : Nat)
    (hrest : Numeral.Ends rest) : Reads frames (.real x) depth rest := by
  obtain ⟨hfinite, n, hscan⟩ := h
  refine ⟨_, .real hscan, ?_⟩
  rw [Value.written, writtenReal, if_pos hfinite]
  exact read_of_tokens (tokens_numeral hscan hrest) _

theorem reads_list_nil (frames : List Frame) (depth : Nat) (rest : List Char) :
    Reads frames (.list []) depth rest := by
  refine ⟨_, .list .nil, ?_⟩
  rw [Value.written, List.cons_append, List.cons_append, read_punctuation rfl rfl,
    read_punctuation rfl rfl]
  rfl

/-- A list is read if its first item is, and the others after it. -/
theorem reads_list {item : Value} {items : List Value} {depth : Nat}
    (hreals : ∀ x ∈ item.reals, x.Legible)
    (hitem : Reads (.list [] :: frames) item (depth + 1)
      (writtenItems (depth + 1) items ++ (newLine depth ++ ']' :: rest)))
    (hitems : ∀ node,
      ReadsItems frames [] node items (depth + 1) (newLine depth ++ ']' :: rest)) :
    Reads frames (.list (item :: items)) depth rest := by
  obtain ⟨node, hnode, hread⟩ := hitem
  obtain ⟨nodes, last, acc, hnodes, hacc, hread'⟩ := hitems node
  refine ⟨.list (last :: acc).reverse .closed, ?_, ?_⟩
  · rw [hacc, List.reverse_append, List.reverse_reverse]
    exact .list (.cons hnode hnodes)
  · have hlater := ends_writtenItems (depth + 1) items (ends_newLine depth (']' :: rest))
    rw [Value.written]
    simp only [List.cons_append, List.append_assoc, List.nil_append] at hlater ⊢
    rw [read_punctuation rfl rfl, read_newLine]
    refine (read_firstItem item hreals (depth + 1) hlater).trans ?_
    rw [hread, hread', read_newLine, read_punctuation rfl rfl]
    rfl

theorem readsItems_cons {acc : List Node} {node : Node} {item : Value} {items : List Value}
    {depth : Nat}
    (hitem : Reads (.list (node :: acc) :: frames) item depth (writtenItems depth items ++ rest))
    (hitems : ∀ next, ReadsItems frames (node :: acc) next items depth rest) :
    ReadsItems frames acc node (item :: items) depth rest := by
  obtain ⟨next, hnext, hread⟩ := hitem
  obtain ⟨nodes, last, acc', hnodes, hacc, hread'⟩ := hitems next
  refine ⟨next :: nodes, last, acc', .cons hnext hnodes, by simp [hacc], ?_⟩
  rw [writtenItems]
  simp only [List.cons_append, List.append_assoc]
  rw [read_punctuation rfl rfl, read_newLine, ← hread', ← hread]
  rfl

theorem reads_object_nil (frames : List Frame) (depth : Nat) (rest : List Char) :
    Reads frames (.object []) depth rest := by
  refine ⟨_, .object .nil, ?_⟩
  rw [Value.written, List.cons_append, List.cons_append, read_punctuation rfl rfl,
    read_punctuation rfl rfl]
  rfl

/-- An object is read if the value of its first member is, and the other members after it. -/
theorem reads_object {key : String} {value : Value} {members : List (String × Value)}
    {depth : Nat}
    (hvalue : ∀ name, Reads (.object [] name :: frames) value (depth + 1)
      (writtenMembers (depth + 1) members ++ (newLine depth ++ '}' :: rest)))
    (hmembers : ∀ first,
      ReadsMembers frames [] first members (depth + 1) (newLine depth ++ '}' :: rest)) :
    Reads frames (.object ((key, value) :: members)) depth rest := by
  obtain ⟨beyond, hkey⟩ := read_key (.firstKey frames) frames [] (fun _ => rfl) key
    (value.written (depth + 1) ++
      (writtenMembers (depth + 1) members ++ (newLine depth ++ '}' :: rest)))
  obtain ⟨node, hnode, hread⟩ := hvalue (.written key beyond)
  obtain ⟨nodes, last, acc, hnodes, hacc, hread'⟩ := hmembers (.written key beyond, node)
  refine ⟨.object (last :: acc).reverse .closed, ?_, ?_⟩
  · rw [hacc, List.reverse_append, List.reverse_reverse]
    exact .object (.cons hnode hnodes)
  · rw [Value.written]
    simp only [List.cons_append, List.append_assoc, List.nil_append]
    rw [read_punctuation rfl rfl, read_newLine]
    refine hkey.trans ?_
    rw [hread, hread', read_newLine, read_punctuation rfl rfl]
    rfl

theorem readsMembers_cons {acc : List (RawString × Node)} {first : RawString × Node}
    {key : String} {value : Value} {members : List (String × Value)} {depth : Nat}
    (hvalue : ∀ name, Reads (.object (first :: acc) name :: frames) value depth
      (writtenMembers depth members ++ rest))
    (hmembers : ∀ next, ReadsMembers frames (first :: acc) next members depth rest) :
    ReadsMembers frames acc first ((key, value) :: members) depth rest := by
  obtain ⟨beyond, hkey⟩ := read_key (.nextKey frames (first :: acc)) frames (first :: acc)
    (fun _ => rfl) key (value.written depth ++ (writtenMembers depth members ++ rest))
  obtain ⟨next, hnext, hread⟩ := hvalue (.written key beyond)
  obtain ⟨nodes, last, acc', hnodes, hacc, hread'⟩ := hmembers (.written key beyond, next)
  refine ⟨(.written key beyond, next) :: nodes, last, acc', .cons hnext hnodes,
    by simp [hacc], ?_⟩
  rw [writtenMembers]
  simp only [List.cons_append, List.append_assoc]
  rw [read_punctuation rfl rfl, read_newLine, ← hread', ← hread, ← hkey]
  rfl

mutual

/-- A written value is read in any containers, up to what follows it. -/
theorem reads_written (value : Value) (hreals : ∀ x ∈ value.reals, x.Legible) (depth : Nat)
    (frames : List Frame) {rest : List Char} (hrest : Numeral.Ends rest) :
    Reads frames value depth rest := by
  cases value with
  | null => exact ⟨_, .null, read_of_tokens (tokens_literal rfl rest) _⟩
  | boolean b =>
    cases b with
    | true => exact ⟨_, .boolean, read_of_tokens (tokens_literal rfl rest) _⟩
    | false => exact ⟨_, .boolean, read_of_tokens (tokens_literal rfl rest) _⟩
  | natural n =>
    exact ⟨_, .natural, read_of_tokens (tokens_numeral (Numeral.scan_toDigits n) hrest) _⟩
  | real x => exact reads_real (hreals x List.mem_cons_self) frames depth hrest
  | string s => exact ⟨_, .string, read_writtenString _ s rest⟩
  | list items =>
    cases items with
    | nil => exact reads_list_nil frames depth rest
    | cons item items =>
      rw [Value.reals, realsOfItems, List.forall_mem_append] at hreals
      have hclose := ends_newLine depth (']' :: rest)
      exact reads_list hreals.1
        (reads_written item hreals.1 _ _ (ends_writtenItems _ items hclose))
        fun node => reads_writtenItems items hreals.2 _ _ _ node hclose
  | object members =>
    cases members with
    | nil => exact reads_object_nil frames depth rest
    | cons member members =>
      obtain ⟨key, value⟩ := member
      rw [Value.reals, realsOfMembers, List.forall_mem_append] at hreals
      have hclose := ends_newLine depth ('}' :: rest)
      exact reads_object
        (fun _ => reads_written value hreals.1 _ _ (ends_writtenMembers _ members hclose))
        fun first => reads_writtenMembers members hreals.2 _ _ _ first hclose

/-- The items after the first are read into the list that is open. -/
theorem reads_writtenItems (items : List Value)
    (hreals : ∀ x ∈ realsOfItems items, x.Legible) (depth : Nat) (frames : List Frame)
    (acc : List Node) (node : Node) {rest : List Char} (hrest : Numeral.Ends rest) :
    ReadsItems frames acc node items depth rest := by
  cases items with
  | nil => exact ⟨[], node, acc, .nil, rfl, rfl⟩
  | cons item items =>
    rw [realsOfItems, List.forall_mem_append] at hreals
    exact readsItems_cons
      (reads_written item hreals.1 _ _ (ends_writtenItems depth items hrest))
      fun next => reads_writtenItems items hreals.2 _ _ _ next hrest

/-- The members after the first are read into the object that is open. -/
theorem reads_writtenMembers (members : List (String × Value))
    (hreals : ∀ x ∈ realsOfMembers members, x.Legible) (depth : Nat) (frames : List Frame)
    (acc : List (RawString × Node)) (first : RawString × Node) {rest : List Char}
    (hrest : Numeral.Ends rest) : ReadsMembers frames acc first members depth rest := by
  cases members with
  | nil => exact ⟨[], first, acc, .nil, rfl, rfl⟩
  | cons member members =>
    obtain ⟨key, value⟩ := member
    rw [realsOfMembers, List.forall_mem_append] at hreals
    exact readsMembers_cons
      (fun _ => reads_written value hreals.1 _ _ (ends_writtenMembers depth members hrest))
      fun next => reads_writtenMembers members hreals.2 _ _ _ next hrest

end

end State

/-- The outline of a written value is that of the value, and nothing stands after it but
blanks. -/
theorem outline_text (value : Value) (hreals : ∀ x ∈ value.reals, x.Legible) {blanks : List Char}
    (hblanks : ∀ c ∈ blanks, isSpace c) :
    ∃ node, Outlines node value ∧ outline (value.text.toList ++ blanks) = ⟨node, false⟩ := by
  have htokens : tokens blanks = [] := by
    induction blanks with
    | nil => rw [tokens]
    | cons c blanks ih =>
      rw [tokens_space (hblanks c List.mem_cons_self)]
      exact ih fun d hd => hblanks d (List.mem_cons_of_mem _ hd)
  have hends : Numeral.Ends blanks := by
    intro c hc
    have hspace := hblanks c (List.mem_of_mem_head? hc)
    simp only [isSpace, Bool.or_eq_true, decide_eq_true_eq] at hspace
    rcases hspace with ((rfl | rfl) | rfl) | rfl <;> decide
  obtain ⟨node, hnode, hread⟩ := State.reads_written value hreals 0 [] hends
  refine ⟨node, hnode, ?_⟩
  rw [outline, Value.text, String.toList_ofList]
  rw [State.read, State.read, htokens] at hread
  rw [hread]
  rfl

end Json
end StringReport
