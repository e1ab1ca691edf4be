import StringReport.Proofs.GrammarTokens
import StringReport.Proofs.WrittenOutline

/-!
# The outline of a grammatical text

The automaton takes the tokens of a whole value from where the value is due to where it has been
read, in whatever containers. The other way round, what it has taken at any time are the tokens
of the containers it keeps open and of the value it has just read, unless it has stopped; and
where it stops, something is left open or follows the value. So the texts that hold one value
are those whose outline shows it, with nothing after.
-/
namespace StringReport
namespace Json

/-! ## Whole values are read -/

theorem exists_tokens_eq_cons {node : Node} {tree : Tree} (h : Shows node tree) :
    ∃ token later, node.tokens = token :: later ∧ token ≠ .closeBracket := by
  cases h with
  | null => exact ⟨_, _, rfl, by decide⟩
  | boolean => exact ⟨_, _, rfl, by simp⟩
  | number => exact ⟨_, _, rfl, by simp⟩
  | string _ => exact ⟨_, _, rfl, by simp⟩
  | list _ => exact ⟨.openBracket, _, by rw [Node.tokens], by decide⟩
  | object _ => exact ⟨.openBrace, _, by rw [Node.tokens], by decide⟩

/-- No list ends where its first item is due, if it has one. -/
theorem exists_itemsTokens_eq_cons {node : Node} {nodes : List Node} {items : List Tree}
    (h : ShowsItems (node :: nodes) items) :
    ∃ token later, [Token.comma].intercalate (partsOfItems (node :: nodes)) = token :: later ∧
      token ≠ .closeBracket := by
  cases h with
  | cons hnode _ =>
    obtain ⟨token, later, htokens, htoken⟩ := exists_tokens_eq_cons hnode
    exact ⟨token, _, by rw [partsOfItems, htokens, List.intercalate_cons_cons_left], htoken⟩

mutual

/-- The tokens of a whole value are taken as that value, in any containers. -/
theorem foldl_tokens {node : Node} {tree : Tree} (h : Shows node tree) (frames : List Frame)
    (later : List Token) :
    (node.tokens ++ later).foldl State.step (.value frames) =
      later.foldl State.step (.after frames node) := by
  cases h with
  | null => rfl
  | boolean => rfl
  | number => rfl
  | string _ => rfl
  | @list nodes items hitems =>
    rw [Node.tokens, List.cons_append, List.append_assoc, List.foldl_cons]
    show List.foldl State.step (.firstItem frames) _ = _
    cases nodes with
    | nil => rfl
    | cons node nodes =>
      obtain ⟨token, rest, htokens, htoken⟩ := exists_itemsTokens_eq_cons hitems
      have hitemsTokens := foldl_itemsTokens hitems (List.cons_ne_nil _ _) frames [] later
      rw [htokens, List.cons_append, List.foldl_cons] at hitemsTokens ⊢
      rw [State.step_firstItem htoken]
      exact hitemsTokens
  | @object nodes members hmembers =>
    rw [Node.tokens, List.cons_append, List.append_assoc, List.foldl_cons]
    show List.foldl State.step (.firstKey frames) _ = _
    cases nodes with
    | nil => rfl
    | cons node nodes =>
      exact foldl_membersTokens hmembers (List.cons_ne_nil _ _) frames [] (.firstKey frames)
        (fun _ => rfl) later

theorem foldl_itemsTokens {nodes : List Node} {items : List Tree} (h : ShowsItems nodes items)
    (hne : nodes ≠ []) (frames : List Frame) (acc : List Node) (later : List Token) :
    ([Token.comma].intercalate (partsOfItems nodes) ++ ([Token.closeBracket] ++ later)).foldl
        State.step (.value (.list acc :: frames)) =
      later.foldl State.step (.after frames (.list (acc.reverse ++ nodes) .closed)) := by
  cases h with
  | nil => exact absurd rfl hne
  | @cons node item nodes items hnode hnodes =>
    rw [partsOfItems]
    cases nodes with
    | nil =>
      rw [partsOfItems, List.intercalate_singleton, foldl_tokens hnode, ← List.reverse_cons]
      rfl
    | cons next nodes =>
      rw [partsOfItems, List.intercalate_cons_cons, ← partsOfItems, List.append_assoc,
        List.append_assoc, foldl_tokens hnode]
      have hlater := foldl_itemsTokens hnodes (List.cons_ne_nil _ _) frames (node :: acc) later
      rw [List.reverse_cons, List.append_assoc] at hlater
      exact hlater

theorem foldl_membersTokens {nodes : List (RawString × Node)} {members : List (List Char × Tree)}
    (h : ShowsMembers nodes members) (hne : nodes ≠ []) (frames : List Frame)
    (acc : List (RawString × Node)) (state : State)
    (hstate : ∀ key, state.step (.string key) = .colon frames acc key) (later : List Token) :
    ([Token.comma].intercalate (partsOfMembers nodes) ++ ([Token.closeBrace] ++ later)).foldl
        State.step state =
      later.foldl State.step (.after frames (.object (acc.reverse ++ nodes) .closed)) := by
  cases h with
  | nil => exact absurd rfl hne
  | @cons key beyond node value nodes members hkey hnode hnodes =>
    rw [partsOfMembers]
    cases nodes with
    | nil =>
      rw [partsOfMembers, List.intercalate_singleton, List.cons_append,
        List.cons_append, List.foldl_cons, hstate]
      show List.foldl State.step (.value (.object acc ⟨key, true, beyond⟩ :: frames)) _ = _
      rw [foldl_tokens hnode, ← List.reverse_cons]
      rfl
    | cons next nodes =>
      rw [partsOfMembers, List.intercalate_cons_cons, ← partsOfMembers, List.append_assoc,
        List.append_assoc, List.cons_append, List.cons_append, List.foldl_cons, hstate]
      show List.foldl State.step (.value (.object acc ⟨key, true, beyond⟩ :: frames)) _ = _
      rw [foldl_tokens hnode]
      have hlater := foldl_membersTokens hnodes (List.cons_ne_nil _ _) frames
        ((⟨key, true, beyond⟩, node) :: acc) (.nextKey frames _) (fun _ => rfl) later
      rw [List.reverse_cons, List.append_assoc] at hlater
      exact hlater

end

/-! ## What has been taken -/

theorem State.step_firstKey {token : Token} (h : token ≠ .closeBrace) (frames : List Frame) :
    State.step (.firstKey frames) token = takeKey frames [] token := by
  cases token <;> first | rfl | exact absurd rfl h

theorem State.step_nextKey {token : Token} (h : token ≠ .closeBrace) (frames : List Frame)
    (members : List (RawString × Node)) :
    State.step (.nextKey frames members) token = takeKey frames members token := by
  cases token <;> first | rfl | exact absurd rfl h

theorem partsOfItems_concat (items : List Node) (item : Node) :
    partsOfItems (items ++ [item]) = partsOfItems items ++ [item.tokens] := by
  induction items with
  | nil => rfl
  | cons first items ih => rw [List.cons_append, partsOfItems, partsOfItems, ih, List.cons_append]

theorem partsOfMembers_concat (members : List (RawString × Node)) (key : RawString) (value : Node) :
    partsOfMembers (members ++ [(key, value)]) =
      partsOfMembers members ++ [.string key :: .colon :: value.tokens] := by
  induction members with
  | nil => rfl
  | cons first members ih =>
    obtain ⟨name, node⟩ := first
    rw [List.cons_append, partsOfMembers, partsOfMembers, ih, List.cons_append]

/-- The tokens of parts that are all followed by a comma. -/
def followed (parts : List (List Token)) : List Token := parts.flatMap (· ++ [.comma])

theorem followed_concat (parts : List (List Token)) (part : List Token) :
    followed (parts ++ [part]) = followed parts ++ (part ++ [.comma]) := by
  simp [followed]

theorem intercalate_concat (parts : List (List Token)) (part : List Token) :
    [Token.comma].intercalate (parts ++ [part]) = followed parts ++ part := by
  induction parts with
  | nil => rw [List.nil_append, List.intercalate_singleton, followed, List.flatMap_nil,
      List.nil_append]
  | cons first parts ih =>
    have hne : parts ++ [part] ≠ [] :=
      List.append_ne_nil_of_right_ne_nil parts (List.cons_ne_nil part [])
    rw [List.cons_append, List.intercalate_cons_of_ne_nil hne, ih, followed, followed,
      List.flatMap_cons, List.append_assoc, List.append_assoc, List.append_assoc]

/-- The tokens that have opened a container, up to where its next value is due. -/
def Frame.tokens : Frame → List Token
  | .list items => .openBracket :: followed (partsOfItems items.reverse)
  | .object members key =>
    .openBrace :: (followed (partsOfMembers members.reverse) ++ [.string key, .colon])

/-- The tokens of all open containers. -/
def openTokens : List Frame → List Token
  | [] => []
  | frame :: frames => openTokens frames ++ frame.tokens

/-- What a state says about the tokens that led to it. Once stopped, nothing is said but that
they are not the tokens of one whole value. -/
def State.HasRead (taken : List Token) : State → Prop
  | .value frames => taken = openTokens frames
  | .firstItem frames => taken = openTokens frames ++ [.openBracket]
  | .firstKey frames => taken = openTokens frames ++ [.openBrace]
  | .nextKey frames members =>
    taken = openTokens frames ++ .openBrace :: followed (partsOfMembers members.reverse)
  | .colon frames members key =>
    taken = openTokens frames ++
      .openBrace :: (followed (partsOfMembers members.reverse) ++ [.string key])
  | .after frames node => taken = openTokens frames ++ node.tokens
  | .stopped outline => outline.trailing ∨ ∀ tree, ¬ Shows outline.root tree

theorem not_shows_list {items : List Node} {ending : ListEnd} (h : ending ≠ .closed)
    (tree : Tree) : ¬ Shows (.list items ending) tree := by
  rintro ⟨⟩
  exact h rfl

theorem not_shows_object {members : List (RawString × Node)} {ending : ObjectEnd}
    (h : ending ≠ .closed) (tree : Tree) : ¬ Shows (.object members ending) tree := by
  rintro ⟨⟩
  exact h rfl

/-- What is cut off inside of a container is not whole. -/
theorem not_shows_unwind {node : Node} (h : ∀ tree, ¬ Shows node tree) (frames : List Frame)
    (tree : Tree) : ¬ Shows (unwind frames node) tree := by
  induction frames generalizing node with
  | nil => exact h tree
  | cons frame frames ih =>
    cases frame with
    | list items => exact ih (not_shows_list (by decide))
    | object members key => exact ih (not_shows_object (by simp))

theorem not_shows_unwind_cons (frame : Frame) (frames : List Frame) (node : Node) (tree : Tree) :
    ¬ Shows (unwind (frame :: frames) node) tree := by
  cases frame with
  | list items => exact not_shows_unwind (not_shows_list (by decide)) frames tree
  | object members key => exact not_shows_unwind (not_shows_object (by simp)) frames tree

variable {taken : List Token} {frames : List Frame}

theorem State.hasRead_stop {node : Node} (h : ∀ tree, ¬ Shows node tree) :
    (State.stop frames node).HasRead taken :=
  Or.inr (not_shows_unwind h frames)

theorem hasRead_takeValue (h : taken = openTokens frames) (token : Token) :
    (takeValue frames token).HasRead (taken ++ [token]) := by
  subst h
  cases token with
  | openBracket => rfl
  | openBrace => rfl
  | string s => rfl
  | number n => rfl
  | literal l => rfl
  | closeBracket =>
    cases frames with
    | nil => exact State.hasRead_stop nofun
    | cons frame frames =>
      cases frame with
      | list items => exact State.hasRead_stop (not_shows_list (by decide))
      | object members key => exact State.hasRead_stop nofun
  | closeBrace => exact State.hasRead_stop nofun
  | comma => exact State.hasRead_stop nofun
  | colon => exact State.hasRead_stop nofun
  | badNumber cut => exact State.hasRead_stop nofun
  | badLiteral cut => exact State.hasRead_stop nofun
  | stray => exact State.hasRead_stop nofun

theorem hasRead_takeKey (members : List (RawString × Node))
    (h : taken = openTokens frames ++ .openBrace :: followed (partsOfMembers members.reverse))
    (token : Token) : (takeKey frames members token).HasRead (taken ++ [token]) := by
  subst h
  cases token with
  | string key => simp [takeKey, State.HasRead]
  | _ => exact State.hasRead_stop (not_shows_object (by simp))

theorem hasRead_takeSeparator {node : Node} (h : taken = openTokens frames ++ node.tokens)
    (token : Token) : (takeSeparator frames node token).HasRead (taken ++ [token]) := by
  subst h
  cases frames with
  | nil => exact Or.inl rfl
  | cons frame frames =>
    cases frame with
    | list items =>
      cases token with
      | comma =>
        simp [takeSeparator, State.HasRead, openTokens, Frame.tokens, partsOfItems_concat,
          followed_concat]
      | closeBracket =>
        simp [takeSeparator, State.HasRead, openTokens, Frame.tokens, Node.tokens,
          partsOfItems_concat, intercalate_concat]
      | _ => exact State.hasRead_stop (not_shows_list (by decide))
    | object members key =>
      cases token with
      | comma =>
        simp [takeSeparator, State.HasRead, openTokens, Frame.tokens, partsOfMembers_concat,
          followed_concat]
      | closeBrace =>
        simp [takeSeparator, State.HasRead, openTokens, Frame.tokens, Node.tokens,
          partsOfMembers_concat, intercalate_concat]
      | _ => exact State.hasRead_stop (not_shows_object (by simp))

/-- A step takes its token. -/
theorem State.HasRead.step {state : State} (h : state.HasRead taken) (token : Token) :
    (state.step token).HasRead (taken ++ [token]) := by
  cases state with
  | value frames => exact hasRead_takeValue h token
  | firstItem frames =>
    by_cases htoken : token = .closeBracket
    · subst htoken h
      simp [State.step, HasRead, Node.tokens, partsOfItems]
    · have hopen : taken = openTokens (.list [] :: frames) := h
      rw [State.step_firstItem htoken]
      exact hasRead_takeValue hopen token
  | firstKey frames =>
    by_cases htoken : token = .closeBrace
    · subst htoken h
      simp [State.step, HasRead, Node.tokens, partsOfMembers]
    · rw [State.step_firstKey htoken]
      exact hasRead_takeKey [] h token
  | nextKey frames members =>
    by_cases htoken : token = .closeBrace
    · subst htoken
      exact State.hasRead_stop (not_shows_object (by simp))
    · rw [State.step_nextKey htoken]
      exact hasRead_takeKey members h token
  | colon frames members key =>
    subst h
    cases token with
    | colon => simp [State.step, HasRead, openTokens, Frame.tokens]
    | _ => exact State.hasRead_stop (not_shows_object (by simp))
  | after frames node => exact hasRead_takeSeparator h token
  | stopped outline => exact h

/-- A run takes its tokens. -/
theorem State.HasRead.foldl {state : State} (h : state.HasRead taken) (later : List Token) :
    (later.foldl State.step state).HasRead (taken ++ later) := by
  induction later generalizing state taken with
  | nil => rwa [List.append_nil]
  | cons token later ih =>
    rw [List.foldl_cons, ← List.singleton_append, ← List.append_assoc]
    exact ih (h.step token)

/-- Where the text ends after a whole value, just its tokens have been taken. -/
theorem State.HasRead.eq_tokens {state : State} (h : state.HasRead taken) {node : Node}
    {tree : Tree} (hfinish : state.finish = ⟨node, false⟩) (hnode : Shows node tree) :
    taken = node.tokens := by
  have hopen {frames : List Frame} {inner : Node} (hinner : ∀ tree, ¬ Shows inner tree)
      (heq : (⟨unwind frames inner, false⟩ : Outline) = ⟨node, false⟩) : taken = node.tokens :=
    absurd ((Outline.mk.inj heq).1 ▸ hnode) (not_shows_unwind hinner frames tree)
  cases state with
  | value frames => exact hopen (by rintro tree ⟨⟩) hfinish
  | firstItem frames => exact hopen (not_shows_list (by decide)) hfinish
  | firstKey frames => exact hopen (not_shows_object (by simp)) hfinish
  | nextKey frames members => exact hopen (not_shows_object (by simp)) hfinish
  | colon frames members key => exact hopen (not_shows_object (by simp)) hfinish
  | after frames last =>
    obtain ⟨hlast, -⟩ := Outline.mk.inj hfinish
    cases frames with
    | nil =>
      rw [← hlast]
      exact h
    | cons frame frames =>
      exact absurd (hlast ▸ hnode) (not_shows_unwind_cons frame frames last tree)
  | stopped outline =>
    rw [show outline = ⟨node, false⟩ from hfinish] at h
    rcases h with h | h
    · cases h
    · exact absurd hnode (h tree)

/-! ## Texts of one value -/

/-- A text holds a value of the grammar, with nothing but blanks around it, if and only if its
outline shows that value and nothing follows. -/
theorem isText_iff {tree : Tree} {text : List Char} :
    IsText tree text ↔ ∃ node, outline text = ⟨node, false⟩ ∧ Shows node tree := by
  constructor
  · rintro ⟨hbefore, htext, hafter⟩
    obtain ⟨node, hnode, htokens⟩ := exists_tokens_text htext fun _ _ => ends_of_isBlank hafter
    have hread := foldl_tokens hnode [] []
    refine ⟨node, ?_, hnode⟩
    rw [outline, tokens_blank hbefore, htokens, tokens_eq_nil_iff.2 hafter, hread]
    rfl
  · rintro ⟨node, houtline, hnode⟩
    have hread : (State.value []).HasRead [] := rfl
    have htokens := (hread.foldl (tokens text)).eq_tokens houtline hnode
    rw [List.nil_append, ← List.append_nil node.tokens] at htokens
    obtain ⟨before, used, after, hbefore, hused, rfl, hafter⟩ :=
      exists_text_of_tokens hnode htokens
    exact ⟨hbefore, hused, tokens_eq_nil_iff.1 hafter⟩

/-! ## The strings of an outline -/

mutual

/-- No string in a node has a quote that could have ended it. -/
def Node.Unbroken : Node → Prop
  | .string s => Json.Unbroken s.body
  | .list items _ => UnbrokenItems items
  | .object members _ => UnbrokenMembers members
  | .missing | .stray | .literal _ | .badLiteral _ | .number _ | .badNumber _ => True

def UnbrokenItems : List Node → Prop
  | [] => True
  | item :: items => item.Unbroken ∧ UnbrokenItems items

def UnbrokenMembers : List (RawString × Node) → Prop
  | [] => True
  | (key, value) :: members =>
    Json.Unbroken key.body ∧ value.Unbroken ∧ UnbrokenMembers members

end

theorem unbrokenItems_iff {items : List Node} :
    UnbrokenItems items ↔ ∀ item ∈ items, item.Unbroken := by
  induction items with
  | nil => simp [UnbrokenItems]
  | cons item items ih => rw [UnbrokenItems, ih, List.forall_mem_cons]

theorem unbrokenMembers_iff {members : List (RawString × Node)} :
    UnbrokenMembers members ↔
      ∀ member ∈ members, Json.Unbroken member.1.body ∧ member.2.Unbroken := by
  induction members with
  | nil => simp [UnbrokenMembers]
  | cons member members ih => rw [UnbrokenMembers, ih, List.forall_mem_cons, and_assoc]

def Frame.Unbroken : Frame → Prop
  | .list items => UnbrokenItems items.reverse
  | .object members key => UnbrokenMembers members.reverse ∧ Json.Unbroken key.body

/-- The strings of all that a state keeps. -/
def State.Unbroken : State → Prop
  | .value frames | .firstItem frames | .firstKey frames => ∀ frame ∈ frames, frame.Unbroken
  | .nextKey frames members =>
    (∀ frame ∈ frames, frame.Unbroken) ∧ UnbrokenMembers members.reverse
  | .colon frames members key =>
    (∀ frame ∈ frames, frame.Unbroken) ∧ UnbrokenMembers members.reverse ∧
      Json.Unbroken key.body
  | .after frames node => (∀ frame ∈ frames, frame.Unbroken) ∧ node.Unbroken
  | .stopped outline => outline.root.Unbroken

theorem unbrokenItems_reverse_cons {node : Node} {items : List Node} :
    UnbrokenItems (node :: items).reverse ↔ node.Unbroken ∧ UnbrokenItems items.reverse := by
  simp only [unbrokenItems_iff, List.mem_reverse, List.forall_mem_cons]

theorem unbrokenMembers_reverse_cons {key : RawString} {node : Node}
    {members : List (RawString × Node)} :
    UnbrokenMembers ((key, node) :: members).reverse ↔
      (Json.Unbroken key.body ∧ node.Unbroken) ∧ UnbrokenMembers members.reverse := by
  simp only [unbrokenMembers_iff, List.mem_reverse, List.forall_mem_cons]

theorem Node.unbroken_unwind {frames : List Frame} (hframes : ∀ frame ∈ frames, frame.Unbroken)
    {node : Node} (hnode : node.Unbroken) : (unwind frames node).Unbroken := by
  induction frames generalizing node with
  | nil => exact hnode
  | cons frame frames ih =>
    obtain ⟨hframe, houter⟩ := List.forall_mem_cons.1 hframes
    cases frame with
    | list items => exact ih houter (unbrokenItems_reverse_cons.2 ⟨hnode, hframe⟩)
    | object members key =>
      exact ih houter (unbrokenMembers_reverse_cons.2 ⟨⟨hframe.2, hnode⟩, hframe.1⟩)

theorem State.Unbroken.takeValue (hframes : ∀ frame ∈ frames, frame.Unbroken) {token : Token}
    (htoken : ∀ s, token = .string s → Json.Unbroken s.body) :
    (Json.takeValue frames token).Unbroken := by
  have hstop {node : Node} (hnode : node.Unbroken) : (State.stop frames node).Unbroken :=
    Node.unbroken_unwind hframes hnode
  cases token with
  | string s => exact ⟨hframes, htoken s rfl⟩
  | number n => exact ⟨hframes, trivial⟩
  | literal l => exact ⟨hframes, trivial⟩
  | openBracket => exact hframes
  | openBrace => exact hframes
  | closeBracket =>
    cases frames with
    | nil => exact hstop trivial
    | cons frame frames =>
      cases frame with
      | list items =>
        obtain ⟨hitems, houter⟩ := List.forall_mem_cons.1 hframes
        exact Node.unbroken_unwind houter hitems
      | object members key => exact hstop trivial
  | _ => exact hstop trivial

theorem State.Unbroken.takeKey (hframes : ∀ frame ∈ frames, frame.Unbroken)
    {members : List (RawString × Node)} (hmembers : UnbrokenMembers members.reverse)
    {token : Token} (htoken : ∀ s, token = .string s → Json.Unbroken s.body) :
    (Json.takeKey frames members token).Unbroken := by
  cases token with
  | string key => exact ⟨hframes, hmembers, htoken key rfl⟩
  | _ => exact Node.unbroken_unwind hframes hmembers

theorem State.Unbroken.takeSeparator (hframes : ∀ frame ∈ frames, frame.Unbroken) {node : Node}
    (hnode : node.Unbroken) (token : Token) : (Json.takeSeparator frames node token).Unbroken := by
  cases frames with
  | nil => exact hnode
  | cons frame frames =>
    obtain ⟨hframe, houter⟩ := List.forall_mem_cons.1 hframes
    cases frame with
    | list items =>
      have hitems := unbrokenItems_reverse_cons.2 ⟨hnode, hframe⟩
      cases token with
      | comma => exact List.forall_mem_cons.2 ⟨hitems, houter⟩
      | closeBracket => exact ⟨houter, hitems⟩
      | _ => exact Node.unbroken_unwind houter hitems
    | object members key =>
      have hmembers := unbrokenMembers_reverse_cons.2 ⟨⟨hframe.2, hnode⟩, hframe.1⟩
      cases token with
      | comma => exact ⟨houter, hmembers⟩
      | closeBrace => exact ⟨houter, hmembers⟩
      | _ => exact Node.unbroken_unwind houter hmembers

theorem State.Unbroken.step {state : State} (h : state.Unbroken) {token : Token}
    (htoken : ∀ s, token = .string s → Json.Unbroken s.body) : (state.step token).Unbroken := by
  cases state with
  | value frames => exact takeValue h htoken
  | firstItem frames =>
    by_cases hclose : token = .closeBracket
    · subst hclose
      exact ⟨h, trivial⟩
    · have hframe : (Frame.list []).Unbroken := trivial
      rw [State.step_firstItem hclose]
      exact takeValue (List.forall_mem_cons.2 ⟨hframe, h⟩) htoken
  | firstKey frames =>
    by_cases hclose : token = .closeBrace
    · subst hclose
      exact ⟨h, trivial⟩
    · rw [State.step_firstKey hclose]
      exact takeKey h (unbrokenMembers_iff.2 (by simp)) htoken
  | nextKey frames members =>
    by_cases hclose : token = .closeBrace
    · subst hclose
      exact Node.unbroken_unwind h.1 h.2
    · rw [State.step_nextKey hclose]
      exact takeKey h.1 h.2 htoken
  | colon frames members key =>
    cases token with
    | colon => exact List.forall_mem_cons.2 ⟨h.2, h.1⟩
    | _ => exact Node.unbroken_unwind h.1 h.2.1
  | after frames node => exact takeSeparator h.1 h.2 token
  | stopped outline => exact h

theorem State.Unbroken.foldl {state : State} (h : state.Unbroken) {later : List Token}
    (hlater : ∀ s, .string s ∈ later → Json.Unbroken s.body) :
    (later.foldl State.step state).Unbroken := by
  induction later generalizing state with
  | nil => exact h
  | cons token later ih =>
    exact ih (h.step fun s hs => hlater s (hs ▸ List.mem_cons_self)) fun s hs =>
      hlater s (List.mem_cons_of_mem _ hs)

theorem State.Unbroken.finish {state : State} (h : state.Unbroken) :
    state.finish.root.Unbroken := by
  cases state with
  | value frames => exact Node.unbroken_unwind h trivial
  | firstItem frames => exact Node.unbroken_unwind h trivial
  | firstKey frames => exact Node.unbroken_unwind h trivial
  | nextKey frames members => exact Node.unbroken_unwind h.1 h.2
  | colon frames members key => exact Node.unbroken_unwind h.1 h.2.1
  | after frames node => exact Node.unbroken_unwind h.1 h.2
  | stopped outline => exact h

/-- The strings of an outline are those of its text, where every quote that does not end one
has a backslash before it. -/
theorem unbroken_outline (text : List Char) : (outline text).root.Unbroken := by
  have hstart : (State.value []).Unbroken := by simp [State.Unbroken]
  exact (hstart.foldl fun s hs => unbroken_of_mem_tokens hs).finish

end Json
end StringReport
