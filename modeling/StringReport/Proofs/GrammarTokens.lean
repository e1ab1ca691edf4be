import StringReport.Json.Node
import StringReport.Proofs.JsonGrammar

/-!
# The tokens of a grammatical text

A value that the grammar writes has the tokens of a node that shows it, whatever text follows
that no number goes on with; and a text that starts with the tokens of such a node starts with
the value. Both directions follow the derivation, token by token: a token that was taken whole
stands behind blanks only and takes up just what it is written as.
-/
namespace StringReport
namespace Json

/-! ## Blanks -/

theorem tokens_blank {blanks : List Char} (h : IsBlank blanks) (rest : List Char) :
    tokens (blanks ++ rest) = tokens rest := by
  induction blanks with
  | nil => rfl
  | cons c blanks ih =>
    rw [List.cons_append, tokens_space (h c List.mem_cons_self),
      ih fun d hd => h d (List.mem_cons_of_mem _ hd)]

theorem tokens_eq_nil_iff {text : List Char} : tokens text = [] ↔ IsBlank text := by
  constructor
  · intro h
    induction text with
    | nil => simp [IsBlank]
    | cons c text ih =>
      by_cases hc : isSpace c
      · rw [tokens_space hc] at h
        exact List.forall_mem_cons.2 ⟨hc, ih h⟩
      · rw [tokens, if_neg hc] at h
        cases h
  · intro h
    have hblank := tokens_blank h []
    rwa [List.append_nil, tokens] at hblank

/-- No number goes on with a blank. -/
theorem ends_blank {blanks rest : List Char} (h : IsBlank blanks) (hrest : Numeral.Ends rest) :
    Numeral.Ends (blanks ++ rest) := by
  cases blanks with
  | nil => exact hrest
  | cons c blanks =>
    have hc := h c List.mem_cons_self
    simp only [isSpace, Bool.or_eq_true, decide_eq_true_eq] at hc
    rcases hc with ((rfl | rfl) | rfl) | rfl
    all_goals exact Numeral.ends_cons (by decide)

theorem ends_of_isBlank {blanks : List Char} (h : IsBlank blanks) : Numeral.Ends blanks := by
  have hnil : Numeral.Ends [] := by
    rintro c ⟨⟩
  have hends := ends_blank h hnil
  rwa [List.append_nil] at hends

theorem ends_separator {blanks : List Char} (h : IsBlank blanks) {c : Char}
    (hc : c ∈ [',', ']', '}']) (rest : List Char) : Numeral.Ends (blanks ++ c :: rest) := by
  refine ends_blank h (Numeral.ends_cons ?_)
  simp only [List.mem_cons, List.not_mem_nil, or_false] at hc
  rcases hc with rfl | rfl | rfl <;> decide

/-! ## Single tokens -/

/-- How a token is written. -/
inductive TokenText : Token → List Char → Prop
  | punctuation {c : Char} {token : Token} :
    punctuation? c = some token → TokenText token [c]
  | string {body : List Char} {beyond : Nat} :
    TokenText (.string ⟨body, true, beyond⟩) ('"' :: (body ++ ['"']))
  | number {n : Numeral} {text : List Char} : n.Text text → TokenText (.number n) text
  | literal {c : Char} {l : Literal} {word : List Char} :
    literal? c = some (l, word) → TokenText (.literal l) (c :: word)

/-- A token that was written to its end. -/
def Token.IsWhole : Token → Prop
  | .string s => s.closed
  | .badNumber _ | .badLiteral _ | .stray => False
  | _ => True

theorem eq_append_of_splitString {text body after : List Char}
    (h : splitString text = (body, after)) :
    text = body ++ after ∧ (after = [] ∨ ∃ rest, after = '"' :: rest) := by
  fun_induction splitString text generalizing body after with
  | case1 =>
    obtain ⟨rfl, rfl⟩ := Prod.mk.inj h
    exact ⟨rfl, Or.inl rfl⟩
  | case2 rest =>
    obtain ⟨rfl, rfl⟩ := Prod.mk.inj h
    exact ⟨rfl, Or.inr ⟨rest, rfl⟩⟩
  | case3 c rest body' after' hsplit ih =>
    obtain ⟨rfl, rfl⟩ := Prod.mk.inj h
    obtain ⟨htext, hafter⟩ := ih hsplit
    exact ⟨by rw [htext]; rfl, hafter⟩
  | case4 c rest _ _ body' after' hsplit ih =>
    obtain ⟨rfl, rfl⟩ := Prod.mk.inj h
    obtain ⟨htext, hafter⟩ := ih hsplit
    exact ⟨by rw [htext]; rfl, hafter⟩

theorem eq_append_of_spell {word text rest : List Char} (h : spell word text = .complete rest) :
    text = word ++ rest := by
  fun_induction spell word text with
  | case1 =>
    cases h
    rfl
  | case2 => cases h
  | case3 w word rest' ih => rw [ih h, List.cons_append]
  | case4 => cases h

/-- The tokens of one character are no others. -/
theorem isWhole_of_punctuation? {c : Char} {token : Token} (h : punctuation? c = some token) :
    token.IsWhole ∧ (∀ s, token ≠ .string s) ∧ (∀ n, token ≠ .number n) ∧
      ∀ l, token ≠ .literal l := by
  unfold punctuation? at h
  split at h <;> cases h <;> exact ⟨trivial, nofun, nofun, nofun⟩

/-- A token that is taken whole takes up just what it is written as. -/
theorem tokenText_of_nextToken {c : Char} {text rest : List Char} {token : Token}
    (h : nextToken c text = (token, rest)) (hwhole : token.IsWhole) :
    ∃ used, TokenText token used ∧ c :: text = used ++ rest := by
  unfold nextToken at h
  split at h
  · next hc =>
    obtain ⟨rfl, rfl⟩ := Prod.mk.inj h
    exact ⟨[c], .punctuation hc, rfl⟩
  split at h
  · next hquote =>
    unfold stringToken at h
    split at h
    · obtain ⟨rfl, rfl⟩ := Prod.mk.inj h
      cases hwhole
    · next body quote after hsplit =>
      obtain ⟨rfl, rfl⟩ := Prod.mk.inj h
      obtain ⟨rfl, hafter⟩ := eq_append_of_splitString hsplit
      obtain ⟨rest, hrest⟩ := hafter.resolve_left (List.cons_ne_nil _ _)
      obtain ⟨rfl, rfl⟩ := List.cons.inj hrest
      exact ⟨_, .string, by rw [hquote]; simp⟩
  split at h
  · unfold numberToken at h
    split at h
    · next hscan =>
      obtain ⟨rfl, rfl⟩ := Prod.mk.inj h
      obtain ⟨used, hused, htext⟩ := Numeral.exists_of_scan hscan
      exact ⟨used, .number hused, htext⟩
    all_goals
      obtain ⟨rfl, rfl⟩ := Prod.mk.inj h
      cases hwhole
  split at h
  · next hliteral =>
    unfold literalToken at h
    split at h
    · next hspell =>
      obtain ⟨rfl, rfl⟩ := Prod.mk.inj h
      exact ⟨_, .literal hliteral, by rw [eq_append_of_spell hspell]; rfl⟩
    all_goals
      obtain ⟨rfl, rfl⟩ := Prod.mk.inj h
      cases hwhole
  · obtain ⟨rfl, rfl⟩ := Prod.mk.inj h
    cases hwhole

/-- The first token of a text stands behind blanks only. -/
theorem exists_of_tokens_eq_cons {text : List Char} {token : Token} {later : List Token}
    (h : tokens text = token :: later) (hwhole : token.IsWhole) :
    ∃ blanks used rest, IsBlank blanks ∧ TokenText token used ∧
      text = blanks ++ (used ++ rest) ∧ tokens rest = later := by
  induction text with
  | nil =>
    rw [tokens] at h
    cases h
  | cons c text ih =>
    by_cases hc : isSpace c
    · rw [tokens_space hc] at h
      obtain ⟨blanks, used, rest, hblanks, hused, htext, hrest⟩ := ih h
      exact ⟨c :: blanks, used, rest, List.forall_mem_cons.2 ⟨hc, hblanks⟩, hused,
        by rw [htext]; rfl, hrest⟩
    · rw [tokens, if_neg hc] at h
      obtain ⟨htoken, hlater⟩ := List.cons.inj h
      obtain ⟨used, hused, htext⟩ :=
        tokenText_of_nextToken (Prod.ext htoken rfl : nextToken c text = (token, _)) hwhole
      exact ⟨[], used, _, by simp [IsBlank], hused, htext, hlater⟩

theorem unbroken_of_nextToken {c : Char} {text : List Char} {s : RawString}
    (h : (nextToken c text).1 = .string s) : Unbroken s.body := by
  unfold nextToken at h
  split at h
  · next hpunctuation => exact absurd h ((isWhole_of_punctuation? hpunctuation).2.1 s)
  split at h
  · have hbody := unbroken_splitString text
    unfold stringToken at h
    split at h <;> next hsplit =>
      rw [hsplit] at hbody
      rw [← Token.string.inj h]
      exact hbody
  split at h
  · unfold numberToken at h
    split at h <;> cases h
  split at h
  · unfold literalToken at h
    split at h <;> cases h
  · cases h

/-- Every quote in a string of a text has a backslash before it. -/
theorem unbroken_of_mem_tokens {text : List Char} {s : RawString}
    (h : .string s ∈ tokens text) : Unbroken s.body := by
  fun_induction tokens text with
  | case1 => cases h
  | case2 c rest hc ih => exact ih h
  | case3 c rest hc ih =>
    rcases List.mem_cons.1 h with h | h
    · exact unbroken_of_nextToken h.symm
    · exact ih h

/-! ## Trees -/

mutual

/-- A node that outlines a whole value, well formed down to its strings. -/
inductive Shows : Node → Tree → Prop
  | null : Shows (.literal .null) .null
  | boolean {b : Bool} : Shows (.literal (.boolean b)) (.boolean b)
  | number {n : Numeral} : Shows (.number n) (.number n)
  | string {body : List Char} {beyond : Nat} :
    StringText body → Shows (.string ⟨body, true, beyond⟩) (.string body)
  | list {nodes : List Node} {items : List Tree} :
    ShowsItems nodes items → Shows (.list nodes .closed) (.list items)
  | object {nodes : List (RawString × Node)} {members : List (List Char × Tree)} :
    ShowsMembers nodes members → Shows (.object nodes .closed) (.object members)

inductive ShowsItems : List Node → List Tree → Prop
  | nil : ShowsItems [] []
  | cons {node : Node} {item : Tree} {nodes : List Node} {items : List Tree} :
    Shows node item → ShowsItems nodes items → ShowsItems (node :: nodes) (item :: items)

inductive ShowsMembers : List (RawString × Node) → List (List Char × Tree) → Prop
  | nil : ShowsMembers [] []
  | cons {key : List Char} {beyond : Nat} {node : Node} {value : Tree}
    {nodes : List (RawString × Node)} {members : List (List Char × Tree)} :
    StringText key → Shows node value → ShowsMembers nodes members →
      ShowsMembers ((⟨key, true, beyond⟩, node) :: nodes) ((key, value) :: members)

end

mutual

/-- The tokens of a node, which is taken for whole. -/
def Node.tokens : Node → List Token
  | .literal l => [.literal l]
  | .number n => [.number n]
  | .string s => [.string s]
  | .list items _ => .openBracket :: ([.comma].intercalate (partsOfItems items) ++ [.closeBracket])
  | .object members _ =>
    .openBrace :: ([.comma].intercalate (partsOfMembers members) ++ [.closeBrace])
  | .missing | .stray | .badLiteral _ | .badNumber _ => []

/-- The tokens of each item. -/
def partsOfItems : List Node → List (List Token)
  | [] => []
  | item :: items => item.tokens :: partsOfItems items

/-- The tokens of each member. -/
def partsOfMembers : List (RawString × Node) → List (List Token)
  | [] => []
  | (key, value) :: members => (.string key :: .colon :: value.tokens) :: partsOfMembers members

end

/-! ## What the grammar allows has the tokens of its tree -/

theorem exists_tokens_stringText {body : List Char} (h : StringText body) (rest : List Char) :
    ∃ beyond, tokens ('"' :: (body ++ '"' :: rest)) =
      .string ⟨body, true, beyond⟩ :: tokens rest := by
  refine ⟨leadingBytes ('"' :: rest), tokens_of_nextToken (by decide) ?_⟩
  show stringToken _ = _
  rw [stringToken, h.splitString]

mutual

/-- A written value has the tokens of a node that shows it. Only a number could go on with what
follows. -/
theorem exists_tokens_text {tree : Tree} {text rest : List Char} (h : tree.Text text)
    (hrest : ∀ n, tree = .number n → Numeral.Ends rest) :
    ∃ node, Shows node tree ∧ tokens (text ++ rest) = node.tokens ++ tokens rest := by
  cases h with
  | null => exact ⟨_, .null, tokens_literal rfl rest⟩
  | true => exact ⟨_, .boolean, tokens_literal rfl rest⟩
  | false => exact ⟨_, .boolean, tokens_literal rfl rest⟩
  | number hnumber =>
    exact ⟨_, .number, tokens_numeral (Numeral.scan_of_text hnumber) (hrest _ rfl)⟩
  | string hbody =>
    obtain ⟨beyond, hstring⟩ := exists_tokens_stringText hbody rest
    refine ⟨.string ⟨_, true, beyond⟩, .string hbody, ?_⟩
    simp only [List.cons_append, List.append_assoc, List.nil_append]
    exact hstring
  | emptyList hblanks =>
    refine ⟨_, .list .nil, ?_⟩
    simp only [List.cons_append, List.append_assoc, List.nil_append]
    rw [tokens_punctuation rfl rfl, tokens_blank hblanks, tokens_punctuation rfl rfl]
    rfl
  | list hitems =>
    obtain ⟨nodes, hnodes, htokens⟩ := exists_tokens_itemsText hitems rest
    refine ⟨_, .list hnodes, ?_⟩
    simp only [List.cons_append, List.append_assoc, List.nil_append]
    rw [tokens_punctuation rfl rfl, htokens]
    simp [Node.tokens]
  | emptyObject hblanks =>
    refine ⟨_, .object .nil, ?_⟩
    simp only [List.cons_append, List.append_assoc, List.nil_append]
    rw [tokens_punctuation rfl rfl, tokens_blank hblanks, tokens_punctuation rfl rfl]
    rfl
  | object hmembers =>
    obtain ⟨nodes, hnodes, htokens⟩ := exists_tokens_membersText hmembers rest
    refine ⟨_, .object hnodes, ?_⟩
    simp only [List.cons_append, List.append_assoc, List.nil_append]
    rw [tokens_punctuation rfl rfl, htokens]
    simp [Node.tokens]

/-- Written items have the tokens of nodes that show them, with commas between. -/
theorem exists_tokens_itemsText {items : List Tree} {text : List Char} (h : ItemsText items text)
    (rest : List Char) :
    ∃ nodes, ShowsItems nodes items ∧ tokens (text ++ ']' :: rest) =
      [Token.comma].intercalate (partsOfItems nodes) ++ .closeBracket :: tokens rest := by
  cases h with
  | @last before text after item hbefore htext hafter =>
    obtain ⟨node, hnode, htokens⟩ := exists_tokens_text htext fun _ _ =>
      ends_separator hafter (by decide : ']' ∈ [',', ']', '}']) rest
    refine ⟨[node], .cons hnode .nil, ?_⟩
    simp only [List.append_assoc]
    rw [tokens_blank hbefore, htokens, tokens_blank hafter, tokens_punctuation rfl rfl]
    simp [partsOfItems]
  | @next before text after later item items hbefore htext hafter hlater =>
    obtain ⟨node, hnode, htokens⟩ := exists_tokens_text htext fun _ _ =>
      ends_separator hafter (by decide : ',' ∈ [',', ']', '}']) (later ++ ']' :: rest)
    obtain ⟨nodes, hnodes, htokens'⟩ := exists_tokens_itemsText hlater rest
    refine ⟨node :: nodes, .cons hnode hnodes, ?_⟩
    simp only [List.append_assoc, List.cons_append]
    rw [tokens_blank hbefore, htokens, tokens_blank hafter, tokens_punctuation rfl rfl, htokens']
    cases hnodes with
    | nil => cases hlater
    | cons _ _ => simp [partsOfItems, List.intercalate_cons_cons]

/-- Written members have the tokens of nodes that show them, with commas between. -/
theorem exists_tokens_membersText {members : List (List Char × Tree)} {text : List Char}
    (h : MembersText members text) (rest : List Char) :
    ∃ nodes, ShowsMembers nodes members ∧ tokens (text ++ '}' :: rest) =
      [Token.comma].intercalate (partsOfMembers nodes) ++ .closeBrace :: tokens rest := by
  cases h with
  | @last before key between middle text after value hbefore hkey hbetween hmiddle htext hafter =>
    obtain ⟨node, hnode, htokens⟩ := exists_tokens_text htext fun _ _ =>
      ends_separator hafter (by decide : '}' ∈ [',', ']', '}']) rest
    obtain ⟨beyond, hstring⟩ := exists_tokens_stringText hkey
      (between ++ ':' :: (middle ++ (text ++ (after ++ '}' :: rest))))
    refine ⟨[(⟨key, true, beyond⟩, node)], .cons hkey hnode .nil, ?_⟩
    simp only [List.append_assoc, List.cons_append]
    rw [tokens_blank hbefore, hstring, tokens_blank hbetween,
      tokens_punctuation rfl rfl, tokens_blank hmiddle, htokens, tokens_blank hafter,
      tokens_punctuation rfl rfl]
    simp [partsOfMembers]
  | @next before key between middle text after later value members hbefore hkey hbetween hmiddle
      htext hafter hlater =>
    obtain ⟨node, hnode, htokens⟩ := exists_tokens_text htext fun _ _ =>
      ends_separator hafter (by decide : ',' ∈ [',', ']', '}']) (later ++ '}' :: rest)
    obtain ⟨nodes, hnodes, htokens'⟩ := exists_tokens_membersText hlater rest
    obtain ⟨beyond, hstring⟩ := exists_tokens_stringText hkey
      (between ++ ':' :: (middle ++ (text ++ (after ++ ',' :: (later ++ '}' :: rest)))))
    refine ⟨(⟨key, true, beyond⟩, node) :: nodes, .cons hkey hnode hnodes, ?_⟩
    simp only [List.append_assoc, List.cons_append]
    rw [tokens_blank hbefore, hstring, tokens_blank hbetween,
      tokens_punctuation rfl rfl, tokens_blank hmiddle, htokens, tokens_blank hafter,
      tokens_punctuation rfl rfl, htokens']
    cases hnodes with
    | nil => cases hlater
    | cons _ _ _ => simp [partsOfMembers, List.intercalate_cons_cons]

end

/-! ## What has the tokens of a tree is allowed by the grammar -/

theorem punctuation?_inj {c d : Char} {token : Token} (hc : punctuation? c = some token)
    (hd : punctuation? d = some token) : c = d := by
  unfold punctuation? at hc hd
  split at hc <;> cases hc <;> split at hd <;> first | rfl | cases hd

theorem exists_of_tokens_punctuation {c : Char} {token : Token} (hc : punctuation? c = some token)
    {text : List Char} {later : List Token} (h : tokens text = token :: later) :
    ∃ blanks rest, IsBlank blanks ∧ text = blanks ++ c :: rest ∧ tokens rest = later := by
  obtain ⟨hwhole, hstring, hnumber, hliteral⟩ := isWhole_of_punctuation? hc
  obtain ⟨blanks, used, rest, hblanks, hused, rfl, hrest⟩ := exists_of_tokens_eq_cons h hwhole
  refine ⟨blanks, rest, hblanks, ?_, hrest⟩
  cases hused with
  | punctuation hd =>
    rw [punctuation?_inj hc hd]
    rfl
  | string => exact absurd rfl (hstring _)
  | number _ => exact absurd rfl (hnumber _)
  | literal _ => exact absurd rfl (hliteral _)

theorem exists_of_tokens_string {body : List Char} {beyond : Nat} {text : List Char}
    {later : List Token} (h : tokens text = .string ⟨body, true, beyond⟩ :: later) :
    ∃ blanks rest, IsBlank blanks ∧ text = blanks ++ '"' :: (body ++ '"' :: rest) ∧
      tokens rest = later := by
  obtain ⟨blanks, used, rest, hblanks, hused, rfl, hrest⟩ := exists_of_tokens_eq_cons h rfl
  refine ⟨blanks, rest, hblanks, ?_, hrest⟩
  cases hused with
  | punctuation hc => exact absurd rfl ((isWhole_of_punctuation? hc).2.1 _)
  | string => simp

/-- A text that starts with the token of a literal starts with that literal. -/
theorem exists_text_of_literal {literal : Literal} {tree : Tree}
    (h : Shows (.literal literal) tree) {text : List Char} {later : List Token}
    (htokens : tokens text = .literal literal :: later) :
    ∃ blanks used rest, IsBlank blanks ∧ tree.Text used ∧ text = blanks ++ (used ++ rest) ∧
      tokens rest = later := by
  obtain ⟨blanks, used, rest, hblanks, hused, htext, hrest⟩ :=
    exists_of_tokens_eq_cons htokens trivial
  refine ⟨blanks, used, rest, hblanks, ?_, htext, hrest⟩
  cases hused with
  | punctuation hc => exact absurd rfl ((isWhole_of_punctuation? hc).2.2.2 _)
  | literal hc =>
    unfold literal? at hc
    split at hc <;> cases hc <;> cases h
    · exact .null
    · exact .true
    · exact .false

/-- A text that starts with the tokens of a list starts with the list, if what stands between the
brackets is the text of its items. -/
theorem exists_text_of_list {nodes : List Node} {items : List Tree} (h : ShowsItems nodes items)
    {later : List Token}
    (hinside : nodes ≠ [] → ∀ {text : List Char},
      tokens text = [Token.comma].intercalate (partsOfItems nodes) ++ ([.closeBracket] ++ later) →
      ∃ used rest, ItemsText items used ∧ text = used ++ ']' :: rest ∧ tokens rest = later)
    {text : List Char}
    (htokens : tokens text = (Node.list nodes .closed).tokens ++ later) :
    ∃ blanks used rest, IsBlank blanks ∧ (Tree.list items).Text used ∧
      text = blanks ++ (used ++ rest) ∧ tokens rest = later := by
  rw [Node.tokens, List.cons_append, List.append_assoc] at htokens
  obtain ⟨blanks, inner, hblanks, rfl, hinner⟩ :=
    exists_of_tokens_punctuation (c := '[') rfl htokens
  cases nodes with
  | nil =>
    cases h
    obtain ⟨blanks', rest, hblanks', rfl, hrest⟩ :=
      exists_of_tokens_punctuation (c := ']') rfl hinner
    exact ⟨blanks, _, rest, hblanks, .emptyList hblanks', by simp, hrest⟩
  | cons node nodes =>
    obtain ⟨used, rest, hused, rfl, hrest⟩ := hinside (List.cons_ne_nil _ _) hinner
    exact ⟨blanks, _, rest, hblanks, .list hused, by simp, hrest⟩

theorem exists_text_of_object {nodes : List (RawString × Node)}
    {members : List (List Char × Tree)} (h : ShowsMembers nodes members) {later : List Token}
    (hinside : nodes ≠ [] → ∀ {text : List Char},
      tokens text = [Token.comma].intercalate (partsOfMembers nodes) ++ ([.closeBrace] ++ later) →
      ∃ used rest, MembersText members used ∧ text = used ++ '}' :: rest ∧ tokens rest = later)
    {text : List Char}
    (htokens : tokens text = (Node.object nodes .closed).tokens ++ later) :
    ∃ blanks used rest, IsBlank blanks ∧ (Tree.object members).Text used ∧
      text = blanks ++ (used ++ rest) ∧ tokens rest = later := by
  rw [Node.tokens, List.cons_append, List.append_assoc] at htokens
  obtain ⟨blanks, inner, hblanks, rfl, hinner⟩ :=
    exists_of_tokens_punctuation (c := '{') rfl htokens
  cases nodes with
  | nil =>
    cases h
    obtain ⟨blanks', rest, hblanks', rfl, hrest⟩ :=
      exists_of_tokens_punctuation (c := '}') rfl hinner
    exact ⟨blanks, _, rest, hblanks, .emptyObject hblanks', by simp, hrest⟩
  | cons node nodes =>
    obtain ⟨used, rest, hused, rfl, hrest⟩ := hinside (List.cons_ne_nil _ _) hinner
    exact ⟨blanks, _, rest, hblanks, .object hused, by simp, hrest⟩

mutual

/-- A text that starts with the tokens of a whole node starts with the value that it shows. -/
theorem exists_text_of_tokens {node : Node} {tree : Tree} (h : Shows node tree) {text : List Char}
    {later : List Token} (htokens : tokens text = node.tokens ++ later) :
    ∃ blanks used rest, IsBlank blanks ∧ tree.Text used ∧ text = blanks ++ (used ++ rest) ∧
      tokens rest = later := by
  cases h with
  | null => exact exists_text_of_literal .null htokens
  | boolean => exact exists_text_of_literal .boolean htokens
  | number =>
    obtain ⟨blanks, used, rest, hblanks, hused, htext, hrest⟩ :=
      exists_of_tokens_eq_cons htokens trivial
    refine ⟨blanks, used, rest, hblanks, ?_, htext, hrest⟩
    cases hused with
    | punctuation hc => exact absurd rfl ((isWhole_of_punctuation? hc).2.2.1 _)
    | number hn => exact .number hn
  | string hbody =>
    obtain ⟨blanks, rest, hblanks, rfl, hrest⟩ := exists_of_tokens_string htokens
    exact ⟨blanks, _, rest, hblanks, .string hbody, by simp, hrest⟩
  | list hitems =>
    exact exists_text_of_list hitems (fun hne => exists_itemsText_of_tokens hitems hne) htokens
  | object hmembers =>
    exact exists_text_of_object hmembers (fun hne => exists_membersText_of_tokens hmembers hne)
      htokens

theorem exists_itemsText_of_tokens {nodes : List Node} {items : List Tree}
    (h : ShowsItems nodes items) (hne : nodes ≠ []) {text : List Char} {later : List Token}
    (htokens : tokens text =
      [Token.comma].intercalate (partsOfItems nodes) ++ ([.closeBracket] ++ later)) :
    ∃ used rest, ItemsText items used ∧ text = used ++ ']' :: rest ∧ tokens rest = later := by
  cases h with
  | nil => exact absurd rfl hne
  | @cons node item nodes items hnode hnodes =>
    rw [partsOfItems] at htokens
    cases nodes with
    | nil =>
      cases hnodes
      rw [partsOfItems, List.intercalate_singleton] at htokens
      obtain ⟨before, used, _, hbefore, hused, rfl, hclose⟩ := exists_text_of_tokens hnode htokens
      obtain ⟨after, rest, hafter, rfl, hrest⟩ := exists_of_tokens_punctuation (c := ']') rfl hclose
      exact ⟨_, rest, .last hbefore hused hafter, by simp, hrest⟩
    | cons next nodes =>
      rw [partsOfItems, List.intercalate_cons_cons, ← partsOfItems, List.append_assoc,
        List.append_assoc] at htokens
      obtain ⟨before, used, _, hbefore, hused, rfl, hcomma⟩ := exists_text_of_tokens hnode htokens
      obtain ⟨after, _, hafter, rfl, hlater⟩ := exists_of_tokens_punctuation (c := ',') rfl hcomma
      obtain ⟨used', rest, hused', rfl, hrest⟩ :=
        exists_itemsText_of_tokens hnodes (List.cons_ne_nil _ _) hlater
      exact ⟨_, rest, .next hbefore hused hafter hused', by simp, hrest⟩

theorem exists_membersText_of_tokens {nodes : List (RawString × Node)}
    {members : List (List Char × Tree)} (h : ShowsMembers nodes members) (hne : nodes ≠ [])
    {text : List Char} {later : List Token}
    (htokens : tokens text =
      [Token.comma].intercalate (partsOfMembers nodes) ++ ([.closeBrace] ++ later)) :
    ∃ used rest, MembersText members used ∧ text = used ++ '}' :: rest ∧ tokens rest = later := by
  cases h with
  | nil => exact absurd rfl hne
  | @cons key beyond node value nodes members hkey hnode hnodes =>
    rw [partsOfMembers] at htokens
    cases nodes with
    | nil =>
      cases hnodes
      rw [partsOfMembers, List.intercalate_singleton, List.cons_append,
        List.cons_append] at htokens
      obtain ⟨before, _, hbefore, rfl, hcolon⟩ := exists_of_tokens_string htokens
      obtain ⟨between, _, hbetween, rfl, hvalue⟩ :=
        exists_of_tokens_punctuation (c := ':') rfl hcolon
      obtain ⟨middle, used, _, hmiddle, hused, rfl, hclose⟩ := exists_text_of_tokens hnode hvalue
      obtain ⟨after, rest, hafter, rfl, hrest⟩ := exists_of_tokens_punctuation (c := '}') rfl hclose
      exact ⟨_, rest, .last hbefore hkey hbetween hmiddle hused hafter, by simp, hrest⟩
    | cons next nodes =>
      rw [partsOfMembers, List.intercalate_cons_cons, ← partsOfMembers, List.append_assoc,
        List.append_assoc, List.cons_append, List.cons_append] at htokens
      obtain ⟨before, _, hbefore, rfl, hcolon⟩ := exists_of_tokens_string htokens
      obtain ⟨between, _, hbetween, rfl, hvalue⟩ :=
        exists_of_tokens_punctuation (c := ':') rfl hcolon
      obtain ⟨middle, used, _, hmiddle, hused, rfl, hcomma⟩ := exists_text_of_tokens hnode hvalue
      obtain ⟨after, _, hafter, rfl, hlater⟩ := exists_of_tokens_punctuation (c := ',') rfl hcomma
      obtain ⟨used', rest, hused', rfl, hrest⟩ :=
        exists_membersText_of_tokens hnodes (List.cons_ne_nil _ _) hlater
      exact ⟨_, rest, .next hbefore hkey hbetween hmiddle hused hafter hused', by simp, hrest⟩

end

end Json
end StringReport
