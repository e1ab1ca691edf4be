import Mathlib.Data.List.Forall2
import StringReport.Proofs.GrammarOutline

/-!
# Blanks between tokens do not count

A text is lexemes with blanks before, between and after them, where nothing that follows a number
may go on with it. Two texts of the same lexemes have the same tokens, but for the bytes that are
noted to lie beyond a string; the nodes of the one can be given the notes of the other, and so the
grammar makes the same tree of both.
-/
namespace StringReport
namespace Json

/-! ## Lexemes -/

/-- What a text is made of besides blanks. -/
inductive Lexeme : List Char → Prop
  | punctuation {c : Char} : c ∈ ['[', ']', '{', '}', ',', ':'] → Lexeme [c]
  | string {body : List Char} : StringText body → Lexeme ('"' :: (body ++ ['"']))
  | number {n : Numeral} {text : List Char} : n.Text text → Lexeme text
  | null : Lexeme "null".toList
  | true : Lexeme "true".toList
  | false : Lexeme "false".toList

/-- A text of some lexemes, with blanks wherever there is no lexeme. -/
inductive Spaced : List (List Char) → List Char → Prop
  | nil {blanks : List Char} : IsBlank blanks → Spaced [] blanks
  | cons {blanks lexeme rest : List Char} {lexemes : List (List Char)} :
    IsBlank blanks → Lexeme lexeme → (∀ n : Numeral, n.Text lexeme → Numeral.Ends rest) →
      Spaced lexemes rest → Spaced (lexeme :: lexemes) (blanks ++ (lexeme ++ rest))

/-- Two texts that differ in the blanks between their lexemes only. -/
def Respaced (text text' : List Char) : Prop :=
  ∃ lexemes, Spaced lexemes text ∧ Spaced lexemes text'

theorem Spaced.blank {blanks text : List Char} {lexemes : List (List Char)}
    (hblanks : IsBlank blanks) (h : Spaced lexemes text) : Spaced lexemes (blanks ++ text) := by
  cases h with
  | nil h => exact .nil (List.forall_mem_append.2 ⟨hblanks, h⟩)
  | cons h hlexeme hends hlater =>
    rw [← List.append_assoc]
    exact .cons (List.forall_mem_append.2 ⟨hblanks, h⟩) hlexeme hends hlater

/-- A lexeme that no blanks stand before. -/
theorem Spaced.bare {lexeme rest : List Char} {lexemes : List (List Char)}
    (hlexeme : Lexeme lexeme) (hends : ∀ n : Numeral, n.Text lexeme → Numeral.Ends rest)
    (h : Spaced lexemes rest) : Spaced (lexeme :: lexemes) (lexeme ++ rest) := by
  have hblank : IsBlank [] := by simp [IsBlank]
  exact .cons hblank hlexeme hends h

/-- A number starts with a sign or a digit. -/
theorem not_text_of_head {c : Char} (hc : ¬ (c = '-' ∨ c.isDigit)) (text : List Char)
    (n : Numeral) : ¬ n.Text (c :: text) := by
  intro h
  obtain ⟨d, tail, htext, hd⟩ := Numeral.head_of_scan (Numeral.scan_of_text h)
  obtain ⟨rfl, -⟩ := List.cons.inj htext
  exact hc hd

/-- A lexeme that is no number may be followed by anything. -/
theorem Spaced.lexeme {c : Char} {word text : List Char} {lexemes : List (List Char)}
    (hlexeme : Lexeme (c :: word)) (hc : ¬ (c = '-' ∨ c.isDigit)) (h : Spaced lexemes text) :
    Spaced ((c :: word) :: lexemes) (c :: (word ++ text)) :=
  .bare hlexeme (fun n hn => absurd hn (not_text_of_head hc word n)) h

theorem Spaced.mark {c : Char} (hc : c ∈ ['[', ']', '{', '}', ',', ':']) {text : List Char}
    {lexemes : List (List Char)} (h : Spaced lexemes text) :
    Spaced ([c] :: lexemes) (c :: text) := by
  have hstart : ¬ (c = '-' ∨ c.isDigit) := by
    simp only [List.mem_cons, List.not_mem_nil, or_false] at hc
    rcases hc with rfl | rfl | rfl | rfl | rfl | rfl
    all_goals decide
  exact .lexeme (.punctuation hc) hstart h

theorem Spaced.string {body text : List Char} {lexemes : List (List Char)} (hbody : StringText body)
    (h : Spaced lexemes text) :
    Spaced (('"' :: (body ++ ['"'])) :: lexemes) ('"' :: (body ++ '"' :: text)) := by
  have hspaced := Spaced.lexeme (.string hbody) (by decide) h
  rwa [List.append_assoc, List.singleton_append] at hspaced

mutual

/-- What the grammar writes is lexemes with blanks. -/
theorem exists_spaced_text {tree : Tree} {text rest : List Char} (h : tree.Text text)
    (hrest : ∀ n, tree = .number n → Numeral.Ends rest) {later : List (List Char)}
    (hlater : Spaced later rest) : ∃ lexemes, Spaced lexemes (text ++ rest) := by
  cases h with
  | null => exact ⟨_, .lexeme .null (by decide) hlater⟩
  | true => exact ⟨_, .lexeme .true (by decide) hlater⟩
  | false => exact ⟨_, .lexeme .false (by decide) hlater⟩
  | number hnumber =>
    exact ⟨_, .bare (.number hnumber) (fun _ _ => hrest _ rfl) hlater⟩
  | string hbody =>
    simp only [List.cons_append, List.append_assoc, List.nil_append]
    exact ⟨_, hlater.string hbody⟩
  | emptyList hblanks =>
    simp only [List.cons_append, List.append_assoc, List.nil_append]
    exact ⟨_, ((hlater.mark (by decide)).blank hblanks).mark (by decide)⟩
  | list hitems =>
    obtain ⟨lexemes, hspaced⟩ := exists_spaced_itemsText hitems hlater
    simp only [List.cons_append, List.append_assoc, List.nil_append]
    exact ⟨_, hspaced.mark (by decide)⟩
  | emptyObject hblanks =>
    simp only [List.cons_append, List.append_assoc, List.nil_append]
    exact ⟨_, ((hlater.mark (by decide)).blank hblanks).mark (by decide)⟩
  | object hmembers =>
    obtain ⟨lexemes, hspaced⟩ := exists_spaced_membersText hmembers hlater
    simp only [List.cons_append, List.append_assoc, List.nil_append]
    exact ⟨_, hspaced.mark (by decide)⟩

theorem exists_spaced_itemsText {items : List Tree} {text rest : List Char}
    (h : ItemsText items text) {later : List (List Char)} (hlater : Spaced later rest) :
    ∃ lexemes, Spaced lexemes (text ++ ']' :: rest) := by
  cases h with
  | last hbefore htext hafter =>
    have hclosed := (hlater.mark (by decide : ']' ∈ _)).blank hafter
    obtain ⟨lexemes, hspaced⟩ := exists_spaced_text htext
      (fun _ _ => ends_separator hafter (by decide) rest) hclosed
    simp only [List.append_assoc]
    exact ⟨_, hspaced.blank hbefore⟩
  | @next _ _ _ more _ _ hbefore htext hafter hmore =>
    obtain ⟨_, hmore⟩ := exists_spaced_itemsText hmore hlater
    have hnext := (hmore.mark (by decide : ',' ∈ _)).blank hafter
    obtain ⟨lexemes, hspaced⟩ := exists_spaced_text htext
      (fun _ _ => ends_separator hafter (by decide) (more ++ ']' :: rest)) hnext
    simp only [List.append_assoc, List.cons_append]
    exact ⟨_, hspaced.blank hbefore⟩

theorem exists_spaced_membersText {members : List (List Char × Tree)} {text rest : List Char}
    (h : MembersText members text) {later : List (List Char)} (hlater : Spaced later rest) :
    ∃ lexemes, Spaced lexemes (text ++ '}' :: rest) := by
  cases h with
  | last hbefore hkey hbetween hmiddle htext hafter =>
    have hclosed := (hlater.mark (by decide : '}' ∈ _)).blank hafter
    obtain ⟨lexemes, hvalue⟩ := exists_spaced_text htext
      (fun _ _ => ends_separator hafter (by decide) rest) hclosed
    have hcolon := ((hvalue.blank hmiddle).mark (by decide : ':' ∈ _)).blank hbetween
    simp only [List.append_assoc, List.cons_append]
    exact ⟨_, (hcolon.string hkey).blank hbefore⟩
  | @next _ _ _ _ _ _ more _ _ hbefore hkey hbetween hmiddle htext hafter hmore =>
    obtain ⟨_, hmore⟩ := exists_spaced_membersText hmore hlater
    have hnext := (hmore.mark (by decide : ',' ∈ _)).blank hafter
    obtain ⟨lexemes, hvalue⟩ := exists_spaced_text htext
      (fun _ _ => ends_separator hafter (by decide) (more ++ '}' :: rest)) hnext
    have hcolon := ((hvalue.blank hmiddle).mark (by decide : ':' ∈ _)).blank hbetween
    simp only [List.append_assoc, List.cons_append]
    exact ⟨_, (hcolon.string hkey).blank hbefore⟩

end

/-- Every text that holds a value is lexemes with blanks. -/
theorem exists_spaced {tree : Tree} {text : List Char} (h : IsText tree text) :
    ∃ lexemes, Spaced lexemes text := by
  obtain ⟨hbefore, htext, hafter⟩ := h
  obtain ⟨lexemes, hspaced⟩ :=
    exists_spaced_text htext (fun _ _ => ends_of_isBlank hafter) (.nil hafter)
  exact ⟨lexemes, hspaced.blank hbefore⟩

/-- Blanks may be put before any text that holds a value. -/
theorem IsText.respaced_blank {tree : Tree} {text blanks : List Char} (h : IsText tree text)
    (hblanks : IsBlank blanks) : Respaced text (blanks ++ text) := by
  obtain ⟨lexemes, hspaced⟩ := exists_spaced h
  exact ⟨lexemes, hspaced, hspaced.blank hblanks⟩

/-! ## Tokens -/

/-- Tokens that are the same but for what is noted to lie beyond a string. -/
inductive Alike : Token → Token → Prop
  | same {token : Token} : Alike token token
  | string {body : List Char} {beyond beyond' : Nat} :
    Alike (.string ⟨body, true, beyond⟩) (.string ⟨body, true, beyond'⟩)

theorem Alike.symm {token token' : Token} (h : Alike token token') : Alike token' token := by
  cases h with
  | same => exact .same
  | string => exact .string

theorem Alike.trans {token token' token'' : Token} (h : Alike token token')
    (h' : Alike token' token'') : Alike token token'' := by
  cases h with
  | same => exact h'
  | string =>
    cases h' with
    | same => exact .string
    | string => exact .string

/-- A lexeme is one token, whatever follows that no number goes on with. -/
theorem exists_token_of_lexeme {lexeme : List Char} (h : Lexeme lexeme) :
    ∃ token, ∀ rest, (∀ n : Numeral, n.Text lexeme → Numeral.Ends rest) →
      ∃ token', Alike token token' ∧ tokens (lexeme ++ rest) = token' :: tokens rest := by
  cases h with
  | @punctuation c hc =>
    have hpunctuation : ∃ token, punctuation? c = some token ∧ isSpace c = false := by
      simp only [List.mem_cons, List.not_mem_nil, or_false] at hc
      rcases hc with rfl | rfl | rfl | rfl | rfl | rfl
      all_goals exact ⟨_, rfl, rfl⟩
    obtain ⟨token, htoken, hspace⟩ := hpunctuation
    exact ⟨token, fun rest _ => ⟨token, .same, tokens_punctuation htoken hspace rest⟩⟩
  | @string body hbody =>
    refine ⟨.string ⟨body, true, 0⟩, fun rest _ => ?_⟩
    obtain ⟨beyond, htokens⟩ := exists_tokens_stringText hbody rest
    refine ⟨.string ⟨body, true, beyond⟩, .string, ?_⟩
    rw [List.cons_append, List.append_assoc, List.singleton_append]
    exact htokens
  | @number n _ hn =>
    exact ⟨.number n, fun rest hrest =>
      ⟨_, .same, tokens_numeral (Numeral.scan_of_text hn) (hrest n hn)⟩⟩
  | null => exact ⟨.literal .null, fun rest _ => ⟨_, .same, tokens_literal rfl rest⟩⟩
  | true => exact ⟨.literal (.boolean true), fun rest _ => ⟨_, .same, tokens_literal rfl rest⟩⟩
  | false => exact ⟨.literal (.boolean false), fun rest _ => ⟨_, .same, tokens_literal rfl rest⟩⟩

/-- Texts of the same lexemes have the same tokens. -/
theorem forall₂_alike_tokens {lexemes : List (List Char)} {text text' : List Char}
    (h : Spaced lexemes text) (h' : Spaced lexemes text') :
    List.Forall₂ Alike (tokens text) (tokens text') := by
  induction h generalizing text' with
  | nil hblanks =>
    cases h' with
    | nil hblanks' =>
      rw [tokens_eq_nil_iff.2 hblanks, tokens_eq_nil_iff.2 hblanks']
      exact .nil
  | cons hblanks hlexeme hends _ ih =>
    cases h' with
    | cons hblanks' _ hends' hlater' =>
      obtain ⟨token, htoken⟩ := exists_token_of_lexeme hlexeme
      obtain ⟨first, halike, hfirst⟩ := htoken _ hends
      obtain ⟨first', halike', hfirst'⟩ := htoken _ hends'
      rw [tokens_blank hblanks, tokens_blank hblanks', hfirst, hfirst']
      exact .cons (halike.symm.trans halike') (ih hlater')

/-! ## Nodes -/

theorem forall₂_alike_cons {token : Token} {later read : List Token}
    (h : List.Forall₂ Alike (token :: later) read)
    (htoken : ∀ s, token ≠ .string s) :
    ∃ later', read = token :: later' ∧ List.Forall₂ Alike later later' := by
  cases h with
  | cons halike hlater =>
    cases halike with
    | same => exact ⟨_, rfl, hlater⟩
    | string => exact absurd rfl (htoken _)

theorem forall₂_alike_string {body : List Char} {beyond : Nat} {later read : List Token}
    (h : List.Forall₂ Alike (.string ⟨body, true, beyond⟩ :: later) read) :
    ∃ beyond' later', read = .string ⟨body, true, beyond'⟩ :: later' ∧
      List.Forall₂ Alike later later' := by
  cases h with
  | cons halike hlater =>
    cases halike with
    | same => exact ⟨_, _, rfl, hlater⟩
    | string => exact ⟨_, _, rfl, hlater⟩

mutual

/-- The node of a tree can be given other notes on what lies beyond its strings. -/
theorem exists_shows_of_alike {node : Node} {tree : Tree} (h : Shows node tree)
    {later read : List Token} (hread : List.Forall₂ Alike (node.tokens ++ later) read) :
    ∃ node' later', Shows node' tree ∧ read = node'.tokens ++ later' ∧
      List.Forall₂ Alike later later' := by
  cases h with
  | null =>
    obtain ⟨later', rfl, hlater⟩ := forall₂_alike_cons hread nofun
    exact ⟨_, later', .null, rfl, hlater⟩
  | boolean =>
    obtain ⟨later', rfl, hlater⟩ := forall₂_alike_cons hread nofun
    exact ⟨_, later', .boolean, rfl, hlater⟩
  | number =>
    obtain ⟨later', rfl, hlater⟩ := forall₂_alike_cons hread nofun
    exact ⟨_, later', .number, rfl, hlater⟩
  | string hbody =>
    obtain ⟨beyond', later', rfl, hlater⟩ := forall₂_alike_string hread
    exact ⟨.string ⟨_, true, beyond'⟩, later', .string hbody, rfl, hlater⟩
  | @list nodes items hitems =>
    rw [Node.tokens, List.cons_append, List.append_assoc] at hread
    obtain ⟨inner, rfl, hinner⟩ := forall₂_alike_cons hread nofun
    cases nodes with
    | nil =>
      cases hitems
      obtain ⟨later', rfl, hlater⟩ := forall₂_alike_cons hinner nofun
      exact ⟨_, later', .list .nil, rfl, hlater⟩
    | cons node nodes =>
      obtain ⟨nodes', later', hnodes', rfl, hlater⟩ :=
        exists_showsItems_of_alike hitems (List.cons_ne_nil _ _) hinner
      exact ⟨.list nodes' .closed, later', .list hnodes', by simp [Node.tokens], hlater⟩
  | @object nodes members hmembers =>
    rw [Node.tokens, List.cons_append, List.append_assoc] at hread
    obtain ⟨inner, rfl, hinner⟩ := forall₂_alike_cons hread nofun
    cases nodes with
    | nil =>
      cases hmembers
      obtain ⟨later', rfl, hlater⟩ := forall₂_alike_cons hinner nofun
      exact ⟨_, later', .object .nil, rfl, hlater⟩
    | cons node nodes =>
      obtain ⟨nodes', later', hnodes', rfl, hlater⟩ :=
        exists_showsMembers_of_alike hmembers (List.cons_ne_nil _ _) hinner
      exact ⟨.object nodes' .closed, later', .object hnodes', by simp [Node.tokens], hlater⟩

theorem exists_showsItems_of_alike {nodes : List Node} {items : List Tree}
    (h : ShowsItems nodes items) (hne : nodes ≠ []) {later read : List Token}
    (hread : List.Forall₂ Alike
      ([Token.comma].intercalate (partsOfItems nodes) ++ ([.closeBracket] ++ later)) read) :
    ∃ nodes' later', ShowsItems nodes' items ∧
      read = [Token.comma].intercalate (partsOfItems nodes') ++ ([.closeBracket] ++ later') ∧
      List.Forall₂ Alike later later' := by
  cases h with
  | nil => exact absurd rfl hne
  | @cons node item nodes items hnode hnodes =>
    rw [partsOfItems] at hread
    cases nodes with
    | nil =>
      cases hnodes
      rw [partsOfItems, List.intercalate_singleton] at hread
      obtain ⟨node', _, hnode', rfl, hclose⟩ := exists_shows_of_alike hnode hread
      obtain ⟨later', rfl, hlater⟩ := forall₂_alike_cons hclose nofun
      refine ⟨[node'], later', .cons hnode' .nil, ?_, hlater⟩
      rw [partsOfItems, partsOfItems, List.intercalate_singleton]
      rfl
    | cons next nodes =>
      rw [partsOfItems, List.intercalate_cons_cons, ← partsOfItems, List.append_assoc,
        List.append_assoc] at hread
      obtain ⟨node', _, hnode', rfl, hcomma⟩ := exists_shows_of_alike hnode hread
      obtain ⟨_, rfl, hrest⟩ := forall₂_alike_cons hcomma nofun
      obtain ⟨nodes', later', hnodes', rfl, hlater⟩ :=
        exists_showsItems_of_alike hnodes (List.cons_ne_nil _ _) hrest
      refine ⟨node' :: nodes', later', .cons hnode' hnodes', ?_, hlater⟩
      cases hnodes' with
      | nil => cases hnodes
      | cons _ _ => simp [partsOfItems, List.intercalate_cons_cons]

theorem exists_showsMembers_of_alike {nodes : List (RawString × Node)}
    {members : List (List Char × Tree)} (h : ShowsMembers nodes members) (hne : nodes ≠ [])
    {later read : List Token}
    (hread : List.Forall₂ Alike
      ([Token.comma].intercalate (partsOfMembers nodes) ++ ([.closeBrace] ++ later)) read) :
    ∃ nodes' later', ShowsMembers nodes' members ∧
      read = [Token.comma].intercalate (partsOfMembers nodes') ++ ([.closeBrace] ++ later') ∧
      List.Forall₂ Alike later later' := by
  cases h with
  | nil => exact absurd rfl hne
  | @cons key beyond node value nodes members hkey hnode hnodes =>
    rw [partsOfMembers] at hread
    cases nodes with
    | nil =>
      cases hnodes
      rw [partsOfMembers, List.intercalate_singleton, List.cons_append, List.cons_append] at hread
      obtain ⟨beyond', _, rfl, hcolon⟩ := forall₂_alike_string hread
      obtain ⟨_, rfl, hvalue⟩ := forall₂_alike_cons hcolon nofun
      obtain ⟨node', _, hnode', rfl, hclose⟩ := exists_shows_of_alike hnode hvalue
      obtain ⟨later', rfl, hlater⟩ := forall₂_alike_cons hclose nofun
      refine ⟨[(⟨key, true, beyond'⟩, node')], later', .cons hkey hnode' .nil, ?_, hlater⟩
      rw [partsOfMembers, partsOfMembers, List.intercalate_singleton]
      rfl
    | cons next nodes =>
      rw [partsOfMembers, List.intercalate_cons_cons, ← partsOfMembers, List.append_assoc,
        List.append_assoc, List.cons_append, List.cons_append] at hread
      obtain ⟨beyond', _, rfl, hcolon⟩ := forall₂_alike_string hread
      obtain ⟨_, rfl, hvalue⟩ := forall₂_alike_cons hcolon nofun
      obtain ⟨node', _, hnode', rfl, hcomma⟩ := exists_shows_of_alike hnode hvalue
      obtain ⟨_, rfl, hrest⟩ := forall₂_alike_cons hcomma nofun
      obtain ⟨nodes', later', hnodes', rfl, hlater⟩ :=
        exists_showsMembers_of_alike hnodes (List.cons_ne_nil _ _) hrest
      refine ⟨(⟨key, true, beyond'⟩, node') :: nodes', later', .cons hkey hnode' hnodes', ?_,
        hlater⟩
      cases hnodes' with
      | nil => cases hnodes
      | cons _ _ _ => simp [partsOfMembers, List.intercalate_cons_cons]

end

/-- Other blanks between its lexemes leave a text the value that it holds. -/
theorem IsText.of_respaced {tree : Tree} {text text' : List Char} (h : IsText tree text)
    (hspaces : Respaced text text') : IsText tree text' := by
  obtain ⟨lexemes, hspaced, hspaced'⟩ := hspaces
  obtain ⟨node, houtline, hnode⟩ := isText_iff.1 h
  have hstart : (State.value []).HasRead [] := rfl
  have htokens := (hstart.foldl (tokens text)).eq_tokens houtline hnode
  have halike := forall₂_alike_tokens hspaced hspaced'
  rw [List.nil_append, ← List.append_nil (tokens text)] at htokens
  rw [← List.append_nil (tokens text), htokens, ← List.append_nil node.tokens] at halike
  obtain ⟨node', later, hnode', hread, hlater⟩ := exists_shows_of_alike hnode halike
  cases hlater
  obtain ⟨before, used, after, hbefore, hused, rfl, hafter⟩ := exists_text_of_tokens hnode' hread
  exact ⟨hbefore, hused, tokens_eq_nil_iff.1 hafter⟩

end Json
end StringReport
