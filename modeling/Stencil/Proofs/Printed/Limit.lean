import Stencil.Proofs.Grammar.Depth
import Stencil.Proofs.Printed.RoundTrip

/-! The limit of nesting, as sources meet it.

Brackets, negations and alternatives around a name are read up to some number of them, and
refused beyond it. A chain of operands is read whatever its length.
-/

set_option autoImplicit false

namespace Stencil

open Grammar Token Printed

/-- The source is refused for how deep it nests. -/
def NestsTooDeeply (text : String) : Prop :=
  ∃ error, Expr.parse text = .error error ∧
    "expression nested too deeply".toList <+: error.message.toList

/-- What derives a tree at some depth is read if the limit is no less, and refused if the
levels run out there. -/
theorem Expr.parse_at_depth {text : List Char} {tokens : List Token} {tree : Expr} {depth : Nat}
    (trimmed : Text.Trimmed text) (spelled : Spelled text tokens) (derived : DerivesWithin depth tokens tree)
    (deep : ∀ source : Source, source.fault = none → depthLimit < depth →
      RunsOut source ((source.level depthLimit).conditional tokens)) :
    (depth ≤ depthLimit → parse (String.ofList text) = .ok tree) ∧
      (depthLimit < depth → NestsTooDeeply (String.ofList text)) := by
  have read := readSource_of_spelled trimmed spelled
  have clean : (readSource (String.ofList text)).fault = none := congrArg Reading.fault read
  have items : (readSource (String.ofList text)).items = tokens :=
    (congrArg Reading.items read).trans (List.append_nil tokens)
  have found := parse_of_derivesWithin clean (items.symm ▸ derived)
  refine ⟨fun fits => found.resolve_right fun runsOut => Nat.not_lt.2 fits runsOut.1, fun beyond => ?_⟩
  have failed : parse (String.ofList text) = .error ⟨.tooDeep, String.ofList text⟩ := by
    refine found.elim (fun parsed => ?_) And.right
    -- It would also derive the tree within the limit, where the levels run out.
    let source : Source := ⟨"", none⟩
    have within := (parse_eq_ok_iff.1 parsed).2
    rw [items] at within
    have reached := sequence_reaches (show source.fault = none from rfl) within depthLimit
    have taken := reached.resolve_right fun runsOut => Nat.lt_irrefl _ runsOut.1
    rw [outcome_eq_error_iff.2 (sequence_runsOut (deep source rfl beyond))] at taken
    cases taken
  refine ⟨_, failed, ?_⟩
  rw [SyntaxError.message, String.append_assoc, String.append_assoc, String.toList_append]
  exact List.prefix_append _ _

namespace Printed

variable {name : String}

/-- A name in pairs of brackets. -/
def groupText (n : Nat) (name : String) : List Char :=
  List.replicate n '(' ++ (name.toList ++ List.replicate n ')')

theorem groupText_succ (n : Nat) (name : String) :
    groupText (n + 1) name = enclosed .openParen .closeParen (groupText n name) := by
  rw [groupText, List.replicate_succ, List.replicate_succ', groupText, enclosed]
  simp [Punct.symbol]

theorem spelled_groups (isName : isName name.toList = true) (n : Nat) :
    Spelled (groupText n name) (groupTokens n name) := by
  induction n with
  | zero => simpa [groupText, groupTokens] using spelled_name isName
  | succ n ih =>
      rw [groupText_succ, groupTokens_succ]
      exact ih.enclosed .paren

theorem shuts_name (isName : isName name.toList = true) : Shuts name.toList :=
  word_shuts (by rw [isWord, isName, Bool.true_or])

theorem trimmed_groups (isName : isName name.toList = true) (n : Nat) : Text.Trimmed (groupText n name) := by
  cases n with
  | zero => simpa [groupText] using trimmed_of_opens (name_opens isName) (shuts_name isName)
  | succ n =>
      rw [groupText_succ]
      exact trimmed_of_shuts rfl (IsBracket.shuts .paren _)

/-- A name after marks of negation. -/
def notText (n : Nat) (name : String) : List Char :=
  List.replicate n '!' ++ name.toList

theorem opens_nots (isName : isName name.toList = true) (n : Nat) : Opens (notText n name) := by
  cases n with
  | zero => exact name_opens isName
  | succ n => exact ⟨'!', _, rfl, rfl, by decide⟩

theorem spelled_nots (isName : isName name.toList = true) (n : Nat) :
    Spelled (notText n name) (notTokens n name) := by
  induction n with
  | zero => exact spelled_name isName
  | succ n ih =>
      intro rest closes
      have stop := ((opens_nots isName n).append rest).symbol
      have read : lex (Punct.not.symbol ++ (notText n name ++ rest)) = _ := lex_punct fun _ => stop
      rw [ih rest closes] at read
      exact read

/-- Tests and consequents with their marks. -/
def choicesText (choices : List (String × String)) : List Char :=
  choices.flatMap fun choice =>
    choice.1.toList ++ [' ', '?', ' '] ++ (choice.2.toList ++ [' ', ':', ' '])

def choiceText (choices : List (String × String)) (name : String) : List Char :=
  choicesText choices ++ name.toList

theorem spelled_choices {choices : List (String × String)} (isLast : isName name.toList = true)
    (each : ∀ choice ∈ choices, isName choice.1.toList = true ∧ isName choice.2.toList = true) :
    Spelled (choiceText choices name) (choiceTokens choices ++ [.identifier name]) := by
  induction choices with
  | nil => exact spelled_name isLast
  | cons choice choices ih =>
      obtain ⟨⟨test, consequent⟩, each⟩ := List.forall_mem_cons.1 each
      intro rest closes
      have spread : choiceText (choice :: choices) name ++ rest =
          choice.1.toList ++ ' ' :: '?' :: ' ' ::
            (choice.2.toList ++ ' ' :: ':' :: ' ' :: (choiceText choices name ++ rest)) := by
        simp [choiceText, choicesText]
      rw [spread, spelled_name test _ (closes_cons (by decide) _), lex_question,
        spelled_name consequent _ (closes_cons (by decide) _), lex_otherwise, ih each rest closes]
      rfl

theorem trimmed_choices {choices : List (String × String)} (isLast : isName name.toList = true)
    (each : ∀ choice ∈ choices, isName choice.1.toList = true) :
    Text.Trimmed (choiceText choices name) := by
  refine trimmed_of_opens ?_ ((shuts_name isLast).after _)
  cases choices with
  | nil => exact name_opens isLast
  | cons choice choices =>
      have first := name_opens (each choice List.mem_cons_self)
      simpa [choiceText, choicesText] using first.append _

/-- An operand of a chain, with the mark before it and the blanks around the mark. -/
structure Link where
  before : List Char
  punct : Punct
  after : List Char
  name : String

def Link.text (link : Link) : List Char :=
  link.before ++ (link.punct.symbol ++ (link.after ++ link.name.toList))

/-- The mark is a binary operator or a comma, and the operand is a lookup. -/
structure Link.Proper (link : Link) : Prop where
  before : ∀ c ∈ link.before, Text.isBlank c = true
  mark : link.punct ∈ .comma :: Punct.levels.flatten
  after : ∀ c ∈ link.after, Text.isBlank c = true
  lookup : IsLookup link.name

instance (link : Link) : Decidable link.Proper :=
  -- Otherwise all characters there are would be tried.
  haveI : ∀ text : List Char, Decidable (∀ c ∈ text, Text.isBlank c = true) :=
    List.decidableBAll _
  decidable_of_iff ((∀ c ∈ link.before, Text.isBlank c = true) ∧
      link.punct ∈ .comma :: Punct.levels.flatten ∧ (∀ c ∈ link.after, Text.isBlank c = true) ∧
      IsLookup link.name)
    ⟨fun ⟨before, mark, after, lookup⟩ => ⟨before, mark, after, lookup⟩,
      fun proper => ⟨proper.before, proper.mark, proper.after, proper.lookup⟩⟩

def chainText (name : String) (links : List Link) : List Char :=
  name.toList ++ links.flatMap Link.text

/-- No name goes on with blanks, or with a symbol after them. -/
theorem stop_symbol {blanks : List Char} (areBlank : ∀ c ∈ blanks, Text.isBlank c = true)
    (punct : Punct) (rest : List Char) :
    ∀ c ∈ (blanks ++ (punct.symbol ++ rest)).head?, isNameChar c = false := by
  cases blanks with
  | nil => cases punct <;> exact Text.stop_cons rfl _
  | cons c blanks =>
      exact Text.stop_cons (isNameChar_of_isBlank (areBlank c List.mem_cons_self)) _

/-- No symbol goes on with blanks, or with a name after them. -/
theorem stop_name {blanks : List Char} (areBlank : ∀ c ∈ blanks, Text.isBlank c = true)
    (isName : isName name.toList = true) (rest : List Char) :
    ∀ c ∈ (blanks ++ (name.toList ++ rest)).head?, c ≠ '=' := by
  cases blanks with
  | nil => exact ((name_opens isName).append rest).symbol
  | cons c blanks =>
      rintro d here rfl
      cases here
      exact absurd (areBlank '=' List.mem_cons_self) (by decide)

/-- The marks and names of links. -/
def linkTokens (links : List Link) : List Token :=
  chainTokens (links.map fun link => (link.punct, link.name))

theorem spelled_chain {links : List Link} (isFirst : isName name.toList = true)
    (each : ∀ link ∈ links, link.Proper) :
    Spelled (chainText name links) (.identifier name :: linkTokens links) := by
  induction links generalizing name with
  | nil => simpa [chainText, linkTokens, chainTokens] using spelled_name isFirst
  | cons link links ih =>
      obtain ⟨proper, each⟩ := List.forall_mem_cons.1 each
      have isNext := proper.lookup.identifier.isName
      intro rest closes
      have spread : chainText name (link :: links) ++ rest = name.toList ++ (link.before ++
          (link.punct.symbol ++ (link.after ++ (chainText link.name links ++ rest)))) := by
        simp [chainText, Link.text]
      have symbol : ∀ c ∈ (link.after ++ (chainText link.name links ++ rest)).head?, c ≠ '=' := by
        rw [chainText, List.append_assoc]
        exact stop_name proper.after isNext _
      rw [spread, lex_identifier isFirst (stop_symbol proper.before link.punct _), lex_blanks proper.before,
        lex_punct fun _ => symbol, lex_blanks proper.after, ih isNext each rest closes]
      rfl

theorem shuts_chain {links : List Link} (isFirst : isName name.toList = true)
    (each : ∀ link ∈ links, link.Proper) : Shuts (chainText name links) := by
  induction links generalizing name with
  | nil => simpa [chainText] using shuts_name isFirst
  | cons link links ih =>
      obtain ⟨proper, each⟩ := List.forall_mem_cons.1 each
      have last := ih proper.lookup.identifier.isName each
      have spread : chainText name (link :: links) =
          name.toList ++ link.before ++ link.punct.symbol ++ link.after ++ chainText link.name links := by
        simp [chainText, Link.text]
      rw [spread]
      exact last.after _

end Printed

namespace Expr

variable {name : String}

theorem parse_groups (lookup : IsLookup name) (n : Nat) :
    (n ≤ 127 → parse (String.ofList (groupText n name)) = .ok (.ofName name)) ∧
      (127 < n → NestsTooDeeply (String.ofList (groupText n name))) := by
  have isName := lookup.identifier.isName
  have found := parse_at_depth (trimmed_groups isName n) (spelled_groups isName n)
    (derivesWithin_groups lookup.unreserved n)
    fun source whole beyond => groups_runsOut whole (Nat.le_of_lt_succ beyond) _
  simp only [depthLimit] at found
  exact ⟨fun few => found.1 (by omega), fun many => found.2 (by omega)⟩

theorem parse_nots (lookup : IsLookup name) (n : Nat) :
    (n ≤ 254 → parse (String.ofList (notText n name)) = .ok (negated n name)) ∧
      (254 < n → NestsTooDeeply (String.ofList (notText n name))) := by
  have isName := lookup.identifier.isName
  have trimmed := trimmed_of_opens (opens_nots isName n) ((shuts_name isName).after _)
  have derived : DerivesWithin (n + 2) (notTokens n name) (negated n name) :=
    .one (conditional_of_unary (unary_negated lookup.unreserved n))
  have found := parse_at_depth trimmed (spelled_nots isName n) derived fun source whole beyond =>
    conditional_runsOut (nots_runsOut whole (Nat.le_of_lt_succ (Nat.lt_of_succ_lt_succ beyond)) _)
  simp only [depthLimit] at found
  exact ⟨fun few => found.1 (by omega), fun many => found.2 (by omega)⟩

theorem parse_choices (lookup : IsLookup name) {choices : List (String × String)}
    (each : ∀ choice ∈ choices, IsLookup choice.1 ∧ IsLookup choice.2) :
    (choices.length ≤ 254 →
        parse (String.ofList (choiceText choices name)) = .ok (chosen choices name)) ∧
      (254 < choices.length → NestsTooDeeply (String.ofList (choiceText choices name))) := by
  have isName := lookup.identifier.isName
  have unreserved (choice : String × String) (among : choice ∈ choices) :=
    And.intro (each choice among).1.unreserved (each choice among).2.unreserved
  have trimmed : Text.Trimmed (choiceText choices name) :=
    trimmed_choices isName fun choice among => (each choice among).1.identifier.isName
  have spelled : Spelled (choiceText choices name) (choiceTokens choices ++ [.identifier name]) :=
    spelled_choices isName fun choice among =>
      ⟨(each choice among).1.identifier.isName, (each choice among).2.identifier.isName⟩
  have found := parse_at_depth trimmed spelled (.one (conditional_chosen lookup.unreserved unreserved))
    fun source whole beyond => choices_runsOut whole unreserved (Nat.le_of_lt_succ beyond) _
  simp only [depthLimit] at found
  exact ⟨fun few => found.1 (by omega), fun many => found.2 (by omega)⟩

theorem parse_chain (lookup : IsLookup name) {links : List Link} (each : ∀ link ∈ links, link.Proper) :
    ∃ tree, parse (String.ofList (chainText name links)) = .ok tree := by
  have isName := lookup.identifier.isName
  have trimmed : Text.Trimmed (chainText name links) :=
    trimmed_of_opens ((name_opens isName).append _) (shuts_chain isName each)
  obtain ⟨tree, derived⟩ : ∃ tree, DerivesWithin 2 ([.identifier name] ++ linkTokens links) tree := by
    refine exists_derivesWithin_chain (unary_name lookup.unreserved 0) fun link among => ?_
    obtain ⟨proper, isProper, rfl⟩ := List.mem_map.1 among
    exact ⟨(each proper isProper).mark, unary_name (each proper isProper).lookup.unreserved 0⟩
  have found := parse_at_depth trimmed (spelled_chain isName each) derived
    fun _ _ beyond => absurd beyond (by decide)
  exact ⟨tree, found.1 (by decide)⟩

/-- Brackets around a name nest to 127 pairs of them, negations and alternatives to 254, and
chains of operators and lists do not nest at all. -/
theorem nesting_limit (lookup : IsLookup name) :
    (∀ n, (n ≤ 127 → parse (String.ofList (groupText n name)) = .ok (.ofName name)) ∧
      (127 < n → NestsTooDeeply (String.ofList (groupText n name)))) ∧
    (∀ n, (n ≤ 254 → parse (String.ofList (notText n name)) = .ok (negated n name)) ∧
      (254 < n → NestsTooDeeply (String.ofList (notText n name)))) ∧
    (∀ choices : List (String × String), (∀ choice ∈ choices, IsLookup choice.1 ∧ IsLookup choice.2) →
      (choices.length ≤ 254 →
          parse (String.ofList (choiceText choices name)) = .ok (chosen choices name)) ∧
        (254 < choices.length → NestsTooDeeply (String.ofList (choiceText choices name)))) ∧
    ∀ links : List Link, (∀ link ∈ links, link.Proper) →
      ∃ tree, parse (String.ofList (chainText name links)) = .ok tree :=
  ⟨parse_groups lookup, parse_nots lookup, fun _ => parse_choices lookup, fun _ => parse_chain lookup⟩

theorem nesting_limit_name :
    let choices (n : Nat) : List (String × String) := List.replicate n ("b", "c")
    let links : List Link := [⟨[' '], .plus, [' '], "b"⟩, ⟨[], .comma, [' '], "c"⟩, ⟨[], .times, [], "d"⟩]
    IsLookup "a" ∧
      (parse (String.ofList (groupText 127 "a")) = .ok (.ofName "a") ∧
        NestsTooDeeply (String.ofList (groupText 128 "a"))) ∧
      (parse (String.ofList (notText 254 "a")) = .ok (negated 254 "a") ∧
        NestsTooDeeply (String.ofList (notText 255 "a"))) ∧
      (parse (String.ofList (choiceText (choices 254) "a")) = .ok (chosen (choices 254) "a") ∧
        NestsTooDeeply (String.ofList (choiceText (choices 255) "a"))) ∧
      ∃ tree, parse (String.ofList (chainText "a" links)) = .ok tree := by
  intro choices links
  have lookup : IsLookup "a" := by decide
  have each (n : Nat) : ∀ choice ∈ choices n, IsLookup choice.1 ∧ IsLookup choice.2 := by
    intro choice among
    rw [List.eq_of_mem_replicate among]
    exact ⟨by decide, by decide⟩
  have proper : ∀ link ∈ links, link.Proper := by decide
  obtain ⟨groups, nots, alternatives, chains⟩ := nesting_limit lookup
  refine ⟨lookup, ⟨(groups 127).1 (by decide), (groups 128).2 (by decide)⟩,
    ⟨(nots 254).1 (by decide), (nots 255).2 (by decide)⟩, ⟨?_, ?_⟩, chains links proper⟩
  · exact (alternatives _ (each 254)).1 List.length_replicate.le
  · exact (alternatives _ (each 255)).2 List.length_replicate.ge

example : String.ofList (chainText "a" [⟨[' '], .plus, [' '], "b"⟩, ⟨[], .comma, [' '], "c"⟩]) = "a + b, c" := by
  decide +kernel

end Expr

end Stencil
