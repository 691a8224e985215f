import Stencil.Proofs.Marks.Opener

/-! Value words before a path.

Each of them leaves its own mark, whatever stands around it. Only two of them contradict each
other, and of these the last one counts.
-/

set_option autoImplicit false

namespace Stencil

namespace ValueWord

variable {words : List (ValueWord × List Char)} {path : List Char}

/-- Words, each with the blanks after it, and then a path. -/
def spell (words : List (ValueWord × List Char)) (path : List Char) : List Char :=
  words.foldr (fun word rest => word.1.symbol ++ (word.2 ++ rest)) path

/-- A blank stands after every word, or more of them. -/
def Spaced (words : List (ValueWord × List Char)) : Prop :=
  ∀ word ∈ words, word.2 ≠ [] ∧ ∀ c ∈ word.2, Text.isBlank c = true

/-- A trimmed path that begins with no value word of its own. -/
structure PlainPath (path : List Char) : Prop where
  filled : path ≠ []
  trimmed : Text.Trimmed path
  plain : ∀ (word : ValueWord) (rest : List Char), ¬ Text.Leads word.symbol path rest

/-- Without both of them, the two words on binding need no order. -/
theorem lastBinding?_of_single {words : List ValueWord} (single : ¬ (.bound ∈ words ∧ .unbound ∈ words)) :
    lastBinding? words =
      if .bound ∈ words then some .bound else if .unbound ∈ words then some .unbound else none := by
  cases last : lastBinding? words with
  | none =>
      have silent (word : ValueWord) (member : word ∈ words) : word.binding? = none :=
        List.findSome?_eq_none_iff.1 last word (List.mem_reverse.2 member)
      have noBound : .bound ∉ words := fun member => nomatch silent .bound member
      have noUnbound : .unbound ∉ words := fun member => nomatch silent .unbound member
      rw [if_neg noBound, if_neg noUnbound]
  | some binding =>
      obtain ⟨word, member, spoken⟩ := List.exists_of_findSome?_eq_some last
      rw [List.mem_reverse] at member
      cases word with
      | bound =>
          rw [if_pos member]
          exact spoken.symm
      | unbound =>
          rw [if_neg fun bound => single ⟨bound, member⟩, if_pos member]
          exact spoken.symm
      | view | unescaped => cases spoken

theorem marksOf_perm {first second : List ValueWord} (perm : second.Perm first)
    (single : ¬ (.bound ∈ first ∧ .unbound ∈ first)) (source other : String) :
    marksOf other second = { marksOf source first with source := other } := by
  have same (word : ValueWord) : word ∈ second ↔ word ∈ first := perm.mem_iff
  have also : ¬ (.bound ∈ second ∧ .unbound ∈ second) := by rwa [same, same]
  simp only [marksOf, Marks.plain, lastBinding?_of_single single, lastBinding?_of_single also, same]

/-- A value word with a blank after it is read as this word. -/
theorem read?_symbol {blank : Char} (isBlank : Text.isBlank blank = true) (word : ValueWord)
    (rest : List Char) : read? (word.symbol ++ blank :: rest) = some (word, Text.trimStart rest) := by
  cases word <;> simp [read?, all, symbol, Text.afterWord?, Text.strip?, isBlank]

theorem head?_symbol_append (word : ValueWord) (rest : List Char) :
    ∀ c ∈ (word.symbol ++ rest).head?, Text.isBlank c = false := by
  cases word <;> simp [symbol, Text.isBlank]

theorem head?_spell (proper : PlainPath path) :
    ∀ c ∈ (spell words path).head?, Text.isBlank c = false := by
  cases words with
  | nil => exact proper.trimmed.begins
  | cons word words => exact head?_symbol_append word.1 (word.2 ++ spell words path)

theorem trimmed_spell (proper : PlainPath path) : Text.Trimmed (spell words path) := by
  refine ⟨head?_spell proper, ?_⟩
  -- The last character is that of the path, however many words stand before it.
  have ends : ∃ front, spell words path = front ++ path := by
    induction words with
    | nil => exact ⟨[], rfl⟩
    | cons word words ih =>
        obtain ⟨front, same⟩ := ih
        refine ⟨word.1.symbol ++ (word.2 ++ front), ?_⟩
        simp only [spell, List.foldr_cons, ← same, List.append_assoc]
  obtain ⟨front, same⟩ := ends
  rw [same, List.getLast?_append_of_ne_nil _ proper.filled]
  exact proper.trimmed.ends

theorem exists_spell_eq (some : words ≠ []) (spaced : Spaced words) (path : List Char) :
    ∃ (word : ValueWord) (blank : Char) (rest : List Char),
      spell words path = word.symbol ++ blank :: rest ∧ Text.isBlank blank = true := by
  obtain ⟨⟨word, blanks⟩, words, rfl⟩ := List.exists_cons_of_ne_nil some
  obtain ⟨filled, areBlank⟩ := spaced _ List.mem_cons_self
  obtain ⟨blank, blanks, rfl⟩ := List.exists_cons_of_ne_nil filled
  exact ⟨word, blank, blanks ++ spell words path, rfl, areBlank blank List.mem_cons_self⟩

/-- The words that are read are those that stand before the path. -/
theorem readAll_spell (spaced : Spaced words) (proper : PlainPath path) :
    readAll (spell words path) = (words.map (·.1), path) := by
  induction words with
  | nil =>
      refine readAll_of_none (read?_eq_none fun word _ => ?_)
      rw [Option.eq_none_iff_forall_ne_some]
      exact fun rest found => proper.plain word rest (Text.leads_iff.2 found)
  | cons word words ih =>
      obtain ⟨⟨some, areBlank⟩, later⟩ := List.forall_mem_cons.1 spaced
      obtain ⟨word, blanks⟩ := word
      cases blanks with
      | nil => exact absurd rfl some
      | cons blank blanks =>
          obtain ⟨first, others⟩ := List.forall_mem_cons.1 areBlank
          have rest : Text.trimStart (blanks ++ spell words path) = spell words path :=
            Text.dropWhile_append_of_stop others (head?_spell proper)
          have found : read? (spell ((word, blank :: blanks) :: words) path) =
              Option.some (word, spell words path) := by
            rw [← rest]
            exact read?_symbol first word (blanks ++ spell words path)
          rw [readAll_of_some found, ih later]
          rfl

end ValueWord

namespace Marks

open ValueWord

variable {words : List (ValueWord × List Char)} {path : List Char}

/-- No word that opens a block begins as a value word does. -/
theorem firstWord?_symbol {blank : Char} (word : ValueWord) (rest : List Char) :
    Text.firstWord? BlockMap.builtins.openers (word.symbol ++ blank :: rest) = none := by
  have apart : ∀ opener ∈ BlockMap.words.map (·.1), ¬ word.symbol <+: opener.toList := by
    cases word <;> decide
  have dark : word.symbol.any Text.isBlank = false := by cases word <;> decide
  rw [BlockMap.openers_builtins]
  refine Text.firstWord?_eq_none fun opener member => ?_
  refine Text.afterWord?_eq_none_of_apart dark (fun same => apart opener member ?_)
    (fun begins => apart opener member ((List.prefix_append _ _).trans begins)) rest
  rw [same]

theorem read_spell (some : words ≠ []) (spaced : Spaced words) (proper : PlainPath path) :
    read BlockMap.builtins.openers (spell words path) =
      (marksOf (String.ofList (spell words path)) (words.map (·.1)), path) := by
  obtain ⟨word, blank, rest, begins, isBlank⟩ := exists_spell_eq some spaced path
  have opens : Text.firstWord? BlockMap.builtins.openers (spell words path) = none := by
    rw [begins]
    exact firstWord?_symbol word rest
  have blanks : (spell words path).any Text.isBlank = true := by simp [begins, isBlank]
  have alone := mt (List.mem_cons_of_mem "") (not_alone_of_any_isBlank blanks)
  have slash : (spell words path).head? ≠ Option.some '/' := by
    rw [begins]
    cases word <;> simp [symbol]
  rw [read_of_value opens alone slash, readAll_spell spaced proper]

end Marks

namespace Expression

open ValueWord

variable {words : List (ValueWord × List Char)} {path : List Char}

theorem yields_spell (some : words ≠ []) (spaced : Spaced words) (proper : PlainPath path) :
    Yields (parse BlockMap.builtins.openers (String.ofList (spell words path)))
      (marksOf (String.ofList (spell words path)) (words.map (·.1))) path := by
  refine yields_parse ?_ proper.filled
  rw [String.toList_ofList, Text.trim_of_trimmed (trimmed_spell proper)]
  exact Marks.read_spell some spaced proper

/-- Results of one path differ in their marks alone. -/
theorem Yields.same_path {first second : Except Failure Expression} {marks others : Marks}
    (here : Yields first marks path) (there : Yields second others path) :
    (∀ expression, first = .ok expression →
      expression.marks = marks ∧ second = .ok { expression with marks := others }) ∧
    ∀ failure, first = .error failure →
      ∃ again, second = .error again ∧ again.cause = failure.cause := by
  cases parsed : Expr.parse (String.ofList path) with
  | ok tree =>
      rw [here.tree tree parsed, there.tree tree parsed]
      constructor
      · intro expression same
        cases same
        exact ⟨rfl, rfl⟩
      · intro failure same
        cases same
  | error fault =>
      obtain ⟨failure, refused, cause, -⟩ := here.fault fault parsed
      obtain ⟨again, refusedAgain, causeAgain, -⟩ := there.fault fault parsed
      rw [refused]
      constructor
      · intro expression same
        cases same
      · intro other same
        cases same
        exact ⟨again, refusedAgain, causeAgain.trans cause.symm⟩

/-- Value words before a path leave their marks and the path its meaning. In another order they
leave the same marks, unless there are both words on binding. -/
theorem parse_spell (some : words ≠ []) (spaced : Spaced words) (proper : PlainPath path) :
    Yields (parse BlockMap.builtins.openers (String.ofList (spell words path)))
        (marksOf (String.ofList (spell words path)) (words.map (·.1))) path ∧
      ∀ others, Spaced others → (others.map (·.1)).Perm (words.map (·.1)) →
        ¬ (.bound ∈ words.map (·.1) ∧ .unbound ∈ words.map (·.1)) →
        (∀ expression,
          parse BlockMap.builtins.openers (String.ofList (spell words path)) = .ok expression →
          parse BlockMap.builtins.openers (String.ofList (spell others path)) =
            .ok { expression with
              marks := { expression.marks with source := String.ofList (spell others path) } }) ∧
        ∀ failure,
          parse BlockMap.builtins.openers (String.ofList (spell words path)) = .error failure →
          ∃ again, parse BlockMap.builtins.openers (String.ofList (spell others path)) = .error again ∧
            again.cause = failure.cause := by
  have here := yields_spell some spaced proper
  refine ⟨here, fun others apart perm single => ?_⟩
  have someOther : others ≠ [] := by
    rintro rfl
    exact some (List.map_eq_nil_iff.1 perm.symm.eq_nil)
  obtain ⟨success, failure⟩ := here.same_path (yields_spell someOther apart proper)
  refine ⟨fun expression parsed => ?_, failure⟩
  obtain ⟨same, again⟩ := success expression parsed
  rw [again, same, marksOf_perm perm single]

set_option maxRecDepth 20000 in
theorem parse_spell_card :
    let words : List (ValueWord × List Char) :=
      [(.unescaped, [' ']), (.unbound, ['\t', ' ']), (.view, ['\n'])]
    let others : List (ValueWord × List Char) :=
      [(.view, [' ']), (.unescaped, [' ']), (.unbound, [' '])]
    (words ≠ [] ∧ Spaced words ∧ PlainPath "card".toList ∧ Spaced others ∧
        (others.map (·.1)).Perm (words.map (·.1)) ∧
        ¬ (.bound ∈ words.map (·.1) ∧ .unbound ∈ words.map (·.1))) ∧
      parse BlockMap.builtins.openers "unescaped unbound\t view\ncard" =
        .ok ⟨.ofName "card",
          ⟨"unescaped unbound\t view\ncard", none, false, none, true, some .unbound, true⟩⟩ ∧
      parse BlockMap.builtins.openers "view unescaped unbound card" =
        .ok ⟨.ofName "card", ⟨"view unescaped unbound card", none, false, none, true, some .unbound, true⟩⟩ := by
  intro words others
  have some : words ≠ [] := by decide
  have spaced : Spaced words := by simp [Spaced, words, Text.isBlank]
  have apart : Spaced others := by simp [Spaced, others, Text.isBlank]
  have proper : PlainPath "card".toList := by
    refine ⟨by simp, ⟨by simp [Text.isBlank], by simp [Text.isBlank]⟩, fun word rest leads => ?_⟩
    have silent : Text.afterWord? word.symbol "card".toList = none :=
      Text.afterWord?_eq_none (by decide) word.symbol
    cases silent.symm.trans (Text.leads_iff.1 leads)
  have perm : (others.map (·.1)).Perm (words.map (·.1)) := by decide
  have single : ¬ (.bound ∈ words.map (·.1) ∧ .unbound ∈ words.map (·.1)) := by decide
  have tree : Expr.parse (String.ofList "card".toList) = .ok (.ofName "card") := by cbv
  obtain ⟨yields, reordered⟩ := parse_spell some spaced proper
  have parsed := yields.tree _ tree
  exact ⟨⟨some, spaced, proper, apart, perm, single⟩, parsed, (reordered others apart perm single).1 _ parsed⟩

end Expression

end Stencil
