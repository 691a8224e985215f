import Stencil.Proofs.Token.Word

/-! The tokens of a text that is put together from the texts of tokens.

The text of a token reads as that token, whatever follows, unless what follows would go
on with it.
-/

set_option autoImplicit false

namespace Stencil

/-- Items that come before those of a reading. -/
def Reading.prepend {α ε : Type} (items : List α) (reading : Reading α ε) : Reading α ε :=
  { reading with items := items ++ reading.items }

namespace Token

open Text (isBlank trimStart takeWhile_append_of_stop dropWhile_append_of_stop)

/-- The tokens of a text, which may begin with blanks. -/
def lex (text : List Char) : Reading Token SyntaxError :=
  readAll (trimStart text)

@[simp] theorem lex_nil : lex [] = .nil := by
  rw [lex, trimStart, List.dropWhile_nil, readAll]

theorem lex_blank {c : Char} (blank : isBlank c = true) (rest : List Char) : lex (c :: rest) = lex rest := by
  rw [lex, trimStart, List.dropWhile_cons_of_pos blank]
  rfl

theorem lex_blanks {blanks : List Char} (areBlank : ∀ c ∈ blanks, isBlank c = true)
    (rest : List Char) : lex (blanks ++ rest) = lex rest := by
  induction blanks with
  | nil => rfl
  | cons c blanks ih =>
      obtain ⟨blank, areBlank⟩ := List.forall_mem_cons.1 areBlank
      rw [List.cons_append, lex_blank blank, ih areBlank]

@[simp] theorem lex_space (rest : List Char) : lex (' ' :: rest) = lex rest :=
  lex_blank rfl rest

theorem readAll_of_read {first : Char} {rest after : List Char} {token : Token}
    (found : read first rest = .ok (token, after)) :
    readAll (first :: rest) = (lex after).cons token := by
  rw [readAll]
  split
  · rename_i failed
    cases found.symm.trans failed
  · rename_i read
    cases found.symm.trans read
    rfl

theorem lex_of_read {first : Char} {rest after : List Char} {token : Token}
    (dark : isBlank first = false) (found : read first rest = .ok (token, after)) :
    lex (first :: rest) = (lex after).cons token := by
  rw [← readAll_of_read found, lex, trimStart, List.dropWhile_cons_of_neg (by simp [dark])]

/-- A first token is read at the first character that is not blank. -/
theorem exists_read_of_lex {text : List Char} {token : Token} {tokens : List Token}
    (head : (lex text).items = token :: tokens) :
    ∃ first rest after, trimStart text = first :: rest ∧ read first rest = .ok (token, after) ∧
      lex text = (lex after).cons token := by
  rw [lex] at head ⊢
  cases same : trimStart text with
  | nil => 
      rw [same, readAll] at head
      cases head
  | cons first rest =>
      rw [same] at head
      cases found : read first rest with
      | error fault =>
          rw [readAll] at head
          split at head
          · cases head
          · rename_i read
            cases found.symm.trans read
      | ok pair =>
          obtain ⟨other, after⟩ := pair
          rw [readAll_of_read found] at head ⊢
          cases head
          exact ⟨first, rest, after, rfl, found, rfl⟩

theorem valid_of_mem_readAll (text : List Char) : ∀ token ∈ (readAll text).items, token.Valid := by
  fun_induction readAll text with
  | case1 => intro token member; cases member
  | case2 first rest fault failed => intro token member; cases member
  | case3 first rest token after found shorter ih =>
      intro other member
      rcases List.mem_cons.1 member with rfl | later
      · exact valid_of_read found
      · exact ih other later

/-- A first token whose text stands at the beginning leaves what follows its text. -/
theorem lex_of_head {c : Char} {word rest : List Char} {token : Token} {tokens : List Token}
    (dark : isBlank c = false) (head : (lex (c :: word ++ rest)).items = token :: tokens)
    (written : token.raw.toList = c :: word) :
    lex (c :: word ++ rest) = (lex rest).cons token := by
  obtain ⟨first, others, after, start, found, same⟩ := exists_read_of_lex head
  have trimmed : trimStart (c :: word ++ rest) = c :: word ++ rest := by
    rw [trimStart, List.cons_append, List.dropWhile_cons_of_neg (by simp [dark])]
  have whole := read_append found
  rw [written, ← start, trimmed, List.append_cancel_left_eq] at whole
  rw [same, whole]

theorem lex_of_word {word rest : List Char} (isWord : isWord word = true) {token : Token}
    {tokens : List Token} (head : (lex (word ++ rest)).items = token :: tokens)
    (written : token.raw.toList = word) : lex (word ++ rest) = (lex rest).cons token := by
  obtain ⟨c, more, rfl, proper⟩ := exists_cons_of_isWord isWord
  exact lex_of_head (isBlank_of_isNameChar proper) head written

theorem read_of_isNameStart {c : Char} (start : isNameStart c = true) (rest : List Char) :
    read c rest = .ok (.identifier (String.ofList ((c :: rest).takeWhile isNameChar)),
      (c :: rest).dropWhile isNameChar) := by
  have noAlias : c ≠ '#' := ne_of_isNameStart start rfl
  have noAttribute : c ≠ '@' := ne_of_isNameStart start rfl
  have double : c ≠ '"' := ne_of_isNameStart start rfl
  have single : c ≠ '\'' := ne_of_isNameStart start rfl
  have digit := isDigit_of_isNameStart start
  simp only [read, noAlias, noAttribute, double, single, digit, start, if_false, if_true,
    decide_false, Bool.or_false, Bool.false_eq_true]

theorem read_of_isDigit {c : Char} (digit : c.isDigit = true) (rest : List Char) :
    read c rest = .ok (.number (String.ofList (readNumber (c :: rest)).1),
      (readNumber (c :: rest)).2) := by
  have noAlias : c ≠ '#' := by rintro rfl; cases digit
  have noAttribute : c ≠ '@' := by rintro rfl; cases digit
  have double : c ≠ '"' := by rintro rfl; cases digit
  have single : c ≠ '\'' := by rintro rfl; cases digit
  simp only [read, noAlias, noAttribute, double, single, digit, if_false, if_true,
    decide_false, Bool.or_false, Bool.false_eq_true]

/-- The first character decides how a token is read. -/
theorem Lexed.read_eq {first : Char} {rest after : List Char} {token : Token}
    (lexed : Lexed first rest token after) : read first rest = .ok (token, after) := by
  cases lexed with
  | aliasName sigil named =>
      subst sigil
      exact named
  | attributeName sigil named =>
      subst sigil
      exact named
  | string isQuote inside =>
      rcases isQuote with rfl | rfl
      all_goals
        simp only [read]
        rw [if_neg (by decide), if_neg (by decide), if_pos (by decide), inside]
  | number digit run => rw [read_of_isDigit digit, run]
  | identifier start run ends => rw [read_of_isNameStart start, run, ends]
  | punct other digit start matched =>
      simp only [List.mem_cons, List.not_mem_nil, or_false, not_or] at other
      obtain ⟨noAlias, noAttribute, double, single⟩ := other
      simp only [read, noAlias, noAttribute, double, single, digit, start, matched, if_false,
        decide_false, Bool.or_false, Bool.false_eq_true]

theorem lex_identifier {name : String} (isName : isName name.toList = true) {rest : List Char}
    (stop : ∀ c ∈ rest.head?, isNameChar c = false) :
    lex (name.toList ++ rest) = (lex rest).cons (.identifier name) := by
  cases same : name.toList with
  | nil =>
      rw [same] at isName
      cases isName
  | cons c others =>
      rw [same] at isName
      obtain ⟨start, all⟩ := Bool.and_eq_true_iff.1 isName
      have all : ∀ d ∈ c :: others, isNameChar d = true :=
        List.forall_mem_cons.2 ⟨isNameChar_of_isNameStart start, List.all_eq_true.1 all⟩
      refine lex_of_read (isBlank_of_isNameChar (isNameChar_of_isNameStart start)) ?_
      have run := takeWhile_append_of_stop all stop
      have after := dropWhile_append_of_stop all stop
      rw [List.append_eq, read_of_isNameStart start, ← List.cons_append, run, after, ← same,
        String.ofList_toList]

theorem readSigil_of_stop (make : String → Token) (sigil : Char) {name : String}
    (named : IsSigilName name.toList) {rest : List Char}
    (stop : ∀ c ∈ rest.head?, isNameChar c = false) :
    readSigil make sigil (name.toList ++ rest) = .ok (make name, rest) := by
  have filled : name.toList.isEmpty = false := by simpa using named.1
  simp only [readSigil, takeWhile_append_of_stop named.2 stop, dropWhile_append_of_stop named.2 stop,
    filled, Bool.false_eq_true, if_false, String.ofList_toList]

theorem lex_aliasName {name : String} (named : IsSigilName name.toList) {rest : List Char}
    (stop : ∀ c ∈ rest.head?, isNameChar c = false) :
    lex ((Token.aliasName name).raw.toList ++ rest) = (lex rest).cons (.aliasName name) := by
  rw [raw, String.toList_append, List.append_assoc]
  exact lex_of_read rfl (readSigil_of_stop .aliasName '#' named stop)

theorem lex_attributeName {name : String} (named : IsSigilName name.toList) {rest : List Char}
    (stop : ∀ c ∈ rest.head?, isNameChar c = false) :
    lex ((Token.attributeName name).raw.toList ++ rest) = (lex rest).cons (.attributeName name) := by
  rw [raw, String.toList_append, List.append_assoc]
  exact lex_of_read rfl (readSigil_of_stop .attributeName '@' named stop)

theorem lex_numeral {numeral : Numeral} {rest : List Char} (ends : EndsNumeral numeral rest) :
    lex (numeral.text ++ rest) = (lex rest).cons (.number (String.ofList numeral.text)) := by
  have found := readNumber_append_of_ends ends
  obtain ⟨c, others, same, digit⟩ := numeral.exists_cons
  rw [same] at found ⊢
  refine lex_of_read (isBlank_of_isNameChar (isNameChar_of_isDigit digit)) ?_
  rw [List.append_eq, read_of_isDigit digit, ← List.cons_append, found]

/-- Symbols that a further equality sign would make into a longer one. -/
def extensible : List Punct :=
  [.not, .less, .greater, .equal, .notEqual]

theorem read?_symbol_append {punct : Punct} {rest : List Char}
    (stop : punct ∈ extensible → ∀ c ∈ rest.head?, c ≠ '=') :
    Punct.read? (punct.symbol ++ rest) = some (punct, rest) := by
  cases rest with
  | nil => cases punct <;> rfl
  | cons c rest =>
      have stop := fun among => stop among c rfl
      cases punct with
      | not | less | greater | equal | notEqual =>
          have other := (stop (by decide)).symm
          simp [Punct.read?, Punct.all, Punct.symbol, Text.strip?, other]
      | _ => simp [Punct.read?, Punct.all, Punct.symbol, Text.strip?]

theorem lex_punct {punct : Punct} {rest : List Char}
    (stop : punct ∈ extensible → ∀ c ∈ rest.head?, c ≠ '=') :
    lex (punct.symbol ++ rest) = (lex rest).cons (.punct punct) := by
  have found := read?_symbol_append stop
  obtain ⟨c, others, same, dark, other, digit, start⟩ : ∃ c others, punct.symbol = c :: others ∧
      isBlank c = false ∧ c ∉ ['#', '@', '"', '\''] ∧ c.isDigit = false ∧ isNameStart c = false := by
    cases punct <;> exact ⟨_, _, rfl, rfl, by decide, rfl, rfl⟩
  rw [same, List.cons_append] at found ⊢
  exact lex_of_read dark (Lexed.punct other digit start found).read_eq

theorem lex_mark (punct : Punct) (whole : punct ∉ extensible) (rest : List Char) :
    lex (punct.symbol ++ rest) = (lex rest).cons (.punct punct) :=
  lex_punct fun member => absurd member whole

end Token

end Stencil
