import Stencil.Proofs.Printed.Shape

/-! Printed paths read back.

Names are taken up to the next mark. Only a number may go on over a point, with the
digits of the next name, so neighbouring names have to stay apart.
-/

set_option autoImplicit false

namespace Stencil.Printed

open Grammar Token

/-- What follows a path: a list of arguments, or what follows an expression. -/
def EndsPath (rest : List Char) : Prop :=
  ∀ c ∈ rest.head?, c ∈ ['(', ' ', ',', ')', ']', '}', ':']

theorem Closes.endsPath {rest : List Char} (closes : Closes rest) : EndsPath rest :=
  fun c here => List.mem_cons_of_mem _ (closes c here)

theorem EndsPath.name {rest : List Char} (ends : EndsPath rest) :
    ∀ c ∈ rest.head?, isNameChar c = false := by
  intro c here
  have plain : ['(', ' ', ',', ')', ']', '}', ':'].all (!isNameChar ·) = true := by decide
  simpa using List.all_eq_true.1 plain c (ends c here)

/-- The token of a word. -/
def wordToken (name : String) : Token :=
  if isName name.toList then .identifier name else .number name

theorem segment_word (name : String) : SegmentOf (wordToken name) name := by
  unfold wordToken
  split
  · exact .identifier
  · exact .number

theorem key_word (name : String) : KeyOf (wordToken name) name := by
  unfold wordToken
  split
  · exact .identifier
  · exact .number

/-- A word reads as one token, unless it is a number that goes on after a point. -/
theorem lex_word {name : String} (word : isWord name.toList = true) {rest : List Char}
    (stop : ∀ c ∈ rest.head?, isNameChar c = false)
    (point : name.toList.all Char.isDigit = true →
      ∀ d after, rest = '.' :: d :: after → d.isDigit = false) :
    lex (name.toList ++ rest) = (lex rest).cons (wordToken name) := by
  unfold wordToken
  split
  · rename_i named
    exact lex_identifier named stop
  · rename_i other
    obtain ⟨numeral, same⟩ := isNumeral_iff.1 ((Bool.or_eq_true_iff.1 word).resolve_left other)
    have ends : EndsNumeral numeral rest := by
      refine ⟨fun c here => ?_, fun c here mark => ?_, fun noFraction noExponent => point ?_⟩
      · rw [Bool.eq_false_iff]
        exact fun digit => absurd ((stop c here).symm.trans (isNameChar_of_isDigit digit)) (by simp)
      · rcases mark with rfl | rfl <;> exact absurd (stop _ here) (by decide)
      · rw [same]
        exact (all_isDigit_numeral numeral).2 ⟨noFraction, noExponent⟩
    rw [same, lex_numeral ends, ← same, String.ofList_toList]

theorem texts_name (name : String) (segments : List Segment) :
    (Segment.texts false (.name name :: segments)).toList =
      '.' :: (name.toList ++ (Segment.texts false segments).toList) := by
  simp [Segment.texts, Segment.text]

theorem texts_index (index : Expr) (segments : List Segment) (first : Bool) :
    (Segment.texts first (.index index :: segments)).toList =
      '[' :: (index.text.toList ++ ']' :: (Segment.texts false segments).toList) := by
  simp [Segment.texts, Segment.text]

theorem lex_dot (rest : List Char) : lex ('.' :: rest) = (lex rest).cons (.punct .dot) :=
  lex_mark .dot (by decide) rest

theorem lex_index (index : Expr) (rest : List Char) :
    lex ('[' :: (index.text.toList ++ rest)) =
      (lex (index.text.toList ++ rest)).cons (.punct .openBracket) :=
  lex_mark .openBracket (by decide) _

theorem lex_closeBracket (rest : List Char) :
    lex (']' :: rest) = (lex rest).cons (.punct .closeBracket) :=
  lex_mark .closeBracket (by decide) rest

/-- What follows a name in a path is no part of the name. -/
theorem segments_stop (segments : List Segment) {rest : List Char} (ends : EndsPath rest) :
    ∀ c ∈ ((Segment.texts false segments).toList ++ rest).head?, isNameChar c = false := by
  cases segments with
  | nil => exact ends.name
  | cons segment segments =>
      cases segment with
      | name name =>
          rw [texts_name]
          exact Text.stop_cons rfl _
      | index index =>
          rw [texts_index]
          exact Text.stop_cons rfl _

/-- A number goes on with the next name only where the two do not stay apart. -/
theorem point_of_apart {name : String} {segments : List Segment}
    (words : ∀ name, .name name ∈ segments → isWord name.toList = true)
    (apart : Segment.apart (.name name :: segments) = true) {rest : List Char} (ends : EndsPath rest)
    (digits : name.toList.all Char.isDigit = true) (d : Char) (after : List Char)
    (same : (Segment.texts false segments).toList ++ rest = '.' :: d :: after) :
    d.isDigit = false := by
  cases segments with
  | nil =>
      have here : rest = '.' :: d :: after := same
      subst here
      exact absurd (ends '.' rfl) (by decide)
  | cons segment segments =>
      cases segment with
      | index index =>
          rw [texts_index] at same
          cases same
      | name next =>
          obtain ⟨c, others, written, -⟩ := exists_cons_of_isWord (words next List.mem_cons_self)
          rw [texts_name, written] at same
          cases same
          have split := (Bool.and_eq_true_iff.1 apart).1
          simpa [joins, digits, written] using split

/-- Segments read back if their names stay apart. -/
theorem exists_segments {depth : Nat} {segments : List Segment}
    (words : ∀ name, .name name ∈ segments → isWord name.toList = true)
    (apart : Segment.apart segments = true)
    (indices : ∀ index, .index index ∈ segments → ∃ tokens,
      Spelled index.text.toList tokens ∧ SequenceOf (nested depth).conditional tokens index) :
    ∃ tokens, (∀ rest, EndsPath rest →
        lex ((Segment.texts false segments).toList ++ rest) = (lex rest).prepend tokens) ∧
      SegmentsOf (nested depth).conditional tokens segments := by
  induction segments with
  | nil => exact ⟨[], fun rest _ => rfl, .nil⟩
  | cons segment segments ih =>
      have others : ∀ name, .name name ∈ segments → isWord name.toList = true :=
        fun name among => words name (List.mem_cons_of_mem _ among)
      obtain ⟨tokens, spelled, derived⟩ := ih others (Segment.apart_tail apart)
        fun index among => indices index (List.mem_cons_of_mem _ among)
      cases segment with
      | name name =>
          refine ⟨_, fun rest ends => ?_, .name (segment_word name) derived⟩
          have read := lex_word (words name List.mem_cons_self) (segments_stop segments ends)
            (point_of_apart others apart ends)
          rw [texts_name, List.cons_append, List.append_assoc, lex_dot, read, spelled rest ends,
            prepend_cons, prepend_cons]
      | index index =>
          obtain ⟨inner, written, sequence⟩ := indices index List.mem_cons_self
          refine ⟨_, fun rest ends => ?_, .index sequence derived⟩
          rw [texts_index, List.cons_append, List.append_assoc, List.cons_append, lex_index,
            written _ (closes_cons (by decide) _), lex_closeBracket, spelled rest ends, prepend_cons,
            prepend_append, prepend_cons]

/-- A number that is followed by a point and a digit is not read by itself. -/
theorem readNumber_ne {digits : List Char} (all : digits.all Char.isDigit = true) {d : Char}
    (digit : d.isDigit = true) (rest : List Char) :
    (readNumber (digits ++ '.' :: d :: rest)).1 ≠ digits := by
  have all := List.all_eq_true.1 all
  have stop : ∀ c ∈ ('.' :: d :: rest).head?, c.isDigit = false := Text.stop_cons rfl _
  intro same
  simp only [readNumber, Text.takeWhile_append_of_stop all stop, Text.dropWhile_append_of_stop all stop,
    readFraction, digit, if_true, List.append_assoc, List.append_right_eq_self, List.append_eq_nil_iff]
    at same
  cases same.1

/-- Names that join are read together. -/
theorem joins_eq_false {first second : String} {rest : List Char} {token : Token}
    (word : isWord first.toList = true) (written : token.raw.toList = first.toList)
    (read : lex (first.toList ++ '.' :: (second.toList ++ rest)) =
      (lex ('.' :: (second.toList ++ rest))).cons token) : joins first second = false := by
  rw [Bool.eq_false_iff]
  intro together
  obtain ⟨digits, start⟩ := Bool.and_eq_true_iff.1 together
  obtain ⟨d, after, next, digit⟩ : ∃ d after, second.toList = d :: after ∧ d.isDigit = true := by
    cases same : second.toList with
    | nil => simp [same] at start
    | cons d after => exact ⟨d, after, rfl, by simpa [same] using start⟩
  obtain ⟨c, others, same, proper⟩ := exists_cons_of_isWord word
  have longer := readNumber_ne digits digit (after ++ rest)
  rw [next, List.cons_append] at read
  obtain ⟨_, _, _, trimmed, found, -⟩ := exists_read_of_lex (congrArg Reading.items read)
  rw [same] at digits longer trimmed
  rw [Text.trimStart, List.cons_append, List.dropWhile_cons_of_neg (by simp [isBlank_of_isNameChar proper])]
    at trimmed
  obtain ⟨rfl, rfl⟩ := List.cons.inj trimmed
  rw [read_of_isDigit (List.all_eq_true.1 digits c List.mem_cons_self)] at found
  obtain ⟨rfl, -⟩ := Prod.mk.inj (Except.ok.inj found)
  rw [same] at written
  exact longer (String.toList_ofList.symm.trans written)

/-- A name that is read by itself stays apart from the next one. -/
theorem apart_of_read {name : String} {segments : List Segment} {rest : List Char} {token : Token}
    (word : isWord name.toList = true) (written : token.raw.toList = name.toList)
    (read : lex (name.toList ++ ((Segment.texts false segments).toList ++ rest)) =
      (lex ((Segment.texts false segments).toList ++ rest)).cons token)
    (apart : Segment.apart segments = true) : Segment.apart (.name name :: segments) = true := by
  cases segments with
  | nil => rfl
  | cons next more =>
      cases next with
      | index _ => exact apart
      | name other =>
          rw [texts_name, List.cons_append, List.append_assoc] at read
          rw [Segment.apart, joins_eq_false word written read]
          exact apart

/-- Whatever derives segments takes their text whole, and their names stay apart. -/
theorem aligned_segments {depth : Nat} {segments : List Segment} {tokens after : List Token}
    {rest : List Char}
    (words : ∀ name, .name name ∈ segments → isWord name.toList = true)
    (indices : ∀ index, .index index ∈ segments →
      Aligned [] (SequenceOf (nested depth).conditional · index) index.text.toList (index.Within 0 depth))
    (same : (lex ((Segment.texts false segments).toList ++ rest)).items = tokens ++ after)
    (derived : SegmentsOf (nested depth).conditional tokens segments) :
    (Segment.apart segments = true ∧ ∀ index, .index index ∈ segments → index.Within 0 depth) ∧
      lex ((Segment.texts false segments).toList ++ rest) = (lex rest).prepend tokens := by
  induction derived with
  | nil => exact ⟨⟨rfl, fun _ member => absurd member List.not_mem_nil⟩, rfl⟩
  | @name token name tokens segments segment derived ih =>
      have word := words name List.mem_cons_self
      have others : ∀ name, .name name ∈ segments → isWord name.toList = true :=
        fun name among => words name (List.mem_cons_of_mem _ among)
      have written : token.raw.toList = name.toList := by cases segment <;> rfl
      rw [texts_name, List.cons_append, List.append_assoc, lex_dot] at same ⊢
      have later := (items_cons same).2
      have read := lex_of_word word later written
      rw [read] at later ⊢
      obtain ⟨⟨apart, all⟩, whole⟩ := ih others
        (fun index among => indices index (List.mem_cons_of_mem _ among)) (items_cons later).2
      refine ⟨⟨apart_of_read word written read apart, fun index among => all index ?_⟩, ?_⟩
      · exact (List.mem_cons.1 among).resolve_left fun other => by cases other
      · rw [whole, prepend_cons, prepend_cons]
  | @index inner tokens index segments sequence derived ih =>
      rw [texts_index, List.cons_append, List.append_assoc, List.cons_append, lex_index] at same ⊢
      have later := (items_cons same).2
      rw [List.append_assoc] at later
      obtain ⟨here, whole⟩ := indices index List.mem_cons_self inner _ _ (closes_cons (by decide) _)
        (stops_none _) later sequence
      rw [whole, lex_closeBracket] at later ⊢
      obtain ⟨⟨apart, all⟩, more⟩ := ih
        (fun name among => words name (List.mem_cons_of_mem _ among))
        (fun index among => indices index (List.mem_cons_of_mem _ among))
        (List.cons.inj (List.append_cancel_left later)).2
      refine ⟨⟨apart, fun other among => ?_⟩, ?_⟩
      · rcases List.mem_cons.1 among with same | among
        · cases same
          exact here
        · exact all other among
      · rw [more, prepend_cons, prepend_append, prepend_cons]

/-- The tokens of a path: its root, and the segments after it. -/
def PathOf (conditional : Rule Expr) (tokens : List Token) (path : Path) : Prop :=
  ∃ token start segments rest, tokens = token :: rest ∧ path.segments = start ++ segments ∧
    RootOf token path.root start ∧ SegmentsOf conditional rest segments

/-- The text of a path is that of its root token and of the segments after it. -/
theorem text_path {token : Token} {root : Root} {start : List Segment} (isRoot : RootOf token root start)
    (segments : List Segment) :
    (Path.text ⟨root, start ++ segments⟩).toList =
        token.raw.toList ++ (Segment.texts false segments).toList ∧
      root.starts (start ++ segments) = true := by
  cases isRoot with
  | name plain other =>
      constructor
      · simp [Path.text, Root.text, Segment.texts, Segment.text, raw, value]
      · simp [Root.starts, plain, other]
  | this => exact ⟨String.toList_append, rfl⟩
  | aliasName => exact ⟨String.toList_append, rfl⟩
  | attributeName => exact ⟨String.toList_append, rfl⟩

/-- The root of a well formed path reads as its token. -/
theorem exists_root {path : Path} (named : path.Named) (starts : path.root.starts path.segments = true) :
    ∃ token start segments, path.segments = start ++ segments ∧ RootOf token path.root start ∧
      ∀ rest, (∀ c ∈ rest.head?, isNameChar c = false) →
        lex (token.raw.toList ++ rest) = (lex rest).cons token := by
  obtain ⟨root, segments⟩ := path
  cases root with
  | context =>
      obtain ⟨name, rest, rfl, isName⟩ := named.root
      have plain : constant? name = none ∧ name ≠ "this" := by simpa [Root.starts] using starts
      exact ⟨_, _, _, rfl, .name plain.1 plain.2, fun rest stop => lex_identifier isName stop⟩
  | relative =>
      exact ⟨_, [], _, rfl, .this, fun rest stop => lex_identifier (by decide +kernel) stop⟩
  | ofAlias name =>
      refine ⟨_, [], _, rfl, .aliasName, fun rest stop => ?_⟩
      exact lex_aliasName named.root stop
  | ofAttribute name =>
      refine ⟨_, [], _, rfl, .attributeName, fun rest stop => ?_⟩
      exact lex_attributeName named.root stop

theorem joins_of_isName {name : String} (isName : isName name.toList = true) (next : String) :
    joins name next = false := by
  cases same : name.toList with
  | nil =>
      rw [same] at isName
      cases isName
  | cons c rest =>
      rw [same] at isName
      obtain ⟨start, -⟩ := Bool.and_eq_true_iff.1 isName
      simp [joins, same, isDigit_of_isNameStart start]

/-- A name that begins with no digit stays apart from all others. -/
theorem apart_root {token : Token} {root : Root} {start segments : List Segment}
    (isRoot : RootOf token root start) (named : Path.Named ⟨root, start ++ segments⟩) :
    Segment.apart (start ++ segments) = Segment.apart segments := by
  cases isRoot with
  | @name name =>
      obtain ⟨_, _, same, isName⟩ := named.root
      cases same
      cases segments with
      | nil => rfl
      | cons segment segments =>
          cases segment with
          | index _ => rfl
          | name next =>
              simp [Segment.apart, joins_of_isName isName next]
  | _ => rfl

/-- A path that fits reads back. -/
theorem exists_path {path : Path} {depth : Nat} (named : path.Named) (fits : path.Fits depth)
    (indices : ∀ index, .index index ∈ path.segments → ∃ tokens,
      Spelled index.text.toList tokens ∧ SequenceOf (nested depth).conditional tokens index) :
    ∃ tokens, (∀ rest, EndsPath rest → lex (path.text.toList ++ rest) = (lex rest).prepend tokens) ∧
      PathOf (nested depth).conditional tokens path := by
  obtain ⟨token, start, segments, same, isRoot, read⟩ := exists_root named fits.starts
  obtain ⟨root, whole⟩ := path
  simp only at same
  subst same
  have apart : Segment.apart segments = true := (apart_root isRoot named).symm.trans fits.apart
  obtain ⟨tokens, spelled, derived⟩ := exists_segments
    (fun name member => named.words name (List.mem_append_right start member)) apart
    fun index member => indices index (List.mem_append_right start member)
  refine ⟨token :: tokens, fun rest ends => ?_, token, start, segments, tokens, rfl, rfl, isRoot, derived⟩
  rw [(text_path isRoot segments).1, List.append_assoc, read _ (segments_stop segments ends),
    spelled rest ends, prepend_cons]

theorem exists_cons_raw {token : Token} {root : Root} {start segments : List Segment}
    (isRoot : RootOf token root start) (named : Path.Named ⟨root, start ++ segments⟩) :
    ∃ c word, token.raw.toList = c :: word ∧ Text.isBlank c = false := by
  cases isRoot with
  | name =>
      obtain ⟨_, _, same, isName⟩ := named.root
      cases same
      obtain ⟨c, word, same, proper⟩ := exists_cons_of_isWord (by rw [isWord, isName, Bool.true_or])
      exact ⟨c, word, same, isBlank_of_isNameChar proper⟩
  | this => exact ⟨'t', _, rfl, rfl⟩
  | aliasName => exact ⟨'#', _, String.toList_append, rfl⟩
  | attributeName => exact ⟨'@', _, String.toList_append, rfl⟩

/-- What derives a path takes its text whole, and the path fits. -/
theorem aligned_path {path : Path} {depth : Nat} (named : path.Named) {tokens after : List Token}
    {rest : List Char}
    (indices : ∀ index, .index index ∈ path.segments →
      Aligned [] (SequenceOf (nested depth).conditional · index) index.text.toList (index.Within 0 depth))
    (same : (lex (path.text.toList ++ rest)).items = tokens ++ after)
    (derived : PathOf (nested depth).conditional tokens path) :
    path.Fits depth ∧ lex (path.text.toList ++ rest) = (lex rest).prepend tokens := by
  obtain ⟨token, start, segments, tokens, rfl, split, isRoot, derived⟩ := derived
  obtain ⟨root, whole⟩ := path
  simp only at split
  subst split
  obtain ⟨text, starts⟩ := text_path isRoot segments
  rw [text, List.append_assoc] at same ⊢
  have read : lex (token.raw.toList ++ ((Segment.texts false segments).toList ++ rest)) =
      (lex ((Segment.texts false segments).toList ++ rest)).cons token := by
    obtain ⟨c, word, written, dark⟩ := exists_cons_raw isRoot named
    rw [written] at same ⊢
    exact lex_of_head dark same written
  rw [read] at same ⊢
  obtain ⟨⟨apart, all⟩, whole⟩ := aligned_segments
    (fun name member => named.words name (List.mem_append_right start member))
    (fun index member => indices index (List.mem_append_right start member)) (items_cons same).2 derived
  refine ⟨⟨starts, (apart_root isRoot named).trans apart, fun index member => all index ?_⟩, ?_⟩
  · refine (List.mem_append.1 member).resolve_left fun first => ?_
    cases isRoot with
    | name => cases List.mem_singleton.1 first
    | _ => exact List.not_mem_nil first
  · rw [whole, prepend_cons]

end Stencil.Printed
