import Stencil.Markup.Events
import Stencil.Proofs.StartTag

/-! Events of markup as it is written: tags one by one, and the text between them. -/

set_option autoImplicit false

namespace Stencil.Markup

open StartTag (WrittenAttribute isTagNameChar)

theorem eventsFrom_nil (before : List Char) : eventsFrom before [] = textEvents before.reverse := by
  rw [eventsFrom]

theorem eventsFrom_tag {text rest : List Char} {events : List Event}
    (found : readTag? ('<' :: text) = some (events, rest)) (before : List Char) :
    eventsFrom before ('<' :: text) = textEvents before.reverse ++ events ++ eventsFrom [] rest := by
  rw [eventsFrom, if_neg (by simp)]
  split
  · rename_i same
    cases found.symm.trans same
    rfl
  · rename_i absent
    cases found.symm.trans absent

/-- A bracket at which no tag stands is text. -/
theorem eventsFrom_bracket {text : List Char} (absent : readTag? ('<' :: text) = none)
    (before : List Char) : eventsFrom before ('<' :: text) = eventsFrom ('<' :: before) text := by
  rw [eventsFrom, if_neg (by simp)]
  split
  · rename_i found
    cases absent.symm.trans found
  · rfl

/-- Text up to a bracket is kept. -/
-- The text before a tag is collected in reverse.
theorem eventsFrom_append {run : List Char} (noBracket : '<' ∉ run) (before rest : List Char) :
    eventsFrom before (run ++ rest) = eventsFrom (run.reverse ++ before) rest := by
  induction run generalizing before with
  | nil => rfl
  | cons c run ih =>
      obtain ⟨differs, later⟩ := List.ne_and_not_mem_of_not_mem_cons noBracket
      rw [List.cons_append, eventsFrom, if_pos differs.symm, ih later, List.reverse_cons,
        List.append_assoc]
      rfl

theorem afterBracket?_append {text : List Char} (plain : '>' ∉ text) (rest : List Char) :
    afterBracket? (text ++ '>' :: rest) = some rest := by
  have inside : ∀ c ∈ text, (c != '>') = true := by
    intro c member
    simpa using ne_of_mem_of_not_mem member plain
  have stop : ∀ c ∈ ('>' :: rest).head?, (c != '>') = false := by simp
  rw [afterBracket?, Text.dropWhile_append_of_stop inside stop]

/-- The end of a start tag as it is written. -/
def closing (selfClosing : Bool) : List Char :=
  if selfClosing then ['/', '>'] else ['>']

section

variable (selfClosing : Bool) (rest : List Char)

theorem ending?_closing : StartTag.ending? (closing selfClosing ++ rest) = some (selfClosing, rest) := by
  cases selfClosing <;> rfl

theorem stops_closing : StartTag.Stops (closing selfClosing ++ rest) := by
  have bracket : Text.trimStart ('>' :: rest) = '>' :: rest := StartTag.trimStart_of_not_blank rfl rest
  have slash : Text.trimStart ('/' :: '>' :: rest) = '/' :: '>' :: rest :=
    StartTag.trimStart_of_not_blank rfl ('>' :: rest)
  cases selfClosing
  all_goals
    constructor
    · exact Text.stop_cons rfl _
    · simp [closing, bracket, slash]

theorem head?_closing : ∀ c ∈ (closing selfClosing ++ rest).head?, isTagNameChar c = false := by
  cases selfClosing
  all_goals exact Text.stop_cons rfl _

end

/-- The name of a tag is not empty, and no character in it ends it. -/
def ProperTag (name : List Char) : Prop :=
  name ≠ [] ∧ ∀ c ∈ name, isTagNameChar c = true

def writtenStart (name : List Char) (entries : List WrittenAttribute) (selfClosing : Bool) : List Char :=
  '<' :: (name ++ (entries.flatMap (·.written) ++ closing selfClosing))

def writtenEnd (name : List Char) : List Char :=
  '<' :: '/' :: (name ++ ['>'])

variable {name : List Char} {entries : List WrittenAttribute}

theorem ProperTag.exists_cons (proper : ProperTag name) :
    ∃ c others, name = c :: others ∧ isTagNameChar c = true := by
  obtain ⟨c, others, rfl⟩ := List.exists_cons_of_ne_nil proper.1
  exact ⟨c, others, rfl, proper.2 c List.mem_cons_self⟩

theorem head?_attributes (entries : List WrittenAttribute) (selfClosing : Bool) (rest : List Char) :
    ∀ c ∈ (entries.flatMap (·.written) ++ (closing selfClosing ++ rest)).head?,
      isTagNameChar c = false := by
  cases entries with
  | nil => exact head?_closing selfClosing rest
  | cons entry others => exact Text.stop_cons rfl _

/-- A start tag is read as it was written, with its name in lower case. -/
theorem readStartTag?_written (tagged : ProperTag name) (proper : ∀ entry ∈ entries, entry.Proper)
    (selfClosing : Bool) (rest : List Char) :
    readStartTag? (writtenStart name entries selfClosing ++ rest) =
      let tag := String.ofList (writtenStart name entries selfClosing)
      let lower := String.ofList (lowercase name)
      let after := afterStartTag tag lower selfClosing rest
      some (.startTag tag lower (entries.map (·.read)) :: after.1, after.2) := by
  have stop := head?_attributes entries selfClosing rest
  have named := Text.takeWhile_append_of_stop tagged.2 stop
  have region := Text.dropWhile_append_of_stop tagged.2 stop
  have closed := StartTag.close?_flatMap_written proper (stops_closing selfClosing rest)
    (ending?_closing selfClosing rest)
  have filled : name.isEmpty = false := by simpa using tagged.1
  have whole : '<' :: (name ++ (entries.flatMap (·.written) ++ (closing selfClosing ++ rest))) =
      writtenStart name entries selfClosing ++ rest := by
    simp [writtenStart]
  rw [← whole]
  simp only [readStartTag?, named, region, filled, Bool.false_eq_true, if_false,
    StartTag.findClose?_eq, closed, Option.map_some, upTo_append,
    StartTag.attributes_flatMap_written proper]
  rw [whole, upTo_append]

/-- What is neither a comment nor an end tag is tried as a start tag first. -/
theorem readTag?_eq {c : Char} {text : List Char} (exclamation : c ≠ '!') (slash : c ≠ '/') :
    readTag? ('<' :: c :: text) =
      (readStartTag? ('<' :: c :: text)).or (single (readOther? ('<' :: c :: text))) := by
  have noComment : readComment? ('<' :: c :: text) = none := by
    simp [readComment?, Text.strip?, exclamation.symm]
  have noEnd : readEndTag? ('<' :: c :: text) = none := by
    simp [readEndTag?, Text.strip?, slash.symm]
  simp only [readTag?, constructs, List.findSome?_cons, noComment, noEnd, single, Option.map_none,
    List.findSome?_nil]
  cases readStartTag? ('<' :: c :: text) with
  | some found => rfl
  | none => cases readOther? ('<' :: c :: text) <;> rfl

/-- A name begins with neither mark, so what is read as a start tag is one. -/
theorem readTag?_of_readStartTag? {text : List Char} {read : List Event × List Char}
    (found : readStartTag? text = some read) : readTag? text = some read := by
  obtain ⟨front, later, -, -, -, rfl, named, -⟩ := exists_of_readStartTag? found
  rw [List.cons_append] at found ⊢
  cases same : front ++ later with
  | nil => exact absurd (by rw [same]; rfl) named
  | cons c inside =>
      rw [same] at found named
      have letter : isTagNameChar c = true := by
        cases other : isTagNameChar c with
        | true => rfl
        | false => exact absurd (by simp [other]) named
      have exclamation : c ≠ '!' := by
        rintro rfl
        exact absurd letter (by decide)
      have slash : c ≠ '/' := by
        rintro rfl
        exact absurd letter (by decide)
      rw [readTag?_eq exclamation slash, found]
      rfl

theorem readTag?_writtenStart (tagged : ProperTag name) (proper : ∀ entry ∈ entries, entry.Proper)
    (selfClosing : Bool) (rest : List Char) :
    readTag? (writtenStart name entries selfClosing ++ rest) =
      readStartTag? (writtenStart name entries selfClosing ++ rest) := by
  have read := readStartTag?_written tagged proper selfClosing rest
  exact (readTag?_of_readStartTag? read).trans read.symm

theorem readTag?_writtenEnd (tagged : ProperTag name) (rest : List Char) :
    readTag? (writtenEnd name ++ rest) =
      some ([.endTag (String.ofList (writtenEnd name)) (String.ofList (lowercase name))], rest) := by
  have stop : ∀ c ∈ ('>' :: rest).head?, isTagNameChar c = false := Text.stop_cons rfl rest
  have filled : name.isEmpty = false := by simpa using tagged.1
  have whole : '<' :: '/' :: (name ++ '>' :: rest) = writtenEnd name ++ rest := by
    simp [writtenEnd]
  have noComment : readComment? (writtenEnd name ++ rest) = none := by
    simp [readComment?, writtenEnd, Text.strip?]
  have read : readEndTag? (writtenEnd name ++ rest) =
      some (.endTag (String.ofList (writtenEnd name)) (String.ofList (lowercase name)), rest) := by
    rw [← whole]
    simp only [readEndTag?, Text.strip?, Text.takeWhile_append_of_stop tagged.2 stop,
      Text.dropWhile_append_of_stop tagged.2 stop, filled, if_true, Bool.false_eq_true, if_false]
    rw [whole]
    simp [afterBracket?, upTo_append]
  simp only [readTag?, constructs, List.findSome?_cons, noComment, read, single, Option.map_none,
    Option.map_some]

theorem eventsFrom_start (tagged : ProperTag name) (proper : ∀ entry ∈ entries, entry.Proper)
    (selfClosing : Bool) (before rest : List Char) :
    eventsFrom before (writtenStart name entries selfClosing ++ rest) =
      let tag := String.ofList (writtenStart name entries selfClosing)
      let lower := String.ofList (lowercase name)
      let after := afterStartTag tag lower selfClosing rest
      textEvents before.reverse ++ .startTag tag lower (entries.map (·.read)) :: after.1 ++
        eventsFrom [] after.2 := by
  have found := readTag?_writtenStart tagged proper selfClosing rest
  rw [readStartTag?_written tagged proper] at found
  exact eventsFrom_tag found before

/-- A start tag that raw text does not follow is an event by itself, -/
theorem eventsFrom_writtenStart (tagged : ProperTag name) (proper : ∀ entry ∈ entries, entry.Proper)
    (notRaw : isRawText (String.ofList (lowercase name)) = false) (before rest : List Char) :
    eventsFrom before (writtenStart name entries false ++ rest) =
      textEvents before.reverse ++
        [.startTag (String.ofList (writtenStart name entries false)) (String.ofList (lowercase name))
          (entries.map (·.read))] ++ eventsFrom [] rest := by
  rw [eventsFrom_start tagged proper]
  simp only [afterStartTag, notRaw, Bool.false_eq_true, if_false]

/-- and so is every end tag. -/
theorem eventsFrom_writtenEnd (tagged : ProperTag name) (before rest : List Char) :
    eventsFrom before (writtenEnd name ++ rest) =
      textEvents before.reverse ++
        [.endTag (String.ofList (writtenEnd name)) (String.ofList (lowercase name))] ++
        eventsFrom [] rest :=
  eventsFrom_tag (readTag?_writtenEnd tagged rest) before

end Stencil.Markup
