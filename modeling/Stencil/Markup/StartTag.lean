import Stencil.Text.Blank

/-! Start tags of markup.

After its name a start tag has attributes, each after blanks, and then its end.
The text of a value is taken as quoted, as a run of characters, or as empty, the
first of these from which the tag ends.
-/

set_option autoImplicit false

namespace Stencil.StartTag

open Text (isBlank trimStart)

def isTagNameChar (c : Char) : Bool :=
  !(isBlank c || c == '=' || c == '/' || c == '!' || c == '>')

def isAttributeNameChar (c : Char) : Bool :=
  !(isBlank c || c == '=' || c == '/' || c == '>')

def isBareValueChar (c : Char) : Bool :=
  !(isBlank c || c == '>')

/-- The end of a tag: whether the tag closes itself, and what follows it. -/
def ending? (text : List Char) : Option (Bool × List Char) :=
  match trimStart text with
  | '>' :: rest => some (false, rest)
  | '/' :: rest =>
      match trimStart rest with
      | '>' :: rest => some (true, rest)
      | _ => none
  | _ => none

/-- A value in quotes at the start of a text, and what follows it. -/
def quotedValue? : List Char → Option (List Char × List Char)
  | [] => none
  | quote :: rest =>
      if quote = '"' || quote = '\'' then
        match rest.dropWhile (· != quote) with
        | _ :: after => some (rest.takeWhile (· != quote), after)
        | [] => none
      else none

/-- A value without quotes at the start of a text, and what follows it. -/
def bareValue? (text : List Char) : Option (List Char × List Char) :=
  if (text.takeWhile isBareValueChar).isEmpty then none
  else some (text.takeWhile isBareValueChar, text.dropWhile isBareValueChar)

/-- What may follow the name of an attribute, in order of preference: the text
after each possible value, or after the name if there is no equals sign. -/
def valueEnds (text : List Char) : List (List Char) :=
  match trimStart text with
  | '=' :: rest =>
      let value := trimStart rest
      ((quotedValue? value).map (·.2)).toList ++ ((bareValue? value).map (·.2)).toList ++ [rest]
  | _ => [text]

/-- What may follow the attribute at the start of a text; nothing if there is
none. -/
def attributeEnds (text : List Char) : List (List Char) :=
  let named := trimStart text
  if named.length = text.length || (named.takeWhile isAttributeNameChar).isEmpty then []
  else valueEnds (named.dropWhile isAttributeNameChar)

theorem quotedValue?_suffix {text value after : List Char}
    (found : quotedValue? text = some (value, after)) : after <:+ text := by
  unfold quotedValue? at found
  split at found
  · exact absurd found (by simp)
  · rename_i quote rest
    split at found
    · split at found
      · rename_i c tail dropped
        obtain ⟨rfl, rfl⟩ := Prod.mk.inj (Option.some.inj found)
        have kept : c :: tail <:+ rest := dropped ▸ List.dropWhile_suffix _
        exact (List.suffix_cons c tail).trans (kept.trans (List.suffix_cons quote rest))
      · exact absurd found (by simp)
    · exact absurd found (by simp)

theorem bareValue?_suffix {text value after : List Char}
    (found : bareValue? text = some (value, after)) : after <:+ text := by
  unfold bareValue? at found
  split at found
  · exact absurd found (by simp)
  · obtain ⟨rfl, rfl⟩ := Prod.mk.inj (Option.some.inj found)
    exact List.dropWhile_suffix _

theorem valueEnds_suffix {text after : List Char} (member : after ∈ valueEnds text) :
    after <:+ text := by
  unfold valueEnds at member
  split at member
  · rename_i rest equals
    have rested : rest <:+ text :=
      (List.suffix_cons '=' rest).trans (equals ▸ Text.trimStart_suffix text)
    have trimmed := (Text.trimStart_suffix rest).trans rested
    simp only [List.mem_append, Option.mem_toList, Option.map_eq_some_iff, List.mem_singleton] at member
    rcases member with (⟨⟨_, _⟩, found, rfl⟩ | ⟨⟨_, _⟩, found, rfl⟩) | rfl
    · exact (quotedValue?_suffix found).trans trimmed
    · exact (bareValue?_suffix found).trans trimmed
    · exact rested
  · obtain rfl := List.mem_singleton.1 member
    exact List.suffix_refl _

theorem attributeEnds_suffix {text after : List Char} (member : after ∈ attributeEnds text) :
    after <:+ text := by
  simp only [attributeEnds] at member
  split at member
  · exact absurd member (by simp)
  · exact (valueEnds_suffix member).trans
      ((List.dropWhile_suffix _).trans (Text.trimStart_suffix text))

theorem length_of_mem_attributeEnds {text after : List Char} (member : after ∈ attributeEnds text) :
    after.length < text.length := by
  simp only [attributeEnds] at member
  split at member
  · exact absurd member (by simp)
  · rename_i named
    simp only [Bool.or_eq_true, decide_eq_true_eq, List.isEmpty_iff, not_or] at named
    have := (valueEnds_suffix member).length_le
    have := Text.length_dropWhile_le isAttributeNameChar (trimStart text)
    have := Text.length_trimStart_le text
    omega

/-- The rest of a tag after its name: the text from which the attributes are
read ends where `tail` begins. -/
structure Close where
  tail : List Char
  selfClosing : Bool
  rest : List Char
  deriving DecidableEq, Repr

/-- The rest of a tag from a place between attributes. -/
def close? (text : List Char) : Option Close :=
  match ending? text with
  | some (selfClosing, rest) => some ⟨text, selfClosing, rest⟩
  | none => (attributeEnds text).attach.findSome? fun after => close? after.1
termination_by text.length
decreasing_by exact length_of_mem_attributeEnds after.2

theorem findSome?_attach {α β : Type} (f : α → Option β) (items : List α) :
    items.attach.findSome? (fun item => f item.1) = items.findSome? f := by
  conv => rhs; rw [← List.attach_map_subtype_val items, List.findSome?_map]
  rfl

theorem close?_eq (text : List Char) : close? text =
    match ending? text with
    | some (selfClosing, rest) => some ⟨text, selfClosing, rest⟩
    | none => (attributeEnds text).findSome? close? := by
  rw [close?]
  split
  · rfl
  · exact findSome?_attach close? _

theorem ending?_suffix {text rest : List Char} {selfClosing : Bool}
    (found : ending? text = some (selfClosing, rest)) : rest <:+ text ∧ rest.length < text.length := by
  have trimmed := Text.trimStart_suffix text
  unfold ending? at found
  split at found
  · rename_i tail ended
    obtain ⟨rfl, rfl⟩ := Prod.mk.inj (Option.some.inj found)
    rw [ended] at trimmed
    exact ⟨(List.suffix_cons _ _).trans trimmed, trimmed.length_le⟩
  · rename_i tail slashed
    rw [slashed] at trimmed
    split at found
    · rename_i last ended
      obtain ⟨rfl, rfl⟩ := Prod.mk.inj (Option.some.inj found)
      have inner := ended ▸ Text.trimStart_suffix tail
      have outer := (List.suffix_cons '/' tail).trans trimmed
      exact ⟨((List.suffix_cons _ _).trans inner).trans outer, (inner.trans outer).length_le⟩
    · exact absurd found (by simp)
  · exact absurd found (by simp)

theorem mem_of_ending? {text rest : List Char} {selfClosing : Bool}
    (found : ending? text = some (selfClosing, rest)) : '>' ∈ text := by
  have trimmed := Text.trimStart_suffix text
  unfold ending? at found
  split at found
  · rename_i tail ended
    exact trimmed.subset (ended ▸ List.mem_cons_self)
  · rename_i tail slashed
    split at found
    · rename_i last ended
      have inner : '>' ∈ tail := (Text.trimStart_suffix tail).subset (ended ▸ List.mem_cons_self)
      exact trimmed.subset (slashed ▸ List.mem_cons_of_mem '/' inner)
    · exact absurd found (by simp)
  · exact absurd found (by simp)

theorem close?_suffix (text : List Char) {close : Close} (found : close? text = some close) :
    close.tail <:+ text ∧ ending? close.tail = some (close.selfClosing, close.rest) := by
  rw [close?_eq] at found
  split at found
  · rename_i selfClosing rest ended
    obtain rfl := Option.some.inj found
    exact ⟨List.suffix_refl _, ended⟩
  · obtain ⟨after, member, closed⟩ := List.exists_of_findSome?_eq_some found
    obtain ⟨suffix, ended⟩ := close?_suffix after closed
    exact ⟨suffix.trans (attributeEnds_suffix member), ended⟩
termination_by text.length
decreasing_by exact length_of_mem_attributeEnds member

/-- The value after the name of an attribute, if an equals sign and a value
stand there, and what follows. -/
def value? (text : List Char) : Option (List Char × List Char) :=
  match trimStart text with
  | '=' :: rest => (quotedValue? (trimStart rest)).or (bareValue? (trimStart rest))
  | _ => none

theorem value?_suffix {text value after : List Char} (found : value? text = some (value, after)) :
    after <:+ text := by
  unfold value? at found
  split at found
  · rename_i rest equals
    have inner := (Text.trimStart_suffix rest).trans
      ((List.suffix_cons '=' rest).trans (equals ▸ Text.trimStart_suffix text))
    rcases Option.or_eq_some_iff.1 found with quoted | ⟨_, bare⟩
    · exact (quotedValue?_suffix quoted).trans inner
    · exact (bareValue?_suffix bare).trans inner
  · exact absurd found (by simp)

theorem length_lt_of_dropWhile {p : Char → Bool} {text others : List Char} {first : Char}
    (dropped : text.dropWhile p = first :: others) : others.length < text.length := by
  have := Text.length_dropWhile_le p text
  simp only [dropped, List.length_cons] at this
  omega

/-- The attributes in a text, in order; a name without a value has none. -/
def attributes (text : List Char) : List (String × Option String) :=
  match named : text.dropWhile (!isAttributeNameChar ·) with
  | [] => []
  | first :: others =>
      let name := String.ofList ((first :: others).takeWhile isAttributeNameChar)
      have : others.length < text.length := length_lt_of_dropWhile named
      have := Text.length_dropWhile_le isAttributeNameChar others
      match found : value? (others.dropWhile isAttributeNameChar) with
      | some (value, rest) =>
          have := (value?_suffix found).length_le
          (name, some (String.ofList value)) :: attributes rest
      | none => (name, none) :: attributes (others.dropWhile isAttributeNameChar)
termination_by text.length

end Stencil.StartTag
