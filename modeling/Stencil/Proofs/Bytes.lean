import Stencil.Text.Bytes

/-! Offsets into a text, in UTF-8 bytes. -/

set_option autoImplicit false

namespace Stencil.Text

@[simp] theorem byteSize_nil : byteSize [] = 0 := rfl

@[simp] theorem byteSize_cons (c : Char) (rest : List Char) :
    byteSize (c :: rest) = c.utf8Size + byteSize rest := rfl

@[simp] theorem byteSize_append (first second : List Char) :
    byteSize (first ++ second) = byteSize first + byteSize second := by
  induction first with
  | nil => simp
  | cons c rest ih => simp only [List.cons_append, byteSize_cons, ih, Nat.add_assoc]

theorem byteSize_of_append {first second text : List Char} (whole : first ++ second = text) :
    byteSize text = byteSize first + byteSize second := by
  rw [← whole, byteSize_append]

@[simp] theorem byteSize_reverse (text : List Char) : byteSize text.reverse = byteSize text := by
  induction text with
  | nil => rfl
  | cons c rest ih =>
      rw [List.reverse_cons, byteSize_append, ih, byteSize_cons, byteSize_cons, byteSize_nil]
      omega

theorem eq_nil_of_byteSize_eq_zero {text : List Char} (none : byteSize text = 0) : text = [] := by
  cases text with
  | nil => rfl
  | cons c rest =>
      have wide := c.utf8Size_pos
      rw [byteSize_cons] at none
      omega

/-- Beginnings of one text are of different sizes. -/
theorem append_inj_of_byteSize {first second front back : List Char}
    (same : first ++ second = front ++ back) (size : byteSize first = byteSize front) :
    first = front ∧ second = back := by
  rcases List.append_eq_append_iff.1 same with ⟨more, rfl, rfl⟩ | ⟨more, rfl, rfl⟩
  all_goals
    rw [byteSize_append] at size
    obtain rfl := @eq_nil_of_byteSize_eq_zero more (by omega)
    simp

theorem byteSize_le_of_prefix {part text : List Char} (isPrefix : part <+: text) :
    byteSize part ≤ byteSize text := by
  obtain ⟨rest, rfl⟩ := isPrefix
  rw [byteSize_append]
  omega

theorem byteSize_le_of_suffix {part text : List Char} (isSuffix : part <:+ text) :
    byteSize part ≤ byteSize text := by
  obtain ⟨rest, rfl⟩ := isSuffix
  rw [byteSize_append]
  omega

/-- A character begins or the text ends at the offset. -/
def IsBoundary (text : List Char) (offset : Nat) : Prop :=
  ∃ before after, before ++ after = text ∧ byteSize before = offset

theorem isBoundary_append (before after : List Char) : IsBoundary (before ++ after) (byteSize before) :=
  ⟨before, after, rfl, rfl⟩

theorem isBoundary_cons_iff {c : Char} {rest : List Char} {offset : Nat} :
    IsBoundary (c :: rest) (c.utf8Size + offset) ↔ IsBoundary rest offset := by
  constructor
  · rintro ⟨before, after, whole, size⟩
    cases before with
    | nil =>
        have wide := c.utf8Size_pos
        rw [byteSize_nil] at size
        omega
    | cons d before =>
        obtain ⟨rfl, later⟩ := List.cons.inj whole
        exact ⟨before, after, later, Nat.add_left_cancel size⟩
  · rintro ⟨before, after, rfl, rfl⟩
    exact ⟨c :: before, after, rfl, rfl⟩

/-- Between the first byte of a character and the next character nothing begins. -/
theorem not_isBoundary_inside {before after : List Char} {c : Char} {offset : Nat}
    (above : byteSize before < offset) (below : offset < byteSize before + c.utf8Size) :
    ¬ IsBoundary (before ++ c :: after) offset := by
  rintro ⟨first, second, same, rfl⟩
  -- A split of the text ends before the character, or takes all of it.
  rcases List.append_eq_append_iff.1 same with ⟨more, rfl, -⟩ | ⟨more, rfl, tail⟩
  · rw [byteSize_append] at above
    omega
  · cases more with
    | nil => simp at above
    | cons d more =>
        obtain ⟨rfl, -⟩ := List.cons.inj tail
        rw [byteSize_append, byteSize_cons] at below
        omega

/-- What stands from an offset on, if a character begins there or the text ends. -/
def fromOffset? : Nat → List Char → Option (List Char)
  | 0, text => some text
  | _ + 1, [] => none
  | offset + 1, c :: rest =>
      if c.utf8Size ≤ offset + 1 then fromOffset? (offset + 1 - c.utf8Size) rest else none

/-- The offset of the first character that is the mark. -/
def offset? (mark : Char) : List Char → Option Nat
  | [] => none
  | c :: rest => if c = mark then some 0 else (offset? mark rest).map (c.utf8Size + ·)

theorem append_of_fromOffset? {offset : Nat} {text rest : List Char}
    (found : fromOffset? offset text = some rest) :
    ∃ before, before ++ rest = text ∧ byteSize before = offset := by
  fun_induction fromOffset? offset text with
  | case1 text =>
      cases found
      exact ⟨[], rfl, rfl⟩
  | case2 => cases found
  | case3 offset c more fits ih =>
      obtain ⟨before, rfl, size⟩ := ih found
      exact ⟨c :: before, rfl, by rw [byteSize_cons, size]; omega⟩
  | case4 => cases found

@[simp] theorem fromOffset?_append (before rest : List Char) :
    fromOffset? (byteSize before) (before ++ rest) = some rest := by
  induction before with
  | nil => cases rest <;> rfl
  | cons c before ih =>
      have wide := c.utf8Size_pos
      obtain ⟨offset, size⟩ : ∃ offset, c.utf8Size + byteSize before = offset + 1 :=
        ⟨c.utf8Size + byteSize before - 1, by omega⟩
      have later : offset + 1 - c.utf8Size = byteSize before := by omega
      rw [byteSize_cons, size, List.cons_append, fromOffset?, if_pos (by omega), later, ih]

theorem offset?_lt {mark : Char} {text : List Char} {offset : Nat}
    (found : offset? mark text = some offset) : offset < byteSize text := by
  induction text generalizing offset with
  | nil => cases found
  | cons c rest ih =>
      have wide := c.utf8Size_pos
      simp only [offset?] at found
      rw [byteSize_cons]
      split at found
      · cases found
        omega
      · obtain ⟨inner, inside, rfl⟩ := Option.map_eq_some_iff.1 found
        have below := ih inside
        omega

end Stencil.Text
